/-
  EightBit.Source.Span
  ────────────────────
  **PLACES IN A SOURCE.**

  A span is a half-open interval of byte offsets into the UTF-8 form of a
  source.  It is shown as the line and column of its start, both counted
  from zero, the column in bytes.
-/
import EightBit.Text.Basic

namespace EightBit

/-! ## §1. Positions. -/

/-- A line and a column, both counted from zero, the column in bytes. -/
structure Position where
  line : Nat
  column : Nat
  deriving DecidableEq, Repr

namespace Position

def lastLine (t : Text) : Text := (t.reverse.takeWhile (· ≠ '\n')).reverse

def after (t : Text) : Position := ⟨t.count '\n', (lastLine t).width⟩

end Position

/-! ## §2. Spans. -/

/-- The byte offsets from `start` up to and without `stop`. -/
structure Span where
  start : Nat
  stop : Nat
  deriving DecidableEq, Repr

namespace Span

/-- The smallest span that covers both. -/
def join (s t : Span) : Span := ⟨min s.start t.start, max s.stop t.stop⟩

/-- The position of the span's start, which counts as the end of the source if
it is past it; none inside a character. -/
def position? (s : Span) (source : Text) : Option Position :=
  (source.splitAt? (min s.start source.width)).map fun cut => Position.after cut.1

/-- The text of the span, both ends moved back to the end of the source if
they are past it; empty if an end is inside a character or they are crossed. -/
def slice (s : Span) (source : Text) : Text :=
  let start := min s.start source.width
  let stop := min s.stop source.width
  if stop < start then []
  else
    match source.splitAt? start with
    | none => []
    | some (_, rest) =>
      match rest.splitAt? (stop - start) with
      | none => []
      | some (middle, _) => middle

end Span

end EightBit
