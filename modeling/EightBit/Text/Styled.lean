/-
  EightBit.Text.Styled
  ────────────────────
  **TEXT WITH COLOUR.**

  A styled text is a sequence of visible text and terminal escapes.  It has
  two readings: `render`, with the escapes written out as `ESC [ code m`,
  and `plain`, with the visible text alone.

  Main results:
    • `plain_append` — texts one after another are seen one after another;
    • `plain_paint`  — a style is not seen.
-/
import EightBit.Text.Basic

namespace EightBit

/-! ## §1. Styles. -/

/-- The colours in use. -/
inductive Color where
  | red | green | yellow | blue | magenta | cyan
  deriving DecidableEq, Repr

/-- The emphases in use. -/
inductive Emphasis where
  | strong | dim | underline
  deriving DecidableEq, Repr

/-- A colour and an emphasis, each of which may be absent. -/
structure Style where
  color : Option Color
  emphasis : Option Emphasis
  deriving DecidableEq, Repr

def Color.code : Color → Text
  | .red => "31".toList
  | .green => "32".toList
  | .yellow => "33".toList
  | .blue => "34".toList
  | .magenta => "35".toList
  | .cyan => "36".toList

def Emphasis.code : Emphasis → Text
  | .strong => "1".toList
  | .dim => "2".toList
  | .underline => "4".toList

/-- The escape code that switches the emphasis off. -/
def Emphasis.endCode : Emphasis → Text
  | .strong | .dim => "22".toList
  | .underline => "24".toList

namespace Style

/-- The codes before a text of this style: colour first, then emphasis. -/
def opening (s : Style) : List Text :=
  (s.color.map Color.code).toList ++ (s.emphasis.map Emphasis.code).toList

/-- The codes after a text of this style: the colour ends first. -/
def closing (s : Style) : List Text :=
  (s.color.map fun _ => "39".toList).toList ++ (s.emphasis.map Emphasis.endCode).toList

def colored (c : Color) : Style := ⟨some c, none⟩

def strong (c : Color) : Style := ⟨some c, some .strong⟩

def dim : Style := ⟨none, some .dim⟩

def underline : Style := ⟨none, some .underline⟩

end Style

/-! ## §2. Styled text. -/

/-- A stretch of visible text, or a terminal escape. -/
inductive Piece where
  | visible (t : Text)
  | escape (code : Text)
  deriving DecidableEq, Repr

/-- Visible text and escapes in the order of writing. -/
abbrev Styled := List Piece

namespace Styled

def ofText (t : Text) : Styled := [.visible t]

def paint (s : Style) (x : Styled) : Styled :=
  s.opening.map .escape ++ x ++ s.closing.map .escape

/-- The first text in one colour and the second in another, which takes over
without an end of the first. -/
def twoTone (first second : Color) (x y : Styled) : Styled :=
  .escape first.code :: x ++ paint (.colored second) y

/-- The visible text alone. -/
def plain (x : Styled) : Text :=
  (x.map fun | .visible t => t | .escape _ => []).flatten

/-- The text with its escapes written out. -/
def render (x : Styled) : Text :=
  (x.map fun
    | .visible t => t
    | .escape code => "\x1b[".toList ++ code ++ ['m']).flatten

/-- The styled texts one after another with `separator` between them. -/
def joinWith (separator : Text) (xs : List Styled) : Styled :=
  (xs.intersperse (ofText separator)).flatten

/-- Texts one after another are seen one after another. -/
theorem plain_append (x y : Styled) : (x ++ y : Styled).plain = x.plain ++ y.plain := by
  simp [plain]

theorem plain_escapes (codes : List Text) : plain (codes.map .escape) = [] := by
  induction codes with
  | nil => rfl
  | cons code codes ih => exact ih

/-- A style is not seen. -/
theorem plain_paint (s : Style) (x : Styled) : (paint s x).plain = x.plain := by
  rw [paint, plain_append, plain_append, plain_escapes, plain_escapes, List.nil_append,
    List.append_nil]

theorem plain_ofText (t : Text) : (ofText t).plain = t := List.append_nil t

end Styled

/-! ## §3. Escapes in a written text. -/

/-- The text without what stands from an escape character to the next `m`. -/
def Text.withoutEscapes (t : Text) : Text := go false t
where
  go : Bool → Text → Text
    | _, [] => []
    | true, c :: cs => go (c != 'm') cs
    | false, c :: cs => if c = '\x1b' then go true cs else c :: go false cs

end EightBit