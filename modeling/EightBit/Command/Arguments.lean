/-
  EightBit.Command.Arguments
  ──────────────────────────
  **THE ARGUMENTS OF A COMMAND.**

  A command takes options, with or without a value, and at most one
  positional argument, in any order.  An option has a short form, of which
  several can be bundled behind one dash, and a long form; its value stands
  behind it or is the next argument, and is looked at before the arguments after it.
  Each option is given at most once.
-/
import EightBit.Text.Decimal

namespace EightBit

/-- An option of a command. -/
structure OptionSpec where
  short : Char
  long : Text
  /-- Whether the option takes a value. -/
  valued : Bool
  /-- Whether the value counts something, so that it has to be a number. -/
  counting : Bool
  deriving DecidableEq, Repr

/-- The arguments given to a command. -/
structure Arguments where
  /-- The options without a value, by long name. -/
  flags : List Text
  /-- The options with a value, by long name. -/
  values : List (Text × Text)
  positional : Option Text
  deriving DecidableEq, Repr

namespace Arguments

/-- Why a command is not run. -/
inductive Stop where
  /-- The version is asked for. -/
  | version
  /-- The arguments make no sense. -/
  | misuse
  deriving DecidableEq, Repr

def empty : Arguments := ⟨[], [], none⟩

/-- Whether the option is given. -/
def has (a : Arguments) (long : String) : Bool := a.flags.contains long.toList

def value? (a : Arguments) (long : String) : Option Text :=
  (a.values.find? fun v => v.1 = long.toList).map Prod.snd

/-! ## §1. Reading one argument. -/

/-- The arguments with one more option without a value. -/
def addFlag (a : Arguments) (o : OptionSpec) : Except Stop Arguments :=
  if a.flags.contains o.long then .error .misuse
  else .ok { a with flags := a.flags ++ [o.long] }

def addValue (a : Arguments) (o : OptionSpec) (value : Text) : Except Stop Arguments :=
  if a.values.any fun v => v.1 = o.long then .error .misuse
  else if o.counting && (Text.Decimal.count? value).isNone then .error .misuse
  else .ok { a with values := a.values ++ [(o.long, value)] }

def addPositional (a : Arguments) (value : Text) : Except Stop Arguments :=
  match a.positional with
  | some _ => .error .misuse
  | none => .ok { a with positional := some value }

/-- Arguments, and an option whose value is the next argument. -/
abbrev Progress := Arguments × Option OptionSpec

def addBundle (specs : List OptionSpec) (a : Arguments) : Text → Except Stop Progress
  | [] => .ok (a, none)
  | c :: cs =>
    if c = 'V' then .error .version
    else
      match specs.find? fun o => o.short = c with
      | none => .error .misuse
      | some o =>
        if o.valued then
          match cs with
          | [] => .ok (a, some o)
          | '=' :: value | value => (a.addValue o value).map fun a => (a, none)
        else
          match a.addFlag o with
          | .error e => .error e
          | .ok a => addBundle specs a cs

def addLong (specs : List OptionSpec) (a : Arguments) (t : Text) : Except Stop Progress :=
  let name := t.takeWhile (· ≠ '=')
  if t = "version".toList then .error .version
  else
    match specs.find? fun o => o.long = name with
    | none => .error .misuse
    | some o =>
      match o.valued, t.drop name.length with
      | true, [] => .ok (a, some o)
      | true, _ :: value => (a.addValue o value).map fun a => (a, none)
      | false, [] => (a.addFlag o).map fun a => (a, none)
      | false, _ :: _ => .error .misuse

/-! ## §2. Reading all. -/

def looksLikeOption (t : Text) : Bool :=
  match t with
  | '-' :: _ :: _ => true
  | _ => false

/-- The arguments after those already read; `pending` is an option whose value
comes next, and with `literal` nothing is an option any more. -/
def parseFrom (specs : List OptionSpec) (a : Arguments) (pending : Option OptionSpec)
    (literal : Bool) : List Text → Except Stop Arguments
  | [] => if pending.isSome then .error .misuse else .ok a
  | t :: rest =>
    match pending with
    | some o =>
      if looksLikeOption t then .error .misuse
      else
        match a.addValue o t with
        | .error e => .error e
        | .ok a => parseFrom specs a none literal rest
    | none =>
      if literal || !looksLikeOption t then
        match a.addPositional t with
        | .error e => .error e
        | .ok a => parseFrom specs a none literal rest
      else if t = "--".toList then parseFrom specs a none true rest
      else
        match
          match t with
          | '-' :: '-' :: long => a.addLong specs long
          | t => a.addBundle specs (t.drop 1) with
        | .error e => .error e
        | .ok (a, pending) => parseFrom specs a pending literal rest

def parse (specs : List OptionSpec) (ts : List Text) : Except Stop Arguments :=
  parseFrom specs .empty none false ts

end Arguments

end EightBit
