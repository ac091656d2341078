import SchemaText.Pattern

/-!
Why a parse stops, and what it tells on the way.
-/
namespace SchemaText

/-- What stands where something else was expected. -/
inductive Finding where
  | text (chars : String)
  | endOfInput
deriving DecidableEq, Repr

namespace Finding

/-- Carets that mark the finding. -/
def width : Finding → Nat
  | text chars => max chars.length 1
  | endOfInput => 1

instance : ToString Finding where
  toString
    | text chars => quoted chars
    | endOfInput => "<EOF>"

/-- What the first of `mistakes` that matches some text at `p` makes of it, or else the next
character. -/
def lookAt (mistakes : List Pattern) (p : Place) : Finding :=
  match mistakes.filterMap (Pattern.end? · p) |>.find? (·.offset != p.offset) with
  | some q => text (.ofList (p.upTo q))
  | none =>
    match p.rest with
    | c :: _ => text c.toString
    | [] => endOfInput

end Finding

/-- A source that does not go on as the grammar asks. -/
structure Mismatch where
  offset : Nat
  /-- What would have let the parse go on. -/
  expected : List Pattern
  /-- What was tried to put the finding into words. -/
  mistakes : List Pattern
  found : Finding
deriving DecidableEq, Repr

inductive Failure where
  | mismatch (mismatch : Mismatch)
  /-- More attempts than the budget has. -/
  | runaway (attempts budget : Nat)
deriving DecidableEq, Repr

/-- The steps of a parse that an observer hears of. -/
inductive Event where
  | started (bytes : Nat)
  | accepted (span : Span) (pattern : Pattern)
  | statement (keyword : String) (span : Span)
  | mismatch (mismatch : Mismatch)
  | finished (statements attributes attempts : Nat)
deriving DecidableEq, Repr

end SchemaText
