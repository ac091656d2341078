import SchemaText.Parse.Failure

/-!
The state of a parse and its primitive steps. A step that does not match gives `none`; a failure
ends the parse but leaves the cursor as it is.
-/
namespace SchemaText

/-- Each attempt to consume a pattern counts, whether it matches or not; going back to an earlier
place does not undo the count. -/
structure Cursor where
  place : Place
  attempts : Nat := 0
  budget : Nat
  /-- The events so far, the last one first. -/
  log : List Event := []
deriving DecidableEq, Repr

namespace Cursor

/-- The largest budget. -/
def maxBudget : Nat := UInt64.size - 1

/-- The start of a text, with `factor` attempts for each byte and as many again. -/
def start (text : List Char) (factor : Nat) : Cursor where
  place := .start text
  budget := min (factor * (byteLength text + 1)) maxBudget

/-- The attempts that are left. -/
def allowance (c : Cursor) : Nat := c.budget - c.attempts

def isAtEnd (c : Cursor) : Bool := c.place.rest.isEmpty

def record (c : Cursor) (event : Event) : Cursor := { c with log := event :: c.log }

end Cursor

abbrev Parse := EStateM Failure Cursor

namespace Parse

variable {α β σ : Type}

/-- Consume `pattern` if it matches here. -/
def accept (pattern : Pattern) : Parse (Option Span) := fun c =>
  let c := { c with attempts := c.attempts + 1 }
  if c.budget < c.attempts then .error (.runaway c.attempts c.budget) c
  else
    match pattern.end? c.place with
    | none => .ok none c
    | some q =>
      let span := c.place.spanTo q
      .ok (some span) { c.record (.accepted span pattern) with place := q }

/-- Match here without consuming anything and without an attempt. -/
def peek (pattern : Pattern) : Parse (Option Span) := fun c =>
  .ok ((pattern.end? c.place).map c.place.spanTo) c

/-- Fail here. -/
def fail (expected mistakes : List Pattern) : Parse α := fun c =>
  let mismatch := ⟨c.place.offset, expected, mistakes, .lookAt mistakes c.place⟩
  .error (.mismatch mismatch) (c.record (.mismatch mismatch))

/-- Consume `pattern` or fail, expecting it or any of `others`. -/
def expect (pattern : Pattern) (others mistakes : List Pattern) : Parse Span := do
  match ← accept pattern with
  | some span => return span
  | none => fail (pattern :: others) mistakes

/-- Run `p` and come back, whatever it gave. -/
def lookahead (p : Parse α) : Parse α := fun c =>
  match p c with
  | .ok a c' => .ok a { c' with place := c.place }
  | .error e c' => .error e { c' with place := c.place }

/-- Run `p` and come back if it did not match. -/
def attempt (p : Parse (Option α)) : Parse (Option α) := fun c =>
  match p c with
  | .ok none c' => .ok none { c' with place := c.place }
  | r => r

/-- Ordered choice: an alternative is looked at first and run for good if it matched. -/
def choice : List (Parse (Option α)) → Parse (Option α)
  | [] => return none
  | p :: ps => do
    if (← lookahead p).isSome then p else choice ps

end Parse

end SchemaText
