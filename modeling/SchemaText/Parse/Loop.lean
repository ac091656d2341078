import SchemaText.Parse.Cursor

/-!
Loops. What bounds them is the attempts that are left: each round that goes on spends at least
one. A loop whose rounds spend none is stopped as a runaway.
-/
namespace SchemaText.Parse

variable {α β σ : Type}

/-- The outcome of a round. -/
inductive Round (σ β : Type) where
  | again (state : σ)
  | done (result : β)

/-- At most `n` rounds. -/
def rounds (step : σ → Parse (Round σ β)) : Nat → σ → Parse β
  | 0, _ => fun c => .error (.runaway c.attempts c.budget) c
  | n + 1, s => fun c =>
    match step s c with
    | .ok (.again s') c' => rounds step n s' c'
    | .ok (.done b) c' => .ok b c'
    | .error e c' => .error e c'

/-- Rounds until one is done. -/
def loop (step : σ → Parse (Round σ β)) (s : σ) : Parse β := fun c =>
  rounds step (c.allowance + 1) s c

/-- Run `item` until it does not match. -/
def many (item : Parse (Option α)) : Parse (List α) :=
  loop (fun (items : Array α) => do
    match ← item with
    | some a => return .again (items.push a)
    | none => return .done items.toList) #[]

end SchemaText.Parse
