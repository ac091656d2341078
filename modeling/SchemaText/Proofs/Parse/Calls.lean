import SchemaText.Proofs.Parse.Script

/-!
The calls of a cursor's own operations that a run of a script is made up of.
-/
namespace SchemaText

variable {α β σ : Type}

inductive Call where
  | accept (pattern : Pattern)
  | peek (pattern : Pattern)
  | fail (expected mistakes : List Pattern)
  | save
  | restore (place : Place)

namespace Call

def isAccept : Call → Bool
  | accept _ => true
  | _ => false

/-- The cursor after a call. -/
def next (c : Cursor) : Call → Cursor
  | accept pattern => endCursor (Parse.accept pattern c)
  | peek pattern => endCursor (Parse.peek pattern c)
  | fail expected mistakes => endCursor ((Parse.fail expected mistakes : Parse Unit) c)
  | save => c
  | restore place => { c with place := place }

end Call

namespace Cursor

/-- The cursor after several calls. -/
def after (c : Cursor) (calls : List Call) : Cursor := calls.foldl Call.next c

@[simp] theorem after_append (c : Cursor) (before calls : List Call) :
    c.after (before ++ calls) = (c.after before).after calls := List.foldl_append

end Cursor

/-! ### One call -/

namespace Parse

variable {pattern : Pattern} {c : Cursor}

theorem accept_of_budget_le (h : c.budget ≤ c.attempts) : accept pattern c =
    .error (.runaway (c.attempts + 1) c.budget) { c with attempts := c.attempts + 1 } := by
  rw [accept, if_pos (Nat.lt_succ_of_le h)]

theorem accept_of_lt_budget (h : c.attempts < c.budget) : accept pattern c =
    match pattern.end? c.place with
    | none => .ok none { c with attempts := c.attempts + 1 }
    | some q => .ok (some (c.place.spanTo q)) { c with
        place := q
        attempts := c.attempts + 1
        log := .accepted (c.place.spanTo q) pattern :: c.log } := by
  rw [accept, if_neg (Nat.not_lt.2 h)]
  rfl

/-- Whatever comes of it, a call of `accept` is one attempt more, and leads nowhere but behind a
match. -/
theorem endCursor_accept (pattern : Pattern) (c : Cursor) : ∃ q log,
    (q = c.place ∨ pattern.end? c.place = some q) ∧
      endCursor (accept pattern c) = ⟨q, c.attempts + 1, c.budget, log⟩ := by
  by_cases h : c.attempts < c.budget
  · rw [accept_of_lt_budget h]
    cases hp : pattern.end? c.place with
    | none => exact ⟨_, _, .inl rfl, rfl⟩
    | some q => exact ⟨q, _, .inr rfl, rfl⟩
  · rw [accept_of_budget_le (Nat.not_lt.1 h)]
    exact ⟨_, _, .inl rfl, rfl⟩

end Parse

namespace Call

/-- A cursor stays where it is, goes behind a match or goes to the place that it is told. -/
theorem next_place (c : Cursor) (call : Call) : (call.next c).place = c.place ∨
    (∃ pattern : Pattern, pattern.end? c.place = some (call.next c).place) ∨
    call = .restore (call.next c).place := by
  cases call with
  | accept pattern =>
    obtain ⟨q, log, hq, hnext⟩ := Parse.endCursor_accept pattern c
    rw [next, hnext]
    rcases hq with hq | hq
    · exact .inl hq
    · exact .inr (.inl ⟨pattern, hq⟩)
  | restore place => exact .inr (.inr rfl)
  | peek | fail | save => exact .inl rfl

@[simp] theorem next_budget (c : Cursor) (call : Call) : (call.next c).budget = c.budget := by
  cases call with
  | accept pattern =>
    obtain ⟨q, log, -, hnext⟩ := Parse.endCursor_accept pattern c
    rw [next, hnext]
  | peek | fail | save | restore => rfl

theorem next_attempts (c : Cursor) (call : Call) :
    (call.next c).attempts = c.attempts + if call.isAccept then 1 else 0 := by
  cases call with
  | accept pattern =>
    obtain ⟨q, log, -, hnext⟩ := Parse.endCursor_accept pattern c
    rw [next, hnext]
    rfl
  | peek | fail | save | restore => rfl

end Call

/-! ### Several calls -/

namespace Cursor

@[simp] theorem after_budget (c : Cursor) (calls : List Call) :
    (c.after calls).budget = c.budget := by
  induction calls generalizing c with
  | nil => rfl
  | cons call calls ih => exact (ih (call.next c)).trans (call.next_budget c)

theorem after_attempts (c : Cursor) (calls : List Call) :
    (c.after calls).attempts = c.attempts + calls.countP Call.isAccept := by
  induction calls generalizing c with
  | nil => rfl
  | cons call calls ih =>
    have hrest := ih (call.next c)
    have hcall := call.next_attempts c
    change (after (call.next c) calls).attempts = _
    rw [List.countP_cons]
    omega

end Cursor

/-! ### Runs -/

namespace Script

open Parse (Round rounds loop)

/-- The calls of rounds that go as `step` does, when those of a round are `calls`. -/
def roundCalls (step : σ → Parse (Round σ β)) (calls : σ → Cursor → List Call) :
    Nat → σ → Cursor → List Call
  | 0, _, _ => []
  | n + 1, state, c => calls state c ++
    match step state c with
    | .ok (.again state') c' => roundCalls step calls n state' c'
    | _ => []

/-- The calls that a run from a cursor makes. -/
def calls : {α : Type} → Script α → Cursor → List Call
  | _, pure _, _ => []
  | _, accept pattern, _ => [.accept pattern]
  | _, peek pattern, _ => [.peek pattern]
  | _, fail expected mistakes, _ => [.fail expected mistakes]
  | _, save, _ => [.save]
  | _, restore place, _ => [.restore place]
  | _, bind p f, c => p.calls c ++
    match p.run c with
    | .ok a c' => (f a).calls c'
    | .error _ _ => []
  | _, lookahead p, c => .save :: p.calls c ++ [.restore c.place]
  | _, outcome p, c => p.calls c
  | _, loop step state, c =>
    roundCalls (fun state => (step state).run) (fun state => (step state).calls) (c.allowance + 1)
      state c

theorem calls_bind (p : Script α) (f : α → Script β) (c : Cursor) : (p >>= f).calls c =
    p.calls c ++
      match p.run c with
      | .ok a c' => (f a).calls c'
      | .error _ _ => [] := by
  change (bind p f).calls c = _
  rw [calls]

theorem calls_attempt (p : Script (Option α)) (c : Cursor) :
    (attempt p).calls c = .save :: (p.calls c ++
      match p.run c with
      | .ok none _ => [.restore c.place]
      | _ => []) := by
  rw [attempt, calls_bind]
  change save.calls c ++ (p >>= _).calls c = _
  rw [calls_bind]
  cases p.run c with
  | ok found c' => cases found <;> rfl
  | error e c' => rfl

theorem after_roundCalls {step : σ → Script (Round σ β)}
    (h : ∀ state c, c.after ((step state).calls c) = endCursor ((step state).run c)) (n : Nat)
    (state : σ) (c : Cursor) :
    c.after (roundCalls (fun state => (step state).run) (fun state => (step state).calls) n state
        c) = endCursor (rounds (fun state => (step state).run) n state c) := by
  induction n generalizing state c with
  | zero => rfl
  | succ n ih =>
    have hstep := h state c
    simp only [roundCalls, rounds, Cursor.after_append, hstep]
    cases (step state).run c with
    | ok r c' =>
      cases r with
      | again state' => exact ih state' c'
      | done b => rfl
    | error e c' => rfl

/-- A run leads where its calls lead. -/
theorem after_calls (p : Script α) (c : Cursor) : c.after (p.calls c) = endCursor (p.run c) := by
  induction p generalizing c with
  | pure | accept | peek | fail | save | restore => rfl
  | bind p f ihp ihf =>
    simp only [calls, run, Cursor.after_append, ihp, Parse.bind_apply]
    cases p.run c with
    | ok a c' => exact ihf a c'
    | error e c' => rfl
  | lookahead p ih =>
    change c.after (p.calls c ++ [.restore c.place]) = _
    rw [Cursor.after_append, ih, run, Parse.lookahead]
    cases p.run c <;> rfl
  | outcome p ih =>
    rw [calls, ih, run, Parse.outcome]
    cases p.run c <;> rfl
  | loop step state ih => exact after_roundCalls ih (c.allowance + 1) state c

end Script

end SchemaText
