import SchemaText.Proofs.Parse.Calls

/-!
Scripts that pass every failure on. What such a script does depends on the place alone until it runs
away, and it comes to a result only within the budget.
-/
namespace SchemaText

variable {α β σ : Type} {p : Script α} {c d : Cursor} {k m n : Nat}

namespace Script

open Parse (Round rounds)

/-- Passes every failure on. -/
inductive Plain : ∀ {α : Type}, Script α → Prop where
  | pure {α : Type} (a : α) : Plain (.pure a)
  | accept (pattern : Pattern) : Plain (.accept pattern)
  | peek (pattern : Pattern) : Plain (.peek pattern)
  | fail {α : Type} (expected mistakes : List Pattern) : Plain (.fail expected mistakes : Script α)
  | save : Plain .save
  | restore (place : Place) : Plain (.restore place)
  | bind {α β : Type} {p : Script α} {f : α → Script β} :
      Plain p → (∀ a, Plain (f a)) → Plain (.bind p f)
  | lookahead {α : Type} {p : Script α} : Plain p → Plain (.lookahead p)
  | loop {σ β : Type} {step : σ → Script (Round σ β)} {state : σ} :
      (∀ state, Plain (step state)) → Plain (.loop step state)

namespace Plain

theorem attempt {p : Script (Option α)} (h : Plain p) : Plain (Script.attempt p) := by
  refine save.bind fun place => h.bind fun found => ?_
  cases found with
  | none => exact (restore place).bind fun _ => .pure none
  | some a => exact .pure _

end Plain

theorem Combined.plain (h : p.Combined) : p.Plain := by
  induction h with
  | pure a => exact .pure a
  | accept pattern => exact .accept pattern
  | peek pattern => exact .peek pattern
  | fail expected mistakes => exact .fail expected mistakes
  | bind _ _ hp hf => exact hp.bind hf
  | lookahead _ hp => exact hp.lookahead
  | attempt _ hp => exact hp.attempt
  | loop _ hstep => exact .loop hstep

/-! ### Two runs -/

/-- The same place and budget, with `k` attempts more. -/
structure Ahead (k : Nat) (c d : Cursor) : Prop where
  place : d.place = c.place
  budget : d.budget = c.budget
  attempts : d.attempts = c.attempts + k

theorem Ahead.refl (c : Cursor) : Ahead 0 c c := ⟨rfl, rfl, rfl⟩

/-- Going back to the same places. -/
theorem Ahead.back {c' d' : Cursor} (h : Ahead k c' d') (hcd : d.place = c.place) :
    Ahead k { c' with place := c.place } { d' with place := d.place } :=
  ⟨hcd, h.budget, h.attempts⟩

/-- What the second run comes to the first one comes to as well, unless the second runs away. -/
inductive Agrees (k : Nat) :
    EStateM.Result Failure Cursor α → EStateM.Result Failure Cursor α → Prop where
  | ok {a : α} {c d : Cursor} : Ahead k c d → Agrees k (.ok a c) (.ok a d)
  | mismatch {m : Mismatch} {c d : Cursor} :
      Ahead k c d → Agrees k (.error (.mismatch m) c) (.error (.mismatch m) d)
  | runaway {r : EStateM.Result Failure Cursor α} {n b : Nat} {d : Cursor} :
      Agrees k r (.error (.runaway n b) d)

/-- More rounds may be allowed to the run that is behind. -/
theorem agrees_rounds {step : σ → Script (Round σ β)} {state : σ}
    (h : ∀ {state c d}, Ahead k c d → Agrees k ((step state).run c) ((step state).run d))
    (hcd : Ahead k c d) (hle : n ≤ m) :
    Agrees k (rounds (fun state => (step state).run) m state c)
      (rounds (fun state => (step state).run) n state d) := by
  induction n generalizing m state c d with
  | zero => exact .runaway
  | succ n ih =>
    obtain ⟨m, rfl⟩ : ∃ m', m = m' + 1 := ⟨m - 1, by omega⟩
    have hstep : Agrees k ((step state).run c) ((step state).run d) := h hcd
    simp only [rounds]
    generalize (step state).run c = r at hstep ⊢
    generalize (step state).run d = r' at hstep ⊢
    cases hstep with
    | @ok result c' d' hcd' =>
      cases result with
      | again state' => exact ih hcd' (by omega)
      | done b => exact .ok hcd'
    | mismatch hcd' => exact .mismatch hcd'
    | runaway => exact .runaway

theorem agrees_accept {pattern : Pattern} (hcd : Ahead k c d) :
    Agrees k (Parse.accept pattern c) (Parse.accept pattern d) := by
  have hattempts := hcd.attempts
  have hbudget := hcd.budget
  have hnext : d.attempts + 1 = c.attempts + 1 + k := by omega
  by_cases hlt : d.attempts < d.budget
  · rw [Parse.accept_of_lt_budget hlt, Parse.accept_of_lt_budget (by omega)]
    simp only [Place.spanTo, hcd.place]
    cases pattern.end? c.place with
    | none => exact .ok ⟨rfl, hbudget, hnext⟩
    | some q => exact .ok ⟨rfl, hbudget, hnext⟩
  · rw [Parse.accept_of_budget_le (Nat.not_lt.1 hlt)]
    exact .runaway

theorem Plain.agrees (h : p.Plain) (hcd : Ahead k c d) : Agrees k (p.run c) (p.run d) := by
  induction h generalizing c d with
  | pure a => exact .ok hcd
  | accept pattern => exact agrees_accept hcd
  | peek pattern =>
    simp only [run, Parse.peek, hcd.place]
    exact .ok hcd
  | fail expected mistakes =>
    simp only [run, Parse.fail, hcd.place]
    exact .mismatch ⟨hcd.place, hcd.budget, hcd.attempts⟩
  | save =>
    simp only [run, Parse.save, hcd.place]
    exact .ok hcd
  | restore place => exact .ok ⟨rfl, hcd.budget, hcd.attempts⟩
  | @bind _ _ p f _ _ ihp ihf =>
    have hp := ihp hcd
    simp only [run, Parse.bind_apply]
    generalize p.run c = r at hp ⊢
    generalize p.run d = r' at hp ⊢
    cases hp with
    | ok hcd' => exact ihf _ hcd'
    | mismatch hcd' => exact .mismatch hcd'
    | runaway => exact .runaway
  | @lookahead _ p _ ih =>
    have hp := ih hcd
    simp only [run, Parse.lookahead]
    generalize p.run c = r at hp ⊢
    generalize p.run d = r' at hp ⊢
    cases hp with
    | ok hcd' => exact .ok (hcd'.back hcd.place)
    | mismatch hcd' => exact .mismatch (hcd'.back hcd.place)
    | runaway => exact .runaway
  | loop _ ih =>
    have hattempts := hcd.attempts
    have hbudget := hcd.budget
    refine agrees_rounds (fun {state _ _} hcd => ih state hcd) hcd ?_
    rw [Cursor.allowance, Cursor.allowance]
    omega

/-! ### Attempts -/

/-- The attempts of a run. -/
def cost (p : Script α) (c : Cursor) : Nat := (p.calls c).countP Call.isAccept

theorem attempts_endCursor (p : Script α) (c : Cursor) :
    (endCursor (p.run c)).attempts = c.attempts + p.cost c := by
  rw [← after_calls, Cursor.after_attempts, cost]

theorem budget_endCursor (p : Script α) (c : Cursor) : (endCursor (p.run c)).budget = c.budget := by
  rw [← after_calls, Cursor.after_budget]

theorem attempts_of_run {a : α} (h : p.run c = .ok a d) : d.attempts = c.attempts + p.cost c := by
  have hp := attempts_endCursor p c
  rwa [h] at hp

theorem attempts_le_of_run {a : α} (h : p.run c = .ok a d) : c.attempts ≤ d.attempts := by
  rw [attempts_of_run h]
  exact Nat.le_add_right ..

theorem budget_of_run {a : α} (h : p.run c = .ok a d) : d.budget = c.budget := by
  have hp := budget_endCursor p c
  rwa [h] at hp

theorem attempts_le_of_rounds {step : σ → Script (Round σ β)} {state : σ} {b : β}
    (h : ∀ {state c r d}, (step state).run c = .ok r d → d.attempts ≤ max c.attempts c.budget)
    (hr : rounds (fun state => (step state).run) n state c = .ok b d) :
    d.attempts ≤ max c.attempts c.budget := by
  induction n generalizing state c with
  | zero => cases hr
  | succ n ih =>
    simp only [rounds] at hr
    cases hc : (step state).run c with
    | error e c' =>
      rw [hc] at hr
      cases hr
    | ok r c' =>
      rw [hc] at hr
      have hc' := h hc
      cases r with
      | again state' =>
        have hd := ih hr
        have hbudget := budget_of_run hc
        omega
      | done b' =>
        cases hr
        exact hc'

/-- There is no result once the attempts are more than the budget, unless they were so before. -/
theorem Plain.attempts_le {a : α} (h : p.Plain) (hp : p.run c = .ok a d) :
    d.attempts ≤ max c.attempts c.budget := by
  induction h generalizing c d with
  | pure | peek | save | restore =>
    cases hp
    exact Nat.le_max_left ..
  | fail => cases hp
  | accept pattern =>
    by_cases hlt : c.attempts < c.budget
    · have hd := attempts_of_run hp
      change d.attempts = c.attempts + 1 at hd
      omega
    · rw [run, Parse.accept_of_budget_le (Nat.not_lt.1 hlt)] at hp
      cases hp
  | bind _ _ ihp ihf =>
    obtain ⟨x, c', hc, hd⟩ := Parse.ok_of_bind hp
    have hc' := ihp hc
    have hd' := ihf x hd
    have hbudget := budget_of_run hc
    omega
  | @lookahead _ p _ ih =>
    rw [run, Parse.lookahead] at hp
    cases hc : p.run c with
    | ok x c' =>
      rw [hc] at hp
      cases hp
      have hc' := ih hc
      exact hc'
    | error e c' =>
      rw [hc] at hp
      cases hp
  | loop _ ih => exact attempts_le_of_rounds (fun {state _ _ _} h => ih state h) hp

end Script

end SchemaText
