import SchemaText.Proofs.Parse.Plain

/-!
Looking at an alternative before it is run for good makes no difference: a choice gives what its
first alternative with a match or a failure gives, run once from where the choice begins.
-/
namespace SchemaText

open Script (Ahead)

variable {α : Type} {ps before after : List (Script (Option α))} {p : Script (Option α)}
  {c d : Cursor}

/-- Run once from `c`, `p` gives no match, wherever it has got to by then. -/
def Script.FindsNothing (p : Script (Option α)) (c : Cursor) : Prop := ∃ d, p.run c = .ok none d

/-- The attempts of all of `ps`, each of them run once from `c`. -/
def totalCost : List (Script (Option α)) → Cursor → Nat
  | [], _ => 0
  | p :: ps, c => p.cost c + totalCost ps c

/-- What an ordered choice comes to that runs each alternative from the same cursor. The attempts
count the run of a match twice. -/
inductive OrderedChoice (ps : List (Script (Option α))) (c : Cursor) :
    EStateM.Result Failure Cursor (Option α) → Prop where
  | nothing {e : Cursor} : (∀ p ∈ ps, p.FindsNothing c) → e.place = c.place →
      e.attempts = c.attempts + totalCost ps c → OrderedChoice ps c (.ok none e)
  | found {before after : List (Script (Option α))} {p : Script (Option α)} {a : α} {d e : Cursor} :
      ps = before ++ p :: after → (∀ q ∈ before, q.FindsNothing c) → p.run c = .ok (some a) d →
      e.place = d.place → e.attempts = c.attempts + (totalCost before c + 2 * p.cost c) →
      OrderedChoice ps c (.ok (some a) e)
  | failed {before after : List (Script (Option α))} {p : Script (Option α)} {f : Failure}
      {d e : Cursor} :
      ps = before ++ p :: after → (∀ q ∈ before, q.FindsNothing c) → p.run c = .error f d →
      e.place = c.place → e.attempts = c.attempts + (totalCost before c + p.cost c) →
      OrderedChoice ps c (.error f e)

@[simp] theorem totalCost_append : totalCost (before ++ after) c =
    totalCost before c + totalCost after c := by
  induction before with
  | nil => simp [totalCost]
  | cons p before ih => simp [totalCost, ih, Nat.add_assoc]

@[simp] theorem totalCost_singleton : totalCost [p] c = p.cost c := by simp [totalCost]

theorem choice_cons_apply (p : Parse (Option α)) (ps : List (Parse (Option α))) (d : Cursor) :
    Parse.choice (p :: ps) d =
      match p d with
      | .ok (some _) d' => p { d' with place := d.place }
      | .ok none d' => Parse.choice ps { d' with place := d.place }
      | .error f d' => .error f { d' with place := d.place } := by
  rw [Parse.choice, Parse.bind_apply, Parse.lookahead]
  cases p d with
  | ok found d' => cases found <;> rfl
  | error f d' => rfl

/-- Once the alternatives before have found nothing, the choice is about the others, and the cursor
is ahead by what those have taken. -/
theorem orderedChoice_of_rest (hbefore : ∀ q ∈ before, q.FindsNothing c)
    (hcd : Ahead (totalCost before c) c d) (hplain : ∀ p ∈ ps, p.Plain)
    (haway : ∀ n b e, Parse.choice (ps.map Script.run) d ≠ .error (.runaway n b) e) :
    OrderedChoice (before ++ ps) c (Parse.choice (ps.map Script.run) d) := by
  induction ps generalizing before d with
  | nil =>
    rw [List.append_nil]
    exact .nothing hbefore hcd.place hcd.attempts
  | cons p ps ih =>
    rw [List.forall_mem_cons] at hplain
    have hp := hplain.1.agrees hcd
    rw [List.map_cons, choice_cons_apply] at haway ⊢
    generalize hc : p.run c = r at hp
    generalize p.run d = r' at hp haway ⊢
    cases hp with
    | @ok found c' d' hcd' =>
      have hcost := Script.attempts_of_run hc
      have hbudget := Script.budget_of_run hc
      have hattempts : d'.attempts = c.attempts + (totalCost before c + p.cost c) := by
        have hd' := hcd'.attempts
        omega
      have hahead : Ahead (totalCost before c + p.cost c) c { d' with place := d.place } :=
        ⟨hcd.place, hcd'.budget.trans hbudget, hattempts⟩
      cases found with
      | none =>
        have hnone : ∀ q ∈ before ++ [p], q.FindsNothing c := by
          rw [List.forall_mem_append]
          exact ⟨hbefore, by simpa using ⟨c', hc⟩⟩
        rw [← totalCost_singleton, ← totalCost_append] at hahead
        have hrest := ih hnone hahead hplain.2 haway
        rwa [List.append_assoc] at hrest
      | some a =>
        -- The second run goes like the first one, only with more attempts behind it.
        have hagain := hplain.1.agrees hahead
        simp only at haway ⊢
        rw [hc] at hagain
        generalize p.run { d' with place := d.place } = r'' at hagain haway ⊢
        cases hagain with
        | @ok _ _ e hce =>
          refine .found rfl hbefore hc hce.place ?_
          have he := hce.attempts
          omega
        | runaway => exact absurd rfl (haway _ _ _)
    | @mismatch m c' d' hcd' =>
      have hcost := p.attempts_endCursor c
      rw [hc] at hcost
      change c'.attempts = c.attempts + p.cost c at hcost
      have hd' := hcd'.attempts
      refine .failed rfl hbefore hc hcd.place ?_
      change d'.attempts = _
      omega
    | runaway => exact absurd rfl (haway _ _ _)

/-- A choice among alternatives that pass their failures on is an ordered choice, whatever they
consume before they find nothing, unless the attempts run out. -/
theorem choice_eq_orderedChoice (hplain : ∀ p ∈ ps, p.Plain) (c : Cursor)
    (haway : ∀ n b e, Parse.choice (ps.map Script.run) c ≠ .error (.runaway n b) e) :
    OrderedChoice ps c (Parse.choice (ps.map Script.run) c) := by
  have hnone : ∀ q ∈ ([] : List (Script (Option α))), q.FindsNothing c := by simp
  exact orderedChoice_of_rest hnone (.refl c) hplain haway

/-- The first alternative consumes `é` before it gives up. -/
theorem orderedChoice_second :
    let ps : List (Script (Option (List Span))) :=
      [.inTurn [.accept (.literal "é"), .accept (.literal "b")],
        .inTurn [.accept (.literal "é"), .accept (.literal " ")]]
    let r := Parse.choice (ps.map Script.run) (.start "é a".toList 4)
    OrderedChoice ps (.start "é a".toList 4) r ∧ (endCursor r).place = ⟨3, ['a']⟩ ∧
      (endCursor r).attempts = 6 := by
  intro ps r
  have hplain : ∀ p ∈ ps, p.Plain := by
    simp only [ps, List.forall_mem_cons]
    refine ⟨(Script.Combined.inTurn ?_).plain, (Script.Combined.inTurn ?_).plain, by simp⟩
    · simp [Script.Combined.accept]
    · simp [Script.Combined.accept]
  have hok : (match r with
      | .ok .. => true
      | .error .. => false) = true := by decide +kernel
  refine ⟨choice_eq_orderedChoice hplain _ ?_, ?_, ?_⟩
  · intro n b e h
    simp only [r, h, Bool.false_eq_true] at hok
  · decide +kernel
  · decide +kernel

end SchemaText
