import SchemaText.Proofs.Tree.Bare

/-!
Attributes that are put in front of those of one node after another. They come to the nodes that
they are for, and nothing else in the tree is touched.
-/
namespace SchemaText

variable {τ : Type} {d : Document τ} {index : NodeIndex}

/-- Attributes to be put in front of those of a node. -/
structure Splice (τ : Type) where
  index : NodeIndex
  leading : List (Attribute τ)
deriving DecidableEq, Repr

variable {step : Splice τ} {steps steps' : List (Splice τ)}

def Document.splice (d : Document τ) (steps : List (Splice τ)) : Document τ :=
  steps.foldl (fun d step => d.prependAt step.leading step.index) d

/-- The steps for a node, in their order. -/
def stepsFor (index : NodeIndex) (steps : List (Splice τ)) : List (Splice τ) :=
  steps.filter (·.index = index)

/-- What the steps come to at a node: the attributes of the latest step stand in front. -/
def given (index : NodeIndex) (steps : List (Splice τ)) : List (Attribute τ) :=
  (stepsFor index steps).reverse.flatMap (·.leading)

theorem given_cons (index : NodeIndex) (step : Splice τ) (steps : List (Splice τ)) :
    given index (step :: steps) =
      given index steps ++ if step.index = index then step.leading else [] := by
  by_cases h : step.index = index
  · simp [given, stepsFor, h]
  · simp [given, stepsFor, h]

theorem given_of_forall_ne (h : ∀ step ∈ steps, step.index ≠ index) : given index steps = [] := by
  have hnone : stepsFor index steps = [] := List.filter_eq_nil_iff.2 (by simpa using h)
  rw [given, hnone]
  rfl

namespace Document

theorem bare_splice (d : Document τ) (steps : List (Splice τ)) :
    (d.splice steps).bare = d.bare := by
  induction steps generalizing d with
  | nil => rfl
  | cons step steps ih => exact (ih _).trans bare_prependAt

theorem attributesAt?_splice (d : Document τ) (steps : List (Splice τ)) (index : NodeIndex) :
    (d.splice steps).attributesAt? index =
      (d.attributesAt? index).map (given index steps ++ ·) := by
  induction steps generalizing d with
  | nil => simp [splice, given, stepsFor]
  | cons step steps ih =>
    calc (d.splice (step :: steps)).attributesAt? index
        = ((d.prependAt step.leading step.index).attributesAt? index).map
            (given index steps ++ ·) := ih _
      _ = (d.attributesAt? index).map (given index (step :: steps) ++ ·) := by
        rw [attributesAt?_prependAt, Option.map_map, given_cons]
        congr 1
        funext as
        by_cases h : step.index = index
        · simp [h]
        · simp [h]

theorem splice_append (d : Document τ) (before after : List (Splice τ)) :
    d.splice (before ++ after) = (d.splice before).splice after := List.foldl_append

/-- Among others, a step for an index without a node is as good as none. -/
theorem splice_skip (h : d.attributesAt? step.index = none) (before after : List (Splice τ)) :
    d.splice (before ++ step :: after) = d.splice (before ++ after) := by
  have hnone : (d.splice before).attributesAt? step.index = none := by
    rw [attributesAt?_splice, h, Option.map_none]
  rw [splice_append, splice_append]
  exact congrArg (splice · after) (prependAt_eq_self hnone)

/-- The steps for different nodes may come in any order. -/
theorem splice_congr (h : ∀ index, (d.attributesAt? index).isSome →
    stepsFor index steps = stepsFor index steps') : d.splice steps = d.splice steps' := by
  apply eq_of_bare_eq ((bare_splice d steps).trans (bare_splice d steps').symm)
  intro index
  rw [attributesAt?_splice, attributesAt?_splice]
  cases hat : d.attributesAt? index with
  | none => rfl
  | some as => rw [given, h index (Option.isSome_of_eq_some hat), ← given]

/-- A node that is there gets the attributes of its steps, the latest in front, and keeps its own
behind them. All else is as it was. Steps for indices without a node do nothing, and the order of
steps for different nodes does not matter. -/
theorem splice_touches_addressed (d : Document τ) (steps : List (Splice τ)) :
    (d.splice steps).bare = d.bare ∧
    (∀ index, (d.splice steps).attributesAt? index =
      (d.attributesAt? index).map (given index steps ++ ·)) ∧
    (∀ index, (∀ step ∈ steps, step.index ≠ index) →
      (d.splice steps).attributesAt? index = d.attributesAt? index) ∧
    (∀ before step after, steps = before ++ step :: after →
      d.attributesAt? step.index = none → d.splice steps = d.splice (before ++ after)) ∧
    ∀ steps' : List (Splice τ), (∀ index, (d.attributesAt? index).isSome →
      stepsFor index steps' = stepsFor index steps) → d.splice steps' = d.splice steps := by
  refine ⟨bare_splice d steps, attributesAt?_splice d steps, ?_, ?_, fun _ => splice_congr⟩
  · intro index h
    rw [attributesAt?_splice, given_of_forall_ne h]
    simp
  · rintro before step after rfl h
    exact splice_skip h before after

/-- The last index has no node, and the others come in another order. -/
theorem splice_touches_addressed_enum :
    let a (n : Nat) : Attribute Nat := ⟨.outer, n, n, none⟩
    let d : Document Nat := ⟨[], [.enum ⟨[a 0], 1, 2, 3, [⟨[], 4, none⟩], 5⟩]⟩
    let steps : List (Splice Nat) :=
      [⟨⟨0, none⟩, [a 6, a 7]⟩, ⟨⟨0, some 0⟩, [a 8]⟩, ⟨⟨0, none⟩, [a 9]⟩, ⟨⟨0, some 1⟩, [a 10]⟩]
    (d.splice steps).attributesAt? ⟨0, none⟩ = some [a 9, a 6, a 7, a 0] ∧
    d.splice steps = d.splice (steps.take 3) ∧
    d.splice [⟨⟨0, some 1⟩, [a 10]⟩, ⟨⟨0, some 0⟩, [a 8]⟩, ⟨⟨0, none⟩, [a 6, a 7]⟩,
      ⟨⟨0, none⟩, [a 9]⟩] = d.splice steps := by
  intro a d steps
  obtain ⟨-, hat, -, hskip, horder⟩ := d.splice_touches_addressed steps
  refine ⟨hat _, hskip (steps.take 3) ⟨⟨0, some 1⟩, [a 10]⟩ [] rfl rfl, horder _ ?_⟩
  rintro ⟨_ | _, _ | _ | _ | _⟩ - <;> rfl

end Document

end SchemaText
