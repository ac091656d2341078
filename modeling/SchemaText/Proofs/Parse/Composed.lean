import SchemaText.Proofs.Parse.Metered
import SchemaText.Proofs.Text.Seam

/-!
Parses that are put together from matches of patterns, and what has to be known of the patterns for
the parse of a text to go on in the same way where the text does.
-/
namespace SchemaText

/-- No more than trivia is left. -/
def Place.Spent (p : Place) : Prop := p.skip.rest = []

theorem Place.Spent.of_skip_eq {p q : Place} (h : q.Spent) (hs : q.skip = p.skip) : p.Spent := by
  rw [Place.Spent, ← hs]
  exact h

theorem Place.spent_of_nil {p : Place} (h : p.rest = []) : p.Spent := by
  simp [Place.Spent, Place.skip, h, dropTrivia]

/-- Lines behind the text change nothing about a match at `p`, unless it leaves no more than
trivia. -/
def Pattern.Keeps (pattern : Pattern) (p : Place) (next : List Char) : Prop :=
  (∃ q, pattern.end? p = some q ∧ q.Spent) ∨
    pattern.end? (p.extend ('\n' :: next)) = (pattern.end? p).map (·.extend ('\n' :: next))

/-- A pattern whose matches in a text are the same in a text that has lines behind it. -/
structure Pattern.Steady (pattern : Pattern) : Prop where
  passes : ∀ {p q : Place}, pattern.end? p = some q → ∃ x, p.Passes x q
  spent : ∀ {p q : Place}, p.Spent → pattern.end? p = some q → q.Spent
  keeps : ∀ {p : Place} (next : List Char), ¬ p.Spent → pattern.Keeps p next

/-- Lines behind a text change nothing about what is found in it. -/
def Finding.Steady (mistakes : List Pattern) : Prop :=
  ∀ (p : Place) (next : List Char), p.rest ≠ [] →
    lookAt mistakes (p.extend ('\n' :: next)) = lookAt mistakes p

namespace Parse

variable {α β σ : Type} {k : Nat} {p : Parse α} {f : α → Parse β}

/-! ### Productions that may find nothing -/

/-- `p` never finds nothing. -/
def Matches (p : Parse (Option α)) : Prop := ∀ s, Ensures p s (fun a _ => a ≠ none) fun _ => True

/-- Where `p` finds nothing it has gone over no more than trivia. -/
def Returns (p : Parse (Option α)) : Prop :=
  ∀ s, Ensures p s (fun a q => a = none → q.skip = s.skip) fun _ => True

theorem Matches.pure {a : α} : Matches (pure (some a)) := fun _ => .pure (Option.some_ne_none a)

theorem Matches.bind {f : α → Parse (Option β)} (h : ∀ a, Matches (f a)) : Matches (p >>= f) := by
  intro s
  apply Ensures.bind (R := fun _ _ => True)
  · intro c _
    cases p c with
    | ok a c' => trivial
    | error e c' => cases e <;> trivial
  · intro a q _
    exact h a q

/-- A pattern at the front decides. -/
theorem Returns.accept {pattern : Pattern} {f : Option Span → Parse (Option β)}
    (hsome : ∀ span, Matches (f (some span))) (hnone : f none = Pure.pure none) :
    Returns (Parse.accept pattern >>= f) := by
  intro s
  apply Ensures.bind (R := fun found q => found = none → q = s)
  · exact .accept (fun q _ h => absurd h (Option.some_ne_none _)) fun _ _ => rfl
  · intro found q hq
    cases found with
    | none =>
      rw [hnone, hq rfl]
      exact .pure fun _ => rfl
    | some span => exact (hsome span q).mono (fun a _ ha hn => absurd hn ha) fun _ h => h

theorem Returns.map {p : Parse (Option α)} {g : α → β} (h : Returns p) :
    Returns (do return (← p).map g) := by
  intro s
  apply Ensures.map
  refine (h s).mono ?_ fun _ h => h
  intro a q hq hn
  exact hq (Option.map_eq_none_iff.1 hn)

/-- What a pattern at the front decides, and a result of it that is only wrapped. -/
inductive Led : ∀ {α : Type}, Parse (Option α) → Prop where
  | accept {α : Type} {pattern : Pattern} {f : Option Span → Parse (Option α)} :
      (∀ span, Matches (f (some span))) → f none = Pure.pure none → Led (Parse.accept pattern >>= f)
  | map {α β : Type} {p : Parse (Option α)} {g : α → β} : Led p → Led (do return (← p).map g)

theorem Led.returns {p : Parse (Option α)} (h : Led p) : Returns p := by
  induction h with
  | accept hsome hnone => exact .accept hsome hnone
  | map _ ih => exact ih.map

/-! ### Composition -/

/-- A parse that is put together from matches of steady patterns and takes at least so many
attempts. A production that is undone where it finds nothing goes over no more than trivia then. -/
inductive Composed : ∀ {α : Type}, Nat → Parse α → Prop where
  | pure {α : Type} {a : α} : Composed 0 (pure a)
  | fail {α : Type} {k : Nat} {expected mistakes : List Pattern} :
      Finding.Steady mistakes → Composed k (fail expected mistakes : Parse α)
  | record {event : Event} : Composed 0 (modify (·.record event) : Parse Unit)
  | accept {pattern : Pattern} : pattern.Steady → Composed 1 (accept pattern)
  | any {α : Type} {k : Nat} {p : Parse α} : Composed k p → Composed 0 p
  | bind {α β : Type} {k : Nat} {p : Parse α} {f : α → Parse β} :
      Composed k p → (∀ a, Composed 0 (f a)) → Composed k (p >>= f)
  | attempt {α : Type} {k : Nat} {p : Parse (Option α)} :
      Composed k p → Returns p → Composed k (attempt p)
  | choice {α : Type} {k : Nat} {alternatives : List (Parse (Option α))} :
      (∀ p ∈ alternatives, Composed k p) → (∀ p ∈ alternatives, Returns p) →
      Composed 0 (choice alternatives)
  | loop {σ β : Type} {step : σ → Parse (Round σ β)} {state : σ} :
      (∀ state, Composed 1 (step state)) → Composed 1 (loop step state)

namespace Composed

/-- What is composed never asks for the budget. -/
theorem metered (h : Composed k p) : Metered k p := by
  induction h with
  | pure => exact .pure
  | fail _ => exact .fail
  | record => exact .record
  | accept _ => exact .accept
  | any _ ih => exact ih.any
  | bind _ _ hp hf => exact hp.bind hf
  | attempt _ _ ih => exact ih.attempt
  | choice _ _ ih => exact .choice ih
  | loop _ ih => exact .loop ih _

/-- The rule for what stands behind something that takes attempts already. -/
theorem next (h : Composed k p) (hf : ∀ a, Composed 0 (f a)) : Composed 0 (p >>= f) :=
  h.any.bind hf

/-- A result that is only wrapped. -/
theorem map {p : Parse (Option α)} {g : α → β} (h : Composed k p) :
    Composed k (do return (← p).map g) :=
  h.bind fun _ => .pure

theorem discard (h : Composed k p) : Composed k (discard p) := by
  rw [discard_eq]
  exact h.bind fun _ => .pure

theorem expect {pattern : Pattern} {others mistakes : List Pattern} (hp : pattern.Steady)
    (hm : Finding.Steady mistakes) : Composed 1 (expect pattern others mistakes) := by
  refine bind (.accept hp) fun found => ?_
  cases found with
  | none => exact .fail hm
  | some span => exact .pure

theorem many {item : Parse (Option α)} (h : Composed 1 item) : Composed 1 (many item) := by
  refine .loop fun items => h.bind fun found => ?_
  cases found with
  | none => exact .pure
  | some a => exact .pure

theorem separated {item : Parse (Option α)} {separator : Parse (Option β)} {skip : Parse Unit}
    (hi : Composed 1 item) (hs : Composed k separator) (hk : Composed 1 skip) :
    Composed 1 (separated item separator skip) := by
  refine hi.bind fun first => ?_
  cases first with
  | none => exact .pure
  | some first =>
    refine any (.loop fun state => hk.bind fun _ => hs.next fun b => ?_)
    cases b with
    | none => exact .pure
    | some b =>
      refine hk.next fun _ => hi.next fun a => ?_
      cases a with
      | none => exact .pure
      | some a => exact .pure

end Composed

end Parse

end SchemaText
