import SchemaText.Proofs.Grammar.Sound.Type

/-!
Items and separators in turn keep all that has been matched, in the order in which it was.
-/
namespace SchemaText

open Parse (Round rounds)

variable {α β γ : Type} {c d e : Cursor}

/-! ### Two lists in turn -/

/-- The second list is as long as the first one, or lacks its last element. -/
inductive InStep : List α → List β → Prop where
  | nil : InStep [] []
  | last (a : α) : InStep [a] []
  | both (a : α) (b : β) {as : List α} {bs : List β} : InStep as bs → InStep (a :: as) (b :: bs)

namespace InStep

variable {f : α → γ} {g : β → γ} {as : List α} {bs : List β}

theorem of_length (h : as.length = bs.length ∨ as.length = bs.length + 1) : InStep as bs := by
  induction as generalizing bs with
  | nil =>
    obtain rfl : bs = [] := List.length_eq_zero_iff.1 (by simpa [eq_comm] using h)
    exact .nil
  | cons a as ih =>
    cases bs with
    | nil =>
      obtain rfl : as = [] := List.length_eq_zero_iff.1 (by simpa using h)
      exact .last a
    | cons b bs => exact .both a b (ih (by simpa using h))

theorem eq_nil (h : InStep ([] : List α) bs) : bs = [] := by
  cases h
  rfl

theorem length_alternate (h : InStep as bs) :
    (alternate f g as bs).length = as.length + bs.length := by
  induction h with
  | nil | last => rfl
  | both a b _ ih =>
    simp only [alternate, List.length_cons, ih]
    omega

/-- The first list has the even places. -/
theorem alternate_even (h : InStep as bs) (i : Nat) :
    (alternate f g as bs)[2 * i]? = as[i]?.map f := by
  induction h generalizing i with
  | nil => rfl
  | last => cases i <;> simp [alternate, Nat.mul_succ]
  | both _ _ _ ih =>
    cases i with
    | zero => rfl
    | succ i => simpa [alternate, Nat.mul_succ] using ih i

/-- The second list has the odd places. -/
theorem alternate_odd (h : InStep as bs) (i : Nat) :
    (alternate f g as bs)[2 * i + 1]? = bs[i]?.map g := by
  induction h generalizing i with
  | nil => rfl
  | last => simp [alternate]
  | both _ _ _ ih =>
    cases i with
    | zero => rfl
    | succ i => simpa [alternate, Nat.mul_succ] using ih i

theorem filterMap_getLeft? (h : InStep as bs) :
    (alternate .inl .inr as bs).filterMap Sum.getLeft? = as := by
  induction h with
  | nil | last => rfl
  | both a b _ ih => simpa [alternate, List.filterMap_cons] using ih

theorem filterMap_getRight? (h : InStep as bs) :
    (alternate .inl .inr as bs).filterMap Sum.getRight? = bs := by
  induction h with
  | nil | last => rfl
  | both a b _ ih => simpa [alternate, List.filterMap_cons] using ih

end InStep

/-! ### Matches -/

/-- A production is called and gives this. -/
inductive Turn (α β : Type) where
  | item (found : Option α)
  | separator (found : Option β)
  | skip

namespace Turn

def match? : Turn α β → Option (α ⊕ β)
  | item found => found.map .inl
  | separator found => found.map .inr
  | skip => none

def misses : Turn α β → Bool
  | item found => found.isNone
  | separator found => found.isNone
  | skip => false

end Turn

/-- Productions are called one after the other, each from where the one before has led. -/
inductive Turns (item : Parse (Option α)) (separator : Parse (Option β)) (skip : Parse Unit) :
    Cursor → List (Turn α β) → Cursor → Prop where
  | nil {c : Cursor} : Turns item separator skip c [] c
  | item {c d e : Cursor} {found : Option α} {turns : List (Turn α β)} : item c = .ok found d →
      Turns item separator skip d turns e →
      Turns item separator skip c (.item found :: turns) e
  | separator {c d e : Cursor} {found : Option β} {turns : List (Turn α β)} :
      separator c = .ok found d → Turns item separator skip d turns e →
      Turns item separator skip c (.separator found :: turns) e
  | skip {c d e : Cursor} {turns : List (Turn α β)} : skip c = .ok () d →
      Turns item separator skip d turns e → Turns item separator skip c (.skip :: turns) e

namespace Separated

/-- Items and separators are matches that have been made in turn, none of them lost. -/
structure Keeps (s : Separated α β) (made : List (α ⊕ β)) : Prop where
  items : s.items = made.filterMap Sum.getLeft?
  separators : s.separators = made.filterMap Sum.getRight?
  empty : s.items = [] → s.separators = []
  balance : s.items ≠ [] →
    s.items.length = s.separators.length ∨ s.items.length = s.separators.length + 1
  trailing : s.hasTrailing ↔ ∃ b, made.getLast? = some (.inr b)
  /-- Merged again, they are in the order in which they were made. -/
  merged : ∀ {γ : Type} (f : α → γ) (g : β → γ), s.merged f g = made.map (Sum.elim f g)
  length : ∀ {γ : Type} (f : α → γ) (g : β → γ),
    (s.merged f g).length = s.items.length + s.separators.length
  even : ∀ {γ : Type} (f : α → γ) (g : β → γ) (i : Nat),
    (s.merged f g)[2 * i]? = s.items[i]?.map f
  odd : ∀ {γ : Type} (f : α → γ) (g : β → γ) (i : Nat),
    (s.merged f g)[2 * i + 1]? = s.separators[i]?.map g

variable {s : Separated α β} {made : List (α ⊕ β)}

/-- Which kind comes last is told by the numbers of both. -/
theorem hasTrailing_iff
    (h : s.items.length = s.separators.length ∨ s.items.length = s.separators.length + 1) :
    s.hasTrailing ↔ ∃ b, (s.merged Sum.inl Sum.inr).getLast? = some (.inr b) := by
  have hstep := InStep.of_length h
  have hlength : (s.merged Sum.inl Sum.inr).length = _ := hstep.length_alternate
  rw [List.getLast?_eq_getElem?, hlength, merged]
  rcases h with h | h
  · cases hn : s.separators.length with
    | zero =>
      rw [hn] at h
      simp [hasTrailing, List.length_eq_zero_iff.1 h, alternate]
    | succ n =>
      have hne : s.items ≠ [] := List.ne_nil_of_length_pos (by omega)
      have hplace : s.items.length + (n + 1) - 1 = 2 * n + 1 := by omega
      rw [hplace, hstep.alternate_odd, List.getElem?_eq_getElem (by omega)]
      simp [hasTrailing, hne, h]
  · have hplace : s.items.length + s.separators.length - 1 = 2 * s.separators.length := by omega
    rw [hplace, hstep.alternate_even, List.getElem?_eq_getElem (by omega)]
    simp [hasTrailing, h]

theorem keeps_of_merged
    (h : s.items.length = s.separators.length ∨ s.items.length = s.separators.length + 1)
    (hmade : s.merged Sum.inl Sum.inr = made) : s.Keeps made := by
  subst hmade
  have hstep := InStep.of_length h
  constructor
  case items => exact hstep.filterMap_getLeft?.symm
  case separators => exact hstep.filterMap_getRight?.symm
  case empty =>
    intro hnil
    rw [hnil] at hstep
    exact hstep.eq_nil
  case balance => exact fun _ => h
  case trailing => exact hasTrailing_iff h
  case merged =>
    intro γ f g
    rw [merged, merged, map_alternate]
    rfl
  case length => exact fun f g => hstep.length_alternate
  case even => exact fun f g => hstep.alternate_even
  case odd => exact fun f g => hstep.alternate_odd

/-- The calls between two cursors go on until one finds nothing. What they have matched is kept. -/
def Gathers (item : Parse (Option α)) (separator : Parse (Option β)) (skip : Parse Unit)
    (c : Cursor) (s : Separated α β) (d : Cursor) : Prop :=
  ∃ turns last, Turns item separator skip c (turns ++ [last]) d ∧ last.misses ∧
    (∀ turn ∈ turns, turn.misses = false) ∧ s.Keeps (turns.filterMap Turn.match?)

end Separated

/-! ### Rounds -/

section Rounds

variable (item : Parse (Option α)) (separator : Parse (Option β)) (skip : Parse Unit)

/-- A round of `Parse.separated`. -/
def Parse.turn : Array α × Array β → Parse (Round (Array α × Array β) (Separated α β))
  | (items, separators) => do
    skip
    let some b ← separator | return .done ⟨items.toList, separators.toList⟩
    let separators := separators.push b
    skip
    let some a ← item | return .done ⟨items.toList, separators.toList⟩
    return .again (items.push a, separators)

/-- Items and separators in turn, in at most `n` rounds, however many attempts are left. -/
def Parse.separatedWithin (n : Nat) : Parse (Separated α β) := do
  let some first ← item | return ⟨[], []⟩
  rounds (Parse.turn item separator skip) n (#[first], #[])

/-- The attempts that are left only bound the rounds. -/
theorem exists_separated_eq (c : Cursor) : ∃ n,
    Parse.separated item separator skip c = Parse.separatedWithin item separator skip n c := by
  cases hc : item c with
  | ok found d =>
    refine ⟨d.allowance + 1, ?_⟩
    rw [Parse.separated, Parse.separatedWithin, Parse.bind_apply, Parse.bind_apply, hc]
    cases found <;> rfl
  | error failure d =>
    refine ⟨0, ?_⟩
    rw [Parse.separated, Parse.separatedWithin, Parse.bind_apply, Parse.bind_apply, hc]

variable {item separator skip} {s : Separated α β} {items : Array α} {separators : Array β}
  {n : Nat}

/-- What a round comes to when it does not fail. -/
theorem turn_cases {r : Round (Array α × Array β) (Separated α β)}
    (h : Parse.turn item separator skip (items, separators) c = .ok r e) :
    (Turns item separator skip c [.skip, .separator none] e ∧
      r = .done ⟨items.toList, separators.toList⟩) ∨
    (∃ b, Turns item separator skip c [.skip, .separator (some b), .skip, .item none] e ∧
      r = .done ⟨items.toList, separators.toList ++ [b]⟩) ∨
    ∃ b a, Turns item separator skip c [.skip, .separator (some b), .skip, .item (some a)] e ∧
      r = .again (items.push a, separators.push b) := by
  obtain ⟨⟨⟩, c₁, hskip, h⟩ := Parse.ok_of_bind h
  obtain ⟨found, c₂, hseparator, h⟩ := Parse.ok_of_bind h
  cases found with
  | none =>
    cases h
    exact .inl ⟨.skip hskip (.separator hseparator .nil), rfl⟩
  | some b =>
    obtain ⟨⟨⟩, c₃, hskip', h⟩ := Parse.ok_of_bind h
    obtain ⟨found, c₄, hitem, h⟩ := Parse.ok_of_bind h
    right
    cases found with
    | none =>
      cases h
      refine .inl ⟨b, .skip hskip (.separator hseparator (.skip hskip' (.item hitem .nil))), ?_⟩
      rw [Array.toList_push]
    | some a =>
      cases h
      exact .inr ⟨b, a, .skip hskip (.separator hseparator (.skip hskip' (.item hitem .nil))), rfl⟩

theorem Turns.append {before after : List (Turn α β)} (h : Turns item separator skip c before d)
    (h' : Turns item separator skip d after e) :
    Turns item separator skip c (before ++ after) e := by
  induction h with
  | nil => exact h'
  | item hc _ ih => exact .item hc (ih h')
  | separator hc _ ih => exact .separator hc (ih h')
  | skip hc _ ih => exact .skip hc (ih h')

/-- With one item more than separators to begin with, rounds add what they match to them. -/
theorem exists_turns_of_rounds (hsize : items.size = separators.size + 1)
    (h : rounds (Parse.turn item separator skip) n (items, separators) c = .ok s d) :
    (s.items.length = s.separators.length ∨ s.items.length = s.separators.length + 1) ∧
    ∃ turns last, Turns item separator skip c (turns ++ [last]) d ∧ last.misses ∧
      (∀ turn ∈ turns, turn.misses = false) ∧
      s.merged Sum.inl Sum.inr = alternate .inl .inr items.toList separators.toList ++
        turns.filterMap Turn.match? := by
  induction n generalizing c items separators with
  | zero => cases h
  | succ n ih =>
    have hlength : items.toList.length = separators.toList.length + 1 := by simpa using hsize
    simp only [rounds] at h
    cases hc : Parse.turn item separator skip (items, separators) c with
    | error failure c' =>
      rw [hc] at h
      cases h
    | ok r c' =>
      rw [hc] at h
      rcases turn_cases hc with ⟨hturns, rfl⟩ | ⟨b, hturns, rfl⟩ | ⟨b, a, hturns, rfl⟩
      · cases h
        refine ⟨.inr hlength, [.skip], .separator none, hturns, rfl, by simp [Turn.misses], ?_⟩
        simp [Separated.merged, Turn.match?]
      · cases h
        refine ⟨.inl (by simpa using hsize), [.skip, .separator (some b), .skip], .item none,
          hturns, rfl, by simp [Turn.misses], ?_⟩
        rw [Separated.merged, alternate_snoc_second hlength]
        rfl
      · have hsize' : (items.push a).size = (separators.push b).size + 1 := by simpa using hsize
        obtain ⟨hs, turns, last, hrest, hlast, hall, hmerged⟩ := ih hsize' h
        refine ⟨hs, [.skip, .separator (some b), .skip, .item (some a)] ++ turns, last, ?_, hlast,
          ?_, ?_⟩
        · rw [List.append_assoc]
          exact hturns.append hrest
        · simpa [Turn.misses] using hall
        · have hfull : items.toList.length = (separators.toList ++ [b]).length := by
            simpa using hsize
          rw [hmerged, Array.toList_push, Array.toList_push, alternate_snoc_first hfull,
            alternate_snoc_second hlength, List.append_assoc, List.append_assoc]
          rfl

theorem gathers_of_separatedWithin
    (h : Parse.separatedWithin item separator skip n c = .ok s d) :
    s.Gathers item separator skip c d := by
  obtain ⟨found, c', hitem, h⟩ := Parse.ok_of_bind h
  cases found with
  | none =>
    cases h
    exact ⟨[], .item none, .item hitem .nil, rfl, by simp, Separated.keeps_of_merged (.inl rfl) rfl⟩
  | some first =>
    obtain ⟨hs, turns, last, hturns, hlast, hall, hmerged⟩ := exists_turns_of_rounds rfl h
    refine ⟨.item (some first) :: turns, last, .item hitem hturns, hlast, ?_,
      Separated.keeps_of_merged hs hmerged⟩
    simpa [Turn.misses] using hall

end Rounds

end SchemaText
