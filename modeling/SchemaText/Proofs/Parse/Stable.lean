import SchemaText.Proofs.Parse.Composed

/-!
The parse of a text beside the parse of the same text with lines behind it. The two go in step until
the first one has no more than trivia in front of it, and from there on it can only fail there.
-/
namespace SchemaText.Parse

variable {α β σ : Type} {text next : List Char} {p : Parse α} {f : α → Parse β} {s : Place}
  {c d c' : Cursor} {k : Nat}

/-- A place of the text with no more than trivia behind it. -/
def Late (text : List Char) (p : Place) : Prop :=
  (∃ x, (Place.start text).Passes x p) ∧ p.Spent

/-- A mismatch at such a place. -/
def EndsLate (text : List Char) (m : Mismatch) : Prop := ∃ p, Late text p ∧ m.offset = p.offset

theorem Late.of_skip_eq {q : Place} (h : Late text q) (hs : ∃ x, (Place.start text).Passes x s)
    (hq : q.skip = s.skip) : Late text s := ⟨hs, h.2.of_skip_eq hq⟩

/-- A cursor at a place of the text, and one at the same place of the text that goes on, with as
many attempts and a budget that is no smaller. -/
structure Alongside (text next : List Char) (c d : Cursor) : Prop where
  inside : ∃ x, (Place.start text).Passes x c.place
  place : d.place = c.place.extend ('\n' :: next)
  attempts : d.attempts = c.attempts
  budget : c.budget ≤ d.budget
  within : c.attempts ≤ c.budget

/-- Going back to the same places. -/
theorem Alongside.back {c' d' : Cursor} (h : Alongside text next c d)
    (h' : Alongside text next c' d') :
    Alongside text next { c' with place := c.place } { d' with place := d.place } where
  inside := h.inside
  place := h.place
  attempts := h'.attempts
  budget := h'.budget
  within := h'.within

/-- What comes of the text comes of the text that goes on, unless it comes late. -/
def Agree (text next : List Char) :
    EStateM.Result Failure Cursor α → EStateM.Result Failure Cursor α → Prop
  | .ok a c, r => Late text c.place ∨ ∃ d, r = .ok a d ∧ Alongside text next c d
  | .error (.mismatch m) _, r => EndsLate text m ∨ ∃ d, r = .error (.mismatch m) d
  | .error (.runaway ..) _, _ => True

/-- What stays late agrees with everything. -/
theorem agree_of_late (h : Ensures p s (fun _ => Late text) (EndsLate text)) (hc : c.place = s)
    (r : EStateM.Result Failure Cursor α) : Agree text next (p c) r := by
  have hp := h c hc
  cases hr : p c with
  | ok a c' =>
    rw [hr] at hp
    exact .inl hp
  | error e c' =>
    rw [hr] at hp
    cases e with
    | mismatch m => exact .inl hp
    | runaway => trivial

/-- A parse that lines behind the text disturb only late, and that stays late from there on. -/
structure Stable (text next : List Char) (p : Parse α) : Prop where
  late : ∀ {s}, Late text s → Ensures p s (fun _ => Late text) (EndsLate text)
  along : ∀ {c d}, Alongside text next c d → Agree text next (p c) (p d)

/-- What runs on from a stable parse is looked at where that one gives a result. -/
theorem Stable.agree {r r' : Parse β} (h : Stable text next p) (hcd : Alongside text next c d)
    (hr : FailsWith p r) (hr' : FailsWith p r')
    (hlate : ∀ a c', p c = .ok a c' → Late text c'.place → Agree text next (r c) (r' d))
    (hstep : ∀ a c' d', p c = .ok a c' → p d = .ok a d' → Alongside text next c' d' →
      Agree text next (r c) (r' d)) : Agree text next (r c) (r' d) := by
  have hp := h.along hcd
  cases hc : p c with
  | ok a c' =>
    rw [hc] at hp
    rcases hp with hl | ⟨d', hd, hcd'⟩
    · exact hlate a c' hc hl
    · exact hstep a c' d' hc hd hcd'
  | error e c' =>
    obtain ⟨c'', hr⟩ := hr c e c' hc
    rw [hr]
    rw [hc] at hp
    cases e with
    | mismatch m =>
      rcases hp with hl | ⟨d', hd⟩
      · exact .inl hl
      · exact .inr (hr' d _ d' hd)
    | runaway => trivial

namespace Stable

theorem pure {a : α} : Stable text next (pure a : Parse α) where
  late hs := .pure hs
  along h := .inr ⟨_, rfl, h⟩

theorem fail {expected mistakes : List Pattern} (hm : Finding.Steady mistakes) :
    Stable text next (fail expected mistakes : Parse α) where
  late hs := .fail ⟨_, hs, rfl⟩
  along {c d} h := by
    by_cases hr : c.place.rest = []
    · exact .inl ⟨c.place, ⟨h.inside, Place.spent_of_nil hr⟩, rfl⟩
    · have hm := hm c.place next hr
      rw [← h.place] at hm
      have hoffset : d.place.offset = c.place.offset := by
        rw [h.place]
        rfl
      right
      rw [Parse.fail, hm, hoffset]
      exact ⟨_, rfl⟩

theorem record {event : Event} :
    Stable text next (modify (·.record event) : Parse Unit) where
  late hs := .record hs
  along h := .inr ⟨_, rfl, h.inside, h.place, h.attempts, h.budget, h.within⟩

theorem accept {pattern : Pattern} (hp : pattern.Steady) : Stable text next (accept pattern) := by
  have hlate : ∀ {s}, Late text s →
      Ensures (Parse.accept pattern) s (fun _ => Late text) (EndsLate text) := by
    intro s hs
    refine .accept (fun q hq => ?_) fun _ => hs
    obtain ⟨⟨x, hx⟩, hspent⟩ := hs
    obtain ⟨y, hy⟩ := hp.passes hq
    exact ⟨⟨x ++ y, hx.trans hy⟩, hp.spent hspent hq⟩
  refine ⟨hlate, fun {c d} h => ?_⟩
  -- Where only trivia is left, the longer text may well match something else.
  by_cases hs : c.place.Spent
  · exact agree_of_late (hlate ⟨h.inside, hs⟩) rfl _
  have hattempts := h.attempts
  have hbudget := h.budget
  by_cases hb : c.budget < c.attempts + 1
  · simp only [Parse.accept, hb, if_true]
    trivial
  have hbd : ¬ d.budget < d.attempts + 1 := by omega
  have hstep := hp.keeps next hs
  rw [Pattern.Keeps, ← h.place] at hstep
  cases he : pattern.end? c.place with
  | none =>
    rw [he] at hstep
    have hd : pattern.end? d.place = none := by simpa using hstep
    simp only [Parse.accept, hb, hbd, if_false, he, hd]
    refine .inr ⟨_, rfl, h.inside, h.place, ?_, h.budget, ?_⟩
    · exact congrArg (· + 1) hattempts
    · exact Nat.not_lt.1 hb
  | some q =>
    obtain ⟨x, hx⟩ := h.inside
    obtain ⟨y, hy⟩ := hp.passes he
    have hinside : ∃ x, (Place.start text).Passes x q := ⟨x ++ y, hx.trans hy⟩
    simp only [Parse.accept, hb, hbd, if_false, he]
    rcases hstep with ⟨r, hr, hspent⟩ | hd
    · obtain rfl : q = r := Option.some.inj (he.symm.trans hr)
      exact .inl ⟨hinside, hspent⟩
    · rw [he, Option.map_some] at hd
      have hspan : d.place.spanTo (q.extend ('\n' :: next)) = c.place.spanTo q := by
        rw [h.place]
        rfl
      simp only [hd, hspan]
      refine .inr ⟨_, rfl, hinside, rfl, ?_, h.budget, ?_⟩
      · exact congrArg (· + 1) hattempts
      · exact Nat.not_lt.1 hb

theorem bind (h : Stable text next p) (hf : ∀ a, Stable text next (f a)) :
    Stable text next (p >>= f) where
  late hs := (h.late hs).bind fun a _ hq => (hf a).late hq
  along hcd := by
    apply h.agree hcd failsWith_bind failsWith_bind
    · intro a c' hc hl
      rw [bind_apply, hc]
      exact agree_of_late ((hf a).late hl) rfl _
    · intro a c' d' hc hd hcd'
      rw [bind_apply, bind_apply, hc, hd]
      exact (hf a).along hcd'

/-! ### Going back -/

/-- What has found nothing has not gone late unless it began late. -/
theorem late_of_returns {p : Parse (Option α)} (hr : Returns p) (hp : p c = .ok none c')
    (hs : ∃ x, (Place.start text).Passes x c.place) (h : Late text c'.place) :
    Late text c.place := by
  have hskip := hr c.place c rfl
  rw [hp] at hskip
  exact h.of_skip_eq hs (hskip rfl)

theorem attempt {p : Parse (Option α)} (h : Stable text next p) (hr : Returns p) :
    Stable text next (attempt p) where
  late {s} hs := by
    refine .attempt ((h.late hs).mono ?_ fun _ hm => hm)
    intro a q hq
    cases a with
    | none => exact hs
    | some a => exact hq
  along {c d} hcd := by
    apply h.agree hcd failsWith_attempt failsWith_attempt
    · intro a c' hc hl
      simp only [Parse.attempt, hc]
      cases a with
      | none =>
        have hs := late_of_returns hr hc hcd.inside hl
        exact .inl hs
      | some a => exact .inl hl
    · intro a c' d' hc hd hcd'
      simp only [Parse.attempt, hc, hd]
      cases a with
      | none => exact .inr ⟨_, rfl, hcd.back hcd'⟩
      | some a => exact .inr ⟨d', rfl, hcd'⟩

/-- An alternative that has gone late goes late again. -/
theorem agree_of_repeat {a : α} (hm : Metered k p) (hp : p c = .ok a c')
    (hle : c.attempts ≤ c.budget) (hlate : Late text c'.place)
    (r : EStateM.Result Failure Cursor α) :
    Agree text next (p { c' with place := c.place }) r := by
  rcases hm.repeats hp hle with ⟨e, he, hplace⟩ | ⟨e, he⟩
  · rw [he]
    exact .inl (hplace ▸ hlate)
  · rw [he]
    trivial

theorem choice {alternatives : List (Parse (Option α))} (hm : ∀ p ∈ alternatives, Metered k p)
    (hr : ∀ p ∈ alternatives, Returns p) (h : ∀ p ∈ alternatives, Stable text next p) :
    Stable text next (choice alternatives) := by
  induction alternatives with
  | nil => exact pure
  | cons p alternatives ih =>
    simp only [List.forall_mem_cons] at hm hr h
    have ih := ih hm.2 hr.2 h.2
    have hrun : ∀ {c a c'}, p c = .ok a c' → Parse.choice (p :: alternatives) c =
        (if a.isSome then p else Parse.choice alternatives) { c' with place := c.place } := by
      intro c a c' hc
      rw [Parse.choice, bind_apply]
      simp only [Parse.lookahead, hc]
    have hfails : FailsWith p (Parse.choice (p :: alternatives)) := by
      intro c e c' hc
      obtain ⟨d, hd⟩ := failsWith_lookahead c e c' hc
      exact failsWith_bind c e d hd
    constructor
    case late =>
      intro s hs
      refine .bind (R := fun _ q => q = s)
        (.lookahead ((h.1.late hs).mono (fun _ _ _ => rfl) fun _ hm => hm)) ?_
      rintro found _ rfl
      by_cases hfound : found.isSome
      · rw [if_pos hfound]
        exact h.1.late hs
      · rw [if_neg hfound]
        exact ih.late hs
    case along =>
      intro c d hcd
      apply h.1.agree hcd hfails hfails
      · intro a c' hc hl
        rw [hrun hc]
        cases a with
        | none =>
          have hs := late_of_returns hr.1 hc hcd.inside hl
          exact agree_of_late (c := { c' with place := c.place }) (ih.late hs) rfl _
        | some a =>
          -- Nothing is known of the second parse here, but the first one repeats itself.
          exact agree_of_repeat hm.1 hc hcd.within hl _
      · intro a c' d' hc hd hcd'
        rw [hrun hc, hrun hd]
        cases a with
        | none => exact ih.along (hcd.back hcd')
        | some a => exact h.1.along (hcd.back hcd')

/-! ### Loops -/

section Loop

variable {step : σ → Parse (Round σ β)} {m n : Nat}

theorem rounds_late (h : ∀ state, Stable text next (step state)) (n : Nat) (state : σ)
    (hs : Late text s) :
    Ensures (rounds step n state) s (fun _ => Late text) (EndsLate text) := by
  refine .rounds (fun _ q => Late text q) n hs fun state q hq => ?_
  refine ((h state).late hq).mono ?_ fun _ hm => hm
  intro r q hq
  cases r with
  | again state' => exact hq
  | done b => exact hq

/-- Rounds go along with as many rounds or more. -/
theorem rounds_along (h : ∀ state, Stable text next (step state)) (state : σ)
    (hcd : Alongside text next c d) (hle : n ≤ m) :
    Agree text next (rounds step n state c) (rounds step m state d) := by
  -- The rounds that the second parse has left over are never reached.
  induction n generalizing m state c d with
  | zero => trivial
  | succ n ih =>
    obtain ⟨m, rfl⟩ : ∃ m', m = m' + 1 := ⟨m - 1, by omega⟩
    apply (h state).agree hcd failsWith_rounds failsWith_rounds
    · intro r c' hc hl
      simp only [rounds, hc]
      cases r with
      | again state' => exact agree_of_late (rounds_late h n state' hl) rfl _
      | done b => exact .inl hl
    · intro r c' d' hc hd hcd'
      simp only [rounds, hc, hd]
      cases r with
      | again state' => exact ih state' hcd' (by omega)
      | done b => exact .inr ⟨d', rfl, hcd'⟩

theorem loop (h : ∀ state, Stable text next (step state)) (state : σ) :
    Stable text next (loop step state) where
  late hs := fun c hc => rounds_late h _ state hs c hc
  along {c d} hcd := by
    apply rounds_along h state hcd
    have hattempts := hcd.attempts
    have hbudget := hcd.budget
    simp only [Cursor.allowance]
    omega

end Loop

end Stable

/-- Lines behind a text disturb what is composed only late. -/
theorem Composed.stable (h : Composed k p) : Stable text next p := by
  induction h with
  | pure => exact .pure
  | fail hm => exact .fail hm
  | record => exact .record
  | accept hp => exact .accept hp
  | any _ ih => exact ih
  | bind _ _ hp hf => exact hp.bind hf
  | attempt _ hr ih => exact ih.attempt hr
  | choice h hr ih => exact .choice (fun p hp => (h p hp).metered) hr ih
  | loop _ ih => exact .loop ih _

end SchemaText.Parse
