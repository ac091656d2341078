import SchemaText.Proofs.Parse.Ensures

/-!
Attempts as credits: a parse that may spend so many attempts stops within them, and what it gives
does not depend on the attempts before it.
-/
namespace SchemaText.Parse

variable {α β σ : Type} {p : Parse α} {f : α → Parse β} {s : Place} {l : Nat}
  {Q Q' : α → Nat → Place → Prop}

/-- From `c`, where `l` attempts may be spent, `p` gives the result, the attempts that may still be
spent and the place of `o`, or a mismatch. -/
def Stops (p : Parse α) (l : Nat) (c : Cursor) : Option (α × Nat × Place) → Prop
  | some (a, l', q) => ∃ c', p c = .ok a c' ∧ c'.place = q ∧ c'.budget = c.budget ∧
    c'.attempts + l' ≤ c.attempts + l
  | none => ∃ m c', p c = .error (.mismatch m) c' ∧ c'.attempts ≤ c.attempts + l

/-- From `s`, `p` stops within `l` attempts, and what it gives has the property `Q`, which may speak
of the attempts that are left. -/
def Affords (p : Parse α) (s : Place) (l : Nat) (Q : α → Nat → Place → Prop) : Prop :=
  ∃ o : Option (α × Nat × Place), (∀ r ∈ o, r.2.1 ≤ l ∧ Q r.1 r.2.1 r.2.2) ∧
    ∀ c : Cursor, c.place = s → c.attempts + l ≤ c.budget → Stops p l c o

namespace Affords

theorem mono (h : Affords p s l Q) (hq : ∀ a l' q, l' ≤ l → Q a l' q → Q' a l' q) :
    Affords p s l Q' := by
  obtain ⟨o, ho, hc⟩ := h
  exact ⟨o, fun r hr => ⟨(ho r hr).1, hq _ _ _ (ho r hr).1 (ho r hr).2⟩, hc⟩

theorem pure {a : α} (h : Q a l s) : Affords (pure a) s l Q :=
  ⟨some (a, l, s), by simpa using h, fun c hc _ => ⟨c, rfl, hc, rfl, Nat.le_refl _⟩⟩

theorem fail {expected mistakes : List Pattern} : Affords (fail expected mistakes) s l Q :=
  ⟨none, by simp, fun _ _ _ => ⟨_, _, rfl, Nat.le_add_right ..⟩⟩

theorem record {event : Event} {Q : Unit → Nat → Place → Prop} (h : Q () l s) :
    Affords (modify (·.record event)) s l Q :=
  ⟨some ((), l, s), by simpa using h, fun _ hc _ => ⟨_, rfl, hc, rfl, Nat.le_refl _⟩⟩

theorem bind {Q : β → Nat → Place → Prop} {R : α → Nat → Place → Prop} (h : Affords p s l R)
    (hf : ∀ a l' q, l' ≤ l → R a l' q → Affords (f a) q l' Q) : Affords (p >>= f) s l Q := by
  obtain ⟨_ | ⟨a, l', q⟩, ho, hc⟩ := h
  · refine ⟨none, by simp, fun c hs hl => ?_⟩
    obtain ⟨m, c', hp, ha⟩ := hc c hs hl
    exact ⟨m, c', by rw [bind_apply, hp], ha⟩
  · obtain ⟨hle, hr⟩ := ho _ rfl
    obtain ⟨o, ho', hc'⟩ := hf a l' q hle hr
    refine ⟨o, fun r hr => ⟨Nat.le_trans (ho' r hr).1 hle, (ho' r hr).2⟩, fun c hs hl => ?_⟩
    obtain ⟨c', hp, rfl, hb, ha⟩ := hc c hs hl
    have h2 := hc' c' rfl (by omega)
    cases o with
    | none =>
      obtain ⟨m, c'', hf', ha'⟩ := h2
      exact ⟨m, c'', by rw [bind_apply, hp]; exact hf', by omega⟩
    | some r =>
      obtain ⟨c'', hf', hq, hb', ha'⟩ := h2
      exact ⟨c'', by rw [bind_apply, hp]; exact hf', hq, hb'.trans hb, by omega⟩

theorem map {Q : β → Nat → Place → Prop} {g : α → β}
    (h : Affords p s l (fun a l' q => Q (g a) l' q)) : Affords (do return g (← p)) s l Q :=
  h.bind fun _ _ _ _ => .pure

theorem discard {Q : Unit → Nat → Place → Prop} (h : Affords p s l (fun _ l' q => Q () l' q)) :
    Affords (discard p) s l Q := by
  rw [discard_eq]
  exact h.bind fun _ _ _ _ => .pure

theorem accept {pattern : Pattern} {Q : Option Span → Nat → Place → Prop} (hl : 1 ≤ l)
    (hs : ∀ q, pattern.end? s = some q → Q (some (s.spanTo q)) (l - 1) q)
    (hn : pattern.end? s = none → Q none (l - 1) s) : Affords (accept pattern) s l Q := by
  cases he : pattern.end? s with
  | none =>
    refine ⟨some (none, l - 1, s), by simpa using hn he, fun c hc hb => ?_⟩
    subst hc
    have : ¬ c.budget < c.attempts + 1 := by omega
    refine ⟨{ c with attempts := c.attempts + 1 }, ?_, rfl, rfl, ?_⟩
    · simp only [Parse.accept, this, if_false, he]
    · simp only
      omega
  | some q =>
    refine ⟨some (some (s.spanTo q), l - 1, q), by simpa using hs q he, fun c hc hb => ?_⟩
    subst hc
    have : ¬ c.budget < c.attempts + 1 := by omega
    refine ⟨{ c with
      place := q
      attempts := c.attempts + 1
      log := .accepted (c.place.spanTo q) pattern :: c.log }, ?_, rfl, rfl, ?_⟩
    · simp only [Parse.accept, this, if_false, he, Cursor.record]
    · simp only
      omega

theorem expect {pattern : Pattern} {others mistakes : List Pattern} {Q : Span → Nat → Place → Prop}
    (hl : 1 ≤ l) (hs : ∀ q, pattern.end? s = some q → Q (s.spanTo q) (l - 1) q) :
    Affords (expect pattern others mistakes) s l Q := by
  refine bind (R := fun r l' q => r.elim True (Q · l' q)) (accept hl hs fun _ => trivial) ?_
  rintro (_ | span) l' q - h
  · exact fail
  · exact pure h

theorem attempt {p : Parse (Option α)} {Q : Option α → Nat → Place → Prop}
    (h : Affords p s l (fun r l' q => match r with
      | some a => Q (some a) l' q
      | none => Q none l' s)) : Affords (attempt p) s l Q := by
  obtain ⟨_ | ⟨_ | a, l', q⟩, ho, hc⟩ := h
  · refine ⟨none, by simp, fun c hs hl => ?_⟩
    obtain ⟨m, c', hp, ha⟩ := hc c hs hl
    exact ⟨m, c', by simp only [Parse.attempt, hp], ha⟩
  · refine ⟨some (none, l', s), by simpa using ho, fun c hs hl => ?_⟩
    obtain ⟨c', hp, -, hb, ha⟩ := hc c hs hl
    exact ⟨{ c' with place := c.place }, by simp only [Parse.attempt, hp], hs, hb, ha⟩
  · refine ⟨some (some a, l', q), by simpa using ho, fun c hs hl => ?_⟩
    obtain ⟨c', hp, h⟩ := hc c hs hl
    exact ⟨c', by simp only [Parse.attempt, hp], h⟩

/-- The result of a lookahead, which is back where it began. -/
theorem lookahead (h : Affords p s l Q) :
    Affords (lookahead p) s l (fun a l' q => q = s ∧ ∃ q', Q a l' q' ∧ ∀ c : Cursor, c.place = s →
      c.attempts + l ≤ c.budget → ∃ c', p c = .ok a c' ∧ c'.place = q') := by
  obtain ⟨_ | ⟨a, l', q⟩, ho, hc⟩ := h
  · refine ⟨none, by simp, fun c hs hl => ?_⟩
    obtain ⟨m, c', hp, ha⟩ := hc c hs hl
    exact ⟨m, { c' with place := c.place }, by simp only [Parse.lookahead, hp], ha⟩
  · obtain ⟨hle, hq⟩ := ho _ rfl
    refine ⟨some (a, l', s), ?_, fun c hs hl => ?_⟩
    · intro r hr
      obtain rfl := Option.some.inj hr
      refine ⟨hle, rfl, q, hq, fun c hs hl => ?_⟩
      obtain ⟨c', hp, hq, -⟩ := hc c hs hl
      exact ⟨c', hp, hq⟩
    · obtain ⟨c', hp, -, hb, ha⟩ := hc c hs hl
      exact ⟨{ c' with place := c.place }, by simp only [Parse.lookahead, hp], hs, hb, ha⟩

/-- What a parse gives is the same at each run from a place. -/
theorem again {a : α} {l' : Nat} {q : Place} (h : Affords p s l' Q) (hl : l' ≤ l)
    (hc : ∀ c : Cursor, c.place = s → c.attempts + l ≤ c.budget →
      ∃ c', p c = .ok a c' ∧ c'.place = q) :
    Affords p s l' (fun b l'' r => b = a ∧ r = q ∧ Q a l'' q) := by
  let c : Cursor := { place := s, budget := l }
  obtain ⟨c', hp, hq⟩ := hc c rfl (by simp only [c]; omega)
  obtain ⟨_ | ⟨b, l'', r⟩, ho, hcur⟩ := h
  · obtain ⟨m, c'', hp', -⟩ := hcur c rfl (by simp only [c]; omega)
    simp [hp] at hp'
  · obtain ⟨c'', hp', hr, -⟩ := hcur c rfl (by simp only [c]; omega)
    rw [hp] at hp'
    obtain ⟨rfl, rfl⟩ := EStateM.Result.ok.inj hp'
    obtain rfl := hq.symm.trans hr
    refine ⟨some (a, l'', q), ?_, hcur⟩
    intro r hr
    obtain rfl := Option.some.inj hr
    exact ⟨(ho _ rfl).1, rfl, rfl, (ho _ rfl).2⟩

/-- An alternative that does not match costs one attempt; the one that matches is run twice, for at
most `m` attempts each time. -/
theorem choice {ι : Type} {f : ι → Parse (Option α)} {k : List ι} {m : Nat}
    {R : Option α → Nat → Place → Prop} (hl : k.length + 2 * m ≤ l)
    (h : ∀ i ∈ k, ∀ l, m ≤ l → Affords (f i) s l fun a l' q => match a with
      | some a => ∃ n ≤ m, l ≤ l' + n ∧ R a n q
      | none => l ≤ l' + 1) :
    Affords (choice (k.map f)) s l fun a l' q => match a with
      | some a => ∃ n, l ≤ l' + k.length + 2 * n ∧ R a n q
      | none => q = s ∧ l ≤ l' + k.length := by
  induction k generalizing l with
  | nil => exact pure ⟨rfl, Nat.le_refl l⟩
  | cons i k ih =>
    rw [List.length_cons] at hl
    have hi := h i (by simp)
    refine bind (hi l (by omega)).lookahead ?_
    rintro (_ | a) l' q hle ⟨rfl, q', hr, hc⟩
    · refine (ih (by omega) fun j hj => h j (by simp [hj])).mono ?_
      rintro (_ | a) l'' q - hq
      · exact ⟨hq.1, by rw [List.length_cons]; omega⟩
      · obtain ⟨n, hn, hq⟩ := hq
        exact ⟨n, by rw [List.length_cons]; omega, hq⟩
    · obtain ⟨n, hn, hln, hr⟩ := hr
      refine ((hi l' (by omega)).again hle hc).mono ?_
      rintro _ l'' _ - ⟨rfl, rfl, n', hn', hln', hr'⟩
      rw [List.length_cons]
      rcases Nat.le_total n n' with hnn | hnn
      · exact ⟨n', by omega, hr'⟩
      · exact ⟨n, by omega, hr⟩

/-- Each round that goes on spends an attempt. -/
theorem loop {step : σ → Parse (Round σ β)} {Q : β → Nat → Place → Prop}
    (inv : σ → Nat → Place → Prop) {state : σ} (h0 : inv state l s)
    (h : ∀ state l q, inv state l q → Affords (step state) q l fun r l' q' => match r with
      | .again state' => l' < l ∧ inv state' l' q'
      | .done b => Q b l' q') : Affords (loop step state) s l Q := by
  have hrounds : ∀ l state q, inv state l q → ∃ o : Option (β × Nat × Place),
      (∀ r ∈ o, r.2.1 ≤ l ∧ Q r.1 r.2.1 r.2.2) ∧ ∀ n > l, ∀ c : Cursor, c.place = q →
        c.attempts + l ≤ c.budget → Stops (rounds step n state) l c o := by
    intro l
    induction l using Nat.strongRecOn with
    | ind l ih =>
      intro state q hi
      obtain ⟨_ | ⟨state' | b, l', q'⟩, ho, hc⟩ := h state l q hi
      · refine ⟨none, by simp, fun n hn c hq hl => ?_⟩
        obtain ⟨m, c', hp, ha⟩ := hc c hq hl
        obtain ⟨n, rfl⟩ := Nat.exists_eq_add_of_lt hn
        exact ⟨m, c', by simp only [rounds, hp], ha⟩
      · obtain ⟨hle, hlt, hi'⟩ := ho _ rfl
        obtain ⟨o, ho', hc'⟩ := ih l' hlt state' q' hi'
        refine ⟨o, fun r hr => ⟨Nat.le_trans (ho' r hr).1 hle, (ho' r hr).2⟩, fun n hn c hq hl =>
          ?_⟩
        obtain ⟨c', hp, rfl, hb, ha⟩ := hc c hq hl
        obtain ⟨n, rfl⟩ := Nat.exists_eq_add_of_lt hn
        have hstop := hc' (l + n) (by simp only at hlt; omega) c' rfl (by omega)
        cases o with
        | none =>
          obtain ⟨m, c'', hp', ha'⟩ := hstop
          exact ⟨m, c'', by simp only [rounds, hp, hp'], by omega⟩
        | some r =>
          obtain ⟨c'', hp', hq', hb', ha'⟩ := hstop
          exact ⟨c'', by simp only [rounds, hp, hp'], hq', hb'.trans hb, by omega⟩
      · refine ⟨some (b, l', q'), ?_, fun n hn c hq hl => ?_⟩
        · intro r hr
          obtain rfl := Option.some.inj hr
          exact ho _ rfl
        · obtain ⟨c', hp, h⟩ := hc c hq hl
          obtain ⟨n, rfl⟩ := Nat.exists_eq_add_of_lt hn
          exact ⟨c', by simp only [rounds, hp], h⟩
  obtain ⟨o, ho, hc⟩ := hrounds l state s h0
  refine ⟨o, ho, fun c hs hl => ?_⟩
  have hn : c.allowance + 1 > l := by
    rw [Cursor.allowance]
    omega
  have := hc _ hn c hs hl
  cases o <;> exact this

theorem many {item : Parse (Option α)} {Q : List α → Nat → Place → Prop} (inv : Nat → Place → Prop)
    (h0 : inv l s) (h : ∀ l q, inv l q → Affords item q l fun r l' q' => match r with
      | some _ => l' < l ∧ inv l' q'
      | none => ∀ items, Q items l' q') : Affords (many item) s l Q := by
  refine loop (fun _ l q => inv l q) h0 fun items l q hi => (h l q hi).bind ?_
  rintro (_ | a) l' q' - hq
  · exact pure (hq _)
  · exact pure hq

end Affords

end SchemaText.Parse
