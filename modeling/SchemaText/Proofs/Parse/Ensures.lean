import SchemaText.Parse.Separated

/-!
What a parse does from a place, as long as its attempts last.
-/
namespace SchemaText

/-- Where a run ends, whatever it gives. -/
def endCursor {α : Type} : EStateM.Result Failure Cursor α → Cursor
  | .ok _ c => c
  | .error _ c => c

namespace Parse

variable {α β σ : Type} {p : Parse α} {f : α → Parse β} {s : Place}
  {Q Q' : α → Place → Prop} {E E' : Mismatch → Prop}

/-- From `s`, `p` gives a result and a place that `Q` holds of, or a mismatch that `E` holds of, or
it runs away. -/
def Ensures (p : Parse α) (s : Place) (Q : α → Place → Prop) (E : Mismatch → Prop) : Prop :=
  ∀ c : Cursor, c.place = s →
    match p c with
    | .ok a c' => Q a c'.place
    | .error (.mismatch m) _ => E m
    | .error (.runaway ..) _ => True

theorem bind_apply (p : Parse α) (f : α → Parse β) (c : Cursor) : (p >>= f) c =
    match p c with
    | .ok a c' => f a c'
    | .error e c' => .error e c' := by
  cases h : p c <;> simp [Bind.bind, EStateM.bind, h]

theorem ok_of_bind {b : β} {c d : Cursor} (h : (p >>= f) c = .ok b d) :
    ∃ a c', p c = .ok a c' ∧ f a c' = .ok b d := by
  rw [bind_apply] at h
  cases hp : p c with
  | ok a c' =>
    rw [hp] at h
    exact ⟨a, c', rfl, h⟩
  | error e c' =>
    rw [hp] at h
    cases h

theorem discard_eq (p : Parse α) : discard p = p >>= fun _ => (pure () : Parse Unit) := by
  funext c
  cases hp : p c with
  | ok a c' =>
    simp [bind_apply, Functor.discard, Functor.mapConst, EStateM.map, hp]
    rfl
  | error e c' => simp [bind_apply, Functor.discard, Functor.mapConst, EStateM.map, hp]

namespace Ensures

theorem mono (h : Ensures p s Q E) (hg : ∀ a q, Q a q → Q' a q)
    (hb : ∀ m, E m → E' m) : Ensures p s Q' E' := by
  intro c hc
  have := h c hc
  split at this
  · exact hg _ _ this
  · exact hb _ this
  · trivial

theorem pure {a : α} (h : Q a s) : Ensures (pure a) s Q E := by
  rintro c rfl
  exact h

theorem bind {Q : β → Place → Prop} {R : α → Place → Prop} (h : Ensures p s R E)
    (hf : ∀ a q, R a q → Ensures (f a) q Q E) : Ensures (p >>= f) s Q E := by
  intro c hc
  have := h c hc
  rw [bind_apply]
  cases hp : p c with
  | ok a c' => exact hf a _ (by simpa only [hp] using this) c' rfl
  | error e c' =>
    cases e with
    | mismatch m => simpa only [hp] using this
    | runaway => trivial

/-- The rule for a step whose result is only passed on. -/
theorem map {Q : β → Place → Prop} {g : α → β} (h : Ensures p s (fun a q => Q (g a) q) E) :
    Ensures (do return g (← p)) s Q E :=
  h.bind fun _ _ => .pure

theorem discard {Q : Unit → Place → Prop} (h : Ensures p s (fun _ q => Q () q) E) :
    Ensures (discard p) s Q E := by
  rw [discard_eq]
  exact h.bind fun _ _ => .pure

theorem accept {pattern : Pattern} {Q : Option Span → Place → Prop}
    (hs : ∀ q, pattern.end? s = some q → Q (some (s.spanTo q)) q)
    (hn : pattern.end? s = none → Q none s) : Ensures (accept pattern) s Q E := by
  rintro c rfl
  simp only [Parse.accept]
  by_cases hb : c.budget < c.attempts + 1
  · simp [hb]
  · simp only [hb, if_false]
    cases he : pattern.end? c.place with
    | none => exact hn he
    | some q => exact hs q he

theorem record {event : Event} {Q : Unit → Place → Prop} (h : Q () s) :
    Ensures (modify (·.record event)) s Q E := by
  rintro c rfl
  exact h

theorem fail {expected mistakes : List Pattern}
    (h : E ⟨s.offset, expected, mistakes, .lookAt mistakes s⟩) :
    Ensures (fail expected mistakes) s Q E := by
  rintro c rfl
  exact h

theorem expect {pattern : Pattern} {others mistakes : List Pattern} {Q : Span → Place → Prop}
    (hs : ∀ q, pattern.end? s = some q → Q (s.spanTo q) q)
    (hn : pattern.end? s = none →
      E ⟨s.offset, pattern :: others, mistakes, .lookAt mistakes s⟩) :
    Ensures (expect pattern others mistakes) s Q E := by
  refine bind (R := fun r q => r.elim (q = s ∧ pattern.end? s = none) (Q · q))
    (accept (fun q h => hs q h) (fun h => ⟨rfl, h⟩)) ?_
  rintro (_ | span) q h
  · obtain ⟨rfl, hp⟩ := h
    exact fail (hn hp)
  · exact pure h

theorem lookahead (h : Ensures p s (fun a _ => Q a s) E) :
    Ensures (lookahead p) s Q E := by
  rintro c rfl
  have := h c rfl
  simp only [Parse.lookahead]
  cases hp : p c with
  | ok a c' => simpa only [hp] using this
  | error e c' =>
    cases e with
    | mismatch m => simpa only [hp] using this
    | runaway => trivial

theorem attempt {p : Parse (Option α)} {Q : Option α → Place → Prop}
    (h : Ensures p s (fun r q => match r with
      | some a => Q (some a) q
      | none => Q none s) E) : Ensures (attempt p) s Q E := by
  rintro c rfl
  have := h c rfl
  simp only [Parse.attempt]
  cases hp : p c with
  | ok r c' =>
    cases r with
    | none => simpa only [hp] using this
    | some a => simpa only [hp] using this
  | error e c' =>
    cases e with
    | mismatch m => simpa only [hp] using this
    | runaway => trivial

/-- The alternatives are asked one by one. What decides whether one of them matches is a property
`F` of the place, so that the second run of an alternative goes like the first. -/
theorem choice {ι : Type} {f : ι → Parse (Option α)} {l : List ι} {F : ι → Prop}
    {Q : Option α → Place → Prop}
    (h : ∀ i ∈ l, Ensures (f i) s (fun r q => match r with
      | some a => Q (some a) q ∧ ¬ F i
      | none => F i) E)
    (hn : (∀ i ∈ l, F i) → Q none s) :
    Ensures (choice (l.map f)) s Q E := by
  induction l with
  | nil => exact pure (hn (by simp))
  | cons i l ih =>
    have hi := h i (by simp)
    refine bind (R := fun r q => q = s ∧ match r with
      | some _ => ¬ F i
      | none => F i) (lookahead (hi.mono ?_ fun _ => id)) ?_
    · rintro (_ | a) q hq
      · exact ⟨rfl, hq⟩
      · exact ⟨rfl, hq.2⟩
    · rintro (_ | a) q ⟨rfl, hf⟩
      · refine ih (fun j hj => h j (by simp [hj])) fun hall => hn ?_
        intro j hj
        obtain rfl | hj := List.mem_cons.1 hj
        · exact hf
        · exact hall j hj
      · refine hi.mono ?_ fun _ => id
        rintro (_ | b) q hq
        · exact absurd hq hf
        · exact hq.1

/-- An invariant of the rounds holds until a round is done. -/
theorem rounds {step : σ → Parse (Round σ β)} {Q : β → Place → Prop} (inv : σ → Place → Prop)
    (n : Nat) {state : σ} (h0 : inv state s)
    (h : ∀ state q, inv state q → Ensures (step state) q (fun r q' => match r with
      | .again state' => inv state' q'
      | .done b => Q b q') E) : Ensures (rounds step n state) s Q E := by
  induction n generalizing state s with
  | zero => intro _ _; trivial
  | succ n ih =>
    rintro c rfl
    have := h state _ h0 c rfl
    simp only [Parse.rounds]
    cases hp : step state c with
    | ok r c' =>
      cases r with
      | again state' => exact ih (by simpa only [hp] using this) c' rfl
      | done b => simpa only [hp] using this
    | error e c' =>
      cases e with
      | mismatch m => simpa only [hp] using this
      | runaway => trivial

theorem loop {step : σ → Parse (Round σ β)} {Q : β → Place → Prop} (inv : σ → Place → Prop)
    {state : σ} (h0 : inv state s)
    (h : ∀ state q, inv state q → Ensures (step state) q (fun r q' => match r with
      | .again state' => inv state' q'
      | .done b => Q b q') E) : Ensures (loop step state) s Q E :=
  fun c hc => rounds inv _ h0 h c hc

theorem many {item : Parse (Option α)} {Q : List α → Place → Prop}
    (inv : List α → Place → Prop) (h0 : inv [] s)
    (h : ∀ items q, inv items q → Ensures item q (fun r q' => match r with
      | some a => inv (items ++ [a]) q'
      | none => Q items q') E) : Ensures (many item) s Q E := by
  refine loop (fun items q => inv items.toList q) h0 fun items q hi => (h _ q hi).bind ?_
  rintro (_ | a) q' hq
  · exact pure hq
  · exact pure (by simpa using hq)

end Ensures

end Parse

end SchemaText
