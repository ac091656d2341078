import SchemaText.Proofs.Parse.Calls
import SchemaText.Proofs.Pattern.Passing

/-!
What is true of a cursor at every moment, whatever is done with it: it stands between two
characters of its text, its budget is the one that it was made with, and its attempts are the calls
of `accept` up to then.
-/
namespace SchemaText

variable {α β σ : Type} {text : List Char} {c d : Cursor} {calls before after : List Call}
  {saved : List Place}

/-- All places that the calls go back to are among `saved` or are saved on the way there. -/
def ComesBack : List Place → Cursor → List Call → Prop
  | _, _, [] => True
  | saved, c, .save :: calls => ComesBack (c.place :: saved) c calls
  | saved, c, .restore place :: calls =>
    place ∈ saved ∧ ComesBack saved { c with place := place } calls
  | saved, c, call :: calls => ComesBack saved (call.next c) calls

instance decidableComesBack : ∀ saved c calls, Decidable (ComesBack saved c calls)
  | _, _, [] => .isTrue trivial
  | saved, c, .save :: calls => decidableComesBack (c.place :: saved) c calls
  | saved, c, .restore place :: calls =>
    @instDecidableAnd _ _ inferInstance (decidableComesBack saved { c with place := place } calls)
  | saved, c, .accept pattern :: calls =>
    decidableComesBack saved (Call.next c (.accept pattern)) calls
  | saved, c, .peek pattern :: calls =>
    decidableComesBack saved (Call.next c (.peek pattern)) calls
  | saved, c, .fail expected mistakes :: calls =>
    decidableComesBack saved (Call.next c (.fail expected mistakes)) calls

/-- What is true of the places that a run begins with, and stays true behind a match, is true of
every place that it comes to. -/
theorem ComesBack.place_after {P : Place → Prop}
    (hmatch : ∀ {pattern : Pattern} {p q : Place}, pattern.end? p = some q → P p → P q)
    (h : ComesBack saved c (before ++ after)) (hsaved : ∀ p ∈ saved, P p) (hc : P c.place) :
    P (c.after before).place := by
  induction before generalizing saved c with
  | nil => exact hc
  | cons call before ih =>
    cases call with
    | save => exact ih h (List.forall_mem_cons.2 ⟨hc, hsaved⟩) hc
    | restore place => exact ih h.2 hsaved (hsaved place h.1)
    | peek | fail => exact ih h hsaved hc
    | accept pattern =>
      refine ih h hsaved ?_
      rcases Call.next_place c (.accept pattern) with hp | ⟨pattern', hp⟩ | hp
      · rw [hp]
        exact hc
      · exact hmatch hp hc
      · cases hp

/-! ### Combinators -/

/-- What follows may go back to the places that are saved before it. -/
theorem ComesBack.append (h : ComesBack saved c before)
    (hafter : ∀ saved', saved ⊆ saved' → ComesBack saved' (c.after before) after) :
    ComesBack saved c (before ++ after) := by
  induction before generalizing saved c with
  | nil => exact hafter saved (List.Subset.refl _)
  | cons call before ih =>
    cases call with
    | save =>
      refine ih h fun saved' hsub => hafter saved' ?_
      exact fun place hplace => hsub (List.mem_cons_of_mem _ hplace)
    | restore place => exact ⟨h.1, ih h.2 hafter⟩
    | accept | peek | fail => exact ih h hafter

theorem comesBack_roundCalls {step : σ → Script (Parse.Round σ β)}
    (h : ∀ state saved c, ComesBack saved c ((step state).calls c)) (n : Nat) (state : σ)
    (saved : List Place) (c : Cursor) :
    ComesBack saved c (Script.roundCalls (fun state => (step state).run)
      (fun state => (step state).calls) n state c) := by
  induction n generalizing state saved c with
  | zero => trivial
  | succ n ih =>
    simp only [Script.roundCalls]
    refine (h state saved c).append fun saved' _ => ?_
    rw [Script.after_calls]
    cases (step state).run c with
    | ok r c' =>
      cases r with
      | again state' => exact ih state' saved' c'
      | done b => trivial
    | error e c' => trivial

/-- The combinators go back only to places that they have saved themselves. -/
theorem Script.Combined.comesBack {p : Script α} (h : p.Combined) (saved : List Place)
    (c : Cursor) : ComesBack saved c (p.calls c) := by
  induction h generalizing saved c with
  | pure | accept | peek | fail => trivial
  | @bind _ _ p f _ _ ihp ihf =>
    rw [Script.calls]
    refine (ihp saved c).append fun saved' _ => ?_
    rw [Script.after_calls]
    cases p.run c with
    | ok a c' => exact ihf a saved' c'
    | error e c' => trivial
  | lookahead _ ih =>
    refine (ih (c.place :: saved) c).append fun saved' hsub => ?_
    exact ⟨hsub List.mem_cons_self, trivial⟩
  | @attempt _ p _ ih =>
    rw [Script.calls_attempt]
    refine (ih (c.place :: saved) c).append fun saved' hsub => ?_
    cases p.run c with
    | ok found c' =>
      cases found with
      | some a => trivial
      | none => exact ⟨hsub List.mem_cons_self, trivial⟩
    | error e c' => trivial
  | loop _ ih => exact comesBack_roundCalls ih _ _ saved c

/-! ### Cursors at every moment -/

/-- What is known of a cursor of a text after `calls`, when it was made with so large a budget. -/
structure Cursor.Sound (text : List Char) (budget : Nat) (calls : List Call) (c : Cursor) :
    Prop where
  boundary : Place.seek? text c.place.offset = some c.place
  le_byteLength : c.place.offset ≤ byteLength text
  budget : c.budget = budget
  attempts : c.attempts = calls.countP Call.isAccept
  accepted : ∀ {pattern : Pattern} {span : Span} {d : Cursor},
    Parse.accept pattern c = .ok (some span) d → span = ⟨c.place.offset, d.place.offset⟩
  /-- No match is too far behind in the text for a span. -/
  fits : ∀ {pattern : Pattern} {q : Place}, pattern.end? c.place = some q →
    Span.ofRange? c.place.offset q.offset = .ok ⟨c.place.offset, q.offset⟩

theorem accept_eq_some {pattern : Pattern} {span : Span}
    (h : Parse.accept pattern c = .ok (some span) d) :
    span = ⟨c.place.offset, d.place.offset⟩ := by
  by_cases hlt : c.attempts < c.budget
  · rw [Parse.accept_of_lt_budget hlt] at h
    cases hp : pattern.end? c.place with
    | none => simp [hp] at h
    | some q =>
      simp only [hp, EStateM.Result.ok.injEq, Option.some.injEq] at h
      rw [← h.1, ← h.2]
      rfl
  · simp [Parse.accept_of_budget_le (Nat.not_lt.1 hlt)] at h

theorem Place.Passes.offset_le {p : Place} {read : List Char}
    (h : (Place.start text).Passes read p) : p.offset ≤ byteLength text := by
  have hbytes := h.bytes_eq
  rw [h.offset_eq]
  simp only [Place.start, Place.bytes] at hbytes
  omega

theorem ofRange?_eq_ok {start stop : Nat} (h : start ≤ stop) (hstop : stop ≤ maxOffset) :
    Span.ofRange? start stop = .ok ⟨start, stop⟩ := by
  rw [Span.ofRange?, if_neg (Nat.not_lt.2 (Nat.le_trans h hstop)), if_neg (Nat.not_lt.2 hstop)]

/-- A script that goes back only to places that it has saved does not end in front of the place
where it begins. -/
theorem offset_le_endCursor (p : Script α) (h : ComesBack [] c (p.calls c)) :
    c.place.offset ≤ (endCursor (p.run c)).place.offset := by
  rw [← Script.after_calls]
  rw [← List.append_nil (p.calls c)] at h
  refine h.place_after (P := fun q => c.place.offset ≤ q.offset) ?_ (by simp) (Nat.le_refl _)
  intro pattern q r hr hq
  obtain ⟨x, hx⟩ := Pattern.exists_passes hr
  have hoffset := hx.2
  omega

theorem place_endCursor_lookahead (p : Script α) (c : Cursor) :
    (endCursor (p.lookahead.run c)).place = c.place := by
  rw [Script.run, Parse.lookahead]
  cases p.run c <;> rfl

theorem sound_after {factor : Nat} (hb : byteLength text ≤ maxOffset)
    (h : ComesBack [] (.start text factor) (before ++ after)) :
    ((Cursor.start text factor).after before).Sound text (Cursor.start text factor).budget
      before := by
  have hplace : ∃ read, (Place.start text).Passes read
      ((Cursor.start text factor).after before).place := by
    refine h.place_after (P := fun q => ∃ read, (Place.start text).Passes read q) ?_ (by simp) ?_
    · rintro pattern p q hq ⟨read, hread⟩
      obtain ⟨x, hx⟩ := Pattern.exists_passes hq
      exact ⟨read ++ x, hread.trans hx⟩
    · exact ⟨[], .refl _⟩
  obtain ⟨read, hread⟩ := hplace
  constructor
  case boundary => exact hread.seek?_eq
  case le_byteLength => exact hread.offset_le
  case budget => exact Cursor.after_budget _ before
  case attempts => rw [Cursor.after_attempts, Cursor.start, Nat.zero_add]
  case accepted => exact accept_eq_some
  case fits =>
    intro pattern q hq
    obtain ⟨x, hx⟩ := Pattern.exists_passes hq
    have hstop := (hread.trans hx).offset_le
    have hoffset := hx.2
    exact ofRange?_eq_ok (by omega) (Nat.le_trans hstop hb)

/-- Whatever is done with a new cursor, as long as it goes back only to places that were saved, it
is sound at every moment. A run of a script is made up of calls, so that this is true all through
it, and the combinators by themselves go back to nothing else. A script does not end in front of
the place where it begins, unless it goes back further itself, and looking ahead leads nowhere. -/
theorem cursor_sound (hb : byteLength text ≤ maxOffset) (factor : Nat) :
    (∀ before after, ComesBack [] (.start text factor) (before ++ after) →
      ((Cursor.start text factor).after before).Sound text (Cursor.start text factor).budget
        before) ∧
    (∀ (α : Type) (p : Script α) (c : Cursor), c.after (p.calls c) = endCursor (p.run c)) ∧
    (∀ (α : Type) (p : Script α) (saved : List Place) (c : Cursor), p.Combined →
      ComesBack saved c (p.calls c)) ∧
    (∀ (α : Type) (p : Script α) (c : Cursor), ComesBack [] c (p.calls c) →
      c.place.offset ≤ (endCursor (p.run c)).place.offset) ∧
    ∀ (α : Type) (p : Script α) (c : Cursor), (endCursor (p.lookahead.run c)).place = c.place := by
  refine ⟨?_, ?_, ?_, ?_, ?_⟩
  · exact fun before after h => sound_after hb h
  · exact fun α p c => p.after_calls c
  · exact fun α p saved c h => h.comesBack saved c
  · exact fun α p c h => offset_le_endCursor p h
  · exact fun α p c => place_endCursor_lookahead p c

theorem cursor_sound_restored : byteLength "é a".toList ≤ maxOffset ∧
    ((Cursor.start "é a".toList 4).after
        [.save, .accept (.literal "é"), .restore (.start "é a".toList)]).Sound "é a".toList
      (Cursor.start "é a".toList 4).budget
      [.save, .accept (.literal "é"), .restore (.start "é a".toList)] ∧
    (Cursor.start "é a".toList 4).place.offset ≤
      (endCursor ((Script.many (.attempt (.accept (.literal "é")))).run
        (.start "é a".toList 4))).place.offset := by
  have hb : byteLength "é a".toList ≤ maxOffset := by decide
  obtain ⟨hsound, -, hcombined, hle, -⟩ := cursor_sound hb 4
  refine ⟨hb, hsound _ [] ?_, hle _ _ _ ?_⟩
  · decide +kernel
  · exact hcombined _ _ _ _ (.many (.attempt (.accept _)))

end SchemaText
