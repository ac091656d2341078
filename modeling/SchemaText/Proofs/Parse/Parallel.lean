import SchemaText.Proofs.OrderedChoice
import SchemaText.Proofs.Parse.Composed

/-!
Two parses beside each other. They begin at one place and may have different attempts behind them
and in front of them. What they give is the same and so is what is heard of them, unless one of them
is stopped as a runaway.
-/
namespace SchemaText

/-- Cursors at one place of which the same has been heard. -/
structure Cursor.Abreast (c d : Cursor) : Prop where
  place : d.place = c.place
  log : d.log = c.log

namespace Cursor.Abreast

variable {c d c' d' : Cursor}

theorem refl (c : Cursor) : c.Abreast c := ⟨rfl, rfl⟩

theorem trans (h : c.Abreast d) (h' : d.Abreast c') : c.Abreast c' :=
  ⟨h'.place.trans h.place, h'.log.trans h.log⟩

theorem symm (h : c.Abreast d) : d.Abreast c := ⟨h.place.symm, h.log.symm⟩

/-- Going back to the places of before. -/
theorem back (h : c.Abreast d) (h' : c'.Abreast d') :
    Cursor.Abreast { c' with place := c.place } { d' with place := d.place } := ⟨h.place, h'.log⟩

theorem record (h : c.Abreast d) (event : Event) : (c.record event).Abreast (d.record event) :=
  ⟨h.place, congrArg (event :: ·) h.log⟩

end Cursor.Abreast

namespace Parse

variable {α β σ : Type} {p p' : Parse α} {f f' : α → Parse β} {c d : Cursor} {k : Nat}

/-- Runs that come to the same, unless one of them is stopped. -/
inductive Concur :
    EStateM.Result Failure Cursor α → EStateM.Result Failure Cursor α → Prop where
  | ok {a : α} {c d : Cursor} : c.Abreast d → Concur (.ok a c) (.ok a d)
  | mismatch {m : Mismatch} {c d : Cursor} :
      d.log = c.log → Concur (.error (.mismatch m) c) (.error (.mismatch m) d)
  | left {attempts budget : Nat} {c : Cursor} {r : EStateM.Result Failure Cursor α} :
      Concur (.error (.runaway attempts budget) c) r
  | right {attempts budget : Nat} {d : Cursor} {r : EStateM.Result Failure Cursor α} :
      Concur r (.error (.runaway attempts budget) d)

/-- Wherever the two begin abreast, they come to the same. -/
def Parallel (p p' : Parse α) : Prop := ∀ c d : Cursor, c.Abreast d → Concur (p c) (p' d)

namespace Parallel

theorem pure {a : α} : Parallel (pure a : Parse α) (pure a) := fun _ _ h => .ok h

theorem record {event : Event} :
    Parallel (modify (·.record event) : Parse Unit) (modify (·.record event)) :=
  fun _ _ h => .ok (h.record event)

theorem fail {expected mistakes : List Pattern} :
    Parallel (fail expected mistakes : Parse α) (fail expected mistakes) := by
  intro c d h
  rw [Parse.fail, Parse.fail, h.place]
  exact .mismatch (h.record _).log

theorem accept {pattern : Pattern} : Parallel (accept pattern) (accept pattern) := by
  intro c d h
  by_cases hc : c.budget < c.attempts + 1
  · simp only [Parse.accept, hc, if_true]
    exact .left
  · by_cases hd : d.budget < d.attempts + 1
    · simp only [Parse.accept, hd, if_true]
      exact .right
    · simp only [Parse.accept, hc, hd, if_false, h.place]
      cases pattern.end? c.place with
      | none => exact .ok ⟨rfl, h.log⟩
      | some q => exact .ok ⟨rfl, congrArg (_ :: ·) h.log⟩

theorem bind (h : Parallel p p') (hf : ∀ a, Parallel (f a) (f' a)) :
    Parallel (p >>= f) (p' >>= f') := by
  intro c d hcd
  have hp := h _ _ hcd
  rw [bind_apply, bind_apply]
  generalize p c = r at hp ⊢
  generalize p' d = r' at hp ⊢
  cases hp with
  | ok hcd' => exact hf _ _ _ hcd'
  | mismatch hlog => exact .mismatch hlog
  | left => exact .left
  | right => exact .right

theorem discard (h : Parallel p p') : Parallel (discard p) (discard p') := by
  rw [discard_eq, discard_eq]
  exact h.bind fun _ => .pure

theorem attempt {p p' : Parse (Option α)} (h : Parallel p p') :
    Parallel (attempt p) (attempt p') := by
  intro c d hcd
  have hp := h _ _ hcd
  rw [Parse.attempt, Parse.attempt]
  generalize p c = r at hp ⊢
  generalize p' d = r' at hp ⊢
  cases hp with
  | @ok a _ _ hcd' =>
    cases a with
    | none => exact .ok (hcd.back hcd')
    | some a => exact .ok hcd'
  | mismatch hlog => exact .mismatch hlog
  | left => exact .left
  | right => exact .right

/-- Alternatives that go in step at the front leave the choice to the others. -/
theorem choice_cons {p p' : Parse (Option α)} {ps ps' : List (Parse (Option α))}
    (h : Parallel p p') (hcd : c.Abreast d)
    (hrest : ∀ {c' d' : Cursor}, c'.place = c.place → c'.Abreast d' →
      Concur (choice ps c') (choice ps' d')) :
    Concur (choice (p :: ps) c) (choice (p' :: ps') d) := by
  have hp := h _ _ hcd
  rw [choice_cons_apply, choice_cons_apply]
  generalize p c = r at hp ⊢
  generalize p' d = r' at hp ⊢
  cases hp with
  | @ok a _ _ hcd' =>
    cases a with
    | none => exact hrest rfl (hcd.back hcd')
    | some a => exact h _ _ (hcd.back hcd')
  | mismatch hlog => exact .mismatch hlog
  | left => exact .left
  | right => exact .right

theorem choice {ps : List (Parse (Option α))} (h : ∀ p ∈ ps, Parallel p p) :
    Parallel (choice ps) (choice ps) := by
  induction ps with
  | nil => exact pure
  | cons p ps ih =>
    rw [List.forall_mem_cons] at h
    intro c d hcd
    exact h.1.choice_cons hcd fun _ hcd' => ih h.2 _ _ hcd'

/-- The two may be allowed different numbers of rounds. -/
theorem rounds {step step' : σ → Parse (Round σ β)}
    (h : ∀ state, Parallel (step state) (step' state)) (m n : Nat) (state : σ) :
    Parallel (rounds step m state) (rounds step' n state) := by
  induction m generalizing n state with
  | zero => exact fun _ _ _ => .left
  | succ m ih =>
    cases n with
    | zero => exact fun _ _ _ => .right
    | succ n =>
      intro c d hcd
      have hstep := h state _ _ hcd
      simp only [Parse.rounds]
      generalize step state c = r at hstep ⊢
      generalize step' state d = r' at hstep ⊢
      cases hstep with
      | @ok result _ _ hcd' =>
        cases result with
        | again state' => exact ih n state' _ _ hcd'
        | done b => exact .ok hcd'
      | mismatch hlog => exact .mismatch hlog
      | left => exact .left
      | right => exact .right

theorem loop {step step' : σ → Parse (Round σ β)}
    (h : ∀ state, Parallel (step state) (step' state)) (state : σ) :
    Parallel (loop step state) (loop step' state) := by
  intro c d hcd
  exact rounds h _ _ state _ _ hcd

end Parallel

/-- What is composed never asks how many attempts there are. -/
theorem Composed.parallel (h : Composed k p) : Parallel p p := by
  induction h with
  | pure => exact .pure
  | fail _ => exact .fail
  | record => exact .record
  | accept _ => exact .accept
  | any _ ih => exact ih
  | bind _ _ hp hf => exact hp.bind hf
  | attempt _ _ ih => exact ih.attempt
  | choice _ _ ih => exact .choice ih
  | loop _ ih => exact .loop ih _

/-! ### Alternatives that find nothing -/

/-- From `c` on, `p` finds nothing and nothing is heard of it, unless it is stopped. -/
def Idle (p : Parse (Option α)) (c : Cursor) : Prop :=
  (∃ d, p c = .ok none d ∧ d.log = c.log) ∨ ∃ n b d, p c = .error (.runaway n b) d

/-- Idle alternatives at the front do no more than to take attempts. -/
theorem choice_of_idle {ps qs : List (Parse (Option α))}
    (h : ∀ p ∈ ps, ∀ d : Cursor, d.place = c.place → Idle p d) :
    (∃ d, c.Abreast d ∧ choice (ps ++ qs) c = choice qs d) ∨
      ∃ n b d, choice (ps ++ qs) c = .error (.runaway n b) d := by
  induction ps generalizing c with
  | nil => exact .inl ⟨c, .refl c, rfl⟩
  | cons p ps ih =>
    rw [List.forall_mem_cons] at h
    rw [List.cons_append, choice_cons_apply]
    rcases h.1 c rfl with ⟨d, hd, hlog⟩ | ⟨n, b, d, hd⟩
    · have hback : c.Abreast { d with place := c.place } := ⟨rfl, hlog⟩
      rw [hd]
      rcases ih (c := { d with place := c.place }) h.2 with ⟨e, he, hrest⟩ | hrest
      · exact .inl ⟨e, hback.trans he, hrest⟩
      · exact .inr hrest
    · right
      rw [hd]
      exact ⟨n, b, _, rfl⟩

section Choice

variable {ι : Type} {f : ι → Parse (Option α)} {asks : ι → Bool} {s : Place}
  {before after before' after' left right : List ι}

theorem choice_map_of_idle (hidle : ∀ i, ¬ asks i → ∀ c : Cursor, c.place = s → Idle (f i) c)
    (hb : ∀ i ∈ before, ¬ asks i) (hc : c.place = s) (after : List ι) :
    (∃ d, c.Abreast d ∧ choice ((before ++ after).map f) c = choice (after.map f) d) ∨
      ∃ n b d, choice ((before ++ after).map f) c = .error (.runaway n b) d := by
  rw [List.map_append]
  apply choice_of_idle
  rw [List.forall_mem_map]
  intro i hi d hd
  exact hidle i (hb i hi) d (hd.trans hc)

/-- What comes behind idle alternatives decides. -/
theorem concur_choice_of_rest
    (hidle : ∀ i, ¬ asks i → ∀ c : Cursor, c.place = s → Idle (f i) c)
    (hb : ∀ i ∈ before, ¬ asks i) (hb' : ∀ i ∈ before', ¬ asks i) (hc : c.place = s)
    (hcd : c.Abreast d) (hrest : ∀ c' d' : Cursor, c'.place = s → c'.Abreast d' →
      Concur (choice (after.map f) c') (choice (after'.map f) d')) :
    Concur (choice ((before ++ after).map f) c) (choice ((before' ++ after').map f) d) := by
  have hd : d.place = s := hcd.place.trans hc
  rcases choice_map_of_idle hidle hb hc after with ⟨c', hc', hleft⟩ | ⟨n, b, e, hleft⟩
  · rcases choice_map_of_idle hidle hb' hd after' with
      ⟨d', hd', hright⟩ | ⟨n, b, e, hright⟩
    · rw [hleft, hright]
      exact hrest c' d' (hc'.place.trans hc) ((hc'.symm.trans hcd).trans hd')
    · rw [hright]
      exact .right
  · rw [hleft]
    exact .left

/-- Choices whose alternatives are the same but for idle ones come to the same. -/
theorem concur_choice (hf : ∀ i, Parallel (f i) (f i))
    (hidle : ∀ i, ¬ asks i → ∀ c : Cursor, c.place = s → Idle (f i) c)
    (h : left.filter asks = right.filter asks) (hc : c.place = s) (hcd : c.Abreast d) :
    Concur (choice (left.map f) c) (choice (right.map f) d) := by
  generalize hl : left.filter asks = common at h
  induction common generalizing left right c d with
  | nil =>
    have hleft := List.filter_eq_nil_iff.1 hl
    have hright := List.filter_eq_nil_iff.1 h.symm
    rw [← List.append_nil left, ← List.append_nil right]
    apply concur_choice_of_rest hidle hleft hright hc hcd
    intro c' d' _ hcd'
    exact .ok hcd'
  | cons i common ih =>
    obtain ⟨before, after, rfl, hb, -, hafter⟩ := List.filter_eq_cons_iff.1 hl
    obtain ⟨before', after', rfl, hb', -, hafter'⟩ := List.filter_eq_cons_iff.1 h.symm
    apply concur_choice_of_rest hidle hb hb' hc hcd
    intro c' d' hc' hcd'
    apply (hf i).choice_cons hcd'
    intro c'' d'' hplace hcd''
    exact ih (hplace.trans hc') hcd'' hafter hafter'.symm

end Choice

end Parse

end SchemaText
