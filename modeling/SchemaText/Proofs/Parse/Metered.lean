import SchemaText.Proofs.Parse.Ensures

/-!
What the budget has to do with a parse: it is where the parse is stopped, and nothing else.
-/
namespace SchemaText.Parse

variable {α β σ : Type} {p : Parse α} {f : α → Parse β} {c c' : Cursor} {k n : Nat}

/-- What a parse from a place comes to as long as its attempts last. -/
inductive Verdict (α : Type) where
  /-- A result and a place, after so many attempts. -/
  | done (attempts : Nat) (result : α) (place : Place)
  /-- A mismatch, after so many attempts. -/
  | failed (attempts : Nat) (mismatch : Mismatch)
  /-- Nothing, however many attempts there are. -/
  | endless

/-- The parse is stopped at the first attempt that exceeds the budget. -/
def RunsAway (p : Parse α) (c : Cursor) : Prop :=
  ∃ c', p c = .error (.runaway (c.budget + 1) c.budget) c'

/-- `r` fails wherever `p` does, and as `p` does. -/
def FailsWith (p : Parse α) (r : Parse β) : Prop :=
  ∀ c e c', p c = .error e c' → ∃ d, r c = .error e d

theorem failsWith_bind : FailsWith p (p >>= f) := by
  intro c e c' hc
  exact ⟨c', by rw [bind_apply, hc]⟩

theorem failsWith_lookahead : FailsWith p (lookahead p) := by
  intro c e c' hc
  exact ⟨{ c' with place := c.place }, by simp only [Parse.lookahead, hc]⟩

theorem failsWith_attempt {p : Parse (Option α)} : FailsWith p (attempt p) := by
  intro c e c' hc
  exact ⟨c', by simp only [Parse.attempt, hc]⟩

theorem failsWith_rounds {step : σ → Parse (Round σ β)} {state : σ} :
    FailsWith (step state) (rounds step (n + 1) state) := by
  intro c e c' hc
  exact ⟨c', by simp only [rounds, hc]⟩

theorem RunsAway.of_failsWith {r : Parse β} (h : RunsAway p c) (hr : FailsWith p r) :
    RunsAway r c := by
  obtain ⟨c', hc⟩ := h
  exact hr c _ c' hc

/-- A run that goes on as another one does is stopped with it. -/
theorem RunsAway.congr {r : Parse α} (h : RunsAway r c') (hp : p c = r c')
    (hb : c'.budget = c.budget) : RunsAway p c := by
  obtain ⟨d, hd⟩ := h
  exact ⟨d, by rw [hp, hd, hb]⟩

namespace Verdict

/-- The attempts that are left at `c` suffice. -/
def Fits (c : Cursor) : Verdict α → Prop
  | done n _ _ | failed n _ => c.attempts + n ≤ c.budget
  | endless => False

/-- From `c`, `p` comes to what the verdict says. -/
def Comes (p : Parse α) (c : Cursor) : Verdict α → Prop
  | done n a q =>
    ∃ c', p c = .ok a c' ∧ c'.place = q ∧ c'.budget = c.budget ∧ c'.attempts = c.attempts + n
  | failed _ m => ∃ c', p c = .error (.mismatch m) c'
  | endless => False

/-- From `c`, `p` comes to what the verdict says or runs away, and the budget decides which. -/
structure Governs (p : Parse α) (c : Cursor) (v : Verdict α) : Prop where
  comes : v.Fits c → v.Comes p c
  runsAway : ¬ v.Fits c → RunsAway p c

/-- The verdict on what follows, with the attempts made before it. -/
def after (k : Nat) : Verdict α → Verdict α
  | done n a q => done (k + n) a q
  | failed n m => failed (k + n) m
  | endless => endless

/-- No result comes with fewer attempts. -/
def AtLeast (k : Nat) : Verdict α → Prop
  | done n _ _ => k ≤ n
  | _ => True

variable {v : Verdict β}

@[simp] theorem after_zero : v.after 0 = v := by
  cases v <;> simp [after]

theorem fits_after (hb : c'.budget = c.budget) (ha : c'.attempts = c.attempts + n) :
    (v.after n).Fits c ↔ v.Fits c' := by
  cases v <;> simp [after, Fits, ha, hb, Nat.add_assoc]

theorem not_fits_after (h : c.budget < c.attempts + n) : ¬ (v.after n).Fits c := by
  cases v <;> simp only [after, Fits, not_false_eq_true] <;> omega

/-- A result is the one that the verdict says, and the attempts for it are within the budget. -/
theorem Governs.eq_done {v : Verdict α} {a : α} (h : v.Governs p c) (hp : p c = .ok a c') :
    ∃ n, v = .done n a c'.place ∧ c.attempts + n ≤ c.budget ∧ c'.budget = c.budget ∧
      c'.attempts = c.attempts + n := by
  have hfits : v.Fits c := by
    apply Classical.byContradiction
    intro hn
    obtain ⟨e, he⟩ := h.runsAway hn
    simp [hp] at he
  have hcomes := h.comes hfits
  cases v with
  | done n b q =>
    obtain ⟨e, he, rfl, hb, ha⟩ := hcomes
    obtain ⟨rfl, rfl⟩ : a = b ∧ c' = e := by simpa [hp] using he
    exact ⟨n, rfl, hfits, hb, ha⟩
  | failed n m =>
    obtain ⟨e, he⟩ := hcomes
    simp [hp] at he
  | endless => exact hfits.elim

/-- A run that goes on as another one does is governed by what governs that one, with the attempts
made before. -/
theorem Governs.after {g r : Parse β} (h : v.Governs r c') (hg : g c = r c')
    (hb : c'.budget = c.budget) (ha : c'.attempts = c.attempts + n) : (v.after n).Governs g c := by
  constructor
  · intro hfits
    have hcomes := h.comes ((fits_after hb ha).1 hfits)
    cases v with
    | done m a q =>
      obtain ⟨d, hd, hq, hb', ha'⟩ := hcomes
      exact ⟨d, hg.trans hd, hq, hb'.trans hb, by omega⟩
    | failed m e =>
      obtain ⟨d, hd⟩ := hcomes
      exact ⟨d, hg.trans hd⟩
    | endless => exact hcomes
  · intro hfits
    exact (h.runsAway fun hv => hfits ((fits_after hb ha).2 hv)).congr hg hb

end Verdict

/-- What `p` comes to depends on the place alone, and takes at least so many attempts. -/
def Metered (least : Nat) (p : Parse α) : Prop :=
  ∀ s, ∃ v : Verdict α, v.AtLeast least ∧
    ∀ c : Cursor, c.place = s → c.attempts ≤ c.budget → v.Governs p c

namespace Metered

open Verdict

theorem any (h : Metered k p) : Metered 0 p := by
  intro s
  obtain ⟨v, -, hv⟩ := h s
  refine ⟨v, ?_, hv⟩
  cases v <;> simp [AtLeast]

/-! ### Steps -/

theorem pure {a : α} : Metered 0 (pure a : Parse α) := by
  intro s
  refine ⟨.done 0 a s, Nat.le_refl 0, ?_⟩
  intro c hc hle
  exact ⟨fun _ => ⟨c, rfl, hc, rfl, rfl⟩, fun hn => absurd hle hn⟩

theorem fail {expected mistakes : List Pattern} :
    Metered k (fail expected mistakes : Parse α) := by
  intro s
  refine ⟨.failed 0 ⟨s.offset, expected, mistakes, .lookAt mistakes s⟩, trivial, ?_⟩
  rintro c rfl hle
  exact ⟨fun _ => ⟨_, rfl⟩, fun hn => absurd hle hn⟩

theorem record {event : Event} : Metered 0 (modify (·.record event) : Parse Unit) := by
  intro s
  refine ⟨.done 0 () s, Nat.le_refl 0, ?_⟩
  intro c hc hle
  exact ⟨fun _ => ⟨c.record event, rfl, hc, rfl, rfl⟩, fun hn => absurd hle hn⟩

theorem accept {pattern : Pattern} : Metered 1 (accept pattern) := by
  intro s
  have haway : ∀ c : Cursor, c.attempts ≤ c.budget → ¬ c.attempts + 1 ≤ c.budget →
      RunsAway (Parse.accept pattern) c := by
    intro c hle hn
    refine ⟨{ c with attempts := c.attempts + 1 }, ?_⟩
    rw [Parse.accept, if_pos (Nat.not_le.1 hn), show c.attempts + 1 = c.budget + 1 by omega]
  cases he : pattern.end? s with
  | none =>
    refine ⟨.done 1 none s, Nat.le_refl 1, ?_⟩
    rintro c rfl hle
    refine ⟨fun hfits => ?_, haway c hle⟩
    refine ⟨{ c with attempts := c.attempts + 1 }, ?_, rfl, rfl, rfl⟩
    simp only [Parse.accept, if_neg (Nat.not_lt.2 hfits), he]
  | some q =>
    refine ⟨.done 1 (some (s.spanTo q)) q, Nat.le_refl 1, ?_⟩
    rintro c rfl hle
    refine ⟨fun hfits => ?_, haway c hle⟩
    refine ⟨{ c with
      place := q
      attempts := c.attempts + 1
      log := .accepted (c.place.spanTo q) pattern :: c.log }, ?_, rfl, rfl, rfl⟩
    simp only [Parse.accept, if_neg (Nat.not_lt.2 hfits), he, Cursor.record]

theorem bind (h : Metered k p) (hf : ∀ a, Metered 0 (f a)) : Metered k (p >>= f) := by
  intro s
  obtain ⟨v, hk, hv⟩ := h s
  cases v with
  | endless => exact ⟨.endless, trivial, fun c hc hle => ⟨False.elim, fun hn =>
      ((hv c hc hle).runsAway hn).of_failsWith failsWith_bind⟩⟩
  | failed n m =>
    refine ⟨.failed n m, trivial, ?_⟩
    intro c hc hle
    refine ⟨fun hfits => ?_, fun hn =>
      ((hv c hc hle).runsAway hn).of_failsWith failsWith_bind⟩
    obtain ⟨c', hp⟩ := (hv c hc hle).comes hfits
    exact failsWith_bind c _ c' hp
  | done n a q =>
    obtain ⟨w, -, hw⟩ := hf a q
    refine ⟨w.after n, ?_, ?_⟩
    · cases w <;> simp only [Verdict.after, AtLeast] at hk ⊢
      omega
    · intro c hc hle
      by_cases hn : c.attempts + n ≤ c.budget
      · obtain ⟨c', hp, hq, hb, ha⟩ := (hv c hc hle).comes hn
        exact (hw c' hq (by omega)).after (by rw [bind_apply, hp]) hb ha
      · have hnot : ¬ (w.after n).Fits c := not_fits_after (Nat.not_le.1 hn)
        exact ⟨fun hfits => absurd hfits hnot, fun _ =>
          ((hv c hc hle).runsAway hn).of_failsWith failsWith_bind⟩

/-- The rule for what stands behind something that takes attempts already. -/
theorem next (h : Metered k p) (hf : ∀ a, Metered 0 (f a)) : Metered 0 (p >>= f) :=
  h.any.bind hf

/-! ### Going back -/

/-- A run that ends as `p` does, but for the place that it goes back to. -/
theorem relocate {r : Parse α} (h : Metered k p) (target : Place → α → Place → Place)
    (hok : ∀ c a c', p c = .ok a c' →
      r c = .ok a { c' with place := target c.place a c'.place })
    (herror : FailsWith p r) : Metered k r := by
  intro s
  obtain ⟨v, hk, hv⟩ := h s
  cases v with
  | endless => exact ⟨.endless, trivial, fun c hc hle => ⟨False.elim, fun hn =>
      ((hv c hc hle).runsAway hn).of_failsWith herror⟩⟩
  | failed n m =>
    refine ⟨.failed n m, trivial, ?_⟩
    intro c hc hle
    refine ⟨fun hfits => ?_, fun hn =>
      ((hv c hc hle).runsAway hn).of_failsWith herror⟩
    obtain ⟨c', hp⟩ := (hv c hc hle).comes hfits
    exact herror c _ c' hp
  | done n a q =>
    refine ⟨.done n a (target s a q), hk, ?_⟩
    rintro c rfl hle
    refine ⟨fun hfits => ?_, fun hn =>
      ((hv c rfl hle).runsAway hn).of_failsWith herror⟩
    obtain ⟨c', hp, rfl, hb, ha⟩ := (hv c rfl hle).comes hfits
    exact ⟨_, hok c a c' hp, rfl, hb, ha⟩

theorem lookahead (h : Metered k p) : Metered k (lookahead p) := by
  refine h.relocate (fun s _ _ => s) ?_ failsWith_lookahead
  intro c a c' hc
  simp only [Parse.lookahead, hc]

theorem attempt {p : Parse (Option α)} (h : Metered k p) : Metered k (attempt p) := by
  refine h.relocate (fun s a q => if a.isSome then q else s) ?_ failsWith_attempt
  intro c a c' hc
  cases a with
  | none => simp only [Parse.attempt, hc, Option.isSome_none, Bool.false_eq_true, if_false]
  | some a => simp only [Parse.attempt, hc, Option.isSome_some, if_true]

theorem choice {alternatives : List (Parse (Option α))} (h : ∀ p ∈ alternatives, Metered k p) :
    Metered 0 (choice alternatives) := by
  induction alternatives with
  | nil => exact pure
  | cons p alternatives ih =>
    have hp := h p (by simp)
    refine hp.lookahead.next fun a => ?_
    cases a with
    | none => exact ih fun q hq => h q (by simp [hq])
    | some a => exact hp.any

/-- A result comes within the budget, after that many attempts at least. -/
theorem spends {a : α} (h : Metered k p) (hp : p c = .ok a c') (hc : c.attempts ≤ c.budget) :
    c'.budget = c.budget ∧ c.attempts + k ≤ c'.attempts ∧ c'.attempts ≤ c'.budget := by
  obtain ⟨v, hk, hv⟩ := h c.place
  obtain ⟨n, rfl, hle, hb, ha⟩ := (hv c rfl hc).eq_done hp
  simp only [AtLeast] at hk
  omega

/-- After a result, a second run from the place of the first one goes like it, as long as the
attempts last. -/
theorem repeats {a : α} (h : Metered k p) (hp : p c = .ok a c')
    (hc : c.attempts ≤ c.budget) :
    (∃ d, p { c' with place := c.place } = .ok a d ∧ d.place = c'.place) ∨
      RunsAway p { c' with place := c.place } := by
  obtain ⟨v, -, hv⟩ := h c.place
  obtain ⟨n, rfl, hle, hb, ha⟩ := (hv c rfl hc).eq_done hp
  have hgov := hv { c' with place := c.place } rfl (show c'.attempts ≤ c'.budget by omega)
  by_cases hagain : Verdict.Fits { c' with place := c.place } (.done n a c'.place)
  · left
    obtain ⟨d, hd, hq, -⟩ := hgov.comes hagain
    exact ⟨d, hd, hq⟩
  · exact .inr (hgov.runsAway hagain)

/-! ### Loops -/

/-- What rounds come to that go as their verdicts say. -/
inductive Rounds (verdict : σ → Place → Verdict (Round σ β)) : σ → Place → Verdict β → Prop where
  | done {state : σ} {s q : Place} {n : Nat} {b : β} :
      verdict state s = .done n (.done b) q → Rounds verdict state s (.done n b q)
  | failed {state : σ} {s : Place} {n : Nat} {m : Mismatch} :
      verdict state s = .failed n m → Rounds verdict state s (.failed n m)
  | endless {state : σ} {s : Place} :
      verdict state s = .endless → Rounds verdict state s .endless
  | again {state state' : σ} {s q : Place} {n : Nat} {v : Verdict β} :
      verdict state s = .done n (.again state') q → Rounds verdict state' q v →
      Rounds verdict state s (v.after n)

section Loop

variable {step : σ → Parse (Round σ β)} {verdict : σ → Place → Verdict (Round σ β)} {state : σ}

/-- More rounds are allowed than there are attempts, and each round takes one. -/
theorem Rounds.governs {s : Place} {v : Verdict β} (hr : Rounds verdict state s v)
    (hleast : ∀ state s, (verdict state s).AtLeast 1)
    (hgov : ∀ state s (c : Cursor), c.place = s → c.attempts ≤ c.budget →
      (verdict state s).Governs (step state) c)
    (hc : c.place = s) (hle : c.attempts ≤ c.budget) (hn : c.budget < c.attempts + n) :
    v.Governs (rounds step n state) c := by
  induction hr generalizing c n with
  | @done state s q m b hv =>
    obtain ⟨n, rfl⟩ : ∃ n', n = n' + 1 := ⟨n - 1, by omega⟩
    have hgov := hgov state s c hc hle
    rw [hv] at hgov
    refine ⟨fun hfits => ?_, fun hnot => (hgov.runsAway hnot).of_failsWith failsWith_rounds⟩
    obtain ⟨c', hp, h⟩ := hgov.comes hfits
    exact ⟨c', by simp only [rounds, hp], h⟩
  | @failed state s m e hv =>
    obtain ⟨n, rfl⟩ : ∃ n', n = n' + 1 := ⟨n - 1, by omega⟩
    have hgov := hgov state s c hc hle
    rw [hv] at hgov
    refine ⟨fun hfits => ?_, fun hnot => (hgov.runsAway hnot).of_failsWith failsWith_rounds⟩
    obtain ⟨c', hp⟩ := hgov.comes hfits
    exact ⟨c', by simp only [rounds, hp]⟩
  | @endless state s hv =>
    obtain ⟨n, rfl⟩ : ∃ n', n = n' + 1 := ⟨n - 1, by omega⟩
    have hgov := hgov state s c hc hle
    rw [hv] at hgov
    exact ⟨False.elim, fun hnot => (hgov.runsAway hnot).of_failsWith failsWith_rounds⟩
  | @again state state' s q m v hv _ ih =>
    obtain ⟨n, rfl⟩ : ∃ n', n = n' + 1 := ⟨n - 1, by omega⟩
    have hgov := hgov state s c hc hle
    have hm : 1 ≤ m := by simpa only [hv, AtLeast] using hleast state s
    rw [hv] at hgov
    by_cases hfits : c.attempts + m ≤ c.budget
    · obtain ⟨c', hp, hq, hb, ha⟩ := hgov.comes hfits
      have hrest := ih hq (by omega) (show c'.budget < c'.attempts + n by omega)
      exact hrest.after (by simp only [rounds, hp]) hb ha
    · exact ⟨fun h => absurd h (not_fits_after (Nat.not_le.1 hfits)), fun _ =>
        (hgov.runsAway hfits).of_failsWith failsWith_rounds⟩

/-- Rounds that come to nothing use up every budget. -/
theorem runsAway_of_no_rounds {s : Place} (hr : ∀ v, ¬ Rounds verdict state s v)
    (hleast : ∀ state s, (verdict state s).AtLeast 1)
    (hgov : ∀ state s (c : Cursor), c.place = s → c.attempts ≤ c.budget →
      (verdict state s).Governs (step state) c)
    (hc : c.place = s) (hle : c.attempts ≤ c.budget) (hn : c.budget < c.attempts + n) :
    RunsAway (rounds step n state) c := by
  induction n generalizing state s c with
  | zero => omega
  | succ n ih =>
    have hgov := hgov state s c hc hle
    have hone := hleast state s
    cases hv : verdict state s with
    | endless => exact absurd (.endless hv) (hr _)
    | failed m e => exact absurd (.failed hv) (hr _)
    | done m r q =>
      rw [hv] at hgov hone
      cases r with
      | done b => exact absurd (.done hv) (hr _)
      | again state' =>
        by_cases hfits : c.attempts + m ≤ c.budget
        · obtain ⟨c', hp, hq, hb, ha⟩ := hgov.comes hfits
          have hm : 1 ≤ m := hone
          have hrest := ih (fun v h => hr _ (.again hv h)) hq (by omega)
            (show c'.budget < c'.attempts + n by omega)
          exact hrest.congr (by simp only [rounds, hp]) hb
        · exact (hgov.runsAway hfits).of_failsWith failsWith_rounds

theorem Rounds.atLeast {s : Place} {v : Verdict β} (hr : Rounds verdict state s v)
    (hleast : ∀ state s, (verdict state s).AtLeast 1) : v.AtLeast 1 := by
  induction hr with
  | @done state s _ _ _ hv => simpa only [hv, AtLeast] using hleast state s
  | failed | endless => trivial
  | @again state state' s q n v hv hr ih =>
    have hn : 1 ≤ n := by simpa only [hv, AtLeast] using hleast state s
    cases v <;> simp only [Verdict.after, AtLeast]
    omega

/-- A loop is metered if its rounds are and each of them takes an attempt. -/
theorem loop (h : ∀ state, Metered 1 (step state)) (state : σ) : Metered 1 (loop step state) := by
  intro s
  let verdict (state : σ) (s : Place) : Verdict (Round σ β) := (h state s).choose
  have hleast (state : σ) (s : Place) : (verdict state s).AtLeast 1 := (h state s).choose_spec.1
  have hgov (state : σ) (s : Place) := (h state s).choose_spec.2
  have hallowed : ∀ c : Cursor, c.attempts ≤ c.budget →
      c.budget < c.attempts + (c.allowance + 1) := by
    intro c hle
    rw [Cursor.allowance]
    omega
  by_cases hr : ∃ v, Rounds verdict state s v
  · obtain ⟨v, hr⟩ := hr
    refine ⟨v, hr.atLeast hleast, fun c hc hle => ?_⟩
    have hrounds := hr.governs hleast hgov hc hle (hallowed c hle)
    have hloop : (v.after 0).Governs (Parse.loop step state) c := hrounds.after rfl rfl rfl
    rwa [after_zero] at hloop
  · refine ⟨.endless, trivial, fun c hc hle => ⟨False.elim, fun _ => ?_⟩⟩
    exact runsAway_of_no_rounds (not_exists.1 hr) hleast hgov hc hle (hallowed c hle)

end Loop

end Metered

end SchemaText.Parse
