import SchemaText.Proofs.Pattern.Language
import SchemaText.Proofs.Text.Boundary

/-!
Expressions whose preferred match is the longest one. Where a part has no choice of its own, what
comes behind it keeps the property; a repetition of such a part has it.
-/
namespace SchemaText.Regex

/-- No place has more than one end. -/
def Single (r : Regex) : Prop := ∀ p, (r.ends p).length ≤ 1

/-- The end that is preferred is behind all others. -/
def Greedy (r : Regex) : Prop := ∀ p, ∀ e ∈ r.end? p, ∀ q ∈ r.ends p, q.offset ≤ e.offset

/-- Where one expression has an end, the other one has none. -/
def Exclusive (first second : Regex) : Prop := ∀ p, first.ends p = [] ∨ second.ends p = []

variable {r body first second : Regex} {set : CharSet} {bound : List Char} {p q e : Place}
  {text rest : List Char}

/-! ### Expressions with one end -/

theorem Single.cases (h : Single r) (p : Place) : r.ends p = [] ∨ ∃ q, r.ends p = [q] := by
  have hle := h p
  cases hends : r.ends p with
  | nil => exact .inl rfl
  | cons q more =>
    rw [hends, List.length_cons] at hle
    have hmore : more = [] := List.length_eq_zero_iff.1 (by omega)
    exact .inr ⟨q, by rw [hmore]⟩

theorem offset_le_of_mem_singleton (he : e ∈ [p].head?) (hq : q ∈ [p]) : q.offset ≤ e.offset := by
  cases he
  exact Nat.le_of_eq (congrArg Place.offset (List.mem_singleton.1 hq))

theorem Single.greedy (h : Single r) : Greedy r := by
  intro p e he q hq
  rcases h.cases p with hnil | ⟨s, hs⟩
  · simp [hnil] at hq
  · rw [end?, hs] at he
    rw [hs] at hq
    exact offset_le_of_mem_singleton he hq

theorem single_one (set : CharSet) : Single (one set) := by
  intro p
  cases hr : p.rest with
  | nil => simp [ends_one_nil hr]
  | cons c rest =>
    rw [ends_one_cons hr]
    split
    · exact Nat.le_refl 1
    · exact Nat.zero_le 1

theorem Single.seq (h : Single first) (h' : Single second) : Single (.seq first second) := by
  intro p
  rcases h.cases p with hnil | ⟨s, hs⟩
  · simp [ends, hnil]
  · rw [ends, hs, List.flatMap_singleton]
    exact h' s

/-! ### Greedy expressions -/

theorem Single.greedy_seq (h : Single first) (h' : Greedy second) :
    Greedy (.seq first second) := by
  intro p e he q hq
  rw [end?, ends] at he
  rw [ends] at hq
  rcases h.cases p with hnil | ⟨s, hs⟩
  · simp [hnil] at hq
  · rw [hs, List.flatMap_singleton] at he hq
    exact h' s e he q hq

theorem Greedy.alt (h : Greedy first) (h' : Greedy second) (hx : Exclusive first second) :
    Greedy (.alt first second) := by
  intro p e he q hq
  rw [end?, ends] at he
  rw [ends] at hq
  rcases hx p with hnil | hnil
  · rw [hnil, List.nil_append] at he hq
    exact h' p e he q hq
  · rw [hnil, List.append_nil] at he hq
    exact h p e he q hq

theorem mem_runs_self (step : Place → List Place) (bound : List Char) (p : Place) :
    p ∈ runs step bound p [] := by
  cases bound with
  | nil => exact List.mem_singleton_self p
  | cons c bound =>
    rw [runs_cons]
    exact List.mem_append_right _ (List.mem_singleton_self p)

/-- There is a step to go on with, or there is none. -/
theorem Single.runs_cases (h : Single body) (c : Char) (bound : List Char) (p : Place) :
    runs body.ends (c :: bound) p [] = [p] ∨ ∃ s ∈ body.ends p,
      runs body.ends (c :: bound) p [] = runs body.ends bound s [] ++ [p] := by
  rw [runs_cons]
  rcases h.cases p with hnil | ⟨s, hs⟩
  · left
    rw [hnil]
    rfl
  · rw [hs]
    by_cases hoffset : s.offset = p.offset
    · left
      simp [hoffset]
    · right
      refine ⟨s, List.mem_singleton_self s, ?_⟩
      simp [hoffset]

/-- The runs that are tried first are those that go on. -/
theorem Single.le_of_mem_runs (h : Single body) (he : e ∈ (runs body.ends bound p []).head?)
    (hq : q ∈ runs body.ends bound p []) : q.offset ≤ e.offset := by
  induction bound generalizing p q e with
  | nil => exact offset_le_of_mem_singleton he hq
  | cons c bound ih =>
    rcases h.runs_cases c bound p with hruns | ⟨s, hs, hruns⟩
    · rw [hruns] at he hq
      exact offset_le_of_mem_singleton he hq
    · have hself := mem_runs_self body.ends bound s
      rw [hruns, List.head?_append_of_ne_nil _ (List.ne_nil_of_mem hself)] at he
      rw [hruns, List.mem_append, List.mem_singleton] at hq
      rcases hq with hq | rfl
      · exact ih he hq
      · obtain ⟨a, ha⟩ := exists_passes_of_mem_ends hs
        have hle := ih he hself
        have hoffset := ha.2
        omega

theorem Single.greedy_star (h : Single body) : Greedy (star body) := by
  intro p e he q hq
  rw [end?, ends] at he
  rw [ends] at hq
  exact h.le_of_mem_runs he hq

theorem Single.greedy_plus (h : Single body) : Greedy (plus body) := by
  intro p e he q hq
  rw [end?, ends] at he
  rw [ends] at hq
  rcases h.cases p with hnil | ⟨s, hs⟩
  · simp [hnil] at hq
  · rw [hs, List.flatMap_singleton] at he hq
    exact h.le_of_mem_runs he hq

/-- The text up to the preferred end of a greedy expression begins with every text that the
expression stands for there. -/
theorem Greedy.initial (h : Greedy r) (he : r.end? p = some e) (hp : p.Passes text e)
    {other : List Char} (hq : p.Passes other q) (hm : Matches r other q.rest) :
    other <+: text := by
  have hle := h p e he q (mem_ends_iff.2 ⟨other, hq, hm⟩)
  have hoffset := hp.2
  have hoffset' := hq.2
  have hprefix : text <+: p.rest := ⟨e.rest, hp.1.symm⟩
  refine prefix_of_byteLength_le ⟨q.rest, hq.1.symm⟩ hprefix ?_
  omega

/-! ### Expressions that stand for some text -/

/-- Whether an expression is made to match something. -/
def consumes : Regex → Bool
  | finish | opt _ | star _ => false
  | one _ => true
  | seq first second => first.consumes || second.consumes
  | alt first second => first.consumes && second.consumes
  | plus body => body.consumes

theorem Matches.ne_nil (h : Matches r text rest) (hr : r.consumes) : text ≠ [] := by
  induction h with
  | finish | optNone | optSome | starNil | starCons => cases hr
  | one => exact List.cons_ne_nil _ _
  | seq _ _ ih ih' =>
    rw [consumes, Bool.or_eq_true] at hr
    rcases hr with hr | hr
    · exact List.append_ne_nil_of_left_ne_nil (ih hr) _
    · exact List.append_ne_nil_of_right_ne_nil _ (ih' hr)
  | altFirst _ ih =>
    rw [consumes, Bool.and_eq_true] at hr
    exact ih hr.1
  | altSecond _ ih =>
    rw [consumes, Bool.and_eq_true] at hr
    exact ih hr.2
  | plus _ _ ih _ => exact List.append_ne_nil_of_left_ne_nil (ih hr) _

end SchemaText.Regex
