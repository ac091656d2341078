import SchemaText.Pattern
import SchemaText.Proofs.Pattern.Matching

/-!
A match goes over a piece of the text, whatever the pattern: it ends on a character boundary, and
nowhere but behind the place where it begins.
-/
namespace SchemaText

namespace Regex

variable {step : Place → List Place} {bound : List Char} {p q : Place} {tail : List Place}
  {r : Regex}

theorem passes_of_mem_runs (hstep : ∀ p q, q ∈ step p → ∃ x, p.Passes x q)
    (hq : q ∈ runs step bound p tail) : q ∈ tail ∨ ∃ x, p.Passes x q := by
  induction bound generalizing p tail with
  | nil =>
    rcases List.mem_cons.1 hq with rfl | hq
    · exact .inr ⟨[], .refl q⟩
    · exact .inl hq
  | cons c bound ih =>
    -- The runs that go on from one of the places behind a first step.
    have hfold : ∀ places : List Place, q ∈ places.foldr (runs step bound) (p :: tail) →
        q ∈ p :: tail ∨ ∃ s ∈ places, ∃ x, s.Passes x q := by
      intro places
      induction places with
      | nil => exact .inl
      | cons s places ihp =>
        intro hmem
        rcases ih hmem with hmem | hx
        · rcases ihp hmem with hmem | ⟨s', hs', hx⟩
          · exact .inl hmem
          · exact .inr ⟨s', List.mem_cons_of_mem _ hs', hx⟩
        · exact .inr ⟨s, List.mem_cons_self, hx⟩
    rcases hfold _ hq with hmem | ⟨s, hs, x, hx⟩
    · rcases List.mem_cons.1 hmem with rfl | hmem
      · exact .inr ⟨[], .refl q⟩
      · exact .inl hmem
    · obtain ⟨y, hy⟩ := hstep p s (List.mem_filter.1 hs).1
      exact .inr ⟨y ++ x, hy.trans hx⟩

theorem exists_passes_of_mem_ends (hq : q ∈ r.ends p) : ∃ x, p.Passes x q := by
  induction r generalizing p q with
  | finish =>
    rw [ends] at hq
    split at hq
    · obtain rfl := List.mem_singleton.1 hq
      exact ⟨[], .refl q⟩
    · simp at hq
  | one set =>
    cases hr : p.rest with
    | nil => simp [ends_one_nil hr] at hq
    | cons c rest =>
      rw [ends_one_cons hr] at hq
      split at hq
      · obtain rfl := List.mem_singleton.1 hq
        exact ⟨[c], hr, by simp⟩
      · simp at hq
  | seq first second ih ih' =>
    obtain ⟨s, hs, hq⟩ := List.mem_flatMap.1 hq
    obtain ⟨x, hx⟩ := ih hs
    obtain ⟨y, hy⟩ := ih' hq
    exact ⟨x ++ y, hx.trans hy⟩
  | alt first second ih ih' => exact (List.mem_append.1 hq).elim ih ih'
  | opt body ih =>
    rcases List.mem_append.1 hq with hq | hq
    · exact ih hq
    · obtain rfl := List.mem_singleton.1 hq
      exact ⟨[], .refl q⟩
  | star body ih =>
    rcases passes_of_mem_runs (fun _ _ => ih) hq with hq | hx
    · simp at hq
    · exact hx
  | plus body ih =>
    obtain ⟨s, hs, hq⟩ := List.mem_flatMap.1 hq
    obtain ⟨x, hx⟩ := ih hs
    rcases passes_of_mem_runs (fun _ _ => ih) hq with hq | ⟨y, hy⟩
    · simp at hq
    · exact ⟨x ++ y, hx.trans hy⟩

end Regex

theorem Pattern.exists_passes {pattern : Pattern} {p q : Place} (h : pattern.end? p = some q) :
    ∃ x, p.Passes x q := by
  cases pattern with
  | literal text => exact ⟨text.toList, Place.strip?_eq_some_iff.1 h⟩
  | keyword text =>
    have hstrip := (Option.filter_eq_some_iff.1 h).1
    exact ⟨text.toList, Place.strip?_eq_some_iff.1 hstrip⟩
  | token cls => exact Regex.exists_passes_of_mem_ends (List.mem_of_head? h)
  | endOfInput =>
    rw [end?] at h
    split at h
    · obtain rfl := Option.some.inj h
      exact ⟨[], .refl p⟩
    · simp at h

/-- A match at an offset begins at the place of the offset. -/
theorem Pattern.matchAt?_eq_some_iff {pattern : Pattern} {source : String} {offset stop : Nat} :
    pattern.matchAt? source offset = some stop ↔
      ∃ before p q, (Place.start source.toList).Passes before p ∧ p.offset = offset ∧
        pattern.end? p = some q ∧ q.offset = stop := by
  rw [matchAt?, Option.bind_eq_bind, Option.bind_eq_some_iff]
  constructor
  · rintro ⟨p, hp, hq⟩
    obtain ⟨⟨before, hb⟩, ho⟩ := Place.seek?_eq_some_iff.1 hp
    obtain ⟨q, hq, hstop⟩ := Option.bind_eq_some_iff.1 hq
    exact ⟨before, p, q, hb, ho, hq, Option.some.inj hstop⟩
  · rintro ⟨before, p, q, hb, rfl, hq, rfl⟩
    refine ⟨p, hb.seek?_eq, Option.bind_eq_some_iff.2 ⟨q, hq, rfl⟩⟩

end SchemaText
