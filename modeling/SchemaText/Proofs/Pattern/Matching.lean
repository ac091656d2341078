import SchemaText.Pattern.Regex
import SchemaText.Proofs.Text.Passage

/-!
Repeated characters: the match that is tried first is the longest, and every other one stops in
front of a character that could have been taken.
-/
namespace SchemaText

namespace Place

/-- The place behind the characters that `f` holds of. -/
def passWhile (f : Char → Bool) (p : Place) : Place :=
  ⟨p.offset + byteLength (p.rest.takeWhile f), p.rest.dropWhile f⟩

variable {f : Char → Bool} {p q : Place} {c : Char} {rest : List Char}

theorem passes_passWhile (f : Char → Bool) (p : Place) :
    p.Passes (p.rest.takeWhile f) (p.passWhile f) :=
  ⟨List.takeWhile_append_dropWhile.symm, rfl⟩

theorem passWhile_eq_iff : p.passWhile f = q ↔
    ∃ text, p.Passes text q ∧ (∀ c ∈ text, f c) ∧ ∀ c ∈ q.rest.head?, f c = false := by
  constructor
  · rintro rfl
    refine ⟨_, p.passes_passWhile f, fun c hc => List.all_eq_true.1 List.all_takeWhile c hc, ?_⟩
    intro c hc
    have := List.head?_dropWhile_not f p.rest
    rw [show (p.rest.dropWhile f).head? = some c from hc] at this
    simpa using this
  · rintro ⟨text, hp, ht, hq⟩
    have hd : q.rest.takeWhile f = [] ∧ q.rest.dropWhile f = q.rest := by
      cases hr : q.rest with
      | nil => simp
      | cons c rest =>
        have := hq c (by simp [hr])
        simp [this]
    obtain ⟨o, r⟩ := q
    have hr := hp.1
    have ho := hp.2
    simp only at hr ho hd
    rw [passWhile, hr, List.takeWhile_append_of_pos ht, List.dropWhile_append_of_pos ht, hd.1, hd.2,
      List.append_nil, ho]

theorem passWhile_self (h : ∀ c ∈ p.rest.head?, f c = false) : p.passWhile f = p :=
  passWhile_eq_iff.2 ⟨[], .refl p, by simp, h⟩

theorem passWhile_cons (h : p.rest = c :: rest) (hc : f c) :
    p.passWhile f = passWhile f ⟨p.offset + c.utf8Size, rest⟩ := by
  simp [passWhile, h, hc, Nat.add_assoc]

end Place

namespace Regex

variable {set : CharSet} {p q : Place} {c : Char} {rest : List Char}

theorem ends_one_cons (h : p.rest = c :: rest) :
    (one set).ends p = if set.has c then [⟨p.offset + c.utf8Size, rest⟩] else [] := by
  simp [ends, h]

theorem ends_one_nil (h : p.rest = []) : (one set).ends p = [] := by
  simp [ends, h]

theorem runs_one (set : CharSet) (bound : List Char) (p : Place) (tail : List Place)
    (hb : p.rest.length ≤ bound.length) :
    ∃ shorter, runs (one set).ends bound p tail = p.passWhile set.has :: (shorter ++ tail) ∧
      ∀ q ∈ shorter, ∃ c ∈ q.rest.head?, set.has c := by
  induction bound generalizing p tail with
  | nil =>
    have hr : p.rest = [] := List.length_eq_zero_iff.1 (Nat.le_zero.1 hb)
    exact ⟨[], by simp [runs, Place.passWhile_self, hr], by simp⟩
  | cons d bound ih =>
    cases hr : p.rest with
    | nil => exact ⟨[], by simp [runs, ends_one_nil hr, Place.passWhile_self, hr], by simp⟩
    | cons c rest =>
      by_cases hc : set.has c
      · have hpos := c.utf8Size_pos
        obtain ⟨shorter, hs, hq⟩ := ih ⟨p.offset + c.utf8Size, rest⟩ (p :: tail)
          (by rw [hr] at hb; simpa using hb)
        refine ⟨shorter ++ [p], ?_, ?_⟩
        · simp [runs, ends_one_cons hr, hc, Nat.ne_of_gt hpos, hs, Place.passWhile_cons hr hc]
        · intro q hmem
          obtain hmem | hmem := List.mem_append.1 hmem
          · exact hq q hmem
          · rw [List.mem_singleton.1 hmem]
            exact ⟨c, by simp [hr], hc⟩
      · refine ⟨[], ?_, by simp⟩
        simp [runs, ends_one_cons hr, hc, Place.passWhile_self, hr]

/-- The ends of a repeated character: the longest run, then ones that stop short of it. -/
theorem ends_star_one (set : CharSet) (p : Place) :
    ∃ shorter, (star (one set)).ends p = p.passWhile set.has :: shorter ∧
      ∀ q ∈ shorter, ∃ c ∈ q.rest.head?, set.has c := by
  obtain ⟨shorter, hs, hq⟩ := runs_one set p.rest p [] (Nat.le_refl _)
  exact ⟨shorter, by simpa [ends] using hs, hq⟩

/-- If the second part cannot go on where a repeated character could, only the longest run
counts. -/
theorem ends_seq_star_one {second : Regex}
    (h : ∀ q : Place, ∀ c ∈ q.rest.head?, set.has c → second.ends q = []) (p : Place) :
    (seq (star (one set)) second).ends p = second.ends (p.passWhile set.has) := by
  obtain ⟨shorter, hs, hq⟩ := ends_star_one set p
  have hnil : shorter.flatMap second.ends = [] := by
    rw [List.flatMap_eq_nil_iff]
    intro q hmem
    obtain ⟨c, hc, hset⟩ := hq q hmem
    exact h q c hc hset
  simp only [ends] at hs ⊢
  rw [hs, List.flatMap_cons, hnil, List.append_nil]

theorem end?_seq_one {second : Regex} : (seq (one set) second).end? p = some q ↔
    ∃ c rest, p.rest = c :: rest ∧ set.has c ∧
      second.end? ⟨p.offset + c.utf8Size, rest⟩ = some q := by
  cases hr : p.rest with
  | nil => simp [end?, ends, hr]
  | cons c rest =>
    by_cases hc : set.has c
    · simp only [end?, ends, hr, hc, if_true, List.flatMap_cons, List.flatMap_nil, List.append_nil]
      constructor
      · exact fun h => ⟨c, rest, rfl, hc, h⟩
      · rintro ⟨c, rest, he, -, h⟩
        obtain ⟨rfl, rfl⟩ := List.cons.inj he
        exact h
    · simp only [end?, ends, hr, hc]
      constructor
      · simp
      · rintro ⟨d, rest, he, hd, -⟩
        exact absurd ((List.cons.inj he).1 ▸ hd) hc

theorem end?_star_one : (star (one set)).end? p = some (p.passWhile set.has) := by
  obtain ⟨shorter, hs, -⟩ := ends_star_one set p
  simp [end?, hs]

theorem end?_plus_one : (plus (one set)).end? p = some q ↔
    ∃ c ∈ p.rest.head?, set.has c ∧ p.passWhile set.has = q := by
  cases hr : p.rest with
  | nil => simp [end?, ends, hr]
  | cons c rest =>
    by_cases hc : set.has c
    · obtain ⟨shorter, hs, -⟩ := runs_one set rest ⟨p.offset + c.utf8Size, rest⟩ [] (Nat.le_refl _)
      rw [end?, ends, ends_one_cons hr, if_pos hc, List.flatMap_singleton, hs]
      simp [hc, Place.passWhile_cons hr hc]
    · simp [end?, ends, hr, hc]

end Regex

end SchemaText
