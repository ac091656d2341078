import SchemaText.Proofs.Grammar.Sound.Attribute
import SchemaText.Proofs.Parse.Affords

/-!
The attempts that trivia, attributes and the entries of blocks take, in terms of the bytes that they
consume.
-/
namespace SchemaText

open Grammar Parse

variable {s q : Place} {l : Nat} {pattern : Pattern}

/-! ### Single tokens -/

theorem bytes_lt_of_end? (hp : Lexical pattern) (h : pattern.end? s = some q) :
    q.bytes + 1 ≤ s.bytes := by
  obtain ⟨text, hpass, hne, -⟩ := exists_spells h hp
  exact hpass.bytes_lt hne

/-- A statement begins with at least four bytes. -/
theorem bytes_lt_of_keyword {kind : StatementKind} (h : (Grammar.keyword kind).end? s = some q) :
    q.bytes + 4 ≤ s.bytes := by
  have hb := (end?_keyword_iff.1 h).1.bytes_eq
  have hk : 4 ≤ byteLength kind.keyword.toList := by
    cases kind <;> decide
  omega

theorem affords_accept (hp : Lexical pattern) (hl : 1 ≤ l) : Affords (accept pattern) s l
    (fun a l' q => l' + 1 = l ∧ match a with
      | some _ => pattern.end? s = some q ∧ q.bytes + 1 ≤ s.bytes
      | none => q = s ∧ pattern.end? s = none) := by
  refine .accept hl (fun q h => ?_) fun h => ?_
  · exact ⟨by omega, h, bytes_lt_of_end? hp h⟩
  · exact ⟨by omega, rfl, h⟩

theorem affords_expect {others mistakes : List Pattern} (hp : Lexical pattern) (hl : 1 ≤ l) :
    Affords (expect pattern others mistakes) s l
      (fun _ l' q => l' + 1 = l ∧ q.bytes + 1 ≤ s.bytes) :=
  .expect hl fun _ h => ⟨by omega, bytes_lt_of_end? hp h⟩

/-! ### Trivia -/

theorem bytes_lt_of_whitespace (h : (Pattern.token whitespace).end? s = some q) :
    q.bytes + 1 ≤ s.bytes := by
  obtain ⟨c, hc, hb, rfl⟩ := end?_whitespace_iff.1 h
  refine (s.passes_passWhile isBlank).bytes_lt fun hnil => ?_
  obtain ⟨rest, hr⟩ := List.head?_eq_some_iff.1 hc
  simp [hr, hb] at hnil

theorem bytes_lt_of_comment (h : (Pattern.token comment).end? s = some q) :
    q.bytes + 2 ≤ s.bytes := by
  obtain ⟨text, hp, -⟩ := end?_comment_iff.1 h
  have hb := hp.bytes_eq
  simp only [byteLength_cons, show '/'.utf8Size = 1 from rfl] at hb
  omega

/-- One attempt for each byte, and two that find no more. -/
theorem affords_trivia (hl : s.bytes + 2 ≤ l) : Affords trivia s l
    (fun _ l' q => q = s.skip ∧ q.bytes + s.lead = s.bytes ∧ l ≤ l' + s.lead + 2 ∧ l' + 2 ≤ l) := by
  have hs := s.bytes_skip_add_lead
  refine .loop (fun _ l' q => q.skip = s.skip ∧ l + q.lead ≤ l' + s.lead ∧ l' ≤ l)
    ⟨rfl, Nat.le_refl _, Nat.le_refl _⟩ ?_
  rintro _ l' q ⟨hq, hl1, hl2⟩
  have hb := q.bytes_skip_add_lead
  rw [hq] at hb
  refine .bind (.accept (Q := fun a l'' r => l'' + 1 = l' ∧ match a with
    | some _ => r.skip = s.skip ∧ r.lead + 1 ≤ q.lead
    | none => r = q ∧ (Pattern.token whitespace).end? q = none) (by omega) ?_ ?_) ?_
  · intro r h
    have hr := r.bytes_skip_add_lead
    have := bytes_lt_of_whitespace h
    rw [← skip_of_whitespace h, hq] at hr
    exact ⟨by omega, (skip_of_whitespace h).symm.trans hq, by omega⟩
  · exact fun h => ⟨by omega, rfl, h⟩
  rintro (_ | _) l'' r - ⟨hl3, hr⟩
  · obtain ⟨rfl, hw⟩ := hr
    refine .bind (.accept (Q := fun a l' r' => l' + 1 = l'' ∧ match a with
      | some _ => r'.skip = s.skip ∧ r'.lead + 2 ≤ r.lead
      | none => r' = r ∧ (Pattern.token comment).end? r = none) (by omega) ?_ ?_) ?_
    · intro r' h
      have hr := r'.bytes_skip_add_lead
      have := bytes_lt_of_comment h
      rw [← skip_of_comment h, hq] at hr
      exact ⟨by omega, (skip_of_comment h).symm.trans hq, by omega⟩
    · exact fun h => ⟨by omega, rfl, h⟩
    rintro (_ | _) l4 r' - ⟨hl4, hr'⟩
    · obtain ⟨rfl, hc⟩ := hr'
      have hskip := skip_of_no_trivia hw hc
      rw [hskip] at hq
      refine .pure ⟨hq, ?_, ?_, ?_⟩
      · rw [hq]
        omega
      · omega
      · omega
    · exact .pure ⟨by omega, hr'.1, by omega, by omega⟩
  · exact .pure ⟨by omega, hr.1, by omega, by omega⟩

/-! ### Attributes -/

theorem affords_attribute? (hl : 8 * s.bytes + 4 ≤ l) : Affords attribute? s l
    (fun a l' q => match a with
      | some _ => q.bytes + 2 ≤ s.bytes ∧ l + q.bytes ≤ l' + s.bytes + 8
      | none => q = s ∧ l ≤ l' + 2) := by
  refine .bind (R := fun a l' q => match a with
    | some _ => q.bytes + 1 ≤ s.bytes ∧ l ≤ l' + 4
    | none => q = s ∧ l ≤ l' + 2) ?_ ?_
  · refine (Affords.choice (f := introduced?) (k := [.inner, .outer]) (m := 1)
      (R := fun _ n q => n = 1 ∧ q.bytes + 1 ≤ s.bytes) ?_ ?_).mono ?_
    · simp only [List.length_cons, List.length_nil]
      omega
    · intro kind _ l hl
      refine .map ((affords_accept (lexical_introducer kind) hl).mono ?_)
      rintro (_ | _) l' q - ⟨hl', hq⟩
      · simp only [Option.map_none]
        omega
      · exact ⟨1, Nat.le_refl 1, by omega, rfl, hq.2⟩
    · rintro (_ | _) l' q - h
      · exact h
      · obtain ⟨n, hn, rfl, hq⟩ := h
        exact ⟨hq, hn⟩
  rintro (_ | _) l1 q - h
  · exact .pure h
  obtain ⟨hq, hl1⟩ := h
  refine .bind (affords_trivia (by omega)) ?_
  rintro _ l2 _ - ⟨rfl, hb2, hl2, -⟩
  refine .bind (affords_expect (by decide) (by omega)) ?_
  rintro _ l3 q3 - ⟨hl3, hq3⟩
  refine .bind (affords_trivia (by omega)) ?_
  rintro _ l4 _ - ⟨rfl, hb4, hl4, -⟩
  refine .bind (affords_accept (by decide) (by omega)) ?_
  rintro (_ | _) l5 q5 - ⟨hl5, hq5⟩
  · obtain ⟨rfl, -⟩ := hq5
    exact .pure ⟨by omega, by omega⟩
  · exact .pure ⟨by omega, by omega⟩

/-- Ten attempts for each attribute, which has at least two bytes, and one for each further byte. -/
theorem affords_attributes (hl : 8 * s.bytes + 6 ≤ l) : Affords attributes s l
    (fun _ l' q => q.skip = q ∧ l' < l ∧ ∃ k, l + q.bytes ≤ l' + s.bytes + 10 * k + 4 ∧
      q.bytes + s.lead + 2 * k ≤ s.bytes ∧ (k = 0 → q = s.skip)) := by
  refine .map (.many (fun l' q => ∃ k, l + q.bytes ≤ l' + s.bytes + 10 * k ∧ l' ≤ l ∧
    (k = 0 → q = s) ∧ (k ≠ 0 → q.bytes + s.lead + 2 * k ≤ s.bytes))
    ⟨0, by omega, by omega, by simp, by simp⟩ ?_)
  rintro l1 q ⟨k, hl1, hle, h0, hk⟩
  have hs := s.bytes_skip_add_lead
  have hq := q.bytes_skip_add_lead
  have hkb : q.bytes + 2 * k ≤ s.bytes := by
    by_cases hz : k = 0
    · simp [h0 hz, hz]
    · have := hk hz
      omega
  refine .bind (affords_trivia (by omega)) ?_
  rintro _ l2 _ - ⟨rfl, hb2, hl2, hlt⟩
  refine (affords_attribute? (by omega)).mono ?_
  rintro (_ | _) l3 r hle3 h
  · obtain ⟨rfl, hl3⟩ := h
    refine fun _ => ⟨q.skip_skip, by omega, k, by omega, ?_, fun hz => by rw [h0 hz]⟩
    by_cases hz : k = 0
    · simp only [h0 hz] at *
      omega
    · have := hk hz
      omega
  · obtain ⟨hr, hl3⟩ := h
    refine ⟨by omega, k + 1, by omega, by omega, by omega, fun _ => ?_⟩
    by_cases hz : k = 0
    · simp only [h0 hz] at *
      omega
    · have := hk hz
      omega

end SchemaText
