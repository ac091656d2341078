import SchemaText.Grammar.Statement
import SchemaText.Proofs.Grammar.Cost.Attribute

/-!
The attempts that types, the entries of declarations and declarations take: eight for each byte, and
three for an entry that begins without a byte between it and the entry before.
-/
namespace SchemaText

open Grammar Parse

variable {s q : Place} {l : Nat}

/-- One where a word begins behind trivia. -/
def wordHead (q : Place) : Nat := if (word.end? q.skip).isSome then 1 else 0

theorem wordHead_le_one (q : Place) : wordHead q ≤ 1 := by
  rw [wordHead]
  split <;> omega

@[simp] theorem wordHead_skip (q : Place) : wordHead q.skip = wordHead q := by
  simp [wordHead]

theorem wordHead_eq_one (hs : s.skip = s) (h : word.end? s = some q) : wordHead s = 1 := by
  simp [wordHead, hs, h]

/-- Two words have something between them. -/
theorem wordHead_le_lead (h : word.end? s = some q) : wordHead q ≤ q.lead := by
  have hb := q.bytes_skip_add_lead
  rw [wordHead]
  split
  · next hw =>
    refine Nat.pos_of_ne_zero fun hl => ?_
    obtain ⟨-, -, -, he⟩ := end?_word_iff.1 h
    obtain ⟨x, hx, -⟩ := q.exists_passes_skip
    have hnil : x = [] := by
      by_cases hne : x = []
      · exact hne
      · have := hx.bytes_lt hne
        omega
    subst hnil
    have hq : q.skip = q := hx.eq_right (.refl q)
    have hnone : word.end? q = none := by
      refine end?_word_eq_none_iff.2 fun c hc => Bool.eq_false_iff.2 fun hstart => ?_
      have := isWordPart_of_isWordStart hstart
      simp [he c hc] at this
    simp [hq, hnone] at hw
  · exact Nat.zero_le _

/-! ### Entries -/

section Entry

variable {α : Type} {content : Parse (Option α)}

/-- The content of an entry begins with a word. What it takes leaves enough for the comma behind it
and for the search for the next entry. -/
def Economical (content : Parse (Option α)) : Prop :=
  ∀ s l, s.skip = s → 8 * s.bytes + 1 ≤ l → Affords content s l fun a l' q => match a with
    | some _ => wordHead s = 1 ∧ l + 4 + 3 * wordHead q + 8 * q.bytes ≤
      l' + 8 * s.bytes + 7 * q.lead
    | none => q = s ∧ l ≤ l' + 1

theorem affords_comma? (hl : s.bytes + 3 ≤ l) :
    Affords comma? s l (fun a l' q => l ≤ l' + s.lead + 3 ∧ match a with
      | some _ => q.bytes + s.lead + 1 ≤ s.bytes
      | none => q = s.skip) := by
  refine .bind (affords_trivia (by omega)) ?_
  rintro _ l1 _ - ⟨rfl, hb1, hl1, -⟩
  refine (affords_accept (by decide) (by omega)).mono ?_
  rintro (_ | _) l2 q - ⟨hl2, hq⟩
  · exact ⟨by omega, hq.1⟩
  · exact ⟨by omega, by omega⟩

theorem affords_item? (h : Economical content) (hs : s.skip = s) (hl : 8 * s.bytes + 1 ≤ l) :
    Affords (item? content) s l (fun a l' q => match a with
      | some _ => wordHead s = 1 ∧ l + 1 + 3 * wordHead q + 8 * q.bytes ≤ l' + 8 * s.bytes
      | none => q = s ∧ l ≤ l' + 1) := by
  refine .bind (h s l hs hl) ?_
  rintro (_ | _) l1 q - hq
  · exact .pure hq
  obtain ⟨hw, hl1⟩ := hq
  have hq := q.bytes_skip_add_lead
  refine .bind (affords_comma? (by omega)) ?_
  rintro (_ | _) l2 r - ⟨hl2, hr⟩
  · subst hr
    refine .pure ⟨hw, ?_⟩
    rw [wordHead_skip]
    omega
  · have := wordHead_le_one r
    exact .pure ⟨hw, by omega⟩

/-- The entries of a block with their attributes. -/
theorem affords_block {orphans : List Pattern} (h : Economical content)
    (hl : 8 * s.bytes + 3 * wordHead s + 6 ≤ l) : Affords (block orphans (item? content)) s l
      (fun _ l' q => q.skip = q ∧ l + 8 * q.bytes ≤ l' + 8 * s.bytes + 3 * wordHead s + 5) := by
  refine .loop (fun _ l' q =>
    l + 8 * q.bytes + 3 * wordHead q ≤ l' + 8 * s.bytes + 3 * wordHead s) (by omega) ?_
  rintro ⟨found, items⟩ l1 q hl1
  have hq := q.bytes_skip_add_lead
  refine .bind (affords_attributes (by omega)) ?_
  rintro ⟨inner, outer⟩ l2 r - ⟨hr, hlt, k, hl2, hb2, hk⟩
  refine .bind (affords_item? h hr (by omega)) ?_
  rintro (_ | _) l3 r' hle hi
  · obtain ⟨rfl, hl3⟩ := hi
    dsimp only
    split
    · exact .pure ⟨hr, by omega⟩
    · exact .fail
  · obtain ⟨hw, hl3⟩ := hi
    refine .pure ⟨by omega, ?_⟩
    by_cases hz : k = 0
    · have : wordHead q = 1 := by rw [← wordHead_skip, ← hk hz, hw]
      omega
    · omega

end Entry

theorem economical_word : Economical (accept word) := by
  intro s l hs hl
  refine (affords_accept (by decide) (by omega)).mono ?_
  rintro (_ | _) l1 q - ⟨hl1, hq⟩
  · exact ⟨hq.1, by omega⟩
  · obtain ⟨hw, hb⟩ := hq
    have := wordHead_le_lead hw
    exact ⟨wordHead_eq_one hs hw, by omega⟩

/-! ### Types -/

theorem affords_container? (hl : 8 * s.bytes + 3 ≤ l) : Affords (attempt container?) s l
    (fun a l' q => match a with
      | some _ => q.bytes + 2 ≤ s.bytes ∧ l + 7 + 8 * q.bytes ≤ l' + 8 * s.bytes
      | none => q = s ∧ l ≤ l' + s.lead + 3) := by
  refine .attempt (.bind (affords_trivia (by omega)) ?_)
  rintro _ l1 _ - ⟨rfl, hb1, hl1, -⟩
  refine .bind (affords_accept (by decide) (by omega)) ?_
  rintro (_ | _) l2 q2 - ⟨hl2, hq2⟩
  · exact .pure ⟨rfl, by omega⟩
  refine .bind (affords_trivia (by omega)) ?_
  rintro _ l3 _ - ⟨rfl, hb3, hl3, -⟩
  refine .bind (R := fun _ l' q => l' + 1 = l3 ∧ q.bytes ≤ q2.skip.bytes)
    ((affords_accept (by decide) (by omega)).mono ?_) ?_
  · rintro (_ | _) l4 q4 - ⟨hl4, hq4⟩
    · exact ⟨hl4, Nat.le_of_eq (by rw [hq4.1])⟩
    · exact ⟨hl4, by omega⟩
  rintro _ l4 q4 - ⟨hl4, hq4⟩
  refine .bind (affords_trivia (by omega)) ?_
  rintro _ l5 _ - ⟨rfl, hb5, hl5, -⟩
  refine .bind (affords_expect (by decide) (by omega)) ?_
  rintro _ l6 q6 - ⟨hl6, hq6⟩
  exact .pure ⟨by omega, by omega⟩

/-- What a type takes, apart from the trivia behind it that has been looked at. -/
theorem affords_type? (hs : s.skip = s) (hl : 8 * s.bytes + 1 ≤ l) : Affords type? s l
    (fun a l' q => match a with
      | some _ => wordHead s = 1 ∧ l + 4 + 8 * q.bytes ≤ l' + 8 * s.bytes + q.lead ∧
        l + 4 + 3 * wordHead q + 8 * q.bytes ≤ l' + 8 * s.bytes + 7 * q.lead
      | none => q = s ∧ l ≤ l' + 1) := by
  refine .bind (affords_accept (by decide) (by omega)) ?_
  rintro (_ | _) l1 q1 - ⟨hl1, hq1⟩
  · exact .pure ⟨hq1.1, by omega⟩
  obtain ⟨hw, hb1⟩ := hq1
  have hhead := wordHead_eq_one hs hw
  refine .bind (affords_container? (by omega)) ?_
  rintro (_ | _) l2 q2 - hq2
  · obtain ⟨rfl, hl2⟩ := hq2
    have := wordHead_le_lead hw
    exact .pure ⟨hhead, by omega, by omega⟩
  · have := wordHead_le_one q2
    exact .pure ⟨hhead, by omega, by omega⟩

theorem economical_type? : Economical type? := by
  intro s l hs hl
  refine (affords_type? hs hl).mono ?_
  rintro (_ | _) l1 q - h
  · exact h
  · exact ⟨h.1, h.2.2⟩

theorem affords_type (hs : s.skip = s) (hl : 8 * s.bytes + 1 ≤ l) : Affords type s l
    (fun _ l' q => l + 4 + 8 * q.bytes ≤ l' + 8 * s.bytes + q.lead ∧
      l + 4 + 3 * wordHead q + 8 * q.bytes ≤ l' + 8 * s.bytes + 7 * q.lead) := by
  refine .bind (affords_type? hs hl) ?_
  rintro (_ | _) l1 q - h
  · exact .fail
  · exact .pure h.2

/-! ### Fields and variants -/

theorem economical_field? : Economical field? := by
  intro s l hs hl
  refine .bind (affords_accept (by decide) (by omega)) ?_
  rintro (_ | _) l1 q1 - ⟨hl1, hq1⟩
  · exact .pure ⟨hq1.1, by omega⟩
  obtain ⟨hw, hb1⟩ := hq1
  have hhead := wordHead_eq_one hs hw
  refine .bind (affords_trivia (by omega)) ?_
  rintro _ l2 _ - ⟨rfl, hb2, hl2, -⟩
  refine .bind (R := fun _ l' q => l' + 1 = l2 ∧ q.bytes ≤ q1.skip.bytes)
    ((affords_accept (by decide) (by omega)).mono ?_) ?_
  · rintro (_ | _) l3 q3 - ⟨hl3, hq3⟩
    · exact ⟨hl3, Nat.le_of_eq (by rw [hq3.1])⟩
    · exact ⟨hl3, by omega⟩
  rintro _ l3 q3 - ⟨hl3, hq3⟩
  refine .bind (affords_trivia (by omega)) ?_
  rintro _ l4 _ - ⟨rfl, hb4, hl4, -⟩
  refine .bind (affords_expect (by decide) (by omega)) ?_
  rintro _ l5 q5 - ⟨hl5, hq5⟩
  refine .bind (affords_trivia (by omega)) ?_
  rintro _ l6 _ - ⟨rfl, hb6, hl6, -⟩
  refine .bind (affords_type q5.skip_skip (by omega)) ?_
  rintro _ l7 q7 - ⟨-, hl7⟩
  exact .pure ⟨hhead, by omega⟩

theorem affords_variantBody? (hl : 8 * s.bytes + 2 ≤ l) : Affords variantBody? s l
    (fun a l' q => match a with
      | some _ => l + 6 + 8 * q.bytes ≤ l' + 8 * s.bytes
      | none => q = s ∧ l ≤ l' + 1) := by
  refine .bind (affords_accept (by decide) (by omega)) ?_
  rintro (_ | _) l1 q1 - ⟨hl1, hq1⟩
  · exact .pure ⟨hq1.1, by omega⟩
  have := wordHead_le_one q1
  refine .bind (affords_block economical_field? (by omega)) ?_
  rintro ⟨attributes, fields⟩ l2 q2 - ⟨-, hl2⟩
  refine .bind (affords_expect (by decide) (by omega)) ?_
  rintro _ l3 q3 - ⟨hl3, hq3⟩
  refine .pure ?_
  omega

theorem economical_variant? : Economical variant? := by
  intro s l hs hl
  refine .bind (affords_accept (by decide) (by omega)) ?_
  rintro (_ | _) l1 q1 - ⟨hl1, hq1⟩
  · exact .pure ⟨hq1.1, by omega⟩
  obtain ⟨hw, hb1⟩ := hq1
  have hhead := wordHead_eq_one hs hw
  have hlead := wordHead_le_lead hw
  refine .bind (affords_trivia (by omega)) ?_
  rintro _ l2 _ - ⟨rfl, hb2, hl2, -⟩
  refine .bind (affords_variantBody? (by omega)) ?_
  rintro (_ | _) l3 q3 - hq3
  · obtain ⟨rfl, hl3⟩ := hq3
    have := q1.skip.bytes_skip_add_lead
    rw [Place.skip_skip] at this
    refine .pure ⟨hhead, ?_⟩
    rw [wordHead_skip]
    omega
  · have := wordHead_le_one q3
    exact .pure ⟨hhead, by omega⟩

/-! ### Declarations -/

theorem affords_declaration? {α : Type} {content : Parse (Option α)} (kind : StatementKind)
    (h : Economical content) (hl : 8 * s.bytes + 1 ≤ l) :
    Affords (declaration? kind content) s l (fun a l' q => match a with
      | some _ => l + 24 + 8 * q.bytes ≤ l' + 8 * s.bytes
      | none => l ≤ l' + 1) := by
  refine .bind (affords_accept (lexical_keyword kind) (by omega)) ?_
  rintro (_ | _) l1 q1 - ⟨hl1, hq1⟩
  · refine .pure ?_
    omega
  have hb1 := bytes_lt_of_keyword hq1.1
  refine .bind (affords_trivia (by omega)) ?_
  rintro _ l2 _ - ⟨rfl, hb2, hl2, -⟩
  refine .bind (affords_expect (by decide) (by omega)) ?_
  rintro _ l3 q3 - ⟨hl3, hb3⟩
  refine .bind (affords_trivia (by omega)) ?_
  rintro _ l4 _ - ⟨rfl, hb4, hl4, -⟩
  refine .bind (affords_expect (by decide) (by omega)) ?_
  rintro _ l5 q5 - ⟨hl5, hb5⟩
  have := wordHead_le_one q5
  refine .bind (affords_block h (by omega)) ?_
  rintro ⟨attributes, entries⟩ l6 q6 - ⟨-, hl6⟩
  refine .bind (affords_expect (by decide) (by omega)) ?_
  rintro _ l7 q7 - ⟨hl7, hb7⟩
  refine .pure ?_
  omega

end SchemaText
