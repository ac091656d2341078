import SchemaText.Proofs.Grammar.Cost.Declaration
import SchemaText.Proofs.Grammar.Following

/-!
The attempts that statements and documents take: each statement is read twice, so that a document
takes sixteen attempts for each byte.
-/
namespace SchemaText

open Grammar Parse

variable {s q : Place} {l : Nat}

/-! ### Imports -/

theorem affords_path (hl : 8 * s.bytes + 1 ≤ l) : Affords path s l
    (fun _ l' q => l + 4 + 8 * q.bytes ≤ l' + 8 * s.bytes) := by
  refine .bind (R := fun parts l' q => parts.isEmpty = false →
    l + 4 + 8 * q.bytes ≤ l' + 8 * s.bytes) (.bind (affords_accept (by decide) (by omega)) ?_) ?_
  · rintro (_ | _) l1 q1 - ⟨hl1, hq1⟩
    · exact .pure (by simp [Separated.isEmpty])
    refine .loop (fun _ l' q => l + 7 + 8 * q.bytes ≤ l' + 8 * s.bytes) (by omega) ?_
    rintro ⟨items, separators⟩ l2 q2 hl2
    refine .bind (affords_trivia (by omega)) ?_
    rintro _ l3 _ - ⟨rfl, hb3, hl3, hlt3⟩
    refine .bind (affords_accept (by decide) (by omega)) ?_
    rintro (_ | _) l4 q4 - ⟨hl4, hq4⟩
    · obtain ⟨rfl, -⟩ := hq4
      exact .pure fun _ => by omega
    refine .bind (affords_trivia (by omega)) ?_
    rintro _ l5 _ - ⟨rfl, hb5, hl5, hlt5⟩
    refine .bind (affords_accept (by decide) (by omega)) ?_
    rintro (_ | _) l6 q6 - ⟨hl6, hq6⟩
    · obtain ⟨rfl, -⟩ := hq6
      exact .pure fun _ => by omega
    · exact .pure ⟨by omega, by omega⟩
  · rintro parts l' q - h
    split
    · exact .fail
    · next he => exact .pure (h (by simpa using he))

theorem affords_importAlias? (hl : 8 * s.bytes + 1 ≤ l) : Affords importAlias? s l
    (fun a l' q => match a with
      | some _ => q.bytes + 2 ≤ s.bytes ∧ l + q.bytes ≤ l' + s.bytes + 2
      | none => q = s ∧ l ≤ l' + 1) := by
  refine .bind (affords_accept (by decide) (by omega)) ?_
  rintro (_ | _) l1 q1 - ⟨hl1, hq1⟩
  · exact .pure ⟨hq1.1, by omega⟩
  refine .bind (affords_trivia (by omega)) ?_
  rintro _ l2 _ - ⟨rfl, hb2, hl2, -⟩
  refine .bind (affords_expect (by decide) (by omega)) ?_
  rintro _ l3 q3 - ⟨hl3, hb3⟩
  exact .pure ⟨by omega, by omega⟩

theorem affords_importItem? (hs : s.skip = s) (hl : 8 * s.bytes + 1 ≤ l) : Affords importItem? s l
    (fun a l' q => match a with
      | some _ => wordHead s = 1 ∧ l + 1 + 3 * wordHead q + 8 * q.bytes ≤ l' + 8 * s.bytes
      | none => q = s ∧ l ≤ l' + 1) := by
  refine .bind (affords_accept (by decide) (by omega)) ?_
  rintro (_ | _) l1 q1 - ⟨hl1, hq1⟩
  · exact .pure ⟨hq1.1, by omega⟩
  obtain ⟨hw, hb1⟩ := hq1
  have hhead := wordHead_eq_one hs hw
  have hlead := wordHead_le_lead hw
  refine .bind (affords_trivia (by omega)) ?_
  rintro _ l2 _ - ⟨rfl, hb2, hl2, -⟩
  refine .bind (affords_importAlias? (by omega)) ?_
  rintro a l3 q3 - hq3
  have hq := q3.bytes_skip_add_lead
  have hb3 : q3.bytes ≤ q1.skip.bytes ∧ l2 + 8 * q3.bytes ≤ l3 + 8 * q1.skip.bytes + 1 := by
    cases a with
    | none =>
      obtain ⟨rfl, hl3⟩ := hq3
      exact ⟨Nat.le_refl _, by omega⟩
    | some a => exact ⟨by omega, by omega⟩
  refine .bind (affords_comma? (by omega)) ?_
  rintro b l4 q4 - ⟨hl4, hq4⟩
  have hone := wordHead_le_one q4
  refine .pure ⟨hhead, ?_⟩
  cases b with
  | some b => omega
  | none =>
    subst hq4
    rw [wordHead_skip] at hone ⊢
    cases a with
    | some a => omega
    | none =>
      obtain ⟨rfl, hl3⟩ := hq3
      rw [Place.skip_skip] at hq ⊢
      rw [wordHead_skip]
      omega

theorem affords_importItems (hl : 8 * s.bytes + 3 * wordHead s + 4 ≤ l) :
    Affords (many (afterTrivia importItem?)) s l
      (fun _ l' q => l + 8 * q.bytes ≤ l' + 8 * s.bytes + 3 * wordHead s + 3) := by
  refine .many (fun l' q => l + 8 * q.bytes + 3 * wordHead q ≤ l' + 8 * s.bytes + 3 * wordHead s)
    (by omega) ?_
  intro l1 q hl1
  refine .bind (affords_trivia (by omega)) ?_
  rintro _ l2 _ - ⟨rfl, hb2, hl2, hlt⟩
  refine (affords_importItem? q.skip_skip (by omega)).mono ?_
  rintro (_ | _) l3 r hle hr
  · obtain ⟨rfl, hl3⟩ := hr
    exact fun _ => by omega
  · obtain ⟨hw, hl3⟩ := hr
    rw [wordHead_skip] at hw
    exact ⟨by omega, by omega⟩

/-- What a statement takes, apart from the trivia behind it that has been looked at twice. -/
def Frugal {α : Type} (p : Parse (Option α)) : Prop :=
  ∀ s l, s.skip = s → 8 * s.bytes + 1 ≤ l → Affords p s l fun a l' q => match a with
    | some _ => l + 24 + 8 * q.bytes ≤ l' + 8 * s.bytes + 2 * q.lead
    | none => l ≤ l' + 1

theorem frugal_import? : Frugal import? := by
  intro s l _ hl
  refine .bind (affords_accept (lexical_keyword .imports) (by omega)) ?_
  rintro (_ | _) l1 q1 - ⟨hl1, hq1⟩
  · refine .pure ?_
    omega
  have hb1 := bytes_lt_of_keyword hq1.1
  refine .bind (affords_trivia (by omega)) ?_
  rintro _ l2 _ - ⟨rfl, hb2, hl2, -⟩
  refine .bind (affords_path (by omega)) ?_
  rintro _ l3 q3 - hl3
  refine .bind (affords_trivia (by omega)) ?_
  rintro _ l4 _ - ⟨rfl, hb4, hl4, -⟩
  refine .bind (affords_expect (by decide) (by omega)) ?_
  rintro _ l5 q5 - ⟨hl5, hb5⟩
  have := wordHead_le_one q5
  refine .bind (affords_importItems (by omega)) ?_
  rintro _ l6 q6 - hl6
  refine .bind (affords_expect (by decide) (by omega)) ?_
  rintro _ l7 q7 - ⟨hl7, hb7⟩
  refine .pure ?_
  omega

/-! ### Other statements -/

theorem frugal_custom? : Frugal custom? := by
  intro s l _ hl
  refine .bind (affords_accept (lexical_keyword .custom) (by omega)) ?_
  rintro (_ | _) l1 q1 - ⟨hl1, hq1⟩
  · refine .pure ?_
    omega
  have hb1 := bytes_lt_of_keyword hq1.1
  refine .bind (affords_trivia (by omega)) ?_
  rintro _ l2 _ - ⟨rfl, hb2, hl2, -⟩
  refine .bind (affords_expect (by decide) (by omega)) ?_
  rintro _ l3 q3 - ⟨hl3, hb3⟩
  refine .bind (affords_trivia (by omega)) ?_
  rintro _ l4 _ - ⟨rfl, hb4, hl4, -⟩
  refine .bind (affords_expect (by decide) (by omega)) ?_
  rintro _ l5 q5 - ⟨hl5, hb5⟩
  refine .bind (affords_trivia (by omega)) ?_
  rintro _ l6 _ - ⟨rfl, hb6, hl6, -⟩
  refine .bind (affords_type q5.skip_skip (by omega)) ?_
  rintro _ l7 q7 - ⟨hl7, -⟩
  refine .pure ?_
  omega

/-- The trivia in front has been looked at before. -/
theorem affords_throws? (hl : 8 * s.bytes + 3 ≤ l + s.lead) : Affords (attempt throws?) s l
    (fun a l' q => match a with
      | some _ => l + s.lead + 8 * q.bytes ≤ l' + 8 * s.bytes + q.lead
      | none => q = s ∧ l ≤ l' + s.lead + 3) := by
  have hs := s.bytes_skip_add_lead
  refine .attempt (.bind (affords_trivia (by omega)) ?_)
  rintro _ l1 _ - ⟨rfl, hb1, hl1, -⟩
  refine .bind (affords_accept (by decide) (by omega)) ?_
  rintro (_ | _) l2 q2 - ⟨hl2, hq2⟩
  · exact .pure ⟨rfl, by omega⟩
  refine .bind (affords_trivia (by omega)) ?_
  rintro _ l3 _ - ⟨rfl, hb3, hl3, -⟩
  refine .bind (affords_type q2.skip_skip (by omega)) ?_
  rintro _ l4 q4 - ⟨hl4, -⟩
  refine .pure ?_
  omega

theorem frugal_proc? : Frugal proc? := by
  intro s l _ hl
  refine .bind (affords_accept (lexical_keyword .proc) (by omega)) ?_
  rintro (_ | _) l1 q1 - ⟨hl1, hq1⟩
  · refine .pure ?_
    omega
  have hb1 := bytes_lt_of_keyword hq1.1
  refine .bind (affords_trivia (by omega)) ?_
  rintro _ l2 _ - ⟨rfl, hb2, hl2, -⟩
  refine .bind (affords_expect (by decide) (by omega)) ?_
  rintro _ l3 q3 - ⟨hl3, hb3⟩
  refine .bind (affords_trivia (by omega)) ?_
  rintro _ l4 _ - ⟨rfl, hb4, hl4, -⟩
  refine .bind (affords_expect (by decide) (by omega)) ?_
  rintro _ l5 q5 - ⟨hl5, hb5⟩
  refine .bind (affords_trivia (by omega)) ?_
  rintro _ l6 _ - ⟨rfl, hb6, hl6, -⟩
  refine .bind (affords_type q5.skip_skip (by omega)) ?_
  rintro _ l7 q7 - ⟨hl7, -⟩
  have hlead7 := q7.bytes_skip_add_lead
  refine .bind (affords_trivia (by omega)) ?_
  rintro _ l8 _ - ⟨rfl, hb8, hl8, -⟩
  refine .bind (affords_expect (by decide) (by omega)) ?_
  rintro _ l9 q9 - ⟨hl9, hb9⟩
  refine .bind (affords_trivia (by omega)) ?_
  rintro _ l10 _ - ⟨rfl, hb10, hl10, -⟩
  refine .bind (affords_type q9.skip_skip (by omega)) ?_
  rintro _ l11 q11 - ⟨hl11, -⟩
  have hlead11 := q11.bytes_skip_add_lead
  refine .bind (affords_throws? (by omega)) ?_
  rintro (_ | _) l12 q12 - hq12
  · obtain ⟨rfl, hl12⟩ := hq12
    refine .pure ?_
    omega
  · refine .pure ?_
    dsimp only at hq12 ⊢
    omega

theorem frugal_declaration? {α : Type} {content : Parse (Option α)} (kind : StatementKind)
    (h : Economical content) : Frugal (declaration? kind content) := by
  intro s l _ hl
  refine (affords_declaration? kind h hl).mono ?_
  rintro (_ | _) l' q - hq
  · exact hq
  · dsimp only at hq ⊢
    omega

theorem Frugal.map {α β : Type} {p : Parse (Option α)} {g : α → β} (h : Frugal p) :
    Frugal (do return (← p).map g) := by
  intro s l hs hl
  refine .map ((h s l hs hl).mono ?_)
  rintro (_ | _) l' q - hq
  · exact hq
  · exact hq

theorem frugal_statementOf (kind : StatementKind) : Frugal (statementOf kind) := by
  cases kind with
  | custom => exact frugal_custom?.map
  | enum => exact (frugal_declaration? .enum economical_word).map
  | imports => exact frugal_import?.map
  | oneof => exact (frugal_declaration? .oneof economical_type?).map
  | proc => exact frugal_proc?.map
  | struct => exact (frugal_declaration? .struct economical_field?).map
  | union => exact (frugal_declaration? .union economical_variant?).map

theorem affords_statement? {kinds : List StatementKind} (hk : kinds.length ≤ 7) (hs : s.skip = s)
    (hl : 16 * s.bytes + 9 ≤ l) : Affords (statement? kinds) s l (fun a l' q => match a with
      | some _ => l + 41 + 16 * q.bytes ≤ l' + 16 * s.bytes + 4 * q.lead
      | none => q = s ∧ l ≤ l' + 7) := by
  refine .bind (Affords.choice (m := 8 * s.bytes + 1)
    (R := fun _ n q => n + 24 + 8 * q.bytes ≤ 8 * s.bytes + 2 * q.lead) (by omega) ?_) ?_
  · intro kind _ l hl
    refine (frugal_statementOf kind s l hs hl).mono ?_
    rintro (_ | _) l' q hle hq
    · exact hq
    · have := q.bytes_skip_add_lead
      dsimp only at hq
      exact ⟨l - l', by omega, by omega, by omega⟩
  · rintro (_ | _) l1 q - h
    · exact .pure ⟨h.1, by omega⟩
    · obtain ⟨n, hn, hq⟩ := h
      refine .bind (R := fun _ l' r => l' = l1 ∧ r = q) (.record ⟨rfl, rfl⟩) ?_
      rintro _ _ _ - ⟨rfl, rfl⟩
      refine .pure ?_
      dsimp only
      omega

/-! ### Documents -/

/-- A document is read to its end, or to where it fails, within sixteen attempts for each byte and
as many again. -/
theorem affords_document {kinds : List StatementKind} (hk : kinds.length ≤ 7)
    (hl : 16 * s.bytes + 16 ≤ l) : Affords (document kinds) s l fun _ _ _ => True := by
  refine .bind (R := fun _ l' _ => 1 ≤ l')
    (.loop (fun _ l' q => 16 * q.bytes + 16 ≤ l' + 4 * q.lead) (by omega) ?_) ?_
  · rintro ⟨found, items⟩ l1 q hl1
    have hq := q.bytes_skip_add_lead
    refine .bind (affords_attributes (by omega)) ?_
    rintro ⟨inner, outer⟩ l2 r - ⟨hr, hlt, k, hl2, hb2, -⟩
    refine .bind (affords_statement? hk hr (by omega)) ?_
    rintro (_ | _) l3 r' hle h
    · obtain ⟨rfl, hl3⟩ := h
      dsimp only
      split
      · exact .pure (by dsimp only; omega)
      · exact .fail
    · dsimp only at h
      exact .pure ⟨by omega, by omega⟩
  · rintro ⟨attributes, statements⟩ l1 q - hl1
    exact .bind (.discard (Q := fun _ _ _ => True) (.expect hl1 fun _ _ => trivial))
      fun _ _ _ _ _ => .pure trivial

end SchemaText
