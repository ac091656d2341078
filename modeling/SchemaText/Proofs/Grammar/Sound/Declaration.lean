import SchemaText.Grammar.Statement
import SchemaText.Proofs.Grammar.Sound.Type

/-!
What declarations and their entries read, and where they fail.
-/
namespace SchemaText

open Grammar Parse

section Entry

variable {α β : Type} {n : Nat} {content : Parse (Option α)} {view : β → α}
  {form : β → List (Slot Token) → Prop} {fails : Place → Prop}

/-- A comma that may be missing. -/
theorem ensures_comma? {s q : Place} {slots : List (Slot Token)} {bad : Mismatch → Prop}
    (hr : Reads s slots q) : Ensures comma? q
      (fun a r => ∃ comma : Option Token, a = comma.map Token.span ∧
        Reads s (slots ++ optionalSlot Grammar.comma comma) r ∧
          (comma = none → r = q.skip)) bad := by
  refine .afterTrivia ?_
  refine (ensures_optional Grammar.comma (by decide) hr).mono ?_ fun _ h => h
  rintro a r ⟨comma, ha, hr, hn⟩
  exact ⟨comma, ha, hr, fun h => (hn h).1⟩

theorem entry_written {t : β} {slots : List (Slot Token)} (h : form t slots) :
    Entry.Written form { content := t, comma := none } slots :=
  ⟨rfl, slots, h, by simp [optionalSlot]⟩

theorem sound_item? (h : Sound n content view form fails) :
    Sound n (item? content) (Entry.map Token.span view) (Entry.Written form) fails := by
  intro s hs
  refine .bind ((h s hs).mono (fun _ _ h => h) fun m hm => ?_) ?_
  · refine hm.after (.refl s) (Nat.le_refl n) ?_
    rintro slots ⟨t, ht⟩
    exact ⟨_, entry_written ht⟩
  · rintro (_ | _) q hq
    · exact .pure hq
    · obtain ⟨t, slots, rfl, ht, hr⟩ := hq
      refine .bind (ensures_comma? hr) ?_
      rintro _ q ⟨comma, rfl, hr, -⟩
      exact .pure ⟨{ content := t, comma }, _, rfl, ⟨rfl, slots, ht, rfl⟩, hr⟩

end Entry

theorem sound_field? : Sound 2 field? (StructField.map Token.span) (fun f slots => slots = f.slots)
    (word.end? · = none) := by
  intro s hs
  refine .bind (ensures_accept word (by decide) hs) ?_
  rintro (_ | _) q hq
  · exact .pure hq
  obtain ⟨name, _, rfl, rfl, hr⟩ := hq
  refine .afterTrivia ?_
  refine .bind (ensures_optional question (by decide) hr) ?_
  rintro _ q ⟨question, rfl, hr, -⟩
  refine .afterTrivia ?_
  refine .bind (ensures_expect hr (.inr rfl) (by decide) [colon, word] (by decide) ?_) ?_
  · simp only [forall_map_fst_cons, forall_map_fst_nil]
    intro colon valueType
    exact ⟨{ name, question, colon, type := .ofName valueType }, rfl⟩
  rintro _ q ⟨colon, rfl, hr⟩
  refine .afterTrivia ?_
  refine .bind (ensures_type hr [] (by decide) (by decide) ?_) ?_
  · intro type
    rw [forall_map_fst_nil]
    exact ⟨{ name, question, colon, type }, by simp [StructField.slots]⟩
  rintro _ q ⟨type, rfl, hr⟩
  refine .pure ⟨{ name, question, colon, type }, _, rfl, rfl, ?_⟩
  simpa [StructField.slots] using hr

/-- The tokens of a smallest field. -/
theorem exists_field (more : List (Slot Token)) (h : more.map Prod.fst = [word, colon, word]) :
    ∃ e : Entry Token (StructField Token),
      Entry.Written (fun f slots => slots = f.slots) e more := by
  revert h more
  simp only [forall_map_fst_cons, forall_map_fst_nil]
  intro name colon valueType
  exact ⟨_, entry_written (t := { name, question := none, colon, type := .ofName valueType }) rfl⟩

theorem sound_variantBody? : Sound 5 variantBody? (VariantBody.map Token.span) VariantBody.Written
    (parenOpen.end? · = none) := by
  intro s hs
  refine .bind (ensures_accept parenOpen (by decide) hs) ?_
  rintro (_ | _) q hq
  · exact .pure hq
  obtain ⟨opening, _, rfl, rfl, hr⟩ := hq
  refine .bind ((ensures_block (N := 4) (sound_item? sound_field?) [word, colon, word]
    (by decide) exists_field (by decide) (.inr (.inr rfl)) (by decide) (by decide)).mono
    (fun _ _ h => h) fun m h => ?_) ?_
  · refine h.within hr [parenClose] (by decide) (by decide) ?_
    rintro inner ⟨attributes, fields, hb⟩
    simp only [forall_map_fst_cons, forall_map_fst_nil]
    exact fun closing => ⟨{ attributes, opening, fields, closing }, inner, hb, rfl⟩
  rintro _ q ⟨attributes, fields, inner, rfl, hb, hi, hskip, -⟩
  rw [← hskip]
  refine .bind (ensures_expect (hr.append hi) (.inr rfl) (by decide) [parenClose]
    (by decide) ?_) ?_
  · simp only [forall_map_fst_cons, forall_map_fst_nil]
    exact fun closing => ⟨{ attributes, opening, fields, closing }, inner, hb, rfl⟩
  rintro _ q ⟨closing, rfl, hr⟩
  exact .pure ⟨{ attributes, opening, fields, closing }, _, rfl, ⟨inner, hb, rfl⟩, hr⟩

theorem sound_variant? : Sound 5 variant? (Variant.map Token.span) Variant.Written
    (word.end? · = none) := by
  intro s hs
  refine .bind (ensures_accept word (by decide) hs) ?_
  rintro (_ | _) q hq
  · exact .pure hq
  obtain ⟨name, _, rfl, rfl, hr⟩ := hq
  refine .afterTrivia ?_
  refine .bind ((sound_variantBody? q.skip q.skip_skip).mono (fun _ _ h => h) fun m h => ?_) ?_
  · refine h.after hr.skip_right (by decide) ?_
    rintro inner ⟨b, hb⟩
    exact ⟨{ name, body := some b }, inner, rfl, hb⟩
  rintro (_ | _) r hb
  · obtain ⟨rfl, -⟩ := hb
    exact .pure ⟨{ name, body := none }, _, rfl, ⟨[], rfl, rfl⟩, hr.skip_right⟩
  · obtain ⟨b, inner, rfl, hb, hi⟩ := hb
    exact .pure ⟨{ name, body := some b }, _, rfl, ⟨inner, rfl, hb⟩, hr.skip_right.append hi⟩

section Declaration

variable {α β : Type} {n N : Nat} {content : Parse (Option α)} {view : β → α}
  {form : β → List (Slot Token) → Prop} {fails : Place → Prop}

/-- A declaration may be left without its closing brace, and an entry of it without what a smallest
entry has. -/
theorem sound_declaration? (kind : StatementKind) (h : Sound n content view form fails)
    (filler : List Pattern) (hfill : filler ⊆ fillers)
    (hnode : ∀ more : List (Slot Token), more.map Prod.fst = filler → ∃ t, form t more)
    (hn : n ≤ N) (hk : filler.length + 1 ≤ N) (hN : 2 ≤ N) :
    Sound (N + 1) (declaration? kind content) (Declaration.map Token.span view)
      (Declaration.Written kind form) ((Grammar.keyword kind).end? · = none) := by
  intro s hs
  have hempty : BlockWritten (Entry.Written form) [] [] [] :=
    ⟨[], [], by simp, by simp, rfl, rfl, rfl⟩
  refine .bind (ensures_accept (Grammar.keyword kind) (lexical_keyword kind) hs) ?_
  rintro (_ | _) q hq
  · exact .pure hq
  obtain ⟨keyword, _, rfl, rfl, hr⟩ := hq
  refine .afterTrivia ?_
  refine .bind (ensures_expect hr (.inl rfl) (by decide) [word, braceOpen, braceClose]
    ⟨by simp; omega, by decide⟩ ?_) ?_
  · simp only [forall_map_fst_cons, forall_map_fst_nil]
    intro name opening closing
    exact ⟨{ keyword, name, opening, entries := [], closing }, [], hempty, rfl⟩
  rintro _ q ⟨name, rfl, hr⟩
  refine .afterTrivia ?_
  refine .bind (ensures_expect hr (.inr rfl) (by decide) [braceOpen, braceClose]
    ⟨by simp; omega, by decide⟩ ?_) ?_
  · simp only [forall_map_fst_cons, forall_map_fst_nil]
    intro opening closing
    exact ⟨{ keyword, name, opening, entries := [], closing }, [], hempty, rfl⟩
  rintro _ q ⟨opening, rfl, hr⟩
  refine .bind ((ensures_block (sound_item? h) filler hfill
    (fun more hmore => (hnode more hmore).imp' _ fun _ => entry_written) (by decide)
    (.inr (.inl rfl)) hn hk).mono (fun _ _ h => h) fun m h => ?_) ?_
  · refine h.within hr [braceClose] (by decide) (Nat.le_refl _) ?_
    rintro inner ⟨attributes, entries, hb⟩
    simp only [forall_map_fst_cons, forall_map_fst_nil]
    exact fun closing => ⟨{ attributes, keyword, name, opening, entries, closing }, inner, hb, rfl⟩
  rintro _ q ⟨attributes, entries, inner, rfl, hb, hi, hskip, -⟩
  rw [← hskip]
  refine .bind (ensures_expect (hr.append hi) (.inr rfl) (by decide) [braceClose]
    ⟨by simp, by decide⟩ ?_) ?_
  · simp only [forall_map_fst_cons, forall_map_fst_nil]
    exact fun closing => ⟨{ attributes, keyword, name, opening, entries, closing }, inner, hb, rfl⟩
  rintro _ q ⟨closing, rfl, hr⟩
  exact .pure ⟨{ attributes, keyword, name, opening, entries, closing }, _, rfl, ⟨inner, hb, rfl⟩,
    hr⟩

end Declaration

end SchemaText
