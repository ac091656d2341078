import SchemaText.Proofs.Grammar.Complete.Type
import SchemaText.Proofs.Grammar.Sound.Declaration

/-!
Declarations and their entries that are there are read as what they are.
-/
namespace SchemaText

open Grammar Parse

variable {s q e : Place} {more : List (Slot Token)} {next : List Pattern}

theorem Reads.comma? {comma : Option Token} {E : Mismatch → Prop}
    (h : Reads q (optionalSlot Grammar.comma comma ++ more) e) (he : e.rest = [])
    (hn : Next next more) (ha : ∀ p ∈ next, apart Grammar.comma p) :
    Ensures comma? q (fun a r => a = comma.map Token.span ∧ Reads r more e) E := by
  refine .afterTrivia ?_
  exact h.optional he (by decide) hn ha

/-! ### Entries -/

section Entry

variable {α β : Type} {content : Parse (Option α)} {view : β → α}
  {form : β → List (Slot Token) → Prop} {first : List Pattern}

theorem complete_item? (h : Complete content view form (Grammar.comma :: next))
    (ha : ∀ p ∈ next, apart Grammar.comma p) :
    Complete (item? content) (Entry.map Token.span view) (Entry.Written form) next := by
  rintro s e ⟨attributes, t, comma⟩ _ more hs he ⟨rfl, slots, ht, rfl⟩ hr hn
  rw [List.append_assoc] at hr
  have hn' : Next (Grammar.comma :: next) (optionalSlot Grammar.comma comma ++ more) := by
    cases comma with
    | none => exact hn.mono (List.subset_cons_self ..)
    | some comma => exact next_cons (by simp)
  refine .bind (h hs he ht hr hn') ?_
  rintro _ q ⟨rfl, hr⟩
  refine .bind (hr.comma? he hn ha) ?_
  rintro _ q ⟨rfl, hr⟩
  exact .pure ⟨rfl, hr⟩

theorem rejects_item? (h : Rejects content next) : Rejects (item? content) next := by
  intro s e more hs he hr hn
  refine .bind (h hs he hr hn) ?_
  rintro _ q ⟨rfl, rfl⟩
  exact .pure ⟨rfl, rfl⟩

theorem BeginsWith.entry (h : BeginsWith form first) : BeginsWith (Entry.Written form) first := by
  rintro _ _ ⟨-, slots, ht, rfl⟩
  obtain ⟨slot, rest, rfl, hm⟩ := h ht
  exact ⟨slot, _, rfl, hm⟩

end Entry

/-- An optional token in front of a production. -/
theorem rejects_accept {pattern : Pattern} (hp : Lexical pattern)
    (ha : ∀ p ∈ next, apart pattern p) :
    Rejects (accept pattern) next := by
  intro s e more hs he hr hn
  refine .accept (fun q hq => ?_) fun _ => ⟨rfl, rfl⟩
  simp [hr.end?_eq_none he hs hp hn ha] at hq

theorem complete_field? (ha : ∀ p ∈ next, apart bracketOpen p) :
    Complete field? (StructField.map Token.span) (fun f slots => slots = f.slots) next := by
  rintro s e ⟨name, question, colon, type⟩ _ more hs he rfl h hn
  have h : Reads s ((word, name) :: (optionalSlot Grammar.question question ++
      (Grammar.colon, colon) :: (type.slots ++ more))) e := by
    simpa [StructField.slots] using h
  refine .bind (h.accept_here hs) ?_
  rintro _ q ⟨rfl, h⟩
  refine .afterTrivia ?_
  have hc : Next [Grammar.colon] ((Grammar.colon, colon) :: (type.slots ++ more)) :=
    next_cons (by simp)
  refine .bind (h.optional he (by decide) hc (by decide)) ?_
  rintro _ q ⟨rfl, h⟩
  refine .afterTrivia ?_
  refine .bind h.expect ?_
  rintro _ q ⟨rfl, h⟩
  refine .afterTrivia ?_
  refine .bind (h.type he hn ha) ?_
  rintro _ q ⟨rfl, h⟩
  exact .pure ⟨rfl, h⟩

theorem rejects_field? (ha : ∀ p ∈ next, apart word p) : Rejects field? next := by
  intro s e more hs he h hn
  refine .bind (rejects_accept (by decide) ha hs he h hn) ?_
  rintro _ q ⟨rfl, rfl⟩
  exact .pure ⟨rfl, rfl⟩

theorem beginsWith_field : BeginsWith (fun (f : StructField Token) slots => slots = f.slots)
    [word] := by
  rintro f _ rfl
  exact ⟨_, _, rfl, by simp⟩

/-! ### Variants -/

theorem complete_variantBody? :
    Complete variantBody? (VariantBody.map Token.span) VariantBody.Written next := by
  rintro s e ⟨attributes, opening, fields, closing⟩ _ more hs he ⟨inner, hb, rfl⟩ h hn
  have h : Reads s ((parenOpen, opening) :: (inner ++ (parenClose, closing) :: more)) e := by
    simpa using h
  refine .bind (h.accept_here hs) ?_
  rintro _ q ⟨rfl, h⟩
  have hn : Next [parenClose] ((parenClose, closing) :: more) := next_cons (by simp)
  refine .bind (complete_block (complete_item? (complete_field? (by decide)) (by decide))
    (rejects_item? (rejects_field? (by decide))) beginsWith_field.entry (by decide)
    (by decide) he hb
    h hn) ?_
  rintro _ q ⟨rfl, hs, h⟩
  rw [← hs]
  refine .bind h.expect ?_
  rintro _ q ⟨rfl, h⟩
  exact .pure ⟨rfl, h⟩

theorem complete_variant? (ha : ∀ p ∈ next, apart parenOpen p) :
    Complete variant? (Variant.map Token.span) Variant.Written next := by
  rintro s e ⟨name, body⟩ _ more hs he ⟨inner, rfl, hb⟩ hr hn
  refine .bind (hr.accept_here hs) ?_
  rintro _ q ⟨rfl, h⟩
  refine .afterTrivia ?_
  have h := h.congr_left q.skip_skip
  clear hr
  cases body with
  | none =>
    obtain rfl : inner = [] := hb
    refine .bind (R := fun a r => a = none ∧ r = q.skip)
      (.bind (rejects_accept (by decide) ha q.skip_skip he h hn) ?_) ?_
    · rintro _ _ ⟨rfl, rfl⟩
      exact .pure ⟨rfl, rfl⟩
    · rintro _ _ ⟨rfl, rfl⟩
      exact .pure ⟨rfl, h⟩
  | some body =>
    refine .bind (complete_variantBody? q.skip_skip he hb h hn) ?_
    rintro _ r ⟨rfl, h⟩
    exact .pure ⟨rfl, h⟩

theorem rejects_variant? (ha : ∀ p ∈ next, apart word p) : Rejects variant? next := by
  intro s e more hs he h hn
  refine .bind (rejects_accept (by decide) ha hs he h hn) ?_
  rintro _ q ⟨rfl, rfl⟩
  exact .pure ⟨rfl, rfl⟩

theorem beginsWith_variant : BeginsWith (Variant.Written (τ := Token)) [word] := by
  rintro v _ ⟨inner, rfl, -⟩
  exact ⟨_, _, rfl, by simp⟩

/-! ### Declarations -/

section Declaration

variable {α β : Type} {content : Parse (Option α)} {view : β → α}
  {form : β → List (Slot Token) → Prop}

/-- What follows an entry of a declaration. -/
def entryNext : List Pattern := introducers ++ [word] ++ [braceClose]

theorem complete_declaration? (kind : StatementKind)
    (h : Complete content view form (Grammar.comma :: entryNext))
    (hrej : Rejects content [braceClose])
    (hfirst : BeginsWith form [word]) : Complete (declaration? kind content)
      (Declaration.map Token.span view) (Declaration.Written kind form) next := by
  rintro s e ⟨attributes, keyword, name, opening, entries, closing⟩ _ more hs he
    ⟨inner, hb, rfl⟩ hr hn
  have hr : Reads s ((Grammar.keyword kind, keyword) :: (word, name) :: (braceOpen, opening) ::
      (inner ++ (braceClose, closing) :: more)) e := by
    simpa using hr
  refine .bind (hr.accept_here hs) ?_
  rintro _ q ⟨rfl, hr⟩
  refine .afterTrivia ?_
  refine .bind hr.expect ?_
  rintro _ q ⟨rfl, hr⟩
  refine .afterTrivia ?_
  refine .bind hr.expect ?_
  rintro _ q ⟨rfl, hr⟩
  refine .bind (complete_block (complete_item? h (by decide)) (rejects_item? hrej) hfirst.entry
    (by decide) (by decide) he hb hr (next_cons (by simp))) ?_
  rintro _ q ⟨rfl, hs, hr⟩
  rw [← hs]
  refine .bind hr.expect ?_
  rintro _ q ⟨rfl, hr⟩
  exact .pure ⟨rfl, hr⟩

end Declaration

end SchemaText
