import SchemaText.Proofs.Json.Form
import SchemaText.Proofs.StoredSpans

/-!
Readers and writers that belong together: what is read is written in the normal form, and what is
written is read again.
-/
namespace SchemaText

open Json (ofOption ofList record? required optional list? variant?)

variable {α β : Type} {form : Form} {read : Json → Option α} {write : α → Json} {name : String}
  {given : List (String × Json)}

/-! ### Normal forms -/

/-- What is read, written again, is the normal form of the value. -/
def Renders (form : Form) (read : Json → Option α) (write : α → Json) : Prop :=
  ∀ j, (read j).map write = form.normal? j

/-- What is read of a record, written again, are its fields in normal form. -/
def RendersFields (fields : List Field) (read : List (String × Json) → Option α)
    (write : α → List (String × Json)) : Prop :=
  ∀ given, (read given).map write = normalFields? fields given

@[simp] theorem Form.normal?_record (fields : List Field) (j : Json) :
    (record fields).normal? j = (record? (fields.map Field.name) j).bind fun given =>
      (normalFields? fields given).map .object := by
  rw [normal?]
  simp [Option.map_eq_bind, Function.comp_def]

theorem Form.normal?_variant {alternatives : List (String × Form)} {j value : Json} {t : String}
    (h : variant? j = some (t, value)) : (variant alternatives).normal? j =
      (alternatives.lookup t).bind fun form =>
        (form.normal? value).map fun written => .object [(t, written)] := by
  rw [normal?, h]
  simp [normalAlternative?_eq, Option.map_eq_bind, Option.bind_assoc, Function.comp_def]

theorem Form.normal?_variant_eq_none {alternatives : List (String × Form)} {j : Json}
    (h : ∀ t ∈ alternatives.map Prod.fst, ∀ value, variant? j ≠ some (t, value)) :
    (variant alternatives).normal? j = none := by
  cases hj : variant? j with
  | none => rw [normal?, hj]; rfl
  | some tagged =>
    obtain ⟨t, value⟩ := tagged
    have hnone : alternatives.lookup t = none := by
      rw [List.lookup_eq_none_iff]
      intro alternative hmem
      have hne : t ≠ alternative.1 := by
        rintro rfl
        exact h _ (List.mem_map_of_mem hmem) value hj
      simpa using hne
    rw [normal?_variant hj, hnone]
    rfl

@[simp] theorem normalFields?_nil (given : List (String × Json)) :
    normalFields? [] given = some [] := rfl

namespace Renders

theorem normalFields?_required (h : Renders form read write) (name : String) (fields : List Field)
    (given : List (String × Json)) : normalFields? (.required name form :: fields) given =
      (required name read given).bind fun a =>
        (normalFields? fields given).map ((name, write a) :: ·) := by
  have hread : (fun value => form.normal? value) = fun value => (read value).map write := by
    funext value
    exact (h value).symm
  simp [normalFields?, Field.normal?, hread, required, Option.map_eq_bind, Option.bind_assoc,
    Function.comp_def]

theorem normalFields?_optional (h : Renders form read write) (name : String) (fields : List Field)
    (given : List (String × Json)) : normalFields? (.optional name form :: fields) given =
      (optional name read given).bind fun a =>
        (normalFields? fields given).map ((name, ofOption write a) :: ·) := by
  have hfield : (Field.optional name form).normal? (given.lookup name) =
      (optional name read given).map (ofOption write) := by
    unfold Json.optional
    split
    · next hnone => rw [hnone]; rfl
    · next hnull => rw [hnull]; rfl
    · next value hnull hvalue =>
      rw [hvalue, Field.normal?_some hnull, Field.form, ← h value, Option.map_map]
      rfl
  simp [normalFields?, hfield, Option.map_eq_bind, Option.bind_assoc, Function.comp_def]

/-- One alternative of several, written with its tag. -/
theorem variant (h : Renders form read write) {alternatives : List (String × Form)} {t : String}
    {j value : Json} {wrap : α → β} {writeTagged : β → Json} (hj : variant? j = some (t, value))
    (hform : alternatives.lookup t = some form)
    (hwrite : ∀ a, writeTagged (wrap a) = .object [(t, write a)]) :
    ((read value).map wrap).map writeTagged = (Form.variant alternatives).normal? j := by
  rw [Form.normal?_variant hj, hform, Option.bind_some, ← h value, Option.map_map, Option.map_map]
  congr 1
  funext a
  exact hwrite a

theorem list (h : Renders form read write) :
    Renders (.list form) (list? read) (ofList write) := by
  have hitems : ∀ items : List Json,
      (items.mapM read).map (List.map write) = items.mapM form.normal? := by
    intro items
    induction items with
    | nil => rfl
    | cons item items ih =>
      simp [← h item, ← ih, Option.map_bind, Option.bind_map, Function.comp_def]
  intro j
  rw [Form.normal?]
  cases j with
  | array items => rw [list?, list?, ← hitems, Option.map_map]; rfl
  | null | bool | integer | decimal | string | object => rfl

end Renders

theorem normalFields?_append (fields fields' : List Field) (given : List (String × Json)) :
    normalFields? (fields ++ fields') given = (normalFields? fields given).bind fun written =>
      (normalFields? fields' given).map (written ++ ·) := by
  induction fields with
  | nil => simp [normalFields?]
  | cons field fields ih =>
    simp [normalFields?, ih, Option.bind_assoc, Option.map_eq_bind, Function.comp_def]

/-! ### Round trips -/

/-- Both ends are offsets of 32 bits. -/
def Span.Fits (s : Span) : Prop := s.start ≤ maxOffset ∧ s.stop ≤ maxOffset

instance (s : Span) : Decidable s.Fits := inferInstanceAs (Decidable (_ ∧ _))

/-- What is written is read again, if its spans fit. -/
def Restores (read : Json → Option α) (write : α → Json) : Prop :=
  ∀ ⦃a⦄, (∀ s ∈ (write a).spans, s.Fits) → read (write a) = some a

section Fields

variable {value : Json} {key : String}

@[simp] theorem required_cons_of_ne (h : name ≠ key) :
    required name read ((key, value) :: given) = required name read given := by
  rw [required, required, List.lookup_cons, beq_eq_false_iff_ne.2 h]

@[simp] theorem optional_cons_of_ne (h : name ≠ key) :
    optional name read ((key, value) :: given) = optional name read given := by
  rw [Json.optional, Json.optional, List.lookup_cons, beq_eq_false_iff_ne.2 h]

theorem optional_append_of_not_mem {before : List (String × Json)}
    (h : name ∉ before.map Prod.fst) :
    optional name read (before ++ given) = optional name read given := by
  induction before with
  | nil => rfl
  | cons field before ih =>
    rw [List.map_cons, List.mem_cons, not_or] at h
    rw [List.cons_append, optional_cons_of_ne h.1, ih h.2]

end Fields

namespace Restores

theorem required (h : Restores read write) {a : α} (hfits : ∀ s ∈ (write a).spans, s.Fits) :
    required name read ((name, write a) :: given) = some a := by
  rw [Json.required, List.lookup_cons_self, Option.bind_some, h hfits]

theorem optional (h : Restores read write) (hnull : ∀ a, write a ≠ .null) {a : Option α}
    (hfits : ∀ s ∈ (ofOption write a).spans, s.Fits) :
    optional name read ((name, ofOption write a) :: given) = some a := by
  unfold Json.optional
  rw [List.lookup_cons_self]
  cases a with
  | none => rfl
  | some a =>
    have ha : read (write a) = some a := h hfits
    simp [ofOption, hnull a, ha]

theorem list (h : Restores read write) : Restores (list? read) (ofList write) := by
  intro as hfits
  rw [Json.spans_ofList fun _ => rfl] at hfits
  rw [ofList, list?]
  induction as with
  | nil => rfl
  | cons a as ih =>
    rw [List.flatMap_cons, List.forall_mem_append] at hfits
    rw [List.map_cons, List.mapM_cons, h hfits.1, ih hfits.2]
    rfl

end Restores

end SchemaText
