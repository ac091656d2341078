import SchemaText.Proofs.Json.Reader

/-!
The forms of the values that trees are written as, from the spans up to whole documents.
-/
namespace SchemaText

open Json (ofOption ofList record? required optional list? spans_object spansOfFields
  spansOfFields_append spansOfFields_cons)

variable {α : Type}

/-! ### Spans and attributes -/

theorem Json.renders_offset : Renders .offset (natUpTo? maxOffset) fun (n : Nat) => .integer n :=
  fun _ => by rw [Form.normal?]

def Span.form : Form := .record [.required "start" .offset, .required "end" .offset]

theorem Span.renders : Renders form ofJson? toJson := by
  intro j
  simp [ofJson?, toJson, form, Json.renders_offset.normalFields?_required, Option.map_bind,
    Function.comp_def]

theorem Span.ofJson?_toJson {s : Span} (h : s.Fits) : ofJson? s.toJson = some s := by
  simp [ofJson?, toJson, record?, required, List.lookup_cons, Json.natUpTo?_integer h.1,
    Json.natUpTo?_integer h.2]

theorem Span.restores : Restores ofJson? toJson := by
  intro s hfits
  rw [spans_toJson, List.forall_mem_singleton] at hfits
  exact ofJson?_toJson hfits

theorem Span.toJson_ne_null (s : Span) : s.toJson ≠ .null := by simp [toJson]

def AttributeKind.form : Form := .tag ["Sharp", "At"]

theorem AttributeKind.renders : Renders form ofJson? toJson := by
  intro j
  rw [form, Form.normal?]
  cases h : Json.tag? j with
  | none => simp [ofJson?, h]
  | some t =>
    unfold ofJson?
    rw [h]
    split <;> simp_all [toJson]

theorem AttributeKind.restores : Restores ofJson? toJson := by
  intro kind _
  cases kind <;> simp [ofJson?, toJson, Json.tag?]

namespace Attribute

def form : Form :=
  .record [.required "kind" AttributeKind.form, .required "symbol" Span.form,
    .required "name" Span.form, .optional "content" Span.form]

theorem renders : Renders form ofJson? toJson := by
  intro j
  simp [ofJson?, toJson, form, AttributeKind.renders.normalFields?_required,
    Span.renders.normalFields?_required, Span.renders.normalFields?_optional, Option.map_bind,
    Function.comp_def]

theorem restores : Restores ofJson? toJson := by
  intro a hfits
  simp (disch := decide) only [toJson, spans_object, spansOfFields_cons, List.forall_mem_append]
    at hfits
  obtain ⟨hkind, hsymbol, hname, hcontent, -⟩ := hfits
  simp [ofJson?, toJson, record?, AttributeKind.restores.required hkind,
    Span.restores.required hsymbol, Span.restores.required hname,
    Span.restores.optional Span.toJson_ne_null hcontent]

end Attribute

section Attributes

variable {as : List (Attribute Span)} {fields : List (String × Json)} {read : Json → Option α}
  {name : String}

/-- The field of a record that holds its attributes. -/
def Attribute.listField : Field := .required "attributes" (.list Attribute.form)

@[simp] theorem Attribute.name_listField : listField.name = "attributes" := rfl

@[simp] theorem Attribute.normalFields?_listField (content : List Field) :
    normalFields? (listField :: content) fields = (listOfFields? fields).bind fun as =>
      (normalFields? content fields).map (listToJson as :: ·) :=
  renders.list.normalFields?_required ..

theorem Attribute.spans_record : (Json.object (listToJson as :: fields)).spans =
    (ofList toJson as).spans ++ spansOfFields fields :=
  spans_object (by decide) ..

theorem Attribute.listOfFields?_cons (hfits : ∀ s ∈ (ofList toJson as).spans, s.Fits) :
    listOfFields? (listToJson as :: fields) = some as :=
  restores.list.required hfits

@[simp] theorem required_attributes (h : name ≠ "attributes") :
    required name read (Attribute.listToJson as :: fields) = required name read fields :=
  required_cons_of_ne h

@[simp] theorem optional_attributes (h : name ≠ "attributes") :
    optional name read (Attribute.listToJson as :: fields) = optional name read fields :=
  optional_cons_of_ne h

end Attributes

/-! ### Types and paths -/

namespace Container

def form : Form :=
  .record [.required "bracket_open" Span.form, .optional "key_type" Span.form,
    .required "bracket_close" Span.form]

theorem renders : Renders form ofJson? toJson := by
  intro j
  simp [ofJson?, toJson, form, Span.renders.normalFields?_required,
    Span.renders.normalFields?_optional, Option.map_bind, Function.comp_def]

theorem restores : Restores ofJson? toJson := by
  intro c hfits
  simp (disch := decide) only [toJson, spans_object, spansOfFields_cons, List.forall_mem_append]
    at hfits
  obtain ⟨hopening, hkeyType, hclosing, -⟩ := hfits
  simp [ofJson?, toJson, record?, Span.restores.required hopening,
    Span.restores.optional Span.toJson_ne_null hkeyType, Span.restores.required hclosing]

theorem toJson_ne_null (c : Container Span) : c.toJson ≠ .null := by simp [toJson]

end Container

namespace TypeExpression

def form : Form :=
  .record [.required "value_type" Span.form, .optional "container" Container.form]

theorem renders : Renders form ofJson? toJson := by
  intro j
  simp [ofJson?, toJson, form, Span.renders.normalFields?_required,
    Container.renders.normalFields?_optional, Option.map_bind, Function.comp_def]

theorem restores : Restores ofJson? toJson := by
  intro t hfits
  simp (disch := decide) only [toJson, spans_object, spansOfFields_cons, List.forall_mem_append]
    at hfits
  obtain ⟨hvalueType, hcontainer, -⟩ := hfits
  simp [ofJson?, toJson, record?, Span.restores.required hvalueType,
    Container.restores.optional Container.toJson_ne_null hcontainer]

end TypeExpression

namespace PathItem

def form : Form := .variant [("Identifier", Span.form), ("Dot", Span.form)]

theorem renders : Renders form ofJson? toJson := by
  intro j
  unfold ofJson? form
  split
  · next hj => exact Span.renders.variant hj (by simp) fun _ => rfl
  · next hj => exact Span.renders.variant hj (by simp [List.lookup_cons]) fun _ => rfl
  · next hidentifier hdot =>
    rw [Form.normal?_variant_eq_none (by simpa using ⟨hidentifier, hdot⟩)]
    rfl

theorem restores : Restores ofJson? toJson := by
  intro item hfits
  cases item with
  | identifier s =>
    rw [toJson, Json.spans_variant (by decide)] at hfits
    simp [ofJson?, toJson, Json.variant?, Span.restores hfits]
  | dot s =>
    rw [toJson, Json.spans_variant (by decide)] at hfits
    simp [ofJson?, toJson, Json.variant?, Span.restores hfits]

end PathItem

namespace Path

def form : Form := .record [.required "items" (.list PathItem.form)]

theorem renders : Renders form ofJson? toJson := by
  intro j
  simp [ofJson?, toJson, form, PathItem.renders.list.normalFields?_required, Option.map_bind,
    Function.comp_def]

theorem restores : Restores ofJson? toJson := by
  intro p hfits
  simp (disch := decide) only [toJson, spans_object, List.forall_mem_append] at hfits
  obtain ⟨hitems, -⟩ := hfits
  simp [ofJson?, toJson, record?, PathItem.restores.list.required hitems]

end Path

/-! ### Entries -/

namespace Entry

variable {content : List Field} {names : List String} {read : List (String × Json) → Option α}
  {write : α → List (String × Json)}

/-- The fields of the content stand between those that every entry has. -/
def form (content : List Field) : Form :=
  .record (Attribute.listField :: content ++ [.optional "comma" Span.form])

/-- The fields that the content of an entry is written as are read again among those of the
entry. -/
structure RestoresContent (read : List (String × Json) → Option α)
    (write : α → List (String × Json)) : Prop where
  noComma : ∀ a, "comma" ∉ (write a).map Prod.fst
  restores : ∀ ⦃a⦄, (∀ s ∈ spansOfFields (write a), s.Fits) → ∀ as comma,
    read (Attribute.listToJson as :: (write a ++ [("comma", comma)])) = some a

theorem renders (h : RendersFields content read write) (hnames : names = content.map Field.name) :
    Renders (form content) (ofJson? names read) (toJson write) := by
  intro j
  simp [ofJson?, toJson, form, hnames, normalFields?_append, ← h _,
    Span.renders.normalFields?_optional, Option.map_bind, Option.bind_map, Function.comp_def]

theorem restores (h : RestoresContent read write) :
    Restores (ofJson? names read) (toJson write) := by
  intro e hfits
  simp only [toJson, List.cons_append, Attribute.spans_record, spansOfFields_append,
    spansOfFields_cons, List.forall_mem_append] at hfits
  obtain ⟨hattributes, hcontent, hcomma, -⟩ := hfits
  simp [ofJson?, toJson, record?, Attribute.listOfFields?_cons hattributes, h.restores hcontent,
    optional_append_of_not_mem (h.noComma _), Span.restores.optional Span.toJson_ne_null hcomma]

end Entry

namespace StructField

def fields : List Field :=
  [.required "name" Span.form, .optional "question" Span.form, .required "colon" Span.form,
    .required "field_type" TypeExpression.form]

theorem renders : RendersFields fields ofFields? toFields := by
  intro given
  simp [ofFields?, toFields, fields, Span.renders.normalFields?_required,
    Span.renders.normalFields?_optional, TypeExpression.renders.normalFields?_required,
    Option.map_bind, Function.comp_def]

theorem restores : Entry.RestoresContent ofFields? toFields where
  noComma f := by simp [toFields]
  restores := by
    intro f hfits as comma
    simp only [toFields, spansOfFields_cons, List.forall_mem_append] at hfits
    obtain ⟨hname, hquestion, hcolon, htype, -⟩ := hfits
    simp [ofFields?, toFields, Span.restores.required hname,
      Span.restores.optional Span.toJson_ne_null hquestion, Span.restores.required hcolon,
      TypeExpression.restores.required htype]

end StructField

namespace VariantBody

def form : Form :=
  .record [Attribute.listField, .required "bracket_open" Span.form,
    .required "fields" (.list (Entry.form StructField.fields)),
    .required "bracket_close" Span.form]

theorem renders : Renders form ofJson? toJson := by
  intro j
  have hentries : Renders (.list (Entry.form StructField.fields))
      (list? (Entry.ofJson? StructField.fieldNames StructField.ofFields?))
      (ofList (Entry.toJson StructField.toFields)) := (Entry.renders StructField.renders rfl).list
  simp [ofJson?, toJson, form, Span.renders.normalFields?_required, hentries.normalFields?_required,
    Option.map_bind, Function.comp_def]

theorem restores : Restores ofJson? toJson := by
  intro b hfits
  simp only [toJson, Attribute.spans_record, spansOfFields_cons, List.forall_mem_append] at hfits
  obtain ⟨hattributes, hopening, hfields, hclosing, -⟩ := hfits
  simp [ofJson?, toJson, record?, Attribute.listOfFields?_cons hattributes,
    Span.restores.required hopening, (Entry.restores StructField.restores).list.required hfields,
    Span.restores.required hclosing]

theorem toJson_ne_null (b : VariantBody Span) : b.toJson ≠ .null := by simp [toJson]

end VariantBody

namespace Variant

def fields : List Field := [.required "name" Span.form, .optional "body" VariantBody.form]

theorem renders : RendersFields fields ofFields? toFields := by
  intro given
  simp [ofFields?, toFields, fields, Span.renders.normalFields?_required,
    VariantBody.renders.normalFields?_optional, Option.map_bind, Function.comp_def]

theorem restores : Entry.RestoresContent ofFields? toFields where
  noComma v := by simp [toFields]
  restores := by
    intro v hfits as comma
    simp only [toFields, spansOfFields_cons, List.forall_mem_append] at hfits
    obtain ⟨hname, hbody, -⟩ := hfits
    simp [ofFields?, toFields, Span.restores.required hname,
      VariantBody.restores.optional VariantBody.toJson_ne_null hbody]

end Variant

/-- An entry whose content is one field. -/
theorem Renders.single {form : Form} {read : Json → Option α} {write : α → Json}
    (h : Renders form read write) (name : String) :
    RendersFields [.required name form] (required name read) fun a => [(name, write a)] := by
  intro given
  simp [h.normalFields?_required, Option.map_eq_bind, Function.comp_def]

theorem Restores.single {read : Json → Option α} {write : α → Json} (h : Restores read write)
    {name : String} (hattributes : name ≠ "attributes") (hcomma : name ≠ "comma") :
    Entry.RestoresContent (Json.required name read) fun a => [(name, write a)] where
  noComma a := by simpa using hcomma.symm
  restores := by
    intro a hfits as comma
    simp only [spansOfFields_cons, List.forall_mem_append] at hfits
    simp [required_attributes hattributes, h.required hfits.1]

/-! ### Statements -/

namespace Declaration

variable {entries : String} {content : List Field} {names : List String}
  {read : List (String × Json) → Option α} {write : α → List (String × Json)}

def form (entries : String) (content : List Field) : Form :=
  .record [Attribute.listField, .required "keyword" Span.form, .required "name" Span.form,
    .required "bracket_open" Span.form, .required entries (.list (Entry.form content)),
    .required "bracket_close" Span.form]

theorem renders (h : RendersFields content read write) (hnames : names = content.map Field.name) :
    Renders (form entries content) (ofJson? entries names read) (toJson entries write) := by
  intro j
  simp [ofJson?, toJson, form, Span.renders.normalFields?_required,
    (Entry.renders h hnames).list.normalFields?_required, Option.map_bind, Function.comp_def]

theorem restores (h : Entry.RestoresContent read write)
    (hentries : entries ∉ ["attributes", "keyword", "name", "bracket_open", "bracket_close"]) :
    Restores (ofJson? entries names read) (toJson entries write) := by
  intro d hfits
  simp only [toJson, Attribute.spans_record, spansOfFields_cons, List.forall_mem_append] at hfits
  obtain ⟨hattributes, hkeyword, hname, hopening, hitems, hclosing, -⟩ := hfits
  simp only [List.mem_cons, not_or] at hentries
  obtain ⟨ha, hk, hn, ho, hc, -⟩ := hentries
  simp [ofJson?, toJson, record?, Attribute.listOfFields?_cons hattributes,
    Span.restores.required hkeyword, Span.restores.required hname, Span.restores.required hopening,
    (Entry.restores h).list.required hitems, Span.restores.required hclosing, ha, hk, hn, ho,
    Ne.symm hc]

end Declaration

namespace ImportAlias

def form : Form := .record [.required "keyword_as" Span.form, .required "name" Span.form]

theorem renders : Renders form ofJson? toJson := by
  intro j
  simp [ofJson?, toJson, form, Span.renders.normalFields?_required, Option.map_bind,
    Function.comp_def]

theorem restores : Restores ofJson? toJson := by
  intro a hfits
  simp (disch := decide) only [toJson, spans_object, spansOfFields_cons, List.forall_mem_append]
    at hfits
  obtain ⟨hkeyword, hname, -⟩ := hfits
  simp [ofJson?, toJson, record?, Span.restores.required hkeyword, Span.restores.required hname]

theorem toJson_ne_null (a : ImportAlias Span) : a.toJson ≠ .null := by simp [toJson]

end ImportAlias

namespace ImportItem

def form : Form :=
  .record [.required "name" Span.form, .optional "alias" ImportAlias.form,
    .optional "comma" Span.form]

theorem renders : Renders form ofJson? toJson := by
  intro j
  simp [ofJson?, toJson, form, Span.renders.normalFields?_required,
    ImportAlias.renders.normalFields?_optional, Span.renders.normalFields?_optional,
    Option.map_bind, Function.comp_def]

theorem restores : Restores ofJson? toJson := by
  intro i hfits
  simp (disch := decide) only [toJson, spans_object, spansOfFields_cons, List.forall_mem_append]
    at hfits
  obtain ⟨hname, halias, hcomma, -⟩ := hfits
  simp [ofJson?, toJson, record?, Span.restores.required hname,
    ImportAlias.restores.optional ImportAlias.toJson_ne_null halias,
    Span.restores.optional Span.toJson_ne_null hcomma]

end ImportItem

namespace Import

def form : Form :=
  .record [Attribute.listField, .required "keyword" Span.form, .required "path" Path.form,
    .required "bracket_open" Span.form, .required "items" (.list ImportItem.form),
    .required "bracket_close" Span.form]

theorem renders : Renders form ofJson? toJson := by
  intro j
  simp [ofJson?, toJson, form, Span.renders.normalFields?_required,
    Path.renders.normalFields?_required, ImportItem.renders.list.normalFields?_required,
    Option.map_bind, Function.comp_def]

theorem restores : Restores ofJson? toJson := by
  intro i hfits
  simp only [toJson, Attribute.spans_record, spansOfFields_cons, List.forall_mem_append] at hfits
  obtain ⟨hattributes, hkeyword, hpath, hopening, hitems, hclosing, -⟩ := hfits
  simp [ofJson?, toJson, record?, Attribute.listOfFields?_cons hattributes,
    Span.restores.required hkeyword, Path.restores.required hpath, Span.restores.required hopening,
    ImportItem.restores.list.required hitems, Span.restores.required hclosing]

end Import

namespace Custom

def form : Form :=
  .record [Attribute.listField, .required "keyword" Span.form, .required "name" Span.form,
    .required "eq" Span.form, .required "original_type" TypeExpression.form]

theorem renders : Renders form ofJson? toJson := by
  intro j
  simp [ofJson?, toJson, form, Span.renders.normalFields?_required,
    TypeExpression.renders.normalFields?_required, Option.map_bind, Function.comp_def]

theorem restores : Restores ofJson? toJson := by
  intro c hfits
  simp only [toJson, Attribute.spans_record, spansOfFields_cons, List.forall_mem_append] at hfits
  obtain ⟨hattributes, hkeyword, hname, hequals, htype, -⟩ := hfits
  simp [ofJson?, toJson, record?, Attribute.listOfFields?_cons hattributes,
    Span.restores.required hkeyword, Span.restores.required hname, Span.restores.required hequals,
    TypeExpression.restores.required htype]

end Custom

namespace Throws

def form : Form :=
  .record [.required "keyword_throws" Span.form, .required "error_type" TypeExpression.form]

theorem renders : Renders form ofJson? toJson := by
  intro j
  simp [ofJson?, toJson, form, Span.renders.normalFields?_required,
    TypeExpression.renders.normalFields?_required, Option.map_bind, Function.comp_def]

theorem restores : Restores ofJson? toJson := by
  intro t hfits
  simp (disch := decide) only [toJson, spans_object, spansOfFields_cons, List.forall_mem_append]
    at hfits
  obtain ⟨hkeyword, htype, -⟩ := hfits
  simp [ofJson?, toJson, record?, Span.restores.required hkeyword,
    TypeExpression.restores.required htype]

theorem toJson_ne_null (t : Throws Span) : t.toJson ≠ .null := by simp [toJson]

end Throws

namespace Proc

def form : Form :=
  .record [Attribute.listField, .required "keyword" Span.form, .required "name" Span.form,
    .required "eq" Span.form, .required "input_type" TypeExpression.form,
    .required "arrow" Span.form, .required "output_type" TypeExpression.form,
    .optional "error" Throws.form]

theorem renders : Renders form ofJson? toJson := by
  intro j
  simp [ofJson?, toJson, form, Span.renders.normalFields?_required,
    TypeExpression.renders.normalFields?_required, Throws.renders.normalFields?_optional,
    Option.map_bind, Function.comp_def]

theorem restores : Restores ofJson? toJson := by
  intro p hfits
  simp only [toJson, Attribute.spans_record, spansOfFields_cons, List.forall_mem_append] at hfits
  obtain ⟨hattributes, hkeyword, hname, hequals, hinput, harrow, houtput, hthrows, -⟩ := hfits
  simp [ofJson?, toJson, record?, Attribute.listOfFields?_cons hattributes,
    Span.restores.required hkeyword, Span.restores.required hname, Span.restores.required hequals,
    TypeExpression.restores.required hinput, Span.restores.required harrow,
    TypeExpression.restores.required houtput,
    Throws.restores.optional Throws.toJson_ne_null hthrows]

end Proc

namespace Statement

def form : Form :=
  .variant [("Import", Import.form), ("Custom", Custom.form),
    ("Enum", Declaration.form "items" [.required "name" Span.form]),
    ("Oneof", Declaration.form "items" [.required "item_type" TypeExpression.form]),
    ("Proc", Proc.form), ("Struct", Declaration.form "fields" StructField.fields),
    ("Union", Declaration.form "items" Variant.fields)]

theorem renders : Renders form ofJson? toJson := by
  intro j
  unfold ofJson? form
  split
  · next hj => exact Import.renders.variant hj (by simp) fun _ => rfl
  · next hj => exact Custom.renders.variant hj (by simp [List.lookup_cons]) fun _ => rfl
  · next hj =>
    exact (Declaration.renders (Span.renders.single "name") rfl).variant hj
      (by simp [List.lookup_cons]) fun _ => rfl
  · next hj =>
    exact (Declaration.renders (TypeExpression.renders.single "item_type") rfl).variant hj
      (by simp [List.lookup_cons]) fun _ => rfl
  · next hj => exact Proc.renders.variant hj (by simp [List.lookup_cons]) fun _ => rfl
  · next hj =>
    exact (Declaration.renders StructField.renders rfl).variant hj (by simp [List.lookup_cons])
      fun _ => rfl
  · next hj =>
    exact (Declaration.renders Variant.renders rfl).variant hj (by simp [List.lookup_cons])
      fun _ => rfl
  · next hnone =>
    rw [Form.normal?_variant_eq_none (by simp_all)]
    rfl

theorem restores : Restores ofJson? toJson := by
  intro st hfits
  cases st with
  | imports node =>
    rw [toJson, Json.spans_variant (by decide)] at hfits
    simp [ofJson?, toJson, Json.variant?, Import.restores hfits]
  | custom node =>
    rw [toJson, Json.spans_variant (by decide)] at hfits
    simp [ofJson?, toJson, Json.variant?, Custom.restores hfits]
  | enum node =>
    rw [toJson, Json.spans_variant (by decide)] at hfits
    have hname := Span.restores.single (by decide : "name" ≠ "attributes") (by decide)
    simp [ofJson?, toJson, Json.variant?, Declaration.restores hname (by decide) hfits]
  | oneof node =>
    rw [toJson, Json.spans_variant (by decide)] at hfits
    have htype := TypeExpression.restores.single (by decide : "item_type" ≠ "attributes") (by decide)
    simp [ofJson?, toJson, Json.variant?, Declaration.restores htype (by decide) hfits]
  | proc node =>
    rw [toJson, Json.spans_variant (by decide)] at hfits
    simp [ofJson?, toJson, Json.variant?, Proc.restores hfits]
  | struct node =>
    rw [toJson, Json.spans_variant (by decide)] at hfits
    simp [ofJson?, toJson, Json.variant?,
      Declaration.restores StructField.restores (by decide) hfits]
  | union node =>
    rw [toJson, Json.spans_variant (by decide)] at hfits
    simp [ofJson?, toJson, Json.variant?, Declaration.restores Variant.restores (by decide) hfits]

end Statement

namespace Document

def form : Form :=
  .record [Attribute.listField, .required "statements" (.list Statement.form)]

theorem renders : Renders form ofJson? toJson := by
  intro j
  simp [ofJson?, toJson, form, Statement.renders.list.normalFields?_required, Option.map_bind,
    Function.comp_def]

theorem restores : Restores ofJson? toJson := by
  intro d hfits
  simp only [toJson, Attribute.spans_record, spansOfFields_cons, List.forall_mem_append] at hfits
  obtain ⟨hattributes, hstatements, -⟩ := hfits
  simp [ofJson?, toJson, record?, Attribute.listOfFields?_cons hattributes,
    Statement.restores.list.required hstatements]

end Document

end SchemaText
