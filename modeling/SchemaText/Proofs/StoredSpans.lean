import SchemaText.Proofs.Lossless
import SchemaText.Tree.Serial

/-!
The tokens of a tree are the spans that are stored in it, wherever they stand in its written form.
-/
namespace SchemaText

namespace Json

/-- The span that a value is the written form of. -/
def span? : Json → Option Span
  | object [("start", integer start), ("end", integer stop)] => some ⟨start.toNat, stop.toNat⟩
  | _ => none

mutual

/-- The spans stored in a value at whatever depth, in the order in which they are written. -/
def spans : Json → List Span
  | array items => spansOfItems items
  | object fields =>
    match span? (object fields) with
    | some s => [s]
    | none => spansOfFields fields
  | null | bool _ | integer _ | decimal _ _ | string _ => []

def spansOfItems : List Json → List Span
  | [] => []
  | item :: items => item.spans ++ spansOfItems items

def spansOfFields : List (String × Json) → List Span
  | [] => []
  | (_, value) :: fields => value.spans ++ spansOfFields fields

end

variable {α : Type} {name : String}

@[simp] theorem spans_null : null.spans = [] := by rw [spans]

@[simp] theorem spans_string (s : String) : (string s).spans = [] := by rw [spans]

@[simp] theorem spansOfFields_nil : spansOfFields [] = [] := by rw [spansOfFields]

@[simp] theorem spansOfFields_cons (field : String × Json) (fields : List (String × Json)) :
    spansOfFields (field :: fields) = field.2.spans ++ spansOfFields fields := by
  rw [spansOfFields]

@[simp] theorem spansOfFields_append (as bs : List (String × Json)) :
    spansOfFields (as ++ bs) = spansOfFields as ++ spansOfFields bs := by
  induction as with
  | nil => simp
  | cons field as ih => simp [ih]

/-- A record whose first field is not the start of a span is no span itself. -/
theorem spans_object (h : name ≠ "start") (value : Json) (fields : List (String × Json)) :
    (object ((name, value) :: fields)).spans = value.spans ++ spansOfFields fields := by
  have hspan : span? (object ((name, value) :: fields)) = none := by
    rw [span?]
    intro start stop heq
    simp [h] at heq
  rw [spans, hspan, spansOfFields]

@[simp] theorem spans_ofOption (write : α → Json) (a : Option α) :
    (ofOption write a).spans = a.elim [] fun a => (write a).spans := by
  cases a <;> simp [ofOption]

theorem spans_ofList {write : α → Json} {g : α → List Span} (h : ∀ a, (write a).spans = g a)
    (as : List α) : (ofList write as).spans = as.flatMap g := by
  rw [ofList, spans]
  induction as with
  | nil => simp [spansOfItems]
  | cons a as ih => simp [spansOfItems, h, ih]

end Json

open Json (spansOfFields spans_object spans_ofList)

variable {α : Type} {entries : String} {write : α → List (String × Json)}
  {own : α → List (Slot Span)} {kind : StatementKind}

@[simp] theorem Span.spans_toJson (s : Span) : s.toJson.spans = [s] := by
  simp [Span.toJson, Json.spans, Json.span?]

@[simp] theorem AttributeKind.spans_toJson (kind : AttributeKind) : kind.toJson.spans = [] := by
  cases kind <;> simp [AttributeKind.toJson]

theorem Attribute.spans_toJson (a : Attribute Span) : a.toJson.spans = a.slots.map Prod.snd := by
  obtain ⟨kind, symbol, name, _ | content⟩ := a <;>
    simp [Attribute.toJson, spans_object, Attribute.slots, optionalSlot]

@[simp] theorem Attribute.spans_listToJson (as : List (Attribute Span)) :
    (Attribute.listToJson as).2.spans = (attributeSlots as).map Prod.snd := by
  rw [Attribute.listToJson, spans_ofList Attribute.spans_toJson, attributeSlots, List.map_flatMap]

@[simp] theorem Container.spans_toJson (c : Container Span) :
    c.toJson.spans = c.slots.map Prod.snd := by
  obtain ⟨opening, _ | keyType, closing⟩ := c <;>
    simp [Container.toJson, spans_object, Container.slots, optionalSlot]

@[simp] theorem TypeExpression.spans_toJson (t : TypeExpression Span) :
    t.toJson.spans = t.slots.map Prod.snd := by
  obtain ⟨valueType, _ | container⟩ := t <;>
    simp [TypeExpression.toJson, spans_object, TypeExpression.slots]

@[simp] theorem Path.spans_toJson (p : Path Span) : p.toJson.spans = p.slots.map Prod.snd := by
  have hitem : ∀ item : PathItem Span, item.toJson.spans = [item.slot.2] := by
    intro item
    cases item <;> simp [PathItem.toJson, spans_object, PathItem.slot]
  rw [Path.toJson, spans_object (by decide), spans_ofList hitem, ← List.map_eq_flatMap]
  simp [Path.slots]

/-- The attributes of a record are its first field. -/
theorem Json.spans_attributes (as : List (Attribute Span)) (fields : List (String × Json)) :
    (object (Attribute.listToJson as :: fields)).spans =
      (attributeSlots as).map Prod.snd ++ spansOfFields fields := by
  rw [← Attribute.spans_listToJson]
  exact spans_object (by decide) _ _

/-- An entry holds what its content holds besides its own. -/
theorem Entry.spans_toJson (h : ∀ a, spansOfFields (write a) = (own a).map Prod.snd)
    (e : Entry Span α) : (e.toJson write).spans = (e.slots own).map Prod.snd := by
  obtain ⟨attributes, content, _ | comma⟩ := e <;>
    simp [Entry.toJson, Json.spans_attributes, Entry.slots, h]

theorem StructField.spans_toFields (f : StructField Span) :
    spansOfFields f.toFields = f.slots.map Prod.snd := by
  obtain ⟨name, _ | question, colon, type⟩ := f <;>
    simp [StructField.toFields, StructField.slots]

theorem VariantBody.spans_toJson (b : VariantBody Span) :
    b.toJson.spans = b.slots.map Prod.snd := by
  have hfields := spans_ofList (Entry.spans_toJson StructField.spans_toFields) b.fields
  simp [VariantBody.toJson, Json.spans_attributes, VariantBody.slots, hfields, List.map_flatMap]

theorem Variant.spans_toFields (v : Variant Span) :
    spansOfFields v.toFields = v.slots.map Prod.snd := by
  obtain ⟨name, _ | body⟩ := v <;>
    simp [Variant.toFields, Variant.slots, VariantBody.spans_toJson]

theorem Declaration.spans_toJson (h : ∀ a, spansOfFields (write a) = (own a).map Prod.snd)
    (d : Declaration Span α) :
    (d.toJson entries write).spans = (d.slots kind own).map Prod.snd := by
  have hentries := spans_ofList (Entry.spans_toJson h) d.entries
  simp [Declaration.toJson, Json.spans_attributes, Declaration.slots, hentries, List.map_flatMap]

theorem ImportItem.spans_toJson (i : ImportItem Span) :
    i.toJson.spans = i.slots.map Prod.snd := by
  obtain ⟨name, _ | localAlias, comma⟩ := i <;>
    cases comma <;>
    simp [ImportItem.toJson, ImportAlias.toJson, spans_object, ImportItem.slots, ImportAlias.slots,
      optionalSlot]

theorem Import.spans_toJson (i : Import Span) :
    i.toJson.spans = (attributeSlots i.attributes ++ i.ownSlots).map Prod.snd := by
  have hitems := spans_ofList ImportItem.spans_toJson i.items
  simp [Import.toJson, Json.spans_attributes, Import.ownSlots, hitems, List.map_flatMap]

theorem Custom.spans_toJson (c : Custom Span) :
    c.toJson.spans = (attributeSlots c.attributes ++ c.ownSlots).map Prod.snd := by
  simp [Custom.toJson, Json.spans_attributes, Custom.ownSlots]

theorem Proc.spans_toJson (p : Proc Span) :
    p.toJson.spans = (attributeSlots p.attributes ++ p.ownSlots).map Prod.snd := by
  obtain ⟨_, _, _, _, _, _, _, _ | throws⟩ := p <;>
    simp [Proc.toJson, Throws.toJson, Json.spans_attributes, spans_object, Proc.ownSlots,
      Throws.slots]

/-- The tag of a variant is no field of a span. -/
theorem Json.spans_variant {tag : String} (h : tag ≠ "start") (value : Json) :
    (object [(tag, value)]).spans = value.spans := by
  rw [spans_object h, spansOfFields_nil, List.append_nil]

theorem Statement.spans_toJson (st : Statement Span) :
    st.toJson.spans = st.slots.map Prod.snd := by
  cases st with
  | imports node => exact (Json.spans_variant (by decide) _).trans node.spans_toJson
  | custom node => exact (Json.spans_variant (by decide) _).trans node.spans_toJson
  | enum node =>
    exact (Json.spans_variant (by decide) _).trans (node.spans_toJson fun name => by simp)
  | oneof node =>
    exact (Json.spans_variant (by decide) _).trans (node.spans_toJson fun type => by simp)
  | proc node => exact (Json.spans_variant (by decide) _).trans node.spans_toJson
  | struct node =>
    exact (Json.spans_variant (by decide) _).trans (node.spans_toJson StructField.spans_toFields)
  | union node =>
    exact (Json.spans_variant (by decide) _).trans (node.spans_toJson Variant.spans_toFields)

/-- A walk meets the tokens of a tree in the order in which they are written. -/
theorem Document.spans_toJson (d : Document Span) : d.toJson.spans = d.tokens := by
  rw [Document.toJson, Json.spans_attributes, ← Document.map_snd_slots, Document.slots]
  simp [spans_ofList Statement.spans_toJson, List.map_flatMap]

/-- No token is lost and none is told twice: the spans of a tree are all that is stored in it, each
as often as it is stored, in ascending order. -/
theorem spans_stored (d : Document Span) :
    (d.spans.Pairwise fun s t => s.start < t.start ∨ s.start = t.start ∧ s.stop ≤ t.stop) ∧
      d.spans.Perm d.toJson.spans := by
  constructor
  · exact (Span.pairwise_sort d.tokens).imp fun hle => (Span.isLE_compare _ _).1 hle
  · rw [Document.spans_toJson]
    exact List.mergeSort_perm ..

end SchemaText
