import SchemaText.Json
import SchemaText.Tree.Statement

/-!
Parsed trees as JSON values. An absent token is written as null.
-/
namespace SchemaText

open Json (object ofOption ofList record? required optional list? variant? tag?)

namespace Span

def toJson (s : Span) : Json := object [("start", .integer s.start), ("end", .integer s.stop)]

def ofJson? (j : Json) : Option Span := do
  let given ← record? ["start", "end"] j
  return {
    start := ← required "start" (Json.natUpTo? maxOffset) given
    stop := ← required "end" (Json.natUpTo? maxOffset) given }

end Span

namespace AttributeKind

def toJson : AttributeKind → Json
  | inner => .string "Sharp"
  | outer => .string "At"

def ofJson? (j : Json) : Option AttributeKind :=
  match tag? j with
  | some "Sharp" => some inner
  | some "At" => some outer
  | _ => none

end AttributeKind

namespace Attribute

def toJson (a : Attribute Span) : Json :=
  object [("kind", a.kind.toJson), ("symbol", a.symbol.toJson), ("name", a.name.toJson),
    ("content", ofOption Span.toJson a.content)]

def ofJson? (j : Json) : Option (Attribute Span) := do
  let given ← record? ["kind", "symbol", "name", "content"] j
  return {
    kind := ← required "kind" AttributeKind.ofJson? given
    symbol := ← required "symbol" Span.ofJson? given
    name := ← required "name" Span.ofJson? given
    content := ← optional "content" Span.ofJson? given }

/-- The field of a record that holds its attributes. -/
def listToJson (as : List (Attribute Span)) : String × Json :=
  ("attributes", ofList toJson as)

def listOfFields? (given : List (String × Json)) : Option (List (Attribute Span)) :=
  required "attributes" (list? ofJson?) given

end Attribute

namespace Container

def toJson (c : Container Span) : Json :=
  object [("bracket_open", c.opening.toJson), ("key_type", ofOption Span.toJson c.keyType),
    ("bracket_close", c.closing.toJson)]

def ofJson? (j : Json) : Option (Container Span) := do
  let given ← record? ["bracket_open", "key_type", "bracket_close"] j
  return {
    opening := ← required "bracket_open" Span.ofJson? given
    keyType := ← optional "key_type" Span.ofJson? given
    closing := ← required "bracket_close" Span.ofJson? given }

end Container

namespace TypeExpression

def toJson (t : TypeExpression Span) : Json :=
  object [("value_type", t.valueType.toJson), ("container", ofOption Container.toJson t.container)]

def ofJson? (j : Json) : Option (TypeExpression Span) := do
  let given ← record? ["value_type", "container"] j
  return {
    valueType := ← required "value_type" Span.ofJson? given
    container := ← optional "container" Container.ofJson? given }

end TypeExpression

namespace PathItem

def toJson : PathItem Span → Json
  | identifier s => object [("Identifier", s.toJson)]
  | dot s => object [("Dot", s.toJson)]

def ofJson? (j : Json) : Option (PathItem Span) :=
  match variant? j with
  | some ("Identifier", value) => (Span.ofJson? value).map identifier
  | some ("Dot", value) => (Span.ofJson? value).map dot
  | _ => none

end PathItem

namespace Path

def toJson (p : Path Span) : Json := object [("items", ofList PathItem.toJson p.items)]

def ofJson? (j : Json) : Option (Path Span) := do
  let given ← record? ["items"] j
  return { items := ← required "items" (list? PathItem.ofJson?) given }

end Path

namespace Entry

variable {α : Type}

/-- An entry whose content is written as the fields `content`, side by side with its own. -/
def toJson (content : α → List (String × Json)) (e : Entry Span α) : Json :=
  object (Attribute.listToJson e.attributes :: content e.content ++
    [("comma", ofOption Span.toJson e.comma)])

/-- An entry whose content is read from the fields `names`. -/
def ofJson? (names : List String) (content : List (String × Json) → Option α) (j : Json) :
    Option (Entry Span α) := do
  let given ← record? ("attributes" :: names ++ ["comma"]) j
  return {
    attributes := ← Attribute.listOfFields? given
    content := ← content given
    comma := ← optional "comma" Span.ofJson? given }

end Entry

namespace StructField

def toFields (f : StructField Span) : List (String × Json) :=
  [("name", f.name.toJson), ("question", ofOption Span.toJson f.question),
    ("colon", f.colon.toJson), ("field_type", f.type.toJson)]

def fieldNames : List String := ["name", "question", "colon", "field_type"]

def ofFields? (given : List (String × Json)) : Option (StructField Span) :=
  return {
    name := ← required "name" Span.ofJson? given
    question := ← optional "question" Span.ofJson? given
    colon := ← required "colon" Span.ofJson? given
    type := ← required "field_type" TypeExpression.ofJson? given }

end StructField

namespace VariantBody

def toJson (b : VariantBody Span) : Json :=
  object [Attribute.listToJson b.attributes, ("bracket_open", b.opening.toJson),
    ("fields", ofList (Entry.toJson StructField.toFields) b.fields),
    ("bracket_close", b.closing.toJson)]

def ofJson? (j : Json) : Option (VariantBody Span) := do
  let given ← record? ["attributes", "bracket_open", "fields", "bracket_close"] j
  return {
    attributes := ← Attribute.listOfFields? given
    opening := ← required "bracket_open" Span.ofJson? given
    fields := ← required "fields"
      (list? (Entry.ofJson? StructField.fieldNames StructField.ofFields?)) given
    closing := ← required "bracket_close" Span.ofJson? given }

end VariantBody

namespace Variant

def toFields (v : Variant Span) : List (String × Json) :=
  [("name", v.name.toJson), ("body", ofOption VariantBody.toJson v.body)]

def fieldNames : List String := ["name", "body"]

def ofFields? (given : List (String × Json)) : Option (Variant Span) :=
  return {
    name := ← required "name" Span.ofJson? given
    body := ← optional "body" VariantBody.ofJson? given }

end Variant

namespace Declaration

variable {α : Type}

/-- A declaration whose entries are written as `entry` under the name `entries`. -/
def toJson (entries : String) (entry : α → List (String × Json)) (d : Declaration Span α) : Json :=
  object [Attribute.listToJson d.attributes, ("keyword", d.keyword.toJson),
    ("name", d.name.toJson), ("bracket_open", d.opening.toJson),
    (entries, ofList (Entry.toJson entry) d.entries), ("bracket_close", d.closing.toJson)]

def ofJson? (entries : String) (names : List String)
    (entry : List (String × Json) → Option α) (j : Json) : Option (Declaration Span α) := do
  let given ← record? ["attributes", "keyword", "name", "bracket_open", entries, "bracket_close"] j
  return {
    attributes := ← Attribute.listOfFields? given
    keyword := ← required "keyword" Span.ofJson? given
    name := ← required "name" Span.ofJson? given
    opening := ← required "bracket_open" Span.ofJson? given
    entries := ← required entries (list? (Entry.ofJson? names entry)) given
    closing := ← required "bracket_close" Span.ofJson? given }

end Declaration

namespace ImportAlias

def toJson (a : ImportAlias Span) : Json :=
  object [("keyword_as", a.keyword.toJson), ("name", a.name.toJson)]

def ofJson? (j : Json) : Option (ImportAlias Span) := do
  let given ← record? ["keyword_as", "name"] j
  return {
    keyword := ← required "keyword_as" Span.ofJson? given
    name := ← required "name" Span.ofJson? given }

end ImportAlias

namespace ImportItem

def toJson (i : ImportItem Span) : Json :=
  object [("name", i.name.toJson), ("alias", ofOption ImportAlias.toJson i.localAlias),
    ("comma", ofOption Span.toJson i.comma)]

def ofJson? (j : Json) : Option (ImportItem Span) := do
  let given ← record? ["name", "alias", "comma"] j
  return {
    name := ← required "name" Span.ofJson? given
    localAlias := ← optional "alias" ImportAlias.ofJson? given
    comma := ← optional "comma" Span.ofJson? given }

end ImportItem

namespace Import

def toJson (i : Import Span) : Json :=
  object [Attribute.listToJson i.attributes, ("keyword", i.keyword.toJson),
    ("path", i.path.toJson), ("bracket_open", i.opening.toJson),
    ("items", ofList ImportItem.toJson i.items), ("bracket_close", i.closing.toJson)]

def ofJson? (j : Json) : Option (Import Span) := do
  let given ← record? ["attributes", "keyword", "path", "bracket_open", "items", "bracket_close"] j
  return {
    attributes := ← Attribute.listOfFields? given
    keyword := ← required "keyword" Span.ofJson? given
    path := ← required "path" Path.ofJson? given
    opening := ← required "bracket_open" Span.ofJson? given
    items := ← required "items" (list? ImportItem.ofJson?) given
    closing := ← required "bracket_close" Span.ofJson? given }

end Import

namespace Custom

def toJson (c : Custom Span) : Json :=
  object [Attribute.listToJson c.attributes, ("keyword", c.keyword.toJson),
    ("name", c.name.toJson), ("eq", c.equals.toJson), ("original_type", c.type.toJson)]

def ofJson? (j : Json) : Option (Custom Span) := do
  let given ← record? ["attributes", "keyword", "name", "eq", "original_type"] j
  return {
    attributes := ← Attribute.listOfFields? given
    keyword := ← required "keyword" Span.ofJson? given
    name := ← required "name" Span.ofJson? given
    equals := ← required "eq" Span.ofJson? given
    type := ← required "original_type" TypeExpression.ofJson? given }

end Custom

namespace Throws

def toJson (t : Throws Span) : Json :=
  object [("keyword_throws", t.keyword.toJson), ("error_type", t.type.toJson)]

def ofJson? (j : Json) : Option (Throws Span) := do
  let given ← record? ["keyword_throws", "error_type"] j
  return {
    keyword := ← required "keyword_throws" Span.ofJson? given
    type := ← required "error_type" TypeExpression.ofJson? given }

end Throws

namespace Proc

def toJson (p : Proc Span) : Json :=
  object [Attribute.listToJson p.attributes, ("keyword", p.keyword.toJson),
    ("name", p.name.toJson), ("eq", p.equals.toJson), ("input_type", p.input.toJson),
    ("arrow", p.arrow.toJson), ("output_type", p.output.toJson),
    ("error", ofOption Throws.toJson p.throws)]

def ofJson? (j : Json) : Option (Proc Span) := do
  let given ← record? ["attributes", "keyword", "name", "eq", "input_type", "arrow", "output_type",
    "error"] j
  return {
    attributes := ← Attribute.listOfFields? given
    keyword := ← required "keyword" Span.ofJson? given
    name := ← required "name" Span.ofJson? given
    equals := ← required "eq" Span.ofJson? given
    input := ← required "input_type" TypeExpression.ofJson? given
    arrow := ← required "arrow" Span.ofJson? given
    output := ← required "output_type" TypeExpression.ofJson? given
    throws := ← optional "error" Throws.ofJson? given }

end Proc

namespace Statement

def toJson : Statement Span → Json
  | imports node => object [("Import", node.toJson)]
  | custom node => object [("Custom", node.toJson)]
  | enum node => object [("Enum", node.toJson "items" fun name => [("name", name.toJson)])]
  | oneof node => object [("Oneof", node.toJson "items" fun type => [("item_type", type.toJson)])]
  | proc node => object [("Proc", node.toJson)]
  | struct node => object [("Struct", node.toJson "fields" StructField.toFields)]
  | union node => object [("Union", node.toJson "items" Variant.toFields)]

def ofJson? (j : Json) : Option (Statement Span) :=
  match variant? j with
  | some ("Import", value) => (Import.ofJson? value).map imports
  | some ("Custom", value) => (Custom.ofJson? value).map custom
  | some ("Enum", value) =>
    (Declaration.ofJson? "items" ["name"] (required "name" Span.ofJson?) value).map enum
  | some ("Oneof", value) =>
    (Declaration.ofJson? "items" ["item_type"] (required "item_type" TypeExpression.ofJson?)
      value).map oneof
  | some ("Proc", value) => (Proc.ofJson? value).map proc
  | some ("Struct", value) =>
    (Declaration.ofJson? "fields" StructField.fieldNames StructField.ofFields? value).map struct
  | some ("Union", value) =>
    (Declaration.ofJson? "items" Variant.fieldNames Variant.ofFields? value).map union
  | _ => none

end Statement

namespace Document

def toJson (d : Document Span) : Json :=
  object [Attribute.listToJson d.attributes, ("statements", ofList Statement.toJson d.statements)]

def ofJson? (j : Json) : Option (Document Span) := do
  let given ← record? ["attributes", "statements"] j
  return {
    attributes := ← Attribute.listOfFields? given
    statements := ← required "statements" (list? Statement.ofJson?) given }

end Document

end SchemaText
