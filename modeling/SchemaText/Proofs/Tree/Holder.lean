import SchemaText.Proofs.Tree.Phrase

/-!
The nodes of a tree that attributes are attached to.
-/
namespace SchemaText

variable {α : Type}

def Attribute.tokens (a : Attribute Span) : List Span :=
  a.symbol :: a.name :: a.content.toList

/-- What a node holds, and where its attributes may stand. -/
structure Holder where
  attributes : List (Attribute Span)
  /-- The token that outer attributes of the node stand in front of. -/
  lead : Option Span
  /-- The range that inner attributes of the node stand in. -/
  room : Option Span

/-- An entry whose content begins with a token and holds further nodes. -/
def Entry.holders (lead : α → Span) (inside : α → List Holder) (e : Entry Span α) : List Holder :=
  ⟨e.attributes, some (lead e.content), none⟩ :: inside e.content

def VariantBody.holders (b : VariantBody Span) : List Holder :=
  ⟨b.attributes, none, some (b.opening.between b.closing)⟩ ::
    b.fields.flatMap (Entry.holders StructField.name fun _ => [])

def Variant.holders (v : Variant Span) : List Holder := v.body.toList.flatMap VariantBody.holders

def Declaration.holders (entry : Entry Span α → List Holder) (d : Declaration Span α) :
    List Holder :=
  ⟨d.attributes, some d.keyword, some (d.opening.between d.closing)⟩ :: d.entries.flatMap entry

/-- There is no room for inner attributes where a statement has no block of entries. -/
def Statement.holders : Statement Span → List Holder
  | imports node => [⟨node.attributes, some node.keyword, none⟩]
  | custom node => [⟨node.attributes, some node.keyword, none⟩]
  | enum node => node.holders (Entry.holders id fun _ => [])
  | oneof node => node.holders (Entry.holders TypeExpression.valueType fun _ => [])
  | proc node => [⟨node.attributes, some node.keyword, none⟩]
  | struct node => node.holders (Entry.holders StructField.name fun _ => [])
  | union node => node.holders (Entry.holders Variant.name Variant.holders)

/-- A document has room for inner attributes everywhere, and nothing to put outer ones in front
of. -/
def Document.holders (d : Document Span) : List Holder :=
  ⟨d.attributes, none, some ⟨0, maxOffset⟩⟩ :: d.statements.flatMap Statement.holders

/-- The attributes of all nodes. -/
def Document.allAttributes (d : Document Span) : List (Attribute Span) :=
  d.holders.flatMap Holder.attributes

end SchemaText
