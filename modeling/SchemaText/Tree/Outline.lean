import SchemaText.Tree.Statement

/-!
The tree as nested nodes with tokens for leaves. A walk through the tree visits an outline; the
attributes of a node come before its tokens, which then follow in the order of the grammar.
-/
namespace SchemaText

variable {τ α : Type}

/-- The kinds of nodes that a walk announces. -/
inductive NodeKind where
  | document | statement | attr
  | body (kind : StatementKind)
  | structField | typeExpression | path
deriving DecidableEq, Repr

namespace NodeKind

def name : NodeKind → String
  | document => "module"
  | statement => "statement"
  | attr => "attribute"
  | body kind => kind.keyword
  | structField => "struct_field"
  | typeExpression => "type_expression"
  | path => "path"

def all : List NodeKind :=
  [document, statement, attr] ++ StatementKind.all.map body ++
    [structField, typeExpression, path]

end NodeKind

inductive Outline (τ : Type) where
  | token (token : τ)
  | node (kind : NodeKind) (parts : List (Outline τ))

namespace Outline

def ofOption (t : Option τ) : List (Outline τ) := t.toList.map token

end Outline

open Outline (token ofOption)

def Attribute.outline (a : Attribute τ) : Outline τ :=
  .node .attr (token a.symbol :: token a.name :: ofOption a.content)

def outlines (as : List (Attribute τ)) : List (Outline τ) := as.map Attribute.outline

def TypeExpression.outline (t : TypeExpression τ) : Outline τ :=
  .node .typeExpression <| token t.valueType ::
    t.container.elim [] fun c => token c.opening :: ofOption c.keyType ++ [token c.closing]

def Path.outline (p : Path τ) : Outline τ :=
  .node .path (p.items.map fun item => token item.token)

def ImportItem.outlines (item : ImportItem τ) : List (Outline τ) :=
  token item.name ::
    item.localAlias.elim [] (fun a => [token a.keyword, token a.name]) ++ ofOption item.comma

/-- An entry whose content has the outlines `content`. -/
def Entry.outlines (content : α → List (Outline τ)) (e : Entry τ α) : List (Outline τ) :=
  SchemaText.outlines e.attributes ++ content e.content ++ ofOption e.comma

/-- A field with its attributes and its comma is a node of its own. -/
def StructField.outlines (f : StructField τ) : List (Outline τ) :=
  token f.name :: ofOption f.question ++ [token f.colon, f.type.outline]

def fieldOutline (e : Entry τ (StructField τ)) : Outline τ :=
  .node .structField (e.outlines StructField.outlines)

def VariantBody.outlines (b : VariantBody τ) : List (Outline τ) :=
  SchemaText.outlines b.attributes ++
    token b.opening :: b.fields.map fieldOutline ++ [token b.closing]

def Variant.outlines (v : Variant τ) : List (Outline τ) :=
  token v.name :: v.body.elim [] VariantBody.outlines

/-- A declaration each of whose entries has the outlines `entry`. -/
def Declaration.outlines (entry : Entry τ α → List (Outline τ)) (d : Declaration τ α) :
    List (Outline τ) :=
  SchemaText.outlines d.attributes ++
    [token d.keyword, token d.name, token d.opening] ++ d.entries.flatMap entry ++
    [token d.closing]

def Import.outlines (i : Import τ) : List (Outline τ) :=
  SchemaText.outlines i.attributes ++ [token i.keyword, i.path.outline, token i.opening] ++
    i.items.flatMap ImportItem.outlines ++ [token i.closing]

def Custom.outlines (c : Custom τ) : List (Outline τ) :=
  SchemaText.outlines c.attributes ++
    [token c.keyword, token c.name, token c.equals, c.type.outline]

def Proc.outlines (p : Proc τ) : List (Outline τ) :=
  SchemaText.outlines p.attributes ++
    [token p.keyword, token p.name, token p.equals, p.input.outline, token p.arrow,
      p.output.outline] ++
    p.throws.elim [] fun t => [token t.keyword, t.type.outline]

namespace Statement

def outlines : Statement τ → List (Outline τ)
  | imports node => node.outlines
  | custom node => node.outlines
  | enum node => node.outlines (Entry.outlines fun name => [token name])
  | oneof node => node.outlines (Entry.outlines fun type => [type.outline])
  | proc node => node.outlines
  | struct node => node.outlines fun e => [fieldOutline e]
  | union node => node.outlines (Entry.outlines Variant.outlines)

def outline (s : Statement τ) : Outline τ :=
  .node .statement [.node (.body s.kind) s.outlines]

end Statement

def Document.outline (d : Document τ) : Outline τ :=
  .node .document (outlines d.attributes ++ d.statements.map Statement.outline)

end SchemaText
