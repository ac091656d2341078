import SchemaText.Tree.Statement

/-!
What stands at an offset, for editors.
-/
namespace SchemaText

variable {τ : Type}

/-- The type expressions of a statement in source order; imports and enums have none. -/
def Statement.types : Statement τ → List (TypeExpression τ)
  | imports _ | enum _ => []
  | custom node => [node.type]
  | oneof node => node.entries.map (·.content)
  | proc node => node.input :: node.output :: node.throws.toList.map (·.type)
  | struct node => node.entries.map (·.content.type)
  | union node =>
    (node.entries.filterMap (·.content.body)).flatMap fun body => body.fields.map (·.content.type)

/-- A statement together with the attributes in front of it. -/
def Statement.extent (s : Statement Span) : Span :=
  match (HasAttributes.attributes s).head? with
  | some a => a.span.merge s.span
  | none => s.span

/-- The name at an offset, that of the values or that of the keys. -/
def TypeExpression.nameAt? (t : TypeExpression Span) (offset : Nat) : Option Span :=
  if t.valueType.contains offset then some t.valueType
  else (t.container.bind (·.keyType)).filter (·.contains offset)

namespace Document

/-- The first statement whose extent contains an offset, by its index. -/
def statementAt? (d : Document Span) (offset : Nat) : Option (Nat × Statement Span) :=
  (d.statements.zipIdx.find? fun (s, _) => s.extent.contains offset).map Prod.swap

/-- The name at an offset within a type; only the types of the statement there are searched. -/
def typeAt? (d : Document Span) (offset : Nat) : Option Span := do
  let (_, s) ← d.statementAt? offset
  s.types.findSome? (·.nameAt? offset)

end Document

end SchemaText
