import SchemaText.Tree.Statement

/-!
Further attributes for the statements of a document and for their entries.
-/
namespace SchemaText

variable {τ : Type}

/-- A statement, or one of its entries. -/
structure NodeIndex where
  statement : Nat
  entry : Option Nat := none
deriving DecidableEq, Repr

namespace Statement

/-- The attributes of an entry; imports, customs and procs have no entries with attributes. -/
def entryAttributes? (s : Statement τ) (index : Nat) : Option (List (Attribute τ)) :=
  match s with
  | imports _ | custom _ | proc _ => none
  | enum node => node.entries[index]?.map (·.attributes)
  | oneof node => node.entries[index]?.map (·.attributes)
  | struct node => node.entries[index]?.map (·.attributes)
  | union node => node.entries[index]?.map (·.attributes)

def prependEntry (leading : List (Attribute τ)) (index : Nat) : Statement τ → Statement τ
  | imports node => imports node
  | custom node => custom node
  | proc node => proc node
  | enum node => enum { node with entries := node.entries.modify index (prepend leading) }
  | oneof node => oneof { node with entries := node.entries.modify index (prepend leading) }
  | struct node => struct { node with entries := node.entries.modify index (prepend leading) }
  | union node => union { node with entries := node.entries.modify index (prepend leading) }

end Statement

namespace Document

def attributesAt? (d : Document τ) (index : NodeIndex) : Option (List (Attribute τ)) := do
  let s ← d.statements[index.statement]?
  match index.entry with
  | none => return HasAttributes.attributes s
  | some i => s.entryAttributes? i

/-- The document with attributes put in front of those of one node; an index without a node
changes nothing. -/
def prependAt (leading : List (Attribute τ)) (index : NodeIndex) (d : Document τ) : Document τ :=
  { d with statements := d.statements.modify index.statement fun s =>
      match index.entry with
      | none => prepend leading s
      | some i => s.prependEntry leading i }

end Document

end SchemaText
