import SchemaText.Span

/-!
Attributes of a schema tree. A tree is generic in what stands for its tokens; in a parsed tree
that is a span.
-/
namespace SchemaText

inductive AttributeKind where
  /-- Written `#`: it belongs to the block around it. -/
  | inner
  /-- Written `@`: it belongs to the item that follows. -/
  | outer
deriving DecidableEq, Repr

namespace AttributeKind

def symbol : AttributeKind → String
  | inner => "#"
  | outer => "@"

def isInner : AttributeKind → Bool
  | inner => true
  | outer => false

end AttributeKind

variable {τ α : Type}

structure Attribute (τ : Type) where
  kind : AttributeKind
  symbol : τ
  name : τ
  /-- The text after the name with its `-` or `|` markers. -/
  content : Option τ
deriving DecidableEq, Repr

/-- From the symbol to the last token. -/
def Attribute.span (a : Attribute Span) : Span := a.symbol.merge (a.content.getD a.name)

/-- Nodes with a list of attributes: those written in front of the node, then those written
inside. -/
class HasAttributes (α : Type) (τ : outParam Type) where
  attributes : α → List (Attribute τ)
  setAttributes : List (Attribute τ) → α → α

/-- The node with further attributes in front of its own. -/
def prepend [HasAttributes α τ] (leading : List (Attribute τ)) (node : α) : α :=
  HasAttributes.setAttributes (leading ++ HasAttributes.attributes node) node

end SchemaText
