import SchemaText.Span

/-!
Type expressions and dotted paths.
-/
namespace SchemaText

variable {τ : Type}

/-- Brackets after a type name, with the type of the keys if there is one. -/
structure Container (τ : Type) where
  opening : τ
  keyType : Option τ
  closing : τ
deriving DecidableEq, Repr

/-- A type `Name`, `Name[]` or `Name[Key]`. -/
structure TypeExpression (τ : Type) where
  valueType : τ
  container : Option (Container τ)
deriving DecidableEq, Repr

inductive TypeShape (τ : Type) where
  | scalar
  | sequence
  | map (keyType : τ)
deriving DecidableEq, Repr

namespace TypeExpression

def shape (t : TypeExpression τ) : TypeShape τ :=
  match t.container with
  | none => .scalar
  | some container => container.keyType.elim .sequence .map

def span (t : TypeExpression Span) : Span :=
  t.container.elim t.valueType fun container => t.valueType.merge container.closing

end TypeExpression

inductive PathItem (τ : Type) where
  | identifier (token : τ)
  | dot (token : τ)
deriving DecidableEq, Repr

def PathItem.token : PathItem τ → τ
  | identifier token | dot token => token

/-- Identifiers with dots between them, and possibly a last dot. -/
structure Path (τ : Type) where
  items : List (PathItem τ)
deriving DecidableEq, Repr

namespace Path

def segments (p : Path τ) : List τ :=
  p.items.filterMap fun
    | .identifier token => some token
    | .dot _ => none

def endsWithDot (p : Path τ) : Bool :=
  match p.items.getLast? with
  | some (.dot _) => true
  | _ => false

/-- From the first item to the last; an empty path has no span. -/
def span (p : Path Span) : Option Span := do
  let first ← p.items.head?
  let last ← p.items.getLast?
  return first.token.merge last.token

end Path

end SchemaText
