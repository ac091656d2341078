import SchemaText.Tree.Attribute
import SchemaText.Tree.Type

/-!
Statements and documents. Every token that is neither blank nor comment has its place in the tree.
-/
namespace SchemaText

variable {τ α : Type}

/-- An entry of a bracketed list, with the comma that may follow it. -/
structure Entry (τ α : Type) where
  attributes : List (Attribute τ) := []
  content : α
  comma : Option τ
deriving DecidableEq, Repr

instance : HasAttributes (Entry τ α) τ where
  attributes := Entry.attributes
  setAttributes as e := { e with attributes := as }

/-- A field `name: Type`, or `name?: Type` if it is optional. -/
structure StructField (τ : Type) where
  name : τ
  question : Option τ
  colon : τ
  type : TypeExpression τ
deriving DecidableEq, Repr

def StructField.isOptional (f : StructField τ) : Bool := f.question.isSome

/-- The fields of a variant, in parentheses. Its attributes are those written inside. -/
structure VariantBody (τ : Type) where
  attributes : List (Attribute τ)
  opening : τ
  fields : List (Entry τ (StructField τ))
  closing : τ
deriving DecidableEq, Repr

structure Variant (τ : Type) where
  name : τ
  body : Option (VariantBody τ)
deriving DecidableEq, Repr

/-- A keyword, a name and entries in braces. -/
structure Declaration (τ α : Type) where
  attributes : List (Attribute τ) := []
  keyword : τ
  name : τ
  opening : τ
  entries : List (Entry τ α)
  closing : τ
deriving DecidableEq, Repr

structure ImportAlias (τ : Type) where
  keyword : τ
  name : τ
deriving DecidableEq, Repr

structure ImportItem (τ : Type) where
  name : τ
  localAlias : Option (ImportAlias τ)
  comma : Option τ
deriving DecidableEq, Repr

/-- The name of the item where it is imported. -/
def ImportItem.localName (item : ImportItem τ) : τ := item.localAlias.elim item.name (·.name)

/-- An import `import a.b { Name, Other as Alias }`. -/
structure Import (τ : Type) where
  attributes : List (Attribute τ) := []
  keyword : τ
  path : Path τ
  opening : τ
  items : List (ImportItem τ)
  closing : τ
deriving DecidableEq, Repr

/-- A new name for a type, `custom Name = Type`. -/
structure Custom (τ : Type) where
  attributes : List (Attribute τ) := []
  keyword : τ
  name : τ
  equals : τ
  type : TypeExpression τ
deriving DecidableEq, Repr

structure Throws (τ : Type) where
  keyword : τ
  type : TypeExpression τ
deriving DecidableEq, Repr

/-- A signature `proc Name = Input -> Output throws Error`. -/
structure Proc (τ : Type) where
  attributes : List (Attribute τ) := []
  keyword : τ
  name : τ
  equals : τ
  input : TypeExpression τ
  arrow : τ
  output : TypeExpression τ
  throws : Option (Throws τ)
deriving DecidableEq, Repr

/-- The last type of the signature. -/
def Proc.last (p : Proc τ) : TypeExpression τ := p.throws.elim p.output (·.type)

/-- The kinds of statements in the order in which they are tried. -/
inductive StatementKind where
  | custom | enum | imports | oneof | proc | struct | union
deriving DecidableEq, Repr

namespace StatementKind

def all : List StatementKind := [custom, enum, imports, oneof, proc, struct, union]

def keyword : StatementKind → String
  | custom => "custom"
  | enum => "enum"
  | imports => "import"
  | oneof => "oneof"
  | proc => "proc"
  | struct => "struct"
  | union => "union"

end StatementKind

inductive Statement (τ : Type) where
  | imports (node : Import τ)
  | custom (node : Custom τ)
  | enum (node : Declaration τ τ)
  | oneof (node : Declaration τ (TypeExpression τ))
  | proc (node : Proc τ)
  | struct (node : Declaration τ (StructField τ))
  | union (node : Declaration τ (Variant τ))
deriving DecidableEq, Repr

namespace Statement

def kind : Statement τ → StatementKind
  | imports _ => .imports
  | custom _ => .custom
  | enum _ => .enum
  | oneof _ => .oneof
  | proc _ => .proc
  | struct _ => .struct
  | union _ => .union

def keyword : Statement τ → τ
  | imports node => node.keyword
  | custom node => node.keyword
  | enum node => node.keyword
  | oneof node => node.keyword
  | proc node => node.keyword
  | struct node => node.keyword
  | union node => node.keyword

/-- The name declared; an import declares none of its own. -/
def name? : Statement τ → Option τ
  | imports _ => none
  | custom node => some node.name
  | enum node => some node.name
  | oneof node => some node.name
  | proc node => some node.name
  | struct node => some node.name
  | union node => some node.name

/-- The last token, or the last type where a statement ends with one. -/
def last : Statement Span → Span
  | imports node => node.closing
  | custom node => node.type.span
  | enum node => node.closing
  | oneof node => node.closing
  | proc node => node.last.span
  | struct node => node.closing
  | union node => node.closing

/-- From the keyword to the last token. -/
def span (s : Statement Span) : Span := s.keyword.merge s.last

instance : HasAttributes (Statement τ) τ where
  attributes
    | imports node => node.attributes
    | custom node => node.attributes
    | enum node => node.attributes
    | oneof node => node.attributes
    | proc node => node.attributes
    | struct node => node.attributes
    | union node => node.attributes
  setAttributes as
    | imports node => imports { node with attributes := as }
    | custom node => custom { node with attributes := as }
    | enum node => enum { node with attributes := as }
    | oneof node => oneof { node with attributes := as }
    | proc node => proc { node with attributes := as }
    | struct node => struct { node with attributes := as }
    | union node => union { node with attributes := as }

end Statement

structure Document (τ : Type) where
  /-- The inner attributes outside of all statements. -/
  attributes : List (Attribute τ)
  statements : List (Statement τ)
deriving DecidableEq, Repr

end SchemaText
