import SchemaText.Grammar.Token
import SchemaText.Proofs.Tree.Map

/-!
The tokens of a tree with the patterns that they are matched by: in the order of a walk, and in the
orders in which a source may have them.
-/
namespace SchemaText

open Grammar (word braceOpen braceClose parenOpen parenClose bracketOpen bracketClose dotSign
  keywordAs keywordThrows introducer)

variable {σ τ α β : Type}

/-- A token and what is demanded of it. -/
abbrev Slot (τ : Type) := Pattern × τ

def optionalSlot (pattern : Pattern) (token : Option τ) : List (Slot τ) :=
  token.toList.map (pattern, ·)

/-! ### Order of a walk -/

def Attribute.slots (a : Attribute τ) : List (Slot τ) :=
  (introducer a.kind, a.symbol) :: (word, a.name) ::
    optionalSlot (.token Grammar.content) a.content

def attributeSlots (as : List (Attribute τ)) : List (Slot τ) := as.flatMap Attribute.slots

def Container.slots (c : Container τ) : List (Slot τ) :=
  (bracketOpen, c.opening) :: optionalSlot word c.keyType ++ [(bracketClose, c.closing)]

def TypeExpression.slots (t : TypeExpression τ) : List (Slot τ) :=
  (word, t.valueType) :: t.container.elim [] Container.slots

def PathItem.slot : PathItem τ → Slot τ
  | identifier token => (word, token)
  | dot token => (dotSign, token)

def Path.slots (p : Path τ) : List (Slot τ) := p.items.map PathItem.slot

def Entry.slots (content : α → List (Slot τ)) (e : Entry τ α) : List (Slot τ) :=
  attributeSlots e.attributes ++ content e.content ++ optionalSlot Grammar.comma e.comma

def StructField.slots (f : StructField τ) : List (Slot τ) :=
  (word, f.name) :: optionalSlot Grammar.question f.question ++ (Grammar.colon, f.colon) ::
    f.type.slots

def VariantBody.slots (b : VariantBody τ) : List (Slot τ) :=
  attributeSlots b.attributes ++ (parenOpen, b.opening) ::
    b.fields.flatMap (Entry.slots StructField.slots) ++ [(parenClose, b.closing)]

def Variant.slots (v : Variant τ) : List (Slot τ) :=
  (word, v.name) :: v.body.elim [] VariantBody.slots

def Declaration.slots (kind : StatementKind) (content : α → List (Slot τ)) (d : Declaration τ α) :
    List (Slot τ) :=
  attributeSlots d.attributes ++
    [(Grammar.keyword kind, d.keyword), (word, d.name), (braceOpen, d.opening)] ++
    d.entries.flatMap (Entry.slots content) ++ [(braceClose, d.closing)]

def ImportAlias.slots (a : ImportAlias τ) : List (Slot τ) :=
  [(keywordAs, a.keyword), (word, a.name)]

def ImportItem.slots (i : ImportItem τ) : List (Slot τ) :=
  (word, i.name) :: i.localAlias.elim [] ImportAlias.slots ++ optionalSlot Grammar.comma i.comma

/-- The tokens of an import behind its attributes. -/
def Import.ownSlots (i : Import τ) : List (Slot τ) :=
  (Grammar.keyword .imports, i.keyword) :: i.path.slots ++ (braceOpen, i.opening) ::
    i.items.flatMap ImportItem.slots ++ [(braceClose, i.closing)]

/-- The tokens of a custom type behind its attributes. -/
def Custom.ownSlots (c : Custom τ) : List (Slot τ) :=
  (Grammar.keyword .custom, c.keyword) :: (word, c.name) :: (Grammar.equals, c.equals) ::
    c.type.slots

def Throws.slots (t : Throws τ) : List (Slot τ) := (keywordThrows, t.keyword) :: t.type.slots

/-- The tokens of a signature behind its attributes. -/
def Proc.ownSlots (p : Proc τ) : List (Slot τ) :=
  (Grammar.keyword .proc, p.keyword) :: (word, p.name) :: (Grammar.equals, p.equals) ::
    p.input.slots ++
    (Grammar.arrow, p.arrow) :: p.output.slots ++ p.throws.elim [] Throws.slots

def Statement.slots : Statement τ → List (Slot τ)
  | imports node => attributeSlots node.attributes ++ node.ownSlots
  | custom node => attributeSlots node.attributes ++ node.ownSlots
  | enum node => node.slots .enum fun name => [(word, name)]
  | oneof node => node.slots .oneof TypeExpression.slots
  | proc node => attributeSlots node.attributes ++ node.ownSlots
  | struct node => node.slots .struct StructField.slots
  | union node => node.slots .union Variant.slots

def Document.slots (d : Document τ) : List (Slot τ) :=
  attributeSlots d.attributes ++ d.statements.flatMap Statement.slots

/-! ### Order of a source -/

theorem filter_isInner {run : List (Attribute τ)} (h : ∀ a ∈ run, a.kind = .inner) :
    run.filter (·.kind.isInner) = run :=
  List.filter_eq_self.2 fun a ha => by simp [h a ha, AttributeKind.isInner]

theorem filter_not_isInner {run : List (Attribute τ)} (h : ∀ a ∈ run, a.kind = .inner) :
    run.filter (!·.kind.isInner) = [] :=
  List.filter_eq_nil_iff.2 fun a ha => by simp [h a ha, AttributeKind.isInner]

/-- An item of a block as it is written: a run of attributes of both kinds, then the item, which
has no outer attributes of its own yet. -/
structure Chunk (τ α : Type) where
  run : List (Attribute τ)
  node : α
  slots : List (Slot τ)

namespace Chunk

def inner (c : Chunk τ α) : List (Attribute τ) := c.run.filter (·.kind.isInner)

def outer (c : Chunk τ α) : List (Attribute τ) := c.run.filter (!·.kind.isInner)

def written (c : Chunk τ α) : List (Slot τ) := attributeSlots c.run ++ c.slots

/-- The item with the outer attributes in front of it. -/
def result [HasAttributes α τ] (c : Chunk τ α) : α := prepend c.outer c.node

end Chunk

/-- A block is written as chunks and a last run of inner attributes; the inner attributes of all
runs belong to the block. -/
def BlockWritten [HasAttributes α τ] (item : α → List (Slot τ) → Prop)
    (attributes : List (Attribute τ)) (nodes : List α) (slots : List (Slot τ)) : Prop :=
  ∃ (chunks : List (Chunk τ α)) (last : List (Attribute τ)),
    (∀ c ∈ chunks, item c.node c.slots) ∧ (∀ a ∈ last, a.kind = .inner) ∧
    attributes = chunks.flatMap Chunk.inner ++ last ∧ nodes = chunks.map Chunk.result ∧
    slots = chunks.flatMap Chunk.written ++ attributeSlots last

def Entry.Written (content : α → List (Slot τ) → Prop) (e : Entry τ α) (slots : List (Slot τ)) :
    Prop :=
  e.attributes = [] ∧ ∃ inner, content e.content inner ∧ slots = inner ++
    optionalSlot Grammar.comma e.comma

def VariantBody.Written (b : VariantBody τ) (slots : List (Slot τ)) : Prop :=
  ∃ inner, BlockWritten (Entry.Written fun f slots => slots = f.slots) b.attributes b.fields inner ∧
    slots = (parenOpen, b.opening) :: inner ++ [(parenClose, b.closing)]

def Variant.Written (v : Variant τ) (slots : List (Slot τ)) : Prop :=
  ∃ inner, slots = (word, v.name) :: inner ∧
    match v.body with
    | none => inner = []
    | some body => body.Written inner

def Declaration.Written (kind : StatementKind) (content : α → List (Slot τ) → Prop)
    (d : Declaration τ α) (slots : List (Slot τ)) : Prop :=
  ∃ inner, BlockWritten (Entry.Written content) d.attributes d.entries inner ∧
    slots = (Grammar.keyword kind, d.keyword) :: (word, d.name) :: (braceOpen, d.opening) ::
    inner ++
      [(braceClose, d.closing)]

/-- Identifiers with dots between them, and possibly a last dot. -/
inductive Path.Alternates : List (PathItem τ) → Prop where
  | identifier (t : τ) : Alternates [.identifier t]
  | dot (t d : τ) : Alternates [.identifier t, .dot d]
  | more (t d : τ) {items : List (PathItem τ)} :
      Alternates items → Alternates (.identifier t :: .dot d :: items)

def Import.Written (i : Import τ) (slots : List (Slot τ)) : Prop :=
  i.attributes = [] ∧ Path.Alternates i.path.items ∧ slots = i.ownSlots

def Statement.Written : Statement τ → List (Slot τ) → Prop
  | imports node, slots => node.Written slots
  | custom node, slots => node.attributes = [] ∧ slots = node.ownSlots
  | enum node, slots => node.Written .enum (fun name slots => slots = [(word, name)]) slots
  | oneof node, slots => node.Written .oneof (fun t slots => slots = t.slots) slots
  | proc node, slots => node.attributes = [] ∧ slots = node.ownSlots
  | struct node, slots => node.Written .struct (fun f slots => slots = f.slots) slots
  | union node, slots => node.Written .union Variant.Written slots

/-- The tokens of a document may stand in a source in this order. -/
def Document.Written (d : Document τ) (slots : List (Slot τ)) : Prop :=
  BlockWritten Statement.Written d.attributes d.statements slots

end SchemaText
