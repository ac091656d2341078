import SchemaText.Tree.Statement

/-!
Trees with other tokens in the same places.
-/
namespace SchemaText

variable {σ τ α β : Type}

def Attribute.map (f : σ → τ) (a : Attribute σ) : Attribute τ where
  kind := a.kind
  symbol := f a.symbol
  name := f a.name
  content := a.content.map f

def Container.map (f : σ → τ) (c : Container σ) : Container τ where
  opening := f c.opening
  keyType := c.keyType.map f
  closing := f c.closing

def TypeExpression.map (f : σ → τ) (t : TypeExpression σ) : TypeExpression τ where
  valueType := f t.valueType
  container := t.container.map (Container.map f)

def PathItem.map (f : σ → τ) : PathItem σ → PathItem τ
  | identifier token => identifier (f token)
  | dot token => dot (f token)

def Path.map (f : σ → τ) (p : Path σ) : Path τ where
  items := p.items.map (PathItem.map f)

def Entry.map (f : σ → τ) (g : α → β) (e : Entry σ α) : Entry τ β where
  attributes := e.attributes.map (Attribute.map f)
  content := g e.content
  comma := e.comma.map f

def StructField.map (f : σ → τ) (field : StructField σ) : StructField τ where
  name := f field.name
  question := field.question.map f
  colon := f field.colon
  type := field.type.map f

def VariantBody.map (f : σ → τ) (b : VariantBody σ) : VariantBody τ where
  attributes := b.attributes.map (Attribute.map f)
  opening := f b.opening
  fields := b.fields.map (Entry.map f (StructField.map f))
  closing := f b.closing

def Variant.map (f : σ → τ) (v : Variant σ) : Variant τ where
  name := f v.name
  body := v.body.map (VariantBody.map f)

def Declaration.map (f : σ → τ) (g : α → β) (d : Declaration σ α) : Declaration τ β where
  attributes := d.attributes.map (Attribute.map f)
  keyword := f d.keyword
  name := f d.name
  opening := f d.opening
  entries := d.entries.map (Entry.map f g)
  closing := f d.closing

def ImportAlias.map (f : σ → τ) (a : ImportAlias σ) : ImportAlias τ where
  keyword := f a.keyword
  name := f a.name

def ImportItem.map (f : σ → τ) (i : ImportItem σ) : ImportItem τ where
  name := f i.name
  localAlias := i.localAlias.map (ImportAlias.map f)
  comma := i.comma.map f

def Import.map (f : σ → τ) (i : Import σ) : Import τ where
  attributes := i.attributes.map (Attribute.map f)
  keyword := f i.keyword
  path := i.path.map f
  opening := f i.opening
  items := i.items.map (ImportItem.map f)
  closing := f i.closing

def Custom.map (f : σ → τ) (c : Custom σ) : Custom τ where
  attributes := c.attributes.map (Attribute.map f)
  keyword := f c.keyword
  name := f c.name
  equals := f c.equals
  type := c.type.map f

def Throws.map (f : σ → τ) (t : Throws σ) : Throws τ where
  keyword := f t.keyword
  type := t.type.map f

def Proc.map (f : σ → τ) (p : Proc σ) : Proc τ where
  attributes := p.attributes.map (Attribute.map f)
  keyword := f p.keyword
  name := f p.name
  equals := f p.equals
  input := p.input.map f
  arrow := f p.arrow
  output := p.output.map f
  throws := p.throws.map (Throws.map f)

def Statement.map (f : σ → τ) : Statement σ → Statement τ
  | imports node => imports (node.map f)
  | custom node => custom (node.map f)
  | enum node => enum (node.map f f)
  | oneof node => oneof (node.map f (TypeExpression.map f))
  | proc node => proc (node.map f)
  | struct node => struct (node.map f (StructField.map f))
  | union node => union (node.map f (Variant.map f))

def Document.map (f : σ → τ) (d : Document σ) : Document τ where
  attributes := d.attributes.map (Attribute.map f)
  statements := d.statements.map (Statement.map f)

/-- A view of nodes as nodes with other tokens, under which attributes are put in front alike. -/
class AttributesMap (f : σ → τ) [HasAttributes α σ] [HasAttributes β τ] (g : α → β) : Prop where
  map_prepend : ∀ (leading : List (Attribute σ)) (node : α),
    g (prepend leading node) = prepend (leading.map (Attribute.map f)) (g node)

instance (f : σ → τ) (g : α → β) : AttributesMap f (Entry.map f g) where
  map_prepend leading node := by simp [prepend, HasAttributes.setAttributes,
    HasAttributes.attributes, Entry.map]

instance (f : σ → τ) : AttributesMap f (Statement.map f) where
  map_prepend leading node := by
    cases node <;> simp [prepend, HasAttributes.setAttributes, HasAttributes.attributes,
      Statement.map, Import.map, Custom.map, Declaration.map, Proc.map]

/-! ### Views of views -/

section MapMap

variable {ρ : Type} {γ : Type} (f : σ → τ) (g : τ → ρ)

@[simp] theorem Attribute.map_map (a : Attribute σ) : (a.map f).map g = a.map (g ∘ f) := by
  simp [map]

/-- Attributes one by one. -/
@[simp] theorem Attribute.map_comp_map :
    Attribute.map g ∘ Attribute.map f = Attribute.map (g ∘ f) :=
  funext (map_map f g)

@[simp] theorem TypeExpression.map_map (t : TypeExpression σ) :
    (t.map f).map g = t.map (g ∘ f) := by
  obtain ⟨valueType, _ | container⟩ := t <;> simp [map, Container.map]

@[simp] theorem Path.map_map (p : Path σ) : (p.map f).map g = p.map (g ∘ f) := by
  have hitem : PathItem.map g ∘ PathItem.map f = PathItem.map (g ∘ f) := by
    funext item
    cases item <;> rfl
  simp [map, hitem]

theorem Entry.map_comp_map {k : α → β} {l : β → γ} :
    Entry.map g l ∘ Entry.map f k = Entry.map (g ∘ f) (l ∘ k) := by
  funext e
  simp [map]

@[simp] theorem StructField.map_comp_map :
    StructField.map g ∘ StructField.map f = StructField.map (g ∘ f) := by
  funext field
  simp [map]

theorem Variant.map_comp_map : Variant.map g ∘ Variant.map f = Variant.map (g ∘ f) := by
  funext v
  obtain ⟨name, _ | body⟩ := v <;> simp [map, VariantBody.map, Entry.map_comp_map]

theorem Declaration.map_map {k : α → β} {l : β → γ} (d : Declaration σ α) :
    (d.map f k).map g l = d.map (g ∘ f) (l ∘ k) := by
  simp [map, Entry.map_comp_map]

theorem ImportItem.map_comp_map : ImportItem.map g ∘ ImportItem.map f = ImportItem.map (g ∘ f) := by
  funext item
  obtain ⟨name, _ | localAlias, comma⟩ := item <;> simp [map, ImportAlias.map]

theorem Statement.map_map (st : Statement σ) : (st.map f).map g = st.map (g ∘ f) := by
  cases st with
  | imports node => simp [map, Import.map, ImportItem.map_comp_map]
  | custom node => simp [map, Custom.map]
  | enum node => simp [map, Declaration.map_map]
  | oneof node =>
    have htype : TypeExpression.map g ∘ TypeExpression.map f = TypeExpression.map (g ∘ f) :=
      funext (TypeExpression.map_map f g)
    simp [map, Declaration.map_map, htype]
  | proc node =>
    obtain ⟨_, _, _, _, _, _, _, _ | throws⟩ := node <;> simp [map, Proc.map, Throws.map]
  | struct node => simp [map, Declaration.map_map]
  | union node => simp [map, Declaration.map_map, Variant.map_comp_map]

theorem Document.map_map (d : Document σ) : (d.map f).map g = d.map (g ∘ f) := by
  have hstatement : Statement.map g ∘ Statement.map f = Statement.map (g ∘ f) :=
    funext (Statement.map_map f g)
  simp [map, hstatement]

end MapMap

end SchemaText
