import SchemaText.Proofs.Tree.Lift

/-!
Trees that are written stay written when their tokens are exchanged, and when one is put behind
another.
-/
namespace SchemaText

variable {σ τ α β : Type}

/-! ### Other tokens in the same places -/

/-- What is written as slots has a view that is written as the views of the slots. -/
def Transfers (f : σ → τ) (g : α → β) (form : α → List (Slot σ) → Prop)
    (form' : β → List (Slot τ) → Prop) : Prop :=
  ∀ a slots, form a slots → form' (g a) (mapSlots f slots)

section Transfer

variable (f : σ → τ) {g : α → β} {form : α → List (Slot σ) → Prop}
  {form' : β → List (Slot τ) → Prop}

/-- The view of a chunk. -/
def Chunk.map (g : α → β) (c : Chunk σ α) : Chunk τ β where
  run := c.run.map (Attribute.map f)
  node := g c.node
  slots := mapSlots f c.slots

theorem Chunk.written_map (c : Chunk σ α) : (c.map f g).written = mapSlots f c.written := by
  simp [written, map]

theorem Chunk.inner_map (c : Chunk σ α) :
    (c.map f g).inner = c.inner.map (Attribute.map f) :=
  filter_map_attribute f AttributeKind.isInner c.run

theorem Chunk.result_map [HasAttributes α σ] [HasAttributes β τ] [AttributesMap f g]
    (c : Chunk σ α) : (c.map f g).result = g c.result := by
  have houter : (c.map f g).outer = c.outer.map (Attribute.map f) :=
    filter_map_attribute f (!·.isInner) c.run
  rw [result, houter, result, AttributesMap.map_prepend (f := f) (g := g)]
  rfl

theorem transfers_block [HasAttributes α σ] [HasAttributes β τ] [AttributesMap f g]
    (h : Transfers f g form form') {attributes : List (Attribute σ)} {nodes : List α}
    {slots : List (Slot σ)} (hb : BlockWritten form attributes nodes slots) :
    BlockWritten form' (attributes.map (Attribute.map f)) (nodes.map g) (mapSlots f slots) := by
  obtain ⟨chunks, last, hc, hlast, rfl, rfl, rfl⟩ := hb
  refine ⟨chunks.map (Chunk.map f g), last.map (Attribute.map f), ?_, ?_, ?_, ?_, ?_⟩
  · rw [List.forall_mem_map]
    intro c hm
    exact h _ _ (hc c hm)
  · rw [List.forall_mem_map]
    exact hlast
  · simp only [List.map_append, List.map_flatMap, List.flatMap_map, Chunk.inner_map]
  · simp only [List.map_map, Function.comp_def, Chunk.result_map]
  · rw [mapSlots_append, mapSlots_attributeSlots]
    congr 1
    exact mapSlots_flatMap f (fun c => (Chunk.written_map f c).symm) chunks

theorem transfers_entry (h : Transfers f g form form') :
    Transfers f (Entry.map f g) (Entry.Written form) (Entry.Written form') := by
  rintro e slots ⟨ha, inner, hinner, rfl⟩
  refine ⟨by simp [Entry.map, ha], mapSlots f inner, h _ _ hinner, ?_⟩
  simp [Entry.map]

theorem transfers_variant : Transfers f (Variant.map f) Variant.Written Variant.Written := by
  have hfield : Transfers f (StructField.map f) (fun field slots => slots = field.slots)
      fun field slots => slots = field.slots := by
    rintro field _ rfl
    exact mapSlots_structField f field
  rintro ⟨name, body⟩ slots ⟨inner, rfl, hbody⟩
  refine ⟨mapSlots f inner, rfl, ?_⟩
  cases body with
  | none =>
    subst hbody
    rfl
  | some body =>
    obtain ⟨inner, hblock, rfl⟩ := hbody
    refine ⟨mapSlots f inner, transfers_block f (transfers_entry f hfield) hblock, ?_⟩
    simp [VariantBody.map]

theorem transfers_declaration (kind : StatementKind) (h : Transfers f g form form') :
    Transfers f (Declaration.map f g) (Declaration.Written kind form)
      (Declaration.Written kind form') := by
  rintro d slots ⟨inner, hblock, rfl⟩
  refine ⟨mapSlots f inner, transfers_block f (transfers_entry f h) hblock, ?_⟩
  simp [Declaration.map]

theorem alternates_map {items : List (PathItem σ)} (h : Path.Alternates items) :
    Path.Alternates (items.map (PathItem.map f)) := by
  induction h with
  | identifier t => exact .identifier (f t)
  | dot t d => exact .dot (f t) (f d)
  | more t d _ ih => exact .more (f t) (f d) ih

/-- The attributes of a statement stand in front of its own tokens. -/
theorem transfers_statement :
    Transfers f (Statement.map f) Statement.Written Statement.Written := by
  intro st slots h
  cases st with
  | imports node =>
    obtain ⟨ha, hp, rfl⟩ := h
    refine ⟨by simp [Import.map, ha], alternates_map f hp, ?_⟩
    simp [Import.ownSlots, Import.map, mapSlots_flatMap f (mapSlots_importItem f)]
  | custom node =>
    obtain ⟨ha, rfl⟩ := h
    refine ⟨by simp [Custom.map, ha], ?_⟩
    simp [Custom.ownSlots, Custom.map]
  | proc node =>
    obtain ⟨ha, rfl⟩ := h
    refine ⟨by simp [Proc.map, ha], ?_⟩
    obtain ⟨_, _, _, _, _, _, _, _ | throws⟩ := node <;>
      simp [Proc.ownSlots, Proc.map, Throws.slots, Throws.map]
  | enum node =>
    refine transfers_declaration f .enum ?_ node slots h
    rintro name _ rfl
    rfl
  | oneof node =>
    refine transfers_declaration f .oneof ?_ node slots h
    rintro t _ rfl
    exact mapSlots_type f t
  | struct node =>
    refine transfers_declaration f .struct ?_ node slots h
    rintro field _ rfl
    exact mapSlots_structField f field
  | union node => exact transfers_declaration f .union (transfers_variant f) node slots h

theorem Document.Written.map {d : Document σ} {slots : List (Slot σ)} (h : d.Written slots) :
    (d.map f).Written (mapSlots f slots) :=
  transfers_block f (transfers_statement f) h

end Transfer

/-! ### One behind the other -/

/-- A document and the one that follows it in a longer source. -/
instance : Append (Document τ) where
  append d e := ⟨d.attributes ++ e.attributes, d.statements ++ e.statements⟩

@[simp] theorem Document.attributes_append (d e : Document τ) :
    (d ++ e).attributes = d.attributes ++ e.attributes := rfl

@[simp] theorem Document.statements_append (d e : Document τ) :
    (d ++ e).statements = d.statements ++ e.statements := rfl

theorem Document.map_append (f : σ → τ) (d e : Document σ) :
    (d ++ e).map f = d.map f ++ e.map f := by
  rw [map, attributes_append, statements_append, List.map_append, List.map_append]
  rfl

section Append

variable [HasAttributes α τ] {form : α → List (Slot τ) → Prop}

/-- The last attributes of the first block come to stand in front of the first item of the second
one; as they are inner ones, that item does not get them. -/
theorem BlockWritten.append {as bs : List (Attribute τ)} {ns ms : List α}
    {slots more : List (Slot τ)} (h : BlockWritten form as ns slots)
    (h' : BlockWritten form bs ms more) :
    BlockWritten form (as ++ bs) (ns ++ ms) (slots ++ more) := by
  obtain ⟨chunks, last, hc, hlast, rfl, rfl, rfl⟩ := h
  obtain ⟨chunks', last', hc', hlast', rfl, rfl, rfl⟩ := h'
  cases chunks' with
  | nil =>
    refine ⟨chunks, last ++ last', hc, List.forall_mem_append.2 ⟨hlast, hlast'⟩, ?_, ?_, ?_⟩
    · simp
    · simp
    · simp [attributeSlots]
  | cons c chunks' =>
    obtain ⟨hnode, hrest⟩ := List.forall_mem_cons.1 hc'
    refine ⟨chunks ++ { c with run := last ++ c.run } :: chunks', last', ?_, hlast', ?_, ?_, ?_⟩
    · exact List.forall_mem_append.2 ⟨hc, List.forall_mem_cons.2 ⟨hnode, hrest⟩⟩
    · simp [Chunk.inner, filter_isInner hlast]
    · simp [Chunk.result, Chunk.outer, filter_not_isInner hlast]
    · simp [Chunk.written, attributeSlots]

end Append

end SchemaText
