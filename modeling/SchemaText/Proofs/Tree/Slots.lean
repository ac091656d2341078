import SchemaText.Proofs.Tree.Written
import SchemaText.Tree.Walk

/-!
A source has the tokens of a tree in another order than a walk: inner attributes stand where they
were written. The tokens are the same.
-/
namespace SchemaText

variable {σ τ α β : Type}

/-! ### Walks -/

namespace Outline

@[simp] theorem tokens_token (t : τ) : (token t).tokens = [t] := by rw [tokens]

@[simp] theorem tokens_node (kind : NodeKind) (parts : List (Outline τ)) :
    (node kind parts).tokens = tokensOf parts := by rw [tokens]

@[simp] theorem tokensOf_nil : tokensOf ([] : List (Outline τ)) = [] := by rw [tokensOf]

@[simp] theorem tokensOf_cons (part : Outline τ) (parts : List (Outline τ)) :
    tokensOf (part :: parts) = part.tokens ++ tokensOf parts := by rw [tokensOf]

@[simp] theorem tokensOf_append (as bs : List (Outline τ)) :
    tokensOf (as ++ bs) = tokensOf as ++ tokensOf bs := by
  induction as with
  | nil => simp
  | cons a as ih => simp [ih]

@[simp] theorem tokensOf_ofOption (t : Option τ) : tokensOf (ofOption t) = t.toList := by
  cases t <;> simp [ofOption]

/-- The tokens of a list of nodes, when those of each node are known. -/
theorem tokensOf_map {f : α → Outline τ} {g : α → List (Slot τ)}
    (h : ∀ a, (f a).tokens = (g a).map Prod.snd) (as : List α) :
    tokensOf (as.map f) = (as.flatMap g).map Prod.snd := by
  induction as with
  | nil => simp
  | cons a as ih => simp [ih, h]

theorem tokensOf_flatMap {f : α → List (Outline τ)} {g : α → List (Slot τ)}
    (h : ∀ a, tokensOf (f a) = (g a).map Prod.snd) (as : List α) :
    tokensOf (as.flatMap f) = (as.flatMap g).map Prod.snd := by
  induction as with
  | nil => simp
  | cons a as ih => simp [ih, h]

end Outline

open Outline

@[simp] theorem map_snd_optionalSlot (pattern : Pattern) (t : Option τ) :
    (optionalSlot pattern t).map Prod.snd = t.toList := by
  cases t <;> rfl

theorem tokens_attribute (a : Attribute τ) : a.outline.tokens = a.slots.map Prod.snd := by
  simp [Attribute.outline, Attribute.slots]

@[simp] theorem tokensOf_outlines (as : List (Attribute τ)) :
    tokensOf (outlines as) = (attributeSlots as).map Prod.snd :=
  tokensOf_map tokens_attribute as

@[simp] theorem tokens_type (t : TypeExpression τ) : t.outline.tokens = t.slots.map Prod.snd := by
  obtain ⟨valueType, _ | container⟩ := t <;>
    simp [TypeExpression.outline, TypeExpression.slots, Container.slots]

@[simp] theorem tokens_path (p : Path τ) : p.outline.tokens = p.slots.map Prod.snd := by
  have h : ∀ item : PathItem τ, (token item.token).tokens = [item.slot].map Prod.snd := by
    intro item
    cases item <;> simp [PathItem.token, PathItem.slot]
  simp only [Path.outline, tokens_node, Path.slots]
  rw [tokensOf_map h, ← List.map_eq_flatMap]

theorem tokensOf_importItem (i : ImportItem τ) :
    tokensOf i.outlines = i.slots.map Prod.snd := by
  obtain ⟨name, _ | localAlias, comma⟩ := i <;>
    simp [ImportItem.outlines, ImportItem.slots, ImportAlias.slots]

theorem tokensOf_entry {f : α → List (Outline τ)} {g : α → List (Slot τ)}
    (h : ∀ a, tokensOf (f a) = (g a).map Prod.snd) (e : Entry τ α) :
    tokensOf (e.outlines f) = (e.slots g).map Prod.snd := by
  simp [Entry.outlines, Entry.slots, h]

theorem tokensOf_structField (f : StructField τ) :
    tokensOf f.outlines = f.slots.map Prod.snd := by
  simp [StructField.outlines, StructField.slots]

theorem tokens_field (e : Entry τ (StructField τ)) :
    (fieldOutline e).tokens = (e.slots StructField.slots).map Prod.snd := by
  rw [fieldOutline, tokens_node, tokensOf_entry tokensOf_structField]

theorem tokensOf_variant (v : Variant τ) : tokensOf v.outlines = v.slots.map Prod.snd := by
  obtain ⟨name, _ | body⟩ := v <;>
    simp [Variant.outlines, Variant.slots, VariantBody.outlines, VariantBody.slots,
      tokensOf_map tokens_field]

theorem tokensOf_declaration {kind : StatementKind} {f : Entry τ α → List (Outline τ)}
    {g : α → List (Slot τ)} (h : ∀ e, tokensOf (f e) = (Entry.slots g e).map Prod.snd)
    (d : Declaration τ α) : tokensOf (d.outlines f) = (d.slots kind g).map Prod.snd := by
  simp [Declaration.outlines, Declaration.slots, tokensOf_flatMap h]

theorem tokens_statement (st : Statement τ) : st.outline.tokens = st.slots.map Prod.snd := by
  simp only [Statement.outline, tokens_node, tokensOf_cons, tokensOf_nil, List.append_nil]
  cases st with
  | imports node =>
    simp [Statement.outlines, Statement.slots, Import.outlines, Import.ownSlots,
      tokensOf_flatMap tokensOf_importItem]
  | custom node => simp [Statement.outlines, Statement.slots, Custom.outlines, Custom.ownSlots]
  | enum node => exact tokensOf_declaration (tokensOf_entry fun name => by simp) node
  | oneof node => exact tokensOf_declaration (tokensOf_entry fun t => by simp) node
  | proc node =>
    obtain ⟨_, _, _, _, _, _, _, _ | throws⟩ := node <;>
      simp [Statement.outlines, Statement.slots, Proc.outlines, Proc.ownSlots, Throws.slots]
  | struct node => exact tokensOf_declaration (fun e => by simp [tokens_field]) node
  | union node => exact tokensOf_declaration (tokensOf_entry tokensOf_variant) node

/-- A walk meets the tokens of all slots. -/
theorem Document.map_snd_slots (d : Document τ) : d.slots.map Prod.snd = d.tokens := by
  simp [Document.slots, Document.tokens, Document.outline, tokensOf_map tokens_statement]

/-! ### Other tokens in the same places -/

/-- The same slots with other tokens. -/
def mapSlots (f : σ → τ) (slots : List (Slot σ)) : List (Slot τ) := slots.map (Prod.map id f)

section Map

variable (f : σ → τ)

@[simp] theorem mapSlots_nil : mapSlots f [] = [] := rfl

@[simp] theorem mapSlots_cons (slot : Slot σ) (slots : List (Slot σ)) :
    mapSlots f (slot :: slots) = (slot.1, f slot.2) :: mapSlots f slots := rfl

@[simp] theorem mapSlots_append (as bs : List (Slot σ)) :
    mapSlots f (as ++ bs) = mapSlots f as ++ mapSlots f bs := List.map_append

@[simp] theorem mapSlots_optionalSlot (pattern : Pattern) (t : Option σ) :
    mapSlots f (optionalSlot pattern t) = optionalSlot pattern (t.map f) := by
  cases t <;> rfl

theorem mapSlots_flatMap {g : α → List (Slot σ)} {g' : β → List (Slot τ)} {k : α → β}
    (h : ∀ a, mapSlots f (g a) = g' (k a)) (as : List α) :
    mapSlots f (as.flatMap g) = (as.map k).flatMap g' := by
  induction as with
  | nil => rfl
  | cons a as ih => simp [h, ih]

@[simp] theorem mapSlots_attribute (a : Attribute σ) : mapSlots f a.slots = (a.map f).slots := by
  simp [Attribute.slots, Attribute.map]

@[simp] theorem mapSlots_attributeSlots (as : List (Attribute σ)) :
    mapSlots f (attributeSlots as) = attributeSlots (as.map (Attribute.map f)) :=
  mapSlots_flatMap f (mapSlots_attribute f) as

@[simp] theorem mapSlots_type (t : TypeExpression σ) : mapSlots f t.slots = (t.map f).slots := by
  obtain ⟨valueType, _ | container⟩ := t <;>
    simp [TypeExpression.slots, TypeExpression.map, Container.slots, Container.map]

@[simp] theorem mapSlots_path (p : Path σ) : mapSlots f p.slots = (p.map f).slots := by
  simp only [Path.slots, Path.map, mapSlots, List.map_map]
  refine List.map_congr_left fun item _ => ?_
  cases item <;> rfl

theorem mapSlots_importItem (i : ImportItem σ) : mapSlots f i.slots = (i.map f).slots := by
  obtain ⟨name, _ | localAlias, comma⟩ := i <;>
    simp [ImportItem.slots, ImportItem.map, ImportAlias.slots, ImportAlias.map]

theorem mapSlots_entry {g : α → List (Slot σ)} {g' : β → List (Slot τ)} {k : α → β}
    (h : ∀ a, mapSlots f (g a) = g' (k a)) (e : Entry σ α) :
    mapSlots f (e.slots g) = (e.map f k).slots g' := by
  simp [Entry.slots, Entry.map, h]

theorem mapSlots_structField (field : StructField σ) :
    mapSlots f field.slots = (field.map f).slots := by
  simp [StructField.slots, StructField.map]

theorem mapSlots_variant (v : Variant σ) : mapSlots f v.slots = (v.map f).slots := by
  obtain ⟨name, _ | body⟩ := v <;>
    simp [Variant.slots, Variant.map, VariantBody.slots, VariantBody.map,
      mapSlots_flatMap f (mapSlots_entry f (mapSlots_structField f))]

theorem mapSlots_declaration {kind : StatementKind} {g : α → List (Slot σ)}
    {g' : β → List (Slot τ)} {k : α → β} (h : ∀ a, mapSlots f (g a) = g' (k a))
    (d : Declaration σ α) : mapSlots f (d.slots kind g) = (d.map f k).slots kind g' := by
  simp [Declaration.slots, Declaration.map, mapSlots_flatMap f (mapSlots_entry f h)]

theorem mapSlots_statement (st : Statement σ) : mapSlots f st.slots = (st.map f).slots := by
  cases st with
  | imports node =>
    simp [Statement.slots, Statement.map, Import.ownSlots, Import.map,
      mapSlots_flatMap f (mapSlots_importItem f)]
  | custom node => simp [Statement.slots, Statement.map, Custom.ownSlots, Custom.map]
  | enum node => exact mapSlots_declaration f (fun name => by simp) node
  | oneof node => exact mapSlots_declaration f (mapSlots_type f) node
  | proc node =>
    obtain ⟨_, _, _, _, _, _, _, _ | throws⟩ := node <;>
      simp [Statement.slots, Statement.map, Proc.ownSlots, Proc.map, Throws.slots, Throws.map]
  | struct node => exact mapSlots_declaration f (mapSlots_structField f) node
  | union node => exact mapSlots_declaration f (mapSlots_variant f) node

theorem mapSlots_document (d : Document σ) : mapSlots f d.slots = (d.map f).slots := by
  simp [Document.slots, Document.map, mapSlots_flatMap f (mapSlots_statement f)]

end Map

/-! ### The order of a source -/

open scoped List

/-- The slots of nodes that take attributes in front of their own. -/
class AttributesFirst [HasAttributes α τ] (g : α → List (Slot τ)) : Prop where
  slots_prepend : ∀ (leading : List (Attribute τ)) (node : α),
    g (prepend leading node) = attributeSlots leading ++ g node

instance (g : α → List (Slot τ)) : AttributesFirst (Entry.slots g) where
  slots_prepend leading e := by
    simp [prepend, HasAttributes.setAttributes, HasAttributes.attributes, Entry.slots,
      attributeSlots]

instance : AttributesFirst (Statement.slots (τ := τ)) where
  slots_prepend leading st := by
    cases st <;> simp [prepend, HasAttributes.setAttributes, HasAttributes.attributes,
      Statement.slots, Declaration.slots, attributeSlots, Import.ownSlots, Custom.ownSlots,
      Proc.ownSlots]

theorem perm_attributeSlots (run : List (Attribute τ)) :
    (attributeSlots run).Perm (attributeSlots (run.filter (·.kind.isInner)) ++
      attributeSlots (run.filter (!·.kind.isInner))) := by
  have h := (List.filter_append_perm (·.kind.isInner) run).symm.flatMap_right Attribute.slots
  simpa [attributeSlots] using h

section Block

variable [HasAttributes α τ] {own : α → List (Slot τ)} [AttributesFirst own]
  {form : α → List (Slot τ) → Prop}

/-- A chunk has the inner attributes of its run and the tokens of its result. -/
theorem Chunk.perm_written {c : Chunk τ α} (h : c.slots.Perm (own c.node)) :
    c.written.Perm (attributeSlots c.inner ++ own c.result) := by
  rw [Chunk.written, Chunk.result, AttributesFirst.slots_prepend (g := own), ← List.append_assoc]
  exact (perm_attributeSlots c.run).append h

theorem BlockWritten.perm {attributes : List (Attribute τ)} {nodes : List α} {slots : List (Slot τ)}
    (h : BlockWritten form attributes nodes slots)
    (hf : ∀ t slots, form t slots → slots.Perm (own t)) :
    slots.Perm (attributeSlots attributes ++ nodes.flatMap own) := by
  obtain ⟨chunks, last, hc, -, rfl, rfl, rfl⟩ := h
  induction chunks with
  | nil => simp
  | cons c chunks ih =>
    have hchunk := c.perm_written (hf _ _ (hc c (by simp)))
    have ih := ih fun d hd => hc d (by simp [hd])
    simp only [List.flatMap_cons, List.map_cons, List.append_assoc, attributeSlots] at hchunk ih ⊢
    rw [List.flatMap_append, List.append_assoc]
    calc c.written ++ (chunks.flatMap Chunk.written ++ last.flatMap Attribute.slots)
        ~ (c.inner.flatMap Attribute.slots ++ own c.result) ++
            ((chunks.flatMap Chunk.inner ++ last).flatMap Attribute.slots ++
              (chunks.map Chunk.result).flatMap own) := hchunk.append ih
      _ ~ c.inner.flatMap Attribute.slots ++ ((chunks.flatMap Chunk.inner ++ last).flatMap
            Attribute.slots ++ (own c.result ++ (chunks.map Chunk.result).flatMap own)) := by
        rw [List.append_assoc]
        exact (List.perm_append_comm_assoc ..).append_left _

end Block

/-- What stands around a block does not matter for its tokens. -/
theorem perm_around {inner attributes entries : List (Slot τ)} (first last : List (Slot τ))
    (h : inner.Perm (attributes ++ entries)) :
    (first ++ inner ++ last).Perm (attributes ++ (first ++ entries ++ last)) := by
  calc first ++ inner ++ last
      ~ first ++ (attributes ++ entries) ++ last := (h.append_left first).append_right last
    _ ~ attributes ++ (first ++ entries ++ last) := by
      simp only [List.append_assoc]
      exact List.perm_append_comm_assoc ..

section Content

variable {content : α → List (Slot τ) → Prop} {own : α → List (Slot τ)}

theorem Entry.Written.perm {e : Entry τ α} {slots : List (Slot τ)}
    (h : ∀ t slots, content t slots → slots.Perm (own t)) (he : e.Written content slots) :
    slots.Perm (e.slots own) := by
  obtain ⟨ha, inner, hi, rfl⟩ := he
  rw [Entry.slots, ha]
  exact (h _ _ hi).append_right _

theorem Declaration.Written.perm {kind : StatementKind} {d : Declaration τ α}
    {slots : List (Slot τ)} (h : ∀ t slots, content t slots → slots.Perm (own t))
    (hd : d.Written kind content slots) : slots.Perm (d.slots kind own) := by
  obtain ⟨inner, hb, rfl⟩ := hd
  have hb := hb.perm fun _ _ he => Entry.Written.perm h he
  simpa [Declaration.slots] using perm_around [_, _, _] [_] hb

end Content

theorem Variant.Written.perm {v : Variant τ} {slots : List (Slot τ)} (h : v.Written slots) :
    slots.Perm v.slots := by
  obtain ⟨name, _ | body⟩ := v
  · obtain ⟨_, rfl, rfl⟩ := h
    exact .refl _
  · obtain ⟨_, rfl, inner, hb, rfl⟩ := h
    have hb := hb.perm fun _ _ he => Entry.Written.perm (fun _ _ h => .of_eq h) he
    refine List.Perm.cons _ ?_
    simpa [VariantBody.slots] using perm_around [_] [_] hb

theorem Statement.Written.perm {st : Statement τ} {slots : List (Slot τ)} (h : st.Written slots) :
    slots.Perm st.slots := by
  cases st with
  | imports node =>
    obtain ⟨ha, -, rfl⟩ := h
    rw [Statement.slots, ha]
    exact .refl _
  | custom node =>
    obtain ⟨ha, rfl⟩ := h
    rw [Statement.slots, ha]
    exact .refl _
  | proc node =>
    obtain ⟨ha, rfl⟩ := h
    rw [Statement.slots, ha]
    exact .refl _
  | enum node => exact Declaration.Written.perm (fun _ _ h => .of_eq h) h
  | oneof node => exact Declaration.Written.perm (fun _ _ h => .of_eq h) h
  | struct node => exact Declaration.Written.perm (fun _ _ h => .of_eq h) h
  | union node => exact Declaration.Written.perm (fun _ _ h => h.perm) h

/-- A source has the tokens of the tree, each of them once. -/
theorem Document.Written.perm {d : Document τ} {slots : List (Slot τ)} (h : d.Written slots) :
    slots.Perm d.slots :=
  BlockWritten.perm h fun _ _ h => h.perm

end SchemaText
