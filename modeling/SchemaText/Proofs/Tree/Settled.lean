import SchemaText.Proofs.Tree.Arrangement
import SchemaText.Proofs.Tree.Slots

/-!
The tokens of a written tree are arranged as its phrases and the holders of its attributes.
-/
namespace SchemaText

open Phrase (token ofOption)

variable {α : Type} {slots : List (Slot Span)} {phrases : α → List Phrase}
  {holders : α → List Holder} {node : α}

/-- The tokens of slots. -/
def tokensIn (slots : List (Slot Span)) : List Span := slots.map Prod.snd

@[simp] theorem tokensIn_nil : tokensIn [] = [] := rfl

@[simp] theorem tokensIn_cons (slot : Slot Span) (slots : List (Slot Span)) :
    tokensIn (slot :: slots) = slot.2 :: tokensIn slots := rfl

@[simp] theorem tokensIn_append (as bs : List (Slot Span)) :
    tokensIn (as ++ bs) = tokensIn as ++ tokensIn bs := List.map_append

@[simp] theorem tokensIn_optionalSlot (pattern : Pattern) (t : Option Span) :
    tokensIn (optionalSlot pattern t) = t.toList := map_snd_optionalSlot pattern t

theorem tokensIn_attributeSlots (run : List (Attribute Span)) :
    tokensIn (attributeSlots run) = run.flatMap Attribute.tokens := by
  induction run with
  | nil => rfl
  | cons a run ih =>
    rw [attributeSlots, List.flatMap_cons, tokensIn_append, List.flatMap_cons, ← ih]
    simp [Attribute.slots, Attribute.tokens, attributeSlots]

/-! ### Parts of statements -/

theorem arranges_container (c : Container Span) :
    Arranges (tokensIn c.slots) [c.phrase] [] [] := by
  have hkey := (Arranges.optional c.keyType).append (.token c.closing)
  have := (hkey.cons c.opening).join (List.cons_ne_nil _ _)
  simpa [Container.slots, Container.phrase] using this

theorem arranges_type (t : TypeExpression Span) : Arranges (tokensIn t.slots) [t.phrase] [] [] := by
  obtain ⟨valueType, _ | c⟩ := t
  · apply Arranges.whole (r := TypeExpression.phrase ⟨valueType, none⟩)
    · exact .token valueType
    · exact ⟨_, _, rfl, rfl, fun _ _ => rfl⟩
  · apply Arranges.whole (r := TypeExpression.phrase ⟨valueType, some c⟩)
    · exact (arranges_container c).cons valueType
    · have hlast : c.phrase.parts.getLast? = some (token c.closing) := by
        rw [Container.phrase, Phrase.parts_join]
        exact List.getLast?_concat
      exact .of_merge rfl rfl (fun h => h.of_getLast? hlast) rfl

theorem arranges_path (p : Path Span) : Arranges (tokensIn p.slots) p.phrases [] [] := by
  have hitems : ∀ items : List (PathItem Span), Arranges (tokensIn (items.map PathItem.slot))
      (items.map fun item => token item.token) [] [] := by
    intro items
    induction items with
    | nil => exact .nil
    | cons item items ih => cases item <;> exact ih.cons _
  obtain ⟨_ | ⟨first, rest⟩⟩ := p
  · exact .nil
  · have hspan : Path.span ⟨first :: rest⟩ =
        some (first.token.merge (rest.getLast?.getD first).token) := by
      simp [Path.span, List.getLast?_cons]
    rw [Path.phrases, hspan]
    apply Arranges.whole (r := .node _ _)
    · exact hitems (first :: rest)
    · have hlast : ((first :: rest).map fun item => token item.token).getLast? =
          some (token (rest.getLast?.getD first).token) := by
        rw [List.getLast?_map, List.getLast?_cons]
        rfl
      exact .of_merge rfl hlast (fun _ => ⟨Nat.le_refl _, rfl⟩) rfl

theorem arranges_importItem (i : ImportItem Span) :
    Arranges (tokensIn i.slots) [i.phrase] [] [] := by
  obtain ⟨name, localAlias, comma⟩ := i
  have hcomma := Arranges.optional comma
  cases localAlias with
  | none =>
    have := (hcomma.cons name).join (List.cons_ne_nil _ _)
    simpa [ImportItem.slots, ImportItem.phrase] using this
  | some a =>
    have halias := ((Arranges.token a.name).cons a.keyword).join (List.cons_ne_nil _ _)
    have := ((halias.append hcomma).cons name).join (List.cons_ne_nil _ _)
    simpa [ImportItem.slots, ImportItem.phrase, ImportAlias.slots, ImportAlias.phrase] using this

theorem arranges_structField (f : StructField Span) :
    Arranges (tokensIn f.slots) f.parts [] [] := by
  have htype := (arranges_type f.type).cons f.colon
  have := ((Arranges.optional f.question).append htype).cons f.name
  simpa [StructField.slots, StructField.parts] using this

/-! ### Blocks -/

section Block

variable [HasAttributes α Span]

/-- The phrases of a node begin with the attributes in front of it. -/
class LeadingPhrases (phrases : α → List Phrase) : Prop where
  phrases_prepend : ∀ (run : List (Attribute Span)) (node : α),
    phrases (prepend (run.filter (!·.kind.isInner)) node) = leading run ++ phrases node

/-- The holders in a node begin with the node itself. -/
class LeadingHolder (holders : α → List Holder) : Prop where
  holders_prepend : ∀ (run : List (Attribute Span)) {node : α} {h : Holder} {hs : List Holder},
    holders node = h :: hs →
      holders (prepend (run.filter (!·.kind.isInner)) node) = h.behind run :: hs

theorem leading_prepend (run as : List (Attribute Span)) :
    leading (run.filter (!·.kind.isInner) ++ as) = leading run ++ leading as := by
  simp [leading]

instance (content : α → List Phrase) : LeadingPhrases (Entry.phrases content) where
  phrases_prepend run e := by
    rw [Entry.phrases, Entry.phrases, ← List.append_assoc, ← leading_prepend]
    rfl

instance (lead : α → Span) (inside : α → List Holder) :
    LeadingHolder (Entry.holders lead inside) where
  holders_prepend run e h hs he := by
    cases he
    rfl

instance : LeadingPhrases Statement.phrases where
  phrases_prepend run st := by
    rw [Statement.phrases, Statement.phrases, ← List.append_assoc, ← leading_prepend]
    cases st <;> rfl

instance : LeadingHolder Statement.holders where
  holders_prepend run st h hs hst := by
    cases st <;> cases hst <;> rfl

/-- A node is written in these slots: they are arranged as its phrases, which begin with a token of
the node, and it holds none but inner attributes yet. -/
def Settled (phrases : α → List Phrase) (holders : α → List Holder) (node : α)
    (slots : List (Slot Span)) : Prop :=
  ∃ lead rest h hs, tokensIn slots = lead :: rest ∧ holders node = h :: hs ∧
    h.lead = some lead ∧ (∀ a ∈ h.attributes, a.kind = .inner) ∧
    Arranges (tokensIn slots) (phrases node) (holders node) []

theorem leading_eq_nil {as : List (Attribute Span)} (h : ∀ a ∈ as, a.kind = .inner) :
    leading as = [] := by
  rw [leading, filter_not_isInner h, List.map_nil]

variable {phrases : α → List Phrase} {holders : α → List Holder} [LeadingPhrases phrases]
  [LeadingHolder holders] {form : α → List (Slot Span) → Prop} {as : List (Attribute Span)}
  {nodes : List α}

theorem arranges_chunk {c : Chunk Span α} (h : Settled phrases holders c.node c.slots) :
    Arranges (tokensIn c.written) (phrases c.result) (holders c.result) c.inner := by
  obtain ⟨lead, rest, h, hs, hslots, hholders, hlead, hinner, harr⟩ := h
  have hphrases : phrases c.result = leading c.run ++ phrases c.node :=
    LeadingPhrases.phrases_prepend c.run c.node
  have hresult : holders c.result = h.behind c.run :: hs :=
    LeadingHolder.holders_prepend c.run hholders
  rw [hslots, hholders] at harr
  rw [Chunk.written, tokensIn_append, tokensIn_attributeSlots, hslots, hphrases, hresult]
  exact harr.behind hlead hinner

theorem arranges_block (h : BlockWritten form as nodes slots)
    (hform : ∀ node slots, form node slots → Settled phrases holders node slots) :
    Arranges (tokensIn slots) (nodes.flatMap phrases) (nodes.flatMap holders) as := by
  obtain ⟨chunks, last, hc, hlast, rfl, rfl, rfl⟩ := h
  have hchunks : Arranges (tokensIn (chunks.flatMap Chunk.written))
      ((chunks.map Chunk.result).flatMap phrases) ((chunks.map Chunk.result).flatMap holders)
      (chunks.flatMap Chunk.inner) := by
    induction chunks with
    | nil => exact .nil
    | cons c chunks ih =>
      obtain ⟨hnode, hc⟩ := List.forall_mem_cons.1 hc
      have := (arranges_chunk (hform _ _ hnode)).append (ih hc)
      simpa using this
  have hrun := Arranges.attributes last
  rw [filter_isInner hlast, leading_eq_nil hlast] at hrun
  have := hchunks.append hrun
  rw [List.append_nil, List.append_nil] at this
  rw [tokensIn_append, tokensIn_attributeSlots]
  exact this

theorem BlockWritten.inner (h : BlockWritten form as nodes slots) : ∀ a ∈ as, a.kind = .inner := by
  obtain ⟨chunks, last, -, hlast, rfl, -, -⟩ := h
  intro a ha
  rcases List.mem_append.1 ha with ha | ha
  · obtain ⟨c, -, ha⟩ := List.mem_flatMap.1 ha
    exact (mem_filter_inner.1 ha).2
  · exact hlast a ha

end Block

/-! ### Entries -/

/-- The content of an entry is written in these slots. -/
def Fills (lead : α → Span) (parts : α → List Phrase) (inside : α → List Holder) (a : α)
    (slots : List (Slot Span)) : Prop :=
  (∃ rest, tokensIn slots = lead a :: rest) ∧ parts a ≠ [] ∧
    Arranges (tokensIn slots) (parts a) (inside a) []

variable {lead : α → Span} {parts : α → List Phrase} {inside : α → List Holder}
  {content : α → List (Slot Span) → Prop}

theorem settled_entry (hcontent : ∀ a slots, content a slots → Fills lead parts inside a slots)
    {e : Entry Span α} (h : e.Written content slots) :
    Settled (Entry.phrases parts) (Entry.holders lead inside) e slots := by
  obtain ⟨hattributes, inner, hinner, rfl⟩ := h
  obtain ⟨⟨rest, hrest⟩, hparts, harr⟩ := hcontent _ _ hinner
  refine ⟨lead e.content, rest ++ e.comma.toList, _, _, by simp [hrest], rfl, rfl, ?_, ?_⟩
  · simp [hattributes]
  · have hjoin := (harr.append (.optional e.comma)).join (by simp [hparts])
    have := hjoin.bare (g := ⟨e.attributes, some (lead e.content), none⟩) hattributes
    simpa [Entry.phrases, Entry.holders, hattributes, leading] using this

theorem fills_structField (f : StructField Span) :
    Fills StructField.name StructField.parts (fun _ => []) f f.slots :=
  ⟨⟨_, rfl⟩, List.cons_ne_nil _ _, arranges_structField f⟩

theorem fills_variant {v : Variant Span} (h : v.Written slots) :
    Fills Variant.name Variant.parts Variant.holders v slots := by
  obtain ⟨name, body⟩ := v
  obtain ⟨inner, rfl, hbody⟩ := h
  refine ⟨⟨_, rfl⟩, List.cons_ne_nil _ _, ?_⟩
  cases body with
  | none =>
    subst hbody
    exact .token name
  | some body =>
    obtain ⟨fields, hblock, rfl⟩ := hbody
    have hfields := arranges_block hblock fun _ _ =>
      settled_entry fun f slots hf => hf ▸ fills_structField f
    have := (hfields.block body.opening body.closing none).cons name
    simpa [Variant.parts, Variant.holders, VariantBody.phrase, VariantBody.holders] using this

/-! ### Statements -/

theorem arranges_declaration {kind : StatementKind} {d : Declaration Span α}
    (hcontent : ∀ a slots, content a slots → Fills lead parts inside a slots)
    (h : d.Written kind content slots) : (∃ rest, tokensIn slots = d.keyword :: rest) ∧
      (∀ a ∈ d.attributes, a.kind = .inner) ∧
      Arranges (tokensIn slots) [.node (d.keyword.merge d.closing) (d.parts parts)]
        (d.holders (Entry.holders lead inside)) [] := by
  obtain ⟨inner, hblock, rfl⟩ := h
  refine ⟨⟨_, rfl⟩, hblock.inner, ?_⟩
  have hentries := arranges_block hblock fun _ _ => settled_entry hcontent
  have hbody := hentries.block d.opening d.closing (some d.keyword)
  have hparts := (hbody.cons d.name).cons d.keyword
  have hlast : (Phrase.block d.opening (d.entries.flatMap (Entry.phrases parts))
      d.closing).parts.getLast? = some (token d.closing) := List.getLast?_concat
  have := hparts.whole (r := .node (d.keyword.merge d.closing) (d.parts parts))
    (.of_merge rfl rfl (fun hn => hn.of_getLast? hlast) rfl)
  simpa [Declaration.holders] using this

/-- A statement that has its own parts in a row holds its attributes and those of its entries. -/
theorem settled_of_parts {st : Statement Span} {room : Option Span} {hs : List Holder}
    (hslots : ∃ rest, tokensIn slots = st.keyword :: rest)
    (hholders : st.holders = ⟨HasAttributes.attributes st, some st.keyword, room⟩ :: hs)
    (hinner : ∀ a ∈ HasAttributes.attributes st, a.kind = .inner)
    (harr : Arranges (tokensIn slots) [.node st.span st.parts] st.holders []) :
    Settled Statement.phrases Statement.holders st slots := by
  obtain ⟨rest, hrest⟩ := hslots
  refine ⟨st.keyword, rest, _, hs, hrest, hholders, rfl, hinner, ?_⟩
  rw [Statement.phrases, leading_eq_nil hinner]
  exact harr

/-- A statement that holds no attributes and has no entries that do. -/
theorem settled_of_bare {st : Statement Span}
    (hslots : ∃ rest, tokensIn slots = st.keyword :: rest)
    (hholders : st.holders = [⟨HasAttributes.attributes st, some st.keyword, none⟩])
    (hattributes : HasAttributes.attributes st = [])
    (harr : Arranges (tokensIn slots) [.node st.span st.parts] [] []) :
    Settled Statement.phrases Statement.holders st slots := by
  refine settled_of_parts hslots hholders (by simp [hattributes]) ?_
  rw [hholders]
  exact harr.bare hattributes

theorem arranges_importItems (items : List (ImportItem Span)) :
    Arranges (tokensIn (items.flatMap ImportItem.slots)) (items.map ImportItem.phrase) [] [] := by
  induction items with
  | nil => exact .nil
  | cons item items ih =>
    rw [List.flatMap_cons, tokensIn_append]
    exact (arranges_importItem item).append ih

theorem settled_import {node : Import Span} (h : node.Written slots) :
    Settled Statement.phrases Statement.holders (.imports node) slots := by
  obtain ⟨hattributes, -, rfl⟩ := h
  have hbody := (arranges_importItems node.items).brackets node.opening node.closing
  have hparts := ((arranges_path node.path).append hbody).cons node.keyword
  have hlast : node.parts.getLast? = some _ := List.getLast?_concat
  have hclosing := List.getLast?_concat (a := token node.closing)
    (l := token node.opening :: node.items.map ImportItem.phrase)
  have hnode := hparts.whole (r := .node (node.keyword.merge node.closing) node.parts)
    (.of_merge rfl hlast (fun hn => hn.of_getLast? hclosing) rfl)
  refine settled_of_bare ⟨_, rfl⟩ rfl hattributes ?_
  have hspan : (Statement.imports node).span = node.keyword.merge node.closing := rfl
  rw [hspan]
  simpa [Import.ownSlots, Statement.parts, Import.parts, tokensIn] using hnode

theorem settled_custom {node : Custom Span} (h : (Statement.custom node).Written slots) :
    Settled Statement.phrases Statement.holders (.custom node) slots := by
  obtain ⟨hattributes, rfl⟩ := h
  have hparts := (((arranges_type node.type).cons node.equals).cons node.name).cons node.keyword
  have hnode := hparts.whole (r := .node (node.keyword.merge node.type.span) node.parts)
    (.of_merge rfl rfl (fun _ => ⟨Nat.le_refl _, rfl⟩) rfl)
  exact settled_of_bare ⟨_, rfl⟩ rfl hattributes hnode

theorem settled_proc {node : Proc Span} (h : (Statement.proc node).Written slots) :
    Settled Statement.phrases Statement.holders (.proc node) slots := by
  obtain ⟨hattributes, rfl⟩ := h
  obtain ⟨attributes, keyword, name, equals, input, arrow, output, throws⟩ := node
  have hhead := (((arranges_type input).cons equals).cons name).cons keyword
  cases throws with
  | none =>
    have hparts := hhead.append ((arranges_type output).cons arrow)
    have hnode := hparts.whole (r := .node (keyword.merge output.span) _)
      (.of_merge rfl rfl (fun _ => ⟨Nat.le_refl _, rfl⟩) rfl)
    refine settled_of_bare ⟨_, rfl⟩ rfl hattributes ?_
    simpa [Proc.ownSlots, Statement.span, Statement.keyword, Statement.last, Proc.last,
      Statement.parts, Proc.parts] using hnode
  | some throws =>
    have hthrows := ((arranges_type throws.type).cons throws.keyword).join (List.cons_ne_nil _ _)
    have hparts := hhead.append (((arranges_type output).append hthrows).cons arrow)
    have hnode := hparts.whole (r := .node (keyword.merge throws.type.span) _)
      (.of_merge rfl rfl (fun hn => hn.of_getLast? rfl) rfl)
    refine settled_of_bare ⟨_, rfl⟩ rfl hattributes ?_
    simpa [Proc.ownSlots, Throws.slots, Statement.span, Statement.keyword, Statement.last,
      Proc.last, Statement.parts, Proc.parts, Throws.phrase] using hnode

theorem settled_statement {st : Statement Span} (h : st.Written slots) :
    Settled Statement.phrases Statement.holders st slots := by
  cases st with
  | imports node => exact settled_import h
  | custom node => exact settled_custom h
  | proc node => exact settled_proc h
  | enum node =>
    have hword : ∀ (name : Span) (slots : List (Slot Span)), slots = [(Grammar.word, name)] →
        Fills id (fun name => [token name]) (fun _ => []) name slots := by
      rintro name _ rfl
      exact ⟨⟨_, rfl⟩, List.cons_ne_nil _ _, .token name⟩
    obtain ⟨hslots, hinner, harr⟩ := arranges_declaration hword h
    exact settled_of_parts hslots rfl hinner harr
  | oneof node =>
    have htype : ∀ (t : TypeExpression Span) (slots : List (Slot Span)), slots = t.slots →
        Fills TypeExpression.valueType (fun t => [t.phrase]) (fun _ => []) t slots := by
      rintro t _ rfl
      exact ⟨⟨_, rfl⟩, List.cons_ne_nil _ _, arranges_type t⟩
    obtain ⟨hslots, hinner, harr⟩ := arranges_declaration htype h
    exact settled_of_parts hslots rfl hinner harr
  | struct node =>
    have hfield : ∀ (f : StructField Span) (slots : List (Slot Span)), slots = f.slots →
        Fills StructField.name StructField.parts (fun _ => []) f slots := by
      rintro f _ rfl
      exact fills_structField f
    obtain ⟨hslots, hinner, harr⟩ := arranges_declaration hfield h
    exact settled_of_parts hslots rfl hinner harr
  | union node =>
    obtain ⟨hslots, hinner, harr⟩ := arranges_declaration (fun _ _ => fills_variant) h
    exact settled_of_parts hslots rfl hinner harr

theorem arranges_document {d : Document Span} (h : d.Written slots) :
    Arranges (tokensIn slots) d.phrases (d.statements.flatMap Statement.holders) d.attributes :=
  arranges_block h fun _ _ => settled_statement

end SchemaText
