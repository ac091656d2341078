import SchemaText.Proofs.Tree.Slots

/-!
A tree that is written as some tokens is the view of a tree that is written as the tokens behind
them.
-/
namespace SchemaText

variable {σ τ α β : Type} {f : σ → τ} {slots : List (Slot σ)}

/-- What is written as the views of slots is the view of what is written as the slots. -/
def Lifts (f : σ → τ) (g : α → β) (form : α → List (Slot σ) → Prop)
    (form' : β → List (Slot τ) → Prop) : Prop :=
  ∀ (b : β) (slots : List (Slot σ)), form' b (mapSlots f slots) → ∃ a, g a = b ∧ form a slots

/-! ### Slots -/

theorem mapSlots_eq_nil_iff : mapSlots f slots = [] ↔ slots = [] := List.map_eq_nil_iff

theorem mapSlots_eq_cons_iff {pattern : Pattern} {t : τ} {more : List (Slot τ)} :
    mapSlots f slots = (pattern, t) :: more ↔
      ∃ s rest, slots = (pattern, s) :: rest ∧ f s = t ∧ mapSlots f rest = more := by
  constructor
  · intro h
    obtain ⟨⟨_, s⟩, rest, rfl, hs, hrest⟩ := List.map_eq_cons_iff.1 h
    cases hs
    exact ⟨s, rest, rfl, rfl, hrest⟩
  · rintro ⟨s, rest, rfl, rfl, rfl⟩
    rfl

theorem mapSlots_eq_singleton_iff {pattern : Pattern} {t : τ} :
    mapSlots f slots = [(pattern, t)] ↔ ∃ s, slots = [(pattern, s)] ∧ f s = t := by
  rw [mapSlots_eq_cons_iff]
  simp only [mapSlots_eq_nil_iff]
  constructor
  · rintro ⟨s, _, h, hs, rfl⟩
    exact ⟨s, h, hs⟩
  · rintro ⟨s, h, hs⟩
    exact ⟨s, [], h, hs, rfl⟩

theorem mapSlots_eq_append_iff {as bs : List (Slot τ)} : mapSlots f slots = as ++ bs ↔
    ∃ as' bs', slots = as' ++ bs' ∧ mapSlots f as' = as ∧ mapSlots f bs' = bs :=
  List.map_eq_append_iff

theorem mapSlots_eq_optionalSlot {pattern : Pattern} {t : Option τ}
    (h : mapSlots f slots = optionalSlot pattern t) :
    ∃ s : Option σ, s.map f = t ∧ slots = optionalSlot pattern s := by
  cases t with
  | none => exact ⟨none, rfl, mapSlots_eq_nil_iff.1 h⟩
  | some t =>
    obtain ⟨s, rfl, rfl⟩ := mapSlots_eq_singleton_iff.1 h
    exact ⟨some s, rfl, rfl⟩

theorem lifts_flatMap {g : α → β} {own : α → List (Slot σ)} {own' : β → List (Slot τ)}
    (h : Lifts f g (fun a slots => slots = own a) fun b slots => slots = own' b) :
    Lifts f (List.map g) (fun as slots => slots = as.flatMap own)
      fun bs slots => slots = bs.flatMap own' := by
  intro bs
  induction bs with
  | nil => exact fun slots hs => ⟨[], rfl, mapSlots_eq_nil_iff.1 hs⟩
  | cons b bs ih =>
    intro slots hs
    rw [List.flatMap_cons, mapSlots_eq_append_iff] at hs
    obtain ⟨first, rest, rfl, hfirst, hrest⟩ := hs
    obtain ⟨a, rfl, rfl⟩ := h b first hfirst
    obtain ⟨as, rfl, rfl⟩ := ih rest hrest
    exact ⟨a :: as, rfl, rfl⟩

/-! ### Parts of statements -/

theorem lifts_attribute : Lifts f (Attribute.map f) (fun a slots => slots = a.slots)
    fun a slots => slots = a.slots := by
  rintro ⟨kind, _, _, content⟩ slots h
  obtain ⟨symbol, _, rfl, rfl, h1⟩ := mapSlots_eq_cons_iff.1 h
  obtain ⟨name, _, rfl, rfl, h2⟩ := mapSlots_eq_cons_iff.1 h1
  obtain ⟨content, rfl, rfl⟩ := mapSlots_eq_optionalSlot h2
  exact ⟨{ kind, symbol, name, content }, rfl, rfl⟩

theorem lifts_container : Lifts f (Container.map f) (fun c slots => slots = c.slots)
    fun c slots => slots = c.slots := by
  rintro ⟨_, keyType, _⟩ slots h
  obtain ⟨opening, _, rfl, rfl, h1⟩ := mapSlots_eq_cons_iff.1 h
  obtain ⟨_, _, rfl, hkey, hclosing⟩ := mapSlots_eq_append_iff.1 h1
  obtain ⟨keyType, rfl, rfl⟩ := mapSlots_eq_optionalSlot hkey
  obtain ⟨closing, rfl, rfl⟩ := mapSlots_eq_singleton_iff.1 hclosing
  exact ⟨{ opening, keyType, closing }, rfl, rfl⟩

theorem lifts_type : Lifts f (TypeExpression.map f) (fun t slots => slots = t.slots)
    fun t slots => slots = t.slots := by
  rintro ⟨_, _ | container⟩ slots h
  · obtain ⟨valueType, rfl, rfl⟩ := mapSlots_eq_singleton_iff.1 h
    exact ⟨{ valueType, container := none }, rfl, rfl⟩
  · obtain ⟨valueType, _, rfl, rfl, h1⟩ := mapSlots_eq_cons_iff.1 h
    obtain ⟨container, rfl, rfl⟩ := lifts_container container _ h1
    exact ⟨{ valueType, container := some container }, rfl, rfl⟩

theorem lifts_pathItems (items : List (PathItem τ)) :
    ∀ slots : List (Slot σ), mapSlots f slots = items.map PathItem.slot →
      ∃ items' : List (PathItem σ), items'.map (PathItem.map f) = items ∧
        slots = items'.map PathItem.slot := by
  induction items with
  | nil => exact fun slots h => ⟨[], rfl, mapSlots_eq_nil_iff.1 h⟩
  | cons item items ih =>
    intro slots h
    cases item with
    | identifier =>
      obtain ⟨token, rest, rfl, rfl, h1⟩ := mapSlots_eq_cons_iff.1 h
      obtain ⟨items', rfl, rfl⟩ := ih rest h1
      exact ⟨.identifier token :: items', rfl, rfl⟩
    | dot =>
      obtain ⟨token, rest, rfl, rfl, h1⟩ := mapSlots_eq_cons_iff.1 h
      obtain ⟨items', rfl, rfl⟩ := ih rest h1
      exact ⟨.dot token :: items', rfl, rfl⟩

theorem lifts_structField : Lifts f (StructField.map f) (fun field slots => slots = field.slots)
    fun field slots => slots = field.slots := by
  rintro ⟨_, question, _, type⟩ slots h
  obtain ⟨_, _, rfl, hname, hrest⟩ := mapSlots_eq_append_iff.1 h
  obtain ⟨name, _, rfl, rfl, hquestion⟩ := mapSlots_eq_cons_iff.1 hname
  obtain ⟨question, rfl, rfl⟩ := mapSlots_eq_optionalSlot hquestion
  obtain ⟨colon, _, rfl, rfl, htype⟩ := mapSlots_eq_cons_iff.1 hrest
  obtain ⟨type, rfl, rfl⟩ := lifts_type type _ htype
  exact ⟨{ name, question, colon, type }, rfl, rfl⟩

theorem lifts_word : Lifts f f (fun name slots => slots = [(Grammar.word, name)])
    fun name slots => slots = [(Grammar.word, name)] := by
  intro _ slots h
  obtain ⟨name, rfl, rfl⟩ := mapSlots_eq_singleton_iff.1 h
  exact ⟨name, rfl, rfl⟩

theorem lifts_importItem : Lifts f (ImportItem.map f) (fun i slots => slots = i.slots)
    fun i slots => slots = i.slots := by
  rintro ⟨_, localAlias, comma⟩ slots h
  obtain ⟨_, _, rfl, hname, hcomma⟩ := mapSlots_eq_append_iff.1 h
  obtain ⟨comma, rfl, rfl⟩ := mapSlots_eq_optionalSlot hcomma
  obtain ⟨name, _, rfl, rfl, halias⟩ := mapSlots_eq_cons_iff.1 hname
  cases localAlias with
  | none =>
    obtain rfl := mapSlots_eq_nil_iff.1 halias
    exact ⟨{ name, localAlias := none, comma }, rfl, rfl⟩
  | some localAlias =>
    obtain ⟨_, _⟩ := localAlias
    obtain ⟨keyword, _, rfl, rfl, h1⟩ := mapSlots_eq_cons_iff.1 halias
    obtain ⟨aliasName, rfl, rfl⟩ := mapSlots_eq_singleton_iff.1 h1
    exact ⟨{ name, localAlias := some { keyword, name := aliasName }, comma }, rfl, rfl⟩

/-! ### Blocks -/

theorem filter_map_attribute (f : σ → τ) (p : AttributeKind → Bool) (run : List (Attribute σ)) :
    (run.map (Attribute.map f)).filter (fun a => p a.kind) =
      (run.filter fun a => p a.kind).map (Attribute.map f) := by
  rw [List.filter_map]
  rfl

section Block

variable [HasAttributes α σ] [HasAttributes β τ] {g : α → β} [AttributesMap f g]
  {form : α → List (Slot σ) → Prop} {form' : β → List (Slot τ) → Prop}

theorem lifts_chunks (h : Lifts f g form form') (chunks : List (Chunk τ β)) :
    (∀ c ∈ chunks, form' c.node c.slots) → ∀ slots : List (Slot σ),
      mapSlots f slots = chunks.flatMap Chunk.written → ∃ chunks' : List (Chunk σ α),
        (∀ c ∈ chunks', form c.node c.slots) ∧ slots = chunks'.flatMap Chunk.written ∧
        (chunks'.flatMap Chunk.inner).map (Attribute.map f) = chunks.flatMap Chunk.inner ∧
        (chunks'.map Chunk.result).map g = chunks.map Chunk.result := by
  induction chunks with
  | nil => exact fun _ slots hs => ⟨[], by simp, mapSlots_eq_nil_iff.1 hs, rfl, rfl⟩
  | cons c chunks ih =>
    intro hc slots hs
    obtain ⟨run, node, slots'⟩ := c
    obtain ⟨hnode, hchunks⟩ := List.forall_mem_cons.1 hc
    obtain ⟨_, rest, rfl, hfirst, hrest⟩ := mapSlots_eq_append_iff.1 hs
    obtain ⟨_, slots, rfl, hrun, rfl⟩ := mapSlots_eq_append_iff.1 hfirst
    obtain ⟨run, rfl, rfl⟩ := lifts_flatMap lifts_attribute run _ hrun
    obtain ⟨node, rfl, hnode'⟩ := h node slots hnode
    obtain ⟨chunks', hchunks', rfl, hinner, hresult⟩ := ih hchunks rest hrest
    refine ⟨⟨run, node, slots⟩ :: chunks', List.forall_mem_cons.2 ⟨hnode', hchunks'⟩, rfl, ?_, ?_⟩
    · rw [List.flatMap_cons, List.flatMap_cons, List.map_append, hinner, Chunk.inner, Chunk.inner,
        filter_map_attribute f AttributeKind.isInner]
    · rw [List.map_cons, List.map_cons, List.map_cons, hresult, Chunk.result,
        AttributesMap.map_prepend (f := f) (g := g), Chunk.result, Chunk.outer, Chunk.outer,
        filter_map_attribute f (!·.isInner)]

theorem lifts_block (h : Lifts f g form form') {attributes : List (Attribute τ)} {nodes : List β}
    (hb : BlockWritten form' attributes nodes (mapSlots f slots)) :
    ∃ (attributes' : List (Attribute σ)) (nodes' : List α),
      attributes'.map (Attribute.map f) = attributes ∧ nodes'.map g = nodes ∧
      BlockWritten form attributes' nodes' slots := by
  obtain ⟨chunks, last, hc, hl, rfl, rfl, hs⟩ := hb
  obtain ⟨_, _, rfl, hs, hlast⟩ := mapSlots_eq_append_iff.1 hs
  obtain ⟨chunks', hc, rfl, hinner, hresult⟩ := lifts_chunks h chunks hc _ hs
  obtain ⟨last, rfl, rfl⟩ := lifts_flatMap lifts_attribute last _ hlast
  refine ⟨chunks'.flatMap Chunk.inner ++ last, chunks'.map Chunk.result, ?_, hresult, chunks', last,
    hc, fun a ha => hl _ (List.mem_map_of_mem ha), rfl, rfl, rfl⟩
  rw [List.map_append, hinner]

end Block

theorem lifts_entry {g : α → β} {form : α → List (Slot σ) → Prop} {form' : β → List (Slot τ) → Prop}
    (h : Lifts f g form form') :
    Lifts f (Entry.map f g) (Entry.Written form) (Entry.Written form') := by
  rintro ⟨_, content, comma⟩ slots ⟨rfl, inner, hinner, hs⟩
  obtain ⟨inner, _, rfl, rfl, hcomma⟩ := mapSlots_eq_append_iff.1 hs
  obtain ⟨content, rfl, hcontent⟩ := h content inner hinner
  obtain ⟨comma, rfl, rfl⟩ := mapSlots_eq_optionalSlot hcomma
  exact ⟨{ attributes := [], content, comma }, rfl, rfl, inner, hcontent, rfl⟩

theorem lifts_variant : Lifts f (Variant.map f) Variant.Written Variant.Written := by
  rintro ⟨_, _ | body⟩ slots ⟨inner, hs, hbody⟩
  · subst hbody
    obtain ⟨name, rfl, rfl⟩ := mapSlots_eq_singleton_iff.1 hs
    exact ⟨{ name, body := none }, rfl, [], rfl, rfl⟩
  · obtain ⟨_, _, _, _⟩ := body
    obtain ⟨inner', hblock, rfl⟩ := hbody
    obtain ⟨name, _, rfl, rfl, h1⟩ := mapSlots_eq_cons_iff.1 hs
    obtain ⟨_, _, rfl, h2, hclosing⟩ := mapSlots_eq_append_iff.1 h1
    obtain ⟨opening, inner, rfl, rfl, rfl⟩ := mapSlots_eq_cons_iff.1 h2
    obtain ⟨closing, rfl, rfl⟩ := mapSlots_eq_singleton_iff.1 hclosing
    obtain ⟨attributes, fields, rfl, rfl, hfields⟩ :=
      lifts_block (lifts_entry lifts_structField) hblock
    exact ⟨{ name, body := some { attributes, opening, fields, closing } }, rfl, _, rfl, inner,
      hfields, rfl⟩

theorem lifts_declaration {kind : StatementKind} {g : α → β} {form : α → List (Slot σ) → Prop}
    {form' : β → List (Slot τ) → Prop} (h : Lifts f g form form') :
    Lifts f (Declaration.map f g) (Declaration.Written kind form)
      (Declaration.Written kind form') := by
  rintro ⟨_, _, _, _, _, _⟩ slots ⟨inner, hblock, hs⟩
  obtain ⟨_, _, rfl, h1, hclosing⟩ := mapSlots_eq_append_iff.1 hs
  obtain ⟨keyword, _, rfl, rfl, h2⟩ := mapSlots_eq_cons_iff.1 h1
  obtain ⟨name, _, rfl, rfl, h3⟩ := mapSlots_eq_cons_iff.1 h2
  obtain ⟨opening, inner, rfl, rfl, rfl⟩ := mapSlots_eq_cons_iff.1 h3
  obtain ⟨closing, rfl, rfl⟩ := mapSlots_eq_singleton_iff.1 hclosing
  obtain ⟨attributes, entries, rfl, rfl, hentries⟩ := lifts_block (lifts_entry h) hblock
  exact ⟨{ attributes, keyword, name, opening, entries, closing }, rfl, inner, hentries, rfl⟩

/-! ### Statements -/

theorem alternates_of_map {items : List (PathItem σ)}
    (h : Path.Alternates (items.map (PathItem.map f))) : Path.Alternates items := by
  match items with
  | [] => cases h
  | [.identifier t] => exact .identifier t
  | [.identifier t, .dot d] => exact .dot t d
  | .identifier t :: .dot d :: item :: items =>
    cases h with
    | more _ _ h => exact .more t d (alternates_of_map h)
  | .dot _ :: _ => cases h
  | .identifier _ :: .identifier _ :: _ => cases h

theorem lifts_import : Lifts f (Import.map f) Import.Written Import.Written := by
  rintro ⟨_, _, ⟨path⟩, _, items, _⟩ slots ⟨rfl, hp, hs⟩
  obtain ⟨_, _, rfl, h1, hclosing⟩ := mapSlots_eq_append_iff.1 hs
  obtain ⟨closing, rfl, rfl⟩ := mapSlots_eq_singleton_iff.1 hclosing
  obtain ⟨_, _, rfl, h2, h3⟩ := mapSlots_eq_append_iff.1 h1
  obtain ⟨keyword, _, rfl, rfl, hpath⟩ := mapSlots_eq_cons_iff.1 h2
  obtain ⟨path, rfl, rfl⟩ := lifts_pathItems path _ hpath
  obtain ⟨opening, _, rfl, rfl, hitems⟩ := mapSlots_eq_cons_iff.1 h3
  obtain ⟨items, rfl, rfl⟩ := lifts_flatMap lifts_importItem items _ hitems
  exact ⟨{ attributes := [], keyword, path := ⟨path⟩, opening, items, closing }, rfl, rfl,
    alternates_of_map hp, rfl⟩

theorem lifts_custom : Lifts f (Custom.map f)
    (fun c slots => c.attributes = [] ∧ slots = c.ownSlots)
    fun c slots => c.attributes = [] ∧ slots = c.ownSlots := by
  rintro ⟨_, _, _, _, type⟩ slots ⟨rfl, hs⟩
  obtain ⟨keyword, _, rfl, rfl, h1⟩ := mapSlots_eq_cons_iff.1 hs
  obtain ⟨name, _, rfl, rfl, h2⟩ := mapSlots_eq_cons_iff.1 h1
  obtain ⟨equals, _, rfl, rfl, h3⟩ := mapSlots_eq_cons_iff.1 h2
  obtain ⟨type, rfl, rfl⟩ := lifts_type type _ h3
  exact ⟨{ keyword, name, equals, type }, rfl, rfl, rfl⟩

theorem lifts_throws : Lifts f (Option.map (Throws.map f))
    (fun throws slots => slots = throws.elim [] Throws.slots)
    fun throws slots => slots = throws.elim [] Throws.slots := by
  rintro (_ | ⟨_, type⟩) slots h
  · exact ⟨none, rfl, mapSlots_eq_nil_iff.1 h⟩
  · obtain ⟨keyword, _, rfl, rfl, htype⟩ := mapSlots_eq_cons_iff.1 h
    obtain ⟨type, rfl, rfl⟩ := lifts_type type _ htype
    exact ⟨some { keyword, type }, rfl, rfl⟩

theorem lifts_proc : Lifts f (Proc.map f) (fun p slots => p.attributes = [] ∧ slots = p.ownSlots)
    fun p slots => p.attributes = [] ∧ slots = p.ownSlots := by
  rintro ⟨_, _, _, _, input, _, output, throws⟩ slots ⟨rfl, hs⟩
  obtain ⟨_, _, rfl, h1, hthrows⟩ := mapSlots_eq_append_iff.1 hs
  obtain ⟨_, _, rfl, h2, h3⟩ := mapSlots_eq_append_iff.1 h1
  obtain ⟨keyword, _, rfl, rfl, h4⟩ := mapSlots_eq_cons_iff.1 h2
  obtain ⟨name, _, rfl, rfl, h5⟩ := mapSlots_eq_cons_iff.1 h4
  obtain ⟨equals, _, rfl, rfl, hinput⟩ := mapSlots_eq_cons_iff.1 h5
  obtain ⟨input, rfl, rfl⟩ := lifts_type input _ hinput
  obtain ⟨arrow, _, rfl, rfl, houtput⟩ := mapSlots_eq_cons_iff.1 h3
  obtain ⟨output, rfl, rfl⟩ := lifts_type output _ houtput
  obtain ⟨throws, rfl, rfl⟩ := lifts_throws throws _ hthrows
  exact ⟨{ keyword, name, equals, input, arrow, output, throws }, rfl, rfl, rfl⟩

theorem lifts_statement : Lifts f (Statement.map f) Statement.Written Statement.Written := by
  intro st slots h
  cases st with
  | imports node =>
    obtain ⟨node, rfl, h'⟩ := lifts_import node slots h
    exact ⟨.imports node, rfl, h'⟩
  | custom node =>
    obtain ⟨node, rfl, h'⟩ := lifts_custom node slots h
    exact ⟨.custom node, rfl, h'⟩
  | proc node =>
    obtain ⟨node, rfl, h'⟩ := lifts_proc node slots h
    exact ⟨.proc node, rfl, h'⟩
  | enum node =>
    obtain ⟨node, rfl, h'⟩ := lifts_declaration lifts_word node slots h
    exact ⟨.enum node, rfl, h'⟩
  | oneof node =>
    obtain ⟨node, rfl, h'⟩ := lifts_declaration lifts_type node slots h
    exact ⟨.oneof node, rfl, h'⟩
  | struct node =>
    obtain ⟨node, rfl, h'⟩ := lifts_declaration lifts_structField node slots h
    exact ⟨.struct node, rfl, h'⟩
  | union node =>
    obtain ⟨node, rfl, h'⟩ := lifts_declaration lifts_variant node slots h
    exact ⟨.union node, rfl, h'⟩

theorem lifts_document : Lifts f (Document.map f) Document.Written Document.Written := by
  rintro ⟨_, _⟩ slots h
  obtain ⟨attributes, statements, rfl, rfl, hb⟩ := lifts_block lifts_statement h
  exact ⟨{ attributes, statements }, rfl, hb⟩

end SchemaText
