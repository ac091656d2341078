import SchemaText.Proofs.Extent
import SchemaText.Proofs.Tree.Nodes

/-!
What is found at an offset of a parsed source: the one statement there, and the name of a type.
-/
namespace SchemaText

variable {d : Document Span} {st : Statement Span} {slots : List (Slot Span)} {offset i : Nat}
  {span : Span} {t : TypeExpression Span}

/-- The names in a type. -/
def TypeExpression.names {τ : Type} (t : TypeExpression τ) : List τ :=
  t.valueType :: (t.container.bind (·.keyType)).toList

theorem Span.contains_iff {s : Span} : s.contains offset ↔ s.start ≤ offset ∧ offset < s.stop := by
  simp [Span.contains]

/-! ### Statements one behind the other -/

theorem Statement.mem_spans {u : Span} : u ∈ st.spans ↔ u ∈ st.outline.tokens := by
  simp [Statement.spans, Document.spans, Span.sort, Document.tokens, Document.outline,
    attributeSlots]

/-- The extent of a statement goes from one of its tokens to another one, and all of its tokens are
between them. -/
theorem exists_ends_of_written (h : d.Written slots) (hasc : Ascending (tokensIn slots))
    (hst : st ∈ d.statements) : ∃ first ∈ st.outline.tokens, ∃ last ∈ st.outline.tokens,
      st.extent = ⟨first.start, last.stop⟩ ∧
      ∀ u ∈ st.outline.tokens, first.start ≤ u.start ∧ u.start < u.stop ∧ u.stop ≤ last.stop := by
  obtain ⟨p, htokens, rfl, -⟩ := h.exists_site hst
  rw [htokens] at hasc
  have hstretch := (Site.ascending_iff.1 hasc).1.2.1
  obtain ⟨first, last, hfirst, hlast, -⟩ := Site.exists_ends hstretch
  have hfirst' := (Site.head?_spans hstretch).trans hfirst
  have hlast' := (Site.getLast?_spans hstretch).trans hlast
  refine ⟨first, Statement.mem_spans.1 (List.mem_of_head? hfirst'), last,
    Statement.mem_spans.1 (List.mem_of_getLast? hlast'),
    p.written.extent_eq p.head hstretch hfirst hlast, ?_⟩
  intro u hu
  have hu' : u ∈ p.stretch := by
    rw [(Site.stretch_perm hstretch).mem_iff]
    exact List.mem_append_left _ (Statement.mem_spans.2 hu)
  exact ⟨hstretch.start_le hfirst hu', hstretch.2 u hu', hstretch.le_stop hlast hu'⟩

/-- The tokens of a statement stand in the chunk that it is made from. -/
theorem Chunk.tokens_subset {c : Chunk Span (Statement Span)} (h : c.node.Written c.slots) :
    c.result.outline.tokens ⊆ tokensIn c.written := by
  intro u hu
  rw [tokens_statement] at hu
  have hperm := (Chunk.perm_written h.perm).map Prod.snd
  refine hperm.mem_iff.2 ?_
  rw [List.map_append]
  exact List.mem_append_right _ hu

theorem tokens_inOrder (h : d.Written slots) (hasc : Ascending (tokensIn slots)) :
    d.statements.Pairwise fun s t =>
      ∀ u ∈ s.outline.tokens, ∀ v ∈ t.outline.tokens, u.stop ≤ v.start := by
  obtain ⟨chunks, last, hc, -, -, hstatements, rfl⟩ := h
  rw [tokensIn_append] at hasc
  have hchunks := (ascending_append.1 hasc).1.1
  rw [tokensIn, List.map_flatMap] at hchunks
  rw [hstatements, List.pairwise_map]
  refine (List.pairwise_flatMap.1 hchunks).2.imp_of_mem ?_
  intro c c' hmem hmem' hle u hu v hv
  exact hle u (Chunk.tokens_subset (hc c hmem) hu) v (Chunk.tokens_subset (hc c' hmem') hv)

/-- The extents of the statements lie one behind the other, each of them around its tokens. -/
structure Document.InRow (d : Document Span) : Prop where
  lt : ∀ s ∈ d.statements, s.extent.start < s.extent.stop
  inOrder : d.statements.Pairwise fun s t => s.extent.stop ≤ t.extent.start
  covers : ∀ s ∈ d.statements, ∀ u ∈ s.outline.tokens, s.extent.containsSpan u
  smallest : ∀ s ∈ d.statements, ∀ e : Span, (∀ u ∈ s.outline.tokens, e.containsSpan u) →
    e.containsSpan s.extent

theorem inRow_of_written (h : d.Written slots) (hasc : Ascending (tokensIn slots)) : d.InRow := by
  have hends := fun s (hs : s ∈ d.statements) => exists_ends_of_written h hasc hs
  constructor
  case lt =>
    intro s hs
    obtain ⟨first, hfirst, last, -, hextent, hin⟩ := hends s hs
    obtain ⟨-, hlt, hle⟩ := hin first hfirst
    rw [hextent]
    exact Nat.lt_of_lt_of_le hlt hle
  case inOrder =>
    refine (tokens_inOrder h hasc).imp_of_mem ?_
    intro s t hs ht hle
    obtain ⟨_, -, last, hlast, hextent, -⟩ := hends s hs
    obtain ⟨first, hfirst, _, -, hextent', -⟩ := hends t ht
    rw [hextent, hextent']
    exact hle last hlast first hfirst
  case covers =>
    intro s hs u hu
    obtain ⟨first, -, last, -, hextent, hin⟩ := hends s hs
    obtain ⟨hstart, -, hstop⟩ := hin u hu
    rw [hextent]
    exact containsSpan_iff.2 ⟨hstart, hstop⟩
  case smallest =>
    intro s hs e he
    obtain ⟨first, hfirst, last, hlast, hextent, -⟩ := hends s hs
    have hstart := (containsSpan_iff.1 (he first hfirst)).1
    have hstop := (containsSpan_iff.1 (he last hlast)).2
    rw [hextent]
    exact containsSpan_iff.2 ⟨hstart, hstop⟩

/-! ### Lookups -/

theorem Document.InRow.stop_le (h : d.InRow) {s t : Statement Span} {i j : Nat}
    (hi : d.statements[i]? = some s) (hj : d.statements[j]? = some t) (hlt : i < j) :
    s.extent.stop ≤ t.extent.start := by
  obtain ⟨hi', rfl⟩ := List.getElem?_eq_some_iff.1 hi
  obtain ⟨hj', rfl⟩ := List.getElem?_eq_some_iff.1 hj
  exact List.pairwise_iff_getElem.1 h.inOrder i j hi' hj' hlt

theorem Document.InRow.index_unique (h : d.InRow) {s t : Statement Span} {i j : Nat}
    (hi : d.statements[i]? = some s) (hj : d.statements[j]? = some t)
    (hs : s.extent.contains offset) (ht : t.extent.contains offset) : i = j := by
  rw [Span.contains_iff] at hs ht
  rcases Nat.lt_trichotomy i j with hlt | heq | hlt
  · have hle := h.stop_le hi hj hlt
    omega
  · exact heq
  · have hle := h.stop_le hj hi hlt
    omega

theorem of_statementAt? (h : d.statementAt? offset = some (i, st)) :
    d.statements[i]? = some st ∧ st.extent.contains offset := by
  rw [Document.statementAt?, Option.map_eq_some_iff] at h
  obtain ⟨⟨s, j⟩, hfound, hswap⟩ := h
  cases hswap
  have hcontains := List.find?_some hfound
  exact ⟨List.mem_zipIdx_iff_getElem?.1 (List.mem_of_find?_eq_some hfound), hcontains⟩

/-- At an offset there is one statement at most, so that the first one found is the only one. -/
theorem statementAt?_eq_some_iff (h : d.InRow) : d.statementAt? offset = some (i, st) ↔
    d.statements[i]? = some st ∧ st.extent.contains offset := by
  refine ⟨of_statementAt?, ?_⟩
  rintro ⟨hi, hcontains⟩
  have hsome : (d.statementAt? offset).isSome := by
    rw [Document.statementAt?, Option.isSome_map, List.find?_isSome]
    exact ⟨(st, i), List.mem_zipIdx_iff_getElem?.2 hi, hcontains⟩
  obtain ⟨⟨j, s⟩, hj⟩ := Option.isSome_iff_exists.1 hsome
  obtain ⟨hs, hcontains'⟩ := of_statementAt? hj
  obtain rfl := h.index_unique hs hi hcontains' hcontains
  rw [hj, ← Option.some.inj (hs.symm.trans hi)]

theorem nameAt?_eq_some (h : t.nameAt? offset = some span) :
    span ∈ t.names ∧ span.contains offset := by
  rw [TypeExpression.nameAt?] at h
  split at h
  next hvalue =>
    cases h
    exact ⟨List.mem_cons_self, hvalue⟩
  next =>
    obtain ⟨hkey, hcontains⟩ := Option.filter_eq_some_iff.1 h
    exact ⟨List.mem_cons_of_mem _ (Option.mem_toList.2 hkey), hcontains⟩

theorem isSome_nameAt? (hspan : span ∈ t.names) (hcontains : span.contains offset) :
    (t.nameAt? offset).isSome := by
  rw [TypeExpression.nameAt?]
  split
  next => rfl
  next hvalue =>
    rcases List.mem_cons.1 hspan with rfl | hkey
    · exact absurd hcontains hvalue
    · rw [Option.mem_toList.1 hkey]
      simp [hcontains]

theorem names_subset (t : TypeExpression Span) : t.names ⊆ t.outline.tokens := by
  intro u hu
  obtain ⟨value, _ | ⟨opening, key, closing⟩⟩ := t
  · simpa [TypeExpression.names, TypeExpression.outline] using hu
  · rcases List.mem_cons.1 hu with rfl | hkey
    · simp [TypeExpression.outline]
    · have hkey : u ∈ key.toList := hkey
      simp only [TypeExpression.outline, Outline.tokens_node, Outline.tokensOf_cons,
        Option.elim_some, List.cons_append, Outline.tokensOf_append, Outline.tokensOf_ofOption,
        Outline.tokens_token, List.nil_append, List.mem_cons, List.mem_append]
      exact .inr (.inr (.inl hkey))

theorem eq_of_contains {u v : Span} (hasc : Ascending d.spans) (hu : u ∈ d.spans) (hv : v ∈ d.spans)
    (hcu : u.contains offset) (hcv : v.contains offset) : u = v := by
  rw [Span.contains_iff] at hcu hcv
  rcases eq_or_apart_of_pairwise (f := id) hasc.1 hu hv with h | h
  · exact h
  · rcases h with h | h
    · simp only [id] at h
      omega
    · simp only [id] at h
      omega

/-- A type that a walk enters is one of a statement. -/
theorem mem_nodes_iff : t.outline ∈ d.outline.nodes .typeExpression ↔
    ∃ s ∈ d.statements, t ∈ s.types := by
  rw [nodes_document, List.mem_map_of_injective TypeExpression.outline_injective, List.mem_flatMap]

theorem mem_spans_of_mem_names (ht : t.outline ∈ d.outline.nodes .typeExpression)
    (hspan : span ∈ t.names) : span ∈ d.spans := by
  rw [Document.spans, Span.sort, List.mem_mergeSort]
  exact Outline.tokens_subset ht (names_subset t hspan)

theorem of_typeAt? (h : d.typeAt? offset = some span) : ∃ t : TypeExpression Span,
    t.outline ∈ d.outline.nodes .typeExpression ∧ span ∈ t.names ∧ span.contains offset := by
  rw [Document.typeAt?, Option.bind_eq_bind, Option.bind_eq_some_iff] at h
  obtain ⟨⟨i, s⟩, hs, hspan⟩ := h
  obtain ⟨t, ht, hname⟩ := List.exists_of_findSome?_eq_some hspan
  obtain ⟨hi, -⟩ := of_statementAt? hs
  exact ⟨t, mem_nodes_iff.2 ⟨s, List.mem_of_getElem? hi, ht⟩, nameAt?_eq_some hname⟩

/-- The extent of a statement is around the names in its types. -/
theorem Document.InRow.contains_of_mem_names (h : d.InRow) (hst : st ∈ d.statements)
    (ht : t ∈ st.types) (hspan : span ∈ t.names) (hcontains : span.contains offset) :
    st.extent.contains offset := by
  have hnode : t.outline ∈ st.outline.nodes .typeExpression := by
    rw [nodes_statement]
    exact List.mem_map_of_mem ht
  have htoken := Outline.tokens_subset hnode (names_subset t hspan)
  obtain ⟨hstart, hstop⟩ := containsSpan_iff.1 (h.covers st hst span htoken)
  rw [Span.contains_iff] at hcontains ⊢
  omega

/-- Only the statement at the offset is searched, but what is found is the one name there among all
types of the document. -/
theorem typeAt?_eq_some_iff (h : d.InRow) (hasc : Ascending d.spans) :
    d.typeAt? offset = some span ↔ ∃ t : TypeExpression Span,
      t.outline ∈ d.outline.nodes .typeExpression ∧ span ∈ t.names ∧ span.contains offset := by
  refine ⟨of_typeAt?, ?_⟩
  rintro ⟨t, ht, hspan, hcontains⟩
  obtain ⟨s, hs, hts⟩ := mem_nodes_iff.1 ht
  obtain ⟨i, hi⟩ := List.getElem?_of_mem hs
  have hstatement : d.statementAt? offset = some (i, s) :=
    (statementAt?_eq_some_iff h).2 ⟨hi, h.contains_of_mem_names hs hts hspan hcontains⟩
  have hsome : (d.typeAt? offset).isSome := by
    rw [Document.typeAt?, hstatement, Option.bind_eq_bind, Option.bind_some,
      List.findSome?_isSome_iff]
    exact ⟨t, hts, isSome_nameAt? hspan hcontains⟩
  obtain ⟨u, hu⟩ := Option.isSome_iff_exists.1 hsome
  obtain ⟨t', ht', hspan', hcontains'⟩ := of_typeAt? hu
  -- The names are tokens of the source, and these do not meet.
  have hmem := mem_spans_of_mem_names ht hspan
  have hmem' := mem_spans_of_mem_names ht' hspan'
  rw [hu, eq_of_contains hasc hmem' hmem hcontains' hcontains]

/-- What is found at an offset is what stands there. -/
structure Document.FindsAll (d : Document Span) : Prop where
  row : d.InRow
  statement : ∀ offset i s, d.statementAt? offset = some (i, s) ↔
    d.statements[i]? = some s ∧ s.extent.contains offset
  /-- A walk announces a type expression for each of the nodes, and goes through it. -/
  announced : (d.walk []).countP (·.enters .typeExpression) =
    (d.outline.nodes .typeExpression).length
  visited : ∀ n ∈ d.outline.nodes .typeExpression, n.walk [] <:+: d.walk []
  types : ∀ n ∈ d.outline.nodes .typeExpression, ∃ t : TypeExpression Span, n = t.outline
  name : ∀ offset span, d.typeAt? offset = some span ↔ ∃ t : TypeExpression Span,
    t.outline ∈ d.outline.nodes .typeExpression ∧ span ∈ t.names ∧ span.contains offset

theorem findsAll_of_parse {source : String} {options : Options}
    (h : parse source options = .ok d) : d.FindsAll := by
  obtain ⟨hasc, -, -⟩ := arranged_of_parse h
  obtain ⟨slots, hwritten, hspans, -⟩ := exists_written_of_parse h
  have hrow : d.InRow := inRow_of_written hwritten (hspans ▸ hasc)
  constructor
  case row => exact hrow
  case statement => exact fun offset i s => statementAt?_eq_some_iff hrow
  case announced => exact Outline.countP_walk d.outline
  case visited => exact fun n hn => Outline.walk_isInfix d.outline hn
  case types =>
    intro n hn
    rw [nodes_document] at hn
    obtain ⟨t, -, rfl⟩ := List.mem_map.1 hn
    exact ⟨t, rfl⟩
  case name => exact fun offset span => typeAt?_eq_some_iff hrow hasc

theorem findsAll_custom : Document.FindsAll
    { attributes := [],
      statements := [.custom {
        attributes := [⟨.outer, ⟨0, 1⟩, ⟨1, 2⟩, none⟩],
        keyword := ⟨3, 9⟩, name := ⟨10, 11⟩, equals := ⟨12, 13⟩,
        type := ⟨⟨14, 15⟩, some ⟨⟨15, 16⟩, some ⟨16, 17⟩, ⟨17, 18⟩⟩⟩ }] } :=
  findsAll_of_parse (show parse "@a custom C = X[Y]" {} = .ok _ by decide +kernel)

end SchemaText
