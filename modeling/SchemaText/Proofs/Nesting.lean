import SchemaText.Proofs.ArrangedTree

/-!
The nodes of a parsed tree are nested in its source in the order of the grammar.
-/
namespace SchemaText

open Phrase (token InOrder)

variable {d : Document Span}

/-- The range of a node of a tree, or of an inner attribute. -/
def Document.IsExtent (d : Document Span) (e : Span) : Prop :=
  (∃ q : Phrase, q.OccursIn d.phrases ∧ e = q.span) ∨
    ∃ a ∈ d.allAttributes, a.kind = .inner ∧ e = a.span

/-- A tree lies in its source as it is nested. The parts of a phrase are the tokens of its node and
the children, in the order of the grammar. -/
structure Document.WellNested (d : Document Span) : Prop where
  statements : d.statements.Pairwise fun s t => s.span.stop ≤ t.span.start
  /-- The statements with the attributes in front of them. -/
  inOrder : InOrder d.phrases
  nested : ∀ p ∈ d.phrases, p.Nested
  inside : ∀ r : Phrase, r.OccursIn d.phrases → ∀ p ∈ r.parts, r.span.containsSpan p.span
  attributes : ∀ a ∈ d.allAttributes, a.phrase.Nested
  /-- Only inner attributes are left out of the order of the grammar. -/
  told : ∀ t ∈ d.spans, (token t).OccursIn d.phrases ∨
    ∃ a ∈ d.allAttributes, a.kind = .inner ∧ t ∈ a.tokens
  /-- Those lie between the brackets of the block that holds them, or anywhere in the source for the
  document. -/
  room : ∀ h ∈ d.holders, ∀ a ∈ h.attributes, a.kind = .inner →
    ∃ room ∈ h.room, room.containsSpan a.span
  laminar : ∀ e f, d.IsExtent e → d.IsExtent f →
    e.containsSpan f ∨ f.containsSpan e ∨ e.Apart f

section

variable (h : Arranged d.spans d.phrases (d.statements.flatMap Statement.holders) d.attributes)
include h

theorem statements_inOrder : d.statements.Pairwise fun s t => s.span.stop ≤ t.span.start := by
  have hphrases := (List.pairwise_flatMap.1 h.inOrder).2
  refine hphrases.imp fun hst => ?_
  exact hst _ (List.mem_append_right _ (List.mem_singleton_self _)) _
    (List.mem_append_right _ (List.mem_singleton_self _))

theorem laminar_phrases {p q : Phrase} (hp : p.OccursIn d.phrases) (hq : q.OccursIn d.phrases) :
    p.span.containsSpan q.span ∨ q.span.containsSpan p.span ∨ p.span.Apart q.span := by
  refine h.inOrder.occurs_cases h.nested hp hq (fun r hr hpr hqr => ?_)
    fun hapart => .inr (.inr hapart)
  have hr := h.nested r hr
  rcases hr.occurs_or_apart hpr hqr with (hpq | hqp) | hapart
  · exact .inr (.inl (containsSpan_iff.2 ((hr.of_occurs hqr).contains hpq)))
  · exact .inl (containsSpan_iff.2 ((hr.of_occurs hpr).contains hqp))
  · exact .inr (.inr hapart)

theorem laminar_extents {e f : Span} (he : d.IsExtent e) (hf : d.IsExtent f) :
    e.containsSpan f ∨ f.containsSpan e ∨ e.Apart f := by
  rcases he with ⟨p, hp, rfl⟩ | ⟨a, ha, hkind, rfl⟩
  · rcases hf with ⟨q, hq, rfl⟩ | ⟨b, hb, hkind, rfl⟩
    · exact laminar_phrases h hp hq
    · rcases h.contains_or_apart (mem_allAttributes.1 hb) hkind hp with hin | hapart
      · exact .inl (containsSpan_iff.2 hin)
      · exact .inr (.inr hapart.symm)
  · rcases hf with ⟨q, hq, rfl⟩ | ⟨b, hb, -, rfl⟩
    · rcases h.contains_or_apart (mem_allAttributes.1 ha) hkind hq with hin | hapart
      · exact .inr (.inl (containsSpan_iff.2 hin))
      · exact .inr (.inr hapart)
    · rcases h.apart a (mem_allAttributes.1 ha) b (mem_allAttributes.1 hb) with rfl | hapart
      · exact .inl (containsSpan_iff.2 ⟨Nat.le_refl _, Nat.le_refl _⟩)
      · exact .inr (.inr hapart)

end

/-- Parsing keeps the order and the nesting of what is written: no token of a node is taken for
another one. -/
theorem wellNested_of_parse {source : String} {options : Options}
    (h : parse source options = .ok d) : d.WellNested := by
  obtain ⟨-, hmax, harr⟩ := arranged_of_parse h
  constructor
  case statements => exact statements_inOrder harr
  case inOrder => exact harr.inOrder
  case nested => exact harr.nested
  case inside =>
    intro r ⟨p, hp, hr⟩ q hq
    exact containsSpan_iff.2 (((harr.nested p hp).of_occurs hr).contains_of_mem hq)
  case attributes => exact fun a ha => harr.phrased a (mem_allAttributes.1 ha)
  case told =>
    intro t ht
    rcases harr.told t ht with hocc | ⟨a, ha, hat⟩
    · exact .inl hocc
    · exact .inr ⟨a, mem_allAttributes.2 ha, hat⟩
  case room => exact fun g hg a ha hkind => harr.contains_of_room hmax hg ha hkind
  case laminar => exact fun e f he hf => laminar_extents harr he hf

theorem wellNested_proc : Document.WellNested
    { attributes := [⟨.inner, ⟨3, 4⟩, ⟨4, 5⟩, none⟩],
      statements := [.proc {
        attributes := [⟨.outer, ⟨0, 1⟩, ⟨1, 2⟩, none⟩],
        keyword := ⟨6, 10⟩, name := ⟨11, 12⟩, equals := ⟨13, 14⟩,
        input := ⟨⟨15, 16⟩, some ⟨⟨16, 17⟩, some ⟨17, 18⟩, ⟨18, 19⟩⟩⟩, arrow := ⟨20, 22⟩,
        output := ⟨⟨23, 24⟩, none⟩, throws := some ⟨⟨25, 31⟩, ⟨⟨32, 33⟩, none⟩⟩ }] } :=
  wellNested_of_parse
    (show parse "@a #b proc P = X[Y] -> Z throws W" {} = .ok _ by decide +kernel)

end SchemaText
