import SchemaText.Proofs.ArrangedTree
import SchemaText.Proofs.Tree.Introducer

/-!
Attributes of a parsed tree are attached to the nodes that they are written for.
-/
namespace SchemaText

open Phrase (block)
open Grammar (introducer Lexical Spells)

variable {d : Document Span} {text : List Char} {g : Holder} {a : Attribute Span}

/-- The attributes that are written in a text are those of a tree, each of them is attached to one
node, and to the right one. A node without a `lead` holds only inner attributes and one without a
`room` only outer ones. -/
structure Attached (text : List Char) (d : Document Span) : Prop where
  lossless : Lossless text d
  /-- No attribute is attached to two nodes, or twice to one. -/
  distinct : (d.allAttributes.map Attribute.symbol).Nodup
  written : ∀ t ∈ d.spans, ∀ kind : AttributeKind,
    slice? t.start t.stop text = some kind.symbol.toList ↔
      ∃ a ∈ d.allAttributes, a.kind = kind ∧ a.symbol = t
  /-- An outer attribute stands in front of its node, with nothing but attributes in between. -/
  outer : ∀ g ∈ d.holders, ∀ a ∈ g.attributes, a.kind = .outer → ∃ lead ∈ g.lead,
    a.span.stop ≤ lead.start ∧ ∀ t ∈ d.spans, a.span.stop ≤ t.start → t.stop ≤ lead.start →
      ∃ b ∈ d.allAttributes, t ∈ b.tokens
  /-- An inner attribute stands in the innermost block around it, which is that of its node. The
  room of a document is in no block: its attributes have none around them. -/
  inner : ∀ g ∈ d.holders, ∀ a ∈ g.attributes, a.kind = .inner → ∃ room ∈ g.room,
    room.containsSpan a.span ∧ ∀ opening inside closing,
      (block opening inside closing).OccursIn d.phrases →
      (opening.between closing).containsSpan a.span →
        (opening.between closing).containsSpan room
  sorted : ∀ g ∈ d.holders, g.attributes.Pairwise fun a b =>
    a.span.stop ≤ b.span.start ∧ (a.kind = .inner → b.kind = .inner)

/-! ### Symbols -/

theorem eq_introducer_of_spells {pattern : Pattern} {kind : AttributeKind} (hl : Lexical pattern)
    (h : Spells pattern kind.symbol.toList) : pattern = introducer kind := by
  match pattern with
  | .literal t =>
    have ht : kind.symbol.toList = t.toList := h
    rw [introducer, String.toList_inj.1 ht]
  | .keyword t =>
    have ht : kind.symbol.toList = t.toList := h
    have hword : Grammar.IsWord kind.symbol.toList := ht ▸ hl
    cases kind <;> exact absurd hword (by decide)
  | .token cls =>
    rcases h with ⟨-, hword⟩ | ⟨-, ⟨line, hline, -⟩ | hbars | hbars⟩
    · cases kind <;> exact absurd hword (by decide)
    · cases kind <;> simp [AttributeKind.symbol] at hline
    · cases kind <;> exact absurd hbars.bar_mem (by decide)
    · cases kind <;> exact absurd hbars.bar_mem (by decide)

theorem introducer_injective {kind kind' : AttributeKind} (h : introducer kind = introducer kind') :
    kind = kind' := by
  revert h
  cases kind <;> cases kind' <;> decide

/-- A slot of an introducer is that of an attribute. -/
theorem mem_slots_introducer {kind : AttributeKind} {t : Span} :
    (introducer kind, t) ∈ d.slots ↔ ∃ a ∈ d.allAttributes, a.kind = kind ∧ a.symbol = t := by
  have hkind : isIntroducer (introducer kind) = true := by
    cases kind <;> decide
  have hfilter : (introducer kind, t) ∈ d.slots ↔
      (introducer kind, t) ∈ d.allAttributes.map Attribute.introducerSlot := by
    rw [← introduces_document d, List.mem_filter]
    simp [hkind]
  rw [hfilter, List.mem_map]
  constructor
  · intro ⟨a, ha, heq⟩
    obtain ⟨hintro, hsymbol⟩ := Prod.mk.inj heq
    exact ⟨a, ha, introducer_injective hintro, hsymbol⟩
  · intro ⟨a, ha, hk, hsymbol⟩
    exact ⟨a, ha, by rw [Attribute.introducerSlot, hk, hsymbol]⟩

theorem mem_tokens_iff_mem_spans {t : Span} : t ∈ d.tokens ↔ t ∈ d.spans :=
  (List.mergeSort_perm ..).mem_iff.symm

/-- Symbols are tokens, and no token is there twice. -/
theorem nodup_symbols (hasc : Ascending d.spans) :
    (d.allAttributes.map Attribute.symbol).Nodup := by
  have hspans : d.spans.Nodup := by
    refine hasc.1.imp_of_mem fun hs _ hle heq => ?_
    have hlt := hasc.2 _ hs
    rw [← heq] at hle
    omega
  have htokens : d.tokens.Nodup := (List.mergeSort_perm ..).nodup_iff.1 hspans
  have hsymbols : d.allAttributes.map Attribute.symbol =
      (d.slots.filter fun slot => isIntroducer slot.1).map Prod.snd := by
    rw [introduces_document d, List.map_map]
    rfl
  rw [hsymbols]
  refine htokens.sublist ?_
  rw [← Document.map_snd_slots]
  exact List.filter_sublist.map _

theorem slice?_eq_symbol_iff (h : Lossless text d) (hl : ∀ slot ∈ d.slots, Lexical slot.1)
    {t : Span} (ht : t ∈ d.spans) {kind : AttributeKind} :
    slice? t.start t.stop text = some kind.symbol.toList ↔
      ∃ a ∈ d.allAttributes, a.kind = kind ∧ a.symbol = t := by
  rw [← mem_slots_introducer]
  constructor
  · intro hslice
    rw [← mem_tokens_iff_mem_spans, h.tokens_eq] at ht
    obtain ⟨⟨pattern, t⟩, hslot, rfl⟩ := List.mem_map.1 ht
    obtain ⟨x, hx, hspells⟩ := h.spelled _ hslot
    obtain rfl := Option.some.inj (hx.symm.trans hslice)
    have hpattern : pattern = introducer kind := eq_introducer_of_spells (hl _ hslot) hspells
    exact hpattern ▸ hslot
  · intro hslot
    obtain ⟨x, hx, hspells⟩ := h.spelled _ hslot
    have hsymbol : x = kind.symbol.toList := hspells
    rw [hx, hsymbol]

/-! ### Places -/

/-- No token of an attribute lies behind it. -/
theorem stop_le_of_mem_tokens (h : Ascending a.tokens) {t : Span} (ht : t ∈ a.tokens) :
    t.stop ≤ a.span.stop := by
  have hpart : Phrase.token t ∈ a.phrase.parts := by
    have hparts : a.phrase.parts = a.tokens.map Phrase.token := rfl
    rw [hparts]
    exact List.mem_map_of_mem ht
  exact ((Arranges.nested_attribute h).contains_of_mem hpart).2

/-- From an attribute to the token behind the rest of its run there is nothing but that. -/
theorem mem_run_of_between {before after : List Span} {run : List (Attribute Span)} {lead : Span}
    (hasc : Ascending (before ++ a.tokens ++ run.flatMap Attribute.tokens ++ lead :: after)) :
    a.span.stop ≤ lead.start ∧
      ∀ t ∈ before ++ a.tokens ++ run.flatMap Attribute.tokens ++ lead :: after,
        a.span.stop ≤ t.start → t.stop ≤ lead.start → t ∈ run.flatMap Attribute.tokens := by
  obtain ⟨hfirst, hrest, hcross⟩ := ascending_append.1 hasc
  obtain ⟨-, htokens, hbefore⟩ := ascending_append.1 (ascending_append.1 hfirst).1
  obtain ⟨hlt, ⟨s, hs, hstart⟩, u, hu, hstop⟩ := Arranges.within_attribute htokens
  have hlead := hcross u (by simp [hu]) lead (by simp)
  refine ⟨by omega, fun t ht hle hle' => ?_⟩
  have hpos := hasc.2 t ht
  rcases List.mem_append.1 ht with ht | ht
  · rcases List.mem_append.1 ht with ht | ht
    · rcases List.mem_append.1 ht with ht | ht
      · have := hbefore t ht s hs
        omega
      · have := stop_le_of_mem_tokens htokens ht
        omega
    · exact ht
  · rcases List.mem_cons.1 ht with rfl | ht
    · omega
    · have := (List.pairwise_cons.1 hrest.1).1 t ht
      have := hrest.2 lead (by simp)
      omega

/-- A block has all that is between its brackets in it. -/
theorem not_apart_of_between {opening closing e : Span} {inside : List Phrase} {p : Phrase}
    (hn : p.Nested) (hb : (block opening inside closing).Occurs p) (hlt : e.start < e.stop)
    (hin : (opening.between closing).containsSpan e) : ¬ e.Apart p.span := by
  have hroom := (hn.of_occurs hb).contains_room
  have hcontains := hn.contains hb
  obtain ⟨hstart, hstop⟩ := containsSpan_iff.1 hin
  simp only [Span.between] at hstart hstop
  intro hapart
  rcases hapart with hapart | hapart <;> omega

section

variable (hasc : Ascending d.spans)
  (h : Arranged d.spans d.phrases (d.statements.flatMap Statement.holders) d.attributes)
include h

include hasc in
theorem between_outer (hg : g ∈ d.holders) (ha : a ∈ g.attributes) (hkind : a.kind = .outer) :
    ∃ lead ∈ g.lead, a.span.stop ≤ lead.start ∧ ∀ t ∈ d.spans, a.span.stop ≤ t.start →
      t.stop ≤ lead.start → ∃ b ∈ d.allAttributes, t ∈ b.tokens := by
  rcases List.mem_cons.1 hg with rfl | hg
  · exact (AttributeKind.inner_ne_outer (h.inner a ha) hkind).elim
  obtain ⟨lead, hlead, before, run, after, hts, hrun⟩ := (h.sits g hg).outer a ha hkind
  rw [hts] at hasc ⊢
  obtain ⟨hle, hbetween⟩ := mem_run_of_between hasc
  refine ⟨lead, hlead, hle, fun t ht hstart hstop => ?_⟩
  obtain ⟨b, hb, htb⟩ := List.mem_flatMap.1 (hbetween t ht hstart hstop)
  exact ⟨b, mem_allAttributes.2 (hrun hb), htb⟩

theorem innermost_inner (hmax : ∀ t ∈ d.spans, t.stop ≤ maxOffset) (hg : g ∈ d.holders)
    (ha : a ∈ g.attributes) (hkind : a.kind = .inner) : ∃ room ∈ g.room,
    room.containsSpan a.span ∧ ∀ opening inside closing,
      (block opening inside closing).OccursIn d.phrases →
      (opening.between closing).containsSpan a.span →
        (opening.between closing).containsSpan room := by
  obtain ⟨room, hroom, hin⟩ := h.contains_of_room hmax hg ha hkind
  refine ⟨room, hroom, hin, fun opening inside closing hblock hbetween => ?_⟩
  have ⟨p, hp, hbp⟩ := hblock
  have hn := (h.nested p hp).of_occurs hbp
  rcases List.mem_cons.1 hg with rfl | hg
  · have hlt := (h.attributes a (mem_held.2 (.inr ha))).1
    exact absurd (h.beside a ha p hp) (not_apart_of_between (h.nested p hp) hbp hlt hbetween)
  · obtain ⟨opening', inside', closing', hroom', hb, hhouses⟩ := (h.sits g hg).inner a ha hkind
    obtain rfl := Option.some.inj (hroom'.symm.trans hroom)
    rcases hhouses.occurs_or_apart_of_mem h.inOrder h.nested hb hblock with hocc | hapart
    · exact containsSpan_iff.2 (hocc.room_le hn)
    · exact absurd hapart (not_apart_of_between hn .self hhouses.1 hbetween)

end

theorem lexical_slots_of_parse {source : String} {options : Options}
    (h : parse source options = .ok d) : ∀ slot ∈ d.slots, Lexical slot.1 := by
  obtain ⟨t, slots, e, rfl, ht, hr, -⟩ := exists_reads_of_parse h
  have hwritten := (Document.readable_iff.1 ht).1.map Token.span
  intro slot hslot
  exact hwritten.orderly.lexical slot (hwritten.perm.mem_iff.2 hslot)

/-- However attributes of both kinds are mixed, each of them comes to the node that it is written
for, in the order in which they are written. -/
theorem attached_of_parse {source : String} {options : Options}
    (h : parse source options = .ok d) : Attached source.toList d := by
  obtain ⟨hasc, hmax, harr⟩ := arranged_of_parse h
  obtain ⟨t, slots, e, rfl, ht, hr, he⟩ := exists_reads_of_parse h
  have hlossless := lossless_of_reads (Document.readable_iff.1 ht).1 hr he
  constructor
  case lossless => exact hlossless
  case distinct => exact nodup_symbols hasc
  case written =>
    intro t ht kind
    exact slice?_eq_symbol_iff hlossless (lexical_slots_of_parse h) ht
  case outer => exact fun g hg a ha hkind => between_outer hasc harr hg ha hkind
  case inner => exact fun g hg a ha hkind => innermost_inner harr hmax hg ha hkind
  case sorted =>
    intro g hg
    rcases List.mem_cons.1 hg with rfl | hg
    · exact harr.sorted.imp_of_mem fun _ hb hle => ⟨hle, fun _ => harr.inner _ hb⟩
    · exact (harr.sits g hg).sorted

theorem attached_union : Attached "@a #b union U \x7b V (#c @d x: T) \x7d".toList
    { attributes := [⟨.inner, ⟨3, 4⟩, ⟨4, 5⟩, none⟩],
      statements := [.union {
        attributes := [⟨.outer, ⟨0, 1⟩, ⟨1, 2⟩, none⟩],
        keyword := ⟨6, 11⟩, name := ⟨12, 13⟩, opening := ⟨14, 15⟩,
        entries := [{
          content := {
            name := ⟨16, 17⟩,
            body := some {
              attributes := [⟨.inner, ⟨19, 20⟩, ⟨20, 21⟩, none⟩], opening := ⟨18, 19⟩,
              fields := [{
                attributes := [⟨.outer, ⟨22, 23⟩, ⟨23, 24⟩, none⟩],
                content := ⟨⟨25, 26⟩, none, ⟨26, 27⟩, ⟨⟨28, 29⟩, none⟩⟩, comma := none }],
              closing := ⟨29, 30⟩ } },
          comma := none }],
        closing := ⟨31, 32⟩ }] } :=
  attached_of_parse
    (show parse "@a #b union U \x7b V (#c @d x: T) \x7d" {} = .ok _ by decide +kernel)

end SchemaText
