import Mathlib.Data.List.Flatten
import SchemaText.Proofs.ArrangedTree
import SchemaText.Proofs.Tree.Extent

/-!
What lies in the extent of a statement: its own tokens, and those of the inner attributes of the
document that are written between its outer attributes and its keyword.
-/
namespace SchemaText

variable {d : Document Span} {st : Statement Span} {slots : List (Slot Span)} {s e : Place}
  {text front : List Char} {a : Attribute Span} {run : List (Attribute Span)} {ts us : List Span}

/-- The tokens of a statement that is all of a document. -/
def Statement.spans (st : Statement Span) : List Span :=
  Document.spans { attributes := [], statements := [st] }

namespace Document

/-- The tokens that lie in a range. -/
def spansIn (d : Document Span) (range : Span) : List Span := d.spans.filter range.containsSpan

/-- The attributes of the document itself that lie in a range. -/
def attributesIn (d : Document Span) (range : Span) : List (Attribute Span) :=
  d.attributes.filter (range.containsSpan ·.span)

end Document

/-- There is nothing but trivia from one token to the other. -/
def Adjoin (text : List Char) (s t : Span) : Prop :=
  ∃ gap, slice? s.stop t.start text = some gap ∧ ClosedTrivia gap

/-- The text of the extent of a statement is made up of tokens and the trivia between them. The
tokens are those of the statement and of attributes of the document. -/
structure Covered (text : List Char) (d : Document Span) (st : Statement Span) : Prop where
  ends : ∃ first last, st.spans.head? = some first ∧ st.spans.getLast? = some last ∧
    st.extent = ⟨first.start, last.stop⟩
  adjoin : (d.spansIn st.extent).IsChain (Adjoin text)
  tokens : (d.spansIn st.extent).Perm
    (st.spans ++ (d.attributesIn st.extent).flatMap Attribute.tokens)
  /-- An attribute of the document stands behind an outer attribute of the statement and in front
  of its keyword. -/
  foreign : ∀ a ∈ d.attributesIn st.extent, a.kind = .inner ∧ a.span.stop ≤ st.keyword.start ∧
    ∃ b ∈ HasAttributes.attributes st, b.kind = .outer ∧ b.span.stop ≤ a.span.start
  own : d.attributesIn st.extent = [] → d.spansIn st.extent = st.spans

/-! ### Trivia between tokens -/

theorem Reads.isChain {slots : List (Slot Token)} (hs : (Place.start text).Passes front s)
    (h : Reads s slots e) : (slots.map (·.2.span)).IsChain (Adjoin text) := by
  induction slots generalizing s front with
  | nil => exact .nil
  | cons slot slots ih =>
    obtain ⟨gap, x, q, hgap, -, hx, -, -, ht, hr⟩ := h.uncons
    have hq := (hs.trans hgap).trans hx
    rw [List.map_cons]
    refine (ih hq hr).cons fun t ht' => ?_
    cases slots with
    | nil => simp at ht'
    | cons slot' slots =>
      obtain ⟨gap', x', q', hgap', hclosed, -, -, -, ht'', -⟩ := hr.uncons
      obtain rfl : slot'.2.span = t := by simpa using ht'
      rw [Adjoin, ht, ht'']
      exact ⟨gap', hq.slice?_eq hgap', hclosed⟩

/-! ### Statements in their document -/

theorem Ascending.sublist (h : Ascending us) (hs : ts.Sublist us) : Ascending ts :=
  ⟨h.1.sublist hs, fun t ht => h.2 t (hs.subset ht)⟩

theorem sublist_flatMap {α β : Type} {f : α → List β} {x : α} {xs : List α} (hx : x ∈ xs) :
    (f x).Sublist (xs.flatMap f) :=
  List.sublist_flatten_of_mem (List.mem_map_of_mem hx)

/-- The tokens of an attribute are written where its chunk is. -/
theorem sublist_written {α : Type} {chunks : List (Chunk Span α)}
    (ha : a ∈ chunks.flatMap Chunk.inner) :
    a.tokens.Sublist (tokensIn (chunks.flatMap Chunk.written)) := by
  obtain ⟨c, hc, ha⟩ := List.mem_flatMap.1 ha
  have hrun : a.tokens.Sublist (tokensIn c.written) := by
    rw [Chunk.written, tokensIn_append, tokensIn_attributeSlots]
    exact (sublist_flatMap (mem_filter_inner.1 ha).1).trans (List.sublist_append_left ..)
  exact hrun.trans ((sublist_flatMap hc).map Prod.snd)

theorem AttributeKind.isInner_iff {kind : AttributeKind} : kind.isInner ↔ kind = .inner := by
  cases kind <;> simp [isInner]

theorem AttributeKind.not_isInner_iff {kind : AttributeKind} :
    kind.isInner = false ↔ kind = .outer := by
  cases kind <;> simp [isInner]

/-- A statement as it stands in a document: `node` is what it is made from, and `run` are the
attributes in front of it from the first outer one on. -/
structure Site where
  before : List Span
  run : List (Attribute Span)
  node : Statement Span
  slots : List (Slot Span)
  after : List Span
  /-- The attributes of the document in front of the run. -/
  front : List (Attribute Span)
  /-- The attributes of the document behind the statement. -/
  back : List (Attribute Span)
  head : ∀ a ∈ run.head?, a.kind = .outer
  written : node.Written slots
  front_tokens : ∀ a ∈ front, a.tokens.Sublist before
  back_tokens : ∀ a ∈ back, a.tokens.Sublist after

namespace Site

def outer (p : Site) : List (Attribute Span) := p.run.filter (!·.kind.isInner)

def inner (p : Site) : List (Attribute Span) := p.run.filter (·.kind.isInner)

def statement (p : Site) : Statement Span := prepend p.outer p.node

/-- The tokens from the first one of the statement to the last. -/
def stretch (p : Site) : List Span := p.run.flatMap Attribute.tokens ++ tokensIn p.slots

def tokens (p : Site) : List Span := p.before ++ p.stretch ++ p.after

def attributes (p : Site) : List (Attribute Span) := p.front ++ p.inner ++ p.back

end Site

theorem Document.Written.exists_site (h : d.Written slots) (hst : st ∈ d.statements) :
    ∃ p : Site, tokensIn slots = p.tokens ∧ st = p.statement ∧ d.attributes = p.attributes := by
  obtain ⟨chunks, last, hc, hlast, hattributes, hstatements, rfl⟩ := h
  rw [hstatements] at hst
  obtain ⟨c, hmem, rfl⟩ := List.mem_map.1 hst
  obtain ⟨init, rest, rfl⟩ := List.append_of_mem hmem
  let inner := c.run.takeWhile (·.kind.isInner)
  let run := c.run.dropWhile (·.kind.isInner)
  have hrun : c.run = inner ++ run := List.takeWhile_append_dropWhile.symm
  have hinner : ∀ a ∈ inner, a.kind = .inner := by
    intro a ha
    exact AttributeKind.isInner_iff.1 (List.all_eq_true.1 List.all_takeWhile a ha)
  have hhead : ∀ a ∈ run.head?, a.kind = .outer := by
    intro a ha
    have hk := List.head?_dropWhile_not (·.kind.isInner) c.run
    rw [show c.run.dropWhile (·.kind.isInner) = run from rfl, Option.mem_def.1 ha] at hk
    exact AttributeKind.not_isInner_iff.1 hk
  have hfront : ∀ a ∈ init.flatMap Chunk.inner ++ inner, a.tokens.Sublist
      (tokensIn (init.flatMap Chunk.written) ++ inner.flatMap Attribute.tokens) := by
    intro a ha
    rcases List.mem_append.1 ha with ha | ha
    · exact (sublist_written ha).trans (List.sublist_append_left ..)
    · exact (sublist_flatMap ha).trans (List.sublist_append_right ..)
  have hback : ∀ a ∈ rest.flatMap Chunk.inner ++ last, a.tokens.Sublist
      (tokensIn (rest.flatMap Chunk.written) ++ last.flatMap Attribute.tokens) := by
    intro a ha
    rcases List.mem_append.1 ha with ha | ha
    · exact (sublist_written ha).trans (List.sublist_append_left ..)
    · exact (sublist_flatMap ha).trans (List.sublist_append_right ..)
  refine ⟨⟨_, run, c.node, c.slots, _, _, _, hhead, hc c hmem, hfront, hback⟩, ?_, ?_, ?_⟩
  · simp [Site.tokens, Site.stretch, Chunk.written, hrun, tokensIn_attributeSlots]
  · rw [Chunk.result, Chunk.outer, hrun, List.filter_append, filter_not_isInner hinner]
    rfl
  · rw [hattributes]
    simp [Site.attributes, Site.inner, Chunk.inner, hrun, filter_isInner hinner]

/-- Attributes among some tokens are as far from others as those tokens are. -/
theorem within_of_sublist (h : Ascending ts) (hs : a.tokens.Sublist ts) : Within ts a.span :=
  (Arranges.within_attribute (h.sublist hs)).mono hs.subset

/-- The tokens of a statement in front of which attributes are put. -/
theorem Statement.Written.spans_prepend (h : st.Written slots) (hrun : ∀ a ∈ run, a.kind = .outer)
    (hasc : Ascending (run.flatMap Attribute.tokens ++ tokensIn slots)) :
    (prepend run st).spans = run.flatMap Attribute.tokens ++ tokensIn slots := by
  have hinner : run.filter (·.kind.isInner) = [] := by
    refine List.filter_eq_nil_iff.2 fun a ha => ?_
    simp [hrun a ha, AttributeKind.isInner]
  have houter : run.filter (!·.kind.isInner) = run := by
    refine List.filter_eq_self.2 fun a ha => ?_
    simp [hrun a ha, AttributeKind.isInner]
  have hwritten : Document.Written { attributes := [], statements := [prepend run st] }
      (attributeSlots run ++ slots) := by
    refine ⟨[⟨run, st, slots⟩], [], ?_, by simp, ?_, ?_, ?_⟩
    · simpa using h
    · simp [Chunk.inner, hinner]
    · simp [Chunk.result, Chunk.outer, houter]
    · simp [Chunk.written, attributeSlots]
  rw [Statement.spans, hwritten.spans_eq, tokensIn_append, tokensIn_attributeSlots]
  rwa [tokensIn_append, tokensIn_attributeSlots]

namespace Site

variable {p : Site}

theorem ascending_iff : Ascending p.tokens ↔ (Ascending p.before ∧ Ascending p.stretch ∧
    ∀ s ∈ p.before, ∀ t ∈ p.stretch, s.stop ≤ t.start) ∧ Ascending p.after ∧
    ∀ s ∈ p.before ++ p.stretch, ∀ t ∈ p.after, s.stop ≤ t.start := by
  rw [tokens, ascending_append, ascending_append]

theorem exists_ends (h : Ascending p.stretch) : ∃ first last, p.stretch.head? = some first ∧
    p.stretch.getLast? = some last ∧ (tokensIn p.slots).getLast? = some last := by
  obtain ⟨⟨rest, hslots⟩, -⟩ := p.written.arranged (ascending_append.1 h).2.1
  have hne : p.stretch ≠ [] := by simp [stretch, hslots]
  have hlast : (tokensIn p.slots).getLast? = some (rest.getLast?.getD p.node.keyword) := by
    rw [hslots, List.getLast?_cons]
  refine ⟨_, _, List.head?_eq_some_head hne, ?_, hlast⟩
  rw [stretch, List.getLast?_append, hlast, Option.some_or]

/-- The tokens in the extent are those of the stretch. -/
theorem filter_tokens (h : Ascending p.tokens) :
    p.tokens.filter p.statement.extent.containsSpan = p.stretch := by
  obtain ⟨⟨hbefore, hstretch, hcross⟩, hafter, hcross'⟩ := ascending_iff.1 h
  obtain ⟨first, last, hfirst, hlast, -⟩ := exists_ends hstretch
  rw [statement, outer, p.written.extent_eq p.head hstretch hfirst hlast]
  apply filter_between (f := fun t => t)
  · exact List.forall_mem_append.2 ⟨hbefore.2, hafter.2⟩
  · intro t ht
    exact hcross t ht first (List.mem_of_head? hfirst)
  · intro t ht
    have hstart := hstretch.start_le hfirst ht
    have hstop := hstretch.le_stop hlast ht
    exact containsSpan_iff.2 ⟨hstart, hstop⟩
  · intro t ht
    exact hcross' last (List.mem_append_right _ (List.mem_of_getLast? hlast)) t ht

/-- The attributes of the document in the extent are those of the run. -/
theorem filter_attributes (h : Ascending p.tokens) :
    p.attributes.filter (p.statement.extent.containsSpan ·.span) = p.inner := by
  obtain ⟨⟨hbefore, hstretch, hcross⟩, hafter, hcross'⟩ := ascending_iff.1 h
  obtain ⟨first, last, hfirst, hlast, -⟩ := exists_ends hstretch
  have hfront : ∀ a ∈ p.front, Within p.before a.span := fun a ha =>
    within_of_sublist hbefore (p.front_tokens a ha)
  have hback : ∀ a ∈ p.back, Within p.after a.span := fun a ha =>
    within_of_sublist hafter (p.back_tokens a ha)
  rw [statement, outer, p.written.extent_eq p.head hstretch hfirst hlast]
  apply filter_between
  · exact List.forall_mem_append.2 ⟨fun a ha => (hfront a ha).1, fun a ha => (hback a ha).1⟩
  · intro a ha
    obtain ⟨-, -, t, ht, hle⟩ := hfront a ha
    exact Nat.le_trans hle (hcross t ht first (List.mem_of_head? hfirst))
  · intro a ha
    obtain ⟨-, ⟨s, hs, hstart⟩, t, ht, hstop⟩ :=
      Arranges.within_run (ascending_append.1 hstretch).1 (mem_filter_inner.1 ha).1
    have hs' := hstretch.start_le hfirst (List.mem_append_left _ hs)
    have ht' := hstretch.le_stop hlast (List.mem_append_left _ ht)
    exact containsSpan_iff.2 ⟨Nat.le_trans hs' hstart, Nat.le_trans hstop ht'⟩
  · intro a ha
    obtain ⟨-, ⟨s, hs, hstart⟩, -⟩ := hback a ha
    have hmem := List.mem_append_right p.before (List.mem_of_getLast? hlast)
    exact Nat.le_trans (hcross' last hmem s hs) hstart

theorem spans_statement (h : Ascending p.stretch) :
    p.statement.spans = p.outer.flatMap Attribute.tokens ++ tokensIn p.slots := by
  have hsub : (p.outer.flatMap Attribute.tokens ++ tokensIn p.slots).Sublist p.stretch :=
    (List.filter_sublist.flatMap _).append_right _
  exact p.written.spans_prepend (fun a ha => (mem_filter_outer.1 ha).2) (h.sublist hsub)

/-- Beside the tokens of the statement there are those of the inner attributes. -/
theorem stretch_perm (h : Ascending p.stretch) :
    p.stretch.Perm (p.statement.spans ++ p.inner.flatMap Attribute.tokens) := by
  have hrun := (List.filter_append_perm (·.kind.isInner) p.run).symm.flatMap_right Attribute.tokens
  rw [List.flatMap_append] at hrun
  have hall := hrun.append_right (tokensIn p.slots)
  rw [List.append_assoc] at hall
  rw [spans_statement h]
  exact hall.trans List.perm_append_comm

theorem outer_eq_run (h : p.inner = []) : p.outer = p.run := by
  refine List.filter_eq_self.2 fun a ha => ?_
  have hk := List.filter_eq_nil_iff.1 h a ha
  simpa using hk

theorem head?_spans (h : Ascending p.stretch) : p.statement.spans.head? = p.stretch.head? := by
  rw [spans_statement h, stretch, outer]
  have hhead := p.head
  cases hrun : p.run with
  | nil => rfl
  | cons a run =>
    rw [hrun] at hhead
    simp [hhead a rfl, AttributeKind.isInner, Attribute.tokens]

theorem getLast?_spans (h : Ascending p.stretch) :
    p.statement.spans.getLast? = p.stretch.getLast? := by
  obtain ⟨first, last, -, -, hlast⟩ := exists_ends h
  rw [spans_statement h, stretch, List.getLast?_append, List.getLast?_append, hlast,
    Option.some_or, Option.some_or]

/-- An inner attribute of the run has an outer one in front of it, and the keyword behind it. -/
theorem between_of_mem_inner (h : Ascending p.stretch) (ha : a ∈ p.inner) :
    a.span.stop ≤ p.statement.keyword.start ∧
      ∃ b ∈ p.outer, b.kind = .outer ∧ b.span.stop ≤ a.span.start := by
  obtain ⟨hrun, hslots, hcross⟩ := ascending_append.1 h
  obtain ⟨⟨rest, hkeyword⟩, -⟩ := p.written.arranged hslots
  obtain ⟨ha, hkind⟩ := mem_filter_inner.1 ha
  have hhead := p.head
  constructor
  · obtain ⟨-, -, t, ht, hle⟩ := Arranges.within_run hrun ha
    rw [statement, Statement.keyword_prepend]
    exact Nat.le_trans hle (hcross t ht _ (by simp [hkeyword]))
  · obtain ⟨b, run, heq⟩ := List.exists_cons_of_ne_nil (List.ne_nil_of_mem ha)
    have hb : b.kind = .outer := hhead b (by simp [heq])
    have hpairs := Arranges.pairwise_run hrun
    rw [heq] at ha hpairs
    rcases List.mem_cons.1 ha with rfl | ha
    · exact (AttributeKind.inner_ne_outer hkind hb).elim
    · refine ⟨b, mem_filter_outer.2 ⟨by simp [heq], hb⟩, hb, ?_⟩
      exact (List.pairwise_cons.1 hpairs).1 a ha

end Site

/-- A parsed tree is written in its source, with trivia between the tokens. -/
theorem exists_written_of_parse {source : String} {options : Options}
    (h : parse source options = .ok d) : ∃ slots : List (Slot Span), d.Written slots ∧
      d.spans = tokensIn slots ∧ d.spans.IsChain (Adjoin source.toList) := by
  obtain ⟨t, slots, e, rfl, ht, hr, -⟩ := exists_reads_of_parse h
  have hwritten := (Document.readable_iff.1 ht).1.map Token.span
  obtain ⟨htokens, hasc⟩ := hr.ascending_tokensIn
  refine ⟨_, hwritten, hwritten.spans_eq hasc, ?_⟩
  rw [hwritten.spans_eq hasc, htokens]
  exact hr.isChain (.refl (.start source.toList))

/-- Between the first token of a statement and its last one there are its own tokens, inner
attributes of the document in front of the keyword, and trivia. -/
theorem covered_of_parse {source : String} {options : Options}
    (h : parse source options = .ok d) (hst : st ∈ d.statements) : Covered source.toList d st := by
  obtain ⟨hasc, -, -⟩ := arranged_of_parse h
  obtain ⟨slots, hwritten, hspans, hchain⟩ := exists_written_of_parse h
  obtain ⟨p, htokens, rfl, hattributes⟩ := hwritten.exists_site hst
  rw [htokens] at hspans
  rw [hspans] at hasc hchain
  have hstretch := (Site.ascending_iff.1 hasc).1.2.1
  have hin : d.spansIn p.statement.extent = p.stretch := by
    rw [Document.spansIn, hspans, Site.filter_tokens hasc]
  have hinner : d.attributesIn p.statement.extent = p.inner := by
    rw [Document.attributesIn, hattributes, Site.filter_attributes hasc]
  constructor
  case ends =>
    obtain ⟨first, last, hfirst, hlast, -⟩ := Site.exists_ends hstretch
    rw [Site.head?_spans hstretch, Site.getLast?_spans hstretch]
    exact ⟨first, last, hfirst, hlast, p.written.extent_eq p.head hstretch hfirst hlast⟩
  case adjoin =>
    rw [hin]
    exact hchain.infix ⟨p.before, p.after, rfl⟩
  case tokens =>
    rw [hin, hinner]
    exact Site.stretch_perm hstretch
  case foreign =>
    intro a ha
    rw [hinner] at ha
    obtain ⟨hstop, b, hb, hkind, hle⟩ := Site.between_of_mem_inner hstretch ha
    refine ⟨(mem_filter_inner.1 ha).2, hstop, b, ?_, hkind, hle⟩
    rw [Site.statement, Statement.attributes_prepend]
    exact List.mem_append_left _ hb
  case own =>
    intro hnil
    rw [hinner] at hnil
    rw [hin, Site.spans_statement hstretch, Site.outer_eq_run hnil]
    rfl

theorem covered_enum : Covered "@a #b enum E \x7b\x7d".toList
    { attributes := [⟨.inner, ⟨3, 4⟩, ⟨4, 5⟩, none⟩],
      statements := [.enum {
        attributes := [⟨.outer, ⟨0, 1⟩, ⟨1, 2⟩, none⟩],
        keyword := ⟨6, 10⟩, name := ⟨11, 12⟩, opening := ⟨13, 14⟩, entries := [],
        closing := ⟨14, 15⟩ }] }
    (.enum {
      attributes := [⟨.outer, ⟨0, 1⟩, ⟨1, 2⟩, none⟩],
      keyword := ⟨6, 10⟩, name := ⟨11, 12⟩, opening := ⟨13, 14⟩, entries := [],
      closing := ⟨14, 15⟩ }) :=
  covered_of_parse (show parse "@a #b enum E \x7b\x7d" {} = .ok _ by decide +kernel) (by simp)

/-- The attribute `#b` of the document stands between the tokens of the statement. -/
theorem not_forall_adjoin : ¬ ∀ (source : String) (d : Document Span), parse source {} = .ok d →
    ∀ st ∈ d.statements, st.spans.IsChain (Adjoin source.toList) := by
  intro h
  let node : Declaration Span Span := {
    attributes := [⟨.outer, ⟨0, 1⟩, ⟨1, 2⟩, none⟩]
    keyword := ⟨6, 10⟩
    name := ⟨11, 12⟩
    opening := ⟨13, 14⟩
    entries := []
    closing := ⟨14, 15⟩ }
  have hchain := h "@a #b enum E \x7b\x7d"
    { attributes := [⟨.inner, ⟨3, 4⟩, ⟨4, 5⟩, none⟩], statements := [.enum node] }
    (by decide +kernel) (.enum node) (by simp)
  have hspans : (Statement.enum node).spans =
      [⟨0, 1⟩, ⟨1, 2⟩, ⟨6, 10⟩, ⟨11, 12⟩, ⟨13, 14⟩, ⟨14, 15⟩] :=
    Span.sort_eq (.refl _) (by decide) (by decide)
  rw [hspans] at hchain
  have hadjoin := (List.isChain_cons_cons.1 (List.isChain_cons_cons.1 hchain).2).1
  obtain ⟨gap, hgap, hclosed⟩ := hadjoin
  have htext : gap = " #b ".toList := by
    have hslice : slice? 2 6 "@a #b enum E \x7b\x7d".toList = some " #b ".toList := by decide
    exact Option.some.inj (hgap.symm.trans hslice)
  have hdrop := dropTrivia_closed (y := []) hclosed
  rw [htext] at hdrop
  exact absurd hdrop (by decide)

end SchemaText
