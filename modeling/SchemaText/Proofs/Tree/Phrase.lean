import Mathlib.Data.List.Pairwise
import SchemaText.Tree.Walk

/-!
Trees read in the order of the grammar. Every node is a phrase that has its own tokens and its
children for parts. Inner attributes have no place in that order, they stand anywhere in the block
that they belong to.
-/
namespace SchemaText

variable {α : Type}

/-! ### Ranges of tokens -/

/-- One of them ends before the other one begins. -/
def Span.Apart (s t : Span) : Prop := s.stop ≤ t.start ∨ t.stop ≤ s.start

/-- What lies between two tokens. -/
def Span.between (opening closing : Span) : Span := ⟨opening.stop, closing.start⟩

/-- Tokens one behind the other. -/
def Ascending (ts : List Span) : Prop :=
  ts.Pairwise (fun s t => s.stop ≤ t.start) ∧ ∀ t ∈ ts, t.start < t.stop

theorem containsSpan_iff {s t : Span} :
    s.containsSpan t ↔ s.start ≤ t.start ∧ t.stop ≤ s.stop := by
  simp [Span.containsSpan]

theorem Span.Apart.symm {s t : Span} (h : s.Apart t) : t.Apart s := Or.symm h

theorem Span.Apart.mono {s t s' t' : Span} (h : s.Apart t)
    (hs : s.start ≤ s'.start ∧ s'.stop ≤ s.stop) (ht : t.start ≤ t'.start ∧ t'.stop ≤ t.stop) :
    s'.Apart t' := by
  rcases h with h | h
  · exact .inl (by omega)
  · exact .inr (by omega)

/-- Of things in a row, two are the same or lie apart. -/
theorem eq_or_apart_of_pairwise {f : α → Span} {xs : List α} {x y : α}
    (h : xs.Pairwise fun x y => (f x).stop ≤ (f y).start) (hx : x ∈ xs) (hy : y ∈ xs) :
    x = y ∨ (f x).Apart (f y) := by
  have hpairs : xs.Pairwise fun x y => x = y ∨ (f x).Apart (f y) := h.imp fun hle => .inr (.inl hle)
  have hsymm : Std.Symm fun x y => x = y ∨ (f x).Apart (f y) :=
    ⟨fun _ _ hxy => hxy.imp Eq.symm Span.Apart.symm⟩
  exact hpairs.forall_of_forall (fun _ _ => .inl rfl) hx hy

/-! ### Phrases -/

inductive Phrase where
  | token (span : Span)
  /-- A node that has a span, and its parts. -/
  | node (span : Span) (parts : List Phrase)
  /-- A pair of brackets with the parts between them. -/
  | block (opening : Span) (inside : List Phrase) (closing : Span)

namespace Phrase

def span : Phrase → Span
  | token span => span
  | node span _ => span
  | block opening _ closing => opening.merge closing

def parts : Phrase → List Phrase
  | token _ => []
  | node _ parts => parts
  | block opening inside closing => token opening :: inside ++ [token closing]

def ofOption (t : Option Span) : List Phrase := t.toList.map token

/-- A node that has no span of its own, from its first part to its last one. -/
def join : List Phrase → Phrase
  | [] => node ⟨0, 0⟩ []
  | first :: rest => node (first.span.merge (rest.getLast?.getD first).span) (first :: rest)

/-- The phrase is the other one or occurs in one of its parts. -/
inductive Occurs (q : Phrase) : Phrase → Prop where
  | self : Occurs q q
  | inside {p r : Phrase} : p ∈ r.parts → Occurs q p → Occurs q r

/-- The phrase occurs in one of several. -/
def OccursIn (q : Phrase) (ps : List Phrase) : Prop := ∃ p ∈ ps, q.Occurs p

/-- Parts one behind the other. -/
def InOrder (ps : List Phrase) : Prop := ps.Pairwise fun p q => p.span.stop ≤ q.span.start

/-- A token is not empty. The parts of a node stand one behind the other, and its span goes from
the first one to the last one. -/
inductive Nested : Phrase → Prop where
  | token {t : Span} : t.start < t.stop → Nested (token t)
  | whole {r first last : Phrase} :
      r.parts.head? = some first → r.parts.getLast? = some last →
      r.span = ⟨first.span.start, last.span.stop⟩ → InOrder r.parts →
      (∀ p ∈ r.parts, Nested p) → Nested r

variable {p q q' r first last : Phrase} {ps : List Phrase} {t : Span}

@[simp] theorem span_token : (token t).span = t := rfl

@[simp] theorem parts_join (ps : List Phrase) : (join ps).parts = ps := by
  cases ps <;> rfl

/-! ### Nesting -/

theorem InOrder.append {qs : List Phrase} (hp : InOrder ps) (hq : InOrder qs)
    (h : ∀ p ∈ ps, ∀ q ∈ qs, p.span.stop ≤ q.span.start) : InOrder (ps ++ qs) :=
  List.pairwise_append.2 ⟨hp, hq, h⟩

/-- The first part begins first. -/
theorem InOrder.start_le (h : InOrder ps) (hlt : ∀ p ∈ ps, p.span.start < p.span.stop)
    (hfirst : ps.head? = some first) (hp : p ∈ ps) : first.span.start ≤ p.span.start := by
  obtain ⟨rest, rfl⟩ := List.head?_eq_some_iff.1 hfirst
  rcases List.mem_cons.1 hp with rfl | hp
  · exact Nat.le_refl _
  · have hle := (List.pairwise_cons.1 h).1 p hp
    have hpos := hlt first (by simp)
    omega

/-- The last part ends last. -/
theorem InOrder.le_stop (h : InOrder ps) (hlt : ∀ p ∈ ps, p.span.start < p.span.stop)
    (hlast : ps.getLast? = some last) (hp : p ∈ ps) : p.span.stop ≤ last.span.stop := by
  obtain ⟨init, rfl⟩ := List.getLast?_eq_some_iff.1 hlast
  rcases List.mem_append.1 hp with hp | hp
  · have hle := (List.pairwise_append.1 h).2.2 p hp last (by simp)
    have hpos := hlt last (by simp)
    omega
  · obtain rfl := List.mem_singleton.1 hp
    exact Nat.le_refl _

namespace Nested

theorem lt (h : r.Nested) : r.span.start < r.span.stop := by
  induction h with
  | token h => exact h
  | @whole r first last hfirst hlast hspan horder _ ih =>
    have hmem := List.mem_of_mem_head? hfirst
    have hle := horder.le_stop ih hlast hmem
    have hpos := ih first hmem
    rw [hspan]
    change first.span.start < last.span.stop
    omega

theorem of_mem (h : r.Nested) (hp : p ∈ r.parts) : p.Nested := by
  cases h with
  | token _ => exact absurd hp List.not_mem_nil
  | whole _ _ _ _ hparts => exact hparts p hp

theorem inOrder (h : r.Nested) : InOrder r.parts := by
  cases h with
  | token _ => exact .nil
  | whole _ _ _ horder _ => exact horder

/-- A part lies between the first token of a node and its last one. -/
theorem contains_of_mem (h : r.Nested) (hp : p ∈ r.parts) :
    r.span.start ≤ p.span.start ∧ p.span.stop ≤ r.span.stop := by
  cases h with
  | token _ => exact absurd hp List.not_mem_nil
  | whole hfirst hlast hspan horder hparts =>
    have hlt := fun q hq => (hparts q hq).lt
    rw [hspan]
    exact ⟨horder.start_le hlt hfirst hp, horder.le_stop hlt hlast hp⟩

/-- A node ends with its last part. -/
theorem of_getLast? (h : r.Nested) (hlast : r.parts.getLast? = some last) :
    r.span.start ≤ last.span.start ∧ last.span.stop = r.span.stop := by
  refine ⟨(h.contains_of_mem (List.mem_of_getLast? hlast)).1, ?_⟩
  cases h with
  | token _ => simp [Phrase.parts] at hlast
  | whole _ hlast' hspan _ _ =>
    rw [hspan, Option.some.inj (hlast.symm.trans hlast')]

theorem of_occurs (h : r.Nested) (hq : q.Occurs r) : q.Nested := by
  induction hq with
  | self => exact h
  | inside hp _ ih => exact ih (h.of_mem hp)

theorem contains (h : r.Nested) (hq : q.Occurs r) :
    r.span.start ≤ q.span.start ∧ q.span.stop ≤ r.span.stop := by
  induction hq with
  | self => exact ⟨Nat.le_refl _, Nat.le_refl _⟩
  | inside hp _ ih =>
    have hpart := h.contains_of_mem hp
    have hin := ih (h.of_mem hp)
    omega

end Nested

/-! ### Two nodes of a tree -/

/-- What occurs in parts one behind the other occurs in one of them or in two that lie apart. -/
theorem InOrder.occurs_cases {P : Prop} (h : InOrder ps) (hn : ∀ p ∈ ps, p.Nested)
    (hq : q.OccursIn ps) (hq' : q'.OccursIn ps) (hsame : ∀ p ∈ ps, q.Occurs p → q'.Occurs p → P)
    (hapart : q.span.Apart q'.span → P) : P := by
  obtain ⟨p, hp, hqp⟩ := hq
  obtain ⟨p', hp', hqp'⟩ := hq'
  rcases eq_or_apart_of_pairwise h hp hp' with rfl | hparts
  · exact hsame p hp hqp hqp'
  · exact hapart (hparts.mono ((hn p hp).contains hqp) ((hn p' hp').contains hqp'))

/-- Of two nodes one occurs in the other, or they lie apart. -/
theorem Nested.occurs_or_apart (h : r.Nested) (hq : q.Occurs r) (hq' : q'.Occurs r) :
    (q.Occurs q' ∨ q'.Occurs q) ∨ q.span.Apart q'.span := by
  induction h with
  | token _ =>
    cases hq with
    | self => exact .inl (.inr hq')
    | inside hp _ => exact absurd hp List.not_mem_nil
  | whole _ _ _ horder hparts ih =>
    cases hq with
    | self => exact .inl (.inr hq')
    | inside hp hqp =>
      cases hq' with
      | self => exact .inl (.inl (.inside hp hqp))
      | inside hp' hqp' => exact horder.occurs_cases hparts ⟨_, hp, hqp⟩ ⟨_, hp', hqp'⟩ ih .inr

/-! ### Brackets -/

variable {opening closing opening' closing' e : Span} {inside inside' : List Phrase}

theorem Occurs.eq_token (h : q.Occurs (token t)) : q = token t := by
  cases h with
  | self => rfl
  | inside hp _ => exact absurd hp List.not_mem_nil

theorem mem_parts_block : p ∈ (block opening inside closing).parts ↔
    p = token opening ∨ p ∈ inside ∨ p = token closing := by
  simp [parts]

namespace Nested

theorem inside_block (h : (block opening inside closing).Nested) (hp : p ∈ inside) :
    opening.stop ≤ p.span.start ∧ p.span.stop ≤ closing.start := by
  obtain ⟨hfirst, -, hlast⟩ := List.pairwise_append.1 h.inOrder
  exact ⟨(List.pairwise_cons.1 hfirst).1 p hp,
    hlast p (List.mem_cons_of_mem _ hp) _ (List.mem_singleton_self _)⟩

/-- A range between the brackets is in the block. -/
theorem contains_room (h : (block opening inside closing).Nested) :
    (block opening inside closing).span.start ≤ opening.stop ∧
      closing.start ≤ (block opening inside closing).span.stop := by
  have hopening : Phrase.token opening ∈ (block opening inside closing).parts :=
    mem_parts_block.2 (.inl rfl)
  have hclosing : Phrase.token closing ∈ (block opening inside closing).parts :=
    mem_parts_block.2 (.inr (.inr rfl))
  have hstart := h.contains_of_mem hopening
  have hstop := h.contains_of_mem hclosing
  have hlt := (h.of_mem hopening).lt
  have hlt' := (h.of_mem hclosing).lt
  simp only [span_token] at hstart hstop hlt hlt'
  omega

end Nested

/-- A range has its place in a block, beside all that stands there. -/
def Houses (opening : Span) (inside : List Phrase) (closing e : Span) : Prop :=
  e.start < e.stop ∧ (opening.stop ≤ e.start ∧ e.stop ≤ closing.start) ∧
    ∀ p ∈ inside, e.Apart p.span

/-- What has its place in a block lies apart from all nodes but those that the block is in. -/
theorem Houses.occurs_or_apart (hr : r.Nested) (hb : (block opening inside closing).Occurs r)
    (he : Houses opening inside closing e) (hq : q.Occurs r) :
    (block opening inside closing).Occurs q ∨ e.Apart q.span := by
  obtain ⟨hlt, hroom, hbeside⟩ := he
  have hblock := hr.of_occurs hb
  have hcontains := hblock.contains_room
  rcases hr.occurs_or_apart hb hq with (hbq | hqb) | hapart
  · exact .inl hbq
  · cases hqb with
    | self => exact .inl .self
    | @inside p _ hp hqp =>
      right
      have hin := (hblock.of_mem hp).contains hqp
      rcases mem_parts_block.1 hp with rfl | hp | rfl
      · simp only [span_token] at hin
        exact .inr (by omega)
      · exact (hbeside p hp).mono ⟨Nat.le_refl _, Nat.le_refl _⟩ hin
      · simp only [span_token] at hin
        exact .inl (by omega)
  · right
    exact hapart.mono ⟨by omega, by omega⟩ ⟨Nat.le_refl _, Nat.le_refl _⟩

theorem Houses.occurs_or_apart_of_mem (horder : InOrder ps) (hn : ∀ p ∈ ps, p.Nested)
    (hb : (block opening inside closing).OccursIn ps) (he : Houses opening inside closing e)
    (hq : q.OccursIn ps) : (block opening inside closing).Occurs q ∨ e.Apart q.span := by
  refine horder.occurs_cases hn hb hq (fun p hp hb hq => he.occurs_or_apart (hn p hp) hb hq) ?_
  intro hapart
  obtain ⟨p, hp, hbp⟩ := hb
  have hcontains := ((hn p hp).of_occurs hbp).contains_room
  obtain ⟨hlt, hroom, -⟩ := he
  exact .inr (hapart.mono ⟨by omega, by omega⟩ ⟨Nat.le_refl _, Nat.le_refl _⟩)

/-- A block around another one has it between its brackets. -/
theorem Occurs.room_le
    (hb : (block opening inside closing).Occurs (block opening' inside' closing'))
    (hr : (block opening' inside' closing').Nested) :
    opening'.stop ≤ opening.stop ∧ closing.start ≤ closing'.start := by
  have hroom := (hr.of_occurs hb).contains_room
  cases hb with
  | self => exact ⟨Nat.le_refl _, Nat.le_refl _⟩
  | @inside p _ hp hbp =>
    have hin := (hr.of_mem hp).contains hbp
    rcases mem_parts_block.1 hp with rfl | hp | rfl
    · exact absurd hbp.eq_token (by simp)
    · have hp := hr.inside_block hp
      omega
    · exact absurd hbp.eq_token (by simp)

end Phrase

/-! ### The phrases of a tree -/

open Phrase (token block ofOption join)

def Attribute.phrase (a : Attribute Span) : Phrase :=
  .node a.span (token a.symbol :: token a.name :: ofOption a.content)

/-- The outer attributes of a node, which stand in front of it. -/
def leading (as : List (Attribute Span)) : List Phrase :=
  (as.filter (!·.kind.isInner)).map Attribute.phrase

def Container.phrase (c : Container Span) : Phrase :=
  join (token c.opening :: ofOption c.keyType ++ [token c.closing])

def TypeExpression.phrase (t : TypeExpression Span) : Phrase :=
  .node t.span (token t.valueType :: t.container.toList.map Container.phrase)

/-- A path without items has no place in a text. -/
def Path.phrases (p : Path Span) : List Phrase :=
  p.span.toList.map fun span => .node span (p.items.map fun item => token item.token)

def Entry.phrases (content : α → List Phrase) (e : Entry Span α) : List Phrase :=
  leading e.attributes ++ [join (content e.content ++ ofOption e.comma)]

def StructField.parts (f : StructField Span) : List Phrase :=
  token f.name :: ofOption f.question ++ [token f.colon, f.type.phrase]

def VariantBody.phrase (b : VariantBody Span) : Phrase :=
  block b.opening (b.fields.flatMap (Entry.phrases StructField.parts)) b.closing

def Variant.parts (v : Variant Span) : List Phrase :=
  token v.name :: v.body.toList.map VariantBody.phrase

/-- A declaration whose entries have the parts `content`. -/
def Declaration.parts (content : α → List Phrase) (d : Declaration Span α) : List Phrase :=
  [token d.keyword, token d.name,
    block d.opening (d.entries.flatMap (Entry.phrases content)) d.closing]

def ImportAlias.phrase (a : ImportAlias Span) : Phrase := join [token a.keyword, token a.name]

def ImportItem.phrase (i : ImportItem Span) : Phrase :=
  join (token i.name :: i.localAlias.toList.map ImportAlias.phrase ++ ofOption i.comma)

def Import.parts (i : Import Span) : List Phrase :=
  token i.keyword :: i.path.phrases ++ [block i.opening (i.items.map ImportItem.phrase) i.closing]

def Custom.parts (c : Custom Span) : List Phrase :=
  [token c.keyword, token c.name, token c.equals, c.type.phrase]

def Throws.phrase (t : Throws Span) : Phrase := join [token t.keyword, t.type.phrase]

def Proc.parts (p : Proc Span) : List Phrase :=
  [token p.keyword, token p.name, token p.equals, p.input.phrase, token p.arrow,
    p.output.phrase] ++ p.throws.toList.map Throws.phrase

namespace Statement

def parts : Statement Span → List Phrase
  | imports node => node.parts
  | custom node => node.parts
  | enum node => node.parts fun name => [token name]
  | oneof node => node.parts fun type => [type.phrase]
  | proc node => node.parts
  | struct node => node.parts StructField.parts
  | union node => node.parts Variant.parts

/-- The attributes in front of a statement, and the statement from its keyword on. -/
def phrases (s : Statement Span) : List Phrase :=
  leading (HasAttributes.attributes s) ++ [.node s.span s.parts]

end Statement

def Document.phrases (d : Document Span) : List Phrase := d.statements.flatMap Statement.phrases

end SchemaText
