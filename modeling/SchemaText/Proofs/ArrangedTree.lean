import SchemaText.Proofs.Lossless
import SchemaText.Proofs.Tree.Settled
import SchemaText.Proofs.Tree.Transfer

/-!
The tokens of a source are arranged as the tree that it is parsed as.
-/
namespace SchemaText

open Phrase (token block InOrder)

variable {d : Document Span} {s e : Place} {slots : List (Slot Token)}

/-! ### Parsed trees -/

/-- The spans of a tree are the tokens of the source that it is written in. -/
theorem Document.Written.spans_eq {slots : List (Slot Span)} (h : d.Written slots)
    (hasc : Ascending (tokensIn slots)) : d.spans = tokensIn slots := by
  have hperm := h.perm.map Prod.snd
  rw [Document.map_snd_slots] at hperm
  exact Span.sort_eq hperm hasc.1 hasc.2

theorem Reads.stop_le (h : Reads s slots e) :
    ∀ slot ∈ slots, slot.2.span.stop ≤ s.offset + s.bytes := by
  induction slots generalizing s with
  | nil => simp
  | cons slot slots ih =>
    obtain ⟨gap, x, q, hgap, -, hx, -, -, ht, hr⟩ := h.uncons
    have hpass := hgap.trans hx
    have hbytes := hpass.bytes_eq
    have hoffset := hpass.2
    refine List.forall_mem_cons.2 ⟨?_, fun slot hs => ?_⟩
    · rw [ht]
      change q.offset ≤ _
      omega
    · have := ih hr slot hs
      omega

/-- What is read is in ascending order. -/
theorem Reads.ascending_tokensIn (h : Reads s slots e) :
    tokensIn (mapSlots Token.span slots) = slots.map (·.2.span) ∧
      Ascending (tokensIn (mapSlots Token.span slots)) := by
  have htokens : tokensIn (mapSlots Token.span slots) = slots.map (·.2.span) := by
    simp [tokensIn, mapSlots]
  obtain ⟨hpairs, hle⟩ := h.ascending
  rw [htokens]
  exact ⟨rfl, hpairs, List.forall_mem_map.2 fun slot hs => (hle slot hs).2⟩

theorem arranged_of_parse {source : String} {options : Options}
    (h : parse source options = .ok d) : Ascending d.spans ∧ (∀ t ∈ d.spans, t.stop ≤ maxOffset) ∧
      Arranged d.spans d.phrases (d.statements.flatMap Statement.holders) d.attributes := by
  obtain ⟨t, slots, e, rfl, ht, hr, -⟩ := exists_reads_of_parse h
  have hwritten := (Document.readable_iff.1 ht).1.map Token.span
  obtain ⟨htokens, hasc⟩ := hr.ascending_tokensIn
  rw [hwritten.spans_eq hasc]
  refine ⟨hasc, ?_, arranges_document hwritten hasc⟩
  rw [htokens]
  refine List.forall_mem_map.2 fun slot hs => ?_
  have hstop := hr.stop_le slot hs
  have hbytes := (parse_eq_ok_iff.1 h).1
  simp only [Place.start, Place.bytes, Nat.zero_add] at hstop
  exact Nat.le_trans hstop hbytes

/-! ### Attributes in arrangements -/

theorem mem_allAttributes {a : Attribute Span} : a ∈ d.allAttributes ↔
    a ∈ held (d.statements.flatMap Statement.holders) d.attributes := by
  simp [Document.allAttributes, Document.holders, held, or_comm]

variable {ts : List Span} {ps : List Phrase} {hs : List Holder}
  {loose : List (Attribute Span)} {a : Attribute Span} {q : Phrase}

/-- No node reaches into an inner attribute. -/
theorem Arranged.contains_or_apart (h : Arranged ts ps hs loose) (ha : a ∈ held hs loose)
    (hkind : a.kind = .inner) (hq : q.OccursIn ps) :
    (q.span.start ≤ a.span.start ∧ a.span.stop ≤ q.span.stop) ∨ a.span.Apart q.span := by
  rcases mem_held.1 ha with ⟨g, hg, ha⟩ | ha
  · obtain ⟨opening, inside, closing, -, hb, hhouses⟩ := (h.sits g hg).inner a ha hkind
    have hcases := hhouses.occurs_or_apart_of_mem h.inOrder h.nested hb hq
    refine hcases.imp_left fun hbq => ?_
    obtain ⟨p, hp, hqp⟩ := hq
    have hn := (h.nested p hp).of_occurs hqp
    have hcontains := hn.contains hbq
    have hroom := (hn.of_occurs hbq).contains_room
    obtain ⟨-, hin, -⟩ := hhouses
    omega
  · obtain ⟨p, hp, hqp⟩ := hq
    have hin := (h.nested p hp).contains hqp
    exact .inr ((h.beside a ha p hp).mono ⟨Nat.le_refl _, Nat.le_refl _⟩ hin)

/-- Inner attributes stand in the rooms of their nodes. -/
theorem Arranged.contains_of_room {g : Holder}
    (h : Arranged d.spans d.phrases (d.statements.flatMap Statement.holders) d.attributes)
    (hmax : ∀ t ∈ d.spans, t.stop ≤ maxOffset) (hg : g ∈ d.holders) (ha : a ∈ g.attributes)
    (hkind : a.kind = .inner) : ∃ room ∈ g.room, room.containsSpan a.span := by
  rcases List.mem_cons.1 hg with rfl | hg
  · obtain ⟨-, -, t, ht, hle⟩ := h.attributes a (mem_held.2 (.inr ha))
    refine ⟨⟨0, maxOffset⟩, rfl, containsSpan_iff.2 ⟨Nat.zero_le _, ?_⟩⟩
    exact Nat.le_trans hle (hmax t ht)
  · obtain ⟨opening, inside, closing, hroom, -, -, hin, -⟩ := (h.sits g hg).inner a ha hkind
    exact ⟨_, hroom, containsSpan_iff.2 hin⟩

end SchemaText
