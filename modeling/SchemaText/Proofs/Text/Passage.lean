import SchemaText.Text.Place

/-!
Two places of one text, and the piece of text between them.
-/
namespace SchemaText

theorem byteLength_pos {text : List Char} (h : text ≠ []) : 0 < byteLength text := by
  obtain ⟨c, rest, rfl⟩ := List.exists_cons_of_ne_nil h
  have hc := c.utf8Size_pos
  simp only [byteLength_cons]
  omega

namespace Place

variable {p q r : Place} {a b text : List Char}

/-- The bytes that are left at a place. -/
def bytes (p : Place) : Nat := byteLength p.rest

/-- Going over `text` leads from `p` to `q`. -/
def Passes (p : Place) (text : List Char) (q : Place) : Prop :=
  p.rest = text ++ q.rest ∧ q.offset = p.offset + byteLength text

theorem Passes.refl (p : Place) : p.Passes [] p := ⟨rfl, rfl⟩

theorem Passes.trans (h : p.Passes a q) (h' : q.Passes b r) : p.Passes (a ++ b) r := by
  obtain ⟨hr, ho⟩ := h
  obtain ⟨hr', ho'⟩ := h'
  exact ⟨by rw [hr, hr', List.append_assoc], by rw [ho', ho, byteLength_append]; omega⟩

/-- Going over two texts leads through the place between them. -/
theorem Passes.exists_between (h : p.Passes (a ++ b) r) : ∃ q, p.Passes a q ∧ q.Passes b r := by
  refine ⟨⟨p.offset + byteLength a, b ++ r.rest⟩, ⟨?_, rfl⟩, rfl, ?_⟩
  · rw [h.1, List.append_assoc]
  · rw [h.2, byteLength_append, Nat.add_assoc]

theorem Passes.bytes_eq (h : p.Passes text q) : p.bytes = byteLength text + q.bytes := by
  rw [bytes, h.1, byteLength_append, bytes]

theorem Passes.bytes_lt (h : p.Passes text q) (ht : text ≠ []) : q.bytes < p.bytes := by
  have := byteLength_pos ht
  rw [h.bytes_eq]
  omega

/-- The text between two places is determined by them. -/
theorem Passes.upTo_eq (h : p.Passes text q) : p.upTo q = text := by
  simp [upTo, h.1]

theorem Passes.eq_right (h : p.Passes text q) (h' : p.Passes text r) : q = r := by
  obtain ⟨hr, ho⟩ := h
  obtain ⟨hr', ho'⟩ := h'
  obtain ⟨o, t⟩ := q
  obtain ⟨o', t'⟩ := r
  rw [hr] at hr'
  simp only at ho ho' hr'
  rw [ho, ho', List.append_cancel_left hr']

/-- The offset of a place is the length of the text in front of it. -/
theorem Passes.offset_eq (h : (start text).Passes a p) : p.offset = byteLength a := by
  rw [h.2]
  exact Nat.zero_add _

/-- Places of one text are told apart by their offsets. -/
theorem Passes.eq_of_offset_eq (h : p.Passes a q) (h' : p.Passes b r) (ho : q.offset = r.offset) :
    q = r := by
  have hlen : byteLength a = byteLength b := by
    have := h.2
    have := h'.2
    omega
  have hcut := cut?_append a q.rest
  rw [← h.1, hlen, h'.1, cut?_append, Option.some.injEq, Prod.mk.injEq] at hcut
  exact h.eq_right (hcut.1 ▸ h')

theorem passes_mk (offset : Nat) (text rest : List Char) :
    Passes ⟨offset, text ++ rest⟩ text ⟨offset + byteLength text, rest⟩ := ⟨rfl, rfl⟩

/-- A place of a text is where its offset is in the text. -/
theorem Passes.seek?_eq (h : (start text).Passes a p) : seek? text p.offset = some p := by
  have hcut : cut? p.offset text = some (a, p.rest) := cut?_eq_some_iff.2 ⟨h.1, h.offset_eq.symm⟩
  rw [seek?, hcut]
  rfl

theorem seek?_eq_some_iff {offset : Nat} :
    seek? text offset = some p ↔ (∃ a, (start text).Passes a p) ∧ p.offset = offset := by
  constructor
  · intro h
    obtain ⟨⟨a, rest⟩, hcut, rfl⟩ := Option.map_eq_some_iff.1 h
    obtain ⟨htext, hlen⟩ := cut?_eq_some_iff.1 hcut
    exact ⟨⟨a, htext, by rw [hlen]; exact (Nat.zero_add _).symm⟩, rfl⟩
  · rintro ⟨⟨a, h⟩, rfl⟩
    exact h.seek?_eq

/-- Both a passed text and the text before it lie in the source as slices. -/
theorem Passes.slice?_eq (h : (start text).Passes a p) (h' : p.Passes b q) :
    slice? p.offset q.offset text = some b := by
  obtain ⟨hr, ho⟩ := h
  obtain ⟨hr', ho'⟩ := h'
  simp only [start, Nat.zero_add] at hr ho
  have hcut : cut? p.offset text = some (a, p.rest) := cut?_eq_some_iff.2 ⟨hr, ho.symm⟩
  have hcut' : cut? (q.offset - p.offset) p.rest = some (b, q.rest) :=
    cut?_eq_some_iff.2 ⟨hr', by omega⟩
  have hguard : (guard (p.offset ≤ q.offset) : Option Unit) = some () := if_pos (by omega)
  rw [slice?, hcut]
  change (guard (p.offset ≤ q.offset) >>= fun _ => cut? (q.offset - p.offset) p.rest >>= fun r =>
    some r.1) = some b
  rw [hguard, Option.bind_eq_bind, Option.bind_some, hcut', Option.bind_eq_bind, Option.bind_some]

end Place

end SchemaText
