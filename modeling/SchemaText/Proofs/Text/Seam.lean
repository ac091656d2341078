import SchemaText.Proofs.Text.Trivia

/-!
Places in a text that stands in front of another one, or behind it.
-/
namespace SchemaText

/-- The text is empty or ends with a line feed. -/
def EndsLine (text : List Char) : Prop := ∀ c ∈ text.getLast?, c = '\n'

variable {text more a b : List Char}

theorem EndsLine.of_append (h : EndsLine (a ++ b)) : EndsLine b := by
  intro c hc
  apply h c
  rw [List.getLast?_append, Option.mem_def.1 hc]
  rfl

/-- A text that holds no line feed is not all that is left. -/
theorem EndsLine.ne_nil (h : EndsLine (a ++ b)) (ha : a ≠ []) (hn : '\n' ∉ a) : b ≠ [] := by
  rintro rfl
  rw [List.append_nil] at h
  have hlast := List.getLast?_eq_some_getLast ha
  exact hn (h _ hlast ▸ List.getLast_mem ha)

theorem dropTrivia_append_of_ne_nil (h : EndsLine text) (hne : text ≠ []) (inComment : Bool) :
    dropTrivia inComment (text ++ more) =
      if dropTrivia inComment text = [] then dropTrivia false more
      else dropTrivia inComment text ++ more := by
  induction text generalizing inComment with
  | nil => exact absurd rfl hne
  | cons c text ih =>
    by_cases ht : text = []
    · subst ht
      obtain rfl : c = '\n' := h c rfl
      cases inComment <;> simp [dropTrivia, isBlank]
    · have hends : EndsLine text := EndsLine.of_append (a := [c]) h
      have ih := ih hends ht
      cases inComment with
      | true => exact ih (c != '\n')
      | false =>
        have hhead : (text ++ more).head? = text.head? := by
          obtain ⟨d, rest, rfl⟩ := List.exists_cons_of_ne_nil ht
          rfl
        simp only [List.cons_append, dropTrivia, hhead]
        split
        · exact ih false
        · split
          · exact ih true
          · simp

/-- No comment of a text with ended lines goes on in the text behind it. -/
theorem dropTrivia_append (h : EndsLine text) :
    dropTrivia false (text ++ more) =
      if dropTrivia false text = [] then dropTrivia false more
      else dropTrivia false text ++ more := by
  by_cases hne : text = []
  · simp [hne, dropTrivia]
  · exact dropTrivia_append_of_ne_nil h hne false

namespace Place

variable {p q : Place} {k : Nat}

/-- The same place in a text that goes on. -/
def extend (p : Place) (more : List Char) : Place := ⟨p.offset, p.rest ++ more⟩

/-- The same place in a text with so many bytes in front. -/
def shift (k : Nat) (p : Place) : Place := ⟨k + p.offset, p.rest⟩

/-- The place behind all that is left. -/
def afterRest (p : Place) (more : List Char) : Place := ⟨p.offset + byteLength p.rest, more⟩

theorem Passes.extend (h : p.Passes text q) : (p.extend more).Passes text (q.extend more) := by
  refine ⟨?_, h.2⟩
  simp only [Place.extend]
  rw [h.1, List.append_assoc]

theorem Passes.shift (h : p.Passes text q) : (p.shift k).Passes text (q.shift k) := by
  refine ⟨h.1, ?_⟩
  simp only [Place.shift]
  rw [h.2, Nat.add_assoc]

theorem Passes.afterRest_eq (h : p.Passes text q) : p.afterRest more = q.afterRest more := by
  simp only [afterRest, mk.injEq, and_true]
  rw [h.1, byteLength_append, h.2, Nat.add_assoc]

theorem Passes.endsLine (h : p.Passes text q) (hp : EndsLine p.rest) : EndsLine q.rest :=
  EndsLine.of_append (h.1 ▸ hp)

theorem skip_shift : (p.shift k).skip = p.skip.shift k := by
  simp [skip, shift, Nat.add_assoc]

/-- Trivia in front of something ends there, whatever stands behind. -/
theorem skip_extend (h : EndsLine p.rest) (hne : p.skip.rest ≠ []) :
    (p.extend more).skip = p.skip.extend more := by
  have hdrop : dropTrivia false p.rest ≠ [] := hne
  have hd : dropTrivia false (p.rest ++ more) = dropTrivia false p.rest ++ more := by
    rw [dropTrivia_append h, if_neg hdrop]
  simp only [skip, extend, hd, byteLength_append, mk.injEq, and_true]
  omega

/-- Trivia up to the end of a text is followed by the trivia of the text behind it. -/
theorem skip_extend_of_nil (h : EndsLine p.rest) (hnil : p.skip.rest = []) :
    (p.extend more).skip = (p.afterRest more).skip := by
  have hdrop : dropTrivia false p.rest = [] := hnil
  have hd : dropTrivia false (p.rest ++ more) = dropTrivia false more := by
    rw [dropTrivia_append h, if_pos hdrop]
  have hle := (dropTrivia_suffix false more)
  obtain ⟨x, hx⟩ := hle
  have hb := congrArg byteLength hx
  rw [byteLength_append] at hb
  simp only [skip, extend, afterRest, hd, byteLength_append, mk.injEq, and_true]
  omega

end Place

end SchemaText
