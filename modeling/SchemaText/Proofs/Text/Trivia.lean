import SchemaText.Proofs.Text.Passage

/-!
Blanks and comments as pieces of text, and the places behind them.
-/
namespace SchemaText

def isBlank (c : Char) : Bool := c == ' ' || c == '\t' || c == '\r' || c == '\n'

/-- Blanks and comments in any order, each comment with the line feed that ends it. -/
inductive ClosedTrivia : List Char → Prop where
  | nil : ClosedTrivia []
  | blank {c : Char} {text : List Char} :
      isBlank c → ClosedTrivia text → ClosedTrivia (c :: text)
  | comment {line text : List Char} :
      '\n' ∉ line → ClosedTrivia text → ClosedTrivia ('/' :: '/' :: line ++ '\n' :: text)

/-- Blanks and comments up to the end of a source, which may end the last comment. -/
def FinalTrivia (text : List Char) : Prop :=
  ClosedTrivia text ∨
    ∃ closed line, ClosedTrivia closed ∧ '\n' ∉ line ∧ text = closed ++ '/' :: '/' :: line

/-- A text without the trivia that it begins with, or, in a comment, without the rest of its line
and the trivia after that. -/
def dropTrivia : (inComment : Bool) → List Char → List Char
  | _, [] => []
  | true, c :: text => dropTrivia (c != '\n') text
  | false, c :: text =>
    if isBlank c then dropTrivia false text
    else if c = '/' ∧ text.head? = some '/' then dropTrivia true text
    else c :: text

variable {c : Char} {text line rest x y : List Char}

theorem dropTrivia_blank (h : isBlank c) :
    dropTrivia false (c :: text) = dropTrivia false text := by
  simp [dropTrivia, h]

theorem dropTrivia_line (h : '\n' ∉ line) :
    dropTrivia true (line ++ rest) = dropTrivia true rest := by
  induction line with
  | nil => rfl
  | cons c line ih =>
    simp only [List.mem_cons, not_or] at h
    have hc : (c != '\n') = true := by simpa using Ne.symm h.1
    rw [List.cons_append, dropTrivia, hc, ih h.2]

theorem dropTrivia_comment (h : '\n' ∉ line) :
    dropTrivia false ('/' :: '/' :: line ++ rest) = dropTrivia true rest := by
  have hb : isBlank '/' = false := by decide
  simp [dropTrivia, hb, dropTrivia_line h]

theorem dropTrivia_closed (h : ClosedTrivia x) :
    dropTrivia false (x ++ y) = dropTrivia false y := by
  induction h with
  | nil => rfl
  | blank hc _ ih => rw [List.cons_append, dropTrivia_blank hc, ih]
  | @comment line text hl _ ih =>
    have he : '/' :: '/' :: line ++ '\n' :: text ++ y = '/' :: '/' :: line ++
      ('\n' :: (text ++ y)) := by
      simp
    rw [he, dropTrivia_comment hl, dropTrivia]
    exact ih

theorem ClosedTrivia.append (hx : ClosedTrivia x) (hy : ClosedTrivia y) :
    ClosedTrivia (x ++ y) := by
  induction hx with
  | nil => exact hy
  | blank hc _ ih => exact .blank hc ih
  | @comment line text hl _ ih =>
    have := ClosedTrivia.comment hl ih
    simpa using this

/-- A comment that a line feed follows takes the line feed with it. -/
theorem FinalTrivia.append_lineFeed (h : FinalTrivia x) : ClosedTrivia (x ++ ['\n']) := by
  obtain h | ⟨closed, line, hc, hl, rfl⟩ := h
  · exact h.append (.blank (by decide) .nil)
  · have := hc.append (.comment hl .nil)
    simpa using this

theorem FinalTrivia.of_closed_append (hx : ClosedTrivia x) (hy : FinalTrivia y) :
    FinalTrivia (x ++ y) := by
  obtain hy | ⟨closed, line, hc, hl, rfl⟩ := hy
  · exact .inl (hx.append hy)
  · exact .inr ⟨x ++ closed, line, hx.append hc, hl, by simp⟩

/-- What is dropped is trivia, and no comment is left open in front of further text. -/
theorem exists_trivia (text : List Char) :
    ∃ x, text = x ++ dropTrivia false text ∧ FinalTrivia x ∧
      (dropTrivia false text ≠ [] → ClosedTrivia x) := by
  match text with
  | [] => exact ⟨[], rfl, .inl .nil, fun _ => .nil⟩
  | c :: text =>
    by_cases hb : isBlank c
    · obtain ⟨x, hx, hf, hc⟩ := exists_trivia text
      rw [dropTrivia_blank hb]
      have h1 : ClosedTrivia [c] := .blank hb .nil
      exact ⟨c :: x, by rw [List.cons_append, ← hx], .of_closed_append h1 hf,
        fun h => h1.append (hc h)⟩
    by_cases hs : c = '/' ∧ text.head? = some '/'
    · obtain ⟨rfl, hh⟩ := hs
      obtain ⟨text, rfl⟩ : ∃ t, text = '/' :: t := List.head?_eq_some_iff.1 hh
      by_cases hm : '\n' ∈ text
      · obtain ⟨line, rest, rfl, hl⟩ := List.eq_append_cons_of_mem hm
        obtain ⟨x, hx, hf, hc⟩ := exists_trivia rest
        have hd : dropTrivia false ('/' :: '/' :: (line ++ '\n' :: rest)) =
          dropTrivia false rest := by
          rw [← List.cons_append, ← List.cons_append, dropTrivia_comment hl]
          rfl
        have h1 : ClosedTrivia ('/' :: '/' :: line ++ ['\n']) := .comment hl .nil
        rw [hd]
        refine ⟨'/' :: '/' :: line ++ ['\n'] ++ x, ?_, .of_closed_append h1 hf,
          fun h => h1.append (hc h)⟩
        simpa using hx
      · have hd : dropTrivia false ('/' :: '/' :: text) = [] := by
          rw [← List.append_nil ('/' :: '/' :: text), dropTrivia_comment hm]
          rfl
        exact ⟨'/' :: '/' :: text, by simp [hd], .inr ⟨[], text, .nil, hm, rfl⟩, by simp [hd]⟩
    · exact ⟨[], by simp [dropTrivia, hb, hs], .inl .nil, fun _ => .nil⟩
termination_by text.length

theorem dropTrivia_suffix (b : Bool) (text : List Char) : dropTrivia b text <:+ text := by
  induction text generalizing b with
  | nil => simp [dropTrivia]
  | cons c text ih =>
    cases b with
    | true => exact (ih _).trans (List.suffix_cons c text)
    | false =>
      rw [dropTrivia]
      split
      · exact (ih _).trans (List.suffix_cons c text)
      · split
        · exact (ih _).trans (List.suffix_cons c text)
        · exact List.suffix_rfl

theorem dropTrivia_idem (text : List Char) :
    dropTrivia false (dropTrivia false text) = dropTrivia false text := by
  obtain ⟨x, hx, -, hc⟩ := exists_trivia text
  by_cases h : dropTrivia false text = []
  · simp [h, dropTrivia]
  · have := dropTrivia_closed (y := dropTrivia false text) (hc h)
    rw [← hx] at this
    exact this.symm

namespace Place

/-- The place behind the trivia at `p`. -/
def skip (p : Place) : Place where
  offset := p.offset + (byteLength p.rest - byteLength (dropTrivia false p.rest))
  rest := dropTrivia false p.rest

/-- The bytes of the trivia at `p`. -/
def lead (p : Place) : Nat := p.bytes - p.skip.bytes

variable {p q : Place}

theorem exists_passes_skip (p : Place) :
    ∃ x, p.Passes x p.skip ∧ FinalTrivia x ∧ (p.skip.rest ≠ [] → ClosedTrivia x) := by
  obtain ⟨x, hx, hf, hc⟩ := exists_trivia p.rest
  refine ⟨x, ⟨hx, ?_⟩, hf, hc⟩
  have := congrArg byteLength hx
  rw [byteLength_append] at this
  simp only [skip]
  omega

@[simp] theorem skip_skip (p : Place) : p.skip.skip = p.skip := by
  simp [skip, dropTrivia_idem]

theorem skip_eq_self (h : ∀ c ∈ p.rest.head?, isBlank c = false ∧ c ≠ '/') : p.skip = p := by
  have hd : dropTrivia false p.rest = p.rest := by
    cases hr : p.rest with
    | nil => rfl
    | cons c rest =>
      obtain ⟨hb, hc⟩ := h c (by simp [hr])
      simp [dropTrivia, hb, hc]
  simp [skip, hd]

theorem bytes_skip_add_lead (p : Place) : p.skip.bytes + p.lead = p.bytes := by
  obtain ⟨x, hx, -⟩ := p.exists_passes_skip
  have := hx.bytes_eq
  rw [lead]
  omega

/-- Going over a piece of trivia does not change where the trivia ends. -/
theorem Passes.skip_eq {x : List Char} (h : p.Passes x q) (hx : ClosedTrivia x) :
    p.skip = q.skip := by
  obtain ⟨y, hy, -⟩ := q.exists_passes_skip
  have hr : p.skip.rest = q.skip.rest := by
    simp only [skip]
    rw [h.1, dropTrivia_closed hx]
  obtain ⟨z, hz, -⟩ := p.exists_passes_skip
  have hxy := h.trans hy
  have he : z = x ++ y := by
    have := hz.1.symm.trans hxy.1
    rw [hr] at this
    exact List.append_cancel_right this
  exact (he ▸ hz).eq_right hxy

end Place

end SchemaText
