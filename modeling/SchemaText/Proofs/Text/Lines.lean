import SchemaText.Proofs.Text.Position

/-!
Lines of a text, one after the other.
-/
namespace SchemaText

variable {text line rest : List Char} {rows : List (List Char)}

theorem lines_eq_splitOn (text : List Char) : lines text = text.splitOn '\n' := by
  induction text with
  | nil => rfl
  | cons c text ih =>
    obtain ⟨first, more, h⟩ := List.exists_cons_of_ne_nil (lines_ne_nil text)
    rw [List.splitOn, List.splitOnP_cons_eq_if_modifyHead, ← List.splitOn, ← ih, lines_cons, h]
    simp

/-- Rows that are joined by line feeds are the lines of what comes of it. -/
theorem lines_intercalate (hne : rows ≠ []) (h : ∀ row ∈ rows, '\n' ∉ row) :
    lines (['\n'].intercalate rows) = rows := by
  rw [lines_eq_splitOn, List.splitOn_intercalate '\n' h hne]

theorem lines_of_not_mem (h : '\n' ∉ line) : lines line = [line] := by
  have hone := lines_intercalate (List.cons_ne_nil line []) (by simpa using h)
  simpa [List.intercalate] using hone

theorem lines_append_lineFeed (h : '\n' ∉ line) (rest : List Char) :
    lines (line ++ '\n' :: rest) = line :: lines rest := by
  have hrest : lines ('\n' :: rest) = [] :: lines rest := by rw [lines_cons, if_pos rfl]
  have hline : lines line = [] ++ [line] := lines_of_not_mem h
  have happend := lines_append hline hrest
  rwa [List.append_nil] at happend

/-- A text is a line, or a line that is ended and a text behind it. -/
@[elab_as_elim]
theorem line_induction {motive : List Char → Prop} (text : List Char)
    (last : ∀ line, '\n' ∉ line → motive line)
    (ended : ∀ line rest, '\n' ∉ line → motive rest → motive (line ++ '\n' :: rest)) :
    motive text := by
  induction hn : text.length using Nat.strongRecOn generalizing text with
  | ind n ih =>
    by_cases h : '\n' ∈ text
    · obtain ⟨line, rest, rfl, hline⟩ := List.eq_append_cons_of_mem h
      refine ended line rest hline (ih rest.length ?_ rest rfl)
      simp [← hn]
      omega
    · exact last text h

/-- No line has a line feed in it. -/
theorem lineFeed_not_mem_of_mem_lines (h : line ∈ lines text) : '\n' ∉ line := by
  induction text using line_induction with
  | last last hlast =>
    rw [lines_of_not_mem hlast, List.mem_singleton] at h
    rwa [h]
  | ended first rest hfirst ih =>
    rw [lines_append_lineFeed hfirst] at h
    rcases List.mem_cons.1 h with rfl | h
    · exact hfirst
    · exact ih h

end SchemaText
