import SchemaText.Proofs.Text.Boundary
import SchemaText.Proofs.Text.Lines

/-!
The rows of a snippet: consecutive lines of the text behind their numbers, and the carets below the
character at the offset.
-/
namespace SchemaText.Snippet

open Position

variable {text line : List Char} {index start middle stop digits n i offset caretWidth window : Nat}

/-- The rows of a snippet, those above the line of its offset, the row of this line, the carets and
the rows below them. -/
structure Layout where
  above : List (List Char)
  own : List Char
  carets : List Char
  below : List (List Char)

/-- All rows from top to bottom. -/
def Layout.rows (layout : Layout) : List (List Char) :=
  layout.above ++ layout.own :: layout.carets :: layout.below

/-- The rows that show a line of the text. -/
def Layout.sourceRows (layout : Layout) : List (List Char) :=
  layout.above ++ layout.own :: layout.below

/-- The number of digits of the one-based number of a line. -/
def numberWidth (index : Nat) : Nat := (Nat.toDigits 10 (index + 1)).length

/-- A row with a line of the text as it is, behind the number of this line, which ends in the last
of `width` columns. -/
def IsSourceRow (text : List Char) (width index : Nat) (row : List Char) : Prop :=
  ∃ pad line, (lines text)[index]? = some line ∧ pad + numberWidth index = width ∧
    row = List.replicate pad ' ' ++ Nat.toDigits 10 (index + 1) ++ " | ".toList ++ line

/-- The lines from `start` up to `stop` with their indices. -/
def numbered (text : List Char) (start stop : Nat) : List (List Char × Nat) :=
  ((lines text).zipIdx.drop start).take (stop - start)

/-- The first line that is shown. -/
def firstShown (text : List Char) (offset window : Nat) : Nat :=
  (ofOffset text offset).line - min window 1

/-- The line behind the last one that is shown. -/
def endShown (text : List Char) (offset window : Nat) : Nat :=
  min (lines text).length ((ofOffset text offset).line + window / 2 + 1)

/-- The width of the numbers that are shown. -/
def widthShown (text : List Char) (offset window : Nat) : Nat :=
  (Nat.toDigits 10 (endShown text offset window)).length

/-- The rows of the snippet for an offset. -/
def shown (text : List Char) (offset caretWidth window : Nat) : Layout :=
  let position := ofOffset text offset
  let digits := widthShown text offset window
  { above := (numbered text (firstShown text offset window) position.line).map (row digits)
    own := row digits ((lines text)[position.line]?.getD [], position.line)
    carets := caretRow digits position.column caretWidth
    below :=
      (numbered text (position.line + 1) (endShown text offset window)).map (row digits) }

/-! ### Lines and their numbers -/

/-- A larger number has no fewer digits. -/
theorem numberWidth_mono (h : index ≤ n) : numberWidth index ≤ numberWidth n := by
  have hpos : 0 < numberWidth n := Nat.length_toDigits_pos
  have hlt : n + 1 < 10 ^ numberWidth n :=
    (Nat.length_toDigits_le_iff (by decide) hpos).1 (Nat.le_refl _)
  exact (Nat.length_toDigits_le_iff (by decide) hpos).2 (by omega)

theorem length_numbered (h : stop ≤ (lines text).length) :
    (numbered text start stop).length = stop - start := by
  rw [numbered, List.length_take, List.length_drop, List.length_zipIdx]
  omega

theorem getElem?_numbered {entry : List Char × Nat}
    (h : (numbered text start stop)[i]? = some entry) :
    entry.2 = start + i ∧ entry.2 < stop ∧ (lines text)[entry.2]? = some entry.1 := by
  rw [numbered, List.getElem?_take] at h
  split at h
  case isTrue hi =>
    rw [List.getElem?_drop, List.getElem?_zipIdx, Nat.zero_add, Option.map_eq_some_iff] at h
    obtain ⟨line, hline, rfl⟩ := h
    exact ⟨rfl, by simp only; omega, hline⟩
  case isFalse => simp at h

theorem numbered_append (h : start ≤ middle) (h' : middle ≤ stop) :
    numbered text start middle ++ numbered text middle stop = numbered text start stop := by
  have hlength : stop - start = (middle - start) + (stop - middle) := by omega
  rw [numbered, numbered, numbered, hlength, List.take_add, List.drop_drop, Nat.add_sub_cancel' h]

theorem numbered_succ (h : (lines text)[index]? = some line) :
    numbered text index (index + 1) = [(line, index)] := by
  have hentry : (lines text).zipIdx[index]? = some (line, index) := by simp [h]
  obtain ⟨hlt, hget⟩ := List.getElem?_eq_some_iff.1 hentry
  rw [numbered, Nat.add_sub_cancel_left, List.drop_eq_getElem_cons hlt, hget, List.take_succ_cons,
    List.take_zero]

theorem isSourceRow_row (h : (lines text)[index]? = some line)
    (hdigits : numberWidth index ≤ digits) :
    IsSourceRow text digits index (row digits (line, index)) :=
  ⟨digits - numberWidth index, line, h, Nat.sub_add_cancel hdigits, rfl⟩

/-- The rows of consecutive lines show these lines one after the other. -/
theorem isSourceRow_of_getElem? {row : List Char} (hstop : stop ≤ n + 1)
    (h : ((numbered text start stop).map (Snippet.row (numberWidth n)))[i]? = some row) :
    IsSourceRow text (numberWidth n) (start + i) row := by
  rw [List.getElem?_map, Option.map_eq_some_iff] at h
  obtain ⟨⟨line, index⟩, hentry, rfl⟩ := h
  obtain ⟨rfl, hlt, hline⟩ := getElem?_numbered hentry
  exact isSourceRow_row hline (numberWidth_mono (by omega))

/-- In front of a line a row has its number and three more characters. -/
theorem exists_row_eq_append (front rest : List Char) (hdigits : numberWidth index ≤ digits) :
    ∃ left, row digits (front ++ rest, index) = left ++ rest ∧
      left.length = digits + 3 + front.length := by
  refine ⟨row digits (front, index), by simp [row], ?_⟩
  have hnumber : (Nat.toDigits 10 (index + 1)).length ≤ digits := hdigits
  have hbar : " | ".toList.length = 3 := rfl
  simp only [row, List.length_append, List.length_replicate, hbar]
  omega

/-! ### Rows and their ends -/

theorem lineFeed_not_mem_row (h : '\n' ∉ line) : '\n' ∉ row digits (line, index) := by
  have hnumber : '\n' ∉ Nat.toDigits 10 (index + 1) := fun hmem =>
    absurd (Nat.isDigit_of_mem_toDigits (by decide) (by decide) hmem) (by decide)
  simp [row, hnumber, h]

theorem lineFeed_not_mem_caretRow (digits column width : Nat) :
    '\n' ∉ caretRow digits column width := by
  simp [caretRow]

theorem lineFeed_not_mem_of_mem_rows {row : List Char}
    (h : row ∈ rows text offset caretWidth window) : '\n' ∉ row := by
  have hnumbered : ∀ {digits start stop},
      row ∈ (numbered text start stop).map (Snippet.row digits) → '\n' ∉ row := by
    intro digits start stop hmem
    obtain ⟨⟨line, index⟩, hentry, rfl⟩ := List.mem_map.1 hmem
    obtain ⟨i, hi⟩ := List.mem_iff_getElem?.1 hentry
    obtain ⟨-, -, hline⟩ := getElem?_numbered hi
    exact lineFeed_not_mem_row (lineFeed_not_mem_of_mem_lines (List.mem_of_getElem? hline))
  rcases List.mem_append.1 h with h | h
  · exact hnumbered h
  · rcases List.mem_cons.1 h with rfl | h
    · exact lineFeed_not_mem_caretRow _ _ _
    · exact hnumbered h

/-- A snippet is split into the rows it was made of. -/
theorem lines_render (text : List Char) (offset caretWidth window : Nat) :
    lines (render text offset caretWidth window).toList = rows text offset caretWidth window := by
  rw [render, String.toList_ofList]
  exact lines_intercalate (by simp [rows]) fun row => lineFeed_not_mem_of_mem_rows

/-! ### The line of an offset -/

/-- The line of an offset is in the text. -/
theorem line_lt_length_lines (text : List Char) (n : Nat) :
    (ofOffset text n).line < (lines text).length := by
  have hinitial := startedBefore_initial n text
  obtain ⟨after, hsplit⟩ := startedBefore_initial n text
  obtain ⟨front, hline, -⟩ := exists_line (startedBefore n text) after
  rw [hsplit, ofOffset_byteLength hinitial] at hline
  exact (List.getElem?_eq_some_iff.1 hline).1

theorem line_lt_endShown (text : List Char) (offset window : Nat) :
    (ofOffset text offset).line < endShown text offset window := by
  have hlt := line_lt_length_lines text offset
  rw [endShown]
  omega

/-! ### The layout of a snippet -/

/-- The last of the upper rows is the row of the line itself. -/
theorem map_row_numbered_eq (text : List Char) (offset caretWidth window : Nat) :
    (numbered text (firstShown text offset window) ((ofOffset text offset).line + 1)).map
        (row (widthShown text offset window)) =
      (shown text offset caretWidth window).above ++
        [(shown text offset caretWidth window).own] := by
  have hline := List.getElem?_eq_getElem (line_lt_length_lines text offset)
  have hfirst : firstShown text offset window ≤ (ofOffset text offset).line := Nat.sub_le _ _
  rw [← numbered_append hfirst (Nat.le_succ _), numbered_succ hline, List.map_append, shown, hline]
  rfl

theorem rows_eq_rows_shown (text : List Char) (offset caretWidth window : Nat) :
    rows text offset caretWidth window = (shown text offset caretWidth window).rows := by
  rw [Layout.rows, List.append_cons, ← map_row_numbered_eq]
  rfl

/-- Without the carets the rows show consecutive lines. -/
theorem sourceRows_shown (text : List Char) (offset caretWidth window : Nat) :
    (shown text offset caretWidth window).sourceRows =
      (numbered text (firstShown text offset window) (endShown text offset window)).map
        (row (widthShown text offset window)) := by
  have hfirst : firstShown text offset window ≤ (ofOffset text offset).line + 1 :=
    Nat.le_succ_of_le (Nat.sub_le _ _)
  rw [Layout.sourceRows, List.append_cons, ← map_row_numbered_eq,
    ← numbered_append hfirst (line_lt_endShown text offset window), List.map_append]
  rfl

theorem length_above_shown (text : List Char) (offset caretWidth window : Nat) :
    (shown text offset caretWidth window).above.length =
      (ofOffset text offset).line - firstShown text offset window := by
  have hlt := line_lt_length_lines text offset
  rw [shown, List.length_map, length_numbered (Nat.le_of_lt hlt)]

theorem length_below_shown (text : List Char) (offset caretWidth window : Nat) :
    (shown text offset caretWidth window).below.length =
      endShown text offset window - ((ofOffset text offset).line + 1) := by
  have hle : endShown text offset window ≤ (lines text).length := Nat.min_le_left _ _
  rw [shown, List.length_map, length_numbered hle]

/-- The rows are as wide as the number of the last line that is shown. -/
theorem numberWidth_eq (text : List Char) (offset caretWidth window : Nat) :
    numberWidth ((ofOffset text offset).line + (shown text offset caretWidth window).below.length) =
      widthShown text offset window := by
  have hlt := line_lt_endShown text offset window
  rw [length_below_shown, numberWidth, widthShown]
  congr 2
  omega

/-- The row of the line at an offset goes on behind the offset as the text does. -/
theorem exists_own_eq_append (before after : List Char) (caretWidth window : Nat) :
    ∃ front, (shown (before ++ after) (byteLength before) caretWidth window).own =
        front ++ after.takeWhile (· != '\n') ∧
      front.length = widthShown (before ++ after) (byteLength before) window + 3 +
        (ofOffset (before ++ after) (byteLength before)).column := by
  obtain ⟨start, hline, hcolumn⟩ := exists_line before after
  have hdigits : numberWidth (ofOffset (before ++ after) (byteLength before)).line ≤
      widthShown (before ++ after) (byteLength before) window := by
    rw [← numberWidth_eq _ _ caretWidth]
    exact numberWidth_mono (Nat.le_add_right _ _)
  rw [shown, hline, hcolumn]
  exact exists_row_eq_append start _ hdigits

/-- A snippet is the line of its offset with at most one line above it and half a window of lines
below it, as far as the text has them. The numbers of the lines are as wide as the largest one. The
carets begin below the character at the offset, or behind the line if the offset is at its end. -/
theorem render_layout (text : List Char) (offset caretWidth window : Nat) :
    let position := ofOffset text offset
    ∃ layout : Layout, lines (render text offset caretWidth window).toList = layout.rows ∧
      layout.above.length = (if 0 < window ∧ 0 < position.line then 1 else 0) ∧
      layout.below.length = min (window / 2) ((lines text).length - 1 - position.line) ∧
      let width := numberWidth (position.line + layout.below.length)
      let indent := width + 3 + position.column
      (∀ i row, layout.sourceRows[i]? = some row →
        IsSourceRow text width (position.line - layout.above.length + i) row) ∧
      layout.carets = List.replicate indent ' ' ++ List.replicate caretWidth '^' ∧
      ∀ before after, text = before ++ after → byteLength before = offset →
        ∃ front, layout.own = front ++ after.takeWhile (· != '\n') ∧ front.length = indent := by
  intro position
  have hend : position.line < endShown text offset window := line_lt_endShown text offset window
  have habove : _ = position.line - firstShown text offset window :=
    length_above_shown text offset caretWidth window
  have hbelow : _ = endShown text offset window - (position.line + 1) :=
    length_below_shown text offset caretWidth window
  have hwidth : numberWidth (position.line + _) = _ := numberWidth_eq text offset caretWidth window
  have hfirst : firstShown text offset window = position.line - min window 1 := rfl
  have hstop : endShown text offset window =
      min (lines text).length (position.line + window / 2 + 1) := rfl
  refine ⟨shown text offset caretWidth window, ?_, ?_, ?_, ?_, ?_, ?_⟩
  · rw [lines_render, rows_eq_rows_shown]
  · rw [habove, hfirst]
    split <;> omega
  · rw [hbelow, hstop]
    omega
  · intro i row hrow
    rw [sourceRows_shown, ← hwidth] at hrow
    rw [habove, Nat.sub_sub_self (hfirst ▸ Nat.sub_le _ _)]
    exact isSourceRow_of_getElem? (by omega) hrow
  · rw [hwidth]
    rfl
  · rintro before after rfl rfl
    rw [hwidth]
    exact exists_own_eq_append before after caretWidth window

/-- Line numbers with one and with two digits, and a character with two bytes in front of the
carets. -/
theorem render_layout_umlaut :
    let before := "\n\n\n\n\n\n\n\nÄ = ".toList
    let after := "B\nC".toList
    byteLength before = 13 ∧ ∃ layout : Layout,
      lines (render (before ++ after) 13 1 5).toList = layout.rows ∧ layout.below.length = 1 ∧
      ∃ front, layout.own = front ++ after.takeWhile (· != '\n') ∧ front.length = 9 := by
  intro before after
  have hoffset : byteLength before = 13 := by decide
  obtain ⟨layout, hrows, -, hbelow, -, -, halign⟩ := render_layout (before ++ after) 13 1 5
  obtain ⟨front, hown, hfront⟩ := halign before after rfl hoffset
  have hone : layout.below.length = 1 := by
    rw [hbelow]
    decide
  refine ⟨hoffset, layout, hrows, hone, front, hown, ?_⟩
  rw [hfront, hone]
  decide

end SchemaText.Snippet
