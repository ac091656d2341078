import Mathlib.Data.List.DropRight
import SchemaText.Proofs.Text.Encoding
import SchemaText.Proofs.Text.Lines
import SchemaText.Proofs.Text.Seam

/-!
A position counts the line feeds in front of an offset, and the characters behind the last of them.
-/
namespace SchemaText

open Position

variable {text line rest a : List Char} {n : Nat}

/-- Where the last line of some bytes begins: behind their last line feed, or where they begin if
they have none. -/
def lastLineStart (bytes : List UInt8) : Nat := (bytes.rdropWhile (· != lineFeed)).length

/-- The position of an offset, found by leaving lines behind as long as the offset is past them,
each of them with one byte for its line feed. `last` is the end of the line that was left behind
last. There is no result if more bytes were to be left behind than remain. -/
def leaveLines? : List (List Char) → Nat → Nat → Position → Option Position
  | [], _, _, last => some last
  | line :: rest, index, remaining, _ =>
    if remaining ≤ byteLength line then
      some ⟨index, ((charStarts line).takeWhile (· < remaining)).length⟩
    else if byteLength line + 1 ≤ remaining then
      leaveLines? rest (index + 1) (remaining - (byteLength line + 1)) ⟨index, line.length⟩
    else none

/-! ### Lines -/

theorem line_behind (text : List Char) : (behind text).line = text.count '\n' := by
  induction text with
  | nil => rfl
  | cons c text ih =>
    rw [behind_cons, follow, List.count_cons, ← ih]
    by_cases hc : c = '\n'
    · simp [hc]
    · by_cases hline : (behind text).line = 0 <;> simp [hc, hline]

/-- Of a character that is cut the bytes are no line feeds. -/
theorem count_take_encoded (n : Nat) (text : List Char) :
    ((encoded text).take n).count lineFeed = (startedBefore n text).count '\n' := by
  induction text generalizing n with
  | nil => simp
  | cons c text ih =>
    by_cases hn : n = 0
    · simp [hn]
    · rw [startedBefore_cons hn, encoded_cons, List.take_append, List.count_append,
        String.length_utf8EncodeChar, ih, List.count_cons]
      by_cases hc : c = '\n'
      · obtain ⟨k, rfl⟩ := Nat.exists_eq_succ_of_ne_zero hn
        simp [hc, Nat.add_comm]
      · have hfree : lineFeed ∉ (String.utf8EncodeChar c).take n := fun hmem =>
          hc (lineFeed_mem_utf8EncodeChar.1 (List.mem_of_mem_take hmem))
        simp [List.count_eq_zero.2 hfree, hc]

/-! ### Columns -/

theorem behind_of_not_mem (h : '\n' ∉ line) : behind line = ⟨0, line.length⟩ := by
  have hline : lines line = [] ++ [line] := lines_of_not_mem h
  exact foldl_after_eq hline

/-- A line feed begins a new line. -/
theorem behind_append_lineFeed (h : '\n' ∉ line) (rest : List Char) :
    behind (line ++ '\n' :: rest) = ⟨(behind rest).line + 1, (behind rest).column⟩ := by
  obtain ⟨init, last, hrest⟩ := exists_lines_eq_concat rest
  have hlines : lines (line ++ '\n' :: rest) = (line :: init) ++ [last] := by
    rw [lines_append_lineFeed h, hrest]
    rfl
  have hbehind : behind (line ++ '\n' :: rest) = _ := foldl_after_eq hlines
  have hbehind' : behind rest = _ := foldl_after_eq hrest
  rw [hbehind, hbehind']
  rfl

/-- The column at the end of a text is the length of its last line. -/
theorem exists_last_line (text : List Char) : ∃ front last, text = front ++ last ∧
    EndsLine front ∧ '\n' ∉ last ∧ (behind text).column = last.length := by
  induction text using line_induction with
  | last line h => exact ⟨[], line, rfl, by simp [EndsLine], h, by rw [behind_of_not_mem h]⟩
  | ended line rest h ih =>
    obtain ⟨front, last, rfl, hfront, hlast, hcolumn⟩ := ih
    refine ⟨line ++ '\n' :: front, last, by simp, ?_, hlast, ?_⟩
    · intro c hc
      cases front with
      | nil => simpa [eq_comm] using hc
      | cons d front =>
        apply hfront c
        simpa [List.getLast?_append, List.getLast?_cons_cons] using hc
    · rw [behind_append_lineFeed h, hcolumn]

theorem getLast?_encoded (h : EndsLine text) : ∀ b ∈ (encoded text).getLast?, b = lineFeed := by
  intro b hb
  rcases List.eq_nil_or_concat' text with rfl | ⟨front, c, rfl⟩
  · simp at hb
  · obtain rfl : c = '\n' := h c (by simp)
    simpa [eq_comm] using hb

/-- Bytes without a line feed belong to the line that begins behind the last line feed. -/
theorem lastLineStart_append {before line : List UInt8} (hline : lineFeed ∉ line)
    (hbefore : ∀ b ∈ before.getLast?, b = lineFeed) :
    lastLineStart (before ++ line) = before.length := by
  induction line using List.reverseRecOn with
  | nil =>
    rw [List.append_nil, lastLineStart, List.rdropWhile_eq_self_iff.2]
    intro hne
    simpa using hbefore _ (List.getLast?_eq_some_getLast hne)
  | append_singleton line b ih =>
    rw [List.mem_append, not_or, List.mem_singleton] at hline
    obtain ⟨hline, hb⟩ := hline
    have hother : (b != lineFeed) = true := bne_iff_ne.2 (Ne.symm hb)
    rw [← List.append_assoc, lastLineStart, List.rdropWhile_concat_pos (· != lineFeed) _ _ hother]
    exact ih hline

theorem take_encoded (h : a <+: text) (hle : n ≤ byteLength a) :
    (encoded text).take n = (encoded a).take n := by
  obtain ⟨rest, rfl⟩ := h
  rw [encoded_append, List.take_append_of_le_length (by rwa [length_encoded])]

/-- Of the characters that begin before an offset, those behind the last line feed begin where the
last line of the bytes in front of the offset does. -/
theorem exists_lastLineStart (n : Nat) (text : List Char) : ∃ front last,
    startedBefore n text = front ++ last ∧ (behind (startedBefore n text)).column = last.length ∧
      lastLineStart ((encoded text).take (min n (byteLength text))) = byteLength front := by
  obtain ⟨front, last, hsplit, hfront, hlast, hcolumn⟩ := exists_last_line (startedBefore n text)
  have hinitial := startedBefore_initial n text
  have hreach := min_le_byteLength_startedBefore n text
  have hstart : byteLength front ≤ min n (byteLength text) := by
    have hlength := byteLength_le_of_initial hinitial
    rw [hsplit, byteLength_append] at hlength
    rcases List.eq_nil_or_concat' front with rfl | ⟨line, c, rfl⟩
    · exact Nat.zero_le _
    · -- The line feed itself begins before the offset, and it has one byte.
      obtain rfl : c = '\n' := hfront c (by simp)
      have hbegin := byteLength_lt_of_startedBefore (hsplit.trans (List.append_assoc _ _ _))
      have hbytes : byteLength (line ++ ['\n']) = byteLength line + 1 := byteLength_append _ _
      omega
  refine ⟨front, last, hsplit, hcolumn, ?_⟩
  have hfree : ∀ k, lineFeed ∉ (encoded last).take k := fun k hmem =>
    hlast (lineFeed_mem_encoded.1 (List.mem_of_mem_take hmem))
  rw [take_encoded hinitial hreach, hsplit, encoded_append, List.take_append,
    List.take_of_length_le (by rwa [length_encoded]),
    lastLineStart_append (hfree _) (getLast?_encoded hfront), length_encoded]

theorem column_ofOffset (n : Nat) (text : List Char) :
    (ofOffset text n).column = (charStarts text).countP fun i =>
      lastLineStart ((encoded text).take (min n (byteLength text))) ≤ i ∧
        i < min n (byteLength text) := by
  obtain ⟨front, last, hsplit, hcolumn, hstart⟩ := exists_lastLineStart n text
  have hbefore : ∀ i ∈ charStarts text,
      (byteLength front ≤ i ∧ i < min n (byteLength text) ↔ byteLength front ≤ i ∧ i < n) := by
    intro i hi
    have hlt := lt_of_mem_charStarts hi
    omega
  have hfront : (charStarts front).countP (byteLength front ≤ ·) = 0 := by
    rw [List.countP_eq_zero]
    intro i hi
    simpa using lt_of_mem_charStarts hi
  have hlast : ((charStarts last).map (byteLength front + ·)).countP (byteLength front ≤ ·) =
      last.length := by
    rw [← length_charStarts last, ← List.length_map (byteLength front + ·), List.countP_eq_length]
    simp
  calc (ofOffset text n).column = last.length := hcolumn
    _ = (charStarts (front ++ last)).countP (byteLength front ≤ ·) := by
      rw [charStarts_append, List.countP_append, hfront, hlast, Nat.zero_add]
    _ = ((charStarts text).filter (· < n)).countP (byteLength front ≤ ·) := by
      rw [← hsplit, (charStarts_startedBefore n text).1]
    _ = (charStarts text).countP fun i => byteLength front ≤ i ∧ i < n := by
      rw [List.countP_filter]
      simp
    _ = _ := by
      rw [hstart]
      exact List.countP_congr fun i hi => by simpa using (hbefore i hi).symm

/-! ### The walk over the lines -/

/-- Inside of a line without a line feed. -/
theorem ofOffset_of_not_mem (h : '\n' ∉ line) (n : Nat) :
    ofOffset line n = ⟨0, ((charStarts line).takeWhile (· < n)).length⟩ := by
  have hfree : '\n' ∉ startedBefore n line :=
    fun hmem => h ((startedBefore_initial n line).subset hmem)
  rw [ofOffset_eq, behind_of_not_mem hfree, (charStarts_startedBefore n line).2, length_charStarts]

theorem ofOffset_append_of_le (h : n ≤ byteLength a) (rest : List Char) :
    ofOffset (a ++ rest) n = ofOffset a n := by
  rw [ofOffset_eq, ofOffset_eq, startedBefore_append_eq, Nat.sub_eq_zero_of_le h,
    startedBefore_zero, List.append_nil]

/-- Past a line and its line feed. -/
theorem ofOffset_append_lineFeed (h : '\n' ∉ line) (hn : byteLength line < n) (rest : List Char) :
    ofOffset (line ++ '\n' :: rest) n =
      ⟨(ofOffset rest (n - (byteLength line + 1))).line + 1,
        (ofOffset rest (n - (byteLength line + 1))).column⟩ := by
  rw [ofOffset_eq, startedBefore_append_eq, startedBefore_of_le (Nat.le_of_lt hn),
    startedBefore_cons (Nat.sub_ne_zero_of_lt hn), behind_append_lineFeed h, Nat.sub_add_eq]
  rfl

/-- The walk starts anew with each line, and no more bytes are left behind than remain. -/
theorem leaveLines?_lines (text : List Char) (index n : Nat) (last : Position) :
    leaveLines? (lines text) index n last =
      some ⟨index + (ofOffset text n).line, (ofOffset text n).column⟩ := by
  induction text using line_induction generalizing index n last with
  | last line h =>
    rw [lines_of_not_mem h, leaveLines?]
    by_cases hn : n ≤ byteLength line
    · rw [if_pos hn, ofOffset_of_not_mem h, Nat.add_zero]
    · have hlt : byteLength line < n := Nat.lt_of_not_le hn
      rw [if_neg hn, if_pos (Nat.succ_le_of_lt hlt), leaveLines?, ofOffset_eq,
        startedBefore_of_le (Nat.le_of_lt hlt), behind_of_not_mem h, Nat.add_zero]
  | ended line rest h ih =>
    rw [lines_append_lineFeed h, leaveLines?]
    by_cases hn : n ≤ byteLength line
    · rw [if_pos hn, ofOffset_append_of_le hn, ofOffset_of_not_mem h, Nat.add_zero]
    · have hlt : byteLength line < n := Nat.lt_of_not_le hn
      rw [if_neg hn, if_pos (Nat.succ_le_of_lt hlt), ih, ofOffset_append_lineFeed h hlt,
        Nat.add_right_comm, Nat.add_assoc]

/-- The line of an offset is the number of line feeds in front of it, its column the number of
characters that begin between the last of these line feeds and the offset. The walk over the lines
finds them, and leaves no more bytes behind than remain. -/
theorem position_counts (text : List Char) (n : Nat) :
    let m := min n (byteLength text)
    let passed := (encoded text).take m
    ofOffset text n = ⟨passed.count lineFeed,
      (charStarts text).countP fun i => lastLineStart passed ≤ i ∧ i < m⟩ ∧
    leaveLines? (lines text) 0 n {} = some (ofOffset text n) := by
  intro m passed
  have hline : (ofOffset text n).line = passed.count lineFeed := by
    rw [ofOffset_eq, line_behind, ← count_take_encoded, List.take_eq_take_min, length_encoded]
  refine ⟨?_, ?_⟩
  · rw [← hline, ← column_ofOffset]
  · rw [leaveLines?_lines, Nat.zero_add]

end SchemaText
