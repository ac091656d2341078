import Mathlib.Data.List.Basic
import Mathlib.Data.List.Induction
import SchemaText.Text.Snippet

/-!
The position of a place is its line among the lines of the text and its column in that line.
-/
namespace SchemaText

variable {before after first last : List Char} {init rest : List (List Char)}

theorem exists_lines_eq_concat (text : List Char) : ∃ init last, lines text = init ++ [last] := by
  rcases List.eq_nil_or_concat' (lines text) with h | h
  · exact absurd h (lines_ne_nil text)
  · exact h

/-- The first line goes up to the first line feed. -/
theorem exists_lines_eq_cons (text : List Char) :
    ∃ rest, lines text = text.takeWhile (· != '\n') :: rest := by
  induction text with
  | nil => exact ⟨[], rfl⟩
  | cons c text ih =>
    obtain ⟨rest, hrest⟩ := ih
    by_cases hc : c = '\n'
    · exact ⟨lines text, by simp [lines_cons, hc]⟩
    · exact ⟨rest, by simp [lines_cons, hc, hrest]⟩

/-- Where two texts meet, the last line of one goes on with the first line of the other. -/
theorem lines_append (hb : lines before = init ++ [last]) (ha : lines after = first :: rest) :
    lines (before ++ after) = init ++ (last ++ first) :: rest := by
  induction before generalizing init last with
  | nil =>
    obtain ⟨rfl, rfl⟩ := List.append_singleton_inj.1 (show [] ++ [[]] = init ++ [last] from hb)
    exact ha
  | cons c before ih =>
    obtain ⟨init', last', h⟩ := exists_lines_eq_concat before
    rw [lines_cons, h] at hb
    rw [List.cons_append, lines_cons, ih h]
    by_cases hc : c = '\n'
    · rw [if_pos hc, ← List.cons_append] at hb
      obtain ⟨rfl, rfl⟩ := List.append_singleton_inj.1 hb
      rw [if_pos hc]
      rfl
    · rw [if_neg hc] at hb ⊢
      cases init' with
      | nil =>
        have hb : [] ++ [c :: last'] = init ++ [last] := hb
        obtain ⟨rfl, rfl⟩ := List.append_singleton_inj.1 hb
        rfl
      | cons line init' =>
        have hb : ((c :: line) :: init') ++ [last'] = init ++ [last] := hb
        obtain ⟨rfl, rfl⟩ := List.append_singleton_inj.1 hb
        rfl

namespace Position

theorem startedBefore_append (before after : List Char) :
    startedBefore (byteLength before) (before ++ after) = before := by
  induction before with
  | nil => cases after <;> simp [startedBefore]
  | cons c before ih =>
    have hc := c.utf8Size_pos
    have hne : byteLength (c :: before) ≠ 0 := by
      rw [byteLength_cons]
      omega
    rw [List.cons_append, startedBefore, if_neg hne, byteLength_cons, Nat.add_sub_cancel_left, ih]

/-- A position depends on the text in front of it only. -/
theorem ofOffset_append (before after : List Char) :
    ofOffset (before ++ after) (byteLength before) = before.foldl Position.after {} := by
  rw [ofOffset, startedBefore_append]

theorem foldl_after_eq (h : lines before = init ++ [last]) :
    before.foldl Position.after {} = ⟨init.length, last.length⟩ := by
  induction before using List.reverseRecOn generalizing init last with
  | nil =>
    obtain ⟨rfl, rfl⟩ := List.append_singleton_inj.1 (show [] ++ [[]] = init ++ [last] from h)
    rfl
  | append_singleton before c ih =>
    obtain ⟨init', last', h'⟩ := exists_lines_eq_concat before
    rw [List.foldl_append, ih h', List.foldl_cons, List.foldl_nil, Position.after]
    by_cases hc : c = '\n'
    · have hline : lines [c] = [] :: [[]] := by simp [lines_cons, hc]
      rw [lines_append h' hline, List.append_nil, List.append_cons] at h
      obtain ⟨rfl, rfl⟩ := List.append_singleton_inj.1 h
      rw [if_pos hc, List.length_append]
      rfl
    · have hline : lines [c] = [c] :: [] := by simp [lines_cons, hc]
      rw [lines_append h' hline] at h
      obtain ⟨rfl, rfl⟩ := List.append_singleton_inj.1 h
      rw [if_neg hc, List.length_append]
      rfl

/-- The line of a position has the text of that line in front of the place, as long as the column,
and goes on to the next line feed behind the place. -/
theorem exists_line (before after : List Char) :
    ∃ start, (lines (before ++ after))[(ofOffset (before ++ after) (byteLength before)).line]? =
        some (start ++ after.takeWhile (· != '\n')) ∧
      (ofOffset (before ++ after) (byteLength before)).column = start.length := by
  obtain ⟨init, last, hb⟩ := exists_lines_eq_concat before
  obtain ⟨rest, ha⟩ := exists_lines_eq_cons after
  refine ⟨last, ?_, ?_⟩
  · rw [ofOffset_append, foldl_after_eq hb, lines_append hb ha]
    simp
  · rw [ofOffset_append, foldl_after_eq hb]

end Position

end SchemaText
