import Mathlib.Order.Bounds.Defs
import SchemaText.Proofs.Text.Passage
import SchemaText.Proofs.Text.Position

/-!
The character boundaries of a text, and the part of a text in front of one.
-/
namespace SchemaText

variable {text a b : List Char} {n m : Nat} {c : Char}

/-- A byte offset between two characters or at an end of a text. -/
def IsBoundary (text : List Char) (n : Nat) : Prop :=
  ∃ before, before <+: text ∧ byteLength before = n

theorem byteLength_le_of_initial (h : a <+: b) : byteLength a ≤ byteLength b := by
  obtain ⟨rest, rfl⟩ := h
  rw [byteLength_append]
  exact Nat.le_add_right _ _

/-- A part in front of a text that has all of its bytes is all of it. -/
theorem eq_of_initial (h : a <+: b) (hle : byteLength b ≤ byteLength a) : a = b := by
  obtain ⟨rest, rfl⟩ := h
  rw [byteLength_append] at hle
  by_cases hrest : rest = []
  · rw [hrest, List.append_nil]
  · have hpos := byteLength_pos hrest
    omega

/-- Of two parts in front of a text the shorter one stands in front of the other. -/
theorem prefix_of_byteLength_le (ha : a <+: text) (hb : b <+: text)
    (h : byteLength a ≤ byteLength b) : a <+: b := by
  rcases List.prefix_or_prefix_of_prefix ha hb with hab | hba
  · exact hab
  · exact eq_of_initial hba h ▸ List.prefix_rfl

namespace Position

/-! ### The characters that begin before an offset -/

@[simp] theorem startedBefore_zero (text : List Char) : startedBefore 0 text = [] := by
  cases text <;> rfl

@[simp] theorem startedBefore_nil (n : Nat) : startedBefore n [] = [] := by
  cases n <;> rfl

theorem startedBefore_cons (hn : n ≠ 0) (c : Char) (text : List Char) :
    startedBefore n (c :: text) = c :: startedBefore (n - c.utf8Size) text := by
  rw [startedBefore, if_neg hn]

theorem startedBefore_initial (n : Nat) (text : List Char) : startedBefore n text <+: text := by
  induction text generalizing n with
  | nil => simp
  | cons c text ih =>
    by_cases hn : n = 0
    · rw [hn, startedBefore_zero]
      exact List.nil_prefix
    · rw [startedBefore_cons hn]
      exact List.prefix_cons_inj c |>.2 (ih _)

/-- They reach as far as the offset. -/
theorem min_le_byteLength_startedBefore (n : Nat) (text : List Char) :
    min n (byteLength text) ≤ byteLength (startedBefore n text) := by
  induction text generalizing n with
  | nil => simp
  | cons c text ih =>
    by_cases hn : n = 0
    · simp [hn]
    · have hrest := ih (n - c.utf8Size)
      rw [startedBefore_cons hn, byteLength_cons, byteLength_cons]
      omega

theorem startedBefore_append_eq (n : Nat) (a b : List Char) :
    startedBefore n (a ++ b) = startedBefore n a ++ startedBefore (n - byteLength a) b := by
  induction a generalizing n with
  | nil => simp
  | cons c a ih =>
    by_cases hn : n = 0
    · simp [hn]
    · rw [List.cons_append, startedBefore_cons hn, startedBefore_cons hn, ih, byteLength_cons,
        Nat.sub_add_eq]
      rfl

theorem startedBefore_of_le (h : byteLength text ≤ n) : startedBefore n text = text := by
  refine eq_of_initial (startedBefore_initial n text) ?_
  have hreach := min_le_byteLength_startedBefore n text
  omega

/-- The last of them begins before the offset. -/
theorem byteLength_lt_of_startedBefore (h : startedBefore n text = a ++ c :: b) :
    byteLength a < n := by
  induction a generalizing n text with
  | nil =>
    rw [byteLength_nil, Nat.pos_iff_ne_zero]
    rintro rfl
    simp at h
  | cons d a ih =>
    cases text with
    | nil => simp at h
    | cons e text =>
      by_cases hn : n = 0
      · simp [hn] at h
      · rw [startedBefore_cons hn, List.cons_append, List.cons.injEq] at h
        obtain ⟨rfl, h⟩ := h
        have hrest := ih h
        rw [byteLength_cons]
        omega

/-- They end at the first boundary that is not before the offset. -/
theorem byteLength_startedBefore_isLeast (n : Nat) (text : List Char) :
    IsLeast {m | IsBoundary text m ∧ min n (byteLength text) ≤ m}
      (byteLength (startedBefore n text)) := by
  have hprefix := startedBefore_initial n text
  refine ⟨⟨⟨_, hprefix, rfl⟩, min_le_byteLength_startedBefore n text⟩, ?_⟩
  rintro _ ⟨⟨before, hbefore, rfl⟩, hle⟩
  by_contra hlt
  -- Then more characters than those in front of the boundary begin before the offset.
  obtain ⟨rest, hrest⟩ := prefix_of_byteLength_le hbefore hprefix (Nat.le_of_not_le hlt)
  have hlength := byteLength_le_of_initial hprefix
  cases rest with
  | nil =>
    rw [List.append_nil] at hrest
    exact hlt (Nat.le_of_eq (congrArg byteLength hrest.symm))
  | cons c rest =>
    have hbegin := byteLength_lt_of_startedBefore hrest.symm
    omega

/-! ### The position behind a text -/

/-- The position at the end of a text. -/
def behind (text : List Char) : Position := text.foldl after {}

/-- A position in a text as it is when `c` stands in front of the text. -/
def follow (c : Char) (p : Position) : Position :=
  if c = '\n' then ⟨p.line + 1, p.column⟩ else if p.line = 0 then ⟨0, p.column + 1⟩ else p

theorem behind_cons (c : Char) (text : List Char) :
    behind (c :: text) = follow c (behind text) := by
  obtain ⟨init, last, h⟩ := exists_lines_eq_concat text
  have htext : behind text = ⟨init.length, last.length⟩ := foldl_after_eq h
  rw [htext]
  by_cases hc : c = '\n'
  · have hcons : lines (c :: text) = ([] :: init) ++ [last] := by rw [lines_cons, if_pos hc, h]; rfl
    have hbehind : behind (c :: text) = ⟨init.length + 1, last.length⟩ := foldl_after_eq hcons
    rw [hbehind, follow, if_pos hc]
  · cases init with
    | nil =>
      have hcons : lines (c :: text) = [] ++ [c :: last] := by rw [lines_cons, if_neg hc, h]; rfl
      have hbehind : behind (c :: text) = ⟨0, last.length + 1⟩ := foldl_after_eq hcons
      rw [hbehind, follow, if_neg hc, if_pos List.length_nil]
    | cons first init =>
      have hcons : lines (c :: text) = ((c :: first) :: init) ++ [last] := by
        rw [lines_cons, if_neg hc, h]
        rfl
      have hbehind : behind (c :: text) = ⟨init.length + 1, last.length⟩ := foldl_after_eq hcons
      simp [hbehind, follow, hc]

theorem ofOffset_eq (text : List Char) (n : Nat) :
    ofOffset text n = behind (startedBefore n text) := rfl

theorem ofOffset_byteLength (h : a <+: text) : ofOffset text (byteLength a) = behind a := by
  obtain ⟨rest, rfl⟩ := h
  exact ofOffset_append a rest

theorem le_iff {p q : Position} :
    p ≤ q ↔ p.line < q.line ∨ p.line = q.line ∧ p.column ≤ q.column := Iff.rfl

theorem le_foldl_after (p : Position) (text : List Char) :
    p ≤ text.foldl after p ∧ (text ≠ [] → ¬ text.foldl after p ≤ p) := by
  induction text generalizing p with
  | nil => simp [le_iff]
  | cons c text ih =>
    obtain ⟨hle, -⟩ := ih (p.after c)
    rw [List.foldl_cons]
    simp only [le_iff] at hle ⊢
    by_cases hc : c = '\n'
    · simp only [after, if_pos hc] at hle ⊢
      omega
    · simp only [after, if_neg hc] at hle ⊢
      omega

/-- Positions are in the order of offsets. -/
theorem behind_le_behind_iff (ha : a <+: text) (hb : b <+: text) :
    behind a ≤ behind b ↔ byteLength a ≤ byteLength b := by
  rcases List.prefix_or_prefix_of_prefix ha hb with ⟨rest, rfl⟩ | ⟨rest, rfl⟩
  · have hle := (le_foldl_after (behind a) rest).1
    rw [behind, behind, List.foldl_append, byteLength_append]
    exact iff_of_true hle (Nat.le_add_right _ _)
  · by_cases hrest : rest = []
    · simp [hrest, le_iff]
    · have hlt := (le_foldl_after (behind b) rest).2 hrest
      have hpos := byteLength_pos hrest
      rw [behind, behind, List.foldl_append, byteLength_append]
      exact iff_of_false hlt (by omega)

end Position

end SchemaText
