import SchemaText.Proofs.Text.Boundary

/-!
Offsets and positions of a text are two views of the same places, in the same order.
-/
namespace SchemaText.Position

variable {text a : List Char} {p q : Position} {c : Char} {n : Nat}

/-! ### Positions outside of a text -/

/-- The position in a text that stands for `p`. A column past the end of its line stands for the
line's end, and a line past the end of the text for the end of the last line. -/
def clamp (text : List Char) (p : Position) : Position :=
  match (lines text)[p.line]? with
  | some line => ⟨p.line, min p.column line.length⟩
  | none => ⟨(lines text).length - 1, ((lines text).getLast (lines_ne_nil text)).length⟩

theorem clamp_zero (text : List Char) : clamp text ⟨0, 0⟩ = ⟨0, 0⟩ := by
  obtain ⟨rest, h⟩ := exists_lines_eq_cons text
  simp [clamp, h]

theorem clamp_nil (p : Position) : clamp [] p = ⟨0, 0⟩ := by
  obtain ⟨line, column⟩ := p
  cases line <;> simp [clamp]

/-- Nothing of the first line is behind a line feed. -/
theorem clamp_lineFeed_zero (text : List Char) (column : Nat) :
    clamp ('\n' :: text) ⟨0, column⟩ = ⟨0, 0⟩ := by
  simp [clamp, lines_cons]

/-- Behind a line feed a position is one line further down. -/
theorem clamp_lineFeed (text : List Char) (line column : Nat) :
    clamp ('\n' :: text) ⟨line + 1, column⟩ = follow '\n' (clamp text ⟨line, column⟩) := by
  have hlines : lines ('\n' :: text) = [] :: lines text := by rw [lines_cons, if_pos rfl]
  have hne := lines_ne_nil text
  have hpos := List.length_pos_iff.2 hne
  simp only [clamp, hlines, List.getElem?_cons_succ]
  cases (lines text)[line]? with
  | some row => simp [follow]
  | none =>
    simp only [follow, if_true, List.length_cons, List.getLast_cons hne, mk.injEq, and_true]
    omega

/-- Behind any other character a position in the first line is one column further to the right. -/
theorem clamp_cons_zero (hc : c ≠ '\n') (text : List Char) (column : Nat) :
    clamp (c :: text) ⟨0, column + 1⟩ = follow c (clamp text ⟨0, column⟩) := by
  obtain ⟨rest, h⟩ := exists_lines_eq_cons text
  simp [clamp, lines_cons, hc, h, follow, Nat.succ_min_succ]

/-- Behind any other character a position in a later line is where it is. -/
theorem clamp_cons_succ (hc : c ≠ '\n') (text : List Char) (line column : Nat) :
    clamp (c :: text) ⟨line + 1, column⟩ = follow c (clamp text ⟨line + 1, column⟩) := by
  obtain ⟨rest, h⟩ := exists_lines_eq_cons text
  cases rest with
  | nil => simp [clamp, lines_cons, hc, h, follow]
  | cons second rest =>
    simp only [clamp, lines_cons, if_neg hc, h, List.headD_cons, List.tail_cons,
      List.getElem?_cons_succ]
    cases (second :: rest)[line]? with
    | some row => simp [follow, hc]
    | none => simp [follow, hc]

/-- The offset of a position is a boundary, that of the position that stands for it. -/
theorem exists_prefix_toOffset (text : List Char) (p : Position) :
    ∃ a, a <+: text ∧ toOffset text p = byteLength a ∧ behind a = clamp text p := by
  induction text generalizing p with
  | nil => exact ⟨[], List.prefix_rfl, by rw [toOffset]; rfl, (clamp_nil p).symm⟩
  | cons c text ih =>
    obtain ⟨line, column⟩ := p
    have hstep : ∀ q r, toOffset (c :: text) r = c.utf8Size + toOffset text q →
        clamp (c :: text) r = follow c (clamp text q) →
        ∃ a, a <+: c :: text ∧ toOffset (c :: text) r = byteLength a ∧
          behind a = clamp (c :: text) r := by
      intro q r hoffset hclamp
      obtain ⟨a, ha, htext, hbehind⟩ := ih q
      refine ⟨c :: a, (List.prefix_cons_inj c).2 ha, ?_, ?_⟩
      · rw [hoffset, htext, byteLength_cons]
      · rw [behind_cons, hbehind, hclamp]
    match line, column with
    | 0, 0 => exact ⟨[], List.nil_prefix, rfl, (clamp_zero _).symm⟩
    | 0, column + 1 =>
      by_cases hc : c = '\n'
      · subst hc
        exact ⟨[], List.nil_prefix, rfl, (clamp_lineFeed_zero _ _).symm⟩
      · exact hstep ⟨0, column⟩ _ (by rw [toOffset, if_neg hc]) (clamp_cons_zero hc text column)
    | line + 1, column =>
      by_cases hc : c = '\n'
      · subst hc
        exact hstep ⟨line, column⟩ _ rfl (clamp_lineFeed text line column)
      · exact hstep ⟨line + 1, column⟩ _ (by rw [toOffset, if_neg hc])
          (clamp_cons_succ hc text line column)

/-- Of the positions in a text, those up to `p` are those up to the one that stands for `p`. -/
theorem behind_le_clamp_iff (h : a <+: text) (p : Position) :
    behind a ≤ clamp text p ↔ behind a ≤ p := by
  obtain ⟨b, rfl⟩ := h
  obtain ⟨init, last, ha⟩ := exists_lines_eq_concat a
  obtain ⟨rest, hb⟩ := exists_lines_eq_cons b
  have hlines := lines_append ha hb
  have hbehind : behind a = ⟨init.length, last.length⟩ := foldl_after_eq ha
  rw [hbehind]
  cases hrow : (lines (a ++ b))[p.line]? with
  | some row =>
    simp only [clamp, hrow, le_iff]
    by_cases hline : init.length = p.line
    · have hlength : last.length ≤ row.length := by
        simp [hlines, ← hline] at hrow
        simp [← hrow]
      omega
    · omega
  | none =>
    have hpast : (lines (a ++ b)).length ≤ p.line := List.getElem?_eq_none_iff.1 hrow
    simp only [clamp, hrow, le_iff]
    cases rest with
    | nil =>
      simp [hlines] at hpast ⊢
      omega
    | cons second rest =>
      simp [hlines] at hpast ⊢
      omega

/-- A place in a text is not behind `p` if it is not behind the offset of `p`. -/
theorem behind_le_iff (h : a <+: text) (p : Position) :
    behind a ≤ p ↔ byteLength a ≤ toOffset text p := by
  obtain ⟨b, hb, hoffset, hbehind⟩ := exists_prefix_toOffset text p
  rw [← behind_le_clamp_iff h, ← hbehind, behind_le_behind_iff h hb, hoffset]

theorem toOffset_behind (h : a <+: text) : toOffset text (behind a) = byteLength a := by
  obtain ⟨b, hb, hoffset, -⟩ := exists_prefix_toOffset text (behind a)
  have hle := (behind_le_iff h (behind a)).1 (.inr ⟨rfl, Nat.le_refl _⟩)
  have hge := (behind_le_iff hb (behind a)).2 (Nat.le_of_eq hoffset.symm)
  rw [behind_le_behind_iff hb h] at hge
  omega

theorem isBoundary_toOffset (text : List Char) (p : Position) :
    IsBoundary text (toOffset text p) := by
  obtain ⟨a, ha, hoffset, -⟩ := exists_prefix_toOffset text p
  exact ⟨a, ha, hoffset.symm⟩

theorem ofOffset_le_iff (h : n ≤ byteLength text) (p : Position) :
    ofOffset text n ≤ p ↔ n ≤ toOffset text p := by
  obtain ⟨⟨-, hle⟩, hleast⟩ := byteLength_startedBefore_isLeast n text
  rw [Nat.min_eq_left h] at hle hleast
  rw [ofOffset_eq, behind_le_iff (startedBefore_initial n text)]
  exact ⟨fun hp => Nat.le_trans hle hp, fun hp => hleast ⟨isBoundary_toOffset text p, hp⟩⟩

theorem ofOffset_mono {m : Nat} (h : n ≤ m) : ofOffset text n ≤ ofOffset text m := by
  obtain ⟨-, hleast⟩ := byteLength_startedBefore_isLeast n text
  obtain ⟨⟨hboundary, hle⟩, -⟩ := byteLength_startedBefore_isLeast m text
  rw [ofOffset_eq, ofOffset_eq,
    behind_le_behind_iff (startedBefore_initial n text) (startedBefore_initial m text)]
  exact hleast ⟨hboundary, by omega⟩

theorem toOffset_mono (h : p ≤ q) : toOffset text p ≤ toOffset text q := by
  obtain ⟨a, ha, hoffset, -⟩ := exists_prefix_toOffset text p
  have hp := (behind_le_iff ha p).2 (Nat.le_of_eq hoffset.symm)
  rw [hoffset, ← behind_le_iff ha]
  simp only [le_iff] at h hp ⊢
  omega

theorem ofOffset_toOffset (text : List Char) (p : Position) :
    ofOffset text (toOffset text p) = clamp text p := by
  obtain ⟨a, ha, hoffset, hbehind⟩ := exists_prefix_toOffset text p
  rw [hoffset, ofOffset_byteLength ha, hbehind]

theorem toOffset_ofOffset (text : List Char) (n : Nat) :
    toOffset text (ofOffset text n) = byteLength (startedBefore n text) := by
  rw [ofOffset_eq, toOffset_behind (startedBefore_initial n text)]

/-- An offset that is translated to a position and back is the first boundary from the offset on. A
position that is translated to an offset and back is the position in the text that stands for it.
Offsets and positions compare alike. -/
theorem offset_position_adjoint (text : List Char) :
    (∀ n, IsLeast {m | IsBoundary text m ∧ min n (byteLength text) ≤ m}
      (toOffset text (ofOffset text n))) ∧
    (∀ n, IsBoundary text n → toOffset text (ofOffset text n) = n) ∧
    (∀ p, ofOffset text (toOffset text p) = clamp text p) ∧
    (∀ n p, n ≤ byteLength text → (ofOffset text n ≤ p ↔ n ≤ toOffset text p)) ∧
    (∀ n m, n ≤ m → ofOffset text n ≤ ofOffset text m) ∧
    (∀ p q, p ≤ q → toOffset text p ≤ toOffset text q) ∧
    ∀ span : Span, span.start ≤ span.stop → (ofSpan text span).1 ≤ (ofSpan text span).2 := by
  refine ⟨?_, ?_, ofOffset_toOffset text, ?_, ?_, ?_, ?_⟩
  · intro n
    rw [toOffset_ofOffset]
    exact byteLength_startedBefore_isLeast n text
  · rintro _ ⟨before, hbefore, rfl⟩
    rw [ofOffset_byteLength hbefore, toOffset_behind hbefore]
  · exact fun n p h => ofOffset_le_iff h p
  · exact fun n m h => ofOffset_mono h
  · exact fun p q h => toOffset_mono h
  · exact fun span h => ofOffset_mono h

/-- One offset is inside of a character, and another one past the end. -/
theorem offset_position_adjoint_accent :
    let text := "é\r\nb".toList
    (IsBoundary text 4 ∧ toOffset text (ofOffset text 4) = 4) ∧
    (1 ≤ byteLength text ∧ (ofOffset text 1 ≤ ⟨0, 1⟩ ↔ 1 ≤ toOffset text ⟨0, 1⟩)) ∧
    (4 ≤ 9 ∧ ofOffset text 4 ≤ ofOffset text 9) ∧
    ((⟨0, 7⟩ : Position) ≤ ⟨1, 0⟩ ∧ toOffset text ⟨0, 7⟩ ≤ toOffset text ⟨1, 0⟩) ∧
    (ofSpan text ⟨1, 3⟩).1 ≤ (ofSpan text ⟨1, 3⟩).2 := by
  intro text
  obtain ⟨-, hboundary, -, hiff, hoffset, hposition, hspan⟩ := offset_position_adjoint text
  have hfour : IsBoundary text 4 := ⟨"é\r\n".toList, by decide, by decide⟩
  have hlength : 1 ≤ byteLength text := by decide
  have hle : (⟨0, 7⟩ : Position) ≤ ⟨1, 0⟩ := by decide
  exact ⟨⟨hfour, hboundary 4 hfour⟩, ⟨hlength, hiff 1 ⟨0, 1⟩ hlength⟩,
    ⟨by decide, hoffset 4 9 (by decide)⟩, ⟨hle, hposition _ _ hle⟩, hspan ⟨1, 3⟩ (by decide)⟩

end SchemaText.Position
