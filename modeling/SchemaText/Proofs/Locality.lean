import SchemaText.Proofs.ErrorReport
import SchemaText.Proofs.Grammar.Composed
import SchemaText.Proofs.Parse.Stable

/-!
An error within a text stays as it is, whatever lines are put behind the text.
-/
namespace SchemaText

open Grammar Parse

variable {first second : String} {options : Options} {r : Report}

/-- An error that does not stand at the end of a text has more than trivia behind it. -/
theorem not_endsLate_of_parse (h : parse first options = .error (.mismatch r))
    (ho : r.offset < byteLength first.toList) : ¬ EndsLate first.toList r.toMismatch := by
  rintro ⟨p, ⟨⟨x, hx⟩, hspent⟩, hoffset⟩
  obtain ⟨before, slots, e, hb, -, he, hm⟩ := exists_raised_of_parse h
  obtain rfl : e = p := hb.eq_of_offset_eq hx (hm.offset.symm.trans hoffset)
  have hrest : e.rest = [] := by
    rw [← he]
    exact hspent
  have hfirst : first.toList = before ++ e.rest := hb.1
  rw [hm.offset, hb.offset_eq, hfirst, hrest, List.append_nil] at ho
  exact absurd ho (Nat.lt_irrefl _)

/-- What is put behind a text does not change the positions in it. -/
theorem position_append_of_parse (h : parse first options = .error (.mismatch r))
    (more : List Char) : Position.ofOffset (first.toList ++ more) r.offset = r.position := by
  obtain ⟨before, slots, e, hb, -, -, hm⟩ := exists_raised_of_parse h
  have hfirst : first.toList = before ++ e.rest := hb.1
  rw [position_of_parse h, hm.offset, hb.offset_eq, hfirst, List.append_assoc,
    Position.ofOffset_append, Position.ofOffset_append]

theorem toList_append_line :
    (first ++ "\n" ++ second).toList = first.toList ++ '\n' :: second.toList := by
  simp

/-- The longer text has no smaller budget. -/
theorem alongside_start (first second : String) (options : Options) :
    Alongside first.toList second.toList (.start first.toList options.attemptFactor)
      (.start (first ++ "\n" ++ second).toList options.attemptFactor) where
  inside := ⟨[], .refl _⟩
  place := by
    rw [toList_append_line]
    rfl
  attempts := rfl
  budget := by
    have hle : byteLength first.toList ≤ byteLength (first ++ "\n" ++ second).toList := by
      rw [toList_append_line, byteLength_append]
      omega
    have hmul := Nat.mul_le_mul_left options.attemptFactor (Nat.add_le_add_right hle 1)
    simp only [Cursor.start]
    omega
  within := Nat.zero_le _

/-- An error within a text is the error of the text with further lines, word for word. Only the
lines that its report shows may be more. -/
theorem parse_append_line (h : parse first options = .error (.mismatch r))
    (ho : r.offset < byteLength first.toList)
    (hb : byteLength (first ++ "\n" ++ second).toList ≤ maxOffset) :
    ∃ snippet, parse (first ++ "\n" ++ second) options =
      .error (.mismatch { r with snippet := snippet }) := by
  obtain ⟨c, hc⟩ := parse_eq_mismatch h
  rw [documentRun] at hc
  have hagree :=
    (composed_document StatementKind.all).stable.along (alongside_start first second options)
  rw [hc] at hagree
  rcases hagree with hlate | ⟨d, hd⟩
  · exact absurd hlate (not_endsLate_of_parse h ho)
  · have hposition := position_append_of_parse h ('\n' :: second.toList)
    rw [← toList_append_line] at hposition
    rw [parse_eq, if_neg (Nat.not_lt.2 hb), documentRun, hd]
    refine ⟨(r.report (first ++ "\n" ++ second).toList options.contextWindow).snippet, ?_⟩
    rw [← hposition]
    rfl

theorem parse_append_line_struct :
    ∃ snippet, parse ("struct S \x7b a Int \x7d" ++ "\n" ++ "enum E \x7b\x7d") {} =
      .error (.mismatch
        { offset := 13, expected := [colon], mistakes := [word], found := .text "Int",
          position := ⟨0, 13⟩, snippet := snippet }) :=
  parse_append_line
    (show parse "struct S \x7b a Int \x7d" {} = .error (.mismatch
      { offset := 13, expected := [colon], mistakes := [word], found := .text "Int",
        position := ⟨0, 13⟩,
        snippet := "1 | struct S \x7b a Int \x7d\n                 ^^^" })
    by decide +kernel)
    (by decide +kernel) (by decide +kernel)

end SchemaText
