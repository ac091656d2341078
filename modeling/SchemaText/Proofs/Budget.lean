import SchemaText.Proofs.Grammar.Cost.Statement
import SchemaText.Proofs.Parser

/-!
The budget of a parse lasts for every source.
-/
namespace SchemaText

open Parse

variable {source : String} {options : Options}

theorem le_budget {text : List Char} {factor : Nat} (hb : byteLength text ≤ maxOffset)
    (hf : 16 ≤ factor) : 16 * byteLength text + 16 ≤ (Cursor.start text factor).budget := by
  have hmul : 16 * (byteLength text + 1) ≤ factor * (byteLength text + 1) :=
    Nat.mul_le_mul_right _ hf
  simp only [Cursor.start, Cursor.maxBudget, maxOffset, UInt32.size, UInt64.size] at hb ⊢
  omega

/-- Sixteen attempts for each byte and as many again are enough, so that no run of the grammar is
stopped as a runaway. -/
theorem documentRun_stops (hb : byteLength source.toList ≤ maxOffset)
    (hf : 16 ≤ options.attemptFactor) :
    (endCursor (documentRun source options)).attempts ≤ 16 * (byteLength source.toList + 1) ∧
      ((∃ d c, documentRun source options = .ok d c) ∨
        ∃ m c, documentRun source options = .error (.mismatch m) c) := by
  have hlen : StatementKind.all.length ≤ 7 := by decide
  have hstart : (Cursor.start source.toList options.attemptFactor).attempts = 0 := rfl
  have hbytes : (Place.start source.toList).bytes = byteLength source.toList := rfl
  obtain ⟨o, -, ho⟩ := affords_document (s := .start source.toList) hlen (Nat.le_refl _)
  have hstop := ho (.start source.toList options.attemptFactor) rfl
    (by rw [hstart, hbytes, Nat.zero_add]; exact le_budget hb hf)
  rw [documentRun]
  cases o with
  | some r =>
    obtain ⟨c, hc, -, -, ha⟩ := hstop
    rw [hc]
    exact ⟨by simp only [endCursor]; omega, .inl ⟨_, c, rfl⟩⟩
  | none =>
    obtain ⟨m, c, hc, ha⟩ := hstop
    rw [hc]
    exact ⟨by simp only [endCursor]; omega, .inr ⟨m, c, rfl⟩⟩

/-- No source is too hard: whatever it holds, the parse ends with a tree or with a mismatch, after
at most sixteen attempts for each byte and as many again. -/
theorem parse_never_runs_away (hb : byteLength source.toList ≤ maxOffset)
    (hf : 16 ≤ options.attemptFactor) :
    (endCursor (documentRun source options)).attempts ≤ 16 * (byteLength source.toList + 1) ∧
      ((∃ d, parse source options = .ok d) ∨ ∃ r, parse source options = .error (.mismatch r)) := by
  obtain ⟨ha, ⟨d, c, hd⟩ | ⟨m, c, hm⟩⟩ := documentRun_stops hb hf
  · exact ⟨ha, .inl ⟨d, parse_eq_ok_iff.2 ⟨hb, c, hd⟩⟩⟩
  · refine ⟨ha, .inr ⟨m.report source.toList options.contextWindow, ?_⟩⟩
    rw [parse_eq, if_neg (Nat.not_lt.2 hb), hm]
    rfl

theorem parse_never_runs_away_enum :
    (endCursor (documentRun "enum A \x7ba b c d" {})).attempts ≤
        16 * (byteLength "enum A \x7ba b c d".toList + 1) ∧
      ((∃ d, parse "enum A \x7ba b c d" {} = .ok d) ∨
        ∃ r, parse "enum A \x7ba b c d" {} = .error (.mismatch r)) :=
  parse_never_runs_away (by decide +kernel) (by decide)

end SchemaText
