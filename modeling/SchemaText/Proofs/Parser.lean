import SchemaText.Parser

/-!
A parse of a source is a run of the document production from its start.
-/
namespace SchemaText

variable {source : String} {options : Options} {d : Document Span} {r : Report}

/-- The run of the grammar in a parse of a whole source. -/
def documentRun (source : String) (options : Options) :
    EStateM.Result Failure Cursor (Document Span) :=
  Grammar.document StatementKind.all (.start source.toList options.attemptFactor)

theorem parse_eq (source : String) (options : Options) : parse source options =
    if maxOffset < byteLength source.toList then .error (.sourceTooLarge (byteLength source.toList))
    else match documentRun source options with
      | .ok d _ => .ok d
      | .error failure _ => .error (failure.report source.toList options.contextWindow) := by
  simp only [parse, run, runWith, documentRun]
  split
  · rfl
  · cases Grammar.document StatementKind.all (.start source.toList options.attemptFactor) <;> rfl

theorem parse_eq_ok_iff : parse source options = .ok d ↔
    byteLength source.toList ≤ maxOffset ∧ ∃ c, documentRun source options = .ok d c := by
  rw [parse_eq]
  split
  · next h => simp [Nat.not_le.2 h]
  · next h =>
    cases documentRun source options <;> simp [Nat.not_lt.1 h]

theorem parse_eq_mismatch (h : parse source options = .error (.mismatch r)) :
    ∃ c, documentRun source options = .error (.mismatch r.toMismatch) c := by
  rw [parse_eq] at h
  split at h
  · simp at h
  · cases hd : documentRun source options with
    | ok d c => simp [hd] at h
    | error failure c =>
      cases failure with
      | mismatch m =>
        simp only [hd, Failure.report, Except.error.injEq, ParseError.mismatch.injEq] at h
        exact ⟨c, by rw [← h]; rfl⟩
      | runaway => simp [hd, Failure.report] at h

end SchemaText
