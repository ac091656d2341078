import SchemaText.Proofs.Budget
import SchemaText.Proofs.Grammar.Composed

/-!
What options do to a parse: they set the budget at which it is stopped and the lines that a report
shows.
-/
namespace SchemaText

open Parse

variable {source : String}

/-- The attempts that a parse of a source may make. -/
def Options.budget (options : Options) (source : String) : Nat :=
  min (options.attemptFactor * (byteLength source.toList + 1)) Cursor.maxBudget

/-- Sixteen attempts for each byte and as many again let the grammar come to its verdict. -/
theorem fits_of_governs {v : Verdict (Document Span)} (hb : byteLength source.toList ≤ maxOffset)
    (hv : v.Governs (Grammar.document StatementKind.all) (.start source.toList 16)) :
    v.Fits (.start source.toList 16) := by
  have hfactor : 16 ≤ Options.attemptFactor { attemptFactor := 16 } := Nat.le_refl 16
  have hstops := documentRun_stops hb hfactor
  simp only [documentRun] at hstops
  apply Classical.byContradiction
  intro hn
  obtain ⟨c, hc⟩ := hv.runsAway hn
  rcases hstops.2 with ⟨d, c', hd⟩ | ⟨m, c', hm⟩
  · simp [hc] at hd
  · simp [hc] at hm

/-- A verdict of the grammar fits into a budget, or the parse makes one attempt too many. -/
theorem parse_eq_of_not_fits {v : Verdict (Document Span)} {options : Options}
    (hb : byteLength source.toList ≤ maxOffset)
    (hv : v.Governs (Grammar.document StatementKind.all) (.start source.toList
      options.attemptFactor))
    (hn : ¬ v.Fits (.start source.toList options.attemptFactor)) :
    parse source options =
      .error (.runaway (options.budget source + 1) (options.budget source)) := by
  obtain ⟨c, hc⟩ := hv.runsAway hn
  rw [parse_eq, if_neg (Nat.not_lt.2 hb), documentRun, hc]
  rfl

/-- A verdict that comes at all comes with a number of attempts. -/
theorem exists_fits_iff {v : Verdict (Document Span)} {c : Cursor} (h : v.Fits c) :
    ∃ n, ∀ c' : Cursor, c'.attempts = 0 → (v.Fits c' ↔ n ≤ c'.budget) := by
  cases v with
  | endless => exact h.elim
  | done n d q =>
    refine ⟨n, fun c' hc => ?_⟩
    rw [Verdict.Fits, hc, Nat.zero_add]
  | failed n m =>
    refine ⟨n, fun c' hc => ?_⟩
    rw [Verdict.Fits, hc, Nat.zero_add]

/-- What a verdict comes to is shown with as many lines as the options say. -/
theorem exists_outcome (v : Verdict (Document Span)) (hb : byteLength source.toList ≤ maxOffset) :
    ∃ outcome : Except Report (Document Span), ∀ options : Options,
      v.Comes (Grammar.document StatementKind.all) (.start source.toList options.attemptFactor) →
        parse source options = outcome.mapError fun r => .mismatch { r with
          snippet :=
            Snippet.render source.toList r.offset r.found.width options.contextWindow } := by
  cases v with
  | endless => exact ⟨.ok ⟨[], []⟩, fun _ h => h.elim⟩
  | done n d q =>
    refine ⟨.ok d, fun options ⟨c, hc, _⟩ => ?_⟩
    exact parse_eq_ok_iff.2 ⟨hb, c, hc⟩
  | failed n m =>
    refine ⟨.error (m.report source.toList 0), fun options ⟨c, hc⟩ => ?_⟩
    rw [parse_eq, if_neg (Nat.not_lt.2 hb), documentRun, hc]
    rfl

/-- Of the outcome of a parse, options decide only whether there is one: it needs a number of
attempts, and a budget that is smaller is exceeded by one. A report shows as many lines as the
options say. -/
theorem parse_threshold (hb : byteLength source.toList ≤ maxOffset) :
    ∃ n ≤ 16 * (byteLength source.toList + 1), ∃ outcome : Except Report (Document Span),
      ∀ options : Options, parse source options =
        if n ≤ options.budget source then
          outcome.mapError fun r => .mismatch { r with
            snippet :=
              Snippet.render source.toList r.offset r.found.width options.contextWindow }
        else .error (.runaway (options.budget source + 1) (options.budget source)) := by
  obtain ⟨v, -, hv⟩ := metered_document StatementKind.all (.start source.toList)
  have hstart : ∀ factor, v.Governs (Grammar.document StatementKind.all)
      (.start source.toList factor) := fun factor => hv _ rfl (Nat.zero_le _)
  have hfits := fits_of_governs hb (hstart 16)
  obtain ⟨n, hn⟩ := exists_fits_iff hfits
  obtain ⟨outcome, hcomes⟩ := exists_outcome v hb
  have hsixteen : (Cursor.start source.toList 16).budget ≤ 16 * (byteLength source.toList + 1) :=
    Nat.min_le_left ..
  refine ⟨n, Nat.le_trans ((hn _ rfl).1 hfits) hsixteen, outcome, fun options => ?_⟩
  have hiff : v.Fits (.start source.toList options.attemptFactor) ↔ n ≤ options.budget source :=
    hn _ rfl
  by_cases hle : n ≤ options.budget source
  · rw [if_pos hle]
    exact hcomes options ((hstart _).comes (hiff.2 hle))
  · rw [if_neg hle]
    exact parse_eq_of_not_fits hb (hstart _) fun h => hle (hiff.1 h)

theorem parse_threshold_open : byteLength "enum A \x7b".toList ≤ maxOffset ∧
    ∃ n ≤ 16 * (byteLength "enum A \x7b".toList + 1), ∃ outcome : Except Report (Document Span),
      ∀ options : Options, parse "enum A \x7b" options =
        if n ≤ options.budget "enum A \x7b" then
          outcome.mapError fun r => .mismatch { r with
            snippet :=
              Snippet.render "enum A \x7b".toList r.offset r.found.width options.contextWindow }
        else .error (.runaway (options.budget "enum A \x7b" + 1) (options.budget "enum A \x7b")) :=
  ⟨by decide +kernel, parse_threshold (by decide +kernel)⟩

end SchemaText
