import SchemaText.Proofs.Grammar.Finding
import SchemaText.Proofs.Grammar.Following
import SchemaText.Proofs.Lossless
import SchemaText.Proofs.Text.Position

/-!
What the report of a failed parse tells: where the parse has stopped, what stands there, and what
was expected in its place.
-/
namespace SchemaText

open Grammar

variable {source : String} {options : Options} {r : Report} {m : Mismatch} {s e p q : Place}
  {slots : List (Slot Token)} {before after : List Char} {mistakes : List Pattern}

/-! ### The place of an error -/

theorem Reads.exists_passes (h : Reads s slots e) (he : e.skip = e) : ∃ x, s.Passes x e := by
  induction slots generalizing s with
  | nil =>
    obtain ⟨x, hx, -⟩ := s.exists_passes_skip
    have hs : s.skip = e := Eq.trans h he
    exact ⟨x, hs ▸ hx⟩
  | cons slot slots ih =>
    obtain ⟨gap, x, q, hgap, -, hx, -, -, -, hr⟩ := h.uncons
    obtain ⟨y, hy⟩ := ih hr
    exact ⟨_, (hgap.trans hx).trans hy⟩

/-- A failed parse has read tokens up to a place that is not in trivia, and tells of that place. -/
theorem exists_raised_of_parse (h : parse source options = .error (.mismatch r)) :
    ∃ before slots e, (Place.start source.toList).Passes before e ∧
      Reads (.start source.toList) slots e ∧ e.skip = e ∧ Raised slots e r.toMismatch := by
  obtain ⟨c, hc⟩ := parse_eq_mismatch h
  have hbad := ensures_document (List.Subset.refl _)
    (.start source.toList options.attemptFactor) rfl
  rw [documentRun] at hc
  rw [hc] at hbad
  obtain ⟨slots, e, hr, he, hm⟩ : ∃ slots e, Reads (.start source.toList) slots e ∧ e.skip = e ∧
      Raised slots e r.toMismatch := by
    rcases hbad with ⟨-, t, slots, e, -, hr, he, hm⟩ | ⟨slots, -, e, -, hr, he, hm, -⟩
    · exact ⟨slots, e, hr, he, hm⟩
    · exact ⟨slots, e, hr, he, hm⟩
  obtain ⟨before, hb⟩ := hr.exists_passes he
  exact ⟨before, slots, e, hb, hr, he, hm⟩

theorem position_of_parse (h : parse source options = .error (.mismatch r)) :
    r.position = .ofOffset source.toList r.offset := by
  rw [parse_eq] at h
  split at h
  · simp at h
  · split at h
    · simp at h
    · next failure _ _ =>
      cases failure with
      | mismatch m =>
        simp only [Failure.report, Except.error.injEq, ParseError.mismatch.injEq] at h
        rw [← h]
        rfl
      | runaway => simp [Failure.report] at h

/-- Behind trivia there is no comment. -/
theorem not_prefix_of_skip_eq (hs : s.skip = s) : ¬ ['/', '/'] <+: s.rest := by
  rintro ⟨rest, hrest⟩
  have hslash : isBlank '/' = false := by decide
  have hdrop : dropTrivia false s.rest = dropTrivia true ('/' :: rest) := by
    rw [← hrest]
    simp [dropTrivia, hslash]
  have hlen : (dropTrivia false s.rest).length = s.rest.length := congrArg (·.rest.length) hs
  have hle := (dropTrivia_suffix true ('/' :: rest)).length_le
  rw [hdrop, ← hrest, List.length_append] at hlen
  simp only [List.length_cons, List.length_nil] at hlen hle
  omega

/-! ### What stands there -/

/-- The report of an error between two parts of a source points at the second one, which does not
begin with trivia. -/
structure Report.PointsAt (r : Report) (before after : List Char) : Prop where
  offset : r.offset = byteLength before
  position : r.position = .ofOffset (before ++ after) r.offset
  notBlank : ∀ c ∈ after.head?, isBlank c = false
  notComment : ¬ ['/', '/'] <+: after
  endOfInput : r.found = .endOfInput ↔ r.offset = byteLength (before ++ after)
  found : ∀ chars, r.found = .text chars → chars.toList ≠ [] ∧ '\n' ∉ chars.toList ∧
    FindsText r.mistakes chars.toList after
  /-- The carets stay within the line. -/
  carets : r.found ≠ .endOfInput → ∃ line, (lines (before ++ after))[r.position.line]? = some line ∧
    r.position.column + r.found.width ≤ line.length

/-- Text without a line feed that stands behind `before` lies in the line of that place. -/
theorem exists_line_of_append {chars rest : List Char} (hn : '\n' ∉ chars) :
    let position := Position.ofOffset (before ++ (chars ++ rest)) (byteLength before)
    ∃ line, (lines (before ++ (chars ++ rest)))[position.line]? = some line ∧
      position.column + chars.length ≤ line.length := by
  obtain ⟨start, hline, hcolumn⟩ := Position.exists_line before (chars ++ rest)
  have hchars : ∀ c ∈ chars, (c != '\n') = true := by
    intro c hc
    rw [bne_iff_ne]
    intro he
    exact hn (he ▸ hc)
  refine ⟨_, hline, ?_⟩
  rw [hcolumn, List.takeWhile_append_of_pos hchars, List.length_append, List.length_append]
  omega

/-- The carets under a finding end within the line that the finding begins in. -/
theorem exists_line_of_findsText {chars : List Char} (h : FindsText mistakes chars after)
    (hb : ∀ c ∈ after.head?, isBlank c = false) :
    let position := Position.ofOffset (before ++ after) (byteLength before)
    ∃ line, (lines (before ++ after))[position.line]? = some line ∧
      position.column + (Finding.text (.ofList chars)).width ≤ line.length := by
  have hwidth : (Finding.text (.ofList chars)).width = chars.length := by
    have hpos := List.length_pos_iff.2 h.ne_nil
    rw [Finding.width, String.length_ofList]
    omega
  obtain ⟨rest, hrest⟩ := h.exists_append
  rw [hwidth, hrest]
  exact exists_line_of_append (h.not_mem_lineFeed hb)

/-- An error points at the offending token. -/
theorem points_of_parse (h : parse source options = .error (.mismatch r)) :
    ∃ before after, source.toList = before ++ after ∧ r.PointsAt before after := by
  obtain ⟨before, slots, e, hb, -, he, hm⟩ := exists_raised_of_parse h
  have hsource : source.toList = before ++ e.rest := hb.1
  have hoffset : r.offset = byteLength before := hm.offset.trans hb.offset_eq
  have hposition := hsource ▸ position_of_parse h
  have hblank : ∀ c ∈ e.rest.head?, isBlank c = false := by
    intro c hc
    obtain ⟨rest, hr⟩ := List.head?_eq_some_iff.1 hc
    exact not_isBlank_of_skip_eq he hr
  refine ⟨before, e.rest, hsource, ?_⟩
  by_cases hr : e.rest = []
  · have hfound : r.found = .endOfInput := by
      rw [hm.found, lookAt_endOfInput hm.mistakes hr]
    exact {
      offset := hoffset
      position := hposition
      notBlank := hblank
      notComment := not_prefix_of_skip_eq he
      endOfInput := by simp [hfound, hoffset, hr]
      found := by simp [hfound]
      carets := fun hne => absurd hfound hne }
  · obtain ⟨chars, hlook, hfinds⟩ := exists_lookAt_eq hm.mistakes hr
    have hfound : r.found = .text (.ofList chars) := by rw [hm.found, hlook]
    refine {
      offset := hoffset
      position := hposition
      notBlank := hblank
      notComment := not_prefix_of_skip_eq he
      endOfInput := ?_
      found := ?_
      carets := ?_ }
    · have hpos := byteLength_pos hr
      simp only [hfound, hoffset, byteLength_append, reduceCtorEq, false_iff]
      omega
    · intro text ht
      rw [hfound, Finding.text.injEq] at ht
      rw [← ht, String.toList_ofList]
      exact ⟨hfinds.ne_nil, hfinds.not_mem_lineFeed hblank, hfinds⟩
    · intro _
      rw [hposition, hoffset, hfound]
      exact exists_line_of_findsText hfinds hblank

theorem points_structField : ∃ before after,
    "struct S \x7b a Int \x7d".toList = before ++ after ∧
    Report.PointsAt
      { offset := 13, expected := [colon], mistakes := [word], found := .text "Int",
        position := ⟨0, 13⟩, snippet := "1 | struct S \x7b a Int \x7d\n                 ^^^" }
      before after :=
  points_of_parse
    (show parse "struct S \x7b a Int \x7d" {} = .error (.mismatch _) by decide +kernel)

/-! ### What was expected -/

theorem matchAt?_eq (hb : (Place.start source.toList).Passes before e) (pattern : Pattern) :
    pattern.matchAt? source e.offset = (pattern.end? e).map Place.offset := by
  rw [Pattern.matchAt?, hb.seek?_eq, Option.bind_eq_bind, Option.bind_some, Option.map_eq_bind]
  rfl

/-- The tokens of a source up to an offset end in attributes of which an outer one has no item. -/
def DanglingAt (source : String) (offset : Nat) : Prop :=
  ∃ slots e, Reads (.start source.toList) slots e ∧ e.offset = offset ∧ Dangling slots

/-- Nothing of what an error expects stands in its place. Only behind attributes that have no item,
the sign that closes the body is what is expected, be it there or not. -/
theorem missing_of_parse (h : parse source options = .error (.mismatch r)) :
    (∀ pattern ∈ r.expected, pattern.matchAt? source r.offset = none) ∨
      ∃ closing ∈ [braceClose, parenClose], r.expected = [closing] ∧
        DanglingAt source r.offset := by
  obtain ⟨before, slots, e, hb, hr, -, hm⟩ := exists_raised_of_parse h
  rcases hm.expected with hnone | ⟨closing, hc, hexpected, hd⟩
  · left
    intro pattern hp
    rw [hm.offset, matchAt?_eq hb, hnone pattern hp]
    rfl
  · exact .inr ⟨closing, hc, hexpected, slots, e, hr, hm.offset.symm, hd⟩

theorem missing_structBody :
    (∀ pattern ∈ [braceClose], pattern.matchAt? "struct S \x7b @x \x7d" 14 = none) ∨
      ∃ closing ∈ [braceClose, parenClose], [braceClose] = [closing] ∧
        DanglingAt "struct S \x7b @x \x7d" 14 :=
  missing_of_parse
    (show parse "struct S \x7b @x \x7d" {} = .error (.mismatch
      { offset := 14, expected := [braceClose], mistakes := [word], found := .text "\x7d",
        position := ⟨0, 14⟩, snippet := "1 | struct S \x7b @x \x7d\n                  ^" })
    by decide +kernel)

/-- The brace behind an attribute without a field is found where it is expected. -/
theorem not_forall_missing : ¬ ∀ (source : String) (r : Report),
    parse source {} = .error (.mismatch r) →
      ∀ pattern ∈ r.expected, pattern.matchAt? source r.offset = none := by
  intro h
  have hnone := h "struct S \x7b @x \x7d"
    { offset := 14, expected := [braceClose], mistakes := [word], found := .text "\x7d",
      position := ⟨0, 14⟩, snippet := "1 | struct S \x7b @x \x7d\n                  ^" }
    (by decide +kernel) braceClose (by decide)
  exact absurd hnone (by decide +kernel)

end SchemaText
