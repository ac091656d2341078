import SchemaText.Proofs.Grammar.Following
import SchemaText.Proofs.Grammar.Layout
import SchemaText.Proofs.Text.Seam

/-!
Tokens are read across the seam of two texts as they are read in each of them: no token of a text
with ended lines goes on in the text behind it.
-/
namespace SchemaText

/-! ### Content -/

namespace Grammar

variable {text rest more : List Char} {p q : Place} {pattern : Pattern} {k : Nat} {c : Char}

theorem startsPipe_cons (hc : isIndent c) : StartsPipe (c :: rest) ↔ StartsPipe rest := by
  simp [StartsPipe, hc]

theorem startsPipe_cons_of_not (hc : ¬ isIndent c) : StartsPipe (c :: rest) ↔ c = '|' := by
  simp [StartsPipe, hc]

/-- Indentation of the second text is not put behind indentation of the first one. -/
theorem not_startsPipe_append (hrest : ¬ StartsPipe rest) (hmore : ¬ StartsPipe more)
    (hends : EndsLine rest) : ¬ StartsPipe (rest ++ more) := by
  induction rest with
  | nil => exact hmore
  | cons c rest ih =>
    rw [List.cons_append]
    by_cases hc : isIndent c
    · rw [startsPipe_cons hc] at hrest ⊢
      exact ih hrest (EndsLine.of_append (a := [c]) hends)
    · rw [startsPipe_cons_of_not hc] at hrest ⊢
      exact hrest

theorem LineRest.extend (h : LineRest text rest) (hne : rest = [] → '\n' ∈ text) :
    LineRest text (rest ++ more) := by
  obtain ⟨line, hl, htext | ⟨htext, hnil⟩⟩ := h
  · exact ⟨line, hl, .inl htext⟩
  · exact absurd (htext ▸ hne hnil) hl

theorem PipeLine.extend (h : PipeLine text rest) (hends : EndsLine (text ++ rest)) :
    PipeLine text (rest ++ more) := by
  obtain ⟨indent, body, hi, hbody, htext⟩ := h
  refine ⟨indent, body, hi, hbody.extend ?_, htext⟩
  rintro rfl
  apply Classical.byContradiction
  intro hn
  have hline : '\n' ∉ text := by
    rw [htext, List.mem_append, List.mem_cons, not_or, not_or]
    exact ⟨fun hm => absurd (hi _ hm) (by decide), by decide, hn⟩
  exact hends.ne_nil (by simp [htext]) hline rfl

theorem PipeRun.extend (h : PipeRun text rest) (hends : EndsLine (text ++ rest))
    (hmore : ¬ StartsPipe more) : PipeRun text (rest ++ more) := by
  induction h with
  | last hline hn =>
    exact .last (hline.extend hends) (not_startsPipe_append hn hmore hends.of_append)
  | @more line text rest hline _ ih =>
    rw [List.append_assoc] at hends
    have hline : PipeLine line (text ++ rest ++ more) := hline.extend hends
    rw [List.append_assoc] at hline
    exact .more hline (ih hends.of_append)

/-! ### Tokens -/

theorem head?_extend_of_ne_nil (h : p.rest ≠ []) (more : List Char) :
    (p.extend more).rest.head? = p.rest.head? := by
  obtain ⟨c, rest, hr⟩ := List.exists_cons_of_ne_nil h
  simp [Place.extend, hr]

/-- What stands right behind a token without line feeds does not change. -/
theorem head?_extend (hp : p.Passes text q) (hends : EndsLine p.rest) (hne : text ≠ [])
    (hn : '\n' ∉ text) : (q.extend more).rest.head? = q.rest.head? :=
  head?_extend_of_ne_nil (EndsLine.ne_nil (hp.1 ▸ hends) hne hn) more

theorem end?_extend (h : pattern.end? p = some q) (hl : Lexical pattern)
    (hends : EndsLine p.rest) (hmore : ¬ StartsPipe more) :
    pattern.end? (p.extend more) = some (q.extend more) := by
  match pattern with
  | .literal t => exact end?_literal_iff.2 (end?_literal_iff.1 h).extend
  | .keyword t =>
    obtain ⟨hp, hq⟩ := end?_keyword_iff.1 h
    refine end?_keyword_iff.2 ⟨hp.extend, ?_⟩
    rw [head?_extend hp hends hl.ne_nil hl.not_mem]
    exact hq
  | .token cls =>
    obtain rfl | rfl := hl
    · obtain ⟨text, hp, hw, hq⟩ := end?_word_iff.1 h
      refine end?_word_iff.2 ⟨text, hp.extend, hw, ?_⟩
      rw [EndsWord, head?_extend hp hends hw.ne_nil hw.not_mem]
      exact hq
    · obtain ⟨text, hp, ⟨line, rfl, hn, hq⟩ | hrun⟩ := end?_content_iff.1 h
      · refine end?_content_iff.2 ⟨_, hp.extend, .inl ⟨line, rfl, hn, ?_⟩⟩
        rw [head?_extend hp hends (by simp) (by simpa using hn)]
        exact hq
      · have hends : EndsLine (text ++ q.rest) := hp.1 ▸ hends
        exact end?_content_iff.2 ⟨text, hp.extend, .inr (hrun.extend hends hmore)⟩

theorem end?_shift (h : pattern.end? p = some q) (hl : Lexical pattern) :
    pattern.end? (p.shift k) = some (q.shift k) := by
  match pattern with
  | .literal t => exact end?_literal_iff.2 (end?_literal_iff.1 h).shift
  | .keyword t =>
    obtain ⟨hp, hq⟩ := end?_keyword_iff.1 h
    exact end?_keyword_iff.2 ⟨hp.shift, hq⟩
  | .token cls =>
    obtain rfl | rfl := hl
    · obtain ⟨text, hp, hw⟩ := end?_word_iff.1 h
      exact end?_word_iff.2 ⟨text, hp.shift, hw⟩
    · obtain ⟨text, hp, hc⟩ := end?_content_iff.1 h
      exact end?_content_iff.2 ⟨text, hp.shift, hc⟩

end Grammar

/-! ### Readings -/

open Grammar

/-- The same range in a text with so many bytes in front. -/
def Span.shift (k : Nat) (s : Span) : Span := ⟨k + s.start, k + s.stop⟩

def Token.shift (k : Nat) (t : Token) : Token := ⟨t.span.shift k, t.text⟩

variable {s e : Place} {slots : List (Slot Token)} {text more : List Char}

theorem Reads.shift (k : Nat) (h : Reads s slots e) :
    Reads (s.shift k) (mapSlots (Token.shift k) slots) (e.shift k) := by
  induction slots generalizing s with
  | nil =>
    have hskip : s.skip = e.skip := h
    rw [mapSlots_nil, Reads, Place.skip_shift, Place.skip_shift, hskip]
  | cons slot slots ih =>
    obtain ⟨pattern, token⟩ := slot
    obtain ⟨q, hl, hq, rfl, hr⟩ := h
    refine ⟨q.shift k, hl, ?_, ?_, ih hr⟩
    · rw [Place.skip_shift]
      exact end?_shift hq hl
    · rw [Place.skip_shift]
      rfl

/-- A text that is read to its end is read alike where another one stands behind it. -/
theorem Reads.extend (h : Reads s slots e) (he : e.rest = []) (hends : EndsLine s.rest)
    (hmore : ¬ StartsPipe more) : Reads (s.extend more) slots (s.afterRest more) := by
  induction slots generalizing s with
  | nil =>
    have hskip : s.skip = e.skip := h
    apply Place.skip_extend_of_nil hends
    rw [hskip, Place.skip, he]
    rfl
  | cons slot slots ih =>
    obtain ⟨pattern, token⟩ := slot
    obtain ⟨q, hl, hq, rfl, hr⟩ := h
    obtain ⟨text, hp, hne, -⟩ := exists_spells hq hl
    obtain ⟨gap, hgap, -⟩ := s.exists_passes_skip
    have hrest : s.skip.rest ≠ [] := by
      rw [hp.1]
      simp [hne]
    have hends' := hgap.endsLine hends
    have hskip : (s.extend more).skip = s.skip.extend more := Place.skip_extend hends hrest
    refine ⟨q.extend more, hl, ?_, ?_, ?_⟩
    · rw [hskip]
      exact end?_extend hq hl hends' hmore
    · rw [hskip, Token.between, Token.between, hp.upTo_eq, hp.extend.upTo_eq]
      rfl
    · rw [hgap.afterRest_eq, hp.afterRest_eq]
      exact ih hr (hp.endsLine hends')

/-- Only content begins with a bar. -/
theorem not_begins_bar {pattern : Pattern} (h : Plain pattern) : ¬ begins pattern '|' := by
  obtain ⟨hl, hc⟩ := h
  match pattern with
  | .literal t =>
    obtain ⟨c, rest, ht, hsign⟩ := hl
    intro hb
    obtain rfl : c = '|' := by simpa [begins, ht] using hb
    exact absurd hsign (by decide)
  | .keyword t =>
    obtain ⟨c, rest, ht, hw, -⟩ := hl
    intro hb
    obtain rfl : c = '|' := by simpa [begins, ht] using hb
    exact absurd hw (by decide)
  | .token cls =>
    obtain rfl | rfl := hl
    · decide
    · exact absurd rfl hc

/-- Where a token other than content is read there is no line with a bar. -/
theorem Reads.not_startsPipe {pattern : Pattern} {token : Token}
    (h : Reads s ((pattern, token) :: slots) e) (hp : Plain pattern) : ¬ StartsPipe s.rest := by
  obtain ⟨q, hl, hq, -⟩ := h
  obtain ⟨gap, hgap, -, hclosed⟩ := s.exists_passes_skip
  obtain ⟨c, hc, hb⟩ := exists_begins s.skip_skip hl hq
  have hne : s.skip.rest ≠ [] := by
    intro hnil
    simp [hnil] at hc
  rw [hgap.1]
  apply not_startsPipe_of_closed (hclosed hne)
  intro hbar
  have hhead := head?_of_startsPipe s.skip_skip hbar
  rw [Option.mem_def.1 hc, Option.some.injEq] at hhead
  exact not_begins_bar hp (hhead ▸ hb)

/-- Trivia up to the end of a text does not begin with a bar. -/
theorem not_startsPipe_of_final (h : FinalTrivia text) : ¬ StartsPipe text := by
  rcases h with hclosed | ⟨closed, line, hclosed, -, rfl⟩
  · have hnil : ¬ StartsPipe [] := by simp [StartsPipe]
    have := not_startsPipe_of_closed hclosed hnil
    rwa [List.append_nil] at this
  · apply not_startsPipe_of_closed hclosed
    rw [startsPipe_cons_of_not (by decide)]
    decide

/-- A text that is read to its end does not begin with a bar, since no content stands first. -/
theorem Orderly.not_startsPipe (ho : Orderly slots) (h : Reads s slots e) (he : e.rest = []) :
    ¬ StartsPipe s.rest := by
  cases ho with
  | nil =>
    have hskip : s.skip = e.skip := h
    obtain ⟨gap, hgap, hfinal, -⟩ := s.exists_passes_skip
    have hrest : s.rest = gap := by
      rw [hgap.1, hskip, Place.skip, he]
      simp [dropTrivia]
    rw [hrest]
    exact not_startsPipe_of_final hfinal
  | plain hp _ => exact h.not_startsPipe hp
  | content hp _ => exact h.not_startsPipe hp

end SchemaText
