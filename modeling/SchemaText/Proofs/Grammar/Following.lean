import SchemaText.Proofs.Grammar.Reading

/-!
What tokens begin with. A token that may be missing is told from what can follow it by its first
character.
-/
namespace SchemaText

namespace Grammar

/-- The characters that a token of a pattern begins with behind trivia. -/
def begins : Pattern → Char → Bool
  | .literal text, c | .keyword text, c => text.toList.head? == some c
  | .token cls, c => if cls = identifier then isWordStart c else c == '-' || c == '|'
  | .endOfInput, _ => false

/-- No character begins both a token of `p` and one of `p'`. -/
def apart (p p' : Pattern) : Bool :=
  match p, p' with
  | .literal text, p' | .keyword text, p' => !text.toList.head?.any (begins p')
  | p, .literal text | p, .keyword text => !text.toList.head?.any (begins p)
  | .token cls, .token cls' => !(cls == cls')
  | _, _ => false

end Grammar

/-- What is left begins with a token of one of these patterns, or is nothing. -/
def Next (patterns : List Pattern) (more : List (Slot Token)) : Prop :=
  ∀ slot ∈ more.head?, slot.1 ∈ patterns

variable {s q e : Place} {pattern : Pattern} {token : Token} {more : List (Slot Token)}
  {patterns : List Pattern}

open Grammar

theorem next_nil : Next patterns [] := by
  simp [Next]

theorem next_cons (h : pattern ∈ patterns) : Next patterns ((pattern, token) :: more) := by
  simpa [Next] using h

theorem Next.mono {patterns' : List Pattern} (h : Next patterns more) (hs : patterns ⊆ patterns') :
    Next patterns' more := fun slot hm => hs (h slot hm)

theorem Next.append {patterns' : List Pattern} {more' : List (Slot Token)} (h : Next patterns more)
    (h' : Next patterns' more') : Next (patterns ++ patterns') (more ++ more') := by
  cases more with
  | nil => exact h'.mono (List.subset_append_right ..)
  | cons slot more => exact fun _ hm => List.mem_append_left _ (h _ hm)

theorem isBlank_of_isIndent {c : Char} (h : isIndent c) : isBlank c := by
  simp only [isIndent, isBlank, Bool.or_eq_true] at h ⊢
  exact .inl h

theorem not_isBlank_of_skip_eq {c : Char} {rest : List Char} (hs : s.skip = s)
    (hr : s.rest = c :: rest) : isBlank c = false := by
  refine Bool.eq_false_iff.2 fun hb => ?_
  have h := congrArg (·.rest.length) hs
  simp only [Place.skip, hr, dropTrivia_blank hb, List.length_cons] at h
  have := (dropTrivia_suffix false rest).length_le
  omega

/-- Trivia that has been skipped leaves no indentation in front of a bar. -/
theorem head?_of_startsPipe (hs : s.skip = s) (h : StartsPipe s.rest) :
    s.rest.head? = some '|' := by
  cases hr : s.rest with
  | nil => simp [hr, StartsPipe] at h
  | cons c rest =>
    have hi : isIndent c = false := by
      refine Bool.eq_false_iff.2 fun hi => ?_
      have := not_isBlank_of_skip_eq hs hr
      simp [isBlank_of_isIndent hi] at this
    simpa [hr, StartsPipe, hi] using h

theorem exists_begins (hs : s.skip = s) (hp : Lexical pattern) (h : pattern.end? s = some q) :
    ∃ c ∈ s.rest.head?, begins pattern c := by
  match pattern with
  | .literal text =>
    obtain ⟨c, rest, ht, -⟩ := hp
    exact ⟨c, by simp [(end?_literal_iff.1 h).1, ht], by simp [begins, ht]⟩
  | .keyword text =>
    obtain ⟨c, rest, ht, -⟩ := hp
    exact ⟨c, by simp [(end?_keyword_iff.1 h).1.1, ht], by simp [begins, ht]⟩
  | .token cls =>
    obtain rfl | rfl := hp
    · obtain ⟨_, hp, ⟨c, rest, rfl, hc, -⟩, -⟩ := end?_word_iff.1 h
      exact ⟨c, by simp [hp.1], by simpa [begins] using hc⟩
    · obtain ⟨text, hp, ⟨line, rfl, -⟩ | hrun⟩ := end?_content_iff.1 h
      · exact ⟨'-', by simp [hp.1], by decide⟩
      · exact ⟨'|', head?_of_startsPipe hs (hp.1 ▸ hrun.startsPipe), by decide⟩

theorem apart_eq_false {p p' : Pattern} {c : Char} (hp : Lexical p) (hp' : Lexical p')
    (h : begins p c) (h' : begins p' c) : apart p p' = false := by
  have hdash : ∀ c, isWordStart c → (c == '-' || c == '|') = false := by
    intro c hc
    refine Bool.eq_false_iff.2 fun hd => ?_
    simp only [Bool.or_eq_true, beq_iff_eq] at hd
    obtain rfl | rfl := hd <;> exact absurd hc (by decide)
  match p, p' with
  | .literal text, p' | .keyword text, p' =>
    have ht : text.toList.head? = some c := by simpa [begins] using h
    simp [apart, ht, h']
  | .token cls, .literal text | .token cls, .keyword text =>
    have ht : text.toList.head? = some c := by simpa [begins] using h'
    simp [apart, ht, h]
  | .token cls, .token cls' =>
    have hne : content ≠ identifier := by decide
    obtain rfl | rfl := hp <;> obtain rfl | rfl := hp'
    · simp [apart]
    · simp only [begins, if_true, if_neg hne] at h h'
      simp [hdash c h] at h'
    · simp only [begins, if_true, if_neg hne] at h h'
      simp [hdash c h'] at h
    · simp [apart]

/-- Patterns that both match at a place are not apart. -/
theorem apart_eq_false_of_end? {p p' : Pattern} {q q' : Place} (hs : s.skip = s) (hp : Lexical p)
    (hp' : Lexical p') (h : p.end? s = some q) (h' : p'.end? s = some q') : apart p p' = false := by
  obtain ⟨c, hc, hb⟩ := exists_begins hs hp h
  obtain ⟨d, hd, hb'⟩ := exists_begins hs hp' h'
  obtain rfl := Option.some.inj ((Option.mem_def.1 hc).symm.trans (Option.mem_def.1 hd))
  exact apart_eq_false hp hp' hb hb'

theorem kind_eq_of_introducer {kind kind' : AttributeKind}
    (h : apart (introducer kind) (introducer kind') = false) : kind = kind' := by
  revert h
  cases kind <;> cases kind' <;> decide

theorem kind_eq_of_keyword {kind kind' : StatementKind}
    (h : apart (keyword kind) (keyword kind') = false) : kind = kind' := by
  revert h
  cases kind <;> cases kind' <;> decide

/-- Nothing is missing at the end of a text. -/
theorem end?_eq_none_of_nil (hs : s.skip = s) (hp : Lexical pattern) (hr : s.rest = []) :
    pattern.end? s = none := by
  cases h : pattern.end? s with
  | none => rfl
  | some q =>
    obtain ⟨c, hc, -⟩ := exists_begins hs hp h
    simp [hr] at hc

/-- A token that can be told from all that may follow is not found where it is missing. -/
theorem Reads.end?_eq_none (h : Reads s more e) (he : e.rest = []) (hs : s.skip = s)
    (hp : Lexical pattern) (hn : Next patterns more) (ha : ∀ p ∈ patterns, apart pattern p) :
    pattern.end? s = none := by
  match more with
  | [] =>
    refine end?_eq_none_of_nil hs hp ?_
    rw [← hs, show s.skip = e.skip from h, Place.skip, he]
    rfl
  | (p, token) :: more =>
    obtain ⟨q, hl, hq, -, -⟩ := h
    rw [hs] at hq
    cases hr : pattern.end? s with
    | none => rfl
    | some r =>
      have := ha p (hn (p, token) rfl)
      simp [apart_eq_false_of_end? hs hp hl hr hq] at this

end SchemaText
