import SchemaText.Grammar.Token
import SchemaText.Proofs.Pattern.Matching
import SchemaText.Proofs.Text.Trivia

/-!
What the tokens of schema texts match, in terms of the text alone.
-/
namespace SchemaText.Grammar

open Regex

/-! ### Words -/

def isWordStart (c : Char) : Bool :=
  ('a' ≤ c && c ≤ 'z') || ('A' ≤ c && c ≤ 'Z') || c == '_'

def isWordPart (c : Char) : Bool := isWordStart c || ('0' ≤ c && c ≤ '9')

/-- A letter or an underscore of ASCII, then letters, digits and underscores. -/
def IsWord (text : List Char) : Prop :=
  ∃ c rest, text = c :: rest ∧ isWordStart c ∧ ∀ d ∈ rest, isWordPart d

instance : DecidablePred IsWord
  | [] => isFalse (by simp [IsWord])
  | c :: rest => decidable_of_iff (isWordStart c ∧ rest.all isWordPart)
      ⟨fun ⟨hc, hr⟩ => ⟨c, rest, rfl, hc, List.all_eq_true.1 hr⟩,
        fun ⟨_, _, he, hc, hr⟩ => by cases he; exact ⟨hc, List.all_eq_true.2 hr⟩⟩

/-- No word can go on with the text. -/
def EndsWord (rest : List Char) : Prop := ∀ c ∈ rest.head?, isWordPart c = false

variable {p q : Place} {c : Char} {text rest : List Char}

theorem IsWord.ne_nil (h : IsWord text) : text ≠ [] := by
  obtain ⟨c, rest, rfl, -⟩ := h
  simp

theorem IsWord.not_mem (h : IsWord text) : '\n' ∉ text := by
  obtain ⟨c, rest, rfl, hc, hrest⟩ := h
  intro hm
  rcases List.mem_cons.1 hm with rfl | hm
  · exact absurd hc (by decide)
  · exact absurd (hrest _ hm) (by decide)

theorem isWordPart_of_isWordStart (h : isWordStart c) : isWordPart c := by
  simp [isWordPart, h]

theorem isWordChar_of_isWordPart (h : isWordPart c) : Pattern.isWordChar c := by
  by_cases hu : c = '_'
  · simp [Pattern.isWordChar, hu]
  · have ha : c.isAlphanum := by
      simp only [isWordPart, isWordStart, Bool.or_eq_true, Bool.and_eq_true, decide_eq_true_eq,
        beq_iff_eq, hu, or_false] at h
      rw [isAlphanum_iff]
      exact h.imp_left Or.symm
    simp [Pattern.isWordChar, isAlphanumeric_of_isAlphanum ha]

theorem ne_of_isWordChar (h : Pattern.isWordChar c) : isBlank c = false ∧ c ≠ '/' ∧ c ≠ '|' := by
  refine ⟨Bool.eq_false_iff.2 fun hb => ?_, ?_, ?_⟩
  · simp only [isBlank, Bool.or_eq_true, beq_iff_eq] at hb
    obtain ((rfl | rfl) | rfl) | rfl := hb <;> exact absurd h (by decide)
  · rintro rfl
    exact absurd h (by decide)
  · rintro rfl
    exact absurd h (by decide)

/-- A range of one character holds that character. -/
theorem le_and_le_self (a c : Char) : (a ≤ c && c ≤ a) = (c == a) := by
  rw [Bool.eq_iff_iff]
  simp only [Bool.and_eq_true, decide_eq_true_eq, beq_iff_eq]
  exact ⟨fun h => Char.le_antisymm h.2 h.1, fun h => h ▸ ⟨Char.le_refl _, Char.le_refl _⟩⟩

theorem has_wordStart :
    (CharSet.oneOf [('a', 'z'), ('A', 'Z'), ('_', '_')]).has = isWordStart := by
  funext c
  simp only [CharSet.has, isWordStart, List.any_cons, List.any_nil, Bool.or_false, le_and_le_self,
    Bool.or_assoc]

theorem has_wordPart :
    (CharSet.oneOf [('a', 'z'), ('A', 'Z'), ('0', '9'), ('_', '_')]).has = isWordPart := by
  funext c
  simp only [CharSet.has, isWordPart, isWordStart, List.any_cons, List.any_nil, Bool.or_false,
    le_and_le_self, Bool.or_assoc]
  rw [Bool.or_comm (c == '_')]

/-- A word is as long as it can be. -/
theorem end?_word_iff : word.end? p = some q ↔
    ∃ text, p.Passes text q ∧ IsWord text ∧ EndsWord q.rest := by
  simp only [word, Pattern.end?, identifier, end?_seq_one, end?_star_one, Option.some.injEq,
    has_wordStart, has_wordPart, Place.passWhile_eq_iff]
  constructor
  · rintro ⟨c, rest, hr, hc, text, hp, ht, hq⟩
    have h1 : p.Passes [c] ⟨p.offset + c.utf8Size, rest⟩ := ⟨hr, by simp⟩
    exact ⟨c :: text, h1.trans hp, ⟨c, text, rfl, hc, ht⟩, hq⟩
  · rintro ⟨_, hp, ⟨c, text, rfl, hc, ht⟩, hq⟩
    refine ⟨c, text ++ q.rest, hp.1, hc, text, ⟨rfl, ?_⟩, ht, hq⟩
    rw [hp.2, byteLength_cons, Nat.add_assoc]

theorem end?_word_eq_none_iff : word.end? p = none ↔ ∀ c ∈ p.rest.head?, isWordStart c = false := by
  constructor
  · intro h c hc
    obtain ⟨rest, hr⟩ := List.head?_eq_some_iff.1 hc
    cases hs : isWordStart c with
    | false => rfl
    | true =>
      have : word.end? p = some (Place.passWhile isWordPart ⟨p.offset + c.utf8Size, rest⟩) := by
        simp only [word, Pattern.end?, identifier, end?_seq_one, end?_star_one, has_wordStart,
          has_wordPart]
        exact ⟨c, rest, hr, hs, rfl⟩
      simp [h] at this
  · intro h
    cases hw : word.end? p with
    | none => rfl
    | some q =>
      obtain ⟨text, hp, ⟨c, rest, rfl, hc, -⟩, -⟩ := end?_word_iff.1 hw
      simp [h c (by simp [hp.1])] at hc

/-! ### Trivia -/

theorem has_blank :
    (CharSet.oneOf [(' ', ' '), ('\t', '\t'), ('\r', '\r'), ('\n', '\n')]).has = isBlank := by
  funext c
  simp only [CharSet.has, isBlank, List.any_cons, List.any_nil, Bool.or_false, le_and_le_self,
    Bool.or_assoc]

theorem end?_whitespace_iff : (Pattern.token whitespace).end? p = some q ↔
    ∃ c ∈ p.rest.head?, isBlank c ∧ p.passWhile isBlank = q := by
  simp only [Pattern.end?, whitespace, end?_plus_one, has_blank]

theorem closedTrivia_of_blanks (h : ∀ c ∈ text, isBlank c) : ClosedTrivia text := by
  induction text with
  | nil => exact .nil
  | cons c text ih => exact .blank (h c (by simp)) (ih fun d hd => h d (by simp [hd]))

theorem has_dot : CharSet.dot.has = (· != '\n') := rfl

/-- A line feed is taken, and so is the end of the text; in front of anything else there is no
end. -/
theorem ends_lineEnd (p : Place) : lineEnd.ends p =
    match p.rest with
    | [] => [p]
    | c :: rest => if c = '\n' then [⟨p.offset + 1, rest⟩] else [] := by
  cases hr : p.rest with
  | nil => simp [lineEnd, ends, hr]
  | cons c rest =>
    by_cases hc : c = '\n'
    · subst hc
      simp [lineEnd, ends, hr, CharSet.has]
      rfl
    · simp [lineEnd, ends, hr, CharSet.has, hc, Ne.symm hc]

/-- The rest of a line, and what ends it. -/
def LineRest (text rest : List Char) : Prop :=
  ∃ line, '\n' ∉ line ∧ (text = line ++ ['\n'] ∨ text = line ∧ rest = [])

theorem exists_lineRest (p : Place) : ∃ text q, p.Passes text q ∧ LineRest text q.rest := by
  by_cases h : '\n' ∈ p.rest
  · obtain ⟨line, rest, hr, hl⟩ := List.eq_append_cons_of_mem h
    refine ⟨line ++ ['\n'], ⟨p.offset + byteLength (line ++ ['\n']), rest⟩, ⟨?_, rfl⟩, line, hl,
      .inl rfl⟩
    simp [hr]
  · exact ⟨p.rest, ⟨p.offset + byteLength p.rest, []⟩, ⟨by simp, rfl⟩, p.rest, h, .inr ⟨rfl, rfl⟩⟩

theorem ends_line {set : CharSet} (hset : set.has = (· != '\n')) (hp : p.Passes text q)
    (hl : LineRest text q.rest) : (seq (star (one set)) lineEnd).ends p = [q] := by
  have hall : ∀ line : List Char, '\n' ∉ line → ∀ c ∈ line, (c != '\n') = true := by
    intro line hn c hc
    have : c ≠ '\n' := fun h => hn (h ▸ hc)
    simpa using this
  rw [ends_seq_star_one, hset]
  · obtain ⟨line, hn, rfl | ⟨rfl, hr⟩⟩ := hl
    · have hw : p.passWhile (· != '\n') = ⟨p.offset + byteLength line, '\n' :: q.rest⟩ := by
        refine Place.passWhile_eq_iff.2 ⟨line, ⟨by simp [hp.1], rfl⟩, hall line hn, by simp⟩
      have ho := hp.2
      simp only [byteLength_append, byteLength_cons, byteLength_nil] at ho
      have he : (⟨p.offset + byteLength line + 1, q.rest⟩ : Place) = q := by
        obtain ⟨o, r⟩ := q
        simp only [Place.mk.injEq, and_true] at ho ⊢
        exact ho.symm
      rw [hw, ends_lineEnd]
      simp [he]
    · have hw : p.passWhile (· != '\n') = q :=
        Place.passWhile_eq_iff.2 ⟨text, hp, hall text hn, by simp [hr]⟩
      rw [hw, ends_lineEnd, hr]
  · intro r c hc hn
    obtain ⟨rest, hr⟩ := List.head?_eq_some_iff.1 hc
    rw [ends_lineEnd, hr]
    simp only [hset, bne_iff_ne, ne_eq] at hn
    simp [hn]

/-- A comment goes on to the line feed, which belongs to it, or to the end of the text. -/
theorem end?_comment_iff : (Pattern.token comment).end? p = some q ↔
    ∃ text, p.Passes ('/' :: '/' :: text) q ∧ LineRest text q.rest := by
  simp only [Pattern.end?, comment, end?_seq_one]
  constructor
  · rintro ⟨c, rest, hr, hc, c', rest', hr', hc', h⟩
    obtain rfl : '/' = c := by simpa [CharSet.has] using hc
    obtain rfl : '/' = c' := by simpa [CharSet.has] using hc'
    obtain ⟨text, r, hp, hl⟩ :=
      exists_lineRest ⟨p.offset + '/'.utf8Size + '/'.utf8Size, rest'⟩
    have h1 : p.Passes ['/', '/'] ⟨p.offset + '/'.utf8Size + '/'.utf8Size, rest'⟩ := by
      exact ⟨by rw [hr, hr']; rfl, by simp [Nat.add_assoc]⟩
    obtain rfl : r = q := by
      rw [end?, ends_line has_dot hp hl] at h
      exact Option.some.inj h
    exact ⟨text, h1.trans hp, hl⟩
  · rintro ⟨text, hp, hl⟩
    refine ⟨'/', '/' :: (text ++ q.rest), hp.1, by decide, '/', text ++ q.rest, rfl, by decide, ?_⟩
    have hp' : Place.Passes ⟨p.offset + '/'.utf8Size + '/'.utf8Size, text ++ q.rest⟩ text q :=
      ⟨rfl, by simp [hp.2, Nat.add_assoc]⟩
    rw [end?, ends_line has_dot hp' hl]
    rfl

/-! ### Attribute content -/

def isIndent (c : Char) : Bool := c == ' ' || c == '\t' || c == '\r'

/-- After indentation the text goes on with a bar. -/
def StartsPipe (text : List Char) : Prop := (text.dropWhile isIndent).head? = some '|'

/-- A line with a bar as its first sign, to its end. -/
def PipeLine (text rest : List Char) : Prop :=
  ∃ indent body, (∀ c ∈ indent, isIndent c) ∧ LineRest body rest ∧ text = indent ++ '|' :: body

/-- Such lines one after the other, as many as there are. -/
inductive PipeRun : List Char → List Char → Prop where
  | last {line rest : List Char} : PipeLine line rest → ¬ StartsPipe rest → PipeRun line rest
  | more {line text rest : List Char} :
      PipeLine line (text ++ rest) → PipeRun text rest → PipeRun (line ++ text) rest

/-- The rest of a line from a dash on. -/
def DashLine (text rest : List Char) : Prop :=
  ∃ line, text = '-' :: line ∧ '\n' ∉ line ∧ ∀ c ∈ rest.head?, c = '\n'

theorem has_indent : (CharSet.oneOf [(' ', ' '), ('\t', '\t'), ('\r', '\r')]).has = isIndent := by
  funext c
  simp only [CharSet.has, isIndent, List.any_cons, List.any_nil, Bool.or_false, le_and_le_self,
    Bool.or_assoc]

theorem has_line : (CharSet.noneOf [('\n', '\n')]).has = (· != '\n') := by
  funext c
  simp only [CharSet.has, List.any_cons, List.any_nil, Bool.or_false, le_and_le_self]
  rfl

/-- The expression of one line with a bar. -/
def pipeLine : Regex :=
  seq (star (one (.oneOf [(' ', ' '), ('\t', '\t'), ('\r', '\r')])))
    (seq (one (.only '|')) (seq (star (one (.noneOf [('\n', '\n')]))) lineEnd))

theorem ends_bar (hr : p.rest = c :: rest) (second : Regex) :
    (seq (one (.only '|')) second).ends p =
      if c = '|' then second.ends ⟨p.offset + '|'.utf8Size, rest⟩ else [] := by
  by_cases hc : c = '|'
  · subst hc
    simp [ends, hr, CharSet.has]
  · simp [ends, hr, CharSet.has, hc, Ne.symm hc]

theorem ends_pipeLine_eq (p : Place) : pipeLine.ends p =
    (seq (one (.only '|')) (seq (star (one (.noneOf [('\n', '\n')]))) lineEnd)).ends
      (p.passWhile isIndent) := by
  rw [pipeLine, ends_seq_star_one, has_indent]
  intro q c hc hi
  obtain ⟨rest, hr⟩ := List.head?_eq_some_iff.1 hc
  rw [has_indent] at hi
  rw [ends_bar hr, if_neg]
  rintro rfl
  exact absurd hi (by decide)

theorem ends_pipeLine_nil (h : ¬ StartsPipe p.rest) : pipeLine.ends p = [] := by
  rw [ends_pipeLine_eq]
  have hr : (p.passWhile isIndent).rest = p.rest.dropWhile isIndent := rfl
  cases hd : p.rest.dropWhile isIndent with
  | nil => simp [ends, hr, hd]
  | cons c rest =>
    rw [ends_bar (hr.trans hd), if_neg]
    rintro rfl
    exact h (by simp [StartsPipe, hd])

theorem ends_pipeLine (hp : p.Passes text q) (hl : PipeLine text q.rest) :
    pipeLine.ends p = [q] := by
  obtain ⟨indent, body, hi, hb, rfl⟩ := hl
  have hw : p.passWhile isIndent = ⟨p.offset + byteLength indent, '|' :: (body ++ q.rest)⟩ := by
    refine Place.passWhile_eq_iff.2 ⟨indent, ⟨by simp [hp.1], rfl⟩, hi, ?_⟩
    simp [isIndent]
  have hp' : Place.Passes ⟨p.offset + byteLength indent + '|'.utf8Size, body ++ q.rest⟩ body q :=
    ⟨rfl, by simp [hp.2, Nat.add_assoc]⟩
  rw [ends_pipeLine_eq, hw, ends_bar rfl, if_pos rfl, ends_line has_line hp' hb]

theorem exists_pipeLine (h : StartsPipe p.rest) :
    ∃ text q, p.Passes text q ∧ PipeLine text q.rest := by
  obtain ⟨rest, hr⟩ := List.head?_eq_some_iff.1 h
  obtain ⟨body, q, hp, hb⟩ := exists_lineRest ⟨(p.passWhile isIndent).offset + '|'.utf8Size, rest⟩
  have h0 := p.passes_passWhile isIndent
  have h1 : (p.passWhile isIndent).Passes ['|'] ⟨(p.passWhile isIndent).offset + '|'.utf8Size,
    rest⟩ :=
    ⟨hr, by simp⟩
  refine ⟨_, q, (h0.trans h1).trans hp, p.rest.takeWhile isIndent, body, ?_, hb, by simp⟩
  exact fun c hc => List.all_eq_true.1 List.all_takeWhile c hc

theorem PipeLine.startsPipe (h : PipeLine text rest) (more : List Char) :
    StartsPipe (text ++ more) := by
  obtain ⟨indent, body, hi, -, rfl⟩ := h
  simp [StartsPipe, List.dropWhile_append_of_pos hi, isIndent]

theorem PipeRun.startsPipe (h : PipeRun text rest) : StartsPipe (text ++ rest) := by
  cases h with
  | last h _ => exact h.startsPipe _
  | more h _ => rw [List.append_assoc]; exact h.startsPipe _

theorem PipeLine.ne_nil (h : PipeLine text rest) : text ≠ [] := by
  obtain ⟨indent, body, -, -, rfl⟩ := h
  simp

/-- A run of lines is its first line and what the run goes on with. -/
theorem pipeRun_iff {line : List Char} {r : Place} (hp : p.Passes line r)
    (hl : PipeLine line r.rest) : (∃ text, p.Passes text q ∧ PipeRun text q.rest) ↔
      (¬ StartsPipe r.rest ∧ r = q) ∨ ∃ text, r.Passes text q ∧ PipeRun text q.rest := by
  constructor
  · rintro ⟨text, hq, hrun⟩
    cases hrun with
    | last hl' hn =>
      obtain rfl : r = q := by
        simpa using (ends_pipeLine hp hl).symm.trans (ends_pipeLine hq hl')
      exact .inl ⟨hn, rfl⟩
    | @more line' text _ hl' hrun =>
      have hm : p.Passes line' ⟨p.offset + byteLength line', text ++ q.rest⟩ :=
        ⟨by simp [hq.1], rfl⟩
      obtain rfl : r = ⟨p.offset + byteLength line', text ++ q.rest⟩ := by
        simpa using (ends_pipeLine hp hl).symm.trans (ends_pipeLine hm hl')
      exact .inr ⟨text, ⟨rfl, by simp [hq.2, Nat.add_assoc]⟩, hrun⟩
  · rintro (⟨hn, rfl⟩ | ⟨text, hq, hrun⟩)
    · exact ⟨line, hp, .last hl hn⟩
    · exact ⟨line ++ text, hp.trans hq, .more (hq.1 ▸ hl) hrun⟩

theorem not_pipeRun (hs : ¬ StartsPipe p.rest) :
    ¬ ∃ text, p.Passes text q ∧ PipeRun text q.rest := by
  rintro ⟨text, hp, hrun⟩
  exact hs (hp.1 ▸ hrun.startsPipe)

/-- Lines with bars are repeated as long as there is one. -/
theorem head?_runs_pipeLine (bound : List Char) (p : Place) (tail : List Place)
    (hb : p.rest.length ≤ bound.length) : (runs pipeLine.ends bound p tail).head? = some q ↔
      (¬ StartsPipe p.rest ∧ p = q) ∨ ∃ text, p.Passes text q ∧ PipeRun text q.rest := by
  induction bound generalizing p tail with
  | nil =>
    have hr : p.rest = [] := List.length_eq_zero_iff.1 (Nat.le_zero.1 hb)
    have hs : ¬ StartsPipe p.rest := by simp [hr, StartsPipe]
    simp [runs, hs, not_pipeRun hs]
  | cons d bound ih =>
    by_cases hs : StartsPipe p.rest
    · obtain ⟨line, r, hp, hl⟩ := exists_pipeLine hs
      have hne : r.offset ≠ p.offset := by
        have := byteLength_pos hl.ne_nil
        rw [hp.2]
        omega
      have hlen : r.rest.length ≤ bound.length := by
        have := List.length_pos_iff.2 hl.ne_nil
        rw [hp.1] at hb
        simp only [List.length_append, List.length_cons] at hb
        omega
      rw [runs, ends_pipeLine hp hl, pipeRun_iff hp hl, ← ih r (p :: tail) hlen]
      simp [hne, hs]
    · simp [runs, ends_pipeLine_nil hs, hs, not_pipeRun hs]

theorem end?_pipes_iff :
    (plus pipeLine).end? p = some q ↔ ∃ text, p.Passes text q ∧ PipeRun text q.rest := by
  rw [end?, ends.eq_7]
  by_cases hs : StartsPipe p.rest
  · obtain ⟨line, r, hp, hl⟩ := exists_pipeLine hs
    rw [ends_pipeLine hp hl, List.flatMap_singleton, head?_runs_pipeLine _ _ _ (Nat.le_refl _),
      pipeRun_iff hp hl]
  · rw [ends_pipeLine_nil hs]
    simp [not_pipeRun hs]

/-- The space after a dash is part of the rest of the line. -/
theorem end?_afterDash (p : Place) : (seq (opt (one (.only ' ')))
    (star (one (.noneOf [('\n', '\n')])))).end? p = some (p.passWhile (· != '\n')) := by
  have hstar : ∀ (r : Place) (more : List Place),
      ((star (one (.noneOf [('\n', '\n')]))).ends r ++ more).head? =
        some (r.passWhile (· != '\n')) := by
    intro r more
    obtain ⟨shorter, hs, -⟩ := ends_star_one (.noneOf [('\n', '\n')]) r
    rw [hs, has_line]
    rfl
  rw [end?, ends.eq_3, ends.eq_5]
  cases hr : p.rest with
  | nil => rw [ends_one_nil hr, List.nil_append, List.flatMap_cons, hstar]
  | cons c rest =>
    rw [ends_one_cons hr]
    by_cases hc : c = ' '
    · subst hc
      rw [if_pos (by decide), List.singleton_append, List.flatMap_cons, hstar,
        Place.passWhile_cons hr (by decide)]
    · rw [if_neg (by simpa [CharSet.has] using Ne.symm hc), List.nil_append, List.flatMap_cons,
        hstar]

theorem end?_dash_iff : (seq (one (.only '-')) (seq (opt (one (.only ' ')))
    (star (one (.noneOf [('\n', '\n')]))))).end? p = some q ↔
      ∃ text, p.Passes text q ∧ DashLine text q.rest := by
  simp only [end?_seq_one, end?_afterDash, Option.some.injEq, Place.passWhile_eq_iff]
  constructor
  · rintro ⟨c, rest, hr, hc, line, hp, hl, hq⟩
    obtain rfl : '-' = c := by simpa [CharSet.has] using hc
    have h1 : p.Passes ['-'] ⟨p.offset + '-'.utf8Size, rest⟩ := ⟨hr, by simp⟩
    refine ⟨'-' :: line, h1.trans hp, line, rfl, ?_, ?_⟩
    · intro hn
      simpa using hl _ hn
    · simpa using hq
  · rintro ⟨_, hp, line, rfl, hl, hq⟩
    refine ⟨'-', line ++ q.rest, hp.1, by decide, line, ⟨rfl, by simp [hp.2, Nat.add_assoc]⟩, ?_,
      ?_⟩
    · intro c hc
      have : c ≠ '\n' := fun h => hl (h ▸ hc)
      simpa using this
    · simpa using hq

/-- Content is the rest of a line from a dash on, or a run of lines with bars. -/
theorem end?_content_iff : (Pattern.token content).end? p = some q ↔
    ∃ text, p.Passes text q ∧ (DashLine text q.rest ∨ PipeRun text q.rest) := by
  simp only [Pattern.end?, content, and_or_left, exists_or, ← end?_dash_iff, ← end?_pipes_iff]
  rw [end?, ends.eq_4, List.head?_append]
  change Option.or (end? _ p) (end? (plus pipeLine) p) = some q ↔ _
  rw [Option.or_eq_some_iff]
  constructor
  · rintro (h | ⟨-, h⟩)
    · exact .inl h
    · exact .inr h
  · rintro (h | h)
    · exact .inl h
    · refine .inr ⟨?_, h⟩
      obtain ⟨text, hp, hrun⟩ := end?_pipes_iff.1 h
      have hs : StartsPipe p.rest := hp.1 ▸ hrun.startsPipe
      cases hd : end? _ p with
      | none => rfl
      | some r =>
        obtain ⟨_, hp', line, rfl, -⟩ := end?_dash_iff.1 hd
        simp [hp'.1, StartsPipe, isIndent] at hs

/-! ### Fixed texts -/

theorem end?_literal_iff {t : String} :
    (Pattern.literal t).end? p = some q ↔ p.Passes t.toList q := by
  simp only [Pattern.end?, Place.strip?_eq_some_iff, Place.Passes]

theorem end?_keyword_iff {t : String} : (Pattern.keyword t).end? p = some q ↔
    p.Passes t.toList q ∧ ∀ c ∈ q.rest.head?, Pattern.isWordChar c = false := by
  simp only [Pattern.end?, Option.filter_eq_some_iff, Place.strip?_eq_some_iff, Place.Passes]
  cases q.rest.head? <;> simp

/-- Where a keyword matches, the word that it is ends with it. -/
theorem end?_word_of_keyword {t : String} (ht : IsWord t.toList)
    (h : (Pattern.keyword t).end? p = some q) : word.end? p = some q ∧ p.upTo q = t.toList := by
  obtain ⟨hp, hnext⟩ := end?_keyword_iff.1 h
  refine ⟨end?_word_iff.2 ⟨_, hp, ht, fun c hc => Bool.eq_false_iff.2 fun hpart => ?_⟩, hp.upTo_eq⟩
  have hfalse := hnext c hc
  simp [isWordChar_of_isWordPart hpart] at hfalse

/-! ### Tokens -/

/-- Lines with a bar as their first sign, each with its line feed. -/
inductive BarLines : List Char → Prop where
  | line {indent line : List Char} :
      (∀ c ∈ indent, isIndent c) → '\n' ∉ line → BarLines (indent ++ '|' :: line ++ ['\n'])
  | more {indent line text : List Char} :
      (∀ c ∈ indent, isIndent c) → '\n' ∉ line → BarLines text →
      BarLines (indent ++ '|' :: line ++ ['\n'] ++ text)

/-- A line from a dash on. -/
def IsDash (text : List Char) : Prop := ∃ line, text = '-' :: line ∧ '\n' ∉ line

/-- A line from a dash on, or lines with bars, the last of which may lack its line feed. -/
def IsContent (text : List Char) : Prop :=
  IsDash text ∨ BarLines text ∨ BarLines (text ++ ['\n'])

theorem PipeLine.barLines (h : PipeLine text rest) :
    BarLines text ∨ BarLines (text ++ ['\n']) ∧ rest = [] := by
  obtain ⟨indent, body, hi, ⟨line, hl, rfl | ⟨rfl, hr⟩⟩, rfl⟩ := h
  · exact .inl (by simpa using BarLines.line hi hl)
  · exact .inr ⟨BarLines.line hi hl, hr⟩

theorem PipeRun.barLines (h : PipeRun text rest) :
    BarLines text ∨ BarLines (text ++ ['\n']) ∧ rest = [] := by
  induction h with
  | last h _ => exact h.barLines
  | @more line text rest h hrun ih =>
    obtain ⟨indent, body, hi, ⟨line, hl, rfl | ⟨rfl, hnil⟩⟩, rfl⟩ := h
    · obtain ih | ⟨ih, hr⟩ := ih
      · exact .inl (by simpa using BarLines.more hi hl ih)
      · exact .inr ⟨by simpa using BarLines.more hi hl ih, hr⟩
    · obtain ⟨rfl, rfl⟩ := List.append_eq_nil_iff.1 hnil
      have := hrun.startsPipe
      simp [StartsPipe] at this

theorem BarLines.pipeRun (h : BarLines text) (hr : ¬ StartsPipe rest) : PipeRun text rest := by
  have hline : ∀ {indent line rest : List Char}, (∀ c ∈ indent, isIndent c) → '\n' ∉ line →
      PipeLine (indent ++ '|' :: line ++ ['\n']) rest := fun hi hl =>
    ⟨_, _, hi, ⟨_, hl, .inl rfl⟩, by simp⟩
  induction h with
  | line hi hl => exact .last (hline hi hl) hr
  | more hi hl _ ih => exact .more (hline hi hl) ih

/-- Neither a word nor trivia nor a line with a bar begins with the character. -/
def isSignStart (c : Char) : Bool := !(Pattern.isWordChar c || isBlank c || c == '/' || c == '|')

def IsSign (text : List Char) : Prop := ∃ c rest, text = c :: rest ∧ isSignStart c

instance : DecidablePred IsSign
  | [] => isFalse (by simp [IsSign])
  | c :: _ => decidable_of_iff (isSignStart c) (by simp [IsSign])

/-- The patterns of tokens. -/
def Lexical : Pattern → Prop
  | .literal text => IsSign text.toList
  | .keyword text => IsWord text.toList
  | .token cls => cls = identifier ∨ cls = content
  | .endOfInput => False

instance : DecidablePred Lexical
  | .literal text => inferInstanceAs (Decidable (IsSign text.toList))
  | .keyword text => inferInstanceAs (Decidable (IsWord text.toList))
  | .token cls => inferInstanceAs (Decidable (cls = identifier ∨ cls = content))
  | .endOfInput => inferInstanceAs (Decidable False)

theorem IsSign.ne_nil (h : IsSign text) : text ≠ [] := by
  obtain ⟨c, rest, rfl, -⟩ := h
  simp

theorem lexical_introducer (kind : AttributeKind) : Lexical (introducer kind) := by
  cases kind <;> decide

theorem lexical_keyword (kind : StatementKind) : Lexical (keyword kind) := by
  cases kind <;> decide

/-- The text of a token is what its pattern demands. -/
def Spells : Pattern → List Char → Prop
  | .literal t, text | .keyword t, text => text = t.toList
  | .token cls, text => cls = identifier ∧ IsWord text ∨ cls = content ∧ IsContent text
  | .endOfInput, text => text = []

theorem BarLines.bar_mem (h : BarLines text) : '|' ∈ text := by
  cases h <;> simp

theorem IsContent.ne_nil (h : IsContent text) : text ≠ [] := by
  rintro rfl
  obtain ⟨line, h, -⟩ | h | h := h
  · simp at h
  · exact absurd h.bar_mem (by decide)
  · exact absurd h.bar_mem (by decide)

theorem exists_spells {pattern : Pattern} (h : pattern.end? p = some q) (hl : Lexical pattern) :
    ∃ text, p.Passes text q ∧ text ≠ [] ∧ Spells pattern text := by
  match pattern with
  | .literal t => exact ⟨_, end?_literal_iff.1 h, hl.ne_nil, rfl⟩
  | .keyword t => exact ⟨_, (end?_keyword_iff.1 h).1, hl.ne_nil, rfl⟩
  | .token cls =>
    obtain rfl | rfl := hl
    · obtain ⟨text, hp, hw, -⟩ := end?_word_iff.1 h
      exact ⟨text, hp, hw.ne_nil, .inl ⟨rfl, hw⟩⟩
    · obtain ⟨text, hp, ht⟩ := end?_content_iff.1 h
      have hc : IsContent text := by
        obtain ⟨line, ht, hn, -⟩ | ht := ht
        · exact .inl ⟨line, ht, hn⟩
        · exact .inr (ht.barLines.imp_right And.left)
      exact ⟨text, hp, hc.ne_nil, .inr ⟨rfl, hc⟩⟩

end SchemaText.Grammar
