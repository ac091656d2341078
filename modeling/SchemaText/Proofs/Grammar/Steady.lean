import Mathlib.Data.List.TakeWhile
import SchemaText.Proofs.Grammar.Finding
import SchemaText.Proofs.Grammar.Seam
import SchemaText.Proofs.Grammar.Sound.Attribute
import SchemaText.Proofs.Parse.Composed

/-!
The tokens of a text, and the trivia between them, are what they are whatever lines are put behind
the text.
-/
namespace SchemaText

open Grammar

variable {p q : Place} {text rest next : List Char} {pattern : Pattern} {t : String}

/-- A piece of text without line feeds does not reach into the lines behind the text. -/
theorem Place.Passes.of_extend (h : (p.extend ('\n' :: next)).Passes text q) (hn : '\n' ∉ text) :
    ∃ r, p.Passes text r ∧ q = r.extend ('\n' :: next) := by
  obtain ⟨hr, ho⟩ := h
  have hr : p.rest ++ '\n' :: next = text ++ q.rest := hr
  rcases List.append_eq_append_iff.1 hr with ⟨x, htext, hx⟩ | ⟨x, hp, hq⟩
  · cases x with
    | nil =>
      rw [List.append_nil] at htext
      refine ⟨⟨q.offset, []⟩, ⟨by rw [htext, List.append_nil], ho⟩, ?_⟩
      rw [Place.extend, List.nil_append, hx]
      rfl
    | cons c x =>
      obtain ⟨rfl, -⟩ := List.cons.inj hx
      exact absurd (by simp [htext]) hn
  · refine ⟨⟨q.offset, x⟩, ⟨hp, ho⟩, ?_⟩
    rw [Place.extend, ← hq]

namespace Grammar

/-- What a line feed and the first character of the text both have, the first character has where
lines follow. -/
theorem forall_head?_extend {P : Char → Prop} (hn : P '\n') (h : ∀ c ∈ p.rest.head?, P c) :
    ∀ c ∈ (p.extend ('\n' :: next)).rest.head?, P c := by
  by_cases hr : p.rest = []
  · intro c hc
    obtain rfl : '\n' = c := by simpa [Place.extend, hr] using hc
    exact hn
  · rw [head?_extend_of_ne_nil hr]
    exact h

/-! ### Words and fixed texts -/

theorem end?_word_extend :
    word.end? (p.extend ('\n' :: next)) = (word.end? p).map (·.extend ('\n' :: next)) := by
  cases hw : word.end? p with
  | none =>
    exact end?_word_eq_none_iff.2
      (forall_head?_extend (P := (isWordStart · = false)) (by decide) (end?_word_eq_none_iff.1 hw))
  | some q =>
    obtain ⟨text, hp, ht, hq⟩ := end?_word_iff.1 hw
    exact end?_word_iff.2
      ⟨text, hp.extend, ht, forall_head?_extend (P := (isWordPart · = false)) (by decide) hq⟩

theorem end?_literal_extend (hn : '\n' ∉ t.toList) :
    (Pattern.literal t).end? (p.extend ('\n' :: next)) =
      ((Pattern.literal t).end? p).map (·.extend ('\n' :: next)) := by
  cases hp : (Pattern.literal t).end? p with
  | some q => exact end?_literal_iff.2 (end?_literal_iff.1 hp).extend
  | none =>
    rw [Option.map_none, Option.eq_none_iff_forall_ne_some]
    intro q hq
    obtain ⟨r, hr, -⟩ := (end?_literal_iff.1 hq).of_extend hn
    simp [end?_literal_iff.2 hr] at hp

theorem end?_keyword_extend (hw : IsWord t.toList) :
    (Pattern.keyword t).end? (p.extend ('\n' :: next)) =
      ((Pattern.keyword t).end? p).map (·.extend ('\n' :: next)) := by
  cases hp : (Pattern.keyword t).end? p with
  | some q =>
    obtain ⟨hpass, hq⟩ := end?_keyword_iff.1 hp
    exact end?_keyword_iff.2 ⟨hpass.extend, forall_head?_extend (by decide) hq⟩
  | none =>
    rw [Option.map_none, Option.eq_none_iff_forall_ne_some]
    intro q hq
    obtain ⟨hpass, hq⟩ := end?_keyword_iff.1 hq
    obtain ⟨r, hr, rfl⟩ := hpass.of_extend hw.not_mem
    have : (Pattern.keyword t).end? p = some r := by
      refine end?_keyword_iff.2 ⟨hr, fun c hc => hq c ?_⟩
      rw [head?_extend_of_ne_nil]
      · exact hc
      · intro hnil
        simp [hnil] at hc
    simp [hp] at this

/-! ### Content -/

theorem exists_pipeRun (h : StartsPipe p.rest) :
    ∃ text q, p.Passes text q ∧ PipeRun text q.rest := by
  induction hn : p.rest.length using Nat.strongRecOn generalizing p with
  | ind n ih =>
    obtain ⟨line, q, hp, hl⟩ := exists_pipeLine h
    by_cases hq : StartsPipe q.rest
    · have hlt : q.rest.length < n := by
        have := List.length_pos_iff.2 hl.ne_nil
        rw [← hn, hp.1, List.length_append]
        omega
      obtain ⟨text, r, hr, hrun⟩ := ih _ hlt hq rfl
      exact ⟨line ++ text, r, hp.trans hr, .more (hr.1 ▸ hl) hrun⟩
    · exact ⟨line, q, hp, .last hl hq⟩

theorem exists_dashLine (h : p.rest.head? = some '-') :
    ∃ text q, p.Passes text q ∧ DashLine text q.rest := by
  obtain ⟨rest, hr⟩ := List.head?_eq_some_iff.1 h
  obtain ⟨line, hp, hl, hq⟩ := Place.passWhile_eq_iff.1
    (Eq.refl (Place.passWhile (· != '\n') ⟨p.offset + '-'.utf8Size, rest⟩))
  have hdash : p.Passes ['-'] ⟨p.offset + '-'.utf8Size, rest⟩ := ⟨hr, by simp⟩
  refine ⟨'-' :: line, _, hdash.trans hp, line, rfl, ?_, ?_⟩
  · intro hn
    simpa using hl _ hn
  · simpa using hq

/-- Content begins with a dash, or with a bar behind indentation. -/
theorem end?_content_eq_none_iff : (Pattern.token content).end? p = none ↔
    p.rest.head? ≠ some '-' ∧ ¬ StartsPipe p.rest := by
  constructor
  · intro h
    constructor
    · intro hdash
      obtain ⟨text, q, hp, hl⟩ := exists_dashLine hdash
      simp [end?_content_iff.2 ⟨text, hp, .inl hl⟩] at h
    · intro hbar
      obtain ⟨text, q, hp, hrun⟩ := exists_pipeRun hbar
      simp [end?_content_iff.2 ⟨text, hp, .inr hrun⟩] at h
  · rintro ⟨hdash, hbar⟩
    rw [Option.eq_none_iff_forall_ne_some]
    intro q hq
    obtain ⟨text, hp, ⟨line, rfl, -⟩ | hrun⟩ := end?_content_iff.1 hq
    · simp [hp.1] at hdash
    · exact hbar (hp.1 ▸ hrun.startsPipe)

/-- Indentation that is followed by something is followed by it in a longer text. -/
theorem startsPipe_append (h : rest.dropWhile isIndent ≠ []) (more : List Char) :
    StartsPipe (rest ++ more) ↔ StartsPipe rest := by
  obtain ⟨c, tail, hc⟩ := List.exists_cons_of_ne_nil h
  rw [StartsPipe, StartsPipe, List.dropWhile_append, hc]
  simp

theorem spent_of_dropWhile_eq_nil (h : p.rest.dropWhile isIndent = []) : p.Spent := by
  have hclosed : ClosedTrivia p.rest := by
    apply closedTrivia_of_blanks
    intro c hc
    exact isBlank_of_isIndent (List.dropWhile_eq_nil_iff.1 h c hc)
  have hdrop := dropTrivia_closed hclosed (y := [])
  rw [List.append_nil] at hdrop
  exact hdrop

theorem PipeRun.not_startsPipe (h : PipeRun text rest) : ¬ StartsPipe rest := by
  induction h with
  | last _ hn => exact hn
  | more _ _ ih => exact ih

theorem PipeRun.extend_of_ne_nil {more : List Char} (h : PipeRun text rest) (hne : rest ≠ [])
    (hmore : ¬ StartsPipe (rest ++ more)) : PipeRun text (rest ++ more) := by
  induction h with
  | last hline _ =>
    obtain ⟨indent, body, hi, hbody, htext⟩ := hline
    exact .last ⟨indent, body, hi, hbody.extend fun hnil => absurd hnil hne, htext⟩ hmore
  | @more line text rest hline _ ih =>
    obtain ⟨indent, body, hi, hbody, htext⟩ := hline
    have hbody : LineRest body (text ++ rest ++ more) := hbody.extend fun hnil =>
      absurd (List.append_eq_nil_iff.1 hnil).2 hne
    rw [List.append_assoc] at hbody
    exact .more ⟨indent, body, hi, hbody, htext⟩ (ih hne hmore)

/-- Lines with bars go on in the text behind them only where nothing else is left. -/
theorem keeps_content (hp : ¬ p.Spent) : (Pattern.token content).Keeps p next := by
  rw [Pattern.Keeps]
  cases hq : (Pattern.token content).end? p with
  | none =>
    right
    obtain ⟨hdash, hbar⟩ := end?_content_eq_none_iff.1 hq
    refine end?_content_eq_none_iff.2 ⟨?_, ?_⟩
    · rw [head?_extend_of_ne_nil fun hnil => hp (Place.spent_of_nil hnil)]
      exact hdash
    · exact mt (startsPipe_append (mt spent_of_dropWhile_eq_nil hp) _).1 hbar
  | some q =>
    obtain ⟨text, hpass, ⟨line, rfl, hn, hend⟩ | hrun⟩ := end?_content_iff.1 hq
    · right
      exact end?_content_iff.2
        ⟨_, hpass.extend, .inl ⟨line, rfl, hn, forall_head?_extend rfl hend⟩⟩
    by_cases hs : q.Spent
    · exact .inl ⟨q, rfl, hs⟩
    · right
      have hne : q.rest ≠ [] := fun hnil => hs (Place.spent_of_nil hnil)
      have hmore : ¬ StartsPipe (q.rest ++ '\n' :: next) :=
        mt (startsPipe_append (mt spent_of_dropWhile_eq_nil hs) _).1 hrun.not_startsPipe
      exact end?_content_iff.2 ⟨text, hpass.extend, .inr (hrun.extend_of_ne_nil hne hmore)⟩

/-! ### Steady patterns -/

/-- Only lines with bars may have blanks in front of them. -/
theorem skip_eq_of_end? (hl : Lexical pattern) (h : pattern.end? p = some q)
    (hbar : ¬ StartsPipe p.rest) : p.skip = p := by
  obtain ⟨text, hp, -, hsp⟩ := exists_spells h hl
  have hfits : Lexeme.Fits pattern ⟨text, ['\n']⟩ := by
    refine ⟨hsp, ?_, .blank (by decide) .nil, fun _ _ => rfl⟩
    rintro rfl
    obtain ⟨text', hp', hline⟩ := end?_content_iff.1 h
    obtain rfl : text' = text := hp'.upTo_eq.symm.trans hp.upTo_eq
    rcases hline with ⟨line, htext, hn, -⟩ | hrun
    · exact .inl ⟨line, htext, hn⟩
    · exact absurd (hp.1 ▸ hrun.startsPipe) hbar
  exact hfits.skip_eq hl hp.1

/-- No token stands where only trivia is left. -/
theorem end?_eq_none_of_spent (hl : Lexical pattern) (hs : p.Spent) : pattern.end? p = none := by
  obtain ⟨gap, hgap, hfinal, -⟩ := p.exists_passes_skip
  have hrest : p.rest = gap := by rw [hgap.1, hs, List.append_nil]
  have hbar : ¬ StartsPipe p.rest := hrest ▸ not_startsPipe_of_final hfinal
  cases h : pattern.end? p with
  | none => rfl
  | some q =>
    have hskip := skip_eq_of_end? hl h hbar
    have hnil : p.rest = [] := by
      rw [← hskip]
      exact hs
    rw [← h]
    exact end?_eq_none_of_nil hskip hl hnil

theorem Lexical.steady (hl : Lexical pattern)
    (hkeeps : ∀ (p : Place) (next : List Char), ¬ p.Spent → pattern.Keeps p next) :
    pattern.Steady where
  passes := by
    intro p q h
    obtain ⟨text, hp, -⟩ := exists_spells h hl
    exact ⟨text, hp⟩
  spent := by
    intro p q hs h
    simp [end?_eq_none_of_spent hl hs] at h
  keeps := fun {p} next hs => hkeeps p next hs

theorem steady_literal (h : IsSign t.toList ∧ '\n' ∉ t.toList) : (Pattern.literal t).Steady :=
  Lexical.steady h.1 fun _ _ _ => .inr (end?_literal_extend h.2)

theorem steady_keyword (hw : IsWord t.toList) : (Pattern.keyword t).Steady :=
  Lexical.steady hw fun _ _ _ => .inr (end?_keyword_extend hw)

theorem steady_word : word.Steady :=
  Lexical.steady (.inl rfl) fun _ _ _ => .inr end?_word_extend

theorem steady_content : (Pattern.token content).Steady :=
  Lexical.steady (.inr rfl) fun _ _ hs => keeps_content hs

theorem steady_whitespace : (Pattern.token whitespace).Steady where
  passes := by
    intro p q h
    obtain ⟨c, -, -, rfl⟩ := end?_whitespace_iff.1 h
    exact ⟨_, p.passes_passWhile isBlank⟩
  spent := fun hs h => hs.of_skip_eq (skip_of_whitespace h)
  keeps := by
    intro p next hs
    right
    have hhead := head?_extend_of_ne_nil (fun hnil => hs (Place.spent_of_nil hnil)) ('\n' :: next)
    cases hw : (Pattern.token whitespace).end? p with
    | none =>
      rw [Option.map_none, Option.eq_none_iff_forall_ne_some]
      intro q hq
      obtain ⟨c, hc, hb, -⟩ := end?_whitespace_iff.1 hq
      rw [hhead] at hc
      simp [end?_whitespace_iff.2 ⟨c, hc, hb, rfl⟩] at hw
    | some q =>
      obtain ⟨c, hc, hb, hq⟩ := end?_whitespace_iff.1 hw
      obtain ⟨text, hp, ht, hend⟩ := Place.passWhile_eq_iff.1 hq
      have hne : q.rest ≠ [] := by
        intro hnil
        exact hs ((Place.spent_of_nil hnil).of_skip_eq (skip_of_whitespace hw).symm)
      rw [← head?_extend_of_ne_nil hne ('\n' :: next)] at hend
      rw [← hhead] at hc
      exact end?_whitespace_iff.2 ⟨c, hc, hb, Place.passWhile_eq_iff.2 ⟨text, hp.extend, ht, hend⟩⟩

theorem steady_comment : (Pattern.token comment).Steady where
  passes := by
    intro p q h
    obtain ⟨text, hp, -⟩ := end?_comment_iff.1 h
    exact ⟨_, hp⟩
  spent := fun hs h => hs.of_skip_eq (skip_of_comment h)
  keeps := by
    intro p next hs
    rw [Pattern.Keeps]
    cases hc : (Pattern.token comment).end? p with
    | none =>
      right
      rw [Option.map_none, Option.eq_none_iff_forall_ne_some]
      intro q hq
      obtain ⟨text, hp, -⟩ := end?_comment_iff.1 hq
      have hslashes : (p.extend ('\n' :: next)).Passes ['/', '/']
          ⟨p.offset + byteLength ['/', '/'], text ++ q.rest⟩ := ⟨hp.1, rfl⟩
      obtain ⟨r, hr, -⟩ := hslashes.of_extend (by decide)
      obtain ⟨line, e, he, hl⟩ := exists_lineRest r
      simp [end?_comment_iff.2 ⟨line, hr.trans he, hl⟩] at hc
    | some q =>
      obtain ⟨text, hp, line, hl, htext | ⟨-, hnil⟩⟩ := end?_comment_iff.1 hc
      · exact .inr (end?_comment_iff.2 ⟨text, hp.extend, line, hl, .inl htext⟩)
      · exact .inl ⟨q, rfl, Place.spent_of_nil hnil⟩

theorem steady_endOfInput : Pattern.endOfInput.Steady where
  passes := by
    intro p q h
    rw [Pattern.end?] at h
    split at h
    · obtain rfl := Option.some.inj h
      exact ⟨[], .refl p⟩
    · simp at h
  spent := by
    intro p q hs h
    rw [Pattern.end?] at h
    split at h
    · obtain rfl := Option.some.inj h
      exact hs
    · simp at h
  keeps := by
    intro p next hs
    right
    have hne : p.rest ≠ [] := fun hnil => hs (Place.spent_of_nil hnil)
    simp [Pattern.end?, Place.extend, hne]

/-! ### Findings -/

theorem steady_finding_nil : Finding.Steady [] := by
  intro p next hr
  obtain ⟨c, rest, hp⟩ := List.exists_cons_of_ne_nil hr
  have hpe : (p.extend ('\n' :: next)).rest = c :: (rest ++ '\n' :: next) := by
    simp [Place.extend, hp]
  rw [lookAt_char (.inl rfl) hp, lookAt_char (.inl rfl) hpe]

theorem steady_finding_word : Finding.Steady [word] := by
  intro p next hr
  have hextend : word.end? (p.extend ('\n' :: next)) = _ := end?_word_extend
  cases hw : word.end? p with
  | none =>
    rw [hw, Option.map_none] at hextend
    obtain ⟨c, rest, hp⟩ := List.exists_cons_of_ne_nil hr
    have hpe : (p.extend ('\n' :: next)).rest = c :: (rest ++ '\n' :: next) := by
      simp [Place.extend, hp]
    rw [lookAt_char (.inr ⟨rfl, hw⟩) hp, lookAt_char (.inr ⟨rfl, hextend⟩) hpe]
  | some q =>
    rw [hw, Option.map_some] at hextend
    obtain ⟨text, hpass, -⟩ := end?_word_iff.1 hw
    rw [lookAt_word hw, lookAt_word hextend, hpass.upTo_eq, hpass.extend.upTo_eq]

end Grammar

end SchemaText
