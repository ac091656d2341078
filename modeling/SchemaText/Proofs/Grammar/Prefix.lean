import SchemaText.Proofs.Grammar.Following
import SchemaText.Proofs.Grammar.Layout

/-!
What has been read is a layout, also when the text is cut behind it.
-/
namespace SchemaText

open Grammar

variable {s q e : Place} {pattern : Pattern} {x gap tail text : List Char}
  {slots slots' : List (Slot Token)} {lexemes : List (Slot Lexeme)}

/-- A word is read as far as it goes. -/
theorem endsWord_of_end? (hs : s.skip = s) (hl : Lexical pattern) (h : pattern.end? s = some q)
    (hx : s.Passes x q) (hw : IsWord x) : EndsWord q.rest := by
  obtain ⟨c, rest, rfl, hc, -⟩ := hw
  have hchar := isWordChar_of_isWordPart (isWordPart_of_isWordStart hc)
  match pattern with
  | .literal t =>
    obtain ⟨d, more, ht, hd⟩ := hl
    have he := (end?_literal_iff.1 h).upTo_eq.symm.trans hx.upTo_eq
    obtain ⟨rfl, -⟩ := List.cons.inj (ht.symm.trans he)
    simp [isSignStart, hchar] at hd
  | .keyword t =>
    refine fun d hd => Bool.eq_false_iff.2 fun hp => ?_
    have := (end?_keyword_iff.1 h).2 d hd
    simp [isWordChar_of_isWordPart hp] at this
  | .token cls =>
    obtain rfl | rfl := hl
    · obtain ⟨_, -, -, he⟩ := end?_word_iff.1 h
      exact he
    · obtain ⟨d, hd, hb⟩ := exists_begins hs (show Lexical (.token Grammar.content) by decide) h
      obtain rfl : c = d := by simpa [hx.1] using hd
      have hne : Grammar.content ≠ identifier := by decide
      simp only [begins, if_neg hne, Bool.or_eq_true, beq_iff_eq] at hb
      obtain rfl | rfl := hb <;> exact absurd hc (by decide)

/-- A token that is read fits in front of trivia, unless it is cut within a line with a bar. -/
theorem exists_fits (hs : s.skip = s) (hl : Lexical pattern) (h : pattern.end? s = some q)
    (hx : s.Passes x q) (hgap : ClosedTrivia gap)
    (hdash : (∀ c ∈ q.rest.head?, c = '\n') → gap.head? = some '\n') :
    Lexeme.Fits pattern ⟨x, gap⟩ ∨
      pattern = .token Grammar.content ∧ q.rest = [] ∧ Lexeme.Fits pattern ⟨x ++ ['\n'], []⟩ := by
  obtain ⟨text, hp, hne, hsp⟩ := exists_spells h hl
  obtain rfl : text = x := hp.upTo_eq.symm.trans hx.upTo_eq
  by_cases hpat : pattern = .token Grammar.content
  · subst hpat
    obtain ⟨text', hp', hd | hrun⟩ := end?_content_iff.1 h
    all_goals obtain rfl : text' = text := hp'.upTo_eq.symm.trans hx.upTo_eq
    · obtain ⟨line, rfl, hn, hend⟩ := hd
      exact .inl ⟨hsp, fun _ => .inl ⟨line, rfl, hn⟩, hgap, fun _ _ => hdash hend⟩
    · have hhead : text'.head? = some '|' := by
        have := head?_of_startsPipe hs (hp'.1 ▸ hrun.startsPipe)
        rw [hp'.1, List.head?_append] at this
        cases text' with
        | nil => exact absurd rfl hne
        | cons c rest => simpa using this
      have hdash : ∀ more, ¬ IsDash (text' ++ more) := by
        rintro more ⟨line, ht, -⟩
        cases text' with
        | nil => exact hne rfl
        | cons c rest => simp [(List.cons.inj ht).1] at hhead
      obtain hb | ⟨hb, hr⟩ := hrun.barLines
      · exact .inl ⟨hsp, fun _ => .inr ⟨hb, hhead⟩, hgap, fun _ hd =>
          absurd (by simpa using hd) (hdash [])⟩
      · refine .inr ⟨rfl, hr, .inr ⟨rfl, .inr (.inl hb)⟩, fun _ => .inr ⟨hb, ?_⟩, .nil, fun _ hd =>
          absurd hd (hdash _)⟩
        simp [List.head?_append, hhead]
  · exact .inl (Lexeme.fits_of_ne_content hpat hsp hgap)

/-- The same slots, but for a last content that has been cut within a line with a bar. -/
def Mended (rest : List Char) (slots slots' : List (Slot Token)) : Prop :=
  slots' = slots ∨ rest = [] ∧ ∃ init token mended,
    slots = init ++ [(.token Grammar.content, token)] ∧
    slots' = init ++ [(.token Grammar.content, mended)] ∧ BarLines mended.text

theorem Mended.cons {rest : List Char} (h : Mended rest slots slots') (slot : Slot Token) :
    Mended rest (slot :: slots) (slot :: slots') := by
  obtain rfl | ⟨hr, init, token, mended, rfl, rfl, hb⟩ := h
  · exact .inl rfl
  · exact .inr ⟨hr, slot :: init, token, mended, rfl, rfl, hb⟩

/-- Nothing is read at the end of a text. -/
theorem Reads.eq_nil (h : Reads s slots e) (hr : s.rest = []) : slots = [] := by
  cases slots with
  | nil => rfl
  | cons slot slots =>
    obtain ⟨q, hl, hq, -⟩ := h
    have hskip : s.skip.rest = [] := by simp [Place.skip, hr, dropTrivia]
    simp [end?_eq_none_of_nil s.skip_skip hl hskip] at hq

/-- A layout begins with a line feed only if the trivia in front of it does. -/
theorem Laid.head?_lineFeed (h : Laid lexemes) (hl : ∀ slot ∈ lexemes, Lexical slot.1)
    (hn : (gap ++ layout lexemes).head? = some '\n') : gap.head? = some '\n' := by
  cases gap with
  | cons c gap => simpa using hn
  | nil =>
    cases lexemes with
    | nil => simp at hn
    | cons slot lexemes =>
      obtain ⟨c, rest, hx, hb, -⟩ := (h.fits slot (by simp)).head (hl slot (by simp))
      obtain rfl : c = '\n' := by simpa [hx] using hn
      exact absurd hb (by decide)

/-- Where no more than a line feed can follow, there is one. -/
theorem head?_append_tail (hp : q.Passes text e) (he : e.skip = e)
    (htail : tail = ['\n'] ∨ tail = [] ∧ e.rest ≠ []) (hq : ∀ c ∈ q.rest.head?, c = '\n') :
    (text ++ tail).head? = some '\n' := by
  cases text with
  | cons c text => simpa [hp.1] using hq
  | nil =>
    obtain rfl | ⟨rfl, hr⟩ := htail
    · rfl
    · obtain ⟨c, rest, hc⟩ := List.exists_cons_of_ne_nil hr
      obtain rfl : c = '\n' := hq c (by simp [hp.1, hc])
      exact absurd (not_isBlank_of_skip_eq he hc) (by decide)

/-- A word that ends does not go on in the layout behind it. -/
theorem Laid.isChain_cons (pattern : Pattern) (h : Laid lexemes) (hp : q.Passes text e)
    (htail : tail = ['\n'] ∨ tail = [] ∧ e.rest ≠ []) (htext : text ++ tail = gap ++ layout lexemes)
    (hx : IsWord x → EndsWord q.rest) :
    List.IsChain (fun a b => a.2.Parted b.2) ((pattern, ⟨x, gap⟩) :: lexemes) := by
  cases lexemes with
  | nil => exact .singleton _
  | cons slot lexemes =>
    refine List.isChain_cons_cons.2 ⟨?_, h.parted⟩
    rintro hw ⟨c, rest, hslot, hc, -⟩ rfl
    rw [layout_cons, hslot] at htext
    cases text with
    | nil =>
      obtain rfl | ⟨rfl, -⟩ := htail
      · obtain ⟨rfl, -⟩ := List.cons.inj htext
        exact absurd hc (by decide)
      · simp at htext
    | cons d text =>
      obtain ⟨rfl, -⟩ := List.cons.inj htext
      have := hx hw d (by simp [hp.1])
      simp [isWordPart_of_isWordStart hc] at this

/-- What has been read is a layout with trivia in front, where a line feed stands for what is left
of the text, or nothing if something is left. -/
theorem Reads.exists_laid (h : Reads s slots e) (he : e.skip = e)
    (htail : tail = ['\n'] ∨ tail = [] ∧ e.rest ≠ []) : ∃ text first lexemes, s.Passes text e ∧
      text ++ tail = first ++ layout lexemes ∧ ClosedTrivia first ∧ Laid lexemes ∧
      (∀ slot ∈ lexemes, Lexical slot.1) ∧
      Mended e.rest slots (tokensAt (s.offset + byteLength first) lexemes) := by
  induction slots generalizing s with
  | nil =>
    obtain ⟨text, hp, hf, hc⟩ := s.exists_passes_skip
    have hs : s.skip = e := he ▸ h
    rw [hs] at hp hc
    refine ⟨text, text ++ tail, [], hp, by simp, ?_, ⟨by simp, .nil⟩, by simp, .inl rfl⟩
    obtain rfl | ⟨rfl, hr⟩ := htail
    · exact hf.append_lineFeed
    · simpa using hc hr
  | cons slot slots ih =>
    obtain ⟨pattern, token⟩ := slot
    obtain ⟨q, hl, hq, rfl, hr⟩ := h
    obtain ⟨text, first, lexemes, hpass, htext, hfirst, hlaid, hlex, hmended⟩ := ih hr
    obtain ⟨gap, hgap, -, hclosed⟩ := s.exists_passes_skip
    obtain ⟨x, hx, hne, -⟩ := exists_spells hq hl
    have hclosed : ClosedTrivia gap := hclosed (by simp [hx.1, hne])
    have hpasses := hgap.trans (hx.trans hpass)
    have hdash : (∀ c ∈ q.rest.head?, c = '\n') → first.head? = some '\n' := fun hn =>
      hlaid.head?_lineFeed hlex (htext ▸ head?_append_tail hpass he htail hn)
    obtain hfits | ⟨rfl, hrest, hfits⟩ := exists_fits s.skip_skip hl hq hx hfirst hdash
    · have hparted := hlaid.isChain_cons pattern hpass htail htext
        (endsWord_of_end? s.skip_skip hl hq hx)
      refine ⟨gap ++ (x ++ text), gap, (pattern, ⟨x, first⟩) :: lexemes, hpasses, by simp [htext],
        hclosed, ⟨List.forall_mem_cons.2 ⟨hfits, hlaid.fits⟩, hparted⟩,
        List.forall_mem_cons.2 ⟨hl, hlex⟩, ?_⟩
      rw [tokensAt, ← hgap.2, ← hx.2, Token.between, hx.upTo_eq]
      exact hmended.cons _
    · obtain rfl := hr.eq_nil hrest
      obtain ⟨rfl, herest⟩ : text = [] ∧ e.rest = [] := by simpa [hrest] using hpass.1.symm
      obtain rfl : tail = ['\n'] := htail.resolve_right fun h => h.2 herest
      have hbars : IsBars (x ++ ['\n']) := by
        refine (hfits.content rfl).resolve_left ?_
        rintro ⟨line, hline, hn⟩
        have hmem : '\n' ∈ '-' :: line := hline ▸ by simp
        exact hn (by simpa using hmem)
      exact ⟨gap ++ (x ++ []), gap, [(.token Grammar.content, ⟨x ++ ['\n'], []⟩)], hpasses, by simp,
        hclosed, ⟨by simpa using hfits, .singleton _⟩, by simpa using hl,
        .inr ⟨herest, [], _, _, rfl, rfl, hbars.1⟩⟩

end SchemaText
