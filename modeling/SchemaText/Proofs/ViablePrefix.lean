import SchemaText.Proofs.Completeness
import SchemaText.Proofs.Grammar.Prefix
import SchemaText.Proofs.Lossless

/-!
Errors are never late: up to the place of an error, a source can be completed.
-/
namespace SchemaText

open Grammar

variable {source : String} {options : Options} {text first : List Char} {pattern : Pattern}
  {patterns : List Pattern} {x : Lexeme} {lexemes init : List (Slot Lexeme)}
  {slots slots' as bs : List (Slot Token)}

/-! ### Missing tokens -/

/-- A token of the pattern with a blank behind it. -/
def filler (pattern : Pattern) : Slot Lexeme :=
  match pattern with
  | .literal text | .keyword text => (pattern, ⟨text.toList, [' ']⟩)
  | _ => (pattern, ⟨['a'], [' ']⟩)

theorem filler_fst (pattern : Pattern) : (filler pattern).1 = pattern := by
  cases pattern <;> rfl

theorem filler_gap (pattern : Pattern) : (filler pattern).2.gap = [' '] := by
  cases pattern <;> rfl

theorem filler_fits (h : pattern ∈ fillers) : (filler pattern).2.Fits pattern := by
  have hne : pattern ≠ .token Grammar.content := by
    rintro rfl
    exact absurd h (by decide)
  have hspells : Spells pattern (filler pattern).2.text := by
    match pattern with
    | .literal t | .keyword t => rfl
    | .endOfInput => exact absurd h (by decide)
    | .token cls =>
      have hcls : cls = identifier := by
        simpa [fillers, word, braceOpen, braceClose, parenClose, bracketClose, colon, equals, arrow,
          Grammar.keyword] using h
      exact .inl ⟨hcls, show IsWord ['a'] by decide⟩
  exact Lexeme.fits_of_ne_content hne hspells (filler_gap pattern ▸ .blank (by decide) .nil)

theorem filler_bytes (h : pattern ∈ fillers) :
    byteLength ((filler pattern).2.text ++ (filler pattern).2.gap) ≤ 5 := by
  revert h pattern
  decide

theorem bytes_fillers (h : patterns ⊆ fillers) :
    byteLength (layout (patterns.map filler)) ≤ 5 * patterns.length := by
  induction patterns with
  | nil => simp
  | cons pattern patterns ih =>
    obtain ⟨hp, hps⟩ := List.cons_subset.1 h
    have := filler_bytes hp
    have := ih hps
    simp only [List.map_cons, layout_cons, byteLength_append, List.length_cons] at *
    omega

theorem laid_fillers (h : patterns ⊆ fillers) : Laid (patterns.map filler) := by
  refine ⟨List.forall_mem_map.2 fun p hp => ?_, ?_⟩
  · rw [filler_fst]
    exact filler_fits (h hp)
  · refine List.Pairwise.isChain (List.pairwise_map.2 (List.pairwise_of_forall fun p _ _ _ => ?_))
    simp [filler_gap]

theorem map_fst_fillers (offset : Nat) (patterns : List Pattern) :
    (tokensAt offset (patterns.map filler)).map Prod.fst = patterns := by
  rw [map_fst_tokensAt, List.map_map]
  exact (List.map_congr_left fun pattern _ => filler_fst pattern).trans (List.map_id patterns)

/-! ### Layouts that go on -/

theorem Laid.append {more : List (Slot Lexeme)} (h : Laid lexemes) (h' : Laid more)
    (hlast : ∀ slot ∈ lexemes.getLast?, IsWord slot.2.text → slot.2.gap ≠ []) :
    Laid (lexemes ++ more) :=
  ⟨List.forall_mem_append.2 ⟨h.fits, h'.fits⟩, List.isChain_append.2 ⟨h.parted, h'.parted,
    fun slot hslot _ _ hw _ => hlast slot hslot hw⟩⟩

/-- Trivia separates the last word from a line feed. -/
theorem gap_ne_nil_of_lineFeed (h : text ++ ['\n'] = first ++ layout lexemes) :
    ∀ slot ∈ lexemes.getLast?, IsWord slot.2.text → slot.2.gap ≠ [] := by
  rintro slot hslot ⟨c, rest, hx, hc, hrest⟩ hgap
  obtain ⟨init, rfl⟩ := List.getLast?_eq_some_iff.1 hslot
  have hlast : some '\n' = (c :: rest).getLast? := by
    have := congrArg List.getLast? h
    simpa [hx, hgap, List.getLast?_cons] using this
  obtain hn | hn := List.mem_cons.1 (List.mem_of_getLast? hlast.symm)
  · exact absurd (hn ▸ hc) (by decide)
  · exact absurd (hrest _ hn) (by decide)

theorem Laid.recast {pattern' : Pattern} (h : Laid (init ++ [(pattern, x)]))
    (hx : x.Fits pattern') :
    Laid (init ++ [(pattern', x)]) := by
  obtain ⟨hfits, -⟩ := List.forall_mem_append.1 h.fits
  refine ⟨List.forall_mem_append.2 ⟨hfits, by simpa using hx⟩, ?_⟩
  have hparted := h.parted
  rw [← List.isChain_map (R := Lexeme.Parted) Prod.snd] at hparted ⊢
  simpa using hparted

theorem exists_of_tokensAt_eq_concat {offset : Nat} {token : Token}
    (h : tokensAt offset lexemes = slots ++ [(pattern, token)]) :
    ∃ init x, lexemes = init ++ [(pattern, x)] ∧ x.text = token.text ∧
      ∀ pattern', tokensAt offset (init ++ [(pattern', x)]) = slots ++ [(pattern', token)] := by
  obtain rfl | ⟨init, ⟨pattern', x⟩, rfl⟩ := List.eq_nil_or_concat' lexemes
  · simp [tokensAt] at h
  · simp only [tokensAt_append, tokensAt] at h ⊢
    obtain ⟨rfl, hlast⟩ := List.append_inj' h rfl
    cases hlast
    exact ⟨init, x, rfl, rfl, fun _ => rfl⟩

/-- What has been recast is laid out like what it was. -/
theorem Laid.exists_recast {e : Place} {offset : Nat} (h : Laid lexemes)
    (hm : Mended e.rest slots (tokensAt offset lexemes)) (hr : Recast e slots slots') :
    ∃ lexemes', Laid lexemes' ∧ layout lexemes' = layout lexemes ∧
      Mended e.rest slots' (tokensAt offset lexemes') := by
  obtain rfl | ⟨init, token, rfl, rfl, ht, -⟩ := hr
  · exact ⟨lexemes, h, rfl, hm⟩
  · have hm : tokensAt offset lexemes = init ++ [(word, token)] := by
      obtain hm | ⟨-, init', a, b, hm, -⟩ := hm
      · exact hm
      · have := (List.append_inj' hm rfl).2
        simp [word] at this
        exact absurd this.1 (by decide)
    obtain ⟨lexemes, x, rfl, hx, htokens⟩ := exists_of_tokensAt_eq_concat hm
    have hfits := h.fits (word, x) (by simp)
    have hfits' := Lexeme.fits_of_ne_content (by decide)
      (show Spells keywordAs x.text from hx.trans ht)
      hfits.closed
    exact ⟨lexemes ++ [(keywordAs, x)], h.recast hfits', by simp, .inl (htokens keywordAs)⟩

/-! ### Documents with another token -/

theorem Document.Unambiguous.mono {τ : Type} {f g : τ → List Char} {d : Document τ}
    (h : d.Unambiguous g) (hfg : ∀ t, f t = "as".toList → g t = "as".toList) : d.Unambiguous f := by
  intro st hst
  have h := h st hst
  cases st with
  | imports node => exact List.IsChain.imp (fun _ j hp hb ht => hp hb (hfg j.name ht)) h
  | _ => trivial

/-- A token that is not "as" may stand in for another one. -/
theorem Document.Readable.replace {t : Document Token} {old new : Token}
    (h : t.Readable (as ++ (pattern, old) :: bs)) (hnew : new.text ≠ "as".toList)
    (hn : ∀ slot ∈ as ++ bs, slot.2 ≠ new) :
    ∃ t' : Document Token, t'.Readable (as ++ (pattern, new) :: bs) := by
  let g : Token → Token := fun token => if token = new then old else token
  have hsame : ∀ slots : List (Slot Token), (∀ slot ∈ slots, slot.2 ≠ new) →
      mapSlots g slots = slots := by
    intro slots hs
    refine (List.map_congr_left fun slot hm => ?_).trans (List.map_id slots)
    simp [g, Prod.map, hs slot hm]
  obtain ⟨ha, hb⟩ := List.forall_mem_append.1 hn
  obtain ⟨hw, hu⟩ := Document.readable_iff.1 h
  have hslots : mapSlots g (as ++ (pattern, new) :: bs) = as ++ (pattern, old) :: bs := by
    simp [hsame as ha, hsame bs hb, g]
  obtain ⟨t', rfl, hw'⟩ := lifts_document t (as ++ (pattern, new) :: bs) (hslots ▸ hw)
  have hu' := Document.unambiguous_map.1 hu
  refine ⟨t', Document.readable_iff.2 ⟨hw', hu'.mono fun token ht => ?_⟩⟩
  have hne : token ≠ new := fun h => hnew (h ▸ ht)
  simpa [g, hne] using ht

/-! ### Sources that are cut -/

/-- A token is read once. -/
theorem Reads.ne_of_append {s e : Place} {slot : Slot Token} (h : Reads s (as ++ slot :: bs) e) :
    ∀ other ∈ as ++ bs, other.2 ≠ slot.2 := by
  obtain ⟨hpair, hle⟩ := h.ascending
  have hslot := (hle slot (by simp)).2
  rw [List.map_append, List.map_cons, List.pairwise_append, List.pairwise_cons] at hpair
  obtain ⟨-, ⟨hafter, -⟩, hbefore⟩ := hpair
  intro other hm heq
  obtain hm | hm := List.mem_append.1 hm
  · have := hbefore _ (List.mem_map_of_mem hm) _ (List.mem_cons_self ..)
    rw [heq] at this
    omega
  · have := hafter _ (List.mem_map_of_mem hm)
    rw [heq] at this
    omega

theorem Mended.exists_readable {s e : Place} {rest : List Char} (hm : Mended rest slots slots')
    (hr : Reads s (slots' ++ bs) e) {t : Document Token} (ht : t.Readable (slots ++ bs)) :
    ∃ t' : Document Token, t'.Readable (slots' ++ bs) := by
  obtain rfl | ⟨-, init, old, new, rfl, rfl, hbars⟩ := hm
  · exact ⟨t, ht⟩
  · simp only [List.append_assoc, List.singleton_append] at ht hr ⊢
    refine ht.replace (fun has => ?_) hr.ne_of_append
    exact absurd (has ▸ hbars.bar_mem) (by decide)

/-- A layout with the tokens of a document, but for a content that has been mended, is parsed. -/
theorem Laid.parses {rest : List Char} {more : List (Slot Lexeme)} {offset : Nat}
    {t : Document Token} (h : Laid (lexemes ++ more)) (hfirst : ClosedTrivia first)
    (hm : Mended rest slots (tokensAt (byteLength first) lexemes))
    (ht : t.Readable (slots ++ tokensAt offset more))
    (ho : offset = byteLength first + byteLength (layout lexemes))
    (hb : byteLength (first ++ layout (lexemes ++ more)) ≤ maxOffset)
    (hf : 16 ≤ options.attemptFactor) :
    ∃ d, parse (.ofList (first ++ layout (lexemes ++ more))) options = .ok d := by
  subst ho
  have hpatterns : (tokensAt (byteLength first) lexemes).map Prod.fst = slots.map Prod.fst := by
    obtain hm | ⟨-, init, a, b, rfl, hm, -⟩ := hm <;> simp [hm]
  have horderly : Orderly (lexemes ++ more) := by
    refine (Document.readable_iff.1 ht).1.orderly.congr ?_
    rw [List.map_append, List.map_append, map_fst_tokensAt, ← hpatterns, map_fst_tokensAt]
  obtain ⟨e, hr, he⟩ := h.reads_start horderly hfirst
  rw [← String.toList_ofList (l := first ++ layout (lexemes ++ more))] at hr hb
  rw [tokensAt_append] at hr
  obtain ⟨t, ht⟩ := hm.exists_readable hr ht
  exact ⟨t.map Token.span, parse_of_reads ht hr he hb hf⟩

theorem Reads.exists_laid_start {e : Place} {tail : List Char} (h : Reads (.start text) slots e)
    (he : e.skip = e) (htail : tail = ['\n'] ∨ tail = [] ∧ e.rest ≠ []) :
    ∃ before first lexemes, text = before ++ e.rest ∧ byteLength before = e.offset ∧
      before ++ tail = first ++ layout lexemes ∧ ClosedTrivia first ∧ Laid lexemes ∧
      Mended e.rest slots (tokensAt (byteLength first) lexemes) := by
  obtain ⟨before, first, lexemes, hpass, htext, hfirst, hlaid, -, hm⟩ := h.exists_laid he htail
  have hoffset : e.offset = 0 + byteLength before := hpass.2
  rw [show (Place.start text).offset = 0 from rfl, Nat.zero_add] at hm
  exact ⟨before, first, lexemes, hpass.1, by omega, htext, hfirst, hlaid, hm⟩

/-- A source can end where a document has been read. -/
theorem Document.Readable.parses {t : Document Token} {e : Place} (ht : t.Readable slots)
    (hr : Reads (.start source.toList) slots e) (he : e.skip = e)
    (hb : byteLength source.toList ≤ maxOffset) (hf : 16 ≤ options.attemptFactor) :
    ∃ before, source.toList = before ++ e.rest ∧ byteLength before = e.offset ∧
      ∃ d, parse (.ofList before) options = .ok d := by
  by_cases hrest : e.rest = []
  · obtain ⟨before, -, -, hsource, hoffset, -⟩ := hr.exists_laid_start he (.inl rfl)
    have hbefore : String.ofList before = source := by
      rw [← String.ofList_toList (s := source), hsource, hrest, List.append_nil]
    exact ⟨before, hsource, hoffset, _, hbefore ▸ parse_of_reads ht hr hrest hb hf⟩
  · obtain ⟨before, first, lexemes, hsource, hoffset, htext, hfirst, hlaid, hm⟩ :=
      hr.exists_laid_start he (.inr ⟨rfl, hrest⟩)
    have htext : before = first ++ layout (lexemes ++ []) := by simpa using htext
    refine ⟨before, hsource, hoffset, htext ▸ ?_⟩
    rw [htext] at hsource
    rw [hsource, byteLength_append] at hb
    have hlaid : Laid (lexemes ++ []) := by simpa using hlaid
    exact hlaid.parses hfirst hm (by simpa [tokensAt] using ht) rfl (by omega) hf

/-- What is missing can be written behind what has been read. -/
theorem Stuck.parses {m : Mismatch}
    (h : Stuck 6 (fun slots => ∃ t : Document Token, t.Readable slots) (.start source.toList) m)
    (hb : byteLength source.toList + 64 ≤ maxOffset) (hf : 16 ≤ options.attemptFactor) :
    ∃ before after more, source.toList = before ++ after ∧ byteLength before = m.offset ∧
      byteLength more ≤ 64 ∧ ∃ d, parse (.ofList (before ++ more)) options = .ok d := by
  obtain ⟨slots, slots', e, patterns, hr, he, hraised, hrecast, -, ⟨hlen, hfill⟩, hlang⟩ := h
  obtain ⟨before, first, lexemes, hsource, hoffset, htext, hfirst, hlaid, hm⟩ :=
    hr.exists_laid_start he (.inl rfl)
  obtain ⟨lexemes, hlaid, hlayout, hm⟩ := hlaid.exists_recast hm hrecast
  rw [← hlayout] at htext
  have hbytes := bytes_fillers hfill
  have hall : before ++ '\n' :: layout (patterns.map filler) =
      first ++ layout (lexemes ++ patterns.map filler) := by
    rw [layout_append, ← List.append_assoc, ← htext, List.append_assoc, List.singleton_append]
  have hmore : byteLength ('\n' :: layout (patterns.map filler)) ≤ 64 := by
    rw [byteLength_cons, show '\n'.utf8Size = 1 from rfl]
    omega
  have hoffset' := map_fst_fillers (byteLength first + byteLength (layout lexemes)) patterns
  obtain ⟨t, ht⟩ := hlang _ hoffset'
  refine ⟨before, e.rest, _, hsource, hraised.1 ▸ hoffset, hmore, hall ▸ ?_⟩
  have hlaid := hlaid.append (laid_fillers hfill) (gap_ne_nil_of_lineFeed htext)
  refine hlaid.parses hfirst hm ht rfl ?_ hf
  rw [hsource, byteLength_append] at hb
  rw [← hall, byteLength_append]
  omega

/-- Up to the place of an error, a source can be completed by at most 64 bytes, and by none where
the end of the source was expected. -/
theorem parse_completes {r : Report} (h : parse source options = .error (.mismatch r))
    (hb : byteLength source.toList + 64 ≤ maxOffset) (hf : 16 ≤ options.attemptFactor) :
    ∃ before after, source.toList = before ++ after ∧ byteLength before = r.offset ∧
      (∃ more d, byteLength more ≤ 64 ∧ parse (.ofList (before ++ more)) options = .ok d) ∧
      (.endOfInput ∈ r.expected → ∃ d, parse (.ofList before) options = .ok d) := by
  obtain ⟨c, hc⟩ := parse_eq_mismatch h
  have hbad := ensures_document (List.Subset.refl _)
    (.start source.toList options.attemptFactor) rfl
  rw [documentRun] at hc
  rw [hc] at hbad
  obtain ⟨-, t, slots, e, ht, hr, he, hraised⟩ | hstuck := hbad
  · obtain ⟨before, hsource, hoffset, d, hd⟩ := ht.parses hr he (by omega) hf
    exact ⟨before, e.rest, hsource, hoffset.trans hraised.1.symm,
      ⟨[], d, by simp, by simpa using hd⟩, fun _ => ⟨d, hd⟩⟩
  · obtain ⟨before, after, more, hsource, hoffset, hmore, d, hd⟩ := hstuck.parses hb hf
    obtain ⟨_, _, _, _, _, _, _, _, hend, -⟩ := hstuck
    exact ⟨before, after, hsource, hoffset, ⟨more, d, hmore, hd⟩, fun hmem => absurd hmem hend⟩

theorem parse_completes_bar : ∃ before after, "enum A \x7b x \x7d\n| y".toList = before ++ after ∧
    byteLength before = 13 ∧
    (∃ more d, byteLength more ≤ 64 ∧ parse (.ofList (before ++ more)) {} = .ok d) ∧
    (.endOfInput ∈ Pattern.endOfInput :: keywords → ∃ d, parse (.ofList before) {} = .ok d) :=
  parse_completes (show parse "enum A \x7b x \x7d\n| y" {} = .error (.mismatch
      { offset := 13, expected := .endOfInput :: keywords, mistakes := [word], found := .text "|",
        position := ⟨1, 0⟩, snippet := "1 | enum A \x7b x \x7d\n2 | | y\n    ^" })
    by decide +kernel) (by decide +kernel) (by decide)

end SchemaText
