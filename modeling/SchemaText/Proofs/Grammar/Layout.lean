import Mathlib.Data.List.Chain
import SchemaText.Proofs.Grammar.Orderly
import SchemaText.Proofs.Grammar.Reading
import SchemaText.Proofs.Tree.Slots

/-!
Tokens laid out with trivia between them.
-/
namespace SchemaText

open Grammar

/-- The text of a token, and the trivia behind it. -/
structure Lexeme where
  text : List Char
  gap : List Char
deriving DecidableEq, Repr

/-- The text that lexemes make up. -/
def layout (lexemes : List (Slot Lexeme)) : List Char :=
  lexemes.flatMap fun slot => slot.2.text ++ slot.2.gap

/-- The tokens of lexemes that are laid out from an offset on. -/
def tokensAt : Nat → List (Slot Lexeme) → List (Slot Token)
  | _, [] => []
  | offset, (pattern, x) :: more =>
    let stop := offset + byteLength x.text
    (pattern, ⟨⟨offset, stop⟩, x.text⟩) :: tokensAt (stop + byteLength x.gap) more

/-- Lines with bars that no trivia precedes. -/
def IsBars (text : List Char) : Prop := BarLines text ∧ text.head? = some '|'

/-- A token that its pattern matches up to the gap. -/
structure Lexeme.Fits (pattern : Pattern) (x : Lexeme) : Prop where
  spells : Spells pattern x.text
  content : pattern = .token Grammar.content → IsDash x.text ∨ IsBars x.text
  closed : ClosedTrivia x.gap
  lineFeed : pattern = .token Grammar.content → IsDash x.text → x.gap.head? = some '\n'

/-- The first word does not go on in the second one. -/
def Lexeme.Parted (x y : Lexeme) : Prop := IsWord x.text → IsWord y.text → x.gap ≠ []

/-- Each token is matched, and no two of them run into each other. -/
structure Laid (lexemes : List (Slot Lexeme)) : Prop where
  fits : ∀ slot ∈ lexemes, slot.2.Fits slot.1
  parted : lexemes.IsChain fun a b => a.2.Parted b.2

variable {pattern : Pattern} {x : Lexeme} {lexemes more : List (Slot Lexeme)} {offset : Nat}
  {rest gap : List Char} {s e : Place} {c : Char}

@[simp] theorem layout_nil : layout [] = [] := rfl

@[simp] theorem layout_cons (slot : Slot Lexeme) (more : List (Slot Lexeme)) :
    layout (slot :: more) = slot.2.text ++ (slot.2.gap ++ layout more) := by
  simp [layout]

@[simp] theorem layout_append (as bs : List (Slot Lexeme)) :
    layout (as ++ bs) = layout as ++ layout bs := by
  simp [layout]

theorem tokensAt_append (offset : Nat) (as bs : List (Slot Lexeme)) : tokensAt offset (as ++ bs) =
    tokensAt offset as ++ tokensAt (offset + byteLength (layout as)) bs := by
  induction as generalizing offset with
  | nil => rfl
  | cons slot as ih =>
    obtain ⟨pattern, x⟩ := slot
    rw [List.cons_append, tokensAt, tokensAt, ih, layout_cons, byteLength_append, byteLength_append,
      ← Nat.add_assoc, ← Nat.add_assoc, List.cons_append]

/-- The tokens have the texts of the lexemes. -/
theorem mapSlots_text_tokensAt (offset : Nat) (lexemes : List (Slot Lexeme)) :
    mapSlots Token.text (tokensAt offset lexemes) = mapSlots Lexeme.text lexemes := by
  induction lexemes generalizing offset with
  | nil => rfl
  | cons slot more ih =>
    obtain ⟨pattern, x⟩ := slot
    rw [tokensAt, mapSlots_cons, mapSlots_cons, ih]

theorem map_fst_tokensAt (offset : Nat) (lexemes : List (Slot Lexeme)) :
    (tokensAt offset lexemes).map Prod.fst = lexemes.map Prod.fst := by
  induction lexemes generalizing offset with
  | nil => rfl
  | cons slot more ih =>
    obtain ⟨pattern, x⟩ := slot
    rw [tokensAt, List.map_cons, List.map_cons, ih]

theorem Lexeme.fits_of_ne_content (hp : pattern ≠ .token Grammar.content)
    (hx : Spells pattern x.text)
    (hgap : ClosedTrivia x.gap) : x.Fits pattern :=
  ⟨hx, fun hc => absurd hc hp, hgap, fun hc => absurd hc hp⟩

/-! ### Boundaries -/

/-- What a token begins with. -/
theorem Lexeme.Fits.head (h : x.Fits pattern) (hl : Lexical pattern) :
    ∃ c rest, x.text = c :: rest ∧
    isBlank c = false ∧ c ≠ '/' ∧ (¬ IsWord x.text → Pattern.isWordChar c = false) ∧
    (pattern ≠ .token Grammar.content → c ≠ '|') := by
  have hword : IsWord x.text → ∃ c rest, x.text = c :: rest ∧ isBlank c = false ∧ c ≠ '/' ∧
      (¬ IsWord x.text → Pattern.isWordChar c = false) ∧
      (pattern ≠ .token Grammar.content → c ≠ '|') := by
    intro hw
    obtain ⟨c, rest, hx, hc, -⟩ := id hw
    obtain ⟨hb, hslash, hbar⟩ :=
      ne_of_isWordChar (isWordChar_of_isWordPart (isWordPart_of_isWordStart hc))
    exact ⟨c, rest, hx, hb, hslash, fun hn => absurd hw hn, fun _ => hbar⟩
  have hs := h.spells
  match pattern with
  | .literal t =>
    obtain ⟨c, rest, ht, hc⟩ := hl
    simp only [isSignStart, Bool.not_eq_true', Bool.or_eq_false_iff, beq_eq_false_iff_ne] at hc
    exact ⟨c, rest, (show x.text = t.toList from hs).trans ht, hc.1.1.2, hc.1.2, fun _ => hc.1.1.1,
      fun _ => hc.2⟩
  | .keyword t => exact hword ((show x.text = t.toList from hs) ▸ hl)
  | .token cls =>
    obtain ⟨rfl, hw⟩ | ⟨rfl, -⟩ := hs
    · exact hword hw
    · obtain ⟨line, hx, -⟩ | ⟨-, hx⟩ := h.content rfl
      · exact ⟨'-', line, hx, by decide, by decide, fun _ => by decide, fun hn => absurd rfl hn⟩
      · obtain ⟨rest, hx⟩ := List.head?_eq_some_iff.1 hx
        exact ⟨'|', rest, hx, by decide, by decide, fun _ => by decide, fun hn => absurd rfl hn⟩

/-- No trivia precedes a token at its place. -/
theorem Lexeme.Fits.skip_eq (h : x.Fits pattern) (hl : Lexical pattern)
    (hr : s.rest = x.text ++ rest) :
    s.skip = s := by
  obtain ⟨c, more, hx, hb, hslash, -⟩ := h.head hl
  refine Place.skip_eq_self fun d hd => ?_
  obtain rfl : c = d := by simpa [hr, hx] using hd
  exact ⟨hb, hslash⟩

theorem isWordChar_of_closed (h : ClosedTrivia gap) (hne : gap ≠ []) :
    ∀ c ∈ (gap ++ rest).head?, Pattern.isWordChar c = false := by
  have hfalse : ∀ c, isBlank c ∨ c = '/' → Pattern.isWordChar c = false := by
    refine fun c hc => Bool.eq_false_iff.2 fun hw => ?_
    obtain ⟨hb, hslash, -⟩ := ne_of_isWordChar hw
    obtain hc | rfl := hc
    · simp [hb] at hc
    · exact hslash rfl
  cases h with
  | nil => exact absurd rfl hne
  | blank hb _ => simpa using hfalse _ (.inl hb)
  | comment _ _ => simpa using hfalse '/' (.inr rfl)

theorem not_startsPipe_of_closed (h : ClosedTrivia gap) (hr : ¬ StartsPipe rest) :
    ¬ StartsPipe (gap ++ rest) := by
  induction h with
  | nil => exact hr
  | @blank c text hb _ ih =>
    by_cases hi : isIndent c
    · simpa [StartsPipe, hi] using ih
    · have hne : c ≠ '|' := by
        rintro rfl
        exact absurd hb (by decide)
      simpa [StartsPipe, hi] using hne
  | comment _ _ => simp [StartsPipe, isIndent]

/-- No line with a bar follows where the next token is no content. -/
theorem not_startsPipe_layout (hl : ∀ slot ∈ more, slot.2.Fits slot.1) (ho : Orderly more) :
    ¬ StartsPipe (layout more) := by
  have hhead : ∀ (slot : Slot Lexeme) (rest : List Char), Plain slot.1 → slot.2.Fits slot.1 →
      ¬ StartsPipe (slot.2.text ++ rest) := by
    intro slot rest hp hf
    obtain ⟨c, text, hx, hb, -, -, hbar⟩ := hf.head hp.1
    have hi : ¬ isIndent c := by
      simp only [isBlank, Bool.or_eq_false_iff] at hb
      simp [isIndent, hb]
    simpa [StartsPipe, hx, hi] using hbar hp.2
  cases ho with
  | nil => simp [StartsPipe]
  | plain hp _ | content hp _ =>
    rw [layout_cons]
    exact hhead _ _ hp (hl _ (by simp))

/-- A word ends in front of the next token. -/
theorem Laid.endsWord (h : Laid ((pattern, x) :: more)) (hl : ∀ slot ∈ more, Lexical slot.1)
    (hw : IsWord x.text) : ∀ c ∈ (x.gap ++ layout more).head?, Pattern.isWordChar c = false := by
  obtain ⟨hx, hmore⟩ := List.forall_mem_cons.1 h.fits
  by_cases hgap : x.gap = []
  · cases more with
    | nil => simp [hgap]
    | cons slot more =>
      have hnext : ¬ IsWord slot.2.text := fun hw' =>
        (List.isChain_cons_cons.1 h.parted).1 hw hw' hgap
      obtain ⟨c, text, ht, -, -, hc, -⟩ := (hmore slot (by simp)).head (hl slot (by simp))
      simpa [hgap, ht] using hc hnext
  · exact isWordChar_of_closed hx.closed hgap

/-- The pattern of a token matches it, and no more than it. -/
theorem Laid.end? (h : Laid ((pattern, x) :: more)) (hp : Lexical pattern)
    (hl : ∀ slot ∈ more, Lexical slot.1)
    (hbar : pattern = .token Grammar.content → ¬ StartsPipe (layout more))
    (hs : s.rest = x.text ++ (x.gap ++ layout more)) :
    pattern.end? s = some ⟨s.offset + byteLength x.text, x.gap ++ layout more⟩ := by
  have hx : x.Fits pattern := h.fits (pattern, x) (by simp)
  have hpass : s.Passes x.text ⟨s.offset + byteLength x.text, x.gap ++ layout more⟩ := ⟨hs, rfl⟩
  have hspells := hx.spells
  match pattern with
  | .literal t =>
    have ht : x.text = t.toList := hspells
    exact end?_literal_iff.2 (ht ▸ hpass)
  | .keyword t =>
    have ht : x.text = t.toList := hspells
    exact end?_keyword_iff.2 ⟨ht ▸ hpass, h.endsWord hl (ht ▸ hp)⟩
  | .token cls =>
    obtain ⟨rfl, hw⟩ | ⟨rfl, -⟩ := hspells
    · refine end?_word_iff.2 ⟨_, hpass, hw, fun c hc => Bool.eq_false_iff.2 fun hpart => ?_⟩
      have := h.endsWord hl hw c hc
      simp [isWordChar_of_isWordPart hpart] at this
    · refine end?_content_iff.2 ⟨_, hpass, ?_⟩
      obtain hd | ⟨hb, -⟩ := hx.content rfl
      · obtain ⟨rest, hgap⟩ := List.head?_eq_some_iff.1 (hx.lineFeed rfl hd)
        obtain ⟨line, ht, hn⟩ := hd
        exact .inl ⟨line, ht, hn, by simp [hgap]⟩
      · exact .inr (hb.pipeRun (not_startsPipe_of_closed hx.closed (hbar rfl)))

/-! ### Layouts are read -/

theorem Laid.tail (h : Laid ((pattern, x) :: more)) : Laid more :=
  ⟨fun slot hm => h.fits slot (by simp [hm]), h.parted.tail⟩

theorem Laid.reads_cons (h : Laid ((pattern, x) :: more)) (hp : Lexical pattern)
    (hl : ∀ slot ∈ more, Lexical slot.1)
    (hbar : pattern = .token Grammar.content → ¬ StartsPipe (layout more))
    (hs : s.rest = layout ((pattern, x) :: more))
    (hr : Reads ⟨s.offset + byteLength x.text + byteLength x.gap, layout more⟩
      (tokensAt (s.offset + byteLength x.text + byteLength x.gap) more) e) :
    Reads s (tokensAt s.offset ((pattern, x) :: more)) e := by
  rw [layout_cons] at hs
  have hx := h.fits (pattern, x) (by simp)
  have hskip : s.skip = s := hx.skip_eq hp hs
  have hpass : s.Passes x.text ⟨s.offset + byteLength x.text, x.gap ++ layout more⟩ := ⟨hs, rfl⟩
  have hgap := Place.passes_mk (s.offset + byteLength x.text) x.gap (layout more)
  refine ⟨_, hp, hskip.symm ▸ h.end? hp hl hbar hs, ?_,
    Reads.congr_left (hgap.skip_eq hx.closed) hr⟩
  rw [hskip, Token.between, hpass.upTo_eq]
  rfl

/-- Tokens are read where they have been laid out, to the end of the text. -/
theorem Laid.reads (h : Laid lexemes) (ho : Orderly lexemes) (hs : s.rest = layout lexemes) :
    ∃ e, Reads s (tokensAt s.offset lexemes) e ∧ e.rest = [] := by
  induction ho generalizing s with
  | nil => exact ⟨s, .refl s, hs⟩
  | @plain _ x more hp ho ih =>
    obtain ⟨e, hr, he⟩ := ih (s := ⟨s.offset + byteLength x.text + byteLength x.gap, layout more⟩)
      h.tail rfl
    exact ⟨e, h.reads_cons hp.1 ho.lexical (fun hc => absurd hc hp.2) hs hr, he⟩
  | @content _ x y more hp ho ih =>
    obtain ⟨e, hr, he⟩ := ih (s := ⟨s.offset + byteLength x.text + byteLength x.gap +
      byteLength y.text + byteLength y.gap, layout more⟩) h.tail.tail rfl
    have hbar := not_startsPipe_layout (fun slot hm => h.tail.tail.fits slot hm) ho
    exact ⟨e, h.reads_cons hp.1 (List.forall_mem_cons.2 ⟨.inr rfl, ho.lexical⟩)
      (fun hc => absurd hc hp.2) hs
      (h.tail.reads_cons (.inr rfl) ho.lexical (fun _ => hbar) rfl hr), he⟩

end SchemaText
