import Mathlib.Data.List.Chain
import SchemaText.Proofs.Grammar.Sound.Declaration

/-!
What imports read, and where they fail. An item named `as` cannot follow one that has neither an
alias nor a comma.
-/
namespace SchemaText

open Grammar Parse

variable {s q r : Place}

def ImportItem.Bare {τ : Type} (i : ImportItem τ) : Prop := i.localAlias = none ∧ i.comma = none

/-- The second item is not taken for the alias of the first one. -/
def ImportItem.Parts {τ : Type} (text : τ → List Char) (i j : ImportItem τ) : Prop :=
  i.Bare → text j.name ≠ "as".toList

def Import.Unambiguous {τ : Type} (text : τ → List Char) (i : Import τ) : Prop :=
  i.items.IsChain (ImportItem.Parts text)

/-! ### Letters outside ASCII -/

/-- The text goes on with a letter or digit that is part of no word. -/
def Stray (q : Place) : Prop := ∃ c ∈ q.rest.head?, Pattern.isWordChar c ∧ isWordPart c = false

namespace Stray

theorem skip_eq (h : Stray q) : q.skip = q := by
  obtain ⟨c, hc, hw, -⟩ := h
  refine Place.skip_eq_self fun d hd => ?_
  obtain rfl := Option.some.inj ((Option.mem_def.1 hc).symm.trans (Option.mem_def.1 hd))
  obtain ⟨hb, hslash, -⟩ := ne_of_isWordChar hw
  exact ⟨hb, hslash⟩

/-- No sign stands there. -/
theorem end?_literal {text : String} {d : Char} {rest : List Char} (h : Stray q)
    (ht : text.toList = d :: rest) (hd : Pattern.isWordChar d = false) :
    (Pattern.literal text).end? q = none := by
  obtain ⟨c, hc, hw, -⟩ := h
  cases he : (Pattern.literal text).end? q with
  | none => rfl
  | some r =>
    have hp := (end?_literal_iff.1 he).1
    rw [ht] at hp
    obtain rfl : c = d := by simpa [hp] using hc.symm
    simp [hw] at hd

/-- No keyword stands there. -/
theorem end?_keyword {text : String} {d : Char} {rest : List Char} (h : Stray q)
    (ht : text.toList = d :: rest) (hd : isWordPart d) : (Pattern.keyword text).end? q = none := by
  obtain ⟨c, hc, -, hw⟩ := h
  cases he : (Pattern.keyword text).end? q with
  | none => rfl
  | some r =>
    have hp := (end?_keyword_iff.1 he).1.1
    rw [ht] at hp
    obtain rfl : c = d := by simpa [hp] using hc.symm
    simp [hw] at hd

theorem end?_word (h : Stray q) : word.end? q = none := by
  obtain ⟨c, hc, -, hw⟩ := h
  refine end?_word_eq_none_iff.2 fun d hd => Bool.eq_false_iff.2 fun hs => ?_
  obtain rfl := Option.some.inj ((Option.mem_def.1 hc).symm.trans (Option.mem_def.1 hd))
  simp [isWordPart_of_isWordStart hs] at hw

/-- A word "as" that is not the keyword is followed by such a character. -/
theorem of_as (hk : keywordAs.end? s = none) (hw : word.end? s = some r)
    (ht : s.upTo r = "as".toList) : Stray r := by
  obtain ⟨text, hp, -, he⟩ := end?_word_iff.1 hw
  rw [hp.upTo_eq] at ht
  subst ht
  cases hr : r.rest.head? with
  | none => simp [keywordAs, end?_keyword_iff.2 ⟨hp, by simp [hr]⟩] at hk
  | some c =>
    cases hc : Pattern.isWordChar c with
    | true => exact ⟨c, hr, hc, he c hr⟩
    | false => simp [keywordAs, end?_keyword_iff.2 ⟨hp, by simp [hr, hc]⟩] at hk

end Stray

/-! ### Items -/

/-- Neither an alias nor a comma stands there. -/
theorem Stray.bare {t : ImportItem Token} (h : Stray q) (hr : Reads q t.slots.tail r) :
    t.Bare ∧ r.skip = q := by
  obtain ⟨name, localAlias, comma⟩ := t
  cases localAlias with
  | some a =>
    obtain ⟨_, -, ha, -⟩ := hr
    rw [h.skip_eq, keywordAs, h.end?_keyword rfl (by decide)] at ha
    simp at ha
  | none =>
    cases comma with
    | some comma =>
      obtain ⟨_, -, ha, -⟩ := hr
      rw [h.skip_eq, Grammar.comma, h.end?_literal rfl (by decide)] at ha
      simp at ha
    | none => exact ⟨⟨rfl, rfl⟩, hr.symm.trans h.skip_eq⟩

/-- An item is read. Where the keyword of an alias cannot stand, an item that lacks the name of its
alias is not named like the keyword. -/
theorem ensures_importItem? (hs : s.skip = s) : Ensures importItem? s
    (fun i q => match i with
      | some i => ∃ t : ImportItem Token, i = t.map Token.span ∧ Reads s t.slots q ∧
        (t.Bare → q.skip = q ∧ keywordAs.end? q = none)
      | none => q = s ∧ word.end? s = none)
    (Stuck 1 (fun slots => ∃ t : ImportItem Token, slots = t.slots ∧
      (keywordAs.end? s = none → t.name.text ≠ "as".toList)) s) := by
  refine .bind (ensures_accept word (by decide) hs) ?_
  rintro (_ | _) q hq
  · exact .pure hq
  obtain ⟨name, _, rfl, rfl, hr⟩ := hq
  refine .afterTrivia ?_
  refine .bind (R := fun a r => ∃ localAlias : Option (ImportAlias Token),
    a = localAlias.map (ImportAlias.map Token.span) ∧
    Reads s ((word, name) :: localAlias.elim [] ImportAlias.slots) r ∧
    (localAlias = none → r = q.skip ∧ keywordAs.end? r = none)) ?_ ?_
  · refine .bind (ensures_optional keywordAs (by decide) hr) ?_
    rintro _ r ⟨_ | keyword, rfl, hr', hn⟩
    · obtain ⟨rfl, hk⟩ := hn rfl
      exact .pure ⟨none, rfl, hr', fun _ => ⟨rfl, hk⟩⟩
    · refine .afterTrivia ?_
      refine .bind (ensures_expect hr' (.inl rfl) (by decide) [word] (by decide) ?_) ?_
      · simp only [forall_map_fst_cons, forall_map_fst_nil]
        intro aliasName
        refine ⟨{ name, localAlias := some { keyword, name := aliasName }, comma := none }, rfl, ?_⟩
        intro hk ht
        obtain ⟨r', -, hw, rfl, hr'⟩ := hr'
        rw [hs] at hw ht
        have hstray := Stray.of_as hk hw ht
        obtain ⟨_, -, ha, -⟩ := hr'
        rw [hstray.skip_eq, keywordAs, hstray.end?_keyword rfl (by decide)] at ha
        simp at ha
      · rintro _ r ⟨aliasName, rfl, hr⟩
        exact .pure ⟨some { keyword, name := aliasName }, rfl, hr, by simp⟩
  · rintro _ r ⟨localAlias, rfl, hr, hn⟩
    refine .bind (ensures_comma? hr) ?_
    rintro _ r' ⟨comma, rfl, hr', hc⟩
    refine .pure ⟨{ name, localAlias, comma }, rfl, hr', fun hb => ?_⟩
    obtain ⟨rfl, hk⟩ := hn hb.1
    rw [hc hb.2, q.skip_skip]
    exact ⟨q.skip_skip, hk⟩

/-! ### Imports -/

/-- After an item without alias and comma no alias can begin. -/
def AliasFree (items : List (ImportItem Token)) (q : Place) : Prop :=
  items.IsChain (ImportItem.Parts Token.text) ∧
    ∀ t ∈ items.getLast?, t.Bare → q.skip = q ∧ keywordAs.end? q = none

/-- An item without alias and comma is followed by the word "as", which is only no alias because of
what follows it. -/
def AliasCut (items : List (ImportItem Token)) (q : Place) : Prop :=
  ∃ init prev name, items = init ++ [prev, { name, localAlias := none, comma := none }] ∧
    (init ++ [prev]).IsChain (ImportItem.Parts Token.text) ∧ prev.Bare ∧ name.text = "as".toList ∧
    name.span.stop = q.offset ∧ Stray q

theorem AliasFree.isChain_snoc {items : List (ImportItem Token)} {t : ImportItem Token}
    (h : AliasFree items s) (ht : keywordAs.end? s = none → t.name.text ≠ "as".toList) :
    (items ++ [t]).IsChain (ImportItem.Parts Token.text) := by
  refine List.isChain_append.2 ⟨h.1, .singleton t, fun x hx y hy hb => ?_⟩
  obtain rfl : t = y := by simpa using hy
  exact ht (h.2 x hx hb).2

theorem AliasFree.snoc {items : List (ImportItem Token)} {t : ImportItem Token}
    (h : AliasFree items s) (hr : Reads s t.slots q)
    (hq : t.Bare → q.skip = q ∧ keywordAs.end? q = none) :
    AliasFree (items ++ [t]) q ∨ AliasCut (items ++ [t]) q := by
  by_cases ht : ∀ x ∈ items.getLast?, ImportItem.Parts Token.text x t
  · refine .inl ⟨List.isChain_append.2 ⟨h.1, .singleton t, fun x hx y hy => ?_⟩, ?_⟩
    · obtain rfl : t = y := by simpa using hy
      exact ht x hx
    · simpa using hq
  · simp only [ImportItem.Parts, not_forall, not_not] at ht
    obtain ⟨x, hx, hb, ht⟩ := ht
    obtain ⟨hs, hk⟩ := h.2 x hx hb
    obtain ⟨r, -, hw, hn, hr⟩ := hr
    rw [hs] at hw hn
    have hstray := Stray.of_as hk hw (by rw [← ht, hn]; rfl)
    obtain ⟨hbare, hrq⟩ := hstray.bare hr
    rw [(hq hbare).1] at hrq
    subst hrq
    obtain ⟨init, rfl⟩ := List.getLast?_eq_some_iff.1 hx
    obtain ⟨name, localAlias, comma⟩ := t
    obtain ⟨rfl, rfl⟩ := hbare
    exact .inr ⟨init, x, name, by simp, h.1, hb, ht, congrArg (·.span.stop) hn, hstray⟩

theorem ensures_importItems {slots : List (Slot Token)} (hr : Reads s slots q) :
    Ensures (many (afterTrivia importItem?)) q
      (fun items r => ∃ ts : List (ImportItem Token), items = ts.map (ImportItem.map Token.span) ∧
        Reads s (slots ++ ts.flatMap ImportItem.slots) r ∧ r.skip = r ∧
        (ts.IsChain (ImportItem.Parts Token.text) ∨ AliasCut ts r))
      (Stuck 1 (fun slots' => ∃ ts : List (ImportItem Token),
        slots' = slots ++ ts.flatMap ImportItem.slots ∧
          ts.IsChain (ImportItem.Parts Token.text)) s) := by
  refine .many (fun items r => ∃ ts : List (ImportItem Token),
    items = ts.map (ImportItem.map Token.span) ∧
    Reads s (slots ++ ts.flatMap ImportItem.slots) r ∧ (AliasFree ts r ∨ AliasCut ts r))
    ⟨[], rfl, by simpa using hr, .inl ⟨.nil, by simp⟩⟩ ?_
  rintro _ r ⟨ts, rfl, hr, hts⟩
  refine .afterTrivia ?_
  obtain hfree | hcut := hts
  · have hfree : AliasFree ts r.skip := by
      refine ⟨hfree.1, fun t ht hb => ?_⟩
      rw [(hfree.2 t ht hb).1]
      exact hfree.2 t ht hb
    refine (ensures_importItem? r.skip_skip).mono ?_ fun m h => ?_
    · rintro (_ | _) r' h
      · obtain ⟨rfl, -⟩ := h
        exact ⟨ts, rfl, hr.skip_right, r.skip_skip, .inl hfree.1⟩
      · obtain ⟨t, rfl, hr', hb⟩ := h
        exact ⟨ts ++ [t], by simp, by simpa using hr.append hr'.skip_left, hfree.snoc hr' hb⟩
    · refine h.after hr.skip_right (by decide) ?_
      rintro _ ⟨t, rfl, ht⟩
      exact ⟨ts ++ [t], by simp, hfree.isChain_snoc ht⟩
  · obtain ⟨_, _, _, _, _, _, _, _, hstray⟩ := id hcut
    have hskip := hstray.skip_eq
    refine .bind (ensures_accept word (by decide) r.skip_skip) ?_
    rintro (_ | _) r' hw
    · obtain ⟨rfl, -⟩ := hw
      rw [hskip]
      exact .pure ⟨ts, rfl, hr, hskip, .inr hcut⟩
    · obtain ⟨_, _, -, rfl, hw⟩ := hw
      obtain ⟨_, -, hw, -⟩ := hw
      rw [hskip, hskip, hstray.end?_word] at hw
      simp at hw

/-- The closing brace is missing there; the word "as" could have been the keyword of an alias. -/
theorem ensures_closing_of_aliasCut {keyword opening : Token} {path : Path Token}
    {items : List (ImportItem Token)} (hp : Path.Alternates path.items) (hcut : AliasCut items q)
    (hr : Reads s ((Grammar.keyword .imports, keyword) :: path.slots ++ [(braceOpen, opening)] ++
      items.flatMap ImportItem.slots) q) :
    Ensures (sign braceClose) q (fun _ _ => False)
      (Stuck 6 (fun slots => ∃ i : Import Token, i.Written slots ∧
        i.Unambiguous Token.text) s) := by
  obtain ⟨init, ⟨itemName, localAlias, comma⟩, name, rfl, hc, ⟨rfl, rfl⟩, ht, hstop, hstray⟩ := hcut
  have hb : braceClose.end? q = none := hstray.end?_literal rfl (by decide)
  refine .expect (fun r h => ?_) fun _ => ?_
  · simp [hb] at h
  let before : List (Slot Token) := (Grammar.keyword .imports, keyword) :: path.slots ++
    [(braceOpen, opening)] ++ init.flatMap ImportItem.slots ++ [(word, itemName)]
  have hr : Reads s (before ++ [(word, name)]) q := by
    simpa [before, ImportItem.slots, optionalSlot] using hr
  refine ⟨_, before ++ [(keywordAs, name)], q, [word, braceClose], hr, hstray.skip_eq,
    ⟨rfl, rfl, .inr rfl, .singleton hb⟩, .inr ⟨before, name, rfl, rfl, ht, hstop⟩,
    by simp [braceClose], by decide, ?_⟩
  · simp only [forall_map_fst_cons, forall_map_fst_nil]
    intro aliasName closing
    obtain ⟨h1, -, h2⟩ := List.isChain_append.1 hc
    let last : ImportItem Token :=
      { name := itemName, localAlias := some { keyword := name, name := aliasName }, comma := none }
    refine ⟨{ keyword, path, opening, closing, items := init ++ [last] }, ⟨rfl, hp, ?_⟩,
      List.isChain_append.2 ⟨h1, .singleton _, ?_⟩⟩
    · simp [before, last, Import.ownSlots, ImportItem.slots, ImportAlias.slots, optionalSlot]
    · intro x hx y hy
      obtain rfl := by simpa using hy
      exact h2 x hx { name := itemName, localAlias := none, comma := none } rfl

theorem sound_import? : Sound 6 import? (Import.map Token.span)
    (fun i slots => i.Written slots ∧ i.Unambiguous Token.text)
    ((Grammar.keyword .imports).end? · = none) := by
  intro s hs
  refine .bind (ensures_accept (Grammar.keyword .imports) (by decide) hs) ?_
  rintro (_ | _) q hq
  · exact .pure hq
  obtain ⟨keyword, _, rfl, rfl, hr⟩ := hq
  refine .afterTrivia ?_
  refine .bind (ensures_path hr [braceOpen, braceClose] (by decide) (by decide)
    ?_) ?_
  · intro path hp
    simp only [forall_map_fst_cons, forall_map_fst_nil]
    intro opening closing
    exact ⟨{ keyword, path, opening, items := [], closing }, ⟨rfl, hp, by simp [Import.ownSlots]⟩,
      .nil⟩
  rintro _ q ⟨path, hp, rfl, hr⟩
  refine .afterTrivia ?_
  refine .bind (ensures_expect hr (.inr rfl) (by decide) [braceOpen, braceClose]
    (by decide) ?_) ?_
  · simp only [forall_map_fst_cons, forall_map_fst_nil]
    intro opening closing
    exact ⟨{ keyword, path, opening, items := [], closing }, ⟨rfl, hp, by simp [Import.ownSlots]⟩,
      .nil⟩
  rintro _ q ⟨opening, rfl, hr⟩
  refine .bind ((ensures_importItems hr).mono (fun _ _ h => h) fun m h => ?_) ?_
  · refine h.within (.refl s) [braceClose] (by decide) (by decide) ?_
    rintro _ ⟨items, rfl, hc⟩
    simp only [forall_map_fst_cons, forall_map_fst_nil]
    intro closing
    exact ⟨{ keyword, path, opening, items, closing }, ⟨rfl, hp, by simp [Import.ownSlots]⟩, hc⟩
  rintro _ q ⟨items, rfl, hr, hskip, hitems⟩
  obtain hc | hcut := hitems
  · rw [← hskip]
    refine .bind (ensures_expect hr (.inr rfl) (by decide) [braceClose] (by decide) ?_) ?_
    · simp only [forall_map_fst_cons, forall_map_fst_nil]
      intro closing
      exact ⟨{ keyword, path, opening, items, closing }, ⟨rfl, hp, by simp [Import.ownSlots]⟩, hc⟩
    rintro _ q ⟨closing, rfl, hr⟩
    exact .pure ⟨{ keyword, path, opening, items, closing }, _, rfl,
      ⟨⟨rfl, hp, by simp [Import.ownSlots]⟩, hc⟩, hr⟩
  · exact .bind (ensures_closing_of_aliasCut hp hcut hr) fun _ _ h => h.elim

end SchemaText
