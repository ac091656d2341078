import SchemaText.Parse.Failure
import SchemaText.Proofs.Grammar.Token

/-!
What is found where a token is missing.
-/
namespace SchemaText

open Grammar

variable {p q : Place} {after : List Char} {mistakes : List Pattern}

theorem lookAt_endOfInput (hm : mistakes = [] ∨ mistakes = [word]) (hp : p.rest = []) :
    Finding.lookAt mistakes p = .endOfInput := by
  have hw : word.end? p = none := end?_word_eq_none_iff.2 (by simp [hp])
  rcases hm with rfl | rfl
  · simp [Finding.lookAt, hp]
  · simp [Finding.lookAt, hp, hw]

theorem lookAt_word (hw : word.end? p = some q) :
    Finding.lookAt [word] p = .text (.ofList (p.upTo q)) := by
  obtain ⟨text, hp, ht, -⟩ := end?_word_iff.1 hw
  have hpos := byteLength_pos ht.ne_nil
  have hne : q.offset ≠ p.offset := by
    rw [hp.2]
    omega
  simp [Finding.lookAt, hw, hne]

theorem lookAt_char {c : Char} {rest : List Char}
    (hm : mistakes = [] ∨ mistakes = [word] ∧ word.end? p = none) (hp : p.rest = c :: rest) :
    Finding.lookAt mistakes p = .text c.toString := by
  rcases hm with rfl | ⟨rfl, hw⟩
  · simp [Finding.lookAt, hp]
  · simp [Finding.lookAt, hp, hw]

/-- What is found in front of a text: the word that the text begins with, if a word may have been a
mistake, or else its first character. -/
inductive FindsText (mistakes : List Pattern) : List Char → List Char → Prop where
  | whole {text rest : List Char} :
      word ∈ mistakes → IsWord text → EndsWord rest → FindsText mistakes text (text ++ rest)
  | first {c : Char} {rest : List Char} :
      (word ∈ mistakes → isWordStart c = false) → FindsText mistakes [c] (c :: rest)

namespace FindsText

variable {chars : List Char}

theorem ne_nil (h : FindsText mistakes chars after) : chars ≠ [] := by
  cases h with
  | whole _ hw _ => exact hw.ne_nil
  | first _ => exact List.cons_ne_nil _ []

theorem exists_append (h : FindsText mistakes chars after) : ∃ rest, after = chars ++ rest := by
  cases h with
  | @whole _ rest _ _ _ => exact ⟨rest, rfl⟩
  | @first _ rest _ => exact ⟨rest, rfl⟩

theorem not_mem_lineFeed (h : FindsText mistakes chars after)
    (hb : ∀ c ∈ after.head?, isBlank c = false) : '\n' ∉ chars := by
  cases h with
  | whole _ hw _ => exact hw.not_mem
  | @first c _ _ =>
    intro hn
    obtain rfl := List.mem_singleton.1 hn
    exact absurd (hb _ rfl) (by decide)

end FindsText

/-- An error finds text wherever the source goes on. -/
theorem exists_lookAt_eq (hm : mistakes = [] ∨ mistakes = [word]) (hp : p.rest ≠ []) :
    ∃ chars, Finding.lookAt mistakes p = .text (.ofList chars) ∧
      FindsText mistakes chars p.rest := by
  obtain ⟨c, rest, hr⟩ := List.exists_cons_of_ne_nil hp
  cases hw : word.end? p with
  | none =>
    have hc := end?_word_eq_none_iff.1 hw c (by simp [hr])
    refine ⟨[c], lookAt_char (hm.imp_right fun h => ⟨h, hw⟩) hr, ?_⟩
    rw [hr]
    exact .first fun _ => hc
  | some q =>
    obtain ⟨text, hpass, ht, he⟩ := end?_word_iff.1 hw
    rcases hm with rfl | rfl
    · refine ⟨[c], lookAt_char (.inl rfl) hr, ?_⟩
      rw [hr]
      exact .first fun hn => absurd hn (List.not_mem_nil)
    · refine ⟨text, hpass.upTo_eq ▸ lookAt_word hw, ?_⟩
      rw [hpass.1]
      exact .whole (List.mem_singleton_self word) ht he

end SchemaText
