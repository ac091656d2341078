import SchemaText.Proofs.Grammar.Complete.Declaration
import SchemaText.Proofs.Grammar.Sound.Import

/-!
Imports that are there are read as what they are, unless an item is taken for an alias.
-/
namespace SchemaText

open Grammar Parse

variable {s q e : Place} {more : List (Slot Token)} {next : List Pattern} {E : Mismatch → Prop}

/-- Behind an item without an alias no alias can begin. -/
theorem Reads.end?_keywordAs {item : ImportItem Token} {items : List (ImportItem Token)}
    (hitem : item.localAlias = none) (hi : (item :: items).IsChain (ImportItem.Parts Token.text))
    (h : Reads s (optionalSlot Grammar.comma item.comma ++
      (items.flatMap ImportItem.slots ++ more)) e)
    (he : e.rest = []) (hs : s.skip = s) (hn : Next [braceClose] more) :
    keywordAs.end? s = none := by
  obtain ⟨name, localAlias, comma⟩ := item
  cases comma with
  | some comma =>
    have hn : Next [Grammar.comma]
        ((Grammar.comma, comma) :: (items.flatMap ImportItem.slots ++ more)) :=
      next_cons (by simp)
    exact h.end?_eq_none he hs (by decide) hn (by decide)
  | none =>
    cases items with
    | nil => exact h.end?_eq_none he hs (by decide) hn (by decide)
    | cons j items =>
      obtain ⟨r, -, hw, hname, -⟩ := h
      rw [hs] at hw hname
      cases hk : keywordAs.end? s with
      | none => rfl
      | some r' =>
        obtain ⟨hw', ht⟩ := end?_word_of_keyword (by decide) hk
        obtain rfl := Option.some.inj (hw.symm.trans hw')
        have hparts := (List.isChain_cons_cons.1 hi).1 ⟨hitem, rfl⟩
        simp [hname, Token.between, ht] at hparts

theorem complete_importItem? {item : ImportItem Token} {items : List (ImportItem Token)}
    (hi : (item :: items).IsChain (ImportItem.Parts Token.text)) (hs : s.skip = s)
    (he : e.rest = [])
    (h : Reads s (item.slots ++ (items.flatMap ImportItem.slots ++ more)) e)
    (hn : Next [braceClose] more) : Ensures importItem? s (fun a q =>
      a = some (item.map Token.span) ∧ Reads q (items.flatMap ImportItem.slots ++ more) e) E := by
  have hn' : Next [word, braceClose] (items.flatMap ImportItem.slots ++ more) := by
    cases items with
    | nil => exact hn.mono (by simp)
    | cons j items => exact next_cons (by simp)
  have h : Reads s ((word, item.name) :: (item.localAlias.elim [] ImportAlias.slots ++
      (optionalSlot Grammar.comma item.comma ++ (items.flatMap ImportItem.slots ++ more)))) e := by
    simpa [ImportItem.slots] using h
  refine .bind (h.accept_here hs) ?_
  rintro _ q ⟨rfl, h⟩
  refine .afterTrivia ?_
  refine .bind (R := fun a r => a = item.localAlias.map (ImportAlias.map Token.span) ∧
    Reads r (optionalSlot Grammar.comma item.comma ++
      (items.flatMap ImportItem.slots ++ more)) e) ?_ ?_
  · cases ha : item.localAlias with
    | none =>
      rw [ha] at h
      have h := h.congr_left q.skip_skip
      have hk := h.end?_keywordAs ha hi he q.skip_skip hn
      refine .bind (R := fun a r => a = none ∧ r = q.skip) (.accept (fun r hr => ?_) fun _ =>
        ⟨rfl, rfl⟩) ?_
      · simp [hk] at hr
      · rintro _ _ ⟨rfl, rfl⟩
        exact .pure ⟨rfl, h⟩
    | some a =>
      rw [ha] at h
      refine .bind (Reads.accept h) ?_
      rintro _ r ⟨rfl, h⟩
      refine .afterTrivia ?_
      refine .bind (Reads.expect h) ?_
      rintro _ r ⟨rfl, h⟩
      exact .pure ⟨rfl, h⟩
  · rintro _ r ⟨rfl, h⟩
    refine .bind (h.comma? he hn' (by decide)) ?_
    rintro _ r ⟨rfl, h⟩
    exact .pure ⟨rfl, h⟩

theorem complete_importItems {items : List (ImportItem Token)}
    (hi : items.IsChain (ImportItem.Parts Token.text))
    (he : e.rest = []) (h : Reads s (items.flatMap ImportItem.slots ++ more) e)
    (hn : Next [braceClose] more) : Ensures (many (afterTrivia importItem?)) s
      (fun all q => all = items.map (ImportItem.map Token.span) ∧ q.skip = q ∧
        Reads q more e) E := by
  refine .many (fun all q => ∃ done rest, items = done ++ rest ∧
    all = done.map (ImportItem.map Token.span) ∧ rest.IsChain (ImportItem.Parts Token.text) ∧
    Reads q (rest.flatMap ImportItem.slots ++ more) e) ⟨[], items, rfl, rfl, hi, h⟩ ?_
  rintro _ q ⟨done, rest, rfl, rfl, hi, h⟩
  refine .afterTrivia ?_
  have h : Reads q.skip (rest.flatMap ImportItem.slots ++ more) e := h.congr_left q.skip_skip
  cases rest with
  | nil =>
    have hnone : word.end? q.skip = none := h.end?_eq_none he q.skip_skip (by decide) hn (by decide)
    refine .bind (R := fun a r => a = none ∧ r = q.skip) (.accept (fun r hr => ?_) fun _ =>
      ⟨rfl, rfl⟩) ?_
    · simp [hnone] at hr
    · rintro _ _ ⟨rfl, rfl⟩
      exact .pure ⟨by simp, q.skip_skip, h⟩
  | cons item rest =>
    have h : Reads q.skip (item.slots ++ (rest.flatMap ImportItem.slots ++ more)) e := by
      simpa using h
    refine (complete_importItem? hi q.skip_skip he h hn).mono ?_ fun _ => id
    rintro _ r ⟨rfl, h⟩
    exact ⟨done ++ [item], rest, by simp, by simp, hi.tail, h⟩

theorem complete_import? : Complete import? (Import.map Token.span)
    (fun i slots => i.Written slots ∧ i.Unambiguous Token.text) next := by
  rintro s e ⟨attributes, keyword, path, opening, items, closing⟩ _ more hs he
    ⟨⟨rfl, hp, rfl⟩, hi⟩ h hn
  have h : Reads s ((Grammar.keyword .imports, keyword) :: (path.slots ++ (braceOpen, opening) ::
      (items.flatMap ImportItem.slots ++ (braceClose, closing) :: more))) e := by
    simpa [Import.ownSlots] using h
  refine .bind (h.accept_here hs) ?_
  rintro _ q ⟨rfl, h⟩
  refine .afterTrivia ?_
  have hn : Next [braceOpen] ((braceOpen, opening) ::
      (items.flatMap ImportItem.slots ++ (braceClose, closing) :: more)) := next_cons (by simp)
  refine .bind (h.path hp he hn (by decide) (by decide)) ?_
  rintro _ q ⟨rfl, h⟩
  refine .afterTrivia ?_
  refine .bind h.expect ?_
  rintro _ q ⟨rfl, h⟩
  refine .bind (complete_importItems hi he h (next_cons (by simp))) ?_
  rintro _ q ⟨rfl, hs, h⟩
  rw [← hs]
  refine .bind h.expect ?_
  rintro _ q ⟨rfl, h⟩
  exact .pure ⟨rfl, h⟩

end SchemaText
