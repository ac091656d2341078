import SchemaText.Proofs.Budget
import SchemaText.Proofs.Grammar.Complete.Statement
import SchemaText.Proofs.Grammar.Layout
import SchemaText.Proofs.Tree.Lift

/-!
A document that is laid out as a source is what the source is parsed as.
-/
namespace SchemaText

open Grammar

variable {source : String} {options : Options} {text first : List Char}
  {lexemes : List (Slot Lexeme)}

/-- A source is parsed as the document whose tokens stand in it. -/
theorem parse_of_reads {t : Document Token} {slots : List (Slot Token)} {e : Place}
    (ht : t.Readable slots) (hr : Reads (.start source.toList) slots e) (he : e.rest = [])
    (hb : byteLength source.toList ≤ maxOffset) (hf : 16 ≤ options.attemptFactor) :
    parse source options = .ok (t.map Token.span) := by
  have hrun := complete_document StatementKind.mem_all ht he hr
    (.start source.toList options.attemptFactor) rfl
  obtain ⟨-, ⟨d, c, hd⟩ | ⟨m, c, hm⟩⟩ := documentRun_stops hb hf
  · rw [documentRun] at hd
    rw [hd] at hrun
    obtain rfl : d = t.map Token.span := hrun
    exact parse_eq_ok_iff.2 ⟨hb, c, hd⟩
  · rw [documentRun] at hm
    rw [hm] at hrun
    exact absurd hrun id

/-- The tokens of a layout behind trivia are read to the end of the text. -/
theorem Laid.reads_start (h : Laid lexemes) (ho : Orderly lexemes) (hfirst : ClosedTrivia first) :
    ∃ e, Reads (.start (first ++ layout lexemes)) (tokensAt (byteLength first) lexemes) e ∧
      e.rest = [] := by
  obtain ⟨e, hr, he⟩ := h.reads ho (s := ⟨byteLength first, layout lexemes⟩) rfl
  have hpass : (Place.start (first ++ layout lexemes)).Passes first
      ⟨byteLength first, layout lexemes⟩ := ⟨rfl, (Nat.zero_add _).symm⟩
  exact ⟨e, hr.congr_left (hpass.skip_eq hfirst), he⟩

section Unambiguous

variable {σ τ : Type} {f : σ → τ} {view : τ → List Char}

theorem ImportItem.parts_map {i j : ImportItem σ} :
    Parts view (i.map f) (j.map f) ↔ Parts (view ∘ f) i j := by
  simp [Parts, Bare, ImportItem.map]

theorem Statement.unambiguous_map {st : Statement σ} :
    (st.map f).Unambiguous view ↔ st.Unambiguous (view ∘ f) := by
  cases st with
  | imports node =>
    simp only [Statement.map, Statement.Unambiguous, Import.Unambiguous, Import.map,
      List.isChain_map, ImportItem.parts_map]
  | _ => exact Iff.rfl

theorem Document.unambiguous_map {d : Document σ} :
    (d.map f).Unambiguous view ↔ d.Unambiguous (view ∘ f) := by
  simp [Document.Unambiguous, Document.map, Statement.unambiguous_map]

end Unambiguous

/-- Printing and then parsing a document gives it back, with the places where its tokens have been
laid out: its tokens may be laid out in any order that has them as that document, with any trivia
between them that keeps them apart. -/
theorem parse_layout {d : Document (List Char)} (hd : d.Written (mapSlots Lexeme.text lexemes))
    (hu : d.Unambiguous id) (hfirst : ClosedTrivia first) (hl : Laid lexemes)
    (hb : byteLength (first ++ layout lexemes) ≤ maxOffset) (hf : 16 ≤ options.attemptFactor) :
    ∃ t : Document Token, t.map Token.text = d ∧ t.Written (tokensAt (byteLength first) lexemes) ∧
      parse (.ofList (first ++ layout lexemes)) options = .ok (t.map Token.span) := by
  obtain ⟨_, -, hlexemes⟩ := lifts_document d lexemes hd
  rw [← mapSlots_text_tokensAt (byteLength first)] at hd
  obtain ⟨t, rfl, ht⟩ := lifts_document d _ hd
  obtain ⟨e, hr, he⟩ := hl.reads_start hlexemes.orderly hfirst
  rw [Document.unambiguous_map] at hu
  refine ⟨t, rfl, ht, ?_⟩
  rw [← String.toList_ofList (l := first ++ layout lexemes)] at hr hb
  exact parse_of_reads (Document.readable_iff.2 ⟨ht, hu⟩) hr he hb hf

theorem parse_layout_note : ∃ t : Document Token, t.map Token.text =
      { attributes := [{ kind := .inner, symbol := ['#'], name := ['a'], content := some ['-'] }],
        statements := [] } ∧
    t.Written (tokensAt 1 [(introducer .inner, ⟨['#'], []⟩), (word, ⟨['a'], [' ']⟩),
      (.token content, ⟨['-'], ['\n']⟩)]) ∧
    parse (.ofList ([' '] ++ ['#', 'a', ' ', '-', '\n'])) {} = .ok (t.map Token.span) := by
  have hd : Document.Written
      { attributes := [{ kind := .inner, symbol := ['#'], name := ['a'], content := some ['-'] }],
        statements := [] }
      (mapSlots Lexeme.text [(introducer .inner, ⟨['#'], []⟩), (word, ⟨['a'], [' ']⟩),
        (.token content, ⟨['-'], ['\n']⟩)]) :=
    ⟨[], [⟨.inner, ['#'], ['a'], some ['-']⟩], by simp, by simp, rfl, rfl, rfl⟩
  have hfits : ∀ slot ∈ [(introducer .inner, ⟨['#'], []⟩), (word, ⟨['a'], [' ']⟩),
      (.token content, ⟨['-'], ['\n']⟩)], Lexeme.Fits slot.1 slot.2 := by
    simp only [List.forall_mem_cons, List.not_mem_nil, false_implies, implies_true, and_true]
    refine ⟨Lexeme.fits_of_ne_content (by decide) rfl .nil,
      Lexeme.fits_of_ne_content (by decide) (.inl ⟨rfl, by decide⟩) (.blank (by decide) .nil), ?_⟩
    have hdash : IsDash ['-'] := ⟨[], rfl, by simp⟩
    exact ⟨.inr ⟨rfl, .inl hdash⟩, fun _ => .inl hdash, .blank (by decide) .nil, fun _ _ => rfl⟩
  have hfirst : ClosedTrivia [' '] := .blank (by decide) .nil
  have hsign : ¬ IsWord ['#'] := by decide
  exact parse_layout hd (by simp [Document.Unambiguous]) hfirst
    ⟨hfits, by simp [Lexeme.Parted, hsign]⟩ (by decide +kernel) (by decide)

end SchemaText
