import SchemaText.Proofs.Grammar.Complete.Attribute
import SchemaText.Proofs.Grammar.Sound.Type

/-!
Types and paths that are there are read as what they are.
-/
namespace SchemaText

open Grammar Parse

variable {s q e : Place} {more : List (Slot Token)} {next : List Pattern} {E : Mismatch → Prop}

/-! ### Types -/

theorem complete_container? {container : Option (Container Token)} (he : e.rest = [])
    (h : Reads s (container.elim [] Container.slots ++ more) e) (hn : Next next more)
    (ha : ∀ p ∈ next, apart bracketOpen p) :
    Ensures (attempt container?) s
      (fun a q => a = container.map (Container.map Token.span) ∧ Reads q more e) E := by
  refine .attempt (.bind ensures_trivia ?_)
  rintro _ _ rfl
  cases container with
  | none =>
    have h' : Reads s (optionalSlot bracketOpen none ++ more) e := h
    refine .bind (h'.optional he (by decide) hn ha) ?_
    rintro _ q ⟨rfl, -⟩
    exact .pure ⟨rfl, h⟩
  | some c =>
    obtain ⟨opening, keyType, closing⟩ := c
    have h : Reads s ((bracketOpen, opening) ::
        (optionalSlot word keyType ++ (bracketClose, closing) :: more)) e := by
      simpa [Container.slots] using h
    refine .bind h.accept ?_
    rintro _ q ⟨rfl, h⟩
    refine .afterTrivia ?_
    have hn : Next [bracketClose] ((bracketClose, closing) :: more) := next_cons (by simp)
    refine .bind (h.optional he (by decide) hn (by decide)) ?_
    rintro _ q ⟨rfl, h⟩
    refine .afterTrivia ?_
    refine .bind h.expect ?_
    rintro _ q ⟨rfl, h⟩
    exact .pure ⟨rfl, h⟩

theorem complete_type? (ha : ∀ p ∈ next, apart bracketOpen p) :
    Complete type? (TypeExpression.map Token.span) (fun t slots => slots = t.slots) next := by
  rintro s e ⟨valueType, container⟩ _ more hs he rfl h hn
  refine .bind (h.accept_here hs) ?_
  rintro _ q ⟨rfl, h⟩
  refine .bind (complete_container? he h hn ha) ?_
  rintro _ q ⟨rfl, h⟩
  exact .pure ⟨rfl, h⟩

theorem rejects_type? (ha : ∀ p ∈ next, apart word p) : Rejects type? next := by
  intro s e more hs he h hn
  refine .bind (R := fun a q => a = none ∧ q = s) (.accept (fun q hq => ?_) fun _ => ⟨rfl, rfl⟩) ?_
  · simp [h.end?_eq_none he hs (by decide) hn ha] at hq
  · rintro _ q ⟨rfl, rfl⟩
    exact .pure ⟨rfl, rfl⟩

theorem Reads.type {t : TypeExpression Token} (h : Reads q (t.slots ++ more) e) (he : e.rest = [])
    (hn : Next next more) (ha : ∀ p ∈ next, apart bracketOpen p) :
    Ensures type q.skip (fun a r => a = t.map Token.span ∧ Reads r more e) fun _ => False := by
  refine .bind (complete_type? ha q.skip_skip he rfl (h.congr_left q.skip_skip) hn) ?_
  rintro _ r ⟨rfl, h⟩
  exact .pure ⟨rfl, h⟩

/-! ### Paths -/

theorem Path.Alternates.eq_cons {τ : Type} {items : List (PathItem τ)} (h : Path.Alternates items) :
    ∃ t rest, items = .identifier t :: rest := by
  cases h <;> exact ⟨_, _, rfl⟩

/-- The names and dots of a path are found in turn. -/
theorem complete_separated {items : List (PathItem Token)} (hp : Path.Alternates items)
    (hs : s.skip = s) (he : e.rest = []) (h : Reads s (Path.slots ⟨items⟩ ++ more) e)
    (hn : Next next more) (hw : ∀ p ∈ next, apart word p) (hd : ∀ p ∈ next, apart dotSign p) :
    Ensures (separated (accept word) (accept dotSign) trivia) s
      (fun parts r => ∃ names dots : List Token, names ≠ [] ∧
        parts = ⟨names.map Token.span, dots.map Token.span⟩ ∧ items = pathItems names dots ∧
        Reads r more e) E := by
  obtain ⟨t, rest, rfl⟩ := hp.eq_cons
  refine .bind (h.accept_here hs) ?_
  rintro _ q ⟨rfl, h⟩
  refine .loop (fun state q => ∃ names dots t' rest', .identifier t :: rest =
    pathItems names dots ++ rest' ∧
    Path.Alternates (.identifier t' :: rest') ∧ state.1.toList = names.map Token.span ∧
    state.2.toList = dots.map Token.span ∧ names.length = dots.length + 1 ∧
    Reads q (Path.slots ⟨rest'⟩ ++ more) e) ⟨[t], [], t, rest, rfl, hp, rfl, rfl, rfl, h⟩ ?_
  rintro ⟨items, separators⟩ q ⟨names, dots, t', rest', hall, hp, hi, hd', hlen, h⟩
  simp only at hi hd'
  have hne : names ≠ [] := by
    rintro rfl
    simp at hlen
  refine .afterTrivia ?_
  cases hp with
  | identifier =>
    have h : Reads q (optionalSlot dotSign none ++ more) e := h
    refine .bind (h.optional he (by decide) hn hd) ?_
    rintro _ q ⟨rfl, h⟩
    exact .pure ⟨names, dots, hne, by simp [hi, hd'], by simpa using hall, h⟩
  | dot _ d =>
    have h : Reads q ((dotSign, d) :: (optionalSlot word none ++ more)) e := h
    refine .bind h.accept ?_
    rintro _ q ⟨rfl, h⟩
    refine .afterTrivia ?_
    refine .bind (h.optional he (by decide) hn hw) ?_
    rintro _ q ⟨rfl, h⟩
    refine .pure ⟨names, dots ++ [d], hne, by simp [hi, hd'], ?_, h⟩
    rw [hall, pathItems, pathItems, alternate_snoc_second hlen]
  | more _ d hp =>
    obtain ⟨t'', rest'', rfl⟩ := hp.eq_cons
    have h : Reads q ((dotSign, d) :: (word, t'') :: (Path.slots ⟨rest''⟩ ++ more)) e := h
    have hlen' : names.length = (dots ++ [d]).length := by simpa using hlen
    refine .bind h.accept ?_
    rintro _ q ⟨rfl, h⟩
    refine .afterTrivia ?_
    refine .bind h.accept ?_
    rintro _ q ⟨rfl, h⟩
    refine .pure ⟨names ++ [t''], dots ++ [d], t'', rest'', ?_, hp, by simp [hi], by simp [hd'],
      by simpa using hlen', h⟩
    rw [hall, pathItems, pathItems, alternate_snoc_first hlen', alternate_snoc_second hlen]
    simp

theorem Reads.path {p : Path Token} (hp : Path.Alternates p.items) (h : Reads q (p.slots ++ more) e)
    (he : e.rest = []) (hn : Next next more) (hw : ∀ p ∈ next, apart word p)
    (hd : ∀ p ∈ next, apart dotSign p) :
    Ensures path q.skip (fun a r => a = p.map Token.span ∧ Reads r more e) fun _ => False := by
  refine .bind (complete_separated hp q.skip_skip he (h.congr_left q.skip_skip) hn hw hd) ?_
  rintro _ r ⟨names, dots, hne, rfl, hitems, h⟩
  simp only [Separated.isEmpty, List.isEmpty_map]
  rw [if_neg (by simpa using hne)]
  refine .pure ⟨?_, h⟩
  simp only [Path.map, hitems, pathItems, Separated.merged, alternate_map, map_alternate]
  rfl

end SchemaText
