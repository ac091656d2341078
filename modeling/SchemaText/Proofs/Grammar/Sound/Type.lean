import SchemaText.Grammar.Type
import SchemaText.Proofs.Grammar.Sound.Attribute

/-!
What types and paths read, and where they fail.
-/
namespace SchemaText

open Grammar Parse

variable {s q : Place} {n : Nat} {slots : List (Slot Token)} {lang : List (Slot Token) → Prop}

/-! ### Types -/

theorem ensures_container? : Ensures container? s
    (fun c q => match c with
      | some c => ∃ t : Container Token, c = t.map Token.span ∧ Reads s t.slots q
      | none => True)
    (Stuck 1 (fun slots => ∃ t : Container Token, slots = t.slots) s) := by
  refine .afterTrivia ?_
  refine .bind (ensures_optional bracketOpen (by decide) (.refl s)) ?_
  rintro _ q ⟨_ | opening, rfl, hr, -⟩
  · exact .pure trivial
  refine .afterTrivia ?_
  refine .bind (ensures_optional word (by decide) hr) ?_
  rintro _ q ⟨keyType, rfl, hr, -⟩
  refine .afterTrivia ?_
  refine .bind (ensures_expect hr (.inr rfl) (by decide) [bracketClose] (by decide) ?_) ?_
  · simp only [forall_map_fst_cons, forall_map_fst_nil]
    exact fun closing => ⟨{ opening, keyType, closing }, rfl⟩
  · rintro _ q ⟨closing, rfl, hr⟩
    exact .pure ⟨{ opening, keyType, closing }, rfl, hr⟩

theorem sound_type? : Sound 1 type? (TypeExpression.map Token.span)
    (fun t slots => slots = t.slots) (word.end? · = none) := by
  intro s hs
  refine .bind (ensures_accept word (by decide) hs) ?_
  rintro (_ | _) q hq
  · exact .pure hq
  · obtain ⟨valueType, _, rfl, rfl, hr⟩ := hq
    refine .bind (.attempt (Q := fun c q => ∃ t : TypeExpression Token, t.valueType = valueType ∧
      c = t.container.map (Container.map Token.span) ∧ Reads s t.slots q)
      (ensures_container?.mono ?_ fun m h => ?_)) ?_
    · rintro (_ | _) q hc
      · exact ⟨{ valueType, container := none }, rfl, rfl, hr⟩
      · obtain ⟨c, rfl, hc⟩ := hc
        exact ⟨{ valueType, container := some c }, rfl, rfl, hr.append hc⟩
    · refine h.after hr (by decide) ?_
      rintro _ ⟨c, rfl⟩
      exact ⟨{ valueType, container := some c }, rfl⟩
    · rintro _ q ⟨t, rfl, rfl, ht⟩
      exact .pure ⟨t, _, rfl, rfl, ht⟩

/-- A type that is only a name. -/
def TypeExpression.ofName (valueType : Token) : TypeExpression Token :=
  { valueType, container := none }

/-- A demanded type is read, or what was read before it could have gone on with a type and some
more. -/
theorem ensures_type (hr : Reads s slots q) (patterns : List Pattern) (hf : patterns ⊆ fillers)
    (hn : 1 + patterns.length ≤ n) (hl : ∀ t : TypeExpression Token,
      ∀ more : List (Slot Token), more.map Prod.fst = patterns → lang (slots ++ t.slots ++ more)) :
    Ensures type q.skip
      (fun a r => ∃ t : TypeExpression Token, a = t.map Token.span ∧ Reads s (slots ++ t.slots) r)
      (Stuck n lang s) := by
  refine .bind ((sound_type? q.skip q.skip_skip).mono (fun _ _ h => h) fun m h => ?_) ?_
  · refine h.within hr.skip_right patterns hf hn ?_
    rintro _ ⟨t, rfl⟩ more hmore
    exact hl t more hmore
  · rintro (_ | _) r ha
    · obtain ⟨rfl, hw⟩ := ha
      refine .fail ⟨slots, slots, q.skip, word :: patterns, hr.skip_right, q.skip_skip,
        ⟨rfl, rfl, .inl rfl, .singleton hw⟩, .inl rfl, by simp [word],
        Filling.cons hf (by decide) hn, ?_⟩
      rw [forall_map_fst_cons]
      intro valueType more hmore
      have := hl (.ofName valueType) more hmore
      simpa [TypeExpression.slots, TypeExpression.ofName] using this
    · obtain ⟨t, _, rfl, rfl, ht⟩ := ha
      exact .pure ⟨t, rfl, hr.skip_right.append ht⟩

/-! ### Paths -/

section Alternate

variable {α β γ δ : Type} {f : α → γ} {g : β → γ} {as : List α} {bs : List β}

theorem alternate_snoc_second {b : β} (h : as.length = bs.length + 1) :
    alternate f g as (bs ++ [b]) = alternate f g as bs ++ [g b] := by
  induction as generalizing bs with
  | nil => simp at h
  | cons a as ih =>
    cases bs with
    | nil =>
      obtain rfl : as = [] := List.length_eq_zero_iff.1 (by simpa using h)
      rfl
    | cons b' bs => simp [alternate, @ih bs (by simpa using h)]

theorem alternate_snoc_first {a : α} (h : as.length = bs.length) :
    alternate f g (as ++ [a]) bs = alternate f g as bs ++ [f a] := by
  induction as generalizing bs with
  | nil =>
    obtain rfl : bs = [] := List.length_eq_zero_iff.1 h.symm
    rfl
  | cons a' as ih =>
    cases bs with
    | nil => simp at h
    | cons b bs => simp [alternate, @ih bs (by simpa using h)]

theorem map_alternate (k : γ → δ) :
    (alternate f g as bs).map k = alternate (k ∘ f) (k ∘ g) as bs := by
  induction as generalizing bs with
  | nil => simp [alternate]
  | cons a as ih => cases bs <;> simp [alternate, ih]

theorem alternate_map {α' β' : Type} (k : α' → α) (l : β' → β) (as : List α') (bs : List β') :
    alternate f g (as.map k) (bs.map l) = alternate (f ∘ k) (g ∘ l) as bs := by
  induction as generalizing bs with
  | nil => simp [alternate]
  | cons a as ih =>
    cases bs with
    | nil => simpa [alternate] using ih []
    | cons b bs => simpa [alternate] using ih bs

end Alternate

/-- The items of a path as a parse collects them. -/
def pathItems {τ : Type} (names dots : List τ) : List (PathItem τ) :=
  alternate .identifier .dot names dots

theorem alternates_pathItems {τ : Type} {names dots : List τ} (hn : names ≠ [])
    (h : names.length = dots.length ∨ names.length = dots.length + 1) :
    Path.Alternates (pathItems names dots) := by
  induction names generalizing dots with
  | nil => exact absurd rfl hn
  | cons t names ih =>
    cases names with
    | nil =>
      cases dots with
      | nil => exact .identifier t
      | cons d dots =>
        obtain rfl : dots = [] := List.length_eq_zero_iff.1 (by simpa using h)
        exact .dot t d
    | cons t' names =>
      cases dots with
      | nil => simp at h
      | cons d dots => exact .more t d (ih (by simp) (by simpa using h))

/-- The names and dots of a path are read in turn. -/
theorem ensures_separated {bad : Mismatch → Prop} (hs : s.skip = s) :
    Ensures (separated (accept word) (accept dotSign) trivia) s
      (fun parts r => ∃ names dots : List Token,
        parts = ⟨names.map Token.span, dots.map Token.span⟩ ∧
        (names.length = dots.length ∨ names.length = dots.length + 1) ∧
        Reads s (Path.slots ⟨pathItems names dots⟩) r ∧
        (names = [] → r = s ∧ word.end? s = none)) bad := by
  refine .bind (ensures_accept word (by decide) hs) ?_
  rintro (_ | _) q hq
  · exact .pure ⟨[], [], rfl, .inl rfl, hq.1 ▸ .refl s, fun _ => hq⟩
  obtain ⟨first, _, rfl, rfl, hr⟩ := hq
  refine .loop (fun state q => ∃ names dots : List Token, state.1.toList = names.map Token.span ∧
    state.2.toList = dots.map Token.span ∧ names.length = dots.length + 1 ∧
    Reads s (Path.slots ⟨pathItems names dots⟩) q) ⟨[first], [], rfl, rfl, rfl, hr⟩ ?_
  rintro ⟨items, separators⟩ q ⟨names, dots, hi, hd, hlen, hr⟩
  simp only at hi hd
  have hne : names ≠ [] := by
    rintro rfl
    simp at hlen
  refine .afterTrivia ?_
  refine .bind (ensures_accept dotSign (by decide) q.skip_skip) ?_
  rintro (_ | _) r hd'
  · obtain ⟨rfl, -⟩ := hd'
    exact .pure ⟨names, dots, by rw [hi, hd], .inr hlen, hr.skip_right, fun h => absurd h hne⟩
  obtain ⟨dot, _, rfl, rfl, hdot⟩ := hd'
  have hr : Reads s (Path.slots ⟨pathItems names (dots ++ [dot])⟩) r := by
    simpa [Path.slots, pathItems, PathItem.slot,
      alternate_snoc_second hlen] using hr.append hdot.skip_left
  have hlen : names.length = (dots ++ [dot]).length := by simpa using hlen
  refine .afterTrivia ?_
  refine .bind (ensures_accept word (by decide) r.skip_skip) ?_
  rintro (_ | _) r' hw
  · obtain ⟨rfl, -⟩ := hw
    exact .pure ⟨names, dots ++ [dot], by simp [hi, hd], .inl hlen, hr.skip_right,
      fun h => absurd h hne⟩
  · obtain ⟨name, _, rfl, rfl, hname⟩ := hw
    refine .pure ⟨names ++ [name], dots ++ [dot], by simp [hi], by simp [hd], by simpa using hlen,
      ?_⟩
    simpa [Path.slots, pathItems, PathItem.slot,
      alternate_snoc_first hlen] using hr.append hname.skip_left

/-- A path is read, or what was read before it could have gone on with a name and some more. -/
theorem ensures_path (hr : Reads s slots q) (patterns : List Pattern) (hf : patterns ⊆ fillers)
    (hn : 1 + patterns.length ≤ n) (hl : ∀ p : Path Token, Path.Alternates p.items →
      ∀ more : List (Slot Token), more.map Prod.fst = patterns → lang (slots ++ p.slots ++ more)) :
    Ensures path q.skip
      (fun a r => ∃ p : Path Token, Path.Alternates p.items ∧ a = p.map Token.span ∧
        Reads s (slots ++ p.slots) r)
      (Stuck n lang s) := by
  refine .bind (ensures_separated q.skip_skip) ?_
  rintro _ r ⟨names, dots, rfl, hlen, hp, hr'⟩
  simp only [Separated.isEmpty, List.isEmpty_map]
  split
  · next he =>
    obtain ⟨rfl, hw⟩ := hr' (List.isEmpty_iff.1 he)
    refine .fail ⟨slots, slots, q.skip, word :: patterns, hr.skip_right, q.skip_skip,
      ⟨rfl, rfl, .inl rfl, .singleton hw⟩, .inl rfl, by simp [word],
      Filling.cons hf (by decide) hn, ?_⟩
    rw [forall_map_fst_cons]
    intro name more hmore
    have := hl ⟨[.identifier name]⟩ (.identifier name) more hmore
    simpa [Path.slots, PathItem.slot] using this
  · next he =>
    have hne : names ≠ [] := fun h => he (List.isEmpty_iff.2 h)
    refine .pure ⟨⟨pathItems names dots⟩, alternates_pathItems hne hlen, ?_,
      hr.skip_right.append hp⟩
    simp only [Path.map, pathItems, Separated.merged, alternate_map, map_alternate]
    rfl

end SchemaText
