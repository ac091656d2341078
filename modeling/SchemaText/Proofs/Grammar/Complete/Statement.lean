import SchemaText.Proofs.Grammar.Complete.Import
import SchemaText.Proofs.Grammar.Sound.Statement

/-!
Statements and documents that are there are read as what they are.
-/
namespace SchemaText

open Grammar Parse

variable {s q e : Place} {more : List (Slot Token)} {next : List Pattern}

theorem complete_custom? (ha : ∀ p ∈ next, apart bracketOpen p) : Complete custom?
    (Custom.map Token.span) (fun c slots => c.attributes = [] ∧ slots = c.ownSlots) next := by
  rintro s e ⟨attributes, keyword, name, equals, type⟩ _ more hs he ⟨rfl, rfl⟩ h hn
  refine .bind (h.accept_here hs) ?_
  rintro _ q ⟨rfl, h⟩
  refine .afterTrivia ?_
  refine .bind h.expect ?_
  rintro _ q ⟨rfl, h⟩
  refine .afterTrivia ?_
  refine .bind h.expect ?_
  rintro _ q ⟨rfl, h⟩
  refine .afterTrivia ?_
  refine .bind (Reads.type h he hn ha) ?_
  rintro _ q ⟨rfl, h⟩
  exact .pure ⟨rfl, h⟩

/-! ### Signatures -/

theorem complete_throws? {throws : Option (Throws Token)} (he : e.rest = [])
    (h : Reads s (throws.elim [] Throws.slots ++ more) e) (hn : Next next more)
    (ha : ∀ p ∈ next, apart bracketOpen p) (ht : ∀ p ∈ next, apart keywordThrows p) :
    Ensures (attempt throws?) s
      (fun a q => a = throws.map (Throws.map Token.span) ∧ Reads q more e) fun _ => False := by
  refine .attempt (.bind ensures_trivia ?_)
  rintro _ _ rfl
  cases throws with
  | none =>
    have h' : Reads s (optionalSlot keywordThrows none ++ more) e := h
    refine .bind (h'.optional he (by decide) hn ht) ?_
    rintro _ q ⟨rfl, -⟩
    exact .pure ⟨rfl, h⟩
  | some t =>
    refine .bind (Reads.accept h) ?_
    rintro _ q ⟨rfl, h⟩
    refine .afterTrivia ?_
    refine .bind (Reads.type h he hn ha) ?_
    rintro _ q ⟨rfl, h⟩
    exact .pure ⟨rfl, h⟩

theorem complete_proc? (ha : ∀ p ∈ next, apart bracketOpen p)
    (ht : ∀ p ∈ next, apart keywordThrows p) : Complete proc? (Proc.map Token.span)
      (fun p slots => p.attributes = [] ∧ slots = p.ownSlots) next := by
  rintro s e ⟨attributes, keyword, name, equals, input, arrow, output, throws⟩ _ more hs he
    ⟨rfl, rfl⟩
    h hn
  have h : Reads s ((Grammar.keyword .proc, keyword) :: (word, name) :: (Grammar.equals, equals) ::
      (input.slots ++ (Grammar.arrow, arrow) :: (output.slots ++
        (throws.elim [] Throws.slots ++ more)))) e := by
    simpa [Proc.ownSlots] using h
  refine .bind (h.accept_here hs) ?_
  rintro _ q ⟨rfl, h⟩
  refine .afterTrivia ?_
  refine .bind h.expect ?_
  rintro _ q ⟨rfl, h⟩
  refine .afterTrivia ?_
  refine .bind h.expect ?_
  rintro _ q ⟨rfl, h⟩
  refine .afterTrivia ?_
  have harrow : Next [Grammar.arrow] ((Grammar.arrow, arrow) :: (output.slots ++
      (throws.elim [] Throws.slots ++ more))) := next_cons (by simp)
  refine .bind (h.type he harrow (by decide)) ?_
  rintro _ q ⟨rfl, h⟩
  refine .afterTrivia ?_
  refine .bind h.expect ?_
  rintro _ q ⟨rfl, h⟩
  refine .afterTrivia ?_
  have hthrows : Next (keywordThrows :: next) (throws.elim [] Throws.slots ++ more) := by
    cases throws with
    | none => exact hn.mono (List.subset_cons_self ..)
    | some t => exact next_cons (by simp)
  refine .bind (h.type he hthrows (List.forall_mem_cons.2 ⟨by decide, ha⟩)) ?_
  rintro _ q ⟨rfl, h⟩
  refine .bind (complete_throws? he h hn ha ht) ?_
  rintro _ q ⟨rfl, h⟩
  exact .pure ⟨rfl, h⟩

/-! ### Statements -/

section Wrap

variable {α α' : Type} {p : Parse (Option α)} {k : α → α'} {a : α}

theorem ensures_some_map (h : Ensures p s (fun r q => r = some a ∧ Reads q more e) fun _ => False) :
    Ensures (do return (← p).map k) s (fun r q => r = some (k a) ∧ Reads q more e)
      fun _ => False := by
  refine .map (h.mono ?_ fun _ => id)
  rintro _ q ⟨rfl, hr⟩
  exact ⟨rfl, hr⟩

theorem ensures_none_map (h : Ensures p s (fun r q => r = none ∧ q = s) fun _ => False) :
    Ensures (do return (← p).map k) s (fun r q => r = none ∧ q = s) fun _ => False := by
  refine .map (h.mono ?_ fun _ => id)
  rintro _ q ⟨rfl, rfl⟩
  exact ⟨rfl, rfl⟩

end Wrap

theorem complete_word : Complete (accept word) Token.span
    (fun t slots => slots = [(word, t)]) next := by
  rintro s e t _ more hs he rfl h hn
  exact h.accept_here hs

theorem beginsWith_word : BeginsWith (fun (t : Token) slots => slots = [(word, t)]) [word] := by
  rintro t _ rfl
  exact ⟨_, _, rfl, by simp⟩

theorem beginsWith_type : BeginsWith (fun (t : TypeExpression Token) slots => slots = t.slots)
    [word] := by
  rintro t _ rfl
  exact ⟨_, _, rfl, by simp⟩

theorem StatementKind.mem_all (kind : StatementKind) : kind ∈ all := by
  cases kind <;> decide

/-- What follows a statement. -/
def statementNext : List Pattern := introducers ++ keywords ++ []

theorem complete_statementOf {st : Statement Token} {slots : List (Slot Token)}
    (hst : st.Readable slots) (hs : s.skip = s) (he : e.rest = [])
    (h : Reads s (slots ++ more) e) (hn : Next statementNext more) :
    Ensures (statementOf st.kind) s
      (fun a q => a = some (st.map Token.span) ∧ Reads q more e) fun _ => False := by
  cases st with
  | imports node => exact ensures_some_map (complete_import? hs he hst h hn)
  | custom node => exact ensures_some_map (complete_custom? (by decide) hs he hst.1 h hn)
  | proc node => exact ensures_some_map (complete_proc? (by decide) (by decide) hs he hst.1 h hn)
  | enum node =>
    exact ensures_some_map (complete_declaration? .enum complete_word
      (rejects_accept (by decide) (by decide)) beginsWith_word hs he hst.1 h hn)
  | oneof node =>
    exact ensures_some_map (complete_declaration? .oneof (complete_type? (by decide))
      (rejects_type? (by decide)) beginsWith_type hs he hst.1 h hn)
  | struct node =>
    exact ensures_some_map (complete_declaration? .struct (complete_field? (by decide))
      (rejects_field? (by decide)) beginsWith_field hs he hst.1 h hn)
  | union node =>
    exact ensures_some_map (complete_declaration? .union (complete_variant? (by decide))
      (rejects_variant? (by decide)) beginsWith_variant hs he hst.1 h hn)

/-- Where its keyword does not match, there is no statement of a kind. -/
theorem absent_statementOf {kind : StatementKind} (h : (Grammar.keyword kind).end? s = none) :
    Ensures (statementOf kind) s (fun a q => a = none ∧ q = s) fun _ => False := by
  have hfront : ∀ {α : Type} {f : Option Span → Parse (Option α)}, f none = pure none →
      Ensures (accept (Grammar.keyword kind) >>= f) s (fun a q => a = none ∧ q = s)
        fun _ => False := by
    intro α f hf
    refine .bind (R := fun found q => found = none ∧ q = s)
      (.accept (fun q hq => by simp [h] at hq) fun _ => ⟨rfl, rfl⟩) ?_
    rintro _ q ⟨rfl, rfl⟩
    rw [hf]
    exact .pure ⟨rfl, rfl⟩
  cases kind <;> exact ensures_none_map (hfront rfl)

theorem rejects_statementOf {kind : StatementKind}
    (ha : ∀ p ∈ next, apart (Grammar.keyword kind) p) :
    Rejects (statementOf kind) next := by
  intro s e more hs he h hn
  exact absent_statementOf (h.end?_eq_none he hs (lexical_keyword kind) hn ha)

theorem complete_statement? {kinds : List StatementKind} (hk : ∀ kind, kind ∈ kinds) :
    Complete (statement? kinds) (Statement.map Token.span) Statement.Readable statementNext := by
  intro s e st slots more hs he hst h hn
  obtain ⟨rest, hrest⟩ := hst.1.eq_cons
  have hmatch : (Grammar.keyword st.kind).end? s ≠ none := by
    rw [hrest] at h
    obtain ⟨r, -, hr, -⟩ := h
    rw [hs] at hr
    simp [hr]
  have hkeyword : Next [Grammar.keyword st.kind] (slots ++ more) := by
    rw [hrest]
    exact next_cons (by simp)
  refine .bind (R := fun a q => a = some (st.map Token.span) ∧ Reads q more e)
    (.choice (F := fun kind => (Grammar.keyword kind).end? s = none) ?_ ?_) ?_
  · intro kind _
    by_cases heq : kind = st.kind
    · subst heq
      refine (complete_statementOf hst hs he h hn).mono ?_ fun _ => id
      rintro _ q ⟨rfl, hr⟩
      exact ⟨⟨rfl, hr⟩, hmatch⟩
    · have ha : ∀ p ∈ [Grammar.keyword st.kind], apart (Grammar.keyword kind) p := by
        rw [List.forall_mem_singleton]
        exact eq_true_of_ne_false fun h => heq (kind_eq_of_keyword h)
      refine (rejects_statementOf ha hs he h hkeyword).mono ?_ fun _ => id
      rintro _ q ⟨rfl, rfl⟩
      exact h.end?_eq_none he hs (lexical_keyword kind) hkeyword ha
  · exact fun hall => absurd (hall st.kind (hk st.kind)) hmatch
  · rintro _ q ⟨rfl, hr⟩
    exact .bind (.record ⟨rfl, hr⟩) fun _ _ h => .pure h

theorem rejects_statement? {kinds : List StatementKind} :
    Rejects (statement? kinds) [] := by
  intro s e more hs he h hn
  refine .bind (R := fun a q => a = none ∧ q = s)
    (.choice (F := fun kind => (Grammar.keyword kind).end? s = none) ?_ fun _ => ⟨rfl, rfl⟩) ?_
  · intro kind _
    refine (rejects_statementOf (by simp) hs he h hn).mono ?_ fun _ => id
    rintro _ q ⟨rfl, rfl⟩
    exact h.end?_eq_none he hs (lexical_keyword kind) hn (by simp)
  · rintro _ q ⟨rfl, rfl⟩
    exact .pure ⟨rfl, rfl⟩

theorem beginsWith_statement : BeginsWith Statement.Readable keywords := by
  rintro st _ ⟨hst, -⟩
  obtain ⟨rest, rfl⟩ := hst.eq_cons
  exact ⟨_, _, rfl, List.mem_map_of_mem (StatementKind.mem_all st.kind)⟩

/-! ### Documents -/

/-- A document that stands in a text is what is read there. -/
theorem complete_document {kinds : List StatementKind} {d : Document Token}
    {slots : List (Slot Token)} (hk : ∀ kind, kind ∈ kinds) (hd : d.Readable slots)
    (he : e.rest = []) (h : Reads s slots e) :
    Ensures (document kinds) s (fun a _ => a = d.map Token.span) fun _ => False := by
  have h : Reads s (slots ++ []) e := by simpa using h
  refine .bind (complete_block (complete_statement? hk) rejects_statement? beginsWith_statement
    (by decide) (by decide) he hd h next_nil) ?_
  rintro _ q ⟨rfl, hs, h⟩
  refine .bind (.discard (Q := fun _ _ => True) (.expect (fun _ _ => trivial) fun hnone => ?_))
    fun _ _ _ => .pure rfl
  have hrest : q.rest = [] := by
    rw [← hs, show q.skip = e.skip from h, Place.skip, he]
    rfl
  simp [Pattern.end?, hrest] at hnone

end SchemaText
