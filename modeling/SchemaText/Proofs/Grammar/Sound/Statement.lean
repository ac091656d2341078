import SchemaText.Proofs.Grammar.Sound.Import

/-!
What statements and documents read, and where they fail.
-/
namespace SchemaText

open Grammar Parse

variable {s q : Place} {n N : Nat}

theorem sound_custom? : Sound 3 custom? (Custom.map Token.span)
    (fun c slots => c.attributes = [] ∧ slots = c.ownSlots)
    ((Grammar.keyword .custom).end? · = none) := by
  intro s hs
  refine .bind (ensures_accept (Grammar.keyword .custom) (by decide) hs) ?_
  rintro (_ | _) q hq
  · exact .pure hq
  obtain ⟨keyword, _, rfl, rfl, hr⟩ := hq
  refine .afterTrivia ?_
  refine .bind (ensures_expect hr (.inl rfl) (by decide) [word, equals, word]
    (by decide) ?_) ?_
  · simp only [forall_map_fst_cons, forall_map_fst_nil]
    intro name equals valueType
    exact ⟨{ keyword, name, equals, type := .ofName valueType }, rfl, rfl⟩
  rintro _ q ⟨name, rfl, hr⟩
  refine .afterTrivia ?_
  refine .bind (ensures_expect hr (.inr rfl) (by decide) [equals, word] (by decide) ?_) ?_
  · simp only [forall_map_fst_cons, forall_map_fst_nil]
    intro equals valueType
    exact ⟨{ keyword, name, equals, type := .ofName valueType }, rfl, rfl⟩
  rintro _ q ⟨equals, rfl, hr⟩
  refine .afterTrivia ?_
  refine .bind (ensures_type hr [] (by decide) (by decide) ?_) ?_
  · intro type
    rw [forall_map_fst_nil]
    exact ⟨{ keyword, name, equals, type }, rfl, by simp [Custom.ownSlots]⟩
  rintro _ q ⟨type, rfl, hr⟩
  exact .pure ⟨{ keyword, name, equals, type }, _, rfl, ⟨rfl, rfl⟩, hr⟩

/-! ### Signatures -/

theorem ensures_throws? : Ensures throws? s
    (fun t q => match t with
      | some t => ∃ t' : Throws Token, t = t'.map Token.span ∧ Reads s t'.slots q
      | none => True)
    (Stuck 1 (fun slots => ∃ t : Throws Token, slots = t.slots) s) := by
  refine .afterTrivia ?_
  refine .bind (ensures_optional keywordThrows (by decide) (.refl s)) ?_
  rintro _ q ⟨_ | keyword, rfl, hr, -⟩
  · exact .pure trivial
  refine .afterTrivia ?_
  refine .bind (ensures_type hr [] (by decide) (by decide) ?_) ?_
  · intro type
    rw [forall_map_fst_nil]
    exact ⟨{ keyword, type }, by simp [Throws.slots, optionalSlot]⟩
  rintro _ q ⟨type, rfl, hr⟩
  exact .pure ⟨{ keyword, type }, rfl, hr⟩

theorem sound_proc? : Sound 5 proc? (Proc.map Token.span)
    (fun p slots => p.attributes = [] ∧ slots = p.ownSlots)
    ((Grammar.keyword .proc).end? · = none) := by
  intro s hs
  refine .bind (ensures_accept (Grammar.keyword .proc) (by decide) hs) ?_
  rintro (_ | _) q hq
  · exact .pure hq
  obtain ⟨keyword, _, rfl, rfl, hr⟩ := hq
  refine .afterTrivia ?_
  refine .bind (ensures_expect hr (.inl rfl) (by decide)
    [word, equals, word, arrow, word] (by decide) ?_) ?_
  · simp only [forall_map_fst_cons, forall_map_fst_nil]
    intro name equals input arrow output
    exact ⟨{ keyword, name, equals, input := .ofName input, arrow, output := .ofName output,
             throws := none }, rfl, rfl⟩
  rintro _ q ⟨name, rfl, hr⟩
  refine .afterTrivia ?_
  refine .bind (ensures_expect hr (.inr rfl) (by decide) [equals, word, arrow, word]
    (by decide) ?_) ?_
  · simp only [forall_map_fst_cons, forall_map_fst_nil]
    intro equals input arrow output
    exact ⟨{ keyword, name, equals, input := .ofName input, arrow, output := .ofName output,
             throws := none }, rfl, rfl⟩
  rintro _ q ⟨equals, rfl, hr⟩
  refine .afterTrivia ?_
  refine .bind (ensures_type hr [arrow, word] (by decide) (by decide) ?_) ?_
  · simp only [forall_map_fst_cons, forall_map_fst_nil]
    intro input arrow output
    exact ⟨{ keyword, name, equals, input, arrow, output := .ofName output, throws := none }, rfl,
      by simp [Proc.ownSlots, TypeExpression.slots, TypeExpression.ofName]⟩
  rintro _ q ⟨input, rfl, hr⟩
  refine .afterTrivia ?_
  refine .bind (ensures_expect hr (.inr rfl) (by decide) [arrow, word] (by decide) ?_) ?_
  · simp only [forall_map_fst_cons, forall_map_fst_nil]
    intro arrow output
    exact ⟨{ keyword, name, equals, input, arrow, output := .ofName output, throws := none }, rfl,
      by simp [Proc.ownSlots, TypeExpression.slots, TypeExpression.ofName]⟩
  rintro _ q ⟨arrow, rfl, hr⟩
  refine .afterTrivia ?_
  refine .bind (ensures_type hr [] (by decide) (by decide) ?_) ?_
  · intro output
    rw [forall_map_fst_nil]
    exact ⟨{ keyword, name, equals, input, arrow, output, throws := none }, rfl,
      by simp [Proc.ownSlots]⟩
  rintro _ q ⟨output, rfl, hr⟩
  refine .bind (.attempt (Q := fun t q => ∃ throws : Option (Throws Token),
    t = throws.map (Throws.map Token.span) ∧
    Reads s (Proc.ownSlots { keyword, name, equals, input, arrow, output, throws }) q)
    (ensures_throws?.mono ?_ fun m h => ?_)) ?_
  · rintro (_ | _) r ht
    · exact ⟨none, rfl, by simpa [Proc.ownSlots] using hr⟩
    · obtain ⟨t, rfl, ht⟩ := ht
      exact ⟨some t, rfl, by simpa [Proc.ownSlots] using hr.append ht⟩
  · refine h.after hr (by decide) ?_
    rintro _ ⟨t, rfl⟩
    exact ⟨{ keyword, name, equals, input, arrow, output, throws := some t }, rfl,
      by simp [Proc.ownSlots]⟩
  rintro _ q ⟨throws, rfl, hr⟩
  exact .pure ⟨{ keyword, name, equals, input, arrow, output, throws }, _, rfl, ⟨rfl, rfl⟩, hr⟩

/-! ### Statements -/

def Statement.Unambiguous {τ : Type} (text : τ → List Char) : Statement τ → Prop
  | imports node => node.Unambiguous text
  | _ => True

/-- The tokens of a statement may stand in a source in this order, and are read as that
statement. -/
def Statement.Readable (st : Statement Token) (slots : List (Slot Token)) : Prop :=
  st.Written slots ∧ st.Unambiguous Token.text

/-- A statement begins with its keyword. -/
theorem Statement.Written.eq_cons {τ : Type} {st : Statement τ} {slots : List (Slot τ)}
    (h : st.Written slots) : ∃ rest, slots = (Grammar.keyword st.kind, st.keyword) :: rest := by
  cases st with
  | imports node =>
    obtain ⟨-, -, rfl⟩ := h
    exact ⟨_, rfl⟩
  | custom node =>
    obtain ⟨-, rfl⟩ := h
    exact ⟨_, rfl⟩
  | proc node =>
    obtain ⟨-, rfl⟩ := h
    exact ⟨_, rfl⟩
  | enum node | oneof node | struct node | union node =>
    obtain ⟨inner, -, rfl⟩ := h
    exact ⟨_, rfl⟩

theorem Sound.wrap {α α' β β' : Type} {p : Parse (Option α)} {view : β → α} {view' : β' → α'}
    {form : β → List (Slot Token) → Prop} {form' : β' → List (Slot Token) → Prop}
    {fails : Place → Prop} {wrap : α → α'} (h : Sound n p view form fails) (node : β → β')
    (hN : n ≤ N) (hv : ∀ t, wrap (view t) = view' (node t))
    (hf : ∀ t slots, form t slots → form' (node t) slots) :
    Sound N (do return (← p).map wrap) view' form' fails := by
  intro s hs
  refine .map ((h s hs).mono ?_ fun m hm => ?_)
  · rintro (_ | _) q hq
    · exact hq
    · obtain ⟨t, slots, rfl, ht, hr⟩ := hq
      exact ⟨node t, slots, hv t, hf t slots ht, hr⟩
  · refine hm.after (.refl s) hN ?_
    rintro slots ⟨t, ht⟩
    exact ⟨node t, hf t slots ht⟩

theorem exists_word (more : List (Slot Token)) (h : more.map Prod.fst = [word]) :
    ∃ name : Token, more = [(word, name)] := by
  revert h more
  simp only [forall_map_fst_cons, forall_map_fst_nil]
  exact fun name => ⟨name, rfl⟩

theorem exists_type (more : List (Slot Token)) (h : more.map Prod.fst = [word]) :
    ∃ t : TypeExpression Token, more = t.slots := by
  obtain ⟨valueType, rfl⟩ := exists_word more h
  exact ⟨.ofName valueType, rfl⟩

theorem exists_structField (more : List (Slot Token))
    (h : more.map Prod.fst = [word, colon, word]) :
    ∃ f : StructField Token, more = f.slots := by
  revert h more
  simp only [forall_map_fst_cons, forall_map_fst_nil]
  exact fun name colon valueType => ⟨{ name, question := none, colon, type := .ofName valueType },
    rfl⟩

theorem exists_variant (more : List (Slot Token)) (h : more.map Prod.fst = [word]) :
    ∃ v : Variant Token, v.Written more := by
  obtain ⟨name, rfl⟩ := exists_word more h
  exact ⟨{ name, body := none }, [], rfl, rfl⟩

theorem sound_statementOf (kind : StatementKind) : Sound 6 (statementOf kind)
    (Statement.map Token.span) (fun st slots => st.kind = kind ∧ st.Readable slots)
    ((Grammar.keyword kind).end? · = none) := by
  cases kind with
  | custom =>
    exact sound_custom?.wrap .custom (by decide) (fun _ => rfl) fun _ _ h => ⟨rfl, h, trivial⟩
  | enum =>
    exact (sound_declaration? .enum (sound_accept (n := 0) word (by decide)) (N := 2) [word]
      (by decide) exists_word (by decide) (by decide) (by decide)).wrap .enum (by decide)
      (fun _ => rfl) fun _ _ h => ⟨rfl, h, trivial⟩
  | imports => exact sound_import?.wrap .imports (by decide) (fun _ => rfl) fun _ _ h => ⟨rfl, h⟩
  | oneof =>
    exact (sound_declaration? .oneof sound_type? (N := 2) [word] (by decide) exists_type (by decide)
      (by decide) (by decide)).wrap .oneof (by decide) (fun _ => rfl)
      fun _ _ h => ⟨rfl, h, trivial⟩
  | proc =>
    exact sound_proc?.wrap .proc (by decide) (fun _ => rfl) fun _ _ h => ⟨rfl, h, trivial⟩
  | struct =>
    exact (sound_declaration? .struct sound_field? (N := 4) [word, colon, word]
      (by decide) exists_structField
      (by decide) (by decide) (by decide)).wrap .struct (by decide) (fun _ => rfl)
      fun _ _ h => ⟨rfl, h, trivial⟩
  | union =>
    exact (sound_declaration? .union sound_variant? (N := 5) [word] (by decide) exists_variant
      (by decide) (by decide) (by decide)).wrap .union (by decide) (fun _ => rfl)
      fun _ _ h => ⟨rfl, h, trivial⟩

theorem sound_statement? (kinds : List StatementKind) : Sound 6 (statement? kinds)
    (Statement.map Token.span) Statement.Readable
    (fun q => ∀ kind ∈ kinds, (Grammar.keyword kind).end? q = none) := by
  intro s hs
  refine .bind (.choice (Q := Found (Statement.map Token.span) Statement.Readable
    (fun q => ∀ kind ∈ kinds, (Grammar.keyword kind).end? q = none) s)
    (F := fun kind => (Grammar.keyword kind).end? s = none) ?_ fun h => ⟨rfl, h⟩) ?_
  · intro kind _
    refine (sound_statementOf kind s hs).mono ?_ fun m h => ?_
    · rintro (_ | _) q hq
      · exact hq.2
      · obtain ⟨st, slots, rfl, ⟨rfl, hst⟩, hr⟩ := hq
        refine ⟨⟨st, slots, rfl, hst, hr⟩, ?_⟩
        obtain ⟨rest, rfl⟩ := hst.1.eq_cons
        obtain ⟨r, -, hk, -⟩ := hr
        rw [hs] at hk
        simp [hk]
    · refine h.after (.refl s) (by decide) ?_
      rintro slots ⟨st, -, hst⟩
      exact ⟨st, hst⟩
  · rintro (_ | _) q hq
    · exact .pure hq
    · exact .bind (.record hq) fun _ _ h => .pure h

/-! ### Documents -/

/-- The tokens of a document may stand in a source in this order, and are read as that document. -/
def Document.Readable (d : Document Token) (slots : List (Slot Token)) : Prop :=
  BlockWritten Statement.Readable d.attributes d.statements slots

def Document.Unambiguous {τ : Type} (text : τ → List Char) (d : Document τ) : Prop :=
  ∀ st ∈ d.statements, st.Unambiguous text

@[simp] theorem Statement.unambiguous_prepend {τ : Type} {text : τ → List Char}
    (leading : List (Attribute τ)) (st : Statement τ) :
    (prepend leading st).Unambiguous text ↔ st.Unambiguous text := by
  cases st <;> exact Iff.rfl

theorem Document.readable_iff {d : Document Token} {slots : List (Slot Token)} :
    d.Readable slots ↔ d.Written slots ∧ d.Unambiguous Token.text := by
  have hresult : ∀ chunks : List (Chunk Token (Statement Token)),
      (∀ st ∈ chunks.map Chunk.result, st.Unambiguous Token.text) ↔
        ∀ c ∈ chunks, c.node.Unambiguous Token.text := by
    simp [Chunk.result]
  constructor
  · rintro ⟨chunks, last, hc, ha, hd, hst, h⟩
    refine ⟨⟨chunks, last, fun c hm => (hc c hm).1, ha, hd, hst, h⟩, ?_⟩
    rw [Document.Unambiguous, hst, hresult]
    exact fun c hm => (hc c hm).2
  · rintro ⟨⟨chunks, last, hc, ha, hd, hst, h⟩, hu⟩
    rw [Document.Unambiguous, hst, hresult] at hu
    exact ⟨chunks, last, fun c hm => ⟨hc c hm, hu c hm⟩, ha, hd, hst, h⟩

/-- What is left out at the end of a text can be a statement. -/
theorem exists_statement (more : List (Slot Token))
    (h : more.map Prod.fst = [Grammar.keyword .enum, word, braceOpen, braceClose]) :
    ∃ st : Statement Token, st.Readable more := by
  revert h more
  simp only [forall_map_fst_cons, forall_map_fst_nil]
  intro keyword name opening closing
  exact ⟨.enum { keyword, name, opening, entries := [], closing },
    ⟨[], ⟨[], [], by simp, by simp, rfl, rfl, rfl⟩, rfl⟩, trivial⟩

/-- A document is read to the end. It fails where a document could have ended, or where at most six
more tokens would have completed it. -/
theorem ensures_document {kinds : List StatementKind} (hall : StatementKind.all ⊆ kinds) :
    Ensures (document kinds) s
    (fun d q => ∃ (t : Document Token) (slots : List (Slot Token)), d = t.map Token.span ∧
      t.Readable slots ∧ Reads s slots q ∧ q.rest = [])
    (fun m => (.endOfInput ∈ m.expected ∧ ∃ (t : Document Token) (slots : List (Slot Token))
        (e : Place), t.Readable slots ∧ Reads s slots e ∧ e.skip = e ∧ Raised slots e m) ∨
      Stuck 6 (fun slots => ∃ t : Document Token, t.Readable slots) s m) := by
  have hkeywords : ∀ q : Place, (∀ kind ∈ kinds, (Grammar.keyword kind).end? q = none) →
      ∀ p ∈ keywords, p.end? q = none :=
    fun q hq => List.forall_mem_map.2 fun kind hk => hq kind (hall hk)
  refine .bind ((ensures_block (N := 6) (sound_statement? kinds)
    [Grammar.keyword .enum, word, braceOpen, braceClose] (by decide) exists_statement
    (by decide) (.inl hkeywords) (by decide) (by decide)).mono (fun _ _ h => h) fun m h =>
    .inr ?_) ?_
  · refine h.after (.refl s) (by decide) ?_
    rintro slots ⟨attributes, statements, h⟩
    exact ⟨{ attributes, statements }, h⟩
  · rintro _ q ⟨attributes, statements, slots, rfl, hb, hr, hskip, hfails⟩
    refine .bind (.discard (Q := fun _ r => r = q ∧ q.rest = []) (.expect (fun r h => ?_)
      fun h => ?_)) ?_
    · simp only [Pattern.end?] at h
      split at h
      · next he => exact ⟨(Option.some.inj h).symm, List.isEmpty_iff.1 he⟩
      · simp at h
    · exact .inl ⟨by simp, { attributes, statements }, slots, q, hb, hr, hskip, rfl, rfl, .inr rfl,
        .inl (List.forall_mem_cons.2 ⟨h, hkeywords q hfails⟩)⟩
    · rintro _ r ⟨rfl, hrest⟩
      exact .pure ⟨{ attributes, statements }, slots, rfl, hb, hr, hrest⟩

end SchemaText
