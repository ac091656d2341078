import SchemaText.Proofs.Grammar.Following
import SchemaText.Proofs.Grammar.Sound.Attribute

/-!
Attributes and blocks that are there are read as what they are.
-/
namespace SchemaText

open Grammar Parse

variable {s q e : Place} {pattern : Pattern} {token : Token} {more : List (Slot Token)}
  {patterns : List Pattern} {E : Mismatch → Prop}

/-! ### Single tokens -/

theorem Reads.expect {others mistakes : List Pattern} (h : Reads q ((pattern, token) :: more) e) :
    Ensures (expect pattern others mistakes) q.skip
      (fun a r => a = token.span ∧ Reads r more e) E := by
  obtain ⟨r, -, hr, rfl, hm⟩ := h
  refine .expect (fun r' hr' => ?_) fun hn => ?_
  · obtain rfl := Option.some.inj (hr.symm.trans hr')
    exact ⟨rfl, hm⟩
  · simp [hn] at hr

theorem Reads.accept (h : Reads q ((pattern, token) :: more) e) :
    Ensures (accept pattern) q.skip (fun a r => a = some token.span ∧ Reads r more e) E := by
  obtain ⟨r, -, hr, rfl, hm⟩ := h
  refine .accept (fun r' hr' => ?_) fun hn => ?_
  · obtain rfl := Option.some.inj (hr.symm.trans hr')
    exact ⟨rfl, hm⟩
  · simp [hn] at hr

/-- A token at a place without trivia. -/
theorem Reads.accept_here (hs : s.skip = s) (h : Reads s ((pattern, token) :: more) e) :
    Ensures (Parse.accept pattern) s (fun a r => a = some token.span ∧ Reads r more e) E := by
  have := h.accept (E := E)
  rwa [hs] at this

theorem Reads.optional {token : Option Token} (h : Reads q (optionalSlot pattern token ++ more) e)
    (he : e.rest = []) (hp : Lexical pattern) (hn : Next patterns more)
    (ha : ∀ p ∈ patterns, apart pattern p) :
    Ensures (Parse.accept pattern) q.skip
      (fun a r => a = token.map Token.span ∧ Reads r more e) E := by
  cases token with
  | none =>
    have hnone : pattern.end? q.skip = none :=
      (h.congr_left (s := q.skip) q.skip_skip).end?_eq_none he q.skip_skip hp hn ha
    refine .accept (fun r hr => ?_) fun _ => ⟨rfl, h.congr_left q.skip_skip⟩
    simp [hnone] at hr
  | some token => exact Reads.accept h

/-! ### Productions -/

section Productions

variable {α β : Type}

/-- Behind trivia, a production finds a node of the given form if it is there and is followed by one
of the given patterns or by nothing. -/
def Complete (item : Parse (Option α)) (view : β → α) (form : β → List (Slot Token) → Prop)
    (next : List Pattern) : Prop :=
  ∀ ⦃s e : Place⦄ ⦃t : β⦄ ⦃slots more : List (Slot Token)⦄, s.skip = s → e.rest = [] →
    form t slots → Reads s (slots ++ more) e → Next next more →
    Ensures item s (fun a q => a = some (view t) ∧ Reads q more e) fun _ => False

/-- Behind trivia, a production does not match one of the given patterns, nor the end of a text. -/
def Rejects (item : Parse (Option α)) (next : List Pattern) : Prop :=
  ∀ ⦃s e : Place⦄ ⦃more : List (Slot Token)⦄, s.skip = s → e.rest = [] → Reads s more e →
    Next next more → Ensures item s (fun a q => a = none ∧ q = s) fun _ => False

/-- Nodes of the form begin with one of the given patterns. -/
def BeginsWith (form : β → List (Slot Token) → Prop) (first : List Pattern) : Prop :=
  ∀ ⦃t : β⦄ ⦃slots : List (Slot Token)⦄, form t slots → ∃ slot rest, slots = slot :: rest ∧
    slot.1 ∈ first

/-- The patterns that begin attributes. -/
def introducers : List Pattern := [introducer .inner, introducer .outer]

theorem mem_introducers (kind : AttributeKind) : introducer kind ∈ introducers := by
  cases kind <;> simp [introducers]

end Productions

/-! ### Attributes -/

theorem complete_attribute? {next : List Pattern} (ha : ∀ p ∈ next, apart (.token content) p) :
    Complete attribute? (Attribute.map Token.span) (fun a slots => slots = a.slots) next := by
  rintro s e ⟨kind, symbol, name, content⟩ _ more hs he rfl h hn
  refine .bind (R := fun a q => a = some (kind, symbol.span) ∧
    Reads q ((word, name) :: optionalSlot (.token Grammar.content) content ++ more) e) ?_ ?_
  · obtain ⟨q, hl, hq, rfl, hr⟩ := h
    rw [hs] at hq ⊢
    refine Ensures.choice (f := introduced?) (l := [.inner, .outer])
      (F := fun kind => (introducer kind).end? s = none) ?_ ?_
    · intro kind' _
      refine .map (.accept (fun q' hq' => ?_) fun h => h)
      have hkind : kind' = kind := kind_eq_of_introducer
        (apart_eq_false_of_end? hs (lexical_introducer kind') hl hq' hq)
      subst hkind
      obtain rfl := Option.some.inj (hq.symm.trans hq')
      exact ⟨⟨rfl, hr⟩, by simp [hq]⟩
    · intro hall
      have := hall kind (by cases kind <;> simp)
      simp [hq] at this
  · rintro _ q ⟨rfl, h⟩
    refine .afterTrivia ?_
    refine .bind h.expect ?_
    rintro _ q ⟨rfl, h⟩
    refine .afterTrivia ?_
    refine .bind (h.optional he (by decide) hn ha) ?_
    rintro _ q ⟨rfl, h⟩
    exact .pure ⟨rfl, h⟩

theorem rejects_attribute? {next : List Pattern}
    (ha : ∀ i ∈ introducers, ∀ p ∈ next, apart i p) : Rejects attribute? next := by
  intro s e more hs he h hn
  have hnone : ∀ kind, (introducer kind).end? s = none := fun kind =>
    h.end?_eq_none he hs (lexical_introducer kind) hn (ha _ (mem_introducers kind))
  refine .bind (R := fun a q => a = none ∧ q = s) ?_ ?_
  · refine Ensures.choice (f := introduced?) (l := [.inner, .outer])
      (F := fun kind => (introducer kind).end? s = none) ?_ fun _ => ⟨rfl, rfl⟩
    intro kind _
    refine .map (.accept (fun q hq => ?_) fun h => h)
    simp [hnone kind] at hq
  · rintro _ q ⟨rfl, rfl⟩
    exact .pure ⟨rfl, rfl⟩

theorem next_attributeSlots (run : List (Attribute Token)) :
    Next introducers (attributeSlots run) := by
  cases run with
  | nil => exact next_nil
  | cons a run => exact next_cons (mem_introducers a.kind)

theorem complete_attributes {next : List Pattern} {run : List (Attribute Token)} (he : e.rest = [])
    (h : Reads s (attributeSlots run ++ more) e) (hn : Next next more)
    (hc : ∀ p ∈ next, apart (.token content) p)
    (hi : ∀ i ∈ introducers, ∀ p ∈ next, apart i p) :
    Ensures attributes s (fun found q =>
      found = ((run.filter (·.kind.isInner)).map (Attribute.map Token.span),
        (run.filter (!·.kind.isInner)).map (Attribute.map Token.span)) ∧
      q.skip = q ∧ Reads q more e) fun _ => False := by
  refine .bind (R := fun all q => all = run.map (Attribute.map Token.span) ∧ q.skip = q ∧
    Reads q more e) (.many (fun all q => ∃ done rest, run = done ++ rest ∧
      all = done.map (Attribute.map Token.span) ∧ Reads q (attributeSlots rest ++ more) e)
      ⟨[], run, rfl, rfl, h⟩ ?_) ?_
  · rintro _ q ⟨done, rest, rfl, rfl, h⟩
    refine .afterTrivia ?_
    have h : Reads q.skip (attributeSlots rest ++ more) e := h.congr_left q.skip_skip
    cases rest with
    | nil =>
      refine (rejects_attribute? hi q.skip_skip he h hn).mono ?_ fun _ => id
      rintro _ r ⟨rfl, rfl⟩
      exact ⟨by simp, q.skip_skip, h⟩
    | cons a rest =>
      have hnext : Next (introducers ++ next) (attributeSlots rest ++ more) :=
        (next_attributeSlots rest).append hn
      have ha : ∀ p ∈ introducers ++ next, apart (.token content) p :=
        List.forall_mem_append.2 ⟨by decide, hc⟩
      have h : Reads q.skip (a.slots ++ (attributeSlots rest ++ more)) e := by
        simpa [attributeSlots] using h
      refine (complete_attribute? ha q.skip_skip he rfl h hnext).mono ?_ fun _ => id
      rintro _ r ⟨rfl, h⟩
      exact ⟨done ++ [a], rest, by simp, by simp, h⟩
  · rintro _ q ⟨rfl, hs, h⟩
    refine .pure ⟨?_, hs, h⟩
    rw [partition_map]

/-! ### Blocks -/

/-- What follows an item of a block. -/
theorem next_chunks {β : Type} {first last : List Pattern} {chunks : List (Chunk Token β)}
    (hfirst : ∀ c ∈ chunks, ∃ slot rest, c.slots = slot :: rest ∧ slot.1 ∈ first)
    (hn : Next (introducers ++ last) more) :
    Next (introducers ++ first ++ last) (chunks.flatMap Chunk.written ++ more) := by
  cases chunks with
  | nil => exact hn.mono (by simp [List.append_subset])
  | cons c chunks =>
    obtain ⟨slot, rest, hslots, hmem⟩ := hfirst c (by simp)
    have hc : Next first (c.slots ++ (chunks.flatMap Chunk.written ++ more)) := by
      rw [hslots]
      exact next_cons hmem
    have := (next_attributeSlots c.run).append hc
    simpa [Chunk.written] using this.mono (List.subset_append_left _ last)

section Block

variable {α β : Type} [HasAttributes α Span] [HasAttributes β Token] {item : Parse (Option α)}
  {view : β → α} [AttributesMap Token.span view] {form : β → List (Slot Token) → Prop}
  {first last orphans : List Pattern}

/-- A block is found if its items are, and if an item or what follows the block is told from an
attribute by its first token. -/
theorem complete_block {attributes : List (Attribute Token)} {nodes : List β}
    {slots : List (Slot Token)} (hitem : Complete item view form (introducers ++ first ++ last))
    (hrej : Rejects item last)
    (hfirst : BeginsWith form first)
    (hc : ∀ p ∈ first ++ last, apart (.token content) p)
    (hi : ∀ i ∈ introducers, ∀ p ∈ first ++ last, apart i p) (he : e.rest = [])
    (hb : BlockWritten form attributes nodes slots) (h : Reads s (slots ++ more) e)
    (hn : Next last more) : Ensures (block orphans item) s
      (fun found q => found = (attributes.map (Attribute.map Token.span), nodes.map view) ∧
        q.skip = q ∧ Reads q more e) fun _ => False := by
  obtain ⟨chunks, final, hform, hfinal, rfl, rfl, rfl⟩ := hb
  refine .loop (fun state q => ∃ done rest, chunks = done ++ rest ∧
    state.1.toList = (done.flatMap Chunk.inner).map (Attribute.map Token.span) ∧
    state.2.toList = (done.map Chunk.result).map view ∧
    Reads q (rest.flatMap Chunk.written ++ attributeSlots final ++ more) e)
    ⟨[], chunks, rfl, rfl, rfl, h⟩ ?_
  rintro ⟨found, items⟩ q ⟨done, rest, rfl, hf, hi', h⟩
  simp only at hf hi'
  cases rest with
  | nil =>
    refine .bind (complete_attributes he h hn (fun p hp => hc p (List.mem_append_right _ hp))
      fun i hi' p hp => hi i hi' p (List.mem_append_right _ hp)) ?_
    rintro _ q ⟨rfl, hs, h⟩
    refine .bind (hrej hs he h hn) ?_
    rintro _ _ ⟨rfl, rfl⟩
    rw [filter_not_isInner hfinal, filter_isInner hfinal]
    exact .pure ⟨by simp [hf, hi'], hs, h⟩
  | cons c rest =>
    obtain ⟨slot, tail, hslots, hmem⟩ := hfirst (hform c (by simp))
    have h : Reads q (attributeSlots c.run ++ (c.slots ++
        (rest.flatMap Chunk.written ++ attributeSlots final ++ more))) e := by
      simpa [Chunk.written] using h
    have hnext : Next first (c.slots ++ (rest.flatMap Chunk.written ++ attributeSlots final ++
      more)) := by
      rw [hslots]
      exact next_cons hmem
    refine .bind (complete_attributes he h hnext (fun p hp => hc p (List.mem_append_left _ hp))
      fun i hi' p hp => hi i hi' p (List.mem_append_left _ hp)) ?_
    rintro _ q ⟨rfl, hs, h⟩
    have hnext : Next (introducers ++ first ++ last)
        (rest.flatMap Chunk.written ++ (attributeSlots final ++ more)) :=
      next_chunks (fun d hd => hfirst (hform d (by simp [hd])))
        ((next_attributeSlots final).append hn)
    rw [← List.append_assoc] at hnext
    refine .bind (hitem hs he (hform c (by simp)) h hnext) ?_
    rintro _ q ⟨rfl, h⟩
    refine .pure ⟨done ++ [c], rest, by simp, ?_, ?_, h⟩
    · simp [hf, Chunk.inner]
    · simp [hi', Chunk.result, Chunk.outer, AttributesMap.map_prepend (f := Token.span)]

end Block

end SchemaText
