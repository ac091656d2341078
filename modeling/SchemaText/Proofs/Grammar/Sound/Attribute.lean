import SchemaText.Grammar.Attribute
import SchemaText.Proofs.Grammar.Reading

/-!
What trivia, attributes and blocks read, and where they fail.
-/
namespace SchemaText

open Grammar Parse

variable {s q r e : Place}

/-! ### Trivia -/

theorem skip_of_whitespace (h : (Pattern.token whitespace).end? q = some r) : q.skip = r.skip := by
  obtain ⟨c, -, -, rfl⟩ := end?_whitespace_iff.1 h
  refine (q.passes_passWhile isBlank).skip_eq (closedTrivia_of_blanks ?_)
  exact fun c hc => List.all_eq_true.1 List.all_takeWhile c hc

theorem skip_of_comment (h : (Pattern.token comment).end? q = some r) : q.skip = r.skip := by
  obtain ⟨text, hp, line, hn, rfl | ⟨rfl, hr⟩⟩ := end?_comment_iff.1 h
  · refine hp.skip_eq ?_
    have := ClosedTrivia.comment hn .nil
    simpa using this
  · have hd : dropTrivia false q.rest = [] := by
      rw [hp.1, dropTrivia_comment hn, hr]
      rfl
    have hb := hp.bytes_eq
    have ho := hp.2
    obtain ⟨o, t⟩ := r
    simp only at hr ho
    simp only [Place.skip, hd, hr, byteLength_nil, Place.mk.injEq, dropTrivia, and_true]
    rw [Place.bytes, Place.bytes, hr, byteLength_nil] at hb
    omega

theorem skip_of_no_trivia (hw : (Pattern.token whitespace).end? q = none)
    (hc : (Pattern.token comment).end? q = none) : q.skip = q := by
  have hd : dropTrivia false q.rest = q.rest := by
    cases hr : q.rest with
    | nil => rfl
    | cons c rest =>
      rw [dropTrivia, if_neg, if_neg]
      · rintro ⟨rfl, hh⟩
        obtain ⟨rest, rfl⟩ := List.head?_eq_some_iff.1 hh
        obtain ⟨text, r, hp, hl⟩ := exists_lineRest ⟨q.offset + 2, rest⟩
        have h1 : q.Passes ['/', '/'] ⟨q.offset + 2, rest⟩ := ⟨hr, rfl⟩
        have := end?_comment_iff.2 ⟨text, h1.trans hp, hl⟩
        simp [hc] at this
      · intro hb
        have := end?_whitespace_iff.2 ⟨c, by rw [hr]; rfl, hb, rfl⟩
        simp [hw] at this
  simp [Place.skip, hd]

theorem ensures_trivia {bad : Mismatch → Prop} : Ensures trivia s (fun _ q => q = s.skip) bad := by
  refine Ensures.loop (fun _ q => s.skip = q.skip) rfl fun _ q hq => ?_
  refine .bind (R := fun a r => a.elim (r = q ∧ (Pattern.token whitespace).end? q = none)
    fun _ => s.skip = r.skip)
    (.accept (fun r h => hq.trans (skip_of_whitespace h)) fun h => ⟨rfl, h⟩) ?_
  rintro (_ | span) r hr
  · obtain ⟨rfl, hw⟩ := hr
    refine .bind (R := fun a r' => a.elim (r' = r ∧ (Pattern.token comment).end? r = none)
      fun _ => s.skip = r'.skip)
      (.accept (fun r' h => hq.trans (skip_of_comment h)) fun h => ⟨rfl, h⟩) ?_
    rintro (_ | span) r' hr'
    · obtain ⟨rfl, hc⟩ := hr'
      refine .pure ?_
      rw [hq, skip_of_no_trivia hw hc]
    · exact .pure hr'
  · exact .pure hr

theorem Parse.Ensures.afterTrivia {β : Type} {f : Unit → Parse β} {Q : β → Place → Prop}
    {E : Mismatch → Prop} (h : Ensures (f ()) s.skip Q E) : Ensures (trivia >>= f) s Q E := by
  refine .bind ensures_trivia ?_
  rintro _ _ rfl
  exact h

/-! ### Productions -/

variable {α β : Type} {n : Nat} {item : Parse (Option α)} {view : β → α}
  {form : β → List (Slot Token) → Prop} {fails : Place → Prop}

/-- What a production that may find nothing makes of the text at `s`: a node of the given form, or
nothing, which says something about the place. -/
def Found (view : β → α) (form : β → List (Slot Token) → Prop) (fails : Place → Prop) (s : Place) :
    Option α → Place → Prop
  | some a, q => ∃ t slots, a = view t ∧ form t slots ∧ Reads s slots q
  | none, q => q = s ∧ fails s

/-- Behind trivia, a production finds nodes of a form, and where it fails at most `n` tokens are
missing. -/
def Sound (n : Nat) (item : Parse (Option α)) (view : β → α)
    (form : β → List (Slot Token) → Prop) (fails : Place → Prop) : Prop :=
  ∀ s : Place, s.skip = s →
    Ensures item s (Found view form fails s) (Stuck n (fun slots => ∃ t, form t slots) s)

theorem Reads.of_skip_eq {pattern : Pattern} (hp : Lexical pattern) (hs : s.skip = s)
    (h : pattern.end? s = some q) : Reads s [(pattern, .between s q)] q :=
  ⟨q, hp, by rw [hs, h], by rw [hs], rfl⟩

theorem ensures_accept {bad : Mismatch → Prop} (pattern : Pattern) (hp : Lexical pattern)
    (hs : s.skip = s) : Ensures (accept pattern) s (Found Token.span
      (fun t slots => slots = [(pattern, t)]) (pattern.end? · = none) s) bad :=
  .accept (fun q h => ⟨.between s q, _, rfl, rfl, .of_skip_eq hp hs h⟩) fun h => ⟨rfl, h⟩

theorem sound_accept (pattern : Pattern) (hp : Lexical pattern) :
    Sound n (accept pattern) Token.span
    (fun t slots => slots = [(pattern, t)]) (pattern.end? · = none) :=
  fun _ hs => ensures_accept pattern hp hs

theorem sound_introducer : Sound 0 (choice [introduced? .inner, introduced? .outer])
    (fun t : AttributeKind × Token => (t.1, t.2.span))
    (fun t slots => slots = [(introducer t.1, t.2)])
    (fun q => ∀ kind, (introducer kind).end? q = none) := by
  intro s hs
  refine Ensures.choice (f := introduced?) (l := [.inner, .outer])
    (F := fun kind => (introducer kind).end? s = none) ?_ ?_
  · intro kind _
    refine .map (.accept (fun q h => ?_) fun h => h)
    exact ⟨⟨(kind, .between s q), _, rfl, rfl, .of_skip_eq
      (lexical_introducer kind) hs h⟩, by simp [h]⟩
  · intro h
    refine ⟨rfl, ?_⟩
    rintro (_ | _)
    · exact h _ (by simp)
    · exact h _ (by simp)

theorem sound_attribute? : Sound 1 attribute? (Attribute.map Token.span)
    (fun a slots => slots = a.slots) (fun q => ∀ kind, (introducer kind).end? q = none) := by
  intro s hs
  refine .bind ((sound_introducer s hs).mono (fun _ _ h => h) fun m h => ?_) ?_
  · refine h.within (.refl s) [word] (by decide) (by decide) ?_
    rintro _ ⟨⟨kind, symbol⟩, rfl⟩
    simp only [forall_map_fst_cons, forall_map_fst_nil]
    intro name
    exact ⟨{ kind, symbol, name, content := none }, rfl⟩
  · rintro (_ | ⟨kind, symbol⟩) q hq
    · exact .pure hq
    · obtain ⟨⟨_, symbol⟩, _, hk, rfl, hr⟩ := hq
      obtain ⟨rfl, rfl⟩ := Prod.mk.inj hk
      refine .afterTrivia ?_
      refine .bind (ensures_expect hr (.inl rfl) (by decide) [word] (by decide) ?_) ?_
      · simp only [forall_map_fst_cons, forall_map_fst_nil]
        intro name
        exact ⟨{ kind, symbol, name, content := none }, rfl⟩
      · rintro _ q ⟨name, rfl, hr⟩
        refine .afterTrivia ?_
        refine .bind (ensures_optional (.token content) (by decide) hr) ?_
        rintro _ r ⟨content, rfl, hr, -⟩
        exact .pure ⟨{ kind, symbol, name, content }, _, rfl, rfl, hr⟩

/-- A run of attributes as the parse sorts it. -/
theorem partition_map (run : List (Attribute Token)) :
    (run.map (Attribute.map Token.span)).partition (·.kind.isInner) =
      ((run.filter (·.kind.isInner)).map (Attribute.map Token.span),
        (run.filter (!·.kind.isInner)).map (Attribute.map Token.span)) := by
  simp [List.partition_eq_filter_filter, List.filter_map, Function.comp_def, Attribute.map]

/-- Without outer attributes, all of a run are inner ones. -/
theorem kind_of_isEmpty {run : List (Attribute Token)}
    (h : (run.filter (!·.kind.isInner)).isEmpty) : ∀ a ∈ run, a.kind = .inner := by
  intro a ha
  simp only [List.isEmpty_iff, List.filter_eq_nil_iff] at h
  have := h a ha
  cases hk : a.kind with
  | inner => rfl
  | outer => simp [hk, AttributeKind.isInner] at this

theorem exists_outer {run : List (Attribute Token)}
    (h : ¬ (run.filter (!·.kind.isInner)).isEmpty) : ∃ a ∈ run, a.kind = .outer := by
  obtain ⟨a, ha⟩ := List.exists_mem_of_ne_nil _ (mt List.isEmpty_iff.2 h)
  obtain ⟨hm, hk⟩ := List.mem_filter.1 ha
  refine ⟨a, hm, ?_⟩
  cases hk' : a.kind with
  | inner => simp [hk', AttributeKind.isInner] at hk
  | outer => rfl

theorem ensures_attributes : Ensures attributes s
    (fun found q => ∃ run : List (Attribute Token),
      found = ((run.filter (·.kind.isInner)).map (Attribute.map Token.span),
        (run.filter (!·.kind.isInner)).map (Attribute.map Token.span)) ∧
      Reads s (attributeSlots run) q ∧ q.skip = q ∧ ∀ kind, (introducer kind).end? q = none)
    (Stuck 1 (fun slots => ∃ run : List (Attribute Token), slots = attributeSlots run) s) := by
  refine .bind (R := fun all q => ∃ run : List (Attribute Token),
    all = run.map (Attribute.map Token.span) ∧ Reads s (attributeSlots run) q ∧ q.skip = q ∧
      ∀ kind, (introducer kind).end? q = none)
    (.many (fun all q => ∃ run : List (Attribute Token),
      all = run.map (Attribute.map Token.span) ∧ Reads s (attributeSlots run) q)
      ⟨[], rfl, .refl s⟩ ?_) ?_
  · rintro _ q ⟨run, rfl, hr⟩
    refine .afterTrivia ?_
    refine (sound_attribute? q.skip q.skip_skip).mono ?_ fun m h => ?_
    · rintro (_ | a) r hf
      · exact ⟨run, rfl, hf.1 ▸ hr.skip_right, by rw [hf.1, q.skip_skip], hf.1 ▸ hf.2⟩
      · obtain ⟨t, _, rfl, rfl, ht⟩ := hf
        exact ⟨run ++ [t], by simp, by simpa [attributeSlots] using hr.append ht.skip_left⟩
    · refine h.after hr.skip_right (by decide) ?_
      rintro _ ⟨t, rfl⟩
      exact ⟨run ++ [t], by simp [attributeSlots]⟩
  · rintro _ q ⟨run, rfl, hr, hq, hk⟩
    refine .pure ⟨run, ?_, hr, hq, hk⟩
    rw [partition_map]

/-! ### Blocks -/

section Block

variable [HasAttributes α Span] [HasAttributes β Token] [AttributesMap Token.span view]
  {orphans : List Pattern}

/-- A block with one more chunk, and nothing behind it. -/
theorem blockWritten_chunks {chunks : List (Chunk Token β)} (hc : ∀ c ∈ chunks, form c.node c.slots)
    {run : List (Attribute Token)} {t : β} {slots : List (Slot Token)} (ht : form t slots) :
    ∃ attributes nodes, BlockWritten form attributes nodes
      (chunks.flatMap Chunk.written ++ (attributeSlots run ++ slots)) := by
  refine ⟨_, _, chunks ++ [⟨run, t, slots⟩], [], ?_, by simp, rfl, rfl, ?_⟩
  · intro c hm
    obtain hm | hm := List.mem_append.1 hm
    · exact hc c hm
    · rw [List.mem_singleton.1 hm]
      exact ht
  · simp [attributeSlots, Chunk.written]

/-- What a block expects instead of an item: what cannot stand there either, or the sign that
closes it. -/
def Orphans (orphans : List Pattern) (fails : Place → Prop) : Prop :=
  (∀ q, fails q → ∀ p ∈ orphans, p.end? q = none) ∨ orphans = [braceClose] ∨ orphans = [parenClose]

theorem Orphans.missing (h : Orphans orphans fails) {slots : List (Slot Token)} (hq : fails q)
    (hd : Dangling slots) : Missing slots q orphans := by
  obtain h | rfl | rfl := h
  · exact .inl (h q hq)
  · exact .inr ⟨braceClose, by simp, rfl, hd⟩
  · exact .inr ⟨parenClose, by simp, rfl, hd⟩

/-- A block is read as its chunks and a last run of attributes; it fails within attributes or an
item, or where outer attributes have no item behind them. -/
theorem ensures_block {N : Nat} (hitem : Sound n item view form fails) (filler : List Pattern)
    (hfill : filler ⊆ fillers)
    (hnode : ∀ more : List (Slot Token), more.map Prod.fst = filler → ∃ t, form t more)
    (horphans : .endOfInput ∉ orphans) (hmissing : Orphans orphans fails) (hn : n ≤ N)
    (hk : filler.length + 1 ≤ N) :
    Ensures (block orphans item) s
      (fun found q => ∃ attributes nodes slots,
        found = (attributes.map (Attribute.map Token.span), nodes.map view) ∧
        BlockWritten form attributes nodes slots ∧ Reads s slots q ∧ q.skip = q ∧ fails q)
      (Stuck N (fun slots => ∃ attributes nodes, BlockWritten form attributes nodes slots) s) := by
  refine .loop (fun state q => ∃ chunks : List (Chunk Token β),
    (∀ c ∈ chunks, form c.node c.slots) ∧
    state.1.toList = (chunks.flatMap Chunk.inner).map (Attribute.map Token.span) ∧
    state.2.toList = (chunks.map Chunk.result).map view ∧
    Reads s (chunks.flatMap Chunk.written) q) ⟨[], by simp, rfl, rfl, .refl s⟩ ?_
  rintro ⟨found, items⟩ q ⟨chunks, hc, hf, hi, hr⟩
  simp only at hf hi
  refine .bind (ensures_attributes.mono (fun _ _ h => h) fun m h => ?_) ?_
  · refine h.within hr filler hfill (by omega) ?_
    rintro _ ⟨run, rfl⟩ more hmore
    obtain ⟨t, ht⟩ := hnode more hmore
    rw [List.append_assoc]
    exact blockWritten_chunks hc ht
  · rintro ⟨_, _⟩ q ⟨run, heq, hrun, hskip, -⟩
    obtain ⟨rfl, rfl⟩ := Prod.mk.inj heq
    refine .bind ((hitem q hskip).mono (fun _ _ h => h) fun m h => ?_) ?_
    · refine h.after (hr.append hrun) hn ?_
      rintro slots ⟨t, ht⟩
      rw [List.append_assoc]
      exact blockWritten_chunks hc ht
    · rintro (_ | a) r hf'
      · obtain ⟨rfl, hfails⟩ := hf'
        simp only [List.isEmpty_map]
        split
        · next he =>
          have hall := kind_of_isEmpty he
          refine .pure ⟨_, _, _, ?_, ⟨chunks, run, hc, hall, rfl, rfl, rfl⟩, hr.append hrun, hskip,
            hfails⟩
          simp [hf, hi, filter_isInner hall]
        · next he =>
          have hd : Dangling (chunks.flatMap Chunk.written ++ attributeSlots run) :=
            ⟨_, run, rfl, exists_outer he⟩
          refine .fail ⟨_, _, r, filler, hr.append hrun, hskip,
            ⟨rfl, rfl, .inr rfl, hmissing.missing hfails hd⟩, .inl rfl, horphans, ⟨by omega, hfill⟩,
            fun more hmore => ?_⟩
          obtain ⟨t, ht⟩ := hnode more hmore
          rw [List.append_assoc]
          exact blockWritten_chunks hc ht
      · obtain ⟨t, slots, rfl, ht, hr'⟩ := hf'
        refine .pure ⟨chunks ++ [⟨run, t, slots⟩], ?_, ?_, ?_, ?_⟩
        · intro c hm
          obtain hm | hm := List.mem_append.1 hm
          · exact hc c hm
          · rw [List.mem_singleton.1 hm]
            exact ht
        · simp [hf, Chunk.inner]
        · simp [hi, Chunk.result, Chunk.outer, AttributesMap.map_prepend (f := Token.span)]
        · simpa [Chunk.written, List.append_assoc] using (hr.append hrun).append hr'

end Block

end SchemaText
