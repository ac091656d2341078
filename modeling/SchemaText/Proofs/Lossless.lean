import SchemaText.Proofs.Grammar.Sound.Statement
import SchemaText.Proofs.Parser
import SchemaText.Proofs.Tree.Slots

/-!
The tokens of a parsed tree and the trivia around them make up the source.
-/
namespace SchemaText

open Grammar

/-- The stretches in front of, between and behind spans, from a byte on to the end of a text. -/
def gaps (bytes : Nat) : Nat → List Span → List Span
  | start, [] => [⟨start, bytes⟩]
  | start, s :: spans => ⟨start, s.start⟩ :: gaps bytes s.stop spans

/-- A tree accounts for a text: its tokens lie apart from each other in the text, there is nothing
but trivia around them, and each is what its place in the tree demands. -/
structure Lossless (text : List Char) (d : Document Span) : Prop where
  /-- The roles of the tokens, in the order of a walk. -/
  tokens_eq : d.tokens = d.slots.map Prod.snd
  spelled : ∀ slot ∈ d.slots, ∃ x, slice? slot.2.start slot.2.stop text = some x ∧ Spells slot.1 x
  inside : ∀ s ∈ d.spans, s.start < s.stop ∧ (slice? s.start s.stop text).isSome
  disjoint : d.spans.Pairwise fun s t => s.stop ≤ t.start
  /-- Only at the end of the text may a comment lack its line feed. -/
  trivia : ∀ gap ∈ gaps (byteLength text) 0 d.spans, ∃ x, slice? gap.start gap.stop text = some x ∧
    FinalTrivia x ∧ (gap.stop < byteLength text → ClosedTrivia x)

/-! ### Tokens that are read -/

variable {s e : Place} {text before : List Char} {slot : Slot Token} {slots : List (Slot Token)}

/-- The first token that is read stands behind trivia. -/
theorem Reads.uncons (h : Reads s (slot :: slots) e) : ∃ gap x q, s.Passes gap s.skip ∧
    ClosedTrivia gap ∧ s.skip.Passes x q ∧ x ≠ [] ∧ Spells slot.1 x ∧
    slot.2 = ⟨⟨s.skip.offset, q.offset⟩, x⟩ ∧ Reads q slots e := by
  obtain ⟨pattern, token⟩ := slot
  obtain ⟨q, hl, hq, rfl, hr⟩ := h
  obtain ⟨x, hp, hne, hx⟩ := exists_spells hq hl
  obtain ⟨gap, hgap, -, hc⟩ := s.exists_passes_skip
  refine ⟨gap, x, q, hgap, hc ?_, hp, hne, hx, ?_, hr⟩
  · rw [hp.1]
    simp [hne]
  · rw [Token.between, hp.upTo_eq]
    rfl

theorem Reads.spelled (hs : (Place.start text).Passes before s) (h : Reads s slots e) :
    ∀ slot ∈ slots, ∃ x, slice? slot.2.span.start slot.2.span.stop text = some x ∧ x ≠ [] ∧
      Spells slot.1 x := by
  induction slots generalizing s before with
  | nil => simp
  | cons slot slots ih =>
    obtain ⟨gap, x, q, hgap, -, hx, hne, hsp, ht, hr⟩ := h.uncons
    have hskip := hs.trans hgap
    refine List.forall_mem_cons.2 ⟨⟨x, ?_, hne, hsp⟩, ih (hskip.trans hx) hr⟩
    rw [ht]
    exact hskip.slice?_eq hx

theorem Reads.ascending (h : Reads s slots e) :
    (slots.map (·.2.span)).Pairwise (fun a b => a.stop ≤ b.start) ∧
      ∀ slot ∈ slots, s.offset ≤ slot.2.span.start ∧ slot.2.span.start < slot.2.span.stop := by
  induction slots generalizing s with
  | nil => simp
  | cons slot slots ih =>
    obtain ⟨gap, x, q, hgap, -, hx, hne, -, ht, hr⟩ := h.uncons
    obtain ⟨hpair, hle⟩ := ih hr
    have hpos := byteLength_pos hne
    have hg := hgap.2
    have hq := hx.2
    simp only [List.map_cons, List.pairwise_cons, List.forall_mem_cons, List.forall_mem_map, ht]
    refine ⟨⟨fun b hb => (hle b hb).1, hpair⟩, ⟨by omega, by omega⟩, fun b hb => ?_⟩
    have := hle b hb
    omega

theorem Reads.trivia (hs : (Place.start text).Passes before s) (h : Reads s slots e)
    (he : e.rest = []) : ∀ gap ∈ gaps (byteLength text) s.offset (slots.map (·.2.span)), ∃ x,
      slice? gap.start gap.stop text = some x ∧ FinalTrivia x ∧
        (gap.stop < byteLength text → ClosedTrivia x) := by
  induction slots generalizing s before with
  | nil =>
    obtain ⟨x, hx, hf, -⟩ := s.exists_passes_skip
    have hskip : s.skip.rest = [] := by
      rw [show s.skip = e.skip from h, Place.skip, he]
      rfl
    have hend : s.skip.offset = byteLength text := by
      have := (hs.trans hx).bytes_eq
      have ho := (hs.trans hx).2
      simp only [Place.start, Place.bytes, hskip, byteLength_nil] at this ho
      omega
    rw [List.map_nil, gaps, List.forall_mem_singleton]
    refine ⟨x, ?_, hf, fun h => absurd h (by simp)⟩
    rw [← hend]
    exact hs.slice?_eq hx
  | cons slot slots ih =>
    obtain ⟨gap, x, q, hgap, hc, hx, hne, -, ht, hr⟩ := h.uncons
    rw [List.map_cons, gaps, List.forall_mem_cons, ht]
    exact ⟨⟨gap, hs.slice?_eq hgap, .inl hc, fun _ => hc⟩, ih ((hs.trans hgap).trans hx) hr⟩

/-! ### Parsed trees -/

theorem Span.isLE_compare (s t : Span) :
    (compare s t).isLE ↔ s.start < t.start ∨ s.start = t.start ∧ s.stop ≤ t.stop := by
  have h : compare s t = (compare s.start t.start).then (compare s.stop t.stop) := rfl
  rw [h]
  rcases Nat.lt_trichotomy s.start t.start with hlt | heq | hgt
  · simp [Nat.compare_eq_lt.2 hlt, hlt]
  · simp [heq, Nat.isLE_compare]
  · simp [Nat.compare_eq_gt.2 hgt, Nat.lt_asymm hgt, Nat.ne_of_gt hgt]

theorem Span.pairwise_sort (spans : List Span) :
    (Span.sort spans).Pairwise fun s t => (compare s t).isLE := by
  refine List.pairwise_mergeSort (fun a b c => ?_) (fun a b => ?_) _
  · simp only [isLE_compare]
    omega
  · rw [Bool.or_eq_true]
    simp only [isLE_compare]
    omega

/-- Spans that follow each other are in ascending order. -/
theorem Span.sort_eq {spans sorted : List Span} (hp : sorted.Perm spans)
    (hs : sorted.Pairwise fun a b => a.stop ≤ b.start) (hne : ∀ a ∈ sorted, a.start < a.stop) :
    Span.sort spans = sorted := by
  refine List.Perm.eq_of_pairwise ?_ (pairwise_sort spans) ?_
    ((List.mergeSort_perm ..).trans hp.symm)
  · rintro ⟨a, b⟩ ⟨c, d⟩ - - h h'
    simp only [isLE_compare] at h h'
    rw [Span.mk.injEq]
    omega
  · refine hs.imp_of_mem fun ha hb h => ?_
    have := hne _ ha
    rw [isLE_compare]
    omega

theorem lossless_of_reads {t : Document Token} (ht : t.Written slots)
    (hr : Reads (.start text) slots e) (he : e.rest = []) : Lossless text (t.map Token.span) := by
  have hperm : (mapSlots Token.span slots).Perm (t.map Token.span).slots := by
    rw [← mapSlots_document]
    exact ht.perm.map _
  have htokens : (slots.map (·.2.span)).Perm (t.map Token.span).tokens := by
    have := hperm.map Prod.snd
    rw [Document.map_snd_slots] at this
    simpa [mapSlots, Function.comp_def] using this
  obtain ⟨hpair, hle⟩ := hr.ascending
  have hspans : (t.map Token.span).spans = slots.map (·.2.span) :=
    Span.sort_eq htokens hpair (List.forall_mem_map.2 fun slot hs => (hle slot hs).2)
  have hspelled := Reads.spelled (.refl (.start text)) hr
  refine ⟨(Document.map_snd_slots _).symm, ?_, ?_, hspans ▸ hpair, ?_⟩
  · intro slot hs
    obtain ⟨⟨pattern, token⟩, hmem, rfl⟩ := List.mem_map.1 (hperm.mem_iff.2 hs)
    obtain ⟨x, hx, -, hsp⟩ := hspelled _ hmem
    exact ⟨x, hx, hsp⟩
  · rw [hspans]
    intro s hs
    obtain ⟨slot, hmem, rfl⟩ := List.mem_map.1 hs
    obtain ⟨x, hx, -⟩ := hspelled _ hmem
    exact ⟨(hle _ hmem).2, by simp [hx]⟩
  · rw [hspans]
    exact Reads.trivia (.refl (.start text)) hr he

/-- A parse reads the tokens of its tree to the end of the source. -/
theorem exists_reads_of_parse {source : String} {options : Options} {d : Document Span}
    (h : parse source options = .ok d) : ∃ (t : Document Token) (slots : List (Slot Token))
      (e : Place), d = t.map Token.span ∧ t.Readable slots ∧
        Reads (.start source.toList) slots e ∧ e.rest = [] := by
  obtain ⟨-, c, hc⟩ := parse_eq_ok_iff.1 h
  have hrun := ensures_document (List.Subset.refl _)
    (.start source.toList options.attemptFactor) rfl
  rw [documentRun] at hc
  rw [hc] at hrun
  obtain ⟨t, slots, ht, hreadable, hr, he⟩ := hrun
  exact ⟨t, slots, _, ht, hreadable, hr, he⟩

/-- Nothing that the author wrote is skipped or counted twice. -/
theorem lossless_of_parse {source : String} {options : Options} {d : Document Span}
    (h : parse source options = .ok d) : Lossless source.toList d := by
  obtain ⟨-, c, hc⟩ := parse_eq_ok_iff.1 h
  have := ensures_document (List.Subset.refl _) (.start source.toList options.attemptFactor) rfl
  rw [documentRun] at hc
  rw [hc] at this
  obtain ⟨t, slots, rfl, ht, hr, he⟩ := this
  exact lossless_of_reads (Document.readable_iff.1 ht).1 hr he

theorem lossless_enum : Lossless "#a - b\n@c enum A \x7b // d\n x, \x7d".toList
    { attributes := [{ kind := .inner, symbol := ⟨0, 1⟩, name := ⟨1, 2⟩, content := some ⟨3, 6⟩ }],
      statements := [.enum {
        attributes := [{ kind := .outer, symbol := ⟨7, 8⟩, name := ⟨8, 9⟩, content := none }],
        keyword := ⟨10, 14⟩, name := ⟨15, 16⟩, opening := ⟨17, 18⟩,
        entries := [{ content := ⟨25, 26⟩, comma := some ⟨26, 27⟩ }],
        closing := ⟨28, 29⟩ }] } :=
  lossless_of_parse
    (show parse "#a - b\n@c enum A \x7b // d\n x, \x7d" {} = .ok _ by decide +kernel)

end SchemaText
