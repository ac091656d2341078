import SchemaText.Proofs.Extent
import SchemaText.Proofs.Parse.Separated

/-!
What stands in turn is read in turn and nothing of it is lost: items and separators, and the
identifiers and dots of a path.
-/
namespace SchemaText

open Grammar

variable {α β : Type}

/-! ### Paths -/

namespace PathItem

variable {τ : Type}

def isDot : PathItem τ → Bool
  | identifier _ => false
  | dot _ => true

end PathItem

namespace Path

variable {τ : Type} {items : List (PathItem τ)}

def dots (p : Path τ) : List τ :=
  p.items.filterMap fun
    | .identifier _ => none
    | .dot token => some token

theorem Alternates.exists_head (h : Alternates items) :
    ∃ t, items.head? = some (.identifier t) := by
  cases h <;> exact ⟨_, rfl⟩

theorem Alternates.isChain (h : Alternates items) :
    items.IsChain fun x y => x.isDot ≠ y.isDot := by
  induction h with
  | identifier t => exact .singleton _
  | dot t d => simp [PathItem.isDot]
  | more t d h ih =>
    obtain ⟨first, hfirst⟩ := h.exists_head
    refine .cons_cons (by simp [PathItem.isDot]) (.cons ih fun y hy => ?_)
    rw [hfirst, Option.mem_def, Option.some.injEq] at hy
    simp [← hy, PathItem.isDot]

/-- A path ends with a dot where there are as many dots as identifiers. Else it lacks the last
dot. -/
theorem Alternates.ends (h : Alternates items) :
    (endsWithDot ⟨items⟩ ∧ (dots ⟨items⟩).length = (segments ⟨items⟩).length) ∨
      endsWithDot ⟨items⟩ = false ∧
        (dots ⟨items⟩).length + 1 = (segments ⟨items⟩).length := by
  induction h with
  | identifier t => exact .inr ⟨rfl, rfl⟩
  | dot t d => exact .inl ⟨rfl, rfl⟩
  | @more t d items h ih =>
    obtain ⟨first, hfirst⟩ := h.exists_head
    obtain ⟨rest, rfl⟩ := List.head?_eq_some_iff.1 hfirst
    have hlast : endsWithDot ⟨.identifier t :: .dot d :: .identifier first :: rest⟩ =
        endsWithDot ⟨.identifier first :: rest⟩ := by
      simp [endsWithDot, List.getLast?_cons_cons]
    rw [hlast]
    simpa [dots, segments] using ih

/-- The span of a path goes from its first token to its last one. -/
theorem exists_span {p : Path Span} (hne : p.items ≠ [])
    (hasc : Ascending (p.items.map PathItem.token)) : ∃ first last,
      (p.items.map PathItem.token).head? = some first ∧
      (p.items.map PathItem.token).getLast? = some last ∧
      p.span = some ⟨first.start, last.stop⟩ := by
  have hfirst := List.head?_eq_some_head hne
  have hlast := List.getLast?_eq_some_getLast hne
  have hfirst' : (p.items.map PathItem.token).head? = some (p.items.head hne).token := by
    rw [List.head?_map, hfirst]
    rfl
  have hlast' : (p.items.map PathItem.token).getLast? = some (p.items.getLast hne).token := by
    rw [List.getLast?_map, hlast]
    rfl
  refine ⟨_, _, hfirst', hlast', ?_⟩
  have hstart := hasc.start_le hfirst' (List.mem_of_getLast? hlast')
  have hstop := hasc.le_stop hlast' (List.mem_of_head? hfirst')
  have hspan : p.span = some ((p.items.head hne).token.merge (p.items.getLast hne).token) := by
    rw [span, hfirst, hlast]
    rfl
  rw [hspan, Span.merge_eq hstop, Nat.min_eq_left hstart]

end Path

/-- The text under a token is a word. -/
def Span.IsWordIn (text : List Char) (t : Span) : Prop :=
  ∃ x, slice? t.start t.stop text = some x ∧ IsWord x

instance (text : List Char) : DecidablePred (Span.IsWordIn text) := fun t =>
  decidable_of_iff ((slice? t.start t.stop text).any fun x => IsWord x) (by
    simp [Span.IsWordIn, Option.any_eq_true])

/-- A path consists of identifiers and dots in turn, and its segments are all the identifiers from
its first token to its last one. -/
structure Path.ReadFrom (p : Path Span) (text : List Char) (d : Document Span) : Prop where
  head : ∃ t, p.items.head? = some (.identifier t)
  turns : p.items.IsChain fun x y => x.isDot ≠ y.isDot
  endsWithDot : p.endsWithDot ↔ p.dots.length = p.segments.length
  inOrder : p.segments.Pairwise fun s t => s.stop ≤ t.start
  segments : ∃ extent, p.span = some extent ∧
    p.segments = (d.spansIn extent).filter fun t => t.IsWordIn text

section

variable {τ : Type} {d : Document τ} {slots : List (Slot τ)} {node : Import τ}

/-- The path of an import stands in the source in one piece. -/
theorem Document.Written.exists_path (h : d.Written slots) (hnode : .imports node ∈ d.statements) :
    Path.Alternates node.path.items ∧
      ∃ before after, slots = before ++ node.path.slots ++ after := by
  obtain ⟨chunks, last, hc, -, -, hstatements, rfl⟩ := h
  rw [hstatements] at hnode
  obtain ⟨chunk, hchunk, hresult⟩ := List.mem_map.1 hnode
  have hwritten := hc chunk hchunk
  obtain ⟨before, after, rfl⟩ := List.append_of_mem hchunk
  obtain ⟨run, st, slots⟩ := chunk
  cases st with
  | imports i =>
    obtain ⟨-, halternates, hslots⟩ := hwritten
    cases hresult
    refine ⟨halternates, ?_⟩
    simp only at hslots
    refine ⟨before.flatMap Chunk.written ++ attributeSlots run ++
        [(Grammar.keyword .imports, i.keyword)], ((Grammar.braceOpen, i.opening) ::
          i.items.flatMap ImportItem.slots ++ [(Grammar.braceClose, i.closing)]) ++
          after.flatMap Chunk.written ++ attributeSlots last, ?_⟩
    simp [Chunk.written, hslots, Import.ownSlots]
  | _ => cases hresult

end

theorem isWordIn_iff {text x : List Char} {t : Span} (h : slice? t.start t.stop text = some x) :
    t.IsWordIn text ↔ IsWord x := by
  simp [Span.IsWordIn, h]

/-- Of the tokens of a path, its segments are words. -/
theorem filter_isWordIn {text : List Char} {items : List (PathItem Span)}
    (h : ∀ item ∈ items, ∃ x, slice? item.token.start item.token.stop text = some x ∧
      Spells item.slot.1 x) :
    (items.map PathItem.token).filter (fun t => t.IsWordIn text) = Path.segments ⟨items⟩ := by
  induction items with
  | nil => rfl
  | cons item items ih =>
    obtain ⟨⟨x, hx, hspells⟩, hrest⟩ := List.forall_mem_cons.1 h
    have hiff := isWordIn_iff hx
    cases item with
    | identifier t =>
      have hword : IsWord x := by
        simpa [PathItem.slot, word, Spells, identifier, content] using hspells
      rw [List.map_cons, List.filter_cons_of_pos (by simpa using hiff.2 hword), ih hrest]
      rfl
    | dot t =>
      have hdot : x = ['.'] := hspells
      have hword : ¬ IsWord x := by rw [hdot]; decide
      rw [List.map_cons, List.filter_cons_of_neg (by simpa using mt hiff.1 hword), ih hrest]
      rfl

theorem mem_slots_path {p : Path Span} {item : PathItem Span} (h : item ∈ p.items) :
    item.slot ∈ p.slots := List.mem_map_of_mem h

@[simp] theorem PathItem.slot_snd {τ : Type} (item : PathItem τ) : item.slot.2 = item.token := by
  cases item <;> rfl

theorem tokensIn_path (p : Path Span) : tokensIn p.slots = p.items.map PathItem.token := by
  simp [tokensIn, Path.slots, Function.comp_def]

/-- A path that stands in a source in one piece is built of what stands there. -/
theorem Path.Alternates.readFrom {p : Path Span} {text : List Char} {d : Document Span}
    {before after : List Span} (h : Alternates p.items)
    (hspans : d.spans = before ++ p.items.map PathItem.token ++ after) (hasc : Ascending d.spans)
    (hspelled : ∀ item ∈ p.items, ∃ x, slice? item.token.start item.token.stop text = some x ∧
      Spells item.slot.1 x) : p.ReadFrom text d := by
  rw [hspans] at hasc
  obtain ⟨hfront, hafter, hle⟩ := ascending_append.1 hasc
  obtain ⟨hbefore, hpath, hle'⟩ := ascending_append.1 hfront
  have hne : p.items ≠ [] := by
    obtain ⟨t, ht⟩ := h.exists_head
    rintro hnil
    simp [hnil] at ht
  obtain ⟨first, last, hfirst, hlast, hspan⟩ := p.exists_span hne hpath
  have hwords := filter_isWordIn hspelled
  constructor
  case head => exact h.exists_head
  case turns => exact h.isChain
  case endsWithDot =>
    rcases h.ends with ⟨hends, hlen⟩ | ⟨hends, hlen⟩
    · exact ⟨fun _ => hlen, fun _ => hends⟩
    · constructor
      · intro htrue
        exact absurd (hends.symm.trans htrue) Bool.false_ne_true
      · intro heq
        change p.dots.length + 1 = p.segments.length at hlen
        omega
  case inOrder =>
    change (Path.segments ⟨p.items⟩).Pairwise _
    rw [← hwords]
    exact hpath.1.filter _
  case segments =>
    let extent : Span := ⟨first.start, last.stop⟩
    have hpos : ∀ t ∈ before ++ after, t.start < t.stop :=
      List.forall_mem_append.2 ⟨hbefore.2, hafter.2⟩
    have hfront : ∀ t ∈ before, t.stop ≤ extent.start := fun t ht =>
      hle' t ht first (List.mem_of_head? hfirst)
    have hin : ∀ t ∈ p.items.map PathItem.token, extent.containsSpan t := by
      intro t ht
      have hstart := hpath.start_le hfirst ht
      have hstop := hpath.le_stop hlast ht
      exact containsSpan_iff.2 ⟨hstart, hstop⟩
    have hback : ∀ t ∈ after, extent.stop ≤ t.start := fun t ht =>
      hle last (List.mem_append_right _ (List.mem_of_getLast? hlast)) t ht
    have htokens : d.spansIn extent = p.items.map PathItem.token := by
      rw [Document.spansIn, hspans]
      exact filter_between (f := id) hpos hfront hin hback
    exact ⟨extent, hspan, by rw [htokens, hwords]⟩

/-- A parsed path is built of identifiers and dots in turn. -/
theorem readFrom_of_parse {source : String} {options : Options} {d : Document Span}
    {node : Import Span} (h : parse source options = .ok d) (hnode : .imports node ∈ d.statements) :
    node.path.ReadFrom source.toList d := by
  obtain ⟨t, slots, e, rfl, ht, hr, he⟩ := exists_reads_of_parse h
  have hlossless := lossless_of_reads (Document.readable_iff.1 ht).1 hr he
  have hwritten := (Document.readable_iff.1 ht).1.map Token.span
  obtain ⟨-, hasc⟩ := hr.ascending_tokensIn
  obtain ⟨halternates, before, after, hslots⟩ := hwritten.exists_path hnode
  have hspans := hwritten.spans_eq hasc
  rw [← hspans] at hasc
  rw [hslots, tokensIn_append, tokensIn_append, tokensIn_path] at hspans
  refine halternates.readFrom hspans hasc fun item hitem => ?_
  have hslot : item.slot ∈ mapSlots Token.span slots := by
    rw [hslots]
    exact List.mem_append_left _ (List.mem_append_right _ (mem_slots_path hitem))
  have hspelled := hlossless.spelled item.slot (hwritten.perm.mem_iff.1 hslot)
  rwa [PathItem.slot_snd] at hspelled

/-- Items and separators in turn are kept without loss, whatever they are and however many rounds
it takes. So the paths of a parsed tree are built of identifiers and dots in turn. -/
theorem alternates_without_loss :
    (∀ {item : Parse (Option α)} {separator : Parse (Option β)} {skip : Parse Unit} {c d : Cursor}
      {s : Separated α β}, Parse.separated item separator skip c = .ok s d →
        s.Gathers item separator skip c d) ∧
    (∀ {item : Parse (Option α)} {separator : Parse (Option β)} {skip : Parse Unit} {c d : Cursor}
      {s : Separated α β} {n : Nat}, Parse.separatedWithin item separator skip n c = .ok s d →
        s.Gathers item separator skip c d) ∧
    ∀ {source : String} {options : Options} {d : Document Span} {node : Import Span},
      parse source options = .ok d → .imports node ∈ d.statements →
        node.path.ReadFrom source.toList d := by
  refine ⟨?_, gathers_of_separatedWithin, readFrom_of_parse⟩
  intro item separator skip c d s h
  obtain ⟨n, hn⟩ := exists_separated_eq item separator skip c
  exact gathers_of_separatedWithin (hn ▸ h)

theorem alternates_without_loss_dot :
    (∃ d, Parse.separated (Parse.accept word) (Parse.accept dotSign) trivia
        (.start "a . b.".toList 16) = .ok ⟨[⟨0, 1⟩, ⟨4, 5⟩], [⟨2, 3⟩, ⟨5, 6⟩]⟩ d ∧
      Separated.Gathers (Parse.accept word) (Parse.accept dotSign) trivia
        (.start "a . b.".toList 16) ⟨[⟨0, 1⟩, ⟨4, 5⟩], [⟨2, 3⟩, ⟨5, 6⟩]⟩ d) ∧
    let node : Import Span := {
      keyword := ⟨0, 6⟩, opening := ⟨13, 14⟩, items := [], closing := ⟨14, 15⟩,
      path := ⟨[.identifier ⟨7, 8⟩, .dot ⟨9, 10⟩, .identifier ⟨11, 12⟩, .dot ⟨12, 13⟩]⟩ }
    parse "import a . b.\x7b\x7d" {} = .ok ⟨[], [.imports node]⟩ ∧
      node.path.ReadFrom "import a . b.\x7b\x7d".toList ⟨[], [.imports node]⟩ := by
  obtain ⟨hseparated, -, hpath⟩ := alternates_without_loss (α := Span) (β := Span)
  refine ⟨?_, ?_⟩
  · have hrun : (match Parse.separated (Parse.accept word) (Parse.accept dotSign) trivia
        (.start "a . b.".toList 16) with
      | .ok s _ => decide (s = ⟨[⟨0, 1⟩, ⟨4, 5⟩], [⟨2, 3⟩, ⟨5, 6⟩]⟩)
      | .error .. => false) = true := by decide +kernel
    split at hrun
    · next s d hd =>
      obtain rfl := of_decide_eq_true hrun
      exact ⟨d, hd, hseparated hd⟩
    · cases hrun
  · intro node
    have hparse : parse "import a . b.\x7b\x7d" {} = .ok ⟨[], [.imports node]⟩ := by
      decide +kernel
    exact ⟨hparse, hpath hparse (List.mem_singleton_self _)⟩

end SchemaText
