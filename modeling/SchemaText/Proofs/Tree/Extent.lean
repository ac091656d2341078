import SchemaText.Proofs.Tree.Bare
import SchemaText.Proofs.Tree.Settled
import SchemaText.Tree.Lookup

/-!
The extent of a statement goes from its first token to its last one.
-/
namespace SchemaText

open Phrase (token)

variable {ts before after : List Span} {first last t : Span} {r : Phrase} {hs : List Holder}
  {a : Attribute Span} {run front : List (Attribute Span)} {slots : List (Slot Span)}
  {st : Statement Span}

/-! ### Stretches of tokens -/

theorem Span.merge_eq {s t : Span} (hstop : s.stop ≤ t.stop) :
    s.merge t = ⟨min s.start t.start, t.stop⟩ := by
  rw [Span.merge, Nat.max_eq_right hstop]

theorem Ascending.start_le (h : Ascending ts) (hfirst : ts.head? = some first) (ht : t ∈ ts) :
    first.start ≤ t.start := by
  obtain ⟨rest, rfl⟩ := List.head?_eq_some_iff.1 hfirst
  rcases List.mem_cons.1 ht with rfl | ht
  · exact Nat.le_refl _
  · have hle := (List.pairwise_cons.1 h.1).1 t ht
    have hlt := h.2 first (by simp)
    omega

theorem Ascending.le_stop (h : Ascending ts) (hlast : ts.getLast? = some last) (ht : t ∈ ts) :
    t.stop ≤ last.stop := by
  obtain ⟨init, rfl⟩ := List.getLast?_eq_some_iff.1 hlast
  rcases List.mem_append.1 ht with ht | ht
  · have hle := (List.pairwise_append.1 h.1).2.2 t ht last (by simp)
    have hlt := h.2 last (by simp)
    omega
  · obtain rfl := List.mem_singleton.1 ht
    exact Nat.le_refl _

/-- What lies in front of a stretch or behind it is not in the range of the stretch. -/
theorem filter_between {α : Type} {f : α → Span} {xs ys zs : List α} {e : Span}
    (hpos : ∀ x ∈ xs ++ zs, (f x).start < (f x).stop) (hxs : ∀ x ∈ xs, (f x).stop ≤ e.start)
    (hys : ∀ y ∈ ys, e.containsSpan (f y)) (hzs : ∀ z ∈ zs, e.stop ≤ (f z).start) :
    (xs ++ ys ++ zs).filter (e.containsSpan <| f ·) = ys := by
  obtain ⟨hposx, hposz⟩ := List.forall_mem_append.1 hpos
  have hx : xs.filter (e.containsSpan <| f ·) = [] := by
    refine List.filter_eq_nil_iff.2 fun x hx => ?_
    rw [containsSpan_iff]
    have hle := hxs x hx
    have hlt := hposx x hx
    omega
  have hz : zs.filter (e.containsSpan <| f ·) = [] := by
    refine List.filter_eq_nil_iff.2 fun z hz => ?_
    rw [containsSpan_iff]
    have hle := hzs z hz
    have hlt := hposz z hz
    omega
  rw [List.filter_append, List.filter_append, hx, hz, List.filter_eq_self.2 hys, List.nil_append,
    List.append_nil]

/-! ### Nodes -/

namespace Arranged

/-- An attribute in a block of a node is in the node. -/
theorem contains_inner (h : Arranged ts [r] hs []) (ha : a ∈ held hs []) (hkind : a.kind = .inner) :
    r.span.start ≤ a.span.start ∧ a.span.stop ≤ r.span.stop := by
  rcases mem_held.1 ha with ⟨g, hg, ha⟩ | ha
  · obtain ⟨opening, inside, closing, -, ⟨p, hp, hb⟩, -, hin, -⟩ := (h.sits g hg).inner a ha hkind
    obtain rfl := List.mem_singleton.1 hp
    have hn := h.nested p hp
    have hcontains := hn.contains hb
    have hroom := (hn.of_occurs hb).contains_room
    omega
  · simp at ha

theorem contains (h : Arranged ts [r] hs []) (ht : t ∈ ts) :
    r.span.start ≤ t.start ∧ t.stop ≤ r.span.stop := by
  rcases h.told t ht with ⟨p, hp, hocc⟩ | ⟨a, ha, hkind, hat⟩
  · obtain rfl := List.mem_singleton.1 hp
    exact (h.nested p hp).contains hocc
  · have hpart : token t ∈ a.phrase.parts := List.mem_map_of_mem (f := token) hat
    have hin := (h.phrased a ha).contains_of_mem hpart
    have hspan := h.contains_inner ha hkind
    rw [show a.phrase.span = a.span from rfl, Phrase.span_token] at hin
    omega

/-- A node spans from its first token to its last one. -/
theorem span_eq (h : Arranged ts [r] hs []) (hasc : Ascending ts) (hfirst : ts.head? = some first)
    (hlast : ts.getLast? = some last) : r.span = ⟨first.start, last.stop⟩ := by
  obtain ⟨-, ⟨s, hs, hstart⟩, u, hu, hstop⟩ := h.within r (List.mem_singleton_self r)
  have hs' := hasc.start_le hfirst hs
  have hu' := hasc.le_stop hlast hu
  have hfirst' := h.contains (List.mem_of_head? hfirst)
  have hlast' := h.contains (List.mem_of_getLast? hlast)
  have hstart' : first.start = r.span.start := by omega
  have hstop' : last.stop = r.span.stop := by omega
  rw [hstart', hstop']

end Arranged

theorem Attribute.span_start (h : Ascending a.tokens) : a.span.start = a.symbol.start := by
  have hspan := (Arranges.phrase a h).span_eq h rfl List.getLast?_cons
  rw [show a.phrase.span = a.span from rfl] at hspan
  rw [hspan]

/-! ### Statements -/

@[simp] theorem Statement.span_prepend (run : List (Attribute Span)) (st : Statement Span) :
    (prepend run st).span = st.span := by
  cases st <;> rfl

@[simp] theorem Statement.keyword_prepend (run : List (Attribute Span)) (st : Statement Span) :
    (prepend run st).keyword = st.keyword := by
  cases st <;> rfl

theorem Statement.exists_holders (st : Statement Span) : ∃ room hs,
    st.holders = ⟨HasAttributes.attributes st, some st.keyword, room⟩ :: hs := by
  cases st <;> exact ⟨_, _, rfl⟩

namespace Statement.Written

/-- A statement that is written begins with its keyword, and holds inner attributes only. -/
theorem arranged (h : st.Written slots) (hasc : Ascending (tokensIn slots)) :
    (∃ rest, tokensIn slots = st.keyword :: rest) ∧
      (∀ a ∈ HasAttributes.attributes st, a.kind = .inner) ∧
      Arranged (tokensIn slots) [.node st.span st.parts] st.holders [] := by
  obtain ⟨lead, rest, g, hs, hslots, hholders, hlead, hinner, harr⟩ := settled_statement h
  obtain ⟨room, hs', hst⟩ := st.exists_holders
  obtain ⟨rfl, rfl⟩ := List.cons.inj (hholders.symm.trans hst)
  obtain rfl : st.keyword = lead := Option.some.inj hlead
  refine ⟨⟨rest, hslots⟩, hinner, ?_⟩
  have hphrases : st.phrases = [.node st.span st.parts] := by
    rw [Statement.phrases, leading_eq_nil hinner, List.nil_append]
  exact hphrases ▸ harr hasc

theorem span_eq (h : st.Written slots) (hasc : Ascending (tokensIn slots))
    (hlast : (tokensIn slots).getLast? = some last) : st.span = ⟨st.keyword.start, last.stop⟩ := by
  obtain ⟨⟨rest, hslots⟩, -, harr⟩ := h.arranged hasc
  exact harr.span_eq hasc (by rw [hslots, List.head?_cons]) hlast

/-- The attributes in a body lie within the statement. -/
theorem extent_eq_span (h : st.Written slots) (hasc : Ascending (tokensIn slots)) :
    st.extent = st.span := by
  obtain ⟨-, hinner, harr⟩ := h.arranged hasc
  rw [Statement.extent]
  cases hattributes : HasAttributes.attributes st with
  | nil => rfl
  | cons a as =>
    have ha : a ∈ HasAttributes.attributes st := by simp [hattributes]
    obtain ⟨room, hs, hholders⟩ := st.exists_holders
    have hheld : a ∈ held st.holders [] := by simp [held, hholders, ha]
    obtain ⟨hstart, hstop⟩ := harr.contains_inner hheld (hinner a ha)
    change st.span.start ≤ _ at hstart
    change _ ≤ st.span.stop at hstop
    rw [List.head?_cons]
    change a.span.merge st.span = st.span
    rw [Span.merge_eq hstop, Nat.min_eq_right hstart]

/-- Behind a run that begins with an outer attribute, the extent begins with that one. -/
theorem extent_prepend_cons {a : Attribute Span} (h : st.Written slots) (ha : a.kind = .outer)
    (hasc : Ascending ((a :: run).flatMap Attribute.tokens ++ tokensIn slots))
    (hlast : (tokensIn slots).getLast? = some last) :
    (prepend ((a :: run).filter (!·.kind.isInner)) st).extent = ⟨a.symbol.start, last.stop⟩ := by
  obtain ⟨hrunasc, hown, -⟩ := ascending_append.1 hasc
  obtain ⟨⟨rest, hslots⟩, -⟩ := h.arranged hown
  have hspan := h.span_eq hown hlast
  have htokens : Ascending a.tokens :=
    Arranges.ascending_of_mem_run hrunasc (List.mem_cons_self ..)
  have hstart : a.span.start ≤ st.span.start := by
    have hle := hasc.start_le (t := st.keyword) (List.head?_cons ..) (by simp [hslots])
    rw [Attribute.span_start htokens, hspan]
    exact hle
  have hstop : a.span.stop ≤ st.span.stop := by
    obtain ⟨-, -, t, ht, hle⟩ := Arranges.within_attribute htokens
    have hend : ((a :: run).flatMap Attribute.tokens ++ tokensIn slots).getLast? = some last := by
      rw [List.getLast?_append, hlast]
      rfl
    have hlaststop := hasc.le_stop hend (t := t) (by simp [ht])
    rw [hspan]
    exact Nat.le_trans hle hlaststop
  have houter : (a :: run).filter (!·.kind.isInner) = a :: run.filter (!·.kind.isInner) := by
    simp [ha, AttributeKind.isInner]
  rw [houter, Statement.extent, Statement.attributes_prepend, List.cons_append, List.head?_cons]
  change a.span.merge (prepend _ st).span = _
  rw [Statement.span_prepend, Span.merge_eq hstop, Nat.min_eq_left hstart,
    Attribute.span_start htokens, hspan]

/-- Behind a run of attributes, of which the first one is an outer one, the extent of a statement
goes from the first token of all to the last one. -/
theorem extent_eq (h : st.Written slots) (hrun : ∀ a ∈ run.head?, a.kind = .outer)
    (hasc : Ascending (run.flatMap Attribute.tokens ++ tokensIn slots))
    (hfirst : (run.flatMap Attribute.tokens ++ tokensIn slots).head? = some first)
    (hlast : (run.flatMap Attribute.tokens ++ tokensIn slots).getLast? = some last) :
    (prepend (run.filter (!·.kind.isInner)) st).extent = ⟨first.start, last.stop⟩ := by
  obtain ⟨-, hown, -⟩ := ascending_append.1 hasc
  obtain ⟨⟨rest, hslots⟩, -⟩ := h.arranged hown
  have hownlast : (tokensIn slots).getLast? = some last := by
    rw [List.getLast?_append, hslots, List.getLast?_cons, Option.some_or] at hlast
    rw [hslots, List.getLast?_cons, hlast]
  cases run with
  | nil =>
    have hkeyword : first = st.keyword := by simpa [hslots] using hfirst.symm
    rw [List.filter_nil, Statement.extent, Statement.attributes_prepend, List.nil_append,
      Statement.span_prepend, ← Statement.extent, h.extent_eq_span hown, h.span_eq hown hownlast,
      hkeyword]
  | cons a run =>
    have hsymbol : first = a.symbol := by simpa [Attribute.tokens] using hfirst.symm
    rw [hsymbol]
    exact h.extent_prepend_cons (hrun a rfl) hasc hownlast

end Statement.Written

end SchemaText
