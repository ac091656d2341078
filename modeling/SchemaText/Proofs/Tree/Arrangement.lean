import SchemaText.Proofs.Tree.Holder

/-!
How the parts of a tree and its attributes are arranged in the tokens of a source.
-/
namespace SchemaText

open Phrase (token block ofOption join InOrder OccursIn)

variable {ts us : List Span} {s t e f : Span} {ps qs : List Phrase} {h : Holder}
  {hs gs : List Holder} {as bs loose more run : List (Attribute Span)} {a b : Attribute Span}

/-! ### Stretches of tokens -/

theorem ascending_append : Ascending (ts ++ us) ↔
    Ascending ts ∧ Ascending us ∧ ∀ s ∈ ts, ∀ t ∈ us, s.stop ≤ t.start := by
  simp only [Ascending, List.pairwise_append, List.forall_mem_append]
  constructor
  · intro ⟨⟨h₁, h₂, h⟩, hlt₁, hlt₂⟩
    exact ⟨⟨h₁, hlt₁⟩, ⟨h₂, hlt₂⟩, h⟩
  · intro ⟨⟨h₁, hlt₁⟩, ⟨h₂, hlt₂⟩, h⟩
    exact ⟨⟨h₁, h₂, h⟩, hlt₁, hlt₂⟩

/-- A range from one of the tokens to another one. -/
def Within (ts : List Span) (e : Span) : Prop :=
  e.start < e.stop ∧ (∃ s ∈ ts, s.start ≤ e.start) ∧ ∃ t ∈ ts, e.stop ≤ t.stop

theorem Within.mono (h : Within ts e) (hs : ts ⊆ us) : Within us e := by
  obtain ⟨hlt, ⟨s, hs', hle⟩, t, ht, hle'⟩ := h
  exact ⟨hlt, ⟨s, hs hs', hle⟩, t, hs ht, hle'⟩

theorem Within.le (h : Ascending (ts ++ us)) (he : Within ts e) (hf : Within us f) :
    e.stop ≤ f.start := by
  obtain ⟨-, -, t, ht, hle⟩ := he
  obtain ⟨-, ⟨s, hs, hle'⟩, -⟩ := hf
  have := (ascending_append.1 h).2.2 t ht s hs
  omega

theorem within_token (ht : t ∈ ts) (h : Ascending ts) : Within ts t :=
  ⟨h.2 t ht, ⟨t, ht, Nat.le_refl _⟩, t, ht, Nat.le_refl _⟩

/-! ### Arrangements -/

/-- The attributes that nodes hold, and those that no node holds yet. -/
def held (hs : List Holder) (loose : List (Attribute Span)) : List (Attribute Span) :=
  hs.flatMap Holder.attributes ++ loose

/-- The attributes of a node stand one behind the other, the outer ones first: those right in front
of the node with nothing but attributes `as` in between, the inner ones in its room and beside all
that stands there. -/
structure Holder.Sits (h : Holder) (ts : List Span) (ps : List Phrase)
    (as : List (Attribute Span)) : Prop where
  sorted : h.attributes.Pairwise fun a b =>
    a.span.stop ≤ b.span.start ∧ (a.kind = .inner → b.kind = .inner)
  outer : ∀ a ∈ h.attributes, a.kind = .outer → ∃ lead ∈ h.lead, ∃ before run after,
    ts = before ++ a.tokens ++ run.flatMap Attribute.tokens ++ lead :: after ∧ run ⊆ as
  inner : ∀ a ∈ h.attributes, a.kind = .inner → ∃ opening inside closing,
    h.room = some (opening.between closing) ∧ (block opening inside closing).OccursIn ps ∧
      Phrase.Houses opening inside closing a.span

/-- Tokens have the phrases `ps` one behind the other. Inner attributes stand anywhere: those that
are loose have no node around them, and belong to the block around all of this. -/
structure Arranged (ts : List Span) (ps : List Phrase) (hs : List Holder)
    (loose : List (Attribute Span)) : Prop where
  nested : ∀ p ∈ ps, p.Nested
  inOrder : InOrder ps
  within : ∀ p ∈ ps, Within ts p.span
  told : ∀ t ∈ ts, (token t).OccursIn ps ∨ ∃ a ∈ held hs loose, a.kind = .inner ∧ t ∈ a.tokens
  inner : ∀ a ∈ loose, a.kind = .inner
  beside : ∀ a ∈ loose, ∀ p ∈ ps, a.span.Apart p.span
  sorted : loose.Pairwise fun a b => a.span.stop ≤ b.span.start
  phrased : ∀ a ∈ held hs loose, a.phrase.Nested
  attributes : ∀ a ∈ held hs loose, Within ts a.span
  apart : ∀ a ∈ held hs loose, ∀ b ∈ held hs loose, a = b ∨ a.span.Apart b.span
  sits : ∀ h ∈ hs, h.Sits ts ps (held hs loose)

/-- Tokens in ascending order are arranged in this way. A written tree says how its tokens follow
each other; that they ascend is known of those of a source only. -/
def Arranges (ts : List Span) (ps : List Phrase) (hs : List Holder)
    (loose : List (Attribute Span)) : Prop :=
  Ascending ts → Arranged ts ps hs loose

theorem AttributeKind.inner_ne_outer {kind : AttributeKind} (hi : kind = .inner)
    (ho : kind = .outer) : False := by
  subst hi
  cases ho

theorem mem_held : a ∈ held hs loose ↔ (∃ h ∈ hs, a ∈ h.attributes) ∨ a ∈ loose := by
  simp [held]

theorem mem_held_append : a ∈ held (hs ++ gs) (loose ++ more) ↔
    a ∈ held hs loose ∨ a ∈ held gs more := by
  simp only [mem_held, List.mem_append, or_and_right, exists_or]
  exact or_or_or_comm

theorem Phrase.OccursIn.mono {q : Phrase} (hq : q.OccursIn ps) (hs : ps ⊆ qs) : q.OccursIn qs := by
  obtain ⟨p, hp, hocc⟩ := hq
  exact ⟨p, hs hp, hocc⟩

/-- A node stays where it is when the stretch around it grows. -/
theorem Holder.Sits.mono (hsits : h.Sits ts ps as) (before after : List Span)
    (hps : ∀ q : Phrase, q.OccursIn ps → q.OccursIn qs) (has : as ⊆ bs) :
    h.Sits (before ++ ts ++ after) qs bs := by
  refine ⟨hsits.sorted, ?_, ?_⟩
  · intro a ha hkind
    obtain ⟨lead, hlead, x, run, y, rfl, hrun⟩ := hsits.outer a ha hkind
    exact ⟨lead, hlead, before ++ x, run, y ++ after, by simp, List.Subset.trans hrun has⟩
  · intro a ha hkind
    obtain ⟨opening, inside, closing, hroom, hocc, hin⟩ := hsits.inner a ha hkind
    exact ⟨opening, inside, closing, hroom, hps _ hocc, hin⟩

namespace Arranges

theorem nil : Arranges [] [] [] [] := by
  intro _
  constructor <;> simp [held, InOrder]

theorem append (h₁ : Arranges ts ps hs loose) (h₂ : Arranges us qs gs more) :
    Arranges (ts ++ us) (ps ++ qs) (hs ++ gs) (loose ++ more) := by
  intro hasc
  obtain ⟨hts, hus, -⟩ := ascending_append.1 hasc
  have h₁ := h₁ hts
  have h₂ := h₂ hus
  have hle {e f : Span} (he : Within ts e) (hf : Within us f) : e.stop ≤ f.start :=
    he.le hasc hf
  have hheld₁ : held hs loose ⊆ held (hs ++ gs) (loose ++ more) := fun a ha =>
    mem_held_append.2 (.inl ha)
  have hheld₂ : held gs more ⊆ held (hs ++ gs) (loose ++ more) := fun a ha =>
    mem_held_append.2 (.inr ha)
  have hloose {a} (ha : a ∈ loose) : Within ts a.span := h₁.attributes a (mem_held.2 (.inr ha))
  have hmore {a} (ha : a ∈ more) : Within us a.span := h₂.attributes a (mem_held.2 (.inr ha))
  constructor
  case nested => exact List.forall_mem_append.2 ⟨h₁.nested, h₂.nested⟩
  case inOrder =>
    exact h₁.inOrder.append h₂.inOrder fun p hp q hq => hle (h₁.within p hp) (h₂.within q hq)
  case within =>
    refine List.forall_mem_append.2 ⟨fun p hp => ?_, fun p hp => ?_⟩
    · exact (h₁.within p hp).mono (List.subset_append_left ..)
    · exact (h₂.within p hp).mono (List.subset_append_right ..)
  case told =>
    refine List.forall_mem_append.2 ⟨fun t ht => ?_, fun t ht => ?_⟩
    · rcases h₁.told t ht with hocc | ⟨a, ha, hat⟩
      · exact .inl (hocc.mono (List.subset_append_left ..))
      · exact .inr ⟨a, hheld₁ ha, hat⟩
    · rcases h₂.told t ht with hocc | ⟨a, ha, hat⟩
      · exact .inl (hocc.mono (List.subset_append_right ..))
      · exact .inr ⟨a, hheld₂ ha, hat⟩
  case inner => exact List.forall_mem_append.2 ⟨h₁.inner, h₂.inner⟩
  case beside =>
    refine List.forall_mem_append.2 ⟨fun a ha => ?_, fun a ha => ?_⟩
    · refine List.forall_mem_append.2 ⟨h₁.beside a ha, fun q hq => ?_⟩
      exact .inl (hle (hloose ha) (h₂.within q hq))
    · refine List.forall_mem_append.2 ⟨fun p hp => ?_, h₂.beside a ha⟩
      exact .inr (hle (h₁.within p hp) (hmore ha))
  case sorted =>
    refine List.pairwise_append.2 ⟨h₁.sorted, h₂.sorted, fun a ha b hb => ?_⟩
    exact hle (hloose ha) (hmore hb)
  case phrased => exact fun a ha => (mem_held_append.1 ha).elim (h₁.phrased a) (h₂.phrased a)
  case attributes =>
    intro a ha
    rcases mem_held_append.1 ha with ha | ha
    · exact (h₁.attributes a ha).mono (List.subset_append_left ..)
    · exact (h₂.attributes a ha).mono (List.subset_append_right ..)
  case apart =>
    intro a ha b hb
    rcases mem_held_append.1 ha with ha | ha <;> rcases mem_held_append.1 hb with hb | hb
    · exact h₁.apart a ha b hb
    · exact .inr (.inl (hle (h₁.attributes a ha) (h₂.attributes b hb)))
    · exact .inr (.inr (hle (h₁.attributes b hb) (h₂.attributes a ha)))
    · exact h₂.apart a ha b hb
  case sits =>
    refine List.forall_mem_append.2 ⟨fun h hh => ?_, fun h hh => ?_⟩
    · exact (h₁.sits h hh).mono [] us (fun q hq => hq.mono (List.subset_append_left ..)) hheld₁
    · have hocc : ∀ q : Phrase, q.OccursIn qs → q.OccursIn (ps ++ qs) := fun _ hq =>
        hq.mono (List.subset_append_right ..)
      have := (h₂.sits h hh).mono ts [] hocc hheld₂
      rwa [List.append_nil] at this

theorem token (t : Span) : Arranges [t] [token t] [] [] := by
  intro hasc
  have hlt := hasc.2 t (by simp)
  have hself : (Phrase.token t).OccursIn [Phrase.token t] := ⟨_, by simp, .self⟩
  constructor
  case nested => simpa using Phrase.Nested.token hlt
  case within => simpa using within_token (List.mem_singleton_self t) hasc
  case told => simpa using Or.inl hself
  case inOrder => exact List.pairwise_singleton ..
  all_goals simp [held]

theorem cons (t : Span) (h : Arranges ts ps hs loose) :
    Arranges (t :: ts) (Phrase.token t :: ps) hs loose :=
  (token t).append h

theorem optional (t : Option Span) : Arranges t.toList (ofOption t) [] [] := by
  cases t with
  | none => exact nil
  | some t => exact token t

/-! ### Nodes -/

end Arranges

/-- The span of a phrase goes from its first part to its last one if they stand in a row. -/
def Phrase.Tight (r : Phrase) : Prop :=
  ∃ first last, r.parts.head? = some first ∧ r.parts.getLast? = some last ∧
    (InOrder r.parts → (∀ p ∈ r.parts, p.Nested) →
      r.span = ⟨first.span.start, last.span.stop⟩)

/-- Merging the first part with the end of the last one. -/
theorem Phrase.Tight.of_merge {r first last : Phrase} (hfirst : r.parts.head? = some first)
    (hlast : r.parts.getLast? = some last) {e : Span}
    (he : last.Nested → last.span.start ≤ e.start ∧ e.stop = last.span.stop)
    (hspan : r.span = first.span.merge e) : r.Tight := by
  refine ⟨first, last, hfirst, hlast, fun horder hn => ?_⟩
  have hmem := List.mem_of_getLast? hlast
  have hlt := fun p hp => (hn p hp).lt
  have hstart := horder.start_le hlt hfirst hmem
  have hstop := horder.le_stop hlt hlast (List.mem_of_head? hfirst)
  obtain ⟨he₁, he₂⟩ := he (hn last hmem)
  rw [hspan]
  simp only [Span.merge, Span.mk.injEq]
  omega

theorem Phrase.tight_join (hps : ps ≠ []) : (join ps).Tight := by
  obtain ⟨first, rest, rfl⟩ := List.exists_cons_of_ne_nil hps
  exact .of_merge rfl List.getLast?_cons (fun _ => ⟨Nat.le_refl _, rfl⟩) rfl

theorem Phrase.tight_block {opening closing : Span} {inside : List Phrase} :
    (block opening inside closing).Tight := by
  have hlast : (block opening inside closing).parts.getLast? = some (token closing) := by
    rw [Phrase.parts]
    exact List.getLast?_concat
  exact .of_merge rfl hlast (fun _ => ⟨Nat.le_refl _, rfl⟩) rfl

/-- The parts of a node make up the node, and all that is loose in it gets a holder. -/
theorem Arranged.whole {r : Phrase} (h : Arranged ts r.parts hs loose) (hr : r.Tight)
    (hheld : ∀ a, a ∈ held gs [] ↔ a ∈ held hs loose)
    (hsits : ∀ g ∈ gs, g ∈ hs ∨ g.Sits ts [r] (held gs [])) : Arranged ts [r] gs [] := by
  obtain ⟨first, last, hfirst, hlast, hspan⟩ := hr
  have hspan := hspan h.inOrder h.nested
  have hn : r.Nested := .whole hfirst hlast hspan h.inOrder h.nested
  have hocc : ∀ q : Phrase, q.OccursIn r.parts → q.OccursIn [r] := by
    intro q ⟨p, hp, hq⟩
    exact ⟨r, by simp, .inside hp hq⟩
  constructor
  case nested => simpa using hn
  case inOrder => exact List.pairwise_singleton ..
  case within =>
    obtain ⟨-, hstart, -⟩ := h.within first (List.mem_of_head? hfirst)
    obtain ⟨-, -, hstop⟩ := h.within last (List.mem_of_getLast? hlast)
    have hlt := hn.lt
    rw [List.forall_mem_singleton]
    rw [hspan] at hlt ⊢
    exact ⟨hlt, hstart, hstop⟩
  case told =>
    intro t ht
    rcases h.told t ht with hq | ⟨a, ha, hat⟩
    · exact .inl (hocc _ hq)
    · exact .inr ⟨a, (hheld a).2 ha, hat⟩
  case inner => simp
  case beside => simp
  case sorted => simp
  case phrased => exact fun a ha => h.phrased a ((hheld a).1 ha)
  case attributes => exact fun a ha => h.attributes a ((hheld a).1 ha)
  case apart => exact fun a ha b hb => h.apart a ((hheld a).1 ha) b ((hheld b).1 hb)
  case sits =>
    intro g hg
    rcases hsits g hg with hg | hg
    · have := (h.sits g hg).mono [] [] hocc fun a ha => (hheld a).2 ha
      rwa [List.nil_append, List.append_nil] at this
    · exact hg

namespace Arranges

theorem whole {r : Phrase} (h : Arranges ts r.parts hs []) (hr : r.Tight) :
    Arranges ts [r] hs [] := fun hasc =>
  (h hasc).whole hr (fun _ => Iff.rfl) fun _ hg => .inl hg

/-- A node that has no span of its own. -/
theorem join (h : Arranges ts ps hs []) (hps : ps ≠ []) : Arranges ts [.join ps] hs [] := by
  apply whole _ (Phrase.tight_join hps)
  rw [Phrase.parts_join]
  exact h

/-- A node that holds no attributes. -/
theorem bare (h : Arranges ts ps hs loose) {g : Holder} (hg : g.attributes = []) :
    Arranges ts ps (g :: hs) loose := by
  intro hasc
  have hheld : held (g :: hs) loose = held hs loose := by
    rw [held, List.flatMap_cons, hg, List.nil_append, held]
  obtain ⟨hn, ho, hw, ht, hi, hb, hs, hp, ha, hap, hsits⟩ := h hasc
  rw [← hheld] at ht hp ha hap hsits
  refine ⟨hn, ho, hw, ht, hi, hb, hs, hp, ha, hap, List.forall_mem_cons.2 ⟨?_, hsits⟩⟩
  constructor <;> simp [hg]

/-- Brackets without attributes between them. -/
theorem brackets (h : Arranges ts ps hs []) (opening closing : Span) :
    Arranges (opening :: ts ++ [closing]) [.block opening ps closing] hs [] := by
  have := (h.cons opening).append (token closing)
  rw [List.append_nil] at this
  exact whole this Phrase.tight_block

/-- What is loose between brackets belongs to the node that has them. -/
theorem block (h : Arranges ts ps hs loose) (opening closing : Span) (lead : Option Span) :
    Arranges (opening :: ts ++ [closing]) [.block opening ps closing]
      (⟨loose, lead, some (opening.between closing)⟩ :: hs) [] := by
  intro hasc
  have hparts := (h.cons opening).append (token closing) hasc
  rw [List.append_nil, List.append_nil] at hparts
  obtain ⟨hinner, hclosing, -⟩ := ascending_append.1 hasc
  obtain ⟨hopening, hts, -⟩ := ascending_append.1 (show Ascending ([opening] ++ ts) from hinner)
  have h := h hts
  -- `hparts` says that what is loose lies apart from the brackets, but not on which side of them.
  have hin {a} (ha : a ∈ loose) : Phrase.Houses opening ps closing a.span := by
    have hwithin := h.attributes a (mem_held.2 (.inr ha))
    have hopen := within_token (List.mem_singleton_self opening) hopening
    have hclose := within_token (List.mem_singleton_self closing) hclosing
    have hstart := hopen.le hinner hwithin
    have hstop := (hwithin.mono (List.subset_cons_self opening ts)).le hasc hclose
    exact ⟨hwithin.1, ⟨hstart, hstop⟩, h.beside a ha⟩
  refine Arranged.whole (r := .block opening ps closing) hparts Phrase.tight_block ?_ ?_
  · intro a
    simp [held, or_comm]
  · refine List.forall_mem_cons.2 ⟨.inr ⟨?_, ?_, ?_⟩, fun g hg => .inl hg⟩
    · exact h.sorted.imp_of_mem fun _ hb hle => ⟨hle, fun _ => h.inner _ hb⟩
    · exact fun a ha hkind => (AttributeKind.inner_ne_outer (h.inner a ha) hkind).elim
    · intro a ha _
      exact ⟨opening, ps, closing, rfl, ⟨_, List.mem_singleton_self _, .self⟩, hin ha⟩

/-! ### Attributes -/

theorem phrase (a : Attribute Span) : Arranges a.tokens [a.phrase] [] [] := by
  apply whole (r := a.phrase)
  · exact cons a.symbol (cons a.name (optional a.content))
  · obtain ⟨kind, symbol, name, content⟩ := a
    cases content with
    | none => exact .of_merge rfl rfl (fun _ => ⟨Nat.le_refl _, rfl⟩) rfl
    | some text => exact .of_merge rfl rfl (fun _ => ⟨Nat.le_refl _, rfl⟩) rfl

theorem nested_attribute (h : Ascending a.tokens) : a.phrase.Nested :=
  (phrase a h).nested a.phrase (List.mem_singleton_self _)

theorem within_attribute (h : Ascending a.tokens) : Within a.tokens a.span :=
  (phrase a h).within a.phrase (List.mem_singleton_self _)

/-- An inner attribute is loose where it stands. -/
theorem inner (h : a.kind = .inner) : Arranges a.tokens [] [] [a] := by
  intro hasc
  constructor
  case nested => simp
  case inOrder => exact .nil
  case within => simp
  case told => exact fun t ht => .inr ⟨a, by simp [held], h, ht⟩
  case inner => simpa using h
  case beside => simp
  case sorted => exact List.pairwise_singleton ..
  case phrased => simpa [held] using nested_attribute hasc
  case attributes => simpa [held] using within_attribute hasc
  case apart => simp [held]
  case sits => simp

theorem attributes (run : List (Attribute Span)) :
    Arranges (run.flatMap Attribute.tokens) (leading run) [] (run.filter (·.kind.isInner)) := by
  induction run with
  | nil => exact nil
  | cons a run ih =>
    rw [List.flatMap_cons]
    cases hkind : a.kind with
    | inner =>
      have := (inner hkind).append ih
      simpa [leading, hkind, AttributeKind.isInner] using this
    | outer =>
      have := (phrase a).append ih
      simpa [leading, hkind, AttributeKind.isInner] using this

theorem ascending_of_mem_run (h : Ascending (run.flatMap Attribute.tokens)) (ha : a ∈ run) :
    Ascending a.tokens := by
  obtain ⟨before, after, rfl⟩ := List.append_of_mem ha
  rw [List.flatMap_append, List.flatMap_cons] at h
  exact (ascending_append.1 (ascending_append.1 h).2.1).1

theorem within_run (h : Ascending (run.flatMap Attribute.tokens)) (ha : a ∈ run) :
    Within (run.flatMap Attribute.tokens) a.span :=
  (within_attribute (ascending_of_mem_run h ha)).mono fun _ ht => List.mem_flatMap.2 ⟨a, ha, ht⟩

/-- Attributes of a run stand one behind the other. -/
theorem pairwise_run (h : Ascending (run.flatMap Attribute.tokens)) :
    run.Pairwise fun a b => a.span.stop ≤ b.span.start := by
  induction run with
  | nil => exact .nil
  | cons a run ih =>
    rw [List.flatMap_cons] at h
    obtain ⟨ha, hrun, -⟩ := ascending_append.1 h
    refine List.pairwise_cons.2 ⟨fun b hb => ?_, ih hrun⟩
    exact (within_attribute ha).le h (within_run hrun hb)

end Arranges

/-- A node with the outer attributes of a run in front of it. -/
def Holder.behind (run : List (Attribute Span)) (h : Holder) : Holder :=
  { h with attributes := run.filter (!·.kind.isInner) ++ h.attributes }

theorem mem_filter_outer : a ∈ run.filter (!·.kind.isInner) ↔ a ∈ run ∧ a.kind = .outer := by
  rw [List.mem_filter]
  cases a.kind <;> simp [AttributeKind.isInner]

theorem mem_filter_inner : a ∈ run.filter (·.kind.isInner) ↔ a ∈ run ∧ a.kind = .inner := by
  rw [List.mem_filter]
  cases a.kind <;> simp [AttributeKind.isInner]

theorem mem_held_behind : a ∈ held (h.behind run :: hs) (run.filter (·.kind.isInner)) ↔
    a ∈ run ∨ a ∈ held (h :: hs) [] := by
  simp only [held, Holder.behind, List.flatMap_cons, List.mem_append, mem_filter_outer,
    mem_filter_inner, List.not_mem_nil, or_false]
  cases a.kind <;> simp [or_assoc, or_comm]

variable {lead : Span} {rest : List Span}

theorem Holder.Sits.behind (hsits : h.Sits (lead :: rest) ps as) (hlead : h.lead = some lead)
    (hinner : ∀ a ∈ h.attributes, a.kind = .inner)
    (hin : ∀ a ∈ h.attributes, Within (lead :: rest) a.span)
    (hasc : Ascending (run.flatMap Attribute.tokens ++ lead :: rest)) (hrun : run ⊆ bs) :
    (h.behind run).Sits (run.flatMap Attribute.tokens ++ lead :: rest) (leading run ++ ps) bs := by
  constructor
  case sorted =>
    have houter := (Arranges.pairwise_run (ascending_append.1 hasc).1).sublist
      (List.filter_sublist (p := (!·.kind.isInner)))
    refine List.pairwise_append.2 ⟨houter.imp_of_mem ?_, hsits.sorted, ?_⟩
    · intro a b ha _ hle
      exact ⟨hle, fun hkind => (AttributeKind.inner_ne_outer hkind (mem_filter_outer.1 ha).2).elim⟩
    · intro a ha b hb
      obtain ⟨ha, hkind⟩ := mem_filter_outer.1 ha
      refine ⟨?_, fun _ => hinner b hb⟩
      exact (Arranges.within_run (ascending_append.1 hasc).1 ha).le hasc (hin b hb)
  case outer =>
    intro a ha hkind
    rcases List.mem_append.1 ha with ha | ha
    · obtain ⟨before, after, rfl⟩ := List.append_of_mem (mem_filter_outer.1 ha).1
      refine ⟨lead, hlead, before.flatMap Attribute.tokens, after, rest, by simp, fun b hb => ?_⟩
      exact hrun (List.mem_append_right _ (List.mem_cons_of_mem _ hb))
    · exact (AttributeKind.inner_ne_outer (hinner a ha) hkind).elim
  case inner =>
    intro a ha hkind
    rcases List.mem_append.1 ha with ha | ha
    · exact (AttributeKind.inner_ne_outer hkind (mem_filter_outer.1 ha).2).elim
    · obtain ⟨opening, inside, closing, hroom, hocc, hin⟩ := hsits.inner a ha hkind
      exact ⟨opening, inside, closing, hroom, hocc.mono (List.subset_append_right ..), hin⟩

/-- A run of attributes goes in front of a node: it gets the outer ones. -/
theorem Arranges.behind (hn : Arranges (lead :: rest) ps (h :: hs) [])
    (hlead : h.lead = some lead) (hinner : ∀ a ∈ h.attributes, a.kind = .inner) :
    Arranges (run.flatMap Attribute.tokens ++ lead :: rest) (leading run ++ ps)
      (h.behind run :: hs) (run.filter (·.kind.isInner)) := by
  intro hasc
  obtain ⟨hrun, hrest, -⟩ := ascending_append.1 hasc
  have hall := (attributes run).append hn hasc
  have hn := hn hrest
  -- In `hall` no node holds the outer attributes of the run. What is said of all that is held is
  -- shown of them and of the others in turn, the rest is what `hall` says.
  rw [List.nil_append, List.append_nil] at hall
  have hsub : held (h :: hs) (run.filter (·.kind.isInner)) ⊆
      held (h.behind run :: hs) (run.filter (·.kind.isInner)) := by
    intro a ha
    apply mem_held_behind.2
    rcases mem_held.1 ha with ha | ha
    · exact .inr (mem_held.2 (.inl ha))
    · exact .inl (mem_filter_inner.1 ha).1
  have hpairs := pairwise_run hrun
  constructor
  case nested => exact hall.nested
  case inOrder => exact hall.inOrder
  case within => exact hall.within
  case inner => exact hall.inner
  case beside => exact hall.beside
  case sorted => exact hall.sorted
  case told =>
    intro t ht
    rcases hall.told t ht with hocc | ⟨a, ha, hat⟩
    · exact .inl hocc
    · exact .inr ⟨a, hsub ha, hat⟩
  case phrased =>
    intro a ha
    rcases mem_held_behind.1 ha with ha | ha
    · exact nested_attribute (ascending_of_mem_run hrun ha)
    · exact hn.phrased a ha
  case attributes =>
    intro a ha
    rcases mem_held_behind.1 ha with ha | ha
    · exact (within_run hrun ha).mono (List.subset_append_left ..)
    · exact (hn.attributes a ha).mono (List.subset_append_right ..)
  case apart =>
    intro a ha b hb
    rcases mem_held_behind.1 ha with ha | ha <;> rcases mem_held_behind.1 hb with hb | hb
    · exact eq_or_apart_of_pairwise hpairs ha hb
    · exact .inr (.inl ((within_run hrun ha).le hasc (hn.attributes b hb)))
    · exact .inr (.inr ((within_run hrun hb).le hasc (hn.attributes a ha)))
    · exact hn.apart a ha b hb
  case sits =>
    have hhead := hn.sits h (by simp)
    refine List.forall_mem_cons.2 ⟨hhead.behind hlead hinner ?_ hasc ?_, fun g hg => ?_⟩
    · exact fun a ha => hn.attributes a (mem_held.2 (.inl ⟨h, by simp, ha⟩))
    · exact fun a ha => mem_held_behind.2 (.inl ha)
    · have := (hall.sits g (by simp [hg])).mono [] [] (fun _ hq => hq) hsub
      rwa [List.nil_append, List.append_nil] at this

end SchemaText
