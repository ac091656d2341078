import SchemaText.Proofs.Grammar.Token
import SchemaText.Proofs.Parse.Ensures
import SchemaText.Proofs.Tree.Written

/-!
The tokens that a parse goes over, and how a failed parse could have gone on.
-/
namespace SchemaText

/-- A token as it stands in a source. -/
structure Token where
  span : Span
  text : List Char
deriving DecidableEq, Repr

/-- The token from one place to a later one. -/
def Token.between (p q : Place) : Token := ⟨p.spanTo q, p.upTo q⟩

/-- From `s` on, with trivia in front of each, there are the tokens of `slots`; they are followed
by `e` or the trivia around it. -/
def Reads : Place → List (Slot Token) → Place → Prop
  | s, [], e => s.skip = e.skip
  | s, (pattern, token) :: slots, e =>
    ∃ q, Grammar.Lexical pattern ∧ pattern.end? s.skip = some q ∧ token = .between s.skip q ∧
      Reads q slots e

variable {s s' q e : Place} {slots slots' : List (Slot Token)} {pattern : Pattern} {token : Token}

namespace Reads

theorem refl (s : Place) : Reads s [] s := rfl

theorem skip_refl (s : Place) : Reads s [] s.skip := s.skip_skip.symm

theorem single (hp : Grammar.Lexical pattern) (h : pattern.end? s.skip = some q) :
    Reads s [(pattern, .between s.skip q)] q :=
  ⟨q, hp, h, rfl, rfl⟩

theorem congr_left (hs : s.skip = s'.skip) (h : Reads s' slots e) : Reads s slots e := by
  cases slots with
  | nil => exact hs.trans h
  | cons slot slots =>
    obtain ⟨q, hp, hq, ht, hr⟩ := h
    exact ⟨q, hp, hs ▸ hq, hs ▸ ht, hr⟩

theorem append (h : Reads s slots q) (h' : Reads q slots' e) : Reads s (slots ++ slots') e := by
  induction slots generalizing s with
  | nil => exact congr_left h h'
  | cons slot slots ih =>
    obtain ⟨r, hp, hr, ht, hq⟩ := h
    exact ⟨r, hp, hr, ht, ih hq⟩

theorem skip_right (h : Reads s slots e) : Reads s slots e.skip := by
  have := h.append (skip_refl e)
  rwa [List.append_nil] at this

theorem skip_left (h : Reads s.skip slots e) : Reads s slots e := congr_left s.skip_skip.symm h

end Reads

/-! ### Failures -/

/-- The last tokens are attributes, and an outer one of them waits for its item. -/
def Dangling (slots : List (Slot Token)) : Prop :=
  ∃ init run, slots = init ++ attributeSlots run ∧ ∃ a ∈ run, a.kind = .outer

/-- Nothing of what is expected stands at `e`. Only the sign that closes a body is also expected
where it stands, if there are attributes in front of it that have no item. -/
def Missing (slots : List (Slot Token)) (e : Place) (expected : List Pattern) : Prop :=
  (∀ p ∈ expected, p.end? e = none) ∨
    ∃ closing ∈ [Grammar.braceClose, Grammar.parenClose], expected = [closing] ∧ Dangling slots

/-- Behind the tokens of `slots`, `m` tells what stands at `e`, where a word may stand for a
mistake, and what was expected in its place. -/
structure Raised (slots : List (Slot Token)) (e : Place) (m : Mismatch) : Prop where
  offset : m.offset = e.offset
  found : m.found = .lookAt m.mistakes e
  mistakes : m.mistakes = [] ∨ m.mistakes = [Grammar.word]
  expected : Missing slots e m.expected

theorem Missing.singleton (h : pattern.end? e = none) : Missing slots e [pattern] :=
  .inl (List.forall_mem_singleton.2 h)

theorem Dangling.append_left (h : Dangling slots') : Dangling (slots ++ slots') := by
  obtain ⟨init, run, rfl, ha⟩ := h
  exact ⟨slots ++ init, run, (List.append_assoc ..).symm, ha⟩

theorem Raised.append_left {m : Mismatch} (h : Raised slots' e m) : Raised (slots ++ slots') e m :=
  { h with expected := h.expected.imp_right fun ⟨closing, hc, he, hd⟩ =>
      ⟨closing, hc, he, hd.append_left⟩ }

/-- The tokens that complete a parse which has failed. -/
def fillers : List Pattern :=
  [Grammar.word, Grammar.braceOpen, Grammar.braceClose, Grammar.parenClose, Grammar.bracketClose,
    Grammar.colon, Grammar.equals, Grammar.arrow, Grammar.keyword .enum]

/-- At most `n` of these tokens. -/
def Filling (n : Nat) (patterns : List Pattern) : Prop :=
  patterns.length ≤ n ∧ patterns ⊆ fillers

instance (n : Nat) (patterns : List Pattern) : Decidable (Filling n patterns) :=
  inferInstanceAs (Decidable (_ ∧ ∀ p ∈ patterns, p ∈ fillers))

theorem Filling.cons {n : Nat} {pattern : Pattern} {patterns : List Pattern}
    (h : patterns ⊆ fillers) (hp : pattern ∈ fillers) (hn : 1 + patterns.length ≤ n) :
    Filling n (pattern :: patterns) :=
  ⟨by rw [List.length_cons]; omega, List.cons_subset.2 ⟨hp, h⟩⟩

/-- A last word "as" right in front of `e` may be the keyword, were it not for what is at `e`. -/
def Recast (e : Place) (slots slots' : List (Slot Token)) : Prop :=
  slots' = slots ∨ ∃ init token, slots = init ++ [(Grammar.word, token)] ∧
    slots' = init ++ [(Grammar.keywordAs, token)] ∧ token.text = "as".toList ∧
    token.span.stop = e.offset

/-- A parse from `s` on has failed with `m`, and at most `n` more tokens would have completed what
it had read to a text of the language `lang`. -/
def Stuck (n : Nat) (lang : List (Slot Token) → Prop) (s : Place) (m : Mismatch) : Prop :=
  ∃ slots slots' e patterns, Reads s slots e ∧ e.skip = e ∧ Raised slots e m ∧
    Recast e slots slots' ∧ .endOfInput ∉ m.expected ∧ Filling n patterns ∧
    ∀ more : List (Slot Token), more.map Prod.fst = patterns → lang (slots' ++ more)

theorem forall_map_fst_nil {P : List (Slot Token) → Prop} :
    (∀ more : List (Slot Token), more.map Prod.fst = [] → P more) ↔ P [] := by
  simp

theorem forall_map_fst_cons {P : List (Slot Token) → Prop} {p : Pattern} {ps : List Pattern} :
    (∀ more : List (Slot Token), more.map Prod.fst = p :: ps → P more) ↔
      ∀ token, ∀ more : List (Slot Token), more.map Prod.fst = ps → P ((p, token) :: more) := by
  constructor
  · intro h token more hm
    exact h _ (by simp [hm])
  · intro h more hm
    obtain ⟨⟨_, token⟩, rest, rfl, rfl, hrest⟩ := List.map_eq_cons_iff.1 hm
    exact h token rest hrest

namespace Stuck

variable {n k N : Nat} {lang lang' : List (Slot Token) → Prop} {m : Mismatch}

/-- What has failed within something larger can be completed to it. -/
theorem within (hr : Reads s slots q) (h : Stuck n lang q m) (extra : List Pattern)
    (hx : extra ⊆ fillers) (hN : n + extra.length ≤ N) (hl : ∀ inner, lang inner →
      ∀ more : List (Slot Token), more.map Prod.fst = extra → lang' (slots ++ inner ++ more)) :
    Stuck N lang' s m := by
  obtain ⟨inner, inner', e, patterns, hi, he, hm, hc, hn, ⟨hlen, hmem⟩, hlang⟩ := h
  refine ⟨slots ++ inner, slots ++ inner', e, patterns ++ extra, hr.append hi, he, hm.append_left,
    ?_, hn, ⟨?_, ?_⟩, ?_⟩
  · obtain rfl | ⟨init, token, rfl, rfl, ht, hs⟩ := hc
    · exact .inl rfl
    · exact .inr ⟨slots ++ init, token, by simp, by simp, ht, hs⟩
  · rw [List.length_append]
    omega
  · exact List.append_subset.2 ⟨hmem, hx⟩
  · intro more hmore
    obtain ⟨first, second, rfl, h1, h2⟩ := List.map_eq_append_iff.1 hmore
    have := hl _ (hlang first h1) second h2
    simpa [List.append_assoc] using this

/-- What has failed behind something else. -/
theorem after (hr : Reads s slots q) (h : Stuck n lang q m) (hN : n ≤ N)
    (hl : ∀ inner, lang inner → lang' (slots ++ inner)) : Stuck N lang' s m := by
  refine h.within hr [] (by simp) hN fun inner hi => ?_
  rw [forall_map_fst_nil, List.append_nil]
  exact hl inner hi

end Stuck

open Parse

variable {n : Nat} {lang : List (Slot Token) → Prop}

/-- A demanded token is read, or what was read before it could have gone on with that token and
some more. -/
theorem ensures_expect {mistakes : List Pattern} (hr : Reads s slots q)
    (hm : mistakes = [] ∨ mistakes = [Grammar.word]) (hp : Grammar.Lexical pattern)
    (patterns : List Pattern) (hf : Filling n patterns)
    (hl : ∀ more : List (Slot Token), more.map Prod.fst = patterns → lang (slots ++ more)) :
    Ensures (expect pattern [] mistakes) q.skip
      (fun span r => ∃ token : Token, span = token.span ∧ Reads s (slots ++ [(pattern, token)]) r)
      (Stuck n lang s) := by
  refine Ensures.expect (fun r h => ⟨.between q.skip r, rfl, hr.append (.single hp h)⟩) fun h => ?_
  refine ⟨slots, slots, q.skip, patterns, hr.skip_right, q.skip_skip,
    ⟨rfl, rfl, hm, .singleton h⟩, .inl rfl, ?_, hf, hl⟩
  rw [List.mem_singleton]
  rintro rfl
  exact hp

/-- A token that may be missing is read, or is not there. -/
theorem ensures_optional {bad : Mismatch → Prop} (pattern : Pattern) (hp : Grammar.Lexical pattern)
    (hr : Reads s slots q) :
    Ensures (accept pattern) q.skip (fun span r => ∃ token : Option Token,
      span = token.map Token.span ∧ Reads s (slots ++ optionalSlot pattern token) r ∧
      (token = none → r = q.skip ∧ pattern.end? q.skip = none)) bad := by
  refine Ensures.accept (fun r h => ?_) fun h => ?_
  · exact ⟨some (.between q.skip r), rfl, hr.append (.single hp h), by simp⟩
  · exact ⟨none, rfl, hr.append (.skip_refl q), fun _ => ⟨rfl, h⟩⟩

end SchemaText
