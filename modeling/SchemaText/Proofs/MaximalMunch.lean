import SchemaText.Proofs.Grammar.Token
import SchemaText.Proofs.Pattern.Greedy

/-!
Tokens are as long as they can be. The match of a token's expression that is preferred, the one with
the earlier alternative and with more repetitions, is the longest one in the language of the
expression.
-/
namespace SchemaText

open Grammar Regex CharSet

/-- The classes of tokens and of what stands between them. -/
def tokenClasses : List TokenClass := [identifier, whitespace, comment, content]

variable {cls : TokenClass} {source : String} {offset stop : Nat} {p q : Place}
  {text rest : List Char} {set : CharSet}

namespace TokenClass

/-- At an offset of a source, which is a boundary, stands a text of the class, in front of the
rest of the source. -/
structure StandsAt (cls : TokenClass) (source : String) (offset : Nat) (text rest : List Char) :
    Prop where
  nonempty : text ≠ []
  language : cls.expr.Matches text rest
  place : ∃ before, source.toList = before ++ (text ++ rest) ∧ byteLength before = offset

/-- Such a text that ends at `stop` and that no other one is longer than. -/
structure LongestAt (cls : TokenClass) (source : String) (offset stop : Nat)
    (text rest : List Char) : Prop extends cls.StandsAt source offset text rest where
  stop_eq : stop = offset + byteLength text
  longest : ∀ other more, cls.StandsAt source offset other more → other <+: text

end TokenClass

/-! ### The expressions of tokens -/

theorem greedy_identifier : Greedy identifier.expr :=
  (single_one _).greedy_seq (single_one _).greedy_star

theorem greedy_whitespace : Greedy whitespace.expr := (single_one _).greedy_plus

/-- There is one way to the end of a line. -/
theorem single_line (hset : set.has = (· != '\n')) : Single (seq (star (one set)) lineEnd) := by
  intro p
  obtain ⟨text, q, hp, hl⟩ := exists_lineRest p
  rw [ends_line hset hp hl]
  exact Nat.le_refl 1

theorem greedy_comment : Greedy comment.expr :=
  ((single_one _).seq ((single_one _).seq (single_line has_dot))).greedy

theorem single_pipeLine : Single pipeLine := by
  intro p
  by_cases hs : StartsPipe p.rest
  · obtain ⟨text, q, hp, hl⟩ := exists_pipeLine hs
    rw [ends_pipeLine hp hl]
    exact Nat.le_refl 1
  · rw [ends_pipeLine_nil hs]
    exact Nat.zero_le 1

/-- The rest of a line with its space in front. A match that leaves the space to the line may be as
long as one that takes it. -/
theorem greedy_afterDash :
    Greedy (seq (opt (one (only ' '))) (star (one (noneOf [('\n', '\n')])))) := by
  intro p e he q hq
  rw [end?_afterDash] at he
  cases he
  obtain ⟨text, hp, hm⟩ := mem_ends_iff.1 hq
  have hline : ∀ c ∈ text, (c != '\n') = true := by
    cases hm with
    | seq hspace hstar =>
      have hrest := hstar.forall_has
      rw [has_line] at hrest
      rw [List.forall_mem_append]
      refine ⟨?_, hrest⟩
      cases hspace with
      | optNone => exact List.forall_mem_nil _
      | optSome h =>
        cases h with
        | one hc =>
          obtain rfl := beq_iff_eq.1 hc
          exact List.forall_mem_singleton.2 rfl
  have hlen : byteLength text ≤ byteLength (p.rest.takeWhile (· != '\n')) := by
    rw [hp.1, List.takeWhile_append_of_pos hline, byteLength_append]
    exact Nat.le_add_right _ _
  have hoffset := hp.2
  simp only [Place.passWhile]
  omega

/-- No line begins both with a dash and with a bar. -/
theorem exclusive_dash_pipes : Exclusive (seq (one (only '-'))
    (seq (opt (one (only ' '))) (star (one (noneOf [('\n', '\n')]))))) (plus pipeLine) := by
  intro p
  by_cases hs : StartsPipe p.rest
  · left
    rw [← List.head?_eq_none_iff, Option.eq_none_iff_forall_ne_some]
    intro q hq
    obtain ⟨_, hp, line, rfl, -⟩ := end?_dash_iff.1 hq
    simp [hp.1, StartsPipe, isIndent] at hs
  · right
    rw [ends, ends_pipeLine_nil hs, List.flatMap_nil]

theorem greedy_content : Greedy content.expr :=
  ((single_one _).greedy_seq greedy_afterDash).alt single_pipeLine.greedy_plus exclusive_dash_pipes

theorem greedy_of_mem (h : cls ∈ tokenClasses) : Greedy cls.expr := by
  simp only [tokenClasses, List.mem_cons, List.not_mem_nil, or_false] at h
  rcases h with rfl | rfl | rfl | rfl
  · exact greedy_identifier
  · exact greedy_whitespace
  · exact greedy_comment
  · exact greedy_content

theorem consumes_of_mem (h : cls ∈ tokenClasses) : cls.expr.consumes := by
  revert cls
  decide

/-! ### Matches in a source -/

theorem standsAt_iff {before : List Char} (hp : (Place.start source.toList).Passes before p) :
    cls.StandsAt source p.offset text rest ↔
      text ≠ [] ∧ p.rest = text ++ rest ∧ cls.expr.Matches text rest := by
  constructor
  · rintro ⟨hne, hm, before', hsource, hlen⟩
    have hp' : (Place.start source.toList).Passes before' ⟨byteLength before', text ++ rest⟩ :=
      ⟨hsource, (Nat.zero_add _).symm⟩
    obtain rfl := hp.eq_of_offset_eq hp' hlen.symm
    exact ⟨hne, rfl, hm⟩
  · rintro ⟨hne, hrest, hm⟩
    exact ⟨hne, hm, before, hrest ▸ hp.1, hp.offset_eq.symm⟩

/-- The match at a place is the longest text that stands there. -/
theorem longestAt_of_end? {before : List Char} (hcls : cls ∈ tokenClasses)
    (hp : (Place.start source.toList).Passes before p)
    (hq : (Pattern.token cls).end? p = some q) (ht : p.Passes text q) :
    cls.LongestAt source p.offset q.offset text q.rest := by
  obtain ⟨text', ht', hm⟩ := mem_ends_iff.1 (List.mem_of_head? hq)
  obtain rfl : text' = text := ht'.upTo_eq.symm.trans ht.upTo_eq
  have hne := hm.ne_nil (consumes_of_mem hcls)
  refine ⟨(standsAt_iff hp).2 ⟨hne, ht.1, hm⟩, ht.2, ?_⟩
  intro other more hother
  obtain ⟨-, hrest, hmore⟩ := (standsAt_iff hp).1 hother
  have hpass : p.Passes other ⟨p.offset + byteLength other, more⟩ := ⟨hrest, rfl⟩
  exact (greedy_of_mem hcls).initial hq ht hpass hmore

namespace TokenClass

/-- Where a text of the class stands, there is a match. -/
theorem StandsAt.exists_end? (h : cls.StandsAt source offset text rest) :
    ∃ before p q, (Place.start source.toList).Passes before p ∧ p.offset = offset ∧
      p.rest = text ++ rest ∧ (Pattern.token cls).end? p = some q := by
  obtain ⟨before, hsource, rfl⟩ := h.place
  have hp : (Place.start source.toList).Passes before ⟨byteLength before, text ++ rest⟩ :=
    ⟨hsource, (Nat.zero_add _).symm⟩
  have hmem := mem_ends_iff.2 ⟨text, Place.passes_mk (byteLength before) text rest, h.language⟩
  obtain ⟨q, hq⟩ := Option.isSome_iff_exists.1 (List.isSome_head?.2 (List.ne_nil_of_mem hmem))
  exact ⟨before, _, q, hp, rfl, rfl, hq⟩

/-- The longest text is the one that is matched. -/
theorem LongestAt.exists_end? (h : cls.LongestAt source offset stop text rest)
    (hcls : cls ∈ tokenClasses) :
    ∃ before p q, (Place.start source.toList).Passes before p ∧ p.offset = offset ∧
      (Pattern.token cls).end? p = some q ∧ q.offset = stop ∧ p.Passes text q ∧ q.rest = rest := by
  obtain ⟨before, p, q, hp, rfl, hrest, hq⟩ := h.toStandsAt.exists_end?
  obtain ⟨text', ht⟩ := Pattern.exists_passes hq
  have hlongest := longestAt_of_end? hcls hp hq ht
  have hle := h.longest _ _ hlongest.toStandsAt
  have hge := hlongest.longest _ _ h.toStandsAt
  obtain rfl : text' = text := hle.eq_of_length_le hge.length_le
  refine ⟨before, p, q, hp, rfl, hq, ht.2.trans h.stop_eq.symm, ht, ?_⟩
  exact List.append_cancel_left (ht.1.symm.trans hrest)

/-- A token ends on a boundary of the source. -/
theorem LongestAt.isBoundary (h : cls.LongestAt source offset stop text rest) :
    IsBoundary source.toList stop ∧ stop ≤ byteLength source.toList := by
  obtain ⟨before, hsource, hlen⟩ := h.place
  have hprefix : before ++ text <+: source.toList := ⟨rest, by rw [hsource, List.append_assoc]⟩
  have hstop : byteLength (before ++ text) = stop := by
    rw [byteLength_append, hlen, h.stop_eq]
  exact ⟨⟨_, hprefix, hstop⟩, hstop ▸ byteLength_le_of_initial hprefix⟩

end TokenClass

/-- Each class of tokens is matched at an offset if a text stands there that its expression stands
for, and the match goes as far as the longest such text. A comment goes on behind its line feed or
to the end of the source, the content of an attribute up to the line feed or over all lines with
bars. -/
theorem matchAt?_isLongest (hcls : cls ∈ tokenClasses) (source : String) (offset : Nat) :
    ((∃ stop, (Pattern.token cls).matchAt? source offset = some stop) ↔
      ∃ text rest, cls.StandsAt source offset text rest) ∧
    ∀ stop, ((Pattern.token cls).matchAt? source offset = some stop ↔
        ∃ text rest, cls.LongestAt source offset stop text rest) ∧
      ∀ text rest, cls.LongestAt source offset stop text rest →
        IsBoundary source.toList stop ∧ stop ≤ byteLength source.toList ∧
        (cls = comment → ∃ line, text = '/' :: '/' :: line ∧ LineRest line rest) ∧
        (cls = content → DashLine text rest ∨ PipeRun text rest) := by
  have hlongest : ∀ stop, (Pattern.token cls).matchAt? source offset = some stop →
      ∃ text rest, cls.LongestAt source offset stop text rest := by
    intro stop h
    obtain ⟨before, p, q, hp, rfl, hq, rfl⟩ := Pattern.matchAt?_eq_some_iff.1 h
    obtain ⟨text, ht⟩ := Pattern.exists_passes hq
    exact ⟨text, q.rest, longestAt_of_end? hcls hp hq ht⟩
  refine ⟨⟨?_, ?_⟩, fun stop => ⟨⟨hlongest stop, ?_⟩, ?_⟩⟩
  · rintro ⟨stop, h⟩
    obtain ⟨text, rest, h⟩ := hlongest stop h
    exact ⟨text, rest, h.toStandsAt⟩
  · rintro ⟨text, rest, h⟩
    obtain ⟨before, p, q, hp, ho, -, hq⟩ := h.exists_end?
    exact ⟨q.offset, Pattern.matchAt?_eq_some_iff.2 ⟨before, p, q, hp, ho, hq, rfl⟩⟩
  · rintro ⟨text, rest, h⟩
    obtain ⟨before, p, q, hp, ho, hq, hstop, -⟩ := h.exists_end? hcls
    exact Pattern.matchAt?_eq_some_iff.2 ⟨before, p, q, hp, ho, hq, hstop⟩
  · intro text rest h
    obtain ⟨before, p, q, -, -, hq, -, ht, rfl⟩ := h.exists_end? hcls
    obtain ⟨hboundary, hle⟩ := h.isBoundary
    refine ⟨hboundary, hle, ?_, ?_⟩
    · rintro rfl
      obtain ⟨line, hline, hrest⟩ := end?_comment_iff.1 hq
      exact ⟨line, ht.upTo_eq.symm.trans hline.upTo_eq, hrest⟩
    · rintro rfl
      obtain ⟨text', ht', hshape⟩ := end?_content_iff.1 hq
      obtain rfl : text' = text := ht'.upTo_eq.symm.trans ht.upTo_eq
      exact hshape

/-- The last of the lines has no line feed. -/
theorem isLongest_bars : content ∈ tokenClasses ∧
    (Pattern.token content).matchAt? "é | a\r\n\t|b" 2 = some 11 ∧
    ∃ text rest, content.LongestAt "é | a\r\n\t|b" 2 11 text rest ∧
      (DashLine text rest ∨ PipeRun text rest) := by
  have hcls : content ∈ tokenClasses := by decide
  have hmatch : (Pattern.token content).matchAt? "é | a\r\n\t|b" 2 = some 11 := by decide +kernel
  obtain ⟨-, h⟩ := matchAt?_isLongest hcls "é | a\r\n\t|b" 2
  obtain ⟨hiff, hshape⟩ := h 11
  obtain ⟨text, rest, hlongest⟩ := hiff.1 hmatch
  obtain ⟨-, -, -, hcontent⟩ := hshape text rest hlongest
  exact ⟨hcls, hmatch, text, rest, hlongest, hcontent rfl⟩

end SchemaText
