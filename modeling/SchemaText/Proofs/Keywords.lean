import SchemaText.Proofs.Grammar.Complete.Statement
import SchemaText.Proofs.Grammar.Quiet
import SchemaText.Proofs.Parse.Parallel
import SchemaText.Proofs.Parser
import SchemaText.Proofs.Pattern.Passing

/-!
Keywords are whole words. At one place no more than one of them matches, so that it does not matter
in which order the statements are tried.
-/
namespace SchemaText

open Grammar Parse

variable {source : String} {options : Options} {t : String} {c : Char} {p q q' : Place}
  {kind kind' : StatementKind} {kinds kinds' : List StatementKind} {α : Type}

/-! ### Keywords and words -/

/-- A letter or a digit beyond ASCII, which no word holds. -/
def isForeignWordChar (c : Char) : Bool := 0x80 ≤ c.toNat && isAlphanumeric c

/-- The character that begins at an offset. -/
def charAt? (source : String) (offset : Nat) : Option Char :=
  (Place.seek? source.toList offset).bind (·.rest.head?)

theorem isWordChar_iff : Pattern.isWordChar c ↔ isWordPart c ∨ isForeignWordChar c := by
  constructor
  · intro h
    by_cases hc : c.toNat < 0x80
    · left
      simp only [Pattern.isWordChar, isAlphanumeric, if_pos hc, Bool.or_eq_true, beq_iff_eq,
        isAlphanum_iff] at h
      simp only [isWordPart, isWordStart, Bool.or_eq_true, Bool.and_eq_true, decide_eq_true_eq,
        beq_iff_eq]
      rcases h with ((h | h) | h) | h
      · exact .inl (.inl (.inr h))
      · exact .inl (.inl (.inl h))
      · exact .inr h
      · exact .inl (.inr h)
    · right
      have hne : c ≠ '_' := by
        rintro rfl
        exact hc (by decide)
      simpa [isForeignWordChar, Pattern.isWordChar, hne, Nat.not_lt.1 hc] using h
  · rintro (h | h)
    · exact isWordChar_of_isWordPart h
    · simp only [isForeignWordChar, Bool.and_eq_true] at h
      simp [Pattern.isWordChar, h.2]

/-- A word that is a keyword is matched as such, unless letters that it cannot hold follow. -/
theorem end?_keyword_iff_of_word (h : word.end? p = some q) (hp : p.Passes t.toList q) :
    (Pattern.keyword t).end? p = some q ↔ ∀ c ∈ q.rest.head?, ¬ isForeignWordChar c := by
  obtain ⟨-, -, -, hend⟩ := end?_word_iff.1 h
  rw [end?_keyword_iff]
  constructor
  · rintro ⟨-, hnext⟩ c hc hforeign
    have hfalse := hnext c hc
    rw [isWordChar_iff.2 (.inr hforeign)] at hfalse
    cases hfalse
  · intro hnext
    refine ⟨hp, fun c hc => Bool.eq_false_iff.2 fun hchar => ?_⟩
    rcases isWordChar_iff.1 hchar with hpart | hforeign
    · have hfalse := hend c hc
      rw [hpart] at hfalse
      cases hfalse
    · exact hnext c hc hforeign

theorem StatementKind.keyword_injective (h : kind.keyword = kind'.keyword) : kind = kind' := by
  revert h
  cases kind <;> cases kind' <;> decide

/-- The keywords of two statements do not match at one place. -/
theorem kind_eq_of_end? (h : (Grammar.keyword kind).end? p = some q)
    (h' : (Grammar.keyword kind').end? p = some q') : kind = kind' := by
  obtain ⟨hword, hspelled⟩ := end?_word_of_keyword (lexical_keyword kind) h
  obtain ⟨hword', hspelled'⟩ := end?_word_of_keyword (lexical_keyword kind') h'
  obtain rfl : q = q' := Option.some.inj (hword.symm.trans hword')
  exact StatementKind.keyword_injective (String.toList_inj.1 (hspelled.symm.trans hspelled'))

/-! ### The order of the statements -/

/-- Without its keyword a statement is not there. -/
theorem idle_statementOf {c : Cursor} (h : (Grammar.keyword kind).end? c.place = none) :
    Idle (statementOf kind) c := by
  have hrun := absent_statementOf h c rfl
  cases hresult : statementOf kind c with
  | ok a d =>
    rw [hresult] at hrun
    obtain ⟨rfl, -⟩ := hrun
    have hheard := (led_statementOf kind).silent c d hresult
    exact .inl ⟨d, hresult, hheard⟩
  | error failure d =>
    rw [hresult] at hrun
    cases failure with
    | mismatch m => exact hrun.elim
    | runaway n b => exact .inr ⟨n, b, d, hresult⟩

/-- Of reordered statements the same one may be found at a place, if any. -/
theorem filter_eq_of_perm (h : kinds.Perm kinds') (s : Place) :
    kinds.filter (fun kind => ((Grammar.keyword kind).end? s).isSome) =
      kinds'.filter fun kind => ((Grammar.keyword kind).end? s).isSome := by
  have hpairwise : ∀ ks : List StatementKind, ks.Pairwise fun _ _ => True :=
    fun _ => List.pairwise_of_forall fun _ _ => trivial
  apply List.Perm.eq_of_pairwise _ (hpairwise _) (hpairwise _) (h.filter _)
  intro kind kind' hk hk' _ _
  obtain ⟨q, hq⟩ := Option.isSome_iff_exists.1 (List.mem_filter.1 hk).2
  obtain ⟨q', hq'⟩ := Option.isSome_iff_exists.1 (List.mem_filter.1 hk').2
  exact kind_eq_of_end? hq hq'

theorem parallel_statement? (h : kinds.Perm kinds') :
    Parallel (statement? kinds) (statement? kinds') := by
  have hchoice : Parallel (choice (kinds.map statementOf)) (choice (kinds'.map statementOf)) := by
    intro c d hcd
    apply concur_choice (fun kind => (composed_statementOf kind).parallel) _
      (filter_eq_of_perm h c.place) rfl hcd
    intro kind hkind e he
    rw [Bool.not_eq_true, Option.isSome_eq_false_iff, Option.isNone_iff_eq_none, ← he] at hkind
    exact idle_statementOf hkind
  refine hchoice.bind fun found => ?_
  cases found with
  | none => exact .pure
  | some s => exact Parallel.record.bind fun _ => .pure

theorem parallel_block [HasAttributes α Span] {orphans : List Pattern}
    {item item' : Parse (Option α)} (h : Parallel item item') :
    Parallel (block orphans item) (block orphans item') := by
  apply Parallel.loop
  intro state
  refine composed_attributes.parallel.bind fun run => ?_
  refine h.bind fun node => ?_
  cases node with
  | some node => exact .pure
  | none =>
    dsimp only
    split
    · exact .pure
    · exact .fail

theorem parallel_document (h : kinds.Perm kinds') :
    Parallel (document kinds) (document kinds') := by
  refine (parallel_block (parallel_statement? h)).bind fun found => ?_
  have hend : Composed 1 (expect .endOfInput keywords [word]) :=
    .expect steady_endOfInput steady_finding_word
  exact hend.parallel.discard.bind fun _ => .pure

/-! ### Whole parses -/

/-- An event as it is told without the attempts. -/
def Event.uncounted : Event → Event
  | finished statements attributes _ => finished statements attributes 0
  | event => event

/-- The parse was not stopped. -/
def Run.Ended (r : Run) : Prop := ∀ n b, r.result ≠ .error (.runaway n b)

theorem Run.ended_of_ok {r : Run} {d : Document Span} (h : r.result = .ok d) : r.Ended := by
  intro n b hstop
  cases h.symm.trans hstop

/-- Runs that tell the same but for the number of attempts. -/
structure Run.Agree (r r' : Run) : Prop where
  result : r.result = r'.result
  events : r.events.map Event.uncounted = r'.events.map Event.uncounted

theorem agree_of_perm (h : kinds.Perm kinds') (hl : (runWith kinds source options).Ended)
    (hr : (runWith kinds' source options).Ended) :
    (runWith kinds source options).Agree (runWith kinds' source options) := by
  unfold runWith at hl hr ⊢
  dsimp only at hl hr ⊢
  split
  · exact ⟨rfl, rfl⟩
  · next hsize =>
    have hrun := parallel_document h _ _
      (.refl (.start source.toList options.attemptFactor))
    rw [if_neg hsize] at hl hr
    generalize document kinds _ = r at hrun hl ⊢
    generalize document kinds' _ = r' at hrun hr ⊢
    cases hrun with
    | ok habreast =>
      refine ⟨rfl, ?_⟩
      simp [Cursor.record, Event.uncounted, habreast.log]
    | mismatch hlog =>
      refine ⟨rfl, ?_⟩
      simp only [hlog]
    | left => exact absurd rfl (hl _ _)
    | right => exact absurd rfl (hr _ _)

theorem charAt?_eq {before : List Char} (h : (Place.start source.toList).Passes before q) :
    charAt? source q.offset = q.rest.head? := by
  rw [charAt?, h.seek?_eq, Option.bind_some]

/-- A keyword that matches is a whole word, and a word is matched as the keyword it spells unless a
letter or a digit beyond ASCII follows. So no two statements begin with keywords at one place, and
tried in any order they give the same parse, if none is stopped. -/
theorem keyword_isWholeWord (source : String) :
    (∀ (w : String) (offset stop : Nat), IsWord w.toList →
      ((Pattern.keyword w).matchAt? source offset = some stop →
        word.matchAt? source offset = some stop) ∧
      (word.matchAt? source offset = some stop →
        slice? offset stop source.toList = some w.toList →
          ((Pattern.keyword w).matchAt? source offset = some stop ↔
            ∀ c ∈ charAt? source stop, ¬ isForeignWordChar c))) ∧
    (∀ offset kind kind' stop stop',
      (Grammar.keyword kind).matchAt? source offset = some stop →
        (Grammar.keyword kind').matchAt? source offset = some stop' → kind = kind') ∧
    ∀ kinds options, kinds.Perm StatementKind.all → (runWith kinds source options).Ended →
      (run source options).Ended → (runWith kinds source options).Agree (run source options) := by
  refine ⟨fun w offset stop hw => ⟨?_, ?_⟩, ?_, fun kinds options => agree_of_perm⟩
  · intro h
    obtain ⟨before, p, q, hp, ho, hq, hstop⟩ := Pattern.matchAt?_eq_some_iff.1 h
    exact Pattern.matchAt?_eq_some_iff.2
      ⟨before, p, q, hp, ho, (end?_word_of_keyword hw hq).1, hstop⟩
  · intro h hslice
    obtain ⟨before, p, q, hp, rfl, hq, rfl⟩ := Pattern.matchAt?_eq_some_iff.1 h
    obtain ⟨x, hx⟩ := Pattern.exists_passes hq
    obtain rfl : x = w.toList := Option.some.inj ((hp.slice?_eq hx).symm.trans hslice)
    rw [charAt?_eq (hp.trans hx), ← end?_keyword_iff_of_word hq hx]
    constructor
    · intro hkeyword
      obtain ⟨before', p', q', hp', ho, hq', hstop⟩ := Pattern.matchAt?_eq_some_iff.1 hkeyword
      obtain rfl : p' = p := hp'.eq_of_offset_eq hp ho
      obtain ⟨hword, -⟩ := end?_word_of_keyword hw hq'
      rwa [Option.some.inj (hq.symm.trans hword)]
    · intro hkeyword
      exact Pattern.matchAt?_eq_some_iff.2 ⟨before, p, q, hp, rfl, hkeyword, rfl⟩
  · intro offset kind kind' stop stop' h h'
    obtain ⟨before, p, q, hp, ho, hq, -⟩ := Pattern.matchAt?_eq_some_iff.1 h
    obtain ⟨before', p', q', hp', ho', hq', -⟩ := Pattern.matchAt?_eq_some_iff.1 h'
    obtain rfl : p = p' := hp.eq_of_offset_eq hp' (ho.trans ho'.symm)
    exact kind_eq_of_end? hq hq'

/-- The word in the comment is read as a keyword only at the front, where a blank follows. -/
theorem isWholeWord_custom :
    word.matchAt? "custom A = B // customé" 0 = some 6 ∧
    (Grammar.keyword .custom).matchAt? "custom A = B // customé" 16 ≠ some 22 ∧
    (runWith StatementKind.all.reverse "custom A = B // customé" {}).Agree
      (run "custom A = B // customé" {}) := by
  have hkeyword : (Grammar.keyword .custom).matchAt? "custom A = B // customé" 0 = some 6 := by
    decide +kernel
  have hword : word.matchAt? "custom A = B // customé" 16 = some 22 := by decide +kernel
  have hslice : slice? 16 22 "custom A = B // customé".toList = some "custom".toList := by
    decide +kernel
  obtain ⟨hwords, -, hperm⟩ := keyword_isWholeWord "custom A = B // customé"
  have hcustom : IsWord "custom".toList := by decide
  refine ⟨(hwords "custom" 0 6 hcustom).1 hkeyword, ?_, ?_⟩
  · intro h
    refine ((hwords "custom" 16 22 hcustom).2 hword hslice).1 h 'é' ?_ ?_
    · decide +kernel
    · decide +kernel
  · have hrun : ∀ kinds ∈ [StatementKind.all.reverse, StatementKind.all],
        (runWith kinds "custom A = B // customé" {}).result = .ok
          ⟨[], [.custom ⟨[], ⟨0, 6⟩, ⟨7, 8⟩, ⟨9, 10⟩, ⟨⟨11, 12⟩, none⟩⟩]⟩ := by
      decide +kernel
    exact hperm _ _ (List.reverse_perm _) (Run.ended_of_ok (hrun _ (by simp)))
      (Run.ended_of_ok (hrun _ (by simp)))

end SchemaText
