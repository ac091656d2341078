import SchemaText.Proofs.Pattern.Passing

/-!
The language of a regular expression, which knows nothing of the order in which matches are tried.
The ends of a match are those of the texts in the language.
-/
namespace SchemaText.Regex

/-- A text that the expression stands for, in front of the rest of the text. Only the end of the
text asks for the rest. -/
inductive Matches : Regex → List Char → List Char → Prop where
  | finish : Matches finish [] []
  | one {set : CharSet} {c : Char} {rest : List Char} : set.has c → Matches (one set) [c] rest
  | seq {first second : Regex} {a b rest : List Char} :
      Matches first a (b ++ rest) → Matches second b rest → Matches (seq first second) (a ++ b) rest
  | altFirst {first second : Regex} {text rest : List Char} :
      Matches first text rest → Matches (alt first second) text rest
  | altSecond {first second : Regex} {text rest : List Char} :
      Matches second text rest → Matches (alt first second) text rest
  | optNone {body : Regex} {rest : List Char} : Matches (opt body) [] rest
  | optSome {body : Regex} {text rest : List Char} :
      Matches body text rest → Matches (opt body) text rest
  | starNil {body : Regex} {rest : List Char} : Matches (star body) [] rest
  | starCons {body : Regex} {a b rest : List Char} :
      Matches body a (b ++ rest) → Matches (star body) b rest → Matches (star body) (a ++ b) rest
  | plus {body : Regex} {a b rest : List Char} :
      Matches body a (b ++ rest) → Matches (star body) b rest → Matches (plus body) (a ++ b) rest

variable {r body : Regex} {set : CharSet} {step : Place → List Place} {bound : List Char}
  {p q s : Place} {text rest : List Char}

/-! ### Runs of steps -/

theorem runs_append (bound : List Char) (p : Place) (tail : List Place) :
    runs step bound p tail = runs step bound p [] ++ tail := by
  induction bound generalizing p tail with
  | nil => rfl
  | cons c bound ih =>
    have hfold : ∀ places tail : List Place, places.foldr (runs step bound) (p :: tail) =
        places.foldr (runs step bound) [p] ++ tail := by
      intro places tail
      induction places with
      | nil => rfl
      | cons s places ihp =>
        rw [List.foldr_cons, List.foldr_cons, ih s, ihp, ih s (places.foldr _ _), List.append_assoc]
    exact hfold _ tail

/-- First the runs that go on from the places behind a step, and then the one that stays. -/
theorem runs_cons (c : Char) (bound : List Char) (p : Place) (tail : List Place) :
    runs step (c :: bound) p tail =
      ((step p).filter fun s => s.offset != p.offset).flatMap (runs step bound · []) ++
        p :: tail := by
  rw [runs]
  induction (step p).filter fun s => s.offset != p.offset with
  | nil => rfl
  | cons s places ih =>
    rw [List.foldr_cons, runs_append, ih, List.flatMap_cons, List.append_assoc]

/-- A repetition may leave out what matches nothing. -/
theorem Matches.star_cases (h : Matches (star body) text rest) : text = [] ∨
    ∃ a b, text = a ++ b ∧ a ≠ [] ∧ Matches body a (b ++ rest) ∧ Matches (star body) b rest := by
  generalize hr : star body = r at h
  induction h with
  | starNil => exact .inl rfl
  | @starCons body' a b rest h h' _ ih =>
    cases hr
    by_cases ha : a = []
    · subst ha
      exact ih rfl
    · exact .inr ⟨a, b, rfl, ha, h, h'⟩
  | _ => cases hr

theorem Matches.forall_has (h : Matches (.star (.one set)) text rest) : ∀ c ∈ text, set.has c := by
  generalize hr : Regex.star (.one set) = r at h
  induction h with
  | starNil => exact List.forall_mem_nil _
  | starCons hbody _ _ ih =>
    cases hr
    cases hbody with
    | one hc =>
      rw [List.forall_mem_append]
      exact ⟨List.forall_mem_singleton.2 hc, ih rfl⟩
  | _ => cases hr

/-- The runs of an expression repeat it as often as they can, and less often. -/
theorem mem_runs_iff
    (hbody : ∀ {p q}, q ∈ body.ends p ↔ ∃ text, p.Passes text q ∧ Matches body text q.rest)
    (hb : p.rest.length ≤ bound.length) : q ∈ runs body.ends bound p [] ↔
      ∃ text, p.Passes text q ∧ Matches (star body) text q.rest := by
  induction bound generalizing p with
  | nil =>
    have hr : p.rest = [] := List.length_eq_zero_iff.1 (Nat.le_zero.1 hb)
    rw [runs, List.mem_singleton]
    constructor
    · rintro rfl
      exact ⟨[], .refl q, .starNil⟩
    · rintro ⟨text, hp, -⟩
      obtain ⟨rfl, -⟩ := List.append_eq_nil_iff.1 (hp.1.symm.trans hr)
      exact hp.eq_right (.refl p)
  | cons c bound ih =>
    rw [runs_cons, List.mem_append, List.mem_singleton, List.mem_flatMap]
    constructor
    · rintro (⟨s, hs, hq⟩ | rfl)
      · obtain ⟨hs, hne⟩ := List.mem_filter.1 hs
        obtain ⟨a, ha, hma⟩ := hbody.1 hs
        have hlen : s.rest.length ≤ bound.length := by
          have hpos : a ≠ [] := by
            rintro rfl
            simp [ha.2] at hne
          have := List.length_pos_iff.2 hpos
          rw [ha.1] at hb
          simp only [List.length_append, List.length_cons] at hb
          omega
        obtain ⟨b, hb, hmb⟩ := (ih hlen).1 hq
        exact ⟨a ++ b, ha.trans hb, .starCons (hb.1 ▸ hma) hmb⟩
      · exact ⟨[], .refl q, .starNil⟩
    · rintro ⟨text, hp, hm⟩
      rcases hm.star_cases with rfl | ⟨a, b, rfl, hne, hma, hmb⟩
      · exact .inr (hp.eq_right (.refl p))
      · left
        obtain ⟨s, ha, hb'⟩ := hp.exists_between
        have hpos := List.length_pos_iff.2 hne
        have hbytes := byteLength_pos hne
        have hlen : s.rest.length ≤ bound.length := by
          rw [ha.1] at hb
          simp only [List.length_append, List.length_cons] at hb
          omega
        refine ⟨s, List.mem_filter.2 ⟨hbody.2 ⟨a, ha, hb'.1 ▸ hma⟩, ?_⟩, (ih hlen).2 ⟨b, hb', hmb⟩⟩
        rw [bne_iff_ne, ha.2]
        omega

/-- The places where a match may end are those behind the texts of the language, whatever the
order in which they are tried. -/
theorem mem_ends_iff : q ∈ r.ends p ↔ ∃ text, p.Passes text q ∧ Matches r text q.rest := by
  induction r generalizing p q with
  | finish =>
    rw [ends]
    constructor
    · intro hq
      split at hq
      · obtain rfl := List.mem_singleton.1 hq
        rename_i hp
        rw [List.isEmpty_iff] at hp
        exact ⟨[], .refl q, hp.symm ▸ .finish⟩
      · simp at hq
    · rintro ⟨text, hp, hm⟩
      generalize hr : q.rest = rest at hm
      cases hm
      obtain rfl := hp.eq_right (.refl p)
      simp [hr]
  | one set =>
    constructor
    · intro hq
      cases hr : p.rest with
      | nil => simp [ends_one_nil hr] at hq
      | cons c rest =>
        rw [ends_one_cons hr] at hq
        split at hq
        · obtain rfl := List.mem_singleton.1 hq
          rename_i hc
          exact ⟨[c], ⟨hr, by simp⟩, .one hc⟩
        · simp at hq
    · rintro ⟨text, hp, hm⟩
      cases hm with
      | @one _ c _ hc =>
        rw [ends_one_cons hp.1, if_pos hc, List.mem_singleton]
        exact hp.eq_right ⟨hp.1, by simp⟩
  | seq first second ih ih' =>
    rw [ends, List.mem_flatMap]
    constructor
    · rintro ⟨s, hs, hq⟩
      obtain ⟨a, ha, hma⟩ := ih.1 hs
      obtain ⟨b, hb, hmb⟩ := ih'.1 hq
      exact ⟨a ++ b, ha.trans hb, .seq (hb.1 ▸ hma) hmb⟩
    · rintro ⟨text, hp, hm⟩
      cases hm with
      | seq hma hmb =>
        obtain ⟨s, ha, hb⟩ := hp.exists_between
        exact ⟨s, ih.2 ⟨_, ha, hb.1 ▸ hma⟩, ih'.2 ⟨_, hb, hmb⟩⟩
  | alt first second ih ih' =>
    rw [ends, List.mem_append, ih, ih']
    constructor
    · rintro (⟨text, hp, hm⟩ | ⟨text, hp, hm⟩)
      · exact ⟨text, hp, .altFirst hm⟩
      · exact ⟨text, hp, .altSecond hm⟩
    · rintro ⟨text, hp, hm⟩
      cases hm with
      | altFirst hm => exact .inl ⟨text, hp, hm⟩
      | altSecond hm => exact .inr ⟨text, hp, hm⟩
  | opt body ih =>
    rw [ends, List.mem_append, List.mem_singleton, ih]
    constructor
    · rintro (⟨text, hp, hm⟩ | rfl)
      · exact ⟨text, hp, .optSome hm⟩
      · exact ⟨[], .refl q, .optNone⟩
    · rintro ⟨text, hp, hm⟩
      cases hm with
      | optNone => exact .inr (hp.eq_right (.refl p))
      | optSome hm => exact .inl ⟨text, hp, hm⟩
  | star body ih =>
    rw [ends]
    exact mem_runs_iff ih (Nat.le_refl _)
  | plus body ih =>
    rw [ends, List.mem_flatMap]
    constructor
    · rintro ⟨s, hs, hq⟩
      obtain ⟨a, ha, hma⟩ := ih.1 hs
      obtain ⟨b, hb, hmb⟩ := (mem_runs_iff ih (Nat.le_refl _)).1 hq
      exact ⟨a ++ b, ha.trans hb, .plus (hb.1 ▸ hma) hmb⟩
    · rintro ⟨text, hp, hm⟩
      cases hm with
      | plus hma hmb =>
        obtain ⟨s, ha, hb⟩ := hp.exists_between
        exact ⟨s, ih.2 ⟨_, ha, hb.1 ▸ hma⟩, (mem_runs_iff ih (Nat.le_refl _)).2 ⟨_, hb, hmb⟩⟩

end SchemaText.Regex
