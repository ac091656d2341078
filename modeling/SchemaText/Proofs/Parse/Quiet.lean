import SchemaText.Proofs.OrderedChoice
import SchemaText.Proofs.Parse.Composed

/-!
Parses that an observer hears nothing of but the patterns that they match, and the mismatch that
they fail with. A second run from the same place is heard like the first one.
-/
namespace SchemaText

/-- A pattern that is matched. -/
def Event.isAccepted : Event → Bool
  | accepted .. => true
  | started .. | statement .. | mismatch .. | finished .. => false

/-- What an observer hears of a failure. -/
def Failure.events : Failure → List Event
  | mismatch m => [.mismatch m]
  | runaway .. => []

namespace Cursor

variable {c c' c'' : Cursor} {as bs : List Event} {event : Event}

/-- From `c` to `c'` an observer hears these events. -/
def Heard (c : Cursor) (events : List Event) (c' : Cursor) : Prop :=
  c'.log = events.reverse ++ c.log

theorem Heard.refl (c : Cursor) : c.Heard [] c := rfl

theorem Heard.record (c : Cursor) (event : Event) : c.Heard [event] (c.record event) := rfl

theorem Heard.trans (h : c.Heard as c') (h' : c'.Heard bs c'') : c.Heard (as ++ bs) c'' := by
  rw [Heard, h', h, List.reverse_append, List.append_assoc]

theorem Heard.unique (h : c.Heard as c') (h' : c.Heard bs c') : as = bs := by
  rw [Heard] at h h'
  rw [h] at h'
  exact List.reverse_inj.1 (List.append_cancel_right h')

end Cursor

namespace Parse

variable {α β σ : Type} {p : Parse α} {f : α → Parse β} {c d : Cursor}

/-- Put together from steps and combinators that record no events of their own. -/
inductive Quiet : ∀ {α : Type}, Parse α → Prop where
  | pure {α : Type} {a : α} : Quiet (pure a)
  | accept {pattern : Pattern} : Quiet (accept pattern)
  | fail {α : Type} {expected mistakes : List Pattern} : Quiet (fail expected mistakes : Parse α)
  | bind {α β : Type} {p : Parse α} {f : α → Parse β} :
      Quiet p → (∀ a, Quiet (f a)) → Quiet (p >>= f)
  | lookahead {α : Type} {p : Parse α} : Quiet p → Quiet (lookahead p)
  | attempt {α : Type} {p : Parse (Option α)} : Quiet p → Quiet (attempt p)
  | loop {σ β : Type} {step : σ → Parse (Round σ β)} {state : σ} :
      (∀ state, Quiet (step state)) → Quiet (loop step state)

namespace Quiet

/-- A result that is only wrapped. -/
theorem map {p : Parse (Option α)} {g : α → β} (h : Quiet p) : Quiet (do return (← p).map g) :=
  h.bind fun _ => .pure

theorem discard (h : Quiet p) : Quiet (discard p) := by
  rw [discard_eq]
  exact h.bind fun _ => .pure

theorem expect {pattern : Pattern} {others mistakes : List Pattern} :
    Quiet (expect pattern others mistakes) := by
  refine bind .accept fun found => ?_
  cases found with
  | none => exact .fail
  | some span => exact .pure

theorem choice {alternatives : List (Parse (Option α))} (h : ∀ p ∈ alternatives, Quiet p) :
    Quiet (choice alternatives) := by
  induction alternatives with
  | nil => exact .pure
  | cons p alternatives ih =>
    rw [List.forall_mem_cons] at h
    refine h.1.lookahead.bind fun found => ?_
    cases found with
    | none => exact ih h.2
    | some a => exact h.1

theorem many {item : Parse (Option α)} (h : Quiet item) : Quiet (many item) := by
  refine .loop fun items => h.bind fun found => ?_
  cases found with
  | none => exact .pure
  | some a => exact .pure

theorem separated {item : Parse (Option α)} {separator : Parse (Option β)} {skip : Parse Unit}
    (hi : Quiet item) (hs : Quiet separator) (hk : Quiet skip) :
    Quiet (separated item separator skip) := by
  refine hi.bind fun first => ?_
  cases first with
  | none => exact .pure
  | some first =>
    refine .loop fun state => hk.bind fun _ => hs.bind fun b => ?_
    cases b with
    | none => exact .pure
    | some b =>
      refine hk.bind fun _ => hi.bind fun a => ?_
      cases a with
      | none => exact .pure
      | some a => exact .pure

end Quiet

/-! ### One run -/

/-- From `c` on, matches are heard and in the end the failure that the result is. -/
inductive TellsFrom (c : Cursor) : EStateM.Result Failure Cursor α → Prop where
  | ok {events : List Event} {a : α} {d : Cursor} : (∀ e ∈ events, e.isAccepted) →
      c.Heard events d → TellsFrom c (.ok a d)
  | error {events : List Event} {failure : Failure} {d : Cursor} : (∀ e ∈ events, e.isAccepted) →
      c.Heard (events ++ failure.events) d → TellsFrom c (.error failure d)

/-- What has been heard before is heard first. -/
theorem TellsFrom.behind {r : EStateM.Result Failure Cursor α} {events : List Event}
    (h : TellsFrom d r) (he : ∀ e ∈ events, e.isAccepted) (hcd : c.Heard events d) :
    TellsFrom c r := by
  cases h with
  | ok hrest hheard => exact .ok (List.forall_mem_append.2 ⟨he, hrest⟩) (hcd.trans hheard)
  | error hrest hheard =>
    refine .error (List.forall_mem_append.2 ⟨he, hrest⟩) ?_
    rw [List.append_assoc]
    exact hcd.trans hheard

theorem tells_accept (pattern : Pattern) (c : Cursor) : TellsFrom c (accept pattern c) := by
  have hnil : ∀ e ∈ ([] : List Event), e.isAccepted := List.forall_mem_nil _
  simp only [accept]
  split
  · exact .error hnil (.refl c)
  · split
    · exact .ok hnil (.refl c)
    · exact .ok (List.forall_mem_singleton.2 rfl) (.record c _)

theorem tells_rounds {step : σ → Parse (Round σ β)} {n : Nat} {state : σ}
    (h : ∀ state c, TellsFrom c (step state c)) (c : Cursor) :
    TellsFrom c (rounds step n state c) := by
  induction n generalizing state c with
  | zero => exact .error (List.forall_mem_nil _) (.refl c)
  | succ n ih =>
    have hstep := h state c
    simp only [rounds]
    generalize step state c = r at hstep ⊢
    cases hstep with
    | @ok events result d he hheard =>
      cases result with
      | again state' => exact (ih d).behind he hheard
      | done b => exact .ok he hheard
    | error he hheard => exact .error he hheard

/-- No mismatch is told but the one that the parse ends with. -/
theorem Quiet.tells (h : Quiet p) (c : Cursor) : TellsFrom c (p c) := by
  induction h generalizing c with
  | pure => exact .ok (List.forall_mem_nil _) (.refl c)
  | accept => exact tells_accept _ c
  | fail => exact .error (List.forall_mem_nil _) (.record c _)
  | @bind _ _ p f _ _ ihp ihf =>
    have hp := ihp c
    rw [bind_apply]
    generalize p c = r at hp ⊢
    cases hp with
    | @ok _ a d he hheard => exact (ihf a d).behind he hheard
    | error he hheard => exact .error he hheard
  | @lookahead _ p _ ih =>
    have hp := ih c
    rw [Parse.lookahead]
    generalize p c = r at hp ⊢
    cases hp with
    | ok he hheard => exact .ok he hheard
    | error he hheard => exact .error he hheard
  | @attempt _ p _ ih =>
    have hp := ih c
    rw [Parse.attempt]
    generalize p c = r at hp ⊢
    cases hp with
    | @ok _ a _ he hheard => cases a <;> exact .ok he hheard
    | error he hheard => exact .error he hheard
  | loop _ ih => exact tells_rounds ih c

/-! ### Two runs -/

/-- Runs from `c` and from `d` that come to results come to the same one, and the same is heard of
them. -/
inductive Alike (c d : Cursor) :
    EStateM.Result Failure Cursor α → EStateM.Result Failure Cursor α → Prop where
  | ok {events : List Event} {a : α} {c' d' : Cursor} : d'.place = c'.place →
      c.Heard events c' → d.Heard events d' → Alike c d (.ok a c') (.ok a d')
  | left {r : EStateM.Result Failure Cursor α} {failure : Failure} {c' : Cursor} :
      Alike c d (.error failure c') r
  | right {r : EStateM.Result Failure Cursor α} {failure : Failure} {d' : Cursor} :
      Alike c d r (.error failure d')

theorem Alike.behind {c' d' : Cursor} {r r' : EStateM.Result Failure Cursor α} {events : List Event}
    (h : Alike c' d' r r') (hc : c.Heard events c') (hd : d.Heard events d') : Alike c d r r' := by
  cases h with
  | ok hplace hc' hd' => exact .ok hplace (hc.trans hc') (hd.trans hd')
  | left => exact .left
  | right => exact .right

theorem alike_accept (pattern : Pattern) (hcd : d.place = c.place) :
    Alike c d (accept pattern c) (accept pattern d) := by
  by_cases hc : c.budget < c.attempts + 1
  · simp only [accept, hc, if_true]
    exact .left
  · by_cases hd : d.budget < d.attempts + 1
    · simp only [accept, hd, if_true]
      exact .right
    · simp only [accept, hc, hd, if_false, hcd]
      cases pattern.end? c.place with
      | none => exact .ok rfl (.refl c) (.refl d)
      | some q => exact .ok rfl (.record c _) (.record d _)

/-- The two runs may be allowed different numbers of rounds. -/
theorem alike_rounds {step : σ → Parse (Round σ β)} {m n : Nat} {state : σ}
    (h : ∀ {state c d}, d.place = c.place → Alike c d (step state c) (step state d))
    (hcd : d.place = c.place) : Alike c d (rounds step m state c) (rounds step n state d) := by
  induction m generalizing n state c d with
  | zero => exact .left
  | succ m ih =>
    cases n with
    | zero => exact .right
    | succ n =>
      have hstep : Alike c d (step state c) (step state d) := h hcd
      simp only [rounds]
      generalize step state c = r at hstep ⊢
      generalize step state d = r' at hstep ⊢
      cases hstep with
      | @ok _ result _ _ hplace hc hd =>
        cases result with
        | again state' => exact (ih hplace).behind hc hd
        | done b => exact .ok hplace hc hd
      | left => exact .left
      | right => exact .right

theorem Quiet.alike (h : Quiet p) (hcd : d.place = c.place) : Alike c d (p c) (p d) := by
  induction h generalizing c d with
  | pure => exact .ok hcd (.refl c) (.refl d)
  | accept => exact alike_accept _ hcd
  | fail => exact .left
  | @bind _ _ p f _ _ ihp ihf =>
    have hp := ihp hcd
    rw [bind_apply, bind_apply]
    generalize p c = r at hp ⊢
    generalize p d = r' at hp ⊢
    cases hp with
    | ok hplace hc hd => exact (ihf _ hplace).behind hc hd
    | left => exact .left
    | right => exact .right
  | @lookahead _ p _ ih =>
    have hp := ih hcd
    rw [Parse.lookahead, Parse.lookahead]
    generalize p c = r at hp ⊢
    generalize p d = r' at hp ⊢
    cases hp with
    | ok _ hc hd => exact .ok hcd hc hd
    | left => exact .left
    | right => exact .right
  | @attempt _ p _ ih =>
    have hp := ih hcd
    rw [Parse.attempt, Parse.attempt]
    generalize p c = r at hp ⊢
    generalize p d = r' at hp ⊢
    cases hp with
    | @ok _ a _ _ hplace hc hd =>
      cases a with
      | none => exact .ok hcd hc hd
      | some a => exact .ok hplace hc hd
    | left => exact .left
    | right => exact .right
  | loop _ ih => exact alike_rounds (fun hcd => ih _ hcd) hcd

/-! ### Alternatives -/

/-- Nothing is heard of `p` where it finds nothing. -/
def Silent (p : Parse (Option α)) : Prop := ∀ c d, p c = .ok none d → c.Heard [] d

theorem Led.silent {p : Parse (Option α)} (h : Led p) : Silent p := by
  induction h with
  | @accept _ pattern f hsome hnone =>
    intro c d h
    obtain ⟨found, c', hc, hd⟩ := ok_of_bind h
    cases found with
    | some span =>
      have hmatch := hsome span c'.place c' rfl
      rw [hd] at hmatch
      exact absurd rfl hmatch
    | none =>
      rw [hnone] at hd
      cases hd
      simp only [Parse.accept] at hc
      split at hc
      · cases hc
      · split at hc
        · cases hc
          exact .refl c
        · cases hc
  | map _ ih =>
    intro c d h
    obtain ⟨found, c', hc, hd⟩ := ok_of_bind h
    cases found with
    | none =>
      cases hd
      exact ih c _ hc
    | some a => cases hd

/-- What an observer hears of a choice that has come to a result: nothing if nothing is found, and
twice what there is to hear of the alternative that has matched. -/
inductive HeardOfChoice (c : Cursor) : Option α → Cursor → Prop where
  | none {d : Cursor} : c.Heard [] d → HeardOfChoice c none d
  | some {once : List Event} {a : α} {d : Cursor} : (∀ e ∈ once, e.isAccepted) →
      c.Heard (once ++ once) d → HeardOfChoice c (some a) d

theorem heard_choice {ps : List (Parse (Option α))} (hquiet : ∀ p ∈ ps, Quiet p)
    (hsilent : ∀ p ∈ ps, Silent p) {found : Option α} (h : choice ps c = .ok found d) :
    HeardOfChoice c found d := by
  induction ps generalizing c with
  | nil =>
    cases h
    exact .none (.refl _)
  | cons p ps ih =>
    rw [List.forall_mem_cons] at hquiet hsilent
    rw [choice_cons_apply] at h
    cases hp : p c with
    | error failure c' =>
      rw [hp] at h
      cases h
    | ok a c' =>
      rw [hp] at h
      cases a with
      | none =>
        have hnothing := hsilent.1 c c' hp
        cases ih hquiet.2 hsilent.2 h with
        | none hd => exact .none (hnothing.trans hd)
        | some he hd => exact .some he (hnothing.trans hd)
      | some a =>
        -- The second run begins where the first one has begun, so that it is heard like that one.
        have htells := hquiet.1.tells c
        have halike := hquiet.1.alike (c := c) (d := { c' with place := c.place }) rfl
        rw [hp] at htells halike
        simp only at h
        rw [h] at halike
        cases htells with
        | ok he hc' =>
          cases halike with
          | ok _ hagain hd =>
            obtain rfl := hc'.unique hagain
            exact .some he (hagain.trans hd)

end Parse

end SchemaText
