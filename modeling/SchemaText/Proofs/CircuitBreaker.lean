import SchemaText.Proofs.Parse.Plain

/-!
The budget ends every loop whose rounds take attempts, and nothing gives attempts back.
-/
namespace SchemaText

open Parse (Round loop rounds)

variable {α β γ δ σ : Type} {c d : Cursor} {n : Nat}

/-! ### Loops -/

/-- Run again and again from a cursor, `p` gives results of the form `f` up to another cursor. -/
inductive Repeats (p : Parse γ) (f : δ → γ) : Cursor → List δ → Cursor → Prop where
  | nil {c : Cursor} : Repeats p f c [] c
  | cons {c d e : Cursor} {x : δ} {xs : List δ} :
      p c = .ok (f x) d → Repeats p f d xs e → Repeats p f c (x :: xs) e

/-- What a loop comes to after so many results of the form `f`, and one more that is not. -/
inductive LoopRun (p : Parse γ) (f : δ → γ) (result : List δ → γ → β) (c : Cursor) :
    Nat → EStateM.Result Failure Cursor β → Prop where
  | done {xs : List δ} {d e : Cursor} {g : γ} : Repeats p f c xs d → p d = .ok g e →
      (∀ x, g ≠ f x) → LoopRun p f result c xs.length (.ok (result xs g) e)
  | failed {xs : List δ} {d e : Cursor} {failure : Failure} : Repeats p f c xs d →
      p d = .error failure e → LoopRun p f result c xs.length (.error failure e)

theorem LoopRun.again {p : Parse γ} {f : δ → γ} {result : List δ → γ → β} {x : δ}
    {r : EStateM.Result Failure Cursor β} (hp : p c = .ok (f x) d)
    (h : LoopRun p f (fun xs => result (x :: xs)) d n r) : LoopRun p f result c (n + 1) r := by
  cases h with
  | done hxs hlast hg => exact .done (.cons hp hxs) hlast hg
  | failed hxs hlast => exact .failed (.cons hp hxs) hlast

/-- A result that takes attempts comes within the budget. -/
theorem allowance_lt {p : Script γ} {g : γ} (h : p.Plain) (hp : p.run c = .ok g d)
    (hlt : c.attempts < d.attempts) : d.allowance < c.allowance := by
  have hle := h.attempts_le hp
  have hbudget := Script.budget_of_run hp
  rw [Cursor.allowance, Cursor.allowance]
  omega

section Loop

variable {next : σ → γ → Round σ β}

theorem rounds_succ_apply (body : Parse γ) (s : σ) (c : Cursor) :
    rounds (fun s => do return next s (← body)) (n + 1) s c =
      match body c with
      | .ok g c' =>
        match next s g with
        | .again s' => rounds (fun s => do return next s (← body)) n s' c'
        | .done b => .ok b c'
      | .error e c' => .error e c' := by
  have hround : (do return next s (← body) : Parse (Round σ β)) c =
      match body c with
      | .ok g c' => .ok (next s g) c'
      | .error e c' => .error e c' := Parse.bind_apply body _ c
  simp only [rounds, hround]
  cases body c with
  | ok g c' =>
    simp only
    cases next s g <;> rfl
  | error e c' => rfl

variable {body : Script γ} {f : δ → γ} (state : List δ → σ) (result : List δ → γ → β)

/-- Rounds that all run `body`, and go on after the results of the form `f`, come to an end, because
these take attempts. -/
theorem rounds_end (hplain : body.Plain)
    (hcounts : ∀ {c x d}, body.run c = .ok (f x) d → c.attempts < d.attempts)
    (hagain : ∀ xs x, next (state xs) (f x) = .again (state (xs ++ [x])))
    (hdone : ∀ xs g, (∀ x, g ≠ f x) → next (state xs) g = .done (result xs g))
    (hn : c.allowance < n) :
    ∃ k ≤ c.allowance, LoopRun body.run f result c k
      (rounds (fun s => do return next s (← body.run)) n (state []) c) := by
  -- With each round fewer attempts are left, so that the rounds allowed never run out.
  induction n generalizing state result c with
  | zero => omega
  | succ n ih =>
    rw [rounds_succ_apply]
    cases hc : body.run c with
    | error failure e => exact ⟨0, Nat.zero_le _, .failed .nil hc⟩
    | ok g c' =>
      by_cases hg : ∃ x, g = f x
      · obtain ⟨x, rfl⟩ := hg
        have hlt := allowance_lt hplain hc (hcounts hc)
        obtain ⟨k, hk, hrun⟩ := ih (fun xs => state (x :: xs)) (fun xs => result (x :: xs))
          (fun xs => hagain (x :: xs)) (fun xs => hdone (x :: xs)) (c := c') (by omega)
        simp only [hagain]
        exact ⟨k + 1, by omega, hrun.again hc⟩
      · have hnone := not_exists.1 hg
        have hlast : LoopRun body.run f result c 0 (.ok (result [] g) c') := .done .nil hc hnone
        simp only [hdone [] g hnone]
        exact ⟨0, Nat.zero_le _, hlast⟩

theorem loop_ends (hplain : body.Plain)
    (hcounts : ∀ {c x d}, body.run c = .ok (f x) d → c.attempts < d.attempts)
    (hagain : ∀ xs x, next (state xs) (f x) = .again (state (xs ++ [x])))
    (hdone : ∀ xs g, (∀ x, g ≠ f x) → next (state xs) g = .done (result xs g)) (c : Cursor) :
    ∃ k ≤ c.allowance, LoopRun body.run f result c k
      (loop (fun s => do return next s (← body.run)) (state []) c) :=
  rounds_end state result hplain hcounts hagain hdone (Nat.lt_succ_self _)

end Loop

/-! ### Combinators -/

/-- Each match takes a call of `accept`. -/
def Script.Counts (p : Script (Option α)) : Prop :=
  ∀ {c a d}, p.run c = .ok (some a) d → 0 < p.cost c

section Combinators

variable {item : Script (Option α)} {separator : Script (Option β)} {skip : Script Unit}

theorem Script.Counts.attempts_lt {a : α} (h : item.Counts) (hrun : item.run c = .ok (some a) d) :
    c.attempts < d.attempts := by
  have hcost := h hrun
  have hattempts := Script.attempts_of_run hrun
  omega

theorem many_ends (hplain : item.Plain) (hcounts : item.Counts) (c : Cursor) :
    ∃ k ≤ c.allowance, LoopRun item.run some (fun items _ => items) c k
      (Parse.many item.run c) := by
  have hmany : Parse.many item.run = loop (fun items : Array α => do
      return (← item.run).elim (.done items.toList) fun a => .again (items.push a)) #[] := by
    rw [Parse.many]
    congr 1
    funext items
    congr 1
    funext found
    cases found <;> rfl
  rw [hmany]
  refine loop_ends List.toArray (fun items _ => items) hplain hcounts.attempts_lt ?_ ?_ c
  · intro items a
    simp
  · intro items found hnone
    cases found with
    | none => rfl
    | some a => exact absurd rfl (hnone a)

/-- A separator and the item behind it, if there are such. -/
def lap (item : Script (Option α)) (separator : Script (Option β)) (skip : Script Unit) :
    Script (Option (β × Option α)) := do
  skip
  let some b ← separator | return none
  skip
  return some (b, ← item)

/-- A lap with an item. -/
def fullLap : β × α → Option (β × Option α) := fun (b, a) => some (b, some a)

/-- The items and separators after the first item, the full laps and one that is not. -/
def separatedOf (first : α) (laps : List (β × α)) (last : Option (β × Option α)) :
    Separated α β where
  items := first :: laps.map Prod.snd
  separators := laps.map Prod.fst ++ (last.map Prod.fst).toList

/-- What items with separators between them come to after so many full laps. -/
inductive SeparatedRun (item : Script (Option α)) (separator : Script (Option β))
    (skip : Script Unit) (c : Cursor) :
    Nat → EStateM.Result Failure Cursor (Separated α β) → Prop where
  | empty {d : Cursor} : item.run c = .ok none d →
      SeparatedRun item separator skip c 0 (.ok ⟨[], []⟩ d)
  | failed {failure : Failure} {d : Cursor} : item.run c = .error failure d →
      SeparatedRun item separator skip c 0 (.error failure d)
  | laps {first : α} {d : Cursor} {k : Nat} {r : EStateM.Result Failure Cursor (Separated α β)} :
      item.run c = .ok (some first) d →
      LoopRun (lap item separator skip).run fullLap (separatedOf first) d k r →
      SeparatedRun item separator skip c k r

theorem lap_plain (hi : item.Plain) (hs : separator.Plain) (hk : skip.Plain) :
    (lap item separator skip).Plain := by
  refine hk.bind fun _ => hs.bind fun b => ?_
  cases b with
  | none => exact .pure none
  | some b => exact hk.bind fun _ => hi.bind fun a => .pure _

theorem attempts_lt_of_lap {x : β × α} (hcounts : item.Counts ∨ separator.Counts)
    (h : (lap item separator skip).run c = .ok (fullLap x) d) : c.attempts < d.attempts := by
  obtain ⟨_, c₁, hskip, h⟩ := Parse.ok_of_bind h
  obtain ⟨b, c₂, hb, h⟩ := Parse.ok_of_bind h
  cases b with
  | none => cases h
  | some b =>
    obtain ⟨_, c₃, hskip', h⟩ := Parse.ok_of_bind h
    obtain ⟨a, c₄, ha, h⟩ := Parse.ok_of_bind h
    cases h
    have h₁ := Script.attempts_le_of_run hskip
    have h₂ := Script.attempts_le_of_run hb
    have h₃ := Script.attempts_le_of_run hskip'
    have h₄ := Script.attempts_le_of_run ha
    rcases hcounts with hcounts | hcounts
    · have hlt := hcounts.attempts_lt ha
      omega
    · have hlt := hcounts.attempts_lt hb
      omega

/-- How items with separators go on after a lap. -/
def nextLap : Array α × Array β → Option (β × Option α) →
    Round (Array α × Array β) (Separated α β)
  | (items, separators), none => .done ⟨items.toList, separators.toList⟩
  | (items, separators), some (b, none) => .done ⟨items.toList, (separators.push b).toList⟩
  | (items, separators), some (b, some a) => .again (items.push a, separators.push b)

/-- The items and separators after the first item and some full laps. -/
def lapsState (first : α) (laps : List (β × α)) : Array α × Array β :=
  ((first :: laps.map Prod.snd).toArray, (laps.map Prod.fst).toArray)

theorem nextLap_fullLap (first : α) (laps : List (β × α)) (lap : β × α) :
    nextLap (lapsState first laps) (fullLap lap) = .again (lapsState first (laps ++ [lap])) := by
  simp [nextLap, lapsState, fullLap]

theorem nextLap_last (first : α) (laps : List (β × α)) (last : Option (β × Option α))
    (h : ∀ lap, last ≠ fullLap lap) :
    nextLap (lapsState first laps) last = .done (separatedOf first laps last) := by
  cases last with
  | none => simp [nextLap, lapsState, separatedOf]
  | some last =>
    obtain ⟨b, a⟩ := last
    cases a with
    | none => simp [nextLap, lapsState, separatedOf]
    | some a => exact absurd rfl (h (b, a))

theorem separated_apply (c : Cursor) : Parse.separated item.run separator.run skip.run c =
    match item.run c with
    | .ok (some first) d =>
      loop (fun s => do return nextLap s (← (lap item separator skip).run)) (#[first], #[]) d
    | .ok none d => .ok ⟨[], []⟩ d
    | .error failure d => .error failure d := by
  rw [Parse.separated, Parse.bind_apply]
  cases item.run c with
  | error failure d => rfl
  | ok first d =>
    cases first with
    | none => rfl
    | some first =>
      change loop _ _ d = loop _ _ d
      congr 1
      funext state
      rw [lap]
      simp only [Script.run_bind, bind_assoc]
      congr 1
      funext _
      congr 1
      funext b
      cases b with
      | none => rfl
      | some b =>
        simp only [Script.run_bind, bind_assoc]
        congr 1
        funext _
        congr 1
        funext a
        cases a <;> rfl

theorem separated_ends (hi : item.Plain) (hs : separator.Plain) (hk : skip.Plain)
    (hcounts : item.Counts ∨ separator.Counts) (c : Cursor) :
    ∃ k ≤ c.allowance, SeparatedRun item separator skip c k
      (Parse.separated item.run separator.run skip.run c) := by
  rw [separated_apply]
  cases hc : item.run c with
  | error failure d => exact ⟨0, Nat.zero_le _, .failed hc⟩
  | ok found d =>
    cases found with
    | none => exact ⟨0, Nat.zero_le _, .empty hc⟩
    | some first =>
      obtain ⟨k, hk, hrun⟩ := loop_ends (lapsState first) (separatedOf first) (lap_plain hi hs hk)
        (attempts_lt_of_lap hcounts) (nextLap_fullLap first) (nextLap_last first) d
      have hattempts := Script.attempts_le_of_run hc
      have hbudget := Script.budget_of_run hc
      rw [Cursor.allowance] at hk
      refine ⟨k, ?_, .laps hc hrun⟩
      rw [Cursor.allowance]
      omega

end Combinators

/-! ### Whole runs -/

/-- The call is one of `accept` and gives an answer, be it a match or none. -/
def Call.isAnswered (c : Cursor) : Call → Bool
  | accept pattern =>
    match Parse.accept pattern c with
    | .ok _ _ => true
    | .error _ _ => false
  | _ => false

/-- How many of the calls are answered. -/
def Cursor.answers : Cursor → List Call → Nat
  | _, [] => 0
  | c, call :: calls => (if call.isAnswered c then 1 else 0) + (call.next c).answers calls

theorem Call.isAnswered_iff {call : Call} :
    call.isAnswered c ↔ call.isAccept ∧ c.attempts < c.budget := by
  cases call with
  | accept pattern =>
    by_cases hlt : c.attempts < c.budget
    · rw [isAnswered, Parse.accept_of_lt_budget hlt]
      cases pattern.end? c.place <;> simp [isAccept, hlt]
    · rw [isAnswered, Parse.accept_of_budget_le (Nat.not_lt.1 hlt)]
      simp [hlt]
  | peek | fail | save | restore => simp [isAnswered, isAccept]

/-- The calls that come within the budget are answered, and no others. -/
theorem answers_eq (c : Cursor) (calls : List Call) :
    c.answers calls = min (calls.countP Call.isAccept) c.allowance := by
  induction calls generalizing c with
  | nil => simp [Cursor.answers]
  | cons call calls ih =>
    have hattempts := call.next_attempts c
    have hbudget := call.next_budget c
    rw [Cursor.answers, ih, List.countP_cons, Cursor.allowance, Cursor.allowance, hattempts,
      hbudget]
    simp only [Call.isAnswered_iff]
    by_cases haccept : call.isAccept
    · by_cases hlt : c.attempts < c.budget
      · simp only [haccept, hlt, and_self, if_true]
        omega
      · simp only [haccept, hlt, and_false, if_true, if_false]
        omega
    · simp [haccept]

/-- Whatever is done before it, a call of `accept` past the budget runs away where it is. -/
theorem accept_runsAway (pattern : Pattern) {before : List Call} (hc : c.attempts = 0)
    (hb : c.budget ≤ before.countP Call.isAccept) :
    ∃ d, Parse.accept pattern (c.after before) =
        .error (.runaway (before.countP Call.isAccept + 1) c.budget) d ∧
      d.place = (c.after before).place := by
  have hattempts := Cursor.after_attempts c before
  have hbudget := Cursor.after_budget c before
  rw [hc, Nat.zero_add] at hattempts
  rw [Parse.accept_of_budget_le (by omega), hattempts, hbudget]
  exact ⟨_, rfl, rfl⟩

/-- The loops of items that take attempts end, after no more rounds than there are attempts left. A
new cursor answers so many calls as its budget says, and each one after them runs away. -/
theorem circuitBreaker :
    (∀ {item : Script (Option α)}, item.Plain → item.Counts → ∀ c : Cursor,
      ∃ k ≤ c.allowance, LoopRun item.run some (fun items _ => items) c k
        (Parse.many item.run c)) ∧
    (∀ {item : Script (Option α)} {separator : Script (Option β)} {skip : Script Unit},
      item.Plain → separator.Plain → skip.Plain → item.Counts ∨ separator.Counts → ∀ c : Cursor,
      ∃ k ≤ c.allowance, SeparatedRun item separator skip c k
        (Parse.separated item.run separator.run skip.run c)) ∧
    ∀ c : Cursor, c.attempts = 0 →
      (∀ calls, c.answers calls = min (calls.countP Call.isAccept) c.budget) ∧
      ∀ pattern before, c.budget ≤ before.countP Call.isAccept →
        ∃ d, Parse.accept pattern (c.after before) =
            .error (.runaway (before.countP Call.isAccept + 1) c.budget) d ∧
          d.place = (c.after before).place := by
  refine ⟨?_, ?_, ?_⟩
  · intro item hplain hcounts c
    exact many_ends hplain hcounts c
  · intro item separator skip hi hs hk hcounts c
    exact separated_ends hi hs hk hcounts c
  · intro c hc
    refine ⟨fun calls => ?_, fun pattern before hb => accept_runsAway pattern hc hb⟩
    rw [answers_eq, Cursor.allowance, hc, Nat.sub_zero]

/-- No item consumes any text. -/
theorem circuitBreaker_empty :
    (∃ k ≤ 2, LoopRun (Script.accept (.literal "")).run some (fun items _ => items)
      (.start "a".toList 1) k (Parse.many (Parse.accept (.literal "")) (.start "a".toList 1))) ∧
    (∃ k ≤ 2, SeparatedRun (.peek (.literal "")) (.accept (.literal "")) (.pure ())
      (.start "a".toList 1) k (Parse.separated (Parse.peek (.literal ""))
        (Parse.accept (.literal "")) (pure ()) (.start "a".toList 1))) ∧
    ∃ d, Parse.accept (.literal "a") ((Cursor.start "a".toList 1).after
        [.accept (.literal "a"), .accept .endOfInput, .restore (.start "a".toList)]) =
      .error (.runaway 3 2) d ∧ d.place = .start "a".toList := by
  have hcounts : (Script.accept (.literal "")).Counts := fun _ => Nat.one_pos
  obtain ⟨hmany, hseparated, hcalls⟩ := circuitBreaker (α := Span) (β := Span)
  refine ⟨?_, ?_, ?_⟩
  · exact hmany (.accept _) hcounts (.start "a".toList 1)
  · exact hseparated (.peek (.literal "")) (.accept _) (.pure ()) (.inr hcounts)
      (.start "a".toList 1)
  · exact (hcalls (.start "a".toList 1) rfl).2 _ [.accept (.literal "a"), .accept .endOfInput,
      .restore (.start "a".toList)] (by decide)

end SchemaText
