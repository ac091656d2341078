import SchemaText.Parse.Production
import SchemaText.Proofs.Parse.Ensures

/-!
Programs for a cursor: all that can be put together from its operations and the combinators, with
any decisions in between. A sequence of steps is a program too, as `outcome` goes on after failures.
-/
namespace SchemaText

namespace Parse

/-- Where the cursor is, to come back to it. -/
def save : Parse Place := fun c => .ok c.place c

def restore (place : Place) : Parse Unit := fun c => .ok () { c with place := place }

/-- The result or the failure of `p`. -/
def outcome {α : Type} (p : Parse α) : Parse (Except Failure α) := fun c =>
  match p c with
  | .ok a c' => .ok (.ok a) c'
  | .error e c' => .ok (.error e) c'

end Parse

inductive Script : Type → Type 1 where
  | pure {α : Type} (a : α) : Script α
  | accept (pattern : Pattern) : Script (Option Span)
  | peek (pattern : Pattern) : Script (Option Span)
  | fail {α : Type} (expected mistakes : List Pattern) : Script α
  | save : Script Place
  | restore (place : Place) : Script Unit
  | bind {α β : Type} (p : Script α) (f : α → Script β) : Script β
  | lookahead {α : Type} (p : Script α) : Script α
  | outcome {α : Type} (p : Script α) : Script (Except Failure α)
  | loop {σ β : Type} (step : σ → Script (Parse.Round σ β)) (state : σ) : Script β

namespace Script

variable {α β σ : Type}

instance : Monad Script where
  pure := .pure
  bind := .bind

def run : {α : Type} → Script α → Parse α
  | _, pure a => Pure.pure a
  | _, accept pattern => Parse.accept pattern
  | _, peek pattern => Parse.peek pattern
  | _, fail expected mistakes => Parse.fail expected mistakes
  | _, save => Parse.save
  | _, restore place => Parse.restore place
  | _, bind p f => p.run >>= fun a => (f a).run
  | _, lookahead p => Parse.lookahead p.run
  | _, outcome p => Parse.outcome p.run
  | _, loop step state => Parse.loop (fun state => (step state).run) state

/-! ### Combinators -/

def expect (pattern : Pattern) (others mistakes : List Pattern) : Script Span := do
  match ← accept pattern with
  | some span => return span
  | none => fail (pattern :: others) mistakes

/-- All of `ps` in turn, up to the first that does not match. -/
def inTurn : List (Script (Option α)) → Script (Option (List α))
  | [] => return some []
  | p :: ps => do
    let some a ← p | return none
    let some as ← inTurn ps | return none
    return some (a :: as)

def attempt (p : Script (Option α)) : Script (Option α) := do
  let place ← save
  match ← p with
  | some a => return some a
  | none =>
    restore place
    return none

def choice : List (Script (Option α)) → Script (Option α)
  | [] => return none
  | p :: ps => do
    if (← lookahead p).isSome then p else choice ps

def many (item : Script (Option α)) : Script (List α) :=
  loop (fun (items : Array α) => do
    match ← item with
    | some a => return .again (items.push a)
    | none => return .done items.toList) #[]

def separated (item : Script (Option α)) (separator : Script (Option β)) (skip : Script Unit) :
    Script (Separated α β) := do
  let some first ← item | return ⟨[], []⟩
  loop (fun ((items, separators) : Array α × Array β) => do
    skip
    let some b ← separator | return .done ⟨items.toList, separators.toList⟩
    let separators := separators.push b
    skip
    let some a ← item | return .done ⟨items.toList, separators.toList⟩
    return .again (items.push a, separators)) (#[first], #[])

@[simp] theorem run_bind (p : Script α) (f : α → Script β) :
    (p >>= f).run = p.run >>= fun a => (f a).run := rfl

@[simp] theorem run_expect (pattern : Pattern) (others mistakes : List Pattern) :
    (expect pattern others mistakes).run = Parse.expect pattern others mistakes := by
  rw [expect, run_bind, Parse.expect]
  congr 1
  funext found
  cases found <;> rfl

@[simp] theorem run_inTurn (ps : List (Script (Option α))) :
    (inTurn ps).run = Parse.inTurn (ps.map run) := by
  induction ps with
  | nil => rfl
  | cons p ps ih =>
    rw [inTurn, run_bind, List.map_cons, Parse.inTurn, ← ih]
    congr 1
    funext found
    cases found with
    | none => rfl
    | some a =>
      change (inTurn ps).run >>= _ = (inTurn ps).run >>= _
      congr 1
      funext rest
      cases rest <;> rfl

@[simp] theorem run_attempt (p : Script (Option α)) :
    (attempt p).run = Parse.attempt p.run := by
  funext c
  have hbind : (attempt p).run c = (p.run >>= fun found => (match found with
      | some a => Pure.pure (some a)
      | none => restore c.place >>= fun _ => Pure.pure none : Script (Option α)).run) c := rfl
  rw [hbind, Parse.bind_apply, Parse.attempt]
  cases p.run c with
  | ok found c' => cases found <;> rfl
  | error e c' => rfl

@[simp] theorem run_choice (ps : List (Script (Option α))) :
    (choice ps).run = Parse.choice (ps.map run) := by
  induction ps with
  | nil => rfl
  | cons p ps ih =>
    rw [choice, run_bind, List.map_cons, Parse.choice, ← ih]
    congr 1
    funext found
    split <;> rfl

@[simp] theorem run_many (item : Script (Option α)) : (many item).run = Parse.many item.run := by
  rw [many, run, Parse.many]
  congr 1
  funext items
  rw [run_bind]
  congr 1
  funext found
  cases found <;> rfl

@[simp] theorem run_separated (item : Script (Option α)) (separator : Script (Option β))
    (skip : Script Unit) : (separated item separator skip).run =
      Parse.separated item.run separator.run skip.run := by
  rw [separated, run_bind, Parse.separated]
  congr 1
  funext first
  cases first with
  | none => rfl
  | some first =>
    change Parse.loop _ _ = Parse.loop _ _
    congr 1
    funext state
    change skip.run >>= _ = skip.run >>= _
    congr 1
    funext _
    change separator.run >>= _ = separator.run >>= _
    congr 1
    funext b
    cases b with
    | none => rfl
    | some b =>
      change skip.run >>= _ = skip.run >>= _
      congr 1
      funext _
      change item.run >>= _ = item.run >>= _
      congr 1
      funext a
      cases a <;> rfl

/-! ### Composition -/

/-- Put together from steps and combinators alone: such a script goes back only where it has begun
itself, and passes every failure on. -/
inductive Combined : ∀ {α : Type}, Script α → Prop where
  | pure {α : Type} (a : α) : Combined (.pure a)
  | accept (pattern : Pattern) : Combined (.accept pattern)
  | peek (pattern : Pattern) : Combined (.peek pattern)
  | fail {α : Type} (expected mistakes : List Pattern) :
      Combined (.fail expected mistakes : Script α)
  | bind {α β : Type} {p : Script α} {f : α → Script β} :
      Combined p → (∀ a, Combined (f a)) → Combined (.bind p f)
  | lookahead {α : Type} {p : Script α} : Combined p → Combined (.lookahead p)
  | attempt {α : Type} {p : Script (Option α)} : Combined p → Combined (Script.attempt p)
  | loop {σ β : Type} {step : σ → Script (Parse.Round σ β)} {state : σ} :
      (∀ state, Combined (step state)) → Combined (.loop step state)

namespace Combined

theorem map {p : Script α} {g : α → β} (h : Combined p) : Combined (do return g (← p)) :=
  h.bind fun _ => .pure _

theorem expect (pattern : Pattern) (others mistakes : List Pattern) :
    Combined (Script.expect pattern others mistakes) := by
  refine (accept pattern).bind fun found => ?_
  cases found with
  | none => exact .fail _ _
  | some span => exact .pure span

theorem inTurn {ps : List (Script (Option α))} (h : ∀ p ∈ ps, Combined p) :
    Combined (Script.inTurn ps) := by
  induction ps with
  | nil => exact .pure _
  | cons p ps ih =>
    rw [List.forall_mem_cons] at h
    refine h.1.bind fun a => ?_
    cases a with
    | none => exact .pure none
    | some a =>
      refine (ih h.2).bind fun as => ?_
      cases as with
      | none => exact .pure none
      | some as => exact .pure _

theorem choice {ps : List (Script (Option α))} (h : ∀ p ∈ ps, Combined p) :
    Combined (Script.choice ps) := by
  induction ps with
  | nil => exact .pure none
  | cons p ps ih =>
    rw [List.forall_mem_cons] at h
    refine h.1.lookahead.bind fun found => ?_
    by_cases hfound : found.isSome
    · rw [if_pos hfound]
      exact h.1
    · rw [if_neg hfound]
      exact ih h.2

theorem many {item : Script (Option α)} (h : Combined item) : Combined (Script.many item) := by
  refine .loop fun items => h.bind fun found => ?_
  cases found with
  | none => exact .pure _
  | some a => exact .pure _

theorem separated {item : Script (Option α)} {separator : Script (Option β)} {skip : Script Unit}
    (hi : Combined item) (hs : Combined separator) (hk : Combined skip) :
    Combined (Script.separated item separator skip) := by
  refine hi.bind fun first => ?_
  cases first with
  | none => exact .pure _
  | some first =>
    refine .loop fun state => hk.bind fun _ => hs.bind fun b => ?_
    cases b with
    | none => exact .pure _
    | some b =>
      refine hk.bind fun _ => hi.bind fun a => ?_
      cases a with
      | none => exact .pure _
      | some a => exact .pure _

end Combined

end Script

/-! ### Productions -/

namespace Production

mutual

def script : Production → Script (Option Value)
  | accept pattern => return (← Script.accept pattern).map .span
  | expect pattern others mistakes => return some (.span (← Script.expect pattern others mistakes))
  | peek pattern => return (← Script.peek pattern).map .span
  | fail expected mistakes => Script.fail expected mistakes
  | seq parts => return (← Script.inTurn (scripts parts)).map .list
  | opt body => return some ((← body.script).getD .absent)
  | attempt body => Script.attempt body.script
  | lookahead body => Script.lookahead body.script
  | many body => return some (.list (← Script.many body.script))
  | choice alternatives => Script.choice (scripts alternatives)
  | separated item separator skip => do
    let s ← Script.separated item.script separator.script (skip.script >>= fun _ => return ())
    return some (.separated s.items s.separators)

def scripts : List Production → List (Script (Option Value))
  | [] => []
  | p :: ps => p.script :: scripts ps

end

mutual

theorem run_script : ∀ p : Production, p.script.run = p.run
  | accept _ => by rw [script, run]; rfl
  | expect _ _ _ => by rw [script, run, Script.run_bind, Script.run_expect]; rfl
  | peek _ => by rw [script, run]; rfl
  | fail _ _ => by rw [script, run]; rfl
  | seq parts => by rw [script, run, Script.run_bind, Script.run_inTurn, run_scripts parts]; rfl
  | opt body => by rw [script, run, Script.run_bind, run_script body]; rfl
  | attempt body => by rw [script, run, Script.run_attempt, run_script body]
  | lookahead body => by rw [script, run, Script.run, run_script body]
  | many body => by rw [script, run, Script.run_bind, Script.run_many, run_script body]; rfl
  | choice alternatives => by rw [script, run, Script.run_choice, run_scripts alternatives]
  | separated item separator skip => by
    rw [script, run, Script.run_bind, Script.run_separated, Script.run_bind, run_script item,
      run_script separator, run_script skip, Parse.discard_eq]
    rfl

theorem run_scripts : ∀ ps : List Production, (scripts ps).map Script.run = runAll ps
  | [] => by rw [scripts, runAll, List.map_nil]
  | p :: ps => by rw [scripts, runAll, List.map_cons, run_script p, run_scripts ps]

end

mutual

theorem combined : ∀ p : Production, p.script.Combined
  | accept pattern => (Script.Combined.accept pattern).map
  | expect pattern others mistakes => (Script.Combined.expect pattern others mistakes).map
  | peek pattern => (Script.Combined.peek pattern).map
  | fail expected mistakes => .fail expected mistakes
  | seq parts => (Script.Combined.inTurn (combined_of_mem parts)).map
  | opt body => (combined body).map
  | attempt body => (combined body).attempt
  | lookahead body => (combined body).lookahead
  | many body => (combined body).many.map
  | choice alternatives => .choice (combined_of_mem alternatives)
  | separated item separator skip =>
    ((combined item).separated (combined separator) (combined skip).map).map

theorem combined_of_mem : ∀ ps : List Production, ∀ p ∈ scripts ps, p.Combined
  | [], _, h => by simp [scripts] at h
  | p :: ps, q, h => by
    rw [scripts, List.mem_cons] at h
    rcases h with rfl | h
    · exact combined p
    · exact combined_of_mem ps q h

end
end Production

end SchemaText
