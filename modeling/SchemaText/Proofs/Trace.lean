import SchemaText.Proofs.Grammar.Quiet
import SchemaText.Proofs.Parser
import SchemaText.Proofs.Tree.Extent

/-!
The events of a run tell of the statements that are read, one by one, and of how the run ends.
-/
namespace SchemaText

open Grammar Parse

variable {α : Type} {kinds : List StatementKind} {c d e : Cursor} {readings : List Reading}
  {source : String} {options : Options}

/-- What an observer hears when a statement has been read. -/
def Statement.event (s : Statement Span) : Event := .statement s.kind.keyword s.span

@[simp] theorem Statement.event_prepend (run : List (Attribute Span)) (s : Statement Span) :
    (prepend run s).event = s.event := by
  rw [event, span_prepend]
  cases s <;> rfl

/-! ### One statement -/

/-- What an observer hears of the dispatch of a statement. -/
inductive HeardOfDispatch (c : Cursor) :
    EStateM.Result Failure Cursor (Option (Statement Span)) → Prop where
  | none {d : Cursor} : c.Heard [] d → HeardOfDispatch c (.ok none d)
  | some {once : List Event} {s : Statement Span} {d : Cursor} : (∀ e ∈ once, e.isAccepted) →
      c.Heard (once ++ once ++ [s.event]) d → HeardOfDispatch c (.ok (some s) d)
  | error {events : List Event} {failure : Failure} {d : Cursor} : (∀ e ∈ events, e.isAccepted) →
      c.Heard (events ++ failure.events) d → HeardOfDispatch c (.error failure d)

theorem heard_statement? (kinds : List StatementKind) (c : Cursor) :
    HeardOfDispatch c (statement? kinds c) := by
  have hquiet : ∀ p ∈ kinds.map statementOf, Quiet p := by
    rw [List.forall_mem_map]
    intro kind _
    exact quiet_statementOf kind
  have hsilent : ∀ p ∈ kinds.map statementOf, Silent p := by
    rw [List.forall_mem_map]
    intro kind _
    exact (led_statementOf kind).silent
  have htells := (Quiet.choice hquiet).tells c
  rw [statement?, bind_apply]
  cases hc : choice (kinds.map statementOf) c with
  | error failure d =>
    rw [hc] at htells
    cases htells with
    | error he hheard => exact .error he hheard
  | ok found d =>
    cases heard_choice hquiet hsilent hc with
    | none hheard => exact .none hheard
    | some he hheard => exact .some he (hheard.trans (.record d _))

/-- A statement that is read, and the matches that an observer hears of on the way. -/
structure Reading where
  /-- The matches of the attributes in front. -/
  lead : List Event
  /-- The matches of one run of the statement. -/
  once : List Event
  statement : Statement Span

/-- The statement is looked at first and read for good then, and told of in the end. -/
def Reading.events (r : Reading) : List Event :=
  r.lead ++ (r.once ++ r.once ++ [r.statement.event])

/-- From `c` to `d` attributes are read and a statement behind them. -/
inductive Dispatch (kinds : List StatementKind) (c : Cursor) : Reading → Cursor → Prop where
  | read {run : List (Attribute Span) × List (Attribute Span)} {middle d : Cursor}
      {lead once : List Event} {s : Statement Span} :
      attributes c = .ok run middle → (∀ e ∈ lead, e.isAccepted) → c.Heard lead middle →
      statement? kinds middle = .ok (some s) d → (∀ e ∈ once, e.isAccepted) →
      middle.Heard (once ++ once ++ [s.event]) d → Dispatch kinds c ⟨lead, once, s⟩ d

/-- No statement is read from `c` on. -/
def Exhausted (kinds : List StatementKind) (c : Cursor) : Prop :=
  ∀ r d, ¬ Dispatch kinds c r d

theorem Dispatch.heard {r : Reading} (h : Dispatch kinds c r d) : c.Heard r.events d := by
  cases h with
  | read _ _ hlead _ _ honce => exact hlead.trans honce

/-- A round that goes on leaves fewer attempts for those to come. -/
theorem Dispatch.allowance_lt {r : Reading} (h : Dispatch kinds c r d)
    (hc : c.attempts ≤ c.budget) : d.attempts ≤ d.budget ∧ d.allowance < c.allowance := by
  cases h with
  | @read _ middle _ _ _ _ hrun _ _ hs =>
    obtain ⟨hb, hlt, hle⟩ := composed_attributes.metered.spends hrun hc
    obtain ⟨hb', hlt', hle'⟩ := (composed_statement? kinds).metered.spends hs hle
    rw [Cursor.allowance, Cursor.allowance]
    omega

/-! ### Statements in turn -/

inductive Dispatches (kinds : List StatementKind) : Cursor → List Reading → Cursor → Prop where
  | nil {c : Cursor} : Dispatches kinds c [] c
  | cons {c d e : Cursor} {r : Reading} {readings : List Reading} : Dispatch kinds c r d →
      Dispatches kinds d readings e → Dispatches kinds c (r :: readings) e

theorem Dispatches.heard (h : Dispatches kinds c readings d) :
    c.Heard (readings.flatMap Reading.events) d := by
  induction h with
  | nil => exact .refl _
  | cons hr _ ih => exact hr.heard.trans ih

/-- What an observer hears of a parse that reads statements up to where there is no further one.
A result tells of those before it and of those read. -/
inductive HeardOf (kinds : List StatementKind) (told : α → List Event) (before : List Event)
    (c : Cursor) : EStateM.Result Failure Cursor α → Prop where
  | ok {readings : List Reading} {last : List Event} {a : α} {d e : Cursor} :
      Dispatches kinds c readings d → Exhausted kinds d → (∀ e ∈ last, e.isAccepted) →
      d.Heard last e → told a = before ++ readings.map (·.statement.event) →
      HeardOf kinds told before c (.ok a e)
  | error {readings : List Reading} {last : List Event} {failure : Failure} {d e : Cursor} :
      Dispatches kinds c readings d → Exhausted kinds d → (∀ e ∈ last, e.isAccepted) →
      d.Heard (last ++ failure.events) e → HeardOf kinds told before c (.error failure e)

theorem HeardOf.behind {told : α → List Event} {before : List Event} {r : Reading}
    {result : EStateM.Result Failure Cursor α}
    (h : HeardOf kinds told (before ++ [r.statement.event]) d result) (hr : Dispatch kinds c r d) :
    HeardOf kinds told before c result := by
  cases h with
  | ok hreadings hend he hheard htold =>
    refine .ok (.cons hr hreadings) hend he hheard ?_
    rw [htold, List.append_assoc]
    rfl
  | error hreadings hend he hheard => exact .error (.cons hr hreadings) hend he hheard

/-- What has been read already and is to be told of. -/
def toldOf (found : List (Attribute Span) × List (Statement Span)) : List Event :=
  found.2.map Statement.event

/-- What an observer hears of one round of a document. -/
inductive HeardOfRound (kinds : List StatementKind) (items : Array (Statement Span)) (c : Cursor) :
    EStateM.Result Failure Cursor (Round (Array (Attribute Span) × Array (Statement Span))
      (List (Attribute Span) × List (Statement Span))) → Prop where
  | again {found : Array (Attribute Span)} {outer : List (Attribute Span)} {r : Reading}
      {d : Cursor} : Dispatch kinds c r d →
      HeardOfRound kinds items c (.ok (.again (found, items.push (prepend outer r.statement))) d)
  | done {found : List (Attribute Span)} {last : List Event} {d : Cursor} : Exhausted kinds c →
      (∀ e ∈ last, e.isAccepted) → c.Heard last d →
      HeardOfRound kinds items c (.ok (.done (found, items.toList)) d)
  | error {last : List Event} {failure : Failure} {d : Cursor} : Exhausted kinds c →
      (∀ e ∈ last, e.isAccepted) → c.Heard (last ++ failure.events) d →
      HeardOfRound kinds items c (.error failure d)

theorem heardOf_rounds {step : Array (Attribute Span) × Array (Statement Span) →
      Parse (Round (Array (Attribute Span) × Array (Statement Span))
        (List (Attribute Span) × List (Statement Span)))}
    (hstep : ∀ found items c, HeardOfRound kinds items c (step (found, items) c))
    {n : Nat} {found : Array (Attribute Span)} {items : Array (Statement Span)}
    (hc : c.attempts ≤ c.budget) (hn : c.allowance < n) :
    HeardOf kinds toldOf (items.toList.map Statement.event) c
      (rounds step n (found, items) c) := by
  -- Each round takes attempts, so that the rounds that are allowed never run out.
  induction n generalizing found items c with
  | zero => omega
  | succ n ih =>
    have hround := hstep found items c
    simp only [rounds]
    generalize step (found, items) c = result at hround ⊢
    cases hround with
    | @again found' outer r d hr =>
      obtain ⟨hd, hlt⟩ := hr.allowance_lt hc
      have hrest : HeardOf kinds toldOf
          ((items.push (prepend outer r.statement)).toList.map Statement.event) d
          (rounds step n (found', items.push (prepend outer r.statement)) d) := ih hd (by omega)
      rw [Array.toList_push, List.map_append, List.map_singleton, Statement.event_prepend] at hrest
      exact hrest.behind hr
    | done hend he hheard => exact .ok .nil hend he hheard (List.append_nil _).symm
    | error hend he hheard => exact .error .nil hend he hheard

theorem heardOf_block {orphans : List Pattern} (hc : c.attempts ≤ c.budget) :
    HeardOf kinds toldOf [] c (block orphans (statement? kinds) c) := by
  change HeardOf kinds toldOf ((#[] : Array (Statement Span)).toList.map Statement.event) c
    (rounds _ _ (#[], #[]) c)
  refine heardOf_rounds (fun found items c => ?_) hc (Nat.lt_succ_self _)
  have hattributes := quiet_attributes.tells c
  dsimp only
  rw [bind_apply]
  cases hrun : attributes c with
  | error failure d =>
    rw [hrun] at hattributes
    cases hattributes with
    | error he hheard =>
      refine .error ?_ he hheard
      rintro r e ⟨hr, -⟩
      cases hrun.symm.trans hr
  | ok run d =>
    rw [hrun] at hattributes
    have hdispatch := heard_statement? kinds d
    -- Nothing but a statement that is found lets the document go on.
    have hend : (∀ s e, statement? kinds d ≠ .ok (some s) e) → Exhausted kinds c := by
      rintro hnone r e ⟨hr, -, -, hs, -, -⟩
      cases hrun.symm.trans hr
      exact hnone _ _ hs
    cases hattributes with
    | ok he hheard =>
      dsimp only
      rw [bind_apply]
      cases hs : statement? kinds d with
      | error failure e =>
        rw [hs] at hdispatch hend
        cases hdispatch with
        | error he' hheard' =>
          refine .error (hend nofun) (List.forall_mem_append.2 ⟨he, he'⟩) ?_
          rw [List.append_assoc]
          exact hheard.trans hheard'
      | ok found e =>
        rw [hs] at hdispatch hend
        cases hdispatch with
        | none hheard' =>
          have hlast := hheard.trans hheard'
          rw [List.append_nil] at hlast
          dsimp only
          split
          · exact .done (hend nofun) he hlast
          · exact .error (hend nofun) he (hlast.trans (.record e _))
        | some he' hheard' => exact .again (.read hrun he hheard hs he' hheard')

theorem heardOf_document (kinds : List StatementKind) (hc : c.attempts ≤ c.budget) :
    HeardOf kinds (fun d => d.statements.map Statement.event) [] c (document kinds c) := by
  have hblock : HeardOf kinds toldOf [] c (block keywords (statement? kinds) c) := heardOf_block hc
  rw [document, bind_apply]
  generalize block keywords (statement? kinds) c = result at hblock ⊢
  cases hblock with
  | error hreadings hend he hheard => exact .error hreadings hend he hheard
  | @ok _ _ found _ e hreadings hend he hheard htold =>
    have hexpect : TellsFrom e (discard (expect .endOfInput keywords [word]) e) :=
      Quiet.expect.discard.tells e
    dsimp only
    rw [bind_apply]
    generalize discard (expect .endOfInput keywords [word]) e = result at hexpect ⊢
    cases hexpect with
    | ok he' hheard' =>
      exact .ok hreadings hend (List.forall_mem_append.2 ⟨he, he'⟩) (hheard.trans hheard') htold
    | error he' hheard' =>
      refine .error hreadings hend (List.forall_mem_append.2 ⟨he, he'⟩) ?_
      rw [List.append_assoc]
      exact hheard.trans hheard'

/-! ### Whole runs -/

/-- The event that closes a run with this result, if there is one. -/
inductive ClosedBy (source : String) (options : Options) :
    Except ParseError (Document Span) → List Event → Prop where
  | finished {d : Document Span} {c : Cursor} : documentRun source options = .ok d c →
      ClosedBy source options (.ok d)
        [.finished d.statements.length d.attributes.length c.attempts]
  | mismatch {r : Report} : (Event.mismatch r.toMismatch).describe source.toList =
        s!"DEBUG syntax error offset={r.offset} line={r.position.line} " ++
          s!"column={r.position.column} found={r.found}" →
      ClosedBy source options (.error (.mismatch r)) [.mismatch r.toMismatch]
  | runaway {attempts budget : Nat} :
      ClosedBy source options (.error (.runaway attempts budget)) []

/-- What there is to hear of a run that reads these statements. -/
structure Traced (source : String) (options : Options) (readings : List Reading)
    (last closing : List Event) : Prop where
  events : (run source options).events =
    .started (byteLength source.toList) :: (readings.flatMap Reading.events ++ last ++ closing)
  /-- The statements are all that are read, each of them in a dispatch of its own. -/
  dispatched : ∃ d, Exhausted StatementKind.all d ∧
    Dispatches StatementKind.all (.start source.toList options.attemptFactor) readings d
  accepted : ∀ e ∈ last, e.isAccepted
  debug : (run source options).eventsAt .debug =
    .started (byteLength source.toList) :: (readings.map (·.statement.event) ++ closing)
  trace : ((run source options).eventsAt .trace).filter (!·.isAccepted) =
    (run source options).eventsAt .debug
  closed : ClosedBy source options (run source options).result closing
  told : ∀ d, (run source options).result = .ok d →
    d.statements.map Statement.event = readings.map (·.statement.event)

theorem Event.debug_eq (e : Event) : decide (e.level = .debug) = !e.isAccepted := by
  cases e <;> rfl

theorem Run.eventsAt_debug (r : Run) :
    r.eventsAt .debug = (r.eventsAt .trace).filter (!·.isAccepted) := by
  simp only [eventsAt, Event.debug_eq]

/-- Without the matches, the statements are left. -/
theorem filter_accepted {events : List Event} (h : ∀ e ∈ events, e.isAccepted) :
    events.filter (!·.isAccepted) = [] := by
  rw [List.filter_eq_nil_iff]
  intro e he
  simp [h e he]

theorem Dispatches.filter_events (h : Dispatches kinds c readings d) :
    (readings.flatMap Reading.events).filter (!·.isAccepted) =
      readings.map (·.statement.event) := by
  induction h with
  | nil => rfl
  | @cons _ _ _ r _ hr _ ih =>
    have hevents : r.events.filter (!·.isAccepted) = [r.statement.event] := by
      cases hr with
      | read _ hlead _ _ honce _ =>
        simp only [Reading.events, List.filter_append, filter_accepted hlead,
          filter_accepted honce]
        rfl
    rw [List.flatMap_cons, List.filter_append, hevents, ih]
    rfl

theorem ClosedBy.filter_eq {result : Except ParseError (Document Span)} {closing : List Event}
    (h : ClosedBy source options result closing) :
    closing.filter (!·.isAccepted) = closing := by
  cases h <;> rfl

theorem Cursor.Heard.log_reverse {text : List Char} {factor : Nat} {events : List Event}
    (h : (Cursor.start text factor).Heard events c) : c.log.reverse = events := by
  rw [Cursor.Heard] at h
  rw [h]
  simp [Cursor.start]

theorem run_eq (options : Options) (hb : byteLength source.toList ≤ maxOffset) :
    run source options = match documentRun source options with
    | .ok d c => ⟨.ok d, .started (byteLength source.toList) ::
        (c.log.reverse ++
          [.finished d.statements.length d.attributes.length c.attempts])⟩
    | .error failure c => ⟨.error (failure.report source.toList options.contextWindow),
        .started (byteLength source.toList) :: c.log.reverse⟩ := by
  simp only [run, runWith, documentRun, if_neg (Nat.not_lt.2 hb)]
  cases document StatementKind.all (.start source.toList options.attemptFactor) with
  | ok d c => simp [Cursor.record]
  | error failure c => rfl

theorem Failure.closes (failure : Failure) : ClosedBy source options
    (.error (failure.report source.toList options.contextWindow)) failure.events := by
  cases failure with
  | mismatch m => exact .mismatch rfl
  | runaway => exact .runaway

theorem Traced.of_run_eq {last closing : List Event} {result : Except ParseError (Document Span)}
    (hrun : run source options = ⟨result, .started (byteLength source.toList) ::
      (readings.flatMap Reading.events ++ last ++ closing)⟩)
    (hreadings : Dispatches StatementKind.all (.start source.toList options.attemptFactor) readings
      d) (hend : Exhausted StatementKind.all d) (hlast : ∀ e ∈ last, e.isAccepted)
    (hclosed : ClosedBy source options result closing)
    (htold : ∀ d, result = .ok d →
      d.statements.map Statement.event = readings.map (·.statement.event)) :
    Traced source options readings last closing where
  events := by rw [hrun]
  dispatched := ⟨d, hend, hreadings⟩
  accepted := hlast
  debug := by
    rw [Run.eventsAt_debug, Run.eventsAt, hrun, List.filter_cons_of_pos rfl, List.filter_append,
      List.filter_append, hreadings.filter_events, filter_accepted hlast, hclosed.filter_eq,
      List.append_nil]
  trace := (Run.eventsAt_debug _).symm
  closed := by rwa [hrun]
  told := by rwa [hrun]

/-- Whatever the source and the options, what an observer hears is what has been done: the
statements one by one, each of them looked at before it is read, and the result in the end. -/
theorem traced_run (hb : byteLength source.toList ≤ maxOffset) :
    ∃ readings last closing, Traced source options readings last closing := by
  have hdocument := heardOf_document StatementKind.all
    (c := .start source.toList options.attemptFactor) (Nat.zero_le _)
  have hrun := run_eq options hb
  rw [← documentRun] at hdocument
  cases hresult : documentRun source options with
  | ok document c =>
    rw [hresult] at hdocument hrun
    cases hdocument with
    | ok hreadings hend hlast hheard htold =>
      have hlog := (hreadings.heard.trans hheard).log_reverse
      simp only [hlog] at hrun
      refine ⟨_, _, _, .of_run_eq hrun hreadings hend hlast (.finished hresult) ?_⟩
      rintro _ ⟨⟩
      exact htold
  | error failure c =>
    rw [hresult] at hdocument hrun
    cases hdocument with
    | error hreadings hend hlast hheard =>
      have hlog := (hreadings.heard.trans hheard).log_reverse
      simp only [hlog, ← List.append_assoc] at hrun
      refine ⟨_, _, _, .of_run_eq hrun hreadings hend hlast failure.closes ?_⟩
      rintro _ ⟨⟩

/-- The second statement breaks off, after the first one has been told of. -/
theorem traced_run_enum : ∃ readings last closing,
    Traced "@a - b\nenum E \x7b x, \x7d struct S \x7b f" {} readings last closing :=
  traced_run (by decide +kernel)

end SchemaText
