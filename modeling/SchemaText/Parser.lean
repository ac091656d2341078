import SchemaText.Grammar.Statement
import SchemaText.ParseError

/-!
Parsing of whole sources. The result and the events come from one run.
-/
namespace SchemaText

structure Options where
  /-- Attempts for each byte of the source. -/
  attemptFactor : Nat := 32
  /-- Lines of context in a report. -/
  contextWindow : Nat := 5
deriving DecidableEq, Repr

inductive Level where
  | debug | trace
deriving DecidableEq, Repr

namespace Event

def level : Event → Level
  | accepted .. => .trace
  | _ => .debug

/-- An event of a parse of `text` in one line. -/
def describe (text : List Char) : Event → String
  | started bytes => s!"DEBUG parse len={bytes}"
  | accepted span pattern => s!"TRACE accept offset={span.start} span={span} pattern={pattern}"
  | statement keyword span => s!"DEBUG statement keyword={keyword} span={span}"
  | mismatch m =>
    let position := Position.ofOffset text m.offset
    s!"DEBUG syntax error offset={m.offset} line={position.line} " ++
      s!"column={position.column} found={m.found}"
  | finished statements attributes attempts =>
    s!"DEBUG parse finished statements={statements} attributes={attributes} attempts={attempts}"

end Event

structure Run where
  result : Except ParseError (Document Span)
  events : List Event

/-- The events that an observer of a level hears. -/
def Run.eventsAt (level : Level) (r : Run) : List Event :=
  match level with
  | .debug => r.events.filter (·.level = .debug)
  | .trace => r.events

/-- A parse that tries the statements in the order of `kinds`. -/
def runWith (kinds : List StatementKind) (source : String) (options : Options) : Run :=
  let text := source.toList
  let bytes := byteLength text
  if maxOffset < bytes then ⟨.error (.sourceTooLarge bytes), [.started bytes]⟩
  else
    match Grammar.document kinds (.start text options.attemptFactor) with
    | .ok document c =>
      let finished :=
        Event.finished document.statements.length document.attributes.length c.attempts
      ⟨.ok document, .started bytes :: (c.record finished).log.reverse⟩
    | .error failure c =>
      ⟨.error (failure.report text options.contextWindow), .started bytes :: c.log.reverse⟩

def run (source : String) (options : Options) : Run := runWith StatementKind.all source options

def parse (source : String) (options : Options) : Except ParseError (Document Span) :=
  (run source options).result

end SchemaText
