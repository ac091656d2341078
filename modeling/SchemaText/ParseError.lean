import SchemaText.Parse.Failure
import SchemaText.Text.Snippet

/-!
Failed parses as they are reported to the author of the source.
-/
namespace SchemaText

/-- A mismatch with its surroundings. -/
structure Report extends Mismatch where
  position : Position
  /-- The lines around the mismatch, with carets under what was found. -/
  snippet : String
deriving DecidableEq, Repr

namespace Report

def expectedText (r : Report) : String := " or ".intercalate (r.expected.map toString)

def message (r : Report) : String :=
  s!"at line {r.position.line + 1}, column {r.position.column + 1}:\n\n" ++
    s!"expected {r.expectedText}, got {r.found}\n\n{r.snippet}"

end Report

inductive ParseError where
  | mismatch (report : Report)
  | runaway (attempts budget : Nat)
  /-- The source has more bytes than spans can tell apart. -/
  | sourceTooLarge (bytes : Nat)
deriving DecidableEq, Repr

namespace ParseError

def message : ParseError → String
  | mismatch report => report.message
  | runaway attempts budget =>
    s!"parser made {attempts} match attempts, exceeding its budget of {budget}"
  | sourceTooLarge bytes => s!"source of {bytes} bytes exceeds the u32::MAX byte limit"

def report? : ParseError → Option Report
  | mismatch report => some report
  | _ => none

end ParseError

/-- The report of a mismatch in `text`, with a window of context lines. -/
def Mismatch.report (text : List Char) (window : Nat) (m : Mismatch) : Report where
  toMismatch := m
  position := .ofOffset text m.offset
  snippet := Snippet.render text m.offset m.found.width window

def Failure.report (text : List Char) (window : Nat) : Failure → ParseError
  | mismatch m => .mismatch (m.report text window)
  | runaway attempts budget => .runaway attempts budget

end SchemaText
