import SchemaText.Parse.Production

/-!
One cursor taken step by step. It goes on from wherever the last step left it, also after a
failure.
-/
namespace SchemaText

structure Session where
  source : String
  cursor : Cursor
  /-- Places to come back to, by name. -/
  saved : List (String × Place) := []

namespace Session

inductive Step where
  | save (name : String)
  | restore (name : String)
  | text (span : Span)
  | peekAll (patterns : List Pattern)
  | run (production : Production)

inductive Reply where
  | saved
  | restored
  | text (chars : String)
  | peeked (spans : List (Option Span))
  | ran (result : Except Failure (Option Value))

def start (source : String) (factor : Nat) : Session where
  source := source
  cursor := .start source.toList factor

def step (s : Session) : Step → Reply × Session
  | .save name => (.saved, { s with saved := (name, s.cursor.place) :: s.saved })
  | .restore name =>
    match s.saved.lookup name with
    | some place => (.restored, { s with cursor := { s.cursor with place := place } })
    | none => (.restored, s)
  | .text span => (.text (span.text s.source), s)
  | .peekAll patterns =>
    let place := s.cursor.place
    (.peeked (patterns.map fun pattern => (pattern.end? place).map place.spanTo), s)
  | .run production =>
    match production.run s.cursor with
    | .ok value cursor => (.ran (.ok value), { s with cursor := cursor })
    | .error failure cursor => (.ran (.error failure), { s with cursor := cursor })

/-- The replies to a list of steps, each with the session after it. -/
def steps : Session → List Step → List (Reply × Session)
  | _, [] => []
  | s, next :: rest => let r := s.step next; r :: r.2.steps rest

end Session

end SchemaText
