import SchemaText.Parse.Separated

/-!
Productions as data, built from the steps and loops of a parse.
-/
namespace SchemaText

inductive Production where
  | accept (pattern : Pattern)
  | expect (pattern : Pattern) (others mistakes : List Pattern)
  | peek (pattern : Pattern)
  | fail (expected mistakes : List Pattern)
  /-- All parts in turn. What was consumed before a part that does not match stays consumed. -/
  | seq (parts : List Production)
  /-- The body, or nothing. -/
  | opt (body : Production)
  /-- The body, undone if it does not match. -/
  | attempt (body : Production)
  | lookahead (body : Production)
  | many (body : Production)
  | choice (alternatives : List Production)
  | separated (item separator skip : Production)

/-- What a production makes of the text that it matches. -/
inductive Value where
  | span (span : Span)
  | absent
  | list (values : List Value)
  | separated (items separators : List Value)

namespace Parse

variable {α : Type}

/-- All of `ps` in turn, up to the first that does not match. -/
def inTurn : List (Parse (Option α)) → Parse (Option (List α))
  | [] => return some []
  | p :: ps => do
    let some a ← p | return none
    let some as ← inTurn ps | return none
    return some (a :: as)

end Parse

namespace Production

mutual

def run : Production → Parse (Option Value)
  | accept pattern => return (← Parse.accept pattern).map .span
  | expect pattern others mistakes => return some (.span (← Parse.expect pattern others mistakes))
  | peek pattern => return (← Parse.peek pattern).map .span
  | fail expected mistakes => Parse.fail expected mistakes
  | seq parts => return (← Parse.inTurn (runAll parts)).map .list
  | opt body => return some ((← body.run).getD .absent)
  | attempt body => Parse.attempt body.run
  | lookahead body => Parse.lookahead body.run
  | many body => return some (.list (← Parse.many body.run))
  | choice alternatives => Parse.choice (runAll alternatives)
  | separated item separator skip => do
    let s ← Parse.separated item.run separator.run (discard skip.run)
    return some (.separated s.items s.separators)

def runAll : List Production → List (Parse (Option Value))
  | [] => []
  | p :: ps => p.run :: runAll ps

end

end Production

end SchemaText
