import SchemaText.Grammar.Token
import SchemaText.Parse.Loop

/-!
Blanks and comments, which may stand between any two tokens and are part of none. A production
whose name ends in a question mark may give `none`; the others match or fail the parse.
-/
namespace SchemaText.Grammar

open Parse

/-- As many blanks and comments as there are. -/
def trivia : Parse Unit :=
  loop (fun _ => do
    if (← accept (.token whitespace)).isSome then return .again ()
    if (← accept (.token comment)).isSome then return .again ()
    return .done ()) ()

def afterTrivia {α : Type} (p : Parse α) : Parse α := do
  trivia
  p

def name : Parse Span := expect word [] []

/-- A sign that has to be here. A word in its place is reported as a whole. -/
def sign (pattern : Pattern) : Parse Span := expect pattern [] [word]

/-- A comma after trivia; the trivia is consumed either way. -/
def comma? : Parse (Option Span) := afterTrivia (accept comma)

end SchemaText.Grammar
