import SchemaText.Grammar.Trivia
import SchemaText.Parse.Separated
import SchemaText.Tree.Type

/-!
Type expressions and paths.
-/
namespace SchemaText.Grammar

open Parse

/-- Brackets with an optional key type, after trivia. -/
def container? : Parse (Option (Container Span)) := do
  trivia
  let some opening ← accept bracketOpen | return none
  trivia
  let keyType ← accept word
  trivia
  let closing ← sign bracketClose
  return some { opening, keyType, closing }

/-- A type; trivia after it stays unless brackets follow. -/
def type? : Parse (Option (TypeExpression Span)) := do
  let some valueType ← accept word | return none
  let container ← attempt container?
  return some { valueType, container }

def type : Parse (TypeExpression Span) := do
  match ← type? with
  | some type => return type
  | none => fail [word] []

/-- A path with at least one identifier. -/
def path : Parse (Path Span) := do
  let parts ← separated (accept word) (accept dotSign) trivia
  if parts.isEmpty then fail [word] []
  else return { items := parts.merged .identifier .dot }

end SchemaText.Grammar
