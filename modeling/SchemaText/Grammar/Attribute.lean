import SchemaText.Grammar.Trivia
import SchemaText.Tree.Attribute

/-!
Attributes and the blocks that they stand in.
-/
namespace SchemaText.Grammar

open Parse

variable {α : Type}

def introduced? (kind : AttributeKind) : Parse (Option (AttributeKind × Span)) :=
  return (← accept (introducer kind)).map (kind, ·)

def attribute? : Parse (Option (Attribute Span)) := do
  let some (kind, symbol) ← choice [introduced? .inner, introduced? .outer] | return none
  trivia
  let name ← name
  trivia
  let content ← accept (.token content)
  return some { kind, symbol, name, content }

/-- The attributes from here on, inner ones and outer ones apart. -/
def attributes : Parse (List (Attribute Span) × List (Attribute Span)) := do
  let all ← many (afterTrivia attribute?)
  return all.partition (·.kind.isInner)

/-- Items up to the first that does not match, each with the outer attributes in front of it, and
the inner attributes among them. Outer attributes without an item are a failure, which expects
`orphans`. -/
def block [HasAttributes α Span] (orphans : List Pattern) (item : Parse (Option α)) :
    Parse (List (Attribute Span) × List α) :=
  loop (fun ((found, items) : Array (Attribute Span) × Array α) => do
    let (inner, outer) ← attributes
    let found := found ++ inner
    match ← item with
    | some node => return .again (found, items.push (prepend outer node))
    | none =>
      if outer.isEmpty then return .done (found.toList, items.toList)
      else fail orphans [word]) (#[], #[])

end SchemaText.Grammar
