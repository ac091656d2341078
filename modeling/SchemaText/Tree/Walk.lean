import SchemaText.Tree.Outline

/-!
Walks through a tree, and its tokens.
-/
namespace SchemaText

variable {τ : Type}

inductive WalkEvent (τ : Type) where
  | enter (kind : NodeKind)
  | token (token : τ)
  | leave (kind : NodeKind)
deriving DecidableEq, Repr

def WalkEvent.describe [ToString τ] : WalkEvent τ → String
  | enter kind => kind.name
  | token t => toString t
  | leave kind => "/" ++ kind.name

namespace Outline

mutual

/-- Enter each node, go through its parts unless its kind is one of `stop`, and leave it. -/
def walk (stop : List NodeKind) : Outline τ → List (WalkEvent τ)
  | token t => [.token t]
  | node kind parts =>
    .enter kind :: (if kind ∈ stop then [] else walkAll stop parts) ++ [.leave kind]

def walkAll (stop : List NodeKind) : List (Outline τ) → List (WalkEvent τ)
  | [] => []
  | part :: parts => part.walk stop ++ walkAll stop parts

end

mutual

def tokens : Outline τ → List τ
  | token t => [t]
  | node _ parts => tokensOf parts

def tokensOf : List (Outline τ) → List τ
  | [] => []
  | part :: parts => part.tokens ++ tokensOf parts

end

end Outline

namespace Document

def walk (stop : List NodeKind) (d : Document τ) : List (WalkEvent τ) := d.outline.walk stop

/-- Every token of the tree in the order of a walk. -/
def tokens (d : Document τ) : List τ := d.outline.tokens

/-- Every span of the tree, in ascending order. -/
def spans (d : Document Span) : List Span := Span.sort d.tokens

end Document

end SchemaText
