import SchemaText.Parse.Loop

/-!
Items with separators between them.
-/
namespace SchemaText

variable {α β γ : Type}

/-- Items and the separators that follow them, each in order. -/
structure Separated (α β : Type) where
  items : List α
  separators : List β
deriving DecidableEq, Repr

/-- Two lists in turn, as long as the first one lasts. -/
def alternate (ofFirst : α → γ) (ofSecond : β → γ) : List α → List β → List γ
  | [], _ => []
  | a :: as, [] => ofFirst a :: alternate ofFirst ofSecond as []
  | a :: as, b :: bs => ofFirst a :: ofSecond b :: alternate ofFirst ofSecond as bs

namespace Separated

def isEmpty (s : Separated α β) : Bool := s.items.isEmpty

/-- The last item is followed by a separator. -/
def hasTrailing (s : Separated α β) : Bool :=
  !s.items.isEmpty && s.separators.length == s.items.length

/-- Both kinds in the order of the source. -/
def merged (ofItem : α → γ) (ofSeparator : β → γ) (s : Separated α β) : List γ :=
  alternate ofItem ofSeparator s.items s.separators

end Separated

namespace Parse

/-- Items and separators in turn, beginning with an item; `skip` runs on both sides of each
separator. A separator that no item follows stays consumed. -/
def separated (item : Parse (Option α)) (separator : Parse (Option β)) (skip : Parse Unit) :
    Parse (Separated α β) := do
  let some first ← item | return ⟨[], []⟩
  loop (fun ((items, separators) : Array α × Array β) => do
    skip
    let some b ← separator | return .done ⟨items.toList, separators.toList⟩
    let separators := separators.push b
    skip
    let some a ← item | return .done ⟨items.toList, separators.toList⟩
    return .again (items.push a, separators)) (#[first], #[])

end Parse

end SchemaText
