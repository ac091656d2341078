import SchemaText.Span

/-!
Places in a text: how far one has come and what is left.
-/
namespace SchemaText

/-- A byte offset together with the text from there on. -/
structure Place where
  offset : Nat
  rest : List Char
deriving DecidableEq, Repr

namespace Place

def start (text : List Char) : Place := ⟨0, text⟩

/-- The place at a byte offset of `text`; `none` inside a character and past the end. -/
def seek? (text : List Char) (offset : Nat) : Option Place :=
  (cut? offset text).map fun (_, rest) => ⟨offset, rest⟩

/-- The place after `text`, if the text at `p` begins with it. -/
def strip? : List Char → Place → Option Place
  | [], p => some p
  | c :: text, ⟨offset, d :: rest⟩ =>
    if c = d then strip? text ⟨offset + d.utf8Size, rest⟩ else none
  | _ :: _, ⟨_, []⟩ => none

/-- The place after `text` has what is left once `text` is taken away. -/
theorem strip?_eq_some_iff {text : List Char} {p q : Place} :
    strip? text p = some q ↔ p.rest = text ++ q.rest ∧ q.offset = p.offset + byteLength text := by
  induction text generalizing p with
  | nil =>
    obtain ⟨o, r⟩ := p; obtain ⟨o', r'⟩ := q
    simp only [strip?, Option.some.injEq, mk.injEq, List.nil_append, byteLength_nil, Nat.add_zero]
    exact ⟨fun h => ⟨h.2, h.1.symm⟩, fun h => ⟨h.2.symm, h.1⟩⟩
  | cons c text ih =>
    obtain ⟨o, r⟩ := p
    cases r with
    | nil => simp [strip?]
    | cons d r =>
      simp only [strip?]
      split
      · subst c
        rw [ih]
        simp [Nat.add_assoc]
      · rename_i h
        simp [Ne.symm h]

/-- The span from one place to a later one. -/
def spanTo (p q : Place) : Span := ⟨p.offset, q.offset⟩

/-- The text from one place to a later one. -/
def upTo (p q : Place) : List Char :=
  p.rest.take (p.rest.length - q.rest.length)

end Place

end SchemaText
