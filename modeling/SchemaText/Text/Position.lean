import SchemaText.Span

/-!
Positions as editors count them: a line, and a column in characters. Only a line feed ends a line.
-/
namespace SchemaText

/-- Zero-based line and column. -/
structure Position where
  line : Nat := 0
  column : Nat := 0
deriving DecidableEq, Repr

namespace Position

instance : LE Position :=
  ⟨fun p q => p.line < q.line ∨ p.line = q.line ∧ p.column ≤ q.column⟩

instance (p q : Position) : Decidable (p ≤ q) :=
  inferInstanceAs (Decidable (_ ∨ _))

/-- First by line, then by column. -/
instance : Ord Position :=
  ⟨fun p q => (compare p.line q.line).then (compare p.column q.column)⟩

/-- One-based `line:column`. -/
instance : ToString Position :=
  ⟨fun p => s!"{p.line + 1}:{p.column + 1}"⟩

/-- The position after a character that stands at `p`. -/
def after (p : Position) (c : Char) : Position :=
  if c = '\n' then ⟨p.line + 1, 0⟩ else ⟨p.line, p.column + 1⟩

/-- The characters of a text that begin before a byte offset. -/
def startedBefore : Nat → List Char → List Char
  | _, [] => []
  | n, c :: text => if n = 0 then [] else c :: startedBefore (n - c.utf8Size) text

/-- The position of a byte offset. Inside a character it is the position after that character,
past the end it is the end of the last line. -/
def ofOffset (text : List Char) (offset : Nat) : Position :=
  (startedBefore offset text).foldl after {}

/-- The positions of both ends of a span. -/
def ofSpan (text : List Char) (span : Span) : Position × Position :=
  (ofOffset text span.start, ofOffset text span.stop)

/-- The byte offset of a position. A column past the end of its line stands for the line's end,
a line past the end of the text for the end of the text. -/
def toOffset : List Char → Position → Nat
  | [], _ => 0
  | _ :: _, ⟨0, 0⟩ => 0
  | c :: text, ⟨0, column + 1⟩ =>
    if c = '\n' then 0 else c.utf8Size + toOffset text ⟨0, column⟩
  | c :: text, ⟨line + 1, column⟩ =>
    c.utf8Size + toOffset text ⟨if c = '\n' then line else line + 1, column⟩

end Position

end SchemaText
