import SchemaText.Text.Position

/-!
Extracts of a text with a caret under one position.

    1 | struct S {
    2 |   a: }
             ^
    3 | enum E {}
-/
namespace SchemaText

/-- The lines of a text without their line feeds; there is always a last line. -/
def lines (text : List Char) : List (List Char) :=
  text.foldr (fun c rows => if c = '\n' then [] :: rows else (c :: rows.headD []) :: rows.tail) [[]]

@[simp] theorem lines_nil : lines [] = [[]] := rfl

theorem lines_cons (c : Char) (text : List Char) :
    lines (c :: text) =
      if c = '\n' then [] :: lines text
      else (c :: (lines text).headD []) :: (lines text).tail := rfl

theorem lines_ne_nil (text : List Char) : lines text ≠ [] := by
  cases text with
  | nil => simp
  | cons c text => rw [lines_cons]; split <;> simp

namespace Snippet

/-- A source line after its one-based number, which is padded on the left to `digits`. -/
def row (digits : Nat) (line : List Char × Nat) : List Char :=
  let number := Nat.toDigits 10 (line.2 + 1)
  List.replicate (digits - number.length) ' ' ++ number ++ " | ".toList ++ line.1

/-- Carets below the column, which row numbers of width `digits` move to the right. -/
def caretRow (digits column width : Nat) : List Char :=
  List.replicate (digits + 3 + column) ' ' ++ List.replicate width '^'

/-- The rows shown for a byte offset: the line before it unless the window is zero, its own line,
the carets, and half a window of lines below. -/
def rows (text : List Char) (offset caretWidth window : Nat) : List (List Char) :=
  let position := Position.ofOffset text offset
  let all := lines text
  let first := position.line - min window 1
  let last := min all.length (position.line + window / 2 + 1)
  let digits := (Nat.toDigits 10 last).length
  let numbered (start stop : Nat) := (all.zipIdx.drop start).take (stop - start)
  (numbered first (position.line + 1)).map (row digits) ++
    caretRow digits position.column caretWidth ::
    (numbered (position.line + 1) last).map (row digits)

def render (text : List Char) (offset caretWidth window : Nat) : String :=
  .ofList (['\n'].intercalate (rows text offset caretWidth window))

end Snippet

end SchemaText
