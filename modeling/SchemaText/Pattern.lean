import SchemaText.Pattern.Regex
import SchemaText.Text.Alphanumeric
import SchemaText.Text.Quoted

/-!
What the parser asks for at a place.
-/
namespace SchemaText

inductive Pattern where
  /-- This very text. -/
  | literal (text : String)
  /-- This text, where no letter, digit or underscore follows. -/
  | keyword (text : String)
  | token (cls : TokenClass)
  /-- The end of the source, which has no width. -/
  | endOfInput
deriving DecidableEq, Repr

namespace Pattern

def isWordChar (c : Char) : Bool := isAlphanumeric c || c == '_'

/-- The place after the match at `p`. -/
def end? (pattern : Pattern) (p : Place) : Option Place :=
  match pattern with
  | literal text => p.strip? text.toList
  | keyword text => (p.strip? text.toList).filter fun q => !q.rest.head?.any isWordChar
  | token cls => cls.expr.end? p
  | endOfInput => if p.rest.isEmpty then some p else none

/-- The offset after the match at a byte offset of `source`. -/
def matchAt? (pattern : Pattern) (source : String) (offset : Nat) : Option Nat := do
  let p ← Place.seek? source.toList offset
  let q ← pattern.end? p
  return q.offset

/-- Texts are quoted, classes go by their name. -/
instance : ToString Pattern where
  toString
    | literal text | keyword text => quoted text
    | token cls => cls.name
    | endOfInput => "<EOF>"

end Pattern

end SchemaText
