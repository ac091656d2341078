import SchemaText.Text.DefaultIgnorable
import SchemaText.Text.ExtendingMark
import SchemaText.Text.Printable

/-!
Quoted texts, readable on one line of a terminal.
-/
namespace SchemaText

/-- A character that shows as itself, apart from its neighbours. -/
def isVisible (c : Char) : Bool :=
  isPrintable c && !isDefaultIgnorable c && !isExtendingMark c

/-- A character within quotes. What would not show on its own is given by its code point: a control,
a filler, or an accent that would join the character before it. -/
def quotedChar (c : Char) : List Char :=
  match c with
  | '\x00' => ['\\', '0']
  | '\t' => ['\\', 't']
  | '\r' => ['\\', 'r']
  | '\n' => ['\\', 'n']
  | '"' => ['\\', '"']
  | '\\' => ['\\', '\\']
  | c =>
    if isVisible c then [c]
    else ['\\', 'u', '\x7b'] ++ Nat.toDigits 16 c.toNat ++ ['\x7d']

def quoted (text : String) : String :=
  .ofList ('"' :: text.toList.flatMap quotedChar ++ ['"'])

end SchemaText
