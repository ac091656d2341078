import SchemaText.Pattern
import SchemaText.Tree.Statement

/-!
The tokens of schema texts.
-/
namespace SchemaText.Grammar

open Regex CharSet

def identifier : TokenClass where
  name := "identifier"
  expr :=
    seq (one (oneOf [('a', 'z'), ('A', 'Z'), ('_', '_')]))
      (star (one (oneOf [('a', 'z'), ('A', 'Z'), ('0', '9'), ('_', '_')])))

def whitespace : TokenClass where
  name := "whitespace"
  expr := plus (one (oneOf [(' ', ' '), ('\t', '\t'), ('\r', '\r'), ('\n', '\n')]))

/-- A line feed, or the end of the text in its place. -/
def lineEnd : Regex := alt (one (only '\n')) finish

def comment : TokenClass where
  name := "comment"
  expr := seq (one (only '/')) (seq (one (only '/')) (seq (star (one dot)) lineEnd))

/-- The rest of a line after a `-`, or lines that begin with a `|`. -/
def content : TokenClass where
  name := "attribute content"
  expr :=
    let line := star (one (noneOf [('\n', '\n')]))
    let indent := star (one (oneOf [(' ', ' '), ('\t', '\t'), ('\r', '\r')]))
    alt (seq (one (only '-')) (seq (opt (one (only ' '))) line))
      (plus (seq indent (seq (one (only '|')) (seq line lineEnd))))

def word : Pattern := .token identifier
def braceOpen : Pattern := .literal "\x7b"
def braceClose : Pattern := .literal "\x7d"
def parenOpen : Pattern := .literal "("
def parenClose : Pattern := .literal ")"
def bracketOpen : Pattern := .literal "["
def bracketClose : Pattern := .literal "]"
def comma : Pattern := .literal ","
def dotSign : Pattern := .literal "."
def colon : Pattern := .literal ":"
def question : Pattern := .literal "?"
def equals : Pattern := .literal "="
def arrow : Pattern := .literal "->"
def keywordAs : Pattern := .keyword "as"
def keywordThrows : Pattern := .keyword "throws"

def introducer (kind : AttributeKind) : Pattern := .literal kind.symbol

def keyword (kind : StatementKind) : Pattern := .keyword kind.keyword

def keywords : List Pattern := StatementKind.all.map keyword

end SchemaText.Grammar
