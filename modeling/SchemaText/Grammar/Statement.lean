import SchemaText.Grammar.Attribute
import SchemaText.Grammar.Type
import SchemaText.Tree.Statement

/-!
Statements. Each begins with its keyword; once that has matched, what is missing is a failure.
-/
namespace SchemaText.Grammar

open Parse

variable {α : Type}

def item? (content : Parse (Option α)) : Parse (Option (Entry Span α)) := do
  let some content ← content | return none
  let comma ← comma?
  return some { content, comma }

/-- A keyword, a name and entries in braces. -/
def declaration? (kind : StatementKind) (content : Parse (Option α)) :
    Parse (Option (Declaration Span α)) := do
  let some keyword ← accept (keyword kind) | return none
  trivia
  let name ← name
  trivia
  let opening ← sign braceOpen
  let (attributes, entries) ← block [braceClose] (item? content)
  let closing ← sign braceClose
  return some { attributes, keyword, name, opening, entries, closing }

def field? : Parse (Option (StructField Span)) := do
  let some name ← accept word | return none
  trivia
  let question ← accept question
  trivia
  let colon ← sign colon
  trivia
  let type ← type
  return some { name, question, colon, type }

def variantBody? : Parse (Option (VariantBody Span)) := do
  let some opening ← accept parenOpen | return none
  let (attributes, fields) ← block [parenClose] (item? field?)
  let closing ← sign parenClose
  return some { attributes, opening, fields, closing }

def variant? : Parse (Option (Variant Span)) := do
  let some name ← accept word | return none
  trivia
  let body ← variantBody?
  return some { name, body }

def custom? : Parse (Option (Custom Span)) := do
  let some keyword ← accept (keyword .custom) | return none
  trivia
  let name ← name
  trivia
  let equals ← sign equals
  trivia
  let type ← type
  return some { keyword, name, equals, type }

/-- The error type of a signature, after trivia. -/
def throws? : Parse (Option (Throws Span)) := do
  trivia
  let some keyword ← accept keywordThrows | return none
  trivia
  let type ← type
  return some { keyword, type }

def proc? : Parse (Option (Proc Span)) := do
  let some keyword ← accept (keyword .proc) | return none
  trivia
  let name ← name
  trivia
  let equals ← sign equals
  trivia
  let input ← type
  trivia
  let arrow ← sign arrow
  trivia
  let output ← type
  let throws ← attempt throws?
  return some { keyword, name, equals, input, arrow, output, throws }

def importAlias? : Parse (Option (ImportAlias Span)) := do
  let some keyword ← accept keywordAs | return none
  trivia
  let name ← name
  return some { keyword, name }

def importItem? : Parse (Option (ImportItem Span)) := do
  let some name ← accept word | return none
  trivia
  let localAlias ← importAlias?
  let comma ← comma?
  return some { name, localAlias, comma }

/-- The items of an import take no attributes. -/
def import? : Parse (Option (Import Span)) := do
  let some keyword ← accept (keyword .imports) | return none
  trivia
  let path ← path
  trivia
  let opening ← sign braceOpen
  let items ← many (afterTrivia importItem?)
  let closing ← sign braceClose
  return some { keyword, path, opening, items, closing }

def statementOf : StatementKind → Parse (Option (Statement Span))
  | .custom => return (← custom?).map .custom
  | .enum => return (← declaration? .enum (accept word)).map .enum
  | .imports => return (← import?).map .imports
  | .oneof => return (← declaration? .oneof type?).map .oneof
  | .proc => return (← proc?).map .proc
  | .struct => return (← declaration? .struct field?).map .struct
  | .union => return (← declaration? .union variant?).map .union

/-- A statement of one of the given kinds, which are tried in their order. -/
def statement? (kinds : List StatementKind) : Parse (Option (Statement Span)) := do
  let some s ← choice (kinds.map statementOf) | return none
  modify (·.record (.statement s.kind.keyword s.span))
  return some s

/-- Statements up to the end of the source. -/
def document (kinds : List StatementKind) : Parse (Document Span) := do
  let (attributes, statements) ← block keywords (statement? kinds)
  discard <| expect .endOfInput keywords [word]
  return { attributes, statements }

end SchemaText.Grammar
