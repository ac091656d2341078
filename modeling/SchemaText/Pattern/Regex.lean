import SchemaText.Text.Place

/-!
Regular expressions that are matched at one place. The ends of a match come in order of
preference: an earlier alternative before a later one, more repetitions before fewer.
-/
namespace SchemaText

/-- A set of characters as it is written in an expression. -/
inductive CharSet where
  | only (c : Char)
  /-- Any character but a line feed, written as a dot. -/
  | dot
  | oneOf (ranges : List (Char × Char))
  | noneOf (ranges : List (Char × Char))
deriving DecidableEq, Repr

namespace CharSet

def has : CharSet → Char → Bool
  | only c, d => c == d
  | dot, d => d != '\n'
  | oneOf ranges, d => ranges.any fun (low, high) => low ≤ d && d ≤ high
  | noneOf ranges, d => !ranges.any fun (low, high) => low ≤ d && d ≤ high

/-- A character as it is written outside brackets. -/
def escaped (c : Char) : String :=
  match c with
  | '\n' => "\\n"
  | '\r' => "\\r"
  | '\t' => "\\t"
  | c => if c ∈ "\\.+*?()|[]\x7b\x7d^$".toList then "\\" ++ c.toString else c.toString

def bracketed (ranges : List (Char × Char)) : String :=
  .join (ranges.map fun (low, high) =>
    if low = high then escaped low else s!"{escaped low}-{escaped high}")

def source : CharSet → String
  | only c => escaped c
  | dot => "."
  | oneOf ranges => s!"[{bracketed ranges}]"
  | noneOf ranges => s!"[^{bracketed ranges}]"

end CharSet

inductive Regex where
  /-- The end of the text. -/
  | finish
  | one (set : CharSet)
  | seq (first second : Regex)
  | alt (first second : Regex)
  | opt (body : Regex)
  | star (body : Regex)
  | plus (body : Regex)
deriving DecidableEq, Repr

namespace Regex

/-- The ends of runs of steps from `p`, the longest runs first, followed by `tail`. A step that
consumes nothing is not taken, so there are at most as many steps as characters in `bound`, the
text that is left at `p`. -/
def runs (step : Place → List Place) (bound : List Char) (p : Place) (tail : List Place) :
    List Place :=
  match bound with
  | [] => p :: tail
  | _ :: bound =>
    ((step p).filter fun q => q.offset != p.offset).foldr (runs step bound) (p :: tail)

/-- The places where a match that begins at `p` may end, the preferred one first. -/
def ends : Regex → Place → List Place
  | finish, p => if p.rest.isEmpty then [p] else []
  | one set, p =>
    match p.rest with
    | [] => []
    | c :: rest => if set.has c then [⟨p.offset + c.utf8Size, rest⟩] else []
  | seq first second, p => (first.ends p).flatMap second.ends
  | alt first second, p => first.ends p ++ second.ends p
  | opt body, p => body.ends p ++ [p]
  | star body, p => runs body.ends p.rest p []
  | plus body, p => (body.ends p).flatMap fun q => runs body.ends q.rest q []

/-- Where the match that begins at `p` ends. -/
def end? (r : Regex) (p : Place) : Option Place := (r.ends p).head?

/-- How tightly the parts of an expression hold together. -/
inductive Binding where
  | alternative | sequence | repetition
deriving DecidableEq, Ord, Repr

/-- Parentheses around what holds together less tightly than its place asks for. -/
def grouped (inner outer : Binding) (source : String) : String :=
  if (compare inner outer).isLT then s!"(?:{source})" else source

def source : Regex → Binding → String
  | finish, _ => "$"
  | one set, _ => set.source
  | seq first second, outer =>
    grouped .sequence outer (first.source .sequence ++ second.source .sequence)
  | alt first second, outer =>
    grouped .alternative outer (first.source .alternative ++ "|" ++ second.source .alternative)
  | opt body, _ => body.source .repetition ++ "?"
  | star body, _ => body.source .repetition ++ "*"
  | plus body, _ => body.source .repetition ++ "+"

end Regex

/-- A named class of tokens. An anchored expression is tied to the place where a search begins;
at that place the two kinds match alike. -/
structure TokenClass where
  name : String
  expr : Regex
  anchored : Bool := true
deriving DecidableEq, Repr

def TokenClass.source (token : TokenClass) : String :=
  if token.anchored then "^" ++ token.expr.source .sequence else token.expr.source .alternative

end SchemaText
