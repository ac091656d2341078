/-!
JSON values and how records are read from them.
-/
namespace SchemaText

inductive Json where
  | null
  | bool (value : Bool)
  | integer (value : Int)
  /-- A number written with a fraction: `digits`, the last `places` of them after the point. -/
  | decimal (digits : Int) (places : Nat)
  | string (value : String)
  | array (items : List Json)
  | object (fields : List (String × Json))
deriving Inhabited, Repr

namespace Json

variable {α : Type}

def ofOption (write : α → Json) (a : Option α) : Json := a.elim null write

def ofList (write : α → Json) (as : List α) : Json := array (as.map write)

/-- An integer from zero to `bound`. -/
def natUpTo? (bound : Nat) : Json → Option Nat
  | integer n => if 0 ≤ n ∧ n ≤ bound then some n.toNat else none
  | _ => none

def list? (read : Json → Option α) : Json → Option (List α)
  | array items => items.mapM read
  | _ => none

/-- The fields of a record with these names: those of an object, or the items of an array, one for
each name in turn. -/
def record? (names : List String) : Json → Option (List (String × Json))
  | object fields => some fields
  | array items => if items.length = names.length then some (names.zip items) else none
  | _ => none

/-- The value of a field that has to be there. Other fields do not matter. -/
def required (name : String) (read : Json → Option α) (fields : List (String × Json)) : Option α :=
  (fields.lookup name).bind read

/-- The value of a field that may be missing or null. -/
def optional (name : String) (read : Json → Option α) (fields : List (String × Json)) :
    Option (Option α) :=
  match fields.lookup name with
  | none | some null => some none
  | some value => (read value).map some

/-- The tag of a variant and its value: the one field of an object. -/
def variant? : Json → Option (String × Json)
  | object [field] => some field
  | _ => none

/-- The tag of a variant without a value: a string, or the one field of an object if that is
null. -/
def tag? : Json → Option String
  | string tag => some tag
  | object [(tag, null)] => some tag
  | _ => none

end Json

end SchemaText
