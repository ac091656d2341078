/-!
Sets of characters given as ascending ranges of code points.
-/
namespace SchemaText

/-- Inclusive ranges of code points. -/
abbrev CharTable := List (Nat × Nat)

def CharTable.contains (table : CharTable) (c : Char) : Bool :=
  table.any fun (low, high) => low ≤ c.toNat && c.toNat ≤ high

end SchemaText
