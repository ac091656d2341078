/-!
Texts are lists of characters; offsets into them count bytes of their UTF-8 form.
-/
namespace SchemaText

/-- Bytes that a text takes in UTF-8. -/
def byteLength (text : List Char) : Nat :=
  text.foldr (fun c bytes => c.utf8Size + bytes) 0

@[simp] theorem byteLength_nil : byteLength [] = 0 := rfl

@[simp] theorem byteLength_cons (c : Char) (text : List Char) :
    byteLength (c :: text) = c.utf8Size + byteLength text := rfl

@[simp] theorem byteLength_append (a b : List Char) :
    byteLength (a ++ b) = byteLength a + byteLength b := by
  induction a with
  | nil => simp
  | cons c a ih => simp [ih, Nat.add_assoc]

/-- The two parts of a text on either side of a byte offset; `none` inside a character and past
the end. -/
def cut? : Nat → List Char → Option (List Char × List Char)
  | 0, text => some ([], text)
  | _ + 1, [] => none
  | n + 1, c :: text =>
    if c.utf8Size ≤ n + 1 then (cut? (n + 1 - c.utf8Size) text).map fun (a, b) => (c :: a, b)
    else none

/-- A cut is where the bytes before it say. -/
theorem cut?_eq_some_iff {n : Nat} {text a b : List Char} :
    cut? n text = some (a, b) ↔ text = a ++ b ∧ byteLength a = n := by
  induction text generalizing n a with
  | nil =>
    cases n with
    | zero => cases a <;> cases b <;> simp [cut?, Nat.ne_of_gt (Char.utf8Size_pos _)]
    | succ n =>
      simp only [cut?, reduceCtorEq, false_iff, not_and]
      intro h
      simp [List.nil_eq_append_iff.1 h]
  | cons c text ih =>
    have hc := c.utf8Size_pos
    cases n with
    | zero =>
      cases a with
      | nil => simp [cut?]
      | cons d a =>
        have hd := d.utf8Size_pos
        simp only [cut?, Option.some.injEq, Prod.mk.injEq, reduceCtorEq, false_and,
          byteLength_cons, false_iff, not_and]
        omega
    | succ n =>
      cases a with
      | nil =>
        simp only [cut?, byteLength_nil, List.nil_append]
        split <;> simp
      | cons d a =>
        simp only [cut?]
        split
        · simp only [Option.map_eq_some_iff, Prod.exists, Prod.mk.injEq, List.cons.injEq,
            List.cons_append, byteLength_cons]
          constructor
          · rintro ⟨x, y, h, ⟨rfl, rfl⟩, rfl⟩
            obtain ⟨rfl, hx⟩ := ih.1 h
            exact ⟨⟨rfl, rfl⟩, by omega⟩
          · rintro ⟨⟨rfl, rfl⟩, h⟩
            exact ⟨a, b, ih.2 ⟨rfl, by omega⟩, ⟨rfl, rfl⟩, rfl⟩
        · simp only [reduceCtorEq, List.cons_append, List.cons.injEq, byteLength_cons, false_iff,
            not_and, and_imp]
          rintro rfl -
          omega

theorem cut?_append (a b : List Char) : cut? (byteLength a) (a ++ b) = some (a, b) :=
  cut?_eq_some_iff.2 ⟨rfl, rfl⟩

/-- The text between two byte offsets; `none` where one is no character boundary, lies past the
end, or the two are reversed. -/
def slice? (start stop : Nat) (text : List Char) : Option (List Char) := do
  let (_, rest) ← cut? start text
  guard (start ≤ stop)
  let (inner, _) ← cut? (stop - start) rest
  return inner

end SchemaText
