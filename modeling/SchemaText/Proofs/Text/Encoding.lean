import SchemaText.Proofs.Text.Boundary

/-!
The bytes of a text, and where its characters begin among them.
-/
namespace SchemaText

variable {text a b : List Char} {c : Char} {n : Nat}

/-- A text in UTF-8. -/
def encoded (text : List Char) : List UInt8 := text.flatMap String.utf8EncodeChar

/-- The byte of a line feed. -/
def lineFeed : UInt8 := 10

/-- The offsets at which the characters of a text begin. -/
def charStarts (text : List Char) : List Nat :=
  (List.range text.length).map fun i => byteLength (text.take i)

@[simp] theorem encoded_nil : encoded [] = [] := rfl

@[simp] theorem encoded_cons (c : Char) (text : List Char) :
    encoded (c :: text) = String.utf8EncodeChar c ++ encoded text := rfl

@[simp] theorem encoded_append (a b : List Char) : encoded (a ++ b) = encoded a ++ encoded b :=
  List.flatMap_append

@[simp] theorem length_encoded (text : List Char) : (encoded text).length = byteLength text := by
  induction text with
  | nil => rfl
  | cons c text ih => simp [ih, String.length_utf8EncodeChar]

/-- All bytes of a character that takes more than one of them are large. -/
theorem lineFeed_mem_utf8EncodeChar : lineFeed ∈ String.utf8EncodeChar c ↔ c = '\n' := by
  have hc : c = '\n' ↔ c.val.toNat = 10 := by
    rw [← Char.val_inj, ← UInt32.toNat_inj]
    rfl
  rw [hc, String.utf8EncodeChar, lineFeed]
  generalize c.val.toNat = v
  have hbyte : ∀ k : Nat, (10 : UInt8) = UInt8.ofNat k ↔ k % 256 = 10 := by
    intro k
    rw [← UInt8.toNat_inj, UInt8.toNat_ofNat', eq_comm]
    rfl
  split_ifs <;> simp only [List.mem_cons, List.not_mem_nil, or_false, hbyte] <;> omega

@[simp] theorem utf8EncodeChar_lineFeed : String.utf8EncodeChar '\n' = [lineFeed] := by decide

theorem lineFeed_mem_encoded : lineFeed ∈ encoded text ↔ '\n' ∈ text := by
  simp [encoded, lineFeed_mem_utf8EncodeChar]

/-! ### Starts of characters -/

@[simp] theorem charStarts_nil : charStarts [] = [] := rfl

@[simp] theorem length_charStarts (text : List Char) : (charStarts text).length = text.length := by
  simp [charStarts]

/-- Where two texts meet, the characters of the second one begin behind the first one. -/
theorem charStarts_append (a b : List Char) :
    charStarts (a ++ b) = charStarts a ++ (charStarts b).map (byteLength a + ·) := by
  rw [charStarts, List.length_append, List.range_add, List.map_append]
  congr 1
  · refine List.map_congr_left fun i hi => ?_
    rw [List.take_append_of_le_length (Nat.le_of_lt (List.mem_range.1 hi))]
  · rw [charStarts, List.map_map, List.map_map]
    refine List.map_congr_left fun i _ => ?_
    simp [List.take_append, List.take_of_length_le]

theorem charStarts_cons (c : Char) (text : List Char) :
    charStarts (c :: text) = 0 :: (charStarts text).map (c.utf8Size + ·) :=
  charStarts_append [c] text

/-- Every character begins in front of the end of its text. -/
theorem lt_of_mem_charStarts (h : n ∈ charStarts text) : n < byteLength text := by
  obtain ⟨i, hi, rfl⟩ := List.mem_map.1 h
  rw [List.mem_range] at hi
  have hsplit := congrArg byteLength (List.take_append_drop i text)
  have hpos := byteLength_pos (mt List.drop_eq_nil_iff.1 (Nat.not_le.2 hi))
  rw [byteLength_append] at hsplit
  omega

/-- The starts are in ascending order, so that those before an offset come first. -/
theorem charStarts_startedBefore (n : Nat) (text : List Char) :
    (charStarts text).filter (· < n) = charStarts (Position.startedBefore n text) ∧
      (charStarts text).takeWhile (· < n) = charStarts (Position.startedBefore n text) := by
  induction text generalizing n with
  | nil => simp
  | cons c text ih =>
    rw [charStarts_cons]
    by_cases hn : n = 0
    · simp [hn]
    · have hpos : 0 < n := Nat.pos_of_ne_zero hn
      have hshift : (fun i => decide (i < n)) ∘ (c.utf8Size + ·) =
          fun i => decide (i < n - c.utf8Size) := by
        funext i
        simp only [Function.comp, decide_eq_decide]
        omega
      obtain ⟨hfilter, htake⟩ := ih (n - c.utf8Size)
      rw [Position.startedBefore_cons hn, charStarts_cons, List.filter_cons_of_pos (by simpa),
        List.takeWhile_cons_of_pos (by simpa), List.filter_map, List.takeWhile_map, hshift, hfilter,
        htake]
      exact ⟨rfl, rfl⟩

end SchemaText
