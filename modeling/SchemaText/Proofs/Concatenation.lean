import SchemaText.Proofs.Completeness
import SchemaText.Proofs.Grammar.Seam
import SchemaText.Proofs.Lossless
import SchemaText.Proofs.Tree.Transfer

/-!
Sources that are put one behind the other are parsed as their documents one behind the other.
-/
namespace SchemaText

open Grammar

variable {d d₁ d₂ : Document Token} {slots slots₁ slots₂ : List (Slot Token)} {e₁ e₂ : Place}
  {first second : List Char}

theorem Document.Readable.shift (k : Nat) (h : d.Readable slots) :
    (d.map (Token.shift k)).Readable (mapSlots (Token.shift k) slots) := by
  obtain ⟨hw, hu⟩ := Document.readable_iff.1 h
  apply Document.readable_iff.2
  refine ⟨hw.map (Token.shift k), ?_⟩
  rw [Document.unambiguous_map]
  exact hu

theorem Document.Readable.append (h₁ : d₁.Readable slots₁) (h₂ : d₂.Readable slots₂) :
    (d₁ ++ d₂).Readable (slots₁ ++ slots₂) := by
  obtain ⟨hw₁, hu₁⟩ := Document.readable_iff.1 h₁
  obtain ⟨hw₂, hu₂⟩ := Document.readable_iff.1 h₂
  apply Document.readable_iff.2
  exact ⟨BlockWritten.append hw₁ hw₂, List.forall_mem_append.2 ⟨hu₁, hu₂⟩⟩

/-- Two texts that are read to their ends are read one behind the other, unless the lines of the
first one are not ended. -/
theorem Reads.concat (h₁ : Reads (.start first) slots₁ e₁) (he₁ : e₁.rest = [])
    (h₂ : Reads (.start second) slots₂ e₂) (he₂ : e₂.rest = []) (ho : Orderly slots₂)
    (hends : EndsLine first) : Reads (.start (first ++ second))
      (slots₁ ++ mapSlots (Token.shift (byteLength first)) slots₂)
      (e₂.shift (byteLength first)) := by
  have hfirst := h₁.extend he₁ hends (ho.not_startsPipe h₂ he₂)
  have hsecond := h₂.shift (byteLength first)
  have hseam : (Place.start first).afterRest second =
      (Place.start second).shift (byteLength first) := by
    simp [Place.start, Place.afterRest, Place.shift]
  rw [← hseam] at hsecond
  exact hfirst.append hsecond

/-- No text that can be parsed reaches over a line end into the text behind it: neither a comment
or content, nor a token that may be missing. -/
theorem parse_append {first second : String} {options options₁ options₂ : Options}
    {d₁ d₂ : Document Span} (h₁ : parse first options₁ = .ok d₁)
    (h₂ : parse second options₂ = .ok d₂) (hends : EndsLine first.toList)
    (hb : byteLength (first ++ second).toList ≤ maxOffset) (hf : 16 ≤ options.attemptFactor) :
    parse (first ++ second) options =
      .ok (d₁ ++ d₂.map (Span.shift (byteLength first.toList))) := by
  obtain ⟨t₁, slots₁, e₁, rfl, ht₁, hr₁, he₁⟩ := exists_reads_of_parse h₁
  obtain ⟨t₂, slots₂, e₂, rfl, ht₂, hr₂, he₂⟩ := exists_reads_of_parse h₂
  have ho := (Document.readable_iff.1 ht₂).1.orderly
  have hr := hr₁.concat he₁ hr₂ he₂ ho hends
  rw [← String.toList_append] at hr
  have ht := ht₁.append (ht₂.shift (byteLength first.toList))
  have hmap : (t₁ ++ t₂.map (Token.shift (byteLength first.toList))).map Token.span =
      t₁.map Token.span ++ (t₂.map Token.span).map (Span.shift (byteLength first.toList)) := by
    rw [Document.map_append, Document.map_map, Document.map_map]
    rfl
  rw [← hmap]
  exact parse_of_reads ht hr he₂ hb hf

theorem parse_append_content :
    parse "#a | b\n" {} = .ok ⟨[⟨.inner, ⟨0, 1⟩, ⟨1, 2⟩, some ⟨3, 7⟩⟩], []⟩ ∧
    parse "@c custom A = B" {} = .ok ⟨[], [.custom
      { attributes := [⟨.outer, ⟨0, 1⟩, ⟨1, 2⟩, none⟩], keyword := ⟨3, 9⟩, name := ⟨10, 11⟩,
        equals := ⟨12, 13⟩, type := ⟨⟨14, 15⟩, none⟩ }]⟩ ∧
    parse ("#a | b\n" ++ "@c custom A = B") {} =
      .ok ⟨[⟨.inner, ⟨0, 1⟩, ⟨1, 2⟩, some ⟨3, 7⟩⟩], [.custom
        { attributes := [⟨.outer, ⟨7, 8⟩, ⟨8, 9⟩, none⟩], keyword := ⟨10, 16⟩, name := ⟨17, 18⟩,
          equals := ⟨19, 20⟩, type := ⟨⟨21, 22⟩, none⟩ }]⟩ := by
  have h₁ : parse "#a | b\n" {} = .ok ⟨[⟨.inner, ⟨0, 1⟩, ⟨1, 2⟩, some ⟨3, 7⟩⟩], []⟩ := by
    decide +kernel
  have h₂ : parse "@c custom A = B" {} = .ok ⟨[], [.custom
      { attributes := [⟨.outer, ⟨0, 1⟩, ⟨1, 2⟩, none⟩], keyword := ⟨3, 9⟩, name := ⟨10, 11⟩,
        equals := ⟨12, 13⟩, type := ⟨⟨14, 15⟩, none⟩ }]⟩ := by
    decide +kernel
  have hends : EndsLine "#a | b\n".toList := by simp [EndsLine]
  exact ⟨h₁, h₂, parse_append h₁ h₂ hends (by decide +kernel) (by decide)⟩

end SchemaText
