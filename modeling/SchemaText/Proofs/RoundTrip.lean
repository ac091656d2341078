import Mathlib.Logic.Relation
import SchemaText.Proofs.Tree.Serial

/-!
Trees survive being written and read again, and a reader takes just the values of their form.
-/
namespace SchemaText

variable {j j' : Json} {d : Document Span}

/-! ### Spans that fit -/

theorem Json.span?_eq_some {fields : List (String × Json)} {s : Span}
    (h : span? (object fields) = some s) : ∃ start stop : Int,
      fields = [("start", integer start), ("end", integer stop)] ∧
        s = ⟨start.toNat, stop.toNat⟩ := by
  unfold span? at h
  split at h
  · next start stop heq =>
    cases heq
    cases h
    exact ⟨start, stop, rfl, rfl⟩
  · cases h

theorem Json.mem_spansOfItems {items : List Json} {s : Span} :
    s ∈ spansOfItems items ↔ ∃ item ∈ items, s ∈ item.spans := by
  induction items with
  | nil => simp [spansOfItems]
  | cons item items ih => simp [spansOfItems, ih]

theorem Json.mem_spansOfFields {fields : List (String × Json)} {s : Span} :
    s ∈ spansOfFields fields ↔ ∃ field ∈ fields, s ∈ field.2.spans := by
  induction fields with
  | nil => simp
  | cons field fields ih => simp [ih]

theorem Json.Small.toNat_le {n : Int} (h : (Json.integer n).Small) : n.toNat ≤ maxOffset := by
  cases h with
  | integer hle => exact hle

theorem Json.Small.fits (h : j.Small) : ∀ s ∈ j.spans, s.Fits := by
  induction h with
  | null | string => simp
  | integer => simp [spans]
  | array _ ih =>
    intro s hs
    rw [spans, mem_spansOfItems] at hs
    obtain ⟨item, hitem, hs⟩ := hs
    exact ih item hitem s hs
  | @object fields hsmall ih =>
    intro s hs
    rw [spans] at hs
    cases hspan : span? (Json.object fields) with
    | none =>
      rw [hspan] at hs
      obtain ⟨field, hfield, hs⟩ := mem_spansOfFields.1 hs
      exact ih field hfield s hs
    | some t =>
      rw [hspan] at hs
      obtain rfl := List.mem_singleton.1 hs
      obtain ⟨start, stop, rfl, rfl⟩ := span?_eq_some hspan
      have hstart := hsmall ("start", .integer start) (by simp)
      have hstop := hsmall ("end", .integer stop) (by simp)
      exact ⟨hstart.toNat_le, hstop.toNat_le⟩

/-! ### Whole trees -/

namespace Document

theorem ofJson?_toJson (h : ∀ s ∈ d.tokens, s.Fits) : ofJson? d.toJson = some d := by
  rw [← spans_toJson] at h
  exact restores h

theorem fits_of_ofJson? (h : ofJson? j = some d) : ∀ s ∈ d.tokens, s.Fits := by
  have hnormal := renders j
  rw [h, Option.map_some] at hnormal
  obtain ⟨-, hsmall⟩ := Form.normal?_sound hnormal.symm
  rw [← spans_toJson]
  exact hsmall.fits

/-- Values with the same normal form are read as the same tree. -/
theorem ofJson?_eq_of_normal?_eq (h : form.normal? j = form.normal? j') :
    ofJson? j = ofJson? j' := by
  rw [← renders j, ← renders j'] at h
  cases hj : ofJson? j with
  | none =>
    rw [hj, Option.map_none, eq_comm, Option.map_eq_none_iff] at h
    rw [h]
  | some d =>
    rw [hj, Option.map_some, eq_comm, Option.map_eq_some_iff] at h
    obtain ⟨d', hj', hwritten⟩ := h
    -- What is written the same is read again as the same tree.
    have hd := ofJson?_toJson (fits_of_ofJson? hj)
    have hd' := ofJson?_toJson (fits_of_ofJson? hj')
    rw [hwritten, hd] at hd'
    rw [hj', hd']

theorem ofJson?_eq_of_rewrites (h : Relation.EqvGen form.Rewrites j j') :
    ofJson? j = ofJson? j' := by
  apply ofJson?_eq_of_normal?_eq
  induction h with
  | rel _ _ h => exact h.normal?_eq
  | refl => rfl
  | symm _ _ _ ih => exact ih.symm
  | trans _ _ _ _ _ ih ih' => exact ih.trans ih'

theorem isSome_ofJson?_iff : (ofJson? j).isSome ↔ form.Conforms j := by
  rw [← Form.isSome_normal?_iff, ← renders j, Option.isSome_map]

end Document

/-- A tree is read again from what it is written as, and so is every tree that is read from some
value. What a reader does not see changes nothing about the tree, and there is one to be read just
from the values of the form of a document. -/
theorem roundTrip :
    (∀ d : Document Span, (∀ s ∈ d.tokens, s.Fits) → Document.ofJson? d.toJson = some d) ∧
    (∀ j d, Document.ofJson? j = some d → Document.ofJson? d.toJson = some d) ∧
    (∀ j j', Relation.EqvGen Document.form.Rewrites j j' →
      Document.ofJson? j = Document.ofJson? j') ∧
    ∀ j, (Document.ofJson? j).isSome ↔ Document.form.Conforms j := by
  refine ⟨?_, ?_, ?_, ?_⟩
  · intro d hfits
    exact Document.ofJson?_toJson hfits
  · intro j d h
    exact Document.ofJson?_toJson (Document.fits_of_ofJson? h)
  · intro j j' h
    exact Document.ofJson?_eq_of_rewrites h
  · intro j
    exact Document.isSome_ofJson?_iff

/-- A span may end before it starts. In the other values the fields of the attribute stand in
another order, without the one that is null, and with one more in front of them. -/
theorem roundTrip_attribute :
    let symbol : Span := ⟨4, 0⟩
    let name : Span := ⟨maxOffset, 7⟩
    let d : Document Span := ⟨[⟨.inner, symbol, name, none⟩], []⟩
    let document (a : List (String × Json)) : Json :=
      .object [("attributes", .array [.object a]), ("statements", .array [])]
    let given : List (String × Json) := [("name", name.toJson), ("symbol", symbol.toJson),
      ("kind", .string "Sharp")]
    let noted : List (String × Json) := ("note", .bool true) :: given
    ((∀ s ∈ d.tokens, s.Fits) ∧ Document.ofJson? d.toJson = some d) ∧
      (Document.ofJson? (document given) = some d ∧ Document.ofJson? d.toJson = some d) ∧
      Document.ofJson? d.toJson = Document.ofJson? (document noted) ∧
      Document.form.Conforms (document given) := by
  intro symbol name d document given noted
  obtain ⟨hwritten, hread, hrewrites, hconforms⟩ := roundTrip
  have hfits : ∀ s ∈ d.tokens, s.Fits := by decide
  have hgiven : Document.ofJson? (document given) = some d := by decide +kernel
  have hinside : ∀ {a b : List (String × Json)}, Attribute.form.Rewrites (.object a) (.object b) →
      Document.form.Rewrites (document a) (document b) := by
    intro a b hab
    refine @Form.Rewrites.field _ [] _ _ _ _ _ _ rfl rfl fun field hmem hname => ?_
    rcases List.mem_pair.1 hmem with rfl | rfl
    · exact @Form.Rewrites.item _ [] [] _ _ hab
    · exact absurd hname (by decide)
  let ordered : List (String × Json) := [("kind", .string "Sharp"), ("symbol", symbol.toJson),
    ("name", name.toJson)]
  have habsent : Attribute.form.Rewrites (.object ordered)
      (.object (ordered ++ ("content", .null) :: [])) := by
    refine @Form.Rewrites.absent _ ordered [] _ (fun field hmem hname => ?_) (by decide)
    rcases List.mem_append.1 (show field ∈ [_, _, _] ++ [_] from hmem) with hmem | hmem
    · have hnone : ∀ field ∈ [Field.required "kind" AttributeKind.form,
          .required "symbol" Span.form, .required "name" Span.form], field.name ≠ "content" := by
        simp
      exact absurd hname (hnone field hmem)
    · exact ⟨_, List.mem_singleton.1 hmem⟩
  have horder : Attribute.form.Rewrites (.object given) (.object ordered) :=
    .order (List.reverse_perm given).symm (by decide)
  have hunknown : Attribute.form.Rewrites (.object given) (.object noted) :=
    @Form.Rewrites.unknown _ [] given _ _ (by decide)
  have hall : Relation.EqvGen Document.form.Rewrites d.toJson (document noted) :=
    ((Relation.EqvGen.rel _ _ (hinside habsent)).symm.trans _ _ _
      ((Relation.EqvGen.rel _ _ (hinside horder)).symm)).trans _ _ _ (.rel _ _ (hinside hunknown))
  exact ⟨⟨hfits, hwritten d hfits⟩, ⟨hgiven, hread _ d hgiven⟩, hrewrites _ _ hall,
    (hconforms _).1 (by rw [hgiven]; rfl)⟩

end SchemaText
