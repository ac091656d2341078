import Mathlib.Data.List.Basic
import SchemaText.Proofs.Tree.Slots
import SchemaText.Tree.Lookup

/-!
The nodes that a walk enters. The type expressions among them are those that are searched for what
stands at an offset.
-/
namespace SchemaText

variable {τ α : Type}

namespace WalkEvent

/-- The event announces a node of this kind. -/
def enters (kind : NodeKind) : WalkEvent τ → Bool
  | enter k => k == kind
  | token _ | leave _ => false

variable {kind : NodeKind}

@[simp] theorem enters_enter (k : NodeKind) :
    (enter k : WalkEvent τ).enters kind = (k == kind) := rfl

@[simp] theorem enters_token (t : τ) : (token t).enters kind = false := rfl

@[simp] theorem enters_leave (k : NodeKind) : (leave k : WalkEvent τ).enters kind = false := rfl

end WalkEvent

namespace Outline

mutual

/-- The nodes of a kind, in the order in which a walk enters them. -/
def nodes (kind : NodeKind) : Outline τ → List (Outline τ)
  | token _ => []
  | node k parts => (if k = kind then [node k parts] else []) ++ nodesOf kind parts

def nodesOf (kind : NodeKind) : List (Outline τ) → List (Outline τ)
  | [] => []
  | part :: parts => part.nodes kind ++ nodesOf kind parts

end

variable {kind k : NodeKind} {n : Outline τ} {parts : List (Outline τ)} {t : τ}

@[simp] theorem nodes_token (t : τ) : (token t).nodes kind = [] := by rw [nodes]

theorem nodes_of_ne (h : k ≠ kind) : (node k parts).nodes kind = nodesOf kind parts := by
  rw [nodes, if_neg h, List.nil_append]

@[simp] theorem nodesOf_nil : nodesOf kind ([] : List (Outline τ)) = [] := by rw [nodesOf]

@[simp] theorem nodesOf_cons (part : Outline τ) (parts : List (Outline τ)) :
    nodesOf kind (part :: parts) = part.nodes kind ++ nodesOf kind parts := by rw [nodesOf]

@[simp] theorem nodesOf_append (as bs : List (Outline τ)) :
    nodesOf kind (as ++ bs) = nodesOf kind as ++ nodesOf kind bs := by
  induction as with
  | nil => simp
  | cons a as ih => simp [ih]

@[simp] theorem nodesOf_ofOption (t : Option τ) : nodesOf kind (ofOption t) = [] := by
  cases t <;> simp [ofOption]

theorem nodesOf_map {f : α → Outline τ} {g : α → List (Outline τ)}
    (h : ∀ a, (f a).nodes kind = g a) (as : List α) : nodesOf kind (as.map f) = as.flatMap g := by
  induction as with
  | nil => simp
  | cons a as ih => simp [ih, h]

theorem nodesOf_flatMap {f : α → List (Outline τ)} {g : α → List (Outline τ)}
    (h : ∀ a, nodesOf kind (f a) = g a) (as : List α) :
    nodesOf kind (as.flatMap f) = as.flatMap g := by
  induction as with
  | nil => simp
  | cons a as ih => simp [ih, h]

/-! ### Nodes in a walk -/

mutual

/-- A walk announces each of the nodes once. -/
theorem countP_walk : ∀ o : Outline τ,
    (o.walk []).countP (·.enters kind) = (o.nodes kind).length
  | token t => by simp [walk]
  | node k parts => by
    have hparts := countP_walkAll parts
    by_cases hk : k = kind
    · simp [walk, nodes, hparts, hk, Nat.add_comm]
    · simp [walk, nodes_of_ne hk, hparts, hk]

theorem countP_walkAll : ∀ parts : List (Outline τ),
    (walkAll [] parts).countP (·.enters kind) = (nodesOf kind parts).length
  | [] => by simp [walkAll]
  | part :: parts => by
    rw [walkAll, List.countP_append, countP_walk part, countP_walkAll parts, nodesOf_cons,
      List.length_append]

end

mutual

/-- The walk through a node is a part of the walk through the whole. -/
theorem walk_isInfix : ∀ o : Outline τ, n ∈ o.nodes kind → n.walk [] <:+: o.walk []
  | token t, hn => by simp at hn
  | node k parts, hn => by
    rw [nodes, List.mem_append] at hn
    rcases hn with hn | hn
    · by_cases hk : k = kind
      · rw [if_pos hk, List.mem_singleton] at hn
        exact hn ▸ List.infix_refl _
      · simp [hk] at hn
    · obtain ⟨before, after, h⟩ := walkAll_isInfix parts hn
      refine ⟨.enter k :: before, after ++ [.leave k], ?_⟩
      simp [walk, ← h]

theorem walkAll_isInfix : ∀ parts : List (Outline τ),
    n ∈ nodesOf kind parts → n.walk [] <:+: walkAll [] parts
  | [], hn => by simp at hn
  | part :: parts, hn => by
    rw [nodesOf_cons, List.mem_append] at hn
    rw [walkAll]
    rcases hn with hn | hn
    · exact (walk_isInfix part hn).trans (List.prefix_append ..).isInfix
    · exact (walkAll_isInfix parts hn).trans (List.suffix_append ..).isInfix

end

mutual

theorem mem_walk_token : ∀ o : Outline τ, .token t ∈ o.walk [] ↔ t ∈ o.tokens
  | token _ => by simp [walk]
  | node _ parts => by simp [walk, mem_walkAll_token parts]

theorem mem_walkAll_token : ∀ parts : List (Outline τ),
    .token t ∈ walkAll [] parts ↔ t ∈ tokensOf parts
  | [] => by simp [walkAll]
  | part :: parts => by
    rw [walkAll, List.mem_append, mem_walk_token part, mem_walkAll_token parts, tokensOf_cons,
      List.mem_append]

end

theorem tokens_subset {o : Outline τ} (hn : n ∈ o.nodes kind) : n.tokens ⊆ o.tokens := by
  intro t ht
  have hwalk := (walk_isInfix o hn).subset ((mem_walk_token n).2 ht)
  exact (mem_walk_token o).1 hwalk

end Outline

/-! ### Type expressions -/

open Outline

/-- The type expressions that a walk enters below parts of a tree. -/
abbrev typesOf (parts : List (Outline τ)) : List (Outline τ) := nodesOf .typeExpression parts

@[simp] theorem nodes_attribute (a : Attribute τ) : a.outline.nodes .typeExpression = [] := by
  rw [Attribute.outline, nodes_of_ne (by decide)]
  simp

@[simp] theorem typesOf_outlines (as : List (Attribute τ)) : typesOf (outlines as) = [] := by
  rw [typesOf, outlines, nodesOf_map nodes_attribute]
  simp

@[simp] theorem nodes_type (t : TypeExpression τ) :
    t.outline.nodes .typeExpression = [t.outline] := by
  obtain ⟨valueType, _ | container⟩ := t <;> simp [TypeExpression.outline, nodes]

@[simp] theorem nodes_path (p : Path τ) : p.outline.nodes .typeExpression = [] := by
  have h : ∀ item : PathItem τ, (token item.token).nodes .typeExpression = [] := fun _ =>
    nodes_token _
  rw [Path.outline, nodes_of_ne (by decide), nodesOf_map h]
  simp

theorem typesOf_importItem (i : ImportItem τ) : typesOf i.outlines = [] := by
  obtain ⟨name, _ | localAlias, comma⟩ := i <;> simp [ImportItem.outlines]

section Entries

variable {types : α → List (TypeExpression τ)}

theorem typesOf_entry {content : α → List (Outline τ)}
    (h : ∀ a, typesOf (content a) = (types a).map TypeExpression.outline) (e : Entry τ α) :
    typesOf (e.outlines content) = (types e.content).map TypeExpression.outline := by
  simp [Entry.outlines, h]

theorem typesOf_declaration {entry : Entry τ α → List (Outline τ)}
    (h : ∀ e : Entry τ α, typesOf (entry e) = (types e.content).map TypeExpression.outline)
    (d : Declaration τ α) : typesOf (d.outlines entry) =
      (d.entries.flatMap fun e => types e.content).map TypeExpression.outline := by
  simp [Declaration.outlines, nodesOf_flatMap h, List.map_flatMap]

end Entries

/-- A field has one type. -/
theorem nodes_field (e : Entry τ (StructField τ)) :
    (fieldOutline e).nodes .typeExpression = [e.content.type.outline] := by
  have hfield : ∀ f : StructField τ, typesOf f.outlines = [f.type].map TypeExpression.outline := by
    intro f
    simp [StructField.outlines]
  rw [fieldOutline, nodes_of_ne (by decide)]
  exact typesOf_entry hfield e

/-- The types of the fields of a variant. -/
def Variant.types (v : Variant τ) : List (TypeExpression τ) :=
  v.body.toList.flatMap fun body => body.fields.map (·.content.type)

theorem typesOf_variant (v : Variant τ) :
    typesOf v.outlines = v.types.map TypeExpression.outline := by
  obtain ⟨name, _ | body⟩ := v
  · simp [Variant.outlines, Variant.types]
  · have hfields : typesOf (body.fields.map fieldOutline) =
        (body.fields.map (·.content.type)).map TypeExpression.outline := by
      rw [typesOf, nodesOf_map nodes_field, ← List.map_eq_flatMap, List.map_map]
      rfl
    simpa [Variant.outlines, VariantBody.outlines, Variant.types] using hfields

theorem typesOf_statement (st : Statement τ) :
    typesOf st.outlines = st.types.map TypeExpression.outline := by
  cases st with
  | imports node =>
    simp [Statement.outlines, Statement.types, Import.outlines, nodesOf_flatMap typesOf_importItem]
  | custom node => simp [Statement.outlines, Statement.types, Custom.outlines]
  | enum node =>
    have hname : ∀ name : τ, typesOf [token name] = [].map TypeExpression.outline := by simp
    have h := typesOf_declaration (typesOf_entry hname) node
    rwa [List.flatMap_eq_nil_iff.2 fun _ _ => rfl] at h
  | oneof node =>
    have htype : ∀ t : TypeExpression τ, typesOf [t.outline] = [t].map TypeExpression.outline := by
      simp
    have h := typesOf_declaration (typesOf_entry htype) node
    rwa [← List.map_eq_flatMap] at h
  | proc node =>
    obtain ⟨_, _, _, _, _, _, _, _ | throws⟩ := node <;>
      simp [Statement.outlines, Statement.types, Proc.outlines]
  | struct node =>
    let types (f : StructField τ) : List (TypeExpression τ) := [f.type]
    have hfield : ∀ e : Entry τ (StructField τ),
        typesOf [fieldOutline e] = (types e.content).map TypeExpression.outline := by
      simp [nodes_field, types]
    have h := typesOf_declaration hfield node
    rwa [← List.map_eq_flatMap] at h
  | union node =>
    have h := typesOf_declaration (typesOf_entry typesOf_variant) node
    rw [Statement.outlines, h, Statement.types, List.filterMap_eq_flatMap_toList,
      List.flatMap_assoc]
    rfl

/-- A walk enters the types of a statement and no others. -/
theorem nodes_statement (st : Statement τ) :
    st.outline.nodes .typeExpression = st.types.map TypeExpression.outline := by
  rw [Statement.outline, nodes_of_ne (by decide), nodesOf_cons, nodes_of_ne (by simp), nodesOf_nil,
    List.append_nil]
  exact typesOf_statement st

theorem nodes_document (d : Document τ) : d.outline.nodes .typeExpression =
    (d.statements.flatMap Statement.types).map TypeExpression.outline := by
  have hattributes := typesOf_outlines d.attributes
  have hstatements := nodesOf_map nodes_statement d.statements
  rw [Document.outline, nodes_of_ne (by decide), nodesOf_append, hstatements, List.map_flatMap]
  rw [typesOf] at hattributes
  rw [hattributes, List.nil_append]

theorem TypeExpression.outline_injective :
    Function.Injective (TypeExpression.outline : TypeExpression τ → Outline τ) := by
  rintro ⟨value, container⟩ ⟨value', container'⟩ h
  simp only [TypeExpression.outline, Outline.node.injEq, List.cons.injEq, Outline.token.injEq,
    true_and] at h
  obtain ⟨rfl, h⟩ := h
  cases container with
  | none =>
    cases container' with
    | none => rfl
    | some c' => simp at h
  | some c =>
    cases container' with
    | none => simp at h
    | some c' =>
      obtain ⟨opening, key, closing⟩ := c
      obtain ⟨opening', key', closing'⟩ := c'
      cases key <;> cases key' <;> simp_all [ofOption]

end SchemaText
