import SchemaText.Tree.Splice

/-!
Trees without the attributes of their statements and entries. A tree is its bare tree together with
the attributes of its nodes, and attributes put in front of those of a node touch no others.
-/
namespace SchemaText

variable {τ α β : Type} {leading : List (Attribute τ)} {i j : Nat}

theorem map_modify_of_forall {f : α → β} {g : α → α} (h : ∀ a, f (g a) = f a) (i : Nat)
    (l : List α) : (l.modify i g).map f = l.map f := by
  apply List.ext_getElem?
  intro j
  rw [List.getElem?_map, List.getElem?_map, List.getElem?_modify, Option.map_eq_map,
    Option.map_map]
  congr 1
  funext a
  by_cases hij : i = j
  · simp [hij, h]
  · simp [hij]

/-- Lists with the same images are the same if that holds of their elements. -/
theorem eq_of_map_eq {f : α → β} {l m : List α} (h : l.map f = m.map f)
    (helem : ∀ {i : Nat} {a b : α}, l[i]? = some a → m[i]? = some b → f a = f b → a = b) :
    l = m := by
  apply List.ext_getElem?
  intro i
  have hi := congrArg (·[i]?) h
  simp only [List.getElem?_map] at hi
  cases hl : l[i]? with
  | none =>
    rw [hl, Option.map_none, eq_comm, Option.map_eq_none_iff] at hi
    exact hi.symm
  | some a =>
    rw [hl, Option.map_some, eq_comm, Option.map_eq_some_iff] at hi
    obtain ⟨b, hb, hab⟩ := hi
    rw [hb, helem hl hb hab.symm]

/-! ### Entries -/

def Entry.bare (e : Entry τ α) : Entry τ α := { e with attributes := [] }

theorem Entry.bare_prepend (e : Entry τ α) : (prepend leading e).bare = e.bare := rfl

theorem Entry.attributes_prepend (e : Entry τ α) :
    (prepend leading e).attributes = leading ++ e.attributes := rfl

theorem Entry.eq_of_bare_eq {e f : Entry τ α} (h : e.bare = f.bare)
    (ha : e.attributes = f.attributes) : e = f := by
  obtain ⟨as, content, comma⟩ := e
  obtain ⟨bs, content', comma'⟩ := f
  simp only [bare, mk.injEq, true_and] at h ha ⊢
  exact ⟨ha, h⟩

/-! ### Declarations -/

namespace Declaration

variable {node other : Declaration τ α}

def bare (node : Declaration τ α) : Declaration τ α :=
  { node with attributes := [], entries := node.entries.map Entry.bare }

def entryAttributes? (node : Declaration τ α) (i : Nat) : Option (List (Attribute τ)) :=
  node.entries[i]?.map (·.attributes)

def prependEntry (leading : List (Attribute τ)) (i : Nat) (node : Declaration τ α) :
    Declaration τ α :=
  { node with entries := node.entries.modify i (prepend leading) }

theorem bare_prependEntry : (node.prependEntry leading i).bare = node.bare := by
  simp only [bare, prependEntry, map_modify_of_forall Entry.bare_prepend]

theorem entryAttributes?_prependEntry : (node.prependEntry leading i).entryAttributes? j =
    (node.entryAttributes? j).map fun as => if i = j then leading ++ as else as := by
  simp only [entryAttributes?, prependEntry, List.getElem?_modify, Option.map_eq_map,
    Option.map_map]
  congr 1
  funext e
  by_cases hij : i = j
  · simp [hij, Entry.attributes_prepend]
  · simp [hij]

theorem eq_of_bare_eq (h : node.bare = other.bare) (ha : node.attributes = other.attributes)
    (he : ∀ i, node.entryAttributes? i = other.entryAttributes? i) : node = other := by
  have hentries : node.entries = other.entries := by
    apply eq_of_map_eq (congrArg entries h)
    intro i e f hi hj hbare
    have hattributes := he i
    simp only [entryAttributes?, hi, hj, Option.map_some, Option.some.injEq] at hattributes
    exact Entry.eq_of_bare_eq hbare hattributes
  obtain ⟨as, keyword, name, opening, entries, closing⟩ := node
  obtain ⟨bs, keyword', name', opening', entries', closing'⟩ := other
  simp only [bare, mk.injEq, true_and] at h ha hentries ⊢
  exact ⟨ha, h.1, h.2.1, h.2.2.1, hentries, h.2.2.2.2⟩

end Declaration

/-! ### Statements -/

namespace Statement

variable {s t : Statement τ}

def bare : Statement τ → Statement τ
  | imports node => imports { node with attributes := [] }
  | custom node => custom { node with attributes := [] }
  | enum node => enum node.bare
  | oneof node => oneof node.bare
  | proc node => proc { node with attributes := [] }
  | struct node => struct node.bare
  | union node => union node.bare

@[simp] theorem attributes_prepend (leading : List (Attribute τ)) (s : Statement τ) :
    HasAttributes.attributes (prepend leading s) = leading ++ HasAttributes.attributes s := by
  cases s <;> rfl

theorem bare_prepend : (prepend leading s).bare = s.bare := by
  cases s <;> rfl

theorem entryAttributes?_prepend : (prepend leading s).entryAttributes? i =
    s.entryAttributes? i := by
  cases s <;> rfl

theorem bare_prependEntry : (s.prependEntry leading i).bare = s.bare := by
  cases s with
  | imports | custom | proc => rfl
  | enum node => exact congrArg enum node.bare_prependEntry
  | oneof node => exact congrArg oneof node.bare_prependEntry
  | struct node => exact congrArg struct node.bare_prependEntry
  | union node => exact congrArg union node.bare_prependEntry

theorem attributes_prependEntry : HasAttributes.attributes (s.prependEntry leading i) =
    HasAttributes.attributes s := by
  cases s <;> rfl

theorem entryAttributes?_prependEntry : (s.prependEntry leading i).entryAttributes? j =
    (s.entryAttributes? j).map fun as => if i = j then leading ++ as else as := by
  cases s with
  | imports | custom | proc => rfl
  | enum | oneof | struct | union => exact Declaration.entryAttributes?_prependEntry

theorem eq_of_setAttributes_eq
    (h : HasAttributes.setAttributes [] s = HasAttributes.setAttributes [] t)
    (ha : HasAttributes.attributes s = HasAttributes.attributes t) : s = t := by
  have hrestore : ∀ s : Statement τ, HasAttributes.setAttributes (HasAttributes.attributes s)
      (HasAttributes.setAttributes [] s) = s := by
    intro s
    cases s <;> rfl
  rw [← hrestore s, h, ha, hrestore t]

theorem eq_of_bare_eq (h : s.bare = t.bare)
    (ha : HasAttributes.attributes s = HasAttributes.attributes t)
    (he : ∀ i, s.entryAttributes? i = t.entryAttributes? i) : s = t := by
  cases s <;> cases t <;> simp only [bare, reduceCtorEq] at h
  case imports.imports => exact eq_of_setAttributes_eq h ha
  case custom.custom => exact eq_of_setAttributes_eq h ha
  case proc.proc => exact eq_of_setAttributes_eq h ha
  case enum.enum => exact congrArg enum (Declaration.eq_of_bare_eq (enum.inj h) ha he)
  case oneof.oneof => exact congrArg oneof (Declaration.eq_of_bare_eq (oneof.inj h) ha he)
  case struct.struct => exact congrArg struct (Declaration.eq_of_bare_eq (struct.inj h) ha he)
  case union.union => exact congrArg union (Declaration.eq_of_bare_eq (union.inj h) ha he)

end Statement

/-! ### Documents -/

namespace Document

variable {d e : Document τ} {index other : NodeIndex}

/-- All of a document but the attributes of its statements and of their entries. -/
def bare (d : Document τ) : Document τ := { d with statements := d.statements.map Statement.bare }

theorem bare_prependAt : (d.prependAt leading index).bare = d.bare := by
  obtain ⟨i, entry⟩ := index
  rw [bare, prependAt, map_modify_of_forall, bare]
  intro s
  cases entry with
  | none => exact Statement.bare_prepend
  | some j => exact Statement.bare_prependEntry

theorem attributesAt?_prependAt : (d.prependAt leading index).attributesAt? other =
    (d.attributesAt? other).map fun as => if index = other then leading ++ as else as := by
  obtain ⟨i, entry⟩ := index
  obtain ⟨j, entry'⟩ := other
  simp only [attributesAt?, prependAt, List.getElem?_modify]
  cases d.statements[j]? with
  | none => rfl
  | some s =>
    by_cases hij : i = j
    · subst hij
      cases entry with
      | none =>
        cases entry' with
        | none => simp
        | some => simp [Statement.entryAttributes?_prepend]
      | some =>
        cases entry' with
        | none => simp [Statement.attributes_prependEntry]
        | some => simp [Statement.entryAttributes?_prependEntry]
    · simp [hij]

/-- A document is its bare document with the attributes of its nodes. -/
theorem eq_of_bare_eq (h : d.bare = e.bare)
    (ha : ∀ index, d.attributesAt? index = e.attributesAt? index) : d = e := by
  have hstatements : d.statements = e.statements := by
    apply eq_of_map_eq (congrArg statements h)
    intro i s t hs ht hbare
    have hnode := ha ⟨i, none⟩
    simp only [attributesAt?, hs, ht] at hnode
    apply Statement.eq_of_bare_eq hbare (Option.some.inj hnode)
    intro j
    simpa [attributesAt?, hs, ht] using ha ⟨i, some j⟩
  obtain ⟨as, ss⟩ := d
  obtain ⟨bs, ts⟩ := e
  simp only [bare, mk.injEq] at h hstatements ⊢
  exact ⟨h.1, hstatements⟩

/-- An index without a node leaves the document as it is. -/
theorem prependAt_eq_self (h : d.attributesAt? index = none) : d.prependAt leading index = d := by
  apply eq_of_bare_eq bare_prependAt
  intro other
  rw [attributesAt?_prependAt]
  by_cases hindex : index = other
  · rw [← hindex, h, Option.map_none]
  · simp [hindex]

end Document

end SchemaText
