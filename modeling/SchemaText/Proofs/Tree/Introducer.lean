import SchemaText.Proofs.Grammar.Orderly
import SchemaText.Proofs.Tree.Holder

/-!
The tokens of a tree that introduce attributes are the symbols of the attributes that its nodes
hold.
-/
namespace SchemaText

open Grammar (word braceOpen braceClose parenOpen parenClose bracketOpen bracketClose dotSign
  keywordAs keywordThrows introducer)

variable {α : Type} {slots more : List (Slot Span)} {as bs : List (Attribute Span)}
  {pattern : Pattern}

def isIntroducer (pattern : Pattern) : Bool :=
  pattern == introducer .inner || pattern == introducer .outer

def Attribute.introducerSlot (a : Attribute Span) : Slot Span := (introducer a.kind, a.symbol)

/-- Of these slots, the attributes have those of introducers. -/
def Introduces (slots : List (Slot Span)) (as : List (Attribute Span)) : Prop :=
  slots.filter (fun slot => isIntroducer slot.1) = as.map Attribute.introducerSlot

namespace Introduces

theorem nil : Introduces [] [] := rfl

theorem append (h : Introduces slots as) (h' : Introduces more bs) :
    Introduces (slots ++ more) (as ++ bs) := by
  rw [Introduces, List.filter_append, h, h', List.map_append]

theorem plain (h : ∀ slot ∈ slots, isIntroducer slot.1 = false) : Introduces slots [] := by
  rw [Introduces, List.filter_eq_nil_iff.2 fun slot hs => by simp [h slot hs], List.map_nil]

theorem cons (h : isIntroducer pattern = false) (t : Span) (hs : Introduces slots as) :
    Introduces ((pattern, t) :: slots) as := by
  rw [Introduces, List.filter_cons_of_neg (by simp [h])]
  exact hs

theorem optional (h : isIntroducer pattern = false) (t : Option Span) :
    Introduces (optionalSlot pattern t) [] := by
  cases t with
  | none => exact nil
  | some t => exact cons h t nil

theorem flatMap {own : α → List (Slot Span)} {held : α → List (Attribute Span)}
    (h : ∀ x, Introduces (own x) (held x)) (xs : List α) :
    Introduces (xs.flatMap own) (xs.flatMap held) := by
  induction xs with
  | nil => exact nil
  | cons x xs ih =>
    rw [List.flatMap_cons, List.flatMap_cons]
    exact (h x).append ih

theorem flatMap_nil {own : α → List (Slot Span)} (h : ∀ x, Introduces (own x) []) (xs : List α) :
    Introduces (xs.flatMap own) [] := by
  have := flatMap h xs
  rwa [List.flatMap_eq_nil_iff.2 fun _ _ => rfl] at this

/-- Nodes between other tokens. -/
theorem around {first last : List (Slot Span)} (hfirst : Introduces first [])
    (h : Introduces slots as) (hlast : Introduces last []) :
    Introduces (first ++ slots ++ last) as := by
  have := (hfirst.append h).append hlast
  rwa [List.nil_append, List.append_nil] at this

end Introduces

open Introduces (nil cons optional flatMap flatMap_nil around)

/-! ### Parts of statements -/

theorem isIntroducer_keyword (kind : StatementKind) :
    isIntroducer (Grammar.keyword kind) = false := by
  cases kind <;> decide

theorem isIntroducer_word : isIntroducer word = false := by decide

theorem introduces_attribute (a : Attribute Span) : Introduces a.slots [a] := by
  have hsymbol : isIntroducer (introducer a.kind) = true := by
    cases a.kind <;> decide
  have hrest : Introduces ((word, a.name) :: optionalSlot (.token Grammar.content) a.content) [] :=
    cons isIntroducer_word a.name (optional (by decide) a.content)
  rw [Introduces, Attribute.slots, List.filter_cons, if_pos hsymbol, hrest]
  rfl

theorem introduces_attributes (as : List (Attribute Span)) : Introduces (attributeSlots as) as := by
  have := flatMap introduces_attribute as
  rwa [List.flatMap_singleton'] at this

theorem introduces_type (t : TypeExpression Span) : Introduces t.slots [] := by
  obtain ⟨valueType, _ | c⟩ := t
  · exact cons isIntroducer_word valueType nil
  · have hkey := (optional isIntroducer_word c.keyType).append
      (cons (by decide : isIntroducer bracketClose = false) c.closing nil)
    exact cons isIntroducer_word valueType (cons (by decide) c.opening hkey)

theorem introduces_path (p : Path Span) : Introduces p.slots [] := by
  apply Introduces.plain
  intro slot hs
  obtain ⟨item, -, rfl⟩ := List.mem_map.1 hs
  cases item with
  | identifier t => exact isIntroducer_word
  | dot t => exact (by decide : isIntroducer dotSign = false)

theorem introduces_importItem (i : ImportItem Span) : Introduces i.slots [] := by
  obtain ⟨name, localAlias, comma⟩ := i
  have hcomma : Introduces (optionalSlot Grammar.comma comma) [] := optional (by decide) comma
  cases localAlias with
  | none => exact cons isIntroducer_word name hcomma
  | some a =>
    exact cons isIntroducer_word name (cons (by decide) a.keyword
      (cons isIntroducer_word a.name hcomma))

theorem introduces_structField (f : StructField Span) : Introduces f.slots [] :=
  cons isIntroducer_word f.name ((optional (by decide) f.question).append
    (cons (by decide) f.colon (introduces_type f.type)))

/-! ### Nodes with attributes -/

variable {lead : α → Span} {inside : α → List Holder} {own : α → List (Slot Span)}

/-- The attributes in several nodes are those in each of them. -/
theorem flatMap_holders (f : α → List Holder) (xs : List α) :
    (xs.flatMap f).flatMap Holder.attributes =
      xs.flatMap fun x => (f x).flatMap Holder.attributes :=
  List.flatMap_assoc

theorem introduces_entry
    (h : ∀ a, Introduces (own a) ((inside a).flatMap Holder.attributes)) (e : Entry Span α) :
    Introduces (e.slots own) ((e.holders lead inside).flatMap Holder.attributes) := by
  have hcomma : Introduces (optionalSlot Grammar.comma e.comma) [] := optional (by decide) e.comma
  have := ((introduces_attributes e.attributes).append (h e.content)).append hcomma
  rwa [List.append_nil] at this

theorem introduces_variant (v : Variant Span) :
    Introduces v.slots (v.holders.flatMap Holder.attributes) := by
  obtain ⟨name, _ | body⟩ := v
  · exact cons isIntroducer_word name nil
  · have hfield : ∀ e : Entry Span (StructField Span), Introduces (e.slots StructField.slots)
        ((e.holders StructField.name fun _ => []).flatMap Holder.attributes) :=
      introduces_entry introduces_structField
    have hbody := (introduces_attributes body.attributes).append
      (around (cons (by decide : isIntroducer parenOpen = false) body.opening nil)
        (flatMap hfield body.fields)
        (cons (by decide : isIntroducer parenClose = false) body.closing nil))
    rw [← flatMap_holders] at hbody
    have := cons isIntroducer_word name hbody
    simpa [Variant.slots, VariantBody.slots, Variant.holders, VariantBody.holders] using this

theorem introduces_declaration (kind : StatementKind)
    (h : ∀ a, Introduces (own a) ((inside a).flatMap Holder.attributes))
    (d : Declaration Span α) : Introduces (d.slots kind own)
      ((d.holders (Entry.holders lead inside)).flatMap Holder.attributes) := by
  have hentry : ∀ e : Entry Span α, Introduces (e.slots own)
      ((e.holders lead inside).flatMap Holder.attributes) := introduces_entry h
  have hfirst := cons (isIntroducer_keyword kind) d.keyword (cons isIntroducer_word d.name
    (cons (by decide : isIntroducer braceOpen = false) d.opening nil))
  have := (introduces_attributes d.attributes).append (around hfirst (flatMap hentry d.entries)
    (cons (by decide : isIntroducer braceClose = false) d.closing nil))
  rw [← flatMap_holders] at this
  simpa [Declaration.slots, Declaration.holders] using this

theorem introduces_import (i : Import Span) : Introduces i.ownSlots [] := by
  have hfirst := cons (isIntroducer_keyword .imports) i.keyword (introduces_path i.path)
  have hitems := around (cons (by decide : isIntroducer braceOpen = false) i.opening nil)
    (flatMap_nil introduces_importItem i.items)
    (cons (by decide : isIntroducer braceClose = false) i.closing nil)
  simpa [Import.ownSlots] using hfirst.append hitems

theorem introduces_custom (c : Custom Span) : Introduces c.ownSlots [] :=
  cons (isIntroducer_keyword .custom) c.keyword (cons isIntroducer_word c.name
    (cons (by decide) c.equals (introduces_type c.type)))

theorem introduces_proc (p : Proc Span) : Introduces p.ownSlots [] := by
  have hthrows : Introduces (p.throws.elim [] Throws.slots) [] := by
    cases p.throws with
    | none => exact nil
    | some t => exact cons (by decide) t.keyword (introduces_type t.type)
  have houtput := cons (by decide : isIntroducer Grammar.arrow = false) p.arrow
    (introduces_type p.output)
  have hfirst := cons (isIntroducer_keyword .proc) p.keyword (cons isIntroducer_word p.name
    (cons (by decide : isIntroducer Grammar.equals = false) p.equals (introduces_type p.input)))
  exact around hfirst houtput hthrows

theorem introduces_statement (st : Statement Span) :
    Introduces st.slots (st.holders.flatMap Holder.attributes) := by
  have hbare : ∀ {as : List (Attribute Span)} {own : List (Slot Span)}, Introduces own [] →
      Introduces (attributeSlots as ++ own) (as ++ []) := fun h =>
    (introduces_attributes _).append h
  cases st with
  | imports node => exact hbare (introduces_import node)
  | custom node => exact hbare (introduces_custom node)
  | proc node => exact hbare (introduces_proc node)
  | enum node =>
    exact introduces_declaration .enum (fun name => cons isIntroducer_word name nil) node
  | oneof node => exact introduces_declaration .oneof introduces_type node
  | struct node => exact introduces_declaration .struct introduces_structField node
  | union node => exact introduces_declaration .union introduces_variant node

/-- No attribute of a document is held by no node or by two of them. -/
theorem introduces_document (d : Document Span) : Introduces d.slots d.allAttributes := by
  have hstatements := flatMap introduces_statement d.statements
  rw [Document.allAttributes, Document.holders, List.flatMap_cons, flatMap_holders]
  exact (introduces_attributes d.attributes).append hstatements

end SchemaText
