import SchemaText.Proofs.Grammar.Token
import SchemaText.Proofs.Tree.Written

/-!
The slots of a source hold nothing but tokens, and attribute content never stands next to other
content.
-/
namespace SchemaText

open Grammar (word braceOpen braceClose parenOpen parenClose bracketOpen bracketClose dotSign
  keywordAs keywordThrows introducer Lexical)

variable {τ α : Type} {as bs slots : List (Slot τ)} {pattern : Pattern}

/-- A token other than content. -/
def Plain (pattern : Pattern) : Prop := Lexical pattern ∧ pattern ≠ .token Grammar.content

instance : DecidablePred Plain := fun pattern =>
  inferInstanceAs (Decidable (Lexical pattern ∧ pattern ≠ .token Grammar.content))

/-- Tokens, some of which other than content have content right behind them. -/
inductive Orderly : List (Slot τ) → Prop where
  | nil : Orderly []
  | plain {pattern : Pattern} {t : τ} {more : List (Slot τ)} :
      Plain pattern → Orderly more → Orderly ((pattern, t) :: more)
  | content {pattern : Pattern} {t text : τ} {more : List (Slot τ)} :
      Plain pattern → Orderly more →
      Orderly ((pattern, t) :: (.token Grammar.content, text) :: more)

namespace Orderly

theorem append (ha : Orderly as) (hb : Orderly bs) : Orderly (as ++ bs) := by
  induction ha with
  | nil => exact hb
  | plain hp _ ih => exact .plain hp ih
  | content hp _ ih => exact .content hp ih

theorem single (hp : Plain pattern) (t : τ) : Orderly [(pattern, t)] := .plain hp .nil

theorem optional (hp : Plain pattern) (t : Option τ) : Orderly (optionalSlot pattern t) := by
  cases t with
  | none => exact .nil
  | some t => exact .single hp t

theorem flatMap {own : α → List (Slot τ)} (h : ∀ a, Orderly (own a)) (nodes : List α) :
    Orderly (nodes.flatMap own) := by
  induction nodes with
  | nil => exact .nil
  | cons node nodes ih => exact (h node).append ih

theorem lexical (h : Orderly slots) : ∀ slot ∈ slots, Lexical slot.1 := by
  induction h with
  | nil => simp
  | plain hp _ ih => exact List.forall_mem_cons.2 ⟨hp.1, ih⟩
  | content hp _ ih =>
    exact List.forall_mem_cons.2 ⟨hp.1, List.forall_mem_cons.2 ⟨.inr rfl, ih⟩⟩

/-- Only the patterns matter. -/
theorem congr {σ : Type} {slots' : List (Slot σ)} (h : Orderly slots)
    (he : slots'.map Prod.fst = slots.map Prod.fst) : Orderly slots' := by
  induction h generalizing slots' with
  | nil =>
    obtain rfl := List.map_eq_nil_iff.1 he
    exact .nil
  | plain hp _ ih =>
    obtain ⟨⟨_, t⟩, rest, rfl, rfl, hrest⟩ := List.map_eq_cons_iff.1 he
    exact .plain hp (ih hrest)
  | content hp _ ih =>
    obtain ⟨⟨_, t⟩, rest, rfl, rfl, hrest⟩ := List.map_eq_cons_iff.1 he
    obtain ⟨⟨_, text⟩, more, rfl, rfl, hmore⟩ := List.map_eq_cons_iff.1 hrest
    exact .content hp (ih hmore)

end Orderly

/-! ### Parts of statements -/

theorem plain_introducer (kind : AttributeKind) : Plain (introducer kind) := by
  cases kind <;> decide

theorem plain_keyword (kind : StatementKind) : Plain (Grammar.keyword kind) := by
  cases kind <;> decide

theorem plain_word : Plain word := by decide

theorem Attribute.orderly (a : Attribute τ) : Orderly a.slots := by
  obtain ⟨kind, symbol, name, _ | content⟩ := a
  · exact .plain (plain_introducer kind) (.plain plain_word .nil)
  · exact .plain (plain_introducer kind) (.content plain_word .nil)

theorem TypeExpression.orderly (t : TypeExpression τ) : Orderly t.slots := by
  obtain ⟨valueType, _ | ⟨opening, keyType, closing⟩⟩ := t
  · exact .single plain_word valueType
  · refine .plain plain_word (.plain (by decide) ?_)
    exact (Orderly.optional plain_word keyType).append (.single (by decide) closing)

theorem Path.orderly (p : Path τ) : Orderly p.slots := by
  obtain ⟨items⟩ := p
  induction items with
  | nil => exact .nil
  | cons item items ih =>
    cases item with
    | identifier t => exact .plain plain_word ih
    | dot t => exact .plain (by decide) ih

theorem ImportItem.orderly (i : ImportItem τ) : Orderly i.slots := by
  obtain ⟨name, localAlias, comma⟩ := i
  have hcomma := Orderly.optional (show Plain Grammar.comma by decide) comma
  cases localAlias with
  | none => exact .plain plain_word hcomma
  | some localAlias => exact .plain plain_word (.plain (by decide) (.plain plain_word hcomma))

theorem StructField.orderly (f : StructField τ) : Orderly f.slots :=
  .plain plain_word ((Orderly.optional (by decide) f.question).append
    (.plain (by decide) f.type.orderly))

/-! ### Blocks -/

theorem Chunk.orderly {c : Chunk τ α} (h : Orderly c.slots) : Orderly c.written :=
  (Orderly.flatMap Attribute.orderly c.run).append h

theorem BlockWritten.orderly [HasAttributes α τ] {form : α → List (Slot τ) → Prop}
    {attributes : List (Attribute τ)} {nodes : List α}
    (h : BlockWritten form attributes nodes slots)
    (hf : ∀ node slots, form node slots → Orderly slots) : Orderly slots := by
  obtain ⟨chunks, last, hc, -, -, -, rfl⟩ := h
  refine .append ?_ (.flatMap Attribute.orderly last)
  induction chunks with
  | nil => exact .nil
  | cons c chunks ih =>
    obtain ⟨hnode, hc⟩ := List.forall_mem_cons.1 hc
    exact (Chunk.orderly (hf _ _ hnode)).append (ih hc)

theorem Entry.Written.orderly {content : α → List (Slot τ) → Prop}
    (hc : ∀ a slots, content a slots → Orderly slots) {e : Entry τ α}
    (h : e.Written content slots) :
    Orderly slots := by
  obtain ⟨-, inner, hi, rfl⟩ := h
  exact (hc _ _ hi).append (.optional (by decide) e.comma)

theorem Variant.Written.orderly {v : Variant τ} (h : v.Written slots) : Orderly slots := by
  obtain ⟨name, body⟩ := v
  obtain ⟨inner, rfl, h⟩ := h
  refine .plain plain_word ?_
  cases body with
  | none =>
    subst h
    exact .nil
  | some body =>
    obtain ⟨inner, hb, rfl⟩ := h
    have hfields := hb.orderly fun _ _ => Entry.Written.orderly fun f _ hf => hf ▸ f.orderly
    exact (Orderly.plain (by decide) hfields).append (.single (by decide) body.closing)

theorem Declaration.Written.orderly {kind : StatementKind} {content : α → List (Slot τ) → Prop}
    (hc : ∀ a slots, content a slots → Orderly slots) {d : Declaration τ α}
    (h : d.Written kind content slots) : Orderly slots := by
  obtain ⟨inner, hb, rfl⟩ := h
  have hentries := hb.orderly fun _ _ => Entry.Written.orderly hc
  exact (Orderly.plain (plain_keyword kind)
    (.plain plain_word (.plain (by decide) hentries))).append
    (.single (by decide) d.closing)

/-! ### Statements -/

theorem Statement.Written.orderly {st : Statement τ} (h : st.Written slots) : Orderly slots := by
  cases st with
  | imports node =>
    obtain ⟨-, -, rfl⟩ := h
    exact ((Orderly.plain (plain_keyword .imports) node.path.orderly).append (.plain (by decide)
      (.flatMap ImportItem.orderly node.items))).append (.single (by decide) node.closing)
  | custom node =>
    obtain ⟨-, rfl⟩ := h
    exact .plain (plain_keyword .custom) (.plain plain_word (.plain (by decide) node.type.orderly))
  | proc node =>
    obtain ⟨-, rfl⟩ := h
    refine ((Orderly.plain (plain_keyword .proc) (.plain plain_word (.plain (by decide)
      node.input.orderly))).append (.plain (by decide) node.output.orderly)).append ?_
    cases node.throws with
    | none => exact .nil
    | some throws => exact .plain (by decide) throws.type.orderly
  | enum node =>
    refine Declaration.Written.orderly ?_ h
    rintro name _ rfl
    exact .single plain_word name
  | oneof node =>
    refine Declaration.Written.orderly ?_ h
    rintro t _ rfl
    exact t.orderly
  | struct node =>
    refine Declaration.Written.orderly ?_ h
    rintro f _ rfl
    exact f.orderly
  | union node => exact Declaration.Written.orderly (fun _ _ hv => hv.orderly) h

theorem Document.Written.orderly {d : Document τ} (h : d.Written slots) : Orderly slots :=
  BlockWritten.orderly h fun _ _ hst => hst.orderly

end SchemaText
