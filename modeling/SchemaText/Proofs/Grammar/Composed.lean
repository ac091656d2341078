import SchemaText.Grammar.Statement
import SchemaText.Proofs.Grammar.Steady

/-!
The productions of the grammar are put together from matches of steady patterns.
-/
namespace SchemaText

open Grammar Parse

variable {α β : Type} {k : Nat} {item : Parse (Option α)} {t : String}

/-! ### Trivia and single tokens -/

theorem composed_trivia : Composed 1 trivia := by
  apply Composed.loop
  intro _
  refine (Composed.accept steady_whitespace).bind fun blank => ?_
  cases blank with
  | some _ => exact .pure
  | none =>
    refine (Composed.accept steady_comment).next fun line => ?_
    cases line with
    | some _ => exact .pure
    | none => exact .pure

theorem composed_afterTrivia {p : Parse α} (h : Composed k p) : Composed 1 (afterTrivia p) :=
  composed_trivia.bind fun _ => h.any

theorem composed_word : Composed 1 (accept word) := .accept steady_word

theorem composed_name : Composed 1 name := .expect steady_word steady_finding_nil

theorem composed_literal (h : IsSign t.toList ∧ '\n' ∉ t.toList) :
    Composed 1 (accept (.literal t)) :=
  .accept (steady_literal h)

theorem composed_sign (h : IsSign t.toList ∧ '\n' ∉ t.toList) : Composed 1 (sign (.literal t)) :=
  .expect (steady_literal h) steady_finding_word

theorem composed_comma? : Composed 1 comma? := composed_afterTrivia (composed_literal (by decide))

/-- A production behind trivia may find nothing there. -/
theorem returns_afterTrivia {p : Parse (Option α)} (h : Returns p) : Returns (afterTrivia p) := by
  intro s
  refine .afterTrivia ((h s.skip).mono ?_ fun _ h => h)
  intro a q hq hn
  rw [hq hn, Place.skip_skip]

/-! ### Attributes and blocks -/

theorem steady_introducer (kind : AttributeKind) : (introducer kind).Steady := by
  cases kind with
  | inner => exact steady_literal (by decide)
  | outer => exact steady_literal (by decide)

theorem composed_attribute? : Composed 0 attribute? := by
  have hintroduced : ∀ p ∈ [introduced? .inner, introduced? .outer], Composed 1 p := by
    simp only [List.forall_mem_cons]
    exact ⟨.map (.accept (steady_introducer _)), .map (.accept (steady_introducer _)), by simp⟩
  have hreturns : ∀ p ∈ [introduced? .inner, introduced? .outer], Returns p := by
    simp only [List.forall_mem_cons]
    exact ⟨.accept (fun _ => .pure) rfl, .accept (fun _ => .pure) rfl, by simp⟩
  refine (Composed.choice hintroduced hreturns).bind fun found => ?_
  cases found with
  | none => exact .pure
  | some introducer =>
    refine composed_trivia.next fun _ => ?_
    refine composed_name.next fun name => ?_
    refine composed_trivia.next fun _ => ?_
    exact (Composed.accept steady_content).next fun content => .pure

theorem composed_attributes : Composed 1 attributes :=
  (Composed.many (composed_afterTrivia composed_attribute?)).bind fun _ => .pure

theorem composed_block [HasAttributes α Span] {orphans : List Pattern} (h : Composed k item) :
    Composed 1 (block orphans item) := by
  apply Composed.loop
  intro state
  refine composed_attributes.bind fun run => ?_
  refine h.next fun node => ?_
  cases node with
  | some node => exact .pure
  | none =>
    dsimp only
    split
    · exact .pure
    · exact .fail steady_finding_word

/-! ### Types and paths -/

theorem composed_container? : Composed 1 container? := by
  refine composed_trivia.bind fun _ => ?_
  refine (composed_literal (by decide)).next fun opening => ?_
  cases opening with
  | none => exact .pure
  | some opening =>
    refine composed_trivia.next fun _ => ?_
    refine composed_word.next fun keyType => ?_
    refine composed_trivia.next fun _ => ?_
    exact (composed_sign (by decide)).next fun closing => .pure

theorem returns_container? : Returns container? := by
  apply returns_afterTrivia
  refine .accept (fun opening => ?_) rfl
  iterate 4 refine .bind fun _ => ?_
  exact .pure

theorem composed_type? : Composed 1 type? := by
  refine composed_word.bind fun valueType => ?_
  cases valueType with
  | none => exact .pure
  | some valueType =>
    exact (Composed.attempt composed_container? returns_container?).next fun container => .pure

theorem composed_type : Composed 1 type := by
  refine composed_type?.bind fun found => ?_
  cases found with
  | none => exact .fail steady_finding_nil
  | some type => exact .pure

theorem composed_path : Composed 1 path := by
  have hdot : Composed 1 (accept dotSign) := composed_literal (by decide)
  refine (Composed.separated composed_word hdot composed_trivia).bind fun parts => ?_
  split
  · exact .fail steady_finding_nil
  · exact .pure

/-! ### Items and bodies -/

theorem composed_item? (h : Composed k item) : Composed k (item? item) := by
  refine h.bind fun content => ?_
  cases content with
  | none => exact .pure
  | some content => exact composed_comma?.next fun comma => .pure

theorem composed_declaration? (kind : StatementKind) (h : Composed k item) :
    Composed 1 (declaration? kind item) := by
  refine (Composed.accept (steady_keyword (lexical_keyword kind))).bind fun keyword => ?_
  cases keyword with
  | none => exact .pure
  | some keyword =>
    refine composed_trivia.next fun _ => ?_
    refine composed_name.next fun name => ?_
    refine composed_trivia.next fun _ => ?_
    refine (composed_sign (by decide)).next fun opening => ?_
    refine (composed_block (composed_item? h)).next fun found => ?_
    exact (composed_sign (by decide)).next fun closing => .pure

theorem led_declaration? (kind : StatementKind) : Led (declaration? kind item) := by
  refine .accept (fun keyword => ?_) rfl
  iterate 6 refine .bind fun _ => ?_
  exact .pure

theorem composed_field? : Composed 1 field? := by
  refine composed_word.bind fun name => ?_
  cases name with
  | none => exact .pure
  | some name =>
    refine composed_trivia.next fun _ => ?_
    refine (composed_literal (by decide)).next fun question => ?_
    refine composed_trivia.next fun _ => ?_
    refine (composed_sign (by decide)).next fun colon => ?_
    refine composed_trivia.next fun _ => ?_
    exact composed_type.next fun type => .pure

theorem composed_variantBody? : Composed 1 variantBody? := by
  refine (composed_literal (by decide)).bind fun opening => ?_
  cases opening with
  | none => exact .pure
  | some opening =>
    refine (composed_block (composed_item? composed_field?)).next fun found => ?_
    exact (composed_sign (by decide)).next fun closing => .pure

theorem composed_variant? : Composed 1 variant? := by
  refine composed_word.bind fun name => ?_
  cases name with
  | none => exact .pure
  | some name =>
    refine composed_trivia.next fun _ => ?_
    exact composed_variantBody?.next fun body => .pure

/-! ### Statements -/

theorem composed_custom? : Composed 1 custom? := by
  refine (Composed.accept (steady_keyword (lexical_keyword .custom))).bind fun keyword => ?_
  cases keyword with
  | none => exact .pure
  | some keyword =>
    refine composed_trivia.next fun _ => ?_
    refine composed_name.next fun name => ?_
    refine composed_trivia.next fun _ => ?_
    refine (composed_sign (by decide)).next fun equals => ?_
    refine composed_trivia.next fun _ => ?_
    exact composed_type.next fun type => .pure

theorem led_custom? : Led custom? := by
  refine .accept (fun keyword => ?_) rfl
  iterate 6 refine .bind fun _ => ?_
  exact .pure

theorem composed_throws? : Composed 1 throws? := by
  refine composed_trivia.bind fun _ => ?_
  refine (Composed.accept (steady_keyword (by decide))).next fun keyword => ?_
  cases keyword with
  | none => exact .pure
  | some keyword =>
    refine composed_trivia.next fun _ => ?_
    exact composed_type.next fun type => .pure

theorem returns_throws? : Returns throws? := by
  apply returns_afterTrivia
  refine .accept (fun keyword => ?_) rfl
  iterate 2 refine .bind fun _ => ?_
  exact .pure

theorem composed_proc? : Composed 1 proc? := by
  refine (Composed.accept (steady_keyword (lexical_keyword .proc))).bind fun keyword => ?_
  cases keyword with
  | none => exact .pure
  | some keyword =>
    refine composed_trivia.next fun _ => ?_
    refine composed_name.next fun name => ?_
    refine composed_trivia.next fun _ => ?_
    refine (composed_sign (by decide)).next fun equals => ?_
    refine composed_trivia.next fun _ => ?_
    refine composed_type.next fun input => ?_
    refine composed_trivia.next fun _ => ?_
    refine (composed_sign (by decide)).next fun arrow => ?_
    refine composed_trivia.next fun _ => ?_
    refine composed_type.next fun output => ?_
    exact (Composed.attempt composed_throws? returns_throws?).next fun throws => .pure

theorem led_proc? : Led proc? := by
  refine .accept (fun keyword => ?_) rfl
  iterate 11 refine .bind fun _ => ?_
  exact .pure

theorem composed_importAlias? : Composed 1 importAlias? := by
  refine (Composed.accept (steady_keyword (by decide))).bind fun keyword => ?_
  cases keyword with
  | none => exact .pure
  | some keyword =>
    refine composed_trivia.next fun _ => ?_
    exact composed_name.next fun name => .pure

theorem composed_importItem? : Composed 1 importItem? := by
  refine composed_word.bind fun name => ?_
  cases name with
  | none => exact .pure
  | some name =>
    refine composed_trivia.next fun _ => ?_
    refine composed_importAlias?.next fun localAlias => ?_
    exact composed_comma?.next fun comma => .pure

theorem composed_import? : Composed 1 import? := by
  refine (Composed.accept (steady_keyword (lexical_keyword .imports))).bind fun keyword => ?_
  cases keyword with
  | none => exact .pure
  | some keyword =>
    refine composed_trivia.next fun _ => ?_
    refine composed_path.next fun path => ?_
    refine composed_trivia.next fun _ => ?_
    refine (composed_sign (by decide)).next fun opening => ?_
    refine (Composed.many (composed_afterTrivia composed_importItem?)).next fun items => ?_
    exact (composed_sign (by decide)).next fun closing => .pure

theorem led_import? : Led import? := by
  refine .accept (fun keyword => ?_) rfl
  iterate 6 refine .bind fun _ => ?_
  exact .pure

theorem composed_statementOf (kind : StatementKind) : Composed 1 (statementOf kind) := by
  cases kind with
  | custom => exact composed_custom?.map
  | enum => exact (composed_declaration? .enum composed_word).map
  | imports => exact composed_import?.map
  | oneof => exact (composed_declaration? .oneof composed_type?).map
  | proc => exact composed_proc?.map
  | struct => exact (composed_declaration? .struct composed_field?).map
  | union => exact (composed_declaration? .union composed_variant?).map

/-- The keyword decides. -/
theorem led_statementOf (kind : StatementKind) : Led (statementOf kind) := by
  cases kind with
  | custom => exact led_custom?.map
  | enum => exact (led_declaration? .enum).map
  | imports => exact led_import?.map
  | oneof => exact (led_declaration? .oneof).map
  | proc => exact led_proc?.map
  | struct => exact (led_declaration? .struct).map
  | union => exact (led_declaration? .union).map

theorem composed_statement? (kinds : List StatementKind) : Composed 0 (statement? kinds) := by
  have hkinds : ∀ p ∈ kinds.map statementOf, Composed 1 p := by
    rw [List.forall_mem_map]
    intro kind _
    exact composed_statementOf kind
  have hreturns : ∀ p ∈ kinds.map statementOf, Returns p := by
    rw [List.forall_mem_map]
    intro kind _
    exact (led_statementOf kind).returns
  refine (Composed.choice hkinds hreturns).bind fun found => ?_
  cases found with
  | none => exact .pure
  | some s => exact Composed.record.bind fun _ => .pure

theorem composed_document (kinds : List StatementKind) : Composed 1 (document kinds) := by
  refine (composed_block (composed_statement? kinds)).bind fun found => ?_
  exact (Composed.expect steady_endOfInput steady_finding_word).discard.next fun _ => .pure

/-- The grammar never asks for the budget. -/
theorem metered_document (kinds : List StatementKind) : Metered 1 (document kinds) :=
  (composed_document kinds).metered

end SchemaText
