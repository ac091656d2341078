import SchemaText.Proofs.Grammar.Composed
import SchemaText.Proofs.Parse.Quiet

/-!
An observer hears nothing of the productions of the grammar but the tokens that they match, up to the
statement that is recorded when it has been read.
-/
namespace SchemaText

open Grammar Parse

variable {α : Type} {item : Parse (Option α)}

/-! ### Trivia, attributes and blocks -/

theorem quiet_trivia : Quiet trivia := by
  apply Quiet.loop
  intro _
  refine Quiet.accept.bind fun blank => ?_
  cases blank with
  | some _ => exact .pure
  | none =>
    refine Quiet.accept.bind fun line => ?_
    cases line with
    | some _ => exact .pure
    | none => exact .pure

theorem quiet_afterTrivia {p : Parse α} (h : Quiet p) : Quiet (afterTrivia p) :=
  quiet_trivia.bind fun _ => h

theorem quiet_comma? : Quiet comma? := quiet_afterTrivia .accept

theorem quiet_attribute? : Quiet attribute? := by
  have hintroduced : ∀ p ∈ [introduced? .inner, introduced? .outer], Quiet p := by
    simp only [List.forall_mem_cons]
    exact ⟨Quiet.map .accept, Quiet.map .accept, by simp⟩
  refine (Quiet.choice hintroduced).bind fun found => ?_
  cases found with
  | none => exact .pure
  | some introducer =>
    refine quiet_trivia.bind fun _ => ?_
    refine Quiet.expect.bind fun name => ?_
    refine quiet_trivia.bind fun _ => ?_
    exact Quiet.accept.bind fun content => .pure

theorem quiet_attributes : Quiet attributes :=
  (Quiet.many (quiet_afterTrivia quiet_attribute?)).bind fun _ => .pure

theorem quiet_block [HasAttributes α Span] {orphans : List Pattern} (h : Quiet item) :
    Quiet (block orphans item) := by
  apply Quiet.loop
  intro state
  refine quiet_attributes.bind fun run => ?_
  refine h.bind fun node => ?_
  cases node with
  | some node => exact .pure
  | none =>
    dsimp only
    split
    · exact .pure
    · exact .fail

/-! ### Types and paths -/

theorem quiet_container? : Quiet container? := by
  refine quiet_trivia.bind fun _ => ?_
  refine Quiet.accept.bind fun opening => ?_
  cases opening with
  | none => exact .pure
  | some opening =>
    refine quiet_trivia.bind fun _ => ?_
    refine Quiet.accept.bind fun keyType => ?_
    refine quiet_trivia.bind fun _ => ?_
    exact Quiet.expect.bind fun closing => .pure

theorem quiet_type? : Quiet type? := by
  refine Quiet.accept.bind fun valueType => ?_
  cases valueType with
  | none => exact .pure
  | some valueType => exact quiet_container?.attempt.bind fun container => .pure

theorem quiet_type : Quiet type := by
  refine quiet_type?.bind fun found => ?_
  cases found with
  | none => exact .fail
  | some type => exact .pure

theorem quiet_path : Quiet path := by
  refine (Quiet.separated .accept .accept quiet_trivia).bind fun parts => ?_
  split
  · exact .fail
  · exact .pure

/-! ### Items and bodies -/

theorem quiet_item? (h : Quiet item) : Quiet (item? item) := by
  refine h.bind fun content => ?_
  cases content with
  | none => exact .pure
  | some content => exact quiet_comma?.bind fun comma => .pure

theorem quiet_declaration? (kind : StatementKind) (h : Quiet item) :
    Quiet (declaration? kind item) := by
  refine Quiet.accept.bind fun keyword => ?_
  cases keyword with
  | none => exact .pure
  | some keyword =>
    refine quiet_trivia.bind fun _ => ?_
    refine Quiet.expect.bind fun name => ?_
    refine quiet_trivia.bind fun _ => ?_
    refine Quiet.expect.bind fun opening => ?_
    refine (quiet_block (quiet_item? h)).bind fun found => ?_
    exact Quiet.expect.bind fun closing => .pure

theorem quiet_field? : Quiet field? := by
  refine Quiet.accept.bind fun name => ?_
  cases name with
  | none => exact .pure
  | some name =>
    refine quiet_trivia.bind fun _ => ?_
    refine Quiet.accept.bind fun question => ?_
    refine quiet_trivia.bind fun _ => ?_
    refine Quiet.expect.bind fun colon => ?_
    refine quiet_trivia.bind fun _ => ?_
    exact quiet_type.bind fun type => .pure

theorem quiet_variantBody? : Quiet variantBody? := by
  refine Quiet.accept.bind fun opening => ?_
  cases opening with
  | none => exact .pure
  | some opening =>
    refine (quiet_block (quiet_item? quiet_field?)).bind fun found => ?_
    exact Quiet.expect.bind fun closing => .pure

theorem quiet_variant? : Quiet variant? := by
  refine Quiet.accept.bind fun name => ?_
  cases name with
  | none => exact .pure
  | some name =>
    refine quiet_trivia.bind fun _ => ?_
    exact quiet_variantBody?.bind fun body => .pure

/-! ### Statements -/

theorem quiet_custom? : Quiet custom? := by
  refine Quiet.accept.bind fun keyword => ?_
  cases keyword with
  | none => exact .pure
  | some keyword =>
    refine quiet_trivia.bind fun _ => ?_
    refine Quiet.expect.bind fun name => ?_
    refine quiet_trivia.bind fun _ => ?_
    refine Quiet.expect.bind fun equals => ?_
    refine quiet_trivia.bind fun _ => ?_
    exact quiet_type.bind fun type => .pure

theorem quiet_throws? : Quiet throws? := by
  refine quiet_trivia.bind fun _ => ?_
  refine Quiet.accept.bind fun keyword => ?_
  cases keyword with
  | none => exact .pure
  | some keyword =>
    refine quiet_trivia.bind fun _ => ?_
    exact quiet_type.bind fun type => .pure

theorem quiet_proc? : Quiet proc? := by
  refine Quiet.accept.bind fun keyword => ?_
  cases keyword with
  | none => exact .pure
  | some keyword =>
    refine quiet_trivia.bind fun _ => ?_
    refine Quiet.expect.bind fun name => ?_
    refine quiet_trivia.bind fun _ => ?_
    refine Quiet.expect.bind fun equals => ?_
    refine quiet_trivia.bind fun _ => ?_
    refine quiet_type.bind fun input => ?_
    refine quiet_trivia.bind fun _ => ?_
    refine Quiet.expect.bind fun arrow => ?_
    refine quiet_trivia.bind fun _ => ?_
    refine quiet_type.bind fun output => ?_
    exact quiet_throws?.attempt.bind fun throws => .pure

theorem quiet_importAlias? : Quiet importAlias? := by
  refine Quiet.accept.bind fun keyword => ?_
  cases keyword with
  | none => exact .pure
  | some keyword =>
    refine quiet_trivia.bind fun _ => ?_
    exact Quiet.expect.bind fun name => .pure

theorem quiet_importItem? : Quiet importItem? := by
  refine Quiet.accept.bind fun name => ?_
  cases name with
  | none => exact .pure
  | some name =>
    refine quiet_trivia.bind fun _ => ?_
    refine quiet_importAlias?.bind fun localAlias => ?_
    exact quiet_comma?.bind fun comma => .pure

theorem quiet_import? : Quiet import? := by
  refine Quiet.accept.bind fun keyword => ?_
  cases keyword with
  | none => exact .pure
  | some keyword =>
    refine quiet_trivia.bind fun _ => ?_
    refine quiet_path.bind fun path => ?_
    refine quiet_trivia.bind fun _ => ?_
    refine Quiet.expect.bind fun opening => ?_
    refine (Quiet.many (quiet_afterTrivia quiet_importItem?)).bind fun items => ?_
    exact Quiet.expect.bind fun closing => .pure

theorem quiet_statementOf (kind : StatementKind) : Quiet (statementOf kind) := by
  cases kind with
  | custom => exact quiet_custom?.map
  | enum => exact (quiet_declaration? .enum .accept).map
  | imports => exact quiet_import?.map
  | oneof => exact (quiet_declaration? .oneof quiet_type?).map
  | proc => exact quiet_proc?.map
  | struct => exact (quiet_declaration? .struct quiet_field?).map
  | union => exact (quiet_declaration? .union quiet_variant?).map

end SchemaText
