import SchemaText.Proofs.Tree.Slots

/-!
What a walk tells of a tree: a pair of brackets for each of its nodes, nested as the nodes are. A
walk that does not go into the nodes of some kinds leaves out what stands between their brackets.
-/
namespace SchemaText

variable {τ α : Type}

/-! ### The nodes of a tree -/

inductive Node (τ : Type) where
  | document (d : Document τ)
  | statement (s : Statement τ)
  /-- What a statement consists of. -/
  | body (s : Statement τ)
  | attr (a : Attribute τ)
  | structField (e : Entry τ (StructField τ))
  | typeExpression (t : TypeExpression τ)
  | path (p : Path τ)

/-- The nodes right below an entry whose content has the nodes `content`. -/
def Entry.nodes (content : α → List (Node τ)) (e : Entry τ α) : List (Node τ) :=
  e.attributes.map .attr ++ content e.content

def VariantBody.nodes (b : VariantBody τ) : List (Node τ) :=
  b.attributes.map .attr ++ b.fields.map .structField

def Variant.nodes (v : Variant τ) : List (Node τ) := v.body.elim [] VariantBody.nodes

/-- The nodes right below a declaration whose entries have the nodes `entry`. -/
def Declaration.nodes (entry : Entry τ α → List (Node τ)) (d : Declaration τ α) : List (Node τ) :=
  d.attributes.map .attr ++ d.entries.flatMap entry

def Statement.nodes : Statement τ → List (Node τ)
  | imports node => node.attributes.map .attr ++ [.path node.path]
  | custom node => node.attributes.map .attr ++ [.typeExpression node.type]
  | enum node => node.nodes (Entry.nodes fun _ => [])
  | oneof node => node.nodes (Entry.nodes fun type => [.typeExpression type])
  | proc node => node.attributes.map .attr ++
      [.typeExpression node.input, .typeExpression node.output] ++
      node.throws.elim [] fun t => [.typeExpression t.type]
  | struct node => node.nodes fun e => [.structField e]
  | union node => node.nodes (Entry.nodes Variant.nodes)

namespace Node

def kind : Node τ → NodeKind
  | document _ => .document
  | statement _ => .statement
  | body s => .body s.kind
  | attr _ => .attr
  | structField _ => .structField
  | typeExpression _ => .typeExpression
  | path _ => .path

/-- The nodes right below a node, in the order of a walk. -/
def children : Node τ → List (Node τ)
  | document d => d.attributes.map attr ++ d.statements.map statement
  | statement s => [body s]
  | body s => s.nodes
  | attr _ => []
  | structField e => e.nodes fun f => [typeExpression f.type]
  | typeExpression _ => []
  | path _ => []

end Node

/-! ### Brackets -/

namespace WalkEvent

/-- The token that an event tells. -/
def token? : WalkEvent τ → Option τ
  | token t => some t
  | enter _ | leave _ => none

@[simp] theorem token?_enter (kind : NodeKind) : (enter kind : WalkEvent τ).token? = none := rfl

@[simp] theorem token?_token (t : τ) : (token t).token? = some t := rfl

@[simp] theorem token?_leave (kind : NodeKind) : (leave kind : WalkEvent τ).token? = none := rfl

end WalkEvent

mutual

/-- The events enter a node, go through its children and leave it. -/
inductive Brackets : Node τ → List (WalkEvent τ) → Prop where
  | node {n : Node τ} {events : List (WalkEvent τ)} : BracketsAll n.children events →
      Brackets n (.enter n.kind :: events ++ [.leave n.kind])

/-- The events go through nodes one after another, with tokens between them. -/
inductive BracketsAll : List (Node τ) → List (WalkEvent τ) → Prop where
  | nil : BracketsAll [] []
  | token {t : τ} {nodes : List (Node τ)} {events : List (WalkEvent τ)} :
      BracketsAll nodes events → BracketsAll nodes (.token t :: events)
  | child {n : Node τ} {nodes : List (Node τ)} {first events : List (WalkEvent τ)} :
      Brackets n first → BracketsAll nodes events → BracketsAll (n :: nodes) (first ++ events)

end

/-- The nodes that are still open after some events, the innermost first, if all that have been left
were the innermost ones. -/
def openAfter : List NodeKind → List (WalkEvent τ) → Option (List NodeKind)
  | opened, [] => some opened
  | opened, .enter kind :: events => openAfter (kind :: opened) events
  | opened, .token _ :: events => openAfter opened events
  | kind :: opened, .leave kind' :: events =>
    if kind = kind' then openAfter opened events else none
  | [], .leave _ :: _ => none

/-- The events without what stands between entering a node of the kinds `stop` and leaving it. While
such a node is open, `depth` is the number of open nodes from it inwards; else it is zero. -/
def prune (stop : List NodeKind) : (depth : Nat) → List (WalkEvent τ) → List (WalkEvent τ)
  | _, [] => []
  | 0, .enter kind :: events => .enter kind :: prune stop (if kind ∈ stop then 1 else 0) events
  | 0, .token t :: events => .token t :: prune stop 0 events
  | 0, .leave kind :: events => .leave kind :: prune stop 0 events
  | depth + 1, .enter _ :: events => prune stop (depth + 2) events
  | depth + 1, .token _ :: events => prune stop (depth + 1) events
  | 1, .leave kind :: events => .leave kind :: prune stop 0 events
  | depth + 2, .leave _ :: events => prune stop (depth + 1) events

/-! ### Walks through outlines -/

namespace Outline

section

variable {stop : List NodeKind}

@[simp] theorem walk_token (t : τ) : (token t).walk stop = [.token t] := by rw [walk]

@[simp] theorem walkAll_nil : walkAll stop ([] : List (Outline τ)) = [] := by rw [walkAll]

@[simp] theorem walkAll_cons (part : Outline τ) (parts : List (Outline τ)) :
    walkAll stop (part :: parts) = part.walk stop ++ walkAll stop parts := by rw [walkAll]

@[simp] theorem walkAll_append (as bs : List (Outline τ)) :
    walkAll stop (as ++ bs) = walkAll stop as ++ walkAll stop bs := by
  induction as with
  | nil => simp
  | cons a as ih => simp [ih]

end

section

variable (stop : List NodeKind)

mutual

/-- A walk closes what it opens. -/
theorem openAfter_walk (opened : List NodeKind) (events : List (WalkEvent τ)) :
    ∀ o : Outline τ, openAfter opened (o.walk stop ++ events) = openAfter opened events
  | token t => by rw [walk_token, List.singleton_append, openAfter]
  | node kind parts => by
    have hparts := openAfter_walkAll (kind :: opened) (.leave kind :: events) parts
    rw [walk]
    split
    · simp [openAfter]
    · simp [openAfter, hparts]

theorem openAfter_walkAll (opened : List NodeKind) (events : List (WalkEvent τ)) :
    ∀ parts : List (Outline τ),
      openAfter opened (walkAll stop parts ++ events) = openAfter opened events
  | [] => by simp
  | part :: parts => by
    rw [walkAll_cons, List.append_assoc, openAfter_walk opened _ part,
      openAfter_walkAll opened events parts]

end

mutual

/-- Below a node that is not gone into, nothing is left of a walk. -/
theorem prune_walk_succ (depth : Nat) (events : List (WalkEvent τ)) : ∀ o : Outline τ,
    prune stop (depth + 1) (o.walk [] ++ events) = prune stop (depth + 1) events
  | token t => by rw [walk_token, List.singleton_append, prune]
  | node kind parts => by
    have hparts := prune_walkAll_succ (depth + 1) (.leave kind :: events) parts
    simp [walk, prune, hparts]

theorem prune_walkAll_succ (depth : Nat) (events : List (WalkEvent τ)) :
    ∀ parts : List (Outline τ),
      prune stop (depth + 1) (walkAll [] parts ++ events) = prune stop (depth + 1) events
  | [] => by simp
  | part :: parts => by
    rw [walkAll_cons, List.append_assoc, prune_walk_succ depth _ part,
      prune_walkAll_succ depth events parts]

end

mutual

theorem prune_walk (events : List (WalkEvent τ)) : ∀ o : Outline τ,
    prune stop 0 (o.walk [] ++ events) = o.walk stop ++ prune stop 0 events
  | token t => by simp [prune]
  | node kind parts => by
    have hinside := prune_walkAll (.leave kind :: events) parts
    have hbelow := prune_walkAll_succ stop 0 (.leave kind :: events) parts
    by_cases hkind : kind ∈ stop
    · simpa [walk, prune, hkind] using hbelow
    · simpa [walk, prune, hkind] using hinside

theorem prune_walkAll (events : List (WalkEvent τ)) : ∀ parts : List (Outline τ),
    prune stop 0 (walkAll [] parts ++ events) = walkAll stop parts ++ prune stop 0 events
  | [] => by simp
  | part :: parts => by
    rw [walkAll_cons, walkAll_cons, List.append_assoc, prune_walk _ part,
      prune_walkAll events parts, List.append_assoc]

end

end

mutual

/-- The tokens that a walk tells. -/
theorem filterMap_walk : ∀ o : Outline τ, (o.walk []).filterMap WalkEvent.token? = o.tokens
  | token t => by simp
  | node kind parts => by simp [walk, List.filterMap_cons, filterMap_walkAll parts]

theorem filterMap_walkAll : ∀ parts : List (Outline τ),
    (walkAll [] parts).filterMap WalkEvent.token? = tokensOf parts
  | [] => by simp
  | part :: parts => by
    rw [walkAll_cons, List.filterMap_append, filterMap_walk part, filterMap_walkAll parts,
      tokensOf_cons]

end

end Outline

/-! ### Walks through trees -/

open Outline

theorem BracketsAll.append {ms : List (Node τ)} {events : List (WalkEvent τ)}
    (h : BracketsAll ms events) :
    ∀ {nodes : List (Node τ)} {first : List (WalkEvent τ)}, BracketsAll nodes first →
      BracketsAll (nodes ++ ms) (first ++ events)
  | _, _, .nil => h
  | _, _, .token ht => (append h ht).token
  | _, _, .child hn ht => by
    rw [List.cons_append, List.append_assoc]
    exact .child hn (append h ht)

/-- A walk through the parts goes through the nodes. -/
def Covers (nodes : List (Node τ)) (parts : List (Outline τ)) : Prop :=
  BracketsAll nodes (walkAll [] parts)

variable {n : Node τ} {nodes ms : List (Node τ)} {o : Outline τ} {parts qs : List (Outline τ)}

/-- A node is gone through as its parts are. -/
theorem Brackets.of_covers (h : Covers n.children parts) :
    Brackets n ((Outline.node n.kind parts).walk []) := by
  rw [walk, if_neg List.not_mem_nil]
  exact .node h

namespace Covers

theorem nil : Covers ([] : List (Node τ)) [] := by
  rw [Covers, walkAll_nil]
  exact .nil

theorem token (t : τ) (h : Covers nodes parts) : Covers nodes (.token t :: parts) := by
  rw [Covers, walkAll_cons, walk_token]
  exact BracketsAll.token h

theorem child (hn : Brackets n (o.walk [])) (h : Covers nodes parts) :
    Covers (n :: nodes) (o :: parts) := by
  rw [Covers, walkAll_cons]
  exact BracketsAll.child hn h

theorem append (h : Covers nodes parts) (h' : Covers ms qs) :
    Covers (nodes ++ ms) (parts ++ qs) := by
  rw [Covers, walkAll_append]
  exact BracketsAll.append h' h

/-- The rule for parts that hold no node. -/
theorem behind (h : Covers nodes parts) (h' : Covers [] qs) : Covers nodes (parts ++ qs) := by
  simpa using h.append h'

theorem option (t : Option τ) : Covers [] (ofOption t) := by
  cases t with
  | none => exact nil
  | some t => exact nil.token t

theorem map {f : α → Outline τ} {node : α → Node τ} (h : ∀ a, Brackets (node a) ((f a).walk []))
    (as : List α) : Covers (as.map node) (as.map f) := by
  induction as with
  | nil => exact nil
  | cons a as ih => exact ih.child (h a)

theorem flatMap {f : α → List (Outline τ)} {nodes : α → List (Node τ)}
    (h : ∀ a, Covers (nodes a) (f a)) (as : List α) :
    Covers (as.flatMap nodes) (as.flatMap f) := by
  induction as with
  | nil => exact nil
  | cons a as ih => exact (h a).append ih

end Covers

theorem brackets_attribute (a : Attribute τ) : Brackets (.attr a) (a.outline.walk []) :=
  .of_covers (n := .attr a) (((Covers.option a.content).token a.name).token a.symbol)

theorem covers_attributes (as : List (Attribute τ)) : Covers (as.map .attr) (outlines as) :=
  .map brackets_attribute as

theorem brackets_type (t : TypeExpression τ) :
    Brackets (.typeExpression t) (t.outline.walk []) := by
  refine .of_covers (n := .typeExpression t) (Covers.token t.valueType ?_)
  cases t.container with
  | none => exact .nil
  | some container =>
    have hkey := Covers.option container.keyType
    exact (hkey.behind (Covers.nil.token container.closing)).token container.opening

theorem brackets_path (p : Path τ) : Brackets (.path p) (p.outline.walk []) := by
  refine .of_covers (n := .path p) ?_
  change Covers [] _
  induction p.items with
  | nil => exact .nil
  | cons item items ih => exact ih.token item.token

theorem covers_importItem (i : ImportItem τ) : Covers [] i.outlines := by
  have hcomma := Covers.option i.comma
  refine Covers.behind (Covers.token i.name ?_) hcomma
  cases i.localAlias with
  | none => exact .nil
  | some localAlias => exact (Covers.nil.token localAlias.name).token localAlias.keyword

theorem covers_entry {content : α → List (Outline τ)} {nodes : α → List (Node τ)}
    (h : ∀ a, Covers (nodes a) (content a)) (e : Entry τ α) :
    Covers (e.nodes nodes) (e.outlines content) :=
  ((covers_attributes e.attributes).append (h e.content)).behind (.option e.comma)

theorem covers_declaration {entry : Entry τ α → List (Outline τ)}
    {nodes : Entry τ α → List (Node τ)} (h : ∀ e, Covers (nodes e) (entry e))
    (d : Declaration τ α) : Covers (d.nodes nodes) (d.outlines entry) := by
  have hhead := ((Covers.nil.token d.opening).token d.name).token d.keyword
  have hentries := Covers.flatMap h d.entries
  exact (((covers_attributes d.attributes).behind hhead).append hentries).behind
    (Covers.nil.token d.closing)

theorem brackets_field (e : Entry τ (StructField τ)) :
    Brackets (.structField e) ((fieldOutline e).walk []) := by
  have hfield : ∀ f : StructField τ, Covers [.typeExpression f.type] f.outlines := by
    intro f
    have htype := (Covers.nil.child (brackets_type f.type)).token f.colon
    exact ((Covers.option f.question).append htype).token f.name
  exact .of_covers (n := .structField e) (covers_entry hfield e)

theorem covers_variant (v : Variant τ) : Covers v.nodes v.outlines := by
  rw [Variant.nodes]
  refine Covers.token v.name ?_
  cases v.body with
  | none => exact .nil
  | some body =>
    have hfields := (Covers.map brackets_field body.fields).token body.opening
    exact ((covers_attributes body.attributes).append hfields).behind
      (Covers.nil.token body.closing)

theorem covers_statement (st : Statement τ) : Covers st.nodes st.outlines := by
  cases st with
  | imports node =>
    have hpath := (Covers.nil.token node.opening).child (brackets_path node.path)
    have hitems : Covers [] (node.items.flatMap ImportItem.outlines) := by
      have h := Covers.flatMap covers_importItem node.items
      rwa [List.flatMap_eq_nil_iff.2 fun _ _ => rfl] at h
    exact (((covers_attributes node.attributes).append (hpath.token node.keyword)).behind
      hitems).behind (Covers.nil.token node.closing)
  | custom node =>
    have htype := (Covers.nil.child (brackets_type node.type)).token node.equals
    exact (covers_attributes node.attributes).append ((htype.token node.name).token node.keyword)
  | enum node =>
    exact covers_declaration (covers_entry fun name => Covers.nil.token name) node
  | oneof node =>
    exact covers_declaration (covers_entry fun t => Covers.nil.child (brackets_type t)) node
  | proc node =>
    have houtput := (Covers.nil.child (brackets_type node.output)).token node.arrow
    have hinput := (houtput.child (brackets_type node.input)).token node.equals
    refine ((covers_attributes node.attributes).append
      ((hinput.token node.name).token node.keyword)).append ?_
    cases node.throws with
    | none => exact .nil
    | some throws => exact (Covers.nil.child (brackets_type throws.type)).token throws.keyword
  | struct node => exact covers_declaration (fun e => Covers.nil.child (brackets_field e)) node
  | union node => exact covers_declaration (covers_entry covers_variant) node

theorem brackets_statement (st : Statement τ) : Brackets (.statement st) (st.outline.walk []) := by
  have hbody : Brackets (.body st) ((Outline.node (.body st.kind) st.outlines).walk []) :=
    .of_covers (n := .body st) (covers_statement st)
  exact .of_covers (n := .statement st) (Covers.nil.child hbody)

/-- A walk enters and leaves each node of a tree once, nested as the nodes are, and tells all tokens
in between. Not to go into the nodes of some kinds makes no other difference than that what stands
between entering and leaving such a node is missing. -/
theorem walk_brackets (d : Document τ) (stop : List NodeKind) :
    Brackets (.document d) (d.walk []) ∧ (d.walk []).filterMap WalkEvent.token? = d.tokens ∧
      openAfter [] (d.walk stop) = some [] ∧ d.walk stop = prune stop 0 (d.walk []) := by
  refine ⟨?_, filterMap_walk d.outline, ?_, ?_⟩
  · have hstatements := Covers.map brackets_statement d.statements
    exact .of_covers (n := .document d) ((covers_attributes d.attributes).append hstatements)
  · have hopen := openAfter_walk stop [] [] d.outline
    rwa [List.append_nil, openAfter] at hopen
  · have hprune := prune_walk stop [] d.outline
    rw [List.append_nil, prune, List.append_nil] at hprune
    exact hprune.symm

end SchemaText
