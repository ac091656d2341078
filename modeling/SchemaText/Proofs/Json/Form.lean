import SchemaText.Json
import SchemaText.Span

/-!
Forms of JSON values: which values there is something to read from, and what a reader does not see
of them.
-/
namespace SchemaText

open Json (natUpTo? tag? list? record? variant?)

mutual

/-- How the values of a type are written. -/
inductive Form where
  /-- A number that an offset can be. -/
  | offset
  | tag (tags : List String)
  | list (item : Form)
  | record (fields : List Field)
  /-- One of several forms, each with a tag of its own. -/
  | variant (alternatives : List (String × Form))

inductive Field where
  | required (name : String) (form : Form)
  | optional (name : String) (form : Form)

end

namespace Field

def name : Field → String
  | required name _ | optional name _ => name

@[simp] theorem name_required (name : String) (form : Form) : (required name form).name = name :=
  rfl

@[simp] theorem name_optional (name : String) (form : Form) : (optional name form).name = name :=
  rfl

def form : Field → Form
  | required _ form | optional _ form => form

end Field

mutual

/-- A value as the one that is read from it is written: the fields of a record in their order and no
others, those that are absent as null. -/
def Form.normal? : Form → Json → Option Json
  | .offset, j => (natUpTo? maxOffset j).map fun (n : Nat) => .integer n
  | .tag tags, j => do
    let t ← tag? j
    if t ∈ tags then some (.string t) else none
  | .list item, j => (list? item.normal? j).map .array
  | .record fields, j => do
    let given ← record? (fields.map Field.name) j
    return .object (← normalFields? fields given)
  | .variant alternatives, j => do
    let (t, value) ← variant? j
    return .object [(t, ← normalAlternative? alternatives t value)]

/-- What stands for a field with this value. -/
def Field.normal? : Field → Option Json → Option Json
  | .required _ form, value => value.bind form.normal?
  | .optional _ _, none | .optional _ _, some .null => some .null
  | .optional _ form, some value => form.normal? value

def normalFields? : List Field → List (String × Json) → Option (List (String × Json))
  | [], _ => some []
  | field :: fields, given => do
    let value ← field.normal? (given.lookup field.name)
    return (field.name, value) :: (← normalFields? fields given)

def normalAlternative? : List (String × Form) → String → Json → Option Json
  | [], _, _ => none
  | (name, form) :: alternatives, t, value =>
    if t = name then form.normal? value else normalAlternative? alternatives t value

end

theorem Field.normal?_some {field : Field} {value : Json} (h : value ≠ .null) :
    field.normal? (some value) = field.form.normal? value := by
  cases field with
  | required => rfl
  | optional => cases value <;> simp [Field.normal?, Field.form] at h ⊢

theorem normalAlternative?_eq (alternatives : List (String × Form)) (t : String) (value : Json) :
    normalAlternative? alternatives t value =
      (alternatives.lookup t).bind fun form => form.normal? value := by
  induction alternatives with
  | nil => rfl
  | cons alternative alternatives ih =>
    rw [normalAlternative?, List.lookup_cons]
    by_cases h : t = alternative.1
    · simp [h]
    · simp [h, ih, beq_eq_false_iff_ne.2 h]

theorem isSome_normalFields? {fields : List Field} {given : List (String × Json)}
    (h : ∀ field ∈ fields, (field.normal? (given.lookup field.name)).isSome) :
    (normalFields? fields given).isSome := by
  induction fields with
  | nil => rfl
  | cons field fields ih =>
    obtain ⟨hfield, hfields⟩ := List.forall_mem_cons.1 h
    obtain ⟨value, hvalue⟩ := Option.isSome_iff_exists.1 hfield
    obtain ⟨rest, hrest⟩ := Option.isSome_iff_exists.1 (ih hfields)
    rw [normalFields?, hvalue, hrest]
    rfl

theorem normalFields?_congr {fields : List Field} {given given' : List (String × Json)}
    (h : ∀ field ∈ fields, field.normal? (given.lookup field.name) =
      field.normal? (given'.lookup field.name)) :
    normalFields? fields given = normalFields? fields given' := by
  induction fields with
  | nil => rfl
  | cons field fields ih =>
    obtain ⟨hfield, hfields⟩ := List.forall_mem_cons.1 h
    rw [normalFields?, normalFields?, hfield, ih hfields]

/-! ### What there is to read from -/

mutual

/-- There is a value of the form to be read. -/
inductive Form.Conforms : Form → Json → Prop where
  | offset {n : Nat} : n ≤ maxOffset → Form.Conforms .offset (.integer n)
  | tag {tags : List String} {t : String} : t ∈ tags → Form.Conforms (.tag tags) (.string t)
  | tagged {tags : List String} {t : String} : t ∈ tags →
      Form.Conforms (.tag tags) (.object [(t, .null)])
  | list {item : Form} {items : List Json} : (∀ j ∈ items, Form.Conforms item j) →
      Form.Conforms (.list item) (.array items)
  | record {fields : List Field} {j : Json} {given : List (String × Json)} :
      record? (fields.map Field.name) j = some given →
      (∀ field ∈ fields, Field.Conforms field (given.lookup field.name)) →
      Form.Conforms (.record fields) j
  | variant {alternatives : List (String × Form)} {t : String} {form : Form} {value : Json} :
      alternatives.lookup t = some form → Form.Conforms form value →
      Form.Conforms (.variant alternatives) (.object [(t, value)])

/-- There is a value for the field, or it may be left out. -/
inductive Field.Conforms : Field → Option Json → Prop where
  | required {name : String} {form : Form} {value : Json} : Form.Conforms form value →
      Field.Conforms (.required name form) (some value)
  | missing {name : String} {form : Form} : Field.Conforms (.optional name form) none
  | null {name : String} {form : Form} : Field.Conforms (.optional name form) (some .null)
  | optional {name : String} {form : Form} {value : Json} : Form.Conforms form value →
      Field.Conforms (.optional name form) (some value)

end

/-- No number in `j` is negative or larger than an offset can be. -/
inductive Json.Small : Json → Prop where
  | null : Small .null
  | string {s : String} : Small (.string s)
  | integer {n : Nat} : n ≤ maxOffset → Small (.integer n)
  | array {items : List Json} : (∀ j ∈ items, Small j) → Small (.array items)
  | object {fields : List (String × Json)} : (∀ field ∈ fields, Small field.2) →
      Small (.object fields)

namespace Json

variable {α β : Type} {read : Json → Option α} {j value : Json} {t name : String}
  {given : List (String × Json)}

theorem natUpTo?_eq_some {bound n : Nat} (h : natUpTo? bound j = some n) :
    j = .integer n ∧ n ≤ bound := by
  cases j <;> simp only [natUpTo?, reduceCtorEq] at h
  split at h
  · cases h
    simp only [Json.integer.injEq]
    omega
  · cases h

theorem natUpTo?_integer {bound n : Nat} (h : n ≤ bound) :
    natUpTo? bound (.integer n) = some n := by
  rw [natUpTo?, if_pos (by omega), Int.toNat_natCast]

theorem tag?_eq_some (h : tag? j = some t) : j = .string t ∨ j = .object [(t, .null)] := by
  unfold tag? at h
  split at h <;> simp_all

theorem variant?_eq_some (h : variant? j = some (t, value)) : j = .object [(t, value)] := by
  unfold variant? at h
  split at h <;> simp_all

theorem list?_sound {P : Json → Prop} {Q : α → Prop} (hread : ∀ {i a}, read i = some a → P i ∧ Q a)
    {as : List α} (h : list? read j = some as) :
    ∃ items, j = .array items ∧ (∀ i ∈ items, P i) ∧ ∀ a ∈ as, Q a := by
  cases j <;> simp only [list?, reduceCtorEq] at h
  next items =>
  refine ⟨items, rfl, ?_⟩
  induction items generalizing as with
  | nil =>
    cases h
    exact ⟨List.forall_mem_nil _, List.forall_mem_nil _⟩
  | cons i items ih =>
    rw [List.mapM_cons] at h
    obtain ⟨a, ha, h⟩ := Option.bind_eq_some_iff.1 h
    obtain ⟨as, has, h⟩ := Option.bind_eq_some_iff.1 h
    cases h
    obtain ⟨hi, ha⟩ := hread ha
    obtain ⟨hitems, has⟩ := ih has
    exact ⟨List.forall_mem_cons.2 ⟨hi, hitems⟩, List.forall_mem_cons.2 ⟨ha, has⟩⟩

theorem isSome_list? {items : List Json} (h : ∀ i ∈ items, (read i).isSome) :
    (list? read (.array items)).isSome := by
  rw [list?]
  induction items with
  | nil => rfl
  | cons i items ih =>
    obtain ⟨hi, hitems⟩ := List.forall_mem_cons.1 h
    obtain ⟨a, ha⟩ := Option.isSome_iff_exists.1 hi
    obtain ⟨as, has⟩ := Option.isSome_iff_exists.1 (ih hitems)
    rw [List.mapM_cons, ha, has]
    rfl

end Json

mutual

theorem Form.normal?_sound : ∀ {form : Form} {j j' : Json}, form.normal? j = some j' →
    form.Conforms j ∧ j'.Small
  | .offset, j, j', h => by
    rw [Form.normal?] at h
    obtain ⟨n, hn, rfl⟩ := Option.map_eq_some_iff.1 h
    obtain ⟨rfl, hle⟩ := Json.natUpTo?_eq_some hn
    exact ⟨.offset hle, .integer hle⟩
  | .tag tags, j, j', h => by
    rw [Form.normal?] at h
    obtain ⟨t, ht, h⟩ := Option.bind_eq_some_iff.1 h
    split at h
    · next hmem =>
      cases h
      rcases Json.tag?_eq_some ht with rfl | rfl
      · exact ⟨.tag hmem, .string⟩
      · exact ⟨.tagged hmem, .string⟩
    · cases h
  | .list item, j, j', h => by
    rw [Form.normal?] at h
    obtain ⟨items', hitems, rfl⟩ := Option.map_eq_some_iff.1 h
    obtain ⟨items, rfl, hconform, hsmall⟩ := Json.list?_sound (Form.normal?_sound ·) hitems
    exact ⟨.list hconform, .array hsmall⟩
  | .record fields, j, j', h => by
    rw [Form.normal?] at h
    obtain ⟨given, hgiven, h⟩ := Option.bind_eq_some_iff.1 h
    obtain ⟨written, hwritten, h⟩ := Option.bind_eq_some_iff.1 h
    cases h
    obtain ⟨hconform, hsmall⟩ := normalFields?_sound hwritten
    exact ⟨.record hgiven hconform, .object hsmall⟩
  | .variant alternatives, j, j', h => by
    rw [Form.normal?] at h
    obtain ⟨⟨t, value⟩, hvariant, h⟩ := Option.bind_eq_some_iff.1 h
    obtain ⟨value', hvalue, h⟩ := Option.bind_eq_some_iff.1 h
    cases h
    obtain rfl := Json.variant?_eq_some hvariant
    obtain ⟨⟨form, hform, hconform⟩, hsmall⟩ := normalAlternative?_sound hvalue
    exact ⟨.variant hform hconform, .object (by simpa using hsmall)⟩

theorem Field.normal?_sound : ∀ {field : Field} {value : Option Json} {value' : Json},
    field.normal? value = some value' → field.Conforms value ∧ value'.Small
  | .required name form, value, value', h => by
    rw [Field.normal?] at h
    obtain ⟨value, rfl, h⟩ := Option.bind_eq_some_iff.1 h
    obtain ⟨hconform, hsmall⟩ := Form.normal?_sound h
    exact ⟨.required hconform, hsmall⟩
  | .optional name form, none, value', h => by
    cases h
    exact ⟨.missing, .null⟩
  | .optional name form, some value, value', h => by
    by_cases hnull : value = .null
    · subst hnull
      cases h
      exact ⟨.null, .null⟩
    · rw [Field.normal?_some hnull] at h
      obtain ⟨hconform, hsmall⟩ := Form.normal?_sound h
      exact ⟨.optional hconform, hsmall⟩

theorem normalFields?_sound : ∀ {fields : List Field} {given written : List (String × Json)},
    normalFields? fields given = some written →
      (∀ field ∈ fields, field.Conforms (given.lookup field.name)) ∧
        ∀ field ∈ written, field.2.Small
  | [], given, written, h => by
    cases h
    exact ⟨List.forall_mem_nil _, List.forall_mem_nil _⟩
  | field :: fields, given, written, h => by
    rw [normalFields?] at h
    obtain ⟨value, hvalue, h⟩ := Option.bind_eq_some_iff.1 h
    obtain ⟨rest, hrest, h⟩ := Option.bind_eq_some_iff.1 h
    cases h
    obtain ⟨hconform, hsmall⟩ := Field.normal?_sound hvalue
    obtain ⟨hconforms, hsmalls⟩ := normalFields?_sound hrest
    exact ⟨List.forall_mem_cons.2 ⟨hconform, hconforms⟩, List.forall_mem_cons.2 ⟨hsmall, hsmalls⟩⟩

theorem normalAlternative?_sound : ∀ {alternatives : List (String × Form)} {t : String}
    {value value' : Json}, normalAlternative? alternatives t value = some value' →
      (∃ form, alternatives.lookup t = some form ∧ form.Conforms value) ∧ value'.Small
  | [], t, value, value', h => by
    rw [normalAlternative?] at h
    cases h
  | (name, form) :: alternatives, t, value, value', h => by
    rw [normalAlternative?] at h
    rw [List.lookup_cons]
    split at h
    · next heq =>
      obtain ⟨hconform, hsmall⟩ := Form.normal?_sound h
      exact ⟨⟨form, by simp [heq], hconform⟩, hsmall⟩
    · next hne =>
      obtain ⟨⟨form', hform, hconform⟩, hsmall⟩ := normalAlternative?_sound h
      exact ⟨⟨form', by simp [beq_eq_false_iff_ne.2 hne, hform], hconform⟩, hsmall⟩

end

mutual

theorem Form.Conforms.isSome_normal? : ∀ {form : Form} {j : Json}, form.Conforms j →
    (form.normal? j).isSome
  | _, _, .offset hle => by
    rw [Form.normal?, Json.natUpTo?_integer hle]
    rfl
  | _, _, .tag hmem => by
    simp [Form.normal?, tag?, hmem]
  | _, _, .tagged hmem => by
    simp [Form.normal?, tag?, hmem]
  | _, _, .list hitems => by
    rw [Form.normal?, Option.isSome_map]
    exact Json.isSome_list? fun i hi => (hitems i hi).isSome_normal?
  | _, _, .record hgiven hfields => by
    obtain ⟨written, hwritten⟩ := Option.isSome_iff_exists.1 <|
      isSome_normalFields? fun field hmem => (hfields field hmem).isSome_normal?
    simp [Form.normal?, hgiven, hwritten]
  | _, _, .variant hform hvalue => by
    obtain ⟨written, hwritten⟩ := Option.isSome_iff_exists.1 hvalue.isSome_normal?
    simp [Form.normal?, variant?, normalAlternative?_eq, hform, hwritten]

theorem Field.Conforms.isSome_normal? : ∀ {field : Field} {value : Option Json},
    field.Conforms value → (field.normal? value).isSome
  | _, _, .required hvalue => hvalue.isSome_normal?
  | _, _, .missing => rfl
  | _, _, .null => rfl
  | .optional _ _, some value, .optional hvalue => by
    by_cases hnull : value = .null
    · rw [hnull]
      rfl
    · rw [Field.normal?_some hnull]
      exact hvalue.isSome_normal?

end

/-- There is something to read just from what conforms. -/
theorem Form.isSome_normal?_iff {form : Form} {j : Json} :
    (form.normal? j).isSome ↔ form.Conforms j := by
  constructor
  · intro h
    obtain ⟨j', h⟩ := Option.isSome_iff_exists.1 h
    exact (Form.normal?_sound h).1
  · exact Form.Conforms.isSome_normal?

/-! ### What a reader does not see -/

/-- One change of a value, at whatever depth, that a reader of the form does not see. -/
inductive Form.Rewrites : Form → Json → Json → Prop where
  | unknown {fields : List Field} {before after : List (String × Json)} {name : String}
      {value : Json} : name ∉ fields.map Field.name →
      Rewrites (.record fields) (.object (before ++ after))
        (.object (before ++ (name, value) :: after))
  | absent {fields : List Field} {before after : List (String × Json)} {name : String} :
      (∀ field ∈ fields, field.name = name → ∃ form, field = .optional name form) →
      name ∉ (before ++ after).map Prod.fst →
      Rewrites (.record fields) (.object (before ++ after))
        (.object (before ++ (name, .null) :: after))
  | order {fields : List Field} {given given' : List (String × Json)} :
      given.Perm given' → (given.map Prod.fst).Nodup →
      Rewrites (.record fields) (.object given) (.object given')
  | field {fields : List Field} {before after : List (String × Json)} {name : String}
      {value value' j j' : Json} :
      record? (fields.map Field.name) j = some (before ++ (name, value) :: after) →
      record? (fields.map Field.name) j' = some (before ++ (name, value') :: after) →
      (∀ field ∈ fields, field.name = name → Rewrites field.form value value') →
      Rewrites (.record fields) j j'
  | item {item : Form} {before after : List Json} {j j' : Json} : Rewrites item j j' →
      Rewrites (.list item) (.array (before ++ j :: after)) (.array (before ++ j' :: after))
  | variant {alternatives : List (String × Form)} {t : String} {form : Form}
      {value value' : Json} : alternatives.lookup t = some form → Rewrites form value value' →
      Rewrites (.variant alternatives) (.object [(t, value)]) (.object [(t, value')])

theorem lookup_insert_of_ne {before after : List (String × Json)} {name key : String} {value : Json}
    (h : key ≠ name) :
    (before ++ (name, value) :: after).lookup key = (before ++ after).lookup key := by
  simp only [List.lookup_append, List.lookup_cons, beq_eq_false_iff_ne.2 h]

theorem lookup_insert_self {before after : List (String × Json)} {name : String} {value : Json}
    (h : before.lookup name = none) :
    (before ++ (name, value) :: after).lookup name = some value := by
  simp only [List.lookup_append, List.lookup_cons, h, Option.none_or, beq_self_eq_true]

theorem lookup_eq_of_perm {given given' : List (String × Json)} (h : given.Perm given')
    (hnodup : (given.map Prod.fst).Nodup) (key : String) :
    given.lookup key = given'.lookup key := by
  induction h with
  | nil => rfl
  | cons field _ ih =>
    rw [List.map_cons, List.nodup_cons] at hnodup
    rw [List.lookup_cons, List.lookup_cons, ih hnodup.2]
  | swap a b given =>
    obtain ⟨name, value⟩ := a
    obtain ⟨name', value'⟩ := b
    have hne : name' ≠ name := by
      rintro rfl
      simp at hnodup
    simp only [List.lookup_cons]
    by_cases heq : key = name'
    · simp [heq, beq_eq_false_iff_ne.2 hne]
    · simp [beq_eq_false_iff_ne.2 heq]
  | trans hp _ ih ih' => rw [ih hnodup, ih' ((hp.map Prod.fst).nodup_iff.1 hnodup)]

theorem Form.Rewrites.ne_null {form : Form} {j j' : Json} (h : form.Rewrites j j') :
    j ≠ .null ∧ j' ≠ .null := by
  cases h with
  | field hj hj' =>
    constructor
    · rintro rfl
      cases hj
    · rintro rfl
      cases hj'
  | unknown => simp
  | absent => simp
  | order => simp
  | item => simp
  | variant => simp

theorem Form.Rewrites.normal?_eq {form : Form} {j j' : Json} (h : form.Rewrites j j') :
    form.normal? j = form.normal? j' := by
  induction h with
  | @unknown fields before after name value hname =>
    have hfields : normalFields? fields (before ++ after) =
        normalFields? fields (before ++ (name, value) :: after) := by
      refine normalFields?_congr fun field hmem => ?_
      have hne : field.name ≠ name := fun h => hname (h ▸ List.mem_map_of_mem hmem)
      rw [lookup_insert_of_ne hne]
    simp [normal?, record?, hfields]
  | @absent fields before after name hoptional hname =>
    have hfields : normalFields? fields (before ++ after) =
        normalFields? fields (before ++ (name, .null) :: after) := by
      refine normalFields?_congr fun field hmem => ?_
      by_cases heq : field.name = name
      · obtain ⟨form, rfl⟩ := hoptional field hmem heq
        have hnone : (before ++ after).lookup name = none := by
          rw [List.lookup_eq_none_iff]
          intro field hfield
          have hne : name ≠ field.1 := fun heq => hname (heq ▸ List.mem_map_of_mem hfield)
          simpa using hne
        have hbefore : before.lookup name = none := by
          rw [List.lookup_append, Option.or_eq_none_iff] at hnone
          exact hnone.1
        simp only [Field.name, hnone, lookup_insert_self hbefore]
        rfl
      · rw [lookup_insert_of_ne heq]
    simp [normal?, record?, hfields]
  | @order fields given given' hperm hnodup =>
    have hfields : normalFields? fields given = normalFields? fields given' :=
      normalFields?_congr fun field _ => by rw [lookup_eq_of_perm hperm hnodup]
    simp [normal?, record?, hfields]
  | @field fields before after name value value' j j' hj hj' hrewrites ih =>
    have hfields : normalFields? fields (before ++ (name, value) :: after) =
        normalFields? fields (before ++ (name, value') :: after) := by
      refine normalFields?_congr fun field hmem => ?_
      by_cases heq : field.name = name
      · obtain ⟨hnull, hnull'⟩ := (hrewrites field hmem heq).ne_null
        cases hbefore : before.lookup name with
        | none =>
          rw [heq, lookup_insert_self hbefore, lookup_insert_self hbefore, Field.normal?_some hnull,
            Field.normal?_some hnull', ih field hmem heq]
        | some first => simp only [heq, List.lookup_append, hbefore, Option.some_or]
      · rw [lookup_insert_of_ne heq, lookup_insert_of_ne heq]
    simp [normal?, hj, hj', hfields]
  | item _ ih => simp [normal?, list?, ih]
  | variant hform _ ih => simp [normal?, variant?, normalAlternative?_eq, hform, ih]

end SchemaText
