import NanoKube.Json

/-!
# Structural schemas

What an API server does with an object of a custom resource before it is stored: it sets
the defaults of its schema in place of fields that are absent or null, and then checks
every field.

Fields are whole numbers or text.

## Main definitions

* `Property`, `Schema` — what is said of a field, and of an object.
* `withDefaults` — the fields after defaulting.
* `Schema.admits` — the validation.
* `Schema.store` — both.

## Main results

* `get?_withDefaults` — **what a field is after defaulting**.
* `Schema.admits_withDefaults` — defaults that are valid leave what is valid valid.
-/

namespace Structural

/-- Names and values. -/
abbrev Fields := List (List Char × Json)

/-- `format: int32`. -/
def IsInt32 (n : ℤ) : Prop := -2147483648 ≤ n ∧ n ≤ 2147483647

instance (n : ℤ) : Decidable (IsInt32 n) := inferInstanceAs (Decidable (_ ∧ _))

/-- The type of a field, and its bounds. -/
inductive Kind
  /-- `type: integer`, `format: int32`. -/
  | int32 (minimum : Option ℤ)
  /-- `type: string`. -/
  | string (minLength : ℕ)

/-- What a schema says of a field. -/
structure Property where
  kind : Kind
  default : Option Json := none

/-- The schema of an object. -/
structure Schema where
  properties : List (List Char × Property)
  required : List (List Char)

/-! ### Defaults -/

/-- A default, in place of a value that is absent or null. -/
def filled : Option Json → Option Json → Option Json
  | some default, none => some default
  | some default, some .null => some default
  | _, value => value

/-- The fields with the default of one of them. -/
def fill (key : List Char) (property : Property) (fields : Fields) : Fields :=
  match property.default, Json.get? key (.obj fields) with
  | some default, none => fields ++ [(key, default)]
  | some default, some .null => (fields.filter fun field => field.1 ≠ key) ++ [(key, default)]
  | _, _ => fields

/-- The fields with all the defaults. -/
def withDefaults : List (List Char × Property) → Fields → Fields
  | [], fields => fields
  | (key, property) :: properties, fields => withDefaults properties (fill key property fields)

variable {key other : List Char} {property : Property} {fields : Fields}
  {properties : List (List Char × Property)}

theorem get?_fill_self : Json.get? key (.obj (fill key property fields))
    = filled property.default (Json.get? key (.obj fields)) := by
  unfold fill filled
  split <;> simp_all [Json.get?_append]

theorem get?_fill_of_ne (h : other ≠ key) : Json.get? other (.obj (fill key property fields))
    = Json.get? other (.obj fields) := by
  have hnone : ∀ value, Json.get? other (.obj [(key, value)]) = none :=
    fun _ => Json.get?_singleton_of_ne h
  unfold fill
  split
  · rw [Json.get?_append, hnone, Option.none_or]
  · rw [Json.get?_append, hnone, Option.none_or, Json.get?_filter h]
  · rfl

/-- A field that the schema does not name is left alone. -/
theorem get?_withDefaults_of_not_mem (h : key ∉ properties.map Prod.fst) :
    Json.get? key (.obj (withDefaults properties fields)) = Json.get? key (.obj fields) := by
  induction properties generalizing fields with
  | nil => rfl
  | cons named properties ih =>
    rw [List.map_cons, List.mem_cons, not_or] at h
    rw [withDefaults, ih h.2, get?_fill_of_ne h.1]

/-- **A field after defaulting** is its default where it was absent or null. -/
theorem get?_withDefaults (hnames : (properties.map Prod.fst).Nodup)
    (h : (key, property) ∈ properties) :
    Json.get? key (.obj (withDefaults properties fields))
      = filled property.default (Json.get? key (.obj fields)) := by
  induction properties generalizing fields with
  | nil => cases h
  | cons named properties ih =>
    rw [List.map_cons, List.nodup_cons] at hnames
    rcases List.mem_cons.mp h with rfl | h
    · rw [withDefaults, get?_withDefaults_of_not_mem hnames.1, get?_fill_self]
    · have hne : key ≠ named.1 := fun heq =>
        hnames.1 (heq ▸ List.mem_map_of_mem (f := Prod.fst) h)
      rw [withDefaults, ih hnames.2 h, get?_fill_of_ne hne]

/-! ### Validation -/

/-- A value of the type that keeps the bounds. -/
def Kind.admits : Kind → Json → Bool
  | .int32 minimum, .num n => decide (IsInt32 n) && minimum.all (fun low => decide (low ≤ n))
  | .string minLength, .str s => decide (minLength ≤ s.length)
  | _, _ => false

/-- Every field is what the schema says, and what is required is there. -/
def Schema.admits (schema : Schema) (fields : Fields) : Bool :=
  (schema.properties.all fun named =>
    (Json.get? named.1 (.obj fields)).all named.2.kind.admits) &&
      schema.required.all fun key => (Json.get? key (.obj fields)).isSome

theorem Schema.admits_iff {schema : Schema} : schema.admits fields = true ↔
    (∀ named ∈ schema.properties, ∀ value, Json.get? named.1 (.obj fields) = some value →
      named.2.kind.admits value = true) ∧
    ∀ key ∈ schema.required, (Json.get? key (.obj fields)).isSome = true := by
  simp only [Schema.admits, Bool.and_eq_true, List.all_eq_true, Option.all_eq_true]

/-- **Defaults that are valid themselves** leave what is valid valid. -/
theorem Schema.admits_withDefaults {schema : Schema}
    (hnames : (schema.properties.map Prod.fst).Nodup)
    (hdefaults : ∀ named ∈ schema.properties, ∀ default, named.2.default = some default →
      named.2.kind.admits default = true)
    (h : schema.admits fields = true) :
    schema.admits (withDefaults schema.properties fields) = true := by
  rw [Schema.admits_iff] at h ⊢
  obtain ⟨hfields, hrequired⟩ := h
  refine ⟨?_, ?_⟩
  · intro named hnamed value hvalue
    rw [get?_withDefaults hnames hnamed] at hvalue
    unfold filled at hvalue
    split at hvalue
    · next default hdefault _ =>
      exact hdefaults named hnamed value (hdefault.trans hvalue)
    · next default hdefault _ =>
      exact hdefaults named hnamed value (hdefault.trans hvalue)
    · exact hfields named hnamed value hvalue
  · intro key hkey
    obtain ⟨value, hvalue⟩ := Option.isSome_iff_exists.mp (hrequired key hkey)
    by_cases hmem : key ∈ schema.properties.map Prod.fst
    · obtain ⟨named, hnamed, rfl⟩ := List.mem_map.mp hmem
      rw [get?_withDefaults hnames hnamed, hvalue]
      unfold filled
      split <;> rfl
    · rw [get?_withDefaults_of_not_mem hmem, hvalue]
      rfl

/-- What is stored of an object that is written: its fields with the defaults, if they pass the
validation. -/
def Schema.store (schema : Schema) : Json → Option Json
  | .obj fields =>
    if schema.admits (withDefaults schema.properties fields) then
      some (.obj (withDefaults schema.properties fields))
    else none
  | _ => none

end Structural
