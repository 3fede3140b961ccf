import NanoKube.Naming
import NanoKube.StructuralSchema

/-!
# A spec on its way through the API server

A client that writes a ModelServer encodes the Go type by the tags of its fields, which
leave out what is zero; the API server sets the defaults of the schema and validates; and
the client decodes what was stored.  So a zero comes back as the default of its field.

## Main definitions

* `ModelServerSpec.toJson`, `ModelServerSpec.ofJson` — the Go type, by its tags.
* `specSchema` — the schema of the resource definition.
* `roundTrip` — what a client reads after writing a spec.

## Main results

* `roundTrip_eq` — what becomes of a valid spec.
* `spec_survives_iff` — which of them are read as they were written.
-/

namespace NanoKube

open Structural

/-! ### The Go type -/

/-- The fields that Go holds as `int32` are in its range. -/
structure ModelServerSpec.Typed (spec : ModelServerSpec) : Prop where
  replicas : IsInt32 spec.replicas
  gpus : IsInt32 spec.gpus
  maxBatchSize : IsInt32 spec.maxBatchSize

/-- `omitempty`: a field that is zero is left out. -/
def omitEmpty (key : String) (zero : Bool) (value : Json) : Fields :=
  if zero then [] else [(key.toList, value)]

/-- The fields of a `ModelServerSpec`, by their tags. -/
def ModelServerSpec.fields (spec : ModelServerSpec) : Fields :=
  [("model".toList, .str spec.model.toList)]
    ++ omitEmpty "replicas" (spec.replicas = 0) (.num spec.replicas)
    ++ omitEmpty "image" (spec.image = "") (.str spec.image.toList)
    ++ omitEmpty "gpus" (spec.gpus = 0) (.num spec.gpus)
    ++ omitEmpty "maxBatchSize" (spec.maxBatchSize = 0) (.num spec.maxBatchSize)

/-- `json.Marshal`. -/
def ModelServerSpec.toJson (spec : ModelServerSpec) : Json := .obj spec.fields

/-- A field of type `int32`; absent and null leave it zero. -/
def readInt32 : Option Json → Option ℤ
  | none => some 0
  | some .null => some 0
  | some (.num n) => if IsInt32 n then some n else none
  | some _ => none

/-- A field of type `string`. -/
def readString : Option Json → Option String
  | none => some ""
  | some .null => some ""
  | some (.str s) => some (String.ofList s)
  | some _ => none

/-- `json.Unmarshal`. -/
def ModelServerSpec.ofJson : Json → Option ModelServerSpec
  | .obj fields => do
    let model ← readString (Json.get? "model".toList (.obj fields))
    let replicas ← readInt32 (Json.get? "replicas".toList (.obj fields))
    let image ← readString (Json.get? "image".toList (.obj fields))
    let gpus ← readInt32 (Json.get? "gpus".toList (.obj fields))
    let maxBatchSize ← readInt32 (Json.get? "maxBatchSize".toList (.obj fields))
    return { model, replicas, image, gpus, maxBatchSize }
  | .null => some { model := "", replicas := 0, image := "", gpus := 0, maxBatchSize := 0 }
  | _ => none

/-! ### The resource definition -/

/-- The schema of `spec`. -/
def specSchema : Schema where
  properties := [
    ("gpus".toList, { kind := .int32 (some 0) }),
    ("image".toList,
      { kind := .string 0, default := some (.str "modelserver-mock:latest".toList) }),
    ("maxBatchSize".toList, { kind := .int32 (some 1), default := some (.num 8) }),
    ("model".toList, { kind := .string 1 }),
    ("replicas".toList, { kind := .int32 (some 0), default := some (.num 1) })]
  required := ["model".toList]

/-- What a client reads after it wrote a spec. -/
def roundTrip (spec : ModelServerSpec) : Option ModelServerSpec :=
  (specSchema.store spec.toJson).bind ModelServerSpec.ofJson

theorem nodup_properties : (specSchema.properties.map Prod.fst).Nodup := by decide

/-- **Every default passes its own check.** -/
theorem admits_defaults : ∀ named ∈ specSchema.properties, ∀ default,
    named.2.default = some default → named.2.kind.admits default = true := by
  have hall : ∀ named ∈ specSchema.properties,
      named.2.default.all named.2.kind.admits = true := by
    simp only [specSchema, List.forall_mem_cons]
    decide
  intro named hnamed default hdefault
  have hone := hall named hnamed
  rw [hdefault] at hone
  exact hone

variable {spec : ModelServerSpec}

/-! ### One field -/

theorem get?_omitEmpty_self (key : String) (zero : Bool) (value : Json) :
    Json.get? key.toList (.obj (omitEmpty key zero value)) = if zero then none else some value := by
  cases zero <;> simp [omitEmpty]

theorem get?_omitEmpty_of_ne {key other : String} (h : other ≠ key) (zero : Bool) (value : Json) :
    Json.get? other.toList (.obj (omitEmpty key zero value)) = none := by
  have hne : other.toList ≠ key.toList := fun heq => h (String.toList_inj.mp heq)
  cases zero with
  | true => rfl
  | false => exact Json.get?_singleton_of_ne hne

/-- **A number comes back**, unless it is zero and its default is not. -/
theorem readInt32_filled {n : ℤ} (hn : IsInt32 n) (default : Option ℤ)
    (hdefault : ∀ d ∈ default, IsInt32 d) :
    readInt32 (filled (default.map Json.num) (if decide (n = 0) then none else some (.num n)))
      = some (if n = 0 then default.getD 0 else n) := by
  by_cases hzero : n = 0
  · cases default with
    | none => simp [hzero, filled, readInt32]
    | some d => simp [hzero, filled, readInt32, hdefault d rfl]
  · cases default <;> simp [hzero, filled, readInt32, hn]

/-- The same, for a text. -/
theorem readString_filled (s : String) (default : Option String) :
    readString (filled (default.map fun d => Json.str d.toList)
        (if decide (s = "") then none else some (.str s.toList)))
      = some (if s = "" then default.getD "" else s) := by
  by_cases hzero : s = ""
  · cases default <;> simp [hzero, filled, readString]
  · cases default <;> simp [hzero, filled, readString]

/-! ### All of them -/

theorem get?_fields (spec : ModelServerSpec) :
    Json.get? "model".toList (.obj spec.fields) = some (.str spec.model.toList) ∧
    Json.get? "replicas".toList (.obj spec.fields)
      = (if decide (spec.replicas = 0) then none else some (.num spec.replicas)) ∧
    Json.get? "image".toList (.obj spec.fields)
      = (if decide (spec.image = "") then none else some (.str spec.image.toList)) ∧
    Json.get? "gpus".toList (.obj spec.fields)
      = (if decide (spec.gpus = 0) then none else some (.num spec.gpus)) ∧
    Json.get? "maxBatchSize".toList (.obj spec.fields)
      = (if decide (spec.maxBatchSize = 0) then none else some (.num spec.maxBatchSize)) := by
  have hmodel : ∀ key : String, key ≠ "model" →
      Json.get? key.toList (.obj [("model".toList, .str spec.model.toList)]) = none := by
    intro key hne
    exact Json.get?_singleton_of_ne fun heq => hne (String.toList_inj.mp heq)
  simp (disch := decide) only [ModelServerSpec.fields, Json.get?_append, get?_omitEmpty_self,
    get?_omitEmpty_of_ne, hmodel, Json.get?_singleton_self, Option.or_none, Option.none_or,
    and_self]

theorem admits_number {n low : ℤ} (hn : IsInt32 n) (hlow : low ≤ n) :
    (if decide (n = 0) then none else some (Json.num n)).all (Kind.int32 (some low)).admits
      = true := by
  by_cases hzero : n = 0
  · simp [hzero]
  · simp [hzero, Kind.admits, hn, hlow]

/-- What is written of a valid spec is valid. -/
theorem admits_fields (hspec : spec.Admitted) (htyped : spec.Typed) :
    specSchema.admits spec.fields = true := by
  obtain ⟨hmodel, hreplicas, himage, hgpus, hsize⟩ := get?_fields spec
  have htext : (if decide (spec.image = "") then none else some (Json.str spec.image.toList)).all
      (Kind.string 0).admits = true := by
    by_cases hzero : spec.image = ""
    · simp [hzero]
    · simp [hzero, Kind.admits]
  have hname : (Kind.string 1).admits (.str spec.model.toList) = true := by
    have hpos : 0 < spec.model.toList.length :=
      List.length_pos_iff.mpr fun hnil => hspec.model (String.toList_eq_nil_iff.mp hnil)
    exact decide_eq_true hpos
  simp only [Schema.admits, specSchema, List.all_cons, List.all_nil, hmodel, hreplicas, himage,
    hgpus, hsize, htext, Option.all_some, hname, Option.isSome_some, Bool.and_true,
    admits_number htyped.gpus hspec.gpus, admits_number htyped.maxBatchSize hspec.maxBatchSize,
    admits_number htyped.replicas hspec.replicas]

/-- **What becomes of a valid spec**: a zero is read as the default of its field. -/
theorem roundTrip_eq (hspec : spec.Admitted) (htyped : spec.Typed) :
    roundTrip spec = some { spec with
      replicas := if spec.replicas = 0 then 1 else spec.replicas
      image := if spec.image = "" then "modelserver-mock:latest" else spec.image } := by
  obtain ⟨hmodel, hreplicas, himage, hgpus, hsize⟩ := get?_fields spec
  have hadmits := Schema.admits_withDefaults nodup_properties admits_defaults
    (admits_fields hspec htyped)
  have hread : ∀ named ∈ specSchema.properties,
      Json.get? named.1 (.obj (withDefaults specSchema.properties spec.fields))
        = filled named.2.default (Json.get? named.1 (.obj spec.fields)) :=
    fun named hnamed => get?_withDefaults nodup_properties hnamed
  rw [roundTrip, ModelServerSpec.toJson, Schema.store, if_pos hadmits, Option.bind_some]
  generalize withDefaults specSchema.properties spec.fields = stored at hread ⊢
  -- the five fields, in the order of the schema
  simp only [specSchema, List.forall_mem_cons, hmodel, hreplicas, himage, hgpus, hsize] at hread
  obtain ⟨hgpus', himage', hsize', hmodel', hreplicas', -⟩ := hread
  have hone := readInt32_filled htyped.replicas (some 1) (by decide)
  have height := readInt32_filled htyped.maxBatchSize (some 8) (by decide)
  have hcpu := readInt32_filled htyped.gpus none (by decide)
  have hmock := readString_filled spec.image (some "modelserver-mock:latest")
  have hname : readString (filled none (some (.str spec.model.toList))) = some spec.model := by
    simp [filled, readString]
  have hsize0 : spec.maxBatchSize ≠ 0 := by
    have hpos := hspec.maxBatchSize
    omega
  have hgpus0 : (if spec.gpus = 0 then 0 else spec.gpus) = spec.gpus := by
    split <;> simp_all
  simp only [Option.map_some, Option.map_none, Option.getD_some, Option.getD_none, hgpus0,
    if_neg hsize0] at hone height hcpu hmock
  simp only [ModelServerSpec.ofJson, hmodel', hreplicas', himage', hgpus', hsize', hone, height,
    hcpu, hmock, hname, Option.bind_eq_bind, Option.bind_some, Option.pure_def]

/-- **Which specs survive.**  A spec that the schema admits, with an image, is read as it was
written if and only if it asks for at least one replica: no other field has a zero that is
both valid and not its default. -/
theorem spec_survives_iff (hspec : spec.Admitted) (htyped : spec.Typed) (himage : spec.image ≠ "") :
    roundTrip spec = some spec ↔ spec.replicas ≠ 0 := by
  rw [roundTrip_eq hspec htyped, if_neg himage]
  constructor
  · intro hsame hzero
    have hreplicas := congrArg ModelServerSpec.replicas (Option.some.inj hsame)
    rw [if_pos hzero, hzero] at hreplicas
    cases hreplicas
  · intro hpos
    rw [if_neg hpos]

/-- The spec of the sample with a real model. -/
def qwen3Spec : ModelServerSpec where
  model := "Qwen/Qwen3-0.6B"
  replicas := 1
  image := "modelserver-qwen:latest"
  gpus := 0
  maxBatchSize := 16

theorem spec_survives_iff_qwen3 : roundTrip qwen3Spec = some qwen3Spec := by
  have hspec : qwen3Spec.Admitted := ⟨by decide, by decide, by decide, by decide⟩
  have htyped : qwen3Spec.Typed := ⟨by decide, by decide, by decide⟩
  exact (spec_survives_iff hspec htyped (by decide)).mpr (by decide)

/-- A server scaled to zero runs one replica once a Go client has written it. -/
theorem zero_replicas_come_back_as_one :
    let spec : ModelServerSpec := { model := "Qwen/Qwen3-0.6B", replicas := 0 }
    spec.Admitted ∧ spec.Typed ∧ spec.image ≠ "" ∧
      roundTrip spec = some { spec with replicas := 1 } ∧ roundTrip spec ≠ some spec := by
  intro spec
  have hspec : spec.Admitted := ⟨by decide, by decide, by decide, by decide⟩
  have htyped : spec.Typed := ⟨by decide, by decide, by decide⟩
  have hread : roundTrip spec = some { spec with replicas := 1 } := roundTrip_eq hspec htyped
  refine ⟨hspec, htyped, by decide, hread, ?_⟩
  rw [hread]
  decide

end NanoKube
