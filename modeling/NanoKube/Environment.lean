import NanoKube.Engine
import NanoKube.PyInt
import NanoKube.SpecCodec

/-!
# From the spec to the settings of the server

The controller puts `spec.model` and `spec.maxBatchSize` into the environment of the
container, as text; the server reads its settings from there when it starts.  Other
variables come from the image, where those of the controller win.

Kubernetes expands references such as `$(NAME)` in the values, and Python knows more digits
than those of ASCII.  Of both only what is documented is used: `Expander` and
`Python.CharData` carry it.

## Main definitions

* `environ` — the environment of a container.
* `Settings`, `Settings.ofEnviron` — the settings, and how they are read.
* `Settings.servesReal` — whether there is a model to load.

## Main results

* `settings_of_container` — the settings of a container the controller made are those of its spec.
-/

namespace NanoKube

/-! ### The container -/

/-- The expansion of references in a value, given the variables there are: a value without a dollar
sign stays as it is. -/
structure Expander where
  expand : (Text → Option Text) → Text → Text
  expand_plain : ∀ vars value, '$' ∉ value → expand vars value = value

/-- No reference is known, and none is there. -/
def Expander.keep : Expander where
  expand _ value := value
  expand_plain _ _ _ := rfl

/-- One more variable.  Its value may refer to those there are. -/
def setVar (E : Expander) (vars : Text → Option Text) (var : String × String) :
    Text → Option Text := fun key =>
  if key = var.1.toList then some (E.expand vars var.2.toList) else vars key

/-- The environment of a container: its own variables, in order, over those of the image. -/
def environ (E : Expander) (image : Text → Option Text) (env : List (String × String)) :
    Text → Option Text := env.foldl (setVar E) image

/-! ### The settings -/

/-- `MOCK_MODEL_PREFIX`. -/
def mockModelPrefix : Text := "mock/".toList

/-- `Settings`, but for the time a load takes. -/
structure Settings where
  modelName : Text
  modelId : Text
  maxBatchSize : ℤ
  maxBatchTokens : ℤ
  enableThinking : Bool
  deriving DecidableEq

namespace Settings

/-- `os.environ.get`. -/
def get (vars : Text → Option Text) (key default : String) : Text :=
  (vars key.toList).getD default.toList

/-- `Settings()`; `none` when a number cannot be read. -/
def ofEnviron (D : Python.CharData) (vars : Text → Option Text) : Option Settings := do
  let maxBatchSize ← D.int (get vars "MAX_BATCH_SIZE" "8")
  let maxBatchTokens ← D.int (get vars "MAX_BATCH_TOKENS" "8192")
  return {
    modelName := get vars "MODEL_NAME" "unknown"
    modelId := get vars "MODEL_ID" ""
    maxBatchSize
    maxBatchTokens
    enableThinking := (get vars "ENABLE_THINKING" "").map Char.toLower = "true".toList }

/-- There is a model to load: one is named, and it is not a mock. -/
def servesReal (settings : Settings) : Bool :=
  settings.modelId ≠ [] && !mockModelPrefix.isPrefixOf settings.modelId

end Settings

/-- The defaults are what an empty environment is read as. -/
example : Settings.ofEnviron Python.asciiData (fun _ => none)
    = some ⟨"unknown".toList, [], 8, 8192, false⟩ := by
  decide

/-! ### The way of a spec -/

section Container

variable {E : Expander} {image : Text → Option Text} {D : Python.CharData} {ms : ModelServer}

/-- A number of type `int32` is short. -/
theorem length_toDigits_of_isInt32 {n : ℤ} (h : Structural.IsInt32 n) :
    (Nat.toDigits 10 n.natAbs).length ≤ 4300 := by
  have hle : (Nat.toDigits 10 n.natAbs).length ≤ 10 := by
    rw [Nat.length_toDigits_le_iff (by omega) (by omega)]
    obtain ⟨hlow, hhigh⟩ := h
    omega
  omega

/-- The decimal form of a number has no dollar sign. -/
theorem dollar_not_mem_toString (n : ℤ) : '$' ∉ (toString n).toList := by
  have hdigits : ∀ m : ℕ, '$' ∉ Nat.toDigits 10 m :=
    fun m hmem => absurd (Python.CharData.isDigit_toDigits _ hmem) (by decide)
  cases n with
  | ofNat n =>
    have hform : (toString (Int.ofNat n)).toList = Nat.toDigits 10 n := Nat.toList_repr
    rw [hform]
    exact hdigits n
  | negSucc n =>
    have hform : (toString (Int.negSucc n)).toList = '-' :: Nat.toDigits 10 (n + 1) := by
      show ("-" ++ Nat.repr (n + 1)).toList = _
      rw [String.toList_append, Nat.toList_repr]
      rfl
    rw [hform, List.mem_cons]
    rintro (hc | hc)
    · exact absurd hc (by decide)
    · exact hdigits _ hc

theorem setVar_self {vars : Text → Option Text} {name value : String} (h : '$' ∉ value.toList) :
    setVar E vars (name, value) name.toList = some value.toList := by
  rw [setVar, if_pos rfl, E.expand_plain _ _ h]

theorem setVar_of_ne {vars : Text → Option Text} {name value : String} {key : Text}
    (h : key ≠ name.toList) : setVar E vars (name, value) key = vars key := if_neg h

/-- The three variables of the container are what the controller wrote. -/
theorem environ_serverContainer (E : Expander) (image : Text → Option Text)
    (hplain : '$' ∉ ms.spec.model.toList) :
    let vars := environ E image (serverContainer ms).env
    vars "MODEL_ID".toList = some ms.spec.model.toList ∧
      vars "MODEL_NAME".toList = some ms.spec.model.toList ∧
      vars "MAX_BATCH_SIZE".toList = some (toString ms.spec.maxBatchSize).toList := by
  have hid : "MODEL_ID".toList ≠ "MODEL_NAME".toList := by decide
  have hid' : "MODEL_ID".toList ≠ "MAX_BATCH_SIZE".toList := by decide
  have hname : "MODEL_NAME".toList ≠ "MAX_BATCH_SIZE".toList := by decide
  refine ⟨?_, ?_, ?_⟩
  · exact (setVar_of_ne hid').trans ((setVar_of_ne hid).trans (setVar_self hplain))
  · exact (setVar_of_ne hname).trans (setVar_self hplain)
  · exact setVar_self (dollar_not_mem_toString _)

/-- A name is a mock's when it begins like one. -/
theorem servesReal_iff (settings : Settings) :
    settings.servesReal = true ↔
      settings.modelId ≠ [] ∧ ¬ mockModelPrefix <+: settings.modelId := by
  simp [Settings.servesReal, ← Bool.not_eq_true]

/-- **The settings of a server are those of its spec**: the name and the id of the model, and the
size of a batch, whatever the image has set; and there is a model to load unless the spec names
a mock. -/
theorem settings_of_container {settings : Settings} (hspec : ms.spec.Admitted)
    (htyped : ms.spec.Typed) (hplain : '$' ∉ ms.spec.model.toList)
    (h : Settings.ofEnviron D (environ E image (serverContainer ms).env) = some settings) :
    settings.modelId = ms.spec.model.toList ∧ settings.modelName = ms.spec.model.toList ∧
      settings.maxBatchSize = ms.spec.maxBatchSize ∧
      (settings.servesReal = true ↔ ¬ mockModelPrefix <+: ms.spec.model.toList) := by
  obtain ⟨hid, hname, hsize⟩ := environ_serverContainer E image hplain
  have hread : D.int (Settings.get (environ E image (serverContainer ms).env) "MAX_BATCH_SIZE" "8")
      = some ms.spec.maxBatchSize := by
    rw [Settings.get, hsize, Option.getD_some]
    exact Python.CharData.int_toString (length_toDigits_of_isInt32 htyped.maxBatchSize)
  simp only [Settings.ofEnviron, hread, Option.bind_eq_bind, Option.bind_some,
    Option.bind_eq_some_iff] at h
  obtain ⟨tokens, -, h⟩ := h
  obtain rfl := Option.some.inj h
  have hne : ms.spec.model.toList ≠ [] := fun hnil => hspec.model (String.toList_eq_nil_iff.mp hnil)
  have hmodel : Settings.get (environ E image (serverContainer ms).env) "MODEL_ID" ""
      = ms.spec.model.toList := by rw [Settings.get, hid, Option.getD_some]
  refine ⟨hmodel, by rw [Settings.get, hname, Option.getD_some], rfl, ?_⟩
  rw [servesReal_iff]
  dsimp only
  rw [hmodel]
  exact and_iff_right hne

end Container

end NanoKube
