import Mathlib.Data.Int.Notation
import Mathlib.Data.List.Basic

/-!
# The ModelServer resource

The API types of the operator, and what its controller makes of one resource: the
Deployment and the Service it applies, and the status it reports.

`meta.SetStatusCondition` belongs to a library.  The controller relies on its documented
contract, which is what `ConditionSetter` carries.

## Main definitions

* `ModelServer` — the resource; `buildDeployment`, `desiredService` — the objects it owns.
* `ConditionSetter` — a function that keeps the contract of `meta.SetStatusCondition`.
* `updateStatus` — the status written for a resource, given its Deployment.

## Main results

* `ConditionSetter.findCondition_set` — the condition that was set is the one found afterwards.
* `available_computeStatus`, `phase_computeStatus` — when a resource is reported ready.
* `computeStatus_unchanged` — no write is skipped that would change the status.
-/

namespace NanoKube

/-! ### Conditions -/

/-- A time; 0 is the zero value. -/
abbrev Time := ℕ

/-- `metav1.ConditionStatus`. -/
inductive ConditionStatus
  | conditionTrue
  | conditionFalse
  | conditionUnknown
  deriving DecidableEq

/-- `metav1.Condition`. -/
structure Condition where
  type : String
  status : ConditionStatus
  observedGeneration : ℤ := 0
  lastTransitionTime : Time := 0
  reason : String
  message : String := ""
  deriving DecidableEq

namespace Condition

/-- The time of a transition: the one the condition brings, or else the current one. -/
def transition (now : Time) (new : Condition) : Time :=
  if new.lastTransitionTime = 0 then now else new.lastTransitionTime

/-- A condition that is new. -/
def stamped (now : Time) (new : Condition) : Condition :=
  { new with lastTransitionTime := new.transition now }

/-- A condition overwritten by another of its type: the time moves only with the status. -/
def merge (now : Time) (old new : Condition) : Condition :=
  { new with
    lastTransitionTime :=
      if old.status = new.status then old.lastTransitionTime else new.transition now }

end Condition

/-- `meta.SetStatusCondition`, by its contract: the conditions afterwards, and whether anything
changed.  A condition of a new type is appended; otherwise the first of its type is overwritten. -/
structure ConditionSetter where
  set : Time → List Condition → Condition → List Condition × Bool
  appended : ∀ (now : Time) (cs : List Condition) (new : Condition),
    (∀ c ∈ cs, c.type ≠ new.type) → set now cs new = (cs ++ [new.stamped now], true)
  overwritten : ∀ (now : Time) (before after : List Condition) (old new : Condition),
    (∀ c ∈ before, c.type ≠ new.type) → old.type = new.type →
    set now (before ++ old :: after) new
      = (before ++ old.merge now new :: after, decide (old.merge now new ≠ old))

/-- The first condition of a type. -/
def findCondition (cs : List Condition) (type : String) : Option Condition :=
  cs.find? fun c => c.type == type

namespace ConditionSetter

variable {S : ConditionSetter} {now : Time} {cs : List Condition} {new : Condition} {type : String}

theorem type_ne_or_split (cs : List Condition) (type : String) :
    (∀ c ∈ cs, c.type ≠ type) ∨ ∃ before old after, cs = before ++ old :: after ∧
      (∀ c ∈ before, c.type ≠ type) ∧ old.type = type := by
  induction cs with
  | nil => exact Or.inl (by simp)
  | cons c cs ih =>
    by_cases hc : c.type = type
    · exact Or.inr ⟨[], c, cs, rfl, by simp, hc⟩
    · rcases ih with hno | ⟨before, old, after, rfl, hbefore, hold⟩
      · exact Or.inl (List.forall_mem_cons.mpr ⟨hc, hno⟩)
      · exact Or.inr ⟨c :: before, old, after, rfl, List.forall_mem_cons.mpr ⟨hc, hbefore⟩, hold⟩

theorem findCondition_eq_none (h : ∀ c ∈ cs, c.type ≠ type) : findCondition cs type = none := by
  simpa [findCondition] using h

theorem findCondition_append (h : ∀ c ∈ cs, c.type ≠ type) (rest : List Condition) :
    findCondition (cs ++ rest) type = findCondition rest type := by
  rw [findCondition, List.find?_append, ← findCondition, findCondition_eq_none h, Option.none_or]
  rfl

/-- **The condition that was set is found afterwards**, but for its time. -/
theorem findCondition_set (S : ConditionSetter) (now : Time) (cs : List Condition)
    (new : Condition) : ∃ time, findCondition (S.set now cs new).1 new.type
      = some { new with lastTransitionTime := time } := by
  rcases type_ne_or_split cs new.type with hno | ⟨before, old, after, rfl, hbefore, hold⟩
  · refine ⟨new.transition now, ?_⟩
    rw [S.appended now cs new hno, findCondition_append hno]
    simp [findCondition, Condition.stamped]
  · refine ⟨(old.merge now new).lastTransitionTime, ?_⟩
    rw [S.overwritten now before after old new hbefore hold, findCondition_append hbefore]
    simp [findCondition, Condition.merge]

/-- Conditions of other types stay. -/
theorem findCondition_set_of_ne (S : ConditionSetter) (now : Time) (cs : List Condition)
    (h : type ≠ new.type) :
    findCondition (S.set now cs new).1 type = findCondition cs type := by
  have hne : (new.type == type) = false := by simpa using h.symm
  rcases type_ne_or_split cs new.type with hno | ⟨before, old, after, rfl, hbefore, hold⟩
  · rw [S.appended now cs new hno, findCondition, List.find?_append]
    simp [findCondition, Condition.stamped, hne]
  · rw [S.overwritten now before after old new hbefore hold, findCondition, findCondition,
      List.find?_append, List.find?_append, List.find?_cons, List.find?_cons]
    simp [Condition.merge, hne, hold]

/-- What is reported unchanged is unchanged. -/
theorem set_unchanged (h : (S.set now cs new).2 = false) : (S.set now cs new).1 = cs := by
  rcases type_ne_or_split cs new.type with hno | ⟨before, old, after, rfl, hbefore, hold⟩
  · rw [S.appended now cs new hno] at h
    cases h
  · rw [S.overwritten now before after old new hbefore hold] at h ⊢
    have hsame : old.merge now new = old := by simpa using h
    rw [hsame]

end ConditionSetter

/-- `meta.SetStatusCondition`, written out. -/
def setStatusCondition (now : Time) (new : Condition) : List Condition → List Condition × Bool
  | [] => ([new.stamped now], true)
  | c :: cs =>
    if c.type = new.type then (c.merge now new :: cs, decide (c.merge now new ≠ c))
    else (c :: (setStatusCondition now new cs).1, (setStatusCondition now new cs).2)

/-- It keeps its contract. -/
def metaSetStatusCondition : ConditionSetter where
  set now cs new := setStatusCondition now new cs
  appended now cs new h := by
    induction cs with
    | nil => rfl
    | cons c cs ih =>
      rw [List.forall_mem_cons] at h
      rw [setStatusCondition, if_neg h.1, ih h.2]
      rfl
  overwritten now before after old new h hold := by
    induction before with
    | nil => rw [List.nil_append, setStatusCondition, if_pos hold, List.nil_append]
    | cons c before ih =>
      rw [List.forall_mem_cons] at h
      rw [List.cons_append, setStatusCondition, if_neg h.1, ih h.2]
      rfl

/-! ### The resource -/

/-- `ModelServerSpec`. -/
structure ModelServerSpec where
  model : String
  replicas : ℤ := 1
  image : String := "modelserver-mock:latest"
  gpus : ℤ := 0
  maxBatchSize : ℤ := 8
  deriving DecidableEq

/-- The phases the schema allows. -/
inductive ServerPhase
  | pending
  | loading
  | ready
  deriving DecidableEq

/-- `ModelServerStatus`; the phase is `none` before the first write. -/
structure ModelServerStatus where
  conditions : List Condition := []
  readyReplicas : ℤ := 0
  observedGeneration : ℤ := 0
  phase : Option ServerPhase := none
  deriving DecidableEq

/-- `ModelServer`, with the metadata the controller reads. -/
structure ModelServer where
  name : String
  nameSpace : String
  uid : String
  generation : ℤ
  resourceVersion : ℕ
  spec : ModelServerSpec
  status : ModelServerStatus
  deriving DecidableEq

/-- `ConditionTypeAvailable`. -/
def conditionTypeAvailable : String := "Available"

/-- `ConditionTypeProgressing`. -/
def conditionTypeProgressing : String := "Progressing"

/-- The condition `Available` is true. -/
def ModelServerStatus.Available (status : ModelServerStatus) : Prop :=
  (findCondition status.conditions conditionTypeAvailable).map Condition.status
    = some .conditionTrue

instance (status : ModelServerStatus) : Decidable status.Available :=
  inferInstanceAs (Decidable (_ = _))

/-! ### The objects it owns -/

/-- A set of labels. -/
abbrev Labels := List (String × String)

/-- `OwnerReference`. -/
structure OwnerReference where
  apiVersion : String
  kind : String
  name : String
  uid : String
  controller : Bool
  blockOwnerDeletion : Bool
  deriving DecidableEq

/-- An HTTP probe. -/
structure Probe where
  path : String
  port : ℤ
  periodSeconds : ℤ
  failureThreshold : Option ℤ := none
  deriving DecidableEq

/-- `Container`. -/
structure Container where
  name : String
  image : String
  imagePullPolicy : String
  ports : List ℤ
  env : List (String × String)
  startupProbe : Probe
  livenessProbe : Probe
  readinessProbe : Probe
  limits : Option (List (String × ℤ)) := none
  deriving DecidableEq

/-- `PodTemplateSpec`: what pods are made from. -/
structure PodTemplate where
  labels : Labels
  containers : List Container
  deriving DecidableEq

/-- The Deployment the controller applies. -/
structure Deployment where
  name : String
  nameSpace : String
  labels : Labels
  ownerReferences : List OwnerReference
  replicas : ℤ
  selector : Labels
  template : PodTemplate
  deriving DecidableEq

/-- The Service the controller applies; a port goes with its target port. -/
structure Service where
  name : String
  nameSpace : String
  labels : Labels
  ownerReferences : List OwnerReference
  selector : Labels
  ports : List (ℤ × ℤ)
  deriving DecidableEq

/-- `gpuResourceName`. -/
def gpuResourceName : String := "nvidia.com/gpu"

/-- `instanceLabelKey`. -/
def instanceLabelKey : String := "serving.fanzhangg.dev/instance"

/-- `appLabelKey`. -/
def appLabelKey : String := "app"

/-- `appLabelValue`. -/
def appLabelValue : String := "modelserver"

/-- `ownerRef`. -/
def ownerRef (ms : ModelServer) : OwnerReference where
  apiVersion := "serving.fanzhangg.dev/v1alpha1"
  kind := "ModelServer"
  name := ms.name
  uid := ms.uid
  controller := true
  blockOwnerDeletion := true

/-- `instanceLabels`. -/
def instanceLabels (ms : ModelServer) : Labels :=
  [(appLabelKey, appLabelValue), (instanceLabelKey, ms.name)]

/-- The container of `buildDeployment`: three probes of one endpoint, and limits only when GPUs
are requested. -/
def serverContainer (ms : ModelServer) : Container where
  name := "server"
  image := ms.spec.image
  imagePullPolicy := "IfNotPresent"
  ports := [8000]
  env := [("MODEL_ID", ms.spec.model), ("MODEL_NAME", ms.spec.model),
    ("MAX_BATCH_SIZE", toString ms.spec.maxBatchSize)]
  startupProbe := ⟨"/health", 8000, 5, some 120⟩
  livenessProbe := ⟨"/health", 8000, 10, some 3⟩
  readinessProbe := ⟨"/health", 8000, 3, none⟩
  limits := if 0 < ms.spec.gpus then some [(gpuResourceName, ms.spec.gpus)] else none

/-- `buildDeployment`. -/
def buildDeployment (ms : ModelServer) : Deployment where
  name := ms.name
  nameSpace := ms.nameSpace
  labels := instanceLabels ms
  ownerReferences := [ownerRef ms]
  replicas := ms.spec.replicas
  selector := instanceLabels ms
  template := ⟨instanceLabels ms, [serverContainer ms]⟩

/-- The Service of `reconcileService`. -/
def desiredService (ms : ModelServer) : Service where
  name := ms.name
  nameSpace := ms.nameSpace
  labels := instanceLabels ms
  ownerReferences := [ownerRef ms]
  selector := [(instanceLabelKey, ms.name)]
  ports := [(8000, 8000)]

/-! ### The status -/

/-- The part of `DeploymentStatus` that is read. -/
structure DeploymentStatus where
  replicas : ℤ := 0
  readyReplicas : ℤ := 0
  deriving DecidableEq

/-- What getting the Deployment comes to. -/
inductive DeploymentLookup
  | found (status : DeploymentStatus)
  | notFound
  | failed

/-- Enough replicas are reported ready. -/
def replicasReady (ms : ModelServer) (deploy : Option DeploymentStatus) : Prop :=
  ∃ d ∈ deploy, ms.spec.replicas ≤ d.readyReplicas

instance (ms : ModelServer) : ∀ deploy, Decidable (replicasReady ms deploy)
  | none => isFalse (by simp [replicasReady])
  | some d => decidable_of_iff (ms.spec.replicas ≤ d.readyReplicas) (by simp [replicasReady])

/-- The condition `Available`, as `updateStatus` sets it. -/
def availableCondition (ms : ModelServer) (deploy : Option DeploymentStatus) : Condition where
  type := conditionTypeAvailable
  status := if replicasReady ms deploy then .conditionTrue else .conditionFalse
  reason :=
    match deploy with
    | none => "DeploymentNotFound"
    | some _ => if replicasReady ms deploy then "AllReplicasReady" else "ReplicasNotReady"
  message := toString ((deploy.map DeploymentStatus.readyReplicas).getD 0) ++ "/"
    ++ toString ms.spec.replicas ++ " replicas ready"

/-- The condition `Progressing`, as `updateStatus` sets it. -/
def progressingCondition (ms : ModelServer) (deploy : Option DeploymentStatus) : Condition where
  type := conditionTypeProgressing
  status := if replicasReady ms deploy then .conditionFalse else .conditionTrue
  reason := if replicasReady ms deploy then "AllReplicasReady" else "Reconciling"

/-- The phase, as `updateStatus` sets it. -/
def serverPhase (ms : ModelServer) (deploy : Option DeploymentStatus) : ServerPhase :=
  if (deploy.map DeploymentStatus.replicas).getD 0 = 0 then .pending
  else if replicasReady ms deploy then .ready
  else .loading

/-- What `updateStatus` does with the Deployment it got: the status, and whether it changed.  The
two conditions are set at two times. -/
def computeStatus (S : ConditionSetter) (now now' : Time) (ms : ModelServer)
    (deploy : Option DeploymentStatus) : ModelServerStatus × Bool :=
  let available := S.set now ms.status.conditions (availableCondition ms deploy)
  let progressing := S.set now' available.1 (progressingCondition ms deploy)
  let phase := serverPhase ms deploy
  let ready := (deploy.map DeploymentStatus.readyReplicas).getD 0
  (⟨progressing.1, ready, ms.generation, some phase⟩,
    available.2 || progressing.2 || decide (ms.status.phase ≠ some phase)
      || decide (ms.status.readyReplicas ≠ ready)
      || decide (ms.status.observedGeneration ≠ ms.generation))

/-- How `updateStatus` ends, or goes on: an error, nothing to write, or the status to write. -/
inductive StatusUpdate
  | failed
  | unchanged
  | update (status : ModelServerStatus)

/-- `updateStatus`, up to the write. -/
def updateStatus (S : ConditionSetter) (now now' : Time) (ms : ModelServer) :
    DeploymentLookup → StatusUpdate
  | .failed => .failed
  | .notFound => conclude (computeStatus S now now' ms none)
  | .found status => conclude (computeStatus S now now' ms (some status))
where
  /-- `if !changed { return nil }`. -/
  conclude (computed : ModelServerStatus × Bool) : StatusUpdate :=
    if computed.2 then .update computed.1 else .unchanged

section Status

variable {S : ConditionSetter} {now now' : Time} {ms : ModelServer}
  {deploy : Option DeploymentStatus}

/-- **`Available` is what the Deployment reports**, for the replicas of the resource. -/
theorem available_computeStatus :
    (computeStatus S now now' ms deploy).1.Available ↔ replicasReady ms deploy := by
  have hne : conditionTypeAvailable ≠ conditionTypeProgressing := by decide
  obtain ⟨time, hfind⟩ :=
    S.findCondition_set now ms.status.conditions (availableCondition ms deploy)
  have hkept : findCondition (computeStatus S now now' ms deploy).1.conditions
      conditionTypeAvailable =
        some { availableCondition ms deploy with lastTransitionTime := time } :=
    (S.findCondition_set_of_ne now' _ hne).trans hfind
  rw [ModelServerStatus.Available, hkept]
  by_cases hready : replicasReady ms deploy <;> simp [availableCondition, hready]

/-- The phase is `Ready` when, besides, there are replicas at all. -/
theorem phase_computeStatus : (computeStatus S now now' ms deploy).1.phase = some .ready ↔
    replicasReady ms deploy ∧ (deploy.map DeploymentStatus.replicas).getD 0 ≠ 0 := by
  rw [computeStatus]
  dsimp only
  rw [Option.some.injEq, serverPhase]
  split
  · next hzero => simp [hzero]
  · next hsome =>
    split
    · next hready => simp [hready, hsome]
    · next hnot => simp [hnot]

/-- **No write is skipped that would change the status.** -/
theorem computeStatus_unchanged (h : (computeStatus S now now' ms deploy).2 = false) :
    (computeStatus S now now' ms deploy).1 = ms.status := by
  rw [computeStatus] at h ⊢
  dsimp only at h ⊢
  simp only [Bool.or_eq_false_iff, decide_eq_false_iff_not, Classical.not_not] at h
  obtain ⟨⟨⟨⟨havail, hprog⟩, hphase⟩, hready⟩, hgen⟩ := h
  rw [ConditionSetter.set_unchanged hprog, ConditionSetter.set_unchanged havail, ← hphase, ← hready,
    ← hgen]

end Status

end NanoKube
