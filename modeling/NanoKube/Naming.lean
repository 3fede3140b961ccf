import NanoKube.DnsName
import NanoKube.ModelServer

/-!
# What the API server accepts

The name of a ModelServer goes unchanged into the name of a Deployment, the name of a
Service, and a label that both select by; its image goes into the pod template.  Each
of these places has a grammar of its own, and the schema of the resource checks none of
them: it admits any DNS subdomain as a name, and any text as an image.  `Reconcile`
stops at the first object that is rejected, before it comes to the status.

## Main definitions

* `ModelServerSpec.Admitted` — what the schema checks.
* `admitsDeployment`, `admitsService` — the rules for the two objects.
* `reconcile` — a call of `Reconcile` for a resource that exists.

## Main results

* `reconcilable_iff` — which of the resources that are admitted come to a status.
-/

namespace NanoKube

open DnsName

/-- The validation of the schema. -/
structure ModelServerSpec.Admitted (spec : ModelServerSpec) : Prop where
  model : spec.model ≠ ""
  replicas : 0 ≤ spec.replicas
  gpus : 0 ≤ spec.gpus
  maxBatchSize : 1 ≤ spec.maxBatchSize

/-- Every label has a value that is one. -/
def admitsLabels (labels : Labels) : Bool := labels.all fun label => isLabelValue label.2.toList

/-- The rules for a Deployment: its name, its labels, a number of replicas, a selector that matches
the labels of its pods, and containers that have an image. -/
def admitsDeployment (d : Deployment) : Bool :=
  isDns1123Subdomain d.name.toList && admitsLabels d.labels && admitsLabels d.selector
    && admitsLabels d.template.labels && decide (0 ≤ d.replicas) && !d.selector.isEmpty
    && d.selector.all (fun label => d.template.labels.contains label)
    && d.template.containers.all (fun container => container.image ≠ "")

/-- The rules for a Service: its name is a single word. -/
def admitsService (s : Service) : Bool :=
  isDns1035Label s.name.toList && admitsLabels s.labels && admitsLabels s.selector

/-- How a call of `Reconcile` ends: at an object that is rejected, or with `updateStatus`. -/
inductive ReconcileOutcome
  | deploymentRejected
  | serviceRejected
  | status (update : StatusUpdate)

/-- `Reconcile`, for a resource that exists: it applies the Deployment, applies the Service and
updates the status, and returns at the first error. -/
def reconcile (S : ConditionSetter) (now now' : Time) (ms : ModelServer)
    (lookup : DeploymentLookup) : ReconcileOutcome :=
  if admitsDeployment (buildDeployment ms) then
    if admitsService (desiredService ms) then .status (updateStatus S now now' ms lookup)
    else .serviceRejected
  else .deploymentRejected

variable {S : ConditionSetter} {now now' : Time} {ms : ModelServer} {lookup : DeploymentLookup}

/-- The labels are fine if the name is. -/
theorem admitsLabels_instanceLabels :
    admitsLabels (instanceLabels ms) = isLabelValue ms.name.toList := by
  have happ : isLabelValue appLabelValue.toList = true := by decide
  simp [admitsLabels, instanceLabels, happ]

/-- **The Deployment** needs a name that is a label value, and an image. -/
theorem admitsDeployment_buildDeployment (hname : isDns1123Subdomain ms.name.toList = true)
    (hspec : ms.spec.Admitted) : admitsDeployment (buildDeployment ms) = true ↔
      isLabelValue ms.name.toList = true ∧ ms.spec.image ≠ "" := by
  have hself : ∀ labels : Labels, labels.all (fun label => labels.contains label) = true := by
    intro labels
    simp
  simp only [admitsDeployment, buildDeployment, hname, admitsLabels_instanceLabels, hself]
  simp [instanceLabels, serverContainer, hspec.replicas]

/-- **The Service** needs a name of one word. -/
theorem admitsService_desiredService :
    admitsService (desiredService ms) = true ↔ isDns1035Label ms.name.toList = true := by
  have hselector :
      admitsLabels [(instanceLabelKey, ms.name)] = isLabelValue ms.name.toList := by
    simp [admitsLabels]
  simp only [admitsService, desiredService, admitsLabels_instanceLabels, hselector,
    Bool.and_eq_true]
  constructor
  · exact fun h => h.1.1
  · exact fun h => ⟨⟨h, isLabelValue_of_isDns1035Label h⟩, isLabelValue_of_isDns1035Label h⟩

/-- **Which admitted resources can be reconciled.**  Both objects keep the rules, and `Reconcile`
goes on to the status, if and only if the name has no dot, no more than 63 characters and
starts with a letter, and the image is not empty. -/
theorem reconcilable_iff (hname : isDns1123Subdomain ms.name.toList = true)
    (hspec : ms.spec.Admitted) :
    (admitsDeployment (buildDeployment ms) = true ∧ admitsService (desiredService ms) = true ∧
        reconcile S now now' ms lookup = .status (updateStatus S now now' ms lookup)) ↔
      (ms.name.length ≤ 63 ∧ '.' ∉ ms.name.toList ∧
        ms.name.toList.head?.any Char.isLower = true) ∧ ms.spec.image ≠ "" := by
  have hlabel : isDns1035Label ms.name.toList = true ↔ ms.name.length ≤ 63 ∧
      '.' ∉ ms.name.toList ∧ ms.name.toList.head?.any Char.isLower = true :=
    isDns1035Label_iff hname
  rw [← hlabel]
  constructor
  · rintro ⟨hdeployment, hservice, -⟩
    exact ⟨admitsService_desiredService.mp hservice,
      ((admitsDeployment_buildDeployment hname hspec).mp hdeployment).2⟩
  · rintro ⟨hword, himage⟩
    have hdeployment := (admitsDeployment_buildDeployment hname hspec).mpr
      ⟨isLabelValue_of_isDns1035Label hword, himage⟩
    have hservice := admitsService_desiredService.mpr hword
    refine ⟨hdeployment, hservice, ?_⟩
    rw [reconcile, if_pos hdeployment, if_pos hservice]

/-- A resource of this name. -/
def namedServer (name : String) : ModelServer where
  name := name
  nameSpace := "default"
  uid := "1"
  generation := 1
  resourceVersion := 1
  spec := { model := "Qwen/Qwen3-0.6B" }
  status := {}

theorem namedServer_admitted (name : String) : (namedServer name).spec.Admitted where
  model := by simp [namedServer]
  replicas := by simp [namedServer]
  gpus := by simp [namedServer]
  maxBatchSize := by simp [namedServer]

theorem reconcilable_iff_qwen :
    reconcile metaSetStatusCondition 1 1 (namedServer "qwen3-0-6b") .notFound
      = .status (updateStatus metaSetStatusCondition 1 1 (namedServer "qwen3-0-6b") .notFound) := by
  have hname : isDns1123Subdomain (namedServer "qwen3-0-6b").name.toList = true := by decide
  exact ((reconcilable_iff hname (namedServer_admitted _)).mpr ⟨by decide, by decide⟩).2.2

/-- A name with a dot is admitted for the resource; the Service of that name is rejected, so the
resource never has a status. -/
theorem dotted_name_has_no_status :
    isDns1123Subdomain (namedServer "qwen2.5").name.toList = true ∧
      (namedServer "qwen2.5").spec.Admitted ∧
      admitsService (desiredService (namedServer "qwen2.5")) = false ∧
      ∀ (now now' : Time) (lookup : DeploymentLookup),
        reconcile metaSetStatusCondition now now' (namedServer "qwen2.5") lookup
          = .serviceRejected := by
  refine ⟨by decide, namedServer_admitted _, by decide, ?_⟩
  intro now now' lookup
  have hdeployment : admitsDeployment (buildDeployment (namedServer "qwen2.5")) = true := by decide
  have hservice : ¬ admitsService (desiredService (namedServer "qwen2.5")) = true := by decide
  rw [reconcile, if_pos hdeployment, if_neg hservice]

end NanoKube
