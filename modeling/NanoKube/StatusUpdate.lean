import NanoKube.ModelServer

/-!
# One status write, and then none

Every write of a status triggers another reconciliation, so `updateStatus` must write
exactly when something is new, and what it writes must leave it nothing to do.  The
`changed` flag is put together by hand from five comparisons; two of them are made by
`meta.SetStatusCondition` on a list that the first of the two has changed already.

The phase is meant to be a projection of the conditions.  It is computed apart from
them, and asks the Deployment for its replicas as well.

## Main definitions

* `ModelServerStatus.report`, `ModelServerStatus.foreign` — what the controller has to say,
  and the conditions that are none of its business.
* `Projects` — the phase agrees with the conditions.

## Main results

* `computeStatus_changed_iff` — the flag is raised exactly when the status is new.
* `update_status_settles` — **one write, and then none**.
* `phase_projects_iff` — the phase agrees with the conditions, except for a Deployment
  scaled to zero.
-/

namespace NanoKube

namespace ConditionSetter

variable {S : ConditionSetter} {now : Time} {cs : List Condition} {new : Condition}

/-- **Whether anything changed** shows in the condition that was set. -/
theorem changed_iff : (S.set now cs new).2 = true ↔
    findCondition (S.set now cs new).1 new.type ≠ findCondition cs new.type := by
  rcases type_ne_or_split cs new.type with hno | ⟨before, old, after, rfl, hbefore, hold⟩
  · rw [S.appended now cs new hno, findCondition_append hno, findCondition_eq_none hno]
    simp [findCondition, Condition.stamped]
  · rw [S.overwritten now before after old new hbefore hold, findCondition_append hbefore,
      findCondition_append hbefore, decide_eq_true_iff]
    simp [findCondition, Condition.merge, hold]

/-- A condition that says already what is to be set stays as it is. -/
theorem set_of_found {time : Time}
    (h : findCondition cs new.type = some { new with lastTransitionTime := time }) :
    S.set now cs new = (cs, false) := by
  have hfalse : (S.set now cs new).2 = false := by
    rw [← Bool.not_eq_true, changed_iff, Classical.not_not, h]
    rcases type_ne_or_split cs new.type with hno | ⟨before, old, after, rfl, hbefore, hold⟩
    · rw [findCondition_eq_none hno] at h
      cases h
    · rw [findCondition_append hbefore] at h
      have hsame : old = { new with lastTransitionTime := time } := by
        simpa [findCondition, hold] using h
      rw [S.overwritten now before after old new hbefore hold, findCondition_append hbefore]
      simp [findCondition, Condition.merge, hsame]
  exact Prod.ext (set_unchanged hfalse) hfalse

/-- Conditions that are told apart from the new one by their type are kept, in their order. -/
theorem filter_set (p : Condition → Bool) (hp : ∀ c : Condition, c.type = new.type → p c = false) :
    (S.set now cs new).1.filter p = cs.filter p := by
  rcases type_ne_or_split cs new.type with hno | ⟨before, old, after, rfl, hbefore, hold⟩
  · rw [S.appended now cs new hno, List.filter_append]
    simp [hp (new.stamped now) rfl]
  · rw [S.overwritten now before after old new hbefore hold, List.filter_append,
      List.filter_append, List.filter_cons, List.filter_cons]
    simp [hp old hold, hp (old.merge now new) rfl]

/-- **The time of a condition moves only with its status.** -/
theorem transition_set {type : String} {old : Condition} (h : findCondition cs type = some old) :
    ∃ c, findCondition (S.set now cs new).1 type = some c ∧
      (c.status = old.status → c.lastTransitionTime = old.lastTransitionTime) := by
  by_cases htype : type = new.type
  · subst htype
    rcases type_ne_or_split cs new.type with hno | ⟨before, first, after, rfl, hbefore, hfirst⟩
    · rw [findCondition_eq_none hno] at h
      cases h
    · rw [findCondition_append hbefore] at h
      have hsame : first = old := by simpa [findCondition, hfirst] using h
      subst hsame
      refine ⟨first.merge now new, ?_, ?_⟩
      · rw [S.overwritten now before after first new hbefore hfirst, findCondition_append hbefore]
        simp [findCondition, Condition.merge]
      · intro hstatus
        rw [Condition.merge]
        exact if_pos hstatus.symm
  · exact ⟨old, by rw [S.findCondition_set_of_ne now cs htype, h], fun _ => rfl⟩

end ConditionSetter

/-! ### The write -/

/-- What a condition says, apart from its time and its generation. -/
def Condition.says (c : Condition) : ConditionStatus × String × String :=
  (c.status, c.reason, c.message)

/-- What a status says, apart from times and from conditions that other controllers set. -/
structure StatusReport where
  phase : Option ServerPhase
  readyReplicas : ℤ
  observedGeneration : ℤ
  available : Option (ConditionStatus × String × String)
  progressing : Option (ConditionStatus × String × String)
  deriving DecidableEq

def ModelServerStatus.report (status : ModelServerStatus) : StatusReport where
  phase := status.phase
  readyReplicas := status.readyReplicas
  observedGeneration := status.observedGeneration
  available := (findCondition status.conditions conditionTypeAvailable).map Condition.says
  progressing := (findCondition status.conditions conditionTypeProgressing).map Condition.says

/-- The conditions of a status that this controller does not set. -/
def ModelServerStatus.foreign (status : ModelServerStatus) : List Condition :=
  status.conditions.filter fun c =>
    decide (c.type ≠ conditionTypeAvailable ∧ c.type ≠ conditionTypeProgressing)

/-- The outcome of a `Get` that did not fail. -/
def DeploymentLookup.got : Option DeploymentStatus → DeploymentLookup
  | none => .notFound
  | some status => .found status

section Status

variable {S : ConditionSetter} {now now' : Time} {ms : ModelServer}
  {deploy : Option DeploymentStatus}

theorem available_ne_progressing : conditionTypeAvailable ≠ conditionTypeProgressing := by decide

/-- **The `changed` flag is exact.**  No comparison hides another: each of the two conditions that
are set shows in the result under its own type. -/
theorem computeStatus_changed_iff :
    (computeStatus S now now' ms deploy).2 = true ↔
      (computeStatus S now now' ms deploy).1 ≠ ms.status := by
  constructor
  · intro hchanged hsame
    have hconds := congrArg ModelServerStatus.conditions hsame
    have hphase := congrArg ModelServerStatus.phase hsame
    have hready := congrArg ModelServerStatus.readyReplicas hsame
    have hgen := congrArg ModelServerStatus.observedGeneration hsame
    simp only [computeStatus] at hchanged hconds hphase hready hgen
    -- the first condition was not touched by setting the second
    have havail : (S.set now ms.status.conditions (availableCondition ms deploy)).2 = false := by
      rw [← Bool.not_eq_true, ConditionSetter.changed_iff, Classical.not_not]
      have hkept : findCondition (S.set now' (S.set now ms.status.conditions
            (availableCondition ms deploy)).1 (progressingCondition ms deploy)).1
            conditionTypeAvailable
          = findCondition (S.set now ms.status.conditions (availableCondition ms deploy)).1
            conditionTypeAvailable := S.findCondition_set_of_ne now' _ available_ne_progressing
      rw [hconds] at hkept
      exact hkept.symm
    rw [ConditionSetter.set_unchanged havail] at hconds hchanged
    have hprog :
        (S.set now' ms.status.conditions (progressingCondition ms deploy)).2 = false := by
      rw [← Bool.not_eq_true, ConditionSetter.changed_iff, Classical.not_not, hconds]
    rw [havail, hprog, ← hphase, ← hready, ← hgen] at hchanged
    simp at hchanged
  · intro hne
    by_contra hno
    exact hne (computeStatus_unchanged (Bool.not_eq_true _ ▸ hno))

/-- Both conditions are there afterwards, as they were set. -/
theorem findCondition_computeStatus (S : ConditionSetter) (now now' : Time) (ms : ModelServer)
    (deploy : Option DeploymentStatus) : ∃ time time',
    findCondition (computeStatus S now now' ms deploy).1.conditions conditionTypeAvailable
      = some { availableCondition ms deploy with lastTransitionTime := time } ∧
    findCondition (computeStatus S now now' ms deploy).1.conditions conditionTypeProgressing
      = some { progressingCondition ms deploy with lastTransitionTime := time' } := by
  obtain ⟨time, havail⟩ :=
    S.findCondition_set now ms.status.conditions (availableCondition ms deploy)
  obtain ⟨time', hprog⟩ := S.findCondition_set now'
    (S.set now ms.status.conditions (availableCondition ms deploy)).1
    (progressingCondition ms deploy)
  exact ⟨time, time', (S.findCondition_set_of_ne now' _ available_ne_progressing).trans havail,
    hprog⟩

/-- What is computed does not depend on the rest of the resource. -/
theorem desired_congr {ms' : ModelServer} (hspec : ms'.spec = ms.spec)
    (deploy : Option DeploymentStatus) :
    availableCondition ms' deploy = availableCondition ms deploy ∧
      progressingCondition ms' deploy = progressingCondition ms deploy ∧
      serverPhase ms' deploy = serverPhase ms deploy := by
  have hready : replicasReady ms' deploy ↔ replicasReady ms deploy := by
    rw [replicasReady, replicasReady, hspec]
  refine ⟨?_, ?_, ?_⟩
  · simp only [availableCondition, hready, hspec]
  · simp only [progressingCondition, hready]
  · simp only [serverPhase, hready]

/-- **A status that was computed has nothing left to change.** -/
theorem computeStatus_quiet {ms' : ModelServer} {t t' : Time} (hspec : ms'.spec = ms.spec)
    (hgen : ms'.generation = ms.generation)
    (hstatus : ms'.status = (computeStatus S now now' ms deploy).1) :
    (computeStatus S t t' ms' deploy).2 = false := by
  obtain ⟨havail, hprog, hphase⟩ := desired_congr hspec deploy
  obtain ⟨time, time', hfound, hfound'⟩ := findCondition_computeStatus S now now' ms deploy
  rw [← hstatus, ← havail] at hfound
  rw [← hstatus, ← hprog] at hfound'
  have hphase' : ms'.status.phase = some (serverPhase ms' deploy) := by rw [hstatus, hphase]; rfl
  have hready' : ms'.status.readyReplicas
      = (deploy.map DeploymentStatus.readyReplicas).getD 0 := by rw [hstatus]; rfl
  have hgen' : ms'.status.observedGeneration = ms'.generation := by rw [hstatus, hgen]; rfl
  rw [computeStatus]
  dsimp only
  rw [ConditionSetter.set_of_found hfound]
  dsimp only
  rw [ConditionSetter.set_of_found hfound']
  simp [hphase', hready', hgen']

theorem updateStatus_got : updateStatus S now now' ms (.got deploy)
    = if (computeStatus S now now' ms deploy).1 = ms.status then .unchanged
      else .update (computeStatus S now now' ms deploy).1 := by
  have hconclude : updateStatus S now now' ms (.got deploy)
      = updateStatus.conclude (computeStatus S now now' ms deploy) := by
    cases deploy with
    | none => rfl
    | some d => rfl
  rw [hconclude, updateStatus.conclude]
  by_cases hsame : (computeStatus S now now' ms deploy).1 = ms.status
  · rw [if_pos hsame, if_neg (fun h => computeStatus_changed_iff.mp h hsame)]
  · rw [if_neg hsame, if_pos (computeStatus_changed_iff.mpr hsame)]

/-- The report is a function of the spec, the generation and the Deployment. -/
theorem report_congr {ms' : ModelServer} {t t' : Time} (hspec : ms'.spec = ms.spec)
    (hgen : ms'.generation = ms.generation) :
    (computeStatus S t t' ms' deploy).1.report = (computeStatus S now now' ms deploy).1.report := by
  obtain ⟨havail, hprog, hphase⟩ := desired_congr hspec deploy
  obtain ⟨_, _, hfound, hfound'⟩ := findCondition_computeStatus S now now' ms deploy
  obtain ⟨_, _, hother, hother'⟩ := findCondition_computeStatus S t t' ms' deploy
  rw [ModelServerStatus.report, ModelServerStatus.report, hfound, hfound', hother, hother', havail,
    hprog]
  simp [computeStatus, hphase, hgen, Condition.says]

theorem foreign_computeStatus :
    (computeStatus S now now' ms deploy).1.foreign = ms.status.foreign := by
  rw [ModelServerStatus.foreign, ModelServerStatus.foreign, computeStatus]
  dsimp only
  rw [ConditionSetter.filter_set, ConditionSetter.filter_set]
  · intro c hc
    simp [hc, availableCondition]
  · intro c hc
    simp [hc, progressingCondition]

/-- A time moves only with its status, through both settings: the first does not touch what the
second sets. -/
theorem transition_computeStatus {type : String} {old : Condition}
    (h : findCondition ms.status.conditions type = some old) :
    ∃ c, findCondition (computeStatus S now now' ms deploy).1.conditions type = some c ∧
      (c.status = old.status → c.lastTransitionTime = old.lastTransitionTime) := by
  by_cases htype : type = conditionTypeProgressing
  · have hne : type ≠ (availableCondition ms deploy).type :=
      fun he => available_ne_progressing (he.symm.trans htype)
    exact ConditionSetter.transition_set ((S.findCondition_set_of_ne now _ hne).trans h)
  · have hfirst : ∃ c, findCondition (S.set now ms.status.conditions
          (availableCondition ms deploy)).1 type = some c ∧
        (c.status = old.status → c.lastTransitionTime = old.lastTransitionTime) :=
      ConditionSetter.transition_set h
    obtain ⟨c, hc, hmoves⟩ := hfirst
    exact ⟨c, (S.findCondition_set_of_ne now' _ htype).trans hc, hmoves⟩

/-- **One write, and then none.**  For every stored status, spec and generation.  A failed `Get`
writes nothing.  Otherwise a status is written if and only if it differs from the stored one; what
it reports depends on the spec, the generation and the Deployment alone; conditions of
other types are kept, and a time moves only with the status of its condition.  Once the write
is stored, the same inputs write nothing, whatever the time is. -/
theorem update_status_settles (S : ConditionSetter) (now now' : Time) (ms : ModelServer) :
    updateStatus S now now' ms .failed = .failed ∧
    ∀ deploy : Option DeploymentStatus, let computed := (computeStatus S now now' ms deploy).1
      (updateStatus S now now' ms (.got deploy)
        = if computed = ms.status then .unchanged else .update computed) ∧
      (∀ (ms' : ModelServer) (t t' : Time), ms'.spec = ms.spec → ms'.generation = ms.generation →
        (computeStatus S t t' ms' deploy).1.report = computed.report) ∧
      computed.foreign = ms.status.foreign ∧
      (∀ (type : String) (old : Condition), findCondition ms.status.conditions type = some old →
        ∃ c, findCondition computed.conditions type = some c ∧
          (c.status = old.status → c.lastTransitionTime = old.lastTransitionTime)) ∧
      ∀ (ms' : ModelServer) (t t' : Time), ms'.spec = ms.spec → ms'.generation = ms.generation →
        ms'.status = computed → updateStatus S t t' ms' (.got deploy) = .unchanged := by
  refine ⟨rfl, ?_⟩
  intro deploy computed
  refine ⟨updateStatus_got, fun ms' t t' => report_congr, foreign_computeStatus,
    fun type old => transition_computeStatus, ?_⟩
  intro ms' t t' hspec hgen hstatus
  rw [updateStatus_got, if_pos]
  by_contra hne
  have hchanged := computeStatus_changed_iff.mpr hne
  rw [computeStatus_quiet hspec hgen hstatus] at hchanged
  cases hchanged

/-! ### The phase -/

/-- The status a call of `updateStatus` leaves behind. -/
def StatusUpdate.left (ms : ModelServer) : StatusUpdate → Option ModelServerStatus
  | .failed => none
  | .unchanged => some ms.status
  | .update status => some status

/-- The condition `Progressing` is false. -/
def ModelServerStatus.Settled (status : ModelServerStatus) : Prop :=
  (findCondition status.conditions conditionTypeProgressing).map Condition.status
    = some .conditionFalse

instance (status : ModelServerStatus) : Decidable status.Settled :=
  inferInstanceAs (Decidable (_ = _))

/-- **The phase is a projection of the conditions.** -/
structure Projects (status : ModelServerStatus) : Prop where
  ready_iff : status.phase = some .ready ↔ status.Available
  settled_iff : status.Available ↔ status.Settled
  apart : status.phase = some .pending ∨ status.phase = some .loading → ¬ status.Available

theorem left_updateStatus :
    (updateStatus S now now' ms (.got deploy)).left ms
      = some (computeStatus S now now' ms deploy).1 := by
  rw [updateStatus_got]
  by_cases hsame : (computeStatus S now now' ms deploy).1 = ms.status
  · rw [if_pos hsame, StatusUpdate.left, hsame]
  · rw [if_neg hsame, StatusUpdate.left]

/-- `Progressing` is the opposite of `Available`. -/
theorem settled_computeStatus :
    (computeStatus S now now' ms deploy).1.Settled ↔ replicasReady ms deploy := by
  obtain ⟨_, _, -, hfound⟩ := findCondition_computeStatus S now now' ms deploy
  rw [ModelServerStatus.Settled, hfound]
  by_cases hready : replicasReady ms deploy <;> simp [progressingCondition, hready]

/-- The phase and the conditions agree unless enough replicas are ready when there are none. -/
theorem projects_computeStatus : Projects (computeStatus S now now' ms deploy).1 ↔
    (replicasReady ms deploy → (deploy.map DeploymentStatus.replicas).getD 0 ≠ 0) := by
  constructor
  · intro hproj hready
    exact (phase_computeStatus.mp
      (hproj.ready_iff.mpr (available_computeStatus.mpr hready))).2
  · intro hnonzero
    have hiff : (computeStatus S now now' ms deploy).1.phase = some .ready ↔
        (computeStatus S now now' ms deploy).1.Available := by
      rw [phase_computeStatus, available_computeStatus, and_iff_left_iff_imp]
      exact hnonzero
    refine ⟨hiff, available_computeStatus.trans settled_computeStatus.symm, ?_⟩
    rintro (hphase | hphase) havail
    · rw [hiff.mpr havail] at hphase
      cases hphase
    · rw [hiff.mpr havail] at hphase
      cases hphase

/-- **The phase agrees with the conditions, except for a Deployment scaled to zero.**  For a spec
the schema admits and counts a Deployment can have, whatever was stored before: after a
successful call the phase is `Ready` if and only if `Available` is true if and only if
`Progressing` is false, unless no replicas are wanted and the Deployment has none. -/
theorem phase_projects_iff {lookup : DeploymentLookup} {status : ModelServerStatus}
    (hreplicas : 0 ≤ ms.spec.replicas)
    (hcounts : ∀ d, lookup = .found d → 0 ≤ d.readyReplicas ∧ d.readyReplicas ≤ d.replicas)
    (h : (updateStatus S now now' ms lookup).left ms = some status) :
    Projects status ↔ ¬ (ms.spec.replicas = 0 ∧ ∃ d, lookup = .found d ∧ d.replicas = 0) := by
  cases lookup with
  | failed => cases h
  | notFound =>
    have hstatus : some (computeStatus S now now' ms none).1 = some status :=
      left_updateStatus.symm.trans h
    rw [← Option.some.inj hstatus, projects_computeStatus]
    simp [replicasReady]
  | found d =>
    have hstatus : some (computeStatus S now now' ms (some d)).1 = some status :=
      left_updateStatus.symm.trans h
    have hd := hcounts d rfl
    rw [← Option.some.inj hstatus, projects_computeStatus]
    simp only [replicasReady, Option.mem_def, Option.some.injEq, exists_eq_left', Option.map_some,
      Option.getD_some, DeploymentLookup.found.injEq]
    omega

/-- A resource of so many replicas that was never reconciled. -/
def freshServer (replicas : ℤ) : ModelServer where
  name := "qwen"
  nameSpace := "default"
  uid := "1"
  generation := 1
  resourceVersion := 1
  spec := { model := "Qwen/Qwen3-0.6B", replicas := replicas }
  status := {}

/-- While a second pod goes away, one ready replica is all that was asked for. -/
theorem phase_projects_iff_scaling_down :
    Projects (computeStatus metaSetStatusCondition 1 1 (freshServer 1) (some ⟨2, 1⟩)).1 := by
  have h : (updateStatus metaSetStatusCondition 1 1 (freshServer 1) (.found ⟨2, 1⟩)).left
      (freshServer 1) = some (computeStatus metaSetStatusCondition 1 1 (freshServer 1)
        (some ⟨2, 1⟩)).1 := by decide
  have hcounts : ∀ d, DeploymentLookup.found ⟨2, 1⟩ = .found d →
      0 ≤ d.readyReplicas ∧ d.readyReplicas ≤ d.replicas := by
    intro d hd
    cases hd
    decide
  refine (phase_projects_iff (by decide) hcounts h).mpr ?_
  rintro ⟨hzero, -⟩
  exact absurd hzero (by decide)

/-- No replicas are wanted and the Deployment has none: the phase is `Pending`, the condition
`Available` is true. -/
theorem pending_but_available :
    let update := updateStatus metaSetStatusCondition 1 1 (freshServer 0) (.found ⟨0, 0⟩)
    ∃ status, update.left (freshServer 0) = some status ∧ status.phase = some .pending ∧
      status.Available ∧ status.Settled ∧ ¬ Projects status := by
  intro update
  refine ⟨(computeStatus metaSetStatusCondition 1 1 (freshServer 0) (some ⟨0, 0⟩)).1,
    by decide, by decide, by decide, by decide, ?_⟩
  intro hproj
  exact hproj.apart (Or.inl (by decide)) (by decide)

end Status

end NanoKube
