import NanoKube.ModelServer
import NanoKube.Transition

/-!
# Reconciling in a cluster

One ModelServer, the Deployment it owns and the pods of that Deployment.  The user edits
the spec, the Deployment controller makes and removes pods and counts them in the
Deployment's status, pods become ready or stop being ready, and `Reconcile` runs, one
call to the API server at a time: in any order.

`Reconcile` compares the replicas of the spec it fetched with the count it finds in the
Deployment's status.  The count has no template in it, so after an edit it may be about
pods that serve another model.

Two things are assumed here.  A read is fresh: it finds what the API server has at that moment,
though the manager's client reads from copies that may lag behind (that is in `Watch`).  And
nobody but this controller writes to the Deployment and the Service, so that what it applies
is what is there: server-side apply would leave the entries of other managers alone.

## Main definitions

* `Cluster`, `Cluster.step` — the state, and the effect of an event.
* `ReadyMeansReady` — what the reported status says is so.
* `Recorded` — the cluster with a history of what its counts were about.
* `CountsOwnPods` — the count a call of `Reconcile` ends on was one of pods of its own
  template, none of which has been lost since.

## Main results

* `ClusterInv.step`, `RecordedInv.step` — the invariants of a cluster and of its history.
* `ready_means_ready` — whenever the counts are such, ready means that the model is ready.
-/

namespace NanoKube

/-- A pod, with the template it was made from. -/
structure Pod where
  template : PodTemplate
  ready : Bool

/-- Where a call of `Reconcile` is, with its local variables. -/
inductive ReconcilePc
  | idle
  /-- The resource is fetched: the Deployment is next. -/
  | fetched (ms : ModelServer)
  /-- The Service is next. -/
  | deployed (ms : ModelServer)
  /-- `updateStatus` is next. -/
  | served (ms : ModelServer)
  /-- At `r.Status().Update`, with the new status in `ms` and the Deployment it came from. -/
  | writing (ms : ModelServer) (deploy : Option DeploymentStatus)
  /-- It returned no error. -/
  | done
  | failed

namespace ReconcilePc

/-- No call is going on. -/
def resting : ReconcilePc → Bool
  | idle | done | failed => true
  | fetched _ | deployed _ | served _ | writing _ _ => false

/-- The last call returned no error. -/
def isDone : ReconcilePc → Bool
  | done => true
  | idle | failed | fetched _ | deployed _ | served _ | writing _ _ => false

end ReconcilePc

/-- The objects in the cluster, and the call of `Reconcile` there is.  `history` has the spec of
every generation, `revisions` the templates the Deployment has had. -/
structure Cluster where
  server : Option ModelServer
  history : List ModelServerSpec
  deployment : Option Deployment
  deploymentStatus : DeploymentStatus
  revisions : List PodTemplate
  service : Option Service
  pods : List Pod
  reconciler : ReconcilePc

/-- An event in the cluster. -/
inductive ClusterEvent
  /-- The user creates the resource, or edits its spec. -/
  | create (name nameSpace uid : String) (spec : ModelServerSpec)
  | edit (spec : ModelServerSpec)
  /-- The Deployment controller makes a pod, removes one, or writes the Deployment's status. -/
  | makePod (template : PodTemplate)
  | removePod (i : ℕ)
  | countPods
  /-- The readiness probe of a pod. -/
  | probe (i : ℕ) (ready : Bool)
  /-- The calls `Reconcile` makes; `updateStatus` is told the time twice. -/
  | get
  | applyDeployment
  | applyService
  | updateStatus (now now' : Time)
  | writeStatus
  /-- A call to the API server returns an error. -/
  | error

namespace Cluster

/-- Nothing is there. -/
def init : Cluster where
  server := none
  history := []
  deployment := none
  deploymentStatus := {}
  revisions := []
  service := none
  pods := []
  reconciler := .idle

/-- The spec of a generation; the first one is 1. -/
def specAt (w : Cluster) (generation : ℤ) : Option ModelServerSpec :=
  if 1 ≤ generation then w.history[(generation - 1).toNat]? else none

/-- The ready pods, whatever their template. -/
def readyPods (w : Cluster) : ℕ := w.pods.countP fun p => p.ready

/-- The ready pods made from a template. -/
def readyPodsOf (w : Cluster) (template : PodTemplate) : ℕ :=
  w.pods.countP fun p => p.ready && decide (p.template = template)

/-- The status of the Deployment, if there is one. -/
def deployed (w : Cluster) : Option DeploymentStatus :=
  w.deployment.map fun _ => w.deploymentStatus

/-- `r.Get` of the Deployment, without an error. -/
def lookup (w : Cluster) : DeploymentLookup :=
  match w.deployed with
  | none => .notFound
  | some status => .found status

/-- The effect of an event, if it can happen.  Reads are fresh, and what is applied replaces
what was there. -/
def step (S : ConditionSetter) (w : Cluster) : ClusterEvent → Option Cluster
  | .create name nameSpace uid spec =>
    match w.server with
    | some _ => none
    | none =>
      some { w with server := some ⟨name, nameSpace, uid, 1, 1, spec, {}⟩, history := [spec] }
  | .edit spec =>
    match w.server with
    | none => none
    | some ms =>
      -- an edit that changes nothing leaves the generation alone
      if spec = ms.spec then none
      else some { w with
        server := some { ms with
          generation := ms.generation + 1
          resourceVersion := ms.resourceVersion + 1
          spec := spec }
        history := w.history ++ [spec] }
  | .makePod template =>
    if template ∈ w.revisions then some { w with pods := w.pods ++ [⟨template, false⟩] } else none
  | .removePod i => if i < w.pods.length then some { w with pods := w.pods.eraseIdx i } else none
  | .countPods =>
    if w.deployment.isSome then
      some { w with deploymentStatus := ⟨w.pods.length, w.readyPods⟩ }
    else none
  | .probe i ready =>
    if i < w.pods.length then
      some { w with pods := w.pods.modify i fun p => { p with ready := ready } }
    else none
  | .get =>
    if w.reconciler.resting then
      match w.server with
      -- the resource is being deleted: do nothing
      | none => some { w with reconciler := .done }
      | some ms => some { w with reconciler := .fetched ms }
    else none
  | .applyDeployment =>
    match w.reconciler with
    | .fetched ms =>
      some { w with
        deployment := some (buildDeployment ms)
        revisions := w.revisions.insert (buildDeployment ms).template
        reconciler := .deployed ms }
    | _ => none
  | .applyService =>
    match w.reconciler with
    | .deployed ms => some { w with service := some (desiredService ms), reconciler := .served ms }
    | _ => none
  | .updateStatus now now' =>
    match w.reconciler with
    | .served ms =>
      match NanoKube.updateStatus S now now' ms w.lookup with
      | .failed => some { w with reconciler := .failed }
      | .unchanged => some { w with reconciler := .done }
      | .update status =>
        some { w with reconciler := .writing { ms with status := status } w.deployed }
    | _ => none
  | .writeStatus =>
    match w.reconciler, w.server with
    | .writing ms _, some current =>
      -- the update is refused when the resource has changed since it was fetched
      if current.resourceVersion = ms.resourceVersion then
        some { w with
          server := some { current with
            resourceVersion := current.resourceVersion + 1
            status := ms.status }
          reconciler := .done }
      else some { w with reconciler := .failed }
    | _, _ => none
  | .error => if w.reconciler.resting then none else some { w with reconciler := .failed }

end Cluster

/-! ### What an event can do -/

section Fires

variable {S : ConditionSetter} {w w' : Cluster} {e : ClusterEvent}

/-- The events that can happen, each with its guard and its effect. -/
inductive ClusterFires (S : ConditionSetter) (w : Cluster) : ClusterEvent → Cluster → Prop
  | create {name nameSpace uid : String} {spec : ModelServerSpec} (hnone : w.server = none) :
    ClusterFires S w (.create name nameSpace uid spec)
      { w with server := some ⟨name, nameSpace, uid, 1, 1, spec, {}⟩, history := [spec] }
  | edit {ms : ModelServer} {spec : ModelServerSpec} (hms : w.server = some ms)
      (hspec : spec ≠ ms.spec) :
    ClusterFires S w (.edit spec)
      { w with
        server := some { ms with
          generation := ms.generation + 1
          resourceVersion := ms.resourceVersion + 1
          spec := spec }
        history := w.history ++ [spec] }
  | makePod {template : PodTemplate} (hrev : template ∈ w.revisions) :
    ClusterFires S w (.makePod template) { w with pods := w.pods ++ [⟨template, false⟩] }
  | removePod {i : ℕ} (hi : i < w.pods.length) :
    ClusterFires S w (.removePod i) { w with pods := w.pods.eraseIdx i }
  | countPods (hdep : w.deployment.isSome = true) :
    ClusterFires S w .countPods { w with deploymentStatus := ⟨w.pods.length, w.readyPods⟩ }
  | probe {i : ℕ} {ready : Bool} (hi : i < w.pods.length) :
    ClusterFires S w (.probe i ready)
      { w with pods := w.pods.modify i fun p => { p with ready := ready } }
  | getNone (hrest : w.reconciler.resting = true) (hnone : w.server = none) :
    ClusterFires S w .get { w with reconciler := .done }
  | get {ms : ModelServer} (hrest : w.reconciler.resting = true) (hms : w.server = some ms) :
    ClusterFires S w .get { w with reconciler := .fetched ms }
  | applyDeployment {ms : ModelServer} (hpc : w.reconciler = .fetched ms) :
    ClusterFires S w .applyDeployment
      { w with
        deployment := some (buildDeployment ms)
        revisions := w.revisions.insert (buildDeployment ms).template
        reconciler := .deployed ms }
  | applyService {ms : ModelServer} (hpc : w.reconciler = .deployed ms) :
    ClusterFires S w .applyService
      { w with service := some (desiredService ms), reconciler := .served ms }
  | unchanged {now now' : Time} {ms : ModelServer} (hpc : w.reconciler = .served ms)
      (hsame : (computeStatus S now now' ms w.deployed).2 = false) :
    ClusterFires S w (.updateStatus now now') { w with reconciler := .done }
  | update {now now' : Time} {ms : ModelServer} (hpc : w.reconciler = .served ms) :
    ClusterFires S w (.updateStatus now now')
      { w with
        reconciler :=
          .writing { ms with status := (computeStatus S now now' ms w.deployed).1 } w.deployed }
  | write {ms current : ModelServer} {deploy : Option DeploymentStatus}
      (hpc : w.reconciler = .writing ms deploy) (hcur : w.server = some current)
      (hversion : current.resourceVersion = ms.resourceVersion) :
    ClusterFires S w .writeStatus
      { w with
        server := some { current with
          resourceVersion := current.resourceVersion + 1
          status := ms.status }
        reconciler := .done }
  | conflict {ms : ModelServer} {deploy : Option DeploymentStatus}
      (hpc : w.reconciler = .writing ms deploy) :
    ClusterFires S w .writeStatus { w with reconciler := .failed }
  | error (hrest : w.reconciler.resting = false) :
    ClusterFires S w .error { w with reconciler := .failed }

/-- With the Deployment looked up, `updateStatus` writes exactly when something changed. -/
theorem updateStatus_lookup (now now' : Time) (ms : ModelServer) :
    updateStatus S now now' ms w.lookup
      = if (computeStatus S now now' ms w.deployed).2 then
          .update (computeStatus S now now' ms w.deployed).1
        else .unchanged := by
  unfold Cluster.lookup
  cases w.deployed <;> rfl

/-- **What one event can do.** -/
theorem clusterFires_of_step (h : w.step S e = some w') : ClusterFires S w e w' := by
  cases e with
  | create name nameSpace uid spec =>
    cases hms : w.server with
    | none =>
      simp only [Cluster.step, hms, Option.some.injEq] at h
      subst h
      exact .create hms
    | some ms => simp [Cluster.step, hms] at h
  | edit spec =>
    cases hms : w.server with
    | none => simp [Cluster.step, hms] at h
    | some ms =>
      simp only [Cluster.step, hms, Option.ite_none_left_eq_some, Option.some.injEq] at h
      obtain ⟨hspec, rfl⟩ := h
      exact .edit hms hspec
  | makePod template =>
    simp only [Cluster.step, Option.ite_none_right_eq_some, Option.some.injEq] at h
    obtain ⟨hrev, rfl⟩ := h
    exact .makePod hrev
  | removePod i =>
    simp only [Cluster.step, Option.ite_none_right_eq_some, Option.some.injEq] at h
    obtain ⟨hi, rfl⟩ := h
    exact .removePod hi
  | countPods =>
    simp only [Cluster.step, Option.ite_none_right_eq_some, Option.some.injEq] at h
    obtain ⟨hdep, rfl⟩ := h
    exact .countPods hdep
  | probe i ready =>
    simp only [Cluster.step, Option.ite_none_right_eq_some, Option.some.injEq] at h
    obtain ⟨hi, rfl⟩ := h
    exact .probe hi
  | get =>
    simp only [Cluster.step, Option.ite_none_right_eq_some] at h
    obtain ⟨hrest, h⟩ := h
    split at h
    · next hms =>
      obtain rfl := Option.some.inj h
      exact .getNone hrest hms
    · next ms hms =>
      obtain rfl := Option.some.inj h
      exact .get hrest hms
  | applyDeployment =>
    cases hpc : w.reconciler with
    | fetched ms =>
      simp only [Cluster.step, hpc, Option.some.injEq] at h
      subst h
      exact .applyDeployment hpc
    | _ => simp [Cluster.step, hpc] at h
  | applyService =>
    cases hpc : w.reconciler with
    | deployed ms =>
      simp only [Cluster.step, hpc, Option.some.injEq] at h
      subst h
      exact .applyService hpc
    | _ => simp [Cluster.step, hpc] at h
  | updateStatus now now' =>
    cases hpc : w.reconciler with
    | served ms =>
      simp only [Cluster.step, hpc, updateStatus_lookup] at h
      cases hchanged : (computeStatus S now now' ms w.deployed).2 with
      | true =>
        simp only [hchanged, if_true, Option.some.injEq] at h
        subst h
        exact .update hpc
      | false =>
        simp only [hchanged, Bool.false_eq_true, if_false, Option.some.injEq] at h
        subst h
        exact .unchanged hpc hchanged
    | _ => simp [Cluster.step, hpc] at h
  | writeStatus =>
    simp only [Cluster.step] at h
    split at h
    · next ms deploy current hpc hcur =>
      split at h
      · next hversion =>
        obtain rfl := Option.some.inj h
        exact .write hpc hcur hversion
      · obtain rfl := Option.some.inj h
        exact .conflict hpc
    · cases h
  | error =>
    simp only [Cluster.step, Option.ite_none_left_eq_some, Option.some.injEq,
      Bool.not_eq_true] at h
    obtain ⟨hrest, rfl⟩ := h
    exact .error hrest

end Fires

/-! ### The invariant -/

/-- The status says no more than the count: it is about the generation of `ms`, and reports ready
only if enough replicas are counted ready. -/
structure Reports (status : ModelServerStatus) (ms : ModelServer)
    (deploy : Option DeploymentStatus) : Prop where
  generation : status.observedGeneration = ms.generation
  ready : status.Available ∨ status.phase = some .ready → replicasReady ms deploy

theorem reports_computeStatus (S : ConditionSetter) (now now' : Time) (ms : ModelServer)
    (deploy : Option DeploymentStatus) :
    Reports (computeStatus S now now' ms deploy).1 ms deploy where
  generation := rfl
  ready := by
    rintro (havail | hphase)
    · exact available_computeStatus.mp havail
    · exact (phase_computeStatus.mp hphase).1

/-- What `Reconcile` fetched is the resource, at one of its generations. -/
structure Fetched (w : Cluster) (current ms : ModelServer) : Prop where
  name : current.name = ms.name
  spec : w.specAt ms.generation = some ms.spec

/-- The local variables of a call: until the status is written, the stored one is the one that was
fetched. -/
def LocalsHold (w : Cluster) : ReconcilePc → Prop
  | .idle | .done | .failed => True
  | .fetched ms | .deployed ms | .served ms =>
    ∃ current, w.server = some current ∧ Fetched w current ms ∧ current.status = ms.status
  | .writing ms deploy =>
    ∃ current, w.server = some current ∧ Fetched w current ms ∧ Reports ms.status ms deploy

/-- The invariant of a cluster. -/
structure ClusterInv (w : Cluster) : Prop where
  generation : ∀ ms, w.server = some ms → ms.generation = w.history.length ∧
    w.specAt ms.generation = some ms.spec
  locals : LocalsHold w w.reconciler

section Inv

variable {S : ConditionSetter} {w w' : Cluster} {e : ClusterEvent}

theorem ClusterInv.init : ClusterInv Cluster.init where
  generation := by intro ms h; cases h
  locals := trivial

/-- The specs of earlier generations stay. -/
theorem specAt_append {spec spec' : ModelServerSpec} {g : ℤ} (h : w.specAt g = some spec)
    (hhist : w'.history = w.history ++ [spec']) : w'.specAt g = some spec := by
  rw [Cluster.specAt, Option.ite_none_right_eq_some] at h ⊢
  refine ⟨h.1, ?_⟩
  obtain ⟨hlt, heq⟩ := List.getElem?_eq_some_iff.mp h.2
  rw [hhist, List.getElem?_append_left hlt]
  exact h.2

/-- The locals hold as long as the resource keeps its name and its status, and the history goes
on. -/
theorem LocalsHold.mono {pc : ReconcilePc} (h : LocalsHold w pc)
    (hserver : ∀ current, w.server = some current → ∃ current', w'.server = some current' ∧
      current'.name = current.name ∧ current'.status = current.status)
    (hspec : ∀ g spec, w.specAt g = some spec → w'.specAt g = some spec) : LocalsHold w' pc := by
  cases pc with
  | idle | done | failed => trivial
  | fetched ms | deployed ms | served ms =>
    obtain ⟨current, hcur, hfetched, hstatus⟩ := h
    obtain ⟨current', hcur', hname', hstatus'⟩ := hserver current hcur
    exact ⟨current', hcur', ⟨hname'.trans hfetched.name, hspec _ _ hfetched.spec⟩,
      hstatus'.trans hstatus⟩
  | writing ms deploy =>
    obtain ⟨current, hcur, hfetched, hreports⟩ := h
    obtain ⟨current', hcur', hname', hstatus'⟩ := hserver current hcur
    exact ⟨current', hcur', ⟨hname'.trans hfetched.name, hspec _ _ hfetched.spec⟩, hreports⟩

/-- **The invariant of a cluster.** -/
theorem ClusterInv.step (hw : ClusterInv w) (h : w.step S e = some w') : ClusterInv w' := by
  have hkeep : ∀ current, w.server = some current → ∃ current', w.server = some current' ∧
      current'.name = current.name ∧ current'.status = current.status :=
    fun current hcur => ⟨current, hcur, rfl, rfl⟩
  cases clusterFires_of_step h with
  | create hnone =>
    refine ⟨?_, ?_⟩
    · intro ms hms
      obtain rfl := Option.some.inj hms
      exact ⟨rfl, rfl⟩
    · -- no call has a resource in hand
      have hloc := hw.locals
      cases hpc : w.reconciler with
      | idle | done | failed => trivial
      | _ =>
        rw [hpc] at hloc
        obtain ⟨current, hcur, -⟩ := hloc
        rw [hnone] at hcur
        cases hcur
  | @edit ms spec hms hspec =>
    obtain ⟨hgen, -⟩ := hw.generation ms hms
    refine ⟨?_, ?_⟩
    · intro ms' hms'
      obtain rfl := Option.some.inj hms'
      dsimp only
      refine ⟨by rw [hgen]; simp, ?_⟩
      rw [Cluster.specAt, if_pos (by omega), hgen]
      simp
    · apply hw.locals.mono
      · intro current hcur
        rw [hms] at hcur
        obtain rfl := Option.some.inj hcur
        exact ⟨_, rfl, rfl, rfl⟩
      · exact fun g spec' hg => specAt_append hg rfl
  | makePod | removePod | countPods | probe =>
    exact ⟨hw.generation, hw.locals.mono hkeep fun _ _ => id⟩
  | getNone hrest hnone => exact ⟨hw.generation, trivial⟩
  | @get ms hrest hms =>
    exact ⟨hw.generation, ms, hms, ⟨rfl, (hw.generation ms hms).2⟩, rfl⟩
  | applyDeployment hpc =>
    have hloc := hw.locals
    rw [hpc] at hloc
    obtain ⟨current, hcur, hfetched, hstatus⟩ := hloc
    exact ⟨hw.generation, current, hcur, ⟨hfetched.name, hfetched.spec⟩, hstatus⟩
  | applyService hpc =>
    have hloc := hw.locals
    rw [hpc] at hloc
    obtain ⟨current, hcur, hfetched, hstatus⟩ := hloc
    exact ⟨hw.generation, current, hcur, ⟨hfetched.name, hfetched.spec⟩, hstatus⟩
  | unchanged hpc hsame => exact ⟨hw.generation, trivial⟩
  | @update now now' ms hpc =>
    have hloc := hw.locals
    rw [hpc] at hloc
    obtain ⟨current, hcur, hfetched, -⟩ := hloc
    have hreports := reports_computeStatus S now now' ms w.deployed
    exact ⟨hw.generation, current, hcur, ⟨hfetched.name, hfetched.spec⟩,
      ⟨hreports.generation, hreports.ready⟩⟩
  | @write ms current deploy hpc hcur hversion =>
    refine ⟨?_, trivial⟩
    intro ms' hms'
    obtain rfl := Option.some.inj hms'
    exact hw.generation current hcur
  | conflict hpc => exact ⟨hw.generation, trivial⟩
  | error hrest => exact ⟨hw.generation, trivial⟩

end Inv

/-! ### Ready means ready -/

/-- The status can be relied upon: if it says ready, and the generation it observed asks for
replicas at all, as many pods made from the template of that generation are ready. -/
def ReadyMeansReady (w : Cluster) : Prop :=
  ∀ ms ∈ w.server, (ms.status.Available ∨ ms.status.phase = some .ready) →
    ∃ spec ∈ w.specAt ms.status.observedGeneration,
      1 ≤ spec.replicas →
        spec.replicas ≤ w.readyPodsOf (buildDeployment { ms with spec := spec }).template

instance (w : Cluster) : Decidable (ReadyMeansReady w) := by
  unfold ReadyMeansReady
  infer_instance

/-- The event ends a call of `Reconcile`, without an error. -/
def Cluster.ends (S : ConditionSetter) (w : Cluster) (e : ClusterEvent) : Bool :=
  !w.reconciler.isDone && ((w.step S e).map fun w' => w'.reconciler.isDone).getD false

/-- If the event ends a call, the status can be relied upon. -/
def EndsTruthfully (S : ConditionSetter) (w : Cluster) (e : ClusterEvent) : Prop :=
  w.ends S e = true → ∀ w' ∈ w.step S e, ReadyMeansReady w'

instance (S : ConditionSetter) (w : Cluster) (e : ClusterEvent) :
    Decidable (EndsTruthfully S w e) := by
  unfold EndsTruthfully
  infer_instance

/-! ### What a count is about -/

/-- The templates of the pods that were ready when they were counted, and of those that have
been lost since: a ready pod that was removed, or one whose probe has failed. -/
structure CountRecord where
  counted : List PodTemplate
  lost : List PodTemplate

namespace Cluster

/-- The templates of the ready pods. -/
def readyTemplates (w : Cluster) : List PodTemplate :=
  (w.pods.filter fun p => p.ready).map fun p => p.template

/-- The template of the ready pod that is lost by an event, if there is one. -/
def loses (w : Cluster) : ClusterEvent → List PodTemplate
  | .removePod i | .probe i false =>
    (w.pods[i]?.toList.filter fun p => p.ready).map fun p => p.template
  | _ => []

end Cluster

/-- The record after an event. -/
def CountRecord.after (record : CountRecord) (w : Cluster) (e : ClusterEvent) : CountRecord :=
  { record with lost := record.lost ++ w.loses e }

/-- The cluster with its history: what the count in the Deployment's status is about, and what
the one is about that the last `updateStatus` has read. -/
structure Recorded where
  cluster : Cluster
  count : CountRecord
  read : CountRecord

namespace Recorded

/-- Nothing is there. -/
def init : Recorded := ⟨Cluster.init, ⟨[], []⟩, ⟨[], []⟩⟩

/-- The effect of an event.  The history has no effect on the cluster. -/
def step (S : ConditionSetter) (x : Recorded) (e : ClusterEvent) : Option Recorded :=
  (x.cluster.step S e).map fun w =>
    { cluster := w
      count :=
        match e with
        | .countPods => ⟨x.cluster.readyTemplates, []⟩
        | _ => x.count.after x.cluster e
      read :=
        match e with
        | .updateStatus _ _ => x.count
        | _ => x.read.after x.cluster e }

/-- What a call of `Reconcile` that is about to end has read, the resource and the Deployment,
and the history of the count in it. -/
def reads (x : Recorded) : Option (ModelServer × Option DeploymentStatus × CountRecord) :=
  match x.cluster.reconciler with
  | .served ms => some (ms, x.cluster.deployed, x.count)
  | .writing ms deploy => some (ms, deploy, x.read)
  | .idle | .fetched _ | .deployed _ | .done | .failed => none

end Recorded

/-- If the count is enough for the spec of `ms`, only pods of its template were ready when it
was taken, and no ready pod of this template has been lost since. -/
def CountedOwn (ms : ModelServer) (deploy : Option DeploymentStatus) (record : CountRecord) :
    Prop :=
  ∀ d ∈ deploy, 1 ≤ ms.spec.replicas → ms.spec.replicas ≤ d.readyReplicas →
    (∀ template ∈ record.counted, template = (buildDeployment ms).template) ∧
      (buildDeployment ms).template ∉ record.lost

instance (ms : ModelServer) : ∀ deploy record, Decidable (CountedOwn ms deploy record)
  | none, _ => isTrue (by simp [CountedOwn])
  | some d, record => decidable_of_iff (1 ≤ ms.spec.replicas → ms.spec.replicas ≤ d.readyReplicas →
      (∀ template ∈ record.counted, template = (buildDeployment ms).template) ∧
        (buildDeployment ms).template ∉ record.lost)
      (by simp [CountedOwn])

/-- If the event ends a call, the count it has read was one of pods of its own template. -/
def CountsOwnPods (S : ConditionSetter) (x : Recorded) (e : ClusterEvent) : Prop :=
  x.cluster.ends S e = true → ∀ read ∈ x.reads, CountedOwn read.1 read.2.1 read.2.2

instance (S : ConditionSetter) (x : Recorded) (e : ClusterEvent) :
    Decidable (CountsOwnPods S x e) := by
  unfold CountsOwnPods
  infer_instance

section Ready

variable {S : ConditionSetter} {w w' : Cluster} {e : ClusterEvent} {x x' : Recorded}

theorem count_readyTemplates (w : Cluster) (template : PodTemplate) :
    w.readyTemplates.count template = w.readyPodsOf template := by
  rw [Cluster.readyTemplates, Cluster.readyPodsOf, List.count, List.countP_map, List.countP_filter]
  apply List.countP_congr
  intro p _
  simp [and_comm]

theorem length_readyTemplates (w : Cluster) : w.readyTemplates.length = w.readyPods := by
  rw [Cluster.readyTemplates, Cluster.readyPods, List.length_map, List.countP_eq_length_filter]

/-- The member at a place counted by itself. -/
theorem countP_split {α : Type*} (p : α → Bool) {l : List α} {i : ℕ} (hi : i < l.length) :
    l.countP p = (l.take i).countP p + (l.drop (i + 1)).countP p + if p l[i] then 1 else 0 := by
  have hsplit : l = l.take i ++ l[i] :: l.drop (i + 1) := by simp
  nth_rewrite 1 [hsplit]
  rw [List.countP_append, List.countP_cons, Nat.add_assoc]

/-- **The ready pods of a template stay, but for those an event loses.** -/
theorem readyPodsOf_step (h : w.step S e = some w') (template : PodTemplate) :
    w.readyPodsOf template ≤ w'.readyPodsOf template + (w.loses e).count template := by
  cases clusterFires_of_step h with
  | makePod hrev => simp [Cluster.readyPodsOf]
  | @removePod i hi =>
    rw [Cluster.readyPodsOf, Cluster.readyPodsOf, countP_split _ hi, Cluster.loses,
      List.eraseIdx_eq_take_drop_succ, List.countP_append, List.getElem?_eq_getElem hi]
    cases hready : w.pods[i].ready <;> by_cases htemp : w.pods[i].template = template <;>
      simp [hready, htemp]
  | @probe i ready hi =>
    rw [Cluster.readyPodsOf, Cluster.readyPodsOf, countP_split _ hi,
      List.modify_eq_take_cons_drop hi, List.countP_append, List.countP_cons]
    cases ready with
    | true =>
      -- the pod is ready afterwards, if it was before
      by_cases htemp : w.pods[i].template = template
      · simp only [htemp, decide_true, Bool.and_true, if_true]
        split <;> omega
      · simp [htemp]
    | false =>
      rw [Cluster.loses, List.getElem?_eq_getElem hi]
      cases hready : w.pods[i].ready <;> by_cases htemp : w.pods[i].template = template <;>
        simp [hready, htemp]
  | _ => exact Nat.le_add_right ..

/-- A count is the number of pods that were counted; and of each template, as many are ready as were
counted and not lost. -/
structure CountRecord.Backs (record : CountRecord) (w : Cluster) (d : DeploymentStatus) : Prop where
  length : (record.counted.length : ℤ) = d.readyReplicas
  still : ∀ template,
    record.counted.count template ≤ w.readyPodsOf template + record.lost.count template

theorem CountRecord.Backs.after {record : CountRecord} {d : DeploymentStatus}
    (hd : record.Backs w d) (h : w.step S e = some w') : (record.after w e).Backs w' d where
  length := hd.length
  still template := by
    have hle := hd.still template
    have hstep := readyPodsOf_step h template
    dsimp only [CountRecord.after]
    rw [List.count_append]
    omega

/-- The history is that of the counts. -/
structure RecordedInv (x : Recorded) : Prop where
  cluster : ClusterInv x.cluster
  count : x.count.Backs x.cluster x.cluster.deploymentStatus
  read : ∀ ms deploy, x.cluster.reconciler = .writing ms deploy →
    ∀ d ∈ deploy, x.read.Backs x.cluster d

theorem RecordedInv.init : RecordedInv Recorded.init where
  cluster := ClusterInv.init
  count := ⟨rfl, fun template => by simp [Recorded.init, Cluster.readyPodsOf]⟩
  read := by intro ms deploy hpc; cases hpc

/-- The status that is read is the one that was counted last. -/
theorem RecordedInv.backs_deployed (hx : RecordedInv x) {d : DeploymentStatus}
    (hd : d ∈ x.cluster.deployed) : x.count.Backs x.cluster d := by
  obtain ⟨deployment, -, rfl⟩ := Option.map_eq_some_iff.mp hd
  exact hx.count

/-- **What the history says of a count stays so**, from the count on. -/
theorem RecordedInv.step (hx : RecordedInv x) (h : x.step S e = some x') : RecordedInv x' := by
  simp only [Recorded.step, Option.map_eq_some_iff] at h
  obtain ⟨w, hstep, rfl⟩ := h
  have hcluster := hx.cluster.step hstep
  have hcount := hx.count.after hstep
  cases clusterFires_of_step hstep with
  | countPods hdep =>
    refine ⟨hcluster, ⟨?_, ?_⟩, fun ms deploy hpc d hd => (hx.read ms deploy hpc d hd).after hstep⟩
    · exact congrArg _ (length_readyTemplates x.cluster)
    · intro template
      rw [count_readyTemplates]
      exact Nat.le_add_right ..
  | @update now now' ms hpc =>
    refine ⟨hcluster, hcount, ?_⟩
    rintro ms' deploy hpc' d hd
    obtain ⟨-, rfl⟩ := ReconcilePc.writing.inj hpc'
    have hbacks := hx.backs_deployed hd
    exact ⟨hbacks.length, hbacks.still⟩
  | create | edit | makePod | removePod | probe =>
    exact ⟨hcluster, hcount, fun ms deploy hpc d hd => (hx.read ms deploy hpc d hd).after hstep⟩
  | getNone | get | applyDeployment | applyService | unchanged | write | conflict | error =>
    exact ⟨hcluster, hcount, fun ms deploy hpc => by cases hpc⟩

/-- A count that is enough, of pods of its own template that have not been lost, is one of pods that
are ready. -/
theorem readyPodsOf_of_countedOwn {ms : ModelServer} {d : DeploymentStatus} {record : CountRecord}
    (hbacks : record.Backs w d)
    (hown : (∀ template ∈ record.counted, template = (buildDeployment ms).template) ∧
      (buildDeployment ms).template ∉ record.lost) :
    d.readyReplicas ≤ w.readyPodsOf (buildDeployment ms).template := by
  have hall : record.counted.count (buildDeployment ms).template = record.counted.length :=
    List.count_eq_length.mpr fun template htemplate => (hown.1 template htemplate).symm
  have hnone : record.lost.count (buildDeployment ms).template = 0 :=
    List.count_eq_zero.mpr hown.2
  have hstill := hbacks.still (buildDeployment ms).template
  have hlength := hbacks.length
  omega

/-- A status that says no more than a count of its own pods can be relied upon. -/
theorem readyMeansReady_of_reports {current ms : ModelServer} {deploy : Option DeploymentStatus}
    {record : CountRecord} (hcur : w.server = some current) (hfetched : Fetched w current ms)
    (hreports : Reports current.status ms deploy) (hbacks : ∀ d ∈ deploy, record.Backs w d)
    (hown : CountedOwn ms deploy record) : ReadyMeansReady w := by
  intro ms' hms' hready
  obtain rfl := Option.some.inj (hcur.symm.trans hms')
  refine ⟨ms.spec, by rw [hreports.generation]; exact hfetched.spec, ?_⟩
  intro hone
  have htemplate : (buildDeployment { current with spec := ms.spec }).template
      = (buildDeployment ms).template := by
    simp [buildDeployment, instanceLabels, serverContainer, hfetched.name]
  obtain ⟨d, hd, henough⟩ := hreports.ready hready
  rw [htemplate]
  exact Int.le_trans henough (readyPodsOf_of_countedOwn (hbacks d hd) (hown d hd hone henough))

/-- The end of one call. -/
theorem endsTruthfully_of_counts (hx : RecordedInv x) (h : x.step S e = some x')
    (hcounts : CountsOwnPods S x e) : EndsTruthfully S x.cluster e := by
  simp only [Recorded.step, Option.map_eq_some_iff] at h
  obtain ⟨w', hstep, rfl⟩ := h
  intro hends v hv
  have hown := hcounts hends
  obtain rfl := Option.some.inj (hv.symm.trans hstep)
  have hloc := hx.cluster.locals
  simp only [Cluster.ends, hstep, Bool.and_eq_true, Bool.not_eq_true', Option.map_some,
    Option.getD_some] at hends
  obtain ⟨hbefore, hafter⟩ := hends
  cases clusterFires_of_step hstep with
  | create | edit | makePod | removePod | countPods | probe =>
    rw [hbefore] at hafter
    cases hafter
  | get | applyDeployment | applyService | update | conflict | error => cases hafter
  | getNone hrest hnone =>
    intro ms hms
    cases hnone.symm.trans hms
  | @unchanged now now' ms hpc hsame =>
    rw [hpc] at hloc
    obtain ⟨current, hcur, hfetched, hstatus⟩ := hloc
    -- nothing is written: the stored status is the one computed
    have hreports : Reports current.status ms x.cluster.deployed := by
      rw [hstatus, ← computeStatus_unchanged hsame]
      exact reports_computeStatus S now now' ms x.cluster.deployed
    have hcounted : CountedOwn ms x.cluster.deployed x.count :=
      hown (ms, x.cluster.deployed, x.count) (by simp [Recorded.reads, hpc])
    refine readyMeansReady_of_reports hcur ⟨hfetched.name, hfetched.spec⟩ hreports ?_ hcounted
    intro d hd
    have hbacks := hx.backs_deployed hd
    exact ⟨hbacks.length, hbacks.still⟩
  | @write ms current deploy hpc hcur hversion =>
    rw [hpc] at hloc
    obtain ⟨current', hcur', hfetched, hreports⟩ := hloc
    rw [hcur] at hcur'
    obtain rfl := Option.some.inj hcur'
    have hcounted : CountedOwn ms deploy x.read :=
      hown (ms, deploy, x.read) (by simp [Recorded.reads, hpc])
    refine readyMeansReady_of_reports rfl ⟨hfetched.name, hfetched.spec⟩
      ⟨hreports.generation, hreports.ready⟩ ?_ hcounted
    intro d hd
    have hbacks := hx.read ms deploy hpc d hd
    exact ⟨hbacks.length, hbacks.still⟩

/-- **Ready means that the current model is ready**, in every run in which the counts are about
it.  Suppose that whenever a call of `Reconcile` ends on a count that is enough for the spec
it fetched, that count was taken when no pod of another template was ready, and no ready pod of
its own template has been lost since.  Then, whatever comes between the count, its reading
and the end of the call, whenever a call ends and leaves the resource `Available`, or in phase
`Ready`, with some observed generation, as many pods made from the template of that
generation are ready as it asks for. -/
theorem ready_means_ready {events : List ClusterEvent}
    (h : run (Cluster.step S) Cluster.init events = some w)
    (hcounts : Along (Recorded.step S) (CountsOwnPods S) Recorded.init events) :
    Along (Cluster.step S) (EndsTruthfully S) Cluster.init events := by
  have hproject : ∀ (y : Recorded) (a : ClusterEvent),
      (y.step S a).map Recorded.cluster = y.cluster.step S a := by
    intro y a
    simp [Recorded.step, Option.map_map, Function.comp_def]
  have hinit : run (Cluster.step S) Recorded.init.cluster events = some w := h
  obtain ⟨⟨x, hx, -⟩, halong⟩ := run_along_of_project Recorded.cluster hproject hinit
  exact halong (along_imp RecordedInv (fun hy hstep => hy.step hstep)
    (fun hy hstep hok => endsTruthfully_of_counts hy hstep hok) RecordedInv.init hx hcounts)

/-- A resource is created and reconciled, its pod comes up, and it is reconciled again. -/
def firstRollout : List ClusterEvent :=
  [.create "llm" "default" "u1" { model := "A" },
    .get, .applyDeployment, .applyService, .updateStatus 1 1, .writeStatus,
    .makePod (buildDeployment ⟨"llm", "default", "u1", 1, 1, { model := "A" }, {}⟩).template,
    .probe 0 true, .countPods,
    .get, .applyDeployment, .applyService, .updateStatus 2 2, .writeStatus]

/-- The model is edited; the new pod is ready and the old one is not when they are counted, between
two steps of a call; and the old one is ready again before the call writes the status. -/
def secondRollout : List ClusterEvent :=
  firstRollout ++ [.edit { model := "B" }, .get, .applyDeployment,
    .makePod (buildDeployment ⟨"llm", "default", "u1", 1, 1, { model := "B" }, {}⟩).template,
    .probe 0 false, .probe 1 true, .countPods, .applyService, .updateStatus 3 3, .probe 0 true,
    .writeStatus]

/-- The first model is ready, and then the second one. -/
theorem ready_means_ready_second_rollout :
    Along (Cluster.step metaSetStatusCondition) (EndsTruthfully metaSetStatusCondition)
        Cluster.init secondRollout ∧
      ∃ ms ∈ (runD (Cluster.step metaSetStatusCondition) Cluster.init secondRollout).server,
        ms.spec.model = "B" ∧ ms.status.phase = some .ready ∧ ms.status.observedGeneration = 2 := by
  have h := run_eq_runD (show (run (Cluster.step metaSetStatusCondition) Cluster.init
    secondRollout).isSome = true by decide)
  exact ⟨ready_means_ready h (by decide), by decide⟩

/-- The model is edited once it is ready, and the resource is reconciled up to the write. -/
def editedRollout : List ClusterEvent :=
  firstRollout ++ [.edit { model := "B" }, .get, .applyDeployment, .applyService,
    .updateStatus 3 3]

/-- The write leaves the resource ready, now at the new generation, with no pod of the new model,
although the count is the number of ready pods there are. -/
theorem ready_without_the_model : ∃ u w,
    run (Cluster.step metaSetStatusCondition) Cluster.init editedRollout = some u ∧
    run (Cluster.step metaSetStatusCondition) u [.writeStatus] = some w ∧
    u.ends metaSetStatusCondition .writeStatus = true ∧
    (∃ ms ∈ w.server, ms.spec.model = "B" ∧ ms.spec.replicas = 1 ∧ ms.status.Available ∧
      ms.status.phase = some .ready ∧ ms.status.observedGeneration = 2 ∧
      w.specAt 2 = some ms.spec ∧ w.readyPodsOf (buildDeployment ms).template = 0) ∧
    w.deploymentStatus = ⟨w.pods.length, w.readyPods⟩ ∧
    ¬ EndsTruthfully metaSetStatusCondition u .writeStatus := by
  have hu := run_eq_runD (show (run (Cluster.step metaSetStatusCondition) Cluster.init
    editedRollout).isSome = true by decide)
  have hw := run_eq_runD (show (run (Cluster.step metaSetStatusCondition)
    (runD (Cluster.step metaSetStatusCondition) Cluster.init editedRollout)
    [.writeStatus]).isSome = true by decide)
  exact ⟨_, _, hu, hw, by decide, by decide, by decide, by decide⟩

end Ready

end NanoKube
