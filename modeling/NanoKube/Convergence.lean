import NanoKube.Cluster
import NanoKube.StatusUpdate

/-!
# After the last edit

`Reconcile` applies objects that depend on the resource alone, and writes a status only if it
is new.  A call that was under way when the user edited the spec may still apply what it made
of the old one; but the next call that is not interrupted by an edit leaves the objects as
the spec has them, its write is not refused, and no later call changes them.

As long as the count in the Deployment's status stays, too, no later call writes anything: so
the watch on the resource has nothing to tell, and the controller comes to rest.

All of this is for reads that are fresh, and for objects that nobody else writes to, as in
`Cluster`: a call that reads an old copy of the resource applies what it makes of that.

## Main definitions

* `Synced` — the objects are those of the resource, and its status is about its generation.
* `CurrentCall` — a call that goes on has the resource as it is.
* `Silent` — a status computed now would not be written; `AtRest` — nor by a call under way.

## Main results

* `CurrentCall.step` — what a call does for a resource that is not edited.
* `converges` — **a call after the last edit brings the objects in line, for good.**
* `comes_to_rest` — and while the counts stay, nothing is written any more.
-/

namespace NanoKube

/-- The event is none of the user's. -/
def ClusterEvent.quiet : ClusterEvent → Bool
  | .create .. | .edit _ => false
  | _ => true

/-- The event leaves the Deployment's status as it is. -/
def ClusterEvent.keepsCount : ClusterEvent → Bool
  | .countPods => false
  | _ => true

/-- What is in the cluster is what the controller makes of the resource. -/
structure Synced (w : Cluster) (ms : ModelServer) : Prop where
  server : w.server = some ms
  deployment : w.deployment = some (buildDeployment ms)
  service : w.service = some (desiredService ms)
  reports : ∃ deploy, Reports ms.status ms deploy

/-- The call that goes on has the resource as it is, and has applied what it makes of it. -/
def CurrentCall (w : Cluster) : Prop :=
  match w.reconciler with
  | .idle | .done | .failed => True
  | .fetched ms => w.server = some ms
  | .deployed ms => w.server = some ms ∧ w.deployment = some (buildDeployment ms)
  | .served ms => w.server = some ms ∧ w.deployment = some (buildDeployment ms) ∧
      w.service = some (desiredService ms)
  | .writing ms _ => (∃ status, w.server = some { ms with status := status }) ∧
      w.deployment = some (buildDeployment ms) ∧ w.service = some (desiredService ms) ∧
      ∃ deploy, Reports ms.status ms deploy

section Convergence

variable {S : ConditionSetter} {w w' : Cluster} {e : ClusterEvent}

/-- Nothing but an edit changes more of the resource than its version and its status. -/
theorem server_of_quiet (hquiet : e.quiet = true) (h : w.step S e = some w') {ms : ModelServer}
    (hms : w.server = some ms) : ∃ version status,
      w'.server = some { ms with resourceVersion := version, status := status } := by
  cases clusterFires_of_step h with
  | create hnone => cases hquiet
  | edit hms' hspec => cases hquiet
  | @write local' current deploy hpc hcur hversion =>
    obtain rfl := Option.some.inj (hcur.symm.trans hms)
    exact ⟨_, _, rfl⟩
  | _ => exact ⟨ms.resourceVersion, ms.status, hms⟩

/-- **A write is not refused** where the resource is as it was fetched. -/
theorem write_of_current {ms : ModelServer} {deploy : Option DeploymentStatus}
    (hpc : w.reconciler = .writing ms deploy) (hw : CurrentCall w)
    (h : w.step S .writeStatus = some w') :
    w' = { w with
      server := some { ms with resourceVersion := ms.resourceVersion + 1 }
      reconciler := .done } := by
  unfold CurrentCall at hw
  rw [hpc] at hw
  obtain ⟨⟨status, hserver⟩, -⟩ := hw
  simp only [Cluster.step, hpc, hserver, if_true, Option.some.injEq] at h
  exact h.symm

/-- **A call that is not interrupted by an edit** stays current, and ends with everything in line. -/
theorem CurrentCall.step (hw : CurrentCall w) (hquiet : e.quiet = true)
    (hsome : w.server.isSome = true) (h : w.step S e = some w') :
    CurrentCall w' ∧ (w'.reconciler = .done → (w.reconciler = .done ∧ w'.server = w.server ∧
      w'.deployment = w.deployment ∧ w'.service = w.service) ∨ ∃ ms, Synced w' ms) := by
  have hcall := hw
  unfold CurrentCall at hcall ⊢
  cases clusterFires_of_step h with
  | create hnone => cases hquiet
  | edit hms hspec => cases hquiet
  | makePod | removePod | countPods | probe =>
    exact ⟨hcall, fun hdone => Or.inl ⟨hdone, rfl, rfl, rfl⟩⟩
  | getNone hrest hnone =>
    rw [hnone] at hsome
    cases hsome
  | get hrest hms => exact ⟨hms, fun hdone => by cases hdone⟩
  | applyDeployment hpc =>
    rw [hpc] at hcall
    exact ⟨⟨hcall, rfl⟩, fun hdone => by cases hdone⟩
  | applyService hpc =>
    rw [hpc] at hcall
    exact ⟨⟨hcall.1, hcall.2, rfl⟩, fun hdone => by cases hdone⟩
  | @unchanged now now' ms hpc hsame =>
    rw [hpc] at hcall
    obtain ⟨hserver, hdeployment, hservice⟩ := hcall
    have hreports : Reports ms.status ms w.deployed := by
      rw [← computeStatus_unchanged hsame]
      exact reports_computeStatus S now now' ms w.deployed
    exact ⟨trivial, fun _ => Or.inr ⟨ms, hserver, hdeployment, hservice, w.deployed, hreports⟩⟩
  | @update now now' ms hpc =>
    rw [hpc] at hcall
    obtain ⟨hserver, hdeployment, hservice⟩ := hcall
    obtain ⟨hgen, hready⟩ := reports_computeStatus S now now' ms w.deployed
    exact ⟨⟨⟨ms.status, hserver⟩, hdeployment, hservice, w.deployed, hgen, hready⟩,
      fun hdone => by cases hdone⟩
  | @write ms current deploy hpc hcur hversion =>
    have hwritten := write_of_current hpc hw h
    rw [hpc] at hcall
    obtain ⟨-, hdeployment, hservice, deploy, hgen, hready⟩ := hcall
    refine ⟨trivial, fun _ => Or.inr ⟨{ ms with resourceVersion := ms.resourceVersion + 1 }, ?_⟩⟩
    rw [hwritten]
    exact ⟨rfl, hdeployment, hservice, deploy, hgen, hready⟩
  | conflict hpc => exact ⟨trivial, fun hdone => by cases hdone⟩
  | error hrest => exact ⟨trivial, fun hdone => by cases hdone⟩

/-- A call that has begun without an error, on a resource that is there. -/
structure Followed (w : Cluster) : Prop where
  isSome : w.server.isSome = true
  call : CurrentCall w
  synced : w.reconciler = .done → ∃ ms, Synced w ms

theorem isSome_server_of_step (h : w.step S e = some w') (hsome : w.server.isSome = true) :
    w'.server.isSome = true := by
  cases clusterFires_of_step h with
  | create | edit | write => rfl
  | _ => exact hsome

theorem followed_get (hsome : w.server.isSome = true) (h : w.step S .get = some w') :
    Followed w' := by
  cases clusterFires_of_step h with
  | getNone hrest hnone =>
    rw [hnone] at hsome
    cases hsome
  | get hrest hms => exact ⟨hsome, hms, fun hdone => by cases hdone⟩

theorem Followed.step (hw : Followed w) (hquiet : e.quiet = true) (h : w.step S e = some w') :
    Followed w' := by
  obtain ⟨hcall, hdone⟩ := hw.call.step hquiet hw.isSome h
  refine ⟨isSome_server_of_step h hw.isSome, hcall, ?_⟩
  intro hpc
  rcases hdone hpc with ⟨hwas, hserver, hdeployment, hservice⟩ | hsynced
  · obtain ⟨ms, hms⟩ := hw.synced hwas
    exact ⟨ms, hserver.trans hms.server, hdeployment.trans hms.deployment,
      hservice.trans hms.service, hms.reports⟩
  · exact hsynced

/-- **Nothing but an edit takes the objects out of line**, calls of `Reconcile` included. -/
theorem Synced.step {ms : ModelServer} (hms : Synced w ms) (hw : CurrentCall w)
    (hquiet : e.quiet = true) (h : w.step S e = some w') : ∃ ms', Synced w' ms' := by
  have hcall := hw
  unfold CurrentCall at hcall
  cases clusterFires_of_step h with
  | create hnone => cases hquiet
  | edit hms' hspec => cases hquiet
  | applyDeployment hpc =>
    rw [hpc] at hcall
    obtain rfl := Option.some.inj (hcall.symm.trans hms.server)
    exact ⟨_, hms.server, rfl, hms.service, hms.reports⟩
  | applyService hpc =>
    rw [hpc] at hcall
    obtain rfl := Option.some.inj (hcall.1.symm.trans hms.server)
    exact ⟨_, hms.server, hms.deployment, rfl, hms.reports⟩
  | @write local' current deploy hpc hcur hversion =>
    have hwritten := write_of_current hpc hw h
    rw [hpc] at hcall
    obtain ⟨-, hdeployment, hservice, deploy, hgen, hready⟩ := hcall
    rw [hwritten]
    exact ⟨_, rfl, hdeployment, hservice, deploy, hgen, hready⟩
  | _ => exact ⟨ms, hms.server, hms.deployment, hms.service, hms.reports⟩

/-- A current call does not fail on its own. -/
theorem not_failed_of_step (hw : CurrentCall w) (hpc : w.reconciler ≠ .failed) (he : e ≠ .error)
    (h : w.step S e = some w') : w'.reconciler ≠ .failed := by
  cases clusterFires_of_step h with
  | conflict hwriting =>
    have hwritten := congrArg Cluster.reconciler (write_of_current hwriting hw h)
    cases hwritten
  | error hrest => exact absurd rfl he
  | create | edit | makePod | removePod | countPods | probe => exact hpc
  | _ => simp

/-- **A call after the last edit brings the objects in line, for good**, if reads are fresh and
nobody else writes to the objects.  From any state with a resource, however the pods, their
readiness, the counts and further calls come in between: once a call that began after the last
edit has ended without an error, the Deployment and the Service are those of the spec and the
status is about its generation.  They stay so until the next edit, and only an error of the API
server makes a call fail. -/
theorem converges {u : Cluster} {ms : ModelServer} {call rest : List ClusterEvent}
    (hms : w.server = some ms) (hquiet : ∀ e ∈ call ++ rest, e.quiet = true)
    (hget : ClusterEvent.get ∈ call) (hcall : run (Cluster.step S) w call = some u)
    (hdone : u.reconciler = .done) (hrest : run (Cluster.step S) u rest = some w') :
    (∃ version status,
      Synced w' { ms with resourceVersion := version, status := status }) ∧
    ((∀ e ∈ rest, e ≠ .error) → w'.reconciler ≠ .failed) := by
  have hquietCall : ∀ e ∈ call, e.quiet = true :=
    fun e he => hquiet e (List.mem_append_left _ he)
  have hquietRest : ∀ e ∈ rest, e.quiet = true :=
    fun e he => hquiet e (List.mem_append_right _ he)
  have hu : Followed u := by
    refine run_established_of (fun e => e.quiet = true) (fun v => v.server.isSome = true) Followed
      ?_ ?_ ?_ hquietCall (by simp [hms]) hget hcall
    · exact fun _ hsome hstep => isSome_server_of_step hstep hsome
    · exact fun hsome hstep => followed_get hsome hstep
    · exact fun hq _ hv hstep => hv.step hq hstep
  have hend : CurrentCall w' ∧ ∃ ms', Synced w' ms' := by
    refine run_invariant_of (fun e => e.quiet = true)
      (fun v => CurrentCall v ∧ ∃ ms', Synced v ms') ?_ hquietRest ⟨hu.call, hu.synced hdone⟩ hrest
    rintro v e v' hq ⟨hv, ms', hms'⟩ hstep
    exact ⟨(hv.step hq (by simp [hms'.server]) hstep).1, hms'.step hv hq hstep⟩
  have hserver : ∃ version status,
      w'.server = some { ms with resourceVersion := version, status := status } := by
    have hrun : run (Cluster.step S) w (call ++ rest) = some w' := by
      rw [run_append, hcall, Option.bind_some, hrest]
    refine run_invariant_of (fun e => e.quiet = true) (fun v => ∃ version status,
      v.server = some { ms with resourceVersion := version, status := status }) ?_ hquiet
      ⟨ms.resourceVersion, ms.status, hms⟩ hrun
    rintro v e v' hq ⟨version, status, hv⟩ hstep
    obtain ⟨version', status', hv'⟩ := server_of_quiet hq hstep hv
    exact ⟨version', status', hv'⟩
  constructor
  · obtain ⟨version, status, hw'⟩ := hserver
    obtain ⟨ms', hms'⟩ := hend.2
    obtain rfl := Option.some.inj (hms'.server.symm.trans hw')
    exact ⟨version, status, hms'⟩
  · intro hno
    have hkeep : ∀ e ∈ rest, e.quiet = true ∧ e ≠ .error :=
      fun e he => ⟨hquietRest e he, hno e he⟩
    have hfinal := run_invariant_of (fun e : ClusterEvent => e.quiet = true ∧ e ≠ .error)
      (fun v => v.server.isSome = true ∧ CurrentCall v ∧ v.reconciler ≠ .failed) ?_ hkeep
      ⟨hu.isSome, hu.call, by simp [hdone]⟩ hrest
    · exact hfinal.2.2
    · rintro v e v' ⟨hq, he⟩ ⟨hsome, hv, hpc⟩ hstep
      exact ⟨isSome_server_of_step hstep hsome, (hv.step hq hsome hstep).1,
        not_failed_of_step hv hpc he hstep⟩

/-- The resource is created, and edited while it is reconciled. -/
def editedDuringCall : Cluster :=
  runD (Cluster.step metaSetStatusCondition) Cluster.init
    [.create "llm" "default" "u1" { model := "A" }, .get, .applyDeployment, .applyService,
      .edit { model := "B" }]

/-- The write is refused, and the next call brings the objects in line. -/
def callsAfterEdit : List ClusterEvent :=
  [.updateStatus 1 1, .writeStatus, .get, .applyDeployment, .applyService, .updateStatus 2 2,
    .writeStatus]

theorem converges_edited_during_call :
    let ms : ModelServer := ⟨"llm", "default", "u1", 2, 2, { model := "B" }, {}⟩
    let u := runD (Cluster.step metaSetStatusCondition) editedDuringCall callsAfterEdit
    let w' := runD (Cluster.step metaSetStatusCondition) u [.countPods, .get]
    (∃ version status, Synced w' { ms with resourceVersion := version, status := status }) ∧
      w'.reconciler ≠ .failed := by
  intro ms u w'
  have hu : run (Cluster.step metaSetStatusCondition) editedDuringCall callsAfterEdit = some u :=
    run_eq_runD (by decide)
  have hw' : run (Cluster.step metaSetStatusCondition) u [.countPods, .get] = some w' :=
    run_eq_runD (by decide)
  have hms : editedDuringCall.server = some ms := by decide
  obtain ⟨hsynced, hfailed⟩ :=
    converges hms (by decide) (by simp [callsAfterEdit]) hu rfl hw'
  exact ⟨hsynced, hfailed (by simp)⟩

/-! ### At rest -/

/-- A status that is computed for the resource, whenever that may be, is the one it has. -/
def Silent (S : ConditionSetter) (w : Cluster) (ms : ModelServer) : Prop :=
  ∀ now now' : Time, (computeStatus S now now' ms w.deployed).2 = false

/-- What is about to be written was computed for the Deployment as it is, and what was written
leaves nothing to write. -/
def CurrentStatus (S : ConditionSetter) (w : Cluster) : Prop :=
  match w.reconciler with
  | .idle | .fetched _ | .deployed _ | .served _ | .failed => True
  | .writing ms _ => ∃ now now' fetched, ms.spec = fetched.spec ∧
      ms.generation = fetched.generation ∧
      ms.status = (computeStatus S now now' fetched w.deployed).1
  | .done => ∃ ms, w.server = some ms ∧ Silent S w ms

/-- A status that nothing was new in is silent at all times. -/
theorem silent_of_unchanged {now now' : Time} {ms : ModelServer}
    (h : (computeStatus S now now' ms w.deployed).2 = false) : Silent S w ms :=
  fun _ _ => computeStatus_quiet rfl rfl (computeStatus_unchanged h).symm

theorem CurrentStatus.step (hw : CurrentStatus S w) (hcall : CurrentCall w)
    (hsome : w.server.isSome = true) (hquiet : e.quiet = true) (hcount : e.keepsCount = true)
    (h : w.step S e = some w') : CurrentStatus S w' := by
  have hstatus := hw
  unfold CurrentStatus at hstatus ⊢
  cases clusterFires_of_step h with
  | create hnone => cases hquiet
  | edit hms hspec => cases hquiet
  | countPods hdep => cases hcount
  | makePod | removePod | probe => exact hstatus
  | getNone hrest hnone =>
    rw [hnone] at hsome
    cases hsome
  | get | applyDeployment | applyService | conflict | error => trivial
  | @unchanged now now' ms hpc hsame =>
    unfold CurrentCall at hcall
    rw [hpc] at hcall
    exact ⟨ms, hcall.1, silent_of_unchanged hsame⟩
  | @update now now' ms hpc => exact ⟨now, now', ms, rfl, rfl, rfl⟩
  | @write ms current deploy hpc hcur hversion =>
    have hwritten := write_of_current hpc hcall h
    rw [hpc] at hstatus
    obtain ⟨now, now', fetched, hspec, hgen, hcomputed⟩ := hstatus
    rw [hwritten]
    -- the version is no part of what a status is computed from
    exact ⟨_, rfl, fun _ _ => computeStatus_quiet hspec hgen hcomputed⟩

/-- The objects are in line, and no call that is going on will write. -/
structure AtRest (S : ConditionSetter) (w : Cluster) (ms : ModelServer) : Prop where
  server : w.server = some ms
  deployment : w.deployment = some (buildDeployment ms)
  silent : Silent S w ms
  call : CurrentCall w
  not_writing : ∀ local' deploy, w.reconciler ≠ .writing local' deploy

/-- A silent status is not written. -/
theorem done_of_silent {now now' : Time} {ms : ModelServer} (hpc : w.reconciler = .served ms)
    (hsilent : Silent S w ms) (h : w.step S (.updateStatus now now') = some w') :
    w' = { w with reconciler := .done } := by
  simp only [Cluster.step, hpc, updateStatus_lookup, hsilent now now', Bool.false_eq_true,
    if_false, Option.some.injEq] at h
  exact h.symm

theorem AtRest.step {ms : ModelServer} (hw : AtRest S w ms) (hquiet : e.quiet = true)
    (hcount : e.keepsCount = true) (h : w.step S e = some w') : AtRest S w' ms := by
  have hcall' := (hw.call.step hquiet (by simp [hw.server]) h).1
  have hcall := hw.call
  unfold CurrentCall at hcall
  cases clusterFires_of_step h with
  | create hnone => cases hquiet
  | edit hms hspec => cases hquiet
  | countPods hdep => cases hcount
  | makePod | removePod | probe =>
    exact ⟨hw.server, hw.deployment, hw.silent, hcall', hw.not_writing⟩
  | getNone | get | applyService | unchanged | error =>
    exact ⟨hw.server, hw.deployment, hw.silent, hcall', by simp⟩
  | @applyDeployment fetched hpc =>
    rw [hpc] at hcall
    obtain rfl := Option.some.inj (hcall.symm.trans hw.server)
    -- the Deployment is there already, so its status is found as before
    have hdeployed : w.deployed = some w.deploymentStatus := by
      simp [Cluster.deployed, hw.deployment]
    have hsilent := hw.silent
    unfold Silent at hsilent
    rw [hdeployed] at hsilent
    exact ⟨hw.server, rfl, hsilent, hcall', by simp⟩
  | @update now now' fetched hpc =>
    rw [hpc] at hcall
    obtain rfl := Option.some.inj (hcall.1.symm.trans hw.server)
    have hdone := congrArg Cluster.reconciler (done_of_silent hpc hw.silent h)
    cases hdone
  | @write written current deploy hpc hcur hversion => exact absurd hpc (hw.not_writing _ _)
  | @conflict written deploy hpc => exact absurd hpc (hw.not_writing _ _)

/-- **The controller comes to rest**, if reads are fresh and nobody else writes to the objects.
Once a call that began after the last edit has ended without an error, and as long as the counts
in the Deployment's status stay as well, no later call of `Reconcile` changes the resource at
all: its version stays, so the watch on it has nothing to tell. -/
theorem comes_to_rest {u : Cluster} {call rest : List ClusterEvent}
    (hsome : w.server.isSome = true)
    (hquiet : ∀ e ∈ call ++ rest, e.quiet = true ∧ e.keepsCount = true)
    (hget : ClusterEvent.get ∈ call) (hcall : run (Cluster.step S) w call = some u)
    (hdone : u.reconciler = .done) (hrest : run (Cluster.step S) u rest = some w') :
    w'.server = u.server ∧ w'.deployment = u.deployment := by
  have hquietCall : ∀ e ∈ call, e.quiet = true ∧ e.keepsCount = true :=
    fun e he => hquiet e (List.mem_append_left _ he)
  have hquietRest : ∀ e ∈ rest, e.quiet = true ∧ e.keepsCount = true :=
    fun e he => hquiet e (List.mem_append_right _ he)
  have hu : Followed u ∧ CurrentStatus S u := by
    refine run_established_of (fun e => e.quiet = true ∧ e.keepsCount = true)
      (fun v => v.server.isSome = true) (fun v => Followed v ∧ CurrentStatus S v)
      ?_ ?_ ?_ hquietCall hsome hget hcall
    · exact fun _ hv hstep => isSome_server_of_step hstep hv
    · intro v v' hv hstep
      refine ⟨followed_get hv hstep, ?_⟩
      cases clusterFires_of_step hstep with
      | getNone hrest hnone =>
        rw [hnone] at hv
        cases hv
      | get hrest hms => trivial
    · exact fun hq _ hv hstep => ⟨hv.1.step hq.1 hstep,
        hv.2.step hv.1.call hv.1.isSome hq.1 hq.2 hstep⟩
  obtain ⟨ms, hms⟩ := hu.1.synced hdone
  have hstatus := hu.2
  unfold CurrentStatus at hstatus
  rw [hdone] at hstatus
  obtain ⟨ms', hms', hsilent⟩ := hstatus
  obtain rfl := Option.some.inj (hms'.symm.trans hms.server)
  have hatRest : AtRest S w' ms' := by
    refine run_invariant_of (fun e => e.quiet = true ∧ e.keepsCount = true)
      (fun v => AtRest S v ms') (fun hq hv hstep => hv.step hq.1 hq.2 hstep) hquietRest ?_ hrest
    exact ⟨hms.server, hms.deployment, hsilent, hu.1.call, by simp [hdone]⟩
  exact ⟨hatRest.server.trans hms.server.symm, hatRest.deployment.trans hms.deployment.symm⟩

/-- The first rollout, up to the count of its pod. -/
def countedRollout : Cluster :=
  runD (Cluster.step metaSetStatusCondition) Cluster.init (firstRollout.take 9)

/-- Afterwards, a pod comes and goes, and time passes. -/
theorem comes_to_rest_first_rollout :
    let u := runD (Cluster.step metaSetStatusCondition) countedRollout (firstRollout.drop 9)
    let w' := runD (Cluster.step metaSetStatusCondition) u
      [.probe 0 false, .get, .applyDeployment, .applyService, .updateStatus 7 8, .probe 0 true,
        .get, .applyDeployment, .applyService, .updateStatus 9 9]
    w'.reconciler = .done ∧ w'.server = u.server ∧ w'.deployment = u.deployment := by
  intro u w'
  have hu : run (Cluster.step metaSetStatusCondition) countedRollout (firstRollout.drop 9)
      = some u := run_eq_runD (by decide)
  have hw' : run (Cluster.step metaSetStatusCondition) u
      [.probe 0 false, .get, .applyDeployment, .applyService, .updateStatus 7 8, .probe 0 true,
        .get, .applyDeployment, .applyService, .updateStatus 9 9] = some w' :=
    run_eq_runD (by decide)
  exact ⟨rfl, comes_to_rest (by decide) (by decide) (by simp [firstRollout]) hu rfl hw'⟩

end Convergence

end NanoKube
