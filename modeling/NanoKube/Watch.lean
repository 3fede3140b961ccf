import NanoKube.Convergence
import NanoKube.Informer

/-!
# The watches

`SetupWithManager` has the controller watch the resource and the objects it owns.  The manager's
client reads the resource and the Deployment from copies that the watches keep, and it writes
to the API server.  So a change is told some time after it was made, in the order of the
changes but perhaps not each of them; it is in the copy when it is told, and then the resource
is put into a queue, where it is once or not at all.  A call of `Reconcile` takes it out, and
puts it back if it returns an error.  Nothing else starts a call.

So a change must not be lost: one that a call has not seen yet is on its way, or has left the
resource in the queue.  And the calls must come to an end, though each of them may cause the
next one by what it writes.

This is all that is assumed of the manager, which is third-party code; and nobody but this
controller writes to the Deployment and the Service it applies.

## Main definitions

* `Watched`, `Watched.step` — the cluster with the copies of its objects and the queue.
* `Agenda` — the cluster, and whether there is something that a call has still to see.
* `AgendaInv` — with nothing on the agenda, the call that goes on has everything as it is.
* `InLine`, `Agenda.due` — how many steps the controller has still to take.

## Main results

* `agenda_moves` — a step of the manager is one of the agenda, unless a call reads an old copy.
* `level_triggered` — **with nothing queued, nothing on its way and no call going on, the objects
  are in line and the status is about the counts there are.**
* `settles` — left alone, the controller gets there, in a number of steps that is bounded unless
  calls go on reading old copies.
-/

namespace NanoKube

/-- The call has returned an error. -/
def ReconcilePc.isFailed : ReconcilePc → Bool
  | .failed => true
  | .idle | .done | .fetched _ | .deployed _ | .served _ | .writing _ _ => false

/-- The call that went on has ended with an error. -/
def Cluster.erred (w w' : Cluster) : Bool := !w.reconciler.resting && w'.reconciler.isFailed

/-- The calls to the client that read from the copies. -/
def ClusterEvent.reads : ClusterEvent → Bool
  | .get | .updateStatus .. => true
  | _ => false

/-- What is watched: `For` the resource, `Owns` the Deployment with its status, and the Service. -/
inductive WatchedKind
  | server
  | deployment
  | service

/-- The cluster, the copies of what is watched, and whether the resource is in the queue. -/
structure Watched where
  cluster : Cluster
  servers : Informer (Option ModelServer)
  deployments : Informer (Option Deployment × DeploymentStatus)
  services : Informer (Option Service)
  queued : Bool

/-- What can happen. -/
inductive WatchedEvent
  | event (e : ClusterEvent)
  /-- A change is told, and perhaps some before it are not. -/
  | deliver (kind : WatchedKind) (skipped : ℕ)
  /-- The resource is put into the queue without a change. -/
  | resync

namespace Watched

/-- Nothing is there. -/
def init : Watched where
  cluster := Cluster.init
  servers := .start none
  deployments := .start (none, {})
  services := .start none
  queued := false

/-- The cluster, as the client reads it. -/
def seen (x : Watched) : Cluster :=
  { x.cluster with
    server := x.servers.cached
    deployment := x.deployments.cached.1
    deploymentStatus := x.deployments.cached.2 }

/-- The effect of an event on the cluster: what a call reads is what the copies have. -/
def fires (S : ConditionSetter) (x : Watched) (e : ClusterEvent) : Option Cluster :=
  if e.reads then (x.seen.step S e).map fun w => { x.cluster with reconciler := w.reconciler }
  else x.cluster.step S e

/-- What has changed is on its way, and an error puts the resource into the queue. -/
def follow (x : Watched) (w : Cluster) : Watched where
  cluster := w
  servers := x.servers.tell w.server
  deployments := x.deployments.tell (w.deployment, w.deploymentStatus)
  services := x.services.tell w.service
  queued := x.queued || x.cluster.erred w

/-- A change arrives. -/
def deliver (x : Watched) (skipped : ℕ) : WatchedKind → Option Watched
  | .server => (x.servers.deliver skipped).map fun i => { x with servers := i, queued := true }
  | .deployment =>
    (x.deployments.deliver skipped).map fun i => { x with deployments := i, queued := true }
  | .service => (x.services.deliver skipped).map fun i => { x with services := i, queued := true }

/-- The effect of an event.  A call begins by taking the resource out of the queue. -/
def step (S : ConditionSetter) (x : Watched) : WatchedEvent → Option Watched
  -- only the queue starts a call
  | .event .get =>
    if x.queued then (x.fires S .get).map fun w => { x.follow w with queued := false } else none
  | .event e => (x.fires S e).map x.follow
  | .deliver kind skipped => x.deliver skipped kind
  | .resync => some { x with queued := true }

/-- How many changes are on their way. -/
def late (x : Watched) : ℕ :=
  x.servers.coming.length + x.deployments.coming.length + x.services.coming.length

end Watched

variable {S : ConditionSetter} {x x' : Watched} {e : ClusterEvent}

theorem late_eq_zero : x.late = 0 ↔
    x.servers.coming = [] ∧ x.deployments.coming = [] ∧ x.services.coming = [] := by
  simp [Watched.late, Nat.add_eq_zero_iff, and_assoc]

/-- The copies are told of everything; and of a resource that has never been there, nothing. -/
structure WatchedInv (x : Watched) : Prop where
  server : x.servers.latest = x.cluster.server
  deployment : x.deployments.latest = (x.cluster.deployment, x.cluster.deploymentStatus)
  service : x.services.latest = x.cluster.service
  absent : x.cluster.server = none →
    x.servers = .start none ∧ x.cluster.reconciler.resting = true

theorem WatchedInv.init : WatchedInv Watched.init where
  server := rfl
  deployment := rfl
  service := rfl
  absent := fun _ => ⟨rfl, rfl⟩

/-- **With nothing on its way, a call reads what there is.** -/
theorem fires_of_current (hx : WatchedInv x) (hlate : x.late = 0) :
    x.fires S e = x.cluster.step S e := by
  obtain ⟨hservers, hdeployments, -⟩ := late_eq_zero.mp hlate
  have hseen : x.seen = x.cluster := by
    have hserver := (Informer.cached_of_coming hservers).trans hx.server
    have hdeployment := (Informer.cached_of_coming hdeployments).trans hx.deployment
    rw [Watched.seen, hserver, hdeployment]
  unfold Watched.fires
  split
  · next hreads =>
    rw [hseen]
    cases hstep : x.cluster.step S e with
    | none => rfl
    | some w =>
      -- what reads leaves the objects alone
      cases clusterFires_of_step hstep with
      | getNone | get | unchanged | update => rfl
      | _ => cases hreads
  · rfl

/-- **What a step does to the queue.**  It is emptied by the call that begins; otherwise the
resource is in it if it was, or if a call ended with an error. -/
theorem watched_cases (h : x.step S (.event e) = some x') :
    ∃ w, x.fires S e = some w ∧
      ((e = .get ∧ x.queued = true ∧ x' = { x.follow w with queued := false }) ∨
        (e ≠ .get ∧ x' = x.follow w)) := by
  by_cases hget : e = .get
  · subst hget
    simp only [Watched.step, Option.ite_none_right_eq_some, Option.map_eq_some_iff] at h
    obtain ⟨hqueued, w, hw, rfl⟩ := h
    exact ⟨w, hw, Or.inl ⟨rfl, hqueued, rfl⟩⟩
  · have hstep : x.step S (.event e) = (x.fires S e).map x.follow := by
      cases e with
      | get => exact absurd rfl hget
      | _ => rfl
    rw [hstep, Option.map_eq_some_iff] at h
    obtain ⟨w, hw, rfl⟩ := h
    exact ⟨w, hw, Or.inr ⟨hget, rfl⟩⟩

/-- A call that reads changes nothing but its own variables. -/
theorem fires_of_reads (hreads : e.reads = true) {w : Cluster} (h : x.fires S e = some w) :
    ∃ seen, x.seen.step S e = some seen ∧ w = { x.cluster with reconciler := seen.reconciler } := by
  rw [Watched.fires, if_pos hreads, Option.map_eq_some_iff] at h
  obtain ⟨seen, hseen, rfl⟩ := h
  exact ⟨seen, hseen, rfl⟩

theorem fires_of_not_reads (hreads : e.reads = false) : x.fires S e = x.cluster.step S e := by
  rw [Watched.fires, hreads, if_neg Bool.false_ne_true]

/-- Nothing happens to a resource that is not there but that it is created. -/
theorem absent_of_fires (hx : WatchedInv x) {w : Cluster} (h : x.fires S e = some w)
    (hnone : w.server = none) : x.cluster.server = none ∧ w.reconciler.resting = true := by
  cases hreads : e.reads with
  | true =>
    obtain ⟨seen, hseen, rfl⟩ := fires_of_reads hreads h
    obtain ⟨hservers, hrest⟩ := hx.absent hnone
    refine ⟨hnone, ?_⟩
    have hcached : x.seen.server = none := by rw [Watched.seen, hservers]; rfl
    cases clusterFires_of_step hseen with
    | getNone => rfl
    | get hrest' hms => cases hcached.symm.trans hms
    | unchanged hpc => rfl
    | update hpc =>
      have hresting : x.seen.reconciler.resting = true := hrest
      rw [hpc] at hresting
      cases hresting
    | _ => cases hreads
  | false =>
    rw [fires_of_not_reads hreads] at h
    cases clusterFires_of_step h with
    | create | edit | write => cases hnone
    | get | getNone | update | unchanged => cases hreads
    | makePod | removePod | countPods | probe => exact ⟨hnone, (hx.absent hnone).2⟩
    | applyDeployment hpc | applyService hpc =>
      have hresting := (hx.absent hnone).2
      rw [hpc] at hresting
      cases hresting
    | conflict | error => exact ⟨hnone, rfl⟩

theorem WatchedInv.follow (hx : WatchedInv x) {w : Cluster} (h : x.fires S e = some w)
    (queued : Bool) : WatchedInv { x.follow w with queued := queued } where
  server := Informer.latest_tell ..
  deployment := Informer.latest_tell ..
  service := Informer.latest_tell ..
  absent hnone := by
    obtain ⟨hwas, hrest⟩ := absent_of_fires hx h hnone
    refine ⟨?_, hrest⟩
    have hserver : w.server = none := hnone
    have hlatest : x.servers.latest = w.server := by rw [hx.server, hwas, hserver]
    dsimp only [Watched.follow]
    rw [Informer.tell_latest hlatest, (hx.absent hwas).1]

theorem WatchedInv.step {a : WatchedEvent} (hx : WatchedInv x) (h : x.step S a = some x') :
    WatchedInv x' := by
  cases a with
  | resync =>
    obtain rfl := Option.some.inj h
    exact ⟨hx.server, hx.deployment, hx.service, hx.absent⟩
  | deliver kind skipped =>
    cases kind with
    | server =>
      obtain ⟨i, hi, rfl⟩ := Option.map_eq_some_iff.mp h
      refine ⟨(Informer.latest_of_deliver hi).trans hx.server, hx.deployment, hx.service, ?_⟩
      intro hnone
      have hlt := Informer.length_of_deliver hi
      rw [(hx.absent hnone).1] at hlt
      cases hlt
    | deployment =>
      obtain ⟨i, hi, rfl⟩ := Option.map_eq_some_iff.mp h
      exact ⟨hx.server, (Informer.latest_of_deliver hi).trans hx.deployment, hx.service, hx.absent⟩
    | service =>
      obtain ⟨i, hi, rfl⟩ := Option.map_eq_some_iff.mp h
      exact ⟨hx.server, hx.deployment, (Informer.latest_of_deliver hi).trans hx.service, hx.absent⟩
  | event e =>
    obtain ⟨w, hw, ⟨-, -, rfl⟩ | ⟨-, rfl⟩⟩ := watched_cases h
    · exact hx.follow hw false
    · exact hx.follow hw _

/-! ### The agenda -/

/-- The watches of `SetupWithManager` see a change. -/
def Cluster.changed (w w' : Cluster) : Bool :=
  decide (w'.server ≠ w.server) || decide (w'.deployment ≠ w.deployment)
    || decide (w'.deploymentStatus ≠ w.deploymentStatus) || decide (w'.service ≠ w.service)

theorem Cluster.changed_eq_false {w w' : Cluster} : w.changed w' = false ↔
    w'.server = w.server ∧ w'.deployment = w.deployment ∧
      w'.deploymentStatus = w.deploymentStatus ∧ w'.service = w.service := by
  simp [Cluster.changed, and_assoc]

/-- The cluster, and whether there is something that a call has still to see. -/
structure Agenda where
  cluster : Cluster
  pending : Bool

/-- What is in the queue is pending, and what is on its way. -/
def Watched.agenda (x : Watched) : Agenda := ⟨x.cluster, x.queued || decide (x.late ≠ 0)⟩

/-- **What an event does to the agenda**, if the call that reads something reads it as it is. -/
structure Agenda.Moves (S : ConditionSetter) (y : Agenda) (e : ClusterEvent) (y' : Agenda) :
    Prop where
  step : y.cluster.step S e = some y'.cluster
  pending : (e = .get ∧ y.pending = true ∧ y'.pending = false) ∨
    (e ≠ .get ∧ y'.pending
      = (y.pending || y.cluster.changed y'.cluster || y.cluster.erred y'.cluster))

theorem late_follow (hx : WatchedInv x) (w : Cluster) :
    (x.follow w).late = 0 ↔ x.late = 0 ∧ x.cluster.changed w = false := by
  rw [late_eq_zero, late_eq_zero, Cluster.changed_eq_false, Watched.follow]
  simp only [Informer.coming_tell_eq_nil, hx.server, hx.deployment, hx.service, Prod.mk.injEq]
  tauto

/-- **A step of the manager is one of the agenda**, unless a call reads an old copy. -/
theorem agenda_moves (hx : WatchedInv x) (hfresh : e.reads = true → x.late = 0)
    (h : x.step S (.event e) = some x') : Agenda.Moves S x.agenda e x'.agenda := by
  obtain ⟨w, hw, hqueue⟩ := watched_cases h
  have hstep : x.cluster.step S e = some w := by
    cases hreads : e.reads with
    | true => rw [← fires_of_current hx (hfresh hreads), hw]
    | false => rw [← fires_of_not_reads hreads, hw]
  rcases hqueue with ⟨rfl, hqueued, rfl⟩ | ⟨hget, rfl⟩
  · refine ⟨hstep, Or.inl ⟨rfl, by simp [Watched.agenda, hqueued], ?_⟩⟩
    -- reading has changed nothing, and nothing was on its way
    obtain ⟨seen, -, rfl⟩ := fires_of_reads rfl hw
    have hlate := (late_follow hx { x.cluster with reconciler := seen.reconciler }).mpr
      ⟨hfresh rfl, Cluster.changed_eq_false.mpr ⟨rfl, rfl, rfl, rfl⟩⟩
    have hlate' : Watched.late
        { x.follow { x.cluster with reconciler := seen.reconciler } with queued := false } = 0 :=
      hlate
    simp [Watched.agenda, hlate']
  · refine ⟨hstep, Or.inr ⟨hget, ?_⟩⟩
    have hlate := late_follow hx w
    have hqueued : (x.follow w).queued = (x.queued || x.cluster.erred w) := rfl
    have hcluster : (x.follow w).cluster = w := rfl
    simp only [Watched.agenda, hqueued, hcluster]
    cases hchanged : x.cluster.changed w with
    | true =>
      have hnot : (x.follow w).late ≠ 0 := by
        intro hzero
        cases hchanged.symm.trans (hlate.mp hzero).2
      simp [hnot]
    | false =>
      have hiff : (x.follow w).late = 0 ↔ x.late = 0 := by simp [hlate, hchanged]
      simp only [ne_eq, hiff, Bool.or_false]
      cases x.queued <;> cases x.cluster.erred w <;> simp

/-! ### No change is lost -/

/-- With nothing pending, a resource that is there was fetched as it is, by a call that goes on
or has ended without an error. -/
def AgendaInv (S : ConditionSetter) (y : Agenda) : Prop :=
  y.pending = false → y.cluster.server.isSome = true →
    Followed y.cluster ∧ CurrentStatus S y.cluster ∧
      (y.cluster.reconciler.resting = true → y.cluster.reconciler = .done)

/-- A change that no watch sees is none. -/
theorem quiet_of_not_changed {w w' : Cluster} (h : w.step S e = some w')
    (hsame : w.changed w' = false) : e.quiet = true ∧ (e.keepsCount = true ∨ w' = w) := by
  obtain ⟨hserver, -, hstatus, -⟩ := Cluster.changed_eq_false.mp hsame
  cases clusterFires_of_step h with
  | create hnone =>
    rw [hnone] at hserver
    cases hserver
  | edit hms hspec =>
    -- an edit that changes nothing is none
    rw [hms] at hserver
    have hgen := congrArg ModelServer.spec (Option.some.inj hserver)
    exact absurd hgen hspec
  | countPods hdep =>
    -- the counts are the ones that were written before
    refine ⟨rfl, Or.inr ?_⟩
    dsimp only at hstatus
    rw [hstatus]
  | _ => exact ⟨rfl, Or.inl rfl⟩

theorem AgendaInv.step {y y' : Agenda} (hy : AgendaInv S y) (h : Agenda.Moves S y e y') :
    AgendaInv S y' := by
  intro hpending hsome
  obtain ⟨hstep, ⟨rfl, -, -⟩ | ⟨hget, hqueue⟩⟩ := h
  · -- a call has begun, and has the resource as it is
    obtain ⟨w', pending'⟩ := y'
    cases clusterFires_of_step hstep with
    | getNone hrest hnone =>
      rw [hnone] at hsome
      cases hsome
    | get hrest hms =>
      exact ⟨⟨hsome, hms, fun hdone => by cases hdone⟩, trivial, fun hrests => by cases hrests⟩
  · -- nothing has changed and no call failed: whoever was up to date still is
    rw [hpending, eq_comm, Bool.or_eq_false_iff, Bool.or_eq_false_iff] at hqueue
    obtain ⟨⟨hwas, hsame⟩, herr⟩ := hqueue
    have hserver := (Cluster.changed_eq_false.mp hsame).1
    obtain ⟨hfollowed, hstatus, hrest⟩ := hy hwas (hserver ▸ hsome)
    obtain ⟨hquiet, hcount | hcluster⟩ := quiet_of_not_changed hstep hsame
    · refine ⟨hfollowed.step hquiet hstep,
        hstatus.step hfollowed.call hfollowed.isSome hquiet hcount hstep, ?_⟩
      intro hrests
      obtain ⟨w', pending'⟩ := y'
      cases clusterFires_of_step hstep with
      | get | getNone => exact absurd rfl hget
      | conflict hpc => simp [Cluster.erred, hpc, ReconcilePc.resting, ReconcilePc.isFailed] at herr
      | error hgoes => simp [Cluster.erred, hgoes, ReconcilePc.isFailed] at herr
      | applyDeployment | applyService | update => cases hrests
      | unchanged | write => rfl
      | create | edit | makePod | removePod | countPods | probe => exact hrest hrests
    · rw [hcluster]
      exact ⟨hfollowed, hstatus, hrest⟩

/-- **In every run, with old copies read and changes told late**, the invariant of the agenda
holds. -/
theorem agendaInv_step {a : WatchedEvent} (hx : WatchedInv x) (hagenda : AgendaInv S x.agenda)
    (h : x.step S a = some x') : AgendaInv S x'.agenda := by
  intro hpending
  have hkeep : x'.queued = false ∧ x'.late = 0 := by
    simpa [Watched.agenda, Bool.or_eq_false_iff] using hpending
  cases a with
  | resync =>
    obtain rfl := Option.some.inj h
    cases hkeep.1
  | deliver kind skipped =>
    -- what arrives is queued
    cases kind <;>
      (obtain ⟨i, hi, rfl⟩ := Option.map_eq_some_iff.mp h; cases hkeep.1)
  | event e =>
    have hlate : x.late = 0 := by
      obtain ⟨w, hw, ⟨-, -, rfl⟩ | ⟨-, rfl⟩⟩ := watched_cases h
      · exact ((late_follow hx w).mp hkeep.2).1
      · exact ((late_follow hx w).mp hkeep.2).1
    exact hagenda.step (agenda_moves hx (fun _ => hlate) h) hpending

theorem agendaInv_reachable {events : List WatchedEvent}
    (h : run (Watched.step S) Watched.init events = some x) :
    WatchedInv x ∧ AgendaInv S x.agenda :=
  run_invariant (fun y : Watched => WatchedInv y ∧ AgendaInv S y.agenda)
    (fun hy hs => ⟨hy.1.step hs, agendaInv_step hy.1 hy.2 hs⟩)
    ⟨WatchedInv.init, fun _ hsome => by cases hsome⟩ h

/-- The status says what the Deployment's does, for this generation of the resource. -/
structure Tells (status : ModelServerStatus) (ms : ModelServer) (deploy : DeploymentStatus) :
    Prop where
  generation : status.observedGeneration = ms.generation
  ready : status.readyReplicas = deploy.readyReplicas
  available : status.Available ↔ ms.spec.replicas ≤ deploy.readyReplicas
  settled : status.Settled ↔ ms.spec.replicas ≤ deploy.readyReplicas
  phase : status.phase = some (serverPhase ms (some deploy))

theorem tells_computeStatus (S : ConditionSetter) (now now' : Time) (ms : ModelServer)
    (deploy : DeploymentStatus) :
    Tells (computeStatus S now now' ms (some deploy)).1 ms deploy := by
  have hready : replicasReady ms (some deploy) ↔ ms.spec.replicas ≤ deploy.readyReplicas := by
    simp [replicasReady]
  exact ⟨rfl, rfl, available_computeStatus.trans hready, settled_computeStatus.trans hready, rfl⟩

/-- **Nothing is missed.**  In every run, however edits, pods, counts, calls and their errors come,
whatever old copies a call has read and however late changes are told: where the resource is
not in the queue, nothing is on its way and no call is going on, the Deployment and the Service
are those of the spec, and the status says what the Deployment's status says now, for this
generation of the spec. -/
theorem level_triggered {events : List WatchedEvent} {ms : ModelServer}
    (h : run (Watched.step S) Watched.init events = some x) (hqueued : x.queued = false)
    (hlate : x.late = 0) (hrest : x.cluster.reconciler.resting = true)
    (hms : x.cluster.server = some ms) :
    x.cluster.deployment = some (buildDeployment ms) ∧
      x.cluster.service = some (desiredService ms) ∧
      Tells ms.status ms x.cluster.deploymentStatus := by
  obtain ⟨-, hagenda⟩ := agendaInv_reachable h
  obtain ⟨hfollowed, hstatus, hdone⟩ :=
    hagenda (by simp [Watched.agenda, hqueued, hlate]) (by simp [Watched.agenda, hms])
  dsimp only [Watched.agenda] at hfollowed hstatus hdone
  obtain ⟨ms', hsynced⟩ := hfollowed.synced (hdone hrest)
  obtain rfl := Option.some.inj (hms.symm.trans hsynced.server)
  unfold CurrentStatus at hstatus
  rw [hdone hrest] at hstatus
  obtain ⟨ms', hms', hsilent⟩ := hstatus
  obtain rfl := Option.some.inj (hms.symm.trans hms')
  refine ⟨hsynced.deployment, hsynced.service, ?_⟩
  -- a status that would not be written again is the one that would be computed
  have hdeployed : x.cluster.deployed = some x.cluster.deploymentStatus := by
    simp [Cluster.deployed, hsynced.deployment]
  have hsame := computeStatus_unchanged (hsilent 0 0)
  rw [hdeployed] at hsame
  have htells := tells_computeStatus S 0 0 ms x.cluster.deploymentStatus
  rwa [hsame] at htells

/-- The first rollout.  The first call reads a copy in which there is no Deployment yet; and it
is only told of with its counts, the version without them is left out. -/
def watchedRollout : List WatchedEvent :=
  [.event (.create "llm" "default" "u1" { model := "A" }), .deliver .server 0, .event .get,
    .event .applyDeployment, .event .applyService, .event (.updateStatus 1 1), .event .writeStatus,
    .event (.makePod
      (buildDeployment ⟨"llm", "default", "u1", 1, 1, { model := "A" }, {}⟩).template),
    .event (.probe 0 true), .event .countPods, .deliver .deployment 1, .deliver .service 0,
    .deliver .server 0, .event .get, .event .applyDeployment, .event .applyService,
    .event (.updateStatus 2 2), .event .writeStatus, .deliver .server 0, .event .get,
    .event .applyDeployment, .event .applyService, .event (.updateStatus 3 3)]

theorem level_triggered_first_rollout :
    let x := runD (Watched.step metaSetStatusCondition) Watched.init watchedRollout
    ∃ ms, x.cluster.server = some ms ∧ x.cluster.deploymentStatus = ⟨1, 1⟩ ∧
      Tells ms.status ms x.cluster.deploymentStatus := by
  intro x
  have h : run (Watched.step metaSetStatusCondition) Watched.init watchedRollout = some x :=
    run_eq_runD (by decide)
  obtain ⟨ms, hms⟩ := Option.isSome_iff_exists.mp
    (show x.cluster.server.isSome = true by decide)
  exact ⟨ms, hms, by decide, (level_triggered h (by decide) (by decide) (by decide) hms).2.2⟩

/-! ### The calls come to an end -/

/-- The event is a step of a call of `Reconcile`, and the API server returns no error of its own. -/
def ClusterEvent.own : ClusterEvent → Bool
  | .get | .applyDeployment | .applyService | .updateStatus .. | .writeStatus => true
  | .create .. | .edit _ | .makePod _ | .removePod _ | .countPods | .probe .. | .error => false

/-- The event is a step of a call of `Reconcile`, or a change is told. -/
def WatchedEvent.own : WatchedEvent → Bool
  | .event e => e.own
  | .deliver .. => true
  | .resync => false

/-- A call reads while something is on its way: what it reads may be old. -/
def Watched.readsOld (x : Watched) : WatchedEvent → Bool
  | .event e => e.reads && decide (x.late ≠ 0)
  | .deliver .. | .resync => false

/-- The steps that a call has still to take, if it has a status to write. -/
def ReconcilePc.left : ReconcilePc → ℕ
  | .idle | .done | .failed => 0
  | .fetched _ => 4
  | .deployed _ => 3
  | .served _ => 2
  | .writing _ _ => 1

/-- Everything is in line, and a call that goes on has nothing to change. -/
def InLine (S : ConditionSetter) (w : Cluster) : Prop :=
  ∃ ms, AtRest S w ms ∧ w.service = some (desiredService ms)

open Classical in
/-- How many steps the controller has still to take, at most.  A call that has nothing to change has
nothing to write either, and causes no other.  One that has everything as it is may cause one more,
which has nothing to change.  Any other may end with an error, and cause two. -/
noncomputable def Agenda.due (S : ConditionSetter) (y : Agenda) : ℕ :=
  if InLine S y.cluster then y.cluster.reconciler.left - 1 + if y.pending then 4 else 0
  else if y.cluster.reconciler.resting then if y.pending then 9 else 0
  else if CurrentCall y.cluster ∧ CurrentStatus S y.cluster then y.cluster.reconciler.left + 4
  else y.cluster.reconciler.left + 9

section Settles

variable {w w' : Cluster} {y y' : Agenda}

theorem ReconcilePc.left_le (pc : ReconcilePc) : pc.left ≤ 4 := by
  cases pc <;> simp [left]

theorem ReconcilePc.left_of_resting {pc : ReconcilePc} (h : pc.resting = true) : pc.left = 0 := by
  cases pc with
  | idle | done | failed => rfl
  | fetched | deployed | served | writing => cases h

/-- Every step of a call brings its end nearer. -/
theorem left_of_own (hown : e.own = true) (hget : e ≠ .get) (h : w.step S e = some w') :
    w'.reconciler.left < w.reconciler.left := by
  cases clusterFires_of_step h with
  | get | getNone => exact absurd rfl hget
  | applyDeployment hpc | applyService hpc | unchanged hpc | update hpc | conflict hpc =>
    simp [hpc, ReconcilePc.left]
  | write hpc => simp [hpc, ReconcilePc.left]
  | create | edit | makePod | removePod | countPods | probe | error => cases hown

theorem quiet_of_own (hown : e.own = true) : e.quiet = true ∧ e.keepsCount = true := by
  cases e with
  | get | applyDeployment | applyService | updateStatus | writeStatus => exact ⟨rfl, rfl⟩
  | create | edit | makePod | removePod | countPods | probe | error => cases hown

/-- **In line, a call changes nothing.** -/
theorem InLine.step (hw : InLine S w) (hown : e.own = true) (h : w.step S e = some w') :
    InLine S w' ∧ w.changed w' = false ∧ w.erred w' = false := by
  obtain ⟨ms, hms, hservice⟩ := hw
  obtain ⟨hquiet, hcount⟩ := quiet_of_own hown
  have hnext := hms.step hquiet hcount h
  have hserver := hnext.server.trans hms.server.symm
  have hdeployment := hnext.deployment.trans hms.deployment.symm
  have hcall := hms.call
  unfold CurrentCall at hcall
  cases clusterFires_of_step h with
  | getNone hrest | get hrest =>
    exact ⟨⟨ms, hnext, hservice⟩, Cluster.changed_eq_false.mpr ⟨rfl, rfl, rfl, rfl⟩,
      by simp [Cluster.erred, hrest]⟩
  | applyDeployment hpc =>
    exact ⟨⟨ms, hnext, hservice⟩, Cluster.changed_eq_false.mpr ⟨rfl, hdeployment, rfl, rfl⟩,
      by simp [Cluster.erred, ReconcilePc.isFailed]⟩
  | applyService hpc =>
    rw [hpc] at hcall
    obtain rfl := Option.some.inj (hcall.1.symm.trans hms.server)
    exact ⟨⟨_, hnext, rfl⟩, Cluster.changed_eq_false.mpr ⟨rfl, rfl, rfl, hservice.symm⟩,
      by simp [Cluster.erred, ReconcilePc.isFailed]⟩
  | unchanged hpc =>
    exact ⟨⟨ms, hnext, hservice⟩, Cluster.changed_eq_false.mpr ⟨rfl, rfl, rfl, rfl⟩,
      by simp [Cluster.erred, ReconcilePc.isFailed]⟩
  | update hpc => exact absurd rfl (hnext.not_writing _ _)
  | write hpc => exact absurd hpc (hms.not_writing _ _)
  | conflict hpc => exact absurd hpc (hms.not_writing _ _)
  | create | edit | makePod | removePod | countPods | probe | error => cases hown

theorem due_of_inLine (hy : InLine S y.cluster) :
    y.due S = y.cluster.reconciler.left - 1 + if y.pending then 4 else 0 := if_pos hy

/-- Whatever a call has fetched, it causes two others at most. -/
theorem due_le (y : Agenda) : y.due S ≤ y.cluster.reconciler.left + 9 := by
  unfold Agenda.due
  split
  · split <;> omega
  · split
    · next hrest =>
      rw [ReconcilePc.left_of_resting hrest]
      split <;> omega
    · split <;> omega

/-- A call that has everything as it is causes one other at most. -/
theorem due_le_of_current (hcall : CurrentCall y.cluster) (hstatus : CurrentStatus S y.cluster)
    (hrest : y.cluster.reconciler.resting = false) :
    y.due S ≤ y.cluster.reconciler.left + 4 := by
  unfold Agenda.due
  by_cases hline : InLine S y.cluster
  · rw [if_pos hline]
    split <;> omega
  · apply Nat.le_of_eq
    rw [if_neg hline, if_neg (by simp [hrest]), if_pos ⟨hcall, hstatus⟩]

theorem isSome_of_current (hw : CurrentCall w) (hgoes : w.reconciler.resting = false) :
    w.server.isSome = true := by
  unfold CurrentCall at hw
  cases hpc : w.reconciler with
  | idle | done | failed =>
    rw [hpc] at hgoes
    cases hgoes
  | fetched ms =>
    rw [hpc] at hw
    simp [hw]
  | deployed ms | served ms =>
    rw [hpc] at hw
    simp [hw.1]
  | writing ms deploy =>
    rw [hpc] at hw
    obtain ⟨⟨status, hserver⟩, -⟩ := hw
    simp [hserver]

/-- A call that has had everything as it is leaves everything in line. -/
theorem inLine_of_done (hsynced : ∃ ms, Synced w ms) (hstatus : CurrentStatus S w)
    (hdone : w.reconciler = .done) : InLine S w := by
  obtain ⟨ms, hms⟩ := hsynced
  unfold CurrentStatus at hstatus
  rw [hdone] at hstatus
  obtain ⟨ms', hms', hsilent⟩ := hstatus
  obtain rfl := Option.some.inj (hms'.symm.trans hms.server)
  have hcall : CurrentCall w := by
    unfold CurrentCall
    rw [hdone]
    trivial
  exact ⟨_, ⟨hms.server, hms.deployment, hsilent, hcall, by simp [hdone]⟩, hms.service⟩

/-- A call that ends has ended without an error, or failed. -/
theorem done_or_failed (hown : e.own = true) (hgoes : w.reconciler.resting = false)
    (h : w.step S e = some w') (hrest : w'.reconciler.resting = true) :
    w'.reconciler = .done ∨ w'.reconciler = .failed := by
  cases clusterFires_of_step h with
  | get hrest' | getNone hrest' =>
    rw [hrest'] at hgoes
    cases hgoes
  | applyDeployment | applyService | update => cases hrest
  | unchanged | write => exact Or.inl rfl
  | conflict => exact Or.inr rfl
  | create | edit | makePod | removePod | countPods | probe | error => cases hown

/-- The call that begins has everything as it is. -/
theorem due_lt_of_get (hline : ¬ InLine S y.cluster) (h : Agenda.Moves S y .get y') :
    y'.due S < y.due S := by
  obtain ⟨hstep, ⟨-, hpending, hpending'⟩ | ⟨hget, -⟩⟩ := h
  · obtain ⟨w', pending'⟩ := y'
    have hrest : y.cluster.reconciler.resting = true := by
      cases clusterFires_of_step hstep with
      | getNone hrest | get hrest => exact hrest
    have hdue : y.due S = 9 := by
      unfold Agenda.due
      rw [if_neg hline, if_pos hrest, if_pos hpending]
    rw [hdue]
    cases clusterFires_of_step hstep with
    | getNone hrest' hnone =>
      -- there is nothing to do
      obtain rfl : pending' = false := hpending'
      unfold Agenda.due
      split <;> simp [ReconcilePc.left, ReconcilePc.resting]
    | get hrest' hms =>
      have hcall : CurrentCall { y.cluster with reconciler := .fetched _ } := hms
      have hle := due_le_of_current (S := S) (y := ⟨_, pending'⟩) hcall trivial rfl
      simp only [ReconcilePc.left] at hle
      omega
  · exact absurd rfl hget

/-- In line, a call leaves out the write and causes no other. -/
theorem due_lt_of_inLine (hline : InLine S y.cluster) (hown : e.own = true)
    (h : Agenda.Moves S y e y') : y'.due S < y.due S := by
  obtain ⟨hstep, hqueue⟩ := h
  obtain ⟨hline', hsame, herr⟩ := hline.step hown hstep
  rw [due_of_inLine hline, due_of_inLine hline']
  rcases hqueue with ⟨rfl, hpending, hpending'⟩ | ⟨hget, hqueue⟩
  · -- the last call begins: nothing is pending any more
    have hle := y'.cluster.reconciler.left_le
    rw [hpending, hpending', if_pos rfl, if_neg Bool.false_ne_true]
    omega
  · -- `left` counts a write, and there will be none
    have hlt := left_of_own hown hget hstep
    have hwriting : y.cluster.reconciler.left ≠ 1 := by
      obtain ⟨ms, hms, -⟩ := hline
      cases hpc : y.cluster.reconciler with
      | writing ms' deploy => exact absurd hpc (hms.not_writing _ _)
      | idle | done | failed | fetched | deployed | served => simp [ReconcilePc.left]
    rw [hsame, herr, Bool.or_false, Bool.or_false] at hqueue
    rw [hqueue]
    omega

/-- A call that has everything as it is goes on so, and leaves everything in line. -/
theorem due_lt_of_current (hcall : CurrentCall y.cluster) (hstatus : CurrentStatus S y.cluster)
    (hline : ¬ InLine S y.cluster) (hgoes : y.cluster.reconciler.resting = false)
    (hown : e.own = true) (h : y.cluster.step S e = some y'.cluster)
    (hlt : y'.cluster.reconciler.left < y.cluster.reconciler.left) : y'.due S < y.due S := by
  have hdue : y.due S = y.cluster.reconciler.left + 4 := by
    unfold Agenda.due
    rw [if_neg hline, if_neg (by simp [hgoes]), if_pos ⟨hcall, hstatus⟩]
  obtain ⟨hquiet, hcount⟩ := quiet_of_own hown
  have hsome := isSome_of_current hcall hgoes
  obtain ⟨hcall', hdone⟩ := hcall.step hquiet hsome h
  have hstatus' := hstatus.step hcall hsome hquiet hcount h
  rw [hdue]
  cases hrest' : y'.cluster.reconciler.resting with
  | false =>
    -- the same call goes on
    have hle := due_le_of_current hcall' hstatus' hrest'
    omega
  | true =>
    -- the call is over, and its write was not refused
    have hfailed : y'.cluster.reconciler ≠ .failed := by
      refine not_failed_of_step hcall ?_ ?_ h
      · intro hpc
        rw [hpc] at hgoes
        cases hgoes
      · rintro rfl
        cases hown
    have hpc := (done_or_failed hown hgoes h hrest').resolve_right hfailed
    have hsynced : ∃ ms, Synced y'.cluster ms := by
      refine (hdone hpc).resolve_left ?_
      rintro ⟨hwas, -⟩
      rw [hwas] at hgoes
      cases hgoes
    rw [due_of_inLine (inLine_of_done hsynced hstatus' hpc), ReconcilePc.left_of_resting hrest']
    split <;> omega

/-- **Every step of a call leaves less to do**, if it reads what there is. -/
theorem due_lt (hown : e.own = true) (h : Agenda.Moves S y e y') : y'.due S < y.due S := by
  by_cases hline : InLine S y.cluster
  · exact due_lt_of_inLine hline hown h
  · by_cases hget : e = .get
    · subst hget
      exact due_lt_of_get hline h
    · have hlt := left_of_own hown hget h.step
      have hgoes : y.cluster.reconciler.resting = false := by
        by_contra hrest
        rw [Bool.not_eq_false] at hrest
        rw [ReconcilePc.left_of_resting hrest] at hlt
        omega
      by_cases hcurrent : CurrentCall y.cluster ∧ CurrentStatus S y.cluster
      · exact due_lt_of_current hcurrent.1 hcurrent.2 hline hgoes hown h.step hlt
      · -- what the call has fetched is old: it may be refused, and cause two more
        have hdue : y.due S = y.cluster.reconciler.left + 9 := by
          unfold Agenda.due
          rw [if_neg hline, if_neg (by simp [hgoes]), if_neg hcurrent]
        have hle := due_le (S := S) y'
        omega

/-- Nobody has more than 13 steps to take. -/
theorem due_le_thirteen (y : Agenda) : y.due S ≤ 13 := by
  have hle := due_le (S := S) y
  have hleft := y.cluster.reconciler.left_le
  omega

/-- A step of a call makes one change at most, and none where it reads. -/
theorem late_of_own (hx : WatchedInv x) (hown : e.own = true) (h : x.step S (.event e) = some x') :
    x'.late ≤ x.late + (if e.reads then 0 else 1) := by
  obtain ⟨w, hw, hqueue⟩ := watched_cases h
  have hlate : x'.late = (x.follow w).late := by
    rcases hqueue with ⟨-, -, rfl⟩ | ⟨-, rfl⟩
    · rfl
    · rfl
  rw [hlate]
  have hserver : w.server = x.cluster.server → x.servers.tell w.server = x.servers :=
    fun hsame => Informer.tell_latest (hx.server.trans hsame.symm)
  have hdeployment : w.deployment = x.cluster.deployment →
      w.deploymentStatus = x.cluster.deploymentStatus →
      x.deployments.tell (w.deployment, w.deploymentStatus) = x.deployments := by
    intro hsame hsame'
    exact Informer.tell_latest (by rw [hx.deployment, hsame, hsame'])
  have hservice : w.service = x.cluster.service → x.services.tell w.service = x.services :=
    fun hsame => Informer.tell_latest (hx.service.trans hsame.symm)
  cases hreads : e.reads with
  | true =>
    obtain ⟨seen, -, rfl⟩ := fires_of_reads hreads hw
    simp only [Watched.late, Watched.follow, hserver rfl, hdeployment rfl rfl, hservice rfl]
    exact Nat.le_add_right ..
  | false =>
    rw [fires_of_not_reads hreads] at hw
    cases clusterFires_of_step hw with
    | @applyDeployment ms hpc =>
      have hle := x.deployments.length_coming_tell
        (some (buildDeployment ms), x.cluster.deploymentStatus)
      simp only [Watched.late, Watched.follow, hserver rfl, hservice rfl, Bool.false_eq_true,
        if_false]
      omega
    | @applyService ms hpc =>
      have hle := x.services.length_coming_tell (some (desiredService ms))
      simp only [Watched.late, Watched.follow, hserver rfl, hdeployment rfl rfl, Bool.false_eq_true,
        if_false]
      omega
    | @write ms current deploy hpc hcur hversion =>
      have hle := x.servers.length_coming_tell (some { current with
        resourceVersion := current.resourceVersion + 1
        status := ms.status })
      simp only [Watched.late, Watched.follow, hdeployment rfl rfl, hservice rfl,
        Bool.false_eq_true, if_false]
      omega
    | conflict =>
      simp only [Watched.late, Watched.follow, hserver rfl, hdeployment rfl rfl, hservice rfl]
      exact Nat.le_add_right ..
    | getNone | get | unchanged | update => cases hreads
    | create | edit | makePod | removePod | countPods | probe | error => cases hown

/-- A change that is told is one less on its way, and as much on the agenda. -/
theorem deliver_spec {kind : WatchedKind} {skipped : ℕ} (h : x.deliver skipped kind = some x') :
    x'.late < x.late ∧ x'.agenda = x.agenda := by
  have hlate : x'.late < x.late ∧ x'.cluster = x.cluster ∧ x'.queued = true := by
    cases kind with
    | server =>
      obtain ⟨i, hi, rfl⟩ := Option.map_eq_some_iff.mp h
      have hlt := Informer.length_of_deliver hi
      exact ⟨by simp only [Watched.late]; omega, rfl, rfl⟩
    | deployment =>
      obtain ⟨i, hi, rfl⟩ := Option.map_eq_some_iff.mp h
      have hlt := Informer.length_of_deliver hi
      exact ⟨by simp only [Watched.late]; omega, rfl, rfl⟩
    | service =>
      obtain ⟨i, hi, rfl⟩ := Option.map_eq_some_iff.mp h
      have hlt := Informer.length_of_deliver hi
      exact ⟨by simp only [Watched.late]; omega, rfl, rfl⟩
  obtain ⟨hlt, hcluster, hqueued⟩ := hlate
  have hpos : x.late ≠ 0 := by omega
  exact ⟨hlt, by simp [Watched.agenda, hcluster, hqueued, hpos]⟩

/-- What is left to do: the steps of calls, each of which may make a change, and the changes
that are on their way. -/
noncomputable def Watched.toDo (S : ConditionSetter) (x : Watched) : ℕ :=
  2 * x.agenda.due S + x.late

/-- **Every step leaves less to do**, unless a call reads an old copy. -/
theorem toDo_lt {a : WatchedEvent} (hx : WatchedInv x) (hown : a.own = true)
    (hfresh : x.readsOld a = false) (h : x.step S a = some x') : x'.toDo S < x.toDo S := by
  rw [Watched.toDo, Watched.toDo]
  cases a with
  | resync => cases hown
  | deliver kind skipped =>
    obtain ⟨hlt, hsame⟩ := deliver_spec h
    rw [hsame]
    omega
  | event e =>
    have hcurrent : e.reads = true → x.late = 0 := by
      intro hreads
      simpa [Watched.readsOld, hreads] using hfresh
    have hdue := due_lt hown (agenda_moves hx hcurrent h)
    have hlate := late_of_own hx hown h
    split at hlate <;> omega

/-- A call that reads an old copy may have to be followed by others, which do not. -/
theorem toDo_le {a : WatchedEvent} (hx : WatchedInv x) (hown : a.own = true)
    (h : x.step S a = some x') :
    x'.toDo S + 1 ≤ x.toDo S + (if x.readsOld a then 27 else 0) := by
  cases hold : x.readsOld a with
  | false => exact toDo_lt hx hown hold h
  | true =>
    cases a with
    | resync | deliver => cases hold
    | event e =>
      rw [Watched.readsOld, Bool.and_eq_true] at hold
      have hlate := late_of_own hx hown h
      rw [if_pos hold.1] at hlate
      have hle := due_le_thirteen (S := S) x'.agenda
      rw [Watched.toDo, Watched.toDo, if_pos rfl]
      omega

/-- Nothing is queued or on its way, and no call is going on. -/
structure Watched.AtRest (x : Watched) : Prop where
  queued : x.queued = false
  late : x.late = 0
  resting : x.cluster.reconciler.resting = true

/-- As long as something is left to do, there is a step that leaves less. -/
theorem exists_own_step (hx : WatchedInv x) (hbusy : ¬ x.AtRest) :
    ∃ a x', (a.own = true ∧ x.readsOld a = false) ∧ x.step S a = some x' := by
  by_cases hlate : x.late = 0
  · have hfresh : ∀ a, x.readsOld a = false := by
      intro a
      cases a <;> simp [Watched.readsOld, hlate]
    have hfires : ∀ e, x.fires S e = x.cluster.step S e := fun e => fires_of_current hx hlate
    cases hpc : x.cluster.reconciler with
    | idle | done | failed =>
      -- no call is going on, so something is queued
      have hqueued : x.queued = true := by
        by_contra hno
        rw [Bool.not_eq_true] at hno
        exact hbusy ⟨hno, hlate, by simp [hpc, ReconcilePc.resting]⟩
      refine ⟨.event .get, ?_⟩
      cases hms : x.cluster.server <;>
        simp [Watched.step, hqueued, hfires, Cluster.step, hpc, ReconcilePc.resting, hms, hfresh,
          WatchedEvent.own, ClusterEvent.own]
    | fetched ms =>
      exact ⟨.event .applyDeployment, _, ⟨rfl, hfresh _⟩,
        by simp only [Watched.step, hfires, Cluster.step, hpc]; rfl⟩
    | deployed ms =>
      exact ⟨.event .applyService, _, ⟨rfl, hfresh _⟩,
        by simp only [Watched.step, hfires, Cluster.step, hpc]; rfl⟩
    | served ms =>
      refine ⟨.event (.updateStatus 0 0), ?_⟩
      by_cases hnew : (computeStatus S 0 0 ms x.cluster.deployed).2 <;>
        simp [Watched.step, hfires, Cluster.step, hpc, updateStatus_lookup, hnew, hfresh,
          WatchedEvent.own, ClusterEvent.own]
    | writing ms deploy =>
      cases hserver : x.cluster.server with
      | none =>
        have hrest := (hx.absent hserver).2
        rw [hpc] at hrest
        cases hrest
      | some current =>
        refine ⟨.event .writeStatus, ?_⟩
        -- refused or not, the call ends
        by_cases hversion : current.resourceVersion = ms.resourceVersion <;>
          simp [Watched.step, hfires, Cluster.step, hpc, hserver, hversion, hfresh,
            WatchedEvent.own, ClusterEvent.own]
  · -- something is on its way, and arrives
    have hcoming : x.servers.coming ≠ [] ∨ x.deployments.coming ≠ [] ∨ x.services.coming ≠ [] := by
      by_contra hno
      push Not at hno
      exact hlate (late_eq_zero.mpr hno)
    rcases hcoming with hcoming | hcoming | hcoming
    · obtain ⟨i, hi⟩ := Informer.exists_deliver hcoming
      exact ⟨.deliver .server 0, _, ⟨rfl, rfl⟩,
        by simp only [Watched.step, Watched.deliver, hi]; rfl⟩
    · obtain ⟨i, hi⟩ := Informer.exists_deliver hcoming
      exact ⟨.deliver .deployment 0, _, ⟨rfl, rfl⟩,
        by simp only [Watched.step, Watched.deliver, hi]; rfl⟩
    · obtain ⟨i, hi⟩ := Informer.exists_deliver hcoming
      exact ⟨.deliver .service 0, _, ⟨rfl, rfl⟩,
        by simp only [Watched.step, Watched.deliver, hi]; rfl⟩

/-- **The controller does not keep itself busy.**  In every run: from where there are no more
edits, changes of pods or counts, resyncs and errors of the API server, the steps of calls and
the changes that are told are at most 26, plus one for each change that was on its way, plus 27
for each time that a call reads while something is on its way, though each call may start the
next by what it writes.  And as long as something is left to do they can go on without such a
read, until nothing is queued or on its way and no call is going on. -/
theorem settles {events : List WatchedEvent}
    (h : run (Watched.step S) Watched.init events = some x) :
    (∀ calls x', (∀ a ∈ calls, a.own = true) → run (Watched.step S) x calls = some x' →
      calls.length ≤ 26 + x.late + 27 * countSteps (Watched.step S) Watched.readsOld x calls) ∧
    ∃ calls x', Along (Watched.step S) (fun y a => a.own = true ∧ y.readsOld a = false) x calls ∧
      run (Watched.step S) x calls = some x' ∧ x'.AtRest := by
  have hx := (agendaInv_reachable h).1
  constructor
  · intro calls x' hown hrun
    have halong : Along (Watched.step S) (fun _ a => True ∧ a.own = true) x calls :=
      (along_of_forall (fun _ _ => trivial) x calls).and_forall (fun a => a.own = true) hown
    have hpaid : x'.toDo S + totalCost (Watched.step S) (fun _ _ => 1) x calls
        ≤ x.toDo S + totalCost (Watched.step S)
          (fun y a => if Watched.readsOld y a then 27 else 0) x calls :=
      run_amortized WatchedInv (Watched.toDo S)
        (fun hy hok hstep => ⟨hy.step hstep, toDo_le hy hok.2 hstep⟩) hx halong hrun
    rw [totalCost_one hrun, totalCost_ite] at hpaid
    have hdue := due_le_thirteen (S := S) x.agenda
    rw [Watched.toDo, Watched.toDo] at hpaid
    omega
  · have hprogress : ∀ {y : Watched}, WatchedInv y → ¬ y.AtRest → ∃ a y',
        (a.own = true ∧ y.readsOld a = false) ∧ y.step S a = some y' ∧ WatchedInv y' ∧
          y'.toDo S < y.toDo S := by
      intro y hy hbusy
      obtain ⟨a, y', hok, hstep⟩ := exists_own_step hy hbusy
      exact ⟨a, y', hok, hstep, hy.step hstep, toDo_lt hy hok.1 hok.2 hstep⟩
    obtain ⟨calls, x', halong, hrun, -, hrest⟩ := run_reaches _ WatchedInv Watched.AtRest
      (Watched.toDo S) hprogress hx
    exact ⟨calls, x', halong, hrun, hrest⟩

/-- The spec is edited while a call goes on, and that is told late: the write is refused, and so
is that of the next call, which reads the old copy.  Then the edit is told; the third call
writes, and the last one has nothing to do. -/
def refusedTwice : List WatchedEvent :=
  [.event .applyDeployment, .event .applyService, .deliver .deployment 0,
    .event (.updateStatus 1 1), .event .writeStatus, .event .get, .event .applyDeployment,
    .event .applyService, .event (.updateStatus 2 2), .event .writeStatus, .deliver .server 0,
    .deliver .service 0, .event .get, .event .applyDeployment, .event .applyService,
    .deliver .deployment 0, .event (.updateStatus 3 3), .event .writeStatus, .deliver .server 0,
    .event .get, .event .applyDeployment, .event .applyService, .event (.updateStatus 4 4)]

theorem settles_refused_twice :
    let x := runD (Watched.step metaSetStatusCondition) Watched.init
      [.event (.create "llm" "default" "u1" { model := "A" }), .deliver .server 0, .event .get,
        .event (.edit { model := "B" })]
    let x' := runD (Watched.step metaSetStatusCondition) x refusedTwice
    x'.queued = false ∧ x'.late = 0 ∧ x'.cluster.reconciler.resting = true ∧
      countSteps (Watched.step metaSetStatusCondition) Watched.readsOld x refusedTwice = 3 ∧
      refusedTwice.length ≤ 26 + x.late + 27 * 3 := by
  intro x x'
  have h : run (Watched.step metaSetStatusCondition) Watched.init
      [.event (.create "llm" "default" "u1" { model := "A" }), .deliver .server 0, .event .get,
        .event (.edit { model := "B" })] = some x := run_eq_runD (by decide)
  have hrun : run (Watched.step metaSetStatusCondition) x refusedTwice = some x' :=
    run_eq_runD (by decide +kernel)
  have hold : countSteps (Watched.step metaSetStatusCondition) Watched.readsOld x refusedTwice
      = 3 := by decide +kernel
  have hbound := (settles h).1 refusedTwice x' (by decide) hrun
  rw [hold] at hbound
  exact ⟨by decide +kernel, by decide +kernel, by decide +kernel, hold, hbound⟩


end Settles

end NanoKube
