import NanoKube.Convergence

/-!
# Many resources

There are many resources in a cluster, and they come and go: a user deletes one, and perhaps
creates another under its name, at any moment of a call of `Reconcile`.  What a call has
fetched may be gone by the time it applies the objects, and then they have an owner that does
not exist.

Two things keep the resources apart.  The labels of `instanceLabels` name the resource, and the
Service selects pods by that label; and `ownerRef` tells the garbage collector whose an object
is, by name and by uid.

As in `Cluster`, reads are fresh and nobody else writes to the objects.  A call that begins
after a deletion, and finds the resource in a copy that lags behind, applies its objects once
more.

## Main definitions

* `Fleet`, `Fleet.step` — the resources of a cluster with their objects, and the effect of an
  event.
* `Fleet.owned` — the garbage collector finds an owner.
* `Routes` — a Service sends requests to a pod.

## Main results

* `FleetInv.step` — what is found under a name was made for a resource of that name.
* `routes_to_own` — **a Service sends requests to the pods of its own resource, and to no others.**
* `deleted_is_gone` — what a deleted resource leaves behind is collected, for good.
* `recreated_is_served` — and nothing of a resource that is there is collected by mistake.
-/

namespace NanoKube

/-- `types.NamespacedName`. -/
structure NamespacedName where
  nameSpace : String
  name : String
  deriving DecidableEq

/-- The name `Reconcile` is called with. -/
def ModelServer.key (ms : ModelServer) : NamespacedName := ⟨ms.nameSpace, ms.name⟩

/-- What there is under each name; the uids that have been given; and the specs that users have
asked for under a name. -/
structure Fleet where
  cluster : NamespacedName → Cluster
  uids : List String
  specs : List (NamespacedName × ModelServerSpec)

/-- What can happen. -/
inductive FleetEvent
  | create (key : NamespacedName) (uid : String) (spec : ModelServerSpec)
  | delete (key : NamespacedName)
  /-- Anything else that happens to what is under a name. -/
  | event (key : NamespacedName) (e : ClusterEvent)
  /-- The garbage collector deletes an object without an owner. -/
  | collectDeployment (key : NamespacedName)
  | collectService (key : NamespacedName)

/-- The name an event is about. -/
def FleetEvent.key : FleetEvent → NamespacedName
  | .create key _ _ | .delete key | .event key _ | .collectDeployment key
  | .collectService key => key

/-- The resource a call has fetched. -/
def ReconcilePc.holds : ReconcilePc → Option ModelServer
  | .idle | .done | .failed => none
  | .fetched ms | .deployed ms | .served ms | .writing ms _ => some ms

/-- The spec the user asks for. -/
def ClusterEvent.asked : ClusterEvent → List ModelServerSpec
  | .create _ _ _ spec | .edit spec => [spec]
  | _ => []

/-- What happens to a resource that may be gone.  An update carries the uid of what was fetched, and
is refused if the resource is gone or is another one. -/
def Cluster.act (S : ConditionSetter) (w : Cluster) : ClusterEvent → Option Cluster
  | .create .. => none
  | .writeStatus =>
    match w.reconciler with
    | .writing ms _ =>
      -- not found, or a precondition that does not hold
      if w.server.any fun current => current.uid == ms.uid then w.step S .writeStatus
      else some { w with reconciler := .failed }
    | _ => none
  | e => w.step S e

namespace Fleet

/-- Nothing is there. -/
def init : Fleet := ⟨fun _ => Cluster.init, [], []⟩

def set (f : Fleet) (key : NamespacedName) (w : Cluster) : Fleet :=
  { f with cluster := fun k => if k = key then w else f.cluster k }

/-- There is an owner: a resource with the name of the reference, and with its uid. -/
def owned (f : Fleet) (nameSpace : String) (owners : List OwnerReference) : Bool :=
  owners.any fun o => o.apiVersion == "serving.fanzhangg.dev/v1alpha1" && o.kind == "ModelServer"
    && (f.cluster ⟨nameSpace, o.name⟩).server.any fun ms => ms.uid == o.uid

/-- The effect of an event.  No uid is given twice. -/
def step (S : ConditionSetter) (f : Fleet) : FleetEvent → Option Fleet
  | .create key uid spec =>
    if uid ∈ f.uids then none
    else ((f.cluster key).step S (.create key.name key.nameSpace uid spec)).map fun w =>
      { f.set key w with uids := uid :: f.uids, specs := f.specs ++ [(key, spec)] }
  -- what the resource owns is left to the garbage collector
  | .delete key => (f.cluster key).server.map fun _ =>
      f.set key { f.cluster key with server := none }
  | .event key e => ((f.cluster key).act S e).map fun w =>
      { f.set key w with specs := f.specs ++ e.asked.map fun spec => (key, spec) }
  | .collectDeployment key =>
    (f.cluster key).deployment.bind fun d =>
      if f.owned d.nameSpace d.ownerReferences then none
      else some (f.set key
        { f.cluster key with deployment := none, deploymentStatus := {}, revisions := [] })
  | .collectService key =>
    (f.cluster key).service.bind fun svc =>
      if f.owned svc.nameSpace svc.ownerReferences then none
      else some (f.set key { f.cluster key with service := none })

end Fleet

variable {S : ConditionSetter} {f f' : Fleet} {w w' : Cluster} {key : NamespacedName}
  {e : ClusterEvent} {specs specs' : List (NamespacedName × ModelServerSpec)}

@[simp] theorem Fleet.set_self : (f.set key w).cluster key = w := if_pos rfl

theorem Fleet.set_of_ne {other : NamespacedName} (h : other ≠ key) :
    (f.set key w).cluster other = f.cluster other := if_neg h

/-- **What happens to a resource that may be gone** is what happens to one that is there, unless a
write is refused. -/
theorem act_cases (h : w.act S e = some w') :
    w.step S e = some w' ∧ (∀ name nameSpace uid spec, e ≠ .create name nameSpace uid spec) ∨
      ∃ ms deploy, e = .writeStatus ∧ w.reconciler = .writing ms deploy ∧
        (∀ current, w.server = some current → current.uid ≠ ms.uid) ∧
        w' = { w with reconciler := .failed } := by
  cases e with
  | create => cases h
  | writeStatus =>
    cases hpc : w.reconciler with
    | writing ms deploy =>
      simp only [Cluster.act, hpc] at h
      split at h
      · exact Or.inl ⟨h, by simp⟩
      · next hany =>
        obtain rfl := Option.some.inj h
        refine Or.inr ⟨ms, deploy, rfl, rfl, ?_, rfl⟩
        intro current hcur huid
        simp [hcur, huid] at hany
    | idle | fetched | deployed | served | done | failed => simp [Cluster.act, hpc] at h
  | _ => exact Or.inl ⟨h, by simp⟩

/-- What an event does to what is under one name, with its guard. -/
inductive NameFires (S : ConditionSetter) (f : Fleet) (key : NamespacedName) :
    FleetEvent → Cluster → Prop
  | other {a : FleetEvent} (hkey : a.key ≠ key) : NameFires S f key a (f.cluster key)
  | create {uid : String} {spec : ModelServerSpec} {w' : Cluster}
      (hstep : (f.cluster key).step S (.create key.name key.nameSpace uid spec) = some w') :
    NameFires S f key (.create key uid spec) w'
  | delete : NameFires S f key (.delete key) { f.cluster key with server := none }
  | event {e : ClusterEvent} {w' : Cluster} (hact : (f.cluster key).act S e = some w') :
    NameFires S f key (.event key e) w'
  | collectDeployment {d : Deployment} (hd : (f.cluster key).deployment = some d)
      (howned : f.owned d.nameSpace d.ownerReferences = false) :
    NameFires S f key (.collectDeployment key)
      { f.cluster key with deployment := none, deploymentStatus := {}, revisions := [] }
  | collectService {svc : Service} (hsvc : (f.cluster key).service = some svc)
      (howned : f.owned svc.nameSpace svc.ownerReferences = false) :
    NameFires S f key (.collectService key) { f.cluster key with service := none }

theorem nameFires_set {a : FleetEvent} (hkey : a.key = key) (hfires : NameFires S f key a w)
    (other : NamespacedName) : NameFires S f other a ((f.set key w).cluster other) := by
  by_cases hother : other = key
  · subst hother
    rwa [Fleet.set_self]
  · rw [Fleet.set_of_ne hother]
    exact .other fun he => hother (he.symm.trans hkey)

/-- **What one event can do** to what is under a name. -/
theorem nameFires_of_step {a : FleetEvent} (h : f.step S a = some f') (other : NamespacedName) :
    NameFires S f other a (f'.cluster other) := by
  cases a with
  | create key uid spec =>
    simp only [Fleet.step, Option.ite_none_left_eq_some, Option.map_eq_some_iff] at h
    obtain ⟨-, w, hw, rfl⟩ := h
    exact nameFires_set rfl (.create hw) other
  | delete key =>
    simp only [Fleet.step, Option.map_eq_some_iff] at h
    obtain ⟨ms, -, rfl⟩ := h
    exact nameFires_set rfl .delete other
  | event key e =>
    simp only [Fleet.step, Option.map_eq_some_iff] at h
    obtain ⟨w, hw, rfl⟩ := h
    exact nameFires_set rfl (.event hw) other
  | collectDeployment key =>
    simp only [Fleet.step, Option.bind_eq_some_iff, Option.ite_none_left_eq_some,
      Option.some.injEq, Bool.not_eq_true] at h
    obtain ⟨d, hd, howned, rfl⟩ := h
    exact nameFires_set rfl (.collectDeployment hd howned) other
  | collectService key =>
    simp only [Fleet.step, Option.bind_eq_some_iff, Option.ite_none_left_eq_some,
      Option.some.injEq, Bool.not_eq_true] at h
    obtain ⟨svc, hsvc, howned, rfl⟩ := h
    exact nameFires_set rfl (.collectService hsvc howned) other

/-! ### Whose is what -/

/-- The resource has the name, and its spec is one that was asked for. -/
structure Made (key : NamespacedName) (specs : List (NamespacedName × ModelServerSpec))
    (ms : ModelServer) : Prop where
  key_eq : ms.key = key
  asked : (key, ms.spec) ∈ specs

theorem Made.mono {ms : ModelServer} (h : Made key specs ms) (hsub : specs ⊆ specs') :
    Made key specs' ms := ⟨h.key_eq, hsub h.asked⟩

/-- What is found under a name was made for a resource of that name. -/
structure NameInv (key : NamespacedName) (specs : List (NamespacedName × ModelServerSpec))
    (w : Cluster) : Prop where
  server : ∀ ms, w.server = some ms → Made key specs ms
  holds : ∀ ms, w.reconciler.holds = some ms → Made key specs ms
  deployment : ∀ d, w.deployment = some d → ∃ ms, Made key specs ms ∧ d = buildDeployment ms
  service : ∀ svc, w.service = some svc → ∃ ms, Made key specs ms ∧ svc = desiredService ms
  revisions : ∀ t ∈ w.revisions, ∃ ms, Made key specs ms ∧ t = (buildDeployment ms).template
  pods : ∀ p ∈ w.pods, ∃ ms, Made key specs ms ∧ p.template = (buildDeployment ms).template

theorem NameInv.mono (hw : NameInv key specs w) (hsub : specs ⊆ specs') :
    NameInv key specs' w where
  server ms hms := (hw.server ms hms).mono hsub
  holds ms hms := (hw.holds ms hms).mono hsub
  deployment d hd := (hw.deployment d hd).imp fun _ h => ⟨h.1.mono hsub, h.2⟩
  service svc hsvc := (hw.service svc hsvc).imp fun _ h => ⟨h.1.mono hsub, h.2⟩
  revisions t ht := (hw.revisions t ht).imp fun _ h => ⟨h.1.mono hsub, h.2⟩
  pods p hp := (hw.pods p hp).imp fun _ h => ⟨h.1.mono hsub, h.2⟩

theorem NameInv.init : NameInv key specs Cluster.init where
  server ms hms := by cases hms
  holds ms hms := by cases hms
  deployment d hd := by cases hd
  service svc hsvc := by cases hsvc
  revisions t ht := by cases ht
  pods p hp := by cases hp

/-- **Every event of a resource** keeps its objects to its name. -/
theorem NameInv.step (hw : NameInv key specs w) (hasked : ∀ spec ∈ e.asked, (key, spec) ∈ specs)
    (hcreate : ∀ name nameSpace uid spec, e = .create name nameSpace uid spec →
      (⟨nameSpace, name⟩ : NamespacedName) = key)
    (h : w.step S e = some w') : NameInv key specs w' := by
  cases clusterFires_of_step h with
  | @create name nameSpace uid spec hnone =>
    refine { hw with server := ?_ }
    intro ms hms
    obtain rfl := Option.some.inj hms
    exact ⟨hcreate _ _ _ _ rfl, hasked spec (List.mem_singleton_self spec)⟩
  | @edit ms spec hms hspec =>
    refine { hw with server := ?_ }
    intro ms' hms'
    obtain rfl := Option.some.inj hms'
    exact ⟨(hw.server ms hms).key_eq, hasked spec (List.mem_singleton_self spec)⟩
  | makePod hrev =>
    -- a pod is made from a template the Deployment has had
    refine { hw with pods := ?_ }
    intro p hp
    rcases List.mem_append.mp hp with hp | hp
    · exact hw.pods p hp
    · obtain rfl := List.mem_singleton.mp hp
      exact hw.revisions _ hrev
  | removePod hi => exact { hw with pods := fun p hp => hw.pods p (List.mem_of_mem_eraseIdx hp) }
  | countPods => exact { hw with }
  | @probe i ready hi =>
    refine { hw with pods := ?_ }
    intro p hp
    -- a probe leaves the templates alone
    obtain ⟨j, hj, rfl⟩ := List.getElem_of_mem hp
    rw [List.length_modify] at hj
    have hpod := hw.pods _ (List.getElem_mem hj)
    rw [List.getElem_modify]
    split
    · exact hpod
    · exact hpod
  | getNone | unchanged | conflict | error =>
    exact { hw with holds := fun ms hms => by cases hms }
  | get hrest hms =>
    refine { hw with holds := ?_ }
    intro ms' hms'
    obtain rfl := Option.some.inj hms'
    exact hw.server _ hms
  | @applyDeployment ms hpc =>
    have hmade := hw.holds ms (by rw [hpc]; rfl)
    refine { hw with holds := ?_, deployment := ?_, revisions := ?_ }
    · intro ms' hms'
      obtain rfl := Option.some.inj hms'
      exact hmade
    · intro d hd
      obtain rfl := Option.some.inj hd
      exact ⟨ms, hmade, rfl⟩
    · intro t ht
      rcases List.mem_insert_iff.mp ht with rfl | ht
      · exact ⟨ms, hmade, rfl⟩
      · exact hw.revisions t ht
  | @applyService ms hpc =>
    have hmade := hw.holds ms (by rw [hpc]; rfl)
    refine { hw with holds := ?_, service := ?_ }
    · intro ms' hms'
      obtain rfl := Option.some.inj hms'
      exact hmade
    · intro svc hsvc
      obtain rfl := Option.some.inj hsvc
      exact ⟨ms, hmade, rfl⟩
  | @update now now' ms hpc =>
    have hmade := hw.holds ms (by rw [hpc]; rfl)
    refine { hw with holds := ?_ }
    intro ms' hms'
    obtain rfl := Option.some.inj hms'
    exact ⟨hmade.key_eq, hmade.asked⟩
  | @write ms current deploy hpc hcur hversion =>
    have hmade := hw.server current hcur
    refine { hw with server := ?_, holds := fun ms hms => by cases hms }
    intro ms' hms'
    obtain rfl := Option.some.inj hms'
    exact ⟨hmade.key_eq, hmade.asked⟩

/-- Every object is under the name it was made for. -/
def FleetInv (f : Fleet) : Prop := ∀ key, NameInv key f.specs (f.cluster key)

/-- A change under one name. -/
theorem FleetInv.set (hf : FleetInv f) (hsub : f.specs ⊆ specs) (hw : NameInv key specs w)
    (uids : List String) : FleetInv { f.set key w with uids := uids, specs := specs } := by
  intro other
  by_cases hother : other = key
  · subst hother
    simpa [Fleet.set] using hw
  · simpa [Fleet.set, hother] using (hf other).mono hsub

/-- **No event mixes the names up.** -/
theorem FleetInv.step {a : FleetEvent} (hf : FleetInv f) (h : f.step S a = some f') :
    FleetInv f' := by
  cases a with
  | create key uid spec =>
    simp only [Fleet.step, Option.ite_none_left_eq_some, Option.map_eq_some_iff] at h
    obtain ⟨-, w, hw, rfl⟩ := h
    refine hf.set (List.subset_append_left _ _) (NameInv.step ((hf key).mono
      (List.subset_append_left _ _)) ?_ ?_ hw) _
    · simp [ClusterEvent.asked]
    · rintro name nameSpace uid' spec' he
      obtain ⟨rfl, rfl, -, -⟩ := ClusterEvent.create.inj he
      rfl
  | delete key =>
    simp only [Fleet.step, Option.map_eq_some_iff] at h
    obtain ⟨ms, -, rfl⟩ := h
    have hkey : NameInv key f.specs { f.cluster key with server := none } :=
      { hf key with server := fun ms hms => by cases hms }
    exact hf.set (List.Subset.refl _) hkey _
  | event key e =>
    simp only [Fleet.step, Option.map_eq_some_iff] at h
    obtain ⟨w, hw, rfl⟩ := h
    refine hf.set (List.subset_append_left _ _) ?_ _
    have hkey := (hf key).mono (List.subset_append_left f.specs (e.asked.map fun s => (key, s)))
    rcases act_cases hw with ⟨hstep, hno⟩ | ⟨ms, deploy, rfl, -, -, rfl⟩
    · refine hkey.step ?_ (fun _ _ _ _ he => absurd he (hno _ _ _ _)) hstep
      intro spec hspec
      exact List.mem_append_right _ (List.mem_map_of_mem hspec)
    · exact { hkey with holds := fun ms hms => by cases hms }
  | collectDeployment key =>
    simp only [Fleet.step, Option.bind_eq_some_iff, Option.ite_none_left_eq_some,
      Option.some.injEq] at h
    obtain ⟨d, -, -, rfl⟩ := h
    have hkey : NameInv key f.specs
        { f.cluster key with deployment := none, deploymentStatus := {}, revisions := [] } :=
      { hf key with
        deployment := fun d hd => by cases hd
        revisions := fun t ht => by cases ht }
    exact hf.set (List.Subset.refl _) hkey _
  | collectService key =>
    simp only [Fleet.step, Option.bind_eq_some_iff, Option.ite_none_left_eq_some,
      Option.some.injEq] at h
    obtain ⟨svc, -, -, rfl⟩ := h
    have hkey : NameInv key f.specs { f.cluster key with service := none } :=
      { hf key with service := fun svc hsvc => by cases hsvc }
    exact hf.set (List.Subset.refl _) hkey _

theorem fleetInv_reachable {events : List FleetEvent}
    (h : run (Fleet.step S) Fleet.init events = some f) : FleetInv f :=
  run_invariant FleetInv (fun hg hs => FleetInv.step hg hs) (fun _ => NameInv.init) h

/-! ### Requests go to the right pods -/

/-- The selector of the Service matches the labels. -/
def Service.selects (service : Service) (labels : Labels) : Bool :=
  service.selector.all fun label => decide (label ∈ labels)

/-- The Service under `key` sends requests to a pod under `other`: it is ready, in the namespace of
the Service, and has the labels that are selected. -/
structure Routes (f : Fleet) (key other : NamespacedName) (p : Pod) : Prop where
  service : ∃ svc, (f.cluster key).service = some svc ∧ other.nameSpace = svc.nameSpace ∧
    svc.selects p.template.labels = true
  pod : p ∈ (f.cluster other).pods
  ready : p.ready = true

/-- **A Service selects the labels of its own resource.** -/
theorem selects_instanceLabels (ms ms' : ModelServer) :
    (desiredService ms).selects (instanceLabels ms') = true ↔ ms.name = ms'.name := by
  have hne : instanceLabelKey ≠ appLabelKey := by decide
  simp [Service.selects, desiredService, instanceLabels, hne]

/-- **Requests go to the right pods.**  In every run of a cluster with any number of resources, which
are created, edited, deleted and created again while they are reconciled: the Service under a
name sends requests to the ready pods of the Deployments under this name, and to no others; and
each of these was made from a spec that a user has asked for under this name. -/
theorem routes_to_own {events : List FleetEvent}
    (h : run (Fleet.step S) Fleet.init events = some f) (other : NamespacedName) (p : Pod) :
    (Routes f key other p ↔ other = key ∧ (f.cluster key).service.isSome = true ∧
      p ∈ (f.cluster key).pods ∧ p.ready = true) ∧
    (Routes f key other p → ∃ ms : ModelServer, ms.key = key ∧ (key, ms.spec) ∈ f.specs ∧
      p.template = (buildDeployment ms).template) := by
  have hf := fleetInv_reachable h
  -- the namespace is that of the Service, and the selector has its name
  have hown : Routes f key other p → other = key := by
    rintro ⟨⟨svc, hsvc, hnamespace, hselects⟩, hpod, -⟩
    obtain ⟨ms, hms, rfl⟩ := (hf key).service svc hsvc
    obtain ⟨ms', hms', htemplate⟩ := (hf other).pods p hpod
    rw [htemplate] at hselects
    have hname := (selects_instanceLabels ms ms').mp hselects
    rw [← hms.key_eq, ← hms'.key_eq, ModelServer.key, ModelServer.key, hname]
    rw [← hms'.key_eq] at hnamespace
    exact congrArg (NamespacedName.mk · ms'.name) hnamespace
  refine ⟨⟨?_, ?_⟩, ?_⟩
  · intro hroutes
    obtain rfl := hown hroutes
    obtain ⟨svc, hsvc, -⟩ := hroutes.service
    exact ⟨rfl, by simp [hsvc], hroutes.pod, hroutes.ready⟩
  · rintro ⟨rfl, hsome, hpod, hready⟩
    obtain ⟨svc, hsvc⟩ := Option.isSome_iff_exists.mp hsome
    obtain ⟨ms, hms, rfl⟩ := (hf other).service svc hsvc
    obtain ⟨ms', hms', htemplate⟩ := (hf other).pods p hpod
    have hkey : ms.key = ms'.key := hms.key_eq.trans hms'.key_eq.symm
    refine ⟨⟨_, hsvc, ?_, ?_⟩, hpod, hready⟩
    · exact congrArg NamespacedName.nameSpace hms.key_eq.symm
    · rw [htemplate]
      exact (selects_instanceLabels ms ms').mpr (congrArg NamespacedName.name hkey)
  · intro hroutes
    obtain rfl := hown hroutes
    obtain ⟨ms, hms, htemplate⟩ := (hf other).pods p hroutes.pod
    exact ⟨ms, hms.key_eq, hms.asked, htemplate⟩

/-- Two resources in one namespace, of which the second has a pod. -/
def twoResources : List FleetEvent :=
  let llm : NamespacedName := ⟨"default", "llm"⟩
  let other : NamespacedName := ⟨"default", "other"⟩
  [.create llm "u1" { model := "A" }, .event llm .get, .create other "u2" { model := "B" },
    .event other .get, .event llm .applyDeployment, .event other .applyDeployment,
    .event llm .applyService, .event other .applyService,
    .event other (.makePod
      (buildDeployment ⟨"other", "default", "u2", 1, 1, { model := "B" }, {}⟩).template),
    .event other (.probe 0 true)]

theorem routes_to_own_two :
    let f := runD (Fleet.step metaSetStatusCondition) Fleet.init twoResources
    ∃ p, Routes f ⟨"default", "other"⟩ ⟨"default", "other"⟩ p ∧
      ¬ Routes f ⟨"default", "llm"⟩ ⟨"default", "other"⟩ p := by
  intro f
  have h : run (Fleet.step metaSetStatusCondition) Fleet.init twoResources = some f :=
    run_eq_runD (by decide)
  let p : Pod :=
    ⟨(buildDeployment ⟨"other", "default", "u2", 1, 1, { model := "B" }, {}⟩).template, true⟩
  have hpods : (f.cluster ⟨"default", "other"⟩).pods = [p] := rfl
  refine ⟨p, (routes_to_own h _ p).1.mpr ⟨rfl, by decide, by simp [hpods], rfl⟩, ?_⟩
  intro hroutes
  have hsame := ((routes_to_own h _ p).1.mp hroutes).1
  exact absurd hsame (by decide)

/-! ### What a deleted resource leaves behind -/

/-- The resource is deleted, and no call is going on for it. -/
def Cluster.Gone (w : Cluster) : Prop := w.server = none ∧ w.reconciler.resting = true

/-- The event creates a resource of this name. -/
def FleetEvent.creates (key : NamespacedName) : FleetEvent → Bool
  | .create key' _ _ => decide (key' = key)
  | .delete _ | .event _ _ | .collectDeployment _ | .collectService _ => false

/-- **Nothing is made for a resource that is gone.** -/
theorem gone_act (hw : w.Gone) (h : w.act S e = some w') :
    w'.Gone ∧ w'.deployment = w.deployment ∧ w'.service = w.service := by
  obtain ⟨hnone, hrest⟩ := hw
  have hresting : ∀ {pc : ReconcilePc}, w.reconciler = pc → pc.resting = true :=
    fun hpc => hpc ▸ hrest
  rcases act_cases h with ⟨hstep, hno⟩ | ⟨ms, deploy, -, hpc, -⟩
  · cases clusterFires_of_step hstep with
    | create => exact absurd rfl (hno _ _ _ _)
    | edit hms | get _ hms =>
      rw [hnone] at hms
      cases hms
    -- whoever applies an object or writes a status is in the middle of a call
    | applyDeployment hpc | applyService hpc | unchanged hpc | update hpc | conflict hpc =>
      cases hresting hpc
    | write hpc => cases hresting hpc
    | error hgoes =>
      rw [hrest] at hgoes
      cases hgoes
    | getNone => exact ⟨⟨hnone, rfl⟩, rfl, rfl⟩
    | makePod | removePod | countPods | probe => exact ⟨⟨hnone, hrest⟩, rfl, rfl⟩
  · cases hresting hpc

/-- What an event can do to a resource that is gone: its objects are left or collected. -/
theorem gone_step {a : FleetEvent} (hw : (f.cluster key).Gone) (hno : a.creates key = false)
    (h : f.step S a = some f') : (f'.cluster key).Gone ∧
      ((f'.cluster key).deployment = (f.cluster key).deployment ∨
        (f'.cluster key).deployment = none) ∧
      ((f'.cluster key).service = (f.cluster key).service ∨
        (f'.cluster key).service = none) := by
  have hfires := nameFires_of_step h key
  generalize f'.cluster key = w' at hfires ⊢
  cases hfires with
  | other => exact ⟨hw, Or.inl rfl, Or.inl rfl⟩
  | create => simp [FleetEvent.creates] at hno
  | delete => exact ⟨⟨rfl, hw.2⟩, Or.inl rfl, Or.inl rfl⟩
  | event hact =>
    obtain ⟨hgone, hdeployment, hservice⟩ := gone_act hw hact
    exact ⟨hgone, Or.inl hdeployment, Or.inl hservice⟩
  | collectDeployment => exact ⟨hw, Or.inr rfl, Or.inl rfl⟩
  | collectService => exact ⟨hw, Or.inl rfl, Or.inr rfl⟩

/-- What is left of a resource that is gone can be collected: it has no owner. -/
theorem collectable_of_gone (hf : FleetInv f) (hw : (f.cluster key).Gone) :
    ((f.cluster key).deployment = none ∨
        (f.step S (.collectDeployment key)).isSome = true) ∧
      ((f.cluster key).service = none ∨ (f.step S (.collectService key)).isSome = true) := by
  have horphan : ∀ ms : ModelServer, ms.key = key → f.owned ms.nameSpace [ownerRef ms] = false := by
    rintro ms rfl
    have hnone : (f.cluster ⟨ms.nameSpace, ms.name⟩).server = none := hw.1
    simp [Fleet.owned, ownerRef, hnone]
  constructor
  · cases hd : (f.cluster key).deployment with
    | none => exact Or.inl rfl
    | some d =>
      obtain ⟨ms, hms, rfl⟩ := (hf key).deployment d hd
      have howned : f.owned (buildDeployment ms).nameSpace
          (buildDeployment ms).ownerReferences = false := horphan ms hms.key_eq
      exact Or.inr (by simp [Fleet.step, hd, howned])
  · cases hsvc : (f.cluster key).service with
    | none => exact Or.inl rfl
    | some svc =>
      obtain ⟨ms, hms, rfl⟩ := (hf key).service svc hsvc
      have howned : f.owned (desiredService ms).nameSpace
          (desiredService ms).ownerReferences = false := horphan ms hms.key_eq
      exact Or.inr (by simp [Fleet.step, hsvc, howned])

/-- What is collected is gone. -/
theorem deployment_of_collect (h : f.step S (.collectDeployment key) = some f') :
    (f'.cluster key).deployment = none := by
  have hfires := nameFires_of_step h key
  generalize f'.cluster key = w' at hfires ⊢
  cases hfires with
  | other hkey => exact absurd rfl hkey
  | collectDeployment => rfl

theorem service_of_collect (h : f.step S (.collectService key) = some f') :
    (f'.cluster key).service = none := by
  have hfires := nameFires_of_step h key
  generalize f'.cluster key = w' at hfires ⊢
  cases hfires with
  | other hkey => exact absurd rfl hkey
  | collectService => rfl

/-- An object of a resource that is gone is left as it is, or collected for good. -/
theorem left_or_collected {α : Type*} (object : Cluster → Option α) (collect : FleetEvent)
    (hkeep : ∀ {g : Fleet} {a : FleetEvent} {g' : Fleet}, (g.cluster key).Gone →
      a.creates key = false → g.step S a = some g' →
      object (g'.cluster key) = object (g.cluster key) ∨ object (g'.cluster key) = none)
    (hcollect : ∀ {g g' : Fleet}, g.step S collect = some g' → object (g'.cluster key) = none)
    {after : List FleetEvent} (hgone : (f.cluster key).Gone)
    (hno : ∀ a ∈ after, a.creates key = false) (h : run (Fleet.step S) f after = some f') :
    object (f'.cluster key) = none ∨
      (object (f'.cluster key) = object (f.cluster key) ∧ collect ∉ after) := by
  by_cases hmem : collect ∈ after
  · left
    refine run_established_of (fun a : FleetEvent => a.creates key = false)
      (fun g => (g.cluster key).Gone) (fun g => object (g.cluster key) = none)
      (fun hlab hg hstep => (gone_step hg hlab hstep).1) (fun _ hstep => hcollect hstep) ?_
      hno hgone hmem h
    intro g a g' hlab hg hnone hstep
    rcases hkeep hg hlab hstep with hsame | hnone'
    · rw [hsame, hnone]
    · exact hnone'
  · obtain ⟨-, hleft⟩ := run_invariant_of (fun a : FleetEvent => a.creates key = false)
      (fun g => (g.cluster key).Gone ∧
        (object (g.cluster key) = object (f.cluster key) ∨ object (g.cluster key) = none))
      (fun hlab hg hstep => by
        refine ⟨(gone_step hg.1 hlab hstep).1, ?_⟩
        rcases hkeep hg.1 hlab hstep with hsame | hnone
        · rw [hsame]
          exact hg.2
        · exact Or.inr hnone) hno ⟨hgone, Or.inl rfl⟩ h
    exact hleft.symm.imp_right fun hsame => ⟨hsame, hmem⟩

/-- **What a deleted resource leaves behind is collected, for good**, if reads are fresh and
nobody else writes to the objects.  In every run: once a resource is deleted and the call that
was going on for it, which may still have applied its objects, is over, nothing is made for it
any more, whatever happens, until one of its name is created.  The garbage collector may take
what is left, and what it takes does not come back. -/
theorem deleted_is_gone {before after : List FleetEvent}
    (h : run (Fleet.step S) Fleet.init before = some f) (hgone : (f.cluster key).Gone)
    (hno : ∀ a ∈ after, a.creates key = false) (h' : run (Fleet.step S) f after = some f') :
    ((f'.cluster key).deployment = none ∨
      ((f'.cluster key).deployment = (f.cluster key).deployment ∧
        FleetEvent.collectDeployment key ∉ after ∧
        (f'.step S (.collectDeployment key)).isSome = true)) ∧
    ((f'.cluster key).service = none ∨
      ((f'.cluster key).service = (f.cluster key).service ∧
        FleetEvent.collectService key ∉ after ∧
        (f'.step S (.collectService key)).isSome = true)) := by
  obtain ⟨hf', hgone'⟩ := run_invariant_of (fun a : FleetEvent => a.creates key = false)
    (fun g => FleetInv g ∧ (g.cluster key).Gone)
    (fun hlab hg hstep => ⟨hg.1.step hstep, (gone_step hg.2 hlab hstep).1⟩) hno
    ⟨fleetInv_reachable h, hgone⟩ h'
  obtain ⟨hdeployment, hservice⟩ := collectable_of_gone (S := S) hf' hgone'
  constructor
  · rcases left_or_collected Cluster.deployment (.collectDeployment key)
      (fun hg hlab hstep => (gone_step hg hlab hstep).2.1) deployment_of_collect hgone hno h'
      with hnone | ⟨hsame, hmem⟩
    · exact Or.inl hnone
    · exact hdeployment.imp_right fun hsome => ⟨hsame, hmem, hsome⟩
  · rcases left_or_collected Cluster.service (.collectService key)
      (fun hg hlab hstep => (gone_step hg hlab hstep).2.2) service_of_collect hgone hno h'
      with hnone | ⟨hsame, hmem⟩
    · exact Or.inl hnone
    · exact hservice.imp_right fun hsome => ⟨hsame, hmem, hsome⟩

/-- The resource is deleted while its objects are applied, and they are collected later. -/
def deletedDuringCall : List FleetEvent :=
  [.create ⟨"default", "llm"⟩ "u1" { model := "A" }, .event ⟨"default", "llm"⟩ .get,
    .delete ⟨"default", "llm"⟩, .event ⟨"default", "llm"⟩ .applyDeployment,
    .event ⟨"default", "llm"⟩ .applyService, .event ⟨"default", "llm"⟩ (.updateStatus 1 1),
    .event ⟨"default", "llm"⟩ .writeStatus]

theorem deleted_is_gone_during_call :
    let f := runD (Fleet.step metaSetStatusCondition) Fleet.init deletedDuringCall
    let f' := runD (Fleet.step metaSetStatusCondition) f
      [.collectDeployment ⟨"default", "llm"⟩, .event ⟨"default", "llm"⟩ .get]
    (f.cluster ⟨"default", "llm"⟩).deployment.isSome = true ∧
      (f'.cluster ⟨"default", "llm"⟩).deployment = none := by
  intro f f'
  have h : run (Fleet.step metaSetStatusCondition) Fleet.init deletedDuringCall = some f :=
    run_eq_runD (by decide)
  have h' : run (Fleet.step metaSetStatusCondition) f [.collectDeployment ⟨"default", "llm"⟩,
      .event ⟨"default", "llm"⟩ .get] = some f' := run_eq_runD (by decide)
  have hgone : (f.cluster ⟨"default", "llm"⟩).Gone := ⟨by decide, by decide⟩
  refine ⟨by decide, ?_⟩
  exact (deleted_is_gone h hgone (by decide) h').1.resolve_right fun hleft => hleft.2.1 (by simp)

/-! ### What a resource keeps -/

/-- The event is none of the user's, as far as the resource of this name is concerned. -/
def FleetEvent.quietAt (key : NamespacedName) : FleetEvent → Bool
  | .create key' _ _ | .delete key' => decide (key' ≠ key)
  | .event key' e => decide (key' ≠ key) || e.quiet
  | .collectDeployment _ | .collectService _ => true

/-- **The collector finds the owner** of what was made for a resource that is there. -/
theorem owned_of_server (hf : FleetInv f) {ms : ModelServer} {status : ModelServerStatus}
    (hms : (f.cluster key).server = some { ms with status := status }) :
    f.owned ms.nameSpace [ownerRef ms] = true := by
  have hkey : ms.key = key := ((hf key).server _ hms).key_eq
  subst hkey
  have hserver : (f.cluster ⟨ms.nameSpace, ms.name⟩).server
      = some { ms with status := status } := hms
  simp [Fleet.owned, ownerRef, hserver]

/-- So what is collected was not made for the resource there is. -/
theorem deployment_ne_of_collected (hf : FleetInv f) {ms : ModelServer}
    {status : ModelServerStatus} (hms : (f.cluster key).server = some { ms with status := status })
    {d : Deployment} (hd : (f.cluster key).deployment = some d)
    (howned : f.owned d.nameSpace d.ownerReferences = false) :
    (f.cluster key).deployment ≠ some (buildDeployment ms) := by
  intro hmade
  obtain rfl := Option.some.inj (hd.symm.trans hmade)
  exact Bool.false_ne_true (howned.symm.trans (owned_of_server hf hms))

theorem service_ne_of_collected (hf : FleetInv f) {ms : ModelServer}
    {status : ModelServerStatus} (hms : (f.cluster key).server = some { ms with status := status })
    {svc : Service} (hsvc : (f.cluster key).service = some svc)
    (howned : f.owned svc.nameSpace svc.ownerReferences = false) :
    (f.cluster key).service ≠ some (desiredService ms) := by
  intro hmade
  obtain rfl := Option.some.inj (hsvc.symm.trans hmade)
  exact Bool.false_ne_true (howned.symm.trans (owned_of_server hf hms))

/-- A current call does not need a Deployment that was not made for what it has fetched. -/
theorem CurrentCall.without_deployment (hw : CurrentCall w)
    (hne : ∀ ms status, w.server = some { ms with status := status } →
      w.deployment ≠ some (buildDeployment ms)) :
    CurrentCall { w with deployment := none, deploymentStatus := {}, revisions := [] } := by
  unfold CurrentCall at hw ⊢
  cases hpc : w.reconciler with
  | idle | done | failed => trivial
  | fetched ms =>
    -- the Deployment is still to be applied
    rw [hpc] at hw
    exact hw
  | deployed ms =>
    rw [hpc] at hw
    exact absurd hw.2 (hne ms ms.status hw.1)
  | served ms =>
    rw [hpc] at hw
    exact absurd hw.2.1 (hne ms ms.status hw.1)
  | writing ms deploy =>
    rw [hpc] at hw
    obtain ⟨⟨status, hserver⟩, hdeployment, -⟩ := hw
    exact absurd hdeployment (hne ms status hserver)

theorem CurrentCall.without_service (hw : CurrentCall w)
    (hne : ∀ ms status, w.server = some { ms with status := status } →
      w.service ≠ some (desiredService ms)) : CurrentCall { w with service := none } := by
  unfold CurrentCall at hw ⊢
  cases hpc : w.reconciler with
  | idle | done | failed => trivial
  | fetched ms | deployed ms =>
    -- the Service is still to be applied
    rw [hpc] at hw
    exact hw
  | served ms =>
    rw [hpc] at hw
    exact absurd hw.2.2 (hne ms ms.status hw.1)
  | writing ms deploy =>
    rw [hpc] at hw
    obtain ⟨⟨status, hserver⟩, -, hservice, -⟩ := hw
    exact absurd hservice (hne ms status hserver)

/-- A current call is not refused because of the uid. -/
theorem step_of_act (hw : CurrentCall w) (h : w.act S e = some w') : w.step S e = some w' := by
  rcases act_cases h with ⟨hstep, -⟩ | ⟨ms, deploy, -, hpc, huid, -⟩
  · exact hstep
  · unfold CurrentCall at hw
    rw [hpc] at hw
    obtain ⟨⟨status, hserver⟩, -⟩ := hw
    exact (huid _ hserver rfl).elim

/-- Nothing but the user changes more of a resource than its version and its status. -/
theorem server_fleet_step {a : FleetEvent} (hq : a.quietAt key = true)
    (h : f.step S a = some f') {ms : ModelServer} (hms : (f.cluster key).server = some ms) :
    ∃ version status, (f'.cluster key).server
      = some { ms with resourceVersion := version, status := status } := by
  have hfires := nameFires_of_step h key
  generalize f'.cluster key = w' at hfires ⊢
  cases hfires with
  | other | collectDeployment | collectService => exact ⟨ms.resourceVersion, ms.status, hms⟩
  | create | delete => simp [FleetEvent.quietAt] at hq
  | @event e w' hact =>
    rcases act_cases hact with ⟨hstep, -⟩ | ⟨_, _, -, -, -, rfl⟩
    · exact server_of_quiet (by simpa [FleetEvent.quietAt] using hq) hstep hms
    · exact ⟨ms.resourceVersion, ms.status, hms⟩

/-- **A call that is not interrupted by the user** goes on as if there were no other resources and no
garbage collector. -/
theorem followed_fleet_step {a : FleetEvent} (hf : FleetInv f) (hw : Followed (f.cluster key))
    (hq : a.quietAt key = true) (h : f.step S a = some f') :
    Followed (f'.cluster key) ∧
      ((∃ ms, Synced (f.cluster key) ms) → ∃ ms, Synced (f'.cluster key) ms) := by
  have hfires := nameFires_of_step h key
  generalize f'.cluster key = w' at hfires ⊢
  cases hfires with
  | other => exact ⟨hw, id⟩
  | create | delete => simp [FleetEvent.quietAt] at hq
  | @event e w' hact =>
    -- the resource under this name is on its own
    have hquiet : e.quiet = true := by simpa [FleetEvent.quietAt] using hq
    have hstep := step_of_act hw.call hact
    exact ⟨hw.step hquiet hstep, fun ⟨ms, hms⟩ => hms.step hw.call hquiet hstep⟩
  | collectDeployment hd howned =>
    -- what is collected was made for a resource that is gone
    have hne : ∀ ms status, (f.cluster key).server = some { ms with status := status } →
        (f.cluster key).deployment ≠ some (buildDeployment ms) :=
      fun ms status hms => deployment_ne_of_collected hf hms hd howned
    have hno : ∀ ms, ¬ Synced (f.cluster key) ms :=
      fun ms hms => hne ms ms.status hms.server hms.deployment
    refine ⟨⟨hw.isSome, hw.call.without_deployment hne, fun hdone => ?_⟩,
      fun ⟨ms, hms⟩ => absurd hms (hno ms)⟩
    obtain ⟨ms, hms⟩ := hw.synced hdone
    exact absurd hms (hno ms)
  | collectService hsvc howned =>
    have hne : ∀ ms status, (f.cluster key).server = some { ms with status := status } →
        (f.cluster key).service ≠ some (desiredService ms) :=
      fun ms status hms => service_ne_of_collected hf hms hsvc howned
    have hno : ∀ ms, ¬ Synced (f.cluster key) ms :=
      fun ms hms => hne ms ms.status hms.server hms.service
    refine ⟨⟨hw.isSome, hw.call.without_service hne, fun hdone => ?_⟩,
      fun ⟨ms, hms⟩ => absurd hms (hno ms)⟩
    obtain ⟨ms, hms⟩ := hw.synced hdone
    exact absurd hms (hno ms)

/-- The resource under the name is the one there was, but for its version and its status. -/
def StillThere (key : NamespacedName) (ms : ModelServer) (f : Fleet) : Prop :=
  FleetInv f ∧ ∃ version status, (f.cluster key).server
    = some { ms with resourceVersion := version, status := status }

theorem StillThere.step {ms : ModelServer} {a : FleetEvent} (hf : StillThere key ms f)
    (hq : a.quietAt key = true) (h : f.step S a = some f') : StillThere key ms f' := by
  obtain ⟨hinv, version, status, hserver⟩ := hf
  obtain ⟨version', status', hserver'⟩ := server_fleet_step hq h hserver
  exact ⟨hinv.step h, version', status', hserver'⟩

/-- The call begins with the resource as it is. -/
theorem followed_fleet_get {ms : ModelServer} (hf : StillThere key ms f)
    (h : f.step S (.event key .get) = some f') : Followed (f'.cluster key) := by
  obtain ⟨-, version, status, hserver⟩ := hf
  have hfires := nameFires_of_step h key
  generalize f'.cluster key = w' at hfires ⊢
  cases hfires with
  | other hkey => exact absurd rfl hkey
  | event hact =>
    have hstep : (f.cluster key).step S .get = some w' := hact
    exact followed_get (by simp [hserver]) hstep

/-- **Nothing of a resource that is there is collected by mistake**, if reads are fresh and
nobody else writes to the objects.  In every run, under a name where resources may have come and
gone before: once a call that began after the user's last event for this name has ended without
an error, the Deployment and the Service are there, for the resource there is.  They stay,
whatever the garbage collector finds to collect, and whatever happens under other names. -/
theorem recreated_is_served {u : Fleet} {ms : ModelServer} {before call rest : List FleetEvent}
    (h : run (Fleet.step S) Fleet.init before = some f) (hms : (f.cluster key).server = some ms)
    (hquiet : ∀ a ∈ call ++ rest, a.quietAt key = true)
    (hget : FleetEvent.event key .get ∈ call) (hcall : run (Fleet.step S) f call = some u)
    (hdone : (u.cluster key).reconciler = .done) (hrest : run (Fleet.step S) u rest = some f') :
    ∃ version status, Synced (f'.cluster key)
      { ms with resourceVersion := version, status := status } := by
  have hquietCall : ∀ a ∈ call, a.quietAt key = true :=
    fun a ha => hquiet a (List.mem_append_left _ ha)
  have hquietRest : ∀ a ∈ rest, a.quietAt key = true :=
    fun a ha => hquiet a (List.mem_append_right _ ha)
  have hf : StillThere key ms f := ⟨fleetInv_reachable h, ms.resourceVersion, ms.status, hms⟩
  have hu : StillThere key ms u :=
    run_invariant_of (fun a : FleetEvent => a.quietAt key = true) (StillThere key ms)
      (fun hq hg hstep => hg.step hq hstep) hquietCall hf hcall
  have hfollowed : Followed (u.cluster key) :=
    run_established_of (fun a : FleetEvent => a.quietAt key = true) (StillThere key ms)
      (fun g => Followed (g.cluster key)) (fun hq hg hstep => hg.step hq hstep)
      (fun hg hstep => followed_fleet_get hg hstep)
      (fun hq hg hw hstep => (followed_fleet_step hg.1 hw hq hstep).1) hquietCall hf hget hcall
  obtain ⟨hf', -, ms', hsynced⟩ := run_invariant_of (fun a : FleetEvent => a.quietAt key = true)
    (fun g => StillThere key ms g ∧ Followed (g.cluster key) ∧ ∃ ms', Synced (g.cluster key) ms')
    (fun hq hg hstep => by
      obtain ⟨hw, hkeeps⟩ := followed_fleet_step hg.1.1 hg.2.1 hq hstep
      exact ⟨hg.1.step hq hstep, hw, hkeeps hg.2.2⟩) hquietRest
    ⟨hu, hfollowed, hfollowed.synced hdone⟩ hrest
  obtain ⟨-, version, status, hserver⟩ := hf'
  obtain rfl := Option.some.inj (hsynced.server.symm.trans hserver)
  exact ⟨version, status, hsynced⟩

/-- Another resource is created under the name before the objects of the first are collected. -/
def createdAgain : List FleetEvent :=
  deletedDuringCall.append [.create ⟨"default", "llm"⟩ "u2" { model := "B" },
    .create ⟨"default", "other"⟩ "u3" { model := "A" }]

/-- The call for it, after the Service of the first was collected, with its Deployment still
there. -/
def callAgain : List FleetEvent :=
  [.collectService ⟨"default", "llm"⟩, .event ⟨"default", "llm"⟩ .get,
    .event ⟨"default", "llm"⟩ .applyDeployment, .event ⟨"default", "llm"⟩ .applyService,
    .event ⟨"default", "llm"⟩ (.updateStatus 2 2), .event ⟨"default", "llm"⟩ .writeStatus]

theorem recreated_is_served_again :
    let f := runD (Fleet.step metaSetStatusCondition) Fleet.init createdAgain
    let u := runD (Fleet.step metaSetStatusCondition) f callAgain
    let f' := runD (Fleet.step metaSetStatusCondition) u [.delete ⟨"default", "other"⟩]
    ∃ ms, (f'.cluster ⟨"default", "llm"⟩).server = some ms ∧ ms.uid = "u2" ∧
      (f'.cluster ⟨"default", "llm"⟩).deployment = some (buildDeployment ms) := by
  intro f u f'
  have h : run (Fleet.step metaSetStatusCondition) Fleet.init createdAgain = some f :=
    run_eq_runD (by decide)
  have hcall : run (Fleet.step metaSetStatusCondition) f callAgain = some u :=
    run_eq_runD (by decide)
  have hrest : run (Fleet.step metaSetStatusCondition) u [.delete ⟨"default", "other"⟩] = some f' :=
    run_eq_runD (by decide)
  have hms : (f.cluster ⟨"default", "llm"⟩).server
      = some ⟨"llm", "default", "u2", 1, 1, { model := "B" }, {}⟩ := by decide
  obtain ⟨version, status, hsynced⟩ :=
    recreated_is_served h hms (by decide) (by simp [callAgain]) hcall rfl hrest
  exact ⟨_, hsynced.server, rfl, hsynced.deployment⟩

end NanoKube
