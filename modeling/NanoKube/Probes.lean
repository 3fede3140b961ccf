import NanoKube.Lifespan

/-!
# Three probes of one endpoint

The controller gives a container a startup, a liveness and a readiness probe, all of
`/health`.  As Kubernetes documents it: until the startup probe has succeeded there are no
others; a container that fails the startup or the liveness probe too often in a row is
restarted, and one that fails the readiness probe is taken out of the endpoints of the
Service until it succeeds again.  A probe also fails when it is not answered in time.

A 503 does not say why.  The probes make the difference: after the startup probe has
succeeded the process is loaded, so a 503 is the death of the loop.

## Main definitions

* `Kubelet`, `Kubelet.step` — the process in a container, and what the probes do to it.
* `KubeletEvent.calm` — the runner does not raise, and the liveness probe is answered in time.

## Main results

* `KubeletInv.step` — the probes only say what is so.
* `ready_is_loaded` — **a pod in the endpoints has loaded its model**, in every run.
* `never_restarted` — a calm pod is not restarted, if its startup probe fails less often
  than its budget allows.
* `death_is_noticed` — three liveness probes after the death of the loop there is a new
  process.
-/

namespace NanoKube

/-- The probes of a container. -/
inductive ProbeKind
  | startup
  | liveness
  | readiness
  deriving DecidableEq

/-- The probe of a kind. -/
def Container.probe (container : Container) : ProbeKind → Probe
  | .startup => container.startupProbe
  | .liveness => container.livenessProbe
  | .readiness => container.readinessProbe

/-- How often in a row a probe may fail; 3 by default. -/
def Probe.threshold (probe : Probe) : ℕ := (probe.failureThreshold.getD 3).toNat

/-- A container, with what its probes have said so far. -/
structure Kubelet (ρ : Type*) where
  app : App ρ
  /-- The startup probe has succeeded. -/
  started : Bool
  /-- The pod is in the endpoints. -/
  ready : Bool
  /-- How often in a row each probe has failed. -/
  failures : ProbeKind → ℕ
  restarts : ℕ

/-- What can happen. -/
inductive KubeletEvent
  | app (e : AppEvent)
  /-- A probe is sent, and answered in time or not. -/
  | probe (kind : ProbeKind) (answered : Bool)

namespace Kubelet

variable {ρ : Type*} (container : Container) (settings : Settings)
  (runners : RunnerName → Runner ρ)

/-- A new process, of which nothing is known. -/
def fresh (restarts : ℕ) : Kubelet ρ where
  app := createApp settings
  started := false
  ready := false
  failures := fun _ => 0
  restarts := restarts

/-- The startup probe comes first; the others come after it has succeeded. -/
def due (k : Kubelet ρ) : ProbeKind → Bool
  | .startup => !k.started
  | .liveness | .readiness => k.started

/-- A probe succeeds on a status code from 200 to 399. -/
def succeeds (k : Kubelet ρ) (answered : Bool) : Bool :=
  answered && decide (200 ≤ k.app.health.statusCode ∧ k.app.health.statusCode < 400)

/-- A probe that succeeded. -/
def success (k : Kubelet ρ) (kind : ProbeKind) : Kubelet ρ :=
  { k with
    started := k.started || decide (kind = .startup)
    ready := k.ready || decide (kind = .readiness)
    failures := fun other => if other = kind then 0 else k.failures other }

/-- A probe that failed. -/
def failure (k : Kubelet ρ) (kind : ProbeKind) : Kubelet ρ :=
  if k.failures kind + 1 < (container.probe kind).threshold then
    { k with failures := fun other => if other = kind then k.failures kind + 1 else k.failures other }
  else if kind = .readiness then
    { k with
      ready := false
      failures := fun other => if other = kind then k.failures kind + 1 else k.failures other }
  else fresh settings (k.restarts + 1)

/-- The effect of an event. -/
def step (k : Kubelet ρ) : KubeletEvent → Option (Kubelet ρ)
  | .app e => (k.app.step runners e).map fun a => { k with app := a }
  | .probe kind answered =>
    if k.due kind then
      some (if k.succeeds answered then k.success kind else k.failure container settings kind)
    else none

end Kubelet

section Probes

variable {ρ : Type*} {container : Container} {settings : Settings}
  {runners : RunnerName → Runner ρ} {k k' : Kubelet ρ} {e : KubeletEvent}

/-- The events that can happen, each with its guard and its effect. -/
inductive KubeletMoves (container : Container) (settings : Settings) (runners : RunnerName → Runner ρ)
    (k : Kubelet ρ) : KubeletEvent → Kubelet ρ → Prop
  | app {e : AppEvent} {a : App ρ} (hstep : k.app.step runners e = some a) :
    KubeletMoves container settings runners k (.app e) { k with app := a }
  | success {kind : ProbeKind} {answered : Bool} (hdue : k.due kind = true)
      (hok : k.app.health.statusCode = 200) :
    KubeletMoves container settings runners k (.probe kind answered) (k.success kind)
  | failure {kind : ProbeKind} {answered : Bool} (hdue : k.due kind = true)
      (hbad : answered = true → k.app.health.statusCode = 503) :
    KubeletMoves container settings runners k (.probe kind answered)
      (k.failure container settings kind)

theorem health_200_or_503 (a : App ρ) : a.health.statusCode = 200 ∨ a.health.statusCode = 503 := by
  rw [App.statusCode_health]
  split
  · exact Or.inl rfl
  · exact Or.inr rfl

/-- **What one event can do.** -/
theorem kubeletMoves_of_step (h : k.step container settings runners e = some k') :
    KubeletMoves container settings runners k e k' := by
  cases e with
  | app e =>
    simp only [Kubelet.step, Option.map_eq_some_iff] at h
    obtain ⟨a, hstep, rfl⟩ := h
    exact .app hstep
  | probe kind answered =>
    simp only [Kubelet.step, Option.ite_none_right_eq_some, Option.some.injEq] at h
    obtain ⟨hdue, rfl⟩ := h
    rcases health_200_or_503 k.app with h200 | h503
    · cases answered with
      | true =>
        rw [if_pos (by simp [Kubelet.succeeds, h200])]
        exact .success hdue h200
      | false =>
        rw [if_neg (by simp [Kubelet.succeeds])]
        exact .failure hdue (by simp)
    · rw [if_neg (by simp [Kubelet.succeeds, h503])]
      exact .failure hdue fun _ => h503

/-! ### What the probes say -/

/-- A pod whose startup probe succeeded is loaded, and only such a pod is ready. -/
structure KubeletInv (settings : Settings) (k : Kubelet ρ) : Prop where
  app : AppInv k.app
  settings : k.app.settings = settings
  started : k.started = true → k.app.loaded = true
  ready : k.ready = true → k.started = true

theorem KubeletInv.fresh (settings : Settings) (n : ℕ) : KubeletInv settings (Kubelet.fresh settings n : Kubelet ρ) where
  app := AppInv.init settings
  settings := rfl
  started := by intro h; cases h
  ready := by intro h; cases h

/-- A process that is loaded stays so. -/
theorem loaded_of_step {a a' : App ρ} {e : AppEvent} (h : a.step runners e = some a')
    (hl : a.loaded = true) : a'.loaded = true := by
  cases appMoves_of_step h with
  | slept hsleeping => rfl
  | _ => exact hl

theorem settings_of_step {a a' : App ρ} {e : AppEvent} (h : a.step runners e = some a') :
    a'.settings = a.settings := by
  cases appMoves_of_step h <;> rfl

/-- A probe that failed leaves a pod as it was, takes it out of the endpoints, or restarts it. -/
theorem failure_cases (kind : ProbeKind) :
    (∃ ready failures, k.failure container settings kind
        = { k with ready := ready, failures := failures } ∧ (ready = true → k.ready = true)) ∨
      k.failure container settings kind = Kubelet.fresh settings (k.restarts + 1) := by
  unfold Kubelet.failure
  split
  · exact Or.inl ⟨k.ready, _, rfl, id⟩
  · split
    · exact Or.inl ⟨false, _, rfl, by simp⟩
    · exact Or.inr rfl

theorem KubeletInv.step (hk : KubeletInv settings k)
    (h : k.step container settings runners e = some k') : KubeletInv settings k' := by
  cases kubeletMoves_of_step h with
  | app hstep =>
    exact ⟨hk.app.step hstep, (settings_of_step hstep).trans hk.settings,
      fun hs => loaded_of_step hstep (hk.started hs), hk.ready⟩
  | @success kind answered hdue hok =>
    have hloaded := (App.health_eq_200.mp hok).1
    refine ⟨hk.app, hk.settings, fun _ => hloaded, ?_⟩
    cases kind with
    | startup => simp [Kubelet.success]
    | liveness => simpa [Kubelet.success] using hk.ready
    | readiness =>
      intro _
      have hstarted : k.started = true := hdue
      simp [Kubelet.success, hstarted]
  | @failure kind answered hdue hbad =>
    rcases failure_cases kind with
      ⟨ready, failures, heq, hready⟩ | heq
    · rw [heq]
      exact ⟨hk.app, hk.settings, hk.started, fun hr => hk.ready (hready hr)⟩
    · rw [heq]
      exact KubeletInv.fresh settings _

theorem kubeletInv_reachable {events : List KubeletEvent}
    (h : run (Kubelet.step container settings runners) (Kubelet.fresh settings 0) events = some k) :
    KubeletInv settings k :=
  run_invariant (KubeletInv settings) (fun hk hs => KubeletInv.step hk hs)
    (KubeletInv.fresh settings 0) h

/-- **A pod in the endpoints has loaded its model.**  In every run, with restarts, probes that are
not answered, deaths of the loop and loads that fail: a pod that is ready runs a process whose
load is over, and whose runner is the one of the model, if there is one to load. -/
theorem ready_is_loaded {events : List KubeletEvent}
    (h : run (Kubelet.step container settings runners) (Kubelet.fresh settings 0) events = some k)
    (hready : k.ready = true) :
    k.app.loader = .done ∧ (k.app.server.engine = .loaded ↔ settings.servesReal = true) := by
  have hk := kubeletInv_reachable h
  have hdone := hk.app.loaded.mp (hk.started (hk.ready hready))
  refine ⟨hdone, ?_⟩
  rw [hk.app.engine, hk.settings]
  exact and_iff_left (Or.inr hdone)

/-- A server with a model to load: the pod is ready at the second startup probe. -/
theorem ready_is_loaded_second_probe :
    let settings : Settings := ⟨['m'], ['m'], 8, 8192, false⟩
    let events : List KubeletEvent := [.app .startup, .app .beginLoad,
      .app (.server (.loop .iterate)), .probe .startup true, .app .loadReturned, .app .slept,
      .probe .startup true, .probe .readiness true]
    let k : Kubelet Unit := runD (Kubelet.step (serverContainer (namedServer "demo")) settings
      fun _ => mock) (Kubelet.fresh settings 0) events
    k.ready = true ∧ k.app.server.engine = .loaded := by
  intro settings events k
  have h := run_eq_runD (show (run (Kubelet.step (serverContainer (namedServer "demo")) settings
    fun _ => mock) (Kubelet.fresh settings 0) events).isSome = true by decide)
  exact ⟨by decide, (ready_is_loaded h (by decide)).2.mpr (by decide)⟩

/-! ### A calm pod -/

/-- The runner does not raise, the process is not shut down, and the liveness probe is answered in
time. -/
def KubeletEvent.calm : KubeletEvent → Bool
  | .app (.server (.loop .raise)) | .app .shutdown => false
  | .probe .liveness answered => answered
  | .app _ | .probe _ _ => true

/-- A process whose loop lives, once it is started. -/
structure Alive (a : App ρ) : Prop where
  serving : a.stopping = false
  alive : a.loader ≠ .absent → a.server.loopIsDead = false

theorem Alive.step {a a' : App ρ} {e : AppEvent} (ha : Alive a) (h : a.step runners e = some a')
    (hcalm : (KubeletEvent.app e).calm = true) : Alive a' := by
  cases appMoves_of_step h with
  | startup habsent hstep =>
    refine ⟨ha.serving, fun _ => ?_⟩
    cases moves_of_step hstep with
    | startup hnone => rfl
  | beginLoad hcreated => exact ⟨ha.serving, fun _ => ha.alive (by simp [hcreated])⟩
  | loadReturned hloading hstep =>
    exact ⟨ha.serving, fun _ =>
      alive_of_step hstep (by simp) (by simp) (ha.alive (by simp [hloading]))⟩
  | loadRaised hloading => exact ⟨ha.serving, fun _ => ha.alive (by simp [hloading])⟩
  | slept hsleeping => exact ⟨ha.serving, fun _ => ha.alive (by simp [hsleeping])⟩
  | shutdown hstarted => cases hcalm
  | @server e v hallows hstep =>
    refine ⟨ha.serving, fun hne => alive_of_step hstep ?_ ?_ (ha.alive hne)⟩
    · rintro rfl
      cases hcalm
    · rintro rfl
      cases ha.serving.symm.trans hallows

/-- The event is a startup probe that fails. -/
def Kubelet.startupFails (k : Kubelet ρ) : KubeletEvent → Bool
  | .probe .startup answered => !k.succeeds answered
  | .probe _ _ | .app _ => false

/-- **In a calm pod the liveness probe does not fail**, and each time the startup probe does is
counted. -/
theorem calm_step (hk : KubeletInv settings k) (halive : Alive k.app) (hcalm : e.calm = true)
    (h : k.step container settings runners e = some k')
    (hbudget : k.failures .startup + (if k.startupFails e then 1 else 0)
      < (container.probe .startup).threshold) :
    Alive k'.app ∧ k'.restarts = k.restarts ∧
      k'.failures .startup ≤ k.failures .startup + (if k.startupFails e then 1 else 0) := by
  cases kubeletMoves_of_step h with
  | app hstep => exact ⟨halive.step hstep hcalm, rfl, Nat.le_add_right ..⟩
  | @success kind answered hdue hok =>
    refine ⟨halive, rfl, ?_⟩
    simp only [Kubelet.success]
    split <;> omega
  | @failure kind answered hdue hbad =>
    cases kind with
    | startup =>
      have hfails : k.startupFails (.probe .startup answered) = true := by
        cases answered with
        | false => rfl
        | true => simp [Kubelet.startupFails, Kubelet.succeeds, hbad rfl]
      rw [if_pos hfails] at hbudget ⊢
      rw [Kubelet.failure, if_pos hbudget]
      exact ⟨halive, rfl, by simp⟩
    | liveness =>
      -- a pod that has started answers 200
      have hloaded := hk.started hdue
      have hdone := hk.app.loaded.mp hloaded
      have hup := App.health_eq_200.mpr ⟨hloaded, halive.alive (by simp [hdone])⟩
      cases hup.symm.trans (hbad hcalm)
    | readiness =>
      unfold Kubelet.failure
      split
      · exact ⟨halive, rfl, by simp⟩
      · exact ⟨halive, rfl, by simp⟩

/-- **A calm pod is not restarted**, if its startup probe fails less than 120 times: whatever the
traffic, and whatever else fails on the way. -/
theorem never_restarted {ms : ModelServer} {events : List KubeletEvent}
    (hcalm : ∀ e ∈ events, e.calm = true)
    (hbudget : countSteps (Kubelet.step (serverContainer ms) settings runners)
      Kubelet.startupFails (Kubelet.fresh settings 0) events < 120)
    (h : run (Kubelet.step (serverContainer ms) settings runners) (Kubelet.fresh settings 0) events
      = some k) : k.restarts = 0 := by
  have key : ∀ (events : List KubeletEvent) (u : Kubelet ρ), KubeletInv settings u →
      Alive u.app → (∀ e ∈ events, e.calm = true) →
      u.failures .startup + countSteps (Kubelet.step (serverContainer ms) settings runners)
        Kubelet.startupFails u events < 120 →
      run (Kubelet.step (serverContainer ms) settings runners) u events = some k →
      k.restarts = u.restarts := by
    intro events
    induction events with
    | nil =>
      intro u _ _ _ _ h
      exact congrArg Kubelet.restarts (Option.some.inj h).symm
    | cons e events ih =>
      intro u hu halive hcalm hbudget h
      obtain ⟨t, ht, h⟩ := run_cons h
      rw [List.forall_mem_cons] at hcalm
      rw [countSteps, totalCost_cons_of_step ht, ← countSteps] at hbudget
      have hthreshold : ((serverContainer ms).probe .startup).threshold = 120 := rfl
      obtain ⟨halive', hsame, hle⟩ := calm_step hu halive hcalm.1 ht (by omega)
      rw [ih t (hu.step ht) halive' hcalm.2 (by omega) h, hsame]
  refine key events _ (KubeletInv.fresh settings 0) ⟨rfl, ?_⟩ hcalm ?_ h
  · intro hne
    exact absurd rfl hne
  · simpa [Kubelet.fresh] using hbudget

/-- A mock that is asked too early, twice without an answer, and then goes on: its startup probe
fails four times. -/
theorem never_restarted_mock :
    let settings : Settings := ⟨['m'], "mock/m".toList, 8, 8192, false⟩
    let events : List KubeletEvent := [.probe .startup false, .probe .startup true, .app .startup,
      .probe .startup true, .app .beginLoad, .probe .startup false, .app .slept,
      .probe .startup true, .probe .liveness true, .probe .readiness false,
      .app (.server (.post 0 { prompt := ['h'] })), .app (.server (.loop .iterate)),
      .probe .readiness true, .probe .liveness true]
    let k : Kubelet Unit := runD (Kubelet.step (serverContainer (namedServer "demo")) settings
      fun _ => mock) (Kubelet.fresh settings 0) events
    k.ready = true ∧ k.restarts = 0 := by
  intro settings events k
  have h := run_eq_runD (show (run (Kubelet.step (serverContainer (namedServer "demo")) settings
    fun _ => mock) (Kubelet.fresh settings 0 : Kubelet Unit) events).isSome = true by decide)
  exact ⟨by decide, never_restarted (by decide) (by decide) h⟩

/-! ### After the death of the loop -/

/-- The event is a probe of a kind. -/
def KubeletEvent.isProbe (kind : ProbeKind) : KubeletEvent → Bool
  | .probe other _ => decide (other = kind)
  | .app _ => false

/-- How often the probes have failed in a row, against what they have brought about. -/
structure CountInv (ms : ModelServer) (k : Kubelet ρ) : Prop where
  liveness : k.failures .liveness < 3
  readiness : k.ready = true → k.failures .readiness < 3

theorem CountInv.step {ms : ModelServer} (hk : CountInv ms k)
    (h : k.step (serverContainer ms) settings runners e = some k') : CountInv ms k' := by
  cases kubeletMoves_of_step h with
  | app hstep => exact ⟨hk.liveness, hk.readiness⟩
  | @success kind answered hdue hok =>
    cases kind with
    | startup => exact ⟨by simpa [Kubelet.success] using hk.liveness,
        by simpa [Kubelet.success] using hk.readiness⟩
    | liveness => exact ⟨by simp [Kubelet.success], by simpa [Kubelet.success] using hk.readiness⟩
    | readiness => exact ⟨by simpa [Kubelet.success] using hk.liveness, by simp [Kubelet.success]⟩
  | @failure kind answered hdue hbad =>
    have hlive : ((serverContainer ms).probe .liveness).threshold = 3 := rfl
    have hready : ((serverContainer ms).probe .readiness).threshold = 3 := rfl
    unfold Kubelet.failure
    split
    · next hlt =>
      cases kind with
      | startup => exact ⟨by simpa using hk.liveness, by simpa using hk.readiness⟩
      | liveness => exact ⟨by simpa [hlive] using hlt, by simpa using hk.readiness⟩
      | readiness => exact ⟨by simpa using hk.liveness, fun _ => by simpa [hready] using hlt⟩
    · split
      · next hkind =>
        subst hkind
        exact ⟨by simpa using hk.liveness, by simp⟩
      · exact ⟨by simp [Kubelet.fresh], by simp [Kubelet.fresh]⟩

/-- There is a new process; the readiness probe takes the pod out of the endpoints before. -/
def Noticed (n : ℕ) (kind : ProbeKind) (k : Kubelet ρ) : Prop :=
  n < k.restarts ∨ (kind = .readiness ∧ k.ready = false)

/-- A loaded process whose loop is dead, in a pod that has not noticed yet. -/
structure Unnoticed (ms : ModelServer) (n : ℕ) (kind : ProbeKind) (k : Kubelet ρ) : Prop where
  app : AppInv k.app
  started : k.started = true
  loaded : k.app.loaded = true
  dead : k.app.server.loopIsDead = true
  count : CountInv ms k
  restarts : k.restarts = n
  few : k.failures kind < 3

/-- **Each probe of a dead loop counts**, until the pod notices. -/
theorem Unnoticed.step {ms : ModelServer} {n : ℕ} {kind : ProbeKind}
    (hk : Unnoticed ms n kind k) (h : k.step (serverContainer ms) settings runners e = some k') :
    Noticed n kind k' ∨ (Unnoticed ms n kind k' ∧
      3 - k'.failures kind + (if e.isProbe kind then 1 else 0) ≤ 3 - k.failures kind) := by
  have hcount := hk.count.step h
  cases kubeletMoves_of_step h with
  | @app e a hstep =>
    refine Or.inr ⟨⟨hk.app.step hstep, hk.started, loaded_of_step hstep hk.loaded, ?_, hcount,
      hk.restarts, hk.few⟩, le_refl _⟩
    have hdown : k.app.stage = 2 := by simp [App.stage, hk.loaded, hk.dead]
    have hstage := stage_step hk.app hstep
    rw [hdown] at hstage
    by_contra halive
    have hup : a.stage ≤ 1 := by
      unfold App.stage
      split
      · omega
      · exact le_refl 1
    omega
  | success hdue hok =>
    cases (App.health_eq_200.mp hok).2.symm.trans hk.dead
  | @failure other answered hdue hbad =>
    have hthreshold : ∀ other, other ≠ .startup →
        ((serverContainer ms).probe other).threshold = 3 := by
      intro other hother
      cases other with
      | startup => exact absurd rfl hother
      | liveness => rfl
      | readiness => rfl
    have hother : other ≠ .startup := by
      rintro rfl
      simp [Kubelet.due, hk.started] at hdue
    unfold Kubelet.failure at hcount ⊢
    rw [hthreshold other hother] at hcount ⊢
    split at hcount
    · next hlt =>
      rw [if_pos hlt]
      refine Or.inr ⟨⟨hk.app, hk.started, hk.loaded, hk.dead, hcount, hk.restarts, ?_⟩, ?_⟩
      · by_cases hsame : kind = other
        · simpa [hsame] using hlt
        · simpa [hsame] using hk.few
      · by_cases hsame : kind = other
        · subst hsame
          simp only [KubeletEvent.isProbe, decide_true, if_true]
          omega
        · have hne : other ≠ kind := fun he => hsame he.symm
          simp [KubeletEvent.isProbe, hsame, hne]
    · next hmany =>
      rw [if_neg hmany]
      by_cases hready : other = .readiness
      · subst hready
        rw [if_pos rfl] at hcount ⊢
        by_cases hsame : kind = .readiness
        · exact Or.inl (Or.inr ⟨hsame, rfl⟩)
        · refine Or.inr ⟨⟨hk.app, hk.started, hk.loaded, hk.dead, hcount, hk.restarts, ?_⟩, ?_⟩
          · simpa [hsame] using hk.few
          · have hne : ProbeKind.readiness ≠ kind := fun he => hsame he.symm
            simp [KubeletEvent.isProbe, hsame, hne]
      · rw [if_neg hready]
        refine Or.inl (Or.inl ?_)
        have hrestarts := hk.restarts
        simp only [Kubelet.fresh]
        omega

/-- **The death of the loop is noticed**, also by a pod whose probes are not answered: before
the third liveness probe is over there is a new process, and before the third readiness probe
is, the pod is out of the endpoints. -/
theorem death_is_noticed {ms : ModelServer} {before after : List KubeletEvent}
    (hbefore : run (Kubelet.step (serverContainer ms) settings runners) (Kubelet.fresh settings 0)
      before = some k) (hstarted : k.started = true) (hdead : k.app.server.loopIsDead = true)
    (hafter : run (Kubelet.step (serverContainer ms) settings runners) k after = some k')
    {kind : ProbeKind} (hkind : kind ≠ .startup) :
    Visits (Kubelet.step (serverContainer ms) settings runners) (Noticed k.restarts kind) k after ∨
      after.countP (KubeletEvent.isProbe kind) < 3 := by
  have hk := kubeletInv_reachable hbefore
  have hcount : CountInv ms k := run_invariant (CountInv ms) (fun hu hs => CountInv.step hu hs)
    ⟨by simp [Kubelet.fresh], by simp [Kubelet.fresh]⟩ hbefore
  by_cases hfew : k.failures kind < 3
  · have hun : Unnoticed ms k.restarts kind k :=
      ⟨hk.app, hstarted, hk.started hstarted, hdead, hcount, rfl, hfew⟩
    have hal : Along (Kubelet.step (serverContainer ms) settings runners) (fun _ _ => True) k
        after := along_of_forall (fun _ _ => trivial) k after
    rcases run_potential (Noticed k.restarts kind) (Unnoticed ms k.restarts kind)
      (fun u => 3 - u.failures kind) (KubeletEvent.isProbe kind)
      (fun hu _ hs => hu.step hs) hun hal hafter with hvisit | ⟨hend, hle⟩
    · exact Or.inl hvisit
    · have hlast := hend.few
      exact Or.inr (by omega)
  · -- only the readiness probe goes on failing, and then the pod is not ready
    have hnoticed : Noticed k.restarts kind k := by
      cases kind with
      | startup => exact absurd rfl hkind
      | liveness => exact absurd hcount.liveness hfew
      | readiness =>
        refine Or.inr ⟨rfl, ?_⟩
        by_contra hready
        exact hfew (hcount.readiness (by simpa using hready))
    exact Or.inl (visits_here hnoticed after)

/-- The loop of a mock dies, and the third liveness probe is its last. -/
theorem death_is_noticed_mock :
    let settings : Settings := ⟨['m'], "mock/m".toList, 8, 8192, false⟩
    let step := Kubelet.step (serverContainer (namedServer "demo")) settings fun _ => mock
    let k : Kubelet Unit := runD step (Kubelet.fresh settings 0) [.app .startup, .app .beginLoad,
      .app .slept, .probe .startup true, .app (.server (.post 0 { prompt := ['h'] })),
      .app (.server (.loop .iterate)), .app (.server (.loop .raise))]
    Visits step (Noticed 0 .liveness) k
      [.probe .liveness true, .probe .liveness false, .probe .liveness true] := by
  intro settings step k
  have hbefore := run_eq_runD (show (run step (Kubelet.fresh settings 0 : Kubelet Unit)
    [.app .startup, .app .beginLoad, .app .slept, .probe .startup true,
      .app (.server (.post 0 { prompt := ['h'] })), .app (.server (.loop .iterate)),
      .app (.server (.loop .raise))]).isSome = true by decide)
  have hafter := run_eq_runD (show (run step k
    [.probe .liveness true, .probe .liveness false, .probe .liveness true]).isSome = true by
      decide)
  have key := death_is_noticed hbefore (by decide) (by decide) hafter
    (show ProbeKind.liveness ≠ .startup by decide)
  rcases key with hvisit | hfew
  · exact hvisit
  · exact absurd hfew (by decide)

end Probes

end NanoKube
