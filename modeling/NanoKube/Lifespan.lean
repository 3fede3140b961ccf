import NanoKube.Environment
import NanoKube.Gateway
import NanoKube.Json
import NanoKube.Verdicts

/-!
# The life of a process

`lifespan` starts the loop on the mock runner and a task for `_load`, which swaps the runner
if there is a model to load, sleeps, and says `loaded`.  `health` answers 503 until then, and
again once the loop is dead.

What a 503 means depends on when it is asked for: `loaded` is never taken back, and a
loop that died after the load stays dead.  So along a run the answers are 503, then 200,
then 503 for good.

## Main definitions

* `App`, `App.step` — the process with its lifespan.
* `App.health` — `GET /health`.
* `App.stage` — starting, up or down.

## Main results

* `AppInv.step` — the invariant of a process.
* `health_codes` — **the answers of `health` along a run.**
* `healthy_pod` — what a process serves that the controller started.
* `down_after_up` — a process that was healthy and is no more.
-/

namespace NanoKube

/-- Where `_load` is. -/
inductive Loader
  | absent
  /-- The task is created. -/
  | created
  /-- At `await asyncio.to_thread(load_qwen_runner, ..)`. -/
  | loading
  /-- At `await asyncio.sleep(settings.load_time_seconds)`. -/
  | sleeping
  | done
  /-- It raised; nobody awaits it. -/
  | failed
  deriving DecidableEq

/-- `app.state`, and the task of `_load`. -/
structure App (ρ : Type*) where
  settings : Settings
  server : Server ρ
  loader : Loader
  /-- `runtime["loaded"]`. -/
  loaded : Bool
  /-- `lifespan` is past its `yield`. -/
  stopping : Bool

/-- What can happen. -/
inductive AppEvent
  /-- `lifespan`, up to its `yield`. -/
  | startup
  /-- `_load` runs for the first time. -/
  | beginLoad
  /-- `load_qwen_runner` returned, or raised. -/
  | loadReturned
  | loadRaised
  /-- The sleep of `_load` is over. -/
  | slept
  /-- `lifespan`, past its `yield`. -/
  | shutdown
  /-- Anything else that can happen to the server. -/
  | server (e : Event)

/-- `create_app`. -/
def createApp {ρ : Type*} (settings : Settings) : App ρ where
  settings := settings
  server := Server.init settings.maxBatchSize settings.maxBatchTokens
  loader := .absent
  loaded := false
  stopping := false

/-- A response: its status code, and its content if it has any. -/
structure Response where
  statusCode : ℕ
  content : Option Json

namespace App

variable {ρ : Type*} (runners : RunnerName → Runner ρ)

/-- The loop and the runner are the lifespan's to replace, and to cancel. -/
def allows (a : App ρ) : Event → Bool
  | .startup | .swap => false
  | .loop .cancel => a.stopping
  | _ => true

/-- The effect of an event. -/
def step (a : App ρ) : AppEvent → Option (App ρ)
  | .startup =>
    if a.loader = .absent then
      (a.server.step runners .startup).map fun v => { a with server := v, loader := .created }
    else none
  | .beginLoad =>
    if a.loader = .created then
      some { a with loader := if a.settings.servesReal then .loading else .sleeping }
    else none
  | .loadReturned =>
    if a.loader = .loading then
      (a.server.step runners .swap).map fun v => { a with server := v, loader := .sleeping }
    else none
  | .loadRaised => if a.loader = .loading then some { a with loader := .failed } else none
  | .slept => if a.loader = .sleeping then some { a with loader := .done, loaded := true } else none
  | .shutdown => if a.loader = .absent then none else some { a with stopping := true }
  | .server e =>
    if a.allows e then (a.server.step runners e).map fun v => { a with server := v } else none

/-- `health`. -/
def health (a : App ρ) : Response :=
  if a.loaded = false then ⟨503, none⟩
  else if a.server.loopIsDead then ⟨503, none⟩
  else ⟨200, some (.obj [("status".toList, .str "ok".toList),
    ("model".toList, .str a.settings.modelName)])⟩

/-- Starting, up, or down. -/
def stage (a : App ρ) : ℕ :=
  if a.loaded = false then 0 else if a.server.loopIsDead then 2 else 1

theorem stage_eq_zero {a : App ρ} : a.stage = 0 ↔ a.loaded = false := by
  unfold stage
  cases a.loaded <;> cases a.server.loopIsDead <;> simp

theorem stage_eq_one {a : App ρ} :
    a.stage = 1 ↔ a.loaded = true ∧ a.server.loopIsDead = false := by
  unfold stage
  cases a.loaded <;> cases a.server.loopIsDead <;> simp

theorem stage_eq_two {a : App ρ} :
    a.stage = 2 ↔ a.loaded = true ∧ a.server.loopIsDead = true := by
  unfold stage
  cases a.loaded <;> cases a.server.loopIsDead <;> simp

theorem stage_le (a : App ρ) : a.stage ≤ 2 := by
  unfold stage
  split
  · omega
  · split <;> omega

theorem statusCode_health (a : App ρ) :
    a.health.statusCode = if a.stage = 1 then 200 else 503 := by
  unfold health stage
  split
  · rfl
  · split <;> rfl

theorem health_eq_200 {a : App ρ} :
    a.health.statusCode = 200 ↔ a.loaded = true ∧ a.server.loopIsDead = false := by
  unfold health
  cases a.loaded <;> cases a.server.loopIsDead <;> simp

end App

section Lifespan

variable {ρ : Type*} {runners : RunnerName → Runner ρ} {a a' : App ρ} {e : AppEvent}

/-- The events that can happen, each with its guard and its effect. -/
inductive AppMoves (runners : RunnerName → Runner ρ) (a : App ρ) : AppEvent → App ρ → Prop
  | startup {v : Server ρ} (habsent : a.loader = .absent)
      (hstep : a.server.step runners .startup = some v) :
    AppMoves runners a .startup { a with server := v, loader := .created }
  | beginLoad (hcreated : a.loader = .created) :
    AppMoves runners a .beginLoad
      { a with loader := if a.settings.servesReal then .loading else .sleeping }
  | loadReturned {v : Server ρ} (hloading : a.loader = .loading)
      (hstep : a.server.step runners .swap = some v) :
    AppMoves runners a .loadReturned { a with server := v, loader := .sleeping }
  | loadRaised (hloading : a.loader = .loading) :
    AppMoves runners a .loadRaised { a with loader := .failed }
  | slept (hsleeping : a.loader = .sleeping) :
    AppMoves runners a .slept { a with loader := .done, loaded := true }
  | shutdown (hstarted : a.loader ≠ .absent) :
    AppMoves runners a .shutdown { a with stopping := true }
  | server {e : Event} {v : Server ρ} (hallows : a.allows e = true)
      (hstep : a.server.step runners e = some v) :
    AppMoves runners a (.server e) { a with server := v }

/-- **What one event can do.** -/
theorem appMoves_of_step (h : a.step runners e = some a') : AppMoves runners a e a' := by
  cases e with
  | startup =>
    simp only [App.step, Option.ite_none_right_eq_some, Option.map_eq_some_iff] at h
    obtain ⟨habsent, v, hstep, rfl⟩ := h
    exact .startup habsent hstep
  | beginLoad =>
    simp only [App.step, Option.ite_none_right_eq_some, Option.some.injEq] at h
    obtain ⟨hcreated, rfl⟩ := h
    exact .beginLoad hcreated
  | loadReturned =>
    simp only [App.step, Option.ite_none_right_eq_some, Option.map_eq_some_iff] at h
    obtain ⟨hloading, v, hstep, rfl⟩ := h
    exact .loadReturned hloading hstep
  | loadRaised =>
    simp only [App.step, Option.ite_none_right_eq_some, Option.some.injEq] at h
    obtain ⟨hloading, rfl⟩ := h
    exact .loadRaised hloading
  | slept =>
    simp only [App.step, Option.ite_none_right_eq_some, Option.some.injEq] at h
    obtain ⟨hsleeping, rfl⟩ := h
    exact .slept hsleeping
  | shutdown =>
    simp only [App.step, Option.ite_none_left_eq_some, Option.some.injEq] at h
    obtain ⟨hstarted, rfl⟩ := h
    exact .shutdown hstarted
  | server e =>
    simp only [App.step, Option.ite_none_right_eq_some, Option.map_eq_some_iff] at h
    obtain ⟨hallows, v, hstep, rfl⟩ := h
    exact .server hallows hstep

/-! ### What the server does on its own -/

variable {v v' : Server ρ} {ev : Event}

/-- The two events that give the process another loop. -/
def Event.replacesLoop : Event → Bool
  | .startup | .swap => true
  | _ => false

theorem App.not_replacesLoop_of_allows (h : a.allows ev = true) : ev.replacesLoop = false := by
  cases ev with
  | startup => cases h
  | swap => cases h
  | _ => rfl

/-- The runner stays. -/
theorem engine_of_step (h : v.step runners ev = some v') (hev : ev ≠ .swap) :
    v'.engine = v.engine := by
  cases moves_of_step h with
  | swap htask hold hpc => exact absurd rfl hev
  | _ => rfl

/-- A loop that is there stays, as it is or one event later. -/
theorem isSome_loopTask_of_step (h : v.step runners ev = some v')
    (hsome : v.loopTask.isSome = true) : v'.loopTask.isSome = true := by
  cases moves_of_step h with
  | startup hnone => rfl
  | loop htask hstep => rfl
  | swap htask hold hpc => rfl
  | _ => exact hsome

/-- **A dead loop stays dead**, but for a new one. -/
theorem loopIsDead_of_step (h : v.step runners ev = some v') (hev : ev.replacesLoop = false)
    (hdead : v.loopIsDead = true) : v'.loopIsDead = true := by
  cases moves_of_step h with
  | startup hnone => cases hev
  | swap htask hold hpc => cases hev
  | @loop e t w htask hstep =>
    have hdone : t.pc = .done := by simpa [Server.loopIsDead, htask] using hdead
    simpa [Server.loopIsDead] using done_step hstep hdone
  | _ => exact hdead

/-- **A loop dies of two things**: `execute` raises, or it is cancelled. -/
theorem alive_of_step (h : v.step runners ev = some v') (hraise : ev ≠ .loop .raise)
    (hcancel : ev ≠ .loop .cancel) (halive : v.loopIsDead = false) : v'.loopIsDead = false := by
  cases moves_of_step h with
  | startup hnone => rfl
  | swap htask hold hpc => rfl
  | @loop e t w htask hstep =>
    have hpc : w.loop.pc ≠ .done := by
      have hlive : t.pc ≠ .done := by simpa [Server.loopIsDead, htask] using halive
      cases fires_of_step hstep with
      | raise hpc => exact absurd rfl hraise
      | cancelSleep hpc => exact absurd rfl hcancel
      | cancelTick hpc => exact absurd rfl hcancel
      | drain hpc hwork hbatch => exact hlive
      | _ => simp
    simpa [Server.loopIsDead] using hpc
  | _ => exact halive

/-- A verdict outlives whatever is done to the sequence. -/
theorem Handled.isFinished {s : SeqId} {q : Sequence} (h : Handled runners v s ev q)
    (hf : (v.sched.seqs s).isFinished = true) : q.isFinished = true := by
  cases h with
  | same => exact hf
  | record token hrow => exact Sequence.isFinished_record hf token
  | rowFailed hrow => exact Sequence.abort_isFinished _ _
  | tornDown hdown hmem => exact Sequence.fail_isFinished _
  | ended hcons hstep hover => exact Sequence.abort_isFinished _ _
  | hangup hcons hlive => exact Sequence.abort_isFinished _ _

/-- No event changes the size of a batch. -/
theorem maxBatchSize_server_step (hx : Fifo v.api) (h : v.step runners ev = some v') :
    v'.sched.maxBatchSize = v.sched.maxBatchSize := by
  cases moves_of_step h with
  | submit hlive hnew => exact Scheduler.submit_maxBatchSize ..
  | beginBody hnew hbody => exact Scheduler.submit_maxBatchSize ..
  | loop htask hstep => exact maxBatchSize_step (fifo_world hx htask) hstep
  | oldCancel htask hstep =>
    cases fires_of_step hstep with
    | cancelSleep hpc => rfl
    | cancelTick hpc => exact Scheduler.failAll_maxBatchSize _
  | @read seq c c' hcons hstep =>
    unfold Server.resume
    dsimp only
    split
    · rfl
    · exact Scheduler.abort_maxBatchSize ..
  | hangup hcons hlive => exact Scheduler.abort_maxBatchSize ..
  | _ => rfl

/-! ### The invariant -/

/-- The lifespan against the server. -/
structure AppInv (a : App ρ) : Prop where
  verdicts : VerdictInv a.server
  limit : a.server.sched.maxBatchSize = a.settings.maxBatchSize
  task : a.loader ≠ .absent → a.server.loopTask.isSome = true
  loaded : a.loaded = true ↔ a.loader = .done
  /-- A load goes on, or failed, only where there is a model to load. -/
  real : a.loader = .loading ∨ a.loader = .failed → a.settings.servesReal = true
  /-- The runner was swapped, where there is one to swap, before the process says `loaded`. -/
  engine : a.server.engine = .loaded ↔
    a.settings.servesReal = true ∧ (a.loader = .sleeping ∨ a.loader = .done)

theorem AppInv.init (settings : Settings) : AppInv (createApp settings : App ρ) where
  verdicts := VerdictInv.init _ _
  limit := rfl
  task := by intro h; exact absurd rfl h
  loaded := by simp [createApp]
  real := by simp [createApp]
  engine := by simp [createApp, Server.init]

theorem AppInv.step (ha : AppInv a) (h : a.step runners e = some a') : AppInv a' := by
  cases appMoves_of_step h with
  | startup habsent hstep =>
    refine ⟨ha.verdicts.step hstep, ?_, ?_, ?_, by simp, ?_⟩
    · exact (maxBatchSize_server_step ha.verdicts.fifo hstep).trans ha.limit
    · intro _
      cases moves_of_step hstep with
      | startup hnone => rfl
    · simpa [habsent] using ha.loaded
    · have hengine := engine_of_step hstep (by simp)
      simpa [hengine, habsent] using ha.engine
  | beginLoad hcreated =>
    refine ⟨ha.verdicts, ha.limit, fun _ => ha.task (by simp [hcreated]), ?_, ?_, ?_⟩
    · have hloaded := ha.loaded
      dsimp only
      split <;> simpa [hcreated] using hloaded
    · dsimp only
      split
      · next hreal => exact fun _ => hreal
      · simp
    · have hengine := ha.engine
      dsimp only
      split
      · simpa [hcreated] using hengine
      · next hmock => simpa [hcreated, hmock] using hengine
  | loadReturned hloading hstep =>
    have hreal := ha.real (Or.inl hloading)
    refine ⟨ha.verdicts.step hstep, ?_, ?_, ?_, by simp, ?_⟩
    · exact (maxBatchSize_server_step ha.verdicts.fifo hstep).trans ha.limit
    · intro _
      exact isSome_loopTask_of_step hstep (ha.task (by simp [hloading]))
    · simpa [hloading] using ha.loaded
    · cases moves_of_step hstep with
      | swap htask hold hpc => simp [hreal]
  | loadRaised hloading =>
    have hreal := ha.real (Or.inl hloading)
    refine ⟨ha.verdicts, ha.limit, fun _ => ha.task (by simp [hloading]), ?_, fun _ => hreal, ?_⟩
    · simpa [hloading] using ha.loaded
    · simpa [hloading] using ha.engine
  | slept hsleeping =>
    refine ⟨ha.verdicts, ha.limit, fun _ => ha.task (by simp [hsleeping]), by simp, by simp, ?_⟩
    simpa [hsleeping] using ha.engine
  | shutdown hstarted =>
    exact ⟨ha.verdicts, ha.limit, ha.task, ha.loaded, ha.real, ha.engine⟩
  | @server e v hallows hstep =>
    refine ⟨ha.verdicts.step hstep, ?_, ?_, ha.loaded, ha.real, ?_⟩
    · exact (maxBatchSize_server_step ha.verdicts.fifo hstep).trans ha.limit
    · exact fun hne => isSome_loopTask_of_step hstep (ha.task hne)
    · have hne : e ≠ .swap := by
        rintro rfl
        cases hallows
      rw [engine_of_step hstep hne]
      exact ha.engine

theorem appInv_reachable {settings : Settings} {events : List AppEvent}
    (h : run (App.step runners) (createApp settings) events = some a) : AppInv a :=
  run_invariant AppInv (fun ha hs => AppInv.step ha hs) (AppInv.init settings) h

/-! ### The answers of `health` -/

/-- **The life of a process goes one way.** -/
theorem stage_step (ha : AppInv a) (h : a.step runners e = some a') : a.stage ≤ a'.stage := by
  by_cases hloaded : a.loaded = false
  · rw [App.stage, if_pos hloaded]
    exact Nat.zero_le _
  · rw [Bool.not_eq_false] at hloaded
    have hdone := ha.loaded.mp hloaded
    -- `_load` is done, so the runner and the loop are not replaced any more
    cases appMoves_of_step h with
    | startup habsent hstep => cases habsent.symm.trans hdone
    | beginLoad hcreated => cases hcreated.symm.trans hdone
    | loadReturned hloading hstep => cases hloading.symm.trans hdone
    | loadRaised hloading => cases hloading.symm.trans hdone
    | slept hsleeping => cases hsleeping.symm.trans hdone
    | shutdown hstarted => exact le_refl _
    | @server e v hallows hstep =>
      simp only [App.stage, hloaded, Bool.true_eq_false, if_false]
      cases hdead : a.server.loopIsDead with
      | false =>
        simp only [Bool.false_eq_true, if_false]
        split <;> omega
      | true =>
        simp [loopIsDead_of_step hstep (App.not_replacesLoop_of_allows hallows) hdead]

/-- A list that a rank puts in order, with no rank above 2, is a block of each rank. -/
theorem blocks_of_sorted {α : Type*} (rank : α → ℕ) {l : List α}
    (hsorted : (l.map rank).Pairwise (· ≤ ·)) (hle : ∀ a ∈ l, rank a ≤ 2) :
    ∃ first second third, l = first ++ (second ++ third) ∧ (∀ a ∈ first, rank a = 0) ∧
      (∀ a ∈ second, rank a = 1) ∧ ∀ a ∈ third, rank a = 2 := by
  induction l with
  | nil => exact ⟨[], [], [], rfl, by simp, by simp, by simp⟩
  | cons a l ih =>
    rw [List.map_cons, List.pairwise_cons, List.forall_mem_map] at hsorted
    rw [List.forall_mem_cons] at hle
    obtain ⟨first, second, third, rfl, hfirst, hsecond, hthird⟩ := ih hsorted.2 hle.2
    have hmin := hsorted.1
    have ha := hle.1
    have hnofirst : 0 < rank a → first = [] := by
      intro hpos
      refine List.eq_nil_iff_forall_not_mem.mpr fun b hb => ?_
      have := hmin b (by simp [hb])
      rw [hfirst b hb] at this
      omega
    obtain h0 | h1 | h2 : rank a = 0 ∨ rank a = 1 ∨ rank a = 2 := by omega
    · exact ⟨a :: first, second, third, rfl, List.forall_mem_cons.mpr ⟨h0, hfirst⟩, hsecond, hthird⟩
    · obtain rfl := hnofirst (by omega)
      exact ⟨[], a :: second, third, rfl, by simp, List.forall_mem_cons.mpr ⟨h1, hsecond⟩, hthird⟩
    · obtain rfl := hnofirst (by omega)
      obtain rfl : second = [] := by
        refine List.eq_nil_iff_forall_not_mem.mpr fun b hb => ?_
        have := hmin b (by simp [hb])
        rw [hsecond b hb] at this
        omega
      exact ⟨[], [], a :: third, rfl, by simp, by simp, List.forall_mem_cons.mpr ⟨h2, hthird⟩⟩

/-- **What `health` answers along a run.**  The states it passes through are three blocks: in the
first the process is not loaded and the answer is 503; in the second it is loaded, the loop
is not dead and the answer is 200; in the third it is loaded, the loop is dead and the answer
is 503.  Nothing that happens makes it go back. -/
theorem health_codes {settings : Settings} {events : List AppEvent}
    (h : run (App.step runners) (createApp settings) events = some a) :
    ∃ starting up down,
      trail (App.step runners) (createApp settings) events = starting ++ (up ++ down) ∧
      (∀ b ∈ starting, b.loaded = false ∧ b.health.statusCode = 503) ∧
      (∀ b ∈ up, b.loaded = true ∧ b.server.loopIsDead = false ∧ b.health.statusCode = 200) ∧
      ∀ b ∈ down, b.loaded = true ∧ b.server.loopIsDead = true ∧ b.health.statusCode = 503 := by
  obtain ⟨hsorted, -⟩ := trail_sorted (fun b : App ρ => b.stage) AppInv
    (fun hb hs => ⟨AppInv.step hb hs, stage_step hb hs⟩) (AppInv.init settings) h
  obtain ⟨starting, up, down, hblocks, hstarting, hup, hdown⟩ :=
    blocks_of_sorted _ hsorted fun b _ => b.stage_le
  refine ⟨starting, up, down, hblocks, ?_, ?_, ?_⟩
  · intro b hb
    have hstage := hstarting b hb
    exact ⟨App.stage_eq_zero.mp hstage, by rw [b.statusCode_health, if_neg (by omega)]⟩
  · intro b hb
    have hstage := hup b hb
    obtain ⟨hloaded, halive⟩ := App.stage_eq_one.mp hstage
    exact ⟨hloaded, halive, by rw [b.statusCode_health, if_pos hstage]⟩
  · intro b hb
    have hstage := hdown b hb
    obtain ⟨hloaded, hdead⟩ := App.stage_eq_two.mp hstage
    exact ⟨hloaded, hdead, by rw [b.statusCode_health, if_neg (by omega)]⟩

/-- A mock that is loaded, answers, and dies. -/
theorem health_codes_mock :
    let settings : Settings := ⟨['m'], "mock/m".toList, 8, 8192, false⟩
    let events : List AppEvent := [.startup, .beginLoad, .server (.loop .iterate), .slept,
      .server (.loop .wake), .server (.post 0 { prompt := ['h'] }), .server (.loop .iterate),
      .server (.loop .raise), .server (.read 0)]
    let states : List (App Unit) := trail (App.step fun _ => mock) (createApp settings) events
    states.map (fun b => b.health.statusCode)
        = [503, 503, 503, 503, 200, 200, 200, 200, 503, 503] ∧
      ∃ starting up down, states = starting ++ (up ++ down) ∧
        (∀ b ∈ starting, b.loaded = false ∧ b.health.statusCode = 503) ∧
        (∀ b ∈ up, b.loaded = true ∧ b.server.loopIsDead = false ∧ b.health.statusCode = 200) ∧
        ∀ b ∈ down, b.loaded = true ∧ b.server.loopIsDead = true ∧
          b.health.statusCode = 503 := by
  intro settings events states
  have h := run_eq_runD (show
    (run (App.step fun _ => mock) (createApp settings) events).isSome = true by decide)
  exact ⟨by decide, health_codes h⟩

/-- **The spec reaches the process.**  In every run of a process started in the container that the
controller made for an admitted resource: at most `spec.maxBatchSize` requests run at a time,
and an answer of 200 names `spec.model` and comes from a process that has loaded it, unless the
spec names a mock.  There is no dollar sign in `spec.model`: with one, the value may hold a
reference to another variable, and Kubernetes puts that in its place. -/
theorem healthy_pod {E : Expander} {image : Text → Option Text} {D : Python.CharData}
    {ms : ModelServer} {settings : Settings} {events : List AppEvent} (hspec : ms.spec.Admitted)
    (htyped : ms.spec.Typed) (hplain : '$' ∉ ms.spec.model.toList)
    (hsettings : Settings.ofEnviron D (environ E image (serverContainer ms).env) = some settings)
    (h : run (App.step runners) (createApp settings) events = some a) :
    (a.server.sched.running.length : ℤ) ≤ ms.spec.maxBatchSize ∧
      (a.health.statusCode = 200 →
        a.health.content = some (.obj [("status".toList, .str "ok".toList),
          ("model".toList, .str ms.spec.model.toList)]) ∧
        (a.server.engine = .loaded ↔ ¬ mockModelPrefix <+: ms.spec.model.toList)) := by
  obtain ⟨-, hname, hsize, hreal⟩ := settings_of_container hspec htyped hplain hsettings
  have ha := appInv_reachable h
  have hsame : a.settings = settings := by
    refine run_invariant (fun b : App ρ => b.settings = settings) ?_ rfl h
    intro b e b' hb hstep
    cases appMoves_of_step hstep <;> exact hb
  constructor
  · have hcap := ha.verdicts.fifo.capacity
    have hlimit : a.server.api.sched.maxBatchSize = ms.spec.maxBatchSize :=
      ha.limit.trans ((congrArg Settings.maxBatchSize hsame).trans hsize)
    rw [hlimit] at hcap
    have hpos := hspec.maxBatchSize
    exact hcap.trans (by omega)
  · intro h200
    obtain ⟨hloaded, halive⟩ := App.health_eq_200.mp h200
    refine ⟨?_, ?_⟩
    · rw [App.health, hloaded, halive, hsame, hname]
      rfl
    · rw [ha.engine, hsame, hreal]
      exact and_iff_left (Or.inr (ha.loaded.mp hloaded))

/-- A mock in a batch of two, on an image that has settings of its own. -/
theorem healthy_pod_mock :
    let ms : ModelServer := ⟨"demo", "default", "uid", 1, 1,
      { model := "mock/fable-5", maxBatchSize := 2 }, {}⟩
    let image : Text → Option Text := fun key =>
      if key = "MAX_BATCH_SIZE".toList then some ['6', '4'] else none
    let settings : Settings :=
      ⟨"mock/fable-5".toList, "mock/fable-5".toList, 2, 8192, false⟩
    let events : List AppEvent := [.startup, .beginLoad, .server (.loop .iterate), .slept,
      .server (.loop .wake), .server (.post 0 { prompt := ['h'] }),
      .server (.post 1 { prompt := ['i'] }), .server (.post 2 { prompt := ['j'] }),
      .server (.loop .iterate)]
    let a : App Unit := runD (App.step fun _ => mock) (createApp settings) events
    Settings.ofEnviron Python.asciiData (environ Expander.keep image (serverContainer ms).env)
        = some settings ∧
      (a.server.sched.running.length : ℤ) ≤ ms.spec.maxBatchSize ∧
      a.health.content = some (.obj [("status".toList, .str "ok".toList),
        ("model".toList, .str ms.spec.model.toList)]) := by
  intro ms image settings events a
  have h := run_eq_runD (show
    (run (App.step fun _ => mock) (createApp settings) events).isSome = true by decide)
  have hspec : ms.spec.Admitted := ⟨by decide, by decide, by decide, by decide⟩
  have htyped : ms.spec.Typed := ⟨by decide, by decide, by decide⟩
  have hsettings : Settings.ofEnviron Python.asciiData
      (environ Expander.keep image (serverContainer ms).env) = some settings := by decide
  obtain ⟨hrunning, hhealth⟩ := healthy_pod hspec htyped (by decide) hsettings h
  exact ⟨hsettings, hrunning, (hhealth (by decide)).1⟩

/-! ### After the death of the loop -/

/-- Everybody who came before the death of the loop has a verdict. -/
def Server.Deserted (v : Server ρ) : Prop :=
  v.loopIsDead = true →
    ∀ s ∈ v.arrived, (v.sched.seqs s).isFinished = true ∨ s ∈ v.log.lateAdds

/-- An event that leaves the loop alone, and adds nobody, leaves nobody behind. -/
theorem Server.Deserted.frame (hx : Fifo v.api) (hv : v.Deserted)
    (h : v.step runners ev = some v') (hdead : v'.loopIsDead = true → v.loopIsDead = true) :
    v'.Deserted := by
  intro hd s hs
  have hlog : v.log.lateAdds ⊆ v'.log.lateAdds := by
    rcases lateAdds_step h with ⟨-, hsame⟩ | ⟨-, seq, hmore⟩
    · rw [hsame]
      exact fun _ ht => ht
    · rw [hmore]
      exact fun _ ht => List.mem_append_left _ ht
  by_cases hold : s ∈ v.arrived
  · exact (hv (hdead hd) s hold).imp (handled_of_step hx h hold).isFinished fun ht => hlog ht
  · -- it was added to a loop that was dead already
    have hwas := hdead hd
    cases moves_of_step h with
    | submit hlive hnew => cases hlive.symm.trans hwas
    | @beginBody seq i body hnew hbody =>
      rcases List.mem_append.mp hs with hs | hs
      · exact absurd hs hold
      · have hsame : ({ v with pending := v.pending.eraseIdx i } : Server ρ).loopIsDead
            = v.loopIsDead := rfl
        refine Or.inr ?_
        rw [submit_lateAdds, hsame, hwas, if_pos rfl]
        exact List.mem_append_right _ hs
    | _ => exact absurd hs hold

/-- **Nobody is left behind** by a process that is not being shut down. -/
theorem deserted_step (ha : AppInv a) (hv : a.stopping = false → a.server.Deserted)
    (h : a.step runners e = some a') : a'.stopping = false → a'.server.Deserted := by
  have hx := ha.verdicts.fifo
  cases appMoves_of_step h with
  | startup habsent hstep =>
    cases moves_of_step hstep with
    | startup hnone =>
      intro _ hdead
      cases hdead
  | loadReturned hloading hstep =>
    cases moves_of_step hstep with
    | swap htask hold hpc =>
      intro _ hdead
      cases hdead
  | shutdown hstarted =>
    intro hstop
    cases hstop
  | @server e v hallows hstep =>
    intro hstop
    have hcancel : e ≠ .loop .cancel := by
      rintro rfl
      cases hstop.symm.trans hallows
    by_cases hraise : e = .loop .raise
    · -- `fail_all` leaves nobody in the deques
      subst hraise
      have hx' := fifo_step hx hstep
      intro _ s hs
      refine Or.inl ?_
      by_contra hlive
      rw [Bool.not_eq_true] at hlive
      have hmem := hx'.complete s hs hlive
      cases moves_of_step hstep with
      | loop htask hloop =>
        cases fires_of_step hloop with
        | raise hpc => cases hmem
    · refine (hv hstop).frame hx hstep ?_
      intro hdead
      by_contra halive
      rw [Bool.not_eq_true] at halive
      rw [alive_of_step hstep hraise hcancel halive] at hdead
      cases hdead
  | _ => exact hv

/-- **Up, then down**: in a process that is not being shut down, a 503 after a 200 says that
`execute` raised in between; it is for good; and every request has its verdict, but for the
bodies that began after the death of the loop. -/
theorem down_after_up {settings : Settings} {before after : List AppEvent} {b : App ρ}
    (hbefore : run (App.step runners) (createApp settings) before = some a)
    (hup : a.health.statusCode = 200) (hafter : run (App.step runners) a after = some b)
    (hdown : b.health.statusCode = 503) (hstop : b.stopping = false) :
    Takes (App.step runners) (fun _ e => e = .server (.loop .raise)) a after ∧
      (∀ events c, run (App.step runners) b events = some c → c.health.statusCode = 503) ∧
      ∀ s ∈ b.server.arrived,
        (b.server.sched.seqs s).isFinished = true ∨ s ∈ b.server.log.lateAdds := by
  have ha := appInv_reachable hbefore
  obtain ⟨hloaded, halive⟩ := App.health_eq_200.mp hup
  have hb : AppInv b ∧ b.loaded = true := by
    refine run_invariant (fun c : App ρ => AppInv c ∧ c.loaded = true) ?_ ⟨ha, hloaded⟩ hafter
    rintro c e c' ⟨hc, hcl⟩ hstep
    refine ⟨hc.step hstep, ?_⟩
    cases appMoves_of_step hstep with
    | slept hsleeping => rfl
    | _ => exact hcl
  have hdead : b.server.loopIsDead = true := by
    by_contra hno
    rw [App.health_eq_200.mpr ⟨hb.2, by simpa using hno⟩] at hdown
    cases hdown
  have hrun : run (App.step runners) (createApp settings) (before ++ after) = some b := by
    rw [run_append, hbefore, Option.bind_some, hafter]
  refine ⟨?_, ?_, ?_⟩
  · have key := run_or_takes (P := fun _ e => e = .server (.loop .raise))
      (fun c : App ρ => c.stopping = false → c.server.loopIsDead = false) ?_ (fun _ => halive)
      hafter
    · rcases key with htakes | hlive
      · exact htakes
      · cases (hlive hstop).symm.trans hdead
    · intro c e c' hc hstep
      cases appMoves_of_step hstep with
      | startup habsent hmove => exact Or.inr fun hs => alive_of_step hmove (by simp) (by simp) (hc hs)
      | loadReturned hloading hmove =>
        exact Or.inr fun hs => alive_of_step hmove (by simp) (by simp) (hc hs)
      | shutdown hstarted => exact Or.inr fun hs => by cases hs
      | @server e v hallows hmove =>
        by_cases hraise : e = .loop .raise
        · exact Or.inl (congrArg AppEvent.server hraise)
        · refine Or.inr fun hs => alive_of_step hmove hraise ?_ (hc hs)
          rintro rfl
          cases hs.symm.trans hallows
      | _ => exact Or.inr hc
  · intro events c hc
    have hlast : 2 ≤ b.stage := by simp [App.stage, hb.2, hdead]
    have key := run_invariant (fun c : App ρ => AppInv c ∧ 2 ≤ c.stage)
      (fun hc hs => ⟨hc.1.step hs, le_trans hc.2 (stage_step hc.1 hs)⟩) ⟨hb.1, hlast⟩ hc
    rw [App.statusCode_health, if_neg (by omega)]
  · have hdeserted := run_invariant
      (fun c : App ρ => AppInv c ∧ (c.stopping = false → c.server.Deserted))
      (fun hc hs => ⟨hc.1.step hs, deserted_step hc.1 hc.2 hs⟩)
      ⟨AppInv.init settings, fun _ _ s hs => by cases hs⟩ hrun
    exact hdeserted.2 hstop hdead

/-- One request is in the batch when `execute` raises, and one waits. -/
theorem down_after_up_mock :
    let settings : Settings := ⟨['m'], "mock/m".toList, 1, 8192, false⟩
    let a : App Unit := runD (App.step fun _ => mock) (createApp settings)
      [.startup, .beginLoad, .slept]
    let after : List AppEvent := [.server (.post 0 { prompt := ['h'] }), .server (.loop .iterate),
      .server (.post 1 { prompt := ['i'] }), .server (.loop .raise)]
    let b : App Unit := runD (App.step fun _ => mock) a after
    ∀ s ∈ b.server.arrived,
      (b.server.sched.seqs s).isFinished = true ∨ s ∈ b.server.log.lateAdds := by
  intro settings a after b
  have hbefore := run_eq_runD (show (run (App.step fun _ => mock) (createApp settings)
    [.startup, .beginLoad, .slept]).isSome = true by decide)
  have hafter := run_eq_runD (show
    (run (App.step fun _ => mock) a after).isSome = true by decide)
  obtain ⟨-, -, hall⟩ := down_after_up hbefore (by decide) hafter (by decide) (by decide)
  exact hall

end Lifespan

end NanoKube
