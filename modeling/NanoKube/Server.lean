import NanoKube.Engine

/-!
# One server process

The handlers of `main.py` around the engine: `completions` looks at `loop_is_dead()`
and then either calls `generate`, which submits at once, or hands back a streaming
response, whose body submits when it is first iterated.  Start-up creates the loop on
the mock runner, and `_load` may swap the runner once, at a moment when the old loop
is suspended; the old task's cancellation reaches it later.

`Log` is history: which sequences were added while the loop was dead, whose tokenizer
made a sequence, whose `execute` made each token, and the `execute` and `decode` calls
so far.  No step reads it.

## Main definitions

* `Server`, `Event`, `Server.step` — the process and what can happen in it.
* `Server.world` — a loop task on the scheduler, as in `RunLoop`.

## Main results

* `moves_of_step` — every event with its guard and its effect.
* `fifo_step` — the law of the queues holds with both loops on one scheduler.
* `encoded_step` — a sequence's parameters stay those its encoder gave it.
-/

namespace NanoKube

/-- The two runners of a process. -/
inductive RunnerName
  | mock
  /-- The one `_load` loads. -/
  | loaded
  deriving DecidableEq, Repr

/-- History. -/
structure Log where
  /-- Sequences added while `loop_is_dead()`. -/
  lateAdds : List SeqId := []
  /-- Whose `encode` and stop tokens a sequence was built from. -/
  encoder : SeqId → RunnerName := fun _ => .mock
  /-- Whose `execute` each output token came from. -/
  makers : SeqId → List RunnerName := fun _ => []
  /-- The calls of `execute`: the runner and the batch. -/
  executed : List (RunnerName × List SeqId) := []
  /-- The calls of `decode`: the runner, and the makers of the tokens. -/
  decoded : List (RunnerName × List RunnerName) := []

/-- The process. -/
structure Server (ρ : Type*) where
  sched : Scheduler
  arrived : List SeqId
  /-- `engine.runner`. -/
  engine : RunnerName
  /-- `app.state.loop_task`. -/
  loopTask : Option (LoopTask ρ)
  /-- The task that was cancelled by the swap. -/
  oldTask : Option (LoopTask ρ)
  /-- Streaming responses that were returned and are not iterated yet. -/
  pending : List CompletionRequest
  consumers : SeqId → Option Consumer
  log : Log

/-- What can happen. -/
inductive Event
  /-- `lifespan` starts the loop. -/
  | startup
  /-- `POST /v1/completions`; a buffered request is submitted as `seq`. -/
  | post (seq : SeqId) (body : CompletionRequest)
  /-- The body of pending response `i` is iterated for the first time. -/
  | beginBody (seq : SeqId) (i : ℕ)
  /-- An event of `app.state.loop_task`. -/
  | loop (e : LoopEvent)
  /-- The cancelled task gets its `CancelledError`. -/
  | oldCancel
  /-- `_load` swaps the runner and the loop. -/
  | swap
  /-- A consumer takes an item from its queue. -/
  | read (seq : SeqId)
  /-- A client goes away. -/
  | hangup (seq : SeqId)

namespace Server

variable {ρ : Type*} (runners : RunnerName → Runner ρ)

/-- The process before start-up. -/
def init (maxBatchSize maxBatchTokens : ℤ) : Server ρ where
  sched := Scheduler.init maxBatchSize maxBatchTokens
  arrived := []
  engine := .mock
  loopTask := none
  oldTask := none
  pending := []
  consumers := fun _ => none
  log := {}

/-- `loop_is_dead`. -/
def loopIsDead (v : Server ρ) : Bool := v.loopTask.elim true fun t => decide (t.pc = .done)

/-- A loop task about to start. -/
def newTask (name : RunnerName) : LoopTask ρ := ⟨.top, [], [], (runners name).fresh⟩

/-- `BatchingEngine._submit`, and the consumer that called it. -/
def submit (v : Server ρ) (seq : SeqId) (body : CompletionRequest) : Server ρ :=
  { v with
    sched := v.sched.submit seq (promptToSequence (runners v.engine) body)
    arrived := v.arrived ++ [seq]
    consumers := fun s => if s = seq then
        some (if body.stream then .streaming {} else .generating 0)
      else v.consumers s
    log := { v.log with
      lateAdds := if v.loopIsDead then v.log.lateAdds ++ [seq] else v.log.lateAdds
      encoder := fun s => if s = seq then v.engine else v.log.encoder s
      makers := fun s => if s = seq then [] else v.log.makers s } }

/-- What the loop does to the history. -/
def logLoop (v : Server ρ) (t t' : LoopTask ρ) : LoopEvent → Log
  | .iterate =>
    if t'.pc = .executing then
      { v.log with executed := v.log.executed ++ [(v.engine, t'.batch)] }
    else v.log
  | .tickEnd nextIds =>
    { v.log with
      makers := fun s =>
        match (t.batch.zip nextIds).lookup s with
        | some (some _) => v.log.makers s ++ [v.engine]
        | _ => v.log.makers s }
  | _ => v.log

/-- A consumer moves on; if it ends, its `finally` cancels the sequence. -/
def resume (v : Server ρ) (seq : SeqId) (c : Consumer) : Server ρ :=
  { v with
    sched := if c.live then v.sched else v.sched.abort seq .cancelled
    consumers := fun s => if s = seq then some c else v.consumers s }

/-- The effect of an event. -/
def step (v : Server ρ) : Event → Option (Server ρ)
  | .startup =>
    if v.loopTask.isNone then some { v with loopTask := some (newTask runners v.engine) } else none
  | .post seq body =>
    -- 503
    if v.loopIsDead then some v
    else if body.stream then some { v with pending := v.pending ++ [body] }
    else if seq ∈ v.arrived then none
    else some (v.submit runners seq body)
  | .beginBody seq i =>
    if seq ∈ v.arrived then none
    else v.pending[i]?.map fun body =>
      ({ v with pending := v.pending.eraseIdx i } : Server ρ).submit runners seq body
  | .loop e =>
    v.loopTask.bind fun t =>
      (t.step (runners v.engine).toModelRunner v.sched e).map fun p =>
        { v with sched := p.1, loopTask := some p.2, log := v.logLoop t p.2 e }
  | .oldCancel =>
    v.oldTask.bind fun t =>
      (t.step (runners .mock).toModelRunner v.sched .cancel).map fun p =>
        { v with sched := p.1, oldTask := some p.2 }
  | .swap =>
    v.loopTask.bind fun t =>
      if v.oldTask.isNone ∧ t.pc ≠ .top then
        some { v with
          engine := .loaded
          loopTask := some (newTask runners .loaded)
          oldTask := some t }
      else none
  | .read seq =>
    (v.consumers seq).bind fun c =>
      (c.step (runners v.engine).decode (v.sched.seqs seq)).map fun c' =>
        let log := if c.decodes (v.sched.seqs seq) then
            { v.log with decoded := v.log.decoded ++ [(v.engine, v.log.makers seq)] }
          else v.log
        { v.resume seq c' with log := log }
  | .hangup seq =>
    (v.consumers seq).bind fun c => if c.live then some (v.resume seq .gone) else none

/-- A loop task on the scheduler. -/
def world (v : Server ρ) (t : LoopTask ρ) : World ρ := ⟨v.sched, v.arrived, t⟩

/-- The batch of the loop task. -/
def batch (v : Server ρ) : List SeqId := v.loopTask.elim [] LoopTask.batch

/-- The scheduler as its callers see it. -/
def api (v : Server ρ) : Api := ⟨v.sched, v.arrived, v.batch⟩

end Server

/-! ### The events, one by one -/

section Events

variable {ρ : Type*} {runners : RunnerName → Runner ρ} {v v' : Server ρ} {e : Event}

/-- The events that can happen, each with its guard and its effect. -/
inductive Moves (runners : RunnerName → Runner ρ) (v : Server ρ) : Event → Server ρ → Prop
  | startup (hnone : v.loopTask = none) :
    Moves runners v .startup { v with loopTask := some (Server.newTask runners v.engine) }
  | refuse {seq : SeqId} {body : CompletionRequest} (hdead : v.loopIsDead = true) :
    Moves runners v (.post seq body) v
  | respond {seq : SeqId} {body : CompletionRequest} (hlive : v.loopIsDead = false)
      (hstream : body.stream = true) :
    Moves runners v (.post seq body) { v with pending := v.pending ++ [body] }
  | submit {seq : SeqId} {body : CompletionRequest} (hlive : v.loopIsDead = false)
      (hnew : seq ∉ v.arrived) :
    Moves runners v (.post seq body) (v.submit runners seq body)
  | beginBody {seq : SeqId} {i : ℕ} {body : CompletionRequest} (hnew : seq ∉ v.arrived)
      (hbody : v.pending[i]? = some body) :
    Moves runners v (.beginBody seq i)
      (({ v with pending := v.pending.eraseIdx i } : Server ρ).submit runners seq body)
  | loop {e : LoopEvent} {t : LoopTask ρ} {w : World ρ} (htask : v.loopTask = some t)
      (hstep : (v.world t).step (runners v.engine).toModelRunner (.loop e) = some w) :
    Moves runners v (.loop e)
      { v with sched := w.sched, loopTask := some w.loop, log := v.logLoop t w.loop e }
  | oldCancel {t : LoopTask ρ} {w : World ρ} (htask : v.oldTask = some t)
      (hstep : (v.world t).step (runners .mock).toModelRunner (.loop .cancel) = some w) :
    Moves runners v .oldCancel { v with sched := w.sched, oldTask := some w.loop }
  | swap {t : LoopTask ρ} (htask : v.loopTask = some t) (hold : v.oldTask = none)
      (hpc : t.pc ≠ .top) :
    Moves runners v .swap
      { v with
        engine := .loaded
        loopTask := some (Server.newTask runners .loaded)
        oldTask := some t }
  | read {seq : SeqId} {c c' : Consumer} (hcons : v.consumers seq = some c)
      (hstep : c.step (runners v.engine).decode (v.sched.seqs seq) = some c') :
    Moves runners v (.read seq)
      { v.resume seq c' with
        log := if c.decodes (v.sched.seqs seq) then
            { v.log with decoded := v.log.decoded ++ [(v.engine, v.log.makers seq)] }
          else v.log }
  | hangup {seq : SeqId} {c : Consumer} (hcons : v.consumers seq = some c)
      (hlive : c.live = true) : Moves runners v (.hangup seq) (v.resume seq .gone)

/-- **What one event can do.** -/
theorem moves_of_step (h : v.step runners e = some v') : Moves runners v e v' := by
  cases e with
  | startup =>
    simp only [Server.step, Option.ite_none_right_eq_some, Option.some.injEq] at h
    obtain ⟨hnone, rfl⟩ := h
    exact .startup (by simpa using hnone)
  | post seq body =>
    unfold Server.step at h
    dsimp only at h
    split at h
    · next hdead =>
      cases h
      exact .refuse hdead
    · next hlive =>
      rw [Bool.not_eq_true] at hlive
      split at h
      · next hstream =>
        cases h
        exact .respond hlive hstream
      · split at h
        · cases h
        · next hnew =>
          cases h
          exact .submit hlive hnew
  | beginBody seq i =>
    simp only [Server.step, Option.ite_none_left_eq_some, Option.map_eq_some_iff] at h
    obtain ⟨hnew, body, hbody, rfl⟩ := h
    exact .beginBody hnew hbody
  | loop e =>
    simp only [Server.step, Option.bind_eq_some_iff, Option.map_eq_some_iff] at h
    obtain ⟨t, htask, p, hp, rfl⟩ := h
    have hstep : (v.world t).step (runners v.engine).toModelRunner (.loop e)
        = some ⟨p.1, v.arrived, p.2⟩ := by simp [World.step, Server.world, hp]
    exact .loop htask hstep
  | oldCancel =>
    simp only [Server.step, Option.bind_eq_some_iff, Option.map_eq_some_iff] at h
    obtain ⟨t, htask, p, hp, rfl⟩ := h
    have hstep : (v.world t).step (runners .mock).toModelRunner (.loop .cancel)
        = some ⟨p.1, v.arrived, p.2⟩ := by simp [World.step, Server.world, hp]
    exact .oldCancel htask hstep
  | swap =>
    simp only [Server.step, Option.bind_eq_some_iff, Option.ite_none_right_eq_some,
      Option.some.injEq] at h
    obtain ⟨t, htask, ⟨hold, hpc⟩, rfl⟩ := h
    exact .swap htask (by simpa using hold) hpc
  | read seq =>
    simp only [Server.step, Option.bind_eq_some_iff, Option.map_eq_some_iff] at h
    obtain ⟨c, hcons, c', hstep, rfl⟩ := h
    exact .read hcons hstep
  | hangup seq =>
    simp only [Server.step, Option.bind_eq_some_iff, Option.ite_none_right_eq_some,
      Option.some.injEq] at h
    obtain ⟨c, hcons, hlive, rfl⟩ := h
    exact .hangup hcons hlive

/-- The law of the queues does not depend on a batch being remembered. -/
theorem Fifo.forget {x : Api} (h : Fifo x) : Fifo { x with batch := [] } :=
  ⟨h.nodup, h.sublist, h.waiting_live, h.complete, List.nil_sublist _,
    fun _ hs => absurd hs List.not_mem_nil, h.capacity⟩

/-- The loop task sees the scheduler as the process does. -/
theorem fifo_world (hx : Fifo v.api) {t : LoopTask ρ} (htask : v.loopTask = some t) :
    Fifo (v.world t).api := by
  simpa [Server.api, Server.batch, htask, World.api, Server.world] using hx

/-- **The law of the queues holds in every process**, also while two loops share the scheduler:
the old one can only tear down. -/
theorem fifo_step (hx : Fifo v.api) (h : v.step runners e = some v') : Fifo v'.api := by
  have habort : ∀ seq c, Fifo (v.resume seq c).api := by
    intro seq c
    unfold Server.resume Server.api Server.batch
    dsimp only
    split
    · exact hx
    · exact hx.abort seq .cancelled
  cases moves_of_step h with
  | startup hnone => exact hx.forget
  | refuse hdead => exact hx
  | respond hlive hstream => exact hx
  | submit hlive hnew => exact hx.add hnew _
  | beginBody hnew hbody => exact hx.add hnew _
  | @loop e t w htask hstep =>
    have hwx := fifo_world hx htask
    have harr : w.arrived = v.arrived := by
      cases fires_of_step hstep <;> rfl
    have hfifo : Fifo w.api :=
      run_invariant Fifo (fun hx hs => Fifo.step hx hs) hwx (step_ops hwx hstep)
    simpa [Server.api, Server.batch, World.api, harr] using hfifo
  | @oldCancel t w htask hstep =>
    cases fires_of_step hstep with
    | cancelSleep hpc => exact hx
    | cancelTick hpc => exact hx.failAll
  | swap htask hold hpc => exact hx.forget
  | read hcons hstep => exact habort ..
  | hangup hcons hlive => exact habort ..

/-- A consumer that moves on or ends changes neither parameters nor outputs. -/
theorem resume_seqs (v : Server ρ) (seq : SeqId) (c : Consumer) (s : SeqId) :
    ((v.resume seq c).sched.seqs s).toRequest = (v.sched.seqs s).toRequest ∧
      ((v.resume seq c).sched.seqs s).outputIds = (v.sched.seqs s).outputIds := by
  unfold Server.resume
  dsimp only
  split
  · exact ⟨rfl, rfl⟩
  · rw [Scheduler.abort_seqs]
    split
    · exact ⟨Sequence.abort_toRequest _ _, Sequence.abort_outputIds _ _⟩
    · exact ⟨rfl, rfl⟩

/-- The cancellation of the old task changes neither parameters nor outputs. -/
theorem oldCancel_seqs (hx : Fifo v.api) {t : LoopTask ρ} {w : World ρ}
    {R : ModelRunner ρ} (hstep : (v.world t).step R (.loop .cancel) = some w) (s : SeqId) :
    (w.sched.seqs s).toRequest = (v.sched.seqs s).toRequest ∧
      (w.sched.seqs s).outputIds = (v.sched.seqs s).outputIds := by
  cases fires_of_step hstep with
  | cancelSleep hpc => exact ⟨rfl, rfl⟩
  | cancelTick hpc =>
    have hseq : v.sched.failAll.1.seqs s = _ := Scheduler.failAll_seqs hx.nodup_queues s
    dsimp only [Server.world]
    rw [hseq]
    split
    · exact ⟨Sequence.fail_toRequest _, Sequence.fail_outputIds _⟩
    · exact ⟨rfl, rfl⟩

/-- The history tells the truth about a sequence's origin. -/
def Encoded (runners : RunnerName → Runner ρ) (v : Server ρ) : Prop :=
  ∀ s ∈ v.arrived, ∃ body,
    (v.sched.seqs s).toRequest = promptToSequence (runners (v.log.encoder s)) body

theorem encoded_submit (hv : Encoded runners v) {seq : SeqId} (hnew : seq ∉ v.arrived)
    (body : CompletionRequest) : Encoded runners (v.submit runners seq body) := by
  intro s hs
  simp only [Server.submit, Scheduler.submit_seqs]
  rcases List.mem_append.mp hs with hs | hs
  · have hne : s ≠ seq := fun he => hnew (he ▸ hs)
    rw [if_neg hne, if_neg hne]
    exact hv s hs
  · rw [if_pos (by simpa using hs), if_pos (by simpa using hs)]
    exact ⟨body, by simp⟩

/-- A loop adds no sequence and encodes none. -/
theorem logLoop_frame (v : Server ρ) (t t' : LoopTask ρ) (e : LoopEvent) :
    (v.logLoop t t' e).encoder = v.log.encoder ∧
      (v.logLoop t t' e).lateAdds = v.log.lateAdds := by
  unfold Server.logLoop
  split
  · split <;> exact ⟨rfl, rfl⟩
  · exact ⟨rfl, rfl⟩
  · exact ⟨rfl, rfl⟩

theorem logLoop_encoder (v : Server ρ) (t t' : LoopTask ρ) (e : LoopEvent) :
    (v.logLoop t t' e).encoder = v.log.encoder := (logLoop_frame v t t' e).1

/-- **The prompt and the stop tokens of a sequence are those its encoder gave it**, to the end. -/
theorem encoded_step (hx : Fifo v.api) (hv : Encoded runners v) (h : v.step runners e = some v') :
    Encoded runners v' := by
  cases moves_of_step h with
  | submit hlive hnew => exact encoded_submit hv hnew _
  | @beginBody seq i body hnew hbody =>
    have hv' : Encoded runners ({ v with pending := v.pending.eraseIdx i } : Server ρ) := hv
    exact encoded_submit hv' hnew body
  | @loop e t w htask hstep =>
    intro s hs
    have hreq : (w.sched.seqs s).toRequest = (v.sched.seqs s).toRequest :=
      toRequest_step (fifo_world hx htask) hstep hs
    rw [logLoop_encoder, hreq]
    exact hv s hs
  | oldCancel htask hstep =>
    intro s hs
    rw [(oldCancel_seqs hx hstep s).1]
    exact hv s hs
  | @read seq c c' hcons hstep =>
    intro s hs
    obtain ⟨body, hbody⟩ := hv s hs
    refine ⟨body, ?_⟩
    rw [(resume_seqs v seq c' s).1, hbody]
    dsimp only
    split <;> rfl
  | hangup hcons hlive =>
    intro s hs
    rw [(resume_seqs v _ _ s).1]
    exact hv s hs
  | _ => exact hv

end Events

end NanoKube
