import Mathlib.Data.List.Basic
import NanoKube.Fifo

/-!
# The loop that drives the runner

`run_loop` is a coroutine: it runs from one `await` to the next, and handlers run
in between.  `Pc` names the points it can be suspended at; an iteration of the
`while` loop that ends in `continue` without an `await` leaves it at `top`.

What a runner computes is not the loop's business.  `ModelRunner` is the runner's
own state and what `reset` and `execute` do to it; the row results that `execute`
returns come with the `tickEnd` event, as any list.

`World` adds the handlers: sequences are added, and aborted when a client goes
away, at any moment.

## Main definitions

* `LoopTask.step` — one event of the loop task.
* `World.step` — one event of the loop or of a handler.
* `World.seqAfter` — what an event does to one sequence.
* `OneResultPerRow` — the runner keeps its contract.

## Main results

* `step_ops` — every event is a series of scheduler calls, so `Fifo` carries over.
* `worldInv_reachable` — the invariant of the loop.
* `step_seqs` — **what one event can do to a sequence**, said once for every law below.
-/

namespace NanoKube

/-- One tick's work, in the shape a runner needs. -/
structure ForwardBatch where
  seqs : List SeqId
  isPrefill : Bool

/-- A runner's own state `ρ`, and how the two calls of the loop change it. -/
structure ModelRunner (ρ : Type*) where
  reset : ρ → ρ
  execute : ρ → (SeqId → Sequence) → ForwardBatch → ρ

/-- Where the loop task is. -/
inductive Pc
  /-- At `while True`, not suspended. -/
  | top
  /-- Suspended at `await asyncio.sleep(idle_sleep)`. -/
  | sleeping
  /-- Suspended at `await asyncio.to_thread(runner.execute, ..)`. -/
  | executing
  /-- The task is done. -/
  | done
  deriving DecidableEq, Repr

/-- The loop task: its local variables and the runner it was started with. -/
structure LoopTask (ρ : Type*) where
  pc : Pc
  members : List SeqId
  batch : List SeqId
  runner : ρ

/-- What can happen to the loop task. -/
inductive LoopEvent
  /-- One iteration of the `while` loop, up to its `await` or `continue`. -/
  | iterate
  /-- The idle sleep is over. -/
  | wake
  /-- `runner.execute` returned one result a row. -/
  | tickEnd (nextIds : List (Option Token))
  /-- `runner.execute` raised. -/
  | raise
  /-- A cancellation is delivered at the `await` the task is suspended on. -/
  | cancel

namespace Scheduler

/-- The rows that came back `None`. -/
def casualties (batch : List SeqId) (nextIds : List (Option Token)) : List SeqId :=
  ((batch.zip nextIds).filter fun row => row.2.isNone).map Prod.fst

/-- The rows that came back with a token. -/
def survivors (batch : List SeqId) (nextIds : List (Option Token)) : List (SeqId × Token) :=
  (batch.zip nextIds).filterMap fun row => row.2.map fun t => (row.1, t)

/-- The end of a tick: the failed rows are aborted, then the others are recorded. -/
def tickEnd (σ : Scheduler) (batch : List SeqId) (nextIds : List (Option Token)) : Scheduler :=
  let σ := (casualties batch nextIds).foldl (fun σ s => σ.abort s .error) σ
  (σ.postprocess ((survivors batch nextIds).map Prod.fst)
    ((survivors batch nextIds).map Prod.snd)).1

end Scheduler

namespace LoopTask

variable {ρ : Type*} (R : ModelRunner ρ)

/-- One iteration of the `while` loop, up to its `await` or `continue`. -/
def iterate (σ : Scheduler) (l : LoopTask ρ) : Scheduler × LoopTask ρ :=
  if σ.hasWork = false then (σ, { l with pc := .sleeping })
  else
    let batch := σ.schedule.2
    let σ := σ.schedule.1
    if batch = [] then
      (σ, { l with batch := batch, members := [], runner := R.reset l.runner })
    else
      -- the ids of the batch, in order, against those of the tick before
      let isPrefill := decide (batch ≠ l.members)
      (σ, { l with
        batch := batch
        pc := .executing
        runner := R.execute l.runner σ.seqs ⟨batch, isPrefill⟩ })

/-- The event's effect on the scheduler and on the task. -/
def step (σ : Scheduler) (l : LoopTask ρ) : LoopEvent → Option (Scheduler × LoopTask ρ)
  | .iterate => if l.pc = .top then some (l.iterate R σ) else none
  | .wake => if l.pc = .sleeping then some (σ, { l with pc := .top }) else none
  | .tickEnd nextIds =>
    if l.pc = .executing then
      some (σ.tickEnd l.batch nextIds, { l with members := l.batch, pc := .top })
    else none
  | .raise => if l.pc = .executing then some (σ.failAll.1, { l with pc := .done }) else none
  | .cancel =>
    match l.pc with
    -- the sleep is outside the `try`: nothing is torn down
    | .sleeping => some (σ, { l with pc := .done })
    | .executing => some (σ.failAll.1, { l with pc := .done })
    | _ => none

end LoopTask

/-- One loop task on a scheduler, and the sequences handlers added to it. -/
structure World (ρ : Type*) where
  sched : Scheduler
  arrived : List SeqId
  loop : LoopTask ρ

/-- An event of a handler or of the loop. -/
inductive Act
  /-- A handler submits a new request. -/
  | add (seq : SeqId) (req : Request)
  /-- The client of a request went away. -/
  | abort (seq : SeqId)
  | loop (e : LoopEvent)

namespace World

variable {ρ : Type*}

/-- A fresh scheduler and a loop task about to start. -/
def init (maxBatchSize maxBatchTokens : ℤ) (runner : ρ) : World ρ where
  sched := Scheduler.init maxBatchSize maxBatchTokens
  arrived := []
  loop := ⟨.top, [], [], runner⟩

/-- The effect of an event. -/
def step (R : ModelRunner ρ) (w : World ρ) : Act → Option (World ρ)
  | .add seq req =>
    if seq ∈ w.arrived then none
    else some { w with sched := w.sched.submit seq req, arrived := w.arrived ++ [seq] }
  | .abort seq =>
    if seq ∈ w.arrived then some { w with sched := w.sched.abort seq .cancelled } else none
  | .loop e => (w.loop.step R w.sched e).map fun p => { w with sched := p.1, loop := p.2 }

/-- The scheduler as its callers see it. -/
def api (w : World ρ) : Api := ⟨w.sched, w.arrived, w.loop.batch⟩

/-- The scheduler calls an event makes. -/
def ops (w : World ρ) : Act → List Op
  | .add seq req => [.add seq req]
  | .abort seq => [.abort seq .cancelled]
  | .loop .iterate => if w.sched.hasWork = false then [] else [.schedule]
  | .loop .wake => []
  | .loop (.tickEnd nextIds) =>
    (Scheduler.casualties w.loop.batch nextIds).map (fun s => .abort s .error) ++
      [.postprocess ((Scheduler.survivors w.loop.batch nextIds).map Prod.fst)
        ((Scheduler.survivors w.loop.batch nextIds).map Prod.snd)]
  | .loop .raise => [.failAll]
  | .loop .cancel => if w.loop.pc = .executing then [.failAll] else []

/-- What an event does to one sequence. -/
def seqAfter (w : World ρ) (s : SeqId) : Act → Sequence
  | .add seq req =>
    if s = seq then ({ toRequest := req } : Sequence).settle else w.sched.seqs s
  | .abort seq => if s = seq then (w.sched.seqs s).abort .cancelled else w.sched.seqs s
  | .loop (.tickEnd nextIds) =>
    match (w.loop.batch.zip nextIds).lookup s with
    | some (some token) => (w.sched.seqs s).record token
    | some none => (w.sched.seqs s).abort .error
    | none => w.sched.seqs s
  | .loop .raise =>
    if s ∈ w.sched.running ++ w.sched.waiting then (w.sched.seqs s).fail else w.sched.seqs s
  | .loop .cancel =>
    if w.loop.pc = .executing ∧ s ∈ w.sched.running ++ w.sched.waiting then
      (w.sched.seqs s).fail
    else w.sched.seqs s
  | .loop .iterate | .loop .wake => w.sched.seqs s

end World

/-- The contract of `ModelRunner.execute`: one result a row, a token or `None`. -/
def OneResultPerRow {ρ : Type*} (w : World ρ) : Act → Prop
  | .loop (.tickEnd nextIds) => nextIds.length = w.loop.batch.length
  | _ => True

instance {ρ : Type*} (w : World ρ) : ∀ a, Decidable (OneResultPerRow w a)
  | .add _ _ | .abort _ | .loop .iterate | .loop .wake => isTrue trivial
  | .loop .raise | .loop .cancel => isTrue trivial
  | .loop (.tickEnd _) => inferInstanceAs (Decidable (_ = _))

/-- `MockRunner`: no model and no state. -/
def mockRunner : ModelRunner Unit where
  reset := id
  execute r _ _ := r

/-! ### The rows of a tick -/

namespace Scheduler

variable {batch : List SeqId} {nextIds : List (Option Token)}

theorem mem_casualties {s : SeqId} :
    s ∈ casualties batch nextIds ↔ (s, none) ∈ batch.zip nextIds := by
  simp [casualties, Option.isNone_iff_eq_none]

theorem mem_survivors {s : SeqId} {t : Token} :
    (s, t) ∈ survivors batch nextIds ↔ (s, some t) ∈ batch.zip nextIds := by
  unfold survivors
  rw [List.mem_filterMap]
  constructor
  · rintro ⟨⟨s', _ | t'⟩, hrow, h⟩
    · simp at h
    · simp only [Option.map_some, Option.some.injEq, Prod.mk.injEq] at h
      rwa [← h.1, ← h.2]
  · intro h
    exact ⟨(s, some t), h, rfl⟩

theorem casualties_subset {s : SeqId} (h : s ∈ casualties batch nextIds) : s ∈ batch :=
  (List.of_mem_zip (mem_casualties.mp h)).1

theorem casualties_sublist : (casualties batch nextIds).Sublist batch :=
  (List.Sublist.map Prod.fst List.filter_sublist).trans (map_fst_zip_sublist ..)

theorem map_fst_survivors_sublist :
    ((survivors batch nextIds).map Prod.fst).Sublist batch := by
  refine List.Sublist.trans ?_ (map_fst_zip_sublist batch nextIds)
  unfold survivors
  -- keeping only the rows with a token, their keys stay in order
  induction batch.zip nextIds with
  | nil => simp
  | cons row rows ih =>
    obtain ⟨s, _ | t⟩ := row
    · simpa using ih.cons s
    · simpa using ih.cons_cons s

theorem zip_survivors :
    ((survivors batch nextIds).map Prod.fst).zip ((survivors batch nextIds).map Prod.snd)
      = survivors batch nextIds := by
  induction survivors batch nextIds with
  | nil => rfl
  | cons row rows ih => simp [ih]

/-- With no row twice, a row is found under its key. -/
theorem lookup_eq_some_iff {α : Type*} {rows : List (SeqId × α)} (hn : (rows.map Prod.fst).Nodup)
    {s : SeqId} {a : α} : rows.lookup s = some a ↔ (s, a) ∈ rows := by
  induction rows with
  | nil => simp
  | cons row rows ih =>
    obtain ⟨k, b⟩ := row
    simp only [List.map_cons, List.nodup_cons] at hn
    by_cases hk : s = k
    · subst hk
      have hnot : ∀ a, (s, a) ∉ rows := fun a h => hn.1 (List.mem_map.mpr ⟨(s, a), h, rfl⟩)
      simp [hnot, eq_comm]
    · have hb : (s == k) = false := by simpa using hk
      simp [List.lookup_cons, hb, ih hn.2, hk]

theorem foldl_abort_seqs_of_mem {σ : Scheduler} {l : List SeqId} (hn : l.Nodup) {s : SeqId}
    (hs : s ∈ l) : (l.foldl (fun σ s => σ.abort s .error) σ).seqs s = (σ.seqs s).abort .error :=
  seqs_foldl_of_mem _ id (fun _ q => q.abort .error) (fun σ s t => σ.abort_seqs s t _) l σ
    (by simpa using hn) hs

theorem foldl_abort_seqs_of_not_mem {σ : Scheduler} {l : List SeqId} {s : SeqId}
    (hs : s ∉ l) : (l.foldl (fun σ s => σ.abort s .error) σ).seqs s = σ.seqs s :=
  seqs_foldl_of_not_mem _ id (fun _ q => q.abort .error) (fun σ s t => σ.abort_seqs s t _) l σ
    (by simpa using hs)

/-- **The end of a tick, row by row.** -/
theorem tickEnd_seqs (σ : Scheduler) (hn : batch.Nodup) (s : SeqId) :
    (σ.tickEnd batch nextIds).seqs s =
      match (batch.zip nextIds).lookup s with
      | some (some token) => (σ.seqs s).record token
      | some none => (σ.seqs s).abort .error
      | none => σ.seqs s := by
  have hkeys : ((batch.zip nextIds).map Prod.fst).Nodup :=
    (map_fst_zip_sublist batch nextIds).nodup hn
  have hcas : (casualties batch nextIds).Nodup := casualties_sublist.nodup hn
  have hsur : ((survivors batch nextIds).map Prod.fst).Nodup :=
    map_fst_survivors_sublist.nodup hn
  unfold tickEnd postprocess
  dsimp only
  rw [zip_survivors]
  cases hrow : (batch.zip nextIds).lookup s with
  | none =>
    have hno : ∀ o, (s, o) ∉ batch.zip nextIds := by
      intro o h
      rw [← lookup_eq_some_iff hkeys, hrow] at h
      cases h
    have h1 : s ∉ (survivors batch nextIds).map Prod.fst := by
      intro h
      obtain ⟨⟨s', t⟩, hsurv, rfl⟩ := List.mem_map.mp h
      exact hno _ (mem_survivors.mp hsurv)
    have h2 : s ∉ casualties batch nextIds := fun h => hno _ (mem_casualties.mp h)
    rw [postRows_seqs_of_not_mem h1, foldl_abort_seqs_of_not_mem h2]
  | some o =>
    have hmem := (lookup_eq_some_iff hkeys).mp hrow
    -- the key determines the row
    have huniq : ∀ o', (s, o') ∈ batch.zip nextIds → o' = o := by
      intro o' h
      rw [← lookup_eq_some_iff hkeys, hrow] at h
      exact (Option.some.inj h).symm
    cases o with
    | none =>
      have h1 : s ∉ (survivors batch nextIds).map Prod.fst := by
        intro h
        obtain ⟨⟨s', t⟩, hsurv, rfl⟩ := List.mem_map.mp h
        cases huniq _ (mem_survivors.mp hsurv)
      rw [postRows_seqs_of_not_mem h1, foldl_abort_seqs_of_mem hcas (mem_casualties.mpr hmem)]
    | some t =>
      have h2 : s ∉ casualties batch nextIds := by
        intro h
        cases huniq _ (mem_casualties.mp h)
      rw [postRows_seqs_of_mem hsur (mem_survivors.mpr hmem), foldl_abort_seqs_of_not_mem h2]

@[simp] theorem tickEnd_running (σ : Scheduler) :
    (σ.tickEnd batch nextIds).running = σ.running := by
  unfold tickEnd postprocess
  rw [postRows_running]
  exact proj_foldl _ Scheduler.running (fun σ s => σ.abort_running s .error) _ σ

@[simp] theorem tickEnd_maxBatchTokens (σ : Scheduler) :
    (σ.tickEnd batch nextIds).maxBatchTokens = σ.maxBatchTokens := by
  unfold tickEnd postprocess
  rw [postRows_maxBatchTokens]
  exact proj_foldl _ Scheduler.maxBatchTokens (fun σ s => σ.abort_maxBatchTokens s .error) _ σ

/-- The end of a tick sends nothing back to `waiting`. -/
theorem tickEnd_waiting_subset (σ : Scheduler) {s : SeqId}
    (hs : s ∈ (σ.tickEnd batch nextIds).waiting) : s ∈ σ.waiting := by
  unfold tickEnd postprocess at hs
  rw [postRows_waiting] at hs
  have haborts : ∀ (l : List SeqId) (σ : Scheduler),
      s ∈ (l.foldl (fun σ s => σ.abort s .error) σ).waiting → s ∈ σ.waiting := by
    intro l
    induction l with
    | nil => intro σ hs; exact hs
    | cons t l ih => intro σ hs; exact (σ.abort_waiting_sublist t .error).subset (ih _ hs)
  exact haborts _ σ hs

/-- What waits and is not in the batch waits on. -/
theorem mem_waiting_tickEnd {σ : Scheduler} {s : SeqId} (hs : s ∈ σ.waiting) (hbatch : s ∉ batch) :
    s ∈ (σ.tickEnd batch nextIds).waiting := by
  have haborts : ∀ (l : List SeqId) (σ : Scheduler), s ∉ l → s ∈ σ.waiting →
      s ∈ (l.foldl (fun σ s => σ.abort s .error) σ).waiting := by
    intro l
    induction l with
    | nil => intro σ _ hs; exact hs
    | cons t l ih =>
      intro σ hl hs
      rw [List.mem_cons, not_or] at hl
      rw [List.foldl_cons]
      apply ih _ hl.2
      rw [abort_waiting]
      split
      · exact hs
      · exact (List.mem_erase_of_ne hl.1).mpr hs
  unfold tickEnd postprocess
  rw [postRows_waiting]
  exact haborts _ σ (fun h => hbatch (casualties_subset h)) hs

end Scheduler

/-! ### The events, one by one -/

section Events

variable {ρ : Type*} {R : ModelRunner ρ} {w w' : World ρ} {a : Act}

/-- The events that can fire, each with its guard and its effect. -/
inductive Fires (R : ModelRunner ρ) (w : World ρ) : Act → World ρ → Prop
  | add {seq : SeqId} {req : Request} (hnew : seq ∉ w.arrived) :
    Fires R w (.add seq req)
      { w with sched := w.sched.submit seq req, arrived := w.arrived ++ [seq] }
  | abort {seq : SeqId} (hold : seq ∈ w.arrived) :
    Fires R w (.abort seq) { w with sched := w.sched.abort seq .cancelled }
  /-- Nothing to do: go to sleep. -/
  | doze (hpc : w.loop.pc = .top) (hwork : w.sched.hasWork = false) :
    Fires R w (.loop .iterate) { w with loop := { w.loop with pc := .sleeping } }
  /-- Nothing was admitted: drop the cache and look again. -/
  | drain (hpc : w.loop.pc = .top) (hwork : w.sched.hasWork = true)
      (hbatch : w.sched.schedule.2 = []) :
    Fires R w (.loop .iterate)
      { w with
        sched := w.sched.schedule.1
        loop := { w.loop with
          batch := w.sched.schedule.2, members := [], runner := R.reset w.loop.runner } }
  /-- The start of a tick. -/
  | tickStart (hpc : w.loop.pc = .top) (hwork : w.sched.hasWork = true)
      (hbatch : w.sched.schedule.2 ≠ []) :
    Fires R w (.loop .iterate)
      { w with
        sched := w.sched.schedule.1
        loop := { w.loop with
          batch := w.sched.schedule.2, pc := .executing
          runner := R.execute w.loop.runner w.sched.seqs
            ⟨w.sched.schedule.2, decide (w.sched.schedule.2 ≠ w.loop.members)⟩ } }
  | wake (hpc : w.loop.pc = .sleeping) :
    Fires R w (.loop .wake) { w with loop := { w.loop with pc := .top } }
  | tickEnd {nextIds : List (Option Token)} (hpc : w.loop.pc = .executing) :
    Fires R w (.loop (.tickEnd nextIds))
      { w with
        sched := w.sched.tickEnd w.loop.batch nextIds
        loop := { w.loop with members := w.loop.batch, pc := .top } }
  | raise (hpc : w.loop.pc = .executing) :
    Fires R w (.loop .raise)
      { w with sched := w.sched.failAll.1, loop := { w.loop with pc := .done } }
  | cancelSleep (hpc : w.loop.pc = .sleeping) :
    Fires R w (.loop .cancel) { w with loop := { w.loop with pc := .done } }
  | cancelTick (hpc : w.loop.pc = .executing) :
    Fires R w (.loop .cancel)
      { w with sched := w.sched.failAll.1, loop := { w.loop with pc := .done } }

/-- **What one event can do.** -/
theorem fires_of_step (h : w.step R a = some w') : Fires R w a w' := by
  cases a with
  | add seq req =>
    simp only [World.step, Option.ite_none_left_eq_some, Option.some.injEq] at h
    obtain ⟨hnew, rfl⟩ := h
    exact .add hnew
  | abort seq =>
    simp only [World.step, Option.ite_none_right_eq_some, Option.some.injEq] at h
    obtain ⟨hold, rfl⟩ := h
    exact .abort hold
  | loop e =>
    simp only [World.step, Option.map_eq_some_iff] at h
    obtain ⟨p, hp, rfl⟩ := h
    cases e with
    | iterate =>
      simp only [LoopTask.step, Option.ite_none_right_eq_some, Option.some.injEq] at hp
      obtain ⟨hpc, rfl⟩ := hp
      unfold LoopTask.iterate
      by_cases hwork : w.sched.hasWork = false
      · rw [if_pos hwork]
        exact .doze hpc hwork
      · rw [if_neg hwork]
        rw [Bool.not_eq_false] at hwork
        by_cases hbatch : w.sched.schedule.2 = []
        · dsimp only
          rw [if_pos hbatch]
          exact .drain hpc hwork hbatch
        · dsimp only
          rw [if_neg hbatch]
          exact .tickStart hpc hwork hbatch
    | wake =>
      simp only [LoopTask.step, Option.ite_none_right_eq_some, Option.some.injEq] at hp
      obtain ⟨hpc, rfl⟩ := hp
      exact .wake hpc
    | tickEnd nextIds =>
      simp only [LoopTask.step, Option.ite_none_right_eq_some, Option.some.injEq] at hp
      obtain ⟨hpc, rfl⟩ := hp
      exact .tickEnd hpc
    | raise =>
      simp only [LoopTask.step, Option.ite_none_right_eq_some, Option.some.injEq] at hp
      obtain ⟨hpc, rfl⟩ := hp
      exact .raise hpc
    | cancel =>
      cases hpc : w.loop.pc with
      | top => simp [LoopTask.step, hpc] at hp
      | done => simp [LoopTask.step, hpc] at hp
      | sleeping =>
        simp only [LoopTask.step, hpc, Option.some.injEq] at hp
        subst hp
        exact .cancelSleep hpc
      | executing =>
        simp only [LoopTask.step, hpc, Option.some.injEq] at hp
        subst hp
        exact .cancelTick hpc

/-- A series of aborts leaves the arrivals and the batch alone. -/
theorem run_aborts (x : Api) : ∀ (l : List SeqId) (σ : Scheduler), (∀ s ∈ l, s ∈ x.arrived) →
    run Api.step { x with sched := σ } (l.map fun s => Op.abort s .error)
      = some { x with sched := l.foldl (fun σ s => σ.abort s .error) σ } := by
  intro l
  induction l with
  | nil => intro σ _; rfl
  | cons s l ih =>
    intro σ hl
    have hstep : Api.step { x with sched := σ } (.abort s .error)
        = some { x with sched := σ.abort s .error } := by
      simp [Api.step, hl s List.mem_cons_self]
    rw [List.map_cons, run_cons_of_step hstep, List.foldl_cons]
    exact ih _ fun t ht => hl t (List.mem_cons_of_mem _ ht)

/-- **Every event is a series of scheduler calls.** -/
theorem step_ops (hx : Fifo w.api) (h : w.step R a = some w') :
    run Api.step w.api (w.ops a) = some w'.api := by
  cases fires_of_step h with
  | add hnew => simp [World.ops, run, Api.step, World.api, hnew]
  | abort hold => simp [World.ops, run, Api.step, World.api, hold]
  | doze hpc hwork => simp [World.ops, hwork, World.api]
  | drain hpc hwork hbatch => simp [World.ops, hwork, run, Api.step, World.api]
  | tickStart hpc hwork hbatch => simp [World.ops, hwork, run, Api.step, World.api]
  | wake hpc => simp [World.ops, World.api]
  | @tickEnd nextIds hpc =>
    have hcas : ∀ s ∈ Scheduler.casualties w.loop.batch nextIds, s ∈ w.api.arrived := fun s hs =>
      hx.batch_sublist.subset (Scheduler.casualties_subset hs)
    have hsur : ((Scheduler.survivors w.loop.batch nextIds).map Prod.fst).Sublist w.loop.batch :=
      Scheduler.map_fst_survivors_sublist
    unfold World.ops
    rw [run_append]
    rw [show run Api.step w.api _ = _ from run_aborts w.api _ w.sched hcas]
    simp [run, Api.step, World.api, hsur, Scheduler.tickEnd]
  | raise hpc => simp [World.ops, run, Api.step, World.api]
  | cancelSleep hpc => simp [World.ops, hpc, World.api]
  | cancelTick hpc => simp [World.ops, hpc, run, Api.step, World.api]

/-- No event changes the limits. -/
theorem maxBatchSize_step (hx : Fifo w.api) (h : w.step R a = some w') :
    w'.sched.maxBatchSize = w.sched.maxBatchSize := by
  have key : Fifo w'.api ∧ w'.api.sched.maxBatchSize = w.sched.maxBatchSize :=
    run_invariant (fun y : Api => Fifo y ∧ y.sched.maxBatchSize = w.sched.maxBatchSize)
      (fun hy hs => ⟨hy.1.step hs, (hy.1.step_frame hs).2.1.trans hy.2⟩) ⟨hx, rfl⟩ (step_ops hx h)
  exact key.2

/-- The invariant of the loop. -/
structure WorldInv (w : World ρ) : Prop where
  fifo : Fifo w.api
  /-- While the runner executes, `running` is the batch it was given. -/
  executing : w.loop.pc = .executing → w.sched.running = w.loop.batch
  /-- Nothing runs while the loop sleeps or once it is done. -/
  idle : w.loop.pc = .sleeping ∨ w.loop.pc = .done → w.sched.running = []

theorem WorldInv.init (m t : ℤ) (r : ρ) : WorldInv (World.init m t r) where
  fifo := Fifo.init m t
  executing := by intro h; cases h
  idle := by intro _; rfl

theorem WorldInv.step (hw : WorldInv w) (h : w.step R a = some w') : WorldInv w' := by
  refine ⟨run_invariant Fifo (fun hx hs => Fifo.step hx hs) hw.fifo (step_ops hw.fifo h), ?_, ?_⟩
  · intro hpc'
    cases fires_of_step h with
    | add hnew => simpa using hw.executing hpc'
    | abort hold => simpa using hw.executing hpc'
    | tickStart hpc hwork hbatch => rfl
    | drain hpc hwork hbatch => rw [hpc] at hpc'; cases hpc'
    | _ => cases hpc'
  · intro hpc'
    cases fires_of_step h with
    | add hnew => simpa using hw.idle hpc'
    | abort hold => simpa using hw.idle hpc'
    | doze hpc hwork => exact (Scheduler.hasWork_eq_false.mp hwork).2
    | drain hpc hwork hbatch => rw [hpc] at hpc'; simp at hpc'
    | cancelSleep hpc => exact hw.idle (Or.inl hpc)
    | raise hpc => rfl
    | cancelTick hpc => rfl
    | _ => simp at hpc'

/-- **The invariant of the loop holds in every reachable state.** -/
theorem worldInv_reachable {m t : ℤ} {r : ρ} {acts : List Act}
    (h : run (World.step R) (World.init m t r) acts = some w) : WorldInv w :=
  run_invariant WorldInv (fun hw hs => WorldInv.step hw hs) (WorldInv.init m t r) h

/-- The batch size is the one the scheduler was built with. -/
theorem maxBatchSize_world {m t : ℤ} {r : ρ} {acts : List Act}
    (h : run (World.step R) (World.init m t r) acts = some w) : w.sched.maxBatchSize = m := by
  have key : WorldInv w ∧ w.sched.maxBatchSize = m :=
    run_invariant (fun u => WorldInv u ∧ u.sched.maxBatchSize = m)
      (fun hu hs => ⟨hu.1.step hs, (maxBatchSize_step hu.1.fifo hs).trans hu.2⟩)
      ⟨WorldInv.init m t r, rfl⟩ h
  exact key.2

theorem maxBatchTokens_step (h : w.step R a = some w') :
    w'.sched.maxBatchTokens = w.sched.maxBatchTokens := by
  cases fires_of_step h with
  | add hnew => exact Scheduler.submit_maxBatchTokens ..
  | abort hold => exact Scheduler.abort_maxBatchTokens ..
  | tickEnd hpc => exact Scheduler.tickEnd_maxBatchTokens _
  | raise hpc => exact Scheduler.failAll_maxBatchTokens _
  | cancelTick hpc => exact Scheduler.failAll_maxBatchTokens _
  | _ => rfl

/-- **Nothing comes back to `waiting`.** -/
theorem mem_waiting_of_step (h : w.step R a = some w') {s : SeqId} (hs : s ∈ w.arrived)
    (hwait : s ∈ w'.sched.waiting) : s ∈ w.sched.waiting := by
  obtain ⟨admitted, hsplit, -, -⟩ := w.sched.schedule_spec
  cases fires_of_step h with
  | @add seq req hnew =>
    have hne : s ≠ seq := fun he => hnew (he ▸ hs)
    rw [Scheduler.submit_waiting] at hwait
    split at hwait
    · exact hwait
    · simpa [hne] using hwait
  | abort hold => exact (w.sched.abort_waiting_sublist _ _).subset hwait
  | drain hpc hwork hbatch => exact hsplit ▸ List.mem_append_right _ hwait
  | tickStart hpc hwork hbatch => exact hsplit ▸ List.mem_append_right _ hwait
  | tickEnd hpc => exact w.sched.tickEnd_waiting_subset hwait
  | raise hpc => cases hwait
  | cancelTick hpc => cases hwait
  | _ => exact hwait

/-- **What one event does to a sequence**, as long as no row is named twice. -/
theorem seqs_of_step (hx : Fifo w.api) (h : w.step R a = some w') (s : SeqId) :
    w'.sched.seqs s = w.seqAfter s a := by
  cases fires_of_step h with
  | @add seq req hnew => exact w.sched.submit_seqs seq s req
  | @abort seq hold => exact w.sched.abort_seqs seq s .cancelled
  | doze hpc hwork => rfl
  | drain hpc hwork hbatch => rfl
  | tickStart hpc hwork hbatch => rfl
  | wake hpc => rfl
  | tickEnd hpc => exact w.sched.tickEnd_seqs hx.nodup_batch s
  | raise hpc => exact Scheduler.failAll_seqs hx.nodup_queues s
  | cancelSleep hpc => simp [World.seqAfter, hpc]
  | cancelTick hpc =>
    rw [World.seqAfter]
    simp only [hpc, true_and]
    exact Scheduler.failAll_seqs hx.nodup_queues s

theorem step_seqs (hw : WorldInv w) (h : w.step R a = some w') (s : SeqId) :
    w'.sched.seqs s = w.seqAfter s a := seqs_of_step hw.fifo h s

/-- **A tick hands every row of its batch a token, or drops it.** -/
theorem row_tickEnd {nextIds : List (Option Token)} (hx : Fifo w.api)
    (hrows : nextIds.length = w.loop.batch.length) {s : SeqId} (hs : s ∈ w.loop.batch) :
    (∃ t, (w.sched.tickEnd w.loop.batch nextIds).seqs s = (w.sched.seqs s).record t) ∨
      (w.sched.tickEnd w.loop.batch nextIds).seqs s = (w.sched.seqs s).abort .error := by
  have hbatch : w.loop.batch.Nodup := hx.nodup_batch
  have hkeys := (Scheduler.map_fst_zip_sublist w.loop.batch nextIds).nodup hbatch
  obtain ⟨i, hi, rfl⟩ := List.mem_iff_getElem.mp hs
  have hrow : (w.loop.batch[i], nextIds[i]) ∈ w.loop.batch.zip nextIds := by
    rw [← List.getElem_zip (h := by simp [hrows, hi])]
    exact List.getElem_mem _
  rw [w.sched.tickEnd_seqs hbatch, (Scheduler.lookup_eq_some_iff hkeys).mpr hrow]
  cases nextIds[i] with
  | none => exact Or.inr rfl
  | some t => exact Or.inl ⟨t, rfl⟩

/-- What the beginning of a tick says. -/
theorem tickStart_of_step (h : w.step R (.loop .iterate) = some w')
    (hpc : w'.loop.pc = .executing) :
    w.loop.pc = .top ∧ w'.loop.batch = w.sched.schedule.2 ∧ w.sched.schedule.2 ≠ [] := by
  cases fires_of_step h with
  | doze htop hwork => cases hpc
  | drain htop hwork hbatch => cases htop.symm.trans hpc
  | tickStart htop hwork hbatch => exact ⟨htop, rfl, hbatch⟩

/-- Arrivals are only ever added, at the end. -/
theorem arrived_prefix_step (h : w.step R a = some w') : w.arrived <+: w'.arrived := by
  cases fires_of_step h with
  | add hnew => exact List.prefix_append ..
  | _ => exact List.prefix_refl _

theorem arrived_subset_of_step (h : w.step R a = some w') {s : SeqId} (hs : s ∈ w.arrived) :
    s ∈ w'.arrived := (arrived_prefix_step h).subset hs

/-- Nothing arrives without a handler. -/
theorem arrived_eq_of_step (h : w.step R a = some w') (ha : ∀ seq req, a ≠ .add seq req) :
    w'.arrived = w.arrived := by
  cases fires_of_step h with
  | @add seq req hnew => exact absurd rfl (ha seq req)
  | _ => rfl

/-- A task that is done stays done. -/
theorem done_step (h : w.step R a = some w') (hdone : w.loop.pc = .done) :
    w'.loop.pc = .done := by
  cases fires_of_step h with
  | add hnew => exact hdone
  | abort hold => exact hdone
  | doze hpc hwork => cases hpc.symm.trans hdone
  | drain hpc hwork hbatch => cases hpc.symm.trans hdone
  | tickStart hpc hwork hbatch => cases hpc.symm.trans hdone
  | wake hpc => cases hpc.symm.trans hdone
  | tickEnd hpc => cases hpc.symm.trans hdone
  | _ => rfl

/-- What an event may do to an arrival: a row of a tick brings it a token, it is aborted, or it is
torn down from one of the deques. -/
inductive Touch (w : World ρ) (s : SeqId) : Act → Sequence → Prop
  | same {a : Act} : Touch w s a (w.sched.seqs s)
  | record {nextIds : List (Option Token)} (t : Token) (hpc : w.loop.pc = .executing)
      (hrow : (s, some t) ∈ w.loop.batch.zip nextIds) :
    Touch w s (.loop (.tickEnd nextIds)) ((w.sched.seqs s).record t)
  | abort {a : Act} (r : FinishReason) (hr : r = .cancelled ∨ r = .error) :
    Touch w s a ((w.sched.seqs s).abort r)
  | fail {a : Act} (ha : a = .loop .raise ∨ a = .loop .cancel) (hpc : w.loop.pc = .executing)
      (hmem : s ∈ w.sched.running ++ w.sched.waiting) : Touch w s a (w.sched.seqs s).fail

/-- **An arrival is touched by one sequence operation or none.** -/
theorem touch_of_step (hx : Fifo w.api) (h : w.step R a = some w') {s : SeqId}
    (hs : s ∈ w.arrived) : Touch w s a (w'.sched.seqs s) := by
  rw [seqs_of_step hx h]
  cases fires_of_step h with
  | @add seq req hnew =>
    have hne : s ≠ seq := fun he => hnew (he ▸ hs)
    simp only [World.seqAfter, if_neg hne]
    exact .same
  | abort hold =>
    simp only [World.seqAfter]
    split
    · exact .abort _ (Or.inl rfl)
    · exact .same
  | @tickEnd nextIds hpc =>
    have hkeys := (Scheduler.map_fst_zip_sublist w.loop.batch nextIds).nodup hx.nodup_batch
    simp only [World.seqAfter]
    split
    · next token hfound =>
      exact .record token hpc ((Scheduler.lookup_eq_some_iff hkeys).mp hfound)
    · exact .abort _ (Or.inr rfl)
    · exact .same
  | raise hpc =>
    simp only [World.seqAfter]
    split
    · next hmem => exact .fail (Or.inl rfl) hpc hmem
    · exact .same
  | cancelTick hpc =>
    simp only [World.seqAfter]
    split
    · next hmem => exact .fail (Or.inr rfl) hpc hmem.2
    · exact .same
  | cancelSleep hpc =>
    simp only [World.seqAfter, hpc, reduceCtorEq, false_and, if_false]
    exact .same
  | _ => exact .same

/-- A sequence that arrives is built from its request, and settled if that asks for nothing. -/
theorem new_arrival (hx : Fifo w.api) (h : w.step R a = some w') {s : SeqId}
    (hold : s ∉ w.arrived) (hs : s ∈ w'.arrived) : ∃ req : Request, a = .add s req ∧
      w'.sched.seqs s = ({ toRequest := req } : Sequence).settle := by
  have hseq := seqs_of_step hx h s
  cases fires_of_step h with
  | @add seq req hnew =>
    have he : s = seq := by simpa [hold] using hs
    subst he
    exact ⟨req, rfl, by rw [hseq]; simp [World.seqAfter]⟩
  | _ => exact absurd hs hold

/-- The parameters of an arrival never change. -/
theorem toRequest_step (hx : Fifo w.api) (h : w.step R a = some w') {s : SeqId}
    (hs : s ∈ w.arrived) : (w'.sched.seqs s).toRequest = (w.sched.seqs s).toRequest := by
  have htouch := touch_of_step hx h hs
  generalize w'.sched.seqs s = q at htouch ⊢
  cases htouch with
  | same => rfl
  | record t hpc hrow => exact Sequence.record_toRequest _ _
  | abort r hr => exact Sequence.abort_toRequest _ _
  | fail ha hpc hmem => exact Sequence.fail_toRequest _

/-- A verdict is never taken back. -/
theorem isFinished_step (hx : Fifo w.api) (h : w.step R a = some w') {s : SeqId}
    (hs : s ∈ w.arrived) (hf : (w.sched.seqs s).isFinished = true) :
    (w'.sched.seqs s).isFinished = true := by
  have htouch := touch_of_step hx h hs
  generalize w'.sched.seqs s = q at htouch ⊢
  cases htouch with
  | same => exact hf
  | record t hpc hrow => exact Sequence.isFinished_record hf _
  | abort r hr => exact Sequence.abort_isFinished _ _
  | fail ha hpc hmem => exact Sequence.fail_isFinished _

/-- A verdict outlives the run. -/
theorem isFinished_world_run {acts : List Act} {s : SeqId} (hw : WorldInv w) (hs : s ∈ w.arrived)
    (hf : (w.sched.seqs s).isFinished = true) (h : run (World.step R) w acts = some w') :
    (w'.sched.seqs s).isFinished = true := by
  have key : WorldInv w' ∧ s ∈ w'.arrived ∧ (w'.sched.seqs s).isFinished = true := by
    refine run_invariant
      (fun u => WorldInv u ∧ s ∈ u.arrived ∧ (u.sched.seqs s).isFinished = true) ?_ ⟨hw, hs, hf⟩ h
    rintro u a u' ⟨hu, hsu, hfu⟩ hstep
    exact ⟨hu.step hstep, arrived_subset_of_step hstep hsu, isFinished_step hu.fifo hstep hsu hfu⟩
  exact key.2.2

/-- Only the end of a tick adds to an output. -/
theorem outputIds_step (hx : Fifo w.api) (h : w.step R a = some w') {s : SeqId}
    (hs : s ∈ w.arrived) (ha : ∀ nextIds, a ≠ .loop (.tickEnd nextIds)) :
    (w'.sched.seqs s).outputIds = (w.sched.seqs s).outputIds := by
  have htouch := touch_of_step hx h hs
  generalize w'.sched.seqs s = q at htouch ⊢
  cases htouch with
  | same => rfl
  | @record nextIds t hpc hrow => exact absurd rfl (ha nextIds)
  | abort r hr => exact Sequence.abort_outputIds _ _
  | fail hkind hpc hmem => exact Sequence.fail_outputIds _

/-- What is submitted has arrived, with the parameters it was submitted with. -/
theorem toRequest_add {s : SeqId} {req : Request} (hw : WorldInv w)
    (h : World.step R w (.add s req) = some w') :
    s ∈ w'.arrived ∧ (w'.sched.seqs s).toRequest = req := by
  refine ⟨?_, ?_⟩
  · cases fires_of_step h with
    | add hnew => exact List.mem_append_right _ List.mem_cons_self
  · rw [step_seqs hw h]
    simp [World.seqAfter]

/-- **A submitted request is the one its sequence was built from**, at any later time. -/
theorem toRequest_of_add {acts : List Act} {s : SeqId} {req : Request} (hw : WorldInv w)
    (h : run (World.step R) w acts = some w') (hadd : Act.add s req ∈ acts) :
    s ∈ w'.arrived ∧ (w'.sched.seqs s).toRequest = req := by
  refine run_established WorldInv (fun u => s ∈ u.arrived ∧ (u.sched.seqs s).toRequest = req)
    ?_ ?_ ?_ hw hadd h
  · exact fun hu hstep => hu.step hstep
  · exact fun hu hstep => toRequest_add hu hstep
  · rintro u a u' hu ⟨hs, hreq⟩ hstep
    exact ⟨arrived_subset_of_step hstep hs, (toRequest_step hu.fifo hstep hs).trans hreq⟩

end Events

end NanoKube
