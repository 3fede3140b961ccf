import Mathlib.Data.List.Nodup
import Mathlib.Data.List.Perm.Subperm
import NanoKube.Scheduler
import NanoKube.Transition

/-!
# No request is lost, duplicated or overtaken

The scheduler as its callers drive it: any order of `add`, `schedule`,
`postprocess` on the batch scheduled last, `abort` and `fail_all`.  `arrived`
remembers every sequence ever added, in the order of the calls; the code keeps no
such list.

Each operation keeps the queues in arrival order by its own route: `add` appends,
`schedule` moves the boundary between the deques, `postprocess` leaves finished
sequences in `running` for the next sweep, `abort` removes from `waiting` only
and `fail_all` clears both.

## Main definitions

* `Api`, `Op`, `Api.step` — the state, the calls, and what each does.
* `Fifo` — the invariant that ties the deques to the arrival order.

## Main results

* `fifo_reachable` — `Fifo` holds after any calls.
* `live_eq` — the unfinished running sequences followed by the waiting ones are
  the unfinished arrivals.
* `queues_are_live_arrivals` — the law, with what `/metrics` and later batches show.
-/

namespace NanoKube

/-- The scheduler, the sequences added so far, and the batch scheduled last. -/
structure Api where
  sched : Scheduler
  arrived : List SeqId
  batch : List SeqId

/-- A call.  `postprocess` may be given any part of the batch, in the batch's order: the
loop leaves out the rows that failed. -/
inductive Op
  | add (seq : SeqId) (req : Request)
  | schedule
  | postprocess (survivors : List SeqId) (nextIds : List Token)
  | abort (seq : SeqId) (reason : FinishReason)
  | failAll

namespace Api

/-- A fresh scheduler. -/
def init (maxBatchSize maxBatchTokens : ℤ) : Api where
  sched := Scheduler.init maxBatchSize maxBatchTokens
  arrived := []
  batch := []

/-- The effect of a call.  A sequence is added once, and only a sequence that was added can
be aborted: nobody else holds a reference to it. -/
def step (x : Api) : Op → Option Api
  | .add seq req =>
    if seq ∈ x.arrived then none
    else some { x with sched := x.sched.submit seq req, arrived := x.arrived ++ [seq] }
  | .schedule => some { x with sched := x.sched.schedule.1, batch := x.sched.schedule.2 }
  | .postprocess survivors nextIds =>
    if survivors.Sublist x.batch then
      some { x with sched := (x.sched.postprocess survivors nextIds).1 }
    else none
  | .abort seq reason =>
    if seq ∈ x.arrived then some { x with sched := x.sched.abort seq reason } else none
  | .failAll => some { x with sched := x.sched.failAll.1 }

/-- The sequence has no verdict yet. -/
def live (x : Api) (s : SeqId) : Bool := !(x.sched.seqs s).isFinished

end Api

/-- The sequence a call adds, if it adds one. -/
def Op.added : Op → Option SeqId
  | .add seq _ => some seq
  | _ => none

/-- The deques against the arrival order. -/
structure Fifo (x : Api) : Prop where
  /-- Nothing arrives twice. -/
  nodup : x.arrived.Nodup
  /-- Both deques, one after the other, are in arrival order. -/
  sublist : (x.sched.running ++ x.sched.waiting).Sublist x.arrived
  /-- Nothing that waits has a verdict. -/
  waiting_live : ∀ s ∈ x.sched.waiting, (x.sched.seqs s).isFinished = false
  /-- An arrival without a verdict is in one of the deques. -/
  complete : ∀ s ∈ x.arrived, (x.sched.seqs s).isFinished = false →
    s ∈ x.sched.running ++ x.sched.waiting
  /-- The batch is in arrival order too. -/
  batch_sublist : x.batch.Sublist x.arrived
  /-- A scheduled sequence has left `waiting` for good. -/
  batch_waiting : ∀ s ∈ x.batch, s ∉ x.sched.waiting
  /-- `running` keeps to the batch size. -/
  capacity : (x.sched.running.length : ℤ) ≤ max x.sched.maxBatchSize 0

namespace Fifo

variable {x : Api}

theorem nodup_queues (h : Fifo x) : (x.sched.running ++ x.sched.waiting).Nodup :=
  h.sublist.nodup h.nodup

theorem nodup_batch (h : Fifo x) : x.batch.Nodup := h.batch_sublist.nodup h.nodup

theorem mem_arrived (h : Fifo x) {s : SeqId} (hs : s ∈ x.sched.running ++ x.sched.waiting) :
    s ∈ x.arrived := h.sublist.subset hs

/-! ### Each call keeps the invariant -/

theorem init (maxBatchSize maxBatchTokens : ℤ) : Fifo (Api.init maxBatchSize maxBatchTokens) where
  nodup := List.nodup_nil
  sublist := List.Sublist.refl _
  waiting_live := by intro s hs; cases hs
  complete := by intro s hs; cases hs
  batch_sublist := List.Sublist.refl _
  batch_waiting := by intro s hs; cases hs
  capacity := by simp [Api.init, Scheduler.init]

theorem add (h : Fifo x) {seq : SeqId} (hnew : seq ∉ x.arrived) (req : Request) :
    Fifo { x with sched := x.sched.submit seq req, arrived := x.arrived ++ [seq] } := by
  -- the heap cell of the new sequence belongs to none of the old ones
  have hold : ∀ s ∈ x.arrived, (x.sched.submit seq req).seqs s = x.sched.seqs s := by
    intro s hs
    have hne : s ≠ seq := fun he => hnew (he ▸ hs)
    rw [Scheduler.submit_seqs, if_neg hne]
  have hself := x.sched.submit_seqs seq seq req
  rw [if_pos rfl] at hself
  refine ⟨?_, ?_, ?_, ?_, ?_, ?_, ?_⟩
  · exact List.nodup_append.mpr ⟨h.nodup, List.nodup_singleton _, by grind⟩
  · show ((x.sched.submit seq req).running ++ (x.sched.submit seq req).waiting).Sublist _
    rw [Scheduler.submit_running, Scheduler.submit_waiting]
    split
    · exact h.sublist.trans (List.sublist_append_left ..)
    · rw [← List.append_assoc]
      exact h.sublist.append (List.Sublist.refl _)
  · intro s hs
    change s ∈ (x.sched.submit seq req).waiting at hs
    rw [Scheduler.submit_waiting] at hs
    by_cases hbudget : req.maxNewTokens ≤ 0
    · rw [if_pos hbudget] at hs
      rw [hold s (h.mem_arrived (List.mem_append_right _ hs))]
      exact h.waiting_live s hs
    · rw [if_neg hbudget, List.mem_append, List.mem_singleton] at hs
      rcases hs with hs | rfl
      · rw [hold s (h.mem_arrived (List.mem_append_right _ hs))]
        exact h.waiting_live s hs
      · rw [hself, Sequence.settle, if_neg hbudget]
        rfl
  · intro s hs hlive
    change (((x.sched.submit seq req).seqs s).isFinished = false) at hlive
    show s ∈ (x.sched.submit seq req).running ++ (x.sched.submit seq req).waiting
    rw [Scheduler.submit_running, Scheduler.submit_waiting]
    rcases List.mem_append.mp hs with hs | hs
    · rw [hold s hs] at hlive
      have := h.complete s hs hlive
      split <;> grind
    · rw [List.mem_singleton] at hs
      subst hs
      rw [hself, Sequence.settle] at hlive
      by_cases hbudget : req.maxNewTokens ≤ 0
      · rw [if_pos hbudget] at hlive
        cases hlive
      · rw [if_neg hbudget]
        simp
  · exact h.batch_sublist.trans (List.sublist_append_left ..)
  · intro s hs hw
    have hsa := h.batch_sublist.subset hs
    change s ∈ (x.sched.submit seq req).waiting at hw
    rw [Scheduler.submit_waiting] at hw
    have := h.batch_waiting s hs
    split at hw <;> grind
  · show ((x.sched.submit seq req).running.length : ℤ) ≤ _
    rw [Scheduler.submit_running]
    simpa using h.capacity

theorem schedule (h : Fifo x) :
    Fifo { x with sched := x.sched.schedule.1, batch := x.sched.schedule.2 } := by
  obtain ⟨admitted, hadm, hbatch, -⟩ := x.sched.schedule_spec
  have hlive : ∀ s ∈ x.sched.schedule.2, (x.sched.seqs s).isFinished = false :=
    fun s => Scheduler.isFinished_of_mem_schedule h.waiting_live
  -- the boundary moves inside `running ++ waiting`, less what the sweep dropped
  have hqueues : (x.sched.schedule.2 ++ x.sched.schedule.1.waiting).Sublist
      (x.sched.running ++ x.sched.waiting) := by
    rw [hbatch, List.append_assoc, ← hadm]
    exact List.filter_sublist.append (List.Sublist.refl _)
  refine ⟨h.nodup, hqueues.trans h.sublist, ?_, ?_, ?_, ?_, ?_⟩
  · intro s hs
    exact h.waiting_live s (by rw [hadm]; exact List.mem_append_right _ hs)
  · intro s hs hf
    show s ∈ x.sched.schedule.2 ++ x.sched.schedule.1.waiting
    rw [hbatch, List.append_assoc, ← hadm]
    rcases List.mem_append.mp (h.complete s hs hf) with hr | hw
    · exact List.mem_append_left _ (List.mem_filter.mpr ⟨hr, by simpa using hf⟩)
    · exact List.mem_append_right _ hw
  · exact ((List.sublist_append_left ..).trans hqueues).trans h.sublist
  · intro s hs hw
    have := hqueues.nodup h.nodup_queues
    exact (List.nodup_append.mp this).2.2 s hs s hw rfl
  · exact x.sched.length_schedule_le (le_max_left _ _) h.capacity

theorem postprocess (h : Fifo x) {survivors : List SeqId} (hsub : survivors.Sublist x.batch)
    (nextIds : List Token) :
    Fifo { x with sched := (x.sched.postprocess survivors nextIds).1 } := by
  have hkeys : ∀ s ∈ (survivors.zip nextIds).map Prod.fst, s ∈ x.batch := by
    intro s hs
    obtain ⟨⟨s', t⟩, hrow, rfl⟩ := List.mem_map.mp hs
    exact hsub.subset (List.of_mem_zip hrow).1
  have hnd : ((survivors.zip nextIds).map Prod.fst).Nodup :=
    ((Scheduler.map_fst_zip_sublist survivors nextIds).trans hsub).nodup h.nodup_batch
  -- a token never takes a verdict back
  have hback : ∀ s, ((x.sched.postRows (survivors.zip nextIds)).1.seqs s).isFinished = false →
      (x.sched.seqs s).isFinished = false := by
    intro s hs
    by_cases hmem : s ∈ (survivors.zip nextIds).map Prod.fst
    · obtain ⟨⟨s', t⟩, hrow, rfl⟩ := List.mem_map.mp hmem
      rw [Scheduler.postRows_seqs_of_mem hnd hrow] at hs
      by_contra hf
      rw [Bool.not_eq_false] at hf
      rw [Sequence.isFinished_record hf] at hs
      cases hs
    · rwa [Scheduler.postRows_seqs_of_not_mem hmem] at hs
  refine ⟨h.nodup, ?_, ?_, ?_, h.batch_sublist, ?_, ?_⟩
  · simpa [Scheduler.postprocess] using h.sublist
  · intro s hs
    have hw : s ∈ x.sched.waiting := by simpa [Scheduler.postprocess] using hs
    show ((x.sched.postRows (survivors.zip nextIds)).1.seqs s).isFinished = false
    rw [Scheduler.postRows_seqs_of_not_mem (fun hmem => h.batch_waiting s (hkeys s hmem) hw)]
    exact h.waiting_live s hw
  · intro s hs hf
    simpa [Scheduler.postprocess] using h.complete s hs (hback s hf)
  · intro s hs
    simpa [Scheduler.postprocess] using h.batch_waiting s hs
  · simpa [Scheduler.postprocess] using h.capacity

theorem abort (h : Fifo x) (seq : SeqId) (reason : FinishReason) :
    Fifo { x with sched := x.sched.abort seq reason } := by
  have hsub := x.sched.abort_waiting_sublist seq reason
  have hback : ∀ s, ((x.sched.abort seq reason).seqs s).isFinished = false →
      s ≠ seq ∧ (x.sched.seqs s).isFinished = false := by
    intro s hs
    rw [Scheduler.abort_seqs] at hs
    by_cases hst : s = seq
    · rw [if_pos hst, Sequence.abort_isFinished] at hs
      cases hs
    · rw [if_neg hst] at hs
      exact ⟨hst, hs⟩
  refine ⟨h.nodup, ?_, ?_, ?_, h.batch_sublist, ?_, ?_⟩
  · show ((x.sched.abort seq reason).running ++ (x.sched.abort seq reason).waiting).Sublist _
    rw [Scheduler.abort_running]
    exact ((List.Sublist.refl _).append hsub).trans h.sublist
  · intro s hs
    show ((x.sched.abort seq reason).seqs s).isFinished = false
    change s ∈ (x.sched.abort seq reason).waiting at hs
    have hlive := h.waiting_live s (hsub.subset hs)
    -- the aborted sequence itself was removed, so what still waits is another one
    have hne : s ≠ seq := by
      rintro rfl
      have hnd : x.sched.waiting.Nodup := (List.nodup_append.mp h.nodup_queues).2.1
      rw [Scheduler.abort_waiting, hlive, if_neg Bool.false_ne_true] at hs
      exact ((List.Nodup.mem_erase_iff hnd).mp hs).1 rfl
    rw [Scheduler.abort_seqs, if_neg hne]
    exact hlive
  · intro s hs hf
    obtain ⟨hne, hf⟩ := hback s hf
    show s ∈ (x.sched.abort seq reason).running ++ (x.sched.abort seq reason).waiting
    rw [Scheduler.abort_running, Scheduler.abort_waiting]
    rcases List.mem_append.mp (h.complete s hs hf) with hr | hw
    · exact List.mem_append_left _ hr
    · apply List.mem_append_right
      split
      · exact hw
      · exact (List.mem_erase_of_ne hne).mpr hw
  · intro s hs hw
    exact h.batch_waiting s hs (hsub.subset hw)
  · simpa using h.capacity

theorem failAll (h : Fifo x) : Fifo { x with sched := x.sched.failAll.1 } where
  nodup := h.nodup
  sublist := List.nil_sublist _
  waiting_live := by intro s hs; cases hs
  complete := by
    intro s hs hf
    exfalso
    change (x.sched.failAll.1.seqs s).isFinished = false at hf
    by_cases hq : s ∈ x.sched.running ++ x.sched.waiting
    · rw [Scheduler.failAll_seqs_of_mem h.nodup_queues hq, Sequence.fail_isFinished] at hf
      cases hf
    · rw [Scheduler.failAll_seqs_of_not_mem hq] at hf
      exact hq (h.complete s hs hf)
  batch_sublist := h.batch_sublist
  batch_waiting := by intro s _ hw; cases hw
  capacity := by simp

/-- **Every call keeps the invariant.** -/
theorem step (h : Fifo x) {op : Op} {x' : Api} (hs : x.step op = some x') : Fifo x' := by
  cases op with
  | add seq req =>
    simp only [Api.step, Option.ite_none_left_eq_some, Option.some.injEq] at hs
    obtain ⟨hnew, rfl⟩ := hs
    exact h.add hnew req
  | schedule =>
    simp only [Api.step, Option.some.injEq] at hs
    exact hs ▸ h.schedule
  | postprocess survivors nextIds =>
    simp only [Api.step, Option.ite_none_right_eq_some, Option.some.injEq] at hs
    obtain ⟨hsub, rfl⟩ := hs
    exact h.postprocess hsub nextIds
  | abort seq reason =>
    simp only [Api.step, Option.ite_none_right_eq_some, Option.some.injEq] at hs
    obtain ⟨-, rfl⟩ := hs
    exact h.abort seq reason
  | failAll =>
    simp only [Api.step, Option.some.injEq] at hs
    exact hs ▸ h.failAll

end Fifo

/-! ### Every reachable state -/

variable {m t : ℤ} {ops : List Op} {x : Api}

/-- **The queues are in order after any calls.** -/
theorem fifo_reachable (h : run Api.step (Api.init m t) ops = some x) : Fifo x :=
  run_invariant Fifo (fun hx hs => Fifo.step hx hs) (Fifo.init m t) h

/-- What no call does: it forgets no arrival, changes no limit and takes back no verdict. -/
theorem Fifo.step_frame (h : Fifo x) {op : Op} {x' : Api} (hs : x.step op = some x') :
    x'.arrived = x.arrived ++ op.added.toList ∧
    x'.sched.maxBatchSize = x.sched.maxBatchSize ∧
    ∀ s ∈ x.arrived, (x.sched.seqs s).isFinished = true → (x'.sched.seqs s).isFinished = true := by
  cases op with
  | add seq req =>
    simp only [Api.step, Option.ite_none_left_eq_some, Option.some.injEq] at hs
    obtain ⟨hnew, rfl⟩ := hs
    refine ⟨rfl, x.sched.submit_maxBatchSize seq req, ?_⟩
    intro s hsa hf
    have hne : s ≠ seq := fun he => hnew (he ▸ hsa)
    show ((x.sched.submit seq req).seqs s).isFinished = true
    rwa [Scheduler.submit_seqs, if_neg hne]
  | schedule =>
    simp only [Api.step, Option.some.injEq] at hs
    subst hs
    exact ⟨by simp [Op.added], rfl, fun s _ hf => hf⟩
  | postprocess survivors nextIds =>
    simp only [Api.step, Option.ite_none_right_eq_some, Option.some.injEq] at hs
    obtain ⟨hsub, rfl⟩ := hs
    refine ⟨by simp [Op.added], by simp [Scheduler.postprocess], ?_⟩
    intro s _ hf
    show ((x.sched.postRows (survivors.zip nextIds)).1.seqs s).isFinished = true
    by_cases hmem : s ∈ (survivors.zip nextIds).map Prod.fst
    · obtain ⟨⟨s', t⟩, hrow, rfl⟩ := List.mem_map.mp hmem
      have hnd := ((Scheduler.map_fst_zip_sublist survivors nextIds).trans hsub).nodup h.nodup_batch
      rw [Scheduler.postRows_seqs_of_mem hnd hrow]
      exact Sequence.isFinished_record hf t
    · rwa [Scheduler.postRows_seqs_of_not_mem hmem]
  | abort seq reason =>
    simp only [Api.step, Option.ite_none_right_eq_some, Option.some.injEq] at hs
    obtain ⟨-, rfl⟩ := hs
    refine ⟨by simp [Op.added], x.sched.abort_maxBatchSize seq reason, ?_⟩
    intro s _ hf
    show ((x.sched.abort seq reason).seqs s).isFinished = true
    rw [Scheduler.abort_seqs]
    split
    · exact Sequence.abort_isFinished _ _
    · exact hf
  | failAll =>
    simp only [Api.step, Option.some.injEq] at hs
    subst hs
    refine ⟨by simp [Op.added], x.sched.failAll_maxBatchSize, ?_⟩
    intro s _ hf
    show (x.sched.failAll.1.seqs s).isFinished = true
    by_cases hq : s ∈ x.sched.running ++ x.sched.waiting
    · rw [Scheduler.failAll_seqs_of_mem h.nodup_queues hq]
      exact Sequence.fail_isFinished _
    · rwa [Scheduler.failAll_seqs_of_not_mem hq]

/-- The arrivals are the sequences the `add` calls named, in order. -/
theorem arrived_eq_added : ∀ {ops : List Op} {x y : Api}, Fifo x → run Api.step x ops = some y →
    y.arrived = x.arrived ++ ops.filterMap Op.added := by
  intro ops
  induction ops with
  | nil => intro x y _ h; simp [Option.some.inj h]
  | cons op ops ih =>
    intro x y hx h
    obtain ⟨z, hz, h⟩ := run_cons h
    rw [ih (hx.step hz) h, (hx.step_frame hz).1, List.filterMap_cons]
    cases op.added <;> simp

/-- The limits are those the scheduler was built with. -/
theorem maxBatchSize_reachable (h : run Api.step (Api.init m t) ops = some x) :
    x.sched.maxBatchSize = m := by
  have key : Fifo x ∧ x.sched.maxBatchSize = m :=
    run_invariant (fun x => Fifo x ∧ x.sched.maxBatchSize = m)
      (fun hx hs => ⟨hx.1.step hs, (hx.1.step_frame hs).2.1.trans hx.2⟩) ⟨Fifo.init m t, rfl⟩ h
  exact key.2

/-- A verdict outlives any further calls. -/
theorem isFinished_run {y : Api} {s : SeqId} (hx : Fifo x) (hs : s ∈ x.arrived)
    (hf : (x.sched.seqs s).isFinished = true) (h : run Api.step x ops = some y) :
    (y.sched.seqs s).isFinished = true := by
  have key : Fifo y ∧ s ∈ y.arrived ∧ (y.sched.seqs s).isFinished = true := by
    refine run_invariant
      (fun y => Fifo y ∧ s ∈ y.arrived ∧ (y.sched.seqs s).isFinished = true)
      (fun {x op x'} hx hs => ?_) ⟨hx, hs, hf⟩ h
    obtain ⟨hfifo, harr, hfin⟩ := hx
    obtain ⟨harr', -, hfin'⟩ := hfifo.step_frame hs
    exact ⟨hfifo.step hs, harr' ▸ List.mem_append_left _ harr, hfin' s harr hfin⟩
  exact key.2.2

/-- A sublist holding every element with `p` filters to the same list. -/
theorem filter_eq_of_sublist {α : Type*} {p : α → Bool} {l₁ l₂ : List α} (h : l₁.Sublist l₂)
    (hn : l₂.Nodup) (hp : ∀ a ∈ l₂, p a = true → a ∈ l₁) : l₁.filter p = l₂.filter p := by
  apply (h.filter p).eq_of_length_le
  refine ((hn.filter p).subperm ?_).length_le
  intro a ha
  obtain ⟨ha, hpa⟩ := List.mem_filter.mp ha
  exact List.mem_filter.mpr ⟨hp a ha hpa, hpa⟩

/-- **Unfinished running, then waiting: the unfinished arrivals, in order.** -/
theorem Fifo.live_eq (h : Fifo x) :
    x.sched.unfinishedRunning ++ x.sched.waiting = x.arrived.filter x.live := by
  have hw : x.sched.waiting.filter x.live = x.sched.waiting := by
    rw [List.filter_eq_self]
    intro s hs
    simp [Api.live, h.waiting_live s hs]
  have hall : (x.sched.running ++ x.sched.waiting).filter x.live = x.arrived.filter x.live :=
    filter_eq_of_sublist h.sublist h.nodup
      (fun s hs hl => h.complete s hs (by simpa [Api.live] using hl))
  rw [List.filter_append, hw] at hall
  exact hall

/-- **No request is lost, duplicated, resurrected or overtaken.**  After any calls: the
unfinished members of `running` followed by `waiting` are the added sequences without a
verdict, each once and in the order they were added; `running` keeps to the batch size; the
two numbers of `stats` add up to the unfinished requests, the first within the limit; and a
sequence with a verdict is in no batch scheduled after any further calls. -/
theorem queues_are_live_arrivals (m t : ℤ) {ops : List Op} {x : Api}
    (h : run Api.step (Api.init m t) ops = some x) :
    (x.sched.unfinishedRunning ++ x.sched.waiting
        = (ops.filterMap Op.added).filter fun s => !(x.sched.seqs s).isFinished) ∧
    (x.sched.unfinishedRunning ++ x.sched.waiting).Nodup ∧
    (x.sched.running.length : ℤ) ≤ max m 0 ∧
    x.sched.stats.1 + x.sched.stats.2
        = ((ops.filterMap Op.added).filter fun s => !(x.sched.seqs s).isFinished).length ∧
    (x.sched.stats.1 : ℤ) ≤ max m 0 ∧
    ∀ s ∈ ops.filterMap Op.added, (x.sched.seqs s).isFinished = true →
      ∀ (later : List Op) (y : Api), run Api.step x later = some y → s ∉ y.sched.schedule.2 := by
  have hx := fifo_reachable h
  have harr : x.arrived = ops.filterMap Op.added := by
    simpa [Api.init] using arrived_eq_added (Fifo.init m t) h
  have hlive := hx.live_eq
  have hcap := hx.capacity
  rw [maxBatchSize_reachable h] at hcap
  rw [harr] at hlive
  refine ⟨hlive, ?_, hcap, ?_, ?_, ?_⟩
  · exact List.Nodup.sublist (List.filter_sublist.append (List.Sublist.refl _)) hx.nodup_queues
  · have := congrArg List.length hlive
    rw [List.length_append] at this
    exact this
  · have : x.sched.stats.1 ≤ x.sched.running.length := List.length_filter_le ..
    omega
  · intro s hs hf later y hy hbatch
    have hlater := isFinished_run hx (harr ▸ hs) hf hy
    have hxy : Fifo y := run_invariant Fifo (fun hx hs => Fifo.step hx hs) hx hy
    rw [Scheduler.isFinished_of_mem_schedule hxy.waiting_live hbatch] at hlater
    cases hlater

/-- Three requests on two slots: the first one is aborted in its slot, the third waits. -/
theorem queues_are_live_arrivals_two_slots :
    let ops := [.add 0 ⟨[1], 4, 0, none, ∅⟩, .add 1 ⟨[2], 4, 0, none, ∅⟩, .schedule,
      .add 2 ⟨[3], 4, 0, none, ∅⟩, .abort 0 .cancelled]
    ∃ x, run Api.step (Api.init 2 100) ops = some x ∧
      x.sched.unfinishedRunning ++ x.sched.waiting
        = (ops.filterMap Op.added).filter fun s => !(x.sched.seqs s).isFinished := by
  intro ops
  have h := run_eq_runD (show (run Api.step (Api.init 2 100) ops).isSome = true by decide)
  exact ⟨_, h, (queues_are_live_arrivals 2 100 h).1⟩

end NanoKube
