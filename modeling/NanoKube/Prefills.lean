import NanoKube.RunLoop

/-!
# How often the cache is thrown away

A prefill computes every row from its first token, a decode one column.  The loop prefills
when the ids of the batch are not those of the tick before.  A request changes the batch
twice, when it joins and when it is swept, and there is no other cause.

## Main definitions

* `World.prefills` — the event starts a tick that is a prefill.
* `PrefillInv` — between two ticks the members are what is running.

## Main results

* `batch_eq_running_iff` — the batch stays the same when nobody finished and nobody is
  admitted.
* `prefills_le` — **two prefills for each request** at most, in every run.
* `prefills_iff` — a tick is a prefill exactly when somebody left or joined.
-/

namespace NanoKube

variable {ρ : Type*} {R : ModelRunner ρ} {w w' : World ρ} {a : Act}

/-- The event starts a tick whose `ForwardBatch` is a prefill. -/
def World.prefills (w : World ρ) : Act → Bool
  | .loop .iterate => w.loop.pc = .top && w.sched.hasWork && !w.sched.schedule.2.isEmpty &&
      decide (w.sched.schedule.2 ≠ w.loop.members)
  | _ => false

/-- Between two ticks the members are what is running. -/
structure PrefillInv (w : World ρ) : Prop where
  world : WorldInv w
  members : w.loop.pc = .top ∨ w.loop.pc = .sleeping → w.loop.members = w.sched.running

theorem PrefillInv.init (m t : ℤ) (r : ρ) : PrefillInv (World.init m t r) where
  world := WorldInv.init m t r
  members := by intro _; rfl

theorem PrefillInv.step (hw : PrefillInv w) (h : w.step R a = some w') : PrefillInv w' := by
  refine ⟨hw.world.step h, ?_⟩
  intro hpc'
  cases fires_of_step h with
  | add hnew =>
    rw [Scheduler.submit_running]
    exact hw.members hpc'
  | abort hold =>
    rw [Scheduler.abort_running]
    exact hw.members hpc'
  | doze hpc hwork => exact hw.members (Or.inl hpc)
  | drain hpc hwork hbatch => exact hbatch.symm
  | wake hpc => exact hw.members (Or.inr hpc)
  | tickEnd hpc =>
    rw [Scheduler.tickEnd_running]
    exact (hw.world.executing hpc).symm
  | _ => simp at hpc'

theorem prefillInv_reachable {m t : ℤ} {r : ρ} {acts : List Act}
    (h : run (World.step R) (World.init m t r) acts = some w) : PrefillInv w :=
  run_invariant PrefillInv (fun hw hs => PrefillInv.step hw hs) (PrefillInv.init m t r) h

/-- **The batch stays the same** when nobody in it has finished and nobody is admitted. -/
theorem batch_eq_running_iff {σ : Scheduler}
    (hlive : ∀ s ∈ σ.waiting, (σ.seqs s).isFinished = false) :
    σ.schedule.2 = σ.running ↔
      (∀ s ∈ σ.running, (σ.seqs s).isFinished = false) ∧ σ.schedule.1.waiting = σ.waiting := by
  obtain ⟨admitted, hsplit, hbatch, -⟩ := σ.schedule_spec
  have hall : (∀ s ∈ σ.running, (σ.seqs s).isFinished = false) → σ.unfinishedRunning = σ.running :=
    fun hrun => List.filter_eq_self.mpr fun s hs => by simp [hrun s hs]
  constructor
  · intro hsame
    have hrun : ∀ s ∈ σ.running, (σ.seqs s).isFinished = false := fun s hs =>
      Scheduler.isFinished_of_mem_schedule hlive (hsame ▸ hs)
    refine ⟨hrun, ?_⟩
    have hnil : admitted = [] := by
      rw [hall hrun, hsame] at hbatch
      exact List.self_eq_append_right.mp hbatch
    rw [hnil, List.nil_append] at hsplit
    exact hsplit.symm
  · rintro ⟨hrun, hwait⟩
    have hnil : admitted = [] := by
      rw [hwait] at hsplit
      exact List.self_eq_append_left.mp hsplit
    rw [hbatch, hall hrun, hnil, List.append_nil]

/-- Requests that still can join count twice, those that can only leave once. -/
def World.changes (w : World ρ) : ℕ := 2 * w.sched.waiting.length + w.sched.running.length

/-- What a request adds to the changes to come. -/
def Act.brings : Act → ℕ
  | .add _ _ => 2
  | _ => 0

/-- **A call of `schedule` lowers the changes to come**, by at least one if it changes the batch. -/
theorem changes_schedule {σ : Scheduler} :
    2 * σ.schedule.1.waiting.length + σ.schedule.2.length +
        (if σ.schedule.2 = σ.running then 0 else 1)
      ≤ 2 * σ.waiting.length + σ.running.length := by
  obtain ⟨admitted, hsplit, hbatch, -⟩ := σ.schedule_spec
  have hwait := congrArg List.length hsplit
  have hrun := congrArg List.length hbatch
  have hle : σ.unfinishedRunning.length ≤ σ.running.length := List.length_filter_le ..
  rw [List.length_append] at hwait hrun
  split
  · omega
  · next hne =>
    -- somebody was admitted, or somebody was swept
    cases hadm : admitted with
    | cons s rest =>
      rw [hadm, List.length_cons] at hwait hrun
      omega
    | nil =>
      have hlt : σ.unfinishedRunning.length ≠ σ.running.length := by
        intro heq
        apply hne
        rw [hbatch, hadm, List.append_nil]
        exact List.filter_sublist.eq_of_length heq
      rw [hadm, List.length_nil] at hwait hrun
      omega

/-- **What an event does to the changes to come.** -/
theorem PrefillInv.changes_step (hw : PrefillInv w) (h : w.step R a = some w') :
    w'.changes + (if w.prefills a then 1 else 0) ≤ w.changes + a.brings := by
  have hnodup : w'.sched.waiting.Nodup :=
    (List.nodup_append.mp (hw.world.step h).fifo.nodup_queues).2.1
  have hsched := changes_schedule (σ := w.sched)
  cases fires_of_step h with
  | @add seq req hnew =>
    have hlen : (w.sched.submit seq req).waiting.length ≤ w.sched.waiting.length + 1 := by
      rw [Scheduler.submit_waiting]
      split <;> simp
    simp only [World.changes, World.prefills, Act.brings, Scheduler.submit_running,
      Bool.false_eq_true, if_false]
    omega
  | @abort seq hold =>
    have hlen := (w.sched.abort_waiting_sublist seq .cancelled).length_le
    simp only [World.changes, World.prefills, Act.brings, Scheduler.abort_running,
      Bool.false_eq_true, if_false]
    omega
  | doze hpc hwork => simp [World.changes, World.prefills, Act.brings, hwork]
  | drain hpc hwork hbatch =>
    rw [hbatch, List.length_nil] at hsched
    simp only [World.changes, World.prefills, Act.brings, hbatch, Scheduler.schedule_running,
      List.isEmpty_nil, Bool.not_true, Bool.and_false, Bool.false_and, Bool.false_eq_true,
      if_false, List.length_nil]
    omega
  | tickStart hpc hwork hbatch =>
    simp only [World.changes, World.prefills, Act.brings, hw.members (Or.inl hpc),
      Scheduler.schedule_running]
    split at hsched
    · next hsame =>
      simp only [hsame, ne_eq, not_true_eq_false, decide_false, Bool.and_false,
        Bool.false_eq_true, if_false] at hsched ⊢
      omega
    · split <;> omega
  | @tickEnd nextIds hpc =>
    have hsub : ∀ s ∈ (w.sched.tickEnd w.loop.batch nextIds).waiting, s ∈ w.sched.waiting :=
      fun s hs => Scheduler.tickEnd_waiting_subset _ hs
    have hlen := (hnodup.subperm hsub).length_le
    simp only [World.changes, World.prefills, Act.brings, Scheduler.tickEnd_running,
      Bool.false_eq_true, if_false] at hlen ⊢
    omega
  | _ => simp [World.changes, World.prefills, Act.brings]

/-- The arrivals are the requests that were added. -/
theorem arrivals_step (h : w.step R a = some w') :
    2 * w'.arrived.length = 2 * w.arrived.length + a.brings := by
  cases fires_of_step h with
  | add hnew =>
    rw [List.length_append, List.length_singleton, Act.brings]
    omega
  | _ => simp [Act.brings]

/-- **Two prefills for each request.**  In every run, whatever the limits, the failures and the
hang-ups: the prefills so far, two more for each request that waits and one for each that occupies
a slot are no more than twice the requests that have arrived. -/
theorem prefills_le {m t : ℤ} {r : ρ} {acts : List Act}
    (h : run (World.step R) (World.init m t r) acts = some w) :
    countSteps (World.step R) World.prefills (World.init m t r) acts +
        2 * w.sched.waiting.length + w.sched.running.length ≤ 2 * w.arrived.length := by
  have hall : Along (World.step R) (fun _ _ => True) (World.init m t r) acts :=
    along_of_forall (fun _ _ => trivial) _ _
  have hcount : w.changes + countSteps (World.step R) World.prefills (World.init m t r) acts
      ≤ (World.init m t r).changes +
        totalCost (World.step R) (fun _ a => Act.brings a) (World.init m t r) acts :=
    run_amortized PrefillInv World.changes
      (fun hw _ hs => ⟨hw.step hs, hw.changes_step hs⟩) (PrefillInv.init m t r) hall h
  have harr : 2 * w.arrived.length + totalCost (World.step R) (fun _ _ => 0) (World.init m t r) acts
      = 2 * (World.init m t r).arrived.length +
        totalCost (World.step R) (fun _ a => Act.brings a) (World.init m t r) acts :=
    run_balanced (fun _ => True) (fun u : World ρ => 2 * u.arrived.length)
      (fun _ _ hs => ⟨trivial, arrivals_step hs⟩) trivial hall h
  have hnone : (World.init m t r).changes = 0 := rfl
  have hempty : (World.init m t r).arrived.length = 0 := rfl
  rw [totalCost_zero] at harr
  unfold World.changes at hcount hnone
  omega

/-- Two requests, the second one joining late: three prefills, and one decode. -/
theorem prefills_le_late_join :
    let acts : List Act := [.add 0 ⟨[5], 3, 0, none, ∅⟩, .loop .iterate, .loop (.tickEnd [some 0]),
      .loop .iterate, .add 1 ⟨[5], 1, 0, none, ∅⟩, .loop (.tickEnd [some 0]), .loop .iterate,
      .loop (.tickEnd [some 0, some 0])]
    countSteps (World.step mockRunner) World.prefills (World.init 8 8192 ()) acts ≤ 4 := by
  intro acts
  have h := run_eq_runD (show
    (run (World.step mockRunner) (World.init 8 8192 ()) acts).isSome = true by decide)
  have hle := prefills_le h
  have harr : (runD (World.step mockRunner) (World.init 8 8192 ()) acts).arrived.length = 2 := by
    decide
  omega

/-- **A tick is a prefill exactly when somebody left or joined**: in every run, some request in a
slot has finished since the last tick, or some request that waited is admitted. -/
theorem prefills_iff {m t : ℤ} {r : ρ} {acts : List Act}
    (h : run (World.step R) (World.init m t r) acts = some w)
    (htick : w.step R (.loop .iterate) = some w') (hexec : w'.loop.pc = .executing) :
    w.prefills (.loop .iterate) = true ↔
      (∃ s ∈ w.sched.running, (w.sched.seqs s).isFinished = true) ∨
        ∃ s ∈ w.sched.waiting, s ∈ w'.loop.batch := by
  have hw := prefillInv_reachable h
  obtain ⟨hpc, hbatch, hne⟩ := tickStart_of_step htick hexec
  have hwork : w.sched.hasWork = true := by
    by_contra hno
    exact hne (Scheduler.schedule_of_no_work (by simpa using hno))
  have hsame : w.sched.schedule.2 = w.sched.running ↔ _ :=
    batch_eq_running_iff hw.world.fifo.waiting_live
  obtain ⟨admitted, hsplit, hsched, -⟩ := w.sched.schedule_spec
  have hprefill : w.prefills (.loop .iterate) = true ↔ w.sched.schedule.2 ≠ w.sched.running := by
    simp [World.prefills, hpc, hwork, hne, hw.members (Or.inl hpc)]
  have hjoined : (∃ s ∈ w.sched.waiting, s ∈ w'.loop.batch) ↔
      w.sched.schedule.1.waiting ≠ w.sched.waiting := by
    rw [hbatch]
    constructor
    · rintro ⟨s, hwait, hs⟩ hstay
      rw [hstay] at hsplit
      rw [hsched, List.self_eq_append_left.mp hsplit, List.append_nil] at hs
      -- nobody is in both deques
      have hnodup := (List.nodup_append.mp hw.world.fifo.nodup_queues).2.2
      exact hnodup s (List.mem_filter.mp hs).1 s hwait rfl
    · intro hmoved
      obtain ⟨s, hs⟩ : ∃ s, s ∈ admitted := by
        apply List.exists_mem_of_ne_nil
        rintro rfl
        exact hmoved hsplit.symm
      exact ⟨s, hsplit ▸ List.mem_append_left _ hs, hsched ▸ List.mem_append_right _ hs⟩
  rw [hprefill, hjoined, ne_eq, hsame, not_and_or]
  simp

/-- The tick after an arrival is a prefill. -/
theorem prefills_iff_late_join :
    let acts : List Act := [.add 0 ⟨[5], 3, 0, none, ∅⟩, .loop .iterate, .loop (.tickEnd [some 0]),
      .add 1 ⟨[5], 1, 0, none, ∅⟩]
    (runD (World.step mockRunner) (World.init 8 8192 ()) acts).prefills (.loop .iterate) = true := by
  intro acts
  have h := run_eq_runD (show
    (run (World.step mockRunner) (World.init 8 8192 ()) acts).isSome = true by decide)
  obtain ⟨w', htick⟩ : ∃ w', (runD (World.step mockRunner) (World.init 8 8192 ()) acts).step
      mockRunner (.loop .iterate) = some w' := ⟨_, rfl⟩
  have hexec : w'.loop.pc = .executing := by
    obtain rfl := Option.some.inj htick
    rfl
  refine (prefills_iff h htick hexec).mpr (Or.inr ⟨1, by decide, ?_⟩)
  obtain rfl := Option.some.inj htick
  decide

end NanoKube
