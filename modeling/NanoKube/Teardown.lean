import NanoKube.RunLoop

/-!
# What a dead loop leaves behind

`fail_all` is there so that a dead loop leaves no request blocked on `queue.get()`.
`run_loop` calls it from both `except` clauses around the call of the runner; the idle
sleep stands outside the `try`.

## Main definitions

* `Sequence.Announced` — a verdict comes with its sentinel.
* `NobodyWaits` — every arrival has its verdict and its sentinel, and no work is left.

## Main results

* `announced_step` — every event announces the verdicts it reaches.
* `nobodyWaits_iff` — the step that ends the task leaves nobody waiting, unless it is a
  cancellation of the idle sleep with work in the deques.
* `dead_loop_leaves_nobody_iff` — the same for whole runs.
-/

namespace NanoKube

namespace Sequence

variable {q : Sequence}

/-- A sequence with a verdict has its sentinel in the queue. -/
def Announced (q : Sequence) : Prop := q.isFinished = true → none ∈ q.queue

theorem announced_record (q : Sequence) (t : Token) : (q.record t).Announced := by
  intro hf
  rw [record_queue, if_pos hf]
  simp

theorem announced_abort (h : q.Announced) (r : FinishReason) : (q.abort r).Announced := by
  unfold abort
  split
  · exact h
  · intro _
    simp

theorem announced_fail (q : Sequence) : q.fail.Announced := by
  intro _
  simp [fail]

theorem announced_settle (h : q.Announced) : q.settle.Announced := by
  unfold settle
  split
  · intro _
    simp
  · exact h

end Sequence

variable {ρ : Type*} {R : ModelRunner ρ} {w w' : World ρ} {a : Act}

/-- Every arrival has its verdict and its sentinel, and the scheduler has no work. -/
def NobodyWaits (w : World ρ) : Prop :=
  (∀ s ∈ w.arrived, (w.sched.seqs s).finishReason ≠ none ∧ none ∈ (w.sched.seqs s).queue) ∧
    w.sched.hasWork = false

instance (w : World ρ) : Decidable (NobodyWaits w) := inferInstanceAs (Decidable (_ ∧ _))

/-- **Every verdict is announced**: no event sets a finish reason without the sentinel. -/
theorem announced_step (hw : WorldInv w) (hq : ∀ s ∈ w.arrived, (w.sched.seqs s).Announced)
    (h : w.step R a = some w') : ∀ s ∈ w'.arrived, (w'.sched.seqs s).Announced := by
  intro s hs
  by_cases hold : s ∈ w.arrived
  · have htouch := touch_of_step hw.fifo h hold
    generalize w'.sched.seqs s = q at htouch ⊢
    cases htouch with
    | same => exact hq s hold
    | record t hpc hrow => exact Sequence.announced_record _ _
    | abort r hr => exact Sequence.announced_abort (hq s hold) _
    | fail ha hpc hmem => exact Sequence.announced_fail _
  · obtain ⟨req, -, hseq⟩ := new_arrival hw.fifo h hold hs
    rw [hseq]
    apply Sequence.announced_settle
    intro hf
    cases hf

/-- With both deques empty every arrival has its verdict, and so its sentinel. -/
theorem nobodyWaits_of_no_work (hw : WorldInv w)
    (hq : ∀ s ∈ w.arrived, (w.sched.seqs s).Announced) (hwork : w.sched.hasWork = false) :
    NobodyWaits w := by
  obtain ⟨hwait, hrun⟩ := Scheduler.hasWork_eq_false.mp hwork
  refine ⟨?_, hwork⟩
  intro s hs
  have hf : (w.sched.seqs s).isFinished = true := by
    by_contra hlive
    rw [Bool.not_eq_true] at hlive
    -- an arrival without a verdict is in one of the deques
    have hmem := hw.fifo.complete s hs hlive
    simp [World.api, hwait, hrun] at hmem
  exact ⟨Sequence.isFinished_iff.mp hf, hq s hs hf⟩

/-- The event cancels the idle sleep of a loop that has work. -/
def CancelsWork (w : World ρ) : Act → Prop
  | .loop .cancel => w.loop.pc = .sleeping ∧ w.sched.hasWork = true
  | _ => False

instance (w : World ρ) : ∀ a, Decidable (CancelsWork w a)
  | .loop .cancel => inferInstanceAs (Decidable (_ ∧ _))
  | .add _ _ | .abort _ | .loop .iterate | .loop .wake | .loop (.tickEnd _) | .loop .raise =>
    isFalse id

/-- **The step that ends the task** leaves nobody waiting, unless it cancels the idle sleep while
there is work: `fail_all` is called from the `try` around the runner, and from nowhere else. -/
theorem nobodyWaits_iff (hw : WorldInv w) (hq : ∀ s ∈ w.arrived, (w.sched.seqs s).Announced)
    (h : w.step R a = some w') (hlive : w.loop.pc ≠ .done) (hdone : w'.loop.pc = .done) :
    NobodyWaits w' ↔ ¬ CancelsWork w a := by
  have hw' := hw.step h
  have hq' := announced_step hw hq h
  cases fires_of_step h with
  | add hnew => exact absurd hdone hlive
  | abort hold => exact absurd hdone hlive
  | drain hpc hwork hbatch => exact absurd hdone hlive
  | raise hpc =>
    refine iff_of_true ?_ id
    apply nobodyWaits_of_no_work hw' hq'
    simp [Scheduler.hasWork]
  | cancelTick hpc =>
    refine iff_of_true ?_ ?_
    · apply nobodyWaits_of_no_work hw' hq'
      simp [Scheduler.hasWork]
    · rintro ⟨hsleep, -⟩
      rw [hpc] at hsleep
      cases hsleep
  | cancelSleep hpc =>
    constructor
    · rintro ⟨-, hno⟩ ⟨-, hwork⟩
      have hsame : w.sched.hasWork = false := hno
      rw [hwork] at hsame
      cases hsame
    · intro hno
      apply nobodyWaits_of_no_work hw' hq'
      cases hwork : w.sched.hasWork with
      | false => rfl
      | true => exact absurd ⟨hpc, hwork⟩ hno
  | _ => cases hdone

/-- When the event ends the task, it leaves nobody waiting. -/
def LeavesNobody (R : ModelRunner ρ) (w : World ρ) (a : Act) : Prop :=
  ∀ w' ∈ w.step R a, w.loop.pc ≠ .done → w'.loop.pc = .done → NobodyWaits w'

/-- **A dead loop leaves no request waiting, exactly when its idle sleep is not cancelled with
work in the deques.**  Whatever ends the task in a run, every sequence added before has its
verdict and its sentinel and no work is left, if and only if no event of the run cancels the
idle sleep while the scheduler has work. -/
theorem dead_loop_leaves_nobody_iff {m t : ℤ} {r : ρ} {acts : List Act}
    (h : run (World.step R) (World.init m t r) acts = some w) :
    Along (World.step R) (LeavesNobody R) (World.init m t r) acts ↔
      Along (World.step R) (fun u a => ¬ CancelsWork u a) (World.init m t r) acts := by
  refine along_congr (fun u => WorldInv u ∧ ∀ s ∈ u.arrived, (u.sched.seqs s).Announced)
    (fun hu hs => ⟨hu.1.step hs, announced_step hu.1 hu.2 hs⟩) ?_
    ⟨WorldInv.init m t r, by intro s hs; cases hs⟩ h
  rintro u a u' ⟨hu, hq⟩ hstep
  constructor
  · intro hleaves hcancel
    cases fires_of_step hstep with
    | cancelSleep hpc =>
      have hlive : u.loop.pc ≠ .done := by simp [hpc]
      exact (nobodyWaits_iff hu hq hstep hlive rfl).mp (hleaves _ hstep hlive rfl) hcancel
    | cancelTick hpc =>
      have hsleep := hcancel.1
      rw [hpc] at hsleep
      cases hsleep
    | _ => exact hcancel
  · intro hno v hv hlive hdone
    exact (nobodyWaits_iff hu hq hv hlive hdone).mpr hno

/-- The runner raises while one request runs and another waits: both are told. -/
theorem dead_loop_leaves_nobody_raise :
    Along (World.step mockRunner) (LeavesNobody mockRunner) (World.init 1 8192 ())
      [.add 0 ⟨[104], 4, 0, none, ∅⟩, .loop .iterate, .add 1 ⟨[105], 4, 0, none, ∅⟩,
        .loop .raise] := by
  have h := run_eq_runD (show (run (World.step mockRunner) (World.init 1 8192 ())
    [.add 0 ⟨[104], 4, 0, none, ∅⟩, .loop .iterate, .add 1 ⟨[105], 4, 0, none, ∅⟩,
      .loop .raise]).isSome = true by decide)
  exact (dead_loop_leaves_nobody_iff h).mpr (by decide)

/-- A request arrives during the idle sleep and the task is cancelled there: the request has no
verdict and no sentinel, and stays in `waiting`. -/
theorem dead_loop_leaves_a_request : ∃ w,
    run (World.step mockRunner) (World.init 8 8192 ())
      [.loop .iterate, .add 0 ⟨[104], 4, 0, none, ∅⟩, .loop .cancel] = some w ∧
    w.loop.pc = .done ∧ (w.sched.seqs 0).finishReason = none ∧ (w.sched.seqs 0).queue = [] ∧
    w.sched.hasWork = true ∧ ¬ NobodyWaits w := by
  have h := run_eq_runD (show (run (World.step mockRunner) (World.init 8 8192 ())
    [.loop .iterate, .add 0 ⟨[104], 4, 0, none, ∅⟩, .loop .cancel]).isSome = true by decide)
  exact ⟨_, h, rfl, by decide, by decide, by decide, by decide⟩

end NanoKube
