import NanoKube.Fifo

/-!
# Greedy admission

One call of `schedule` on any scheduler, whatever its deques hold.  The loop admits the
head of `waiting` as long as it fits and stops at the first one that does not, so what it
leaves behind does not fit, and a second call finds nothing more to admit.  A second call
does sweep again: a finished sequence that was admitted from `waiting` goes.

## Main definitions

* `Scheduler.total` — the tokens of some sequences.
* `Scheduler.Blocked` — the head of a queue does not fit.

## Main results

* `fits_admitLoop`, `blocked_admitLoop` — nothing is admitted past the limits, and nothing
  that fits is left.
* `fits_schedule` — a batch that was admitted into keeps to the limits.
* `schedule_is_greedy` — what one call does, and when a second one changes nothing.
* `Fifo.schedule_schedule` — it never does in a state the methods reach.
-/

namespace NanoKube

namespace Scheduler

variable {σ : Scheduler}

/-- `sum(len(s) for s in l)`. -/
def total (σ : Scheduler) (l : List SeqId) : ℕ := (l.map fun s => (σ.seqs s).len).sum

@[simp] theorem total_nil (σ : Scheduler) : σ.total [] = 0 := rfl

theorem total_append (σ : Scheduler) (l₁ l₂ : List SeqId) :
    σ.total (l₁ ++ l₂) = σ.total l₁ + σ.total l₂ := by
  simp [total]

@[simp] theorem total_singleton (σ : Scheduler) (s : SeqId) : σ.total [s] = (σ.seqs s).len := by
  simp [total]

/-- A batch that was admitted into: it keeps to the batch size, and to the token budget unless
it is a single row. -/
def Fits (σ : Scheduler) (running : List SeqId) : Prop :=
  (running.length : ℤ) ≤ σ.maxBatchSize ∧
    (running.length = 1 ∨ (σ.total running : ℤ) ≤ σ.maxBatchTokens)

/-- The next candidate does not fit: there is no slot, or not the tokens. -/
def Blocked (σ : Scheduler) (running : List SeqId) (candidate : SeqId) : Prop :=
  σ.maxBatchSize < (running.length : ℤ) + 1 ∨
    (running ≠ [] ∧ σ.maxBatchTokens < ((σ.total running + (σ.seqs candidate).len : ℕ) : ℤ))

instance (σ : Scheduler) (running : List SeqId) (candidate : SeqId) :
    Decidable (σ.Blocked running candidate) := by unfold Blocked; infer_instance

theorem admitLoop_cons (σ : Scheduler) (running rest : List SeqId) (candidate : SeqId) :
    σ.admitLoop running (candidate :: rest) =
      if σ.Blocked running candidate then (running, candidate :: rest)
      else σ.admitLoop (running ++ [candidate]) rest := by
  rw [admitLoop]
  by_cases hsize : σ.maxBatchSize < (running.length : ℤ) + 1
  · simp [Blocked, hsize]
  · simp only [Blocked, hsize, if_false, false_or, total]

/-- A candidate that is not blocked makes a batch that fits. -/
theorem fits_of_not_blocked {running : List SeqId} {candidate : SeqId}
    (h : ¬ σ.Blocked running candidate) : σ.Fits (running ++ [candidate]) := by
  rw [Blocked, not_or, not_and, not_lt, not_lt] at h
  obtain ⟨hsize, htokens⟩ := h
  refine ⟨?_, ?_⟩
  · rw [List.length_append, List.length_singleton]
    exact_mod_cast hsize
  · by_cases hnil : running = []
    · exact Or.inl (by rw [hnil]; rfl)
    · apply Or.inr
      rw [total_append, total_singleton]
      exact htokens hnil

/-- **Nothing is admitted past the limits.** -/
theorem fits_admitLoop (σ : Scheduler) : ∀ waiting running : List SeqId,
    (σ.admitLoop running waiting).1 = running ∨ σ.Fits (σ.admitLoop running waiting).1 := by
  intro waiting
  induction waiting with
  | nil => intro running; exact Or.inl rfl
  | cons c rest ih =>
    intro running
    rw [admitLoop_cons]
    split
    · exact Or.inl rfl
    · next hfree =>
      rcases ih (running ++ [c]) with hsame | hfits
      · rw [hsame]
        exact Or.inr (fits_of_not_blocked hfree)
      · exact Or.inr hfits

/-- **Nothing that fits is left.** -/
theorem blocked_admitLoop (σ : Scheduler) : ∀ waiting running : List SeqId,
    ∀ head ∈ (σ.admitLoop running waiting).2.head?,
      σ.Blocked (σ.admitLoop running waiting).1 head := by
  intro waiting
  induction waiting with
  | nil => intro running head hhead; simp [admitLoop] at hhead
  | cons c rest ih =>
    intro running
    rw [admitLoop_cons]
    split
    · next hblocked =>
      intro head hhead
      obtain rfl : c = head := by simpa using hhead
      exact hblocked
    · exact ih (running ++ [c])

/-- With its head blocked, the queue is left as it is. -/
theorem admitLoop_of_blocked {running waiting : List SeqId}
    (h : ∀ head ∈ waiting.head?, σ.Blocked running head) :
    σ.admitLoop running waiting = (running, waiting) := by
  cases waiting with
  | nil => rfl
  | cons c rest =>
    rw [admitLoop_cons, if_pos]
    exact h c rfl

/-- A batch that was admitted into fits. -/
theorem fits_schedule {admitted : List SeqId}
    (hbatch : σ.schedule.2 = σ.unfinishedRunning ++ admitted) (hadm : admitted ≠ []) :
    σ.Fits σ.schedule.2 := by
  rcases σ.fits_admitLoop σ.waiting σ.unfinishedRunning with hsame | hfits
  · have hself : σ.unfinishedRunning = σ.unfinishedRunning ++ admitted := hsame.symm.trans hbatch
    exact absurd (List.self_eq_append_right.mp hself) hadm
  · exact hfits

/-! ### A second call -/

/-- What a second call sweeps. -/
theorem unfinishedRunning_schedule (σ : Scheduler) :
    σ.schedule.1.unfinishedRunning = σ.schedule.2.filter fun s => !(σ.seqs s).isFinished := rfl

/-- If the batch has no finished member, a second call finds nothing to do. -/
theorem schedule_schedule (h : ∀ s ∈ σ.schedule.2, (σ.seqs s).isFinished = false) :
    σ.schedule.1.schedule = σ.schedule := by
  have hsweep : σ.schedule.1.unfinishedRunning = σ.schedule.2 := by
    rw [unfinishedRunning_schedule, List.filter_eq_self]
    intro s hs
    simp [h s hs]
  have hloop : σ.schedule.1.admitLoop σ.schedule.2 σ.schedule.1.waiting
      = (σ.schedule.2, σ.schedule.1.waiting) :=
    admitLoop_of_blocked (σ.blocked_admitLoop σ.waiting σ.unfinishedRunning)
  rw [schedule, hsweep, hloop]
  rfl

/-- A second call that changes nothing swept nothing. -/
theorem unfinished_of_schedule_schedule (h : σ.schedule.1.schedule = σ.schedule) :
    ∀ s ∈ σ.schedule.2, (σ.seqs s).isFinished = false := by
  obtain ⟨admitted, hwait, hbatch, -⟩ := σ.schedule.1.schedule_spec
  rw [h] at hwait hbatch
  have hnil : admitted = [] := by simpa using hwait
  rw [hnil, List.append_nil, unfinishedRunning_schedule] at hbatch
  intro s hs
  rw [hbatch] at hs
  simpa using (List.mem_filter.mp hs).2

/-- **`schedule` is the greedy admission in arrival order**, on any scheduler.  The batch is the
unfinished members of `running`, then a beginning of `waiting`, whose rest stays; nothing
else changes.  If any sequence was admitted, the batch keeps to the batch size, and it is one
row or keeps to the token budget.  If any is left, the first one does not fit.  A second call
returns the same and changes nothing, exactly when no admitted sequence is finished. -/
theorem schedule_is_greedy (σ : Scheduler) : ∃ admitted,
    σ.waiting = admitted ++ σ.schedule.1.waiting ∧
    σ.schedule.2 = σ.unfinishedRunning ++ admitted ∧
    σ.schedule.1 = { σ with running := σ.schedule.2, waiting := σ.schedule.1.waiting } ∧
    (admitted ≠ [] → (σ.schedule.2.length : ℤ) ≤ σ.maxBatchSize ∧
      (σ.schedule.2.length = 1 ∨ (σ.total σ.schedule.2 : ℤ) ≤ σ.maxBatchTokens)) ∧
    (∀ head ∈ σ.schedule.1.waiting.head?,
      σ.maxBatchSize < (σ.schedule.2.length : ℤ) + 1 ∨
        (σ.schedule.2 ≠ [] ∧
          σ.maxBatchTokens < ((σ.total σ.schedule.2 + (σ.seqs head).len : ℕ) : ℤ))) ∧
    (σ.schedule.1.schedule = σ.schedule ↔ ∀ s ∈ admitted, (σ.seqs s).isFinished = false) := by
  obtain ⟨admitted, hwait, hbatch, hrest⟩ := σ.schedule_spec
  refine ⟨admitted, hwait, hbatch, hrest, fits_schedule hbatch, σ.blocked_admitLoop _ _, ?_⟩
  constructor
  · intro hagain s hs
    apply unfinished_of_schedule_schedule hagain
    rw [hbatch]
    exact List.mem_append_right _ hs
  · intro hadm
    apply schedule_schedule
    intro s hs
    rw [hbatch] at hs
    rcases List.mem_append.mp hs with hs | hs
    · simpa using (List.mem_filter.mp hs).2
    · exact hadm s hs

/-- A finished sequence in `waiting`: the first call returns it, the second does not. -/
theorem schedule_twice_differs :
    let σ : Scheduler := { Scheduler.init 8 8192 with
      seqs := fun _ => { promptIds := [1], maxNewTokens := 4, finishReason := some .stop }
      waiting := [0] }
    σ.schedule.2 = [0] ∧ σ.schedule.1.schedule.2 = [] := by
  decide

end Scheduler

/-- In a state that the methods reach, a second call changes nothing. -/
theorem Fifo.schedule_schedule {x : Api} (h : Fifo x) :
    x.sched.schedule.1.schedule = x.sched.schedule :=
  Scheduler.schedule_schedule fun _ hs => Scheduler.isFinished_of_mem_schedule h.waiting_live hs

end NanoKube
