import NanoKube.RunLoop

/-!
# What a runner remembers of its rows

A runner that keeps something of each row between two calls relies on the loop: when the
batch is the one of the tick before, every row has grown by one token since.  What is
kept is a parameter, a relation between the runner's state, the rows of its last call and
the tokens those rows had then.

## Main definitions

* `Remembers` — one call re-establishes the relation.
* `MemoryInv` — the relation along the loop.

## Main results

* `MemoryInv.step` — every event keeps what the runner remembers in step with the loop.
-/

namespace NanoKube

variable {ρ : Type*} {R : ModelRunner ρ} {P : ρ → List SeqId → (SeqId → List Token) → Prop}
  {w w' : World ρ} {a : Act}

/-- `P r members seen`: the state `r` knows that its last call had the rows `members`, with the
tokens `seen`.  A call leads to such a state, from any state if it is a prefill, and from one that
knows all but the newest token of each row otherwise. -/
structure Remembers (R : ModelRunner ρ) (P : ρ → List SeqId → (SeqId → List Token) → Prop) :
    Prop where
  congr : ∀ {r members seen seen'}, P r members seen → (∀ s ∈ members, seen' s = seen s) →
    P r members seen'
  execute : ∀ {r : ρ} {members batch : List SeqId} {heap : SeqId → Sequence},
    (batch = members → ∃ seen, P r members seen ∧
      ∀ s ∈ members, ∃ token, (heap s).tokenIds = seen s ++ [token]) →
    P (R.execute r heap ⟨batch, decide (batch ≠ members)⟩) batch fun s => (heap s).tokenIds

/-- The runner remembers the rows of the last tick, if there was one since the last reset; all of
them have grown by a token since, except for those that are finished. -/
def RemembersLast (P : ρ → List SeqId → (SeqId → List Token) → Prop) (w : World ρ) : Prop :=
  w.loop.members ≠ [] → ∃ seen, P w.loop.runner w.loop.members seen ∧
    ∀ s ∈ w.loop.members, (w.sched.seqs s).isFinished = false →
      ∃ token, (w.sched.seqs s).tokenIds = seen s ++ [token]

/-- What the runner remembers, along the loop. -/
structure MemoryInv (P : ρ → List SeqId → (SeqId → List Token) → Prop) (w : World ρ) : Prop where
  fifo : Fifo w.api
  arrived : ∀ s ∈ w.loop.members, s ∈ w.arrived
  /-- During a tick it is every token of the batch. -/
  executing : w.loop.pc = .executing →
    P w.loop.runner w.loop.batch fun s => (w.sched.seqs s).tokenIds
  between : w.loop.pc = .top ∨ w.loop.pc = .sleeping → RemembersLast P w

theorem MemoryInv.init (P : ρ → List SeqId → (SeqId → List Token) → Prop) (m t : ℤ) (r : ρ) :
    MemoryInv P (World.init m t r) where
  fifo := Fifo.init m t
  arrived := by intro s hs; cases hs
  executing := by intro h; cases h
  between := by intro _ h; exact absurd rfl h

/-- The tokens of an arrival only change at the end of a tick. -/
theorem tokenIds_step (hx : Fifo w.api) (h : w.step R a = some w') {s : SeqId}
    (hs : s ∈ w.arrived) (ha : ∀ nextIds, a ≠ .loop (.tickEnd nextIds)) :
    (w'.sched.seqs s).tokenIds = (w.sched.seqs s).tokenIds := by
  rw [Sequence.tokenIds, Sequence.tokenIds, toRequest_step hx h hs, outputIds_step hx h hs ha]

/-- An event that is no part of a tick leaves the memory of the last one alone. -/
theorem MemoryInv.between_frame (hw : MemoryInv P w) (h : w.step R a = some w')
    (ha : ∀ nextIds, a ≠ .loop (.tickEnd nextIds)) (hmem : w'.loop.members = w.loop.members)
    (hrunner : w'.loop.runner = w.loop.runner) (hb : RemembersLast P w) : RemembersLast P w' := by
  intro hne
  rw [hmem] at hne ⊢
  obtain ⟨seen, hP, hseen⟩ := hb hne
  rw [hrunner]
  refine ⟨seen, hP, ?_⟩
  intro s hs hlive
  have harr := hw.arrived s hs
  rw [tokenIds_step hw.fifo h harr ha]
  apply hseen s hs
  -- it cannot have been finished before
  by_contra hf
  rw [Bool.not_eq_false] at hf
  rw [isFinished_step hw.fifo h harr hf] at hlive
  cases hlive

/-- Nor does it change the tokens of a batch in flight. -/
theorem MemoryInv.executing_frame (hR : Remembers R P) (hw : MemoryInv P w)
    (h : w.step R a = some w') (ha : ∀ nextIds, a ≠ .loop (.tickEnd nextIds))
    (hbatch : w'.loop.batch = w.loop.batch) (hrunner : w'.loop.runner = w.loop.runner)
    (hpc : w.loop.pc = .executing) :
    P w'.loop.runner w'.loop.batch fun s => (w'.sched.seqs s).tokenIds := by
  rw [hbatch, hrunner]
  exact hR.congr (hw.executing hpc) fun s hs =>
    tokenIds_step hw.fifo h (hw.fifo.batch_sublist.subset hs) ha

/-- **A tick begins with what the next call relies on.** -/
theorem MemoryInv.grown (hw : MemoryInv P w) (hpc : w.loop.pc = .top)
    (hbatch : w.sched.schedule.2 ≠ []) (hsame : w.sched.schedule.2 = w.loop.members) :
    ∃ seen, P w.loop.runner w.loop.members seen ∧
      ∀ s ∈ w.loop.members, ∃ token, (w.sched.seqs s).tokenIds = seen s ++ [token] := by
  obtain ⟨seen, hP, hseen⟩ := hw.between (Or.inl hpc) (hsame ▸ hbatch)
  refine ⟨seen, hP, ?_⟩
  intro s hs
  -- the batch holds no finished sequence
  exact hseen s hs (Scheduler.isFinished_of_mem_schedule hw.fifo.waiting_live (hsame ▸ hs))

/-- After a tick every row that goes on has grown by one token. -/
theorem MemoryInv.between_tickEnd (hw : MemoryInv P w) {nextIds : List (Option Token)}
    (hpc : w.loop.pc = .executing) (hlen : nextIds.length = w.loop.batch.length)
    (hmem : w'.loop.members = w.loop.batch) (hrunner : w'.loop.runner = w.loop.runner)
    (hsched : w'.sched = w.sched.tickEnd w.loop.batch nextIds) : RemembersLast P w' := by
  intro _
  rw [hmem, hrunner]
  refine ⟨_, hw.executing hpc, ?_⟩
  intro s hs hlive
  rw [hsched] at hlive ⊢
  rcases row_tickEnd hw.fifo hlen hs with ⟨token, htoken⟩ | hfailed
  · exact ⟨token, by rw [htoken]; simp [Sequence.tokenIds]⟩
  · rw [hfailed, Sequence.abort_isFinished] at hlive
    cases hlive

/-- **Every event keeps what the runner remembers in step with the loop.** -/
theorem MemoryInv.step (hR : Remembers R P) (hw : MemoryInv P w) (ha : OneResultPerRow w a)
    (h : w.step R a = some w') : MemoryInv P w' := by
  have hfifo : Fifo w'.api :=
    run_invariant Fifo (fun hx hs => Fifo.step hx hs) hw.fifo (step_ops hw.fifo h)
  have harr : ∀ s ∈ w.loop.members, s ∈ w'.arrived := fun s hs =>
    arrived_subset_of_step h (hw.arrived s hs)
  cases fires_of_step h with
  | add | abort =>
    exact ⟨hfifo, harr, fun hpc => hw.executing_frame hR h (by simp) rfl rfl hpc,
      fun hpc => hw.between_frame h (by simp) rfl rfl (hw.between hpc)⟩
  | doze hpc hwork =>
    exact ⟨hfifo, harr, (by intro h; cases h),
      fun _ => hw.between_frame h (by simp) rfl rfl (hw.between (Or.inl hpc))⟩
  | drain hpc hwork hbatch =>
    refine ⟨hfifo, ?_, ?_, ?_⟩
    · intro s hs; cases hs
    · intro hpc'; rw [hpc] at hpc'; cases hpc'
    · intro _ hne; exact absurd rfl hne
  | tickStart hpc hwork hbatch =>
    refine ⟨hfifo, harr, ?_, ?_⟩
    · intro _
      exact hR.execute (hw.grown hpc hbatch)
    · intro hpc'; simp at hpc'
  | wake hpc =>
    exact ⟨hfifo, harr, (by intro h; cases h),
      fun _ => hw.between_frame h (by simp) rfl rfl (hw.between (Or.inr hpc))⟩
  | @tickEnd nextIds hpc =>
    refine ⟨hfifo, ?_, (by intro h; cases h), ?_⟩
    · intro s hs
      exact hw.fifo.batch_sublist.subset hs
    · intro _
      exact hw.between_tickEnd hpc ha rfl rfl rfl
  | raise | cancelSleep | cancelTick =>
    exact ⟨hfifo, harr, (by intro h; cases h), (by intro h; simp at h)⟩

/-- Nor does a teardown change a token, whoever makes it. -/
theorem MemoryInv.failAll (hR : Remembers R P) (hw : MemoryInv P w) :
    MemoryInv P { w with sched := w.sched.failAll.1 } := by
  have hseq : ∀ s, w.sched.failAll.1.seqs s = _ := Scheduler.failAll_seqs hw.fifo.nodup_queues
  have htokens : ∀ s, (w.sched.failAll.1.seqs s).tokenIds = (w.sched.seqs s).tokenIds := by
    intro s
    rw [hseq s]
    split
    · rw [Sequence.tokenIds, Sequence.tokenIds, Sequence.fail_outputIds, Sequence.fail_toRequest]
    · rfl
  refine ⟨hw.fifo.failAll, hw.arrived, ?_, ?_⟩
  · intro hpc
    exact hR.congr (hw.executing hpc) fun s _ => htokens s
  · intro hpc hne
    obtain ⟨seen, hP, hseen⟩ := hw.between hpc hne
    refine ⟨seen, hP, ?_⟩
    intro s hs hlive
    dsimp only at hlive ⊢
    rw [htokens s]
    apply hseen s hs
    -- a teardown takes no verdict back
    rw [hseq s] at hlive
    split at hlive
    · rw [Sequence.fail_isFinished] at hlive
      cases hlive
    · exact hlive

end NanoKube
