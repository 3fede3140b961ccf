import NanoKube.RunLoop

/-!
# The end of a stream, and the verdict behind it

A reader of a queue trusts two things: nothing comes after the sentinel, and the
finish reason it finds then is final.  `abort` and `fail_all` look at
`is_finished` before they write a verdict; `postprocess` does not, and `fail_all`
emits a sentinel whether or not one was emitted before.  Both are harmless as long
as no sequence of the batch finishes while the runner executes — and a client that
disconnects during a tick is exactly that.

## Main definitions

* `CleanFor s` — the step does not emit anything for `s` once `s` has finished.
* `NoLateToken` — the step records no token for a sequence that has finished.

## Main results

* `eos_final_iff` — every queue obeys `Sequence.EosFinal` exactly in the runs all
  of whose steps are clean.
* `verdicts_kept_iff` — verdicts and outputs are final exactly in the runs without
  a late token.
* `cleanFor_of_inflight` — a sequence whose client stays is never spoiled.
-/

namespace NanoKube

open Scheduler (lookup_eq_some_iff map_fst_zip_sublist)

variable {ρ : Type*} {R : ModelRunner ρ} {w w' : World ρ} {a : Act} {s : SeqId}

/-- The step emits nothing for `s` if `s` has finished: the end of a tick brings it no
token, and `fail_all` does not find it in `running`. -/
def CleanFor (s : SeqId) (w : World ρ) : Act → Prop
  | .loop (.tickEnd nextIds) =>
    ∀ row ∈ w.loop.batch.zip nextIds, row.1 = s → row.2.isSome = true →
      (w.sched.seqs s).isFinished = false
  | .loop .raise => s ∈ w.sched.running → (w.sched.seqs s).isFinished = false
  | .loop .cancel =>
    w.loop.pc = .executing → s ∈ w.sched.running → (w.sched.seqs s).isFinished = false
  | _ => True

instance (s : SeqId) (w : World ρ) : ∀ a, Decidable (CleanFor s w a)
  | .add _ _ | .abort _ | .loop .iterate | .loop .wake => isTrue trivial
  | .loop (.tickEnd _) | .loop .raise | .loop .cancel => by unfold CleanFor; infer_instance

/-- The step is clean for every sequence. -/
def Clean (w : World ρ) (a : Act) : Prop := ∀ s ∈ w.arrived, CleanFor s w a

instance (w : World ρ) (a : Act) : Decidable (Clean w a) := by unfold Clean; infer_instance

/-- The step records no token for a sequence that has finished. -/
def NoLateToken (w : World ρ) : Act → Prop
  | .loop (.tickEnd nextIds) =>
    ∀ row ∈ w.loop.batch.zip nextIds, row.2.isSome = true →
      (w.sched.seqs row.1).isFinished = false
  | _ => True

instance (w : World ρ) : ∀ a, Decidable (NoLateToken w a)
  | .add _ _ | .abort _ | .loop .iterate | .loop .wake => isTrue trivial
  | .loop .raise | .loop .cancel => isTrue trivial
  | .loop (.tickEnd _) => by unfold NoLateToken; infer_instance

/-! ### One step -/

theorem WorldInv.nodup_rows (hw : WorldInv w) (nextIds : List (Option Token)) :
    ((w.loop.batch.zip nextIds).map Prod.fst).Nodup :=
  (map_fst_zip_sublist w.loop.batch nextIds).nodup hw.fifo.nodup_batch

/-- The queue of an arrival only grows. -/
theorem queue_prefix_step (hw : WorldInv w) (h : w.step R a = some w') (hs : s ∈ w.arrived) :
    (w.sched.seqs s).queue <+: (w'.sched.seqs s).queue := by
  have htouch := touch_of_step hw.fifo h hs
  generalize w'.sched.seqs s = q at htouch ⊢
  cases htouch with
  | same => exact List.prefix_refl _
  | record t hpc hrow => exact Sequence.queue_prefix_record ..
  | abort r hr => exact Sequence.queue_prefix_abort ..
  | fail ha hpc hmem => exact Sequence.queue_prefix_fail _

/-- **A step that is clean for a sequence keeps the law of its queue.** -/
theorem eosFinal_step (hw : WorldInv w) (h : w.step R a = some w') (hs : s ∈ w.arrived)
    (hc : CleanFor s w a) (hq : (w.sched.seqs s).EosFinal) : (w'.sched.seqs s).EosFinal := by
  have htouch := touch_of_step hw.fifo h hs
  generalize w'.sched.seqs s = q at htouch ⊢
  cases htouch with
  | same => exact hq
  | record t hpc hrow => exact hq.record (hc _ hrow rfl rfl) t
  | abort r hr => exact hq.abort r
  | fail ha hpc hmem =>
    apply hq.fail
    rcases List.mem_append.mp hmem with hrun | hwait
    · rcases ha with rfl | rfl
      · exact hc hrun
      · exact hc hpc hrun
    · -- `waiting` holds only unfinished sequences
      exact hw.fifo.waiting_live s hwait

/-- **A step that is not clean for a law-abiding sequence spoils it.** -/
theorem spoiled_step (hw : WorldInv w) (h : w.step R a = some w') (hc : ¬ CleanFor s w a)
    (hq : (w.sched.seqs s).EosFinal) : (w'.sched.seqs s).Spoiled := by
  rw [step_seqs hw h]
  cases fires_of_step h with
  | @tickEnd nextIds hpc =>
    simp only [CleanFor, not_forall, Bool.not_eq_false] at hc
    obtain ⟨⟨s', o⟩, hmem, rfl, ho, hf⟩ := hc
    obtain ⟨t, rfl⟩ := Option.isSome_iff_exists.mp ho
    have hrow := (lookup_eq_some_iff (hw.nodup_rows nextIds)).mpr hmem
    simp only [World.seqAfter, hrow]
    exact hq.spoiled_append hf (Sequence.record_queue ..)
  | raise hpc =>
    simp only [CleanFor, not_forall, Bool.not_eq_false] at hc
    obtain ⟨hmem, hf⟩ := hc
    have hmem' : s ∈ w.sched.running ++ w.sched.waiting := List.mem_append_left _ hmem
    simp only [World.seqAfter, if_pos hmem', Sequence.fail_of_isFinished hf]
    exact hq.spoiled_append hf (Sequence.emit_queue ..)
  | cancelTick hpc =>
    simp only [CleanFor, not_forall, Bool.not_eq_false] at hc
    obtain ⟨-, hmem, hf⟩ := hc
    have hmem' : s ∈ w.sched.running ++ w.sched.waiting := List.mem_append_left _ hmem
    simp only [World.seqAfter, hpc, hmem', and_self, if_true, Sequence.fail_of_isFinished hf]
    exact hq.spoiled_append hf (Sequence.emit_queue ..)
  | cancelSleep hpc => simp [CleanFor, hpc] at hc
  | _ => exact absurd trivial hc

/-! ### Every run -/

section Runs

variable {m t : ℤ} {r : ρ} {acts : List Act}

/-- **End-of-stream is final, exactly in the clean runs.**  The queue of every sequence holds
tokens and then one sentinel, present exactly when the sequence has a finish reason, if and
only if no step emitted anything for a finished sequence. -/
theorem eos_final_iff (h : run (World.step R) (World.init m t r) acts = some w) :
    (∀ s ∈ w.arrived, (w.sched.seqs s).EosFinal) ↔
      Along (World.step R) Clean (World.init m t r) acts := by
  have key := run_good_or_bad Clean
    (fun w => WorldInv w ∧ ∀ s ∈ w.arrived, (w.sched.seqs s).EosFinal)
    (fun w => WorldInv w ∧ ∃ s ∈ w.arrived, (w.sched.seqs s).Spoiled)
    ?_ ?_ ?_ ⟨WorldInv.init m t r, by intro s hs; cases hs⟩ h
  · rcases key with ⟨⟨-, hg⟩, hal⟩ | ⟨⟨-, s, hs, hb⟩, hal⟩
    · exact iff_of_true hg hal
    · exact iff_of_false (fun hall => Sequence.not_eosFinal_of_spoiled hb (hall s hs)) hal
  · -- a clean step keeps the law, for the old arrivals and for a new one
    rintro w a w' ⟨hw, hq⟩ hc hstep
    refine ⟨hw.step hstep, ?_⟩
    intro s hs
    by_cases hold : s ∈ w.arrived
    · exact eosFinal_step hw hstep hold (hc s hold) (hq s hold)
    · obtain ⟨req, -, hseq⟩ := new_arrival hw.fifo hstep hold hs
      rw [hseq]
      exact Sequence.EosFinal.settle ⟨[], rfl⟩ rfl
  · -- the first step that is not clean spoils some sequence
    rintro w a w' ⟨hw, hq⟩ hc hstep
    simp only [Clean, not_forall] at hc
    obtain ⟨s, hs, hc⟩ := hc
    exact ⟨hw.step hstep, s, arrived_subset_of_step hstep hs, spoiled_step hw hstep hc (hq s hs)⟩
  · -- and what is spoiled stays so
    rintro w a w' ⟨hw, s, hs, hb⟩ hstep
    exact ⟨hw.step hstep, s, arrived_subset_of_step hstep hs,
      hb.of_prefix (queue_prefix_step hw hstep hs)⟩

/-- A request that runs to its budget obeys the law. -/
theorem eos_final_iff_to_budget : ∃ w,
    run (World.step mockRunner) (World.init 8 8192 ())
      [.add 0 ⟨[104], 1, 0, none, ∅⟩, .loop .iterate, .loop (.tickEnd [some 0])] = some w ∧
    ∀ s ∈ w.arrived, (w.sched.seqs s).EosFinal := by
  have h := run_eq_runD (show (run (World.step mockRunner) (World.init 8 8192 ())
    [.add 0 ⟨[104], 1, 0, none, ∅⟩, .loop .iterate, .loop (.tickEnd [some 0])]).isSome = true
    by decide)
  exact ⟨_, h, (eos_final_iff h).mpr (by decide)⟩

/-- A client that disconnects while the runner executes: the tick still delivers its token,
after the sentinel, and a second sentinel after that. -/
theorem eos_not_final_after_disconnect : ∃ w,
    run (World.step mockRunner) (World.init 8 8192 ())
      [.add 0 ⟨[104], 4, 0, none, ∅⟩, .loop .iterate, .abort 0,
        .loop (.tickEnd [some 0])] = some w ∧
    (w.sched.seqs 0).queue = [none, some 0, none] ∧
    ¬ ∀ s ∈ w.arrived, (w.sched.seqs s).EosFinal := by
  have h := run_eq_runD (show (run (World.step mockRunner) (World.init 8 8192 ())
    [.add 0 ⟨[104], 4, 0, none, ∅⟩, .loop .iterate, .abort 0,
      .loop (.tickEnd [some 0])]).isSome = true by decide)
  refine ⟨_, h, by decide, ?_⟩
  intro hall
  exact Sequence.not_eosFinal_of_spoiled ⟨[], some 0, [none], by decide⟩ (hall 0 (by decide))

/-! ### A client that stays -/

/-- A batch member that no client aborts is unfinished while the runner executes. -/
theorem unfinished_in_batch_step (hw : WorldInv w) (h : w.step R a = some w') (ha : a ≠ .abort s)
    (hs : w.loop.pc = .executing → s ∈ w.loop.batch → (w.sched.seqs s).isFinished = false) :
    w'.loop.pc = .executing → s ∈ w'.loop.batch → (w'.sched.seqs s).isFinished = false := by
  intro hpc' hmem
  rw [step_seqs hw h]
  cases fires_of_step h with
  | @add seq req hnew =>
    have hne : s ≠ seq := fun he => hnew (he ▸ hw.fifo.batch_sublist.subset hmem)
    simpa [World.seqAfter, hne] using hs hpc' hmem
  | @abort seq hold =>
    have hne : s ≠ seq := fun he => ha (by rw [he])
    simpa [World.seqAfter, hne] using hs hpc' hmem
  | tickStart hpc hwork hbatch =>
    exact Scheduler.isFinished_of_mem_schedule hw.fifo.waiting_live hmem
  | drain hpc hwork hbatch => rw [hpc] at hpc'; cases hpc'
  | _ => cases hpc'

/-- **While the client of a sequence stays, every step is clean for it**, whatever other clients
do. -/
theorem cleanFor_of_inflight (hw : WorldInv w) (h : w.step R a = some w')
    (hs : w.loop.pc = .executing → s ∈ w.loop.batch → (w.sched.seqs s).isFinished = false) :
    CleanFor s w a := by
  cases fires_of_step h with
  | @tickEnd nextIds hpc =>
    intro row hrow hrs _
    exact hs hpc (hrs ▸ (List.of_mem_zip hrow).1)
  | raise hpc =>
    intro hmem
    exact hs hpc (hw.executing hpc ▸ hmem)
  | cancelTick hpc =>
    intro _ hmem
    exact hs hpc (hw.executing hpc ▸ hmem)
  | cancelSleep hpc =>
    intro hpc'
    rw [hpc] at hpc'
    cases hpc'
  | _ => trivial

/-! ### Verdicts -/

/-- Between the two states no sequence with a verdict changed its verdict or its output. -/
def VerdictsKept (w w' : World ρ) : Prop :=
  ∀ s ∈ w.arrived, (w.sched.seqs s).isFinished = true →
    (w'.sched.seqs s).finishReason = (w.sched.seqs s).finishReason ∧
    (w'.sched.seqs s).outputIds = (w.sched.seqs s).outputIds

/-- **A step keeps all verdicts exactly when it records no late token.**  `abort` and
`fail_all` look before they write; a token grows the output whatever the verdict. -/
theorem verdictsKept_step (hw : WorldInv w) (h : w.step R a = some w') :
    VerdictsKept w w' ↔ NoLateToken w a := by
  constructor
  · intro hkept
    cases fires_of_step h with
    | @tickEnd nextIds hpc =>
      rintro ⟨s, o⟩ hrow ho
      obtain ⟨t, rfl⟩ := Option.isSome_iff_exists.mp ho
      by_contra hf
      rw [Bool.not_eq_false] at hf
      have hs : s ∈ w.arrived := hw.fifo.batch_sublist.subset (List.of_mem_zip hrow).1
      -- the output of the finished sequence has grown by the token
      have hout := (hkept s hs hf).2
      rw [step_seqs hw h] at hout
      simp [World.seqAfter, (lookup_eq_some_iff (hw.nodup_rows nextIds)).mpr hrow] at hout
    | _ => trivial
  · intro hlate s hs hf
    have htouch := touch_of_step hw.fifo h hs
    generalize w'.sched.seqs s = q at htouch ⊢
    cases htouch with
    | same => exact ⟨rfl, rfl⟩
    | record t hpc hrow =>
      have hlive := hlate _ hrow rfl
      rw [hf] at hlive
      cases hlive
    | abort r hr =>
      rw [Sequence.abort_of_isFinished hf]
      exact ⟨rfl, rfl⟩
    | fail ha hpc hmem =>
      rw [Sequence.fail_of_isFinished hf]
      exact ⟨rfl, rfl⟩

/-- **A verdict is written once, exactly in the runs without a late token.**  Every step of
the run leaves the finish reason and the output of every finished sequence alone if and only
if no step of it records a token for a finished sequence. -/
theorem verdicts_kept_iff (h : run (World.step R) (World.init m t r) acts = some w) :
    Along (World.step R) (fun u a => ∀ u' ∈ World.step R u a, VerdictsKept u u')
        (World.init m t r) acts ↔
      Along (World.step R) NoLateToken (World.init m t r) acts := by
  refine along_congr WorldInv (fun hw hs => WorldInv.step hw hs) ?_ (WorldInv.init m t r) h
  intro u a u' hu hstep
  rw [← verdictsKept_step hu hstep]
  simp [hstep]

/-- Without a disconnect the condition holds, so every verdict stands. -/
theorem verdicts_kept_iff_to_budget :
    Along (World.step mockRunner) (fun u a => ∀ u' ∈ World.step mockRunner u a, VerdictsKept u u')
      (World.init 8 8192 ())
      [.add 0 ⟨[104], 1, 0, none, ∅⟩, .loop .iterate, .loop (.tickEnd [some 0]), .abort 0] := by
  have h := run_eq_runD (show (run (World.step mockRunner) (World.init 8 8192 ())
    [.add 0 ⟨[104], 1, 0, none, ∅⟩, .loop .iterate, .loop (.tickEnd [some 0]),
      .abort 0]).isSome = true by decide)
  exact (verdicts_kept_iff h).mpr (by decide)

/-- A request recorded as cancelled turns into one that ran to its budget. -/
theorem verdict_overwritten_after_disconnect : ∃ w w',
    run (World.step mockRunner) (World.init 8 8192 ())
      [.add 0 ⟨[104], 1, 0, none, ∅⟩, .loop .iterate, .abort 0] = some w ∧
    run (World.step mockRunner) w [.loop (.tickEnd [some 0])] = some w' ∧
    (w.sched.seqs 0).finishReason = some .cancelled ∧
    (w'.sched.seqs 0).finishReason = some .length ∧ (w'.sched.seqs 0).outputIds = [0] ∧
    ¬ VerdictsKept w w' := by
  have h := run_eq_runD (show (run (World.step mockRunner) (World.init 8 8192 ())
    [.add 0 ⟨[104], 1, 0, none, ∅⟩, .loop .iterate, .abort 0]).isSome = true by decide)
  have h' := run_eq_runD (show (run (World.step mockRunner)
    (runD (World.step mockRunner) (World.init 8 8192 ())
      [.add 0 ⟨[104], 1, 0, none, ∅⟩, .loop .iterate, .abort 0])
    [.loop (.tickEnd [some 0])]).isSome = true by decide)
  refine ⟨_, _, h, h', by decide, by decide, by decide, ?_⟩
  intro hkept
  exact absurd (hkept 0 (by decide) (by decide)).2 (by decide)

end Runs

end NanoKube
