import Mathlib.Algebra.Order.BigOperators.Group.List
import Mathlib.Algebra.Order.Group.Nat
import NanoKube.Verdicts

/-!
# No slot is wasted

A forward pass computes a row for every slot of the batch.  Continuous batching is about
these rows: a request that has finished must not keep its slot, and one that was given up
must not go on.  So every row that is computed is a token that some request asked for,
unless its computation failed, or the loop died with it.

## Main definitions

* `World.slots` — the rows an event starts to compute.
* `World.lost` — the rows in flight that an event brings nothing for.
* `World.tokens`, `World.budget` — the tokens generated so far, and those asked for.

## Main results

* `balance_step` — what one event does to the rows in flight and to the tokens.
* `slots_accounted` — **every row computed is a token generated, lost, or in flight**.
-/

namespace NanoKube

/-! ### Tokens -/

namespace Scheduler

/-- The tokens generated for the sequences of a list. -/
def outputs (σ : Scheduler) (l : List SeqId) : ℕ :=
  (l.map fun s => (σ.seqs s).outputIds.length).sum

theorem outputs_congr {σ σ' : Scheduler} {l : List SeqId}
    (h : ∀ s ∈ l, (σ'.seqs s).outputIds = (σ.seqs s).outputIds) : σ'.outputs l = σ.outputs l := by
  rw [outputs, outputs]
  congr 1
  exact List.map_congr_left fun s hs => by rw [h s hs]

/-- One row of `postprocess`. -/
theorem outputs_recordRow (σ : Scheduler) {l : List SeqId} (hn : l.Nodup) {row : SeqId × Token}
    (hrow : row.1 ∈ l) : (σ.recordRow row).outputs l = σ.outputs l + 1 := by
  induction l with
  | nil => cases hrow
  | cons s l ih =>
    obtain ⟨hs, hn⟩ := List.nodup_cons.mp hn
    simp only [outputs, List.map_cons, List.sum_cons] at ih ⊢
    by_cases hrow' : row.1 ∈ l
    · -- the row is further on, so it is not this one
      have hne : s ≠ row.1 := fun he => hs (he ▸ hrow')
      rw [ih hn hrow', recordRow, modify_seqs, if_neg hne]
      omega
    · obtain rfl : row.1 = s := by simpa [hrow'] using hrow
      have hrest : ((σ.recordRow row).outputs l) = σ.outputs l := by
        apply outputs_congr
        intro t ht
        have hne : t ≠ row.1 := fun he => hrow' (he ▸ ht)
        rw [recordRow, modify_seqs, if_neg hne]
      rw [outputs, outputs] at hrest
      rw [hrest, recordRow, modify_seqs_self, Sequence.record_outputIds, List.length_append,
        List.length_singleton]
      omega

/-- **`postprocess` brings a token a row.** -/
theorem outputs_postRows {l : List SeqId} (hn : l.Nodup) :
    ∀ (rows : List (SeqId × Token)) (σ : Scheduler), (∀ row ∈ rows, row.1 ∈ l) →
      (σ.postRows rows).1.outputs l = σ.outputs l + rows.length := by
  intro rows
  induction rows with
  | nil => intro σ _; rfl
  | cons row rows ih =>
    intro σ hrows
    obtain ⟨hrow, hrest⟩ := List.forall_mem_cons.mp hrows
    rw [postRows]
    dsimp only
    rw [ih _ hrest, outputs_recordRow σ hn hrow, List.length_cons]
    omega

/-- Dropping rows takes no token back. -/
theorem outputs_aborts (l : List SeqId) :
    ∀ (gone : List SeqId) (σ : Scheduler),
      (gone.foldl (fun σ s => σ.abort s .error) σ).outputs l = σ.outputs l := by
  intro gone
  induction gone with
  | nil => intro σ; rfl
  | cons s gone ih =>
    intro σ
    rw [List.foldl_cons, ih]
    apply outputs_congr
    intro t _
    rw [abort_seqs]
    split
    · exact Sequence.abort_outputIds _ _
    · rfl

theorem outputs_tickEnd (σ : Scheduler) {l batch : List SeqId} (hn : l.Nodup) (hbatch : batch ⊆ l)
    (nextIds : List (Option Token)) :
    (σ.tickEnd batch nextIds).outputs l = σ.outputs l + (survivors batch nextIds).length := by
  unfold tickEnd postprocess
  dsimp only
  rw [zip_survivors, outputs_postRows hn, outputs_aborts]
  intro row hrow
  exact hbatch (List.of_mem_zip (mem_survivors.mp hrow)).1

/-- A row that comes back is a token or a failure. -/
theorem length_casualties_add (batch : List SeqId) (nextIds : List (Option Token)) :
    (casualties batch nextIds).length + (survivors batch nextIds).length
      = (batch.zip nextIds).length := by
  unfold casualties survivors
  induction batch.zip nextIds with
  | nil => rfl
  | cons row rows ih =>
    obtain ⟨s, _ | token⟩ := row
    · simp at ih ⊢
      omega
    · simp at ih ⊢
      omega

end Scheduler

/-! ### Rows -/

variable {ρ : Type*} {R : ModelRunner ρ} {w w' : World ρ} {a : Act}

namespace World

/-- The tokens generated so far. -/
def tokens (w : World ρ) : ℕ := w.sched.outputs w.arrived

/-- The tokens that were asked for. -/
def budget (w : World ρ) : ℕ :=
  (w.arrived.map fun s => (w.sched.seqs s).maxNewTokens.toNat).sum

/-- The rows that are being computed. -/
def inflight (w : World ρ) : ℕ := if w.loop.pc = .executing then w.loop.batch.length else 0

/-- The rows the event starts to compute. -/
def slots (w : World ρ) : Act → ℕ
  | .loop .iterate => w.sched.schedule.2.length
  | _ => 0

/-- The rows in flight for which the event brings nothing: they failed, or the loop died. -/
def lost (w : World ρ) : Act → ℕ
  | .loop (.tickEnd nextIds) => (Scheduler.casualties w.loop.batch nextIds).length
  | .loop .raise | .loop .cancel => w.inflight
  | _ => 0

end World

theorem tokens_congr (harr : w'.arrived = w.arrived)
    (h : ∀ s ∈ w.arrived, (w'.sched.seqs s).outputIds = (w.sched.seqs s).outputIds) :
    w'.tokens = w.tokens := by
  rw [World.tokens, World.tokens, harr]
  exact Scheduler.outputs_congr h

/-- **One event keeps the balance** of rows and tokens. -/
theorem balance_step (hx : Fifo w.api) (ha : OneResultPerRow w a) (h : w.step R a = some w') :
    w'.tokens + w'.inflight + w.lost a = w.tokens + w.inflight + w.slots a := by
  have hframe : w'.arrived = w.arrived → (∀ nextIds, a ≠ .loop (.tickEnd nextIds)) →
      w'.tokens = w.tokens := fun harr hne =>
    tokens_congr harr fun s hs => outputIds_step hx h hs hne
  cases fires_of_step h with
  | @add seq req hnew =>
    -- a new request has no tokens, and the others are left alone
    have hold : (w.sched.submit seq req).outputs w.arrived = w.sched.outputs w.arrived := by
      apply Scheduler.outputs_congr
      intro s hs
      have hne : s ≠ seq := fun he => hnew (he ▸ hs)
      rw [Scheduler.submit_seqs, if_neg hne]
    have hfresh : ((w.sched.submit seq req).seqs seq).outputIds = [] := by
      rw [Scheduler.submit_seqs, if_pos rfl, Sequence.settle_outputIds]
    have htokens : (w.sched.submit seq req).outputs (w.arrived ++ [seq])
        = w.sched.outputs w.arrived := by
      rw [← hold, Scheduler.outputs, Scheduler.outputs, List.map_append, List.sum_append]
      simp [hfresh]
    simp only [World.tokens, World.inflight, World.lost, World.slots, htokens]
  | abort hold =>
    have htokens := hframe rfl (by simp)
    simp only [World.inflight, World.lost, World.slots] at htokens ⊢
    omega
  | doze hpc hwork =>
    have htokens := hframe rfl (by simp)
    simp only [World.inflight, World.lost, World.slots, hpc, Scheduler.schedule_of_no_work hwork]
      at htokens ⊢
    simpa using htokens
  | drain hpc hwork hbatch =>
    have htokens := hframe rfl (by simp)
    simp only [World.inflight, World.lost, World.slots, hpc, hbatch] at htokens ⊢
    simpa using htokens
  | tickStart hpc hwork hbatch =>
    have htokens := hframe rfl (by simp)
    simp only [World.inflight, World.lost, World.slots, hpc] at htokens ⊢
    simpa using htokens
  | wake hpc =>
    have htokens := hframe rfl (by simp)
    simp only [World.inflight, World.lost, World.slots, hpc] at htokens ⊢
    simpa using htokens
  | @tickEnd nextIds hpc =>
    have htokens := w.sched.outputs_tickEnd hx.nodup hx.batch_sublist.subset nextIds
    have hrows := Scheduler.length_casualties_add w.loop.batch nextIds
    -- a result a row: no row of the batch is dropped by `zip`
    have hlen : nextIds.length = w.loop.batch.length := ha
    rw [List.length_zip, hlen, Nat.min_self] at hrows
    simp only [World.tokens, World.inflight, World.lost, World.slots, hpc, if_true] at htokens ⊢
    simp only [World.api] at htokens
    rw [htokens]
    simp only [reduceCtorEq, if_false]
    omega
  | raise hpc | cancelSleep hpc | cancelTick hpc =>
    -- the rows in flight are lost with the loop
    have htokens := hframe rfl (by simp)
    simp only [World.inflight, World.lost, World.slots, hpc] at htokens ⊢
    simpa using htokens

/-- Nobody gets more tokens than were asked for. -/
theorem LoopVerdicts.tokens_le (hw : LoopVerdicts w) : w.tokens ≤ w.budget := by
  rw [World.tokens, Scheduler.outputs, World.budget]
  apply List.sum_le_sum
  intro s hs
  obtain ⟨-, -, -, hle⟩ := (hw.truthful s hs).tells
  omega

/-- **Every row computed is a token generated, lost, or in flight.**  In every run, with late arrivals,
hang-ups at any moment, failing rows and a loop that dies: as many rows have been computed as
tokens were generated, and rows failed or died with the loop, and are being computed; and no more
tokens were generated than were asked for. -/
theorem slots_accounted {m t : ℤ} {r : ρ} {acts : List Act}
    (h : run (World.step R) (World.init m t r) acts = some w)
    (hrows : Along (World.step R) OneResultPerRow (World.init m t r) acts) :
    w.tokens + w.inflight + totalCost (World.step R) World.lost (World.init m t r) acts
        = totalCost (World.step R) World.slots (World.init m t r) acts ∧
      w.tokens ≤ w.budget := by
  have hbalance : w.tokens + w.inflight +
      totalCost (World.step R) World.lost (World.init m t r) acts
        = (World.init m t r).tokens + (World.init m t r).inflight +
          totalCost (World.step R) World.slots (World.init m t r) acts :=
    run_balanced LoopVerdicts (fun u => u.tokens + u.inflight)
      (fun hu ha hs => ⟨hu.step hs, balance_step hu.fifo ha hs⟩) (LoopVerdicts.init m t r) hrows h
  have hnone : (World.init m t r).tokens + (World.init m t r).inflight = 0 := rfl
  exact ⟨by omega, (loopVerdicts_reachable h).tokens_le⟩

/-- Two requests; one fails in the first tick, the client of the other leaves during the second, and
the loop dies in it. -/
theorem slots_accounted_died :
    let acts : List Act := [.add 0 ⟨[5], 3, 0, none, ∅⟩, .add 1 ⟨[5], 3, 0, none, ∅⟩,
      .loop .iterate, .loop (.tickEnd [some 0, none]), .loop .iterate, .abort 0, .loop .raise]
    totalCost (World.step mockRunner) World.slots (World.init 8 8192 ()) acts = 3 ∧
      totalCost (World.step mockRunner) World.lost (World.init 8 8192 ()) acts = 2 := by
  intro acts
  have h := run_eq_runD (show
    (run (World.step mockRunner) (World.init 8 8192 ()) acts).isSome = true by decide)
  obtain ⟨heq, -⟩ := slots_accounted h (by decide)
  have hlost : totalCost (World.step mockRunner) World.lost (World.init 8 8192 ()) acts = 2 := by
    decide
  refine ⟨?_, hlost⟩
  rw [← heq, hlost]
  decide

end NanoKube
