import NanoKube.Qwen
import NanoKube.RowMemory

/-!
# The cache and the loop agree

What the runner remembers of its rows is the cache.  Between two ticks it holds, row by
row, all but the newest token of every member of the last tick that has not finished.  A
member that left, or whose row failed, has finished; it is swept by the next `schedule`,
so the next batch is a different one and is prefilled.

## Main definitions

* `FedByQwen` — prompts are not empty, and the results of a tick come from `sample`.
* `KvInv` — the loop, the cache and the sequences agree.

## Main results

* `remembers_holds` — one call of `QwenRunner.execute` leaves its rows in the cache.
* `KvInv.step` — every event keeps the invariant.
* `kv_cache_coherent` — every call shows every row its own tokens, as if it were alone.
-/

namespace NanoKube

section Loop

variable {κ : Type*} {M : Model κ} {padId : Token} {w w' : World (Option κ)} {a : Act}

/-- `encode` never returns an empty list, and `execute` returns what `_sample` does. -/
def FedByQwen {ρ : Type*} (w : World ρ) : Act → Prop
  | .add _ req => req.promptIds ≠ []
  | .loop (.tickEnd nextIds) => ∃ sampleRow, sample sampleRow w.loop.batch = some nextIds
  | _ => True

instance {ρ : Type*} (w : World ρ) : ∀ a, Decidable (FedByQwen w a)
  | .add _ req => inferInstanceAs (Decidable (req.promptIds ≠ []))
  | .loop (.tickEnd _) => decidable_of_iff _ exists_sample_iff.symm
  | .abort _ | .loop .iterate | .loop .wake | .loop .raise | .loop .cancel => isTrue trivial

/-- What `_sample` returns keeps the contract of `execute`. -/
theorem FedByQwen.oneResultPerRow {ρ : Type*} {u : World ρ} {a : Act} (h : FedByQwen u a) :
    OneResultPerRow u a := by
  cases a with
  | loop e =>
    cases e with
    | tickEnd nextIds => exact exists_sample_iff.mp h
    | _ => trivial
  | _ => trivial

/-- **The runner remembers its rows in the cache.** -/
theorem remembers_holds (M : Model κ) (padId : Token) :
    Remembers (qwenRunner M padId) (Holds M padId) where
  congr := Holds.congr
  execute := fun hcache => holds_of_columns fun _ _ hi => columns_of_holds hcache hi

/-- The loop, the cache and the sequences agree. -/
structure KvInv (M : Model κ) (padId : Token) (w : World (Option κ)) : Prop where
  memory : MemoryInv (Holds M padId) w
  prompts : ∀ s ∈ w.arrived, (w.sched.seqs s).promptIds ≠ []

theorem KvInv.init (M : Model κ) (padId : Token) (m t : ℤ) :
    KvInv M padId (World.init m t none) where
  memory := MemoryInv.init _ m t none
  prompts := by intro s hs; cases hs

/-- Prompts stay what they are, and new ones are not empty. -/
theorem KvInv.prompts_step {R : ModelRunner (Option κ)} (hw : KvInv M padId w)
    (ha : FedByQwen w a) (h : w.step R a = some w') :
    ∀ s ∈ w'.arrived, (w'.sched.seqs s).promptIds ≠ [] := by
  intro s hs
  by_cases hold : s ∈ w.arrived
  · rw [toRequest_step hw.memory.fifo h hold]
    exact hw.prompts s hold
  · obtain ⟨req, rfl, hseq⟩ := new_arrival hw.memory.fifo h hold hs
    rw [hseq, Sequence.settle_toRequest]
    exact ha

/-- **Every event keeps loop, cache and sequences in agreement.** -/
theorem KvInv.step (hw : KvInv M padId w) (ha : FedByQwen w a)
    (h : w.step (qwenRunner M padId) a = some w') : KvInv M padId w' :=
  ⟨hw.memory.step (remembers_holds M padId) ha.oneResultPerRow h, hw.prompts_step ha h⟩

/-- **Every row of a prefill or decode tick sees its own tokens.** -/
theorem KvInv.columns (hw : KvInv M padId w) (hpc : w.loop.pc = .top) {i : ℕ} {s : SeqId}
    (hi : w.sched.schedule.2[i]? = some s) :
    (qwenCall padId w.loop.runner (w.sched.schedule.2.map w.sched.seqs)
        (decide (w.sched.schedule.2 ≠ w.loop.members))).columns M.columns i
      = paddedColumns padId (widest ((w.sched.schedule.2.map w.sched.seqs).map Sequence.len))
          (w.sched.seqs s).tokenIds := by
  have hbatch : w.sched.schedule.2 ≠ [] := by
    intro hnil
    rw [hnil] at hi
    cases hi
  exact columns_of_holds (hw.memory.grown hpc hbatch) hi

/-- The call that would be made for a sequence alone, unpadded and without a cache. -/
def aloneCall (padId : Token) (q : Sequence) : Call κ := qwenCall padId none [q] true

theorem shows_aloneCall (M : Model κ) (padId : Token) {q : Sequence} (hne : q.tokenIds ≠ []) :
    Shows M (aloneCall padId q) 0 q.tokenIds := by
  have hi : [q][0]? = some q := rfl
  exact shows_of_padded (columns_prefill M.columns hi (Or.inl rfl)) (mask_qwenCall _ _ hi) hne
    (len_le_widest hi)

/-- **The cache is coherent.**  Take any `execute` in any run from a fresh runner.  The columns
in the cache and the columns fed are as many as the mask is wide, the mask leaves of them
exactly the row's tokens, numbered from 0, with the newest token in the last column: what the
sequence alone, unpadded and uncached, would show the model. -/
theorem kv_cache_coherent {m t : ℤ} {acts : List Act}
    (h : run (World.step (qwenRunner M padId)) (World.init m t none) acts = some w)
    (hfed : Along (World.step (qwenRunner M padId)) FedByQwen (World.init m t none) acts)
    (htick : w.step (qwenRunner M padId) (.loop .iterate) = some w')
    (hexec : w'.loop.pc = .executing) :
    let call := qwenCall padId w.loop.runner (w'.loop.batch.map w'.sched.seqs)
      (decide (w'.loop.batch ≠ w.loop.members))
    w'.loop.runner = some (M.forward call) ∧
    ∀ (i : ℕ) (s : SeqId), w'.loop.batch[i]? = some s →
      Shows M call i (w'.sched.seqs s).tokenIds ∧
      call.visible M i = (aloneCall padId (w'.sched.seqs s)).visible M 0 := by
  have hw : KvInv M padId w :=
    run_invariant_along (KvInv M padId) (fun hw ha hs => hw.step ha hs) (KvInv.init M padId m t)
      hfed h
  have hiterate : FedByQwen w (.loop .iterate) := trivial
  have hsub := (hw.step hiterate htick).memory.fifo.batch_sublist
  cases fires_of_step htick with
  | doze hpc hwork => cases hexec
  | drain hpc hwork hbatch =>
    rw [hpc] at hexec
    cases hexec
  | tickStart hpc hwork hbatch =>
    refine ⟨rfl, ?_⟩
    intro i s hi
    have hrow : (w.sched.schedule.2.map w.sched.seqs)[i]? = some (w.sched.seqs s) := by
      rw [List.getElem?_map, hi, Option.map_some]
    have hne : (w.sched.seqs s).tokenIds ≠ [] := by
      intro hnil
      exact hw.prompts s (hsub.subset (List.mem_of_getElem? hi)) (List.append_eq_nil_iff.mp hnil).1
    have hshows := shows_of_padded (hw.columns hpc hi) (mask_qwenCall _ _ hrow) hne
      (len_le_widest hrow)
    exact ⟨hshows, hshows.visible.trans (shows_aloneCall M padId hne).visible.symm⟩

/-- A model whose cache is the list of the columns of each row. -/
def recorder : Model (List (List (Token × ℤ))) where
  columns cache i := cache[i]?.getD []
  forward call := (List.range call.inputIds.length).map fun i =>
    call.columns (fun cache i => cache[i]?.getD []) i
  records := by
    intro call i hi
    simp [hi]

/-- Two ragged rows, the second tick being fed from the cache. -/
theorem kv_cache_coherent_second_tick :
    let acts : List Act := [.add 0 ⟨[5], 3, 0, none, ∅⟩, .add 1 ⟨[5, 6], 3, 0, none, ∅⟩,
      .loop .iterate, .loop (.tickEnd [some 6, some 7])]
    let w := runD (World.step (qwenRunner recorder 0)) (World.init 8 8192 none) acts
    let w' := runD (World.step (qwenRunner recorder 0)) w [.loop .iterate]
    Shows recorder (qwenCall 0 w.loop.runner (w'.loop.batch.map w'.sched.seqs)
      (decide (w'.loop.batch ≠ w.loop.members))) 1 [5, 6, 7] := by
  intro acts w w'
  have h := run_eq_runD (show (run (World.step (qwenRunner recorder 0))
    (World.init 8 8192 none) acts).isSome = true by decide)
  have htick : w.step (qwenRunner recorder 0) (.loop .iterate) = some w' := rfl
  exact ((kv_cache_coherent h (by decide) htick rfl).2 1 1 rfl).1

end Loop

end NanoKube
