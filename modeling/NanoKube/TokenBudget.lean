import Mathlib.Algebra.BigOperators.Ring.Finset
import Mathlib.Algebra.Order.BigOperators.Group.List
import Mathlib.Algebra.Order.Group.Int
import NanoKube.Admission
import NanoKube.RunLoop

/-!
# What the token budget bounds

`max_batch_tokens` is looked at when a sequence is admitted, against the tokens the batch
has then.  From there on every row of the batch grows by a token a tick, and nothing is
put back.  So the budget bounds the batch as it was when its newest row joined, which is
what the rows have now, less what each of them has generated since: as much as the
newest row has generated in all.

## Main definitions

* `joined` — the tokens of some rows at the time a row joined them.
* `Packed` — rows in the order they were admitted, each within the budget when it joined.

## Main results

* `Packed.sublist`, `Packed.grow`, `Packed.admit` — what happens to a batch.
* `batch_tokens_at_admission` — the bound at every call of `execute`.
-/

namespace NanoKube

/-- The tokens of some rows, less those each has generated since `r` joined them. -/
def joined (seqs : SeqId → Sequence) (r : SeqId) (l : List SeqId) : ℤ :=
  (l.map fun s => ((seqs s).len : ℤ) - (seqs r).outputIds.length).sum

theorem joined_eq (seqs : SeqId → Sequence) (r : SeqId) (l : List SeqId) :
    joined seqs r l
      = (l.map fun s => ((seqs s).len : ℤ)).sum - l.length * (seqs r).outputIds.length := by
  unfold joined
  induction l with
  | nil => simp
  | cons s l ih =>
    rw [List.map_cons, List.sum_cons, List.map_cons, List.sum_cons, ih, List.length_cons]
    rw [Nat.cast_add, Nat.cast_one, add_mul, one_mul]
    omega

/-- The rows of a batch, oldest first: an older row has generated no fewer tokens, and when a row
joined others, all of them were within the budget. -/
structure Packed (budget : ℤ) (seqs : SeqId → Sequence) (l : List SeqId) : Prop where
  older : l.Pairwise fun s r => (seqs r).outputIds.length ≤ (seqs s).outputIds.length
  fits : ∀ before r after, l = before ++ r :: after → before ≠ [] →
    joined seqs r (before ++ [r]) ≤ budget

section Rows

variable {budget : ℤ} {seqs seqs' : SeqId → Sequence} {l l' : List SeqId}

theorem Packed.nil : Packed budget seqs [] where
  older := List.Pairwise.nil
  fits := by intro before r after h; simp at h

/-- **A row that leaves takes its tokens along.** -/
theorem Packed.sublist (h : Packed budget seqs l) (hl : l'.Sublist l) : Packed budget seqs l' := by
  refine ⟨h.older.sublist hl, ?_⟩
  rintro before' r after' rfl hne
  obtain ⟨l₁, l₂, rfl, hbefore, hrest⟩ := List.append_sublist_iff.mp hl
  obtain ⟨m₁, m₂, rfl, hr, -⟩ := List.cons_sublist_iff.mp hrest
  obtain ⟨p, q, rfl⟩ := List.append_of_mem hr
  have hsub : before'.Sublist (l₁ ++ p) := hbefore.trans (List.sublist_append_left ..)
  have hsplit : l₁ ++ (p ++ r :: q ++ m₂) = (l₁ ++ p) ++ r :: (q ++ m₂) := by simp
  have hbound := h.fits (l₁ ++ p) r (q ++ m₂) hsplit fun hnil => hne (by
    rw [hnil] at hsub
    exact List.sublist_nil.mp hsub)
  refine le_trans ?_ hbound
  apply List.Sublist.sum_le_sum ((hsub.append (List.Sublist.refl [r])).map _)
  intro n hn
  obtain ⟨s, hs, rfl⟩ := List.mem_map.mp hn
  -- an older row has at least the tokens that `r` has generated
  have hold : (seqs r).outputIds.length ≤ (seqs s).outputIds.length := by
    have hpair := h.older
    rw [hsplit] at hpair
    rcases List.mem_append.mp hs with hs | hs
    · exact (List.pairwise_append.mp hpair).2.2 s hs r List.mem_cons_self
    · rw [List.mem_singleton.mp hs]
  unfold Sequence.len
  omega

/-- **Rows that grow alike** are as they were when each joined. -/
theorem Packed.grow (h : Packed budget seqs l) (d : ℕ)
    (hout : ∀ s ∈ l, (seqs' s).outputIds.length = (seqs s).outputIds.length + d)
    (hlen : ∀ s ∈ l, (seqs' s).len = (seqs s).len + d) : Packed budget seqs' l := by
  refine ⟨?_, ?_⟩
  · refine h.older.imp_of_mem ?_
    intro s r hs hr hle
    rw [hout s hs, hout r hr]
    omega
  · intro before r after hl hne
    have hsame : joined seqs' r (before ++ [r]) = joined seqs r (before ++ [r]) := by
      unfold joined
      congr 1
      apply List.map_congr_left
      intro s hs
      have hs' : s ∈ l := by
        rw [hl]
        rcases List.mem_append.mp hs with hs | hs
        · exact List.mem_append_left _ hs
        · exact List.mem_append_right _ (List.mem_singleton.mp hs ▸ List.mem_cons_self)
      have hr' : r ∈ l := by simp [hl]
      rw [hout r hr', hlen s hs']
      push_cast
      omega
    rw [hsame]
    exact h.fits before r after hl hne

/-- **Admission**: rows that have generated nothing join, within the budget. -/
theorem Packed.admit (h : Packed budget seqs l) (hnew : ∀ s ∈ l', (seqs s).outputIds = [])
    (hfits : l' ≠ [] → (l ++ l').length = 1 ∨
      ((l ++ l').map fun s => ((seqs s).len : ℤ)).sum ≤ budget) :
    Packed budget seqs (l ++ l') := by
  refine ⟨?_, ?_⟩
  · rw [List.pairwise_append]
    refine ⟨h.older, ?_, ?_⟩
    · refine List.pairwise_of_forall_mem_list ?_
      intro s _ r hr
      simp [hnew r hr]
    · intro s _ r hr
      simp [hnew r hr]
  · intro before r after hl hne
    have hjoins : ∀ rest, before = l ++ rest → l' = rest ++ r :: after →
        joined seqs r (before ++ [r]) ≤ budget := by
      rintro rest rfl hrest
      have hr : r ∈ l' := by simp [hrest]
      have hsub : (l ++ rest ++ [r]).Sublist (l ++ l') := by
        rw [hrest, List.append_assoc]
        exact (List.Sublist.refl l).append
          ((List.Sublist.refl rest).append (List.singleton_sublist.mpr List.mem_cons_self))
      rcases hfits (List.ne_nil_of_mem hr) with hone | htotal
      · exfalso
        have hlen := hsub.length_le
        have hpos := List.length_pos_iff.mpr hne
        rw [List.length_append, List.length_singleton] at hlen
        omega
      · refine le_trans ?_ htotal
        rw [joined, hnew r hr]
        apply List.Sublist.sum_le_sum
        · simpa using hsub.map fun s => ((seqs s).len : ℤ)
        · intro n hn
          obtain ⟨s, -, rfl⟩ := List.mem_map.mp hn
          exact Int.natCast_nonneg _
    rcases List.append_eq_append_iff.mp hl with ⟨rest, hbefore, hrest⟩ | ⟨rest, hbefore, hrest⟩
    · exact hjoins rest hbefore hrest
    · cases rest with
      | nil => exact hjoins [] (by simpa using hbefore.symm) (by simpa using hrest.symm)
      | cons r' rest =>
        obtain ⟨rfl, -⟩ := List.cons_eq_cons.mp hrest
        exact h.fits before r rest hbefore hne

end Rows

/-! ### The loop -/

section Loop

variable {ρ : Type*} {R : ModelRunner ρ} {budget : ℤ} {w w' : World ρ} {a : Act}

theorem total_cast (σ : Scheduler) (l : List SeqId) :
    (σ.total l : ℤ) = (l.map fun s => ((σ.seqs s).len : ℤ)).sum := by
  rw [Scheduler.total, Nat.cast_list_sum, List.map_map]
  rfl

/-- The unfinished rows are packed, and what waits has generated nothing. -/
structure BudgetInv (budget : ℤ) (w : World ρ) : Prop where
  world : WorldInv w
  limit : w.sched.maxBatchTokens = budget
  fresh : ∀ s ∈ w.sched.waiting, (w.sched.seqs s).outputIds = []
  packed : Packed budget w.sched.seqs w.sched.unfinishedRunning

theorem BudgetInv.init (m t : ℤ) (r : ρ) : BudgetInv t (World.init m t r) where
  world := WorldInv.init m t r
  limit := rfl
  fresh := by intro s hs; cases hs
  packed := Packed.nil

/-- What waits still has generated nothing. -/
theorem BudgetInv.fresh_step (hw : BudgetInv budget w) (h : w.step R a = some w') {s : SeqId}
    (hs : s ∈ w'.sched.waiting) : (w'.sched.seqs s).outputIds = [] := by
  have hx := hw.world.fifo
  have hx' := (hw.world.step h).fifo
  by_cases hold : s ∈ w.arrived
  · have hwait := mem_waiting_of_step h hold hs
    have htouch := touch_of_step hx h hold
    generalize w'.sched.seqs s = q at htouch ⊢
    cases htouch with
    | same => exact hw.fresh s hwait
    | record t hpc hrow => exact absurd hwait (hx.batch_waiting s (List.of_mem_zip hrow).1)
    | abort r hr => rw [Sequence.abort_outputIds, hw.fresh s hwait]
    | fail ha hpc hmem => rw [Sequence.fail_outputIds, hw.fresh s hwait]
  · obtain ⟨req, -, hseq⟩ := new_arrival hx h hold (hx'.mem_arrived (List.mem_append_right _ hs))
    rw [hseq, Sequence.settle_outputIds]

/-- When `running` stays, its unfinished members are some of those before. -/
theorem unfinishedRunning_sublist (hx : Fifo w.api) (h : w.step R a = some w')
    (hrun : w'.sched.running = w.sched.running) :
    w'.sched.unfinishedRunning.Sublist w.sched.unfinishedRunning := by
  have hsub : w'.sched.unfinishedRunning
      = w.sched.unfinishedRunning.filter fun s => !(w'.sched.seqs s).isFinished := by
    rw [Scheduler.unfinishedRunning, Scheduler.unfinishedRunning, hrun, List.filter_filter]
    apply List.filter_congr
    intro s hs
    have harr : s ∈ w.arrived := hx.mem_arrived (List.mem_append_left _ hs)
    cases hf : (w.sched.seqs s).isFinished with
    | true =>
      have hf' : (w'.sched.seqs s).isFinished = true := isFinished_step hx h harr hf
      rw [hf']
      rfl
    | false => rw [Bool.not_false, Bool.and_true]
  rw [hsub]
  exact List.filter_sublist

/-- A row the tick leaves unfinished got a token. -/
theorem outputIds_tickEnd {nextIds : List (Option Token)} (hx : Fifo w.api)
    (hrows : nextIds.length = w.loop.batch.length) {s : SeqId} (hs : s ∈ w.loop.batch)
    (hlive : ((w.sched.tickEnd w.loop.batch nextIds).seqs s).isFinished = false) :
    ∃ t, (w.sched.tickEnd w.loop.batch nextIds).seqs s = (w.sched.seqs s).record t := by
  rcases row_tickEnd hx hrows hs with ⟨t, ht⟩ | hnone
  · exact ⟨t, ht⟩
  · rw [hnone, Sequence.abort_isFinished] at hlive
    cases hlive

/-- An event that leaves `running` and the outputs of its members. -/
theorem BudgetInv.packed_of_running (hw : BudgetInv budget w) (h : w.step R a = some w')
    (hrun : w'.sched.running = w.sched.running)
    (ha : ∀ nextIds, a ≠ .loop (.tickEnd nextIds)) :
    Packed budget w'.sched.seqs w'.sched.unfinishedRunning := by
  have hx := hw.world.fifo
  have hsub := unfinishedRunning_sublist hx h hrun
  have harr : ∀ s ∈ w'.sched.unfinishedRunning, s ∈ w.arrived := fun s hs =>
    hx.mem_arrived (List.mem_append_left _ (List.mem_filter.mp (hsub.subset hs)).1)
  apply (hw.packed.sublist hsub).grow 0
  · intro s hs
    rw [outputIds_step hx h (harr s hs) ha, Nat.add_zero]
  · intro s hs
    rw [Sequence.len, outputIds_step hx h (harr s hs) ha, toRequest_step hx h (harr s hs)]
    rfl

/-- What `schedule` admits fits at that moment. -/
theorem BudgetInv.packed_schedule (hw : BudgetInv budget w) :
    Packed budget w.sched.schedule.1.seqs w.sched.schedule.1.unfinishedRunning := by
  obtain ⟨admitted, hwait, hbatch, -⟩ := w.sched.schedule_spec
  have hall : w.sched.schedule.1.unfinishedRunning = w.sched.unfinishedRunning ++ admitted := by
    rw [Scheduler.unfinishedRunning_schedule, ← hbatch, List.filter_eq_self]
    intro s hs
    have hlive : (w.sched.seqs s).isFinished = false :=
      Scheduler.isFinished_of_mem_schedule hw.world.fifo.waiting_live hs
    simpa using hlive
  rw [hall, Scheduler.schedule_seqs]
  apply hw.packed.admit
  · intro s hs
    exact hw.fresh s (hwait ▸ List.mem_append_left _ hs)
  · intro hne
    rw [← hbatch, ← total_cast, ← hw.limit]
    exact (Scheduler.fits_schedule hbatch hne).2

/-- The rows a tick leaves unfinished are longer by one token each. -/
theorem BudgetInv.packed_tickEnd (hw : BudgetInv budget w) {nextIds : List (Option Token)}
    (hpc : w.loop.pc = .executing) (hrows : nextIds.length = w.loop.batch.length)
    (h : w.step R (.loop (.tickEnd nextIds)) = some w')
    (hsched : w'.sched = w.sched.tickEnd w.loop.batch nextIds) :
    Packed budget w'.sched.seqs w'.sched.unfinishedRunning := by
  have hx := hw.world.fifo
  have hsub := unfinishedRunning_sublist hx h (by rw [hsched, Scheduler.tickEnd_running])
  have hrec : ∀ s ∈ w'.sched.unfinishedRunning,
      ∃ t, w'.sched.seqs s = (w.sched.seqs s).record t := by
    intro s hs
    rw [hsched] at hs ⊢
    obtain ⟨hmem, hlive⟩ := List.mem_filter.mp hs
    rw [Scheduler.tickEnd_running, hw.world.executing hpc] at hmem
    exact outputIds_tickEnd hx hrows hmem (by simpa using hlive)
  apply (hw.packed.sublist hsub).grow 1
  · intro s hs
    obtain ⟨t, ht⟩ := hrec s hs
    rw [ht, Sequence.record_outputIds, List.length_append, List.length_singleton]
  · intro s hs
    obtain ⟨t, ht⟩ := hrec s hs
    rw [ht, Sequence.len, Sequence.len, Sequence.record_outputIds, Sequence.record_toRequest,
      List.length_append, List.length_singleton]
    omega

theorem BudgetInv.packed_step (hw : BudgetInv budget w) (hrows : OneResultPerRow w a)
    (h : w.step R a = some w') : Packed budget w'.sched.seqs w'.sched.unfinishedRunning := by
  cases fires_of_step h with
  | add hnew => exact hw.packed_of_running h (by simp) (by simp)
  | abort hold => exact hw.packed_of_running h (by simp) (by simp)
  | doze hpc hwork => exact hw.packed_of_running h rfl (by simp)
  | drain hpc hwork hbatch => exact hw.packed_schedule
  | tickStart hpc hwork hbatch => exact hw.packed_schedule
  | wake hpc => exact hw.packed_of_running h rfl (by simp)
  | tickEnd hpc => exact hw.packed_tickEnd hpc hrows h rfl
  | raise hpc => exact Packed.nil
  | cancelSleep hpc => exact hw.packed_of_running h rfl (by simp)
  | cancelTick hpc => exact Packed.nil

theorem BudgetInv.step (hw : BudgetInv budget w) (hrows : OneResultPerRow w a)
    (h : w.step R a = some w') : BudgetInv budget w' where
  world := hw.world.step h
  limit := (maxBatchTokens_step h).trans hw.limit
  fresh := fun _ hs => hw.fresh_step h hs
  packed := hw.packed_step hrows h

/-- **`max_batch_tokens` bounds the batch as it was when its newest row joined.**  In every run
whose runner returns one result a row, at every call of `execute` on two or more rows: the
tokens of the batch, less for each row what the newest row has generated since it was
admitted, are within the budget.  At the first call with a new row that is all of them. -/
theorem batch_tokens_at_admission {m t : ℤ} {r : ρ} {acts : List Act}
    (h : run (World.step R) (World.init m t r) acts = some w)
    (hrows : Along (World.step R) OneResultPerRow (World.init m t r) acts)
    (hstart : w.step R (.loop .iterate) = some w') (hpc : w'.loop.pc = .executing)
    (htwo : 2 ≤ w'.loop.batch.length) : ∃ newest ∈ w'.loop.batch.getLast?,
    (w'.sched.total w'.loop.batch : ℤ)
      ≤ t + w'.loop.batch.length * (w'.sched.seqs newest).outputIds.length := by
  have hw : BudgetInv t w := run_invariant_along (BudgetInv t)
    (fun hu ha hstep => hu.step ha hstep) (BudgetInv.init m t r) hrows h
  have hrow : OneResultPerRow w (.loop .iterate) := trivial
  have hw' : BudgetInv t w' := hw.step hrow hstart
  have hbatch : w'.sched.unfinishedRunning = w'.loop.batch := by
    obtain ⟨-, hsame, -⟩ := tickStart_of_step hstart hpc
    rw [Scheduler.unfinishedRunning, hw'.world.executing hpc, List.filter_eq_self, hsame]
    intro s hs
    have hlive : (w.sched.seqs s).isFinished = false :=
      Scheduler.isFinished_of_mem_schedule hw.world.fifo.waiting_live hs
    have hstep : w'.sched.seqs s = w.sched.seqs s := step_seqs hw.world hstart s
    rw [hstep, hlive]
    rfl
  have hpacked := hw'.packed
  rw [hbatch] at hpacked
  obtain ⟨before, newest, hsplit⟩ := List.eq_nil_or_concat' w'.loop.batch |>.resolve_left
    (List.length_pos_iff.mp (by omega))
  have hne : before ≠ [] := by
    rintro rfl
    rw [hsplit] at htwo
    simp at htwo
  have hbound := hpacked.fits before newest [] hsplit hne
  refine ⟨newest, by simp [hsplit], ?_⟩
  rw [← hsplit] at hbound
  rw [total_cast]
  have hjoined : joined w'.sched.seqs newest w'.loop.batch
      = (w'.loop.batch.map fun s => ((w'.sched.seqs s).len : ℤ)).sum
        - w'.loop.batch.length * (w'.sched.seqs newest).outputIds.length := by
    exact joined_eq ..
  omega

/-- A budget of 2 that two prompts of one token fill: after a tick the batch has 4 tokens. -/
theorem batch_tokens_at_admission_second_tick :
    let acts : List Act := [.add 0 ⟨[1], 4, 0, none, ∅⟩, .add 1 ⟨[2], 4, 0, none, ∅⟩,
      .loop .iterate, .loop (.tickEnd [some 5, some 6])]
    ∃ w w', run (World.step mockRunner) (World.init 8 2 ()) acts = some w ∧
      w.step mockRunner (.loop .iterate) = some w' ∧
      w'.sched.total w'.loop.batch = 4 ∧
      ∃ newest ∈ w'.loop.batch.getLast?, (w'.sched.total w'.loop.batch : ℤ)
        ≤ 2 + w'.loop.batch.length * (w'.sched.seqs newest).outputIds.length := by
  intro acts
  have h := run_eq_runD (show
    (run (World.step mockRunner) (World.init 8 2 ()) acts).isSome = true by decide)
  have hstart := (Option.some_get (show ((runD (World.step mockRunner) (World.init 8 2 ())
    acts).step mockRunner (.loop .iterate)).isSome = true by decide)).symm
  exact ⟨_, _, h, hstart, by decide,
    batch_tokens_at_admission h (by decide) hstart (by decide) (by decide)⟩

/-- Two prompts of three tokens, within a budget of 6: at the second call of `execute` the batch
has 8 tokens. -/
theorem batch_outgrows_the_budget :
    let acts : List Act := [.add 0 ⟨[1, 2, 3], 4, 0, none, ∅⟩, .add 1 ⟨[4, 5, 6], 4, 0, none, ∅⟩,
      .loop .iterate, .loop (.tickEnd [some 0, some 0]), .loop .iterate]
    ∃ w, run (World.step mockRunner) (World.init 8 6 ()) acts = some w ∧
      w.loop.pc = .executing ∧ w.loop.batch.length = 2 ∧ w.sched.maxBatchTokens = 6 ∧
      w.sched.total w.loop.batch = 8 := by
  intro acts
  have h := run_eq_runD (show
    (run (World.step mockRunner) (World.init 8 6 ()) acts).isSome = true by decide)
  exact ⟨_, h, by decide, by decide, by decide, by decide⟩

end Loop

end NanoKube
