import Mathlib.Algebra.BigOperators.Ring.Finset
import Mathlib.Algebra.Order.BigOperators.Group.List
import Mathlib.Algebra.Order.Group.Nat
import NanoKube.Admission
import NanoKube.RunLoop

/-!
# The loop makes progress

A request waits behind a bounded amount of work, whatever arrives after it.  The measure
is the tokens still due to the sequences up to it in arrival order: no event raises it,
and every tick lowers it, because a batch always holds the first unfinished arrival.  A
row is charged for its token when the tick begins, so that a client who disconnects
during the tick does not change the account.

The loop also gives the event loop its turn: an empty batch means that there is no work
— as long as the batch size lets anything run at all.

## Main definitions

* `Sequence.left` — the tokens a sequence may still be given.
* `World.due`, `World.potential` — the tokens due, less those the runner is working on.
* `Scheduler.remaining`, `Scheduler.ahead` — the work in the deques, and before a request.
* `Yields` — the loop reaches an `await` after finitely many iterations.

## Main results

* `potential_step` — **every tick lowers the measure**, and nothing raises it.
* `waiting_is_bounded` — a waiting request is served after as many ticks as there is work
  ahead of it, and the loop runs out of work when nothing more arrives.
* `can_be_served` — as long as the loop is not over, these ticks can happen.
* `yields_iff` — the loop yields, exactly when a request can run or none waits.
-/

namespace NanoKube

namespace Scheduler

/-- The tokens some sequences may still be given. -/
def remaining (σ : Scheduler) (l : List SeqId) : ℤ :=
  (l.map fun s => (σ.seqs s).maxNewTokens - (σ.seqs s).outputIds.length).sum

/-- The unfinished members of `running`, and what waits before a sequence. -/
def ahead (σ : Scheduler) (s : SeqId) : List SeqId :=
  σ.unfinishedRunning ++ σ.waiting.takeWhile fun t => decide (t ≠ s)

/-- The batch is empty only when nothing is left, if there is a slot at all. -/
theorem hasWork_schedule {σ : Scheduler} (hm : 1 ≤ σ.maxBatchSize) (h : σ.schedule.2 = []) :
    σ.schedule.1.hasWork = false := by
  rw [hasWork_eq_false]
  refine ⟨?_, h⟩
  cases hwait : σ.schedule.1.waiting with
  | nil => rfl
  | cons head rest =>
    exfalso
    have hblocked : σ.Blocked σ.schedule.2 head :=
      σ.blocked_admitLoop σ.waiting σ.unfinishedRunning head (congrArg List.head? hwait)
    rcases hblocked with hsize | ⟨hne, -⟩
    · rw [h] at hsize
      simp at hsize
      omega
    · exact hne h

end Scheduler

/-! ### The tokens left to a sequence -/

namespace Sequence

variable {q : Sequence}

/-- The tokens the sequence may still be given. -/
def left (q : Sequence) : ℕ :=
  if q.isFinished then 0 else (q.maxNewTokens - q.outputIds.length).toNat

/-- An unfinished sequence has not used up its budget. -/
def InBudget (q : Sequence) : Prop :=
  q.isFinished = false → (q.outputIds.length : ℤ) < q.maxNewTokens

theorem left_of_isFinished (h : q.isFinished = true) : q.left = 0 := by
  rw [left, if_pos h]

theorem left_of_not_isFinished (h : q.isFinished = false) :
    q.left = (q.maxNewTokens - q.outputIds.length).toNat := by
  rw [left, h]
  rfl

theorem InBudget.left_pos (hq : q.InBudget) (h : q.isFinished = false) : 0 < q.left := by
  have hlt := hq h
  rw [left_of_not_isFinished h]
  omega

theorem InBudget.left_eq (hq : q.InBudget) (h : q.isFinished = false) :
    (q.left : ℤ) = q.maxNewTokens - q.outputIds.length := by
  have hlt := hq h
  rw [left_of_not_isFinished h]
  omega

/-- A token that does not finish the sequence leaves some budget. -/
theorem inBudget_record (q : Sequence) (t : Token) : (q.record t).InBudget := by
  intro hf
  have hnone : (q.record t).finishReason = none := by simpa [isFinished] using hf
  rw [record_finishReason] at hnone
  split at hnone
  · cases hnone
  · split at hnone
    · cases hnone
    · next hbudget =>
      rw [record_outputIds, record_toRequest, List.length_append, List.length_singleton]
      push_cast
      omega

theorem inBudget_of_isFinished (h : q.isFinished = true) : q.InBudget := by
  intro hf
  rw [h] at hf
  cases hf

theorem inBudget_settle (req : Request) : ({ toRequest := req } : Sequence).settle.InBudget := by
  unfold settle
  split
  · exact inBudget_of_isFinished rfl
  · next hbudget =>
    intro _
    show ((0 : ℕ) : ℤ) < req.maxNewTokens
    have hpos : ¬ req.maxNewTokens ≤ 0 := hbudget
    omega

/-- A token uses up one. -/
theorem left_record_le (q : Sequence) (t : Token) : (q.record t).left ≤ q.left - 1 := by
  cases hf : (q.record t).isFinished with
  | true =>
    rw [left_of_isFinished hf]
    exact Nat.zero_le _
  | false =>
    have hlive : q.isFinished = false := by
      by_contra hq
      rw [isFinished_record (by simpa using hq)] at hf
      cases hf
    rw [left_of_not_isFinished hf, left_of_not_isFinished hlive, record_outputIds, record_toRequest,
      List.length_append, List.length_singleton]
    push_cast
    omega

theorem left_abort_le (q : Sequence) (r : FinishReason) : (q.abort r).left = 0 :=
  left_of_isFinished (abort_isFinished q r)

end Sequence

/-! ### The measure -/

section Measure

variable {ρ : Type*} {R : ModelRunner ρ} {w w' : World ρ} {a : Act} {s : SeqId}

namespace World

/-- The tokens due to a sequence, less the one the runner is working on. -/
def due (w : World ρ) (s : SeqId) : ℕ :=
  if w.loop.pc = .executing ∧ s ∈ w.loop.batch then (w.sched.seqs s).left - 1
  else (w.sched.seqs s).left

/-- The tokens due to some sequences. -/
def potential (l : List SeqId) (w : World ρ) : ℕ := (l.map w.due).sum

/-- One while the runner executes. -/
def ticking (w : World ρ) : ℕ := if w.loop.pc = .executing then 1 else 0

theorem due_of_not_executing (h : w.loop.pc ≠ .executing) (s : SeqId) :
    w.due s = (w.sched.seqs s).left := if_neg fun hc => h hc.1

theorem due_le_left (w : World ρ) (s : SeqId) : w.due s ≤ (w.sched.seqs s).left := by
  unfold due
  split
  · exact Nat.sub_le _ _
  · exact le_rfl

end World

/-- The loop's invariant, with every arrival in its budget. -/
structure Paced (w : World ρ) : Prop where
  world : WorldInv w
  inBudget : ∀ s ∈ w.arrived, (w.sched.seqs s).InBudget

theorem Paced.init (m t : ℤ) (r : ρ) : Paced (World.init m t r) where
  world := WorldInv.init m t r
  inBudget := by intro s hs; cases hs

theorem Paced.step (hw : Paced w) (h : w.step R a = some w') : Paced w' := by
  refine ⟨hw.world.step h, ?_⟩
  intro s hs
  by_cases hold : s ∈ w.arrived
  · have htouch := touch_of_step hw.world.fifo h hold
    generalize w'.sched.seqs s = q at htouch ⊢
    cases htouch with
    | same => exact hw.inBudget s hold
    | record t hpc hrow => exact Sequence.inBudget_record _ t
    | abort r hr => exact Sequence.inBudget_of_isFinished (Sequence.abort_isFinished _ r)
    | fail ha hpc hmem => exact Sequence.inBudget_of_isFinished (Sequence.fail_isFinished _)
  · obtain ⟨req, -, hseq⟩ := new_arrival hw.world.fifo h hold hs
    rw [hseq]
    exact Sequence.inBudget_settle req

theorem paced_reachable {m t : ℤ} {r : ρ} {acts : List Act}
    (h : run (World.step R) (World.init m t r) acts = some w) : Paced w :=
  run_invariant Paced (fun hw hs => Paced.step hw hs) (Paced.init m t r) h

/-- `fail_all` leaves nothing to generate. -/
theorem isFinished_failAll (hx : Fifo w.api) (hs : s ∈ w.arrived) :
    (w.sched.failAll.1.seqs s).isFinished = true := by
  by_contra hf
  rw [Bool.not_eq_true] at hf
  have hcells := hx.failAll.complete s hs hf
  exact absurd hcells (List.not_mem_nil)

/-- A tick uses up one token of every row, or drops it. -/
theorem left_tickEnd_le {nextIds : List (Option Token)} (hx : Fifo w.api)
    (hrows : nextIds.length = w.loop.batch.length) (hs : s ∈ w.loop.batch) :
    ((w.sched.tickEnd w.loop.batch nextIds).seqs s).left ≤ (w.sched.seqs s).left - 1 := by
  rcases row_tickEnd hx hrows hs with ⟨t, ht⟩ | hnone
  · rw [ht]
    exact Sequence.left_record_le _ t
  · rw [hnone, Sequence.left_abort_le]
    exact Nat.zero_le _

/-- **Nothing raises what is due to an arrival.** -/
theorem due_step_le (hx : Fifo w.api) (hrows : OneResultPerRow w a) (h : w.step R a = some w')
    (hs : s ∈ w.arrived) : w'.due s ≤ w.due s := by
  cases fires_of_step h with
  | @add seq req hnew =>
    have hne : s ≠ seq := fun he => hnew (he ▸ hs)
    simp [World.due, Scheduler.submit_seqs, hne]
  | @abort seq hold =>
    by_cases hse : s = seq
    · simp [World.due, Scheduler.abort_seqs, hse, Sequence.left_abort_le]
    · simp [World.due, Scheduler.abort_seqs, hse]
  | doze hpc hwork => simp [World.due, hpc]
  | drain hpc hwork hbatch => simp [World.due, hpc]
  | tickStart hpc hwork hbatch =>
    rw [World.due_of_not_executing (w := w) (by simp [hpc])]
    exact World.due_le_left _ s
  | wake hpc => simp [World.due, hpc]
  | @tickEnd nextIds hpc =>
    rw [World.due_of_not_executing (by simp)]
    unfold World.due
    by_cases hmem : s ∈ w.loop.batch
    · rw [if_pos ⟨hpc, hmem⟩]
      exact left_tickEnd_le hx hrows hmem
    · rw [if_neg fun hc => hmem hc.2]
      have hnone : (w.loop.batch.zip nextIds).lookup s = none := by
        rw [List.lookup_eq_none_iff]
        rintro ⟨t, o⟩ hrow
        have hne : s ≠ t := fun he => hmem (he ▸ (List.of_mem_zip hrow).1)
        simpa using hne
      have hseq := seqs_of_step hx h s
      rw [World.seqAfter, hnone] at hseq
      rw [hseq]
  | raise hpc => simp [World.due, Sequence.left_of_isFinished (isFinished_failAll hx hs)]
  | cancelSleep hpc => simp [World.due, hpc]
  | cancelTick hpc => simp [World.due, Sequence.left_of_isFinished (isFinished_failAll hx hs)]

/-! ### A tick lowers it -/

/-- **The first unfinished arrival is in every batch**: the batch is a beginning of the unfinished
arrivals. -/
theorem exists_mem_schedule (hx : Fifo w.api) {l rest : List SeqId}
    (harr : w.arrived = l ++ rest) (hbatch : w.sched.schedule.2 ≠ []) (hs : s ∈ l)
    (hlive : (w.sched.seqs s).isFinished = false) : ∃ u ∈ l, u ∈ w.sched.schedule.2 := by
  obtain ⟨admitted, hwait, hsched, -⟩ := w.sched.schedule_spec
  have hall : w.sched.schedule.2 ++ w.sched.schedule.1.waiting
      = l.filter w.api.live ++ rest.filter w.api.live := by
    rw [hsched, List.append_assoc, ← hwait, ← List.filter_append, ← harr]
    exact hx.live_eq
  have hmem : s ∈ l.filter w.api.live :=
    List.mem_filter.mpr ⟨hs, by simp [Api.live, World.api, hlive]⟩
  obtain ⟨u, l', hl⟩ := List.exists_cons_of_ne_nil (List.ne_nil_of_mem hmem)
  obtain ⟨v, batch, hb⟩ := List.exists_cons_of_ne_nil hbatch
  rw [hl, hb, List.cons_append, List.cons_append, List.cons.injEq] at hall
  refine ⟨u, (List.mem_filter.mp (hl ▸ List.mem_cons_self)).1, ?_⟩
  rw [hb, hall.1]
  exact List.mem_cons_self

/-- The event ends a tick. -/
def Act.isTickEnd : Act → Bool
  | .loop (.tickEnd _) => true
  | _ => false

/-- The event is an iteration of the loop. -/
def Act.isIterate : Act → Bool
  | .loop .iterate => true
  | _ => false

theorem potential_step_le (hx : Fifo w.api) (hrows : OneResultPerRow w a)
    (h : w.step R a = some w') {l : List SeqId} (hl : ∀ s ∈ l, s ∈ w.arrived) :
    w'.potential l ≤ w.potential l :=
  List.sum_le_sum fun s hs => due_step_le hx hrows h (hl s hs)

/-- The beginning of a tick charges each row for its token. -/
theorem potential_tickStart (hw : Paced w) (h : w.step R (.loop .iterate) = some w')
    (hpc : w'.loop.pc = .executing) {l rest : List SeqId} (harr : w.arrived = l ++ rest)
    (hs : s ∈ l) (hlive : (w.sched.seqs s).isFinished = false) :
    w'.potential l + 1 ≤ w.potential l := by
  have hx := hw.world.fifo
  have hmem : ∀ u ∈ l, u ∈ w.arrived := fun u hu => harr ▸ List.mem_append_left _ hu
  obtain ⟨htop, hbatch, hne⟩ := tickStart_of_step h hpc
  obtain ⟨u, hu, hrow⟩ := exists_mem_schedule hx harr hne hs hlive
  have hulive := Scheduler.isFinished_of_mem_schedule hx.waiting_live hrow
  have hpos := (hw.inBudget u (hmem u hu)).left_pos hulive
  have hrows : OneResultPerRow w (.loop .iterate) := trivial
  apply Nat.succ_le_of_lt
  apply List.sum_lt_sum
  · exact fun v hv => due_step_le hx hrows h (hmem v hv)
  · refine ⟨u, hu, ?_⟩
    have hseq : w'.sched.seqs u = w.sched.seqs u := step_seqs hw.world h u
    rw [World.due_of_not_executing (w := w) (by simp [htop]), World.due,
      if_pos ⟨hpc, hbatch ▸ hrow⟩, hseq]
    exact Nat.sub_lt hpos Nat.one_pos

/-- A tick begins, or at most the one that was on ends. -/
theorem ticking_step (h : w.step R a = some w') :
    (a = .loop .iterate ∧ w'.loop.pc = .executing ∧ w'.ticking = 1 ∧ w.ticking = 0) ∨
      w'.ticking + (if a.isTickEnd then 1 else 0) ≤ w.ticking := by
  cases fires_of_step h with
  | tickStart hpc hwork hbatch => exact Or.inl ⟨rfl, rfl, rfl, by simp [World.ticking, hpc]⟩
  | tickEnd hpc => exact Or.inr (by simp [World.ticking, Act.isTickEnd, hpc])
  | add hnew => exact Or.inr le_rfl
  | abort hold => exact Or.inr le_rfl
  | doze hpc hwork => exact Or.inr (by simp [World.ticking, Act.isTickEnd])
  | drain hpc hwork hbatch => exact Or.inr (by simp [World.ticking, Act.isTickEnd])
  | wake hpc => exact Or.inr (by simp [World.ticking, Act.isTickEnd])
  | raise hpc => exact Or.inr (by simp [World.ticking, Act.isTickEnd])
  | cancelSleep hpc => exact Or.inr (by simp [World.ticking, Act.isTickEnd])
  | cancelTick hpc => exact Or.inr (by simp [World.ticking, Act.isTickEnd])

/-- **Every tick lowers the measure**: the events up to the end of a tick lower it by one, as
long as it counts an unfinished sequence. -/
theorem potential_step (hw : Paced w) (hrows : OneResultPerRow w a) (h : w.step R a = some w')
    {l rest : List SeqId} (harr : w.arrived = l ++ rest) (hs : s ∈ l)
    (hlive : (w.sched.seqs s).isFinished = false) :
    (w'.potential l + w'.ticking) + (if a.isTickEnd then 1 else 0)
      ≤ w.potential l + w.ticking := by
  rcases ticking_step h with ⟨rfl, hpc, hone, hzero⟩ | hticking
  · have hlt := potential_tickStart hw h hpc harr hs hlive
    simp only [Act.isTickEnd, Bool.false_eq_true, if_false]
    omega
  · have hle := potential_step_le hw.world.fifo hrows h
      (fun u hu => harr ▸ List.mem_append_left rest hu : ∀ u ∈ l, u ∈ w.arrived)
    omega

/-! ### Waiting -/

/-- **A waiting request keeps waiting, or is in the batch**, unless it is aborted or the loop
dies. -/
theorem waiting_step (hx : Fifo w.api) (h : w.step R a = some w') (hs : s ∈ w.sched.waiting)
    (ha : a ≠ .abort s) :
    s ∈ w'.sched.waiting ∨ (w'.loop.pc = .executing ∧ s ∈ w'.loop.batch) ∨ w'.loop.pc = .done := by
  obtain ⟨admitted, hwait, hbatch, -⟩ := w.sched.schedule_spec
  cases fires_of_step h with
  | @add seq req hnew =>
    apply Or.inl
    rw [Scheduler.submit_waiting]
    split
    · exact hs
    · exact List.mem_append_left _ hs
  | @abort seq hold =>
    apply Or.inl
    have hne : s ≠ seq := fun he => ha (he ▸ rfl)
    rw [Scheduler.abort_waiting]
    split
    · exact hs
    · exact (List.mem_erase_of_ne hne).mpr hs
  | drain hpc hwork hnil =>
    rw [hnil] at hbatch
    have hadm : admitted = [] := (List.append_eq_nil_iff.mp hbatch.symm).2
    rw [hadm, List.nil_append] at hwait
    exact Or.inl (hwait ▸ hs)
  | tickStart hpc hwork hne =>
    rw [hwait, List.mem_append] at hs
    rcases hs with hs | hs
    · exact Or.inr (Or.inl ⟨rfl, hbatch ▸ List.mem_append_right _ hs⟩)
    · exact Or.inl hs
  | tickEnd hpc =>
    apply Or.inl
    apply Scheduler.mem_waiting_tickEnd hs
    exact fun hmem => hx.batch_waiting s hmem hs
  | raise hpc => exact Or.inr (Or.inr rfl)
  | cancelSleep hpc => exact Or.inr (Or.inr rfl)
  | cancelTick hpc => exact Or.inr (Or.inr rfl)
  | _ => exact Or.inl hs

/-- What is ahead of a waiting request: the unfinished arrivals before it. -/
theorem ahead_eq (hx : Fifo w.api) (hs : s ∈ w.sched.waiting) {before after : List SeqId}
    (harr : w.arrived = before ++ s :: after) :
    w.sched.ahead s = before.filter w.api.live := by
  have hself : w.api.live s = true := by
    simpa [Api.live] using hx.waiting_live s hs
  have hlive : w.sched.unfinishedRunning ++ w.sched.waiting
      = before.filter w.api.live ++ s :: after.filter w.api.live := by
    have h := hx.live_eq
    change _ = w.arrived.filter w.api.live at h
    rw [harr, List.filter_append, List.filter_cons_of_pos hself] at h
    exact h
  -- both sides name `s` once: what stands before it is the same
  have hnd : (before.filter w.api.live ++ s :: after.filter w.api.live).Nodup := by
    rw [← hlive]
    exact List.Nodup.sublist (List.filter_sublist.append (List.Sublist.refl _)) hx.nodup_queues
  have hbefore : s ∉ before.filter w.api.live :=
    fun h => (List.nodup_append.mp hnd).2.2 s h s List.mem_cons_self rfl
  have hrun : s ∉ w.sched.unfinishedRunning := by
    intro h
    exact (List.nodup_append.mp hx.nodup_queues).2.2 s (List.mem_filter.mp h).1 s hs rfl
  have htake := congrArg (List.takeWhile fun t => decide (t ≠ s)) hlive
  rw [List.takeWhile_append_of_pos, List.takeWhile_append_of_pos] at htake
  · simpa [Scheduler.ahead] using htake
  · intro t ht
    simpa using fun he : t = s => hbefore (he ▸ ht)
  · intro t ht
    simpa using fun he : t = s => hrun (he ▸ ht)

/-- The work in some deque, as the sequences count it. -/
theorem remaining_filter (hw : Paced w) {l : List SeqId} (hl : ∀ s ∈ l, s ∈ w.arrived) :
    w.sched.remaining (l.filter w.api.live) = ((l.map fun s => (w.sched.seqs s).left).sum : ℕ) := by
  induction l with
  | nil => rfl
  | cons s l ih =>
    rw [List.forall_mem_cons] at hl
    have ih := ih hl.2
    cases hf : (w.sched.seqs s).isFinished with
    | true =>
      have hno : ¬ w.api.live s = true := by simp [Api.live, World.api, hf]
      rw [List.filter_cons_of_neg hno, ih, List.map_cons, List.sum_cons,
        Sequence.left_of_isFinished hf, Nat.zero_add]
    | false =>
      have hyes : w.api.live s = true := by simp [Api.live, World.api, hf]
      have hleft := (hw.inBudget s hl.1).left_eq hf
      rw [List.filter_cons_of_pos hyes, List.map_cons, List.sum_cons, Int.natCast_add, ← ih, hleft]
      rfl

/-- The ticks of a run that both begin and end in it, if every row gets its result. -/
def World.fullTicks (w : World ρ) (acts : List Act) : ℕ :=
  acts.countP Act.isTickEnd - w.ticking

/-- `s` is a row of the batch that the runner executes. -/
def World.Serves (s : SeqId) (w : World ρ) : Prop := w.loop.pc = .executing ∧ s ∈ w.loop.batch

/-- **While a request waits, every tick costs what is ahead of it**: a run passes through a tick
with `s` in the batch, or ends no more ticks than the measure of the arrivals before `s` has
lost. -/
theorem waiting_run {before after : List SeqId} {acts : List Act} (hw : Paced w)
    (harr : w.arrived = before ++ s :: after) (hs : s ∈ w.sched.waiting)
    (h : run (World.step R) w acts = some w')
    (hrows : Along (World.step R) OneResultPerRow w acts) (habort : Act.abort s ∉ acts) :
    Visits (World.step R) (World.Serves s) w acts ∨
      ((Paced w' ∧ (∃ rest, w'.arrived = before ++ s :: rest) ∧
          (s ∈ w'.sched.waiting ∨ w'.loop.pc = .done)) ∧
        (w'.potential before + w'.ticking) + acts.countP Act.isTickEnd
          ≤ w.potential before + w.ticking) := by
  have hok := hrows.and_forall (fun a => a ≠ .abort s) fun a ha he => habort (he ▸ ha)
  refine run_potential (World.Serves s)
    (fun u => Paced u ∧ (∃ rest, u.arrived = before ++ s :: rest) ∧
      (s ∈ u.sched.waiting ∨ u.loop.pc = .done))
    (fun u => u.potential before + u.ticking) Act.isTickEnd ?_ ⟨hw, ⟨after, harr⟩, Or.inl hs⟩ hok h
  rintro u a u' ⟨hu, ⟨rest, harr⟩, hwait⟩ ⟨hrow, ha⟩ hstep
  have hx := hu.world.fifo
  by_cases hserves : u'.Serves s
  · exact Or.inl hserves
  · refine Or.inr ⟨⟨hu.step hstep, ?_, ?_⟩, ?_⟩
    · obtain ⟨more, hmore⟩ := arrived_prefix_step hstep
      exact ⟨rest ++ more, by rw [← hmore, harr]; simp⟩
    · rcases hwait with hwait | hdone
      · rcases waiting_step hx hstep hwait ha with hs' | hin | hdone
        · exact Or.inl hs'
        · exact absurd hin hserves
        · exact Or.inr hdone
      · exact Or.inr (done_step hstep hdone)
    · have hle : u'.potential before ≤ u.potential before :=
        potential_step_le hx hrow hstep fun v hv => harr ▸ List.mem_append_left _ hv
      rcases ticking_step hstep with ⟨rfl, hpc, hone, hzero⟩ | hticking
      · -- a tick begins without `s`: an unfinished arrival before `s` is in the batch
        obtain ⟨htop, hbatch, hne⟩ := tickStart_of_step hstep hpc
        have hs : s ∈ u.sched.waiting :=
          hwait.resolve_right fun hdone => by cases htop.symm.trans hdone
        have harr' : u.arrived = (before ++ [s]) ++ rest := by simpa using harr
        obtain ⟨v, hv, hrow⟩ := exists_mem_schedule hx harr' hne
          (List.mem_append_right _ List.mem_cons_self) (hx.waiting_live s hs)
        have hvs : v ≠ s := fun he => hserves ⟨hpc, hbatch ▸ he ▸ hrow⟩
        have hbefore : v ∈ before := by simpa [hvs] using hv
        have hlive := Scheduler.isFinished_of_mem_schedule hx.waiting_live hrow
        have hlt := potential_tickStart hu hstep hpc harr hbefore hlive
        simp only [Act.isTickEnd, Bool.false_eq_true, if_false]
        omega
      · omega

/-- **A request is finished after as many ticks as there are tokens due** to it and to the arrivals
before it. -/
theorem finished_run {l after : List SeqId} {acts : List Act} (hw : Paced w)
    (harr : w.arrived = l ++ after) (hs : s ∈ l) (h : run (World.step R) w acts = some w')
    (hrows : Along (World.step R) OneResultPerRow w acts)
    (hticks : w.potential l + w.ticking ≤ acts.countP Act.isTickEnd) :
    (w'.sched.seqs s).isFinished = true := by
  have hmem : s ∈ w.arrived := harr ▸ List.mem_append_left _ hs
  have key := run_potential (fun u => (u.sched.seqs s).isFinished = true)
    (fun u => Paced u ∧ (∃ rest, u.arrived = l ++ rest))
    (fun u => u.potential l + u.ticking) Act.isTickEnd ?_ ⟨hw, after, harr⟩ hrows h
  · rcases key with ⟨begun, rest, u, rfl, hu, hfin⟩ | ⟨⟨hw', rest, harr'⟩, hle⟩
    · have hinv : WorldInv u ∧ s ∈ u.arrived :=
        run_invariant (fun u => WorldInv u ∧ s ∈ u.arrived)
          (fun hu hstep => ⟨hu.1.step hstep, arrived_subset_of_step hstep hu.2⟩)
          ⟨hw.world, hmem⟩ hu
      rw [run_append, hu] at h
      exact isFinished_world_run hinv.1 hinv.2 hfin h
    · by_contra hlive
      rw [Bool.not_eq_true] at hlive
      have hpos : 0 < w'.potential l + w'.ticking := by
        by_cases hpc : w'.loop.pc = .executing
        · simp [World.ticking, hpc]
        · have hmem' : s ∈ w'.arrived := harr' ▸ List.mem_append_left _ hs
          have hleft := (hw'.inBudget s hmem').left_pos hlive
          rw [← World.due_of_not_executing hpc] at hleft
          have hsum : w'.due s ≤ w'.potential l := List.le_sum_of_mem (List.mem_map_of_mem hs)
          omega
      omega
  · rintro u a u' ⟨hu, rest, harr⟩ hrow hstep
    cases hlive : (u.sched.seqs s).isFinished with
    | true =>
      exact Or.inl (isFinished_step hu.world.fifo hstep (harr ▸ List.mem_append_left _ hs) hlive)
    | false =>
      obtain ⟨more, hmore⟩ := arrived_prefix_step hstep
      exact Or.inr ⟨⟨hu.step hstep, rest ++ more, by rw [← hmore, harr]; simp⟩,
        potential_step hu hrow hstep harr hs hlive⟩

/-- **Without arrivals, every iteration costs what is left**: a run comes to a state without work,
or iterates no more often than the measure of all arrivals has lost. -/
theorem drained_run {acts : List Act} (hw : Paced w) (hm : 1 ≤ w.sched.maxBatchSize)
    (h : run (World.step R) w acts = some w')
    (hrows : Along (World.step R) OneResultPerRow w acts)
    (hadd : ∀ seq req, Act.add seq req ∉ acts) :
    Visits (World.step R) (fun u => u.sched.hasWork = false) w acts ∨
      acts.countP Act.isIterate ≤ w.potential w.arrived := by
  have hok := hrows.and_forall (fun a => ∀ seq req, a ≠ .add seq req)
    fun a ha seq req he => hadd seq req (he ▸ ha)
  have key := run_potential (fun u => u.sched.hasWork = false)
    (fun u => Paced u ∧ 1 ≤ u.sched.maxBatchSize) (fun u => u.potential u.arrived)
    Act.isIterate ?_ ⟨hw, hm⟩ hok h
  · rcases key with hv | ⟨-, hle⟩
    · exact Or.inl hv
    · exact Or.inr (by omega)
  · rintro u a u' ⟨hu, hm⟩ ⟨hrow, ha⟩ hstep
    have hx := hu.world.fifo
    have harr := arrived_eq_of_step hstep ha
    have hinv : Paced u' ∧ 1 ≤ u'.sched.maxBatchSize :=
      ⟨hu.step hstep, by rw [maxBatchSize_step hx hstep]; exact hm⟩
    by_cases hiter : a = .loop .iterate
    · subst hiter
      by_cases hpc : u'.loop.pc = .executing
      · obtain ⟨-, -, hne⟩ := tickStart_of_step hstep hpc
        obtain ⟨v, hv⟩ := List.exists_mem_of_ne_nil _ hne
        have hlive := Scheduler.isFinished_of_mem_schedule hx.waiting_live hv
        have hmem : v ∈ u.arrived := hx.schedule.batch_sublist.subset hv
        have hlt := potential_tickStart hu hstep hpc (List.append_nil _).symm hmem hlive
        refine Or.inr ⟨hinv, ?_⟩
        rw [harr]
        exact hlt
      · apply Or.inl
        cases fires_of_step hstep with
        | doze htop hwork => exact hwork
        | drain htop hwork hbatch => exact Scheduler.hasWork_schedule hm hbatch
        | tickStart htop hwork hbatch => exact absurd rfl hpc
    · have hno : a.isIterate = false := by
        unfold Act.isIterate
        split
        · exact absurd rfl hiter
        · rfl
      refine Or.inr ⟨hinv, ?_⟩
      rw [hno, harr]
      exact potential_step_le hx hrow hstep fun s hs => hs

/-! ### The ticks can happen -/

/-- The event is a turn of the loop: an iteration, the end of a sleep, or the end of a tick. -/
def Act.isTurn : Act → Bool
  | .loop .iterate | .loop .wake | .loop (.tickEnd _) => true
  | .loop .raise | .loop .cancel | .add .. | .abort _ => false

/-- **A loop that is not over has a turn to take**, with one result a row at the end of a tick. -/
theorem exists_turn (hpc : w.loop.pc ≠ .done) :
    ∃ a w', (OneResultPerRow w a ∧ a.isTurn = true) ∧ w.step R a = some w' := by
  cases h : w.loop.pc with
  | top =>
    exact ⟨.loop .iterate, _, ⟨trivial, rfl⟩, by simp only [World.step, LoopTask.step, h]; rfl⟩
  | sleeping =>
    exact ⟨.loop .wake, _, ⟨trivial, rfl⟩, by simp only [World.step, LoopTask.step, h]; rfl⟩
  | executing =>
    have hlength : (List.replicate w.loop.batch.length (none : Option Token)).length
        = w.loop.batch.length := List.length_replicate
    exact ⟨.loop (.tickEnd _), _, ⟨hlength, rfl⟩, by simp only [World.step, LoopTask.step, h]; rfl⟩
  | done => exact absurd h hpc

/-- How many turns the loop takes at most to begin a tick, or to end one. -/
def LoopTask.phase (l : LoopTask ρ) : ℕ :=
  match l.pc with
  | .sleeping | .executing => 2
  | .top => 1
  | .done => 0

/-- **A turn of a loop that has work** begins a tick, which costs a token, or is followed by an
iteration, which does. -/
theorem turn_lowers (hw : Paced w) (hm : 1 ≤ w.sched.maxBatchSize) {l rest : List SeqId}
    (harr : w.arrived = l ++ rest) (hs : s ∈ l) (hwait : s ∈ w.sched.waiting)
    (hrow : OneResultPerRow w a) (hturn : a.isTurn = true) (h : w.step R a = some w') :
    w'.loop.pc ≠ .done ∧
      3 * w'.potential l + w'.loop.phase < 3 * w.potential l + w.loop.phase := by
  have hx := hw.world.fifo
  have hwork : w.sched.hasWork = true := by
    simp [Scheduler.hasWork, List.ne_nil_of_mem hwait]
  have hle : w'.potential l ≤ w.potential l :=
    potential_step_le hx hrow h fun u hu => harr ▸ List.mem_append_left _ hu
  have hstart : a = .loop .iterate → w'.loop.pc = .executing →
      w'.potential l + 1 ≤ w.potential l := by
    rintro rfl hpc
    exact potential_tickStart hw h hpc harr hs (hx.waiting_live s hwait)
  generalize w'.potential l = left at hle hstart ⊢
  cases fires_of_step h with
  | doze htop hidle => cases hidle.symm.trans hwork
  | drain htop _ hbatch =>
    -- what waits is admitted before a batch is empty
    have hidle := Scheduler.hasWork_schedule hm hbatch
    rcases waiting_step hx h hwait (by simp) with hs' | ⟨hpc, -⟩ | hdone
    · have hnone : w.sched.schedule.1.waiting = [] := (Scheduler.hasWork_eq_false.mp hidle).1
      rw [hnone] at hs'
      cases hs'
    · cases htop.symm.trans hpc
    · cases htop.symm.trans hdone
  | tickStart htop _ hbatch =>
    have hlt := hstart rfl rfl
    refine ⟨by simp, ?_⟩
    simp only [LoopTask.phase, htop]
    omega
  | wake hpc =>
    refine ⟨by simp, ?_⟩
    simp only [LoopTask.phase, hpc]
    omega
  | tickEnd hpc =>
    refine ⟨by simp, ?_⟩
    simp only [LoopTask.phase, hpc]
    omega
  | add | abort | raise | cancelSleep | cancelTick => cases hturn

/-- **The ticks that are counted can happen.**  In every reachable state of a loop with at least one
slot that is not over: turns of the loop alone, with one result a row, bring a request that waits
into a batch. -/
theorem can_be_served {m t : ℤ} {r : ρ} {acts : List Act} (hm : 1 ≤ m)
    (h : run (World.step R) (World.init m t r) acts = some w) (hpc : w.loop.pc ≠ .done)
    (hs : s ∈ w.sched.waiting) :
    ∃ turns w', Along (World.step R) (fun u a => OneResultPerRow u a ∧ a.isTurn = true) w turns ∧
      run (World.step R) w turns = some w' ∧ w'.Serves s := by
  have hw := paced_reachable h
  have hmem : s ∈ w.arrived := hw.world.fifo.mem_arrived (List.mem_append_right _ hs)
  obtain ⟨l, hl⟩ : ∃ l, l = w.arrived := ⟨_, rfl⟩
  have hsize : 1 ≤ w.sched.maxBatchSize := by rwa [maxBatchSize_world h]
  have hprogress : ∀ {u : World ρ},
      (Paced u ∧ 1 ≤ u.sched.maxBatchSize ∧ ∃ rest, u.arrived = l ++ rest) ∧
        (u.Serves s ∨ s ∈ u.sched.waiting ∧ u.loop.pc ≠ .done) → ¬ u.Serves s →
      ∃ a u', (OneResultPerRow u a ∧ a.isTurn = true) ∧ u.step R a = some u' ∧
        ((Paced u' ∧ 1 ≤ u'.sched.maxBatchSize ∧ ∃ rest, u'.arrived = l ++ rest) ∧
          (u'.Serves s ∨ s ∈ u'.sched.waiting ∧ u'.loop.pc ≠ .done)) ∧
        3 * u'.potential l + u'.loop.phase < 3 * u.potential l + u.loop.phase := by
    rintro u ⟨⟨hu, hm, rest, harr⟩, hwait⟩ hno
    obtain ⟨hwait, hgoes⟩ := hwait.resolve_left hno
    obtain ⟨a, u', ⟨hrow, hturn⟩, hstep⟩ := exists_turn hgoes
    obtain ⟨hgoes', hlt⟩ := turn_lowers hu hm harr (hl ▸ hmem) hwait hrow hturn hstep
    have hx := hu.world.fifo
    have habort : a ≠ .abort s := by
      rintro rfl
      cases hturn
    refine ⟨a, u', ⟨hrow, hturn⟩, hstep, ⟨⟨hu.step hstep, ?_, ?_⟩, ?_⟩, hlt⟩
    · rwa [maxBatchSize_step hx hstep]
    · obtain ⟨more, hmore⟩ := arrived_prefix_step hstep
      exact ⟨rest ++ more, by rw [← hmore, harr, List.append_assoc]⟩
    · rcases waiting_step hx hstep hwait habort with hs' | hserves | hdone
      · exact Or.inr ⟨hs', hgoes'⟩
      · exact Or.inl hserves
      · exact absurd hdone hgoes'
  obtain ⟨turns, w', halong, hrun, -, hserves⟩ := run_reaches _ _ (World.Serves s)
    (fun u => 3 * u.potential l + u.loop.phase) hprogress
    ⟨⟨hw, hsize, [], by rw [List.append_nil, hl]⟩, Or.inr ⟨hs, hpc⟩⟩
  exact ⟨turns, w', halong, hrun, hserves⟩

/-! ### The bound -/

theorem potential_le_remaining (hw : Paced w) {l : List SeqId} (hl : ∀ s ∈ l, s ∈ w.arrived) :
    (w.potential l : ℤ) ≤ w.sched.remaining (l.filter w.api.live) := by
  rw [remaining_filter hw hl]
  exact_mod_cast List.sum_le_sum fun s _ => w.due_le_left s

/-- When the loop is between two ticks, the measure is the work itself. -/
theorem potential_eq_remaining (hw : Paced w) (hpc : w.loop.pc ≠ .executing) {l : List SeqId}
    (hl : ∀ s ∈ l, s ∈ w.arrived) :
    (w.potential l : ℤ) = w.sched.remaining (l.filter w.api.live) := by
  rw [remaining_filter hw hl, World.potential]
  congr 2
  exact List.map_congr_left fun s _ => World.due_of_not_executing hpc s

/-- **A waiting request is served in bounded time, whatever arrives later.**  In every reachable
state of a loop with at least one slot, let `R` be the tokens the unfinished members of
`running` and what waits before `s` may still be given.  However sequences are added and
aborted and rows fail: every full tick without `s` in its batch lowers `R`; unless it is
aborted, `s` is in the batch of one of the next `R + 1` ticks; and it has finished after at
most `R` and its own budget of ticks.  Without further arrivals, the loop comes to a state
without work after finitely many iterations. -/
theorem waiting_is_bounded {m t : ℤ} {r : ρ} {acts : List Act} (hm : 1 ≤ m)
    (h : run (World.step R) (World.init m t r) acts = some w) :
    (∀ s ∈ w.sched.waiting, ∀ (next : List Act) (w' : World ρ),
      run (World.step R) w next = some w' → Along (World.step R) OneResultPerRow w next →
      (w.loop.pc ≠ .executing → w'.loop.pc = .top → Act.abort s ∉ next →
        ¬ Visits (World.step R) (World.Serves s) w next → s ∈ w'.sched.waiting ∧
          w'.sched.remaining (w'.sched.ahead s) + w.fullTicks next
            ≤ w.sched.remaining (w.sched.ahead s)) ∧
      (Act.abort s ∉ next → w.sched.remaining (w.sched.ahead s) < w.fullTicks next →
        Visits (World.step R) (World.Serves s) w next) ∧
      (w.sched.remaining (w.sched.ahead s) + (w.sched.seqs s).maxNewTokens ≤ w.fullTicks next →
        (w'.sched.seqs s).isFinished = true)) ∧
    ∃ n, ∀ (next : List Act) (w' : World ρ), run (World.step R) w next = some w' →
      Along (World.step R) OneResultPerRow w next → (∀ seq req, Act.add seq req ∉ next) →
      n < next.countP Act.isIterate →
      Visits (World.step R) (fun u => u.sched.hasWork = false) w next := by
  have hw := paced_reachable h
  have hx := hw.world.fifo
  refine ⟨?_, w.potential w.arrived, ?_⟩
  · intro s hs next w' hnext hrows
    have hmem : s ∈ w.arrived := hx.mem_arrived (List.mem_append_right _ hs)
    obtain ⟨before, after, harr⟩ := List.append_of_mem hmem
    have hbefore : ∀ u ∈ before, u ∈ w.arrived := fun u hu => harr ▸ List.mem_append_left _ hu
    have hlive : (w.sched.seqs s).isFinished = false := hx.waiting_live s hs
    have hR := potential_le_remaining hw hbefore
    rw [← ahead_eq hx hs harr] at hR
    refine ⟨?_, ?_, ?_⟩
    · intro hstart hpc habort hno
      rcases waiting_run hw harr hs hnext hrows habort with hv | ⟨⟨hw', ⟨rest, harr'⟩, hwait⟩, hle⟩
      · exact absurd hv hno
      · have hs' : s ∈ w'.sched.waiting :=
          hwait.resolve_right fun hdone => by cases hpc.symm.trans hdone
        have hbefore' : ∀ u ∈ before, u ∈ w'.arrived :=
          fun u hu => harr' ▸ List.mem_append_left _ hu
        have hR' := potential_eq_remaining hw' (by simp [hpc]) hbefore'
        rw [← ahead_eq hw'.world.fifo hs' harr'] at hR'
        have hzero : w.ticking = 0 := if_neg hstart
        refine ⟨hs', ?_⟩
        rw [← hR', World.fullTicks]
        omega
    · intro habort hticks
      rcases waiting_run hw harr hs hnext hrows habort with hv | ⟨-, hle⟩
      · exact hv
      · rw [World.fullTicks] at hticks
        omega
    · intro hticks
      have harr' : w.arrived = (before ++ [s]) ++ after := by simpa using harr
      apply finished_run hw harr' (List.mem_append_right _ List.mem_cons_self) hnext hrows
      have hbudget := hw.inBudget s hmem hlive
      have hdue : (w.due s : ℤ) ≤ (w.sched.seqs s).maxNewTokens := by
        have hle := w.due_le_left s
        have hleft := (hw.inBudget s hmem).left_eq hlive
        omega
      have hsum : w.potential (before ++ [s]) = w.potential before + w.due s := by
        simp [World.potential]
      rw [World.fullTicks] at hticks
      omega
  · intro next w' hnext hrows hadd hmany
    have hsize : 1 ≤ w.sched.maxBatchSize := by rwa [maxBatchSize_world h]
    rcases drained_run hw hsize hnext hrows hadd with hv | hle
    · exact hv
    · omega

/-- One slot: the second request waits for one token of the first, and is in the next batch. -/
theorem waiting_is_bounded_one_slot :
    let acts : List Act := [.add 0 ⟨[1], 1, 0, none, ∅⟩, .add 1 ⟨[2], 2, 0, none, ∅⟩]
    let next : List Act := [.loop .iterate, .loop (.tickEnd [some 5]), .loop .iterate,
      .loop (.tickEnd [some 6])]
    ∃ w, run (World.step mockRunner) (World.init 1 8192 ()) acts = some w ∧
      w.sched.remaining (w.sched.ahead 1) = 1 ∧
      Visits (World.step mockRunner) (World.Serves 1) w next := by
  intro acts next
  have h := run_eq_runD (show
    (run (World.step mockRunner) (World.init 1 8192 ()) acts).isSome = true by decide)
  have hnext := run_eq_runD (show (run (World.step mockRunner)
    (runD (World.step mockRunner) (World.init 1 8192 ()) acts) next).isSome = true by decide)
  refine ⟨_, h, by decide, ?_⟩
  have hbound := (waiting_is_bounded (by decide) h).1 1 (by decide) next _ hnext (by decide)
  exact hbound.2.1 (by simp [next]) (by decide)

/-! ### The loop yields -/

/-- Between two awaits the loop iterates only so many times, and an empty batch means that there is
no work. -/
def Yields (R : ModelRunner ρ) (w : World ρ) : Prop :=
  (∃ n, ∀ k, (run (World.step R) w (List.replicate k (.loop .iterate))).isSome = true → k ≤ n) ∧
    (w.sched.schedule.2 = [] → w.sched.schedule.1.hasWork = false)

/-- Two iterations in a row are followed by an `await`, if an empty batch means no work. -/
theorem iterates_le_two (hempty : w.sched.schedule.2 = [] → w.sched.schedule.1.hasWork = false)
    {k : ℕ} (h : (run (World.step R) w (List.replicate k (.loop .iterate))).isSome = true) :
    k ≤ 2 := by
  by_contra hk
  obtain ⟨n, rfl⟩ : ∃ n, k = n + 3 := ⟨k - 3, by omega⟩
  obtain ⟨w', h⟩ := Option.isSome_iff_exists.mp h
  obtain ⟨w₁, h₁, h⟩ := run_cons h
  obtain ⟨w₂, h₂, h⟩ := run_cons h
  obtain ⟨w₃, h₃, -⟩ := run_cons h
  have htop : ∀ {u u' : World ρ}, u.step R (.loop .iterate) = some u' → u.loop.pc = .top := by
    intro u u' hu
    cases fires_of_step hu <;> assumption
  have htop₁ := htop h₂
  have htop₂ := htop h₃
  cases fires_of_step h₁ with
  | doze hpc hwork => cases htop₁
  | tickStart hpc hwork hbatch => cases htop₁
  | drain hpc hwork hbatch =>
    have hnone := hempty hbatch
    cases fires_of_step h₂ with
    | doze hpc hwork => cases htop₂
    | drain hpc hwork' hbatch => cases hnone.symm.trans hwork'
    | tickStart hpc hwork' hbatch => cases hnone.symm.trans hwork'

/-- With no slot at all, the head of `waiting` is never admitted. -/
theorem schedule_of_no_slot {σ : Scheduler} (hm : σ.maxBatchSize ≤ 0) (hrun : σ.running = []) :
    σ.schedule = (σ, []) := by
  have hsweep : σ.unfinishedRunning = [] := by rw [Scheduler.unfinishedRunning, hrun]; rfl
  have hloop : σ.admitLoop [] σ.waiting = ([], σ.waiting) := by
    apply Scheduler.admitLoop_of_blocked
    intro head _
    apply Or.inl
    simp
    omega
  rw [Scheduler.schedule, hsweep, hloop, ← hrun]

/-- **With no slot at all, the loop spins**: it drops the cache and looks again, for ever. -/
theorem spins (n : ℕ) (hpc : w.loop.pc = .top) (hm : w.sched.maxBatchSize ≤ 0)
    (hrun : w.sched.running = []) (hwait : w.sched.waiting ≠ []) :
    (run (World.step R) w (List.replicate n (.loop .iterate))).isSome = true := by
  induction n generalizing w with
  | zero => rfl
  | succ n ih =>
    have hwork : w.sched.hasWork = true := by simp [Scheduler.hasWork, hwait]
    have hsched := schedule_of_no_slot hm hrun
    have hstep : w.step R (.loop .iterate) = some
        { w with loop := { w.loop with
            batch := [], members := [], runner := R.reset w.loop.runner } } := by
      simp [World.step, LoopTask.step, LoopTask.iterate, hpc, hwork, hsched]
    rw [List.replicate_succ, run_cons_of_step hstep]
    exact ih hpc hm hrun hwait

/-- **The loop yields to the event loop, exactly when a request can run or none waits.**  For all
limits, in every reachable state: the loop makes finitely many iterations up to its next
`await`, and an empty batch leaves no work, if and only if the batch size is positive or
`waiting` is empty. -/
theorem yields_iff {m t : ℤ} {r : ρ} {acts : List Act}
    (h : run (World.step R) (World.init m t r) acts = some w) (hpc : w.loop.pc = .top) :
    Yields R w ↔ 1 ≤ m ∨ w.sched.waiting = [] := by
  have hsize := maxBatchSize_world h
  have hx := (worldInv_reachable h).fifo
  constructor
  · rintro ⟨⟨n, hn⟩, -⟩
    by_contra hno
    rw [not_or] at hno
    obtain ⟨hm, hwait⟩ := hno
    have hcap : (w.sched.running.length : ℤ) ≤ max w.sched.maxBatchSize 0 := hx.capacity
    have hrun : w.sched.running = [] := by
      rw [← List.length_eq_zero_iff]
      omega
    have hmany := hn (n + 1) (spins (n + 1) hpc (by omega) hrun hwait)
    omega
  · intro hslot
    have hempty : w.sched.schedule.2 = [] → w.sched.schedule.1.hasWork = false := by
      intro hbatch
      rcases hslot with hm | hwait
      · exact Scheduler.hasWork_schedule (by omega) hbatch
      · obtain ⟨admitted, hsplit, -, -⟩ := w.sched.schedule_spec
        rw [hwait] at hsplit
        exact Scheduler.hasWork_eq_false.mpr
          ⟨(List.append_eq_nil_iff.mp hsplit.symm).2, hbatch⟩
    exact ⟨⟨2, fun k hk => iterates_le_two hempty hk⟩, hempty⟩

/-- One slot: at the top of the loop the request that occupies it has finished, and another one
waits for it. -/
theorem yields_iff_slot_to_pass_on :
    let acts : List Act := [.loop .iterate, .add 0 ⟨[104], 1, 0, none, ∅⟩, .loop .wake,
      .loop .iterate, .add 1 ⟨[105], 2, 0, none, ∅⟩, .loop (.tickEnd [some 5])]
    let w : World Unit := runD (World.step mockRunner) (World.init 1 8192 ()) acts
    w.sched.running = [0] ∧ (w.sched.seqs 0).isFinished = true ∧ w.sched.waiting = [1] ∧
      Yields mockRunner w := by
  intro acts w
  have h := run_eq_runD (show
    (run (World.step mockRunner) (World.init 1 8192 ()) acts).isSome = true by decide)
  exact ⟨by decide, by decide, by decide, (yields_iff h (by decide)).mpr (Or.inl (by decide))⟩

/-- `MAX_BATCH_SIZE=0`: a request that arrives during the idle sleep is never admitted, and the loop
never comes to an `await` again. -/
theorem never_yields_without_a_slot :
    let acts : List Act := [.loop .iterate, .add 0 ⟨[104], 4, 0, none, ∅⟩, .loop .wake]
    ∃ w, run (World.step mockRunner) (World.init 0 8192 ()) acts = some w ∧
      (∀ n, (run (World.step mockRunner) w (List.replicate n (.loop .iterate))).isSome = true) ∧
      w.sched.schedule.2 = [] ∧ w.sched.schedule.1.hasWork = true := by
  intro acts
  have h := run_eq_runD (show
    (run (World.step mockRunner) (World.init 0 8192 ()) acts).isSome = true by decide)
  exact ⟨_, h, fun n => spins n (by decide) (by decide) (by decide) (by decide), by decide,
    by decide⟩

end Measure

end NanoKube
