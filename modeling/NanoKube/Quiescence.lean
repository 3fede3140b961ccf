import NanoKube.Teardown
import NanoKube.Verdicts

/-!
# Nobody is left hanging

A call of `generate` or `stream` is blocked while it has taken every item of its queue.  It
has taken no sentinel, or it would be over; so once its sequence has a verdict, the sentinel
is still in front of it.  A blocked call therefore waits for a sequence that is in one of the
deques: there is no wake-up to be lost, and no request either.

## Main definitions

* `Consumer.taken` — the items a call has taken.
* `AwakeInv` — a call that goes on has only taken tokens.

## Main results

* `AwakeInv.step` — every event keeps it so.
* `blocked_is_queued` — **a call that is blocked waits for a sequence in the deques.**
-/

namespace NanoKube

/-- The items a call has taken. -/
def Consumer.taken : Consumer → ℕ
  | .generating pos => pos
  | .streaming reader => reader.pos
  | .returned _ | .gone => 0

variable {ρ : Type*} {runners : RunnerName → Runner ρ} {v v' : Server ρ} {e : Event} {s : SeqId}

/-- A call that goes on has only taken tokens, and every verdict is announced. -/
structure AwakeInv (v : Server ρ) : Prop where
  verdicts : VerdictInv v
  announced : ∀ s ∈ v.arrived, (v.sched.seqs s).Announced
  taken : ∀ s c, v.consumers s = some c → c.live = true →
    ∀ i < c.taken, ∃ t, (v.sched.seqs s).queue[i]? = some (some t)

theorem AwakeInv.init (m t : ℤ) : AwakeInv (Server.init m t : Server ρ) where
  verdicts := VerdictInv.init m t
  announced := by intro s hs; cases hs
  taken := by intro s c hc; cases hc

/-! ### One sequence -/

/-- Nothing is taken out of a queue, and every verdict that is given is announced. -/
theorem handled_queue {q : Sequence} (h : Handled runners v s e q) :
    (v.sched.seqs s).queue <+: q.queue ∧ ((v.sched.seqs s).Announced → q.Announced) := by
  cases h with
  | same => exact ⟨List.prefix_refl _, id⟩
  | record token hrow =>
    exact ⟨Sequence.queue_prefix_record _ _, fun _ => Sequence.announced_record _ _⟩
  | tornDown hdown hmem =>
    exact ⟨Sequence.queue_prefix_fail _, fun _ => Sequence.announced_fail _⟩
  | rowFailed | ended | hangup =>
    exact ⟨Sequence.queue_prefix_abort _ _, fun h => Sequence.announced_abort h _⟩

/-- A call that wakes up and goes on has taken a token. -/
theorem taken_of_step {decode : List Token → Text} {q : Sequence} {c c' : Consumer}
    (hstep : c.step decode q = some c') (hlive : c'.live = true) :
    c.live = true ∧ c'.taken = c.taken + 1 ∧ ∃ t, q.queue[c.taken]? = some (some t) := by
  cases c with
  | generating pos =>
    unfold Consumer.step at hstep
    dsimp only at hstep
    split at hstep
    · cases hstep
    · next t hitem =>
      obtain rfl := Option.some.inj hstep
      exact ⟨rfl, rfl, t, hitem⟩
    · obtain rfl := Option.some.inj hstep
      cases hlive
  | streaming reader =>
    simp only [Consumer.step, Option.map_eq_some_iff] at hstep
    obtain ⟨reader', hnext, rfl⟩ := hstep
    unfold StreamReader.next at hnext
    split at hnext
    · cases hnext
    · next hopen =>
      split at hnext
      · cases hnext
      · obtain rfl := Option.some.inj hnext
        cases hlive
      · next t hitem =>
        refine ⟨by simpa [Consumer.live] using hopen, ?_, t, hitem⟩
        dsimp only at hnext
        split at hnext <;> obtain rfl := Option.some.inj hnext <;> rfl
  | returned completion => cases hstep
  | gone => cases hstep

/-- A call that cannot move on, and is not over, has taken every item there is. -/
theorem blocked_of_step {decode : List Token → Text} {q : Sequence} {c : Consumer}
    (hstep : c.step decode q = none) (hlive : c.live = true) : q.queue[c.taken]? = none := by
  cases c with
  | generating pos =>
    unfold Consumer.step at hstep
    dsimp only at hstep
    split at hstep
    · next hitem => exact hitem
    · cases hstep
    · cases hstep
  | streaming reader =>
    have hopen : reader.closed = false := by simpa [Consumer.live] using hlive
    simp only [Consumer.step, Option.map_eq_none_iff, StreamReader.next, hopen,
      Bool.false_eq_true, if_false] at hstep
    split at hstep
    · next hitem => exact hitem
    · cases hstep
    · split at hstep <;> cases hstep
  | returned completion => cases hlive
  | gone => cases hlive

/-! ### Every run -/

/-- **Every event** keeps the sentinels in front of those who wait for them. -/
theorem AwakeInv.step (hv : AwakeInv v) (h : v.step runners e = some v') : AwakeInv v' := by
  refine ⟨hv.verdicts.step h, ?_, ?_⟩
  · intro s hs
    by_cases hold : s ∈ v.arrived
    · exact (handled_queue (handled_of_step hv.verdicts.fifo h hold)).2 (hv.announced s hold)
    · rcases arrived_of_step h hs with hwas | ⟨req, hseq⟩
      · exact absurd hwas hold
      · rw [hseq]
        apply Sequence.announced_settle
        intro hf
        cases hf
  · intro s c' hc' hlive i hi
    have hgrow : s ∈ v.arrived → ∀ {j : ℕ} {t : Token},
        (v.sched.seqs s).queue[j]? = some (some t) →
          (v'.sched.seqs s).queue[j]? = some (some t) := by
      intro hs j t hitem
      have hprefix := (handled_queue (handled_of_step hv.verdicts.fifo h hs)).1
      obtain ⟨hlt, hget⟩ := List.getElem?_eq_some_iff.mp hitem
      rw [List.prefix_iff_getElem?.mp hprefix j hlt, hget]
    rcases consumer_of_step h hc' with ⟨hc, -⟩ | ⟨-, rfl | rfl, -⟩ | ⟨c, hc, -, hstep⟩ | rfl
    · obtain ⟨t, hitem⟩ := hv.taken s c' hc hlive i hi
      exact ⟨t, hgrow (hv.verdicts.consumers s c' hc) hitem⟩
    · exact absurd hi (Nat.not_lt_zero i)
    · exact absurd hi (Nat.not_lt_zero i)
    · have hs := hv.verdicts.consumers s c hc
      obtain ⟨hwas, hcount, t, hitem⟩ := taken_of_step hstep hlive
      rw [hcount] at hi
      rcases Nat.lt_succ_iff_lt_or_eq.mp hi with hlt | rfl
      · obtain ⟨t', hitem'⟩ := hv.taken s c hc hwas i hlt
        exact ⟨t', hgrow hs hitem'⟩
      · exact ⟨t, hgrow hs hitem⟩
    · cases hlive

theorem awakeInv_reachable {m t : ℤ} {events : List Event}
    (h : run (Server.step runners) (Server.init m t) events = some v) : AwakeInv v :=
  run_invariant AwakeInv (fun hv hs => AwakeInv.step hv hs) (AwakeInv.init m t) h

/-- The sentinel of a finished sequence is in front of a call that goes on. -/
theorem AwakeInv.wakes (hv : AwakeInv v) {c : Consumer} (hc : v.consumers s = some c)
    (hlive : c.live = true) (hf : (v.sched.seqs s).isFinished = true) :
    (v.sched.seqs s).queue[c.taken]? ≠ none := by
  intro hnone
  obtain ⟨i, hi⟩ := List.mem_iff_getElem?.mp
    (hv.announced s (hv.verdicts.consumers s c hc) hf)
  have hlt : i < c.taken := by
    have hlen := (List.getElem?_eq_some_iff.mp hi).1
    have hend := List.getElem?_eq_none_iff.mp hnone
    omega
  obtain ⟨t, hitem⟩ := hv.taken s c hc hlive i hlt
  cases hi.symm.trans hitem

/-- **No wake-up is lost, and no request.**  In every run of the process: a call that is not over and
cannot move on waits for a sequence without a verdict, which is in one of the deques.  So where
the scheduler has no work and no call can move on, every call has come to its end: nobody is left
hanging. -/
theorem blocked_is_queued {m t : ℤ} {events : List Event}
    (h : run (Server.step runners) (Server.init m t) events = some v) :
    (∀ s c, v.consumers s = some c → c.live = true → v.step runners (.read s) = none →
      (v.sched.seqs s).isFinished = false ∧ s ∈ v.sched.running ++ v.sched.waiting) ∧
    (v.sched.hasWork = false → (∀ s, v.step runners (.read s) = none) →
      ∀ s c, v.consumers s = some c → c.live = false) := by
  have hv := awakeInv_reachable h
  have hqueued : ∀ s c, v.consumers s = some c → c.live = true →
      v.step runners (.read s) = none →
        (v.sched.seqs s).isFinished = false ∧ s ∈ v.sched.running ++ v.sched.waiting := by
    intro s c hc hlive hstuck
    have hblocked : c.step (runners v.engine).decode (v.sched.seqs s) = none := by
      simpa [Server.step, hc] using hstuck
    have hopen : (v.sched.seqs s).isFinished = false := by
      by_contra hf
      rw [Bool.not_eq_false] at hf
      exact hv.wakes hc hlive hf (blocked_of_step hblocked hlive)
    exact ⟨hopen, hv.verdicts.fifo.complete s (hv.verdicts.consumers s c hc) hopen⟩
  refine ⟨hqueued, ?_⟩
  intro hwork hstuck s c hc
  by_contra hlive
  rw [Bool.not_eq_false] at hlive
  obtain ⟨hwait, hrun⟩ := Scheduler.hasWork_eq_false.mp hwork
  have hmem := (hqueued s c hc hlive (hstuck s)).2
  rw [hwait, hrun] at hmem
  cases hmem

/-- Two calls, one of which is done while the other waits for the next tick. -/
theorem blocked_is_queued_two :
    let events : List Event := [.startup, .post 0 { prompt := ['h'], maxTokens := 1 },
      .post 1 { prompt := ['i'], maxTokens := 2 }, .loop .iterate,
      .loop (.tickEnd [some 0, some 0]), .read 0, .read 0, .read 1]
    let v := runD (Server.step fun _ => mock) (Server.init 8 8192 : Server Unit) events
    v.consumers 1 = some (.generating 1) ∧ 1 ∈ v.sched.running ++ v.sched.waiting := by
  intro events v
  have h := run_eq_runD (show (run (Server.step fun _ => mock)
    (Server.init 8 8192 : Server Unit) events).isSome = true by decide)
  have hc : v.consumers 1 = some (.generating 1) := by decide
  have hstuck : v.step (fun _ => mock) (.read 1) = none := by
    rw [Server.step, hc]
    rfl
  exact ⟨hc, ((blocked_is_queued h).1 1 _ hc rfl hstuck).2⟩

end NanoKube
