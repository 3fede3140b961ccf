import NanoKube.Server

/-!
# What a verdict says

In a process with two loops on one scheduler, handlers that come and go and a swap of the
runner: a verdict of `stop` or `length` can be read off the tokens, and the two others
have a cause.  A token that comes after a verdict of `cancelled` or `error` may turn it
into one of the first two, but never into one that the tokens do not bear out.

## Main definitions

* `Sequence.Open` — nothing in the output ends the request.
* `Sequence.Truthful` — the verdict is what the output says.
* `Handled` — what an event of the process can do to one arrival.
* `GivesUp` — the events that cost a request its answer.
* `VerdictInv` — the invariant of the process; `LoopVerdicts` — the same of one loop.

## Main results

* `handled_of_step` — **an arrival is touched by one sequence operation or none**.
* `VerdictInv.step` — every event keeps every verdict truthful.
* `verdict_tells` — the verdict of an arrival against its tokens.
* `verdict_to_blame` — no request is cancelled, or fails, without a cause of its own.
-/

namespace NanoKube

open Scheduler (lookup_eq_some_iff map_fst_zip_sublist)

/-! ### One sequence -/

namespace Sequence

/-- There is no stop token in the output, and some budget is left. -/
structure Open (q : Sequence) : Prop where
  no_stop : ∀ t ∈ q.outputIds, t ∉ q.eosTokenIds
  in_budget : (q.outputIds.length : ℤ) < q.maxNewTokens

/-- The output ends with its only stop token, within the budget. -/
structure Stopped (q : Sequence) : Prop where
  ends : ∃ out t, q.outputIds = out ++ [t] ∧ t ∈ q.eosTokenIds ∧ ∀ u ∈ out, u ∉ q.eosTokenIds
  in_budget : (q.outputIds.length : ℤ) ≤ q.maxNewTokens

/-- The output has no stop token, and has used up the budget. -/
structure Exhausted (q : Sequence) : Prop where
  no_stop : ∀ t ∈ q.outputIds, t ∉ q.eosTokenIds
  full : (q.outputIds.length : ℤ) = max q.maxNewTokens 0

/-- The verdict is what the output says. -/
def Truthful (q : Sequence) : Prop :=
  match q.finishReason with
  | some .stop => q.Stopped
  | some .length => q.Exhausted
  | some .cancelled | some .error | none => q.Open

variable {q q' : Sequence}

theorem Open.congr (h : q.Open) (hreq : q'.toRequest = q.toRequest)
    (hout : q'.outputIds = q.outputIds) : q'.Open := by
  refine ⟨?_, ?_⟩
  · rw [hout, hreq]
    exact h.no_stop
  · rw [hout, hreq]
    exact h.in_budget

theorem Truthful.isOpen (h : q.Truthful) (hlive : q.isFinished = false) : q.Open := by
  have hnone : q.finishReason = none := by simpa [isFinished] using hlive
  simpa [Truthful, hnone] using h

/-- Only a token brings a verdict of `stop` or `length`. -/
theorem Truthful.isOpen_of_ne (h : q.Truthful) (hstop : q.finishReason ≠ some .stop)
    (hlength : q.finishReason ≠ some .length) : q.Open := by
  unfold Truthful at h
  split at h
  · next hreason => exact absurd hreason hstop
  · next hreason => exact absurd hreason hlength
  · exact h
  · exact h
  · exact h

/-- A verdict without a token. -/
theorem Open.truthful (h : q.Open) (hstop : q.finishReason ≠ some .stop)
    (hlength : q.finishReason ≠ some .length) : q.Truthful := by
  unfold Truthful
  split
  · next hreason => exact absurd hreason hstop
  · next hreason => exact absurd hreason hlength
  · exact h
  · exact h
  · exact h

theorem Truthful.congr (h : q.Truthful) (hreq : q'.toRequest = q.toRequest)
    (hout : q'.outputIds = q.outputIds) (hreason : q'.finishReason = q.finishReason) :
    q'.Truthful := by
  unfold Truthful at h ⊢
  rw [hreason]
  split at h
  · obtain ⟨⟨out, t, hends, ht, hno⟩, hlen⟩ := h
    exact ⟨⟨out, t, hout.trans hends, hreq ▸ ht, hreq ▸ hno⟩, by rwa [hout, hreq]⟩
  · exact ⟨by rw [hout, hreq]; exact h.no_stop, by rw [hout, hreq]; exact h.full⟩
  · exact h.congr hreq hout
  · exact h.congr hreq hout
  · exact h.congr hreq hout

/-- **One token** of an open sequence brings a verdict that the output bears out, whatever the
verdict was before. -/
theorem truthful_record (h : q.Open) (t : Token) (hstop : q.finishReason ≠ some .stop)
    (hlength : q.finishReason ≠ some .length) : (q.record t).Truthful := by
  have hreason := record_finishReason q t
  have hlen : ((q.record t).outputIds.length : ℤ) = q.outputIds.length + 1 := by simp
  have hbudget := h.in_budget
  by_cases ht : t ∈ q.eosTokenIds
  · rw [if_pos ht] at hreason
    simp only [Truthful, hreason]
    refine ⟨⟨q.outputIds, t, record_outputIds q t, ?_, ?_⟩, ?_⟩
    · rwa [record_toRequest]
    · rw [record_toRequest]
      exact h.no_stop
    · rw [hlen, record_toRequest]
      omega
  · have hno : ∀ u ∈ (q.record t).outputIds, u ∉ (q.record t).eosTokenIds := by
      intro u hu
      rw [record_outputIds, List.mem_append, List.mem_singleton] at hu
      rw [record_toRequest]
      rcases hu with hu | rfl
      · exact h.no_stop u hu
      · exact ht
    rw [if_neg ht] at hreason
    by_cases hfull : q.maxNewTokens ≤ q.outputIds.length + 1
    · rw [if_pos hfull] at hreason
      simp only [Truthful, hreason]
      refine ⟨hno, ?_⟩
      rw [hlen, record_toRequest]
      omega
    · rw [if_neg hfull] at hreason
      have hopen : (q.record t).Open := ⟨hno, by rw [hlen, record_toRequest]; omega⟩
      exact hopen.truthful (hreason ▸ hstop) (hreason ▸ hlength)

theorem truthful_abort (h : q.Truthful) {reason : FinishReason}
    (hreason : reason = .cancelled ∨ reason = .error) : (q.abort reason).Truthful := by
  cases hf : q.isFinished with
  | true => rwa [abort_of_isFinished hf]
  | false =>
    rw [abort_of_not_isFinished hf]
    have hopen : ((q.finish reason).emit none).Open := (h.isOpen hf).congr rfl rfl
    rcases hreason with rfl | rfl
    · exact hopen.truthful (by simp) (by simp)
    · exact hopen.truthful (by simp) (by simp)

theorem truthful_fail (h : q.Truthful) : q.fail.Truthful := by
  cases hf : q.isFinished with
  | true =>
    rw [fail_of_isFinished hf]
    exact h.congr rfl rfl rfl
  | false =>
    rw [fail_of_not_isFinished hf]
    have hopen : ((q.finish .error).emit none).Open := (h.isOpen hf).congr rfl rfl
    exact hopen.truthful (by simp) (by simp)

theorem truthful_settle (req : Request) : ({ toRequest := req } : Sequence).settle.Truthful := by
  unfold settle
  split
  · next hbudget =>
    refine ⟨?_, ?_⟩
    · intro t ht
      cases ht
    · have hzero : max req.maxNewTokens 0 = 0 := max_eq_right hbudget
      exact hzero.symm
  · next hbudget =>
    refine Open.truthful ⟨?_, ?_⟩ (by simp) (by simp)
    · intro t ht
      cases ht
    · exact lt_of_not_ge hbudget

/-- **The verdict against the tokens.** -/
theorem Truthful.tells (h : q.Truthful) :
    (q.finishReason = some .stop ↔ ∃ t ∈ q.outputIds, t ∈ q.eosTokenIds) ∧
      (q.finishReason = some .length ↔
        (∀ t ∈ q.outputIds, t ∉ q.eosTokenIds) ∧ q.maxNewTokens ≤ q.outputIds.length) ∧
      (∀ t ∈ q.outputIds.dropLast, t ∉ q.eosTokenIds) ∧
      (q.outputIds.length : ℤ) ≤ max q.maxNewTokens 0 := by
  have hdrop : (∀ t ∈ q.outputIds, t ∉ q.eosTokenIds) →
      ∀ t ∈ q.outputIds.dropLast, t ∉ q.eosTokenIds :=
    fun hno t ht => hno t (List.dropLast_subset _ ht)
  have hopen : q.Open → (∀ t ∈ q.outputIds, t ∉ q.eosTokenIds) ∧
      ¬ q.maxNewTokens ≤ q.outputIds.length ∧
      (q.outputIds.length : ℤ) ≤ max q.maxNewTokens 0 := by
    intro ho
    have hlt := ho.in_budget
    exact ⟨ho.no_stop, by omega, by omega⟩
  unfold Truthful at h
  split at h
  · next hreason =>
    obtain ⟨⟨out, t, hends, ht, hno⟩, hlen⟩ := h
    rw [hreason]
    have hmem : t ∈ q.outputIds := by simp [hends]
    refine ⟨by simpa using ⟨t, hmem, ht⟩, ?_, ?_, by omega⟩
    · simp only [Option.some.injEq, reduceCtorEq, false_iff, not_and]
      exact fun hall => absurd ht (hall t hmem)
    · rw [hends, List.dropLast_concat]
      exact hno
  · next hreason =>
    have hfull := h.full
    rw [hreason]
    refine ⟨?_, ?_, hdrop h.no_stop, hfull.le⟩
    · simp only [Option.some.injEq, reduceCtorEq, false_iff, not_exists, not_and]
      exact h.no_stop
    · simp only [true_iff]
      exact ⟨h.no_stop, by omega⟩
  all_goals
    next hreason =>
      obtain ⟨hno, hlt, hle⟩ := hopen h
      rw [hreason]
      refine ⟨?_, ?_, hdrop hno, hle⟩
      · simp only [Option.some.injEq, reduceCtorEq, false_iff, not_exists, not_and]
        exact hno
      · simp only [Option.some.injEq, reduceCtorEq, false_iff, not_and]
        exact fun _ => hlt

end Sequence

/-! ### One event and one arrival -/

variable {ρ : Type*} {runners : RunnerName → Runner ρ} {v v' : Server ρ} {e : Event}

/-- The event tears down what is in the deques. -/
def Server.tearsDown (v : Server ρ) : Event → Bool
  | .loop .raise => true
  | .loop .cancel => v.loopTask.elim false fun t => decide (t.pc = .executing)
  | .oldCancel => v.oldTask.elim false fun t => decide (t.pc = .executing)
  | _ => false

/-- Row `s` of the batch in flight came back as `result`. -/
def Server.Returns (v : Server ρ) (s : SeqId) (result : Option Token) : Event → Prop
  | .loop (.tickEnd nextIds) =>
    ∃ t, v.loopTask = some t ∧ t.pc = .executing ∧ (s, result) ∈ t.batch.zip nextIds
  | _ => False

/-- What an event may do to an arrival. -/
inductive Handled (runners : RunnerName → Runner ρ) (v : Server ρ) (s : SeqId) :
    Event → Sequence → Prop
  | same {e : Event} : Handled runners v s e (v.sched.seqs s)
  | record {e : Event} (token : Token) (hrow : v.Returns s (some token) e) :
    Handled runners v s e ((v.sched.seqs s).record token)
  /-- Its row came back `None`. -/
  | rowFailed {e : Event} (hrow : v.Returns s none e) :
    Handled runners v s e ((v.sched.seqs s).abort .error)
  | tornDown {e : Event} (hdown : v.tearsDown e = true)
      (hmem : s ∈ v.sched.running ++ v.sched.waiting) :
    Handled runners v s e (v.sched.seqs s).fail
  /-- Its consumer came to an end by itself. -/
  | ended {c c' : Consumer} (hcons : v.consumers s = some c)
      (hstep : c.step (runners v.engine).decode (v.sched.seqs s) = some c')
      (hover : c'.live = false) :
    Handled runners v s (.read s) ((v.sched.seqs s).abort .cancelled)
  | hangup {c : Consumer} (hcons : v.consumers s = some c) (hlive : c.live = true) :
    Handled runners v s (.hangup s) ((v.sched.seqs s).abort .cancelled)

/-- The event gives the request up, for that reason. -/
inductive GivesUp (v : Server ρ) (s : SeqId) : Event → FinishReason → Prop
  | hangup : GivesUp v s (.hangup s) .cancelled
  | rowFailed {e : Event} (hrow : v.Returns s none e) : GivesUp v s e .error
  | tornDown {e : Event} (hdown : v.tearsDown e = true)
      (hmem : s ∈ v.sched.running ++ v.sched.waiting) : GivesUp v s e .error

theorem submit_seqs_of_mem {seq s : SeqId} (body : CompletionRequest) (hnew : seq ∉ v.arrived)
    (hs : s ∈ v.arrived) :
    ((v.submit runners seq body).sched.seqs s) = v.sched.seqs s := by
  have hne : s ≠ seq := fun he => hnew (he ▸ hs)
  simp [Server.submit, Scheduler.submit_seqs, hne]

/-- **An arrival is touched by one sequence operation or none.** -/
theorem handled_of_step (hx : Fifo v.api) (h : v.step runners e = some v') {s : SeqId}
    (hs : s ∈ v.arrived) : Handled runners v s e (v'.sched.seqs s) := by
  cases moves_of_step h with
  | submit hlive hnew =>
    rw [submit_seqs_of_mem _ hnew hs]
    exact .same
  | @beginBody seq i body hnew hbody =>
    rw [submit_seqs_of_mem (v := { v with pending := v.pending.eraseIdx i }) body hnew hs]
    exact .same
  | @loop e t w htask hstep =>
    have hwx := fifo_world hx htask
    have hseq : w.sched.seqs s = (v.world t).seqAfter s (.loop e) := seqs_of_step hwx hstep s
    dsimp only
    rw [hseq]
    cases fires_of_step hstep with
    | @tickEnd nextIds hpc =>
      have hkeys := (map_fst_zip_sublist t.batch nextIds).nodup hwx.nodup_batch
      simp only [World.seqAfter]
      split
      · next token hfound =>
        exact .record token ⟨t, htask, hpc, (lookup_eq_some_iff hkeys).mp hfound⟩
      · next hfound => exact .rowFailed ⟨t, htask, hpc, (lookup_eq_some_iff hkeys).mp hfound⟩
      · exact .same
    | raise hpc =>
      simp only [World.seqAfter]
      split
      · next hmem => exact .tornDown rfl hmem
      · exact .same
    | cancelTick hpc =>
      simp only [World.seqAfter]
      split
      · next hmem =>
        have hpc' : t.pc = .executing := hpc
        exact .tornDown (by simp [Server.tearsDown, htask, hpc']) hmem.2
      · exact .same
    | cancelSleep hpc =>
      simp only [World.seqAfter, hpc, reduceCtorEq, false_and, if_false]
      exact .same
    | _ => exact .same
  | @oldCancel t w htask hstep =>
    cases fires_of_step hstep with
    | cancelSleep hpc => exact .same
    | cancelTick hpc =>
      have hpc' : t.pc = .executing := hpc
      have hseq := Scheduler.failAll_seqs hx.nodup_queues s
      dsimp only [Server.world]
      rw [show v.sched.failAll.1.seqs s = _ from hseq]
      split
      · next hmem => exact .tornDown (by simp [Server.tearsDown, htask, hpc']) hmem
      · exact .same
  | @read seq c c' hcons hstep =>
    cases hlive : c'.live with
    | true =>
      simp only [Server.resume, hlive, if_true]
      exact .same
    | false =>
      simp only [Server.resume, hlive, Bool.false_eq_true, if_false, Scheduler.abort_seqs]
      split
      · next he =>
        subst he
        exact .ended hcons hstep hlive
      · exact .same
  | @hangup seq c hcons hlive =>
    have hgone : Consumer.gone.live = false := rfl
    simp only [Server.resume, hgone, Bool.false_eq_true, if_false, Scheduler.abort_seqs]
    split
    · next he =>
      subst he
      exact .hangup hcons hlive
    · exact .same
  | _ => exact .same

/-! ### The invariant -/

/-- Every verdict of a process is truthful. -/
structure VerdictInv (v : Server ρ) : Prop where
  fifo : Fifo v.api
  consumers : ∀ s c, v.consumers s = some c → s ∈ v.arrived
  truthful : ∀ s ∈ v.arrived, (v.sched.seqs s).Truthful
  sentinel : ∀ s ∈ v.arrived, none ∈ (v.sched.seqs s).queue → (v.sched.seqs s).isFinished = true
  /-- While the runner executes, a row of its batch may be given up, but gets no other verdict. -/
  inflight : ∀ t, v.loopTask = some t → t.pc = .executing → ∀ s ∈ t.batch,
    (v.sched.seqs s).finishReason ≠ some .stop ∧ (v.sched.seqs s).finishReason ≠ some .length

theorem VerdictInv.init (m t : ℤ) : VerdictInv (Server.init m t : Server ρ) where
  fifo := Fifo.init m t
  consumers := by intro s c h; cases h
  truthful := by intro s hs; cases hs
  sentinel := by intro s hs; cases hs
  inflight := by intro t h; cases h

/-- The batch in flight arrived. -/
theorem VerdictInv.mem_arrived (hv : VerdictInv v) {t : LoopTask ρ} (htask : v.loopTask = some t)
    {s : SeqId} (hs : s ∈ t.batch) : s ∈ v.arrived := by
  have hsub := hv.fifo.batch_sublist
  have hbatch : v.api.batch = t.batch := by simp [Server.api, Server.batch, htask]
  rw [hbatch] at hsub
  exact hsub.subset hs

/-- A consumer that comes to an end by itself read the sentinel. -/
theorem none_mem_queue_of_over {decode : List Token → Text} {q : Sequence} {c c' : Consumer}
    (hstep : c.step decode q = some c') (hover : c'.live = false) : none ∈ q.queue := by
  cases c with
  | generating pos =>
    unfold Consumer.step at hstep
    dsimp only at hstep
    split at hstep
    · cases hstep
    · cases hstep
      cases hover
    · next hitem => exact List.mem_of_getElem? hitem
  | streaming reader =>
    simp only [Consumer.step, Option.map_eq_some_iff] at hstep
    obtain ⟨reader', hnext, rfl⟩ := hstep
    have hclosed : reader'.closed = true := by simpa [Consumer.live] using hover
    unfold StreamReader.next at hnext
    split at hnext
    · cases hnext
    · next hopen =>
      split at hnext
      · cases hnext
      · next hitem => exact List.mem_of_getElem? hitem
      · dsimp only at hnext
        split at hnext <;> cases hnext <;> exact absurd hclosed hopen
  | returned completion => cases hstep
  | gone => cases hstep

/-- **A verdict is never taken back, and only a sequence operation gives one.** -/
theorem VerdictInv.handled (hv : VerdictInv v) {s : SeqId} (hs : s ∈ v.arrived) {q : Sequence}
    (h : Handled runners v s e q) : q.Truthful ∧ (none ∈ q.queue → q.isFinished = true) := by
  have htrue := hv.truthful s hs
  cases h with
  | same => exact ⟨htrue, hv.sentinel s hs⟩
  | @record e token hrow =>
    cases e with
    | loop e =>
      cases e with
      | tickEnd nextIds =>
        obtain ⟨t, htask, hpc, hzip⟩ := hrow
        obtain ⟨hstop, hlength⟩ := hv.inflight t htask hpc s (List.of_mem_zip hzip).1
        refine ⟨Sequence.truthful_record (htrue.isOpen_of_ne hstop hlength) token hstop hlength, ?_⟩
        intro hnone
        rw [Sequence.record_queue, List.mem_append, List.mem_cons] at hnone
        rcases hnone with hold | hnew | hnew
        · exact Sequence.isFinished_record (hv.sentinel s hs hold) token
        · cases hnew
        · by_contra hlive
          rw [if_neg hlive] at hnew
          cases hnew
      | _ => cases hrow
    | _ => cases hrow
  | rowFailed hrow =>
    exact ⟨Sequence.truthful_abort htrue (Or.inr rfl), fun _ => Sequence.abort_isFinished _ _⟩
  | tornDown hdown hmem =>
    exact ⟨Sequence.truthful_fail htrue, fun _ => Sequence.fail_isFinished _⟩
  | ended hcons hstep hover =>
    exact ⟨Sequence.truthful_abort htrue (Or.inl rfl), fun _ => Sequence.abort_isFinished _ _⟩
  | hangup hcons hlive =>
    exact ⟨Sequence.truthful_abort htrue (Or.inl rfl), fun _ => Sequence.abort_isFinished _ _⟩

/-- **Where a verdict comes from**: an arrival keeps its verdict, gets a token, or had none and is
given up. -/
theorem VerdictInv.reason (hv : VerdictInv v) {s : SeqId} (hs : s ∈ v.arrived) {q : Sequence}
    (h : Handled runners v s e q) :
    q.finishReason = (v.sched.seqs s).finishReason ∨
      (∃ token, v.Returns s (some token) e ∧ q = (v.sched.seqs s).record token) ∨
      ∃ r, (r = .cancelled ∨ r = .error) ∧ GivesUp v s e r ∧
        (v.sched.seqs s).isFinished = false ∧ q.finishReason = some r := by
  have habort : ∀ r, (r = .cancelled ∨ r = .error) → GivesUp v s e r →
      ((v.sched.seqs s).abort r).finishReason = (v.sched.seqs s).finishReason ∨
      ∃ r', (r' = .cancelled ∨ r' = .error) ∧ GivesUp v s e r' ∧
        (v.sched.seqs s).isFinished = false ∧
        ((v.sched.seqs s).abort r).finishReason = some r' := by
    intro r hr hgives
    cases hf : (v.sched.seqs s).isFinished with
    | true =>
      rw [Sequence.abort_of_isFinished hf]
      exact Or.inl rfl
    | false =>
      rw [Sequence.abort_of_not_isFinished hf]
      exact Or.inr ⟨r, hr, hgives, rfl, rfl⟩
  cases h with
  | same => exact Or.inl rfl
  | record token hrow => exact Or.inr (Or.inl ⟨token, hrow, rfl⟩)
  | rowFailed hrow => exact (habort .error (Or.inr rfl) (.rowFailed hrow)).imp_right Or.inr
  | tornDown hdown hmem =>
    cases hf : (v.sched.seqs s).isFinished with
    | true =>
      rw [Sequence.fail_of_isFinished hf]
      exact Or.inl rfl
    | false =>
      rw [Sequence.fail_of_not_isFinished hf]
      exact Or.inr (Or.inr ⟨.error, Or.inr rfl, .tornDown hdown hmem, rfl, rfl⟩)
  | ended hcons hstep hover =>
    -- it has read the sentinel, so there is a verdict already
    have hf := hv.sentinel s hs (none_mem_queue_of_over hstep hover)
    rw [Sequence.abort_of_isFinished hf]
    exact Or.inl rfl
  | hangup hcons hlive => exact (habort .cancelled (Or.inl rfl) .hangup).imp_right Or.inr

/-- Only the end of a tick brings a token. -/
theorem Server.Returns.isTickEnd {s : SeqId} {result : Option Token} (h : v.Returns s result e) :
    ∃ nextIds, e = .loop (.tickEnd nextIds) := by
  cases e with
  | loop e =>
    cases e with
    | tickEnd nextIds => exact ⟨nextIds, rfl⟩
    | _ => cases h
  | _ => cases h

/-- What is not the end of a tick gives no verdict of `stop` or `length`. -/
theorem VerdictInv.ne_of_step (hv : VerdictInv v) (h : v.step runners e = some v')
    (he : ∀ nextIds, e ≠ .loop (.tickEnd nextIds)) {s : SeqId} (hs : s ∈ v.arrived)
    (hne : (v.sched.seqs s).finishReason ≠ some .stop ∧
      (v.sched.seqs s).finishReason ≠ some .length) :
    (v'.sched.seqs s).finishReason ≠ some .stop ∧
      (v'.sched.seqs s).finishReason ≠ some .length := by
  rcases hv.reason hs (handled_of_step hv.fifo h hs) with hsame | ⟨token, hrow, -⟩ |
    ⟨r, hr, -, -, hreason⟩
  · rwa [hsame]
  · obtain ⟨nextIds, rfl⟩ := hrow.isTickEnd
    exact absurd rfl (he nextIds)
  · rw [hreason]
    rcases hr with rfl | rfl <;> simp

/-- An arrival was there before, or was just submitted. -/
theorem arrived_of_step (h : v.step runners e = some v') {s : SeqId} (hs : s ∈ v'.arrived) :
    s ∈ v.arrived ∨ ∃ req : Request,
      v'.sched.seqs s = ({ toRequest := req } : Sequence).settle := by
  have hsubmit : ∀ (u : Server ρ) (seq : SeqId) (body : CompletionRequest),
      s ∈ (u.submit runners seq body).arrived → s ∈ u.arrived ∨ ∃ req : Request,
        (u.submit runners seq body).sched.seqs s = ({ toRequest := req } : Sequence).settle := by
    intro u seq body hmem
    rcases List.mem_append.mp hmem with hold | hnew
    · exact Or.inl hold
    · obtain rfl := List.mem_singleton.mp hnew
      exact Or.inr ⟨promptToSequence (runners u.engine) body,
        by simp [Server.submit, Scheduler.submit_seqs]⟩
  cases moves_of_step h with
  | submit hlive hnew => exact hsubmit v _ _ hs
  | @beginBody seq i body hnew hbody => exact hsubmit _ _ _ hs
  | _ => exact Or.inl hs

/-- The consumers read sequences that arrived. -/
theorem consumers_of_step (hv : ∀ s c, v.consumers s = some c → s ∈ v.arrived)
    (h : v.step runners e = some v') : ∀ s c, v'.consumers s = some c → s ∈ v'.arrived := by
  intro s c hc
  cases moves_of_step h with
  | @submit seq body hlive hnew =>
    by_cases hs : s = seq
    · exact List.mem_append_right _ (by simp [hs])
    · exact List.mem_append_left _ (hv s c (by simpa [Server.submit, hs] using hc))
  | @beginBody seq i body hnew hbody =>
    by_cases hs : s = seq
    · exact List.mem_append_right _ (by simp [hs])
    · exact List.mem_append_left _ (hv s c (by simpa [Server.submit, hs] using hc))
  | @read seq c₀ c' hcons hstep =>
    by_cases hs : s = seq
    · exact hs ▸ hv seq c₀ hcons
    · exact hv s c (by simpa [Server.resume, hs] using hc)
  | @hangup seq c₀ hcons hlive =>
    by_cases hs : s = seq
    · exact hs ▸ hv seq c₀ hcons
    · exact hv s c (by simpa [Server.resume, hs] using hc)
  | _ => exact hv s c hc

/-- Where a call is after an event: it did not move, it was just made, it woke up, or its client hung
up. -/
theorem consumer_of_step (h : v.step runners e = some v') {s : SeqId} {c' : Consumer}
    (hc : v'.consumers s = some c') :
    (v.consumers s = some c' ∧ e ≠ .hangup s) ∨
      (s ∉ v.arrived ∧ (c' = .generating 0 ∨ c' = .streaming {}) ∧ ∃ req : Request,
        v'.sched.seqs s = ({ toRequest := req } : Sequence).settle) ∨
      (∃ c, v.consumers s = some c ∧ e ≠ .hangup s ∧
        c.step (runners v.engine).decode (v.sched.seqs s) = some c') ∨ c' = .gone := by
  have hsubmit : ∀ (u : Server ρ) (seq : SeqId) (body : CompletionRequest), seq ∉ u.arrived →
      (u.submit runners seq body).consumers s = some c' → (u.consumers s = some c') ∨
        (s ∉ u.arrived ∧ (c' = .generating 0 ∨ c' = .streaming {}) ∧ ∃ req : Request,
          (u.submit runners seq body).sched.seqs s = ({ toRequest := req } : Sequence).settle) := by
    intro u seq body hnew hcons
    by_cases hseq : s = seq
    · subst hseq
      refine Or.inr ⟨hnew, ?_, promptToSequence (runners u.engine) body,
        by simp [Server.submit, Scheduler.submit_seqs]⟩
      simp only [Server.submit, if_true, Option.some.injEq] at hcons
      rw [← hcons]
      split
      · exact Or.inr rfl
      · exact Or.inl rfl
    · exact Or.inl (by simpa [Server.submit, hseq] using hcons)
  cases moves_of_step h with
  | submit hlive hnew =>
    exact (hsubmit v _ _ hnew hc).imp (fun hold => ⟨hold, by simp⟩) Or.inl
  | @beginBody seq i body hnew hbody =>
    exact (hsubmit { v with pending := v.pending.eraseIdx i } _ _ hnew hc).imp
      (fun hold => ⟨hold, by simp⟩) Or.inl
  | @read seq c c₁ hcons hstep =>
    by_cases hseq : s = seq
    · subst hseq
      obtain rfl : c₁ = c' := by simpa [Server.resume] using hc
      exact Or.inr (Or.inr (Or.inl ⟨c, hcons, by simp, hstep⟩))
    · exact Or.inl ⟨by simpa [Server.resume, hseq] using hc, by simp⟩
  | @hangup seq c hcons hlive =>
    by_cases hseq : s = seq
    · subst hseq
      exact Or.inr (Or.inr (Or.inr (by simpa [Server.resume] using hc.symm)))
    · exact Or.inl ⟨by simpa [Server.resume, hseq] using hc, by simpa using Ne.symm hseq⟩
  | _ => exact Or.inl ⟨hc, by simp⟩

/-- A task is handed a batch of arrivals without a verdict, or had its batch already. -/
theorem executing_of_step (hx : Fifo v.api) (h : v.step runners e = some v') {t' : LoopTask ρ}
    (htask' : v'.loopTask = some t') (hpc' : t'.pc = .executing) :
    (∀ s ∈ t'.batch, (v'.sched.seqs s).isFinished = false) ∨
      (v.loopTask = some t' ∧ ∀ nextIds, e ≠ .loop (.tickEnd nextIds)) := by
  cases moves_of_step h with
  | startup hnone =>
    obtain rfl := Option.some.inj htask'
    cases hpc'
  | swap htask hold hpc =>
    obtain rfl := Option.some.inj htask'
    cases hpc'
  | @loop e t w htask hstep =>
    obtain rfl := Option.some.inj htask'
    have hwx := fifo_world hx htask
    cases fires_of_step hstep with
    | tickStart hpc hwork hbatch =>
      exact Or.inl fun s hs => Scheduler.isFinished_of_mem_schedule hwx.waiting_live hs
    | drain hpc hwork hbatch => cases hpc.symm.trans hpc'
    | _ => cases hpc'
  | _ => exact Or.inr ⟨htask', by simp⟩

/-- **Every event keeps every verdict truthful.** -/
theorem VerdictInv.step (hv : VerdictInv v) (h : v.step runners e = some v') : VerdictInv v' := by
  have hseq : ∀ s ∈ v'.arrived, (v'.sched.seqs s).Truthful ∧
      (none ∈ (v'.sched.seqs s).queue → (v'.sched.seqs s).isFinished = true) := by
    intro s hs
    rcases arrived_of_step h hs with hold | ⟨req, hnew⟩
    · exact hv.handled hold (handled_of_step hv.fifo h hold)
    · rw [hnew]
      refine ⟨Sequence.truthful_settle req, ?_⟩
      unfold Sequence.settle
      split
      · intro _
        rfl
      · intro hnone
        cases hnone
  refine ⟨fifo_step hv.fifo h, consumers_of_step hv.consumers h, fun s hs => (hseq s hs).1,
    fun s hs => (hseq s hs).2, ?_⟩
  intro t' htask' hpc' s hs
  rcases executing_of_step hv.fifo h htask' hpc' with hlive | ⟨htask, he⟩
  · have hnone : (v'.sched.seqs s).finishReason = none := by
      simpa [Sequence.isFinished] using hlive s hs
    simp [hnone]
  · exact hv.ne_of_step h he (hv.mem_arrived htask hs) (hv.inflight t' htask hpc' s hs)

theorem verdictInv_reachable {m t : ℤ} {events : List Event}
    (h : run (Server.step runners) (Server.init m t) events = some v) : VerdictInv v :=
  run_invariant VerdictInv (fun hv hs => VerdictInv.step hv hs) (VerdictInv.init m t) h

/-! ### Every run -/

/-- **A verdict can be read off the tokens.**  In every run of the process, with any deaths, swaps
and hang-ups: an arrival has the verdict `stop` exactly when a stop token was generated for it,
and `length` exactly when none was and its budget is used up; a stop token is only ever the
last token, and no request gets more tokens than it asked for. -/
theorem verdict_tells {m t : ℤ} {events : List Event}
    (h : run (Server.step runners) (Server.init m t) events = some v) {s : SeqId}
    (hs : s ∈ v.arrived) :
    let q := v.sched.seqs s
    (q.finishReason = some .stop ↔ ∃ token ∈ q.outputIds, token ∈ q.eosTokenIds) ∧
      (q.finishReason = some .length ↔
        (∀ token ∈ q.outputIds, token ∉ q.eosTokenIds) ∧ q.maxNewTokens ≤ q.outputIds.length) ∧
      (∀ token ∈ q.outputIds.dropLast, token ∉ q.eosTokenIds) ∧
      (q.outputIds.length : ℤ) ≤ max q.maxNewTokens 0 :=
  ((verdictInv_reachable h).truthful s hs).tells

/-- The client hangs up while the tick is under way that generates its stop token. -/
theorem verdict_tells_hung_up :
    let events : List Event := [.startup, .post 0 { prompt := ['h'], maxTokens := 3 },
      .loop .iterate, .loop (.tickEnd [some 5]), .loop .iterate, .hangup 0,
      .loop (.tickEnd [some 2])]
    let v := runD (Server.step fun _ => { mock with eosTokenIds := {2} })
      (Server.init 8 8192 : Server Unit) events
    (v.sched.seqs 0).finishReason = some .stop := by
  intro events v
  have h := run_eq_runD (show (run (Server.step fun _ => { mock with eosTokenIds := {2} })
    (Server.init 8 8192 : Server Unit) events).isSome = true by decide)
  exact (verdict_tells h (s := 0) (by decide)).1.mpr (by decide)

/-- **No request is given up without a cause of its own.**  If an arrival ends as `cancelled`, its
client hung up before it had a verdict; if it ends as `error`, then before it had one its own
row came back `None`, or a loop was torn down in the middle of a tick while it was queued. -/
theorem verdict_to_blame {m t : ℤ} {events : List Event}
    (h : run (Server.step runners) (Server.init m t) events = some v) {s : SeqId}
    (hs : s ∈ v.arrived) {r : FinishReason} (hr : r = .cancelled ∨ r = .error)
    (hreason : (v.sched.seqs s).finishReason = some r) :
    Takes (Server.step runners)
      (fun u e => (u.sched.seqs s).isFinished = false ∧ GivesUp u s e r) (Server.init m t)
      events := by
  have key := run_or_takes
    (P := fun u e => (u.sched.seqs s).isFinished = false ∧ GivesUp u s e r)
    (fun u : Server ρ => VerdictInv u ∧ (s ∈ u.arrived → (u.sched.seqs s).finishReason ≠ some r))
    ?_ ⟨VerdictInv.init m t, by intro hs; cases hs⟩ h
  · rcases key with htakes | ⟨-, hno⟩
    · exact htakes
    · exact absurd hreason (hno hs)
  · rintro u e u' ⟨hu, hno⟩ hstep
    by_cases hold : s ∈ u.arrived
    · rcases hu.reason hold (handled_of_step hu.fifo hstep hold) with hsame |
        ⟨token, hrow, hrec⟩ | ⟨r', -, hgives, hlive, hr'⟩
      · exact Or.inr ⟨hu.step hstep, fun _ => hsame ▸ hno hold⟩
      · refine Or.inr ⟨hu.step hstep, fun _ => ?_⟩
        rw [hrec, Sequence.record_finishReason]
        split
        · rcases hr with rfl | rfl <;> simp
        · split
          · rcases hr with rfl | rfl <;> simp
          · exact hno hold
      · by_cases hrr : r' = r
        · exact Or.inl ⟨hlive, hrr ▸ hgives⟩
        · refine Or.inr ⟨hu.step hstep, fun _ => ?_⟩
          rw [hr']
          exact fun heq => hrr (Option.some.inj heq)
    · refine Or.inr ⟨hu.step hstep, fun hs' => ?_⟩
      rcases arrived_of_step hstep hs' with hs' | ⟨req, hnew⟩
      · exact absurd hs' hold
      · rw [hnew]
        unfold Sequence.settle
        split
        · rcases hr with rfl | rfl <;> simp
        · simp

/-- Two requests share a tick; the row of one comes back `None`. -/
theorem verdict_to_blame_row :
    let events : List Event := [.startup, .post 0 { prompt := ['h'] },
      .post 1 { prompt := ['i'] }, .loop .iterate, .loop (.tickEnd [some 5, none])]
    Takes (Server.step fun _ => mock)
      (fun u e => (u.sched.seqs 1).isFinished = false ∧ GivesUp u 1 e .error)
      (Server.init 8 8192) events := by
  intro events
  have h := run_eq_runD (show (run (Server.step fun _ => mock)
    (Server.init 8 8192 : Server Unit) events).isSome = true by decide)
  exact verdict_to_blame h (by decide) (Or.inr rfl) (by decide)

/-! ### One loop by itself -/

section Loop

variable {R : ModelRunner ρ} {w w' : World ρ} {a : Act}

/-- Every verdict that one loop gives is truthful. -/
structure LoopVerdicts (w : World ρ) : Prop where
  fifo : Fifo w.api
  truthful : ∀ s ∈ w.arrived, (w.sched.seqs s).Truthful
  inflight : w.loop.pc = .executing → ∀ s ∈ w.loop.batch,
    (w.sched.seqs s).finishReason ≠ some .stop ∧ (w.sched.seqs s).finishReason ≠ some .length

theorem LoopVerdicts.init (m t : ℤ) (r : ρ) : LoopVerdicts (World.init m t r) where
  fifo := Fifo.init m t
  truthful := by intro s hs; cases hs
  inflight := by intro h; cases h

/-- A row in flight is open. -/
theorem LoopVerdicts.isOpen (hw : LoopVerdicts w) (hpc : w.loop.pc = .executing) {s : SeqId}
    (hs : s ∈ w.loop.batch) : (w.sched.seqs s).Open := by
  obtain ⟨hstop, hlength⟩ := hw.inflight hpc s hs
  exact (hw.truthful s (hw.fifo.batch_sublist.subset hs)).isOpen_of_ne hstop hlength

/-- Outside the end of a tick nobody gets a verdict of `stop` or `length`. -/
theorem touch_finishReason {s : SeqId} {q : Sequence} (htouch : Touch w s a q)
    (ha : ∀ nextIds, a ≠ .loop (.tickEnd nextIds))
    (hne : (w.sched.seqs s).finishReason ≠ some .stop ∧
      (w.sched.seqs s).finishReason ≠ some .length) :
    q.finishReason ≠ some .stop ∧ q.finishReason ≠ some .length := by
  cases htouch with
  | same => exact hne
  | @record nextIds token hpc hrow => exact absurd rfl (ha nextIds)
  | abort r hr =>
    unfold Sequence.abort
    split
    · exact hne
    · rcases hr with rfl | rfl <;> simp
  | fail hkind hpc hmem =>
    unfold Sequence.fail
    split
    · exact hne
    · simp

/-- **Every event of a loop keeps every verdict truthful.** -/
theorem LoopVerdicts.step (hw : LoopVerdicts w) (h : w.step R a = some w') : LoopVerdicts w' := by
  have hx := hw.fifo
  have hx' : Fifo w'.api := run_invariant Fifo (fun hx hs => Fifo.step hx hs) hx (step_ops hx h)
  refine ⟨hx', ?_, ?_⟩
  · intro s hs
    by_cases hold : s ∈ w.arrived
    · have htrue := hw.truthful s hold
      have htouch := touch_of_step hx h hold
      generalize w'.sched.seqs s = q at htouch ⊢
      cases htouch with
      | same => exact htrue
      | @record nextIds token hpc hrow =>
        have hbatch := (List.of_mem_zip hrow).1
        obtain ⟨hstop, hlength⟩ := hw.inflight hpc s hbatch
        exact Sequence.truthful_record (hw.isOpen hpc hbatch) token hstop hlength
      | abort r hr => exact Sequence.truthful_abort htrue hr
      | fail hkind hpc hmem => exact Sequence.truthful_fail htrue
    · obtain ⟨req, -, hseq⟩ := new_arrival hx h hold hs
      rw [hseq]
      exact Sequence.truthful_settle req
  · intro hpc' s hs
    cases fires_of_step h with
    | add | abort =>
      exact touch_finishReason (touch_of_step hx h (hx.batch_sublist.subset hs)) (by simp)
        (hw.inflight hpc' s hs)
    | tickStart hpc hwork hbatch =>
      have hlive : (w.sched.seqs s).isFinished = false :=
        Scheduler.isFinished_of_mem_schedule hx.waiting_live hs
      have hnone : (w.sched.seqs s).finishReason = none := by
        simpa [Sequence.isFinished] using hlive
      simp [hnone]
    | drain hpc hwork hbatch => cases hpc.symm.trans hpc'
    | _ => cases hpc'

theorem loopVerdicts_reachable {m t : ℤ} {r : ρ} {acts : List Act}
    (h : run (World.step R) (World.init m t r) acts = some w) : LoopVerdicts w :=
  run_invariant LoopVerdicts (fun hw hs => LoopVerdicts.step hw hs) (LoopVerdicts.init m t r) h

end Loop

end NanoKube
