import NanoKube.Server

/-!
# The runner swap

Token ids only mean something to the tokenizer they came from.  The scheduler and its
queues outlive the swap of the runner, and `generate` and `stream` look up
`engine.runner` again each time they decode.  Whether a sequence of the old runner ends
up with the new one depends on where the old loop is suspended when it is cancelled,
and on which consumers still have something to decode.

## Main definitions

* `Unmixed` — every `execute` got sequences its own tokenizer made, and every `decode`
  got tokens its own `execute` made.
* `NoLeftover` — nothing of the old runner is left when it would matter.

## Main results

* `SwapInv.step` — while nothing is left over, tokens come from whoever encoded.
* `unmixed_iff` — the vocabularies never mix, exactly in the runs without leftovers.
-/

namespace NanoKube

open Scheduler (lookup_eq_some_iff map_fst_zip_sublist)

variable {ρ : Type*} {runners : RunnerName → Runner ρ} {v v' : Server ρ} {e : Event}

/-- Every batch handed to a runner's `execute` was encoded by that runner, and every output
handed to a runner's `decode` was generated by that runner. -/
structure Unmixed (v : Server ρ) : Prop where
  executed : ∀ call ∈ v.log.executed, ∀ s ∈ call.2, v.log.encoder s = call.1
  decoded : ∀ call ∈ v.log.decoded, ∀ maker ∈ call.2, maker = call.1

/-- The consumer of the sequence makes a `decode` call when it next wakes up. -/
def Server.decodesNext (v : Server ρ) (s : SeqId) : Bool :=
  (v.consumers s).elim false fun c => c.decodes (v.sched.seqs s)

/-- When the new loop hands over a batch, every sequence submitted before the swap has its
verdict; and no consumer decodes, after the swap, output of a sequence submitted before it. -/
def NoLeftover (v : Server ρ) : Event → Prop
  | .loop .iterate => v.engine = .loaded → v.sched.schedule.2 ≠ [] →
      ∀ s ∈ v.arrived, (v.sched.seqs s).isFinished = false → v.log.encoder s = .loaded
  | .read s => v.engine = .loaded → v.log.encoder s = .mock → v.decodesNext s = true →
      (v.sched.seqs s).outputIds = []
  | _ => True

instance (v : Server ρ) : ∀ e, Decidable (NoLeftover v e)
  | .loop .iterate => by unfold NoLeftover; infer_instance
  | .read _ => by unfold NoLeftover; infer_instance
  | .startup | .post _ _ | .beginBody _ _ | .oldCancel | .swap | .hangup _ => isTrue trivial
  | .loop .wake | .loop (.tickEnd _) | .loop .raise | .loop .cancel => isTrue trivial

/-- While nothing was left over: who encoded a sequence also made its tokens. -/
structure SwapInv (v : Server ρ) : Prop where
  fifo : Fifo v.api
  consumers : ∀ s c, v.consumers s = some c → s ∈ v.arrived
  /-- Before the swap there is only the mock. -/
  before : v.engine = .mock → ∀ s ∈ v.arrived, v.log.encoder s = .mock
  /-- Sequences of the old runner arrived before those of the new one. -/
  sorted : v.arrived.Pairwise fun s s' => v.log.encoder s = .loaded → v.log.encoder s' = .loaded
  makers : ∀ s ∈ v.arrived, ∀ g ∈ v.log.makers s, g = v.log.encoder s
  count : ∀ s ∈ v.arrived, (v.log.makers s).length = (v.sched.seqs s).outputIds.length
  inflight : ∀ t, v.loopTask = some t → t.pc = .executing → ∀ s ∈ t.batch,
    v.log.encoder s = v.engine

/-! ### The invariant -/

theorem SwapInv.init (m t : ℤ) : SwapInv (Server.init m t : Server ρ) where
  fifo := Fifo.init m t
  consumers := by intro s c h; cases h
  before := by intro _ s hs; cases hs
  sorted := List.Pairwise.nil
  makers := by intro s hs; cases hs
  count := by intro s hs; cases hs
  inflight := by intro t h; cases h

/-- The batch is the beginning of the unfinished arrivals. -/
theorem Fifo.schedule_prefix {x : Api} (h : Fifo x) :
    x.sched.schedule.2 <+: x.arrived.filter x.live := by
  obtain ⟨admitted, hadm, hbatch, -⟩ := x.sched.schedule_spec
  rw [hbatch, ← h.live_eq, hadm, ← List.append_assoc]
  exact List.prefix_append ..

/-- Without a leftover, the runner that will execute the batch encoded all of it. -/
theorem SwapInv.encoder_of_schedule (hv : SwapInv v) (hok : NoLeftover v (.loop .iterate))
    (hbatch : v.sched.schedule.2 ≠ []) {s : SeqId} (hs : s ∈ v.sched.schedule.2) :
    v.log.encoder s = v.engine := by
  have harr : s ∈ v.arrived := (List.mem_filter.mp (hv.fifo.schedule_prefix.subset hs)).1
  have hlive : (v.sched.seqs s).isFinished = false :=
    Scheduler.isFinished_of_mem_schedule hv.fifo.waiting_live hs
  cases hengine : v.engine with
  | mock => exact hv.before hengine s harr
  | loaded => exact hok hengine hbatch s harr hlive

theorem SwapInv.submit (hv : SwapInv v) {seq : SeqId} (hnew : seq ∉ v.arrived)
    (body : CompletionRequest) : SwapInv (v.submit runners seq body) := by
  have hne : ∀ s ∈ v.arrived, s ≠ seq := fun s hs he => hnew (he ▸ hs)
  refine ⟨hv.fifo.add hnew _, ?_, ?_, ?_, ?_, ?_, ?_⟩
  · intro s c hc
    by_cases hs : s = seq
    · exact List.mem_append_right _ (by simp [hs])
    · exact List.mem_append_left _ (hv.consumers s c (by simpa [Server.submit, hs] using hc))
  · intro hmock s hs
    simp only [Server.submit] at hmock ⊢
    rcases List.mem_append.mp hs with hs | hs
    · rw [if_neg (hne s hs)]
      exact hv.before hmock s hs
    · rw [if_pos (by simpa using hs), hmock]
  · have hold : v.arrived.Pairwise fun s s' =>
        (v.submit runners seq body).log.encoder s = .loaded →
          (v.submit runners seq body).log.encoder s' = .loaded := by
      apply hv.sorted.imp_of_mem
      intro s s' hs hs' himp
      simpa [Server.submit, hne s hs, hne s' hs'] using himp
    refine List.pairwise_append.mpr ⟨hold, List.pairwise_singleton .., ?_⟩
    intro s hs s' hs' hloaded
    -- an older sequence can only be of the new runner after the swap
    simp only [Server.submit, if_neg (hne s hs)] at hloaded ⊢
    rw [if_pos (by simpa using hs')]
    cases hengine : v.engine with
    | loaded => rfl
    | mock =>
      rw [hv.before hengine s hs] at hloaded
      cases hloaded
  · intro s hs g hg
    simp only [Server.submit] at hg ⊢
    rcases List.mem_append.mp hs with hs | hs
    · rw [if_neg (hne s hs)] at hg ⊢
      exact hv.makers s hs g hg
    · rw [if_pos (by simpa using hs)] at hg
      cases hg
  · intro s hs
    simp only [Server.submit, Scheduler.submit_seqs]
    rcases List.mem_append.mp hs with hs | hs
    · rw [if_neg (hne s hs), if_neg (hne s hs)]
      exact hv.count s hs
    · rw [if_pos (by simpa using hs), if_pos (by simpa using hs)]
      simp
  · intro t ht hpc s hs
    have harr : s ∈ v.arrived := by
      have hsub := hv.fifo.batch_sublist
      have hbatch : v.batch = t.batch := by
        have ht' : v.loopTask = some t := ht
        simp [Server.batch, ht']
      exact hsub.subset (by simpa [Server.api, hbatch] using hs)
    simp only [Server.submit, if_neg (hne s harr)]
    exact hv.inflight t ht hpc s hs

theorem SwapInv.resume (hv : SwapInv v) {seq : SeqId} (hseq : seq ∈ v.arrived) (c : Consumer)
    (hfifo : Fifo (v.resume seq c).api) : SwapInv (v.resume seq c) := by
  refine ⟨hfifo, ?_, hv.before, hv.sorted, hv.makers, ?_, hv.inflight⟩
  · intro s c' hc
    by_cases hs : s = seq
    · exact hs ▸ hseq
    · exact hv.consumers s c' (by simpa [Server.resume, hs] using hc)
  · intro s hs
    rw [(resume_seqs v seq c s).2]
    exact hv.count s hs

theorem logLoop_makers (v : Server ρ) (t t' : LoopTask ρ) {e : LoopEvent}
    (h : ∀ nextIds, e ≠ .tickEnd nextIds) : (v.logLoop t t' e).makers = v.log.makers := by
  cases e with
  | tickEnd nextIds => exact absurd rfl (h nextIds)
  | iterate =>
    simp only [Server.logLoop]
    split <;> rfl
  | _ => rfl

/-- **A tick without leftovers**: the batch is the new runner's own, and so are its tokens. -/
theorem SwapInv.loop (hv : SwapInv v) {e : LoopEvent} {t : LoopTask ρ} {w : World ρ}
    (htask : v.loopTask = some t)
    (hstep : (v.world t).step (runners v.engine).toModelRunner (.loop e) = some w)
    (hok : NoLeftover v (.loop e))
    (hfifo : Fifo
      ({ v with sched := w.sched, loopTask := some w.loop, log := v.logLoop t w.loop e }
        : Server ρ).api) :
    SwapInv
      { v with sched := w.sched, loopTask := some w.loop, log := v.logLoop t w.loop e } := by
  have hwx := fifo_world hv.fifo htask
  refine ⟨hfifo, hv.consumers, ?_, ?_, ?_, ?_, ?_⟩
  · simpa only [logLoop_encoder] using hv.before
  · simpa only [logLoop_encoder] using hv.sorted
  · intro s hs g hg
    rw [logLoop_encoder]
    cases e with
    | tickEnd nextIds =>
      simp only [Server.logLoop] at hg
      split at hg
      · next token hfound =>
        rcases List.mem_append.mp hg with hg | hg
        · exact hv.makers s hs g hg
        · -- a token of this tick, for a member of the batch
          have hkeys := (map_fst_zip_sublist t.batch nextIds).nodup hwx.nodup_batch
          have hmem := (List.of_mem_zip ((lookup_eq_some_iff hkeys).mp hfound)).1
          have hpc : t.pc = .executing := by
            cases fires_of_step hstep with
            | tickEnd hpc => exact hpc
          rw [List.mem_singleton.mp hg, hv.inflight t htask hpc s hmem]
      · exact hv.makers s hs g hg
    | _ =>
      rw [logLoop_makers _ _ _ (by simp)] at hg
      exact hv.makers s hs g hg
  · intro s hs
    cases e with
    | tickEnd nextIds =>
      have hseq : w.sched.seqs s = (v.world t).seqAfter s (.loop (.tickEnd nextIds)) :=
        seqs_of_step hwx hstep s
      have hbatch : (v.world t).loop.batch = t.batch := rfl
      simp only [Server.logLoop, hseq, World.seqAfter, hbatch]
      cases hfound : (t.batch.zip nextIds).lookup s with
      | none => exact hv.count s hs
      | some o =>
        cases o with
        | none => simpa [Server.world] using hv.count s hs
        | some token => simpa [Server.world] using hv.count s hs
    | _ =>
      rw [logLoop_makers _ _ _ (by simp)]
      rw [show (w.sched.seqs s).outputIds = (v.sched.seqs s).outputIds from
        outputIds_step hwx hstep hs (by simp)]
      exact hv.count s hs
  · intro t' ht' hpc s hs
    obtain rfl : w.loop = t' := Option.some.inj ht'
    rw [logLoop_encoder]
    cases fires_of_step hstep with
    | tickStart hpc' hwork hbatch =>
      exact hv.encoder_of_schedule hok hbatch hs
    | drain hpc' hwork hbatch =>
      have htop : t.pc = .executing := hpc
      have htop' : t.pc = .top := hpc'
      rw [htop'] at htop
      cases htop
    | _ => cases hpc

/-- **Without leftovers every token comes from whoever encoded its sequence.** -/
theorem SwapInv.step (hv : SwapInv v) (hok : NoLeftover v e) (h : v.step runners e = some v') :
    SwapInv v' := by
  have hfifo := fifo_step hv.fifo h
  cases moves_of_step h with
  | startup hnone =>
    refine ⟨hfifo, hv.consumers, hv.before, hv.sorted, hv.makers, hv.count, ?_⟩
    intro t ht hpc
    obtain rfl : Server.newTask runners v.engine = t := Option.some.inj ht
    cases hpc
  | refuse hdead => exact hv
  | respond hlive hstream =>
    exact ⟨hfifo, hv.consumers, hv.before, hv.sorted, hv.makers, hv.count, hv.inflight⟩
  | submit hlive hnew => exact hv.submit hnew _
  | @beginBody seq i body hnew hbody =>
    have hv' : SwapInv ({ v with pending := v.pending.eraseIdx i } : Server ρ) :=
      ⟨hv.fifo, hv.consumers, hv.before, hv.sorted, hv.makers, hv.count, hv.inflight⟩
    exact hv'.submit hnew body
  | loop htask hstep => exact hv.loop htask hstep hok hfifo
  | @oldCancel t w htask hstep =>
    refine ⟨hfifo, hv.consumers, hv.before, hv.sorted, hv.makers, ?_, hv.inflight⟩
    intro s hs
    -- a teardown generates nothing
    rw [(oldCancel_seqs hv.fifo hstep s).2]
    exact hv.count s hs
  | swap htask hold hpc =>
    refine ⟨hfifo, hv.consumers, ?_, hv.sorted, hv.makers, hv.count, ?_⟩
    · intro hmock
      cases hmock
    · intro t ht hpc
      obtain rfl : Server.newTask runners .loaded = t := Option.some.inj ht
      cases hpc
  | @read seq c c' hcons hstep =>
    have hres := hv.resume (hv.consumers _ _ hcons) c' hfifo
    -- the call of `decode` is only noted
    cases hdec : c.decodes (v.sched.seqs seq) with
    | false => exact hres
    | true =>
      exact ⟨hfifo, hres.consumers, hres.before, hres.sorted, hres.makers, hres.count,
        hres.inflight⟩
  | hangup hcons hlive => exact hv.resume (hv.consumers _ _ hcons) .gone hfifo

/-! ### The calls of the runners -/

/-- Every batch in the history consists of arrivals. -/
def Logged (v : Server ρ) : Prop :=
  Fifo v.api ∧ ∀ call ∈ v.log.executed, ∀ s ∈ call.2, s ∈ v.arrived

/-- The call of `execute` an event makes. -/
def Server.executes (v : Server ρ) : Event → List (RunnerName × List SeqId)
  | .loop .iterate => if v.sched.schedule.2 = [] then [] else [(v.engine, v.sched.schedule.2)]
  | _ => []

/-- The call of `decode` an event makes. -/
def Server.decodeCalls (v : Server ρ) : Event → List (RunnerName × List RunnerName)
  | .read s => if v.decodesNext s then [(v.engine, v.log.makers s)] else []
  | _ => []

/-- **What one event adds to the history**: its calls.  What is known of the arrivals stays. -/
theorem log_step (h : v.step runners e = some v') :
    v'.log.executed = v.log.executed ++ v.executes e ∧
      v'.log.decoded = v.log.decoded ++ v.decodeCalls e ∧
      ∀ s ∈ v.arrived, s ∈ v'.arrived ∧ v'.log.encoder s = v.log.encoder s := by
  have hsubmit : ∀ seq : SeqId, seq ∉ v.arrived → ∀ s ∈ v.arrived,
      s ∈ v.arrived ++ [seq] ∧
        (if s = seq then v.engine else v.log.encoder s) = v.log.encoder s := by
    intro seq hnew s hs
    have hne : s ≠ seq := fun he => hnew (he ▸ hs)
    exact ⟨List.mem_append_left _ hs, if_neg hne⟩
  cases moves_of_step h with
  | submit hlive hnew =>
    exact ⟨(List.append_nil _).symm, (List.append_nil _).symm, hsubmit _ hnew⟩
  | beginBody hnew hbody =>
    exact ⟨(List.append_nil _).symm, (List.append_nil _).symm, hsubmit _ hnew⟩
  | @loop e t w htask hstep =>
    have harr : ∀ s ∈ v.arrived,
        s ∈ v.arrived ∧ (v.logLoop t w.loop e).encoder s = v.log.encoder s :=
      fun s hs => ⟨hs, by rw [logLoop_encoder]⟩
    cases e with
    | iterate =>
      cases fires_of_step hstep with
      | doze hpc hwork =>
        have hbatch : v.sched.schedule.2 = [] := Scheduler.schedule_of_no_work hwork
        exact ⟨by simp [Server.executes, hbatch, Server.logLoop], (List.append_nil _).symm, harr⟩
      | drain hpc hwork hbatch =>
        have hpc' : t.pc = .top := hpc
        have hbatch' : v.sched.schedule.2 = [] := hbatch
        refine ⟨?_, ?_, harr⟩
        · simp [Server.executes, hbatch', Server.logLoop, Server.world, hpc']
        · simp [Server.decodeCalls, Server.logLoop, Server.world, hpc']
      | tickStart hpc hwork hbatch =>
        have hbatch' : v.sched.schedule.2 ≠ [] := hbatch
        refine ⟨?_, (List.append_nil _).symm, harr⟩
        simp [Server.executes, hbatch', Server.logLoop, Server.world]
    | _ => exact ⟨(List.append_nil _).symm, (List.append_nil _).symm, harr⟩
  | @read seq c c' hcons hstep =>
    have hnext : v.decodesNext seq = c.decodes (v.sched.seqs seq) := by
      simp [Server.decodesNext, hcons]
    dsimp only [Server.executes, Server.decodeCalls]
    rw [hnext]
    cases c.decodes (v.sched.seqs seq) with
    | false => exact ⟨(List.append_nil _).symm, (List.append_nil _).symm, fun s hs => ⟨hs, rfl⟩⟩
    | true => exact ⟨(List.append_nil _).symm, rfl, fun s hs => ⟨hs, rfl⟩⟩
  | _ => exact ⟨(List.append_nil _).symm, (List.append_nil _).symm, fun s hs => ⟨hs, rfl⟩⟩

/-- A batch that is handed over consists of arrivals. -/
theorem mem_arrived_of_executes (hx : Fifo v.api) {call : RunnerName × List SeqId}
    (hcall : call ∈ v.executes e) {s : SeqId} (hs : s ∈ call.2) : s ∈ v.arrived := by
  unfold Server.executes at hcall
  split at hcall
  · split at hcall
    · cases hcall
    · obtain rfl := List.mem_singleton.mp hcall
      exact (List.mem_filter.mp (hx.schedule_prefix.subset hs)).1
  · cases hcall

theorem Logged.step (hl : Logged v) (h : v.step runners e = some v') : Logged v' := by
  obtain ⟨hexec, -, hold⟩ := log_step h
  refine ⟨fifo_step hl.1 h, ?_⟩
  intro call hcall s hs
  rw [hexec] at hcall
  rcases List.mem_append.mp hcall with hcall | hcall
  · exact (hold s (hl.2 call hcall s hs)).1
  · exact (hold s (mem_arrived_of_executes hl.1 hcall hs)).1

/-- **The history is unmixed when the past was and the calls of the event are.** -/
theorem unmixed_step_iff (hl : Logged v) (h : v.step runners e = some v') :
    Unmixed v' ↔ Unmixed v ∧
      (∀ call ∈ v.executes e, ∀ s ∈ call.2, v.log.encoder s = call.1) ∧
      ∀ call ∈ v.decodeCalls e, ∀ maker ∈ call.2, maker = call.1 := by
  obtain ⟨hexec, hdec, hold⟩ := log_step h
  constructor
  · rintro ⟨hu1, hu2⟩
    rw [hexec] at hu1
    rw [hdec] at hu2
    refine ⟨⟨?_, fun call hcall => hu2 call (List.mem_append_left _ hcall)⟩, ?_,
      fun call hcall => hu2 call (List.mem_append_right _ hcall)⟩
    · intro call hcall s hs
      rw [← (hold s (hl.2 call hcall s hs)).2]
      exact hu1 call (List.mem_append_left _ hcall) s hs
    · intro call hcall s hs
      rw [← (hold s (mem_arrived_of_executes hl.1 hcall hs)).2]
      exact hu1 call (List.mem_append_right _ hcall) s hs
  · rintro ⟨⟨hu1, hu2⟩, hcalls, hdecs⟩
    refine ⟨?_, ?_⟩
    · rw [hexec]
      intro call hcall s hs
      rcases List.mem_append.mp hcall with hcall | hcall
      · rw [(hold s (hl.2 call hcall s hs)).2]
        exact hu1 call hcall s hs
      · rw [(hold s (mem_arrived_of_executes hl.1 hcall hs)).2]
        exact hcalls call hcall s hs
    · rw [hdec]
      intro call hcall
      rcases List.mem_append.mp hcall with hcall | hcall
      · exact hu2 call hcall
      · exact hdecs call hcall

/-- With a sequence of the old runner unfinished, the batch begins with one. -/
theorem exists_mock_of_leftover (hv : SwapInv v) (hbatch : v.sched.schedule.2 ≠ []) {s : SeqId}
    (hs : s ∈ v.arrived) (hlive : (v.sched.seqs s).isFinished = false)
    (hmock : v.log.encoder s ≠ .loaded) :
    ∃ b ∈ v.sched.schedule.2, v.log.encoder b ≠ .loaded := by
  obtain ⟨rest, hrest⟩ := hv.fifo.schedule_prefix
  have hmem : s ∈ v.arrived.filter v.api.live :=
    List.mem_filter.mpr ⟨hs, by simp [Api.live, Server.api, hlive]⟩
  have hsorted : (v.arrived.filter v.api.live).Pairwise fun s s' =>
      v.log.encoder s = .loaded → v.log.encoder s' = .loaded :=
    hv.sorted.sublist List.filter_sublist
  cases hcons : v.sched.schedule.2 with
  | nil => exact absurd hcons hbatch
  | cons b bs =>
    refine ⟨b, List.mem_cons_self, ?_⟩
    have hqueue : v.arrived.filter v.api.live = b :: (bs ++ rest) := by
      rw [← List.cons_append, ← hcons]
      exact hrest.symm
    rw [hqueue] at hmem hsorted
    rcases List.mem_cons.mp hmem with rfl | htail
    · exact hmock
    · intro hloaded
      exact hmock ((List.pairwise_cons.mp hsorted).1 s htail hloaded)

/-- The batch is the runner's own exactly when nothing of the old runner was left. -/
theorem executes_own_iff (hv : SwapInv v) :
    (∀ call ∈ v.executes (.loop .iterate), ∀ s ∈ call.2, v.log.encoder s = call.1) ↔
      NoLeftover v (.loop .iterate) := by
  unfold Server.executes
  constructor
  · intro hown hloaded hbatch s hs hlive
    dsimp only at hown
    rw [if_neg hbatch] at hown
    by_contra hmock
    obtain ⟨b, hb, hbmock⟩ := exists_mock_of_leftover hv hbatch hs hlive hmock
    apply hbmock
    rw [hown _ (List.mem_singleton.mpr rfl) b hb, hloaded]
  · intro hok call hcall s hs
    dsimp only at hcall
    split at hcall
    · cases hcall
    · next hbatch =>
      obtain rfl := List.mem_singleton.mp hcall
      exact hv.encoder_of_schedule hok hbatch hs

/-- The decoded tokens are the runner's own exactly when they are not left from the old one. -/
theorem decodes_own_iff (hv : SwapInv v) (s : SeqId) :
    (∀ call ∈ v.decodeCalls (.read s), ∀ maker ∈ call.2, maker = call.1) ↔
      NoLeftover v (.read s) := by
  unfold Server.decodeCalls NoLeftover
  dsimp only
  cases hnext : v.decodesNext s with
  | false => simp
  | true =>
    have harr : s ∈ v.arrived := by
      cases hcons : v.consumers s with
      | none => simp [Server.decodesNext, hcons] at hnext
      | some c => exact hv.consumers s c hcons
    have hcount := hv.count s harr
    constructor
    · intro hown hloaded hmock _
      -- a token of the old runner would have been decoded by the new one
      have hnil : v.log.makers s = [] := by
        refine List.eq_nil_iff_forall_not_mem.mpr fun g hg => ?_
        have h1 : g = v.engine := hown _ (List.mem_singleton.mpr rfl) g hg
        have h2 := hv.makers s harr g hg
        rw [h2, hmock, hloaded] at h1
        cases h1
      rw [hnil] at hcount
      exact List.length_eq_zero_iff.mp hcount.symm
    · intro hok call hcall maker hmaker
      obtain rfl := List.mem_singleton.mp hcall
      rw [hv.makers s harr maker hmaker]
      cases hengine : v.engine with
      | mock => exact hv.before hengine s harr
      | loaded =>
        cases henc : v.log.encoder s with
        | loaded => rfl
        | mock =>
          rw [hok hengine henc rfl] at hcount
          rw [List.length_eq_zero_iff.mp hcount] at hmaker
          cases hmaker

/-- **One event mixes vocabularies exactly when something was left over.** -/
theorem unmixed_step (hv : SwapInv v) (hl : Logged v) (hu : Unmixed v)
    (h : v.step runners e = some v') : Unmixed v' ↔ NoLeftover v e := by
  rw [unmixed_step_iff hl h]
  have hnone : ∀ e', e = e' → v.executes e' = [] → v.decodeCalls e' = [] → NoLeftover v e' →
      ((Unmixed v ∧ (∀ call ∈ v.executes e, ∀ s ∈ call.2, v.log.encoder s = call.1) ∧
        ∀ call ∈ v.decodeCalls e, ∀ maker ∈ call.2, maker = call.1) ↔ NoLeftover v e) := by
    rintro e' rfl h1 h2 hok
    exact iff_of_true ⟨hu, by simp [h1], by simp [h2]⟩ hok
  cases e with
  | read s =>
    rw [← decodes_own_iff hv]
    exact ⟨fun h => h.2.2, fun h => ⟨hu, by simp [Server.executes], h⟩⟩
  | loop e =>
    cases e with
    | iterate =>
      rw [← executes_own_iff hv]
      exact ⟨fun h => h.2.1, fun h => ⟨hu, h, by simp [Server.decodeCalls]⟩⟩
    | _ => exact hnone _ rfl rfl rfl trivial
  | _ => exact hnone _ rfl rfl rfl trivial

/-- **Vocabularies never mix, exactly in the runs without leftovers.**  In every interleaving of
submissions, ticks, consumer wake-ups, hang-ups and the swap: every batch handed to `execute`
was encoded by that runner and every output handed to `decode` was generated by that runner,
if and only if whenever the new loop hands over a batch no unfinished sequence is left from
before the swap, and no consumer decodes output of a sequence from before the swap after it. -/
theorem unmixed_iff {m t : ℤ} {events : List Event}
    (h : run (Server.step runners) (Server.init m t) events = some v) :
    Unmixed v ↔ Along (Server.step runners) NoLeftover (Server.init m t) events := by
  have key := run_good_or_bad NoLeftover
    (fun v : Server ρ => SwapInv v ∧ Logged v ∧ Unmixed v)
    (fun v => Logged v ∧ ¬ Unmixed v) ?_ ?_ ?_ ?_ h
  · rcases key with ⟨hgood, hal⟩ | ⟨hbad, hal⟩
    · exact iff_of_true hgood.2.2 hal
    · exact iff_of_false hbad.2 hal
  · rintro u e u' ⟨hu, hl, hun⟩ hok hstep
    exact ⟨hu.step hok hstep, hl.step hstep, (unmixed_step hu hl hun hstep).mpr hok⟩
  · rintro u e u' ⟨hu, hl, hun⟩ hok hstep
    exact ⟨hl.step hstep, fun hun' => hok ((unmixed_step hu hl hun hstep).mp hun')⟩
  · rintro u e u' ⟨hl, hun⟩ hstep
    exact ⟨hl.step hstep, fun hun' => hun ((unmixed_step_iff hl hstep).mp hun').1⟩
  · refine ⟨SwapInv.init m t, ⟨Fifo.init m t, ?_⟩, ⟨?_, ?_⟩⟩
    · intro call hcall; cases hcall
    · intro call hcall; cases hcall
    · intro call hcall; cases hcall

/-- A process whose loaded runner has another vocabulary than the mock. -/
def mockThenLoaded : RunnerName → Runner Unit
  | .mock => mock
  | .loaded =>
    { mock with
      encode := fun prompt => prompt.map fun _ => 7
      decode := fun tokenIds => tokenIds.map fun t => Char.ofNat t.toNat
      eosTokenIds := {2} }

/-- The old loop is cancelled during a tick, which tears its request down; its client gets an
empty answer, and the next request is the new runner's own. -/
theorem unmixed_iff_torn_down :
    let events : List Event := [.startup, .post 0 { prompt := ['h'] }, .loop .iterate, .swap,
      .oldCancel, .read 0, .post 1 { prompt := ['h'], maxTokens := 1 }, .loop .iterate,
      .loop (.tickEnd [some 104]), .read 1, .read 1]
    Unmixed (runD (Server.step mockThenLoaded) (Server.init 8 8192) events) := by
  intro events
  have h := run_eq_runD (show
    (run (Server.step mockThenLoaded) (Server.init 8 8192) events).isSome = true by decide)
  exact (unmixed_iff h).mpr (by decide)

/-- A request of the mock arrives during the idle sleep that the swap cancels: nothing is torn
down, and the new runner is handed character codes, without its stop token.  And a consumer
that still has to decode what the mock generated decodes it with the new runner. -/
theorem mixed_after_swap :
    (∃ v, run (Server.step mockThenLoaded) (Server.init 8 8192) [.startup, .loop .iterate,
        .post 0 { prompt := ['h'] }, .swap, .oldCancel, .loop .iterate] = some v ∧
      v.log.executed = [(.loaded, [0])] ∧ (v.sched.seqs 0).promptIds = [104] ∧
      (v.sched.seqs 0).eosTokenIds = ∅ ∧ ¬ Unmixed v) ∧
    ∃ v, run (Server.step mockThenLoaded) (Server.init 8 8192) [.startup,
        .post 0 { prompt := ['h'], maxTokens := 1 }, .loop .iterate, .loop (.tickEnd [some 0]),
        .loop .iterate, .loop .iterate, .swap, .read 0, .read 0] = some v ∧
      v.log.decoded = [(.loaded, [.mock])] ∧ ¬ Unmixed v := by
  constructor
  · have h := run_eq_runD (show (run (Server.step mockThenLoaded) (Server.init 8 8192) [.startup,
      .loop .iterate, .post 0 { prompt := ['h'] }, .swap, .oldCancel,
      .loop .iterate]).isSome = true by decide)
    refine ⟨_, h, by decide, by decide, by decide, ?_⟩
    intro hu
    exact absurd (hu.executed (.loaded, [0]) (by decide) 0 (by decide)) (by decide)
  · have h := run_eq_runD (show (run (Server.step mockThenLoaded) (Server.init 8 8192) [.startup,
      .post 0 { prompt := ['h'], maxTokens := 1 }, .loop .iterate, .loop (.tickEnd [some 0]),
      .loop .iterate, .loop .iterate, .swap, .read 0, .read 0]).isSome = true by decide)
    refine ⟨_, h, by decide, ?_⟩
    intro hu
    exact absurd (hu.decoded (.loaded, [.mock]) (by decide) .mock (by decide)) (by decide)

end NanoKube
