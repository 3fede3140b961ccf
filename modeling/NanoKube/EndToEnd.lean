import NanoKube.Answers
import NanoKube.Generation

/-!
# From the request to the answer

The process starts on the mock; the weights come later, and with them another runner and
another loop on the same scheduler, while the old loop is still to be cancelled.  A
request that the loaded runner has encoded shares its batches with whatever is there:
requests of the mock, requests that fail, requests whose clients leave.

All the same, what its client gets is what the model says to this one request, decoded,
or an error.  At temperature zero that is one text, which depends on nothing else.

## Main definitions

* `Tokenizer`, `processRunners` — the two runners of a process that loads a decoder.
* `LoopSees` — what an event of the process is to its loop task.
* `DrawnAfterSwap` — `execute` of the loaded runner samples the rows of its call.
* `ServedInv` — the invariant of the process.

## Main results

* `loopSees_of_step` — handlers, a second loop and a swap, as the loop task sees them.
* `answer_generated` — **an answer is the text of tokens the request could have generated alone**.
* `greedy_answer` — **at temperature zero an answer is a function of its request**.
-/

namespace NanoKube

/-! ### What a loop task sees of its process -/

section Sees

variable {ρ : Type*} {runners : RunnerName → Runner ρ} {v v' : Server ρ} {e : Event}

/-- What an event is to the loop task `t'` there is afterwards. -/
inductive LoopSees (runners : RunnerName → Runner ρ) (v v' : Server ρ) (t' : LoopTask ρ) :
    Event → Prop
  /-- The task was just made. -/
  | fresh {e : Event} (hfresh : t' = Server.newTask runners v'.engine) : LoopSees runners v v' t' e
  | still {e : Event} (htask : v.loopTask = some t') (hengine : v'.engine = v.engine)
      (hworld : v'.world t' = v.world t') : LoopSees runners v v' t' e
  | handler {e : Event} {a : Act} (htask : v.loopTask = some t') (hengine : v'.engine = v.engine)
      (ha : ∀ e', a ≠ .loop e')
      (hstep : (v.world t').step (runners v.engine).toModelRunner a = some (v'.world t')) :
    LoopSees runners v v' t' e
  | loop {e' : LoopEvent} {t : LoopTask ρ} (htask : v.loopTask = some t)
      (hengine : v'.engine = v.engine)
      (hstep : (v.world t).step (runners v.engine).toModelRunner (.loop e') = some (v'.world t')) :
    LoopSees runners v v' t' (.loop e')
  /-- The other loop tears the scheduler down. -/
  | torn {e : Event} (htask : v.loopTask = some t') (hengine : v'.engine = v.engine)
      (hworld : v'.world t' = { v.world t' with sched := v.sched.failAll.1 }) :
    LoopSees runners v v' t' e

/-- A consumer that moves on is nothing to the loop, or an abort. -/
theorem loopSees_resume {t : LoopTask ρ} (htask : v.loopTask = some t) {seq : SeqId}
    (hseq : seq ∈ v.arrived) (c : Consumer) (hengine : v'.engine = v.engine)
    (hworld : v'.world t = (v.resume seq c).world t) : LoopSees runners v v' t e := by
  cases hlive : c.live with
  | true => exact .still htask hengine (by rw [hworld]; simp [Server.world, Server.resume, hlive])
  | false =>
    refine .handler (a := .abort seq) htask hengine (by simp) ?_
    rw [hworld]
    simp [World.step, Server.world, Server.resume, hlive, hseq]

/-- **What one event of the process is to its loop task.** -/
theorem loopSees_of_step (hcons : ∀ s c, v.consumers s = some c → s ∈ v.arrived)
    (h : v.step runners e = some v') {t' : LoopTask ρ} (htask' : v'.loopTask = some t') :
    LoopSees runners v v' t' e := by
  cases moves_of_step h with
  | startup hnone => exact .fresh (Option.some.inj htask').symm
  | swap htask hold hpc => exact .fresh (Option.some.inj htask').symm
  | refuse hdead => exact .still htask' rfl rfl
  | respond hlive hstream => exact .still htask' rfl rfl
  | @submit seq body hlive hnew =>
    refine .handler (a := .add seq (promptToSequence (runners v.engine) body)) htask' rfl
      (by simp) ?_
    simp [World.step, Server.world, Server.submit, hnew]
  | @beginBody seq i body hnew hbody =>
    refine .handler (a := .add seq (promptToSequence (runners v.engine) body)) htask' rfl
      (by simp) ?_
    simp [World.step, Server.world, Server.submit, hnew]
  | @loop e t w htask hstep =>
    obtain rfl := Option.some.inj htask'
    have harr : w.arrived = v.arrived := by
      cases fires_of_step hstep <;> rfl
    refine .loop htask rfl (hstep.trans ?_)
    rw [Server.world, ← harr]
  | @oldCancel t w htask hstep =>
    cases fires_of_step hstep with
    | cancelSleep hpc => exact .still htask' rfl rfl
    | cancelTick hpc => exact .torn htask' rfl rfl
  | @read seq c c' hc hstep =>
    have htask : v.loopTask = some t' := htask'
    exact loopSees_resume htask (hcons seq c hc) c' rfl rfl
  | @hangup seq c hc hlive =>
    have htask : v.loopTask = some t' := htask'
    exact loopSees_resume htask (hcons seq c hc) .gone rfl rfl

/-- A task that was just made remembers no rows. -/
theorem MemoryInv.fresh {P : ρ → List SeqId → (SeqId → List Token) → Prop} (hx : Fifo v.api)
    {name : RunnerName} (htask : v.loopTask = some (Server.newTask runners name)) :
    MemoryInv P (v.world (Server.newTask runners name)) where
  fifo := fifo_world hx htask
  arrived := by intro s hs; cases hs
  executing := by intro h; cases h
  between := by intro _ hne; exact absurd rfl hne

/-- **A runner remembers its rows in a process, too**, where its loop is not the only one. -/
theorem MemoryInv.sees {P : ρ → List SeqId → (SeqId → List Token) → Prop} {t' : LoopTask ρ}
    (hR : Remembers (runners v'.engine).toModelRunner P) (hx : Fifo v'.api)
    (htask' : v'.loopTask = some t') (hsees : LoopSees runners v v' t' e)
    (hv : v'.engine = v.engine → ∀ t, v.loopTask = some t → MemoryInv P (v.world t))
    (hrows : v'.engine = v.engine → ∀ t e', v.loopTask = some t → e = .loop e' →
      OneResultPerRow (v.world t) (.loop e')) :
    MemoryInv P (v'.world t') := by
  cases hsees with
  | fresh hfresh =>
    subst hfresh
    exact MemoryInv.fresh hx htask'
  | still htask hengine hworld =>
    rw [hworld]
    exact hv hengine t' htask
  | @handler _ a htask hengine ha hstep =>
    rw [hengine] at hR
    refine (hv hengine t' htask).step hR ?_ hstep
    cases a with
    | add | abort => trivial
    | loop e' => exact absurd rfl (ha e')
  | @loop e' t htask hengine hstep =>
    rw [hengine] at hR
    exact (hv hengine t htask).step hR (hrows hengine t e' htask rfl) hstep
  | torn htask hengine hworld =>
    rw [hworld]
    exact (hv hengine t' htask).failAll hR

end Sees

/-! ### The process that loads a decoder -/

/-- The tokenizer of the loaded runner.  With its chat template no prompt is empty. -/
structure Tokenizer where
  encode : Text → List Token
  encode_ne : ∀ prompt, encode prompt ≠ []
  decode : List Token → Text
  eosTokenIds : Finset Token

section Served

variable {S K : Type*} [Field K] [LinearOrder K]

/-- The runners of a process: the mock, then `QwenRunner`. -/
def processRunners (D : CausalModel S K) (padId : Token) (tok : Tokenizer) :
    RunnerName → Runner (Option (List (List S)))
  | .mock =>
    { reset := id
      execute := fun r _ _ => r
      fresh := none
      encode := mock.encode
      decode := mock.decode
      eosTokenIds := mock.eosTokenIds }
  | .loaded =>
    { toModelRunner := qwenRunner D.toModel padId
      fresh := none
      encode := tok.encode
      decode := tok.decode
      eosTokenIds := tok.eosTokenIds }

variable {D : CausalModel S K} {exp : K → K} {padId : Token} {tok : Tokenizer}
  {v v' : Server (Option (List (List S)))} {e : Event} {s : SeqId}

/-- At the end of a tick of the loaded runner, its `execute` returned what `_sample` makes of the
logits of its call. -/
def DrawnAfterSwap (D : CausalModel S K) (exp : K → K) (v : Server (Option (List (List S)))) :
    Event → Prop
  | .loop (.tickEnd nextIds) => v.engine = .loaded →
      ∀ t ∈ v.loopTask, DrawnByRows D exp (v.world t) (.loop (.tickEnd nextIds))
  | _ => True

instance (D : CausalModel S K) (exp : K → K) (v : Server (Option (List (List S)))) :
    ∀ e, Decidable (DrawnAfterSwap D exp v e)
  | .loop (.tickEnd _) => by unfold DrawnAfterSwap; infer_instance
  | .startup | .post _ _ | .beginBody _ _ | .oldCancel | .swap | .hangup _ => isTrue trivial
  | .read _ | .loop .iterate | .loop .wake | .loop .raise | .loop .cancel => isTrue trivial

theorem DrawnAfterSwap.oneResultPerRow (h : DrawnAfterSwap D exp v e) (hloaded : v.engine = .loaded)
    (t : LoopTask (Option (List (List S)))) (e' : LoopEvent) (htask : v.loopTask = some t)
    (he : e = .loop e') : OneResultPerRow (v.world t) (.loop e') := by
  subst he
  cases e' with
  | tickEnd nextIds => exact (h hloaded t htask).fedByQwen.oneResultPerRow
  | _ => trivial

/-- What was generated for a request of the loaded runner, that request could have generated by
itself. -/
structure ServedInv (D : CausalModel S K) (exp : K → K) (padId : Token) (tok : Tokenizer)
    (v : Server (Option (List (List S)))) : Prop where
  answers : AnswerInv (processRunners D padId tok) v
  encoded : Encoded (processRunners D padId tok) v
  memory : v.engine = .loaded → ∀ t, v.loopTask = some t → MemoryInv (Computed D padId) (v.world t)
  generated : ∀ s ∈ v.arrived, v.log.encoder s = .loaded →
    Generates (D.soloNext exp (v.sched.seqs s).toRequest) (v.sched.seqs s).toRequest
      (v.sched.seqs s).outputIds

theorem ServedInv.init (D : CausalModel S K) (exp : K → K) (padId : Token) (tok : Tokenizer)
    (m t : ℤ) : ServedInv D exp padId tok (Server.init m t) where
  answers := AnswerInv.init m t
  encoded := by intro s hs; cases hs
  memory := by intro h; cases h
  generated := by intro s hs; cases hs

/-- The loaded runner makes no empty prompt. -/
theorem ServedInv.promptIds_ne (hv : ServedInv D exp padId tok v) (hs : s ∈ v.arrived)
    (hencoder : v.log.encoder s = .loaded) : (v.sched.seqs s).promptIds ≠ [] := by
  obtain ⟨body, hbody⟩ := hv.encoded s hs
  rw [hencoder] at hbody
  rw [hbody]
  exact tok.encode_ne body.prompt

/-- **One operation** keeps what a request of the loaded runner has generated. -/
theorem ServedInv.handled (hv : ServedInv D exp padId tok v) (he : DrawnAfterSwap D exp v e)
    (hs : s ∈ v.arrived) (hencoder : v.log.encoder s = .loaded) {q : Sequence}
    (h : Handled (processRunners D padId tok) v s e q) :
    Generates (D.soloNext exp q.toRequest) q.toRequest q.outputIds := by
  have hgen := hv.generated s hs hencoder
  cases h with
  | same => exact hgen
  | record token hrow =>
    obtain ⟨nextIds, rfl⟩ := hrow.isTickEnd
    obtain ⟨t, htask, hpc, hzip⟩ := hrow
    -- its encoder is the loaded runner, so that is the one the loop runs
    have hloaded := hv.answers.loaded s hs hencoder
    have htoken : token ∈ D.soloNext exp (v.sched.seqs s).toRequest (v.sched.seqs s).tokenIds :=
      drawn_of_computed ((hv.memory hloaded t htask).executing hpc) (he hloaded t htask) hzip
        (hv.promptIds_ne hs hencoder)
    obtain ⟨hstop, hlength⟩ :=
      hv.answers.verdicts.inflight t htask hpc s (List.of_mem_zip hzip).1
    have hopen := (hv.answers.verdicts.truthful s hs).isOpen_of_ne hstop hlength
    have hnew := hgen.record hopen htoken
    rwa [Sequence.record_toRequest] at hnew ⊢
  | tornDown hdown hmem => rwa [Sequence.fail_toRequest, Sequence.fail_outputIds]
  | rowFailed | ended | hangup => rwa [Sequence.abort_toRequest, Sequence.abort_outputIds]

/-- **Every event of the process** keeps what the requests of the loaded runner have generated. -/
theorem ServedInv.step (hv : ServedInv D exp padId tok v) (he : DrawnAfterSwap D exp v e)
    (h : v.step (processRunners D padId tok) e = some v') : ServedInv D exp padId tok v' := by
  have hx := hv.answers.verdicts.fifo
  have hanswers := hv.answers.step h
  refine ⟨hanswers, encoded_step hx hv.encoded h, ?_, ?_⟩
  · intro hloaded' t' htask'
    have hsees := loopSees_of_step hv.answers.verdicts.consumers h htask'
    refine MemoryInv.sees ?_ hanswers.verdicts.fifo htask' hsees ?_ ?_
    · rw [hloaded']
      exact remembers_computed D padId
    · intro hengine
      exact hv.memory (hengine ▸ hloaded')
    · intro hengine
      exact he.oneResultPerRow (hengine ▸ hloaded')
  · intro s hs hencoder
    by_cases hold : s ∈ v.arrived
    · rw [((log_step h).2.2 s hold).2] at hencoder
      exact hv.handled he hold hencoder (handled_of_step hx h hold)
    · rcases arrived_of_step h hs with hold' | ⟨req, hnew⟩
      · exact absurd hold' hold
      · rw [hnew, Sequence.settle_toRequest, Sequence.settle_outputIds]
        exact .nil

theorem servedInv_reachable {m t : ℤ} {events : List Event}
    (h : run (Server.step (processRunners D padId tok)) (Server.init m t) events = some v)
    (hdrawn : Along (Server.step (processRunners D padId tok)) (DrawnAfterSwap D exp)
      (Server.init m t) events) : ServedInv D exp padId tok v :=
  run_invariant_along (ServedInv D exp padId tok) (fun hv he hs => hv.step he hs)
    (ServedInv.init D exp padId tok m t) hdrawn h

/-! ### Answers -/

/-- What was generated on the way to an output. -/
theorem Generates.beginning {next : List Token → List Token} {req : Request}
    {out out' : List Token} (h : Generates next req out) (hle : out' <+: out) :
    Generates next req out' := by
  induction h with
  | nil =>
    rw [List.prefix_nil.mp hle]
    exact .nil
  | @snoc out token h hstop hbudget htoken ih =>
    rcases List.prefix_concat_iff.mp hle with rfl | hle
    · exact .snoc h hstop hbudget htoken
    · exact ih hle

/-- **What a call returns** for a request of the loaded runner: a snapshot that the request could
have generated by itself, decoded. -/
theorem ServedInv.returned (hv : ServedInv D exp padId tok v) {completion : Completion}
    (hc : v.consumers s = some (.returned completion)) (hencoder : v.log.encoder s = .loaded) :
    ∃ q, Snapshot v s q ∧
      Generates (D.soloNext exp q.toRequest) q.toRequest q.outputIds ∧
      completion = ⟨tok.decode q.outputIds, q.promptIds.length, q.outputIds.length,
        q.finishReason⟩ := by
  obtain ⟨q, name, hq, hname, hcompletion⟩ := hv.answers.honest s _ hc
  obtain rfl := hname hencoder
  refine ⟨q, hq, ?_, hcompletion⟩
  rw [hq.request]
  exact (hv.generated s (hv.answers.verdicts.consumers s _ hc) hencoder).beginning hq.output

/-- **An answer is the text of tokens that its request could have generated alone.**  In every run
of the process, with the mock before, requests of the mock left over, two loops on one
scheduler, failing rows, teardowns and hang-ups: a call that came back for a request of the
loaded runner returns the decoded text of an output that the model, fed with this request
only, could have generated, counts its tokens, and gives the reason they bear out. -/
theorem answer_generated {m t : ℤ} {events : List Event}
    (h : run (Server.step (processRunners D padId tok)) (Server.init m t) events = some v)
    (hdrawn : Along (Server.step (processRunners D padId tok)) (DrawnAfterSwap D exp)
      (Server.init m t) events) {completion : Completion}
    (hc : v.consumers s = some (.returned completion)) (hencoder : v.log.encoder s = .loaded) :
    ∃ body out reason, reason ≠ .cancelled ∧
      let req := promptToSequence (processRunners D padId tok .loaded) body
      (v.sched.seqs s).toRequest = req ∧ Generates (D.soloNext exp req) req out ∧
        Bears req out reason ∧
        completion = ⟨tok.decode out, req.promptIds.length, out.length, some reason⟩ := by
  have hv := servedInv_reachable h hdrawn
  obtain ⟨q, hq, hgen, rfl⟩ := hv.returned hc hencoder
  obtain ⟨body, hbody⟩ := hv.encoded s (hv.answers.verdicts.consumers s _ hc)
  obtain ⟨reason, hr, hne⟩ := hq.reason
  have hbears := hq.bears hr
  rw [hencoder] at hbody
  rw [hq.request, hbody] at hgen
  rw [hbody] at hbears
  refine ⟨body, q.outputIds, reason, hne, hbody, hgen, hbears, ?_⟩
  rw [← hbody, ← hq.request, hr]

/-- A buffered request that is accepted is in the process, as its runner encoded it. -/
theorem request_of_post {ρ : Type*} {runners : RunnerName → Runner ρ} {u w : Server ρ}
    {body : CompletionRequest} {after : List Event} (hx : Fifo u.api)
    (hlive : u.loopIsDead = false) (hbuffered : body.stream = false)
    (h : run (Server.step runners) u (.post s body :: after) = some w) :
    (w.sched.seqs s).toRequest = promptToSequence (runners u.engine) body ∧
      w.log.encoder s = u.engine := by
  obtain ⟨u', hstep, hrest⟩ := run_cons h
  have hu' : Fifo u'.api ∧ s ∈ u'.arrived ∧
      (u'.sched.seqs s).toRequest = promptToSequence (runners u.engine) body ∧
      u'.log.encoder s = u.engine := by
    refine ⟨fifo_step hx hstep, ?_⟩
    cases moves_of_step hstep with
    | refuse hdead =>
      rw [hlive] at hdead
      cases hdead
    | respond hlive' hstream =>
      rw [hbuffered] at hstream
      cases hstream
    | submit hlive' hnew =>
      simp [Server.submit, Scheduler.submit_seqs, Sequence.settle_toRequest]
  have key := run_invariant (fun x : Server ρ => Fifo x.api ∧ s ∈ x.arrived ∧
    (x.sched.seqs s).toRequest = promptToSequence (runners u.engine) body ∧
    x.log.encoder s = u.engine) ?_ hu' hrest
  · exact key.2.2
  · rintro x e x' ⟨hfifo, hs, hreq, hencoder⟩ hstep'
    obtain ⟨hs', hsame⟩ := (log_step hstep').2.2 s hs
    exact ⟨fifo_step hfifo hstep', hs',
      (handled_frame (handled_of_step hfifo hstep' hs)).1.trans hreq, hsame.trans hencoder⟩

/-- **At temperature zero an answer is a function of its request.**  Whatever has happened before
and happens after, in the process and in the batches: a buffered request at temperature zero
that is accepted once the weights are loaded is answered, if at all, with what greedy decoding
makes of its prompt by itself, or with a 500. -/
theorem greedy_answer {m t : ℤ} {before after : List Event}
    {u : Server (Option (List (List S)))} {body : CompletionRequest}
    (hbefore : run (Server.step (processRunners D padId tok)) (Server.init m t) before = some u)
    (hloaded : u.engine = .loaded) (hlive : u.loopIsDead = false)
    (hbuffered : body.stream = false) (htemp : body.temperature ≤ 0)
    (hafter : run (Server.step (processRunners D padId tok)) u (.post s body :: after) = some v)
    (hdrawn : Along (Server.step (processRunners D padId tok)) (DrawnAfterSwap D exp)
      (Server.init m t) (before ++ .post s body :: after)) {completion : Completion}
    (hc : v.consumers s = some (.returned completion)) (cmplId : Text) (created : ℤ)
    (modelName : Text) :
    let req := promptToSequence (processRunners D padId tok .loaded) body
    let answer := solo D.greedyNext req
    let response := completionResponse cmplId created modelName completion
    response = completionResponse cmplId created modelName
        ⟨tok.decode answer.1, req.promptIds.length, answer.1.length, some answer.2⟩ ∨
      response = errorResponse 500 "generation failed: error".toList
        "internal_server_error".toList none := by
  intro req answer response
  have h : run (Server.step (processRunners D padId tok)) (Server.init m t)
      (before ++ .post s body :: after) = some v := by
    rw [run_append, hbefore, Option.bind_some, hafter]
  have hv := servedInv_reachable h hdrawn
  have hu : Fifo u.api := (answerInv_reachable hbefore).verdicts.fifo
  obtain ⟨hreq, hencoder⟩ := request_of_post hu hlive hbuffered hafter
  rw [hloaded] at hreq hencoder
  obtain ⟨q, hq, hgen, rfl⟩ := hv.returned hc hencoder
  obtain ⟨reason, hr, hne⟩ := hq.reason
  have hqreq : q.toRequest = req := hq.request.trans hreq
  have hnext : ∀ toks, ∀ token ∈ D.soloNext exp q.toRequest toks, token = D.greedyNext toks := by
    intro toks token htoken
    exact eq_greedyNext (by rw [hqreq]; exact htemp) htoken
  have hsolo : reason = .stop ∨ reason = .length → (q.outputIds, reason) = answer := by
    intro hkind
    rw [hgen.eq_solo hnext hq.truthful hr hkind, hqreq]
  rcases (show reason = .error ∨ reason = .stop ∨ reason = .length by
    cases reason <;> simp_all) with rfl | hkind
  · refine Or.inr ?_
    show completionResponse _ _ _ _ = _
    rw [hr]
    rfl
  · refine Or.inl ?_
    show completionResponse _ _ _ _ = _
    rw [hr, ← hsolo hkind, ← hqreq]

/-! ### A request beside a leftover of the mock -/

/-- A token before the prompt, and a token a character. -/
def letters : Tokenizer where
  encode prompt := 7 :: prompt.map fun c => (c.toNat : ℤ)
  encode_ne := by intro prompt; simp
  decode tokenIds := tokenIds.map fun t => Char.ofNat t.toNat
  eosTokenIds := ∅

/-- A request of the mock arrives during the idle sleep that the swap cancels. -/
def leftoverEvents : List Event :=
  [.startup, .loop .iterate, .post 1 { prompt := ['x'] }, .swap, .oldCancel]

/-- It fails in the batch it shares with the next request, which goes on by itself. -/
def sharedEvents : List Event :=
  [.loop .iterate, .loop (.tickEnd [none, some 1]), .loop .iterate, .loop (.tickEnd [some 2]),
    .read 0, .read 0, .read 0]

/-- The request of the loaded runner. -/
def greedyBody : CompletionRequest := { prompt := ['h'], maxTokens := 2, temperature := 0 }

theorem answer_generated_beside_mock :
    let v := runD (Server.step (processRunners counting 0 letters)) (Server.init 8 8192)
      (leftoverEvents ++ .post 0 greedyBody :: sharedEvents)
    ∃ out, v.consumers 0 = some (.returned ⟨letters.decode out, 2, 2, some .length⟩) ∧
      Generates (counting.soloNext id (v.sched.seqs 0).toRequest) (v.sched.seqs 0).toRequest
        out := by
  intro v
  have h := run_eq_runD (show (run (Server.step (processRunners counting 0 letters))
    (Server.init 8 8192) (leftoverEvents ++ .post 0 greedyBody :: sharedEvents)).isSome = true by
      decide)
  have hdrawn : Along (Server.step (processRunners counting 0 letters)) (DrawnAfterSwap counting id)
      (Server.init 8 8192) (leftoverEvents ++ .post 0 greedyBody :: sharedEvents) := by
    decide +kernel
  have hc : v.consumers 0 = some (.returned ⟨letters.decode [1, 2], 2, 2, some .length⟩) := by
    decide
  obtain ⟨_, out, _, -, hreq, hgen, -, hcompletion⟩ := answer_generated h hdrawn hc (by decide)
  rw [Completion.mk.injEq] at hcompletion
  refine ⟨out, ?_, hreq ▸ hgen⟩
  rw [← hcompletion.1]
  exact hc

theorem greedy_answer_beside_mock :
    let u := runD (Server.step (processRunners counting 0 letters)) (Server.init 8 8192)
      leftoverEvents
    let v := runD (Server.step (processRunners counting 0 letters)) u
      (.post 0 greedyBody :: sharedEvents)
    let req := promptToSequence (processRunners counting 0 letters .loaded) greedyBody
    let answer := solo counting.greedyNext req
    ∃ completion, v.consumers 0 = some (.returned completion) ∧
      (completionResponse [] 0 [] completion = completionResponse [] 0 []
          ⟨letters.decode answer.1, req.promptIds.length, answer.1.length, some answer.2⟩ ∨
        completionResponse [] 0 [] completion
          = errorResponse 500 "generation failed: error".toList
            "internal_server_error".toList none) := by
  intro u v req answer
  have hu : run (Server.step (processRunners counting 0 letters)) (Server.init 8 8192)
      leftoverEvents = some u := run_eq_runD (by decide)
  have hv : run (Server.step (processRunners counting 0 letters)) u
      (.post 0 greedyBody :: sharedEvents) = some v := run_eq_runD (by decide)
  have hdrawn : Along (Server.step (processRunners counting 0 letters)) (DrawnAfterSwap counting id)
      (Server.init 8 8192) (leftoverEvents ++ .post 0 greedyBody :: sharedEvents) := by
    decide +kernel
  have hc : v.consumers 0 = some (.returned ⟨letters.decode [1, 2], 2, 2, some .length⟩) := by
    decide
  exact ⟨_, hc, greedy_answer hu rfl rfl rfl le_rfl hv hdrawn hc [] 0 []⟩

end Served

end NanoKube
