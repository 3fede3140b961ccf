import NanoKube.CompletionStream
import NanoKube.Swap
import NanoKube.Verdicts

/-!
# What a client is told

The responses of `completions`.  A buffered answer is put together when `generate` comes
back; until then a status code is still to be had, so a verdict that the protocol does not
know becomes a 500.  A streamed answer has sent its status line by then, and is cut off
instead.

What an answer says is what the sequence was like when the call came to its end.  Tokens may
still come after that, in a process where two loops share the scheduler.

## Main definitions

* `errorResponse`, `invalidRequest`, `refusal`, `completionResponse` — the responses.
* `Server.completions` — the handler up to where it waits or returns.
* `Snapshot` — a sequence as it was at some time before.
* `Consumer.Honest` — a call against its sequence.

## Main results

* `completions_cases` — what is refused has no effect.
* `AnswerInv.step` — every event keeps every call honest.
* `buffered_answer` — **what a buffered answer says**, in every run of the process.
* `streamed_answer` — the same for a stream that came to its end.
* `cut_answer` — and where a client loses the rest of it on the way.
-/

namespace NanoKube

open CompletionStream (fatalFinishReasons yielded)

/-! ### The responses -/

/-- `JSONResponse`. -/
structure JsonResponse where
  statusCode : ℕ
  content : Json

/-- `error_response`. -/
def errorResponse (status : ℕ) (message errType : Text) (param : Option Text) : JsonResponse where
  statusCode := status
  content := .obj [("error".toList, .obj [
    ("message".toList, .str message),
    ("type".toList, .str errType),
    ("param".toList, (param.map Json.str).getD .null),
    ("code".toList, .null)])]

/-- An entry of `exc.errors()`: the message, and where in the request it is. -/
structure ValidationError where
  msg : Text
  loc : List Text

/-- `_invalid_request`, which reports the first error.  The first entry of its location is not
part of the name of the field. -/
def invalidRequest (errors : List ValidationError) : Option JsonResponse :=
  errors.head?.map fun first =>
    let param := ['.'].intercalate first.loc.tail
    errorResponse 400 first.msg "invalid_request_error".toList
      (if param = [] then none else some param)

/-- What `completions` returns when the loop is dead. -/
def refusal : JsonResponse :=
  errorResponse 503 "the inference loop is not running".toList "service_unavailable".toList none

/-- `POST /v1/completions` up to where the handler waits or returns: the body is validated, and the
loop has to be there. -/
def Server.completions {ρ : Type*} (runners : RunnerName → Runner ρ) (v : Server ρ) (seq : SeqId) :
    Except (List ValidationError) CompletionRequest → Option (Server ρ × Option JsonResponse)
  | .error errors => (invalidRequest errors).map fun response => (v, some response)
  | .ok body =>
    if v.loopIsDead then some (v, some refusal)
    else (v.step runners (.post seq body)).map fun v' => (v', none)

/-- **What is refused has no effect, and what is not is accepted by a step of the process.**  A body
that is not valid is answered by a 400 and a valid one, where the loop is dead, by a 503. -/
theorem completions_cases {ρ : Type*} {runners : RunnerName → Runner ρ} {v v' : Server ρ}
    {seq : SeqId} {body : Except (List ValidationError) CompletionRequest}
    {response : Option JsonResponse}
    (h : v.completions runners seq body = some (v', response)) :
    (∃ errors refused, body = .error errors ∧ response = some refused ∧ refused.statusCode = 400 ∧
      v' = v) ∨
    (∃ valid, body = .ok valid ∧ v.step runners (.post seq valid) = some v' ∧
      ((v.loopIsDead = true ∧ v' = v ∧ response = some refusal) ∨
        (v.loopIsDead = false ∧ response = none))) := by
  cases body with
  | error errors =>
    simp only [Server.completions, invalidRequest, Option.map_map, Option.map_eq_some_iff,
      Function.comp_apply, Prod.mk.injEq] at h
    obtain ⟨first, -, rfl, rfl⟩ := h
    exact Or.inl ⟨errors, _, rfl, rfl, rfl, rfl⟩
  | ok valid =>
    refine Or.inr ⟨valid, rfl, ?_⟩
    cases hdead : v.loopIsDead with
    | true =>
      simp only [Server.completions, hdead, if_true, Option.some.injEq, Prod.mk.injEq] at h
      obtain ⟨rfl, rfl⟩ := h
      exact ⟨by simp [Server.step, hdead], Or.inl ⟨rfl, rfl, rfl⟩⟩
    | false =>
      simp only [Server.completions, hdead, Bool.false_eq_true, if_false, Option.map_eq_some_iff,
        Prod.mk.injEq] at h
      obtain ⟨v₁, hstep, rfl, rfl⟩ := h
      exact ⟨hstep, Or.inr ⟨rfl, rfl⟩⟩

/-- `finish_reason`, with the empty string for a sequence that is not finished. -/
def Completion.reason (result : Completion) : Text :=
  (result.finishReason.map FinishReason.toText).getD []

/-- What `completions` returns for a result of `generate`. -/
def completionResponse (cmplId : Text) (created : ℤ) (modelName : Text) (result : Completion) :
    JsonResponse :=
  if fatalFinishReasons.contains result.reason then
    errorResponse 500 ("generation failed: ".toList ++ result.reason)
      "internal_server_error".toList none
  else
    { statusCode := 200
      content := .obj [
        ("id".toList, .str cmplId),
        ("object".toList, .str "text_completion".toList),
        ("created".toList, .num created),
        ("model".toList, .str modelName),
        ("choices".toList, .arr [.obj [
          ("text".toList, .str result.text),
          ("index".toList, .num 0),
          ("logprobs".toList, .null),
          ("finish_reason".toList, .str result.reason)]]),
        ("usage".toList, .obj [
          ("prompt_tokens".toList, .num result.promptTokens),
          ("completion_tokens".toList, .num result.completionTokens),
          ("total_tokens".toList, .num (result.promptTokens + result.completionTokens))])] }

/-- `r["usage"][key]`. -/
def usage (key : Text) (content : Json) : Option ℤ :=
  (content.get? "usage".toList).bind fun counts =>
    match counts.get? key with
    | some (.num n) => some n
    | _ => none

/-! ### The body of a stream that came to its end -/

section Streamed

variable (cmplId : Text) (created : ℤ) (modelName : Text) (texts : List Text)
  {reason : FinishReason}

/-- The error that a body raises names the verdict. -/
theorem raised_yielded (reason : FinishReason) :
    (CompletionStream.stream cmplId created modelName (yielded texts reason)).raised
      = if reason.toText ∈ fatalFinishReasons then
          some ("generation failed: ".toList ++ reason.toText) else none := by
  induction texts with
  | nil => cases reason <;> rfl
  | cons text texts ih => exact ih

theorem getLast?_events_yielded (h : reason.toText ∉ fatalFinishReasons) :
    (Sse.events (CompletionStream.stream cmplId created modelName
      (yielded texts reason)).sent.flatten).getLast? = some CompletionStream.done := by
  have hany : (yielded texts reason).any CompletionStream.fatal = false :=
    Bool.eq_false_iff.mpr (mt (CompletionStream.any_fatal texts reason).mp h)
  rw [CompletionStream.events_stream, hany, if_neg Bool.false_ne_true, List.getLast?_concat]

theorem events_yielded_fatal (h : reason.toText ∈ fatalFinishReasons) :
    Sse.events (CompletionStream.stream cmplId created modelName
      (yielded texts reason)).sent.flatten
        = ((yielded texts reason).takeWhile fun piece => !CompletionStream.fatal piece).map
            fun piece => Json.dumps (CompletionStream.payload cmplId created modelName piece) := by
  rw [CompletionStream.events_stream, (CompletionStream.any_fatal texts reason).mpr h, if_pos rfl,
    List.append_nil]

/-- The events of a stream in front of `[DONE]`. -/
def told (reason : FinishReason) : List Text :=
  ((yielded texts reason).takeWhile fun piece => !CompletionStream.fatal piece).map
    fun piece => Json.dumps (CompletionStream.payload cmplId created modelName piece)

theorem oneLine_of_mem_told {data : Text} (h : data ∈ told cmplId created modelName texts reason) :
    Sse.OneLine data := by
  obtain ⟨piece, -, rfl⟩ := List.mem_map.mp h
  exact CompletionStream.oneLine_of_printable (Json.printable_dumps _)

/-- Only the verdict of the stream is told in an event, and only one that the protocol has. -/
theorem finish_of_mem_told {data text finish : Text}
    (h : data ∈ told cmplId created modelName texts reason)
    (hread : CompletionStream.readEvent data = some (text, some finish)) :
    finish = reason.toText ∧ reason.toText ∉ fatalFinishReasons := by
  obtain ⟨piece, hpiece, rfl⟩ := List.mem_map.mp h
  rw [CompletionStream.readEvent_payload] at hread
  rw [CompletionStream.takeWhile_fatal] at hpiece
  rcases List.mem_append.mp hpiece with hpiece | hpiece
  · obtain ⟨chunk, -, rfl⟩ := List.mem_map.mp hpiece
    cases hread
  · split at hpiece
    · cases hpiece
    · next hfatal =>
      obtain rfl := List.mem_singleton.mp hpiece
      have hfinish := (Prod.mk.inj (Option.some.inj hread)).2
      exact ⟨(Option.some.inj hfinish).symm, hfatal⟩

/-- **A body that is cut short does not say that it is whole.** -/
theorem done_mem_events_cut {cut : Text} (hcut : cut <+: (CompletionStream.stream cmplId created
      modelName (yielded texts reason)).sent.flatten) :
    CompletionStream.done ∈ Sse.events cut ↔
      cut = (CompletionStream.stream cmplId created modelName
        (yielded texts reason)).sent.flatten ∧ reason.toText ∉ fatalFinishReasons := by
  have hevents : Sse.events (CompletionStream.stream cmplId created modelName
    (yielded texts reason)).sent.flatten = _ := CompletionStream.events_stream _
  have hbody : (CompletionStream.stream cmplId created modelName
    (yielded texts reason)).sent.flatten = _ := CompletionStream.sent_stream _
  have htold : CompletionStream.done ∉ told cmplId created modelName texts reason := by
    intro hmem
    obtain ⟨piece, -, heq⟩ := List.mem_map.mp hmem
    exact CompletionStream.dumps_payload_ne_done piece heq
  by_cases hfatal : reason.toText ∈ fatalFinishReasons
  · rw [(CompletionStream.any_fatal texts reason).mpr hfatal, if_pos rfl, List.append_nil] at hevents
    refine iff_of_false ?_ fun h => h.2 hfatal
    intro hmem
    have hle := (Sse.events_prefix hcut).subset hmem
    rw [hevents] at hle
    exact htold hle
  · have hany : (yielded texts reason).any CompletionStream.fatal = false :=
      Bool.eq_false_iff.mpr (mt (CompletionStream.any_fatal texts reason).mp hfatal)
    rw [hany, if_neg Bool.false_ne_true] at hevents hbody
    constructor
    · intro hmem
      refine ⟨?_, hfatal⟩
      by_contra hne
      rw [hbody] at hcut hne
      have hlost := Sse.events_cut (fun d hd => oneLine_of_mem_told _ _ _ _ hd)
        (CompletionStream.oneLine_of_printable (by decide)) hcut hne
      exact htold (hlost.subset hmem)
    · rintro ⟨rfl, -⟩
      rw [hevents]
      exact List.mem_append_right _ (List.mem_singleton_self _)

end Streamed

/-! ### A call against its sequence -/

section Process

variable {ρ : Type*} {runners : RunnerName → Runner ρ} {v v' : Server ρ} {e : Event} {s : SeqId}

/-- The sequence as it was when it had a verdict, which was not that its client had gone. -/
structure Snapshot (v : Server ρ) (s : SeqId) (q : Sequence) : Prop where
  request : q.toRequest = (v.sched.seqs s).toRequest
  output : q.outputIds <+: (v.sched.seqs s).outputIds
  truthful : q.Truthful
  reason : ∃ reason, q.finishReason = some reason ∧ reason ≠ .cancelled

/-- What a call has told its client, and that the client is still there if the call is. -/
def Consumer.Honest (runners : RunnerName → Runner ρ) (v : Server ρ) (s : SeqId) :
    Consumer → Prop
  | .generating _ => (v.sched.seqs s).finishReason ≠ some .cancelled
  | .streaming reader =>
    if reader.closed then
      ∃ q texts reason, Snapshot v s q ∧ q.finishReason = some reason ∧
        reader.chunks = yielded texts reason
    else (v.sched.seqs s).finishReason ≠ some .cancelled ∧
      ∃ texts : List Text, reader.chunks = texts.map (⟨·, none⟩)
  | .returned completion => ∃ q name, Snapshot v s q ∧
      (v.log.encoder s = .loaded → name = .loaded) ∧ completion =
      ⟨(runners name).decode q.outputIds, q.promptIds.length, q.outputIds.length, q.finishReason⟩
  | .gone => True

/-- Every call is honest. -/
structure AnswerInv (runners : RunnerName → Runner ρ) (v : Server ρ) : Prop where
  verdicts : VerdictInv v
  /-- The mock does not come back. -/
  loaded : ∀ s ∈ v.arrived, v.log.encoder s = .loaded → v.engine = .loaded
  honest : ∀ s c, v.consumers s = some c → c.Honest runners v s

theorem AnswerInv.init (m t : ℤ) : AnswerInv runners (Server.init m t) where
  verdicts := VerdictInv.init m t
  loaded := by intro s hs; cases hs
  honest := by intro s c h; cases h

/-- The loaded runner stays. -/
theorem engine_loaded_of_step (h : v.step runners e = some v') (hloaded : v.engine = .loaded) :
    v'.engine = .loaded := by
  cases moves_of_step h with
  | swap htask hold hpc => rfl
  | _ => exact hloaded

/-- A new arrival is encoded by the runner there is. -/
theorem encoder_of_new (h : v.step runners e = some v') (hnew : s ∉ v.arrived)
    (hs : s ∈ v'.arrived) : v'.log.encoder s = v'.engine := by
  have hsubmit : ∀ (u : Server ρ) (seq : SeqId) (body : CompletionRequest), s ∉ u.arrived →
      s ∈ (u.submit runners seq body).arrived →
      (u.submit runners seq body).log.encoder s = u.engine := by
    intro u seq body hold hmem
    obtain rfl : s = seq := by simpa [Server.submit, hold] using hmem
    simp [Server.submit]
  cases moves_of_step h with
  | submit hlive hfresh => exact hsubmit v _ _ hnew hs
  | beginBody hfresh hbody => exact hsubmit _ _ _ hnew hs
  | _ => exact absurd hs hnew

/-- No event changes a parameter or takes a token back. -/
theorem handled_frame {q : Sequence} (h : Handled runners v s e q) :
    q.toRequest = (v.sched.seqs s).toRequest ∧ (v.sched.seqs s).outputIds <+: q.outputIds := by
  cases h with
  | same => exact ⟨rfl, List.prefix_refl _⟩
  | record token hrow =>
    refine ⟨Sequence.record_toRequest _ _, ?_⟩
    rw [Sequence.record_outputIds]
    exact List.prefix_append ..
  | tornDown hdown hmem =>
    exact ⟨Sequence.fail_toRequest _, by rw [Sequence.fail_outputIds]⟩
  | rowFailed | ended | hangup =>
    exact ⟨Sequence.abort_toRequest _ _, by rw [Sequence.abort_outputIds]⟩

/-- A snapshot outlives any event. -/
theorem Snapshot.step {q : Sequence} (hq : Snapshot v s q) (hx : Fifo v.api) (hs : s ∈ v.arrived)
    (h : v.step runners e = some v') : Snapshot v' s q := by
  obtain ⟨hreq, hout⟩ := handled_frame (handled_of_step hx h hs)
  exact ⟨hq.request.trans hreq.symm, hq.output.trans hout, hq.truthful, hq.reason⟩

/-- A sequence is cancelled by nobody but its own client. -/
theorem not_cancelled_step (hv : VerdictInv v) (h : v.step runners e = some v') (hs : s ∈ v.arrived)
    (he : e ≠ .hangup s) (hreason : (v.sched.seqs s).finishReason ≠ some .cancelled) :
    (v'.sched.seqs s).finishReason ≠ some .cancelled := by
  rcases hv.reason hs (handled_of_step hv.fifo h hs) with hsame | ⟨token, -, hrec⟩ |
    ⟨r, -, hgives, -, hr⟩
  · rwa [hsame]
  · rw [hrec, Sequence.record_finishReason]
    split
    · simp
    · split
      · simp
      · exact hreason
  · rw [hr]
    cases hgives with
    | hangup => exact absurd rfl he
    | rowFailed hrow => simp
    | tornDown hdown hmem => simp

/-- What a call has told stays true, unless its client hangs up. -/
theorem Consumer.Honest.step {c : Consumer} (hold : c.Honest runners v s) (hv : VerdictInv v)
    (hs : s ∈ v.arrived) (he : e ≠ .hangup s) (h : v.step runners e = some v') :
    c.Honest runners v' s := by
  have hreason := not_cancelled_step hv h hs he
  cases c with
  | generating pos => exact hreason hold
  | streaming reader =>
    unfold Consumer.Honest at hold ⊢
    dsimp only at hold ⊢
    split at hold
    · next hclosed =>
      obtain ⟨q, texts, reason, hq, hr, hchunks⟩ := hold
      rw [if_pos hclosed]
      exact ⟨q, texts, reason, hq.step hv.fifo hs h, hr, hchunks⟩
    · next hopen =>
      rw [if_neg hopen]
      exact ⟨hreason hold.1, hold.2⟩
  | returned completion =>
    obtain ⟨q, name, hq, hname, hcompletion⟩ := hold
    exact ⟨q, name, hq.step hv.fifo hs h, ((log_step h).2.2 s hs).2 ▸ hname, hcompletion⟩
  | gone => trivial

/-- A sequence whose sentinel was read is its own snapshot. -/
theorem AnswerInv.snapshot (hv : AnswerInv runners v) (hs : s ∈ v.arrived)
    (hnone : none ∈ (v.sched.seqs s).queue)
    (hreason : (v.sched.seqs s).finishReason ≠ some .cancelled) : Snapshot v s (v.sched.seqs s) := by
  have hfin := hv.verdicts.sentinel s hs hnone
  obtain ⟨reason, hr⟩ := Option.isSome_iff_exists.mp hfin
  exact ⟨rfl, List.prefix_refl _, hv.verdicts.truthful s hs, reason, hr,
    fun hc => hreason (hc ▸ hr)⟩

/-- **A wake-up** keeps a call honest. -/
theorem AnswerInv.honest_wake (hv : AnswerInv runners v) {c c' : Consumer}
    (hc : v.consumers s = some c)
    (hstep : c.step (runners v.engine).decode (v.sched.seqs s) = some c') :
    c'.Honest runners v s := by
  have hs := hv.verdicts.consumers s c hc
  have hold := hv.honest s c hc
  cases c with
  | generating pos =>
    unfold Consumer.step at hstep
    dsimp only at hstep
    split at hstep
    · cases hstep
    · obtain rfl := Option.some.inj hstep
      exact hold
    · next hitem =>
      obtain rfl := Option.some.inj hstep
      exact ⟨_, v.engine, hv.snapshot hs (List.mem_of_getElem? hitem) hold, hv.loaded s hs, rfl⟩
  | streaming reader =>
    simp only [Consumer.step, Option.map_eq_some_iff] at hstep
    obtain ⟨reader', hnext, rfl⟩ := hstep
    obtain ⟨hopen, -⟩ := next_enabled hnext
    unfold Consumer.Honest at hold ⊢
    simp only [hopen, Bool.false_eq_true, if_false] at hold
    obtain ⟨hreason, texts, hchunks⟩ := hold
    unfold StreamReader.next at hnext
    simp only [hopen, Bool.false_eq_true, if_false] at hnext
    split at hnext
    · cases hnext
    · next hitem =>
      obtain rfl := Option.some.inj hnext
      have hsnap := hv.snapshot hs (List.mem_of_getElem? hitem) hreason
      obtain ⟨reason, hr, -⟩ := hsnap.reason
      refine ⟨_, texts, reason, hsnap, hr, ?_⟩
      rw [yielded, ← hchunks, hr]
    · split at hnext
      · obtain rfl := Option.some.inj hnext
        refine ⟨hreason,
          texts ++ [((runners v.engine).decode (v.sched.seqs s).outputIds).drop reader.sent], ?_⟩
        rw [List.map_append, ← hchunks]
        rfl
      · obtain rfl := Option.some.inj hnext
        exact ⟨hreason, texts, hchunks⟩
  | returned completion => cases hstep
  | gone => cases hstep

/-- **Every event keeps every call honest.** -/
theorem AnswerInv.step (hv : AnswerInv runners v) (h : v.step runners e = some v') :
    AnswerInv runners v' := by
  refine ⟨hv.verdicts.step h, ?_, ?_⟩
  · intro s hs hencoder
    by_cases hold : s ∈ v.arrived
    · have hsame := ((log_step h).2.2 s hold).2
      exact engine_loaded_of_step h (hv.loaded s hold (hsame ▸ hencoder))
    · rw [← encoder_of_new h hold hs]
      exact hencoder
  intro s c' hc'
  rcases consumer_of_step h hc' with ⟨hc, he⟩ | ⟨-, hnew, req, hseq⟩ | ⟨c, hc, he, hstep⟩ | rfl
  · exact (hv.honest s c' hc).step hv.verdicts (hv.verdicts.consumers s c' hc) he h
  · have hreason : (v'.sched.seqs s).finishReason ≠ some .cancelled := by
      rw [hseq, Sequence.settle]
      split <;> simp
    rcases hnew with rfl | rfl
    · exact hreason
    · exact ⟨hreason, [], rfl⟩
  · exact (hv.honest_wake hc hstep).step hv.verdicts (hv.verdicts.consumers s c hc) he h
  · trivial

theorem answerInv_reachable {m t : ℤ} {events : List Event}
    (h : run (Server.step runners) (Server.init m t) events = some v) : AnswerInv runners v :=
  run_invariant (AnswerInv runners) (fun hv hs => AnswerInv.step hv hs) (AnswerInv.init m t) h

/-! ### Every run -/

/-- The verdict `reason` is what the tokens `out` of a request say. -/
def Bears (req : Request) (out : List Token) (reason : FinishReason) : Prop :=
  (reason = .stop ↔ ∃ token ∈ out, token ∈ req.eosTokenIds) ∧
    (reason = .length ↔ (∀ token ∈ out, token ∉ req.eosTokenIds) ∧ req.maxNewTokens ≤ out.length) ∧
    (out.length : ℤ) ≤ max req.maxNewTokens 0

theorem Snapshot.bears {q : Sequence} (hq : Snapshot v s q) {reason : FinishReason}
    (hr : q.finishReason = some reason) : Bears (v.sched.seqs s).toRequest q.outputIds reason := by
  obtain ⟨hstop, hlength, -, hle⟩ := hq.truthful.tells
  rw [hr, Option.some.injEq] at hstop hlength
  rw [← hq.request]
  exact ⟨hstop, hlength, hle⟩

/-- **What a buffered answer says.**  In every run of the process, with deaths, swaps and hang-ups:
a request whose call came back is answered by a 200 whose finish reason is `stop` or `length`, as
its tokens say, with the text of these tokens and their number; or, where it failed, by a 500.
No client is told that it was cancelled, or given no reason. -/
theorem buffered_answer {m t : ℤ} {events : List Event}
    (h : run (Server.step runners) (Server.init m t) events = some v) {completion : Completion}
    (hc : v.consumers s = some (.returned completion)) (cmplId : Text) (created : ℤ)
    (modelName : Text) :
    ∃ out name reason, out <+: (v.sched.seqs s).outputIds ∧
      Bears (v.sched.seqs s).toRequest out reason ∧
      let response := completionResponse cmplId created modelName completion
      ((reason = .stop ∨ reason = .length) ∧ response.statusCode = 200 ∧
          CompletionStream.choice response.content
            = some ((runners name).decode out, some reason.toText) ∧
          usage "prompt_tokens".toList response.content
            = some ((v.sched.seqs s).promptIds.length : ℤ) ∧
          usage "completion_tokens".toList response.content = some (out.length : ℤ) ∧
          usage "total_tokens".toList response.content
            = some (((v.sched.seqs s).promptIds.length + out.length : ℕ) : ℤ)) ∨
        (reason = .error ∧ response = errorResponse 500 "generation failed: error".toList
          "internal_server_error".toList none) := by
  obtain ⟨q, name, hq, -, rfl⟩ := (answerInv_reachable h).honest s _ hc
  obtain ⟨reason, hr, hne⟩ := hq.reason
  refine ⟨q.outputIds, name, reason, hq.output, hq.bears hr, ?_⟩
  rw [← hq.request, hr]
  cases reason with
  | cancelled => exact absurd rfl hne
  | error => exact Or.inr ⟨rfl, rfl⟩
  | stop => exact Or.inl ⟨Or.inl rfl, rfl, rfl, rfl, rfl, rfl⟩
  | length => exact Or.inl ⟨Or.inr rfl, rfl, rfl, rfl, rfl, rfl⟩

/-- **What a streamed answer says.**  A stream that came to its end ends with `[DONE]`, after an event
with the finish reason `stop` or `length` as the tokens say, or it is cut off by an error because
its request failed; nobody who is still there is told that the request was cancelled. -/
theorem streamed_answer {m t : ℤ} {events : List Event}
    (h : run (Server.step runners) (Server.init m t) events = some v) {reader : StreamReader}
    (hc : v.consumers s = some (.streaming reader)) (hclosed : reader.closed = true)
    (cmplId : Text) (created : ℤ) (modelName : Text) :
    ∃ out texts reason, out <+: (v.sched.seqs s).outputIds ∧
      Bears (v.sched.seqs s).toRequest out reason ∧ reader.chunks = yielded texts reason ∧
      let body := CompletionStream.stream cmplId created modelName reader.chunks
      ((reason = .stop ∨ reason = .length) ∧ body.raised = none ∧
          (Sse.events body.sent.flatten).getLast? = some CompletionStream.done) ∨
        (reason = .error ∧ body.raised = some "generation failed: error".toList ∧
          CompletionStream.done ∉ Sse.events body.sent.flatten) := by
  have hhonest := (answerInv_reachable h).honest s _ hc
  unfold Consumer.Honest at hhonest
  dsimp only at hhonest
  rw [if_pos hclosed] at hhonest
  obtain ⟨q, texts, reason, hq, hr, hchunks⟩ := hhonest
  obtain ⟨reason', hr', hne⟩ := hq.reason
  obtain rfl : reason = reason' := Option.some.inj (hr.symm.trans hr')
  refine ⟨q.outputIds, texts, reason, hq.output, hq.bears hr, hchunks, ?_⟩
  rw [hchunks]
  cases reason with
  | cancelled => exact absurd rfl hne
  | error =>
    refine Or.inr ⟨rfl, raised_yielded cmplId created modelName texts .error, ?_⟩
    rw [events_yielded_fatal cmplId created modelName texts (by decide)]
    intro hdone
    obtain ⟨piece, -, heq⟩ := List.mem_map.mp hdone
    exact CompletionStream.dumps_payload_ne_done piece heq
  | stop =>
    exact Or.inl ⟨Or.inl rfl, raised_yielded cmplId created modelName texts .stop,
      getLast?_events_yielded cmplId created modelName texts (by decide)⟩
  | length =>
    exact Or.inl ⟨Or.inr rfl, raised_yielded cmplId created modelName texts .length,
      getLast?_events_yielded cmplId created modelName texts (by decide)⟩

/-- **What is left of a streamed answer.**  Wherever the body of a stream is cut off on its way: the
events that are left are the first ones; among them is `[DONE]` only if nothing is missing and the
request stopped or used up its budget; and a finish reason among them is the request's. -/
theorem cut_answer {m t : ℤ} {events : List Event}
    (h : run (Server.step runners) (Server.init m t) events = some v) {reader : StreamReader}
    (hc : v.consumers s = some (.streaming reader)) (hclosed : reader.closed = true)
    (cmplId : Text) (created : ℤ) (modelName : Text) :
    ∃ out reason, out <+: (v.sched.seqs s).outputIds ∧
      Bears (v.sched.seqs s).toRequest out reason ∧
      let body := CompletionStream.stream cmplId created modelName reader.chunks
      ∀ cut, cut <+: body.sent.flatten →
        Sse.events cut <+: Sse.events body.sent.flatten ∧
        (CompletionStream.done ∈ Sse.events cut ↔
          cut = body.sent.flatten ∧ (reason = .stop ∨ reason = .length)) ∧
        ∀ data ∈ Sse.events cut, ∀ text finish,
          CompletionStream.readEvent data = some (text, some finish) →
            finish = reason.toText ∧ (reason = .stop ∨ reason = .length) := by
  have hhonest := (answerInv_reachable h).honest s _ hc
  unfold Consumer.Honest at hhonest
  dsimp only at hhonest
  rw [if_pos hclosed] at hhonest
  obtain ⟨q, texts, reason, hq, hr, hchunks⟩ := hhonest
  have hkind : reason.toText ∉ fatalFinishReasons ↔ reason = .stop ∨ reason = .length := by
    cases reason <;> decide
  refine ⟨q.outputIds, reason, hq.output, hq.bears hr, ?_⟩
  rw [hchunks]
  intro body cut hcut
  refine ⟨Sse.events_prefix hcut, ?_, ?_⟩
  · rw [← hkind]
    exact done_mem_events_cut cmplId created modelName texts hcut
  · intro data hdata text finish hread
    rw [← hkind]
    have hmem := (Sse.events_prefix hcut).subset hdata
    rw [CompletionStream.events_stream] at hmem
    rcases List.mem_append.mp hmem with hmem | hmem
    · exact finish_of_mem_told cmplId created modelName texts hmem hread
    · split at hmem
      · cases hmem
      · obtain rfl := List.mem_singleton.mp hmem
        cases hread

/-- A buffered request that stops on its stop token, while another one fails. -/
theorem buffered_answer_stopped :
    let events : List Event := [.startup, .post 0 { prompt := ['h'] }, .post 1 { prompt := ['i'] },
      .loop .iterate, .loop (.tickEnd [some 2, none]), .read 0, .read 0, .read 1]
    let v := runD (Server.step fun _ => { mock with eosTokenIds := {2} })
      (Server.init 8 8192 : Server Unit) events
    ∃ out, out <+: (v.sched.seqs 0).outputIds ∧ ∃ reason,
      Bears (v.sched.seqs 0).toRequest out reason := by
  intro events v
  have h := run_eq_runD (show (run (Server.step fun _ => { mock with eosTokenIds := {2} })
    (Server.init 8 8192 : Server Unit) events).isSome = true by decide)
  have hc : v.consumers 0 = some (.returned ⟨mockWord, 1, 1, some .stop⟩) := by decide
  obtain ⟨out, -, reason, hout, hbears, -⟩ := buffered_answer h hc [] 0 []
  exact ⟨out, hout, reason, hbears⟩

/-- A stream that is torn down after its first token. -/
theorem streamed_answer_torn_down :
    let events : List Event := [.startup, .post 0 { prompt := ['h'], stream := true },
      .beginBody 0 0, .loop .iterate, .loop (.tickEnd [some 0]), .loop .iterate, .loop .raise,
      .read 0, .read 0]
    let v := runD (Server.step fun _ => mock) (Server.init 8 8192 : Server Unit) events
    ∃ texts reason, (v.consumers 0).elim [] (fun c => match c with
      | .streaming reader => reader.chunks
      | _ => []) = yielded texts reason := by
  intro events v
  have h := run_eq_runD (show (run (Server.step fun _ => mock)
    (Server.init 8 8192 : Server Unit) events).isSome = true by decide)
  have hc : v.consumers 0 = some (.streaming
      ⟨2, 5, [⟨mockWord, none⟩, ⟨[], some (some .error)⟩], true⟩) := by decide
  obtain ⟨-, texts, reason, -, -, hchunks, -⟩ := streamed_answer h hc rfl [] 0 []
  rw [hc]
  exact ⟨texts, reason, hchunks⟩

/-- A stream of one token: whoever reads `[DONE]` has read all of it. -/
theorem cut_answer_one_token :
    let events : List Event := [.startup, .post 0 { prompt := ['h'], maxTokens := 1, stream := true },
      .beginBody 0 0, .loop .iterate, .loop (.tickEnd [some 0]), .read 0, .read 0]
    let v := runD (Server.step fun _ => mock) (Server.init 8 8192 : Server Unit) events
    let reader : StreamReader := ⟨2, 5, [⟨mockWord, none⟩, ⟨[], some (some .length)⟩], true⟩
    v.consumers 0 = some (.streaming reader) ∧
      ∀ cut, cut <+: (CompletionStream.stream [] 0 [] reader.chunks).sent.flatten →
        CompletionStream.done ∈ Sse.events cut →
          cut = (CompletionStream.stream [] 0 [] reader.chunks).sent.flatten := by
  intro events v reader
  have h := run_eq_runD (show (run (Server.step fun _ => mock)
    (Server.init 8 8192 : Server Unit) events).isSome = true by decide)
  have hc : v.consumers 0 = some (.streaming reader) := by decide
  obtain ⟨_, _, _, _, hall⟩ := cut_answer h hc rfl [] 0 []
  exact ⟨hc, fun cut hcut hdone => ((hall cut hcut).2.1.mp hdone).1⟩

end Process

end NanoKube
