import NanoKube.Json
import NanoKube.Session
import NanoKube.Sse

/-!
# The body of a streamed completion

`_stream` writes every chunk that the engine yields as a server-sent event around a JSON
text, and `[DONE]` after the last.  A finish reason that is not one of the protocol's is
not sent: the body is cut off in its place, without `[DONE]`.

## Main definitions

* `stream` — `_stream`; `yielded` is what it iterates over.
* `readEvent` — the text and the finish reason that a client finds in an event.

## Main results

* `chunks_of_closed` — a stream that came to its end in a run of the loop yielded such chunks.
* `sent_stream` — the body is one event for each chunk in front of a fatal one.
* `stream_decodes` — the client reads what the engine yielded.
-/

namespace NanoKube

/-- The string that stands for a finish reason. -/
def FinishReason.toText : FinishReason → Text
  | .stop => "stop".toList
  | .length => "length".toList
  | .cancelled => "cancelled".toList
  | .error => "error".toList

/-- `finish_reason`, with the empty string for a sequence that is not finished. -/
def StreamChunk.reason (piece : StreamChunk) : Option Text :=
  piece.finishReason.map fun reason => (reason.map FinishReason.toText).getD []

namespace CompletionStream

/-- `FATAL_FINISH_REASONS`. -/
def fatalFinishReasons : List Text := ["error".toList, "cancelled".toList]

/-- `piece.finish_reason in FATAL_FINISH_REASONS`. -/
def fatal (piece : StreamChunk) : Bool := piece.reason.any (· ∈ fatalFinishReasons)

variable (cmplId : Text) (created : ℤ) (modelName : Text)

/-- The `payload` of a chunk. -/
def payload (piece : StreamChunk) : Json :=
  .obj [
    ("id".toList, .str cmplId),
    ("object".toList, .str "text_completion".toList),
    ("created".toList, .num created),
    ("model".toList, .str modelName),
    ("choices".toList, .arr [.obj [
      ("text".toList, .str piece.text),
      ("index".toList, .num 0),
      ("logprobs".toList, .null),
      ("finish_reason".toList, (piece.reason.map Json.str).getD .null)]])]

/-- `chunk`. -/
def chunk (piece : StreamChunk) : Text :=
  "data: ".toList ++ Json.dumps (payload cmplId created modelName piece) ++ "\n\n".toList

/-- What comes of iterating a body: the strings it yields, and the message of the error it
raises after them. -/
structure Body where
  sent : List Text
  raised : Option Text

/-- `_stream`, over what `engine.stream` yields. -/
def stream : List StreamChunk → Body
  | [] => { sent := ["data: [DONE]\n\n".toList], raised := none }
  | piece :: pieces =>
    if fatal piece then
      -- the status line is already out: to break off is the only error signal left
      { sent := [], raised := some ("generation failed: ".toList ++ piece.reason.getD []) }
    else
      { sent := chunk cmplId created modelName piece :: (stream pieces).sent
        raised := (stream pieces).raised }

/-- What `engine.stream` yields for a sequence that comes to its end: chunks of text, and one
with the finish reason. -/
def yielded (texts : List Text) (reason : FinishReason) : List StreamChunk :=
  texts.map (⟨·, none⟩) ++ [⟨[], some (some reason)⟩]

/-- The data of the last event. -/
def done : Text := "[DONE]".toList

/-- `c["choices"][0]["text"]` and `c["choices"][0]["finish_reason"]`. -/
def choice (c : Json) : Option (Text × Option Text) :=
  (c.get? "choices".toList).bind fun choices => (choices.getItem? 0).bind fun first =>
    match first.get? "text".toList, first.get? "finish_reason".toList with
    | some (.str text), some .null => some (text, none)
    | some (.str text), some (.str reason) => some (text, some reason)
    | _, _ => none

/-- What a client finds in the data of an event. -/
def readEvent (data : Text) : Option (Text × Option Text) := (Json.parse data).bind choice

/-! ### What the engine yields -/

section Yielded

variable {ρ : Type*} {R : ModelRunner ρ} {decode : List Token → Text} {s : SeqId} {q : Sequence}
  {r r' : StreamReader} {x : Session ρ}

/-- A reader has yielded chunks of text, and the verdict once it is closed. -/
def Shaped (r : StreamReader) : Prop :=
  ∃ texts : List Text, (r.closed = false → r.chunks = texts.map (⟨·, none⟩)) ∧
    (r.closed = true → ∃ reason, r.chunks = yielded texts reason)

theorem Shaped.next (h : Shaped r) (hq : q.Channel) (hnext : r.next decode q = some r') :
    Shaped r' := by
  obtain ⟨hopen, item, hitem⟩ := next_enabled hnext
  obtain ⟨texts, hchunks, -⟩ := h
  unfold StreamReader.next at hnext
  simp only [hopen, hitem, Bool.false_eq_true, if_false] at hnext
  cases item with
  | some t =>
    dsimp only at hnext
    split at hnext
    · obtain rfl := Option.some.inj hnext
      refine ⟨texts ++ [(decode q.outputIds).drop r.sent], ?_, ?_⟩
      · intro _
        simp [hchunks hopen]
      · intro hclosed
        cases hclosed
    · obtain rfl := Option.some.inj hnext
      refine ⟨texts, fun _ => hchunks hopen, ?_⟩
      intro hclosed
      cases hclosed
  | none =>
    -- the verdict is there before the sentinel is
    obtain ⟨reason, hreason⟩ := Option.isSome_iff_exists.mp (hq.sentinel hitem).1
    obtain rfl := Option.some.inj hnext
    refine ⟨texts, fun hclosed => (by cases hclosed), fun _ => ⟨reason, ?_⟩⟩
    rw [yielded, ← hchunks hopen, ← hreason]

/-- **A stream that came to its end** yielded chunks of text, and then one with a verdict. -/
theorem chunks_of_closed {m t : ℤ} {state : ρ} {acts : List SessionAct}
    (h : run (Session.step R decode s) (Session.init m t state) acts = some x)
    (hclosed : x.reader.closed = true) : ∃ texts reason, x.reader.chunks = yielded texts reason := by
  have key : x.Lost ∨ (SessionInv decode s x ∧ Shaped x.reader) := by
    refine run_invariant (fun u : Session ρ => u.Lost ∨ (SessionInv decode s u ∧ Shaped u.reader))
      ?_ (Or.inr ⟨SessionInv.init m t state, [], fun _ => rfl, fun hc => (by cases hc)⟩) h
    rintro u l u' (hlost | ⟨hu, hshaped⟩) hstep
    · exact Or.inl (hlost.step hstep)
    · rcases hu.step hstep with hlost | hu'
      · exact Or.inl hlost
      · refine Or.inr ⟨hu', ?_⟩
        cases l with
        | act a =>
          rw [(Session.act_cases hstep).2.1]
          exact hshaped
        | read =>
          obtain ⟨hs, -, -, hnext, -⟩ := hu.read_cases hstep
          exact hshaped.next (hu.staying.channel hs) hnext
  rcases key with ⟨-, hopen⟩ | ⟨-, texts, -, hverdict⟩
  · cases hopen.symm.trans hclosed
  · exact ⟨texts, hverdict hclosed⟩

end Yielded

/-! ### One event -/

variable {cmplId created modelName}

theorem choice_payload (piece : StreamChunk) :
    choice (payload cmplId created modelName piece) = some (piece.text, piece.reason) := by
  unfold payload
  cases piece.reason <;> rfl

/-- A client reads in an event the chunk that it was made of. -/
theorem readEvent_payload (piece : StreamChunk) :
    readEvent (Json.dumps (payload cmplId created modelName piece))
      = some (piece.text, piece.reason) := by
  rw [readEvent, Json.parse_dumps, Option.bind_some, choice_payload]

/-- The text of a payload starts with a brace. -/
theorem dumps_payload_ne_done (piece : StreamChunk) :
    Json.dumps (payload cmplId created modelName piece) ≠ done := by
  intro h
  rw [payload, Json.dumps] at h
  exact absurd (List.cons_eq_cons.mp h).1 (by decide)

theorem oneLine_of_printable {s : Text} (h : Json.Printable s) : Sse.OneLine s :=
  ⟨fun hmem => absurd (h _ hmem) (by decide), fun hmem => absurd (h _ hmem) (by decide)⟩

/-! ### The body -/

/-- **One event for each chunk in front of a fatal one**, and the last one if there is none. -/
theorem sent_stream (pieces : List StreamChunk) :
    (stream cmplId created modelName pieces).sent.flatten
      = ((pieces.takeWhile fun piece => !fatal piece).map
          (fun piece => Json.dumps (payload cmplId created modelName piece))
        ++ if pieces.any fatal then [] else [done]).flatMap Sse.frame := by
  induction pieces with
  | nil => rfl
  | cons piece pieces ih =>
    cases hfatal : fatal piece with
    | true => simp [stream, hfatal]
    | false =>
      simp only [stream, hfatal, Bool.false_eq_true, if_false, List.flatten_cons, ih,
        List.takeWhile_cons, Bool.not_false, if_true, List.map_cons, List.any_cons,
        Bool.false_or, List.cons_append, List.flatMap_cons]
      rfl

theorem raised_stream (pieces : List StreamChunk) :
    (stream cmplId created modelName pieces).raised = none ↔ pieces.any fatal = false := by
  induction pieces with
  | nil => simp [stream]
  | cons piece pieces ih =>
    cases hfatal : fatal piece with
    | true => simp [stream, hfatal]
    | false => simpa [stream, hfatal] using ih

/-- A client that takes the body apart gets the texts of the chunks. -/
theorem events_stream (pieces : List StreamChunk) :
    Sse.events (stream cmplId created modelName pieces).sent.flatten
      = (pieces.takeWhile fun piece => !fatal piece).map
          (fun piece => Json.dumps (payload cmplId created modelName piece))
        ++ if pieces.any fatal then [] else [done] := by
  rw [sent_stream, Sse.events_frames]
  intro data hdata
  rcases List.mem_append.mp hdata with hdata | hdata
  · obtain ⟨piece, -, rfl⟩ := List.mem_map.mp hdata
    exact oneLine_of_printable (Json.printable_dumps _)
  · split at hdata
    · cases hdata
    · rw [List.mem_singleton.mp hdata]
      exact oneLine_of_printable (by decide)

/-! ### A whole stream -/

theorem fatal_text (text : Text) : fatal ⟨text, none⟩ = false := rfl

theorem fatal_verdict (reason : FinishReason) :
    fatal ⟨[], some (some reason)⟩ = true ↔ reason.toText ∈ fatalFinishReasons := by
  cases reason <;> decide

/-- The verdicts that are not fatal are the two that the protocol has. -/
theorem toText_of_not_fatal {reason : FinishReason} (h : reason.toText ∉ fatalFinishReasons) :
    reason.toText = "stop".toList ∨ reason.toText = "length".toList := by
  cases reason with
  | stop => exact Or.inl rfl
  | length => exact Or.inr rfl
  | cancelled => exact absurd (by decide) h
  | error => exact absurd (by decide) h

section

variable (texts : List Text) (reason : FinishReason)

theorem any_fatal :
    (yielded texts reason).any fatal = true ↔ reason.toText ∈ fatalFinishReasons := by
  rw [← fatal_verdict]
  simp [yielded, fatal_text]

/-- In front of a fatal chunk are all of the texts, and the verdict if it may be sent. -/
theorem takeWhile_fatal :
    ((yielded texts reason).takeWhile fun piece => !fatal piece)
      = texts.map (⟨·, none⟩) ++
        (if reason.toText ∈ fatalFinishReasons then [] else [⟨[], some (some reason)⟩]) := by
  rw [yielded, List.takeWhile_append_of_pos]
  · by_cases h : reason.toText ∈ fatalFinishReasons
    · simp [(fatal_verdict reason).mpr h, h]
    · simp [Bool.eq_false_iff.mpr (mt (fatal_verdict reason).mp h), h]
  · intro piece hpiece
    obtain ⟨text, -, rfl⟩ := List.mem_map.mp hpiece
    rfl

end

/-- **The client reads what the engine yielded.**  Whatever the texts, the id and the name of
the model: the body of a stream is one event for each text, in order, then one with the finish
reason and the event `[DONE]`.  Where the finish reason is fatal these two are missing, and an
error is raised in their place.  No event but the last says `[DONE]`, and no finish reason in an
event is other than null, `"stop"` or `"length"`. -/
theorem stream_decodes (cmplId : Text) (created : ℤ) (modelName : Text) (texts : List Text)
    (reason : FinishReason) :
    let body := stream cmplId created modelName (yielded texts reason)
    ∃ datas : List Text,
      Sse.events body.sent.flatten
        = datas ++ (if reason.toText ∈ fatalFinishReasons then [] else [done]) ∧
      datas.map readEvent = texts.map (fun text => some (text, none)) ++
        (if reason.toText ∈ fatalFinishReasons then [] else [some ([], some reason.toText)]) ∧
      done ∉ datas ∧
      (∀ data ∈ datas, ∀ text finish, readEvent data = some (text, finish) →
        finish = none ∨ finish = some "stop".toList ∨ finish = some "length".toList) ∧
      (body.raised = none ↔ reason.toText ∉ fatalFinishReasons) := by
  intro body
  refine ⟨((yielded texts reason).takeWhile fun piece => !fatal piece).map
    (fun piece => Json.dumps (payload cmplId created modelName piece)), ?_, ?_, ?_, ?_, ?_⟩
  · exact (events_stream _).trans (by simp only [any_fatal])
  · rw [List.map_map, takeWhile_fatal, List.map_append]
    congr 1
    · simp [Function.comp_def, readEvent_payload, StreamChunk.reason]
    · by_cases h : reason.toText ∈ fatalFinishReasons
      · simp [h]
      · simp [h, readEvent_payload, StreamChunk.reason]
  · intro hdone
    obtain ⟨piece, -, heq⟩ := List.mem_map.mp hdone
    exact dumps_payload_ne_done piece heq
  · intro data hdata text finish hread
    obtain ⟨piece, hpiece, rfl⟩ := List.mem_map.mp hdata
    rw [readEvent_payload] at hread
    obtain ⟨-, rfl⟩ := Prod.mk.inj (Option.some.inj hread)
    rw [takeWhile_fatal] at hpiece
    rcases List.mem_append.mp hpiece with hpiece | hpiece
    · obtain ⟨text, -, rfl⟩ := List.mem_map.mp hpiece
      exact Or.inl rfl
    · split at hpiece
      · cases hpiece
      · next h =>
        rw [List.mem_singleton.mp hpiece]
        exact Or.inr ((toText_of_not_fatal h).imp (congrArg some) (congrArg some))
  · rw [raised_stream, ← any_fatal texts reason, Bool.not_eq_true]

/-- A sequence that failed before its first token: its one chunk has no event. -/
theorem fatal_chunk_has_no_event :
    let pieces := yielded [] .error
    Sse.events (stream [] 0 [] pieces).sent.flatten = [] ∧
      (stream [] 0 [] pieces).raised = some "generation failed: error".toList ∧
      pieces.map (fun piece => some (piece.text, piece.reason)) ≠ [] := by
  decide

end CompletionStream

end NanoKube
