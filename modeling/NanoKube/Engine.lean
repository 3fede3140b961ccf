import NanoKube.RunLoop

/-!
# A request's view of the loop

`BatchingEngine` submits a sequence and then reads that sequence's queue.  A consumer
is the coroutine that does the reading: it is blocked while it has taken every item,
and each further item wakes it up once.  What it decodes is the whole output at that
moment, which may be ahead of the items it has taken.

## Main definitions

* `Runner` — a runner with its tokenizer; `mock` is `MockRunner`.
* `promptToSequence` — a request body turned into the parameters of a sequence.
* `StreamReader.next` — one turn of the loop of `BatchingEngine.stream`.
* `Consumer.step` — one wake-up of a `generate` or `stream` call.
-/

namespace NanoKube

/-- Text, as code points. -/
abbrev Text := List Char

/-- `ModelRunner`: tokenization and execution for one model. -/
structure Runner (ρ : Type*) extends ModelRunner ρ where
  /-- The state of a runner just constructed. -/
  fresh : ρ
  encode : Text → List Token
  decode : List Token → Text
  eosTokenIds : Finset Token

/-- `MOCK_WORD`. -/
def mockWord : Text := "mock ".toList

/-- `MockRunner`, with its tokenizer: a token per character, and a word per token. -/
def mock : Runner Unit where
  toModelRunner := mockRunner
  fresh := ()
  encode prompt := prompt.map fun c => (c.toNat : ℤ)
  decode tokenIds := (List.replicate tokenIds.length mockWord).flatten
  eosTokenIds := ∅

/-- `CompletionRequest`: a request body, with the defaults of its fields. -/
structure CompletionRequest where
  prompt : Text := []
  maxTokens : ℤ := 64
  temperature : ℚ := 8 / 10
  topK : Option ℤ := none
  stream : Bool := false

/-- `prompt_to_sequence`. -/
def promptToSequence {ρ : Type*} (runner : Runner ρ) (body : CompletionRequest) : Request where
  promptIds := runner.encode body.prompt
  maxNewTokens := body.maxTokens
  temperature := body.temperature
  topK := body.topK
  eosTokenIds := runner.eosTokenIds

/-- What `generate` returns. -/
structure Completion where
  text : Text
  promptTokens : ℕ
  completionTokens : ℕ
  finishReason : Option FinishReason
  deriving DecidableEq

/-- One chunk of a stream.  `finishReason` is `none` on a text chunk; on the last one it is
the finish reason the sequence has then, `some none` standing for the empty string. -/
structure StreamChunk where
  text : Text
  finishReason : Option (Option FinishReason) := none
  deriving DecidableEq

/-- The state of a `stream` generator: items taken, characters sent, and what it yielded. -/
structure StreamReader where
  pos : ℕ := 0
  sent : ℕ := 0
  chunks : List StreamChunk := []
  closed : Bool := false
  deriving DecidableEq

namespace StreamReader

/-- One turn of the loop: take an item, decode the whole output, yield the new suffix.  The
sentinel yields the last chunk instead.  `none` while there is no item to take. -/
def next (decode : List Token → Text) (q : Sequence) (r : StreamReader) : Option StreamReader :=
  if r.closed then none
  else
    match q.queue[r.pos]? with
    | none => none
    | some none =>
      some { r with
        pos := r.pos + 1
        chunks := r.chunks ++ [⟨[], some q.finishReason⟩]
        closed := true }
    | some (some _) =>
      let text := decode q.outputIds
      if r.sent < text.length then
        some { r with
          pos := r.pos + 1
          chunks := r.chunks ++ [⟨text.drop r.sent, none⟩]
          sent := text.length }
      else some { r with pos := r.pos + 1 }

/-- The text a client has put together. -/
def text (r : StreamReader) : Text := (r.chunks.map StreamChunk.text).flatten

end StreamReader

/-- A call of `generate` or `stream`, once its sequence is submitted. -/
inductive Consumer
  /-- In the loop of `generate`, with so many items taken. -/
  | generating (pos : ℕ)
  | streaming (reader : StreamReader)
  | returned (completion : Completion)
  /-- The client hung up. -/
  | gone
  deriving DecidableEq

namespace Consumer

/-- One wake-up. -/
def step (decode : List Token → Text) (q : Sequence) : Consumer → Option Consumer
  | .generating pos =>
    match q.queue[pos]? with
    | none => none
    | some (some _) => some (.generating (pos + 1))
    | some none =>
      some (.returned
        { text := decode q.outputIds
          promptTokens := q.promptIds.length
          completionTokens := q.outputIds.length
          finishReason := q.finishReason })
  | .streaming reader => (reader.next decode q).map .streaming
  | .returned _ | .gone => none

/-- The call has not come to an end: its `finally` is still ahead. -/
def live : Consumer → Bool
  | .generating _ => true
  | .streaming reader => !reader.closed
  | .returned _ | .gone => false

/-- The next wake-up calls `decode`: `generate` does at the sentinel, `stream` at every token. -/
def decodes (q : Sequence) : Consumer → Bool
  | .generating pos => q.queue[pos]? == some none
  | .streaming reader => !reader.closed && (q.queue[reader.pos]?.getD none).isSome
  | .returned _ | .gone => false

end Consumer

end NanoKube
