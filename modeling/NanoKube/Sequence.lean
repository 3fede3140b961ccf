import Mathlib.Data.Finset.Basic
import Mathlib.Data.Rat.Init

/-!
# One in-flight request

`Sequence` is the object a request handler, the scheduler's deques and the batch
handed to the runner all share.  Ids come from one counter and are never reused,
so a reference to the object is its id.

`queue` is an `asyncio.Queue`, recorded here as everything that was ever put
into it: items only reach it through `emit`, in order, and a reader is a
position in the list.

## Main definitions

* `Sequence` — a request and what was generated for it.
* `Sequence.record`, `Sequence.abort`, `Sequence.fail` — what the loop body of
  `postprocess`, `Scheduler.abort` and the loop body of `fail_all` do to the one
  object they touch.
* `Sequence.EosFinal` — the law of the output channel: tokens, then one `None`
  exactly when there is a finish reason.
-/

namespace NanoKube

/-- A token id. -/
abbrev Token := ℤ

/-- The `id` of a sequence, standing for a reference to it. -/
abbrev SeqId := ℕ

/-- The non-empty values of `finish_reason`. -/
inductive FinishReason
  /-- The sequence emitted a stop token. -/
  | stop
  /-- It used up `max_new_tokens`. -/
  | length
  /-- The client went away. -/
  | cancelled
  /-- Its row failed, or the loop died. -/
  | error
  deriving DecidableEq, Repr

/-- What the `Sequence` constructor is given. -/
structure Request where
  promptIds : List Token
  maxNewTokens : ℤ
  temperature : ℚ := 7 / 10
  topK : Option ℤ := some 20
  eosTokenIds : Finset Token := ∅

/-- One in-flight request: its parameters, its tokens and its output channel.  A
`finishReason` of `none` is the empty string. -/
structure Sequence extends Request where
  outputIds : List Token := []
  finishReason : Option FinishReason := none
  queue : List (Option Token) := []

namespace Sequence

/-- An unused heap cell. -/
instance : Inhabited Sequence := ⟨{ promptIds := [], maxNewTokens := 0 }⟩

/-- Everything the model has seen for this sequence. -/
def tokenIds (q : Sequence) : List Token := q.promptIds ++ q.outputIds

def isFinished (q : Sequence) : Bool := q.finishReason.isSome

/-- `__len__`. -/
def len (q : Sequence) : ℕ := q.promptIds.length + q.outputIds.length

def emit (q : Sequence) (item : Option Token) : Sequence := { q with queue := q.queue ++ [item] }

def finish (q : Sequence) (reason : FinishReason) : Sequence :=
  { q with finishReason := some reason }

/-- A token is appended and handed to whoever reads the queue. -/
def push (q : Sequence) (token : Token) : Sequence :=
  ({ q with outputIds := q.outputIds ++ [token] } : Sequence).emit (some token)

/-- The verdict `postprocess` reaches once a token has been appended: a stop token
counts before the length limit. -/
def judge (q : Sequence) (token : Token) : Sequence :=
  if token ∈ q.eosTokenIds then q.finish .stop
  else if q.maxNewTokens ≤ q.outputIds.length then q.finish .length
  else q

/-- The loop body of `postprocess`.  Nothing here looks at the state of the
sequence before the token is appended. -/
def record (q : Sequence) (token : Token) : Sequence :=
  let q := (q.push token).judge token
  if q.isFinished then q.emit none else q

/-- What `abort` does to the sequence. -/
def abort (q : Sequence) (reason : FinishReason) : Sequence :=
  if q.isFinished then q else (q.finish reason).emit none

/-- The loop body of `fail_all`: the sentinel is emitted whether or not the
sequence had finished. -/
def fail (q : Sequence) : Sequence :=
  (if q.isFinished then q else q.finish .error).emit none

/-- What `Scheduler.add` does to the sequence: a budget of zero is settled at once. -/
def settle (q : Sequence) : Sequence :=
  if q.maxNewTokens ≤ 0 then (q.finish .length).emit none else q

/-! ### What the operations leave alone -/

@[simp] theorem emit_toRequest (q : Sequence) (i : Option Token) :
    (q.emit i).toRequest = q.toRequest := rfl

@[simp] theorem emit_outputIds (q : Sequence) (i : Option Token) :
    (q.emit i).outputIds = q.outputIds := rfl

@[simp] theorem emit_finishReason (q : Sequence) (i : Option Token) :
    (q.emit i).finishReason = q.finishReason := rfl

@[simp] theorem emit_queue (q : Sequence) (i : Option Token) :
    (q.emit i).queue = q.queue ++ [i] := rfl

@[simp] theorem finish_toRequest (q : Sequence) (r : FinishReason) :
    (q.finish r).toRequest = q.toRequest := rfl

@[simp] theorem finish_outputIds (q : Sequence) (r : FinishReason) :
    (q.finish r).outputIds = q.outputIds := rfl

@[simp] theorem finish_finishReason (q : Sequence) (r : FinishReason) :
    (q.finish r).finishReason = some r := rfl

@[simp] theorem finish_queue (q : Sequence) (r : FinishReason) :
    (q.finish r).queue = q.queue := rfl

@[simp] theorem emit_isFinished (q : Sequence) (i : Option Token) :
    (q.emit i).isFinished = q.isFinished := rfl

@[simp] theorem finish_isFinished (q : Sequence) (r : FinishReason) :
    (q.finish r).isFinished = true := rfl

@[simp] theorem push_toRequest (q : Sequence) (t : Token) :
    (q.push t).toRequest = q.toRequest := rfl

@[simp] theorem push_outputIds (q : Sequence) (t : Token) :
    (q.push t).outputIds = q.outputIds ++ [t] := rfl

@[simp] theorem push_finishReason (q : Sequence) (t : Token) :
    (q.push t).finishReason = q.finishReason := rfl

@[simp] theorem push_queue (q : Sequence) (t : Token) :
    (q.push t).queue = q.queue ++ [some t] := rfl

theorem judge_cases (q : Sequence) (t : Token) :
    (t ∈ q.eosTokenIds ∧ q.judge t = q.finish .stop) ∨
    (t ∉ q.eosTokenIds ∧ q.maxNewTokens ≤ q.outputIds.length ∧ q.judge t = q.finish .length) ∨
    (t ∉ q.eosTokenIds ∧ q.outputIds.length < q.maxNewTokens ∧ q.judge t = q) := by
  unfold judge
  by_cases ht : t ∈ q.eosTokenIds
  · simp [ht]
  · by_cases hl : q.maxNewTokens ≤ q.outputIds.length
    · simp [ht, hl]
    · exact Or.inr (Or.inr ⟨ht, by omega, by rw [if_neg ht, if_neg hl]⟩)

@[simp] theorem judge_toRequest (q : Sequence) (t : Token) :
    (q.judge t).toRequest = q.toRequest := by
  rcases judge_cases q t with ⟨-, h⟩ | ⟨-, -, h⟩ | ⟨-, -, h⟩ <;> simp [h]

@[simp] theorem judge_outputIds (q : Sequence) (t : Token) :
    (q.judge t).outputIds = q.outputIds := by
  rcases judge_cases q t with ⟨-, h⟩ | ⟨-, -, h⟩ | ⟨-, -, h⟩ <;> simp [h]

@[simp] theorem judge_queue (q : Sequence) (t : Token) : (q.judge t).queue = q.queue := by
  rcases judge_cases q t with ⟨-, h⟩ | ⟨-, -, h⟩ | ⟨-, -, h⟩ <;> simp [h]

theorem isFinished_judge (q : Sequence) (t : Token) (h : q.isFinished = true) :
    (q.judge t).isFinished = true := by
  rcases judge_cases q t with ⟨-, h'⟩ | ⟨-, -, h'⟩ | ⟨-, -, h'⟩ <;> simp [h', h]

@[simp] theorem record_toRequest (q : Sequence) (t : Token) :
    (q.record t).toRequest = q.toRequest := by
  unfold record
  dsimp only
  split <;> simp

@[simp] theorem record_outputIds (q : Sequence) (t : Token) :
    (q.record t).outputIds = q.outputIds ++ [t] := by
  unfold record
  dsimp only
  split <;> simp

@[simp] theorem abort_toRequest (q : Sequence) (r : FinishReason) :
    (q.abort r).toRequest = q.toRequest := by
  unfold abort
  split <;> rfl

@[simp] theorem abort_outputIds (q : Sequence) (r : FinishReason) :
    (q.abort r).outputIds = q.outputIds := by
  unfold abort
  split <;> rfl

@[simp] theorem fail_toRequest (q : Sequence) : q.fail.toRequest = q.toRequest := by
  unfold fail
  split <;> rfl

@[simp] theorem fail_outputIds (q : Sequence) : q.fail.outputIds = q.outputIds := by
  unfold fail
  split <;> rfl

@[simp] theorem settle_toRequest (q : Sequence) : q.settle.toRequest = q.toRequest := by
  unfold settle
  split <;> rfl

@[simp] theorem settle_outputIds (q : Sequence) : q.settle.outputIds = q.outputIds := by
  unfold settle
  split <;> rfl

/-! ### Finishing -/

theorem isFinished_iff {q : Sequence} : q.isFinished = true ↔ q.finishReason ≠ none := by
  simp [isFinished, Option.isSome_iff_ne_none]

@[simp] theorem abort_isFinished (q : Sequence) (r : FinishReason) :
    (q.abort r).isFinished = true := by
  unfold abort
  split
  · assumption
  · rfl

theorem abort_of_isFinished {q : Sequence} (h : q.isFinished = true) (r : FinishReason) :
    q.abort r = q := by
  simp [abort, h]

theorem abort_of_not_isFinished {q : Sequence} (h : q.isFinished = false) (r : FinishReason) :
    q.abort r = (q.finish r).emit none := by
  simp [abort, h]

@[simp] theorem fail_isFinished (q : Sequence) : q.fail.isFinished = true := by
  unfold fail
  split
  · simpa using ‹q.isFinished = true›
  · rfl

theorem fail_of_isFinished {q : Sequence} (h : q.isFinished = true) : q.fail = q.emit none := by
  simp [fail, h]

theorem fail_of_not_isFinished {q : Sequence} (h : q.isFinished = false) :
    q.fail = (q.finish .error).emit none := by
  simp [fail, h]

theorem record_isFinished (q : Sequence) (t : Token) :
    (q.record t).isFinished = ((q.push t).judge t).isFinished := by
  unfold record
  dsimp only
  split <;> rfl

theorem isFinished_record {q : Sequence} (h : q.isFinished = true) (t : Token) :
    (q.record t).isFinished = true := by
  rw [record_isFinished]
  exact isFinished_judge _ _ h

/-- The verdict once a token has been recorded: whatever it was before, a stop token or an
exhausted budget overwrites it. -/
theorem record_finishReason (q : Sequence) (t : Token) :
    (q.record t).finishReason =
      if t ∈ q.eosTokenIds then some .stop
      else if q.maxNewTokens ≤ q.outputIds.length + 1 then some .length else q.finishReason := by
  have hrec : (q.record t).finishReason = ((q.push t).judge t).finishReason := by
    unfold record
    dsimp only
    split <;> rfl
  have hlen : ((q.push t).outputIds.length : ℤ) = q.outputIds.length + 1 := by
    simp
  rw [hrec]
  rcases judge_cases (q.push t) t with ⟨ht, hj⟩ | ⟨ht, hl, hj⟩ | ⟨ht, hl, hj⟩ <;>
    rw [push_toRequest] at ht <;> rw [hj]
  · simp [ht]
  · rw [push_toRequest, hlen] at hl
    simp [ht, hl]
  · rw [push_toRequest, hlen] at hl
    simp [ht, hl]

/-- A recorded token is put into the queue, and the sentinel after it if the sequence is
finished by then. -/
theorem record_queue (q : Sequence) (t : Token) :
    (q.record t).queue
      = q.queue ++ some t :: (if (q.record t).isFinished then [none] else []) := by
  rw [record_isFinished]
  unfold record
  dsimp only
  split <;> simp

/-! ### The law of the output channel -/

/-- The items put into the queue are tokens, followed by one `None` exactly when the
sequence has a finish reason. -/
def EosFinal (q : Sequence) : Prop :=
  ∃ toks : List Token, q.queue = toks.map some ++ if q.isFinished then [none] else []

/-- Something was put into the queue after the sentinel. -/
def Spoiled (q : Sequence) : Prop :=
  ∃ before item after, q.queue = before ++ none :: item :: after

theorem not_eosFinal_of_spoiled {q : Sequence} (h : q.Spoiled) : ¬ q.EosFinal := by
  obtain ⟨before, item, after, hq⟩ := h
  rintro ⟨toks, ht⟩
  rw [ht] at hq
  -- the sentinel of the spoiled queue would have to be a token, or be followed by nothing
  have hlast : ∀ (toks : List Token) (tail before : List (Option Token)),
      tail = [none] ∨ tail = [] → toks.map some ++ tail ≠ before ++ none :: item :: after := by
    intro toks
    induction toks with
    | nil =>
      intro tail before ht h
      rcases ht with rfl | rfl <;> cases before <;> simp at h
    | cons t toks ih =>
      intro tail before ht h
      cases before with
      | nil => simp at h
      | cons b before =>
        simp only [List.map_cons, List.cons_append, List.cons.injEq] at h
        exact ih tail before ht h.2
  refine hlast toks _ before ?_ hq
  cases q.isFinished
  · exact Or.inr rfl
  · exact Or.inl rfl

theorem Spoiled.of_prefix {q q' : Sequence} (h : q.Spoiled) (hp : q.queue <+: q'.queue) :
    q'.Spoiled := by
  obtain ⟨before, item, after, hq⟩ := h
  obtain ⟨more, hm⟩ := hp
  exact ⟨before, item, after ++ more, by rw [← hm, hq]; simp⟩

/-- A finished sequence that obeys the law is spoiled by any further item. -/
theorem EosFinal.spoiled_append {q : Sequence} (h : q.EosFinal) (hf : q.isFinished = true)
    {q' : Sequence} {item : Option Token} {after : List (Option Token)}
    (hq : q'.queue = q.queue ++ item :: after) : q'.Spoiled := by
  obtain ⟨toks, ht⟩ := h
  rw [if_pos hf] at ht
  exact ⟨toks.map some, item, after, by rw [hq, ht]; simp⟩

theorem EosFinal.record {q : Sequence} (h : q.EosFinal) (hf : q.isFinished = false) (t : Token) :
    (q.record t).EosFinal := by
  obtain ⟨toks, ht⟩ := h
  refine ⟨toks ++ [t], ?_⟩
  rw [record_queue, ht, hf]
  simp

theorem EosFinal.abort {q : Sequence} (h : q.EosFinal) (r : FinishReason) :
    (q.abort r).EosFinal := by
  by_cases hf : q.isFinished = true
  · rwa [abort_of_isFinished hf]
  · rw [Bool.not_eq_true] at hf
    obtain ⟨toks, ht⟩ := h
    refine ⟨toks, ?_⟩
    rw [abort_of_not_isFinished hf]
    simp [ht, hf]

theorem EosFinal.fail {q : Sequence} (h : q.EosFinal) (hf : q.isFinished = false) :
    q.fail.EosFinal := by
  obtain ⟨toks, ht⟩ := h
  refine ⟨toks, ?_⟩
  rw [fail_of_not_isFinished hf]
  simp [ht, hf]

theorem EosFinal.settle {q : Sequence} (h : q.EosFinal) (hf : q.isFinished = false) :
    q.settle.EosFinal := by
  unfold Sequence.settle
  split
  · obtain ⟨toks, ht⟩ := h
    exact ⟨toks, by simp [ht, hf]⟩
  · exact h

/-! ### Queues only grow -/

theorem queue_prefix_emit (q : Sequence) (i : Option Token) : q.queue <+: (q.emit i).queue :=
  ⟨[i], rfl⟩

theorem queue_prefix_record (q : Sequence) (t : Token) : q.queue <+: (q.record t).queue := by
  rw [record_queue]
  exact List.prefix_append ..

theorem queue_prefix_abort (q : Sequence) (r : FinishReason) : q.queue <+: (q.abort r).queue := by
  unfold Sequence.abort
  split
  · exact List.prefix_refl _
  · exact queue_prefix_emit (q.finish r) none

theorem queue_prefix_fail (q : Sequence) : q.queue <+: q.fail.queue := by
  unfold Sequence.fail
  split
  · exact queue_prefix_emit q none
  · exact queue_prefix_emit (q.finish .error) none

end Sequence

end NanoKube
