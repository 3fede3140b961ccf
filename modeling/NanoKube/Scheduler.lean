import Mathlib.Algebra.GroupWithZero.Nat
import Mathlib.Data.List.Basic
import NanoKube.Sequence

/-!
# Two deques and an admission rule

`Scheduler` holds the ids of the sequences that wait and of those that occupy a
batch slot, next to the heap `seqs` both deques point into.  The functions below
are the methods of the class, in the order the source has them; each is followed
by the lemmas that say what it does to the heap and to the deques, so that no
later file unfolds it.

## Main definitions

* `Scheduler.add`, `Scheduler.schedule`, `Scheduler.postprocess`,
  `Scheduler.abort`, `Scheduler.failAll` — the five operations.
* `Scheduler.hasWork`, `Scheduler.stats` — what the loop and `/metrics` read.

## Main results

* `schedule_spec` — what one call of `schedule` can do to the deques.
* `seqs_foldl_of_mem`, `seqs_foldl_of_not_mem` — a loop that touches each
  sequence of a list once.
-/

namespace NanoKube

/-- The two deques, the limits, and the sequences the deques point to. -/
structure Scheduler where
  seqs : SeqId → Sequence
  waiting : List SeqId
  running : List SeqId
  maxBatchSize : ℤ
  maxBatchTokens : ℤ

namespace Scheduler

/-- `Scheduler.__init__`. -/
def init (maxBatchSize maxBatchTokens : ℤ) : Scheduler where
  seqs := default
  waiting := []
  running := []
  maxBatchSize := maxBatchSize
  maxBatchTokens := maxBatchTokens

/-- Mutation of one sequence through a reference to it. -/
def modify (σ : Scheduler) (s : SeqId) (f : Sequence → Sequence) : Scheduler :=
  { σ with seqs := fun t => if t = s then f (σ.seqs t) else σ.seqs t }

theorem modify_seqs (σ : Scheduler) (s t : SeqId) (f : Sequence → Sequence) :
    (σ.modify s f).seqs t = if t = s then f (σ.seqs t) else σ.seqs t := rfl

@[simp] theorem modify_seqs_self (σ : Scheduler) (s : SeqId) (f : Sequence → Sequence) :
    (σ.modify s f).seqs s = f (σ.seqs s) := by
  simp [modify]

@[simp] theorem modify_waiting (σ : Scheduler) (s : SeqId) (f : Sequence → Sequence) :
    (σ.modify s f).waiting = σ.waiting := rfl

@[simp] theorem modify_running (σ : Scheduler) (s : SeqId) (f : Sequence → Sequence) :
    (σ.modify s f).running = σ.running := rfl

@[simp] theorem modify_maxBatchSize (σ : Scheduler) (s : SeqId) (f : Sequence → Sequence) :
    (σ.modify s f).maxBatchSize = σ.maxBatchSize := rfl

@[simp] theorem modify_maxBatchTokens (σ : Scheduler) (s : SeqId) (f : Sequence → Sequence) :
    (σ.modify s f).maxBatchTokens = σ.maxBatchTokens := rfl

/-! ### The methods -/

/-- Enqueue a new request.  A budget of zero or less is settled here, since
`postprocess` only runs after a token has been produced. -/
def add (σ : Scheduler) (seq : SeqId) : Scheduler :=
  if (σ.seqs seq).maxNewTokens ≤ 0 then
    σ.modify seq fun q => (q.finish .length).emit none
  else { σ with waiting := σ.waiting ++ [seq] }

/-- A `Sequence` is built from the request and added. -/
def submit (σ : Scheduler) (seq : SeqId) (req : Request) : Scheduler :=
  (σ.modify seq fun _ => { toRequest := req }).add seq

/-- The `while self.waiting` loop of `schedule`, on `(running, waiting)`.  Both exits are
`break`: the queue is never searched for a smaller request. -/
def admitLoop (σ : Scheduler) : List SeqId → List SeqId → List SeqId × List SeqId
  | running, [] => (running, [])
  | running, candidate :: rest =>
    if σ.maxBatchSize < (running.length : ℤ) + 1 then (running, candidate :: rest)
    else if running ≠ [] ∧ σ.maxBatchTokens <
        (((running.map fun s => (σ.seqs s).len).sum + (σ.seqs candidate).len : ℕ) : ℤ) then
      (running, candidate :: rest)
    else admitLoop σ (running ++ [candidate]) rest

/-- The members of `running` that have not finished. -/
def unfinishedRunning (σ : Scheduler) : List SeqId :=
  σ.running.filter fun s => !(σ.seqs s).isFinished

/-- Sweep the finished sequences, admit what fits, and return the full running set. -/
def schedule (σ : Scheduler) : Scheduler × List SeqId :=
  let deques := σ.admitLoop σ.unfinishedRunning σ.waiting
  ({ σ with running := deques.1, waiting := deques.2 }, deques.1)

/-- One turn of the loop of `postprocess`. -/
def recordRow (σ : Scheduler) (row : SeqId × Token) : Scheduler :=
  σ.modify row.1 fun q => q.record row.2

/-- The loop of `postprocess`, over the rows of `zip(batch, next_ids)`. -/
def postRows : Scheduler → List (SeqId × Token) → Scheduler × List SeqId
  | σ, [] => (σ, [])
  | σ, row :: rows =>
    let σ := σ.recordRow row
    let rest := postRows σ rows
    (rest.1, if (σ.seqs row.1).isFinished then row.1 :: rest.2 else rest.2)

/-- Append one sampled token per sequence and decide who is done. -/
def postprocess (σ : Scheduler) (batch : List SeqId) (nextIds : List Token) :
    Scheduler × List SeqId :=
  σ.postRows (batch.zip nextIds)

/-- `num_running`: finished sequences stay in the deque until the next sweep. -/
def numRunning (σ : Scheduler) : ℕ := σ.unfinishedRunning.length

def numWaiting (σ : Scheduler) : ℕ := σ.waiting.length

def hasWork (σ : Scheduler) : Bool := !σ.waiting.isEmpty || !σ.running.isEmpty

/-- `BatchingEngine.stats`. -/
def stats (σ : Scheduler) : ℕ × ℕ := (σ.numRunning, σ.numWaiting)

/-- Give up on one sequence, wherever it currently is. -/
def abort (σ : Scheduler) (seq : SeqId) (reason : FinishReason) : Scheduler :=
  if (σ.seqs seq).isFinished then σ
  else
    let σ := σ.modify seq fun q => q.finish reason
    let σ := { σ with waiting := σ.waiting.erase seq }
    σ.modify seq fun q => q.emit none

/-- Tear down every in-flight request; the second component is the list it returns. -/
def failAll (σ : Scheduler) : Scheduler × List SeqId :=
  let failed := σ.running ++ σ.waiting
  let σ := failed.foldl (fun σ s => σ.modify s Sequence.fail) σ
  ({ σ with running := [], waiting := [] }, failed)

/-! ### Loops over the heap -/

section Loops

variable {β : Type*} (op : Scheduler → β → Scheduler) (key : β → SeqId)
  (f : β → Sequence → Sequence)

/-- A loop whose body leaves a field alone leaves it alone. -/
theorem proj_foldl {γ : Type*} (proj : Scheduler → γ) (h : ∀ σ b, proj (op σ b) = proj σ) :
    ∀ (l : List β) (σ : Scheduler), proj (l.foldl op σ) = proj σ := by
  intro l
  induction l with
  | nil => intro σ; rfl
  | cons b l ih => intro σ; rw [List.foldl_cons, ih, h]

/-- A loop leaves alone every sequence it does not name. -/
theorem seqs_foldl_of_not_mem
    (hop : ∀ σ b t, (op σ b).seqs t = if t = key b then f b (σ.seqs t) else σ.seqs t)
    {t : SeqId} : ∀ (l : List β) (σ : Scheduler), t ∉ l.map key →
      (l.foldl op σ).seqs t = σ.seqs t := by
  intro l
  induction l with
  | nil => intro σ _; rfl
  | cons b l ih =>
    intro σ ht
    rw [List.map_cons, List.mem_cons, not_or] at ht
    rw [List.foldl_cons, ih _ ht.2, hop, if_neg ht.1]

/-- **A loop touches each sequence it names once**, when it names no sequence twice. -/
theorem seqs_foldl_of_mem
    (hop : ∀ σ b t, (op σ b).seqs t = if t = key b then f b (σ.seqs t) else σ.seqs t)
    {b : β} : ∀ (l : List β) (σ : Scheduler), (l.map key).Nodup → b ∈ l →
      (l.foldl op σ).seqs (key b) = f b (σ.seqs (key b)) := by
  intro l
  induction l with
  | nil => intro σ _ hb; simp at hb
  | cons c l ih =>
    intro σ hn hb
    rw [List.map_cons, List.nodup_cons] at hn
    rw [List.foldl_cons]
    rcases List.mem_cons.mp hb with rfl | hb
    · rw [seqs_foldl_of_not_mem op key f hop l _ hn.1, hop, if_pos rfl]
    · have hne : key b ≠ key c := fun h => hn.1 (h ▸ List.mem_map_of_mem hb)
      rw [ih _ hn.2 hb, hop, if_neg hne]

end Loops

/-! ### `add` -/

theorem add_seqs (σ : Scheduler) (s t : SeqId) :
    (σ.add s).seqs t = if t = s then (σ.seqs t).settle else σ.seqs t := by
  unfold add Sequence.settle
  by_cases hts : t = s
  · subst hts
    split <;> simp
  · split <;> simp [hts, modify_seqs]

theorem add_waiting (σ : Scheduler) (s : SeqId) :
    (σ.add s).waiting
      = if (σ.seqs s).maxNewTokens ≤ 0 then σ.waiting else σ.waiting ++ [s] := by
  unfold add
  split <;> rfl

@[simp] theorem add_running (σ : Scheduler) (s : SeqId) : (σ.add s).running = σ.running := by
  unfold add
  split <;> rfl

@[simp] theorem add_maxBatchSize (σ : Scheduler) (s : SeqId) :
    (σ.add s).maxBatchSize = σ.maxBatchSize := by
  unfold add
  split <;> rfl

theorem submit_seqs (σ : Scheduler) (s t : SeqId) (req : Request) :
    (σ.submit s req).seqs t
      = if t = s then ({ toRequest := req } : Sequence).settle else σ.seqs t := by
  unfold submit
  rw [add_seqs]
  by_cases h : t = s
  · simp [h]
  · simp [h, modify_seqs]

theorem submit_waiting (σ : Scheduler) (s : SeqId) (req : Request) :
    (σ.submit s req).waiting
      = if req.maxNewTokens ≤ 0 then σ.waiting else σ.waiting ++ [s] := by
  unfold submit
  rw [add_waiting, modify_seqs_self, modify_waiting]

@[simp] theorem submit_running (σ : Scheduler) (s : SeqId) (req : Request) :
    (σ.submit s req).running = σ.running := by
  simp [submit]

@[simp] theorem submit_maxBatchSize (σ : Scheduler) (s : SeqId) (req : Request) :
    (σ.submit s req).maxBatchSize = σ.maxBatchSize := by
  simp [submit]

@[simp] theorem submit_maxBatchTokens (σ : Scheduler) (s : SeqId) (req : Request) :
    (σ.submit s req).maxBatchTokens = σ.maxBatchTokens := by
  unfold submit add
  split <;> rfl

/-! ### `schedule` -/

/-- The loop only moves the boundary between the two deques. -/
theorem admitLoop_append (σ : Scheduler) : ∀ waiting running : List SeqId,
    (σ.admitLoop running waiting).1 ++ (σ.admitLoop running waiting).2 = running ++ waiting := by
  intro waiting
  induction waiting with
  | nil => intro running; rfl
  | cons c rest ih =>
    intro running
    rw [admitLoop]
    split
    · rfl
    · split
      · rfl
      · rw [ih]; simp

/-- The loop never drops a running sequence. -/
theorem prefix_admitLoop (σ : Scheduler) : ∀ waiting running : List SeqId,
    running <+: (σ.admitLoop running waiting).1 := by
  intro waiting
  induction waiting with
  | nil => intro running; exact List.prefix_refl _
  | cons c rest ih =>
    intro running
    rw [admitLoop]
    split
    · exact List.prefix_refl _
    · split
      · exact List.prefix_refl _
      · exact (List.prefix_append ..).trans (ih _)

/-- The loop never admits past the batch size. -/
theorem length_admitLoop_le (σ : Scheduler) {m : ℤ} (hm : σ.maxBatchSize ≤ m) :
    ∀ waiting running : List SeqId, (running.length : ℤ) ≤ m →
      ((σ.admitLoop running waiting).1.length : ℤ) ≤ m := by
  intro waiting
  induction waiting with
  | nil => intro running h; exact h
  | cons c rest ih =>
    intro running h
    rw [admitLoop]
    split
    · exact h
    · split
      · exact h
      · apply ih
        rw [List.length_append, List.length_singleton]
        omega

/-- **What one call of `schedule` can do**: the returned batch is the new `running`, the
sequences themselves are untouched, and some sequences move from the front of `waiting`
to the end of the unfinished running ones. -/
theorem schedule_spec (σ : Scheduler) : ∃ admitted,
    σ.waiting = admitted ++ σ.schedule.1.waiting ∧
    σ.schedule.2 = σ.unfinishedRunning ++ admitted ∧
    σ.schedule.1 = { σ with running := σ.schedule.2, waiting := σ.schedule.1.waiting } := by
  obtain ⟨admitted, hadm⟩ := σ.prefix_admitLoop σ.waiting σ.unfinishedRunning
  refine ⟨admitted, ?_, hadm.symm, rfl⟩
  have h := σ.admitLoop_append σ.waiting σ.unfinishedRunning
  rw [← hadm, List.append_assoc] at h
  exact (List.append_cancel_left h).symm

@[simp] theorem schedule_seqs (σ : Scheduler) : σ.schedule.1.seqs = σ.seqs := rfl

@[simp] theorem schedule_running (σ : Scheduler) : σ.schedule.1.running = σ.schedule.2 := rfl

@[simp] theorem schedule_maxBatchSize (σ : Scheduler) :
    σ.schedule.1.maxBatchSize = σ.maxBatchSize := rfl

theorem length_schedule_le (σ : Scheduler) {m : ℤ} (hm : σ.maxBatchSize ≤ m)
    (h : (σ.running.length : ℤ) ≤ m) : (σ.schedule.2.length : ℤ) ≤ m := by
  apply length_admitLoop_le σ hm
  have := List.length_filter_le (fun s => !(σ.seqs s).isFinished) σ.running
  unfold unfinishedRunning
  omega

/-- A scheduled sequence is unfinished if every waiting one is. -/
theorem isFinished_of_mem_schedule {σ : Scheduler}
    (hw : ∀ s ∈ σ.waiting, (σ.seqs s).isFinished = false) {s : SeqId} (hs : s ∈ σ.schedule.2) :
    (σ.seqs s).isFinished = false := by
  obtain ⟨admitted, hadm, hbatch, -⟩ := σ.schedule_spec
  rw [hbatch, List.mem_append] at hs
  rcases hs with hs | hs
  · simpa using (List.mem_filter.mp hs).2
  · exact hw s (by rw [hadm]; exact List.mem_append_left _ hs)

/-- With nothing queued there is nothing to schedule. -/
theorem schedule_of_no_work {σ : Scheduler} (h : σ.hasWork = false) : σ.schedule.2 = [] := by
  obtain ⟨hwait, hrun⟩ : σ.waiting = [] ∧ σ.running = [] := by simpa [hasWork] using h
  obtain ⟨admitted, hadm, hbatch, -⟩ := σ.schedule_spec
  rw [hwait] at hadm
  have hnil : admitted = [] := (List.append_eq_nil_iff.mp hadm.symm).1
  rw [hbatch, hnil, unfinishedRunning, hrun]
  rfl

/-! ### `postprocess` -/

/-- Zipping keeps the order of the first list, and stops when the second one ends. -/
theorem map_fst_zip_sublist {α β : Type*} : ∀ (l₁ : List α) (l₂ : List β),
    ((l₁.zip l₂).map Prod.fst).Sublist l₁
  | [], _ => by simp
  | _ :: _, [] => by simp
  | _ :: l₁, _ :: l₂ => (map_fst_zip_sublist l₁ l₂).cons_cons _

theorem postRows_fst : ∀ (rows : List (SeqId × Token)) (σ : Scheduler),
    (σ.postRows rows).1 = rows.foldl recordRow σ := by
  intro rows
  induction rows with
  | nil => intro σ; rfl
  | cons r rows ih => intro σ; exact ih _

theorem postRows_seqs_of_mem {σ : Scheduler} {rows : List (SeqId × Token)} {s : SeqId} {t : Token}
    (hn : (rows.map Prod.fst).Nodup) (h : (s, t) ∈ rows) :
    (σ.postRows rows).1.seqs s = (σ.seqs s).record t := by
  rw [postRows_fst]
  exact seqs_foldl_of_mem _ Prod.fst (fun r q => q.record r.2)
    (fun σ r t => σ.modify_seqs r.1 t _) rows σ hn h

theorem postRows_seqs_of_not_mem {σ : Scheduler} {rows : List (SeqId × Token)} {s : SeqId}
    (h : s ∉ rows.map Prod.fst) : (σ.postRows rows).1.seqs s = σ.seqs s := by
  rw [postRows_fst]
  exact seqs_foldl_of_not_mem _ Prod.fst (fun r q => q.record r.2)
    (fun σ r t => σ.modify_seqs r.1 t _) rows σ h

@[simp] theorem postRows_waiting (σ : Scheduler) (rows : List (SeqId × Token)) :
    (σ.postRows rows).1.waiting = σ.waiting := by
  rw [postRows_fst]
  exact proj_foldl recordRow Scheduler.waiting (fun _ _ => rfl) rows σ

@[simp] theorem postRows_running (σ : Scheduler) (rows : List (SeqId × Token)) :
    (σ.postRows rows).1.running = σ.running := by
  rw [postRows_fst]
  exact proj_foldl recordRow Scheduler.running (fun _ _ => rfl) rows σ

@[simp] theorem postRows_maxBatchSize (σ : Scheduler) (rows : List (SeqId × Token)) :
    (σ.postRows rows).1.maxBatchSize = σ.maxBatchSize := by
  rw [postRows_fst]
  exact proj_foldl recordRow Scheduler.maxBatchSize (fun _ _ => rfl) rows σ

@[simp] theorem postRows_maxBatchTokens (σ : Scheduler) (rows : List (SeqId × Token)) :
    (σ.postRows rows).1.maxBatchTokens = σ.maxBatchTokens := by
  rw [postRows_fst]
  exact proj_foldl recordRow Scheduler.maxBatchTokens (fun _ _ => rfl) rows σ

/-! ### `abort` -/

theorem abort_seqs (σ : Scheduler) (s t : SeqId) (r : FinishReason) :
    (σ.abort s r).seqs t = if t = s then (σ.seqs t).abort r else σ.seqs t := by
  unfold abort
  by_cases hts : t = s
  · subst hts
    cases hf : (σ.seqs t).isFinished with
    | true => simp [Sequence.abort_of_isFinished hf]
    | false => simp [Sequence.abort_of_not_isFinished hf]
  · split <;> simp [hts, modify_seqs]

theorem abort_waiting (σ : Scheduler) (s : SeqId) (r : FinishReason) :
    (σ.abort s r).waiting
      = if (σ.seqs s).isFinished then σ.waiting else σ.waiting.erase s := by
  unfold abort
  split <;> rfl

@[simp] theorem abort_running (σ : Scheduler) (s : SeqId) (r : FinishReason) :
    (σ.abort s r).running = σ.running := by
  unfold abort
  split <;> rfl

@[simp] theorem abort_maxBatchSize (σ : Scheduler) (s : SeqId) (r : FinishReason) :
    (σ.abort s r).maxBatchSize = σ.maxBatchSize := by
  unfold abort
  split <;> rfl

@[simp] theorem abort_maxBatchTokens (σ : Scheduler) (s : SeqId) (r : FinishReason) :
    (σ.abort s r).maxBatchTokens = σ.maxBatchTokens := by
  unfold abort
  split <;> rfl

theorem abort_waiting_sublist (σ : Scheduler) (s : SeqId) (r : FinishReason) :
    (σ.abort s r).waiting.Sublist σ.waiting := by
  rw [abort_waiting]
  split
  · exact List.Sublist.refl _
  · exact List.erase_sublist

/-! ### `fail_all` -/

theorem failAll_seqs_of_mem {σ : Scheduler} (hn : (σ.running ++ σ.waiting).Nodup) {s : SeqId}
    (h : s ∈ σ.running ++ σ.waiting) : σ.failAll.1.seqs s = (σ.seqs s).fail :=
  seqs_foldl_of_mem _ id (fun _ q => q.fail) (fun σ s t => σ.modify_seqs s t _)
    _ σ (by simpa using hn) h

theorem failAll_seqs_of_not_mem {σ : Scheduler} {s : SeqId} (h : s ∉ σ.running ++ σ.waiting) :
    σ.failAll.1.seqs s = σ.seqs s :=
  seqs_foldl_of_not_mem _ id (fun _ q => q.fail) (fun σ s t => σ.modify_seqs s t _)
    _ σ (by simpa using h)

theorem failAll_seqs {σ : Scheduler} (hn : (σ.running ++ σ.waiting).Nodup) (s : SeqId) :
    σ.failAll.1.seqs s
      = if s ∈ σ.running ++ σ.waiting then (σ.seqs s).fail else σ.seqs s := by
  split
  · exact failAll_seqs_of_mem hn ‹_›
  · exact failAll_seqs_of_not_mem ‹_›

@[simp] theorem failAll_running (σ : Scheduler) : σ.failAll.1.running = [] := rfl

@[simp] theorem failAll_waiting (σ : Scheduler) : σ.failAll.1.waiting = [] := rfl

@[simp] theorem failAll_maxBatchSize (σ : Scheduler) :
    σ.failAll.1.maxBatchSize = σ.maxBatchSize :=
  proj_foldl (fun σ s => σ.modify s Sequence.fail) Scheduler.maxBatchSize (fun _ _ => rfl) _ σ

@[simp] theorem failAll_maxBatchTokens (σ : Scheduler) :
    σ.failAll.1.maxBatchTokens = σ.maxBatchTokens :=
  proj_foldl (fun σ s => σ.modify s Sequence.fail) Scheduler.maxBatchTokens (fun _ _ => rfl) _ σ

/-! ### `has_work` -/

theorem hasWork_eq_false {σ : Scheduler} :
    σ.hasWork = false ↔ σ.waiting = [] ∧ σ.running = [] := by
  simp [hasWork]

end Scheduler

end NanoKube
