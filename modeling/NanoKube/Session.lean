import NanoKube.CatchUp
import NanoKube.EndOfStream
import NanoKube.Engine

/-!
# A stream and the loop behind it

The loop, the handlers of other requests, and the `stream` generator that reads the
queue of one request, step by step in any order.  The generator may lag behind: it
decodes the whole output at the time, not the part it has taken items for.

## Main definitions

* `Sequence.Channel` — the queue is the output, then the sentinel once there is a verdict.
* `Session`, `Session.step` — the loop with one `stream` generator.
* `SessionInv` — the generator against the sequence it reads, if its client has not hung up
  before the end.

## Main results

* `next_token`, `next_sentinel` — what one turn of the generator does.
* `SessionInv.step` — the invariant, as long as the client does not hang up too early.
-/

namespace NanoKube

namespace Sequence

variable {q : Sequence}

/-- Tokens are put into the queue and the output together. -/
def Delivered (q : Sequence) : Prop := q.queue.filterMap id = q.outputIds

/-- The queue is the output, followed by the sentinel once there is a verdict. -/
def Channel (q : Sequence) : Prop :=
  q.queue = q.outputIds.map some ++ if q.isFinished then [none] else []

theorem channel_of_eosFinal (h : q.EosFinal) (hd : q.Delivered) : q.Channel := by
  obtain ⟨toks, ht⟩ := h
  have hout : q.outputIds = toks := by
    have hsome : (toks.map some).filterMap id = toks := by simp [List.filterMap_map]
    rw [← hd, ht, List.filterMap_append, hsome]
    split <;> simp
  rw [Channel, hout]
  exact ht

theorem delivered_emit_none (h : q.Delivered) : (q.emit none).Delivered := by
  simpa [Delivered] using h

theorem delivered_record (h : q.Delivered) (t : Token) : (q.record t).Delivered := by
  have hq : q.queue.filterMap id = q.outputIds := h
  rw [Delivered, record_queue, record_outputIds, List.filterMap_append, hq]
  split <;> rfl

theorem delivered_abort (h : q.Delivered) (r : FinishReason) : (q.abort r).Delivered := by
  unfold abort
  split
  · exact h
  · exact delivered_emit_none h

theorem delivered_fail (h : q.Delivered) : q.fail.Delivered := by
  unfold fail
  split <;> exact delivered_emit_none h

theorem delivered_settle (h : q.Delivered) : q.settle.Delivered := by
  unfold settle
  split
  · exact delivered_emit_none h
  · exact h

/-- An item that is not beyond the output is a token, and the one after it the sentinel. -/
theorem Channel.sentinel (h : q.Channel) {pos : ℕ} (hpos : q.queue[pos]? = some none) :
    q.isFinished = true ∧ q.outputIds.length = pos := by
  rw [Channel] at h
  rw [h] at hpos
  rcases Nat.lt_or_ge pos q.outputIds.length with hlt | hge
  · rw [List.getElem?_append_left (by simpa using hlt)] at hpos
    simp [hlt] at hpos
  · rw [List.getElem?_append_right (by simpa using hge)] at hpos
    cases hf : q.isFinished with
    | false => simp [hf] at hpos
    | true =>
      simp only [hf, if_true, List.length_map] at hpos
      have hlt := (List.getElem?_eq_some_iff.mp hpos).1
      simp at hlt
      exact ⟨rfl, by omega⟩

theorem Channel.token (h : q.Channel) {pos : ℕ} {t : Token} (hpos : q.queue[pos]? = some (some t)) :
    pos < q.outputIds.length := by
  rw [Channel] at h
  rw [h] at hpos
  by_contra hge
  rw [List.getElem?_append_right (by simpa using hge)] at hpos
  cases hf : q.isFinished with
  | false => simp [hf] at hpos
  | true =>
    simp only [hf, if_true] at hpos
    have hmem := List.mem_of_getElem? hpos
    simp at hmem

end Sequence

/-! ### One turn of the generator -/

section Turn

variable {decode : List Token → Text} {q : Sequence} {r r' : StreamReader}

/-- **A token**: the reader catches up with the text of the whole output. -/
theorem next_token {t : Token} (h : r.next decode q = some r')
    (hitem : q.queue[r.pos]? = some (some t)) (hsent : r.sent = r.text.length) :
    r'.pos = r.pos + 1 ∧ r'.closed = false ∧ r'.text = catchUp r.text (decode q.outputIds) ∧
      r'.sent = r'.text.length := by
  unfold StreamReader.next at h
  rw [hitem] at h
  dsimp only at h
  split at h
  · cases h
  · next hopen =>
    rw [Bool.not_eq_true] at hopen
    split at h
    · next hlt =>
      obtain rfl := Option.some.inj h
      have htext : ({ r with
          pos := r.pos + 1
          chunks := r.chunks ++ [⟨(decode q.outputIds).drop r.sent, none⟩]
          sent := (decode q.outputIds).length } : StreamReader).text
            = catchUp r.text (decode q.outputIds) := by
        rw [catchUp, ← hsent]
        simp [StreamReader.text]
      refine ⟨rfl, hopen, htext, ?_⟩
      rw [htext, length_catchUp]
      dsimp only
      omega
    · next hge =>
      obtain rfl := Option.some.inj h
      refine ⟨rfl, hopen, ?_, hsent⟩
      rw [catchUp_of_length_le (by omega)]
      rfl

/-- **The sentinel**: the last chunk has no text. -/
theorem next_sentinel (h : r.next decode q = some r') (hitem : q.queue[r.pos]? = some none) :
    r'.closed = true ∧ r'.text = r.text ∧ r'.sent = r.sent := by
  unfold StreamReader.next at h
  rw [hitem] at h
  dsimp only at h
  split at h
  · cases h
  · obtain rfl := Option.some.inj h
    exact ⟨rfl, by simp [StreamReader.text], rfl⟩

/-- A turn needs an open reader and an item. -/
theorem next_enabled (h : r.next decode q = some r') :
    r.closed = false ∧ ∃ item, q.queue[r.pos]? = some item := by
  unfold StreamReader.next at h
  split at h
  · cases h
  · next hopen =>
    refine ⟨by simpa using hopen, ?_⟩
    cases hitem : q.queue[r.pos]? with
    | none => simp [hitem] at h
    | some item => exact ⟨item, rfl⟩

/-- `generate` on a queue that gets no more items: it takes every one. -/
def Consumer.generate (decode : List Token → Text) (q : Sequence) : Option Consumer :=
  run (fun c (_ : Unit) => c.step decode q) (.generating 0) (List.replicate q.queue.length ())

theorem generate_tokens (hq : q.Channel) (n : ℕ) (hn : n ≤ q.outputIds.length) :
    run (fun c (_ : Unit) => Consumer.step decode q c) (.generating 0) (List.replicate n ())
      = some (.generating n) := by
  induction n with
  | zero => rfl
  | succ n ih =>
    rw [List.replicate_succ']
    apply run_snoc (ih (by omega))
    have hitem : q.queue[n]? = some (some q.outputIds[n]) := by
      rw [hq, List.getElem?_append_left (by rw [List.length_map]; exact hn)]
      simp
    simp [Consumer.step, hitem]

/-- **`generate` returns the text of the whole output.** -/
theorem generate_returns (hq : q.Channel) (hf : q.isFinished = true) :
    Consumer.generate decode q = some (.returned
      ⟨decode q.outputIds, q.promptIds.length, q.outputIds.length, q.finishReason⟩) := by
  have hqueue : q.queue = q.outputIds.map some ++ [none] := by rw [hq, hf]; rfl
  have hlen : q.queue.length = q.outputIds.length + 1 := by simp [hqueue]
  have hitem : q.queue[q.outputIds.length]? = some none := by simp [hqueue]
  rw [Consumer.generate, hlen, List.replicate_succ']
  apply run_snoc (generate_tokens hq _ le_rfl)
  simp [Consumer.step, hitem]

end Turn

/-! ### The session -/

/-- The loop, the generator that reads one of its sequences, and whether its client hung up. -/
structure Session (ρ : Type*) where
  world : World ρ
  reader : StreamReader
  gone : Bool

/-- An event of the loop or the handlers, or a turn of the generator. -/
inductive SessionAct
  | act (a : Act)
  | read

namespace Session

variable {ρ : Type*} {R : ModelRunner ρ} {decode : List Token → Text} {s : SeqId}
  {x x' : Session ρ}

/-- Nothing has happened. -/
def init (maxBatchSize maxBatchTokens : ℤ) (runner : ρ) : Session ρ where
  world := World.init maxBatchSize maxBatchTokens runner
  reader := {}
  gone := false

/-- The sequence the generator reads. -/
def seq (s : SeqId) (x : Session ρ) : Sequence := x.world.sched.seqs s

/-- The client of `s` hangs up. -/
def hangsUp (s : SeqId) : Act → Bool
  | .abort seq => s == seq
  | _ => false

/-- The effect of an event, for the generator that reads `s`.  A generator whose client hung up
takes no more turns; when it ends by itself, its `finally` cancels the sequence. -/
def step (R : ModelRunner ρ) (decode : List Token → Text) (s : SeqId) (x : Session ρ) :
    SessionAct → Option (Session ρ)
  | .act a => (x.world.step R a).map fun w =>
      { world := w, reader := x.reader, gone := x.gone || hangsUp s a }
  | .read =>
    if s ∈ x.world.arrived ∧ x.gone = false then
      (x.reader.next decode (x.world.sched.seqs s)).map fun r =>
        { world := if r.closed then
              { x.world with sched := x.world.sched.abort s .cancelled }
            else x.world
          reader := r
          gone := x.gone }
    else none

/-- An event of the loop or the handlers leaves the generator alone. -/
theorem act_cases {a : Act} (h : x.step R decode s (.act a) = some x') :
    x.world.step R a = some x'.world ∧ x'.reader = x.reader ∧
      x'.gone = (x.gone || hangsUp s a) := by
  simp only [step, Option.map_eq_some_iff] at h
  obtain ⟨w, hw, rfl⟩ := h
  exact ⟨hw, rfl, rfl⟩

/-- The client hung up before the end of the stream. -/
def Lost (x : Session ρ) : Prop := x.gone = true ∧ x.reader.closed = false

theorem Lost.step {l : SessionAct} (hx : x.Lost) (h : x.step R decode s l = some x') :
    x'.Lost := by
  obtain ⟨hgone, hopen⟩ := hx
  cases l with
  | act a =>
    obtain ⟨-, hreader, hgone'⟩ := act_cases h
    refine ⟨?_, ?_⟩
    · rw [hgone', hgone, Bool.true_or]
    · rwa [hreader]
  | read => simp [Session.step, hgone] at h

end Session

/-! ### A client that stays -/

section Stays

variable {ρ : Type*} {R : ModelRunner ρ} {w w' : World ρ} {a : Act} {s : SeqId}

/-- The loop, seen by a client that stays: its sequence is unfinished whenever the runner has it,
and its queue is its output, then the sentinel. -/
structure Staying (s : SeqId) (w : World ρ) : Prop where
  world : WorldInv w
  inflight : w.loop.pc = .executing → s ∈ w.loop.batch → (w.sched.seqs s).isFinished = false
  eosFinal : s ∈ w.arrived → (w.sched.seqs s).EosFinal
  delivered : s ∈ w.arrived → (w.sched.seqs s).Delivered

theorem Staying.channel (hw : Staying s w) (hs : s ∈ w.arrived) : (w.sched.seqs s).Channel :=
  Sequence.channel_of_eosFinal (hw.eosFinal hs) (hw.delivered hs)

theorem Staying.init (m t : ℤ) (r : ρ) : Staying s (World.init m t r) where
  world := WorldInv.init m t r
  inflight := by intro h; cases h
  eosFinal := by intro hs; cases hs
  delivered := by intro hs; cases hs

theorem Staying.step (hw : Staying s w) (ha : a ≠ .abort s) (h : w.step R a = some w') :
    Staying s w' := by
  refine ⟨hw.world.step h, unfinished_in_batch_step hw.world h ha hw.inflight, ?_, ?_⟩
  · intro hs
    by_cases hold : s ∈ w.arrived
    · exact eosFinal_step hw.world h hold (cleanFor_of_inflight hw.world h hw.inflight)
        (hw.eosFinal hold)
    · obtain ⟨req, -, hseq⟩ := new_arrival hw.world.fifo h hold hs
      rw [hseq]
      exact Sequence.EosFinal.settle ⟨[], rfl⟩ rfl
  · intro hs
    by_cases hold : s ∈ w.arrived
    · have htouch := touch_of_step hw.world.fifo h hold
      generalize w'.sched.seqs s = q at htouch ⊢
      cases htouch with
      | same => exact hw.delivered hold
      | record t hpc hrow => exact Sequence.delivered_record (hw.delivered hold) t
      | abort r hr => exact Sequence.delivered_abort (hw.delivered hold) r
      | fail ha hpc hmem => exact Sequence.delivered_fail (hw.delivered hold)
    · obtain ⟨req, -, hseq⟩ := new_arrival hw.world.fifo h hold hs
      rw [hseq]
      exact Sequence.delivered_settle rfl

/-- **An output grows by one token or stays**, and grows only without a verdict. -/
theorem Staying.outputIds_step (hw : Staying s w) (h : w.step R a = some w') (hs : s ∈ w.arrived) :
    (w'.sched.seqs s).outputIds = (w.sched.seqs s).outputIds ∨
      ((w.sched.seqs s).isFinished = false ∧
        ∃ t, (w'.sched.seqs s).outputIds = (w.sched.seqs s).outputIds ++ [t]) := by
  have htouch := touch_of_step hw.world.fifo h hs
  generalize w'.sched.seqs s = q at htouch ⊢
  cases htouch with
  | same => exact Or.inl rfl
  | record t hpc hrow =>
    have hlive := hw.inflight hpc (List.of_mem_zip hrow).1
    exact Or.inr ⟨hlive, t, Sequence.record_outputIds _ _⟩
  | abort r hr => exact Or.inl (Sequence.abort_outputIds _ _)
  | fail ha hpc hmem => exact Or.inl (Sequence.fail_outputIds _)

/-- **What has a verdict is left alone.** -/
theorem Staying.seq_of_isFinished (hw : Staying s w) (h : w.step R a = some w')
    (hs : s ∈ w.arrived) (hf : (w.sched.seqs s).isFinished = true) :
    w'.sched.seqs s = w.sched.seqs s := by
  have hclean := cleanFor_of_inflight hw.world h hw.inflight
  have htouch := touch_of_step hw.world.fifo h hs
  generalize w'.sched.seqs s = q at htouch ⊢
  cases htouch with
  | same => rfl
  | record t hpc hrow => exact absurd (hclean _ hrow rfl rfl) (by simp [hf])
  | abort r hr => exact Sequence.abort_of_isFinished hf r
  | fail ha hpc hmem =>
    rcases List.mem_append.mp hmem with hrun | hwait
    · rcases ha with rfl | rfl
      · exact absurd (hclean hrun) (by simp [hf])
      · exact absurd (hclean hpc hrun) (by simp [hf])
    · have hlive : (w.sched.seqs s).isFinished = false := hw.world.fifo.waiting_live s hwait
      exact absurd hlive (by simp [hf])

end Stays

/-! ### The generator against its sequence -/

section Inv

variable {ρ : Type*} {R : ModelRunner ρ} {decode : List Token → Text} {s : SeqId}
  {x x' : Session ρ} {l : SessionAct}

/-- The generator has taken no more than there is, and once it has taken every token it has at
least as much text as there is. -/
structure SessionInv (decode : List Token → Text) (s : SeqId) (x : Session ρ) : Prop where
  staying : Staying s x.world
  fresh : s ∉ x.world.arrived → x.reader = {}
  sent : x.reader.sent = x.reader.text.length
  behind : x.reader.closed = false → x.reader.pos ≤ (x.seq s).outputIds.length
  closed : x.reader.closed = true → (x.seq s).isFinished = true
  caught : x.reader.closed = true ∨ x.reader.pos = (x.seq s).outputIds.length →
    (x.seq s).outputIds ≠ [] →
    (decode (x.seq s).outputIds).length ≤ x.reader.text.length

theorem SessionInv.init (m t : ℤ) (r : ρ) : SessionInv decode s (Session.init m t r) where
  staying := Staying.init m t r
  fresh := by intro _; rfl
  sent := rfl
  behind := by intro _; exact Nat.zero_le _
  closed := by intro h; cases h
  caught := by intro _ hne; exact absurd rfl hne

theorem SessionInv.step_act (hx : SessionInv decode s x) {a : Act} (hstay : Staying s x'.world)
    (h : x.step R decode s (.act a) = some x') : SessionInv decode s x' := by
  obtain ⟨hw, hreader, -⟩ := Session.act_cases h
  have hclosed := hx.closed
  have hbehind := hx.behind
  have hcaught := hx.caught
  simp only [Session.seq] at hclosed hbehind hcaught
  by_cases hs : s ∈ x.world.arrived
  · have harr := arrived_subset_of_step hw hs
    have hfin := isFinished_step hx.staying.world.fifo hw hs
    refine ⟨hstay, fun hno => absurd harr hno, hreader ▸ hx.sent, ?_, ?_, ?_⟩
    all_goals rw [hreader, Session.seq]
    · intro hopen
      rcases hx.staying.outputIds_step hw hs with hout | ⟨-, t, hout⟩
      · rw [hout]
        exact hbehind hopen
      · rw [hout, List.length_append]
        exact Nat.le_add_right_of_le (hbehind hopen)
    · exact fun hc => hfin (hclosed hc)
    · rcases hx.staying.outputIds_step hw hs with hout | ⟨hlive, t, hout⟩
      · rw [hout]
        exact hcaught
      · -- the reader is open and now behind
        rw [hout, List.length_append, List.length_singleton]
        rintro (hc | hpos) -
        · rw [hclosed hc] at hlive
          cases hlive
        · have hopen : x.reader.closed = false := by
            by_contra hc
            rw [Bool.not_eq_false] at hc
            rw [hclosed hc] at hlive
            cases hlive
          have := hbehind hopen
          omega
  · have hfresh := hx.fresh hs
    have hpos : x'.reader.pos = 0 := by rw [hreader, hfresh]
    have hopen : x'.reader.closed = false := by rw [hreader, hfresh]
    refine ⟨hstay, fun _ => hreader ▸ hfresh, hreader ▸ hx.sent, ?_, ?_, ?_⟩
    · intro _
      omega
    · intro hc
      rw [hopen] at hc
      cases hc
    · rintro (hc | hlen) hne
      · rw [hopen] at hc
        cases hc
      · exact absurd (List.length_eq_zero_iff.mp (hlen.symm.trans hpos)) hne

/-- A client that hangs up after the end of the stream changes nothing. -/
theorem SessionInv.hang_up_late (hx : SessionInv decode s x) (hclosed : x.reader.closed = true)
    (h : x.step R decode s (.act (.abort s)) = some x') : x'.world = x.world := by
  obtain ⟨hw, -, -⟩ := Session.act_cases h
  have hf : (x.world.sched.seqs s).isFinished = true := hx.closed hclosed
  simp only [World.step, Option.ite_none_right_eq_some, Option.some.injEq] at hw
  rw [← hw.2]
  simp [Scheduler.abort, hf]

/-- **A turn of the generator leaves the loop alone**: the `cancel` at its end finds a verdict. -/
theorem SessionInv.read_cases (hx : SessionInv decode s x)
    (h : x.step R decode s .read = some x') :
    s ∈ x.world.arrived ∧ x'.world = x.world ∧ x.reader.closed = false ∧
      x.reader.next decode (x.seq s) = some x'.reader ∧
      ((∃ t, (x.seq s).queue[x.reader.pos]? = some (some t)) ∨
        (x.seq s).queue[x.reader.pos]? = some none) := by
  simp only [Session.step, Option.ite_none_right_eq_some, Option.map_eq_some_iff] at h
  obtain ⟨⟨hs, -⟩, r, hnext, rfl⟩ := h
  obtain ⟨hopen, item, hitem⟩ := next_enabled hnext
  cases item with
  | some t =>
    have hclosed := (next_token hnext hitem hx.sent).2.1
    exact ⟨hs, by simp [hclosed], hopen, hnext, Or.inl ⟨t, hitem⟩⟩
  | none =>
    have hfin := ((hx.staying.channel hs).sentinel hitem).1
    have hsame : x.world.sched.abort s .cancelled = x.world.sched := by
      simp [Scheduler.abort, hfin]
    exact ⟨hs, by simp [hsame], hopen, hnext, Or.inr hitem⟩

theorem SessionInv.step_read (hx : SessionInv decode s x)
    (h : x.step R decode s .read = some x') : SessionInv decode s x' := by
  obtain ⟨hs, hworld, hopen, hnext, hitem⟩ := hx.read_cases h
  have hseq : x'.seq s = x.seq s := by rw [Session.seq, Session.seq, hworld]
  have hchannel := hx.staying.channel hs
  rcases hitem with ⟨t, hitem⟩ | hitem
  · obtain ⟨hpos, hopen', htext, hsent⟩ := next_token hnext hitem hx.sent
    have hlt := hchannel.token hitem
    refine ⟨hworld ▸ hx.staying, fun hno => absurd (hworld ▸ hs) hno, hsent, ?_, ?_, ?_⟩
    · intro _
      rw [hseq, hpos]
      exact hlt
    · intro hc
      rw [hopen'] at hc
      cases hc
    · intro _ _
      rw [hseq, htext, length_catchUp]
      exact le_max_right _ _
  · obtain ⟨hclosed, htext, hsent⟩ := next_sentinel hnext hitem
    obtain ⟨hfin, hlen⟩ := hchannel.sentinel hitem
    refine ⟨hworld ▸ hx.staying, fun hno => absurd (hworld ▸ hs) hno, ?_, ?_, ?_, ?_⟩
    · rw [hsent, htext]
      exact hx.sent
    · intro hc
      rw [hclosed] at hc
      cases hc
    · intro _
      rw [hseq]
      exact hfin
    · intro _ hne
      rw [hseq] at hne ⊢
      rw [htext]
      exact hx.caught (Or.inr hlen.symm) hne

/-- The output of the sequence, from one state of a session to the next. -/
theorem SessionInv.outputIds_prefix (hx : SessionInv decode s x)
    (h : x.step R decode s l = some x') :
    s ∉ x.world.arrived ∨ (x.seq s).outputIds <+: (x'.seq s).outputIds := by
  by_cases hs : s ∈ x.world.arrived
  · apply Or.inr
    cases l with
    | act a =>
      obtain ⟨hw, -, -⟩ := Session.act_cases h
      rw [Session.seq, Session.seq]
      rcases hx.staying.outputIds_step hw hs with hout | ⟨-, t, hout⟩
      · rw [hout]
      · rw [hout]
        exact List.prefix_append ..
    | read =>
      rw [Session.seq, Session.seq, (hx.read_cases h).2.1]
  · exact Or.inl hs

/-- A reader that is closed was there: the queue is complete. -/
theorem SessionInv.channel_of_closed (hx : SessionInv decode s x)
    (hclosed : x.reader.closed = true) : (x.seq s).Channel := by
  by_cases hs : s ∈ x.world.arrived
  · exact hx.staying.channel hs
  · rw [hx.fresh hs] at hclosed
    cases hclosed

/-- **The invariant of a session** is kept, unless the client hangs up before the end. -/
theorem SessionInv.step (hx : SessionInv decode s x) (h : x.step R decode s l = some x') :
    x'.Lost ∨ SessionInv decode s x' := by
  cases l with
  | read => exact Or.inr (hx.step_read h)
  | act a =>
    obtain ⟨hw, hreader, hgone⟩ := Session.act_cases h
    by_cases ha : a = .abort s
    · subst ha
      cases hclosed : x.reader.closed with
      | false =>
        refine Or.inl ⟨?_, ?_⟩
        · rw [hgone]
          simp [Session.hangsUp]
        · rwa [hreader]
      | true =>
        have hstay : Staying s x'.world := by
          rw [hx.hang_up_late hclosed h]
          exact hx.staying
        exact Or.inr (hx.step_act hstay h)
    · exact Or.inr (hx.step_act (hx.staying.step ha hw) h)

end Inv

end NanoKube
