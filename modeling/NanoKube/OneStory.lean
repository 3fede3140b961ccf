import NanoKube.Session

/-!
# A stream and a buffered call on one sequence

The `stream` generator and a `generate` call read the same queue, each for itself, at any
moments.  If decoding more tokens only ever adds to the text, the two end with the same
story: the chunks are pieces of the text in order, then one empty chunk with the finish
reason, and `generate` returns that text and that reason.  The last chunk carries no text,
so a sequence without any token is streamed as the empty text, whatever `decode` makes
of it.

## Main definitions

* `Twins`, `Twins.step` — the loop, a stream and a buffered call.
* `StreamReader.Tells`, `Consumer.Buffers` — each of the two against the sequence.
* `TwinsInv` — both, along a run.

## Main results

* `TwinsInv.step` — the invariant, unless the client hangs up.
* `one_story` — both come to their end, with the same text and reason.
-/

namespace NanoKube

/-! ### The reader and the buffered call against the sequence -/

section Readers

variable {decode : List Token → Text} {q q' : Sequence} {r r' : StreamReader}

/-- What was yielded: pieces of the text, none empty, and a last chunk once the stream is over. -/
structure StreamReader.Tells (decode : List Token → Text) (q : Sequence) (r : StreamReader) :
    Prop where
  chunks : ∃ texts : List Text, (∀ text ∈ texts, text ≠ []) ∧
    r.chunks = texts.map (⟨·, none⟩) ++ if r.closed then [⟨[], some q.finishReason⟩] else []
  beginning : r.text <+: decode q.outputIds
  empty : q.outputIds = [] → r.text = []

/-- Where the buffered call is: waiting behind the output, or back with all of it. -/
def Consumer.Buffers (decode : List Token → Text) (q : Sequence) : Consumer → Prop
  | .generating pos => pos ≤ q.outputIds.length
  | .returned completion => q.isFinished = true ∧ completion =
      ⟨decode q.outputIds, q.promptIds.length, q.outputIds.length, q.finishReason⟩
  | .streaming _ | .gone => False

theorem StreamReader.Tells.fresh (decode : List Token → Text) (q : Sequence) :
    StreamReader.Tells decode q {} where
  chunks := ⟨[], by simp, rfl⟩
  beginning := List.nil_prefix
  empty := by intro _; rfl

/-- An open stream does not mind that the output grows. -/
theorem StreamReader.Tells.grow (hdec : ∀ xs ys, decode xs <+: decode (xs ++ ys))
    (h : r.Tells decode q) (hopen : r.closed = false) (hout : q.outputIds <+: q'.outputIds) :
    r.Tells decode q' := by
  obtain ⟨more, hmore⟩ := hout
  refine ⟨?_, ?_, ?_⟩
  · have hchunks := h.chunks
    rw [hopen] at hchunks ⊢
    exact hchunks
  · rw [← hmore]
    exact h.beginning.trans (hdec _ _)
  · intro hnil
    rw [hnil, List.append_eq_nil_iff] at hmore
    exact h.empty hmore.1

/-- **A turn of the generator** keeps what is told true. -/
theorem StreamReader.Tells.next (h : r.Tells decode q) (hq : q.Channel)
    (hsent : r.sent = r.text.length) (hnext : r.next decode q = some r') : r'.Tells decode q := by
  obtain ⟨hopen, item, hitem⟩ := next_enabled hnext
  obtain ⟨texts, htexts, hchunks⟩ := h.chunks
  simp only [hopen, Bool.false_eq_true, if_false, List.append_nil] at hchunks
  cases item with
  | some t =>
    obtain ⟨-, hopen', htext, -⟩ := next_token hnext hitem hsent
    have hne : q.outputIds ≠ [] := List.length_pos_iff.mp (by have := hq.token hitem; omega)
    refine ⟨?_, ?_, fun hnil => absurd hnil hne⟩
    · -- the new piece, if there is one, is not empty
      unfold StreamReader.next at hnext
      simp only [hopen, hitem, Bool.false_eq_true, if_false] at hnext
      split at hnext
      · next hlt =>
        refine ⟨texts ++ [(decode q.outputIds).drop r.sent], ?_, ?_⟩
        · intro text hmem
          rcases List.mem_append.mp hmem with hmem | hmem
          · exact htexts text hmem
          · rw [List.mem_singleton.mp hmem, ← List.length_pos_iff, List.length_drop]
            omega
        · obtain rfl := Option.some.inj hnext
          simp [hchunks]
      · obtain rfl := Option.some.inj hnext
        exact ⟨texts, htexts, by simp [hchunks]⟩
    · rw [htext]
      exact catchUp_prefix h.beginning (List.prefix_refl _)
  | none =>
    obtain ⟨hclosed, htext, -⟩ := next_sentinel hnext hitem
    refine ⟨⟨texts, htexts, ?_⟩, htext ▸ h.beginning, htext ▸ h.empty⟩
    unfold StreamReader.next at hnext
    simp only [hopen, hitem, Bool.false_eq_true, if_false, Option.some.injEq] at hnext
    rw [hclosed, ← hnext, hchunks]
    rfl

/-- An open stream takes its turn as soon as there is an item. -/
theorem next_of_item (hopen : r.closed = false) {item : Option Token}
    (hitem : q.queue[r.pos]? = some item) : ∃ r', r.next decode q = some r' := by
  unfold StreamReader.next
  simp only [hopen, hitem, Bool.false_eq_true, if_false]
  cases item with
  | none => exact ⟨_, rfl⟩
  | some t =>
    dsimp only
    split
    · exact ⟨_, rfl⟩
    · exact ⟨_, rfl⟩

/-- A wake-up of the buffered call. -/
theorem Consumer.Buffers.step {c c' : Consumer} (h : c.Buffers decode q) (hq : q.Channel)
    (hstep : c.step decode q = some c') :
    c'.Buffers decode q ∧ (c'.live = false → q.isFinished = true) := by
  cases c with
  | generating pos =>
    unfold Consumer.step at hstep
    cases hitem : q.queue[pos]? with
    | none => simp [hitem] at hstep
    | some item =>
      cases item with
      | some t =>
        simp only [hitem, Option.some.injEq] at hstep
        rw [← hstep]
        exact ⟨hq.token hitem, fun hlive => by cases hlive⟩
      | none =>
        simp only [hitem, Option.some.injEq] at hstep
        have hfin := (hq.sentinel hitem).1
        rw [← hstep]
        exact ⟨⟨hfin, rfl⟩, fun _ => hfin⟩
  | returned completion => cases hstep
  | streaming reader => exact h.elim
  | gone => exact h.elim

/-- The items a `generate` call has still to take. -/
def Consumer.behind (q : Sequence) : Consumer → ℕ
  | .generating pos => q.outputIds.length + 1 - pos
  | _ => 0

/-- The `generate` call wakes up as soon as there is an item. -/
theorem Consumer.wakes_of_item {pos : ℕ} {item : Option Token} (hpos : pos ≤ q.outputIds.length)
    (hitem : q.queue[pos]? = some item) : ∃ c, (generating pos).step decode q = some c ∧
      c.behind q < (generating pos).behind q := by
  unfold Consumer.step
  cases item with
  | none =>
    refine ⟨_, by simp only [hitem]; rfl, ?_⟩
    simp only [behind]
    omega
  | some token =>
    refine ⟨_, by simp only [hitem]; rfl, ?_⟩
    simp only [behind]
    omega

/-- A complete queue has an item for every place up to the end of the output. -/
theorem Sequence.Channel.item (hq : q.Channel) (hf : q.isFinished = true) {pos : ℕ}
    (hpos : pos ≤ q.outputIds.length) : ∃ item, q.queue[pos]? = some item := by
  have hlen : pos < q.queue.length := by
    rw [hq, hf, List.length_append, List.length_map]
    exact Nat.lt_succ_of_le hpos
  exact ⟨_, List.getElem?_eq_getElem hlen⟩

/-- The items before the sentinel are the output. -/
theorem Sequence.Channel.length_takeWhile (hq : q.Channel) (hf : q.isFinished = true) :
    (q.queue.takeWhile Option.isSome).length = q.outputIds.length := by
  have hall : ∀ item ∈ q.outputIds.map some, item.isSome = true := by
    intro item hitem
    obtain ⟨t, -, rfl⟩ := List.mem_map.mp hitem
    rfl
  rw [hq, hf, List.takeWhile_append_of_pos hall]
  simp

end Readers

/-! ### Both at once -/

/-- A session, and a `generate` call that reads the queue of the same sequence. -/
structure Twins (ρ : Type*) where
  session : Session ρ
  buffered : Consumer

/-- An event of the session, or a wake-up of the `generate` call. -/
inductive TwinsAct
  | session (l : SessionAct)
  | wake

section Twins

variable {ρ : Type*} {runner : Runner ρ} {s : SeqId} {x x' : Twins ρ}

namespace Twins

/-- Nothing has happened. -/
def init (maxBatchSize maxBatchTokens : ℤ) (state : ρ) : Twins ρ where
  session := Session.init maxBatchSize maxBatchTokens state
  buffered := .generating 0

/-- The effect of an event.  The `generate` call, too, cancels the sequence when it ends. -/
def step (runner : Runner ρ) (s : SeqId) (x : Twins ρ) : TwinsAct → Option (Twins ρ)
  | .session l => (x.session.step runner.toModelRunner runner.decode s l).map fun u =>
      { x with session := u }
  | .wake =>
    if s ∈ x.session.world.arrived ∧ x.session.gone = false then
      (x.buffered.step runner.decode (x.session.seq s)).map fun c =>
        { session := if c.live then x.session else
            { x.session with world :=
              { x.session.world with sched := x.session.world.sched.abort s .cancelled } }
          buffered := c }
    else none

/-- An event of the session leaves the `generate` call alone. -/
theorem session_cases {l : SessionAct} (h : x.step runner s (.session l) = some x') :
    x.session.step runner.toModelRunner runner.decode s l = some x'.session ∧
      x'.buffered = x.buffered := by
  simp only [step, Option.map_eq_some_iff] at h
  obtain ⟨u, hu, rfl⟩ := h
  exact ⟨hu, rfl⟩

end Twins

/-- The stream and the `generate` call, each against the sequence. -/
structure TwinsInv (runner : Runner ρ) (s : SeqId) (x : Twins ρ) : Prop where
  session : SessionInv runner.decode s x.session
  tells : x.session.reader.Tells runner.decode (x.session.seq s)
  buffers : x.buffered.Buffers runner.decode (x.session.seq s)
  fresh : s ∉ x.session.world.arrived → x.buffered = .generating 0

theorem TwinsInv.init (m t : ℤ) (state : ρ) : TwinsInv runner s (Twins.init m t state) where
  session := SessionInv.init m t state
  tells := StreamReader.Tells.fresh _ _
  buffers := Nat.zero_le _
  fresh := by intro _; rfl

/-- Whatever the loop does while the client stays. -/
theorem TwinsInv.step_act (hdec : ∀ xs ys, runner.decode xs <+: runner.decode (xs ++ ys))
    (hx : TwinsInv runner s x) {a : Act} (ha : a ≠ .abort s)
    (h : x.step runner s (.session (.act a)) = some x') : TwinsInv runner s x' := by
  obtain ⟨hsession, hbuffered⟩ := Twins.session_cases h
  obtain ⟨hw, hreader, -⟩ := Session.act_cases hsession
  have hstay := hx.session.staying
  have hinv := hx.session.step_act (hstay.step ha hw) hsession
  by_cases hs : s ∈ x.session.world.arrived
  · have hfresh : s ∉ x'.session.world.arrived → x'.buffered = .generating 0 :=
      fun hno => absurd (arrived_subset_of_step hw hs) hno
    cases hf : (x.session.seq s).isFinished with
    | true =>
      have hseq : x'.session.seq s = x.session.seq s := hstay.seq_of_isFinished hw hs hf
      refine ⟨hinv, ?_, ?_, hfresh⟩
      · rw [hreader, hseq]
        exact hx.tells
      · rw [hbuffered, hseq]
        exact hx.buffers
    | false =>
      have hopen : x.session.reader.closed = false := by
        by_contra hc
        rw [hx.session.closed (by simpa using hc)] at hf
        cases hf
      have hout : (x.session.seq s).outputIds <+: (x'.session.seq s).outputIds :=
        (hx.session.outputIds_prefix hsession).resolve_left (fun hno => hno hs)
      refine ⟨hinv, ?_, ?_, hfresh⟩
      · rw [hreader]
        exact hx.tells.grow hdec hopen hout
      · rw [hbuffered]
        have hbuf := hx.buffers
        cases hc : x.buffered with
        | generating pos =>
          rw [hc] at hbuf
          exact le_trans hbuf hout.length_le
        | returned completion =>
          rw [hc, Consumer.Buffers, hf] at hbuf
          exact absurd hbuf.1 (by simp)
        | _ => rw [hc] at hbuf; exact hbuf.elim
  · refine ⟨hinv, ?_, ?_, fun _ => hbuffered ▸ hx.fresh hs⟩
    · rw [hreader, hx.session.fresh hs]
      exact StreamReader.Tells.fresh _ _
    · rw [hbuffered, hx.fresh hs]
      exact Nat.zero_le _

/-- A turn of the stream. -/
theorem TwinsInv.step_read (hx : TwinsInv runner s x)
    (h : x.step runner s (.session .read) = some x') :
    TwinsInv runner s x' ∧ x'.session.world = x.session.world ∧
      x'.session.gone = x.session.gone := by
  obtain ⟨hsession, hbuffered⟩ := Twins.session_cases h
  obtain ⟨hs, hworld, -, hnext, -⟩ := hx.session.read_cases hsession
  have hseq : x'.session.seq s = x.session.seq s := by rw [Session.seq, Session.seq, hworld]
  have hgone : x'.session.gone = x.session.gone := by
    simp only [Session.step, Option.ite_none_right_eq_some, Option.map_eq_some_iff] at hsession
    obtain ⟨-, r, -, hr⟩ := hsession
    rw [← hr]
  refine ⟨⟨hx.session.step_read hsession, ?_, ?_, ?_⟩, hworld, hgone⟩
  · rw [hseq]
    exact hx.tells.next (hx.session.staying.channel hs) hx.session.sent hnext
  · rw [hseq, hbuffered]
    exact hx.buffers
  · intro hno
    exact absurd (hworld ▸ hs) hno

/-- A wake-up of the `generate` call: the `cancel` at its end finds a verdict. -/
theorem TwinsInv.step_wake (hx : TwinsInv runner s x) (h : x.step runner s .wake = some x') :
    TwinsInv runner s x' ∧ x'.session = x.session ∧
      x.buffered.step runner.decode (x.session.seq s) = some x'.buffered := by
  simp only [Twins.step, Option.ite_none_right_eq_some, Option.map_eq_some_iff] at h
  obtain ⟨⟨hs, -⟩, c, hc, rfl⟩ := h
  obtain ⟨hbuf, hlive⟩ := hx.buffers.step (hx.session.staying.channel hs) hc
  have hsame : (if c.live then x.session else { x.session with world :=
      { x.session.world with sched := x.session.world.sched.abort s .cancelled } })
        = x.session := by
    cases hl : c.live with
    | true => rfl
    | false =>
      have hfin : (x.session.world.sched.seqs s).isFinished = true := hlive hl
      simp [Scheduler.abort, hfin]
  dsimp only
  rw [hsame]
  exact ⟨⟨hx.session, hx.tells, hbuf, fun hno => absurd hs hno⟩, rfl, hc⟩

/-- **The invariant of the twins** is kept, unless the client hangs up. -/
theorem TwinsInv.step (hdec : ∀ xs ys, runner.decode xs <+: runner.decode (xs ++ ys))
    (hx : TwinsInv runner s x) {l : TwinsAct} (h : x.step runner s l = some x') :
    x'.session.gone = true ∨ TwinsInv runner s x' := by
  cases l with
  | wake => exact Or.inr (hx.step_wake h).1
  | session l =>
    cases l with
    | read => exact Or.inr (hx.step_read h).1
    | act a =>
      by_cases ha : a = .abort s
      · subst ha
        obtain ⟨-, -, hgone⟩ := Session.act_cases (Twins.session_cases h).1
        exact Or.inl (by simp [hgone, Session.hangsUp])
      · exact Or.inr (hx.step_act hdec ha h)

/-- A client that hung up stays away. -/
theorem Twins.gone_step {l : TwinsAct} (hx : x.session.gone = true)
    (h : x.step runner s l = some x') : x'.session.gone = true := by
  cases l with
  | wake => simp [Twins.step, hx] at h
  | session l =>
    obtain ⟨hsession, -⟩ := Twins.session_cases h
    cases l with
    | read => simp [Session.step, hx] at hsession
    | act a => rw [(Session.act_cases hsession).2.2, hx, Bool.true_or]

/-- **The sequence is the one that was submitted**, as long as the client stays. -/
theorem toRequest_of_submitted (hdec : ∀ xs ys, runner.decode xs <+: runner.decode (xs ++ ys))
    {m t : ℤ} {state : ρ} {acts : List TwinsAct} {req : Request}
    (h : run (Twins.step runner s) (Twins.init m t state) acts = some x)
    (hadd : TwinsAct.session (.act (.add s req)) ∈ acts) : x.session.gone = true ∨
      (s ∈ x.session.world.arrived ∧ (x.session.seq s).toRequest = req) := by
  refine run_established (fun u => u.session.gone = true ∨ TwinsInv runner s u)
    (fun u => u.session.gone = true ∨
      (s ∈ u.session.world.arrived ∧ (u.session.seq s).toRequest = req))
    ?_ ?_ ?_ (Or.inr (TwinsInv.init m t state)) hadd h
  · rintro u l u' (hgone | hu) hstep
    · exact Or.inl (Twins.gone_step hgone hstep)
    · exact hu.step hdec hstep
  · rintro u u' (hgone | hu) hstep
    · exact Or.inl (Twins.gone_step hgone hstep)
    · obtain ⟨hw, -, -⟩ := Session.act_cases (Twins.session_cases hstep).1
      exact Or.inr (toRequest_add hu.session.staying.world hw)
  · rintro u l u' hu (hgone | ⟨hs, hreq⟩) hstep
    · exact Or.inl (Twins.gone_step hgone hstep)
    rcases hu with hgone | hu
    · exact Or.inl (Twins.gone_step hgone hstep)
    · apply Or.inr
      cases l with
      | wake =>
        obtain ⟨-, hsame, -⟩ := hu.step_wake hstep
        rw [hsame]
        exact ⟨hs, hreq⟩
      | session l =>
        cases l with
        | read =>
          obtain ⟨-, hworld, -⟩ := hu.step_read hstep
          rw [Session.seq, hworld]
          exact ⟨hs, hreq⟩
        | act a =>
          obtain ⟨hw, -, -⟩ := Session.act_cases (Twins.session_cases hstep).1
          exact ⟨arrived_subset_of_step hw hs,
            (toRequest_step hu.session.staying.world.fifo hw hs).trans hreq⟩

/-! ### Both calls come to their end -/

/-- Every turn takes an item. -/
theorem next_pos {decode : List Token → Text} {q : Sequence} {r r' : StreamReader}
    (h : r.next decode q = some r') : r'.pos = r.pos + 1 := by
  obtain ⟨hopen, item, hitem⟩ := next_enabled h
  unfold StreamReader.next at h
  simp only [hopen, hitem, Bool.false_eq_true, if_false] at h
  cases item with
  | none => exact (Option.some.inj h) ▸ rfl
  | some t =>
    dsimp only at h
    split at h
    · exact (Option.some.inj h) ▸ rfl
    · exact (Option.some.inj h) ▸ rfl

/-- **A stream whose sequence has a verdict comes to its end** by taking the items there are. -/
theorem TwinsInv.drain_reads (hx : TwinsInv runner s x) (hs : s ∈ x.session.world.arrived)
    (hstay : x.session.gone = false) (hfin : (x.session.seq s).isFinished = true) :
    ∃ n x', run (Twins.step runner s) x (List.replicate n (.session .read)) = some x' ∧
      (TwinsInv runner s x' ∧ x'.session.world = x.session.world ∧ x'.session.gone = false) ∧
      x'.session.reader.closed = true := by
  refine run_until
    (fun u => TwinsInv runner s u ∧ u.session.world = x.session.world ∧ u.session.gone = false)
    (fun u => u.session.reader.closed = true)
    (fun u => (x.session.seq s).outputIds.length + 1 - u.session.reader.pos) ?_ ⟨hx, rfl, hstay⟩
  rintro u ⟨hu, hworld, hgone⟩ hopen
  rw [Bool.not_eq_true] at hopen
  have hseq : u.session.seq s = x.session.seq s := by rw [Session.seq, Session.seq, hworld]
  have hsu : s ∈ u.session.world.arrived := hworld ▸ hs
  have hfu : (u.session.world.sched.seqs s).isFinished = true := by
    rw [hworld]
    exact hfin
  have hle := hu.session.behind hopen
  obtain ⟨item, hitem⟩ := (hu.session.staying.channel hsu).item hfu hle
  have hnext : ∃ r', u.session.reader.next runner.decode (u.session.world.sched.seqs s) = some r' :=
    next_of_item hopen hitem
  obtain ⟨r', hnext⟩ := hnext
  have hread : ∃ u', u.session.step runner.toModelRunner runner.decode s .read = some u' := by
    simp only [Session.step, if_pos (And.intro hsu hgone), hnext, Option.map_some]
    exact ⟨_, rfl⟩
  obtain ⟨v, hv⟩ := hread
  have hstep : u.step runner s (.session .read) = some { u with session := v } := by
    simp only [Twins.step, hv, Option.map_some]
  obtain ⟨hinv, hworld', hgone'⟩ := hu.step_read hstep
  obtain ⟨-, -, -, hnext', -⟩ := hu.session.read_cases hv
  refine ⟨_, hstep, ⟨hinv, hworld'.trans hworld, hgone'.trans hgone⟩, ?_⟩
  rw [hseq] at hle
  rw [next_pos hnext']
  omega

/-- **So does the `generate` call.** -/
theorem TwinsInv.drain_wakes (hx : TwinsInv runner s x) (hs : s ∈ x.session.world.arrived)
    (hstay : x.session.gone = false) (hfin : (x.session.seq s).isFinished = true) :
    ∃ n x', run (Twins.step runner s) x (List.replicate n .wake) = some x' ∧
      (TwinsInv runner s x' ∧ x'.session = x.session) ∧
      ∃ completion, x'.buffered = .returned completion := by
  refine run_until (fun u => TwinsInv runner s u ∧ u.session = x.session)
    (fun u => ∃ completion, u.buffered = .returned completion)
    (fun u => u.buffered.behind (x.session.seq s)) ?_ ⟨hx, rfl⟩
  rintro u ⟨hu, hsame⟩ hlive
  have hbuf := hu.buffers
  have hchannel := hx.session.staying.channel hs
  rw [hsame] at hbuf
  cases hc : u.buffered with
  | returned completion => exact absurd ⟨completion, hc⟩ hlive
  | generating pos =>
    rw [hc] at hbuf
    obtain ⟨item, hitem⟩ := hchannel.item hfin hbuf
    obtain ⟨c, hstep, hlt⟩ := Consumer.wakes_of_item hbuf hitem
    have hwake : u.buffered.step runner.decode (u.session.seq s) = some c := by
      rw [hc, hsame]
      exact hstep
    have henabled : s ∈ u.session.world.arrived ∧ u.session.gone = false := by
      rw [hsame]
      exact ⟨hs, hstay⟩
    have htwins : ∃ u', u.step runner s .wake = some u' ∧ u'.buffered = c := by
      simp only [Twins.step, if_pos henabled, hwake, Option.map_some]
      exact ⟨_, rfl, rfl⟩
    obtain ⟨u', hu', hc'⟩ := htwins
    obtain ⟨hinv, hsame', -⟩ := hu.step_wake hu'
    exact ⟨u', hu', ⟨hinv, hsame'.trans hsame⟩, by rw [hc']; exact hlt⟩
  | _ => rw [hc] at hbuf; exact hbuf.elim

/-- **`stream` and `generate` tell one story.**  Let decoding more tokens only add to the text.
Whatever the loop did, however far the two readers are behind and whatever the verdict is: once
the sequence of a client that stays has a verdict, both come to their end.  The stream
yielded pieces of text, none empty, and one last chunk with the verdict; `generate` returns
the text of the output, with the same verdict.  The pieces add up to that text if and only if there
is a token, or no token decodes to no text. -/
theorem one_story (hdec : ∀ xs ys, runner.decode xs <+: runner.decode (xs ++ ys))
    {m t : ℤ} {state : ρ} {acts : List TwinsAct} {body : CompletionRequest}
    (h : run (Twins.step runner s) (Twins.init m t state) acts = some x)
    (hadd : TwinsAct.session (.act (.add s (promptToSequence runner body))) ∈ acts)
    (hstay : x.session.gone = false) (hfin : (x.session.seq s).isFinished = true) :
    ∃ (reads wakes : ℕ) (x' : Twins ρ) (texts : List Text) (reason : FinishReason),
      run (Twins.step runner s) x
        (List.replicate reads (.session .read) ++ List.replicate wakes .wake) = some x' ∧
      x'.session.world = x.session.world ∧ (x.session.seq s).finishReason = some reason ∧
      (∀ text ∈ texts, text ≠ []) ∧
      x'.session.reader.chunks = texts.map (⟨·, none⟩) ++ [⟨[], some (some reason)⟩] ∧
      x'.buffered = .returned ⟨runner.decode (x.session.seq s).outputIds,
        (runner.encode body.prompt).length,
        ((x.session.seq s).queue.takeWhile Option.isSome).length, some reason⟩ ∧
      (texts.flatten = runner.decode (x.session.seq s).outputIds ↔
        (x.session.seq s).outputIds ≠ [] ∨ runner.decode [] = []) := by
  have hkept : x.session.gone = true ∨ TwinsInv runner s x := by
    refine run_invariant (fun u => u.session.gone = true ∨ TwinsInv runner s u) ?_
      (Or.inr (TwinsInv.init m t state)) h
    rintro u l u' (hgone | hu) hstep
    · exact Or.inl (Twins.gone_step hgone hstep)
    · exact hu.step hdec hstep
  have hgone : ¬ x.session.gone = true := by simp [hstay]
  have hx := hkept.resolve_left hgone
  obtain ⟨hs, hreq⟩ := (toRequest_of_submitted hdec h hadd).resolve_left hgone
  obtain ⟨reason, hreason⟩ := Option.isSome_iff_exists.mp hfin
  obtain ⟨reads, y, hreads, ⟨hy, hworld, hygone⟩, hclosed⟩ := hx.drain_reads hs hstay hfin
  have hseq : y.session.seq s = x.session.seq s := by rw [Session.seq, Session.seq, hworld]
  obtain ⟨wakes, x', hwakes, ⟨hx', hsame⟩, completion, hreturned⟩ :=
    hy.drain_wakes (hworld ▸ hs) hygone (hseq ▸ hfin)
  have hseq' : x'.session.seq s = x.session.seq s := by rw [hsame, hseq]
  have hclosed' : x'.session.reader.closed = true := by rw [hsame, hclosed]
  have htells := hx'.tells
  rw [hseq'] at htells
  obtain ⟨texts, htexts, hchunks⟩ := htells.chunks
  rw [hclosed', if_pos rfl, hreason] at hchunks
  have hflat : x'.session.reader.text = texts.flatten := by
    rw [StreamReader.text, hchunks]
    simp [Function.comp_def]
  refine ⟨reads, wakes, x', texts, reason, ?_, by rw [hsame, hworld], hreason, htexts, hchunks,
    ?_, ?_⟩
  · rw [run_append, hreads]
    exact hwakes
  · have hbuf := hx'.buffers
    rw [hreturned, hseq'] at hbuf
    have hprompt : (x.session.seq s).promptIds = runner.encode body.prompt :=
      congrArg Request.promptIds hreq
    have hcount : ((x.session.seq s).queue.takeWhile Option.isSome).length
        = (x.session.seq s).outputIds.length :=
      (hx.session.staying.channel hs).length_takeWhile hfin
    rw [hreturned, hbuf.2, hcount, hprompt, hreason]
  · rw [← hflat]
    by_cases hne : (x.session.seq s).outputIds = []
    · rw [htells.empty hne, hne]
      constructor
      · exact fun hnil => Or.inr hnil.symm
      · rintro (hno | hnil)
        · exact absurd rfl hno
        · exact hnil.symm
    · have hall : x'.session.reader.text = runner.decode (x.session.seq s).outputIds := by
        have hlen := hx'.session.caught (Or.inl hclosed') (hseq' ▸ hne)
        rw [hseq'] at hlen
        exact htells.beginning.eq_of_length_le hlen
      exact iff_of_true hall (Or.inl hne)

/-- Two tokens are there before the stream takes its first item. -/
theorem one_story_lagging :
    let acts : List TwinsAct :=
      [.session (.act (.add 0 (promptToSequence mock ⟨['h'], 2, 0, none, true⟩))),
        .session (.act (.loop .iterate)), .session (.act (.loop (.tickEnd [some 1]))), .wake,
        .session (.act (.loop .iterate)), .session (.act (.loop (.tickEnd [some 2])))]
    ∃ (reads wakes : ℕ) (x' : Twins Unit), run (Twins.step mock 0)
        (runD (Twins.step mock 0) (Twins.init 8 8192 ()) acts)
        (List.replicate reads (.session .read) ++ List.replicate wakes .wake) = some x' ∧
      x'.buffered = .returned ⟨"mock mock ".toList, 1, 2, some .length⟩ := by
  intro acts
  have h := run_eq_runD (show (run (Twins.step mock 0) (Twins.init 8 8192 ()) acts).isSome = true
    by decide)
  have hdec : ∀ xs ys, mock.decode xs <+: mock.decode (xs ++ ys) := by
    intro xs ys
    simp only [mock, List.length_append, List.replicate_add, List.flatten_append]
    exact List.prefix_append ..
  obtain ⟨reads, wakes, x', -, reason, hrun, -, hreason, -, -, hback, -⟩ :=
    one_story hdec h (List.mem_cons_self ..) (by decide) (by decide)
  refine ⟨reads, wakes, x', hrun, ?_⟩
  rw [hback, ← hreason]
  decide

/-- A runner that decodes everything to one letter: its texts only ever grow, by nothing. -/
def oneLetter : Runner Unit := { mock with decode := fun _ => ['A'] }

/-- A request that asks for no token is streamed as the empty text; `generate` returns the letter. -/
theorem empty_output_has_no_chunk :
    (∀ xs ys, oneLetter.decode xs <+: oneLetter.decode (xs ++ ys)) ∧
    let acts : List TwinsAct :=
      [.session (.act (.add 0 (promptToSequence oneLetter ⟨['h'], 0, 0, none, true⟩))),
        .session .read, .wake]
    ∃ x, run (Twins.step oneLetter 0) (Twins.init 8 8192 ()) acts = some x ∧
      x.session.gone = false ∧ x.session.reader.chunks = [⟨[], some (some .length)⟩] ∧
      x.session.reader.text ≠ oneLetter.decode (x.session.seq 0).outputIds ∧
      x.buffered = .returned ⟨['A'], 1, 0, some .length⟩ := by
  refine ⟨fun xs ys => List.prefix_refl _, ?_⟩
  intro acts
  have h := run_eq_runD (show
    (run (Twins.step oneLetter 0) (Twins.init 8 8192 ()) acts).isSome = true by decide)
  exact ⟨_, h, by decide, by decide, by decide, by decide⟩

end Twins

end NanoKube
