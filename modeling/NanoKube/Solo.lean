import NanoKube.RunLoop

/-!
# Continuous batching is transparent

A request that shares its batch with strangers gets the tokens it would have got
alone.  `solo` is generation for one request by itself: append the model's next
token until it is a stop token or the budget is used up.

The bridge is `OnTrack`: what is left of the solo run, started from the tokens the
sequence has now, ends where the whole solo run ends.  An unfinished sequence is on
track, and so is every member of the batch while the runner executes — even one
whose client has disconnected during the tick, which is why the token that `postprocess`
still appends to it is the right one.

## Main definitions

* `solo` — one request by itself.
* `OnTrack`, `Faithful` — a sequence against its solo run.
* `RowsFrom f` — the runner answers each row with `None` or with the model's next token.

## Main results

* `onTrack_record` — one token keeps a sequence faithful, and on track if it goes on.
* `batching_transparent` — outputs are prefixes of the solo outputs, and a stop or
  length verdict comes with the whole solo output, in every reachable state.
-/

namespace NanoKube

/-! ### One request by itself -/

/-- Generate at most `n` further tokens after `out`. -/
def soloFrom (f : List Token → Token) (req : Request) :
    List Token → ℕ → List Token × FinishReason
  | out, 0 => (out, .length)
  | out, n + 1 =>
    let token := f (req.promptIds ++ out)
    if token ∈ req.eosTokenIds then (out ++ [token], .stop)
    else soloFrom f req (out ++ [token]) n

/-- Generation for one request by itself: the output and the verdict. -/
def solo (f : List Token → Token) (req : Request) : List Token × FinishReason :=
  soloFrom f req [] req.maxNewTokens.toNat

@[simp] theorem soloFrom_zero (f : List Token → Token) (req : Request) (out : List Token) :
    soloFrom f req out 0 = (out, .length) := rfl

theorem soloFrom_succ (f : List Token → Token) (req : Request) (out : List Token) (n : ℕ) :
    soloFrom f req out (n + 1) =
      if f (req.promptIds ++ out) ∈ req.eosTokenIds then
        (out ++ [f (req.promptIds ++ out)], .stop)
      else soloFrom f req (out ++ [f (req.promptIds ++ out)]) n := rfl

/-- The solo run only appends. -/
theorem prefix_soloFrom (f : List Token → Token) (req : Request) :
    ∀ (n : ℕ) (out : List Token), out <+: (soloFrom f req out n).1 := by
  intro n
  induction n with
  | zero => intro out; exact List.prefix_refl _
  | succ n ih =>
    intro out
    rw [soloFrom_succ]
    split
    · exact List.prefix_append ..
    · exact (List.prefix_append ..).trans (ih _)

/-! ### A sequence against its solo run -/

/-- The solo run has more to generate from where the sequence is now, and ends as the whole
solo run does; the sequence has no verdict that the solo run could have reached. -/
structure OnTrack (f : List Token → Token) (q : Sequence) : Prop where
  rest : ∃ n : ℕ, (q.outputIds.length : ℤ) + (n + 1) = q.maxNewTokens ∧
    soloFrom f q.toRequest q.outputIds (n + 1) = solo f q.toRequest
  no_stop : q.finishReason ≠ some .stop
  no_length : q.finishReason ≠ some .length

/-- The output is a prefix of the solo output, and all of it when the verdict is one the solo
run reaches. -/
structure Faithful (f : List Token → Token) (q : Sequence) : Prop where
  output : q.outputIds <+: (solo f q.toRequest).1
  verdict : ∀ reason, q.finishReason = some reason → reason = .stop ∨ reason = .length →
    solo f q.toRequest = (q.outputIds, reason)

variable {f : List Token → Token} {q : Sequence}

theorem OnTrack.faithful (h : OnTrack f q) : Faithful f q := by
  obtain ⟨n, -, hn⟩ := h.rest
  refine ⟨?_, ?_⟩
  · rw [← hn]
    exact prefix_soloFrom ..
  · rintro reason hr (rfl | rfl)
    · exact absurd hr h.no_stop
    · exact absurd hr h.no_length

/-- A fresh sequence with something to generate is on track. -/
theorem onTrack_new (f : List Token → Token) {req : Request} (h : 0 < req.maxNewTokens) :
    OnTrack f { toRequest := req } := by
  obtain ⟨n, hn⟩ : ∃ n : ℕ, req.maxNewTokens.toNat = n + 1 := ⟨req.maxNewTokens.toNat - 1, by omega⟩
  refine ⟨⟨n, ?_, ?_⟩, by simp, by simp⟩
  · show ((0 : ℕ) : ℤ) + (n + 1) = req.maxNewTokens
    omega
  · rw [solo, hn]

/-- A budget of zero or less is settled as the solo run settles it. -/
theorem faithful_settle (f : List Token → Token) {req : Request} (h : req.maxNewTokens ≤ 0) :
    Faithful f ({ toRequest := req } : Sequence).settle := by
  have hn : req.maxNewTokens.toNat = 0 := by omega
  have hsolo : solo f req = ([], .length) := by rw [solo, hn]; rfl
  rw [Sequence.settle, if_pos h]
  refine ⟨?_, ?_⟩
  · exact List.nil_prefix
  · intro reason hr _
    have : reason = .length := by simpa [eq_comm] using hr
    simp [hsolo, this]

/-- A verdict of `cancelled` or `error` costs nothing of the output. -/
theorem OnTrack.abort (h : OnTrack f q) {reason : FinishReason}
    (hr : reason = .cancelled ∨ reason = .error) : OnTrack f (q.abort reason) := by
  unfold Sequence.abort
  split
  · exact h
  · rcases hr with rfl | rfl
    · exact ⟨h.rest, by simp, by simp⟩
    · exact ⟨h.rest, by simp, by simp⟩

theorem OnTrack.fail (h : OnTrack f q) : OnTrack f q.fail := by
  unfold Sequence.fail
  split
  · exact ⟨h.rest, h.no_stop, h.no_length⟩
  · exact ⟨h.rest, by simp, by simp⟩

theorem Faithful.fail (h : Faithful f q) (hf : q.isFinished = true) : Faithful f q.fail := by
  rw [Sequence.fail_of_isFinished hf]
  exact ⟨h.output, h.verdict⟩

/-- A token with which the sequence gets the output and the verdict of the solo run. -/
theorem faithful_record {t : Token} {reason : FinishReason}
    (hreason : (q.record t).finishReason = some reason)
    (hsolo : solo f q.toRequest = (q.outputIds ++ [t], reason)) :
    Faithful f (q.record t) ∧ ((q.record t).isFinished = false → OnTrack f (q.record t)) := by
  have hout := Sequence.record_outputIds q t
  refine ⟨⟨?_, ?_⟩, ?_⟩
  · rw [Sequence.record_toRequest, hsolo, hout]
  · intro verdict hr _
    rw [hreason] at hr
    rw [Sequence.record_toRequest, hsolo, hout, Option.some.inj hr]
  · intro hlive
    simp [Sequence.isFinished, hreason] at hlive

/-- **One token.**  A sequence on track that is given the model's next token is faithful, and
still on track if it has no verdict afterwards. -/
theorem onTrack_record (h : OnTrack f q) :
    Faithful f (q.record (f q.tokenIds)) ∧
      ((q.record (f q.tokenIds)).isFinished = false → OnTrack f (q.record (f q.tokenIds))) := by
  obtain ⟨n, hlen, hn⟩ := h.rest
  have htok : f (q.promptIds ++ q.outputIds) = f q.tokenIds := rfl
  rw [soloFrom_succ, htok] at hn
  have hreason := Sequence.record_finishReason q (f q.tokenIds)
  have hout := Sequence.record_outputIds q (f q.tokenIds)
  by_cases hstop : f q.tokenIds ∈ q.eosTokenIds
  · -- a stop token ends both runs, also as the last allowed one
    rw [if_pos hstop] at hn hreason
    exact faithful_record hreason hn.symm
  · rw [if_neg hstop] at hn hreason
    by_cases hbudget : q.maxNewTokens ≤ q.outputIds.length + 1
    · -- the budget is used up: nothing is left of the solo run
      have hz : n = 0 := by omega
      rw [hz, soloFrom_zero] at hn
      rw [if_pos hbudget] at hreason
      exact faithful_record hreason hn.symm
    · rw [if_neg hbudget] at hreason
      obtain ⟨k, rfl⟩ : ∃ k, n = k + 1 := ⟨n - 1, by omega⟩
      have htrack : OnTrack f (q.record (f q.tokenIds)) := by
        refine ⟨⟨k, ?_, ?_⟩, ?_, ?_⟩
        · rw [hout, Sequence.record_toRequest, List.length_append, List.length_singleton]
          push_cast at hlen ⊢
          omega
        · rw [hout, Sequence.record_toRequest, hn]
        · rw [hreason]; exact h.no_stop
        · rw [hreason]; exact h.no_length
      exact ⟨htrack.faithful, fun _ => htrack⟩

/-! ### The loop -/

section Loop

variable {ρ : Type*} {R : ModelRunner ρ} {w w' : World ρ} {a : Act}

/-- The runner answers each row with `None`, or with the next token of that row's model. -/
def RowsFrom (f : SeqId → List Token → Token) (w : World ρ) : Act → Prop
  | .loop (.tickEnd nextIds) => ∀ row ∈ w.loop.batch.zip nextIds,
      row.2 = none ∨ row.2 = some (f row.1 (w.sched.seqs row.1).tokenIds)
  | _ => True

instance (f : SeqId → List Token → Token) (w : World ρ) : ∀ a, Decidable (RowsFrom f w a)
  | .add _ _ | .abort _ | .loop .iterate | .loop .wake => isTrue trivial
  | .loop .raise | .loop .cancel => isTrue trivial
  | .loop (.tickEnd _) => by unfold RowsFrom; infer_instance

/-- Arrivals are faithful to their solo runs, and on track while they have no verdict or are
in the hands of the runner. -/
structure SoloInv (f : SeqId → List Token → Token) (w : World ρ) : Prop where
  world : WorldInv w
  faithful : ∀ s ∈ w.arrived, Faithful (f s) (w.sched.seqs s)
  live : ∀ s ∈ w.arrived, (w.sched.seqs s).isFinished = false → OnTrack (f s) (w.sched.seqs s)
  inflight : w.loop.pc = .executing → ∀ s ∈ w.loop.batch, OnTrack (f s) (w.sched.seqs s)

variable {f : SeqId → List Token → Token}

theorem SoloInv.init (m t : ℤ) (r : ρ) : SoloInv f (World.init m t r) where
  world := WorldInv.init m t r
  faithful := by intro s hs; cases hs
  live := by intro s hs; cases hs
  inflight := by intro h; cases h

/-- **One operation keeps an arrival faithful**, and on track while it has no verdict. -/
theorem SoloInv.touch (hw : SoloInv f w) (ha : RowsFrom f w a) {s : SeqId} (hs : s ∈ w.arrived)
    {q : Sequence} (htouch : Touch w s a q) :
    Faithful (f s) q ∧ (q.isFinished = false → OnTrack (f s) q) := by
  cases htouch with
  | same => exact ⟨hw.faithful s hs, hw.live s hs⟩
  | record t hpc hrow =>
    have htok : t = f s (w.sched.seqs s).tokenIds := by simpa using ha _ hrow
    rw [htok]
    exact onTrack_record (hw.inflight hpc s (List.of_mem_zip hrow).1)
  | abort r hr =>
    refine ⟨?_, by simp⟩
    cases hf : (w.sched.seqs s).isFinished with
    | true =>
      rw [Sequence.abort_of_isFinished hf]
      exact hw.faithful s hs
    | false => exact ((hw.live s hs hf).abort hr).faithful
  | fail hkind hpc hmem =>
    refine ⟨?_, by simp⟩
    cases hf : (w.sched.seqs s).isFinished with
    | true => exact (hw.faithful s hs).fail hf
    | false => exact (hw.live s hs hf).fail.faithful

/-- A new arrival is faithful, and on track if it is not settled at once. -/
theorem faithful_new (f : List Token → Token) (req : Request) :
    Faithful f ({ toRequest := req } : Sequence).settle ∧
      (({ toRequest := req } : Sequence).settle.isFinished = false →
        OnTrack f ({ toRequest := req } : Sequence).settle) := by
  by_cases hb : req.maxNewTokens ≤ 0
  · refine ⟨faithful_settle f hb, ?_⟩
    rw [Sequence.settle, if_pos hb]
    intro hlive
    cases hlive
  · have htrack := onTrack_new f (show 0 < req.maxNewTokens by omega)
    rw [Sequence.settle, if_neg hb]
    exact ⟨htrack.faithful, fun _ => htrack⟩

/-- **Every event keeps every arrival faithful to its solo run.** -/
theorem SoloInv.step (hw : SoloInv f w) (ha : RowsFrom f w a) (h : w.step R a = some w') :
    SoloInv f w' := by
  have hworld := hw.world.step h
  have harrival : ∀ s ∈ w'.arrived, Faithful (f s) (w'.sched.seqs s) ∧
      ((w'.sched.seqs s).isFinished = false → OnTrack (f s) (w'.sched.seqs s)) := by
    intro s hs
    by_cases hold : s ∈ w.arrived
    · exact hw.touch ha hold (touch_of_step hw.world.fifo h hold)
    · obtain ⟨req, -, hseq⟩ := new_arrival hw.world.fifo h hold hs
      rw [hseq]
      exact faithful_new (f s) req
  refine ⟨hworld, fun s hs => (harrival s hs).1, fun s hs => (harrival s hs).2, ?_⟩
  intro hpc' s hs
  cases fires_of_step h with
  | @add seq req hnew =>
    have hne : s ≠ seq := fun he => hnew (he ▸ hw.world.fifo.batch_sublist.subset hs)
    rw [step_seqs hw.world h]
    simp only [World.seqAfter, if_neg hne]
    exact hw.inflight hpc' s hs
  | @abort seq hold =>
    rw [step_seqs hw.world h]
    simp only [World.seqAfter]
    split
    · exact (hw.inflight hpc' s hs).abort (Or.inl rfl)
    · exact hw.inflight hpc' s hs
  | tickStart hpc hwork hbatch =>
    exact hw.live s (hworld.fifo.batch_sublist.subset hs)
      (Scheduler.isFinished_of_mem_schedule hw.world.fifo.waiting_live hs)
  | drain hpc hwork hbatch =>
    rw [hpc] at hpc'
    cases hpc'
  | _ => cases hpc'

/-- **Continuous batching is transparent.**  Whatever the limits, the order of arrival, the
failed rows and the interleaving: the output of every submitted request is a prefix of what
it would generate alone, and a verdict of `stop` or `length` comes with exactly the solo
output and the solo verdict. -/
theorem batching_transparent {m t : ℤ} {r : ρ} {acts : List Act} (f : SeqId → List Token → Token)
    (h : run (World.step R) (World.init m t r) acts = some w)
    (hrows : Along (World.step R) (RowsFrom f) (World.init m t r) acts)
    {s : SeqId} {req : Request} (hs : Act.add s req ∈ acts) :
    (w.sched.seqs s).outputIds <+: (solo (f s) req).1 ∧
      ∀ reason, (w.sched.seqs s).finishReason = some reason → reason = .stop ∨ reason = .length →
        ((w.sched.seqs s).outputIds, reason) = solo (f s) req := by
  have hinv : SoloInv f w := run_invariant_along (SoloInv f) (fun hw ha hstep => hw.step ha hstep)
    (SoloInv.init m t r) hrows h
  obtain ⟨harr, hreq⟩ := toRequest_of_add (WorldInv.init m t r) h hs
  have hq := hinv.faithful s harr
  rw [← hreq]
  exact ⟨hq.output, fun reason hr hv => (hq.verdict reason hr hv).symm⟩

/-- Two requests share two ticks; the first stops on its stop token. -/
theorem batching_transparent_two_rows :
    let acts : List Act := [.add 0 ⟨[5], 3, 0, none, {7}⟩, .add 1 ⟨[5, 6], 2, 0, none, ∅⟩,
      .loop .iterate, .loop (.tickEnd [some 6, some 7]), .loop .iterate,
      .loop (.tickEnd [some 7, some 8])]
    ∃ w, run (World.step mockRunner) (World.init 8 8192 ()) acts = some w ∧
      ((w.sched.seqs 0).outputIds, FinishReason.stop)
        = solo (fun ids => ids.getLastD 0 + 1) ⟨[5], 3, 0, none, {7}⟩ := by
  intro acts
  have h := run_eq_runD (show
    (run (World.step mockRunner) (World.init 8 8192 ()) acts).isSome = true by decide)
  exact ⟨_, h, (batching_transparent (fun _ ids => ids.getLastD 0 + 1) h (by decide)
    List.mem_cons_self).2 .stop (by decide) (Or.inl rfl)⟩

end Loop

end NanoKube
