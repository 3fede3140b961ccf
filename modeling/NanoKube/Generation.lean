import NanoKube.Attention
import NanoKube.KvCache
import NanoKube.RowMemory
import NanoKube.Sampling
import NanoKube.Solo
import NanoKube.Verdicts

/-!
# What a request generates, whoever it shares its batch with

The runner pads ragged rows, keeps a cache from tick to tick, drops it when the batch has
changed, and samples each row with its own parameters.  A request by itself needs none
of that: feed the model all of its tokens, look at the logits of the last one, draw the
next.  Every run of the loop generates for every request what it could have generated by
itself.

The weights are a parameter, a causal decoder; the rest of the model is what the library
does with the mask, the positions and the cache it is handed.

## Main definitions

* `CausalModel`, `CausalModel.toModel` — a decoder, and the model the runner calls.
* `Computed` — the cache holds the states of the rows.
* `soloLogits` — the logits after the tokens of one request by itself.
* `DrawnByRows` — `execute` returns what `_sample` draws from the logits of its call.
* `Generates` — the outputs of one request by itself.

## Main results

* `computed_execute` — a call leads to the cache of all its tokens, with padding or without
  and from a cache or without one.
* `lastLogits_alone` — **the logits of a row are those of its request alone**.
* `generated_alone` — **every output could have been generated alone**.
* `greedy_is_solo` — at temperature zero there is only one.
-/

namespace NanoKube

open Scheduler (lookup_eq_some_iff map_fst_zip_sublist)

/-- A decoder over ids and positions, and the logits of a state. -/
structure CausalModel (S K : Type*) extends Decoder (Token × ℤ) S where
  logits : S → List K

/-! ### One request by itself -/

/-- The outputs of one request by itself: a token is added as long as none of them is a stop token
and some budget is left, and it is one of those that may come after the tokens so far. -/
inductive Generates (next : List Token → List Token) (req : Request) : List Token → Prop
  | nil : Generates next req []
  | snoc {out : List Token} {token : Token} (h : Generates next req out)
      (hstop : ∀ t ∈ out, t ∉ req.eosTokenIds) (hbudget : (out.length : ℤ) < req.maxNewTokens)
      (htoken : token ∈ next (req.promptIds ++ out)) : Generates next req (out ++ [token])

section Alone

variable {next : List Token → List Token} {f : List Token → Token} {req : Request} {q : Sequence}
  {out : List Token}

/-- One more token of an open sequence. -/
theorem Generates.record (h : Generates next q.toRequest q.outputIds) (hopen : q.Open)
    {token : Token} (htoken : token ∈ next q.tokenIds) :
    Generates next (q.record token).toRequest (q.record token).outputIds := by
  rw [Sequence.record_toRequest, Sequence.record_outputIds]
  exact .snoc h hopen.no_stop hopen.in_budget htoken

/-- **Where there is no choice**: what is left of the solo run from an output without a stop token
ends as the solo run does. -/
theorem Generates.soloFrom_eq (h : Generates next req out)
    (hnext : ∀ toks, ∀ token ∈ next toks, token = f toks) (hstop : ∀ t ∈ out, t ∉ req.eosTokenIds) :
    soloFrom f req out (req.maxNewTokens.toNat - out.length) = solo f req := by
  induction h with
  | nil => rfl
  | @snoc out token h hstop' hbudget htoken ih =>
    have hleft : req.maxNewTokens.toNat - out.length
        = req.maxNewTokens.toNat - (out ++ [token]).length + 1 := by
      rw [List.length_append, List.length_singleton]
      omega
    have hno : token ∉ req.eosTokenIds := hstop token (by simp)
    rw [← ih hstop', hleft, soloFrom_succ, ← hnext _ token htoken, if_neg hno]

/-- **Without a choice there is one generation**: every output is a beginning of it. -/
theorem Generates.prefix_solo (h : Generates next req out)
    (hnext : ∀ toks, ∀ token ∈ next toks, token = f toks) : out <+: (solo f req).1 := by
  cases h with
  | nil => exact List.nil_prefix
  | @snoc out token h hstop hbudget htoken =>
    obtain ⟨n, hn⟩ : ∃ n, req.maxNewTokens.toNat - out.length = n + 1 :=
      ⟨req.maxNewTokens.toNat - out.length - 1, by omega⟩
    rw [← h.soloFrom_eq hnext hstop, hn, soloFrom_succ, ← hnext _ token htoken]
    split
    · exact List.prefix_refl _
    · exact prefix_soloFrom ..

/-- A verdict that the tokens bear out is the verdict of the solo run. -/
theorem Generates.eq_solo (h : Generates next q.toRequest q.outputIds)
    (hnext : ∀ toks, ∀ token ∈ next toks, token = f toks) (htrue : q.Truthful)
    {reason : FinishReason} (hreason : q.finishReason = some reason)
    (hkind : reason = .stop ∨ reason = .length) :
    (q.outputIds, reason) = solo f q.toRequest := by
  rcases hkind with rfl | rfl
  · rw [Sequence.Truthful, hreason] at htrue
    obtain ⟨⟨out, token, hends, htok, hno⟩, -⟩ := htrue
    rw [hends] at h ⊢
    generalize hall : out ++ [token] = whole at h
    cases h with
    | nil => simp at hall
    | @snoc out' token' h hstop hbudget htoken =>
      obtain ⟨rfl, rfl⟩ : out = out' ∧ token = token' := by simpa using hall
      obtain ⟨n, hn⟩ : ∃ n, q.maxNewTokens.toNat - out.length = n + 1 :=
        ⟨q.maxNewTokens.toNat - out.length - 1, by omega⟩
      rw [← h.soloFrom_eq hnext hstop, hn, soloFrom_succ, ← hnext _ token htoken, if_pos htok]
  · rw [Sequence.Truthful, hreason] at htrue
    have hzero : q.maxNewTokens.toNat - q.outputIds.length = 0 := by
      have hfull := htrue.full
      omega
    rw [← h.soloFrom_eq hnext htrue.no_stop, hzero, soloFrom_zero]

end Alone

/-! ### The model the runner calls -/

section Cache

variable {S K : Type*} (D : CausalModel S K)

/-- The states a cache has for row `i`. -/
def cachedRow (cache : Option (List (List S))) (i : ℕ) : List S :=
  cache.elim [] fun rows => rows[i]?.getD []

/-- One call: each row is fed its new columns, under its mask, on top of its cached states. -/
def CausalModel.forward (call : Call (List (List S))) : List (List S) :=
  (List.range call.inputIds.length).map fun i =>
    D.feed (call.mask i) (cachedRow call.pastKeyValues i)
      ((call.inputIds[i]?.getD []).zip (call.positionIds[i]?.getD []))

/-- The decoder as the runner sees it. -/
def CausalModel.toModel : Model (List (List S)) where
  columns cache i := (cache[i]?.getD []).map D.column
  forward := D.forward
  records := by
    intro call i hi
    simp only [CausalModel.forward, List.getElem?_map, List.getElem?_range hi, Option.map_some,
      Option.getD_some, Decoder.map_column_feed, Call.columns, cachedRow]
    cases call.pastKeyValues <;> rfl

/-- `out.logits[:, -1, :]`, row `i`. -/
def CausalModel.lastLogits (cache : Option (List (List S))) (i : ℕ) : Option (List K) :=
  (cachedRow cache i).getLast?.map D.logits

/-- The logits after the tokens of one request by itself. -/
def CausalModel.soloLogits (toks : List Token) : Option (List K) :=
  (D.plain [] (numbered toks)).getLast?.map D.logits

/-- The states of a padded row, computed in one call. -/
def CausalModel.rowStates (padId : Token) (width : ℕ) (toks : List Token) : List S :=
  D.feed (maskRow width toks.length) [] (paddedColumns padId width toks)

/-- The cache holds the states of the tokens `seen` of each member, padded to the widest. -/
def Computed (padId : Token) (cache : Option (List (List S))) (members : List SeqId)
    (seen : SeqId → List Token) : Prop :=
  cache.isSome ∧ ∀ i s, members[i]? = some s → cachedRow cache i =
    D.rowStates padId (widest (members.map fun s => (seen s).length)) (seen s)

variable {D} {padId : Token}

/-- The columns of a row of states are the columns it was computed from. -/
theorem map_column_rowStates (width : ℕ) (toks : List Token) :
    (D.rowStates padId width toks).map D.column = paddedColumns padId width toks := by
  rw [CausalModel.rowStates, Decoder.map_column_feed, List.map_nil, List.nil_append]

/-- A cache of states is a cache of columns. -/
theorem Computed.holds {cache : Option (List (List S))} {members : List SeqId}
    {seen : SeqId → List Token} (h : Computed D padId cache members seen) :
    Holds D.toModel padId cache members seen := by
  obtain ⟨hsome, hrows⟩ := h
  obtain ⟨c, rfl⟩ := Option.isSome_iff_exists.mp hsome
  refine ⟨c, rfl, ?_⟩
  intro i s hi
  have hrow : (c)[i]?.getD [] = _ := hrows i s hi
  show ((c)[i]?.getD []).map D.column = _
  rw [hrow, map_column_rowStates]

/-- **The states of a longer row**: what was computed for the shorter one stays. -/
theorem rowStates_snoc {width : ℕ} {toks : List Token} (token : Token)
    (hle : toks.length ≤ width) :
    D.rowStates padId (width + 1) (toks ++ [token])
      = D.feed (maskRow (width + 1) (toks.length + 1)) (D.rowStates padId width toks)
          [(token, (toks.length : ℤ))] := by
  have hmask : maskRow (width + 1) (toks.length + 1) = maskRow width toks.length ++ [1] := by
    rw [maskRow, List.replicate_succ', leftPad_snoc, maskRow]
  have hwidth : (maskRow width toks.length).length = width := by
    rw [maskRow, length_leftPad (by simpa using hle)]
  have hcols : (paddedColumns padId width toks).length = width := by
    rw [paddedColumns, length_leftPad (by simpa using hle)]
  have hold : D.feed (maskRow width toks.length ++ [1]) [] (paddedColumns padId width toks)
      = D.rowStates padId width toks :=
    Decoder.feed_mask_append [1] _ (by rw [hwidth, hcols]; simp)
  rw [CausalModel.rowStates, paddedColumns, numbered_snoc, leftPad_snoc, Decoder.feed_append,
    List.length_append, List.length_singleton, ← hold, hmask]
  rfl

/-- What a call does to row `i`, which sees `q`: the new columns are those that the cached ones lack. -/
theorem cachedRow_forward {call : Call (List (List S))} {i : ℕ} {fed : List (Token × ℤ)}
    (hi : i < call.inputIds.length)
    (hfed : (call.inputIds[i]?.getD []).zip (call.positionIds[i]?.getD []) = fed) :
    cachedRow (some (D.toModel.forward call)) i
      = D.feed (call.mask i) (cachedRow call.pastKeyValues i) fed := by
  show (((List.range call.inputIds.length).map _)[i]?.getD []) = _
  rw [List.getElem?_map, List.getElem?_range hi, Option.map_some, Option.getD_some, hfed]

/-- **A prefill** computes every row from nothing. -/
theorem cachedRow_prefill {seqs : List Sequence} {q : Sequence} {i : ℕ}
    (hi : seqs[i]? = some q) {cache : Option (List (List S))} :
    cachedRow (some (D.toModel.forward (qwenCall padId cache seqs true))) i
      = D.rowStates padId (widest (seqs.map Sequence.len)) q.tokenIds := by
  have hlt : i < (qwenCall padId cache seqs true).inputIds.length := by
    rw [length_inputIds_qwenCall]
    exact (List.getElem?_eq_some_iff.mp hi).1
  rw [cachedRow_forward hlt (zip_padAndStack hi), mask_qwenCall cache true hi]
  rfl

/-- **A decode** computes one column on top of the cached ones. -/
theorem cachedRow_decode {seqs : List Sequence} {q : Sequence} {i : ℕ} (hi : seqs[i]? = some q)
    {c : List (List S)} {toks : List Token} {token : Token} {width : ℕ}
    (hq : q.tokenIds = toks ++ [token]) (hwidth : widest (seqs.map Sequence.len) = width + 1)
    (hle : toks.length ≤ width) (hc : cachedRow (some c) i = D.rowStates padId width toks) :
    cachedRow (some (D.toModel.forward (qwenCall padId (some c) seqs false))) i
      = D.rowStates padId (widest (seqs.map Sequence.len)) q.tokenIds := by
  have hlt : i < (qwenCall padId (some c) seqs false).inputIds.length := by
    rw [length_inputIds_qwenCall]
    exact (List.getElem?_eq_some_iff.mp hi).1
  have hcols : D.toModel.columns c i = paddedColumns padId width toks := by
    have hrow : (c)[i]?.getD [] = D.rowStates padId width toks := hc
    show ((c)[i]?.getD []).map D.column = _
    rw [hrow, map_column_rowStates]
  -- cached and fed columns together are the row, so the fed one is its newest
  have htotal := columns_decode D.toModel.columns hi hq hwidth hcols
  rw [hwidth, hq, paddedColumns, numbered_snoc, leftPad_snoc] at htotal
  have hfed : ((qwenCall padId (some c) seqs false).inputIds[i]?.getD []).zip
      ((qwenCall padId (some c) seqs false).positionIds[i]?.getD [])
        = [(token, (toks.length : ℤ))] := by
    have hsplit : (qwenCall padId (some c) seqs false).columns D.toModel.columns i
        = D.toModel.columns c i ++ [(token, (toks.length : ℤ))] := by
      rw [htotal, hcols]
      rfl
    exact List.append_cancel_left hsplit
  have hmask : (qwenCall padId (some c) seqs false).mask i
      = maskRow (width + 1) (toks.length + 1) := by
    rw [mask_qwenCall (some c) false hi, hwidth, hq, List.length_append, List.length_singleton]
  have hpast : (qwenCall padId (some c) seqs false).pastKeyValues = some c := rfl
  rw [cachedRow_forward hlt hfed, hmask, hpast, hc, hwidth, hq, rowStates_snoc token hle]

/-- Each row of a batch grew by one token, so the widest did. -/
theorem widest_grown {batch : List SeqId} {heap : SeqId → Sequence} {seen : SeqId → List Token}
    (hne : batch ≠ []) (hseen : ∀ s ∈ batch, ∃ token, (heap s).tokenIds = seen s ++ [token]) :
    widest ((batch.map heap).map Sequence.len)
      = widest (batch.map fun s => (seen s).length) + 1 := by
  have hlens : (batch.map heap).map Sequence.len
      = (batch.map fun s => (seen s).length).map (· + 1) := by
    rw [List.map_map, List.map_map]
    refine List.map_congr_left fun s hs => ?_
    obtain ⟨token, htok⟩ := hseen s hs
    rw [Function.comp_apply, ← length_tokenIds, htok, List.length_append]
    rfl
  rw [hlens, widest_succ (by simpa using hne)]

/-- **A call leads to the states of all its tokens**, whether it is a prefill or has the cache of
all but the newest of them. -/
theorem computed_execute {cache : Option (List (List S))} {members batch : List SeqId}
    {heap : SeqId → Sequence}
    (hcache : batch = members → ∃ seen, Computed D padId cache members seen ∧
      ∀ s ∈ members, ∃ token, (heap s).tokenIds = seen s ++ [token]) :
    Computed D padId
      ((qwenRunner D.toModel padId).execute cache heap ⟨batch, decide (batch ≠ members)⟩) batch
      fun s => (heap s).tokenIds := by
  refine ⟨rfl, ?_⟩
  intro i s hi
  have hrow : (batch.map heap)[i]? = some (heap s) := by
    rw [List.getElem?_map, hi, Option.map_some]
  have hlens : (batch.map fun s => (heap s).tokenIds.length)
      = (batch.map heap).map Sequence.len := by
    rw [List.map_map]
    exact List.map_congr_left fun s _ => length_tokenIds (heap s)
  rw [hlens]
  show cachedRow (some (D.toModel.forward (qwenCall padId cache (batch.map heap)
    (decide (batch ≠ members))))) i = _
  by_cases hsame : batch = members
  · obtain ⟨seen, ⟨hsome, hrows⟩, hseen⟩ := hcache hsame
    subst hsame
    obtain ⟨c, rfl⟩ := Option.isSome_iff_exists.mp hsome
    have hmem : s ∈ batch := List.mem_of_getElem? hi
    obtain ⟨token, htok⟩ := hseen s hmem
    rw [decide_eq_false (by simp)]
    exact cachedRow_decode hrow htok (widest_grown (List.ne_nil_of_mem hmem) hseen)
      (le_widest (List.mem_map_of_mem hmem)) (hrows i s hi)
  · rw [decide_eq_true hsame]
    exact cachedRow_prefill hrow

/-- **The runner remembers the states of its rows.** -/
theorem remembers_computed (D : CausalModel S K) (padId : Token) :
    Remembers (qwenRunner D.toModel padId) (Computed D padId) where
  congr := by
    rintro r members seen seen' ⟨hsome, hrows⟩ hseen
    refine ⟨hsome, ?_⟩
    intro i s hi
    have hlens : (members.map fun s => (seen' s).length) = members.map fun s => (seen s).length :=
      List.map_congr_left fun r hr => by rw [hseen r hr]
    rw [hlens, hseen s (List.mem_of_getElem? hi)]
    exact hrows i s hi
  execute := computed_execute

/-- **Logits do not depend on the company**: the last state of a padded, cached row is that of the
request alone. -/
theorem lastLogits_of_computed {cache : Option (List (List S))} {members : List SeqId}
    {seen : SeqId → List Token} (h : Computed D padId cache members seen) {i : ℕ} {s : SeqId}
    (hi : members[i]? = some s) (hne : seen s ≠ []) :
    D.lastLogits cache i = D.soloLogits (seen s) := by
  have hcols : numbered (seen s) ≠ [] := by simpa using hne
  have hlast := Decoder.getLast?_feed_leftPad (D := D.toDecoder)
    (widest (members.map fun s => (seen s).length)) (padId, 0) hcols
  rw [length_numbered] at hlast
  rw [CausalModel.lastLogits, h.2 i s hi, CausalModel.soloLogits]
  exact congrArg (Option.map D.logits) hlast

/-- **Logits do not depend on the company.**  During every tick of every run, with joins and leaves,
failed rows, idle times, prefills and decodes: the logits in the last column of a row are those
the model gives after the tokens of that request by itself, unpadded and uncached. -/
theorem lastLogits_alone {w : World (Option (List (List S)))} {m t : ℤ} {acts : List Act}
    (h : run (World.step (qwenRunner D.toModel padId)) (World.init m t none) acts = some w)
    (hfed : Along (World.step (qwenRunner D.toModel padId)) FedByQwen (World.init m t none) acts)
    (hpc : w.loop.pc = .executing) {i : ℕ} {s : SeqId} (hi : w.loop.batch[i]? = some s) :
    D.lastLogits w.loop.runner i = D.soloLogits (w.sched.seqs s).tokenIds := by
  have key : MemoryInv (Computed D padId) w ∧ KvInv D.toModel padId w := by
    refine run_invariant_along
      (fun u => MemoryInv (Computed D padId) u ∧ KvInv D.toModel padId u) ?_
      ⟨MemoryInv.init _ m t none, KvInv.init D.toModel padId m t⟩ hfed h
    rintro u a u' ⟨hmem, hkv⟩ ha hstep
    exact ⟨hmem.step (remembers_computed D padId) ha.oneResultPerRow hstep, hkv.step ha hstep⟩
  obtain ⟨hmem, hkv⟩ := key
  have harr := hmem.fifo.batch_sublist.subset (List.mem_of_getElem? hi)
  refine lastLogits_of_computed (hmem.executing hpc) hi ?_
  intro hnil
  exact hkv.prompts s harr (List.append_eq_nil_iff.mp hnil).1

/-- A decoder whose state is its column, and whose logits say that the position comes next. -/
def counting : CausalModel (Token × ℤ) ℚ where
  attend _ c := c
  column c := c
  column_attend _ _ := rfl
  logits c := (List.range 4).map fun n : ℕ => if (n : ℤ) = c.2 then 1 else 0

/-- The second tick of two ragged rows: the shorter one, behind its padding and fed from the cache,
has the logits of its own position. -/
theorem lastLogits_alone_second_tick :
    let acts : List Act := [.add 0 ⟨[5], 3, 0, none, ∅⟩, .add 1 ⟨[5, 6], 3, 0, none, ∅⟩,
      .loop .iterate, .loop (.tickEnd [some 0, some 1]), .loop .iterate]
    let w := runD (World.step (qwenRunner counting.toModel 0)) (World.init 8 8192 none) acts
    counting.lastLogits w.loop.runner 0 = counting.soloLogits [5, 0] := by
  intro acts w
  have h := run_eq_runD (show (run (World.step (qwenRunner counting.toModel 0))
    (World.init 8 8192 none) acts).isSome = true by decide)
  exact lastLogits_alone h (by decide) rfl (s := 0) rfl

end Cache

/-! ### The loop -/

section Loop

variable {S K : Type*} [Field K] [LinearOrder K] {D : CausalModel S K} {exp : K → K}
  {padId : Token} {w w' : World (Option (List (List S)))} {a : Act}

/-- The tokens that `_sample_row` can return from a row of logits. -/
def candidates (exp : K → K) (rowLogits : Option (List K)) (req : Request) : List Token :=
  ((rowLogits.bind fun logits => sampleRow exp logits { toRequest := req }).getD []).map
    fun n : ℕ => (n : ℤ)

/-- The tokens that may come next for a request by itself. -/
def CausalModel.soloNext (D : CausalModel S K) (exp : K → K) (req : Request)
    (toks : List Token) : List Token := candidates exp (D.soloLogits toks) req

/-- Prompts are not empty, and `execute` returns what `_sample` makes of the logits of its call: each
row is one that `_sample_row` can return, or failed. -/
def DrawnByRows (D : CausalModel S K) (exp : K → K) (w : World (Option (List (List S)))) :
    Act → Prop
  | .add _ req => req.promptIds ≠ []
  | .loop (.tickEnd nextIds) =>
    ∃ outcome, sample outcome w.loop.batch = some nextIds ∧
      ∀ (row : ℕ) (s : SeqId) (token : Token), w.loop.batch[row]? = some s →
        outcome row s = .picked token →
        token ∈ candidates exp (D.lastLogits w.loop.runner row) (w.sched.seqs s).toRequest
  | _ => True

/-- A result of `_sample` is what its row came to. -/
theorem picked_of_sampleFrom {outcome : ℕ → SeqId → RowOutcome} {seqs : List SeqId} {row i : ℕ}
    {nextIds : List (Option Token)} (h : sampleFrom outcome row seqs = some nextIds) {s : SeqId}
    (hs : seqs[i]? = some s) {token : Token} (htoken : nextIds[i]? = some (some token)) :
    outcome (row + i) s = .picked token := by
  induction seqs generalizing nextIds row i with
  | nil => simp at hs
  | cons s' seqs ih =>
    rw [sampleFrom] at h
    cases hrow : outcome row s' with
    | outOfMemory => simp [hrow] at h
    | picked token' =>
      simp only [hrow, Option.map_eq_some_iff] at h
      obtain ⟨rest, hrest, rfl⟩ := h
      cases i with
      | zero =>
        obtain rfl : s' = s := by simpa using hs
        obtain rfl : token' = token := by simpa using htoken
        exact hrow
      | succ i =>
        have hpicked := ih hrest (by simpa using hs) (by simpa using htoken)
        rwa [show row + 1 + i = row + (i + 1) by omega] at hpicked
    | failed =>
      simp only [hrow, Option.map_eq_some_iff] at h
      obtain ⟨rest, hrest, rfl⟩ := h
      cases i with
      | zero => simp at htoken
      | succ i =>
        have hpicked := ih hrest (by simpa using hs) (by simpa using htoken)
        rwa [show row + 1 + i = row + (i + 1) by omega] at hpicked

/-- One result a row, each failed or drawn from the logits of its row. -/
theorem exists_drawn_iff {cache : Option (List (List S))} {heap : SeqId → Sequence}
    {batch : List SeqId} {nextIds : List (Option Token)} :
    (∃ outcome, sample outcome batch = some nextIds ∧
      ∀ (row : ℕ) (s : SeqId) (token : Token), batch[row]? = some s →
        outcome row s = .picked token →
        token ∈ candidates exp (D.lastLogits cache row) (heap s).toRequest) ↔
    nextIds.length = batch.length ∧
      ∀ (row : ℕ) (s : SeqId) (token : Token), batch[row]? = some s →
        nextIds[row]? = some (some token) →
        token ∈ candidates exp (D.lastLogits cache row) (heap s).toRequest := by
  constructor
  · rintro ⟨outcome, hsample, hdrawn⟩
    refine ⟨length_of_sampleFrom hsample, ?_⟩
    intro row s token hs htoken
    have hpicked := picked_of_sampleFrom hsample hs htoken
    rw [Nat.zero_add] at hpicked
    exact hdrawn row s token hs hpicked
  · rintro ⟨hlen, hdrawn⟩
    refine ⟨_, sampleFrom_outcomeOf nextIds (by omega), ?_⟩
    intro row s token hs hpicked
    refine hdrawn row s token hs ?_
    have hlt : row < nextIds.length := hlen ▸ (List.getElem?_eq_some_iff.mp hs).1
    rw [List.getElem?_eq_getElem hlt]
    rw [outcomeOf, List.getElem?_eq_getElem hlt, Option.getD_some] at hpicked
    cases hitem : nextIds[row] with
    | none => simp [hitem] at hpicked
    | some token' => simpa [hitem] using hpicked

/-- Sampled rows are what `_sample` returns. -/
theorem DrawnByRows.fedByQwen (h : DrawnByRows D exp w a) : FedByQwen w a := by
  cases a with
  | loop e =>
    cases e with
    | tickEnd nextIds =>
      obtain ⟨outcome, hsample, -⟩ := h
      exact ⟨outcome, hsample⟩
    | _ => trivial
  | add seq req => exact h
  | abort seq => trivial

/-- The same, row by row. -/
theorem drawnByRows_tickEnd {nextIds : List (Option Token)} :
    (nextIds.length = w.loop.batch.length ∧
      ∀ row < w.loop.batch.length, ∀ s ∈ w.loop.batch[row]?, ∀ result ∈ nextIds[row]?,
        ∀ token ∈ result,
          token ∈ candidates exp (D.lastLogits w.loop.runner row) (w.sched.seqs s).toRequest) ↔
      DrawnByRows D exp w (.loop (.tickEnd nextIds)) := by
  refine Iff.trans (and_congr_right fun _ => ⟨?_, ?_⟩) exists_drawn_iff.symm
  · intro h row s token hs htoken
    exact h row (List.getElem?_eq_some_iff.mp hs).1 s hs _ htoken token rfl
  · rintro h row - s hs result hresult token rfl
    exact h row s token hs hresult

instance (D : CausalModel S K) (exp : K → K) (w : World (Option (List (List S)))) :
    ∀ a, Decidable (DrawnByRows D exp w a)
  | .add _ req => inferInstanceAs (Decidable (req.promptIds ≠ []))
  | .loop (.tickEnd _) => decidable_of_iff _ drawnByRows_tickEnd
  | .abort _ | .loop .iterate | .loop .wake | .loop .raise | .loop .cancel => isTrue trivial

/-- What the loop has generated so far, every request could have generated by itself. -/
structure GenerationInv (D : CausalModel S K) (exp : K → K) (padId : Token)
    (w : World (Option (List (List S)))) : Prop where
  memory : MemoryInv (Computed D padId) w
  verdicts : LoopVerdicts w
  prompts : ∀ s ∈ w.arrived, (w.sched.seqs s).promptIds ≠ []
  generated : ∀ s ∈ w.arrived, Generates (D.soloNext exp (w.sched.seqs s).toRequest)
    (w.sched.seqs s).toRequest (w.sched.seqs s).outputIds

theorem GenerationInv.init (D : CausalModel S K) (exp : K → K) (padId : Token) (m t : ℤ) :
    GenerationInv D exp padId (World.init m t none) where
  memory := MemoryInv.init (Computed D padId) m t none
  verdicts := LoopVerdicts.init m t none
  prompts := by intro s hs; cases hs
  generated := by intro s hs; cases hs

/-- **A row draws what its request could have drawn by itself.** -/
theorem drawn_of_computed {nextIds : List (Option Token)}
    (hcomputed : Computed D padId w.loop.runner w.loop.batch fun s => (w.sched.seqs s).tokenIds)
    (ha : DrawnByRows D exp w (.loop (.tickEnd nextIds))) {s : SeqId} {token : Token}
    (hrow : (s, some token) ∈ w.loop.batch.zip nextIds) (hprompt : (w.sched.seqs s).promptIds ≠ []) :
    token ∈ D.soloNext exp (w.sched.seqs s).toRequest (w.sched.seqs s).tokenIds := by
  obtain ⟨i, hi, hget⟩ := List.mem_iff_getElem.mp hrow
  rw [List.getElem_zip, Prod.mk.injEq] at hget
  rw [List.length_zip] at hi
  have hs : w.loop.batch[i]? = some s := by
    rw [List.getElem?_eq_getElem (by omega), hget.1]
  have htoken : nextIds[i]? = some (some token) := by
    rw [List.getElem?_eq_getElem (by omega), hget.2]
  have hcand := (exists_drawn_iff.mp ha).2 i s token hs htoken
  have hne : (w.sched.seqs s).tokenIds ≠ [] := fun hnil =>
    hprompt (List.append_eq_nil_iff.mp hnil).1
  rwa [lastLogits_of_computed hcomputed hs hne] at hcand

/-- **One operation** keeps what an arrival has generated. -/
theorem GenerationInv.touch (hw : GenerationInv D exp padId w) (ha : DrawnByRows D exp w a)
    {s : SeqId} (hs : s ∈ w.arrived) {q : Sequence} (htouch : Touch w s a q) :
    Generates (D.soloNext exp q.toRequest) q.toRequest q.outputIds := by
  have hgen := hw.generated s hs
  cases htouch with
  | same => exact hgen
  | @record nextIds token hpc hrow =>
    have hnew := hgen.record (hw.verdicts.isOpen hpc (List.of_mem_zip hrow).1)
      (drawn_of_computed (hw.memory.executing hpc) ha hrow (hw.prompts s hs))
    rwa [Sequence.record_toRequest] at hnew ⊢
  | abort r hr => rwa [Sequence.abort_toRequest, Sequence.abort_outputIds]
  | fail hkind hpc hmem => rwa [Sequence.fail_toRequest, Sequence.fail_outputIds]

/-- **Every event keeps what every request has generated.** -/
theorem GenerationInv.step (hw : GenerationInv D exp padId w) (ha : DrawnByRows D exp w a)
    (h : w.step (qwenRunner D.toModel padId) a = some w') : GenerationInv D exp padId w' := by
  have hx := hw.memory.fifo
  refine ⟨hw.memory.step (remembers_computed D padId) ha.fedByQwen.oneResultPerRow h,
    hw.verdicts.step h, ?_, ?_⟩
  · intro s hs
    by_cases hold : s ∈ w.arrived
    · rw [toRequest_step hx h hold]
      exact hw.prompts s hold
    · obtain ⟨req, rfl, hseq⟩ := new_arrival hx h hold hs
      rw [hseq, Sequence.settle_toRequest]
      exact ha
  · intro s hs
    by_cases hold : s ∈ w.arrived
    · exact hw.touch ha hold (touch_of_step hx h hold)
    · obtain ⟨req, -, hseq⟩ := new_arrival hx h hold hs
      rw [hseq, Sequence.settle_toRequest, Sequence.settle_outputIds]
      exact .nil

theorem generationInv_reachable {m t : ℤ} {acts : List Act}
    (h : run (World.step (qwenRunner D.toModel padId)) (World.init m t none) acts = some w)
    (hdrawn : Along (World.step (qwenRunner D.toModel padId)) (DrawnByRows D exp)
      (World.init m t none) acts) : GenerationInv D exp padId w :=
  run_invariant_along (GenerationInv D exp padId) (fun hw ha hs => hw.step ha hs)
    (GenerationInv.init D exp padId m t) hdrawn h

/-- **Every output could have been generated alone.**  In every run of the loop, whatever the
limits, the arrivals, the hang-ups and the rows that fail: the output of a request is one that the
request by itself could have generated, token for token, and a verdict of `stop` or `length` is the one
its tokens lead to. -/
theorem generated_alone {m t : ℤ} {acts : List Act}
    (h : run (World.step (qwenRunner D.toModel padId)) (World.init m t none) acts = some w)
    (hdrawn : Along (World.step (qwenRunner D.toModel padId)) (DrawnByRows D exp)
      (World.init m t none) acts) {s : SeqId} {req : Request} (hs : Act.add s req ∈ acts) :
    Generates (D.soloNext exp req) req (w.sched.seqs s).outputIds ∧
      ((w.sched.seqs s).finishReason = some .stop ↔
        ∃ token ∈ (w.sched.seqs s).outputIds, token ∈ req.eosTokenIds) ∧
      ((w.sched.seqs s).finishReason = some .length ↔
        (∀ token ∈ (w.sched.seqs s).outputIds, token ∉ req.eosTokenIds) ∧
          req.maxNewTokens ≤ (w.sched.seqs s).outputIds.length) := by
  have hw := generationInv_reachable h hdrawn
  obtain ⟨harr, rfl⟩ := toRequest_of_add (WorldInv.init m t none) h hs
  obtain ⟨hstop, hlength, -⟩ := (hw.verdicts.truthful s harr).tells
  exact ⟨hw.generated s harr, hstop, hlength⟩

/-- Two ragged rows, one of which fails in the second tick while the other goes on. -/
theorem generated_alone_two_rows :
    let acts : List Act := [.add 0 ⟨[5], 3, 0, none, ∅⟩, .add 1 ⟨[5, 6], 3, 0, none, ∅⟩,
      .loop .iterate, .loop (.tickEnd [some 0, some 1]), .loop .iterate,
      .loop (.tickEnd [none, some 2])]
    let w := runD (World.step (qwenRunner counting.toModel 0)) (World.init 8 8192 none) acts
    Generates (counting.soloNext id ⟨[5, 6], 3, 0, none, ∅⟩) ⟨[5, 6], 3, 0, none, ∅⟩
      (w.sched.seqs 1).outputIds := by
  intro acts w
  have h := run_eq_runD (show (run (World.step (qwenRunner counting.toModel 0))
    (World.init 8 8192 none) acts).isSome = true by decide)
  have hdrawn : Along (World.step (qwenRunner counting.toModel 0)) (DrawnByRows counting id)
      (World.init 8 8192 none) acts := by decide +kernel
  exact (generated_alone h hdrawn (s := 1) (by simp [acts])).1

/-- The next token of a request at temperature zero. -/
def CausalModel.greedyNext (D : CausalModel S K) (toks : List Token) : Token :=
  (((D.soloLogits toks).bind argmax).getD 0 : ℕ)

/-- At temperature zero there is no choice. -/
theorem eq_greedyNext {req : Request} (htemp : req.temperature ≤ 0) {toks : List Token}
    {token : Token} (h : token ∈ D.soloNext exp req toks) : token = D.greedyNext toks := by
  have hrow : ∀ logits : List K, sampleRow exp logits { toRequest := req }
      = (argmax logits).map fun i => [i] := fun logits => if_pos htemp
  simp only [CausalModel.soloNext, candidates, hrow, List.mem_map] at h
  obtain ⟨n, hn, rfl⟩ := h
  unfold CausalModel.greedyNext
  cases hlogits : D.soloLogits toks with
  | none => simp [hlogits] at hn
  | some logits =>
    cases hmax : argmax logits with
    | none => simp [hlogits, hmax] at hn
    | some i =>
      simp only [hlogits, hmax, Option.bind_some, Option.map_some, Option.getD_some,
        List.mem_singleton] at hn ⊢
      rw [hn]

/-- **At temperature zero there is one answer.**  In every run, the output of a request at temperature
zero is a beginning of what greedy decoding generates for it alone, and with a verdict of
`stop` or `length` it is all of it, with that verdict: no batch, cache, padding or failure of
another row changes a token. -/
theorem greedy_is_solo {m t : ℤ} {acts : List Act}
    (h : run (World.step (qwenRunner D.toModel padId)) (World.init m t none) acts = some w)
    (hdrawn : Along (World.step (qwenRunner D.toModel padId)) (DrawnByRows D exp)
      (World.init m t none) acts) {s : SeqId} {req : Request} (hs : Act.add s req ∈ acts)
    (htemp : req.temperature ≤ 0) :
    (w.sched.seqs s).outputIds <+: (solo D.greedyNext req).1 ∧
      ∀ reason, (w.sched.seqs s).finishReason = some reason → reason = .stop ∨ reason = .length →
        ((w.sched.seqs s).outputIds, reason) = solo D.greedyNext req := by
  have hw := generationInv_reachable h hdrawn
  obtain ⟨harr, rfl⟩ := toRequest_of_add (WorldInv.init m t none) h hs
  have hgen := hw.generated s harr
  have hnext : ∀ toks, ∀ token ∈ D.soloNext exp (w.sched.seqs s).toRequest toks,
      token = D.greedyNext toks := fun toks token htoken => eq_greedyNext htemp htoken
  exact ⟨hgen.prefix_solo hnext, fun reason hreason hkind =>
    hgen.eq_solo hnext (hw.verdicts.truthful s harr) hreason hkind⟩

/-- The same two rows: the second one has the greedy output of its request alone. -/
theorem greedy_is_solo_two_rows :
    let acts : List Act := [.add 0 ⟨[5], 3, 0, none, ∅⟩, .add 1 ⟨[5, 6], 2, 0, none, ∅⟩,
      .loop .iterate, .loop (.tickEnd [some 0, some 1]), .loop .iterate,
      .loop (.tickEnd [none, some 2])]
    let w := runD (World.step (qwenRunner counting.toModel 0)) (World.init 8 8192 none) acts
    ((w.sched.seqs 1).outputIds, FinishReason.length)
      = solo counting.greedyNext ⟨[5, 6], 2, 0, none, ∅⟩ := by
  intro acts w
  have h := run_eq_runD (show (run (World.step (qwenRunner counting.toModel 0))
    (World.init 8 8192 none) acts).isSome = true by decide)
  have hdrawn : Along (World.step (qwenRunner counting.toModel 0)) (DrawnByRows counting id)
      (World.init 8 8192 none) acts := by decide +kernel
  exact (greedy_is_solo h hdrawn (s := 1) (by simp [acts]) le_rfl).2 .length (by decide)
    (Or.inr rfl)

end Loop

end NanoKube
