import Mathlib.Algebra.Order.BigOperators.Group.List
import Mathlib.Algebra.Order.Field.Basic
import Mathlib.Analysis.Complex.Exponential
import Mathlib.Data.Rat.Cast.Order
import NanoKube.Engine
import NanoKube.TopK

/-!
# Which tokens a row can sample

A request is validated and normalised before it is submitted, and its parameters are
looked at again when a row is sampled.  Between the two nothing undefined is reached:
no division by zero, no `topk` of more entries than there are, no last entry of an
empty list, no row without a candidate.

The tensor operations compute what they stand for, over a field with an order.  An
operation that is not defined has no result; `multinomial` has as many results as there
are entries of positive probability.

## Main definitions

* `CompletionRequest.InBounds`, `CompletionRequest.normalize` — the schema.
* `sampleRow` — the tokens `_sample_row` can return.

## Main results

* `softmax_multinomial` — the candidates are the entries that are not masked.
* `sampling_support` — which tokens a request that was admitted can sample.
-/

namespace NanoKube

open TopK

/-! ### The schema -/

/-- `SAMPLING_EPS`. -/
def samplingEps : ℚ := 1 / 100000

namespace CompletionRequest

/-- The bounds of the fields. -/
structure InBounds (body : CompletionRequest) : Prop where
  maxTokens : 0 ≤ body.maxTokens
  temperature_nonneg : 0 ≤ body.temperature
  temperature_le : body.temperature ≤ 2
  topK : ∀ k ∈ body.topK, -1 ≤ k

/-- `_normalize`. -/
def normalize (body : CompletionRequest) : CompletionRequest :=
  { body with
    temperature := if body.temperature < samplingEps then 0 else body.temperature
    topK := body.topK.filter fun k => decide (0 < k) }

instance (body : CompletionRequest) : Decidable body.InBounds :=
  decidable_of_iff (0 ≤ body.maxTokens ∧ 0 ≤ body.temperature ∧ body.temperature ≤ 2 ∧
    ∀ k ∈ body.topK, -1 ≤ k)
    ⟨fun h => ⟨h.1, h.2.1, h.2.2.1, h.2.2.2⟩,
      fun h => ⟨h.maxTokens, h.temperature_nonneg, h.temperature_le, h.topK⟩⟩

/-- A body that is admitted, as it is submitted. -/
def validate (body : CompletionRequest) : Option CompletionRequest :=
  if body.InBounds then some body.normalize else none

variable {body admitted : CompletionRequest}

theorem normalize_of_validate (h : body.validate = some admitted) : admitted = body.normalize := by
  rw [validate, Option.ite_none_right_eq_some, Option.some.injEq] at h
  exact h.2.symm

/-- A temperature that is not zero is positive. -/
theorem temperature_pos (h : body.validate = some admitted) (ht : admitted.temperature ≠ 0) :
    0 < admitted.temperature := by
  rw [normalize_of_validate h, normalize] at ht ⊢
  dsimp only at ht ⊢
  split at ht
  · exact absurd rfl ht
  · next hlarge =>
    rw [if_neg hlarge]
    have heps : 0 < samplingEps := by decide +kernel
    exact lt_of_lt_of_le heps (not_lt.mp hlarge)

/-- A top-k that is set is positive. -/
theorem topK_pos (h : body.validate = some admitted) {k : ℤ} (hk : admitted.topK = some k) :
    0 < k := by
  rw [normalize_of_validate h, normalize] at hk
  have hfilter := (Option.filter_eq_some_iff.mp hk).2
  simpa using hfilter

end CompletionRequest

/-! ### Comparing entries -/

section Order

variable {α : Type*} [LinearOrder α] {row : List α} {i : ℕ}

/-- `torch.argmax`: the first of the largest entries. -/
def argmax (row : List α) : Option ℕ :=
  row.findIdx? fun x => row.all fun y => decide (y ≤ x)

/-- The values of `torch.topk`. -/
def torchTopk (row : List α) (k : ℤ) : Option (List α) :=
  if 0 ≤ k ∧ k ≤ row.length then some (topk row k.toNat) else none

/-- `masked_fill` of the entries below a bound with minus infinity, which is `none`. -/
def maskBelow (row : List α) (bound : α) : List (Option α) :=
  row.map fun x => if x < bound then none else some x

/-- The top-k filter of `_sample_row`. -/
def filterTopK (scaled : List α) (topK : Option ℤ) : Option (List (Option α)) :=
  match topK with
  | none => some (scaled.map some)
  | some k =>
    if 0 < k then
      (torchTopk scaled (min k scaled.length)).bind fun kept =>
        kept.getLast?.map fun last => maskBelow scaled last
    else some (scaled.map some)

/-- **`argmax` finds a largest entry.** -/
theorem argmax_eq (hrow : row ≠ []) : ∃ i x, argmax row = some i ∧ row[i]? = some x ∧
    ∀ y ∈ row, y ≤ x := by
  obtain ⟨v, -, hv⟩ := getLast?_topk (k := 1) le_rfl (List.length_pos_iff.mpr hrow)
  have hmax : ∃ x ∈ row, (row.all fun y => decide (y ≤ x)) = true := by
    refine ⟨v, hv.mem, ?_⟩
    rw [List.all_eq_true]
    intro y hy
    exact decide_eq_true (hv.le_of_one hy)
  obtain ⟨i, hi⟩ := Option.isSome_iff_exists.mp (List.findIdx?_isSome ▸ List.any_eq_true.mpr hmax)
  obtain ⟨hlt, hall, -⟩ := List.findIdx?_eq_some_iff_getElem.mp hi
  refine ⟨i, row[i], hi, List.getElem?_eq_getElem hlt, ?_⟩
  rw [List.all_eq_true] at hall
  intro y hy
  simpa using hall y hy

/-- What is kept of a scaled row: everything, or the entries at least as large as the threshold. -/
theorem filterTopK_some {k : ℤ} (hk : 0 < k) (hrow : row ≠ []) :
    ∃ v, IsKthLargest row (min k.toNat row.length) v ∧
      filterTopK row (some k) = some (maskBelow row v) := by
  have hlen := List.length_pos_iff.mpr hrow
  have hmin : (min k row.length).toNat = min k.toNat row.length := by omega
  obtain ⟨v, hlast, hv⟩ := getLast?_topk (l := row) (k := min k.toNat row.length)
    (by omega) (by omega)
  refine ⟨v, hv, ?_⟩
  have hdefined : 0 ≤ min k (row.length : ℤ) ∧ min k (row.length : ℤ) ≤ row.length := by omega
  rw [filterTopK, if_pos hk, torchTopk, if_pos hdefined, Option.bind_some, hmin, hlast,
    Option.map_some]

theorem getElem?_maskBelow {v : α} : (∃ y, (maskBelow row v)[i]? = some (some y)) ↔
    ∃ x, row[i]? = some x ∧ v ≤ x := by
  rw [maskBelow, List.getElem?_map]
  constructor
  · rintro ⟨y, hy⟩
    rw [Option.map_eq_some_iff] at hy
    obtain ⟨x, hx, hkept⟩ := hy
    refine ⟨x, hx, ?_⟩
    by_contra hlt
    rw [if_pos (not_le.mp hlt)] at hkept
    cases hkept
  · rintro ⟨x, hx, hle⟩
    exact ⟨x, by rw [hx, Option.map_some, if_neg (not_lt.mpr hle)]⟩

theorem countP_maskBelow (row : List α) (v : α) :
    (maskBelow row v).countP Option.isSome = row.countP fun x => decide (v ≤ x) := by
  rw [maskBelow, List.countP_map]
  apply List.countP_congr
  intro x _
  by_cases hx : x < v
  · simp [hx]
  · simp [hx, not_lt.mp hx]

/-- The logit of `i` is at least the `k`-th largest, counted with multiplicity, or the last if there
are fewer. -/
def InTopK (logits : List α) (k : ℤ) (i : ℕ) : Prop :=
  ∃ v x, IsKthLargest logits (min k.toNat logits.length) v ∧ logits[i]? = some x ∧ v ≤ x

variable {logits : List α} {k k' : ℤ}

theorem exists_kthLargest (hne : logits ≠ []) (hk : 0 < k) :
    ∃ v, IsKthLargest logits (min k.toNat logits.length) v := by
  have hlen := List.length_pos_iff.mpr hne
  obtain ⟨v, -, hv⟩ := getLast?_topk (l := logits) (k := min k.toNat logits.length)
    (by omega) (by omega)
  exact ⟨v, hv⟩

/-- **More entries are kept for a larger `k`.** -/
theorem InTopK.mono (hne : logits ≠ []) (h : InTopK logits k i) (hk : 0 < k) (hkk : k ≤ k') :
    InTopK logits k' i := by
  obtain ⟨v, x, hv, hx, hle⟩ := h
  obtain ⟨v', hv'⟩ := exists_kthLargest hne (lt_of_lt_of_le hk hkk)
  exact ⟨v', x, hv', hx, (hv.anti hv' (by omega)).trans hle⟩

/-- A largest entry is always kept. -/
theorem inTopK_of_largest (hne : logits ≠ []) (hk : 0 < k) {x : α} (hx : logits[i]? = some x)
    (hmax : ∀ y ∈ logits, y ≤ x) : InTopK logits k i := by
  obtain ⟨v, hv⟩ := exists_kthLargest hne hk
  exact ⟨v, x, hv, hx, hmax v hv.mem⟩

end Order

/-! ### Weighing entries -/

section Weights

variable {K : Type*} [Field K] [LinearOrder K]

/-- Division of a row by a number. -/
def divide (row : List K) (t : K) : Option (List K) :=
  if t = 0 then none else some (row.map (· / t))

/-- `torch.softmax`: masked entries weigh nothing. -/
def softmax (exp : K → K) (row : List (Option K)) : Option (List K) :=
  let weights := row.map fun x => (x.map exp).getD 0
  if weights.sum = 0 then none else some (weights.map (· / weights.sum))

/-- The places of the positive entries. -/
def positives (probs : List K) : List ℕ :=
  (probs.zipIdx.filter fun p => decide (0 < p.1)).map Prod.snd

/-- `torch.multinomial` of one sample: every place with a positive probability can come up. -/
def multinomial (probs : List K) : Option (List ℕ) :=
  if probs.any (fun p => decide (p < 0)) ∨ probs.sum ≤ 0 then none else some (positives probs)

/-- `_sample_row`: the tokens it can return, or `none` where an operation is not defined. -/
def sampleRow (exp : K → K) (rowLogits : List K) (q : Sequence) : Option (List ℕ) :=
  if q.temperature ≤ 0 then (argmax rowLogits).map fun i => [i]
  else
    (divide rowLogits (q.temperature : K)).bind fun scaled =>
      (filterTopK scaled q.topK).bind fun masked =>
        (softmax exp masked).bind multinomial

variable {exp : K → K} {row : List K} {probs : List K} {masked : List (Option K)} {i : ℕ}

theorem mem_positives : i ∈ positives probs ↔ ∃ p, probs[i]? = some p ∧ 0 < p := by
  simp only [positives, List.mem_map, List.mem_filter, List.mem_zipIdx_iff_getElem?,
    decide_eq_true_eq]
  constructor
  · rintro ⟨⟨p, j⟩, ⟨hp, hpos⟩, rfl⟩
    exact ⟨p, hp, hpos⟩
  · rintro ⟨p, hp, hpos⟩
    exact ⟨(p, i), ⟨hp, hpos⟩, rfl⟩

theorem nodup_positives : (positives probs).Nodup := by
  have hsub : (positives probs).Sublist (probs.zipIdx.map Prod.snd) :=
    List.filter_sublist.map Prod.snd
  apply hsub.nodup
  rw [List.zipIdx_map_snd]
  exact List.nodup_range'

theorem length_positives : (positives probs).length = probs.countP fun p => decide (0 < p) := by
  rw [positives, List.length_map, ← List.countP_eq_length_filter]
  conv_rhs => rw [← List.zipIdx_map_fst 0 probs, List.countP_map]
  rfl

variable [IsStrictOrderedRing K]

theorem sum_pos_of_mem {l : List K} (hl : ∀ x ∈ l, 0 ≤ x) {x : K} (hx : x ∈ l) (hpos : 0 < x) :
    0 < l.sum := lt_of_lt_of_le hpos (List.single_le_sum hl x hx)

/-- Probabilities of which one is positive can be sampled. -/
theorem multinomial_eq (hprobs : ∀ p ∈ probs, 0 ≤ p) {p : K} (hp : p ∈ probs) (hpos : 0 < p) :
    multinomial probs = some (positives probs) := by
  rw [multinomial, if_neg]
  rintro (hneg | hzero)
  · rw [List.any_eq_true] at hneg
    obtain ⟨w, hw, hlt⟩ := hneg
    exact absurd (hprobs w hw) (not_le.mpr (by simpa using hlt))
  · exact absurd (sum_pos_of_mem hprobs hp hpos) (not_lt.mpr hzero)

/-- **Softmax gives every entry that is not masked a positive probability**, if there is one. -/
theorem softmax_eq (hexp : ∀ x, 0 < exp x) {x : K} (hx : some x ∈ masked) :
    ∃ prob : Option K → K, softmax exp masked = some (masked.map prob) ∧
      ∀ o, 0 ≤ prob o ∧ (0 < prob o ↔ o.isSome = true) := by
  have hweight : ∀ o : Option K, 0 ≤ (o.map exp).getD 0 ∧
      (0 < (o.map exp).getD 0 ↔ o.isSome = true) := by
    intro o
    cases o with
    | none => simp
    | some y => simp [(hexp y).le, hexp y]
  have hsum : 0 < (masked.map fun o => (o.map exp).getD 0).sum := by
    refine sum_pos_of_mem ?_ (List.mem_map_of_mem hx) ((hweight _).2.mpr rfl)
    intro w hw
    obtain ⟨o, -, rfl⟩ := List.mem_map.mp hw
    exact (hweight o).1
  refine ⟨fun o => (o.map exp).getD 0 / (masked.map fun o => (o.map exp).getD 0).sum, ?_, ?_⟩
  · rw [softmax, if_neg hsum.ne', List.map_map]
    rfl
  · intro o
    refine ⟨div_nonneg (hweight o).1 hsum.le, ?_⟩
    rw [div_pos_iff_of_pos_right hsum]
    exact (hweight o).2

/-- **The candidates are the entries that are not masked**, if there is one. -/
theorem softmax_multinomial (hexp : ∀ x, 0 < exp x) {x : K} (hx : some x ∈ masked) :
    ∃ ids, (softmax exp masked).bind multinomial = some ids ∧ ids.Nodup ∧
      (∀ i, i ∈ ids ↔ ∃ y, masked[i]? = some (some y)) ∧
      ids.length = masked.countP Option.isSome := by
  obtain ⟨prob, hprobs, hprob⟩ := softmax_eq hexp hx
  have hdefined : multinomial (masked.map prob) = some (positives (masked.map prob)) := by
    refine multinomial_eq ?_ (List.mem_map_of_mem hx) ((hprob _).2.mpr rfl)
    intro w hw
    obtain ⟨o, -, rfl⟩ := List.mem_map.mp hw
    exact (hprob o).1
  refine ⟨positives (masked.map prob), by rw [hprobs, Option.bind_some, hdefined],
    nodup_positives, ?_, ?_⟩
  · intro i
    rw [mem_positives]
    constructor
    · rintro ⟨p, hp, hpos⟩
      rw [List.getElem?_map, Option.map_eq_some_iff] at hp
      obtain ⟨o, ho, rfl⟩ := hp
      obtain ⟨y, rfl⟩ := Option.isSome_iff_exists.mp ((hprob o).2.mp hpos)
      exact ⟨y, ho⟩
    · rintro ⟨y, hy⟩
      exact ⟨prob (some y), by rw [List.getElem?_map, hy]; rfl, (hprob _).2.mpr rfl⟩
  · rw [length_positives, List.countP_map]
    apply List.countP_congr
    intro o _
    simp [(hprob o).2]

/-! ### The row of a request -/

variable {logits : List K} {k : ℤ} {q : Sequence}

/-- Dividing by a positive temperature keeps the order. -/
theorem strictMono_div {t : K} (ht : 0 < t) : StrictMono fun x : K => x / t :=
  fun _ _ h => div_lt_div_of_pos_right h ht

theorem sampleRow_of_pos (ht : 0 < q.temperature) : sampleRow exp logits q =
    (filterTopK (logits.map fun x => x / (q.temperature : K)) q.topK).bind fun masked =>
      (softmax exp masked).bind multinomial := by
  have hne : (q.temperature : K) ≠ 0 := (Rat.cast_pos.mpr ht).ne'
  rw [sampleRow, if_neg (not_le.mpr ht), divide, if_neg hne, Option.bind_some]

/-- **Without a top-k, every token can be sampled.** -/
theorem sampleRow_unfiltered (hexp : ∀ x, 0 < exp x) (hne : logits ≠ []) (ht : 0 < q.temperature)
    (htopK : q.topK = none) : ∃ ids, sampleRow exp logits q = some ids ∧
      ∀ i, i ∈ ids ↔ i < logits.length := by
  obtain ⟨x, hx⟩ := List.exists_mem_of_ne_nil logits hne
  have hsome : some (x / (q.temperature : K)) ∈
      (logits.map fun x => x / (q.temperature : K)).map some :=
    List.mem_map_of_mem (List.mem_map_of_mem hx)
  obtain ⟨ids, hids, -, hmem, -⟩ := softmax_multinomial hexp hsome
  refine ⟨ids, ?_, ?_⟩
  · rw [sampleRow_of_pos ht, htopK, filterTopK, Option.bind_some, hids]
  · intro i
    rw [hmem, List.map_map, List.getElem?_map]
    constructor
    · rintro ⟨y, hy⟩
      rw [Option.map_eq_some_iff] at hy
      obtain ⟨z, hz, -⟩ := hy
      exact (List.getElem?_eq_some_iff.mp hz).1
    · intro hi
      exact ⟨_, by rw [List.getElem?_eq_getElem hi]; rfl⟩

/-- **With a top-k, exactly the top entries can**, whatever the temperature is. -/
theorem sampleRow_topK (hexp : ∀ x, 0 < exp x) (hne : logits ≠ []) (ht : 0 < q.temperature)
    (hk : 0 < k) (htopK : q.topK = some k) : ∃ ids, sampleRow exp logits q = some ids ∧
      ids.Nodup ∧ min k.toNat logits.length ≤ ids.length ∧ ∀ i, i ∈ ids ↔ InTopK logits k i := by
  set scaled := logits.map fun x => x / (q.temperature : K) with hscaled
  have hmono := strictMono_div (Rat.cast_pos.mpr ht : (0 : K) < q.temperature)
  have hlen : scaled.length = logits.length := List.length_map _
  have hne' : scaled ≠ [] := by simpa [hscaled] using hne
  obtain ⟨v, hv⟩ := exists_kthLargest hne hk
  obtain ⟨w, hw, hmask⟩ := filterTopK_some hk hne'
  -- the threshold of the scaled row is the scaled threshold
  have hthreshold : w = v / (q.temperature : K) := by
    rw [hlen] at hw
    exact hw.unique (hv.map hmono)
  have hsome : some w ∈ maskBelow scaled w :=
    List.mem_map.mpr ⟨w, hw.mem, if_neg (lt_irrefl w)⟩
  obtain ⟨ids, hids, hnodup, hmem, hcount⟩ := softmax_multinomial hexp hsome
  refine ⟨ids, ?_, hnodup, ?_, ?_⟩
  · rw [sampleRow_of_pos ht, htopK, hmask, Option.bind_some, hids]
  · rw [hcount, countP_maskBelow, ← hlen]
    exact hw.atLeast
  · intro i
    rw [hmem, getElem?_maskBelow, hthreshold, hscaled]
    constructor
    · rintro ⟨y, hy, hle⟩
      rw [List.getElem?_map, Option.map_eq_some_iff] at hy
      obtain ⟨x, hx, rfl⟩ := hy
      exact ⟨v, x, hv, hx, hmono.le_iff_le.mp hle⟩
    · rintro ⟨v', x, hv', hx, hle⟩
      rw [← hv.unique hv'] at hle
      exact ⟨_, by rw [List.getElem?_map, hx]; rfl, hmono.monotone hle⟩

/-- **Which tokens a request that was admitted can sample.**  For every row of logits that is not
empty, no operation is undefined.  At temperature zero a token of largest logit is returned.
Without a top-k every token can be; with a top-k exactly those whose logit is at least the
`min k V`-th largest, counted with multiplicity.  These are at least `min k V` tokens, with every
token of largest logit among them; a larger top-k only adds to them, and the temperature
makes no difference. -/
theorem sampling_support {ρ : Type*} {runner : Runner ρ} {body admitted : CompletionRequest}
    (hexp : ∀ x, 0 < exp x) (hne : logits ≠ []) (hbody : body.validate = some admitted)
    (hq : q.toRequest = promptToSequence runner admitted) :
    ∃ ids, sampleRow exp logits q = some ids ∧
      (admitted.temperature = 0 →
        ∃ i x, ids = [i] ∧ logits[i]? = some x ∧ ∀ y ∈ logits, y ≤ x) ∧
      (admitted.temperature ≠ 0 → admitted.topK = none → ∀ i, i ∈ ids ↔ i < logits.length) ∧
      ∀ k, admitted.temperature ≠ 0 → admitted.topK = some k →
        (∀ i, i ∈ ids ↔ InTopK logits k i) ∧
        (∀ i x, logits[i]? = some x → (∀ y ∈ logits, y ≤ x) → i ∈ ids) ∧
        ids.Nodup ∧ min k.toNat logits.length ≤ ids.length ∧
        ∀ (body' admitted' : CompletionRequest) (q' : Sequence) (k' : ℤ),
          body'.validate = some admitted' → q'.toRequest = promptToSequence runner admitted' →
          admitted'.temperature ≠ 0 → admitted'.topK = some k' → k ≤ k' →
          ∃ ids', sampleRow exp logits q' = some ids' ∧ (∀ i ∈ ids, i ∈ ids') ∧
            (k = k' → ∀ i ∈ ids', i ∈ ids) := by
  have htemp : q.temperature = admitted.temperature := congrArg Request.temperature hq
  have htopK : q.topK = admitted.topK := congrArg Request.topK hq
  by_cases hzero : admitted.temperature = 0
  · obtain ⟨i, x, hi, hx, hmax⟩ := argmax_eq hne
    refine ⟨[i], ?_, fun _ => ⟨i, x, rfl, hx, hmax⟩, fun hno => absurd hzero hno,
      fun k hno => absurd hzero hno⟩
    rw [sampleRow, if_pos (htemp.trans hzero).le, hi, Option.map_some]
  · have hpos : 0 < q.temperature := htemp ▸ CompletionRequest.temperature_pos hbody hzero
    cases hk : admitted.topK with
    | none =>
      obtain ⟨ids, hids, hmem⟩ := sampleRow_unfiltered hexp hne hpos (htopK.trans hk)
      exact ⟨ids, hids, fun h => absurd h hzero, fun _ _ => hmem, fun k _ hsome => by cases hsome⟩
    | some k =>
      have hkpos := CompletionRequest.topK_pos hbody hk
      obtain ⟨ids, hids, hnodup, hmany, hmem⟩ :=
        sampleRow_topK hexp hne hpos hkpos (htopK.trans hk)
      refine ⟨ids, hids, fun h => absurd h hzero, fun _ hnone => (by cases hnone), ?_⟩
      rintro k₀ - hk₀
      obtain rfl := Option.some.inj hk₀
      refine ⟨hmem, fun i x hx hmax => (hmem i).mpr (inTopK_of_largest hne hkpos hx hmax), hnodup,
        hmany, ?_⟩
      intro body' admitted' q' k' hbody' hq' hzero' hk' hle
      have htemp' : q'.temperature = admitted'.temperature := congrArg Request.temperature hq'
      have htopK' : q'.topK = some k' := (congrArg Request.topK hq').trans hk'
      have hpos' : 0 < q'.temperature := htemp' ▸ CompletionRequest.temperature_pos hbody' hzero'
      obtain ⟨ids', hids', -, -, hmem'⟩ :=
        sampleRow_topK hexp hne hpos' (CompletionRequest.topK_pos hbody' hk') htopK'
      refine ⟨ids', hids', fun i hi => (hmem' i).mpr (((hmem i).mp hi).mono hne hkpos hle), ?_⟩
      rintro rfl i hi
      exact (hmem i).mpr ((hmem' i).mp hi)

/-- Temperature 0.8 and top-k 1 over two tokens: the second, of the larger logit, can be sampled. -/
theorem sampling_support_top_one :
    let body : CompletionRequest := ⟨[], 64, 8 / 10, some 1, false⟩
    ∃ ids, sampleRow Real.exp [1, 2] { toRequest := promptToSequence mock body.normalize }
        = some ids ∧ 1 ∈ ids := by
  intro body
  have hbody : body.validate = some body.normalize := if_pos (by decide +kernel)
  have htemp : body.normalize.temperature ≠ 0 := by decide +kernel
  have hrow : ([1, 2] : List ℝ) ≠ [] := List.cons_ne_nil _ _
  have hq : ({ toRequest := promptToSequence mock body.normalize } : Sequence).toRequest
      = promptToSequence mock body.normalize := rfl
  obtain ⟨ids, hids, -, -, hkept⟩ := sampling_support Real.exp_pos hrow hbody hq
  refine ⟨ids, hids, (hkept 1 htemp rfl).2.1 1 2 rfl ?_⟩
  intro y hy
  rcases List.mem_cons.mp hy with rfl | hy
  · norm_num
  · exact (List.mem_singleton.mp hy).le

end Weights

end NanoKube
