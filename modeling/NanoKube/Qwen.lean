import NanoKube.LeftPad
import NanoKube.RunLoop

/-!
# The runner that keeps a cache

`QwenRunner` feeds the model the whole padded batch when the loop says `is_prefill`,
and only the newest column otherwise, the rest being in the cache of the last call.
The loop, the cache and the padding never check each other: the loop compares the ids
of two batches, the cache is indexed by row, and the padding is computed anew each tick.

The model is a parameter.  What it does with the columns is its own affair; the one
thing relied on is `Model.records`, that the cache it returns holds the columns it was
given followed by the columns it was fed.

## Main definitions

* `padAndStack`, `qwenCall`, `qwenRunner` — one tick of the runner.
* `sample` — one result a row, whatever sampling a row leads to.
* `Shows` — what a call shows of a row.
* `Holds` — what the rows of the cache hold.

## Main results

* `columns_of_holds` — a call shows every row its own tokens, if it is a prefill or the
  cache holds all but the newest of them.
* `holds_of_columns` — and then the cache that comes back holds them.
-/

namespace NanoKube

/-- The three tensors of a call. -/
structure ModelInput where
  inputIds : List (List Token)
  attentionMask : List (List ℤ)
  positionIds : List (List ℤ)

/-- One call `self.model(..)`; `κ` is the type of a cache. -/
structure Call (κ : Type*) extends ModelInput where
  pastKeyValues : Option κ

/-- The columns the model sees in row `i`: those of the cache it is given, then those it is fed. -/
def Call.columns {κ : Type*} (cached : κ → ℕ → List (Token × ℤ)) (call : Call κ) (i : ℕ) :
    List (Token × ℤ) :=
  (call.pastKeyValues.elim [] fun cache => cached cache i) ++
    (call.inputIds[i]?.getD []).zip (call.positionIds[i]?.getD [])

/-- The mask of row `i`. -/
def Call.mask {κ : Type*} (call : Call κ) (i : ℕ) : List ℤ := call.attentionMask[i]?.getD []

/-- A model, as far as its cache goes. -/
structure Model (κ : Type*) where
  /-- The (id, position) columns a cache holds for a row. -/
  columns : κ → ℕ → List (Token × ℤ)
  /-- The `past_key_values` of the output. -/
  forward : Call κ → κ
  /-- What comes back is what was given, followed by what was fed. -/
  records : ∀ call i, i < call.inputIds.length →
    columns (forward call) i = call.columns columns i

/-- `_pad_and_stack`. -/
def padAndStack (padId : Token) (seqs : List Sequence) : ModelInput :=
  let width := widest (seqs.map Sequence.len)
  let attentionMask := seqs.map fun s => maskRow width s.tokenIds.length
  { inputIds := seqs.map fun s => leftPad width padId s.tokenIds
    attentionMask := attentionMask
    positionIds := attentionMask.map positionRow }

/-- `t[:, -1:]`. -/
def lastColumn {α : Type*} (rows : List (List α)) : List (List α) :=
  rows.map fun row => row.drop (row.length - 1)

/-- The call one `execute` makes.  The mask stays full-width when only the last column is fed. -/
def qwenCall {κ : Type*} (padId : Token) (cache : Option κ) (seqs : List Sequence)
    (isPrefill : Bool) : Call κ :=
  let cache := if isPrefill then none else cache
  let input := padAndStack padId seqs
  match cache with
  | none => { input with pastKeyValues := none }
  | some _ =>
    { inputIds := lastColumn input.inputIds
      attentionMask := input.attentionMask
      positionIds := lastColumn input.positionIds
      pastKeyValues := cache }

/-- `QwenRunner`: its state is its cache. -/
def qwenRunner {κ : Type*} (M : Model κ) (padId : Token) : ModelRunner (Option κ) where
  reset _ := none
  execute cache seqs batch :=
    some (M.forward (qwenCall padId cache (batch.seqs.map seqs) batch.isPrefill))

/-- How `_sample_row` can end. -/
inductive RowOutcome
  | picked (token : Token)
  /-- `torch.cuda.OutOfMemoryError`, which is re-raised. -/
  | outOfMemory
  /-- Any other exception, which costs this row alone. -/
  | failed
  deriving DecidableEq

/-- `_sample` from row `row` on: one result a row, or `none` when a row ran out of memory. -/
def sampleFrom (sampleRow : ℕ → SeqId → RowOutcome) : ℕ → List SeqId → Option (List (Option Token))
  | _, [] => some []
  | row, s :: seqs =>
    match sampleRow row s with
    | .picked token => (sampleFrom sampleRow (row + 1) seqs).map (some token :: ·)
    | .outOfMemory => none
    | .failed => (sampleFrom sampleRow (row + 1) seqs).map (none :: ·)

/-- `_sample`. -/
def sample (sampleRow : ℕ → SeqId → RowOutcome) (seqs : List SeqId) :
    Option (List (Option Token)) := sampleFrom sampleRow 0 seqs

/-! ### Sampling -/

theorem length_of_sampleFrom {sampleRow : ℕ → SeqId → RowOutcome} {seqs : List SeqId} {row : ℕ}
    {nextIds : List (Option Token)} (h : sampleFrom sampleRow row seqs = some nextIds) :
    nextIds.length = seqs.length := by
  induction seqs generalizing nextIds row with
  | nil =>
    cases h
    rfl
  | cons s seqs ih =>
    rw [sampleFrom] at h
    cases hrow : sampleRow row s with
    | picked token =>
      simp only [hrow, Option.map_eq_some_iff] at h
      obtain ⟨rest, hrest, rfl⟩ := h
      simp [ih hrest]
    | outOfMemory => simp [hrow] at h
    | failed =>
      simp only [hrow, Option.map_eq_some_iff] at h
      obtain ⟨rest, hrest, rfl⟩ := h
      simp [ih hrest]

/-- The row outcomes that lead to the given results. -/
def outcomeOf (nextIds : List (Option Token)) (row : ℕ) : RowOutcome :=
  (nextIds[row]?.getD none).elim .failed .picked

theorem sampleFrom_outcomeOf (nextIds : List (Option Token)) {seqs : List SeqId} {row : ℕ}
    (h : nextIds.length = row + seqs.length) :
    sampleFrom (fun row _ => outcomeOf nextIds row) row seqs = some (nextIds.drop row) := by
  induction seqs generalizing row with
  | nil => simp_all [sampleFrom]
  | cons s seqs ih =>
    rw [List.length_cons] at h
    have hlt : row < nextIds.length := by omega
    rw [sampleFrom, outcomeOf, ih (by omega), List.drop_eq_getElem_cons hlt,
      List.getElem?_eq_getElem hlt, Option.getD_some]
    cases nextIds[row] <;> rfl

/-- **Any results with one entry a row can come out of sampling**, and no others. -/
theorem exists_sample_iff {seqs : List SeqId} {nextIds : List (Option Token)} :
    (∃ sampleRow, sample sampleRow seqs = some nextIds) ↔ nextIds.length = seqs.length := by
  constructor
  · rintro ⟨sampleRow, h⟩
    exact length_of_sampleFrom h
  · intro h
    exact ⟨_, sampleFrom_outcomeOf nextIds (by omega)⟩

/-! ### The rows of a call -/

section Rows

variable {κ : Type*} {padId : Token} {seqs : List Sequence} {q : Sequence} {i : ℕ}

theorem length_tokenIds (q : Sequence) : q.tokenIds.length = q.len := List.length_append

theorem len_le_widest (hi : seqs[i]? = some q) :
    q.tokenIds.length ≤ widest (seqs.map Sequence.len) := by
  rw [length_tokenIds]
  exact le_widest (List.mem_map_of_mem (List.mem_of_getElem? hi))

/-- A row of tokens next to their positions, in a rectangle of the given width. -/
def paddedColumns (padId : Token) (width : ℕ) (toks : List Token) : List (Token × ℤ) :=
  leftPad width (padId, 0) (numbered toks)

/-- Ids and positions of a row, side by side. -/
theorem zip_padAndStack (hi : seqs[i]? = some q) :
    ((padAndStack padId seqs).inputIds[i]?.getD []).zip
        ((padAndStack padId seqs).positionIds[i]?.getD [])
      = paddedColumns padId (widest (seqs.map Sequence.len)) q.tokenIds := by
  have hlen : q.tokenIds.length
      = ((List.range q.tokenIds.length).map fun j : ℕ => (j : ℤ)).length := by simp
  simp only [padAndStack, List.getElem?_map, hi, Option.map_some, Option.getD_some,
    positionRow_mask, zip_leftPad _ _ _ hlen, paddedColumns, numbered]

/-- Whether or not it is a prefill, the mask is that of the whole row. -/
theorem mask_qwenCall (cache : Option κ) (isPrefill : Bool) (hi : seqs[i]? = some q) :
    (qwenCall padId cache seqs isPrefill).mask i
      = maskRow (widest (seqs.map Sequence.len)) q.tokenIds.length := by
  have hmask : (padAndStack padId seqs).attentionMask[i]?.getD []
      = maskRow (widest (seqs.map Sequence.len)) q.tokenIds.length := by
    simp only [padAndStack, List.getElem?_map, hi, Option.map_some, Option.getD_some]
  unfold qwenCall Call.mask
  dsimp only
  split <;> exact hmask

/-- With no cache the whole row is fed. -/
theorem columns_prefill (cols : κ → ℕ → List (Token × ℤ)) (hi : seqs[i]? = some q)
    {cache : Option κ} {isPrefill : Bool} (hnone : isPrefill = true ∨ cache = none) :
    (qwenCall padId cache seqs isPrefill).columns cols i
      = paddedColumns padId (widest (seqs.map Sequence.len)) q.tokenIds := by
  have hcache : (if isPrefill then none else cache) = none := by
    rcases hnone with rfl | rfl <;> simp
  unfold qwenCall Call.columns
  dsimp only
  rw [hcache]
  exact zip_padAndStack hi

theorem getD_lastColumn {α : Type*} (rows : List (List α)) (i : ℕ) :
    (lastColumn rows)[i]?.getD []
      = (rows[i]?.getD []).drop ((rows[i]?.getD []).length - 1) := by
  rw [lastColumn, List.getElem?_map]
  cases rows[i]? with
  | none => rfl
  | some row => rfl

theorem zip_lastColumn {xs : List Token} {ys : List ℤ} (h : xs.length = ys.length) :
    (xs.drop (xs.length - 1)).zip (ys.drop (ys.length - 1))
      = (xs.zip ys).drop ((xs.zip ys).length - 1) := by
  rw [List.zip_eq_zipWith, List.zip_eq_zipWith, List.drop_zipWith, List.length_zipWith, ← h,
    Nat.min_self]

/-- **A decode tick.**  The cache holds all but the newest token of the row, in a rectangle one
column narrower: cache and fed column together are what a prefill would feed. -/
theorem columns_decode (cols : κ → ℕ → List (Token × ℤ)) (hi : seqs[i]? = some q) {cache : κ}
    {toks : List Token} {token : Token} {width : ℕ} (hq : q.tokenIds = toks ++ [token])
    (hwidth : widest (seqs.map Sequence.len) = width + 1)
    (hcache : cols cache i = paddedColumns padId width toks) :
    (qwenCall padId (some cache) seqs false).columns cols i
      = paddedColumns padId (widest (seqs.map Sequence.len)) q.tokenIds := by
  have hlen : ((padAndStack padId seqs).inputIds[i]?.getD []).length
      = ((padAndStack padId seqs).positionIds[i]?.getD []).length := by
    have hle := len_le_widest hi
    simp only [padAndStack, List.getElem?_map, hi, Option.map_some, Option.getD_some,
      positionRow_mask]
    rw [length_leftPad hle, length_leftPad (by simpa using hle)]
  have hfed : ((lastColumn (padAndStack padId seqs).inputIds)[i]?.getD []).zip
      ((lastColumn (padAndStack padId seqs).positionIds)[i]?.getD [])
        = [(token, (toks.length : ℤ))] := by
    rw [getD_lastColumn, getD_lastColumn, zip_lastColumn hlen, zip_padAndStack hi, hwidth, hq,
      paddedColumns, numbered_snoc, leftPad_snoc]
    simp
  unfold qwenCall Call.columns
  dsimp only
  rw [if_neg (by simp)]
  dsimp only
  rw [hfed, Option.elim_some, hcache, hwidth, hq, paddedColumns, paddedColumns, numbered_snoc,
    leftPad_snoc]

/-- What a call shows of row `i`: the columns its mask lets through. -/
def Call.visible (M : Model κ) (call : Call κ) (i : ℕ) : List (Token × ℤ) :=
  keepMasked (call.columns M.columns i) (call.mask i)

/-- Row `i` of the call shows the model exactly these tokens. -/
structure Shows (M : Model κ) (call : Call κ) (i : ℕ) (toks : List Token) : Prop where
  /-- Columns in the cache and columns fed are as many as the mask is wide. -/
  width : (call.columns M.columns i).length = (call.mask i).length
  /-- What the mask leaves is the tokens, in order, numbered from 0. -/
  visible : call.visible M i = numbered toks
  /-- The newest token is the last column, and the mask lets it through. -/
  newest : (call.columns M.columns i).getLast? = (numbered toks).getLast?
  newest_visible : (call.mask i).getLast? = some 1

theorem shows_of_padded {M : Model κ} {call : Call κ} {width : ℕ} {toks : List Token}
    (hcols : call.columns M.columns i = paddedColumns padId width toks)
    (hmask : call.mask i = maskRow width toks.length) (hne : toks ≠ [])
    (hle : toks.length ≤ width) : Shows M call i toks := by
  have hcount : toks.length ≠ 0 := fun h => hne (List.length_eq_zero_iff.mp h)
  have hones : List.replicate toks.length (1 : ℤ) ≠ [] := by simpa using hne
  have hrow : (numbered toks).length ≤ width := by simpa using hle
  have hbits : (List.replicate toks.length (1 : ℤ)).length ≤ width := by simpa using hle
  refine ⟨?_, ?_, ?_, ?_⟩
  · rw [hcols, hmask, paddedColumns, maskRow, length_leftPad hrow, length_leftPad hbits]
  · rw [Call.visible, hcols, hmask, paddedColumns, ← length_numbered toks, keepMasked_leftPad]
  · rw [hcols, paddedColumns, getLast?_leftPad _ _ (by simpa using hne)]
  · rw [hmask, maskRow, getLast?_leftPad _ _ hones, List.getLast?_replicate, if_neg hcount]

end Rows

/-! ### What the cache holds -/

section Cache

variable {κ : Type*} {M : Model κ} {padId : Token}

/-- Row `i` of the cache holds the tokens `seen` of member `i`, padded to the widest of them. -/
def Holds (M : Model κ) (padId : Token) (cache : Option κ) (members : List SeqId)
    (seen : SeqId → List Token) : Prop :=
  ∃ c, cache = some c ∧ ∀ i s, members[i]? = some s →
    M.columns c i = paddedColumns padId (widest (members.map fun s => (seen s).length)) (seen s)

theorem Holds.congr {cache : Option κ} {members : List SeqId} {seen seen' : SeqId → List Token}
    (h : Holds M padId cache members seen) (hseen : ∀ s ∈ members, seen' s = seen s) :
    Holds M padId cache members seen' := by
  obtain ⟨c, hc, hrows⟩ := h
  refine ⟨c, hc, ?_⟩
  intro i s hi
  have hlens : (members.map fun s => (seen' s).length) = members.map fun s => (seen s).length :=
    List.map_congr_left fun r hr => by rw [hseen r hr]
  rw [hlens, hseen s (List.mem_of_getElem? hi)]
  exact hrows i s hi

theorem length_inputIds_qwenCall (cache : Option κ) (seqs : List Sequence) (isPrefill : Bool) :
    (qwenCall padId cache seqs isPrefill).inputIds.length = seqs.length := by
  unfold qwenCall
  dsimp only
  split <;> simp [padAndStack, lastColumn]

/-- **A call leads to the next cache.**  When the call shows every row its own tokens, the cache
that comes back holds them. -/
theorem holds_of_columns {cache : Option κ} {batch : List SeqId} {heap : SeqId → Sequence}
    {isPrefill : Bool}
    (h : ∀ i s, batch[i]? = some s →
      (qwenCall padId cache (batch.map heap) isPrefill).columns M.columns i
        = paddedColumns padId (widest ((batch.map heap).map Sequence.len)) (heap s).tokenIds) :
    Holds M padId ((qwenRunner M padId).execute cache heap ⟨batch, isPrefill⟩) batch
      fun s => (heap s).tokenIds := by
  refine ⟨_, rfl, ?_⟩
  intro i s hi
  have hlt : i < (qwenCall padId cache (batch.map heap) isPrefill).inputIds.length := by
    rw [length_inputIds_qwenCall, List.length_map]
    exact (List.getElem?_eq_some_iff.mp hi).1
  rw [M.records _ i hlt, h i s hi, List.map_map]
  simp only [Function.comp_def, length_tokenIds]

/-- **The next call shows every row its own tokens**, if it is a prefill, or if the cache holds
all but the newest token of each row. -/
theorem columns_of_holds {cache : Option κ} {members batch : List SeqId} {heap : SeqId → Sequence}
    (hcache : batch = members → ∃ seen, Holds M padId cache members seen ∧
      ∀ s ∈ members, ∃ token, (heap s).tokenIds = seen s ++ [token])
    {i : ℕ} {s : SeqId} (hi : batch[i]? = some s) :
    (qwenCall padId cache (batch.map heap) (decide (batch ≠ members))).columns M.columns i
      = paddedColumns padId (widest ((batch.map heap).map Sequence.len)) (heap s).tokenIds := by
  have hrow : (batch.map heap)[i]? = some (heap s) := by rw [List.getElem?_map, hi, Option.map_some]
  by_cases hm : batch = members
  · obtain ⟨seen, ⟨c, rfl, hc⟩, hseen⟩ := hcache hm
    subst hm
    have hmem : s ∈ batch := List.mem_of_getElem? hi
    obtain ⟨token, htok⟩ := hseen s hmem
    -- every row has grown by one token since the cache was written
    have hlens : (batch.map heap).map Sequence.len
        = (batch.map fun s => (seen s).length).map (· + 1) := by
      rw [List.map_map, List.map_map]
      refine List.map_congr_left fun r hr => ?_
      obtain ⟨token, htok⟩ := hseen r hr
      rw [Function.comp_apply, ← length_tokenIds, htok, List.length_append]
      rfl
    have hne : batch.map (fun s => (seen s).length) ≠ [] := by
      intro h
      rw [List.map_eq_nil_iff] at h
      simp [h] at hmem
    have hwidth : widest ((batch.map heap).map Sequence.len)
        = widest (batch.map fun s => (seen s).length) + 1 := by rw [hlens, widest_succ hne]
    rw [decide_eq_false (by simp)]
    exact columns_decode M.columns hrow htok hwidth (hc i s hi)
  · exact columns_prefill M.columns hrow (Or.inl (decide_eq_true hm))

end Cache

end NanoKube
