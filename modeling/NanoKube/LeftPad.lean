import Mathlib.Data.Int.Notation
import Mathlib.Data.List.Basic

/-!
# Left-padded rows

Ragged rows are stacked into a rectangle by padding on the left.  The mask of a
padded row is 0 on the padding and 1 on the row, and the positions are the running
sum of the mask, less one, clamped at 0: so the padding shares position 0 with the
first real entry, and the real entries count up from 0.

## Main definitions

* `leftPad width pad row` — the padded row.
* `cumsum`, `positionRow` — running sums, and positions read off a mask.
* `numbered row` — the entries of a row next to their indices.
* `keepMasked columns mask` — the columns a mask lets through.

## Main results

* `positionRow_mask` — the positions of a padded row are padded counting numbers.
* `leftPad_snoc` — a row that grows by one entry in a rectangle that grows by one
  column keeps its old columns.
* `keepMasked_leftPad` — the mask of a padded row lets exactly the row through.
-/

namespace NanoKube

variable {α β : Type*}

/-- `[pad] * (width - len(row)) + row`. -/
def leftPad (width : ℕ) (pad : α) (row : List α) : List α :=
  List.replicate (width - row.length) pad ++ row

theorem length_leftPad {width : ℕ} {row : List α} (h : row.length ≤ width) (pad : α) :
    (leftPad width pad row).length = width := by
  rw [leftPad, List.length_append, List.length_replicate]
  omega

/-- **A new column on the right.**  Row and rectangle grow together: the old columns stay. -/
theorem leftPad_snoc (width : ℕ) (pad : α) (row : List α) (a : α) :
    leftPad (width + 1) pad (row ++ [a]) = leftPad width pad row ++ [a] := by
  have hpad : width + 1 - (row ++ [a]).length = width - row.length := by
    rw [List.length_append, List.length_singleton]
    omega
  rw [leftPad, leftPad, hpad, List.append_assoc]

theorem zip_leftPad (width : ℕ) (a : α) (b : β) {xs : List α} {ys : List β}
    (h : xs.length = ys.length) :
    (leftPad width a xs).zip (leftPad width b ys) = leftPad width (a, b) (xs.zip ys) := by
  rw [leftPad, leftPad, leftPad, List.zip_append (by simp [h]), ← h, List.length_zip, ← h,
    Nat.min_self, List.zip_replicate, Nat.min_self]

/-- The last entry of a padded row is the last entry of the row. -/
theorem getLast?_leftPad (width : ℕ) (pad : α) {row : List α} (h : row ≠ []) :
    (leftPad width pad row).getLast? = row.getLast? := by
  rw [leftPad, List.getLast?_append_of_ne_nil _ h]

/-! ### The widest row -/

/-- `max` of the lengths. -/
def widest (lens : List ℕ) : ℕ := lens.foldr max 0

theorem le_widest {lens : List ℕ} {n : ℕ} (h : n ∈ lens) : n ≤ widest lens := by
  induction lens with
  | nil => cases h
  | cons m lens ih =>
    have hcons : widest (m :: lens) = max m (widest lens) := rfl
    rcases List.mem_cons.mp h with rfl | h
    · omega
    · have := ih h
      omega

/-- When every row grows by one, so does the widest. -/
theorem widest_succ {lens : List ℕ} (h : lens ≠ []) :
    widest (lens.map (· + 1)) = widest lens + 1 := by
  induction lens with
  | nil => exact absurd rfl h
  | cons m lens ih =>
    have hcons : ∀ k ks, widest (k :: ks) = max k (widest ks) := fun _ _ => rfl
    rw [List.map_cons, hcons, hcons]
    cases lens with
    | nil => simp [widest]
    | cons k ks =>
      rw [ih (by simp)]
      omega

/-! ### Positions -/

/-- Running sums on top of `acc`. -/
def cumsumFrom : ℤ → List ℤ → List ℤ
  | _, [] => []
  | acc, x :: xs => (acc + x) :: cumsumFrom (acc + x) xs

/-- `cumsum`. -/
def cumsum (xs : List ℤ) : List ℤ := cumsumFrom 0 xs

/-- `(mask.cumsum(-1) - 1).clamp(min=0)`. -/
def positionRow (mask : List ℤ) : List ℤ := (cumsum mask).map fun c => max (c - 1) 0

/-- The mask of a row of `n` entries, padded to `width`. -/
def maskRow (width n : ℕ) : List ℤ := leftPad width 0 (List.replicate n 1)

theorem cumsumFrom_zeros (acc : ℤ) (xs : List ℤ) :
    ∀ k : ℕ, cumsumFrom acc (List.replicate k 0 ++ xs) =
      List.replicate k acc ++ cumsumFrom acc xs := by
  intro k
  induction k with
  | zero => rfl
  | succ k ih =>
    rw [List.replicate_succ, List.cons_append, cumsumFrom, Int.add_zero, ih, List.replicate_succ,
      List.cons_append]

theorem cumsumFrom_ones : ∀ (n : ℕ) (acc : ℤ),
    cumsumFrom acc (List.replicate n 1) = (List.range n).map fun j : ℕ => acc + 1 + (j : ℤ) := by
  intro n
  induction n with
  | zero => intro acc; rfl
  | succ n ih =>
    intro acc
    rw [List.replicate_succ, cumsumFrom, ih, List.range_succ_eq_map, List.map_cons, List.map_map]
    refine congrArg₂ List.cons (by simp) (List.map_congr_left fun j _ => ?_)
    have hj : ((Nat.succ j : ℕ) : ℤ) = (j : ℤ) + 1 := by omega
    rw [Function.comp_apply, hj]
    omega

/-- **Positions skip the padding**: they are 0 on it and count up from 0 after it. -/
theorem positionRow_mask (width n : ℕ) :
    positionRow (maskRow width n) = leftPad width 0 ((List.range n).map fun j : ℕ => (j : ℤ)) := by
  have hlen : ((List.range n).map fun j : ℕ => (j : ℤ)).length =
      (List.replicate n (1 : ℤ)).length := by simp
  rw [positionRow, cumsum, maskRow, leftPad, leftPad, cumsumFrom_zeros, cumsumFrom_ones, hlen,
    List.map_append, List.map_replicate, List.map_map]
  refine congrArg₂ (· ++ ·) rfl (List.map_congr_left fun j _ => ?_)
  have hj : (0 : ℤ) + 1 + j - 1 = j := by omega
  rw [Function.comp_apply, hj]
  omega

/-! ### Numbered entries -/

/-- The entries of a row next to their indices. -/
def numbered (row : List α) : List (α × ℤ) :=
  row.zip ((List.range row.length).map fun j : ℕ => (j : ℤ))

@[simp] theorem length_numbered (row : List α) : (numbered row).length = row.length := by
  simp [numbered]

@[simp] theorem numbered_eq_nil {row : List α} : numbered row = [] ↔ row = [] := by
  rw [← List.length_eq_zero_iff, length_numbered, List.length_eq_zero_iff]

theorem numbered_snoc (row : List α) (a : α) :
    numbered (row ++ [a]) = numbered row ++ [(a, (row.length : ℤ))] := by
  have hlen : row.length = ((List.range row.length).map fun j : ℕ => (j : ℤ)).length := by simp
  rw [numbered, List.length_append, List.length_singleton, List.range_succ, List.map_append,
    List.zip_append hlen]
  rfl

/-! ### What the mask lets through -/

/-- The columns whose mask entry is 1. -/
def keepMasked (columns : List α) (mask : List ℤ) : List α :=
  ((columns.zip mask).filter fun c => c.2 = 1).map Prod.fst

/-- **The mask of a padded row lets exactly the row through.** -/
theorem keepMasked_leftPad (width : ℕ) (pad : α) (row : List α) :
    keepMasked (leftPad width pad row) (maskRow width row.length) = row := by
  have hlen : row.length = (List.replicate row.length (1 : ℤ)).length := by simp
  rw [keepMasked, maskRow, zip_leftPad width pad 0 hlen, leftPad, List.filter_append,
    List.filter_replicate]
  have hkeep : ((row.zip (List.replicate row.length (1 : ℤ))).filter fun c => c.2 = 1)
      = row.zip (List.replicate row.length (1 : ℤ)) := by
    refine List.filter_eq_self.mpr fun c hc => ?_
    simpa using (List.mem_replicate.mp (List.of_mem_zip hc).2).2
  rw [hkeep, List.map_append, List.map_fst_zip (by simp)]
  simp

end NanoKube
