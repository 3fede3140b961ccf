import Mathlib.Data.List.Sort

/-!
# The largest entries of a list

The `k`-th largest entry of a list, counted with multiplicity: fewer than `k` entries are
larger, and at least `k` are as large.  The entries that are at least as large as it
are those that keeping the top `k` means to keep; more than `k` of them if the last place is
shared.

## Main definitions

* `IsKthLargest l k v` — `v` is the `k`-th largest entry of `l`.
* `topk l k` — the `k` largest entries, in descending order.

## Main results

* `getLast?_topk` — the last of the `k` largest is the `k`-th largest.
* `IsKthLargest.unique`, `IsKthLargest.anti` — there is one, and it falls with `k`.
* `IsKthLargest.map` — it is kept by strictly monotone maps.
-/

namespace TopK

variable {α β : Type*} [LinearOrder α] [LinearOrder β] {l l' : List α} {k k' : ℕ} {v v' : α}

/-- Fewer than `k` entries are larger than `v`, and `k` or more are at least `v`. -/
structure IsKthLargest (l : List α) (k : ℕ) (v : α) : Prop where
  mem : v ∈ l
  larger : l.countP (fun x => decide (v < x)) < k
  atLeast : k ≤ l.countP fun x => decide (v ≤ x)

/-- The `k` largest entries, in descending order. -/
def topk (l : List α) (k : ℕ) : List α := (l.insertionSort (· ≥ ·)).take k

theorem IsKthLargest.perm (h : IsKthLargest l k v) (hl : l.Perm l') : IsKthLargest l' k v where
  mem := hl.mem_iff.mp h.mem
  larger := hl.countP_eq _ ▸ h.larger
  atLeast := hl.countP_eq _ ▸ h.atLeast

/-- **The threshold falls as more entries are kept.** -/
theorem IsKthLargest.anti (h : IsKthLargest l k v) (h' : IsKthLargest l k' v') (hk : k ≤ k') :
    v' ≤ v := by
  by_contra hlt
  rw [not_le] at hlt
  have hsub : l.countP (fun x => decide (v' ≤ x)) ≤ l.countP fun x => decide (v < x) := by
    apply List.countP_mono_left
    intro x _ hx
    simp only [decide_eq_true_eq] at hx ⊢
    exact lt_of_lt_of_le hlt hx
  have := h.larger
  have := h'.atLeast
  omega

theorem IsKthLargest.unique (h : IsKthLargest l k v) (h' : IsKthLargest l k v') : v = v' :=
  le_antisymm (h'.anti h le_rfl) (h.anti h' le_rfl)

/-- The largest entry is the first largest. -/
theorem IsKthLargest.le_of_one (h : IsKthLargest l 1 v) {x : α} (hx : x ∈ l) : x ≤ v := by
  have hnone : l.countP (fun x => decide (v < x)) = 0 := by have := h.larger; omega
  rw [List.countP_eq_zero] at hnone
  simpa using hnone x hx

/-- **Order is all that counts.** -/
theorem IsKthLargest.map {f : α → β} (hf : StrictMono f) (h : IsKthLargest l k v) :
    IsKthLargest (l.map f) k (f v) := by
  have hlt : (fun x => decide (f v < x)) ∘ f = fun x => decide (v < x) := by
    funext x
    simp [hf.lt_iff_lt]
  have hle : (fun x => decide (f v ≤ x)) ∘ f = fun x => decide (v ≤ x) := by
    funext x
    simp [hf.le_iff_le]
  refine ⟨List.mem_map_of_mem h.mem, ?_, ?_⟩
  · rw [List.countP_map, hlt]
    exact h.larger
  · rw [List.countP_map, hle]
    exact h.atLeast

/-- In a descending list the entry in place `i` has at most `i` entries above it. -/
theorem isKthLargest_of_descending {s : List α} (hs : s.Pairwise (· ≥ ·)) {i : ℕ}
    (hi : i < s.length) : IsKthLargest s (i + 1) s[i] := by
  have hsplit : s = s.take i ++ s[i] :: s.drop (i + 1) := by
    rw [List.getElem_cons_drop, List.take_append_drop]
  have hpair : (s.take i ++ s[i] :: s.drop (i + 1)).Pairwise (· ≥ ·) := hsplit ▸ hs
  rw [List.pairwise_append, List.pairwise_cons] at hpair
  obtain ⟨-, ⟨hafter, -⟩, hbefore⟩ := hpair
  have hlen : (s.take i).length = i := by rw [List.length_take]; omega
  refine ⟨List.getElem_mem hi, ?_, ?_⟩
  · -- the entries that are larger are among the first `i`
    have hrest : (s[i] :: s.drop (i + 1)).countP (fun x => decide (s[i] < x)) = 0 := by
      rw [List.countP_eq_zero]
      intro x hx
      rcases List.mem_cons.mp hx with rfl | hx
      · simp
      · simpa using hafter x hx
    have hfirst := List.countP_le_length (p := fun x => decide (s[i] < x)) (l := s.take i)
    have hcount := congrArg (List.countP fun x => decide (s[i] < x)) hsplit
    rw [List.countP_append, hrest] at hcount
    omega
  · have hall : (s.take i).countP (fun x => decide (s[i] ≤ x)) = i := by
      rw [List.countP_eq_length.mpr, hlen]
      intro x hx
      simpa using hbefore x hx s[i] List.mem_cons_self
    have hcount := congrArg (List.countP fun x => decide (s[i] ≤ x)) hsplit
    rw [List.countP_append, hall, List.countP_cons_of_pos (by simp)] at hcount
    omega

/-- **The last of the `k` largest entries is the `k`-th largest.** -/
theorem getLast?_topk (hk : 1 ≤ k) (hkl : k ≤ l.length) :
    ∃ v, (topk l k).getLast? = some v ∧ IsKthLargest l k v := by
  have hperm := List.perm_insertionSort (· ≥ ·) l
  have hi : k - 1 < (l.insertionSort (· ≥ ·)).length := by rw [hperm.length_eq]; omega
  have hkth := isKthLargest_of_descending (List.pairwise_insertionSort (· ≥ ·) l) hi
  refine ⟨(l.insertionSort (· ≥ ·))[k - 1], ?_, ?_⟩
  · have hlen : (topk l k).length = k := by
      rw [topk, List.length_take, hperm.length_eq]
      omega
    rw [List.getLast?_eq_getElem?, hlen, topk, List.getElem?_take_of_lt (by omega),
      List.getElem?_eq_getElem hi]
  · have hsucc : k - 1 + 1 = k := by omega
    rw [hsucc] at hkth
    exact hkth.perm hperm

end TopK
