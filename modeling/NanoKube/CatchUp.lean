import Mathlib.Data.List.Basic

/-!
# Catching up with a growing text

A reader holds what it has so far, is shown a text from time to time, and appends
whatever the text has beyond the length of what it holds.  If every text shown is a
beginning of the last one, the reader ends up with the last one.  The reader never
looks back: an entry it took from a text that is not a beginning of the last one stays.

## Main definitions

* `catchUp S T` — `S` followed by what `T` has beyond the length of `S`.
* `Tail r S C` — `S` is no longer than `C`, except for one mark `r` in the next place.

## Main results

* `catchUp_prefix` — beginnings of one text stay beginnings of it.
* `Tail.catchUp` — texts that are settled but for a mark at their end.
-/

namespace NanoKube

variable {α : Type*}

/-- Append what the text has beyond the length of what is held. -/
def catchUp (S T : List α) : List α := S ++ T.drop S.length

theorem prefix_catchUp (S T : List α) : S <+: catchUp S T := List.prefix_append ..

/-- What is held is never taken back. -/
theorem getElem?_catchUp {S T : List α} {k : ℕ} {c : α} (h : S[k]? = some c) :
    (catchUp S T)[k]? = some c := by
  obtain ⟨hk, rfl⟩ := List.getElem?_eq_some_iff.mp h
  exact List.prefix_iff_getElem?.mp (prefix_catchUp S T) k hk

theorem length_catchUp (S T : List α) : (catchUp S T).length = max S.length T.length := by
  rw [catchUp, List.length_append, List.length_drop]
  omega

theorem catchUp_of_length_le {S T : List α} (h : T.length ≤ S.length) : catchUp S T = S := by
  rw [catchUp, List.drop_eq_nil_of_le h, List.append_nil]

theorem catchUp_of_beginning {S T : List α} (h : S <+: T) : catchUp S T = T := by
  obtain ⟨rest, rfl⟩ := h
  rw [catchUp, List.drop_left]

/-- **Beginnings of one text.**  What is held stays a beginning as long as the texts shown are. -/
theorem catchUp_prefix {S T F : List α} (hS : S <+: F) (hT : T <+: F) : catchUp S T <+: F := by
  rcases List.prefix_or_prefix_of_prefix hS hT with h | h
  · rwa [catchUp_of_beginning h]
  · rwa [catchUp_of_length_le h.length_le]

/-! ### A mark at the end -/

/-- `S` is no longer than `C`, except that it may hold one mark `r` in the place after `C`. -/
structure Tail (r : α) (S C : List α) : Prop where
  length_le : S.length ≤ C.length + 1
  mark : S.length = C.length + 1 → S[C.length]? = some r

theorem Tail.nil (r : α) (C : List α) : Tail r [] C where
  length_le := by simp
  mark := by simp

/-- Once more is settled, there is room again. -/
theorem Tail.grow {r : α} {S C C' : List α} (h : Tail r S C) (hC : C <+: C') : Tail r S C' := by
  have hle := hC.length_le
  have hlen := h.length_le
  by_cases heq : C.length = C'.length
  · rwa [← hC.eq_of_length heq]
  · refine ⟨by omega, ?_⟩
    intro hmark
    omega

/-- A text that is settled, or settled but for a mark at its end. -/
theorem Tail.catchUp {r : α} {S C P : List α} (h : Tail r S C) (hP : P = [] ∨ P = [r]) :
    Tail r (catchUp S (C ++ P)) C := by
  have hlen := h.length_le
  by_cases hS : S.length = C.length + 1
  · -- the mark is there already
    rw [catchUp_of_length_le]
    · exact h
    · rcases hP with rfl | rfl
      · rw [List.append_nil]
        omega
      · rw [List.length_append, List.length_singleton]
        omega
  · have hroom : S.length ≤ C.length := by omega
    refine ⟨?_, ?_⟩
    · rw [length_catchUp]
      rcases hP with rfl | rfl
      · rw [List.append_nil]
        omega
      · rw [List.length_append, List.length_singleton]
        omega
    · intro hmark
      rw [length_catchUp] at hmark
      rcases hP with rfl | rfl
      · rw [List.append_nil] at hmark
        omega
      · have hdrop : C.length - S.length ≤ C.length := by omega
        rw [NanoKube.catchUp, List.getElem?_append_right hroom, List.getElem?_drop]
        have hidx : S.length + (C.length - S.length) = C.length := by omega
        rw [hidx, List.getElem?_concat_length]

/-- **A mark that was shown stays**: the place after `C` holds it. -/
theorem Tail.marked {r : α} {S C : List α} (h : Tail r S C) :
    (NanoKube.catchUp S (C ++ [r]))[C.length]? = some r := by
  have ht := h.catchUp (Or.inr (Eq.refl [r]))
  apply ht.mark
  have hle := ht.length_le
  rw [length_catchUp, List.length_append, List.length_singleton] at hle ⊢
  omega

end NanoKube
