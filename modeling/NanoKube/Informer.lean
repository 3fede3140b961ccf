import Mathlib.Data.List.Basic

/-!
# A copy that follows its object

An informer keeps a copy of an object of which it is told the versions, one after the other.
They are on their way for any time; some of them may be left out, but none is told after a
later one.  So the copy may be old, but with nothing on its way it is as the object is.

## Main definitions

* `Informer` — the copy, and the versions on their way to it.
* `Informer.tell`, `Informer.deliver` — the object is written, and a version arrives.

## Main results

* `Informer.latest_tell`, `Informer.latest_of_deliver` — the latest version is the object.
* `Informer.cached_of_coming` — **with nothing on its way the copy is the object.**
-/

namespace NanoKube

/-- A copy of an object, and the later versions that are on their way to it, the oldest first. -/
structure Informer (α : Type*) where
  cached : α
  coming : List α

namespace Informer

variable {α : Type*} {i i' : Informer α}

/-- Of an object that has not been written yet. -/
def start (a : α) : Informer α := ⟨a, []⟩

/-- The last version that the informer was told or will be. -/
def latest (i : Informer α) : α := i.coming.getLast?.getD i.cached

/-- The object is written.  There is no new version if it stays as it is. -/
def tell [DecidableEq α] (i : Informer α) (a : α) : Informer α :=
  if a = i.latest then i else { i with coming := i.coming ++ [a] }

/-- A version arrives, with some before it left out. -/
def deliver (i : Informer α) (skipped : ℕ) : Option (Informer α) :=
  match i.coming.drop skipped with
  | [] => none
  | a :: rest => some ⟨a, rest⟩

@[simp] theorem latest_start (a : α) : (start a).latest = a := rfl

@[simp] theorem coming_start (a : α) : (start a).coming = [] := rfl

/-- With nothing on its way the copy is the object. -/
theorem cached_of_coming (h : i.coming = []) : i.cached = i.latest := by
  simp [latest, h]

section Tell

variable [DecidableEq α]

@[simp] theorem latest_tell (i : Informer α) (a : α) : (i.tell a).latest = a := by
  unfold tell
  split
  · next h => exact h.symm
  · simp [latest]

theorem tell_latest {a : α} (h : i.latest = a) : i.tell a = i := if_pos h.symm

theorem coming_tell_eq_nil {a : α} : (i.tell a).coming = [] ↔ i.coming = [] ∧ a = i.latest := by
  unfold tell
  split
  · next h => simp [h]
  · next h => simp [h]

theorem length_coming_tell (i : Informer α) (a : α) :
    (i.tell a).coming.length ≤ i.coming.length + 1 := by
  unfold tell
  split
  · exact Nat.le_succ _
  · simp

end Tell

/-- What a version that arrives leaves to come. -/
theorem deliver_eq_some {skipped : ℕ} (h : i.deliver skipped = some i') :
    i.coming = i.coming.take skipped ++ i'.cached :: i'.coming := by
  unfold deliver at h
  split at h
  · cases h
  · next a rest hdrop =>
    obtain rfl := Option.some.inj h
    rw [← hdrop, List.take_append_drop]

theorem latest_of_deliver {skipped : ℕ} (h : i.deliver skipped = some i') :
    i'.latest = i.latest := by
  have hcoming := deliver_eq_some h
  rw [latest, latest, hcoming, List.getLast?_append, List.getLast?_cons]
  rfl

theorem length_of_deliver {skipped : ℕ} (h : i.deliver skipped = some i') :
    i'.coming.length < i.coming.length := by
  have hlength := congrArg List.length (deliver_eq_some h)
  rw [List.length_append, List.length_cons] at hlength
  omega

/-- As long as something is on its way, it can arrive. -/
theorem exists_deliver (h : i.coming ≠ []) : ∃ i', i.deliver 0 = some i' := by
  cases hcoming : i.coming with
  | nil => exact absurd hcoming h
  | cons a rest => exact ⟨⟨a, rest⟩, by simp [deliver, hcoming]⟩

end Informer

end NanoKube
