import NanoKube.LeftPad

/-!
# A causal decoder, with and without a cache

The state of a column is computed from the column and from the states of the columns
before it that its row may attend to.  A row can be computed all at once, or column by
column on top of the states of an earlier call; it can stand alone, or be padded on the
left with columns that its mask hides.

## Main definitions

* `Decoder` — how the state of one column is computed.
* `Decoder.feed` — the states of a row under a mask, on top of those it has already.
* `Decoder.plain` — the states of a row that sees all of itself.

## Main results

* `feed_append` — a row fed in two calls.
* `feed_mask_append` — a mask that grows on the right does not change what was computed.
* `feed_leftPad` — **padding changes nothing**: a padded row ends in the states of the
  row alone.
-/

namespace NanoKube

/-- A causal decoder: the keys and values of a column, in every layer, from those it attends to. -/
structure Decoder (γ S : Type*) where
  attend : List S → γ → S
  /-- The column a state is that of. -/
  column : S → γ
  column_attend : ∀ seen c, column (attend seen c) = c

namespace Decoder

variable {γ S : Type*} (D : Decoder γ S)

/-- The states of a row, the new columns being fed on top of the states so far.  The mask is that of
the whole row. -/
def feed (mask : List ℤ) : List S → List γ → List S
  | states, [] => states
  | states, c :: cs => feed mask (states ++ [D.attend (keepMasked states mask) c]) cs

/-- The states of a row without a mask. -/
def plain : List S → List γ → List S
  | states, [] => states
  | states, c :: cs => plain (states ++ [D.attend states c]) cs

variable {D}

@[simp] theorem feed_nil (mask : List ℤ) (states : List S) : D.feed mask states [] = states := rfl

theorem feed_cons (mask : List ℤ) (states : List S) (c : γ) (cs : List γ) :
    D.feed mask states (c :: cs)
      = D.feed mask (states ++ [D.attend (keepMasked states mask) c]) cs := rfl

theorem plain_cons (states : List S) (c : γ) (cs : List γ) :
    D.plain states (c :: cs) = D.plain (states ++ [D.attend states c]) cs := rfl

/-- **Two calls in a row** are one call with all of the columns. -/
theorem feed_append (mask : List ℤ) (cs ds : List γ) : ∀ states : List S,
    D.feed mask states (cs ++ ds) = D.feed mask (D.feed mask states cs) ds := by
  induction cs with
  | nil => intro states; rfl
  | cons c cs ih =>
    intro states
    rw [List.cons_append, feed_cons, feed_cons, ih]

/-- Feeding keeps the columns, in order. -/
theorem map_column_feed (mask : List ℤ) (cs : List γ) : ∀ states : List S,
    (D.feed mask states cs).map D.column = states.map D.column ++ cs := by
  induction cs with
  | nil => intro states; simp
  | cons c cs ih =>
    intro states
    rw [feed_cons, ih, List.map_append, List.map_singleton, D.column_attend, List.append_assoc,
      List.singleton_append]

theorem length_feed (mask : List ℤ) (states : List S) (cs : List γ) :
    (D.feed mask states cs).length = states.length + cs.length := by
  have h := congrArg List.length (map_column_feed (D := D) mask cs states)
  simpa using h

theorem length_plain (cs : List γ) : ∀ states : List S,
    (D.plain states cs).length = states.length + cs.length := by
  induction cs with
  | nil => intro states; rfl
  | cons c cs ih =>
    intro states
    rw [plain_cons, ih, List.length_append, List.length_singleton, List.length_cons]
    omega

/-! ### Masks -/

theorem zip_append_right {α β : Type*} : ∀ {xs : List α} {ys : List β} (zs : List β),
    xs.length ≤ ys.length → xs.zip (ys ++ zs) = xs.zip ys
  | [], _, _, _ => by simp
  | _ :: _, [], _, h => by simp at h
  | x :: xs, y :: ys, zs, h => by
    rw [List.cons_append, List.zip_cons_cons, List.zip_cons_cons,
      zip_append_right zs (by simpa using h)]

/-- The mask of later columns does not matter to the earlier ones. -/
theorem keepMasked_mask_append {xs : List S} {mask : List ℤ} (more : List ℤ)
    (h : xs.length ≤ mask.length) : keepMasked xs (mask ++ more) = keepMasked xs mask := by
  rw [keepMasked, keepMasked, zip_append_right more h]

/-- **What was computed stays**, when the mask grows on the right. -/
theorem feed_mask_append {mask : List ℤ} (more : List ℤ) (cs : List γ) : ∀ {states : List S},
    states.length + cs.length ≤ mask.length →
      D.feed (mask ++ more) states cs = D.feed mask states cs := by
  induction cs with
  | nil => intro states _; rfl
  | cons c cs ih =>
    intro states h
    rw [List.length_cons] at h
    rw [feed_cons, feed_cons, keepMasked_mask_append more (by omega)]
    apply ih
    rw [List.length_append, List.length_singleton]
    omega

/-- Behind hidden columns a row sees exactly itself. -/
theorem keepMasked_hidden (pads xs : List S) {n : ℕ} (h : xs.length ≤ n) :
    keepMasked (pads ++ xs) (List.replicate pads.length 0 ++ List.replicate n 1) = xs := by
  obtain ⟨k, rfl⟩ : ∃ k, n = xs.length + k := ⟨n - xs.length, by omega⟩
  rw [← List.replicate_append_replicate, ← List.append_assoc,
    keepMasked_mask_append _ (by simp), keepMasked, List.zip_append (by simp), List.filter_append,
    List.map_append]
  have hpads : (pads.zip (List.replicate pads.length (0 : ℤ))).filter (fun c => c.2 = 1) = [] := by
    refine List.filter_eq_nil_iff.mpr fun c hc => ?_
    rw [(List.mem_replicate.mp (List.of_mem_zip hc).2).2]
    decide
  have hrow : (xs.zip (List.replicate xs.length (1 : ℤ))).filter (fun c => c.2 = 1)
      = xs.zip (List.replicate xs.length 1) := by
    refine List.filter_eq_self.mpr fun c hc => ?_
    simpa using (List.mem_replicate.mp (List.of_mem_zip hc).2).2
  rw [hpads, hrow, List.map_nil, List.nil_append, List.map_fst_zip (by simp)]

/-- A row fed behind hidden columns is computed as if they were not there. -/
theorem feed_hidden (pads : List S) {n : ℕ} (cs : List γ) : ∀ {xs : List S},
    xs.length + cs.length ≤ n →
      D.feed (List.replicate pads.length 0 ++ List.replicate n 1) (pads ++ xs) cs
        = pads ++ D.plain xs cs := by
  induction cs with
  | nil => intro xs _; rfl
  | cons c cs ih =>
    intro xs h
    rw [List.length_cons] at h
    rw [feed_cons, keepMasked_hidden pads xs (by omega), List.append_assoc, plain_cons]
    apply ih
    rw [List.length_append, List.length_singleton]
    omega

/-- **Padding changes nothing.**  After the states of the padding come those of the row alone. -/
theorem feed_leftPad (width : ℕ) (pad : γ) (cs : List γ) :
    ∃ pads, D.feed (maskRow width cs.length) [] (leftPad width pad cs) = pads ++ D.plain [] cs := by
  have hmask : maskRow width cs.length
      = List.replicate (width - cs.length) 0 ++ List.replicate cs.length 1 := by
    rw [maskRow, leftPad, List.length_replicate]
  obtain ⟨pads, hpads⟩ : ∃ pads, pads = D.feed (maskRow width cs.length) []
      (List.replicate (width - cs.length) pad) := ⟨_, rfl⟩
  have hlen : pads.length = width - cs.length := by rw [hpads, length_feed]; simp
  refine ⟨pads, ?_⟩
  rw [leftPad, feed_append, ← hpads, hmask, ← hlen]
  have hfed : D.feed (List.replicate pads.length 0 ++ List.replicate cs.length 1) (pads ++ []) cs
      = pads ++ D.plain [] cs := feed_hidden pads cs (by simp)
  rwa [List.append_nil] at hfed

/-- The newest column of a padded row has the state it has in the row alone. -/
theorem getLast?_feed_leftPad (width : ℕ) (pad : γ) {cs : List γ} (hne : cs ≠ []) :
    (D.feed (maskRow width cs.length) [] (leftPad width pad cs)).getLast?
      = (D.plain [] cs).getLast? := by
  obtain ⟨pads, hpads⟩ := D.feed_leftPad width pad cs
  have hplain : D.plain [] cs ≠ [] := by
    intro hnil
    have hlen := D.length_plain cs []
    rw [hnil] at hlen
    exact hne (List.length_eq_zero_iff.mp (by simpa using hlen.symm))
  rw [hpads, List.getLast?_append_of_ne_nil _ hplain]

end Decoder

end NanoKube
