import Mathlib.Algebra.GroupWithZero.Nat
import Mathlib.Data.List.Basic
import Mathlib.Order.Defs.PartialOrder

/-!
# Runs of a labelled system

A system is a function `step : σ → α → Option σ`: the state reached by firing a
label, or `none` when the label is not enabled.  A run is a list of labels fired
in order, so "every interleaving" is "every list of labels".

## Main definitions

* `run step s as` — the state after firing `as` from `s`.
* `Along step ok s as` — every step the run takes meets `ok`, which sees the
  state before the step and the label.
* `Visits step P s as` — the run passes through a state with `P`.
* `Takes step P s as` — the run takes a step with `P`.
* `totalCost step cost s as`, `countSteps step P s as` — what its steps cost, and how many of them
  have `P`.
* `trail step s as` — the states it passes through.

## Main results

* `run_invariant`, `run_invariant_along` — an invariant that each step (each step
  meeting `ok`) preserves holds at the end of the run.
* `along_imp`, `along_congr` — conditions compared along a run.
* `run_along_of_project` — the runs of a system with history are those of the system.
* `run_reaches` — a measure that can be lowered until the system is done leads there.
* `run_potential` — a potential that the labels of one kind lower bounds how many of them a run
  can take before it passes through a state with `P`.
* `run_amortized`, `run_balanced` — a run costs no more than it gains, or as much as it gains, if
  that is so of every step, up to a potential.
* `run_or_takes` — an invariant that only steps with `P` can break holds at the end of a run, or
  the run takes such a step.
* `trail_sorted` — a rank that no step lowers is in order along the states of a run.
* `run_filterMap` — a run seen through a map that hides some of its steps.
* `run_good_or_bad` — when the steps meeting `ok` keep `Good`, the others lead to
  `Bad` and `Bad` is never left, `ok` along the run decides between the two.
-/

namespace NanoKube

section Runs

variable {σ α : Type*} (step : σ → α → Option σ)

/-- The state after firing the labels in order, if each is enabled when its turn comes. -/
def run : σ → List α → Option σ
  | s, [] => some s
  | s, a :: as => (step s a).bind fun s' => run s' as

/-- The state a run ends in, for a run whose labels are all enabled. -/
def runD (s : σ) (as : List α) : σ := (run step s as).getD s

/-- Every step taken by the run of `as` from `s` meets `ok`. -/
def Along (ok : σ → α → Prop) : σ → List α → Prop
  | _, [] => True
  | s, a :: as => ok s a ∧ ∀ s' ∈ step s a, Along ok s' as

variable {step}

@[simp] theorem run_nil (s : σ) : run step s [] = some s := rfl

@[simp] theorem along_nil (ok : σ → α → Prop) (s : σ) : Along step ok s [] ↔ True := Iff.rfl

theorem run_cons {s s' : σ} {a : α} {as : List α} (h : run step s (a :: as) = some s') :
    ∃ t, step s a = some t ∧ run step t as = some s' := Option.bind_eq_some_iff.mp h

theorem run_cons_of_step {s t : σ} {a : α} (h : step s a = some t) (as : List α) :
    run step s (a :: as) = run step t as := by
  simp [run, h]

theorem along_cons_of_step {ok : σ → α → Prop} {s t : σ} {a : α} (h : step s a = some t)
    (as : List α) : Along step ok s (a :: as) ↔ ok s a ∧ Along step ok t as := by
  simp [Along, h]

theorem run_append (s : σ) (as bs : List α) :
    run step s (as ++ bs) = (run step s as).bind fun t => run step t bs := by
  induction as generalizing s with
  | nil => rfl
  | cons a as ih =>
    cases h : step s a with
    | none => simp [run, h]
    | some t => rw [List.cons_append, run_cons_of_step h, run_cons_of_step h, ih]

theorem run_eq_runD {s : σ} {as : List α} (h : (run step s as).isSome = true) :
    run step s as = some (runD step s as) := by
  obtain ⟨t, ht⟩ := Option.isSome_iff_exists.mp h
  rw [runD, ht, Option.getD_some]

theorem run_snoc {s t s' : σ} {a : α} {as : List α} (h : run step s as = some t)
    (ha : step t a = some s') : run step s (as ++ [a]) = some s' := by
  rw [run_append, h]
  simp [run, ha]

instance decidableAlong (ok : σ → α → Prop) [∀ s a, Decidable (ok s a)] :
    ∀ (s : σ) (as : List α), Decidable (Along step ok s as)
  | _, [] => isTrue trivial
  | s, a :: as =>
    match h : step s a with
    | none => decidable_of_iff (ok s a) (by simp [Along, h])
    | some t =>
      have := decidableAlong ok t as
      decidable_of_iff (ok s a ∧ Along step ok t as) (along_cons_of_step h as).symm

/-- An invariant that every step meeting `ok` preserves holds wherever a run of such steps ends. -/
theorem run_invariant_along {ok : σ → α → Prop} (Inv : σ → Prop)
    (hstep : ∀ {s a s'}, Inv s → ok s a → step s a = some s' → Inv s') {s s' : σ} {as : List α}
    (hs : Inv s) (hok : Along step ok s as) (h : run step s as = some s') : Inv s' := by
  induction as generalizing s with
  | nil => simpa using (Option.some.inj h) ▸ hs
  | cons a as ih =>
    obtain ⟨t, ht, h⟩ := run_cons h
    rw [along_cons_of_step ht] at hok
    exact ih (hstep hs hok.1 ht) hok.2 h

/-- An invariant that every step with a label in `lab` preserves holds wherever a run of such
labels ends. -/
theorem run_invariant_of (lab : α → Prop) (Inv : σ → Prop)
    (hstep : ∀ {s a s'}, lab a → Inv s → step s a = some s' → Inv s') {s s' : σ} {as : List α}
    (hlab : ∀ a ∈ as, lab a) (hs : Inv s) (h : run step s as = some s') : Inv s' := by
  induction as generalizing s with
  | nil => simpa using (Option.some.inj h) ▸ hs
  | cons a as ih =>
    obtain ⟨t, ht, h⟩ := run_cons h
    rw [List.forall_mem_cons] at hlab
    exact ih hlab.2 (hstep hlab.1 hs ht) h

/-- An invariant that every step preserves holds wherever a run ends. -/
theorem run_invariant (Inv : σ → Prop)
    (hstep : ∀ {s a s'}, Inv s → step s a = some s' → Inv s') {s s' : σ} {as : List α}
    (hs : Inv s) (h : run step s as = some s') : Inv s' :=
  run_invariant_of (fun _ => True) Inv (fun _ => hstep) (fun _ _ => trivial) hs h

/-- **What one label brings about** holds from then on, in runs of the labels `lab`: if the steps keep
`Base`, a step labelled `a` leads from it to `Inv`, and `Inv` is kept, then a run with that
label ends in `Inv`. -/
theorem run_established_of {a : α} (lab : α → Prop) (Base Inv : σ → Prop)
    (hbase : ∀ {s b s'}, lab b → Base s → step s b = some s' → Base s')
    (hest : ∀ {s s'}, Base s → step s a = some s' → Inv s')
    (hinv : ∀ {s b s'}, lab b → Base s → Inv s → step s b = some s' → Inv s') {s s' : σ}
    {as : List α} (hlab : ∀ b ∈ as, lab b) (hs : Base s) (ha : a ∈ as)
    (h : run step s as = some s') : Inv s' := by
  induction as generalizing s with
  | nil => cases ha
  | cons b as ih =>
    obtain ⟨t, ht, hrest⟩ := run_cons h
    rw [List.forall_mem_cons] at hlab
    rcases List.mem_cons.mp ha with rfl | ha
    · have hboth := run_invariant_of lab (fun u => Base u ∧ Inv u)
        (fun hl hu hstep => ⟨hbase hl hu.1 hstep, hinv hl hu.1 hu.2 hstep⟩) hlab.2
        ⟨hbase hlab.1 hs ht, hest hs ht⟩ hrest
      exact hboth.2
    · exact ih hlab.2 (hbase hlab.1 hs ht) ha hrest

theorem run_established {a : α} (Base Inv : σ → Prop)
    (hbase : ∀ {s b s'}, Base s → step s b = some s' → Base s')
    (hest : ∀ {s s'}, Base s → step s a = some s' → Inv s')
    (hinv : ∀ {s b s'}, Base s → Inv s → step s b = some s' → Inv s') {s s' : σ} {as : List α}
    (hs : Base s) (ha : a ∈ as) (h : run step s as = some s') : Inv s' := by
  refine run_established_of (fun _ => True) Base Inv ?_ ?_ ?_ (fun _ _ => trivial) hs ha h
  · exact fun _ hu ht => hbase hu ht
  · exact fun hu ht => hest hu ht
  · exact fun _ hu hi ht => hinv hu hi ht

/-- **Repeating one label until a state is reached**, if every repetition before it is possible
and lowers a measure. -/
theorem run_until {a : α} (Inv Done : σ → Prop) (μ : σ → ℕ)
    (hstep : ∀ {s}, Inv s → ¬ Done s → ∃ s', step s a = some s' ∧ Inv s' ∧ μ s' < μ s) {s : σ}
    (hs : Inv s) : ∃ n s', run step s (List.replicate n a) = some s' ∧ Inv s' ∧ Done s' := by
  induction hμ : μ s using Nat.strongRecOn generalizing s with
  | _ k ih =>
    by_cases hdone : Done s
    · exact ⟨0, s, rfl, hs, hdone⟩
    · obtain ⟨t, ht, hinv, hlt⟩ := hstep hs hdone
      obtain ⟨n, s', hrun, hinv', hdone'⟩ := ih (μ t) (hμ ▸ hlt) hinv rfl
      refine ⟨n + 1, s', ?_, hinv', hdone'⟩
      rw [List.replicate_succ, run_cons_of_step ht, hrun]

/-- **A measure that can be lowered until the system is done** leads there, by steps with `ok`. -/
theorem run_reaches (ok : σ → α → Prop) (Inv Done : σ → Prop) (μ : σ → ℕ)
    (hprogress : ∀ {s}, Inv s → ¬ Done s →
      ∃ a s', ok s a ∧ step s a = some s' ∧ Inv s' ∧ μ s' < μ s) {s : σ} (hs : Inv s) :
    ∃ as s', Along step ok s as ∧ run step s as = some s' ∧ Inv s' ∧ Done s' := by
  induction hμ : μ s using Nat.strongRecOn generalizing s with
  | _ k ih =>
    by_cases hdone : Done s
    · exact ⟨[], s, trivial, rfl, hs, hdone⟩
    · obtain ⟨a, t, ha, ht, hinv, hlt⟩ := hprogress hs hdone
      obtain ⟨as, s', halong, hrun, hinv', hdone'⟩ := ih (μ t) (hμ ▸ hlt) hinv rfl
      refine ⟨a :: as, s', (along_cons_of_step ht as).mpr ⟨ha, halong⟩, ?_, hinv', hdone'⟩
      rw [run_cons_of_step ht, hrun]

/-- A condition that implies another on the steps of an invariant's states implies it along a
run. -/
theorem along_imp {ok ok' : σ → α → Prop} (Inv : σ → Prop)
    (hstep : ∀ {s a s'}, Inv s → step s a = some s' → Inv s')
    (hok : ∀ {s a s'}, Inv s → step s a = some s' → ok s a → ok' s a) {s s' : σ} {as : List α}
    (hs : Inv s) (h : run step s as = some s') (hal : Along step ok s as) :
    Along step ok' s as := by
  induction as generalizing s with
  | nil => trivial
  | cons a as ih =>
    obtain ⟨t, ht, h⟩ := run_cons h
    rw [along_cons_of_step ht] at hal ⊢
    exact ⟨hok hs ht hal.1, ih (hstep hs ht) h hal.2⟩

/-- **A system with history.**  If `φ` takes the steps of one system to those of another, a run of
the second one is the trace of a run of the first, and a condition on it is one on the first. -/
theorem run_along_of_project {τ : Type*} {step' : τ → α → Option τ} (φ : τ → σ)
    (hproject : ∀ x a, (step' x a).map φ = step (φ x) a) {ok : σ → α → Prop} {x : τ} {s' : σ}
    {as : List α} (h : run step (φ x) as = some s') :
    (∃ y, run step' x as = some y ∧ φ y = s') ∧
      (Along step' (fun y a => ok (φ y) a) x as → Along step ok (φ x) as) := by
  induction as generalizing x with
  | nil => exact ⟨⟨x, rfl, Option.some.inj h⟩, id⟩
  | cons a as ih =>
    obtain ⟨t, ht, h⟩ := run_cons h
    rw [← hproject, Option.map_eq_some_iff] at ht
    obtain ⟨y, hy, rfl⟩ := ht
    obtain ⟨⟨z, hz, hzs⟩, halong⟩ := ih h
    have ht : step (φ x) a = some (φ y) := by rw [← hproject, hy, Option.map_some]
    refine ⟨⟨z, by rw [run_cons_of_step hy, hz], hzs⟩, ?_⟩
    rw [along_cons_of_step hy, along_cons_of_step ht]
    exact And.imp_right halong

/-- A condition that every step meets holds along any run. -/
theorem along_of_forall {ok : σ → α → Prop} (h : ∀ s a, ok s a) (s : σ) (as : List α) :
    Along step ok s as := by
  induction as generalizing s with
  | nil => trivial
  | cons a as ih => exact ⟨h s a, fun t _ => ih t⟩

/-- A condition on the labels alone holds along any run of such labels. -/
theorem Along.and_forall {ok : σ → α → Prop} {s : σ} {as : List α}
    (hok : Along step ok s as) (lab : α → Prop) (hlab : ∀ a ∈ as, lab a) :
    Along step (fun s a => ok s a ∧ lab a) s as := by
  induction as generalizing s with
  | nil => trivial
  | cons a as ih =>
    rw [List.forall_mem_cons] at hlab
    exact ⟨⟨hok.1, hlab.1⟩, fun t ht => ih (hok.2 t ht) hlab.2⟩

/-- The run passes through a state with `P`. -/
def Visits (step : σ → α → Option σ) (P : σ → Prop) (s : σ) (as : List α) : Prop :=
  ∃ before after u, as = before ++ after ∧ run step s before = some u ∧ P u

theorem visits_here {P : σ → Prop} {s : σ} (h : P s) (as : List α) : Visits step P s as :=
  ⟨[], as, s, rfl, rfl, h⟩

theorem Visits.cons {P : σ → Prop} {s t : σ} {a : α} {as : List α} (h : step s a = some t)
    (hv : Visits step P t as) : Visits step P s (a :: as) := by
  obtain ⟨before, after, u, rfl, hu, hP⟩ := hv
  exact ⟨a :: before, after, u, rfl, by rw [run_cons_of_step h, hu], hP⟩

/-- The run takes a step with `P`, which sees the state before the step and the label. -/
def Takes (step : σ → α → Option σ) (P : σ → α → Prop) (s : σ) (as : List α) : Prop :=
  ∃ before a after u, as = before ++ a :: after ∧ run step s before = some u ∧ P u a

theorem takes_here {P : σ → α → Prop} {s : σ} {a : α} (h : P s a) (as : List α) :
    Takes step P s (a :: as) := ⟨[], a, as, s, rfl, rfl, h⟩

theorem Takes.cons {P : σ → α → Prop} {s t : σ} {a : α} {as : List α} (h : step s a = some t)
    (ht : Takes step P t as) : Takes step P s (a :: as) := by
  obtain ⟨before, b, after, u, rfl, hu, hP⟩ := ht
  exact ⟨a :: before, b, after, u, rfl, by rw [run_cons_of_step h, hu], hP⟩

/-- **Who broke it.**  If every step keeps `Inv` or is one with `P`, then a run ends in `Inv` or
takes a step with `P`. -/
theorem run_or_takes {P : σ → α → Prop} (Inv : σ → Prop)
    (hstep : ∀ {s a s'}, Inv s → step s a = some s' → P s a ∨ Inv s') {s s' : σ} {as : List α}
    (hs : Inv s) (h : run step s as = some s') : Takes step P s as ∨ Inv s' := by
  induction as generalizing s with
  | nil => exact Or.inr ((Option.some.inj h) ▸ hs)
  | cons a as ih =>
    obtain ⟨t, ht, h⟩ := run_cons h
    rcases hstep hs ht with hP | hinv
    · exact Or.inl (takes_here hP as)
    · exact (ih hinv h).imp_left (Takes.cons ht)

/-- **A potential bounds the labels that lower it.**  If every step that does not lead to `P`
keeps `Inv` and does not raise `Φ`, and lowers it when its label is counted, then a run passes
through a state with `P` or counts no more labels than the potential it has lost. -/
theorem run_potential {ok : σ → α → Prop} (P Inv : σ → Prop) (Φ : σ → ℕ) (counted : α → Bool)
    (hstep : ∀ {s a s'}, Inv s → ok s a → step s a = some s' →
      P s' ∨ (Inv s' ∧ Φ s' + (if counted a then 1 else 0) ≤ Φ s)) {s s' : σ} {as : List α}
    (hs : Inv s) (hok : Along step ok s as) (h : run step s as = some s') :
    Visits step P s as ∨ (Inv s' ∧ Φ s' + as.countP counted ≤ Φ s) := by
  induction as generalizing s with
  | nil =>
    obtain rfl := Option.some.inj h
    exact Or.inr ⟨hs, by simp⟩
  | cons a as ih =>
    obtain ⟨t, ht, h⟩ := run_cons h
    rw [along_cons_of_step ht] at hok
    rcases hstep hs hok.1 ht with hP | ⟨hinv, hle⟩
    · exact Or.inl ((visits_here hP as).cons ht)
    · rcases ih hinv hok.2 h with hv | ⟨hinv', hle'⟩
      · exact Or.inl (hv.cons ht)
      · refine Or.inr ⟨hinv', ?_⟩
        rw [List.countP_cons]
        omega

/-- The sum of what the steps of the run cost. -/
def totalCost (step : σ → α → Option σ) (cost : σ → α → ℕ) : σ → List α → ℕ
  | _, [] => 0
  | s, a :: as => cost s a + (step s a).elim 0 fun t => totalCost step cost t as

/-- The number of steps with `P` that the run takes. -/
def countSteps (step : σ → α → Option σ) (P : σ → α → Bool) (s : σ) (as : List α) : ℕ :=
  totalCost step (fun s a => if P s a then 1 else 0) s as

theorem totalCost_cons_of_step {cost : σ → α → ℕ} {s t : σ} {a : α} (h : step s a = some t)
    (as : List α) : totalCost step cost s (a :: as) = cost s a + totalCost step cost t as := by
  simp [totalCost, h]

@[simp] theorem totalCost_zero (s : σ) (as : List α) :
    totalCost step (fun _ _ => 0) s as = 0 := by
  induction as generalizing s with
  | nil => rfl
  | cons a as ih =>
    rw [totalCost]
    cases step s a with
    | none => rfl
    | some t => simpa using ih t

/-- At one a step, a run costs its length. -/
theorem totalCost_one {s s' : σ} {as : List α} (h : run step s as = some s') :
    totalCost step (fun _ _ => 1) s as = as.length := by
  induction as generalizing s with
  | nil => rfl
  | cons a as ih =>
    obtain ⟨t, ht, h⟩ := run_cons h
    rw [totalCost_cons_of_step ht, ih h, List.length_cons, Nat.add_comm]

/-- If each step with `P` costs the same, a run costs as much as it has of them. -/
theorem totalCost_ite (P : σ → α → Bool) (n : ℕ) (s : σ) (as : List α) :
    totalCost step (fun s a => if P s a then n else 0) s as = n * countSteps step P s as := by
  induction as generalizing s with
  | nil => rfl
  | cons a as ih =>
    rw [countSteps, totalCost, totalCost]
    cases step s a with
    | none => cases P s a <;> simp
    | some t =>
      have hrest := ih t
      rw [countSteps] at hrest
      cases P s a <;> simp [hrest, Nat.mul_add]

/-- **Steps paid for in advance.**  If a step raises the potential by no more than it gains, less
what it costs, then a run costs no more than it gains. -/
theorem run_amortized {cost gain : σ → α → ℕ} {ok : σ → α → Prop} (Inv : σ → Prop) (Φ : σ → ℕ)
    (hstep : ∀ {s a s'}, Inv s → ok s a → step s a = some s' →
      Inv s' ∧ Φ s' + cost s a ≤ Φ s + gain s a) {s s' : σ} {as : List α} (hs : Inv s)
    (hok : Along step ok s as) (h : run step s as = some s') :
    Φ s' + totalCost step cost s as ≤ Φ s + totalCost step gain s as := by
  induction as generalizing s with
  | nil =>
    obtain rfl := Option.some.inj h
    simp [totalCost]
  | cons a as ih =>
    obtain ⟨t, ht, h⟩ := run_cons h
    obtain ⟨hinv, hle⟩ := hstep hs hok.1 ht
    have hrest := ih hinv (hok.2 t ht) h
    rw [totalCost_cons_of_step ht, totalCost_cons_of_step ht]
    omega

/-- **A balance**: if it is kept by every step, it is kept by a run. -/
theorem run_balanced {cost gain : σ → α → ℕ} {ok : σ → α → Prop} (Inv : σ → Prop) (Φ : σ → ℕ)
    (hstep : ∀ {s a s'}, Inv s → ok s a → step s a = some s' →
      Inv s' ∧ Φ s' + cost s a = Φ s + gain s a) {s s' : σ} {as : List α} (hs : Inv s)
    (hok : Along step ok s as) (h : run step s as = some s') :
    Φ s' + totalCost step cost s as = Φ s + totalCost step gain s as := by
  induction as generalizing s with
  | nil =>
    obtain rfl := Option.some.inj h
    simp [totalCost]
  | cons a as ih =>
    obtain ⟨t, ht, h⟩ := run_cons h
    obtain ⟨hinv, heq⟩ := hstep hs hok.1 ht
    have hrest := ih hinv (hok.2 t ht) h
    rw [totalCost_cons_of_step ht, totalCost_cons_of_step ht]
    omega

/-- The states a run passes through, with the first and the last. -/
def trail (step : σ → α → Option σ) : σ → List α → List σ
  | s, [] => [s]
  | s, a :: as => s :: (step s a).elim [] fun t => trail step t as

theorem trail_cons_of_step {s t : σ} {a : α} (h : step s a = some t) (as : List α) :
    trail step s (a :: as) = s :: trail step t as := by
  simp [trail, h]

/-- **A rank that no step lowers** is in order along the states of a run. -/
theorem trail_sorted {β : Type*} [Preorder β] (rank : σ → β) (Inv : σ → Prop)
    (hstep : ∀ {s a s'}, Inv s → step s a = some s' → Inv s' ∧ rank s ≤ rank s') {s s' : σ}
    {as : List α} (hs : Inv s) (h : run step s as = some s') :
    ((trail step s as).map rank).Pairwise (· ≤ ·) ∧
      ∀ t ∈ trail step s as, rank s ≤ rank t := by
  induction as generalizing s with
  | nil => simp [trail]
  | cons a as ih =>
    obtain ⟨t, ht, h⟩ := run_cons h
    obtain ⟨hinv, hle⟩ := hstep hs ht
    obtain ⟨hsorted, hmin⟩ := ih hinv h
    have hall : ∀ u ∈ trail step t as, rank s ≤ rank u := fun u hu => le_trans hle (hmin u hu)
    rw [trail_cons_of_step ht, List.map_cons, List.pairwise_cons, List.forall_mem_cons]
    refine ⟨⟨?_, hsorted⟩, le_refl _, hall⟩
    intro r hr
    obtain ⟨u, hu, rfl⟩ := List.mem_map.mp hr
    exact hall u hu

/-- **Some steps hidden.**  If `φ` maps every step to one of the other system, labelled by `g`, or to
none where `g` hides the label, then it maps runs to runs. -/
theorem run_filterMap {τ β : Type*} {step' : τ → β → Option τ} (φ : σ → τ) (g : α → Option β)
    (Inv : σ → Prop) (hinv : ∀ {s a s'}, Inv s → step s a = some s' → Inv s')
    (hstep : ∀ {s a s'}, Inv s → step s a = some s' →
      match g a with
      | some b => step' (φ s) b = some (φ s')
      | none => φ s' = φ s) {s s' : σ} {as : List α}
    (hs : Inv s) (h : run step s as = some s') :
    run step' (φ s) (as.filterMap g) = some (φ s') := by
  induction as generalizing s with
  | nil =>
    obtain rfl := Option.some.inj h
    rfl
  | cons a as ih =>
    obtain ⟨t, ht, h⟩ := run_cons h
    have hmatch := hstep hs ht
    rw [List.filterMap_cons]
    cases hg : g a with
    | none =>
      simp only [hg] at hmatch ⊢
      rw [← hmatch]
      exact ih (hinv hs ht) h
    | some b =>
      simp only [hg] at hmatch ⊢
      rw [run_cons_of_step hmatch]
      exact ih (hinv hs ht) h

/-- Two conditions that agree on the steps of an invariant's states agree along a run. -/
theorem along_congr {ok ok' : σ → α → Prop} (Inv : σ → Prop)
    (hstep : ∀ {s a s'}, Inv s → step s a = some s' → Inv s')
    (hok : ∀ {s a s'}, Inv s → step s a = some s' → (ok s a ↔ ok' s a)) {s s' : σ} {as : List α}
    (hs : Inv s) (h : run step s as = some s') : Along step ok s as ↔ Along step ok' s as := by
  constructor
  · exact along_imp Inv hstep (fun hu hstep => (hok hu hstep).mp) hs h
  · exact along_imp Inv hstep (fun hu hstep => (hok hu hstep).mpr) hs h

/-- **The condition decides**, in runs of the labels `lab`.  Steps meeting `ok` keep `Good`, a step
missing it leads from `Good` to `Bad`, and `Bad` is never left: so a run ends in `Good` with
every step meeting `ok`, or in `Bad` with some step missing it. -/
theorem run_good_or_bad_of (lab : α → Prop) (ok : σ → α → Prop) (Good Bad : σ → Prop)
    (hgood : ∀ {s a s'}, lab a → Good s → ok s a → step s a = some s' → Good s')
    (hslip : ∀ {s a s'}, lab a → Good s → ¬ ok s a → step s a = some s' → Bad s')
    (hbad : ∀ {s a s'}, lab a → Bad s → step s a = some s' → Bad s') {s s' : σ} {as : List α}
    (hlab : ∀ a ∈ as, lab a) (hs : Good s) (h : run step s as = some s') :
    (Good s' ∧ Along step ok s as) ∨ (Bad s' ∧ ¬ Along step ok s as) := by
  induction as generalizing s with
  | nil => exact Or.inl ⟨(Option.some.inj h) ▸ hs, trivial⟩
  | cons a as ih =>
    obtain ⟨t, ht, h⟩ := run_cons h
    rw [List.forall_mem_cons] at hlab
    rw [along_cons_of_step ht]
    by_cases ha : ok s a
    · rcases ih hlab.2 (hgood hlab.1 hs ha ht) h with ⟨hg, hal⟩ | ⟨hb, hal⟩
      · exact Or.inl ⟨hg, ha, hal⟩
      · exact Or.inr ⟨hb, fun hc => hal hc.2⟩
    · exact Or.inr ⟨run_invariant_of lab Bad hbad hlab.2 (hslip hlab.1 hs ha ht) h,
        fun hc => ha hc.1⟩

theorem run_good_or_bad (ok : σ → α → Prop) (Good Bad : σ → Prop)
    (hgood : ∀ {s a s'}, Good s → ok s a → step s a = some s' → Good s')
    (hslip : ∀ {s a s'}, Good s → ¬ ok s a → step s a = some s' → Bad s')
    (hbad : ∀ {s a s'}, Bad s → step s a = some s' → Bad s') {s s' : σ} {as : List α}
    (hs : Good s) (h : run step s as = some s') :
    (Good s' ∧ Along step ok s as) ∨ (Bad s' ∧ ¬ Along step ok s as) :=
  run_good_or_bad_of (fun _ => True) ok Good Bad (fun _ => hgood) (fun _ => hslip) (fun _ => hbad)
    (fun _ _ => trivial) hs h

end Runs

end NanoKube
