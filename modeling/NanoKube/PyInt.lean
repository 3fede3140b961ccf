import Mathlib.Data.Int.Notation
import Mathlib.Data.List.DropRight
import Mathlib.Data.Nat.Digits.Defs

/-!
# Reading integers as Python does

`int` of a string takes off the white space on both sides, then a sign, and reads digits
with single underscores between them; it refuses more than 4300 digits.  Digits and white
space are those of Unicode, which is what `CharData` stands for.

## Main definitions

* `CharData` — white space and digits, with what is known of their ASCII part.
* `CharData.int` — `int`, with `none` for a `ValueError`.

## Main results

* `int_toString` — **the decimal form of an integer is read back**, if it is short enough.
-/

namespace Python

/-- White space and decimal digits. -/
structure CharData where
  isSpace : Char → Bool
  decimal : Char → Option ℕ
  decimal_ascii : ∀ c : Char, c.isDigit = true → decimal c = some (c.toNat - '0'.toNat)
  /-- Digits and signs are no white space. -/
  isSpace_ascii : ∀ c : Char, c.isDigit = true ∨ c = '-' ∨ c = '+' → isSpace c = false

/-- The part of it that is ASCII. -/
def asciiData : CharData where
  isSpace c := c.isWhitespace || c == Char.ofNat 11 || c == Char.ofNat 12
  decimal c := if c.isDigit then some (c.toNat - '0'.toNat) else none
  decimal_ascii c h := by simp [h]
  isSpace_ascii c h := by
    rcases h with h | rfl | rfl
    · simp only [Char.isDigit, Bool.and_eq_true, decide_eq_true_eq] at h
      have hne : ∀ d : Char, d.val < 48 → (c == d) = false := by
        intro d hd
        simp only [beq_eq_false_iff_ne]
        rintro rfl
        exact absurd (UInt32.lt_of_lt_of_le hd h.1) (UInt32.lt_irrefl _)
      simp [Char.isWhitespace, ← beq_iff_eq, hne]
    · decide
    · decide

namespace CharData

variable (D : CharData)

/-- Digits with single underscores between them, by their values. -/
def digits : List Char → Option (List ℕ)
  | [] => none
  | [c] => (D.decimal c).map fun d => [d]
  | c :: '_' :: rest => (D.decimal c).bind fun d => (digits rest).map fun ds => d :: ds
  | c :: c' :: rest => (D.decimal c).bind fun d => (digits (c' :: rest)).map fun ds => d :: ds

/-- The number that digits stand for. -/
def natural (s : List Char) : Option ℕ :=
  (D.digits s).bind fun ds =>
    if ds.length ≤ 4300 then some (ds.foldl (fun n d => 10 * n + d) 0) else none

/-- `int`. -/
def int (s : List Char) : Option ℤ :=
  match (s.dropWhile D.isSpace).rdropWhile D.isSpace with
  | '-' :: rest => (D.natural rest).map fun n => -Int.ofNat n
  | '+' :: rest => (D.natural rest).map Int.ofNat
  | rest => (D.natural rest).map Int.ofNat

variable {D}

/-- ASCII digits are read one by one. -/
theorem digits_of_isDigit {s : List Char} (hs : s ≠ []) (h : ∀ c ∈ s, c.isDigit = true) :
    D.digits s = some (s.map fun c => c.toNat - '0'.toNat) := by
  induction s with
  | nil => exact absurd rfl hs
  | cons c s ih =>
    rw [List.forall_mem_cons] at h
    cases s with
    | nil => simp [digits, D.decimal_ascii c h.1]
    | cons c' s =>
      have hne : c' ≠ '_' := by
        rintro rfl
        exact absurd (h.2 '_' List.mem_cons_self) (by decide)
      have hrest := ih (by simp) h.2
      rw [digits.eq_4 D c c' s hne, hrest, D.decimal_ascii c h.1]
      rfl

theorem isDigit_toDigits {n : ℕ} : ∀ c ∈ Nat.toDigits 10 n, c.isDigit = true :=
  fun _ hc => Nat.isDigit_of_mem_toDigits (by omega) (by omega) hc

/-- The decimal form of a number. -/
theorem natural_toDigits {n : ℕ} (hn : (Nat.toDigits 10 n).length ≤ 4300) :
    D.natural (Nat.toDigits 10 n) = some n := by
  rw [natural, digits_of_isDigit Nat.toDigits_ne_nil isDigit_toDigits, Option.bind_some,
    List.length_map, if_pos hn, List.foldl_map]
  exact congrArg some Nat.ofDigitChars_ten_toDigits

/-- A text without white space at its ends loses nothing. -/
theorem strip_eq_self {s : List Char} (h : ∀ c ∈ s, D.isSpace c = false) :
    (s.dropWhile D.isSpace).rdropWhile D.isSpace = s := by
  have hleft : s.dropWhile D.isSpace = s := by
    cases s with
    | nil => rfl
    | cons c s => rw [List.dropWhile_cons, h c List.mem_cons_self, if_neg (by simp)]
  rw [hleft, List.rdropWhile_eq_self_iff]
  intro hne
  rw [h _ (List.getLast_mem hne)]
  simp

/-- **The decimal form of an integer is read back.** -/
theorem int_toString {n : ℤ} (hn : (Nat.toDigits 10 n.natAbs).length ≤ 4300) :
    D.int (toString n).toList = some n := by
  cases n with
  | ofNat n =>
    have hform : (toString (Int.ofNat n)).toList = Nat.toDigits 10 n := Nat.toList_repr
    have hstrip : ((Nat.toDigits 10 n).dropWhile D.isSpace).rdropWhile D.isSpace
        = Nat.toDigits 10 n :=
      strip_eq_self fun c hc => D.isSpace_ascii c (Or.inl (isDigit_toDigits c hc))
    have hsign : ∀ c ∈ Nat.toDigits 10 n, c ≠ '-' ∧ c ≠ '+' := by
      intro c hc
      constructor <;> rintro rfl <;> exact absurd (isDigit_toDigits _ hc) (by decide)
    rw [int, hform, hstrip]
    split
    · next heq => exact absurd rfl (hsign '-' (heq ▸ List.mem_cons_self)).1
    · next heq => exact absurd rfl (hsign '+' (heq ▸ List.mem_cons_self)).2
    · exact congrArg (Option.map Int.ofNat) (natural_toDigits hn)
  | negSucc n =>
    have hform : (toString (Int.negSucc n)).toList = '-' :: Nat.toDigits 10 (n + 1) := by
      show ("-" ++ Nat.repr (n + 1)).toList = _
      rw [String.toList_append, Nat.toList_repr]
      rfl
    have hstrip : (('-' :: Nat.toDigits 10 (n + 1)).dropWhile D.isSpace).rdropWhile D.isSpace
        = '-' :: Nat.toDigits 10 (n + 1) := by
      apply strip_eq_self
      intro c hc
      rcases List.mem_cons.mp hc with rfl | hc
      · exact D.isSpace_ascii '-' (by simp)
      · exact D.isSpace_ascii c (Or.inl (isDigit_toDigits c hc))
    rw [int, hform, hstrip]
    exact congrArg (Option.map fun n => -Int.ofNat n) (natural_toDigits hn)

/-- White space, a sign and underscores are no obstacle; an underscore at the end is one. -/
example : asciiData.int " -1_000\n".toList = some (-1000) ∧ asciiData.int "8_".toList = none := by
  decide

end CharData

end Python
