import Mathlib.Data.List.Basic
import Mathlib.Data.List.Induction

/-!
# Reading UTF-8 that may be broken or cut off

The decoder that replaces what it cannot read.  It works byte by byte: between
characters, or in the middle of one, knowing how many continuation bytes are owed and
which values the next one may have.  A byte that does not fit yields one U+FFFD for
the bytes abandoned and is then read afresh; a text that ends in the middle of a
character yields one U+FFFD for it.  Bytes are natural numbers, and none above 0xF4
fits anywhere.

## Main definitions

* `Pending`, `byte`, `feed` — the machine; `decode` — the text of some bytes.
* `encode` — the bytes of a character.
* `CutsChar b r` — the end of `b` is inside a character that `r` completes.

## Main results

* `decode_encode` — encoded text is read back.
* `encode_of_spells`, `spells_encode` — the bytes the machine accepts for a character are
  its encoding.
* `decode_prefix_iff` — the text of `b` is a beginning of the text of `b ++ r`, unless `b`
  cuts a character other than U+FFFD itself.
-/

namespace NanoKube

namespace Utf8

/-- U+FFFD. -/
def replacement : Char := Char.ofNat 0xFFFD

/-- In the middle of a character: the continuation bytes owed, the least and the greatest value of
the next one, and the bits so far.  Whatever is accepted is a continuation byte. -/
structure Pending where
  need : ℕ
  lower : ℕ
  upper : ℕ
  acc : ℕ
  lower_ge : 0x80 ≤ lower
  upper_le : upper ≤ 0xBF

/-- A byte read between characters. -/
def lead (b : ℕ) : List Char × Option Pending :=
  if b ≤ 0x7F then ([Char.ofNat b], none)
  else if 0xC2 ≤ b ∧ b ≤ 0xDF then ([], some ⟨1, 0x80, 0xBF, b % 32, by decide, by decide⟩)
  else if b = 0xE0 then ([], some ⟨2, 0xA0, 0xBF, 0, by decide, by decide⟩)
  -- the surrogates are left out
  else if b = 0xED then ([], some ⟨2, 0x80, 0x9F, 0xD, by decide, by decide⟩)
  else if 0xE1 ≤ b ∧ b ≤ 0xEF then ([], some ⟨2, 0x80, 0xBF, b % 16, by decide, by decide⟩)
  else if b = 0xF0 then ([], some ⟨3, 0x90, 0xBF, 0, by decide, by decide⟩)
  else if 0xF1 ≤ b ∧ b ≤ 0xF3 then ([], some ⟨3, 0x80, 0xBF, b % 8, by decide, by decide⟩)
  -- nothing above U+10FFFF
  else if b = 0xF4 then ([], some ⟨3, 0x80, 0x8F, 4, by decide, by decide⟩)
  else ([replacement], none)

namespace Pending

/-- The byte may come next. -/
def accepts (p : Pending) (b : ℕ) : Prop := p.lower ≤ b ∧ b ≤ p.upper

instance (p : Pending) (b : ℕ) : Decidable (p.accepts b) := inferInstanceAs (Decidable (_ ∧ _))

/-- The bits with the six of the byte. -/
def bits (p : Pending) (b : ℕ) : ℕ := p.acc * 64 + b % 64

/-- After a byte that was accepted and not the last. -/
def next (p : Pending) (b : ℕ) : Pending :=
  ⟨p.need - 1, 0x80, 0xBF, p.bits b, by decide, by decide⟩

@[simp] theorem next_need (p : Pending) (b : ℕ) : (p.next b).need = p.need - 1 := rfl

/-- After a first continuation byte, any other is accepted. -/
theorem next_accepts (p : Pending) (b n : ℕ) : (p.next b).accepts (0x80 + n % 64) := by
  refine ⟨Nat.le_add_right _ _, ?_⟩
  simp only [next]
  omega

end Pending

/-- One byte: the characters it yields, and where the machine is then. -/
def byte : Option Pending → ℕ → List Char × Option Pending
  | none, b => lead b
  | some p, b =>
    if p.accepts b then
      if p.need = 1 then ([Char.ofNat (p.bits b)], none) else ([], some (p.next b))
    else (replacement :: (lead b).1, (lead b).2)

/-- Many bytes. -/
def feed : Option Pending → List ℕ → List Char × Option Pending
  | st, [] => ([], st)
  | st, b :: bs => ((byte st b).1 ++ (feed (byte st b).2 bs).1, (feed (byte st b).2 bs).2)

/-- What the end of the bytes yields. -/
def flush : Option Pending → List Char
  | none => []
  | some _ => [replacement]

/-- The characters that are settled. -/
def settled (bs : List ℕ) : List Char := (feed none bs).1

/-- The text of some bytes. -/
def decode (bs : List ℕ) : List Char := settled bs ++ flush (feed none bs).2

/-- The bytes of a character. -/
def encode (c : Char) : List ℕ :=
  let n := c.toNat
  if n ≤ 0x7F then [n]
  else if n ≤ 0x7FF then [0xC0 + n / 64, 0x80 + n % 64]
  else if n ≤ 0xFFFF then [0xE0 + n / 4096, 0x80 + n / 64 % 64, 0x80 + n % 64]
  else [0xF0 + n / 262144, 0x80 + n / 4096 % 64, 0x80 + n / 64 % 64, 0x80 + n % 64]

/-! ### The machine -/

theorem feed_append (st : Option Pending) (as bs : List ℕ) :
    feed st (as ++ bs)
      = ((feed st as).1 ++ (feed (feed st as).2 bs).1, (feed (feed st as).2 bs).2) := by
  induction as generalizing st with
  | nil => rfl
  | cons a as ih => rw [List.cons_append, feed, ih, feed, List.append_assoc]

theorem feed_singleton (st : Option Pending) (b : ℕ) : feed st [b] = byte st b := by
  simp [feed]

/-- What is settled stays settled. -/
theorem settled_prefix (b r : List ℕ) : settled b <+: settled (b ++ r) := by
  rw [settled, settled, feed_append]
  exact List.prefix_append ..

/-- What was pending, or the rest of the bytes, is all that can change. -/
theorem decode_append (b r : List ℕ) :
    decode (b ++ r)
      = settled b ++ ((feed (feed none b).2 r).1 ++ flush (feed (feed none b).2 r).2) := by
  rw [decode, settled, feed_append, List.append_assoc]
  rfl

/-- `lead` yields a character or waits for more, and waits only after a byte that is no
continuation byte. -/
theorem lead_cases (b : ℕ) :
    (∃ c, lead b = ([c], none)) ∨ ∃ p, lead b = ([], some p) ∧ 0xBF < b := by
  unfold lead
  repeat' split
  all_goals first
    | exact Or.inl ⟨_, rfl⟩
    | exact Or.inr ⟨_, rfl, by omega⟩

/-- The bytes take a pending character to its end: each is accepted, and with the last the bits
are those of the code point. -/
inductive Completes : Pending → List ℕ → ℕ → Prop
  | last {p : Pending} {b : ℕ} (hacc : p.accepts b) (hneed : p.need = 1) :
    Completes p [b] (p.bits b)
  | more {p : Pending} {b : ℕ} {bs : List ℕ} {n : ℕ} (hacc : p.accepts b) (hneed : p.need ≠ 1)
    (hrest : Completes (p.next b) bs n) : Completes p (b :: bs) n

/-- The bytes are a lead byte and what completes its character. -/
def Spells (w : List ℕ) (n : ℕ) : Prop :=
  ∃ b p bs, w = b :: bs ∧ lead b = ([], some p) ∧ Completes p bs n

theorem Completes.feed {p : Pending} {bs : List ℕ} {n : ℕ} (h : Completes p bs n) :
    feed (some p) bs = ([Char.ofNat n], none) := by
  induction h with
  | last hacc hneed => rw [feed_singleton, byte, if_pos hacc, if_pos hneed]
  | more hacc hneed hrest ih => simp [Utf8.feed, byte, hacc, hneed, ih]

/-- A proper beginning of what completes a character yields nothing and leaves it pending. -/
theorem Completes.feed_prefix {p : Pending} {bs : List ℕ} {n : ℕ} (h : Completes p bs n) :
    ∀ {as q : List ℕ}, bs = as ++ q → q ≠ [] →
      ∃ p', Utf8.feed (some p) as = ([], some p') ∧ Completes p' q n := by
  induction h with
  | @last p b hacc hneed =>
    intro as q hbs hq
    cases as with
    | nil =>
      obtain rfl : [b] = q := hbs
      exact ⟨p, rfl, .last hacc hneed⟩
    | cons a as =>
      obtain ⟨-, hnil⟩ := List.cons.inj hbs
      exact absurd (List.append_eq_nil_iff.mp hnil.symm).2 hq
  | @more p b bs n hacc hneed hrest ih =>
    intro as q hbs hq
    cases as with
    | nil =>
      obtain rfl : b :: bs = q := hbs
      exact ⟨p, rfl, .more hacc hneed hrest⟩
    | cons a as =>
      obtain ⟨rfl, rfl⟩ := List.cons.inj hbs
      obtain ⟨p', hfeed, hc⟩ := ih rfl hq
      exact ⟨p', by simp [Utf8.feed, byte, hacc, hneed, hfeed], hc⟩

/-! ### Encoding -/

theorem completes_one {p : Pending} (h : p.need = 1) {bs : List ℕ} {n : ℕ} :
    Completes p bs n ↔ ∃ x, bs = [x] ∧ p.accepts x ∧ n = p.bits x := by
  constructor
  · intro hc
    cases hc with
    | last hacc hneed => exact ⟨_, rfl, hacc, rfl⟩
    | more hacc hneed hrest => exact absurd h hneed
  · rintro ⟨x, rfl, hacc, rfl⟩
    exact .last hacc h

theorem completes_more {p : Pending} (h : p.need ≠ 1) {bs : List ℕ} {n : ℕ} :
    Completes p bs n ↔ ∃ x as, bs = x :: as ∧ p.accepts x ∧ Completes (p.next x) as n := by
  constructor
  · intro hc
    cases hc with
    | last hacc hneed => exact absurd hneed h
    | more hacc hneed hrest => exact ⟨_, _, rfl, hacc, hrest⟩
  · rintro ⟨x, as, rfl, hacc, hrest⟩
    exact .more hacc h hrest

theorem toNat_ofNat {n : ℕ} (h : n.isValidChar) : (Char.ofNat n).toNat = n := by
  rw [Char.ofNat, dif_pos h]
  rfl

/-- A code point in the range of two, three or four bytes. -/
theorem encode_two {c : Char} (h1 : 0x7F < c.toNat) (h2 : c.toNat ≤ 0x7FF) :
    encode c = [0xC0 + c.toNat / 64, 0x80 + c.toNat % 64] := by
  unfold encode
  dsimp only
  rw [if_neg (by omega), if_pos h2]

theorem encode_three {c : Char} (h1 : 0x7FF < c.toNat) (h2 : c.toNat ≤ 0xFFFF) :
    encode c = [0xE0 + c.toNat / 4096, 0x80 + c.toNat / 64 % 64, 0x80 + c.toNat % 64] := by
  unfold encode
  dsimp only
  rw [if_neg (by omega), if_neg (by omega), if_pos h2]

theorem encode_four {c : Char} (h : 0xFFFF < c.toNat) :
    encode c = [0xF0 + c.toNat / 262144, 0x80 + c.toNat / 4096 % 64, 0x80 + c.toNat / 64 % 64,
      0x80 + c.toNat % 64] := by
  unfold encode
  dsimp only
  rw [if_neg (by omega), if_neg (by omega), if_neg (by omega)]

/-- A lead byte, and what it expects: the range of the byte, and the bounds of the next. -/
theorem lead_pending {b : ℕ} {p : Pending} (h : lead b = ([], some p)) :
    (0xC2 ≤ b ∧ b ≤ 0xDF ∧ p.need = 1 ∧ p.acc = b % 32) ∨
      (0xE0 ≤ b ∧ b ≤ 0xEF ∧ p.need = 2 ∧ p.acc = b % 16 ∧ (b = 0xE0 → p.lower = 0xA0) ∧
        (b = 0xED → p.upper = 0x9F)) ∨
      (0xF0 ≤ b ∧ b ≤ 0xF4 ∧ p.need = 3 ∧ p.acc = b % 8 ∧ (b = 0xF0 → p.lower = 0x90) ∧
        (b = 0xF4 → p.upper = 0x8F)) := by
  unfold lead at h
  repeat' split at h
  all_goals
    simp only [Prod.mk.injEq, Option.some.injEq, List.cons_ne_nil, reduceCtorEq, and_false,
      true_and] at h
  all_goals
    subst h
    dsimp only
    omega

/-- **What the machine reads as a code point is its encoding.** -/
theorem encode_of_spells {w : List ℕ} {n : ℕ} (h : Spells w n) : encode (Char.ofNat n) = w := by
  obtain ⟨b, p, bs, rfl, hlead, hc⟩ := h
  have hl := p.lower_ge
  have hu := p.upper_le
  rcases lead_pending hlead with ⟨h1, h2, hneed, hacc⟩ | ⟨h1, h2, hneed, hacc, hlo, hup⟩ |
    ⟨h1, h2, hneed, hacc, hlo, hup⟩
  · -- one more byte
    obtain ⟨x, rfl, ⟨hx1, hx2⟩, hn⟩ := (completes_one hneed).mp hc
    simp only [Pending.bits] at hn
    have hval : (Char.ofNat n).toNat = n := toNat_ofNat (Or.inl (by omega))
    rw [encode_two (by omega) (by omega), hval]
    simp only [List.cons.injEq, and_true]
    omega
  · -- two more bytes
    obtain ⟨x, as, rfl, ⟨hx1, hx2⟩, hc⟩ := (completes_more (by omega)).mp hc
    have hneed' : (p.next x).need = 1 := by simp [hneed]
    obtain ⟨y, rfl, ⟨hy1, hy2⟩, hn⟩ := (completes_one hneed').mp hc
    simp only [Pending.bits, Pending.next] at hn hy1 hy2
    have hval : (Char.ofNat n).toNat = n := by
      apply toNat_ofNat
      have hsur : n < 0xD800 ∨ 0xDFFF < n ∧ n < 0x110000 := by omega
      exact hsur
    rw [encode_three (by omega) (by omega), hval]
    simp only [List.cons.injEq, and_true]
    omega
  · -- three more bytes
    obtain ⟨x, as, rfl, ⟨hx1, hx2⟩, hc⟩ := (completes_more (by omega)).mp hc
    have hneed' : (p.next x).need ≠ 1 := by simp [hneed]
    obtain ⟨y, bs, rfl, ⟨hy1, hy2⟩, hc⟩ := (completes_more hneed').mp hc
    have hneed'' : ((p.next x).next y).need = 1 := by simp [hneed]
    obtain ⟨z, rfl, ⟨hz1, hz2⟩, hn⟩ := (completes_one hneed'').mp hc
    simp only [Pending.bits, Pending.next] at hn hy1 hy2 hz1 hz2
    have hval : (Char.ofNat n).toNat = n := by
      apply toNat_ofNat
      have hmax : n < 0xD800 ∨ 0xDFFF < n ∧ n < 0x110000 := by omega
      exact hmax
    rw [encode_four (by omega), hval]
    simp only [List.cons.injEq, and_true]
    omega

/-- The machine waits after a lead byte of two, three or four. -/
theorem lead_two (b : ℕ) (h1 : 0xC2 ≤ b) (h2 : b ≤ 0xDF) :
    ∃ p, lead b = ([], some p) ∧ p.need = 1 ∧ p.acc = b % 32 ∧ p.lower = 0x80 ∧ p.upper = 0xBF := by
  refine ⟨⟨1, 0x80, 0xBF, b % 32, by decide, by decide⟩, ?_, rfl, rfl, rfl, rfl⟩
  rw [lead, if_neg (by omega), if_pos ⟨h1, h2⟩]

theorem lead_three (b : ℕ) (h1 : 0xE0 ≤ b) (h2 : b ≤ 0xEF) :
    ∃ p, lead b = ([], some p) ∧ p.need = 2 ∧ p.acc = b % 16 ∧
      p.lower = (if b = 0xE0 then 0xA0 else 0x80) ∧
      p.upper = (if b = 0xED then 0x9F else 0xBF) := by
  rw [lead, if_neg (by omega), if_neg (by omega)]
  by_cases h0 : b = 0xE0
  · subst h0
    exact ⟨_, rfl, rfl, rfl, rfl, rfl⟩
  · by_cases hD : b = 0xED
    · subst hD
      exact ⟨_, rfl, rfl, rfl, rfl, rfl⟩
    · rw [if_neg h0, if_neg hD, if_pos (by omega), if_neg h0, if_neg hD]
      exact ⟨_, rfl, rfl, rfl, rfl, rfl⟩

theorem lead_four (b : ℕ) (h1 : 0xF0 ≤ b) (h2 : b ≤ 0xF4) :
    ∃ p, lead b = ([], some p) ∧ p.need = 3 ∧ p.acc = b % 8 ∧
      p.lower = (if b = 0xF0 then 0x90 else 0x80) ∧
      p.upper = (if b = 0xF4 then 0x8F else 0xBF) := by
  rw [lead, if_neg (by omega), if_neg (by omega), if_neg (by omega), if_neg (by omega),
    if_neg (by omega)]
  by_cases h0 : b = 0xF0
  · subst h0
    exact ⟨_, rfl, rfl, rfl, rfl, rfl⟩
  · by_cases h4 : b = 0xF4
    · subst h4
      exact ⟨_, rfl, rfl, rfl, rfl, rfl⟩
    · rw [if_neg h0, if_pos (by omega), if_neg h0, if_neg h4]
      exact ⟨_, rfl, rfl, rfl, rfl, rfl⟩

/-- **A character that takes more than one byte is read back**: the lead byte is waited on, and
the others complete it. -/
theorem spells_encode {c : Char} (h : 0x7F < c.toNat) : Spells (encode c) c.toNat := by
  have hvalid : c.toNat < 0xD800 ∨ 0xDFFF < c.toNat ∧ c.toNat < 0x110000 := c.valid
  by_cases h2 : c.toNat ≤ 0x7FF
  · rw [encode_two h h2]
    obtain ⟨p, hlead, hneed, hacc, hlo, hup⟩ :=
      lead_two (0xC0 + c.toNat / 64) (by omega) (by omega)
    refine ⟨_, p, _, rfl, hlead, (completes_one hneed).mpr ⟨_, rfl, ⟨?_, ?_⟩, ?_⟩⟩
    · omega
    · omega
    · rw [Pending.bits, hacc]
      omega
  · by_cases h3 : c.toNat ≤ 0xFFFF
    · rw [encode_three (by omega) h3]
      obtain ⟨p, hlead, hneed, hacc, hlo, hup⟩ :=
        lead_three (0xE0 + c.toNat / 4096) (by omega) (by omega)
      have hneed' : ∀ x, (p.next x).need = 1 := by simp [hneed]
      refine ⟨_, p, _, rfl, hlead, (completes_more (by omega)).mpr ⟨_, _, rfl, ⟨?_, ?_⟩,
        (completes_one (hneed' _)).mpr ⟨_, rfl, p.next_accepts _ _, ?_⟩⟩⟩
      · rw [hlo]
        split <;> omega
      · rw [hup]
        split <;> omega
      · simp only [Pending.bits, Pending.next, hacc]
        omega
    · rw [encode_four (by omega)]
      obtain ⟨p, hlead, hneed, hacc, hlo, hup⟩ :=
        lead_four (0xF0 + c.toNat / 262144) (by omega) (by omega)
      have hneed' : ∀ x, (p.next x).need ≠ 1 := by simp [hneed]
      have hneed'' : ∀ x y, ((p.next x).next y).need = 1 := by simp [hneed]
      refine ⟨_, p, _, rfl, hlead, (completes_more (by omega)).mpr ⟨_, _, rfl, ⟨?_, ?_⟩,
        (completes_more (hneed' _)).mpr ⟨_, _, rfl, p.next_accepts _ _,
          (completes_one (hneed'' _ _)).mpr ⟨_, rfl, (p.next _).next_accepts _ _, ?_⟩⟩⟩⟩
      · rw [hlo]
        split <;> omega
      · rw [hup]
        split <;> omega
      · simp only [Pending.bits, Pending.next, hacc]
        omega

/-- Between characters, the bytes of a character yield it. -/
theorem feed_encode (c : Char) : feed none (encode c) = ([c], none) := by
  by_cases h : c.toNat ≤ 0x7F
  · have hone : encode c = [c.toNat] := by
      unfold encode
      dsimp only
      rw [if_pos h]
    rw [hone, feed_singleton, byte, lead, if_pos h, Char.ofNat_toNat]
  · obtain ⟨b, p, bs, hw, hlead, hc⟩ := spells_encode (by omega : 0x7F < c.toNat)
    rw [hw, feed, byte, hlead, hc.feed, Char.ofNat_toNat]
    rfl

theorem feed_flatMap_encode (cs : List Char) : feed none (cs.flatMap encode) = (cs, none) := by
  induction cs with
  | nil => rfl
  | cons c cs ih => rw [List.flatMap_cons, feed_append, feed_encode, ih, List.singleton_append]

/-- **Encoded text is read back.** -/
theorem decode_encode (cs : List Char) : decode (cs.flatMap encode) = cs := by
  rw [decode, settled, feed_flatMap_encode]
  exact List.append_nil cs

/-! ### Where bytes are cut -/

/-- The end of `b` is inside the bytes of a character other than U+FFFD, and `r` begins with
the others. -/
def CutsChar (b r : List ℕ) : Prop :=
  ∃ u p q v c, c ≠ replacement ∧ p ≠ [] ∧ q ≠ [] ∧ encode c = p ++ q ∧ b = u ++ p ∧ r = q ++ v

/-- **The machine resynchronises**: wherever it is, a lead byte is read afresh. -/
theorem byte_lead (st : Option Pending) {b : ℕ} {p : Pending} (h : lead b = ([], some p)) :
    byte st b = (flush st, some p) := by
  have hb : 0xBF < b := by
    rcases lead_cases b with ⟨c, hc⟩ | ⟨p', -, hb⟩
    · rw [hc] at h
      cases h
    · exact hb
  cases st with
  | none => exact h
  | some p' =>
    have hrej : ¬ p'.accepts b := by
      intro hacc
      have hu := p'.upper_le
      have hle := hacc.2
      omega
    rw [byte, if_neg hrej, h]
    rfl

/-- What is pending at the end of some bytes began with a lead byte among them. -/
theorem exists_lead_of_pending {b : List ℕ} {pend : Pending} (h : (feed none b).2 = some pend) :
    ∃ u x p as, b = u ++ x :: as ∧ lead x = ([], some p) ∧
      ∀ q n, Completes pend q n → Completes p (as ++ q) n := by
  induction b using List.reverseRecOn generalizing pend with
  | nil => cases h
  | append_singleton b x ih =>
    rw [feed_append, feed_singleton] at h
    dsimp only at h
    -- `x` is the lead byte itself when it is read afresh
    have hfresh : (lead x).2 = some pend → ∃ u x' p as, b ++ [x] = u ++ x' :: as ∧
        lead x' = ([], some p) ∧ ∀ q n, Completes pend q n → Completes p (as ++ q) n := by
      intro hx
      rcases lead_cases x with ⟨c, hc⟩ | ⟨p, hp, -⟩
      · rw [hc] at hx
        cases hx
      · rw [hp] at hx
        obtain rfl := Option.some.inj hx
        exact ⟨b, x, p, [], rfl, hp, fun q n hq => hq⟩
    cases hst : (feed none b).2 with
    | none =>
      rw [hst] at h
      exact hfresh h
    | some p =>
      rw [hst, byte] at h
      split at h
      · next hacc =>
        split at h
        · cases h
        · next hneed =>
          obtain rfl := Option.some.inj h
          obtain ⟨u, x', p', as, hb, hlead, hcomp⟩ := ih hst
          refine ⟨u, x', p', as ++ [x], by simp [hb], hlead, ?_⟩
          intro q n hq
          rw [List.append_assoc]
          exact hcomp _ n (.more hacc hneed hq)
      · exact hfresh h

theorem Completes.ne_nil {p : Pending} {bs : List ℕ} {n : ℕ} (h : Completes p bs n) : bs ≠ [] := by
  cases h <;> simp

/-- **Cut characters, seen from the machine**: something is pending, and what follows completes it
to a character other than U+FFFD. -/
theorem cutsChar_iff {b r : List ℕ} : CutsChar b r ↔ ∃ pend q v n, (feed none b).2 = some pend ∧
    r = q ++ v ∧ Completes pend q n ∧ Char.ofNat n ≠ replacement := by
  constructor
  · rintro ⟨u, p, q, v, c, hc, hp, hq, henc, rfl, rfl⟩
    have hlong : 0x7F < c.toNat := by
      by_contra hshort
      have hone : (encode c).length = 1 := by
        unfold encode
        dsimp only
        rw [if_pos (by omega)]
        rfl
      have hp' := List.length_pos_iff.mpr hp
      have hq' := List.length_pos_iff.mpr hq
      rw [henc, List.length_append] at hone
      omega
    obtain ⟨x, p₀, bs, hw, hlead, hcomp⟩ := spells_encode hlong
    rw [henc] at hw
    cases p with
    | nil => exact absurd rfl hp
    | cons x' as =>
      obtain ⟨rfl, rfl⟩ := List.cons.inj hw
      obtain ⟨pend, hfeed, hrest⟩ := hcomp.feed_prefix rfl hq
      refine ⟨pend, q, v, c.toNat, ?_, rfl, hrest, by rwa [Char.ofNat_toNat]⟩
      rw [feed_append, feed, byte_lead _ hlead]
      exact congrArg Prod.snd hfeed
  · rintro ⟨pend, q, v, n, hpend, rfl, hcomp, hne⟩
    obtain ⟨u, x, p, as, rfl, hlead, hall⟩ := exists_lead_of_pending hpend
    have hspell : Spells (x :: as ++ q) n := ⟨x, p, as ++ q, rfl, hlead, hall q n hcomp⟩
    exact ⟨u, x :: as, q, v, Char.ofNat n, hne, List.cons_ne_nil _ _, hcomp.ne_nil,
      encode_of_spells hspell, rfl, rfl⟩

/-- After something pending comes U+FFFD, unless what follows completes it. -/
theorem replacement_or_completes (r : List ℕ) : ∀ pend : Pending,
    (∃ T, (feed (some pend) r).1 ++ flush (feed (some pend) r).2 = replacement :: T) ∨
      ∃ q v n, r = q ++ v ∧ Completes pend q n := by
  induction r with
  | nil => intro pend; exact Or.inl ⟨[], rfl⟩
  | cons x r ih =>
    intro pend
    by_cases hacc : pend.accepts x
    · by_cases hneed : pend.need = 1
      · exact Or.inr ⟨[x], r, _, rfl, .last hacc hneed⟩
      · rw [feed, byte, if_pos hacc, if_neg hneed]
        rcases ih (pend.next x) with hrep | ⟨q, v, n, rfl, hcomp⟩
        · exact Or.inl hrep
        · exact Or.inr ⟨x :: q, v, n, rfl, .more hacc hneed hcomp⟩
    · rw [feed, byte, if_neg hacc]
      exact Or.inl ⟨_, rfl⟩

/-- What completes a pending character yields it, and the rest is read between characters. -/
theorem Completes.text {pend : Pending} {q : List ℕ} {n : ℕ} (h : Completes pend q n) (v : List ℕ) :
    (Utf8.feed (some pend) (q ++ v)).1 ++ flush (Utf8.feed (some pend) (q ++ v)).2
      = Char.ofNat n :: decode v := by
  rw [feed_append, h.feed]
  rfl

/-- **When a text is a beginning of a longer one**: unless its bytes cut a character. -/
theorem decode_prefix_iff (b r : List ℕ) : decode b <+: decode (b ++ r) ↔ ¬ CutsChar b r := by
  rw [decode_append, decode]
  cases hst : (feed none b).2 with
  | none =>
    refine iff_of_true ?_ ?_
    · rw [flush, List.append_nil]
      exact List.prefix_append ..
    · rw [cutsChar_iff]
      rintro ⟨pend, q, v, n, hpend, -⟩
      rw [hst] at hpend
      cases hpend
  | some pend =>
    rw [flush, List.prefix_append_right_inj]
    rcases replacement_or_completes r pend with ⟨T, hT⟩ | ⟨q, v, n, rfl, hcomp⟩
    · rw [hT]
      refine iff_of_true ⟨T, rfl⟩ ?_
      rw [cutsChar_iff]
      rintro ⟨pend', q, v, n, hpend, rfl, hcomp, hne⟩
      rw [hst] at hpend
      obtain rfl := Option.some.inj hpend
      rw [hcomp.text] at hT
      exact hne (List.cons.inj hT).1
    · rw [hcomp.text, List.singleton_prefix_cons_iff]
      constructor
      · intro heq hcut
        obtain ⟨pend', q', v', n', hpend, hr, hcomp', hne⟩ := cutsChar_iff.mp hcut
        rw [hst] at hpend
        obtain rfl := Option.some.inj hpend
        -- both completions yield the first character of the rest
        have hsame := hcomp.text v
        rw [hr, hcomp'.text] at hsame
        rw [(List.cons.inj hsame).1, ← heq] at hne
        exact hne rfl
      · intro hno
        by_contra hne
        exact hno (cutsChar_iff.mpr ⟨pend, q, v, n, hst, rfl, hcomp, fun h => hne h.symm⟩)

/-- A text is settled, or settled but for one U+FFFD at its end. -/
theorem flush_cases (st : Option Pending) : flush st = [] ∨ flush st = [replacement] := by
  cases st with
  | none => exact Or.inl rfl
  | some p => exact Or.inr rfl

/-- **A cut character shows**: the text of `b` ends in a U+FFFD where the longer text has another
character. -/
theorem CutsChar.shows {b r : List ℕ} (h : CutsChar b r) :
    decode b = settled b ++ [replacement] ∧
      ∃ c, c ≠ replacement ∧ (decode (b ++ r))[(settled b).length]? = some c := by
  obtain ⟨pend, q, v, n, hpend, rfl, hcomp, hne⟩ := cutsChar_iff.mp h
  refine ⟨by rw [decode, hpend, flush], Char.ofNat n, hne, ?_⟩
  rw [decode_append, hpend, hcomp.text]
  simp

instance (b r : List ℕ) : Decidable (CutsChar b r) :=
  decidable_of_iff (¬ decode b <+: decode (b ++ r)) (by rw [decode_prefix_iff, Classical.not_not])

end Utf8

end NanoKube
