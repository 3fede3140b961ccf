import Mathlib.Data.List.Basic

/-!
# Names of objects and values of labels

Three grammars that the API server holds names to.  A subdomain is a sequence of words with
dots between them; the name of a service is a single word that starts with a letter, and
no longer than 63; so is the value of a label, but it may have dots and capitals.

## Main definitions

* `framed` — a word, by its first, inner and last characters.
* `isDns1123Subdomain`, `isDns1035Label`, `isLabelValue` — the three grammars.

## Main results

* `isDns1035Label_iff` — which subdomains can name a service.
* `isLabelValue_of_isDns1035Label` — the name of a service is a label value.
-/

namespace DnsName

/-- A word that is not empty, with all its characters of one kind, the first of another and the
last of a third. -/
def framed (first inner last : Char → Bool) (s : List Char) : Bool :=
  s.head?.any first && s.all inner && s.getLast?.any last

/-- `[a-z0-9]`. -/
def isLowerAlphanum (c : Char) : Bool := c.isLower || c.isDigit

/-- `[-a-z0-9]`. -/
def isDnsChar (c : Char) : Bool := isLowerAlphanum c || c == '-'

/-- `[-A-Za-z0-9_.]`. -/
def isLabelChar (c : Char) : Bool := c.isAlphanum || c == '-' || c == '_' || c == '.'

/-- A DNS-1123 subdomain: words with dots between them, at most 253 characters. -/
def isDns1123Subdomain (s : List Char) : Bool :=
  decide (s.length ≤ 253) &&
    (s.splitOn '.').all (framed isLowerAlphanum isDnsChar isLowerAlphanum)

/-- A DNS-1035 label: one word that starts with a letter, at most 63 characters. -/
def isDns1035Label (s : List Char) : Bool :=
  decide (s.length ≤ 63) && framed Char.isLower isDnsChar isLowerAlphanum s

/-- The value of a label: empty, or one word of at most 63 characters. -/
def isLabelValue (s : List Char) : Bool :=
  decide (s.length ≤ 63) && (s.isEmpty || framed Char.isAlphanum isLabelChar Char.isAlphanum s)

variable {first first' inner inner' last last' : Char → Bool} {s : List Char}

theorem framed_iff : framed first inner last s = true ↔
    s.head?.any first = true ∧ (∀ c ∈ s, inner c = true) ∧ s.getLast?.any last = true := by
  simp [framed, and_assoc]

theorem framed_mono (hfirst : ∀ c, first c = true → first' c = true)
    (hinner : ∀ c, inner c = true → inner' c = true)
    (hlast : ∀ c, last c = true → last' c = true) (h : framed first inner last s = true) :
    framed first' inner' last' s = true := by
  rw [framed_iff] at h ⊢
  obtain ⟨hhead, hall, hend⟩ := h
  rw [Option.any_eq_true] at hhead hend ⊢
  rw [Option.any_eq_true]
  obtain ⟨c, hc, hhead⟩ := hhead
  obtain ⟨d, hd, hend⟩ := hend
  exact ⟨⟨c, hc, hfirst c hhead⟩, fun e he => hinner e (hall e he), ⟨d, hd, hlast d hend⟩⟩

theorem isAlphanum_of_isLowerAlphanum (c : Char) (h : isLowerAlphanum c = true) :
    c.isAlphanum = true := by
  rw [isLowerAlphanum, Bool.or_eq_true] at h
  have halnum : c.isAlphanum = (c.isUpper || c.isLower || c.isDigit) := rfl
  rw [halnum, Bool.or_eq_true, Bool.or_eq_true]
  rcases h with h | h
  · exact Or.inl (Or.inr h)
  · exact Or.inr h

/-- **The name of a service is a label value.** -/
theorem isLabelValue_of_isDns1035Label (h : isDns1035Label s = true) : isLabelValue s = true := by
  rw [isDns1035Label, Bool.and_eq_true] at h
  rw [isLabelValue, Bool.and_eq_true, Bool.or_eq_true]
  refine ⟨h.1, Or.inr (framed_mono ?_ ?_ isAlphanum_of_isLowerAlphanum h.2)⟩
  · intro c hc
    exact isAlphanum_of_isLowerAlphanum c (by rw [isLowerAlphanum, hc, Bool.true_or])
  · intro c hc
    rw [isDnsChar, Bool.or_eq_true] at hc
    rw [isLabelChar]
    rcases hc with hc | hc
    · rw [isAlphanum_of_isLowerAlphanum c hc, Bool.true_or, Bool.true_or, Bool.true_or]
    · rw [hc, Bool.or_true, Bool.true_or, Bool.true_or]

/-- **Which subdomains can name a service**: those of one word, not too long, that start with a
letter. -/
theorem isDns1035Label_iff (h : isDns1123Subdomain s = true) : isDns1035Label s = true ↔
    s.length ≤ 63 ∧ '.' ∉ s ∧ s.head?.any Char.isLower = true := by
  rw [isDns1035Label, Bool.and_eq_true, decide_eq_true_iff, framed_iff]
  constructor
  · rintro ⟨hlen, hhead, hall, -⟩
    refine ⟨hlen, ?_, hhead⟩
    intro hdot
    exact absurd (hall '.' hdot) (by decide)
  · rintro ⟨hlen, hdot, hhead⟩
    rw [isDns1123Subdomain, List.splitOn_eq_singleton hdot, Bool.and_eq_true] at h
    have hword := h.2
    rw [List.all_cons, List.all_nil, Bool.and_true, framed_iff] at hword
    exact ⟨hlen, hhead, hword.2⟩

end DnsName
