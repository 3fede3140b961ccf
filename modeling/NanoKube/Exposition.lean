import Mathlib.Algebra.Field.Rat
import Mathlib.Algebra.GroupWithZero.Basic
import Mathlib.Data.Int.Notation
import Mathlib.Data.List.TakeWhile

/-!
# The text exposition format

The format in which a program exposes its metrics, as a scraper reads it.  A text is a
sequence of lines, each ended by a line feed.  A line is empty, a comment, or a sample: the
name of a metric, labels with their values, a number, and perhaps a time.  Two kinds of
comments are read, the help and the type of a metric.

In the value of a label, a backslash, a double quote and a line feed are escaped by a
backslash.  Numbers are decimal and exact.

## Main definitions

* `Sample`, `Scrape` — what a text says.
* `parseLabelValue` — the value of a label, after its opening quote.
* `parseLine` — what a line adds.
* `parse` — the whole text.

## Main results

* `parseLabelValue_of_plain` — a value with nothing to escape is read as it stands.
* `plain_of_parseLabelValue` — **a value that is read as it stands has nothing to escape**.
* `samples_foldlM` — samples are only ever added.
* `parseLine_sample` — a sample with one label and a count is read.
* `exists_parseLabelValue` — conversely, the first label of a sample that is read.
-/

namespace Exposition

/-- The value of a sample. -/
inductive Value
  | num (q : ℚ)
  | nan
  | inf (negative : Bool)
  deriving DecidableEq

/-- A sample; the time is in milliseconds. -/
structure Sample where
  name : List Char
  labels : List (List Char × List Char)
  value : Value
  timestamp : Option ℤ := none
  deriving DecidableEq

/-- The types of metrics. -/
inductive MetricType
  | counter
  | gauge
  | histogram
  | summary
  | untyped
  deriving DecidableEq

/-- What was read: the helps and the types of metrics, and the samples in their order. -/
structure Scrape where
  helps : List (List Char × List Char) := []
  types : List (List Char × MetricType) := []
  samples : List Sample := []
  deriving DecidableEq

/-! ### Tokens -/

/-- What separates tokens in a line. -/
def isBlank (c : Char) : Bool := c == ' ' || c == '\t'

def skipBlank (s : List Char) : List Char := s.dropWhile isBlank

/-- The tokens of a text. -/
def tokens (s : List Char) : List (List Char) :=
  (s.splitOnP isBlank).filter fun token => token ≠ []

def isLabelChar (c : Char) : Bool := c.isAlphanum || c == '_'

def isNameChar (c : Char) : Bool := isLabelChar c || c == ':'

/-- A name does not start with a digit. -/
def isName (s : List Char) : Bool := s.head?.any fun c => !c.isDigit

/-! ### Numbers -/

/-- A run of digits. -/
def readDigits (s : List Char) : Option ℕ :=
  if s ≠ [] ∧ s.all Char.isDigit then some (Nat.ofDigitChars 10 s 0) else none

/-- A whole number. -/
def readInt : List Char → Option ℤ
  | '-' :: s => (readDigits s).map fun n => -n
  | '+' :: s => (readDigits s).map fun n => n
  | s => (readDigits s).map fun n => n

/-- The power of ten at the end of a number. -/
def readExponent : List Char → Option ℤ
  | [] => some 0
  | c :: s => if c = 'e' ∨ c = 'E' then readInt s else none

/-- Digits, perhaps with a point, and perhaps a power of ten. -/
def readDecimal (s : List Char) : Option ℚ :=
  let whole := s.takeWhile Char.isDigit
  let rest := s.dropWhile Char.isDigit
  let fraction := if rest.head? = some '.' then rest.tail.takeWhile Char.isDigit else []
  let exponent := if rest.head? = some '.' then rest.tail.dropWhile Char.isDigit else rest
  if whole ++ fraction = [] then none
  else (readExponent exponent).map fun e : ℤ =>
    (Nat.ofDigitChars 10 (whole ++ fraction) 0 : ℚ) * 10 ^ (e - (fraction.length : ℤ))

/-- A number after its sign. -/
def readUnsigned (negative : Bool) (s : List Char) : Option Value :=
  ((readDecimal s).map fun q => .num (if negative then -q else q)).or
    (if s.map Char.toLower = "inf".toList ∨ s.map Char.toLower = "infinity".toList then
      some (.inf negative)
    else none)

/-- The value of a sample. -/
def readValue (s : List Char) : Option Value :=
  if s.head? = some '-' then readUnsigned true s.tail
  else if s.head? = some '+' then readUnsigned false s.tail
  else (readUnsigned false s).or (if s.map Char.toLower = "nan".toList then some .nan else none)

/-! ### Samples -/

/-- A character in front of what was read. -/
def push (c : Char) (r : Option (List Char × List Char)) : Option (List Char × List Char) :=
  r.map fun p => (c :: p.1, p.2)

/-- The value of a label after its opening quote, and what follows the closing one. -/
def parseLabelValue : List Char → Option (List Char × List Char)
  | [] => none
  | '"' :: rest => some ([], rest)
  | '\\' :: '\\' :: rest => push '\\' (parseLabelValue rest)
  | '\\' :: '"' :: rest => push '"' (parseLabelValue rest)
  | '\\' :: 'n' :: rest => push '\n' (parseLabelValue rest)
  | c :: rest => if c = '\\' ∨ c = '\n' then none else push c (parseLabelValue rest)

/-- A label, and what follows it. -/
def parseLabel (s : List Char) : Option ((List Char × List Char) × List Char) :=
  if isName (s.takeWhile isLabelChar) then
    match skipBlank (s.dropWhile isLabelChar) with
    | '=' :: rest =>
      match skipBlank rest with
      | '"' :: rest =>
        (parseLabelValue rest).map fun p => ((s.takeWhile isLabelChar, p.1), p.2)
      | _ => none
    | _ => none
  else none

/-- Labels after the opening brace, and what follows the closing one. -/
def parseLabels : ℕ → List Char → Option (List (List Char × List Char) × List Char)
  | 0, _ => none
  | fuel + 1, s =>
    match skipBlank s with
    | '}' :: rest => some ([], rest)
    | s =>
      (parseLabel s).bind fun label =>
        match skipBlank label.2 with
        | ',' :: rest => (parseLabels fuel rest).map fun p => (label.1 :: p.1, p.2)
        | '}' :: rest => some ([label.1], rest)
        | _ => none

/-- The end of a sample: its value, and perhaps its time. -/
def parseValue (name : List Char) (labels : List (List Char × List Char)) (s : List Char) :
    Option Sample :=
  match tokens s with
  | [value] => (readValue value).map fun v => ⟨name, labels, v, none⟩
  | [value, timestamp] =>
    (readValue value).bind fun v => (readInt timestamp).map fun t => ⟨name, labels, v, some t⟩
  | _ => none

/-- A line that is a sample. -/
def parseSample (s : List Char) : Option Sample :=
  if isName (s.takeWhile isNameChar) then
    match skipBlank (s.dropWhile isNameChar) with
    | '{' :: rest =>
      (parseLabels (rest.length + 1) rest).bind fun p =>
        parseValue (s.takeWhile isNameChar) p.1 p.2
    | rest => parseValue (s.takeWhile isNameChar) [] rest
  else none

/-! ### Comments -/

/-- The text of a help, where a backslash and a line feed are escaped. -/
def unescapeHelp : List Char → Option (List Char)
  | [] => some []
  | '\\' :: '\\' :: rest => (unescapeHelp rest).map ('\\' :: ·)
  | '\\' :: 'n' :: rest => (unescapeHelp rest).map ('\n' :: ·)
  | c :: rest => if c = '\\' then none else (unescapeHelp rest).map (c :: ·)

/-- The name of a type. -/
def readType (s : List Char) : Option MetricType :=
  if s = "counter".toList then some .counter
  else if s = "gauge".toList then some .gauge
  else if s = "histogram".toList then some .histogram
  else if s = "summary".toList then some .summary
  else if s = "untyped".toList then some .untyped
  else none

def isMetricName (s : List Char) : Bool := isName s && s.all isNameChar

/-- A metric has one help. -/
def addHelp (e : Scrape) (name help : List Char) : Option Scrape :=
  if isMetricName name && !e.helps.any (fun p => p.1 == name) then
    (unescapeHelp help).map fun text => { e with helps := e.helps ++ [(name, text)] }
  else none

/-- A metric has one type, before its first sample. -/
def addType (e : Scrape) (name type : List Char) : Option Scrape :=
  if isMetricName name && !e.types.any (fun p => p.1 == name)
      && !e.samples.any (fun sample => sample.name == name) then
    (readType type).map fun t => { e with types := e.types ++ [(name, t)] }
  else none

/-- The first token of a text, and what follows it. -/
def firstToken (s : List Char) : List Char × List Char :=
  ((skipBlank s).takeWhile fun c => !isBlank c,
    skipBlank ((skipBlank s).dropWhile fun c => !isBlank c))

/-- A comment is read if it is about help or a type. -/
def addComment (e : Scrape) (s : List Char) : Option Scrape :=
  if (firstToken s).1 = "HELP".toList then
    addHelp e (firstToken (firstToken s).2).1 (firstToken (firstToken s).2).2
  else if (firstToken s).1 = "TYPE".toList then
    match tokens (firstToken s).2 with
    | [name, type] => addType e name type
    | _ => none
  else some e

/-! ### Texts -/

/-- What a line adds. -/
def parseLine (e : Scrape) (line : List Char) : Option Scrape :=
  match skipBlank line with
  | [] => some e
  | '#' :: comment => addComment e comment
  | sample => (parseSample sample).map fun p => { e with samples := e.samples ++ [p] }

/-- The lines of a text, `line` being what there is of the first; the last one has to be ended. -/
def linesFrom (line : List Char) : List Char → Option (List (List Char))
  | [] => if line = [] then some [] else none
  | '\n' :: rest => (linesFrom [] rest).map (line :: ·)
  | c :: rest => linesFrom (line ++ [c]) rest

/-- What a text says. -/
def parse (text : List Char) : Option Scrape :=
  (linesFrom [] text).bind fun lines => lines.foldlM parseLine {}

/-! ### Values of labels -/

/-- There is nothing to escape. -/
def Plain (s : List Char) : Prop := '"' ∉ s ∧ '\\' ∉ s ∧ '\n' ∉ s

theorem parseLabelValue_cons {c : Char} (hquote : c ≠ '"') (hslash : c ≠ '\\') (hline : c ≠ '\n')
    (rest : List Char) : parseLabelValue (c :: rest) = push c (parseLabelValue rest) := by
  rw [parseLabelValue.eq_def]
  split
  · next heq => cases heq
  · next heq => exact absurd (List.cons_eq_cons.mp heq).1 hquote
  · next heq => exact absurd (List.cons_eq_cons.mp heq).1 hslash
  · next heq => exact absurd (List.cons_eq_cons.mp heq).1 hslash
  · next heq => exact absurd (List.cons_eq_cons.mp heq).1 hslash
  · next heq =>
    obtain ⟨rfl, rfl⟩ := List.cons_eq_cons.mp heq
    rw [if_neg (not_or.mpr ⟨hslash, hline⟩)]

/-- **A value with nothing to escape** is read as it stands. -/
theorem parseLabelValue_of_plain {s : List Char} (h : Plain s) (rest : List Char) :
    parseLabelValue (s ++ '"' :: rest) = some (s, rest) := by
  obtain ⟨hquote, hslash, hline⟩ := h
  induction s with
  | nil => rfl
  | cons c s ih =>
    rw [List.mem_cons, not_or] at hquote hslash hline
    rw [List.cons_append, parseLabelValue_cons (Ne.symm hquote.1) (Ne.symm hslash.1)
      (Ne.symm hline.1), ih hquote.2 hslash.2 hline.2]
    rfl

theorem push_eq_some {c : Char} {r : Option (List Char × List Char)} {value rest : List Char}
    (h : push c r = some (value, rest)) : ∃ v, r = some (v, rest) ∧ value = c :: v := by
  obtain ⟨⟨v, rest'⟩, hr, heq⟩ := Option.map_eq_some_iff.mp h
  obtain ⟨rfl, rfl⟩ := Prod.mk.inj heq
  exact ⟨v, hr, rfl⟩

/-- What `value` is read from, up to its closing quote: no shorter than it, and longer if
something in it is escaped. -/
def ReadFrom (value rest s : List Char) : Prop :=
  ∃ raw, s = raw ++ '"' :: rest ∧ value.length ≤ raw.length ∧
    (value.length = raw.length → value = raw ∧ Plain raw)

theorem ReadFrom.escaped {value rest s : List Char} (h : ReadFrom value rest s) (c d : Char) :
    ReadFrom (c :: value) rest ('\\' :: d :: s) := by
  obtain ⟨raw, rfl, hle, -⟩ := h
  refine ⟨'\\' :: d :: raw, rfl, ?_, ?_⟩
  · simp only [List.length_cons]
    omega
  · intro hlen
    simp only [List.length_cons] at hlen
    omega

theorem ReadFrom.cons {value rest s : List Char} (h : ReadFrom value rest s) {c : Char}
    (hquote : c ≠ '"') (hslash : c ≠ '\\') (hline : c ≠ '\n') :
    ReadFrom (c :: value) rest (c :: s) := by
  obtain ⟨raw, rfl, hle, hplain⟩ := h
  refine ⟨c :: raw, rfl, ?_, ?_⟩
  · simpa using hle
  · intro hlen
    obtain ⟨rfl, hquote', hslash', hline'⟩ := hplain (by simpa using hlen)
    refine ⟨rfl, ?_, ?_, ?_⟩
    · simp [hquote', Ne.symm hquote]
    · simp [hslash', Ne.symm hslash]
    · simp [hline', Ne.symm hline]

/-- **What is read is no longer than what stands there**, and shorter if something is escaped. -/
theorem parseLabelValue_raw {s value rest : List Char}
    (h : parseLabelValue s = some (value, rest)) : ReadFrom value rest s := by
  induction s using parseLabelValue.induct generalizing value rest with
  | case1 => cases h
  | case2 tail =>
    rw [parseLabelValue] at h
    obtain ⟨rfl, rfl⟩ := Prod.mk.inj (Option.some.inj h)
    exact ⟨[], rfl, le_rfl, fun _ => ⟨rfl, by simp [Plain]⟩⟩
  | case3 tail ih =>
    obtain ⟨v, hv, rfl⟩ := push_eq_some h
    exact (ih hv).escaped _ _
  | case4 tail ih =>
    obtain ⟨v, hv, rfl⟩ := push_eq_some h
    exact (ih hv).escaped _ _
  | case5 tail ih =>
    obtain ⟨v, hv, rfl⟩ := push_eq_some h
    exact (ih hv).escaped _ _
  | case6 c tail hquote hback hescape hbreak hbad =>
    rw [parseLabelValue, if_pos hbad] at h
    · cases h
    all_goals assumption
  | case7 c tail hquote hback hescape hbreak hbad ih =>
    obtain ⟨hslash, hline⟩ := not_or.mp hbad
    rw [parseLabelValue_cons hquote hslash hline] at h
    obtain ⟨v, hv, rfl⟩ := push_eq_some h
    exact (ih hv).cons hquote hslash hline

/-- **A value that is read as it stands has nothing to escape**: `tail` stands for the rest of
its line, without further quotes, and the line may be cut short before the end of the value. -/
theorem plain_of_parseLabelValue {s tail value rest : List Char} (htail : '"' ∉ tail)
    (hbegins : s <+: value ++ '"' :: tail) (h : parseLabelValue s = some (value, rest)) :
    Plain value := by
  obtain ⟨raw, rfl, hle, hplain⟩ := parseLabelValue_raw h
  obtain ⟨cut, hcut⟩ := hbegins
  rw [List.append_assoc, List.cons_append] at hcut
  have hraw : raw.length ≤ value.length := by
    rcases List.append_eq_append_iff.mp hcut with ⟨more, rfl, -⟩ | ⟨more, hmore, hrest⟩
    · simp
    · -- a quote beyond the end of the value would be one of the tail
      cases more with
      | nil => simp [hmore]
      | cons c more =>
        exfalso
        rw [List.cons_append, List.cons.injEq] at hrest
        exact htail (hrest.2 ▸ List.mem_append_right _ List.mem_cons_self)
  obtain ⟨rfl, hvalue⟩ := hplain (le_antisymm hle hraw)
  exact hvalue

/-! ### Lines -/

/-- The first line goes to the first line feed. -/
theorem linesFrom_line {s : List Char} (h : '\n' ∉ s) (line rest : List Char) :
    linesFrom line (s ++ '\n' :: rest) = (linesFrom [] rest).map ((line ++ s) :: ·) := by
  induction s generalizing line with
  | nil => rw [List.nil_append, List.append_nil, linesFrom]
  | cons c s ih =>
    rw [List.mem_cons, not_or] at h
    have hne : c = '\n' → False := fun heq => h.1 heq.symm
    rw [List.cons_append, linesFrom, ih h.2, List.append_assoc, List.singleton_append]
    exact hne

/-- Lines that are each ended are read one by one. -/
theorem linesFrom_lines {lines : List (List Char)} (h : ∀ line ∈ lines, '\n' ∉ line) :
    linesFrom [] (lines.flatMap fun line => line ++ ['\n']) = some lines := by
  induction lines with
  | nil => rfl
  | cons line lines ih =>
    rw [List.flatMap_cons, List.append_assoc, List.singleton_append,
      linesFrom_line (h line List.mem_cons_self), ih fun l hl => h l (List.mem_cons_of_mem _ hl)]
    rfl

/-- What has no line feed ends before the first one. -/
theorem prefix_of_not_mem {s line rest : List Char} (h : '\n' ∉ s)
    (hbegins : s <+: line ++ '\n' :: rest) : s <+: line := by
  rcases List.prefix_or_prefix_of_prefix hbegins (List.prefix_append line _) with hle | hle
  · exact hle
  · obtain ⟨more, rfl⟩ := hle
    cases more with
    | nil => exact (List.append_nil line).symm ▸ List.prefix_refl _
    | cons c more =>
      have hhead : c :: more <+: '\n' :: rest := (List.prefix_append_right_inj line).mp hbegins
      have hc : c = '\n' := (List.cons_prefix_cons.mp hhead).1
      exact absurd (hc ▸ List.mem_append_right _ List.mem_cons_self) h

/-! ### Samples -/

/-- Comments add no samples. -/
theorem samples_addComment {e e' : Scrape} {s : List Char} (h : addComment e s = some e') :
    e'.samples = e.samples := by
  unfold addComment addHelp addType at h
  split at h
  · obtain ⟨-, h⟩ := Option.ite_none_right_eq_some.mp h
    obtain ⟨text, -, rfl⟩ := Option.map_eq_some_iff.mp h
    rfl
  · split at h
    · split at h
      · obtain ⟨-, h⟩ := Option.ite_none_right_eq_some.mp h
        obtain ⟨type, -, rfl⟩ := Option.map_eq_some_iff.mp h
        rfl
      · cases h
    · rw [Option.some.inj h]

/-- A comment adds no sample. -/
theorem samples_comment {e e' : Scrape} {comment : List Char}
    (h : parseLine e ('#' :: comment) = some e') : e'.samples = e.samples :=
  samples_addComment h

theorem samples_parseLine {e e' : Scrape} {line : List Char} (h : parseLine e line = some e') :
    e.samples <+: e'.samples := by
  unfold parseLine at h
  split at h
  · obtain rfl := Option.some.inj h
    exact List.prefix_refl _
  · exact samples_addComment h ▸ List.prefix_refl _
  · obtain ⟨sample, -, rfl⟩ := Option.map_eq_some_iff.mp h
    exact List.prefix_append _ _

/-- **Samples are only ever added.** -/
theorem samples_foldlM {e e' : Scrape} {lines : List (List Char)}
    (h : lines.foldlM parseLine e = some e') : e.samples <+: e'.samples := by
  induction lines generalizing e with
  | nil =>
    obtain rfl := Option.some.inj h
    exact List.prefix_refl _
  | cons line lines ih =>
    rw [List.foldlM_cons] at h
    obtain ⟨mid, hmid, hrest⟩ := Option.bind_eq_some_iff.mp h
    exact (samples_parseLine hmid).trans (ih hrest)

theorem foldlM_cons_of_parseLine {e mid e' : Scrape} {line : List Char} {lines : List (List Char)}
    (hline : parseLine e line = some mid) (hlines : lines.foldlM parseLine mid = some e') :
    (line :: lines).foldlM parseLine e = some e' := by
  rw [List.foldlM_cons, hline]
  exact hlines

/-! ### Counts -/

/-- The characters of a count are digits. -/
theorem isDigit_of_mem_count {c : Char} {n : ℕ} (h : c ∈ Nat.toDigits 10 n) : c.isDigit = true :=
  Nat.isDigit_of_mem_toDigits (by omega) (by omega) h

/-- A character that is no digit is not in a count. -/
theorem not_mem_toDigits {c : Char} (hc : c.isDigit = false) (n : ℕ) :
    c ∉ Nat.toDigits 10 n := by
  intro hmem
  cases hc.symm.trans (isDigit_of_mem_count hmem)

theorem readDecimal_toDigits (n : ℕ) : readDecimal (Nat.toDigits 10 n) = some (n : ℚ) := by
  have htake : (Nat.toDigits 10 n).takeWhile Char.isDigit = Nat.toDigits 10 n :=
    List.takeWhile_eq_self_iff.mpr fun _ hc => isDigit_of_mem_count hc
  have hdrop : (Nat.toDigits 10 n).dropWhile Char.isDigit = [] :=
    List.dropWhile_eq_nil_iff.mpr fun _ hc => isDigit_of_mem_count hc
  simp [readDecimal, htake, hdrop, readExponent, Nat.ofDigitChars_ten_toDigits]

/-- **A count is read as it was written.** -/
theorem readValue_toDigits (n : ℕ) : readValue (Nat.toDigits 10 n) = some (.num n) := by
  have hsign : ∀ c : Char, c.isDigit = false → (Nat.toDigits 10 n).head? ≠ some c :=
    fun c hc hhead => not_mem_toDigits hc n (List.mem_of_mem_head? hhead)
  rw [readValue, if_neg (hsign '-' rfl), if_neg (hsign '+' rfl), readUnsigned,
    readDecimal_toDigits]
  rfl

/-- A token after a blank. -/
theorem tokens_of_not_blank {s : List Char} (hne : s ≠ []) (h : ∀ c ∈ s, isBlank c = false) :
    tokens (' ' :: s) = [s] := by
  rw [tokens, List.splitOnP_cons_eq_if_modifyHead, List.splitOnP_eq_singleton h]
  simp [isBlank, hne]

/-! ### A sample with a label -/

section Labelled

variable {name label s : List Char}

/-- A name with all its characters, up to what cannot be one of them. -/
theorem takeWhile_dropWhile_name {p : Char → Bool} {c : Char} (hname : name.all p = true)
    (hc : p c = false) (rest : List Char) :
    (name ++ c :: rest).takeWhile p = name ∧ (name ++ c :: rest).dropWhile p = c :: rest := by
  have hall : ∀ d ∈ name, p d = true := List.all_eq_true.mp hname
  rw [List.takeWhile_append_of_pos hall, List.dropWhile_append_of_pos hall,
    List.takeWhile_cons_of_neg (by simp [hc]), List.dropWhile_cons_of_neg (by simp [hc])]
  exact ⟨List.append_nil name, rfl⟩

/-- A label is its name, and what is read of its value. -/
theorem parseLabel_eq (hlabel : isName label = true) (hchars : label.all isLabelChar = true) :
    parseLabel (label ++ '=' :: '"' :: s)
      = (parseLabelValue s).map fun p => ((label, p.1), p.2) := by
  obtain ⟨htake, hdrop⟩ := takeWhile_dropWhile_name hchars (c := '=') rfl ('"' :: s)
  rw [parseLabel, htake, hdrop, if_pos hlabel]
  rfl

/-- A name starts with no blank, no brace and no hash. -/
theorem head_of_name {p : Char → Bool} (hname : isName name = true) (hchars : name.all p = true)
    (hp : ∀ c, p c = true → isNameChar c = true) :
    ∃ c t, name = c :: t ∧ isBlank c = false ∧ c ≠ '}' ∧ c ≠ '#' := by
  cases name with
  | nil => cases hname
  | cons c t =>
    have hc : isNameChar c = true := hp c (List.all_eq_true.mp hchars c List.mem_cons_self)
    refine ⟨c, t, rfl, ?_, ?_, ?_⟩
    · cases hblank : isBlank c with
      | false => rfl
      | true =>
        simp only [isBlank, Bool.or_eq_true, beq_iff_eq] at hblank
        rcases hblank with rfl | rfl <;> cases hc
    · rintro rfl
      cases hc
    · rintro rfl
      cases hc

theorem skipBlank_name {p : Char → Bool} (hname : isName name = true)
    (hchars : name.all p = true) (hp : ∀ c, p c = true → isNameChar c = true)
    (rest : List Char) : skipBlank (name ++ rest) = name ++ rest := by
  obtain ⟨c, t, rfl, hblank, -⟩ := head_of_name hname hchars hp
  exact List.dropWhile_cons_of_neg (by simp [hblank])

theorem isNameChar_of_isLabelChar (c : Char) (h : isLabelChar c = true) : isNameChar c = true := by
  rw [isNameChar, h, Bool.true_or]

/-- The labels of a sample, up to the value of the first. -/
theorem parseLabels_eq (hlabel : isName label = true) (hchars : label.all isLabelChar = true)
    (fuel : ℕ) : parseLabels (fuel + 1) (label ++ '=' :: '"' :: s)
      = (parseLabelValue s).bind fun p =>
        match skipBlank p.2 with
        | ',' :: rest => (parseLabels fuel rest).map fun more => ((label, p.1) :: more.1, more.2)
        | '}' :: rest => some ([(label, p.1)], rest)
        | _ => none := by
  have hskip := skipBlank_name hlabel hchars isNameChar_of_isLabelChar ('=' :: '"' :: s)
  obtain ⟨c, t, hct, -, hbrace, -⟩ := head_of_name hlabel hchars isNameChar_of_isLabelChar
  rw [parseLabels, hskip]
  split
  · next heq =>
    rw [hct, List.cons_append] at heq
    exact absurd (List.cons_eq_cons.mp heq).1 hbrace
  · rw [parseLabel_eq hlabel hchars]
    cases parseLabelValue s <;> rfl

/-- A sample, up to its labels. -/
theorem parseLine_eq (hname : isName name = true) (hchars : name.all isNameChar = true)
    (e : Scrape) : parseLine e (name ++ '{' :: s)
      = ((parseLabels (s.length + 1) s).bind fun p => parseValue name p.1 p.2).map fun p =>
        { e with samples := e.samples ++ [p] } := by
  obtain ⟨htake, hdrop⟩ := takeWhile_dropWhile_name hchars (c := '{') rfl s
  have hskip := skipBlank_name hname hchars (fun _ h => h) ('{' :: s)
  obtain ⟨c, t, hct, -, -, hhash⟩ := head_of_name hname hchars fun _ h => h
  have hsample : parseSample (name ++ '{' :: s)
      = (parseLabels (s.length + 1) s).bind fun p => parseValue name p.1 p.2 := by
    rw [parseSample, htake, hdrop, if_pos hname]
    rfl
  rw [parseLine, hskip]
  split
  · next heq =>
    rw [hct] at heq
    cases heq
  · next heq =>
    rw [hct, List.cons_append] at heq
    exact absurd (List.cons_eq_cons.mp heq).1 hhash
  · rw [hsample]

/-- **A sample with one label and a count**, the value of the label having nothing to escape. -/
theorem parseLine_sample (hname : isName name = true) (hchars : name.all isNameChar = true)
    (hlabel : isName label = true) (hchars' : label.all isLabelChar = true) {value : List Char}
    (hvalue : Plain value) (count : ℕ) (e : Scrape) :
    parseLine e (name ++ '{' :: (label ++ '=' :: '"' ::
        (value ++ '"' :: '}' :: ' ' :: Nat.toDigits 10 count)))
      = some { e with samples := e.samples ++ [⟨name, [(label, value)], .num count, none⟩] } := by
  have hblank : ∀ c ∈ Nat.toDigits 10 count, isBlank c = false := by
    intro c hc
    have hdigit : c.isDigit = true := isDigit_of_mem_count hc
    cases hblank : isBlank c with
    | false => rfl
    | true =>
      simp only [isBlank, Bool.or_eq_true, beq_iff_eq] at hblank
      rcases hblank with rfl | rfl <;> cases hdigit
  have hend : parseValue name [(label, value)] (' ' :: Nat.toDigits 10 count)
      = some ⟨name, [(label, value)], .num count, none⟩ := by
    rw [parseValue, tokens_of_not_blank Nat.toDigits_ne_nil hblank]
    simp only [readValue_toDigits, Option.map_some]
  rw [parseLine_eq hname hchars, parseLabels_eq hlabel hchars', parseLabelValue_of_plain hvalue]
  have hskip : ∀ rest, skipBlank ('}' :: rest) = '}' :: rest :=
    fun rest => List.dropWhile_cons_of_neg (by decide)
  simp only [Option.bind_some, hskip, hend, Option.map_some]

theorem labels_parseValue {labels : List (List Char × List Char)} {sample : Sample}
    (h : parseValue name labels s = some sample) : sample.labels = labels := by
  unfold parseValue at h
  split at h
  · obtain ⟨v, -, rfl⟩ := Option.map_eq_some_iff.mp h
    rfl
  · obtain ⟨v, -, h⟩ := Option.bind_eq_some_iff.mp h
    obtain ⟨t, -, rfl⟩ := Option.map_eq_some_iff.mp h
    rfl
  · cases h

/-- **The first label of a sample** is what its value is read as. -/
theorem exists_parseLabelValue (hname : isName name = true) (hchars : name.all isNameChar = true)
    (hlabel : isName label = true) (hchars' : label.all isLabelChar = true) {e e' : Scrape}
    (h : parseLine e (name ++ '{' :: (label ++ '=' :: '"' :: s)) = some e') :
    ∃ value rest sample, parseLabelValue s = some (value, rest) ∧
      sample.labels.head? = some (label, value) ∧ e'.samples = e.samples ++ [sample] := by
  rw [parseLine_eq hname hchars, parseLabels_eq hlabel hchars'] at h
  obtain ⟨sample, hsample, rfl⟩ := Option.map_eq_some_iff.mp h
  obtain ⟨⟨labels, rest⟩, hlabels, hend⟩ := Option.bind_eq_some_iff.mp hsample
  obtain ⟨⟨value, after⟩, hvalue, hlabels⟩ := Option.bind_eq_some_iff.mp hlabels
  refine ⟨value, after, sample, hvalue, ?_, rfl⟩
  rw [labels_parseValue hend]
  split at hlabels
  · obtain ⟨more, -, heq⟩ := Option.map_eq_some_iff.mp hlabels
    rw [← (Prod.mk.inj heq).1]
    rfl
  · rw [← (Prod.mk.inj (Option.some.inj hlabels)).1]
    rfl
  · cases hlabels

end Labelled

end Exposition
