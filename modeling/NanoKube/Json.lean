import Mathlib.Data.List.Basic
import Mathlib.Data.Int.Notation

/-!
# JSON text in ASCII

A JSON value, the text that an encoder writes for it when it escapes everything that is
not printable ASCII, and a decoder.  Text is a list of characters.  The encoder writes a
character of the supplementary planes as a surrogate pair; the decoder refuses a surrogate
that stands alone.  Numbers are whole.

## Main definitions

* `Json` — the values; an object keeps its fields in order.
* `Json.dumps` — the encoder, with `", "` and `": "` between items.
* `Json.parse` — the decoder.
* `Json.get?`, `Json.getItem?` — the parts of a value.

## Main results

* `Json.parse_dumps` — **the decoder inverts the encoder**.
* `Json.printable_dumps` — the text has no control characters, hence no line breaks.
-/

/-- JSON values. -/
inductive Json
  | null
  | bool (b : Bool)
  | num (n : ℤ)
  | str (s : List Char)
  | arr (items : List Json)
  | obj (fields : List (List Char × Json))

namespace Json

/-! ### The encoder -/

/-- Four hexadecimal digits. -/
def hex4 (n : ℕ) : List Char :=
  [(n / 4096 % 16).digitChar, (n / 256 % 16).digitChar, (n / 16 % 16).digitChar,
    (n % 16).digitChar]

/-- `\u` and the code unit. -/
def escapeUnit (n : ℕ) : List Char := '\\' :: 'u' :: hex4 n

/-- A character of a string. -/
def escapeChar (c : Char) : List Char :=
  if c = '"' then ['\\', '"']
  else if c = '\\' then ['\\', '\\']
  else if c = '\n' then ['\\', 'n']
  else if c = '\r' then ['\\', 'r']
  else if c = '\t' then ['\\', 't']
  else if c = '\x0c' then ['\\', 'f']
  else if c = '\x08' then ['\\', 'b']
  else if 32 ≤ c.toNat ∧ c.toNat ≤ 126 then [c]
  else if c.toNat < 0x10000 then escapeUnit c.toNat
  else escapeUnit (0xD800 + (c.toNat - 0x10000) / 1024)
    ++ escapeUnit (0xDC00 + (c.toNat - 0x10000) % 1024)

/-- A string, after its opening quote. -/
def escape (s : List Char) : List Char := s.flatMap escapeChar ++ ['"']

/-- A number. -/
def decimal : ℤ → List Char
  | .ofNat n => Nat.toDigits 10 n
  | .negSucc n => '-' :: Nat.toDigits 10 (n + 1)

mutual

/-- The text of a value. -/
def dumps : Json → List Char
  | .null => ['n', 'u', 'l', 'l']
  | .bool true => ['t', 'r', 'u', 'e']
  | .bool false => ['f', 'a', 'l', 's', 'e']
  | .num n => decimal n
  | .str s => '"' :: escape s
  | .arr [] => ['[', ']']
  | .arr (item :: items) => '[' :: (dumps item ++ dumpsItems items)
  | .obj [] => ['{', '}']
  | .obj ((key, value) :: fields) =>
    '{' :: '"' :: (escape key ++ ':' :: ' ' :: (dumps value ++ dumpsFields fields))

/-- The further items of an array, and its end. -/
def dumpsItems : List Json → List Char
  | [] => [']']
  | item :: items => ',' :: ' ' :: (dumps item ++ dumpsItems items)

/-- The further fields of an object, and its end. -/
def dumpsFields : List (List Char × Json) → List Char
  | [] => ['}']
  | (key, value) :: fields =>
    ',' :: ' ' :: '"' :: (escape key ++ ':' :: ' ' :: (dumps value ++ dumpsFields fields))

end

/-! ### The decoder -/

/-- The value of a hexadecimal digit. -/
def hexVal (c : Char) : Option ℕ :=
  if '0' ≤ c ∧ c ≤ '9' then some (c.toNat - 48)
  else if 'a' ≤ c ∧ c ≤ 'f' then some (c.toNat - 87)
  else if 'A' ≤ c ∧ c ≤ 'F' then some (c.toNat - 55)
  else none

/-- A code unit from its four digits. -/
def unit (a b c d : Char) : Option ℕ :=
  (hexVal a).bind fun a => (hexVal b).bind fun b => (hexVal c).bind fun c =>
    (hexVal d).map fun d => 4096 * a + 256 * b + 16 * c + d

/-- A character in front of what was decoded. -/
def push (c : Char) (r : Option (List Char × List Char)) : Option (List Char × List Char) :=
  r.map fun p => (c :: p.1, p.2)

/-- A string, after its opening quote: what it says, and what follows it. -/
def parseString : List Char → Option (List Char × List Char)
  | [] => none
  | '"' :: rest => some ([], rest)
  | '\\' :: rest =>
    match rest with
    | '"' :: rest => push '"' (parseString rest)
    | '\\' :: rest => push '\\' (parseString rest)
    | '/' :: rest => push '/' (parseString rest)
    | 'n' :: rest => push '\n' (parseString rest)
    | 'r' :: rest => push '\r' (parseString rest)
    | 't' :: rest => push '\t' (parseString rest)
    | 'f' :: rest => push '\x0c' (parseString rest)
    | 'b' :: rest => push '\x08' (parseString rest)
    | 'u' :: a :: b :: c :: d :: rest =>
      match unit a b c d with
      | none => none
      | some high =>
        -- the first half of a surrogate pair: the other half has to follow
        if 0xD800 ≤ high ∧ high < 0xDC00 then
          match rest with
          | '\\' :: 'u' :: a :: b :: c :: d :: rest =>
            match unit a b c d with
            | none => none
            | some low =>
              if 0xDC00 ≤ low ∧ low < 0xE000 then
                push (Char.ofNat (0x10000 + (high - 0xD800) * 1024 + (low - 0xDC00)))
                  (parseString rest)
              else none
          | _ => none
        else if 0xDC00 ≤ high ∧ high < 0xE000 then none
        else push (Char.ofNat high) (parseString rest)
    | _ => none
  | c :: rest => if c.toNat < 32 then none else push c (parseString rest)

/-- White space between tokens. -/
def isSpace (c : Char) : Bool := c == ' ' || c == '\n' || c == '\r' || c == '\t'

def skipSpace (s : List Char) : List Char := s.dropWhile isSpace

/-- The digits of a number. -/
def parseNat (s : List Char) : Option (ℕ × List Char) :=
  if s.takeWhile Char.isDigit = [] then none
  else some (Nat.ofDigitChars 10 (s.takeWhile Char.isDigit) 0, s.dropWhile Char.isDigit)

/-- A number. -/
def parseNumber : List Char → Option (Json × List Char)
  | '-' :: rest => (parseNat rest).map fun p => (.num (-p.1), p.2)
  | s => (parseNat s).map fun p => (.num p.1, p.2)

/-- The name of a field, and the colon. -/
def parseKey (s : List Char) : Option (List Char × List Char) :=
  match skipSpace s with
  | '"' :: rest =>
    (parseString rest).bind fun p =>
      match skipSpace p.2 with
      | ':' :: rest => some (p.1, rest)
      | _ => none
  | _ => none

mutual

/-- A value, and what follows it. -/
def parseValue : ℕ → List Char → Option (Json × List Char)
  | 0, _ => none
  | fuel + 1, s =>
    match skipSpace s with
    | 'n' :: 'u' :: 'l' :: 'l' :: rest => some (.null, rest)
    | 't' :: 'r' :: 'u' :: 'e' :: rest => some (.bool true, rest)
    | 'f' :: 'a' :: 'l' :: 's' :: 'e' :: rest => some (.bool false, rest)
    | '"' :: rest => (parseString rest).map fun p => (.str p.1, p.2)
    | '[' :: rest =>
      match skipSpace rest with
      | ']' :: rest => some (.arr [], rest)
      | rest =>
        (parseValue fuel rest).bind fun item =>
          (parseItems fuel item.2).map fun items => (.arr (item.1 :: items.1), items.2)
    | '{' :: rest =>
      match skipSpace rest with
      | '}' :: rest => some (.obj [], rest)
      | rest =>
        (parseKey rest).bind fun key => (parseValue fuel key.2).bind fun value =>
          (parseFields fuel value.2).map fun fields =>
            (.obj ((key.1, value.1) :: fields.1), fields.2)
    | rest => parseNumber rest

/-- The further items of an array, and what follows its end. -/
def parseItems : ℕ → List Char → Option (List Json × List Char)
  | 0, _ => none
  | fuel + 1, s =>
    match skipSpace s with
    | ']' :: rest => some ([], rest)
    | ',' :: rest =>
      (parseValue fuel rest).bind fun item =>
        (parseItems fuel item.2).map fun items => (item.1 :: items.1, items.2)
    | _ => none

/-- The further fields of an object, and what follows its end. -/
def parseFields : ℕ → List Char → Option (List (List Char × Json) × List Char)
  | 0, _ => none
  | fuel + 1, s =>
    match skipSpace s with
    | '}' :: rest => some ([], rest)
    | ',' :: rest =>
      (parseKey rest).bind fun key => (parseValue fuel key.2).bind fun value =>
        (parseFields fuel value.2).map fun fields => ((key.1, value.1) :: fields.1, fields.2)
    | _ => none

end

/-- A text that is one value. -/
def parse (s : List Char) : Option Json :=
  (parseValue (s.length + 1) s).bind fun p => if skipSpace p.2 = [] then some p.1 else none

/-- The field of an object, the last one where the name repeats. -/
def get? (key : List Char) : Json → Option Json
  | .obj fields => fields.reverse.lookup key
  | _ => none

/-- An item of an array. -/
def getItem? (i : ℕ) : Json → Option Json
  | .arr items => items[i]?
  | _ => none

/-! ### Fields -/

section Fields

variable {key other : List Char} {value : Json} {fields : List (List Char × Json)}

@[simp] theorem get?_nil : get? key (.obj []) = none := rfl

/-- Of two lists of fields the second has the last word. -/
theorem get?_append (fields more : List (List Char × Json)) :
    get? key (.obj (fields ++ more)) = (get? key (.obj more)).or (get? key (.obj fields)) := by
  rw [get?, get?, get?, List.reverse_append, List.lookup_append]

@[simp] theorem get?_singleton_self : get? key (.obj [(key, value)]) = some value := by
  simp [get?]

theorem get?_singleton_of_ne (h : other ≠ key) : get? other (.obj [(key, value)]) = none := by
  rw [get?, List.reverse_singleton, List.lookup_eq_none_iff]
  simpa using h

/-- Without the fields of one name, the fields of the others are still found. -/
theorem get?_filter (h : other ≠ key) :
    get? other (.obj (fields.filter fun field => field.1 ≠ key)) = get? other (.obj fields) := by
  induction fields with
  | nil => rfl
  | cons field fields ih =>
    have hcons : ∀ rest : List (List Char × Json), get? other (.obj (field :: rest))
        = (get? other (.obj rest)).or (get? other (.obj [field])) :=
      fun rest => get?_append [field] rest
    by_cases hkey : field.1 = key
    · have hnone : get? other (.obj [field]) = none := get?_singleton_of_ne (hkey ▸ h)
      rw [List.filter_cons_of_neg (by simp [hkey]), ih, hcons, hnone, Option.or_none]
    · rw [List.filter_cons_of_pos (by simp [hkey]), hcons, hcons fields, ih]

end Fields

/-! ### Strings -/

theorem hexVal_digitChar : ∀ d < 16, hexVal d.digitChar = some d := by decide

/-- The four digits of a code unit name it. -/
theorem unit_hex4 {n : ℕ} (h : n < 0x10000) :
    unit (n / 4096 % 16).digitChar (n / 256 % 16).digitChar (n / 16 % 16).digitChar
      (n % 16).digitChar = some n := by
  have hdigit : ∀ m, hexVal (m % 16).digitChar = some (m % 16) :=
    fun m => hexVal_digitChar _ (Nat.mod_lt _ (by decide))
  simp only [unit, hdigit, Option.bind_some, Option.map_some, Option.some.injEq]
  omega

/-- One code unit that is not a surrogate. -/
theorem parseString_escapeUnit {n : ℕ} (h : n < 0xD800 ∨ (0xE000 ≤ n ∧ n < 0x10000))
    (rest : List Char) :
    parseString (escapeUnit n ++ rest) = push (Char.ofNat n) (parseString rest) := by
  have hhigh : ¬ (0xD800 ≤ n ∧ n < 0xDC00) := by omega
  have hlow : ¬ (0xDC00 ≤ n ∧ n < 0xE000) := by omega
  simp only [escapeUnit, hex4, List.cons_append, List.nil_append, parseString]
  rw [unit_hex4 (by omega)]
  simp only [if_neg hhigh, if_neg hlow]

/-- A surrogate pair. -/
theorem parseString_escapePair {n : ℕ} (h : n < 0x100000) (rest : List Char) :
    parseString (escapeUnit (0xD800 + n / 1024) ++ (escapeUnit (0xDC00 + n % 1024) ++ rest))
      = push (Char.ofNat (0x10000 + n)) (parseString rest) := by
  have hhigh : 0xD800 ≤ 0xD800 + n / 1024 ∧ 0xD800 + n / 1024 < 0xDC00 := by omega
  have hlow : 0xDC00 ≤ 0xDC00 + n % 1024 ∧ 0xDC00 + n % 1024 < 0xE000 := by omega
  have hsum : 0x10000 + (0xD800 + n / 1024 - 0xD800) * 1024 + (0xDC00 + n % 1024 - 0xDC00)
      = 0x10000 + n := by omega
  simp only [escapeUnit, hex4, List.cons_append, List.nil_append, parseString]
  rw [unit_hex4 (by omega), unit_hex4 (by omega)]
  simp only [if_pos hhigh, if_pos hlow, hsum]

/-- **Every character comes back.** -/
theorem parseString_escapeChar (c : Char) (rest : List Char) :
    parseString (escapeChar c ++ rest) = push c (parseString rest) := by
  have hvalid : c.toNat < 0xD800 ∨ (0xDFFF < c.toNat ∧ c.toNat < 0x110000) := c.valid
  unfold escapeChar
  split_ifs with h1 h2 h3 h4 h5 h6 h7 hprint hbmp
  · rw [h1]
    rfl
  · rw [h2]
    rfl
  · rw [h3]
    rfl
  · rw [h4]
    rfl
  · rw [h5]
    rfl
  · rw [h6]
    rfl
  · rw [h7]
    rfl
  · have hspace : ¬ c.toNat < 32 := by omega
    simp [parseString, hspace]
  · rw [parseString_escapeUnit (by omega), Char.ofNat_toNat]
  · have hsum : 0x10000 + (c.toNat - 0x10000) = c.toNat := by omega
    rw [List.append_assoc, parseString_escapePair (by omega), hsum, Char.ofNat_toNat]

theorem parseString_escape (s rest : List Char) :
    parseString (escape s ++ rest) = some (s, rest) := by
  induction s with
  | nil => simp [escape, parseString]
  | cons c s ih =>
    have hsplit : escape (c :: s) ++ rest = escapeChar c ++ (escape s ++ rest) := by
      simp [escape]
    rw [hsplit, parseString_escapeChar, ih]
    rfl

/-! ### Numbers -/

/-- What follows a number does not go on with a digit. -/
def EndsNumber (rest : List Char) : Prop := ∀ c ∈ rest.head?, c.isDigit = false

/-- The characters of a number without its sign are digits. -/
theorem isDigit_of_mem_digits {c : Char} {n : ℕ} (h : c ∈ Nat.toDigits 10 n) :
    c.isDigit = true :=
  Nat.isDigit_of_mem_toDigits (by omega) (by omega) h

theorem parseNat_toDigits (n : ℕ) {rest : List Char} (h : EndsNumber rest) :
    parseNat (Nat.toDigits 10 n ++ rest) = some (n, rest) := by
  have hdigits : ∀ c ∈ Nat.toDigits 10 n, c.isDigit = true :=
    fun _ hc => isDigit_of_mem_digits hc
  have htake : rest.takeWhile Char.isDigit = [] := by
    cases rest with
    | nil => rfl
    | cons c rest => simp [h c rfl]
  have hdrop : rest.dropWhile Char.isDigit = rest := by
    cases rest with
    | nil => rfl
    | cons c rest => simp [h c rfl]
  rw [parseNat, List.takeWhile_append_of_pos hdigits, List.dropWhile_append_of_pos hdigits, htake,
    hdrop, List.append_nil, if_neg Nat.toDigits_ne_nil, Nat.ofDigitChars_ten_toDigits]

/-- A number starts with a digit or a sign. -/
theorem decimal_cons (n : ℤ) :
    ∃ c t, decimal n = c :: t ∧ (c = '-' ∨ c.isDigit = true) := by
  cases n with
  | negSucc n => exact ⟨'-', _, rfl, Or.inl rfl⟩
  | ofNat n =>
    obtain ⟨c, t, hct⟩ := List.exists_cons_of_ne_nil (Nat.toDigits_ne_nil (n := n) (b := 10))
    refine ⟨c, t, hct, Or.inr ?_⟩
    exact isDigit_of_mem_digits (hct ▸ List.mem_cons_self)

theorem parseNumber_decimal (n : ℤ) {rest : List Char} (h : EndsNumber rest) :
    parseNumber (decimal n ++ rest) = some (.num n, rest) := by
  cases n with
  | negSucc n =>
    simp only [decimal, List.cons_append, parseNumber, parseNat_toDigits (n + 1) h]
    rfl
  | ofNat n =>
    obtain ⟨c, t, hct, -⟩ := decimal_cons (.ofNat n)
    have hmem : c ∈ decimal (.ofNat n) := by
      rw [hct]
      exact List.mem_cons_self
    have hdigit : c.isDigit = true := isDigit_of_mem_digits hmem
    have hsign : c ≠ '-' := by
      rintro rfl
      cases hdigit
    have hparse := parseNat_toDigits n h
    rw [← decimal, hct] at hparse
    rw [hct]
    simp only [List.cons_append] at hparse ⊢
    unfold parseNumber
    split
    · next heq => exact absurd (List.cons_eq_cons.mp heq).1 hsign
    · rw [hparse]
      rfl

/-! ### Values -/

theorem skipSpace_cons {c : Char} (h : isSpace c = false) (t : List Char) :
    skipSpace (c :: t) = c :: t := by
  rw [skipSpace, List.dropWhile_cons_of_neg (by simp [h])]

/-- A text starts with the character its kind of value starts with. -/
theorem dumps_cons (j : Json) : ∃ c t, dumps j = c :: t ∧ isSpace c = false ∧ c ≠ ']' := by
  cases j with
  | null => exact ⟨_, _, rfl, rfl, by decide⟩
  | bool b => cases b <;> exact ⟨_, _, rfl, rfl, by decide⟩
  | str s => exact ⟨_, _, rfl, rfl, by decide⟩
  | arr items => cases items <;> exact ⟨_, _, rfl, rfl, by decide⟩
  | obj fields => cases fields <;> exact ⟨_, _, rfl, rfl, by decide⟩
  | num n =>
    obtain ⟨c, t, hct, hc⟩ := decimal_cons n
    refine ⟨c, t, hct, ?_, ?_⟩
    · rcases hc with rfl | hc
      · decide
      · cases hspace : isSpace c with
        | false => rfl
        | true =>
          simp only [isSpace, Bool.or_eq_true, beq_iff_eq] at hspace
          rcases hspace with ((rfl | rfl) | rfl) | rfl <;> cases hc
    · rintro rfl
      rcases hc with hc | hc <;> cases hc

theorem endsNumber_cons {c : Char} (h : c.isDigit = false) (t : List Char) :
    EndsNumber (c :: t) := by
  intro d hd
  rwa [← Option.some.inj hd]

theorem endsNumber_dumpsItems (items : List Json) (rest : List Char) :
    EndsNumber (dumpsItems items ++ rest) := by
  cases items <;> exact endsNumber_cons rfl _

theorem endsNumber_dumpsFields (fields : List (List Char × Json)) (rest : List Char) :
    EndsNumber (dumpsFields fields ++ rest) := by
  rcases fields with _ | ⟨⟨key, value⟩, fields⟩ <;> exact endsNumber_cons rfl _

theorem parseValue_decimal (fuel : ℕ) (n : ℤ) {rest : List Char} (h : EndsNumber rest) :
    parseValue (fuel + 1) (decimal n ++ rest) = some (.num n, rest) := by
  obtain ⟨c, t, hct, hspace, -⟩ := dumps_cons (.num n)
  obtain ⟨d, t', hdt, hd⟩ := decimal_cons n
  have hsame : c = d := (List.cons_eq_cons.mp (hct.symm.trans hdt)).1
  have hparse := parseNumber_decimal n h
  have hne : c ≠ 'n' ∧ c ≠ 't' ∧ c ≠ 'f' ∧ c ≠ '"' ∧ c ≠ '[' ∧ c ≠ '{' := by
    rw [hsame]
    refine ⟨?_, ?_, ?_, ?_, ?_, ?_⟩ <;> rintro rfl <;> rcases hd with hd | hd <;> cases hd
  have hskip : skipSpace (decimal n ++ rest) = decimal n ++ rest := by
    rw [← dumps, hct]
    exact skipSpace_cons hspace _
  unfold parseValue
  rw [hskip]
  rw [← dumps, hct] at hparse ⊢
  split
  all_goals first
    | exact hparse
    | next heq => simp only [List.cons_append, List.cons.injEq] at heq; exact absurd heq.1 (by grind)

theorem skipSpace_space (s : List Char) : skipSpace (' ' :: s) = skipSpace s :=
  List.dropWhile_cons_of_pos rfl

theorem parseKey_escape (key rest : List Char) :
    parseKey ('"' :: (escape key ++ ':' :: ' ' :: rest)) = some (key, ' ' :: rest) := by
  have hquote : skipSpace ('"' :: (escape key ++ ':' :: ' ' :: rest))
      = '"' :: (escape key ++ ':' :: ' ' :: rest) := skipSpace_cons rfl _
  have hcolon : skipSpace (':' :: ' ' :: rest) = ':' :: ' ' :: rest :=
    skipSpace_cons rfl _
  simp only [parseKey, hquote, parseString_escape, Option.bind_some, hcolon]

/-- A space in front of a field is skipped. -/
theorem parseKey_space (s : List Char) : parseKey (' ' :: s) = parseKey s := by
  rw [parseKey, parseKey, skipSpace_space]

/-- A space in front of a value is skipped. -/
theorem parseValue_space (fuel : ℕ) (s : List Char) :
    parseValue fuel (' ' :: s) = parseValue fuel s := by
  cases fuel with
  | zero => rfl
  | succ fuel => rw [parseValue, parseValue, skipSpace_space]

mutual

/-- The text of a value, read with as much fuel as it has characters. -/
theorem parseValue_dumps : ∀ (j : Json) (fuel : ℕ) (rest : List Char),
    (dumps j).length ≤ fuel → EndsNumber rest →
      parseValue fuel (dumps j ++ rest) = some (j, rest)
  | _, 0, _, hfuel, _ => by
    obtain ⟨c, t, hct, -⟩ := dumps_cons _
    rw [hct] at hfuel
    cases hfuel
  | .null, _ + 1, _, _, _ => rfl
  | .bool true, _ + 1, _, _, _ => rfl
  | .bool false, _ + 1, _, _, _ => rfl
  | .num n, fuel + 1, rest, _, hrest => parseValue_decimal fuel n hrest
  | .str s, fuel + 1, rest, _, _ => by
    simp [dumps, parseValue, skipSpace_cons (c := '"') rfl, parseString_escape]
  | .arr [], _ + 1, _, _, _ => rfl
  | .arr (item :: items), fuel + 1, rest, hfuel, _ => by
    obtain ⟨c, t, hct, hspace, hc⟩ := dumps_cons item
    simp only [dumps, List.length_cons, List.length_append] at hfuel
    have hitem := parseValue_dumps item fuel (dumpsItems items ++ rest) (by omega)
      (endsNumber_dumpsItems items rest)
    have hitems := parseItems_dumpsItems items fuel rest (by omega)
    rw [hct] at hitem
    simp only [dumps, List.cons_append, List.append_assoc, parseValue,
      skipSpace_cons (c := '[') rfl]
    rw [hct, List.cons_append, skipSpace_cons hspace]
    -- an item does not start with the bracket that ends the array
    split
    · next heq => exact absurd (List.cons_eq_cons.mp heq).1 hc
    · rw [List.cons_append] at hitem
      rw [hitem, Option.bind_some, hitems]
      rfl
  | .obj [], _ + 1, _, _, _ => rfl
  | .obj ((key, value) :: fields), fuel + 1, rest, hfuel, _ => by
    simp only [dumps, List.length_cons, List.length_append] at hfuel
    have hvalue := parseValue_dumps value fuel (dumpsFields fields ++ rest) (by omega)
      (endsNumber_dumpsFields fields rest)
    have hfields := parseFields_dumpsFields fields fuel rest (by omega)
    simp only [dumps, List.cons_append, List.append_assoc, parseValue,
      skipSpace_cons (c := '{') rfl, skipSpace_cons (c := '"') rfl]
    -- nor does a field with the brace
    split
    · next heq => cases (List.cons_eq_cons.mp heq).1
    · simp only [parseKey_escape, Option.bind_some, parseValue_space, hvalue, hfields,
        Option.map_some]

/-- The same, for the rest of an array. -/
theorem parseItems_dumpsItems : ∀ (items : List Json) (fuel : ℕ) (rest : List Char),
    (dumpsItems items).length ≤ fuel →
      parseItems fuel (dumpsItems items ++ rest) = some (items, rest)
  | items, 0, rest, hfuel => by cases items <;> simp [dumpsItems] at hfuel
  | [], fuel + 1, rest, _ => by
    simp [dumpsItems, parseItems, skipSpace_cons (c := ']') rfl]
  | item :: items, fuel + 1, rest, hfuel => by
    simp only [dumpsItems, List.length_cons, List.length_append] at hfuel
    have hitem := parseValue_dumps item fuel (dumpsItems items ++ rest) (by omega)
      (endsNumber_dumpsItems items rest)
    have hitems := parseItems_dumpsItems items fuel rest (by omega)
    simp only [dumpsItems, List.cons_append, List.append_assoc, parseItems,
      skipSpace_cons (c := ',') rfl, parseValue_space, hitem,
      Option.bind_some, hitems, Option.map_some]

/-- The same, for the rest of an object. -/
theorem parseFields_dumpsFields : ∀ (fields : List (List Char × Json)) (fuel : ℕ)
    (rest : List Char), (dumpsFields fields).length ≤ fuel →
      parseFields fuel (dumpsFields fields ++ rest) = some (fields, rest)
  | fields, 0, rest, hfuel => by
    rcases fields with _ | ⟨⟨key, value⟩, fields⟩ <;> simp [dumpsFields] at hfuel
  | [], fuel + 1, rest, _ => by
    simp [dumpsFields, parseFields, skipSpace_cons (c := '}') rfl]
  | (key, value) :: fields, fuel + 1, rest, hfuel => by
    simp only [dumpsFields, List.length_cons, List.length_append] at hfuel
    have hvalue := parseValue_dumps value fuel (dumpsFields fields ++ rest) (by omega)
      (endsNumber_dumpsFields fields rest)
    have hfields := parseFields_dumpsFields fields fuel rest (by omega)
    simp only [dumpsFields, List.cons_append, List.append_assoc, parseFields,
      skipSpace_cons (c := ',') rfl, parseKey_space, parseKey_escape,
      Option.bind_some, parseValue_space, hvalue, hfields, Option.map_some]

end

/-- **The decoder inverts the encoder.** -/
theorem parse_dumps (j : Json) : parse (dumps j) = some j := by
  have hvalue := parseValue_dumps j ((dumps j).length + 1) [] (Nat.le_succ _)
    (fun _ hc => by cases hc)
  rw [List.append_nil] at hvalue
  rw [parse, hvalue, Option.bind_some]
  exact if_pos rfl

/-! ### Printable text -/

/-- Printable ASCII. -/
def Printable (s : List Char) : Prop := ∀ c ∈ s, 32 ≤ c.toNat ∧ c.toNat ≤ 126

instance (s : List Char) : Decidable (Printable s) :=
  List.decidableBAll (fun c : Char => 32 ≤ c.toNat ∧ c.toNat ≤ 126) s

@[simp] theorem printable_nil : Printable [] := fun _ hc => by cases hc

@[simp] theorem printable_cons {c : Char} {s : List Char} :
    Printable (c :: s) ↔ (32 ≤ c.toNat ∧ c.toNat ≤ 126) ∧ Printable s :=
  List.forall_mem_cons

@[simp] theorem printable_append {s t : List Char} :
    Printable (s ++ t) ↔ Printable s ∧ Printable t :=
  List.forall_mem_append

theorem printable_digitChar : ∀ d < 16, 32 ≤ d.digitChar.toNat ∧ d.digitChar.toNat ≤ 126 := by
  decide

theorem printable_escapeUnit (n : ℕ) : Printable (escapeUnit n) := by
  have hdigit : ∀ m, 32 ≤ (m % 16).digitChar.toNat ∧ (m % 16).digitChar.toNat ≤ 126 :=
    fun m => printable_digitChar _ (Nat.mod_lt _ (by decide))
  simp [escapeUnit, hex4, hdigit]

/-- Whatever the character, its escape is printable. -/
theorem printable_escapeChar (c : Char) : Printable (escapeChar c) := by
  unfold escapeChar
  split_ifs with h1 h2 h3 h4 h5 h6 h7 hprint hbmp
  · simp
  · simp
  · simp
  · simp
  · simp
  · simp
  · simp
  · exact printable_cons.mpr ⟨hprint, printable_nil⟩
  · exact printable_escapeUnit _
  · exact printable_append.mpr ⟨printable_escapeUnit _, printable_escapeUnit _⟩

theorem printable_escape (s : List Char) : Printable (escape s) := by
  refine printable_append.mpr ⟨fun d hd => ?_, by simp⟩
  obtain ⟨c, -, hdc⟩ := List.mem_flatMap.mp hd
  exact printable_escapeChar c d hdc

theorem printable_toDigits (n : ℕ) : Printable (Nat.toDigits 10 n) := by
  intro c hc
  have hdigit : c.isDigit = true := isDigit_of_mem_digits hc
  have hbounds : 48 ≤ c.toNat ∧ c.toNat ≤ 57 := by
    simpa [Char.isDigit, Char.le_def, UInt32.le_iff_toNat_le] using hdigit
  omega

theorem printable_decimal (n : ℤ) : Printable (decimal n) := by
  cases n with
  | ofNat n => exact printable_toDigits n
  | negSucc n => simp [decimal, printable_toDigits]

mutual

/-- **The text of a value is printable ASCII.** -/
theorem printable_dumps : ∀ j : Json, Printable (dumps j)
  | .null => by simp [dumps]
  | .bool true => by simp [dumps]
  | .bool false => by simp [dumps]
  | .num n => printable_decimal n
  | .str s => by simp [dumps, printable_escape s]
  | .arr [] => by simp [dumps]
  | .arr (item :: items) => by simp [dumps, printable_dumps item, printable_dumpsItems items]
  | .obj [] => by simp [dumps]
  | .obj ((key, value) :: fields) => by
    simp [dumps, printable_escape key, printable_dumps value, printable_dumpsFields fields]

/-- The same, for the rest of an array. -/
theorem printable_dumpsItems : ∀ items : List Json, Printable (dumpsItems items)
  | [] => by simp [dumpsItems]
  | item :: items => by
    simp [dumpsItems, printable_dumps item, printable_dumpsItems items]

/-- The same, for the rest of an object. -/
theorem printable_dumpsFields :
    ∀ fields : List (List Char × Json), Printable (dumpsFields fields)
  | [] => by simp [dumpsFields]
  | (key, value) :: fields => by
    simp [dumpsFields, printable_escape key, printable_dumps value,
      printable_dumpsFields fields]

end

end Json
