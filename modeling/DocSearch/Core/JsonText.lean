import DocSearch.Core.Python

/-!
# Core — JsonText

`json.dumps` and `json.loads` with their defaults: the text of a value is ASCII, with `", "` between
the items of a list or a map and `": "` between a key and its value.  A string with a lone
surrogate is no list of characters, and the text of one is not read.  An integer of more than 4300
digits is neither written nor read.

* `scanString_strText`: the text of a string, read back.
* `loads_dumps`: the text of a value without floats, read back.
-/

namespace DocSearch

namespace JsonText

def quote : Char := Char.ofNat 34

def backslash : Char := Char.ofNat 92

def openBrace : Char := Char.ofNat 123

def closeBrace : Char := Char.ofNat 125

/-- The escapes of one letter, `ESCAPE_DCT`, each with the character it stands for. -/
def escapes : List (Char × Char) :=
  [(quote, quote), (backslash, backslash), ('b', Char.ofNat 8), ('f', Char.ofNat 12), ('n', '\n'),
    ('r', '\r'), ('t', '\t')]

/-! ### Text of values -/

/-- The four digits of a code unit, escaped. -/
def unicodeEscape (n : ℕ) : Str := backslash :: 'u' :: (hexDigits 4 n).map hexChar

/-- What `ensure_ascii` writes for a character. -/
def escape (c : Char) : Str :=
  match escapes.find? fun e => decide (e.2 = c) with
  | some e => [backslash, e.1]
  | none =>
      if ' ' ≤ c ∧ c ≤ '~' then [c]
      else if c.toNat < 0x10000 then unicodeEscape c.toNat
      else
        unicodeEscape (0xd800 + (c.toNat - 0x10000) / 0x400) ++
          unicodeEscape (0xdc00 + (c.toNat - 0x10000) % 0x400)

def strText (s : Str) : Str := quote :: (s.flatMap escape ++ [quote])

mutual

/-- The text of a value. -/
def text (reprFloat : PyFloat → Str) : Json → Str
  | .null => "null".toList
  | .bool true => "true".toList
  | .bool false => "false".toList
  | .int n => strInt n
  | .float x => reprFloat x
  | .str s => strText s
  | .array [] => ['[', ']']
  | .array (x :: xs) => '[' :: (text reprFloat x ++ itemsText reprFloat xs)
  | .object [] => [openBrace, closeBrace]
  | .object ((k, x) :: fields) =>
      openBrace :: (strText k ++ [':', ' '] ++ text reprFloat x ++ fieldsText reprFloat fields)

/-- The further items of a list. -/
def itemsText (reprFloat : PyFloat → Str) : List Json → Str
  | [] => [']']
  | x :: xs => [',', ' '] ++ text reprFloat x ++ itemsText reprFloat xs

/-- The further fields of a map. -/
def fieldsText (reprFloat : PyFloat → Str) : List (Str × Json) → Str
  | [] => [closeBrace]
  | (k, x) :: fields =>
      [',', ' '] ++ strText k ++ [':', ' '] ++ text reprFloat x ++ fieldsText reprFloat fields

end

/-- `sys.get_int_max_str_digits()`. -/
def maxStrDigits : ℕ := 4300

/-- The digits of an integer are few enough to be converted. -/
def FewDigits (n : ℤ) : Prop := (strNat n.natAbs).length ≤ maxStrDigits

instance (n : ℤ) : Decidable (FewDigits n) := inferInstanceAs (Decidable (_ ≤ _))

mutual

/-- Every integer in the value can be converted. -/
def convertible : Json → Bool
  | .int n => decide (FewDigits n)
  | .array xs => convertibleItems xs
  | .object fields => convertibleFields fields
  | .null | .bool _ | .float _ | .str _ => true

def convertibleItems : List Json → Bool
  | [] => true
  | x :: xs => convertible x && convertibleItems xs

def convertibleFields : List (Str × Json) → Bool
  | [] => true
  | (_, x) :: fields => convertible x && convertibleFields fields

end

/-- `json.dumps`, `none` for the `ValueError` of an integer that is too long. -/
def dumps (reprFloat : PyFloat → Str) (x : Json) : Option Str :=
  if convertible x then some (text reprFloat x) else none

/-! ### Values of texts -/

/-- The code unit of four hexadecimal digits. -/
def codeUnit (a b c d : Char) : Option ℕ := do
  return (((← hexValue a) * 16 + (← hexValue b)) * 16 + (← hexValue c)) * 16 + (← hexValue d)

/-- A string with one more character. -/
def push (c : Char) (r : Option (Str × Str)) : Option (Str × Str) := r.map fun p => (c :: p.1, p.2)

/-- `scanstring`, after the opening quote: the string, and what follows it. -/
def scanString : Str → Option (Str × Str)
  | [] => none
  | c :: s =>
      if c = quote then some ([], s)
      else if c = backslash then
        match s with
        | [] => none
        | e :: s =>
            if e = 'u' then
              match s with
              | h₁ :: h₂ :: h₃ :: h₄ :: s =>
                  match codeUnit h₁ h₂ h₃ h₄ with
                  | none => none
                  | some n =>
                      if 0xd800 ≤ n ∧ n < 0xdc00 then
                        match s with
                        | c₁ :: c₂ :: l₁ :: l₂ :: l₃ :: l₄ :: s =>
                            if c₁ = backslash ∧ c₂ = 'u' then
                              match codeUnit l₁ l₂ l₃ l₄ with
                              | none => none
                              | some m =>
                                  if 0xdc00 ≤ m ∧ m < 0xe000 then
                                    push (Char.ofNat (0x10000 + (n - 0xd800) * 0x400 + (m - 0xdc00)))
                                      (scanString s)
                                  else none
                            else none
                        | _ => none
                      else if 0xdc00 ≤ n ∧ n < 0xe000 then none
                      else push (Char.ofNat n) (scanString s)
              | _ => none
            else
              match (('/', '/') :: escapes).find? fun x => decide (x.1 = e) with
              | some x => push x.2 (scanString s)
              | none => none
      -- a control character
      else if c < ' ' then none
      else push c (scanString s)

def skipSpace (s : Str) : Str :=
  s.dropWhile fun c => decide (c = ' ' ∨ c = '\t' ∨ c = '\n' ∨ c = '\r')

/-- The integer part of a number. -/
def scanInteger : Str → Option (Str × Str)
  | [] => none
  | c :: s =>
      if c = '0' then some (['0'], s)
      else if c.isDigit then some (c :: s.takeWhile Char.isDigit, s.dropWhile Char.isDigit)
      else none

/-- The fraction of a number, empty when there is none. -/
def scanFraction : Str → Str × Str
  | [] => ([], [])
  | c :: s =>
      if c = '.' ∧ s.takeWhile Char.isDigit ≠ [] then
        (c :: s.takeWhile Char.isDigit, s.dropWhile Char.isDigit)
      else ([], c :: s)

/-- The exponent of a number, empty when there is none. -/
def scanExponent : Str → Str × Str
  | [] => ([], [])
  | c :: s =>
      let (sign, digits) : Str × Str :=
        match s with
        | [] => ([], [])
        | c :: t => if c = '+' ∨ c = '-' then ([c], t) else ([], c :: t)
      if (c = 'e' ∨ c = 'E') ∧ digits.takeWhile Char.isDigit ≠ [] then
        (c :: (sign ++ digits.takeWhile Char.isDigit), digits.dropWhile Char.isDigit)
      else ([], c :: s)

/-- A number, after its sign. -/
def scanNumber (parseFloat : Str → PyFloat) (negative : Bool) (s : Str) : Option (Json × Str) := do
  let (integer, s) ← scanInteger s
  let (fraction, s) := scanFraction s
  let (exponent, s) := scanExponent s
  if fraction = [] ∧ exponent = [] then
    -- the `ValueError` of `int`
    if maxStrDigits < integer.length then none
    else
      let n : ℤ := (Nat.ofDigitChars 10 integer 0 : ℕ)
      return (.int (if negative then -n else n), s)
  else
    let sign : Str := if negative then ['-'] else []
    return (.float (parseFloat (sign ++ integer ++ fraction ++ exponent)), s)

/-- The constants a text may begin with. -/
def constants : List (Str × Json) :=
  [("null".toList, .null), ("true".toList, .bool true), ("false".toList, .bool false),
    ("NaN".toList, .float .nan), ("Infinity".toList, .float (.inf false)),
    ("-Infinity".toList, .float (.inf true))]

/-- A constant or a number. -/
def scanPlain (parseFloat : Str → PyFloat) (s : Str) : Option (Json × Str) :=
  match constants.find? fun x => x.1.isPrefixOf s with
  | some x => some (x.2, s.drop x.1.length)
  | none =>
      match s with
      | '-' :: s => scanNumber parseFloat true s
      | s => scanNumber parseFloat false s

mutual

/-- `scan_once`, in as many nested calls as the number says. -/
def scanOnce (parseFloat : Str → PyFloat) : ℕ → Str → Option (Json × Str)
  | 0, _ => none
  | _ + 1, [] => none
  | fuel + 1, c :: s =>
      if c = quote then (scanString s).map fun p => (.str p.1, p.2)
      else if c = openBrace then
        match skipSpace s with
        | [] => none
        | c :: s =>
            if c = closeBrace then some (.object [], s)
            else do
              let (field, s) ← scanField parseFloat fuel (c :: s)
              let (fields, s) ← scanFields parseFloat fuel s
              return (.object (Dict.ofList (field :: fields)).entries, s)
      else if c = '[' then
        match skipSpace s with
        | [] => none
        | c :: s =>
            if c = ']' then some (.array [], s)
            else do
              let (x, s) ← scanOnce parseFloat fuel (c :: s)
              let (xs, s) ← scanItems parseFloat fuel s
              return (.array (x :: xs), s)
      else scanPlain parseFloat (c :: s)

/-- The further items of a list, up to its end. -/
def scanItems (parseFloat : Str → PyFloat) : ℕ → Str → Option (List Json × Str)
  | 0, _ => none
  | fuel + 1, s =>
      match skipSpace s with
      | [] => none
      | c :: s =>
          if c = ']' then some ([], s)
          else if c = ',' then do
            let (x, s) ← scanOnce parseFloat fuel (skipSpace s)
            let (xs, s) ← scanItems parseFloat fuel s
            return (x :: xs, s)
          else none

/-- A key and its value. -/
def scanField (parseFloat : Str → PyFloat) : ℕ → Str → Option ((Str × Json) × Str)
  | 0, _ => none
  | _ + 1, [] => none
  | fuel + 1, c :: s =>
      if c = quote then do
        let (k, s) ← scanString s
        match skipSpace s with
        | [] => none
        | c :: s =>
            if c = ':' then do
              let (x, s) ← scanOnce parseFloat fuel (skipSpace s)
              return ((k, x), s)
            else none
      else none

/-- The further fields of a map, up to its end. -/
def scanFields (parseFloat : Str → PyFloat) : ℕ → Str → Option (List (Str × Json) × Str)
  | 0, _ => none
  | fuel + 1, s =>
      match skipSpace s with
      | [] => none
      | c :: s =>
          if c = closeBrace then some ([], s)
          else if c = ',' then do
            let (field, s) ← scanField parseFloat fuel (skipSpace s)
            let (fields, s) ← scanFields parseFloat fuel s
            return (field :: fields, s)
          else none

end

/-- `json.loads` of a string. -/
def loads (parseFloat : Str → PyFloat) (s : Str) : Option Json :=
  match scanOnce parseFloat (s.length + 1) (skipSpace s) with
  | some (x, rest) => if skipSpace rest = [] then some x else none
  | none => none

/-! ### Strings -/

section Strings

variable {c : Char} {s : Str}

theorem scanString_quote (s : Str) : scanString (quote :: s) = some ([], s) := by
  rw [scanString.eq_def]
  exact if_pos rfl

/-- A character that is written as it is. -/
theorem scanString_char (hq : c ≠ quote) (hb : c ≠ backslash) (hc : ¬ c < ' ') :
    scanString (c :: s) = push c (scanString s) := by
  rw [scanString.eq_def]
  dsimp only
  rw [if_neg hq, if_neg hb, if_neg hc]

theorem scanString_letter {x : Char × Char} (hx : x ∈ escapes) :
    scanString (backslash :: x.1 :: s) = push x.2 (scanString s) := by
  have hfind : ((('/', '/') :: escapes).find? fun y => decide (y.1 = x.1)) = some x := by
    revert hx x
    decide
  have hu : x.1 ≠ 'u' := by
    revert hx x
    decide
  rw [scanString.eq_def]
  dsimp only
  rw [if_neg (by decide), if_pos rfl, if_neg hu, hfind]

theorem hexDigits_four (n : ℕ) : ∃ a b c d, hexDigits 4 n = [a, b, c, d] := by
  have h := length_hexDigits 4 n
  generalize hexDigits 4 n = l at h
  match l, h with
  | [a, b, c, d], _ => exact ⟨a, b, c, d, rfl⟩

/-- The digits of a code unit, and their value. -/
theorem unicodeEscape_cases {n : ℕ} (hn : n < 0x10000) : ∃ a b c d,
    unicodeEscape n = [backslash, 'u', a, b, c, d] ∧ codeUnit a b c d = some n := by
  obtain ⟨a, b, c, d, h⟩ := hexDigits_four n
  have hvalue := foldl_hexDigits 4 n
  have hpow : n < 16 ^ 4 := hn
  rw [h, Nat.mod_eq_of_lt hpow] at hvalue
  refine ⟨hexChar a, hexChar b, hexChar c, hexChar d, ?_, ?_⟩
  · rw [unicodeEscape, h]
    rfl
  · simp only [codeUnit, hexValue_hexChar]
    rw [← hvalue]
    simp

theorem scanString_unicode {n : ℕ} (hn : n < 0x10000) (hs : n < 0xd800 ∨ 0xdfff < n) :
    scanString (unicodeEscape n ++ s) = push (Char.ofNat n) (scanString s) := by
  obtain ⟨a, b, c, d, h, hcode⟩ := unicodeEscape_cases hn
  rw [h, scanString.eq_def]
  dsimp only [List.cons_append, List.nil_append]
  rw [if_neg (by decide), if_pos rfl, if_pos rfl, hcode]
  dsimp only
  rw [if_neg (by omega), if_neg (by omega)]

/-- A character beyond the first plane, as two surrogates. -/
theorem scanString_surrogates {n : ℕ} (hn : n < 0x100000) :
    scanString (unicodeEscape (0xd800 + n / 0x400) ++ (unicodeEscape (0xdc00 + n % 0x400) ++ s)) =
      push (Char.ofNat (0x10000 + n)) (scanString s) := by
  obtain ⟨a, b, c, d, h, hcode⟩ := unicodeEscape_cases (n := 0xd800 + n / 0x400) (by omega)
  obtain ⟨a', b', c', d', h', hcode'⟩ := unicodeEscape_cases (n := 0xdc00 + n % 0x400) (by omega)
  rw [h, h', scanString.eq_def]
  dsimp only [List.cons_append, List.nil_append]
  rw [if_neg (by decide), if_pos rfl, if_pos rfl, hcode]
  dsimp only
  rw [if_pos (by omega), if_pos ⟨rfl, rfl⟩, hcode']
  dsimp only
  have hjoined : 0x10000 + (0xd800 + n / 0x400 - 0xd800) * 0x400 +
      (0xdc00 + n % 0x400 - 0xdc00) = 0x10000 + n := by omega
  rw [if_pos (by omega), hjoined]

/-- **A character**, read back. -/
theorem scanString_escape (c : Char) (s : Str) :
    scanString (escape c ++ s) = push c (scanString s) := by
  unfold escape
  split
  · rename_i x hx
    obtain rfl : x.2 = c := of_decide_eq_true (List.find?_some hx :)
    exact scanString_letter (List.mem_of_find?_eq_some hx)
  · rename_i hnone
    rw [List.find?_eq_none] at hnone
    have hne (x : Char × Char) (hx : x ∈ escapes) : c ≠ x.2 := fun h =>
      hnone x hx (decide_eq_true h.symm)
    split_ifs with hascii hlow
    · refine scanString_char (hne (quote, quote) (by decide))
        (hne (backslash, backslash) (by decide)) (Char.not_lt.mpr hascii.1)
    · have hs : c.toNat < 0xd800 ∨ 0xdfff < c.toNat :=
        (c.valid : c.toNat.isValidChar).imp id And.left
      rw [scanString_unicode hlow hs, Char.ofNat_toNat]
    · have hlt : c.toNat < 0x110000 := (c.valid : c.toNat.isValidChar).elim
        (fun h => h.trans (by decide)) And.right
      have hsum : 0x10000 + (c.toNat - 0x10000) = c.toNat := by omega
      have hlt' : c.toNat - 0x10000 < 0x100000 := by omega
      rw [List.append_assoc, scanString_surrogates hlt', hsum, Char.ofNat_toNat]

/-- **A string**, read back. -/
theorem scanString_strText (x s : Str) :
    scanString (x.flatMap escape ++ quote :: s) = some (x, s) := by
  induction x with
  | nil => exact scanString_quote s
  | cons c x ih =>
      rw [List.flatMap_cons, List.append_assoc, scanString_escape, ih]
      rfl

end Strings

/-! ### Numbers -/

/-- The text of a number may end here. -/
def Ends (s : Str) : Prop := ∀ c ∈ s.head?, c.isDigit = false ∧ c ≠ '.' ∧ c ≠ 'e' ∧ c ≠ 'E'

theorem ends_nil : Ends [] := nofun

theorem ends_cons {c : Char} {s : Str}
    (h : c.isDigit = false ∧ c ≠ '.' ∧ c ≠ 'e' ∧ c ≠ 'E') : Ends (c :: s) := by
  rintro _ ⟨⟩
  exact h

/-- A number other than `0` does not begin with a zero. -/
theorem strNat_cons {n : ℕ} (hn : 0 < n) : ∃ c s, strNat n = c :: s ∧ c ≠ '0' := by
  induction n using Nat.strong_induction_on with
  | _ n ih =>
      by_cases h : n < 10
      · refine ⟨n.digitChar, [], Nat.toDigits_of_lt_base h, fun h0 => ?_⟩
        rw [Nat.digitChar_eq_zero] at h0
        omega
      · obtain ⟨c, s, hcs, hc⟩ := ih (n / 10) (by omega) (by omega)
        refine ⟨c, s ++ [(n % 10).digitChar], ?_, hc⟩
        rw [strNat, Nat.toDigits_of_base_le (by decide) (not_lt.mp h), ← List.cons_append, ← hcs]
        rfl

section Numbers

variable {s t : Str} {pf : Str → PyFloat}

theorem takeWhile_digits (hs : ∀ c ∈ s, c.isDigit = true) (ht : Ends t) :
    (s ++ t).takeWhile Char.isDigit = s ∧ (s ++ t).dropWhile Char.isDigit = t := by
  rw [List.takeWhile_append_of_pos hs, List.dropWhile_append_of_pos hs]
  cases t with
  | nil => exact ⟨List.append_nil s, rfl⟩
  | cons c t =>
      have hc : ¬ c.isDigit = true := by rw [(ht c rfl).1]; decide
      rw [List.takeWhile_cons_of_neg hc, List.dropWhile_cons_of_neg hc]
      exact ⟨List.append_nil s, rfl⟩

theorem scanInteger_strNat (n : ℕ) (ht : Ends t) :
    scanInteger (strNat n ++ t) = some (strNat n, t) := by
  rcases Nat.eq_zero_or_pos n with rfl | hn
  · rfl
  · obtain ⟨c, s, hcs, hc⟩ := strNat_cons hn
    have hdigits (d : Char) (hd : d ∈ c :: s) : d.isDigit = true := isDigit_of_mem_strNat (hcs ▸ hd)
    have hrest := takeWhile_digits (fun d hd => hdigits d (List.mem_cons_of_mem c hd)) ht
    rw [hcs, List.cons_append, scanInteger, if_neg hc, if_pos (hdigits c List.mem_cons_self),
      hrest.1, hrest.2]

theorem scanFraction_ends (ht : Ends t) : scanFraction t = ([], t) := by
  cases t with
  | nil => rfl
  | cons c t => exact if_neg fun h => (ht c rfl).2.1 h.1

theorem scanExponent_ends (ht : Ends t) : scanExponent t = ([], t) := by
  cases t with
  | nil => rfl
  | cons c t =>
      refine if_neg fun h => ?_
      rcases h.1 with h | h
      · exact (ht c rfl).2.2.1 h
      · exact (ht c rfl).2.2.2 h

theorem scanNumber_strNat {n : ℕ} (hn : (strNat n).length ≤ maxStrDigits) (negative : Bool)
    (ht : Ends t) :
    scanNumber pf negative (strNat n ++ t) = some (.int (if negative then -n else n), t) := by
  unfold scanNumber
  rw [scanInteger_strNat n ht]
  simp only [Option.bind_eq_bind, Option.bind_some, scanFraction_ends ht, scanExponent_ends ht]
  rw [if_pos ⟨trivial, trivial⟩, if_neg (not_lt.mpr hn), strNat, Nat.ofDigitChars_ten_toDigits]
  rfl

/-- A number is no constant. -/
theorem scanPlain_digit {c : Char} (hc : c.isDigit = true) :
    scanPlain pf (c :: s) = scanNumber pf false (c :: s) ∧
      scanPlain pf ('-' :: c :: s) = scanNumber pf true (c :: s) := by
  have hne (d : Char) (hd : d.isDigit = false) : (d == c) = false := by
    rw [beq_eq_false_iff_ne]
    rintro rfl
    rw [hc] at hd
    cases hd
  constructor
  · have hfind : (constants.find? fun x => x.1.isPrefixOf (c :: s)) = none := by
      simp [constants, List.isPrefixOf, hne]
    unfold scanPlain
    rw [hfind]
    dsimp only
    split
    · rename_i h
      cases h
      cases hc
    · rfl
  · have hfind : (constants.find? fun x => x.1.isPrefixOf ('-' :: c :: s)) = none := by
      simp [constants, List.isPrefixOf, hne]
    unfold scanPlain
    rw [hfind]
    rfl

end Numbers

/-! ### Values -/

mutual

/-- There is no float in the value, its integers can be converted, and its maps have each key once. -/
def Exact : Json → Prop
  | .float _ => False
  | .int n => FewDigits n
  | .array xs => ExactItems xs
  | .object fields => (fields.map Prod.fst).Nodup ∧ ExactFields fields
  | .null | .bool _ | .str _ => True

def ExactItems : List Json → Prop
  | [] => True
  | x :: xs => Exact x ∧ ExactItems xs

def ExactFields : List (Str × Json) → Prop
  | [] => True
  | (_, x) :: fields => Exact x ∧ ExactFields fields

end

mutual

theorem convertible_of_exact : ∀ {x : Json}, Exact x → convertible x = true
  | .null, _ | .bool _, _ | .str _, _ => by rw [convertible]
  | .int n, hx => by
      rw [convertible]
      exact decide_eq_true hx
  | .array xs, hx => by
      rw [convertible]
      exact convertibleItems_of_exact hx
  | .object fields, hx => by
      rw [convertible]
      exact convertibleFields_of_exact hx.2

theorem convertibleItems_of_exact : ∀ {xs : List Json}, ExactItems xs → convertibleItems xs = true
  | [], _ => by rw [convertibleItems]
  | x :: xs, hx => by
      rw [convertibleItems, convertible_of_exact hx.1, convertibleItems_of_exact hx.2]
      rfl

theorem convertibleFields_of_exact : ∀ {fields : List (Str × Json)}, ExactFields fields →
    convertibleFields fields = true
  | [], _ => by rw [convertibleFields]
  | (k, x) :: fields, hx => by
      rw [convertibleFields, convertible_of_exact hx.1, convertibleFields_of_exact hx.2]
      rfl

end

section Values

variable {rf : PyFloat → Str} {pf : Str → PyFloat} {s t : Str}

theorem dumps_of_exact {x : Json} (hx : Exact x) : dumps rf x = some (text rf x) :=
  if_pos (convertible_of_exact hx)

theorem skipSpace_cons {c : Char} (h : ¬ (c = ' ' ∨ c = '\t' ∨ c = '\n' ∨ c = '\r')) :
    skipSpace (c :: s) = c :: s :=
  List.dropWhile_cons_of_neg (by rw [decide_eq_false h]; decide)

theorem skipSpace_space (h : skipSpace s = s) : skipSpace (' ' :: s) = s := h

/-- What the text of a value begins with. -/
def Begins (s : Str) : Prop := ∃ c r, s = c :: r ∧ ¬ (c = ' ' ∨ c = '\t' ∨ c = '\n' ∨ c = '\r') ∧ c ≠ ']'

theorem Begins.append (h : Begins s) (t : Str) : Begins (s ++ t) := by
  obtain ⟨c, r, rfl, hc⟩ := h
  exact ⟨c, r ++ t, rfl, hc⟩

theorem Begins.skipSpace (h : Begins s) : skipSpace s = s := by
  obtain ⟨c, r, rfl, hc⟩ := h
  exact skipSpace_cons hc.1

theorem begins_digit {c : Char} (hc : c.isDigit = true) (s : Str) : Begins (c :: s) := by
  refine ⟨c, s, rfl, ?_, ?_⟩
  · rintro (rfl | rfl | rfl | rfl) <;> cases hc
  · rintro rfl
    cases hc

theorem begins_strNat (n : ℕ) : Begins (strNat n) := by
  rcases hcs : strNat n with _ | ⟨c, s⟩
  · exact absurd hcs Nat.toDigits_ne_nil
  · exact begins_digit (isDigit_of_mem_strNat (hcs ▸ List.mem_cons_self)) s

theorem mem_strInt {n : ℤ} {c : Char} (h : c ∈ strInt n) : c = '-' ∨ c.isDigit = true := by
  cases n with
  | ofNat n => exact .inr (isDigit_of_mem_strNat h)
  | negSucc n => exact (List.mem_cons.mp h).imp_right isDigit_of_mem_strNat

theorem begins_text : ∀ {x : Json}, Exact x → Begins (text rf x)
  | .null, _ | .bool true, _ | .bool false, _ => ⟨_, _, rfl, by decide, by decide⟩
  | .int (.ofNat n), _ => by rw [text]; exact begins_strNat n
  | .int (.negSucc n), _ => by rw [text]; exact ⟨_, _, rfl, by decide, by decide⟩
  | .str s, _ => by rw [text]; exact ⟨_, _, rfl, by decide, by decide⟩
  | .array [], _ | .array (_ :: _), _ => by rw [text]; exact ⟨_, _, rfl, by decide, by decide⟩
  | .object [], _ | .object ((_, _) :: _), _ => by
      rw [text]; exact ⟨_, _, rfl, by decide, by decide⟩

theorem ends_itemsText (xs : List Json) (t : Str) : Ends (itemsText rf xs ++ t) := by
  cases xs <;> rw [itemsText] <;> exact ends_cons (by decide)

theorem ends_fieldsText (fields : List (Str × Json)) (t : Str) :
    Ends (fieldsText rf fields ++ t) := by
  rcases fields with _ | ⟨⟨k, x⟩, fields⟩ <;> rw [fieldsText] <;> exact ends_cons (by decide)

theorem scanString_text (x : Str) (t : Str) :
    ∃ r, strText x ++ t = quote :: r ∧ scanString r = some (x, t) :=
  ⟨x.flatMap escape ++ quote :: t, by simp [strText], scanString_strText x t⟩

theorem scanPlain_int {n : ℤ} (hn : FewDigits n) (ht : Ends t) :
    scanPlain pf (strInt n ++ t) = some (.int n, t) := by
  cases n with
  | ofNat n =>
      rcases hcs : strNat n with _ | ⟨c, s⟩
      · exact absurd hcs Nat.toDigits_ne_nil
      · have hc := isDigit_of_mem_strNat (hcs ▸ List.mem_cons_self : c ∈ strNat n)
        rw [strInt, hcs, List.cons_append, (scanPlain_digit hc).1, ← List.cons_append, ← hcs,
          scanNumber_strNat (n := n) hn false ht]
        rfl
  | negSucc n =>
      rcases hcs : strNat (n + 1) with _ | ⟨c, s⟩
      · exact absurd hcs Nat.toDigits_ne_nil
      · have hc := isDigit_of_mem_strNat (hcs ▸ List.mem_cons_self : c ∈ strNat (n + 1))
        rw [strInt, hcs, List.cons_append, List.cons_append, (scanPlain_digit hc).2,
          ← List.cons_append, ← hcs, scanNumber_strNat (n := n + 1) hn true ht]
        rfl

/-- A value that is a constant or a number. -/
theorem scanOnce_plain {fuel : ℕ} {x : Json} (hs : Begins s) (hne : ∀ c ∈ s.head?, c ≠ quote ∧
    c ≠ openBrace ∧ c ≠ '[') (hx : scanPlain pf (s ++ t) = some (x, t)) :
    scanOnce pf (fuel + 1) (s ++ t) = some (x, t) := by
  obtain ⟨c, r, rfl, -⟩ := hs
  obtain ⟨hq, hb, ha⟩ := hne c rfl
  rw [List.cons_append, scanOnce, if_neg hq, if_neg hb, if_neg ha]
  exact hx

theorem entries_foldl_set {l : List (Str × Json)} {d : Dict Str Json}
    (h : (d.entries.map Prod.fst ++ l.map Prod.fst).Nodup) :
    (l.foldl (fun d p => d.set p.1 p.2) d).entries = d.entries ++ l := by
  induction l generalizing d with
  | nil => exact (List.append_nil _).symm
  | cons p l ih =>
      have hnew : p.1 ∉ d.entries.map Prod.fst := fun hm =>
        (List.nodup_append.mp h).2.2 _ hm _ List.mem_cons_self rfl
      have hset : (d.set p.1 p.2).entries = d.entries ++ [p] := if_neg hnew
      rw [List.foldl_cons, ih, hset, List.append_assoc]
      · rfl
      · rw [hset, List.map_append, List.append_assoc]
        exact h

/-- A map that has each key once, as it is built from its fields. -/
theorem entries_ofList {l : List (Str × Json)} (h : (l.map Prod.fst).Nodup) :
    (Dict.ofList l).entries = l :=
  entries_foldl_set h

/-- A key and its value, when the value is read back: the text begins with a quote. -/
theorem scanField_text {fuel : ℕ} (k : Str) {x : Json} (hx : Begins (text rf x))
    (h : scanOnce pf fuel (text rf x ++ t) = some (x, t)) :
    ∃ r, strText k ++ [':', ' '] ++ text rf x ++ t = quote :: r ∧
      scanField pf (fuel + 1) (quote :: r) = some ((k, x), t) := by
  obtain ⟨r, hr, hscan⟩ := scanString_text k ([':', ' '] ++ (text rf x ++ t))
  have hcolon : skipSpace ([':', ' '] ++ (text rf x ++ t)) = ':' :: ' ' :: (text rf x ++ t) := rfl
  have hvalue : skipSpace (' ' :: (text rf x ++ t)) = text rf x ++ t :=
    skipSpace_space (hx.append t).skipSpace
  refine ⟨r, by rw [← hr, List.append_assoc, List.append_assoc], ?_⟩
  rw [scanField, if_pos rfl, hscan]
  simp only [Option.bind_eq_bind, Option.bind_some, hcolon, hvalue, h, if_true]
  rfl

mutual

/-- **A value**, read back. -/
theorem scanOnce_text : ∀ (x : Json) {fuel : ℕ} {t : Str}, Exact x → (text rf x).length < fuel →
    Ends t → scanOnce pf fuel (text rf x ++ t) = some (x, t)
  | .null, fuel + 1, t, _, _, _ | .bool true, fuel + 1, t, _, _, _
  | .bool false, fuel + 1, t, _, _, _ => by
      refine scanOnce_plain (begins_text trivial) ?_ rfl
      rintro c ⟨⟩
      decide
  | .int n, fuel + 1, t, hx, _, ht => by
      have hbegins : Begins (text rf (.int n)) := begins_text hx
      rw [text] at hbegins ⊢
      refine scanOnce_plain hbegins ?_ (scanPlain_int hx ht)
      intro c hc
      have hdigit : c = '-' ∨ c.isDigit = true := mem_strInt (List.mem_of_mem_head? hc)
      constructor
      · rintro rfl
        exact absurd hdigit (by decide)
      · constructor <;> rintro rfl <;> exact absurd hdigit (by decide)
  | .str s, fuel + 1, t, _, _, _ => by
      obtain ⟨r, hr, hscan⟩ := scanString_text s t
      rw [text, hr, scanOnce, if_pos rfl, hscan]
      rfl
  | .array [], fuel + 1, t, _, _, _ => by
      rw [text]
      rfl
  | .array (x :: xs), fuel + 1, t, hx, hf, ht => by
      rw [text] at hf ⊢
      rw [List.length_cons, List.length_append] at hf
      have hfirst : scanOnce pf fuel (text rf x ++ (itemsText rf xs ++ t)) =
          some (x, itemsText rf xs ++ t) := scanOnce_text x hx.1 (by omega) (ends_itemsText xs t)
      have hrest : scanItems pf fuel (itemsText rf xs ++ t) = some (xs, t) :=
        scanItems_text xs hx.2 (by omega)
      obtain ⟨c, r, hcr, hspace, hclose⟩ := (begins_text hx.1).append (itemsText rf xs ++ t)
      rw [List.cons_append, List.append_assoc, scanOnce, if_neg (by decide), if_neg (by decide),
        if_pos rfl, hcr, skipSpace_cons hspace]
      rw [hcr] at hfirst
      simp only [if_neg hclose, Option.bind_eq_bind, Option.bind_some, hfirst, hrest]
      rfl
  | .object [], fuel + 1, t, _, _, _ => by
      rw [text]
      rfl
  | .object ((k, x) :: fields), fuel + 1, t, hx, hf, ht => by
      rw [text] at hf ⊢
      simp only [List.length_cons, List.length_append] at hf
      obtain _ | fuel := fuel
      · omega
      have hvalue : scanOnce pf fuel (text rf x ++ (fieldsText rf fields ++ t)) =
          some (x, fieldsText rf fields ++ t) :=
        scanOnce_text x hx.2.1 (by omega) (ends_fieldsText fields t)
      have hrest : scanFields pf (fuel + 1) (fieldsText rf fields ++ t) = some (fields, t) :=
        scanFields_text fields hx.2.2 (by omega)
      obtain ⟨r, htext, hfield⟩ := scanField_text k (begins_text hx.2.1) hvalue
      have hskip : skipSpace (quote :: r) = quote :: r := skipSpace_cons (by decide)
      rw [List.cons_append, List.append_assoc, htext, scanOnce, if_neg (by decide), if_pos rfl,
        hskip]
      simp only [if_neg (show quote ≠ closeBrace by decide), Option.bind_eq_bind, Option.bind_some,
        hfield, hrest, entries_ofList hx.1]
      rfl

theorem scanItems_text : ∀ (xs : List Json) {fuel : ℕ} {t : Str}, ExactItems xs →
    (itemsText rf xs).length < fuel → scanItems pf fuel (itemsText rf xs ++ t) = some (xs, t)
  | [], fuel + 1, t, _, _ => by
      rw [itemsText]
      rfl
  | x :: xs, fuel + 1, t, hx, hf => by
      rw [itemsText] at hf ⊢
      simp only [List.length_append, List.length_cons, List.length_nil] at hf
      have hfirst : scanOnce pf fuel (text rf x ++ (itemsText rf xs ++ t)) =
          some (x, itemsText rf xs ++ t) := scanOnce_text x hx.1 (by omega) (ends_itemsText xs t)
      have hrest : scanItems pf fuel (itemsText rf xs ++ t) = some (xs, t) :=
        scanItems_text xs hx.2 (by omega)
      have hcomma : skipSpace ([',', ' '] ++ text rf x ++ itemsText rf xs ++ t) =
          ',' :: ' ' :: (text rf x ++ (itemsText rf xs ++ t)) := by
        rw [List.append_assoc, List.append_assoc]
        rfl
      have hvalue : skipSpace (' ' :: (text rf x ++ (itemsText rf xs ++ t))) =
          text rf x ++ (itemsText rf xs ++ t) :=
        skipSpace_space ((begins_text hx.1).append _).skipSpace
      rw [scanItems, hcomma]
      simp only [if_neg (show ',' ≠ ']' by decide), if_true, Option.bind_eq_bind, hvalue, hfirst,
        Option.bind_some, hrest]
      rfl

theorem scanFields_text : ∀ (fields : List (Str × Json)) {fuel : ℕ} {t : Str}, ExactFields fields →
    (fieldsText rf fields).length < fuel →
      scanFields pf fuel (fieldsText rf fields ++ t) = some (fields, t)
  | [], fuel + 1, t, _, _ => by
      rw [fieldsText]
      rfl
  | (k, x) :: fields, fuel + 1, t, hx, hf => by
      rw [fieldsText] at hf ⊢
      simp only [List.length_append, List.length_cons, List.length_nil] at hf
      obtain _ | fuel := fuel
      · omega
      have hvalue : scanOnce pf fuel (text rf x ++ (fieldsText rf fields ++ t)) =
          some (x, fieldsText rf fields ++ t) :=
        scanOnce_text x hx.1 (by omega) (ends_fieldsText fields t)
      have hrest : scanFields pf (fuel + 1) (fieldsText rf fields ++ t) = some (fields, t) :=
        scanFields_text fields hx.2 (by omega)
      obtain ⟨r, htext, hfield⟩ := scanField_text k (begins_text hx.1) hvalue
      have hcomma : skipSpace ([',', ' '] ++ strText k ++ [':', ' '] ++ text rf x ++
          fieldsText rf fields ++ t) = ',' :: ' ' :: quote :: r := by
        rw [← htext]
        simp only [List.append_assoc]
        rfl
      have hskip : skipSpace (' ' :: quote :: r) = quote :: r :=
        skipSpace_space (skipSpace_cons (by decide))
      rw [scanFields, hcomma]
      simp only [if_neg (show ',' ≠ closeBrace by decide), if_true, Option.bind_eq_bind, hskip,
        hfield, Option.bind_some, hrest]
      rfl

end

theorem loads_text {x : Json} (hx : Exact x) : loads pf (text rf x) = some x := by
  have hscan : scanOnce pf ((text rf x).length + 1) (text rf x ++ []) = some (x, []) :=
    scanOnce_text x hx (Nat.lt_succ_self _) ends_nil
  rw [List.append_nil] at hscan
  rw [loads, (begins_text hx).skipSpace, hscan]
  rfl

/-- **`json.loads` of `json.dumps`**: a value without floats, whose integers are not too long, is
written, and read back as it was. -/
theorem loads_dumps {x : Json} (hx : Exact x) : (dumps rf x).bind (loads pf) = some x := by
  rw [dumps_of_exact hx, Option.bind_some, loads_text hx]

end Values

/-! ### Bytes -/

/-- A printable character of ASCII. -/
def Printable (c : Char) : Prop := ' ' ≤ c ∧ c ≤ '~'

instance (c : Char) : Decidable (Printable c) := inferInstanceAs (Decidable (_ ∧ _))

theorem printable_hexChar : ∀ d : Fin 16, Printable (hexChar d) := by decide

theorem printable_unicodeEscape (n : ℕ) : ∀ c ∈ unicodeEscape n, Printable c := by
  intro c hc
  rcases List.mem_cons.mp hc with rfl | hc
  · decide
  rcases List.mem_cons.mp hc with rfl | hc
  · decide
  obtain ⟨d, -, rfl⟩ := List.mem_map.mp hc
  exact printable_hexChar d

theorem printable_escape (c : Char) : ∀ d ∈ escape c, Printable d := by
  intro d hd
  unfold escape at hd
  split at hd
  · rename_i x hx
    have hletter : ∀ x ∈ escapes, Printable x.1 := by decide
    rcases List.mem_cons.mp hd with rfl | hd
    · decide
    · exact List.mem_singleton.mp hd ▸ hletter x (List.mem_of_find?_eq_some hx)
  · split_ifs at hd with hascii
    · exact List.mem_singleton.mp hd ▸ hascii
    · exact printable_unicodeEscape _ d hd
    · rcases List.mem_append.mp hd with hd | hd <;> exact printable_unicodeEscape _ d hd

theorem printable_strText (s : Str) : ∀ c ∈ strText s, Printable c := by
  intro c hc
  rcases List.mem_cons.mp hc with rfl | hc
  · decide
  rcases List.mem_append.mp hc with hc | hc
  · obtain ⟨d, -, hc⟩ := List.mem_flatMap.mp hc
    exact printable_escape d c hc
  · exact List.mem_singleton.mp hc ▸ (by decide)

theorem printable_digit {c : Char} (hc : c.isDigit = true) : Printable c := by
  rw [Char.isDigit, Bool.and_eq_true, decide_eq_true_eq, decide_eq_true_eq] at hc
  have hlow : ' '.val ≤ '0'.val := by decide
  have hhigh : '9'.val ≤ '~'.val := by decide
  exact ⟨UInt32.le_trans hlow hc.1, UInt32.le_trans hc.2 hhigh⟩

section Bytes

variable {rf : PyFloat → Str} {pf : Str → PyFloat}

theorem printable_of_all {s : Str} (hs : s.all fun c => decide (Printable c)) :
    ∀ c ∈ s, Printable c := fun c hc => of_decide_eq_true (List.all_eq_true.mp hs c hc)

theorem printable_append {s t : Str} (hs : ∀ c ∈ s, Printable c) (ht : ∀ c ∈ t, Printable c) :
    ∀ c ∈ s ++ t, Printable c := fun c hc => (List.mem_append.mp hc).elim (hs c) (ht c)

theorem printable_cons {c : Char} {s : Str} (hc : Printable c) (hs : ∀ c ∈ s, Printable c) :
    ∀ d ∈ c :: s, Printable d := List.forall_mem_cons.mpr ⟨hc, hs⟩

mutual

theorem printable_text : ∀ {x : Json}, Exact x → ∀ c ∈ text rf x, Printable c
  | .null, _ | .bool true, _ | .bool false, _ | .array [], _ | .object [], _ => by
      rw [text]
      exact printable_of_all (by decide)
  | .int n, _ => by
      intro c hc
      rcases mem_strInt hc with rfl | hc
      · decide
      · exact printable_digit hc
  | .str s, _ => printable_strText s
  | .array (x :: xs), hx => by
      rw [text]
      exact printable_cons (by decide) (printable_append (printable_text hx.1)
        (printable_itemsText hx.2))
  | .object ((k, x) :: fields), hx => by
      rw [text]
      exact printable_cons (by decide) (printable_append (printable_append (printable_append
        (printable_strText k) (printable_of_all (by decide))) (printable_text hx.2.1))
        (printable_fieldsText hx.2.2))

theorem printable_itemsText : ∀ {xs : List Json}, ExactItems xs →
    ∀ c ∈ itemsText rf xs, Printable c
  | [], _ => by
      rw [itemsText]
      exact printable_of_all (by decide)
  | x :: xs, hx => by
      rw [itemsText]
      exact printable_append (printable_append (printable_of_all (by decide)) (printable_text hx.1))
        (printable_itemsText hx.2)

theorem printable_fieldsText : ∀ {fields : List (Str × Json)}, ExactFields fields →
    ∀ c ∈ fieldsText rf fields, Printable c
  | [], _ => by
      rw [fieldsText]
      exact printable_of_all (by decide)
  | (k, x) :: fields, hx => by
      rw [fieldsText]
      have hcomma : ∀ c ∈ [',', ' '], Printable c := printable_of_all (by decide)
      have hcolon : ∀ c ∈ [':', ' '], Printable c := printable_of_all (by decide)
      exact printable_append (printable_append (printable_append (printable_append hcomma
        (printable_strText k)) hcolon) (printable_text hx.1)) (printable_fieldsText hx.2)

end

/-- `s.encode()`. -/
def encode (s : Str) : List UInt8 := s.flatMap String.utf8EncodeChar

/-- The text of some bytes: what is ASCII, and has no zero byte, is taken for UTF-8, and `other` is
what becomes of the rest. -/
def decodeBytes (other : List UInt8 → Option Str) (body : List UInt8) : Option Str :=
  if body.all fun b => decide (0 < b ∧ b < 128) then some (body.map fun b => Char.ofNat b.toNat)
  else other body

/-- `json.loads` of bytes. -/
def loadsBytes (parseFloat : Str → PyFloat) (other : List UInt8 → Option Str) (body : List UInt8) :
    Option Json :=
  (decodeBytes other body).bind (loads parseFloat)

theorem utf8EncodeChar_printable {c : Char} (hc : Printable c) :
    String.utf8EncodeChar c = [UInt8.ofNat c.toNat] :=
  if_pos ((UInt32.le_iff_toNat_le.mp hc.2).trans (by decide))

theorem encode_printable {s : Str} (hs : ∀ c ∈ s, Printable c) :
    encode s = s.map fun c => UInt8.ofNat c.toNat := by
  induction s with
  | nil => rfl
  | cons c s ih =>
      obtain ⟨hc, hs⟩ := List.forall_mem_cons.mp hs
      have hrest : s.flatMap String.utf8EncodeChar = s.map fun c => UInt8.ofNat c.toNat := ih hs
      rw [encode, List.flatMap_cons, hrest, utf8EncodeChar_printable hc]
      rfl

/-- The byte of a printable character. -/
theorem toNat_byte {c : Char} (hc : Printable c) : (UInt8.ofNat c.toNat).toNat = c.toNat ∧
    0 < UInt8.ofNat c.toNat ∧ UInt8.ofNat c.toNat < 128 := by
  have hlow : 32 ≤ c.toNat := UInt32.le_iff_toNat_le.mp hc.1
  have hhigh : c.toNat ≤ 126 := UInt32.le_iff_toNat_le.mp hc.2
  have hbyte : (UInt8.ofNat c.toNat).toNat = c.toNat := by
    rw [UInt8.toNat_ofNat']
    exact Nat.mod_eq_of_lt (by omega)
  refine ⟨hbyte, UInt8.lt_iff_toNat_lt.mpr ?_, UInt8.lt_iff_toNat_lt.mpr ?_⟩
  · rw [hbyte]
    exact Nat.lt_of_lt_of_le (by decide) hlow
  · rw [hbyte]
    exact Nat.lt_of_le_of_lt hhigh (by decide)

theorem decodeBytes_encode {other : List UInt8 → Option Str} {s : Str}
    (hs : ∀ c ∈ s, Printable c) : decodeBytes other (encode s) = some s := by
  rw [encode_printable hs, decodeBytes, if_pos]
  · rw [List.map_map]
    refine congrArg some ((List.map_congr_left fun c hc => ?_).trans (List.map_id s))
    change Char.ofNat (UInt8.ofNat c.toNat).toNat = c
    rw [(toNat_byte (hs c hc)).1, Char.ofNat_toNat]
  · rw [List.all_eq_true]
    intro b hb
    obtain ⟨c, hc, rfl⟩ := List.mem_map.mp hb
    exact decide_eq_true (toNat_byte (hs c hc)).2

/-- **A value through bytes.** -/
theorem loadsBytes_dumps {other : List UInt8 → Option Str} {x : Json} (hx : Exact x) :
    ∃ s, dumps rf x = some s ∧ loadsBytes pf other (encode s) = some x := by
  refine ⟨_, dumps_of_exact hx, ?_⟩
  have hread : (dumps rf x).bind (loads pf) = some x := loads_dumps hx
  rw [dumps_of_exact hx, Option.bind_some] at hread
  rw [loadsBytes, decodeBytes_encode (printable_text hx), Option.bind_some, hread]

end Bytes

end JsonText

end DocSearch
