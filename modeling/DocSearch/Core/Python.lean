import DocSearch.Support.Dict
import Mathlib.Algebra.Order.Field.Rat
import Mathlib.Data.Finset.Basic
import Mathlib.Data.List.Sort

/-!
# Core — Python

The parts of the language the service rests on: strings, their decimal and hexadecimal forms,
slices, counters, and decoded JSON.  `Unicode`, `Runtime` and `Interpreter` hold what the model
takes from the running interpreter as it finds it: the tables beyond ASCII, the order in which a
set is iterated, SHA-256, the float functions, the JSON decoder.
-/

namespace DocSearch

/-- A `str`, as its code points. -/
abbrev Str := List Char

/-- Membership among strings is decided by their equality. -/
instance : LawfulBEq Str := inferInstance

/-! ### Numbers as text -/

/-- `str(n)`. -/
def strNat (n : ℕ) : Str := Nat.toDigits 10 n

def strInt : ℤ → Str
  | .ofNat n => strNat n
  | .negSucc n => '-' :: strNat (n + 1)

theorem strNat_injective : Function.Injective strNat := fun m n h => by
  have h' : Nat.ofDigitChars 10 (strNat m) 0 = Nat.ofDigitChars 10 (strNat n) 0 := by rw [h]
  simpa [strNat, Nat.ofDigitChars_ten_toDigits] using h'

theorem isDigit_of_mem_strNat {n : ℕ} {c : Char} (h : c ∈ strNat n) : c.isDigit :=
  Nat.isDigit_of_mem_toDigits (by decide) (by decide) h

/-- The character of a hexadecimal digit, in lower case. -/
def hexChar (d : Fin 16) : Char := Nat.digitChar d

/-- The value of an ASCII hexadecimal digit. -/
def hexValue (c : Char) : Option ℕ :=
  if '0' ≤ c ∧ c ≤ '9' then some (c.toNat - '0'.toNat)
  else if 'a' ≤ c ∧ c ≤ 'f' then some (c.toNat - 'a'.toNat + 10)
  else if 'A' ≤ c ∧ c ≤ 'F' then some (c.toNat - 'A'.toNat + 10)
  else none

theorem hexValue_hexChar : ∀ d : Fin 16, hexValue (hexChar d) = some d.val := by decide

/-- The `w` hexadecimal digits of `n`, as `'%0wx' % n` writes them when they are enough. -/
def hexDigits : ℕ → ℕ → List (Fin 16)
  | 0, _ => []
  | w + 1, n => hexDigits w (n / 16) ++ [Fin.ofNat 16 n]

@[simp] theorem length_hexDigits (w n : ℕ) : (hexDigits w n).length = w := by
  induction w generalizing n with
  | zero => rfl
  | succ w ih => simp [hexDigits, ih]

/-- The digits determine the number they were taken from, as far as they reach. -/
theorem foldl_hexDigits (w n : ℕ) :
    (hexDigits w n).foldl (fun acc d => acc * 16 + d.val) 0 = n % 16 ^ w := by
  induction w generalizing n with
  | zero => simp [hexDigits, Nat.mod_one]
  | succ w ih =>
      have h : n % 16 ^ (w + 1) = n / 16 % 16 ^ w * 16 + n % 16 := by
        rw [Nat.pow_succ', Nat.mod_mul]; omega
      rw [hexDigits, List.foldl_append, ih, h]
      simp [Fin.ofNat]

/-! ### Sequences -/

/-- `xs[start:stop]`. -/
def pySlice {α : Type*} (xs : List α) (start stop : ℤ) : List α :=
  let clamp (i : ℤ) : ℕ := (if i < 0 then max 0 (i + xs.length) else min i xs.length).toNat
  (xs.take (clamp stop)).drop (clamp start)

/-- A window. -/
theorem pySlice_window {α : Type*} (xs : List α) (o s : ℕ) :
    pySlice xs o (o + s) = (xs.drop o).take s := by
  have hclamp : ∀ n : ℕ, (if (n : ℤ) < 0 then max 0 ((n : ℤ) + xs.length)
      else min (n : ℤ) xs.length).toNat = min n xs.length := fun n => by
    rw [if_neg (by omega)]
    omega
  have hstop : (o : ℤ) + s = ((o + s : ℕ) : ℤ) := rfl
  have htake : xs.take (min (o + s) xs.length) = xs.take (o + s) :=
    List.take_eq_take_iff.mpr (by omega)
  have hdrop : (xs.take (o + s)).drop (min o xs.length) = (xs.take (o + s)).drop o :=
    List.drop_eq_drop_iff.mpr (by rw [List.length_take]; omega)
  simp only [pySlice, hstop, hclamp]
  rw [htake, hdrop, List.drop_take, Nat.add_sub_cancel_left]

/-- What a slice of a window holds. -/
theorem mem_pySlice_window {α : Type*} {xs : List α} {o s : ℕ} {x : α} :
    x ∈ pySlice xs o (o + s) ↔ ∃ i, o ≤ i ∧ i < o + s ∧ xs[i]? = some x := by
  simp only [pySlice_window, List.mem_iff_getElem?, List.getElem?_take, List.getElem?_drop,
    Option.ite_none_right_eq_some]
  constructor
  · rintro ⟨i, hi, hx⟩
    exact ⟨o + i, by omega, by omega, hx⟩
  · rintro ⟨i, ho, hs, hx⟩
    exact ⟨i - o, by omega, by rwa [Nat.add_sub_cancel' ho]⟩

/-- `Counter(xs)`, in the order of first encounter. -/
def counter (xs : List Str) : Dict Str ℕ :=
  xs.foldl (fun c x => c.set x ((c.get? x).getD 0 + 1)) .empty

/-- `Counter(xs).most_common(n)`: equal counts stay in the order of first encounter. -/
def mostCommon (n : ℕ) (xs : List Str) : List (Str × ℕ) :=
  ((counter xs).entries.insertionSort fun a b => b.2 ≤ a.2).take n

/-- The start of the first occurrence of `p`, `none` for `find`'s `-1`. -/
def pyFind (p : Str) : Str → Option ℕ
  | [] => if p = [] then some 0 else none
  | c :: s => if p.isPrefixOf (c :: s) then some 0 else (pyFind p s).map (· + 1)

/-- `s.replace(p, '')`, from the left; the number counts the characters still to drop. -/
def pyRemove (p : Str) : ℕ → Str → Str
  | _, [] => []
  | k + 1, _ :: s => pyRemove p k s
  | 0, c :: s => if p.isPrefixOf (c :: s) then pyRemove p (p.length - 1) s else c :: pyRemove p 0 s

/-- A string without the first character of `p` has nothing to remove. -/
theorem pyRemove_of_notMem {a : Char} {p : Str} :
    ∀ {s : Str}, a ∉ s → pyRemove (a :: p) 0 s = s
  | [], _ => rfl
  | c :: s, h => by
      have hc : a ≠ c := fun e => h (e ▸ List.mem_cons_self)
      have hs : a ∉ s := fun hm => h (List.mem_cons_of_mem c hm)
      have hp : (a :: p).isPrefixOf (c :: s) = false := by simp [List.isPrefixOf, hc]
      rw [pyRemove, hp, pyRemove_of_notMem hs]
      rfl

/-- `s.strip(…)` of the characters `p` holds of. -/
def pyStrip (p : Char → Bool) (s : Str) : Str :=
  ((s.dropWhile p).reverse.dropWhile p).reverse

theorem pyStrip_of_forall_not {p : Char → Bool} {s : Str} (h : ∀ c ∈ s, p c = false) :
    pyStrip p s = s := by
  have hd : ∀ l : Str, (∀ c ∈ l, p c = false) → l.dropWhile p = l := by
    intro l hl
    cases l with
    | nil => rfl
    | cons c l => simp [List.dropWhile, hl c List.mem_cons_self]
  rw [pyStrip, hd s h, hd s.reverse fun c hc => h c (List.mem_reverse.mp hc), List.reverse_reverse]

/-! ### JSON -/

inductive PyFloat where
  | finite (q : ℚ)
  | inf (negative : Bool)
  | nan

/-- A value `json.loads` returns. -/
inductive Json where
  | null
  | bool (b : Bool)
  | int (n : ℤ)
  | float (x : PyFloat)
  | str (s : Str)
  | array (xs : List Json)
  | object (fields : List (Str × Json))

/-! ### What the interpreter supplies -/

/-- The Unicode tables, read for characters beyond ASCII only (but for `lower`, which is
`str.lower` on whole strings). -/
structure Unicode where
  isSpace : Char → Bool
  decimal : Char → Option ℕ
  lower : Str → Str
  sameIgnoringCase : Char → Char → Bool

namespace Unicode

/-- White space, for `strip`, `int` and `\s`. -/
def space (u : Unicode) (c : Char) : Bool :=
  if c.toNat < 128 then c = ' ' || (9 ≤ c.toNat && c.toNat ≤ 13) || (28 ≤ c.toNat && c.toNat ≤ 31)
  else u.isSpace c

/-- A digit of `int(s, 16)`. -/
def digit16 (u : Unicode) (c : Char) : Option ℕ :=
  if c.toNat < 128 then hexValue c else u.decimal c

/-- A digit of `int(s)`. -/
def digit10 (u : Unicode) (c : Char) : Option ℕ :=
  if c.toNat < 128 then if c.isDigit then some (c.toNat - '0'.toNat) else none else u.decimal c

/-- The digits of `int(s, base)`, single underscores allowed between two of them; the flag says
that the last character read was a digit. -/
def scan (digit : Char → Option ℕ) (base acc : ℕ) : Bool → Str → Option ℕ
  | afterDigit, [] => if afterDigit then some acc else none
  | afterDigit, c :: s =>
      if c = '_' then if afterDigit then scan digit base acc false s else none
      else (digit c).bind fun d => scan digit base (acc * base + d) true s

/-- The sign of `int(s, base)`, and the digits after it. -/
def signed (u : Unicode) (body : Str → Option ℕ) (s : Str) : Option ℤ :=
  match pyStrip u.space s with
  | '-' :: r => (body r).map fun n => -(n : ℤ)
  | '+' :: r => (body r).map Int.ofNat
  | r => (body r).map Int.ofNat

/-- `int(s)`, `none` for a `ValueError`; more than 4300 digits are not converted. -/
def int10 (u : Unicode) : Str → Option ℤ :=
  u.signed fun s =>
    if 4300 < (s.filter (· ≠ '_')).length then none else scan u.digit10 10 0 false s

/-- `int(s, 16)`, `none` for a `ValueError`. -/
def int16 (u : Unicode) : Str → Option ℤ :=
  u.signed fun s =>
    match s with
    | '0' :: 'x' :: '_' :: r | '0' :: 'X' :: '_' :: r | '0' :: 'x' :: r | '0' :: 'X' :: r =>
        scan u.digit16 16 0 false r
    | r => scan u.digit16 16 0 false r

theorem space_hexChar (u : Unicode) : ∀ d : Fin 16, u.space (hexChar d) = false := by
  have h : ∀ d : Fin 16, (hexChar d).toNat < 128 ∧ hexChar d ≠ ' ' ∧ 31 < (hexChar d).toNat := by
    decide
  intro d
  obtain ⟨h₁, h₂, h₃⟩ := h d
  simp [space, h₁, h₂]
  omega

theorem digit16_hexChar (u : Unicode) (d : Fin 16) : u.digit16 (hexChar d) = some d.val := by
  have h : ∀ d : Fin 16, (hexChar d).toNat < 128 := by decide
  rw [digit16, if_pos (h d), hexValue_hexChar]

theorem scan_hex (u : Unicode) : ∀ (ds : List (Fin 16)) (acc : ℕ) (b : Bool),
    (b = true ∨ ds ≠ []) →
      scan u.digit16 16 acc b (ds.map hexChar) =
        some (ds.foldl (fun acc d => acc * 16 + d.val) acc)
  | [], acc, b, h => by
      obtain rfl : b = true := h.resolve_right fun h => h rfl
      rfl
  | d :: ds, acc, b, _ => by
      have hne : ∀ d : Fin 16, hexChar d ≠ '_' := by decide
      rw [List.map_cons, scan, if_neg (hne d), digit16_hexChar, Option.bind_some,
        scan_hex u ds _ true (.inl rfl), List.foldl_cons]

/-- `int('%x' % n, 16) = n`. -/
theorem int16_hex (u : Unicode) {ds : List (Fin 16)} (h : ds ≠ []) :
    u.int16 (ds.map hexChar) = some (Int.ofNat (ds.foldl (fun acc d => acc * 16 + d.val) 0)) := by
  have hs : pyStrip u.space (ds.map hexChar) = ds.map hexChar :=
    pyStrip_of_forall_not fun c hc => by
      obtain ⟨d, -, rfl⟩ := List.mem_map.mp hc
      exact u.space_hexChar d
  have hn : ∀ d : Fin 16, hexChar d ≠ '-' ∧ hexChar d ≠ '+' ∧ hexChar d ≠ 'x' ∧ hexChar d ≠ 'X' := by
    decide
  have hscan := u.scan_hex ds 0 false (.inr h)
  unfold int16 signed
  rw [hs]
  cases ds with
  | nil => exact absurd rfl h
  | cons d ds =>
      obtain ⟨h₁, h₂, -, -⟩ := hn d
      cases ds with
      | nil => simp_all
      | cons d' ds =>
          obtain ⟨-, -, h₃, h₄⟩ := hn d'
          simp_all

end Unicode

namespace Json

/-- `x[key]`, `none` when it raises; an object that was decoded has each key once. -/
def item? (key : Str) : Json → Option Json
  | .object fields => (fields.find? fun p => decide (p.1 = key)).map Prod.snd
  | _ => none

/-- `int(x)`, `none` when it raises. -/
def int? (u : Unicode) : Json → Option ℤ
  | .bool b => some b.toNat
  | .int n => some n
  | .float (.finite q) => some (q.num.tdiv q.den)
  | .str s => u.int10 s
  | .float _ | .null | .array _ | .object _ => none

/-- Lists and maps cannot be keys of a `dict` or elements of a `set`. -/
def hashable : Json → Bool
  | .array _ | .object _ => false
  | _ => true

end Json

/-- The interpreter and its libraries: `K` is the type of scores. -/
structure Runtime (K : Type) extends Unicode where
  /-- The order in which a set of strings is iterated. -/
  iterateSet : Finset Str → List Str
  mem_iterateSet : ∀ {s x}, x ∈ iterateSet s ↔ x ∈ s
  nodup_iterateSet : ∀ s, (iterateSet s).Nodup
  /-- The 64 hexadecimal digits of the SHA-256 of the UTF-8 form of a string. -/
  sha256 : Str → Fin 64 → Fin 16
  /-- `math.log`. -/
  log : K → K
  /-- `round(x, 6)`. -/
  round6 : K → K

/-- The interpreter of a worker process. -/
structure Interpreter (K : Type) extends Runtime K where
  /-- `json.loads`, `none` when it raises. -/
  loads : List UInt8 → Option Json
  strFloat : PyFloat → Str
  /-- The set of some hashable values, in the order in which it is iterated. -/
  iterateValues : List Json → List Json
  iterateValues_str : ∀ xs : List Str, iterateValues (xs.map .str) = (iterateSet xs.toFinset).map .str
  /-- Whether `exchange.publish` of the AMQP client takes the value for a routing key. -/
  routable : Json → Bool

/-- `str(x)` of a hashable value. -/
def Interpreter.format {K : Type} (it : Interpreter K) : Json → Str
  | .null => "None".toList
  | .bool true => "True".toList
  | .bool false => "False".toList
  | .int n => strInt n
  | .float x => it.strFloat x
  | .str s => s
  | .array _ | .object _ => []

/-- `hashlib.sha256(s.encode("utf-8")).hexdigest()`. -/
def Runtime.hexdigest {K : Type} (rt : Runtime K) (s : Str) : Str :=
  (List.ofFn (rt.sha256 s)).map hexChar

end DocSearch
