import DocSearch.Core.Python

/-!
# Core — Uuid

`uuid.UUID`: a 128-bit number, its canonical text, and the parser its constructor runs.

* `parse_str`: the canonical text parses back to the same id.
* `str_injective`: hence two ids with one text are one id.
-/

namespace DocSearch

/-- A UUID, by its `int` attribute. -/
structure Uuid where
  int : ℕ
  int_lt : int < 16 ^ 32
  deriving DecidableEq

namespace Uuid

/-- The 32 hexadecimal digits, `'%032x' % self.int`. -/
def hex (u : Uuid) : Str := (hexDigits 32 u.int).map hexChar

/-- `str(u)`: the digits in groups of 8, 4, 4, 4 and 12. -/
def str (u : Uuid) : Str :=
  u.hex.take 8 ++ '-' :: (u.hex.take 12).drop 8 ++ '-' :: (u.hex.take 16).drop 12 ++
    '-' :: (u.hex.take 20).drop 16 ++ '-' :: u.hex.drop 20

/-- `uuid.UUID(s)`, `none` for its `ValueError`. -/
def parse (c : Unicode) (s : Str) : Option Uuid :=
  let s := pyRemove "uuid:".toList 0 (pyRemove "urn:".toList 0 s)
  let s := (pyStrip (fun c => c = '{' || c = '}') s).filter (· ≠ '-')
  if s.length ≠ 32 then none
  else
    (c.int16 s).bind fun n =>
      if h : 0 ≤ n ∧ n.toNat < 16 ^ 32 then some ⟨n.toNat, h.2⟩ else none

/-! ### The canonical text -/

@[simp] theorem length_hex (u : Uuid) : u.hex.length = 32 := by simp [hex]

/-- The characters of the text are the digits and the hyphen. -/
theorem mem_str {u : Uuid} {c : Char} (h : c ∈ u.str) : c = '-' ∨ ∃ d, c = hexChar d := by
  have hhex : ∀ {l : Str}, l.Sublist u.hex → c ∈ l → ∃ d, c = hexChar d := fun hl hc => by
    obtain ⟨d, -, rfl⟩ := List.mem_map.mp (hl.subset hc)
    exact ⟨d, rfl⟩
  have hdrop : ∀ m n : ℕ, ((u.hex.take m).drop n).Sublist u.hex := fun m n =>
    (List.drop_sublist n _).trans (List.take_sublist m _)
  simp only [str, List.mem_append, List.mem_cons, List.append_assoc, List.cons_append] at h
  rcases h with h | h | h | h | h | h | h | h | h
  · exact .inr (hhex (List.take_sublist 8 _) h)
  · exact .inl h
  · exact .inr (hhex (hdrop 12 8) h)
  · exact .inl h
  · exact .inr (hhex (hdrop 16 12) h)
  · exact .inl h
  · exact .inr (hhex (hdrop 20 16) h)
  · exact .inl h
  · exact .inr (hhex (List.drop_sublist 20 _) h)

theorem length_str (u : Uuid) : u.str.length = 36 := by
  simp [str]

/-- A character that is neither the hyphen nor a digit does not occur in the text. -/
theorem notMem_str {u : Uuid} {c : Char} (h : c ≠ '-' ∧ ∀ d, c ≠ hexChar d) : c ∉ u.str := by
  intro hc
  rcases mem_str hc with e | ⟨d, e⟩
  · exact h.1 e
  · exact h.2 d e

/-- Without its hyphens the text is the digits. -/
theorem filter_str (u : Uuid) : u.str.filter (· ≠ '-') = u.hex := by
  have hhex : ∀ {l : Str}, l.Sublist u.hex → l.filter (· ≠ '-') = l := fun hl => by
    refine List.filter_eq_self.mpr fun c hc => ?_
    obtain ⟨d, -, rfl⟩ := List.mem_map.mp (hl.subset hc)
    have hne : ∀ d : Fin 16, hexChar d ≠ '-' := by decide
    exact decide_eq_true (hne d)
  have hdrop : ∀ m n : ℕ, ((u.hex.take m).drop n).Sublist u.hex := fun m n =>
    (List.drop_sublist n _).trans (List.take_sublist m _)
  have hcons : ∀ l : Str, ('-' :: l).filter (· ≠ '-') = l.filter (· ≠ '-') := fun l => by simp
  simp only [str, List.filter_append, hcons, hhex (List.take_sublist 8 _), hhex (hdrop _ _),
    hhex (List.drop_sublist 20 _)]
  have h₁ : (u.hex.take 12).take 8 = u.hex.take 8 := by simp [List.take_take]
  have h₂ : (u.hex.take 16).take 12 = u.hex.take 12 := by simp [List.take_take]
  have h₃ : (u.hex.take 20).take 16 = u.hex.take 16 := by simp [List.take_take]
  rw [← h₁, List.take_append_drop, ← h₂, List.take_append_drop, ← h₃, List.take_append_drop,
    List.take_append_drop]

/-- **The canonical text parses back.** -/
theorem parse_str (c : Unicode) (u : Uuid) : parse c u.str = some u := by
  have hn : ∀ a, (a = 'u' ∨ a = '{' ∨ a = '}') → a ∉ u.str := by
    have h : ∀ d : Fin 16, hexChar d ≠ 'u' ∧ hexChar d ≠ '{' ∧ hexChar d ≠ '}' := by decide
    rintro a (rfl | rfl | rfl)
    · exact notMem_str ⟨by decide, fun d => (h d).1.symm⟩
    · exact notMem_str ⟨by decide, fun d => (h d).2.1.symm⟩
    · exact notMem_str ⟨by decide, fun d => (h d).2.2.symm⟩
  have hurn : pyRemove "urn:".toList 0 u.str = u.str :=
    pyRemove_of_notMem (a := 'u') (p := "rn:".toList) (hn _ (.inl rfl))
  have huuid : pyRemove "uuid:".toList 0 u.str = u.str :=
    pyRemove_of_notMem (a := 'u') (p := "uid:".toList) (hn _ (.inl rfl))
  have hstrip : pyStrip (fun c => c = '{' || c = '}') u.str = u.str := by
    refine pyStrip_of_forall_not fun a ha => ?_
    have h₁ : a ≠ '{' := fun e => hn a (.inr (.inl e)) ha
    have h₂ : a ≠ '}' := fun e => hn a (.inr (.inr e)) ha
    simp [h₁, h₂]
  have hds : hexDigits 32 u.int ≠ [] := fun h => by
    have := congrArg List.length h
    simp at this
  have hint : c.int16 u.hex = some (Int.ofNat u.int) := by
    rw [hex, c.int16_hex hds, foldl_hexDigits, Nat.mod_eq_of_lt u.int_lt]
  have hrange : 0 ≤ Int.ofNat u.int ∧ (Int.ofNat u.int).toNat < 16 ^ 32 :=
    ⟨Int.natCast_nonneg _, u.int_lt⟩
  simp only [parse, hurn, huuid, hstrip, filter_str, length_hex, hint, ne_eq, not_true, if_false,
    Option.bind_some, dif_pos hrange]
  rfl

theorem str_injective : Function.Injective str := fun u v h => by
  have c : Unicode := ⟨fun _ => false, fun _ => none, id, fun _ _ => false⟩
  have hu := parse_str c u
  rw [h, parse_str c v] at hu
  exact (Option.some.inj hu).symm

@[simp] theorem str_inj {u v : Uuid} : u.str = v.str ↔ u = v := str_injective.eq_iff

end Uuid

end DocSearch
