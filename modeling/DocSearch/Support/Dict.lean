import DocSearch.Support.Table
import Mathlib.Algebra.GroupWithZero.Nat

/-!
# Support — Dict

Finite maps that keep the order in which their keys were first set: an association list without
repeated keys.  Setting a present key replaces its value in place, setting an absent one appends
it, and removing a key keeps the order of the others.

* `get?_set`, `get?_pop`, `get?_mapValues`: what a read returns after a write.
* `mem_entries_iff`: an entry is what `get?` returns at its key.
-/

namespace DocSearch

/-- A finite map with the order of its keys. -/
structure Dict (α β : Type*) where
  entries : List (α × β)
  nodup : (entries.map Prod.fst).Nodup

namespace Dict

variable {α β : Type*}

def empty : Dict α β := ⟨[], List.nodup_nil⟩

def keys (d : Dict α β) : List α := d.entries.map Prod.fst

def values (d : Dict α β) : List β := d.entries.map Prod.snd

variable [DecidableEq α]

def get? (d : Dict α β) (k : α) : Option β :=
  (d.entries.find? fun p => decide (p.1 = k)).map Prod.snd

/-- The entries after setting `k`: in place when `k` is present, at the end otherwise. -/
def setEntries (l : List (α × β)) (k : α) (v : β) : List (α × β) :=
  if k ∈ l.map Prod.fst then l.map fun p => if p.1 = k then (k, v) else p else l ++ [(k, v)]

theorem keys_setEntries (l : List (α × β)) (k : α) (v : β) :
    (setEntries l k v).map Prod.fst =
      if k ∈ l.map Prod.fst then l.map Prod.fst else l.map Prod.fst ++ [k] := by
  unfold setEntries
  split
  · rw [List.map_map]
    refine List.map_congr_left fun p _ => ?_
    by_cases e : p.1 = k <;> simp [e]
  · simp

theorem nodup_setEntries {l : List (α × β)} (h : (l.map Prod.fst).Nodup) (k : α) (v : β) :
    ((setEntries l k v).map Prod.fst).Nodup := by
  rw [keys_setEntries]
  split
  · exact h
  · rename_i hk
    exact List.nodup_append.mpr ⟨h, List.nodup_singleton k, fun a ha b hb => by
      rw [List.mem_singleton] at hb; rintro rfl; exact hk (hb ▸ ha)⟩

/-- `d[k] = v`. -/
def set (d : Dict α β) (k : α) (v : β) : Dict α β :=
  ⟨setEntries d.entries k v, nodup_setEntries d.nodup k v⟩

/-- `d.pop(k, None)`. -/
def pop (d : Dict α β) (k : α) : Dict α β :=
  ⟨d.entries.filter fun p => decide (p.1 ≠ k), d.nodup.sublist (List.filter_sublist.map _)⟩

/-- The pairs of a list set one after the other, as a comprehension builds a map. -/
def ofList (l : List (α × β)) : Dict α β := l.foldl (fun d p => d.set p.1 p.2) empty

/-! ### Reads -/

theorem mem_entries_iff {d : Dict α β} {k : α} {v : β} : (k, v) ∈ d.entries ↔ d.get? k = some v := by
  simp only [get?, Option.map_eq_some_iff]
  constructor
  · intro h
    exact ⟨(k, v), (find?_key_eq_some d.nodup).mpr ⟨h, rfl⟩, rfl⟩
  · rintro ⟨p, hp, rfl⟩
    obtain ⟨hm, rfl⟩ := (find?_key_eq_some d.nodup).mp hp
    exact hm

theorem mem_keys {d : Dict α β} {k : α} : k ∈ d.keys ↔ ∃ v, d.get? k = some v := by
  simp only [keys, List.mem_map, ← mem_entries_iff]
  constructor
  · rintro ⟨⟨a, v⟩, h, rfl⟩; exact ⟨v, h⟩
  · rintro ⟨v, h⟩; exact ⟨_, h, rfl⟩

theorem mem_values {d : Dict α β} {v : β} : v ∈ d.values ↔ ∃ k, d.get? k = some v := by
  simp only [values, List.mem_map, ← mem_entries_iff]
  constructor
  · rintro ⟨⟨k, w⟩, h, rfl⟩; exact ⟨k, h⟩
  · rintro ⟨k, h⟩; exact ⟨_, h, rfl⟩

omit [DecidableEq α] in
theorem keys_nodup (d : Dict α β) : d.keys.Nodup := d.nodup

/-! ### Writes -/

@[simp] theorem get?_empty (k : α) : (empty : Dict α β).get? k = none := rfl

theorem mem_setEntries {l : List (α × β)} {k a : α} {v b : β} :
    (a, b) ∈ setEntries l k v ↔ a = k ∧ b = v ∨ a ≠ k ∧ (a, b) ∈ l := by
  unfold setEntries
  split
  · rename_i hk
    simp only [List.mem_map, Prod.exists]
    constructor
    · rintro ⟨c, w, hc, he⟩
      split at he <;> rename_i hck
      · cases he; exact .inl ⟨rfl, rfl⟩
      · cases he; exact .inr ⟨hck, hc⟩
    · rintro (⟨rfl, rfl⟩ | ⟨hne, h⟩)
      · obtain ⟨⟨c, w⟩, hc, rfl⟩ := List.mem_map.mp hk
        exact ⟨c, w, hc, by simp⟩
      · exact ⟨a, b, h, by simp [hne]⟩
  · rename_i hk
    simp only [List.mem_append, List.mem_singleton, Prod.mk.injEq]
    constructor
    · rintro (h | h)
      · exact .inr ⟨fun e => hk (List.mem_map.mpr ⟨_, h, e⟩), h⟩
      · exact .inl h
    · rintro (h | ⟨-, h⟩)
      · exact .inr h
      · exact .inl h

theorem get?_set (d : Dict α β) (k : α) (v : β) (a : α) :
    (d.set k v).get? a = if a = k then some v else d.get? a := by
  ext b
  rw [← mem_entries_iff]
  change (a, b) ∈ setEntries d.entries k v ↔ _
  rw [mem_setEntries]
  split
  · rename_i e; simp [e, eq_comm]
  · rename_i e; simp [e, mem_entries_iff]

@[simp] theorem get?_set_self (d : Dict α β) (k : α) (v : β) : (d.set k v).get? k = some v := by
  simp [get?_set]

theorem get?_pop (d : Dict α β) (k a : α) :
    (d.pop k).get? a = if a = k then none else d.get? a := by
  ext b
  rw [← mem_entries_iff]
  change (a, b) ∈ d.entries.filter _ ↔ _
  rw [List.mem_filter]
  split
  · rename_i e; simp [e]
  · rename_i e; simp [e, mem_entries_iff]

theorem setEntries_cons (a : α) (w : β) (l : List (α × β)) (k : α) (v : β)
    (hn : a ∉ l.map Prod.fst) :
    setEntries ((a, w) :: l) k v = if a = k then (k, v) :: l else (a, w) :: setEntries l k v := by
  by_cases e : a = k
  · subst e
    rw [if_pos rfl, setEntries, if_pos (by simp), List.map_cons, if_pos rfl]
    -- no other entry has the key
    congr 1
    refine (List.map_congr_left fun p hp => ?_).trans (List.map_id l)
    exact if_neg fun he : p.1 = a => hn (he ▸ List.mem_map_of_mem hp)
  · rw [if_neg e, setEntries, setEntries, List.map_cons]
    by_cases hm : k ∈ l.map Prod.fst
    · rw [if_pos (List.mem_cons_of_mem a hm), if_pos hm, List.map_cons, if_neg e]
    · rw [if_neg (by simpa [Ne.symm e] using hm), if_neg hm, List.cons_append]

/-- Setting a key replaces its value in the sum of all values. -/
theorem sum_values_set (d : Dict α ℕ) (k : α) (v : ℕ) :
    (d.set k v).values.sum + (d.get? k).getD 0 = d.values.sum + v := by
  obtain ⟨l, hn⟩ := d
  change ((setEntries l k v).map Prod.snd).sum +
    ((l.find? fun p => decide (p.1 = k)).map Prod.snd).getD 0 = (l.map Prod.snd).sum + v
  induction l with
  | nil => simp [setEntries]
  | cons p l ih =>
      obtain ⟨a, w⟩ := p
      obtain ⟨ha, hn⟩ := List.nodup_cons.mp hn
      rw [setEntries_cons a w l k v ha]
      by_cases e : a = k
      · simp only [e, if_true, List.find?_cons, decide_true, List.map_cons, List.sum_cons,
          Option.map_some, Option.getD_some]
        omega
      · simp only [e, if_false, List.find?_cons, decide_false, List.map_cons, List.sum_cons]
        have := ih hn
        omega

/-- The values, changed one by one. -/
def mapValues {γ : Type*} (f : β → γ) (d : Dict α β) : Dict α γ where
  entries := d.entries.map fun p => (p.1, f p.2)
  nodup := by rw [List.map_map]; exact d.nodup

section MapValues

variable {γ : Type*} (f : β → γ) (d : Dict α β)

omit [DecidableEq α] in
theorem keys_mapValues : (d.mapValues f).keys = d.keys := by
  simp [keys, mapValues]

theorem get?_mapValues (k : α) : (d.mapValues f).get? k = (d.get? k).map f := by
  simp [get?, mapValues, List.find?_map, Function.comp_def]

theorem mapValues_set (k : α) (v : β) : (d.set k v).mapValues f = (d.mapValues f).set k (f v) := by
  have hentries : (setEntries d.entries k v).map (fun p => (p.1, f p.2)) =
      setEntries (d.entries.map fun p => (p.1, f p.2)) k (f v) := by
    have hkeys : (d.entries.map fun p => (p.1, f p.2)).map Prod.fst = d.entries.map Prod.fst := by
      simp
    unfold setEntries
    rw [hkeys]
    split
    · simp only [List.map_map, Function.comp_def]
      refine List.map_congr_left fun p _ => ?_
      split <;> rfl
    · simp
  simp only [mapValues, set, hentries]

end MapValues

theorem mem_keys_set {d : Dict α β} {k a : α} {v : β} :
    a ∈ (d.set k v).keys ↔ a = k ∨ a ∈ d.keys := by
  simp only [mem_keys, get?_set]
  by_cases e : a = k <;> simp [e]

end Dict

end DocSearch
