import Mathlib.Data.List.Nodup

/-!
# Support — Table

Rows with a primary key: a list of rows in which no key repeats.

* `find?_eq_some`: a lookup by key returns the row of the table with that key.
* `find?_insert`, `find?_update`: the lookups after an `INSERT` of a row and after an `UPDATE` of
  the rows a condition selects, which keeps their keys.
-/

namespace DocSearch

/-- In a list without repeated keys, a lookup by key returns the row with that key. -/
theorem find?_key_eq_some {ρ κ : Type*} [DecidableEq κ] {key : ρ → κ} {l : List ρ}
    (hl : (l.map key).Nodup) {k : κ} {r : ρ} :
    l.find? (fun x => decide (key x = k)) = some r ↔ r ∈ l ∧ key r = k := by
  refine ⟨fun h => ⟨List.mem_of_find?_eq_some h, of_decide_eq_true (List.find?_some h :)⟩, ?_⟩
  rintro ⟨hr, rfl⟩
  -- some row has the key, and no other row than `r` can be it
  have hsome : (l.find? fun x => decide (key x = key r)).isSome := by
    rw [List.find?_isSome]
    exact ⟨r, hr, decide_eq_true rfl⟩
  obtain ⟨x, hx⟩ := Option.isSome_iff_exists.mp hsome
  have hk : key x = key r := of_decide_eq_true (List.find?_some hx :)
  rw [hx, List.inj_on_of_nodup_map hl (List.mem_of_find?_eq_some hx) hr hk]

/-- Rows of type `ρ` under the primary key `key`. -/
structure Table {ρ κ : Type*} (key : ρ → κ) where
  rows : List ρ
  nodup : (rows.map key).Nodup

namespace Table

variable {ρ κ : Type*} {key : ρ → κ}

def empty : Table key := ⟨[], List.nodup_nil⟩

/-- `UPDATE … WHERE p`, for an `f` that keeps the key. -/
def update (t : Table key) (p : ρ → Bool) (f : ρ → ρ) (hf : ∀ r, key (f r) = key r) : Table key where
  rows := t.rows.map fun r => if p r then f r else r
  nodup := by
    have h : (t.rows.map fun r => if p r then f r else r).map key = t.rows.map key := by
      rw [List.map_map]
      refine List.map_congr_left fun r _ => ?_
      simp only [Function.comp]
      split
      · exact hf r
      · rfl
    rw [h]
    exact t.nodup

variable [DecidableEq κ]

def find? (t : Table key) (k : κ) : Option ρ := t.rows.find? fun r => decide (key r = k)

/-- `INSERT`: refused when the key is taken. -/
def insert (t : Table key) (r : ρ) : Option (Table key) :=
  if h : key r ∈ t.rows.map key then none
  else some ⟨t.rows ++ [r], by
    rw [List.map_append]
    exact List.nodup_append.mpr ⟨t.nodup, List.nodup_singleton _, fun a ha b hb => by
      rw [List.map_singleton, List.mem_singleton] at hb; rintro rfl; exact h (hb ▸ ha)⟩⟩

theorem find?_eq_some {t : Table key} {k : κ} {r : ρ} :
    t.find? k = some r ↔ r ∈ t.rows ∧ key r = k :=
  find?_key_eq_some t.nodup

theorem mem_rows {t : Table key} {r : ρ} : r ∈ t.rows ↔ t.find? (key r) = some r := by
  simp [find?_eq_some]

theorem key_of_find? {t : Table key} {k : κ} {r : ρ} (h : t.find? k = some r) : key r = k :=
  (find?_eq_some.mp h).2

@[simp] theorem find?_empty (k : κ) : (empty : Table key).find? k = none := rfl

/-- An insertion goes through at a free key, and changes the lookup of that key only. -/
theorem find?_insert {t t' : Table key} {r : ρ} (h : t.insert r = some t') :
    t.find? (key r) = none ∧ ∀ k, t'.find? k = if k = key r then some r else t.find? k := by
  unfold insert at h
  split at h
  · cases h
  rename_i hr
  cases h
  have hnone : t.find? (key r) = none := by
    refine Option.eq_none_iff_forall_not_mem.mpr fun x hx => hr ?_
    obtain ⟨hx, hk⟩ := find?_eq_some.mp hx
    exact List.mem_map.mpr ⟨x, hx, hk⟩
  refine ⟨hnone, fun k => ?_⟩
  simp only [find?, List.find?_append]
  by_cases e : k = key r
  · subst e
    rw [if_pos rfl, show t.rows.find? (fun x => decide (key x = key r)) = none from hnone]
    simp
  · simp [e, Ne.symm e]

/-- An update changes a row only where the condition selects it. -/
theorem find?_update (t : Table key) (p : ρ → Bool) (f : ρ → ρ) (hf : ∀ r, key (f r) = key r)
    (k : κ) :
    (t.update p f hf).find? k = (t.find? k).map fun r => if p r then f r else r := by
  have hk : ((fun r => decide (key r = k)) ∘ fun r => if p r then f r else r) =
      fun r => decide (key r = k) := by
    funext r
    simp only [Function.comp]
    split
    · rw [hf]
    · rfl
  simp only [update, find?, List.find?_map, hk]

end Table

end DocSearch
