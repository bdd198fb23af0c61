import Mathlib.Order.MinMax
import Mathlib.Tactic.SplitIfs

/-!
# Support — EditDistance

The Levenshtein distance of two lists, by its recursion.

* `levenshtein_le_iff`: it is the least number of insertions, deletions and substitutions that make
  one list of the other.
* `levenshtein_cons_self`, `levenshtein_cons_le_one`: what a distance of at most one says about the
  first elements.
-/

namespace DocSearch.EditDistance

variable {α : Type*}

/-- One insertion, deletion or substitution, at the head or further on. -/
inductive Edit : List α → List α → Prop where
  | insert (x : α) (xs : List α) : Edit xs (x :: xs)
  | delete (x : α) (xs : List α) : Edit (x :: xs) xs
  | substitute (x y : α) (xs : List α) : Edit (x :: xs) (y :: xs)
  | cons (x : α) {xs ys : List α} : Edit xs ys → Edit (x :: xs) (x :: ys)

/-- A number of edits, one after the other. -/
inductive Edits : ℕ → List α → List α → Prop where
  | refl (xs : List α) : Edits 0 xs xs
  | step {n : ℕ} {xs ys zs : List α} : Edit xs ys → Edits n ys zs → Edits (n + 1) xs zs

theorem Edits.cons (x : α) {n : ℕ} {xs ys : List α} (h : Edits n xs ys) :
    Edits n (x :: xs) (x :: ys) := by
  induction h with
  | refl xs => exact .refl _
  | step he _ ih => exact .step (.cons x he) ih

theorem Edits.insertAll : ∀ ys : List α, Edits ys.length [] ys
  | [] => .refl []
  | y :: ys => .step (.insert y []) ((Edits.insertAll ys).cons y)

variable [DecidableEq α]

/-- The distances from `x :: xs`, from those of `xs`. -/
def levenshteinCons (x : α) (distance : List α → ℕ) : List α → ℕ
  | [] => distance [] + 1
  | y :: ys =>
      min (distance (y :: ys) + 1)
        (min (levenshteinCons x distance ys + 1) (distance ys + if x = y then 0 else 1))

/-- The Levenshtein distance. -/
def levenshtein : List α → List α → ℕ
  | [] => List.length
  | x :: xs => levenshteinCons x (levenshtein xs)

@[simp] theorem levenshtein_nil (ys : List α) : levenshtein [] ys = ys.length := rfl

theorem levenshtein_cons_nil (x : α) (xs : List α) :
    levenshtein (x :: xs) [] = levenshtein xs [] + 1 := rfl

theorem levenshtein_cons_cons (x y : α) (xs ys : List α) : levenshtein (x :: xs) (y :: ys) =
    min (levenshtein xs (y :: ys) + 1)
      (min (levenshtein (x :: xs) ys + 1) (levenshtein xs ys + if x = y then 0 else 1)) := rfl

@[simp] theorem levenshtein_nil_right (xs : List α) : levenshtein xs [] = xs.length := by
  induction xs with
  | nil => rfl
  | cons x xs ih => rw [levenshtein_cons_nil, ih, List.length_cons]

@[simp] theorem levenshtein_self (xs : List α) : levenshtein xs xs = 0 := by
  induction xs with
  | nil => rfl
  | cons x xs ih =>
      rw [levenshtein_cons_cons, if_pos rfl, ih]
      exact Nat.min_eq_zero_iff.mpr (.inr (Nat.min_eq_zero_iff.mpr (.inr rfl)))

theorem levenshtein_comm (xs ys : List α) : levenshtein xs ys = levenshtein ys xs := by
  induction xs generalizing ys with
  | nil => simp
  | cons x xs ihx =>
      induction ys with
      | nil => simp
      | cons y ys ihy =>
          rw [levenshtein_cons_cons, levenshtein_cons_cons, ihx (y :: ys), ihx ys, ihy,
            ite_cond_congr (propext (eq_comm (a := x) (b := y)))]
          exact min_left_comm _ _ _

/-! ### Edits -/

/-- One more element on the right is one more edit at most. -/
theorem levenshtein_cons_right_le (xs ys : List α) (y : α) :
    levenshtein xs (y :: ys) ≤ levenshtein xs ys + 1 := by
  cases xs with
  | nil => rfl
  | cons x xs => exact (min_le_right _ _).trans (min_le_left _ _)

theorem levenshtein_cons_left_le (xs ys : List α) (x : α) :
    levenshtein (x :: xs) ys ≤ levenshtein xs ys + 1 := by
  rw [levenshtein_comm, levenshtein_comm xs]
  exact levenshtein_cons_right_le ys xs x

theorem levenshtein_le_cons_left (xs ys : List α) (x : α) :
    levenshtein xs ys ≤ levenshtein (x :: xs) ys + 1 := by
  induction ys with
  | nil => exact (Nat.le_succ _).trans (Nat.le_succ _)
  | cons y ys ih =>
      have hright := levenshtein_cons_right_le xs ys y
      rw [levenshtein_cons_cons]
      omega

/-- **One edit** changes the distance by at most one. -/
theorem Edit.levenshtein_le {xs ys : List α} (h : Edit xs ys) :
    ∀ zs, levenshtein xs zs ≤ levenshtein ys zs + 1 := by
  induction h with
  | insert x xs => exact fun zs => levenshtein_le_cons_left xs zs x
  | delete x xs => exact fun zs => levenshtein_cons_left_le xs zs x
  | substitute x y xs =>
      intro zs
      induction zs with
      | nil => simp
      | cons z zs ih =>
          rw [levenshtein_cons_cons, levenshtein_cons_cons]
          split_ifs <;> omega
  | cons x _ ih =>
      intro zs
      induction zs with
      | nil =>
          rw [levenshtein_cons_nil, levenshtein_cons_nil]
          exact Nat.succ_le_succ (ih [])
      | cons z zs ihz =>
          have hhead := ih (z :: zs)
          have htail := ih zs
          rw [levenshtein_cons_cons, levenshtein_cons_cons]
          omega

theorem Edits.levenshtein_le {n : ℕ} {xs ys : List α} (h : Edits n xs ys) :
    levenshtein xs ys ≤ n := by
  induction h with
  | refl xs => exact (levenshtein_self xs).le
  | step he _ ih => exact (he.levenshtein_le _).trans (Nat.succ_le_succ ih)

/-- The distance is reached. -/
theorem edits_levenshtein (xs ys : List α) : Edits (levenshtein xs ys) xs ys := by
  induction xs generalizing ys with
  | nil => exact .insertAll ys
  | cons x xs ihx =>
      induction ys with
      | nil => exact .step (.delete x xs) (ihx [])
      | cons y ys ihy =>
          rw [levenshtein_cons_cons]
          rcases min_choice (levenshtein xs (y :: ys) + 1) (min (levenshtein (x :: xs) ys + 1)
            (levenshtein xs ys + if x = y then 0 else 1)) with h | h
          · rw [h]
            exact .step (.delete x xs) (ihx (y :: ys))
          · rw [h]
            rcases min_choice (levenshtein (x :: xs) ys + 1)
              (levenshtein xs ys + if x = y then 0 else 1) with h | h
            · rw [h]
              exact .step (.insert y (x :: xs)) (ihy.cons y)
            · rw [h]
              split
              · rename_i heq
                exact heq ▸ (ihx ys).cons x
              · exact .step (.substitute x y xs) ((ihx ys).cons y)

/-- **The distance** is the least number of edits. -/
theorem levenshtein_le_iff {n : ℕ} {xs ys : List α} :
    levenshtein xs ys ≤ n ↔ ∃ m ≤ n, Edits m xs ys :=
  ⟨fun h => ⟨_, h, edits_levenshtein xs ys⟩, fun ⟨_, hm, h⟩ => h.levenshtein_le.trans hm⟩

/-! ### At most one edit -/

theorem levenshtein_eq_zero {xs ys : List α} : levenshtein xs ys = 0 ↔ xs = ys := by
  constructor
  · intro h
    have he := edits_levenshtein xs ys
    rw [h] at he
    cases he
    rfl
  · rintro rfl
    exact levenshtein_self xs

/-- A common first element is never edited. -/
theorem levenshtein_cons_self (x : α) (xs ys : List α) :
    levenshtein (x :: xs) (x :: ys) = levenshtein xs ys := by
  have hleft := levenshtein_le_cons_left xs ys x
  have hsymm : levenshtein xs ys ≤ levenshtein xs (x :: ys) + 1 := by
    rw [levenshtein_comm, levenshtein_comm xs]
    exact levenshtein_le_cons_left ys xs x
  rw [levenshtein_cons_cons, if_pos rfl]
  omega

/-- Of two different first elements one is edited, and nothing else is. -/
theorem levenshtein_cons_le_one {x y : α} (h : x ≠ y) (xs ys : List α) :
    levenshtein (x :: xs) (y :: ys) ≤ 1 ↔ xs = y :: ys ∨ x :: xs = ys ∨ xs = ys := by
  have hsucc : ∀ n : ℕ, n + 1 ≤ 1 ↔ n = 0 := fun n => by omega
  rw [levenshtein_cons_cons, if_neg h, min_le_iff, min_le_iff, hsucc, hsucc, hsucc]
  simp only [levenshtein_eq_zero]

/-- In lists of one length it is substituted. -/
theorem levenshtein_cons_of_length_eq {x y : α} (h : x ≠ y) {xs ys : List α}
    (hlen : xs.length = ys.length) : levenshtein (x :: xs) (y :: ys) ≤ 1 ↔ xs = ys := by
  rw [levenshtein_cons_le_one h]
  refine ⟨?_, fun e => .inr (.inr e)⟩
  rintro (e | e | e)
  · rw [e, List.length_cons] at hlen
    omega
  · rw [← e, List.length_cons] at hlen
    omega
  · exact e

/-- In a list that is longer by one it is inserted. -/
theorem levenshtein_cons_of_length_succ {x y : α} (h : x ≠ y) {xs ys : List α}
    (hlen : ys.length = xs.length + 1) : levenshtein (x :: xs) (y :: ys) ≤ 1 ↔ x :: xs = ys := by
  rw [levenshtein_cons_le_one h]
  refine ⟨?_, fun e => .inr (.inl e)⟩
  rintro (e | e | e)
  · rw [e, List.length_cons] at hlen
    omega
  · exact e
  · rw [e] at hlen
    omega

end DocSearch.EditDistance
