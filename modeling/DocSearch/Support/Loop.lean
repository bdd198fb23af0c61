import Mathlib.Data.Nat.Notation

/-!
# Support — Loop

A loop that runs its body until the body says to stop.  The body may depend on the number of the
pass; `none` is a loop that is still running when its fuel is used up.

* `loop_rule`: what the passes preserve and the last one establishes, holds at the end.
* `loop_terminates`: a measure that every pass but the last lowers bounds the passes.
-/

namespace DocSearch

variable {W : Type*}

/-- `while True: w = …; if stop: break`, from pass `i` on. -/
def loop (body : ℕ → W → Bool × W) : (fuel i : ℕ) → W → Option W
  | 0, _, _ => none
  | fuel + 1, i, w =>
      if (body i w).1 then loop body fuel (i + 1) (body i w).2 else some (body i w).2

variable {body : ℕ → W → Bool × W}

theorem loop_succ (fuel i : ℕ) (w : W) : loop body (fuel + 1) i w =
    if (body i w).1 then loop body fuel (i + 1) (body i w).2 else some (body i w).2 := rfl

/-- More fuel does not change a result. -/
theorem loop_mono : ∀ {fuel fuel' i : ℕ} {w w' : W}, loop body fuel i w = some w' →
    fuel ≤ fuel' → loop body fuel' i w = some w'
  | 0, _, _, _, _, h, _ => by cases h
  | fuel + 1, 0, _, _, _, _, hle => by cases hle
  | fuel + 1, fuel' + 1, i, w, w', h, hle => by
      rw [loop_succ] at h ⊢
      split
      · rename_i hm
        rw [if_pos hm] at h
        exact loop_mono h (Nat.le_of_succ_le_succ hle)
      · rename_i hm
        rw [if_neg hm] at h
        exact h

/-- Two runs that end give the same. -/
theorem loop_unique {fuel fuel' i : ℕ} {w w' w'' : W} (h : loop body fuel i w = some w')
    (h' : loop body fuel' i w = some w'') : w' = w'' := by
  rcases Nat.le_total fuel fuel' with hle | hle
  · exact Option.some.inj ((loop_mono h hle).symm.trans h')
  · exact Option.some.inj (h.symm.trans (loop_mono h' hle))

/-- **The rule.** -/
theorem loop_rule {I Q : W → Prop}
    (more : ∀ i w, I w → (body i w).1 = true → I (body i w).2)
    (last : ∀ i w, I w → (body i w).1 = false → Q (body i w).2) :
    ∀ {fuel i : ℕ} {w w' : W}, I w → loop body fuel i w = some w' → Q w'
  | 0, _, _, _, _, h => by cases h
  | fuel + 1, i, w, w', hi, h => by
      rw [loop_succ] at h
      split at h
      · rename_i hm; exact loop_rule more last (more i w hi hm) h
      · rename_i hm
        rw [← Option.some.inj h]
        exact last i w hi (Bool.eq_false_iff.mpr hm)

/-- **Termination.** -/
theorem loop_terminates (body : ℕ → W → Bool × W) {I : W → Prop} (measure : W → ℕ)
    (more : ∀ i w, I w → (body i w).1 = true →
      I (body i w).2 ∧ measure (body i w).2 < measure w) :
    ∀ {n i : ℕ} {w : W}, I w → measure w ≤ n → ∃ w', loop body (n + 1) i w = some w'
  | n, i, w, hi, hn => by
      rw [loop_succ]
      split
      · rename_i hm
        obtain ⟨hi', hlt⟩ := more i w hi hm
        cases n with
        | zero => omega
        | succ n => exact loop_terminates body measure more hi' (by omega)
      · exact ⟨_, rfl⟩

end DocSearch
