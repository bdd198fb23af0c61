import Mathlib.Algebra.Order.Ring.Defs
import Mathlib.Data.List.Chain
import Mathlib.Data.List.Sublists
import Mathlib.Tactic.Linarith

/-!
# Support — Clock

The readings of a clock that may step back.

* `climb`: how far it has moved forward altogether.
* `NoDip`: no reading is below both one before it and one after it.
* `climb_eq_iff`: the clock has moved forward by no more than it has come above its first reading
  exactly when there is no dip.
-/

namespace DocSearch.Clock

variable {K : Type*} [LinearOrder K]

/-- The latest of the readings, the first of them being `t`. -/
def peak (t : K) (times : List K) : K := times.foldr max t

/-- No reading is below both one before it and one after it. -/
def NoDip (times : List K) : Prop := ∀ a b c, [a, b, c].Sublist times → min a c ≤ b

variable {t u : K} {times : List K}

theorem le_peak : ∀ {times : List K}, t ≤ peak t times
  | [] => le_rfl
  | _ :: _ => le_max_of_le_right le_peak

theorem peak_cons (t u : K) (times : List K) : peak t (u :: times) = max t (peak u times) := by
  induction times with
  | nil => exact max_comm _ _
  | cons v times ih =>
      have hu : peak u (v :: times) = max v (peak u times) := rfl
      have ht : peak t (u :: v :: times) = max v (peak t (u :: times)) := by
        simp only [peak, List.foldr_cons]
        exact max_left_comm _ _ _
      rw [ht, ih, hu]
      exact max_left_comm _ _ _

theorem noDip_of_pairwise (h : times.Pairwise (· ≥ ·)) : NoDip times := fun _ _ _ hs =>
  min_le_of_right_le (List.rel_of_pairwise_cons (List.pairwise_cons.mp (h.sublist hs)).2
    (List.mem_singleton.mpr rfl))

/-- A step forward makes no dip. -/
theorem noDip_cons_of_le (h : t ≤ u) : NoDip (t :: u :: times) ↔ NoDip (u :: times) := by
  refine ⟨fun hd a b c hs => hd a b c (hs.cons _), fun hd a b c hs => ?_⟩
  rcases List.sublist_cons_iff.mp hs with hs | ⟨_, ⟨⟩, hs⟩
  · exact hd a b c hs
  · rcases List.sublist_cons_iff.mp hs with hs | ⟨_, ⟨⟩, _⟩
    · exact (min_le_min_right _ h).trans (hd u b c (hs.cons_cons _))
    · exact min_le_of_left_le h

/-- After a step back there is none only while the clock does not move forward again. -/
theorem noDip_cons_of_lt (h : u < t) :
    NoDip (t :: u :: times) ↔ (u :: times).Pairwise (· ≥ ·) := by
  constructor
  · intro hd
    have hlow : ∀ b ∈ times, b ≤ u := fun b hb => by
      have hs : [t, u, b].Sublist (t :: u :: times) :=
        ((List.singleton_sublist.mpr hb).cons_cons u).cons_cons t
      exact (min_le_iff.mp (hd t u b hs)).resolve_left (not_le.mpr h)
    refine List.pairwise_cons.mpr ⟨hlow, List.pairwise_iff_forall_sublist.mpr fun {b c} hs => ?_⟩
    have hb : b < t := (hlow b (hs.subset List.mem_cons_self)).trans_lt h
    exact (min_le_iff.mp (hd t b c ((hs.cons u).cons_cons t))).resolve_left (not_le.mpr hb)
  · intro hp a b c hs
    rcases List.sublist_cons_iff.mp hs with hs | ⟨_, ⟨⟩, hs⟩
    · exact noDip_of_pairwise hp a b c hs
    · exact min_le_of_right_le (List.rel_of_pairwise_cons (hp.sublist hs)
        (List.mem_singleton.mpr rfl))

section Climb

variable [CommRing K] [IsStrictOrderedRing K]

/-- How far the clock moves forward, from `t` on. -/
def climb : K → List K → K
  | _, [] => 0
  | t, u :: times => max 0 (u - t) + climb u times

theorem climb_nonneg : ∀ (t : K) (times : List K), 0 ≤ climb t times
  | _, [] => le_rfl
  | _, u :: times => add_nonneg (le_max_left _ _) (climb_nonneg u times)

/-- It never moves forward. -/
theorem climb_eq_zero : ∀ (t : K) (times : List K),
    climb t times = 0 ↔ (t :: times).Pairwise (· ≥ ·)
  | _, [] => iff_of_true rfl (List.pairwise_singleton _ _)
  | t, u :: times => by
      rw [climb, add_eq_zero_iff_of_nonneg (le_max_left _ _) (climb_nonneg u times),
        climb_eq_zero u times, max_eq_left_iff, sub_nonpos, ← List.isChain_iff_pairwise,
        ← List.isChain_iff_pairwise, List.isChain_cons_cons]

theorem peak_sub_le_climb : ∀ (t : K) (times : List K), peak t times - t ≤ climb t times
  | t, [] => (sub_self t).le
  | t, u :: times => by
      have ih := peak_sub_le_climb u times
      have hnonneg := climb_nonneg u times
      rw [peak_cons, climb]
      rcases le_total t u with h | h
      · rw [max_eq_right (h.trans le_peak), max_eq_right (sub_nonneg.mpr h)]
        linarith
      · rw [max_eq_left (sub_nonpos.mpr h), zero_add, sub_le_iff_le_add, max_le_iff]
        exact ⟨by linarith, by linarith⟩

/-- **Without a dip, and only then**, the clock has moved forward by no more than it has come above
its first reading. -/
theorem climb_eq_iff : ∀ (t : K) (times : List K),
    climb t times = peak t times - t ↔ NoDip (t :: times)
  | t, [] => iff_of_true (sub_self t).symm (noDip_of_pairwise (List.pairwise_singleton _ _))
  | t, u :: times => by
      have hbound := peak_sub_le_climb u times
      have hnonneg := climb_nonneg u times
      rw [peak_cons, climb]
      rcases le_or_gt t u with h | h
      · rw [noDip_cons_of_le h, ← climb_eq_iff u times, max_eq_right (h.trans le_peak),
          max_eq_right (sub_nonneg.mpr h)]
        exact ⟨fun he => by linarith, fun he => by linarith⟩
      · -- what it has lost has to be made up for before it counts
        rw [noDip_cons_of_lt h, ← climb_eq_zero u times, max_eq_left (sub_nonpos.mpr h.le), zero_add]
        constructor
        · intro he
          rcases le_total (peak u times) t with hp | hp
          · rwa [max_eq_left hp, sub_self] at he
          · rw [max_eq_right hp] at he
            linarith
        · intro he
          rw [max_eq_left (by linarith), sub_self, he]

end Climb

end DocSearch.Clock
