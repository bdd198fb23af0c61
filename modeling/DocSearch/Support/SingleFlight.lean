import Mathlib.Data.Nat.Notation
import Mathlib.Logic.Function.Basic

/-!
# Support — SingleFlight

Concurrent calls of one key collapsed into one: the first to find no future registered under the
key leads, and the others wait on its future.

* `Step`: what a call does to the table of futures when every leader answers.
* `Flight.abandon`: a leader that leaves without an answer.
* `Sound`: a key is registered exactly while its leader runs, with a future that is not completed.
* `NoneHanging`: whoever waits is answered, or has a leader that will answer.  Every `Step` keeps
  it, and `abandon` does when nobody waits.
* `Abandoned`: a future left open, which no step completes.
-/

namespace DocSearch.SingleFlight

open Function (update)

/-- The futures registered, completed and issued, and who leads and waits, for which key and on
which future. -/
@[ext]
structure Flight (κ : Type*) where
  registered : κ → Option ℕ
  completed : ℕ → Prop
  issued : ℕ
  leader : ℕ → Option (κ × ℕ)
  follower : ℕ → Option (κ × ℕ)

variable {κ : Type*} [DecidableEq κ]

namespace Flight

variable (F : Flight κ) (i : ℕ) (k : κ) (f : ℕ)

/-- Call `i` registers a new future. -/
def lead : Flight κ := { F with
  registered := update F.registered k (some F.issued)
  issued := F.issued + 1
  leader := update F.leader i (some (k, F.issued)) }

/-- Call `i` waits on a future. -/
def join : Flight κ := { F with follower := update F.follower i (some (k, f)) }

/-- Call `i` waits no longer. -/
def leave : Flight κ := { F with follower := update F.follower i none }

/-- Call `i` takes its future out of the table and leaves it open. -/
def abandon : Flight κ := { F with
  registered := update F.registered k none
  leader := update F.leader i none }

/-- Call `i` completes its future and takes it out of the table. -/
def land : Flight κ := { F.abandon i k with completed := fun f' => f' = f ∨ F.completed f' }

end Flight

/-- What happens to the table, short of an abandoned future. -/
inductive Step (F : Flight κ) : Flight κ → Prop where
  | stay : Step F F
  | lead {i k} (hk : F.registered k = none) (hl : F.leader i = none) : Step F (F.lead i k)
  | join {i k f} (hk : F.registered k = some f) : Step F (F.join i k f)
  | leave {i} : Step F (F.leave i)
  | land {i k f} (hl : F.leader i = some (k, f)) : Step F (F.land i k f)

/-- A key is registered exactly while its one leader runs, with a future of its own that is not
completed. -/
structure Sound (F : Flight κ) : Prop where
  leads : ∀ {i k f}, F.leader i = some (k, f) → F.registered k = some f ∧ ¬ F.completed f
  unique : ∀ {i j k f f'}, F.leader i = some (k, f) → F.leader j = some (k, f') → i = j
  led : ∀ {k f}, F.registered k = some f → ∃ i, F.leader i = some (k, f)
  apart : ∀ {k k' f}, F.registered k = some f → F.registered k' = some f → k = k'
  past : ∀ {f}, F.completed f → f < F.issued
  fresh : ∀ {k f}, F.registered k = some f → f < F.issued

/-- Whoever waits does so on a completed future, or on one whose leader is running. -/
def NoneHanging (F : Flight κ) : Prop :=
  ∀ i k f, F.follower i = some (k, f) →
    F.completed f ∨ (F.registered k = some f ∧ ∃ j, F.leader j = some (k, f))

variable {F F' : Flight κ} {i : ℕ} {k : κ} {f : ℕ}

/-- An entry after an update is the new one, or stands elsewhere. -/
theorem update_some {α β : Type*} [DecidableEq α] {g : α → Option β} {a a' : α} {o : Option β}
    {b : β} (h : update g a o a' = some b) : (a' = a ∧ o = some b) ∨ (a' ≠ a ∧ g a' = some b) := by
  by_cases he : a' = a
  · subst he
    rw [Function.update_self] at h
    exact .inl ⟨rfl, h⟩
  · rw [Function.update_of_ne he] at h
    exact .inr ⟨he, h⟩

theorem ne_of_none {α β : Type*} {g : α → Option β} {a a' : α} {b : β} (h : g a = none)
    (h' : g a' = some b) : a' ≠ a := by
  rintro rfl
  rw [h] at h'
  cases h'

omit [DecidableEq κ] in
/-- The leader of another key is another. -/
theorem ne_of_leads {j : ℕ} {k' : κ} {f' : ℕ} (hl : F.leader i = some (k, f))
    (hj : F.leader j = some (k', f')) (hne : k' ≠ k) : j ≠ i := by
  rintro rfl
  rw [hl] at hj
  cases hj
  exact hne rfl

/-- The future is registered under the key, and its leader is running. -/
def Running (F : Flight κ) (k : κ) (f : ℕ) : Prop :=
  F.registered k = some f ∧ ∃ j, F.leader j = some (k, f)

/-- A new leader starts beside those that run. -/
theorem Running.lead {k' : κ} {f' : ℕ} (h : Running F k' f') (hk : F.registered k = none)
    (hl : F.leader i = none) : Running (F.lead i k) k' f' :=
  have ⟨hr, j, hj⟩ := h
  ⟨(Function.update_of_ne (ne_of_none hk hr) _ _).trans hr, j,
    (Function.update_of_ne (ne_of_none hl hj) _ _).trans hj⟩

/-- A leader leaves those of other keys running. -/
theorem Running.abandon {k' : κ} {f' : ℕ} (h : Running F k' f')
    (hl : F.leader i = some (k, f)) (hne : k' ≠ k) : Running (F.abandon i k) k' f' :=
  have ⟨hr, j, hj⟩ := h
  ⟨(Function.update_of_ne hne _ _).trans hr, j,
    (Function.update_of_ne (ne_of_leads hl hj hne) _ _).trans hj⟩

/-! ### Soundness -/

theorem Sound.lead (h : Sound F) (hk : F.registered k = none) (hl : F.leader i = none) :
    Sound (F.lead i k) where
  leads {j k' f'} hj := by
    rcases update_some hj with ⟨-, he⟩ | ⟨-, hj₀⟩
    · cases he
      exact ⟨Function.update_self _ _ _, fun hc => Nat.lt_irrefl _ (h.past hc)⟩
    · obtain ⟨hr, hc⟩ := h.leads hj₀
      exact ⟨(Function.update_of_ne (ne_of_none hk hr) _ _).trans hr, hc⟩
  unique {j j' k' f₁ f₂} hj hj' := by
    rcases update_some hj with ⟨hji, he⟩ | ⟨-, hj₀⟩ <;>
      rcases update_some hj' with ⟨hji', he'⟩ | ⟨-, hj₀'⟩
    · exact hji.trans hji'.symm
    · -- the key of the new leader was free
      cases he
      rw [(h.leads hj₀').1] at hk
      cases hk
    · cases he'
      rw [(h.leads hj₀).1] at hk
      cases hk
    · exact h.unique hj₀ hj₀'
  led {k' f'} hr := by
    rcases update_some hr with ⟨hkk, he⟩ | ⟨-, hr₀⟩
    · cases he
      exact ⟨i, hkk ▸ Function.update_self _ _ _⟩
    · obtain ⟨j, hj⟩ := h.led hr₀
      exact ⟨j, (Function.update_of_ne (ne_of_none hl hj) _ _).trans hj⟩
  apart {k₁ k₂ f'} h₁ h₂ := by
    rcases update_some h₁ with ⟨e₁, he₁⟩ | ⟨-, hr₁⟩ <;>
      rcases update_some h₂ with ⟨e₂, he₂⟩ | ⟨-, hr₂⟩
    · exact e₁.trans e₂.symm
    · -- the new future was issued to nobody before
      cases he₁
      exact absurd (h.fresh hr₂) (Nat.lt_irrefl _)
    · cases he₂
      exact absurd (h.fresh hr₁) (Nat.lt_irrefl _)
    · exact h.apart hr₁ hr₂
  past hc := Nat.lt_succ_of_lt (h.past hc)
  fresh {k' f'} hr := by
    rcases update_some hr with ⟨-, he⟩ | ⟨-, hr₀⟩
    · cases he
      exact Nat.lt_succ_self _
    · exact Nat.lt_succ_of_lt (h.fresh hr₀)

theorem Sound.abandon (h : Sound F) (hl : F.leader i = some (k, f)) : Sound (F.abandon i k) where
  leads {j k' f'} hj := by
    rcases update_some hj with ⟨-, he⟩ | ⟨hne, hj₀⟩
    · cases he
    · have hkk : k' ≠ k := by
        rintro rfl
        exact hne (h.unique hj₀ hl)
      exact ⟨(Function.update_of_ne hkk _ _).trans (h.leads hj₀).1, (h.leads hj₀).2⟩
  unique {j j' k' f₁ f₂} hj hj' := by
    rcases update_some hj with ⟨-, he⟩ | ⟨-, hj₀⟩
    · cases he
    rcases update_some hj' with ⟨-, he⟩ | ⟨-, hj₀'⟩
    · cases he
    exact h.unique hj₀ hj₀'
  led {k' f'} hr := by
    rcases update_some hr with ⟨-, he⟩ | ⟨hne, hr₀⟩
    · cases he
    · obtain ⟨j, hj⟩ := h.led hr₀
      exact ⟨j, (Function.update_of_ne (ne_of_leads hl hj hne) _ _).trans hj⟩
  apart {k₁ k₂ f'} h₁ h₂ := by
    rcases update_some h₁ with ⟨-, he⟩ | ⟨-, hr₁⟩
    · cases he
    rcases update_some h₂ with ⟨-, he⟩ | ⟨-, hr₂⟩
    · cases he
    exact h.apart hr₁ hr₂
  past := h.past
  fresh {k' f'} hr := by
    rcases update_some hr with ⟨-, he⟩ | ⟨-, hr₀⟩
    · cases he
    · exact h.fresh hr₀

theorem Sound.land (h : Sound F) (hl : F.leader i = some (k, f)) : Sound (F.land i k f) where
  leads {j k' f'} hj := by
    obtain ⟨hr, hc⟩ := (h.abandon hl).leads hj
    refine ⟨hr, ?_⟩
    rintro (rfl | hf)
    · -- the future that is completed was registered under `k` alone
      rcases update_some hr with ⟨-, he⟩ | ⟨hne, hr₀⟩
      · cases he
      · exact hne (h.apart hr₀ (h.leads hl).1)
    · exact hc hf
  unique := (h.abandon hl).unique
  led := (h.abandon hl).led
  apart := (h.abandon hl).apart
  past {f'} hf := by
    rcases hf with rfl | hf
    · exact h.fresh (h.leads hl).1
    · exact h.past hf
  fresh := (h.abandon hl).fresh

/-- **One step.** -/
theorem Step.sound (hs : Step F F') (h : Sound F) : Sound F' := by
  cases hs with
  | stay => exact h
  | lead hk hl => exact h.lead hk hl
  | join _ | leave => exact ⟨h.leads, h.unique, h.led, h.apart, h.past, h.fresh⟩
  | land hl => exact h.land hl

/-! ### Nobody hangs -/

/-- **One step.** -/
theorem Step.noneHanging (hs : Step F F') (h : Sound F) (hn : NoneHanging F) : NoneHanging F' := by
  intro j k' f' hj
  cases hs with
  | stay => exact hn j k' f' hj
  | lead hk hl => exact (hn j k' f' hj).imp_right fun hrun => Running.lead hrun hk hl
  | @join i k f hk =>
      rcases update_some hj with ⟨-, he⟩ | ⟨-, hj₀⟩
      · cases he
        exact .inr ⟨hk, h.led hk⟩
      · exact hn j k' f' hj₀
  | leave =>
      rcases update_some hj with ⟨-, he⟩ | ⟨-, hj₀⟩
      · cases he
      · exact hn j k' f' hj₀
  | @land i k f hl =>
      rcases hn j k' f' hj with hc | hrun
      · exact .inl (.inr hc)
      by_cases hkk : k' = k
      · -- the leader completes the future of its key
        subst hkk
        have he := (h.leads hl).1.symm.trans hrun.1
        exact .inl (.inl (Option.some.inj he).symm)
      · exact .inr (Running.abandon hrun hl hkk)

/-- **A future left open** hangs whoever waits on it, and nobody else. -/
theorem noneHanging_abandon_iff (h : Sound F) (hn : NoneHanging F) (hl : F.leader i = some (k, f)) :
    NoneHanging (F.abandon i k) ↔ ∀ j, F.follower j ≠ some (k, f) := by
  constructor
  · intro hn' j hj
    rcases hn' j k f hj with hc | ⟨hr, -⟩
    · exact (h.leads hl).2 hc
    · rcases update_some hr with ⟨-, he⟩ | ⟨hne, -⟩
      · cases he
      · exact hne rfl
  · intro hno j k' f' hj
    refine (hn j k' f' hj).imp_right fun hrun => Running.abandon hrun hl ?_
    rintro rfl
    have he := (h.leads hl).1.symm.trans hrun.1
    exact hno j (Option.some.inj he ▸ hj)

/-! ### Futures left open -/

/-- The future was issued, and nobody leads it or has completed it. -/
structure Abandoned (F : Flight κ) (f : ℕ) : Prop where
  issued : f < F.issued
  unanswered : ¬ F.completed f
  leaderless : ∀ i k, F.leader i ≠ some (k, f)

theorem abandoned_of_leader (h : Sound F) (hl : F.leader i = some (k, f)) :
    Abandoned (F.abandon i k) f where
  issued := h.fresh (h.leads hl).1
  unanswered := (h.leads hl).2
  leaderless j k' hj := by
    rcases update_some hj with ⟨-, he⟩ | ⟨hne, hj₀⟩
    · cases he
    · -- its one leader has left
      obtain rfl := h.apart (h.leads hj₀).1 (h.leads hl).1
      exact hne (h.unique hj₀ hl)

theorem Abandoned.abandon (h : Abandoned F f) (i : ℕ) (k : κ) : Abandoned (F.abandon i k) f where
  issued := h.issued
  unanswered := h.unanswered
  leaderless j k' hj := by
    rcases update_some hj with ⟨-, he⟩ | ⟨-, hj₀⟩
    · cases he
    · exact h.leaderless j k' hj₀

/-- **A future left open stays open.** -/
theorem Abandoned.step (h : Abandoned F f) (hs : Step F F') : Abandoned F' f := by
  cases hs with
  | stay => exact h
  | join _ | leave => exact ⟨h.issued, h.unanswered, h.leaderless⟩
  | @lead i k _ _ =>
      refine ⟨Nat.lt_succ_of_lt h.issued, h.unanswered, fun j k' hj => ?_⟩
      rcases update_some hj with ⟨-, he⟩ | ⟨-, hj₀⟩
      · -- the new leader leads a new future
        cases he
        exact absurd h.issued (Nat.lt_irrefl _)
      · exact h.leaderless j k' hj₀
  | @land i k f' hl =>
      refine ⟨h.issued, ?_, (h.abandon i k).leaderless⟩
      rintro (rfl | hc)
      · exact h.leaderless i k hl
      · exact h.unanswered hc

end DocSearch.SingleFlight
