import Mathlib.Data.Nat.Notation

/-!
# Support — Noninterference

A deterministic system that answers every action, and an observer who hears the answers to some of
them.  Of an action, the part that concerns the observer is another action, or none.

* `Unwinding`: a relation between states that look alike, which each action keeps when the second
  state takes only the part of it.
* `Unwinding.heard_eq`: the observer hears in a whole run what it hears in the run of the parts.
-/

namespace DocSearch.Noninterference

/-- `S` are the states, `A` the actions, `O` the answers. -/
structure System (S A O : Type*) where
  step : S → A → S
  reply : S → A → O

structure Observer (A : Type*) where
  part : A → Option A
  hears : A → Bool

variable {S A O : Type*}

namespace System

/-- The state after a run. -/
def run (M : System S A O) (s : S) (as : List A) : S := as.foldl M.step s

/-- The answers the observer hears in a run. -/
def heard (M : System S A O) (V : Observer A) : S → List A → List O
  | _, [] => []
  | s, a :: as =>
      if V.hears a then M.reply s a :: M.heard V (M.step s a) as else M.heard V (M.step s a) as

/-- Every action of the run meets the condition in the state it is taken in. -/
def Conforms (M : System S A O) (ok : S → A → Prop) : S → List A → Prop
  | _, [] => True
  | s, a :: as => ok s a ∧ M.Conforms ok (M.step s a) as

instance decidableConforms (M : System S A O) {ok : S → A → Prop} [∀ s a, Decidable (ok s a)] :
    (s : S) → (as : List A) → Decidable (M.Conforms ok s as)
  | _, [] => .isTrue trivial
  | s, a :: as =>
      @instDecidableAnd (ok s a) (M.Conforms ok (M.step s a) as) _ (decidableConforms M (M.step s a) as)

end System

/-- What one action preserves. -/
structure Unwinding (M : System S A O) (V : Observer A) (ok : S → A → Prop) (R : S → S → Prop) :
    Prop where
  ignored : ∀ {s s' a}, R s s' → ok s a → V.part a = none → V.hears a = false ∧ R (M.step s a) s'
  seen : ∀ {s s' a b}, R s s' → ok s a → V.part a = some b →
    V.hears b = V.hears a ∧ (V.hears a = true → M.reply s a = M.reply s' b) ∧
      R (M.step s a) (M.step s' b)

namespace Unwinding

variable {M : System S A O} {V : Observer A} {ok : S → A → Prop} {R : S → S → Prop}

/-- **Noninterference.**  Whatever does not concern the observer can be left out of the run. -/
theorem heard_eq (h : Unwinding M V ok R) : ∀ {as : List A} {s s' : S}, R s s' → M.Conforms ok s as →
    M.heard V s as = M.heard V s' (as.filterMap V.part) ∧
      R (M.run s as) (M.run s' (as.filterMap V.part))
  | [], _, _, hR, _ => ⟨rfl, hR⟩
  | a :: as, s, s', hR, hc => by
      cases hp : V.part a with
      | none =>
          obtain ⟨hh, hR'⟩ := h.ignored hR hc.1 hp
          rw [List.filterMap_cons_none hp, System.heard, hh]
          exact heard_eq h hR' hc.2
      | some b =>
          obtain ⟨hh, hr, hR'⟩ := h.seen hR hc.1 hp
          obtain ⟨ih, ihR⟩ := heard_eq h hR' hc.2
          rw [List.filterMap_cons_some hp]
          refine ⟨?_, ihR⟩
          rw [System.heard, System.heard, hh, ih]
          cases ha : V.hears a with
          | false => rfl
          | true => rw [if_pos rfl, if_pos rfl, hr ha]

end Unwinding

end DocSearch.Noninterference
