/-
Mutexes: who owns each, which of them each thread holds and which it waits for. Threads that take their
mutexes in the order of a rank never wait for each other: `Held.exists_moves` finds one that goes on.
-/
import Mathlib.Tactic

namespace AnXfs.Run

variable {τ κ : Type} {owner : κ → Option τ} {H : τ → κ → Prop}

/-- The owner of each mutex is the thread that holds it. -/
def Held (owner : κ → Option τ) (H : τ → κ → Prop) : Prop := ∀ k t, owner k = some t ↔ H t k

namespace Held

theorem exclusive (h : Held owner H) {k : κ} {t u : τ} (ht : H t k) (hu : H u k) : t = u :=
  Option.some.inj (((h k t).2 ht).symm.trans ((h k u).2 hu))

theorem not_free (h : Held owner H) {k : κ} {t : τ} (ht : H t k) : owner k ≠ none := by
  rw [(h k t).2 ht]
  exact Option.some_ne_none t

/-- A step that takes no mutex and gives none back. -/
theorem same (h : Held owner H) {H' : τ → κ → Prop} (hs : ∀ t k, H' t k ↔ H t k) :
    Held owner H' :=
  fun k t => (h k t).trans (hs t k).symm

section Update

variable [DecidableEq κ]

/-- A thread takes a mutex that is free. -/
theorem acquire (h : Held owner H) {H' : τ → κ → Prop} {t : τ} {k : κ} (hk : owner k = none)
    (hself : ∀ l, H' t l ↔ l = k ∨ H t l) (hother : ∀ u, u ≠ t → ∀ l, H' u l ↔ H u l) :
    Held (Function.update owner k (some t)) H' := by
  intro l u
  by_cases hu : u = t
  · subst hu
    rw [hself l]
    by_cases hl : l = k
    · subst hl
      simp
    · rw [Function.update_of_ne hl, h l u, or_iff_right hl]
  · rw [hother u hu l]
    by_cases hl : l = k
    · subst hl
      rw [Function.update_self]
      refine iff_of_false (fun he => hu (Option.some.inj he).symm) fun hh => h.not_free hh hk
    · rw [Function.update_of_ne hl]
      exact h l u

/-- A thread gives a mutex back. -/
theorem release (h : Held owner H) {H' : τ → κ → Prop} {t : τ} {k : κ} (hk : H t k)
    (hself : ∀ l, H' t l ↔ l ≠ k ∧ H t l) (hother : ∀ u, u ≠ t → ∀ l, H' u l ↔ H u l) :
    Held (Function.update owner k none) H' := by
  intro l u
  by_cases hu : u = t
  · subst hu
    rw [hself l]
    by_cases hl : l = k
    · subst hl
      simp
    · rw [Function.update_of_ne hl, h l u, and_iff_right hl]
  · rw [hother u hu l]
    by_cases hl : l = k
    · subst hl
      rw [Function.update_self]
      refine iff_of_false (fun he => Option.some_ne_none u he.symm) fun hh => hu (h.exclusive hh hk)
    · rw [Function.update_of_ne hl]
      exact h l u

end Update

/-- Where a thread waits only for a mutex that ranks above all it holds, waiting comes to an end: some thread
waits for a mutex that is free, or some thread holds a mutex and waits for none. -/
theorem exists_moves (h : Held owner H) {wants : τ → Option κ} (rank : κ → Nat) {bound : Nat}
    (hbound : ∀ k, rank k < bound) (hrank : ∀ t k, wants t = some k → ∀ l, H t l → rank l < rank k) :
    ∀ {t : τ} {k : κ}, wants t = some k →
      (∃ u l, wants u = some l ∧ owner l = none) ∨ ∃ u l, H u l ∧ wants u = none := by
  -- the mutexes waited for along a chain of owners rank higher and higher
  suffices ∀ n t k, bound - rank k = n → wants t = some k →
      (∃ u l, wants u = some l ∧ owner l = none) ∨ ∃ u l, H u l ∧ wants u = none by
    intro t k hw
    exact this _ t k rfl hw
  intro n
  induction n using Nat.strong_induction_on with
  | _ n ih =>
    intro t k hn hw
    cases ho : owner k with
    | none => exact .inl ⟨t, k, hw, ho⟩
    | some u =>
      have hu := (h k u).1 ho
      cases hwu : wants u with
      | none => exact .inr ⟨u, k, hu, hwu⟩
      | some l =>
        have hlt := hrank u l hwu k hu
        have hl := hbound l
        exact ih (bound - rank l) (by omega) u l rfl hwu

end Held

end AnXfs.Run
