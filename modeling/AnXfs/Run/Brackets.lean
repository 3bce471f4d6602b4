/-
Words of begins (`true`) and ends (`false`), and the counter that follows such a word up and down. A
counter of naturals does not go below zero; where no prefix of the word ends more than it has begun,
it never has to, and shows the difference exactly.
-/
import Mathlib.Data.List.Count
import Mathlib.Data.List.Infix
import Mathlib.Tactic

namespace AnXfs.Run

/-- No prefix of the word ends more than it has begun. -/
def Nested (w : List Bool) : Prop := ∀ p ∈ w.inits, p.count false ≤ p.count true

instance (w : List Bool) : Decidable (Nested w) := by unfold Nested; infer_instance

/-- The counter after a letter. -/
def tally (x : Bool) (n : Nat) : Nat := if x then n + 1 else n - 1

/-- The counter shows what the word has begun and not ended. -/
def Shows (w : List Bool) (n : Nat) : Prop := n + w.count false = w.count true

theorem Nested.prefix {w v : List Bool} (h : Nested (w ++ v)) : w.count false ≤ w.count true := by
  apply h
  rw [List.mem_inits]
  exact List.prefix_append w v

theorem Nested.of_append {w v : List Bool} (h : Nested (w ++ v)) : Nested w := by
  intro p hp
  apply h
  rw [List.mem_inits] at hp ⊢
  exact hp.trans (List.prefix_append w v)

theorem Shows.next {w v : List Bool} {x : Bool} {n : Nat} (hs : Shows w n) (hn : Nested (w ++ x :: v)) :
    Shows (w ++ [x]) (tally x n) := by
  have hle : (w ++ [x]).count false ≤ (w ++ [x]).count true := by
    apply Nested.prefix (v := v)
    rw [List.append_assoc]
    exact hn
  unfold Shows at *
  cases x
  all_goals
    simp only [List.count_append, List.count_singleton, tally] at *
    simp at *
    omega

end AnXfs.Run
