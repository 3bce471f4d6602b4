/-
Memory as C programs use it for lists: `memcpy` and consecutive writes to an array, and the two ways a
list without a length is read, pointers up to a null pointer and strings up to an empty one. A read
that finds no terminator inside the memory yields nothing.
-/
import Mathlib.Tactic

namespace AnXfs.Data

variable {α : Type}

/-! ## Writing -/

/-- `memcpy` to the front of `dest`; nothing if the source is longer. -/
def memcpy (dest src : List α) : Option (List α) :=
  if src.length ≤ dest.length then some (src ++ dest.drop src.length) else none

theorem memcpy_full {dest src : List α} (h : src.length = dest.length) : memcpy dest src = some src := by
  unfold memcpy
  rw [if_pos h.le, h, List.drop_length, List.append_nil]

/-- The values are written to the slots from the `i`-th on, one after the other. -/
def setFrom (dest : List α) (i : Nat) : List α → List α
  | [] => dest
  | x :: xs => setFrom (dest.set i x) (i + 1) xs

/-- What is written, between what was before it and what was behind it. -/
theorem setFrom_append (xs pre dest post : List α) (h : dest.length = xs.length) :
    setFrom (pre ++ dest ++ post) pre.length xs = pre ++ xs ++ post := by
  induction xs generalizing pre dest with
  | nil =>
    rw [List.length_eq_zero_iff.1 h]
    rfl
  | cons x xs ih =>
    obtain ⟨d, dest, rfl⟩ := List.exists_cons_of_length_eq_add_one h
    have hset : (pre ++ d :: dest ++ post).set pre.length x = (pre ++ [x]) ++ dest ++ post := by
      simp
    have hlen : pre.length + 1 = (pre ++ [x]).length := by simp
    rw [setFrom, hset, hlen, ih (pre ++ [x]) dest (by simpa using h)]
    simp

/-! ## Reading -/

/-- An array of pointers up to the null pointer. -/
def nullTerminated : List (Option α) → Option (List α)
  | [] => none
  | none :: _ => some []
  | some a :: rest => (nullTerminated rest).map (a :: ·)

theorem nullTerminated_append (xs : List α) (rest : List (Option α)) :
    nullTerminated (xs.map some ++ none :: rest) = some xs := by
  induction xs with
  | nil => rfl
  | cons x xs ih => simp [nullTerminated, ih]

/-- Strings behind one another up to an empty one; the first of them has begun with `cur`. -/
def strings (cur : List UInt8) : List UInt8 → Option (List (List UInt8))
  | [] => none
  | b :: rest =>
    if b ≠ 0 then strings (cur ++ [b]) rest
    else if cur = [] then some []
    else (strings [] rest).map (cur :: ·)

/-- Two NULs end a list of strings, whatever is before them. -/
theorem strings_isSome : ∀ xs cur : List UInt8, (strings cur (xs ++ [0, 0])).isSome = true
  | [], cur => by
    by_cases hc : cur = []
    · simp [strings, hc]
    · simp [strings, hc]
  | b :: xs, cur => by
    rw [List.cons_append, strings]
    by_cases hb : b ≠ 0
    · rw [if_pos hb]
      exact strings_isSome xs _
    · rw [if_neg hb]
      by_cases hc : cur = []
      · rw [if_pos hc]
        rfl
      · rw [if_neg hc, Option.isSome_map]
        exact strings_isSome xs []

end AnXfs.Data
