/-
Little-endian words as byte strings: `leBytes n v` lists the `n` low bytes of `v`, least
significant first, and `leNat` reads such a list back; `takeExact n` splits off exactly `n` bytes
and fails on a short read.
-/
import Mathlib.Tactic

namespace AnXfs.Wire

/-! ## Words -/

/-- The `n` low bytes of `v`, least significant first. -/
def leBytes : Nat → Nat → List UInt8
  | 0, _ => []
  | n + 1, v => UInt8.ofNat (v % 256) :: leBytes n (v / 256)

/-- The number a byte string stands for, least significant byte first. -/
def leNat : List UInt8 → Nat
  | [] => 0
  | b :: bs => b.toNat + 256 * leNat bs

@[simp] theorem length_leBytes : ∀ n v, (leBytes n v).length = n
  | 0, _ => rfl
  | n + 1, v => by simp [leBytes, length_leBytes n]

theorem leNat_leBytes : ∀ n v, leNat (leBytes n v) = v % 256 ^ n
  | 0, v => by simp [leBytes, leNat, Nat.mod_one]
  | n + 1, v => by
    have hb : (UInt8.ofNat (v % 256)).toNat = v % 256 := by
      rw [UInt8.toNat_ofNat']; omega
    rw [leBytes, leNat, leNat_leBytes n, hb, pow_succ, Nat.mul_comm (256 ^ n), Nat.mod_mul]

theorem leNat_lt : ∀ bs, leNat bs < 256 ^ bs.length
  | [] => by simp [leNat]
  | b :: bs => by
    have h1 := b.toNat_lt
    have h2 := leNat_lt bs
    simp only [leNat, List.length_cons, pow_succ]
    omega

theorem two_pow_eight_mul (n : Nat) : 2 ^ (8 * n) = 256 ^ n := by
  rw [pow_mul]; norm_num

/-! ## Exact reads -/

/-- The first `n` bytes and what follows them; nothing on a short read. -/
def takeExact (n : Nat) (b : List UInt8) : Option (List UInt8 × List UInt8) :=
  if n ≤ b.length then some (b.take n, b.drop n) else none

theorem takeExact_append (p s : List UInt8) : takeExact p.length (p ++ s) = some (p, s) := by
  simp [takeExact]

theorem takeExact_some {n : Nat} {b p s : List UInt8} (h : takeExact n b = some (p, s)) :
    b = p ++ s ∧ p.length = n := by
  unfold takeExact at h
  split at h
  · rename_i hle
    cases h
    exact ⟨(List.take_append_drop n b).symm, by simp [hle]⟩
  · cases h

end AnXfs.Wire
