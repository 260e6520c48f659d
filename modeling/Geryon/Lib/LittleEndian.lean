import Mathlib.Data.Nat.Bitwise
import Mathlib.Data.UInt
import Mathlib.Tactic.Ring

/-!
# Little-endian integers

Byte strings as integers, lowest byte first, and the bits of such an integer.
-/

namespace LittleEndian

/-- The integer a byte string stands for. -/
def toNat : List UInt8 → ℕ
  | [] => 0
  | b :: bs => b.toNat + 256 * toNat bs

/-- The low `k` bytes of an integer. -/
def ofNat : ℕ → ℕ → List UInt8
  | 0, _ => []
  | k + 1, n => UInt8.ofNat n :: ofNat k (n / 256)

/-- A number in `k` octets takes `k` octets. -/
@[simp] theorem length_ofNat (k n : ℕ) : (ofNat k n).length = k := by
  induction k generalizing n with
  | zero => rfl
  | succ k ih => rw [ofNat, List.length_cons, ih]

/-- `k` octets stand for a number below `256 ^ k`. -/
theorem toNat_lt (b : List UInt8) : toNat b < 256 ^ b.length := by
  induction b with
  | nil => exact Nat.one_pos
  | cons b bs ih =>
    have hb := b.toNat_lt
    rw [toNat, List.length_cons, Nat.pow_succ]
    omega

/-- Reading back a number that fits. -/
theorem toNat_ofNat {k n : ℕ} (h : n < 256 ^ k) : toNat (ofNat k n) = n := by
  induction k generalizing n with
  | zero =>
    rw [Nat.pow_zero] at h
    exact (Nat.lt_one_iff.mp h).symm
  | succ k ih =>
    have hdiv : n / 256 < 256 ^ k := by
      rw [Nat.pow_succ] at h
      exact Nat.div_lt_of_lt_mul (by omega)
    rw [ofNat, toNat, ih hdiv, UInt8.toNat_ofNat']
    omega

/-- Writing back a number that was read. -/
theorem ofNat_toNat (b : List UInt8) : ofNat b.length (toNat b) = b := by
  induction b with
  | nil => rfl
  | cons b bs ih =>
    have hb := b.toNat_lt
    have hdiv : (b.toNat + 256 * toNat bs) / 256 = toNat bs := by omega
    have hlow : UInt8.ofNat (b.toNat + 256 * toNat bs) = b := by
      apply UInt8.toNat_inj.mp
      rw [UInt8.toNat_ofNat']
      omega
    rw [List.length_cons, toNat, ofNat, hdiv, hlow, ih]

/-- Two runs of octets, the first one less significant. -/
theorem toNat_append (a b : List UInt8) :
    toNat (a ++ b) = toNat a + 256 ^ a.length * toNat b := by
  induction a with
  | nil => rw [List.nil_append, List.length_nil, Nat.pow_zero, Nat.one_mul, toNat, Nat.zero_add]
  | cons x a ih =>
    rw [List.cons_append, toNat, ih, toNat, List.length_cons, Nat.pow_succ]
    ring

/-- Byte strings of one length are determined by their integers. -/
theorem toNat_inj {a b : List UInt8} (hlen : a.length = b.length) (h : toNat a = toNat b) :
    a = b := by
  rw [← ofNat_toNat a, ← ofNat_toNat b, hlen, h]

/-- Bit `i` of the integer is bit `i % 8` of byte `i / 8`. -/
theorem testBit_toNat (b : List UInt8) (i : ℕ) :
    (toNat b).testBit i = (b.getD (i / 8) 0).toNat.testBit (i % 8) := by
  induction b generalizing i with
  | nil => simp [toNat]
  | cons b bs ih =>
    have hb : b.toNat < 2 ^ 8 := b.toNat_lt
    rw [toNat, Nat.add_comm, show (256 : ℕ) = 2 ^ 8 from rfl, Nat.testBit_two_pow_mul_add _ hb]
    by_cases hi : i < 8
    · rw [if_pos hi, Nat.div_eq_of_lt hi, Nat.mod_eq_of_lt hi, List.getD_cons_zero]
    · have hdiv : i / 8 = (i - 8) / 8 + 1 := by omega
      have hmod : i % 8 = (i - 8) % 8 := by omega
      rw [if_neg hi, ih, hdiv, hmod, List.getD_cons_succ]

end LittleEndian
