import Mathlib.Data.List.Prime
import Mathlib.NumberTheory.LucasPrimality

/-!
# Chains of primality proofs

Lucas's test certifies a prime `n` from the factors of `n - 1`, whose primality has to be known
first. A chain is a list of numbers with such data, each of which uses only primes known before it;
it is checked by computation (`Chain.Valid`), and every number on a valid chain is prime.
-/

namespace Pratt

/-- `a ^ e % n` over `fuel` bytes of the exponent from the top. -/
def powMod (n a : ℕ) : ℕ → ℕ → ℕ
  | 0, _ => 1 % n
  | fuel + 1, e => powMod n a fuel (e / 256) ^ 256 * a ^ (e % 256) % n

theorem powMod_eq (n a : ℕ) : ∀ {fuel e : ℕ}, e < 256 ^ fuel → powMod n a fuel e = a ^ e % n
  | 0, e, h => by
    obtain rfl : e = 0 := Nat.lt_one_iff.mp h
    rfl
  | fuel + 1, e, h => by
    have hhigh : e / 256 < 256 ^ fuel := by
      rw [pow_succ] at h
      exact Nat.div_lt_of_lt_mul (by rwa [mul_comm])
    calc powMod n a (fuel + 1) e
        = (a ^ (e / 256) % n) ^ 256 * a ^ (e % 256) % n := by rw [powMod, powMod_eq n a hhigh]
      _ = (a ^ (e / 256)) ^ 256 * a ^ (e % 256) % n := by
        rw [Nat.mul_mod, ← Nat.pow_mod, ← Nat.mul_mod]
      _ = a ^ e % n := by rw [← pow_mul, ← pow_add, Nat.div_add_mod']

/-- A number, a witness for Lucas's test and the prime factors of its predecessor. -/
structure Entry where
  n : ℕ
  witness : ℕ
  factors : List ℕ

/-- The test of an entry, over exponents of `fuel` bytes, with the factors taken from `known`. -/
def Entry.Valid (fuel : ℕ) (known : List ℕ) (e : Entry) : Prop :=
  1 < e.n ∧ e.n ≤ 256 ^ fuel ∧ e.factors.prod = e.n - 1 ∧ (∀ q ∈ e.factors, q ∈ known) ∧
    powMod e.n e.witness fuel (e.n - 1) = 1 ∧
    ∀ q ∈ e.factors, powMod e.n e.witness fuel ((e.n - 1) / q) ≠ 1

/-- A chain of entries, each of which knows the numbers before it. -/
def Chain.Valid (fuel : ℕ) : List ℕ → List Entry → Prop
  | _, [] => True
  | known, e :: rest => e.Valid fuel known ∧ Chain.Valid fuel (e.n :: known) rest

instance (fuel : ℕ) (known : List ℕ) (e : Entry) : Decidable (e.Valid fuel known) :=
  inferInstanceAs (Decidable (_ ∧ _))

instance Chain.decidableValid (fuel : ℕ) :
    ∀ (known : List ℕ) (es : List Entry), Decidable (Chain.Valid fuel known es)
  | _, [] => .isTrue trivial
  | known, e :: rest =>
    have := Chain.decidableValid fuel (e.n :: known) rest
    inferInstanceAs (Decidable (_ ∧ _))

/-- A power is one in `ZMod n` when its residue is one. -/
theorem cast_pow_eq_one_iff {n : ℕ} (hn : 1 < n) (a e : ℕ) :
    (a : ZMod n) ^ e = 1 ↔ a ^ e % n = 1 := by
  rw [← Nat.cast_pow, ← Nat.cast_one, ZMod.natCast_eq_natCast_iff', Nat.mod_eq_of_lt hn]

theorem Entry.Valid.prime {fuel : ℕ} {known : List ℕ} {e : Entry} (h : e.Valid fuel known)
    (hknown : ∀ q ∈ known, q.Prime) : e.n.Prime := by
  obtain ⟨hn, hfuel, hprod, hmem, hfull, hpart⟩ := h
  have hlt : ∀ k, k ≤ e.n - 1 → k < 256 ^ fuel := fun k hk => by omega
  apply lucas_primality e.n e.witness
  · rw [cast_pow_eq_one_iff hn, ← powMod_eq e.n e.witness (hlt _ le_rfl)]
    exact hfull
  · intro q hq hdvd
    -- a prime factor of the product is one of the listed factors
    rw [← hprod] at hdvd
    have hq' : q ∈ e.factors :=
      mem_list_primes_of_dvd_prod hq.prime (fun r hr => (hknown r (hmem r hr)).prime) hdvd
    rw [Ne, cast_pow_eq_one_iff hn, ← powMod_eq e.n e.witness (hlt _ (Nat.div_le_self _ _))]
    exact hpart q hq'

/-- The numbers of a valid chain over known primes are prime. -/
theorem Chain.Valid.prime {fuel : ℕ} : ∀ {known : List ℕ} {es : List Entry},
    Chain.Valid fuel known es → (∀ q ∈ known, q.Prime) → ∀ e ∈ es, e.n.Prime
  | _, [], _, _, _, he => nomatch he
  | known, e :: rest, ⟨hhead, htail⟩, hknown, e', he' => by
    have hprime := hhead.prime hknown
    rcases List.mem_cons.mp he' with rfl | hrest
    · exact hprime
    · refine htail.prime (fun q hq => ?_) e' hrest
      rcases List.mem_cons.mp hq with rfl | hq
      · exact hprime
      · exact hknown q hq

/-- They join the known primes for a further chain. -/
theorem Chain.Valid.primes {fuel : ℕ} {known : List ℕ} {es : List Entry}
    (h : Chain.Valid fuel known es) (hknown : ∀ q ∈ known, q.Prime) :
    ∀ q ∈ es.map Entry.n ++ known, q.Prime := by
  intro q hq
  rcases List.mem_append.mp hq with hnew | hold
  · obtain ⟨e, he, rfl⟩ := List.mem_map.mp hnew
    exact h.prime hknown e he
  · exact hknown q hold

end Pratt
