import Geryon.Lib.Pratt
import Mathlib.Tactic.NormNum.Prime

/-!
# The two primes of the 448-bit tier

The prime of the field that `gf` implements and the order of the group that the scalar arithmetic
works modulo, with chains of Lucas tests that prove them prime.
-/

namespace Geryon

/-- The prime of the field: `2^448 - 2^224 - 1`. -/
def fieldPrime : ℕ := 4 ^ 224 - 2 ^ 224 - 1

/-- The order `q` of the base point, of 446 bits. -/
def groupOrder : ℕ :=
  4 ^ 223 - 13818066809895115352007386748515426880336692474882178609894547503885

/-- The primes the chain starts with. -/
def smallPrimes : List ℕ :=
  [2, 3, 5, 7, 11, 13, 17, 19, 23, 31, 37, 53, 59, 61, 67, 71, 79, 97, 101, 109, 113, 137, 151,
  167, 179, 193, 197, 223, 271, 311, 337, 443, 463, 593, 641, 991, 1609, 1933, 2239, 2531, 2683,
  2963, 6197, 6577, 17449, 18287, 34483, 41389, 51473, 64817, 116989, 142211, 196687, 217003,
  227393, 379979, 411743, 766223, 816763, 894613]

/-- The chain up to the two primes. -/
def primeChain : List Pratt.Entry := [
  ⟨1466449, 7, [2, 2, 2, 2, 3, 137, 223]⟩,
  ⟨1609403, 2, [2, 23, 59, 593]⟩,
  ⟨2916841, 13, [2, 2, 2, 3, 5, 109, 223]⟩,
  ⟨3009341, 2, [2, 2, 5, 17, 53, 167]⟩,
  ⟨3578453, 2, [2, 2, 894613]⟩,
  ⟨4847597, 2, [2, 2, 13, 13, 71, 101]⟩,
  ⟨6700417, 5, [2, 2, 2, 2, 2, 2, 2, 3, 17449]⟩,
  ⟨7156907, 2, [2, 3578453]⟩,
  ⟨9801157, 2, [2, 2, 3, 816763]⟩,
  ⟨15643211, 6, [2, 5, 11, 142211]⟩,
  ⟨35796097, 5, [2, 2, 2, 2, 2, 2, 2, 3, 3, 7, 23, 193]⟩,
  ⟨36753053, 2, [2, 2, 7, 443, 2963]⟩,
  ⟨47840521, 17, [2, 2, 2, 3, 5, 7, 13, 13, 337]⟩,
  ⟨671065561, 7, [2, 2, 2, 3, 3, 3, 3, 5, 11, 19, 991]⟩,
  ⟨765448337, 3, [2, 2, 2, 2, 47840521]⟩,
  ⟨1255525949, 2, [2, 2, 2683, 116989]⟩,
  ⟨1335912079, 6, [2, 3, 19, 31, 61, 6197]⟩,
  ⟨1764234391, 3, [2, 3, 5, 271, 217003]⟩,
  ⟨3402277943, 5, [2, 7, 151, 1609403]⟩,
  ⟨8464734851, 2, [2, 5, 5, 11, 13, 23, 51473]⟩,
  ⟨32061889897, 10, [2, 2, 2, 3, 1335912079]⟩,
  ⟨342682509629, 2, [2, 2, 17, 6577, 766223]⟩,
  ⟨25136521679249, 3, [2, 2, 2, 2, 7, 7, 32061889897]⟩,
  ⟨95024118539459, 2, [2, 4847597, 9801157]⟩,
  ⟨97859369123353, 5, [2, 2, 2, 3, 3, 67, 197, 271, 379979]⟩,
  ⟨760192948315673, 3, [2, 2, 2, 95024118539459]⟩,
  ⟨34741861125639557, 13, [2, 2, 7, 7, 7, 31, 463, 1764234391]⟩,
  ⟨2746144996771313789, 2, [2, 2, 7, 113, 1609, 34483, 15643211]⟩,
  ⟨36131535570665139281, 3, [2, 2, 2, 2, 5, 13, 34741861125639557]⟩,
  ⟨1469495262398780123809, 17, [2, 2, 2, 2, 2, 3, 7, 7, 223, 411743, 3402277943]⟩,
  ⟨167773885276849215533569, 17, [2, 2, 2, 2, 2, 2, 2, 2, 2, 3, 3, 3, 7, 7, 2531,
    97859369123353]⟩,
  ⟨596242599987116128415063, 5, [2, 37, 223, 36131535570665139281]⟩,
  ⟨163131120638915058577002756917, 2, [2, 2, 61, 79, 311, 35796097, 760192948315673]⟩,
  ⟨929098197455246849020086750707, 2, [2, 13, 17, 765448337, 2746144996771313789]⟩,
  ⟨6730519843040614479184435237013, 2, [2, 2, 41389, 7156907, 671065561, 8464734851]⟩,
  ⟨3591893631361984318311655378233263, 5, [2, 1933, 929098197455246849020086750707]⟩,
  ⟨37414057161322375957408148834323969, 23, [2, 2, 2, 2, 2, 2, 2, 2, 2, 3, 3, 7, 36753053,
    1255525949, 25136521679249]⟩,
  ⟨392279121964710096549298451519713063, 3, [2, 3, 179, 2239, 163131120638915058577002756917]⟩,
  ⟨547972593843380542316719287015009101629889568888367769396279985548530313239, 3, [2, 3, 64817,
    3591893631361984318311655378233263, 392279121964710096549298451519713063]⟩,
  ⟨groupOrder, 2, [2, 3, 19, 19, 97, 227393, 3009341, 342682509629,
    6730519843040614479184435237013,
    547972593843380542316719287015009101629889568888367769396279985548530313239]⟩,
  ⟨fieldPrime, 7, [2, 641, 18287, 196687, 1466449, 2916841, 6700417, 1469495262398780123809,
    167773885276849215533569, 596242599987116128415063, 37414057161322375957408148834323969]⟩]

/-- The primes the chain starts from. -/
theorem smallPrimes_prime : ∀ q ∈ smallPrimes, q.Prime := by
  unfold smallPrimes
  simp only [List.forall_mem_cons, List.not_mem_nil, IsEmpty.forall_iff, implies_true, and_true]
  norm_num

/-- The primes known below 64 bits, and below 128 bits. -/
def wordPrimes : List ℕ := (primeChain.take 28).map Pratt.Entry.n ++ smallPrimes

def doublePrimes : List ℕ := ((primeChain.drop 28).take 10).map Pratt.Entry.n ++ wordPrimes

/-- The chain in three parts, each with exponents as long as its numbers: one computation, which
the kernel does once. -/
theorem primeChain_valid :
    Pratt.Chain.Valid 8 smallPrimes (primeChain.take 28) ∧
      Pratt.Chain.Valid 16 wordPrimes ((primeChain.drop 28).take 10) ∧
      Pratt.Chain.Valid 56 doublePrimes (primeChain.drop 38) ∧
      fieldPrime ∈ (primeChain.drop 38).map Pratt.Entry.n ∧
      groupOrder ∈ (primeChain.drop 38).map Pratt.Entry.n := by
  decide +kernel

/-- The field has elements of 56 bytes. -/
theorem fieldPrime_lt : fieldPrime < 256 ^ 56 := by
  rw [fieldPrime]
  norm_num

/-- The field does not have characteristic two. -/
theorem fieldPrime_odd : fieldPrime % 2 = 1 := by
  rw [fieldPrime]
  norm_num

/-- Scalars have 56 bytes as well. -/
theorem groupOrder_lt : groupOrder < 256 ^ 56 := by
  rw [groupOrder]
  norm_num

theorem two_lt_groupOrder : 2 < groupOrder := by
  rw [groupOrder]
  norm_num

/-- Every entry of the chain is prime. -/
theorem prime_of_mem_chain {n : ℕ} (h : n ∈ (primeChain.drop 38).map Pratt.Entry.n) : n.Prime := by
  obtain ⟨hword, hdouble, hfull, -, -⟩ := primeChain_valid
  have hwordPrimes := hword.primes smallPrimes_prime
  have hdoublePrimes := hdouble.primes hwordPrimes
  obtain ⟨e, he, rfl⟩ := List.mem_map.mp h
  exact hfull.prime hdoublePrimes e he

/-- `2^448 - 2^224 - 1` is prime. -/
theorem fieldPrime_prime : fieldPrime.Prime := prime_of_mem_chain primeChain_valid.2.2.2.1

/-- The order of the group is prime. -/
theorem groupOrder_prime : groupOrder.Prime := prime_of_mem_chain primeChain_valid.2.2.2.2

end Geryon
