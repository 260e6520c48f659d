import Geryon.Group.Credential
import Geryon.Symbolic
import Mathlib.Algebra.Field.ZMod
import Mathlib.Tactic.NormNum.Prime

/-!
# A small tier

A proof group of order 101 over symbolic octets, with the ideal proof system. Runs and
presentations on fixed inputs are taken over it.
-/

namespace Geryon.GroupSample

instance fact_prime_101 : Fact (Nat.Prime 101) := ⟨by norm_num⟩

/-- Scalars and points of the tier. -/
abbrev Zq := ZMod 101

/-- A number as a scalar. -/
def zq (n : Nat) : Zq := n

/-- The value of an octet as a scalar. -/
def val : Sym → Zq
  | .byte b => b.toNat
  | .num n => n
  | .nil => 0
  | .cons a b => val a + 3 * val b
  | .out op input i => op + val input + i

/-- A hash that depends on the last octet only. -/
def hashLast (b : Bytes Sym) : Zq := (b.getLast?.map val).getD 0 + 1

/-- A block that repeats an octet. -/
def blockOf (n : Nat) (a : Sym) : Block n Sym := ⟨List.replicate n a, List.length_replicate⟩

/-- The value of the first octet. -/
def headVal (b : Bytes Sym) : Zq := (b.head?.map val).getD 0

/-- The tier. -/
def tier : GroupTier Zq Zq Sym (IdealProof Zq Sym) where
  desc := symSuite false
  pointLen := 32
  scalarLen := 32
  masterKeyLen := 32
  pkMaxCandidates := 1
  hashToGroup := hashLast
  hashToScalar b _ := hashLast b
  hashToG1 := hashLast
  encodeUid uid := headVal uid.1
  encodePk pk := headVal pk.1
  decodeUid p := some (blockOf _ (.num p.val))
  decodePk p := [blockOf _ (.num p.val)]
  base := 1
  encodePoint p := .num p.val :: List.replicate 31 (.byte 0)
  nizk := idealNizk Zq Zq Sym
  name_le := by decide
  decodePk_le _ := le_refl 1

/-- A user id. -/
def uid (n : Nat) : GroupUid Sym := blockOf _ (.num n)

/-- A profile key. -/
def pk (n : Nat) : ProfileKey Sym := blockOf _ (.num n)

/-- Distinct nonzero generators. -/
def gens : GroupGenerators Zq := fun g => g.ctorIdx + 1

/-- A server key for `n` attributes. -/
def serverKey (n : Nat) : GroupServerSecret Zq Zq :=
  ⟨zq 2, zq 3, zq 5, zq 7, zq 11, zq 13, zq 17, zq 19, 2 • gens .w, n⟩

/-- The same key over the derived generators. -/
def issuerKey (n : Nat) : GroupServerSecret Zq Zq := { serverKey n with bigW := 2 • tier.gens .w }

/-- Secrets of a group. -/
def secretParams : GroupSecretParams Zq := ⟨zq 3, zq 5, zq 7, zq 9⟩

/-- The public parameters of the group. -/
def publicParams : GroupPublicParams Zq := gyGroupPublicDerive gens secretParams

/-- The credential of user 4 for the first day. -/
def authCred : GroupMacTag Zq Zq :=
  ⟨6, 8, (serverKey 3).bigW + ((serverKey 3).x0 + (serverKey 3).x1 * 6) • 8 +
    (serverKey 3).y1 • tier.m1 (uid 4) + (serverKey 3).y2 • tier.encodeUid (uid 4) +
    (serverKey 3).y3 • ((UInt64.toNat 86400 : Zq) • gens .m3)⟩

/-- The credential of user 4 for profile key 5. -/
def pkCred : GroupMacTag Zq Zq :=
  ⟨6, 8, (serverKey 4).bigW + ((serverKey 4).x0 + (serverKey 4).x1 * 6) • 8 +
    (serverKey 4).y1 • tier.m1 (uid 4) + (serverKey 4).y2 • tier.encodeUid (uid 4) +
    (serverKey 4).y3 • tier.m3 (uid 4) (pk 5) + (serverKey 4).y4 • tier.encodePk (pk 5)⟩

end Geryon.GroupSample
