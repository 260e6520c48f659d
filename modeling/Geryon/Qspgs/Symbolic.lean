import Geryon.Symbolic
import Geryon.Qspgs.Wire

/-!
# Symbolic group primitives

The rerandomisable signature over symbolic octets. A base pair is known by its number, a pseudonym
key by its base key and its randomizer, and a signature by key, message and context.
-/

namespace Geryon

namespace Sym

/-- The base verification key number `n`. -/
def vkb (n : Nat) : Bytes Sym := prim 30 [num n] 2976

/-- The base secret key number `n`. -/
def skb (n : Nat) : Bytes Sym := prim 31 [num n] 800

/-- The pseudonym key of a base key under a randomizer. -/
def psdnVk (desc : SuiteDesc Sym) (vkb rho : Sym) : Bytes Sym := prim 32 [vkb, rho] desc.dsaPkLen

/-- The signature of a message under a pseudonym key. -/
def krSig (desc : SuiteDesc Sym) (vkr msg ctx : Bytes Sym) : Bytes Sym :=
  prim 33 [ofList vkr, ofList msg, ofList ctx] desc.dsaSigLen

instance : KrMlDsa Sym where
  vkbLen _ := 2976
  skbLen _ := 800
  randVk desc vkb rho := .ok (psdnVk desc (ofList vkb) (ofList rho))
  randSk _ skb vkb rho :=
    match keyNum 31 skb, keyNum 30 vkb with
    | some n, some m => if n = m then .ok (prim 34 [ofList vkb, ofList rho] 1) else .error .crypto
    | _, _ => .error .crypto
  sign desc rsk msg ctx _ :=
    match rsk with
    | [out 34 (cons vkb (cons rho nil)) 0] => .ok (krSig desc (psdnVk desc vkb rho) msg ctx)
    | _ => .error .crypto
  verify desc sig vkr msg ctx := sig = krSig desc vkr msg ctx

/-- A symbolic signature has the length the suite gives. -/
theorem length_krSig (desc : SuiteDesc Sym) (vkr msg ctx : Bytes Sym) :
    (krSig desc vkr msg ctx).length = desc.dsaSigLen := length_prim _ _ _

/-- The symbolic digest loses nothing. -/
theorem digest_injective {b b' : Bytes Sym} (h : digest b = digest b') : b = b' := by
  have htail : prim 9 b 60 = prim 9 b' 60 := List.append_inj_right h (by simp)
  have hpos : 0 < 60 := by decide
  have heq : ((prim 9 b 60).drop 0).take 60 = ((prim 9 b' 60).drop 0).take 60 := by rw [htail]
  exact (prim_inj hpos hpos hpos heq).2.1

-- a signature is never looked into: unfolding one builds a list of thousands of octets
attribute [irreducible] vkb skb krSig

/-- The curve with keys from any scalar. The pair of an ephemeral scalar is named by its coins; the
public key of any other scalar is its product with the base point. -/
def qsDh (sk pk : Bytes Sym) : Except GyErr (Bytes Sym) :=
  match sk.head?, pk.head? with
  | some (out 63 coins 0), some (out 61 s 0) => .ok (prim 62 [coins, s] 32)
  | _, some (out 64 coins 0) => .ok (prim 62 [coins, ofList sk] 32)
  | _, some (byte 9) => .ok (prim 61 sk 32)
  | _, _ => .error .weakKey

/-- Encapsulation to the key of a seed. -/
def qsKemEncap (ek coins : Bytes Sym) : Except GyErr (Bytes Sym × Bytes Sym) :=
  match ek.head? with
  | some (out 65 seed 0) => .ok (prim 67 [seed, ofList coins] 768, prim 68 [seed, ofList coins] 32)
  | _ => .error .crypto

/-- Decapsulation with the key of a seed. -/
def qsKemDecap (ct dk : Bytes Sym) : Except GyErr (Bytes Sym) :=
  match ct.head?, dk.head? with
  | some (out 67 (cons seed (cons coins nil)) 0), some (out 66 seed' 0) =>
    if seed = seed' then .ok (prim 68 [seed, coins] 32) else .error .crypto
  | _, _ => .error .crypto

end Sym

open Geryon.Sym

/-- A hybrid tier over symbolic primitives. -/
def qsSuite : SuiteDesc Sym :=
  { symSuite true with
    suiteId := 2
    name := "geryon_h25519_512"
    dh := qsDh
    kemPkLen := 800
    kemSkLen := 1632
    kemCtLen := 768
    kemEncap := qsKemEncap
    kemDecap := qsKemDecap
    dsaPkLen := 1312
    dsaSigLen := 2420 }

/-- The hash of a pseudonym key. -/
def symVkHash (vkr : Bytes Sym) : Bytes Sym :=
  digest (ascii "geryon" ++ ascii "." ++ ascii "1" ++ ascii "." ++ ascii "geryon_h25519_512" ++
    ascii "." ++ ascii "qspgs-vkhash" ++ vkr ++ [])

/-- The hash of a pseudonymous key, in symbols. -/
theorem gyQspgsVkpsdnHash_sym (vkr : Bytes Sym) :
    gyQspgsVkpsdnHash qsSuite vkr = .ok (symVkHash vkr) := rfl

/-- It has the length of the suite's hash. -/
theorem length_symVkHash (vkr : Bytes Sym) : (symVkHash vkr).length = qsSuite.hashLen := by
  simp [symVkHash, digest, qsSuite, symSuite]

/-- Different keys have different hashes. -/
theorem symVkHash_inj {vkr vkr' : Bytes Sym} (h : symVkHash vkr = symVkHash vkr') :
    vkr = vkr' := by
  have hinput := digest_injective h
  simpa using hinput

attribute [irreducible] symVkHash

/-- The objects of a core with its signature by the holder of a pseudonym key. -/
def symSign (core : QspgsCore Sym) (signerIndex : UInt32) (vkr : Bytes Sym) : CoreSig Sym :=
  ⟨signerIndex, core.lastVmin,
    krSig qsSuite vkr (coreTbsBytes qsSuite core signerIndex) (ascii "qspgs-core")⟩

/-- The signature object decodes to the signature in it. -/
theorem gyQspgsCoreSigDecode_symSign (core : QspgsCore Sym) (i : UInt32) (vkr : Bytes Sym) :
    gyQspgsCoreSigDecode qsSuite (coreSigBytes qsSuite (symSign core i vkr)) =
      .ok (symSign core i vkr) :=
  gyQspgsCoreSigDecode_coreSigBytes qsSuite (length_krSig _ _ _ _)
    (by rw [symSign, length_krSig]; decide)

/-- A core verifies under the key that signed it. -/
theorem gyQspgsCoreVerify_symSign {core : QspgsCore Sym} (i : UInt32) (vkr : Bytes Sym) {cap : Nat}
    (hwf : core.Wf qsSuite) (hcap : (coreTbsBytes qsSuite core i).length ≤ cap) :
    gyQspgsCoreVerify qsSuite core i vkr (symSign core i vkr).sig cap = .ok () := by
  unfold gyQspgsCoreVerify
  rw [gyQspgsCoreTbs_eq qsSuite i hwf hcap, Except.ok_bind, if_neg (by
    rw [symSign, length_krSig]
    exact not_not.mpr rfl)]
  simp [KrMlDsa.verify, symSign]

end Geryon
