import Geryon.Group.Sample
import Geryon.Group.Sound
import Geryon.Proto.Canonical

/-!
# Ciphertexts of a group, as bytes

`group_venc.c` over the encodings of points. An encoding may be of no point, and the operations of
the provider fail on it; decryption goes on with what the failed operation has left behind and
collects the failures. On encodings of points it is the decryption over the group.

## Main results

- `Encoded.gyGroupUidDecrypt_eq`, `Encoded.gyGroupPkDecrypt_eq`: decryption of encodings is
  decryption over the group, and fails on everything else.
- `groupDecrypt_iff`: decryption accepts the encryptions and nothing else.
-/

namespace Geryon

/-- The provider's operations on encodings, each of which may fail. -/
structure PointOps (S : Type) where
  hashToGroup : Bytes UInt8 → Option (Bytes UInt8)
  hashToG1 : Bytes UInt8 → Option (Bytes UInt8)
  encodeUid : GroupUid UInt8 → Option (Bytes UInt8)
  encodePk : ProfileKey UInt8 → Option (Bytes UInt8)
  decodeUid : Bytes UInt8 → Option (GroupUid UInt8)
  decodePk : Bytes UInt8 → Option (List (ProfileKey UInt8))
  pointAdd : Bytes UInt8 → Bytes UInt8 → Option (Bytes UInt8)
  pointSub : Bytes UInt8 → Bytes UInt8 → Option (Bytes UInt8)
  pointScalarmul : S → Bytes UInt8 → Option (Bytes UInt8)

variable {S P π : Type}

/-- `gy_is_zero`. -/
def gyIsZero (b : Bytes UInt8) : Bool := b.all (· == 0)

/-- `ct_select`: under the mask of the flag, the source replaces the destination. -/
def ctSelect {n : Nat} (dst src : Block n UInt8) (flag : UInt8) : Block n UInt8 :=
  let mask : UInt8 := 0 - (flag &&& 1)
  ⟨List.zipWith (fun d s => d ^^^ ((d ^^^ s) &&& mask)) dst.1 src.1, by
    rw [List.length_zipWith, dst.2, src.2, min_self]⟩

/-- A zeroed block. -/
def zeroBlock (n : Nat) : Block n UInt8 := ⟨zeros n, length_zeros n⟩

namespace Encoded

variable (tier : GroupTier S P UInt8 π) (ops : PointOps S)

/-- `gy_group_hash_to_g`. -/
def gyGroupHashToG (purpose : String) (input : Bytes UInt8) : Except GyErr (Bytes UInt8) := do
  let seed ← groupSeed tier purpose input
  (ops.hashToGroup seed).elim (.error .crypto) .ok

/-- `gy_group_hash_to_g1`. -/
def gyGroupHashToG1 (purpose : String) (input : Bytes UInt8) : Except GyErr (Bytes UInt8) := do
  let seed ← groupSeed tier purpose input
  (ops.hashToG1 seed).elim (.error .crypto) .ok

/-- The code of a failed operation of the provider. -/
def orCrypto (x : Option (Bytes UInt8)) : Except GyErr (Bytes UInt8) := x.elim (.error .crypto) .ok

/-- `group_unmask`. -/
def groupUnmask (e2 e1 : Bytes UInt8) (k : S) : Option (Bytes UInt8) := do
  let t ← ops.pointScalarmul k e1
  ops.pointSub e2 t

/-- `gy_group_uid_encrypt`. -/
def gyGroupUidEncrypt (sp : GroupSecretParams S) (uid : GroupUid UInt8) :
    Except GyErr (GroupUidCt (Bytes UInt8)) := do
  let m1 ← gyGroupHashToG tier ops "grp-m1" uid.1
  let m2 ← orCrypto (ops.encodeUid uid)
  let e1 ← orCrypto (ops.pointScalarmul sp.a1 m1)
  let t ← orCrypto (ops.pointScalarmul sp.a2 e1)
  let e2 ← orCrypto (ops.pointAdd t m2)
  return ⟨e1, e2⟩

/-- What the stack holds where `gy_group_uid_decrypt` keeps its points and the user id. -/
structure UidScratch where
  uid2 : GroupUid UInt8
  m1 : Bytes UInt8
  m1A1 : Bytes UInt8

/-- `gy_group_uid_decrypt`: the code and what is left in `uid`. -/
def gyGroupUidDecrypt (sp : GroupSecretParams S) (mem : UidScratch)
    (ct : GroupUidCt (Bytes UInt8)) : Except GyErr Unit × GroupUid UInt8 :=
  let e1Nonzero := !gyIsZero ct.eA1
  let unmasked := groupUnmask ops ct.eA2 ct.eA1 sp.a2
  let m2 := unmasked.getD (zeros tier.pointLen)
  let decoded := ops.decodeUid m2
  let uid2 := decoded.getD mem.uid2
  let hashed := gyGroupHashToG tier ops "grp-m1" uid2.1
  let m1 := hashed.toOption.getD mem.m1
  let product := ops.pointScalarmul sp.a1 m1
  let opsOk := unmasked.isSome && hashed.isOk && product.isSome
  let eq := decide (ct.eA1 = product.getD mem.m1A1)
  if e1Nonzero && opsOk && decoded.isSome && eq then (.ok (), uid2)
  else (.error .verify, zeroBlock groupUidBytes)

/-- `gy_group_pk_encrypt`. -/
def gyGroupPkEncrypt (sp : GroupSecretParams S) (pk : ProfileKey UInt8) (uid : GroupUid UInt8) :
    Except GyErr (GroupPkCt (Bytes UInt8)) := do
  let m3 ← gyGroupHashToG1 tier ops "grp-m3" (pk.1 ++ uid.1)
  let m4 ← orCrypto (ops.encodePk pk)
  let e1 ← orCrypto (ops.pointScalarmul sp.b1 m3)
  let t ← orCrypto (ops.pointScalarmul sp.b2 e1)
  let e2 ← orCrypto (ops.pointAdd t m4)
  return ⟨e1, e2⟩

/-- What the loop of `gy_group_pk_decrypt` carries. -/
structure PkTest where
  opsOk : Bool
  hits : Nat
  winner : ProfileKey UInt8

/-- One pass of the loop, over the slot number `c` of which the first `count` are candidates. -/
def pkTestStep (sp : GroupSecretParams S) (eB1 : Bytes UInt8) (uid : GroupUid UInt8) (count : Nat)
    (t : PkTest) (slot : ProfileKey UInt8 × Nat) : PkTest :=
  match gyGroupHashToG1 tier ops "grp-m3" (slot.1.1 ++ uid.1) with
  | .error _ => { t with opsOk := false }
  | .ok m3c =>
    match ops.pointScalarmul sp.b1 m3c with
    | none => { t with opsOk := false }
    | some m3cB1 =>
      let hit := decide (slot.2 < count) && decide (eB1 = m3cB1)
      { t with
        hits := t.hits + hit.toNat
        winner := ctSelect t.winner slot.1 hit.toUInt8 }

/-- `gy_group_pk_decrypt`: the code and what is left in `pk`. The slots hold what is on the stack
until `decode_pk` fills the first of them. -/
def gyGroupPkDecrypt (sp : GroupSecretParams S) (mem : List (ProfileKey UInt8))
    (ct : GroupPkCt (Bytes UInt8)) (uid : GroupUid UInt8) :
    Except GyErr Unit × ProfileKey UInt8 :=
  let e1Nonzero := !gyIsZero ct.eB1
  let unmasked := groupUnmask ops ct.eB2 ct.eB1 sp.b2
  let m4 := unmasked.getD (zeros tier.pointLen)
  let cands := (ops.decodePk m4).getD []
  let slots := (cands ++ mem.drop cands.length).take tier.pkMaxCandidates
  let t := slots.zipIdx.foldl (pkTestStep tier ops sp ct.eB1 uid cands.length)
    ⟨unmasked.isSome, 0, zeroBlock groupProfilekeyBytes⟩
  if e1Nonzero && t.opsOk && t.hits == 1 then (.ok (), t.winner)
  else (.error .verify, zeroBlock groupProfilekeyBytes)

end Encoded

/-! ## What the provider promises -/

section Encodes

variable [Field S] [AddCommGroup P] [Module S P]

/-- The provider computes on encodings what the group computes on points. An encoding names one
point and the zero point is all zeros. Scalar multiplication is not promised anything on zero. -/
structure PointOps.Encodes (ops : PointOps S) (tier : GroupTier S P UInt8 π) : Prop where
  inj : Function.Injective tier.encodePoint
  length : ∀ p, (tier.encodePoint p).length = tier.pointLen
  zero : tier.encodePoint 0 = zeros tier.pointLen
  hashToGroup : ∀ seed, ops.hashToGroup seed = some (tier.encodePoint (tier.hashToGroup seed))
  hashToG1 : ∀ seed, ops.hashToG1 seed = some (tier.encodePoint (tier.hashToG1 seed))
  encodeUid : ∀ uid e, ops.encodeUid uid = some e → ∃ p, tier.encodePoint p = e
  encodePk : ∀ pk e, ops.encodePk pk = some e → ∃ p, tier.encodePoint p = e
  pointAdd : ∀ p q, ops.pointAdd (tier.encodePoint p) (tier.encodePoint q) =
    some (tier.encodePoint (p + q))
  pointSub : ∀ p q, ops.pointSub (tier.encodePoint p) (tier.encodePoint q) =
    some (tier.encodePoint (p - q))
  pointSub_bad : ∀ e f, (∀ p, tier.encodePoint p ≠ e) → ops.pointSub e f = none
  pointScalarmul : ∀ (k : S) p, k ≠ 0 → p ≠ 0 →
    ops.pointScalarmul k (tier.encodePoint p) = some (tier.encodePoint (k • p))

/-- The decoders invert the encoders: `decode_uid` succeeds on what `encode_uid` gives, `decode_pk`
lists the preimages under `encode_pk`, and these have different hashes. No hash is the identity. -/
structure PointOps.Inverts (ops : PointOps S) (tier : GroupTier S P UInt8 π) : Prop where
  hashToGroup_ne : ∀ seed, tier.hashToGroup seed ≠ 0
  hashToG1_ne : ∀ seed, tier.hashToG1 seed ≠ 0
  decodeUid : ∀ p uid, ops.decodeUid (tier.encodePoint p) = some uid ↔
    ops.encodeUid uid = some (tier.encodePoint p)
  decodePk : ∀ p pk, pk ∈ (ops.decodePk (tier.encodePoint p)).getD [] ↔
    ops.encodePk pk = some (tier.encodePoint p)
  decodePk_nodup : ∀ p, ((ops.decodePk (tier.encodePoint p)).getD []).Nodup
  decodePk_le : ∀ p, ((ops.decodePk (tier.encodePoint p)).getD []).length ≤ tier.pkMaxCandidates
  hash_inj : ∀ uid pk pk', ops.encodePk pk = ops.encodePk pk' → (ops.encodePk pk).isSome →
    tier.m3 uid pk = tier.m3 uid pk' → pk = pk'

end Encodes

/-! ## The masked copy -/

/-- The zero test in constant time is a comparison with zeros. -/
theorem gyIsZero_iff {b : Bytes UInt8} {n : Nat} (hb : b.length = n) :
    gyIsZero b = true ↔ b = zeros n := by
  rw [gyIsZero, List.all_eq_true, zeros, List.eq_replicate_iff]
  constructor
  · intro h
    exact ⟨hb, fun x hx => beq_iff_eq.1 (h x hx)⟩
  · rintro ⟨-, h⟩ x hx
    exact beq_iff_eq.2 (h x hx)

/-- The constant-time selection with bit one is the source. -/
theorem ctSelect_one {n : Nat} (dst src : Block n UInt8) : ctSelect dst src 1 = src := by
  have hbyte : ∀ d s : UInt8, d ^^^ ((d ^^^ s) &&& (0 - (1 &&& 1))) = s := by
    intro d s
    have hmask : (0 - (1 &&& 1) : UInt8) = -1 := by decide
    rw [hmask, UInt8.and_neg_one, ← UInt8.xor_assoc, UInt8.xor_self, UInt8.zero_xor]
  apply Subtype.ext
  apply List.ext_getElem
  · rw [(ctSelect dst src 1).2, src.2]
  · intro i _ _
    simp only [ctSelect, List.getElem_zipWith, hbyte]

/-- With bit zero it is the destination. -/
theorem ctSelect_zero {n : Nat} (dst src : Block n UInt8) : ctSelect dst src 0 = dst := by
  have hbyte : ∀ d s : UInt8, d ^^^ ((d ^^^ s) &&& (0 - (0 &&& 1))) = d := by
    intro d s
    have hmask : (0 - (0 &&& 1) : UInt8) = 0 := by decide
    rw [hmask, UInt8.and_zero, UInt8.xor_zero]
  apply Subtype.ext
  apply List.ext_getElem
  · rw [(ctSelect dst src 0).2, dst.2]
  · intro i _ _
    simp only [ctSelect, List.getElem_zipWith, hbyte]

/-! ## Decryption -/

namespace Encoded

variable [Field S] [AddCommGroup P] [Module S P] {tier : GroupTier S P UInt8 π} {ops : PointOps S}

section Hashes

variable (he : ops.Encodes tier) {uid : GroupUid UInt8} {pk : ProfileKey UInt8}
include he

/-- The point of a user id, in its encoding. -/
theorem gyGroupHashToG_uid :
    gyGroupHashToG tier ops "grp-m1" uid.1 = .ok (tier.encodePoint (tier.m1 uid)) := by
  rw [gyGroupHashToG, groupSeed_eq tier (by decide) (by rw [uid.2]; decide), Except.ok_bind,
    he.hashToGroup]
  rfl

/-- The point of a profile key under a user id, in its encoding. -/
theorem gyGroupHashToG1_pk :
    gyGroupHashToG1 tier ops "grp-m3" (pk.1 ++ uid.1) =
      .ok (tier.encodePoint (tier.m3 uid pk)) := by
  rw [gyGroupHashToG1, groupSeed_eq tier (by decide) (by rw [length_pk_uid]; decide),
    Except.ok_bind, he.hashToG1]
  rfl

/-- The encoding of the identity is the zero string, and no other encoding is. -/
theorem isZero_encodePoint (p : P) : gyIsZero (tier.encodePoint p) = true ↔ p = 0 := by
  rw [gyIsZero_iff (he.length p), ← he.zero, he.inj.eq_iff]

/-- Unmasking subtracts a multiple; the code refuses a zero scalar and a zero point. -/
theorem groupUnmask_encodePoint {k : S} {p : P} (hk : k ≠ 0) (hp : p ≠ 0) (q : P) :
    groupUnmask ops (tier.encodePoint q) (tier.encodePoint p) k =
      some (tier.encodePoint (q - k • p)) := by
  rw [groupUnmask, he.pointScalarmul k p hk hp, Option.bind_eq_bind, Option.bind_some, he.pointSub]

/-- A string that encodes no point is not unmasked. -/
theorem groupUnmask_bad {e2 : Bytes UInt8} (h : ∀ p, tier.encodePoint p ≠ e2) (e1 : Bytes UInt8)
    (k : S) : groupUnmask ops e2 e1 k = none := by
  rw [groupUnmask, Option.bind_eq_bind, Option.bind_eq_none_iff]
  intro t _
  exact he.pointSub_bad e2 t h

end Hashes

/-! ## User ids -/

section Uid

variable (he : ops.Encodes tier) (hm : ops.Inverts tier) {sp : GroupSecretParams S}
  (h1 : sp.a1 ≠ 0) (h2 : sp.a2 ≠ 0)

include hm h1 in
/-- The first half of an encryption is not the identity. -/
theorem eA1_ne (uid : GroupUid UInt8) : sp.a1 • tier.m1 uid ≠ 0 :=
  smul_ne_zero h1 (hm.hashToGroup_ne _)

include he hm h1 h2

/-- What the ciphertext of a user id is. -/
theorem gyGroupUidEncrypt_iff {uid : GroupUid UInt8} {ct : GroupUidCt (Bytes UInt8)} :
    gyGroupUidEncrypt tier ops sp uid = .ok ct ↔
      ∃ m2, ops.encodeUid uid = some (tier.encodePoint m2) ∧
        ct = ⟨tier.encodePoint (sp.a1 • tier.m1 uid),
          tier.encodePoint (sp.a2 • sp.a1 • tier.m1 uid + m2)⟩ := by
  have hm1 := hm.hashToGroup_ne (tier.domain "grp-m1" ++ uid.1)
  have hrun : ∀ m2, ops.encodeUid uid = some (tier.encodePoint m2) →
      gyGroupUidEncrypt tier ops sp uid = .ok ⟨tier.encodePoint (sp.a1 • tier.m1 uid),
        tier.encodePoint (sp.a2 • sp.a1 • tier.m1 uid + m2)⟩ := by
    intro m2 hm2
    rw [gyGroupUidEncrypt, gyGroupHashToG_uid he, Except.ok_bind, hm2, GroupTier.m1,
      he.pointScalarmul _ _ h1 hm1]
    simp only [orCrypto, Option.elim_some, Except.ok_bind]
    rw [he.pointScalarmul _ _ h2 (smul_ne_zero h1 hm1)]
    simp only [Option.elim_some, Except.ok_bind, he.pointAdd]
    rfl
  constructor
  · intro h
    cases hm2 : ops.encodeUid uid with
    | none =>
      rw [gyGroupUidEncrypt, gyGroupHashToG_uid he, Except.ok_bind, hm2] at h
      cases h
    | some e =>
      obtain ⟨m2, rfl⟩ := he.encodeUid uid e hm2
      rw [hrun m2 hm2] at h
      exact ⟨m2, rfl, (Except.ok.inj h).symm⟩
  · rintro ⟨m2, hm2, rfl⟩
    exact hrun m2 hm2

/-- What decrypts to a user id: the first point must be that of the id that comes out. -/
theorem gyGroupUidDecrypt_iff {mem : UidScratch} {ct : GroupUidCt (Bytes UInt8)}
    {uid : GroupUid UInt8} :
    gyGroupUidDecrypt tier ops sp mem ct = (.ok (), uid) ↔ ∃ q,
      ct = ⟨tier.encodePoint (sp.a1 • tier.m1 uid), tier.encodePoint q⟩ ∧
      ops.decodeUid (tier.encodePoint (q - sp.a2 • sp.a1 • tier.m1 uid)) = some uid := by
  have hprod : ∀ uid, ops.pointScalarmul sp.a1 (tier.encodePoint (tier.m1 uid)) =
      some (tier.encodePoint (sp.a1 • tier.m1 uid)) := fun uid =>
    he.pointScalarmul _ _ h1 (hm.hashToGroup_ne _)
  rw [gyGroupUidDecrypt]
  simp only [gyGroupHashToG_uid he, Except.toOption, Option.getD_some, hprod]
  constructor
  · intro h
    split_ifs at h with hacc
    swap
    · cases h
    simp only [Bool.and_eq_true, decide_eq_true_eq] at hacc
    obtain ⟨⟨⟨-, ⟨hun, -⟩, -⟩, hdec⟩, heq⟩ := hacc
    obtain ⟨uid', huid⟩ := Option.isSome_iff_exists.1 hdec
    rw [huid, Option.getD_some] at heq h
    obtain rfl : uid' = uid := (Prod.mk.inj h).2
    obtain ⟨eA1, eA2⟩ := ct
    dsimp only at heq hun huid
    subst heq
    -- the subtraction has succeeded, so the second half is a point
    have hq : ∃ q, tier.encodePoint q = eA2 := by
      by_contra hno
      rw [groupUnmask_bad he (fun p hp => hno ⟨p, hp⟩)] at hun
      cases hun
    obtain ⟨q, rfl⟩ := hq
    rw [groupUnmask_encodePoint he h2 (eA1_ne hm h1 uid'), Option.getD_some] at huid
    exact ⟨q, rfl, huid⟩
  · rintro ⟨q, rfl, hdec⟩
    have hz : gyIsZero (tier.encodePoint (sp.a1 • tier.m1 uid)) = false := by
      rw [Bool.eq_false_iff, ne_eq, isZero_encodePoint he]
      exact eA1_ne hm h1 uid
    dsimp only
    rw [groupUnmask_encodePoint he h2 (eA1_ne hm h1 uid), Option.getD_some, hdec, hz]
    simp [Except.isOk, Except.toBool]

/-- A ciphertext decrypts to the id it was made for and to no other. -/
theorem gyGroupUidDecrypt_iff_encrypt {mem : UidScratch} {ct : GroupUidCt (Bytes UInt8)}
    {uid : GroupUid UInt8} :
    gyGroupUidDecrypt tier ops sp mem ct = (.ok (), uid) ↔
      gyGroupUidEncrypt tier ops sp uid = .ok ct := by
  rw [gyGroupUidDecrypt_iff he hm h1 h2, gyGroupUidEncrypt_iff he hm h1 h2]
  constructor
  · rintro ⟨q, rfl, hdec⟩
    rw [hm.decodeUid] at hdec
    exact ⟨_, hdec, by rw [add_sub_cancel]⟩
  · rintro ⟨m2, hm2, rfl⟩
    refine ⟨_, rfl, ?_⟩
    rw [add_sub_cancel_left, hm.decodeUid]
    exact hm2

/-- What is no ciphertext of an id fails with the output zeroed. -/
theorem gyGroupUidDecrypt_other {mem : UidScratch} {ct : GroupUidCt (Bytes UInt8)}
    (h : ∀ uid, gyGroupUidEncrypt tier ops sp uid ≠ .ok ct) :
    gyGroupUidDecrypt tier ops sp mem ct = (.error .verify, zeroBlock groupUidBytes) := by
  have hout : ∀ uid, gyGroupUidDecrypt tier ops sp mem ct ≠ (.ok (), uid) :=
    fun uid hdec => h uid ((gyGroupUidDecrypt_iff_encrypt he hm h1 h2).1 hdec)
  rw [gyGroupUidDecrypt] at hout ⊢
  split_ifs with hacc
  · exact absurd (if_pos hacc) (hout _)
  · rfl

end Uid

/-! ## Profile keys -/

section Pk

/-- The first half of a ciphertext is the one this profile key has. -/
def pkHit (tier : GroupTier S P UInt8 π) (sp : GroupSecretParams S) (eB1 : Bytes UInt8)
    (uid : GroupUid UInt8) (cand : ProfileKey UInt8) : Bool :=
  decide (eB1 = tier.encodePoint (sp.b1 • tier.m3 uid cand))

variable (he : ops.Encodes tier) (hm : ops.Inverts tier) {sp : GroupSecretParams S}
  (h1 : sp.b1 ≠ 0) (h2 : sp.b2 ≠ 0)

include hm h1 in
/-- The first point of a profile key ciphertext is not the identity. -/
theorem eB1_ne (uid : GroupUid UInt8) (pk : ProfileKey UInt8) : sp.b1 • tier.m3 uid pk ≠ 0 :=
  smul_ne_zero h1 (hm.hashToG1_ne _)

include he hm h1

/-- One test of a candidate: a hit is counted and kept. -/
theorem pkTestStep_eq {eB1 : Bytes UInt8} {uid : GroupUid UInt8} {count c : Nat} (t : PkTest)
    (cand : ProfileKey UInt8) :
    pkTestStep tier ops sp eB1 uid count t (cand, c) =
      if c < count ∧ pkHit tier sp eB1 uid cand = true then
        { t with
          hits := t.hits + 1
          winner := cand }
      else t := by
  rw [pkTestStep, gyGroupHashToG1_pk he]
  dsimp only
  rw [GroupTier.m3, he.pointScalarmul _ _ h1 (hm.hashToG1_ne _)]
  dsimp only
  by_cases hhit : c < count ∧ pkHit tier sp eB1 uid cand = true
  · obtain ⟨hc, heq⟩ := hhit
    rw [if_pos ⟨hc, heq⟩]
    rw [pkHit, decide_eq_true_eq, GroupTier.m3] at heq
    rw [decide_eq_true hc, decide_eq_true heq]
    exact congrArg (PkTest.mk t.opsOk (t.hits + 1)) (ctSelect_one _ _)
  · rw [if_neg hhit]
    have hno : (decide (c < count) && pkHit tier sp eB1 uid cand) = false := by
      rw [Bool.eq_false_iff, ne_eq, Bool.and_eq_true, decide_eq_true_eq]
      exact hhit
    rw [pkHit, GroupTier.m3] at hno
    rw [hno]
    exact congrArg (PkTest.mk t.opsOk t.hits) (ctSelect_zero _ _)

/-- Over candidates the loop counts the hits and keeps the last. -/
theorem foldl_pkTestStep {eB1 : Bytes UInt8} {uid : GroupUid UInt8} {count : Nat}
    (cands : List (ProfileKey UInt8)) {k : Nat} (hk : k + cands.length ≤ count) (t : PkTest) :
    (cands.zipIdx k).foldl (pkTestStep tier ops sp eB1 uid count) t =
      ⟨t.opsOk, t.hits + (cands.filter (pkHit tier sp eB1 uid)).length,
        (cands.filter (pkHit tier sp eB1 uid)).getLast?.getD t.winner⟩ := by
  induction cands generalizing k t with
  | nil => rfl
  | cons cand cands ih =>
    rw [List.length_cons] at hk
    rw [List.zipIdx_cons, List.foldl_cons, pkTestStep_eq he hm h1]
    cases hhit : pkHit tier sp eB1 uid cand with
    | true =>
      rw [if_pos ⟨by omega, rfl⟩, ih (by omega), List.filter_cons_of_pos hhit,
        List.getLast?_cons, List.length_cons, Nat.add_assoc, Nat.add_comm 1]
      rfl
    | false =>
      rw [if_neg (by simp), ih (by omega), List.filter_cons_of_neg (by simp [hhit])]

/-- Over the slots past the candidates it changes nothing, whatever they hold. -/
theorem foldl_pkTestStep_junk {eB1 : Bytes UInt8} {uid : GroupUid UInt8} {count : Nat}
    (slots : List (ProfileKey UInt8)) {k : Nat} (hk : count ≤ k) (t : PkTest) :
    (slots.zipIdx k).foldl (pkTestStep tier ops sp eB1 uid count) t = t := by
  induction slots generalizing k with
  | nil => rfl
  | cons slot slots ih =>
    rw [List.zipIdx_cons, List.foldl_cons, pkTestStep_eq he hm h1, if_neg (by omega),
      ih (by omega)]

/-- The loop over all slots counts the hits among the candidates and keeps the last, whatever the
unused slots hold. -/
theorem foldl_pkTestStep_slots {eB1 : Bytes UInt8} {uid : GroupUid UInt8}
    (cands mem : List (ProfileKey UInt8)) (cap : Nat) (t : PkTest) :
    ((cands ++ mem).take cap).zipIdx.foldl (pkTestStep tier ops sp eB1 uid cands.length) t =
      ⟨t.opsOk, t.hits + ((cands.take cap).filter (pkHit tier sp eB1 uid)).length,
        ((cands.take cap).filter (pkHit tier sp eB1 uid)).getLast?.getD t.winner⟩ := by
  have hk : 0 + (cands.take cap).length ≤ cands.length := by
    rw [Nat.zero_add]
    exact List.length_take_le' cap cands
  rw [List.take_append, List.zipIdx_append, List.foldl_append, foldl_pkTestStep he hm h1 _ hk]
  rcases le_total cap cands.length with hcap | hcap
  · rw [Nat.sub_eq_zero_of_le hcap, List.take_zero]
    rfl
  · apply foldl_pkTestStep_junk he hm h1
    rw [List.take_of_length_le hcap, Nat.zero_add]

/-- The candidate that is a preimage of the point is the only hit. -/
theorem filter_pkHit {p : P} {uid : GroupUid UInt8} {pk : ProfileKey UInt8}
    (hpk : ops.encodePk pk = some (tier.encodePoint p)) :
    (((ops.decodePk (tier.encodePoint p)).getD []).take tier.pkMaxCandidates).filter
      (pkHit tier sp (tier.encodePoint (sp.b1 • tier.m3 uid pk)) uid) = [pk] := by
  rw [List.take_of_length_le (hm.decodePk_le p)]
  apply filter_eq_singleton (hm.decodePk_nodup p) ((hm.decodePk p pk).2 hpk)
  intro cand hcand
  have hcand' := (hm.decodePk p cand).1 hcand
  rw [pkHit, decide_eq_true_eq, he.inj.eq_iff]
  constructor
  · intro heq
    have hhash : tier.m3 uid pk = tier.m3 uid cand := smul_right_injective P h1 heq
    exact hm.hash_inj uid cand pk (hcand'.trans hpk.symm) (by rw [hcand']; rfl) hhash.symm
  · rintro rfl
    rfl

include h2

/-- What the ciphertext of a profile key is. -/
theorem gyGroupPkEncrypt_iff {uid : GroupUid UInt8} {pk : ProfileKey UInt8}
    {ct : GroupPkCt (Bytes UInt8)} :
    gyGroupPkEncrypt tier ops sp pk uid = .ok ct ↔
      ∃ m4, ops.encodePk pk = some (tier.encodePoint m4) ∧
        ct = ⟨tier.encodePoint (sp.b1 • tier.m3 uid pk),
          tier.encodePoint (sp.b2 • sp.b1 • tier.m3 uid pk + m4)⟩ := by
  have hm3 := hm.hashToG1_ne (tier.domain "grp-m3" ++ (pk.1 ++ uid.1))
  have hrun : ∀ m4, ops.encodePk pk = some (tier.encodePoint m4) →
      gyGroupPkEncrypt tier ops sp pk uid = .ok ⟨tier.encodePoint (sp.b1 • tier.m3 uid pk),
        tier.encodePoint (sp.b2 • sp.b1 • tier.m3 uid pk + m4)⟩ := by
    intro m4 hm4
    rw [gyGroupPkEncrypt, gyGroupHashToG1_pk he, Except.ok_bind, hm4, GroupTier.m3,
      he.pointScalarmul _ _ h1 hm3]
    simp only [orCrypto, Option.elim_some, Except.ok_bind]
    rw [he.pointScalarmul _ _ h2 (smul_ne_zero h1 hm3)]
    simp only [Option.elim_some, Except.ok_bind, he.pointAdd]
    rfl
  constructor
  · intro h
    cases hm4 : ops.encodePk pk with
    | none =>
      rw [gyGroupPkEncrypt, gyGroupHashToG1_pk he, Except.ok_bind, hm4] at h
      cases h
    | some e =>
      obtain ⟨m4, rfl⟩ := he.encodePk pk e hm4
      rw [hrun m4 hm4] at h
      exact ⟨m4, rfl, (Except.ok.inj h).symm⟩
  · rintro ⟨m4, hm4, rfl⟩
    exact hrun m4 hm4

/-- What decrypts to a profile key: exactly one candidate is hit. -/
theorem gyGroupPkDecrypt_iff {mem : List (ProfileKey UInt8)} {ct : GroupPkCt (Bytes UInt8)}
    {uid : GroupUid UInt8} {pk : ProfileKey UInt8} :
    gyGroupPkDecrypt tier ops sp mem ct uid = (.ok (), pk) ↔ ∃ q,
      ct = ⟨tier.encodePoint (sp.b1 • tier.m3 uid pk), tier.encodePoint q⟩ ∧
      ops.encodePk pk = some (tier.encodePoint (q - sp.b2 • sp.b1 • tier.m3 uid pk)) := by
  rw [gyGroupPkDecrypt]
  simp only [foldl_pkTestStep_slots he hm h1, Nat.zero_add]
  constructor
  · intro h
    split_ifs at h with hacc
    swap
    · cases h
    simp only [Bool.and_eq_true, beq_iff_eq] at hacc
    obtain ⟨⟨-, hun⟩, hone⟩ := hacc
    obtain ⟨pk', hpk⟩ := List.length_eq_one_iff.1 hone
    rw [hpk] at h
    obtain rfl : pk' = pk := (Prod.mk.inj h).2
    -- the winner passes the test, which makes the first half a point
    obtain ⟨hmem, hhit⟩ := List.mem_filter.1 (hpk ▸ List.mem_singleton_self pk')
    rw [pkHit, decide_eq_true_eq] at hhit
    obtain ⟨eB1, eB2⟩ := ct
    dsimp only at hhit hun hmem
    subst hhit
    have hq : ∃ q, tier.encodePoint q = eB2 := by
      by_contra hno
      rw [groupUnmask_bad he (fun p hp => hno ⟨p, hp⟩)] at hun
      cases hun
    obtain ⟨q, rfl⟩ := hq
    rw [groupUnmask_encodePoint he h2 (eB1_ne hm h1 uid pk'), Option.getD_some] at hmem
    exact ⟨q, rfl, (hm.decodePk _ pk').1 (List.mem_of_mem_take hmem)⟩
  · rintro ⟨q, rfl, hpk⟩
    have hz : gyIsZero (tier.encodePoint (sp.b1 • tier.m3 uid pk)) = false := by
      rw [Bool.eq_false_iff, ne_eq, isZero_encodePoint he]
      exact eB1_ne hm h1 uid pk
    dsimp only
    rw [groupUnmask_encodePoint he h2 (eB1_ne hm h1 uid pk), Option.getD_some, hz,
      filter_pkHit he hm h1 hpk]
    rfl

/-- A ciphertext decrypts to the key it was made for and to no other. -/
theorem gyGroupPkDecrypt_iff_encrypt {mem : List (ProfileKey UInt8)}
    {ct : GroupPkCt (Bytes UInt8)} {uid : GroupUid UInt8} {pk : ProfileKey UInt8} :
    gyGroupPkDecrypt tier ops sp mem ct uid = (.ok (), pk) ↔
      gyGroupPkEncrypt tier ops sp pk uid = .ok ct := by
  rw [gyGroupPkDecrypt_iff he hm h1 h2, gyGroupPkEncrypt_iff he hm h1 h2]
  constructor
  · rintro ⟨q, rfl, hdec⟩
    exact ⟨_, hdec, by rw [add_sub_cancel]⟩
  · rintro ⟨m4, hm4, rfl⟩
    refine ⟨_, rfl, ?_⟩
    rw [add_sub_cancel_left]
    exact hm4

/-- What is no ciphertext of a key fails with the output zeroed. -/
theorem gyGroupPkDecrypt_other {mem : List (ProfileKey UInt8)} {ct : GroupPkCt (Bytes UInt8)}
    {uid : GroupUid UInt8} (h : ∀ pk, gyGroupPkEncrypt tier ops sp pk uid ≠ .ok ct) :
    gyGroupPkDecrypt tier ops sp mem ct uid = (.error .verify, zeroBlock groupProfilekeyBytes) := by
  have hout : ∀ pk, gyGroupPkDecrypt tier ops sp mem ct uid ≠ (.ok (), pk) :=
    fun pk hdec => h pk ((gyGroupPkDecrypt_iff_encrypt he hm h1 h2).1 hdec)
  rw [gyGroupPkDecrypt] at hout ⊢
  split_ifs with hacc
  · exact absurd (if_pos hacc) (hout _)
  · rfl

end Pk

/-! ## Over the group -/

section Points

variable [DecidableEq P] {sp : GroupSecretParams S}

/-- The same decryption over points. -/
theorem uidDecrypt_points_iff {ct : GroupUidCt P} {uid : GroupUid UInt8} :
    Geryon.gyGroupUidDecrypt tier sp ct = .ok uid ↔
      tier.decodeUid (ct.eA2 - sp.a2 • ct.eA1) = some uid ∧ ct.eA1 ≠ 0 ∧
        ct.eA1 = sp.a1 • tier.m1 uid := by
  rw [Geryon.gyGroupUidDecrypt]
  cases tier.decodeUid (ct.eA2 - sp.a2 • ct.eA1) with
  | none => simp
  | some uid' =>
    simp only [Geryon.gyGroupHashToG_uid, Option.some.injEq]
    constructor
    · intro h
      split_ifs at h with hct
      obtain rfl := Except.ok.inj h
      exact ⟨rfl, hct⟩
    · rintro ⟨rfl, hct⟩
      exact if_pos hct

/-- The decryption of a profile key over points. -/
theorem pkDecrypt_points_iff {ct : GroupPkCt P} {uid : GroupUid UInt8} {pk : ProfileKey UInt8} :
    Geryon.gyGroupPkDecrypt tier sp ct uid = .ok pk ↔
      (tier.decodePk (ct.eB2 - sp.b2 • ct.eB1)).filter (pkCandidateHit tier sp ct.eB1 uid) = [pk] ∧
        ct.eB1 ≠ 0 := by
  rw [Geryon.gyGroupPkDecrypt]
  constructor
  · intro h
    split at h
    · rename_i pk' hone
      split_ifs at h with hct
      obtain rfl := Except.ok.inj h
      exact ⟨hone, hct⟩
    · cases h
  · rintro ⟨hone, hct⟩
    rw [hone]
    exact if_pos hct

variable (he : ops.Encodes tier) (hm : ops.Inverts tier)
include he hm

/-- On encodings the code decrypts as over the group. -/
theorem gyGroupUidDecrypt_eq (h1 : sp.a1 ≠ 0) (h2 : sp.a2 ≠ 0)
    (hdec : ∀ p, ops.decodeUid (tier.encodePoint p) = tier.decodeUid p) (mem : UidScratch)
    (ct : GroupUidCt P) :
    gyGroupUidDecrypt tier ops sp mem ⟨tier.encodePoint ct.eA1, tier.encodePoint ct.eA2⟩ =
      match Geryon.gyGroupUidDecrypt tier sp ct with
      | .ok uid => (.ok (), uid)
      | .error _ => (.error .verify, zeroBlock groupUidBytes) := by
  cases hrun : Geryon.gyGroupUidDecrypt tier sp ct with
  | ok uid =>
    obtain ⟨hd, -, heq⟩ := uidDecrypt_points_iff.1 hrun
    rw [heq, ← hdec] at hd
    exact (gyGroupUidDecrypt_iff he hm h1 h2).2 ⟨ct.eA2, by rw [heq], hd⟩
  | error e =>
    apply gyGroupUidDecrypt_other he hm h1 h2
    intro uid henc
    have hok : gyGroupUidDecrypt tier ops sp mem _ = (.ok (), uid) :=
      (gyGroupUidDecrypt_iff_encrypt he hm h1 h2).2 henc
    obtain ⟨q, hct, hd⟩ := (gyGroupUidDecrypt_iff he hm h1 h2).1 hok
    obtain ⟨heq, hq⟩ := GroupUidCt.mk.inj hct
    rw [he.inj.eq_iff] at heq hq
    rw [hdec, ← hq, ← heq] at hd
    rw [uidDecrypt_points_iff.2 ⟨hd, heq ▸ eA1_ne hm h1 uid, heq⟩] at hrun
    cases hrun

omit hm in
/-- The test of a candidate, over points. -/
theorem pkHit_encodePoint (eB1 : P) (uid : GroupUid UInt8) (cand : ProfileKey UInt8) :
    pkHit tier sp (tier.encodePoint eB1) uid cand = pkCandidateHit tier sp eB1 uid cand := by
  rw [pkHit, pkCandidateHit, Geryon.gyGroupHashToG1_pk]
  simp only [he.inj.eq_iff]

/-- The decryption over encodings is the one over points. -/
theorem gyGroupPkDecrypt_eq (h1 : sp.b1 ≠ 0) (h2 : sp.b2 ≠ 0)
    (hdec : ∀ p, (ops.decodePk (tier.encodePoint p)).getD [] = tier.decodePk p)
    (mem : List (ProfileKey UInt8)) (ct : GroupPkCt P) (uid : GroupUid UInt8) :
    gyGroupPkDecrypt tier ops sp mem ⟨tier.encodePoint ct.eB1, tier.encodePoint ct.eB2⟩ uid =
      match Geryon.gyGroupPkDecrypt tier sp ct uid with
      | .ok pk => (.ok (), pk)
      | .error _ => (.error .verify, zeroBlock groupProfilekeyBytes) := by
  cases hrun : Geryon.gyGroupPkDecrypt tier sp ct uid with
  | ok pk =>
    obtain ⟨hone, -⟩ := pkDecrypt_points_iff.1 hrun
    obtain ⟨hmem, hhit⟩ := List.mem_filter.1 (hone ▸ List.mem_singleton_self pk)
    rw [pkCandidateHit, Geryon.gyGroupHashToG1_pk, decide_eq_true_eq] at hhit
    rw [← hdec, hm.decodePk, hhit] at hmem
    exact (gyGroupPkDecrypt_iff he hm h1 h2).2 ⟨ct.eB2, by rw [hhit], hmem⟩
  | error e =>
    apply gyGroupPkDecrypt_other he hm h1 h2
    intro pk henc
    have hok : gyGroupPkDecrypt tier ops sp mem _ uid = (.ok (), pk) :=
      (gyGroupPkDecrypt_iff_encrypt he hm h1 h2).2 henc
    obtain ⟨q, hct, hpk⟩ := (gyGroupPkDecrypt_iff he hm h1 h2).1 hok
    obtain ⟨heq, hq⟩ := GroupPkCt.mk.inj hct
    rw [he.inj.eq_iff] at heq hq
    rw [← hq, ← heq] at hpk
    have hone : (((ops.decodePk (tier.encodePoint (ct.eB2 - sp.b2 • ct.eB1))).getD []).take
          tier.pkMaxCandidates).filter
        (pkHit tier sp (tier.encodePoint (sp.b1 • tier.m3 uid pk)) uid) = [pk] :=
      filter_pkHit he hm h1 hpk
    rw [hdec, List.take_of_length_le (tier.decodePk_le _), ← heq,
      funext (pkHit_encodePoint he ct.eB1 uid)] at hone
    rw [pkDecrypt_points_iff.2 ⟨hone, heq ▸ eB1_ne hm h1 uid pk⟩] at hrun
    cases hrun

end Points

end Encoded

section Claim

variable [Field S] [AddCommGroup P] [Module S P] {tier : GroupTier S P UInt8 π} {ops : PointOps S}

/-- Decryption accepts the encryptions and nothing else, whatever the stack holds. A ciphertext
that is no encryption gives one error and a zeroed output. -/
theorem groupDecrypt_iff (he : ops.Encodes tier) (hm : ops.Inverts tier) {sp : GroupSecretParams S}
    (ha1 : sp.a1 ≠ 0) (ha2 : sp.a2 ≠ 0) (hb1 : sp.b1 ≠ 0) (hb2 : sp.b2 ≠ 0) :
    (∀ (mem : Encoded.UidScratch) (ct : GroupUidCt (Bytes UInt8)),
      (∀ uid, Encoded.gyGroupUidDecrypt tier ops sp mem ct = (.ok (), uid) ↔
        Encoded.gyGroupUidEncrypt tier ops sp uid = .ok ct) ∧
      ((∀ uid, Encoded.gyGroupUidEncrypt tier ops sp uid ≠ .ok ct) →
        Encoded.gyGroupUidDecrypt tier ops sp mem ct = (.error .verify, zeroBlock groupUidBytes))) ∧
    ∀ (mem : List (ProfileKey UInt8)) (ct : GroupPkCt (Bytes UInt8)) (uid : GroupUid UInt8),
      (∀ pk, Encoded.gyGroupPkDecrypt tier ops sp mem ct uid = (.ok (), pk) ↔
        Encoded.gyGroupPkEncrypt tier ops sp pk uid = .ok ct) ∧
      ((∀ pk, Encoded.gyGroupPkEncrypt tier ops sp pk uid ≠ .ok ct) →
        Encoded.gyGroupPkDecrypt tier ops sp mem ct uid =
          (.error .verify, zeroBlock groupProfilekeyBytes)) := by
  constructor
  · intro mem ct
    exact ⟨fun uid => Encoded.gyGroupUidDecrypt_iff_encrypt he hm ha1 ha2,
      Encoded.gyGroupUidDecrypt_other he hm ha1 ha2⟩
  · intro mem ct uid
    exact ⟨fun pk => Encoded.gyGroupPkDecrypt_iff_encrypt he hm hb1 hb2,
      Encoded.gyGroupPkDecrypt_other he hm hb1 hb2⟩

end Claim

namespace ByteGroup

open GroupSample (Zq zq)

/-- The octet of a point. -/
def octet (p : Zq) : UInt8 := UInt8.ofNat p.val

/-- The point of an octet. -/
def ofOctet (b : UInt8) : Option Zq := if b.toNat < 101 then some (b.toNat : Zq) else none

/-- The encoding of a point: its octet and zeros. -/
def enc (p : Zq) : Bytes UInt8 := octet p :: zeros 31

/-- The point of an encoding. -/
def dec (e : Bytes UInt8) : Option Zq := do
  let p ← ofOctet (e.headD 0)
  if enc p = e then some p else none

/-- Small elements are read back from an octet. -/
theorem ofOctet_octet (p : Zq) : ofOctet (octet p) = some p := by
  revert p
  decide

/-- An element is read back from its encoding. -/
theorem dec_enc (p : Zq) : dec (enc p) = some p := by
  rw [dec, enc, List.headD_cons, ofOctet_octet, Option.bind_eq_bind, Option.bind_some]
  exact if_pos rfl

/-- A string that is read is the encoding of what it is read as. -/
theorem enc_of_dec {e : Bytes UInt8} {p : Zq} (h : dec e = some p) : enc p = e := by
  obtain ⟨q, -, h⟩ := Option.bind_eq_some_iff.1 h
  split_ifs at h with hq
  obtain rfl := Option.some.inj h
  exact hq

/-- The user id of a point. -/
def uidOf (p : Zq) : GroupUid UInt8 := ⟨octet p :: zeros 15, rfl⟩

/-- The two profile keys of a point. -/
def pkOf (p : Zq) (b : Bool) : ProfileKey UInt8 := ⟨octet p :: b.toUInt8 :: zeros 30, rfl⟩

/-- A hash that depends on the second octet of the profile key. -/
def hashPk (seed : Bytes UInt8) : Zq := if seed.getD (seed.length - 47) 0 = 0 then 1 else 1 + 1

/-- The lower classical suite, with a hash and a key derivation that give zeros. -/
def suite : SuiteDesc UInt8 :=
  { wireSuite with
    hash _ := .ok (zeros 64)
    hkdfExtract _ _ := .ok (zeros 64)
    hkdfExpand n _ _ := .ok (zeros n)
    length_hash h := Except.ok.inj h ▸ length_zeros 64 }

/-- The tier. -/
def tier : GroupTier Zq Zq UInt8 (IdealProof Zq UInt8) where
  desc := suite
  pointLen := 32
  scalarLen := 32
  masterKeyLen := 32
  pkMaxCandidates := 2
  hashToGroup _ := 1
  hashToScalar _ _ := 1
  hashToG1 := hashPk
  encodeUid _ := 0
  encodePk _ := 0
  decodeUid p := some (uidOf p)
  decodePk p := [pkOf p false, pkOf p true]
  base := 1
  encodePoint := enc
  nizk := idealNizk Zq Zq UInt8
  name_le := by decide
  decodePk_le _ := le_refl 2

/-- The operations on encodings. Only the ids and keys of points encode, and multiplication fails
where it would give the identity. -/
def ops : PointOps Zq where
  hashToGroup _ := some (enc 1)
  hashToG1 seed := some (enc (hashPk seed))
  encodeUid uid := do
    let p ← ofOctet (uid.1.headD 0)
    if uidOf p = uid then some (enc p) else none
  encodePk pk := do
    let p ← ofOctet (pk.1.headD 0)
    if pkOf p false = pk ∨ pkOf p true = pk then some (enc p) else none
  decodeUid e := (dec e).map uidOf
  decodePk e := (dec e).map fun p => [pkOf p false, pkOf p true]
  pointAdd e f := do return enc ((← dec e) + (← dec f))
  pointSub e f := do return enc ((← dec e) - (← dec f))
  pointScalarmul k e := do
    let p ← dec e
    if k • p = 0 then none else some (enc (k • p))

/-- The sample operations are those of the sample group. -/
theorem ops_encodes : ops.Encodes tier where
  inj p q h := by
    have hdec := congrArg dec h
    rwa [tier, dec_enc, dec_enc, Option.some.injEq] at hdec
  length _ := rfl
  zero := by decide
  hashToGroup _ := rfl
  hashToG1 _ := rfl
  encodeUid uid e h := by
    obtain ⟨p, -, h⟩ := Option.bind_eq_some_iff.1 h
    split_ifs at h
    exact ⟨p, Option.some.inj h⟩
  encodePk pk e h := by
    obtain ⟨p, -, h⟩ := Option.bind_eq_some_iff.1 h
    split_ifs at h
    exact ⟨p, Option.some.inj h⟩
  pointAdd p q := by simp [ops, tier, dec_enc]
  pointSub p q := by simp [ops, tier, dec_enc]
  pointSub_bad e f h := by
    cases he : dec e with
    | none => simp [ops, he]
    | some p => exact absurd (enc_of_dec he) (h p)
  pointScalarmul k p hk hp := by
    have h := smul_ne_zero hk hp
    simp only [ops, tier, dec_enc, Option.bind_eq_bind, Option.bind_some]
    exact if_neg h

/-- The ids that are embedded in a point. -/
theorem encodeUid_iff {uid : GroupUid UInt8} {p : Zq} :
    ops.encodeUid uid = some (enc p) ↔ uidOf p = uid := by
  simp only [ops, Option.bind_eq_bind, Option.bind_eq_some_iff]
  constructor
  · rintro ⟨p', -, h⟩
    split_ifs at h with huid
    obtain rfl := ops_encodes.inj (Option.some.inj h)
    exact huid
  · rintro rfl
    exact ⟨p, ofOctet_octet p, if_pos rfl⟩

/-- The two profile keys that share a point. -/
theorem encodePk_iff {pk : ProfileKey UInt8} {p : Zq} :
    ops.encodePk pk = some (enc p) ↔ pkOf p false = pk ∨ pkOf p true = pk := by
  simp only [ops, Option.bind_eq_bind, Option.bind_eq_some_iff]
  constructor
  · rintro ⟨p', -, h⟩
    split_ifs at h with hpk
    obtain rfl := ops_encodes.inj (Option.some.inj h)
    exact hpk
  · rintro (rfl | rfl)
    · exact ⟨p, ofOctet_octet p, if_pos (.inl rfl)⟩
    · exact ⟨p, ofOctet_octet p, if_pos (.inr rfl)⟩

theorem pkOf_ne (p : Zq) : pkOf p false ≠ pkOf p true := by
  intro h
  have hoctet : (0 : UInt8) = 1 := congrArg (fun pk : ProfileKey UInt8 => pk.1.getD 1 0) h
  exact absurd hoctet (by decide)

/-- The hash tells the two keys of a point apart. -/
theorem m3_pkOf (uid : GroupUid UInt8) (p : Zq) (b : Bool) :
    tier.m3 uid (pkOf p b) = if b then 2 else 1 := by
  have hlen : (tier.domain "grp-m3" ++ ((pkOf p b).1 ++ uid.1)).length - 47 =
      (tier.domain "grp-m3").length + 1 := by
    rw [List.length_append, length_pk_uid]
    omega
  have hoctet : (tier.domain "grp-m3" ++ ((pkOf p b).1 ++ uid.1)).getD
      ((tier.domain "grp-m3").length + 1) 0 = b.toUInt8 := by
    rw [List.getD_eq_getElem?_getD, List.getElem?_append_right (Nat.le_add_right _ 1),
      Nat.add_sub_cancel_left]
    rfl
  change hashPk _ = _
  rw [hashPk, hlen, hoctet]
  cases b <;> rfl

theorem ops_inverts : ops.Inverts tier where
  hashToGroup_ne _ := show (1 : Zq) ≠ 0 by decide
  hashToG1_ne seed := by
    change hashPk seed ≠ 0
    rw [hashPk]
    split_ifs <;> decide
  decodeUid p uid := by
    change (dec (enc p)).map uidOf = some uid ↔ ops.encodeUid uid = some (enc p)
    rw [dec_enc, Option.map_some, Option.some.injEq, encodeUid_iff]
  decodePk p pk := by
    change pk ∈ ((dec (enc p)).map fun p => [pkOf p false, pkOf p true]).getD [] ↔
      ops.encodePk pk = some (enc p)
    rw [dec_enc, encodePk_iff]
    simp [eq_comm]
  decodePk_nodup p := by
    change (((dec (enc p)).map fun p => [pkOf p false, pkOf p true]).getD []).Nodup
    rw [dec_enc]
    simp [pkOf_ne]
  decodePk_le p := by
    change (((dec (enc p)).map fun p => [pkOf p false, pkOf p true]).getD []).length ≤ 2
    rw [dec_enc]
    rfl
  hash_inj uid pk pk' heq hsome hm3 := by
    obtain ⟨e, he⟩ := Option.isSome_iff_exists.1 hsome
    obtain ⟨p, rfl⟩ := ops_encodes.encodePk pk e he
    have hpk := encodePk_iff.1 he
    have hpk' := encodePk_iff.1 (heq ▸ he)
    rcases hpk with rfl | rfl <;> rcases hpk' with rfl | rfl <;>
      first
      | rfl
      | rw [m3_pkOf, m3_pkOf] at hm3
        exact absurd hm3 (by decide)

/-- The secrets of a group. -/
def params : GroupSecretParams Zq := ⟨zq 3, zq 5, zq 7, zq 9⟩

/-- A user id and the second profile key of a point come back, also where the stack holds that key
already. A second half that is no point does not decrypt. -/
theorem groupDecrypt_points :
    Encoded.gyGroupUidDecrypt tier ops params ⟨uidOf 0, [], []⟩ ⟨enc 3, enc 19⟩ =
      (.ok (), uidOf 4) ∧
    Encoded.gyGroupUidDecrypt tier ops params ⟨uidOf 4, enc 1, enc 3⟩ ⟨enc 3, []⟩ =
      (.error .verify, zeroBlock groupUidBytes) ∧
    Encoded.gyGroupPkDecrypt tier ops params [pkOf 4 true, pkOf 4 true, pkOf 4 true]
      ⟨enc 14, enc 29⟩ (uidOf 4) = (.ok (), pkOf 4 true) := by
  obtain ⟨huid, hpk⟩ := @groupDecrypt_iff _ _ _ _ _ _ tier ops ops_encodes ops_inverts params
    (by decide) (by decide) (by decide) (by decide)
  refine ⟨((huid _ _).1 _).2 rfl, (huid _ _).2 ?_, ((hpk _ _ _).1 _).2 rfl⟩
  intro uid henc
  obtain ⟨m2, -, hct⟩ := (Encoded.gyGroupUidEncrypt_iff ops_encodes ops_inverts (by decide)
    (by decide)).1 henc
  exact absurd (GroupUidCt.mk.inj hct).2 (by simp [tier, enc])

end ByteGroup

end Geryon
