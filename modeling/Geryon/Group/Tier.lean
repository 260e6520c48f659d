import Geryon.Lib.Cmd
import Geryon.Lib.Conj
import Geryon.Suite
import Mathlib.Algebra.Field.Basic
import Mathlib.Algebra.Module.Basic

/-!
# The proof group of a classical suite

The tier of `group_tier.h`, the hash and encoding maps of `group_hash.c`, the system parameters of
`group_params.c` and the attributes of `group_attr.c`.

Points are the elements of a group `P` on which the scalars `S` act, so that `point_add`,
`point_sub` and `point_scalarmul` are its operations and the all-zero encoding is its zero; the
provider's maps into the group are total.
-/

namespace Geryon

/-- Byte strings of a fixed width. -/
abbrev Block (n : Nat) (β : Type) := { b : Bytes β // b.length = n }

/-- `GY_GROUP_UID_BYTES`. -/
abbrev groupUidBytes : Nat := 16

/-- `GY_GROUP_PROFILEKEY_BYTES`. -/
abbrev groupProfilekeyBytes : Nat := 32

/-- `GY_GROUP_DOMAIN_MAX`. -/
def groupDomainMax : Nat := 64

/-- `GY_GROUP_HASH_INPUT_MAX`. -/
def groupHashInputMax : Nat := 48

/-- `GY_GROUP_DAY_SECS`. -/
def groupDaySecs : Nat := 86400

/-- A user id of the group system. -/
abbrev GroupUid (β : Type) := Block groupUidBytes β

/-- A profile key. -/
abbrev ProfileKey (β : Type) := Block groupProfilekeyBytes β

/-- One classical proof-group tier (`struct gy_group_tier`): the suite it belongs to, the widths of
its objects and the provider's operations. -/
structure GroupTier (S P β π : Type) where
  /-- `gy_suite_desc(tier->suite_id)`. -/
  desc : SuiteDesc β
  pointLen : Nat
  scalarLen : Nat
  masterKeyLen : Nat
  pkMaxCandidates : Nat
  /-- `hash_to_group(seed)`, with index 0. -/
  hashToGroup : Bytes β → P
  /-- `hash_to_scalar(input, dst)`. -/
  hashToScalar : Bytes β → Bytes β → S
  hashToG1 : Bytes β → P
  encodeUid : GroupUid β → P
  encodePk : ProfileKey β → P
  decodeUid : P → Option (GroupUid β)
  /-- The candidates of `decode_pk`; none if it fails. -/
  decodePk : P → List (ProfileKey β)
  /-- The standard base point. -/
  base : P
  /-- The canonical encoding of a point. -/
  encodePoint : P → Bytes β
  /-- `gen_prove_conj` and `gen_verify_conj`. -/
  nizk : ConjNizk S P β π
  /-- Info strings fit their buffer. -/
  name_le : desc.name.length ≤ 20
  /-- `decode_pk` fills at most the candidate buffer. -/
  decodePk_le : ∀ p, (decodePk p).length ≤ pkMaxCandidates

variable {S P β π : Type} [Octet β]

/-! ## Hashing -/

/-- `gy_group_domain`. -/
def gyGroupDomain (tier : GroupTier S P β π) (purpose : String) : Except GyErr (Bytes β) :=
  gyInfo tier.desc groupDomainMax purpose

/-- `group_seed`. -/
def groupSeed (tier : GroupTier S P β π) (purpose : String) (input : Bytes β) :
    Except GyErr (Bytes β) :=
  if groupHashInputMax < input.length then .error .toolong
  else do
    let d ← gyGroupDomain tier purpose
    return d ++ input

/-- `gy_group_hash_to_g`. -/
def gyGroupHashToG (tier : GroupTier S P β π) (purpose : String) (input : Bytes β) :
    Except GyErr P := do
  let seed ← groupSeed tier purpose input
  return tier.hashToGroup seed

/-- `gy_group_hash_to_g1`. -/
def gyGroupHashToG1 (tier : GroupTier S P β π) (purpose : String) (input : Bytes β) :
    Except GyErr P := do
  let seed ← groupSeed tier purpose input
  return tier.hashToG1 seed

/-- `gy_group_hash_to_zq`. -/
def gyGroupHashToZq (tier : GroupTier S P β π) (purpose : String) (input : Bytes β) :
    Except GyErr S := do
  let d ← gyGroupDomain tier purpose
  return tier.hashToScalar input d

/-- The domain string of a purpose. -/
def GroupTier.domain (tier : GroupTier S P β π) (purpose : String) : Bytes β :=
  ascii "geryon" ++ ascii "." ++ ascii "1" ++ ascii "." ++ ascii tier.desc.name ++ ascii "." ++
    ascii purpose

section Domain

variable (tier : GroupTier S P β π) {purpose : String}

/-- The domain string of a purpose. -/
theorem gyGroupDomain_eq (hp : purpose.length ≤ 16) :
    gyGroupDomain tier purpose = .ok (tier.domain purpose) := by
  have := tier.name_le
  exact if_neg (by simp only [groupDomainMax]; omega)

/-- The seed of a hash: the domain and the input. -/
theorem groupSeed_eq (hp : purpose.length ≤ 16) {input : Bytes β}
    (hin : input.length ≤ groupHashInputMax) :
    groupSeed tier purpose input = .ok (tier.domain purpose ++ input) := by
  rw [groupSeed, if_neg (not_lt.2 hin), gyGroupDomain_eq tier hp]
  rfl

/-- Hashing to the group. -/
theorem gyGroupHashToG_eq (hp : purpose.length ≤ 16) {input : Bytes β}
    (hin : input.length ≤ groupHashInputMax) :
    gyGroupHashToG tier purpose input = .ok (tier.hashToGroup (tier.domain purpose ++ input)) := by
  rw [gyGroupHashToG, groupSeed_eq tier hp hin]
  rfl

/-- Hashing to the group without the identity. -/
theorem gyGroupHashToG1_eq (hp : purpose.length ≤ 16) {input : Bytes β}
    (hin : input.length ≤ groupHashInputMax) :
    gyGroupHashToG1 tier purpose input = .ok (tier.hashToG1 (tier.domain purpose ++ input)) := by
  rw [gyGroupHashToG1, groupSeed_eq tier hp hin]
  rfl

/-- Hashing to a scalar. -/
theorem gyGroupHashToZq_eq (hp : purpose.length ≤ 16) (input : Bytes β) :
    gyGroupHashToZq tier purpose input = .ok (tier.hashToScalar input (tier.domain purpose)) := by
  rw [gyGroupHashToZq, gyGroupDomain_eq tier hp]
  rfl

end Domain

/-! ## System parameters -/

/-- The twenty generators, in the order of `GY_GEN_*`. -/
inductive GroupGen where
  | w | wprime | x0 | x1 | y1 | y2 | y3 | y4 | m1 | m2 | m3 | m4 | v | a1 | a2 | b1 | b2 | j1 | j2
  | j3
  deriving DecidableEq

/-- `gy_group_gen_purpose`, in the order of the generators. -/
def groupGenPurpose : List String :=
  ["sysparams.w", "sysparams.wprime", "sysparams.x0", "sysparams.x1", "sysparams.y1",
    "sysparams.y2", "sysparams.y3", "sysparams.y4", "sysparams.m1", "sysparams.m2", "sysparams.m3",
    "sysparams.m4", "sysparams.V", "sysparams.a1", "sysparams.a2", "sysparams.b1", "sysparams.b2",
    "sysparams.j1", "sysparams.j2", "sysparams.j3"]

/-- `struct gy_group_generators`. -/
abbrev GroupGenerators (P : Type) := GroupGen → P

/-- `gy_group_generators_derive`. -/
def gyGroupGeneratorsDerive [Zero P] (tier : GroupTier S P β π) :
    Except GyErr (GroupGenerators P) := do
  let g ← groupGenPurpose.mapM' fun purpose => gyGroupHashToG tier purpose []
  return fun i => g.getD i.ctorIdx 0

/-- The generators of a tier. -/
def GroupTier.gens [Zero P] (tier : GroupTier S P β π) : GroupGenerators P := fun i =>
  (groupGenPurpose.map fun purpose => tier.hashToGroup (tier.domain purpose ++ [])).getD i.ctorIdx 0

/-- The generators are derived: none of them is refused. -/
theorem gyGroupGeneratorsDerive_eq [Zero P] (tier : GroupTier S P β π) :
    gyGroupGeneratorsDerive tier = .ok tier.gens := by
  have hlen : ∀ purpose ∈ groupGenPurpose, purpose.length ≤ 16 := by decide
  have hall : groupGenPurpose.mapM' (fun purpose => gyGroupHashToG tier purpose []) =
      .ok (groupGenPurpose.map fun purpose => tier.hashToGroup (tier.domain purpose ++ [])) := by
    rw [Except.mapM'_eq_ok_iff, List.forall₂_map_right_iff, List.forall₂_same]
    exact fun purpose hp => gyGroupHashToG_eq tier (hlen purpose hp) (Nat.zero_le _)
  rw [gyGroupGeneratorsDerive, hall]
  rfl

/-- `struct gy_group_secret_params`. -/
structure GroupSecretParams (S : Type) where
  a1 : S
  a2 : S
  b1 : S
  b2 : S
  deriving DecidableEq

/-- `struct gy_group_public_params`. -/
structure GroupPublicParams (P : Type) where
  a : P
  b : P
  deriving DecidableEq

/-- `GY_GROUP_DERIVE_SEG`. -/
def groupDeriveSeg : Nat := 64

/-- `group_derive_scheme`: two scalars from one expansion. -/
def groupDeriveScheme (tier : GroupTier S P β π) (prk : Bytes β) (purpose : String) :
    Except GyErr (S × S) := do
  let info ← gyGroupDomain tier purpose
  let okm ← tier.desc.hkdfExpand (2 * groupDeriveSeg) prk info
  return (tier.hashToScalar (okm.take groupDeriveSeg) info,
    tier.hashToScalar (okm.drop groupDeriveSeg) info)

/-- `gy_group_secret_derive`. -/
def gyGroupSecretDerive (tier : GroupTier S P β π) (gmk : Bytes β) :
    Except GyErr (GroupSecretParams S) :=
  if gmk.length ≠ tier.masterKeyLen then .error .arg
  else do
    let salt ← gyGroupDomain tier "grp-derive"
    let prk ← tier.desc.hkdfExtract salt gmk
    let (a1, a2) ← groupDeriveScheme tier prk "grp-derive-uid"
    let (b1, b2) ← groupDeriveScheme tier prk "grp-derive-pk"
    return ⟨a1, a2, b1, b2⟩

section Algebra

variable [Field S] [AddCommGroup P] [Module S P]

/-- `gy_group_public_derive`. -/
def gyGroupPublicDerive (gens : GroupGenerators P) (sp : GroupSecretParams S) :
    GroupPublicParams P :=
  ⟨sp.a1 • gens .a1 + sp.a2 • gens .a2, sp.b1 • gens .b1 + sp.b2 • gens .b2⟩

/-! ## Attributes -/

/-- `gy_group_redemption_scalar`: a day-aligned date as a scalar. -/
def gyGroupRedemptionScalar (date : UInt64) : Except GyErr S :=
  if date.toNat % groupDaySecs ≠ 0 then .error .arg else .ok (date.toNat : S)

omit [AddCommGroup P] [Module S P] in
/-- A redemption date is a multiple of a day. -/
theorem gyGroupRedemptionScalar_eq {date : UInt64} (hday : date.toNat % groupDaySecs = 0) :
    gyGroupRedemptionScalar date = .ok (date.toNat : S) := if_neg (not_not.2 hday)

/-- `gy_group_auth_m3`. -/
def gyGroupAuthM3 (gens : GroupGenerators P) (date : UInt64) : Except GyErr P := do
  let m3 : S ← gyGroupRedemptionScalar date
  return m3 • gens .m3

/-- `gy_group_attrs_uid`: `M1 = HashToG(uid)` and `M2 = EncodeToG(uid)`. -/
def gyGroupAttrsUid (tier : GroupTier S P β π) (uid : GroupUid β) : Except GyErr (P × P) := do
  let m1 ← gyGroupHashToG tier "grp-m1" uid.1
  return (m1, tier.encodeUid uid)

/-- `gy_group_attr_auth`. -/
def gyGroupAttrAuth (tier : GroupTier S P β π) (gens : GroupGenerators P) (uid : GroupUid β)
    (date : UInt64) : Except GyErr (List P) := do
  let (m1, m2) ← gyGroupAttrsUid tier uid
  let m3 ← gyGroupAuthM3 (S := S) gens date
  return [m1, m2, m3]

/-- `gy_group_attr_profile`. -/
def gyGroupAttrProfile (tier : GroupTier S P β π) (uid : GroupUid β) (pk : ProfileKey β) :
    Except GyErr (List P) := do
  let (m1, m2) ← gyGroupAttrsUid tier uid
  let m3 ← gyGroupHashToG1 tier "grp-m3" (pk.1 ++ uid.1)
  return [m1, m2, m3, tier.encodePk pk]

end Algebra

/-- The hash of a user id. -/
def GroupTier.m1 (tier : GroupTier S P β π) (uid : GroupUid β) : P :=
  tier.hashToGroup (tier.domain "grp-m1" ++ uid.1)

/-- The hash of a profile key and its owner. -/
def GroupTier.m3 (tier : GroupTier S P β π) (uid : GroupUid β) (pk : ProfileKey β) : P :=
  tier.hashToG1 (tier.domain "grp-m3" ++ (pk.1 ++ uid.1))

/-- The opening of the commitment to a profile key. -/
def GroupTier.j3 (tier : GroupTier S P β π) (uid : GroupUid β) (pk : ProfileKey β) : S :=
  tier.hashToScalar (pk.1 ++ uid.1) (tier.domain "grp-j3")

section Attributes

variable (tier : GroupTier S P β π) (uid : GroupUid β) (pk : ProfileKey β)

omit [Octet β] in
/-- A profile key and a user id together fit the input of the hash. -/
theorem length_pk_uid : (pk.1 ++ uid.1).length = 48 := by
  rw [List.length_append, pk.2, uid.2]
  rfl

/-- The point of a user id. -/
theorem gyGroupHashToG_uid : gyGroupHashToG tier "grp-m1" uid.1 = .ok (tier.m1 uid) :=
  gyGroupHashToG_eq tier (by decide) (by rw [uid.2]; decide)

/-- The point of a profile key under a user id. -/
theorem gyGroupHashToG1_pk :
    gyGroupHashToG1 tier "grp-m3" (pk.1 ++ uid.1) = .ok (tier.m3 uid pk) :=
  gyGroupHashToG1_eq tier (by decide) (by rw [length_pk_uid]; decide)

/-- The scalar of a profile key under a user id. -/
theorem gyGroupHashToZq_pk :
    gyGroupHashToZq tier "grp-j3" (pk.1 ++ uid.1) = .ok (tier.j3 uid pk) :=
  gyGroupHashToZq_eq tier (by decide) _

/-- The attributes of a user. -/
theorem gyGroupAttrsUid_eq : gyGroupAttrsUid tier uid = .ok (tier.m1 uid, tier.encodeUid uid) := by
  rw [gyGroupAttrsUid, gyGroupHashToG_uid]
  rfl

/-- The attributes of a profile key credential. -/
theorem gyGroupAttrProfile_eq :
    gyGroupAttrProfile tier uid pk =
      .ok [tier.m1 uid, tier.encodeUid uid, tier.m3 uid pk, tier.encodePk pk] := by
  rw [gyGroupAttrProfile, gyGroupAttrsUid_eq, Except.ok_bind, gyGroupHashToG1_pk]
  rfl

variable [Field S] [AddCommGroup P] [Module S P]

/-- The attribute of the redemption date. -/
theorem gyGroupAuthM3_eq (gens : GroupGenerators P) {date : UInt64}
    (hday : date.toNat % groupDaySecs = 0) :
    gyGroupAuthM3 (S := S) gens date = .ok ((date.toNat : S) • gens .m3) := by
  rw [gyGroupAuthM3, gyGroupRedemptionScalar_eq hday]
  rfl

/-- The attributes of an auth credential. -/
theorem gyGroupAttrAuth_eq (gens : GroupGenerators P) {date : UInt64}
    (hday : date.toNat % groupDaySecs = 0) :
    gyGroupAttrAuth tier gens uid date =
      .ok [tier.m1 uid, tier.encodeUid uid, (date.toNat : S) • gens .m3] := by
  rw [gyGroupAttrAuth, gyGroupAttrsUid_eq, Except.ok_bind]
  dsimp only
  rw [gyGroupAuthM3_eq gens hday]
  rfl

end Attributes

end Geryon
