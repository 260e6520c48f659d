import Geryon.Group.Credential
import Geryon.Lib.Records

/-!
# The group records of a custodian

`group_state.c` and the client operations of `group_ops.c`. The records are typed: what a record
holds is what its blob encodes, and the blobs are sealed, so a load gives back what was stored.
Checks for `NULL` arguments and the calls of the cryptographic libraries' initialisers are left out.
-/

namespace Geryon

/-- `GY_GROUP_ID_LEN`. -/
abbrev groupIdLen : Nat := 16

/-- A group identifier. -/
abbrev GroupId (β : Type) := Block groupIdLen β

/-- `GY_GROUP_FORMAT_VERSION`. -/
def groupFormatVersion : UInt16 := 1

/-- `GY_GROUP_MIN_SUPPORTED_FORMAT_VERSION`. -/
def groupMinSupportedFormatVersion : UInt16 := 1

/-- `GY_GROUP_MAX_SUPPORTED_FORMAT_VERSION`. -/
def groupMaxSupportedFormatVersion : UInt16 := 1

/-- `GY_GROUP_MASTER_KEY_MAX`. -/
def groupMasterKeyMax : Nat := 56

/-- `GY_GROUP_PK_VERSION_BYTES`. -/
def groupPkVersionBytes : Nat := 32

/-- The records by kind and identifier: `enum gy_group_rec_kind` and the two kinds of the facade.
The identifier of a profile-key credential is a group followed by a user. -/
inductive GroupRecKey (β : Type) where
  | masterKey (gid : GroupId β)
  | authCred (gid : GroupId β)
  | pkCred (gid : GroupId β) (uid : GroupUid β)
  | ownPk (gid : GroupId β)
  | serverParams
  | blindState (gid : GroupId β)
  deriving DecidableEq

/-- The group a record belongs to. -/
def GroupRecKey.group? {β : Type} : GroupRecKey β → Option (GroupId β)
  | .masterKey gid => some gid
  | .authCred gid => some gid
  | .pkCred gid _ => some gid
  | .ownPk gid => some gid
  | .serverParams => none
  | .blindState gid => some gid

/-- What a record of each kind holds. -/
abbrev GroupRecKey.Val (S P π : Type) {β : Type} : GroupRecKey β → Type
  | .masterKey _ => UInt16 × Bytes β
  | .authCred _ => GroupMacTag S P × UInt64
  | .pkCred _ _ => GroupMacTag S P
  | .ownPk _ => ProfileKey β
  | .serverParams => GroupServerPublic P × GroupServerPublic P
  | .blindState _ => GroupPkRequest P π × S

/-- The records of a custodian. -/
abbrev GroupRecords (S P β π : Type) := (k : GroupRecKey β) → Option (k.Val S P π)

/-- The store of a custodian. -/
abbrev GroupStore (S P β π : Type) := RecStore GyErr (GroupRecKey β) (GroupRecKey.Val S P π)

/-- Calls on the store. -/
abbrev GroupM (S P β π : Type) := Cmd GyErr (GroupStore S P β π)

variable {S P β π : Type} [Field S] [AddCommGroup P] [Module S P] [Octet β] [DecidableEq β]

/-! ## Group identifiers and parameters -/

/-- `gy_group_id`. -/
def gyGroupId (tier : GroupTier S P β π) (pp : GroupPublicParams P) (formatVersion : UInt16) :
    Except GyErr (GroupId β) :=
  match h : tier.desc.hash (Octet.ofByte tier.desc.suiteId :: be16Put formatVersion ++
    tier.encodePoint pp.a ++ tier.encodePoint pp.b) with
  | .error e => .error e
  | .ok digest => .ok ⟨digest.take groupIdLen, by
      have hlen : digest.length = tier.desc.hashLen := tier.desc.length_hash h
      have h16 : groupIdLen ≤ 32 := by decide
      rw [List.length_take, hlen, min_eq_left (h16.trans tier.desc.hashLen_ge)]⟩

/-- What is derived from a master key: secret and public parameters and the identifier. -/
def groupDerive (tier : GroupTier S P β π) (gens : GroupGenerators P) (formatVersion : UInt16)
    (gmk : Bytes β) : Except GyErr (GroupId β × GroupSecretParams S × GroupPublicParams P) := do
  let sp ← gyGroupSecretDerive tier gmk
  let pp := gyGroupPublicDerive gens sp
  let id ← gyGroupId tier pp formatVersion
  return (id, sp, pp)

/-- `derive_and_store_master`. -/
def deriveAndStoreMaster (tier : GroupTier S P β π) (gens : GroupGenerators P)
    (formatVersion : UInt16) (gmk : Bytes β) :
    GroupM S P β π (GroupId β × GroupSecretParams S × GroupPublicParams P) := do
  let (id, sp, pp) ← Cmd.lift (groupDerive tier gens formatVersion gmk)
  RecStore.store (.masterKey id) (formatVersion, gmk)
  return (id, sp, pp)

/-- `gy_group_create_stored` on the master key it draws. -/
def gyGroupCreateStored (tier : GroupTier S P β π) (gens : GroupGenerators P)
    (gmk : Block tier.masterKeyLen β) :
    GroupM S P β π (GroupId β × GroupSecretParams S × GroupPublicParams P) :=
  deriveAndStoreMaster tier gens groupFormatVersion gmk.1

/-- `gy_group_install_master_key`. -/
def gyGroupInstallMasterKey (tier : GroupTier S P β π) (gens : GroupGenerators P) (gmk : Bytes β)
    (formatVersion : UInt16) :
    GroupM S P β π (GroupId β × GroupSecretParams S × GroupPublicParams P) :=
  if gmk.length ≠ tier.masterKeyLen then Cmd.fail .arg
  else if formatVersion < groupMinSupportedFormatVersion ∨
      groupMaxSupportedFormatVersion < formatVersion then Cmd.fail .unsupported
  else deriveAndStoreMaster tier gens formatVersion gmk

/-- The master-key record of a group. -/
def loadMasterRecord (tier : GroupTier S P β π) (gid : GroupId β) :
    GroupM S P β π (UInt16 × Bytes β) := do
  let blob : Option (UInt16 × Bytes β) ← RecStore.load (GroupRecKey.masterKey gid)
  match blob with
  | none => Cmd.fail .notFound
  | some (formatVersion, gmk) =>
    if gmk.length ≠ tier.masterKeyLen then Cmd.fail .verify else return (formatVersion, gmk)

/-- `gy_group_load`. -/
def gyGroupLoad (tier : GroupTier S P β π) (gens : GroupGenerators P) (gid : GroupId β) :
    GroupM S P β π (GroupSecretParams S × GroupPublicParams P) := do
  let (formatVersion, gmk) ← loadMasterRecord tier gid
  let (id, sp, pp) ← Cmd.lift (groupDerive tier gens formatVersion gmk)
  if id ≠ gid then Cmd.fail .verify else return (sp, pp)

/-- `gy_group_master_key_load`. -/
def gyGroupMasterKeyLoad (tier : GroupTier S P β π) (gid : GroupId β) (cap : Nat) :
    GroupM S P β π (Bytes β) :=
  if cap < tier.masterKeyLen then Cmd.fail .toolong
  else do
    let (_, gmk) ← loadMasterRecord tier gid
    return gmk

/-- `gy_group_format_version_load`. -/
def gyGroupFormatVersionLoad (tier : GroupTier S P β π) (gid : GroupId β) :
    GroupM S P β π UInt16 := do
  let (formatVersion, _) ← loadMasterRecord tier gid
  return formatVersion

/-- `gy_group_delete_stored`: the master key last. -/
def gyGroupDeleteStored (gid : GroupId β) : GroupM S P β π Unit := do
  RecStore.remove (.authCred gid)
  RecStore.remove (.ownPk gid)
  RecStore.remove (.masterKey gid)

/-! ## Credentials and the own profile key -/

/-- `gy_group_auth_cred_load`. -/
def gyGroupAuthCredLoad (gid : GroupId β) : GroupM S P β π (GroupMacTag S P × UInt64) := do
  let blob : Option (GroupMacTag S P × UInt64) ← RecStore.load (GroupRecKey.authCred gid)
  match blob with
  | none => Cmd.fail .notFound
  | some cred => return cred

/-- `gy_group_auth_cred_valid`. -/
def gyGroupAuthCredValid (redemptionDate nowUnix : UInt64) : Bool :=
  nowUnix / 86400 * 86400 == redemptionDate

/-- `gy_group_pk_cred_load`. -/
def gyGroupPkCredLoad (gid : GroupId β) (uid : GroupUid β) : GroupM S P β π (GroupMacTag S P) := do
  let blob : Option (GroupMacTag S P) ← RecStore.load (GroupRecKey.pkCred gid uid)
  match blob with
  | none => Cmd.fail .notFound
  | some cred => return cred

variable (tier : GroupTier S P β π) (gens : GroupGenerators P)

/-- `gy_group_profile_key_version`. -/
def gyGroupProfileKeyVersion (uid : GroupUid β) (pk : ProfileKey β) : Except GyErr (Bytes β) := do
  let domain ← gyGroupDomain tier "grp-pkv"
  let prk ← tier.desc.hkdfExtract domain (pk.1 ++ uid.1)
  tier.desc.hkdfExpand groupPkVersionBytes prk domain

/-- `gy_group_get_auth_credential_stored`. -/
def gyGroupGetAuthCredentialStored [DecidableEq P] (ppA : GroupServerPublic P) (gid : GroupId β)
    (uid : GroupUid β) (date : UInt64) (resp : GroupAuthResponse S P π) :
    GroupM S P β π (GroupMacTag S P) := do
  Cmd.lift (gyGroupAuthVerify tier gens ppA uid date resp)
  RecStore.store (.authCred gid) (resp.mac, date)
  return resp.mac

/-- `gy_group_get_pk_credential_finish_stored`. -/
def gyGroupGetPkCredentialFinishStored (ppP : GroupServerPublic P) (gid : GroupId β)
    (uid : GroupUid β) (req : GroupPkRequest P π) (y : S)
    (resp : GroupPkBlindResponse S P π) :
    GroupM S P β π (GroupMacTag S P) := do
  let cred ← Cmd.lift (gyGroupPkBlindReceive tier gens ppP uid req.toGroupPkBlinded y resp)
  RecStore.store (.pkCred gid uid) cred
  return cred

/-- `gy_group_commit_to_profile_key_stored`. -/
def gyGroupCommitToProfileKeyStored (gid : GroupId β) (uid : GroupUid β) (pk : ProfileKey β) :
    GroupM S P β π (GroupPkCommitment P) := do
  let _ ← Cmd.lift (gyGroupProfileKeyVersion tier uid pk)
  let commit ← Cmd.lift (gyGroupPkCommit tier gens uid pk)
  RecStore.store (.ownPk gid) pk
  return commit

/-- `gy_group_update_profile_key_stored`: the own profile key is stored before the credential for
the old one is dropped, as far as that works. -/
def gyGroupUpdateProfileKeyStored (sp : GroupSecretParams S) (ppPub : GroupPublicParams P)
    (ppSrvP : GroupServerPublic P) (ownCred : GroupMacTag S P) (gid : GroupId β)
    (ownUid : GroupUid β) (newPk : ProfileKey β) (z : S) (nonces : Nat → S) :
    GroupM S P β π (GroupPkPresentation P π) := do
  let pres ← Cmd.lift (gyGroupPkPresent tier gens sp ppPub ppSrvP ownCred ownUid newPk z nonces)
  RecStore.store (.ownPk gid) newPk
  let _ ← Cmd.attempt (RecStore.remove (.pkCred gid ownUid))
  return pres

/-- `gy_group_auth_as_member_stored`. -/
def gyGroupAuthAsMemberStored (sp : GroupSecretParams S) (ppPub : GroupPublicParams P)
    (ppSrvA : GroupServerPublic P) (gid : GroupId β) (uid : GroupUid β) (nowUnix : UInt64) (z : S)
    (nonces : Nat → S) : GroupM S P β π (GroupAuthPresentation P π) := do
  let (mac, date) ← gyGroupAuthCredLoad gid
  if gyGroupAuthCredValid date nowUnix then
    Cmd.lift (gyGroupAuthPresent tier gens sp ppPub ppSrvA mac uid date z nonces)
  else Cmd.fail .expired

/-- `gy_group_add_member_stored`. -/
def gyGroupAddMemberStored (sp : GroupSecretParams S) (ppPub : GroupPublicParams P)
    (ppSrvP : GroupServerPublic P) (gid : GroupId β) (newUid : GroupUid β) (newPk : ProfileKey β)
    (z : S) (nonces : Nat → S) : GroupM S P β π (GroupPkPresentation P π) := do
  let newCred ← gyGroupPkCredLoad gid newUid
  Cmd.lift (gyGroupPkPresent tier gens sp ppPub ppSrvP newCred newUid newPk z nonces)

/-- `gy_group_delete_member_stored`: the cached credential of the target is dropped, as far as that
works. -/
def gyGroupDeleteMemberStored (sp : GroupSecretParams S) (gid : GroupId β)
    (targetUid : GroupUid β) : GroupM S P β π (GroupUidCt P) := do
  let ct ← Cmd.lift (gyGroupUidEncrypt tier sp targetUid)
  let _ ← Cmd.attempt (RecStore.remove (.pkCred gid targetUid))
  return ct

end Geryon
