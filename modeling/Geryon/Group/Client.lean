import Geryon.Group.State

/-!
# The group facade of a custodian

`group_facade_client.c`. A call finds its custodian's suite tier, lock state, user id and clock in a
`GroupHandle`, and its records in the store. What a call draws at random is an argument, and so is
what decoding the caller's bytes gives (`none` where it fails); the key-distribution envelope is
kept as bytes. A wire object that goes out is typed and has its wire size.
-/

namespace Geryon

/-- What a group call finds in its custodian next to the records. -/
structure GroupHandle (S P β π : Type) where
  /-- `gy_group_tier_for(c->suite_id)`: none for a hybrid suite. -/
  tier : Option (GroupTier S P β π)
  unlocked : Bool
  selfUid : Bytes β
  /-- What the clock reads, if one is set. -/
  clock : Option UInt64

/-- What a call hands to its caller: the required size, or an object. -/
inductive Emitted (α : Type) where
  | size (n : Nat)
  | bytes (obj : α)

/-- `FACADE_SCRATCH`. -/
def facadeScratch : Nat := 4096

/-- `GY_GROUP_OBJ_HDR_LEN`. -/
def groupObjHdrLen : Nat := 3

/-- `emit`: `out` is the capacity of the caller's buffer, `none` for a size query. -/
def emit {α : Type} (obj : α) (n : Nat) (out : Option Nat) : Except GyErr (Emitted α) :=
  match out with
  | none => .ok (.size n)
  | some cap => if cap < n then .error .toolong else .ok (.bytes obj)

/-- The encoding of an object of `n` bytes into the scratch buffer, followed by `emit`. -/
def encodeEmit {α : Type} (obj : α) (n : Nat) (out : Option Nat) : Except GyErr (Emitted α) :=
  if facadeScratch < n then .error .toolong else emit obj n out

variable {S P β π : Type}

section Sizes

variable (tier : GroupTier S P β π)

/-- The size of encoded public parameters, of a group or of a server. -/
def GroupTier.publicLen : Nat := groupObjHdrLen + 2 * tier.pointLen

/-- The size of an encoded user-id ciphertext. -/
def GroupTier.uidCtLen : Nat := 2 * tier.pointLen

/-- The size of an encoded commitment. -/
def GroupTier.commitLen : Nat := groupObjHdrLen + 3 * tier.pointLen

/-- The size of an encoded request: its points, and a proof of six equations in four scalars. -/
def GroupTier.requestLen : Nat :=
  groupObjHdrLen + 5 * tier.pointLen + 6 * tier.pointLen + 4 * tier.scalarLen

/-- The size of an encoded auth presentation. -/
def GroupTier.authPresLen : Nat :=
  groupObjHdrLen + 8 * tier.pointLen + 8 + 6 * tier.pointLen + 6 * tier.scalarLen

/-- The size of an encoded profile-key presentation. -/
def GroupTier.pkPresLen : Nat :=
  groupObjHdrLen + 11 * tier.pointLen + 8 * tier.pointLen + 9 * tier.scalarLen

end Sizes

/-! ## The key-distribution envelope -/

section Envelope

variable [Octet β] (tier : GroupTier S P β π)

/-- `GY_GROUP_ENVELOPE_HDR_LEN`. -/
def groupEnvelopeHdrLen : Nat := 3

/-- `GY_GROUP_ENVELOPE_FMTVER_LEN`. -/
def groupEnvelopeFmtverLen : Nat := 2

/-- `GY_MSG_GROUP_KEY_DISTRIBUTION`. -/
def msgGroupKeyDistribution : UInt8 := 3

/-- `gy_group_key_distribution_encode` into a buffer of `cap` bytes. -/
def gyGroupKeyDistributionEncode (formatVersion : UInt16) (masterKey : Bytes β) (cap : Nat) :
    Except GyErr (Bytes β) :=
  if masterKey.length ≠ tier.masterKeyLen then .error .arg
  else if cap < groupEnvelopeHdrLen + groupEnvelopeFmtverLen + tier.masterKeyLen then
    .error .toolong
  else .ok ([Octet.ofByte wireVersion, Octet.ofByte tier.desc.suiteId,
    Octet.ofByte msgGroupKeyDistribution] ++ be16Put formatVersion ++ masterKey)

/-- `gy_group_key_distribution_decode`, for a key of at most `mkCap` bytes. -/
def gyGroupKeyDistributionDecode (env : Bytes β) (mkCap : Nat) : Except GyErr (UInt16 × Bytes β) :=
  if mkCap < tier.masterKeyLen then .error .arg
  else if env.length ≠ groupEnvelopeHdrLen + groupEnvelopeFmtverLen + tier.masterKeyLen then
    .error .verify
  else if byteAt env 0 ≠ wireVersion.toNat ∨ byteAt env 1 ≠ tier.desc.suiteId.toNat ∨
      byteAt env 2 ≠ msgGroupKeyDistribution.toNat then .error .verify
  else .ok (be16Get (env.drop groupEnvelopeHdrLen),
    env.drop (groupEnvelopeHdrLen + groupEnvelopeFmtverLen))

end Envelope

/-! ## Guards and loaders -/

variable [Field S] [AddCommGroup P] [Module S P] [Octet β] [DecidableEq β] [DecidableEq P]

/-- `group_guard`. -/
def groupGuard (c : GroupHandle S P β π) : Except GyErr (GroupTier S P β π) :=
  if c.unlocked then
    match c.tier with
    | none => .error .unsupported
    | some tier => .ok tier
  else .error .state

/-- `self_uid`. -/
def groupSelfUid (c : GroupHandle S P β π) : Except GyErr (GroupUid β) :=
  if h : c.selfUid.length = groupUidBytes then .ok ⟨c.selfUid, h⟩ else .error .state

/-- `load_srv`. -/
def loadSrv : GroupM S P β π (GroupServerPublic P × GroupServerPublic P) := do
  let blob : Option (GroupServerPublic P × GroupServerPublic P) ←
    RecStore.load GroupRecKey.serverParams
  match blob with
  | none => Cmd.fail .state
  | some pp => return pp

/-- `load_group`. -/
def loadGroup (tier : GroupTier S P β π) (gid : GroupId β) :
    GroupM S P β π (GroupGenerators P × GroupSecretParams S × GroupPublicParams P) := do
  let gens ← Cmd.lift (gyGroupGeneratorsDerive tier)
  let (sp, pp) ← gyGroupLoad tier gens gid
  return (gens, sp, pp)

/-! ## Setup, creation and key distribution -/

section Calls

variable (c : GroupHandle S P β π)

/-- `gy_custodian_group_install_server_params`. -/
def groupInstallServerParams (params : Option (GroupServerPublic P × GroupServerPublic P)) :
    GroupM S P β π Unit := do
  let _ ← Cmd.lift (groupGuard c)
  match params with
  | none => Cmd.fail .verify
  | some pp => RecStore.store GroupRecKey.serverParams pp

/-- `gy_custodian_group_format_version`. -/
def groupFormatVersionOf (gid : GroupId β) : GroupM S P β π UInt16 := do
  let tier ← Cmd.lift (groupGuard c)
  gyGroupFormatVersionLoad tier gid

/-- `gy_custodian_group_create` on the master key it draws. -/
def groupCreate (gmk : (n : Nat) → Block n β) : GroupM S P β π (GroupId β) := do
  let tier ← Cmd.lift (groupGuard c)
  let gens ← Cmd.lift (gyGroupGeneratorsDerive tier)
  let (id, _, _) ← gyGroupCreateStored tier gens (gmk tier.masterKeyLen)
  return id

/-- `gy_custodian_group_export_group_public_params`. -/
def groupExportGroupPublicParams (gid : GroupId β) (out : Option Nat) :
    GroupM S P β π (Emitted (GroupPublicParams P)) := do
  let tier ← Cmd.lift (groupGuard c)
  let (_, _, pp) ← loadGroup tier gid
  Cmd.lift (encodeEmit pp tier.publicLen out)

/-- `gy_custodian_group_export_key_envelope`. -/
def groupExportKeyEnvelope (gid : GroupId β) (out : Option Nat) :
    GroupM S P β π (Emitted (Bytes β)) := do
  let tier ← Cmd.lift (groupGuard c)
  let formatVersion ← gyGroupFormatVersionLoad tier gid
  let gmk ← gyGroupMasterKeyLoad tier gid groupMasterKeyMax
  let frame ← Cmd.lift (gyGroupKeyDistributionEncode tier formatVersion gmk
    (groupEnvelopeHdrLen + groupEnvelopeFmtverLen + groupMasterKeyMax))
  Cmd.lift (emit frame frame.length out)

/-- `gy_custodian_group_install_key_envelope`. -/
def groupInstallKeyEnvelope (env : Bytes β) : GroupM S P β π (GroupId β) := do
  let tier ← Cmd.lift (groupGuard c)
  match gyGroupKeyDistributionDecode tier env groupMasterKeyMax with
  | .error _ => Cmd.fail .verify
  | .ok (formatVersion, gmk) => do
    let gens ← Cmd.lift (gyGroupGeneratorsDerive tier)
    let (id, _, _) ← gyGroupInstallMasterKey tier gens gmk formatVersion
    return id

/-- `gy_custodian_group_forget`: the outstanding blind-issuance state is dropped as far as that
works. -/
def groupForget (gid : GroupId β) : GroupM S P β π Unit := do
  let _ ← Cmd.lift (groupGuard c)
  let rc ← Cmd.attempt (gyGroupDeleteStored gid)
  let _ ← Cmd.attempt (RecStore.remove (.blindState gid))
  Cmd.lift rc

/-! ## Credentials -/

/-- `gy_custodian_group_receive_auth_credential`. -/
def groupReceiveAuthCredential (gid : GroupId β) (uid : GroupUid β) (redemptionDate : UInt64)
    (resp : Option (GroupAuthResponse S P π)) : GroupM S P β π Unit := do
  let tier ← Cmd.lift (groupGuard c)
  match resp with
  | none => Cmd.fail .verify
  | some resp => do
    let gens ← Cmd.lift (gyGroupGeneratorsDerive tier)
    let (ppA, _) ← loadSrv
    let _ ← gyGroupGetAuthCredentialStored tier gens ppA gid uid redemptionDate resp
    return ()

/-- `gy_custodian_group_profile_key_commit`. -/
def groupProfileKeyCommit (gid : GroupId β) (profileKey : ProfileKey β) (out : Option Nat) :
    GroupM S P β π (Emitted (GroupPkCommitment P)) := do
  let tier ← Cmd.lift (groupGuard c)
  let uid ← Cmd.lift (groupSelfUid c)
  let gens ← Cmd.lift (gyGroupGeneratorsDerive tier)
  let commit ← gyGroupCommitToProfileKeyStored tier gens gid uid profileKey
  Cmd.lift (encodeEmit commit tier.commitLen out)

/-- `gy_custodian_group_pk_credential_request` on the scalars and nonces it draws. -/
def groupPkCredentialRequest (gid : GroupId β) (profileKey : ProfileKey β) (y r1 r2 : S)
    (nonces : Nat → S) (out : Option Nat) : GroupM S P β π (Emitted (GroupPkRequest P π)) := do
  let tier ← Cmd.lift (groupGuard c)
  let uid ← Cmd.lift (groupSelfUid c)
  let gens ← Cmd.lift (gyGroupGeneratorsDerive tier)
  let _ ← Cmd.lift (gyGroupProfileKeyVersion tier uid profileKey)
  let req ← Cmd.lift (gyGroupPkRequest tier gens uid profileKey y r1 r2 nonces)
  if facadeScratch < tier.requestLen then Cmd.fail .toolong
  else do
    -- the blinding is stored before the size of `out` is looked at
    RecStore.store (.blindState gid) (req, y)
    Cmd.lift (emit req tier.requestLen out)

/-- `gy_custodian_group_pk_credential_finish`: the profile key is only checked for presence. -/
def groupPkCredentialFinish (gid : GroupId β) (_profileKey : ProfileKey β)
    (resp : Option (GroupPkBlindResponse S P π)) : GroupM S P β π Unit := do
  let tier ← Cmd.lift (groupGuard c)
  let uid ← Cmd.lift (groupSelfUid c)
  let blob : Option (GroupPkRequest P π × S) ← RecStore.load (GroupRecKey.blindState gid)
  match blob with
  | none => Cmd.fail .state
  | some (req, y) =>
    match resp with
    | none => Cmd.fail .verify
    | some resp => do
      let gens ← Cmd.lift (gyGroupGeneratorsDerive tier)
      let (_, ppP) ← loadSrv
      let _ ← gyGroupGetPkCredentialFinishStored tier gens ppP gid uid req y resp
      -- the blinding is of no use any more; a failure to remove it is ignored
      let _ ← Cmd.attempt (RecStore.remove (.blindState gid))
      return ()

/-! ## Presentations -/

/-- `gy_custodian_group_auth_present` on the scalar and nonces it draws. -/
def groupAuthPresent (gid : GroupId β) (z : S) (nonces : Nat → S) (out : Option Nat) :
    GroupM S P β π (Emitted (GroupAuthPresentation P π)) := do
  let tier ← Cmd.lift (groupGuard c)
  match c.clock with
  -- the redemption date is checked against the clock
  | none => Cmd.fail .state
  | some now => do
    let uid ← Cmd.lift (groupSelfUid c)
    let (gens, sp, pp) ← loadGroup tier gid
    let (ppA, _) ← loadSrv
    let pres ← gyGroupAuthAsMemberStored tier gens sp pp ppA gid uid now z nonces
    Cmd.lift (encodeEmit pres tier.authPresLen out)

/-- `gy_custodian_group_add_member` on the scalar and nonces it draws. -/
def groupAddMember (gid : GroupId β) (newUid : GroupUid β) (newPk : ProfileKey β) (z : S)
    (nonces : Nat → S) (out : Option Nat) :
    GroupM S P β π (Emitted (GroupPkPresentation P π)) := do
  let tier ← Cmd.lift (groupGuard c)
  let (gens, sp, pp) ← loadGroup tier gid
  let (_, ppP) ← loadSrv
  let pres ← gyGroupAddMemberStored tier gens sp pp ppP gid newUid newPk z nonces
  Cmd.lift (encodeEmit pres tier.pkPresLen out)

/-- `gy_custodian_group_add_invited_member`. -/
def groupAddInvitedMember (gid : GroupId β) (newUid : GroupUid β) (out : Option Nat) :
    GroupM S P β π (Emitted (GroupUidCt P)) := do
  let tier ← Cmd.lift (groupGuard c)
  let (_, sp, _) ← loadGroup tier gid
  let ct ← Cmd.lift (gyGroupUidEncrypt tier sp newUid)
  Cmd.lift (encodeEmit ct tier.uidCtLen out)

/-- `gy_custodian_group_update_profile_key` on the scalar and nonces it draws. -/
def groupUpdateProfileKey (gid : GroupId β) (newPk : ProfileKey β) (z : S) (nonces : Nat → S)
    (out : Option Nat) : GroupM S P β π (Emitted (GroupPkPresentation P π)) := do
  let tier ← Cmd.lift (groupGuard c)
  let uid ← Cmd.lift (groupSelfUid c)
  let (gens, sp, pp) ← loadGroup tier gid
  let (_, ppP) ← loadSrv
  let ownCred ← gyGroupPkCredLoad gid uid
  let pres ← gyGroupUpdateProfileKeyStored tier gens sp pp ppP ownCred gid uid newPk z nonces
  Cmd.lift (encodeEmit pres tier.pkPresLen out)

/-- `gy_custodian_group_delete_member`. -/
def groupDeleteMember (gid : GroupId β) (targetUid : GroupUid β) (out : Option Nat) :
    GroupM S P β π (Emitted (GroupUidCt P)) := do
  let tier ← Cmd.lift (groupGuard c)
  let (_, sp, _) ← loadGroup tier gid
  let ct ← gyGroupDeleteMemberStored tier sp gid targetUid
  Cmd.lift (encodeEmit ct tier.uidCtLen out)

/-! ## The roster -/

/-- `GY_GROUP_MAX_ENTRIES`. -/
def groupMaxEntries : Nat := 1024

/-- `struct gy_group_member_ct`: an invited member has no profile-key ciphertext. -/
structure GroupMemberCt (P : Type) where
  uidCt : GroupUidCt P
  pkCt : Option (GroupPkCt P)
  role : UInt8

/-- `struct gy_group_member`. -/
structure GroupMember (β : Type) where
  uid : GroupUid β
  profileKey : Option (ProfileKey β)
  role : UInt8

/-- One entry of `gy_group_fetch_members`. -/
def memberDecrypt (tier : GroupTier S P β π) (sp : GroupSecretParams S) (e : GroupMemberCt P) :
    Except GyErr (GroupMember β) := do
  let uid ← gyGroupUidDecrypt tier sp e.uidCt
  match e.pkCt with
  | none => .ok ⟨uid, none, e.role⟩
  | some ct => do
    let pk ← gyGroupPkDecrypt tier sp ct uid
    return ⟨uid, some pk, e.role⟩

/-- `gy_group_fetch_members` into room for `cap` entries. -/
def gyGroupFetchMembers (tier : GroupTier S P β π) (sp : GroupSecretParams S)
    (entries : List (GroupMemberCt P)) (cap : Nat) : Except GyErr (List (GroupMember β)) :=
  if groupMaxEntries < entries.length ∨ cap < entries.length then .error .arg
  else entries.mapM' (memberDecrypt tier sp)

/-- `gy_custodian_group_fetch_members`: the capacity `max` counts entries. -/
def groupFetchMembers (gid : GroupId β) (entries : Option (List (GroupMemberCt P)))
    (max : Option Nat) : GroupM S P β π (Emitted (List (GroupMember β))) := do
  let tier ← Cmd.lift (groupGuard c)
  let (_, sp, _) ← loadGroup tier gid
  match entries with
  | none => Cmd.fail .verify
  | some entries =>
    match max with
    -- the size query answers before anything is decrypted
    | none => return .size entries.length
    | some cap =>
      if cap < entries.length then Cmd.fail .toolong
      else
        match gyGroupFetchMembers tier sp entries entries.length with
        | .error _ => Cmd.fail .verify
        | .ok members => return .bytes members

end Calls

end Geryon
