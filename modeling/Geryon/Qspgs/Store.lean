import Geryon.Qspgs.Wire

/-!
# The group records of a custodian

`qspgs_store.c`: the records a custodian keeps for the group layer, each `ver || format_version ||
payload` under a kind and an identifier, and the calls that read and write them through the three
store callbacks.

A callback may fail at any time, before or after its effect; a process that is killed between two
callbacks leaves the records of a run in which the second one failed before its effect. The
failures of a run are part of its input (`QsStore.faults`, one entry for each callback). Checks for
`NULL` arguments are left out.
-/

namespace Geryon

/-- `GY_QSPGS_REC_VERSION`. -/
def qspgsRecVersion : UInt8 := 1

/-- `GY_QSPGS_REC_HDR_LEN`. -/
def qspgsRecHdrLen : Nat := 3

/-- `GY_QSPGS_REC_BLOB_MAX`: the header and the base pair of the larger tier. -/
def qspgsRecBlobMax : Nat := qspgsRecHdrLen + 1472 + 5920

/-- `GY_QSPGS_MASTER_KEY_MAX`. -/
def qspgsMasterKeyMax : Nat := 56

/-- `GY_QSPGS_JOINLINK_SECRET`. -/
def qspgsJoinlinkSecret : Nat := 32

/-- `gy_qspgs_master_key_len`: the width of the user and group keys of a hybrid suite. -/
def gyQspgsMasterKeyLen {β : Type} (desc : SuiteDesc β) : Nat :=
  if desc.suiteId = 2 then 32 else if desc.suiteId = 4 then 56 else 0

/-- `enum gy_qspgs_rec_kind`. -/
inductive QRecKind where
  | muk | baseKey | groupKey | acquaintance | joinLink | groupKeyPending
  deriving DecidableEq, Repr

/-- The stored blobs by kind and identifier; an absent record is empty. -/
abbrev QsRecords (β : Type) := QRecKind → Bytes β → Bytes β

/-- The failure of a callback: its code, and whether it comes after the callback's effect. -/
structure CallbackFault where
  err : GyErr
  after : Bool
  deriving DecidableEq

/-- A store (`struct gy_qspgs_store`) with the failures its next callbacks will report. -/
structure QsStore (β : Type) where
  recs : QsRecords β
  faults : List (Option CallbackFault)

/-- Calls on a store. -/
abbrev QsM (β : Type) := Cmd GyErr (QsStore β)

variable {β : Type} [Octet β] [DecidableEq β]

/-- Overwrite one record. -/
def QsRecords.set (recs : QsRecords β) (kind : QRecKind) (id blob : Bytes β) : QsRecords β :=
  fun k i => if k = kind ∧ i = id then blob else recs k i

/-- One callback: it has its effect and its result, unless it fails. -/
def callback {α : Type} (effect : QsRecords β → QsRecords β)
    (result : QsRecords β → Except GyErr α) : QsM β α := fun st =>
  match st.faults with
  | some f :: rest => (.error f.err, ⟨if f.after then effect st.recs else st.recs, rest⟩)
  | none :: rest => (result st.recs, ⟨effect st.recs, rest⟩)
  | [] => (result st.recs, ⟨effect st.recs, []⟩)

/-- `store->load` into a buffer of `cap` bytes. -/
def loadCb (kind : QRecKind) (id : Bytes β) (cap : Nat) : QsM β (Bytes β) :=
  callback (fun recs => recs) fun recs =>
    if cap < (recs kind id).length then .error .toolong else .ok (recs kind id)

/-- `store->store`. -/
def storeCb (kind : QRecKind) (id blob : Bytes β) : QsM β Unit :=
  callback (fun recs => recs.set kind id blob) fun _ => .ok ()

/-- `store->remove`; removing an absent record succeeds. -/
def removeCb (kind : QRecKind) (id : Bytes β) : QsM β Unit :=
  callback (fun recs => recs.set kind id []) fun _ => .ok ()

/-- `put_hdr` of the current format version. -/
def putHdr : Bytes β := Octet.ofByte qspgsRecVersion :: be16Put qspgsFormatVersion

/-- `store_keyed`. -/
def storeKeyed (kind : QRecKind) (id payload : Bytes β) : QsM β Unit :=
  storeCb kind id (putHdr ++ payload)

/-- `load_keyed`, for a payload of `expect` bytes. -/
def loadKeyed (kind : QRecKind) (id : Bytes β) (expect : Nat) : QsM β (Bytes β) := do
  let blob ← loadCb kind id qspgsRecBlobMax
  if blob.length = 0 then Cmd.fail .notFound
  else if blob.length ≠ qspgsRecHdrLen + expect ∨ byteAt blob 0 ≠ qspgsRecVersion.toNat then
    Cmd.fail .verify
  else if be16Get (blob.drop 1) ≠ qspgsFormatVersion then Cmd.fail .unsupported
  else return blob.drop qspgsRecHdrLen

variable (desc : SuiteDesc β)

/-! ## User records -/

/-- `gy_qspgs_muk_store`. -/
def gyQspgsMukStore (uid muk : Bytes β) : QsM β Unit :=
  if uid.length ≠ qspgsUidLen then Cmd.fail .arg
  else if gyQspgsMasterKeyLen desc = 0 then Cmd.fail .arg
  else storeKeyed .muk uid muk

/-- `gy_qspgs_muk_load`. -/
def gyQspgsMukLoad (uid : Bytes β) (cap : Nat) : QsM β (Bytes β) :=
  if uid.length ≠ qspgsUidLen then Cmd.fail .arg
  else if gyQspgsMasterKeyLen desc = 0 then Cmd.fail .arg
  else if cap < gyQspgsMasterKeyLen desc then Cmd.fail .toolong
  else loadKeyed .muk uid (gyQspgsMasterKeyLen desc)

/-- `gy_qspgs_base_key_store`: the secret half before the public one. -/
def gyQspgsBaseKeyStore [KrMlDsa β] (uid skb vkb : Bytes β) : QsM β Unit :=
  if uid.length ≠ qspgsUidLen then Cmd.fail .arg
  else if KrMlDsa.skbLen desc = 0 ∨ KrMlDsa.vkbLen desc = 0 then Cmd.fail .arg
  else storeKeyed .baseKey uid (skb ++ vkb)

/-- `gy_qspgs_base_key_load`: the secret and the public half. -/
def gyQspgsBaseKeyLoad [KrMlDsa β] (uid : Bytes β) : QsM β (Bytes β × Bytes β) :=
  if uid.length ≠ qspgsUidLen then Cmd.fail .arg
  else if KrMlDsa.skbLen desc = 0 ∨ KrMlDsa.vkbLen desc = 0 then Cmd.fail .arg
  else do
    let payload ← loadKeyed .baseKey uid (KrMlDsa.skbLen desc + KrMlDsa.vkbLen desc)
    return (payload.take (KrMlDsa.skbLen desc), payload.drop (KrMlDsa.skbLen desc))

/-- An accepted acquaintance: what its record holds next to the granter's identifier. -/
structure Acquaintance (β : Type) where
  ep : UInt64
  vkb : Bytes β
  acq : Bytes β
  uk : Bytes β
  deriving DecidableEq

/-- `gy_qspgs_acquaintance_store`. -/
def gyQspgsAcquaintanceStore [KrMlDsa β] (uid : Bytes β) (a : Acquaintance β) : QsM β Unit :=
  if uid.length ≠ qspgsUidLen then Cmd.fail .arg
  else if KrMlDsa.vkbLen desc = 0 ∨ gyQspgsMasterKeyLen desc = 0 then Cmd.fail .arg
  else storeKeyed .acquaintance uid (be64Put a.ep ++ a.vkb ++ a.acq ++ a.uk)

/-- `gy_qspgs_acquaintance_load`. -/
def gyQspgsAcquaintanceLoad [KrMlDsa β] (uid : Bytes β) : QsM β (Acquaintance β) :=
  if uid.length ≠ qspgsUidLen then Cmd.fail .arg
  else if KrMlDsa.vkbLen desc = 0 ∨ gyQspgsMasterKeyLen desc = 0 then Cmd.fail .arg
  else do
    let vkblen := KrMlDsa.vkbLen desc
    let mklen := gyQspgsMasterKeyLen desc
    let payload ← loadKeyed .acquaintance uid (8 + vkblen + 2 * mklen)
    return ⟨be64Get payload, (payload.drop 8).take vkblen, (payload.drop (8 + vkblen)).take mklen,
      payload.drop (8 + vkblen + mklen)⟩

/-! ## Group records -/

/-- `gy_qspgs_group_key_store`. -/
def gyQspgsGroupKeyStore (gid gk : Bytes β) : QsM β Unit :=
  if gyQspgsMasterKeyLen desc = 0 then Cmd.fail .arg else storeKeyed .groupKey gid gk

/-- `gy_qspgs_group_key_load`: the staged key before the current one. -/
def gyQspgsGroupKeyLoad (gid : Bytes β) (cap : Nat) : QsM β (Bytes β) :=
  if gyQspgsMasterKeyLen desc = 0 then Cmd.fail .arg
  else if cap < gyQspgsMasterKeyLen desc then Cmd.fail .toolong
  else do
    let rc ← Cmd.attempt (loadKeyed .groupKeyPending gid (gyQspgsMasterKeyLen desc))
    match rc with
    | .error .notFound => loadKeyed .groupKey gid (gyQspgsMasterKeyLen desc)
    | rc => Cmd.lift rc

/-- `gy_qspgs_group_key_stage`. -/
def gyQspgsGroupKeyStage (gid gk : Bytes β) : QsM β Unit :=
  if gyQspgsMasterKeyLen desc = 0 then Cmd.fail .arg
  else do
    let rc ← Cmd.attempt (loadKeyed .groupKeyPending gid (gyQspgsMasterKeyLen desc))
    match rc with
    | .ok _ => Cmd.fail .state
    | .error .notFound => storeKeyed .groupKeyPending gid gk
    | .error e => Cmd.fail e

/-- `gy_qspgs_group_key_commit`: the current record is written before the staged one is removed. -/
def gyQspgsGroupKeyCommit (gid : Bytes β) : QsM β Unit :=
  if gyQspgsMasterKeyLen desc = 0 then Cmd.fail .arg
  else do
    let gk ← loadKeyed .groupKeyPending gid (gyQspgsMasterKeyLen desc)
    storeKeyed .groupKey gid gk
    removeCb .groupKeyPending gid

/-- `gy_qspgs_group_key_rollback`. -/
def gyQspgsGroupKeyRollback (gid : Bytes β) : QsM β Unit :=
  removeCb .groupKeyPending gid

/-- `gy_qspgs_joinlink_secret_store`. -/
def gyQspgsJoinlinkSecretStore (gid jls : Bytes β) : QsM β Unit :=
  storeKeyed .joinLink gid jls

/-- `gy_qspgs_joinlink_secret_load`. -/
def gyQspgsJoinlinkSecretLoad (gid : Bytes β) (cap : Nat) : QsM β (Bytes β) :=
  if cap < qspgsJoinlinkSecret then Cmd.fail .toolong
  else loadKeyed .joinLink gid qspgsJoinlinkSecret

/-- `gy_qspgs_joinlink_secret_delete`. -/
def gyQspgsJoinlinkSecretDelete (gid : Bytes β) : QsM β Unit :=
  removeCb .joinLink gid

/-- `gy_qspgs_group_delete_stored`. -/
def gyQspgsGroupDeleteStored (gid : Bytes β) : QsM β Unit := do
  removeCb .joinLink gid
  removeCb .groupKeyPending gid
  removeCb .groupKey gid

/-! ## Group-key envelopes -/

/-- `gy_custodian_qsgroup_export_group_key`. -/
def gyCustodianQsgroupExportGroupKey (gid : Bytes β) (cap : Nat) : QsM β (Bytes β) :=
  if cap < qspgsObjHdrLen + qspgsGidLen + gyQspgsMasterKeyLen desc then Cmd.fail .arg
  else do
    let gk ← gyQspgsGroupKeyLoad desc gid qspgsMasterKeyMax
    return objPutHeader desc .groupKey ++ gid ++ gk

/-- `gy_custodian_qsgroup_install_group_key`: checks the frame, then overwrites the current key.
Returns the group the key is for. -/
def gyCustodianQsgroupInstallGroupKey (env : Bytes β) : QsM β (Bytes β) :=
  if env.length ≠ qspgsObjHdrLen + qspgsGidLen + gyQspgsMasterKeyLen desc then Cmd.fail .arg
  else if byteAt env 0 ≠ QObj.groupKey.byte.toNat ∨ byteAt env 1 ≠ qspgsWireVersion.toNat ∨
      byteAt env 2 ≠ desc.suiteId.toNat then Cmd.fail .verify
  else do
    let gid := (env.drop qspgsObjHdrLen).take qspgsGidLen
    gyQspgsGroupKeyStore desc gid (env.drop (qspgsObjHdrLen + qspgsGidLen))
    return gid

end Geryon
