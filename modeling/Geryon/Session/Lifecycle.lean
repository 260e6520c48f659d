import Geryon.Session.Store

/-!
# The session lifecycle

`session/lifecycle.c`: expiration, the identity-key conditional update, the acceptance of a key
change, session insertion and activation, and the deletion of devices and users.
-/

namespace Geryon

/-- `struct gy_expiry_cfg`. -/
structure ExpiryCfg where
  enabled : Bool
  maxSend : UInt32
  maxRecv : UInt32
  maxLatency : UInt64
  deriving DecidableEq

/-- `gy_expiry_cfg_disable`: the configuration of zero bytes. -/
def ExpiryCfg.disabled : ExpiryCfg := ⟨false, 0, 0, 0⟩

/-- `gy_expiry_cfg_init`. -/
def gyExpiryCfgInit (maxSend maxRecv : UInt32) (maxLatency : UInt64) : Except GyErr ExpiryCfg :=
  if maxSend = 0 ∨ maxRecv = 0 then .error .arg
  else if maxRecv.toUInt64 ≤ maxSend.toUInt64 + 2 * maxLatency then .error .arg
  else .ok ⟨true, maxSend, maxRecv, maxLatency⟩

variable {β : Type} [Octet β]

/-- `gy_session_expired`. -/
def gySessionExpired (cfg : ExpiryCfg) (s : Session β) : Bool :=
  cfg.enabled && (decide (cfg.maxSend ≤ s.nsend) || decide (cfg.maxRecv ≤ s.nrecv))

variable [DecidableEq β] [Sodium β]

/-! ## Deleting the sessions of a device -/

/-- Defer the deletion of sessions, in order. -/
def deleteSessions : List (Bytes β) → OpM β Unit
  | [] => pure ()
  | id :: rest => do
    gyOpDelete (.session id)
    deleteSessions rest

/-- `defer_delete_device_inner`. -/
def deferDeleteDeviceInner (userId deviceId : Bytes β) : OpM β Unit := do
  let dk ← Txn.lift (gyDevrecKey userId deviceId)
  match ← gyOpLoadDeviceAny dk with
  | none => pure ()
  | some dev => do
    deleteSessions dev.sessions
    gyOpDelete (.device dk)

/-! ## Conditional update -/

/-- Whether identifiers have admissible lengths. -/
def idsOk (userId deviceId : Bytes β) : Bool :=
  !(deviceId.length == 0 || decide (deviceIdMax < deviceId.length)) &&
    !(userId.length == 0 || decide (userIdMax < userId.length))

/-- The fingerprint of an identity: `gy_fingerprint`, or `gy_hybrid_ikhash` in hybrid suites. -/
def identityFingerprint (desc : SuiteDesc β) (ik : Identity β) : Except GyErr (Bytes β) :=
  match ik.pq with
  | none => gyFingerprint desc ik.curve
  | some (ek, pk) => gyHybridIkhash desc ⟨⟨ik.curve, ek⟩, pk⟩

/-- `ik_equal` and `hybrid_ik_equal`: the key identifier is not part of an identity. -/
def identityEqual (a b : Identity β) : Bool :=
  decide (a.curve.curveType = b.curve.curveType) && decide (a.curve.pk = b.curve.pk) &&
    decide (a.pq = b.pq)

/-- The device record of a peer: the stored one, checked against the peer's identity key, or a new
one. With `report`, a changed key is reported with its new fingerprint. -/
def pinDevice (isHybrid report : Bool) (desc : SuiteDesc β) (deviceId : Bytes β) (ik : Identity β)
    (dk : Bytes β) : OpM β (DeviceRecord β) := do
  match ← gyOpLoadDeviceOf isHybrid dk with
  | some dev =>
    -- a known device must keep its suite and its identity key
    if dev.suiteId ≠ desc.suiteId then Txn.fail .state
    else if !identityEqual dev.ik ik then
      if report then do
        let _ ← Txn.lift (identityFingerprint desc ik)
        Txn.fail .keyChanged
      else Txn.fail .keyChanged
    else return dev
  -- first contact: the key is pinned as it comes
  | none => do
    let fp ← Txn.lift (identityFingerprint desc ik)
    return gyDeviceRecordInit desc.suiteId deviceId ik fp

/-- Delete the device that made room for another, if one did. -/
def deleteEvictedDevice (userId : Bytes β) : Option (Bytes β) → OpM β Unit
  | some ev => deferDeleteDeviceInner userId ev
  | none => pure ()

/-- The user record of a peer, with the device in its index. -/
def indexDevice (desc : SuiteDesc β) (userId deviceId : Bytes β) : OpM β (UserRecord β) := do
  let usr := (← gyOpLoadUser userId).getD (gyUserRecordInit desc.suiteId userId)
  if usr.hasDevice deviceId then return usr
  else do
    let (usr, evicted) ← Txn.lift (gyUserDeviceInsert usr deviceId)
    deleteEvictedDevice userId evicted
    return usr

/-- The body shared by `gy_conditional_update` and `gy_hybrid_conditional_update`: create the
device and user records of a peer, or check them against its identity key. -/
def conditionalUpdateOf (isHybrid report : Bool) (desc : SuiteDesc β) (userId deviceId : Bytes β)
    (ik : Identity β) : OpM β Unit :=
  if !idsOk userId deviceId then Txn.fail .arg
  else if ik.curve.curveType ≠ desc.curveType then Txn.fail .state
  else do
    let dk ← Txn.lift (gyDevrecKey userId deviceId)
    let dev ← pinDevice isHybrid report desc deviceId ik dk
    let usr ← indexDevice desc userId deviceId
    gyOpPutDevice dev dk
    gyOpPutUser usr

/-- `gy_conditional_update`. -/
def gyConditionalUpdate (report : Bool) (desc : SuiteDesc β) (userId deviceId : Bytes β)
    (ik : PublicKey β) : OpM β Unit :=
  conditionalUpdateOf false report desc userId deviceId ik.identity

/-- `gy_hybrid_conditional_update`. -/
def gyHybridConditionalUpdate (report : Bool) (desc : SuiteDesc β) (userId deviceId : Bytes β)
    (ik : HybridIdentity β) : OpM β Unit :=
  if !desc.isHybrid then Txn.fail .arg
  else conditionalUpdateOf true report desc userId deviceId ik.identity

/-- The body shared by `gy_accept_key_change` and `gy_hybrid_accept_key_change`: delete every
session of the old key and store a fresh record under the new one. -/
def acceptKeyChangeOf (isHybrid : Bool) (desc : SuiteDesc β) (userId deviceId : Bytes β)
    (ik : Identity β) : OpM β Unit :=
  if !idsOk userId deviceId then Txn.fail .arg
  else if ik.curve.curveType ≠ desc.curveType then Txn.fail .state
  else do
    let dk ← Txn.lift (gyDevrecKey userId deviceId)
    match ← gyOpLoadDeviceOf isHybrid dk with
    | none => Txn.fail .state
    | some dev =>
      if dev.suiteId ≠ desc.suiteId then Txn.fail .state
      else do
        -- the sessions under the old key go first
        deleteSessions dev.sessions
        let fp ← Txn.lift (identityFingerprint desc ik)
        gyOpPutDevice (gyDeviceRecordInit desc.suiteId deviceId ik fp) dk

/-- `gy_accept_key_change`. -/
def gyAcceptKeyChange (desc : SuiteDesc β) (userId deviceId : Bytes β) (ik : PublicKey β) :
    OpM β Unit :=
  acceptKeyChangeOf false desc userId deviceId ik.identity

/-- `gy_hybrid_accept_key_change`. -/
def gyHybridAcceptKeyChange (desc : SuiteDesc β) (userId deviceId : Bytes β)
    (ik : HybridIdentity β) : OpM β Unit :=
  if !desc.isHybrid then Txn.fail .arg
  else acceptKeyChangeOf true desc userId deviceId ik.identity

/-! ## Sessions of a device -/

/-- Delete the session that made room for another, if one did. -/
def deleteEvictedSession : Option (Bytes β) → OpM β Unit
  | some ev => gyOpDelete (.session ev)
  | none => pure ()

/-- `gy_device_insert_session`. -/
def gyDeviceInsertSession (userId deviceId id : Bytes β) : OpM β Unit := do
  let dk ← Txn.lift (gyDevrecKey userId deviceId)
  match ← gyOpLoadDeviceAny dk with
  | none => Txn.fail .state
  | some dev => do
    let (dev, evicted) ← Txn.lift (gyDeviceSessionInsert dev id)
    deleteEvictedSession evicted
    gyOpPutDevice dev dk

/-- `gy_device_activate_session`. -/
def gyDeviceActivateSession (userId deviceId id : Bytes β) : OpM β Unit := do
  let dk ← Txn.lift (gyDevrecKey userId deviceId)
  match ← gyOpLoadDeviceAny dk with
  | none => Txn.fail .state
  | some dev => do
    let dev ← Txn.lift (gyDeviceSessionActivate dev id)
    gyOpPutDevice dev dk

/-! ## Deletion -/

/-- `gy_delete_device`. -/
def gyDeleteDevice (userId deviceId : Bytes β) : OpM β Unit :=
  if !idsOk userId deviceId then Txn.fail .arg
  else do
    deferDeleteDeviceInner userId deviceId
    match ← gyOpLoadUser userId with
    | none => pure ()
    | some usr =>
      match gyUserDeviceRemove usr deviceId with
      | none => pure ()
      | some usr => gyOpPutUser usr

/-- The per-device transactions of `gy_delete_user`, up to the first that fails. -/
def deleteDevices (userId : Bytes β) (faults : List (Faults β)) :
    List (Bytes β) → Disk β → Except GyErr Unit × Disk β
  | [], d => (.ok (), d)
  | did :: rest, d =>
    match d.transact (faults.headD Faults.none) (deferDeleteDeviceInner userId did) with
    | (.error e, d') => (.error e, d')
    | (.ok (), d') => deleteDevices userId faults.tail rest d'

/-- `gy_delete_user`: one transaction for each device, then one for the user record. The faults
are those of the transactions in turn. -/
def gyDeleteUser (faults : List (Faults β)) (userId : Bytes β) (d : Disk β) :
    Except GyErr Unit × Disk β :=
  if userId.length = 0 ∨ userIdMax < userId.length then (.error .arg, d)
  else
    match (gyOpLoadUser userId).run engine (d.view (faults.headD Faults.none).load) Op.empty with
    | (.error e, _) => (.error e, d)
    | (.ok none, _) => (.ok (), d)
    | (.ok (some usr), _) =>
      -- each device is a transaction of its own, the user record goes last
      match deleteDevices userId faults.tail (usr.devices.map DeviceEntry.id) d with
      | (.error e, d') => (.error e, d')
      | (.ok (), d') =>
        d'.transact (faults.getD (usr.devices.length + 1) Faults.none) (gyOpDelete (.user userId))

end Geryon
