import Geryon.Kex.X3dh

/-!
# Session, device and user records

The record model of `session/session.h` and the list operations of `session/session.c`: session
identifiers, the active and inactive sessions of a device, the device index of a user.

Fixed-capacity arrays with a count are lists of that length. A record crosses the store boundary as
an encoded blob; the model stores the record itself.
-/

namespace Geryon

/-- `GY_SESSION_ID_LEN`. -/
def sessionIdLen : Nat := 4

/-- `GY_SESSION_INACTIVE_MAX`. -/
def sessionInactiveMax : Nat := 40

/-- `GY_DEVICE_MAX`. -/
def deviceMax : Nat := 32

/-- `GY_USER_ID_MAX`. -/
def userIdMax : Nat := 64

/-- `GY_DEVICE_ID_MAX`. -/
def deviceIdMax : Nat := 64

/-- `struct gy_session`. A classical session uses only the classical part of the ratchet. -/
structure Session (β : Type) where
  desc : SuiteDesc β
  ratchet : HybridState β
  id : Bytes β
  base : Bytes β
  pqPending : PqState
  ad : Bytes β
  lastRecvAt : UInt64
  nsend : UInt32
  nrecv : UInt32

/-- A peer's identity key: its curve key and, in hybrid suites, its ML-KEM and ML-DSA keys. -/
structure Identity (β : Type) where
  curve : PublicKey β
  pq : Option (Bytes β × Bytes β)
  deriving DecidableEq

/-- A classical identity. -/
def PublicKey.identity {β : Type} (k : PublicKey β) : Identity β := ⟨k, none⟩

/-- A hybrid identity. -/
def HybridIdentity.identity {β : Type} (k : HybridIdentity β) : Identity β :=
  ⟨k.base.curve, some (k.base.mlkemEk, k.mldsaPk)⟩

/-- `struct gy_device_record` and `struct gy_hybrid_device_record`, told apart by the identity. -/
structure DeviceRecord (β : Type) where
  suiteId : UInt8
  deviceId : Bytes β
  ik : Identity β
  fingerprint : Bytes β
  active : Option (Bytes β)
  inactive : List (Bytes β)
  deriving DecidableEq

/-- An entry of a user's device index: the identifier and the mirrored stale flag. -/
structure DeviceEntry (β : Type) where
  id : Bytes β
  stale : Bool
  deriving DecidableEq

/-- `struct gy_user_record`. -/
structure UserRecord (β : Type) where
  suiteId : UInt8
  userId : Bytes β
  devices : List (DeviceEntry β)
  deriving DecidableEq

variable {β : Type} [Octet β]

/-! ## Session identifiers -/

/-- The base hash of `gy_session_id`: suite, initiator identity and ephemeral key. -/
def gySessionBase (desc : SuiteDesc β) (ikA ekA : PublicKey β) : Except GyErr (Bytes β) :=
  if ikA.curveType ≠ desc.curveType ∨ ekA.curveType ≠ desc.curveType then .error .state
  else do
    let a ← gyEncodeEc ikA.curveType ikA.pk
    let b ← gyEncodeEc ekA.curveType ekA.pk
    desc.hash (Octet.ofByte desc.suiteId :: (a ++ b))

/-- The identifier of a base hash: its first four bytes. -/
def sessionIdOf (base : Bytes β) : Bytes β := base.take sessionIdLen

/-- `gy_session_id`. -/
def gySessionId (desc : SuiteDesc β) (ikA ekA : PublicKey β) (s : Session β) :
    Except GyErr (Session β) := do
  let base ← gySessionBase desc ikA ekA
  return { s with base := base, id := sessionIdOf base }

section Lists

variable [DecidableEq β]

/-! ## Sessions of a device -/

/-- The session identifiers a device record holds, in the order they are tried. -/
def DeviceRecord.sessions (d : DeviceRecord β) : List (Bytes β) := d.active.toList ++ d.inactive

/-- `inactive_push_head`: the list with a new head, and the tail that was pushed out, if any. -/
def inactivePushHead (l : List (Bytes β)) (id : Bytes β) : List (Bytes β) × Option (Bytes β) :=
  if l.length = sessionInactiveMax then (id :: l.dropLast, l.getLast?) else (id :: l, none)

/-- `gy_device_session_insert`: the record with a new active session, and the evicted session. -/
def gyDeviceSessionInsert (d : DeviceRecord β) (id : Bytes β) :
    Except GyErr (DeviceRecord β × Option (Bytes β)) :=
  if id ∈ d.sessions then .error .state
  else
    match d.active with
    | none => .ok ({ d with active := some id }, none)
    | some a =>
      let (l, ev) := inactivePushHead d.inactive a
      .ok ({ d with active := some id, inactive := l }, ev)

/-- `gy_device_session_activate`: move an inactive session to the active slot. -/
def gyDeviceSessionActivate (d : DeviceRecord β) (id : Bytes β) :
    Except GyErr (DeviceRecord β) :=
  if id ∉ d.inactive then .error .state
  else
    let rest := d.inactive.erase id
    match d.active with
    | none => .ok { d with active := some id, inactive := rest }
    | some a => .ok { d with active := some id, inactive := (inactivePushHead rest a).1 }

/-- `session_position`: whether an identifier is the active session, an inactive one, or absent. -/
def sessionPosition (d : DeviceRecord β) (id : Bytes β) : Option Bool :=
  if d.active = some id then some false else if id ∈ d.inactive then some true else none

/-! ## Devices of a user -/

/-- `gy_user_device_index`, as a membership test. -/
def UserRecord.hasDevice (u : UserRecord β) (deviceId : Bytes β) : Bool :=
  u.devices.any fun e => e.id = deviceId

/-- `gy_user_device_insert`: the record with a new device, and the stale device that made room. -/
def gyUserDeviceInsert (u : UserRecord β) (deviceId : Bytes β) :
    Except GyErr (UserRecord β × Option (Bytes β)) :=
  if deviceId.length = 0 ∨ deviceIdMax < deviceId.length then .error .arg
  else if u.hasDevice deviceId then .error .state
  else if u.devices.length = deviceMax then
    -- a full list makes room by dropping its first stale device
    match u.devices.find? DeviceEntry.stale with
    | none => .error .state
    | some e =>
      .ok ({ u with
        devices := u.devices.eraseP DeviceEntry.stale ++ [⟨deviceId, false⟩] }, some e.id)
  else .ok ({ u with devices := u.devices ++ [⟨deviceId, false⟩] }, none)

/-- `gy_user_device_remove`; `none` when the device is not in the index. -/
def gyUserDeviceRemove (u : UserRecord β) (deviceId : Bytes β) : Option (UserRecord β) :=
  if u.hasDevice deviceId then
    some { u with devices := u.devices.eraseP fun e => e.id = deviceId }
  else none

end Lists

/-! ## Keys and initial records -/

/-- `gy_devrec_key`: the store key of a device record, from the user and device identifiers. -/
def gyDevrecKey [Sodium β] (userId deviceId : Bytes β) : Except GyErr (Bytes β) :=
  if userId.length = 0 ∨ userIdMax < userId.length ∨ deviceId.length = 0 ∨
      deviceIdMax < deviceId.length then .error .arg
  else .ok (Sodium.sha512 (ascii "geryon-devrec-key" ++ be32Put (UInt32.ofNat userId.length) ++
    userId ++ be32Put (UInt32.ofNat deviceId.length) ++ deviceId))

/-- `gy_device_record_init` and `gy_hybrid_device_record_init`. -/
def gyDeviceRecordInit (suiteId : UInt8) (deviceId : Bytes β) (ik : Identity β) (fp : Bytes β) :
    DeviceRecord β :=
  ⟨suiteId, deviceId, ik, fp, none, []⟩

/-- `gy_user_record_init`. -/
def gyUserRecordInit (suiteId : UInt8) (userId : Bytes β) : UserRecord β := ⟨suiteId, userId, []⟩

end Geryon
