import Geryon.Session.Lifecycle

/-!
# The send path

`session/send.c`: the fan-out enumeration, one encryption on a device's active session, and the
initiation of a session from a prekey bundle. Every mutation is staged.

Size queries (`out == NULL`) compute a constant and are left out.
-/

namespace Geryon

variable {β : Type} [Octet β] [DecidableEq β] [Sodium β]

/-- Run a command of either ratchet on a session, and mirror the confirmation state of a hybrid
ratchet on success. -/
def Session.onRatchet {α : Type} (s : Session β) (classical : Cmd GyErr (DrState β) α)
    (hybrid : Cmd GyErr (HybridState β) α) : Except GyErr α × Session β :=
  if s.desc.isHybrid then
    match hybrid s.ratchet with
    | (.ok a, r) => (.ok a, { s with ratchet := r, pqPending := r.pqState })
    | (.error e, r) => (.error e, { s with ratchet := r })
  else
    let (res, b) := classical s.ratchet.base
    (res, { s with ratchet := { s.ratchet with base := b } })

/-- `sess_encrypt`. -/
def sessEncrypt (cap : Nat) (pt : Bytes β) (salt : Except GyErr (Bytes β)) (s : Session β) :
    Except GyErr (Bytes β) × Session β :=
  s.onRatchet (gyDrEncrypt s.desc cap pt s.ad salt) (gyHybridDrEncrypt s.desc cap pt s.ad salt)

/-- What a sender needs: `struct gy_send_ctx`, less its operation. -/
structure SendCtx (β : Type) where
  desc : SuiteDesc β
  localIk : Option (CurvePair β)
  aeadId : UInt8
  expiry : ExpiryCfg
  selfUserId : Bytes β
  selfDeviceId : Bytes β

/-! ## Fan-out -/

/-- `enum gy_send_status`. -/
inductive SendStatus where
  | message | needsBundle | stale
  deriving DecidableEq, Repr

/-- `struct gy_send_desc`. -/
structure SendDesc (β : Type) where
  userId : Bytes β
  deviceId : Bytes β
  status : SendStatus
  deriving DecidableEq

/-- `classify_device`. -/
def classifyDevice (c : SendCtx β) (userId deviceId : Bytes β) : OpM β SendStatus := do
  let dk ← Txn.lift (gyDevrecKey userId deviceId)
  match (← gyOpLoadDeviceAny dk).bind DeviceRecord.active with
  | none => return .needsBundle
  | some id =>
    match ← gyOpLoadSession id with
    | none => return .needsBundle
    | some s => return if gySessionExpired c.expiry s then .stale else .message

/-- The devices of one target user in turn; `is_self_device` is skipped. -/
def prepareDevices (c : SendCtx β) (userId : Bytes β) :
    List (DeviceEntry β) → OpM β (List (SendDesc β))
  | [] => return []
  | e :: rest =>
    if c.selfUserId = userId ∧ c.selfDeviceId = e.id then prepareDevices c userId rest
    else do
      let st ← classifyDevice c userId e.id
      let more ← prepareDevices c userId rest
      return ⟨userId, e.id, st⟩ :: more

/-- The target users in turn; an unknown user contributes nothing. -/
def prepareTargets (c : SendCtx β) : List (Bytes β) → OpM β (List (SendDesc β))
  | [] => return []
  | userId :: rest => do
    let descs ← match ← gyOpLoadUser userId with
      | none => pure []
      | some usr => prepareDevices c userId usr.devices
    let more ← prepareTargets c rest
    return descs ++ more

/-- `gy_send_prepare` into an array of `cap` descriptors. -/
def gySendPrepare (c : SendCtx β) (targets : List (Bytes β)) (cap : Nat) :
    OpM β (List (SendDesc β)) := do
  let descs ← prepareTargets c targets
  if cap < descs.length then Txn.fail .arg else return descs

/-! ## Encryption -/

/-- `gy_send_encrypt`. -/
def gySendEncrypt (c : SendCtx β) (userId deviceId pt : Bytes β) (cap : Nat)
    (salt : Except GyErr (Bytes β)) : OpM β (Bytes β) := do
  let dk ← Txn.lift (gyDevrecKey userId deviceId)
  match (← gyOpLoadDeviceAny dk).bind DeviceRecord.active with
  | none => Txn.fail .state
  | some id =>
    match ← gyOpLoadSession id with
    | none => Txn.fail .state
    | some s =>
      -- expiry is tested before the ratchet moves
      if gySessionExpired c.expiry s then Txn.fail .expired
      else
        match sessEncrypt cap pt salt s with
        | (.error e, _) => Txn.fail e
        | (.ok ct, s) => do
          gyOpPutSession { s with nsend := s.nsend + 1 }
          return ct

/-! ## Initiation -/

/-- `emit_initial`: the handshake prefix and the first frame; a classical prefix ends in the frame's
length. -/
def emitInitial (pre : Bytes β) (patchLen : Bool) (pt : Bytes β) (cap : Nat)
    (salt : Except GyErr (Bytes β)) (s : Session β) : Except GyErr (Bytes β × Session β) :=
  if pre.length < 4 ∨ cap < pre.length then .error .arg
  else
    match sessEncrypt (cap - pre.length) pt salt s with
    | (.error e, _) => .error e
    | (.ok frame, s) =>
      let pre := if patchLen then
        pre.take (pre.length - 4) ++ be32Put (UInt32.ofNat frame.length) else pre
      .ok (pre ++ frame, { s with nsend := s.nsend + 1 })

/-- `finish_initiate`. -/
def finishInitiate (userId deviceId : Bytes β) (s : Session β) : OpM β Unit := do
  gyOpPutSession s
  gyDeviceInsertSession userId deviceId s.id

/-- The part shared by `send_initiate_core` and `gy_send_initiate_hybrid`: the peer's records are
created or checked, the handshake runs, its first frame is emitted and the session is stored. -/
def initiateWith (update : OpM β Unit) (handshake : Except GyErr (Bytes β × Session β))
    (patchLen : Bool) (userId deviceId pt : Bytes β) (cap : Nat) (salt : Except GyErr (Bytes β)) :
    OpM β (Bytes β) := do
  update
  let (pre, s) ← Txn.lift handshake
  let (msg, s) ← Txn.lift (emitInitial pre patchLen pt cap salt s)
  finishInitiate userId deviceId s
  return msg

/-- The random input of an initiation: the ephemeral pair, the encapsulation coins, the ratchet's
input and the header salt. -/
structure InitiateRand (β : Type) where
  ek : Except GyErr (CurvePair β)
  coins : HandshakeCoins β
  ratchet : RatchetRand β
  salt : Except GyErr (Bytes β)

/-- A session before its first frame. -/
def Session.start (desc : SuiteDesc β) (ratchet : HybridState β) (ad : Bytes β)
    (pqPending : PqState) : Session β :=
  ⟨desc, ratchet, [], [], pqPending, ad, 0, 0, 0⟩

/-- A classical ratchet in the record's hybrid layout. -/
def DrState.record (b : DrState β) : HybridState β := { HybridState.zero with base := b }

/-- The handshake of `send_initiate_core`: the wire prefix and the new session. -/
def initiateHandshake (c : SendCtx β) (localIk : CurvePair β) (bundle : PrekeyBundle β)
    (rnd : InitiateRand β) : Except GyErr (Bytes β × Session β) := do
  let ek ← rnd.ek
  let x ← gyX3dhInitiate c.desc localIk bundle ek
  let dr ← gyDrInitAlice c.desc c.aeadId x.secrets bundle.spk.pk rnd.ratchet.curve
  let s ← gySessionId c.desc localIk.pub ek.pub
    (Session.start c.desc dr.record x.ad .classicalOnly)
  return (x.wire, s)

/-- `send_initiate_core`, behind `gy_send_initiate` and `gy_session_reinitiate`. -/
def gySendInitiate (c : SendCtx β) (report : Bool) (userId deviceId : Bytes β)
    (bundle : PrekeyBundle β) (pt : Bytes β) (cap : Nat) (rnd : InitiateRand β) :
    OpM β (Bytes β) :=
  match c.localIk with
  | none => Txn.fail .state
  | some localIk =>
    initiateWith (gyConditionalUpdate report c.desc userId deviceId bundle.ik)
      (initiateHandshake c localIk bundle rnd) true userId deviceId pt cap rnd.salt

/-- `build_hybrid_flag`. -/
def buildHybridFlag (aeadPref : UInt8) (intervalPref : UInt32) (spkFlags : UInt64) : UInt32 :=
  let mn := spkFlags.toNat % 2 ^ 16
  let mx := spkFlags.toNat / 2 ^ 16 % 2 ^ 16
  let interval := min (max intervalPref.toNat mn) mx
  let aead := if aeadPref < 1 ∨ 3 < aeadPref ∨ spkFlags.toNat / 2 ^ (31 + aeadPref.toNat) % 2 = 0
    then 1 else aeadPref.toNat
  UInt32.ofNat (interval % 2 ^ 16 + aead * 2 ^ 16)

/-- The refresh interval of a flag word. -/
def flagInterval (flag : UInt32) : UInt32 := UInt32.ofNat (flag.toNat % 2 ^ 16)

/-- The AEAD of a flag word. -/
def flagAead (flag : UInt32) : UInt8 := UInt8.ofNat (flag.toNat / 2 ^ 16)

/-- The handshake of `gy_send_initiate_hybrid`. -/
def initiateHybridHandshake (c : SendCtx β) (localHik : HybridIdentityPair β)
    (mlkemInterval : UInt32) (bundle : HybridPrekeyBundle β) (rnd : InitiateRand β) :
    Except GyErr (Bytes β × Session β) := do
  -- the interval and the cipher are the initiator's choice within the offer
  let flag := buildHybridFlag c.aeadId mlkemInterval bundle.spkFlags
  let ek ← rnd.ek
  let x ← gyHybridX3dhInitiate c.desc localHik bundle ek flag rnd.coins
  let dr ← gyHybridDrInitAlice c.desc (flagAead flag) x.secrets bundle.spk.curve.pk
    bundle.spk.mlkemEk (flagInterval flag) localHik.mlkemDk rnd.ratchet
  let s ← gySessionId c.desc localHik.pub.base.curve ek.pub
    (Session.start c.desc dr x.ad dr.pqState)
  return (x.wire, s)

/-- `gy_send_initiate_hybrid`. -/
def gySendInitiateHybrid (c : SendCtx β) (report : Bool) (localHik : HybridIdentityPair β)
    (mlkemInterval : UInt32) (userId deviceId : Bytes β) (bundle : HybridPrekeyBundle β)
    (pt : Bytes β) (cap : Nat) (rnd : InitiateRand β) : OpM β (Bytes β) :=
  if !c.desc.isHybrid then Txn.fail .state
  else
    initiateWith (gyHybridConditionalUpdate report c.desc userId deviceId bundle.ik)
      (initiateHybridHandshake c localHik mlkemInterval bundle rnd) false userId deviceId pt cap
      rnd.salt

end Geryon
