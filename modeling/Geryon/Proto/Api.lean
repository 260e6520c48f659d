import Geryon.Session.Recv

/-!
# The protocol calls of a custodian

`proto/api.c` on an unlocked custodian with an identity: the send transaction, the receive call and
the management of peer records. A send transaction holds its staged operation between calls; the
other calls use an operation of their own and commit at once.

A call takes what the environment supplies: random input, the clock, and which store callbacks
fail. A bundle arrives parsed.
-/

namespace Geryon

/-- `GY_ENVELOPE_HDR_LEN`. -/
def envelopeHdrLen : Nat := 3

/-- `GY_HYBRID_MLKEM_INTERVAL`. -/
def hybridMlkemInterval : UInt32 := 20

/-- What does not change while a custodian is open, for either suite family. -/
structure Custodian (β : Type) where
  desc : SuiteDesc β
  ik : CurvePair β
  spks : List (CurvePair β)
  hik : HybridIdentityPair β
  hspks : List (HybridSignedPrekey β)
  aeadId : UInt8
  expiry : ExpiryCfg
  selfUserId : Bytes β
  selfDeviceId : Bytes β

/-- The send context of a custodian. -/
def Custodian.send {β : Type} (c : Custodian β) : SendCtx β :=
  ⟨c.desc, if c.desc.isHybrid then none else some c.ik, c.aeadId, c.expiry, c.selfUserId,
    c.selfDeviceId⟩

/-- The receive context of a custodian at a clock reading. -/
def Custodian.recv {β : Type} (c : Custodian β) (now : Option UInt64) : RecvCtx β :=
  if c.desc.isHybrid then ⟨c.desc, none, [], c.aeadId, now⟩
  else ⟨c.desc, some c.ik, c.spks, c.aeadId, now⟩

/-- What the bundle parsers made of the bytes of a bundle. -/
inductive ParsedBundle (β : Type) where
  | malformed (e : GyErr)
  | classical (b : PrekeyBundle β)
  | hybrid (b : HybridPrekeyBundle β)

/-- The state the protocol calls act on: what is persisted, and the open send transaction. -/
structure ApiState (β : Type) where
  disk : Disk β
  tx : Option (Op β)

variable {β : Type} [Octet β] [DecidableEq β] [Sodium β] (c : Custodian β)

/-- `frame_envelope`. -/
def frameEnvelope (msgType : UInt8) (inner : Bytes β) : Bytes β :=
  gyFramePut c.desc.suiteId ++ Octet.ofByte msgType :: inner

/-! ## Sending -/

/-- `gy_send_open`. -/
def gySendOpen (st : ApiState β) : Except GyErr Unit × ApiState β :=
  match st.tx with
  | some _ => (.error .state, st)
  | none => (.ok (), { st with tx := some Op.empty })

/-- Run a program in the open send transaction; without one it is refused. -/
def ApiState.inTx {α : Type} (st : ApiState β) (fault : RecKey β → Option GyErr) (p : OpM β α) :
    Except GyErr α × ApiState β :=
  match st.tx with
  | none => (.error .state, st)
  | some op =>
    let (res, op) := p.run engine (st.disk.view fault) op
    (res, { st with tx := some op })

/-- `gy_prepare`. -/
def gyPrepare (fault : RecKey β → Option GyErr) (targets : List (Bytes β)) (cap : Nat)
    (st : ApiState β) : Except GyErr (List (SendDesc β)) × ApiState β :=
  st.inTx fault (gySendPrepare c.send targets cap)

/-- Run the program of a send call in the open transaction, once its arguments are in order. -/
def ApiState.sendTx (st : ApiState β) (fault : RecKey β → Option GyErr)
    (p : Except GyErr (OpM β (Bytes β))) : Except GyErr (Bytes β) × ApiState β :=
  match p with
  | .error e => (.error e, st)
  | .ok p => st.inTx fault p

/-- The program of `gy_encrypt` into a buffer of `cap` bytes. -/
def encryptProg (userId deviceId pt : Bytes β) (cap : Nat) (salt : Except GyErr (Bytes β)) :
    Except GyErr (OpM β (Bytes β)) :=
  if cap < envelopeHdrLen then .error .arg
  else .ok do
    let inner ← gySendEncrypt c.send userId deviceId pt (cap - envelopeHdrLen) salt
    return frameEnvelope c msgDr inner

/-- `gy_encrypt`. -/
def gyEncrypt (fault : RecKey β → Option GyErr) (userId deviceId pt : Bytes β) (cap : Nat)
    (salt : Except GyErr (Bytes β)) (st : ApiState β) : Except GyErr (Bytes β) × ApiState β :=
  st.sendTx fault (encryptProg c userId deviceId pt cap salt)

/-- The program of `gy_initiate` and `gy_reinitiate`. -/
def initiateProg (report : Bool) (userId deviceId : Bytes β) (bundle : ParsedBundle β)
    (pt : Bytes β) (cap : Nat) (rnd : InitiateRand β) : Except GyErr (OpM β (Bytes β)) :=
  match bundle with
  | .malformed e => .error e
  | .classical b =>
    -- the bundle must be of the custodian's own kind
    if c.desc.isHybrid ∨ cap < envelopeHdrLen then .error .arg
    else .ok do
      let inner ← gySendInitiate c.send report userId deviceId b pt (cap - envelopeHdrLen) rnd
      return frameEnvelope c msgInit inner
  | .hybrid b =>
    if !c.desc.isHybrid ∨ cap < envelopeHdrLen then .error .arg
    else .ok do
      let inner ← gySendInitiateHybrid c.send report c.hik hybridMlkemInterval userId deviceId b pt
        (cap - envelopeHdrLen) rnd
      return frameEnvelope c msgInit inner

/-- `gy_initiate` and `gy_reinitiate`. -/
def gyInitiate (fault : RecKey β → Option GyErr) (report : Bool) (userId deviceId : Bytes β)
    (bundle : ParsedBundle β) (pt : Bytes β) (cap : Nat) (rnd : InitiateRand β) (st : ApiState β) :
    Except GyErr (Bytes β) × ApiState β :=
  st.sendTx fault (initiateProg c report userId deviceId bundle pt cap rnd)

/-- `gy_commit`. -/
def gyCommit (fault : Option CommitFault) (st : ApiState β) : Except GyErr Unit × ApiState β :=
  match st.tx with
  | none => (.error .state, st)
  | some op =>
    let (res, disk) := gyOpCommit fault op st.disk
    (res, ⟨disk, none⟩)

/-- `gy_rollback`. -/
def gyRollback (st : ApiState β) : ApiState β := { st with tx := none }

/-! ## Receiving and managing peers -/

/-- A call with an operation of its own. -/
def ApiState.alone {α : Type} (st : ApiState β) (faults : Faults β) (p : OpM β α) :
    Except GyErr α × ApiState β :=
  let (res, disk) := st.disk.transact faults p
  (res, { st with disk := disk })

/-- The program of `gy_receive`. -/
def receiveProg (now : Option UInt64) (opks : OpkPool β) (userId deviceId msg : Bytes β)
    (cap : Nat) (rnd : RatchetRand β) : OpM β (Bytes β) :=
  if c.desc.isHybrid then gyHybridRecv (c.recv now) c.hik c.hspks opks userId deviceId msg cap rnd
  else gyRecv (c.recv now) opks userId deviceId msg cap rnd

/-- `gy_receive`. -/
def gyReceive (faults : Faults β) (now : Option UInt64) (userId deviceId msg : Bytes β) (cap : Nat)
    (rnd : RatchetRand β) (st : ApiState β) : Except GyErr (Bytes β) × ApiState β :=
  st.alone faults (receiveProg c now st.disk.opks userId deviceId msg cap rnd)

/-- The program of `gy_accept_identity`. -/
def acceptProg (userId deviceId : Bytes β) (bundle : ParsedBundle β) : OpM β Unit :=
  match bundle with
  | .malformed e => Txn.fail e
  | .classical b =>
    if c.desc.isHybrid then Txn.fail .arg else gyAcceptKeyChange c.desc userId deviceId b.ik
  | .hybrid b =>
    if c.desc.isHybrid then gyHybridAcceptKeyChange c.desc userId deviceId b.ik else Txn.fail .arg

/-- `gy_accept_identity`. -/
def gyAcceptIdentity (faults : Faults β) (userId deviceId : Bytes β) (bundle : ParsedBundle β)
    (st : ApiState β) : Except GyErr Unit × ApiState β :=
  st.alone faults (acceptProg c userId deviceId bundle)

/-- `gy_purge_device`. -/
def gyPurgeDevice (faults : Faults β) (userId deviceId : Bytes β) (st : ApiState β) :
    Except GyErr Unit × ApiState β :=
  st.alone faults (gyDeleteDevice userId deviceId)

/-- `gy_purge_user`. -/
def gyPurgeUser (faults : List (Faults β)) (userId : Bytes β) (st : ApiState β) :
    Except GyErr Unit × ApiState β :=
  let (res, disk) := gyDeleteUser faults userId st.disk
  (res, { st with disk := disk })

/-! ## Runs -/

/-- A call on a custodian, with everything the environment supplies to it. -/
inductive Call (β : Type) where
  | sendOpen
  | prepare (fault : RecKey β → Option GyErr) (targets : List (Bytes β)) (cap : Nat)
  | encrypt (fault : RecKey β → Option GyErr) (userId deviceId pt : Bytes β) (cap : Nat)
      (salt : Except GyErr (Bytes β))
  | initiate (fault : RecKey β → Option GyErr) (report : Bool) (userId deviceId : Bytes β)
      (bundle : ParsedBundle β) (pt : Bytes β) (cap : Nat) (rnd : InitiateRand β)
  | commit (fault : Option CommitFault)
  | rollback
  | receive (faults : Faults β) (now : Option UInt64) (userId deviceId msg : Bytes β) (cap : Nat)
      (rnd : RatchetRand β)
  | acceptIdentity (faults : Faults β) (userId deviceId : Bytes β) (bundle : ParsedBundle β)
  | purgeDevice (faults : Faults β) (userId deviceId : Bytes β)
  | purgeUser (faults : List (Faults β)) (userId : Bytes β)

/-- What a call hands back on success. -/
inductive Reply (β : Type) where
  | ok
  | descs (l : List (SendDesc β))
  | ciphertext (b : Bytes β)
  | plaintext (b : Bytes β)

/-- One call. -/
def ApiState.step (st : ApiState β) : Call β → Except GyErr (Reply β) × ApiState β
  | .sendOpen => let (r, st) := gySendOpen st; (r.map fun _ => .ok, st)
  | .prepare fault targets cap =>
    let (r, st) := gyPrepare c fault targets cap st; (r.map .descs, st)
  | .encrypt fault userId deviceId pt cap salt =>
    let (r, st) := gyEncrypt c fault userId deviceId pt cap salt st; (r.map .ciphertext, st)
  | .initiate fault report userId deviceId bundle pt cap rnd =>
    let (r, st) := gyInitiate c fault report userId deviceId bundle pt cap rnd st
    (r.map .ciphertext, st)
  | .commit fault => let (r, st) := gyCommit fault st; (r.map fun _ => .ok, st)
  | .rollback => (.ok .ok, gyRollback st)
  | .receive faults now userId deviceId msg cap rnd =>
    let (r, st) := gyReceive c faults now userId deviceId msg cap rnd st; (r.map .plaintext, st)
  | .acceptIdentity faults userId deviceId bundle =>
    let (r, st) := gyAcceptIdentity c faults userId deviceId bundle st; (r.map fun _ => .ok, st)
  | .purgeDevice faults userId deviceId =>
    let (r, st) := gyPurgeDevice faults userId deviceId st; (r.map fun _ => .ok, st)
  | .purgeUser faults userId =>
    let (r, st) := gyPurgeUser faults userId st; (r.map fun _ => .ok, st)

/-- A run of calls. -/
def ApiState.run (st : ApiState β) (calls : List (Call β)) : ApiState β :=
  calls.foldl (fun st call => (st.step c call).2) st

/-- A custodian that knows no peers. -/
def ApiState.fresh (opks : OpkPool β) : ApiState β := ⟨⟨fun _ => none, opks⟩, none⟩

end Geryon
