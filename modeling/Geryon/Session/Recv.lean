import Geryon.Session.Send

/-!
# The receive path

`session/recv.c`: an initiation message is routed to an existing session by its identifier or opens
a new session after the handshake and its first frame have verified; a ratchet message is tried
against the sender's sessions in list order.
-/

namespace Geryon

/-- `GY_MSG_INIT`. -/
def msgInit : UInt8 := 1

/-- `GY_MSG_DR`. -/
def msgDr : UInt8 := 2

variable {β : Type} [Octet β] [DecidableEq β] [Sodium β]

/-- What a receiver needs: `struct gy_recv_ctx`, less its operation and the one-time prekeys.
`now` is the reading of the clock, if there is one. The expiry configuration the source keeps here
is read by no receive function. -/
structure RecvCtx (β : Type) where
  desc : SuiteDesc β
  localIk : Option (CurvePair β)
  spks : List (CurvePair β)
  aeadId : UInt8
  now : Option UInt64

/-- `sess_decrypt`: the result, whether the header opened, and the session afterwards. -/
def sessDecrypt (rnd : RatchetRand β) (cap : Nat) (frame : Bytes β) (s : Session β) :
    (Except GyErr (Bytes β) × Bool) × Session β :=
  if s.desc.isHybrid then
    match gyHybridDrDecryptAssoc s.desc rnd cap frame s.ad s.ratchet with
    | ((.ok pt, m), r) => ((.ok pt, m), { s with ratchet := r, pqPending := r.pqState })
    | ((.error e, m), r) => ((.error e, m), { s with ratchet := r })
  else
    let (res, b) := gyDrDecryptAssoc s.desc rnd cap frame s.ad s.ratchet.base
    (res, { s with ratchet := { s.ratchet with base := b } })

/-- `last_recv_at` after a receive. -/
def RecvCtx.stamp (c : RecvCtx β) (s : Session β) : UInt64 := c.now.getD s.lastRecvAt

/-- The activation of a session that was inactive. -/
def activateIf (fromInactive : Bool) (userId deviceId id : Bytes β) : OpM β Unit :=
  if fromInactive then gyDeviceActivateSession userId deviceId id else pure ()

/-- `try_session`. A session that does not own the message returns the reason as a value, for the
caller to go on; a session that owns it returns the plaintext or fails. -/
def trySession (c : RecvCtx β) (userId deviceId id : Bytes β) (fromInactive : Bool)
    (frame : Bytes β) (cap : Nat) (rnd : RatchetRand β) : OpM β (Except GyErr (Bytes β)) := do
  match ← gyOpTryLoadSession id with
  | .error e => return .error e
  -- a session the device still names but the store lost
  | .ok none => return .error .verify
  | .ok (some s) =>
    match sessDecrypt rnd cap frame s with
    | ((_, false), _) => return .error .verify
    -- the header opened, so no other session is to be tried
    | ((.error _, true), _) => Txn.fail .verify
    | ((.ok pt, true), s) => do
      gyOpPutSession { s with nrecv := s.nrecv + 1, lastRecvAt := c.stamp s }
      -- an inactive session that decrypts becomes the active one
      activateIf fromInactive userId deviceId id
      return .ok pt

/-! ## Ratchet messages -/

/-- The inactive sessions in list order, up to the one that owns the message. -/
def tryInactive (c : RecvCtx β) (userId deviceId frame : Bytes β) (cap : Nat)
    (rnd : RatchetRand β) : List (Bytes β) → OpM β (Bytes β)
  | [] => Txn.fail .verify
  | id :: rest => do
    match ← trySession c userId deviceId id true frame cap rnd with
    | .ok pt => return pt
    | .error _ => tryInactive c userId deviceId frame cap rnd rest

/-- `recv_dr`: the active session first, then the inactive ones. -/
def recvDr (c : RecvCtx β) (userId deviceId frame : Bytes β) (cap : Nat) (rnd : RatchetRand β) :
    OpM β (Bytes β) := do
  let dk ← Txn.lift (gyDevrecKey userId deviceId)
  match ← gyOpLoadDeviceAny dk with
  | none => Txn.fail .verify
  | some dev =>
    match dev.active with
    | none => tryInactive c userId deviceId frame cap rnd dev.inactive
    | some id => do
      -- the active session first, then the inactive ones in order
      match ← trySession c userId deviceId id false frame cap rnd with
      | .ok pt => return pt
      | .error _ => tryInactive c userId deviceId frame cap rnd dev.inactive

/-! ## Initiations -/

/-- What an initiation message carries in the clear, and its first frame. -/
structure InitMsg (β : Type) where
  ik : Identity β
  ek : PublicKey β
  frame : Bytes β

/-- Consume the one-time prekey a handshake used, if it used one. -/
def consumeOpkRef : OpkRef → OpM β Unit
  | some pkid => gyOpConsumeOpk pkid
  | none => pure ()

/-- A new session once its handshake and first frame have verified: it is stored, inserted as the
active session of its device, and its one-time prekey is consumed. -/
def acceptFresh (c : RecvCtx β) (userId deviceId : Bytes β) (s : Session β) (opkRef : OpkRef) :
    OpM β Unit := do
  gyOpPutSession { s with nrecv := 1, lastRecvAt := c.stamp s }
  gyDeviceInsertSession userId deviceId s.id
  consumeOpkRef opkRef

/-- The body shared by `recv_init` and `hybrid_recv_init`. `respond` is the responder's handshake
over its signed prekeys, with the session it gives. -/
def recvInitOf (isHybrid : Bool) (c : RecvCtx β) (userId deviceId : Bytes β) (m : InitMsg β)
    (respond : Except GyErr (Session β × OpkRef)) (cap : Nat) (rnd : RatchetRand β) :
    OpM β (Bytes β) :=
  match gySessionBase c.desc m.ik.curve m.ek with
  | .error _ => Txn.fail .verify
  | .ok base => do
    let sid := sessionIdOf base
    let dk ← Txn.lift (gyDevrecKey userId deviceId)
    match (← gyOpLoadDeviceOf isHybrid dk).bind fun dev => sessionPosition dev sid with
    | some fromInactive => do
      -- a known identifier: the first frame belongs to that session
      Txn.lift (← trySession c userId deviceId sid fromInactive m.frame cap rnd)
    | none => do
      conditionalUpdateOf isHybrid false c.desc userId deviceId m.ik
      match respond with
      | .error _ => Txn.fail .verify
      | .ok (s, opkRef) =>
        match sessDecrypt rnd cap m.frame { s with base := base, id := sid } with
        | ((.error _, _), _) => Txn.fail .verify
        | ((.ok pt, _), s) => do
          acceptFresh c userId deviceId s opkRef
          return pt

/-- The first signed prekey that answers a handshake. -/
def firstAnswer {κ α : Type} (answer : κ → Except GyErr α) : List κ → Option (κ × α)
  | [] => none
  | k :: rest =>
    match answer k with
    | .ok a => some (k, a)
    | .error _ => firstAnswer answer rest

/-- The handshake of `recv_init`. -/
def respondSession (c : RecvCtx β) (opks : OpkPool β) (inner : Bytes β) :
    Except GyErr (Session β × OpkRef) :=
  match c.localIk with
  | none => .error .verify
  | some ik =>
    match firstAnswer (fun spk => gyX3dhRespond c.desc ⟨ik, spk, opks.classical⟩ inner) c.spks with
    | none => .error .verify
    | some (spk, r) =>
      .ok (Session.start c.desc (gyDrInitBob c.aeadId r.secrets spk.keypair).record r.ad
        .classicalOnly, r.opkRef)

/-- The keys and the first frame of a classical initial message (`parse_base_keys` and the length
checks of `recv_init`). -/
def parseInit (desc : SuiteDesc β) (inner : Bytes β) : Option (InitMsg β) :=
  let n := x3dhPrefixLen desc
  let ctlen := (be32Get (inner.drop (n - 4))).toNat
  if inner.length < n then none
  else if ctlen = 0 ∨ inner.length < n + ctlen then none
  else
    some ⟨({ parsePubkey desc (inner.drop 2) with pkid := 0 } : PublicKey β).identity,
      { parsePubkey desc (inner.drop (2 + pubkeyWire desc)) with pkid := 0 },
      (inner.drop n).take ctlen⟩

/-- `recv_init`. -/
def recvInit (c : RecvCtx β) (opks : OpkPool β) (userId deviceId inner : Bytes β) (cap : Nat)
    (rnd : RatchetRand β) : OpM β (Bytes β) :=
  match parseInit c.desc inner with
  | none => Txn.fail .verify
  | some m => recvInitOf false c userId deviceId m (respondSession c opks inner) cap rnd

/-- The handshake of `hybrid_recv_init`. -/
def respondHybridSession (c : RecvCtx β) (hik : HybridIdentityPair β)
    (hspks : List (HybridSignedPrekey β)) (opks : OpkPool β) (idEk inner : Bytes β) :
    Except GyErr (Session β × OpkRef) :=
  match firstAnswer (fun spk : HybridSignedPrekey β =>
      gyHybridX3dhRespond c.desc ⟨hik, spk.kp, spk.flags, opks.hybrid⟩ inner) hspks with
  | none => .error .verify
  | some (spk, r) =>
    match gyHybridDrInitBob c.desc (flagAead r.flag) r.secrets spk.kp.keypair (flagInterval r.flag)
      idEk with
    -- a failure after the handshake is no different to the caller
    | .error _ => .error .verify
    | .ok dr => .ok (Session.start c.desc dr r.ad .classicalOnly, r.opkRef)

/-- The keys and the first frame of a hybrid initial message (`hybrid_parse_base_keys`). -/
def parseHybridInit (desc : SuiteDesc β) (inner : Bytes β) :
    Option (HybridIdentity β × InitMsg β) :=
  let n := hybridPrefixLen desc
  if inner.length ≤ n then none
  else
    let ik := parseHybridIdentity desc (inner.drop 2)
    some (ik, ⟨ik.identity, parsePubkey desc (inner.drop (2 + hybridIkWire desc)), inner.drop n⟩)

/-- `hybrid_recv_init`. -/
def hybridRecvInit (c : RecvCtx β) (hik : HybridIdentityPair β)
    (hspks : List (HybridSignedPrekey β)) (opks : OpkPool β) (userId deviceId inner : Bytes β)
    (cap : Nat) (rnd : RatchetRand β) : OpM β (Bytes β) :=
  match parseHybridInit c.desc inner with
  | none => Txn.fail .verify
  | some (ik, m) =>
    recvInitOf true c userId deviceId m
      (respondHybridSession c hik hspks opks ik.base.mlkemEk inner) cap rnd

/-! ## Entry -/

/-- The envelope checks of `recv_process` and `gy_hybrid_recv`: the message type and the inner
message. -/
def openEnvelope (desc : SuiteDesc β) (msg : Bytes β) : Option (UInt8 × Bytes β) :=
  let inner := msg.drop 3
  if msg.length < 3 then none
  else if octetAt msg 0 ≠ wireVersion ∨ octetAt msg 1 ≠ desc.suiteId then none
  else if inner.length < 2 ∨ octetAt inner 0 ≠ octetAt msg 0 ∨ octetAt inner 1 ≠ octetAt msg 1 then
    none
  else some (octetAt msg 2, inner)

/-- `gy_recv`, up to its commit. -/
def gyRecv (c : RecvCtx β) (opks : OpkPool β) (userId deviceId msg : Bytes β) (cap : Nat)
    (rnd : RatchetRand β) : OpM β (Bytes β) :=
  match openEnvelope c.desc msg with
  | none => Txn.fail .verify
  | some (type, inner) =>
    if type = msgInit then recvInit c opks userId deviceId inner cap rnd
    else if type = msgDr then recvDr c userId deviceId inner cap rnd
    else Txn.fail .verify

/-- `gy_hybrid_recv`, up to its commit. -/
def gyHybridRecv (c : RecvCtx β) (hik : HybridIdentityPair β) (hspks : List (HybridSignedPrekey β))
    (opks : OpkPool β) (userId deviceId msg : Bytes β) (cap : Nat) (rnd : RatchetRand β) :
    OpM β (Bytes β) :=
  if hspks = [] then Txn.fail .arg
  else
    match openEnvelope c.desc msg with
    | none => Txn.fail .verify
    | some (type, inner) =>
      -- the two message types of the envelope
      if type = msgInit then hybridRecvInit c hik hspks opks userId deviceId inner cap rnd
      else if type = msgDr then recvDr c userId deviceId inner cap rnd
      else Txn.fail .verify

end Geryon
