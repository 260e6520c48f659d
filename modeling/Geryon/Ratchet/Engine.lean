import Geryon.Ratchet.Header
import Geryon.Ratchet.Kdf

/-!
# The ratchet engine

The encrypt and decrypt procedures that `ratchet/double_ratchet.c` and
`ratchet/hybrid_double_ratchet.c` share: wire frame, header encryption, skipped keys, chains and
commit after verify. An `Engine` says where the two differ: the header format, the extra state and
the ratchet step. `Double.lean` and `Hybrid.lean` instantiate it.

Decryption works on the live state for a skipped key and on a staged copy for everything else. The
model keeps that: the chain path is a command on a copy, whose leftovers are dropped on failure.

## Main results

* `Engine.decryptAssoc_error`: a decryption that fails leaves the state as it was.
-/

namespace Geryon

/-- The symmetric and curve state of a session (`struct gy_dr_state`). The descriptor pointer of the
C struct is a parameter of every function instead. -/
structure DrState (β : Type) where
  aeadId : UInt8
  dhs : Keypair β
  dhr : Bytes β
  rk : Bytes β
  cks : Bytes β
  ckr : Bytes β
  hks : Bytes β
  hkr : Bytes β
  nhks : Bytes β
  nhkr : Bytes β
  ns : UInt32
  nr : UInt32
  pn : UInt32
  haveDhr : Bool
  haveCks : Bool
  haveCkr : Bool
  haveHks : Bool
  haveHkr : Bool
  haveNhks : Bool
  haveNhkr : Bool
  skipped : SkipStore β

/-- The part of a session that the skip loop updates. -/
def DrState.recv {β : Type} (b : DrState β) : RecvChain β := ⟨b.skipped, b.ckr, b.nr⟩

/-- Put back the part of a session that the skip loop updates. -/
def DrState.withRecv {β : Type} (b : DrState β) (c : RecvChain β) : DrState β :=
  { b with skipped := c.store, ckr := c.ck, nr := c.nr }

/-- What the random source hands to one ratchet step: a curve key pair, a KEM key pair and the coins
of the two encapsulations. A generator may fail. -/
structure RatchetRand (β : Type) where
  curve : Except GyErr (Keypair β)
  kem : Except GyErr (Bytes β × Bytes β)
  coins : Bytes β
  confirmCoins : Bytes β

/-- What distinguishes the two ratchet engines. -/
structure Engine (β σ η : Type) where
  /-- The classical part of the state. -/
  base : σ → DrState β
  /-- Replace the classical part. -/
  withBase : DrState β → σ → σ
  base_withBase : ∀ b s, base (withBase b s) = b
  withBase_base : ∀ s, withBase (base s) s = s
  withBase_withBase : ∀ b c s, withBase b (withBase c s) = withBase b s
  /-- Longest session associated data. -/
  adMax : Nat
  /-- Size of the header plaintext buffer. -/
  headerMax : Nat
  /-- Whether an encrypted-header length is possible, given the tag length. -/
  encHeaderLenOk : Nat → Nat → Bool
  /-- The engine's own condition for sending. -/
  canSend : σ → Bool
  /-- The header of the next message. -/
  header : σ → η
  /-- Encode a header into a buffer. -/
  encode : η → Nat → Except GyErr (Bytes β)
  /-- Decode a decrypted header. -/
  decode : Bytes β → Except GyErr η
  ratchetPk : η → Bytes β
  pn : η → UInt32
  n : η → UInt32
  /-- The engine's own check of a received header, before anything is staged. -/
  headerCheck : σ → η → Except GyErr Unit
  /-- The ratchet step. -/
  dhRatchet : RatchetRand β → η → Cmd GyErr σ Unit

attribute [simp] Engine.base_withBase Engine.withBase_base Engine.withBase_withBase

/-- The parts of a received frame: the header salt, the encrypted header, the two frame bytes, the
associated data of the payload and the payload. -/
structure WireFrame (β : Type) where
  salt : Bytes β
  enc : Bytes β
  ad2 : Bytes β
  adm : Bytes β
  payload : Bytes β

/-- How the trials over skipped keys end: nothing usable, an error code, or the entry at an index
together with the plaintext it opened. -/
inductive Trial (β : Type) where
  | miss
  | fail (e : GyErr)
  | hit (i : Nat) (pt : Bytes β)

namespace Engine

variable {β σ η : Type} [Octet β] [DecidableEq β] [Sodium β]

section Model

variable (E : Engine β σ η) (desc : SuiteDesc β)

/-- The header wire unit `hdr_salt || enc_header_len_be16 || enc_header`. -/
def headerWire (salt enc : Bytes β) : Bytes β := salt ++ be16Put (UInt16.ofNat enc.length) ++ enc

/-- `gy_dr_encrypt` and `gy_hybrid_dr_encrypt` into a buffer of `cap` bytes. The sending chain
advances before the payload is sealed, so a failing payload AEAD leaves it advanced. -/
def encrypt (cap : Nat) (pt ad : Bytes β) (salt : Except GyErr (Bytes β)) :
    Cmd GyErr σ (Bytes β) := do
  let st ← Cmd.get
  let b := E.base st
  -- no sending chain yet: the responder has not received anything
  if !b.haveCks || !b.haveHks || !E.canSend st then Cmd.fail .state
  else if E.adMax < ad.length then Cmd.fail .arg
  else
    let hdrp ← Cmd.lift (E.encode (E.header st) E.headerMax)
    let taglen := aeadTagLen b.aeadId
    let ppos := 2 + (heSaltLen + 2 + (hdrp.length + taglen))
    -- the room is checked before anything is sealed, so a short buffer changes nothing
    if cap < ppos + pt.length + taglen then Cmd.fail .arg
    else
      let (salt, enc) ← Cmd.lift (gyHeEncrypt desc b.aeadId b.hks hdrp (gyFramePut desc.suiteId)
        (cap - (2 + heSaltLen + 2)) salt)
      let (msgKey, ckNext) ← Cmd.lift (gyDrcKdfCk desc b.cks)
      -- from here on the chain has moved: a later failure still leaves the new chain key
      Cmd.modify (E.withBase { b with cks := ckNext, ns := b.ns + 1 })
      let (key, nonce) ← Cmd.lift (gyDrcDeriveAead desc msgKey b.aeadId b.ns)
      let ct ← Cmd.lift (gyAeadEncrypt b.aeadId (cap - ppos) key nonce
        (ad ++ headerWire salt enc) pt)
      return gyFramePut desc.suiteId ++ headerWire salt enc ++ ct

/-- The checks on a received frame that come before any key derivation. -/
def parseFrame (aeadId : UInt8) (msg ad : Bytes β) : Except GyErr (WireFrame β) :=
  if E.adMax < ad.length then .error .arg
  else do
    gyFrameCheck msg desc.suiteId
    let taglen := aeadTagLen aeadId
    if msg.length < 2 + heSaltLen + 2 then .error .arg
    else
      -- the length is the sender's: it is checked against the suite before it is used
      let ehl := (be16Get (msg.drop (2 + heSaltLen))).toNat
      if !E.encHeaderLenOk ehl taglen then .error .arg
      else
        let hwlen := heSaltLen + 2 + ehl
        if msg.length < 2 + hwlen + taglen then .error .arg
        else
          .ok ⟨(msg.drop 2).take heSaltLen, (msg.drop (2 + heSaltLen + 2)).take ehl, msg.take 2,
            ad ++ (msg.drop 2).take hwlen, msg.drop (2 + hwlen)⟩

/-- Try to open a received header under a header key. -/
def openHeader (b : DrState β) (fr : WireFrame β) (hk : Bytes β) : Except GyErr (Bytes β) :=
  gyHeDecrypt desc b.aeadId hk fr.salt fr.enc fr.ad2 E.headerMax

/-- Open a payload with a message key and its number. -/
def openPayload (b : DrState β) (fr : WireFrame β) (cap : Nat) (msgKey : Bytes β) (n : UInt32) :
    Except GyErr (Bytes β) := do
  let (key, nonce) ← gyDrcDeriveAead desc msgKey b.aeadId n
  gyAeadDecrypt b.aeadId cap key nonce fr.adm fr.payload

/-- The inner loop of the skipped-key trials: the first entry of the slot with the header's number
decides. Only a failing derivation ends the call. -/
def trialEntry (b : DrState β) (fr : WireFrame β) (cap slot : Nat) (n : UInt32) : Trial β :=
  match b.skipped.ent.findIdx? fun e => e.epoch = slot ∧ e.n = n with
  | none => .miss
  | some i =>
    match b.skipped.ent[i]? with
    | none => .miss
    | some e =>
      match gyDrcDeriveAead desc e.msgKey b.aeadId n with
      -- a key that cannot be derived ends the call, a cipher failure only this entry
      | .error err => .fail err
      | .ok (key, nonce) =>
        match gyAeadDecrypt b.aeadId cap key nonce fr.adm fr.payload with
        | .error _ => .miss
        | .ok pt => .hit i pt

/-- The skipped-key trials over a list of slots: one header decryption for each live slot, until a
slot's header key opens the header and the header decodes. Also says whether a header opened. -/
def trialSlots (b : DrState β) (fr : WireFrame β) (cap : Nat) : List Nat → Bool × Trial β
  | [] => (false, .miss)
  | slot :: rest =>
    if (b.skipped.epochs slot).refs = 0 then trialSlots b fr cap rest
    else
      -- a header key with no stored message is not tried
      match E.openHeader desc b fr (b.skipped.epochs slot).hk with
      | .error _ => trialSlots b fr cap rest
      | .ok hdrp =>
        -- the header opened: the frame belongs to this epoch even if it does not decode
        match E.decode hdrp with
        | .error _ => (true, (trialSlots b fr cap rest).2)
        | .ok h => (true, trialEntry desc b fr cap slot (E.n h))

/-- Open the header under the current receiving header key, then under the next one. -/
def openCurrentOrNext (b : DrState β) (fr : WireFrame β) : Option (Bytes β) :=
  match if b.haveHkr then (E.openHeader desc b fr b.hkr).toOption else none with
  | some hdrp => some hdrp
  | none => if b.haveNhkr then (E.openHeader desc b fr b.nhkr).toOption else none

/-- `gy_drc_skip_forward` on the receiving chain of a session. -/
def skipForward (to_ : UInt32) (hk : Bytes β) : Cmd GyErr σ Unit :=
  Cmd.zoom (fun s => (E.base s).recv) (fun c s => E.withBase ((E.base s).withRecv c) s)
    (gyDrcSkipForward desc to_ hk)

/-- Finish the outgoing receiving chain, if there is one, storing its remaining keys. -/
def finishOld (h : η) : Cmd GyErr σ Unit := do
  let b := E.base (← Cmd.get)
  if b.haveCkr then E.skipForward desc (E.pn h) b.hkr else pure ()

/-- Ratchet, then advance the new receiving chain to the header's number. -/
def startNew (rnd : RatchetRand β) (h : η) : Cmd GyErr σ Unit := do
  E.dhRatchet rnd h
  let st ← Cmd.get
  E.skipForward desc (E.n h) (E.base st).hkr

/-- A header from a ratchet key not seen last: finish the old chain, ratchet, advance the new
chain. The jump checks come before any derivation. -/
def newRemote (rnd : RatchetRand β) (h : η) : Cmd GyErr σ Unit := do
  let b := E.base (← Cmd.get)
  if b.haveCkr ∧ (E.pn h < b.nr ∨ maxSkip < (E.pn h - b.nr).toNat) then Cmd.fail .state
  else if maxSkip < (E.n h).toNat then Cmd.fail .state
  else
    E.finishOld desc h
    E.startNew desc rnd h

/-- A header on the current receiving chain. -/
def sameRemote (h : η) : Cmd GyErr σ Unit := do
  let b := E.base (← Cmd.get)
  if !b.haveCkr then Cmd.fail .state
  else if E.n h < b.nr then Cmd.fail .verify
  else if maxSkip < (E.n h - b.nr).toNat then Cmd.fail .state
  else E.skipForward desc (E.n h) b.hkr

/-- Bring the receiving chain to the header's number. -/
def reach (rnd : RatchetRand β) (h : η) : Cmd GyErr σ Unit := do
  let b := E.base (← Cmd.get)
  if !b.haveDhr || E.ratchetPk h ≠ b.dhr then E.newRemote desc rnd h else E.sameRemote desc h

/-- Derive the message key the chain stands at, advance the chain, open the payload and age the
skipped keys. -/
def consume (fr : WireFrame β) (cap : Nat) (n : UInt32) : Cmd GyErr σ (Bytes β) := do
  let b := E.base (← Cmd.get)
  let (msgKey, ckNext) ← Cmd.lift (gyDrcKdfCk desc b.ckr)
  Cmd.modify (E.withBase { b with ckr := ckNext, nr := b.nr + 1 })
  let pt ← Cmd.lift (openPayload desc b fr cap msgKey n)
  Cmd.modify fun s => E.withBase { E.base s with skipped := storePostSuccess (E.base s).skipped } s
  return pt

/-- The chain path, run on the staged copy. -/
def chainPath (rnd : RatchetRand β) (fr : WireFrame β) (cap : Nat) (h : η) :
    Cmd GyErr σ (Bytes β) := do
  E.reach desc rnd h
  E.consume desc fr cap (E.n h)

omit [Octet β] [DecidableEq β] [Sodium β] in
/-- Commit after verify: the staged copy replaces the live state `st` on success only. -/
def commitStage (st : σ) : Except GyErr (Bytes β) × σ → (Except GyErr (Bytes β) × Bool) × σ
  | (.error e, _) => ((.error e, true), st)
  | (.ok pt, stage) => ((.ok pt, true), stage)

/-- `gy_dr_decrypt_assoc` and `gy_hybrid_dr_decrypt_assoc` into a buffer of `cap` bytes: the result,
whether a header key opened the header, and the session state left behind. -/
def decryptAssoc (rnd : RatchetRand β) (cap : Nat) (msg ad : Bytes β) (st : σ) :
    (Except GyErr (Bytes β) × Bool) × σ :=
  let b := E.base st
  match E.parseFrame desc b.aeadId msg ad with
  | .error e => ((.error e, false), st)
  | .ok fr =>
    match E.trialSlots desc b fr cap (List.range maxSkip) with
    | (m, .fail e) => ((.error e, m), st)
    | (m, .hit i pt) =>
      -- the live store is updated, after the tag has verified
      ((.ok pt, m),
        E.withBase { b with skipped := storePostSuccess (storeRemove b.skipped i) } st)
    | (m, .miss) =>
      match E.openCurrentOrNext desc b fr with
      | none => ((.error .verify, m), st)
      | some hdrp =>
        match E.decode hdrp with
        | .error e => ((.error e, true), st)
        | .ok h =>
          match E.headerCheck st h with
          | .error e => ((.error e, true), st)
          | .ok () => commitStage st (E.chainPath desc rnd fr cap h st)

end Model

/-- A decryption that fails leaves the state as it was. -/
theorem decryptAssoc_error {E : Engine β σ η} {desc : SuiteDesc β} {rnd : RatchetRand β}
    {cap : Nat} {msg ad : Bytes β} {st : σ} {e : GyErr}
    (h : (E.decryptAssoc desc rnd cap msg ad st).1.1 = .error e) :
    (E.decryptAssoc desc rnd cap msg ad st).2 = st := by
  simp only [decryptAssoc] at h ⊢
  -- one case for each stage of the call; only the last one commits anything
  split
  · rfl
  · next fr hfr =>
    simp only [hfr] at h
    split
    · rfl
    · next m i pt htrial => simp [htrial] at h
    · next m htrial =>
      simp only [htrial] at h
      split
      · rfl
      · next hdrp hopen =>
        simp only [hopen] at h
        split
        · rfl
        · next hd hdec =>
          simp only [hdec] at h
          split
          · rfl
          · next hchk =>
            simp only [hchk] at h
            -- the chain path may fail half way, but its staged state is dropped
            rcases hchain : E.chainPath desc rnd fr cap hd st with ⟨_ | pt, stage⟩
            · rfl
            · simp [hchain, commitStage] at h

end Engine
end Geryon
