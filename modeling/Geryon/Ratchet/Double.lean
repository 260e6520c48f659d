import Geryon.Ratchet.Engine

/-!
# The classical Double Ratchet

`ratchet/double_ratchet.c`: initialisation of the two parties, the DH ratchet step, and the engine
instance behind `gy_dr_encrypt` and `gy_dr_decrypt_assoc`.
-/

namespace Geryon

/-- `GY_X3DH_AD_MAX`: two encoded curve keys. -/
def x3dhAdMax : Nat := 2 * (1 + curvePkMax)

/-- The secrets a key agreement hands to the ratchet (`struct gy_dr_secrets`). -/
structure DrSecrets (β : Type) where
  skDr : Bytes β
  sharedHka : Bytes β
  sharedNhkb : Bytes β

variable {β : Type} [Octet β]

/-- A zeroed state, as `memset` leaves it. -/
def DrState.zero : DrState β where
  aeadId := 0
  dhs := ⟨zeros curvePkMax, zeros curvePkMax⟩
  dhr := zeros curvePkMax
  rk := zeros drKeyLen
  cks := zeros drKeyLen
  ckr := zeros drKeyLen
  hks := zeros drKeyLen
  hkr := zeros drKeyLen
  nhks := zeros drKeyLen
  nhkr := zeros drKeyLen
  ns := 0
  nr := 0
  pn := 0
  haveDhr := false
  haveCks := false
  haveCkr := false
  haveHks := false
  haveHkr := false
  haveNhks := false
  haveNhkr := false
  skipped := SkipStore.empty

variable (desc : SuiteDesc β)

/-! ## The halves of a ratchet step -/

/-- Start a new epoch: keep the old chain length, reset the counters and take the remote key. -/
def startEpoch (newRpk : Bytes β) : Cmd GyErr (DrState β) Unit :=
  Cmd.modify fun st =>
    { st with pn := st.ns, ns := 0, nr := 0, dhr := newRpk, haveDhr := true }

/-- Receiving step, first part: the next receiving header key becomes the current one. -/
def rotateHkr : Cmd GyErr (DrState β) Unit :=
  Cmd.modify fun st => { st with hkr := st.nhkr, haveHkr := true }

/-- Receiving step, second part: a root derivation fills the receiving chain and the next receiving
header key. -/
def recvRoot (ikm : Bytes β) : Cmd GyErr (DrState β) Unit := do
  let st ← Cmd.get
  let r ← Cmd.lift (gyDrcKdfRk desc st.rk ikm)
  Cmd.modify fun st =>
    { st with rk := r.rk, ckr := r.ck, nhkr := r.nhk, haveCkr := true, haveNhkr := true }

/-- Sending step, first part: the next sending header key becomes the current one. -/
def rotateHks : Cmd GyErr (DrState β) Unit :=
  Cmd.modify fun st => { st with hks := st.nhks, haveHks := true }

/-- Sending step, second part: a root derivation fills the sending chain and the next sending header
key. -/
def sendRoot (ikm : Bytes β) : Cmd GyErr (DrState β) Unit := do
  let st ← Cmd.get
  let r ← Cmd.lift (gyDrcKdfRk desc st.rk ikm)
  Cmd.modify fun st =>
    { st with rk := r.rk, cks := r.ck, nhks := r.nhk, haveCks := true, haveNhks := true }

/-- The DH of the own ratchet key with the remote one. -/
def ratchetDh : Cmd GyErr (DrState β) (Bytes β) := do
  let st ← Cmd.get
  Cmd.lift (desc.dh st.dhs.sk st.dhr)

/-- `dh_ratchet`. -/
def dhRatchet (rnd : RatchetRand β) (newRpk : Bytes β) : Cmd GyErr (DrState β) Unit := do
  startEpoch newRpk
  rotateHkr
  let dh ← ratchetDh desc
  recvRoot desc dh
  let kp ← Cmd.lift rnd.curve
  Cmd.modify fun st => { st with dhs := kp }
  rotateHks
  let dh ← ratchetDh desc
  sendRoot desc dh

/-! ## Initialisation -/

/-- The state of `gy_dr_init_alice` before its initial sending ratchet. -/
def aliceStart (aeadId : UInt8) (secrets : DrSecrets β) (remotePk : Bytes β) : DrState β :=
  { DrState.zero with
    aeadId := aeadId
    rk := secrets.skDr
    dhr := remotePk
    haveDhr := true
    hks := secrets.sharedHka
    nhkr := secrets.sharedNhkb
    haveHks := true
    haveNhkr := true }

/-- `gy_dr_init_alice`: `kp` is the generated ratchet pair. -/
def gyDrInitAlice (aeadId : UInt8) (secrets : DrSecrets β) (remoteRatchetPk : Bytes β)
    (kp : Except GyErr (Keypair β)) : Except GyErr (DrState β) := do
  let kp ← kp
  let st := { aliceStart aeadId secrets remoteRatchetPk with dhs := kp }
  let dh ← desc.dh st.dhs.sk st.dhr
  let r ← gyDrcKdfRk desc st.rk dh
  return { st with rk := r.rk, cks := r.ck, nhks := r.nhk, haveCks := true, haveNhks := true }

/-- `gy_dr_init_bob`: the own ratchet pair is the signed prekey. -/
def gyDrInitBob (aeadId : UInt8) (secrets : DrSecrets β) (spk : Keypair β) : DrState β :=
  { DrState.zero with
    aeadId := aeadId
    rk := secrets.skDr
    nhks := secrets.sharedNhkb
    nhkr := secrets.sharedHka
    haveNhks := true
    haveNhkr := true
    dhs := spk }

/-! ## The engine -/

/-- The classical engine: a fixed header length and no state beyond the base. -/
def classical : Engine β (DrState β) (DrHeader β) where
  base := id
  withBase b _ := b
  base_withBase _ _ := rfl
  withBase_base _ := rfl
  withBase_withBase _ _ _ := rfl
  adMax := x3dhAdMax
  headerMax := drHeaderMax
  encHeaderLenOk ehl taglen := ehl == 4 + desc.curvePkLen + 8 + taglen
  canSend _ := true
  header st := ⟨desc.curveType.toUInt32, st.dhs.pk, st.pn, st.ns⟩
  encode := gyDrHeaderEncode desc
  decode b := (gyDrHeaderDecode desc b).map Prod.fst
  ratchetPk := DrHeader.ratchetPk
  pn := DrHeader.pn
  n := DrHeader.n
  headerCheck _ _ := .ok ()
  dhRatchet rnd h := dhRatchet desc rnd h.ratchetPk

variable [DecidableEq β] [Sodium β]

/-- `gy_dr_encrypt`. -/
def gyDrEncrypt (cap : Nat) (pt ad : Bytes β) (salt : Except GyErr (Bytes β)) :
    Cmd GyErr (DrState β) (Bytes β) :=
  (classical desc).encrypt desc cap pt ad salt

/-- `gy_dr_decrypt_assoc`. -/
def gyDrDecryptAssoc (rnd : RatchetRand β) (cap : Nat) (msg ad : Bytes β) (st : DrState β) :
    (Except GyErr (Bytes β) × Bool) × DrState β :=
  (classical desc).decryptAssoc desc rnd cap msg ad st

end Geryon
