import Geryon.Kex.Generate
import Geryon.Kex.X3dh
import Geryon.Lib.Slots
import Geryon.Proto.Keystore
import Geryon.Session.Lifecycle

/-!
# The custodian

`proto/custodian.c`: the object that holds a device's private keys while it is unlocked, its
bootstrap blob in the application's store, and the table of key handles.

The blob is `header || sealed identity material`. The header is in the clear and carries the wrapped
key-encryption key; the material is the image of one C structure, sealed under that key. How the
structure lies in memory is a parameter (`StructLayout`).

Both suite families run the same code over their own structures, so each operation is defined once,
over `IkOf`, `SpkOf`, `OpkOf` and `SakOf`. The receive context is rebuilt from the prekeys after
every change and holds nothing else; it is not part of the state. Memory allocation does not fail.
-/

namespace Geryon

/-- `GY_CUSTODIAN_MAX_SLOTS`. -/
def custodianMaxSlots : Nat := 48

/-- `GY_CUSTODIAN_SPK_HISTORY_MAX`. -/
def spkHistoryMax : Nat := 4

/-- `GY_CUSTODIAN_SAK_HISTORY_MAX`. -/
def sakHistoryMax : Nat := 4

/-- `GY_CUST_HDR_VERSION`. -/
def custHdrVersion : UInt8 := 1

/-- `GY_CUST_HDR_MAX`. -/
def custHdrMax : Nat := 1 + 1 + 1 + userIdMax + 1 + deviceIdMax + 2 + keystoreWrapMax

/-- `IDMAT_AD` and `IDMAT_HYBRID_AD`. -/
def idmatAd {β : Type} [Octet β] (isHybrid : Bool) : Bytes β :=
  [Octet.ofByte (if isHybrid then 0x11 else 0x10)]

/-! ## Key material -/

/-- A one-time prekey slot in use: the key, and whether it was exported in a one-shot bundle
(`opk_consumed`). -/
structure HeldOpk (κ : Type) where
  key : κ
  exported : Bool

/-- `struct gy_cust_idmat` and `struct gy_cust_hybrid_idmat`. The signed prekeys and the application
keys stand newest first; a one-time prekey slot that is not in use holds zero bytes (`none`). -/
structure IdMat (β : Type) (h : Bool) where
  ik : IkOf β h
  spks : List (SpkOf β h)
  opks : List (Option (HeldOpk (OpkOf β h)))
  saks : List (SakOf β h)

/-- The one-time prekeys held, in slot order. -/
def IdMat.held {β : Type} {h : Bool} (m : IdMat β h) : List (OpkOf β h) :=
  m.opks.filterMap fun o => o.map HeldOpk.key

/-- How the structure of the identity material lies in memory: its size, and the image of a value
and the value of an image, which depends on the key lengths of the suite. -/
class StructLayout (β : Type) where
  size : Bool → Nat
  write : {h : Bool} → IdMat β h → Bytes β
  read : (desc : SuiteDesc β) → Bytes β → IdMat β desc.isHybrid

/-! ## The handle table -/

/-- `enum gy_slot_type`. -/
inductive SlotType where
  | identity | spk | opk | sak
  deriving DecidableEq, Repr

/-- `struct gy_key_slot` in use. -/
structure KeySlot where
  type : SlotType
  keyId : UInt32
  deriving DecidableEq, Repr

/-- The handle table: a slot not in use is `none`. -/
abbrev SlotTable := List (Option KeySlot)

/-- The table of a new custodian. -/
def SlotTable.empty : SlotTable := List.replicate custodianMaxSlots none

/-- A handle: a slot's position counted from one, and `0` for no slot. -/
def handleOf : Option Nat → Nat
  | some i => i + 1
  | none => 0

/-- `cust_slot_register`: the handle, `0` when no slot is free, and the table. -/
def custSlotRegister (k : KeySlot) (t : SlotTable) : Nat × SlotTable :=
  (handleOf (Slots.firstFree t), Slots.put k t)

/-- `cust_slot_find`: the first slot of a key, or `0`. -/
def custSlotFind (k : KeySlot) (t : SlotTable) : Nat := handleOf (Slots.locate k t)

/-- `gy_custodian_slot_get` on an unlocked custodian. -/
def gyCustodianSlotGet (handle : Nat) (t : SlotTable) : Except GyErr KeySlot :=
  if handle = 0 ∨ custodianMaxSlots < handle then .error .notFound
  else
    match t[handle - 1]? with
    | some (some k) => .ok k
    | _ => .error .notFound

/-- `gy_custodian_slot_free`. -/
def gyCustodianSlotFree (handle : Nat) (t : SlotTable) : SlotTable :=
  if handle = 0 ∨ custodianMaxSlots < handle then t else t.set (handle - 1) none

/-- Register keys in order, ignoring whether a slot was free. -/
def registerAll (ks : List KeySlot) (t : SlotTable) : SlotTable :=
  ks.foldl (fun t k => (custSlotRegister k t).2) t

theorem registerAll_eq (ks : List KeySlot) (t : SlotTable) :
    registerAll ks t = Slots.putAll ks t := rfl

/-- Free the slot of a key, if it has one. -/
def freeKey (k : KeySlot) (t : SlotTable) : SlotTable :=
  gyCustodianSlotFree (custSlotFind k t) t

theorem freeKey_eq {k : KeySlot} {t : SlotTable} (ht : t.length = custodianMaxSlots) :
    freeKey k t = Slots.clearKey k t := by
  unfold freeKey custSlotFind gyCustodianSlotFree Slots.clearKey
  cases hl : Slots.locate k t with
  | none => rfl
  | some i =>
    have hi := (Slots.locate_eq_some hl).1
    simp only [handleOf, Nat.add_sub_cancel]
    rw [if_neg (by omega)]

/-- The keys of the material in the order in which `cust_load_idmat` registers them. -/
def IdMat.keySlots {β : Type} {h : Bool} (m : IdMat β h) : List KeySlot :=
  m.spks.map (fun k => ⟨.spk, k.pkid⟩) ++ (m.held.map (fun k => ⟨.opk, k.pkid⟩) ++
    m.saks.map (fun k => ⟨.sak, k.pkid⟩))

/-! ## The custodian object -/

/-- `struct gy_custodian` and `struct gy_hybrid_custodian`, unlocked: the suite, the own addresses,
the current wrap and the unlocked key-encryption key, the clock and expiry policy, the identity
material once there is an identity, and the handle table. -/
structure GyCustodian (β : Type) where
  desc : SuiteDesc β
  selfUid : Bytes β
  selfDid : Bytes β
  wrap : Bytes β
  kek : Bytes β
  hasClock : Bool
  expiry : ExpiryCfg
  mat : Option (IdMat β desc.isHybrid)
  slots : SlotTable

/-- An unlocked custodian and the blob the store holds for it; no blob is the empty one. -/
structure Live (β : Type) where
  cust : GyCustodian β
  blob : Bytes β

/-- `gy_suite_lookup`: the suites that are compiled in, by identifier. -/
structure SuiteTable (β : Type) where
  lookup : UInt8 → Option (SuiteDesc β)
  lookup_suiteId : ∀ {id desc}, lookup id = some desc → desc.suiteId = id

variable {β : Type} [Octet β]

/-! ## The bootstrap header -/

/-- `struct gy_cust_header`. -/
structure CustHeader (β : Type) where
  suiteId : UInt8
  selfUid : Bytes β
  selfDid : Bytes β
  wrap : Bytes β
  deriving DecidableEq

/-- `gy_cust_header_encode` into a buffer of `cap` bytes. -/
def gyCustHeaderEncode (cap : Nat) (h : CustHeader β) : Except GyErr (Bytes β) :=
  if userIdMax < h.selfUid.length ∨ deviceIdMax < h.selfDid.length ∨
      keystoreWrapMax < h.wrap.length then .error .arg
  else if cap < 1 + 1 + 1 + h.selfUid.length + 1 + h.selfDid.length + 2 + h.wrap.length then
    .error .toolong
  else
    .ok (Octet.ofByte custHdrVersion :: Octet.ofByte h.suiteId ::
      (Octet.ofByte (UInt8.ofNat h.selfUid.length) :: (h.selfUid ++
        Octet.ofByte (UInt8.ofNat h.selfDid.length) :: (h.selfDid ++
          (be16Put (UInt16.ofNat h.wrap.length) ++ h.wrap)))))

/-- A field of at most `max` bytes behind a length byte, and what follows it. -/
def takeShort (max : Nat) (b : Bytes β) : Except GyErr (Bytes β × Bytes β) :=
  if b.length < 1 then .error .arg
  else if max < byteAt b 0 ∨ b.length < 1 + byteAt b 0 then .error .arg
  else .ok ((b.drop 1).take (byteAt b 0), (b.drop 1).drop (byteAt b 0))

/-- The wrap behind its two-byte length, and what follows it. -/
def takeWrap (b : Bytes β) : Except GyErr (Bytes β × Bytes β) :=
  if b.length < 2 then .error .arg
  else if keystoreWrapMax < (be16Get b).toNat ∨ b.length < 2 + (be16Get b).toNat then .error .arg
  else .ok ((b.drop 2).take (be16Get b).toNat, (b.drop 2).drop (be16Get b).toNat)

/-- `gy_cust_header_decode`: the header, and what follows it in the blob. -/
def gyCustHeaderDecode (b : Bytes β) : Except GyErr (CustHeader β × Bytes β) :=
  if b.length < 2 then .error .arg
  else if byteAt b 0 ≠ custHdrVersion.toNat then .error .arg
  else do
    let (uid, r) ← takeShort userIdMax (b.drop 2)
    let (did, r) ← takeShort deviceIdMax r
    let (wrap, r) ← takeWrap r
    return (⟨octetAt b 1, uid, did, wrap⟩, r)

/-- The header of a custodian. -/
def GyCustodian.header (c : GyCustodian β) : CustHeader β :=
  ⟨c.desc.suiteId, c.selfUid, c.selfDid, c.wrap⟩

variable [Sodium β] [SodiumKeystore β] [StructLayout β]

/-! ## Persistence -/

/-- `GY_CUST_HYBRID_IDMAT_SEALED_MAX`. -/
def custHybridIdmatSealedMax (β : Type) [StructLayout β] : Nat :=
  StructLayout.size β true + sealMaxOverhead

/-- `GY_CUST_BLOB_MAX`. -/
def custBlobMax (β : Type) [StructLayout β] : Nat := custHdrMax + custHybridIdmatSealedMax β

/-- What the environment supplies to one persist: the nonce of the seal, and the code with which
the store callback fails, if it does. -/
structure PersistEnv (β : Type) where
  nonce : Rng β
  fault : Option GyErr

/-- `cust_persist_header`: write `header || tail` for a custodian. A callback that fails leaves the
blob. -/
def custPersistHeader (c : GyCustodian β) (tail : Bytes β) (fault : Option GyErr) :
    Cmd GyErr (Bytes β) Unit := fun blob =>
  if custHybridIdmatSealedMax β < tail.length then (.error .arg, blob)
  else
    match gyCustHeaderEncode (custBlobMax β) c.header with
    | .error e => (.error e, blob)
    | .ok hdr =>
      match fault with
      | some e => (.error e, blob)
      | none => (.ok (), hdr ++ tail)

/-- The seal of `cust_seal_and_persist_idmat` and `cust_seal_and_persist_hybrid_idmat`. -/
def sealIdmat {h : Bool} (kek : Bytes β) (m : IdMat β h) (nonce : Rng β) :
    Except GyErr (Bytes β) :=
  gySeal (StructLayout.size β h + sealMaxOverhead) kek sealAlgAegis256 (idmatAd h)
    (StructLayout.write m) nonce

/-- `cust_seal_and_persist_idmat` and `cust_seal_and_persist_hybrid_idmat`, with `m` the material of
the custodian. -/
def custSealAndPersist (c : GyCustodian β) (m : IdMat β c.desc.isHybrid) (env : PersistEnv β) :
    Cmd GyErr (Bytes β) Unit := fun blob =>
  match sealIdmat c.kek m env.nonce with
  | .error e => (.error e, blob)
  | .ok sealed => custPersistHeader c sealed env.fault blob

/-- `cust_load_idmat` and `cust_load_hybrid_idmat`, up to the registration of the slots. -/
def custLoadIdmat (desc : SuiteDesc β) (kek sealed : Bytes β) :
    Except GyErr (IdMat β desc.isHybrid) := do
  let pt ← gyUnseal (StructLayout.size β desc.isHybrid) kek (idmatAd desc.isHybrid) sealed
  if pt.length ≠ StructLayout.size β desc.isHybrid then .error .verify
  else
    let m := StructLayout.read desc pt
    if spkHistoryMax < m.spks.length ∨ opkBatchMax < m.opks.length ∨
        sakHistoryMax < m.saks.length then .error .verify
    -- a classical receive context over no signed prekey is refused
    else if desc.isHybrid = false ∧ m.spks = [] then .error .arg
    else .ok m

/-! ## Lifecycle -/

/-- `gy_config`. -/
structure GyConfig where
  enabled : Bool
  maxSend : UInt32
  maxRecv : UInt32
  maxLatency : UInt64

/-- The expiry policy a configuration asks for. -/
def expiryOf : Option GyConfig → Except GyErr ExpiryCfg
  | none => .ok .disabled
  | some cfg =>
    if cfg.enabled then gyExpiryCfgInit cfg.maxSend cfg.maxRecv cfg.maxLatency
    else .ok .disabled

/-- `gy_custodian_create` over a store that holds `blob`: the custodian, and the blob afterwards. -/
def gyCustodianCreate (suites : SuiteTable β) (suiteId : UInt8) (cred selfUid selfDid : Bytes β)
    (hasClock : Bool) (cfg : Option GyConfig) (kekRand : Rng β) (rnd : WrapRand β)
    (fault : Option GyErr) (blob : Bytes β) : Except GyErr (GyCustodian β) × Bytes β :=
  if userIdMax < selfUid.length ∨ deviceIdMax < selfDid.length then (.error .arg, blob)
  else
    match suites.lookup suiteId with
    | none => (.error .arg, blob)
    | some desc =>
      match expiryOf cfg with
      | .error e => (.error e, blob)
      | .ok expiry =>
        match gyKeystoreCreate sealAlgAegis256 pwhashOpslimitMin pwhashMemlimitMin cred kekRand
          rnd with
        | .error e => (.error e, blob)
        | .ok (kek, wrap) =>
          let c : GyCustodian β :=
            ⟨desc, selfUid, selfDid, wrap, kek, hasClock, expiry, none, .empty⟩
          -- the header is written before the handle is given out
          match custPersistHeader c [] fault blob with
          | (.error e, blob) => (.error e, blob)
          | (.ok (), blob) => (.ok c, blob)

/-- `gy_custodian_open` on the blob the store returns. It takes no clock and no expiry
configuration: both are left at zero. -/
def gyCustodianOpen (suites : SuiteTable β) (cred blob : Bytes β) : Except GyErr (GyCustodian β) :=
  if blob.length = 0 then .error .state
  else do
    let (hdr, tail) ← gyCustHeaderDecode blob
    match suites.lookup hdr.suiteId with
    | none => .error .arg
    | some desc => do
      let kek ← gyKeystoreOpen cred hdr.wrap
      let c : GyCustodian β :=
        -- the clock and the expiry policy are not in the header: an opened custodian has neither
        ⟨desc, hdr.selfUid, hdr.selfDid, hdr.wrap, kek, false, .disabled, none, .empty⟩
      -- a custodian that was created but never generated an identity
      if tail.length = 0 then return c
      else do
        let m ← custLoadIdmat desc kek tail
        return { c with mat := some m, slots := registerAll m.keySlots c.slots }

/-- `gy_custodian_change_credential`: the sealed material that follows the stored header is carried
over unread. `load` is the code with which the load callback fails, if it does. -/
def gyCustodianChangeCredential (newCred : Bytes β) (rnd : WrapRand β) (load fault : Option GyErr) :
    Cmd GyErr (Live β) Unit := fun s =>
  match load with
  | some e => (.error e, s)
  | none =>
    match gyCustHeaderDecode s.blob with
    | .error e => (.error e, s)
    -- only the header is rewritten, the sealed material after it stays
    | .ok (_, tail) =>
      match gyKeystoreChangeCredential s.cust.kek sealAlgAegis256 pwhashOpslimitMin
        pwhashMemlimitMin newCred rnd with
      | .error e => (.error e, s)
      | .ok wrap =>
        let c := { s.cust with wrap := wrap }
        let (res, blob) := custPersistHeader c tail fault s.blob
        (res, ⟨c, blob⟩)

end Geryon
