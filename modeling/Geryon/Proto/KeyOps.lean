import Geryon.Proto.Custodian

/-!
# The key operations of a custodian

`proto/custodian.c`: the identity, the signed prekey history, the pool of one-time prekeys, the
published bundle, the application signing keys and the deletion of keys. Each operation changes the
live object, seals and persists it, and undoes its change when the persist fails.

A call takes what the environment supplies: key draws and coins, the nonce of the seal, and whether
the store callback fails.
-/

namespace Geryon

variable {β : Type}

/-! ## Histories and pool slots -/

/-- A history of at most `max` keys with a new key in front; the oldest falls off a full one. -/
def pushHistory {κ : Type} (max : Nat) (k : κ) (l : List κ) : List κ := k :: l.take (max - 1)

/-- The key that falls off a full history. -/
def evicted {κ : Type} (max : Nat) (l : List κ) : Option κ :=
  if l.length = max then l[max - 1]? else none

/-- Free the handle of the key that falls off a full history. -/
def freeEvicted {κ : Type} (type : SlotType) (pkid : κ → UInt32) (max : Nat) (l : List κ)
    (t : SlotTable) : SlotTable :=
  match evicted max l with
  | some old => freeKey ⟨type, pkid old⟩ t
  | none => t

/-- The fill loop of `cust_replenish_opks`: the keys go to the first slots not in use. A slot the
call fills is marked. -/
def fillOpks {κ : Type} : List κ → List (Option (HeldOpk κ)) → List (Option (HeldOpk κ) × Bool)
  | [], opks => opks.map fun o => (o, false)
  | ks, [] => ks.map fun k => (some ⟨k, false⟩, true)
  | k :: ks, none :: opks => (some ⟨k, false⟩, true) :: fillOpks ks opks
  | k :: ks, some o :: opks => (some o, false) :: fillOpks (k :: ks) opks

/-- Wipe the marked slots. -/
def wipeMarked {κ : Type} (marks : List (Option (HeldOpk κ) × Bool)) :
    List (Option (HeldOpk κ)) :=
  marks.map fun x => if x.2 then none else x.1

/-- `cust_first_reservable_opk`. -/
def custFirstReservableOpk {κ : Type} (opks : List (Option (HeldOpk κ))) : Option Nat :=
  opks.findIdx? fun o => o.any fun x => !x.exported

/-- Set the exported mark of a slot. -/
def setExported {κ : Type} (i : Nat) (b : Bool) (opks : List (Option (HeldOpk κ))) :
    List (Option (HeldOpk κ)) :=
  opks.modify i fun o => o.map fun x => { x with exported := b }

/-- The slot that holds the one-time prekey of an identifier. -/
def opkIndex {h : Bool} (pkid : UInt32) (opks : List (Option (HeldOpk (OpkOf β h)))) :
    Option Nat :=
  opks.findIdx? fun o => o.any fun x => decide (x.key.pkid = pkid)

/-- `cust_reinit_recv`: a classical receive context over no signed prekey is refused. -/
def custReinitRecv {κ : Type} (isHybrid : Bool) (spks : List κ) : Except GyErr Unit :=
  if isHybrid = false ∧ spks = [] then .error .arg else .ok ()

/-! ## Published bundles -/

variable [Octet β]

/-- `put_key`. -/
def putKey (desc : SuiteDesc β) (k : PublicKey β) : Bytes β :=
  be32Put k.pkid ++ (Octet.ofByte k.curveType :: k.pk.take desc.curvePkLen)

/-- `gy_bundle_wire_len`. -/
def gyBundleWireLen (desc : SuiteDesc β) (withOpk : Bool) : Nat :=
  2 + 2 * (4 + 1 + desc.curvePkLen) + 8 + desc.sigLen + 1 +
    if withOpk then 4 + 1 + desc.curvePkLen else 0

/-- `gy_bundle_put` into a buffer of `cap` bytes. -/
def gyBundlePut (desc : SuiteDesc β) (cap : Nat) (b : PrekeyBundle β) : Except GyErr (Bytes β) :=
  let present := b.opk.pkid ≠ 0
  if cap < gyBundleWireLen desc present then .error .arg
  else .ok (gyFramePut desc.suiteId ++ (putKey desc b.ik ++ (putKey desc b.spk ++
    (be64Put b.spkTimestamp ++ (b.spkSig.take desc.sigLen ++
      (Octet.ofByte (if present then 1 else 0) :: if present then putKey desc b.opk else []))))))

/-- `put_hpub`. -/
def putHpub (desc : SuiteDesc β) (k : HybridPublicKey β) : Bytes β :=
  putKey desc k.curve ++ k.mlkemEk.take desc.kemPkLen

/-- `gy_hybrid_bundle_wire_len`. -/
def gyHybridBundleWireLen (desc : SuiteDesc β) : Nat :=
  let hpub := 4 + 1 + desc.curvePkLen + desc.kemPkLen
  2 + (hpub + desc.dsaPkLen) + (hpub + 4 + 8 + 8 + desc.sigLen + desc.dsaSigLen) + hpub

/-- `gy_hybrid_bundle_put` into a buffer of `cap` bytes. -/
def gyHybridBundlePut (desc : SuiteDesc β) (cap : Nat) (b : HybridPrekeyBundle β) :
    Except GyErr (Bytes β) :=
  if !desc.isHybrid then .error .state
  else if cap < gyHybridBundleWireLen desc then .error .arg
  else .ok (gyFramePut desc.suiteId ++ (putHpub desc b.ik.base ++
    (b.ik.mldsaPk.take desc.dsaPkLen ++ (putHpub desc b.spk ++ (be32Put b.spkIkId ++
      (be64Put b.spkTimestamp ++ (be64Put b.spkFlags ++ (b.spkEdSig.take desc.sigLen ++
        (b.spkMldsaSig.take desc.dsaSigLen ++ putHpub desc b.opk)))))))))

/-- The one-shot bundle of the identity, the active signed prekey and a one-time prekey: the end of
`gy_custodian_publish_bundle`, and `cust_build_hybrid_bundle` with its put. -/
def custPutBundle (desc : SuiteDesc β) (cap : Nat) : (h : Bool) → IkOf β h → SpkOf β h → OpkOf β h →
    Except GyErr (Bytes β)
  | false, (ik : CurvePair β), (spk : SignedPrekey β), (opk : CurvePair β) =>
    gyBundlePut desc cap ⟨ik.pub, spk.kp.pub, spk.timestamp, spk.sig, opk.pub⟩
  | true, (ik : HybridIdentityKeypair β), (spk : StoredHybridSpk β), (opk : HybridPair β) =>
    gyHybridBundlePut desc cap ⟨ik.pub, spk.kp.pub, spk.timestamp, spk.flags, spk.ikId, spk.edSig,
      spk.mldsaSig, opk.pub⟩

/-- The length of a one-shot bundle on the wire. -/
def custBundleLen (desc : SuiteDesc β) : Nat :=
  if desc.isHybrid then gyHybridBundleWireLen desc else gyBundleWireLen desc true

variable [Signer β] [Sodium β] [SodiumKeystore β] [StructLayout β]

/-! ## Identity -/

/-- The random input of `gy_custodian_generate_identity`. -/
structure IdentityRand (β : Type) where
  ik : KeyRand β
  spk : KeyRand β
  opks : KeyRand β

/-- The first one-time prekeys, none of which is no call to the generator. -/
def initialOpks (desc : SuiteDesc β) (h : Bool) (n : Nat) (rnd : KeyRand β) :
    Except GyErr (List (OpkOf β h)) :=
  if 0 < n then gyOpkGenerate desc h n [] rnd else .ok []

/-- The material `gy_custodian_generate_identity` generates. -/
def generateIdmat (desc : SuiteDesc β) (h : Bool) (timestamp : UInt64) (n : Nat)
    (rnd : IdentityRand β) : Except GyErr (IdMat β h) := do
  let ik ← gyIdentityGenerate desc h rnd.ik
  let spk ← gySignedPrekeyGenerate desc h ik timestamp rnd.spk
  let opks ← initialOpks desc h n rnd.opks
  return ⟨ik, [spk], opks.map fun k => some ⟨k, false⟩, []⟩

/-- `gy_custodian_generate_identity`. -/
def gyCustodianGenerateIdentity (timestamp : UInt64) (n : Nat) (rnd : IdentityRand β)
    (env : PersistEnv β) : Cmd GyErr (Live β) Unit := fun s =>
  if s.cust.mat.isSome then (.error .state, s)
  else if opkBatchMax < n then (.error .arg, s)
  else
    match generateIdmat s.cust.desc s.cust.desc.isHybrid timestamp n rnd with
    | .error e => (.error e, s)
    | .ok m =>
      let c := { s.cust with mat := some m }
      match custSealAndPersist c m env s.blob with
      -- a failed write takes the material back
      | (.error e, blob) => (.error e, ⟨{ c with mat := none }, blob⟩)
      | (.ok (), blob) => (.ok (), ⟨{ c with slots := registerAll m.keySlots c.slots }, blob⟩)

/-! ## Signed prekeys -/

/-- `gy_custodian_rotate_signed_prekey`. -/
def gyCustodianRotateSignedPrekey (timestamp : UInt64) (rnd : KeyRand β) (env : PersistEnv β) :
    Cmd GyErr (Live β) Unit := fun s =>
  match s.cust.mat with
  | none => (.error .state, s)
  | some m =>
    match gySignedPrekeyGenerate s.cust.desc s.cust.desc.isHybrid m.ik timestamp rnd with
    | .error e => (.error e, s)
    | .ok spk =>
      let m1 := { m with spks := pushHistory spkHistoryMax spk m.spks }
      match custSealAndPersist s.cust m1 env s.blob with
      | (.error e, blob) =>
        -- the history is put back as it was, the rest of the material stays
        (.error e, ⟨{ s.cust with mat := some { m1 with spks := m.spks } }, blob⟩)
      | (.ok (), blob) =>
        -- the handle of the prekey that fell out of the history is freed
        let t := freeEvicted .spk SpkOf.pkid spkHistoryMax m.spks s.cust.slots
        (.ok (), ⟨{ s.cust with
          mat := some m1, slots := (custSlotRegister ⟨.spk, spk.pkid⟩ t).2 }, blob⟩)

/-! ## One-time prekeys -/

/-- `cust_replenish_opks` and `cust_replenish_hybrid_opks`, for a custodian with an identity. -/
def custReplenishOpks (count : Nat) (rnd : KeyRand β) (env : PersistEnv β) :
    Cmd GyErr (Live β) Unit := fun s =>
  match s.cust.mat with
  | none => (.error .state, s)
  | some m =>
    if count = 0 ∨ opkBatchMax < count then (.error .arg, s)
    else if opkBatchMax - m.held.length < count then (.error .noSpace, s)
    else
      match gyOpkGenerate s.cust.desc s.cust.desc.isHybrid count (m.held.map OpkOf.pkid) rnd with
      | .error e => (.error e, s)
      | .ok gen =>
        let marks := fillOpks gen m.opks
        let m1 := { m with opks := marks.map Prod.fst }
        let t := registerAll (gen.map fun k => ⟨.opk, k.pkid⟩) s.cust.slots
        match custSealAndPersist s.cust m1 env s.blob with
        | (.error e, blob) =>
          -- the filled slots are wiped, their handles freed and the high-water mark restored
          (.error e, ⟨{ s.cust with
            mat := some { m1 with opks := (wipeMarked marks).take m.opks.length },
            slots := gen.foldl (fun t k => freeKey ⟨.opk, k.pkid⟩ t) t }, blob⟩)
        | (.ok (), blob) =>
          (custReinitRecv s.cust.desc.isHybrid m.spks, ⟨{ s.cust with
            mat := some m1, slots := t }, blob⟩)

/-- `gy_custodian_generate_onetime_prekeys`. -/
def gyCustodianGenerateOnetimePrekeys (count : Nat) (rnd : KeyRand β) (env : PersistEnv β) :
    Cmd GyErr (Live β) Unit := custReplenishOpks count rnd env

/-- Reserve a one-time prekey for a bundle, persist the reservation and write the bundle. -/
def reserveAndPut (cap : Nat) (i : Nat) (env : PersistEnv β) : Cmd GyErr (Live β) (Bytes β) :=
  fun s =>
  match s.cust.mat with
  | none => (.error .state, s)
  | some m =>
    let m1 := { m with opks := setExported i true m.opks }
    match custSealAndPersist s.cust m1 env s.blob with
    | (.error e, blob) =>
      (.error e, ⟨{ s.cust with mat := some { m1 with opks := setExported i false m1.opks } },
        blob⟩)
    | (.ok (), blob) =>
      -- an identity always comes with a signed prekey, and slot `i` is in use
      let put := match m1.spks.head?, m1.opks[i]?.join with
        | some spk, some k => custPutBundle s.cust.desc cap _ m1.ik spk k.key
        | _, _ => .error .crypto
      (put, ⟨{ s.cust with mat := some m1 }, blob⟩)

/-- `gy_custodian_publish_bundle` into a buffer of `cap` bytes: the first one-time prekey that was
not exported is reserved; a spent pool is replenished with one. -/
def gyCustodianPublishBundle (cap : Nat) (rnd : KeyRand β) (mint reserve : PersistEnv β) :
    Cmd GyErr (Live β) (Bytes β) := fun s =>
  match s.cust.mat with
  -- no key left to hand out: mint one, then look again
  | none => (.error .state, s)
  | some m =>
    match custFirstReservableOpk m.opks with
    | some i => reserveAndPut cap i reserve s
    | none =>
      match custReplenishOpks 1 rnd mint s with
      | (.error e, s) => (.error e, s)
      | (.ok (), s) =>
        match s.cust.mat.bind fun m => custFirstReservableOpk m.opks with
        | none => (.error .crypto, s)
        | some i => reserveAndPut cap i reserve s

/-- `tr_consume_opk`: the application's callback first, then the private key is destroyed in the
live object and the material is sealed and persisted. A failed persist is reported, and the key
stays destroyed. -/
def trConsumeOpk (pkid : UInt32) (app : Option GyErr) (env : PersistEnv β) :
    Cmd GyErr (Live β) Unit := fun s =>
  match app with
  | some e => (.error e, s)
  | none =>
    match s.cust.mat with
    -- a key that is already gone counts as consumed
    | none => (.ok (), s)
    | some m =>
      match opkIndex pkid m.opks with
      | none => (.ok (), s)
      | some i =>
        let m1 := { m with opks := m.opks.set i none }
        -- the slot is freed whether or not the write succeeds
        let (res, blob) := custSealAndPersist s.cust m1 env s.blob
        (res, ⟨{ s.cust with mat := some m1, slots := freeKey ⟨.opk, pkid⟩ s.cust.slots }, blob⟩)

/-! ## Deletion -/

/-- Delete a signed prekey of the history; the active one is refused. -/
def deleteSpk (handle : Nat) (pkid : UInt32) (env : PersistEnv β) (s : Live β)
    (m : IdMat β s.cust.desc.isHybrid) : Except GyErr Unit × Live β :=
  -- the active signed prekey cannot be deleted, only rotated away
  if m.spks.head?.map SpkOf.pkid = some pkid then (.error .state, s)
  else if (m.spks.drop 1).all (fun k => decide (k.pkid ≠ pkid)) then (.error .notFound, s)
  else
    let m1 := { m with
      spks := m.spks.take 1 ++ (m.spks.drop 1).eraseP fun k => decide (k.pkid = pkid) }
    match custSealAndPersist s.cust m1 env s.blob with
    | (.error e, blob) =>
      (.error e, ⟨{ s.cust with mat := some { m1 with spks := m.spks } }, blob⟩)
    | (.ok (), blob) =>
      (custReinitRecv s.cust.desc.isHybrid m1.spks, ⟨{ s.cust with
        mat := some m1, slots := gyCustodianSlotFree handle s.cust.slots }, blob⟩)

/-- Delete a one-time prekey. -/
def deleteOpk (handle : Nat) (pkid : UInt32) (env : PersistEnv β) (s : Live β)
    (m : IdMat β s.cust.desc.isHybrid) : Except GyErr Unit × Live β :=
  match opkIndex pkid m.opks with
  | none => (.error .notFound, s)
  | some i =>
    -- kept for the case that the write fails
    let backup := m.opks[i]?.join
    let m1 := { m with opks := m.opks.set i none }
    match custSealAndPersist s.cust m1 env s.blob with
    | (.error e, blob) =>
      (.error e, ⟨{ s.cust with mat := some { m1 with opks := m1.opks.set i backup } }, blob⟩)
    | (.ok (), blob) =>
      (custReinitRecv s.cust.desc.isHybrid m1.spks, ⟨{ s.cust with
        mat := some m1, slots := gyCustodianSlotFree handle s.cust.slots }, blob⟩)

/-- `gy_custodian_delete_prekey`. -/
def gyCustodianDeletePrekey (handle : Nat) (env : PersistEnv β) : Cmd GyErr (Live β) Unit :=
  fun s =>
  match gyCustodianSlotGet handle s.cust.slots with
  | .error e => (.error e, s)
  | .ok k =>
    match k.type, s.cust.mat with
    | .spk, some m => deleteSpk handle k.keyId env s m
    | .opk, some m => deleteOpk handle k.keyId env s m
    | .spk, none => (.error .notFound, s)
    | .opk, none => (.error .notFound, s)
    -- application keys are not deleted through this call
    | _, _ => (.error .arg, s)

/-- `gy_custodian_find_prekey` for a signed (`true`) or a one-time prekey. -/
def gyCustodianFindPrekey (spk : Bool) (pkid : UInt32) (c : GyCustodian β) : Nat :=
  custSlotFind ⟨if spk then .spk else .opk, pkid⟩ c.slots

/-! ## Application signing keys -/

/-- The time a certificate is issued at: the clock's, or zero without one. -/
def GyCustodian.issuedAt (c : GyCustodian β) (now : UInt64) : UInt64 :=
  if c.hasClock then now else 0

/-- `gy_custodian_generate_appkey`: the handle of the first application signing key. -/
def gyCustodianGenerateAppkey (now expiry : UInt64) (rnd : KeyRand β) (env : PersistEnv β) :
    Cmd GyErr (Live β) Nat := fun s =>
  match s.cust.mat with
  | none => (.error .state, s)
  | some m =>
    -- there is one application key at first; later ones come by rotation
    if m.saks ≠ [] then (.error .state, s)
    else
      match custMint s.cust.desc s.cust.desc.isHybrid m.ik (s.cust.issuedAt now) expiry rnd with
      | .error e => (.error e, s)
      | .ok sak =>
        let m1 := { m with saks := [sak] }
        match custSealAndPersist s.cust m1 env s.blob with
        | (.error e, blob) => (.error e, ⟨{ s.cust with mat := some { m1 with saks := [] } }, blob⟩)
        | (.ok (), blob) =>
          let (handle, t) := custSlotRegister ⟨.sak, sak.pkid⟩ s.cust.slots
          (.ok handle, ⟨{ s.cust with mat := some m1, slots := t }, blob⟩)

/-- `gy_custodian_rotate_appkey`. -/
def gyCustodianRotateAppkey (now expiry : UInt64) (rnd : KeyRand β) (env : PersistEnv β) :
    Cmd GyErr (Live β) Nat := fun s =>
  match s.cust.mat with
  | none => (.error .state, s)
  | some m =>
    if m.saks = [] then (.error .state, s)
    else
      match custMint s.cust.desc s.cust.desc.isHybrid m.ik (s.cust.issuedAt now) expiry rnd with
      | .error e => (.error e, s)
      | .ok sak =>
        let m1 := { m with saks := pushHistory sakHistoryMax sak m.saks }
        match custSealAndPersist s.cust m1 env s.blob with
        | (.error e, blob) =>
          (.error e, ⟨{ s.cust with mat := some { m1 with saks := m.saks } }, blob⟩)
        | (.ok (), blob) =>
          -- the evicted key's handle first, then the new one's
          let t := freeEvicted .sak SakOf.pkid sakHistoryMax m.saks s.cust.slots
          let (handle, t) := custSlotRegister ⟨.sak, sak.pkid⟩ t
          (.ok handle, ⟨{ s.cust with mat := some m1, slots := t }, blob⟩)

/-- The application key a handle names: what `gy_custodian_sign` and
`gy_custodian_export_appkey_cert` look up before they use it. -/
def custAppkeyOf (handle : Nat) (c : GyCustodian β) : Except GyErr (SakOf β c.desc.isHybrid) :=
  match gyCustodianSlotGet handle c.slots with
  | .error e => .error e
  | .ok k =>
    if k.type ≠ .sak then .error .arg
    else
      match c.mat.bind fun m => m.saks.find? fun sak => decide (sak.pkid = k.keyId) with
      | none => .error .notFound
      | some sak => .ok sak

/-! ## Calls -/

/-- A call on an unlocked custodian, with everything the environment supplies to it. `consumeOpk` is
the store callback through which a receive consumes a one-time prekey. -/
inductive CustCall (β : Type) where
  | generateIdentity (timestamp : UInt64) (n : Nat) (rnd : IdentityRand β) (env : PersistEnv β)
  | rotateSignedPrekey (timestamp : UInt64) (rnd : KeyRand β) (env : PersistEnv β)
  | generateOnetimePrekeys (count : Nat) (rnd : KeyRand β) (env : PersistEnv β)
  | publishBundle (cap : Nat) (rnd : KeyRand β) (mint reserve : PersistEnv β)
  | consumeOpk (pkid : UInt32) (app : Option GyErr) (env : PersistEnv β)
  | deletePrekey (handle : Nat) (env : PersistEnv β)
  | generateAppkey (now expiry : UInt64) (rnd : KeyRand β) (env : PersistEnv β)
  | rotateAppkey (now expiry : UInt64) (rnd : KeyRand β) (env : PersistEnv β)
  | changeCredential (newCred : Bytes β) (rnd : WrapRand β) (load fault : Option GyErr)

/-- What a call hands back on success. -/
inductive CustReply (β : Type) where
  | ok
  | bundle (b : Bytes β)
  | handle (h : Nat)

/-- One call. -/
def Live.step (s : Live β) : CustCall β → Except GyErr (CustReply β) × Live β
  | .generateIdentity timestamp n rnd env =>
    let (r, s) := gyCustodianGenerateIdentity timestamp n rnd env s; (r.map fun _ => .ok, s)
  | .rotateSignedPrekey timestamp rnd env =>
    let (r, s) := gyCustodianRotateSignedPrekey timestamp rnd env s; (r.map fun _ => .ok, s)
  | .generateOnetimePrekeys count rnd env =>
    let (r, s) := gyCustodianGenerateOnetimePrekeys count rnd env s; (r.map fun _ => .ok, s)
  | .publishBundle cap rnd mint reserve =>
    let (r, s) := gyCustodianPublishBundle cap rnd mint reserve s; (r.map .bundle, s)
  | .consumeOpk pkid app env => let (r, s) := trConsumeOpk pkid app env s; (r.map fun _ => .ok, s)
  | .deletePrekey handle env =>
    let (r, s) := gyCustodianDeletePrekey handle env s; (r.map fun _ => .ok, s)
  | .generateAppkey now expiry rnd env =>
    let (r, s) := gyCustodianGenerateAppkey now expiry rnd env s; (r.map .handle, s)
  | .rotateAppkey now expiry rnd env =>
    let (r, s) := gyCustodianRotateAppkey now expiry rnd env s; (r.map .handle, s)
  | .changeCredential newCred rnd load fault =>
    let (r, s) := gyCustodianChangeCredential newCred rnd load fault s; (r.map fun _ => .ok, s)

end Geryon
