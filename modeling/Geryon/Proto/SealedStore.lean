import Geryon.Proto.Keystore
import Geryon.Qspgs.Store
import Geryon.Session.Record

/-!
# The sealed store

`proto/sealed_store.c`: the wrapper that seals every record and the identity under a keystore's
key-encryption key before they reach the application's callbacks, and unseals what the callbacks
load. The associated data of a sealed blob names the callback family it belongs to and the key it is
kept under, so that the application cannot move a blob to another place.

The callbacks are commands over the application's own state, and may do anything to it.

## Main definitions

- `Slot`: a family of the store with a key; `slotAd` is the associated data of its blobs.
- `SealedStore.load`, `SealedStore.sealAt`: what the wrapper loads at a slot, and what it hands to
  the application to keep there.

## Main results

- `slotAd_inj`, `devrecPreimage_inj`: both encodings tell their inputs apart.
- `load_moved`: a blob sealed for one slot is refused at every other.
-/

namespace Geryon

/-! ## Kinds -/

/-- `enum gy_group_rec_kind`. -/
inductive GroupRecKind where
  | masterKey | authCred | pkCred | ownPk
  deriving DecidableEq, Repr

/-- The kinds of the records the group facade stores past the adapter, in the same band:
`FAC_KIND_SERVER_PARAMS` and `FAC_KIND_BLIND_STATE`. -/
inductive FacadeKind where
  | serverParams | blindState
  deriving DecidableEq, Repr

/-- The record kinds that reach the wrapper: `enum gy_rec_kind`, those of the two group stores,
which their adapters move to the bands from `GY_GROUP_STORE_KIND_MIN` and
`GY_QSGROUP_STORE_KIND_MIN`, and those of the group facade. -/
inductive RecKind where
  | user | device | session
  | group (k : GroupRecKind)
  | facade (k : FacadeKind)
  | qsgroup (k : QRecKind)
  deriving DecidableEq, Repr

/-- `enum gy_prekey_kind`. -/
inductive PrekeyKind where
  | spk | opk
  deriving DecidableEq, Repr

/-- The integer a record kind is passed as. -/
def RecKind.toInt : RecKind → Int
  | .user => 1
  | .device => 2
  | .session => 3
  | .group .masterKey => 0x40
  | .group .authCred => 0x41
  | .group .pkCred => 0x42
  | .group .ownPk => 0x43
  | .facade .serverParams => 0x44
  | .facade .blindState => 0x45
  | .qsgroup .muk => 0x50
  | .qsgroup .baseKey => 0x51
  | .qsgroup .groupKey => 0x52
  | .qsgroup .acquaintance => 0x53
  | .qsgroup .joinLink => 0x54
  | .qsgroup .groupKeyPending => 0x55

/-- The integer a prekey kind is passed as. -/
def PrekeyKind.toInt : PrekeyKind → Int
  | .spk => 1
  | .opk => 2

/-- `(uint8_t)kind`. -/
def kindByte (kind : Int) : UInt8 := UInt8.ofNat (kind % 256).toNat

theorem RecKind.kindByte_inj {k k' : RecKind} (h : kindByte k.toInt = kindByte k'.toInt) :
    k = k' := by
  rcases k with _ | _ | _ | k | k | k <;> rcases k' with _ | _ | _ | k' | k' | k'
  all_goals (try cases k) <;> (try cases k') <;> first | rfl | exact absurd h (by decide)

theorem PrekeyKind.kindByte_inj {k k' : PrekeyKind} (h : kindByte k.toInt = kindByte k'.toInt) :
    k = k' := by
  cases k <;> cases k' <;> first | rfl | exact absurd h (by decide)

/-! ## The wrapper -/

/-- `gy_store_callbacks`, over the application's state `σ`. A load is given the capacity of its
output buffer, and an absent blob is an empty one. -/
structure StoreCallbacks (β σ : Type) where
  loadRecord : Int → Bytes β → Nat → Cmd GyErr σ (Bytes β)
  storeRecord : Int → Bytes β → Bytes β → Cmd GyErr σ Unit
  deleteRecord : Int → Bytes β → Cmd GyErr σ Unit
  loadIdentity : Nat → Cmd GyErr σ (Bytes β)
  storeIdentity : Bytes β → Cmd GyErr σ Unit
  loadPrekey : Int → UInt32 → Nat → Cmd GyErr σ (Bytes β)
  consumeOpk : UInt32 → Cmd GyErr σ Unit

/-- `struct gy_sealed_store`: the keystore's key-encryption key while it is open, the application's
callbacks and the wrap algorithm. -/
structure SealedStore (β σ : Type) where
  kek : Option (Bytes β)
  real : StoreCallbacks β σ
  algId : UInt8

/-- `TAG_RECORD`. -/
def tagRecord : UInt8 := 1

/-- `TAG_IDENTITY`. -/
def tagIdentity : UInt8 := 2

/-- `TAG_PREKEY`. -/
def tagPrekey : UInt8 := 3

/-- `GY_SESSION_BLOB_MAX`. -/
def sessionBlobMax : Nat := 106000

/-- The size of the wrapper's scratch buffer. -/
def scratchLen : Nat := sessionBlobMax + sealMaxOverhead

variable {β σ : Type} [Octet β]

/-- The associated data of a record. -/
def recordAd (kind : Int) (id : Bytes β) : Bytes β :=
  Octet.ofByte tagRecord :: Octet.ofByte (kindByte kind) :: id

/-- The associated data of the identity. -/
def identityAd : Bytes β := [Octet.ofByte tagIdentity]

/-- The associated data of a prekey. -/
def prekeyAd (kind : Int) (pkid : UInt32) : Bytes β :=
  Octet.ofByte tagPrekey :: Octet.ofByte (kindByte kind) :: be32Put pkid

section Wrapper

variable [Sodium β] [SodiumKeystore β]

/-- `gy_keystore_seal`, on the key of an open keystore. -/
def gyKeystoreSeal (kek : Option (Bytes β)) (cap : Nat) (algId : UInt8) (ad pt : Bytes β)
    (nonce : Rng β) : Except GyErr (Bytes β) :=
  match kek with
  | none => .error .state
  | some kek => gySeal cap kek algId ad pt nonce

/-- `gy_keystore_unseal`, on the key of an open keystore. -/
def gyKeystoreUnseal (kek : Option (Bytes β)) (cap : Nat) (ad blob : Bytes β) :
    Except GyErr (Bytes β) :=
  match kek with
  | none => .error .state
  | some kek => gyUnseal cap kek ad blob

/-- What the three loads do with the callback's answer: an empty blob is passed on as absent. -/
def SealedStore.unsealed (ss : SealedStore β σ) (cap : Nat) (ad : Bytes β)
    (real : Cmd GyErr σ (Bytes β)) : Cmd GyErr σ (Bytes β) := do
  let blob ← real
  if blob.length = 0 then return [] else Cmd.lift (gyKeystoreUnseal ss.kek cap ad blob)

/-- What the two stores do before the callback. -/
def SealedStore.sealed (ss : SealedStore β σ) (ad blob : Bytes β) (nonce : Rng β) :
    Except GyErr (Bytes β) :=
  gyKeystoreSeal ss.kek scratchLen ss.algId ad blob nonce

/-- `ss_load_record`. -/
def ssLoadRecord (ss : SealedStore β σ) (kind : Int) (id : Bytes β) (cap : Nat) :
    Cmd GyErr σ (Bytes β) :=
  if deviceIdMax < id.length then Cmd.fail .arg
  else ss.unsealed cap (recordAd kind id) (ss.real.loadRecord kind id scratchLen)

/-- `ss_store_record`. -/
def ssStoreRecord (ss : SealedStore β σ) (kind : Int) (id blob : Bytes β) (nonce : Rng β) :
    Cmd GyErr σ Unit :=
  if deviceIdMax < id.length then Cmd.fail .arg
  else do
    let sealed ← Cmd.lift (ss.sealed (recordAd kind id) blob nonce)
    ss.real.storeRecord kind id sealed

/-- `ss_load_identity`. -/
def ssLoadIdentity (ss : SealedStore β σ) (cap : Nat) : Cmd GyErr σ (Bytes β) :=
  ss.unsealed cap identityAd (ss.real.loadIdentity scratchLen)

/-- `ss_store_identity`. -/
def ssStoreIdentity (ss : SealedStore β σ) (blob : Bytes β) (nonce : Rng β) : Cmd GyErr σ Unit := do
  let sealed ← Cmd.lift (ss.sealed identityAd blob nonce)
  ss.real.storeIdentity sealed

/-- `ss_load_prekey`. -/
def ssLoadPrekey (ss : SealedStore β σ) (kind : Int) (pkid : UInt32) (cap : Nat) :
    Cmd GyErr σ (Bytes β) :=
  ss.unsealed cap (prekeyAd kind pkid) (ss.real.loadPrekey kind pkid scratchLen)

end Wrapper

/-! ## Slots -/

/-- A place of the store: a callback family with the key it takes. -/
inductive Slot (β : Type) where
  | record (kind : RecKind) (id : Bytes β)
  | identity
  | prekey (kind : PrekeyKind) (pkid : UInt32)

/-- Whether the wrapper takes the slot's key. -/
def Slot.Fits : Slot β → Prop
  | .record _ id => id.length ≤ deviceIdMax
  | _ => True

/-- The associated data of the blobs at a slot. -/
def slotAd : Slot β → Bytes β
  | .record kind id => recordAd kind.toInt id
  | .identity => identityAd
  | .prekey kind pkid => prekeyAd kind.toInt pkid

/-- The associated data tells the slots apart. -/
theorem slotAd_inj : Function.Injective (slotAd : Slot β → Bytes β) := by
  intro s s' h
  -- the first byte is the family; within a family the fields that follow are of fixed places
  have hhead := congrArg List.head? h
  rcases s with ⟨k, id⟩ | _ | ⟨k, pkid⟩ <;> rcases s' with ⟨k', id'⟩ | _ | ⟨k', pkid'⟩ <;>
    simp only [slotAd, recordAd, identityAd, prekeyAd, List.head?_cons, Option.some.injEq]
      at h hhead
  case record.record =>
    obtain ⟨hk, rfl⟩ := List.cons.inj (List.cons.inj h).2
    obtain rfl := RecKind.kindByte_inj (ofByte_inj hk)
    rfl
  case identity.identity => rfl
  case prekey.prekey =>
    obtain ⟨hk, hp⟩ := List.cons.inj (List.cons.inj h).2
    obtain rfl := PrekeyKind.kindByte_inj (ofByte_inj hk)
    obtain rfl := be32Put_injective hp
    rfl
  all_goals exact absurd (ofByte_inj hhead) (by decide)

theorem Slot.Fits.length_slotAd {s : Slot β} (h : s.Fits) : (slotAd s).length ≤ sealMaxAd := by
  rcases s with ⟨k, id⟩ | _ | ⟨k, pkid⟩
  · have hid : id.length ≤ 64 := h
    simp only [slotAd, recordAd, List.length_cons, sealMaxAd]
    omega
  · simp [slotAd, identityAd, sealMaxAd]
  · simp [slotAd, prekeyAd, sealMaxAd]

section Moved

variable [Sodium β] [SodiumKeystore β]

/-- The load through the wrapper at a slot. -/
def SealedStore.load (ss : SealedStore β σ) : Slot β → Nat → Cmd GyErr σ (Bytes β)
  | .record kind id, cap => ssLoadRecord ss kind.toInt id cap
  | .identity, cap => ssLoadIdentity ss cap
  | .prekey kind pkid, cap => ssLoadPrekey ss kind.toInt pkid cap

/-- The application's own load of a slot. -/
def StoreCallbacks.load (real : StoreCallbacks β σ) : Slot β → Nat → Cmd GyErr σ (Bytes β)
  | .record kind id, cap => real.loadRecord kind.toInt id cap
  | .identity, cap => real.loadIdentity cap
  | .prekey kind pkid, cap => real.loadPrekey kind.toInt pkid cap

/-- The blob that is kept at a slot for a plaintext: what the wrapper hands to the application's
store, and for a prekey, which the wrapper only loads, a blob sealed the same way. -/
def SealedStore.sealAt (ss : SealedStore β σ) (s : Slot β) (pt : Bytes β) (nonce : Rng β) :
    Except GyErr (Bytes β) :=
  match s with
  | .record kind id =>
    if deviceIdMax < id.length then .error .arg else ss.sealed (recordAd kind.toInt id) pt nonce
  | .identity => ss.sealed identityAd pt nonce
  | .prekey kind pkid => ss.sealed (prekeyAd kind.toInt pkid) pt nonce

/-- A record is stored by handing on what is sealed for its slot. -/
theorem ssStoreRecord_eq (ss : SealedStore β σ) (kind : RecKind) (id pt : Bytes β)
    (nonce : Rng β) : ssStoreRecord ss kind.toInt id pt nonce =
      (Cmd.lift (ss.sealAt (.record kind id) pt nonce) >>= ss.real.storeRecord kind.toInt id) := by
  have hseal : ss.sealAt (.record kind id) pt nonce =
      if deviceIdMax < id.length then .error .arg
      else ss.sealed (recordAd kind.toInt id) pt nonce := rfl
  rw [hseal, ssStoreRecord]
  by_cases hid : deviceIdMax < id.length
  · rw [if_pos hid, if_pos hid]
    rfl
  · rw [if_neg hid, if_neg hid]

/-- The identity is stored by handing on what is sealed for its slot. -/
theorem ssStoreIdentity_eq (ss : SealedStore β σ) (pt : Bytes β) (nonce : Rng β) :
    ssStoreIdentity ss pt nonce =
      (Cmd.lift (ss.sealAt .identity pt nonce) >>= ss.real.storeIdentity) := rfl

theorem SealedStore.sealAt_ok {ss : SealedStore β σ} {s : Slot β} {pt ct : Bytes β}
    {nonce : Rng β} (h : ss.sealAt s pt nonce = .ok ct) : ∃ kek, ss.kek = some kek ∧
      gySeal scratchLen kek ss.algId (slotAd s) pt nonce = .ok ct := by
  have hsealed : ss.sealed (slotAd s) pt nonce = .ok ct := by
    cases s with
    | record kind id =>
      simp only [SealedStore.sealAt] at h
      split at h
      · cases h
      · exact h
    | identity => exact h
    | prekey kind pkid => exact h
  unfold SealedStore.sealed gyKeystoreSeal at hsealed
  cases hk : ss.kek with
  | none =>
    rw [hk] at hsealed
    cases hsealed
  | some kek =>
    rw [hk] at hsealed
    exact ⟨kek, rfl, hsealed⟩

/-- Within the length limit, a load unseals the application's answer under the slot's associated
data. -/
theorem SealedStore.load_of_fits (ss : SealedStore β σ) {s : Slot β} (hfits : s.Fits) (cap : Nat) :
    ss.load s cap = ss.unsealed cap (slotAd s) (ss.real.load s scratchLen) := by
  cases s with
  | record kind id => exact if_neg (Nat.not_lt.mpr hfits)
  | identity => rfl
  | prekey kind pkid => rfl

/-- Past the length limit, a load never reaches the application. -/
theorem SealedStore.load_of_not_fits (ss : SealedStore β σ) {s : Slot β} (hfits : ¬ s.Fits)
    (cap : Nat) : ss.load s cap = Cmd.fail .arg := by
  cases s with
  | record kind id => exact if_pos (Nat.lt_of_not_le hfits)
  | identity => exact absurd trivial hfits
  | prekey kind pkid => exact absurd trivial hfits

/-- An ideal AEAD: a ciphertext is its plaintext's length plus a tag, and opens only under the key,
the nonce and the associated data it was made with, to the plaintext it was made from. -/
structure SealIdeal (β : Type) [Sodium β] [SodiumKeystore β] : Prop where
  length : ∀ {alg : SealAlg} {key nonce ad pt ct : Bytes β},
    alg.encrypt key nonce ad pt = some ct → ct.length = pt.length + alg.tagLen
  binds : ∀ {alg : SealAlg} {key key' nonce nonce' ad ad' pt pt' ct : Bytes β},
    alg.encrypt key nonce ad pt = some ct → alg.decrypt key' nonce' ad' ct = some pt' →
      key' = key ∧ nonce' = nonce ∧ ad' = ad ∧ pt' = pt

/-- A blob does not unseal under other associated data. -/
theorem gyUnseal_other_ad (ideal : SealIdeal β) {cap : Nat} {key ad ad' pt blob : Bytes β}
    {algId : UInt8} {nonce : Rng β} (h : gySeal cap key algId ad pt nonce = .ok blob)
    (had' : ad'.length ≤ sealMaxAd) (hne : ad' ≠ ad) (cap' : Nat) (key' : Bytes β) :
    gyUnseal cap' key' ad' blob = .error (if cap' < pt.length then .arg else .verify) := by
  obtain ⟨-, alg, n, ct, halg, hn, henc, rfl⟩ := gySeal_ok h
  have hlen := ideal.length henc
  rw [gyUnseal_blob halg had' hn (by omega), hlen, Nat.add_sub_cancel]
  split
  · rfl
  · split
    · rfl
    · rename_i hdec
      obtain ⟨-, -, had, -⟩ := ideal.binds henc hdec
      exact absurd (List.append_cancel_left had) hne

theorem gySeal_ne_nil {cap : Nat} {key ad pt blob : Bytes β} {algId : UInt8} {nonce : Rng β}
    (h : gySeal cap key algId ad pt nonce = .ok blob) :
    blob.length ≠ 0 := by
  obtain ⟨-, alg, n, ct, halg, hn, henc, rfl⟩ := gySeal_ok h
  simp [sealHdr]

theorem SealedStore.sealAt_ne_nil {ss : SealedStore β σ} {s : Slot β}
    {pt ct : Bytes β} {nonce : Rng β} (h : ss.sealAt s pt nonce = .ok ct) : ct.length ≠ 0 := by
  obtain ⟨kek, -, hseal⟩ := SealedStore.sealAt_ok h
  exact gySeal_ne_nil hseal

/-- A closed keystore opens no blob. -/
theorem SealedStore.load_locked {ss : SealedStore β σ} (hk : ss.kek = none) {s : Slot β}
    {cap : Nat} {ct : Bytes β} {a a' : σ} (happ : ss.real.load s scratchLen a = (.ok ct, a'))
    (hct : ct.length ≠ 0) : ∃ e, (ss.load s cap a).1 = .error e := by
  by_cases hfits : s.Fits
  · refine ⟨.state, ?_⟩
    rw [ss.load_of_fits hfits, SealedStore.unsealed, Cmd.bind_apply_of_ok happ, Cmd.ite_apply,
      if_neg hct, Cmd.lift_apply, hk]
    rfl
  · exact ⟨.arg, by rw [ss.load_of_not_fits hfits]; rfl⟩

/-- A blob sealed for one slot is refused at every other: past the length limit before the
application is asked, and else by the AEAD. -/
theorem SealedStore.load_moved (ideal : SealIdeal β) {τ : Type} {ss : SealedStore β σ}
    {ss' : SealedStore β τ} {s s' : Slot β} (hne : s' ≠ s) {pt ct : Bytes β} {nonce : Rng β}
    (hct : ss.sealAt s pt nonce = .ok ct) (cap : Nat) {a a' : τ}
    (happ : ss'.real.load s' scratchLen a = (.ok ct, a')) {kek : Bytes β}
    (hopen : ss'.kek = some kek) :
    (¬ s'.Fits → (ss'.load s' cap a).1 = .error .arg) ∧
      (s'.Fits → (ss'.load s' cap a).1 = .error (if cap < pt.length then .arg else .verify)) := by
  obtain ⟨kek₀, -, hseal⟩ := SealedStore.sealAt_ok hct
  refine ⟨fun hfits => by rw [ss'.load_of_not_fits hfits]; rfl, fun hfits => ?_⟩
  have had : slotAd s' ≠ slotAd s := fun h => hne (slotAd_inj h)
  have hunseal := gyUnseal_other_ad ideal hseal hfits.length_slotAd had cap kek
  have hblob := gySeal_ne_nil hseal
  rw [ss'.load_of_fits hfits, SealedStore.unsealed, Cmd.bind_apply_of_ok happ, Cmd.ite_apply,
    if_neg hblob, Cmd.lift_apply, hopen]
  exact hunseal

/-! ## Device-record keys -/

/-- What the device-record key hashes. -/
def devrecPreimage (userId deviceId : Bytes β) : Bytes β :=
  ascii "geryon-devrec-key" ++ be32Put (UInt32.ofNat userId.length) ++ userId ++
    be32Put (UInt32.ofNat deviceId.length) ++ deviceId

/-- The identifiers the device-record key takes. -/
def DevrecIds (userId deviceId : Bytes β) : Prop :=
  (0 < userId.length ∧ userId.length ≤ userIdMax) ∧
    (0 < deviceId.length ∧ deviceId.length ≤ deviceIdMax)

omit [SodiumKeystore β] in
theorem gyDevrecKey_eq {userId deviceId : Bytes β} (h : DevrecIds userId deviceId) :
    gyDevrecKey userId deviceId = .ok (Sodium.sha512 (devrecPreimage userId deviceId)) := by
  obtain ⟨⟨hu, hu'⟩, hd, hd'⟩ := h
  exact if_neg (by omega)

omit [Sodium β] [SodiumKeystore β] in
/-- A field behind its length is read off the front. -/
theorem lenPrefixed_inj {b b' rest rest' : Bytes β} (hb : b.length < 2 ^ 32)
    (hb' : b'.length < 2 ^ 32)
    (h : be32Put (UInt32.ofNat b.length) ++ (b ++ rest) =
      be32Put (UInt32.ofNat b'.length) ++ (b' ++ rest')) : b = b' ∧ rest = rest' := by
  obtain ⟨hlen, htail⟩ := List.append_inj h rfl
  have hlen : b.length = b'.length := by
    have hnat := congrArg UInt32.toNat (be32Put_injective hlen)
    rwa [UInt32.toNat_ofNat_of_lt' hb, UInt32.toNat_ofNat_of_lt' hb'] at hnat
  exact List.append_inj htail hlen

omit [Sodium β] [SodiumKeystore β] in
/-- The preimages of distinct pairs of identifiers are distinct. -/
theorem devrecPreimage_inj {u u' d d' : Bytes β} (h : DevrecIds u d) (h' : DevrecIds u' d')
    (heq : devrecPreimage u d = devrecPreimage u' d') : u = u' ∧ d = d' := by
  have hmax : userIdMax < 2 ^ 32 ∧ deviceIdMax < 2 ^ 32 := by decide
  simp only [devrecPreimage, List.append_assoc, List.append_cancel_left_eq] at heq
  obtain ⟨hu, hrest⟩ := lenPrefixed_inj (h.1.2.trans_lt hmax.1) (h'.1.2.trans_lt hmax.1) heq
  have hrest : be32Put (UInt32.ofNat d.length) ++ (d ++ []) =
      be32Put (UInt32.ofNat d'.length) ++ (d' ++ []) := by simpa using hrest
  exact ⟨hu, (lenPrefixed_inj (h.2.2.trans_lt hmax.2) (h'.2.2.trans_lt hmax.2) hrest).1⟩

/-! ## Slots do not mix -/

/-- Under an ideal AEAD, whatever the application does, a blob the wrapper sealed for one slot is
loaded at no other: the load fails, and with an open keystore, a key within the length limit and
room for the plaintext it fails in verification. Under a collision-free hash, distinct pairs of
user and device have distinct device-record keys, since their preimages are distinct. -/
theorem slots_do_not_mix (ideal : SealIdeal β)
    (hhash : Function.Injective (Sodium.sha512 : Bytes β → Bytes β)) :
    (∀ {σ τ : Type} (ss : SealedStore β σ) (ss' : SealedStore β τ) {s s' : Slot β}
      {pt ct : Bytes β} {nonce : Rng β} {cap : Nat} {a a' : τ}, s' ≠ s →
        ss.sealAt s pt nonce = .ok ct → ss'.real.load s' scratchLen a = (.ok ct, a') →
        (∃ e, (ss'.load s' cap a).1 = .error e) ∧
        (ss'.kek ≠ none → s'.Fits → pt.length ≤ cap →
          (ss'.load s' cap a).1 = .error .verify)) ∧
    (∀ {u d u' d' : Bytes β}, DevrecIds u d → DevrecIds u' d' → (u, d) ≠ (u', d') →
      devrecPreimage u d ≠ devrecPreimage u' d' ∧
        ∃ k k', gyDevrecKey u d = .ok k ∧ gyDevrecKey u' d' = .ok k' ∧ k ≠ k') := by
  constructor
  · intro σ τ ss ss' s s' pt ct nonce cap a a' hne hct happ
    cases hk : ss'.kek with
    | none => exact ⟨ss'.load_locked hk happ (SealedStore.sealAt_ne_nil hct), by simp⟩
    | some kek =>
      obtain ⟨hlong, hfits⟩ := SealedStore.load_moved ideal hne hct cap happ hk
      refine ⟨?_, fun _ hf hcap => ?_⟩
      · by_cases hf : s'.Fits
        · exact ⟨_, hfits hf⟩
        · exact ⟨_, hlong hf⟩
      · rw [hfits hf, if_neg (Nat.not_lt.mpr hcap)]
  · intro u d u' d' h h' hne
    have hpre : devrecPreimage u d ≠ devrecPreimage u' d' := fun heq =>
      hne (Prod.ext_iff.mpr (devrecPreimage_inj h h' heq))
    exact ⟨hpre, _, _, gyDevrecKey_eq h, gyDevrecKey_eq h', fun heq => hpre (hhash heq)⟩

end Moved

/-! ## The symbolic store -/

open Geryon.Sym in
/-- The symbolic tag names everything it was made from. -/
theorem tag_inj {key key' nonce nonce' ad ad' pt pt' : Bytes Sym} {len : Nat} (hlen : 0 < len)
    (h : tag key nonce ad pt len = tag key' nonce' ad' pt' len) :
    key = key' ∧ nonce = nonce' ∧ ad = ad' ∧ pt = pt' := by
  obtain ⟨-, hin, -⟩ := prim_inj hlen hlen hlen (i := 0) (j := 0) (congrArg (List.take len) h)
  simpa using hin

open Geryon.Sym in
/-- The symbolic AEADs are ideal. -/
theorem sym_sealIdeal : SealIdeal Sym where
  length := by
    intro alg key nonce ad pt ct h
    cases alg with
    | aegis256 =>
      obtain rfl := Option.some.inj h
      simp [tag, SealAlg.tagLen, AeadAlg.tagLen, aeadTagLen, aeadAlg]
    | xchacha20poly1305 =>
      obtain rfl := Option.some.inj h
      simp [tag, SealAlg.tagLen]
  binds := by
    intro alg key key' nonce nonce' ad ad' pt pt' ct h h'
    -- both algorithms append a tag, of different lengths
    obtain ⟨len, hpos, rfl, hdec⟩ : ∃ len, 0 < len ∧ ct = pt ++ tag key nonce ad pt len ∧
        (if ct = ct.take (ct.length - len) ++ tag key' nonce' ad' (ct.take (ct.length - len)) len
          then some (ct.take (ct.length - len)) else none) = some pt' := by
      cases alg with
      | aegis256 => exact ⟨32, by decide, (Option.some.inj h).symm, h'⟩
      | xchacha20poly1305 => exact ⟨16, by decide, (Option.some.inj h).symm, h'⟩
    have htake : (pt ++ tag key nonce ad pt len).take
        ((pt ++ tag key nonce ad pt len).length - len) = pt := by
      simp [tag]
    rw [htake] at hdec
    split at hdec
    · rename_i heq
      obtain rfl := Option.some.inj hdec
      obtain ⟨hkey, hnonce, had, -⟩ := tag_inj hpos (List.append_cancel_left heq)
      exact ⟨hkey.symm, hnonce.symm, had.symm, rfl⟩
    · cases hdec

open Geryon.Sym in
theorem sym_sha512_injective : Function.Injective (Sodium.sha512 : Bytes Sym → Bytes Sym) := by
  intro b b' h
  obtain ⟨-, hin, -⟩ := prim_inj (m := 64) (by decide) (by decide) (by decide) (i := 0) (j := 0)
    (congrArg (List.take 64) h)
  exact hin

/-- An application that answers every load with one blob. -/
def answering (ct : Bytes Sym) : StoreCallbacks Sym Unit where
  loadRecord _ _ _ := pure ct
  storeRecord _ _ _ := pure ()
  deleteRecord _ _ := pure ()
  loadIdentity _ := pure ct
  storeIdentity _ := pure ()
  loadPrekey _ _ _ := pure ct
  consumeOpk _ := pure ()

open Geryon.Sym in
/-- The sealed identity is no prekey, and moving an octet from the device to the user identifier
changes the device-record key. -/
theorem slots_do_not_mix_sym : ∃ ct,
    (SealedStore.mk (some []) (answering []) sealAlgAegis256).sealAt .identity [] (symRng 0) =
      .ok ct ∧
    ((SealedStore.mk (some []) (answering ct) sealAlgAegis256).load (.prekey .spk 7) 0 ()).1 =
      .error .verify ∧
    devrecPreimage [byte 1, byte 2] [byte 3] ≠ devrecPreimage [byte 1] [byte 2, byte 3] := by
  obtain ⟨ct, hct⟩ := @sym_gySeal scratchLen [] identityAd [] 0 (by decide) (by decide)
  obtain ⟨hload, hkey⟩ := slots_do_not_mix sym_sealIdeal sym_sha512_injective
  have hct : (SealedStore.mk (some []) (answering []) sealAlgAegis256).sealAt .identity []
      (symRng 0) = .ok ct := hct
  refine ⟨ct, hct, ?_, ?_⟩
  · refine (hload _ (SealedStore.mk (some []) (answering ct) sealAlgAegis256) ?_ hct rfl).2 ?_
      trivial (Nat.le_refl 0)
    · exact fun h => by cases h
    · exact fun h => by cases h
  · exact (hkey ⟨by decide, by decide⟩ ⟨by decide, by decide⟩ (by decide)).1

end Geryon
