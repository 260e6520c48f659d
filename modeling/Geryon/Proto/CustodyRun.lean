import Geryon.Proto.Bootstrap
import Mathlib.Logic.Relation

/-!
# What a call on a custodian can do

Every call is a sequence of small moves (`Move`): a change of the material and of the handle table
that is sealed and persisted, the destruction of a one-time prekey whose persist failed, or a new
wrap of the key-encryption key. A call that fails otherwise leaves everything as it was, including
the handle table, because what it undoes is exactly what it did.

## Main results

- `Live.step_moves`: a call is a sequence of moves.
- `Move.ok`: moves keep a custodian in order.
-/

namespace Geryon

variable {β : Type} [Octet β] [Signer β] [Sodium β] [SodiumKeystore β] [StructLayout β]

/-! ## Persisting -/

omit [Signer β] [Sodium β] [SodiumKeystore β] in
/-- A persist that fails leaves the blob. -/
theorem custPersistHeader_error {c : GyCustodian β} {tail blob blob' : Bytes β}
    {fault : Option GyErr} {e : GyErr}
    (h : custPersistHeader c tail fault blob = (.error e, blob')) :
    blob' = blob := by
  unfold custPersistHeader at h
  split at h
  · exact (Prod.mk.inj h).2.symm
  · split at h
    · exact (Prod.mk.inj h).2.symm
    · split at h
      · exact (Prod.mk.inj h).2.symm
      · cases h

omit [Signer β] [Sodium β] [SodiumKeystore β] in
/-- A persist that succeeds writes the header and the tail. -/
theorem custPersistHeader_ok {c : GyCustodian β} {tail blob blob' : Bytes β}
    {fault : Option GyErr} (h : custPersistHeader c tail fault blob = (.ok (), blob')) :
    ∃ hdr, gyCustHeaderEncode (custBlobMax β) c.header = .ok hdr ∧ blob' = hdr ++ tail := by
  unfold custPersistHeader at h
  split at h
  · cases h
  · split at h
    · cases h
    · rename_i hdr henc
      split at h
      · cases h
      · exact ⟨hdr, henc, (Prod.mk.inj h).2.symm⟩

omit [Signer β] [Sodium β] [SodiumKeystore β] in
/-- A header with addresses and a wrap within their limits is written, unless the callback fails. -/
theorem custPersistHeader_eq (c : GyCustodian β) {tail : Bytes β} (fault : Option GyErr)
    (huid : c.selfUid.length ≤ userIdMax) (hdid : c.selfDid.length ≤ deviceIdMax)
    (hwrap : c.wrap.length ≤ keystoreWrapMax) (htail : tail.length ≤ custHybridIdmatSealedMax β)
    (blob : Bytes β) :
    ∃ hdr, gyCustHeaderEncode (custBlobMax β) c.header = .ok hdr ∧
      custPersistHeader c tail fault blob =
        match fault with
        | some e => (.error e, blob)
        | none => (.ok (), hdr ++ tail) := by
  have henc : ∃ hdr, gyCustHeaderEncode (custBlobMax β) c.header = .ok hdr := by
    unfold gyCustHeaderEncode
    rw [if_neg (by simp only [GyCustodian.header]; omega),
      if_neg (by simp only [GyCustodian.header, custBlobMax, custHdrMax]; omega)]
    exact ⟨_, rfl⟩
  obtain ⟨hdr, henc⟩ := henc
  refine ⟨hdr, henc, ?_⟩
  have hlt : ¬ custHybridIdmatSealedMax β < tail.length := by omega
  cases fault <;> simp only [custPersistHeader, if_neg hlt, henc]

omit [Signer β] in
/-- A persist that fails leaves the blob. -/
theorem custSealAndPersist_error {c : GyCustodian β} {m : IdMat β c.desc.isHybrid}
    {env : PersistEnv β} {blob blob' : Bytes β} {e : GyErr}
    (h : custSealAndPersist c m env blob = (.error e, blob')) : blob' = blob := by
  unfold custSealAndPersist at h
  split at h
  · exact (Prod.mk.inj h).2.symm
  · exact custPersistHeader_error h

/-- The blob is the one of a custodian's own header, with the given material. -/
def GyCustodian.Persisted (c : GyCustodian β) (m : Option (IdMat β c.desc.isHybrid))
    (blob : Bytes β) : Prop :=
  PersistedAs c.desc c.selfUid c.selfDid c.wrap c.kek m blob

omit [Signer β] in
/-- A persist that succeeds leaves a blob that opens to the custodian. -/
theorem custSealAndPersist_ok {c : GyCustodian β} {m : IdMat β c.desc.isHybrid}
    {env : PersistEnv β} {blob blob' : Bytes β}
    (h : custSealAndPersist c m env blob = (.ok (), blob')) : c.Persisted (some m) blob' := by
  unfold custSealAndPersist at h
  split at h
  · cases h
  · rename_i sealed hseal
    obtain ⟨hdr, henc, rfl⟩ := custPersistHeader_ok h
    exact ⟨⟨hdr, sealed, henc, ⟨env.nonce, hseal⟩, rfl⟩⟩

/-! ## Pool slots -/

section Pool

variable {κ : Type}

/-- The keys of a list of pool slots. -/
def heldKeys (opks : List (Option (HeldOpk κ))) : List κ :=
  opks.filterMap fun o => o.map HeldOpk.key

@[simp] theorem heldKeys_nil : heldKeys ([] : List (Option (HeldOpk κ))) = [] := rfl

/-- An empty slot holds no key. -/
@[simp] theorem heldKeys_cons_none (opks : List (Option (HeldOpk κ))) :
    heldKeys (none :: opks) = heldKeys opks := rfl

/-- A slot in use holds its key. -/
@[simp] theorem heldKeys_cons_some (x : HeldOpk κ) (opks : List (Option (HeldOpk κ))) :
    heldKeys (some x :: opks) = x.key :: heldKeys opks := rfl

/-- Slots that were just filled hold the keys in order. -/
theorem heldKeys_fresh (ks : List κ) :
    heldKeys (ks.map fun k => (some ⟨k, false⟩ : Option (HeldOpk κ))) = ks := by
  simp [heldKeys, List.filterMap_map]

/-- The keys filled in are added to those held. -/
theorem heldKeys_fillOpks (gen : List κ) (opks : List (Option (HeldOpk κ))) :
    (heldKeys ((fillOpks gen opks).map Prod.fst)).Perm (gen ++ heldKeys opks) := by
  fun_induction fillOpks gen opks with
  | case1 opks => simp [Function.comp_def]
  | case2 ks _ =>
    have hid : heldKeys ((ks.map fun k => ((some ⟨k, false⟩ : Option (HeldOpk κ)), true)).map
        Prod.fst) = ks := by
      rw [List.map_map]
      exact heldKeys_fresh ks
    rw [hid]
    simp
  | case3 k ks opks ih => simpa using ih
  | case4 k ks x opks ih =>
    simp only [List.map_cons, heldKeys_cons_some]
    exact (List.Perm.cons x.key ih).trans List.perm_middle.symm

/-- The pool grows past its high-water mark only when every slot below is in use. -/
theorem length_fillOpks_le (gen : List κ) (opks : List (Option (HeldOpk κ))) :
    (fillOpks gen opks).length ≤ max opks.length (gen.length + (heldKeys opks).length) := by
  fun_induction fillOpks gen opks with
  | case1 opks => simp
  | case2 ks _ => simp
  | case3 k ks opks ih =>
    simp only [List.length_cons, heldKeys_cons_none]
    omega
  | case4 k ks x opks ih =>
    simp only [List.length_cons, heldKeys_cons_some] at ih ⊢
    omega

/-- Wiping the slots that were filled, down to the old high-water mark, gives back the pool. -/
theorem wipeMarked_fillOpks (gen : List κ) (opks : List (Option (HeldOpk κ))) :
    (wipeMarked (fillOpks gen opks)).take opks.length = opks := by
  fun_induction fillOpks gen opks with
  | case1 opks => simp [wipeMarked, Function.comp_def]
  | case2 ks _ => simp
  | case3 k ks opks ih => exact congrArg (none :: ·) ih
  | case4 k ks x opks ih => exact congrArg (some x :: ·) ih

/-- A key that was just filled in can be reserved. -/
theorem custFirstReservableOpk_fillOpks {gen : List κ} (hgen : gen ≠ [])
    (opks : List (Option (HeldOpk κ))) :
    ∃ i, custFirstReservableOpk ((fillOpks gen opks).map Prod.fst) = some i := by
  rw [← Option.isSome_iff_exists, custFirstReservableOpk, List.findIdx?_isSome, List.any_eq_true]
  fun_induction fillOpks gen opks with
  | case1 opks => exact absurd rfl hgen
  | case2 ks _ =>
    obtain ⟨k, ks, rfl⟩ := List.exists_cons_of_ne_nil hgen
    exact ⟨some ⟨k, false⟩, by simp, rfl⟩
  | case3 k ks opks ih => exact ⟨some ⟨k, false⟩, by simp, rfl⟩
  | case4 k ks x opks ih =>
    obtain ⟨o, ho, hany⟩ := ih hgen
    exact ⟨o, List.mem_cons_of_mem _ ho, hany⟩

/-- Marking a key as exported does not change the keys that are held. -/
theorem heldKeys_setExported (i : Nat) (b : Bool) (opks : List (Option (HeldOpk κ))) :
    heldKeys (setExported i b opks) = heldKeys opks := by
  induction opks generalizing i with
  | nil => cases i <;> rfl
  | cons o opks ih =>
    cases i with
    | zero => cases o <;> rfl
    | succ i =>
      have h := ih i
      cases o with
      | none => exact h
      | some x => exact congrArg (x.key :: ·) h

/-- Nor their number. -/
theorem length_setExported (i : Nat) (b : Bool) (opks : List (Option (HeldOpk κ))) :
    (setExported i b opks).length = opks.length := by
  simp [setExported]

/-- Taking back the mark of a key that was not exported gives back the pool. -/
theorem setExported_undo {i : Nat} {opks : List (Option (HeldOpk κ))}
    (hi : custFirstReservableOpk opks = some i) :
    setExported i false (setExported i true opks) = opks := by
  induction opks generalizing i with
  | nil => cases hi
  | cons o opks ih =>
    rw [custFirstReservableOpk, List.findIdx?_cons] at hi
    split at hi
    · rename_i ho
      obtain rfl := Option.some.inj hi
      cases o with
      | none => cases ho
      | some x =>
        obtain ⟨k, exported⟩ := x
        cases exported with
        | false => rfl
        | true => cases ho
    · obtain ⟨j, hj, rfl⟩ := Option.map_eq_some_iff.mp hi
      exact congrArg (o :: ·) (ih hj)

/-- Freeing a slot in use removes its key. -/
theorem heldKeys_set_none {i : Nat} {x : HeldOpk κ} {opks : List (Option (HeldOpk κ))}
    (hi : opks[i]? = some (some x)) :
    (heldKeys opks).Perm (x.key :: heldKeys (opks.set i none)) := by
  induction opks generalizing i with
  | nil => simp at hi
  | cons o opks ih =>
    cases i with
    | zero =>
      obtain rfl : o = some x := by simpa using hi
      exact .refl _
    | succ i =>
      have h := ih (i := i) (by simpa using hi)
      cases o with
      | none => exact h
      | some y => exact (List.Perm.cons y.key h).trans (List.Perm.swap _ _ _)

/-- Writing back what was taken out restores the slots. -/
theorem set_none_set {i : Nat} {opks : List (Option (HeldOpk κ))} {o : Option (HeldOpk κ)}
    (hi : opks[i]? = some o) : (opks.set i none).set i opks[i]?.join = opks := by
  obtain ⟨hlt, rfl⟩ := List.getElem?_eq_some_iff.mp hi
  rw [List.set_set, hi]
  exact List.set_getElem_self hlt

end Pool

omit [Octet β] [Signer β] [Sodium β] [SodiumKeystore β] [StructLayout β] in
/-- The held keys of the key material. -/
theorem IdMat.held_eq {h : Bool} (m : IdMat β h) : m.held = heldKeys m.opks := rfl

omit [Octet β] [Signer β] [Sodium β] [SodiumKeystore β] [StructLayout β] in
/-- The slot of an identifier holds the key of that identifier. -/
theorem opkIndex_eq_some {h : Bool} {pkid : UInt32} {opks : List (Option (HeldOpk (OpkOf β h)))}
    {i : Nat} (hi : opkIndex pkid opks = some i) :
    ∃ x, opks[i]? = some (some x) ∧ x.key.pkid = pkid := by
  rw [opkIndex, List.findIdx?_eq_some_iff_getElem] at hi
  obtain ⟨hlt, hany, -⟩ := hi
  cases hx : opks[i] with
  | none =>
    rw [hx] at hany
    cases hany
  | some x =>
    rw [hx] at hany
    exact ⟨x, by rw [List.getElem?_eq_getElem hlt, hx], of_decide_eq_true hany⟩

/-! ## Moves -/

/-- The changes of material and handle table that operations persist. -/
inductive Edit (desc : SuiteDesc β) (m : IdMat β desc.isHybrid) (t : SlotTable) :
    IdMat β desc.isHybrid → SlotTable → Prop
  | rotateSpk {timestamp rnd spk}
      (hgen : gySignedPrekeyGenerate desc desc.isHybrid m.ik timestamp rnd = .ok spk) :
      Edit desc m t { m with spks := pushHistory spkHistoryMax spk m.spks }
        (custSlotRegister ⟨.spk, spk.pkid⟩
          (freeEvicted .spk SpkOf.pkid spkHistoryMax m.spks t)).2
  | replenish {count rnd gen} (hroom : count ≤ opkBatchMax - m.held.length)
      (hgen : gyOpkGenerate desc desc.isHybrid count (m.held.map OpkOf.pkid) rnd = .ok gen) :
      Edit desc m t { m with opks := (fillOpks gen m.opks).map Prod.fst }
        (registerAll (gen.map fun k => ⟨.opk, k.pkid⟩) t)
  | reserve (i : Nat) : Edit desc m t { m with opks := setExported i true m.opks } t
  | dropSpk {handle pkid} (hget : gyCustodianSlotGet handle t = .ok ⟨.spk, pkid⟩)
      (hhead : m.spks.head?.map SpkOf.pkid ≠ some pkid)
      (hmem : ∃ k ∈ m.spks.drop 1, k.pkid = pkid) :
      Edit desc m t { m with
        spks := m.spks.take 1 ++ (m.spks.drop 1).eraseP fun k => decide (k.pkid = pkid) }
        (gyCustodianSlotFree handle t)
  | dropOpk {handle pkid i} (hget : gyCustodianSlotGet handle t = .ok ⟨.opk, pkid⟩)
      (hi : opkIndex pkid m.opks = some i) :
      Edit desc m t { m with opks := m.opks.set i none } (gyCustodianSlotFree handle t)
  | consume {pkid i} (hi : opkIndex pkid m.opks = some i) :
      Edit desc m t { m with opks := m.opks.set i none } (freeKey ⟨.opk, pkid⟩ t)
  | appkey {issuedAt expiry rnd sak}
      (hgen : custMint desc desc.isHybrid m.ik issuedAt expiry rnd = .ok sak) (hnil : m.saks = []) :
      Edit desc m t { m with saks := [sak] } (custSlotRegister ⟨.sak, sak.pkid⟩ t).2
  | rotateSak {issuedAt expiry rnd sak}
      (hgen : custMint desc desc.isHybrid m.ik issuedAt expiry rnd = .ok sak) :
      Edit desc m t { m with saks := pushHistory sakHistoryMax sak m.saks }
        (custSlotRegister ⟨.sak, sak.pkid⟩
          (freeEvicted .sak SakOf.pkid sakHistoryMax m.saks t)).2

/-- A wrap of a key under some credential. -/
def WrapOf (kek wrap : Bytes β) : Prop :=
  ∃ cred rnd, gyKekprotWrap sealAlgAegis256 pwhashOpslimitMin pwhashMemlimitMin cred [] kek rnd =
    .ok wrap

omit [Signer β] [StructLayout β] in
/-- A wrap fills its field. -/
theorem WrapOf.length (laws : SealLaws β) {kek wrap : Bytes β} (hw : WrapOf kek wrap)
    (hkek : kek.length = kekprotKekLen) : wrap.length = keystoreWrapMax := by
  obtain ⟨cred, rnd, hwrap⟩ := hw
  obtain ⟨p⟩ := gyKekprotWrap_parts hwrap
  rw [p.hlen, length_gySeal laws p.hblob, hkek]
  rfl

/-- The moves of a live custodian. -/
inductive Move : Live β → Live β → Prop
  | identity {c blob m timestamp n rnd blob'} (hnone : c.mat = none) (hn : n ≤ opkBatchMax)
      (hgen : generateIdmat c.desc c.desc.isHybrid timestamp n rnd = .ok m)
      (hp : c.Persisted (some m) blob') :
      Move ⟨c, blob⟩ ⟨{ c with mat := some m, slots := registerAll m.keySlots c.slots }, blob'⟩
  | edit {c blob m m1 t1 blob'} (hm : c.mat = some m) (he : Edit c.desc m c.slots m1 t1)
      (hp : c.Persisted (some m1) blob') :
      Move ⟨c, blob⟩ ⟨{ c with mat := some m1, slots := t1 }, blob'⟩
  | lose {c blob m pkid i} (hm : c.mat = some m) (hi : opkIndex pkid m.opks = some i) :
      Move ⟨c, blob⟩ ⟨{ c with
        mat := some { m with opks := m.opks.set i none }
        slots := freeKey ⟨.opk, pkid⟩ c.slots }, blob⟩
  | rewrap {c blob wrap hdr hdr' tail} (hw : WrapOf c.kek wrap)
      (hold : gyCustHeaderDecode blob = .ok (hdr, tail))
      (henc : gyCustHeaderEncode (custBlobMax β) ⟨c.desc.suiteId, c.selfUid, c.selfDid, wrap⟩ =
        .ok hdr') :
      Move ⟨c, blob⟩ ⟨{ c with wrap := wrap }, hdr' ++ tail⟩
  | rewrapLive {c blob wrap} (hw : WrapOf c.kek wrap) :
      Move ⟨c, blob⟩ ⟨{ c with wrap := wrap }, blob⟩

/-- The identifiers of the one-time prekeys a custodian holds. -/
def GyCustodian.heldIds (c : GyCustodian β) : List UInt32 :=
  c.mat.elim [] fun m => m.held.map OpkOf.pkid

/-- What holds of a live custodian whatever its handles are: the table has its fixed size, no
one-time prekey has more handles than there are held keys of its identifier, the identifiers of the
held one-time prekeys are present and differ, and an identity comes with a signed prekey. -/
structure GyCustodian.Ok (c : GyCustodian β) : Prop where
  length : c.slots.length = custodianMaxSlots
  handles : ∀ id, (Slots.inUse c.slots).count (⟨.opk, id⟩ : KeySlot) ≤ c.heldIds.count id
  distinct : c.heldIds.Nodup
  present : (0 : UInt32) ∉ c.heldIds
  spks : ∀ {m}, c.mat = some m → m.spks ≠ []

omit [Octet β] [Signer β] [Sodium β] [SodiumKeystore β] [StructLayout β] in
/-- A handle of a one-time prekey names a key that is held. -/
theorem GyCustodian.Ok.sound {c : GyCustodian β} (hok : c.Ok) {id : UInt32}
    (h : (⟨.opk, id⟩ : KeySlot) ∈ Slots.inUse c.slots) : id ∈ c.heldIds := by
  have hpos := List.count_pos_iff.mpr h
  have hle := hok.handles id
  exact List.count_pos_iff.mp (by omega)

omit [Octet β] [Signer β] [Sodium β] [SodiumKeystore β] [StructLayout β] in
/-- A one-time prekey has at most one handle. -/
theorem GyCustodian.Ok.unique {c : GyCustodian β} (hok : c.Ok) (id : UInt32) :
    (Slots.inUse c.slots).count (⟨.opk, id⟩ : KeySlot) ≤ 1 :=
  (hok.handles id).trans (List.nodup_iff_count_le_one.mp hok.distinct id)

/-- Freeing keys one by one is clearing their slots. -/
theorem foldl_freeKey (ks : List KeySlot) {t : SlotTable} (ht : t.length = custodianMaxSlots) :
    ks.foldl (fun t k => freeKey k t) t = Slots.clearAll ks t := by
  induction ks generalizing t with
  | nil => rfl
  | cons k ks ih =>
    show ks.foldl (fun t k => freeKey k t) (freeKey k t) = _
    rw [freeKey_eq ht]
    exact ih (by simpa using ht)

/-- The handle slot of a one-time prekey. -/
def opkSlot {h : Bool} (k : OpkOf β h) : KeySlot := ⟨.opk, k.pkid⟩

/-- Different identifiers are different slots. -/
theorem opkSlot_injective : Function.Injective (fun id : UInt32 => (⟨.opk, id⟩ : KeySlot)) :=
  fun _ _ hab => (KeySlot.mk.inj hab).2

omit [Octet β] [Signer β] [Sodium β] [SodiumKeystore β] [StructLayout β] in
/-- A slot is counted as often as its identifier. -/
theorem count_map_opkSlot {h : Bool} (l : List (OpkOf β h)) (id : UInt32) :
    (l.map opkSlot).count (⟨.opk, id⟩ : KeySlot) = (l.map OpkOf.pkid).count id := by
  have := List.count_map_of_injective (l.map OpkOf.pkid) _ opkSlot_injective id
  rwa [List.map_map] at this

omit [Octet β] [Signer β] [Sodium β] [SodiumKeystore β] [StructLayout β] in
/-- One-time prekeys with distinct identifiers have distinct slots. -/
theorem opkSlot_nodup {h : Bool} {l : List (OpkOf β h)} (hl : (l.map OpkOf.pkid).Nodup) :
    (l.map opkSlot).Nodup := by
  have := hl.map opkSlot_injective
  rwa [List.map_map] at this

/-! ## Calls, case by case -/

/-- An identity is generated and persisted, or nothing changes. -/
theorem gyCustodianGenerateIdentity_cases (timestamp : UInt64) (n : Nat) (rnd : IdentityRand β)
    (env : PersistEnv β) (s : Live β) :
    (∃ e, gyCustodianGenerateIdentity timestamp n rnd env s = (.error e, s)) ∨
    ∃ m blob', s.cust.mat = none ∧ n ≤ opkBatchMax ∧
      generateIdmat s.cust.desc s.cust.desc.isHybrid timestamp n rnd = .ok m ∧
      s.cust.Persisted (some m) blob' ∧
      gyCustodianGenerateIdentity timestamp n rnd env s = (.ok (), ⟨{ s.cust with
        mat := some m, slots := registerAll m.keySlots s.cust.slots }, blob'⟩) := by
  obtain ⟨⟨desc, uid, did, wrap, kek, clock, expiry, mat, slots⟩, blob⟩ := s
  cases mat with
  | some m => exact Or.inl ⟨.state, rfl⟩
  | none =>
    unfold gyCustodianGenerateIdentity
    rw [if_neg (by simp)]
    by_cases hn : opkBatchMax < n
    · exact Or.inl ⟨.arg, if_pos hn⟩
    · rw [if_neg hn]
      dsimp only
      cases hgen : generateIdmat desc desc.isHybrid timestamp n rnd with
      | error e => exact Or.inl ⟨e, rfl⟩
      | ok m =>
        dsimp only
        -- a failed write leaves the blob, and the material was none before
        split
        · rename_i e blob' hp
          obtain rfl := custSealAndPersist_error hp
          exact Or.inl ⟨e, rfl⟩
        · rename_i blob' hp
          exact Or.inr ⟨m, blob', rfl, by omega, rfl, custSealAndPersist_ok hp, rfl⟩

/-- An identity is generated when its material is generated and persisted. -/
theorem gyCustodianGenerateIdentity_ok {timestamp : UInt64} {n : Nat} {rnd : IdentityRand β}
    {env : PersistEnv β} {s : Live β} {m : IdMat β s.cust.desc.isHybrid} {blob' : Bytes β}
    (hnone : s.cust.mat = none) (hn : n ≤ opkBatchMax)
    (hgen : generateIdmat s.cust.desc s.cust.desc.isHybrid timestamp n rnd = .ok m)
    (hp : custSealAndPersist s.cust m env s.blob = (.ok (), blob')) :
    gyCustodianGenerateIdentity timestamp n rnd env s = (.ok (), ⟨{ s.cust with
      mat := some m, slots := registerAll m.keySlots s.cust.slots }, blob'⟩) := by
  have hp' : custSealAndPersist { s.cust with mat := some m } m env s.blob = (.ok (), blob') := hp
  unfold gyCustodianGenerateIdentity
  rw [if_neg (by simp [hnone]), if_neg (by omega), hgen]
  dsimp only
  rw [hp']

/-- A signed prekey is rotated in and persisted, or nothing changes. -/
theorem gyCustodianRotateSignedPrekey_cases (timestamp : UInt64) (rnd : KeyRand β)
    (env : PersistEnv β) (s : Live β) :
    (∃ e, gyCustodianRotateSignedPrekey timestamp rnd env s = (.error e, s)) ∨
    ∃ m spk blob', s.cust.mat = some m ∧
      gySignedPrekeyGenerate s.cust.desc s.cust.desc.isHybrid m.ik timestamp rnd = .ok spk ∧
      s.cust.Persisted (some { m with spks := pushHistory spkHistoryMax spk m.spks }) blob' ∧
      gyCustodianRotateSignedPrekey timestamp rnd env s = (.ok (), ⟨{ s.cust with
        mat := some { m with spks := pushHistory spkHistoryMax spk m.spks }
        slots := (custSlotRegister ⟨.spk, spk.pkid⟩
          (freeEvicted .spk SpkOf.pkid spkHistoryMax m.spks s.cust.slots)).2 }, blob'⟩) := by
  obtain ⟨⟨desc, uid, did, wrap, kek, clock, expiry, mat, slots⟩, blob⟩ := s
  cases mat with
  | none => exact Or.inl ⟨.state, rfl⟩
  | some m =>
    unfold gyCustodianRotateSignedPrekey
    dsimp only
    cases hgen : gySignedPrekeyGenerate desc desc.isHybrid m.ik timestamp rnd with
    | error e => exact Or.inl ⟨e, rfl⟩
    | ok spk =>
      dsimp only
      -- a failed write puts the old history back
      split
      · rename_i e blob' hp
        obtain rfl := custSealAndPersist_error hp
        exact Or.inl ⟨e, rfl⟩
      · rename_i blob' hp
        exact Or.inr ⟨m, spk, blob', rfl, hgen, custSealAndPersist_ok hp, rfl⟩

omit [Signer β] in
/-- One-time prekeys are filled in and persisted, or nothing changes: the slots and the handles of a
failed call are given back exactly. -/
theorem custReplenishOpks_cases (count : Nat) (rnd : KeyRand β) (env : PersistEnv β) {s : Live β}
    (hok : s.cust.Ok) :
    (∃ e, custReplenishOpks count rnd env s = (.error e, s)) ∨
    ∃ m gen blob', s.cust.mat = some m ∧ count ≤ opkBatchMax - m.held.length ∧
      gyOpkGenerate s.cust.desc s.cust.desc.isHybrid count (m.held.map OpkOf.pkid) rnd = .ok gen ∧
      custSealAndPersist s.cust { m with opks := (fillOpks gen m.opks).map Prod.fst } env s.blob =
        (.ok (), blob') ∧
      custReplenishOpks count rnd env s = (.ok (), ⟨{ s.cust with
        mat := some { m with opks := (fillOpks gen m.opks).map Prod.fst }
        slots := registerAll (gen.map fun k => ⟨.opk, k.pkid⟩) s.cust.slots }, blob'⟩) := by
  obtain ⟨⟨desc, uid, did, wrap, kek, clock, expiry, mat, slots⟩, blob⟩ := s
  cases mat with
  | none => exact Or.inl ⟨.state, rfl⟩
  | some m =>
    unfold custReplenishOpks
    dsimp only
    by_cases hcount : count = 0 ∨ opkBatchMax < count
    · exact Or.inl ⟨.arg, if_pos hcount⟩
    · rw [if_neg hcount]
      by_cases hroom : opkBatchMax - m.held.length < count
      · exact Or.inl ⟨.noSpace, if_pos hroom⟩
      · rw [if_neg hroom]
        cases hgen : gyOpkGenerate desc desc.isHybrid count (m.held.map OpkOf.pkid) rnd with
        | error e => exact Or.inl ⟨e, rfl⟩
        | ok gen =>
          dsimp only
          split
          · rename_i e blob' hp
            obtain rfl := custSealAndPersist_error hp
            refine Or.inl ⟨e, ?_⟩
            obtain ⟨-, -, hnodup, hnew⟩ := gyOpkGenerate_spec desc hgen
            -- no handle carries the identifier of a new key, so freeing them undoes the
            -- registration
            have hout : ∀ k ∈ gen.map opkSlot, k ∉ Slots.inUse slots := by
              intro k hk hin
              obtain ⟨key, hkey, rfl⟩ := List.mem_map.mp hk
              exact (hnew key hkey).2 (hok.sound hin)
            have hslots : gen.foldl (fun t k => freeKey ⟨.opk, k.pkid⟩ t)
                (registerAll (gen.map fun k => ⟨.opk, k.pkid⟩) slots) = slots := by
              have hfold := foldl_freeKey (gen.map opkSlot)
                (t := registerAll (gen.map opkSlot) slots)
                (by rw [registerAll_eq, Slots.length_putAll]; exact hok.length)
              rw [List.foldl_map] at hfold
              exact hfold.trans (Slots.clearAll_putAll (opkSlot_nodup hnodup) hout)
            rw [hslots, wipeMarked_fillOpks]
          · rename_i blob' hp
            have hreinit : custReinitRecv desc.isHybrid m.spks = .ok () :=
              if_neg fun h => hok.spks rfl h.2
            rw [hreinit]
            exact Or.inr ⟨m, gen, blob', rfl, by omega, hgen, hp, rfl⟩

omit [Signer β] [Sodium β] [SodiumKeystore β] [StructLayout β] in
/-- A bundle is written exactly when the buffer holds it. -/
theorem custPutBundle_spec (desc : SuiteDesc β) {h : Bool} (hh : desc.isHybrid = h) (cap : Nat)
    (ik : IkOf β h) (spk : SpkOf β h) {opk : OpkOf β h} (hopk : opk.pkid ≠ 0) :
    if cap < custBundleLen desc then custPutBundle desc cap h ik spk opk = .error .arg
    else ∃ b, custPutBundle desc cap h ik spk opk = .ok b := by
  cases h with
  | false =>
    have hlen : custBundleLen desc = gyBundleWireLen desc true := by simp [custBundleLen, hh]
    -- a one-time prekey with an id makes the long form of the bundle
    have hpresent : decide ((opk : CurvePair β).pub.pkid ≠ 0) = true := decide_eq_true hopk
    rw [hlen]
    simp only [custPutBundle, gyBundlePut, hpresent]
    split
    · rfl
    · exact ⟨_, rfl⟩
  | true =>
    have hlen : custBundleLen desc = gyHybridBundleWireLen desc := by simp [custBundleLen, hh]
    rw [hlen]
    simp only [custPutBundle, gyHybridBundlePut, hh]
    split
    · rfl
    · exact ⟨_, rfl⟩

omit [Signer β] in
/-- A one-time prekey is reserved and the reservation persisted, whether or not the bundle fits the
buffer; if the persist fails nothing changes. -/
theorem reserveAndPut_cases (cap : Nat) (env : PersistEnv β) {s : Live β} (hok : s.cust.Ok)
    {m : IdMat β s.cust.desc.isHybrid} (hm : s.cust.mat = some m) {i : Nat}
    (hi : custFirstReservableOpk m.opks = some i) :
    (∃ e, custSealAndPersist s.cust { m with opks := setExported i true m.opks } env s.blob =
        (.error e, s.blob) ∧ reserveAndPut cap i env s = (.error e, s)) ∨
    ∃ r blob', custSealAndPersist s.cust { m with opks := setExported i true m.opks } env s.blob =
        (.ok (), blob') ∧
      (if cap < custBundleLen s.cust.desc then r = .error .arg else ∃ b, r = .ok b) ∧
      reserveAndPut cap i env s =
        (r, ⟨{ s.cust with mat := some { m with opks := setExported i true m.opks } }, blob'⟩) := by
  obtain ⟨⟨desc, uid, did, wrap, kek, clock, expiry, mat, slots⟩, blob⟩ := s
  change IdMat β desc.isHybrid at m
  obtain rfl : mat = some m := hm
  unfold reserveAndPut
  dsimp only
  split
  · rename_i e blob' hp
    obtain rfl := custSealAndPersist_error hp
    rw [setExported_undo hi]
    exact Or.inl ⟨e, hp, rfl⟩
  · rename_i blob' hp
    refine Or.inr ⟨_, blob', hp, ?_, rfl⟩
    -- the mark is set on the key at `i`, which is still there
    obtain ⟨x, hx⟩ : ∃ x, (setExported i true m.opks)[i]?.join = some x := by
      rw [custFirstReservableOpk, List.findIdx?_eq_some_iff_getElem] at hi
      obtain ⟨hlt, hany, -⟩ := hi
      cases ho : m.opks[i] with
      | none =>
        rw [ho] at hany
        cases hany
      | some x => exact ⟨{ x with exported := true }, by simp [setExported, hlt, ho]⟩
    have hheld : x.key ∈ m.held := by
      rw [IdMat.held_eq, ← heldKeys_setExported i true]
      have hmem : some x ∈ setExported i true m.opks := by
        rw [Option.join_eq_some_iff] at hx
        exact List.mem_of_getElem? hx
      exact List.mem_filterMap.mpr ⟨some x, hmem, rfl⟩
    obtain ⟨spk, rest, hspk⟩ := List.exists_cons_of_ne_nil (hok.spks rfl)
    -- a held key has an id, so the bundle is put with it
    have hpkid : x.key.pkid ≠ 0 := fun h0 =>
      hok.present (h0 ▸ List.mem_map_of_mem (f := OpkOf.pkid) hheld)
    have hput := custPutBundle_spec desc rfl cap m.ik spk hpkid
    rw [hspk, hx]
    exact hput

section Publish

variable {cap : Nat} {rnd : KeyRand β} {mint reserve : PersistEnv β} {s s1 : Live β}
  {m : IdMat β s.cust.desc.isHybrid}

omit [Signer β]

/-- A publication from a pool that is not spent. -/
theorem gyCustodianPublishBundle_reserve (hm : s.cust.mat = some m) {i : Nat}
    (hi : custFirstReservableOpk m.opks = some i) :
    gyCustodianPublishBundle cap rnd mint reserve s = reserveAndPut cap i reserve s := by
  unfold gyCustodianPublishBundle
  rw [hm]
  dsimp only
  rw [hi]

/-- A publication from a spent pool whose replenishment fails. -/
theorem gyCustodianPublishBundle_refused (hm : s.cust.mat = some m)
    (hi : custFirstReservableOpk m.opks = none) {e : GyErr}
    (hrep : custReplenishOpks 1 rnd mint s = (.error e, s1)) :
    gyCustodianPublishBundle cap rnd mint reserve s = (.error e, s1) := by
  unfold gyCustodianPublishBundle
  rw [hm]
  dsimp only
  rw [hi]
  dsimp only
  rw [hrep]

/-- A publication from a spent pool that was replenished. -/
theorem gyCustodianPublishBundle_mint (hm : s.cust.mat = some m)
    (hi : custFirstReservableOpk m.opks = none)
    (hrep : custReplenishOpks 1 rnd mint s = (.ok (), s1)) :
    gyCustodianPublishBundle cap rnd mint reserve s =
      match s1.cust.mat.bind fun m => custFirstReservableOpk m.opks with
      | none => (.error .crypto, s1)
      | some i => reserveAndPut cap i reserve s1 := by
  cases hres : s1.cust.mat.bind fun m => custFirstReservableOpk m.opks <;>
    simp only [gyCustodianPublishBundle, hm, hi, hrep, hres]

end Publish

omit [Signer β] in
/-- A publication is refused, or reserves the first key that was not exported, or mints a key first
when there is none. -/
theorem gyCustodianPublishBundle_cases (cap : Nat) (rnd : KeyRand β) (mint reserve : PersistEnv β)
    {s : Live β} (hok : s.cust.Ok) :
    (∃ e, gyCustodianPublishBundle cap rnd mint reserve s = (.error e, s)) ∨
    (∃ m i, s.cust.mat = some m ∧ custFirstReservableOpk m.opks = some i ∧
      gyCustodianPublishBundle cap rnd mint reserve s = reserveAndPut cap i reserve s) ∨
    ∃ m gen blob' i, s.cust.mat = some m ∧ custFirstReservableOpk m.opks = none ∧
      1 ≤ opkBatchMax - m.held.length ∧
      gyOpkGenerate s.cust.desc s.cust.desc.isHybrid 1 (m.held.map OpkOf.pkid) rnd = .ok gen ∧
      custSealAndPersist s.cust { m with opks := (fillOpks gen m.opks).map Prod.fst } mint s.blob =
        (.ok (), blob') ∧
      custFirstReservableOpk ((fillOpks gen m.opks).map Prod.fst) = some i ∧
      gyCustodianPublishBundle cap rnd mint reserve s = reserveAndPut cap i reserve
        ⟨{ s.cust with
          mat := some { m with opks := (fillOpks gen m.opks).map Prod.fst }
          slots := registerAll (gen.map fun k => ⟨.opk, k.pkid⟩) s.cust.slots }, blob'⟩ := by
  cases hm : s.cust.mat with
  | none =>
    refine Or.inl ⟨.state, ?_⟩
    unfold gyCustodianPublishBundle
    rw [hm]
  | some m =>
    cases hi : custFirstReservableOpk m.opks with
    -- a key is there to reserve
    | some i => exact Or.inr (Or.inl ⟨m, i, rfl, hi, gyCustodianPublishBundle_reserve hm hi⟩)
    | none =>
      rcases custReplenishOpks_cases 1 rnd mint hok with
        ⟨e, h⟩ | ⟨m', gen, blob', hm', hroom, hgen, hp, h⟩
      · exact Or.inl ⟨e, gyCustodianPublishBundle_refused hm hi h⟩
      · obtain rfl := Option.some.inj (hm.symm.trans hm')
        obtain ⟨-, hlen, -, -⟩ := gyOpkGenerate_spec _ hgen
        -- the minted key is the one the second look finds
        obtain ⟨i, hi'⟩ := custFirstReservableOpk_fillOpks
          (List.ne_nil_of_length_pos (by omega : 0 < gen.length)) m.opks
        refine Or.inr (Or.inr ⟨m, gen, blob', i, rfl, hi, hroom, hgen, hp, hi', ?_⟩)
        rw [gyCustodianPublishBundle_mint hm hi h]
        simp only [Option.bind_some, hi']

omit [Signer β] in
/-- A consumption leaves everything, or destroys the key in the live object; it reports success
then exactly when the destruction was persisted. -/
theorem trConsumeOpk_cases (pkid : UInt32) (app : Option GyErr) (env : PersistEnv β) (s : Live β) :
    (∃ e, app = some e ∧ trConsumeOpk pkid app env s = (.error e, s)) ∨
    (app = none ∧ (∀ m, s.cust.mat = some m → opkIndex pkid m.opks = none) ∧
      trConsumeOpk pkid app env s = (.ok (), s)) ∨
    ∃ m i r blob', s.cust.mat = some m ∧ opkIndex pkid m.opks = some i ∧
      ((r = .ok () ∧ s.cust.Persisted (some { m with opks := m.opks.set i none }) blob') ∨
        ((∃ e, r = .error e) ∧ blob' = s.blob)) ∧
      trConsumeOpk pkid app env s = (r, ⟨{ s.cust with
        mat := some { m with opks := m.opks.set i none }
        slots := freeKey ⟨.opk, pkid⟩ s.cust.slots }, blob'⟩) := by
  obtain ⟨⟨desc, uid, did, wrap, kek, clock, expiry, mat, slots⟩, blob⟩ := s
  unfold trConsumeOpk
  cases app with
  | some e => exact Or.inl ⟨e, rfl, rfl⟩
  | none =>
    cases mat with
    | none => exact Or.inr (Or.inl ⟨rfl, fun m hm => (nomatch hm), rfl⟩)
    | some m =>
      dsimp only
      cases hi : opkIndex pkid m.opks with
      | none =>
        refine Or.inr (Or.inl ⟨rfl, fun m' hm' => ?_, rfl⟩)
        obtain rfl := Option.some.inj hm'
        exact hi
      | some i =>
        refine Or.inr (Or.inr ⟨m, i, _, _, rfl, hi, ?_, rfl⟩)
        -- the key is dropped from memory in either case
        rcases hp : custSealAndPersist (⟨desc, uid, did, wrap, kek, clock, expiry, some m, slots⟩ :
          GyCustodian β) { m with opks := m.opks.set i none } env blob with ⟨r, blob'⟩
        cases r with
        | error e => exact Or.inr ⟨⟨e, rfl⟩, custSealAndPersist_error hp⟩
        | ok u => exact Or.inl ⟨rfl, custSealAndPersist_ok hp⟩

omit [Signer β] in
/-- A deletion removes the signed prekey from the history and frees its handle, or changes
nothing. -/
theorem deleteSpk_cases (handle : Nat) (pkid : UInt32) (env : PersistEnv β) {s : Live β}
    {m : IdMat β s.cust.desc.isHybrid} (hm : s.cust.mat = some m) (hspks : m.spks ≠ []) :
    (∃ e, deleteSpk handle pkid env s m = (.error e, s)) ∨
    ∃ blob', m.spks.head?.map SpkOf.pkid ≠ some pkid ∧ (∃ k ∈ m.spks.drop 1, k.pkid = pkid) ∧
      s.cust.Persisted (some { m with
        spks := m.spks.take 1 ++ (m.spks.drop 1).eraseP fun k => decide (k.pkid = pkid) }) blob' ∧
      deleteSpk handle pkid env s m = (.ok (), ⟨{ s.cust with
        mat := some { m with
          spks := m.spks.take 1 ++ (m.spks.drop 1).eraseP fun k => decide (k.pkid = pkid) }
        slots := gyCustodianSlotFree handle s.cust.slots }, blob'⟩) := by
  obtain ⟨⟨desc, uid, did, wrap, kek, clock, expiry, mat, slots⟩, blob⟩ := s
  change IdMat β desc.isHybrid at m
  obtain rfl : mat = some m := hm
  unfold deleteSpk
  by_cases hhead : m.spks.head?.map SpkOf.pkid = some pkid
  · exact Or.inl ⟨.state, if_pos hhead⟩
  · rw [if_neg hhead]
    by_cases hall : (m.spks.drop 1).all (fun k => decide (k.pkid ≠ pkid)) = true
    · exact Or.inl ⟨.notFound, if_pos hall⟩
    · rw [if_neg hall]
      dsimp only
      split
      · rename_i e blob' hp
        obtain rfl := custSealAndPersist_error hp
        exact Or.inl ⟨e, rfl⟩
      · rename_i blob' hp
        have hmem : ∃ k ∈ m.spks.drop 1, k.pkid = pkid := by simpa using hall
        -- the active prekey stays, so the ratchet can be set up again
        have hne : m.spks.take 1 ++ (m.spks.drop 1).eraseP (fun k => decide (k.pkid = pkid)) ≠
            [] := by
          obtain ⟨spk, rest, hspk⟩ := List.exists_cons_of_ne_nil hspks
          simp [hspk]
        have hreinit : custReinitRecv desc.isHybrid (m.spks.take 1 ++
            (m.spks.drop 1).eraseP fun k => decide (k.pkid = pkid)) = .ok () :=
          if_neg fun h => hne h.2
        rw [hreinit]
        exact Or.inr ⟨blob', hhead, hmem, custSealAndPersist_ok hp, rfl⟩

omit [Signer β] in
/-- A deletion removes the one-time prekey and frees its handle, or changes nothing. -/
theorem deleteOpk_cases (handle : Nat) (pkid : UInt32) (env : PersistEnv β) {s : Live β}
    {m : IdMat β s.cust.desc.isHybrid} (hm : s.cust.mat = some m) (hspks : m.spks ≠ []) :
    (∃ e, deleteOpk handle pkid env s m = (.error e, s)) ∨
    ∃ i blob', opkIndex pkid m.opks = some i ∧
      s.cust.Persisted (some { m with opks := m.opks.set i none }) blob' ∧
      deleteOpk handle pkid env s m = (.ok (), ⟨{ s.cust with
        mat := some { m with opks := m.opks.set i none }
        slots := gyCustodianSlotFree handle s.cust.slots }, blob'⟩) := by
  obtain ⟨⟨desc, uid, did, wrap, kek, clock, expiry, mat, slots⟩, blob⟩ := s
  change IdMat β desc.isHybrid at m
  obtain rfl : mat = some m := hm
  unfold deleteOpk
  cases hi : opkIndex pkid m.opks with
  | none => exact Or.inl ⟨.notFound, rfl⟩
  | some i =>
    dsimp only
    split
    · rename_i e blob' hp
      obtain rfl := custSealAndPersist_error hp
      -- putting the backup into its slot undoes the edit
      obtain ⟨x, hx, -⟩ := opkIndex_eq_some hi
      rw [set_none_set hx]
      exact Or.inl ⟨e, rfl⟩
    · rename_i blob' hp
      have hreinit : custReinitRecv desc.isHybrid m.spks = .ok () := if_neg fun h => hspks h.2
      rw [hreinit]
      exact Or.inr ⟨i, blob', rfl, custSealAndPersist_ok hp, rfl⟩

/-- An application key is minted and persisted, or nothing changes. -/
theorem gyCustodianGenerateAppkey_cases (now expiry : UInt64) (rnd : KeyRand β)
    (env : PersistEnv β) (s : Live β) :
    (∃ e, gyCustodianGenerateAppkey now expiry rnd env s = (.error e, s)) ∨
    ∃ m sak blob', s.cust.mat = some m ∧ m.saks = [] ∧
      custMint s.cust.desc s.cust.desc.isHybrid m.ik (s.cust.issuedAt now) expiry rnd = .ok sak ∧
      s.cust.Persisted (some { m with saks := [sak] }) blob' ∧
      gyCustodianGenerateAppkey now expiry rnd env s =
        (.ok (custSlotRegister ⟨.sak, sak.pkid⟩ s.cust.slots).1, ⟨{ s.cust with
          mat := some { m with saks := [sak] }
          slots := (custSlotRegister ⟨.sak, sak.pkid⟩ s.cust.slots).2 }, blob'⟩) := by
  obtain ⟨⟨desc, uid, did, wrap, kek, clock, expiry', mat, slots⟩, blob⟩ := s
  cases mat with
  | none => exact Or.inl ⟨.state, rfl⟩
  | some m =>
    unfold gyCustodianGenerateAppkey
    dsimp only
    by_cases hnil : m.saks = []
    · rw [if_neg (by simp [hnil])]
      split
      · rename_i e _
        exact Or.inl ⟨e, rfl⟩
      · rename_i sak hgen
        split
        · rename_i e blob' hp
          obtain rfl := custSealAndPersist_error hp
          -- taking the key back leaves the empty list there was
          rw [← hnil]
          exact Or.inl ⟨e, rfl⟩
        · rename_i blob' hp
          exact Or.inr ⟨m, sak, blob', rfl, hnil, hgen, custSealAndPersist_ok hp, rfl⟩
    · exact Or.inl ⟨.state, if_pos hnil⟩

/-- An application key is rotated in and persisted, or nothing changes. -/
theorem gyCustodianRotateAppkey_cases (now expiry : UInt64) (rnd : KeyRand β)
    (env : PersistEnv β) (s : Live β) :
    (∃ e, gyCustodianRotateAppkey now expiry rnd env s = (.error e, s)) ∨
    ∃ m sak blob', s.cust.mat = some m ∧ m.saks ≠ [] ∧
      custMint s.cust.desc s.cust.desc.isHybrid m.ik (s.cust.issuedAt now) expiry rnd = .ok sak ∧
      s.cust.Persisted (some { m with saks := pushHistory sakHistoryMax sak m.saks }) blob' ∧
      gyCustodianRotateAppkey now expiry rnd env s =
        (.ok (custSlotRegister ⟨.sak, sak.pkid⟩
          (freeEvicted .sak SakOf.pkid sakHistoryMax m.saks s.cust.slots)).1, ⟨{ s.cust with
          mat := some { m with saks := pushHistory sakHistoryMax sak m.saks }
          slots := (custSlotRegister ⟨.sak, sak.pkid⟩
            (freeEvicted .sak SakOf.pkid sakHistoryMax m.saks s.cust.slots)).2 }, blob'⟩) := by
  obtain ⟨⟨desc, uid, did, wrap, kek, clock, expiry', mat, slots⟩, blob⟩ := s
  cases mat with
  | none => exact Or.inl ⟨.state, rfl⟩
  | some m =>
    unfold gyCustodianRotateAppkey
    dsimp only
    by_cases hnil : m.saks = []
    · exact Or.inl ⟨.state, if_pos hnil⟩
    · rw [if_neg hnil]
      -- minting can fail, and then the write can
      split
      · rename_i e _
        exact Or.inl ⟨e, rfl⟩
      · rename_i sak hgen
        split
        · rename_i e blob' hp
          obtain rfl := custSealAndPersist_error hp
          exact Or.inl ⟨e, rfl⟩
        · rename_i blob' hp
          exact Or.inr ⟨m, sak, blob', rfl, hnil, hgen, custSealAndPersist_ok hp, rfl⟩

omit [Signer β] in
/-- A change of credential fails before it touches anything, or installs the new wrap in the live
object; the blob carries it then exactly when the write succeeded. -/
theorem gyCustodianChangeCredential_cases (newCred : Bytes β) (rnd : WrapRand β)
    (load fault : Option GyErr) (s : Live β) :
    (∃ e, gyCustodianChangeCredential newCred rnd load fault s = (.error e, s)) ∨
    ∃ hdr tail wrap r blob', load = none ∧ gyCustHeaderDecode s.blob = .ok (hdr, tail) ∧
      gyKeystoreChangeCredential s.cust.kek sealAlgAegis256 pwhashOpslimitMin pwhashMemlimitMin
        newCred rnd = .ok wrap ∧
      ((r = .ok () ∧ ∃ hdr', gyCustHeaderEncode (custBlobMax β)
          ⟨s.cust.desc.suiteId, s.cust.selfUid, s.cust.selfDid, wrap⟩ = .ok hdr' ∧
          blob' = hdr' ++ tail) ∨ ((∃ e, r = .error e) ∧ blob' = s.blob)) ∧
      gyCustodianChangeCredential newCred rnd load fault s =
        (r, ⟨{ s.cust with wrap := wrap }, blob'⟩) := by
  unfold gyCustodianChangeCredential
  cases load with
  | some e => exact Or.inl ⟨e, rfl⟩
  | none =>
    dsimp only
    split
    · rename_i e _
      exact Or.inl ⟨e, rfl⟩
    · rename_i hdr tail hdec
      split
      · rename_i e _
        exact Or.inl ⟨e, rfl⟩
      · rename_i wrap hwrap
        refine Or.inr ⟨hdr, tail, wrap, _, _, rfl, hdec, hwrap, ?_, rfl⟩
        -- the wrap in memory is the new one even when the write fails
        rcases hp : custPersistHeader { s.cust with wrap := wrap } tail fault s.blob with ⟨r, blob'⟩
        cases r with
        | error e => exact Or.inr ⟨⟨e, rfl⟩, custPersistHeader_error hp⟩
        | ok u =>
          obtain ⟨hdr', henc, rfl⟩ := custPersistHeader_ok hp
          exact Or.inl ⟨rfl, hdr', henc, rfl⟩

/-! ## Moves keep a custodian in order -/

section Ok

omit [Octet β] [Signer β] [Sodium β] [SodiumKeystore β] [StructLayout β]

/-- Freeing a handle adds no slot. -/
theorem count_freeHandle_le (handle : Nat) (t : SlotTable) (k : KeySlot) :
    (Slots.inUse (gyCustodianSlotFree handle t)).count k ≤ (Slots.inUse t).count k := by
  unfold gyCustodianSlotFree
  split
  · exact le_refl _
  · exact (Slots.inUse_set_none_sublist _ t).count_le k

/-- Nor does it change the size of the table. -/
theorem length_freeHandle (handle : Nat) (t : SlotTable) :
    (gyCustodianSlotFree handle t).length = t.length := by
  unfold gyCustodianSlotFree
  split <;> simp

/-- Freeing what was evicted does not change the size of the table. -/
theorem length_freeEvicted {κ : Type} (type : SlotType) (pkid : κ → UInt32) (max : Nat)
    (l : List κ) (t : SlotTable) : (freeEvicted type pkid max l t).length = t.length := by
  unfold freeEvicted
  split
  · exact length_freeHandle _ t
  · rfl

/-- Nor does it add a slot. -/
theorem count_freeEvicted_le {κ : Type} (type : SlotType) (pkid : κ → UInt32) (max : Nat)
    (l : List κ) (t : SlotTable) (k : KeySlot) :
    (Slots.inUse (freeEvicted type pkid max l t)).count k ≤ (Slots.inUse t).count k := by
  unfold freeEvicted
  split
  · exact count_freeHandle_le _ t k
  · exact le_refl _

/-- Registering a key of another type adds no one-time prekey. -/
theorem count_register_le {type : SlotType} (htype : type ≠ .opk) (id : UInt32) (t : SlotTable)
    (id' : UInt32) : (Slots.inUse (custSlotRegister ⟨type, id⟩ t).2).count (⟨.opk, id'⟩ : KeySlot) ≤
      (Slots.inUse t).count (⟨.opk, id'⟩ : KeySlot) := by
  have hput := Slots.count_inUse_put_le (⟨.opk, id'⟩ : KeySlot) ⟨type, id⟩ t
  have hzero : [(⟨type, id⟩ : KeySlot)].count (⟨.opk, id'⟩ : KeySlot) = 0 := by
    rw [List.count_eq_zero]
    simp only [List.mem_singleton, KeySlot.mk.injEq, not_and]
    exact fun h => absurd h.symm htype
  rw [hzero, Nat.zero_add] at hput
  exact hput

/-- A slot that is freed through its handle is gone from the table, when it is the only one of its
key. -/
theorem count_freed {handle : Nat} {t : SlotTable} {k : KeySlot}
    (hget : gyCustodianSlotGet handle t = .ok k) (huniq : (Slots.inUse t).count k ≤ 1) :
    gyCustodianSlotFree handle t = Slots.wipe (fun k' => decide (k' = k)) t := by
  unfold gyCustodianSlotGet at hget
  unfold gyCustodianSlotFree
  split at hget
  · cases hget
  · rename_i hrange
    rw [if_neg hrange]
    split at hget
    · rename_i hslot
      obtain rfl := Except.ok.inj hget
      exact Slots.set_none_eq_wipe hslot huniq
    · cases hget

/-- A key that is wiped has no slot, and the others have theirs. -/
theorem count_wipe (t : SlotTable) (k k' : KeySlot) :
    (Slots.inUse (Slots.wipe (fun x => decide (x = k)) t)).count k' =
      if k' = k then 0 else (Slots.inUse t).count k' := by
  rw [Slots.inUse_wipe]
  split
  · rename_i heq
    rw [List.count_eq_zero]
    simp [heq]
  · rename_i hne
    rw [List.count_filter (by simpa using hne)]

/-- The one-time prekey entries among the keys of a material. -/
theorem count_keySlots_opk {h : Bool} (m : IdMat β h) (id : UInt32) :
    m.keySlots.count (⟨.opk, id⟩ : KeySlot) = (m.held.map OpkOf.pkid).count id := by
  have hother : ∀ {κ : Type} (type : SlotType) (pkid : κ → UInt32) (l : List κ), type ≠ .opk →
      (l.map fun k => (⟨type, pkid k⟩ : KeySlot)).count (⟨.opk, id⟩ : KeySlot) = 0 := by
    intro κ type pkid l htype
    rw [List.count_eq_zero]
    intro hmem
    obtain ⟨k, -, hk⟩ := List.mem_map.mp hmem
    exact htype (KeySlot.mk.inj hk).1
  have hopk : (m.held.map fun k => (⟨.opk, k.pkid⟩ : KeySlot)).count (⟨.opk, id⟩ : KeySlot) =
      (m.held.map OpkOf.pkid).count id := count_map_opkSlot m.held id
  rw [IdMat.keySlots, List.count_append, List.count_append, hopk,
    hother .spk _ m.spks (by decide), hother .sak _ m.saks (by decide)]
  omega

/-- A change that adds no handle of a one-time prekey and keeps the held keys keeps the order. -/
theorem GyCustodian.Ok.keep {c : GyCustodian β} (hok : c.Ok) {m m1 : IdMat β c.desc.isHybrid}
    {t1 : SlotTable} (hm : c.mat = some m) (hheld : m1.held = m.held) (hspks : m1.spks ≠ [])
    (hlen : t1.length = c.slots.length)
    (hcount : ∀ id, (Slots.inUse t1).count (⟨.opk, id⟩ : KeySlot) ≤
      (Slots.inUse c.slots).count (⟨.opk, id⟩ : KeySlot)) :
    ({ c with mat := some m1, slots := t1 } : GyCustodian β).Ok := by
  have hids : ({ c with mat := some m1, slots := t1 } : GyCustodian β).heldIds = c.heldIds := by
    simp only [GyCustodian.heldIds, hm, hheld, Option.elim_some]
  refine ⟨hlen.trans hok.length, fun id => ?_, by rw [hids]; exact hok.distinct,
    by rw [hids]; exact hok.present, fun h => ?_⟩
  · rw [hids]
    exact (hcount id).trans (hok.handles id)
  · obtain rfl := Option.some.inj h
    exact hspks

/-- Destroying a one-time prekey and freeing its handle keeps the order. -/
theorem GyCustodian.Ok.drop {c : GyCustodian β} (hok : c.Ok) {m : IdMat β c.desc.isHybrid}
    (hm : c.mat = some m) {pkid : UInt32} {i : Nat} (hi : opkIndex pkid m.opks = some i)
    {t1 : SlotTable} (ht1 : t1 = Slots.wipe (fun k => decide (k = ⟨.opk, pkid⟩)) c.slots) :
    ({ c with mat := some { m with opks := m.opks.set i none }, slots := t1 } :
      GyCustodian β).Ok := by
  obtain ⟨x, hx, rfl⟩ := opkIndex_eq_some hi
  -- the ids held before are those held now and the one dropped
  have hperm : c.heldIds.Perm (x.key.pkid :: (heldKeys (m.opks.set i none)).map OpkOf.pkid) := by
    simp only [GyCustodian.heldIds, hm, Option.elim_some]
    exact (heldKeys_set_none hx).map OpkOf.pkid
  have hnodup := hperm.nodup_iff.mp hok.distinct
  refine ⟨?_, fun id => ?_, (List.nodup_cons.mp hnodup).2, fun h0 => ?_, fun h => ?_⟩
  · rw [ht1, Slots.length_wipe]
    exact hok.length
  · rw [ht1, count_wipe]
    split
    · exact Nat.zero_le _
    · rename_i hne
      have hid : ¬ x.key.pkid = id := fun h => hne (by rw [h])
      have hold := hok.handles id
      rw [hperm.count_eq, List.count_cons_of_ne hid] at hold
      exact hold
  · exact hok.present (hperm.mem_iff.mpr (List.mem_cons_of_mem _ h0))
  · obtain rfl := Option.some.inj h
    exact hok.spks (m := m) hm

/-- The handles of generated keys, registered beside those there are, keep the order. -/
theorem GyCustodian.Ok.grow {c : GyCustodian β} (hok : c.Ok) {m1 : IdMat β c.desc.isHybrid}
    {ks : List KeySlot} {gen : List (OpkOf β c.desc.isHybrid)}
    (hks : ∀ id, ks.count (⟨.opk, id⟩ : KeySlot) = (gen.map OpkOf.pkid).count id)
    (hheld : (m1.held.map OpkOf.pkid).Perm (gen.map OpkOf.pkid ++ c.heldIds))
    (hnodup : (gen.map OpkOf.pkid).Nodup)
    (hnew : ∀ k ∈ gen, k.pkid ≠ 0 ∧ k.pkid ∉ c.heldIds) (hspks : m1.spks ≠ []) :
    ({ c with mat := some m1, slots := registerAll ks c.slots } : GyCustodian β).Ok := by
  refine ⟨?_, fun id => ?_, ?_, fun h0 => ?_, fun h => ?_⟩
  · rw [registerAll_eq, Slots.length_putAll]
    exact hok.length
  -- each new id gains at most one handle
  · have hput := Slots.count_inUse_putAll_le ks (⟨.opk, id⟩ : KeySlot) c.slots
    have hold := hok.handles id
    rw [hks] at hput
    show (Slots.inUse (Slots.putAll ks c.slots)).count _ ≤ (m1.held.map OpkOf.pkid).count id
    rw [hheld.count_eq, List.count_append]
    omega
  · refine hheld.nodup_iff.mpr (List.nodup_append.mpr ⟨hnodup, hok.distinct, ?_⟩)
    -- the new ids are not among those held
    rintro id hid id' hid' rfl
    obtain ⟨k, hk, rfl⟩ := List.mem_map.mp hid
    exact (hnew k hk).2 hid'
  · rcases List.mem_append.mp (hheld.mem_iff.mp h0) with h0 | h0
    · obtain ⟨k, hk, hk0⟩ := List.mem_map.mp h0
      exact (hnew k hk).1 hk0
    · exact hok.present h0
  · obtain rfl := Option.some.inj h
    exact hspks

end Ok

omit [Sodium β] [SodiumKeystore β] [StructLayout β] in
/-- Material is generated when its keys are. -/
theorem generateIdmat_ok {desc : SuiteDesc β} {h : Bool} {timestamp : UInt64} {n : Nat}
    {rnd : IdentityRand β} {ik : IkOf β h} {spk : SpkOf β h} {opks : List (OpkOf β h)}
    (hik : gyIdentityGenerate desc h rnd.ik = .ok ik)
    (hspk : gySignedPrekeyGenerate desc h ik timestamp rnd.spk = .ok spk)
    (hopks : initialOpks desc h n rnd.opks = .ok opks) :
    generateIdmat desc h timestamp n rnd =
      .ok ⟨ik, [spk], opks.map fun k => some ⟨k, false⟩, []⟩ := by
  simp only [generateIdmat, hik, hspk, hopks, Except.ok_bind]
  rfl

omit [Sodium β] [SodiumKeystore β] [StructLayout β] in
/-- The keys of generated material: one signed prekey, and one-time prekeys that are present and
distinct. -/
theorem generateIdmat_spec {desc : SuiteDesc β} {h : Bool} {timestamp : UInt64} {n : Nat}
    {rnd : IdentityRand β} {m : IdMat β h} (hgen : generateIdmat desc h timestamp n rnd = .ok m) :
    m.spks.length = 1 ∧ m.saks = [] ∧ m.opks.length ≤ n ∧ (m.held.map OpkOf.pkid).Nodup ∧
      ∀ k ∈ m.held, k.pkid ≠ 0 := by
  obtain ⟨ik, -, hgen⟩ := Except.bind_eq_ok_iff.mp hgen
  obtain ⟨spk, -, hgen⟩ := Except.bind_eq_ok_iff.mp hgen
  obtain ⟨opks, hopks, hgen⟩ := Except.bind_eq_ok_iff.mp hgen
  obtain rfl := Except.ok.inj hgen
  have hheld : (⟨ik, [spk], opks.map fun k => some ⟨k, false⟩, []⟩ : IdMat β h).held = opks :=
    heldKeys_fresh opks
  rw [hheld]
  unfold initialOpks at hopks
  split at hopks
  · obtain ⟨-, hlen, hnodup, hnew⟩ := gyOpkGenerate_spec desc hopks
    exact ⟨rfl, rfl, by simp [hlen], hnodup, fun k hk => (hnew k hk).1⟩
  · obtain rfl := Except.ok.inj hopks
    simp

/-- Moves keep a custodian in order. -/
theorem Move.ok {s s' : Live β} (hmove : Move s s') (hok : s.cust.Ok) : s'.cust.Ok := by
  cases hmove with
  | identity hnone hn hgen hp =>
    rename_i c blob m _ _ _ _
    obtain ⟨hspk, -, -, hnodup, hpos⟩ := generateIdmat_spec hgen
    have hids : c.heldIds = [] := by simp only [GyCustodian.heldIds, hnone, Option.elim_none]
    refine hok.grow (count_keySlots_opk m) (by rw [hids, List.append_nil]) hnodup
      (fun k hk => ⟨hpos k hk, by simp [hids]⟩) ?_
    exact List.ne_nil_of_length_pos (by omega)
  | edit hm he hp =>
    have hids : ∀ {c : GyCustodian β} {m : IdMat β c.desc.isHybrid}, c.mat = some m →
        c.heldIds = m.held.map OpkOf.pkid := by
      intro c m hm
      simp only [GyCustodian.heldIds, hm, Option.elim_some]
    have hspks := hok.spks hm
    -- an edit either keeps the one-time prekeys, adds fresh ones or drops one
    cases he with
    | rotateSpk hgen =>
      exact hok.keep hm rfl (List.cons_ne_nil _ _)
        ((Slots.length_put _ _).trans (length_freeEvicted _ _ _ _ _))
        fun id => (count_register_le (by decide) _ _ id).trans (count_freeEvicted_le _ _ _ _ _ _)
    | replenish hroom hgen =>
      obtain ⟨-, -, hnodup, hnew⟩ := gyOpkGenerate_spec _ hgen
      refine hok.grow (count_map_opkSlot _) ?_ hnodup (fun k hk => by rw [hids hm]; exact hnew k hk)
        hspks
      rw [hids hm, ← List.map_append]
      exact (heldKeys_fillOpks _ _).map OpkOf.pkid
    | reserve i =>
      exact hok.keep hm (heldKeys_setExported i true _) hspks rfl fun id => le_refl _
    | dropSpk hget hhead hmem =>
      rename_i m _ _ _
      have hne : m.spks.take 1 ≠ [] := by
        obtain ⟨spk, rest, hspk⟩ := List.exists_cons_of_ne_nil hspks
        simp [hspk]
      exact hok.keep hm rfl (fun h => hne (List.append_eq_nil_iff.mp h).1)
        (length_freeHandle _ _) fun id => count_freeHandle_le _ _ _
    | dropOpk hget hi => exact hok.drop hm hi (count_freed hget (hok.unique _))
    | consume hi =>
      exact hok.drop hm hi ((freeKey_eq hok.length).trans (Slots.clearKey_eq_wipe (hok.unique _)))
    | appkey hgen hnil =>
      exact hok.keep hm rfl hspks (Slots.length_put _ _)
        fun id => count_register_le (by decide) _ _ id
    | rotateSak hgen =>
      exact hok.keep hm rfl hspks
        ((Slots.length_put _ _).trans (length_freeEvicted _ _ _ _ _))
        fun id => (count_register_le (by decide) _ _ id).trans (count_freeEvicted_le _ _ _ _ _ _)
  | lose hm hi =>
    exact hok.drop hm hi ((freeKey_eq hok.length).trans (Slots.clearKey_eq_wipe (hok.unique _)))
  | rewrap hw hold henc => exact ⟨hok.length, hok.handles, hok.distinct, hok.present, hok.spks⟩
  | rewrapLive hw => exact ⟨hok.length, hok.handles, hok.distinct, hok.present, hok.spks⟩

/-! ## Calls as moves -/

open Relation in
/-- A reservation moves within the permitted steps. -/
theorem reserveAndPut_moves (cap : Nat) (env : PersistEnv β) {s : Live β} (hok : s.cust.Ok)
    {m : IdMat β s.cust.desc.isHybrid} (hm : s.cust.mat = some m) {i : Nat}
    (hi : custFirstReservableOpk m.opks = some i) :
    ReflTransGen Move s (reserveAndPut cap i env s).2 := by
  rcases reserveAndPut_cases cap env hok hm hi with ⟨e, -, h⟩ | ⟨r, blob', hp, -, h⟩
  · rw [h]
  · rw [h]
    exact .single (.edit hm (.reserve i) (custSealAndPersist_ok hp))

open Relation in
/-- So does deleting a prekey. -/
theorem gyCustodianDeletePrekey_moves (handle : Nat) (env : PersistEnv β) {s : Live β}
    (hok : s.cust.Ok) : ReflTransGen Move s (gyCustodianDeletePrekey handle env s).2 := by
  unfold gyCustodianDeletePrekey
  cases hget : gyCustodianSlotGet handle s.cust.slots with
  | error e => exact .refl
  | ok k =>
    obtain ⟨type, pkid⟩ := k
    cases hm : s.cust.mat with
    | none => cases type <;> exact .refl
    | some m =>
      have hspks := hok.spks hm
      cases type with
      | identity => exact .refl
      | sak => exact .refl
      | spk =>
        rcases deleteSpk_cases handle pkid env hm hspks with ⟨e, h⟩ | ⟨blob', hhead, hmem, hp, h⟩
        · simp only [h]; exact .refl
        · simp only [h]; exact .single (.edit hm (.dropSpk hget hhead hmem) hp)
      | opk =>
        rcases deleteOpk_cases handle pkid env hm hspks with ⟨e, h⟩ | ⟨i, blob', hi, hp, h⟩
        · simp only [h]; exact .refl
        · simp only [h]; exact .single (.edit hm (.dropOpk hget hi) hp)

open Relation in
/-- A call is a sequence of moves. -/
theorem Live.step_moves {s : Live β} (hok : s.cust.Ok) (call : CustCall β) :
    ReflTransGen Move s (s.step call).2 := by
  cases call with
  | generateIdentity timestamp n rnd env =>
    rcases gyCustodianGenerateIdentity_cases timestamp n rnd env s with
      ⟨e, h⟩ | ⟨m, blob', hnone, hn, hgen, hp, h⟩
    · simp only [Live.step, h]; exact .refl
    · simp only [Live.step, h]; exact .single (.identity hnone hn hgen hp)
  | rotateSignedPrekey timestamp rnd env =>
    rcases gyCustodianRotateSignedPrekey_cases timestamp rnd env s with
      ⟨e, h⟩ | ⟨m, spk, blob', hm, hgen, hp, h⟩
    · simp only [Live.step, h]; exact .refl
    · simp only [Live.step, h]; exact .single (.edit hm (.rotateSpk hgen) hp)
  | generateOnetimePrekeys count rnd env =>
    rcases custReplenishOpks_cases count rnd env hok with
      ⟨e, h⟩ | ⟨m, gen, blob', hm, hroom, hgen, hp, h⟩
    -- refused calls move nothing
    · simp only [Live.step, gyCustodianGenerateOnetimePrekeys, h]; exact .refl
    · simp only [Live.step, gyCustodianGenerateOnetimePrekeys, h]
      exact .single (.edit hm (.replenish hroom hgen) (custSealAndPersist_ok hp))
  | publishBundle cap rnd mint reserve =>
    rcases gyCustodianPublishBundle_cases cap rnd mint reserve hok with
      ⟨e, h⟩ | ⟨m, i, hm, hi, h⟩ | ⟨m, gen, blob', i, hm, -, hroom, hgen, hp, hi, h⟩
    · simp only [Live.step, h]; exact .refl
    · simp only [Live.step, h]
      exact reserveAndPut_moves cap reserve hok hm hi
    · simp only [Live.step, h]
      -- minting and reserving are two moves
      have hmint : Move s _ := .edit hm (.replenish hroom hgen) (custSealAndPersist_ok hp)
      exact .head hmint (reserveAndPut_moves cap reserve (hmint.ok hok) rfl hi)
  | consumeOpk pkid app env =>
    rcases trConsumeOpk_cases pkid app env s with
      ⟨e, -, h⟩ | ⟨-, -, h⟩ | ⟨m, i, r, blob', hm, hi, hp, h⟩
    · simp only [Live.step, h]; exact .refl
    · simp only [Live.step, h]; exact .refl
    · simp only [Live.step, h]
      -- a key consumed in memory only is lost, not edited
      rcases hp with ⟨-, hp⟩ | ⟨-, rfl⟩
      · exact .single (.edit hm (.consume hi) hp)
      · exact .single (.lose hm hi)
  | deletePrekey handle env => exact gyCustodianDeletePrekey_moves handle env hok
  | generateAppkey now expiry rnd env =>
    rcases gyCustodianGenerateAppkey_cases now expiry rnd env s with
      ⟨e, h⟩ | ⟨m, sak, blob', hm, hnil, hgen, hp, h⟩
    · simp only [Live.step, h]; exact .refl
    · simp only [Live.step, h]; exact .single (.edit hm (.appkey hgen hnil) hp)
  | rotateAppkey now expiry rnd env =>
    rcases gyCustodianRotateAppkey_cases now expiry rnd env s with
      ⟨e, h⟩ | ⟨m, sak, blob', hm, -, hgen, hp, h⟩
    · simp only [Live.step, h]; exact .refl
    · simp only [Live.step, h]; exact .single (.edit hm (.rotateSak hgen) hp)
  | changeCredential newCred rnd load fault =>
    rcases gyCustodianChangeCredential_cases newCred rnd load fault s with
      ⟨e, h⟩ | ⟨hdr, tail, wrap, r, blob', -, hdec, hwrap, hp, h⟩
    · simp only [Live.step, h]; exact .refl
    · simp only [Live.step, h]
      rcases hp with ⟨-, hdr', henc, rfl⟩ | ⟨-, rfl⟩
      · exact .single (.rewrap ⟨newCred, rnd, hwrap⟩ hdec henc)
      · exact .single (.rewrapLive ⟨newCred, rnd, hwrap⟩)

end Geryon
