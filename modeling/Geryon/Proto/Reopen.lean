import Geryon.Proto.Handles

/-!
# Closing and opening a custodian

After calls that all succeeded, the blob is that of the live object, and the current credential
opens it. Opening gives back the suite, the addresses, the keys with their order and marks, and
nothing of the clock and the expiry policy, which the blob does not carry.

Handles are process-local: they are slot numbers, assigned anew by every open. Two custodians whose
handle tables differ in the numbering of the slots only answer every call alike, when a handle that
the call takes is translated. Opening registers the held keys in order, as many as there are slots;
the live table may have gone another way when it was full once.

## Main definitions

- `CleanRun`: runs of calls that succeed, with the credential that is current.
- `SlotsPermuted`: handle tables that differ in the numbering of their slots.
- `Parallel`: the same calls on two custodians, with handles translated.
- `SameAfterReopen`: nothing changed but the numbers of handles.

## Main results

- `replies_parallel`: replies do not depend on the numbering.
- `reopen_same_iff`: opening gives back the custodian that was closed, and the replies to all later
  calls, exactly when it had no clock and no expiry policy and its handles are those that opening
  would give out.
-/

namespace Geryon

variable {β : Type} [Octet β] [Signer β] [Sodium β] [SodiumKeystore β] [StructLayout β]

/-! ## Renumbered handle tables -/

section Slots

omit [Octet β] [Signer β] [Sodium β] [SodiumKeystore β] [StructLayout β]

/-- A handle less its number: whether it is valid. -/
def handleMark (handle : Nat) : Nat := if handle = 0 then 0 else 1

/-- A handle table and another numbering of its slots. -/
structure SlotsPermuted (t t' : SlotTable) : Prop where
  length : t.length = custodianMaxSlots
  perm : t.Perm t'

namespace SlotsPermuted

variable {t t' : SlotTable} {k : KeySlot}

/-- Both tables have their size. -/
theorem length' (h : SlotsPermuted t t') : t'.length = custodianMaxSlots :=
  h.perm.length_eq.symm.trans h.length

/-- A key is registered in both tables, or in neither. -/
theorem register (h : SlotsPermuted t t') (k : KeySlot) :
    SlotsPermuted (custSlotRegister k t).2 (custSlotRegister k t').2 :=
  ⟨(Slots.length_put k t).trans h.length, Slots.perm_put h.perm k⟩

/-- The handle of a new key is valid in both tables, or in neither. -/
theorem register_eq_zero (h : SlotsPermuted t t') (k : KeySlot) :
    (custSlotRegister k t').1 = 0 ↔ (custSlotRegister k t).1 = 0 := by
  have hzero : ∀ t : SlotTable, (custSlotRegister k t).1 = 0 ↔ none ∉ t := by
    intro t
    rw [← Slots.firstFree_eq_none, custSlotRegister]
    cases Slots.firstFree t with
    | none => exact ⟨fun _ => rfl, fun _ => rfl⟩
    | some i => exact ⟨fun h => absurd h (Nat.succ_ne_zero i), fun h => (by cases h)⟩
  rw [hzero, hzero, h.perm.mem_iff]

/-- Registering keys keeps tables equal up to the order of slots. -/
theorem registerAll (h : SlotsPermuted t t') (ks : List KeySlot) :
    SlotsPermuted (Geryon.registerAll ks t) (Geryon.registerAll ks t') :=
  ⟨(Slots.length_putAll ks t).trans h.length, Slots.perm_putAll h.perm ks⟩

/-- So does freeing a key. -/
theorem freeKey (h : SlotsPermuted t t') (k : KeySlot) :
    SlotsPermuted (Geryon.freeKey k t) (Geryon.freeKey k t') := by
  rw [freeKey_eq h.length, freeKey_eq h.length']
  exact ⟨(Slots.length_clearKey k t).trans h.length, Slots.perm_clearKey h.perm k⟩

/-- So does freeing several. -/
theorem freeKeys {κ : Type} (h : SlotsPermuted t t') (slot : κ → KeySlot) (ks : List κ) :
    SlotsPermuted (ks.foldl (fun t k => Geryon.freeKey (slot k) t) t)
      (ks.foldl (fun t k => Geryon.freeKey (slot k) t) t') := by
  induction ks generalizing t t' with
  | nil => exact h
  | cons k ks ih => exact ih (h.freeKey (slot k))

/-- So does freeing what was evicted. -/
theorem freeEvicted {κ : Type} (h : SlotsPermuted t t') (type : SlotType) (pkid : κ → UInt32)
    (max : Nat) (l : List κ) :
    SlotsPermuted (Geryon.freeEvicted type pkid max l t)
      (Geryon.freeEvicted type pkid max l t') := by
  unfold Geryon.freeEvicted
  split
  · exact h.freeKey _
  · exact h

/-- What a handle that resolves stands for. -/
theorem slot_of_get {handle : Nat} (h : gyCustodianSlotGet handle t = .ok k) :
    ¬ (handle = 0 ∨ custodianMaxSlots < handle) ∧ t[handle - 1]? = some (some k) := by
  unfold gyCustodianSlotGet at h
  split at h
  · cases h
  · rename_i hrange
    refine ⟨hrange, ?_⟩
    split at h
    · rename_i hslot
      obtain rfl := Except.ok.inj h
      exact hslot
    · cases h

/-- A slot that is freed in both tables through handles of one key. -/
theorem freeHandle (h : SlotsPermuted t t') {handle handle' : Nat}
    (hget : gyCustodianSlotGet handle t = .ok k) (hget' : gyCustodianSlotGet handle' t' = .ok k) :
    SlotsPermuted (gyCustodianSlotFree handle t) (gyCustodianSlotFree handle' t') := by
  obtain ⟨hrange, hslot⟩ := slot_of_get hget
  obtain ⟨hrange', hslot'⟩ := slot_of_get hget'
  rw [gyCustodianSlotFree, if_neg hrange, gyCustodianSlotFree, if_neg hrange']
  exact ⟨(List.length_set ..).trans h.length, Slots.perm_set_none h.perm hslot hslot'⟩

/-- A key has a handle in both tables, or in neither. -/
theorem find_eq_zero (h : SlotsPermuted t t') (k : KeySlot) :
    custSlotFind k t' = 0 ↔ custSlotFind k t = 0 := by
  have hzero : ∀ t : SlotTable, custSlotFind k t = 0 ↔ some k ∉ t := by
    intro t
    rw [← Slots.mem_inUse, ← Slots.locate_isSome, custSlotFind]
    cases Slots.locate k t with
    | none => exact ⟨fun _ h => (by cases h), fun _ => rfl⟩
    | some i => exact ⟨fun h => absurd h (Nat.succ_ne_zero i), fun h => absurd rfl h⟩
  rw [hzero, hzero, h.perm.mem_iff]

/-- Handles of a new key, less their numbers. -/
theorem map_handleMark (h : SlotsPermuted t t') (k : KeySlot) :
    (Except.ok (custSlotRegister k t').1 : Except GyErr Nat).map handleMark =
      (Except.ok (custSlotRegister k t).1).map handleMark := by
  have hmark : handleMark (custSlotRegister k t').1 = handleMark (custSlotRegister k t).1 := by
    unfold handleMark
    exact if_congr (h.register_eq_zero k) rfl rfl
  exact congrArg Except.ok hmark

/-- Every handle has a counterpart. -/
theorem counterpart (h : SlotsPermuted t t') (handle : Nat) :
    ∃ handle', gyCustodianSlotGet handle' t' = gyCustodianSlotGet handle t := by
  cases hget : gyCustodianSlotGet handle t with
  | error e =>
    have he : e = .notFound := by
      unfold gyCustodianSlotGet at hget
      split at hget
      · exact (Except.error.inj hget).symm
      · split at hget
        · cases hget
        · exact (Except.error.inj hget).symm
    exact ⟨0, by rw [he]; rfl⟩
  | ok k =>
    obtain ⟨i, hi⟩ := List.mem_iff_getElem?.1
      (h.perm.mem_iff.1 (List.mem_of_getElem? (slot_of_get hget).2))
    have hlt := (List.getElem?_eq_some_iff.1 hi).1
    rw [h.length'] at hlt
    refine ⟨i + 1, ?_⟩
    rw [gyCustodianSlotGet, if_neg (by omega), Nat.add_sub_cancel, hi]

end SlotsPermuted

end Slots

/-! ## Replies up to the numbers of handles -/

/-- The call names a key by its handle. -/
def CustCall.takesHandle : CustCall β → Bool
  | .deletePrekey .. => true
  | _ => false

/-- A reply without the number of a handle; whether the handle is valid is kept. -/
def CustReply.forget : CustReply β → CustReply β
  | .handle h => .handle (handleMark h)
  | r => r

/-- What a client may call on an open custodian: a call that changes it, the search for a key, and
the use of an application key. -/
inductive ClientOp (β : Type) where
  | call (c : CustCall β)
  | findPrekey (spk : Bool) (pkid : UInt32)
  | appkey (handle : Nat)

/-- What a client sees of an operation, less the numbers of handles. -/
inductive ClientReply (β : Type) where
  | call (r : Except GyErr (CustReply β))
  | found (valid : Bool)
  | appkey (r : Except GyErr ((h : Bool) × SakOf β h))

/-- One operation of a client. -/
def Live.clientStep (s : Live β) : ClientOp β → ClientReply β × Live β
  | .call c => (.call ((s.step c).1.map CustReply.forget), (s.step c).2)
  | .findPrekey spk pkid => (.found (decide (gyCustodianFindPrekey spk pkid s.cust ≠ 0)), s)
  | .appkey handle => (.appkey ((custAppkeyOf handle s.cust).map fun k => ⟨_, k⟩), s)

/-- What a client sees of a sequence of operations. -/
def Live.replies (s : Live β) : List (ClientOp β) → List (ClientReply β)
  | [] => []
  | op :: ops => (s.clientStep op).1 :: (s.clientStep op).2.replies ops

/-- The same operation on two custodians: a handle that it takes names the same key in both tables,
or no key in either. -/
inductive ClientOp.Counterpart (t t' : SlotTable) : ClientOp β → ClientOp β → Prop
  | call {c : CustCall β} (h : c.takesHandle = false) : Counterpart t t' (.call c) (.call c)
  | delete {handle handle' : Nat} (env : PersistEnv β)
      (h : gyCustodianSlotGet handle' t' = gyCustodianSlotGet handle t) :
      Counterpart t t' (.call (.deletePrekey handle env)) (.call (.deletePrekey handle' env))
  | find (spk : Bool) (pkid : UInt32) :
      Counterpart t t' (.findPrekey spk pkid) (.findPrekey spk pkid)
  | appkey {handle handle' : Nat}
      (h : gyCustodianSlotGet handle' t' = gyCustodianSlotGet handle t) :
      Counterpart t t' (.appkey handle) (.appkey handle')

/-- The same operations on two custodians, one after the other. -/
inductive Parallel : Live β → Live β → List (ClientOp β) → List (ClientOp β) → Prop
  | nil {s s'} : Parallel s s' [] []
  | cons {s s' op op' ops ops'} (h : op.Counterpart s.cust.slots s'.cust.slots op')
      (hrest : Parallel (s.clientStep op).2 (s'.clientStep op').2 ops ops') :
      Parallel s s' (op :: ops) (op' :: ops')

/-- A live custodian with another handle table. -/
def Live.withSlots (s : Live β) (t : SlotTable) : Live β := ⟨{ s.cust with slots := t }, s.blob⟩

/-- The outcomes of an operation on two custodians whose handle tables differ in their numbering:
the same result, and states that differ in this only. -/
def SameOutcome {α τ : Type} (view : α → τ) (x y : Except GyErr α × Live β) : Prop :=
  y.1.map view = x.1.map view ∧ ∃ t, y.2 = x.2.withSlots t ∧ SlotsPermuted x.2.cust.slots t

omit [Signer β] in
/-- A persist does not look at the handle table. -/
theorem custSealAndPersist_slots (c : GyCustodian β) (t : SlotTable) (m : IdMat β c.desc.isHybrid)
    (env : PersistEnv β) (blob : Bytes β) :
    custSealAndPersist ({ c with slots := t } : GyCustodian β) m env blob =
      custSealAndPersist c m env blob := rfl

section Outcomes

variable (s : Live β) {t : SlotTable} (ht : SlotsPermuted s.cust.slots t)
include ht

/-- Generating an identity does the same on both tables. -/
theorem generateIdentity_slots (timestamp : UInt64) (n : Nat) (rnd : IdentityRand β)
    (env : PersistEnv β) :
    SameOutcome id (gyCustodianGenerateIdentity timestamp n rnd env s)
      (gyCustodianGenerateIdentity timestamp n rnd env (s.withSlots t)) := by
  obtain ⟨⟨desc, uid, did, wrap, kek, clock, expiry, mat, slots⟩, blob⟩ := s
  unfold gyCustodianGenerateIdentity Live.withSlots
  dsimp only
  split
  · exact ⟨rfl, t, rfl, ht⟩
  · split
    · exact ⟨rfl, t, rfl, ht⟩
    · split
      · exact ⟨rfl, t, rfl, ht⟩
      · rename_i m _
        rw [custSealAndPersist_slots ⟨desc, uid, did, wrap, kek, clock, expiry, some m, slots⟩ t]
        split
        · exact ⟨rfl, t, rfl, ht⟩
        · exact ⟨rfl, _, rfl, ht.registerAll _⟩

/-- So does rotating the signed prekey. -/
theorem rotateSignedPrekey_slots (timestamp : UInt64) (rnd : KeyRand β) (env : PersistEnv β) :
    SameOutcome id (gyCustodianRotateSignedPrekey timestamp rnd env s)
      (gyCustodianRotateSignedPrekey timestamp rnd env (s.withSlots t)) := by
  obtain ⟨⟨desc, uid, did, wrap, kek, clock, expiry, mat, slots⟩, blob⟩ := s
  unfold gyCustodianRotateSignedPrekey Live.withSlots
  cases mat with
  | none => exact ⟨rfl, t, rfl, ht⟩
  | some m =>
    dsimp only
    split
    · exact ⟨rfl, t, rfl, ht⟩
    · rw [custSealAndPersist_slots ⟨desc, uid, did, wrap, kek, clock, expiry, some m, slots⟩ t]
      split
      · exact ⟨rfl, t, rfl, ht⟩
      · exact ⟨rfl, _, rfl, (ht.freeEvicted _ _ _ _).register _⟩

omit [Signer β] in
/-- So does replenishing one-time prekeys. -/
theorem replenishOpks_slots (count : Nat) (rnd : KeyRand β) (env : PersistEnv β) :
    SameOutcome id (custReplenishOpks count rnd env s)
      (custReplenishOpks count rnd env (s.withSlots t)) := by
  obtain ⟨⟨desc, uid, did, wrap, kek, clock, expiry, mat, slots⟩, blob⟩ := s
  unfold custReplenishOpks Live.withSlots
  cases mat with
  | none => exact ⟨rfl, t, rfl, ht⟩
  | some m =>
    dsimp only
    split
    · exact ⟨rfl, t, rfl, ht⟩
    · split
      · exact ⟨rfl, t, rfl, ht⟩
      · split
        · exact ⟨rfl, t, rfl, ht⟩
        · rw [custSealAndPersist_slots ⟨desc, uid, did, wrap, kek, clock, expiry, some m, slots⟩ t]
          split
          · exact ⟨rfl, _, rfl, (ht.registerAll _).freeKeys _ _⟩
          · exact ⟨rfl, _, rfl, ht.registerAll _⟩

omit [Signer β] in
/-- So does a reservation. -/
theorem reserveAndPut_slots (cap i : Nat) (env : PersistEnv β) :
    SameOutcome id (reserveAndPut cap i env s) (reserveAndPut cap i env (s.withSlots t)) := by
  obtain ⟨⟨desc, uid, did, wrap, kek, clock, expiry, mat, slots⟩, blob⟩ := s
  unfold reserveAndPut Live.withSlots
  cases mat with
  | none => exact ⟨rfl, t, rfl, ht⟩
  | some m =>
    dsimp only
    rw [custSealAndPersist_slots ⟨desc, uid, did, wrap, kek, clock, expiry, some m, slots⟩ t]
    split
    · exact ⟨rfl, t, rfl, ht⟩
    · refine ⟨?_, t, rfl, ht⟩
      dsimp only
      generalize m.spks.head? = a
      generalize (setExported i true m.opks)[i]?.join = b
      cases a <;> cases b <;> rfl

omit [Signer β] in
/-- So does publishing a bundle. -/
theorem publishBundle_slots (cap : Nat) (rnd : KeyRand β) (mint reserve : PersistEnv β) :
    SameOutcome id (gyCustodianPublishBundle cap rnd mint reserve s)
      (gyCustodianPublishBundle cap rnd mint reserve (s.withSlots t)) := by
  have hmat : (s.withSlots t).cust.mat = s.cust.mat := rfl
  cases hm : s.cust.mat with
  | none =>
    unfold gyCustodianPublishBundle
    rw [hmat, hm]
    exact ⟨rfl, t, rfl, ht⟩
  | some m =>
    have hm' : (s.withSlots t).cust.mat = some m := hm
    cases hi : custFirstReservableOpk m.opks with
    | some i =>
      rw [gyCustodianPublishBundle_reserve hm hi, gyCustodianPublishBundle_reserve hm' hi]
      exact reserveAndPut_slots s ht cap i reserve
    | none =>
      -- the pool is spent on both sides, and both sides mint
      obtain ⟨hres, t', hst, ht'⟩ := replenishOpks_slots s ht 1 rnd mint
      rcases hs : custReplenishOpks 1 rnd mint s with ⟨r, s1⟩
      rcases hs' : custReplenishOpks 1 rnd mint (s.withSlots t) with ⟨r', s1'⟩
      rw [hs, hs'] at hres hst
      rw [hs] at ht'
      obtain rfl : s1' = s1.withSlots t' := hst
      cases r with
      | error e =>
        cases r' with
        | error e' =>
          obtain rfl : e' = e := Except.error.inj hres
          rw [gyCustodianPublishBundle_refused hm hi hs,
            gyCustodianPublishBundle_refused hm' hi hs']
          exact ⟨rfl, t', rfl, ht'⟩
        | ok u => cases hres
      | ok u =>
        cases r' with
        | error e' => cases hres
        | ok u' =>
          rw [gyCustodianPublishBundle_mint hm hi hs, gyCustodianPublishBundle_mint hm' hi hs']
          have hfirst : ((s1.withSlots t').cust.mat.bind fun m => custFirstReservableOpk m.opks) =
            s1.cust.mat.bind fun m => custFirstReservableOpk m.opks := rfl
          rw [hfirst]
          cases s1.cust.mat.bind fun m => custFirstReservableOpk m.opks with
          | none => exact ⟨rfl, t', rfl, ht'⟩
          | some i => exact reserveAndPut_slots s1 ht' cap i reserve

omit [Signer β] in
/-- So does consuming a one-time prekey. -/
theorem consumeOpk_slots (pkid : UInt32) (app : Option GyErr) (env : PersistEnv β) :
    SameOutcome id (trConsumeOpk pkid app env s) (trConsumeOpk pkid app env (s.withSlots t)) := by
  obtain ⟨⟨desc, uid, did, wrap, kek, clock, expiry, mat, slots⟩, blob⟩ := s
  unfold trConsumeOpk Live.withSlots
  cases app with
  | some e => exact ⟨rfl, t, rfl, ht⟩
  | none =>
    cases mat with
    | none => exact ⟨rfl, t, rfl, ht⟩
    | some m =>
      dsimp only
      split
      · exact ⟨rfl, t, rfl, ht⟩
      · rw [custSealAndPersist_slots ⟨desc, uid, did, wrap, kek, clock, expiry, some m, slots⟩ t]
        exact ⟨rfl, _, rfl, ht.freeKey _⟩

/-- So does generating an application key; its handle may be another. -/
theorem generateAppkey_slots (now expiry : UInt64) (rnd : KeyRand β) (env : PersistEnv β) :
    SameOutcome handleMark (gyCustodianGenerateAppkey now expiry rnd env s)
      (gyCustodianGenerateAppkey now expiry rnd env (s.withSlots t)) := by
  obtain ⟨⟨desc, uid, did, wrap, kek, clock, expiry', mat, slots⟩, blob⟩ := s
  unfold gyCustodianGenerateAppkey Live.withSlots
  cases mat with
  | none => exact ⟨rfl, t, rfl, ht⟩
  | some m =>
    dsimp only
    split
    · exact ⟨rfl, t, rfl, ht⟩
    · have hat : GyCustodian.issuedAt (⟨desc, uid, did, wrap, kek, clock, expiry', some m, t⟩ :
          GyCustodian β) now =
        GyCustodian.issuedAt ⟨desc, uid, did, wrap, kek, clock, expiry', some m, slots⟩ now := rfl
      rw [hat]
      split
      · exact ⟨rfl, t, rfl, ht⟩
      · rw [custSealAndPersist_slots ⟨desc, uid, did, wrap, kek, clock, expiry', some m, slots⟩ t]
        split
        · exact ⟨rfl, t, rfl, ht⟩
        · exact ⟨ht.map_handleMark _, _, rfl, ht.register _⟩

/-- So does rotating one. -/
theorem rotateAppkey_slots (now expiry : UInt64) (rnd : KeyRand β) (env : PersistEnv β) :
    SameOutcome handleMark (gyCustodianRotateAppkey now expiry rnd env s)
      (gyCustodianRotateAppkey now expiry rnd env (s.withSlots t)) := by
  obtain ⟨⟨desc, uid, did, wrap, kek, clock, expiry', mat, slots⟩, blob⟩ := s
  unfold gyCustodianRotateAppkey Live.withSlots
  cases mat with
  | none => exact ⟨rfl, t, rfl, ht⟩
  | some m =>
    dsimp only
    split
    · exact ⟨rfl, t, rfl, ht⟩
    · have hat : GyCustodian.issuedAt (⟨desc, uid, did, wrap, kek, clock, expiry', some m, t⟩ :
          GyCustodian β) now =
        GyCustodian.issuedAt ⟨desc, uid, did, wrap, kek, clock, expiry', some m, slots⟩ now := rfl
      rw [hat]
      split
      · exact ⟨rfl, t, rfl, ht⟩
      · rw [custSealAndPersist_slots ⟨desc, uid, did, wrap, kek, clock, expiry', some m, slots⟩ t]
        split
        · exact ⟨rfl, t, rfl, ht⟩
        · exact ⟨(ht.freeEvicted _ _ _ _).map_handleMark _, _, rfl,
          (ht.freeEvicted _ _ _ _).register _⟩

omit [Signer β] in
/-- So does changing the credential. -/
theorem changeCredential_slots (newCred : Bytes β) (rnd : WrapRand β) (load fault : Option GyErr) :
    SameOutcome id (gyCustodianChangeCredential newCred rnd load fault s)
      (gyCustodianChangeCredential newCred rnd load fault (s.withSlots t)) := by
  obtain ⟨⟨desc, uid, did, wrap, kek, clock, expiry, mat, slots⟩, blob⟩ := s
  unfold gyCustodianChangeCredential Live.withSlots
  cases load with
  | some e => exact ⟨rfl, t, rfl, ht⟩
  | none =>
    dsimp only
    split
    · exact ⟨rfl, t, rfl, ht⟩
    · split
      · exact ⟨rfl, t, rfl, ht⟩
      · exact ⟨rfl, t, rfl, ht⟩

omit [Signer β] in
/-- A deletion through handles of one key. -/
theorem deletePrekey_slots {handle handle' : Nat}
    (hname : gyCustodianSlotGet handle' t = gyCustodianSlotGet handle s.cust.slots)
    (env : PersistEnv β) :
    SameOutcome id (gyCustodianDeletePrekey handle env s)
      (gyCustodianDeletePrekey handle' env (s.withSlots t)) := by
  obtain ⟨⟨desc, uid, did, wrap, kek, clock, expiry, mat, slots⟩, blob⟩ := s
  unfold gyCustodianDeletePrekey Live.withSlots
  dsimp only at hname ht ⊢
  rw [hname]
  cases hget : gyCustodianSlotGet handle slots with
  | error e => exact ⟨rfl, t, rfl, ht⟩
  | ok k =>
    have hfree := ht.freeHandle hget (hname.trans hget)
    obtain ⟨type, pkid⟩ := k
    cases mat with
    | none => cases type <;> exact ⟨rfl, t, rfl, ht⟩
    | some m =>
      cases type with
      | identity => exact ⟨rfl, t, rfl, ht⟩
      | sak => exact ⟨rfl, t, rfl, ht⟩
      | spk =>
        dsimp only
        unfold deleteSpk
        dsimp only
        split
        · exact ⟨rfl, t, rfl, ht⟩
        · split
          · exact ⟨rfl, t, rfl, ht⟩
          · rw [custSealAndPersist_slots
              ⟨desc, uid, did, wrap, kek, clock, expiry, some m, slots⟩ t]
            generalize custSealAndPersist _ _ env blob = x
            rcases x with ⟨e | u, blob'⟩
            · exact ⟨rfl, t, rfl, ht⟩
            · exact ⟨rfl, _, rfl, hfree⟩
      | opk =>
        dsimp only
        unfold deleteOpk
        dsimp only
        split
        · exact ⟨rfl, t, rfl, ht⟩
        · rw [custSealAndPersist_slots ⟨desc, uid, did, wrap, kek, clock, expiry, some m, slots⟩ t]
          generalize custSealAndPersist _ _ env blob = x
          rcases x with ⟨e | u, blob'⟩
          · exact ⟨rfl, t, rfl, ht⟩
          · exact ⟨rfl, _, rfl, hfree⟩

end Outcomes

omit [Octet β] [Signer β] [Sodium β] [SodiumKeystore β] [StructLayout β] in
/-- A reply is a view of the result, so equal results give equal replies. -/
theorem SameOutcome.reply {α τ : Type} {view : α → τ} {x y : Except GyErr α × Live β}
    (h : SameOutcome view x y) (reply : τ → CustReply β) :
    y.1.map (fun a => reply (view a)) = x.1.map (fun a => reply (view a)) := by
  have hmap := congrArg (Except.map reply) h.1
  obtain ⟨r, s⟩ := x
  obtain ⟨r', s'⟩ := y
  cases r with
  | error e =>
    cases r' with
    | error e' => exact hmap
    | ok a' => cases hmap
  | ok a =>
    cases r' with
    | error e' => cases hmap
    | ok a' => exact hmap

/-- Two custodians whose handle tables differ in their numbering answer a call alike, and stay
so. -/
theorem step_withSlots (s : Live β) {t : SlotTable} (ht : SlotsPermuted s.cust.slots t)
    {call : CustCall β} (hcall : call.takesHandle = false) :
    ((s.withSlots t).step call).1.map CustReply.forget = (s.step call).1.map CustReply.forget ∧
      ∃ t', ((s.withSlots t).step call).2 = (s.step call).2.withSlots t' ∧
        SlotsPermuted (s.step call).2.cust.slots t' := by
  have hmap : ∀ {α : Type} (x : Except GyErr α) (f : α → CustReply β),
      (x.map f).map CustReply.forget = x.map fun a => (f a).forget := by
    intro α x f
    cases x <;> rfl
  cases call with
  | generateIdentity timestamp n rnd env =>
    have h := generateIdentity_slots s ht timestamp n rnd env
    simp only [Live.step, hmap]
    exact ⟨h.reply fun _ => .ok, h.2⟩
  | rotateSignedPrekey timestamp rnd env =>
    have h := rotateSignedPrekey_slots s ht timestamp rnd env
    simp only [Live.step, hmap]
    exact ⟨h.reply fun _ => .ok, h.2⟩
  | generateOnetimePrekeys count rnd env =>
    have h := replenishOpks_slots s ht count rnd env
    simp only [Live.step, gyCustodianGenerateOnetimePrekeys, hmap]
    exact ⟨h.reply fun _ => .ok, h.2⟩
  | publishBundle cap rnd mint reserve =>
    have h := publishBundle_slots s ht cap rnd mint reserve
    simp only [Live.step, hmap]
    exact ⟨h.reply .bundle, h.2⟩
  | consumeOpk pkid app env =>
    have h := consumeOpk_slots s ht pkid app env
    simp only [Live.step, hmap]
    exact ⟨h.reply fun _ => .ok, h.2⟩
  | deletePrekey handle env => cases hcall
  | generateAppkey now expiry rnd env =>
    have h := generateAppkey_slots s ht now expiry rnd env
    simp only [Live.step, hmap]
    exact ⟨h.reply .handle, h.2⟩
  | rotateAppkey now expiry rnd env =>
    have h := rotateAppkey_slots s ht now expiry rnd env
    simp only [Live.step, hmap]
    exact ⟨h.reply .handle, h.2⟩
  | changeCredential newCred rnd load fault =>
    have h := changeCredential_slots s ht newCred rnd load fault
    simp only [Live.step, hmap]
    exact ⟨h.reply fun _ => .ok, h.2⟩

/-- Counterparts of one operation have the same reply, and leave tables that differ in their
numbering. -/
theorem clientStep_withSlots (s : Live β) {t : SlotTable} (ht : SlotsPermuted s.cust.slots t)
    {op op' : ClientOp β} (hop : op.Counterpart s.cust.slots t op') :
    ((s.withSlots t).clientStep op').1 = (s.clientStep op).1 ∧
      ∃ t', ((s.withSlots t).clientStep op').2 = (s.clientStep op).2.withSlots t' ∧
        SlotsPermuted (s.clientStep op).2.cust.slots t' := by
  cases hop with
  | call hcall =>
    obtain ⟨hreply, hst⟩ := step_withSlots s ht hcall
    exact ⟨congrArg ClientReply.call hreply, hst⟩
  | delete env hname =>
    have h := deletePrekey_slots s ht hname env
    refine ⟨congrArg ClientReply.call ?_, h.2⟩
    have hreply := h.reply fun _ : Unit => (CustReply.ok : CustReply β)
    exact congrArg (Except.map CustReply.forget) hreply
  | find spk pkid =>
    refine ⟨congrArg ClientReply.found (decide_eq_decide.2 (not_congr ?_)), t, rfl, ht⟩
    exact ht.find_eq_zero _
  | appkey hname =>
    refine ⟨congrArg ClientReply.appkey ?_, t, rfl, ht⟩
    obtain ⟨⟨desc, uid, did, wrap, kek, clock, expiry, mat, slots⟩, blob⟩ := s
    unfold custAppkeyOf Live.withSlots
    dsimp only at hname ⊢
    rw [hname]
    cases gyCustodianSlotGet _ slots with
    | error e => rfl
    | ok k =>
      dsimp only
      cases mat.bind fun m => m.saks.find? fun sak => decide (sak.pkid = k.keyId) <;> rfl

/-- Every sequence of operations has counterparts on a custodian whose handle table differs in its
numbering. -/
theorem exists_parallel (s : Live β) {t : SlotTable} (ht : SlotsPermuted s.cust.slots t)
    (ops : List (ClientOp β)) : ∃ ops', Parallel s (s.withSlots t) ops ops' := by
  induction ops generalizing s t with
  | nil => exact ⟨[], .nil⟩
  | cons op ops ih =>
    obtain ⟨op', hop⟩ : ∃ op', op.Counterpart s.cust.slots t op' := by
      cases op with
      | call c =>
        cases c with
        | deletePrekey handle env =>
          obtain ⟨handle', hname⟩ := ht.counterpart handle
          exact ⟨_, .delete env hname⟩
        | _ => exact ⟨_, .call rfl⟩
      | findPrekey spk pkid => exact ⟨_, .find spk pkid⟩
      | appkey handle =>
        obtain ⟨handle', hname⟩ := ht.counterpart handle
        exact ⟨_, .appkey hname⟩
    obtain ⟨-, t', hst, ht'⟩ := clientStep_withSlots s ht hop
    obtain ⟨ops', hops⟩ := ih _ ht'
    exact ⟨op' :: ops', .cons hop (hst ▸ hops)⟩

/-- The replies to operations do not depend on the numbering of the slots. -/
theorem replies_parallel (s : Live β) {t : SlotTable} (ht : SlotsPermuted s.cust.slots t)
    {ops ops' : List (ClientOp β)} (h : Parallel s (s.withSlots t) ops ops') :
    (s.withSlots t).replies ops' = s.replies ops := by
  generalize hs : s.withSlots t = s1 at h
  induction h generalizing t with
  | nil => rfl
  | cons hop hrest ih =>
    subst hs
    obtain ⟨hreply, t', hst, ht'⟩ := clientStep_withSlots _ ht hop
    rw [Live.replies, Live.replies, hreply, ih ht' hst.symm]

/-! ## Runs of calls that succeed -/

/-- The credential that is current after a call. -/
def CustCall.credential (cred : Bytes β) : CustCall β → Bytes β
  | .changeCredential newCred .. => newCred
  | _ => cred

/-- A custodian is created, calls on it succeed, and it may be closed and opened again: the
credential that is current, and the live custodian. -/
inductive CleanRun (suites : SuiteTable β) : Bytes β → Live β → Prop
  | create {suiteId cred uid did clock cfg kekRand rnd fault blob c blob'}
      (h : gyCustodianCreate suites suiteId cred uid did clock cfg kekRand rnd fault blob =
        (.ok c, blob')) : CleanRun suites cred ⟨c, blob'⟩
  | call {cred s r s'} (call : CustCall β) (h : CleanRun suites cred s)
      (hstep : s.step call = (.ok r, s')) : CleanRun suites (call.credential cred) s'
  | reopen {cred s c} (h : CleanRun suites cred s)
      (hopen : gyCustodianOpen suites cred s.blob = .ok c) : CleanRun suites cred ⟨c, s.blob⟩

/-- The state of a clean run is reached. -/
theorem CleanRun.reached {suites : SuiteTable β} {cred : Bytes β} {s : Live β}
    (h : CleanRun suites cred s) : Reached suites s := by
  induction h with
  | create h => exact .create h
  | call call _ hstep ih =>
    have := Reached.call call ih
    rwa [hstep] at this
  | reopen _ hopen ih => exact .reopen ih hopen

/-- The blob is that of the live object, and the credential opens its wrap. -/
structure Live.Current (s : Live β) (cred : Bytes β) : Prop where
  stored : s.cust.Persisted s.cust.mat s.blob
  opens : gyKeystoreOpen cred s.cust.wrap = .ok s.cust.kek

omit [Octet β] [Signer β] [Sodium β] [SodiumKeystore β] [StructLayout β] in
/-- The state after an operation that succeeded, from the reply of its call. -/
theorem op_of_step {α : Type} {x : Except GyErr α × Live β} {f : α → CustReply β}
    {r : CustReply β} {s' : Live β} (h : (x.1.map f, x.2) = (.ok r, s')) :
    ∃ a, x = (.ok a, s') := by
  obtain ⟨res, s1⟩ := x
  cases res with
  | error e => cases (Prod.mk.inj h).1
  | ok a => exact ⟨a, Prod.ext rfl (Prod.mk.inj h).2⟩

/-- A deletion that succeeds is an edit that was persisted. -/
theorem gyCustodianDeletePrekey_ok {handle : Nat} {env : PersistEnv β} {s s' : Live β} {u : Unit}
    (hok : s.cust.Ok) (h : gyCustodianDeletePrekey handle env s = (.ok u, s')) :
    ∃ m m1 t1 blob', s.cust.mat = some m ∧ Edit s.cust.desc m s.cust.slots m1 t1 ∧
      s.cust.Persisted (some m1) blob' ∧
      s' = ⟨{ s.cust with mat := some m1, slots := t1 }, blob'⟩ := by
  unfold gyCustodianDeletePrekey at h
  cases hget : gyCustodianSlotGet handle s.cust.slots with
  | error e' =>
    rw [hget] at h
    cases h
  | ok k =>
    obtain ⟨type, pkid⟩ := k
    rw [hget] at h
    cases hm : s.cust.mat with
    | none =>
      rw [hm] at h
      cases type <;> cases h
    | some m =>
      rw [hm] at h
      have hspks := hok.spks hm
      cases type with
      | identity => cases h
      | sak => cases h
      | spk =>
        rcases deleteSpk_cases handle pkid env hm hspks with
          ⟨e', h'⟩ | ⟨blob', hhead, hmem, hp, h'⟩
        · cases h.symm.trans h'
        · exact ⟨m, _, _, blob', rfl, .dropSpk hget hhead hmem, hp,
            (Prod.mk.inj (h.symm.trans h')).2⟩
      | opk =>
        rcases deleteOpk_cases handle pkid env hm hspks with ⟨e', h'⟩ | ⟨i, blob', hi, hp, h'⟩
        · cases h.symm.trans h'
        · exact ⟨m, _, _, blob', rfl, .dropOpk hget hi, hp, (Prod.mk.inj (h.symm.trans h')).2⟩

omit [Signer β] in
/-- A reservation that succeeds is persisted. -/
theorem reserveAndPut_ok {cap i : Nat} {env : PersistEnv β} {s s' : Live β} {b : Bytes β}
    (hok : s.cust.Ok) {m : IdMat β s.cust.desc.isHybrid} (hm : s.cust.mat = some m)
    (hi : custFirstReservableOpk m.opks = some i)
    (h : reserveAndPut cap i env s = (.ok b, s')) :
    ∃ m1 blob', s.cust.Persisted (some m1) blob' ∧
      s' = ⟨{ s.cust with mat := some m1 }, blob'⟩ := by
  rcases reserveAndPut_cases cap env hok hm hi with ⟨e, -, h'⟩ | ⟨r, blob', hp, -, h'⟩
  · cases h.symm.trans h'
  · exact ⟨_, blob', custSealAndPersist_ok hp, (Prod.mk.inj (h.symm.trans h')).2⟩

/-- Calls that succeed keep the blob current. -/
theorem Live.Current.step (laws : SealLaws β) {suites : SuiteTable β}
    {L : (desc : SuiteDesc β) → LayoutLaws desc} {s s' : Live β} {cred : Bytes β}
    (hcur : s.Current cred) (hinv : s.Inv suites L) {call : CustCall β} {r : CustReply β}
    (hstep : s.step call = (.ok r, s')) : s'.Current (call.credential cred) := by
  have hok := hinv.ok
  cases call with
  | generateIdentity timestamp n rnd env =>
    obtain ⟨u, h⟩ := op_of_step hstep
    rcases gyCustodianGenerateIdentity_cases timestamp n rnd env s with
      ⟨e, h'⟩ | ⟨m, blob', -, -, -, hp, h'⟩
    · cases h.symm.trans h'
    · obtain ⟨-, rfl⟩ := Prod.mk.inj (h.symm.trans h')
      exact ⟨hp, hcur.opens⟩
  | rotateSignedPrekey timestamp rnd env =>
    obtain ⟨u, h⟩ := op_of_step hstep
    rcases gyCustodianRotateSignedPrekey_cases timestamp rnd env s with
      ⟨e, h'⟩ | ⟨m, spk, blob', -, -, hp, h'⟩
    · cases h.symm.trans h'
    · obtain ⟨-, rfl⟩ := Prod.mk.inj (h.symm.trans h')
      exact ⟨hp, hcur.opens⟩
  | generateOnetimePrekeys count rnd env =>
    obtain ⟨u, h⟩ := op_of_step hstep
    rcases custReplenishOpks_cases count rnd env hok with
      ⟨e, h'⟩ | ⟨m, gen, blob', -, -, -, hp, h'⟩
    · cases h.symm.trans h'
    · obtain ⟨-, rfl⟩ := Prod.mk.inj (h.symm.trans h')
      exact ⟨custSealAndPersist_ok hp, hcur.opens⟩
  | publishBundle cap rnd mint reserve =>
    obtain ⟨b, h⟩ := op_of_step hstep
    rcases gyCustodianPublishBundle_cases cap rnd mint reserve hok with
      ⟨e, h'⟩ | ⟨m, i, hm, hi, h'⟩ | ⟨m, gen, blob', i, hm, -, hroom, hgen, hp, hi, h'⟩
    · cases h.symm.trans h'
    · obtain ⟨m1, blob', hp, rfl⟩ := reserveAndPut_ok hok hm hi (h'.symm.trans h)
      exact ⟨hp, hcur.opens⟩
    · have hmint : Move s _ := .edit hm (.replenish hroom hgen) (custSealAndPersist_ok hp)
      obtain ⟨m1, blob'', hp', rfl⟩ := reserveAndPut_ok (hmint.ok hok) rfl hi (h'.symm.trans h)
      exact ⟨hp', hcur.opens⟩
  | consumeOpk pkid app env =>
    obtain ⟨u, h⟩ := op_of_step hstep
    rcases trConsumeOpk_cases pkid app env s with
      ⟨e, -, h'⟩ | ⟨-, -, h'⟩ | ⟨m, i, res, blob', hm, hi, hp, h'⟩
    · cases h.symm.trans h'
    · obtain ⟨-, rfl⟩ := Prod.mk.inj (h.symm.trans h')
      exact hcur
    · obtain ⟨rfl, rfl⟩ := Prod.mk.inj (h.symm.trans h')
      rcases hp with ⟨-, hp⟩ | ⟨⟨e, he⟩, -⟩
      · exact ⟨hp, hcur.opens⟩
      · cases he
  | deletePrekey handle env =>
    obtain ⟨u, h⟩ := op_of_step hstep
    obtain ⟨m, m1, t1, blob', -, -, hp, rfl⟩ := gyCustodianDeletePrekey_ok hok h
    exact ⟨hp, hcur.opens⟩
  | generateAppkey now expiry rnd env =>
    obtain ⟨u, h⟩ := op_of_step hstep
    rcases gyCustodianGenerateAppkey_cases now expiry rnd env s with
      ⟨e, h'⟩ | ⟨m, sak, blob', -, -, -, hp, h'⟩
    · cases h.symm.trans h'
    · obtain ⟨-, rfl⟩ := Prod.mk.inj (h.symm.trans h')
      exact ⟨hp, hcur.opens⟩
  | rotateAppkey now expiry rnd env =>
    obtain ⟨u, h⟩ := op_of_step hstep
    rcases gyCustodianRotateAppkey_cases now expiry rnd env s with
      ⟨e, h'⟩ | ⟨m, sak, blob', -, -, -, hp, h'⟩
    · cases h.symm.trans h'
    · obtain ⟨-, rfl⟩ := Prod.mk.inj (h.symm.trans h')
      exact ⟨hp, hcur.opens⟩
  | changeCredential newCred rnd load fault =>
    obtain ⟨u, h⟩ := op_of_step hstep
    rcases gyCustodianChangeCredential_cases newCred rnd load fault s with
      ⟨e, h'⟩ | ⟨hdr, tail, wrap, res, blob', -, hdec, hwrap, hp, h'⟩
    · cases h.symm.trans h'
    · obtain ⟨rfl, rfl⟩ := Prod.mk.inj (h.symm.trans h')
      rcases hp with ⟨-, hdr', henc, rfl⟩ | ⟨⟨e, he⟩, -⟩
      · -- the sealed material behind the old header is carried over
        obtain ⟨hdr0, tail0, henc0, htail0, hblob⟩ := hcur.stored.split
        have hdec0 := gyCustHeaderDecode_encode henc0 tail0
        rw [← hblob] at hdec0
        obtain ⟨-, rfl⟩ := Prod.mk.inj (Except.ok.inj (hdec0.symm.trans hdec))
        exact ⟨⟨⟨hdr', _, henc, htail0, rfl⟩⟩, gyKeystoreOpen_wrap laws hinv.kek hwrap⟩
      · cases he

/-- After a run of calls that succeed, the blob is that of the live object and the current
credential opens it. -/
theorem CleanRun.current (laws : SealLaws β) (L : (desc : SuiteDesc β) → LayoutLaws desc)
    {suites : SuiteTable β} {cred : Bytes β} {s : Live β} (h : CleanRun suites cred s) :
    s.Current cred := by
  induction h with
  | create h =>
    obtain ⟨hinv, hp, hwrap, -⟩ := gyCustodianCreate_inv (L := L) h
    exact ⟨hp, gyKeystoreOpen_wrap laws hinv.kek hwrap⟩
  | call call h hstep ih => exact ih.step laws (h.reached.inv laws L) hstep
  | reopen h hopen ih =>
    have hinv := h.reached.inv laws L
    have heq := gyCustodianOpen_persisted laws (L _) hinv.suite (fun m hm => hinv.fits hm) ih.stored
      ih.opens
    obtain rfl := Except.ok.inj (heq.symm.trans hopen)
    exact ⟨ih.stored, ih.opens⟩

/-! ## Closing and opening -/

/-- What opening gives back after a run of calls that succeed: everything but the clock and the
expiry policy, with the handles assigned anew. -/
theorem CleanRun.open_eq (laws : SealLaws β) (L : (desc : SuiteDesc β) → LayoutLaws desc)
    {suites : SuiteTable β} {cred : Bytes β} {s : Live β} (h : CleanRun suites cred s) :
    gyCustodianOpen suites cred s.blob = .ok { s.cust with
      hasClock := false, expiry := .disabled, slots := openedSlots s.cust.mat } := by
  have hinv := h.reached.inv laws L
  have hcur := h.current laws L
  exact gyCustodianOpen_persisted laws (L _) hinv.suite (fun m hm => hinv.fits hm) hcur.stored
    hcur.opens

/-- The reopened custodian agrees with the one that was closed on everything but the numbers of
handles: the same keys have handles, and every operation on the one has a counterpart on the other,
with the same reply. -/
structure SameAfterReopen (s : Live β) (c : GyCustodian β) : Prop where
  cust : c = { s.cust with slots := c.slots }
  slots : s.cust.slots.Perm c.slots
  counterparts : ∀ ops : List (ClientOp β), ∃ ops', Parallel s ⟨c, s.blob⟩ ops ops'
  replies : ∀ ops ops' : List (ClientOp β), Parallel s ⟨c, s.blob⟩ ops ops' →
    (⟨c, s.blob⟩ : Live β).replies ops' = s.replies ops

omit [Octet β] [Signer β] [Sodium β] [SodiumKeystore β] [StructLayout β] in
/-- The handles that opening gives out: to the first keys, as many as there are slots. -/
theorem inUse_openedSlots (c : GyCustodian β) :
    (openedSlots c.mat).length = custodianMaxSlots ∧
      Slots.inUse (openedSlots c.mat) = c.keySlots.take custodianMaxSlots := by
  unfold openedSlots GyCustodian.keySlots
  cases c.mat with
  | none => exact ⟨List.length_replicate, Slots.inUse_replicate_none _⟩
  | some m =>
    dsimp only [Option.elim_some]
    rw [registerAll_eq]
    exact ⟨(Slots.length_putAll _ _).trans List.length_replicate, Slots.inUse_putAll_replicate _ _⟩

/-- After every run of calls that succeed, the current credential opens the blob, and the reopened
custodian is the one that was closed exactly when that had no clock and no expiry policy, and had
handles for the first held keys, as many as there are slots. -/
theorem reopen_same_iff (laws : SealLaws β) (L : (desc : SuiteDesc β) → LayoutLaws desc)
    {suites : SuiteTable β} {cred : Bytes β} {s : Live β} (h : CleanRun suites cred s) :
    ∃ c, gyCustodianOpen suites cred s.blob = .ok c ∧
      (SameAfterReopen s c ↔ s.cust.hasClock = false ∧ s.cust.expiry = .disabled ∧
        (Slots.inUse s.cust.slots).Perm (s.cust.keySlots.take custodianMaxSlots)) := by
  obtain ⟨hlen, huse⟩ := inUse_openedSlots s.cust
  have hslots := (h.reached.inv laws L).ok.length
  have hperm := Slots.perm_iff_inUse (hslots.trans hlen.symm)
  rw [huse] at hperm
  refine ⟨_, h.open_eq laws L, fun hsame => ?_, fun ⟨hclock, hexpiry, hkeys⟩ => ?_⟩
  · have hcust := hsame.cust
    exact ⟨(congrArg GyCustodian.hasClock hcust).symm, (congrArg GyCustodian.expiry hcust).symm,
      hperm.1 hsame.slots⟩
  · have hcust : ({ s.cust with
        hasClock := false, expiry := .disabled, slots := openedSlots s.cust.mat } : GyCustodian β) =
        { s.cust with slots := openedSlots s.cust.mat } := by
      rw [← hclock, ← hexpiry]
    have ht : SlotsPermuted s.cust.slots (openedSlots s.cust.mat) := ⟨hslots, hperm.2 hkeys⟩
    rw [hcust]
    exact ⟨rfl, ht.perm, exists_parallel s ht, fun _ _ => replies_parallel s ht⟩

open Geryon.Sym in
/-- A custodian that was created with an expiry policy has none once it was closed and opened. -/
theorem reopen_drops_expiry :
    ¬ ∀ (suites : SuiteTable Sym) (cred : Bytes Sym) (s : Live Sym), CleanRun suites cred s →
      ∀ c, gyCustodianOpen suites cred s.blob = .ok c → SameAfterReopen s c := by
  intro hclaim
  have hcfg : expiryOf (some ⟨true, 1, 8, 1⟩) = .ok ⟨true, 1, 8, 1⟩ := by decide
  obtain ⟨rest, blob, hcreate⟩ := sym_create [num 5] false hcfg 1
  have hrun : CleanRun symSuites [num 5] _ := .create hcreate
  have hsame := hclaim _ _ _ hrun _ (hrun.open_eq sym_sealLaws symLayoutLaws)
  cases congrArg GyCustodian.expiry hsame.cust

open Geryon.Sym in
/-- An identity without clock and expiry policy comes back as it was, with its two handles. -/
theorem reopen_plain_custodian :
    ∃ (s : Live Sym) (c : GyCustodian Sym), CleanRun symSuites [num 5] s ∧
      s.cust.keySlots.length = 2 ∧ gyCustodianOpen symSuites [num 5] s.blob = .ok c ∧
      SameAfterReopen s c := by
  obtain ⟨wrap, blob, blob', hcreate, hstep⟩ := sym_identity (n := 1) (by decide)
  have hrun : CleanRun symSuites [num 5] _ := .call _ (.create hcreate) hstep
  obtain ⟨c, hopen, hiff⟩ := reopen_same_iff sym_sealLaws symLayoutLaws hrun
  have hslots := (inUse_openedSlots { symCust wrap with mat := some (symIdmat 1) }).2
  exact ⟨_, c, hrun, rfl, hopen, hiff.mpr ⟨rfl, rfl, .of_eq hslots⟩⟩

end Geryon
