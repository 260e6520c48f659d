import Geryon.Proto.Atomic

/-!
# The handle table

The handle table is a fixed array beside the key pools. It holds 48 slots, while the pool alone may
hold 100 one-time prekeys, and the result of a registration is ignored. As long as every call leaves
room, and no signed prekey or application key draws the identifier of one that is retained, the
table is exact: every held key has one slot, and every slot in use names a held key.

## Main definitions

- `ExactTable`: the slots in use are the given keys, each once.
- `Roomy`: the calls that keep the table exact.
- `RoomyRun`: runs of such calls, with close and open in between.

## Main results

- `Edit.exact`: an edit keeps the table exact when the new material fits it.
- `RoomyRun.tidy`: the table is exact in every state of a roomy run.
- `handles_exact_of_roomy`: what follows for handles.
-/

namespace Geryon

variable {β : Type} [Octet β] [Signer β] [Sodium β] [SodiumKeystore β] [StructLayout β]

/-! ## Exact tables -/

section Exact

omit [Octet β] [Signer β] [Sodium β] [SodiumKeystore β] [StructLayout β]

/-- The slots in use are the given keys, each once. -/
structure ExactTable (t : SlotTable) (ks : List KeySlot) : Prop where
  length : t.length = custodianMaxSlots
  perm : (Slots.inUse t).Perm ks
  nodup : ks.Nodup

/-- Distinct keys that fit the handle table. -/
def FitsTable (ks : List KeySlot) : Prop := ks.Nodup ∧ ks.length ≤ custodianMaxSlots

variable {t : SlotTable} {ks ks' : List KeySlot} {k : KeySlot}

theorem ExactTable.of_perm (h : ExactTable t ks) (hp : ks.Perm ks') : ExactTable t ks' :=
  ⟨h.length, h.perm.trans hp, hp.nodup_iff.mp h.nodup⟩

theorem ExactTable.empty : ExactTable .empty [] := by
  refine ⟨List.length_replicate, ?_, List.nodup_nil⟩
  rw [SlotTable.empty, Slots.inUse_replicate_none]

theorem ExactTable.count_le (h : ExactTable t ks) (k : KeySlot) : (Slots.inUse t).count k ≤ 1 := by
  rw [h.perm.count_eq]
  exact List.nodup_iff_count_le_one.mp h.nodup k

theorem ExactTable.length_le (h : ExactTable t ks) : ks.length ≤ custodianMaxSlots := by
  rw [← h.perm.length_eq, ← h.length]
  exact List.length_filterMap_le _ _

/-- A key that is registered with room gets a handle that resolves to it. -/
theorem ExactTable.register (h : ExactTable t ks) (hk : k ∉ ks)
    (hroom : ks.length < custodianMaxSlots) :
    ExactTable (custSlotRegister k t).2 (k :: ks) ∧ (custSlotRegister k t).1 ≠ 0 ∧
      gyCustodianSlotGet (custSlotRegister k t).1 (custSlotRegister k t).2 = .ok k := by
  have hlt : (Slots.inUse t).length < t.length := by
    rw [h.perm.length_eq, h.length]
    exact hroom
  obtain ⟨i, hfree, hi, hat, hperm⟩ := Slots.put_of_room hlt k
  have hlen := h.length
  refine ⟨⟨(Slots.length_put k t).trans h.length, hperm.trans (h.perm.cons k),
    List.nodup_cons.mpr ⟨hk, h.nodup⟩⟩, ?_, ?_⟩
  · simp only [custSlotRegister, hfree, handleOf]
    omega
  · simp only [custSlotRegister, hfree, handleOf, gyCustodianSlotGet, Nat.add_sub_cancel]
    rw [if_neg (by omega), hat]

theorem ExactTable.registerAll (h : ExactTable t ks) (hnodup : (ks' ++ ks).Nodup)
    (hroom : (ks' ++ ks).length ≤ custodianMaxSlots) :
    ExactTable (Geryon.registerAll ks' t) (ks' ++ ks) := by
  rw [registerAll_eq]
  refine ⟨(Slots.length_putAll ks' t).trans h.length, ?_, hnodup⟩
  have hle : (Slots.inUse t).length + ks'.length ≤ t.length := by
    rw [h.perm.length_eq, h.length]
    rw [List.length_append] at hroom
    omega
  exact (Slots.inUse_putAll hle).trans (h.perm.append_left ks')

/-- Wiping a key leaves the others. -/
theorem ExactTable.wipe (h : ExactTable t ks) (k : KeySlot) :
    ExactTable (Slots.wipe (fun k' => decide (k' = k)) t) (ks.erase k) := by
  refine ⟨(Slots.length_wipe _ t).trans h.length, ?_, h.nodup.erase k⟩
  rw [Slots.inUse_wipe, h.nodup.erase_eq_filter]
  have hfilter := h.perm.filter fun k' => k' != k
  have hpred : (fun k' => !decide (k' = k)) = fun k' : KeySlot => k' != k := by
    funext k'
    by_cases hkk : k' = k <;> simp [hkk]
  rw [hpred]
  exact hfilter

theorem ExactTable.freeKey (h : ExactTable t ks) (k : KeySlot) :
    ExactTable (Geryon.freeKey k t) (ks.erase k) := by
  rw [freeKey_eq h.length, Slots.clearKey_eq_wipe (h.count_le k)]
  exact h.wipe k

theorem ExactTable.freeHandle (h : ExactTable t ks) {handle : Nat}
    (hget : gyCustodianSlotGet handle t = .ok k) :
    ExactTable (gyCustodianSlotFree handle t) (ks.erase k) := by
  rw [count_freed hget (h.count_le k)]
  exact h.wipe k

/-- A held key is found, and its handle resolves to it. -/
theorem ExactTable.find (h : ExactTable t ks) (hk : k ∈ ks) :
    custSlotFind k t ≠ 0 ∧ gyCustodianSlotGet (custSlotFind k t) t = .ok k := by
  obtain ⟨i, hi⟩ := Option.isSome_iff_exists.mp
    (Slots.locate_isSome.mpr (h.perm.mem_iff.mpr hk))
  obtain ⟨hlt, hat⟩ := Slots.locate_eq_some hi
  have hlen := h.length
  refine ⟨?_, ?_⟩
  · simp only [custSlotFind, hi, handleOf]
    omega
  · simp only [custSlotFind, hi, handleOf, gyCustodianSlotGet, Nat.add_sub_cancel]
    rw [if_neg (by omega), hat]

/-- Freeing the key that falls off a full history leaves the keys that are retained. -/
theorem ExactTable.freeEvicted {κ : Type} {type : SlotType} {pkid : κ → UInt32} {max : Nat}
    {l : List κ} {rest : List KeySlot} (hmax : 0 < max) (hle : l.length ≤ max)
    (h : ExactTable t (l.map (fun k => ⟨type, pkid k⟩) ++ rest)) :
    ExactTable (Geryon.freeEvicted type pkid max l t)
      ((l.take (max - 1)).map (fun k => ⟨type, pkid k⟩) ++ rest) := by
  unfold Geryon.freeEvicted evicted
  -- only a full history loses its oldest key
  by_cases hfull : l.length = max
  · obtain ⟨old, hold⟩ : ∃ old, l[max - 1]? = some old :=
      ⟨_, List.getElem?_eq_getElem (by omega)⟩
    rw [if_pos hfull, hold]
    have hsplit : l = l.take (max - 1) ++ [old] := by
      have htake := List.take_append_getElem (l := l) (i := max - 1) (by omega)
      rw [List.getElem?_eq_getElem (by omega)] at hold
      rw [← Option.some.inj hold, htake, List.take_of_length_le (by omega)]
    have hperm : (l.map (fun k => (⟨type, pkid k⟩ : KeySlot)) ++ rest).Perm
        (⟨type, pkid old⟩ :: ((l.take (max - 1)).map (fun k => ⟨type, pkid k⟩) ++ rest)) := by
      nth_rewrite 1 [hsplit]
      rw [List.map_append, List.append_assoc]
      exact List.perm_middle
    have herase := hperm.erase ⟨type, pkid old⟩
    rw [List.erase_cons_head] at herase
    exact (h.freeKey ⟨type, pkid old⟩).of_perm herase
  · rw [if_neg hfull, List.take_of_length_le (by omega)]
    exact h

/-- A key that is pushed onto a history gets a handle that resolves to it, in the slots the oldest
key leaves. -/
theorem ExactTable.push {κ : Type} {type : SlotType} {pkid : κ → UInt32} {max : Nat} {new : κ}
    {l : List κ} {rest : List KeySlot} (hmax : 0 < max) (hle : l.length ≤ max)
    (h : ExactTable t (l.map (fun k => ⟨type, pkid k⟩) ++ rest))
    (hfit : FitsTable ((pushHistory max new l).map (fun k => ⟨type, pkid k⟩) ++ rest)) :
    let reg := custSlotRegister ⟨type, pkid new⟩ (Geryon.freeEvicted type pkid max l t)
    ExactTable reg.2 ((pushHistory max new l).map (fun k => ⟨type, pkid k⟩) ++ rest) ∧
      reg.1 ≠ 0 ∧ gyCustodianSlotGet reg.1 reg.2 = .ok ⟨type, pkid new⟩ :=
  (ExactTable.freeEvicted hmax hle h).register (List.nodup_cons.mp hfit.1).1 hfit.2

/-- A table without one of its keys, by what is left of the keys. -/
theorem ExactTable.drop (h : ExactTable t (ks.erase k)) (hp : ks.Perm (k :: ks')) :
    ExactTable t ks' := by
  have herase := hp.erase k
  rw [List.erase_cons_head] at herase
  exact h.of_perm herase

/-- The keys of a material, with the application keys first. -/
theorem keySlots_perm_saks {h : Bool} (m : IdMat β h) :
    m.keySlots.Perm (m.saks.map (fun k => ⟨.sak, k.pkid⟩) ++
      (m.spks.map (fun k => ⟨.spk, k.pkid⟩) ++ m.held.map fun k => ⟨.opk, k.pkid⟩)) := by
  rw [IdMat.keySlots, ← List.append_assoc]
  exact List.perm_append_comm

/-- Keys filled into the pool stand before the others. -/
theorem keySlots_perm_filled {h : Bool} (m : IdMat β h) (gen : List (OpkOf β h)) :
    ({ m with opks := (fillOpks gen m.opks).map Prod.fst } : IdMat β h).keySlots.Perm
      (gen.map (fun k => ⟨.opk, k.pkid⟩) ++ m.keySlots) := by
  have hheld := (heldKeys_fillOpks gen m.opks).map fun k => (⟨.opk, k.pkid⟩ : KeySlot)
  rw [List.map_append] at hheld
  simp only [IdMat.keySlots, IdMat.held_eq]
  -- the signed prekeys stand before the pool on both sides
  have hmid : (_ ++ _ : List KeySlot).Perm _ := (hheld.append_right
    (m.saks.map fun k => (⟨.sak, k.pkid⟩ : KeySlot))).append_left
      (m.spks.map fun k => (⟨.spk, k.pkid⟩ : KeySlot))
  rw [List.append_assoc (gen.map _)] at hmid
  exact hmid.trans (List.perm_append_comm_assoc _ _ _)

/-- A pool slot that is freed takes its key out of the keys. -/
theorem keySlots_perm_set_none {h : Bool} {m : IdMat β h} {i : Nat} {pkid : UInt32}
    (hi : opkIndex pkid m.opks = some i) :
    m.keySlots.Perm (⟨.opk, pkid⟩ ::
      ({ m with opks := m.opks.set i none } : IdMat β h).keySlots) := by
  obtain ⟨x, hx, rfl⟩ := opkIndex_eq_some hi
  have hheld := (heldKeys_set_none hx).map fun k => (⟨.opk, k.pkid⟩ : KeySlot)
  rw [List.map_cons] at hheld
  simp only [IdMat.keySlots, IdMat.held_eq]
  exact ((hheld.append_right _).append_left _).trans List.perm_middle

/-- A signed prekey that is deleted from the history leaves the others. -/
theorem keySlots_perm_eraseP {h : Bool} {m : IdMat β h} {pkid : UInt32}
    (hmem : ∃ k ∈ m.spks.drop 1, k.pkid = pkid) :
    m.keySlots.Perm (⟨.spk, pkid⟩ :: ({ m with
      spks := m.spks.take 1 ++ (m.spks.drop 1).eraseP fun k => decide (k.pkid = pkid) } :
        IdMat β h).keySlots) := by
  obtain ⟨k, hk, hpk⟩ := hmem
  obtain ⟨x, l₁, l₂, -, hx, hdrop, herase⟩ :=
    List.exists_of_eraseP (p := fun k => decide (k.pkid = pkid)) hk (decide_eq_true hpk)
  have hx : x.pkid = pkid := of_decide_eq_true hx
  have hspks : m.spks = m.spks.take 1 ++ (l₁ ++ x :: l₂) := by
    rw [← hdrop, List.take_append_drop]
  have hperm : (m.spks.map fun k => (⟨.spk, k.pkid⟩ : KeySlot)).Perm (⟨.spk, pkid⟩ ::
      (m.spks.take 1 ++ (m.spks.drop 1).eraseP fun k => decide (k.pkid = pkid)).map
        fun k => ⟨.spk, k.pkid⟩) := by
    rw [herase, ← hx]
    nth_rewrite 1 [hspks]
    rw [← List.append_assoc, ← List.append_assoc]
    exact (List.perm_middle.map _)
  exact hperm.append_right _

end Exact

section Push

omit [Octet β] [Signer β] [Sodium β] [SodiumKeystore β] [StructLayout β]

variable {h : Bool} {m : IdMat β h} {t : SlotTable} {sak : SakOf β h}

/-- The handle of an application key that is rotated in. -/
theorem ExactTable.pushSak (hx : ExactTable t m.keySlots) (hsaks : m.saks.length ≤ sakHistoryMax)
    (hfit : FitsTable
      ({ m with saks := pushHistory sakHistoryMax sak m.saks } : IdMat β h).keySlots) :
    let reg := custSlotRegister ⟨.sak, sak.pkid⟩
      (Geryon.freeEvicted .sak SakOf.pkid sakHistoryMax m.saks t)
    ExactTable reg.2
      ({ m with saks := pushHistory sakHistoryMax sak m.saks } : IdMat β h).keySlots ∧
      reg.1 ≠ 0 ∧ gyCustodianSlotGet reg.1 reg.2 = .ok ⟨.sak, sak.pkid⟩ := by
  have hperm := keySlots_perm_saks
    ({ m with saks := pushHistory sakHistoryMax sak m.saks } : IdMat β h)
  obtain ⟨hreg, hne, hget⟩ := ExactTable.push (by decide : 0 < sakHistoryMax) hsaks
    (hx.of_perm (keySlots_perm_saks m)) ⟨hperm.nodup_iff.mp hfit.1, hperm.length_eq ▸ hfit.2⟩
  exact ⟨hreg.of_perm hperm.symm, hne, hget⟩

/-- The handle of a first application key. -/
theorem ExactTable.firstSak (hx : ExactTable t m.keySlots) (hnil : m.saks = [])
    (hfit : FitsTable ({ m with saks := [sak] } : IdMat β h).keySlots) :
    ExactTable (custSlotRegister ⟨.sak, sak.pkid⟩ t).2
      ({ m with saks := [sak] } : IdMat β h).keySlots ∧
      (custSlotRegister ⟨.sak, sak.pkid⟩ t).1 ≠ 0 ∧
      gyCustodianSlotGet (custSlotRegister ⟨.sak, sak.pkid⟩ t).1
        (custSlotRegister ⟨.sak, sak.pkid⟩ t).2 = .ok ⟨.sak, sak.pkid⟩ := by
  have hpushed : pushHistory sakHistoryMax sak m.saks = [sak] := by
    rw [hnil]
    rfl
  have hpush := hx.pushSak (hnil ▸ Nat.zero_le _) (hpushed.symm ▸ hfit)
  rw [hpushed, hnil] at hpush
  exact hpush

end Push

omit [Sodium β] [SodiumKeystore β] [StructLayout β] in
/-- An edit keeps the table exact when the keys of the new material are distinct and fit it. -/
theorem Edit.exact {desc : SuiteDesc β} {m m1 : IdMat β desc.isHybrid} {t t1 : SlotTable}
    (he : Edit desc m t m1 t1) (h : ExactTable t m.keySlots)
    (hspks : m.spks.length ≤ spkHistoryMax) (hsaks : m.saks.length ≤ sakHistoryMax)
    (hfit : FitsTable m1.keySlots) : ExactTable t1 m1.keySlots := by
  -- each edit changes the keys held and the handles in the same way
  cases he with
  | rotateSpk hgen => exact (ExactTable.push (by decide : 0 < spkHistoryMax) hspks h hfit).1
  | replenish _ hgen =>
    rename_i count rnd gen _
    have hperm := keySlots_perm_filled m gen
    refine (h.registerAll (hperm.nodup_iff.mp hfit.1) ?_).of_perm hperm.symm
    rw [← hperm.length_eq]
    exact hfit.2
  | reserve i =>
    have hkeys : ({ m with opks := setExported i true m.opks } :
        IdMat β desc.isHybrid).keySlots = m.keySlots := by
      simp only [IdMat.keySlots, IdMat.held_eq, heldKeys_setExported]
    rw [hkeys]
    exact h
  | dropSpk hget _ hmem => exact (h.freeHandle hget).drop (keySlots_perm_eraseP hmem)
  | dropOpk hget hi => exact (h.freeHandle hget).drop (keySlots_perm_set_none hi)
  | consume hi => exact (h.freeKey _).drop (keySlots_perm_set_none hi)
  | appkey hgen hnil => exact (h.firstSak hnil hfit).1
  | rotateSak hgen => exact (h.pushSak hsaks hfit).1

/-! ## Roomy calls -/

/-- The keys a custodian holds. -/
def GyCustodian.keySlots (c : GyCustodian β) : List KeySlot := c.mat.elim [] IdMat.keySlots

/-- A call that leaves room in the handle table: the keys held after it are at most its slots, and
a signed prekey or application key that comes in does not have the identifier of one of its kind
that is retained. -/
def Roomy (s : Live β) : CustCall β → Prop
  -- the one signed prekey of a new identity takes a slot, too
  | .generateIdentity _ n _ _ => n < custodianMaxSlots
  | .rotateSignedPrekey timestamp rnd _ => ∀ m, s.cust.mat = some m →
    (m.spks.length = spkHistoryMax ∨ m.keySlots.length < custodianMaxSlots) ∧
    ∀ spk, gySignedPrekeyGenerate s.cust.desc s.cust.desc.isHybrid m.ik timestamp rnd = .ok spk →
      spk.pkid ∉ (m.spks.take (spkHistoryMax - 1)).map SpkOf.pkid
  | .generateOnetimePrekeys count _ _ => ∀ m, s.cust.mat = some m →
    m.keySlots.length + count ≤ custodianMaxSlots
  | .publishBundle _ _ _ _ => ∀ m, s.cust.mat = some m → custFirstReservableOpk m.opks = none →
    m.keySlots.length < custodianMaxSlots
  | .generateAppkey _ _ _ _ => ∀ m, s.cust.mat = some m → m.keySlots.length < custodianMaxSlots
  | .rotateAppkey now expiry rnd _ => ∀ m, s.cust.mat = some m →
    (m.saks.length = sakHistoryMax ∨ m.keySlots.length < custodianMaxSlots) ∧
    ∀ sak, custMint s.cust.desc s.cust.desc.isHybrid m.ik (s.cust.issuedAt now) expiry rnd =
      .ok sak → sak.pkid ∉ (m.saks.take (sakHistoryMax - 1)).map SakOf.pkid
  | _ => True

/-- Runs of roomy calls; a close, a crash and an open may stand between any two calls. -/
inductive RoomyRun (suites : SuiteTable β) : Live β → Prop
  | create {suiteId cred uid did clock cfg kekRand rnd fault blob c blob'}
      (h : gyCustodianCreate suites suiteId cred uid did clock cfg kekRand rnd fault blob =
        (.ok c, blob')) : RoomyRun suites ⟨c, blob'⟩
  | call {s} (call : CustCall β) (h : RoomyRun suites s) (hroom : Roomy s call) :
      RoomyRun suites (s.step call).2
  | reopen {s cred c} (h : RoomyRun suites s)
      (hopen : gyCustodianOpen suites cred s.blob = .ok c) : RoomyRun suites ⟨c, s.blob⟩

/-! ## The invariant -/

/-- A live custodian whose handle table is exact, and whose blob holds keys that fit one. -/
structure Live.Tidy (suites : SuiteTable β) (L : (desc : SuiteDesc β) → LayoutLaws desc)
    (s : Live β) : Prop where
  inv : s.Inv suites L
  exact : ExactTable s.cust.slots s.cust.keySlots
  stored : ∃ wrap m, WrapOf s.cust.kek wrap ∧
    PersistedAs s.cust.desc s.cust.selfUid s.cust.selfDid wrap s.cust.kek m s.blob ∧
    ∀ m' ∈ m, m'.Good (L s.cust.desc).fits ∧ FitsTable m'.keySlots

section Fits

omit [Octet β] [Signer β] [Sodium β] [SodiumKeystore β] [StructLayout β]

theorem FitsTable.of_perm {ks ks' : List KeySlot} (h : FitsTable ks) (hp : ks.Perm ks') :
    FitsTable ks' := ⟨hp.nodup_iff.mp h.1, hp.length_eq ▸ h.2⟩

/-- A key in front of a history that is pushed keeps the keys distinct and within the table. -/
theorem FitsTable.push {κ : Type} {type : SlotType} {pkid : κ → UInt32} {max : Nat} {k : κ}
    {l : List κ} {rest : List KeySlot} (hmax : 0 < max)
    (h : FitsTable (l.map (fun k => ⟨type, pkid k⟩) ++ rest))
    (hroom : l.length = max ∨ (l.map (fun k => (⟨type, pkid k⟩ : KeySlot)) ++ rest).length <
      custodianMaxSlots)
    (hnew : pkid k ∉ (l.take (max - 1)).map pkid) (hrest : (⟨type, pkid k⟩ : KeySlot) ∉ rest) :
    FitsTable ((pushHistory max k l).map (fun k => ⟨type, pkid k⟩) ++ rest) := by
  have hsub : ((l.take (max - 1)).map (fun k => (⟨type, pkid k⟩ : KeySlot)) ++ rest).Sublist
      (l.map (fun k => ⟨type, pkid k⟩) ++ rest) :=
    ((List.take_sublist _ _).map _).append_right rest
  refine ⟨List.nodup_cons.mpr ⟨fun hmem => ?_, h.1.sublist hsub⟩, ?_⟩
  · rcases List.mem_append.mp hmem with hmem | hmem
    · obtain ⟨k', hk', heq⟩ := List.mem_map.mp hmem
      exact hnew ((KeySlot.mk.inj heq).2 ▸ List.mem_map_of_mem hk')
    · exact hrest hmem
  · have hle := h.2
    simp only [pushHistory, List.map_cons, List.cons_append, List.length_cons, List.length_append,
      List.length_map, List.length_take] at hroom hle ⊢
    omega

/-- Keys of other types are no signed prekeys. -/
theorem spk_not_mem_rest {h : Bool} (m : IdMat β h) (id : UInt32) :
    (⟨.spk, id⟩ : KeySlot) ∉ m.held.map (fun k => (⟨.opk, k.pkid⟩ : KeySlot)) ++
      m.saks.map fun k => ⟨.sak, k.pkid⟩ := by
  simp

/-- Keys of other types are no application keys. -/
theorem sak_not_mem_rest {h : Bool} (m : IdMat β h) (id : UInt32) :
    (⟨.sak, id⟩ : KeySlot) ∉ m.spks.map (fun k => (⟨.spk, k.pkid⟩ : KeySlot)) ++
      m.held.map fun k => ⟨.opk, k.pkid⟩ := by
  simp

end Fits

section Tidy

variable {suites : SuiteTable β} {L : (desc : SuiteDesc β) → LayoutLaws desc} {s : Live β}

omit [Octet β] [Signer β] [Sodium β] [SodiumKeystore β] [StructLayout β] in
theorem GyCustodian.keySlots_some {c : GyCustodian β} {m : IdMat β c.desc.isHybrid}
    (hm : c.mat = some m) : c.keySlots = m.keySlots := by
  simp only [GyCustodian.keySlots, hm, Option.elim_some]

/-- The keys of a tidy custodian are distinct and fit its table. -/
theorem Live.Tidy.fitsTable (h : s.Tidy suites L) {m : IdMat β s.cust.desc.isHybrid}
    (hm : s.cust.mat = some m) : FitsTable m.keySlots := by
  rw [← GyCustodian.keySlots_some hm]
  exact ⟨h.exact.nodup, h.exact.length_le⟩

/-- An edit that is persisted keeps a custodian tidy. -/
theorem Live.Tidy.edit (h : s.Tidy suites L) {m m1 : IdMat β s.cust.desc.isHybrid}
    {t1 : SlotTable} {blob' : Bytes β} (hm : s.cust.mat = some m)
    (he : Edit s.cust.desc m s.cust.slots m1 t1) (hp : s.cust.Persisted (some m1) blob')
    (hfit : FitsTable m1.keySlots) :
    (⟨{ s.cust with mat := some m1, slots := t1 }, blob'⟩ : Live β).Tidy suites L := by
  have hinv := (Move.edit hm he hp : Move s _).inv h.inv
  have hfits := h.inv.fits hm
  have hexact := h.exact
  rw [GyCustodian.keySlots_some hm] at hexact
  refine ⟨hinv, he.exact hexact hfits.spks_le hfits.saks_le hfit, _, some m1, h.inv.wrap,
    hp, fun m' hm' => ?_⟩
  obtain rfl := Option.some.inj hm'
  exact ⟨hinv.ok.good rfl (hinv.fits rfl), hfit⟩

omit [Octet β] [Signer β] [Sodium β] [SodiumKeystore β] [StructLayout β] in
/-- Keys that are left when one is taken out fit. -/
theorem FitsTable.tail {k : KeySlot} {ks ks' : List KeySlot} (h : FitsTable ks)
    (hp : ks.Perm (k :: ks')) : FitsTable ks' := by
  obtain ⟨hnodup, hlen⟩ := h.of_perm hp
  rw [List.length_cons] at hlen
  exact ⟨(List.nodup_cons.mp hnodup).2, by omega⟩

omit [Signer β] [Sodium β] [SodiumKeystore β] [StructLayout β] in
/-- A generated batch that fits beside the keys there are. -/
theorem FitsTable.filled {desc : SuiteDesc β} {m : IdMat β desc.isHybrid} (h : FitsTable m.keySlots)
    {count : Nat} {rnd : KeyRand β} {gen : List (OpkOf β desc.isHybrid)}
    (hgen : gyOpkGenerate desc desc.isHybrid count (m.held.map OpkOf.pkid) rnd = .ok gen)
    (hroom : m.keySlots.length + count ≤ custodianMaxSlots) :
    FitsTable ({ m with opks := (fillOpks gen m.opks).map Prod.fst } :
      IdMat β desc.isHybrid).keySlots := by
  obtain ⟨-, hlen, hnodup, hnew⟩ := gyOpkGenerate_spec desc hgen
  refine FitsTable.of_perm ⟨List.nodup_append.mpr ⟨opkSlot_nodup hnodup, h.1, ?_⟩, ?_⟩
    (keySlots_perm_filled m gen).symm
  · rintro k hk k' hk' rfl
    obtain ⟨key, hkey, rfl⟩ := List.mem_map.mp hk
    refine (hnew key hkey).2 ?_
    have hcount := List.count_pos_iff.mpr hk'
    rw [opkSlot, count_keySlots_opk] at hcount
    exact List.count_pos_iff.mp hcount
  · rw [List.length_append, List.length_map, hlen]
    omega

omit [Sodium β] [SodiumKeystore β] [StructLayout β] in
/-- The keys of a new identity: its signed prekey and its one-time prekeys, all distinct. -/
theorem keySlots_generated {desc : SuiteDesc β} {h : Bool} {timestamp : UInt64} {n : Nat}
    {rnd : IdentityRand β} {m : IdMat β h} (hgen : generateIdmat desc h timestamp n rnd = .ok m) :
    m.keySlots.Nodup ∧ m.keySlots.length = 1 + m.held.length := by
  obtain ⟨hspk, hsak, -, hnodup, -⟩ := generateIdmat_spec hgen
  obtain ⟨spk, hspk⟩ := List.length_eq_one_iff.mp hspk
  have hkeys : m.keySlots = ⟨.spk, spk.pkid⟩ :: m.held.map opkSlot := by
    simp only [IdMat.keySlots, hspk, hsak, List.map_nil, List.append_nil]
    rfl
  rw [hkeys]
  refine ⟨List.nodup_cons.mpr ⟨?_, opkSlot_nodup hnodup⟩, ?_⟩
  · simp [opkSlot]
  · simp only [List.length_cons, List.length_map]
    omega

/-- A new identity leaves a custodian tidy when its keys fit. -/
theorem Live.Tidy.identity (h : s.Tidy suites L) (hnone : s.cust.mat = none) {n : Nat}
    {timestamp : UInt64} {rnd : IdentityRand β} {m : IdMat β s.cust.desc.isHybrid}
    {blob' : Bytes β} (hn : n ≤ opkBatchMax) (hroom : n < custodianMaxSlots)
    (hgen : generateIdmat s.cust.desc s.cust.desc.isHybrid timestamp n rnd = .ok m)
    (hp : s.cust.Persisted (some m) blob') :
    (⟨{ s.cust with mat := some m, slots := registerAll m.keySlots s.cust.slots }, blob'⟩ :
      Live β).Tidy suites L := by
  have hinv := (Move.identity hnone hn hgen hp : Move s _).inv h.inv
  obtain ⟨-, -, hopk, -, -⟩ := generateIdmat_spec hgen
  have hheld := length_held_le m
  obtain ⟨hnodup, hlen⟩ := keySlots_generated hgen
  have hfit : FitsTable m.keySlots := ⟨hnodup, by omega⟩
  have hexact := h.exact
  have hempty : s.cust.keySlots = [] := by
    simp only [GyCustodian.keySlots, hnone, Option.elim_none]
  rw [hempty] at hexact
  refine ⟨hinv, ?_, _, some m, h.inv.wrap, hp, fun m' hm' => ?_⟩
  · have hreg := hexact.registerAll (by simpa using hfit.1)
      (by simpa using hfit.2)
    rw [List.append_nil] at hreg
    exact hreg
  · obtain rfl := Option.some.inj hm'
    exact ⟨hinv.ok.good rfl (hinv.fits rfl), hfit⟩

/-- A reservation keeps a custodian tidy. -/
theorem Live.Tidy.reserve (h : s.Tidy suites L) (cap : Nat) (env : PersistEnv β)
    {m : IdMat β s.cust.desc.isHybrid} (hm : s.cust.mat = some m) {i : Nat}
    (hi : custFirstReservableOpk m.opks = some i) :
    (reserveAndPut cap i env s).2.Tidy suites L := by
  rcases reserveAndPut_cases cap env h.inv.ok hm hi with ⟨e, -, heq⟩ | ⟨r, blob', hp, -, heq⟩
  · rw [heq]
    exact h
  · rw [heq]
    have hkeys : ({ m with opks := setExported i true m.opks } :
        IdMat β s.cust.desc.isHybrid).keySlots = m.keySlots := by
      simp only [IdMat.keySlots, IdMat.held_eq, heldKeys_setExported]
    exact h.edit hm (.reserve i) (custSealAndPersist_ok hp) (hkeys ▸ h.fitsTable hm)

/-- The destruction of a one-time prekey keeps a custodian tidy, whether or not it is persisted. -/
theorem Live.Tidy.consume (h : s.Tidy suites L) {m : IdMat β s.cust.desc.isHybrid}
    (hm : s.cust.mat = some m) {pkid : UInt32} {i : Nat} (hi : opkIndex pkid m.opks = some i)
    {blob' : Bytes β}
    (hp : s.cust.Persisted (some { m with opks := m.opks.set i none }) blob' ∨ blob' = s.blob) :
    (⟨{ s.cust with
      mat := some { m with opks := m.opks.set i none }
      slots := freeKey ⟨.opk, pkid⟩ s.cust.slots }, blob'⟩ : Live β).Tidy suites L := by
  have hfit := (h.fitsTable hm).tail (keySlots_perm_set_none hi)
  rcases hp with hp | rfl
  · exact h.edit hm (.consume hi) hp hfit
  · have hexact := h.exact
    rw [GyCustodian.keySlots_some hm] at hexact
    exact ⟨(Move.lose hm hi : Move s _).inv h.inv,
      (hexact.freeKey _).drop (keySlots_perm_set_none hi), h.stored⟩

/-- A signed prekey that is rotated in keeps a custodian tidy. -/
theorem Live.Tidy.fits_rotateSpk (h : s.Tidy suites L) {m : IdMat β s.cust.desc.isHybrid}
    (hm : s.cust.mat = some m) {spk : SpkOf β s.cust.desc.isHybrid}
    (hroom : m.spks.length = spkHistoryMax ∨ m.keySlots.length < custodianMaxSlots)
    (hnew : spk.pkid ∉ (m.spks.take (spkHistoryMax - 1)).map SpkOf.pkid) :
    FitsTable ({ m with spks := pushHistory spkHistoryMax spk m.spks } :
      IdMat β s.cust.desc.isHybrid).keySlots :=
  FitsTable.push (by decide) (h.fitsTable hm) hroom hnew (spk_not_mem_rest m spk.pkid)

/-- An application key that is rotated in keeps a custodian tidy. -/
theorem Live.Tidy.fits_rotateSak (h : s.Tidy suites L) {m : IdMat β s.cust.desc.isHybrid}
    (hm : s.cust.mat = some m) {sak : SakOf β s.cust.desc.isHybrid}
    (hroom : m.saks.length = sakHistoryMax ∨ m.keySlots.length < custodianMaxSlots)
    (hnew : sak.pkid ∉ (m.saks.take (sakHistoryMax - 1)).map SakOf.pkid) :
    FitsTable ({ m with saks := pushHistory sakHistoryMax sak m.saks } :
      IdMat β s.cust.desc.isHybrid).keySlots := by
  have hperm := keySlots_perm_saks m
  have hperm' := keySlots_perm_saks ({ m with saks := pushHistory sakHistoryMax sak m.saks } :
    IdMat β s.cust.desc.isHybrid)
  rw [hperm.length_eq] at hroom
  exact (FitsTable.push (by decide) ((h.fitsTable hm).of_perm hperm) hroom hnew
    (sak_not_mem_rest m sak.pkid)).of_perm hperm'.symm

/-- A first application key keeps a custodian tidy. -/
theorem Live.Tidy.fits_appkey (h : s.Tidy suites L) {m : IdMat β s.cust.desc.isHybrid}
    (hm : s.cust.mat = some m) (hnil : m.saks = []) (sak : SakOf β s.cust.desc.isHybrid)
    (hroom : m.keySlots.length < custodianMaxSlots) :
    FitsTable ({ m with saks := [sak] } : IdMat β s.cust.desc.isHybrid).keySlots := by
  have hnew : sak.pkid ∉ (m.saks.take (sakHistoryMax - 1)).map SakOf.pkid := by simp [hnil]
  have hfit := h.fits_rotateSak hm (Or.inr hroom) hnew
  rw [hnil] at hfit
  exact hfit

/-- A new wrap that is installed, with or without its header in the blob, keeps a custodian tidy. -/
theorem Live.Tidy.rewrap (h : s.Tidy suites L) {wrap : Bytes β} {hdr : CustHeader β}
    {tail blob' : Bytes β} (hw : WrapOf s.cust.kek wrap)
    (hdec : gyCustHeaderDecode s.blob = .ok (hdr, tail))
    (hp : (∃ hdr', gyCustHeaderEncode (custBlobMax β)
      ⟨s.cust.desc.suiteId, s.cust.selfUid, s.cust.selfDid, wrap⟩ = .ok hdr' ∧
        blob' = hdr' ++ tail) ∨ blob' = s.blob) :
    (⟨{ s.cust with wrap := wrap }, blob'⟩ : Live β).Tidy suites L := by
  rcases hp with ⟨hdr', henc, rfl⟩ | rfl
  · refine ⟨(Move.rewrap hw hdec henc : Move s _).inv h.inv, h.exact, ?_⟩
    obtain ⟨wrap0, m, -, hp, hgood⟩ := h.stored
    obtain ⟨hdr0, tail0, henc0, htail0, hblob⟩ := hp.split
    have hdec0 := gyCustHeaderDecode_encode henc0 tail0
    rw [← hblob] at hdec0
    obtain ⟨-, rfl⟩ := Prod.mk.inj (Except.ok.inj (hdec0.symm.trans hdec))
    exact ⟨wrap, m, hw, ⟨⟨hdr', _, henc, htail0, rfl⟩⟩, hgood⟩
  · exact ⟨(Move.rewrapLive hw : Move s _).inv h.inv, h.exact, h.stored⟩

/-- A roomy call keeps a custodian tidy. -/
theorem Live.Tidy.step (h : s.Tidy suites L) {call : CustCall β} (hroom : Roomy s call) :
    (s.step call).2.Tidy suites L := by
  have hok := h.inv.ok
  cases call with
  | generateIdentity timestamp n rnd env =>
    rcases gyCustodianGenerateIdentity_cases timestamp n rnd env s with
      ⟨e, heq⟩ | ⟨m, blob', hnone, hn, hgen, hp, heq⟩
    · simp only [Live.step, heq]; exact h
    · simp only [Live.step, heq]; exact h.identity hnone hn hroom hgen hp
  | rotateSignedPrekey timestamp rnd env =>
    rcases gyCustodianRotateSignedPrekey_cases timestamp rnd env s with
      ⟨e, heq⟩ | ⟨m, spk, blob', hm, hgen, hp, heq⟩
    · simp only [Live.step, heq]; exact h
    · simp only [Live.step, heq]
      obtain ⟨hroom, hnew⟩ := hroom m hm
      exact h.edit hm (.rotateSpk hgen) hp (h.fits_rotateSpk hm hroom (hnew spk hgen))
  | generateOnetimePrekeys count rnd env =>
    rcases custReplenishOpks_cases count rnd env hok with
      ⟨e, heq⟩ | ⟨m, gen, blob', hm, hcount, hgen, hp, heq⟩
    · simp only [Live.step, gyCustodianGenerateOnetimePrekeys, heq]; exact h
    · simp only [Live.step, gyCustodianGenerateOnetimePrekeys, heq]
      exact h.edit hm (.replenish hcount hgen) (custSealAndPersist_ok hp)
        ((h.fitsTable hm).filled hgen (hroom m hm))
  | publishBundle cap rnd mint reserve =>
    rcases gyCustodianPublishBundle_cases cap rnd mint reserve hok with
      ⟨e, heq⟩ | ⟨m, i, hm, hi, heq⟩ | ⟨m, gen, blob', i, hm, hnone, hcount, hgen, hp, hi, heq⟩
    · simp only [Live.step, heq]; exact h
    · simp only [Live.step, heq]; exact h.reserve cap reserve hm hi
    · simp only [Live.step, heq]
      have hmint := h.edit hm (.replenish hcount hgen) (custSealAndPersist_ok hp)
        ((h.fitsTable hm).filled hgen (hroom m hm hnone))
      exact hmint.reserve cap reserve rfl hi
  | consumeOpk pkid app env =>
    rcases trConsumeOpk_cases pkid app env s with
      ⟨e, -, heq⟩ | ⟨-, -, heq⟩ | ⟨m, i, r, blob', hm, hi, hp, heq⟩
    · simp only [Live.step, heq]; exact h
    · simp only [Live.step, heq]; exact h
    · simp only [Live.step, heq]
      exact h.consume hm hi (hp.imp And.right And.right)
  | deletePrekey handle env =>
    simp only [Live.step]
    unfold gyCustodianDeletePrekey
    cases hget : gyCustodianSlotGet handle s.cust.slots with
    | error e => exact h
    | ok k =>
      obtain ⟨type, pkid⟩ := k
      cases hm : s.cust.mat with
      | none => cases type <;> exact h
      | some m =>
        have hspks := hok.spks hm
        cases type with
        | identity => exact h
        | sak => exact h
        | spk =>
          rcases deleteSpk_cases handle pkid env hm hspks with
            ⟨e, heq⟩ | ⟨blob', hhead, hmem, hp, heq⟩
          · simp only [heq]; exact h
          · simp only [heq]
            exact h.edit hm (.dropSpk hget hhead hmem) hp
              ((h.fitsTable hm).tail (keySlots_perm_eraseP hmem))
        | opk =>
          rcases deleteOpk_cases handle pkid env hm hspks with ⟨e, heq⟩ | ⟨i, blob', hi, hp, heq⟩
          · simp only [heq]; exact h
          · simp only [heq]
            exact h.edit hm (.dropOpk hget hi) hp
              ((h.fitsTable hm).tail (keySlots_perm_set_none hi))
  | generateAppkey now expiry rnd env =>
    rcases gyCustodianGenerateAppkey_cases now expiry rnd env s with
      ⟨e, heq⟩ | ⟨m, sak, blob', hm, hnil, hgen, hp, heq⟩
    · simp only [Live.step, heq]; exact h
    · simp only [Live.step, heq]
      exact h.edit hm (.appkey hgen hnil) hp (h.fits_appkey hm hnil sak (hroom m hm))
  | rotateAppkey now expiry rnd env =>
    rcases gyCustodianRotateAppkey_cases now expiry rnd env s with
      ⟨e, heq⟩ | ⟨m, sak, blob', hm, -, hgen, hp, heq⟩
    · simp only [Live.step, heq]; exact h
    · simp only [Live.step, heq]
      obtain ⟨hroom, hnew⟩ := hroom m hm
      exact h.edit hm (.rotateSak hgen) hp (h.fits_rotateSak hm hroom (hnew sak hgen))
  | changeCredential newCred rnd load fault =>
    rcases gyCustodianChangeCredential_cases newCred rnd load fault s with
      ⟨e, heq⟩ | ⟨hdr, tail, wrap, r, blob', -, hdec, hwrap, hp, heq⟩
    · simp only [Live.step, heq]; exact h
    · simp only [Live.step, heq]
      exact h.rewrap ⟨newCred, rnd, hwrap⟩ hdec (hp.imp And.right And.right)

/-- A tidy custodian that is closed and opened is tidy. -/
theorem Live.Tidy.reopen (laws : SealLaws β) (h : s.Tidy suites L) {cred : Bytes β}
    {c : GyCustodian β} (hopen : gyCustodianOpen suites cred s.blob = .ok c) :
    (⟨c, s.blob⟩ : Live β).Tidy suites L := by
  have hinv := h.inv.reopen laws hopen
  obtain ⟨wrap, m, hwrap, hp, hgood⟩ := h.stored
  obtain rfl := gyCustodianOpen_stored laws (L _) h.inv.suite hwrap hp
    (fun m' hm' => (hgood m' hm').1.fits) hopen
  refine ⟨hinv, ?_, wrap, m, hwrap, hp, hgood⟩
  cases m with
  | none => exact .empty
  | some m =>
    have hfit := (hgood m rfl).2
    have hreg := ExactTable.empty.registerAll (by simpa using hfit.1)
      (by simpa using hfit.2)
    rw [List.append_nil] at hreg
    exact hreg

end Tidy

/-- The handle table is exact in every state of a roomy run. -/
theorem RoomyRun.tidy (laws : SealLaws β) (L : (desc : SuiteDesc β) → LayoutLaws desc)
    {suites : SuiteTable β} {s : Live β} (h : RoomyRun suites s) : s.Tidy suites L := by
  induction h with
  | create h =>
    rename_i c _
    obtain ⟨hinv, hp, -, hmat, hslots⟩ := gyCustodianCreate_inv (L := L) h
    refine ⟨hinv, ?_, c.wrap, c.mat, hinv.wrap, hp, fun m' hm' => ?_⟩
    · have hkeys : c.keySlots = [] := by
        simp only [GyCustodian.keySlots, hmat, Option.elim_none]
      rw [hkeys, hslots]
      exact .empty
    · rw [hmat] at hm'
      cases hm'
  | call call _ hroom ih => exact ih.step hroom
  | reopen _ hopen ih => exact ih.reopen laws hopen

/-! ## Deletions -/

section Delete

variable {suites : SuiteTable β} {L : (desc : SuiteDesc β) → LayoutLaws desc} {s : Live β}

omit [Signer β] in
/-- A one-time prekey is deleted when the rest of the material is persisted. -/
theorem deleteOpk_ok (handle : Nat) {pkid : UInt32} {env : PersistEnv β} (hok : s.cust.Ok)
    {m : IdMat β s.cust.desc.isHybrid} (hm : s.cust.mat = some m) {i : Nat} {blob' : Bytes β}
    (hi : opkIndex pkid m.opks = some i)
    (hp : custSealAndPersist s.cust { m with opks := m.opks.set i none } env s.blob =
      (.ok (), blob')) : (deleteOpk handle pkid env s m).1 = .ok () := by
  have hreinit : custReinitRecv s.cust.desc.isHybrid m.spks = .ok () :=
    if_neg fun h => hok.spks hm h.2
  unfold deleteOpk
  rw [hi]
  dsimp only
  rw [hp]
  exact hreinit

omit [Signer β] in
/-- A superseded signed prekey is deleted when the rest of the material is persisted. -/
theorem deleteSpk_ok (handle : Nat) {pkid : UInt32} {env : PersistEnv β} (hok : s.cust.Ok)
    {m : IdMat β s.cust.desc.isHybrid} (hm : s.cust.mat = some m) {blob' : Bytes β}
    (hhead : m.spks.head?.map SpkOf.pkid ≠ some pkid) (hmem : ∃ k ∈ m.spks.drop 1, k.pkid = pkid)
    (hp : custSealAndPersist s.cust { m with
      spks := m.spks.take 1 ++ (m.spks.drop 1).eraseP fun k => decide (k.pkid = pkid) } env s.blob =
        (.ok (), blob')) : (deleteSpk handle pkid env s m).1 = .ok () := by
  have hall : ¬ (m.spks.drop 1).all (fun k => decide (k.pkid ≠ pkid)) = true := by
    simpa using hmem
  obtain ⟨spk, rest, hspk⟩ := List.exists_cons_of_ne_nil (hok.spks hm)
  have hreinit : custReinitRecv s.cust.desc.isHybrid (m.spks.take 1 ++
      (m.spks.drop 1).eraseP fun k => decide (k.pkid = pkid)) = .ok () :=
    if_neg fun h => by simp [hspk] at h
  unfold deleteSpk
  rw [if_neg hhead, if_neg hall]
  dsimp only
  rw [hp]
  exact hreinit

/-- The keys that `gy_custodian_delete_prekey` deletes: one-time prekeys, and signed prekeys other
than the active one. -/
def GyCustodian.Deletable (c : GyCustodian β) (k : KeySlot) : Prop :=
  k.type = .opk ∨
    k.type = .spk ∧ ∀ m, c.mat = some m → m.spks.head?.map SpkOf.pkid ≠ some k.keyId

/-- A deletable key of a tidy custodian is deleted through the handle that is found for it. -/
theorem Live.Tidy.delete (laws : SealLaws β) (h : s.Tidy suites L) {k : KeySlot}
    (hk : k ∈ s.cust.keySlots) (hdel : s.cust.Deletable k) {env : PersistEnv β}
    (henv : ∀ m, Persists s.cust m env) :
    (s.step (.deletePrekey (custSlotFind k s.cust.slots) env)).1 = .ok .ok := by
  have hget := (h.exact.find hk).2
  cases hm : s.cust.mat with
  | none =>
    simp only [GyCustodian.keySlots, hm, Option.elim_none] at hk
    cases hk
  | some m =>
    rw [GyCustodian.keySlots_some hm] at hk
    have hfits := h.inv.fits hm
    obtain ⟨type, id⟩ := k
    rcases hdel with htype | ⟨htype, hactive⟩
    · obtain rfl : type = .opk := htype
      have hin : id ∈ m.held.map OpkOf.pkid := by
        have hpos := List.count_pos_iff.mpr hk
        rw [count_keySlots_opk] at hpos
        exact List.count_pos_iff.mp hpos
      obtain ⟨i, hi⟩ : ∃ i, opkIndex id m.opks = some i := by
        obtain ⟨key, hkey, hid⟩ := List.mem_map.mp hin
        obtain ⟨o, ho, hmap⟩ := List.mem_filterMap.mp hkey
        obtain ⟨x, rfl, rfl⟩ := Option.map_eq_some_iff.mp hmap
        rw [← Option.isSome_iff_exists, opkIndex, List.findIdx?_isSome, List.any_eq_true]
        exact ⟨some x, ho, decide_eq_true hid⟩
      obtain ⟨x, hx, -⟩ := opkIndex_eq_some hi
      obtain ⟨blob', hp⟩ := h.inv.persist_ok laws (hfits.set_none hx) (henv _)
      have hok := deleteOpk_ok (custSlotFind ⟨.opk, id⟩ s.cust.slots) h.inv.ok hm hi hp
      simp only [Live.step, gyCustodianDeletePrekey, hget, hm, hok]
      rfl
    · obtain rfl : type = .spk := htype
      have hhead := hactive m hm
      have hmem : ∃ k ∈ m.spks.drop 1, k.pkid = id := by
        have hspk : (⟨.spk, id⟩ : KeySlot) ∈ m.spks.map fun k => (⟨.spk, k.pkid⟩ : KeySlot) := by
          rcases List.mem_append.mp hk with hk | hk
          · exact hk
          · exact absurd hk (spk_not_mem_rest m id)
        obtain ⟨k, hk, heq⟩ := List.mem_map.mp hspk
        have hkid : k.pkid = id := (KeySlot.mk.inj heq).2
        obtain ⟨spk, rest, hspks⟩ := List.exists_cons_of_ne_nil hfits.spks_ne
        rw [hspks] at hk hhead ⊢
        rcases List.mem_cons.mp hk with rfl | hk
        · exact absurd (congrArg some hkid) hhead
        · exact ⟨k, hk, hkid⟩
      have hfits1 := (Edit.dropSpk hget hhead hmem).fits (L _) hfits
      obtain ⟨blob', hp⟩ := h.inv.persist_ok laws hfits1 (henv _)
      have hok := deleteSpk_ok (custSlotFind ⟨.spk, id⟩ s.cust.slots) h.inv.ok hm hhead
        hmem hp
      simp only [Live.step, gyCustodianDeletePrekey, hget, hm, hok]
      rfl

end Delete

/-! ## What handles are good for -/

/-- The handles of a live custodian: every held key has exactly one slot of its type and identifier,
every slot in use names a held key, a key is found under a handle that resolves to it, a call that
returns a handle returns one of the new key, and the prekeys that may be deleted can be. -/
structure HandlesExact (s : Live β) : Prop where
  one : ∀ k ∈ s.cust.keySlots, (Slots.inUse s.cust.slots).count k = 1
  held : ∀ k ∈ Slots.inUse s.cust.slots, k ∈ s.cust.keySlots
  found : ∀ k ∈ s.cust.keySlots, custSlotFind k s.cust.slots ≠ 0 ∧
    gyCustodianSlotGet (custSlotFind k s.cust.slots) s.cust.slots = .ok k
  returned : ∀ call handle s', Roomy s call → s.step call = (.ok (.handle handle), s') →
    handle ≠ 0 ∧ ∃ m sak, s'.cust.mat = some m ∧ m.saks.head? = some sak ∧
      gyCustodianSlotGet handle s'.cust.slots = .ok ⟨.sak, sak.pkid⟩
  deleted : ∀ k ∈ s.cust.keySlots, s.cust.Deletable k → ∀ env, (∀ m, Persists s.cust m env) →
    (s.step (.deletePrekey (custSlotFind k s.cust.slots) env)).1 = .ok .ok

/-- The handle an application key call returns on a tidy custodian. -/
theorem Live.Tidy.returned {suites : SuiteTable β} {L : (desc : SuiteDesc β) → LayoutLaws desc}
    {s s' : Live β} (h : s.Tidy suites L) {call : CustCall β} {handle : Nat}
    (hroom : Roomy s call) (hstep : s.step call = (.ok (.handle handle), s')) :
    handle ≠ 0 ∧ ∃ m sak, s'.cust.mat = some m ∧ m.saks.head? = some sak ∧
      gyCustodianSlotGet handle s'.cust.slots = .ok ⟨.sak, sak.pkid⟩ := by
  have hnot : ∀ {α : Type} {x : Except GyErr α} {f : α → CustReply β} {s1 : Live β},
      (∀ a, f a ≠ .handle handle) → (x.map f, s1) ≠ (.ok (.handle handle), s') := by
    intro α x f s1 hf heq
    cases x with
    | error e => cases (Prod.mk.inj heq).1
    | ok a => exact hf a (Except.ok.inj (Prod.mk.inj heq).1)
  cases call with
  | generateAppkey now expiry rnd env =>
    rcases gyCustodianGenerateAppkey_cases now expiry rnd env s with
      ⟨e, heq⟩ | ⟨m, sak, blob', hm, hnil, hgen, hp, heq⟩
    · simp only [Live.step, heq] at hstep
      cases hstep
    · simp only [Live.step, heq] at hstep
      obtain ⟨hhandle, rfl⟩ := Prod.mk.inj hstep
      obtain rfl := CustReply.handle.inj (Except.ok.inj hhandle)
      have hexact := h.exact
      rw [GyCustodian.keySlots_some hm] at hexact
      obtain ⟨-, hne, hget⟩ := hexact.firstSak hnil (h.fits_appkey hm hnil sak (hroom m hm))
      exact ⟨hne, _, sak, rfl, rfl, hget⟩
  | rotateAppkey now expiry rnd env =>
    rcases gyCustodianRotateAppkey_cases now expiry rnd env s with
      ⟨e, heq⟩ | ⟨m, sak, blob', hm, -, hgen, hp, heq⟩
    · simp only [Live.step, heq] at hstep
      cases hstep
    · simp only [Live.step, heq] at hstep
      obtain ⟨hhandle, rfl⟩ := Prod.mk.inj hstep
      obtain rfl := CustReply.handle.inj (Except.ok.inj hhandle)
      have hexact := h.exact
      rw [GyCustodian.keySlots_some hm] at hexact
      obtain ⟨hroom, hnew⟩ := hroom m hm
      obtain ⟨-, hne, hget⟩ := hexact.pushSak (h.inv.fits hm).saks_le
        (h.fits_rotateSak hm hroom (hnew sak hgen))
      exact ⟨hne, _, sak, rfl, rfl, hget⟩
  | publishBundle cap rnd mint reserve => exact absurd hstep (hnot fun a ha => by cases ha)
  | generateIdentity timestamp n rnd env => exact absurd hstep (hnot fun a ha => by cases ha)
  | rotateSignedPrekey timestamp rnd env => exact absurd hstep (hnot fun a ha => by cases ha)
  | generateOnetimePrekeys count rnd env => exact absurd hstep (hnot fun a ha => by cases ha)
  | consumeOpk pkid app env => exact absurd hstep (hnot fun a ha => by cases ha)
  | deletePrekey handle env => exact absurd hstep (hnot fun a ha => by cases ha)
  | changeCredential newCred rnd load fault => exact absurd hstep (hnot fun a ha => by cases ha)

/-- In every state of a run of roomy calls the handles are exact. -/
theorem handles_exact_of_roomy (laws : SealLaws β) (L : (desc : SuiteDesc β) → LayoutLaws desc)
    {suites : SuiteTable β} {s : Live β} (h : RoomyRun suites s) : HandlesExact s := by
  have htidy := h.tidy laws L
  have hexact := htidy.exact
  refine ⟨fun k hk => ?_, fun k hk => hexact.perm.mem_iff.mp hk, fun k hk => hexact.find hk,
    fun call handle s' hroom hstep => htidy.returned hroom hstep,
    fun k hk hdel env henv => htidy.delete laws hk hdel henv⟩
  rw [hexact.perm.count_eq, hexact.nodup.count, if_pos hk]

/-! ## Symbolic handles -/

open Geryon.Sym in
/-- An identity with as many one-time prekeys as the table has slots: one key has no handle. -/
theorem handle_table_overflows :
    ¬ ∀ (suites : SuiteTable Sym) (s : Live Sym), Reached suites s →
      ∀ k ∈ s.cust.keySlots, (Slots.inUse s.cust.slots).count k = 1 := by
  intro hclaim
  obtain ⟨wrap, blob, hreach⟩ := reached_symOneTime (n := 48) (by decide)
  have hone : ∀ k ∈ (symIdmat 48).keySlots,
      (Slots.inUse (registerAll (symIdmat 48).keySlots .empty)).count k = 1 := hclaim _ _ hreach
  -- the 49 keys are distinct, so they would need 49 slots
  obtain ⟨hkeys, hlen⟩ := keySlots_generated (generateIdmat_sym (n := 48) (by decide))
  have hsub : (symIdmat 48).keySlots ⊆ Slots.inUse (registerAll (symIdmat 48).keySlots .empty) := by
    intro k hk
    exact List.count_pos_iff.mp (by rw [hone k hk]; decide)
  have hle := (hkeys.subperm hsub).length_le
  have hslots : (Slots.inUse (registerAll (symIdmat 48).keySlots .empty)).length ≤ 48 := by
    refine (List.length_filterMap_le _ _).trans ?_
    rw [registerAll_eq, Slots.length_putAll]
    exact le_refl _
  rw [length_held_symIdmat] at hlen
  omega

open Geryon.Sym in
/-- An identity with one one-time prekey: its two keys have their handles. -/
theorem handles_exact_small_identity :
    ∃ s : Live Sym, RoomyRun symSuites s ∧ s.cust.keySlots.length = 2 ∧ HandlesExact s := by
  obtain ⟨wrap, blob, blob', hcreate, hstep⟩ := sym_identity (n := 1) (by decide)
  have hrun := RoomyRun.call (.generateIdentity 0 1 (symIdentityRand 1) symPersist)
    (.create hcreate) (show 1 < 48 by decide)
  rw [hstep] at hrun
  exact ⟨_, hrun, rfl, handles_exact_of_roomy sym_sealLaws symLayoutLaws hrun⟩

end Geryon
