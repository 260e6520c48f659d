import Geryon.Lib.Staged
import Geryon.Qspgs.Store
import Geryon.Qspgs.Symbolic

/-!
# Staged group keys

The current and the staged key of a group live in two records of `qspgs_store.c`. Over any sequence
of calls, with failures at any callback, the records stand for a cell with a current and a staged
value (`Staged.Cell`), as long as no key is stored over a staged one and no staged key is discarded
after its promotion was cut short (`KeyRun.Careful`).
-/

namespace Geryon

variable {β : Type} [Octet β] [DecidableEq β] (desc : SuiteDesc β)

/-- A group key: `2 * kappa` bytes. -/
abbrev GroupKey := { k : Bytes β // k.length = gyQspgsMasterKeyLen desc }

/-- The calls that write the key records of a group. Creating a group and joining over a link store
a key as an installation does. -/
inductive KeyCall where
  | create (gid : Bytes β) (gk : GroupKey desc)
  | install (env : Bytes β)
  | join (gid : Bytes β) (gk : GroupKey desc)
  | stage (gid : Bytes β) (gk : GroupKey desc)
  | commit (gid : Bytes β)
  | rollback (gid : Bytes β)
  | delete (gid : Bytes β)

variable {desc}

/-- What a call runs. -/
def KeyCall.run : KeyCall desc → QsM β Unit
  | .create gid gk => gyQspgsGroupKeyStore desc gid gk.1
  | .install env => do
    let _ ← gyCustodianQsgroupInstallGroupKey desc env
    return ()
  | .join gid gk => gyQspgsGroupKeyStore desc gid gk.1
  | .stage gid gk => gyQspgsGroupKeyStage desc gid gk.1
  | .commit gid => gyQspgsGroupKeyCommit desc gid
  | .rollback gid => gyQspgsGroupKeyRollback gid
  | .delete gid => gyQspgsGroupDeleteStored gid

/-- The group and the key of an envelope, if it is well formed. -/
def envelope (env : Bytes β) : Option (Bytes β × GroupKey desc) :=
  if h : env.length = qspgsObjHdrLen + qspgsGidLen + gyQspgsMasterKeyLen desc ∧
      byteAt env 0 = QObj.groupKey.byte.toNat ∧ byteAt env 1 = qspgsWireVersion.toNat ∧
      byteAt env 2 = desc.suiteId.toNat then
    some ((env.drop qspgsObjHdrLen).take qspgsGidLen,
      ⟨env.drop (qspgsObjHdrLen + qspgsGidLen), by rw [List.length_drop, h.1]; omega⟩)
  else none

/-- The call on the key of one group, if it is on this group. -/
def KeyCall.on (gid : Bytes β) : KeyCall desc → Option (Staged.Call (GroupKey desc))
  | .create g gk => if g = gid then some (.put gk) else none
  | .install env =>
    -- an envelope names its own group
    match envelope env with
    | some (g, gk) => if g = gid then some (.put gk) else none
    | none => none
  | .join g gk => if g = gid then some (.put gk) else none
  | .stage g gk => if g = gid then some (.stage gk) else none
  | .commit g => if g = gid then some .commit else none
  | .rollback g => if g = gid then some .rollback else none
  | .delete g => if g = gid then some .drop else none

/-- A call with the failures its callbacks will report. -/
structure KeyStep (desc : SuiteDesc β) where
  call : KeyCall desc
  faults : List (Option CallbackFault)

/-- The result of a call on the stored records, and the records it leaves. -/
def KeyStep.exec (p : KeyStep desc) (recs : QsRecords β) : Except GyErr Unit × QsRecords β :=
  ((p.call.run ⟨recs, p.faults⟩).1, (p.call.run ⟨recs, p.faults⟩).2.recs)

/-- The records after a sequence of calls on an empty store. -/
def recsAfter (steps : List (KeyStep desc)) : QsRecords β :=
  steps.foldl (fun recs p => (p.exec recs).2) fun _ _ => []

/-- What a load of the group key gives when no callback fails. -/
def loadedKey (desc : SuiteDesc β) (recs : QsRecords β) (gid : Bytes β) :
    Except GyErr (Bytes β) :=
  (gyQspgsGroupKeyLoad desc gid qspgsMasterKeyMax ⟨recs, []⟩).1

/-! ## The two records -/

/-- The blob of a key record. -/
def keyBlob : Option (GroupKey desc) → Bytes β
  | none => []
  | some gk => putHdr ++ gk.1

/-- The records of a group hold these keys. -/
structure KeySlots (recs : QsRecords β) (gid : Bytes β) (s : Staged.Slots (GroupKey desc)) :
    Prop where
  cur : recs .groupKey gid = keyBlob s.cur
  pend : recs .groupKeyPending gid = keyBlob s.pend

/-- No callback reports a failure as an absent record. -/
def Orderly (faults : List (Option CallbackFault)) : Prop :=
  ∀ f, some f ∈ faults → f.err ≠ .notFound

omit [DecidableEq β] in
/-- An empty record means that there is no key. -/
theorem keyBlob_eq_nil_iff {o : Option (GroupKey desc)} : keyBlob o = [] ↔ o = none := by
  cases o with
  | none => simp [keyBlob]
  | some gk => simp [keyBlob, putHdr]

omit [DecidableEq β] in
/-- A stored record determines the key. -/
theorem keyBlob_injective : Function.Injective (keyBlob : Option (GroupKey desc) → Bytes β) := by
  intro o o' h
  cases o with
  | none => exact (keyBlob_eq_nil_iff.1 h.symm).symm
  | some gk =>
    cases o' with
    | none => cases keyBlob_eq_nil_iff.1 h
    | some gk' => rw [Subtype.ext (List.append_cancel_left h)]

omit [Octet β] in
@[simp] theorem QsRecords.set_same (recs : QsRecords β) (kind : QRecKind) (id blob : Bytes β) :
    recs.set kind id blob kind id = blob := by
  simp [QsRecords.set]

omit [Octet β] in
/-- Writing a record leaves the others. -/
theorem QsRecords.set_other (recs : QsRecords β) {kind k : QRecKind} {id i : Bytes β}
    (blob : Bytes β) (h : ¬(k = kind ∧ i = id)) : recs.set kind id blob k i = recs k i := by
  simp [QsRecords.set, h]

omit [Octet β] [DecidableEq β] in
/-- A callback has its effect and its result, or fails with or without its effect. -/
theorem callback_cases {α : Type} (effect : QsRecords β → QsRecords β)
    (result : QsRecords β → Except GyErr α) (st : QsStore β) :
    ∃ rest, rest ⊆ st.faults ∧
      (callback effect result st = (result st.recs, ⟨effect st.recs, rest⟩) ∨
        ∃ f recs, some f ∈ st.faults ∧ (recs = effect st.recs ∨ recs = st.recs) ∧
          callback effect result st = (.error f.err, ⟨recs, rest⟩)) := by
  obtain ⟨recs, faults⟩ := st
  match faults with
  | [] => exact ⟨[], List.Subset.refl _, .inl rfl⟩
  | none :: rest => exact ⟨rest, List.subset_cons_self _ _, .inl rfl⟩
  | some f :: rest =>
    refine ⟨rest, List.subset_cons_self _ _, .inr ⟨f, if f.after then effect recs else recs,
      List.mem_cons_self, ?_, rfl⟩⟩
    by_cases h : f.after = true
    · exact .inl (if_pos h)
    · exact .inr (if_neg h)

/-- Storing a record writes it, or fails having written it or not. -/
theorem storeKeyed_cases (kind : QRecKind) (id payload : Bytes β) (st : QsStore β) :
    ∃ res recs rest, storeKeyed kind id payload st = (res, ⟨recs, rest⟩) ∧ rest ⊆ st.faults ∧
      (recs = st.recs.set kind id (putHdr ++ payload) ∨ (recs = st.recs ∧ res ≠ .ok ())) := by
  obtain ⟨rest, hrest, h | ⟨f, recs, -, heff, h⟩⟩ := callback_cases
    (fun recs : QsRecords β => recs.set kind id (putHdr ++ payload))
    (fun _ => (.ok () : Except GyErr Unit)) st
  · exact ⟨_, _, rest, h, hrest, .inl rfl⟩
  · refine ⟨_, recs, rest, h, hrest, heff.imp_right fun he => ⟨he, ?_⟩⟩
    exact fun hc => by cases hc

omit [Octet β] in
/-- Removing a record removes it, or fails having removed it or not. -/
theorem removeCb_cases (kind : QRecKind) (id : Bytes β) (st : QsStore β) :
    ∃ res recs rest, removeCb kind id st = (res, ⟨recs, rest⟩) ∧ rest ⊆ st.faults ∧
      (recs = st.recs.set kind id [] ∨ (recs = st.recs ∧ res ≠ .ok ())) := by
  obtain ⟨rest, hrest, h | ⟨f, recs, -, heff, h⟩⟩ := callback_cases
    (fun recs : QsRecords β => recs.set kind id [])
    (fun _ => (.ok () : Except GyErr Unit)) st
  · exact ⟨_, _, rest, h, hrest, .inl rfl⟩
  · refine ⟨_, recs, rest, h, hrest, heff.imp_right fun he => ⟨he, ?_⟩⟩
    exact fun hc => by cases hc

omit [Octet β] [DecidableEq β] in
/-- Group keys fit the buffers for them. -/
theorem gyQspgsMasterKeyLen_le (desc : SuiteDesc β) :
    gyQspgsMasterKeyLen desc ≤ qspgsMasterKeyMax := by
  unfold gyQspgsMasterKeyLen qspgsMasterKeyMax
  split
  · omega
  · split <;> omega

omit [DecidableEq β] in
/-- The checks of a load pass on a key record. -/
theorem loadKeyed_keyBlob (kind : QRecKind) (gid : Bytes β) (o : Option (GroupKey desc))
    (st : QsStore β) (h : st.recs kind gid = keyBlob o) :
    ∃ rest, rest ⊆ st.faults ∧
      (loadKeyed kind gid (gyQspgsMasterKeyLen desc) st =
          (o.elim (.error .notFound) fun gk => .ok gk.1, ⟨st.recs, rest⟩) ∨
        ∃ f, some f ∈ st.faults ∧
          loadKeyed kind gid (gyQspgsMasterKeyLen desc) st = (.error f.err, ⟨st.recs, rest⟩)) := by
  have hlen : ∀ gk : GroupKey desc, (putHdr ++ gk.1 : Bytes β).length =
      qspgsRecHdrLen + gyQspgsMasterKeyLen desc := by
    intro gk
    rw [List.length_append, gk.2]
    rfl
  have hcap : ¬ qspgsRecBlobMax < (st.recs kind gid).length := by
    have hle := gyQspgsMasterKeyLen_le desc
    rw [h]
    cases o with
    | none => exact Nat.not_lt_zero _
    | some gk =>
      rw [keyBlob, hlen gk, Nat.not_lt]
      exact Nat.le_trans (Nat.add_le_add_left hle _) (by decide)
  obtain ⟨rest, hrest, hcb | ⟨f, recs, hmem, heff, hcb⟩⟩ := callback_cases
    (fun recs : QsRecords β => recs)
    (fun recs => if qspgsRecBlobMax < (recs kind gid).length then .error .toolong
      else (.ok (recs kind gid) : Except GyErr (Bytes β))) st
  · refine ⟨rest, hrest, .inl ?_⟩
    rw [if_neg hcap] at hcb
    have hload : loadCb kind gid qspgsRecBlobMax st =
        (.ok (st.recs kind gid), ⟨st.recs, rest⟩) := hcb
    rw [loadKeyed, Cmd.bind_apply_of_ok hload, h]
    cases o with
    | none => rfl
    | some gk =>
      have hne : (putHdr ++ gk.1 : Bytes β).length ≠ 0 := by
        rw [hlen gk]
        simp [qspgsRecHdrLen]
      have hver : byteAt (putHdr ++ gk.1 : Bytes β) 0 = qspgsRecVersion.toNat := by
        simp [putHdr, byteAt]
      have hfmt : be16Get ((putHdr ++ gk.1 : Bytes β).drop 1) = qspgsFormatVersion := by
        simp [putHdr]
      have hdrop : (putHdr ++ gk.1 : Bytes β).drop qspgsRecHdrLen = gk.1 := rfl
      rw [keyBlob, if_neg hne, if_neg (not_or.2 ⟨fun hc => hc (hlen gk), fun hc => hc hver⟩),
        if_neg (fun hc => hc hfmt), hdrop]
      rfl
  · have hrecs : recs = st.recs := heff.elim id id
    refine ⟨rest, hrest, .inr ⟨f, hmem, ?_⟩⟩
    have hload : loadCb kind gid qspgsRecBlobMax st = (.error f.err, ⟨st.recs, rest⟩) := by
      rw [← hrecs]
      exact hcb
    rw [loadKeyed, Cmd.bind_apply_of_error hload]

namespace KeySlots

variable {recs : QsRecords β} {gid : Bytes β} {s : Staged.Slots (GroupKey desc)}

/-- Storing a key, on the records and on the cell. -/
theorem setCur (h : KeySlots recs gid s) (gk : GroupKey desc) :
    KeySlots (recs.set .groupKey gid (putHdr ++ gk.1)) gid (s.write (.setCur gk)) where
  cur := recs.set_same _ _ _
  pend := (recs.set_other _ (by simp)).trans h.pend

/-- Staging a key, on the records and on the cell. -/
theorem setPend (h : KeySlots recs gid s) (gk : GroupKey desc) :
    KeySlots (recs.set .groupKeyPending gid (putHdr ++ gk.1)) gid (s.write (.setPend gk)) where
  cur := (recs.set_other _ (by simp)).trans h.cur
  pend := recs.set_same _ _ _

/-- Removing the staged key. -/
theorem clearPend (h : KeySlots recs gid s) :
    KeySlots (recs.set .groupKeyPending gid []) gid (s.write .clearPend) where
  cur := (recs.set_other _ (by simp)).trans h.cur
  pend := recs.set_same _ _ _

/-- Removing the stored key. -/
theorem clearCur (h : KeySlots recs gid s) :
    KeySlots (recs.set .groupKey gid []) gid (s.write .clearCur) where
  cur := recs.set_same _ _ _
  pend := (recs.set_other _ (by simp)).trans h.pend

/-- Removing the join link touches neither key. -/
theorem clear_joinLink (h : KeySlots recs gid s) :
    KeySlots (recs.set .joinLink gid []) gid s where
  cur := (recs.set_other _ (by simp)).trans h.cur
  pend := (recs.set_other _ (by simp)).trans h.pend

omit [DecidableEq β] in
/-- The records of a group are these as long as nothing changes them. -/
theorem congr (h : KeySlots recs gid s) {recs' : QsRecords β}
    (heq : ∀ k, recs' k gid = recs k gid) : KeySlots recs' gid s where
  cur := (heq _).trans h.cur
  pend := (heq _).trans h.pend

end KeySlots

/-! ## Every call is a prefix of its writes -/

/-- A call that ends in `r` has done a prefix of the writes it has for the group, and all of them
if it succeeded. -/
def KeyWrites (gid : Bytes β) (s : Staged.Slots (GroupKey desc))
    (a : Option (Staged.Call (GroupKey desc))) (r : Except GyErr Unit × QsStore β) : Prop :=
  ∃ ws, KeySlots r.2.recs gid (s.writeAll ws) ∧
    match a with
    | none => ws = []
    | some a => ws <+: s.writes a ∧ (r.1 = .ok () → a.Enabled s.pend ∧ ws = s.writes a)

section

variable {gid : Bytes β} {s : Staged.Slots (GroupKey desc)} {st : QsStore β}

omit [DecidableEq β] in
/-- A call that fails before its first write. -/
theorem KeyWrites.failed {a : Option (Staged.Call (GroupKey desc))}
    {r : Except GyErr Unit × QsStore β} (h : KeySlots r.2.recs gid s) (hr : r.1 ≠ .ok ()) :
    KeyWrites gid s a r := by
  refine ⟨[], h, ?_⟩
  cases a with
  | none => rfl
  | some a => exact ⟨List.nil_prefix, fun hc => absurd hc hr⟩

/-- Storing a group key writes the cell. -/
theorem groupKeyStore_writes (hlen : gyQspgsMasterKeyLen desc ≠ 0) (h : KeySlots st.recs gid s)
    (gk : GroupKey desc) :
    KeyWrites gid s (some (.put gk)) (gyQspgsGroupKeyStore desc gid gk.1 st) := by
  rw [gyQspgsGroupKeyStore, if_neg hlen]
  obtain ⟨res, recs, rest, hst, -, rfl | ⟨rfl, hres⟩⟩ := storeKeyed_cases .groupKey gid gk.1 st
  · rw [hst]
    exact ⟨[.setCur gk], h.setCur gk, List.prefix_rfl, fun _ => ⟨trivial, rfl⟩⟩
  · rw [hst]
    exact .failed h hres

/-- Staging a group key writes the cell. -/
theorem groupKeyStage_writes (hlen : gyQspgsMasterKeyLen desc ≠ 0) (h : KeySlots st.recs gid s)
    (hf : Orderly st.faults) (gk : GroupKey desc) :
    KeyWrites gid s (some (.stage gk)) (gyQspgsGroupKeyStage desc gid gk.1 st) := by
  rw [gyQspgsGroupKeyStage, if_neg hlen, Cmd.attempt_bind_apply]
  obtain ⟨rest, -, hload | ⟨f, hmem, hload⟩⟩ :=
    loadKeyed_keyBlob .groupKeyPending gid s.pend st h.pend
  · rw [hload]
    cases hpend : s.pend with
    | none =>
      obtain ⟨res, recs, rest', hst, -, rfl | ⟨rfl, hres⟩⟩ :=
        storeKeyed_cases .groupKeyPending gid gk.1 ⟨st.recs, rest⟩
      · dsimp only [Option.elim]
        rw [hst]
        have hwr : s.writes (.stage gk) = [.setPend gk] := by simp [Staged.Slots.writes, hpend]
        exact ⟨[.setPend gk], h.setPend gk, hwr ▸ List.prefix_rfl, fun _ => ⟨hpend, hwr.symm⟩⟩
      · dsimp only [Option.elim]
        rw [hst]
        exact .failed h hres
    | some old => exact .failed h (by simp)
  · rw [hload]
    have hne := hf f hmem
    cases herr : f.err with
    | notFound => exact absurd herr hne
    | _ => exact .failed h (by simp)

/-- Committing moves the staged key to the stored one. -/
theorem groupKeyCommit_writes (hlen : gyQspgsMasterKeyLen desc ≠ 0) (h : KeySlots st.recs gid s) :
    KeyWrites gid s (some .commit) (gyQspgsGroupKeyCommit desc gid st) := by
  rw [gyQspgsGroupKeyCommit, if_neg hlen]
  obtain ⟨rest, -, hload | ⟨f, -, hload⟩⟩ :=
    loadKeyed_keyBlob .groupKeyPending gid s.pend st h.pend
  · cases hpend : s.pend with
    | none =>
      rw [hpend] at hload
      rw [Cmd.bind_apply_of_error hload]
      exact .failed h (by simp)
    | some gk =>
      rw [hpend] at hload
      rw [Cmd.bind_apply_of_ok hload]
      have hwr : s.writes (.commit : Staged.Call (GroupKey desc)) = [.setCur gk, .clearPend] := by
        simp [Staged.Slots.writes, hpend]
      obtain ⟨res, recs, rest', hst, -, hcase⟩ :=
        storeKeyed_cases .groupKey gid gk.1 ⟨st.recs, rest⟩
      cases res with
      | error e =>
        rw [Cmd.bind_apply_of_error hst]
        rcases hcase with rfl | ⟨rfl, -⟩
        · exact ⟨[.setCur gk], h.setCur gk, by simp [hwr], fun hc => by cases hc⟩
        · exact .failed h (by simp)
      | ok u =>
        rw [Cmd.bind_apply_of_ok hst]
        obtain rfl : recs = _ := hcase.resolve_right fun hc => hc.2 rfl
        obtain ⟨res', recs', rest'', hrm, -, rfl | ⟨rfl, hres⟩⟩ :=
          removeCb_cases .groupKeyPending gid
            ⟨st.recs.set .groupKey gid (putHdr ++ gk.1), rest'⟩
        · rw [hrm]
          exact ⟨[.setCur gk, .clearPend], (h.setCur gk).clearPend, hwr ▸ List.prefix_rfl,
            fun _ => ⟨by simp [Staged.Call.Enabled, hpend], hwr.symm⟩⟩
        · rw [hrm]
          exact ⟨[.setCur gk], h.setCur gk, by simp [hwr], fun hc => absurd hc hres⟩
  · rw [Cmd.bind_apply_of_error hload]
    exact .failed h (by simp)

/-- Rolling back removes the staged key. -/
theorem groupKeyRollback_writes (h : KeySlots st.recs gid s) :
    KeyWrites gid s (some .rollback) (gyQspgsGroupKeyRollback gid st) := by
  obtain ⟨res, recs, rest, hrm, -, rfl | ⟨rfl, hres⟩⟩ := removeCb_cases .groupKeyPending gid st
  · rw [gyQspgsGroupKeyRollback, hrm]
    exact ⟨[.clearPend], h.clearPend, List.prefix_rfl, fun _ => ⟨trivial, rfl⟩⟩
  · rw [gyQspgsGroupKeyRollback, hrm]
    exact .failed h hres

/-- Forgetting a group empties the cell. -/
theorem groupDeleteStored_writes (h : KeySlots st.recs gid s) :
    KeyWrites gid s (some .drop) (gyQspgsGroupDeleteStored gid st) := by
  obtain ⟨res, recs, rest, hlink, -, hcase⟩ := removeCb_cases .joinLink gid st
  -- the join link is in neither record
  have h₁ : KeySlots recs gid s := by
    rcases hcase with rfl | ⟨rfl, -⟩
    · exact h.clear_joinLink
    · exact h
  cases res with
  | error e =>
    rw [gyQspgsGroupDeleteStored, Cmd.bind_apply_of_error hlink]
    exact .failed h₁ (by simp)
  | ok u =>
    rw [gyQspgsGroupDeleteStored, Cmd.bind_apply_of_ok hlink]
    obtain ⟨res, recs', rest', hpend, -, hcase'⟩ := removeCb_cases .groupKeyPending gid ⟨recs, rest⟩
    cases res with
    | error e =>
      rw [Cmd.bind_apply_of_error hpend]
      rcases hcase' with rfl | ⟨rfl, -⟩
      · exact ⟨[.clearPend], h₁.clearPend, by simp [Staged.Slots.writes], fun hc => by cases hc⟩
      · exact .failed h₁ (by simp)
    | ok u =>
      rw [Cmd.bind_apply_of_ok hpend]
      obtain rfl : recs' = _ := hcase'.resolve_right fun hc => hc.2 rfl
      obtain ⟨res, recs'', rest'', hcur, -, rfl | ⟨rfl, hres⟩⟩ :=
        removeCb_cases .groupKey gid ⟨recs.set .groupKeyPending gid [], rest'⟩
      · rw [hcur]
        exact ⟨[.clearPend, .clearCur], h₁.clearPend.clearCur, List.prefix_rfl,
          fun _ => ⟨trivial, rfl⟩⟩
      · rw [hcur]
        exact ⟨[.clearPend], h₁.clearPend, by simp [Staged.Slots.writes], fun hc => absurd hc hres⟩

end

/-! ## Calls on other groups -/

/-- A call leaves the records of a group alone. -/
def LeavesGroup (gid : Bytes β) {α : Type} (x : QsM β α) : Prop :=
  ∀ st k, (x st).2.recs k gid = st.recs k gid

section

variable {gid g : Bytes β}

omit [Octet β] [DecidableEq β] in
/-- Commands that leave a group compose. -/
theorem LeavesGroup.bind {α τ : Type} {x : QsM β α} {f : α → QsM β τ} (hx : LeavesGroup gid x)
    (hf : ∀ a, LeavesGroup gid (f a)) : LeavesGroup gid (x >>= f) := by
  intro st k
  rw [Cmd.bind_apply]
  have hst := hx st k
  rcases h : x st with ⟨_ | a, st'⟩
  · rw [h] at hst
    exact hst
  · rw [h] at hst
    exact (hf a st' k).trans hst

omit [Octet β] [DecidableEq β] in
/-- A failure leaves every group. -/
theorem LeavesGroup.fail {α : Type} (e : GyErr) : LeavesGroup gid (Cmd.fail e : QsM β α) :=
  fun _ _ => rfl

omit [Octet β] [DecidableEq β] in
/-- A callback with an effect on other groups leaves this one. -/
theorem LeavesGroup.callback {α : Type} {effect : QsRecords β → QsRecords β}
    {result : QsRecords β → Except GyErr α} (h : ∀ recs k, effect recs k gid = recs k gid) :
    LeavesGroup gid (callback effect result) := by
  intro st k
  obtain ⟨rest, -, hcb | ⟨f, recs, -, rfl | rfl, hcb⟩⟩ := callback_cases effect result st
  · rw [hcb]
    exact h _ _
  · rw [hcb]
    exact h _ _
  · rw [hcb]

omit [Octet β] in
/-- Removing a record of another group leaves this one. -/
theorem LeavesGroup.removeCb (kind : QRecKind) (hne : g ≠ gid) :
    LeavesGroup gid (removeCb kind g) :=
  LeavesGroup.callback fun recs _ => recs.set_other [] fun hc => hne hc.2.symm

/-- Storing a record of another group leaves this one. -/
theorem LeavesGroup.storeKeyed (kind : QRecKind) (payload : Bytes β) (hne : g ≠ gid) :
    LeavesGroup gid (storeKeyed kind g payload) :=
  LeavesGroup.callback fun recs _ => recs.set_other _ fun hc => hne hc.2.symm

omit [DecidableEq β] in
/-- Loads leave every group. -/
theorem LeavesGroup.loadKeyed (kind : QRecKind) (i : Bytes β) (n : Nat) :
    LeavesGroup gid (loadKeyed kind i n) := by
  refine LeavesGroup.bind (LeavesGroup.callback fun _ _ => rfl) fun blob => ?_
  intro st k
  split
  · rfl
  · split
    · rfl
    · split <;> rfl

/-- Storing the key of another group leaves this one. -/
theorem LeavesGroup.groupKeyStore (gk : Bytes β) (hne : g ≠ gid) :
    LeavesGroup gid (gyQspgsGroupKeyStore desc g gk) := by
  unfold gyQspgsGroupKeyStore
  split
  · exact LeavesGroup.fail _
  · exact LeavesGroup.storeKeyed _ _ hne

/-- An envelope that is not well formed is refused, and a well-formed one stores its key. -/
theorem install_run (env : Bytes β) (st : QsStore β) :
    (KeyCall.install env : KeyCall desc).run st =
      match (envelope env : Option (Bytes β × GroupKey desc)) with
      | some (g, gk) => gyQspgsGroupKeyStore desc g gk.1 st
      | none =>
        (.error (if env.length ≠ qspgsObjHdrLen + qspgsGidLen + gyQspgsMasterKeyLen desc then .arg
          else .verify), st) := by
  have hrun : (KeyCall.install env : KeyCall desc).run st =
      (gyCustodianQsgroupInstallGroupKey desc env >>= fun _ => pure ()) st := rfl
  rw [hrun, gyCustodianQsgroupInstallGroupKey]
  by_cases hlen : env.length = qspgsObjHdrLen + qspgsGidLen + gyQspgsMasterKeyLen desc
  · rw [if_neg (not_not.2 hlen)]
    by_cases hhdr : byteAt env 0 = QObj.groupKey.byte.toNat ∧
        byteAt env 1 = qspgsWireVersion.toNat ∧ byteAt env 2 = desc.suiteId.toNat
    · rw [if_neg (by simp [hhdr.1, hhdr.2.1, hhdr.2.2]), envelope, dif_pos ⟨hlen, hhdr⟩,
        Cmd.bind_bind_apply, Cmd.bind_apply]
      dsimp only
      rcases gyQspgsGroupKeyStore desc _ _ st with ⟨_ | _, st'⟩ <;> rfl
    · rw [if_pos (by tauto), envelope, dif_neg fun hc => hhdr hc.2]
      dsimp only
      rw [if_neg (not_not.2 hlen)]
      rfl
  · rw [if_pos hlen, envelope, dif_neg fun hc => hlen hc.1]
    dsimp only
    rw [if_pos hlen]
    rfl

/-- A call that is not on a group leaves its records alone. -/
theorem KeyCall.leavesGroup {c : KeyCall desc} (h : c.on gid = none) : LeavesGroup gid c.run := by
  have hother : ∀ {g : Bytes β} {a : Staged.Call (GroupKey desc)},
      (if g = gid then some a else none) = none → g ≠ gid := by
    intro g a hif hg
    rw [if_pos hg] at hif
    cases hif
  cases c with
  | create g gk => exact LeavesGroup.groupKeyStore gk.1 (hother h)
  | join g gk => exact LeavesGroup.groupKeyStore gk.1 (hother h)
  | install env =>
    intro st k
    rw [install_run]
    cases henv : (envelope env : Option (Bytes β × GroupKey desc)) with
    | none => rfl
    | some p =>
      obtain ⟨g, gk⟩ := p
      simp only [KeyCall.on, henv] at h
      exact LeavesGroup.groupKeyStore gk.1 (hother h) st k
  | stage g gk =>
    show LeavesGroup gid (gyQspgsGroupKeyStage desc g gk.1)
    unfold gyQspgsGroupKeyStage
    split
    · exact LeavesGroup.fail _
    · refine LeavesGroup.bind
        (fun st k => LeavesGroup.loadKeyed .groupKeyPending g _ st k) fun rc => ?_
      split
      · exact LeavesGroup.fail _
      · exact LeavesGroup.storeKeyed _ _ (hother h)
      · exact LeavesGroup.fail _
  | commit g =>
    show LeavesGroup gid (gyQspgsGroupKeyCommit desc g)
    unfold gyQspgsGroupKeyCommit
    split
    · exact LeavesGroup.fail _
    · exact (LeavesGroup.loadKeyed _ _ _).bind fun _ => (LeavesGroup.storeKeyed _ _ (hother h)).bind
        fun _ => LeavesGroup.removeCb _ (hother h)
  | rollback g => exact LeavesGroup.removeCb _ (hother h)
  | delete g =>
    exact (LeavesGroup.removeCb _ (hother h)).bind fun _ => (LeavesGroup.removeCb _ (hother h)).bind
      fun _ => LeavesGroup.removeCb _ (hother h)

end

/-- What a call does to the records of a group. -/
theorem KeyCall.run_writes (hlen : gyQspgsMasterKeyLen desc ≠ 0) {gid : Bytes β}
    {s : Staged.Slots (GroupKey desc)} {st : QsStore β} (h : KeySlots st.recs gid s)
    (hf : Orderly st.faults) (c : KeyCall desc) : KeyWrites gid s (c.on gid) (c.run st) := by
  cases hon : c.on gid with
  | none => exact ⟨[], h.congr (KeyCall.leavesGroup hon st), rfl⟩
  | some a =>
    have hself : ∀ {g : Bytes β} {b : Staged.Call (GroupKey desc)},
        (if g = gid then some b else none) = some a → g = gid ∧ b = a := by
      intro g b hif
      by_cases hg : g = gid
      · rw [if_pos hg] at hif
        exact ⟨hg, Option.some.inj hif⟩
      · rw [if_neg hg] at hif
        cases hif
    cases c with
    | create g gk =>
      obtain ⟨rfl, rfl⟩ := hself hon
      exact groupKeyStore_writes hlen h gk
    | join g gk =>
      obtain ⟨rfl, rfl⟩ := hself hon
      exact groupKeyStore_writes hlen h gk
    | install env =>
      rw [install_run]
      cases henv : (envelope env : Option (Bytes β × GroupKey desc)) with
      | none => simp [KeyCall.on, henv] at hon
      | some p =>
        obtain ⟨g, gk⟩ := p
        simp only [KeyCall.on, henv] at hon
        obtain ⟨rfl, rfl⟩ := hself hon
        exact groupKeyStore_writes hlen h gk
    | stage g gk =>
      obtain ⟨rfl, rfl⟩ := hself hon
      exact groupKeyStage_writes hlen h hf gk
    | commit g =>
      obtain ⟨rfl, rfl⟩ := hself hon
      exact groupKeyCommit_writes hlen h
    | rollback g =>
      obtain ⟨rfl, rfl⟩ := hself hon
      exact groupKeyRollback_writes h
    | delete g =>
      obtain ⟨rfl, rfl⟩ := hself hon
      exact groupDeleteStored_writes h

/-- Only a delete drops the keys of a group. -/
theorem KeyCall.eq_delete {c : KeyCall desc} {gid : Bytes β} (h : c.on gid = some .drop) :
    c = .delete gid := by
  cases c with
  | install env =>
    simp only [KeyCall.on] at h
    split at h
    · split at h <;> cases h
    · cases h
  | delete g =>
    simp only [KeyCall.on] at h
    split at h
    · rename_i hg
      rw [hg]
    · cases h
  | _ =>
    simp only [KeyCall.on] at h
    split at h <;> cases h

omit [DecidableEq β] in
/-- A load reads the staged record before the current one. -/
theorem loadedKey_eq (hlen : gyQspgsMasterKeyLen desc ≠ 0) {recs : QsRecords β} {gid : Bytes β}
    {s : Staged.Slots (GroupKey desc)} (h : KeySlots recs gid s) :
    loadedKey desc recs gid = (s.pend <|> s.cur).elim (.error .notFound) fun gk => .ok gk.1 := by
  -- no callback fails, so both loads read their records
  have hload : ∀ {kind : QRecKind} {o : Option (GroupKey desc)}, recs kind gid = keyBlob o →
      loadKeyed kind gid (gyQspgsMasterKeyLen desc) ⟨recs, []⟩ =
        (o.elim (.error .notFound) fun gk => .ok gk.1, ⟨recs, []⟩) := by
    intro kind o hrec
    obtain ⟨rest, hrest, hl | ⟨f, hmem, -⟩⟩ := loadKeyed_keyBlob kind gid o ⟨recs, []⟩ hrec
    · rw [hl, List.subset_nil.1 hrest]
    · cases hmem
  rw [loadedKey, gyQspgsGroupKeyLoad, if_neg hlen,
    if_neg (Nat.not_lt.2 (gyQspgsMasterKeyLen_le desc)), Cmd.attempt_bind_apply, hload h.pend]
  cases hpend : s.pend with
  | none =>
    dsimp only [Option.elim]
    rw [hload h.cur]
    rfl
  | some gk => rfl

omit [Octet β] in
/-- A removal whose callback does not fail succeeds. -/
theorem removeCb_ok (kind : QRecKind) (i : Bytes β) {st : QsStore β}
    (h : ∀ f, some f ∉ st.faults) :
    ∃ recs rest, removeCb kind i st = (.ok (), ⟨recs, rest⟩) ∧ ∀ f, some f ∉ rest := by
  obtain ⟨rest, hrest, hcb | ⟨f, -, hmem, -⟩⟩ := callback_cases
    (fun recs : QsRecords β => recs.set kind i []) (fun _ => (.ok () : Except GyErr Unit)) st
  · exact ⟨_, rest, hcb, fun f hf => h f (hrest hf)⟩
  · exact absurd hmem (h f)

omit [Octet β] in
/-- A delete none of whose callbacks fails succeeds. -/
theorem groupDeleteStored_ok {gid : Bytes β} {st : QsStore β} (h : ∀ f, some f ∉ st.faults) :
    (gyQspgsGroupDeleteStored gid st).1 = .ok () := by
  obtain ⟨recs₁, rest₁, h₁, hf₁⟩ := removeCb_ok .joinLink gid h
  obtain ⟨recs₂, rest₂, h₂, hf₂⟩ := removeCb_ok .groupKeyPending gid
    (show ∀ f, some f ∉ (QsStore.mk recs₁ rest₁).faults from hf₁)
  obtain ⟨recs₃, rest₃, h₃, -⟩ := removeCb_ok .groupKey gid
    (show ∀ f, some f ∉ (QsStore.mk recs₂ rest₂).faults from hf₂)
  rw [gyQspgsGroupDeleteStored, Cmd.bind_apply_of_ok h₁, Cmd.bind_apply_of_ok h₂, h₃]

/-! ## Runs -/

/-- Before step `i`, a commit of the staged key was cut short: some earlier commit changed the
current record, and a key has been staged ever since. -/
def CutCommit (gid : Bytes β) (steps : List (KeyStep desc)) (i : Nat) : Prop :=
  ∃ j, ∃ hj : j < steps.length, j < i ∧ (steps[j].call.on gid) = some .commit ∧
    recsAfter (steps.take (j + 1)) .groupKey gid ≠ recsAfter (steps.take j) .groupKey gid ∧
    ∀ m, j < m → m ≤ i → recsAfter (steps.take m) .groupKeyPending gid ≠ []

/-- Step `i` of a run is careful with the key of a group: no callback reports a failure as an absent
record, no key is stored over a staged one, and a staged key whose commit was cut short is neither
rolled back nor deleted halfway. -/
structure Careful (gid : Bytes β) (steps : List (KeyStep desc)) (i : Nat) (hi : i < steps.length) :
    Prop where
  orderly : Orderly steps[i].faults
  put : ∀ gk, steps[i].call.on gid = some (.put gk) →
    recsAfter (steps.take i) .groupKeyPending gid = []
  rollback : steps[i].call.on gid = some .rollback → ¬CutCommit gid steps i
  delete : steps[i].call.on gid = some .drop → CutCommit gid steps i →
    ∀ f, some f ∉ steps[i].faults

/-- The result of step `i`. -/
def resultAt (steps : List (KeyStep desc)) (i : Nat) (hi : i < steps.length) : Except GyErr Unit :=
  (steps[i].exec (recsAfter (steps.take i))).1

/-- The records after one more step. -/
theorem recsAfter_succ (steps : List (KeyStep desc)) (i : Nat) (hi : i < steps.length) :
    recsAfter (steps.take (i + 1)) = (steps[i].exec (recsAfter (steps.take i))).2 := by
  rw [recsAfter, recsAfter, List.take_succ_eq_append_getElem hi, List.foldl_append]
  rfl

/-- A cell steps as a call on it does, and stays as it is in a call on another group. -/
def CellStep (gid : Bytes β) (p : KeyStep desc) (r : Except GyErr Unit)
    (c c' : Staged.Cell (GroupKey desc)) : Prop :=
  match p.call.on gid with
  | none => c' = c
  | some a => c.Step a (r = .ok ()) c'

/-- The records after `i` steps hold a cell. -/
def HoldsCell (gid : Bytes β) (steps : List (KeyStep desc)) (i : Nat)
    (c : Staged.Cell (GroupKey desc)) : Prop :=
  ∃ s, KeySlots (recsAfter (steps.take i)) gid s ∧ Staged.Repr (CutCommit gid steps i) s c

section

variable {gid : Bytes β} {steps : List (KeyStep desc)}

/-- Before the first step the cell is empty. -/
theorem holdsCell_zero : HoldsCell gid steps 0 .empty :=
  ⟨⟨none, none⟩, ⟨rfl, rfl⟩, rfl, .inl rfl⟩

/-- A commit that was cut short stays so as long as a key is staged. -/
theorem CutCommit.succ {i : Nat} (h : CutCommit gid steps i)
    (hpend : recsAfter (steps.take (i + 1)) .groupKeyPending gid ≠ []) :
    CutCommit gid steps (i + 1) := by
  obtain ⟨j, hj, hlt, hon, hcur, hstaged⟩ := h
  refine ⟨j, hj, by omega, hon, hcur, fun m hm hle => ?_⟩
  rcases Nat.lt_or_eq_of_le hle with hlt' | rfl
  · exact hstaged m hm (by omega)
  · exact hpend

/-- A careful step on records that hold a cell is a step of the cell. -/
theorem HoldsCell.succ (hlen : gyQspgsMasterKeyLen desc ≠ 0) {i : Nat} (hi : i < steps.length)
    (hcare : Careful gid steps i hi) {c : Staged.Cell (GroupKey desc)}
    (h : HoldsCell gid steps i c) :
    ∃ c', CellStep gid steps[i] (resultAt steps i hi) c c' ∧ HoldsCell gid steps (i + 1) c' := by
  obtain ⟨s, hs, hrepr⟩ := h
  have hwrites := KeyCall.run_writes hlen
    (show KeySlots (QsStore.mk (recsAfter (steps.take i)) steps[i].faults).recs gid s from hs)
    hcare.orderly steps[i].call
  obtain ⟨ws, hs', hws⟩ := hwrites
  have hrecs := recsAfter_succ steps i hi
  have hs' : KeySlots (recsAfter (steps.take (i + 1))) gid (s.writeAll ws) := by
    rw [hrecs]
    exact hs'
  -- a key is staged after the step exactly when its record is there
  have hstaged : (s.writeAll ws).pend ≠ none →
      recsAfter (steps.take (i + 1)) .groupKeyPending gid ≠ [] := by
    intro hne hnil
    rw [hs'.pend, keyBlob_eq_nil_iff] at hnil
    exact hne hnil
  have hkeep : CutCommit gid steps i → (s.writeAll ws).pend ≠ none → CutCommit gid steps (i + 1) :=
    fun hcut hne => hcut.succ (hstaged hne)
  cases hon : steps[i].call.on gid with
  | none =>
    rw [hon] at hws
    obtain rfl : ws = [] := hws
    refine ⟨c, by rw [CellStep, hon], s, hs', hrepr.pend, hrepr.cur.imp_right ?_⟩
    exact fun ⟨hcut, hne, he⟩ => ⟨hkeep hcut hne, hne, he⟩
  | some a =>
    rw [hon] at hws
    obtain ⟨hpre, hok⟩ := hws
    obtain ⟨c', hstep, hrepr'⟩ := hrepr.step
      (show ws <+: s.writes a from hpre)
      (show decide (resultAt steps i hi = .ok ()) = true → a.Enabled s.pend ∧ ws = s.writes a from
        fun ht => hok (of_decide_eq_true ht))
      (fun gk ha => by
        have hnil := hcare.put gk (by rw [hon, ha])
        rw [hs.pend, keyBlob_eq_nil_iff] at hnil
        exact hnil)
      (fun ha => hcare.rollback (by rw [hon, ha]))
      (fun ha hcut => by
        have hdrop : steps[i].call.on gid = some .drop := by rw [hon, ha]
        apply decide_eq_true
        rw [resultAt, KeyStep.exec, KeyCall.eq_delete hdrop]
        exact groupDeleteStored_ok (hcare.delete hdrop hcut))
      hkeep
      (fun ha hcur hne => by
        refine ⟨i, hi, by omega, by rw [hon, ha], fun heq => hcur ?_, fun m hm hle => ?_⟩
        · exact keyBlob_injective (hs'.cur.symm.trans (heq.trans hs.cur))
        · obtain rfl : m = i + 1 := by omega
          exact hstaged hne)
    exact ⟨c', by rw [CellStep, hon]; exact hstep, _, hs', hrepr'⟩

/-- The records of a careful run hold a cell that steps with the calls. -/
theorem exists_cells (hlen : gyQspgsMasterKeyLen desc ≠ 0)
    (h : ∀ i (hi : i < steps.length), Careful gid steps i hi) :
    ∃ cell : ℕ → Staged.Cell (GroupKey desc), cell 0 = .empty ∧
      (∀ i (hi : i < steps.length),
        CellStep gid steps[i] (resultAt steps i hi) (cell i) (cell (i + 1))) ∧
      ∀ i, i ≤ steps.length → HoldsCell gid steps i (cell i) := by
  -- the cells up to step `n`, by induction on `n`
  have upto : ∀ n, n ≤ steps.length → ∃ cell : ℕ → Staged.Cell (GroupKey desc), cell 0 = .empty ∧
      (∀ i (hi : i < steps.length), i < n →
        CellStep gid steps[i] (resultAt steps i hi) (cell i) (cell (i + 1))) ∧
      ∀ i, i ≤ n → HoldsCell gid steps i (cell i) := by
    intro n
    induction n with
    | zero =>
      intro _
      refine ⟨fun _ => .empty, rfl, fun i hi hlt => absurd hlt (Nat.not_lt_zero i), fun i hi => ?_⟩
      obtain rfl := Nat.le_zero.1 hi
      exact holdsCell_zero
    | succ n ih =>
      intro hn
      obtain ⟨cell, hzero, hstep, hholds⟩ := ih (by omega)
      obtain ⟨c', hc', hh'⟩ := (hholds n le_rfl).succ hlen hn (h n hn)
      have hkeep : ∀ i, i ≤ n → Function.update cell (n + 1) c' i = cell i :=
        fun i hi => Function.update_of_ne (by omega) _ _
      refine ⟨Function.update cell (n + 1) c', (hkeep 0 (by omega)).trans hzero,
        fun i hi hlt => ?_, fun i hi => ?_⟩
      · rcases Nat.lt_or_eq_of_le (Nat.le_of_lt_succ hlt) with hlt' | rfl
        · rw [hkeep i (by omega), hkeep (i + 1) (by omega)]
          exact hstep i hi hlt'
        · rw [hkeep i le_rfl, Function.update_self]
          exact hc'
      · rcases Nat.lt_or_eq_of_le hi with hlt' | rfl
        · rw [hkeep i (by omega)]
          exact hholds i (by omega)
        · rw [Function.update_self]
          exact hh'
  obtain ⟨cell, hzero, hstep, hholds⟩ := upto steps.length le_rfl
  exact ⟨cell, hzero, fun i hi => hstep i hi hi, hholds⟩

/-- A load reads the cell. -/
theorem HoldsCell.loadedKey (hlen : gyQspgsMasterKeyLen desc ≠ 0) {i : Nat}
    {c : Staged.Cell (GroupKey desc)} (h : HoldsCell gid steps i c) :
    loadedKey desc (recsAfter (steps.take i)) gid =
      c.value.elim (.error .notFound) fun gk => .ok gk.1 := by
  obtain ⟨s, hs, hrepr⟩ := h
  rw [loadedKey_eq hlen hs, hrepr.read]

end

/-- The key of a group over any careful run behaves as a cell with a current and a staged value: a
load gives the staged key if there is one and else the current one, a commit makes the staged key
current, a rollback leaves the current one, which nothing but a stored key, a commit and a delete
ever changes, and a key that was stored is the one that is loaded. -/
theorem staged_key_semantics {desc : SuiteDesc β} (hsuite : gyQspgsMasterKeyLen desc ≠ 0)
    (steps : List (KeyStep desc)) (gid : Bytes β)
    (hcareful : ∀ i (hi : i < steps.length), Careful gid steps i hi) :
    ∃ cell : ℕ → Staged.Cell (GroupKey desc), cell 0 = .empty ∧
      (∀ i (hi : i < steps.length),
        CellStep gid steps[i] (resultAt steps i hi) (cell i) (cell (i + 1))) ∧
      (∀ i, i ≤ steps.length → loadedKey desc (recsAfter (steps.take i)) gid =
        (cell i).value.elim (.error .notFound) fun gk => .ok gk.1) ∧
      (∀ i (hi : i < steps.length) a, steps[i].call.on gid = some a → (∀ gk, a ≠ .put gk) →
        a ≠ .commit → a ≠ .drop → (cell (i + 1)).current = (cell i).current) ∧
      ∀ i (hi : i < steps.length) gk, steps[i].call.on gid = some (.put gk) →
        resultAt steps i hi = .ok () →
        loadedKey desc (recsAfter (steps.take (i + 1))) gid = .ok gk.1 := by
  obtain ⟨cell, hzero, hstep, hholds⟩ := exists_cells hsuite hcareful
  refine ⟨cell, hzero, hstep, fun i hi => (hholds i hi).loadedKey hsuite, ?_, ?_⟩
  · intro i hi a hon hput hcommit hdrop
    have hs := hstep i hi
    rw [CellStep, hon] at hs
    exact hs.current_eq hput hcommit hdrop
  · intro i hi gk hon hres
    have hs := hstep i hi
    rw [CellStep, hon, decide_eq_true hres] at hs
    rw [(hholds (i + 1) hi).loadedKey hsuite]
    -- nothing is staged, so the stored key is the one that is read
    obtain ⟨s, hslots, hrepr⟩ := hholds i hi.le
    have hnil := (hcareful i hi).put gk hon
    rw [hslots.pend, keyBlob_eq_nil_iff, hrepr.pend] at hnil
    rw [hs.eq_apply, Staged.Cell.value]
    simp [Staged.Cell.apply, hnil]

/-- A key of the smaller tier. -/
def someKey (b : UInt8) : GroupKey qsSuite :=
  ⟨List.replicate 32 (Octet.ofByte b), rfl⟩

/-- The identifier of some group. -/
def someGid : Bytes Sym := zeros qspgsGidLen

/-- An envelope for a key of that group. -/
def someEnvelope (b : UInt8) : Bytes Sym :=
  objPutHeader qsSuite .groupKey ++ someGid ++ (someKey b).1

/-- A group is created and a rotated key staged; its commit fails between its two writes, is
repeated, and a late rollback follows. -/
def rotationRun : List (KeyStep qsSuite) :=
  [⟨.create someGid (someKey 1), []⟩, ⟨.stage someGid (someKey 2), []⟩,
    ⟨.commit someGid, [none, none, some ⟨.crypto, false⟩]⟩, ⟨.commit someGid, []⟩,
    ⟨.rollback someGid, []⟩]

/-- On a rotation that is rolled back and then committed. -/
theorem staged_key_semantics_rotation :
    ∃ cell : ℕ → Staged.Cell (GroupKey qsSuite), cell 0 = .empty ∧
      (∀ i (hi : i < rotationRun.length),
        CellStep someGid rotationRun[i] (resultAt rotationRun i hi) (cell i) (cell (i + 1))) ∧
      (∀ i, i ≤ rotationRun.length → loadedKey qsSuite (recsAfter (rotationRun.take i)) someGid =
        (cell i).value.elim (.error .notFound) fun gk => .ok gk.1) ∧
      (∀ i (hi : i < rotationRun.length) a, rotationRun[i].call.on someGid = some a →
        (∀ gk, a ≠ .put gk) → a ≠ .commit → a ≠ .drop →
        (cell (i + 1)).current = (cell i).current) ∧
      ∀ i (hi : i < rotationRun.length) gk, rotationRun[i].call.on someGid = some (.put gk) →
        resultAt rotationRun i hi = .ok () →
        loadedKey qsSuite (recsAfter (rotationRun.take (i + 1))) someGid = .ok gk.1 := by
  refine staged_key_semantics (by decide) rotationRun someGid fun i hi => ?_
  have hnone : ∀ f : CallbackFault, some f ∉ ([] : List (Option CallbackFault)) :=
    fun _ => List.not_mem_nil
  match i, hi with
  | 0, _ =>
    exact ⟨fun f hf => absurd hf (hnone f), fun _ _ => rfl, (nomatch ·), (nomatch ·)⟩
  | 1, _ =>
    exact ⟨fun f hf => absurd hf (hnone f), fun _ => (nomatch ·), (nomatch ·), (nomatch ·)⟩
  | 2, _ =>
    refine ⟨fun f hf => ?_, fun _ => (nomatch ·), (nomatch ·), (nomatch ·)⟩
    have hf : some f ∈ [none, none, some (CallbackFault.mk .crypto false)] := hf
    obtain rfl : f = ⟨.crypto, false⟩ := by simpa using hf
    simp
  | 3, _ =>
    exact ⟨fun f hf => absurd hf (hnone f), fun _ => (nomatch ·), (nomatch ·), (nomatch ·)⟩
  | 4, _ =>
    refine ⟨fun f hf => absurd hf (hnone f), fun _ => (nomatch ·), fun _ hcut => ?_, (nomatch ·)⟩
    -- the second commit removed the staged record
    obtain ⟨j, _, hlt, -, -, hstaged⟩ := hcut
    exact hstaged 4 hlt le_rfl rfl

/-- A rotated key is staged and another key installed before it is resolved. -/
def stagedInstallRun : List (KeyStep qsSuite) :=
  [⟨.create someGid (someKey 1), []⟩, ⟨.stage someGid (someKey 2), []⟩,
    ⟨.install (someEnvelope 3), []⟩]

/-- The commit of a staged key fails between its two writes and is rolled back. -/
def cutRollbackRun : List (KeyStep qsSuite) :=
  [⟨.create someGid (someKey 1), []⟩, ⟨.stage someGid (someKey 2), []⟩,
    ⟨.commit someGid, [none, none, some ⟨.crypto, false⟩]⟩, ⟨.rollback someGid, []⟩]

/-- Every call of the first run succeeds and the key it installs is not the one that is loaded. The
rollback of the second succeeds and does not restore the key before staging. -/
theorem install_and_rollback_miss :
    ((∀ i (hi : i < stagedInstallRun.length), resultAt stagedInstallRun i hi = .ok ()) ∧
      loadedKey qsSuite (recsAfter stagedInstallRun) someGid ≠ .ok (someKey 3).1) ∧
    resultAt cutRollbackRun 3 (by decide) = .ok () ∧
      loadedKey qsSuite (recsAfter (cutRollbackRun.take 1)) someGid = .ok (someKey 1).1 ∧
      loadedKey qsSuite (recsAfter cutRollbackRun) someGid ≠ .ok (someKey 1).1 := by
  refine ⟨⟨?_, ?_⟩, ?_, ?_, ?_⟩
  · decide
  · decide
  · decide
  · rfl
  · decide

end Geryon
