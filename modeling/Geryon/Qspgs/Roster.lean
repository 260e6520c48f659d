import Geryon.Qspgs.Atomic
import Geryon.Qspgs.Emitted
import Geryon.Qspgs.GroupKey

/-!
# The roster of a version

A version of a group is a core together with the group key it is under. What an edit does to the
roster: who stays, and who is added.
-/

namespace Geryon

variable {β : Type} [Octet β] [DecidableEq β] [Sodium β] {desc : SuiteDesc β}

/-! ## The key a client operates under -/

section Keys

variable {gid : Bytes β} {st : QsStore β}

/-- What `load_keyed` makes of a blob it has loaded. -/
def checkBlob (expect : Nat) (blob : Bytes β) : Except GyErr (Bytes β) :=
  if blob.length = 0 then .error .notFound
  else if blob.length ≠ qspgsRecHdrLen + expect ∨ byteAt blob 0 ≠ qspgsRecVersion.toNat then
    .error .verify
  else if be16Get (blob.drop 1) ≠ qspgsFormatVersion then .error .unsupported
  else .ok (blob.drop qspgsRecHdrLen)

/-- What a record is read as when no callback fails. -/
def readBlob (expect : Nat) (blob : Bytes β) : Except GyErr (Bytes β) :=
  if qspgsRecBlobMax < blob.length then .error .toolong else checkBlob expect blob

omit [DecidableEq β] [Sodium β] in
theorem loadKeyed_apply (kind : QRecKind) (id : Bytes β) (n : Nat) (st : QsStore β) :
    loadKeyed kind id n st =
      (loadCb kind id qspgsRecBlobMax >>= fun blob => Cmd.lift (checkBlob n blob)) st := by
  unfold loadKeyed
  rw [Cmd.bind_apply, Cmd.bind_apply]
  rcases loadCb kind id qspgsRecBlobMax st with ⟨e | blob, st'⟩
  · rfl
  · dsimp only
    simp only [Cmd.ite_apply, Cmd.lift_apply]
    unfold checkBlob
    split_ifs <;> rfl

omit [DecidableEq β] [Sodium β] in
theorem loadKeyed_quiet (recs : QsRecords β) (kind : QRecKind) (id : Bytes β) (n : Nat) :
    loadKeyed kind id n ⟨recs, []⟩ = (readBlob n (recs kind id), ⟨recs, []⟩) := by
  rw [loadKeyed_apply, Cmd.bind_apply, loadCb, callback]
  dsimp only
  by_cases hlen : qspgsRecBlobMax < (recs kind id).length
  · rw [readBlob, if_pos hlen, if_pos hlen]
  · rw [readBlob, if_neg hlen, if_neg hlen]
    rfl

omit [DecidableEq β] [Sodium β] in
/-- A record that is read is read the same when no callback fails. -/
theorem loadKeyed_ok {kind : QRecKind} {id x : Bytes β} {n : Nat}
    (h : (loadKeyed kind id n st).1 = .ok x) : readBlob n (st.recs kind id) = .ok x := by
  obtain ⟨recs, faults⟩ := st
  rw [loadKeyed_apply] at h
  cases faults with
  | nil =>
    rw [← loadKeyed_apply, loadKeyed_quiet] at h
    exact h
  | cons f rest =>
    cases f with
    | some f => cases h
    | none =>
      rw [Cmd.bind_apply, loadCb, callback] at h
      dsimp only at h
      by_cases hlen : qspgsRecBlobMax < (recs kind id).length
      · rw [if_pos hlen] at h
        cases h
      · rw [if_neg hlen] at h
        rw [readBlob, if_neg hlen]
        exact h

omit [DecidableEq β] [Sodium β] in
/-- The key a client loads depends on the two key records alone. -/
theorem loadedKey_eq_read (recs : QsRecords β) :
    loadedKey desc recs gid =
      if gyQspgsMasterKeyLen desc = 0 then .error .arg
      else
        match readBlob (gyQspgsMasterKeyLen desc) (recs .groupKeyPending gid) with
        | .error .notFound => readBlob (gyQspgsMasterKeyLen desc) (recs .groupKey gid)
        | rc => rc := by
  have hmax := gyQspgsMasterKeyLen_le_max desc
  unfold loadedKey gyQspgsGroupKeyLoad
  rw [Cmd.ite_apply]
  split
  · rfl
  rw [Cmd.ite_apply, if_neg (not_lt.2 hmax), Cmd.attempt_bind_apply, loadKeyed_quiet]
  dsimp only
  cases readBlob (gyQspgsMasterKeyLen desc) (recs .groupKeyPending gid) with
  | ok gk => rfl
  | error e =>
    cases e with
    | notFound => exact congrArg Prod.fst (loadKeyed_quiet recs _ _ _)
    | _ => rfl

omit [DecidableEq β] [Sodium β] in
/-- The key that is loaded is the one the records hold. -/
theorem loadedKey_of_load (hb : Benign st.faults) {gk : Bytes β}
    (h : (gyQspgsGroupKeyLoad desc gid qspgsMasterKeyMax st).1 = .ok gk) :
    loadedKey desc st.recs gid = .ok gk := by
  rw [loadedKey_eq_read]
  unfold gyQspgsGroupKeyLoad at h
  rw [Cmd.ite_apply] at h
  split at h
  · cases h
  next hlen =>
  rw [if_neg hlen]
  rw [Cmd.ite_apply] at h
  split at h
  · cases h
  rw [Cmd.attempt_bind_apply] at h
  obtain ⟨hrecs, habsent⟩ := loadKeyed_cases .groupKeyPending gid (gyQspgsMasterKeyLen desc) hb
  cases hp : (loadKeyed .groupKeyPending gid (gyQspgsMasterKeyLen desc) st).1 with
  | ok x =>
    rw [hp] at h
    rw [loadKeyed_ok hp]
    exact h
  | error e =>
    rw [hp] at h habsent
    cases e with
    -- nothing is staged: the current key was loaded
    | notFound =>
      rw [habsent rfl]
      have hcur := loadKeyed_ok h
      rw [hrecs] at hcur
      exact hcur
    | _ => cases h

omit [DecidableEq β] [Sodium β] in
/-- A client whose key records are as they were operates under the same key. -/
theorem loadedKey_congr {recs recs' : QsRecords β} (hcur : recs' .groupKey gid = recs .groupKey gid)
    (hpend : recs' .groupKeyPending gid = recs .groupKeyPending gid) :
    loadedKey desc recs' gid = loadedKey desc recs gid := by
  rw [loadedKey_eq_read, loadedKey_eq_read, hcur, hpend]

omit [Sodium β] in
/-- After a key was staged a client operates under it. -/
theorem loadedKey_of_stage (hb : Benign st.faults) {gk : Bytes β} {st' : QsStore β}
    (hlen : gk.length = gyQspgsMasterKeyLen desc)
    (h : gyQspgsGroupKeyStage desc gid gk st = (.ok (), st')) :
    loadedKey desc st'.recs gid = .ok gk := by
  have h0 : gyQspgsMasterKeyLen desc ≠ 0 := by
    intro h0
    rw [gyQspgsGroupKeyStage, if_pos h0] at h
    cases h
  have hmax := gyQspgsMasterKeyLen_le_max desc
  have hcases := stage_cases desc gid gk hb
  rw [h] at hcases
  rcases hcases with ⟨⟨e, he⟩, -⟩ | ⟨-, -, hrecs⟩
  · cases he
  have hrec : st'.recs .groupKeyPending gid = putHdr ++ gk := by
    rw [hrecs]
    exact QsRecords.set_same _ _ _ _
  have hread : loadKeyed .groupKeyPending gid (gyQspgsMasterKeyLen desc) ⟨st'.recs, []⟩ =
      (.ok gk, ⟨st'.recs, []⟩) :=
    loadKeyed_of_record rfl hrec hlen (le_trans (Nat.add_le_add_left hmax _) (by decide))
  rw [loadKeyed_quiet] at hread
  rw [loadedKey_eq_read, if_neg h0, show readBlob _ _ = _ from congrArg Prod.fst hread]

end Keys

/-! ## Versions -/

/-- A version of a group: a core and the group key it is under. -/
structure GroupVersion (β : Type) where
  bundle : CoreBundle β
  gk : Bytes β

/-- The entries of a version, as a member sees them. -/
def GroupVersion.views (desc : SuiteDesc β) (v : GroupVersion β) :
    Except GyErr (List (MemberView β)) := do
  let core ← v.bundle.core desc
  let sub ← gyQspgsDeriveSubKey desc v.gk
  core.members.mapM' (gyQspgsMemberDecrypt desc core.aeadId sub.ek core.gid)

/-- The users on the lines of a version, in order. -/
def GroupVersion.roster (desc : SuiteDesc β) (v : GroupVersion β) : Except GyErr (List (Bytes β)) :=
  (v.views desc).map (List.map MemberView.uid)

/-- The group a version is of. -/
def GroupVersion.gid (desc : SuiteDesc β) (v : GroupVersion β) : Bytes β :=
  match v.bundle.core desc with
  | .ok core => core.gid
  | .error _ => []

/-- What a version is to a client that has opened it. -/
structure GroupVersion.Opens (desc : SuiteDesc β) (v : GroupVersion β) (core : QspgsCore β)
    (sub : SubKey β) : Prop where
  decode : v.bundle.core desc = .ok { core with lastVmin := 0 }
  subKey : gyQspgsDeriveSubKey desc v.gk = .ok sub

omit [DecidableEq β] [Sodium β] in
theorem GroupVersion.Opens.gid_eq {v : GroupVersion β} {core : QspgsCore β} {sub : SubKey β}
    (h : v.Opens desc core sub) : v.gid desc = core.gid := by
  rw [GroupVersion.gid, h.decode]

theorem GroupVersion.Opens.views_eq {v : GroupVersion β} {core : QspgsCore β} {sub : SubKey β}
    (h : v.Opens desc core sub) :
    v.views desc = core.members.mapM' (gyQspgsMemberDecrypt desc core.aeadId sub.ek core.gid) := by
  rw [GroupVersion.views, h.decode, Except.ok_bind, h.subKey]
  rfl

omit [DecidableEq β] [Sodium β] in
theorem GroupVersion.Opens.shaped {v : GroupVersion β} {core : QspgsCore β} {sub : SubKey β}
    (h : v.Opens desc core sub) : core.Shaped desc := by
  have hwf := (decodeCore_wf desc h.decode).1
  exact ⟨hwf.gid, hwf.format, hwf.saCt, hwf.joinCt, hwf.cuid, hwf.vkhash⟩

theorem GroupVersion.roster_of_views {v : GroupVersion β} {vs : List (MemberView β)}
    (h : v.views desc = .ok vs) : v.roster desc = .ok (vs.map MemberView.uid) := by
  rw [GroupVersion.roster, h]
  rfl

/-! ## The lines of a core -/

/-- The user on a line. -/
def lineUid (desc : SuiteDesc β) (core : QspgsCore β) (ek : Bytes β) (m : QspgsMember β) :
    Except GyErr (Bytes β) :=
  (gyQspgsMemberDecrypt desc core.aeadId ek core.gid m).map MemberView.uid

section Lines

variable {c : QsCustodian β} {v : GroupVersion β} {core : QspgsCore β} {sub : SubKey β}

theorem GroupVersion.Opens.roster_eq (h : v.Opens desc core sub) :
    v.roster desc = core.members.mapM' (lineUid desc core sub.ek) := by
  rw [GroupVersion.roster, h.views_eq, Except.mapM'_map]
  rfl

/-- A line that holds a tuple is the line of its user. -/
theorem Holds.lineUid {ek : Bytes β} {m : QspgsMember β} {t : MemberTuple β}
    (h : Holds desc core.aeadId ek core.gid m t) : lineUid desc core ek m = .ok t.uid := by
  rw [Geryon.lineUid, gyQspgsMemberDecrypt_eq_ok_iff.2 ⟨t, h, rfl⟩]
  rfl

/-- The admin bit does not matter for the user. -/
theorem lineUid_admn (ek : Bytes β) (m : QspgsMember β) (admn : Bool) :
    lineUid desc core ek { m with admn := admn } = lineUid desc core ek m := by
  unfold lineUid gyQspgsMemberDecrypt
  dsimp only
  split
  · rfl
  cases gyQspgsMemberCtOpen desc core.aeadId ek core.gid m.mct with
  | error e => rfl
  | ok t =>
    rw [Except.ok_bind, Except.ok_bind]
    cases gyQspgsCuidCommit desc t.uid t.rcOpen with
    | error e => rfl
    | ok cuid =>
      rw [Except.ok_bind, Except.ok_bind]
      split <;> rfl

/-- The roster of a core whose lines were built for these members. -/
theorem roster_of_built [KrMlDsa β] {accts : List (AcctRef β)} {vs : List (MemberView β)}
    {ps : List (QspgsMember β × Bytes β)} (h : v.Opens c.desc core sub)
    (hmem : core.members = ps.map Prod.fst)
    (hbuilt : List.Forall₂ (BuiltFor c core.aeadId sub core.gid accts) vs ps) :
    v.roster c.desc = .ok (vs.map MemberView.uid) := by
  rw [h.roster_eq, hmem, Except.mapM'_eq_ok_iff, List.forall₂_map_left_iff,
    List.forall₂_map_right_iff]
  refine hbuilt.flip.imp fun p mv hp => ?_
  obtain ⟨rc, hholds⟩ := hp.holds
  exact hholds.lineUid

/-- The user found in a member list has a line there. -/
theorem findMember_ok {ek uid : Bytes β} {k i : Nat} {ms : List (QspgsMember β)}
    {mv : MemberView β} (h : findMember desc core ek uid k ms = .ok (some (i, mv))) :
    k ≤ i ∧ ∃ m, ms[i - k]? = some m ∧ lineUid desc core ek m = .ok uid := by
  induction ms generalizing k with
  | nil => cases h
  | cons m ms ih =>
    obtain ⟨v₁, hv₁, h⟩ := Except.bind_eq_ok_iff.1 h
    split at h
    · next huid =>
      obtain ⟨rfl, rfl⟩ := Prod.mk.inj (Option.some.inj (Except.ok.inj h))
      refine ⟨le_rfl, m, by simp, ?_⟩
      rw [lineUid, hv₁, ← huid]
      rfl
    · obtain ⟨hk, m', hm', hdec⟩ := ih h
      refine ⟨by omega, m', ?_, hdec⟩
      rw [show i - k = (i - (k + 1)) + 1 by omega]
      exact hm'

end Lines

end Geryon
