import Geryon.Qspgs.Folding

/-!
# What an edit does to the roster

Who stays and who is added, edit by edit: the roster of the next version is that of the current one
without the users who are dropped, followed by those who are added.
-/

namespace Geryon

variable {β : Type} [Octet β] [DecidableEq β] [KrMlDsa β] [Sodium β]

/-! ## Opening and emitting -/

section Emit

variable {c : QsCustodian β} {v : GroupVersion β} {e : EditCtx β} {w w' : QsWorld β}

/-- A client that holds the key of a version opens it under that key. -/
theorem GroupVersion.Opens.of_editBegin (hb : w.Benign)
    (hkey : loadedKey c.desc w.store.recs (bundleGid c.desc v.bundle) = .ok v.gk)
    (h : editBegin c v.bundle w = (.ok e, w')) :
    v.Opens c.desc e.cur.core e.cur.sub ∧ e.cur.gk = v.gk := by
  obtain ⟨w₁, hcur⟩ := editBegin_ok h
  obtain ⟨hdec, hload, hsub, -⟩ := openCurrent_ok hcur
  have hgk : e.cur.gk = v.gk := by
    have hloaded := loadedKey_of_load hb hload
    rw [editBegin_gid h, hkey] at hloaded
    exact (Except.ok.inj hloaded).symm
  refine ⟨⟨?_, hgk ▸ hsub⟩, hgk⟩
  obtain ⟨core, hcore, hdec⟩ := Except.bind_eq_ok_iff.1 hdec
  obtain ⟨s, -, hdec⟩ := Except.bind_eq_ok_iff.1 hdec
  obtain ⟨hcore', -⟩ := Prod.mk.inj (Except.ok.inj hdec)
  have hzero := (decodeCore_wf c.desc hcore).2
  rw [CoreBundle.core, hcore, ← hcore', ← hzero]

omit [DecidableEq β] [Sodium β] in
/-- What an edit that keeps the group key emits. -/
theorem emitNext_opens {core : QspgsCore β} {caps : CoreCaps} {next : NextCore β}
    (hcore : core.Shaped c.desc) (hsub : gyQspgsDeriveSubKey c.desc e.cur.gk = .ok e.cur.sub)
    (h : emitNext c e core caps w = (.ok next, w')) :
    (⟨next.bundle, e.cur.gk⟩ : GroupVersion β).Opens c.desc { core with vmaj := core.vmaj + 1 }
      e.cur.sub := by
  obtain ⟨p, w₁, hemit, h⟩ := Cmd.bind_eq_ok_iff.1 h
  obtain rfl := Except.ok.inj (congrArg Prod.fst h)
  have hshaped : ({ core with vmaj := core.vmaj + 1, lastVmin := 0 } : QspgsCore β).Shaped c.desc :=
    ⟨hcore.gid, hcore.format, hcore.saCt, hcore.joinCt, hcore.cuid, hcore.vkhash⟩
  exact ⟨(emitEdited_ok hshaped hemit).1, hsub⟩

omit [DecidableEq β] [KrMlDsa β] [Sodium β] in
/-- A client whose key records are as they were operates under the same key. -/
theorem SameKeys.loadedKey {recs recs' : QsRecords β} (h : SameKeys recs recs')
    (desc : SuiteDesc β) (gid : Bytes β) : loadedKey desc recs' gid = loadedKey desc recs gid :=
  loadedKey_congr (h .groupKey gid rfl) (h .groupKeyPending gid rfl)

omit [DecidableEq β] [Sodium β] [KrMlDsa β] in
theorem length_of_loadKeyed {kind : QRecKind} {id x : Bytes β} {n : Nat} {st : QsStore β}
    (h : (loadKeyed kind id n st).1 = .ok x) : x.length = n := by
  have hread := loadKeyed_ok h
  unfold readBlob checkBlob at hread
  split_ifs at hread with hmax h0 hlen hfmt
  obtain rfl := Except.ok.inj hread
  rw [List.length_drop]
  omega

omit [DecidableEq β] [Sodium β] in
/-- A stored acquaintance has a user key of the width of the suite. -/
theorem length_acquaintance_uk {desc : SuiteDesc β} {uid : Bytes β} {a : Acquaintance β}
    {st : QsStore β} (h : (gyQspgsAcquaintanceLoad desc uid st).1 = .ok a) :
    a.uk.length = gyQspgsMasterKeyLen desc := by
  unfold gyQspgsAcquaintanceLoad at h
  rw [Cmd.ite_apply] at h
  split at h
  · cases h
  rw [Cmd.ite_apply] at h
  split at h
  · cases h
  obtain ⟨payload, st', hload, h⟩ := Cmd.bind_eq_ok_iff.1 (Prod.ext h rfl)
  have hlen := length_of_loadKeyed (congrArg Prod.fst hload)
  obtain rfl := Except.ok.inj (congrArg Prod.fst h)
  show (payload.drop _).length = _
  rw [List.length_drop]
  omega

end Emit

/-! ## Edits under the same key -/

/-- A version is followed by another of its group, with this roster. -/
structure GroupVersion.Follows (desc : SuiteDesc β) (v v' : GroupVersion β)
    (us : List (Bytes β)) : Prop where
  roster : v'.roster desc = .ok us
  gid : v'.gid desc = v.gid desc

/-- From a version, a call leads to versions with this roster: the core it emits, and the key under
which the client then operates. -/
def LeadsTo (c : QsCustodian β) (v : GroupVersion β) (w : QsWorld β) (x : QsC β (NextCore β))
    (us : List (Bytes β)) : Prop :=
  ∀ next w', x w = (.ok next, w') →
    ∃ gk, loadedKey c.desc w'.store.recs (bundleGid c.desc v.bundle) = .ok gk ∧
      v.Follows c.desc ⟨next.bundle, gk⟩ us

section Keep

variable {c : QsCustodian β} {v : GroupVersion β} {w : QsWorld β} {us : List (Bytes β)}

omit [KrMlDsa β] in
/-- An edit that leaves the key records alone leads to a core under the key of the version. -/
theorem LeadsTo.of_inert {x : QsC β (NextCore β)} (hx : Inert x) (hb : w.Benign)
    (hkey : loadedKey c.desc w.store.recs (bundleGid c.desc v.bundle) = .ok v.gk)
    (hroster : ∀ next w', x w = (.ok next, w') → v.Follows c.desc ⟨next.bundle, v.gk⟩ us) :
    LeadsTo c v w x us := by
  intro next w' h
  have hsame := (hx.of_apply h hb).2
  exact ⟨v.gk, (hsame.loadedKey c.desc _).trans hkey, hroster next w' h⟩

/-- An entry appended to a core appends its user to the roster. -/
theorem roster_append {e : EditCtx β} {m : QspgsMember β} {h : Bytes β} {uid uk rc : Bytes β}
    {pending : Bool} {caps : CoreCaps} {next : NextCore β} {w w' : QsWorld β}
    (hv : v.Opens c.desc e.cur.core e.cur.sub) (hgk : e.cur.gk = v.gk)
    (hroster : v.roster c.desc = .ok us)
    (hholds : Holds c.desc e.cur.core.aeadId e.cur.sub.ek e.cur.core.gid m ⟨pending, uid, rc, uk⟩)
    (hhash : h.length = c.desc.hashLen)
    (hrun : emitNext c e (e.cur.core.addEntry m h) caps w = (.ok next, w')) :
    v.Follows c.desc ⟨next.bundle, v.gk⟩ (us ++ [uid]) := by
  have hcore := hv.shaped
  have hshaped : (e.cur.core.addEntry m h).Shaped c.desc := by
    refine ⟨hcore.gid, hcore.format, hcore.saCt, hcore.joinCt, ?_, ?_⟩
    · intro m' hm'
      rcases List.mem_append.1 hm' with hm' | hm'
      · exact hcore.cuid m' hm'
      · rw [List.mem_singleton.1 hm']
        exact length_gyQspgsCuidCommit hholds.commits
    · intro h' hh'
      rcases List.mem_append.1 hh' with hh' | hh'
      · exact hcore.vkhash h' (List.mem_of_mem_take hh')
      · rw [List.mem_singleton.1 hh', hhash]
  have hopens := emitNext_opens hshaped (hgk ▸ hv.subKey) hrun
  rw [hgk] at hopens
  refine ⟨?_, hopens.gid_eq.trans hv.gid_eq.symm⟩
  rw [hv.roster_eq] at hroster
  have hone : [m].mapM' (lineUid c.desc e.cur.core e.cur.sub.ek) = .ok [uid] :=
    Except.mapM'_eq_ok_iff.2 (.cons hholds.lineUid .nil)
  rw [hopens.roster_eq]
  exact Except.mapM'_append hroster hone

/-- An admin adds a member. -/
theorem leadsTo_addMember (haead : AeadOpens β) {newUid : Bytes β} {caps : CoreCaps} (hb : w.Benign)
    (hkey : loadedKey c.desc w.store.recs (bundleGid c.desc v.bundle) = .ok v.gk)
    (hroster : v.roster c.desc = .ok us) :
    LeadsTo c v w (gyCustodianQsgroupAddMember c v.bundle newUid caps) (us ++ [newUid]) := by
  refine LeadsTo.of_inert (inert_addMember _ _ _) hb hkey fun next w' h => ?_
  obtain ⟨e, w₁, he, h⟩ := Cmd.bind_eq_ok_iff.1 h
  obtain ⟨hopens, hgk⟩ := GroupVersion.Opens.of_editBegin hb hkey he
  rw [Cmd.ite_apply] at h
  split at h
  · cases h
  rw [Cmd.ite_apply] at h
  split at h
  · cases h
  obtain ⟨a, ha, h⟩ := onStore_bind_eq_ok_iff.1 h
  obtain ⟨p, w₂, hp, h⟩ := Cmd.bind_eq_ok_iff.1 h
  obtain ⟨⟨rc, hholds⟩, -, hhash, -⟩ := memberBuildForm_ok haead (length_acquaintance_uk ha) hp
  exact roster_append hopens hgk hroster hholds (length_gyQspgsAttributeHash hhash) h

/-- An admin invites a user. -/
theorem leadsTo_invite (haead : AeadOpens β) {inviteeUid : Bytes β} {acct : Option (AcctRef β)}
    {cap : Nat} {caps : CoreCaps} (hb : w.Benign)
    (hkey : loadedKey c.desc w.store.recs (bundleGid c.desc v.bundle) = .ok v.gk)
    (hroster : v.roster c.desc = .ok us) :
    LeadsTo c v w (do return (← gyCustodianQsgroupInvite c v.bundle inviteeUid acct cap caps).1)
      (us ++ [inviteeUid]) := by
  refine LeadsTo.of_inert ((inert_invite _ _ _ _ _).bind fun _ => Cmd.keeps_pure _) hb hkey
    fun next w' h => ?_
  obtain ⟨p, w₀, hrun, h⟩ := Cmd.bind_eq_ok_iff.1 h
  obtain rfl := Except.ok.inj (congrArg Prod.fst h)
  unfold gyCustodianQsgroupInvite at hrun
  rw [Cmd.ite_apply] at hrun
  split at hrun
  · cases hrun
  obtain ⟨e, w₁, he, hrun⟩ := Cmd.bind_eq_ok_iff.1 hrun
  obtain ⟨hopens, hgk⟩ := GroupVersion.Opens.of_editBegin hb hkey he
  dsimp only at hrun
  rw [Cmd.ite_apply] at hrun
  split at hrun
  · cases hrun
  rw [Cmd.ite_apply] at hrun
  split at hrun
  · cases hrun
  obtain ⟨vkb, w₂, -, hrun⟩ := Cmd.bind_eq_ok_iff.1 hrun
  obtain ⟨gkPrime, w₃, hprime, hrun⟩ := Cmd.bind_eq_ok_iff.1 hrun
  obtain ⟨q, w₄, hq, hrun⟩ := Cmd.bind_eq_ok_iff.1 hrun
  obtain ⟨next, w₅, hnext, hrun⟩ := Cmd.bind_eq_ok_iff.1 hrun
  obtain rfl := Except.ok.inj (congrArg Prod.fst hrun)
  obtain ⟨⟨rc, hholds⟩, -, hhash, -⟩ := memberBuildForm_ok haead (length_groupKeyGen hprime) hq
  exact roster_append hopens hgk hroster hholds (length_gyQspgsAttributeHash hhash) hnext

/-- Changes to the sealed field, the slot and one line that leave its user do not change the
roster. -/
theorem roster_modify {e : EditCtx β} {i : Nat} {f : QspgsMember β → QspgsMember β}
    {sa slot : Bytes β} {caps : CoreCaps} {next : NextCore β} {w w' : QsWorld β}
    (hv : v.Opens c.desc e.cur.core e.cur.sub) (hgk : e.cur.gk = v.gk)
    (hroster : v.roster c.desc = .ok us) (hsa : sa.length < 2 ^ 32) (hslot : slot.length < 2 ^ 32)
    (hcuid : ∀ m ∈ e.cur.core.members, (f m).cuid.length = c.desc.hashLen)
    (hline : ∀ m, e.cur.core.members[i]? = some m →
      lineUid c.desc e.cur.core e.cur.sub.ek (f m) = lineUid c.desc e.cur.core e.cur.sub.ek m)
    (hrun : emitNext c e { e.cur.core with
      saCt := sa
      joinCt := slot
      members := e.cur.core.members.modify i f } caps w = (.ok next, w')) :
    v.Follows c.desc ⟨next.bundle, v.gk⟩ us := by
  have hcore := hv.shaped
  have hshaped : ({ e.cur.core with
      saCt := sa
      joinCt := slot
      members := e.cur.core.members.modify i f } : QspgsCore β).Shaped c.desc := by
    refine ⟨hcore.gid, hcore.format, hsa, hslot, ?_, hcore.vkhash⟩
    intro m hm
    obtain ⟨k, hk, rfl⟩ := List.getElem_of_mem hm
    dsimp only at hk ⊢
    rw [List.length_modify] at hk
    rw [List.getElem_modify]
    split
    · exact hcuid _ (List.getElem_mem hk)
    · exact hcore.cuid _ (List.getElem_mem hk)
  have hopens := emitNext_opens hshaped (hgk ▸ hv.subKey) hrun
  rw [hgk] at hopens
  refine ⟨?_, hopens.gid_eq.trans hv.gid_eq.symm⟩
  rw [hv.roster_eq] at hroster
  rw [hopens.roster_eq]
  exact (Except.mapM'_modify hline).trans hroster

/-- An admin changes the admin bit of a user. -/
theorem leadsTo_setAdmin {targetUid : Bytes β} {admin : Bool} {caps : CoreCaps} (hb : w.Benign)
    (hkey : loadedKey c.desc w.store.recs (bundleGid c.desc v.bundle) = .ok v.gk)
    (hroster : v.roster c.desc = .ok us) :
    LeadsTo c v w (gyCustodianQsgroupSetAdmin c v.bundle targetUid admin caps) us := by
  refine LeadsTo.of_inert (inert_setAdmin _ _ _ _) hb hkey fun next w' h => ?_
  obtain ⟨e, w₁, he, h⟩ := Cmd.bind_eq_ok_iff.1 h
  obtain ⟨hopens, hgk⟩ := GroupVersion.Opens.of_editBegin hb hkey he
  have hcore := hopens.shaped
  rw [Cmd.ite_apply] at h
  split at h
  · cases h
  obtain ⟨found, -, h⟩ := Cmd.lift_bind_eq_ok_iff.1 h
  split at h
  · cases h
  next i mv =>
  have hline : ∀ m : QspgsMember β,
      lineUid c.desc e.cur.core e.cur.sub.ek { m with admn := admin } =
      lineUid c.desc e.cur.core e.cur.sub.ek m :=
    fun m => lineUid_admn e.cur.sub.ek m admin
  exact roster_modify (f := fun m => { m with admn := admin }) hopens hgk hroster hcore.saCt
    hcore.joinCt hcore.cuid (fun m _ => hline m) h

omit [DecidableEq β] [KrMlDsa β] in
/-- A sealed tuple opens to the tuple. -/
theorem memberCtSealForm_opens (haead : AeadOpens β) {desc : SuiteDesc β} {aeadId : UInt8}
    {ek gid ct : Bytes β} {t : MemberTuple β} {cap : Nat} {w w' : QsWorld β}
    (hrc : t.rcOpen.length = qspgsRcLen) (hkey : t.key.length = gyQspgsMasterKeyLen desc)
    (h : memberCtSealForm desc aeadId ek gid t cap w = (.ok ct, w')) :
    gyQspgsMemberCtOpen desc aeadId ek gid ct = .ok t := by
  unfold memberCtSealForm at h
  rw [Cmd.ite_apply] at h
  split at h
  · cases h
  next hlen =>
  rw [Cmd.ite_apply] at h
  split at h
  · cases h
  next huid =>
  exact gyQspgsMemberCtOpen_of_seals hlen ⟨not_not.1 huid, hrc, hkey⟩
    (gyQspgsFieldSeal_ok haead h).1

/-- An admin settles a pending entry. -/
theorem leadsTo_completeInvitation (haead : AeadOpens β) {inviteeUid inviteeUk : Bytes β}
    {caps : CoreCaps} (hb : w.Benign)
    (hkey : loadedKey c.desc w.store.recs (bundleGid c.desc v.bundle) = .ok v.gk)
    (hroster : v.roster c.desc = .ok us) :
    LeadsTo c v w (gyCustodianQsgroupCompleteInvitation c v.bundle inviteeUid inviteeUk caps)
      us := by
  refine LeadsTo.of_inert (inert_completeInvitation _ _ _ _) hb hkey fun next w' h => ?_
  unfold gyCustodianQsgroupCompleteInvitation at h
  rw [Cmd.ite_apply] at h
  split at h
  · cases h
  next huid =>
  obtain ⟨e, w₁, he, h⟩ := Cmd.bind_eq_ok_iff.1 h
  obtain ⟨hopens, hgk⟩ := GroupVersion.Opens.of_editBegin hb hkey he
  have hcore := hopens.shaped
  rw [Cmd.ite_apply] at h
  split at h
  · cases h
  next huk =>
  obtain ⟨found, hfound, h⟩ := Cmd.lift_bind_eq_ok_iff.1 h
  split at h
  · cases h
  next i mv =>
  rw [Cmd.ite_apply] at h
  split at h
  · cases h
  obtain ⟨rc, w₂, hrc, h⟩ := Cmd.bind_eq_ok_iff.1 h
  obtain ⟨mct, w₃, hmct, h⟩ := Cmd.bind_eq_ok_iff.1 h
  obtain ⟨cuid, hcuid, h⟩ := Cmd.lift_bind_eq_ok_iff.1 h
  obtain ⟨-, m, hm, huidm⟩ := findMember_ok hfound
  have hholds : ∀ admn : Bool, Holds c.desc e.cur.core.aeadId e.cur.sub.ek e.cur.core.gid
      ⟨cuid, admn, mct⟩ ⟨false, inviteeUid, rc, inviteeUk⟩ :=
    fun admn => ⟨memberCtSealForm_opens haead (gyRandomBytes_ok hrc).1 (not_not.1 huk) hmct, hcuid⟩
  refine roster_modify hopens hgk hroster hcore.saCt hcore.joinCt
    (fun _ _ => length_gyQspgsCuidCommit hcuid) ?_ h
  intro m' hm'
  obtain rfl := Option.some.inj (hm.symm.trans hm')
  rw [huidm, (hholds m.admn).lineUid]

/-- Changes to the sealed field and the slot do not change the roster. -/
theorem roster_fields {e : EditCtx β} {sa slot : Bytes β} {caps : CoreCaps} {next : NextCore β}
    {w w' : QsWorld β} (hv : v.Opens c.desc e.cur.core e.cur.sub) (hgk : e.cur.gk = v.gk)
    (hroster : v.roster c.desc = .ok us) (hsa : sa.length < 2 ^ 32) (hslot : slot.length < 2 ^ 32)
    (hrun : emitNext c e { e.cur.core with saCt := sa, joinCt := slot } caps w = (.ok next, w')) :
    v.Follows c.desc ⟨next.bundle, v.gk⟩ us := by
  have hid : ({ e.cur.core with saCt := sa, joinCt := slot } : QspgsCore β) =
      { e.cur.core with
        saCt := sa
        joinCt := slot
        members := e.cur.core.members.modify 0 id } := by
    rw [List.modify_id]
  rw [hid] at hrun
  exact roster_modify hv hgk hroster hsa hslot hv.shaped.cuid (fun _ _ => rfl) hrun

theorem gyQspgsFieldOverhead_le (aeadId : UInt8) : gyQspgsFieldOverhead aeadId ≤ 64 := by
  unfold gyQspgsFieldOverhead
  split
  next h =>
    have hid : aeadId = 1 ∨ aeadId = 3 := by simpa [gyQspgsGroupAeadOk] using h
    rcases hid with rfl | rfl <;> decide
  next => decide

/-- An admin changes the settings. -/
theorem leadsTo_changeSettings (haead : AeadOpens β) {flags : UInt8} {attr : Bytes β}
    {caps : CoreCaps} (hb : w.Benign)
    (hkey : loadedKey c.desc w.store.recs (bundleGid c.desc v.bundle) = .ok v.gk)
    (hroster : v.roster c.desc = .ok us) :
    LeadsTo c v w (gyCustodianQsgroupChangeSettings c v.bundle flags attr caps) us := by
  refine LeadsTo.of_inert (inert_changeSettings _ _ _ _) hb hkey fun next w' h => ?_
  unfold gyCustodianQsgroupChangeSettings at h
  rw [Cmd.ite_apply] at h
  split at h
  · cases h
  next hattr =>
  obtain ⟨e, w₁, he, h⟩ := Cmd.bind_eq_ok_iff.1 h
  obtain ⟨hopens, hgk⟩ := GroupVersion.Opens.of_editBegin hb hkey he
  obtain ⟨pt, hpt, h⟩ := Cmd.lift_bind_eq_ok_iff.1 h
  obtain ⟨sa, w₂, hsa, h⟩ := Cmd.bind_eq_ok_iff.1 h
  have hlen : sa.length < 2 ^ 32 := by
    have hle := length_gyQspgsFieldSeal_le haead hsa
    have hover := gyQspgsFieldOverhead_le e.cur.core.aeadId
    rw [settingsPlaintext, if_neg hattr] at hpt
    obtain rfl := Except.ok.inj hpt
    rw [qsgroupAttrMax] at hattr
    rw [List.length_cons] at hle
    omega
  exact roster_fields hopens hgk hroster hlen hopens.shaped.joinCt h

omit [KrMlDsa β] [Sodium β] in
/-- The secret of a join link is no group key. -/
theorem loadedKey_joinLink (desc : SuiteDesc β) (id gid blob : Bytes β) (st : QsStore β) :
    loadedKey desc (callback (fun recs => recs.set .joinLink id blob)
      (fun _ => (.ok () : Except GyErr Unit)) st).2.recs gid = loadedKey desc st.recs gid := by
  have hset : loadedKey desc (st.recs.set .joinLink id blob) gid = loadedKey desc st.recs gid :=
    loadedKey_congr (QsRecords.set_other _ _ (by simp)) (QsRecords.set_other _ _ (by simp))
  obtain ⟨rest, -, h | ⟨f, recs, -, rfl | rfl, h⟩⟩ := callback_cases
    (fun recs : QsRecords β => recs.set .joinLink id blob)
    (fun _ => (.ok () : Except GyErr Unit)) st
  · rw [h]
    exact hset
  · rw [h]
    exact hset
  · rw [h]

/-- An admin opens or closes the join link. -/
theorem leadsTo_toggleJoinLink (haead : AeadOpens β) {caps : CoreCaps} (hb : w.Benign)
    (hkey : loadedKey c.desc w.store.recs (bundleGid c.desc v.bundle) = .ok v.gk)
    (hroster : v.roster c.desc = .ok us) :
    LeadsTo c v w (do return (← gyCustodianQsgroupToggleJoinLink c v.bundle caps).1) us := by
  intro next w' h
  obtain ⟨p, w₀, hrun, h⟩ := Cmd.bind_eq_ok_iff.1 h
  obtain ⟨hp, rfl⟩ := Prod.ext_iff.1 h
  obtain rfl := Except.ok.inj hp
  obtain ⟨e, w₁, he, hrun⟩ := Cmd.bind_eq_ok_iff.1 hrun
  obtain ⟨hopens, hgk⟩ := GroupVersion.Opens.of_editBegin hb hkey he
  obtain ⟨hb₁, hs₁⟩ := (inert_editBegin _).of_apply he hb
  rw [Cmd.ite_apply] at hrun
  split at hrun
  -- the link is opened
  · obtain ⟨jls, w₂, hjls, hrun⟩ := Cmd.bind_eq_ok_iff.1 hrun
    obtain ⟨fet, -, hrun⟩ := Cmd.lift_bind_eq_ok_iff.1 hrun
    obtain ⟨slot, w₃, hslot, hrun⟩ := Cmd.bind_eq_ok_iff.1 hrun
    obtain ⟨next, w₄, hnext, hrun⟩ := Cmd.bind_eq_ok_iff.1 hrun
    obtain ⟨_, hstore, hrun⟩ := onStore_bind_eq_ok_iff.1 hrun
    obtain ⟨hp, rfl⟩ := Prod.ext_iff.1 hrun
    obtain rfl := Except.ok.inj hp
    obtain ⟨hb₂, hs₂⟩ := (inert_gyRandomBytes _).of_apply hjls hb₁
    obtain ⟨hb₃, hs₃⟩ := (inert_joinlinkSeal _ _ _ _ _ _).of_apply hslot hb₂
    obtain ⟨hb₄, hs₄⟩ := (inert_emitNext _ _ _).of_apply hnext hb₃
    have hlen := (gyQspgsJoinlinkSeal_ok haead hslot).2
    refine ⟨v.gk, ?_, roster_fields hopens hgk hroster hopens.shaped.saCt (by omega) hnext⟩
    refine (loadedKey_joinLink _ _ _ _ _).trans (Eq.trans ?_ hkey)
    exact (((hs₁.trans hs₂).trans hs₃).trans hs₄).loadedKey _ _
  -- the link is closed
  · obtain ⟨next, w₂, hnext, hrun⟩ := Cmd.bind_eq_ok_iff.1 hrun
    obtain ⟨_, hstore, hrun⟩ := onStore_bind_eq_ok_iff.1 hrun
    obtain ⟨hp, rfl⟩ := Prod.ext_iff.1 hrun
    obtain rfl := Except.ok.inj hp
    obtain ⟨hb₂, hs₂⟩ := (inert_emitNext _ _ _).of_apply hnext hb₁
    refine ⟨v.gk, ?_, roster_fields hopens hgk hroster hopens.shaped.saCt (by simp) hnext⟩
    refine (loadedKey_joinLink _ _ _ _ _).trans (Eq.trans ?_ hkey)
    exact (hs₁.trans hs₂).loadedKey _ _

end Keep

/-! ## Edits under a fresh key -/

section Rotate

variable {c : QsCustodian β} {v : GroupVersion β} {w : QsWorld β} {us : List (Bytes β)}

/-- A rebuild leads to the roster without the user to remove, under the key it stages. -/
theorem roster_rebuild (haead : AeadOpens β) {e : EditCtx β} {remove : Option (Bytes β)}
    {caps : CoreCaps} {next : NextCore β} {w' : QsWorld β} (hb : w.Benign)
    (hv : v.Opens c.desc e.cur.core e.cur.sub) (hroster : v.roster c.desc = .ok us)
    (hrun : rebuildAndEmit c e remove caps w = (.ok next, w')) :
    ∃ gk, loadedKey c.desc w'.store.recs e.cur.core.gid = .ok gk ∧
      v.Follows c.desc ⟨next.bundle, gk⟩ (us.filter fun u => decide (remove ≠ some u)) := by
  obtain ⟨core, gk, sub, vs, pt, hopens, hgid, hkey, hvs, -, hkeyed, -⟩ :=
    rebuildAndEmit_ok haead hv.shaped hb hrun
  obtain ⟨ps, hmem, -, hbuilt⟩ := hkeyed.entries
  refine ⟨gk, hkey, ?_, hopens.gid_eq.trans (hgid.trans hv.gid_eq.symm)⟩
  have hus : us = vs.map MemberView.uid :=
    (Except.ok.inj ((GroupVersion.roster_of_views (hv.views_eq.trans hvs)).symm.trans hroster)).symm
  rw [roster_of_built hopens hmem hbuilt, hus, List.filter_map]
  rfl

/-- An admin removes a user. -/
theorem leadsTo_removeMember (haead : AeadOpens β) {targetUid : Bytes β} {caps : CoreCaps}
    (hb : w.Benign)
    (hkey : loadedKey c.desc w.store.recs (bundleGid c.desc v.bundle) = .ok v.gk)
    (hroster : v.roster c.desc = .ok us) :
    LeadsTo c v w (gyCustodianQsgroupRemoveMember c v.bundle targetUid caps)
      (us.filter fun u => decide (targetUid ≠ u)) := by
  intro next w' h
  obtain ⟨e, w₁, he, h⟩ := Cmd.bind_eq_ok_iff.1 h
  obtain ⟨hopens, -⟩ := GroupVersion.Opens.of_editBegin hb hkey he
  have hb₁ := ((inert_editBegin _).of_apply he hb).1
  rw [Cmd.ite_apply] at h
  split at h
  · cases h
  rw [Cmd.ite_apply] at h
  split at h
  · cases h
  obtain ⟨gk, hgk, hnext⟩ := roster_rebuild haead hb₁ hopens hroster h
  rw [editBegin_gid he] at hgk
  simp only [ne_eq, Option.some.injEq] at hnext
  exact ⟨gk, hgk, hnext⟩

/-- An admin rotates the group key. -/
theorem leadsTo_rotateGroupKey (haead : AeadOpens β) {caps : CoreCaps} (hb : w.Benign)
    (hkey : loadedKey c.desc w.store.recs (bundleGid c.desc v.bundle) = .ok v.gk)
    (hroster : v.roster c.desc = .ok us) :
    LeadsTo c v w (gyCustodianQsgroupRotateGroupKey c v.bundle caps) us := by
  intro next w' h
  obtain ⟨e, w₁, he, h⟩ := Cmd.bind_eq_ok_iff.1 h
  obtain ⟨hopens, -⟩ := GroupVersion.Opens.of_editBegin hb hkey he
  have hb₁ := ((inert_editBegin _).of_apply he hb).1
  obtain ⟨gk, hgk, hnext⟩ := roster_rebuild haead hb₁ hopens hroster h
  rw [editBegin_gid he] at hgk
  simp only [ne_eq, reduceCtorEq, not_false_eq_true, decide_true, List.filter_true] at hnext
  exact ⟨gk, hgk, hnext⟩

/-- A revocation rebuilds the opened core without the user, and stages the key it is under. -/
theorem revokeInvitation_rebuilds [JoinKem β] {curQueue targetUid : Bytes β} {queueCap : Nat}
    {caps : CoreCaps} {p : NextCore β × Bytes β} {w' : QsWorld β} (hb : w.Benign)
    (hkey : loadedKey c.desc w.store.recs (bundleGid c.desc v.bundle) = .ok v.gk)
    (h : gyCustodianQsgroupRevokeInvitation c v.bundle curQueue targetUid queueCap caps w =
      (.ok p, w')) :
    ∃ e w₁, editBegin c v.bundle w = (.ok e, w₁) ∧ v.Opens c.desc e.cur.core e.cur.sub ∧
      w₁.Benign ∧ rebuildAndEmit c e (some targetUid) caps w₁ = (.ok p.1, w') := by
  unfold gyCustodianQsgroupRevokeInvitation at h
  rw [Cmd.ite_apply] at h
  split at h
  · cases h
  obtain ⟨e, w₁, he, h⟩ := Cmd.bind_eq_ok_iff.1 h
  obtain ⟨hopens, -⟩ := GroupVersion.Opens.of_editBegin hb hkey he
  have hb₁ := ((inert_editBegin _).of_apply he hb).1
  obtain ⟨found, -, h⟩ := Cmd.lift_bind_eq_ok_iff.1 h
  split at h
  · cases h
  obtain ⟨next, w₂, hnext, h⟩ := Cmd.bind_eq_ok_iff.1 h
  -- draining the queue touches no record
  obtain ⟨q, -, h⟩ := Cmd.lift_bind_eq_ok_iff.1 h
  obtain ⟨ents, -, h⟩ := Cmd.lift_bind_eq_ok_iff.1 h
  obtain ⟨out, -, h⟩ := Cmd.lift_bind_eq_ok_iff.1 h
  obtain ⟨hp, rfl⟩ := Prod.ext_iff.1 h
  obtain rfl := Except.ok.inj hp
  exact ⟨e, w₁, he, hopens, hb₁, hnext⟩

/-- An admin revokes an invitation: every line of the user goes, settled ones too. -/
theorem leadsTo_revokeInvitation [JoinKem β] (haead : AeadOpens β) {curQueue targetUid : Bytes β}
    {queueCap : Nat} {caps : CoreCaps} (hb : w.Benign)
    (hkey : loadedKey c.desc w.store.recs (bundleGid c.desc v.bundle) = .ok v.gk)
    (hroster : v.roster c.desc = .ok us) :
    LeadsTo c v w (do return (← gyCustodianQsgroupRevokeInvitation c v.bundle curQueue targetUid
      queueCap caps).1) (us.filter fun u => decide (targetUid ≠ u)) := by
  intro next w' h
  obtain ⟨p, w₀, hrun, h⟩ := Cmd.bind_eq_ok_iff.1 h
  obtain ⟨hp, rfl⟩ := Prod.ext_iff.1 h
  obtain rfl := Except.ok.inj hp
  obtain ⟨e, w₁, he, hopens, hb₁, hnext⟩ := revokeInvitation_rebuilds hb hkey hrun
  obtain ⟨gk, hgk, hroster'⟩ := roster_rebuild haead hb₁ hopens hroster hnext
  rw [editBegin_gid he] at hgk
  simp only [ne_eq, Option.some.injEq] at hroster'
  exact ⟨gk, hgk, hroster'⟩

/-! ## Consolidation -/

/-- The places a consolidation of an appendix strikes on a version, and the users it enters: those
of lines of the appendix. -/
def ConsSettles (desc : SuiteDesc β) (v : GroupVersion β) (apx : Bytes β) (struck : List Nat)
    (entered : List (Bytes β)) : Prop :=
  ∃ core sub a lines ts, v.Opens desc core sub ∧ apxOfCore desc core apx = .ok a ∧
    lines.Sublist a.lines ∧ newcomers desc core sub.ek lines = .ok ts ∧
    struck = leavers core.members.length lines ∧ entered = ts.map MemberTuple.uid

omit [Octet β] [DecidableEq β] [KrMlDsa β] [Sodium β] in
/-- The users of the survivors of a working set are the live names of its register. -/
theorem uids_of_survivors (work : List (ConsWork β)) :
    ((work.filter fun x => !x.removed).map ConsWork.view).map MemberView.uid =
      Register.live (work.map ConsWork.entry) := by
  rw [Register.live, List.filter_map, List.map_map, List.map_map]
  rfl

/-- What a consolidation emits under a key is under that key, with the folded roster. -/
theorem follows_consEmit (haead : AeadOpens β) {e : EditCtx β} {f : Folded β} {gk : Bytes β}
    {sub : SubKey β} {accts : List (AcctRef β)} {caps : CoreCaps} {next : NextCore β}
    {w' : QsWorld β} (hv : v.Opens c.desc e.cur.core e.cur.sub)
    (hsub : gyQspgsDeriveSubKey c.desc gk = .ok sub) (hwork : ∀ x ∈ f.work, x.Sound c accts)
    (hlive : Register.live (f.work.map ConsWork.entry) = us)
    (h : consEmit c e f gk sub caps w = (.ok next, w')) :
    v.Follows c.desc ⟨next.bundle, gk⟩ us := by
  obtain ⟨core, hopens, hgid, hkeyed, -⟩ := consEmit_ok haead hv.shaped hsub hwork h
  obtain ⟨ps, hmem, -, hbuilt⟩ := hkeyed.entries
  refine ⟨?_, hopens.gid_eq.trans (hgid.trans hv.gid_eq.symm)⟩
  rw [roster_of_built hopens hmem hbuilt, uids_of_survivors, hlive]

/-- A consolidation folds the opened core and emits it under the key the client then operates with:
a fresh one that is staged if a member leaves, and else the same. -/
theorem consolidate_emits [JoinKem β] {inp : ConsInput β} {queueCap : Option Nat}
    {caps : CoreCaps} {next : NextCore β} {q : Bytes β} {w' : QsWorld β} (hb : w.Benign)
    (hkey : loadedKey c.desc w.store.recs (bundleGid c.desc v.bundle) = .ok v.gk)
    (h : gyCustodianQsgroupConsolidate c v.bundle inp queueCap caps w = (.ok (next, q), w')) :
    ∃ e f gk sub w₁ w₂ w₃ w₄, editBegin c v.bundle w = (.ok e, w₁) ∧
      v.Opens c.desc e.cur.core e.cur.sub ∧ consFold c e.cur inp w₁ = (.ok f, w₂) ∧
      gyQspgsDeriveSubKey c.desc gk = .ok sub ∧
      consEmit c e f gk sub caps w₃ = (.ok next, w₄) ∧
      loadedKey c.desc w'.store.recs (bundleGid c.desc v.bundle) = .ok gk ∧
      (f.leave = false → gk = v.gk) := by
  obtain ⟨e, w₁, he, h⟩ := Cmd.bind_eq_ok_iff.1 h
  obtain ⟨hopens, hgk⟩ := GroupVersion.Opens.of_editBegin hb hkey he
  obtain ⟨hb₁, hs₁⟩ := (inert_editBegin _).of_apply he hb
  obtain ⟨f, w₂, hf, h⟩ := Cmd.bind_eq_ok_iff.1 h
  obtain ⟨hb₂, hs₂⟩ := (inert_consFold _ _).of_apply hf hb₁
  rw [Cmd.ite_apply] at h
  split at h
  -- a member leaves: the fresh key is staged
  · next hleave =>
    obtain ⟨gk, w₃, hnew, h⟩ := Cmd.bind_eq_ok_iff.1 h
    obtain ⟨sub, hder, h⟩ := Cmd.lift_bind_eq_ok_iff.1 h
    obtain ⟨next, w₄, hnext, h⟩ := Cmd.bind_eq_ok_iff.1 h
    obtain ⟨_, hstage, h⟩ := onStore_bind_eq_ok_iff.1 h
    obtain ⟨q, -, h⟩ := Cmd.lift_bind_eq_ok_iff.1 h
    obtain ⟨hp, rfl⟩ := Prod.ext_iff.1 h
    obtain ⟨rfl, rfl⟩ := Prod.mk.inj (Except.ok.inj hp)
    have hgen : Inert (β := β) (gyQspgsGroupKeyGen c.desc) := inert_groupKeyGen
    have hb₃ := (hgen.of_apply hnew hb₂).1
    have hb₄ := ((inert_consEmit _ _ _ _ _).of_apply hnext hb₃).1
    have hloaded := loadedKey_of_stage hb₄ (length_groupKeyGen hnew) (Prod.ext hstage rfl)
    rw [← editBegin_gid he]
    exact ⟨e, f, gk, sub, w₁, w₂, w₃, w₄, he, hopens, hf, hder, hnext, hloaded,
      fun hno => absurd (hleave.symm.trans hno) (by decide)⟩
  -- nobody leaves: the key stays
  · obtain ⟨next, w₃, hnext, h⟩ := Cmd.bind_eq_ok_iff.1 h
    obtain ⟨q, -, h⟩ := Cmd.lift_bind_eq_ok_iff.1 h
    obtain ⟨hp, rfl⟩ := Prod.ext_iff.1 h
    obtain ⟨rfl, rfl⟩ := Prod.mk.inj (Except.ok.inj hp)
    have hs₃ := ((inert_consEmit _ _ _ _ _).of_apply hnext hb₂).2
    rw [hgk] at hnext
    refine ⟨e, f, v.gk, e.cur.sub, w₁, w₂, w₂, w₃, he, hopens, hf, hopens.subKey, hnext, ?_,
      fun _ => rfl⟩
    exact (((hs₁.trans hs₂).trans hs₃).loadedKey _ _).trans hkey

/-- An admin consolidates. -/
theorem consolidate_follows [JoinKem β] (haead : AeadOpens β) {inp : ConsInput β}
    {queueCap : Option Nat} {caps : CoreCaps} {next : NextCore β} {q : Bytes β} {w' : QsWorld β}
    (hb : w.Benign)
    (hkey : loadedKey c.desc w.store.recs (bundleGid c.desc v.bundle) = .ok v.gk)
    (hroster : v.roster c.desc = .ok us)
    (h : gyCustodianQsgroupConsolidate c v.bundle inp queueCap caps w = (.ok (next, q), w')) :
    ∃ gk struck entered,
      loadedKey c.desc w'.store.recs (bundleGid c.desc v.bundle) = .ok gk ∧
      ConsSettles c.desc v inp.apx struck entered ∧
      v.Follows c.desc ⟨next.bundle, gk⟩ (Register.staying us struck ++ entered) := by
  obtain ⟨e, f, gk, sub, w₁, w₂, w₃, w₄, -, hopens, hf, hder, hnext, hloaded, -⟩ :=
    consolidate_emits hb hkey h
  obtain ⟨a, lines, vs, ts, hapx, hsub, hvs, hts, hlive, -, hsound⟩ := consFold_register hf
  have hus : us = vs.map MemberView.uid :=
    (Except.ok.inj ((GroupVersion.roster_of_views
      (hopens.views_eq.trans hvs)).symm.trans hroster)).symm
  rw [← hus] at hlive
  exact ⟨gk, _, _, hloaded, ⟨_, _, a, lines, ts, hopens, hapx, hsub, hts, rfl, rfl⟩,
    follows_consEmit haead hopens hder hsound hlive hnext⟩

end Rotate

end Geryon
