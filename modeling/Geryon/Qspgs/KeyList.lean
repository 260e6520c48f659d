import Geryon.Lib.Logged
import Geryon.Qspgs.Consolidate
import Geryon.Qspgs.Sample

/-!
# Reads of the key list

The calls of a client with their reads of the key list of the core they open. A core has as many
hashes as its key list says, and as many members as its member list says. A fetch compares the two;
an edit does not, and two edits take over a hash for every member.

## Main definitions

- `KeyReads.*`: the functions of the client that read the list, with their reads.
- `ClientCall`: the calls.

## Main results

- `ClientCall.logged_erasesTo`: without its reads, a call is the function of the client.
- `keyReads_inBounds_iff`: when a call stays within the list.
-/

namespace Geryon

/-- A read of `count` hashes from `first` on, of a list that holds `held`. -/
structure KeyRead where
  held : Nat
  first : Nat
  count : Nat
  deriving DecidableEq

/-- The read does not leave the list. -/
def KeyRead.InBounds (r : KeyRead) : Prop := r.first + r.count ≤ r.held

/-- A read of the list of a core. -/
def keyRead {β : Type} (core : QspgsCore β) (first count : Nat) : KeyRead :=
  ⟨core.vkhash.length, first, count⟩

/-- Calls of a client that log their reads. -/
abbrev QsRead (β : Type) := Cmd GyErr (QsWorld β × List KeyRead)

variable {β : Type} [Octet β] [DecidableEq β] [KrMlDsa β]

namespace KeyReads

/-- The comparison with a stored hash reads it once the key it is compared with is hashed. -/
def hashCheck (desc : SuiteDesc β) (core : QspgsCore β) (i : Nat) (rrs vkb uid : Bytes β) :
    QsRead β Unit :=
  match gyQspgsAttributeHash desc rrs vkb uid with
  | .ok _ => Cmd.note (keyRead core i 1)
  | .error _ => return ()

/-- `gy_qspgs_core_resolve_verify`: the index is compared with the length of the list. -/
def gyQspgsCoreResolveVerify (desc : SuiteDesc β) (core : QspgsCore β) (signerIndex : UInt32)
    (rrs signerVkb signerUid sig : Bytes β) (cap : Nat) : QsRead β Unit :=
  if core.vkhash.length ≤ signerIndex.toNat then Cmd.fail .arg
  else do
    hashCheck desc core signerIndex.toNat rrs signerVkb signerUid
    Cmd.quiet (Cmd.lift
      (Geryon.gyQspgsCoreResolveVerify desc core signerIndex rrs signerVkb signerUid sig cap))

variable [Sodium β]

/-- One pass of `check_vklst_recompute`. -/
def checkVkEntry (c : QsCustodian β) (core : QspgsCore β) (sub : SubKey β)
    (accts : List (AcctRef β)) (p : (QspgsMember β × Bytes β) × Nat) : QsRead β Unit := do
  let v ← Cmd.quiet (Cmd.lift (gyQspgsMemberDecrypt c.desc core.aeadId sub.ek core.gid p.1.1))
  let vkb ← Cmd.quiet (resolveMemberVkb c v.uid accts)
  let h ← Cmd.quiet (Cmd.lift (gyQspgsAttributeHash c.desc sub.rrs vkb v.uid))
  Cmd.note (keyRead core p.2 1)
  if h ≠ p.1.2 then Cmd.fail .verify else return ()

/-- `check_vklst_recompute`. -/
def checkVklstRecompute (c : QsCustodian β) (core : QspgsCore β) (sub : SubKey β)
    (accts : List (AcctRef β)) : QsRead β Unit :=
  if core.vkhash.length ≠ core.members.length then Cmd.fail .verify
  else (core.members.zip core.vkhash).zipIdx.forM (checkVkEntry c core sub accts)

/-- `check_apx_line`: the author's index is compared with the length of the member list. -/
def checkApxLine (c : QsCustodian β) (core : QspgsCore β) (sub : SubKey β) (vmaj vmin : UInt32)
    (line : ApxLine β) (set : Settings) (accts : List (AcctRef β)) (cap : Nat) : QsRead β Bool :=
  if line.lineType = .join then
    Cmd.quiet (Geryon.checkApxLine c core sub vmaj vmin line set accts cap)
  else
    match core.members[line.authorIndex.toNat]? with
    -- an index past the members reads nothing
    | none => return false
    | some m => do
      let av ← Cmd.quiet (Cmd.lift (gyQspgsMemberDecrypt c.desc core.aeadId sub.ek core.gid m))
      match ← Cmd.quiet (Cmd.attempt (resolveMemberVkb c av.uid accts)) with
      | .error e => if e = .notFound then return false else Cmd.fail e
      | .ok vkb => do
        -- the first read of the author's hash; the verification takes it as an argument again
        hashCheck c.desc core line.authorIndex.toNat sub.rrs vkb av.uid
        Cmd.quiet (unlessFails .verify
          (Cmd.lift (gyQspgsApxLineResolveVerify c.desc core.gid vmaj vmin line sub.rrs vkb av.uid
            (some (core.vkhash[line.authorIndex.toNat]?.getD [])) cap))
          fun _ => checkApxPayload c core sub line set)

/-! ## Fetch -/

/-- The first half of `gy_custodian_qsgroup_fetch`. -/
def fetchOpen (c : QsCustodian β) (ans : GroupAnswer β) (prior : PriorView β)
    (accts : List (AcctRef β)) (caps : FetchCaps) : QsRead β (OpenedCore β) := do
  Cmd.quiet (Cmd.lift (qsgroupGuard c))
  let core ← Cmd.quiet (Cmd.lift (decodeCore c.desc ans.hdr ans.memberList ans.vkLst))
  let apx ← Cmd.quiet (Cmd.lift (apxOfCore c.desc core ans.apx))
  if (caps.reports.any fun cap => cap < apx.lines.length) then Cmd.fail .toolong
  else do
    let s ← Cmd.quiet (Cmd.lift (gyQspgsCoreSigDecode c.desc ans.sig))
    let core := { core with lastVmin := s.lastVmin }
    match core.members[s.signerIndex.toNat]? with
    | none => Cmd.fail .arg
    | some m => do
      let gk ← Cmd.quiet (onStore (gyQspgsGroupKeyLoad c.desc core.gid qspgsMasterKeyMax))
      let sub ← Cmd.quiet (Cmd.lift (gyQspgsDeriveSubKey c.desc gk))
      let v ← Cmd.quiet (Cmd.lift (gyQspgsMemberDecrypt c.desc core.aeadId sub.ek core.gid m))
      let vkb ← Cmd.quiet (resolveMemberVkb c v.uid accts)
      -- reads the signer's hash, which the header and the list do not bound yet
      gyQspgsCoreResolveVerify c.desc core s.signerIndex sub.rrs vkb v.uid s.sig
        (ans.hdr.length + ans.memberList.length + ans.vkLst.length + 64)
      Cmd.quiet (Cmd.lift (lineageCheck core v.uid m.admn prior))
      -- reads every hash in turn
      checkVklstRecompute c core sub accts
      return ⟨core, apx, s, v, sub⟩

/-- Check one line of a fetch. -/
def fetchCheckLine (c : QsCustodian β) (o : OpenedCore β) (set : Settings)
    (accts : List (AcctRef β)) (cap : Nat) (line : ApxLine β) :
    QsRead β (ApxLine β × ApxReport) := do
  let valid ← checkApxLine c o.core o.sub o.apx.vmaj o.apx.vmin line set accts cap
  let held := valid && decide (line.lineType = .join) && set.adm
  return (line, ⟨line.lineType, line.authorIndex, valid && !held, held⟩)

/-- The second half of `gy_custodian_qsgroup_fetch`. -/
def fetchFold [JoinKem β] (c : QsCustodian β) (ans : GroupAnswer β) (accts : List (AcctRef β))
    (caps : FetchCaps) (o : OpenedCore β) : QsRead β (FetchResult β) := do
  let views ← Cmd.quiet (Cmd.lift
    (o.core.members.mapM' (gyQspgsMemberDecrypt c.desc o.core.aeadId o.sub.ek o.core.gid)))
  let hdrpt ← Cmd.quiet (Cmd.lift (openHeaderField c.desc o.core o.sub.ek))
  -- one read for each line that has an author
  let checked ← o.apx.lines.mapM'
    (fetchCheckLine c o (Settings.ofByte (byteAt hdrpt 0)) accts (ans.apx.length + 128))
  let valid := (checked.filter fun p => p.2.valid).map Prod.fst
  let (work, attr) ← Cmd.quiet (Cmd.lift
    (fetchApply c.desc o.core o.sub.ek ans.inviteQueue accts views (hdrpt.drop 1) valid))
  Cmd.quiet (work.forM (fetchUserKey c accts))
  let out := (work.filter fun w => !w.removed).map FetchWork.view
  if caps.max < out.length then Cmd.fail .toolong
  else if (caps.attr.any fun cap => cap < attr.length) then Cmd.fail .toolong
  else return ⟨out, checked.map Prod.snd, attr⟩

/-- `gy_custodian_qsgroup_fetch`. -/
def gyCustodianQsgroupFetch [JoinKem β] (c : QsCustodian β) (ans : GroupAnswer β)
    (prior : PriorView β) (accts : List (AcctRef β)) (caps : FetchCaps) :
    QsRead β (OpenedCore β × FetchResult β) := do
  let o ← fetchOpen c ans prior accts caps
  let r ← fetchFold c ans accts caps o
  return (o, r)

/-! ## Edits -/

/-- `open_current`. -/
def openCurrent (c : QsCustodian β) (cur : CoreBundle β) : QsRead β (CurrentCore β) := do
  let core ← Cmd.quiet (Cmd.lift (decodeCore c.desc cur.hdr cur.memberList cur.vkLst))
  let s ← Cmd.quiet (Cmd.lift (gyQspgsCoreSigDecode c.desc cur.sig))
  let core := { core with lastVmin := s.lastVmin }
  match core.members[s.signerIndex.toNat]? with
  | none => Cmd.fail .arg
  | some m => do
    let gk ← Cmd.quiet (onStore (gyQspgsGroupKeyLoad c.desc core.gid qspgsMasterKeyMax))
    let sub ← Cmd.quiet (Cmd.lift (gyQspgsDeriveSubKey c.desc gk))
    let v ← Cmd.quiet (Cmd.lift (gyQspgsMemberDecrypt c.desc core.aeadId sub.ek core.gid m))
    let vkb ← Cmd.quiet (resolveMemberVkb c v.uid [])
    -- the only read of the editing calls: the signer's hash
    gyQspgsCoreResolveVerify c.desc core s.signerIndex sub.rrs vkb v.uid s.sig
      (cur.hdr.length + cur.memberList.length + cur.vkLst.length + 64)
    return ⟨core, s, gk, sub⟩

/-- `edit_begin`. -/
def editBegin (c : QsCustodian β) (cur : CoreBundle β) : QsRead β (EditCtx β) := do
  Cmd.quiet (Cmd.lift (qsgroupGuard c))
  let cc ← openCurrent c cur
  let selfIdx ← Cmd.quiet (Cmd.lift (selfAdminIndex c cc.core cc.sub.ek))
  let (skb, vkb) ← Cmd.quiet (onStore (gyQspgsBaseKeyLoad c.desc c.selfUid))
  return ⟨cc, selfIdx, skb, vkb⟩

/-- `gy_custodian_qsgroup_add_member`: a hash for every member is taken over. -/
def gyCustodianQsgroupAddMember (c : QsCustodian β) (cur : CoreBundle β) (newUid : Bytes β)
    (caps : CoreCaps) : QsRead β (NextCore β) := do
  let e ← editBegin c cur
  let core := e.cur.core
  if newUid.length ≠ qspgsUidLen then Cmd.fail .arg
  else if qspgsMaxEntries ≤ core.members.length then Cmd.fail .toolong
  else do
    let a ← Cmd.quiet (onStore (gyQspgsAcquaintanceLoad c.desc newUid))
    let (m, h) ← Cmd.quiet
      (gyQspgsMemberBuild c.desc core.aeadId e.cur.sub core.gid newUid a.uk a.vkb false)
    -- the source copies the whole list to append the new hash
    Cmd.note (keyRead core 0 core.members.length)
    Cmd.quiet (emitNext c e (core.addEntry m h) caps)

/-- `gy_custodian_qsgroup_invite`: a hash for every member is taken over. -/
def gyCustodianQsgroupInvite (c : QsCustodian β) (cur : CoreBundle β) (inviteeUid : Bytes β)
    (acct : Option (AcctRef β)) (gkprimeCap : Nat) (caps : CoreCaps) :
    QsRead β (NextCore β × Bytes β) :=
  if inviteeUid.length ≠ qspgsUidLen then Cmd.fail .arg
  else do
    let e ← editBegin c cur
    let core := e.cur.core
    if gkprimeCap < gyQspgsMasterKeyLen c.desc then Cmd.fail .toolong
    else if qspgsMaxEntries ≤ core.members.length then Cmd.fail .toolong
    else do
      let vkb ← Cmd.quiet (resolveMemberVkb c inviteeUid acct.toList)
      let gkPrime ← Cmd.quiet (gyQspgsGroupKeyGen c.desc)
      let (m, h) ← Cmd.quiet (gyQspgsMemberBuildPending c.desc core.aeadId e.cur.sub core.gid
        inviteeUid gkPrime vkb)
      -- the same copy for the invitation's hash
      Cmd.note (keyRead core 0 core.members.length)
      let next ← Cmd.quiet (emitNext c e (core.addEntry m h) caps)
      return (next, gkPrime)

/-- Check one line of a consolidation. -/
def consCheckLine (c : QsCustodian β) (cc : CurrentCore β) (apx : Appendix β) (set : Settings)
    (accts : List (AcctRef β)) (approved : List UInt32) (cap : Nat) (p : ApxLine β × Nat) :
    QsRead β (ApxLine β × Bool) := do
  let valid ← checkApxLine c cc.core cc.sub apx.vmaj apx.vmin p.1 set accts cap
  let held := decide (p.1.lineType = .join) && set.adm && !(approved.any fun k => k.toNat = p.2)
  return (p.1, valid && !held)

/-- The first part of `gy_custodian_qsgroup_consolidate`. -/
def consFold [JoinKem β] (c : QsCustodian β) (cc : CurrentCore β) (inp : ConsInput β) :
    QsRead β (Folded β) := do
  let n := cc.core.members.length
  let apx ← Cmd.quiet (Cmd.lift (apxOfCore c.desc cc.core inp.apx))
  let hdrpt ← Cmd.quiet (Cmd.lift (openHeaderField c.desc cc.core cc.sub.ek))
  let set := Settings.ofByte (byteAt hdrpt 0)
  let work ← Cmd.quiet (cc.core.members.mapM' (consOpen c cc inp.accts))
  -- not quiet: every line looks up the hash of its author
  let checked ← apx.lines.zipIdx.mapM'
    (consCheckLine c cc apx set inp.accts inp.approved (inp.apx.length + 128))
  let valid := (checked.filter Prod.snd).map Prod.fst
  let work ← Cmd.quiet (valid.foldlM (consAppend c cc inp.accts) work)
  let work ← Cmd.quiet (Cmd.lift
    (valid.foldlM (consRefresh c.desc cc.core cc.sub.ek n) work))
  let attr ← Cmd.quiet (Cmd.lift
    (valid.foldlM (applyAttr c.desc cc.core cc.sub.ek) (hdrpt.drop 1)))
  let work := valid.foldl (consLeave n) work
  let leave := valid.any fun l => decide (l.lineType = .leave ∧ l.authorIndex.toNat < n)
  let (work, entries, consumed) ← Cmd.quiet (Cmd.lift
    (consSettleAll c.desc cc.core.gid inp.inviteQueue inp.accts work))
  return ⟨work, UInt8.ofNat (byteAt hdrpt 0), attr, apx.lines.length, leave, entries, consumed⟩

/-- `gy_custodian_qsgroup_consolidate`. -/
def gyCustodianQsgroupConsolidate [JoinKem β] (c : QsCustodian β) (cur : CoreBundle β)
    (inp : ConsInput β) (queueCap : Option Nat) (caps : CoreCaps) :
    QsRead β (NextCore β × Bytes β) := do
  let e ← editBegin c cur
  let f ← consFold c e.cur inp
  if f.leave then do
    let newGk ← Cmd.quiet (gyQspgsGroupKeyGen c.desc)
    let newSub ← Cmd.quiet (Cmd.lift (gyQspgsDeriveSubKey c.desc newGk))
    let next ← Cmd.quiet (consEmit c e f newGk newSub caps)
    Cmd.quiet (onStore (gyQspgsGroupKeyStage c.desc e.cur.core.gid newGk))
    let q ← Cmd.quiet (Cmd.lift (consQueue c inp f queueCap))
    return (next, q)
  else do
    let next ← Cmd.quiet (consEmit c e f e.cur.gk e.cur.sub caps)
    let q ← Cmd.quiet (Cmd.lift (consQueue c inp f queueCap))
    return (next, q)

/-! ## Lines and joins -/

/-- `appendix_prepare`. -/
def appendixPrepare (c : QsCustodian β) (cur : CoreBundle β) : QsRead β (LineCtx β) := do
  Cmd.quiet (Cmd.lift (qsgroupGuard c))
  let cc ← openCurrent c cur
  let selfIdx ← Cmd.quiet (Cmd.lift (findSelfIndex c cc.core cc.sub.ek))
  let (skb, vkb) ← Cmd.quiet (onStore (gyQspgsBaseKeyLoad c.desc c.selfUid))
  let mctx ← Cmd.quiet (Cmd.lift (gyQspgsMemberCtxOpen c.desc cc.gk skb vkb c.selfUid))
  return ⟨cc, mctx, selfIdx⟩

/-- `gy_custodian_qsgroup_join_via_link`. -/
def gyCustodianQsgroupJoinViaLink [KrKeygen β] (c : QsCustodian β) (cur : CoreBundle β)
    (linkSecret : Bytes β) (ep : UInt64) (signerAcct : Bytes β) (ukCap lineCap : Nat) :
    QsRead β (Bytes β × Bytes β) := do
  Cmd.quiet (Cmd.lift (qsgroupGuard c))
  if ukCap < gyQspgsMasterKeyLen c.desc then Cmd.fail .toolong
  else do
    let core ← Cmd.quiet (Cmd.lift (gyQspgsHeaderDecode c.desc QspgsCore.zero cur.hdr))
    let core ← Cmd.quiet (Cmd.lift (gyQspgsMemberListDecode c.desc core cur.memberList))
    if core.joinCt.length = 0 then Cmd.fail .verify
    else do
      let (gk, _) ← Cmd.quiet (Cmd.lift
        (gyQspgsJoinlinkOpen c.desc core.aeadId linkSecret core.gid core.joinCt))
      let core ← Cmd.quiet (Cmd.lift (gyQspgsVkLstDecode c.desc core cur.vkLst))
      let s ← Cmd.quiet (Cmd.lift (gyQspgsCoreSigDecode c.desc cur.sig))
      match core.members[s.signerIndex.toNat]? with
      | none => Cmd.fail .verify
      | some m => do
        let core := { core with lastVmin := s.lastVmin }
        let sub ← Cmd.quiet (Cmd.lift (gyQspgsDeriveSubKey c.desc gk))
        let v ← Cmd.quiet (Cmd.lift (gyQspgsMemberDecrypt c.desc core.aeadId sub.ek core.gid m))
        let a ← Cmd.quiet (Cmd.lift (gyQspgsAcctDecode c.desc (some signerAcct)))
        -- a newcomer reads the signer's hash only
        gyQspgsCoreResolveVerify c.desc core s.signerIndex sub.rrs a.vkb v.uid s.sig
          (cur.hdr.length + cur.memberList.length + cur.vkLst.length + 64)
        Cmd.quiet (onStore (gyQspgsGroupKeyStore c.desc core.gid gk))
        let (muk, skb, vkb) ← Cmd.quiet (provisionUser c)
        let uk ← Cmd.quiet (Cmd.lift (gyQspgsDeriveUk c.desc muk ep))
        let mctx ← Cmd.quiet (Cmd.lift (gyQspgsMemberCtxOpen c.desc gk skb vkb c.selfUid))
        let rcOpen ← Cmd.quiet (gyRandomBytes qspgsRcLen)
        let cuid ← Cmd.quiet (Cmd.lift (gyQspgsCuidCommit c.desc c.selfUid rcOpen))
        let ct ← Cmd.quiet (memberCtSealForm c.desc core.aeadId mctx.sub.ek core.gid
          ⟨false, c.selfUid, rcOpen, uk⟩
          (qspgsMemberPtMax + gyQspgsFieldOverhead core.aeadId + 16))
        let line ← Cmd.quiet (frameLine c.desc mctx core.gid core.vmaj 0 .join
          (UInt32.ofNat core.members.length) (cuid ++ ct) lineCap)
        return (uk, line)

/-! ## Reads within the list -/

section Opening

omit [DecidableEq β] [Sodium β] in
/-- Without its read the check of a hash is gone. -/
theorem hashCheck_erasesTo (desc : SuiteDesc β) (core : QspgsCore β) (i : Nat)
    (rrs vkb uid : Bytes β) :
    (hashCheck desc core i rrs vkb uid).ErasesTo (pure () : QsC β Unit) := by
  unfold hashCheck
  split
  · exact Cmd.erasesTo_note _
  · exact Cmd.erasesTo_pure ()

omit [DecidableEq β] [Sodium β] in
/-- The comparison reads within the list if its index is one of the list, or if it does not come to
the read. -/
theorem emits_hashCheck_iff {desc : SuiteDesc β} {core : QspgsCore β} {i : Nat}
    {rrs vkb uid : Bytes β} {w : QsWorld β} :
    Cmd.Emits KeyRead.InBounds (hashCheck desc core i rrs vkb uid) w ↔
      ∀ h, gyQspgsAttributeHash desc rrs vkb uid = .ok h → i < core.vkhash.length := by
  unfold hashCheck
  cases gyQspgsAttributeHash desc rrs vkb uid with
  | error e => exact iff_of_true (Cmd.emits_pure ()) fun h hh => nomatch hh
  | ok h =>
    rw [Cmd.emits_note_iff]
    exact ⟨fun hin _ _ => hin, fun hlt => hlt h rfl⟩

omit [Sodium β] in
/-- Resolving the signer reads one hash, behind a check of its index. -/
theorem coreResolveVerify_stays (desc : SuiteDesc β) (core : QspgsCore β) (i : UInt32)
    (rrs vkb uid sig : Bytes β) (cap : Nat) :
    Cmd.Stays KeyRead.InBounds (gyQspgsCoreResolveVerify desc core i rrs vkb uid sig cap)
      (Cmd.lift (Geryon.gyQspgsCoreResolveVerify desc core i rrs vkb uid sig cap) :
        QsC β Unit) := by
  unfold gyQspgsCoreResolveVerify
  split
  · next h =>
    rw [Geryon.gyQspgsCoreResolveVerify, List.getElem?_eq_none h]
    exact Cmd.stays_fail _
  · next h =>
    have hcheck : Cmd.Stays KeyRead.InBounds (hashCheck desc core i.toNat rrs vkb uid)
        (pure () : QsC β Unit) :=
      ⟨hashCheck_erasesTo _ _ _ _ _ _, fun _ =>
        emits_hashCheck_iff.2 fun _ _ => Nat.lt_of_not_le h⟩
    exact hcheck.bind fun _ => Cmd.stays_quiet _

/-- Checking an entry reads the hash at its position. -/
theorem checkVkEntry_stays (c : QsCustodian β) (core : QspgsCore β) (sub : SubKey β)
    (accts : List (AcctRef β)) (p : (QspgsMember β × Bytes β) × Nat)
    (hp : p.2 < core.vkhash.length) :
    Cmd.Stays KeyRead.InBounds (checkVkEntry c core sub accts p)
      (Geryon.checkVkEntry c core sub accts p.1) :=
  (Cmd.stays_quiet _).bind fun _ => (Cmd.stays_quiet _).bind fun _ =>
    (Cmd.stays_quiet _).bind fun _ =>
    (Cmd.stays_note (show KeyRead.InBounds (keyRead core p.2 1) from hp)).bind fun _ =>
    .ite (Cmd.stays_fail _) (Cmd.stays_pure _)

/-- A fetch compares the two counts first, so the hashes of all entries are there. -/
theorem checkVklstRecompute_stays (c : QsCustodian β) (core : QspgsCore β) (sub : SubKey β)
    (accts : List (AcctRef β)) :
    Cmd.Stays KeyRead.InBounds (checkVklstRecompute c core sub accts)
      (Geryon.checkVklstRecompute c core sub accts) := by
  refine .ite (Cmd.stays_fail _) (.forM_zipIdx fun p hp => checkVkEntry_stays c core sub accts p ?_)
  have hlt := List.snd_lt_add_of_mem_zipIdx hp
  rw [List.length_zip] at hlt
  omega

/-- `open_current` compares the signer's index with both lists. -/
theorem openCurrent_stays (c : QsCustodian β) (cur : CoreBundle β) :
    Cmd.Stays KeyRead.InBounds (openCurrent c cur) (Geryon.openCurrent c cur) := by
  refine (Cmd.stays_quiet _).bind fun core => (Cmd.stays_quiet _).bind fun s => ?_
  dsimp only
  cases core.members[s.signerIndex.toNat]? with
  | none => exact Cmd.stays_fail _
  | some m =>
    exact (Cmd.stays_quiet _).bind fun gk => (Cmd.stays_quiet _).bind fun sub =>
      (Cmd.stays_quiet _).bind fun v => (Cmd.stays_quiet _).bind fun vkb =>
      (coreResolveVerify_stays _ _ _ _ _ _ _ _).bind fun _ => Cmd.stays_pure _

/-- An edit begins within the list. -/
theorem editBegin_stays (c : QsCustodian β) (cur : CoreBundle β) :
    Cmd.Stays KeyRead.InBounds (editBegin c cur) (Geryon.editBegin c cur) :=
  (Cmd.stays_quiet _).bind fun _ => (openCurrent_stays c cur).bind fun _ =>
    (Cmd.stays_quiet _).bind fun _ => (Cmd.stays_quiet _).bind fun _ => Cmd.stays_pure _

/-- So does an appendix line. -/
theorem appendixPrepare_stays (c : QsCustodian β) (cur : CoreBundle β) :
    Cmd.Stays KeyRead.InBounds (appendixPrepare c cur) (Geryon.appendixPrepare c cur) :=
  (Cmd.stays_quiet _).bind fun _ => (openCurrent_stays c cur).bind fun _ =>
    (Cmd.stays_quiet _).bind fun _ => (Cmd.stays_quiet _).bind fun _ =>
    (Cmd.stays_quiet _).bind fun _ => Cmd.stays_pure _

/-- Joining by a link stays within the list. -/
theorem joinViaLink_stays [KrKeygen β] (c : QsCustodian β) (cur : CoreBundle β)
    (linkSecret : Bytes β) (ep : UInt64) (signerAcct : Bytes β) (ukCap lineCap : Nat) :
    Cmd.Stays KeyRead.InBounds
      (gyCustodianQsgroupJoinViaLink c cur linkSecret ep signerAcct ukCap lineCap)
      (Geryon.gyCustodianQsgroupJoinViaLink c cur linkSecret ep signerAcct ukCap lineCap) := by
  refine (Cmd.stays_quiet _).bind fun _ => .ite (Cmd.stays_fail _) ?_
  refine (Cmd.stays_quiet _).bind fun core => (Cmd.stays_quiet _).bind fun core' => ?_
  refine .ite (Cmd.stays_fail _) ?_
  refine (Cmd.stays_quiet _).bind fun p => (Cmd.stays_quiet _).bind fun core =>
    (Cmd.stays_quiet _).bind fun s => ?_
  dsimp only
  cases core.members[s.signerIndex.toNat]? with
  | none => exact Cmd.stays_fail _
  | some m =>
    refine (Cmd.stays_quiet _).bind fun sub => (Cmd.stays_quiet _).bind fun v =>
      (Cmd.stays_quiet _).bind fun a => (coreResolveVerify_stays _ _ _ _ _ _ _ _).bind fun _ => ?_
    exact (Cmd.stays_quiet _).bind fun _ => (Cmd.stays_quiet _).bind fun _ =>
      (Cmd.stays_quiet _).bind fun _ => (Cmd.stays_quiet _).bind fun _ =>
      (Cmd.stays_quiet _).bind fun _ => (Cmd.stays_quiet _).bind fun _ =>
      (Cmd.stays_quiet _).bind fun _ => (Cmd.stays_quiet _).bind fun _ => Cmd.stays_pure _

/-- Opening an answer stays within the list. -/
theorem fetchOpen_stays (c : QsCustodian β) (ans : GroupAnswer β) (prior : PriorView β)
    (accts : List (AcctRef β)) (caps : FetchCaps) :
    Cmd.Stays KeyRead.InBounds (fetchOpen c ans prior accts caps)
      (Geryon.fetchOpen c ans prior accts caps) := by
  refine (Cmd.stays_quiet _).bind fun _ => (Cmd.stays_quiet _).bind fun core =>
    (Cmd.stays_quiet _).bind fun apx => .ite (Cmd.stays_fail _) ?_
  refine (Cmd.stays_quiet _).bind fun s => ?_
  dsimp only
  cases core.members[s.signerIndex.toNat]? with
  | none => exact Cmd.stays_fail _
  | some m =>
    exact (Cmd.stays_quiet _).bind fun gk => (Cmd.stays_quiet _).bind fun sub =>
      (Cmd.stays_quiet _).bind fun v => (Cmd.stays_quiet _).bind fun vkb =>
      (coreResolveVerify_stays _ _ _ _ _ _ _ _).bind fun _ =>
      (Cmd.stays_quiet _).bind fun _ =>
      (checkVklstRecompute_stays c _ _ accts).bind fun _ => Cmd.stays_pure _

end Opening

/-! ### Lines of an appendix -/

section Lines

variable {c : QsCustodian β} {core : QspgsCore β} {sub : SubKey β} {line : ApxLine β}
  {accts : List (AcctRef β)}

/-- Without its read the check of a line is that of the client. -/
theorem checkApxLine_erasesTo (c : QsCustodian β) (core : QspgsCore β) (sub : SubKey β)
    (vmaj vmin : UInt32) (line : ApxLine β) (set : Settings) (accts : List (AcctRef β))
    (cap : Nat) :
    (checkApxLine c core sub vmaj vmin line set accts cap).ErasesTo
      (Geryon.checkApxLine c core sub vmaj vmin line set accts cap) := by
  unfold checkApxLine
  split
  · exact Cmd.erasesTo_quiet _
  next hjoin =>
  unfold Geryon.checkApxLine
  rw [if_neg hjoin]
  cases core.members[line.authorIndex.toNat]? with
  | none => exact Cmd.erasesTo_pure false
  | some m =>
    refine (Cmd.erasesTo_quiet _).bind fun av => (Cmd.erasesTo_quiet _).bind fun r => ?_
    cases r with
    | error e => exact .ite (Cmd.erasesTo_pure false) (Cmd.erasesTo_fail e)
    | ok vkb => exact (hashCheck_erasesTo _ _ _ _ _ _).bind fun _ => Cmd.erasesTo_quiet _

/-- A line whose author is a member with a base key in reach has the author's hash in the list. -/
def AuthorHeld (c : QsCustodian β) (core : QspgsCore β) (sub : SubKey β) (accts : List (AcctRef β))
    (line : ApxLine β) (w : QsWorld β) : Prop :=
  line.lineType ≠ .join → ∀ m av vkb w' h,
    core.members[line.authorIndex.toNat]? = some m →
    gyQspgsMemberDecrypt c.desc core.aeadId sub.ek core.gid m = .ok av →
    resolveMemberVkb c av.uid accts w = (.ok vkb, w') →
    gyQspgsAttributeHash c.desc sub.rrs vkb av.uid = .ok h →
    line.authorIndex.toNat < core.vkhash.length

/-- With a hash for every member the author of a line is in the list. -/
theorem authorHeld_of_le (h : core.members.length ≤ core.vkhash.length) (w : QsWorld β) :
    AuthorHeld c core sub accts line w := by
  intro _ m _ _ _ _ hm _ _ _
  exact lt_of_lt_of_le (List.getElem?_eq_some_iff.1 hm).1 h

/-- A line check reads within the list if the author's hash is in it. -/
theorem emits_checkApxLine_iff {vmaj vmin : UInt32} {set : Settings} {cap : Nat} {w : QsWorld β} :
    Cmd.Emits KeyRead.InBounds (checkApxLine c core sub vmaj vmin line set accts cap) w ↔
      AuthorHeld c core sub accts line w := by
  unfold checkApxLine AuthorHeld
  by_cases hjoin : line.lineType = .join
  · rw [if_pos hjoin]
    exact iff_of_true Cmd.emits_quiet fun hne => absurd hjoin hne
  rw [if_neg hjoin]
  simp only [ne_eq, hjoin, not_false_eq_true, forall_const]
  cases hm : core.members[line.authorIndex.toNat]? with
  | none => exact iff_of_true (Cmd.emits_pure false) fun m _ _ _ _ h => by cases h
  | some m =>
    have hcheck : ∀ av vkb w', Cmd.Emits KeyRead.InBounds (do
        hashCheck c.desc core line.authorIndex.toNat sub.rrs vkb av
        Cmd.quiet (unlessFails .verify
          (Cmd.lift (gyQspgsApxLineResolveVerify c.desc core.gid vmaj vmin line sub.rrs vkb av
            (some (core.vkhash[line.authorIndex.toNat]?.getD [])) cap))
          fun _ => checkApxPayload c core sub line set)) w' ↔
        ∀ h, gyQspgsAttributeHash c.desc sub.rrs vkb av = .ok h →
          line.authorIndex.toNat < core.vkhash.length := by
      intro av vkb w'
      rw [Cmd.emits_bind_iff (hashCheck_erasesTo _ _ _ _ _ _) fun _ => Cmd.erasesTo_quiet _,
        emits_hashCheck_iff]
      exact and_iff_left fun _ _ _ => Cmd.emits_quiet
    rw [Cmd.emits_lift_bind_iff]
    constructor
    · intro h m' av vkb w' hh hm' hav hres
      obtain rfl := Option.some.inj hm'
      have hresolve := Cmd.emits_quiet_bind_iff.1 (h av hav) (.ok vkb) w' (by
        rw [Cmd.attempt_apply, hres])
      exact (hcheck av.uid vkb w').1 hresolve hh
    · intro h av hav
      refine Cmd.emits_quiet_bind_iff.2 fun r w' hr => ?_
      cases r with
      | error e =>
        exact Cmd.emits_ite_iff.2 ⟨fun _ => Cmd.emits_pure false, fun _ => Cmd.emits_fail e⟩
      | ok vkb =>
        obtain ⟨hres, rfl⟩ := Prod.mk.inj hr
        exact (hcheck av.uid vkb _).2 fun hh =>
          h m av vkb _ hh rfl hav (Prod.ext (Except.ok.inj hres) rfl)

end Lines

/-! ### Folding -/

section Fetch

variable [JoinKem β] {c : QsCustodian β} {ans : GroupAnswer β} {prior : PriorView β}
  {accts : List (AcctRef β)} {caps : FetchCaps} {o : OpenedCore β} {w w' : QsWorld β}

omit [JoinKem β] in
/-- The same for the check in a fetch. -/
theorem fetchCheckLine_erasesTo (c : QsCustodian β) (o : OpenedCore β) (set : Settings)
    (accts : List (AcctRef β)) (cap : Nat) (line : ApxLine β) :
    (fetchCheckLine c o set accts cap line).ErasesTo
      (Geryon.fetchCheckLine c o set accts cap line) :=
  (checkApxLine_erasesTo c _ _ _ _ line set accts cap).bind fun _ => Cmd.erasesTo_pure _

/-- And for the folding of a fetch. -/
theorem fetchFold_erasesTo (c : QsCustodian β) (ans : GroupAnswer β) (accts : List (AcctRef β))
    (caps : FetchCaps) (o : OpenedCore β) :
    (fetchFold c ans accts caps o).ErasesTo (Geryon.fetchFold c ans accts caps o) :=
  (Cmd.erasesTo_quiet _).bind fun _ => (Cmd.erasesTo_quiet _).bind fun _ =>
    (Cmd.ErasesTo.mapM' (fetchCheckLine_erasesTo c o _ accts _) _).bind fun _ =>
    (Cmd.erasesTo_quiet _).bind fun _ => (Cmd.erasesTo_quiet _).bind fun _ =>
    .ite (Cmd.erasesTo_fail _) (.ite (Cmd.erasesTo_fail _) (Cmd.erasesTo_pure _))

omit [JoinKem β] in
/-- What a fetch opens has a hash for every member. -/
theorem fetchOpen_counts (h : Geryon.fetchOpen c ans prior accts caps w = (.ok o, w')) :
    o.core.vkhash.length = o.core.members.length := by
  obtain ⟨_, -, h⟩ := Cmd.lift_bind_eq_ok_iff.1 h
  obtain ⟨core, -, h⟩ := Cmd.lift_bind_eq_ok_iff.1 h
  obtain ⟨apx, -, h⟩ := Cmd.lift_bind_eq_ok_iff.1 h
  rw [Cmd.ite_apply] at h
  split at h
  · cases h
  obtain ⟨s, -, h⟩ := Cmd.lift_bind_eq_ok_iff.1 h
  dsimp only at h
  cases hm : core.members[s.signerIndex.toNat]? with
  | none =>
    rw [hm] at h
    cases h
  | some m =>
    rw [hm] at h
    obtain ⟨gk, _, -, h⟩ := Cmd.bind_eq_ok_iff.1 h
    obtain ⟨sub, -, h⟩ := Cmd.lift_bind_eq_ok_iff.1 h
    obtain ⟨v, -, h⟩ := Cmd.lift_bind_eq_ok_iff.1 h
    obtain ⟨vkb, _, -, h⟩ := Cmd.bind_eq_ok_iff.1 h
    obtain ⟨_, -, h⟩ := Cmd.lift_bind_eq_ok_iff.1 h
    obtain ⟨_, -, h⟩ := Cmd.lift_bind_eq_ok_iff.1 h
    obtain ⟨_, _, hlist, h⟩ := Cmd.bind_eq_ok_iff.1 h
    obtain rfl := Except.ok.inj (congrArg Prod.fst h)
    rw [Geryon.checkVklstRecompute, Cmd.ite_apply] at hlist
    split at hlist
    · cases hlist
    next hcounts => exact not_not.1 hcounts

/-- With a hash for every member, the lines of a fetch read within the list. -/
theorem fetchFold_stays (h : o.core.members.length ≤ o.core.vkhash.length) :
    Cmd.Stays KeyRead.InBounds (fetchFold c ans accts caps o)
      (Geryon.fetchFold c ans accts caps o) := by
  refine (Cmd.stays_quiet _).bind fun _ => (Cmd.stays_quiet _).bind fun hdrpt => ?_
  refine Cmd.Stays.bind (.mapM' (fetchCheckLine_erasesTo c o _ accts _) fun line _ w => ?_) fun _ =>
    (Cmd.stays_quiet _).bind fun _ => (Cmd.stays_quiet _).bind fun _ =>
    .ite (Cmd.stays_fail _) (.ite (Cmd.stays_fail _) (Cmd.stays_pure _))
  refine (Cmd.emits_bind_iff (checkApxLine_erasesTo c _ _ _ _ line _ accts _) fun _ =>
    Cmd.erasesTo_pure _).2 ⟨emits_checkApxLine_iff.2 (authorHeld_of_le h w), fun _ _ _ => ?_⟩
  exact Cmd.emits_pure _

/-- So a fetch stays within the list, whatever the answer. -/
theorem fetch_stays (c : QsCustodian β) (ans : GroupAnswer β) (prior : PriorView β)
    (accts : List (AcctRef β)) (caps : FetchCaps) :
    Cmd.Stays KeyRead.InBounds (gyCustodianQsgroupFetch c ans prior accts caps)
      (Geryon.gyCustodianQsgroupFetch c ans prior accts caps) where
  erases := (fetchOpen_stays c ans prior accts caps).erases.bind fun o =>
    (fetchFold_erasesTo c ans accts caps o).bind fun _ => Cmd.erasesTo_pure _
  emits w := by
    refine (Cmd.emits_bind_iff (fetchOpen_stays c ans prior accts caps).erases fun o =>
      (fetchFold_erasesTo c ans accts caps o).bind fun _ => Cmd.erasesTo_pure _).2
      ⟨(fetchOpen_stays c ans prior accts caps).emits w, fun o w' ho => ?_⟩
    have hle := Nat.le_of_eq (fetchOpen_counts ho).symm
    exact ((fetchFold_stays hle).bind fun _ => Cmd.stays_pure _).emits w'

end Fetch

section Consolidate

variable [JoinKem β] {c : QsCustodian β} {cc : CurrentCore β} {cur : CoreBundle β}
  {inp : ConsInput β} {w : QsWorld β}

omit [JoinKem β] in
/-- The same for the check in a consolidation. -/
theorem consCheckLine_erasesTo (c : QsCustodian β) (cc : CurrentCore β) (apx : Appendix β)
    (set : Settings) (accts : List (AcctRef β)) (approved : List UInt32) (cap : Nat)
    (p : ApxLine β × Nat) :
    (consCheckLine c cc apx set accts approved cap p).ErasesTo
      (Geryon.consCheckLine c cc apx set accts approved cap p) :=
  (checkApxLine_erasesTo c _ _ _ _ p.1 set accts cap).bind fun _ => Cmd.erasesTo_pure _

/-- Every line that a consolidation comes to has its author's hash in the list. -/
def LinesHeld (c : QsCustodian β) (cc : CurrentCore β) (inp : ConsInput β) (w : QsWorld β) : Prop :=
  ∀ apx hdrpt work w₁, apxOfCore c.desc cc.core inp.apx = .ok apx →
    openHeaderField c.desc cc.core cc.sub.ek = .ok hdrpt →
    cc.core.members.mapM' (consOpen c cc inp.accts) w = (.ok work, w₁) →
    ∀ pre p post w₂, apx.lines.zipIdx = pre ++ p :: post →
      (∃ bs, pre.mapM' (Geryon.consCheckLine c cc apx (Settings.ofByte (byteAt hdrpt 0)) inp.accts
        inp.approved (inp.apx.length + 128)) w₁ = (.ok bs, w₂)) →
      AuthorHeld c cc.core cc.sub inp.accts p.1 w₂

/-- And for its folding. -/
theorem consFold_erasesTo (c : QsCustodian β) (cc : CurrentCore β) (inp : ConsInput β) :
    (consFold c cc inp).ErasesTo (Geryon.consFold c cc inp) :=
  (Cmd.erasesTo_quiet _).bind fun apx => (Cmd.erasesTo_quiet _).bind fun _ =>
    (Cmd.erasesTo_quiet _).bind fun _ =>
    (Cmd.ErasesTo.mapM' (consCheckLine_erasesTo c cc apx _ _ _ _) _).bind fun _ =>
    (Cmd.erasesTo_quiet _).bind fun _ => (Cmd.erasesTo_quiet _).bind fun _ =>
    (Cmd.erasesTo_quiet _).bind fun _ => (Cmd.erasesTo_quiet _).bind fun _ => Cmd.erasesTo_pure _

/-- The folding stays within the list exactly if the lines it checks have their authors there. -/
theorem emits_consFold_iff :
    Cmd.Emits KeyRead.InBounds (consFold c cc inp) w ↔ LinesHeld c cc inp w := by
  -- the lines are checked one after the other; what follows reads no list
  have hlines : ∀ apx set w₁, Cmd.Emits KeyRead.InBounds (apx.lines.zipIdx.mapM'
        (consCheckLine c cc apx set inp.accts inp.approved (inp.apx.length + 128))) w₁ ↔
      ∀ pre p post w₂, apx.lines.zipIdx = pre ++ p :: post →
        (∃ bs, pre.mapM' (Geryon.consCheckLine c cc apx set inp.accts inp.approved
          (inp.apx.length + 128)) w₁ = (.ok bs, w₂)) →
        AuthorHeld c cc.core cc.sub inp.accts p.1 w₂ := by
    intro apx set w₁
    have hone : ∀ p w₂, Cmd.Emits KeyRead.InBounds
        (consCheckLine c cc apx set inp.accts inp.approved (inp.apx.length + 128) p) w₂ ↔
        AuthorHeld c cc.core cc.sub inp.accts p.1 w₂ := by
      intro p w₂
      unfold consCheckLine
      rw [Cmd.emits_bind_iff (checkApxLine_erasesTo c _ _ _ _ p.1 set inp.accts _)
        fun _ => Cmd.erasesTo_pure _, emits_checkApxLine_iff]
      exact and_iff_left fun _ _ _ => Cmd.emits_pure _
    rw [Cmd.emits_mapM'_iff (consCheckLine_erasesTo c cc apx set _ _ _)]
    simp only [hone]
  unfold consFold LinesHeld
  rw [Cmd.emits_lift_bind_iff]
  constructor
  · intro h apx hdrpt work w₁ hapx hhdr hwork
    have hrest := Cmd.emits_quiet_bind_iff.1
      (Cmd.emits_lift_bind_iff.1 (h apx hapx) hdrpt hhdr) work w₁ hwork
    exact (hlines apx _ w₁).1 ((Cmd.Stays.emits_bind_iff
      (.mapM' (consCheckLine_erasesTo c cc apx _ _ _ _) _) fun _ =>
        (Cmd.stays_quiet _).bind fun _ => (Cmd.stays_quiet _).bind fun _ =>
        (Cmd.stays_quiet _).bind fun _ => (Cmd.stays_quiet _).bind fun _ =>
        Cmd.stays_pure _).1 hrest)
  · intro h apx hapx
    refine Cmd.emits_lift_bind_iff.2 fun hdrpt hhdr => Cmd.emits_quiet_bind_iff.2
      fun work w₁ hwork => ?_
    exact (Cmd.Stays.emits_bind_iff
      (.mapM' (consCheckLine_erasesTo c cc apx _ _ _ _) _) fun _ =>
        (Cmd.stays_quiet _).bind fun _ => (Cmd.stays_quiet _).bind fun _ =>
        (Cmd.stays_quiet _).bind fun _ => (Cmd.stays_quiet _).bind fun _ =>
        Cmd.stays_pure _).2 ((hlines apx _ w₁).2 (h apx hdrpt work w₁ hapx hhdr hwork))

/-- Without its reads a consolidation is that of the client. -/
theorem consolidate_erasesTo (c : QsCustodian β) (cur : CoreBundle β) (inp : ConsInput β)
    (queueCap : Option Nat) (caps : CoreCaps) :
    (gyCustodianQsgroupConsolidate c cur inp queueCap caps).ErasesTo
      (Geryon.gyCustodianQsgroupConsolidate c cur inp queueCap caps) :=
  (editBegin_stays c cur).erases.bind fun e => (consFold_erasesTo c e.cur inp).bind fun _ =>
    .ite ((Cmd.erasesTo_quiet _).bind fun _ => (Cmd.erasesTo_quiet _).bind fun _ =>
      (Cmd.erasesTo_quiet _).bind fun _ => (Cmd.erasesTo_quiet _).bind fun _ =>
      (Cmd.erasesTo_quiet _).bind fun _ => Cmd.erasesTo_pure _)
      ((Cmd.erasesTo_quiet _).bind fun _ => (Cmd.erasesTo_quiet _).bind fun _ =>
      Cmd.erasesTo_pure _)

/-- A consolidation reads within the list if the lines it comes to have their authors' hashes. -/
theorem emits_consolidate_iff {queueCap : Option Nat} {caps : CoreCaps} :
    Cmd.Emits KeyRead.InBounds (gyCustodianQsgroupConsolidate c cur inp queueCap caps) w ↔
      ∀ e w₁, Geryon.editBegin c cur w = (.ok e, w₁) → LinesHeld c e.cur inp w₁ := by
  have hrest : ∀ (e : EditCtx β) (f : Folded β), Cmd.Stays KeyRead.InBounds
      (if f.leave then do
        let newGk ← Cmd.quiet (gyQspgsGroupKeyGen c.desc)
        let newSub ← Cmd.quiet (Cmd.lift (gyQspgsDeriveSubKey c.desc newGk))
        let next ← Cmd.quiet (consEmit c e f newGk newSub caps)
        Cmd.quiet (onStore (gyQspgsGroupKeyStage c.desc e.cur.core.gid newGk))
        let q ← Cmd.quiet (Cmd.lift (consQueue c inp f queueCap))
        return (next, q)
      else do
        let next ← Cmd.quiet (consEmit c e f e.cur.gk e.cur.sub caps)
        let q ← Cmd.quiet (Cmd.lift (consQueue c inp f queueCap))
        return (next, q)) _ := fun e f =>
    .ite ((Cmd.stays_quiet _).bind fun _ => (Cmd.stays_quiet _).bind fun _ =>
      (Cmd.stays_quiet _).bind fun _ => (Cmd.stays_quiet _).bind fun _ =>
      (Cmd.stays_quiet _).bind fun _ => Cmd.stays_pure _)
      ((Cmd.stays_quiet _).bind fun _ => (Cmd.stays_quiet _).bind fun _ => Cmd.stays_pure _)
  unfold gyCustodianQsgroupConsolidate
  rw [Cmd.emits_bind_iff (editBegin_stays c cur).erases fun e =>
    (consFold_erasesTo c e.cur inp).bind fun f => (hrest e f).erases]
  refine (and_iff_right ((editBegin_stays c cur).emits w)).trans ?_
  refine forall_congr' fun e => forall_congr' fun w₁ => forall_congr' fun _ => ?_
  rw [Cmd.Stays.emits_bind_iff (consFold_erasesTo c e.cur inp) (hrest e), emits_consFold_iff]

end Consolidate

/-! ### Edits that take over the list -/

section Copies

variable {c : QsCustodian β} {cur : CoreBundle β} {caps : CoreCaps} {w : QsWorld β}

/-- The core that an addition comes to copy the list of has a hash for every member. -/
def AddHeld (c : QsCustodian β) (cur : CoreBundle β) (newUid : Bytes β) (w : QsWorld β) : Prop :=
  ∀ e w₁ a w₂ p w₃, Geryon.editBegin c cur w = (.ok e, w₁) → newUid.length = qspgsUidLen →
    e.cur.core.members.length < qspgsMaxEntries →
    onStore (gyQspgsAcquaintanceLoad c.desc newUid) w₁ = (.ok a, w₂) →
    gyQspgsMemberBuild c.desc e.cur.core.aeadId e.cur.sub e.cur.core.gid newUid a.uk a.vkb false
      w₂ = (.ok p, w₃) →
    e.cur.core.members.length ≤ e.cur.core.vkhash.length

/-- The core that an invitation comes to copy the list of has a hash for every member. -/
def InviteHeld (c : QsCustodian β) (cur : CoreBundle β) (inviteeUid : Bytes β)
    (acct : Option (AcctRef β)) (gkprimeCap : Nat) (w : QsWorld β) : Prop :=
  ∀ e w₁ vkb w₂ gkPrime w₃ p w₄, inviteeUid.length = qspgsUidLen →
    Geryon.editBegin c cur w = (.ok e, w₁) → gyQspgsMasterKeyLen c.desc ≤ gkprimeCap →
    e.cur.core.members.length < qspgsMaxEntries →
    resolveMemberVkb c inviteeUid acct.toList w₁ = (.ok vkb, w₂) →
    gyQspgsGroupKeyGen c.desc w₂ = (.ok gkPrime, w₃) →
    gyQspgsMemberBuildPending c.desc e.cur.core.aeadId e.cur.sub e.cur.core.gid inviteeUid gkPrime
      vkb w₃ = (.ok p, w₄) →
    e.cur.core.members.length ≤ e.cur.core.vkhash.length

omit [Octet β] [DecidableEq β] [KrMlDsa β] [Sodium β] in
/-- Taking over `n` hashes from the front reads within a list of at least `n`. -/
theorem emits_copy_iff {α : Type} {core : QspgsCore β} {n : Nat} {f : QsRead β α} {g : QsC β α}
    (hf : Cmd.Stays KeyRead.InBounds f g) :
    Cmd.Emits KeyRead.InBounds (do
      Cmd.note (keyRead core 0 n)
      f) w ↔ n ≤ core.vkhash.length := by
  rw [Cmd.Stays.emits_bind_iff (Cmd.erasesTo_note _) fun _ => hf, Cmd.emits_note_iff]
  show 0 + n ≤ core.vkhash.length ↔ _
  rw [Nat.zero_add]

/-- Without its reads an addition is that of the client. -/
theorem addMember_erasesTo (c : QsCustodian β) (cur : CoreBundle β) (newUid : Bytes β)
    (caps : CoreCaps) :
    (gyCustodianQsgroupAddMember c cur newUid caps).ErasesTo
      (Geryon.gyCustodianQsgroupAddMember c cur newUid caps) :=
  (editBegin_stays c cur).erases.bind fun _ =>
    .ite (Cmd.erasesTo_fail _) (.ite (Cmd.erasesTo_fail _)
      ((Cmd.erasesTo_quiet _).bind fun _ => (Cmd.erasesTo_quiet _).bind fun _ =>
        (Cmd.erasesTo_note _).bind fun _ => Cmd.erasesTo_quiet _))

/-- When an addition stays within the list. -/
theorem emits_addMember_iff {newUid : Bytes β} :
    Cmd.Emits KeyRead.InBounds (gyCustodianQsgroupAddMember c cur newUid caps) w ↔
      AddHeld c cur newUid w := by
  unfold gyCustodianQsgroupAddMember AddHeld
  rw [Cmd.emits_bind_iff (editBegin_stays c cur).erases fun _ =>
    .ite (Cmd.erasesTo_fail _) (.ite (Cmd.erasesTo_fail _)
      ((Cmd.erasesTo_quiet _).bind fun _ => (Cmd.erasesTo_quiet _).bind fun _ =>
        (Cmd.erasesTo_note _).bind fun _ => Cmd.erasesTo_quiet _))]
  refine (and_iff_right ((editBegin_stays c cur).emits w)).trans ?_
  have hcopy : ∀ (e : EditCtx β) (p : QspgsMember β × Bytes β) (w₃ : QsWorld β),
      Cmd.Emits KeyRead.InBounds (do
        Cmd.note (keyRead e.cur.core 0 e.cur.core.members.length)
        Cmd.quiet (emitNext c e (e.cur.core.addEntry p.1 p.2) caps)) w₃ ↔
      e.cur.core.members.length ≤ e.cur.core.vkhash.length :=
    fun e p w₃ => emits_copy_iff (Cmd.stays_quiet _)
  constructor
  · intro h e w₁ a w₂ p w₃ he huid hn ha hp
    have hbody := h e w₁ he
    rw [if_neg (not_not.2 huid), if_neg (Nat.not_le.2 hn)] at hbody
    exact (hcopy e p w₃).1 (Cmd.emits_quiet_bind_iff.1
      (Cmd.emits_quiet_bind_iff.1 hbody a w₂ ha) p w₃ hp)
  · intro h e w₁ he
    refine Cmd.emits_ite_iff.2 ⟨fun _ => Cmd.emits_fail _, fun huid => ?_⟩
    refine Cmd.emits_ite_iff.2 ⟨fun _ => Cmd.emits_fail _, fun hn => ?_⟩
    refine Cmd.emits_quiet_bind_iff.2 fun a w₂ ha => Cmd.emits_quiet_bind_iff.2 fun p w₃ hp => ?_
    exact (hcopy e p w₃).2
      (h e w₁ a w₂ p w₃ he (not_not.1 huid) (Nat.lt_of_not_le hn) ha hp)

/-- Without its reads an invitation is that of the client. -/
theorem invite_erasesTo (c : QsCustodian β) (cur : CoreBundle β) (inviteeUid : Bytes β)
    (acct : Option (AcctRef β)) (gkprimeCap : Nat) (caps : CoreCaps) :
    (gyCustodianQsgroupInvite c cur inviteeUid acct gkprimeCap caps).ErasesTo
      (Geryon.gyCustodianQsgroupInvite c cur inviteeUid acct gkprimeCap caps) :=
  .ite (Cmd.erasesTo_fail _) ((editBegin_stays c cur).erases.bind fun _ =>
    .ite (Cmd.erasesTo_fail _) (.ite (Cmd.erasesTo_fail _)
      ((Cmd.erasesTo_quiet _).bind fun _ => (Cmd.erasesTo_quiet _).bind fun _ =>
        (Cmd.erasesTo_quiet _).bind fun _ => (Cmd.erasesTo_note _).bind fun _ =>
        (Cmd.erasesTo_quiet _).bind fun _ => Cmd.erasesTo_pure _)))

/-- When an invitation stays within the list. -/
theorem emits_invite_iff {inviteeUid : Bytes β} {acct : Option (AcctRef β)} {gkprimeCap : Nat} :
    Cmd.Emits KeyRead.InBounds
        (gyCustodianQsgroupInvite c cur inviteeUid acct gkprimeCap caps) w ↔
      InviteHeld c cur inviteeUid acct gkprimeCap w := by
  unfold gyCustodianQsgroupInvite InviteHeld
  rw [Cmd.emits_ite_iff, Cmd.emits_bind_iff (editBegin_stays c cur).erases fun _ =>
    .ite (Cmd.erasesTo_fail _) (.ite (Cmd.erasesTo_fail _)
      ((Cmd.erasesTo_quiet _).bind fun _ => (Cmd.erasesTo_quiet _).bind fun _ =>
        (Cmd.erasesTo_quiet _).bind fun _ => (Cmd.erasesTo_note _).bind fun _ =>
        (Cmd.erasesTo_quiet _).bind fun _ => Cmd.erasesTo_pure _))]
  have hcopy : ∀ (e : EditCtx β) (gkPrime : Bytes β) (p : QspgsMember β × Bytes β)
      (w₄ : QsWorld β), Cmd.Emits KeyRead.InBounds (do
        Cmd.note (keyRead e.cur.core 0 e.cur.core.members.length)
        let next ← Cmd.quiet (emitNext c e (e.cur.core.addEntry p.1 p.2) caps)
        return (next, gkPrime)) w₄ ↔
      e.cur.core.members.length ≤ e.cur.core.vkhash.length :=
    fun e gkPrime p w₄ => emits_copy_iff ((Cmd.stays_quiet _).bind fun _ => Cmd.stays_pure _)
  constructor
  · intro h e w₁ vkb w₂ gkPrime w₃ p w₄ huid he hcap hn hvkb hgk hp
    have hbody := (h.2 (not_not.2 huid)).2 e w₁ he
    rw [if_neg (Nat.not_lt.2 hcap), if_neg (Nat.not_le.2 hn)] at hbody
    exact (hcopy e gkPrime p w₄).1 (Cmd.emits_quiet_bind_iff.1 (Cmd.emits_quiet_bind_iff.1
      (Cmd.emits_quiet_bind_iff.1 hbody vkb w₂ hvkb) gkPrime w₃ hgk) p w₄ hp)
  · intro h
    refine ⟨fun _ => Cmd.emits_fail _, fun huid => ⟨(editBegin_stays c cur).emits w, ?_⟩⟩
    intro e w₁ he
    refine Cmd.emits_ite_iff.2 ⟨fun _ => Cmd.emits_fail _, fun hcap => ?_⟩
    refine Cmd.emits_ite_iff.2 ⟨fun _ => Cmd.emits_fail _, fun hn => ?_⟩
    refine Cmd.emits_quiet_bind_iff.2 fun vkb w₂ hvkb => Cmd.emits_quiet_bind_iff.2
      fun gkPrime w₃ hgk => Cmd.emits_quiet_bind_iff.2 fun p w₄ hp => ?_
    exact (hcopy e gkPrime p w₄).2 (h e w₁ vkb w₂ gkPrime w₃ p w₄ (not_not.1 huid) he
      (Nat.not_lt.1 hcap) (Nat.lt_of_not_le hn) hvkb hgk hp)

end Copies

end KeyReads

/-! ## Calls -/

/-- A call of a client on the core of a group. An edit that takes over no hash, and a line for the
appendix, is given by what follows the opening. -/
inductive ClientCall (β : Type) where
  | fetch (ans : GroupAnswer β) (prior : PriorView β) (accts : List (AcctRef β)) (caps : FetchCaps)
  | addMember (cur : CoreBundle β) (newUid : Bytes β) (caps : CoreCaps)
  | invite (cur : CoreBundle β) (inviteeUid : Bytes β) (acct : Option (AcctRef β))
      (gkprimeCap : Nat) (caps : CoreCaps)
  | consolidate (cur : CoreBundle β) (inp : ConsInput β) (queueCap : Option Nat) (caps : CoreCaps)
  | edit (cur : CoreBundle β) (k : EditCtx β → QsC β Unit)
  | line (cur : CoreBundle β) (k : LineCtx β → QsC β Unit)
  | joinViaLink (cur : CoreBundle β) (linkSecret : Bytes β) (ep : UInt64) (signerAcct : Bytes β)
      (ukCap lineCap : Nat)

variable [Sodium β] [JoinKem β] [KrKeygen β] (c : QsCustodian β)

/-- The call without its result. -/
def ClientCall.run : ClientCall β → QsC β Unit
  | .fetch ans prior accts caps => do
    let _ ← gyCustodianQsgroupFetch c ans prior accts caps
    return ()
  | .addMember cur newUid caps => do
    let _ ← gyCustodianQsgroupAddMember c cur newUid caps
    return ()
  | .invite cur inviteeUid acct gkprimeCap caps => do
    let _ ← gyCustodianQsgroupInvite c cur inviteeUid acct gkprimeCap caps
    return ()
  | .consolidate cur inp queueCap caps => do
    let _ ← gyCustodianQsgroupConsolidate c cur inp queueCap caps
    return ()
  | .edit cur k => do
    let e ← editBegin c cur
    k e
  | .line cur k => do
    let l ← appendixPrepare c cur
    k l
  | .joinViaLink cur linkSecret ep signerAcct ukCap lineCap => do
    let _ ← gyCustodianQsgroupJoinViaLink c cur linkSecret ep signerAcct ukCap lineCap
    return ()

/-- The call with its reads of the key list. -/
def ClientCall.logged : ClientCall β → QsRead β Unit
  | .fetch ans prior accts caps => do
    let _ ← KeyReads.gyCustodianQsgroupFetch c ans prior accts caps
    return ()
  | .addMember cur newUid caps => do
    let _ ← KeyReads.gyCustodianQsgroupAddMember c cur newUid caps
    return ()
  | .invite cur inviteeUid acct gkprimeCap caps => do
    let _ ← KeyReads.gyCustodianQsgroupInvite c cur inviteeUid acct gkprimeCap caps
    return ()
  | .consolidate cur inp queueCap caps => do
    let _ ← KeyReads.gyCustodianQsgroupConsolidate c cur inp queueCap caps
    return ()
  | .edit cur k => do
    let e ← KeyReads.editBegin c cur
    Cmd.quiet (k e)
  | .line cur k => do
    let l ← KeyReads.appendixPrepare c cur
    Cmd.quiet (k l)
  | .joinViaLink cur linkSecret ep signerAcct ukCap lineCap => do
    let _ ← KeyReads.gyCustodianQsgroupJoinViaLink c cur linkSecret ep signerAcct ukCap lineCap
    return ()

/-- Where the call takes over hashes, the core has one for every member; where it checks a line, it
has the author's. -/
def ClientCall.HashesHeld (w : QsWorld β) : ClientCall β → Prop
  | .addMember cur newUid _ => KeyReads.AddHeld c cur newUid w
  | .invite cur inviteeUid acct gkprimeCap _ =>
    KeyReads.InviteHeld c cur inviteeUid acct gkprimeCap w
  | .consolidate cur inp _ _ =>
    ∀ e w₁, editBegin c cur w = (.ok e, w₁) → KeyReads.LinesHeld c e.cur inp w₁
  | _ => True

omit [KrKeygen β] in
/-- The remaining edits and the lines fail on an argument or go on from the opened core. -/
theorem edits_from_opening (cur : CoreBundle β) (caps : CoreCaps) :
    (∀ targetUid admin, ∃ k, gyCustodianQsgroupSetAdmin c cur targetUid admin caps =
      editBegin c cur >>= k) ∧
    (∀ targetUid, ∃ k, gyCustodianQsgroupRemoveMember c cur targetUid caps =
      editBegin c cur >>= k) ∧
    (∃ k, gyCustodianQsgroupRotateGroupKey c cur caps = editBegin c cur >>= k) ∧
    (∃ k, gyCustodianQsgroupToggleJoinLink c cur caps = editBegin c cur >>= k) ∧
    (∀ inviteeUid inviteeUk, ∃ k, gyCustodianQsgroupCompleteInvitation c cur inviteeUid inviteeUk
      caps = if inviteeUid.length ≠ qspgsUidLen then Cmd.fail .arg else editBegin c cur >>= k) ∧
    (∀ flags attr, ∃ k, gyCustodianQsgroupChangeSettings c cur flags attr caps =
      if qsgroupAttrMax < attr.length then Cmd.fail .toolong else editBegin c cur >>= k) ∧
    (∀ curQueue targetUid queueCap, ∃ k, gyCustodianQsgroupRevokeInvitation c cur curQueue targetUid
      queueCap caps =
      if targetUid.length ≠ qspgsUidLen then Cmd.fail .arg else editBegin c cur >>= k) ∧
    (∀ vmin lineCap, ∃ k, gyCustodianQsgroupAppendixLeave c cur vmin lineCap =
      appendixPrepare c cur >>= k) ∧
    (∀ vmin ep lineCap, ∃ k, gyCustodianQsgroupAppendixRefresh c cur vmin ep lineCap =
      appendixPrepare c cur >>= k) ∧
    (∀ vmin attr lineCap, ∃ k, gyCustodianQsgroupAppendixModAttr c cur vmin attr lineCap =
      appendixPrepare c cur >>= k) ∧
    ∀ vmin newUid newUk lineCap hashCap, ∃ k,
      gyCustodianQsgroupAppendixAddUser c cur vmin newUid newUk lineCap hashCap =
        appendixPrepare c cur >>= k :=
  ⟨fun _ _ => ⟨_, rfl⟩, fun _ => ⟨_, rfl⟩, ⟨_, rfl⟩, ⟨_, rfl⟩, fun _ _ => ⟨_, rfl⟩,
    fun _ _ => ⟨_, rfl⟩, fun _ _ _ => ⟨_, rfl⟩, fun _ _ => ⟨_, rfl⟩, fun _ _ _ => ⟨_, rfl⟩,
    fun _ _ _ => ⟨_, rfl⟩, fun _ _ _ _ _ => ⟨_, rfl⟩⟩

/-- Without its reads, a call is the function of the client. -/
theorem ClientCall.logged_erasesTo (call : ClientCall β) :
    (call.logged c).ErasesTo (call.run c) := by
  cases call with
  | fetch ans prior accts caps =>
    exact (KeyReads.fetch_stays c ans prior accts caps).erases.bind fun _ => Cmd.erasesTo_pure ()
  | addMember cur newUid caps =>
    exact (KeyReads.addMember_erasesTo c cur newUid caps).bind fun _ => Cmd.erasesTo_pure ()
  | invite cur inviteeUid acct gkprimeCap caps =>
    exact (KeyReads.invite_erasesTo c cur inviteeUid acct gkprimeCap caps).bind fun _ =>
      Cmd.erasesTo_pure ()
  | consolidate cur inp queueCap caps =>
    exact (KeyReads.consolidate_erasesTo c cur inp queueCap caps).bind fun _ => Cmd.erasesTo_pure ()
  | edit cur k => exact (KeyReads.editBegin_stays c cur).erases.bind fun _ => Cmd.erasesTo_quiet _
  | line cur k =>
    exact (KeyReads.appendixPrepare_stays c cur).erases.bind fun _ => Cmd.erasesTo_quiet _
  | joinViaLink cur linkSecret ep signerAcct ukCap lineCap =>
    exact (KeyReads.joinViaLink_stays c cur linkSecret ep signerAcct ukCap lineCap).erases.bind
      fun _ => Cmd.erasesTo_pure ()

omit [Octet β] [DecidableEq β] [KrMlDsa β] [Sodium β] [JoinKem β] [KrKeygen β] in
/-- The result of a call plays no part in its reads. -/
theorem emits_void_iff {α : Type} {t : QsRead β α} {x : QsC β α} (ht : t.ErasesTo x)
    {w : QsWorld β} :
    Cmd.Emits KeyRead.InBounds (do
      let _ ← t
      return ()) w ↔ Cmd.Emits KeyRead.InBounds t w :=
  Cmd.Stays.emits_bind_iff ht fun _ => Cmd.stays_pure ()

/-- When a call reads the key list within its bounds. -/
theorem keyReads_inBounds_iff (w : QsWorld β) (call : ClientCall β) :
    (call.logged c).Emits KeyRead.InBounds w ↔ call.HashesHeld c w := by
  cases call with
  | fetch ans prior accts caps =>
    have hstays := KeyReads.fetch_stays c ans prior accts caps
    exact iff_of_true ((emits_void_iff hstays.erases).2 (hstays.emits w)) trivial
  | addMember cur newUid caps =>
    exact (emits_void_iff (KeyReads.addMember_erasesTo c cur newUid caps)).trans
      KeyReads.emits_addMember_iff
  | invite cur inviteeUid acct gkprimeCap caps =>
    exact (emits_void_iff (KeyReads.invite_erasesTo c cur inviteeUid acct gkprimeCap caps)).trans
      KeyReads.emits_invite_iff
  | consolidate cur inp queueCap caps =>
    exact (emits_void_iff (KeyReads.consolidate_erasesTo c cur inp queueCap caps)).trans
      KeyReads.emits_consolidate_iff
  | edit cur k =>
    have hstays := (KeyReads.editBegin_stays c cur).bind fun e => Cmd.stays_quiet (k e)
    exact iff_of_true (hstays.emits w) trivial
  | line cur k =>
    have hstays := (KeyReads.appendixPrepare_stays c cur).bind fun l => Cmd.stays_quiet (k l)
    exact iff_of_true (hstays.emits w) trivial
  | joinViaLink cur linkSecret ep signerAcct ukCap lineCap =>
    have hstays := KeyReads.joinViaLink_stays c cur linkSecret ep signerAcct ukCap lineCap
    exact iff_of_true ((emits_void_iff hstays.erases).2 (hstays.emits w)) trivial

namespace Sample

open Geryon.Sym

/-- The admin of the pair adds user 2: the call copies a hash for each of the two members. -/
theorem keyReads_inBounds_pair :
    ((ClientCall.addMember (bundle pairCore (gk 0) 0 0) (uid 2) roomy).logged
      (custodian 0)).Emits KeyRead.InBounds (world (recs 0 (gk 0))) := by
  refine (keyReads_inBounds_iff _ _ _).2 ?_
  intro e w₁ a w₂ p w₃ hbegin _ _ _ _
  have hpair : editBegin (custodian 0) (bundle pairCore (gk 0) 0 0) (world (recs 0 (gk 0))) = _ :=
    (knows_world 0 (gk 0)).editBegin (i := 0) (l := ⟨0, true, false⟩) ⟨0, true, false⟩
      (length_gk 0) pairCore_wf rfl rfl
  obtain rfl := Except.ok.inj (congrArg Prod.fst (hbegin.symm.trans hpair))
  exact le_refl 2

/-! ### A core with fewer hashes than members -/

/-- The pair with the admin's hash alone. -/
def shortCore : QspgsCore Sym := { pairCore with vkhash := pairCore.vkhash.take 1 }

/-- The core with a missing hash is well formed. -/
theorem shortCore_wf : shortCore.Wf qsSuite where
  gid := pairCore_wf.gid
  format := pairCore_wf.format
  saCt := pairCore_wf.saCt
  joinCt := pairCore_wf.joinCt
  members_le := pairCore_wf.members_le
  cuid := pairCore_wf.cuid
  mct := pairCore_wf.mct
  vkhash_le := (List.length_take_le' _ _).trans pairCore_wf.vkhash_le
  vkhash h hh := pairCore_wf.vkhash h (List.mem_of_mem_take hh)

/-- The admin opens the short core for an edit. -/
theorem editBegin_shortCore :
    editBegin (custodian 0) (bundle shortCore (gk 0) 0 0) (world (recs 0 (gk 0))) =
      (.ok ⟨⟨shortCore, symSign shortCore 0 (vkr (gk 0) 0), gk 0, sub (gk 0)⟩, 0, skb 0, vkb 0⟩,
        world (recs 0 (gk 0))) := by
  have h := knows_world 0 (gk 0)
  have hself : selfAdminIndex (custodian 0) shortCore (sub (gk 0)).ek = .ok 0 := by
    have hfind : findMember qsSuite shortCore (sub (gk 0)).ek (uid 0) 0 shortCore.members =
        .ok (some (0, (⟨0, true, false⟩ : Line).view)) :=
      findMember_eq ⟨0, true, false⟩ [⟨1, false, false⟩] rfl rfl
    show (findMember qsSuite shortCore (sub (gk 0)).ek (uid 0) 0 shortCore.members >>= _) = _
    rw [hfind, Except.ok_bind]
    rfl
  have hopen : openCurrent (custodian 0) (bundle shortCore (gk 0) 0 0) (world (recs 0 (gk 0))) =
      (.ok ⟨shortCore, symSign shortCore 0 (vkr (gk 0) 0), gk 0, sub (gk 0)⟩,
        world (recs 0 (gk 0))) :=
    openCurrent_of_signed (decodeBundle_bundle shortCore_wf (gk 0) 0 0)
      (m := (⟨0, true, false⟩ : Line).member (gk 0)) rfl
      (h.groupKeyLoad (length_gk 0)) (gyQspgsDeriveSubKey_eq (gk 0))
      (Line.memberDecrypt (gk 0) ⟨0, true, false⟩) (h.resolveMemberVkb 0 [])
      (core_resolveVerify (l := ⟨0, true, false⟩) shortCore_wf rfl)
  exact editBegin_of_opened rfl hopen hself h.baseKeyLoad

/-- The call that adds a member to the short core copies two hashes of a list of one. -/
theorem not_addHeld_shortCore :
    ¬KeyReads.AddHeld (custodian 0) (bundle shortCore (gk 0) 0 0) (uid 2)
      (world (recs 0 (gk 0))) := by
  intro h
  have hknows := knows_world 0 (gk 0)
  obtain ⟨m, hm, -⟩ := memberBuild_eq (w := world (recs 0 (gk 0))) rfl (gk 0) 2 false
  have hle := h _ _ _ _ _ _ editBegin_shortCore (length_uid 2)
    (show 2 < qspgsMaxEntries by decide) (hknows.acquaintanceLoad 2) hm
  exact absurd (show 2 ≤ 1 from hle) (by decide)

/-- An admin adds a member to a signed core of two members and one hash: the call leaves the
list. -/
theorem addMember_leaves_list :
    editBegin (custodian 0) (bundle shortCore (gk 0) 0 0) (world (recs 0 (gk 0))) =
        (.ok ⟨⟨shortCore, symSign shortCore 0 (vkr (gk 0) 0), gk 0, sub (gk 0)⟩, 0, skb 0, vkb 0⟩,
          world (recs 0 (gk 0))) ∧
      ¬((ClientCall.addMember (bundle shortCore (gk 0) 0 0) (uid 2) roomy).logged
        (custodian 0)).Emits KeyRead.InBounds (world (recs 0 (gk 0))) := by
  refine ⟨editBegin_shortCore, ?_⟩
  rw [ClientCall.logged, emits_void_iff (KeyReads.addMember_erasesTo _ _ _ _),
    KeyReads.emits_addMember_iff]
  exact not_addHeld_shortCore

end Sample

end Geryon
