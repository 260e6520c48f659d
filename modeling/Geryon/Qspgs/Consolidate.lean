import Geryon.Qspgs.Edit

/-!
# Consolidation and the remaining operations

`gy_custodian_qsgroup_consolidate`, which folds the appendix and the invite queue into a next core,
the revocation of an invitation, group creation, joining over a link and the appendix operations.
-/

namespace Geryon

variable {β : Type} [Octet β] [DecidableEq β] [KrMlDsa β] [Sodium β]

/-! ## Consolidation -/

/-- An entry of the working set (`struct consolidate_work`); the key is the basis key of a pending
entry and else the user key. -/
structure ConsWork (β : Type) where
  uid : Bytes β
  vkb : Bytes β
  key : Bytes β
  admn : Bool
  pending : Bool
  removed : Bool

/-- The working entry of a core entry. -/
def consOpen (c : QsCustodian β) (cc : CurrentCore β) (accts : List (AcctRef β))
    (m : QspgsMember β) : QsC β (ConsWork β) := do
  let v ← Cmd.lift (gyQspgsMemberDecrypt c.desc cc.core.aeadId cc.sub.ek cc.core.gid m)
  let vkb ← resolveMemberVkb c v.uid accts
  return ⟨v.uid, vkb, v.uk, v.admn, v.pending, false⟩

/-- Check one line; a valid join that needs approval is folded only if its index is approved. -/
def consCheckLine (c : QsCustodian β) (cc : CurrentCore β) (apx : Appendix β) (set : Settings)
    (accts : List (AcctRef β)) (approved : List UInt32) (cap : Nat) (p : ApxLine β × Nat) :
    QsC β (ApxLine β × Bool) := do
  let valid ← checkApxLine c cc.core cc.sub apx.vmaj apx.vmin p.1 set accts cap
  let held := decide (p.1.lineType = .join) && set.adm && !(approved.any fun k => k.toNat = p.2)
  return (p.1, valid && !held)

/-- Pass 1: a valid newcomer line appends a member. -/
def consAppend (c : QsCustodian β) (cc : CurrentCore β) (accts : List (AcctRef β))
    (work : List (ConsWork β)) (line : ApxLine β) : QsC β (List (ConsWork β)) :=
  if line.lineType = .addUser ∨ line.lineType = .join then
    if qspgsMaxEntries ≤ work.length then Cmd.fail .toolong
    else do
      let t ← Cmd.lift (newcomerOpen c.desc cc.core cc.sub.ek line)
      let vkb ← resolveMemberVkb c t.uid accts
      return work ++ [⟨t.uid, vkb, t.key, false, false, false⟩]
  else pure work

/-- Pass 2: a valid refresh line replaces its author's key. -/
def consRefresh (desc : SuiteDesc β) (core : QspgsCore β) (ek : Bytes β) (n : Nat)
    (work : List (ConsWork β)) (line : ApxLine β) : Except GyErr (List (ConsWork β)) :=
  let j := line.authorIndex.toNat
  if line.lineType = .refresh ∧ j < n ∧ ¬(work[j]?.any ConsWork.removed) then do
    let uk ← gyQspgsFieldOpen desc core.aeadId ek .uk core.gid line.payload qspgsMasterKeyMax
    return work.modify j fun w => { w with key := uk }
  else .ok work

/-- Pass 4: a valid leave line removes its author. -/
def consLeave (n : Nat) (work : List (ConsWork β)) (line : ApxLine β) : List (ConsWork β) :=
  let j := line.authorIndex.toNat
  if line.lineType = .leave ∧ j < n then work.modify j fun w => { w with removed := true }
  else work

/-- Settle one entry of the working set, and say which entry of the queue it consumed. -/
def consSettle [JoinKem β] (desc : SuiteDesc β) (gid : Bytes β) (entries : List (Bytes β))
    (accts : List (AcctRef β)) (w : ConsWork β) : Except GyErr (ConsWork β × Option Nat) :=
  if w.pending ∧ ¬w.removed then do
    match ← settleOne desc w.key gid entries accts w.uid with
    | some (uk, e) => return ({ w with key := uk, pending := false }, some e)
    | none => return (w, none)
  else .ok (w, none)

/-- The survivors of a consolidation. -/
structure ConsBuilt (β : Type) where
  members : List (QspgsMember β)
  vkhash : List (Bytes β)
  self : Option Nat

/-- Rebuild one survivor under the operative keys. -/
def consBuild (c : QsCustodian β) (core : QspgsCore β) (sub : SubKey β) (r : ConsBuilt β)
    (w : ConsWork β) : QsC β (ConsBuilt β) :=
  if w.removed then pure r
  else do
    let (m, h) ←
      if w.pending then gyQspgsMemberBuildPending c.desc core.aeadId sub core.gid w.uid w.key w.vkb
      else gyQspgsMemberBuild c.desc core.aeadId sub core.gid w.uid w.key w.vkb w.admn
    return ⟨r.members ++ [m], r.vkhash ++ [h],
      if w.uid = c.selfUid then some r.members.length else r.self⟩

/-- What a consolidation reads besides the current core. -/
structure ConsInput (β : Type) where
  apx : Bytes β
  inviteQueue : Bytes β
  accts : List (AcctRef β)
  approved : List UInt32

/-- The folded working set of a consolidation. -/
structure Folded (β : Type) where
  work : List (ConsWork β)
  flags : UInt8
  attr : Bytes β
  nLines : Nat
  leave : Bool
  /-- The entries of the queue and those that were consumed. -/
  entries : List (Bytes β)
  consumed : List Nat

/-- Settle the pending entries of the working set against the invite queue, if there is one: the
working set, the entries of the queue and the consumed ones. -/
def consSettleAll [JoinKem β] (desc : SuiteDesc β) (gid queue : Bytes β) (accts : List (AcctRef β))
    (work : List (ConsWork β)) : Except GyErr (List (ConsWork β) × List (Bytes β) × List Nat) :=
  if queue.length = 0 then .ok (work, [], [])
  else do
    let entries ← gyQspgsInviteQueueDecode desc queue
    let settled ← work.mapM' (consSettle desc gid entries accts)
    return (settled.map Prod.fst, entries, settled.filterMap Prod.snd)

/-- The first part of `gy_custodian_qsgroup_consolidate`: fold the appendix and the queue. -/
def consFold [JoinKem β] (c : QsCustodian β) (cc : CurrentCore β) (inp : ConsInput β) :
    QsC β (Folded β) := do
  let n := cc.core.members.length
  let apx ← Cmd.lift (apxOfCore c.desc cc.core inp.apx)
  let hdrpt ← Cmd.lift (openHeaderField c.desc cc.core cc.sub.ek)
  -- the first octet of the header field is the settings, the rest the attribute
  let set := Settings.ofByte (byteAt hdrpt 0)
  let work ← cc.core.members.mapM' (consOpen c cc inp.accts)
  let checked ← apx.lines.zipIdx.mapM'
    (consCheckLine c cc apx set inp.accts inp.approved (inp.apx.length + 128))
  let valid := (checked.filter Prod.snd).map Prod.fst
  -- newcomers, then refreshes, the attribute, leavers and last the invitations
  let work ← valid.foldlM (consAppend c cc inp.accts) work
  let work ← Cmd.lift (valid.foldlM (consRefresh c.desc cc.core cc.sub.ek n) work)
  let attr ← Cmd.lift (valid.foldlM (applyAttr c.desc cc.core cc.sub.ek) (hdrpt.drop 1))
  let work := valid.foldl (consLeave n) work
  -- whether the group key has to change
  let leave := valid.any fun l => decide (l.lineType = .leave ∧ l.authorIndex.toNat < n)
  let (work, entries, consumed) ← Cmd.lift
    (consSettleAll c.desc cc.core.gid inp.inviteQueue inp.accts work)
  return ⟨work, UInt8.ofNat (byteAt hdrpt 0), attr, apx.lines.length, leave, entries, consumed⟩

/-- The drained invite queue, in a buffer of `cap` bytes if one is given. -/
def consQueue (c : QsCustodian β) (inp : ConsInput β) (f : Folded β) (cap : Option Nat) :
    Except GyErr (Bytes β) :=
  if inp.inviteQueue.length = 0 then .ok []
  else do
    let kept := (f.entries.zipIdx.filter fun p => p.2 ∉ f.consumed).map Prod.fst
    let q ← gyQspgsInviteQueueEncode c.desc kept (inp.inviteQueue.length + 16)
    if (cap.any fun cap => cap < q.length) then .error .toolong else .ok q

/-- The middle of `gy_custodian_qsgroup_consolidate`: rebuild the survivors under the operative
key, and sign and emit the next core. -/
def consEmit (c : QsCustodian β) (e : EditCtx β) (f : Folded β) (gkOp : Bytes β)
    (subOp : SubKey β) (caps : CoreCaps) : QsC β (NextCore β) := do
  let core := e.cur.core
  let fet ← Cmd.lift (gyQspgsDeriveFet c.desc gkOp)
  let r ← f.work.foldlM (consBuild c core subOp) ⟨[], [], none⟩
  match r.self with
  -- the consolidating member is not in the new list
  | none => Cmd.fail .state
  | some selfNew => do
    let sa ← gyQspgsFieldSeal c.desc core.aeadId subOp.ek .header core.gid
      (Octet.ofByte f.flags :: f.attr) (1 + qsgroupAttrMax + 64)
    let (slot, dropped) ←
      -- a join link outlives the change of keys by being sealed again
      if core.joinCt.length ≠ 0 ∧ f.leave then resealJoinSlot c core gkOp fet
      else pure (core.joinCt, false)
    let (bundle, fet) ← emitEdited c
      { core with
        vmaj := core.vmaj + 1
        saCt := sa
        joinCt := slot
        members := r.members
        vkhash := r.vkhash
        lastVmin := UInt32.ofNat f.nLines }
      gkOp e.skb e.vkb (UInt32.ofNat selfNew) caps
    return ⟨bundle, fet, dropped⟩

/-- `gy_custodian_qsgroup_consolidate`: the group key is rotated if a leave was folded. -/
def gyCustodianQsgroupConsolidate [JoinKem β] (c : QsCustodian β) (cur : CoreBundle β)
    (inp : ConsInput β) (queueCap : Option Nat) (caps : CoreCaps) :
    QsC β (NextCore β × Bytes β) := do
  let e ← editBegin c cur
  let f ← consFold c e.cur inp
  if f.leave then do
    let newGk ← gyQspgsGroupKeyGen c.desc
    let newSub ← Cmd.lift (gyQspgsDeriveSubKey c.desc newGk)
    let next ← consEmit c e f newGk newSub caps
    -- the new key is staged only, until the server has taken the core
    onStore (gyQspgsGroupKeyStage c.desc e.cur.core.gid newGk)
    let q ← Cmd.lift (consQueue c inp f queueCap)
    return (next, q)
  -- nobody left: the group key stays
  else do
    let next ← consEmit c e f e.cur.gk e.cur.sub caps
    let q ← Cmd.lift (consQueue c inp f queueCap)
    return (next, q)

/-! ## Revocation -/

/-- The first pending entry of a user, with its basis key. -/
def findPending (desc : SuiteDesc β) (core : QspgsCore β) (ek uid : Bytes β) :
    List (QspgsMember β) → Except GyErr (Option (Bytes β))
  | [] => .ok none
  | m :: rest => do
    let t ← gyQspgsMemberCtOpen desc core.aeadId ek core.gid m.mct
    if t.pending ∧ t.uid = uid then return some t.key else findPending desc core ek uid rest

/-- Whether a queue entry is an acceptance of a user under an invite key. -/
def acceptanceOf (desc : SuiteDesc β) (isk : JoinSk β) (uid ct : Bytes β) : Bool :=
  match gyQspgsInviteOpen desc isk ct with
  | .ok inv => inv.uid = uid
  | .error _ => false

/-- `gy_custodian_qsgroup_revoke_invitation`: drop the pending entry, rotate the key, and drain
the user's acceptances from the queue. -/
def gyCustodianQsgroupRevokeInvitation [JoinKem β] (c : QsCustodian β) (cur : CoreBundle β)
    (curQueue targetUid : Bytes β) (queueCap : Nat) (caps : CoreCaps) :
    QsC β (NextCore β × Bytes β) :=
  if targetUid.length ≠ qspgsUidLen then Cmd.fail .arg
  else do
    let e ← editBegin c cur
    match ← Cmd.lift (findPending c.desc e.cur.core e.cur.sub.ek targetUid e.cur.core.members) with
    | none => Cmd.fail .notFound
    | some gkPrime => do
      -- the entry is removed, and the queue loses what answers to its key
      let next ← rebuildAndEmit c e (some targetUid) caps
      let (_, isk) ← Cmd.lift (gyQspgsJoinDerive c.desc gkPrime)
      let ents ← Cmd.lift (gyQspgsInviteQueueDecode c.desc curQueue)
      let q ← Cmd.lift (gyQspgsInviteQueueEncode c.desc
        (ents.filter fun ct => !acceptanceOf c.desc isk targetUid ct) queueCap)
      return (next, q)

/-! ## Creating and joining -/

/-- `provision_user`: the caller's master key and base pair, minted on first use. -/
def provisionUser [KrKeygen β] (c : QsCustodian β) : QsC β (Bytes β × Bytes β × Bytes β) :=
  if gyQspgsMasterKeyLen c.desc = 0 then Cmd.fail .unsupported
  else do
    -- each of the two long-term keys is made once and loaded from then on
    let rc ← Cmd.attempt (onStore (gyQspgsMukLoad c.desc c.selfUid qspgsMasterKeyMax))
    let muk ← match rc with
      | .ok muk => pure muk
      | .error .notFound => do
        let muk ← gyRandomBytes (gyQspgsMasterKeyLen c.desc)
        onStore (gyQspgsMukStore c.desc c.selfUid muk)
        pure muk
      | .error e => Cmd.fail e
    let rc ← Cmd.attempt (onStore (gyQspgsBaseKeyLoad c.desc c.selfUid))
    let (skb, vkb) ← match rc with
      | .ok p => pure p
      | .error .notFound => do
        let coins ← gyRandomBytes 32
        let (vkb, skb) ← Cmd.lift (KrKeygen.keygenBase c.desc coins)
        onStore (gyQspgsBaseKeyStore c.desc c.selfUid skb vkb)
        pure (skb, vkb)
      | .error e => Cmd.fail e
    return (muk, skb, vkb)

/-- `gy_custodian_qsgroup_create`: a core with the caller as its only member and admin. -/
def gyCustodianQsgroupCreate [KrKeygen β] (c : QsCustodian β) (gid : Bytes β) (ep : UInt64)
    (flags aeadId : UInt8) (attr : Bytes β) (caps : CoreCaps) : QsC β (NextCore β) :=
  if qsgroupAttrMax < attr.length then Cmd.fail .toolong
  else if ¬gyQspgsGroupAeadOk aeadId then Cmd.fail .arg
  else do
    Cmd.lift (qsgroupGuard c)
    if c.selfUid.length ≠ qspgsUidLen then Cmd.fail .state
    else do
      -- the founder is the only member, and an admin
      let (muk, skb, vkb) ← provisionUser c
      let uk ← Cmd.lift (gyQspgsDeriveUk c.desc muk ep)
      let gk ← gyQspgsGroupKeyGen c.desc
      let mctx ← Cmd.lift (gyQspgsMemberCtxOpen c.desc gk skb vkb c.selfUid)
      let fet ← Cmd.lift (gyQspgsDeriveFet c.desc gk)
      let pt ← Cmd.lift (settingsPlaintext flags attr)
      let sa ← gyQspgsFieldSeal c.desc aeadId mctx.sub.ek .header gid pt (1 + qsgroupAttrMax + 64)
      let (m, h) ← gyQspgsMemberBuild c.desc aeadId mctx.sub gid c.selfUid uk vkb true
      let core : QspgsCore β := ⟨gid, qspgsFormatVersion, aeadId, 1, sa, [], [m], [h], 0⟩
      let hs ← Cmd.lift (gyQspgsHeaderEncode c.desc core (256 + qsgroupAttrMax))
      let ms ← Cmd.lift (gyQspgsMemberListEncode c.desc core 512)
      let vs ← Cmd.lift (gyQspgsVkLstEncode c.desc core 256)
      let ss ← gyQspgsCoreSign c.desc core 0 mctx 8192 (2048 + qsgroupAttrMax)
      if caps.hdr < hs.length ∨ caps.memberList < ms.length ∨ caps.vkLst < vs.length ∨
          caps.sig < ss.length then Cmd.fail .toolong
      else do
        -- the key is stored last, once the bundle is made and known to fit
        onStore (gyQspgsGroupKeyStore c.desc gid gk)
        return ⟨⟨hs, ms, vs, ss⟩, fet, false⟩

/-- `gy_custodian_qsgroup_join_via_link`: recover the group key from the join slot, verify the core
against the signer's account, store the key and propose the caller as a member. Returns the
caller's user key and the join line. -/
def gyCustodianQsgroupJoinViaLink [KrKeygen β] (c : QsCustodian β) (cur : CoreBundle β)
    (linkSecret : Bytes β) (ep : UInt64) (signerAcct : Bytes β) (ukCap lineCap : Nat) :
    QsC β (Bytes β × Bytes β) := do
  Cmd.lift (qsgroupGuard c)
  if ukCap < gyQspgsMasterKeyLen c.desc then Cmd.fail .toolong
  else do
    let core ← Cmd.lift (gyQspgsHeaderDecode c.desc QspgsCore.zero cur.hdr)
    let core ← Cmd.lift (gyQspgsMemberListDecode c.desc core cur.memberList)
    -- the group has no link
    if core.joinCt.length = 0 then Cmd.fail .verify
    else do
      let (gk, _) ← Cmd.lift
        (gyQspgsJoinlinkOpen c.desc core.aeadId linkSecret core.gid core.joinCt)
      let core ← Cmd.lift (gyQspgsVkLstDecode c.desc core cur.vkLst)
      let s ← Cmd.lift (gyQspgsCoreSigDecode c.desc cur.sig)
      match core.members[s.signerIndex.toNat]? with
      | none => Cmd.fail .verify
      | some m => do
        let core := { core with lastVmin := s.lastVmin }
        let sub ← Cmd.lift (gyQspgsDeriveSubKey c.desc gk)
        let v ← Cmd.lift (gyQspgsMemberDecrypt c.desc core.aeadId sub.ek core.gid m)
        -- a newcomer knows nobody: the signer's account comes with the link
        let a ← Cmd.lift (gyQspgsAcctDecode c.desc (some signerAcct))
        Cmd.lift (gyQspgsCoreResolveVerify c.desc core s.signerIndex sub.rrs a.vkb v.uid s.sig
          (cur.hdr.length + cur.memberList.length + cur.vkLst.length + 64))
        -- from here on the newcomer is able to read the group
        onStore (gyQspgsGroupKeyStore c.desc core.gid gk)
        let (muk, skb, vkb) ← provisionUser c
        let uk ← Cmd.lift (gyQspgsDeriveUk c.desc muk ep)
        let mctx ← Cmd.lift (gyQspgsMemberCtxOpen c.desc gk skb vkb c.selfUid)
        let rcOpen ← gyRandomBytes qspgsRcLen
        let cuid ← Cmd.lift (gyQspgsCuidCommit c.desc c.selfUid rcOpen)
        let ct ← memberCtSealForm c.desc core.aeadId mctx.sub.ek core.gid
          ⟨false, c.selfUid, rcOpen, uk⟩
          (qspgsMemberPtMax + gyQspgsFieldOverhead core.aeadId + 16)
        let line ← frameLine c.desc mctx core.gid core.vmaj 0 .join
          (UInt32.ofNat core.members.length) (cuid ++ ct) lineCap
        return (uk, line)

/-! ## Appendix operations -/

/-- What an appendix operation starts from. -/
structure LineCtx (β : Type) where
  cur : CurrentCore β
  mctx : MemberCtx β
  selfIdx : UInt32

/-- `appendix_prepare`. -/
def appendixPrepare (c : QsCustodian β) (cur : CoreBundle β) : QsC β (LineCtx β) := do
  Cmd.lift (qsgroupGuard c)
  let cc ← openCurrent c cur
  let selfIdx ← Cmd.lift (findSelfIndex c cc.core cc.sub.ek)
  let (skb, vkb) ← onStore (gyQspgsBaseKeyLoad c.desc c.selfUid)
  let mctx ← Cmd.lift (gyQspgsMemberCtxOpen c.desc cc.gk skb vkb c.selfUid)
  return ⟨cc, mctx, selfIdx⟩

/-- `gy_custodian_qsgroup_appendix_leave`. -/
def gyCustodianQsgroupAppendixLeave (c : QsCustodian β) (cur : CoreBundle β) (vmin : UInt32)
    (lineCap : Nat) : QsC β (Bytes β) := do
  let l ← appendixPrepare c cur
  frameLine c.desc l.mctx l.cur.core.gid l.cur.core.vmaj vmin .leave l.selfIdx [] lineCap

/-- `gy_custodian_qsgroup_appendix_refresh`. -/
def gyCustodianQsgroupAppendixRefresh (c : QsCustodian β) (cur : CoreBundle β) (vmin : UInt32)
    (ep : UInt64) (lineCap : Nat) : QsC β (Bytes β) := do
  let l ← appendixPrepare c cur
  let muk ← onStore (gyQspgsMukLoad c.desc c.selfUid qspgsMasterKeyMax)
  let uk ← Cmd.lift (gyQspgsDeriveUk c.desc muk ep)
  let payload ← gyQspgsFieldSeal c.desc l.cur.core.aeadId l.mctx.sub.ek .uk l.cur.core.gid uk 512
  frameLine c.desc l.mctx l.cur.core.gid l.cur.core.vmaj vmin .refresh l.selfIdx payload lineCap

/-- `gy_custodian_qsgroup_appendix_mod_attr`. -/
def gyCustodianQsgroupAppendixModAttr (c : QsCustodian β) (cur : CoreBundle β) (vmin : UInt32)
    (attr : Bytes β) (lineCap : Nat) : QsC β (Bytes β) := do
  let l ← appendixPrepare c cur
  let payload ← gyQspgsFieldSeal c.desc l.cur.core.aeadId l.mctx.sub.ek .attr l.cur.core.gid attr
    (attr.length + gyQspgsFieldOverhead l.cur.core.aeadId + 16)
  frameLine c.desc l.mctx l.cur.core.gid l.cur.core.vmaj vmin .modAttr l.selfIdx payload lineCap

/-- `gy_custodian_qsgroup_appendix_add_user`: the line and the newcomer's key hash. -/
def gyCustodianQsgroupAppendixAddUser (c : QsCustodian β) (cur : CoreBundle β) (vmin : UInt32)
    (newUid newUk : Bytes β) (lineCap hashCap : Nat) : QsC β (Bytes β × Bytes β) := do
  let l ← appendixPrepare c cur
  if newUid.length ≠ qspgsUidLen ∨ newUk.length ≠ gyQspgsMasterKeyLen c.desc then Cmd.fail .arg
  else do
    let a ← onStore (gyQspgsAcquaintanceLoad c.desc newUid)
    let vkhash ← Cmd.lift (gyQspgsAttributeHash c.desc l.mctx.sub.rrs a.vkb newUid)
    let rcOpen ← gyRandomBytes qspgsRcLen
    let cuid ← Cmd.lift (gyQspgsCuidCommit c.desc newUid rcOpen)
    let ct ← memberCtSealForm c.desc l.cur.core.aeadId l.mctx.sub.ek l.cur.core.gid
      ⟨false, newUid, rcOpen, newUk⟩
      (qspgsMemberPtMax + gyQspgsFieldOverhead l.cur.core.aeadId + 16)
    let line ← frameLine c.desc l.mctx l.cur.core.gid l.cur.core.vmaj vmin .addUser l.selfIdx
      (cuid ++ ct) lineCap
    if hashCap < c.desc.hashLen then Cmd.fail .toolong else return (line, vkhash)

end Geryon
