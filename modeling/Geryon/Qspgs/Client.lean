import Geryon.Qspgs.Lines

/-!
# Reading a group

The client side of `qspgs_facade_client.c` up to and including `gy_custodian_qsgroup_fetch`: how a
member's base key is resolved, which appendix lines are valid, which invitations are settled and
which user keys are attested, and the fetch that puts these together.

Size queries, which call with `NULL` buffers and compute nothing else, and failing allocations are
left out.
-/

namespace Geryon

/-- What the group layer reads of a custodian. -/
structure QsCustodian (β : Type) where
  unlocked : Bool
  desc : SuiteDesc β
  selfUid : Bytes β

/-- `GY_QSGROUP_ATTR_MAX`. -/
def qsgroupAttrMax : Nat := 1024

/-- `qsgroup_guard`. -/
def qsgroupGuard {β : Type} (c : QsCustodian β) : Except GyErr Unit :=
  if ¬c.unlocked then .error .state
  else if ¬c.desc.isHybrid then .error .unsupported
  else .ok ()

variable {β : Type} [Octet β] [DecidableEq β] [KrMlDsa β]

/-- Run a check whose failure with one code is a negative answer and whose other failures are
errors. -/
def unlessFails {α : Type} (code : GyErr) (x : QsC β α) (k : α → QsC β Bool) : QsC β Bool := do
  match ← Cmd.attempt x with
  | .ok a => k a
  | .error e => if e = code then return false else Cmd.fail e

/-! ## Base keys -/

/-- `resolve_member_vkb`: the caller's own base key, an accepted acquaintance's, or the one in a
supplied account. -/
def resolveMemberVkb (c : QsCustodian β) (uid : Bytes β) (accts : List (AcctRef β)) :
    QsC β (Bytes β) :=
  if uid = c.selfUid then do
    let (_, vkb) ← onStore (gyQspgsBaseKeyLoad c.desc uid)
    return vkb
  else do
    match ← Cmd.attempt (onStore (gyQspgsAcquaintanceLoad c.desc uid)) with
    | .ok a => return a.vkb
    | .error .notFound =>
      match accts.find? fun r => r.uid = uid with
      | none => Cmd.fail .notFound
      | some r => do
        let a ← Cmd.lift (gyQspgsAcctDecode c.desc r.acct)
        return a.vkb
    | .error e => Cmd.fail e

section

variable [Sodium β]

/-- One pass of `check_vklst_recompute`. -/
def checkVkEntry (c : QsCustodian β) (core : QspgsCore β) (sub : SubKey β)
    (accts : List (AcctRef β)) (p : QspgsMember β × Bytes β) : QsC β Unit := do
  let v ← Cmd.lift (gyQspgsMemberDecrypt c.desc core.aeadId sub.ek core.gid p.1)
  let vkb ← resolveMemberVkb c v.uid accts
  let h ← Cmd.lift (gyQspgsAttributeHash c.desc sub.rrs vkb v.uid)
  if h ≠ p.2 then Cmd.fail .verify else return ()

/-- `check_vklst_recompute`: every member's key hash is the one in the list. -/
def checkVklstRecompute (c : QsCustodian β) (core : QspgsCore β) (sub : SubKey β)
    (accts : List (AcctRef β)) : QsC β Unit :=
  if core.vkhash.length ≠ core.members.length then Cmd.fail .verify
  else (core.members.zip core.vkhash).forM (checkVkEntry c core sub accts)

/-! ## Appendix lines -/

/-- The settings bits of the sealed header field. -/
structure Settings where
  /-- `GY_QSGROUP_SETTING_ADD`: members may add users. -/
  add : Bool
  /-- `GY_QSGROUP_SETTING_ATTR`: members may change the attributes. -/
  attr : Bool
  /-- `GY_QSGROUP_SETTING_ADM`: joins need an admin's approval. -/
  adm : Bool
  deriving DecidableEq

/-- The bits of a settings byte. -/
def Settings.ofByte (b : Nat) : Settings := ⟨b % 2 = 1, b / 2 % 2 = 1, b / 4 % 2 = 1⟩

/-- Whether the commitment at the front of a newcomer line opens to the sealed tuple. -/
def commitmentOpens (desc : SuiteDesc β) (t : MemberTuple β) (payload : Bytes β) : QsC β Bool := do
  let cuid ← Cmd.lift (gyQspgsCuidCommit desc t.uid t.rcOpen)
  return decide (cuid = payload.take desc.hashLen)

/-- The sealed tuple of a newcomer line. -/
def newcomerOpen (desc : SuiteDesc β) (core : QspgsCore β) (ek : Bytes β) (line : ApxLine β) :
    Except GyErr (MemberTuple β) :=
  gyQspgsMemberCtOpen desc core.aeadId ek core.gid (line.payload.drop desc.hashLen)

/-- The payload check of `check_apx_line` for a line whose author and signature are established. -/
def checkApxPayload (c : QsCustodian β) (core : QspgsCore β) (sub : SubKey β) (line : ApxLine β)
    (set : Settings) : QsC β Bool :=
  match line.lineType with
  | .leave => return true
  | .refresh =>
    unlessFails .verify
      (Cmd.lift (gyQspgsFieldOpen c.desc core.aeadId sub.ek .uk core.gid line.payload
        qsgroupAttrMax))
      fun pt => return decide (pt.length = gyQspgsMasterKeyLen c.desc)
  | .modAttr =>
    if ¬set.attr then return false
    else
      unlessFails .verify
        (Cmd.lift (gyQspgsFieldOpen c.desc core.aeadId sub.ek .attr core.gid line.payload
          qsgroupAttrMax))
        fun _ => return true
  | .addUser =>
    if ¬set.add then return false
    else if line.payload.length ≤ c.desc.hashLen then return false
    else
      unlessFails .verify (Cmd.lift (newcomerOpen c.desc core sub.ek line)) fun t =>
        commitmentOpens c.desc t line.payload
  -- a join is not authored by a member
  | .join => return false

/-- `check_apx_line`: whether a line is to be applied. `cap` is the scratch buffer. -/
def checkApxLine (c : QsCustodian β) (core : QspgsCore β) (sub : SubKey β) (vmaj vmin : UInt32)
    (line : ApxLine β) (set : Settings) (accts : List (AcctRef β)) (cap : Nat) : QsC β Bool :=
  if line.lineType = .join then
    if core.joinCt.length = 0 then return false
    else if line.payload.length ≤ c.desc.hashLen then return false
    else
      unlessFails .verify (Cmd.lift (newcomerOpen c.desc core sub.ek line)) fun t =>
      unlessFails .notFound (resolveMemberVkb c t.uid accts) fun vkb =>
      unlessFails .verify
        (Cmd.lift (gyQspgsApxLineResolveVerify c.desc core.gid vmaj vmin line sub.rrs vkb t.uid
          none cap))
        fun _ => commitmentOpens c.desc t line.payload
  else
    match core.members[line.authorIndex.toNat]? with
    | none => return false
    | some m => do
      let av ← Cmd.lift (gyQspgsMemberDecrypt c.desc core.aeadId sub.ek core.gid m)
      unlessFails .notFound (resolveMemberVkb c av.uid accts) fun vkb =>
        unlessFails .verify
          (Cmd.lift (gyQspgsApxLineResolveVerify c.desc core.gid vmaj vmin line sub.rrs vkb av.uid
            (some (core.vkhash[line.authorIndex.toNat]?.getD [])) cap))
          fun _ => checkApxPayload c core sub line set

/-! ## Invitations and user keys -/

/-- The inner loop of `settle_one`: the first account of the user with both identity keys decides
whether an acceptance is genuine. -/
def inviteGenuine (desc : SuiteDesc β) (gid : Bytes β) (accts : List (AcctRef β))
    (inv : Invite β) : Bool :=
  match accts.findSome? fun r =>
      if r.uid = inv.uid then
        match r.curvePk, r.mldsaPk with
        | some curvePk, some mldsaPk => some (curvePk, mldsaPk)
        | _, _ => none
      else none with
  | none => false
  | some (curvePk, mldsaPk) =>
    match gyQspgsInviteVerify desc gid curvePk mldsaPk inv with
    | .ok () => true
    | .error _ => false

/-- The outer loop of `settle_one`: the first genuine acceptance of the user, with its position. -/
def settleLoop (desc : SuiteDesc β) (isk : JoinSk β) (gid : Bytes β) (accts : List (AcctRef β))
    (uid : Bytes β) : Nat → List (Bytes β) → Option (Bytes β × Nat)
  | _, [] => none
  | e, ct :: rest =>
    match gyQspgsInviteOpen desc isk ct with
    | .error _ => settleLoop desc isk gid accts uid (e + 1) rest
    | .ok inv =>
      if inv.uid = uid ∧ inviteGenuine desc gid accts inv then some (inv.uk, e)
      else settleLoop desc isk gid accts uid (e + 1) rest

/-- `settle_one`: the accepted user key of a pending member and the entry it came in. -/
def settleOne [JoinKem β] (desc : SuiteDesc β) (gkPrime gid : Bytes β) (entries : List (Bytes β))
    (accts : List (AcctRef β)) (uid : Bytes β) : Except GyErr (Option (Bytes β × Nat)) := do
  let (_, isk) ← gyQspgsJoinDerive desc gkPrime
  return settleLoop desc isk gid accts uid 0 entries

/-- `check_user_key`: the caller's own key, one attested at acquaintance, or one whose tag a
supplied account signs. -/
def checkUserKey (c : QsCustodian β) (uid uk : Bytes β) (accts : List (AcctRef β)) :
    QsC β Unit :=
  if uk.length ≠ gyQspgsMasterKeyLen c.desc then Cmd.fail .verify
  else if uid = c.selfUid then return ()
  else do
    let rc ← Cmd.attempt (onStore (gyQspgsAcquaintanceLoad c.desc uid))
    let known ← Cmd.lift (match rc with
      | .ok a => .ok (decide (a.uk = uk))
      | .error .notFound => .ok false
      | .error e => .error e)
    if known then return ()
    else
      match accts.find? fun r => r.uid = uid with
      | none => Cmd.fail .verify
      | some r =>
        match r.curvePk, r.mldsaPk with
        | some curvePk, some mldsaPk => do
          let a ← Cmd.lift (gyQspgsAcctVerify c.desc curvePk mldsaPk r.acct)
          let acq ← Cmd.lift (gyQspgsDeriveAcq c.desc uk)
          if acq = a.acq then return () else Cmd.fail .verify
        | _, _ => Cmd.fail .verify

/-! ## Fetch -/

/-- A member as a fetch reports it (`struct gy_qsgroup_member_view`); the user key of a pending
member is empty. -/
structure RosterView (β : Type) where
  uid : Bytes β
  admn : Bool
  uk : Bytes β
  deriving DecidableEq

/-- What the caller retained of its last fetch. Without members it is no view. -/
structure PriorView (β : Type) where
  vmaj : UInt32
  vmin : UInt32
  apxLineCount : UInt32
  members : List (RosterView β)

/-- The report on one appendix line (`struct gy_qsgroup_apx_report`). -/
structure ApxReport where
  lineType : ApxKind
  authorIndex : UInt32
  valid : Bool
  pendingApproval : Bool
  deriving DecidableEq

/-- What the server answers: the four objects of the core, the appendix and the invite queue. -/
structure GroupAnswer (β : Type) where
  hdr : Bytes β
  memberList : Bytes β
  vkLst : Bytes β
  sig : Bytes β
  apx : Bytes β
  inviteQueue : Bytes β

/-- The output buffers of a fetch; `none` is not asked for. -/
structure FetchCaps where
  max : Nat
  reports : Option Nat
  attr : Option Nat

/-- What a fetch reports. -/
structure FetchResult (β : Type) where
  members : List (RosterView β)
  reports : List ApxReport
  attr : Bytes β

/-- An entry of the working set of a fetch. -/
structure FetchWork (β : Type) where
  view : RosterView β
  /-- Whether the core has the entry pending. -/
  pending0 : Bool
  gkPrime : Bytes β
  removed : Bool

/-- Decode an appendix and require it to belong to the core. -/
def apxOfCore (desc : SuiteDesc β) (core : QspgsCore β) (apx : Bytes β) :
    Except GyErr (Appendix β) :=
  if apx.length = 0 then .ok ⟨zeros qspgsGidLen, 0, 0, []⟩
  else do
    let a ← gyQspgsAppendixDecode desc apx
    if a.vmaj ≠ core.vmaj ∨ a.gid ≠ core.gid then .error .verify else .ok a

/-- The version and signer checks of a fetch against the caller's prior view. -/
def lineageCheck (core : QspgsCore β) (signerUid : Bytes β) (signerAdmn : Bool)
    (prior : PriorView β) : Except GyErr Unit :=
  if ¬signerAdmn then .error .verify
  else if prior.members = [] then .ok ()
  else if core.vmaj < prior.vmaj ∨ (core.vmaj = prior.vmaj ∧ core.lastVmin < prior.vmin) then
    .error .state
  else if prior.vmaj + 1 < core.vmaj then .error .state
  else if core.vmaj = prior.vmaj + 1 then
    if core.lastVmin ≠ prior.apxLineCount then .error .state
    else if prior.members.any fun m => m.admn && decide (m.uid = signerUid) then .ok ()
    else .error .verify
  else .ok ()

/-- A core that passed the checks of a fetch, with the appendix that came with it. -/
structure OpenedCore (β : Type) where
  core : QspgsCore β
  apx : Appendix β
  sig : CoreSig β
  signer : MemberView β
  sub : SubKey β

/-- The first half of `gy_custodian_qsgroup_fetch`: decode the objects, verify the core signature
and the lineage, and recompute the key list. -/
def fetchOpen (c : QsCustodian β) (ans : GroupAnswer β) (prior : PriorView β)
    (accts : List (AcctRef β)) (caps : FetchCaps) : QsC β (OpenedCore β) := do
  Cmd.lift (qsgroupGuard c)
  let core ← Cmd.lift (decodeCore c.desc ans.hdr ans.memberList ans.vkLst)
  let apx ← Cmd.lift (apxOfCore c.desc core ans.apx)
  if (caps.reports.any fun cap => cap < apx.lines.length) then Cmd.fail .toolong
  else do
    let s ← Cmd.lift (gyQspgsCoreSigDecode c.desc ans.sig)
    let core := { core with lastVmin := s.lastVmin }
    match core.members[s.signerIndex.toNat]? with
    | none => Cmd.fail .arg
    | some m => do
      let gk ← onStore (gyQspgsGroupKeyLoad c.desc core.gid qspgsMasterKeyMax)
      let sub ← Cmd.lift (gyQspgsDeriveSubKey c.desc gk)
      let v ← Cmd.lift (gyQspgsMemberDecrypt c.desc core.aeadId sub.ek core.gid m)
      let vkb ← resolveMemberVkb c v.uid accts
      Cmd.lift (gyQspgsCoreResolveVerify c.desc core s.signerIndex sub.rrs vkb v.uid s.sig
        (ans.hdr.length + ans.memberList.length + ans.vkLst.length + 64))
      Cmd.lift (lineageCheck core v.uid m.admn prior)
      checkVklstRecompute c core sub accts
      return ⟨core, apx, s, v, sub⟩

/-- The working entry of a core entry. -/
def FetchWork.ofView (v : MemberView β) : FetchWork β :=
  if v.pending then ⟨⟨v.uid, v.admn, []⟩, true, v.uk, false⟩
  else ⟨⟨v.uid, v.admn, v.uk⟩, false, [], false⟩

/-- The settings and the attributes of the sealed header field. -/
def openHeaderField (desc : SuiteDesc β) (core : QspgsCore β) (ek : Bytes β) :
    Except GyErr (Bytes β) := do
  let pt ← gyQspgsFieldOpen desc core.aeadId ek .header core.gid core.saCt (1 + qsgroupAttrMax)
  if pt.length < 1 then .error .verify else .ok pt

/-- Check one line; a valid join that needs approval is held back. -/
def fetchCheckLine (c : QsCustodian β) (o : OpenedCore β) (set : Settings)
    (accts : List (AcctRef β)) (cap : Nat) (line : ApxLine β) : QsC β (ApxLine β × ApxReport) := do
  let valid ← checkApxLine c o.core o.sub o.apx.vmaj o.apx.vmin line set accts cap
  let held := valid && decide (line.lineType = .join) && set.adm
  return (line, ⟨line.lineType, line.authorIndex, valid && !held, held⟩)

/-- Pass 1: a valid newcomer line appends a member. -/
def fetchAppend (desc : SuiteDesc β) (core : QspgsCore β) (ek : Bytes β)
    (work : List (FetchWork β)) (line : ApxLine β) : Except GyErr (List (FetchWork β)) :=
  if line.lineType = .addUser ∨ line.lineType = .join then
    if qspgsMaxEntries ≤ work.length then .error .toolong
    else do
      let t ← newcomerOpen desc core ek line
      return work ++ [⟨⟨t.uid, false, t.key⟩, false, [], false⟩]
  else .ok work

/-- Pass 2: a valid refresh line replaces its author's user key. -/
def fetchRefresh (desc : SuiteDesc β) (core : QspgsCore β) (ek : Bytes β) (n : Nat)
    (work : List (FetchWork β)) (line : ApxLine β) : Except GyErr (List (FetchWork β)) :=
  let j := line.authorIndex.toNat
  if line.lineType = .refresh ∧ j < n ∧ ¬(work[j]?.any FetchWork.removed) then do
    let uk ← gyQspgsFieldOpen desc core.aeadId ek .uk core.gid line.payload qspgsMasterKeyMax
    return work.modify j fun w => { w with view := { w.view with uk := uk } }
  else .ok work

/-- Pass 3: a valid attribute line replaces the attributes. -/
def applyAttr (desc : SuiteDesc β) (core : QspgsCore β) (ek : Bytes β) (attr : Bytes β)
    (line : ApxLine β) : Except GyErr (Bytes β) :=
  if line.lineType = .modAttr then
    gyQspgsFieldOpen desc core.aeadId ek .attr core.gid line.payload qsgroupAttrMax
  else .ok attr

/-- Pass 4: a valid leave line removes its author. -/
def fetchLeave (n : Nat) (work : List (FetchWork β)) (line : ApxLine β) : List (FetchWork β) :=
  let j := line.authorIndex.toNat
  if line.lineType = .leave ∧ j < n then work.modify j fun w => { w with removed := true }
  else work

/-- Settle one entry of the working set against the invite queue. -/
def fetchSettle [JoinKem β] (desc : SuiteDesc β) (gid : Bytes β) (entries : List (Bytes β))
    (accts : List (AcctRef β)) (w : FetchWork β) : Except GyErr (FetchWork β) :=
  if w.pending0 then do
    match ← settleOne desc w.gkPrime gid entries accts w.view.uid with
    | some (uk, _) => return { w with view := { w.view with uk := uk } }
    | none => return w
  else .ok w

/-- The last user-key check of a fetch: removed and invited entries are passed over. -/
def fetchUserKey (c : QsCustodian β) (accts : List (AcctRef β)) (w : FetchWork β) : QsC β Unit :=
  if w.removed ∨ w.pending0 ∨ w.view.uk.length ≠ gyQspgsMasterKeyLen c.desc then return ()
  else checkUserKey c w.view.uid w.view.uk accts

/-- Settle the pending entries of the working set against the invite queue, if there is one. -/
def fetchQueue [JoinKem β] (desc : SuiteDesc β) (gid queue : Bytes β) (accts : List (AcctRef β))
    (work : List (FetchWork β)) : Except GyErr (List (FetchWork β)) :=
  if queue.length = 0 then .ok work
  else do
    let entries ← gyQspgsInviteQueueDecode desc queue
    work.mapM' (fetchSettle desc gid entries accts)

/-- The passes over the valid lines, in the order of the kinds, and over the invite queue: the
working set and the attributes. -/
def fetchApply [JoinKem β] (desc : SuiteDesc β) (core : QspgsCore β) (ek queue : Bytes β)
    (accts : List (AcctRef β)) (views : List (MemberView β)) (attr : Bytes β)
    (valid : List (ApxLine β)) : Except GyErr (List (FetchWork β) × Bytes β) := do
  let n := core.members.length
  let work ← valid.foldlM (fetchAppend desc core ek) (views.map FetchWork.ofView)
  let work ← valid.foldlM (fetchRefresh desc core ek n) work
  let attr ← valid.foldlM (applyAttr desc core ek) attr
  let work ← fetchQueue desc core.gid queue accts (valid.foldl (fetchLeave n) work)
  return (work, attr)

/-- The second half of `gy_custodian_qsgroup_fetch`: apply the appendix and the invite queue to the
roster of the core. -/
def fetchFold [JoinKem β] (c : QsCustodian β) (ans : GroupAnswer β) (accts : List (AcctRef β))
    (caps : FetchCaps) (o : OpenedCore β) : QsC β (FetchResult β) := do
  let views ← Cmd.lift
    (o.core.members.mapM' (gyQspgsMemberDecrypt c.desc o.core.aeadId o.sub.ek o.core.gid))
  let hdrpt ← Cmd.lift (openHeaderField c.desc o.core o.sub.ek)
  let checked ← o.apx.lines.mapM'
    (fetchCheckLine c o (Settings.ofByte (byteAt hdrpt 0)) accts (ans.apx.length + 128))
  let valid := (checked.filter fun p => p.2.valid).map Prod.fst
  let (work, attr) ← Cmd.lift
    (fetchApply c.desc o.core o.sub.ek ans.inviteQueue accts views (hdrpt.drop 1) valid)
  work.forM (fetchUserKey c accts)
  let out := (work.filter fun w => !w.removed).map FetchWork.view
  if caps.max < out.length then Cmd.fail .toolong
  else if (caps.attr.any fun cap => cap < attr.length) then Cmd.fail .toolong
  else return ⟨out, checked.map Prod.snd, attr⟩

/-- `gy_custodian_qsgroup_fetch`. -/
def gyCustodianQsgroupFetch [JoinKem β] (c : QsCustodian β) (ans : GroupAnswer β)
    (prior : PriorView β) (accts : List (AcctRef β)) (caps : FetchCaps) :
    QsC β (OpenedCore β × FetchResult β) := do
  let o ← fetchOpen c ans prior accts caps
  let r ← fetchFold c ans accts caps o
  return (o, r)

end

end Geryon
