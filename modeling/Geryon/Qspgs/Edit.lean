import Geryon.Qspgs.Client

/-!
# Editing a group

The admin edits and the appendix operations of `qspgs_facade_client.c`. An edit opens the current
core, changes it and signs the next one; an edit that rotates the group key stages the new key, for
the caller to commit once the server has accepted the core or to roll back.
-/

namespace Geryon

/-- The four objects of a core (`struct gy_qsgroup_core`). -/
structure CoreBundle (β : Type) where
  hdr : Bytes β
  memberList : Bytes β
  vkLst : Bytes β
  sig : Bytes β
  deriving DecidableEq

/-- The sizes of the buffers a next core is written to. -/
structure CoreCaps where
  hdr : Nat
  memberList : Nat
  vkLst : Nat
  sig : Nat

/-- The next core an edit emits, with the fetch token that goes to the server beside it. The flag
is `GY_QSGROUP_JOIN_LINK_DROPPED`. -/
structure NextCore (β : Type) where
  bundle : CoreBundle β
  fet : Bytes β
  linkDropped : Bool

/-- Key generation of KR-ML-DSA from coins: base verification key and base secret key. -/
class KrKeygen (β : Type) where
  keygenBase : SuiteDesc β → Bytes β → Except GyErr (Bytes β × Bytes β)

variable {β : Type} [Octet β] [DecidableEq β] [KrMlDsa β] [Sodium β]

/-! ## Opening the current core -/

/-- A verified current core with the keys of its group. -/
structure CurrentCore (β : Type) where
  core : QspgsCore β
  sig : CoreSig β
  gk : Bytes β
  sub : SubKey β

/-- `open_current`: decode and verify the current core. -/
def openCurrent (c : QsCustodian β) (cur : CoreBundle β) : QsC β (CurrentCore β) := do
  let core ← Cmd.lift (decodeCore c.desc cur.hdr cur.memberList cur.vkLst)
  let s ← Cmd.lift (gyQspgsCoreSigDecode c.desc cur.sig)
  let core := { core with lastVmin := s.lastVmin }
  match core.members[s.signerIndex.toNat]? with
  | none => Cmd.fail .arg
  | some m => do
    let gk ← onStore (gyQspgsGroupKeyLoad c.desc core.gid qspgsMasterKeyMax)
    let sub ← Cmd.lift (gyQspgsDeriveSubKey c.desc gk)
    let v ← Cmd.lift (gyQspgsMemberDecrypt c.desc core.aeadId sub.ek core.gid m)
    -- the signer's key out of the acquaintances; the admin flag is not looked at
    let vkb ← resolveMemberVkb c v.uid []
    Cmd.lift (gyQspgsCoreResolveVerify c.desc core s.signerIndex sub.rrs vkb v.uid s.sig
      (cur.hdr.length + cur.memberList.length + cur.vkLst.length + 64))
    return ⟨core, s, gk, sub⟩

/-- The first entry of the member list that a user has, with its position. -/
def findMember (desc : SuiteDesc β) (core : QspgsCore β) (ek uid : Bytes β) :
    Nat → List (QspgsMember β) → Except GyErr (Option (Nat × MemberView β))
  | _, [] => .ok none
  | i, m :: rest => do
    let v ← gyQspgsMemberDecrypt desc core.aeadId ek core.gid m
    if v.uid = uid then return some (i, v) else findMember desc core ek uid (i + 1) rest

/-- `self_admin_index`. -/
def selfAdminIndex (c : QsCustodian β) (core : QspgsCore β) (ek : Bytes β) :
    Except GyErr UInt32 := do
  match ← findMember c.desc core ek c.selfUid 0 core.members with
  | none => .error .state
  | some (i, v) => if v.admn then .ok (UInt32.ofNat i) else .error .state

/-- `find_self_index`. -/
def findSelfIndex (c : QsCustodian β) (core : QspgsCore β) (ek : Bytes β) :
    Except GyErr UInt32 := do
  match ← findMember c.desc core ek c.selfUid 0 core.members with
  | none => .error .state
  | some (i, _) => .ok (UInt32.ofNat i)

/-- What an edit starts from. -/
structure EditCtx (β : Type) where
  cur : CurrentCore β
  selfIdx : UInt32
  skb : Bytes β
  vkb : Bytes β

/-- `edit_begin`. -/
def editBegin (c : QsCustodian β) (cur : CoreBundle β) : QsC β (EditCtx β) := do
  Cmd.lift (qsgroupGuard c)
  let cc ← openCurrent c cur
  let selfIdx ← Cmd.lift (selfAdminIndex c cc.core cc.sub.ek)
  let (skb, vkb) ← onStore (gyQspgsBaseKeyLoad c.desc c.selfUid)
  return ⟨cc, selfIdx, skb, vkb⟩

/-- `emit_edited`: sign a core under the operative group key and write out its objects. -/
def emitEdited (c : QsCustodian β) (core : QspgsCore β) (gkOp skb vkb : Bytes β)
    (selfIndex : UInt32) (caps : CoreCaps) : QsC β (CoreBundle β × Bytes β) := do
  let n := core.members.length
  -- the scratch sizes of the source
  let hcap := 128 + core.saCt.length + core.joinCt.length
  let mcap := 64 + n * (64 + 3 + 512)
  let vcap := 64 + n * 64
  let mctx ← Cmd.lift (gyQspgsMemberCtxOpen c.desc gkOp skb vkb c.selfUid)
  let hs ← Cmd.lift (gyQspgsHeaderEncode c.desc core hcap)
  let ms ← Cmd.lift (gyQspgsMemberListEncode c.desc core mcap)
  let vs ← Cmd.lift (gyQspgsVkLstEncode c.desc core vcap)
  let ss ← gyQspgsCoreSign c.desc core selfIndex mctx 8192 (hcap + mcap + vcap + 64)
  if caps.hdr < hs.length ∨ caps.memberList < ms.length ∨ caps.vkLst < vs.length ∨
      caps.sig < ss.length then Cmd.fail .toolong
  else do
    let fet ← Cmd.lift (gyQspgsDeriveFet c.desc gkOp)
    return (⟨hs, ms, vs, ss⟩, fet)

/-- An edit that keeps the group key: one more major version, no folded line. -/
def emitNext (c : QsCustodian β) (e : EditCtx β) (core : QspgsCore β) (caps : CoreCaps) :
    QsC β (NextCore β) := do
  let (bundle, fet) ← emitEdited c { core with vmaj := core.vmaj + 1, lastVmin := 0 } e.cur.gk
    e.skb e.vkb e.selfIdx caps
  return ⟨bundle, fet, false⟩

/-! ## Rotation -/

/-- The survivors of a rebuild: new entries and hashes, the signer's place among them, and whether
the user to remove was there. -/
structure Rebuilt (β : Type) where
  members : List (QspgsMember β)
  vkhash : List (Bytes β)
  self : Option Nat
  target : Bool

/-- One pass of the loop of `rebuild_and_emit`. -/
def rebuildMember (c : QsCustodian β) (core : QspgsCore β) (ek : Bytes β) (newSub : SubKey β)
    (remove : Option (Bytes β)) (r : Rebuilt β) (m : QspgsMember β) : QsC β (Rebuilt β) := do
  let v ← Cmd.lift (gyQspgsMemberDecrypt c.desc core.aeadId ek core.gid m)
  if remove = some v.uid then return { r with target := true }
  else do
    let vkb ← resolveMemberVkb c v.uid []
    let (m', h) ←
      -- an invitation stays one under the new key
      if v.pending then
        gyQspgsMemberBuildPending c.desc core.aeadId newSub core.gid v.uid v.uk vkb
      else gyQspgsMemberBuild c.desc core.aeadId newSub core.gid v.uid v.uk vkb v.admn
    return { r with
      members := r.members ++ [m']
      vkhash := r.vkhash ++ [h]
      self := if v.uid = c.selfUid then some r.members.length else r.self }

/-- The join slot of a rotated core: resealed by a holder of the link secret, else dropped. -/
def resealJoinSlot (c : QsCustodian β) (core : QspgsCore β) (newGk fet : Bytes β) :
    QsC β (Bytes β × Bool) := do
  match ← Cmd.attempt (onStore (gyQspgsJoinlinkSecretLoad core.gid qspgsJoinlinkSecret)) with
  | .ok jls => do
    let slot ← gyQspgsJoinlinkSeal c.desc core.aeadId jls core.gid newGk fet 512
    return (slot, false)
  | .error .notFound => return ([], true)
  | .error e => Cmd.fail e

/-- `gy_qspgs_group_key_gen`. -/
def gyQspgsGroupKeyGen (desc : SuiteDesc β) : QsC β (Bytes β) :=
  if gyQspgsMasterKeyLen desc = 0 then Cmd.fail .arg else gyRandomBytes (gyQspgsMasterKeyLen desc)

/-- `rebuild_and_emit`: rebuild the survivors under a fresh group key, sign, emit and stage the
key. -/
def rebuildAndEmit (c : QsCustodian β) (e : EditCtx β) (remove : Option (Bytes β))
    (caps : CoreCaps) : QsC β (NextCore β) := do
  let core := e.cur.core
  let newGk ← gyQspgsGroupKeyGen c.desc
  let newSub ← Cmd.lift (gyQspgsDeriveSubKey c.desc newGk)
  let r ← core.members.foldlM (rebuildMember c core e.cur.sub.ek newSub remove)
    ⟨[], [], none, false⟩
  -- nobody to remove: nothing is emitted
  if remove.isSome ∧ ¬r.target then Cmd.fail .notFound
  else
    -- an admin who removed himself cannot sign
    match r.self with
    | none => Cmd.fail .state
    | some selfNew => do
      let fet ← Cmd.lift (gyQspgsDeriveFet c.desc newGk)
      let sa ← Cmd.lift (gyQspgsFieldOpen c.desc core.aeadId e.cur.sub.ek .header core.gid
        core.saCt (1 + qsgroupAttrMax))
      let saNew ← gyQspgsFieldSeal c.desc core.aeadId newSub.ek .header core.gid sa
        (1 + qsgroupAttrMax + 64)
      let (slot, dropped) ←
        if core.joinCt.length = 0 then pure ([], false) else resealJoinSlot c core newGk fet
      let (bundle, fet) ← emitEdited c
        { core with
          vmaj := core.vmaj + 1
          saCt := saNew
          joinCt := slot
          members := r.members
          vkhash := r.vkhash
          lastVmin := 0 }
        newGk e.skb e.vkb (UInt32.ofNat selfNew) caps
      -- staged only, until the server has taken the core
      onStore (gyQspgsGroupKeyStage c.desc core.gid newGk)
      return ⟨bundle, fet, dropped⟩

/-! ## Admin edits -/

/-- A core with one more entry. As many hashes are taken over as the core has members; what the
source copies from behind a list that is shorter is not part of the core. -/
def QspgsCore.addEntry {β : Type} (core : QspgsCore β) (m : QspgsMember β) (h : Bytes β) :
    QspgsCore β :=
  { core with
    members := core.members ++ [m]
    vkhash := core.vkhash.take core.members.length ++ [h] }

/-- `gy_custodian_qsgroup_add_member`. -/
def gyCustodianQsgroupAddMember (c : QsCustodian β) (cur : CoreBundle β) (newUid : Bytes β)
    (caps : CoreCaps) : QsC β (NextCore β) := do
  let e ← editBegin c cur
  let core := e.cur.core
  if newUid.length ≠ qspgsUidLen then Cmd.fail .arg
  else if qspgsMaxEntries ≤ core.members.length then Cmd.fail .toolong
  else do
    let a ← onStore (gyQspgsAcquaintanceLoad c.desc newUid)
    let (m, h) ← gyQspgsMemberBuild c.desc core.aeadId e.cur.sub core.gid newUid a.uk a.vkb false
    emitNext c e (core.addEntry m h) caps

/-- `gy_custodian_qsgroup_set_admin`. -/
def gyCustodianQsgroupSetAdmin (c : QsCustodian β) (cur : CoreBundle β) (targetUid : Bytes β)
    (admin : Bool) (caps : CoreCaps) : QsC β (NextCore β) := do
  let e ← editBegin c cur
  let core := e.cur.core
  if targetUid.length ≠ qspgsUidLen then Cmd.fail .arg
  else do
    match ← Cmd.lift (findMember c.desc core e.cur.sub.ek targetUid 0 core.members) with
    | none => Cmd.fail .notFound
    | some (i, _) =>
      -- only the flag changes, the sealed entry stays
      emitNext c e
        { core with members := core.members.modify i fun m => { m with admn := admin } } caps

/-- `gy_custodian_qsgroup_remove_member`: the signer cannot remove itself. -/
def gyCustodianQsgroupRemoveMember (c : QsCustodian β) (cur : CoreBundle β)
    (targetUid : Bytes β) (caps : CoreCaps) : QsC β (NextCore β) := do
  let e ← editBegin c cur
  if targetUid.length ≠ qspgsUidLen then Cmd.fail .arg
  else if targetUid = c.selfUid then Cmd.fail .arg
  else rebuildAndEmit c e (some targetUid) caps

/-- `gy_custodian_qsgroup_rotate_group_key`. -/
def gyCustodianQsgroupRotateGroupKey (c : QsCustodian β) (cur : CoreBundle β) (caps : CoreCaps) :
    QsC β (NextCore β) := do
  let e ← editBegin c cur
  rebuildAndEmit c e none caps

/-- `gy_custodian_qsgroup_invite`: a pending entry with a fresh basis key, which is returned. -/
def gyCustodianQsgroupInvite (c : QsCustodian β) (cur : CoreBundle β) (inviteeUid : Bytes β)
    (acct : Option (AcctRef β)) (gkprimeCap : Nat) (caps : CoreCaps) :
    QsC β (NextCore β × Bytes β) :=
  if inviteeUid.length ≠ qspgsUidLen then Cmd.fail .arg
  else do
    let e ← editBegin c cur
    let core := e.cur.core
    if gkprimeCap < gyQspgsMasterKeyLen c.desc then Cmd.fail .toolong
    else if qspgsMaxEntries ≤ core.members.length then Cmd.fail .toolong
    else do
      let vkb ← resolveMemberVkb c inviteeUid acct.toList
      -- the invitation has a key of its own, which goes to the invitee
      let gkPrime ← gyQspgsGroupKeyGen c.desc
      let (m, h) ← gyQspgsMemberBuildPending c.desc core.aeadId e.cur.sub core.gid inviteeUid
        gkPrime vkb
      let next ← emitNext c e (core.addEntry m h) caps
      return (next, gkPrime)

/-- `gy_custodian_qsgroup_complete_invitation`: settle a pending entry with an accepted key. -/
def gyCustodianQsgroupCompleteInvitation (c : QsCustodian β) (cur : CoreBundle β)
    (inviteeUid inviteeUk : Bytes β) (caps : CoreCaps) : QsC β (NextCore β) :=
  if inviteeUid.length ≠ qspgsUidLen then Cmd.fail .arg
  else do
    let e ← editBegin c cur
    let core := e.cur.core
    if inviteeUk.length ≠ gyQspgsMasterKeyLen c.desc then Cmd.fail .arg
    else do
      match ← Cmd.lift (findMember c.desc core e.cur.sub.ek inviteeUid 0 core.members) with
      | none => Cmd.fail .notFound
      | some (i, v) =>
        if ¬v.pending then Cmd.fail .notFound
        else do
          let rcOpen ← gyRandomBytes qspgsRcLen
          let mct ← memberCtSealForm c.desc core.aeadId e.cur.sub.ek core.gid
            ⟨false, inviteeUid, rcOpen, inviteeUk⟩ mctCap
          let cuid ← Cmd.lift (gyQspgsCuidCommit c.desc inviteeUid rcOpen)
          emitNext c e
            { core with members := core.members.modify i fun m => ⟨cuid, m.admn, mct⟩ } caps

/-- The plaintext of the header field; `settings_plaintext`. -/
def settingsPlaintext (flags : UInt8) (attr : Bytes β) : Except GyErr (Bytes β) :=
  if qsgroupAttrMax < attr.length then .error .toolong else .ok (Octet.ofByte flags :: attr)

/-- `gy_custodian_qsgroup_change_settings`. -/
def gyCustodianQsgroupChangeSettings (c : QsCustodian β) (cur : CoreBundle β) (flags : UInt8)
    (attr : Bytes β) (caps : CoreCaps) : QsC β (NextCore β) :=
  if qsgroupAttrMax < attr.length then Cmd.fail .toolong
  else do
    let e ← editBegin c cur
    let core := e.cur.core
    let pt ← Cmd.lift (settingsPlaintext flags attr)
    let sa ← gyQspgsFieldSeal c.desc core.aeadId e.cur.sub.ek .header core.gid pt
      (pt.length + gyQspgsFieldOverhead core.aeadId + 16)
    emitNext c e { core with saCt := sa } caps

/-- `gy_custodian_qsgroup_toggle_join_link`: opens a closed link, whose secret it stores and
returns, and closes an open one. -/
def gyCustodianQsgroupToggleJoinLink (c : QsCustodian β) (cur : CoreBundle β) (caps : CoreCaps) :
    QsC β (NextCore β × Option (Bytes β)) := do
  let e ← editBegin c cur
  let core := e.cur.core
  if core.joinCt.length = 0 then do
    let jls ← gyRandomBytes qspgsJoinlinkSecret
    let fet ← Cmd.lift (gyQspgsDeriveFet c.desc e.cur.gk)
    let slot ← gyQspgsJoinlinkSeal c.desc core.aeadId jls core.gid e.cur.gk fet 512
    let next ← emitNext c e { core with joinCt := slot } caps
    onStore (gyQspgsJoinlinkSecretStore core.gid jls)
    return (next, some jls)
  else do
    let next ← emitNext c e { core with joinCt := [] } caps
    onStore (gyQspgsJoinlinkSecretDelete core.gid)
    return (next, none)

end Geryon
