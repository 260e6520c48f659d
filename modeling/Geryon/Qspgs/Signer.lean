import Geryon.Qspgs.Sample

/-!
# Who signed an adopted core

Every entry point that acts on a core verifies its signature under the key of the line its signer
index names. Whether that line is an admin's is tested by the fetch alone; the edits and appendix
operations, which go through `open_current`, and the join over a link take the core of any member.
-/

namespace Geryon

variable {β : Type} [Octet β] [DecidableEq β] [KrMlDsa β] [Sodium β]

/-- The client entry points that act on a core. -/
inductive QsEntry (β : Type) where
  | fetch (ans : GroupAnswer β) (prior : PriorView β) (accts : List (AcctRef β)) (caps : FetchCaps)
  | addMember (cur : CoreBundle β) (newUid : Bytes β) (caps : CoreCaps)
  | setAdmin (cur : CoreBundle β) (targetUid : Bytes β) (admin : Bool) (caps : CoreCaps)
  | removeMember (cur : CoreBundle β) (targetUid : Bytes β) (caps : CoreCaps)
  | rotateGroupKey (cur : CoreBundle β) (caps : CoreCaps)
  | invite (cur : CoreBundle β) (inviteeUid : Bytes β) (acct : Option (AcctRef β))
      (gkprimeCap : Nat) (caps : CoreCaps)
  | completeInvitation (cur : CoreBundle β) (inviteeUid inviteeUk : Bytes β) (caps : CoreCaps)
  | revokeInvitation (cur : CoreBundle β) (curQueue targetUid : Bytes β) (queueCap : Nat)
      (caps : CoreCaps)
  | consolidate (cur : CoreBundle β) (inp : ConsInput β) (queueCap : Option Nat) (caps : CoreCaps)
  | changeSettings (cur : CoreBundle β) (flags : UInt8) (attr : Bytes β) (caps : CoreCaps)
  | toggleJoinLink (cur : CoreBundle β) (caps : CoreCaps)
  | appendixLeave (cur : CoreBundle β) (vmin : UInt32) (lineCap : Nat)
  | appendixRefresh (cur : CoreBundle β) (vmin : UInt32) (ep : UInt64) (lineCap : Nat)
  | appendixModAttr (cur : CoreBundle β) (vmin : UInt32) (attr : Bytes β) (lineCap : Nat)
  | appendixAddUser (cur : CoreBundle β) (vmin : UInt32) (newUid newUk : Bytes β)
      (lineCap hashCap : Nat)
  | joinViaLink (cur : CoreBundle β) (linkSecret : Bytes β) (ep : UInt64) (signerAcct : Bytes β)
      (ukCap lineCap : Nat)

namespace QsEntry

/-- Run a call and drop what it returns. -/
def void {α : Type} (x : QsC β α) : QsC β Unit := x >>= fun _ => pure ()

/-- What an entry point runs. -/
def run [JoinKem β] [KrKeygen β] (c : QsCustodian β) : QsEntry β → QsC β Unit
  | fetch ans prior accts caps => void (gyCustodianQsgroupFetch c ans prior accts caps)
  | addMember cur newUid caps => void (gyCustodianQsgroupAddMember c cur newUid caps)
  | setAdmin cur targetUid admin caps =>
    void (gyCustodianQsgroupSetAdmin c cur targetUid admin caps)
  | removeMember cur targetUid caps => void (gyCustodianQsgroupRemoveMember c cur targetUid caps)
  | rotateGroupKey cur caps => void (gyCustodianQsgroupRotateGroupKey c cur caps)
  | invite cur inviteeUid acct gkprimeCap caps =>
    void (gyCustodianQsgroupInvite c cur inviteeUid acct gkprimeCap caps)
  | completeInvitation cur inviteeUid inviteeUk caps =>
    void (gyCustodianQsgroupCompleteInvitation c cur inviteeUid inviteeUk caps)
  | revokeInvitation cur curQueue targetUid queueCap caps =>
    void (gyCustodianQsgroupRevokeInvitation c cur curQueue targetUid queueCap caps)
  | consolidate cur inp queueCap caps =>
    void (gyCustodianQsgroupConsolidate c cur inp queueCap caps)
  | changeSettings cur flags attr caps =>
    void (gyCustodianQsgroupChangeSettings c cur flags attr caps)
  | toggleJoinLink cur caps => void (gyCustodianQsgroupToggleJoinLink c cur caps)
  | appendixLeave cur vmin lineCap => void (gyCustodianQsgroupAppendixLeave c cur vmin lineCap)
  | appendixRefresh cur vmin ep lineCap =>
    void (gyCustodianQsgroupAppendixRefresh c cur vmin ep lineCap)
  | appendixModAttr cur vmin attr lineCap =>
    void (gyCustodianQsgroupAppendixModAttr c cur vmin attr lineCap)
  | appendixAddUser cur vmin newUid newUk lineCap hashCap =>
    void (gyCustodianQsgroupAppendixAddUser c cur vmin newUid newUk lineCap hashCap)
  | joinViaLink cur linkSecret ep signerAcct ukCap lineCap =>
    void (gyCustodianQsgroupJoinViaLink c cur linkSecret ep signerAcct ukCap lineCap)

/-- The objects of the core an entry point acts on. -/
def bundle : QsEntry β → CoreBundle β
  | fetch ans _ _ _ => ⟨ans.hdr, ans.memberList, ans.vkLst, ans.sig⟩
  | addMember cur _ _ => cur
  | setAdmin cur _ _ _ => cur
  | removeMember cur _ _ => cur
  | rotateGroupKey cur _ => cur
  | invite cur _ _ _ _ => cur
  | completeInvitation cur _ _ _ => cur
  | revokeInvitation cur _ _ _ _ => cur
  | consolidate cur _ _ _ => cur
  | changeSettings cur _ _ _ => cur
  | toggleJoinLink cur _ => cur
  | appendixLeave cur _ _ => cur
  | appendixRefresh cur _ _ _ => cur
  | appendixModAttr cur _ _ _ => cur
  | appendixAddUser cur _ _ _ _ _ => cur
  | joinViaLink cur _ _ _ _ _ => cur

/-- The group key an entry point reads a core with: the stored one, or the one in the join slot. -/
def groupKey (c : QsCustodian β) (w : QsWorld β) (core : QspgsCore β) :
    QsEntry β → Except GyErr (Bytes β)
  | joinViaLink _ linkSecret _ _ _ _ =>
    (gyQspgsJoinlinkOpen c.desc core.aeadId linkSecret core.gid core.joinCt).map Prod.fst
  | _ => (gyQspgsGroupKeyLoad c.desc core.gid qspgsMasterKeyMax w.store).1

/-- Whether an entry point is the fetch. -/
def isFetch : QsEntry β → Bool
  | fetch _ _ _ _ => true
  | _ => false

end QsEntry

/-- The line a bundle's signer index names has the admin bit set. -/
def signerLineAdmin (desc : SuiteDesc β) (b : CoreBundle β) : Bool :=
  match decodeBundle desc b with
  | .ok (core, s) => core.members[s.signerIndex.toNat]?.any QspgsMember.admn
  | .error _ => false

/-- The core an entry point acts on is signed by the line it names, and the line satisfies `P`. -/
def SignedBundle (c : QsCustodian β) (w : QsWorld β) (e : QsEntry β) (P : MemberView β → Prop) :
    Prop :=
  ∃ core s gk v, decodeBundle c.desc e.bundle = .ok (core, s) ∧ e.groupKey c w core = .ok gk ∧
    SignedByLine c.desc core s gk v ∧ P v

/-! ## Inversions -/

omit [Octet β] [DecidableEq β] [KrMlDsa β] [Sodium β] in
theorem of_void_ok {α : Type} {x : QsC β α} {w w' : QsWorld β}
    (h : QsEntry.void x w = (.ok (), w')) : ∃ a w₁, x w = (.ok a, w₁) :=
  Cmd.of_bind_ok h

/-- An entry point whose key is the stored one acts on a core it opened with `open_current`. -/
theorem SignedBundle.of_opened {c : QsCustodian β} {w : QsWorld β} {e : QsEntry β}
    (hkey : ∀ core, e.groupKey c w core =
      (gyQspgsGroupKeyLoad c.desc core.gid qspgsMasterKeyMax w.store).1)
    (h : ∃ cc w', openCurrent c e.bundle w = (.ok cc, w')) :
    SignedBundle c w e fun _ => True := by
  obtain ⟨cc, w', h⟩ := h
  obtain ⟨hdec, hgk, -, v, hline⟩ := openCurrent_ok h
  exact ⟨cc.core, cc.sig, cc.gk, v, hdec, (hkey _).trans hgk, hline, trivial⟩

/-- A call that begins with `edit_begin` and succeeds has opened the core. -/
theorem opened_of_editBegin_bind {α : Type} {c : QsCustodian β} {cur : CoreBundle β}
    {f : EditCtx β → QsC β α} {w w' : QsWorld β} {a : α}
    (h : (editBegin c cur >>= f) w = (.ok a, w')) :
    ∃ cc w₁, openCurrent c cur w = (.ok cc, w₁) := by
  obtain ⟨e, w₁, he⟩ := Cmd.of_bind_ok h
  exact ⟨e.cur, editBegin_ok he⟩

/-- A call that begins with `appendix_prepare` and succeeds has opened the core. -/
theorem opened_of_appendixPrepare_bind {α : Type} {c : QsCustodian β} {cur : CoreBundle β}
    {f : LineCtx β → QsC β α} {w w' : QsWorld β} {a : α}
    (h : (appendixPrepare c cur >>= f) w = (.ok a, w')) :
    ∃ cc w₁, openCurrent c cur w = (.ok cc, w₁) := by
  obtain ⟨l, w₁, hl⟩ := Cmd.of_bind_ok h
  exact ⟨l.cur, appendixPrepare_ok hl⟩

/-! ## The signer of the core an entry point acts on -/

/-- Every entry point that succeeds has verified the core under the line its signer names. -/
theorem signedBundle_of_ok [JoinKem β] [KrKeygen β] {c : QsCustodian β} {w : QsWorld β}
    {e : QsEntry β} (h : (e.run c w).1 = .ok ()) : SignedBundle c w e fun _ => True := by
  obtain ⟨w', hw⟩ : ∃ w', e.run c w = (.ok (), w') := ⟨_, Prod.ext h rfl⟩
  cases e with
  | fetch ans prior accts caps =>
    obtain ⟨r, w₁, hr⟩ := of_void_ok hw
    obtain ⟨o, w₂, ho⟩ := Cmd.of_bind_ok hr
    obtain ⟨hdec, gk, hgk, hline, -⟩ := fetchOpen_ok ho
    exact ⟨o.core, o.sig, gk, o.signer, hdec, hgk, hline, trivial⟩
  | joinViaLink cur linkSecret ep signerAcct ukCap lineCap =>
    obtain ⟨r, w₁, hr⟩ := of_void_ok hw
    obtain ⟨core, s, gk, v, hdec, hgk, hline⟩ := joinViaLink_ok hr
    exact ⟨core, s, gk, v, hdec, hgk, hline, trivial⟩
  -- all the others go through `open_current`
  | addMember cur newUid caps =>
    obtain ⟨r, w₁, hr⟩ := of_void_ok hw
    exact .of_opened (fun _ => rfl) (opened_of_editBegin_bind hr)
  | setAdmin cur targetUid admin caps =>
    obtain ⟨r, w₁, hr⟩ := of_void_ok hw
    exact .of_opened (fun _ => rfl) (opened_of_editBegin_bind hr)
  | removeMember cur targetUid caps =>
    obtain ⟨r, w₁, hr⟩ := of_void_ok hw
    exact .of_opened (fun _ => rfl) (opened_of_editBegin_bind hr)
  | rotateGroupKey cur caps =>
    obtain ⟨r, w₁, hr⟩ := of_void_ok hw
    exact .of_opened (fun _ => rfl) (opened_of_editBegin_bind hr)
  | invite cur inviteeUid acct gkprimeCap caps =>
    obtain ⟨r, w₁, hr⟩ := of_void_ok hw
    unfold gyCustodianQsgroupInvite at hr
    rw [Cmd.ite_apply] at hr
    split at hr
    · cases hr
    exact .of_opened (fun _ => rfl) (opened_of_editBegin_bind hr)
  | completeInvitation cur inviteeUid inviteeUk caps =>
    obtain ⟨r, w₁, hr⟩ := of_void_ok hw
    unfold gyCustodianQsgroupCompleteInvitation at hr
    rw [Cmd.ite_apply] at hr
    split at hr
    · cases hr
    exact .of_opened (fun _ => rfl) (opened_of_editBegin_bind hr)
  | revokeInvitation cur curQueue targetUid queueCap caps =>
    obtain ⟨r, w₁, hr⟩ := of_void_ok hw
    unfold gyCustodianQsgroupRevokeInvitation at hr
    rw [Cmd.ite_apply] at hr
    split at hr
    · cases hr
    exact .of_opened (fun _ => rfl) (opened_of_editBegin_bind hr)
  | consolidate cur inp queueCap caps =>
    obtain ⟨r, w₁, hr⟩ := of_void_ok hw
    exact .of_opened (fun _ => rfl) (opened_of_editBegin_bind hr)
  | changeSettings cur flags attr caps =>
    obtain ⟨r, w₁, hr⟩ := of_void_ok hw
    unfold gyCustodianQsgroupChangeSettings at hr
    rw [Cmd.ite_apply] at hr
    split at hr
    · cases hr
    exact .of_opened (fun _ => rfl) (opened_of_editBegin_bind hr)
  | toggleJoinLink cur caps =>
    obtain ⟨r, w₁, hr⟩ := of_void_ok hw
    exact .of_opened (fun _ => rfl) (opened_of_editBegin_bind hr)
  | appendixLeave cur vmin lineCap =>
    obtain ⟨r, w₁, hr⟩ := of_void_ok hw
    exact .of_opened (fun _ => rfl) (opened_of_appendixPrepare_bind hr)
  | appendixRefresh cur vmin ep lineCap =>
    obtain ⟨r, w₁, hr⟩ := of_void_ok hw
    exact .of_opened (fun _ => rfl) (opened_of_appendixPrepare_bind hr)
  | appendixModAttr cur vmin attr lineCap =>
    obtain ⟨r, w₁, hr⟩ := of_void_ok hw
    exact .of_opened (fun _ => rfl) (opened_of_appendixPrepare_bind hr)
  | appendixAddUser cur vmin newUid newUk lineCap hashCap =>
    obtain ⟨r, w₁, hr⟩ := of_void_ok hw
    exact .of_opened (fun _ => rfl) (opened_of_appendixPrepare_bind hr)

/-- The view of the signer has the admin flag of the line the signer index names. -/
theorem SignedBundle.admn_iff {c : QsCustodian β} {w : QsWorld β} {e : QsEntry β}
    (h : SignedBundle c w e fun _ => True) :
    SignedBundle c w e (fun v => v.admn = true) ↔ signerLineAdmin c.desc e.bundle := by
  obtain ⟨core, s, gk, v, hdec, hgk, hline, -⟩ := h
  obtain ⟨m, sub, vkb, cap, hm, hsub, hv, hver⟩ := hline.exists_line
  have hbit : signerLineAdmin c.desc e.bundle = m.admn := by
    simp [signerLineAdmin, hdec, hm]
  rw [hbit]
  constructor
  · rintro ⟨core', s', gk', v', hdec', -, hline', hv'⟩
    obtain ⟨rfl, rfl⟩ := Prod.ext_iff.1 (Except.ok.inj (hdec'.symm.trans hdec))
    obtain ⟨m', sub', vkb', cap', hm', -, hview', -⟩ := hline'.exists_line
    obtain rfl := Option.some.inj (hm'.symm.trans hm)
    exact (gyQspgsMemberDecrypt_admn hview').symm.trans hv'
  · intro hadmn
    exact ⟨core, s, gk, v, hdec, hgk, hline, (gyQspgsMemberDecrypt_admn hv).trans hadmn⟩

/-- The core of a fetch that succeeds is signed by an admin line. -/
theorem signedBundle_fetch [JoinKem β] [KrKeygen β] {c : QsCustodian β} {w : QsWorld β}
    {e : QsEntry β} (hfetch : e.isFetch = true) (h : (e.run c w).1 = .ok ()) :
    SignedBundle c w e fun v => v.admn = true := by
  obtain ⟨w', hw⟩ : ∃ w', e.run c w = (.ok (), w') := ⟨_, Prod.ext h rfl⟩
  cases e with
  | fetch ans prior accts caps =>
    obtain ⟨r, w₁, hr⟩ := of_void_ok hw
    obtain ⟨o, w₂, ho⟩ := Cmd.of_bind_ok hr
    obtain ⟨hdec, gk, hgk, hline, hadmn, -⟩ := fetchOpen_ok ho
    exact ⟨o.core, o.sig, gk, o.signer, hdec, hgk, hline, hadmn⟩
  | _ => cases hfetch

/-- A call that succeeds has acted on a core signed by an admin line if and only if it is a fetch
or the line the signer index names has the admin bit set: no entry point but the fetch tests it. -/
theorem admin_signer_iff [JoinKem β] [KrKeygen β] (c : QsCustodian β) (w : QsWorld β)
    (e : QsEntry β) (h : (e.run c w).1 = .ok ()) :
    SignedBundle c w e (fun v => v.admn = true) ↔
      e.isFetch = true ∨ signerLineAdmin c.desc e.bundle = true := by
  have hbit := (signedBundle_of_ok h).admn_iff
  constructor
  · intro hadmn
    exact .inr (hbit.1 hadmn)
  · rintro (hfetch | hline)
    · exact signedBundle_fetch hfetch h
    · exact hbit.2 hline

/-! ## A core signed by an ordinary member -/

theorem run_appendixLeave_ok [JoinKem β] [KrKeygen β] {c : QsCustodian β} {cur : CoreBundle β}
    {w w₁ w₂ : QsWorld β} {l : LineCtx β} {vmin : UInt32} {cap : Nat} {b : Bytes β}
    (hprep : appendixPrepare c cur w = (.ok l, w₁))
    (hline : frameLine c.desc l.mctx l.cur.core.gid l.cur.core.vmaj vmin .leave l.selfIdx [] cap
      w₁ = (.ok b, w₂)) :
    ((QsEntry.appendixLeave cur vmin cap).run c w).1 = .ok () := by
  have hrun : gyCustodianQsgroupAppendixLeave c cur vmin cap w = (.ok b, w₂) := by
    rw [gyCustodianQsgroupAppendixLeave, Cmd.bind_apply_of_ok hprep, hline]
  rw [QsEntry.run, QsEntry.void, Cmd.bind_apply_of_ok hrun]
  rfl

section

open Sample

/-- The admin proposes to leave the group on the core that the member signed. -/
theorem pairCore_leave :
    ((QsEntry.appendixLeave (bundle pairCore (gk 0) 1 1) 0 4000).run (custodian 0)
      (world (recs 0 (gk 0)))).1 = .ok () := by
  have hprep : appendixPrepare (custodian 0) (bundle pairCore (gk 0) 1 1)
      (world (recs 0 (gk 0))) =
      (.ok ⟨⟨pairCore, symSign pairCore 1 (vkr (gk 0) 1), gk 0, sub (gk 0)⟩,
        ⟨sub (gk 0), vkr (gk 0) 0, rsk (gk 0) 0⟩, 0⟩, world (recs 0 (gk 0))) :=
    (knows_world 0 (gk 0)).appendixPrepare ⟨0, true, false⟩ (length_gk 0) pairCore_wf
      (l := ⟨1, false, false⟩) rfl
  exact run_appendixLeave_ok hprep
    (frameLine_eq rfl (gk 0) 0 1 0 .leave 0 [] (by decide) (by decide))

theorem pairCore_signerLine : signerLineAdmin qsSuite (bundle pairCore (gk 0) 1 1) = false := by
  rw [signerLineAdmin, decodeBundle_bundle pairCore_wf]
  rfl

theorem admin_signer_iff_leave :
    ((QsEntry.appendixLeave (bundle pairCore (gk 0) 1 1) 0 4000).run (custodian 0)
      (world (recs 0 (gk 0)))).1 = .ok () ∧
    (SignedBundle (custodian 0) (world (recs 0 (gk 0)))
        (.appendixLeave (bundle pairCore (gk 0) 1 1) 0 4000) (fun v => v.admn = true) ↔
      QsEntry.isFetch (.appendixLeave (bundle pairCore (gk 0) 1 1) 0 4000) = true ∨
        signerLineAdmin qsSuite (bundle pairCore (gk 0) 1 1) = true) :=
  ⟨pairCore_leave, admin_signer_iff _ _ _ pairCore_leave⟩

/-- An admin acts on a core that an ordinary member signed. -/
theorem member_signer_taken :
    ∃ (c : QsCustodian Sym) (w : QsWorld Sym) (e : QsEntry Sym), (e.run c w).1 = .ok () ∧
      ¬ SignedBundle c w e fun v => v.admn = true := by
  refine ⟨custodian 0, world (recs 0 (gk 0)),
    .appendixLeave (bundle pairCore (gk 0) 1 1) 0 4000, pairCore_leave, ?_⟩
  intro hsigned
  have hline : signerLineAdmin qsSuite (bundle pairCore (gk 0) 1 1) = true :=
    (signedBundle_of_ok pairCore_leave).admn_iff.1 hsigned
  rw [pairCore_signerLine] at hline
  cases hline

end

end Geryon
