import Geryon.Group.Client

/-!
# The public group calls

The calls of `geryon_group.h` that reach the store, as data, and what each of them may write. A call
that only reads leaves every record as it is, whatever callbacks fail.
-/

namespace Geryon

/-- A public group call with its arguments, except for the caller's buffer. -/
inductive GroupCall (S P β π : Type) where
  | installServerParams (params : Option (GroupServerPublic P × GroupServerPublic P))
  | formatVersion (gid : GroupId β)
  | create (gmk : (n : Nat) → Block n β)
  | exportGroupPublicParams (gid : GroupId β)
  | exportKeyEnvelope (gid : GroupId β)
  | installKeyEnvelope (env : Bytes β)
  | forget (gid : GroupId β)
  | receiveAuthCredential (gid : GroupId β) (uid : GroupUid β) (redemptionDate : UInt64)
      (resp : Option (GroupAuthResponse S P π))
  | profileKeyCommit (gid : GroupId β) (profileKey : ProfileKey β)
  | pkCredentialRequest (gid : GroupId β) (profileKey : ProfileKey β) (y r1 r2 : S)
      (nonces : Nat → S)
  | pkCredentialFinish (gid : GroupId β) (profileKey : ProfileKey β)
      (resp : Option (GroupPkBlindResponse S P π))
  | authPresent (gid : GroupId β) (z : S) (nonces : Nat → S)
  | addMember (gid : GroupId β) (newUid : GroupUid β) (newPk : ProfileKey β) (z : S)
      (nonces : Nat → S)
  | addInvitedMember (gid : GroupId β) (newUid : GroupUid β)
  | updateProfileKey (gid : GroupId β) (newPk : ProfileKey β) (z : S) (nonces : Nat → S)
  | deleteMember (gid : GroupId β) (targetUid : GroupUid β)
  | fetchMembers (gid : GroupId β) (entries : Option (List (GroupMemberCt P)))

/-- What a call hands back. -/
inductive GroupOut (S P β π : Type) where
  | done
  | version (v : UInt16)
  | group (gid : GroupId β)
  | size (n : Nat)
  | publicParams (pp : GroupPublicParams P)
  | envelope (env : Bytes β)
  | commitment (commit : GroupPkCommitment P)
  | request (req : GroupPkRequest P π)
  | authPresentation (pres : GroupAuthPresentation P π)
  | pkPresentation (pres : GroupPkPresentation P π)
  | uidCt (ct : GroupUidCt P)
  | members (list : List (GroupMember β))

/-- An emitted object as an outcome. -/
def Emitted.out {S P β π α : Type} (wrap : α → GroupOut S P β π) : Emitted α → GroupOut S P β π
  | .size n => .size n
  | .bytes obj => wrap obj

variable {S P β π : Type} [Field S] [AddCommGroup P] [Module S P] [Octet β] [DecidableEq β]
  [DecidableEq P]

/-- Run a call with a buffer of the given capacity; `none` is a size query. -/
def GroupCall.run (c : GroupHandle S P β π) (call : GroupCall S P β π) (out : Option Nat) :
    GroupM S P β π (GroupOut S P β π) :=
  match call with
  | .installServerParams params => do
    groupInstallServerParams c params
    return .done
  | .formatVersion gid => do return .version (← groupFormatVersionOf c gid)
  | .create gmk => do return .group (← groupCreate c gmk)
  | .exportGroupPublicParams gid => do
    return (← groupExportGroupPublicParams c gid out).out .publicParams
  | .exportKeyEnvelope gid => do return (← groupExportKeyEnvelope c gid out).out .envelope
  | .installKeyEnvelope env => do return .group (← groupInstallKeyEnvelope c env)
  | .forget gid => do
    groupForget c gid
    return .done
  | .receiveAuthCredential gid uid date resp => do
    groupReceiveAuthCredential c gid uid date resp
    return .done
  | .profileKeyCommit gid pk => do return (← groupProfileKeyCommit c gid pk out).out .commitment
  | .pkCredentialRequest gid pk y r1 r2 nonces => do
    return (← groupPkCredentialRequest c gid pk y r1 r2 nonces out).out .request
  | .pkCredentialFinish gid pk resp => do
    groupPkCredentialFinish c gid pk resp
    return .done
  | .authPresent gid z nonces => do
    return (← groupAuthPresent c gid z nonces out).out .authPresentation
  | .addMember gid uid pk z nonces => do
    return (← groupAddMember c gid uid pk z nonces out).out .pkPresentation
  | .addInvitedMember gid uid => do return (← groupAddInvitedMember c gid uid out).out .uidCt
  | .updateProfileKey gid pk z nonces => do
    return (← groupUpdateProfileKey c gid pk z nonces out).out .pkPresentation
  | .deleteMember gid uid => do return (← groupDeleteMember c gid uid out).out .uidCt
  | .fetchMembers gid entries => do return (← groupFetchMembers c gid entries out).out .members

/-! ## Reading -/

section Reading

open RecStore

variable {clean : Prop} {recs : GroupRecords S P β π}

omit [DecidableEq P] [Field S] [AddCommGroup P] [Module S P] [Octet β] [DecidableEq β] in
/-- What loading the master key of a group ensures: a failure, or a key of the right length. -/
theorem ensures_loadMasterRecord (tier : GroupTier S P β π) {gid : GroupId β}
    {Q : Except GyErr (UInt16 × Bytes β) → GroupRecords S P β π → Prop}
    (hfail : ∀ e, Q (.error e) recs)
    (hok : ∀ v gmk, recs (.masterKey gid) = some (v, gmk) → gmk.length = tier.masterKeyLen →
      Q (.ok (v, gmk)) recs) : Ensures clean (loadMasterRecord tier gid) recs Q := by
  refine Ensures.load_bind hfail ?_
  cases hrec : recs (.masterKey gid) with
  | none => exact ensures_fail (hfail _)
  | some blob =>
    obtain ⟨v, gmk⟩ := blob
    refine Ensures.ite (fun _ => ensures_fail (hfail _)) fun hlen => ?_
    exact ensures_pure (hok v gmk hrec (not_not.1 hlen))

omit [DecidableEq P] in
/-- What loading a group ensures: its parameters are derived from the stored master key. -/
theorem ensures_loadGroup (tier : GroupTier S P β π) {gid : GroupId β}
    {Q : Except GyErr (GroupGenerators P × GroupSecretParams S × GroupPublicParams P) →
      GroupRecords S P β π → Prop}
    (hfail : ∀ e, Q (.error e) recs)
    (hok : ∀ gens v gmk sp pp, gyGroupGeneratorsDerive tier = .ok gens →
      recs (.masterKey gid) = some (v, gmk) → groupDerive tier gens v gmk = .ok (gid, sp, pp) →
      Q (.ok (gens, sp, pp)) recs) : Ensures clean (loadGroup tier gid) recs Q := by
  refine Ensures.lift_bind (fun e _ => hfail e) fun gens hgens => ?_
  refine Ensures.bind (Ensures.bind (ensures_loadMasterRecord tier hfail fun v gmk hrec _ => ?_))
  refine Ensures.lift_bind (fun e _ => hfail e) fun d hd => ?_
  obtain ⟨id, sp, pp⟩ := d
  refine Ensures.ite (fun _ => ensures_fail (hfail _)) fun hid => ?_
  obtain rfl := not_not.1 hid
  exact ensures_pure (ensures_pure (hok gens v gmk sp pp hgens hrec hd))

omit [DecidableEq P] [Field S] [AddCommGroup P] [Module S P] [Octet β] [DecidableEq β] in
/-- What loading the server parameters ensures. -/
theorem ensures_loadSrv
    {Q : Except GyErr (GroupServerPublic P × GroupServerPublic P) → GroupRecords S P β π → Prop}
    (hfail : ∀ e, Q (.error e) recs)
    (hok : ∀ pp, recs .serverParams = some pp → Q (.ok pp) recs) :
    Ensures clean (loadSrv : GroupM S P β π _) recs Q := by
  refine Ensures.load_bind hfail ?_
  cases hrec : recs .serverParams with
  | none => exact ensures_fail (hfail _)
  | some pp => exact ensures_pure (hok pp hrec)

/-- The records hold a group, and these are its parameters. -/
def GroupLoads (recs : GroupRecords S P β π) (tier : GroupTier S P β π) (gid : GroupId β)
    (gens : GroupGenerators P) (sp : GroupSecretParams S) (pp : GroupPublicParams P) : Prop :=
  gyGroupGeneratorsDerive tier = .ok gens ∧ ∃ v gmk, recs (.masterKey gid) = some (v, gmk) ∧
    groupDerive tier gens v gmk = .ok (gid, sp, pp)

/-- The presentation is the one of the stored auth credential of a group. -/
def AuthPresented (c : GroupHandle S P β π) (recs : GroupRecords S P β π) (gid : GroupId β) (z : S)
    (nonces : Nat → S) (pres : GroupAuthPresentation P π) : Prop :=
  ∃ tier uid gens sp pp srv mac date, c.tier = some tier ∧ groupSelfUid c = .ok uid ∧
    GroupLoads recs tier gid gens sp pp ∧ recs .serverParams = some srv ∧
    recs (.authCred gid) = some (mac, date) ∧
    gyGroupAuthPresent tier gens sp pp srv.1 mac uid date z nonces = .ok pres

/-- The presentation is the one of the stored profile-key credential of a user, for a profile
key. -/
def PkPresented (c : GroupHandle S P β π) (recs : GroupRecords S P β π) (gid : GroupId β)
    (uid : GroupUid β) (pk : ProfileKey β) (z : S) (nonces : Nat → S)
    (pres : GroupPkPresentation P π) : Prop :=
  ∃ tier gens sp pp srv cred, c.tier = some tier ∧ GroupLoads recs tier gid gens sp pp ∧
    recs .serverParams = some srv ∧ recs (.pkCred gid uid) = some cred ∧
    gyGroupPkPresent tier gens sp pp srv.2 cred uid pk z nonces = .ok pres

/-- The outcome is an error, or what is emitted for an object. -/
def Emits {α : Type} (obj : α) (out : Option Nat) (r : Except GyErr (Emitted α)) : Prop :=
  ∀ em, r = .ok em → ∃ n, encodeEmit obj n out = .ok em

/-- An encoding emits its object. -/
theorem emits_encodeEmit {α : Type} (obj : α) (n : Nat) (out : Option Nat) :
    Emits obj out (encodeEmit obj n out) := fun _ h => ⟨n, h⟩

/-- A failure emits nothing. -/
theorem emits_error {α : Type} (obj : α) (out : Option Nat) (e : GyErr) :
    Emits obj out (.error e) := fun _ h => by cases h

variable {c : GroupHandle S P β π}

omit [DecidableEq P] [Field S] [AddCommGroup P] [Module S P] [Octet β] [DecidableEq β] in
/-- The guard passes for a custodian with a group tier. -/
theorem groupGuard_ok {tier : GroupTier S P β π} (h : groupGuard c = .ok tier) :
    c.tier = some tier := by
  unfold groupGuard at h
  split at h
  · split at h
    · cases h
    · next ht => rw [ht, Except.ok.inj h]
  · cases h

omit [DecidableEq P] in
/-- What an auth presentation ensures. -/
theorem ensures_groupAuthPresent {gid : GroupId β} {z : S} {nonces : Nat → S} {out : Option Nat}
    {Q : Except GyErr (Emitted (GroupAuthPresentation P π)) → GroupRecords S P β π → Prop}
    (hfail : ∀ e, Q (.error e) recs)
    (hok : ∀ pres r, AuthPresented c recs gid z nonces pres → Emits pres out r → Q r recs) :
    Ensures clean (groupAuthPresent c gid z nonces out) recs Q := by
  refine Ensures.lift_bind (fun e _ => hfail e) fun tier htier => ?_
  cases c.clock with
  | none => exact ensures_fail (hfail _)
  | some now =>
    refine Ensures.lift_bind (fun e _ => hfail e) fun uid huid => ?_
    refine Ensures.bind (ensures_loadGroup tier hfail fun gens v gmk sp pp hgens hrec hder => ?_)
    refine Ensures.bind (ensures_loadSrv hfail fun srv hsrv => ?_)
    refine Ensures.bind (Ensures.bind (Ensures.load_bind hfail ?_))
    cases hcred : recs (.authCred gid) with
    | none => exact ensures_fail (hfail _)
    | some cred =>
      obtain ⟨mac, date⟩ := cred
      refine ensures_pure (Ensures.ite (fun _ => ensures_lift ?_) fun _ => ensures_fail (hfail _))
      cases hpres : gyGroupAuthPresent tier gens sp pp srv.1 mac uid date z nonces with
      | error e => exact hfail e
      | ok pres =>
        exact ensures_lift (hok pres _ ⟨tier, uid, gens, sp, pp, srv, mac, date,
          groupGuard_ok htier, huid, ⟨hgens, v, gmk, hrec, hder⟩, hsrv, hcred, hpres⟩
          (emits_encodeEmit _ _ _))

omit [DecidableEq P] in
/-- What the presentation for an addition ensures. -/
theorem ensures_groupAddMember {gid : GroupId β} {uid : GroupUid β} {pk : ProfileKey β} {z : S}
    {nonces : Nat → S} {out : Option Nat}
    {Q : Except GyErr (Emitted (GroupPkPresentation P π)) → GroupRecords S P β π → Prop}
    (hfail : ∀ e, Q (.error e) recs)
    (hok : ∀ pres r, PkPresented c recs gid uid pk z nonces pres → Emits pres out r → Q r recs) :
    Ensures clean (groupAddMember c gid uid pk z nonces out) recs Q := by
  refine Ensures.lift_bind (fun e _ => hfail e) fun tier htier => ?_
  refine Ensures.bind (ensures_loadGroup tier hfail fun gens v gmk sp pp hgens hrec hder => ?_)
  refine Ensures.bind (ensures_loadSrv hfail fun srv hsrv => ?_)
  refine Ensures.bind (Ensures.bind (Ensures.load_bind hfail ?_))
  cases hcred : recs (.pkCred gid uid) with
  | none => exact ensures_fail (hfail _)
  | some cred =>
    refine ensures_pure (ensures_lift ?_)
    cases hpres : gyGroupPkPresent tier gens sp pp srv.2 cred uid pk z nonces with
    | error e => exact hfail e
    | ok pres =>
      exact ensures_lift (hok pres _ ⟨tier, gens, sp, pp, srv, cred, groupGuard_ok htier,
        ⟨hgens, v, gmk, hrec, hder⟩, hsrv, hcred, hpres⟩ (emits_encodeEmit _ _ _))

omit [DecidableEq P] in
/-- An update that gets past its checks stores the new profile key, and drops the credential unless
a callback fails. -/
theorem ensures_groupUpdateProfileKey {gid : GroupId β} {pk : ProfileKey β} {z : S}
    {nonces : Nat → S} {out : Option Nat}
    {Q : Except GyErr (Emitted (GroupPkPresentation P π)) → GroupRecords S P β π → Prop}
    (hfail : ∀ e, Q (.error e) recs)
    (hwrote : ∀ uid pres r recs', groupSelfUid c = .ok uid →
      PkPresented c recs gid uid pk z nonces pres → Emits pres out r →
      (recs' = recs ∨ recs' = Function.update recs (.ownPk gid) (some pk) ∨
        recs' = Function.update (Function.update recs (.ownPk gid) (some pk)) (.pkCred gid uid)
          none) → Q r recs') :
    Ensures clean (groupUpdateProfileKey c gid pk z nonces out) recs Q := by
  refine Ensures.lift_bind (fun e _ => hfail e) fun tier htier => ?_
  refine Ensures.lift_bind (fun e _ => hfail e) fun uid huid => ?_
  refine Ensures.bind (ensures_loadGroup tier hfail fun gens v gmk sp pp hgens hrec hder => ?_)
  refine Ensures.bind (ensures_loadSrv hfail fun srv hsrv => ?_)
  refine Ensures.bind (Ensures.load_bind hfail ?_)
  cases hcred : recs (.pkCred gid uid) with
  | none => exact ensures_fail (hfail _)
  | some cred =>
    refine ensures_pure (Ensures.bind ?_)
    refine Ensures.lift_bind (fun e _ => hfail e) fun pres hpres => ?_
    have hp : PkPresented c recs gid uid pk z nonces pres := ⟨tier, gens, sp, pp, srv, cred,
      groupGuard_ok htier, ⟨hgens, v, gmk, hrec, hder⟩, hsrv, hcred, hpres⟩
    refine Ensures.store_bind (fun e => hwrote uid pres _ _ huid hp (emits_error _ _ e) (.inl rfl))
      (fun _ e => hwrote uid pres _ _ huid hp (emits_error _ _ e) (.inr (.inl rfl))) ?_
    refine Ensures.drop_bind (fun _ => ensures_pure (ensures_lift ?_)) fun _ =>
      ensures_pure (ensures_lift ?_)
    · exact hwrote uid pres _ _ huid hp (emits_encodeEmit _ _ _) (.inr (.inl rfl))
    · exact hwrote uid pres _ _ huid hp (emits_encodeEmit _ _ _) (.inr (.inr rfl))

end Reading

/-! ## Writing -/

/-- What a call may write, over the records it finds. -/
inductive GroupWrites (c : GroupHandle S P β π) (recs : GroupRecords S P β π) :
    GroupCall S P β π → (k : GroupRecKey β) → Option (k.Val S P π) → Prop
  | serverParams {pp} :
    GroupWrites c recs (.installServerParams (some pp)) .serverParams (some pp)
  | create {gmk tier gens gid sp pp} (htier : c.tier = some tier)
      (hgens : gyGroupGeneratorsDerive tier = .ok gens)
      (hder : groupDerive tier gens groupFormatVersion (gmk tier.masterKeyLen).1 =
        .ok (gid, sp, pp)) :
    GroupWrites c recs (.create gmk) (.masterKey gid)
      (some (groupFormatVersion, (gmk tier.masterKeyLen).1))
  | install {env tier gens v gmk gid sp pp} (htier : c.tier = some tier)
      (hgens : gyGroupGeneratorsDerive tier = .ok gens)
      (hdec : gyGroupKeyDistributionDecode tier env groupMasterKeyMax = .ok (v, gmk))
      (hlen : gmk.length = tier.masterKeyLen)
      (hver : groupMinSupportedFormatVersion ≤ v ∧ v ≤ groupMaxSupportedFormatVersion)
      (hder : groupDerive tier gens v gmk = .ok (gid, sp, pp)) :
    GroupWrites c recs (.installKeyEnvelope env) (.masterKey gid) (some (v, gmk))
  -- four of the five kinds of record a group has: the members' credentials stay
  | forgetAuthCred {gid} : GroupWrites c recs (.forget gid) (.authCred gid) none
  | forgetOwnPk {gid} : GroupWrites c recs (.forget gid) (.ownPk gid) none
  | forgetMasterKey {gid} : GroupWrites c recs (.forget gid) (.masterKey gid) none
  | forgetBlindState {gid} : GroupWrites c recs (.forget gid) (.blindState gid) none
  | receive {gid uid date resp tier gens pp} (htier : c.tier = some tier)
      (hgens : gyGroupGeneratorsDerive tier = .ok gens) (hsrv : recs .serverParams = some pp)
      (hv : gyGroupAuthVerify tier gens pp.1 uid date resp = .ok ()) :
    GroupWrites c recs (.receiveAuthCredential gid uid date (some resp)) (.authCred gid)
      (some (resp.mac, date))
  | commit {gid pk} : GroupWrites c recs (.profileKeyCommit gid pk) (.ownPk gid) (some pk)
  | request {gid pk y r1 r2 nonces req tier gens uid} (htier : c.tier = some tier)
      (hgens : gyGroupGeneratorsDerive tier = .ok gens) (huid : groupSelfUid c = .ok uid)
      (hreq : gyGroupPkRequest tier gens uid pk y r1 r2 nonces = .ok req) :
    GroupWrites c recs (.pkCredentialRequest gid pk y r1 r2 nonces) (.blindState gid)
      (some (req, y))
  | finish {gid pk resp req y tier gens uid pp cred} (htier : c.tier = some tier)
      (hgens : gyGroupGeneratorsDerive tier = .ok gens) (huid : groupSelfUid c = .ok uid)
      (hsrv : recs .serverParams = some pp) (hblind : recs (.blindState gid) = some (req, y))
      (hcred : gyGroupPkBlindReceive tier gens pp.2 uid req.toGroupPkBlinded y resp = .ok cred) :
    GroupWrites c recs (.pkCredentialFinish gid pk (some resp)) (.pkCred gid uid) (some cred)
  | finishDrop {gid pk resp} :
    GroupWrites c recs (.pkCredentialFinish gid pk (some resp)) (.blindState gid) none
  | updateOwnPk {gid pk z nonces} :
    GroupWrites c recs (.updateProfileKey gid pk z nonces) (.ownPk gid) (some pk)
  | updateDrop {gid pk z nonces uid} (huid : groupSelfUid c = .ok uid) :
    GroupWrites c recs (.updateProfileKey gid pk z nonces) (.pkCred gid uid) none
  | deleteDrop {gid uid} : GroupWrites c recs (.deleteMember gid uid) (.pkCred gid uid) none

/-- Every record is the one the call found, or one the call may write. -/
def GroupWritten (c : GroupHandle S P β π) (recs : GroupRecords S P β π)
    (call : GroupCall S P β π) (recs' : GroupRecords S P β π) : Prop :=
  ∀ k, recs' k = recs k ∨ GroupWrites c recs call k (recs' k)

section Writing

open RecStore

variable {c : GroupHandle S P β π} {clean : Prop} {recs recs' : GroupRecords S P β π}
  {call : GroupCall S P β π}

omit [DecidableEq P] [DecidableEq β] in
/-- Writing nothing is a permitted write. -/
theorem groupWritten_refl : GroupWritten c recs call recs := fun _ => .inl rfl

omit [DecidableEq P] in
/-- A permitted write on top of permitted ones. -/
theorem GroupWritten.update (h : GroupWritten c recs call recs') {k : GroupRecKey β}
    {v : Option (k.Val S P π)} (hw : GroupWrites c recs call k v) :
    GroupWritten c recs call (Function.update recs' k v) := by
  intro k'
  by_cases hk : k' = k
  · subst hk
    rw [Function.update_self]
    exact .inr hw
  · rw [Function.update_of_ne hk]
    exact h k'

omit [DecidableEq P] in
/-- What storing a master key ensures: the parameters derived from it. -/
theorem ensures_deriveAndStoreMaster (tier : GroupTier S P β π) {gens : GroupGenerators P}
    {v : UInt16} {gmk : Bytes β}
    {Q : Except GyErr (GroupId β × GroupSecretParams S × GroupPublicParams P) →
      GroupRecords S P β π → Prop}
    (hfail : ∀ e, Q (.error e) recs)
    (hstore : ∀ gid sp pp, groupDerive tier gens v gmk = .ok (gid, sp, pp) →
      (¬clean → ∀ e, Q (.error e) (Function.update recs (.masterKey gid) (some (v, gmk)))) ∧
        Q (.ok (gid, sp, pp)) (Function.update recs (.masterKey gid) (some (v, gmk)))) :
    Ensures clean (deriveAndStoreMaster tier gens v gmk) recs Q := by
  refine Ensures.lift_bind (fun e _ => hfail e) fun d hd => ?_
  obtain ⟨gid, sp, pp⟩ := d
  obtain ⟨hafter, hok⟩ := hstore gid sp pp hd
  exact Ensures.store_bind hfail hafter (ensures_pure hok)

omit [DecidableEq P] in
/-- What installing server parameters writes. -/
theorem groupInstallServerParams_written
    (params : Option (GroupServerPublic P × GroupServerPublic P)) :
    Ensures clean (groupInstallServerParams c params) recs
      fun _ => GroupWritten c recs (.installServerParams params) := by
  refine Ensures.lift_bind (fun _ _ => groupWritten_refl) fun tier _ => ?_
  cases params with
  | none => exact ensures_fail groupWritten_refl
  | some pp =>
    have hw : GroupWritten c recs (.installServerParams (some pp)) _ :=
      groupWritten_refl.update .serverParams
    exact ensures_store (fun _ => groupWritten_refl) (fun _ _ => hw) hw

omit [DecidableEq P] in
/-- What creating a group writes. -/
theorem groupCreate_written (gmk : (n : Nat) → Block n β) :
    Ensures clean (groupCreate c gmk) recs fun _ => GroupWritten c recs (.create gmk) := by
  refine Ensures.lift_bind (fun _ _ => groupWritten_refl) fun tier htier => ?_
  refine Ensures.lift_bind (fun _ _ => groupWritten_refl) fun gens hgens => ?_
  refine Ensures.bind_pure (ensures_deriveAndStoreMaster tier (fun _ => groupWritten_refl) ?_)
  intro gid sp pp hder
  have hw : GroupWritten c recs (.create gmk) _ :=
    groupWritten_refl.update (.create (groupGuard_ok htier) hgens hder)
  exact ⟨fun _ _ => hw, hw⟩

omit [DecidableEq P] in
/-- What installing a key envelope writes. -/
theorem groupInstallKeyEnvelope_written (env : Bytes β) :
    Ensures clean (groupInstallKeyEnvelope c env) recs
      fun _ => GroupWritten c recs (.installKeyEnvelope env) := by
  refine Ensures.lift_bind (fun _ _ => groupWritten_refl) fun tier htier => ?_
  cases hdec : gyGroupKeyDistributionDecode tier env groupMasterKeyMax with
  | error e => exact ensures_fail groupWritten_refl
  | ok d =>
    obtain ⟨v, gmk⟩ := d
    refine Ensures.lift_bind (fun _ _ => groupWritten_refl) fun gens hgens => ?_
    refine Ensures.bind_pure ?_
    refine Ensures.ite (fun _ => ensures_fail groupWritten_refl) fun hlen => ?_
    refine Ensures.ite (fun _ => ensures_fail groupWritten_refl) fun hver => ?_
    rw [not_or, UInt16.not_lt, UInt16.not_lt] at hver
    refine ensures_deriveAndStoreMaster tier (fun _ => groupWritten_refl) ?_
    intro gid sp pp hder
    have hw : GroupWritten c recs (.installKeyEnvelope env) _ := groupWritten_refl.update
      (.install (groupGuard_ok htier) hgens hdec (not_not.1 hlen) hver hder)
    exact ⟨fun _ _ => hw, hw⟩

omit [DecidableEq P] [Field S] [AddCommGroup P] [Module S P] [Octet β] in
/-- Deleting the stored records of a group: what is left after each callback. -/
theorem ensures_deleteStored {gid : GroupId β} {Q : Except GyErr Unit → GroupRecords S P β π → Prop}
    {W : GroupRecords S P β π → Prop} (hW : ∀ recs' k, (k = .authCred gid ∨ k = .ownPk gid ∨
      k = .masterKey gid) → W recs' → W (Function.update recs' k none)) (h0 : W recs)
    (hQ : ∀ r recs', W recs' → Q r recs') :
    Ensures clean (gyGroupDeleteStored gid) recs Q := by
  have h1 := hW recs (.authCred gid) (.inl rfl) h0
  have h2 := hW _ (.ownPk gid) (.inr (.inl rfl)) h1
  have h3 := hW _ (.masterKey gid) (.inr (.inr rfl)) h2
  refine Ensures.bind (ensures_remove (fun _ => hQ _ _ h0) (fun _ _ => hQ _ _ h1) ?_)
  refine Ensures.bind (ensures_remove (fun _ => hQ _ _ h1) (fun _ _ => hQ _ _ h2) ?_)
  exact ensures_remove (fun _ => hQ _ _ h2) (fun _ _ => hQ _ _ h3) (hQ _ _ h3)

omit [DecidableEq P] in
/-- What forgetting a group removes. -/
theorem groupForget_written (gid : GroupId β) :
    Ensures clean (groupForget c gid) recs fun _ => GroupWritten c recs (.forget gid) := by
  refine Ensures.lift_bind (fun _ _ => groupWritten_refl) fun tier _ => ?_
  refine Ensures.bind (Ensures.attempt
    (ensures_deleteStored (W := GroupWritten c recs (.forget gid))
    ?_ groupWritten_refl fun rc recs' h => ?_))
  · rintro recs' k (rfl | rfl | rfl) h
    · exact h.update .forgetAuthCred
    · exact h.update .forgetOwnPk
    · exact h.update .forgetMasterKey
  · exact Ensures.drop_bind (fun _ => ensures_lift h) fun _ =>
      ensures_lift (h.update .forgetBlindState)

/-- What receiving an auth credential writes. -/
theorem groupReceiveAuthCredential_written (gid : GroupId β) (uid : GroupUid β) (date : UInt64)
    (resp : Option (GroupAuthResponse S P π)) :
    Ensures clean (groupReceiveAuthCredential c gid uid date resp) recs
      fun _ => GroupWritten c recs (.receiveAuthCredential gid uid date resp) := by
  refine Ensures.lift_bind (fun _ _ => groupWritten_refl) fun tier htier => ?_
  cases resp with
  | none => exact ensures_fail groupWritten_refl
  | some resp =>
    refine Ensures.lift_bind (fun _ _ => groupWritten_refl) fun gens hgens => ?_
    refine Ensures.bind (ensures_loadSrv (fun _ => groupWritten_refl) fun pp hsrv => ?_)
    refine Ensures.bind_pure ?_
    refine Ensures.lift_bind (fun _ _ => groupWritten_refl) fun _ hv => ?_
    have hw : GroupWritten c recs (.receiveAuthCredential gid uid date (some resp)) _ :=
      groupWritten_refl.update (.receive (groupGuard_ok htier) hgens hsrv hv)
    exact Ensures.store_bind (fun _ => groupWritten_refl) (fun _ _ => hw) (ensures_pure hw)

omit [DecidableEq P] in
/-- What committing a profile key writes. -/
theorem groupProfileKeyCommit_written (gid : GroupId β) (pk : ProfileKey β) (out : Option Nat) :
    Ensures clean (groupProfileKeyCommit c gid pk out) recs
      fun _ => GroupWritten c recs (.profileKeyCommit gid pk) := by
  refine Ensures.lift_bind (fun _ _ => groupWritten_refl) fun tier _ => ?_
  refine Ensures.lift_bind (fun _ _ => groupWritten_refl) fun uid _ => ?_
  refine Ensures.lift_bind (fun _ _ => groupWritten_refl) fun gens _ => ?_
  refine Ensures.bind ?_
  refine Ensures.lift_bind (fun _ _ => groupWritten_refl) fun _ _ => ?_
  refine Ensures.lift_bind (fun _ _ => groupWritten_refl) fun commit _ => ?_
  have hw : GroupWritten c recs (.profileKeyCommit gid pk) _ := groupWritten_refl.update .commit
  exact Ensures.store_bind (fun _ => groupWritten_refl) (fun _ _ => hw)
    (ensures_pure (ensures_lift hw))

omit [DecidableEq P] in
/-- What a credential request writes. -/
theorem groupPkCredentialRequest_written (gid : GroupId β) (pk : ProfileKey β) (y r1 r2 : S)
    (nonces : Nat → S) (out : Option Nat) :
    Ensures clean (groupPkCredentialRequest c gid pk y r1 r2 nonces out) recs
      fun _ => GroupWritten c recs (.pkCredentialRequest gid pk y r1 r2 nonces) := by
  refine Ensures.lift_bind (fun _ _ => groupWritten_refl) fun tier htier => ?_
  refine Ensures.lift_bind (fun _ _ => groupWritten_refl) fun uid huid => ?_
  refine Ensures.lift_bind (fun _ _ => groupWritten_refl) fun gens hgens => ?_
  refine Ensures.lift_bind (fun _ _ => groupWritten_refl) fun _ _ => ?_
  refine Ensures.lift_bind (fun _ _ => groupWritten_refl) fun req hreq => ?_
  refine Ensures.ite (fun _ => ensures_fail groupWritten_refl) fun _ => ?_
  have hw : GroupWritten c recs (.pkCredentialRequest gid pk y r1 r2 nonces) _ :=
    groupWritten_refl.update (.request (groupGuard_ok htier) hgens huid hreq)
  exact Ensures.store_bind (fun _ => groupWritten_refl) (fun _ _ => hw) (ensures_lift hw)

omit [DecidableEq P] in
/-- What finishing a credential writes. -/
theorem groupPkCredentialFinish_written (gid : GroupId β) (pk : ProfileKey β)
    (resp : Option (GroupPkBlindResponse S P π)) :
    Ensures clean (groupPkCredentialFinish c gid pk resp) recs
      fun _ => GroupWritten c recs (.pkCredentialFinish gid pk resp) := by
  refine Ensures.lift_bind (fun _ _ => groupWritten_refl) fun tier htier => ?_
  refine Ensures.lift_bind (fun _ _ => groupWritten_refl) fun uid huid => ?_
  refine Ensures.load_bind (fun _ => groupWritten_refl) ?_
  cases hblind : recs (.blindState gid) with
  | none => exact ensures_fail groupWritten_refl
  | some blob =>
    obtain ⟨req, y⟩ := blob
    cases resp with
    | none => exact ensures_fail groupWritten_refl
    | some resp =>
      refine Ensures.lift_bind (fun _ _ => groupWritten_refl) fun gens hgens => ?_
      refine Ensures.bind (ensures_loadSrv (fun _ => groupWritten_refl) fun pp hsrv => ?_)
      refine Ensures.bind ?_
      refine Ensures.lift_bind (fun _ _ => groupWritten_refl) fun cred hcred => ?_
      have hw : GroupWritten c recs (.pkCredentialFinish gid pk (some resp)) _ :=
        groupWritten_refl.update (.finish (groupGuard_ok htier) hgens huid hsrv hblind hcred)
      refine Ensures.store_bind (fun _ => groupWritten_refl) (fun _ _ => hw) (ensures_pure ?_)
      exact Ensures.drop_bind (fun _ => ensures_pure hw) fun _ =>
        ensures_pure (hw.update .finishDrop)

omit [DecidableEq P] in
/-- What updating the profile key writes. -/
theorem groupUpdateProfileKey_written (gid : GroupId β) (pk : ProfileKey β) (z : S)
    (nonces : Nat → S) (out : Option Nat) :
    Ensures clean (groupUpdateProfileKey c gid pk z nonces out) recs
      fun _ => GroupWritten c recs (.updateProfileKey gid pk z nonces) := by
  refine ensures_groupUpdateProfileKey (fun _ => groupWritten_refl) ?_
  intro uid pres _ recs' huid _ _ hrecs
  have hw : GroupWritten c recs (.updateProfileKey gid pk z nonces) _ :=
    groupWritten_refl.update .updateOwnPk
  rcases hrecs with rfl | rfl | rfl
  · exact groupWritten_refl
  · exact hw
  · exact hw.update (.updateDrop huid)

omit [DecidableEq P] in
/-- What deleting a member writes. -/
theorem groupDeleteMember_written (gid : GroupId β) (uid : GroupUid β) (out : Option Nat) :
    Ensures clean (groupDeleteMember c gid uid out) recs
      fun _ => GroupWritten c recs (.deleteMember gid uid) := by
  refine Ensures.lift_bind (fun _ _ => groupWritten_refl) fun tier _ => ?_
  refine Ensures.bind (ensures_loadGroup tier (fun _ => groupWritten_refl) ?_)
  intro gens v gmk sp pp _ _ _
  refine Ensures.bind (Ensures.lift_bind (fun _ _ => groupWritten_refl) fun ct _ => ?_)
  exact Ensures.drop_bind (fun _ => ensures_pure (ensures_lift groupWritten_refl)) fun _ =>
    ensures_pure (ensures_lift (groupWritten_refl.update .deleteDrop))

omit [DecidableEq P] [Field S] [AddCommGroup P] [Module S P] [Octet β] [DecidableEq β] in
/-- A call that only reads leaves the records as they are. -/
theorem groupFormatVersionOf_reads (gid : GroupId β) :
    Ensures clean (groupFormatVersionOf c gid) recs fun _ recs' => recs' = recs :=
  Ensures.lift_bind (fun _ _ => rfl) fun tier _ =>
    Ensures.bind (ensures_loadMasterRecord tier (fun _ => rfl) fun _ _ _ _ => ensures_pure rfl)

omit [DecidableEq P] in
/-- Exporting the parameters of a group writes nothing. -/
theorem groupExportGroupPublicParams_reads (gid : GroupId β) (out : Option Nat) :
    Ensures clean (groupExportGroupPublicParams c gid out) recs fun _ recs' => recs' = recs :=
  Ensures.lift_bind (fun _ _ => rfl) fun tier _ =>
    Ensures.bind (ensures_loadGroup tier (fun _ => rfl) fun _ _ _ _ _ _ _ _ => ensures_lift rfl)

omit [DecidableEq P] [Field S] [AddCommGroup P] [Module S P] [DecidableEq β] in
/-- Exporting the key envelope writes nothing. -/
theorem groupExportKeyEnvelope_reads (gid : GroupId β) (out : Option Nat) :
    Ensures clean (groupExportKeyEnvelope c gid out) recs fun _ recs' => recs' = recs := by
  refine Ensures.lift_bind (fun _ _ => rfl) fun tier _ => ?_
  refine Ensures.bind (Ensures.bind (ensures_loadMasterRecord tier (fun _ => rfl) ?_))
  intro v gmk _ _
  refine ensures_pure (Ensures.bind (Ensures.ite (fun _ => ensures_fail rfl) fun _ => ?_))
  refine Ensures.bind (ensures_loadMasterRecord tier (fun _ => rfl) fun v' gmk' _ _ => ?_)
  refine ensures_pure (Ensures.lift_bind (fun _ _ => rfl) fun frame _ => ensures_lift rfl)

omit [DecidableEq P] in
/-- Adding an invited member writes nothing. -/
theorem groupAddInvitedMember_reads (gid : GroupId β) (uid : GroupUid β) (out : Option Nat) :
    Ensures clean (groupAddInvitedMember c gid uid out) recs fun _ recs' => recs' = recs :=
  Ensures.lift_bind (fun _ _ => rfl) fun tier _ =>
    Ensures.bind (ensures_loadGroup tier (fun _ => rfl) fun _ _ _ _ _ _ _ _ =>
      Ensures.lift_bind (fun _ _ => rfl) fun _ _ => ensures_lift rfl)

/-- Fetching the members writes nothing. -/
theorem groupFetchMembers_reads (gid : GroupId β) (entries : Option (List (GroupMemberCt P)))
    (max : Option Nat) :
    Ensures clean (groupFetchMembers c gid entries max) recs fun _ recs' => recs' = recs := by
  refine Ensures.lift_bind (fun _ _ => rfl) fun tier _ => ?_
  refine Ensures.bind (ensures_loadGroup tier (fun _ => rfl) fun _ _ _ sp _ _ _ _ => ?_)
  cases entries with
  | none => exact ensures_fail rfl
  | some entries =>
    cases max with
    | none => exact ensures_pure rfl
    | some cap =>
      refine Ensures.ite (fun _ => ensures_fail rfl) fun _ => ?_
      cases gyGroupFetchMembers tier sp entries entries.length with
      | error e => exact ensures_fail rfl
      | ok members => exact ensures_pure rfl

/-- Whatever callbacks fail, a call leaves each record as it was or writes what it may. -/
theorem GroupCall.ensures_written (call : GroupCall S P β π) (out : Option Nat) :
    Ensures clean (call.run c out) recs fun _ => GroupWritten c recs call := by
  have hread {call : GroupCall S P β π} {recs' : GroupRecords S P β π} (h : recs' = recs) :
      GroupWritten c recs call recs' := h ▸ groupWritten_refl
  cases call with
  | installServerParams params => exact Ensures.bind_pure (groupInstallServerParams_written params)
  | formatVersion gid =>
    exact Ensures.bind_pure ((groupFormatVersionOf_reads gid).mono fun _ _ => hread)
  | create gmk => exact Ensures.bind_pure (groupCreate_written gmk)
  | exportGroupPublicParams gid =>
    exact Ensures.bind_pure ((groupExportGroupPublicParams_reads gid out).mono fun _ _ => hread)
  | exportKeyEnvelope gid =>
    exact Ensures.bind_pure ((groupExportKeyEnvelope_reads gid out).mono fun _ _ => hread)
  | installKeyEnvelope env => exact Ensures.bind_pure (groupInstallKeyEnvelope_written env)
  | forget gid => exact Ensures.bind_pure (groupForget_written gid)
  | receiveAuthCredential gid uid date resp =>
    exact Ensures.bind_pure (groupReceiveAuthCredential_written gid uid date resp)
  | profileKeyCommit gid pk => exact Ensures.bind_pure (groupProfileKeyCommit_written gid pk out)
  | pkCredentialRequest gid pk y r1 r2 nonces =>
    exact Ensures.bind_pure (groupPkCredentialRequest_written gid pk y r1 r2 nonces out)
  | pkCredentialFinish gid pk resp =>
    exact Ensures.bind_pure (groupPkCredentialFinish_written gid pk resp)
  | authPresent gid z nonces =>
    exact Ensures.bind_pure (ensures_groupAuthPresent (fun _ => groupWritten_refl)
      fun _ _ _ _ => groupWritten_refl)
  | addMember gid uid pk z nonces =>
    exact Ensures.bind_pure (ensures_groupAddMember (fun _ => groupWritten_refl)
      fun _ _ _ _ => groupWritten_refl)
  | addInvitedMember gid uid =>
    exact Ensures.bind_pure ((groupAddInvitedMember_reads gid uid out).mono fun _ _ => hread)
  | updateProfileKey gid pk z nonces =>
    exact Ensures.bind_pure (groupUpdateProfileKey_written gid pk z nonces out)
  | deleteMember gid uid => exact Ensures.bind_pure (groupDeleteMember_written gid uid out)
  | fetchMembers gid entries =>
    exact Ensures.bind_pure ((groupFetchMembers_reads gid entries out).mono fun _ _ => hread)

end Writing

/-! ## Runs -/

/-- A call in a run: whether the custodian is unlocked, what its clock reads, the caller's buffer
and the callbacks that fail. -/
structure GroupEvent (S P β π : Type) where
  unlocked : Bool
  clock : Option UInt64
  call : GroupCall S P β π
  out : Option Nat
  faults : List (Option (Fault GyErr))

/-- The custodian at an event. -/
def GroupEvent.handle (c : GroupHandle S P β π) (ev : GroupEvent S P β π) : GroupHandle S P β π :=
  { c with unlocked := ev.unlocked, clock := ev.clock }

/-- What an event hands back, and the records it leaves. -/
def GroupEvent.step (c : GroupHandle S P β π) (recs : GroupRecords S P β π)
    (ev : GroupEvent S P β π) : Except GyErr (GroupOut S P β π) × GroupRecords S P β π :=
  let r := ev.call.run (ev.handle c) ev.out ⟨recs, ev.faults⟩
  (r.1, r.2.recs)

/-- The records a run leaves. -/
def groupRun (c : GroupHandle S P β π) (recs : GroupRecords S P β π)
    (evs : List (GroupEvent S P β π)) : GroupRecords S P β π :=
  evs.foldl (fun recs ev => (ev.step c recs).2) recs

/-- A custodian without group records. -/
def GroupRecords.fresh : GroupRecords S P β π := fun _ => none

/-- An event meets the postcondition of its call. -/
theorem GroupEvent.step_of_ensures {c : GroupHandle S P β π} {recs : GroupRecords S P β π}
    {ev : GroupEvent S P β π}
    {Q : Except GyErr (GroupOut S P β π) → GroupRecords S P β π → Prop}
    (h : RecStore.Ensures False (ev.call.run (ev.handle c) ev.out) recs Q) :
    Q (ev.step c recs).1 (ev.step c recs).2 := (h ev.faults fun hf => hf.elim).1

/-- What one call writes, for every call. -/
theorem GroupEvent.step_written (c : GroupHandle S P β π) (recs : GroupRecords S P β π)
    (ev : GroupEvent S P β π) : GroupWritten (ev.handle c) recs ev.call (ev.step c recs).2 :=
  GroupEvent.step_of_ensures (ev.call.ensures_written ev.out)

/-- What every event preserves holds throughout a run. -/
theorem groupRun_induction {c : GroupHandle S P β π} {Inv : GroupRecords S P β π → Prop}
    (hstep : ∀ recs (ev : GroupEvent S P β π), Inv recs → Inv (ev.step c recs).2)
    {recs : GroupRecords S P β π}
    (h : Inv recs) (evs : List (GroupEvent S P β π)) : Inv (groupRun c recs evs) := by
  induction evs generalizing recs with
  | nil => exact h
  | cons ev evs ih => exact ih (hstep recs ev h)

end Geryon
