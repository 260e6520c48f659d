import Geryon.Group.Calls
import Geryon.Group.Complete

/-!
# Size queries and short buffers

The calls that emit a wire object do so last. Most of them only read before that. Four of them write
first: the reading part of each is split off here, and what follows it changes the records whatever
the caller's buffer is.
-/

namespace Geryon

section Query

variable {S P β π : Type} [Field S] [AddCommGroup P] [Module S P] [Octet β] [DecidableEq β]
  [DecidableEq P]

/-! ## Commands that read a store without failures -/

section Still

open Cmd

variable {recs : GroupRecords S P β π}

omit [Field S] [AddCommGroup P] [Module S P] [Octet β] [DecidableEq β] [DecidableEq P] in
/-- Loading the master key of a group leaves the records. -/
theorem still_loadMasterRecord (tier : GroupTier S P β π) (gid : GroupId β) :
    Still (loadMasterRecord tier gid) ⟨recs, []⟩ := by
  refine (RecStore.still_load _ _).bind fun blob => ?_
  rcases blob with _ | ⟨v, gmk⟩
  · exact still_fail _ _
  · exact (still_fail _ _).ite (still_pure _ _)

omit [DecidableEq P] in
/-- So does loading a group. -/
theorem still_loadGroup (tier : GroupTier S P β π) (gid : GroupId β) :
    Still (loadGroup tier gid) ⟨recs, []⟩ := by
  refine (still_lift _ _).bind fun gens => ?_
  refine Still.bind ?_ fun _ => still_pure _ _
  refine (still_loadMasterRecord tier gid).bind fun rec => ?_
  exact (still_lift _ _).bind fun d => (still_fail _ _).ite (still_pure _ _)

omit [Field S] [AddCommGroup P] [Module S P] [Octet β] [DecidableEq β] [DecidableEq P] in
/-- So does loading the server parameters. -/
theorem still_loadSrv : Still (loadSrv : GroupM S P β π _) ⟨recs, []⟩ := by
  refine (RecStore.still_load _ _).bind fun blob => ?_
  cases blob with
  | none => exact still_fail _ _
  | some pp => exact still_pure _ _

omit [Field S] [AddCommGroup P] [Module S P] [Octet β] [DecidableEq β] [DecidableEq P] in
/-- So does loading a cached credential. -/
theorem still_pkCredLoad (gid : GroupId β) (uid : GroupUid β) :
    Still (gyGroupPkCredLoad gid uid : GroupM S P β π _) ⟨recs, []⟩ := by
  refine (RecStore.still_load _ _).bind fun blob => ?_
  cases blob with
  | none => exact still_fail _ _
  | some cred => exact still_pure _ _

end Still

/-! ## The reading parts -/

section Prep

variable (c : GroupHandle S P β π)

/-- What `gy_custodian_group_profile_key_commit` computes before it writes. -/
def commitPrep (profileKey : ProfileKey β) :
    Except GyErr (GroupTier S P β π × GroupPkCommitment P) := do
  let tier ← groupGuard c
  let uid ← groupSelfUid c
  let gens ← gyGroupGeneratorsDerive tier
  let _ ← gyGroupProfileKeyVersion tier uid profileKey
  let commit ← gyGroupPkCommit tier gens uid profileKey
  return (tier, commit)

/-- What `gy_custodian_group_pk_credential_request` computes before it writes. -/
def requestPrep (profileKey : ProfileKey β) (y r1 r2 : S) (nonces : Nat → S) :
    Except GyErr (GroupTier S P β π × GroupPkRequest P π) := do
  let tier ← groupGuard c
  let uid ← groupSelfUid c
  let gens ← gyGroupGeneratorsDerive tier
  let _ ← gyGroupProfileKeyVersion tier uid profileKey
  let req ← gyGroupPkRequest tier gens uid profileKey y r1 r2 nonces
  if facadeScratch < tier.requestLen then .error .toolong else return (tier, req)

/-- What `gy_custodian_group_update_profile_key` reads and computes before it writes. -/
def updatePrep (gid : GroupId β) (newPk : ProfileKey β) (z : S) (nonces : Nat → S) :
    GroupM S P β π (GroupTier S P β π × GroupUid β × GroupPkPresentation P π) := do
  let tier ← Cmd.lift (groupGuard c)
  let uid ← Cmd.lift (groupSelfUid c)
  let (gens, sp, pp) ← loadGroup tier gid
  let (_, ppP) ← loadSrv
  let ownCred ← gyGroupPkCredLoad gid uid
  let pres ← Cmd.lift (gyGroupPkPresent tier gens sp pp ppP ownCred uid newPk z nonces)
  return (tier, uid, pres)

/-- What `gy_custodian_group_delete_member` reads and computes before it writes. -/
def deletePrep (gid : GroupId β) (targetUid : GroupUid β) :
    GroupM S P β π (GroupTier S P β π × GroupUidCt P) := do
  let tier ← Cmd.lift (groupGuard c)
  let (_, sp, _) ← loadGroup tier gid
  let ct ← Cmd.lift (gyGroupUidEncrypt tier sp targetUid)
  return (tier, ct)

end Prep

/-! ## The calls after their reading parts -/

section Parts

open Cmd

variable {c : GroupHandle S P β π} {recs : GroupRecords S P β π} {gid : GroupId β}

omit [DecidableEq P] in
/-- An update that gets past its checks has found a credential. -/
theorem updatePrep_cred {pk : ProfileKey β} {z : S} {nonces : Nat → S} {tier : GroupTier S P β π}
    {uid : GroupUid β} {pres : GroupPkPresentation P π}
    (h : (updatePrep c gid pk z nonces ⟨recs, []⟩).1 = .ok (tier, uid, pres)) :
    recs (.pkCred gid uid) ≠ none := by
  have hens : RecStore.Ensures False (updatePrep c gid pk z nonces) recs
      fun r _ => ∀ x, r = .ok x → recs (.pkCred gid x.2.1) ≠ none := by
    refine RecStore.Ensures.lift_bind (fun _ _ _ h => by cases h) fun tier _ => ?_
    refine RecStore.Ensures.lift_bind (fun _ _ _ h => by cases h) fun uid _ => ?_
    refine RecStore.Ensures.bind (ensures_loadGroup tier (fun _ _ h => by cases h) ?_)
    intro gens v gmk sp pp _ _ _
    refine RecStore.Ensures.bind (ensures_loadSrv (fun _ _ h => by cases h) fun srv _ => ?_)
    refine RecStore.Ensures.bind (RecStore.Ensures.load_bind (fun _ _ h => by cases h) ?_)
    cases hcred : recs (.pkCred gid uid) with
    | none => exact RecStore.ensures_fail fun _ h => by cases h
    | some cred =>
      refine RecStore.ensures_pure (RecStore.Ensures.lift_bind (fun _ _ _ h => by cases h) ?_)
      refine fun pres _ => RecStore.ensures_pure fun x hx => ?_
      obtain rfl := Except.ok.inj hx
      rw [hcred]
      exact Option.some_ne_none cred
  exact (hens [] fun h => h.elim).1 _ h

omit [DecidableEq P] in
/-- A commitment is prepared, and then the own profile key is stored, also when the size is asked
for. -/
theorem groupProfileKeyCommit_apply (pk : ProfileKey β) (out : Option Nat) :
    groupProfileKeyCommit c gid pk out ⟨recs, []⟩ =
      match commitPrep c pk with
      | .error e => (.error e, ⟨recs, []⟩)
      | .ok (tier, commit) => (encodeEmit commit tier.commitLen out,
          ⟨Function.update recs (.ownPk gid) (some pk), []⟩) := by
  unfold groupProfileKeyCommit commitPrep
  cases groupGuard c with
  | error e => rfl
  | ok tier =>
    simp only [Except.ok_bind, lift_ok_bind_apply]
    cases groupSelfUid c with
    | error e => rfl
    | ok uid =>
      simp only [Except.ok_bind, lift_ok_bind_apply]
      cases gyGroupGeneratorsDerive tier with
      | error e => rfl
      | ok gens =>
        simp only [Except.ok_bind, lift_ok_bind_apply, gyGroupCommitToProfileKeyStored]
        cases gyGroupProfileKeyVersion tier uid pk with
        | error e => rfl
        | ok v =>
          simp only [Except.ok_bind]
          cases gyGroupPkCommit tier gens uid pk with
          | error e => rfl
          | ok commit => rfl

omit [DecidableEq P] in
/-- A credential request is prepared, and then the blinding state is stored, also when the size is
asked for. -/
theorem groupPkCredentialRequest_apply (pk : ProfileKey β) (y r1 r2 : S) (nonces : Nat → S)
    (out : Option Nat) :
    groupPkCredentialRequest c gid pk y r1 r2 nonces out ⟨recs, []⟩ =
      match requestPrep c pk y r1 r2 nonces with
      | .error e => (.error e, ⟨recs, []⟩)
      | .ok (tier, req) => (emit req tier.requestLen out,
          ⟨Function.update recs (.blindState gid) (some (req, y)), []⟩) := by
  unfold groupPkCredentialRequest requestPrep
  cases groupGuard c with
  | error e => rfl
  | ok tier =>
    simp only [Except.ok_bind, lift_ok_bind_apply]
    cases groupSelfUid c with
    | error e => rfl
    | ok uid =>
      simp only [Except.ok_bind, lift_ok_bind_apply]
      cases gyGroupGeneratorsDerive tier with
      | error e => rfl
      | ok gens =>
        simp only [Except.ok_bind, lift_ok_bind_apply]
        cases gyGroupProfileKeyVersion tier uid pk with
        | error e => rfl
        | ok v =>
          simp only [Except.ok_bind, lift_ok_bind_apply]
          cases gyGroupPkRequest tier gens uid pk y r1 r2 nonces with
          | error e => rfl
          | ok req =>
            simp only [Except.ok_bind, lift_ok_bind_apply, Cmd.ite_apply]
            split
            · rfl
            · rfl

omit [DecidableEq P] in
/-- An update is prepared, and then stored. -/
theorem groupUpdateProfileKey_apply (pk : ProfileKey β) (z : S) (nonces : Nat → S)
    (out : Option Nat) :
    groupUpdateProfileKey c gid pk z nonces out ⟨recs, []⟩ =
      match (updatePrep c gid pk z nonces ⟨recs, []⟩).1 with
      | .error e => (.error e, ⟨recs, []⟩)
      | .ok (tier, uid, pres) => (encodeEmit pres tier.pkPresLen out,
          ⟨Function.update (Function.update recs (.ownPk gid) (some pk)) (.pkCred gid uid) none,
            []⟩) := by
  unfold groupUpdateProfileKey updatePrep
  cases groupGuard c with
  | error e => rfl
  | ok tier =>
    simp only [lift_ok_bind_apply]
    cases groupSelfUid c with
    | error e => rfl
    | ok uid =>
      simp only [lift_ok_bind_apply, (still_loadGroup tier gid).bind_apply]
      cases (loadGroup tier gid ⟨recs, []⟩).1 with
      | error e => rfl
      | ok g =>
        obtain ⟨gens, sp, pp⟩ := g
        simp only [still_loadSrv.bind_apply]
        cases ((loadSrv : GroupM S P β π _) ⟨recs, []⟩).1 with
        | error e => rfl
        | ok srv =>
          simp only [(still_pkCredLoad gid uid).bind_apply, gyGroupUpdateProfileKeyStored]
          cases ((gyGroupPkCredLoad gid uid : GroupM S P β π _) ⟨recs, []⟩).1 with
          | error e => rfl
          | ok cred =>
            dsimp only
            cases gyGroupPkPresent tier gens sp pp srv.2 cred uid pk z nonces with
            | error e => rfl
            | ok pres => rfl

omit [DecidableEq P] in
/-- A deletion is prepared; the cached credential is removed when the object goes out. -/
theorem groupDeleteMember_apply (uid : GroupUid β) (out : Option Nat) :
    groupDeleteMember c gid uid out ⟨recs, []⟩ =
      match (deletePrep c gid uid ⟨recs, []⟩).1 with
      | .error e => (.error e, ⟨recs, []⟩)
      | .ok (tier, ct) => (encodeEmit ct tier.uidCtLen out,
          ⟨Function.update recs (.pkCred gid uid) none, []⟩) := by
  unfold groupDeleteMember deletePrep
  cases groupGuard c with
  | error e => rfl
  | ok tier =>
    simp only [lift_ok_bind_apply, (still_loadGroup tier gid).bind_apply]
    cases (loadGroup tier gid ⟨recs, []⟩).1 with
    | error e => rfl
    | ok g =>
      obtain ⟨gens, sp, pp⟩ := g
      simp only [gyGroupDeleteMemberStored]
      cases gyGroupUidEncrypt tier sp uid with
      | error e => rfl
      | ok ct => rfl

end Parts

/-! ## What a query leaves behind -/

section Harmless

open Cmd

variable {c : GroupHandle S P β π} {recs : GroupRecords S P β π}

/-- The calls that emit a wire object. -/
def GroupCall.EmitsObject : GroupCall S P β π → Prop
  | .exportGroupPublicParams _ | .exportKeyEnvelope _ | .profileKeyCommit _ _
  | .pkCredentialRequest _ _ _ _ _ _ | .authPresent _ _ _ | .addMember _ _ _ _ _
  | .addInvitedMember _ _ | .updateProfileKey _ _ _ _ | .deleteMember _ _ => True
  | _ => False

/-- The call is refused before it writes, or what it writes is what the store has. -/
def GroupCall.Harmless (c : GroupHandle S P β π) (recs : GroupRecords S P β π) :
    GroupCall S P β π → Prop
  | .profileKeyCommit gid pk => ∀ x, commitPrep c pk = .ok x → recs (.ownPk gid) = some pk
  | .pkCredentialRequest gid pk y r1 r2 nonces =>
    ∀ tier req, requestPrep c pk y r1 r2 nonces = .ok (tier, req) →
      recs (.blindState gid) = some (req, y)
  | .updateProfileKey gid pk z nonces =>
    ∀ x, (updatePrep c gid pk z nonces ⟨recs, []⟩).1 ≠ .ok x
  | .deleteMember gid uid =>
    ∀ x, (deletePrep c gid uid ⟨recs, []⟩).1 = .ok x → recs (.pkCred gid uid) = none
  | _ => True

omit [DecidableEq P] [Field S] [AddCommGroup P] [Module S P] [Octet β] in
/-- A write changes nothing exactly if the record was there already. -/
theorem update_eq_self {k : GroupRecKey β} {v : Option (k.Val S P π)} :
    (⟨Function.update recs k v, []⟩ : GroupStore S P β π) = ⟨recs, []⟩ ↔ recs k = v := by
  rw [RecStore.mk.injEq, and_iff_left rfl, Function.update_eq_self_iff]
  exact eq_comm

/-- A query or a call with any buffer leaves the store as it is exactly when it is harmless. -/
theorem GroupCall.still_iff {call : GroupCall S P β π} (hcall : call.EmitsObject)
    (out : Option Nat) : (call.run c out ⟨recs, []⟩).2 = ⟨recs, []⟩ ↔ call.Harmless c recs := by
  cases call with
  | exportGroupPublicParams gid =>
    refine ⟨fun _ => trivial, fun _ => Still.bind ?_ fun _ => still_pure _ _⟩
    exact (still_lift _ _).bind fun tier => (still_loadGroup tier gid).bind fun _ => still_lift _ _
  | exportKeyEnvelope gid =>
    refine ⟨fun _ => trivial, fun _ => Still.bind ?_ fun _ => still_pure _ _⟩
    refine (still_lift _ _).bind fun tier => ?_
    refine Still.bind ((still_loadMasterRecord tier gid).bind fun _ => still_pure _ _) fun _ => ?_
    refine Still.bind ((still_fail _ _).ite ?_) fun _ => ?_
    · exact (still_loadMasterRecord tier gid).bind fun _ => still_pure _ _
    · exact (still_lift _ _).bind fun _ => still_lift _ _
  | profileKeyCommit gid pk =>
    simp only [GroupCall.run, snd_bind_pure, groupProfileKeyCommit_apply, GroupCall.Harmless]
    cases commitPrep c pk with
    | error e => exact ⟨fun _ _ h => (by cases h), fun _ => rfl⟩
    | ok x =>
      rw [update_eq_self]
      exact ⟨fun h _ _ => h, fun h => h x rfl⟩
  | pkCredentialRequest gid pk y r1 r2 nonces =>
    simp only [GroupCall.run, snd_bind_pure, groupPkCredentialRequest_apply, GroupCall.Harmless]
    cases requestPrep c pk y r1 r2 nonces with
    | error e => exact ⟨fun _ _ _ h => (by cases h), fun _ => rfl⟩
    | ok x =>
      obtain ⟨tier, req⟩ := x
      rw [update_eq_self]
      refine ⟨fun h tier' req' heq => ?_, fun h => h tier req rfl⟩
      obtain ⟨rfl, rfl⟩ := Prod.mk.inj (Except.ok.inj heq)
      exact h
  | authPresent gid z nonces =>
    refine ⟨fun _ => trivial, fun _ => Still.bind ?_ fun _ => still_pure _ _⟩
    refine (still_lift _ _).bind fun tier => ?_
    cases c.clock with
    | none => exact still_fail _ _
    | some now =>
      refine (still_lift _ _).bind fun uid => (still_loadGroup tier gid).bind fun _ => ?_
      refine still_loadSrv.bind fun _ => Still.bind ?_ fun _ => still_lift _ _
      refine Still.bind ?_ fun _ => (still_lift _ _).ite (still_fail _ _)
      refine (RecStore.still_load _ _).bind fun blob => ?_
      cases blob with
      | none => exact still_fail _ _
      | some cred => exact still_pure _ _
  | addMember gid uid pk z nonces =>
    refine ⟨fun _ => trivial, fun _ => Still.bind ?_ fun _ => still_pure _ _⟩
    refine (still_lift _ _).bind fun tier => (still_loadGroup tier gid).bind fun _ => ?_
    refine still_loadSrv.bind fun _ => Still.bind ?_ fun _ => still_lift _ _
    exact (still_pkCredLoad gid uid).bind fun _ => still_lift _ _
  | addInvitedMember gid uid =>
    refine ⟨fun _ => trivial, fun _ => Still.bind ?_ fun _ => still_pure _ _⟩
    refine (still_lift _ _).bind fun tier => (still_loadGroup tier gid).bind fun _ => ?_
    exact (still_lift _ _).bind fun _ => still_lift _ _
  | updateProfileKey gid pk z nonces =>
    simp only [GroupCall.run, snd_bind_pure, groupUpdateProfileKey_apply, GroupCall.Harmless]
    cases hprep : (updatePrep c gid pk z nonces ⟨recs, []⟩).1 with
    | error e => exact ⟨fun _ _ h => (by cases h), fun _ => rfl⟩
    | ok x =>
      obtain ⟨tier, uid, pres⟩ := x
      refine ⟨fun h => absurd ?_ (updatePrep_cred hprep), fun h => absurd rfl (h _)⟩
      have := congrFun (congrArg RecStore.recs h) (.pkCred gid uid)
      dsimp only at this
      rw [Function.update_self] at this
      exact this.symm
  | deleteMember gid uid =>
    simp only [GroupCall.run, snd_bind_pure, groupDeleteMember_apply, GroupCall.Harmless]
    cases (deletePrep c gid uid ⟨recs, []⟩).1 with
    | error e => exact ⟨fun _ _ h => (by cases h), fun _ => rfl⟩
    | ok x =>
      rw [update_eq_self]
      exact ⟨fun h _ _ => h, fun h => h x rfl⟩
  | installServerParams | formatVersion | create | installKeyEnvelope | forget
  | receiveAuthCredential | pkCredentialFinish | fetchMembers => exact hcall.elim

/-- Size queries and short buffers touch nothing, and so do not show in what follows, exactly when
the call is refused before it writes or writes what the store has. -/
theorem query_untouched_iff {call : GroupCall S P β π} (hcall : call.EmitsObject)
    {out : Option Nat}
    (_hquery : out = none ∨ (call.run c out ⟨recs, []⟩).1 = .error .toolong) :
    ((call.run c out ⟨recs, []⟩).2 = ⟨recs, []⟩ ∧ ∀ (call' : GroupCall S P β π) (out' : Option Nat),
      call'.run c out' (call.run c out ⟨recs, []⟩).2 = call'.run c out' ⟨recs, []⟩) ↔
      call.Harmless c recs := by
  rw [← GroupCall.still_iff hcall out]
  refine and_iff_left_of_imp fun h call' out' => ?_
  rw [h]

end Harmless

end Query

namespace GroupSample

/-- The custodian of user 4. -/
def handle : GroupHandle Zq Zq Sym (IdealProof Zq Sym) := ⟨some tier, true, (uid 4).1, some 86400⟩

/-- A group identifier. -/
def gid : GroupId Sym := blockOf _ (.num 1)

/-- The master key that the runs draw. -/
def drawn : (n : Nat) → Block n Sym := fun n => blockOf n (.num 3)

/-- The group of that key. -/
def made : GroupId Sym :=
  match groupDerive tier tier.gens groupFormatVersion (drawn 32).1 with
  | .ok (id, _, _) => id
  | .error _ => gid

/-- An event without failing callbacks. -/
def event (call : GroupCall Zq Zq Sym (IdealProof Zq Sym)) :
    GroupEvent Zq Zq Sym (IdealProof Zq Sym) := ⟨true, some 86400, call, some 4096, []⟩

/-- The store of a new custodian. -/
def freshStore : GroupStore Zq Zq Sym (IdealProof Zq Sym) := ⟨GroupRecords.fresh, []⟩

/-- User 4 asks for a credential for profile key 5. -/
def askCred : GroupCall Zq Zq Sym (IdealProof Zq Sym) :=
  .pkCredentialRequest made (pk 5) (zq 2) (zq 3) (zq 4) fun _ => 1

/-- The answer of the server. -/
def credAnswer : Option (GroupPkBlindResponse Zq Zq (IdealProof Zq Sym)) :=
  match gyGroupPkRequest tier tier.gens (uid 4) (pk 5) (zq 2) (zq 3) (zq 4) fun _ => 1 with
  | .error _ => none
  | .ok req => (gyGroupPkBlindIssue tier tier.gens (issuerKey 4) (uid 4)
    (tier.commitment tier.gens (uid 4) (pk 5)) req (zq 5) (zq 6) (zq 7) fun _ => 1).toOption

/-- User 4 makes a group and gets a profile-key credential for it. -/
def acquireCred : List (GroupEvent Zq Zq Sym (IdealProof Zq Sym)) :=
  [event (.installServerParams
      (some ((issuerKey 3).publicThree tier.gens, (issuerKey 4).publicFour tier.gens))),
    event (.create drawn), event askCred, event (.pkCredentialFinish made (pk 5) credAnswer)]

/-- The records of user 4 with a group and a profile-key credential for it. -/
def acquired : GroupRecords Zq Zq Sym (IdealProof Zq Sym) := groupRun handle .fresh acquireCred

set_option maxRecDepth 8000 in
/-- User 4, with a group and a credential for it, asks for the sizes of the public parameters, of
the object that adds the user itself and of the one that deletes user 5, for whom no credential is
cached: each query is answered and leaves the records as they are. -/
theorem answered_queries_untouched :
    List.Forall (fun call : GroupCall Zq Zq Sym (IdealProof Zq Sym) =>
        (∃ n, (GroupCall.run handle call none ⟨acquired, []⟩).1 = .ok (.size n)) ∧
          (GroupCall.run handle call none ⟨acquired, []⟩).2 = ⟨acquired, []⟩)
      [.exportGroupPublicParams made, .addMember made (uid 4) (pk 5) (zq 8) fun _ => 1,
        .deleteMember made (uid 5)] := by
  have hstill : ∀ call : GroupCall Zq Zq Sym (IdealProof Zq Sym), call.EmitsObject →
      call.Harmless handle acquired →
        (GroupCall.run handle call none ⟨acquired, []⟩).2 = ⟨acquired, []⟩ :=
    fun _ hemits hharm => ((query_untouched_iff hemits (.inl rfl)).2 hharm).1
  refine List.forall_iff_forall_mem.2 fun call hcall => ?_
  simp only [List.mem_cons, List.not_mem_nil, or_false] at hcall
  rcases hcall with rfl | rfl | rfl
  · exact ⟨⟨_, rfl⟩, hstill _ trivial trivial⟩
  · exact ⟨⟨_, rfl⟩, hstill _ trivial trivial⟩
  · exact ⟨⟨_, rfl⟩, hstill _ trivial fun _ _ => rfl⟩

/-- Asking for the size of a commitment stores the profile key. -/
theorem commit_query_stores :
    (∃ n, (GroupCall.run handle (.profileKeyCommit gid (pk 5)) none freshStore).1 =
      .ok (.size n)) ∧
    (GroupCall.run handle (.profileKeyCommit gid (pk 5)) none freshStore).2.recs (.ownPk gid) =
      some (pk 5) ∧
    freshStore.recs (.ownPk gid) = none :=
  ⟨⟨99, rfl⟩, rfl, rfl⟩

end GroupSample

end Geryon
