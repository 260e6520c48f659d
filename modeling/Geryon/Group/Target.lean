import Geryon.Group.Query

/-!
# Credentials for other users

The facade fetches profile-key credentials for the custodian's own user id only, so the credential
that adding another user loads is never there.
-/

namespace Geryon

section Target

variable {S P β π : Type} [Field S] [AddCommGroup P] [Module S P] [Octet β] [DecidableEq β]
  [DecidableEq P] {c : GroupHandle S P β π} {recs recs' : GroupRecords S P β π}

/-- No profile-key credential of another user is stored. -/
def OwnCredsOnly (c : GroupHandle S P β π) (recs : GroupRecords S P β π) : Prop :=
  ∀ gid uid, uid.1 ≠ c.selfUid → recs (.pkCred gid uid) = none

omit [Field S] [AddCommGroup P] [Module S P] [Octet β] [DecidableEq β] [DecidableEq P] in
theorem groupSelfUid_ok {uid : GroupUid β} (h : groupSelfUid c = .ok uid) : uid.1 = c.selfUid := by
  unfold groupSelfUid at h
  split at h
  · exact congrArg Subtype.val (Except.ok.inj h).symm
  · cases h

omit [DecidableEq β] [DecidableEq P] in
theorem OwnCredsOnly.written {call : GroupCall S P β π} (h : OwnCredsOnly c recs)
    (hw : GroupWritten c recs call recs') : OwnCredsOnly c recs' := by
  intro gid uid huid
  rcases hw (.pkCred gid uid) with heq | hwr
  · rw [heq, h gid uid huid]
  · generalize hv : recs' (.pkCred gid uid) = v at hwr
    cases hwr with
    | finish _ _ hself => exact absurd (groupSelfUid_ok hself) huid
    | updateDrop => rfl
    | deleteDrop => rfl

theorem OwnCredsOnly.run (h : OwnCredsOnly c recs) (evs : List (GroupEvent S P β π)) :
    OwnCredsOnly c (groupRun c recs evs) :=
  @groupRun_induction _ _ _ _ _ _ _ _ _ _ c (OwnCredsOnly c)
    (fun recs ev h => OwnCredsOnly.written (c := ev.handle c) h (ev.step_written c recs)) _ h evs

/-- Adding a user without a stored credential fails and changes nothing. -/
theorem addMember_absent {ev : GroupEvent S P β π} {gid : GroupId β} {uid : GroupUid β}
    {pk : ProfileKey β} {z : S} {nonces : Nat → S}
    (hcall : ev.call = .addMember gid uid pk z nonces)
    (hrec : recs (.pkCred gid uid) = none) :
    (∃ e, (ev.step c recs).1 = .error e) ∧ (ev.step c recs).2 = recs := by
  have hens : RecStore.Ensures False (ev.call.run (ev.handle c) ev.out) recs
      fun r recs' => (∃ e, r = .error e) ∧ recs' = recs := by
    rw [hcall]
    refine RecStore.Ensures.bind_pure (ensures_groupAddMember (fun e => ⟨⟨e, rfl⟩, rfl⟩) ?_)
    rintro pres r ⟨_, _, _, _, _, cred, _, _, _, hcred, _⟩ _
    rw [hrec] at hcred
    cases hcred
  exact GroupEvent.step_of_ensures hens

/-- Adding another user fails in every run. -/
theorem addMember_other_fails {V : GroupUid β} (hV : V.1 ≠ c.selfUid)
    (evs : List (GroupEvent S P β π)) {ev : GroupEvent S P β π} {gid : GroupId β}
    {pk : ProfileKey β} {z : S} {nonces : Nat → S}
    (hcall : ev.call = .addMember gid V pk z nonces) :
    groupRun c .fresh evs (.pkCred gid V) = none ∧
      ∃ e, (ev.step c (groupRun c .fresh evs)).1 = .error e := by
  have hrec := @OwnCredsOnly.run _ _ _ _ _ _ _ _ _ _ c .fresh (fun _ _ _ => rfl) evs gid V hV
  exact ⟨hrec, (addMember_absent hcall hrec).1⟩

/-- Whatever calls a custodian makes, with whatever answers of the server, adding a user other than
its own fails, and no call has written the credential this needs. -/
theorem addMember_never {V : GroupUid β} (hV : V.1 ≠ c.selfUid)
    (evs : List (GroupEvent S P β π)) (unlocked : Bool) (clock : Option UInt64)
    (gid : GroupId β) (pk : ProfileKey β) (z : S) (nonces : Nat → S) (out : Option Nat)
    (faults : List (Option (Fault GyErr))) :
    groupRun c .fresh evs (.pkCred gid V) = none ∧
      ∃ e, (GroupEvent.step c (groupRun c .fresh evs)
        ⟨unlocked, clock, .addMember gid V pk z nonces, out, faults⟩).1 = .error e :=
  addMember_other_fails hV evs rfl

end Target

namespace GroupSample

set_option maxRecDepth 8000 in
/-- User 4 has made a group and finished its own credential, with which it could add itself: adding
user 5 fails all the same. -/
theorem addMember_never_user5 :
    (∃ pres, (GroupEvent.step handle (groupRun handle .fresh acquireCred)
        (event (.addMember made (uid 4) (pk 5) (zq 8) fun _ => 1))).1 =
          .ok (.pkPresentation pres)) ∧
      ∃ e, (GroupEvent.step handle (groupRun handle .fresh acquireCred)
        (event (.addMember made (uid 5) (pk 5) (zq 8) fun _ => 1))).1 = .error e :=
  ⟨⟨_, rfl⟩, (addMember_never (c := handle) (V := uid 5) (by decide) acquireCred true _ made (pk 5)
    (zq 8) (fun _ => 1) _ []).2⟩

/-- User 4 adds user 5 in no run. -/
theorem user5_not_added :
    ¬ ∃ (evs : List (GroupEvent Zq Zq Sym (IdealProof Zq Sym)))
      (ev : GroupEvent Zq Zq Sym (IdealProof Zq Sym)) (gid : GroupId Sym) (z : Zq)
      (nonces : Nat → Zq) (r : GroupOut Zq Zq Sym (IdealProof Zq Sym)),
      ev.call = .addMember gid (uid 5) (pk 5) z nonces ∧
        (ev.step handle (groupRun handle .fresh evs)).1 = .ok r := by
  rintro ⟨evs, ev, gid, z, nonces, r, hcall, hr⟩
  obtain ⟨-, e, he⟩ := addMember_other_fails (c := handle) (V := uid 5) (by decide) evs hcall
  rw [he] at hr
  cases hr

end GroupSample

end Geryon
