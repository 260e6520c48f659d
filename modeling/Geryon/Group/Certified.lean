import Geryon.Group.Complete
import Geryon.Group.Query
import Geryon.Group.Target

/-!
# Presentations that the server accepts

A custodian that talks to one honest server, whose answers may have been issued for anyone. An
answer that the custodian accepts certifies what the custodian asked for: the user id and date it
gave, or the profile key of its outstanding request. What it presents later is combined from a
stored credential and from values of that later call, and is accepted where the two agree.
-/

namespace Geryon

section Certified

variable {S P β π : Type} [Field S] [AddCommGroup P] [Module S P] [Octet β]

/-! ## Accepted answers -/

section Answers

variable {tier : GroupTier S P β π} {gens : GroupGenerators P} {sk : GroupServerSecret S P}

/-- The answer was issued by the key, for some user id and date. -/
def AuthIssued (tier : GroupTier S P β π) (gens : GroupGenerators P) (sk : GroupServerSecret S P)
    (resp : GroupAuthResponse S P π) : Prop :=
  ∃ uid date t u nonces, gyGroupAuthIssue tier gens sk uid date t u nonces = .ok resp

/-- The answer was issued by the key, for some user id, commitment and request. -/
def PkIssued (tier : GroupTier S P β π) (gens : GroupGenerators P) (sk : GroupServerSecret S P)
    (resp : GroupPkBlindResponse S P π) : Prop :=
  ∃ uid commit req t u rp nonces,
    gyGroupPkBlindIssue tier gens sk uid commit req t u rp nonces = .ok resp

omit [Field S] [AddCommGroup P] [Module S P] in
/-- A proof that was made is accepted for no other statement. -/
theorem groupCheck_binds [Semiring S] [AddCommMonoid P] [Module S P] (hB : tier.nizk.Binds)
    {k : Nat} {st st' : Conj k P}
    {w : Fin k → S} {role : Bytes β} {purpose : String} (hp : purpose.length ≤ 16)
    {nonces : Nat → S} {proof : π} (hprove : groupProve tier st w role purpose nonces = .ok proof)
    (hcheck : groupCheck tier proof st' role purpose = .ok ()) : st = st' := by
  -- prover and verifier hash one domain
  rw [groupProve, gyGroupDomain_eq tier hp, Except.ok_bind] at hprove
  rw [groupCheck, gyGroupDomain_eq tier hp, Except.ok_bind] at hcheck
  split at hprove
  · next p hsome =>
    obtain rfl := Except.ok.inj hprove
    split at hcheck
    · next hv => exact hB hsome hv
    · cases hcheck
  · cases hprove

theorem day_of_attrAuth {uid : GroupUid β} {date : UInt64} {m : List P}
    (h : gyGroupAttrAuth tier gens uid date = .ok m) : date.toNat % groupDaySecs = 0 := by
  rw [gyGroupAttrAuth, gyGroupAttrsUid_eq, Except.ok_bind] at h
  obtain ⟨m3, hm3, -⟩ := Except.bind_eq_ok_iff.1 h
  obtain ⟨s, hs, -⟩ := Except.bind_eq_ok_iff.1 hm3
  unfold gyGroupRedemptionScalar at hs
  split at hs
  · cases hs
  · next hday => exact not_not.1 hday

/-- What an issued auth answer consists of. -/
theorem authIssue_ok (hn : sk.nBound = 3) {uid : GroupUid β} {date : UInt64} {t u : S}
    {nonces : Nat → S} {resp : GroupAuthResponse S P π}
    (h : gyGroupAuthIssue tier gens sk uid date t u nonces = .ok resp) :
    sk.Certifies tier gens uid date resp.mac ∧
      groupProve tier (gyGroupBuildPiI gens (sk.publicThree gens).cW (sk.publicThree gens).i
        resp.mac (tier.m1 uid) (tier.encodeUid uid) ((date.toNat : S) • gens .m3))
        ![sk.w, sk.wprime, sk.x0, sk.x1, sk.y1, sk.y2, sk.y3] groupRoleIssuer "pi_I" nonces =
          .ok resp.proof := by
  rw [gyGroupAuthIssue, if_neg (not_not.2 hn)] at h
  obtain ⟨m, hm, h⟩ := Except.bind_eq_ok_iff.1 h
  rw [gyGroupAttrAuth_eq tier uid gens (day_of_attrAuth hm)] at hm
  -- the MAC is over the attributes the proof speaks of
  obtain rfl := Except.ok.inj hm
  rw [gyGroupMac, groupMacRecomputeV_three hn, gyGroupServerPublicFromSecret_three hn] at h
  obtain ⟨mac, hmac, h⟩ := Except.bind_eq_ok_iff.1 h
  obtain rfl := Except.ok.inj hmac
  obtain ⟨proof, hprove, h⟩ := Except.bind_eq_ok_iff.1 (Except.ok_bind _ _ ▸ h)
  obtain rfl := Except.ok.inj h
  exact ⟨rfl, hprove⟩

/-- An issued answer that is accepted for a user id and a date certifies them. -/
theorem certifies_of_issued (hB : tier.nizk.Binds) (hn : sk.nBound = 3)
    {resp : GroupAuthResponse S P π} (hissued : AuthIssued tier gens sk resp) {uid : GroupUid β}
    {date : UInt64}
    (hv : gyGroupAuthVerify tier gens (sk.publicThree gens) uid date resp = .ok ()) :
    date.toNat % groupDaySecs = 0 ∧ sk.Certifies tier gens uid date resp.mac := by
  obtain ⟨uid', date', t, u, nonces, hissue⟩ := hissued
  obtain ⟨hcert, hprove⟩ := authIssue_ok hn hissue
  obtain ⟨m, hm, hcheck⟩ := Except.bind_eq_ok_iff.1 hv
  have hday := day_of_attrAuth hm
  rw [gyGroupAttrAuth_eq tier uid gens hday] at hm
  obtain rfl := Except.ok.inj hm
  refine ⟨hday, ?_⟩
  -- the statement that was proved is the one that is verified, attribute by attribute
  have hst := groupCheck_binds hB (by decide) hprove hcheck
  simp only [gyGroupBuildPiI, List.cons.injEq, ConjEq.mk.injEq, Prod.mk.injEq, true_and, and_true,
    List.getD_cons_zero, List.getD_cons_succ] at hst
  obtain ⟨h1, h2, h3⟩ := hst
  rw [GroupServerSecret.Certifies, hcert, h1, h2, h3]

/-- What an issued blind answer consists of. -/
theorem pkBlindIssue_ok (hn : sk.nBound = 4) {uid : GroupUid β} {commit : GroupPkCommitment P}
    {req : GroupPkRequest P π} {t u rp : S} {nonces : Nat → S} {resp : GroupPkBlindResponse S P π}
    (h : gyGroupPkBlindIssue tier gens sk uid commit req t u rp nonces = .ok resp) :
    resp.s1 = sk.y3 • req.d1 + sk.y4 • req.e1 + rp • tier.base ∧
      resp.s2 = sk.y3 • req.d2 + sk.y4 • req.e2 + rp • req.y +
        (sk.bigW + (sk.x0 + sk.x1 * resp.t) • resp.u + sk.y1 • tier.m1 uid +
          sk.y2 • tier.encodeUid uid) ∧
      groupProve tier (gyGroupBuildPiBi gens tier.base (sk.publicFour gens).cW
        (sk.publicFour gens).i req.toGroupPkBlinded resp.u (resp.t • resp.u) (tier.m1 uid)
        (tier.encodeUid uid) resp.s1 resp.s2)
        ![sk.w, sk.wprime, sk.y1, sk.y2, sk.y3, sk.y4, sk.x0, sk.x1, rp] groupRoleIssuer "pi_BI"
        nonces = .ok resp.proof := by
  rw [gyGroupPkBlindIssue, if_neg (not_not.2 hn)] at h
  obtain ⟨-, -, h⟩ := Except.bind_eq_ok_iff.1 h
  rw [gyGroupServerPublicFromSecret_four hn, Except.ok_bind, gyGroupAttrsUid_eq,
    Except.ok_bind] at h
  obtain ⟨proof, hprove, h⟩ := Except.bind_eq_ok_iff.1 h
  obtain rfl := Except.ok.inj h
  exact ⟨rfl, rfl, hprove⟩

/-- An issued answer that is accepted for a request certifies what was requested. -/
theorem certifiesPk_of_issued (hB : tier.nizk.Binds) (hn : sk.nBound = 4)
    {resp : GroupPkBlindResponse S P π} (hissued : PkIssued tier gens sk resp) {uid : GroupUid β}
    {pk : ProfileKey β} {req : GroupPkBlinded P} {y r1 r2 : S}
    (hreq : req = blindedPk tier (tier.m3 uid pk) (tier.encodePk pk) y r1 r2)
    {cred : GroupMacTag S P}
    (hv : gyGroupPkBlindReceive tier gens (sk.publicFour gens) uid req y resp = .ok cred) :
    sk.CertifiesPk tier uid pk cred := by
  obtain ⟨uid', commit', ⟨⟨y', d1, d2, e1, e2⟩, proof'⟩, t, u, rp, nonces, hissue⟩ := hissued
  obtain ⟨hs1, hs2, hprove⟩ := pkBlindIssue_ok hn hissue
  rw [gyGroupPkBlindReceive, gyGroupAttrsUid_eq, Except.ok_bind] at hv
  obtain ⟨_, hcheck, hv⟩ := Except.bind_eq_ok_iff.1 hv
  obtain rfl := Except.ok.inj hv
  -- the statement that was proved is the one that is verified, blinded request included
  have hst := groupCheck_binds hB (by decide) hprove hcheck
  simp only [gyGroupBuildPiBi, List.cons.injEq, ConjEq.mk.injEq, Prod.mk.injEq, true_and,
    and_true] at hst
  obtain ⟨⟨h1, h2⟩, h3, h4, h5, h6, h7⟩ := hst
  -- what the receiver takes off is what the server put on
  have hunblind : resp.s2 - y • resp.s1 =
      sk.y3 • (req.d2 - y • req.d1) + sk.y4 • (req.e2 - y • req.e1) +
        rp • (req.y - y • tier.base) + (sk.bigW + (sk.x0 + sk.x1 * resp.t) • resp.u +
          sk.y1 • tier.m1 uid + sk.y2 • tier.encodeUid uid) := by
    dsimp only at hs1 hs2
    rw [hs1, hs2, h1, h2, h3, h4, h5, h6, h7]
    module
  exact certifiesPk_of_unblinded hreq hunblind

end Answers

/-! ## The server's checks -/

section Server

variable (tier : GroupTier S P β π) (gens : GroupGenerators P)

end Server

section Presented

variable {tier : GroupTier S P β π} {c : GroupHandle S P β π}
  {skA skP : GroupServerSecret S P} {recs : GroupRecords S P β π} {gid : GroupId β}
  {uid : GroupUid β} {pk : ProfileKey β} {z : S} {nonces : Nat → S}

/-- The installed parameters are those of the server. -/
def ServerInstalled (tier : GroupTier S P β π) (skA skP : GroupServerSecret S P)
    (recs : GroupRecords S P β π) : Prop :=
  ∀ srv, recs .serverParams = some srv →
    srv = (skA.publicThree tier.gens, skP.publicFour tier.gens)

end Presented

/-! ## What the stored credentials were asked for -/

section History

variable [DecidableEq β] [DecidableEq P]

/-- For whom the stored credentials were asked: the user id that an auth credential was received
for, the profile key of an outstanding request, and that of the request whose answer is a stored
profile-key credential. -/
structure GroupHistory (β : Type) where
  authUid : GroupId β → Option (GroupUid β)
  requestPk : GroupId β → Option (ProfileKey β)
  credPk : GroupId β → GroupUid β → Option (ProfileKey β)

/-- The user id an auth credential is received for. -/
def GroupCall.receivedUid : GroupCall S P β π → Option (GroupUid β)
  | .receiveAuthCredential _ uid _ _ => some uid
  | _ => none

/-- The profile key a credential is requested for. -/
def GroupCall.requestedPk : GroupCall S P β π → Option (ProfileKey β)
  | .pkCredentialRequest _ pk _ _ _ _ => some pk
  | _ => none

open Classical in
/-- The history after a call: it changes with the records. -/
noncomputable def GroupHistory.after (hist : GroupHistory β) (recs recs' : GroupRecords S P β π)
    (call : GroupCall S P β π) : GroupHistory β where
  authUid gid :=
    if recs' (.authCred gid) = recs (.authCred gid) then hist.authUid gid else call.receivedUid
  requestPk gid :=
    if recs' (.blindState gid) = recs (.blindState gid) then hist.requestPk gid
    else call.requestedPk
  credPk gid uid :=
    if recs' (.pkCred gid uid) = recs (.pkCred gid uid) then hist.credPk gid uid
    else hist.requestPk gid

/-- The server behind the call is the honest one, whoever it issues for. -/
def HonestAnswers (tier : GroupTier S P β π) (skA skP : GroupServerSecret S P) :
    GroupCall S P β π → Prop
  | .installServerParams params =>
    ∀ srv ∈ params, srv = (skA.publicThree tier.gens, skP.publicFour tier.gens)
  | .receiveAuthCredential _ _ _ resp => ∀ r ∈ resp, AuthIssued tier tier.gens skA r
  | .pkCredentialFinish _ _ resp => ∀ r ∈ resp, PkIssued tier tier.gens skP r
  | _ => True

/-- Every stored credential certifies what it was asked for. -/
structure Attested (tier : GroupTier S P β π) (c : GroupHandle S P β π)
    (skA skP : GroupServerSecret S P) (recs : GroupRecords S P β π) (hist : GroupHistory β) :
    Prop where
  server : ServerInstalled tier skA skP recs
  auth : ∀ gid mac date, recs (.authCred gid) = some (mac, date) →
    ∃ uid, hist.authUid gid = some uid ∧ date.toNat % groupDaySecs = 0 ∧
      skA.Certifies tier tier.gens uid date mac
  request : ∀ gid req y, recs (.blindState gid) = some (req, y) →
    ∃ uid pk r1 r2, groupSelfUid c = .ok uid ∧ hist.requestPk gid = some pk ∧
      req.toGroupPkBlinded = blindedPk tier (tier.m3 uid pk) (tier.encodePk pk) y r1 r2
  cred : ∀ gid uid cred, recs (.pkCred gid uid) = some cred →
    ∃ pk, hist.credPk gid uid = some pk ∧ skP.CertifiesPk tier uid pk cred

section Step

variable {tier : GroupTier S P β π} {c : GroupHandle S P β π} {skA skP : GroupServerSecret S P}
  {recs recs' : GroupRecords S P β π} {hist : GroupHistory β} {call : GroupCall S P β π}

omit [DecidableEq β] in
/-- A call of the honest server's custodian keeps every credential attested. -/
theorem Attested.written (h : Attested tier c skA skP recs hist) (htier : c.tier = some tier)
    (hN : tier.nizk.Complete) (hB : tier.nizk.Binds) (hA : skA.nBound = 3) (hP : skP.nBound = 4)
    (hhonest : HonestAnswers tier skA skP call) (hw : GroupWritten c recs call recs') :
    Attested tier c skA skP recs' (hist.after recs recs' call) := by
  refine ⟨?_, ?_, ?_, ?_⟩
  · intro srv hsrv
    -- a record is the old one or one this call wrote
    rcases hw .serverParams with heq | hwr
    · exact h.server srv (heq.symm.trans hsrv)
    · rw [hsrv] at hwr
      cases hwr
      exact hhonest srv rfl
  · intro gid mac date hrec
    rw [GroupHistory.after]
    dsimp only
    split
    · next heq => exact h.auth gid mac date (heq.symm.trans hrec)
    · next hne =>
      have hwr := (hw (.authCred gid)).resolve_left hne
      rw [hrec] at hwr
      cases hwr with
      -- the client verified the answer before it stored the credential
      | receive htier' hgens hsrv hv =>
        obtain rfl := Option.some.inj (htier.symm.trans htier')
        obtain rfl := Except.ok.inj ((gyGroupGeneratorsDerive_eq tier).symm.trans hgens)
        obtain rfl := h.server _ hsrv
        exact ⟨_, rfl, certifies_of_issued hB hA (hhonest _ rfl) hv⟩
  · intro gid req y hrec
    rw [GroupHistory.after]
    dsimp only
    split
    · next heq => exact h.request gid req y (heq.symm.trans hrec)
    · next hne =>
      have hwr := (hw (.blindState gid)).resolve_left hne
      rw [hrec] at hwr
      cases hwr with
      -- the stored request is the blinding of the id the custodian has
      | request htier' hgens huid hreq =>
        obtain rfl := Option.some.inj (htier.symm.trans htier')
        obtain rfl := Except.ok.inj ((gyGroupGeneratorsDerive_eq tier).symm.trans hgens)
        obtain ⟨req', hreq', hblind, -⟩ := pkRequest_checked hN _ _ _ _
        obtain rfl := Except.ok.inj (hreq'.symm.trans hreq)
        exact ⟨_, _, _, _, huid, rfl, hblind⟩
  · intro gid uid cred hrec
    rw [GroupHistory.after]
    dsimp only
    split
    · next heq => exact h.cred gid uid cred (heq.symm.trans hrec)
    · next hne =>
      have hwr := (hw (.pkCred gid uid)).resolve_left hne
      rw [hrec] at hwr
      cases hwr with
      -- the credential is unblinded from the request this custodian made
      | finish htier' hgens huid hsrv hblind hcred =>
        obtain rfl := Option.some.inj (htier.symm.trans htier')
        obtain rfl := Except.ok.inj ((gyGroupGeneratorsDerive_eq tier).symm.trans hgens)
        obtain rfl := h.server _ hsrv
        obtain ⟨uid', pk, r1, r2, huid', hpk, hreq⟩ := h.request gid _ _ hblind
        obtain rfl := Except.ok.inj (huid'.symm.trans huid)
        exact ⟨pk, hpk, certifiesPk_of_issued hB hP (hhonest _ rfl) hreq hcred⟩

theorem Attested.step {ev : GroupEvent S P β π} (h : Attested tier c skA skP recs hist)
    (htier : c.tier = some tier) (hN : tier.nizk.Complete) (hB : tier.nizk.Binds)
    (hA : skA.nBound = 3) (hP : skP.nBound = 4) (hhonest : HonestAnswers tier skA skP ev.call) :
    Attested tier c skA skP (ev.step c recs).2 (hist.after recs (ev.step c recs).2 ev.call) := by
  -- the lock state and the clock of the event play no part
  have hev : Attested tier (ev.handle c) skA skP recs hist :=
    ⟨h.server, h.auth, h.request, h.cred⟩
  have hafter := hev.written htier hN hB hA hP hhonest (ev.step_written c recs)
  exact ⟨hafter.server, hafter.auth, hafter.request, hafter.cred⟩

section Events

open RecStore

variable {ev : GroupEvent S P β π} {gid : GroupId β} {uid : GroupUid β} {pk : ProfileKey β}
  {z : S} {nonces : Nat → S}

end Events

end Step

end History

end Certified

namespace GroupSample

/-- The parameters of the server. -/
def install : GroupCall Zq Zq Sym (IdealProof Zq Sym) :=
  .installServerParams
    (some ((issuerKey 3).publicThree tier.gens, (issuerKey 4).publicFour tier.gens))

/-- The presentation of the stored credential. -/
def present : GroupEvent Zq Zq Sym (IdealProof Zq Sym) :=
  event (.authPresent made (zq 10) fun _ => 1)

end GroupSample

end Geryon
