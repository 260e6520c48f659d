import Geryon.Group.Sample
import Mathlib.Tactic.Module

/-!
# Completeness of the credentials

Every credential an issuer hands out is accepted by the client, and every presentation of a valid
credential is accepted by the server. The five proof statements are solved by the witnesses the code
passes to the prover, whatever the keys and the randomness, so completeness of the conjunction proof
carries over to the credential system.
-/

namespace Geryon

variable {S P β π : Type} [Field S] [AddCommGroup P] [Module S P]

/-! ## Keys -/

/-- What `gy_group_server_keygen` establishes of a key for `n` attributes. -/
structure GroupServerSecret.Generated (gens : GroupGenerators P) (n : Nat)
    (sk : GroupServerSecret S P) : Prop where
  bigW : sk.bigW = sk.w • gens .w
  nBound : sk.nBound = n

/-- What key generation says of the key. -/
theorem generated_of_keygen {gens : GroupGenerators P} {n : Nat}
    {w wprime x0 x1 y1 y2 y3 y4 : S} {sk : GroupServerSecret S P}
    (h : gyGroupServerKeygen gens n w wprime x0 x1 y1 y2 y3 y4 = .ok sk) :
    sk.Generated gens n := by
  unfold gyGroupServerKeygen at h
  split at h
  · cases h
  · obtain rfl := Except.ok.inj h
    exact ⟨rfl, rfl⟩

/-- The public parameters of a key for three attributes. -/
def GroupServerSecret.publicThree (gens : GroupGenerators P) (sk : GroupServerSecret S P) :
    GroupServerPublic P :=
  ⟨sk.bigW + sk.wprime • gens .wprime,
    gens .v - (sk.x0 • gens .x0 + sk.x1 • gens .x1 + sk.y1 • gens .y1 + sk.y2 • gens .y2 +
      sk.y3 • gens .y3)⟩

/-- The public parameters of a key for four attributes. -/
def GroupServerSecret.publicFour (gens : GroupGenerators P) (sk : GroupServerSecret S P) :
    GroupServerPublic P :=
  ⟨sk.bigW + sk.wprime • gens .wprime,
    gens .v - (sk.x0 • gens .x0 + sk.x1 • gens .x1 + sk.y1 • gens .y1 + sk.y2 • gens .y2 +
      sk.y3 • gens .y3 + sk.y4 • gens .y4)⟩

/-- What the last component of a tag over three attributes is. -/
def GroupServerSecret.macThree (sk : GroupServerSecret S P) (m1 m2 m3 : P) (t : S) (u : P) : P :=
  sk.bigW + (sk.x0 + sk.x1 * t) • u + sk.y1 • m1 + sk.y2 • m2 + sk.y3 • m3

/-- What the last component of a tag over four attributes is. -/
def GroupServerSecret.macFour (sk : GroupServerSecret S P) (m1 m2 m3 m4 : P) (t : S) (u : P) : P :=
  sk.bigW + (sk.x0 + sk.x1 * t) • u + sk.y1 • m1 + sk.y2 • m2 + sk.y3 • m3 + sk.y4 • m4

section Keys

variable {gens : GroupGenerators P} {sk : GroupServerSecret S P}

/-- The public key of a secret key for three attributes. -/
theorem gyGroupServerPublicFromSecret_three (hn : sk.nBound = 3) :
    gyGroupServerPublicFromSecret gens sk = .ok (sk.publicThree gens) := by
  rw [gyGroupServerPublicFromSecret, if_neg (by omega)]
  simp [GroupServerSecret.ys, hn, GroupServerSecret.publicThree]

/-- And for four. -/
theorem gyGroupServerPublicFromSecret_four (hn : sk.nBound = 4) :
    gyGroupServerPublicFromSecret gens sk = .ok (sk.publicFour gens) := by
  rw [gyGroupServerPublicFromSecret, if_neg (by omega)]
  simp [GroupServerSecret.ys, hn, GroupServerSecret.publicFour]

/-- The tag on three attributes. -/
theorem groupMacRecomputeV_three (hn : sk.nBound = 3) (m1 m2 m3 : P) (t : S) (u : P) :
    groupMacRecomputeV sk [m1, m2, m3] t u =
      .ok (sk.macThree m1 m2 m3 t u) := by
  rw [groupMacRecomputeV, if_neg (by simp [hn])]
  simp [GroupServerSecret.ys, hn, GroupServerSecret.macThree]

/-- And on four. -/
theorem groupMacRecomputeV_four (hn : sk.nBound = 4) (m1 m2 m3 m4 : P) (t : S) (u : P) :
    groupMacRecomputeV sk [m1, m2, m3, m4] t u =
      .ok (sk.macFour m1 m2 m3 m4 t u) := by
  rw [groupMacRecomputeV, if_neg (by simp [hn])]
  simp [GroupServerSecret.ys, hn, GroupServerSecret.macFour]

/-- A tag is accepted when its last component is the recomputed one. -/
theorem gyGroupVerify_iff [DecidableEq P] {m : List P} {tag : GroupMacTag S P} {v : P}
    (hv : groupMacRecomputeV sk m tag.t tag.u = .ok v) :
    gyGroupVerify sk m tag = .ok () ↔ tag.v = v := by
  rw [gyGroupVerify, hv, Except.ok_bind]
  split
  · next h => simp [h]
  · next h => simp [Ne.symm h]

end Keys

/-! ## The proof system under a label -/

section Proofs

variable [Octet β] {tier : GroupTier S P β π}

/-- A solved statement is proved and its proof is accepted. -/
theorem groupProve_of_holds (hN : tier.nizk.Complete) {k : Nat} {st : Conj k P} {w : Fin k → S}
    (hst : st.Holds w) (role : Bytes β) (purpose : String) (hp : purpose.length ≤ 16)
    (nonces : Nat → S) :
    ∃ p, groupProve tier st w role purpose nonces = .ok p ∧
      groupCheck tier p st role purpose = .ok () := by
  obtain ⟨p, hprove, hcheck⟩ := hN st w role (tier.domain purpose) nonces hst
  refine ⟨p, ?_, ?_⟩
  · rw [groupProve, gyGroupDomain_eq tier hp, Except.ok_bind, hprove]
  · rw [groupCheck, gyGroupDomain_eq tier hp, Except.ok_bind, if_pos hcheck]

end Proofs

/-! ## The statements are solved -/

section Solved

variable {gens : GroupGenerators P} {sk : GroupServerSecret S P}

/-- A valid tag and its key solve `pi_I`. -/
theorem piI_holds (hk : sk.Generated gens 3) {m1 m2 m3 : P} {tag : GroupMacTag S P}
    (hv : tag.v = sk.macThree m1 m2 m3 tag.t tag.u) :
    (gyGroupBuildPiI gens (sk.publicThree gens).cW (sk.publicThree gens).i tag m1 m2 m3).Holds
      ![sk.w, sk.wprime, sk.x0, sk.x1, sk.y1, sk.y2, sk.y3] := by
  rw [gyGroupBuildPiI_holds, hv]
  simp only [GroupServerSecret.publicThree, GroupServerSecret.macThree, hk.bigW]
  refine ⟨rfl, ?_, ?_⟩
  · exact sub_sub_cancel _ _
  · change sk.w • gens .w + (sk.x0 + sk.x1 * tag.t) • tag.u + sk.y1 • m1 + sk.y2 • m2 +
      sk.y3 • m3 = sk.w • gens .w + sk.x0 • tag.u + sk.x1 • tag.t • tag.u + sk.y1 • m1 +
      sk.y2 • m2 + sk.y3 • m3
    module

/-- The verifier's target for a presentation of a valid auth credential is the prover's. -/
theorem authZ_presented (sp : GroupSecretParams S) {cred : GroupMacTag S P} {m1 m2 m3 : P}
    (hv : cred.v = sk.macThree m1 m2 m3 cred.t cred.u) (date : UInt64) (z : S) :
    authZ sk m3 (authPresented gens sp cred m1 m2 date z) = z • (sk.publicThree gens).i := by
  simp only [authZ, authPresented, hv, GroupServerSecret.macThree, GroupServerSecret.publicThree]
  module

/-- A presented auth credential solves `pi_A`. -/
theorem piA_holds (sp : GroupSecretParams S) (cred : GroupMacTag S P) (iA m1 m2 : P)
    (date : UInt64) (z : S) :
    (gyGroupBuildPiA gens iA (gyGroupPublicDerive gens sp).a (z • iA)
      (authPresented gens sp cred m1 m2 date z)).Holds
      ![z, sp.a1, sp.a2, -(z * cred.t), -(z * sp.a1), cred.t] := by
  rw [gyGroupBuildPiA_holds]
  refine ⟨rfl, ?_, rfl, ?_, ?_, rfl⟩
  · change z • gens .x1 + cred.t • cred.u =
      cred.t • (z • gens .x0 + cred.u) + (-(z * cred.t)) • gens .x0 + z • gens .x1
    module
  · change z • gens .y2 + m2 - (sp.a2 • sp.a1 • m1 + m2) = z • gens .y2 - sp.a2 • sp.a1 • m1
    module
  · change sp.a1 • m1 = sp.a1 • (z • gens .y1 + m1) + (-(z * sp.a1)) • gens .y1
    module

/-- A request against its commitment solves `pi_BR`. -/
theorem piBr_holds (g m3 m4 : P) (y r1 r2 j3 : S) :
    (gyGroupBuildPiBr gens g
      ⟨y • g, r1 • g, r1 • y • g + m3, r2 • g, r2 • y • g + m4⟩
      ⟨j3 • gens .j1 + m3, j3 • gens .j2 + m4, j3 • gens .j3⟩).Holds ![y, r1, r2, j3] := by
  rw [gyGroupBuildPiBr_holds]
  refine ⟨rfl, rfl, rfl, rfl, ?_, ?_⟩
  · change r1 • y • g + m3 - (j3 • gens .j1 + m3) = r1 • y • g - j3 • gens .j1
    module
  · change r2 • y • g + m4 - (j3 • gens .j2 + m4) = r2 • y • g - j3 • gens .j2
    module

/-- A blind response solves `pi_BI`, whatever the request. -/
theorem piBi_holds (hk : sk.Generated gens 4) (g : P) (req : GroupPkBlinded P) (m1 m2 : P)
    (t rp : S) (u : P) :
    (gyGroupBuildPiBi gens g (sk.publicFour gens).cW (sk.publicFour gens).i req u (t • u) m1 m2
      (sk.y3 • req.d1 + sk.y4 • req.e1 + rp • g)
      (sk.y3 • req.d2 + sk.y4 • req.e2 + rp • req.y +
        (sk.bigW + (sk.x0 + sk.x1 * t) • u + sk.y1 • m1 + sk.y2 • m2))).Holds
      ![sk.w, sk.wprime, sk.y1, sk.y2, sk.y3, sk.y4, sk.x0, sk.x1, rp] := by
  rw [gyGroupBuildPiBi_holds]
  simp only [GroupServerSecret.publicFour, hk.bigW]
  refine ⟨rfl, ?_, rfl, ?_⟩
  · exact sub_sub_cancel _ _
  · change sk.y3 • req.d2 + sk.y4 • req.e2 + rp • req.y +
        (sk.w • gens .w + (sk.x0 + sk.x1 * t) • u + sk.y1 • m1 + sk.y2 • m2) =
      sk.y3 • req.d2 + sk.y4 • req.e2 + rp • req.y + sk.w • gens .w + sk.x0 • u +
        sk.x1 • t • u + sk.y1 • m1 + sk.y2 • m2
    module

/-- The verifier's target for a presentation of a valid profile-key credential is the prover's. -/
theorem pkZ_presented {cred : GroupMacTag S P} {m1 m2 m3 m4 : P}
    (hv : cred.v = sk.macFour m1 m2 m3 m4 cred.t cred.u) (uct : GroupUidCt P) (pct : GroupPkCt P)
    (z : S) :
    pkZ sk (pkPresented gens cred m1 m2 m3 m4 uct pct z) = z • (sk.publicFour gens).i := by
  simp only [pkZ, pkPresented, hv, GroupServerSecret.macFour, GroupServerSecret.publicFour]
  module

/-- A presented profile-key credential solves `pi_P`. -/
theorem piP_holds (sp : GroupSecretParams S) (cred : GroupMacTag S P) (iP m1 m2 m3 m4 : P) (z : S) :
    (gyGroupBuildPiP gens iP (gyGroupPublicDerive gens sp).a (gyGroupPublicDerive gens sp).b
      (z • iP) (pkPresented gens cred m1 m2 m3 m4 ⟨sp.a1 • m1, sp.a2 • sp.a1 • m1 + m2⟩
        ⟨sp.b1 • m3, sp.b2 • sp.b1 • m3 + m4⟩ z)).Holds
      ![z, sp.a1, sp.a2, sp.b1, sp.b2, -(z * cred.t), -(z * sp.a1), -(z * sp.b1), cred.t] := by
  rw [gyGroupBuildPiP_holds]
  refine ⟨rfl, ?_, rfl, rfl, ?_, ?_, ?_, ?_⟩
  · change z • gens .x1 + cred.t • cred.u =
      cred.t • (z • gens .x0 + cred.u) + (-(z * cred.t)) • gens .x0 + z • gens .x1
    module
  · change z • gens .y2 + m2 - (sp.a2 • sp.a1 • m1 + m2) = z • gens .y2 - sp.a2 • sp.a1 • m1
    module
  · change sp.a1 • m1 = sp.a1 • (z • gens .y1 + m1) + (-(z * sp.a1)) • gens .y1
    module
  · change z • gens .y4 + m4 - (sp.b2 • sp.b1 • m3 + m4) = z • gens .y4 - sp.b2 • sp.b1 • m3
    module
  · change sp.b1 • m3 = sp.b1 • (z • gens .y3 + m3) + (-(z * sp.b1)) • gens .y3
    module

end Solved

/-! ## Auth credentials -/

section Auth

variable [Octet β] {tier : GroupTier S P β π} {gens : GroupGenerators P}
  {sk : GroupServerSecret S P} {uid : GroupUid β} {date : UInt64}

/-- The tag is one on a user id and a date. -/
def GroupServerSecret.Certifies (sk : GroupServerSecret S P) (tier : GroupTier S P β π)
    (gens : GroupGenerators P) (uid : GroupUid β) (date : UInt64) (cred : GroupMacTag S P) : Prop :=
  cred.v = sk.macThree (tier.m1 uid) (tier.encodeUid uid) ((date.toNat : S) • gens .m3) cred.t
    cred.u

/-- What an issuer answers is accepted by the client. -/
theorem authVerify_issued (hN : tier.nizk.Complete) (hk : sk.Generated gens 3)
    (hday : date.toNat % groupDaySecs = 0) (t u : S) (nonces : Nat → S) :
    ∃ resp, gyGroupAuthIssue tier gens sk uid date t u nonces = .ok resp ∧
      sk.Certifies tier gens uid date resp.mac ∧
      gyGroupAuthVerify tier gens (sk.publicThree gens) uid date resp = .ok () := by
  let tag : GroupMacTag S P := ⟨t, u • tier.base, sk.macThree (tier.m1 uid) (tier.encodeUid uid)
    ((date.toNat : S) • gens .m3) t (u • tier.base)⟩
  have hst := @piI_holds _ _ _ _ _ _ _ hk _ _ _ tag rfl
  obtain ⟨p, hprove, hcheck⟩ := groupProve_of_holds hN hst groupRoleIssuer
    "pi_I" (by decide) nonces
  have hattr := gyGroupAttrAuth_eq (S := S) tier uid gens hday
  refine ⟨⟨tag, p⟩, ?_, rfl, ?_⟩
  · rw [gyGroupAuthIssue, if_neg (not_not.2 hk.nBound), hattr, Except.ok_bind, gyGroupMac,
      groupMacRecomputeV_three hk.nBound, gyGroupServerPublicFromSecret_three hk.nBound]
    exact Except.bind_eq_ok_iff.2 ⟨tag, rfl, Except.bind_eq_ok_iff.2 ⟨_, rfl,
      Except.bind_eq_ok_iff.2 ⟨p, hprove, rfl⟩⟩⟩
  · rw [gyGroupAuthVerify, hattr, Except.ok_bind]
    exact hcheck

/-- A presentation of a valid credential is accepted, and carries the ciphertext of the user id. -/
theorem authPresentVerify_presented (hN : tier.nizk.Complete) (hn : sk.nBound = 3)
    (hday : date.toNat % groupDaySecs = 0) (sp : GroupSecretParams S) {cred : GroupMacTag S P}
    (hv : sk.Certifies tier gens uid date cred) (z : S) (nonces : Nat → S) :
    ∃ pres, gyGroupAuthPresent tier gens sp (gyGroupPublicDerive gens sp) (sk.publicThree gens)
        cred uid date z nonces = .ok pres ∧
      gyGroupAuthPresentVerify tier gens sk (gyGroupPublicDerive gens sp) pres = .ok () ∧
      gyGroupUidEncrypt tier sp uid = .ok ⟨pres.eA1, pres.eA2⟩ := by
  let p := authPresented gens sp cred (tier.m1 uid) (tier.encodeUid uid) date z
  have hst := @piA_holds _ _ _ _ _ gens sp cred (sk.publicThree gens).i (tier.m1 uid)
    (tier.encodeUid uid) date z
  have hZ := @authZ_presented _ _ _ _ _ gens _ sp _ _ _ _ hv date z
  obtain ⟨proof, hprove, hcheck⟩ := groupProve_of_holds hN hst groupRoleMember
    "pi_A" (by decide) nonces
  refine ⟨p.withProof proof, ?_, ?_, ?_⟩
  · rw [gyGroupAuthPresent, gyGroupRedemptionScalar_eq hday, Except.ok_bind, gyGroupAttrsUid_eq,
      Except.ok_bind]
    exact Except.bind_eq_ok_iff.2 ⟨proof, hprove, rfl⟩
  · rw [gyGroupAuthPresentVerify, if_neg (not_not.2 hn), gyGroupServerPublicFromSecret_three hn,
      Except.ok_bind]
    have hm3 : gyGroupAuthM3 (S := S) gens (p.withProof proof).date = _ :=
      gyGroupAuthM3_eq gens hday
    rw [hm3]
    rw [← hZ] at hcheck
    exact hcheck
  · rw [gyGroupUidEncrypt, gyGroupAttrsUid_eq, Except.ok_bind]
    rfl

end Auth

/-! ## Profile-key credentials -/

section Profile

variable [Octet β] {tier : GroupTier S P β π} {gens : GroupGenerators P}
  {sk : GroupServerSecret S P} {uid : GroupUid β} {pk : ProfileKey β}

/-- The tag is one on a user id and a profile key. -/
def GroupServerSecret.CertifiesPk (sk : GroupServerSecret S P) (tier : GroupTier S P β π)
    (uid : GroupUid β) (pk : ProfileKey β) (cred : GroupMacTag S P) : Prop :=
  cred.v = sk.macFour (tier.m1 uid) (tier.encodeUid uid) (tier.m3 uid pk) (tier.encodePk pk) cred.t
    cred.u

/-- A profile key credential certifies exactly if the server's check accepts it. -/
theorem certifiesPk_iff [DecidableEq P] (hn : sk.nBound = 4) (cred : GroupMacTag S P) :
    sk.CertifiesPk tier uid pk cred ↔
      (do let m ← gyGroupAttrProfile tier uid pk; gyGroupVerify sk m cred) = .ok () := by
  rw [gyGroupAttrProfile_eq, Except.ok_bind,
    gyGroupVerify_iff (groupMacRecomputeV_four hn _ _ _ _ _ _)]
  rfl

omit [Field S] [AddCommGroup P] [Module S P] in
/-- The points of a profile key. -/
theorem attrsPk_eq :
    attrsPk tier uid pk = .ok (tier.m3 uid pk, tier.encodePk pk, tier.j3 uid pk) := by
  rw [attrsPk, gyGroupHashToG1_pk, Except.ok_bind, gyGroupHashToZq_pk]
  rfl

/-- The commitment to a profile key. -/
def GroupTier.commitment (tier : GroupTier S P β π) (gens : GroupGenerators P) (uid : GroupUid β)
    (pk : ProfileKey β) : GroupPkCommitment P :=
  ⟨tier.j3 uid pk • gens .j1 + tier.m3 uid pk, tier.j3 uid pk • gens .j2 + tier.encodePk pk,
    tier.j3 uid pk • gens .j3⟩

/-- The commitment to a profile key is computed. -/
theorem gyGroupPkCommit_eq :
    gyGroupPkCommit tier gens uid pk = .ok (tier.commitment gens uid pk) := by
  rw [gyGroupPkCommit, attrsPk_eq]
  rfl

/-- A request carries the blinded attributes, and the server accepts its proof against the
commitment. -/
theorem pkRequest_checked (hN : tier.nizk.Complete) (y r1 r2 : S) (nonces : Nat → S) :
    ∃ req, gyGroupPkRequest tier gens uid pk y r1 r2 nonces = .ok req ∧
      req.toGroupPkBlinded = blindedPk tier (tier.m3 uid pk) (tier.encodePk pk) y r1 r2 ∧
      groupCheck tier req.proof
        (gyGroupBuildPiBr gens tier.base req.toGroupPkBlinded (tier.commitment gens uid pk))
        groupRoleMember "pi_BR" = .ok () := by
  have hst := @piBr_holds _ _ _ _ _ gens tier.base (tier.m3 uid pk) (tier.encodePk pk) y r1 r2
    (tier.j3 uid pk)
  obtain ⟨proof, hprove, hcheck⟩ := groupProve_of_holds hN hst groupRoleMember
    "pi_BR" (by decide) nonces
  refine ⟨⟨blindedPk tier (tier.m3 uid pk) (tier.encodePk pk) y r1 r2, proof⟩, ?_, rfl, hcheck⟩
  rw [gyGroupPkRequest, attrsPk_eq, Except.ok_bind, gyGroupPkCommit_eq]
  exact Except.bind_eq_ok_iff.2 ⟨_, rfl, Except.bind_eq_ok_iff.2 ⟨proof, hprove, rfl⟩⟩

/-- A request whose proof is accepted is answered, and the answer is accepted by the client. -/
theorem pkBlindReceive_issued (hN : tier.nizk.Complete) (hk : sk.Generated gens 4)
    {commit : GroupPkCommitment P} {req : GroupPkRequest P π}
    (hreq : groupCheck tier req.proof (gyGroupBuildPiBr gens tier.base req.toGroupPkBlinded commit)
      groupRoleMember "pi_BR" = .ok ()) (y t u rp : S) (nonces : Nat → S) :
    ∃ resp, gyGroupPkBlindIssue tier gens sk uid commit req t u rp nonces = .ok resp ∧
      (gyGroupBuildPiBi gens tier.base (sk.publicFour gens).cW (sk.publicFour gens).i
        req.toGroupPkBlinded resp.u (resp.t • resp.u) (tier.m1 uid) (tier.encodeUid uid) resp.s1
        resp.s2).Holds ![sk.w, sk.wprime, sk.y1, sk.y2, sk.y3, sk.y4, sk.x0, sk.x1, rp] ∧
      ∃ tag, gyGroupPkBlindReceive tier gens (sk.publicFour gens) uid req.toGroupPkBlinded y resp =
          .ok tag ∧
        tag.v = sk.y3 • (req.d2 - y • req.d1) + sk.y4 • (req.e2 - y • req.e1) +
          rp • (req.y - y • tier.base) +
          (sk.bigW + (sk.x0 + sk.x1 * tag.t) • tag.u + sk.y1 • tier.m1 uid +
            sk.y2 • tier.encodeUid uid) := by
  have hst := piBi_holds hk tier.base req.toGroupPkBlinded (tier.m1 uid) (tier.encodeUid uid) t rp
    (u • tier.base)
  obtain ⟨proof, hprove, hcheck⟩ := groupProve_of_holds hN hst groupRoleIssuer
    "pi_BI" (by decide) nonces
  let s1 := sk.y3 • req.d1 + sk.y4 • req.e1 + rp • tier.base
  let s2 := sk.y3 • req.d2 + sk.y4 • req.e2 + rp • req.y +
    (sk.bigW + (sk.x0 + sk.x1 * t) • u • tier.base + sk.y1 • tier.m1 uid +
      sk.y2 • tier.encodeUid uid)
  refine ⟨⟨s1, s2, t, u • tier.base, proof⟩, ?_, hst, ⟨t, u • tier.base, s2 - y • s1⟩, ?_, ?_⟩
  · rw [gyGroupPkBlindIssue, if_neg (not_not.2 hk.nBound), hreq, Except.ok_bind,
      gyGroupServerPublicFromSecret_four hk.nBound, Except.ok_bind, gyGroupAttrsUid_eq,
      Except.ok_bind]
    exact Except.bind_eq_ok_iff.2 ⟨proof, hprove, rfl⟩
  · rw [gyGroupPkBlindReceive, gyGroupAttrsUid_eq, Except.ok_bind]
    exact Except.bind_eq_ok_iff.2 ⟨(), hcheck, rfl⟩
  · simp only [s1, s2]
    module

/-- Unblinding the answer to an honest request gives a tag on its attributes. -/
theorem certifiesPk_of_unblinded {req : GroupPkBlinded P} {y r1 r2 rp : S}
    (hreq : req = blindedPk tier (tier.m3 uid pk) (tier.encodePk pk) y r1 r2)
    {tag : GroupMacTag S P}
    (hv : tag.v = sk.y3 • (req.d2 - y • req.d1) + sk.y4 • (req.e2 - y • req.e1) +
      rp • (req.y - y • tier.base) + (sk.bigW + (sk.x0 + sk.x1 * tag.t) • tag.u +
        sk.y1 • tier.m1 uid + sk.y2 • tier.encodeUid uid)) :
    sk.CertifiesPk tier uid pk tag := by
  subst hreq
  rw [GroupServerSecret.CertifiesPk, hv]
  simp only [blindedPk, GroupServerSecret.macFour]
  module

/-- The presentation of a profile-key credential before its proof is made. -/
def presentedPk (tier : GroupTier S P β π) (gens : GroupGenerators P) (sp : GroupSecretParams S)
    (cred : GroupMacTag S P) (uid : GroupUid β) (pk : ProfileKey β) (z : S) :
    GroupPkPresentation P Unit :=
  pkPresented gens cred (tier.m1 uid) (tier.encodeUid uid) (tier.m3 uid pk) (tier.encodePk pk)
    ⟨sp.a1 • tier.m1 uid, sp.a2 • sp.a1 • tier.m1 uid + tier.encodeUid uid⟩
    ⟨sp.b1 • tier.m3 uid pk, sp.b2 • sp.b1 • tier.m3 uid pk + tier.encodePk pk⟩ z

/-- A presentation of a valid credential is accepted, and carries both ciphertexts. -/
theorem pkPresentVerify_presented (hN : tier.nizk.Complete) (hn : sk.nBound = 4)
    (sp : GroupSecretParams S) {cred : GroupMacTag S P} (hv : sk.CertifiesPk tier uid pk cred)
    (z : S) (nonces : Nat → S) :
    ∃ proof, let pres := (presentedPk tier gens sp cred uid pk z).withProof proof
      gyGroupPkPresent tier gens sp (gyGroupPublicDerive gens sp) (sk.publicFour gens) cred uid pk z
        nonces = .ok pres ∧
      gyGroupPkPresentVerify tier gens sk (gyGroupPublicDerive gens sp) pres = .ok () ∧
      gyGroupUidEncrypt tier sp uid = .ok ⟨pres.eA1, pres.eA2⟩ ∧
      gyGroupPkEncrypt tier sp pk uid = .ok ⟨pres.eB1, pres.eB2⟩ := by
  let p := presentedPk tier gens sp cred uid pk z
  have hst := @piP_holds _ _ _ _ _ gens sp cred (sk.publicFour gens).i (tier.m1 uid)
    (tier.encodeUid uid) (tier.m3 uid pk) (tier.encodePk pk) z
  have hZ : pkZ sk p = z • (sk.publicFour gens).i := pkZ_presented hv _ _ z
  obtain ⟨proof, hprove, hcheck⟩ := groupProve_of_holds hN hst groupRoleMember
    "pi_P" (by decide) nonces
  have huct : gyGroupUidEncrypt tier sp uid = .ok ⟨p.eA1, p.eA2⟩ := by
    rw [gyGroupUidEncrypt, gyGroupAttrsUid_eq]
    rfl
  have hpct : gyGroupPkEncrypt tier sp pk uid = .ok ⟨p.eB1, p.eB2⟩ := by
    rw [gyGroupPkEncrypt, gyGroupHashToG1_pk]
    rfl
  refine ⟨proof, ?_, ?_, huct, hpct⟩
  · rw [gyGroupPkPresent, gyGroupAttrProfile_eq, Except.ok_bind, huct, Except.ok_bind, hpct]
    exact Except.bind_eq_ok_iff.2 ⟨_, rfl, Except.bind_eq_ok_iff.2 ⟨proof, hprove, rfl⟩⟩
  · rw [gyGroupPkPresentVerify, if_neg (not_not.2 hn), gyGroupServerPublicFromSecret_four hn]
    rw [← hZ] at hcheck
    exact hcheck

end Profile

/-! ## End to end -/

section Complete

variable [Octet β] [DecidableEq P] {tier : GroupTier S P β π}

/-- The credential system is complete: for all generators, server keys, user ids, profile keys,
day-aligned dates and group secrets, and whatever is drawn, issued credentials are accepted and so
are their presentations, which carry the plain encryptions. -/
theorem credentials_complete (hN : tier.nizk.Complete) (gens : GroupGenerators P)
    {wA wpA x0A x1A y1A y2A y3A y4A wP wpP x0P x1P y1P y2P y3P y4P : S}
    {skA skP : GroupServerSecret S P} {ppA ppP : GroupServerPublic P}
    (hskA : gyGroupServerKeygen gens 3 wA wpA x0A x1A y1A y2A y3A y4A = .ok skA)
    (hppA : gyGroupServerPublicFromSecret gens skA = .ok ppA)
    (hskP : gyGroupServerKeygen gens 4 wP wpP x0P x1P y1P y2P y3P y4P = .ok skP)
    (hppP : gyGroupServerPublicFromSecret gens skP = .ok ppP)
    (uid : GroupUid β) (pk : ProfileKey β) {date : UInt64} (hday : date.toNat % groupDaySecs = 0)
    (sp : GroupSecretParams S) (tA uA zA y r1 r2 tP uP rp zP : S)
    (nonceI nonceA nonceR nonceB nonceP : Nat → S) :
    (∃ resp pres,
      gyGroupAuthIssue tier gens skA uid date tA uA nonceI = .ok resp ∧
      gyGroupAuthVerify tier gens ppA uid date resp = .ok () ∧
      gyGroupAuthPresent tier gens sp (gyGroupPublicDerive gens sp) ppA resp.mac uid date zA
        nonceA = .ok pres ∧
      gyGroupAuthPresentVerify tier gens skA (gyGroupPublicDerive gens sp) pres = .ok () ∧
      gyGroupUidEncrypt tier sp uid = .ok ⟨pres.eA1, pres.eA2⟩) ∧
    ∃ commit req resp tag m pres,
      gyGroupPkCommit tier gens uid pk = .ok commit ∧
      gyGroupPkRequest tier gens uid pk y r1 r2 nonceR = .ok req ∧
      gyGroupPkBlindIssue tier gens skP uid commit req tP uP rp nonceB = .ok resp ∧
      gyGroupPkBlindReceive tier gens ppP uid req.toGroupPkBlinded y resp = .ok tag ∧
      gyGroupAttrProfile tier uid pk = .ok m ∧ gyGroupVerify skP m tag = .ok () ∧
      gyGroupPkPresent tier gens sp (gyGroupPublicDerive gens sp) ppP tag uid pk zP nonceP =
        .ok pres ∧
      gyGroupPkPresentVerify tier gens skP (gyGroupPublicDerive gens sp) pres = .ok () ∧
      gyGroupUidEncrypt tier sp uid = .ok ⟨pres.eA1, pres.eA2⟩ ∧
      gyGroupPkEncrypt tier sp pk uid = .ok ⟨pres.eB1, pres.eB2⟩ := by
  have hkA := generated_of_keygen hskA
  have hkP := generated_of_keygen hskP
  rw [gyGroupServerPublicFromSecret_three hkA.nBound] at hppA
  rw [gyGroupServerPublicFromSecret_four hkP.nBound] at hppP
  obtain rfl := Except.ok.inj hppA
  obtain rfl := Except.ok.inj hppP
  constructor
  · obtain ⟨resp, hissue, hcert, hverify⟩ :=
      @authVerify_issued _ _ _ _ _ _ _ _ _ _ _ uid _ hN hkA hday tA uA nonceI
    obtain ⟨pres, hpres, haccept, hct⟩ :=
      authPresentVerify_presented hN hkA.nBound hday sp hcert zA nonceA
    exact ⟨resp, pres, hissue, hverify, hpres, haccept, hct⟩
  · obtain ⟨req, hreq, hblind, hcheck⟩ :=
      @pkRequest_checked _ _ _ _ _ _ _ _ _ gens uid pk hN y r1 r2 nonceR
    obtain ⟨resp, hissue, -, tag, hrecv, hv⟩ :=
      @pkBlindReceive_issued _ _ _ _ _ _ _ _ _ _ _ uid hN hkP _ _ hcheck y tP uP rp nonceB
    have hcert : skP.CertifiesPk tier uid pk tag := certifiesPk_of_unblinded hblind hv
    obtain ⟨proof, hpres, haccept, huct, hpct⟩ :=
      @pkPresentVerify_presented _ _ _ _ _ _ _ _ _ gens _ _ _ hN hkP.nBound sp _ hcert zP nonceP
    have hmac := (certifiesPk_iff hkP.nBound tag).1 hcert
    rw [gyGroupAttrProfile_eq, Except.ok_bind] at hmac
    exact ⟨_, req, resp, tag, _, _, gyGroupPkCommit_eq, hreq, hissue, hrecv,
      gyGroupAttrProfile_eq tier uid pk, hmac, hpres, haccept, huct, hpct⟩

end Complete

namespace GroupSample

theorem authCred_certifies : (serverKey 3).Certifies tier gens (uid 4) 86400 authCred := rfl

theorem pkCred_certifies : (serverKey 4).CertifiesPk tier (uid 4) (pk 5) pkCred := rfl

/-- The first day, at distinct nonzero generators. -/
theorem credentials_complete_dayOne :
    Function.Injective gens ∧ (∀ g, gens g ≠ 0) ∧
    (∃ resp pres,
      gyGroupAuthIssue tier gens (serverKey 3) (uid 4) 86400 6 8 (fun _ => 1) = .ok resp ∧
      gyGroupAuthPresent tier gens secretParams publicParams
        ((serverKey 3).publicThree gens) resp.mac (uid 4) 86400 10 (fun _ => 1) = .ok pres ∧
      gyGroupAuthPresentVerify tier gens (serverKey 3) publicParams pres = .ok ()) ∧
    ∃ tag pres,
      gyGroupPkPresent tier gens secretParams publicParams
        ((serverKey 4).publicFour gens) tag (uid 4) (pk 5) 6 (fun _ => 1) = .ok pres ∧
      gyGroupPkPresentVerify tier gens (serverKey 4) publicParams pres = .ok () := by
  obtain ⟨⟨resp, pres, hissue, -, hpres, haccept, -⟩, -, -, -, tag, -, pres', -, -, -, -, -, -,
      hpres', haccept', -⟩ :=
    @credentials_complete _ _ _ _ _ _ _ _ _ tier idealNizk_complete gens _ _ _ _ _ _ _ _ _ _ _ _
      _ _ _ _ (serverKey 3) (serverKey 4) _ _ rfl (gyGroupServerPublicFromSecret_three rfl) rfl
      (gyGroupServerPublicFromSecret_four rfl) (uid 4) (pk 5) 86400 (by decide)
      secretParams 6 8 10 2 3 4 5 6 7 6 (fun _ => 1) (fun _ => 1) (fun _ => 1) (fun _ => 1)
      (fun _ => 1)
  refine ⟨?_, ?_, ⟨resp, pres, hissue, hpres, haccept⟩, tag, pres', hpres', haccept'⟩
  · intro g g' h
    revert h
    cases g <;> cases g' <;> decide
  · intro g
    cases g <;> decide

end GroupSample

end Geryon
