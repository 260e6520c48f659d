import Geryon.Group.Complete

/-!
# What an accepted proof binds

The consequences of the proof statements for whatever witnesses solve them, not only those an honest
prover uses. Blind issuance binds both sides. A presentation binds the second half of each
ciphertext to the committed attributes; the first half is bound up to a multiple of the generator
that the free witnesses `z1` and `z2` choose.
-/

namespace Geryon

section Sound

variable {S P β π : Type} [Field S] [AddCommGroup P] [Module S P] [Octet β]
  {tier : GroupTier S P β π} {gens : GroupGenerators P}

/-! ## Ciphertexts of attributes -/

/-- The pair is the encryption of the attributes `m1` and `m2`. -/
structure GroupUidCt.Encrypts (ct : GroupUidCt P) (sp : GroupSecretParams S)
    (m1 m2 : P) : Prop where
  e1 : ct.eA1 = sp.a1 • m1
  e2 : ct.eA2 = sp.a2 • ct.eA1 + m2

/-- The pair is the encryption of the attributes `m3` and `m4`. -/
structure GroupPkCt.Encrypts (ct : GroupPkCt P) (sp : GroupSecretParams S) (m3 m4 : P) : Prop where
  e1 : ct.eB1 = sp.b1 • m3
  e2 : ct.eB2 = sp.b2 • ct.eB1 + m4

section Ciphertexts

variable {sp : GroupSecretParams S} {uid : GroupUid β} {pk : ProfileKey β}

/-- A ciphertext that encrypts an id is the one the code makes. -/
theorem GroupUidCt.Encrypts.encrypt {ct : GroupUidCt P}
    (h : ct.Encrypts sp (tier.m1 uid) (tier.encodeUid uid)) :
    gyGroupUidEncrypt tier sp uid = .ok ct := by
  obtain ⟨eA1, eA2⟩ := ct
  obtain ⟨h1, h2⟩ := h
  dsimp only at h1 h2
  subst h1 h2
  rw [gyGroupUidEncrypt, gyGroupAttrsUid_eq]
  rfl

/-- So is one that encrypts a profile key. -/
theorem GroupPkCt.Encrypts.encrypt {ct : GroupPkCt P}
    (h : ct.Encrypts sp (tier.m3 uid pk) (tier.encodePk pk)) :
    gyGroupPkEncrypt tier sp pk uid = .ok ct := by
  obtain ⟨eB1, eB2⟩ := ct
  obtain ⟨h1, h2⟩ := h
  dsimp only at h1 h2
  subst h1 h2
  rw [gyGroupPkEncrypt, gyGroupHashToG1_pk]
  rfl

variable [DecidableEq P]

/-- An encryption decrypts, where decoding inverts encoding. -/
theorem GroupUidCt.Encrypts.decrypt {ct : GroupUidCt P}
    (h : ct.Encrypts sp (tier.m1 uid) (tier.encodeUid uid))
    (hdec : tier.decodeUid (tier.encodeUid uid) = some uid) (h1 : sp.a1 • tier.m1 uid ≠ 0) :
    gyGroupUidDecrypt tier sp ct = .ok uid := by
  have hm2 : ct.eA2 - sp.a2 • ct.eA1 = tier.encodeUid uid := by
    rw [h.e2, add_sub_cancel_left]
  simp only [gyGroupUidDecrypt, hm2, hdec, gyGroupHashToG_uid]
  exact if_pos ⟨h.e1 ▸ h1, h.e1⟩

/-- The candidates of a profile key name it once, and no other of them has its hash. -/
structure GroupTier.Decodes (tier : GroupTier S P β π) (uid : GroupUid β) (pk : ProfileKey β) :
    Prop where
  mem : pk ∈ tier.decodePk (tier.encodePk pk)
  nodup : (tier.decodePk (tier.encodePk pk)).Nodup
  hash : ∀ cand ∈ tier.decodePk (tier.encodePk pk), tier.m3 uid cand = tier.m3 uid pk → cand = pk

/-- A list without repetitions that holds an element, filtered by that element. -/
theorem filter_eq_singleton {α : Type} {p : α → Bool} {a : α} {l : List α} (hn : l.Nodup)
    (ha : a ∈ l) (hp : ∀ b ∈ l, p b = true ↔ b = a) : l.filter p = [a] := by
  classical
  have : l.filter p = l.filter (· = a) :=
    List.filter_congr fun b hb => by rw [Bool.eq_iff_iff, hp b hb, decide_eq_true_eq]
  rw [this, List.filter_eq, List.count_eq_one_of_mem hn ha]
  rfl

/-- It decrypts to the key. -/
theorem GroupPkCt.Encrypts.decrypt {ct : GroupPkCt P}
    (h : ct.Encrypts sp (tier.m3 uid pk) (tier.encodePk pk)) (hdec : tier.Decodes uid pk)
    (h1 : sp.b1 • tier.m3 uid pk ≠ 0) : gyGroupPkDecrypt tier sp ct uid = .ok pk := by
  have hm4 : ct.eB2 - sp.b2 • ct.eB1 = tier.encodePk pk := by
    rw [h.e2, add_sub_cancel_left]
  have hb1 : sp.b1 ≠ 0 := fun h0 => h1 (by rw [h0, zero_smul])
  have hhit : ∀ cand ∈ tier.decodePk (tier.encodePk pk),
      pkCandidateHit tier sp ct.eB1 uid cand = true ↔ cand = pk := by
    intro cand hcand
    simp only [pkCandidateHit, gyGroupHashToG1_pk, decide_eq_true_eq, h.e1]
    constructor
    · intro heq
      exact hdec.hash cand hcand ((smul_right_injective P hb1 heq).symm)
    · rintro rfl
      rfl
  simp only [gyGroupPkDecrypt, hm4, filter_eq_singleton hdec.nodup hdec.mem hhit]
  exact if_pos (h.e1 ▸ h1)

end Ciphertexts

/-! ## Presentations -/

section Presentations

variable {sp : GroupSecretParams S}

/-- The witnesses solve the statement the server checks an auth presentation against. -/
def AuthWitness (gens : GroupGenerators P) (skA : GroupServerSecret S P)
    (ppPub : GroupPublicParams P) (pres : GroupAuthPresentation P π) (k : Fin 6 → S) : Prop :=
  ∃ pp m3, gyGroupServerPublicFromSecret gens skA = .ok pp ∧
    gyGroupAuthM3 (S := S) gens pres.date = .ok m3 ∧
    (gyGroupBuildPiA gens pp.i ppPub.a (authZ skA m3 pres) pres).Holds k

/-- The witnesses solve the statement the server checks a profile-key presentation against. -/
def PkWitness (gens : GroupGenerators P) (skP : GroupServerSecret S P)
    (ppPub : GroupPublicParams P) (pres : GroupPkPresentation P π) (k : Fin 9 → S) : Prop :=
  ∃ pp, gyGroupServerPublicFromSecret gens skP = .ok pp ∧
    (gyGroupBuildPiP gens pp.i ppPub.a ppPub.b (pkZ skP pres) pres).Holds k

/-- One ciphertext against one commitment: the second half is the encryption of what is committed,
and the first half is one exactly when the free witness cancels the blinding. -/
theorem bound_iff {c1 c2 g1 g2 e1 e2 : P} {z a1 a2 z1 : S} (hg : g1 ≠ 0)
    (h2 : c2 - e2 = z • g2 - a2 • e1) (h1 : e1 = a1 • c1 + z1 • g1) :
    e2 = a2 • e1 + (c2 - z • g2) ∧ (e1 = a1 • (c1 - z • g1) ↔ z1 = -(z * a1)) := by
  constructor
  · rw [sub_eq_iff_eq_add] at h2
    rw [h2]
    module
  · have hdiff : e1 - a1 • (c1 - z • g1) = (z1 + z * a1) • g1 := by
      rw [h1]
      module
    rw [← sub_eq_zero, hdiff, smul_eq_zero_iff_left hg, add_eq_zero_iff_eq_neg]

omit [Octet β] in
/-- When the ciphertext of a verified auth presentation encrypts the id of the credential. -/
theorem AuthWitness.encrypts_iff (hy1 : gens .y1 ≠ 0) {skA : GroupServerSecret S P}
    {ppPub : GroupPublicParams P} {pres : GroupAuthPresentation P π} {k : Fin 6 → S}
    (h : AuthWitness gens skA ppPub pres k) (ha1 : k paA1 = sp.a1) (ha2 : k paA2 = sp.a2) :
    (GroupUidCt.mk pres.eA1 pres.eA2).Encrypts sp (pres.cY1 - k paZ • gens .y1)
      (pres.cY2 - k paZ • gens .y2) ↔ k paZ1 = -(k paZ * sp.a1) := by
  obtain ⟨pp, m3, -, -, hk⟩ := h
  obtain ⟨-, -, -, h2, h1, -⟩ := (gyGroupBuildPiA_holds gens _ _ _ pres k).1 hk
  rw [ha1] at h1
  rw [ha2] at h2
  obtain ⟨he2, he1⟩ := bound_iff hy1 h2 h1
  exact ⟨fun h => he1.1 h.e1, fun h => ⟨he1.2 h, he2⟩⟩

omit [Octet β] in
/-- When those of a verified profile key presentation encrypt its id and its key. -/
theorem PkWitness.encrypts_iff (hy1 : gens .y1 ≠ 0) (hy3 : gens .y3 ≠ 0)
    {skP : GroupServerSecret S P} {ppPub : GroupPublicParams P} {pres : GroupPkPresentation P π}
    {k : Fin 9 → S} (h : PkWitness gens skP ppPub pres k) (ha1 : k ppA1 = sp.a1)
    (ha2 : k ppA2 = sp.a2) (hb1 : k ppB1 = sp.b1) (hb2 : k ppB2 = sp.b2) :
    ((GroupUidCt.mk pres.eA1 pres.eA2).Encrypts sp (pres.cY1 - k ppZ • gens .y1)
        (pres.cY2 - k ppZ • gens .y2) ↔ k ppZ1 = -(k ppZ * sp.a1)) ∧
      ((GroupPkCt.mk pres.eB1 pres.eB2).Encrypts sp (pres.cY3 - k ppZ • gens .y3)
        (pres.cY4 - k ppZ • gens .y4) ↔ k ppZ2 = -(k ppZ * sp.b1)) := by
  obtain ⟨pp, -, hk⟩ := h
  obtain ⟨-, -, -, -, h2, h1, h4, h3⟩ := (gyGroupBuildPiP_holds gens _ _ _ _ pres k).1 hk
  rw [ha1] at h1
  rw [ha2] at h2
  rw [hb1] at h3
  rw [hb2] at h4
  obtain ⟨he2, he1⟩ := bound_iff hy1 h2 h1
  obtain ⟨he4, he3⟩ := bound_iff hy3 h4 h3
  exact ⟨⟨fun h => he1.1 h.e1, fun h => ⟨he1.2 h, he2⟩⟩,
    ⟨fun h => he3.1 h.e1, fun h => ⟨he3.2 h, he4⟩⟩⟩

variable [DecidableEq P]

/-- The pair is what members of the group encrypt and decrypt for the owner of the attributes. -/
structure UidStored (tier : GroupTier S P β π) (sp : GroupSecretParams S) (m1 m2 : P)
    (ct : GroupUidCt P) : Prop where
  encrypts : ct.Encrypts sp m1 m2
  encrypt : ∀ uid, m1 = tier.m1 uid → m2 = tier.encodeUid uid →
    gyGroupUidEncrypt tier sp uid = .ok ct
  decrypt : ∀ uid, m1 = tier.m1 uid → m2 = tier.encodeUid uid →
    tier.decodeUid (tier.encodeUid uid) = some uid → sp.a1 • tier.m1 uid ≠ 0 →
    gyGroupUidDecrypt tier sp ct = .ok uid

/-- The pair is what members of the group encrypt and decrypt for the profile key behind the
attributes. -/
structure PkStored (tier : GroupTier S P β π) (sp : GroupSecretParams S) (m3 m4 : P)
    (ct : GroupPkCt P) : Prop where
  encrypts : ct.Encrypts sp m3 m4
  encrypt : ∀ uid pk, m3 = tier.m3 uid pk → m4 = tier.encodePk pk →
    gyGroupPkEncrypt tier sp pk uid = .ok ct
  decrypt : ∀ uid pk, m3 = tier.m3 uid pk → m4 = tier.encodePk pk → tier.Decodes uid pk →
    sp.b1 • tier.m3 uid pk ≠ 0 → gyGroupPkDecrypt tier sp ct uid = .ok pk

/-- A stored id ciphertext is one that encrypts the id. -/
theorem uidStored_iff {m1 m2 : P} {ct : GroupUidCt P} :
    UidStored tier sp m1 m2 ct ↔ ct.Encrypts sp m1 m2 := by
  refine ⟨UidStored.encrypts, fun h => ⟨h, ?_, ?_⟩⟩
  · rintro uid rfl rfl
    exact h.encrypt
  · rintro uid rfl rfl hdec h1
    exact h.decrypt hdec h1

/-- A stored profile key ciphertext is one that encrypts the key. -/
theorem pkStored_iff {m3 m4 : P} {ct : GroupPkCt P} :
    PkStored tier sp m3 m4 ct ↔ ct.Encrypts sp m3 m4 := by
  refine ⟨PkStored.encrypts, fun h => ⟨h, ?_, ?_⟩⟩
  · rintro uid pk rfl rfl
    exact h.encrypt
  · rintro uid pk rfl rfl hdec h1
    exact h.decrypt hdec h1

/-- An accepted presentation carries the ciphertexts of the committed attributes exactly when the
free witnesses cancel the blinding. -/
theorem presented_stored_iff (hy1 : gens .y1 ≠ 0) (hy3 : gens .y3 ≠ 0) (sp : GroupSecretParams S) :
    (∀ (skA : GroupServerSecret S P) (pres : GroupAuthPresentation P π) (k : Fin 6 → S),
      gyGroupAuthPresentVerify tier gens skA (gyGroupPublicDerive gens sp) pres = .ok () →
      AuthWitness gens skA (gyGroupPublicDerive gens sp) pres k →
      k paA1 = sp.a1 → k paA2 = sp.a2 →
      (UidStored tier sp (pres.cY1 - k paZ • gens .y1) (pres.cY2 - k paZ • gens .y2)
        ⟨pres.eA1, pres.eA2⟩ ↔ k paZ1 = -(k paZ * sp.a1))) ∧
    ∀ (skP : GroupServerSecret S P) (pres : GroupPkPresentation P π) (k : Fin 9 → S),
      gyGroupPkPresentVerify tier gens skP (gyGroupPublicDerive gens sp) pres = .ok () →
      PkWitness gens skP (gyGroupPublicDerive gens sp) pres k →
      k ppA1 = sp.a1 → k ppA2 = sp.a2 → k ppB1 = sp.b1 → k ppB2 = sp.b2 →
      (UidStored tier sp (pres.cY1 - k ppZ • gens .y1) (pres.cY2 - k ppZ • gens .y2)
          ⟨pres.eA1, pres.eA2⟩ ∧
        PkStored tier sp (pres.cY3 - k ppZ • gens .y3) (pres.cY4 - k ppZ • gens .y4)
          ⟨pres.eB1, pres.eB2⟩ ↔
        k ppZ1 = -(k ppZ * sp.a1) ∧ k ppZ2 = -(k ppZ * sp.b1)) := by
  constructor
  · intro skA pres k _ hk ha1 ha2
    rw [uidStored_iff]
    exact hk.encrypts_iff hy1 ha1 ha2
  · intro skP pres k _ hk ha1 ha2 hb1 hb2
    obtain ⟨hA, hB⟩ := hk.encrypts_iff hy1 hy3 ha1 ha2 hb1 hb2
    rw [uidStored_iff, pkStored_iff, hA, hB]

end Presentations

/-- An honest profile-key presentation solves the server's statement. -/
theorem pkWitness_presented {sk : GroupServerSecret S P} (hn : sk.nBound = 4) {uid : GroupUid β}
    {pk : ProfileKey β} (sp : GroupSecretParams S) {cred : GroupMacTag S P}
    (hv : sk.CertifiesPk tier uid pk cred) (z : S) (proof : π) :
    PkWitness gens sk (gyGroupPublicDerive gens sp)
      ((presentedPk tier gens sp cred uid pk z).withProof proof)
      ![z, sp.a1, sp.a2, sp.b1, sp.b2, -(z * cred.t), -(z * sp.a1), -(z * sp.b1), cred.t] := by
  have hZ : pkZ sk (presentedPk tier gens sp cred uid pk z) = z • (sk.publicFour gens).i :=
    pkZ_presented hv _ _ z
  have hst := @piP_holds _ _ _ _ _ gens sp cred (sk.publicFour gens).i (tier.m1 uid)
    (tier.encodeUid uid) (tier.m3 uid pk) (tier.encodePk pk) z
  rw [← hZ] at hst
  exact ⟨_, gyGroupServerPublicFromSecret_four hn, hst⟩

/-! ## A presentation under another free witness -/

section Tampered

/-- A presentation whose ciphertext is shifted by a point. -/
def tamperedAuth (gens : GroupGenerators P) (sp : GroupSecretParams S) (cred : GroupMacTag S P)
    (m1 m2 : P) (date : UInt64) (z : S) (d : P) : GroupAuthPresentation P Unit :=
  { authPresented gens sp cred m1 m2 date z with
    eA1 := sp.a1 • m1 + d
    eA2 := sp.a2 • (sp.a1 • m1 + d) + m2 }

/-- Every shift by a multiple of the generator is accepted. -/
theorem tamperedAuth_accepted (hN : tier.nizk.Complete) {sk : GroupServerSecret S P}
    (hn : sk.nBound = 3) {uid : GroupUid β} {date : UInt64}
    (hday : date.toNat % groupDaySecs = 0) (sp : GroupSecretParams S) {cred : GroupMacTag S P}
    (hv : sk.Certifies tier gens uid date cred) (z δ : S) :
    ∃ proof, gyGroupAuthPresentVerify tier gens sk (gyGroupPublicDerive gens sp)
        ((tamperedAuth gens sp cred (tier.m1 uid) (tier.encodeUid uid) date z
          (δ • gens .y1)).withProof proof) = .ok () ∧
      AuthWitness gens sk (gyGroupPublicDerive gens sp)
        ((tamperedAuth gens sp cred (tier.m1 uid) (tier.encodeUid uid) date z
          (δ • gens .y1)).withProof proof)
        ![z, sp.a1, sp.a2, -(z * cred.t), -(z * sp.a1) + δ, cred.t] := by
  let p := tamperedAuth gens sp cred (tier.m1 uid) (tier.encodeUid uid) date z (δ • gens .y1)
  have hZ := @authZ_presented _ _ _ _ _ gens _ sp _ _ _ _ hv date z
  have hst : (gyGroupBuildPiA gens (sk.publicThree gens).i (gyGroupPublicDerive gens sp).a
      (authZ sk ((date.toNat : S) • gens .m3) p) p).Holds
      ![z, sp.a1, sp.a2, -(z * cred.t), -(z * sp.a1) + δ, cred.t] := by
    rw [gyGroupBuildPiA_holds]
    refine ⟨hZ, ?_, rfl, ?_, ?_, rfl⟩
    · change z • gens .x1 + cred.t • cred.u =
        cred.t • (z • gens .x0 + cred.u) + (-(z * cred.t)) • gens .x0 + z • gens .x1
      module
    · change z • gens .y2 + tier.encodeUid uid - (sp.a2 • (sp.a1 • tier.m1 uid + δ • gens .y1) +
        tier.encodeUid uid) = z • gens .y2 - sp.a2 • (sp.a1 • tier.m1 uid + δ • gens .y1)
      module
    · change sp.a1 • tier.m1 uid + δ • gens .y1 =
        sp.a1 • (z • gens .y1 + tier.m1 uid) + (-(z * sp.a1) + δ) • gens .y1
      module
  obtain ⟨proof, -, hcheck⟩ := groupProve_of_holds hN hst groupRoleMember
    "pi_A" (by decide) (fun _ => 0)
  have hm3 := gyGroupAuthM3_eq (S := S) gens hday
  refine ⟨proof, ?_, _, _, gyGroupServerPublicFromSecret_three hn, hm3, hst⟩
  rw [gyGroupAuthPresentVerify, if_neg (not_not.2 hn), gyGroupServerPublicFromSecret_three hn,
    Except.ok_bind]
  have hm3' : gyGroupAuthM3 (S := S) gens (p.withProof proof).date = _ := hm3
  rw [hm3']
  exact hcheck

end Tampered

/-! ## Blind issuance -/

section Issuance

/-- The opening of an accepted request is the committed one. -/
theorem unblinded_of_piBr (hj3 : gens .j3 ≠ 0) {uid : GroupUid β} {pk : ProfileKey β}
    {req : GroupPkBlinded P} {k : Fin 4 → S}
    (hk : (gyGroupBuildPiBr gens tier.base req (tier.commitment gens uid pk)).Holds k) :
    req.d2 - k brY • req.d1 = tier.m3 uid pk ∧ req.e2 - k brY • req.e1 = tier.encodePk pk ∧
      req.y = k brY • tier.base := by
  obtain ⟨hy, hd1, he1, hc3, hd2, he2⟩ := (gyGroupBuildPiBr_holds gens _ _ _ k).1 hk
  have hj : tier.j3 uid pk = k brJ3 := smul_left_injective S hj3 hc3
  simp only [GroupTier.commitment, hj, sub_eq_iff_eq_add] at hd2 he2
  refine ⟨?_, ?_, hy⟩
  · rw [hd2, hd1, hy]
    module
  · rw [he2, he1, hy]
    module

omit [Octet β] in
/-- Unblinding a response solved by the issuer's key gives the tag on what the request blinds. -/
theorem unblinded_of_piBi {sk : GroupServerSecret S P} (hk : sk.Generated gens 4)
    {req : GroupPkBlinded P} {m1 m2 m3 m4 : P} {y rp : S} (hd : req.d2 - y • req.d1 = m3)
    (he : req.e2 - y • req.e1 = m4) (hy : req.y = y • tier.base)
    {resp : GroupPkBlindResponse S P π} {cW iP : P}
    (hst : (gyGroupBuildPiBi gens tier.base cW iP req resp.u (resp.t • resp.u) m1 m2 resp.s1
      resp.s2).Holds ![sk.w, sk.wprime, sk.y1, sk.y2, sk.y3, sk.y4, sk.x0, sk.x1, rp]) :
    resp.s2 - y • resp.s1 = sk.macFour m1 m2 m3 m4 resp.t resp.u := by
  obtain ⟨-, -, hs1, hs2⟩ := (gyGroupBuildPiBi_holds gens _ _ _ _ _ _ _ _ _ _ _).1 hst
  have hs1' : resp.s1 = sk.y3 • req.d1 + sk.y4 • req.e1 + rp • tier.base := hs1
  have hs2' : resp.s2 = sk.y3 • req.d2 + sk.y4 • req.e2 + rp • req.y + sk.w • gens .w +
    sk.x0 • resp.u + sk.x1 • resp.t • resp.u + sk.y1 • m1 + sk.y2 • m2 := hs2
  rw [GroupServerSecret.macFour, hk.bigW, hs1', hs2', hy, ← hd, ← he]
  module

variable [DecidableEq P]

/-- Blind issuance is sound for both sides. An accepted request decrypts to the committed
attributes, and unblinding a proved response gives a valid tag on them. -/
theorem blindIssue_sound (hj3 : gens .j3 ≠ 0) {w wp x0 x1 y1 y2 y3 y4 : S}
    {skP : GroupServerSecret S P}
    (hskP : gyGroupServerKeygen gens 4 w wp x0 x1 y1 y2 y3 y4 = .ok skP)
    {uid : GroupUid β} {pk : ProfileKey β} {commit : GroupPkCommitment P}
    (hcommit : gyGroupPkCommit tier gens uid pk = .ok commit) {req : GroupPkRequest P π}
    {t u rp : S} {nonces : Nat → S} {issued : GroupPkBlindResponse S P π}
    (_hissue : gyGroupPkBlindIssue tier gens skP uid commit req t u rp nonces = .ok issued)
    {k : Fin 4 → S}
    (hk : (gyGroupBuildPiBr gens tier.base req.toGroupPkBlinded commit).Holds k) :
    ∃ m1 m2 m3 m4, gyGroupAttrProfile tier uid pk = .ok [m1, m2, m3, m4] ∧
      req.d2 - k brY • req.d1 = m3 ∧ req.e2 - k brY • req.e1 = m4 ∧
      ∀ (ppP : GroupServerPublic P) (resp : GroupPkBlindResponse S P π) (rp' : S)
        (tag : GroupMacTag S P),
        (gyGroupBuildPiBi gens tier.base ppP.cW ppP.i req.toGroupPkBlinded resp.u
          (resp.t • resp.u) m1 m2 resp.s1 resp.s2).Holds
          ![skP.w, skP.wprime, skP.y1, skP.y2, skP.y3, skP.y4, skP.x0, skP.x1, rp'] →
        gyGroupPkBlindReceive tier gens ppP uid req.toGroupPkBlinded (k brY) resp = .ok tag →
        gyGroupVerify skP [m1, m2, m3, m4] tag = .ok () := by
  have hkP := generated_of_keygen hskP
  rw [gyGroupPkCommit_eq] at hcommit
  obtain rfl := Except.ok.inj hcommit
  obtain ⟨hd, he, hy⟩ := unblinded_of_piBr hj3 hk
  refine ⟨_, _, _, _, gyGroupAttrProfile_eq tier uid pk, hd, he, ?_⟩
  intro ppP resp rp' tag hst hrecv
  rw [gyGroupPkBlindReceive, gyGroupAttrsUid_eq, Except.ok_bind] at hrecv
  obtain ⟨-, -, htag⟩ := Except.bind_eq_ok_iff.1 hrecv
  obtain rfl := Except.ok.inj htag
  rw [gyGroupVerify_iff (groupMacRecomputeV_four hkP.nBound _ _ _ _ _ _)]
  exact unblinded_of_piBi hkP hd he hy hst

end Issuance

end Sound

namespace GroupSample

/-- The shift by one generator. -/
abbrev tampered : GroupAuthPresentation Zq Unit :=
  tamperedAuth gens secretParams authCred (tier.m1 (uid 4)) (tier.encodeUid (uid 4)) 86400 10
    ((1 : Zq) • gens .y1)

/-- An honest presentation of either kind is bound. -/
theorem presented_stored_honest :
    (∃ pres, gyGroupAuthPresentVerify tier gens (serverKey 3) publicParams pres = .ok () ∧
      UidStored tier secretParams (pres.cY1 - (10 : Zq) • gens .y1)
        (pres.cY2 - (10 : Zq) • gens .y2)
        ⟨pres.eA1, pres.eA2⟩) ∧
    ∃ pres, gyGroupPkPresentVerify tier gens (serverKey 4) publicParams pres = .ok () ∧
      UidStored tier secretParams (pres.cY1 - (10 : Zq) • gens .y1)
        (pres.cY2 - (10 : Zq) • gens .y2)
        ⟨pres.eA1, pres.eA2⟩ ∧
      PkStored tier secretParams (pres.cY3 - (10 : Zq) • gens .y3)
        (pres.cY4 - (10 : Zq) • gens .y4) ⟨pres.eB1, pres.eB2⟩ := by
  have hbound := @presented_stored_iff _ _ _ _ _ _ _ _ tier gens _ (by decide) (by decide)
    secretParams
  constructor
  · obtain ⟨proof, hacc, hwit⟩ := @tamperedAuth_accepted _ _ _ _ _ _ _ _ tier gens
      idealNizk_complete (serverKey 3) rfl _ _ (by decide) secretParams _ authCred_certifies 10 0
    exact ⟨_, hacc, (hbound.1 _ _ _ hacc hwit rfl rfl).2 (by decide)⟩
  · obtain ⟨proof, -, hacc, -⟩ := @pkPresentVerify_presented _ _ _ _ _ _ _ _ tier gens
      (serverKey 4) _ _ idealNizk_complete rfl secretParams _ pkCred_certifies 10 (fun _ => 1)
    have hwit := @pkWitness_presented _ _ _ _ _ _ _ _ tier gens (serverKey 4) rfl _ _ secretParams
      _ pkCred_certifies 10 proof
    exact ⟨_, hacc, (hbound.2 _ _ _ hacc hwit rfl rfl rfl rfl).2 ⟨rfl, rfl⟩⟩

/-- The server accepts a presentation whose ciphertext is not the encryption of the committed
attributes and decrypts for nobody. -/
theorem tampered_not_encrypts :
    ∃ proof, gyGroupAuthPresentVerify tier gens (serverKey 3) publicParams
        (tampered.withProof proof) = .ok () ∧
      AuthWitness gens (serverKey 3) publicParams (tampered.withProof proof)
        ![10, secretParams.a1, secretParams.a2, -(10 * 6), -(10 * secretParams.a1) + 1, 6] ∧
      tampered.cY1 - (10 : Zq) • gens .y1 = tier.m1 (uid 4) ∧
      tampered.cY2 - (10 : Zq) • gens .y2 = tier.encodeUid (uid 4) ∧
      tampered.eA1 ≠ secretParams.a1 • (tampered.cY1 - (10 : Zq) • gens .y1) ∧
      gyGroupUidDecrypt tier secretParams ⟨tampered.eA1, tampered.eA2⟩ = .error .verify := by
  obtain ⟨proof, hacc, hwit⟩ := @tamperedAuth_accepted _ _ _ _ _ _ _ _ tier gens
    idealNizk_complete (serverKey 3) rfl _ _ (by decide) secretParams _ authCred_certifies 10 1
  exact ⟨proof, hacc, hwit, by decide, by decide, by decide, by decide⟩

/-- An honest issuance. -/
theorem blindIssue_sound_honest :
    ∃ req resp tag,
      gyGroupPkBlindIssue tier gens (serverKey 4) (uid 4) (tier.commitment gens (uid 4) (pk 5)) req
        5 6 7 (fun _ => 1) = .ok resp ∧
      req.d2 - (2 : Zq) • req.d1 = tier.m3 (uid 4) (pk 5) ∧
      gyGroupPkBlindReceive tier gens ((serverKey 4).publicFour gens) (uid 4) req.toGroupPkBlinded 2
        resp = .ok tag ∧
      gyGroupVerify (serverKey 4) [tier.m1 (uid 4), tier.encodeUid (uid 4), tier.m3 (uid 4) (pk 5),
        tier.encodePk (pk 5)] tag = .ok () := by
  obtain ⟨req, -, hblind, hcheck⟩ := @pkRequest_checked _ _ _ _ _ _ _ _ tier gens
    (uid 4) (pk 5) idealNizk_complete 2 3 4 (fun _ => 1)
  obtain ⟨resp, hissue, hst, tag, hrecv, -⟩ := @pkBlindReceive_issued _ _ _ _ _ _ _ _ tier
    gens (serverKey 4) (uid 4) idealNizk_complete ⟨rfl, rfl⟩ _ _ hcheck 2 5 6 7 (fun _ => 1)
  have hk : (gyGroupBuildPiBr gens tier.base req.toGroupPkBlinded
      (tier.commitment gens (uid 4) (pk 5))).Holds ![2, 3, 4, tier.j3 (uid 4) (pk 5)] := by
    rw [hblind]
    exact piBr_holds _ _ _ _ _ _ _
  obtain ⟨m1, m2, m3, m4, hattr, hd, -, htag⟩ := @blindIssue_sound _ _ _ _ _ _ _ _ tier gens _
    (by decide) _ _ _ _ _ _ _ _ (serverKey 4) rfl _ _ _ gyGroupPkCommit_eq _ _ _ _ _ _ hissue _ hk
  rw [gyGroupAttrProfile_eq] at hattr
  simp only [Except.ok.injEq, List.cons.injEq, and_true] at hattr
  obtain ⟨rfl, rfl, rfl, rfl⟩ := hattr
  exact ⟨req, resp, tag, hissue, hd, hrecv, htag _ resp 7 tag hst hrecv⟩

end GroupSample

end Geryon
