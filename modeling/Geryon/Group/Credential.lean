import Geryon.Group.Tier
import Mathlib.Data.Fin.VecNotation

/-!
# Credentials

The algebraic MAC of `group_mac_server.c`, the verifiable encryption of `group_venc.c`, the proof
statements of `group_stmt.c`, and the issuance and presentation of credentials by the client and the
server. What the source draws at random is an argument here: the MAC scalars, the blinding scalars
and the nonces of the proofs.
-/

namespace Geryon

variable {S P β π : Type}

/-- `struct gy_group_server_secret`. -/
structure GroupServerSecret (S P : Type) where
  w : S
  wprime : S
  x0 : S
  x1 : S
  y1 : S
  y2 : S
  y3 : S
  y4 : S
  bigW : P
  nBound : Nat

/-- `struct gy_group_server_public`. -/
structure GroupServerPublic (P : Type) where
  cW : P
  i : P
  deriving DecidableEq

/-- `struct gy_group_mac_tag`. -/
structure GroupMacTag (S P : Type) where
  t : S
  u : P
  v : P
  deriving DecidableEq

/-- `struct gy_group_uid_ct`. -/
structure GroupUidCt (P : Type) where
  eA1 : P
  eA2 : P
  deriving DecidableEq

/-- `struct gy_group_pk_ct`. -/
structure GroupPkCt (P : Type) where
  eB1 : P
  eB2 : P
  deriving DecidableEq

/-- `struct gy_group_auth_response`. -/
structure GroupAuthResponse (S P π : Type) where
  mac : GroupMacTag S P
  proof : π

/-- `struct gy_group_auth_presentation`. -/
structure GroupAuthPresentation (P π : Type) where
  cX0 : P
  cX1 : P
  cY1 : P
  cY2 : P
  cY3 : P
  cV : P
  eA1 : P
  eA2 : P
  date : UInt64
  proof : π

/-- `struct gy_group_pk_presentation`. -/
structure GroupPkPresentation (P π : Type) where
  cX0 : P
  cX1 : P
  cY1 : P
  cY2 : P
  cY3 : P
  cY4 : P
  cV : P
  eA1 : P
  eA2 : P
  eB1 : P
  eB2 : P
  proof : π

/-- `struct gy_group_pk_commitment`. -/
structure GroupPkCommitment (P : Type) where
  j1 : P
  j2 : P
  j3 : P
  deriving DecidableEq

/-- The points of `struct gy_group_pk_request`. -/
structure GroupPkBlinded (P : Type) where
  y : P
  d1 : P
  d2 : P
  e1 : P
  e2 : P
  deriving DecidableEq

/-- `struct gy_group_pk_request`. -/
structure GroupPkRequest (P π : Type) extends GroupPkBlinded P where
  proof : π

/-- `struct gy_group_pk_blind_response`. -/
structure GroupPkBlindResponse (S P π : Type) where
  s1 : P
  s2 : P
  t : S
  u : P
  proof : π

variable [Field S] [AddCommGroup P] [Module S P]

/-! ## The algebraic MAC -/

/-- `gy_group_server_keygen` on the eight scalars it draws. -/
def gyGroupServerKeygen (gens : GroupGenerators P) (nBound : Nat)
    (w wprime x0 x1 y1 y2 y3 y4 : S) : Except GyErr (GroupServerSecret S P) :=
  if nBound < 3 ∨ 4 < nBound then .error .arg
  else .ok ⟨w, wprime, x0, x1, y1, y2, y3, y4, w • gens .w, nBound⟩

/-- The attribute scalars of a key, as many as it binds. -/
def GroupServerSecret.ys (sk : GroupServerSecret S P) : List S :=
  [sk.y1, sk.y2, sk.y3, sk.y4].take sk.nBound

/-- `gy_group_server_public_from_secret`. -/
def gyGroupServerPublicFromSecret (gens : GroupGenerators P) (sk : GroupServerSecret S P) :
    Except GyErr (GroupServerPublic P) :=
  if sk.nBound < 3 ∨ 4 < sk.nBound then .error .arg
  else
    let acc := (sk.ys.zip [gens .y1, gens .y2, gens .y3, gens .y4]).foldl
      (fun acc p => acc + p.1 • p.2) (sk.x0 • gens .x0 + sk.x1 • gens .x1)
    .ok ⟨sk.bigW + sk.wprime • gens .wprime, gens .v - acc⟩

/-- `group_mac_recompute_v`. -/
def groupMacRecomputeV (sk : GroupServerSecret S P) (m : List P) (t : S) (u : P) :
    Except GyErr P :=
  if m.length ≠ sk.nBound then .error .arg
  else .ok ((sk.ys.zip m).foldl (fun acc p => acc + p.1 • p.2)
    (sk.bigW + (sk.x0 + sk.x1 * t) • u))

/-- `gy_group_mac` on the scalars it draws. -/
def gyGroupMac (tier : GroupTier S P β π) (sk : GroupServerSecret S P) (m : List P) (t u : S) :
    Except GyErr (GroupMacTag S P) := do
  let v ← groupMacRecomputeV sk m t (u • tier.base)
  return ⟨t, u • tier.base, v⟩

/-- `gy_group_verify`. -/
def gyGroupVerify [DecidableEq P] (sk : GroupServerSecret S P) (m : List P)
    (tag : GroupMacTag S P) : Except GyErr Unit := do
  let v ← groupMacRecomputeV sk m tag.t tag.u
  if v = tag.v then .ok () else .error .verify

/-! ## Verifiable encryption -/

section Encrypt

variable [Octet β] (tier : GroupTier S P β π) (sp : GroupSecretParams S)

/-- `gy_group_uid_encrypt`. -/
def gyGroupUidEncrypt (uid : GroupUid β) : Except GyErr (GroupUidCt P) := do
  let (m1, m2) ← gyGroupAttrsUid tier uid
  let e1 := sp.a1 • m1
  return ⟨e1, sp.a2 • e1 + m2⟩

/-- `gy_group_uid_decrypt`: every failure is the same error. -/
def gyGroupUidDecrypt [DecidableEq P] (ct : GroupUidCt P) : Except GyErr (GroupUid β) :=
  match tier.decodeUid (ct.eA2 - sp.a2 • ct.eA1) with
  | none => .error .verify
  | some uid =>
    match gyGroupHashToG tier "grp-m1" uid.1 with
    | .error _ => .error .verify
    | .ok m1 => if ct.eA1 ≠ 0 ∧ ct.eA1 = sp.a1 • m1 then .ok uid else .error .verify

/-- `gy_group_pk_encrypt`. -/
def gyGroupPkEncrypt (pk : ProfileKey β) (uid : GroupUid β) : Except GyErr (GroupPkCt P) := do
  let m3 ← gyGroupHashToG1 tier "grp-m3" (pk.1 ++ uid.1)
  let e1 := sp.b1 • m3
  return ⟨e1, sp.b2 • e1 + tier.encodePk pk⟩

/-- Whether a candidate passes the test of `gy_group_pk_decrypt`. -/
def pkCandidateHit [DecidableEq P] (eB1 : P) (uid : GroupUid β) (cand : ProfileKey β) : Bool :=
  match gyGroupHashToG1 tier "grp-m3" (cand.1 ++ uid.1) with
  | .error _ => false
  | .ok m3 => decide (eB1 = sp.b1 • m3)

/-- `gy_group_pk_decrypt`: exactly one candidate must pass. -/
def gyGroupPkDecrypt [DecidableEq P] (ct : GroupPkCt P) (uid : GroupUid β) :
    Except GyErr (ProfileKey β) :=
  match (tier.decodePk (ct.eB2 - sp.b2 • ct.eB1)).filter (pkCandidateHit tier sp ct.eB1 uid) with
  | [pk] => if ct.eB1 ≠ 0 then .ok pk else .error .verify
  | _ => .error .verify

end Encrypt

/-! ## Proof statements -/

section Statements

variable (gens : GroupGenerators P)

/-- `gy_group_build_pi_i`, over the witnesses `(w, wprime, x0, x1, y1, y2, y3)`. -/
def gyGroupBuildPiI (cw iparam : P) (tag : GroupMacTag S P) (m1 m2 m3 : P) : Conj 7 P :=
  [⟨[(0, gens .w), (1, gens .wprime)], cw⟩,
    ⟨[(2, gens .x0), (3, gens .x1), (4, gens .y1), (5, gens .y2), (6, gens .y3)],
      gens .v - iparam⟩,
    ⟨[(0, gens .w), (2, tag.u), (3, tag.t • tag.u), (4, m1), (5, m2), (6, m3)], tag.v⟩]

/-- The issuer's statement, written out: the published key and the MAC are under one secret. -/
theorem gyGroupBuildPiI_holds (cw iparam : P) (tag : GroupMacTag S P) (m1 m2 m3 : P)
    (k : Fin 7 → S) :
    (gyGroupBuildPiI gens cw iparam tag m1 m2 m3).Holds k ↔
      cw = k 0 • gens .w + k 1 • gens .wprime ∧
      gens .v - iparam = k 2 • gens .x0 + k 3 • gens .x1 + k 4 • gens .y1 + k 5 • gens .y2 +
        k 6 • gens .y3 ∧
      tag.v = k 0 • gens .w + k 2 • tag.u + k 3 • tag.t • tag.u + k 4 • m1 + k 5 • m2 + k 6 • m3 :=
    by
  simp [gyGroupBuildPiI, ConjEq.holds_iff, add_assoc]

/-- `PA_Z`. -/
def paZ : Fin 6 := 0
/-- `PA_A1`. -/
def paA1 : Fin 6 := 1
/-- `PA_A2`. -/
def paA2 : Fin 6 := 2
/-- `PA_Z0`. -/
def paZ0 : Fin 6 := 3
/-- `PA_Z1`. -/
def paZ1 : Fin 6 := 4
/-- `PA_T`. -/
def paT : Fin 6 := 5

/-- `gy_group_build_pi_a` with the target `Z` of its first equation. -/
def gyGroupBuildPiA (iA a bigZ : P) (p : GroupAuthPresentation P π) : Conj 6 P :=
  [⟨[(paZ, iA)], bigZ⟩,
    ⟨[(paT, p.cX0), (paZ0, gens .x0), (paZ, gens .x1)], p.cX1⟩,
    ⟨[(paA1, gens .a1), (paA2, gens .a2)], a⟩,
    ⟨[(paZ, gens .y2), (paA2, 0 - p.eA1)], p.cY2 - p.eA2⟩,
    ⟨[(paA1, p.cY1), (paZ1, gens .y1)], p.eA1⟩,
    ⟨[(paZ, gens .y3)], p.cY3⟩]

/-- The statement of an auth presentation, written out. -/
theorem gyGroupBuildPiA_holds (iA a bigZ : P) (p : GroupAuthPresentation P π) (k : Fin 6 → S) :
    (gyGroupBuildPiA gens iA a bigZ p).Holds k ↔
      bigZ = k paZ • iA ∧
      p.cX1 = k paT • p.cX0 + k paZ0 • gens .x0 + k paZ • gens .x1 ∧
      a = k paA1 • gens .a1 + k paA2 • gens .a2 ∧
      p.cY2 - p.eA2 = k paZ • gens .y2 - k paA2 • p.eA1 ∧
      p.eA1 = k paA1 • p.cY1 + k paZ1 • gens .y1 ∧
      p.cY3 = k paZ • gens .y3 := by
  simp [gyGroupBuildPiA, ConjEq.holds_iff, add_assoc, sub_eq_add_neg]

/-- `PP_Z`. -/
def ppZ : Fin 9 := 0
/-- `PP_A1`. -/
def ppA1 : Fin 9 := 1
/-- `PP_A2`. -/
def ppA2 : Fin 9 := 2
/-- `PP_B1`. -/
def ppB1 : Fin 9 := 3
/-- `PP_B2`. -/
def ppB2 : Fin 9 := 4
/-- `PP_Z0`. -/
def ppZ0 : Fin 9 := 5
/-- `PP_Z1`. -/
def ppZ1 : Fin 9 := 6
/-- `PP_Z2`. -/
def ppZ2 : Fin 9 := 7
/-- `PP_T`. -/
def ppT : Fin 9 := 8

/-- `gy_group_build_pi_p` with the target `Z` of its first equation. -/
def gyGroupBuildPiP (iP a b bigZ : P) (p : GroupPkPresentation P π) : Conj 9 P :=
  [⟨[(ppZ, iP)], bigZ⟩,
    ⟨[(ppT, p.cX0), (ppZ0, gens .x0), (ppZ, gens .x1)], p.cX1⟩,
    ⟨[(ppA1, gens .a1), (ppA2, gens .a2)], a⟩,
    ⟨[(ppB1, gens .b1), (ppB2, gens .b2)], b⟩,
    ⟨[(ppZ, gens .y2), (ppA2, 0 - p.eA1)], p.cY2 - p.eA2⟩,
    ⟨[(ppA1, p.cY1), (ppZ1, gens .y1)], p.eA1⟩,
    ⟨[(ppZ, gens .y4), (ppB2, 0 - p.eB1)], p.cY4 - p.eB2⟩,
    ⟨[(ppB1, p.cY3), (ppZ2, gens .y3)], p.eB1⟩]

/-- The statement of a profile key presentation, written out. -/
theorem gyGroupBuildPiP_holds (iP a b bigZ : P) (p : GroupPkPresentation P π) (k : Fin 9 → S) :
    (gyGroupBuildPiP gens iP a b bigZ p).Holds k ↔
      bigZ = k ppZ • iP ∧
      p.cX1 = k ppT • p.cX0 + k ppZ0 • gens .x0 + k ppZ • gens .x1 ∧
      a = k ppA1 • gens .a1 + k ppA2 • gens .a2 ∧
      b = k ppB1 • gens .b1 + k ppB2 • gens .b2 ∧
      p.cY2 - p.eA2 = k ppZ • gens .y2 - k ppA2 • p.eA1 ∧
      p.eA1 = k ppA1 • p.cY1 + k ppZ1 • gens .y1 ∧
      p.cY4 - p.eB2 = k ppZ • gens .y4 - k ppB2 • p.eB1 ∧
      p.eB1 = k ppB1 • p.cY3 + k ppZ2 • gens .y3 := by
  simp [gyGroupBuildPiP, ConjEq.holds_iff, add_assoc, sub_eq_add_neg]

/-- `BR_Y`. -/
def brY : Fin 4 := 0
/-- `BR_R1`. -/
def brR1 : Fin 4 := 1
/-- `BR_R2`. -/
def brR2 : Fin 4 := 2
/-- `BR_J3`. -/
def brJ3 : Fin 4 := 3

/-- `gy_group_build_pi_br`. -/
def gyGroupBuildPiBr (g : P) (req : GroupPkBlinded P) (cm : GroupPkCommitment P) : Conj 4 P :=
  [⟨[(brY, g)], req.y⟩,
    ⟨[(brR1, g)], req.d1⟩,
    ⟨[(brR2, g)], req.e1⟩,
    ⟨[(brJ3, gens .j3)], cm.j3⟩,
    ⟨[(brR1, req.y), (brJ3, 0 - gens .j1)], req.d2 - cm.j1⟩,
    ⟨[(brR2, req.y), (brJ3, 0 - gens .j2)], req.e2 - cm.j2⟩]

/-- The statement of a blinded request, written out: the ciphertexts hide the committed attributes.
-/
theorem gyGroupBuildPiBr_holds (g : P) (req : GroupPkBlinded P) (cm : GroupPkCommitment P)
    (k : Fin 4 → S) :
    (gyGroupBuildPiBr gens g req cm).Holds k ↔
      req.y = k brY • g ∧ req.d1 = k brR1 • g ∧ req.e1 = k brR2 • g ∧
      cm.j3 = k brJ3 • gens .j3 ∧
      req.d2 - cm.j1 = k brR1 • req.y - k brJ3 • gens .j1 ∧
      req.e2 - cm.j2 = k brR2 • req.y - k brJ3 • gens .j2 := by
  simp [gyGroupBuildPiBr, ConjEq.holds_iff, sub_eq_add_neg]

/-- `BI_W`. -/
def biW : Fin 9 := 0
/-- `BI_WP`. -/
def biWp : Fin 9 := 1
/-- `BI_Y1`. -/
def biY1 : Fin 9 := 2
/-- `BI_Y2`. -/
def biY2 : Fin 9 := 3
/-- `BI_Y3`. -/
def biY3 : Fin 9 := 4
/-- `BI_Y4`. -/
def biY4 : Fin 9 := 5
/-- `BI_X0`. -/
def biX0 : Fin 9 := 6
/-- `BI_X1`. -/
def biX1 : Fin 9 := 7
/-- `BI_RP`. -/
def biRp : Fin 9 := 8

/-- `gy_group_build_pi_bi`. -/
def gyGroupBuildPiBi (g cW iP : P) (req : GroupPkBlinded P) (u ut m1 m2 s1 s2 : P) : Conj 9 P :=
  [⟨[(biW, gens .w), (biWp, gens .wprime)], cW⟩,
    ⟨[(biX0, gens .x0), (biX1, gens .x1), (biY1, gens .y1), (biY2, gens .y2), (biY3, gens .y3),
      (biY4, gens .y4)], gens .v - iP⟩,
    ⟨[(biY3, req.d1), (biY4, req.e1), (biRp, g)], s1⟩,
    ⟨[(biY3, req.d2), (biY4, req.e2), (biRp, req.y), (biW, gens .w), (biX0, u), (biX1, ut),
      (biY1, m1), (biY2, m2)], s2⟩]

/-- The statement of a blind issuance, written out: the answer is made under the published key. -/
theorem gyGroupBuildPiBi_holds (g cW iP : P) (req : GroupPkBlinded P) (u ut m1 m2 s1 s2 : P)
    (k : Fin 9 → S) :
    (gyGroupBuildPiBi gens g cW iP req u ut m1 m2 s1 s2).Holds k ↔
      cW = k biW • gens .w + k biWp • gens .wprime ∧
      gens .v - iP = k biX0 • gens .x0 + k biX1 • gens .x1 + k biY1 • gens .y1 +
        k biY2 • gens .y2 + k biY3 • gens .y3 + k biY4 • gens .y4 ∧
      s1 = k biY3 • req.d1 + k biY4 • req.e1 + k biRp • g ∧
      s2 = k biY3 • req.d2 + k biY4 • req.e2 + k biRp • req.y + k biW • gens .w + k biX0 • u +
        k biX1 • ut + k biY1 • m1 + k biY2 • m2 := by
  simp [gyGroupBuildPiBi, ConjEq.holds_iff, add_assoc]

end Statements

/-! ## Proving and verifying -/

section Proofs

variable [Octet β]

/-- `GY_GROUP_ROLE_ISSUER`. -/
def groupRoleIssuer : Bytes β := ascii "geryon-group-server"

/-- `GY_GROUP_ROLE_MEMBER`. -/
def groupRoleMember : Bytes β := ascii "geryon-group-member"

/-- `gen_prove_conj` under the label of a statement. -/
def groupProve {k : Nat} (tier : GroupTier S P β π) (st : Conj k P) (w : Fin k → S)
    (role : Bytes β) (purpose : String) (nonces : Nat → S) : Except GyErr π := do
  let oi ← gyGroupDomain tier purpose
  match tier.nizk.prove st w role oi nonces with
  | some proof => .ok proof
  | none => .error .crypto

/-- `gen_verify_conj` under the label of a statement. -/
def groupCheck {k : Nat} (tier : GroupTier S P β π) (proof : π) (st : Conj k P) (role : Bytes β)
    (purpose : String) : Except GyErr Unit := do
  let oi ← gyGroupDomain tier purpose
  if tier.nizk.verify proof st role oi then .ok () else .error .verify

end Proofs

/-! ## Issuing an auth credential -/

section Auth

variable [Octet β] (tier : GroupTier S P β π) (gens : GroupGenerators P)

/-- `gy_group_auth_issue` on the scalars and nonces it draws. -/
def gyGroupAuthIssue (skA : GroupServerSecret S P) (uid : GroupUid β) (date : UInt64) (t u : S)
    (nonces : Nat → S) : Except GyErr (GroupAuthResponse S P π) :=
  if skA.nBound ≠ 3 then .error .arg
  else do
    let m ← gyGroupAttrAuth tier gens uid date
    let mac ← gyGroupMac tier skA m t u
    let pp ← gyGroupServerPublicFromSecret gens skA
    -- the server proves that the MAC is under its published key
    let proof ← groupProve tier
      (gyGroupBuildPiI gens pp.cW pp.i mac (m.getD 0 0) (m.getD 1 0) (m.getD 2 0))
      ![skA.w, skA.wprime, skA.x0, skA.x1, skA.y1, skA.y2, skA.y3] groupRoleIssuer "pi_I" nonces
    return ⟨mac, proof⟩

/-- `gy_group_auth_verify`. -/
def gyGroupAuthVerify (ppA : GroupServerPublic P) (uid : GroupUid β) (date : UInt64)
    (resp : GroupAuthResponse S P π) : Except GyErr Unit := do
  let m ← gyGroupAttrAuth tier gens uid date
  groupCheck tier resp.proof
    (gyGroupBuildPiI gens ppA.cW ppA.i resp.mac (m.getD 0 0) (m.getD 1 0) (m.getD 2 0))
    groupRoleIssuer "pi_I"

/-- The presentation of `gy_group_auth_present` before its proof is made. -/
def authPresented (sp : GroupSecretParams S) (cred : GroupMacTag S P) (m1 m2 : P) (date : UInt64)
    (z : S) : GroupAuthPresentation P Unit :=
  let eA1 := sp.a1 • m1
  { cX0 := z • gens .x0 + cred.u
    cX1 := z • gens .x1 + cred.t • cred.u
    cY1 := z • gens .y1 + m1
    cY2 := z • gens .y2 + m2
    -- the date goes in the clear, so its attribute is left out of the commitment
    cY3 := z • gens .y3
    cV := z • gens .v + cred.v
    eA1 := eA1
    eA2 := sp.a2 • eA1 + m2
    date := date
    proof := () }

/-- A presentation with its proof. -/
def GroupAuthPresentation.withProof {τ : Type} (p : GroupAuthPresentation P τ) (proof : π) :
    GroupAuthPresentation P π :=
  { p with proof := proof }

/-- `gy_group_auth_present` on the blinding scalar and nonces it draws. -/
def gyGroupAuthPresent (sp : GroupSecretParams S) (ppPub : GroupPublicParams P)
    (ppSrv : GroupServerPublic P) (cred : GroupMacTag S P) (uid : GroupUid β) (date : UInt64)
    (z : S) (nonces : Nat → S) : Except GyErr (GroupAuthPresentation P π) := do
  let _ ← (gyGroupRedemptionScalar date : Except GyErr S)
  let (m1, m2) ← gyGroupAttrsUid tier uid
  let p := authPresented gens sp cred m1 m2 date z
  let proof ← groupProve tier (gyGroupBuildPiA gens ppSrv.i ppPub.a (z • ppSrv.i) p)
    ![z, sp.a1, sp.a2, -(z * cred.t), -(z * sp.a1), cred.t] groupRoleMember "pi_A" nonces
  return p.withProof proof

/-- The target of the first equation as the verifier recomputes it from its key. -/
def authZ (skA : GroupServerSecret S P) (m3 : P) (p : GroupAuthPresentation P π) : P :=
  p.cV - (skA.bigW + skA.x0 • p.cX0 + skA.x1 • p.cX1 + skA.y1 • p.cY1 + skA.y2 • p.cY2 +
    skA.y3 • (p.cY3 + m3))

/-- `gy_group_auth_present_verify`. -/
def gyGroupAuthPresentVerify (skA : GroupServerSecret S P) (ppPub : GroupPublicParams P)
    (pres : GroupAuthPresentation P π) : Except GyErr Unit :=
  if skA.nBound ≠ 3 then .error .arg
  else do
    let pp ← gyGroupServerPublicFromSecret gens skA
    match gyGroupAuthM3 (S := S) gens pres.date with
    -- a date that is not a whole day is a bad presentation
    | .error .arg => .error .verify
    | .error e => .error e
    | .ok m3 =>
      groupCheck tier pres.proof (gyGroupBuildPiA gens pp.i ppPub.a (authZ skA m3 pres) pres)
        groupRoleMember "pi_A"

end Auth

/-! ## Blind issuance of a profile-key credential -/

section Issue

variable [Octet β] (tier : GroupTier S P β π) (gens : GroupGenerators P)

/-- `attrs_pk`: `M3`, `M4` and the opening `j3`. -/
def attrsPk (uid : GroupUid β) (pk : ProfileKey β) : Except GyErr (P × P × S) := do
  let m3 ← gyGroupHashToG1 tier "grp-m3" (pk.1 ++ uid.1)
  let j3 ← gyGroupHashToZq tier "grp-j3" (pk.1 ++ uid.1)
  return (m3, tier.encodePk pk, j3)

/-- `gy_group_pk_commit`. -/
def gyGroupPkCommit (uid : GroupUid β) (pk : ProfileKey β) : Except GyErr (GroupPkCommitment P) :=
  do
    let (m3, m4, j3) ← attrsPk tier uid pk
    return ⟨j3 • gens .j1 + m3, j3 • gens .j2 + m4, j3 • gens .j3⟩

/-- The points of a request. -/
def blindedPk (m3 m4 : P) (y r1 r2 : S) : GroupPkBlinded P :=
  let bigY := y • tier.base
  ⟨bigY, r1 • tier.base, r1 • bigY + m3, r2 • tier.base, r2 • bigY + m4⟩

/-- `gy_group_pk_request` on the scalars and nonces it draws; the blinding secret is `y`. -/
def gyGroupPkRequest (uid : GroupUid β) (pk : ProfileKey β) (y r1 r2 : S) (nonces : Nat → S) :
    Except GyErr (GroupPkRequest P π) := do
  let (m3, m4, j3) ← attrsPk tier uid pk
  let cm ← gyGroupPkCommit tier gens uid pk
  let req := blindedPk tier m3 m4 y r1 r2
  let proof ← groupProve tier (gyGroupBuildPiBr gens tier.base req cm) ![y, r1, r2, j3]
    groupRoleMember "pi_BR" nonces
  return ⟨req, proof⟩

/-- `gy_group_pk_blind_issue` on the scalars and nonces it draws. -/
def gyGroupPkBlindIssue (skP : GroupServerSecret S P) (uid : GroupUid β)
    (commit : GroupPkCommitment P) (req : GroupPkRequest P π) (t u rp : S) (nonces : Nat → S) :
    Except GyErr (GroupPkBlindResponse S P π) :=
  if skP.nBound ≠ 4 then .error .arg
  else do
    groupCheck tier req.proof (gyGroupBuildPiBr gens tier.base req.toGroupPkBlinded commit)
      groupRoleMember "pi_BR"
    let pp ← gyGroupServerPublicFromSecret gens skP
    let (m1, m2) ← gyGroupAttrsUid tier uid
    let bigU := u • tier.base
    -- the part of the MAC over the attributes the server knows
    let vp := skP.bigW + (skP.x0 + skP.x1 * t) • bigU + skP.y1 • m1 + skP.y2 • m2
    -- the rest is computed under the client's encryption of the hidden ones
    let s1 := skP.y3 • req.d1 + skP.y4 • req.e1 + rp • tier.base
    let s2 := skP.y3 • req.d2 + skP.y4 • req.e2 + rp • req.y + vp
    let proof ← groupProve tier
      (gyGroupBuildPiBi gens tier.base pp.cW pp.i req.toGroupPkBlinded bigU (t • bigU) m1 m2 s1 s2)
      ![skP.w, skP.wprime, skP.y1, skP.y2, skP.y3, skP.y4, skP.x0, skP.x1, rp] groupRoleIssuer
      "pi_BI" nonces
    return ⟨s1, s2, t, bigU, proof⟩

/-- `gy_group_pk_blind_receive`. -/
def gyGroupPkBlindReceive (ppSrv : GroupServerPublic P) (uid : GroupUid β)
    (req : GroupPkBlinded P) (y : S) (resp : GroupPkBlindResponse S P π) :
    Except GyErr (GroupMacTag S P) := do
  let (m1, m2) ← gyGroupAttrsUid tier uid
  groupCheck tier resp.proof
    (gyGroupBuildPiBi gens tier.base ppSrv.cW ppSrv.i req resp.u (resp.t • resp.u) m1 m2 resp.s1
      resp.s2) groupRoleIssuer "pi_BI"
  return ⟨resp.t, resp.u, resp.s2 - y • resp.s1⟩

/-! ## Presenting a profile-key credential -/

/-- The presentation of `gy_group_pk_present` before its proof is made. -/
def pkPresented (cred : GroupMacTag S P) (m1 m2 m3 m4 : P) (uct : GroupUidCt P) (pct : GroupPkCt P)
    (z : S) : GroupPkPresentation P Unit where
  cX0 := z • gens .x0 + cred.u
  cX1 := z • gens .x1 + cred.t • cred.u
  cY1 := z • gens .y1 + m1
  cY2 := z • gens .y2 + m2
  cY3 := z • gens .y3 + m3
  cY4 := z • gens .y4 + m4
  cV := z • gens .v + cred.v
  eA1 := uct.eA1
  eA2 := uct.eA2
  eB1 := pct.eB1
  eB2 := pct.eB2
  proof := ()

/-- A presentation with its proof. -/
def GroupPkPresentation.withProof {τ : Type} (p : GroupPkPresentation P τ) (proof : π) :
    GroupPkPresentation P π :=
  { p with proof := proof }

/-- `gy_group_pk_present` on the blinding scalar and nonces it draws. -/
def gyGroupPkPresent (sp : GroupSecretParams S) (ppPub : GroupPublicParams P)
    (ppSrv : GroupServerPublic P) (cred : GroupMacTag S P) (uid : GroupUid β) (pk : ProfileKey β)
    (z : S) (nonces : Nat → S) : Except GyErr (GroupPkPresentation P π) := do
  let m ← gyGroupAttrProfile tier uid pk
  let uct ← gyGroupUidEncrypt tier sp uid
  let pct ← gyGroupPkEncrypt tier sp pk uid
  let p := pkPresented gens cred (m.getD 0 0) (m.getD 1 0) (m.getD 2 0) (m.getD 3 0) uct pct z
  let proof ← groupProve tier (gyGroupBuildPiP gens ppSrv.i ppPub.a ppPub.b (z • ppSrv.i) p)
    ![z, sp.a1, sp.a2, sp.b1, sp.b2, -(z * cred.t), -(z * sp.a1), -(z * sp.b1), cred.t]
    groupRoleMember "pi_P" nonces
  return p.withProof proof

/-- The target of the first equation as the verifier recomputes it from its key. -/
def pkZ (skP : GroupServerSecret S P) (p : GroupPkPresentation P π) : P :=
  p.cV - (skP.bigW + skP.x0 • p.cX0 + skP.x1 • p.cX1 + skP.y1 • p.cY1 + skP.y2 • p.cY2 +
    skP.y3 • p.cY3 + skP.y4 • p.cY4)

/-- `gy_group_pk_present_verify`. -/
def gyGroupPkPresentVerify (skP : GroupServerSecret S P) (ppPub : GroupPublicParams P)
    (pres : GroupPkPresentation P π) : Except GyErr Unit :=
  if skP.nBound ≠ 4 then .error .arg
  else do
    let pp ← gyGroupServerPublicFromSecret gens skP
    groupCheck tier pres.proof
      (gyGroupBuildPiP gens pp.i ppPub.a ppPub.b (pkZ skP pres) pres) groupRoleMember "pi_P"

end Issue

end Geryon
