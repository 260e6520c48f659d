import Geryon.Kex.Generate
import Geryon.Qspgs.Statements

/-!
# What an identity key signs

The statements under the identity key of a suite: its signed prekeys, the certificates of its
application keys and, in a hybrid suite, the registrations and acceptances of the group vertical.
The curve key signs one string; the ML-DSA key signs a message in a context.

## Main results

- `identityStatements_bound`: every signed string, and every signed pair, belongs to one statement.
- `gyCustodianQspgsSignReguser_ok`, `gyCustodianQspgsSignInvaccept_ok` and `gyQspgsPersVerify_iff`:
  the custodian signs what the verifier of the group vertical rebuilds.
-/

namespace Geryon

variable {β : Type} [Octet β] (desc : SuiteDesc β)

/-! ## The signers of the custodian -/

/-- `GY_CUSTODIAN_SIGN_MAX`. -/
def custodianSignMax : Nat := 8000

/-- `cust_qspgs_identity_dual_sign`: the context, which is prepended for the curve key, and the
object. -/
def custQspgsIdentityDualSign (ctx : PersCtx) (obj : Bytes β) : Except GyErr (Bytes β × Bytes β) :=
  if custodianSignMax < obj.length then .error .toolong
  else do
    let info ← gyInfo desc appkeyInfoMax ctx.purpose
    return (info, obj)

variable [KrMlDsa β]

/-- `cust_qspgs_vkb_len`. -/
def custQspgsVkbLen : Nat :=
  if desc.suiteId = 2 ∨ desc.suiteId = 4 then KrMlDsa.vkbLen desc else 0

/-- `cust_qspgs_mkey_len`. -/
def custQspgsMkeyLen {β : Type} (desc : SuiteDesc β) : Nat :=
  if desc.suiteId = 2 then 32 else if desc.suiteId = 4 then 56 else 0

/-- `gy_custodian_qspgs_sign_reguser`: the object is both keys, of the widths of the suite. -/
def gyCustodianQspgsSignReguser (vkb acq : Bytes β) : Except GyErr (Bytes β × Bytes β) :=
  if custQspgsVkbLen desc = 0 ∨ custQspgsMkeyLen desc = 0 then .error .unsupported
  else
    custQspgsIdentityDualSign desc .reguser
      (vkb.take (custQspgsVkbLen desc) ++ acq.take (custQspgsMkeyLen desc))

/-- `gy_custodian_qspgs_sign_invaccept`: a user of fixed width, the user key and the group. -/
def gyCustodianQspgsSignInvaccept (uid uk gid : Bytes β) : Except GyErr (Bytes β × Bytes β) :=
  if uid.length ≠ qspgsUidLen then .error .arg
  else if custQspgsMkeyLen desc = 0 then .error .unsupported
  else
    custQspgsIdentityDualSign desc .invaccept
      (Octet.ofByte (UInt8.ofNat uid.length) ::
        (uid ++ uk.take (custQspgsMkeyLen desc) ++ gid.take qspgsGidLen))

/-! ## Statements -/

/-- What an identity states under its keys. -/
inductive IdentityStatement (β : Type) where
  | spk (curveType : UInt8) (pk : Bytes β) (timestamp : UInt64)
  | hybridSpk (curveType : UInt8) (pk mlkemEk : Bytes β) (timestamp flags : UInt64)
  | appkeyCert (curveType : UInt8) (pk mldsaPk : Bytes β) (issuedAt expiry : UInt64)
      (identityPkid : UInt32)
  | reguser (vkb acq : Bytes β)
  | invaccept (uid uk gid : Bytes β)

/-- The string under the identity curve key. -/
def IdentityStatement.curveSigned : IdentityStatement β → Except GyErr (Bytes β)
  | .spk curveType pk timestamp => spkSignedData ⟨0, curveType, pk⟩ timestamp
  | .hybridSpk curveType pk mlkemEk timestamp flags =>
    hybridSignedData desc ⟨⟨0, curveType, pk⟩, mlkemEk⟩ timestamp flags
  | .appkeyCert curveType pk mldsaPk issuedAt expiry identityPkid =>
    custAppkeyCertSignedData desc ⟨0, curveType, pk⟩ mldsaPk issuedAt expiry identityPkid
  | .reguser vkb acq => do
    let p ← gyCustodianQspgsSignReguser desc vkb acq
    return p.1 ++ p.2
  | .invaccept uid uk gid => do
    let p ← gyCustodianQspgsSignInvaccept desc uid uk gid
    return p.1 ++ p.2

/-- The context and the message under the identity ML-DSA key. A classical prekey has none. -/
def IdentityStatement.dsaSigned : IdentityStatement β → Except GyErr (Bytes β × Bytes β)
  | .spk .. => .error .unsupported
  | .hybridSpk curveType pk mlkemEk timestamp flags => do
    let msg ← hybridSignedData desc ⟨⟨0, curveType, pk⟩, mlkemEk⟩ timestamp flags
    let ctx ← gyInfo desc prekeyCtxMax "prekey"
    return (ctx, msg)
  | .appkeyCert curveType pk mldsaPk issuedAt expiry identityPkid => do
    let msg ← custAppkeyCertSignedData desc ⟨0, curveType, pk⟩ mldsaPk issuedAt expiry identityPkid
    let ctx ← gyInfo desc appkeyInfoMax "appkey-cert"
    return (ctx, msg)
  | .reguser vkb acq => gyCustodianQspgsSignReguser desc vkb acq
  | .invaccept uid uk gid => gyCustodianQspgsSignInvaccept desc uid uk gid

/-- The statement is one of the suite, with keys of their widths. -/
def IdentityStatement.OfSuite : IdentityStatement β → Prop
  | .spk curveType pk _ => desc.isHybrid = false ∧ pk.length = curveType.toNat
  | .hybridSpk curveType pk mlkemEk _ _ =>
    desc.isHybrid = true ∧ pk.length = curveType.toNat ∧ mlkemEk.length = desc.kemPkLen
  | .appkeyCert _ pk mldsaPk _ _ _ =>
    pk.length = desc.curvePkLen ∧ mldsaPk.length = if desc.isHybrid then desc.dsaPkLen else 0
  | .reguser vkb acq =>
    vkb.length = KrMlDsa.vkbLen desc ∧ acq.length = gyQspgsMasterKeyLen desc
  | .invaccept _ uk gid => uk.length = gyQspgsMasterKeyLen desc ∧ gid.length = qspgsGidLen

/-- The purpose in the context of a statement. -/
def IdentityStatement.purpose : IdentityStatement β → String
  | .spk .. | .hybridSpk .. => "prekey"
  | .appkeyCert .. => "appkey-cert"
  | .reguser .. => PersCtx.reguser.purpose
  | .invaccept .. => PersCtx.invaccept.purpose

/-! ## The verifier of the group vertical -/

omit [Octet β] [KrMlDsa β] in
/-- The two tables of master key lengths agree. -/
theorem custQspgsMkeyLen_eq : custQspgsMkeyLen desc = gyQspgsMasterKeyLen desc := rfl

/-- What the custodian signs for a registration: the context and both keys. -/
theorem gyCustodianQspgsSignReguser_ok {vkb acq : Bytes β} {p : Bytes β × Bytes β}
    (hvkb : vkb.length = KrMlDsa.vkbLen desc) (hacq : acq.length = gyQspgsMasterKeyLen desc)
    (h : gyCustodianQspgsSignReguser desc vkb acq = .ok p) :
    p = (infoBytes desc PersCtx.reguser.purpose, gyQspgsReguserTbs vkb acq) := by
  unfold gyCustodianQspgsSignReguser custQspgsIdentityDualSign at h
  split_ifs at h with hlens
  obtain ⟨info, hinfo, h⟩ := Except.bind_eq_ok_iff.1 h
  have hwidth : custQspgsVkbLen desc = KrMlDsa.vkbLen desc := by
    have hne := (not_or.1 hlens).1
    unfold custQspgsVkbLen at hne ⊢
    split_ifs at hne ⊢
    · rfl
    · exact absurd rfl hne
  rw [← Except.ok.inj h, gyInfo_ok desc hinfo, hwidth, custQspgsMkeyLen_eq,
    List.take_of_length_le (Nat.le_of_eq hvkb), List.take_of_length_le (Nat.le_of_eq hacq)]
  rfl

omit [KrMlDsa β] in
/-- What the custodian signs for an acceptance: the context and the object. -/
theorem gyCustodianQspgsSignInvaccept_ok {uid uk gid : Bytes β} {p : Bytes β × Bytes β}
    (huk : uk.length = gyQspgsMasterKeyLen desc) (hgid : gid.length = qspgsGidLen)
    (h : gyCustodianQspgsSignInvaccept desc uid uk gid = .ok p) :
    p = (infoBytes desc PersCtx.invaccept.purpose, gyQspgsInvacceptTbs uid uk gid) ∧
      uid.length = qspgsUidLen := by
  unfold gyCustodianQspgsSignInvaccept custQspgsIdentityDualSign at h
  split_ifs at h with huid
  obtain ⟨info, hinfo, h⟩ := Except.bind_eq_ok_iff.1 h
  rw [← Except.ok.inj h, gyInfo_ok desc hinfo, custQspgsMkeyLen_eq,
    List.take_of_length_le (Nat.le_of_eq huk), List.take_of_length_le (Nat.le_of_eq hgid)]
  exact ⟨rfl, not_not.1 huid⟩

omit [KrMlDsa β] in
/-- The verifier of the group vertical accepts two signatures exactly on what the custodian signs
for the same fields. -/
theorem gyQspgsPersVerify_iff {ctx : PersCtx} {obj curvePk mldsaPk edSig mldsaSig : Bytes β}
    (hlen : obj.length ≤ 6144) (hname : desc.name.length ≤ 22) :
    gyQspgsPersVerify desc curvePk mldsaPk ctx obj edSig mldsaSig = .ok () ↔
      desc.verify edSig curvePk (infoBytes desc ctx.purpose ++ obj) = .ok () ∧
        desc.dsaVerify mldsaSig mldsaPk obj (infoBytes desc ctx.purpose) = .ok () := by
  have hpurpose : ctx.purpose.length ≤ 15 := by
    cases ctx
    · exact show 13 ≤ 15 by decide
    · exact Nat.le_refl 15
  have hinfo : gyInfo desc qspgsDomainMax ctx.purpose = .ok (infoBytes desc ctx.purpose) := by
    unfold gyInfo qspgsDomainMax
    rw [if_neg (by omega)]
    rfl
  unfold gyQspgsPersVerify
  rw [if_neg (Nat.not_lt.2 hlen), hinfo, Except.ok_bind]
  rcases desc.verify edSig curvePk (infoBytes desc ctx.purpose ++ obj) with e | ⟨⟩
  · simp
  · rcases desc.dsaVerify mldsaSig mldsaPk obj (infoBytes desc ctx.purpose) with e | ⟨⟩ <;> simp

/-! ## Binding -/

/-- The signed string without the context of the group vertical. -/
def IdentityStatement.message : IdentityStatement β → Bytes β
  | .spk curveType pk timestamp => Octet.ofByte curveType :: (pk ++ be64Put timestamp)
  | .hybridSpk curveType pk mlkemEk timestamp flags =>
    Octet.ofByte curveType :: (pk ++ (mlkemEk ++ (be64Put timestamp ++ be64Put flags)))
  | .appkeyCert curveType pk mldsaPk issuedAt expiry identityPkid =>
    infoBytes desc "appkey-cert" ++ (Octet.ofByte curveType :: (pk ++ (mldsaPk ++
      (be64Put issuedAt ++ (be64Put expiry ++ be32Put identityPkid)))))
  | .reguser vkb acq => gyQspgsReguserTbs vkb acq
  | .invaccept uid uk gid => gyQspgsInvacceptTbs uid uk gid

/-- What the signers check of a statement. -/
def IdentityStatement.Checked : IdentityStatement β → Prop
  | .spk curveType .. | .hybridSpk curveType .. =>
    curveType = curveType25519 ∨ curveType = curveType448
  | .invaccept uid .. => uid.length = qspgsUidLen
  | _ => True

/-- The string under the curve key, of the message. -/
def IdentityStatement.curveString (s : IdentityStatement β) : Bytes β :=
  match s with
  | .reguser .. | .invaccept .. => infoBytes desc s.purpose ++ s.message desc
  | _ => s.message desc

omit [KrMlDsa β] in
theorem gyEncodeEc_eq_ok {ct : UInt8} {pk enc : Bytes β} (hpk : pk.length = ct.toNat)
    (h : gyEncodeEc ct pk = .ok enc) :
    enc = Octet.ofByte ct :: pk ∧ (ct = curveType25519 ∨ ct = curveType448) := by
  unfold gyEncodeEc at h
  split_ifs at h with hct
  rw [← Except.ok.inj h, List.take_of_length_le (Nat.le_of_eq hpk)]
  refine ⟨rfl, ?_⟩
  by_contra hne
  exact hct (not_or.1 hne)

omit [KrMlDsa β] in
theorem hybridSignedData_eq_ok {ct : UInt8} {pk ek signed : Bytes β} {timestamp flags : UInt64}
    (hpk : pk.length = ct.toNat) (hek : ek.length = desc.kemPkLen)
    (h : hybridSignedData desc ⟨⟨0, ct, pk⟩, ek⟩ timestamp flags = .ok signed) :
    signed = (IdentityStatement.hybridSpk ct pk ek timestamp flags).message desc ∧
      (ct = curveType25519 ∨ ct = curveType448) := by
  obtain ⟨enc, henc, h⟩ := Except.bind_eq_ok_iff.1 h
  obtain ⟨ec, hec, henc⟩ := Except.bind_eq_ok_iff.1 henc
  obtain ⟨rfl, hct⟩ := gyEncodeEc_eq_ok hpk hec
  refine ⟨?_, hct⟩
  rw [← Except.ok.inj h, ← Except.ok.inj henc, List.take_of_length_le (Nat.le_of_eq hek)]
  simp only [IdentityStatement.message, List.cons_append, List.append_assoc]

omit [KrMlDsa β] in
theorem custAppkeyCertSignedData_eq_ok {ct : UInt8} {pk dsaPk signed : Bytes β}
    {issuedAt expiry : UInt64} {pkid : UInt32} (hpk : pk.length = desc.curvePkLen)
    (hdsa : dsaPk.length ≤ desc.dsaPkLen)
    (h : custAppkeyCertSignedData desc ⟨0, ct, pk⟩ dsaPk issuedAt expiry pkid = .ok signed) :
    signed = (IdentityStatement.appkeyCert ct pk dsaPk issuedAt expiry pkid).message desc := by
  obtain ⟨info, hinfo, h⟩ := Except.bind_eq_ok_iff.1 h
  rw [← Except.ok.inj h, gyInfo_ok desc hinfo, List.take_of_length_le (Nat.le_of_eq hpk),
    List.take_of_length_le hdsa]
  rfl

namespace IdentityStatement

variable {desc} {s s' : IdentityStatement β}

omit [Octet β] in
theorem OfSuite.dsa_le {ct : UInt8} {pk dsaPk : Bytes β} {issuedAt expiry : UInt64} {pkid : UInt32}
    (hs : (appkeyCert ct pk dsaPk issuedAt expiry pkid).OfSuite desc) :
    dsaPk.length ≤ desc.dsaPkLen := by
  rw [hs.2]
  split
  · exact Nat.le_refl _
  · exact Nat.zero_le _

/-- What the curve key signs is the string of the statement, which the signer has checked. -/
theorem curveSigned_ok {b : Bytes β} (hs : s.OfSuite desc) (h : s.curveSigned desc = .ok b) :
    b = s.curveString desc ∧ s.Checked := by
  cases s with
  | spk ct pk timestamp =>
    obtain ⟨enc, henc, h⟩ := Except.bind_eq_ok_iff.1 h
    obtain ⟨rfl, hct⟩ := gyEncodeEc_eq_ok hs.2 henc
    exact ⟨(Except.ok.inj h).symm, hct⟩
  | hybridSpk ct pk ek timestamp flags => exact hybridSignedData_eq_ok desc hs.2.1 hs.2.2 h
  | appkeyCert ct pk dsaPk issuedAt expiry pkid =>
    exact ⟨custAppkeyCertSignedData_eq_ok desc hs.1 hs.dsa_le h, trivial⟩
  | reguser vkb acq =>
    obtain ⟨p, hp, h⟩ := Except.bind_eq_ok_iff.1 h
    obtain rfl := gyCustodianQspgsSignReguser_ok desc hs.1 hs.2 hp
    exact ⟨(Except.ok.inj h).symm, trivial⟩
  | invaccept uid uk gid =>
    obtain ⟨p, hp, h⟩ := Except.bind_eq_ok_iff.1 h
    obtain ⟨rfl, huid⟩ := gyCustodianQspgsSignInvaccept_ok desc hs.1 hs.2 hp
    exact ⟨(Except.ok.inj h).symm, huid⟩

/-- What the ML-DSA key signs is the message, in the context of the purpose. -/
theorem dsaSigned_ok {p : Bytes β × Bytes β} (hs : s.OfSuite desc)
    (h : s.dsaSigned desc = .ok p) :
    p = (infoBytes desc s.purpose, s.message desc) ∧ s.Checked := by
  cases s with
  | spk ct pk timestamp => cases h
  | hybridSpk ct pk ek timestamp flags =>
    obtain ⟨msg, hmsg, h⟩ := Except.bind_eq_ok_iff.1 h
    obtain ⟨ctx, hctx, h⟩ := Except.bind_eq_ok_iff.1 h
    obtain ⟨rfl, hct⟩ := hybridSignedData_eq_ok desc hs.2.1 hs.2.2 hmsg
    rw [← Except.ok.inj h, gyInfo_ok desc hctx]
    exact ⟨rfl, hct⟩
  | appkeyCert ct pk dsaPk issuedAt expiry pkid =>
    obtain ⟨msg, hmsg, h⟩ := Except.bind_eq_ok_iff.1 h
    obtain ⟨ctx, hctx, h⟩ := Except.bind_eq_ok_iff.1 h
    obtain rfl := custAppkeyCertSignedData_eq_ok desc hs.1 hs.dsa_le hmsg
    rw [← Except.ok.inj h, gyInfo_ok desc hctx]
    exact ⟨rfl, trivial⟩
  | reguser vkb acq => exact ⟨gyCustodianQspgsSignReguser_ok desc hs.1 hs.2 h, trivial⟩
  | invaccept uid uk gid => exact gyCustodianQspgsSignInvaccept_ok desc hs.1 hs.2 h

/-! ### Purposes -/

/-- The purposes an identity signs for. -/
def purposes : List String := ["prekey", "appkey-cert", "qspgs-reguser", "qspgs-invaccept"]

omit [Octet β] [KrMlDsa β] in
theorem purpose_mem (s : IdentityStatement β) : s.purpose ∈ purposes := by
  cases s <;> simp [purpose, purposes, PersCtx.purpose]

/-- No purpose begins another. -/
theorem eq_of_prefix_purpose :
    ∀ p ∈ purposes, ∀ q ∈ purposes, asciiCodes p <+: asciiCodes q → p = q := by
  decide

variable (desc) in
omit [KrMlDsa β] in
/-- An info string in front of a string tells the purpose. -/
theorem purpose_eq_of_info {r r' : Bytes β}
    (h : infoBytes desc s.purpose ++ r = infoBytes desc s'.purpose ++ r') :
    s.purpose = s'.purpose := by
  by_contra hne
  have hst := mt (eq_of_prefix_purpose _ s.purpose_mem _ s'.purpose_mem) hne
  have hts := mt (eq_of_prefix_purpose _ s'.purpose_mem _ s.purpose_mem) (Ne.symm hne)
  exact infoBytes_append_ne desc hst hts r r' h

variable (desc) in
omit [KrMlDsa β] in
/-- The string of a prekey begins with the curve type, any other with its purpose. -/
theorem curveString_start (hs : s.Checked) :
    (∃ ct r, ct ≠ (103 : UInt8) ∧ s.curveString desc = Octet.ofByte ct :: r ∧
        s.purpose = "prekey") ∨
      ∃ r, s.curveString desc = infoBytes desc s.purpose ++ r := by
  cases s with
  | spk ct pk timestamp =>
    refine .inl ⟨ct, _, ?_, rfl, rfl⟩
    rintro rfl
    exact absurd hs (show ¬((103 : UInt8) = 32 ∨ (103 : UInt8) = 56) by decide)
  | hybridSpk ct pk ek timestamp flags =>
    refine .inl ⟨ct, _, ?_, rfl, rfl⟩
    rintro rfl
    exact absurd hs (show ¬((103 : UInt8) = 32 ∨ (103 : UInt8) = 56) by decide)
  | appkeyCert ct pk dsaPk issuedAt expiry pkid => exact .inr ⟨_, rfl⟩
  | reguser vkb acq => exact .inr ⟨_, rfl⟩
  | invaccept uid uk gid => exact .inr ⟨_, rfl⟩

omit [KrMlDsa β] in
theorem purpose_eq_of_curveString (hs : s.Checked) (hs' : s'.Checked)
    (h : s.curveString desc = s'.curveString desc) : s.purpose = s'.purpose := by
  rcases curveString_start desc hs with ⟨ct, r, hct, hb, hp⟩ | ⟨r, hb⟩ <;>
    rcases curveString_start desc hs' with ⟨ct', r', hct', hb', hp'⟩ | ⟨r', hb'⟩
  · rw [hp, hp']
  · exact absurd (hb'.symm.trans (h.symm.trans hb)) (infoBytes_append_ne_cons desc hct _ _ _)
  · exact absurd (hb.symm.trans (h.trans hb')) (infoBytes_append_ne_cons desc hct' _ _ _)
  · exact purpose_eq_of_info desc (hb.symm.trans (h.trans hb'))

/-! ### Fields -/

/-- In a suite, purpose and message determine the statement. -/
theorem message_inj (hs : s.OfSuite desc) (hs' : s'.OfSuite desc) (hc : s.Checked)
    (hc' : s'.Checked) (hp : s.purpose = s'.purpose) (h : s.message desc = s'.message desc) :
    s = s' := by
  cases s <;> cases s'
  case spk.spk ct pk timestamp ct' pk' timestamp' =>
    obtain ⟨hct, hr⟩ := List.cons.inj h
    have hwidth : pk.length = pk'.length := by rw [hs.2, hs'.2, ofByte_inj hct]
    obtain ⟨hpk, hr⟩ := List.append_inj hr hwidth
    rw [ofByte_inj hct, hpk, be64Put_injective hr]
  case hybridSpk.hybridSpk ct pk ek timestamp flags ct' pk' ek' timestamp' flags' =>
    obtain ⟨hct, hr⟩ := List.cons.inj h
    have hwidth : pk.length = pk'.length := by rw [hs.2.1, hs'.2.1, ofByte_inj hct]
    obtain ⟨hpk, hr⟩ := List.append_inj hr hwidth
    obtain ⟨hek, hr⟩ := List.append_inj hr (hs.2.2.trans hs'.2.2.symm)
    obtain ⟨htimestamp, hr⟩ := be64Put_append_inj hr
    rw [ofByte_inj hct, hpk, hek, htimestamp, be64Put_injective hr]
  case appkeyCert.appkeyCert ct pk dsaPk iat exp pkid ct' pk' dsaPk' iat' exp' pkid' =>
    have hcert := List.append_cancel_left (show infoBytes desc "appkey-cert" ++ _ =
      infoBytes desc "appkey-cert" ++ _ from h)
    obtain ⟨hct, hr⟩ := List.cons.inj hcert
    obtain ⟨hpk, hr⟩ := List.append_inj hr (hs.1.trans hs'.1.symm)
    obtain ⟨hdsa, hr⟩ := List.append_inj hr (hs.2.trans hs'.2.symm)
    obtain ⟨hiat, hr⟩ := be64Put_append_inj hr
    obtain ⟨hexp, hr⟩ := be64Put_append_inj hr
    rw [ofByte_inj hct, hpk, hdsa, hiat, hexp, be32Put_injective hr]
  case reguser.reguser vkb acq vkb' acq' =>
    obtain ⟨rfl, rfl⟩ := gyQspgsReguserTbs_inj (hs.1.trans hs'.1.symm) h
    rfl
  case invaccept.invaccept uid uk gid uid' uk' gid' =>
    have hlt : uid.length < 256 := lt_of_eq_of_lt hc (by decide)
    have hlt' : uid'.length < 256 := lt_of_eq_of_lt hc' (by decide)
    obtain ⟨rfl, rfl, rfl⟩ := gyQspgsInvacceptTbs_inj hlt hlt' (hs.1.trans hs'.1.symm) h
    rfl
  -- both kinds of prekeys have one purpose; a suite has one of them
  case spk.hybridSpk => cases hs.1.symm.trans hs'.1
  case hybridSpk.spk => cases hs.1.symm.trans hs'.1
  all_goals simp [purpose, PersCtx.purpose] at hp

omit [KrMlDsa β] in
/-- Statements of one purpose have one prefix under the curve key. -/
theorem message_eq_of_curveString (hp : s.purpose = s'.purpose)
    (h : s.curveString desc = s'.curveString desc) : s.message desc = s'.message desc := by
  cases s <;> cases s'
  case reguser.reguser vkb acq vkb' acq' => exact List.append_cancel_left h
  case invaccept.invaccept uid uk gid uid' uk' gid' => exact List.append_cancel_left h
  all_goals first | exact h | simp [purpose, PersCtx.purpose] at hp

/-- What the verifier of the group vertical rebuilds: context and object. -/
def persObject : IdentityStatement β → Option (PersCtx × Bytes β)
  | reguser vkb acq => some (.reguser, gyQspgsReguserTbs vkb acq)
  | invaccept uid uk gid => some (.invaccept, gyQspgsInvacceptTbs uid uk gid)
  | _ => none

variable (desc) in
omit [KrMlDsa β] in
theorem persObject_some {ctx : PersCtx} {obj : Bytes β} (h : s.persObject = some (ctx, obj)) :
    s.purpose = ctx.purpose ∧ s.message desc = obj ∧
      s.curveString desc = infoBytes desc ctx.purpose ++ obj := by
  cases s with
  | spk ct pk timestamp => cases h
  | hybridSpk ct pk ek timestamp flags => cases h
  | appkeyCert ct pk dsaPk issuedAt expiry pkid => cases h
  | reguser vkb acq =>
    cases h
    exact ⟨rfl, rfl, rfl⟩
  | invaccept uid uk gid =>
    cases h
    exact ⟨rfl, rfl, rfl⟩

end IdentityStatement

/-- What an identity signs is bound and separated. In a suite, the string under the curve key
determines the statement, and so do context and message under the ML-DSA key. For the statements of
the group vertical, the verifier checks both signatures on what the custodian signs. -/
theorem identityStatements_bound (s s' : IdentityStatement β) (hs : s.OfSuite desc)
    (hs' : s'.OfSuite desc) :
    (∀ b, s.curveSigned desc = .ok b → s'.curveSigned desc = .ok b → s = s') ∧
    (∀ p, s.dsaSigned desc = .ok p → s'.dsaSigned desc = .ok p → s = s') ∧
    ∀ ctx obj p b, s.persObject = some (ctx, obj) → s.dsaSigned desc = .ok p →
      s.curveSigned desc = .ok b →
      p = (infoBytes desc ctx.purpose, obj) ∧ b = infoBytes desc ctx.purpose ++ obj ∧
        (obj.length ≤ 6144 → desc.name.length ≤ 22 → ∀ curvePk mldsaPk edSig mldsaSig,
          (gyQspgsPersVerify desc curvePk mldsaPk ctx obj edSig mldsaSig = .ok () ↔
            desc.verify edSig curvePk b = .ok () ∧
              desc.dsaVerify mldsaSig mldsaPk p.2 p.1 = .ok ())) := by
  refine ⟨fun b h h' => ?_, fun p h h' => ?_, fun ctx obj p b hobj hp hb => ?_⟩
  · obtain ⟨hb, hc⟩ := IdentityStatement.curveSigned_ok hs h
    obtain ⟨hb', hc'⟩ := IdentityStatement.curveSigned_ok hs' h'
    have hstr := hb.symm.trans hb'
    have hpurpose := IdentityStatement.purpose_eq_of_curveString hc hc' hstr
    exact IdentityStatement.message_inj hs hs' hc hc' hpurpose
      (IdentityStatement.message_eq_of_curveString hpurpose hstr)
  · obtain ⟨hb, hc⟩ := IdentityStatement.dsaSigned_ok hs h
    obtain ⟨hb', hc'⟩ := IdentityStatement.dsaSigned_ok hs' h'
    obtain ⟨hctx, hmsg⟩ := Prod.ext_iff.1 (hb.symm.trans hb')
    have hpurpose : s.purpose = s'.purpose :=
      IdentityStatement.purpose_eq_of_info desc (congrArg (· ++ []) hctx)
    exact IdentityStatement.message_inj hs hs' hc hc' hpurpose hmsg
  · obtain ⟨hpurpose, hmsg, hstr⟩ := IdentityStatement.persObject_some desc hobj
    obtain ⟨rfl, -⟩ := IdentityStatement.dsaSigned_ok hs hp
    obtain ⟨rfl, -⟩ := IdentityStatement.curveSigned_ok hs hb
    rw [hpurpose, hmsg, hstr]
    exact ⟨rfl, rfl, fun hlen hname _ _ _ _ => gyQspgsPersVerify_iff desc hlen hname⟩

/-- The registration of zeroed keys. -/
def zeroReguser : IdentityStatement UInt8 := .reguser (zeros 2976) (zeros 32)

set_option maxRecDepth 30000 in
/-- Its context and message under the one key make up its string under the other. -/
theorem identityStatements_bound_reguser :
    letI : KrMlDsa UInt8 := qspgsWireKr
    ∃ p b, zeroReguser.dsaSigned qspgsWireSuite = .ok p ∧
      zeroReguser.curveSigned qspgsWireSuite = .ok b ∧ b = p.1 ++ p.2 := by
  let _ : KrMlDsa UInt8 := qspgsWireKr
  have hdsa : zeroReguser.dsaSigned qspgsWireSuite =
      .ok (infoBytes qspgsWireSuite PersCtx.reguser.purpose,
        gyQspgsReguserTbs (zeros 2976) (zeros 32)) := by rfl
  have hcurve : zeroReguser.curveSigned qspgsWireSuite =
      .ok (infoBytes qspgsWireSuite PersCtx.reguser.purpose ++
        gyQspgsReguserTbs (zeros 2976) (zeros 32)) := by rfl
  have hbound := (identityStatements_bound qspgsWireSuite zeroReguser zeroReguser
    ⟨length_zeros _, length_zeros _⟩ ⟨length_zeros _, length_zeros _⟩).2.2 _ _ _ _ rfl hdsa hcurve
  exact ⟨_, _, hdsa, hcurve, hbound.2.1⟩

end Geryon
