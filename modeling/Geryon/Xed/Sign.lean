import Geryon.Xed.Curve

/-!
# XEd448 signatures

`core/ed448.c` over its point layer: the key derivation, the deterministic signing core and the
verification under an X448 public key.

The public key is the `u`-coordinate of a multiple of the base point of Curve448, which is what the
X448 ladder computes (`x448PublicKey`). Signing works with a multiple of `B` whose sign it chooses,
verifying with the point it recovers from `u`: both are the multiple with an even `x`
(`deriveKey_spec`, `recoverKey_spec`), and that makes signatures verify (`xed448_verifies`).
-/

namespace Geryon

/-- `GY_XED448_MAX_MSG`. -/
def xed448MaxMsg : ℕ := 8192

/-- `hash1_prefix`: the encoding of `2^456 - 2`. -/
def hash1Prefix : Bytes UInt8 := 0xfe :: List.replicate 56 0xff

/-! ## X448 -/

/-- The clamp of X448. -/
def x448Clamp (sk : Bytes UInt8) : Bytes UInt8 :=
  (sk.modify 0 (· &&& 252)).modify 55 (· ||| 128)

/-- A secret of X448 as `gy_x448_keypair` stores it. -/
def X448Clamped (sk : Bytes UInt8) : Prop := sk.length = 56 ∧ x448Clamp sk = sk

/-- The `u`-coordinate the ladder returns: that of the point at infinity is zero. -/
def uCoord : (Edwards.montgomery edwardsD).Point → Gf
  | .zero => 0
  | .some u _ _ => u

/-- `decaf_x448_derive_public_key`: the multiple of the base point by the clamped secret. -/
noncomputable def x448PublicKey (sk : Bytes UInt8) : Bytes UInt8 :=
  gfSerialize (uCoord (LittleEndian.toNat (x448Clamp sk) • montBase))

section Decaf

variable [Libdecaf]

/-! ## Keys -/

/-- `derive_key`: the multiple `E` of the base point by the secret, and the scalar of the one of `E`
and `-E` whose sign bit is zero. -/
def deriveKey (montSk : Bytes UInt8) (d : Gf) (b : Pt) : Pt × DecafScalar :=
  let kSc := scalarDecodeLong montSk
  let kBytes := scalarEncode kSc
  let e := ptScalarmul b kBytes d
  let zi := gfInvert e.z
  let xa := e.x * zi
  let sign := gfLobit xa
  let kNeg := 0 - kSc
  (e, bif sign then kNeg else kSc)

/-- `gy_xed448_calculate_key_pair`: the public key and the scalar. -/
def gyXed448CalculateKeyPair (montSk : Bytes UInt8) : Bytes UInt8 × Bytes UInt8 :=
  let d := curveD
  let b := basePoint d
  let (aPt, a) := deriveKey montSk d b
  (ptEncode aPt true, scalarEncode a ++ [0])

/-- `gy_xed448_mont_to_ed`. -/
def gyXed448MontToEd (montPk : Bytes UInt8) : Except GyErr (Bytes UInt8) :=
  let d := curveD
  let (y, canon) := uToY montPk
  let (a, oncurve) := ptFromY y true false d
  if !canon || !oncurve then .error .verify
  else .ok (ptEncode a true)

/-! ## Signatures -/

/-- `decode_canonical_s`. -/
def decodeCanonicalS (sEnc : Bytes UInt8) : Except GyErr DecafScalar :=
  if sEnc.getD 56 0 ≠ 0 then .error .verify
  else
    match scalarDecode sEnc with
    | none => .error .verify
    | some s => .ok s

variable [Sodium UInt8]

/-- `xed448_sign_core`, with the nonce `z`. -/
def xed448SignCore (montSk msg z : Bytes UInt8) : Except GyErr (Bytes UInt8) :=
  if xed448MaxMsg < msg.length then .error .toolong
  else
    let d := curveD
    let b := basePoint d
    let (aPt, a) := deriveKey montSk d b
    -- the sign bit of the encoded key is cleared
    let edPk := ptEncode aPt true
    let aEnc := scalarEncode a
    -- the nonce covers the secret, the message and fresh randomness
    let r := scalarDecodeLong (Sodium.sha512 (hash1Prefix ++ aEnc ++ msg ++ z))
    let rBytes := scalarEncode r
    let rPt := ptScalarmul b rBytes d
    let rEnc := ptEncode rPt false
    let h := scalarDecodeLong (Sodium.sha512 (rEnc ++ edPk ++ msg))
    let ha := h * a
    let s := r + ha
    .ok (rEnc ++ (scalarEncode s ++ [0]))

/-- `gy_xed448_sign`, with what the random source returned for the nonce. -/
def gyXed448Sign (montSk msg : Bytes UInt8) (z : Except GyErr (Bytes UInt8)) :
    Except GyErr (Bytes UInt8) :=
  if xed448MaxMsg < msg.length then .error .toolong
  else do
    let z ← z
    xed448SignCore montSk msg z

/-- `gy_xed448_verify`. -/
def gyXed448Verify (sig montPk msg : Bytes UInt8) : Except GyErr Unit :=
  if xed448MaxMsg < msg.length then .error .toolong
  else
    match decodeCanonicalS (sig.drop 57) with
    | .error _ => .error .verify
    | .ok s =>
      let d := curveD
      let b := basePoint d
      -- the key comes as a Montgomery coordinate and must be canonical
      let (y, canon) := uToY montPk
      let (aPt, oncurve) := ptFromY y true false d
      if !canon || !oncurve then .error .verify
      else
        let aEnc := ptEncode aPt true
        let h := scalarDecodeLong (Sodium.sha512 (sig.take 57 ++ aEnc ++ msg))
        let sBytes := scalarEncode s
        let hBytes := scalarEncode h
        let sb := ptScalarmul b sBytes d
        let ha := ptScalarmul aPt hBytes d
        let negHa := ptNegate ha
        let rcPt := ptAdd sb negHa d
        -- `s B - h A` must encode to the first half of the signature
        let rcEnc := ptEncode rcPt false
        if rcEnc = sig.take 57 then .ok () else .error .verify

end Decaf

/-! ## Multiples by scalars -/

theorem add_val_nsmul (s t : DecafScalar) :
    (s + t).val • edBase = s.val • edBase + t.val • edBase := by
  have hcast : s + t = ((s.val + t.val : ℕ) : DecafScalar) := by
    rw [Nat.cast_add, ZMod.natCast_zmod_val, ZMod.natCast_zmod_val]
  rw [hcast, cast_val_nsmul, add_nsmul]

theorem mul_val_nsmul (s t : DecafScalar) :
    (s * t).val • edBase = s.val • (t.val • edBase) := by
  have hcast : s * t = ((s.val * t.val : ℕ) : DecafScalar) := by
    rw [Nat.cast_mul, ZMod.natCast_zmod_val, ZMod.natCast_zmod_val]
  rw [hcast, cast_val_nsmul, mul_comm, mul_nsmul]

theorem neg_val_nsmul (s : DecafScalar) : (-s).val • edBase = -(s.val • edBase) := by
  apply eq_neg_of_add_eq_zero_left
  rw [← add_val_nsmul, neg_add_cancel, ZMod.val_zero, zero_nsmul]

theorem toNat_scalarEncode (s : DecafScalar) : LittleEndian.toNat (scalarEncode s) = s.val := by
  exact LittleEndian.toNat_ofNat (s.val_lt.trans groupOrder_lt)

theorem length_scalarEncode (s : DecafScalar) : (scalarEncode s).length = 56 :=
  LittleEndian.length_ofNat _ _

theorem Represents.scalarmul_encode {base : Pt} {P : Edwards.Point edwardsD}
    (hb : Represents base P) (s : DecafScalar) :
    Represents (ptScalarmul base (scalarEncode s) edwardsD) (s.val • P) := by
  have h := hb.scalarmul (length_scalarEncode s)
  rwa [toNat_scalarEncode] at h

/-- A reduced scalar is read back from its encoding, whatever follows it. -/
theorem scalarDecode_encode (s : DecafScalar) (rest : Bytes UInt8) :
    scalarDecode (scalarEncode s ++ rest) = some s := by
  rw [scalarDecode, List.take_left' (length_scalarEncode s), toNat_scalarEncode, if_pos s.val_lt,
    ZMod.natCast_zmod_val]

section Decaf

variable [Libdecaf]

/-- The multiples of the base point that are computed from scalars. -/
theorem baseMultiple_represents (s : DecafScalar) :
    Represents (ptScalarmul (basePoint edwardsD) (scalarEncode s) edwardsD) (s.val • edBase) :=
  basePoint_represents.scalarmul_encode s

/-! ## The key on both sides -/

/-- What `derive_key` computes from a secret: the multiple by it, and plus or minus the secret as
the scalar of the multiple with an even `x`. -/
theorem deriveKey_spec (montSk : Bytes UInt8) :
    Represents (deriveKey montSk edwardsD (basePoint edwardsD)).1
        (LittleEndian.toNat montSk • edBase) ∧
      (deriveKey montSk edwardsD (basePoint edwardsD)).2.val • edBase =
        evenPoint (LittleEndian.toNat montSk • edBase) ∧
      ((deriveKey montSk edwardsD (basePoint edwardsD)).2 = scalarDecodeLong montSk ∨
        (deriveKey montSk edwardsD (basePoint edwardsD)).2 = -scalarDecodeLong montSk) := by
  have hval : (scalarDecodeLong montSk).val • edBase = LittleEndian.toNat montSk • edBase :=
    cast_val_nsmul (LittleEndian.toNat montSk)
  have hE := baseMultiple_represents (scalarDecodeLong montSk)
  rw [hval] at hE
  unfold deriveKey
  dsimp only
  refine ⟨hE, ?_⟩
  rw [gfInvert_eq hE.z_ne, hE.x_eq, mul_inv_cancel_right₀ hE.z_ne, evenPoint]
  cases gfLobit (LittleEndian.toNat montSk • edBase).x with
  | false => exact ⟨hval, Or.inl rfl⟩
  | true =>
    rw [cond_true, cond_true, zero_sub]
    exact ⟨by rw [neg_val_nsmul, hval], Or.inr rfl⟩

omit [Libdecaf] in
theorem toNat_gfSerialize (x : Gf) : LittleEndian.toNat (gfSerialize x) = x.val := by
  exact LittleEndian.toNat_ofNat (x.val_lt.trans fieldPrime_lt)

omit [Libdecaf] in
theorem gfDeserialize_serialize (x : Gf) : gfDeserialize (gfSerialize x) = (x, true) := by
  rw [gfDeserialize, toNat_gfSerialize, ZMod.natCast_zmod_val, decide_eq_true x.val_lt]

/-- The `y`-coordinate a Montgomery public key maps to. -/
theorem uToY_multiple {k : ℕ} (hk : ¬groupOrder ∣ k) :
    uToY (gfSerialize (uCoord (k • montBase))) = ((k • edBase).y, true) := by
  have hed : k • edBase = Edwards.toEdwards (k • montBase) :=
    (Edwards.toEdwards_nsmul k montBase).symm
  rw [hed]
  rw [← nsmul_edBase_eq_zero_iff, hed] at hk
  rw [uToY, gfDeserialize_serialize]
  cases hP : k • montBase with
  | zero =>
    rw [hP] at hk
    exact absurd rfl hk
  | some u v h =>
    have hu : u - 1 ≠ 0 :=
      sub_ne_zero.mpr (Edwards.u_ne_one (Edwards.equation_montgomery.mp h.1))
    show ((u + 1) * gfInvert (u - 1), true) = ((u + 1) / (u - 1), true)
    rw [gfInvert_eq hu, div_eq_mul_inv]

/-- The key recovered from a public key: the multiple with an even `x`. -/
theorem recoverKey_spec {k : ℕ} (hk : ¬groupOrder ∣ k) :
    (ptFromY (k • edBase).y true false edwardsD).2 = true ∧
      Represents (ptFromY (k • edBase).y true false edwardsD).1 (evenPoint (k • edBase)) :=
  ptFromY_spec _ (nsmul_edBase_x_ne hk) false

/-! ## Verification of what was signed -/

omit [Libdecaf] in
theorem decodeCanonicalS_encode (s : DecafScalar) :
    decodeCanonicalS (scalarEncode s ++ [0]) = .ok s := by
  have hlast : (scalarEncode s ++ [0]).getD 56 0 = 0 := by
    rw [List.getD_append_right _ _ _ _ (length_scalarEncode s).le, length_scalarEncode]
    rfl
  rw [decodeCanonicalS, if_neg (not_not.mpr hlast), scalarDecode_encode]

variable [Sodium UInt8]

/-- A signature verifies under the public key of the secret that made it. -/
theorem xed448_verifies {sk msg z : Bytes UInt8} (hclamped : X448Clamped sk)
    (horder : ¬groupOrder ∣ LittleEndian.toNat sk) (hmsg : msg.length ≤ xed448MaxMsg) :
    ∃ sig, xed448SignCore sk msg z = .ok sig ∧ sig.length = 114 ∧
      gyXed448Verify sig (x448PublicKey sk) msg = .ok () := by
  obtain ⟨hE, hkey, -⟩ := deriveKey_spec sk
  obtain ⟨hcurve, hA⟩ := recoverKey_spec horder
  have hy : uToY (x448PublicKey sk) = ((LittleEndian.toNat sk • edBase).y, true) := by
    rw [x448PublicKey, hclamped.2]
    exact uToY_multiple horder
  unfold xed448SignCore
  rw [if_neg (Nat.not_lt.mpr hmsg), curveD_eq]
  dsimp only
  generalize hkp : deriveKey sk edwardsD (basePoint edwardsD) = kp at hE hkey
  obtain ⟨aPt, a⟩ := kp
  dsimp only at hE hkey ⊢
  have hencA :
      ptEncode aPt true = encodePoint (evenPoint (LittleEndian.toNat sk • edBase)) true := by
    rw [hE.encode, encodePoint_evenPoint]
  rw [hencA]
  generalize hr : scalarDecodeLong _ = r
  have hR := baseMultiple_represents r
  rw [hR.encode]
  generalize hrEnc : encodePoint (r.val • edBase) false = rEnc
  have hrLen : rEnc.length = 57 := by rw [← hrEnc, length_encodePoint]
  generalize hh : scalarDecodeLong _ = h
  refine ⟨_, rfl, ?_, ?_⟩
  · rw [List.length_append, List.length_append, hrLen, length_scalarEncode]
    rfl
  · unfold gyXed448Verify
    rw [if_neg (Nat.not_lt.mpr hmsg), List.drop_left' hrLen, List.take_left' hrLen,
      decodeCanonicalS_encode]
    dsimp only
    rw [curveD_eq, hy]
    dsimp only
    generalize hrec :
      ptFromY (LittleEndian.toNat sk • edBase).y true false edwardsD = rec at hcurve hA
    obtain ⟨recPt, oncurve⟩ := rec
    dsimp only at hcurve hA ⊢
    subst hcurve
    rw [hA.encode, hh]
    -- `s B - h A` is `r B`
    have hsum : (r + h * a).val • edBase +
        -(h.val • evenPoint (LittleEndian.toNat sk • edBase)) = r.val • edBase := by
      rw [add_val_nsmul, mul_val_nsmul, hkey, add_neg_cancel_right]
    have hcheck := (baseMultiple_represents (r + h * a)).add
      (hA.scalarmul_encode h).negate
    rw [hsum] at hcheck
    rw [hcheck.encode, hrEnc, if_neg (by decide), if_pos rfl]

/-! ## Canonical scalars -/

omit [Libdecaf] [Sodium UInt8] in
/-- A scalar half that is decoded ends in a zero byte and is reduced. -/
theorem decodeCanonicalS_ok {sEnc : Bytes UInt8} {s : DecafScalar}
    (h : decodeCanonicalS sEnc = .ok s) :
    sEnc.getD 56 0 = 0 ∧ LittleEndian.toNat (sEnc.take 56) < groupOrder := by
  unfold decodeCanonicalS scalarDecode at h
  split_ifs at h with hlast hlt
  exact ⟨not_not.mp hlast, hlt⟩

/-- An accepted signature has a canonical scalar half. -/
theorem gyXed448Verify_canonical {sig montPk msg : Bytes UInt8}
    (h : gyXed448Verify sig montPk msg = .ok ()) :
    (sig.drop 57).getD 56 0 = 0 ∧
      LittleEndian.toNat ((sig.drop 57).take 56) < groupOrder := by
  unfold gyXed448Verify at h
  split_ifs at h
  cases hs : decodeCanonicalS (sig.drop 57) with
  | error e =>
    rw [hs] at h
    cases h
  | ok s => exact decodeCanonicalS_ok hs

omit [Libdecaf] [Sodium UInt8] in
/-- The integer of a canonical scalar half is that of its first 56 bytes. -/
theorem toNat_of_canonical {sEnc : Bytes UInt8} (hlen : sEnc.length = 57)
    (hlast : sEnc.getD 56 0 = 0) :
    LittleEndian.toNat sEnc = LittleEndian.toNat (sEnc.take 56) := by
  have hdrop : sEnc.drop 56 = [0] := by
    rw [List.drop_eq_getElem_cons (by omega), List.drop_eq_nil_of_le (by omega)]
    rw [List.getD_eq_getElem _ _ (by omega)] at hlast
    rw [hlast]
  calc LittleEndian.toNat sEnc = LittleEndian.toNat (sEnc.take 56 ++ sEnc.drop 56) := by
        rw [List.take_append_drop]
    _ = LittleEndian.toNat (sEnc.take 56) := by
        rw [hdrop, LittleEndian.toNat_append]
        simp [LittleEndian.toNat]

/-- Two accepted signatures with one point and one scalar modulo the group order are equal. -/
theorem gyXed448Verify_unique {sig sig' montPk montPk' msg msg' : Bytes UInt8}
    (hlen : sig.length = 114) (hlen' : sig'.length = 114)
    (hok : gyXed448Verify sig montPk msg = .ok ())
    (hok' : gyXed448Verify sig' montPk' msg' = .ok ())
    (hpoint : sig.take 57 = sig'.take 57)
    (hscalar : LittleEndian.toNat (sig.drop 57) ≡ LittleEndian.toNat (sig'.drop 57)
      [MOD groupOrder]) : sig = sig' := by
  obtain ⟨hlast, hlt⟩ := gyXed448Verify_canonical hok
  obtain ⟨hlast', hlt'⟩ := gyXed448Verify_canonical hok'
  have hdrop : (sig.drop 57).length = 57 := by rw [List.length_drop, hlen]
  have hdrop' : (sig'.drop 57).length = 57 := by rw [List.length_drop, hlen']
  have hnat := toNat_of_canonical hdrop hlast
  have hnat' := toNat_of_canonical hdrop' hlast'
  have heq : LittleEndian.toNat (sig.drop 57) = LittleEndian.toNat (sig'.drop 57) := by
    apply hscalar.eq_of_lt_of_lt
    · rwa [hnat]
    · rwa [hnat']
  rw [← List.take_append_drop 57 sig, ← List.take_append_drop 57 sig', hpoint,
    LittleEndian.toNat_inj (hdrop.trans hdrop'.symm) heq]

/-! ## The scheme as a whole -/

omit [Sodium UInt8] in
/-- The key recovered from the public key of a secret is the multiple of `B` by the scalar that
signing uses. -/
theorem recoverKey_deriveKey {sk : Bytes UInt8} (hclamped : X448Clamped sk)
    (horder : ¬groupOrder ∣ LittleEndian.toNat sk) :
    (ptFromY (uToY (x448PublicKey sk)).1 true false curveD).2 = true ∧
      Represents (ptFromY (uToY (x448PublicKey sk)).1 true false curveD).1
        ((deriveKey sk curveD (basePoint curveD)).2.val • edBase) := by
  have hy : uToY (x448PublicKey sk) = ((LittleEndian.toNat sk • edBase).y, true) := by
    rw [x448PublicKey, hclamped.2]
    exact uToY_multiple horder
  obtain ⟨hok, hrep⟩ := recoverKey_spec horder
  rw [hy, curveD_eq, (deriveKey_spec sk).2.1]
  exact ⟨hok, hrep⟩

omit [Sodium UInt8] in
/-- The two sides derive one encoded key. -/
theorem calculateKeyPair_montToEd {sk : Bytes UInt8} (hclamped : X448Clamped sk)
    (horder : ¬groupOrder ∣ LittleEndian.toNat sk) :
    gyXed448MontToEd (x448PublicKey sk) = .ok (gyXed448CalculateKeyPair sk).1 := by
  obtain ⟨hE, hkey, -⟩ := deriveKey_spec sk
  obtain ⟨hok, hrep⟩ := recoverKey_deriveKey hclamped horder
  have hcanon : (uToY (x448PublicKey sk)).2 = true := by
    rw [x448PublicKey, hclamped.2, uToY_multiple horder]
  unfold gyXed448MontToEd gyXed448CalculateKeyPair
  dsimp only
  rw [hcanon, hok, if_neg (by decide), hrep.encode, curveD_eq, hE.encode, hkey,
    encodePoint_evenPoint]

/-- XEd448 over a correct field, scalar ring, hash and ladder. Signatures verify under the X448
public key of the secret. The point layer computes the group law of the curve on all points, the
identity included, and the multiple for every 448-bit scalar. The key recovered from `u` is `a B`
for the scalar `a`, plus or minus the secret, that signing uses. Accepted signatures have canonical
scalars, and no two of them differ in the encoding of the scalar only. -/
theorem xed448_correct :
    (∀ sk msg z : Bytes UInt8, X448Clamped sk → ¬groupOrder ∣ LittleEndian.toNat sk →
      msg.length ≤ xed448MaxMsg → ∃ sig, xed448SignCore sk msg z = .ok sig ∧ sig.length = 114 ∧
        gyXed448Verify sig (x448PublicKey sk) msg = .ok ()) ∧
    (curveD = 39082 / 39081 ∧ ¬IsSquare curveD ∧ curveD = edwardsD) ∧
    (Represents ptIdentity (0 : Edwards.Point edwardsD) ∧
      ∀ (p q : Pt) (P Q : Edwards.Point edwardsD), Represents p P → Represents q Q →
        Represents (ptAdd p q curveD) (P + Q) ∧ Represents (ptDouble p) (P + P)) ∧
    (∀ (base : Pt) (P : Edwards.Point edwardsD) (scalar : Bytes UInt8), Represents base P →
      scalar.length = 56 →
        Represents (ptScalarmul base scalar curveD) (LittleEndian.toNat scalar • P)) ∧
    (∀ sk : Bytes UInt8, X448Clamped sk → ¬groupOrder ∣ LittleEndian.toNat sk →
      (ptFromY (uToY (x448PublicKey sk)).1 true false curveD).2 = true ∧
      Represents (ptFromY (uToY (x448PublicKey sk)).1 true false curveD).1
        ((deriveKey sk curveD (basePoint curveD)).2.val • edBase) ∧
      ((deriveKey sk curveD (basePoint curveD)).2 = (LittleEndian.toNat sk : DecafScalar) ∨
        (deriveKey sk curveD (basePoint curveD)).2 = -(LittleEndian.toNat sk : DecafScalar))) ∧
    (∀ sig montPk msg : Bytes UInt8, gyXed448Verify sig montPk msg = .ok () →
      (sig.drop 57).getD 56 0 = 0 ∧ LittleEndian.toNat ((sig.drop 57).take 56) < groupOrder) ∧
    (∀ sig sig' montPk montPk' msg msg' : Bytes UInt8, sig.length = 114 → sig'.length = 114 →
      gyXed448Verify sig montPk msg = .ok () → gyXed448Verify sig' montPk' msg' = .ok () →
      sig.take 57 = sig'.take 57 →
      LittleEndian.toNat (sig.drop 57) ≡ LittleEndian.toNat (sig'.drop 57) [MOD groupOrder] →
      sig = sig') := by
  refine ⟨?_, ⟨?_, ?_, curveD_eq⟩, ⟨represents_identity, ?_⟩, ?_, ?_, ?_, ?_⟩
  · intro sk msg z hclamped horder hmsg
    exact xed448_verifies hclamped horder hmsg
  · rw [curveD_eq, edwardsD_eq]
  · rw [curveD_eq]
    exact edwardsD_not_isSquare
  · intro p q P Q hp hq
    rw [curveD_eq]
    exact ⟨hp.add hq, hp.double⟩
  · intro base P scalar hbase hlen
    rw [curveD_eq]
    exact hbase.scalarmul hlen
  · intro sk hclamped horder
    obtain ⟨hok, hrep⟩ := recoverKey_deriveKey hclamped horder
    refine ⟨hok, hrep, ?_⟩
    rw [curveD_eq]
    exact (deriveKey_spec sk).2.2
  · intro sig montPk msg hok
    exact gyXed448Verify_canonical hok
  · intro sig sig' montPk montPk' msg msg' hlen hlen' hok hok' hpoint hscalar
    exact gyXed448Verify_unique hlen hlen' hok hok' hpoint hscalar

end Decaf

/-- The inverse square root by exponentiation has the documented contract. -/
theorem libdecaf_nonempty : Nonempty Libdecaf := by
  refine ⟨⟨fun x => (x ^ ((fieldPrime - 3) / 4),
    decide ((x ^ ((fieldPrime - 3) / 4)) ^ 2 * x = 1)), ?_⟩⟩
  rintro x hx ⟨y, rfl⟩
  have hy : y ≠ 0 := left_ne_zero_of_mul hx
  have hexp : 2 * ((fieldPrime - 3) / 4 * 2) + 2 = fieldPrime - 1 := by decide +kernel
  have hone : ((y * y) ^ ((fieldPrime - 3) / 4)) ^ 2 * (y * y) = 1 := by
    rw [← sq, ← pow_mul, ← pow_mul, ← pow_add, hexp]
    exact ZMod.pow_card_sub_one_eq_one hy
  dsimp only
  exact ⟨decide_eq_true hone, hone⟩

/-- The secret `2 ^ 447`. -/
def topSecret : Bytes UInt8 := List.replicate 55 0 ++ [128]

/-- It is clamped and not a multiple of the group order. -/
theorem topSecret_ok : X448Clamped topSecret ∧ ¬groupOrder ∣ LittleEndian.toNat topSecret := by
  unfold X448Clamped topSecret
  decide +kernel

/-- The last 64 bytes in place of the hash, which end with the message. -/
@[reducible] def lastBytes : Sodium UInt8 where
  aes256gcmAvailable := false
  aeadEncrypt _ _ _ _ _ := none
  aeadDecrypt _ _ _ _ _ := none
  sha512 b := (b.reverse ++ zeros 64).take 64
  length_sha512 b := by
    rw [List.length_take, List.length_append, length_zeros]
    omega

/-- A message signed with the secret `2 ^ 447` verifies under its X448 public key, and the scalar of
the signature is canonical. -/
theorem topSecret_signs : ∃ (_ : Libdecaf) (_ : Sodium UInt8) (sig : Bytes UInt8),
    xed448SignCore topSecret [1, 2, 3] [4] = .ok sig ∧ sig.length = 114 ∧
      gyXed448Verify sig (x448PublicKey topSecret) [1, 2, 3] = .ok () ∧
      LittleEndian.toNat ((sig.drop 57).take 56) < groupOrder := by
  obtain ⟨decaf⟩ := libdecaf_nonempty
  have sodium := lastBytes
  obtain ⟨hsigns, -, -, -, -, hcanonical, -⟩ := xed448_correct
  obtain ⟨sig, hsig, hlen, hok⟩ :=
    hsigns topSecret [1, 2, 3] [4] topSecret_ok.1 topSecret_ok.2 (by decide)
  exact ⟨decaf, sodium, sig, hsig, hlen, hok, (hcanonical sig _ _ hok).2⟩

end Geryon
