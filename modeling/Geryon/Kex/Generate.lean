import Geryon.Kex.Keys
import Geryon.Lib.Cmd

/-!
# Key generation

The generators of `kex/prekeys.c`: identity keys, signed prekeys and batches of one-time prekeys,
and the application signing keys a custodian mints. A generator draws key pairs until one has a
present identifier that is not among the forbidden ones.

The two suite families have their own structures for the same roles. `IkOf`, `SpkOf`, `OpkOf` and
`SakOf` are these structures by family, so that the custodian can be written once.

## Main results

- `gyOpkGenerate_spec`: a batch has the requested size, and its identifiers are present, distinct
  and not among the existing ones.
-/

namespace Geryon

/-- `GY_OPK_BATCH_MAX`. -/
def opkBatchMax : Nat := 100

/-- `struct gy_signed_prekey`. -/
structure SignedPrekey (β : Type) where
  kp : CurvePair β
  timestamp : UInt64
  sig : Bytes β

/-- `struct gy_hybrid_identity_keypair` with its signing key. -/
structure HybridIdentityKeypair (β : Type) extends HybridIdentityPair β where
  mldsaSk : Bytes β

/-- `struct gy_hybrid_signed_prekey`. -/
structure StoredHybridSpk (β : Type) extends HybridSignedPrekey β where
  timestamp : UInt64
  ikId : UInt32
  edSig : Bytes β
  mldsaSig : Bytes β

/-- `struct gy_cust_sak`. -/
structure CustSak (β : Type) where
  kp : CurvePair β
  issuedAt : UInt64
  expiry : UInt64
  identityPkid : UInt32
  identitySig : Bytes β

/-- `struct gy_cust_hsak`. -/
structure CustHsak (β : Type) where
  kp : CurvePair β
  mldsaPk : Bytes β
  mldsaSk : Bytes β
  issuedAt : UInt64
  expiry : UInt64
  identityPkid : UInt32
  identityEdSig : Bytes β
  identityMldsaSig : Bytes β

/-! ## The structures of a suite family -/

/-- The identity of a classical or a hybrid custodian. -/
def IkOf (β : Type) : Bool → Type
  | false => CurvePair β
  | true => HybridIdentityKeypair β

/-- A signed prekey. -/
def SpkOf (β : Type) : Bool → Type
  | false => SignedPrekey β
  | true => StoredHybridSpk β

/-- A one-time prekey. -/
def OpkOf (β : Type) : Bool → Type
  | false => CurvePair β
  | true => HybridPair β

/-- An application signing key. -/
def SakOf (β : Type) : Bool → Type
  | false => CustSak β
  | true => CustHsak β

/-- The public part of a one-time prekey's curve key, with the key's identifier. -/
def OpkOf.curve {β : Type} : {h : Bool} → OpkOf β h → PublicKey β
  | false, (k : CurvePair β) => k.pub
  | true, (k : HybridPair β) => k.pub.curve

/-- The identifier of a one-time prekey. -/
def OpkOf.pkid {β : Type} {h : Bool} (k : OpkOf β h) : UInt32 := k.curve.pkid

/-- The identifier of a signed prekey. -/
def SpkOf.pkid {β : Type} : {h : Bool} → SpkOf β h → UInt32
  | false, (k : SignedPrekey β) => k.kp.pub.pkid
  | true, (k : StoredHybridSpk β) => k.kp.pub.curve.pkid

/-- The identifier of an application signing key. -/
def SakOf.pkid {β : Type} : {h : Bool} → SakOf β h → UInt32
  | false, (k : CustSak β) => k.kp.pub.pkid
  | true, (k : CustHsak β) => k.kp.pub.pkid

/-! ## Draws -/

/-- The key pairs one pass of a generator's loop makes, each of the length its suite says: a curve
pair and, for hybrid keys, an ML-KEM and an ML-DSA pair. -/
structure KeyDraw {β : Type} (desc : SuiteDesc β) where
  pk : Bytes β
  sk : Bytes β
  mlkemEk : Bytes β
  mlkemDk : Bytes β
  mldsaPk : Bytes β
  mldsaSk : Bytes β
  length_pk : pk.length = desc.curvePkLen
  length_sk : sk.length = desc.curveSkLen
  length_mlkemEk : mlkemEk.length = desc.kemPkLen
  length_mlkemDk : mlkemDk.length = desc.kemSkLen
  length_mldsaPk : mldsaPk.length = desc.dsaPkLen

/-- What the key generators of a suite deliver to one call, pass by pass: a draw or a failure. The
list ends where the call's loops end; a loop that wants more fails. -/
abbrev Draws {β : Type} (desc : SuiteDesc β) := List (Except GyErr (KeyDraw desc))

/-- The random input of a call that generates and signs keys, for every suite. -/
structure KeyRand (β : Type) where
  draws : (desc : SuiteDesc β) → Draws desc
  edCoins : Bytes β
  mldsaCoins : Bytes β

/-- The signature primitives of a suite: `sign(sk, msg)` and `dsa_sign(sk, msg, ctx)` under the
given coins. -/
class Signer (β : Type) where
  sign : (desc : SuiteDesc β) → Bytes β → Bytes β → Bytes β →
    Except GyErr { b : Bytes β // b.length = desc.sigLen }
  dsaSign : (desc : SuiteDesc β) → Bytes β → Bytes β → Bytes β → Bytes β →
    Except GyErr { b : Bytes β // b.length = desc.dsaSigLen }

variable {β : Type} [Octet β] [Signer β] (desc : SuiteDesc β)

/-- The loop of `gen_keypair` and `gen_hybrid_keypair`: draw until the identifier of the key is
present and not forbidden. The draws that are left come back. -/
def genLoop {κ : Type} (make : KeyDraw desc → Except GyErr κ) (ident : κ → UInt32)
    (forbidden : List UInt32) : Draws desc → Except GyErr (κ × Draws desc)
  | [] => .error .crypto
  | .error e :: _ => .error e
  | .ok d :: rest => do
    let k ← make d
    if !gyPkidIsPresent (ident k) || forbidden.contains (ident k) then
      genLoop make ident forbidden rest
    else return (k, rest)

/-- A curve pair of a draw, with its identifier. -/
def makeKeypair (d : KeyDraw desc) : Except GyErr (CurvePair β) := do
  let enc ← gyEncodeEc desc.curveType d.pk
  let pkid ← gyPkid desc enc
  return ⟨⟨pkid, desc.curveType, d.pk⟩, d.sk⟩

/-- A hybrid pair of a draw, with its identifier. -/
def makeHybridKeypair (d : KeyDraw desc) : Except GyErr (HybridPair β) := do
  let enc ← gyHybridEncodePub desc ⟨⟨0, desc.curveType, d.pk⟩, d.mlkemEk⟩
  let pkid ← gyPkid desc enc
  return ⟨⟨⟨pkid, desc.curveType, d.pk⟩, d.mlkemEk⟩, d.sk, d.mlkemDk⟩

/-- A hybrid identity of a draw, with its identifier. -/
def makeHybridIdentity (d : KeyDraw desc) : Except GyErr (HybridIdentityKeypair β) := do
  let enc ← gyHybridEncodeIdentity desc ⟨⟨⟨0, desc.curveType, d.pk⟩, d.mlkemEk⟩, d.mldsaPk⟩
  let pkid ← gyPkid desc enc
  return ⟨⟨⟨⟨⟨pkid, desc.curveType, d.pk⟩, d.mlkemEk⟩, d.mldsaPk⟩, d.sk, d.mlkemDk⟩, d.mldsaSk⟩

/-- `gen_keypair`. -/
def genKeypair (forbidden : List UInt32) (draws : Draws desc) :
    Except GyErr (CurvePair β × Draws desc) :=
  genLoop desc (makeKeypair desc) (fun k => k.pub.pkid) forbidden draws

/-- `gen_hybrid_keypair`. -/
def genHybridKeypair (forbidden : List UInt32) (draws : Draws desc) :
    Except GyErr (HybridPair β × Draws desc) :=
  genLoop desc (makeHybridKeypair desc) (fun k => k.pub.curve.pkid) forbidden draws

/-! ## Identities and signed prekeys -/

/-- `gy_identity_generate` and `gy_hybrid_identity_generate`. -/
def gyIdentityGenerate : (h : Bool) → KeyRand β → Except GyErr (IkOf β h)
  | false, rnd => do
    let (k, _) ← genKeypair desc [] (rnd.draws desc)
    return (k : CurvePair β)
  | true, rnd => do
    let (k, _) ← genLoop desc (makeHybridIdentity desc)
      (fun k => k.pub.base.curve.pkid) [] (rnd.draws desc)
    return (k : HybridIdentityKeypair β)

/-- `gy_spk_create`. -/
def gySpkCreate (ik : CurvePair β) (timestamp : UInt64) (rnd : KeyRand β) :
    Except GyErr (SignedPrekey β) := do
  let (kp, _) ← genKeypair desc [] (rnd.draws desc)
  let signed ← spkSignedData kp.pub timestamp
  let sig ← Signer.sign desc ik.sk signed rnd.edCoins
  return ⟨kp, timestamp, sig.1⟩

/-- `gy_hybrid_spk_create`. -/
def gyHybridSpkCreate (ik : HybridIdentityKeypair β) (timestamp flags : UInt64)
    (rnd : KeyRand β) : Except GyErr (StoredHybridSpk β) := do
  gyHybridFlagsValidate flags
  let (kp, _) ← genHybridKeypair desc [] (rnd.draws desc)
  let signed ← hybridSignedData desc kp.pub timestamp flags
  let edSig ← Signer.sign desc ik.curveSk signed rnd.edCoins
  let ctx ← gyInfo desc prekeyCtxMax "prekey"
  let mldsaSig ← Signer.dsaSign desc ik.mldsaSk signed ctx rnd.mldsaCoins
  return ⟨⟨kp, flags⟩, timestamp, ik.pub.base.curve.pkid, edSig.1, mldsaSig.1⟩

/-- `gy_signed_prekey_generate` and `gy_hybrid_signed_prekey_generate`, with the flags a custodian
advertises. -/
def gySignedPrekeyGenerate : (h : Bool) → IkOf β h → UInt64 → KeyRand β → Except GyErr (SpkOf β h)
  | false, (ik : CurvePair β), timestamp, rnd => gySpkCreate desc ik timestamp rnd
  | true, (ik : HybridIdentityKeypair β), timestamp, rnd =>
    gyHybridSpkCreate desc ik timestamp custHybridSpkFlags rnd

/-! ## One-time prekeys -/

/-- The loop of `gy_opk_batch` and `gy_hybrid_opk_batch`. -/
def opkBatchLoop {κ : Type} (gen : List UInt32 → Draws desc → Except GyErr (κ × Draws desc))
    (ident : κ → UInt32) : Nat → List UInt32 → Draws desc → Except GyErr (List κ)
  | 0, _, _ => .ok []
  | n + 1, forbidden, draws => do
    let (k, rest) ← gen forbidden draws
    let batch ← opkBatchLoop gen ident n (ident k :: forbidden) rest
    return k :: batch

/-- `gy_opk_generate` and `gy_hybrid_opk_generate`. -/
def gyOpkGenerate (h : Bool) (n : Nat) (existing : List UInt32) (rnd : KeyRand β) :
    Except GyErr (List (OpkOf β h)) :=
  if n = 0 ∨ opkBatchMax < n then .error .arg
  else
    match h with
    | false => opkBatchLoop (κ := CurvePair β) desc (genKeypair desc) (fun k => k.pub.pkid) n
        existing (rnd.draws desc)
    | true => opkBatchLoop (κ := HybridPair β) desc (genHybridKeypair desc)
        (fun k => k.pub.curve.pkid) n existing (rnd.draws desc)

omit [Octet β] [Signer β] in
/-- A loop ends with a key whose identifier is present and not forbidden. -/
theorem genLoop_spec {κ : Type} {make : KeyDraw desc → Except GyErr κ} {ident : κ → UInt32}
    {forbidden : List UInt32} {draws rest : Draws desc} {k : κ}
    (h : genLoop desc make ident forbidden draws = .ok (k, rest)) :
    ident k ≠ 0 ∧ ident k ∉ forbidden := by
  induction draws with
  | nil => cases h
  | cons d draws ih =>
    cases d with
    | error e => cases h
    | ok d =>
      obtain ⟨k', -, h⟩ := Except.bind_eq_ok_iff.mp h
      split at h
      · exact ih h
      · rename_i hok
        obtain ⟨rfl, -⟩ := Prod.mk.inj (Except.ok.inj h)
        simpa [gyPkidIsPresent] using hok

omit [Octet β] [Signer β] in
/-- What the batch loop gives, once every pass gives a key that is present and not forbidden. -/
theorem opkBatchLoop_spec {κ : Type}
    {gen : List UInt32 → Draws desc → Except GyErr (κ × Draws desc)} {ident : κ → UInt32}
    (hgen : ∀ {forbidden draws k rest}, gen forbidden draws = .ok (k, rest) →
      ident k ≠ 0 ∧ ident k ∉ forbidden)
    {n : Nat} {forbidden : List UInt32} {draws : Draws desc} {batch : List κ}
    (h : opkBatchLoop desc gen ident n forbidden draws = .ok batch) :
    batch.length = n ∧ (batch.map ident).Nodup ∧
      ∀ k ∈ batch, ident k ≠ 0 ∧ ident k ∉ forbidden := by
  induction n generalizing forbidden draws batch with
  | zero =>
    obtain rfl := Except.ok.inj h
    simp
  | succ n ih =>
    obtain ⟨⟨k, rest⟩, hk, h⟩ := Except.bind_eq_ok_iff.mp h
    obtain ⟨batch', hb, h⟩ := Except.bind_eq_ok_iff.mp h
    obtain rfl := Except.ok.inj h
    obtain ⟨hlen, hnodup, hmem⟩ := ih hb
    have hout : ident k ∉ batch'.map ident := by
      intro hin
      obtain ⟨k', hk', heq⟩ := List.mem_map.mp hin
      exact (hmem k' hk').2 (heq ▸ List.mem_cons_self)
    refine ⟨by simp [hlen], List.nodup_cons.mpr ⟨hout, hnodup⟩, fun k' hk' => ?_⟩
    rcases List.mem_cons.mp hk' with rfl | hk'
    · exact hgen hk
    · exact ⟨(hmem k' hk').1, fun hin => (hmem k' hk').2 (List.mem_cons_of_mem _ hin)⟩

omit [Signer β] in
/-- A batch has the requested size; its identifiers are present, distinct and new. -/
theorem gyOpkGenerate_spec {h : Bool} {n : Nat} {existing : List UInt32} {rnd : KeyRand β}
    {batch : List (OpkOf β h)} (hb : gyOpkGenerate desc h n existing rnd = .ok batch) :
    n ≤ opkBatchMax ∧ batch.length = n ∧ (batch.map OpkOf.pkid).Nodup ∧
      ∀ k ∈ batch, k.pkid ≠ 0 ∧ k.pkid ∉ existing := by
  unfold gyOpkGenerate at hb
  split at hb
  · cases hb
  · refine ⟨by omega, ?_⟩
    cases h with
    | false => exact opkBatchLoop_spec desc (fun h => genLoop_spec desc h) hb
    | true => exact opkBatchLoop_spec desc (fun h => genLoop_spec desc h) hb

/-! ## Application signing keys -/

/-- `GY_APPKEY_INFO_MAX`. -/
def appkeyInfoMax : Nat := 64

/-- `cust_appkey_cert_signed_data` and, with the ML-DSA key between curve key and times,
`cust_hybrid_appkey_cert_signed_data`. -/
def custAppkeyCertSignedData (sakPub : PublicKey β) (mldsaPk : Bytes β) (issuedAt expiry : UInt64)
    (identityPkid : UInt32) : Except GyErr (Bytes β) := do
  let info ← gyInfo desc appkeyInfoMax "appkey-cert"
  return info ++ (Octet.ofByte sakPub.curveType :: (sakPub.pk.take desc.curvePkLen ++
    (mldsaPk.take desc.dsaPkLen ++ (be64Put issuedAt ++ (be64Put expiry ++
      be32Put identityPkid)))))

/-- A classical application signing key, certified by the identity (`cust_certify_sak`). -/
def custMintSak (ik : CurvePair β) (issuedAt expiry : UInt64) (rnd : KeyRand β) :
    Except GyErr (CustSak β) := do
  let (kp, _) ← genKeypair desc [] (rnd.draws desc)
  let signed ← custAppkeyCertSignedData desc kp.pub [] issuedAt expiry ik.pub.pkid
  let sig ← Signer.sign desc ik.sk signed rnd.edCoins
  return ⟨kp, issuedAt, expiry, ik.pub.pkid, sig.1⟩

/-- `cust_mint_hsak`: the curve pair of the first accepted draw and the ML-DSA pair of the next. -/
def custMintHsak (ik : HybridIdentityKeypair β) (issuedAt expiry : UInt64) (rnd : KeyRand β) :
    Except GyErr (CustHsak β) := do
  let (kp, rest) ← genKeypair desc [] (rnd.draws desc)
  match rest with
  | [] => .error .crypto
  | .error e :: _ => .error e
  | .ok d :: _ => do
    let identityPkid := ik.pub.base.curve.pkid
    let signed ← custAppkeyCertSignedData desc kp.pub d.mldsaPk issuedAt expiry identityPkid
    -- both signatures are over the same octets
    let edSig ← Signer.sign desc ik.curveSk signed rnd.edCoins
    let ctx ← gyInfo desc appkeyInfoMax "appkey-cert"
    let mldsaSig ← Signer.dsaSign desc ik.mldsaSk signed ctx rnd.mldsaCoins
    return ⟨kp, d.mldsaPk, d.mldsaSk, issuedAt, expiry, identityPkid, edSig.1, mldsaSig.1⟩

/-- The application signing key of either family. -/
def custMint : (h : Bool) → IkOf β h → UInt64 → UInt64 → KeyRand β → Except GyErr (SakOf β h)
  | false, (ik : CurvePair β), issuedAt, expiry, rnd => custMintSak desc ik issuedAt expiry rnd
  | true, (ik : HybridIdentityKeypair β), issuedAt, expiry, rnd =>
    custMintHsak desc ik issuedAt expiry rnd

/-! ## Symbolic keys -/

open Geryon.Sym in
instance : Signer Sym where
  sign desc sk msg coins := .ok ⟨prim 15 [ofList sk, ofList msg, ofList coins] desc.sigLen,
    length_prim _ _ _⟩
  dsaSign desc sk msg ctx coins :=
    .ok ⟨prim 16 [ofList sk, ofList msg, ofList ctx, ofList coins] desc.dsaSigLen,
      length_prim _ _ _⟩

end Geryon
