import Geryon.Proto.Envelope
import Geryon.Wire

/-!
# Canonical wire formats

Over bytes, every parser of `proto/envelope.c` but one, and the header parsers of both ratchets,
are strict: they accept exactly the strings that encode a value, and return that value. The parser
of classical bundles reads any non-zero presence byte as a present one-time prekey.

## Main definitions

- `Strict`: a parser accepts exactly what a writer writes.
- `Engine.parseHeader`: what a ratchet does with a decrypted header before it looks at its fields.

## Main results

- `fixed_strict`: a frame start followed by the fields of a codec is strict.
- `gyBundleParse_ok`: what the parser of classical bundles accepts.
-/

namespace Geryon

/-- A parser is strict for a writer: values are read back from what is written for them, and a
string that is read as a value is what is written for it. -/
structure Strict {α : Type} (Ok : α → Prop) (put : Nat → α → Except GyErr (Bytes UInt8))
    (parse : Bytes UInt8 → Except GyErr α) : Prop where
  round_trip : ∀ {v cap b}, Ok v → put cap v = .ok b → parse b = .ok v
  exact : ∀ {b v}, parse b = .ok v → Ok v ∧ ∀ cap, b.length ≤ cap → put cap v = .ok b

/-- Two strings that a strict parser reads as one value are one string. -/
theorem Strict.inj {α : Type} {Ok : α → Prop} {put : Nat → α → Except GyErr (Bytes UInt8)}
    {parse : Bytes UInt8 → Except GyErr α} (h : Strict Ok put parse) {b b' : Bytes UInt8} {v : α}
    (hb : parse b = .ok v) (hb' : parse b' = .ok v) : b = b' := by
  have hput := (h.exact hb).2 (max b.length b'.length) (Nat.le_max_left _ _)
  have hput' := (h.exact hb').2 (max b.length b'.length) (Nat.le_max_right _ _)
  exact Except.ok.inj (hput.symm.trans hput')

/-- The first octet. -/
theorem octetAt_cons_zero (x : UInt8) (b : Bytes UInt8) : octetAt (x :: b) 0 = x := by
  simp [octetAt, byteAt, Octet.toByte]

/-- A later octet. -/
theorem octetAt_cons_succ (x : UInt8) (b : Bytes UInt8) (i : Nat) :
    octetAt (x :: b) (i + 1) = octetAt b i := by
  simp [octetAt, byteAt]

variable (desc : SuiteDesc UInt8)

/-! ## The frame start -/

/-- Over bytes, the frame start is accepted exactly where it was written. -/
theorem frameStart_ok_iff {buf : Bytes UInt8} (hlen : 2 ≤ buf.length) :
    frameStart desc buf = .ok () ↔ buf = gyFramePut desc.suiteId ++ buf.drop 2 := by
  obtain ⟨x0, b, rfl, h₁⟩ := exists_cons_of_le_length hlen
  obtain ⟨x1, b, rfl, -⟩ := exists_cons_of_le_length h₁
  have h0 := octetAt_cons_zero x0 (x1 :: b)
  have h1 : octetAt (x0 :: x1 :: b) 1 = x1 := (octetAt_cons_succ _ _ 0).trans
    (octetAt_cons_zero _ _)
  simp only [frameStart, h0, h1, gyFramePut, Octet.ofByte, id_eq, List.drop_succ_cons,
    List.drop_zero, List.cons_append, List.nil_append, List.cons.injEq, and_true]
  by_cases hv : x0 = wireVersion
  · by_cases hs : x1 = desc.suiteId
    · simp [hv, hs]
    · simp [hv, hs]
  · simp [hv]

/-- A format of fixed width: the frame start and the fields of a codec. -/
def parseFixed {α : Type} (c : Codec UInt8 α) (buf : Bytes UInt8) : Except GyErr α :=
  if buf.length ≠ 2 + c.width then .error .arg
  else frameStart desc buf >>= fun _ => .ok (c.get (buf.drop 2))

/-- A format of fixed width is read exactly where it was written. -/
theorem parseFixed_ok_iff {α : Type} (c : Codec UInt8 α) {buf : Bytes UInt8} {v : α} :
    parseFixed desc c buf = .ok v ↔ c.Fits v ∧ buf = gyFramePut desc.suiteId ++ c.put v := by
  unfold parseFixed
  by_cases hlen : buf.length = 2 + c.width
  · have hdrop : (buf.drop 2).length = c.width := by rw [List.length_drop]; omega
    rw [if_neg (not_not_intro hlen), Except.bind_eq_ok_iff]
    constructor
    -- a parse fixes the header and every field, so the octets are those of the encoding
    · rintro ⟨⟨⟩, hframe, hget⟩
      obtain ⟨hfits, hput⟩ := (c.get_eq_iff hdrop).1 (Except.ok.inj hget)
      refine ⟨hfits, ?_⟩
      rw [← hput]
      exact (frameStart_ok_iff desc (by omega)).1 hframe
    · rintro ⟨hfits, hbuf⟩
      have htail : buf.drop 2 = c.put v := by
        rw [hbuf]
        exact List.drop_left' rfl
      refine ⟨(), (frameStart_ok_iff desc (by omega)).2 ?_, ?_⟩
      · rwa [htail]
      · rw [(c.get_eq_iff hdrop).2 ⟨hfits, htail⟩]
  · rw [if_pos hlen]
    constructor
    · intro h
      cases h
    · rintro ⟨hfits, rfl⟩
      rw [List.length_append, c.length_put hfits] at hlen
      exact absurd rfl hlen

/-- A parser of a fixed-width format is strict for the writer of its fields. -/
theorem fixed_strict {α : Type} (c : Codec UInt8 α) {put : Nat → α → Except GyErr (Bytes UInt8)}
    {parse : Bytes UInt8 → Except GyErr α} (hparse : ∀ buf, parse buf = parseFixed desc c buf)
    (hput : ∀ cap v, c.Fits v → put cap v =
      if cap < 2 + c.width then .error .arg else .ok (gyFramePut desc.suiteId ++ c.put v)) :
    Strict c.Fits put parse where
  round_trip {v cap b} hv h := by
    rw [hput cap v hv] at h
    split at h
    · cases h
    · rw [hparse]
      exact (parseFixed_ok_iff desc c).2 ⟨hv, (Except.ok.inj h).symm⟩
  exact {b v} h := by
    rw [hparse] at h
    obtain ⟨hv, rfl⟩ := (parseFixed_ok_iff desc c).1 h
    refine ⟨hv, fun cap hcap => ?_⟩
    rw [List.length_append, length_gyFramePut, c.length_put hv] at hcap
    rw [hput cap v hv, if_neg (Nat.not_lt.2 hcap)]

/-! ## Keys -/

/-- The fields of a key structure, in wire order. -/
def PublicKey.fieldsEquiv {β : Type} : UInt32 × UInt8 × Bytes β ≃ PublicKey β where
  toFun a := ⟨a.1, a.2.1, a.2.2⟩
  invFun k := (k.pkid, k.curveType, k.pk)
  left_inv _ := rfl
  right_inv _ := rfl

/-- `put_key` and `get_key`. -/
def keyCodec : Codec UInt8 (PublicKey UInt8) :=
  (be32Codec.pair (byteCodec.pair (.raw desc.curvePkLen))).ofEquiv PublicKey.fieldsEquiv

/-- `put_hpub` and `get_hpub`. -/
def hpubCodec : Codec UInt8 (HybridPublicKey UInt8) :=
  ((keyCodec desc).pair (.raw desc.kemPkLen)).ofEquiv
    ⟨fun a => ⟨a.1, a.2⟩, fun k => (k.curve, k.mlkemEk), fun _ => rfl, fun _ => rfl⟩

/-- The size of a public key. -/
theorem width_keyCodec : (keyCodec desc).width = 4 + 1 + desc.curvePkLen :=
  (Nat.add_assoc _ _ _).symm

/-- The size of a hybrid public key. -/
theorem width_hpubCodec :
    (hpubCodec desc).width = 4 + 1 + desc.curvePkLen + desc.kemPkLen := by
  show (keyCodec desc).width + desc.kemPkLen = _
  rw [width_keyCodec]

/-- A public key is read by its codec. -/
theorem getKey_eq (p : Bytes UInt8) :
    getKey desc p = ((keyCodec desc).get p, p.drop (keyCodec desc).width) := by
  rw [width_keyCodec, ← List.drop_drop, ← List.drop_drop]
  rfl

/-- A hybrid public key is read by its codec. -/
theorem getHpub_eq (p : Bytes UInt8) :
    getHpub desc p = ((hpubCodec desc).get p, p.drop (hpubCodec desc).width) := by
  have hdrop : p.drop (hpubCodec desc).width = (p.drop (keyCodec desc).width).drop desc.kemPkLen :=
    List.drop_drop.symm
  rw [hdrop, getHpub, getKey_eq]
  rfl

/-- A public key is written by its codec. -/
theorem putKey_eq {k : PublicKey UInt8} (h : (keyCodec desc).Fits k) :
    putKey desc k = (keyCodec desc).put k := by
  have hpk : k.pk.length = desc.curvePkLen := h.2.2
  simp only [putKey, ← hpk, List.take_length]
  rfl

/-- A hybrid public key is written by its codec. -/
theorem putHpub_eq {k : HybridPublicKey UInt8} (h : (hpubCodec desc).Fits k) :
    putHpub desc k = (hpubCodec desc).put k := by
  have hcurve : (keyCodec desc).Fits k.curve := h.1
  have hek : k.mlkemEk.length = desc.kemPkLen := h.2
  rw [putHpub, putKey_eq desc hcurve, ← hek, List.take_length]
  rfl

/-! ## Certificates -/

/-- The fields of a certificate, in wire order. -/
def certCodec : Codec UInt8 (AppkeyCert UInt8) :=
  ((keyCodec desc).pair
    (be64Codec.pair (be64Codec.pair (be32Codec.pair (.raw desc.sigLen))))).ofEquiv
    ⟨fun a => ⟨a.1, a.2.1, a.2.2.1, a.2.2.2.1, a.2.2.2.2⟩,
      fun c => (c.sakPub, c.issuedAt, c.expiry, c.identityPkid, c.identitySig), fun _ => rfl,
      fun _ => rfl⟩

/-- The size of an application key certificate. -/
theorem width_certCodec : 2 + (certCodec desc).width = gyAppkeyCertWireLen desc := by
  show 2 + ((keyCodec desc).width + (8 + (8 + (4 + desc.sigLen)))) = _
  rw [width_keyCodec, gyAppkeyCertWireLen]
  omega

/-- Certificates are strict. -/
theorem appkeyCert_strict :
    Strict (certCodec desc).Fits (gyAppkeyCertPut desc) (gyAppkeyCertParse desc) := by
  refine fixed_strict desc (certCodec desc) (fun buf => ?_) fun cap v hv => ?_
  · rw [parseFixed, width_certCodec, gyAppkeyCertParse]
    simp only [getKey_eq]
    rfl
  · have hkey : (keyCodec desc).Fits v.sakPub := hv.1
    have hsig : v.identitySig.length = desc.sigLen := hv.2.2.2.2
    rw [width_certCodec, gyAppkeyCertPut, putKey_eq desc hkey, ← hsig, List.take_length]
    rfl

/-- The fields of a hybrid certificate, in wire order. -/
def hybridCertCodec : Codec UInt8 (HybridAppkeyCert UInt8) :=
  ((keyCodec desc).pair ((Codec.raw desc.dsaPkLen).pair (be64Codec.pair (be64Codec.pair
    (be32Codec.pair ((Codec.raw desc.sigLen).pair (.raw desc.dsaSigLen))))))).ofEquiv
    ⟨fun a => ⟨a.1, a.2.1, a.2.2.1, a.2.2.2.1, a.2.2.2.2.1, a.2.2.2.2.2.1, a.2.2.2.2.2.2⟩,
      fun c => (c.sakCurvePub, c.sakMldsaPk, c.issuedAt, c.expiry, c.identityPkid, c.identityEdSig,
        c.identityMldsaSig), fun _ => rfl, fun _ => rfl⟩

/-- The size of a hybrid one. -/
theorem width_hybridCertCodec :
    2 + (hybridCertCodec desc).width = gyHybridAppkeyCertWireLen desc := by
  show 2 + ((keyCodec desc).width + (desc.dsaPkLen + (8 + (8 + (4 + (desc.sigLen +
    desc.dsaSigLen)))))) = _
  rw [width_keyCodec, gyHybridAppkeyCertWireLen]
  omega

/-- Hybrid certificates are strict. -/
theorem hybridAppkeyCert_strict (hh : desc.isHybrid = true) : Strict (hybridCertCodec desc).Fits
    (gyHybridAppkeyCertPut desc) (gyHybridAppkeyCertParse desc) := by
  refine fixed_strict desc (hybridCertCodec desc) (fun buf => ?_) fun cap v hv => ?_
  · rw [parseFixed, width_hybridCertCodec, gyHybridAppkeyCertParse, hh]
    simp only [getKey_eq]
    rfl
  · have hkey : (keyCodec desc).Fits v.sakCurvePub := hv.1
    have hpk : v.sakMldsaPk.length = desc.dsaPkLen := hv.2.1
    have hed : v.identityEdSig.length = desc.sigLen := hv.2.2.2.2.2.1
    have hpq : v.identityMldsaSig.length = desc.dsaSigLen := hv.2.2.2.2.2.2
    rw [width_hybridCertCodec, gyHybridAppkeyCertPut, hh, putKey_eq desc hkey, ← hpk, ← hed, ← hpq,
      List.take_length, List.take_length, List.take_length]
    rfl

/-! ## Hybrid bundles -/

/-- The fields of a hybrid bundle, in wire order. -/
def hybridBundleCodec : Codec UInt8 (HybridPrekeyBundle UInt8) :=
  ((hpubCodec desc).pair ((Codec.raw desc.dsaPkLen).pair ((hpubCodec desc).pair (be32Codec.pair
    (be64Codec.pair (be64Codec.pair ((Codec.raw desc.sigLen).pair ((Codec.raw desc.dsaSigLen).pair
      (hpubCodec desc))))))))).ofEquiv
    ⟨fun a => ⟨⟨a.1, a.2.1⟩, a.2.2.1, a.2.2.2.2.1, a.2.2.2.2.2.1, a.2.2.2.1, a.2.2.2.2.2.2.1,
        a.2.2.2.2.2.2.2.1, a.2.2.2.2.2.2.2.2⟩,
      fun b => (b.ik.base, b.ik.mldsaPk, b.spk, b.spkIkId, b.spkTimestamp, b.spkFlags, b.spkEdSig,
        b.spkMldsaSig, b.opk), fun _ => rfl, fun _ => rfl⟩

/-- The size of a hybrid bundle. -/
theorem width_hybridBundleCodec :
    2 + (hybridBundleCodec desc).width = gyHybridBundleWireLen desc := by
  show 2 + ((hpubCodec desc).width + (desc.dsaPkLen + ((hpubCodec desc).width + (4 + (8 + (8 +
    (desc.sigLen + (desc.dsaSigLen + (hpubCodec desc).width)))))))) = _
  rw [width_hpubCodec, gyHybridBundleWireLen]
  omega

/-- Hybrid bundles are strict. -/
theorem hybridBundle_strict (hh : desc.isHybrid = true) : Strict (hybridBundleCodec desc).Fits
    (gyHybridBundlePut desc) (gyHybridBundleParse desc) := by
  refine fixed_strict desc (hybridBundleCodec desc) (fun buf => ?_) fun cap v hv => ?_
  · rw [parseFixed, width_hybridBundleCodec, gyHybridBundleParse, hh]
    simp only [getHpub_eq]
    rfl
  · have hik : (hpubCodec desc).Fits v.ik.base := hv.1
    have hpk : v.ik.mldsaPk.length = desc.dsaPkLen := hv.2.1
    have hspk : (hpubCodec desc).Fits v.spk := hv.2.2.1
    have hed : v.spkEdSig.length = desc.sigLen := hv.2.2.2.2.2.2.1
    have hpq : v.spkMldsaSig.length = desc.dsaSigLen := hv.2.2.2.2.2.2.2.1
    have hopk : (hpubCodec desc).Fits v.opk := hv.2.2.2.2.2.2.2.2
    rw [width_hybridBundleCodec, gyHybridBundlePut, hh, putHpub_eq desc hik, putHpub_eq desc hspk,
      putHpub_eq desc hopk, ← hpk, ← hed, ← hpq, List.take_length, List.take_length,
      List.take_length]
    rfl

/-! ## Envelopes -/

/-- The messages an envelope is made for: one of the two types, and an inner message that starts
with its own frame start. -/
def EnvelopeOk (v : UInt8 × Bytes UInt8) : Prop :=
  (v.1 = msgInit ∨ v.1 = msgDr) ∧ ∃ rest, v.2 = gyFramePut desc.suiteId ++ rest

/-- The envelopes that are accepted, byte by byte. -/
theorem gyEnvelopeParse_cons (x0 x1 x2 : UInt8) (inner : Bytes UInt8) (suite : UInt8)
    (v : UInt8 × Bytes UInt8) : gyEnvelopeParse (x0 :: x1 :: x2 :: inner) suite = .ok v ↔
      x0 = wireVersion ∧ x1 = suite ∧ (x2 = msgInit ∨ x2 = msgDr) ∧
        (∃ rest, inner = x0 :: x1 :: rest) ∧ v = (x2, inner) := by
  have hlen : ¬ (x0 :: x1 :: x2 :: inner).length < envelopeHdrLen := by
    simp only [List.length_cons, envelopeHdrLen]
    omega
  have hdrop : (x0 :: x1 :: x2 :: inner).drop envelopeHdrLen = inner := rfl
  -- the inner message repeats the version and the suite
  have hinner : ¬ (inner.length < 2 ∨ octetAt inner 0 ≠ x0 ∨ octetAt inner 1 ≠ x1) ↔
      ∃ rest, inner = x0 :: x1 :: rest := by
    rcases inner with _ | ⟨y0, _ | ⟨y1, rest⟩⟩
    · simp
    · simp
    · rw [octetAt_cons_zero, octetAt_cons_succ, octetAt_cons_zero]
      simp
  unfold gyEnvelopeParse
  rw [if_neg hlen, octetAt_cons_zero, octetAt_cons_succ, octetAt_cons_zero, octetAt_cons_succ,
    octetAt_cons_succ, octetAt_cons_zero, hdrop, ← hinner]
  -- the checks in the order of the source
  by_cases hv : x0 = wireVersion
  · by_cases hs : x1 = suite
    · by_cases ht : x2 = msgInit ∨ x2 = msgDr
      · rw [if_neg (not_not_intro hv), if_neg (not_not_intro hs), if_neg (by tauto)]
        by_cases hi : inner.length < 2 ∨ octetAt inner 0 ≠ x0 ∨ octetAt inner 1 ≠ x1
        · rw [if_pos hi]
          constructor
          · intro h
            cases h
          · exact fun h => absurd hi h.2.2.2.1
        · rw [if_neg hi]
          exact ⟨fun h => ⟨hv, hs, ht, hi, (Except.ok.inj h).symm⟩, fun h => by rw [h.2.2.2.2]⟩
      · rw [if_neg (not_not_intro hv), if_neg (not_not_intro hs), if_pos (by tauto)]
        simp [ht]
    · rw [if_neg (not_not_intro hv), if_pos hs]
      simp [hs]
  · rw [if_pos hv]
    simp [hv]

/-- Envelopes are strict. -/
theorem envelope_strict : Strict (EnvelopeOk desc)
    (fun cap v => gyEnvelopePut cap desc.suiteId v.1 v.2)
    (fun b => gyEnvelopeParse b desc.suiteId) where
  round_trip {v cap b} hv h := by
    obtain ⟨htype, rest, hinner⟩ := hv
    simp only [gyEnvelopePut] at h
    split at h
    · cases h
    · split at h
      · cases h
      · obtain rfl := Except.ok.inj h
        exact (gyEnvelopeParse_cons _ _ _ _ _ _).2 ⟨rfl, rfl, htype, ⟨rest, hinner⟩, rfl⟩
  exact {b v} h := by
    by_cases hlen : b.length < envelopeHdrLen
    · rw [gyEnvelopeParse, if_pos hlen] at h
      cases h
    · obtain ⟨x0, b, rfl, h₁⟩ := exists_cons_of_le_length (Nat.le_of_not_lt hlen)
      obtain ⟨x1, b, rfl, h₂⟩ := exists_cons_of_le_length h₁
      obtain ⟨x2, inner, rfl, -⟩ := exists_cons_of_le_length h₂
      obtain ⟨rfl, rfl, htype, ⟨rest, hinner⟩, rfl⟩ := (gyEnvelopeParse_cons _ _ _ _ _ _).1 h
      refine ⟨⟨htype, rest, hinner⟩, fun cap hcap => ?_⟩
      simp only [List.length_cons] at hcap
      rw [gyEnvelopePut, if_neg (by tauto), if_neg (by simp only [envelopeHdrLen]; omega)]
      rfl

/-! ## Batches of one-time prekeys -/

/-- The keys of a batch are read by their codec, one after the other. -/
theorem getKeys_eq {κ : Type} (c : Codec UInt8 κ) {get : Bytes UInt8 → κ × Bytes UInt8}
    (hget : ∀ p, get p = (c.get p, p.drop c.width)) (n : Nat) (p : Bytes UInt8) :
    getKeys get n p = c.getMany n p := by
  induction n generalizing p with
  | zero => rfl
  | succ n ih => rw [getKeys, Codec.getMany, hget, ih]

/-- A batch: the frame start, a 16-bit count and that many keys. -/
def parseBatch {κ : Type} (c : Codec UInt8 κ) (outCap : Nat) (buf : Bytes UInt8) :
    Except GyErr (List κ) :=
  if buf.length < 4 then .error .arg
  else frameStart desc buf >>= fun _ =>
    if outCap < (be16Get (buf.drop 2)).toNat then .error .toolong
    else if buf.length ≠ 4 + (be16Get (buf.drop 2)).toNat * c.width then .error .arg
    else .ok (c.getMany (be16Get (buf.drop 2)).toNat (buf.drop 4))

/-- The batches that are written: at most `outCap` keys, as many as the count can say. -/
def BatchOk {κ : Type} (c : Codec UInt8 κ) (outCap : Nat) (keys : List κ) : Prop :=
  keys.length ≤ 0xffff ∧ keys.length ≤ outCap ∧ ∀ k ∈ keys, c.Fits k

/-- A batch is read exactly where it was written. -/
theorem parseBatch_ok_iff {κ : Type} (c : Codec UInt8 κ) {outCap : Nat} {buf : Bytes UInt8}
    {keys : List κ} : parseBatch desc c outCap buf = .ok keys ↔ BatchOk c outCap keys ∧
      buf = gyFramePut desc.suiteId ++
        (be16Put (UInt16.ofNat keys.length) ++ keys.flatMap c.put) := by
  unfold parseBatch
  constructor
  -- read forwards: the count is the one in the octets
  · intro h
    split at h
    · cases h
    · rename_i hlen
      obtain ⟨⟨⟩, hframe, h⟩ := Except.bind_eq_ok_iff.1 h
      split at h
      · cases h
      · split at h
        · cases h
        · rename_i hcap hwidth
          have hwidth := not_not.1 hwidth
          obtain rfl := Except.ok.inj h
          generalize hn : be16Get (buf.drop 2) = count at *
          have hdrop : count.toNat * c.width ≤ (buf.drop 4).length := by
            rw [List.length_drop]
            omega
          have hcount : be16Put count ++ buf.drop 4 = buf.drop 2 := by
            have hput := be16Codec.put_get_append (b := buf.drop 2)
              (show 2 ≤ (buf.drop 2).length by rw [List.length_drop]; omega)
            rw [List.drop_drop] at hput
            rw [← hn]
            exact hput
          have hkeys : (c.getMany count.toNat (buf.drop 4)).flatMap c.put = buf.drop 4 := by
            rw [c.flatMap_put_getMany hdrop, List.take_of_length_le]
            rw [List.length_drop]
            omega
          refine ⟨⟨?_, ?_, c.fits_getMany hdrop⟩, ?_⟩
          · rw [c.length_getMany]
            have := count.toNat_lt
            omega
          · rw [c.length_getMany]
            exact Nat.le_of_not_lt hcap
          · rw [c.length_getMany, UInt16.ofNat_toNat, hkeys, hcount]
            exact (frameStart_ok_iff desc (by omega)).1 hframe
  · rintro ⟨⟨hmax, hcap, hfits⟩, rfl⟩
    -- read backwards: the count of the list fits its field
    have hcount : (UInt16.ofNat keys.length).toNat = keys.length :=
      UInt16.toNat_ofNat_of_lt' (Nat.lt_of_le_of_lt hmax (by decide))
    have hlen : (gyFramePut desc.suiteId ++
        (be16Put (UInt16.ofNat keys.length) ++ keys.flatMap c.put)).length =
          4 + keys.length * c.width := by
      simp only [List.length_append, length_gyFramePut, length_be16Put, c.length_flatMap_put hfits]
      omega
    have hd2 : (gyFramePut desc.suiteId ++
        (be16Put (UInt16.ofNat keys.length) ++ keys.flatMap c.put)).drop 2 =
          be16Put (UInt16.ofNat keys.length) ++ keys.flatMap c.put := List.drop_left' rfl
    have hd4 : (gyFramePut desc.suiteId ++
        (be16Put (UInt16.ofNat keys.length) ++ keys.flatMap c.put)).drop 4 =
          keys.flatMap c.put ++ [] := by
      rw [show 4 = 2 + 2 from rfl, ← List.drop_drop, hd2, List.append_nil]
      exact List.drop_left' rfl
    have hframe : frameStart desc (gyFramePut desc.suiteId ++
        (be16Put (UInt16.ofNat keys.length) ++ keys.flatMap c.put)) = .ok () := by
      rw [frameStart_ok_iff desc (by omega), hd2]
    rw [if_neg (by omega), hframe, Except.ok_bind, hd2, be16Get_be16Put, hcount,
      if_neg (Nat.not_lt.2 hcap), if_neg (not_not_intro hlen), hd4, c.getMany_flatMap_put hfits]

/-- A parser of batches is strict for a writer of batches. -/
theorem batch_strict {κ : Type} (c : Codec UInt8 κ) {outCap : Nat}
    {put : Nat → List κ → Except GyErr (Bytes UInt8)}
    {parse : Bytes UInt8 → Except GyErr (List κ)}
    (hparse : ∀ buf, parse buf = parseBatch desc c outCap buf)
    (hput : ∀ cap keys b, (∀ k ∈ keys, c.Fits k) → (put cap keys = .ok b ↔
      keys.length ≤ 0xffff ∧ 4 + keys.length * c.width ≤ cap ∧ b = gyFramePut desc.suiteId ++
        (be16Put (UInt16.ofNat keys.length) ++ keys.flatMap c.put))) :
    Strict (BatchOk c outCap) put parse where
  round_trip {v cap b} hv h := by
    obtain ⟨-, -, hb⟩ := (hput cap v b hv.2.2).1 h
    rw [hparse]
    exact (parseBatch_ok_iff desc c).2 ⟨hv, hb⟩
  exact {b v} h := by
    -- the capacity an encoder needs is the length that was parsed
    rw [hparse] at h
    obtain ⟨hv, hb⟩ := (parseBatch_ok_iff desc c).1 h
    refine ⟨hv, fun cap hcap => (hput cap v b hv.2.2).2 ⟨hv.1, ?_, hb⟩⟩
    have hlen := congrArg List.length hb
    simp only [List.length_append, length_gyFramePut, length_be16Put,
      c.length_flatMap_put hv.2.2] at hlen
    omega

/-- Batches of one-time prekeys are strict. -/
theorem opkBatch_strict (outCap : Nat) : Strict (BatchOk (keyCodec desc) outCap)
    (gyOpkBatchPut desc) (gyOpkBatchParse desc outCap) := by
  refine batch_strict desc (keyCodec desc) (fun buf => ?_) fun cap keys b hfits => ?_
  · simp only [gyOpkBatchParse, parseBatch, width_keyCodec, getKeys_eq _ (getKey_eq desc)]
  · rw [gyOpkBatchPut, List.flatMap_congr fun k hk => putKey_eq desc (hfits k hk), width_keyCodec]
    have hlen : gyOpkBatchWireLen desc keys.length =
        4 + keys.length * (4 + 1 + desc.curvePkLen) := rfl
    rw [hlen]
    by_cases hcap : cap < 4 + keys.length * (4 + 1 + desc.curvePkLen)
    · simp [hcap]
    · by_cases hmax : 0xffff < keys.length
      · simp [hcap, hmax]
      · simp only [hcap, hmax, if_false, Nat.le_of_not_lt hcap, Nat.le_of_not_lt hmax, true_and]
        exact ⟨fun h => (Except.ok.inj h).symm, fun h => by rw [h]⟩

/-- Batches of hybrid one-time prekeys are strict. -/
theorem hybridOpkBatch_strict (hh : desc.isHybrid = true) (outCap : Nat) :
    Strict (BatchOk (hpubCodec desc) outCap) (gyHybridOpkBatchPut desc)
      (gyHybridOpkBatchParse desc outCap) := by
  refine batch_strict desc (hpubCodec desc) (fun buf => ?_) fun cap keys b hfits => ?_
  · simp only [gyHybridOpkBatchParse, parseBatch, width_hpubCodec, getKeys_eq _ (getHpub_eq desc),
      hh]
    rfl
  · rw [gyHybridOpkBatchPut, List.flatMap_congr fun k hk => putHpub_eq desc (hfits k hk),
      width_hpubCodec, hh]
    have hlen : gyHybridOpkBatchWireLen desc keys.length =
        4 + keys.length * (4 + 1 + desc.curvePkLen + desc.kemPkLen) := rfl
    rw [hlen]
    by_cases hmax : 0xffff < keys.length
    · simp [hmax]
    · by_cases hcap : cap < 4 + keys.length * (4 + 1 + desc.curvePkLen + desc.kemPkLen)
      · simp [hcap, hmax]
      · simp only [hcap, hmax, if_false, Nat.le_of_not_lt hcap, Nat.le_of_not_lt hmax, true_and]
        exact ⟨fun h => (Except.ok.inj h).symm, fun h => by rw [h]; rfl⟩

/-! ## Classical bundles -/

/-- The fields of a classical bundle before its presence byte. -/
def bundleHead : Codec UInt8 (PublicKey UInt8 × PublicKey UInt8 × UInt64 × Bytes UInt8) :=
  (keyCodec desc).pair ((keyCodec desc).pair (be64Codec.pair (.raw desc.sigLen)))

/-- The fields of a bundle before its presence byte. -/
def PrekeyBundle.head (b : PrekeyBundle UInt8) :
    PublicKey UInt8 × PublicKey UInt8 × UInt64 × Bytes UInt8 :=
  (b.ik, b.spk, b.spkTimestamp, b.spkSig)

/-- The size of a classical bundle up to its presence byte. -/
theorem width_bundleHead :
    2 + (bundleHead desc).width + 1 = gyBundleWireLen desc false := by
  show 2 + ((keyCodec desc).width + ((keyCodec desc).width + (8 + desc.sigLen))) + 1 = _
  rw [width_keyCodec, gyBundleWireLen]
  simp only [Bool.false_eq_true, if_false]
  omega

/-- The bundles a sender builds: an absent one-time prekey is zeroed. -/
def BundleOk (b : PrekeyBundle UInt8) : Prop :=
  (bundleHead desc).Fits b.head ∧
    if b.opk.pkid = 0 then b.opk = PublicKey.zero desc else (keyCodec desc).Fits b.opk

/-- A bundle with the given fields before its presence byte. -/
def PrekeyBundle.ofHead (h : PublicKey UInt8 × PublicKey UInt8 × UInt64 × Bytes UInt8)
    (opk : PublicKey UInt8) : PrekeyBundle UInt8 :=
  ⟨h.1, h.2.1, h.2.2.1, h.2.2.2, opk⟩

/-- The end of `gy_bundle_parse`, from the presence byte on. -/
def bundleTail (h : PublicKey UInt8 × PublicKey UInt8 × UInt64 × Bytes UInt8)
    (p : Bytes UInt8) : Except GyErr (PrekeyBundle UInt8) :=
  if octetAt p 0 ≠ 0 then
    if (p.drop 1).length ≠ (keyCodec desc).width then .error .arg
    else .ok (.ofHead h ((keyCodec desc).get (p.drop 1)))
  else if p.drop 1 ≠ [] then .error .arg
  else .ok (.ofHead h (PublicKey.zero desc))

/-- The parser of classical bundles reads the fields before the presence byte, then the rest. -/
theorem gyBundleParse_eq {buf : Bytes UInt8} (hlen : 2 + (bundleHead desc).width + 1 ≤ buf.length) :
    gyBundleParse desc buf = (frameStart desc buf >>= fun _ =>
      bundleTail desc ((bundleHead desc).get (buf.drop 2))
        ((buf.drop 2).drop (bundleHead desc).width)) := by
  have hdrop : (buf.drop 2).drop (bundleHead desc).width =
      ((((buf.drop 2).drop (keyCodec desc).width).drop (keyCodec desc).width).drop 8).drop
        desc.sigLen := by
    rw [List.drop_drop, List.drop_drop, List.drop_drop, List.drop_drop, List.drop_drop]
    congr 1
  have hneed := width_bundleHead desc
  unfold gyBundleParse
  rw [← hneed, if_neg (Nat.not_lt.2 hlen)]
  congr 1
  funext _
  simp only [getKey_eq, ← hdrop, ← width_keyCodec]
  unfold bundleTail
  generalize hp : (buf.drop 2).drop (bundleHead desc).width = p
  have hbuf : buf.length = 2 + (bundleHead desc).width + 1 + (p.drop 1).length := by
    rw [← hp]
    simp only [List.length_drop]
    omega
  -- the source checks the total length, the tail its own
  by_cases hpres : octetAt p 0 = 0
  · rw [if_neg (not_not_intro hpres), if_neg (not_not_intro hpres)]
    simp only [ne_eq, List.length_eq_zero_iff]
    rfl
  · rw [if_pos hpres, if_pos hpres]
    by_cases hw : (p.drop 1).length = (keyCodec desc).width
    · rw [if_neg (by omega), if_neg (by rw [List.length_drop, hw]; omega), if_neg (by omega)]
      rfl
    · rw [if_pos hw]
      by_cases hshort : buf.length < 2 + (bundleHead desc).width + 1 + (keyCodec desc).width
      · rw [if_pos hshort]
      · rw [if_neg hshort, if_pos (by rw [List.length_drop]; omega)]

/-- What stands from the presence byte on. -/
theorem bundleTail_ok {h : PublicKey UInt8 × PublicKey UInt8 × UInt64 × Bytes UInt8}
    {present : UInt8} {rest : Bytes UInt8} {b : PrekeyBundle UInt8} :
    bundleTail desc h (present :: rest) = .ok b ↔ b.head = h ∧
      if present = 0 then rest = [] ∧ b.opk = PublicKey.zero desc
      else (keyCodec desc).Fits b.opk ∧ rest = (keyCodec desc).put b.opk := by
  obtain ⟨ik, spk, ts, sig⟩ := h
  obtain ⟨ik', spk', ts', sig', opk'⟩ := b
  unfold bundleTail
  rw [octetAt_cons_zero]
  have hdrop : (present :: rest).drop 1 = rest := rfl
  rw [hdrop]
  -- zero: nothing follows; anything else: exactly one key
  by_cases hpres : present = 0
  · rw [if_neg (not_not_intro hpres), if_pos hpres]
    by_cases hrest : rest = []
    · simp [hrest, PrekeyBundle.ofHead, PrekeyBundle.head, eq_comm, and_assoc]
    · simp [hrest]
  · rw [if_pos hpres, if_neg hpres]
    by_cases hw : rest.length = (keyCodec desc).width
    · rw [if_neg (not_not_intro hw), ← (keyCodec desc).get_eq_iff hw]
      simp [PrekeyBundle.ofHead, PrekeyBundle.head, eq_comm, and_assoc]
    · rw [if_pos hw]
      constructor
      · intro h
        cases h
      · rintro ⟨-, hfits, rfl⟩
        exact absurd ((keyCodec desc).length_put hfits) hw

/-- What the parser of classical bundles accepts: a presence byte of zero ends the bundle, and any
other is followed by a one-time prekey. -/
theorem gyBundleParse_ok {buf : Bytes UInt8} {b : PrekeyBundle UInt8} :
    gyBundleParse desc buf = .ok b ↔ ∃ present rest,
      buf = gyFramePut desc.suiteId ++ ((bundleHead desc).put b.head ++ present :: rest) ∧
        (bundleHead desc).Fits b.head ∧
        if present = 0 then rest = [] ∧ b.opk = PublicKey.zero desc
        else (keyCodec desc).Fits b.opk ∧ rest = (keyCodec desc).put b.opk := by
  constructor
  -- the head is of fixed width, so the presence octet is found by its offset
  · intro h
    by_cases hlen : 2 + (bundleHead desc).width + 1 ≤ buf.length
    · rw [gyBundleParse_eq desc hlen] at h
      obtain ⟨⟨⟩, hframe, h⟩ := Except.bind_eq_ok_iff.1 h
      have hw : (bundleHead desc).width ≤ (buf.drop 2).length := by
        rw [List.length_drop]
        omega
      obtain ⟨present, rest, hp, -⟩ := exists_cons_of_le_length
        (show 0 + 1 ≤ ((buf.drop 2).drop (bundleHead desc).width).length by
          rw [List.length_drop, List.length_drop]; omega)
      rw [hp] at h
      obtain ⟨hhead, htail⟩ := (bundleTail_ok desc).1 h
      refine ⟨present, rest, ?_, ?_, htail⟩
      · rw [hhead, ← hp, (bundleHead desc).put_get_append hw]
        exact (frameStart_ok_iff desc (by omega)).1 hframe
      · rw [hhead]
        exact (bundleHead desc).fits_get hw
    · rw [gyBundleParse, ← width_bundleHead, if_pos (Nat.lt_of_not_le hlen)] at h
      cases h
  · rintro ⟨present, rest, hbuf, hfits, htail⟩
    have hlen : 2 + (bundleHead desc).width + 1 ≤ buf.length := by
      rw [hbuf]
      simp only [List.length_append, length_gyFramePut, (bundleHead desc).length_put hfits,
        List.length_cons]
      omega
    have hdrop : buf.drop 2 = (bundleHead desc).put b.head ++ present :: rest := by
      rw [hbuf]
      exact List.drop_left' rfl
    have hframe : frameStart desc buf = .ok () := by
      rw [frameStart_ok_iff desc (by omega), hdrop]
      exact hbuf
    rw [gyBundleParse_eq desc hlen, hframe, Except.ok_bind, hdrop,
      (bundleHead desc).get_put _ hfits, List.drop_left' ((bundleHead desc).length_put hfits)]
    exact (bundleTail_ok desc).2 ⟨rfl, htail⟩

/-- What the writer of classical bundles puts from the presence byte on. -/
def opkPart (opk : PublicKey UInt8) : Bytes UInt8 :=
  if opk.pkid = 0 then [0] else 1 :: (keyCodec desc).put opk

/-- What the writer of classical bundles writes. -/
theorem gyBundlePut_ok {cap : Nat} {b : PrekeyBundle UInt8} (hhead : (bundleHead desc).Fits b.head)
    (hopk : b.opk.pkid ≠ 0 → (keyCodec desc).Fits b.opk) :
    gyBundlePut desc cap b =
      if cap < 2 + (bundleHead desc).width + (opkPart desc b.opk).length then .error .arg
      else .ok (gyFramePut desc.suiteId ++
        ((bundleHead desc).put b.head ++ opkPart desc b.opk)) := by
  have hik : (keyCodec desc).Fits b.ik := hhead.1
  have hspk : (keyCodec desc).Fits b.spk := hhead.2.1
  have hsig : b.spkSig.length = desc.sigLen := hhead.2.2.2
  have hput : (bundleHead desc).put b.head = (keyCodec desc).put b.ik ++
      ((keyCodec desc).put b.spk ++ (be64Put b.spkTimestamp ++ b.spkSig)) := rfl
  have hneed := width_bundleHead desc
  have htake : b.spkSig.take desc.sigLen = b.spkSig := by rw [← hsig, List.take_length]
  -- the length of the source, in terms of the codec's widths
  have hlen : gyBundleWireLen desc (decide (b.opk.pkid ≠ 0)) =
      2 + (bundleHead desc).width + (opkPart desc b.opk).length := by
    by_cases hp : b.opk.pkid = 0
    · simp [hp, opkPart, ← hneed]
    · have hw := (keyCodec desc).length_put (hopk hp)
      rw [width_keyCodec] at hw
      simp only [gyBundleWireLen, Bool.false_eq_true, if_false] at hneed
      simp only [opkPart, hp, if_false, List.length_cons, hw, gyBundleWireLen, ne_eq,
        not_false_eq_true, decide_true, if_true]
      omega
  have htail : (Octet.ofByte (if b.opk.pkid ≠ 0 then 1 else 0) ::
      if b.opk.pkid ≠ 0 then putKey desc b.opk else []) = opkPart desc b.opk := by
    by_cases hp : b.opk.pkid = 0
    · simp [hp, opkPart, Octet.ofByte]
    · simp [hp, opkPart, Octet.ofByte, putKey_eq desc (hopk hp)]
  simp only [gyBundlePut, hlen, htail, putKey_eq desc hik, putKey_eq desc hspk, htake, hput,
    List.append_assoc]

/-- A bundle is read back from what is written for it. -/
theorem gyBundleParse_put {cap : Nat} {b : PrekeyBundle UInt8} {buf : Bytes UInt8}
    (hok : BundleOk desc b) (h : gyBundlePut desc cap b = .ok buf) :
    gyBundleParse desc buf = .ok b := by
  obtain ⟨hhead, hopk⟩ := hok
  rw [gyBundlePut_ok desc hhead fun hp => by rwa [if_neg hp] at hopk] at h
  split at h
  · cases h
  · obtain rfl := Except.ok.inj h
    refine (gyBundleParse_ok desc).2 ?_
    by_cases hp : b.opk.pkid = 0
    · rw [if_pos hp] at hopk
      exact ⟨0, [], by rw [opkPart, if_pos hp], hhead, rfl, hopk⟩
    · rw [if_neg hp] at hopk
      exact ⟨1, _, by rw [opkPart, if_neg hp], hhead, hopk, rfl⟩

/-- The presence byte of a classical bundle is one of the two a sender writes, and a one-time prekey
that is announced is not the absent one. -/
def PresenceOk (buf : Bytes UInt8) : Prop :=
  octetAt buf (gyBundleWireLen desc false - 1) = 0 ∨
    octetAt buf (gyBundleWireLen desc false - 1) = 1 ∧
      be32Get (buf.drop (gyBundleWireLen desc false)) ≠ 0

instance (buf : Bytes UInt8) : Decidable (PresenceOk desc buf) :=
  inferInstanceAs (Decidable (_ ∨ _))

/-- An octet is the first one of the rest. -/
theorem octetAt_eq_drop (b : Bytes UInt8) (i : Nat) : octetAt b i = octetAt (b.drop i) 0 := by
  simp [octetAt, byteAt]

/-- A bundle that is accepted is what is written for its value exactly if its presence byte is in
order. -/
theorem gyBundlePut_parse_iff {buf : Bytes UInt8} {b : PrekeyBundle UInt8}
    (h : gyBundleParse desc buf = .ok b) :
    (∀ cap, buf.length ≤ cap → gyBundlePut desc cap b = .ok buf) ↔ PresenceOk desc buf := by
  obtain ⟨present, rest, hbuf, hhead, htail⟩ := (gyBundleParse_ok desc).1 h
  have hneed := width_bundleHead desc
  have hfits : b.opk.pkid ≠ 0 → (keyCodec desc).Fits b.opk := by
    intro hp
    split at htail
    · exact absurd (by rw [htail.2]; rfl) hp
    · exact htail.1
  have hd : buf.drop (2 + (bundleHead desc).width) = present :: rest := by
    rw [hbuf, ← List.append_assoc, List.drop_left']
    rw [List.length_append, length_gyFramePut, (bundleHead desc).length_put hhead]
  have hpresent : octetAt buf (gyBundleWireLen desc false - 1) = present := by
    rw [← hneed, Nat.add_sub_cancel, octetAt_eq_drop, hd, octetAt_cons_zero]
  have hrest : buf.drop (gyBundleWireLen desc false) = rest := by
    rw [← hneed, ← List.drop_drop, hd]
    rfl
  -- a bundle is rewritten as it stood exactly if what follows the other fields is
  have hiff : (∀ cap, buf.length ≤ cap → gyBundlePut desc cap b = .ok buf) ↔
      opkPart desc b.opk = present :: rest := by
    constructor
    · intro hput
      have hput := hput (buf.length + (2 + (bundleHead desc).width +
        (opkPart desc b.opk).length)) (Nat.le_add_right _ _)
      rw [gyBundlePut_ok desc hhead hfits, if_neg (by omega)] at hput
      have heq := (Except.ok.inj hput).trans hbuf
      exact List.append_cancel_left (List.append_cancel_left heq)
    · intro heq cap hcap
      rw [gyBundlePut_ok desc hhead hfits, heq, ← hbuf, if_neg]
      rw [hbuf, List.length_append, List.length_append, length_gyFramePut,
        (bundleHead desc).length_put hhead] at hcap
      omega
  rw [hiff, PresenceOk, hpresent, hrest]
  by_cases hp : present = 0
  · rw [if_pos hp] at htail
    obtain ⟨rfl, hopk⟩ := htail
    have hzero : b.opk.pkid = 0 := by rw [hopk]; rfl
    simp [opkPart, hzero, hp]
  · rw [if_neg hp] at htail
    obtain ⟨hopk, rfl⟩ := htail
    have hpkid : be32Get ((keyCodec desc).put b.opk) = b.opk.pkid :=
      congrArg PublicKey.pkid (by simpa using (keyCodec desc).get_put [] hopk)
    rw [hpkid]
    by_cases hzero : b.opk.pkid = 0
    · rw [opkPart, if_pos hzero]
      constructor
      · exact fun heq => absurd (List.cons.inj heq).1.symm hp
      · rintro (h | ⟨-, h⟩)
        · exact absurd h hp
        · exact absurd hzero h
    · rw [opkPart, if_neg hzero]
      constructor
      · exact fun heq => .inr ⟨(List.cons.inj heq).1.symm, hzero⟩
      · rintro (h | ⟨rfl, -⟩)
        · exact absurd h hp
        · rfl

/-! ## Ratchet headers -/

/-- What a ratchet reads a decrypted header as: the length of the encrypted header is checked before
the header is decrypted, and the fields are decoded after. -/
def Engine.parseHeader {σ η : Type} (E : Engine UInt8 σ η) (taglen : Nat) (b : Bytes UInt8) :
    Except GyErr η :=
  if E.encHeaderLenOk (b.length + taglen) taglen then E.decode b else .error .arg

/-- The fields of a classical header, in wire order. -/
def drHeaderCodec : Codec UInt8 (DrHeader UInt8) :=
  (be32Codec.pair ((Codec.raw desc.curvePkLen).pair (be32Codec.pair be32Codec))).ofEquiv
    ⟨fun a => ⟨a.1, a.2.1, a.2.2.1, a.2.2.2⟩, fun h => (h.flags, h.ratchetPk, h.pn, h.n),
      fun _ => rfl, fun _ => rfl⟩

/-- The size of a classical ratchet header. -/
theorem width_drHeaderCodec : (drHeaderCodec desc).width = 4 + desc.curvePkLen + 4 + 4 := by
  show 4 + (desc.curvePkLen + (4 + 4)) = _
  omega

/-- The classical headers a sender builds. -/
def DrHeaderOk (h : DrHeader UInt8) : Prop :=
  h.flags = headerFlags desc false false ∧ (drHeaderCodec desc).Fits h

/-- What the classical decoder accepts in a string of a header's length. -/
theorem gyDrHeaderDecode_ok {b : Bytes UInt8} {h : DrHeader UInt8} {n : Nat}
    (hlen : b.length = 4 + desc.curvePkLen + 4 + 4) :
    gyDrHeaderDecode desc b = .ok (h, n) ↔
      DrHeaderOk desc h ∧ b = (drHeaderCodec desc).put h ∧ n = b.length := by
  -- the four reads of the source are the codec's
  have hget : (drHeaderCodec desc).get b = ⟨be32Get b, (b.drop 4).take desc.curvePkLen,
      be32Get (b.drop (4 + desc.curvePkLen)), be32Get (b.drop (8 + desc.curvePkLen))⟩ := by
    have h8 : 8 + desc.curvePkLen = 4 + (desc.curvePkLen + 4) := by omega
    rw [h8, ← List.drop_drop, ← List.drop_drop]
    simp only [drHeaderCodec, Codec.ofEquiv, Codec.pair, Codec.raw, be32Codec, List.drop_drop]
    rfl
  have hw := hlen.trans (width_drHeaderCodec desc).symm
  unfold gyDrHeaderDecode
  dsimp only
  rw [if_neg (by omega), ← hget, ← hlen]
  constructor
  · intro hdec
    split at hdec
    · cases hdec
    · split at hdec
      · cases hdec
      · rename_i hcurve hnon
        have hfst : (drHeaderCodec desc).get b = h := congrArg Prod.fst (Except.ok.inj hdec)
        have hsnd : b.length = n := congrArg Prod.snd (Except.ok.inj hdec)
        obtain ⟨hfits, hput⟩ := ((drHeaderCodec desc).get_eq_iff hw).1 hfst
        have hflags : be32Get b = h.flags := by rw [← hfst, hget]
        refine ⟨⟨?_, hfits⟩, hput, hsnd.symm⟩
        rw [← hflags]
        -- the two masks together leave one flag word only
        exact flags_eq_curve desc (not_not.1 hcurve) (not_not.1 hnon)
  · rintro ⟨⟨hflags, hfits⟩, hput, rfl⟩
    have hread := ((drHeaderCodec desc).get_eq_iff hw).2 ⟨hfits, hput⟩
    have hflags' : be32Get b = headerFlags desc false false := by
      rw [← hflags, ← hread, hget]
    rw [hflags', headerFlags_curve, headerFlags_noncurve, if_neg (by simp), if_neg (by simp), hread]

/-- A classical ratchet header is written by its codec. -/
theorem gyDrHeaderEncode_eq {h : DrHeader UInt8} (hok : DrHeaderOk desc h) (cap : Nat) :
    gyDrHeaderEncode desc h cap =
      if cap < 4 + desc.curvePkLen + 4 + 4 then .error .arg
      else .ok ((drHeaderCodec desc).put h) := by
  have hpk : h.ratchetPk.length = desc.curvePkLen := hok.2.2.1
  rw [gyDrHeaderEncode, fixed_of_length hpk, List.append_assoc, List.append_assoc]
  rfl

/-- Classical headers are strict. -/
theorem drHeader_strict (taglen : Nat) : Strict (DrHeaderOk desc)
    (fun cap h => gyDrHeaderEncode desc h cap) ((classical desc).parseHeader taglen) where
  round_trip {h cap b} hok he := by
    have hlen := length_gyDrHeaderEncode desc he
    have hput : b = (drHeaderCodec desc).put h := by
      rw [gyDrHeaderEncode_eq desc hok] at he
      split at he
      · cases he
      · exact (Except.ok.inj he).symm
    have hdec := (gyDrHeaderDecode_ok desc hlen).2 ⟨hok, hput, rfl⟩
    -- the engine tests the length before it decodes
    have hlenOk : (classical desc).encHeaderLenOk (b.length + taglen) taglen = true := by
      simp [classical, hlen]
    rw [Engine.parseHeader, if_pos hlenOk]
    show (gyDrHeaderDecode desc b).map Prod.fst = _
    rw [hdec]
    rfl
  exact {b h} hp := by
    unfold Engine.parseHeader at hp
    split at hp
    · rename_i hlenOk
      have hlen : b.length = 4 + desc.curvePkLen + 4 + 4 := by
        simp only [classical, beq_iff_eq] at hlenOk
        omega
      cases hdec : gyDrHeaderDecode desc b with
      | error e =>
        rw [show (classical desc).decode b = (gyDrHeaderDecode desc b).map Prod.fst from rfl,
          hdec] at hp
        cases hp
      | ok hn =>
        rw [show (classical desc).decode b = (gyDrHeaderDecode desc b).map Prod.fst from rfl,
          hdec] at hp
        obtain rfl := Except.ok.inj hp
        obtain ⟨hok, hput, -⟩ := (gyDrHeaderDecode_ok desc hlen).1 hdec
        refine ⟨hok, fun cap hcap => ?_⟩
        rw [gyDrHeaderEncode_eq desc hok, if_neg (by omega), ← hput]
    · cases hp

/-- The fields of a hybrid header with the given optional fields, in wire order. -/
def hybridHeaderCodec (ek confirm : Bool) : Codec UInt8
    (UInt32 × Bytes UInt8 × Bytes UInt8 × UInt32 × UInt32 × Bytes UInt8 × Bytes UInt8) :=
  be32Codec.pair ((Codec.raw desc.curvePkLen).pair ((Codec.raw desc.kemCtLen).pair
    (be32Codec.pair (be32Codec.pair ((Codec.raw (if ek then desc.kemPkLen else 0)).pair
      (.raw (if confirm then desc.kemCtLen else 0)))))))

/-- The size of a hybrid ratchet header, with and without its two optional fields. -/
theorem width_hybridHeaderCodec (ek confirm : Bool) : (hybridHeaderCodec desc ek confirm).width =
    4 + desc.curvePkLen + desc.kemCtLen + 4 + 4 + (if ek then desc.kemPkLen else 0) +
      (if confirm then desc.kemCtLen else 0) := by
  show 4 + (desc.curvePkLen + (desc.kemCtLen + (4 + (4 + ((if ek then desc.kemPkLen else 0) +
    (if confirm then desc.kemCtLen else 0)))))) = _
  omega

/-- A hybrid header that is decoded from the whole of a string is one a sender fills, and the string
is what the sender writes for it. -/
theorem gyDrHybridHeaderDecode_ok {b : Bytes UInt8} {h : DrHybridHeader UInt8}
    (hdec : gyDrHybridHeaderDecode desc b = .ok (h, b.length)) :
    h.Filled desc (ekPresent h.flags) (confirmPresent h.flags) ∧
      ∀ cap, b.length ≤ cap → gyDrHybridHeaderEncode desc h cap = .ok b := by
  have hread : ∀ ek confirm, (hybridHeaderCodec desc ek confirm).get b = (be32Get b,
      (b.drop 4).take desc.curvePkLen, (b.drop (4 + desc.curvePkLen)).take desc.kemCtLen,
      be32Get (b.drop (4 + desc.curvePkLen + desc.kemCtLen)),
      be32Get (b.drop (4 + desc.curvePkLen + desc.kemCtLen + 4)),
      (b.drop (4 + desc.curvePkLen + desc.kemCtLen + 8)).take (if ek then desc.kemPkLen else 0),
      (b.drop (4 + desc.curvePkLen + desc.kemCtLen + 8 + (if ek then desc.kemPkLen else 0))).take
        (if confirm then desc.kemCtLen else 0)) := by
    intro ek confirm
    have h8 : ∀ m, 4 + (4 + m) = 8 + m := by omega
    simp only [hybridHeaderCodec, Codec.pair, Codec.raw, be32Codec, List.drop_drop, Nat.add_assoc,
      h8]
  unfold gyDrHybridHeaderDecode at hdec
  dsimp only at hdec
  by_cases hshort : b.length < 4
  · simp [hshort] at hdec
  · rw [if_neg hshort] at hdec
    by_cases hcurve : be32Get b &&& flagCurveMask = desc.curveType.toUInt32
    · rw [if_neg (not_not_intro hcurve)] at hdec
      by_cases hres : be32Get b &&& flagReservedMask = 0
      · rw [if_neg (not_not_intro hres)] at hdec
        have hflags := flags_eq_headerFlags desc hcurve hres
        generalize hek : ekPresent (be32Get b) = ek at hdec hflags
        generalize hcf : confirmPresent (be32Get b) = confirm at hdec hflags
        rw [← width_hybridHeaderCodec] at hdec
        by_cases hneed : b.length < (hybridHeaderCodec desc ek confirm).width
        · simp [hneed] at hdec
        · rw [if_neg hneed] at hdec
          have hh := congrArg Prod.fst (Except.ok.inj hdec)
          have hw : (hybridHeaderCodec desc ek confirm).width = b.length :=
            congrArg Prod.snd (Except.ok.inj hdec)
          have hfits := (hybridHeaderCodec desc ek confirm).fits_get (Nat.le_of_eq hw)
          have hput := (hybridHeaderCodec desc ek confirm).put_get (Nat.le_of_eq hw)
          rw [hw, List.take_length] at hput
          have hparts := hread ek confirm
          generalize (hybridHeaderCodec desc ek confirm).get b = parts at hfits hput hparts
          obtain ⟨flags, pk, ct, pn, n, ekb, cfb⟩ := parts
          -- the header holds the parts, with zeros for an absent field
          have hparts : h = ⟨flags, pk, ct, pn, n, if ek then ekb else zeros desc.kemPkLen,
              if confirm then cfb else zeros desc.kemCtLen⟩ := by
            simp only [Prod.mk.injEq] at hparts
            obtain ⟨rfl, rfl, rfl, rfl, rfl, rfl, rfl⟩ := hparts
            refine Eq.trans hh.symm ?_
            cases ek <;> cases confirm <;> rfl
          have hflags' : h.flags = be32Get b := (congrArg DrHybridHeader.flags hh).symm
          obtain ⟨-, hpk, hct, -, -, hekb, hcfb⟩ := hfits
          have hfilled : h.Filled desc ek confirm := by
            subst hparts
            refine ⟨hflags'.trans hflags, hpk, hct, ?_, ?_, ?_, ?_⟩
            · cases ek with
              | false => exact length_zeros _
              | true => exact hekb
            · cases confirm with
              | false => exact length_zeros _
              | true => exact hcfb
            · rintro rfl
              rfl
            · rintro rfl
              rfl
          have hek' : ekPresent h.flags = ek := by rw [hflags', hek]
          have hcf' : confirmPresent h.flags = confirm := by rw [hflags', hcf]
          rw [hek', hcf']
          refine ⟨hfilled, fun cap hcap => ?_⟩
          rw [← hw, width_hybridHeaderCodec] at hcap
          rw [gyDrHybridHeaderEncode, hek', hcf', if_neg (Nat.not_lt.2 hcap),
            fixed_of_length hfilled.ratchetPk, fixed_of_length hfilled.kemCt,
            fixed_of_length hfilled.mlkemEk, fixed_of_length hfilled.confirmCt, ← hput]
          have hlayout : (hybridHeaderCodec desc ek confirm).put (flags, pk, ct, pn, n, ekb, cfb) =
              be32Put flags ++ (pk ++ (ct ++ (be32Put pn ++ (be32Put n ++ (ekb ++ cfb))))) := rfl
          have hekb' : (if ek then h.mlkemEk else []) = ekb := by
            rw [hparts]
            cases ek with
            | false => exact (List.eq_nil_of_length_eq_zero hekb).symm
            | true => rfl
          have hcfb' : (if confirm then h.confirmCt else []) = cfb := by
            rw [hparts]
            cases confirm with
            | false => exact (List.eq_nil_of_length_eq_zero hcfb).symm
            | true => rfl
          rw [hekb', hcfb', hlayout, hparts]
          simp only [List.append_assoc]
      · simp [hres] at hdec
    · simp [hcurve] at hdec

/-- Hybrid headers are strict. -/
theorem drHybridHeader_strict (hh : desc.isHybrid = true) (taglen : Nat) :
    Strict (fun h => ∃ ek confirm, DrHybridHeader.Filled desc h ek confirm)
      (fun cap h => gyDrHybridHeaderEncode desc h cap) ((hybrid desc).parseHeader taglen) where
  round_trip {h cap b} hok he := by
    obtain ⟨ek, confirm, hf⟩ := hok
    have hlen := length_gyDrHybridHeaderEncode desc hh hf he
    have hlenOk : (hybrid desc).encHeaderLenOk (b.length + taglen) taglen = true := by
      show encHeaderLenOk desc (b.length + taglen) taglen = true
      rw [hlen]
      cases ek <;> cases confirm <;> simp [encHeaderLenOk]
    rw [Engine.parseHeader, if_pos hlenOk]
    show hybridDecode desc b = _
    rw [hybridDecode, gyDrHybridHeaderDecode_encode desc hh hf he, Except.ok_bind]
    exact if_neg (not_not_intro rfl)
  exact {b h} hp := by
    unfold Engine.parseHeader at hp
    split at hp
    -- the decoder answers how much it read, and that must be all
    · obtain ⟨⟨h', n⟩, hdec, hp⟩ := Except.bind_eq_ok_iff.1
        (show (gyDrHybridHeaderDecode desc b >>= fun hn =>
          if hn.2 ≠ b.length then .error .arg else .ok hn.1) = .ok h from hp)
      split at hp
      · cases hp
      · rename_i hn
        obtain rfl := Except.ok.inj hp
        obtain rfl := not_not.1 hn
        obtain ⟨hf, hput⟩ := gyDrHybridHeaderDecode_ok desc hdec
        exact ⟨⟨_, _, hf⟩, hput⟩
    · cases hp

/-! ## The formats together -/

/-- The wire formats are strict, but for classical bundles: those are read back from what is written
for them, and one that is accepted is what is written for its value exactly if its presence byte is
in order. -/
theorem wire_formats_strict (desc : SuiteDesc UInt8) :
    ((∀ {b cap buf}, BundleOk desc b → gyBundlePut desc cap b = .ok buf →
        gyBundleParse desc buf = .ok b) ∧
      ∀ {buf b}, gyBundleParse desc buf = .ok b →
        ((∀ cap, buf.length ≤ cap → gyBundlePut desc cap b = .ok buf) ↔ PresenceOk desc buf)) ∧
    Strict (EnvelopeOk desc) (fun cap v => gyEnvelopePut cap desc.suiteId v.1 v.2)
      (fun b => gyEnvelopeParse b desc.suiteId) ∧
    (∀ outCap, Strict (BatchOk (keyCodec desc) outCap) (gyOpkBatchPut desc)
      (gyOpkBatchParse desc outCap)) ∧
    Strict (certCodec desc).Fits (gyAppkeyCertPut desc) (gyAppkeyCertParse desc) ∧
    (∀ taglen, Strict (DrHeaderOk desc) (fun cap h => gyDrHeaderEncode desc h cap)
      ((classical desc).parseHeader taglen)) ∧
    (desc.isHybrid = true →
      Strict (hybridBundleCodec desc).Fits (gyHybridBundlePut desc) (gyHybridBundleParse desc) ∧
      (∀ outCap, Strict (BatchOk (hpubCodec desc) outCap) (gyHybridOpkBatchPut desc)
        (gyHybridOpkBatchParse desc outCap)) ∧
      Strict (hybridCertCodec desc).Fits (gyHybridAppkeyCertPut desc)
        (gyHybridAppkeyCertParse desc) ∧
      ∀ taglen, Strict (fun h => ∃ ek confirm, DrHybridHeader.Filled desc h ek confirm)
        (fun cap h => gyDrHybridHeaderEncode desc h cap) ((hybrid desc).parseHeader taglen)) :=
  ⟨⟨gyBundleParse_put desc, gyBundlePut_parse_iff desc⟩, envelope_strict desc, opkBatch_strict desc,
    appkeyCert_strict desc, drHeader_strict desc, fun hh => ⟨hybridBundle_strict desc hh,
      hybridOpkBatch_strict desc hh, hybridAppkeyCert_strict desc hh,
      drHybridHeader_strict desc hh⟩⟩

theorem sha512_covers_seed : 32 ≤ 64 := by decide

/-- The sizes of the suite of X25519 and SHA-512, without its primitives. -/
def wireSuite : SuiteDesc UInt8 where
  suiteId := 1
  curveType := curveType25519
  isHybrid := false
  name := "x25519.sha512"
  curvePkLen := 32
  curveSkLen := 32
  dhLen := 32
  sigLen := 64
  hashLen := 64
  fLen := 32
  dh _ _ := .error .crypto
  verify _ _ _ := .error .crypto
  hash _ := .error .crypto
  hmac _ _ := .error .crypto
  hkdfExtract _ _ := .error .crypto
  hkdfExpand _ _ _ := .error .crypto
  kemPkLen := 0
  kemSkLen := 0
  kemCtLen := 0
  kemSsLen := 0
  dsaPkLen := 0
  dsaSigLen := 0
  kemEncap _ _ := .error .crypto
  kemDecap _ _ := .error .crypto
  dsaVerify _ _ _ _ := .error .crypto
  hashLen_ge := sha512_covers_seed
  length_hash h := by cases h

/-- A bundle of zeroed keys and a one-time prekey numbered seven, with a presence byte. -/
def presenceBundle (present : UInt8) : Bytes UInt8 :=
  gyFramePut 1 ++ (zeros 146 ++ present :: (be32Put 7 ++ zeros 33))

/-- The value of the bundle, whatever its presence byte. -/
def presenceValue : PrekeyBundle UInt8 :=
  .ofHead ((bundleHead wireSuite).get (zeros 146))
    ((keyCodec wireSuite).get (be32Put 7 ++ zeros 33))

/-- Every presence byte but zero is read as the same bundle. -/
theorem gyBundleParse_presenceBundle {present : UInt8} (h : present ≠ 0) :
    gyBundleParse wireSuite (presenceBundle present) = .ok presenceValue := by
  have hhead : (bundleHead wireSuite).width = (zeros 146 : Bytes UInt8).length := by
    rw [length_zeros]
    rfl
  have hkey : (keyCodec wireSuite).width = (be32Put 7 ++ zeros 33 : Bytes UInt8).length := by
    rw [List.length_append, length_zeros]
    rfl
  refine (gyBundleParse_ok wireSuite).2 ⟨present, be32Put 7 ++ zeros 33, ?_, ?_, ?_⟩
  · have hput := (bundleHead wireSuite).put_get (Nat.le_of_eq hhead)
    rw [hhead, List.take_length] at hput
    show _ = _ ++ ((bundleHead wireSuite).put ((bundleHead wireSuite).get (zeros 146)) ++ _)
    rw [hput]
    rfl
  · exact (bundleHead wireSuite).fits_get (Nat.le_of_eq hhead)
  · have hput := (keyCodec wireSuite).put_get (Nat.le_of_eq hkey)
    rw [hkey, List.take_length] at hput
    rw [if_neg h]
    exact ⟨(keyCodec wireSuite).fits_get (Nat.le_of_eq hkey), hput.symm⟩

/-- The header of message three of a chain. -/
def thirdHeader : DrHeader UInt8 := ⟨headerFlags wireSuite false false, zeros 32, 0, 3⟩

/-- The bundle with the presence byte 1 is what is written for its value, and the one with the
presence byte 2 is not; a header is read back from its encoding. -/
theorem presence_byte_decides :
    gyBundlePut wireSuite 186 presenceValue = .ok (presenceBundle 1) ∧
    (¬∀ cap, 186 ≤ cap → gyBundlePut wireSuite cap presenceValue = .ok (presenceBundle 2)) ∧
    ∃ hdr, gyDrHeaderEncode wireSuite thirdHeader 44 = .ok hdr ∧
      (classical wireSuite).parseHeader 16 hdr = .ok thirdHeader := by
  obtain ⟨⟨-, hbundle⟩, -, -, -, hheader, -⟩ := wire_formats_strict wireSuite
  have hlen : ∀ present, (presenceBundle present).length = 186 := fun _ => rfl
  refine ⟨?_, ?_, ?_⟩
  · exact (hbundle (gyBundleParse_presenceBundle (by decide))).2 (by decide) 186 (by rw [hlen])
  · intro h
    have hok : PresenceOk wireSuite (presenceBundle 2) :=
      (hbundle (gyBundleParse_presenceBundle (by decide))).1 fun cap hcap =>
        h cap (by rwa [hlen] at hcap)
    exact absurd hok (by decide)
  · have hok : DrHeaderOk wireSuite thirdHeader := ⟨rfl, trivial, length_zeros 32, trivial, trivial⟩
    have hput : gyDrHeaderEncode wireSuite thirdHeader 44 = .ok _ := rfl
    exact ⟨_, hput, (hheader 16).round_trip hok hput⟩

/-- A presence byte of two is read as one: two strings are the same bundle. -/
theorem presence_byte_not_strict : ∃ b, gyBundleParse wireSuite (presenceBundle 1) = .ok b ∧
    gyBundleParse wireSuite (presenceBundle 2) = .ok b ∧
    presenceBundle 1 ≠ presenceBundle 2 := by
  refine ⟨presenceValue, gyBundleParse_presenceBundle (by decide),
    gyBundleParse_presenceBundle (by decide), fun h => ?_⟩
  have htail := List.append_cancel_left (List.append_cancel_left h)
  exact absurd (List.cons.inj htail).1 (by decide)

end Geryon
