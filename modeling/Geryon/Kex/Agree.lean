import Geryon.Kex.X3dh
import Geryon.Ratchet.Schedule

/-!
# Key agreement between honest parties

An initiator and a responder that hold genuine keys derive the same secrets and the same associated
data from the initiator's wire prefix, whatever follows the prefix.

## Main results

- `gyX3dhInitiate_ok`, `gyHybridX3dhInitiate_ok`: the initiator completes the handshake with every
  bundle that verifies and whose private keys are held by someone.
- `gyX3dhRespond_of_initiate`, `gyHybridX3dhRespond_of_initiate`: the responder then derives what
  the initiator did, with and without a one-time prekey.
-/

namespace Geryon

variable {β : Type} [Octet β] {desc : SuiteDesc β}

/-- What a key agreement asks of its primitives: the hash and the key derivation never fail,
Diffie-Hellman commutes and the KEM is correct between genuine keys. -/
structure KexSuite (desc : SuiteDesc β) where
  name_le : desc.name.length ≤ 28
  hash_ok : ∀ m, ∃ t, desc.hash m = .ok t
  extract_ok : ∀ s m, ∃ t, desc.hkdfExtract s m = .ok t
  expand_ok : ∀ len prk info, len ≤ 255 * desc.hashLen → ∃ t, desc.hkdfExpand len prk info = .ok t
  genuine : Keypair β → Prop
  genuine_pk : ∀ {a}, genuine a → a.pk.length = desc.curvePkLen
  dh_comm : ∀ {a b}, genuine a → genuine b →
    ∃ s, desc.dh a.sk b.pk = .ok s ∧ desc.dh b.sk a.pk = .ok s
  genuineKem : Bytes β → Bytes β → Prop
  kem_correct : ∀ {ek dk}, genuineKem ek dk → ∀ coins, ∃ ct ss,
    desc.kemEncap ek coins = .ok (ct, ss) ∧ ct.length = desc.kemCtLen ∧
      desc.kemDecap ct dk = .ok ss

/-- Ideal primitives serve a key agreement. -/
def IdealSuite.kex [Sodium β] (I : IdealSuite desc) : KexSuite desc where
  name_le := I.name_le
  hash_ok := I.hash_ok
  extract_ok := I.extract_ok
  expand_ok len prk info h := (I.expand_ok len prk info h).imp fun _ ht => ht.1
  genuine := I.genuine
  genuine_pk := I.genuine_pk
  dh_comm := I.dh_comm
  genuineKem := I.genuineKem
  kem_correct := I.kem_correct

/-- A suite over one of the two curves. -/
structure SuiteDesc.CurveOk (desc : SuiteDesc β) : Prop where
  known : desc.curveType = curveType25519 ∨ desc.curveType = curveType448
  length : desc.curveType.toNat = desc.curvePkLen

/-- A public key of a suite with its right key identifier, as a generator makes it. -/
structure PublicKey.Ok (desc : SuiteDesc β) (k : PublicKey β) : Prop where
  curveType : k.curveType = desc.curveType
  length : k.pk.length = desc.curvePkLen
  pkid : pkidMatches desc k = .ok ()

section Wire

/-- The size of a public key on the wire. -/
theorem length_putPubkey {k : PublicKey β} (h : k.pk.length = desc.curvePkLen) :
    (putPubkey desc k).length = pubkeyWire desc := by
  simp only [putPubkey, pubkeyWire, List.length_append, length_be32Put, List.length_cons,
    List.length_take, h]
  omega

/-- A public key is read back from its wire form, whatever follows it. -/
theorem parsePubkey_putPubkey {k : PublicKey β} (h : k.pk.length = desc.curvePkLen)
    (rest : Bytes β) : parsePubkey desc (putPubkey desc k ++ rest) = k := by
  have hpk : k.pk.take desc.curvePkLen = k.pk := List.take_of_length_le h.le
  have hbytes : putPubkey desc k ++ rest =
      be32Put k.pkid ++ (Octet.ofByte k.curveType :: (k.pk ++ rest)) := by
    simp only [putPubkey, hpk, List.append_assoc, List.cons_append]
  have htype : octetAt (putPubkey desc k ++ rest) 4 = k.curveType := by
    rw [hbytes]
    simp [octetAt, byteAt, be32Put, octets]
  have hkey : ((putPubkey desc k ++ rest).drop 5).take desc.curvePkLen = k.pk := by
    rw [hbytes]
    simp [be32Put, octets, ← h]
  rw [parsePubkey, htype, hkey, hbytes, be32Get_be32Put]

/-- Keys of the curve of the suite are encoded as their type byte and their bytes. -/
theorem gyEncodeEc_ok (hc : desc.CurveOk) {k : PublicKey β} (h : k.curveType = desc.curveType)
    (hlen : k.pk.length = desc.curvePkLen) :
    gyEncodeEc k.curveType k.pk = .ok (Octet.ofByte desc.curveType :: k.pk) := by
  rw [gyEncodeEc, h, if_neg, List.take_of_length_le]
  · rw [hlen, hc.length]
  · rcases hc.known with h1 | h1 <;> simp [h1]

end Wire

/-- The derivation of the ratchet's secrets from shared secrets is total. -/
theorem KexSuite.deriveSecrets_ok (K : KexSuite desc) (parts : List (Bytes β)) :
    ∃ sk sec, expandSecrets desc sk = .ok sec ∧ deriveSecrets desc parts = .ok sec := by
  have hlen := desc.hashLen_ge
  have hinfo : ∀ purpose : String, purpose.length ≤ 10 →
      ∃ info, gyInfo desc infoMax purpose = .ok info := by
    intro purpose hp
    have hname := K.name_le
    rw [gyInfo, if_neg]
    · exact ⟨_, rfl⟩
    · simp only [infoMax]
      omega
  obtain ⟨prk, hprk⟩ := K.extract_ok (zeros desc.hashLen) (gySuiteF desc ++ parts.flatten)
  obtain ⟨info, hx⟩ := hinfo "x3dh" (by decide)
  obtain ⟨sk, hsk⟩ := K.expand_ok desc.hashLen prk info (by omega)
  have hone : ∀ purpose : String, purpose.length ≤ 10 →
      ∃ out, expandOne desc sk purpose = .ok out := by
    intro purpose hp
    obtain ⟨info', hx'⟩ := hinfo purpose hp
    obtain ⟨out, hout⟩ := K.expand_ok drKeyLen sk info' (by rw [drKeyLen]; omega)
    refine ⟨out, ?_⟩
    rw [expandOne, hx']
    exact hout
  obtain ⟨k1, h1⟩ := hone "dr.sk" (by decide)
  obtain ⟨k2, h2⟩ := hone "he.hka" (by decide)
  obtain ⟨k3, h3⟩ := hone "he.nhkb" (by decide)
  have hexp : expandSecrets desc sk = .ok ⟨k1, k2, k3⟩ := by
    rw [expandSecrets, h1, h2, h3]
    rfl
  refine ⟨sk, _, hexp, ?_⟩
  rw [deriveSecrets, hprk, hx]
  simp only [bind, Except.bind, hsk]
  exact hexp

/-- A classical wire prefix up to its last four octets, which hold the length of what follows. -/
def x3dhPrefix (desc : SuiteDesc β) (ikA ekA : PublicKey β) (ikId spkId opkId : UInt32) : Bytes β :=
  gyFramePut desc.suiteId ++ putPubkey desc ikA ++ putPubkey desc ekA ++ be32Put ikId ++
    be32Put spkId ++ be32Put opkId

/-- The size of the prefix of a classical initial message, up to the number of the message. -/
theorem length_x3dhPrefix {ikA ekA : PublicKey β} (hA : ikA.pk.length = desc.curvePkLen)
    (hE : ekA.pk.length = desc.curvePkLen) (ikId spkId opkId : UInt32) :
    (x3dhPrefix desc ikA ekA ikId spkId opkId).length + 4 = x3dhPrefixLen desc := by
  simp only [x3dhPrefix, x3dhPrefixLen, List.length_append, length_gyFramePut,
    length_putPubkey hA, length_putPubkey hE, length_be32Put]
  omega

/-- What the fields of a prefix read as. -/
structure PrefixFields (desc : SuiteDesc β) (ikA ekA : PublicKey β) (ikId spkId opkId : UInt32)
    (msg : Bytes β) : Prop where
  frame : gyFrameCheck msg desc.suiteId = .ok ()
  ik : parsePubkey desc (msg.drop 2) = ikA
  ek : parsePubkey desc (msg.drop (2 + pubkeyWire desc)) = ekA
  ikId : be32Get (msg.drop (2 + 2 * pubkeyWire desc)) = ikId
  spkId : be32Get (msg.drop (2 + 2 * pubkeyWire desc + 4)) = spkId
  opkId : be32Get (msg.drop (2 + 2 * pubkeyWire desc + 8)) = opkId

/-- The fields of a prefix are read back, whatever follows the prefix. -/
theorem prefixFields {ikA ekA : PublicKey β} (hA : ikA.pk.length = desc.curvePkLen)
    (hE : ekA.pk.length = desc.curvePkLen) (ikId spkId opkId : UInt32) (rest : Bytes β) :
    PrefixFields desc ikA ekA ikId spkId opkId
      (x3dhPrefix desc ikA ekA ikId spkId opkId ++ rest) := by
  have hlA := length_putPubkey hA
  have hlE := length_putPubkey hE
  have hmsg : (x3dhPrefix desc ikA ekA ikId spkId opkId ++ rest).drop 0 =
      gyFramePut desc.suiteId ++ (putPubkey desc ikA ++ (putPubkey desc ekA ++ (be32Put ikId ++
        (be32Put spkId ++ (be32Put opkId ++ rest))))) := by
    simp only [x3dhPrefix, List.append_assoc, List.drop_zero]
  -- each field is what stands after the one before it
  generalize x3dhPrefix desc ikA ekA ikId spkId opkId ++ rest = msg at hmsg ⊢
  have h1 : msg.drop 2 = _ := drop_next hmsg (by rw [length_gyFramePut])
  have h2 : msg.drop (2 + pubkeyWire desc) = _ := drop_next h1 (by rw [hlA])
  have h3 : msg.drop (2 + 2 * pubkeyWire desc) = _ := drop_next h2 (by rw [hlE]; omega)
  have h4 : msg.drop (2 + 2 * pubkeyWire desc + 4) = _ := drop_next h3 (by rw [length_be32Put])
  have h5 : msg.drop (2 + 2 * pubkeyWire desc + 8) = _ := drop_next h4 (by rw [length_be32Put])
  refine ⟨?_, ?_, ?_, ?_, ?_, ?_⟩
  · rw [List.drop_zero] at hmsg
    rw [hmsg, gyFrameCheck_gyFramePut]
  · rw [h1]
    exact parsePubkey_putPubkey hA _
  · rw [h2]
    exact parsePubkey_putPubkey hE _
  · rw [h3, be32Get_be32Put]
  · rw [h4, be32Get_be32Put]
  · rw [h5, be32Get_be32Put]

/-! ## Classical agreement -/

/-- The shared secret with the one-time prekey of a bundle, if it has one. -/
def OpkSecret (desc : SuiteDesc β) (sk : Bytes β) (opk : PublicKey β) (l : List (Bytes β)) : Prop :=
  if gyPkidIsPresent opk.pkid then ∃ s, desc.dh sk opk.pk = .ok s ∧ l = [s] else l = []

/-- What a classical initiator has computed when it succeeds. -/
structure InitiatedFrom (desc : SuiteDesc β) (ikA : CurvePair β) (bundle : PrekeyBundle β)
    (ekA : CurvePair β) (x : Initiated β) (s1 s2 s3 : Bytes β) (s4 : List (Bytes β)) : Prop where
  valid : gyBundleValidate desc bundle = .ok ()
  dh1 : desc.dh ikA.sk bundle.spk.pk = .ok s1
  dh2 : desc.dh ekA.sk bundle.ik.pk = .ok s2
  dh3 : desc.dh ekA.sk bundle.spk.pk = .ok s3
  dh4 : OpkSecret desc ekA.sk bundle.opk s4
  secrets : deriveSecrets desc ([s1, s2, s3] ++ s4) = .ok x.secrets
  ad : buildAd ikA.pub bundle.ik = .ok x.ad
  wire : x.wire = x3dhPrefix desc ikA.pub ekA.pub bundle.ik.pkid bundle.spk.pkid
    (if gyPkidIsPresent bundle.opk.pkid then bundle.opk.pkid else 0) ++ be32Put 0

/-- What a classical initiation that succeeds went through: the four shared secrets. -/
theorem gyX3dhInitiate_inv {ikA ekA : CurvePair β} {bundle : PrekeyBundle β} {x : Initiated β}
    (h : gyX3dhInitiate desc ikA bundle ekA = .ok x) :
    ∃ s1 s2 s3 s4, InitiatedFrom desc ikA bundle ekA x s1 s2 s3 s4 := by
  unfold gyX3dhInitiate at h
  obtain ⟨⟨⟩, hval, h⟩ := Except.bind_eq_ok_iff.mp h
  obtain ⟨s1, h1, h⟩ := Except.bind_eq_ok_iff.mp h
  obtain ⟨s2, h2, h⟩ := Except.bind_eq_ok_iff.mp h
  obtain ⟨s3, h3, h⟩ := Except.bind_eq_ok_iff.mp h
  by_cases hopk : gyPkidIsPresent bundle.opk.pkid
  · simp only [hopk, if_true] at h
    obtain ⟨s, h4, h⟩ := Except.bind_eq_ok_iff.mp h
    obtain ⟨-, ⟨⟩, h⟩ := Except.bind_eq_ok_iff.mp h
    obtain ⟨sec, hsec, h⟩ := Except.bind_eq_ok_iff.mp h
    obtain ⟨ad, had, h⟩ := Except.bind_eq_ok_iff.mp h
    obtain rfl := Except.ok.inj h
    refine ⟨s1, s2, s3, [s], hval, h1, h2, h3, ?_, hsec, had, ?_⟩
    · rw [OpkSecret, if_pos hopk]
      exact ⟨s, h4, rfl⟩
    · rw [if_pos hopk, x3dhPrefix]
  · simp only [hopk] at h
    obtain ⟨-, ⟨⟩, h⟩ := Except.bind_eq_ok_iff.mp h
    obtain ⟨sec, hsec, h⟩ := Except.bind_eq_ok_iff.mp h
    obtain ⟨ad, had, h⟩ := Except.bind_eq_ok_iff.mp h
    obtain rfl := Except.ok.inj h
    refine ⟨s1, s2, s3, [], hval, h1, h2, h3, ?_, hsec, had, ?_⟩
    · rw [OpkSecret, if_neg hopk]
    · rw [if_neg hopk, x3dhPrefix, if_neg Bool.false_ne_true]

/-- A responder holds the private keys of a bundle. The identifiers of its one-time prekeys are
distinct, as `gy_opk_batch` draws them. -/
structure X3dhLocal.For (loc : X3dhLocal β) (bundle : PrekeyBundle β) : Prop where
  ik : loc.ik.pub = bundle.ik
  spk : loc.spk.pub = bundle.spk
  opk : gyPkidIsPresent bundle.opk.pkid → ∃ k ∈ loc.opks, k.pub = bundle.opk
  distinct : (loc.opks.map fun k => k.pub.pkid).Nodup

/-- In a pool with distinct identifiers the lookup of a key's identifier finds the key. -/
theorem findOpk_of_mem {κ : Type} {pkidOf : κ → UInt32} {opks : List κ}
    (hnd : (opks.map pkidOf).Nodup) {k : κ} (hk : k ∈ opks) (hid : gyPkidIsPresent (pkidOf k)) :
    findOpk pkidOf opks (pkidOf k) = .ok (some k) := by
  obtain ⟨k', hfind⟩ : ∃ k', (opks.find? fun x => pkidOf x = pkidOf k) = some k' := by
    rw [← Option.isSome_iff_exists, List.find?_isSome]
    exact ⟨k, hk, by simp⟩
  have hsame : pkidOf k' = pkidOf k := by simpa using List.find?_some hfind
  have hmem : k' ∈ opks := List.mem_of_find?_eq_some hfind
  obtain rfl : k' = k := List.inj_on_of_nodup_map hnd hmem hk hsame
  rw [findOpk, if_pos hid, hfind]

/-- Diffie-Hellman commutes between the keys a handshake pairs up. -/
structure DhAgree (desc : SuiteDesc β) (ikA ekA : CurvePair β) (loc : X3dhLocal β) : Prop where
  dh1 : desc.dh ikA.sk loc.spk.pub.pk = desc.dh loc.spk.sk ikA.pub.pk
  dh2 : desc.dh ekA.sk loc.ik.pub.pk = desc.dh loc.ik.sk ekA.pub.pk
  dh3 : desc.dh ekA.sk loc.spk.pub.pk = desc.dh loc.spk.sk ekA.pub.pk
  dh4 : ∀ k ∈ loc.opks, desc.dh ekA.sk k.pub.pk = desc.dh k.sk ekA.pub.pk

/-- A responder that holds the private keys of a bundle derives from the prefix of an initiator, and
whatever follows it, the initiator's secrets and associated data. -/
theorem gyX3dhRespond_of_initiate {ikA ekA : CurvePair β} (hA : ikA.pub.Ok desc)
    (hE : ekA.pub.Ok desc) {bundle : PrekeyBundle β} {loc : X3dhLocal β} (hloc : loc.For bundle)
    (hdh : DhAgree desc ikA ekA loc) {x : Initiated β}
    (h : gyX3dhInitiate desc ikA bundle ekA = .ok x) {rest : Bytes β} (hrest : 4 ≤ rest.length) :
    gyX3dhRespond desc loc (x.wire.take (x.wire.length - 4) ++ rest) =
      .ok ⟨x.secrets, x.ad,
        if gyPkidIsPresent bundle.opk.pkid then some bundle.opk.pkid else none, 0⟩ := by
  obtain ⟨s1, s2, s3, s4, hx⟩ := gyX3dhInitiate_inv h
  generalize hid : (if gyPkidIsPresent bundle.opk.pkid then bundle.opk.pkid else 0) = opkId
    at hx
  have hwire := hx.wire
  rw [hid] at hwire
  have htake : x.wire.take (x.wire.length - 4) =
      x3dhPrefix desc ikA.pub ekA.pub bundle.ik.pkid bundle.spk.pkid opkId := by
    rw [hwire, List.length_append, length_be32Put, Nat.add_sub_cancel, List.take_left']
    rfl
  have hlen := length_x3dhPrefix hA.length hE.length bundle.ik.pkid bundle.spk.pkid opkId
  have hf := prefixFields hA.length hE.length bundle.ik.pkid bundle.spk.pkid opkId rest
  have hshort : ¬ (x3dhPrefix desc ikA.pub ekA.pub bundle.ik.pkid bundle.spk.pkid opkId ++
      rest).length < x3dhPrefixLen desc := by
    rw [List.length_append]
    omega
  rw [htake]
  generalize x3dhPrefix desc ikA.pub ekA.pub bundle.ik.pkid bundle.spk.pkid opkId ++ rest = msg
    at hf hshort ⊢
  have hpure : ∀ {α : Type} (x : α), (pure x : Except GyErr α) = .ok x := fun _ => rfl
  unfold gyX3dhRespond
  rw [hf.frame, Except.ok_bind, if_neg hshort]
  simp only [hf.ik, hf.ek, hf.ikId, hf.spkId, hf.opkId]
  rw [if_neg (by simp [hA.curveType, hE.curveType]), hA.pkid, Except.ok_bind, hE.pkid,
    Except.ok_bind, if_neg (by simp [hloc.ik]), if_neg (by simp [hloc.spk]), ← hdh.dh1, ← hdh.dh2,
    ← hdh.dh3, hloc.spk, hloc.ik, hx.dh1, hx.dh2, hx.dh3]
  have h4 := hx.dh4
  by_cases hopk : gyPkidIsPresent bundle.opk.pkid
  · rw [if_pos hopk] at hid ⊢
    rw [OpkSecret, if_pos hopk] at h4
    obtain ⟨s, h4, rfl⟩ := h4
    obtain ⟨k, hmem, hk⟩ := hloc.opk hopk
    have hfound : findOpk (fun k : CurvePair β => k.pub.pkid) loc.opks opkId = .ok (some k) := by
      rw [← hid, ← hk]
      exact findOpk_of_mem hloc.distinct hmem (by rw [hk]; exact hopk)
    have hk4 := hdh.dh4 k hmem
    rw [hk, h4] at hk4
    rw [hfound]
    simp only [Except.ok_bind, ← hk4, hpure, hx.secrets, hx.ad, Option.map_some, hid]
  · rw [if_neg hopk] at hid ⊢
    rw [OpkSecret, if_neg hopk] at h4
    subst h4
    have hnone : findOpk (fun k : CurvePair β => k.pub.pkid) loc.opks opkId = .ok none := by
      rw [← hid]
      rfl
    rw [hnone]
    simp only [Except.ok_bind, hpure, hx.secrets, hx.ad, Option.map_none]

/-! ## Hybrid agreement -/

/-- A hybrid identity of a suite with its right key identifier. -/
structure HybridIdentity.Ok (desc : SuiteDesc β) (k : HybridIdentity β) : Prop where
  curveType : k.base.curve.curveType = desc.curveType
  length : k.base.curve.pk.length = desc.curvePkLen
  length_ek : k.base.mlkemEk.length = desc.kemPkLen
  length_dsa : k.mldsaPk.length = desc.dsaPkLen
  pkid : hybridIkPkidMatches desc k = .ok ()

/-- The wire form of a hybrid identity. -/
def hybridIkBytes (k : HybridIdentity β) : Bytes β :=
  be32Put k.base.curve.pkid ++ Octet.ofByte k.base.curve.curveType :: k.base.curve.pk ++
    k.base.mlkemEk ++ k.mldsaPk

/-- A hybrid identity is written. -/
theorem putHybridIdentity_ok (hc : desc.CurveOk) {k : HybridIdentity β} (hk : k.Ok desc) :
    putHybridIdentity desc k = .ok (hybridIkBytes k) := by
  have henc := gyEncodeEc_ok hc hk.curveType hk.length
  rw [← hk.curveType] at henc
  have hek : k.base.mlkemEk.take desc.kemPkLen = k.base.mlkemEk :=
    List.take_of_length_le hk.length_ek.le
  have hdsa : k.mldsaPk.take desc.dsaPkLen = k.mldsaPk := List.take_of_length_le hk.length_dsa.le
  have hpure : ∀ {α : Type} (x : α), (pure x : Except GyErr α) = .ok x := fun _ => rfl
  simp only [putHybridIdentity, gyHybridEncodeIdentity, gyHybridEncodePub, henc, Except.ok_bind,
    hpure, hek, hdsa, hybridIkBytes, List.append_assoc, List.cons_append]

/-- The size of a hybrid identity. -/
theorem length_hybridIkBytes {k : HybridIdentity β} (hk : k.Ok desc) :
    (hybridIkBytes k).length = hybridIkWire desc := by
  simp only [hybridIkBytes, hybridIkWire, List.length_append, length_be32Put, List.length_cons,
    hk.length, hk.length_ek, hk.length_dsa]
  omega

/-- A hybrid identity is read back from its wire form, whatever follows it. -/
theorem parseHybridIdentity_bytes {k : HybridIdentity β} (hk : k.Ok desc) (rest : Bytes β) :
    parseHybridIdentity desc (hybridIkBytes k ++ rest) = k := by
  have hpk : k.base.curve.pk.take desc.curvePkLen = k.base.curve.pk :=
    List.take_of_length_le hk.length.le
  have hbytes : hybridIkBytes k ++ rest =
      putPubkey desc k.base.curve ++ (k.base.mlkemEk ++ (k.mldsaPk ++ rest)) := by
    simp only [hybridIkBytes, putPubkey, hpk, List.append_assoc, List.cons_append]
  have hput : (putPubkey desc k.base.curve).length = pubkeyWire desc := length_putPubkey hk.length
  have hek : ((hybridIkBytes k ++ rest).drop (5 + desc.curvePkLen)).take desc.kemPkLen =
      k.base.mlkemEk :=
    take_drop_field _ _ hbytes (by rw [hput, pubkeyWire]) hk.length_ek
  have hdsa : ((hybridIkBytes k ++ rest).drop (5 + desc.curvePkLen + desc.kemPkLen)).take
      desc.dsaPkLen = k.mldsaPk :=
    take_drop_field (putPubkey desc k.base.curve ++ k.base.mlkemEk) rest
      (by rw [hbytes, List.append_assoc])
      (by rw [List.length_append, hput, pubkeyWire, hk.length_ek]) hk.length_dsa
  rw [parseHybridIdentity, hek, hdsa, hbytes, parsePubkey_putPubkey hk.length]

/-- A hybrid wire prefix. -/
def hybridPrefix (desc : SuiteDesc β) (ikA : HybridIdentity β) (ekA : PublicKey β)
    (ctIk ctSpk ctOpk : Bytes β) (ikId spkId opkId flag : UInt32) : Bytes β :=
  gyFramePut desc.suiteId ++ hybridIkBytes ikA ++ putPubkey desc ekA ++ ctIk ++ ctSpk ++ ctOpk ++
    be32Put ikId ++ be32Put spkId ++ be32Put opkId ++ be32Put flag

/-- What the fields of a hybrid prefix read as. -/
structure HybridPrefixFields (desc : SuiteDesc β) (ikA : HybridIdentity β) (ekA : PublicKey β)
    (ctIk ctSpk ctOpk : Bytes β) (ikId spkId opkId flag : UInt32) (msg : Bytes β) : Prop where
  frame : gyFrameCheck msg desc.suiteId = .ok ()
  long : ¬ msg.length < hybridPrefixLen desc
  ik : parseHybridIdentity desc (msg.drop 2) = ikA
  ek : parsePubkey desc (msg.drop (2 + hybridIkWire desc)) = ekA
  ctIk : (msg.drop (2 + hybridIkWire desc + pubkeyWire desc)).take desc.kemCtLen = ctIk
  ctSpk : (msg.drop (2 + hybridIkWire desc + pubkeyWire desc + desc.kemCtLen)).take
    desc.kemCtLen = ctSpk
  ctOpk : (msg.drop (2 + hybridIkWire desc + pubkeyWire desc + 2 * desc.kemCtLen)).take
    desc.kemCtLen = ctOpk
  ikId : be32Get (msg.drop (2 + hybridIkWire desc + pubkeyWire desc + 3 * desc.kemCtLen)) = ikId
  spkId : be32Get (msg.drop (2 + hybridIkWire desc + pubkeyWire desc + 3 * desc.kemCtLen + 4)) =
    spkId
  opkId : be32Get (msg.drop (2 + hybridIkWire desc + pubkeyWire desc + 3 * desc.kemCtLen + 8)) =
    opkId
  flag : be32Get (msg.drop (2 + hybridIkWire desc + pubkeyWire desc + 3 * desc.kemCtLen + 12)) =
    flag

/-- The fields of a hybrid prefix are read back, whatever follows the prefix. -/
theorem hybridPrefixFields {ikA : HybridIdentity β} {ekA : PublicKey β} (hA : ikA.Ok desc)
    (hE : ekA.pk.length = desc.curvePkLen) {ctIk ctSpk ctOpk : Bytes β}
    (hct1 : ctIk.length = desc.kemCtLen) (hct2 : ctSpk.length = desc.kemCtLen)
    (hct3 : ctOpk.length = desc.kemCtLen) (ikId spkId opkId flag : UInt32) (rest : Bytes β) :
    HybridPrefixFields desc ikA ekA ctIk ctSpk ctOpk ikId spkId opkId flag
      (hybridPrefix desc ikA ekA ctIk ctSpk ctOpk ikId spkId opkId flag ++ rest) := by
  have hlA := length_hybridIkBytes hA
  have hlE := length_putPubkey hE
  have hmsg : (hybridPrefix desc ikA ekA ctIk ctSpk ctOpk ikId spkId opkId flag ++ rest).drop 0 =
      gyFramePut desc.suiteId ++ (hybridIkBytes ikA ++ (putPubkey desc ekA ++ (ctIk ++ (ctSpk ++
        (ctOpk ++ (be32Put ikId ++ (be32Put spkId ++ (be32Put opkId ++ (be32Put flag ++
          rest))))))))) := by
    simp only [hybridPrefix, List.append_assoc, List.drop_zero]
  have hlen : (hybridPrefix desc ikA ekA ctIk ctSpk ctOpk ikId spkId opkId flag ++ rest).length =
      hybridPrefixLen desc + rest.length := by
    simp only [hybridPrefix, List.length_append, length_gyFramePut, hlA, hlE, hct1, hct2, hct3,
      length_be32Put, hybridPrefixLen]
    omega
  -- each field is what stands after the one before it
  generalize hybridPrefix desc ikA ekA ctIk ctSpk ctOpk ikId spkId opkId flag ++ rest = msg
    at hmsg hlen ⊢
  have h1 : msg.drop 2 = _ := drop_next hmsg (by rw [length_gyFramePut])
  have h2 : msg.drop (2 + hybridIkWire desc) = _ := drop_next h1 (by rw [hlA])
  have h3 : msg.drop (2 + hybridIkWire desc + pubkeyWire desc) = _ := drop_next h2 (by rw [hlE])
  have h4 : msg.drop (2 + hybridIkWire desc + pubkeyWire desc + desc.kemCtLen) = _ :=
    drop_next h3 (by rw [hct1])
  have h5 : msg.drop (2 + hybridIkWire desc + pubkeyWire desc + 2 * desc.kemCtLen) = _ :=
    drop_next h4 (by rw [hct2]; omega)
  have h6 : msg.drop (2 + hybridIkWire desc + pubkeyWire desc + 3 * desc.kemCtLen) = _ :=
    drop_next h5 (by rw [hct3]; omega)
  have h7 : msg.drop (2 + hybridIkWire desc + pubkeyWire desc + 3 * desc.kemCtLen + 4) = _ :=
    drop_next h6 (by rw [length_be32Put])
  have h8 : msg.drop (2 + hybridIkWire desc + pubkeyWire desc + 3 * desc.kemCtLen + 8) = _ :=
    drop_next h7 (by rw [length_be32Put])
  have h9 : msg.drop (2 + hybridIkWire desc + pubkeyWire desc + 3 * desc.kemCtLen + 12) = _ :=
    drop_next h8 (by rw [length_be32Put])
  refine ⟨?_, ?_, ?_, ?_, ?_, ?_, ?_, ?_, ?_, ?_, ?_⟩
  · rw [List.drop_zero] at hmsg
    rw [hmsg, gyFrameCheck_gyFramePut]
  · rw [hlen]
    omega
  · rw [h1]
    exact parseHybridIdentity_bytes hA _
  · rw [h2]
    exact parsePubkey_putPubkey hE _
  · rw [h3, ← hct1, List.take_left]
  · rw [h4, ← hct2, List.take_left]
  · rw [h5, ← hct3, List.take_left]
  · rw [h6, be32Get_be32Put]
  · rw [h7, be32Get_be32Put]
  · rw [h8, be32Get_be32Put]
  · rw [h9, be32Get_be32Put]

/-- The encapsulation to the one-time prekey of a bundle, if it has one. -/
def OpkEncap (desc : SuiteDesc β) (opk : HybridPublicKey β) (coins ct ss : Bytes β) : Prop :=
  if gyPkidIsPresent opk.curve.pkid then desc.kemEncap opk.mlkemEk coins = .ok (ct, ss)
  else ct = zeros desc.kemCtLen ∧ ss = []

/-- The secrets a hybrid handshake shares: the three encapsulated ones, then the four curve ones. -/
structure HybridShares (β : Type) where
  ssIk : Bytes β
  ssSpk : Bytes β
  ssOpk : Bytes β
  s1 : Bytes β
  s2 : Bytes β
  s3 : Bytes β
  s4 : List (Bytes β)

/-- The ratchet's secrets from the secrets a hybrid handshake shares. -/
def HybridShares.derive (desc : SuiteDesc β) (z : HybridShares β) : Except GyErr (DrSecrets β) := do
  let h1 ← hybridCombine desc z.ssSpk z.s1
  let h2 ← hybridCombine desc z.ssIk z.s2
  let h3 ← hybridCombine desc z.ssSpk z.s3
  let h4 ← z.s4.mapM (hybridCombine desc z.ssOpk)
  deriveSecrets desc ([h1, h2, h3] ++ h4)

/-- What a hybrid initiator has computed when it succeeds. -/
structure HybridInitiatedFrom (desc : SuiteDesc β) (ikA : HybridIdentityPair β)
    (bundle : HybridPrekeyBundle β) (ekA : CurvePair β) (flag : UInt32) (coins : HandshakeCoins β)
    (x : Initiated β) (ctIk ctSpk ctOpk : Bytes β) (z : HybridShares β) : Prop where
  isHybrid : desc.isHybrid = true
  valid : gyHybridBundleValidate desc bundle = .ok ()
  flagOk : hybridFlagCheck flag bundle.spkFlags = .ok ()
  kemIk : desc.kemEncap bundle.ik.base.mlkemEk coins.ik = .ok (ctIk, z.ssIk)
  kemSpk : desc.kemEncap bundle.spk.mlkemEk coins.spk = .ok (ctSpk, z.ssSpk)
  kemOpk : OpkEncap desc bundle.opk coins.opk ctOpk z.ssOpk
  dh1 : desc.dh ikA.curveSk bundle.spk.curve.pk = .ok z.s1
  dh2 : desc.dh ekA.sk bundle.ik.base.curve.pk = .ok z.s2
  dh3 : desc.dh ekA.sk bundle.spk.curve.pk = .ok z.s3
  dh4 : OpkSecret desc ekA.sk bundle.opk.curve z.s4
  secrets : z.derive desc = .ok x.secrets
  ad : hybridBuildAd desc ikA.pub bundle.ik flag = .ok x.ad
  wire : ∃ ik, putHybridIdentity desc ikA.pub = .ok ik ∧ x.wire = gyFramePut desc.suiteId ++ ik ++
    putPubkey desc ekA.pub ++ ctIk ++ ctSpk ++ ctOpk ++ be32Put bundle.ik.base.curve.pkid ++
    be32Put bundle.spk.curve.pkid ++
    be32Put (if gyPkidIsPresent bundle.opk.curve.pkid then bundle.opk.curve.pkid else 0) ++
    be32Put flag

/-- What a hybrid initiation that succeeds went through: its ciphertexts and the shared secret. -/
theorem gyHybridX3dhInitiate_inv {ikA : HybridIdentityPair β} {ekA : CurvePair β}
    {bundle : HybridPrekeyBundle β} {flag : UInt32} {coins : HandshakeCoins β} {x : Initiated β}
    (h : gyHybridX3dhInitiate desc ikA bundle ekA flag coins = .ok x) :
    ∃ ctIk ctSpk ctOpk z,
      HybridInitiatedFrom desc ikA bundle ekA flag coins x ctIk ctSpk ctOpk z := by
  unfold gyHybridX3dhInitiate at h
  cases hyb : desc.isHybrid with
  | false =>
    rw [hyb] at h
    cases h
  | true =>
    rw [hyb] at h
    simp only [Bool.not_true, Bool.false_eq_true, if_false] at h
    obtain ⟨⟨⟩, hval, h⟩ := Except.bind_eq_ok_iff.mp h
    obtain ⟨⟨⟩, hflag, h⟩ := Except.bind_eq_ok_iff.mp h
    obtain ⟨⟨ctIk, ssIk⟩, hkIk, h⟩ := Except.bind_eq_ok_iff.mp h
    obtain ⟨⟨ctSpk, ssSpk⟩, hkSpk, h⟩ := Except.bind_eq_ok_iff.mp h
    by_cases hopk : gyPkidIsPresent bundle.opk.curve.pkid
    · simp only [hopk, if_true] at h
      obtain ⟨⟨ctOpk, ssOpk⟩, hkOpk, h⟩ := Except.bind_eq_ok_iff.mp h
      obtain ⟨s1, h1, h⟩ := Except.bind_eq_ok_iff.mp h
      obtain ⟨s2, h2, h⟩ := Except.bind_eq_ok_iff.mp h
      obtain ⟨s3, h3, h⟩ := Except.bind_eq_ok_iff.mp h
      obtain ⟨s, h4, h⟩ := Except.bind_eq_ok_iff.mp h
      rw [show (pure [s] : Except GyErr (List (Bytes β))) = .ok [s] from rfl, Except.ok_bind] at h
      obtain ⟨k1, hc1, h⟩ := Except.bind_eq_ok_iff.mp h
      obtain ⟨k2, hc2, h⟩ := Except.bind_eq_ok_iff.mp h
      obtain ⟨k3, hc3, h⟩ := Except.bind_eq_ok_iff.mp h
      obtain ⟨k4, hc4, h⟩ := Except.bind_eq_ok_iff.mp h
      obtain ⟨sec, hsec, h⟩ := Except.bind_eq_ok_iff.mp h
      obtain ⟨ad, had, h⟩ := Except.bind_eq_ok_iff.mp h
      obtain ⟨ik, hik, h⟩ := Except.bind_eq_ok_iff.mp h
      obtain rfl := Except.ok.inj h
      refine ⟨ctIk, ctSpk, ctOpk, ⟨ssIk, ssSpk, ssOpk, s1, s2, s3, [s]⟩, hyb, hval, hflag, hkIk,
        hkSpk, ?_, h1, h2, h3, ?_, ?_, had, ik, hik, ?_⟩
      · rw [OpkEncap, if_pos hopk]
        exact hkOpk
      · rw [OpkSecret, if_pos hopk]
        exact ⟨s, h4, rfl⟩
      · simp only [HybridShares.derive, hc1, hc2, hc3, hc4, Except.ok_bind, hsec]
      · rw [if_pos hopk]
    · simp only [hopk] at h
      rw [show (pure (zeros desc.kemCtLen, []) : Except GyErr (Bytes β × Bytes β)) =
        .ok (zeros desc.kemCtLen, []) from rfl] at h
      rw [show (pure [] : Except GyErr (List (Bytes β))) = .ok [] from rfl] at h
      simp only [Bool.false_eq_true, if_false, Except.ok_bind] at h
      obtain ⟨s1, h1, h⟩ := Except.bind_eq_ok_iff.mp h
      obtain ⟨s2, h2, h⟩ := Except.bind_eq_ok_iff.mp h
      obtain ⟨s3, h3, h⟩ := Except.bind_eq_ok_iff.mp h
      obtain ⟨k1, hc1, h⟩ := Except.bind_eq_ok_iff.mp h
      obtain ⟨k2, hc2, h⟩ := Except.bind_eq_ok_iff.mp h
      obtain ⟨k3, hc3, h⟩ := Except.bind_eq_ok_iff.mp h
      obtain ⟨k4, hc4, h⟩ := Except.bind_eq_ok_iff.mp h
      obtain ⟨sec, hsec, h⟩ := Except.bind_eq_ok_iff.mp h
      obtain ⟨ad, had, h⟩ := Except.bind_eq_ok_iff.mp h
      obtain ⟨ik, hik, h⟩ := Except.bind_eq_ok_iff.mp h
      obtain rfl := Except.ok.inj h
      refine ⟨ctIk, ctSpk, zeros desc.kemCtLen, ⟨ssIk, ssSpk, [], s1, s2, s3, []⟩, hyb, hval, hflag,
        hkIk, hkSpk, ?_, h1, h2, h3, ?_, ?_, had, ik, hik, ?_⟩
      · rw [OpkEncap, if_neg hopk]
        exact ⟨rfl, rfl⟩
      · rw [OpkSecret, if_neg hopk]
      · simp only [HybridShares.derive, hc1, hc2, hc3, hc4, Except.ok_bind, hsec]
      · rw [if_neg hopk]

/-- A responder holds the private keys of a hybrid bundle. -/
structure HybridX3dhLocal.For (loc : HybridX3dhLocal β) (bundle : HybridPrekeyBundle β) : Prop where
  ik : loc.ik.pub = bundle.ik
  spk : loc.spk.pub = bundle.spk
  flags : loc.spkFlags = bundle.spkFlags
  opk : gyPkidIsPresent bundle.opk.curve.pkid → ∃ k ∈ loc.opks, k.pub = bundle.opk
  distinct : (loc.opks.map fun k => k.pub.curve.pkid).Nodup

/-- Diffie-Hellman commutes between the keys a hybrid handshake pairs up. -/
structure HybridDhAgree (desc : SuiteDesc β) (ikA : HybridIdentityPair β) (ekA : CurvePair β)
    (loc : HybridX3dhLocal β) : Prop where
  dh1 : desc.dh ikA.curveSk loc.spk.pub.curve.pk = desc.dh loc.spk.curveSk ikA.pub.base.curve.pk
  dh2 : desc.dh ekA.sk loc.ik.pub.base.curve.pk = desc.dh loc.ik.curveSk ekA.pub.pk
  dh3 : desc.dh ekA.sk loc.spk.pub.curve.pk = desc.dh loc.spk.curveSk ekA.pub.pk
  dh4 : ∀ k ∈ loc.opks, desc.dh ekA.sk k.pub.curve.pk = desc.dh k.curveSk ekA.pub.pk

/-- A KEM pair decapsulates what is encapsulated to it, into a ciphertext of the suite's length. -/
def KemCorrect (desc : SuiteDesc β) (ek dk : Bytes β) : Prop :=
  ∀ {coins ct ss}, desc.kemEncap ek coins = .ok (ct, ss) →
    ct.length = desc.kemCtLen ∧ desc.kemDecap ct dk = .ok ss

/-- The KEM is correct for the pairs of a responder. -/
structure KemAgree (desc : SuiteDesc β) (loc : HybridX3dhLocal β) : Prop where
  ik : KemCorrect desc loc.ik.pub.base.mlkemEk loc.ik.mlkemDk
  spk : KemCorrect desc loc.spk.pub.mlkemEk loc.spk.mlkemDk
  opk : ∀ k ∈ loc.opks, KemCorrect desc k.pub.mlkemEk k.mlkemDk

/-- A responder that holds the private keys of a hybrid bundle derives from the prefix of an
initiator, and whatever follows it, the initiator's secrets, associated data and flag word. -/
theorem gyHybridX3dhRespond_of_initiate (hc : desc.CurveOk) {ikA : HybridIdentityPair β}
    {ekA : CurvePair β} (hA : ikA.pub.Ok desc) (hE : ekA.pub.Ok desc)
    {bundle : HybridPrekeyBundle β} {loc : HybridX3dhLocal β} (hloc : loc.For bundle)
    (hdh : HybridDhAgree desc ikA ekA loc) (hkem : KemAgree desc loc) {flag : UInt32}
    {coins : HandshakeCoins β} {x : Initiated β}
    (h : gyHybridX3dhInitiate desc ikA bundle ekA flag coins = .ok x) (rest : Bytes β) :
    gyHybridX3dhRespond desc loc (x.wire ++ rest) =
      .ok ⟨x.secrets, x.ad,
        if gyPkidIsPresent bundle.opk.curve.pkid then some bundle.opk.curve.pkid else none,
        flag⟩ := by
  obtain ⟨ctIk, ctSpk, ctOpk, z, hx⟩ := gyHybridX3dhInitiate_inv h
  obtain ⟨ik, hik, hwire⟩ := hx.wire
  obtain rfl : hybridIkBytes ikA.pub = ik :=
    Except.ok.inj ((putHybridIdentity_ok hc hA).symm.trans hik)
  generalize hid : (if gyPkidIsPresent bundle.opk.curve.pkid then bundle.opk.curve.pkid else 0) =
    opkId at hwire
  have hkIk := hkem.ik (by rw [hloc.ik]; exact hx.kemIk)
  have hkSpk := hkem.spk (by rw [hloc.spk]; exact hx.kemSpk)
  have hctOpk : ctOpk.length = desc.kemCtLen := by
    have hopk := hx.kemOpk
    rw [OpkEncap] at hopk
    split at hopk
    · next hp =>
      obtain ⟨k, hmem, hk⟩ := hloc.opk hp
      exact (hkem.opk k hmem (by rw [hk]; exact hopk)).1
    · rw [hopk.1, length_zeros]
  have hf := hybridPrefixFields hA hE.length hkIk.1 hkSpk.1 hctOpk bundle.ik.base.curve.pkid
    bundle.spk.curve.pkid opkId flag rest
  rw [show x.wire = hybridPrefix desc ikA.pub ekA.pub ctIk ctSpk ctOpk bundle.ik.base.curve.pkid
    bundle.spk.curve.pkid opkId flag from hwire]
  generalize hybridPrefix desc ikA.pub ekA.pub ctIk ctSpk ctOpk bundle.ik.base.curve.pkid
    bundle.spk.curve.pkid opkId flag ++ rest = msg at hf ⊢
  have hpure : ∀ {α : Type} (x : α), (pure x : Except GyErr α) = .ok x := fun _ => rfl
  have hyb : ¬ (!desc.isHybrid) = true := by simp [hx.isHybrid]
  unfold gyHybridX3dhRespond
  rw [if_neg hyb, hf.frame, Except.ok_bind, if_neg hf.long]
  simp only [hf.ik, hf.ek, hf.ctIk, hf.ctSpk, hf.ctOpk, hf.ikId, hf.spkId, hf.opkId, hf.flag]
  rw [if_neg (by simp [hA.curveType, hE.curveType]), hA.pkid, Except.ok_bind, hE.pkid,
    Except.ok_bind, if_neg (by simp [hloc.ik]), if_neg (by simp [hloc.spk]), hloc.flags, hx.flagOk,
    hkIk.2, hkSpk.2, ← hdh.dh1, ← hdh.dh2, ← hdh.dh3, hloc.spk, hloc.ik, hx.dh1, hx.dh2, hx.dh3]
  have hsec := hx.secrets
  rw [HybridShares.derive] at hsec
  obtain ⟨k1, hc1, hsec⟩ := Except.bind_eq_ok_iff.mp hsec
  obtain ⟨k2, hc2, hsec⟩ := Except.bind_eq_ok_iff.mp hsec
  obtain ⟨k3, hc3, hsec⟩ := Except.bind_eq_ok_iff.mp hsec
  obtain ⟨k4, hc4, hsec⟩ := Except.bind_eq_ok_iff.mp hsec
  have h4 := hx.dh4
  have hopkct := hx.kemOpk
  by_cases hopk : gyPkidIsPresent bundle.opk.curve.pkid
  · rw [if_pos hopk] at hid ⊢
    rw [OpkSecret, if_pos hopk] at h4
    rw [OpkEncap, if_pos hopk] at hopkct
    obtain ⟨s, h4, hs4⟩ := h4
    obtain ⟨k, hmem, hk⟩ := hloc.opk hopk
    have hfound : findOpk (fun k : HybridPair β => k.pub.curve.pkid) loc.opks opkId =
        .ok (some k) := by
      rw [← hid, ← hk]
      exact findOpk_of_mem hloc.distinct hmem (by rw [hk]; exact hopk)
    have hk4 := hdh.dh4 k hmem
    rw [hk, h4] at hk4
    have hkOpk := (hkem.opk k hmem (by rw [hk]; exact hopkct)).2
    rw [hfound]
    rw [hs4] at hc4
    simp only [Except.ok_bind, ← hk4, hkOpk, hpure, hc1, hc2, hc3, hc4, hsec, hx.ad,
      Option.map_some, hid]
  · rw [if_neg hopk] at hid ⊢
    rw [OpkSecret, if_neg hopk] at h4
    rw [OpkEncap, if_neg hopk] at hopkct
    rw [h4, hopkct.2] at hc4
    have hnone : findOpk (fun k : HybridPair β => k.pub.curve.pkid) loc.opks opkId = .ok none := by
      rw [← hid]
      rfl
    rw [hnone]
    simp only [Except.ok_bind, hpure, hc1, hc2, hc3, hc4, hsec, hx.ad, Option.map_none]

/-! ## Agreement between genuine keys -/

/-- The keys of a responder are genuine pairs of an ideal suite. -/
structure X3dhLocal.Genuine (K : KexSuite desc) (loc : X3dhLocal β) : Prop where
  ik : K.genuine loc.ik.keypair
  spk : K.genuine loc.spk.keypair
  opk : ∀ k ∈ loc.opks, K.genuine k.keypair

omit [Octet β] in
/-- Genuine keys agree on every shared secret of a handshake. -/
theorem X3dhLocal.Genuine.dhAgree {K : KexSuite desc} {loc : X3dhLocal β} (h : loc.Genuine K)
    {ikA ekA : CurvePair β} (hA : K.genuine ikA.keypair) (hE : K.genuine ekA.keypair) :
    DhAgree desc ikA ekA loc := by
  have hsame : ∀ {a b : CurvePair β}, K.genuine a.keypair → K.genuine b.keypair →
      desc.dh a.sk b.pub.pk = desc.dh b.sk a.pub.pk := by
    intro a b ha hb
    obtain ⟨s, h1, h2⟩ := K.dh_comm ha hb
    exact h1.trans h2.symm
  exact ⟨hsame hA h.spk, hsame hE h.ik, hsame hE h.spk, fun k hk => hsame hE (h.opk k hk)⟩

/-- The identity key of a bundle that is accepted is of the curve of the suite. -/
theorem curveType_of_gyBundleValidate {b : PrekeyBundle β}
    (h : gyBundleValidate desc b = .ok ()) : b.ik.curveType = desc.curveType := by
  by_contra hne
  rw [gyBundleValidate, if_pos hne] at h
  cases h

/-- The associated data of two keys of the suite is built. -/
theorem buildAd_ok (hc : desc.CurveOk) {a b : PublicKey β} (ha : a.curveType = desc.curveType)
    (hla : a.pk.length = desc.curvePkLen) (hb : b.curveType = desc.curveType)
    (hlb : b.pk.length = desc.curvePkLen) : ∃ ad, buildAd a b = .ok ad := by
  rw [buildAd, gyEncodeEc_ok hc ha hla, gyEncodeEc_ok hc hb hlb]
  exact ⟨_, rfl⟩

/-- An initiator with genuine keys completes the handshake with every bundle that verifies and whose
private keys some responder holds. -/
theorem gyX3dhInitiate_ok (K : KexSuite desc) (hc : desc.CurveOk) {ikA ekA : CurvePair β}
    (hA : ikA.pub.Ok desc) (hgA : K.genuine ikA.keypair) (hgE : K.genuine ekA.keypair)
    {bundle : PrekeyBundle β} (hval : gyBundleValidate desc bundle = .ok ()) {loc : X3dhLocal β}
    (hloc : loc.For bundle) (hg : loc.Genuine K) :
    ∃ x, gyX3dhInitiate desc ikA bundle ekA = .ok x := by
  obtain ⟨s1, h1, -⟩ := K.dh_comm hgA hg.spk
  obtain ⟨s2, h2, -⟩ := K.dh_comm hgE hg.ik
  obtain ⟨s3, h3, -⟩ := K.dh_comm hgE hg.spk
  have h1 : desc.dh ikA.sk bundle.spk.pk = .ok s1 := by
    rw [← hloc.spk]
    exact h1
  have h2 : desc.dh ekA.sk bundle.ik.pk = .ok s2 := by
    rw [← hloc.ik]
    exact h2
  have h3 : desc.dh ekA.sk bundle.spk.pk = .ok s3 := by
    rw [← hloc.spk]
    exact h3
  have hlen : bundle.ik.pk.length = desc.curvePkLen := by
    rw [← hloc.ik]
    exact K.genuine_pk hg.ik
  obtain ⟨ad, had⟩ := buildAd_ok hc hA.curveType hA.length (curveType_of_gyBundleValidate hval) hlen
  have hpure : ∀ {α : Type} (x : α), (pure x : Except GyErr α) = .ok x := fun _ => rfl
  unfold gyX3dhInitiate
  rw [hval, Except.ok_bind, h1, Except.ok_bind, h2, Except.ok_bind, h3, Except.ok_bind]
  by_cases hopk : gyPkidIsPresent bundle.opk.pkid
  · obtain ⟨k, hmem, hk⟩ := hloc.opk hopk
    obtain ⟨s4, h4, -⟩ := K.dh_comm hgE (hg.opk k hmem)
    have h4 : desc.dh ekA.sk bundle.opk.pk = .ok s4 := by
      rw [← hk]
      exact h4
    obtain ⟨-, sec, -, hsec⟩ := K.deriveSecrets_ok ([s1, s2, s3] ++ [s4])
    simp only [if_pos hopk, h4, Except.ok_bind, hpure, hsec, had]
    exact ⟨_, rfl⟩
  · obtain ⟨-, sec, -, hsec⟩ := K.deriveSecrets_ok ([s1, s2, s3] ++ [])
    simp only [if_neg hopk, Except.ok_bind, hpure, hsec, had]
    exact ⟨_, rfl⟩

/-- The keys of a hybrid responder are genuine pairs of an ideal suite. -/
structure HybridX3dhLocal.Genuine (K : KexSuite desc) (loc : HybridX3dhLocal β) : Prop where
  ik : K.genuine ⟨loc.ik.pub.base.curve.pk, loc.ik.curveSk⟩
  ikKem : K.genuineKem loc.ik.pub.base.mlkemEk loc.ik.mlkemDk
  spk : K.genuine loc.spk.keypair.curve
  spkKem : K.genuineKem loc.spk.pub.mlkemEk loc.spk.mlkemDk
  opk : ∀ k ∈ loc.opks, K.genuine k.keypair.curve ∧ K.genuineKem k.pub.mlkemEk k.mlkemDk

omit [Octet β] in
/-- Genuine keys agree on the curve. -/
theorem HybridX3dhLocal.Genuine.dhAgree {K : KexSuite desc} {loc : HybridX3dhLocal β}
    (h : loc.Genuine K) {ikA : HybridIdentityPair β} {ekA : CurvePair β}
    (hA : K.genuine ⟨ikA.pub.base.curve.pk, ikA.curveSk⟩) (hE : K.genuine ekA.keypair) :
    HybridDhAgree desc ikA ekA loc := by
  have hsame : ∀ {a b : Keypair β}, K.genuine a → K.genuine b →
      desc.dh a.sk b.pk = desc.dh b.sk a.pk := by
    intro a b ha hb
    obtain ⟨s, h1, h2⟩ := K.dh_comm ha hb
    exact h1.trans h2.symm
  exact ⟨hsame hA h.spk, hsame hE h.ik, hsame hE h.spk, fun k hk => hsame hE (h.opk k hk).1⟩

omit [Octet β] in
/-- Genuine encapsulation keys decapsulate what was encapsulated. -/
theorem KexSuite.kemCorrect (K : KexSuite desc) {ek dk : Bytes β} (h : K.genuineKem ek dk) :
    KemCorrect desc ek dk := by
  intro coins ct ss henc
  obtain ⟨ct', ss', henc', hlen, hdec⟩ := K.kem_correct h coins
  obtain ⟨rfl, rfl⟩ := Prod.mk.inj (Except.ok.inj (henc.symm.trans henc'))
  exact ⟨hlen, hdec⟩

omit [Octet β] in
/-- So the responder's keys decapsulate all three ciphertexts. -/
theorem HybridX3dhLocal.Genuine.kemAgree {K : KexSuite desc} {loc : HybridX3dhLocal β}
    (h : loc.Genuine K) : KemAgree desc loc :=
  ⟨K.kemCorrect h.ikKem, K.kemCorrect h.spkKem, fun k hk => K.kemCorrect (h.opk k hk).2⟩

/-- What a verified hybrid bundle is known to be. -/
theorem gyHybridBundleValidate_inv {b : HybridPrekeyBundle β}
    (h : gyHybridBundleValidate desc b = .ok ()) :
    desc.isHybrid = true ∧ b.ik.base.curve.curveType = desc.curveType ∧
      gyHybridFlagsValidate b.spkFlags = .ok () := by
  unfold gyHybridBundleValidate at h
  split at h
  · cases h
  next hyb =>
  split at h
  · cases h
  next hik =>
  split at h
  · cases h
  split at h
  · cases h
  obtain ⟨enc, -, h⟩ := Except.bind_eq_ok_iff.mp h
  obtain ⟨⟨⟩, -, h⟩ := Except.bind_eq_ok_iff.mp h
  obtain ⟨enc', -, h⟩ := Except.bind_eq_ok_iff.mp h
  obtain ⟨⟨⟩, -, h⟩ := Except.bind_eq_ok_iff.mp h
  refine ⟨by simpa using hyb, not_not.mp hik, ?_⟩
  by_cases hid : b.spkIkId ≠ b.ik.base.curve.pkid
  · rw [if_pos hid] at h
    cases h
  rw [if_neg hid] at h
  by_cases hopk : gyPkidIsPresent b.opk.curve.pkid
  · rw [if_pos hopk] at h
    obtain ⟨enc'', -, h⟩ := Except.bind_eq_ok_iff.mp h
    obtain ⟨⟨⟩, -, h⟩ := Except.bind_eq_ok_iff.mp h
    obtain ⟨⟨⟩, hflags, -⟩ := Except.bind_eq_ok_iff.mp h
    exact hflags
  · rw [if_neg hopk] at h
    obtain ⟨⟨⟩, hflags, -⟩ := Except.bind_eq_ok_iff.mp h
    exact hflags

/-- The hash of a hybrid identity is computed. -/
theorem gyHybridIkhash_ok (K : KexSuite desc) (hc : desc.CurveOk) {k : HybridIdentity β}
    (hk : k.base.curve.curveType = desc.curveType)
    (hlen : k.base.curve.pk.length = desc.curvePkLen) : ∃ h, gyHybridIkhash desc k = .ok h := by
  obtain ⟨h, hh⟩ := K.hash_ok (Octet.ofByte desc.curveType :: k.base.curve.pk ++
    k.base.mlkemEk.take desc.kemPkLen ++ k.mldsaPk.take desc.dsaPkLen)
  refine ⟨h, ?_⟩
  rw [gyHybridIkhash, gyHybridEncodeIdentity, gyHybridEncodePub, gyEncodeEc_ok hc hk hlen]
  exact hh

/-- And the associated data of two of them is built. -/
theorem hybridBuildAd_ok (K : KexSuite desc) (hc : desc.CurveOk) {a b : HybridIdentity β}
    (ha : a.base.curve.curveType = desc.curveType)
    (hla : a.base.curve.pk.length = desc.curvePkLen)
    (hb : b.base.curve.curveType = desc.curveType)
    (hlb : b.base.curve.pk.length = desc.curvePkLen) (flag : UInt32) :
    ∃ ad, hybridBuildAd desc a b flag = .ok ad := by
  obtain ⟨h1, hh1⟩ := gyHybridIkhash_ok K hc ha hla
  obtain ⟨h2, hh2⟩ := gyHybridIkhash_ok K hc hb hlb
  rw [hybridBuildAd, hh1, hh2]
  exact ⟨_, rfl⟩

/-- The derivation of the ratchet's secrets from a hybrid handshake is total. -/
theorem HybridShares.derive_ok (K : KexSuite desc) (z : HybridShares β) :
    ∃ sec, z.derive desc = .ok sec := by
  have hcomb : ∀ a b, ∃ k, hybridCombine desc a b = .ok k := fun a b => K.hash_ok _
  obtain ⟨k1, h1⟩ := hcomb z.ssSpk z.s1
  obtain ⟨k2, h2⟩ := hcomb z.ssIk z.s2
  obtain ⟨k3, h3⟩ := hcomb z.ssSpk z.s3
  obtain ⟨k4, h4⟩ : ∃ k4, z.s4.mapM (hybridCombine desc z.ssOpk) = .ok k4 := by
    generalize z.s4 = l
    induction l with
    | nil => exact ⟨[], rfl⟩
    | cons s l ih =>
      obtain ⟨k, hk⟩ := hcomb z.ssOpk s
      obtain ⟨ks, hks⟩ := ih
      refine ⟨k :: ks, ?_⟩
      rw [List.mapM_cons, hk, hks]
      rfl
  obtain ⟨-, sec, -, hsec⟩ := K.deriveSecrets_ok ([k1, k2, k3] ++ k4)
  refine ⟨sec, ?_⟩
  rw [HybridShares.derive, h1, h2, h3, h4]
  exact hsec

/-- An initiator with genuine keys completes the handshake with every hybrid bundle that verifies
and whose private keys some responder holds, under every flag word that fits the bundle. -/
theorem gyHybridX3dhInitiate_ok (K : KexSuite desc) (hc : desc.CurveOk)
    {ikA : HybridIdentityPair β} {ekA : CurvePair β} (hA : ikA.pub.Ok desc)
    (hgA : K.genuine ⟨ikA.pub.base.curve.pk, ikA.curveSk⟩) (hgE : K.genuine ekA.keypair)
    {bundle : HybridPrekeyBundle β} (hval : gyHybridBundleValidate desc bundle = .ok ())
    {loc : HybridX3dhLocal β} (hloc : loc.For bundle) (hg : loc.Genuine K) {flag : UInt32}
    (hflag : hybridFlagCheck flag bundle.spkFlags = .ok ()) (coins : HandshakeCoins β) :
    ∃ x, gyHybridX3dhInitiate desc ikA bundle ekA flag coins = .ok x := by
  obtain ⟨hyb, htype, -⟩ := gyHybridBundleValidate_inv hval
  obtain ⟨s1, h1, -⟩ := K.dh_comm hgA hg.spk
  obtain ⟨s2, h2, -⟩ := K.dh_comm hgE hg.ik
  obtain ⟨s3, h3, -⟩ := K.dh_comm hgE hg.spk
  obtain ⟨ctIk, ssIk, hkIk, -⟩ := K.kem_correct hg.ikKem coins.ik
  obtain ⟨ctSpk, ssSpk, hkSpk, -⟩ := K.kem_correct hg.spkKem coins.spk
  rw [hloc.ik] at hkIk
  have h2 : desc.dh ekA.sk bundle.ik.base.curve.pk = .ok s2 := by
    rw [← hloc.ik]
    exact h2
  have h1 : desc.dh ikA.curveSk bundle.spk.curve.pk = .ok s1 := by
    rw [← hloc.spk]
    exact h1
  have h3 : desc.dh ekA.sk bundle.spk.curve.pk = .ok s3 := by
    rw [← hloc.spk]
    exact h3
  rw [hloc.spk] at hkSpk
  have hlen : bundle.ik.base.curve.pk.length = desc.curvePkLen := by
    rw [← hloc.ik]
    exact K.genuine_pk hg.ik
  obtain ⟨ad, had⟩ := hybridBuildAd_ok K hc hA.curveType hA.length htype hlen flag
  have hwire := putHybridIdentity_ok hc hA
  have hpure : ∀ {α : Type} (x : α), (pure x : Except GyErr α) = .ok x := fun _ => rfl
  have hnot : ¬ (!desc.isHybrid) = true := by simp [hyb]
  unfold gyHybridX3dhInitiate
  rw [if_neg hnot, hval, Except.ok_bind, hflag, Except.ok_bind, hkIk, Except.ok_bind, hkSpk]
  by_cases hopk : gyPkidIsPresent bundle.opk.curve.pkid
  · obtain ⟨k, hmem, hk⟩ := hloc.opk hopk
    obtain ⟨s4, h4, -⟩ := K.dh_comm hgE (hg.opk k hmem).1
    have h4 : desc.dh ekA.sk bundle.opk.curve.pk = .ok s4 := by
      rw [← hk]
      exact h4
    obtain ⟨ctOpk, ssOpk, hkOpk, -⟩ := K.kem_correct (hg.opk k hmem).2 coins.opk
    rw [hk] at hkOpk
    obtain ⟨sec, hsec⟩ := HybridShares.derive_ok K ⟨ssIk, ssSpk, ssOpk, s1, s2, s3, [s4]⟩
    rw [HybridShares.derive] at hsec
    obtain ⟨k1, hc1, hsec⟩ := Except.bind_eq_ok_iff.mp hsec
    obtain ⟨k2, hc2, hsec⟩ := Except.bind_eq_ok_iff.mp hsec
    obtain ⟨k3, hc3, hsec⟩ := Except.bind_eq_ok_iff.mp hsec
    obtain ⟨k4, hc4, hsec⟩ := Except.bind_eq_ok_iff.mp hsec
    simp only [if_pos hopk, h1, h2, h3, h4, hkOpk, hc1, hc2, hc3, hc4, Except.ok_bind, hpure,
      hsec, had, hwire]
    exact ⟨_, rfl⟩
  · obtain ⟨sec, hsec⟩ := HybridShares.derive_ok K ⟨ssIk, ssSpk, [], s1, s2, s3, []⟩
    rw [HybridShares.derive] at hsec
    obtain ⟨k1, hc1, hsec⟩ := Except.bind_eq_ok_iff.mp hsec
    obtain ⟨k2, hc2, hsec⟩ := Except.bind_eq_ok_iff.mp hsec
    obtain ⟨k3, hc3, hsec⟩ := Except.bind_eq_ok_iff.mp hsec
    obtain ⟨k4, hc4, hsec⟩ := Except.bind_eq_ok_iff.mp hsec
    simp only [if_neg hopk, h1, h2, h3, hc1, hc2, hc3, hc4, Except.ok_bind, hpure, hsec, had,
      hwire]
    exact ⟨_, rfl⟩

/-! ## Symbolic keys -/

/-- The curve pair number `n` with its identifier. -/
def symPair (n : Nat) : CurvePair Sym :=
  ⟨⟨UInt32.ofNat (n + 1), 32, (Sym.curvePair n).pk⟩, (Sym.curvePair n).sk⟩

/-- The symbolic suites have a curve the encoder knows. -/
theorem curveOk_sym (isHybrid : Bool) : (symSuite isHybrid).CurveOk := ⟨.inl rfl, rfl⟩

/-- Symbolic key pairs are genuine. -/
theorem genuine_symPair (isHybrid : Bool) (n : Nat) :
    (symIdeal isHybrid).kex.genuine (symPair n).keypair := ⟨n, rfl⟩

/-- The identifier of an encoded symbolic key is its number plus one, whatever follows the key. -/
theorem gyPkid_sym (isHybrid : Bool) (n : Nat) (rest : Bytes Sym) :
    gyPkid (symSuite isHybrid) (Octet.ofByte 32 :: ((symPair n).pub.pk ++ rest)) =
      .ok (UInt32.ofNat (n + 1)) := by
  have hkey : Sym.keyNum 1 ((symPair n).pub.pk ++ rest) = some n :=
    Sym.keyNum_append (Sym.keyNum_prim 1 n (by decide)) rest
  have hnum : Sym.digestNum (Octet.ofByte 32 :: ((symPair n).pub.pk ++ rest)) =
      UInt32.ofNat (n + 1) := by
    rw [Sym.digestNum, List.drop_succ_cons, List.drop_zero, hkey]
  have hget : be32Get (Sym.digest (Octet.ofByte 32 :: ((symPair n).pub.pk ++ rest))) =
      UInt32.ofNat (n + 1) := by
    rw [Sym.digest, be32Get_be32Put, hnum]
  show Except.ok (be32Get (Sym.digest _)) = _
  rw [hget]

/-- The encoding of a symbolic key. -/
theorem gyEncodeEc_symPair (n : Nat) : gyEncodeEc (symPair n).pub.curveType (symPair n).pub.pk =
    .ok (Octet.ofByte 32 :: (symPair n).pub.pk) :=
  gyEncodeEc_ok (curveOk_sym false) rfl (Sym.length_prim _ _ _)

/-- Symbolic keys have the type and the length of their suite. -/
theorem ok_symPair (isHybrid : Bool) (n : Nat) : (symPair n).pub.Ok (symSuite isHybrid) where
  curveType := rfl
  length := Sym.length_prim _ _ _
  pkid := by
    have hid := gyPkid_sym isHybrid n []
    rw [List.append_nil] at hid
    rw [pkidMatches, gyEncodeEc_symPair, Except.ok_bind, hid, Except.ok_bind]
    exact if_pos rfl

/-- The bundle of the pairs with the given numbers, with a one-time prekey if one is given. -/
def symBundle (ik spk : Nat) (opk : Option Nat) : PrekeyBundle Sym :=
  ⟨(symPair ik).pub, (symPair spk).pub, 0, [], opk.elim ⟨0, 0, []⟩ fun n => (symPair n).pub⟩

/-- Their identifiers are not the ones that mean absence. -/
theorem pkidIsPresent_symPair {n : Nat} (h : n < 2 ^ 31) :
    gyPkidIsPresent (symPair n).pub.pkid = true := by
  have hne : (symPair n).pub.pkid ≠ 0 := by
    intro h0
    have hnat := congrArg UInt32.toNat h0
    simp only [symPair, UInt32.toNat_ofNat', UInt32.toNat_zero] at hnat
    omega
  simpa [gyPkidIsPresent] using hne

/-- Their identifiers are those of their bytes. -/
theorem checkPkid_symPair (isHybrid : Bool) {n : Nat} (h : n < 2 ^ 31) :
    checkPkid (symSuite isHybrid) (symPair n).pub = .ok () := by
  have hid := gyPkid_sym isHybrid n []
  rw [List.append_nil] at hid
  have hnot : ¬ (!gyPkidIsPresent (symPair n).pub.pkid) = true := by
    simp [pkidIsPresent_symPair h]
  rw [checkPkid, if_neg hnot, gyEncodeEc_symPair, Except.ok_bind, checkPkidOf, if_neg hnot, hid,
    Except.ok_bind]
  exact if_neg (not_not.mpr rfl)

/-- Symbolic bundles verify. -/
theorem gyBundleValidate_symBundle {ik spk : Nat} (hik : ik < 2 ^ 31) (hspk : spk < 2 ^ 31)
    {opk : Option Nat} (hopk : ∀ n ∈ opk, n < 2 ^ 31) :
    gyBundleValidate (symSuite false) (symBundle ik spk opk) = .ok () := by
  have habsent : ¬ gyPkidIsPresent (symBundle ik spk none).opk.pkid = true := Bool.false_ne_true
  have htype : ¬ (gyPkidIsPresent (symBundle ik spk opk).opk.pkid ∧
      (symBundle ik spk opk).opk.curveType ≠ (symSuite false).curveType) := by
    cases opk with
    | none => exact fun h => habsent h.1
    | some n => exact fun h => h.2 rfl
  have hik' : ¬ (symBundle ik spk opk).ik.curveType ≠ (symSuite false).curveType := not_not.mpr rfl
  have hspk' : ¬ (symBundle ik spk opk).spk.curveType ≠ (symSuite false).curveType :=
    not_not.mpr rfl
  rw [gyBundleValidate, if_neg hik', if_neg hspk', if_neg htype]
  rw [show (symBundle ik spk opk).ik = (symPair ik).pub from rfl, checkPkid_symPair false hik,
    Except.ok_bind, show (symBundle ik spk opk).spk = (symPair spk).pub from rfl,
    checkPkid_symPair false hspk, Except.ok_bind]
  have hsigned : spkSignedData (symPair spk).pub (symBundle ik spk opk).spkTimestamp =
      .ok (Octet.ofByte 32 :: (symPair spk).pub.pk ++ be64Put 0) := by
    rw [spkSignedData, gyEncodeEc_symPair]
    rfl
  cases opk with
  | none =>
    rw [if_neg habsent, hsigned]
    rfl
  | some n =>
    rw [show (symBundle ik spk (some n)).opk = (symPair n).pub from rfl,
      if_pos (pkidIsPresent_symPair (hopk n rfl)), checkPkid_symPair false (hopk n rfl), hsigned]
    rfl

/-- The responder of a symbolic bundle. -/
def symLocal (ik spk : Nat) (opk : Option Nat) : X3dhLocal Sym :=
  ⟨symPair ik, symPair spk, (opk.map symPair).toList⟩

/-- The responder's keys are those the bundle was made from. -/
theorem symLocal_for (ik spk : Nat) (opk : Option Nat) :
    (symLocal ik spk opk).For (symBundle ik spk opk) := by
  cases opk with
  | none => exact ⟨rfl, rfl, fun h => absurd h Bool.false_ne_true, List.nodup_nil⟩
  | some n =>
    exact ⟨rfl, rfl, fun _ => ⟨symPair n, List.mem_singleton.mpr rfl, rfl⟩, List.nodup_singleton _⟩

/-- And they are genuine. -/
theorem symLocal_genuine (ik spk : Nat) (opk : Option Nat) :
    (symLocal ik spk opk).Genuine (symIdeal false).kex := by
  refine ⟨genuine_symPair _ _, genuine_symPair _ _, fun k hk => ?_⟩
  cases opk with
  | none => cases hk
  | some n =>
    obtain rfl := List.mem_singleton.mp hk
    exact genuine_symPair _ _

/-- The hybrid pair number `n`. -/
def symHybridPair (n : Nat) : HybridPair Sym :=
  ⟨⟨(symPair n).pub, Sym.kemEk n⟩, (symPair n).sk, Sym.kemDk n⟩

/-- The hybrid identity number `n`. -/
def symHybridIdentity (n : Nat) : HybridIdentityPair Sym :=
  ⟨⟨⟨(symPair n).pub, Sym.kemEk n⟩, Sym.dsaPk n⟩, (symPair n).sk, Sym.kemDk n⟩

/-- The encoding of a symbolic hybrid key. -/
theorem gyHybridEncodePub_sym (n : Nat) : gyHybridEncodePub (symSuite true) (symHybridPair n).pub =
    .ok (Octet.ofByte 32 ::
      ((symPair n).pub.pk ++ (Sym.kemEk n).take (symSuite true).kemPkLen)) := by
  rw [gyHybridEncodePub, show (symHybridPair n).pub.curve = (symPair n).pub from rfl,
    gyEncodeEc_symPair, Except.ok_bind, List.cons_append,
    show (symHybridPair n).pub.mlkemEk = Sym.kemEk n from rfl]
  rfl

/-- And of a symbolic hybrid identity. -/
theorem gyHybridEncodeIdentity_sym (n : Nat) :
    gyHybridEncodeIdentity (symSuite true) (symHybridIdentity n).pub =
      .ok (Octet.ofByte 32 :: ((symPair n).pub.pk ++ ((Sym.kemEk n).take (symSuite true).kemPkLen ++
        (symHybridIdentity n).pub.mldsaPk.take (symSuite true).dsaPkLen))) := by
  rw [gyHybridEncodeIdentity,
    show (symHybridIdentity n).pub.base = (symHybridPair n).pub from rfl, gyHybridEncodePub_sym,
    Except.ok_bind, List.cons_append, List.append_assoc]
  rfl

/-- The identifiers of hybrid keys are those of their encodings. -/
theorem checkPkidOf_sym (isHybrid : Bool) {n : Nat} (h : n < 2 ^ 31) (rest : Bytes Sym) :
    checkPkidOf (symSuite isHybrid) (Octet.ofByte 32 :: ((symPair n).pub.pk ++ rest))
      (symPair n).pub.pkid = .ok () := by
  have hnot : ¬ (!gyPkidIsPresent (symPair n).pub.pkid) = true := by
    simp [pkidIsPresent_symPair h]
  rw [checkPkidOf, if_neg hnot, gyPkid_sym, Except.ok_bind]
  exact if_neg (not_not.mpr rfl)

/-- Symbolic hybrid identities have the types and the lengths of the suite. -/
theorem ok_symHybridIdentity (n : Nat) : (symHybridIdentity n).pub.Ok (symSuite true) where
  curveType := rfl
  length := Sym.length_prim _ _ _
  length_ek := Sym.length_kemEk n
  length_dsa := Sym.length_dsaPk n
  pkid := by
    rw [hybridIkPkidMatches, gyHybridEncodeIdentity_sym, Except.ok_bind, gyPkid_sym, Except.ok_bind]
    exact if_pos rfl

/-- The hybrid bundle of the pairs with the given numbers and the advertisement `flags`. -/
def symHybridBundle (ik spk : Nat) (opk : Option Nat) (flags : UInt64) : HybridPrekeyBundle Sym :=
  ⟨(symHybridIdentity ik).pub, (symHybridPair spk).pub, 0, flags, (symPair ik).pub.pkid, [], [],
    opk.elim ⟨⟨0, 0, []⟩, []⟩ fun n => (symHybridPair n).pub⟩

/-- Symbolic hybrid bundles with a well-formed advertisement verify. -/
theorem gyHybridBundleValidate_sym {ik spk : Nat} (hik : ik < 2 ^ 31) (hspk : spk < 2 ^ 31)
    {opk : Option Nat} (hopk : ∀ n ∈ opk, n < 2 ^ 31) {flags : UInt64}
    (hflags : gyHybridFlagsValidate flags = .ok ()) :
    gyHybridBundleValidate (symSuite true) (symHybridBundle ik spk opk flags) = .ok () := by
  have habsent : ¬ gyPkidIsPresent (symHybridBundle ik spk none flags).opk.curve.pkid = true :=
    Bool.false_ne_true
  have htype : ¬ (gyPkidIsPresent (symHybridBundle ik spk opk flags).opk.curve.pkid ∧
      (symHybridBundle ik spk opk flags).opk.curve.curveType ≠ (symSuite true).curveType) := by
    cases opk with
    | none => exact fun h => habsent h.1
    | some n => exact fun h => h.2 rfl
  have hyb : ¬ (!(symSuite true).isHybrid) = true := Bool.false_ne_true
  have hik' : ¬ (symHybridBundle ik spk opk flags).ik.base.curve.curveType ≠
      (symSuite true).curveType := not_not.mpr rfl
  have hspk' : ¬ (symHybridBundle ik spk opk flags).spk.curve.curveType ≠
      (symSuite true).curveType := not_not.mpr rfl
  have hsigned : hybridSignedData (symSuite true) (symHybridPair spk).pub 0 flags =
      .ok (Octet.ofByte 32 ::
        ((symPair spk).pub.pk ++ (Sym.kemEk spk).take (symSuite true).kemPkLen) ++ be64Put 0 ++
        be64Put flags) := by
    rw [hybridSignedData, gyHybridEncodePub_sym, Except.ok_bind]
    rfl
  obtain ⟨ctx, hctx⟩ : ∃ ctx, gyInfo (symSuite true) prekeyCtxMax "prekey" = .ok ctx := ⟨_, rfl⟩
  rw [gyHybridBundleValidate, if_neg hyb, if_neg hik', if_neg hspk', if_neg htype]
  rw [show (symHybridBundle ik spk opk flags).ik = (symHybridIdentity ik).pub from rfl,
    gyHybridEncodeIdentity_sym, Except.ok_bind,
    show (symHybridIdentity ik).pub.base.curve.pkid = (symPair ik).pub.pkid from rfl,
    checkPkidOf_sym true hik, Except.ok_bind,
    show (symHybridBundle ik spk opk flags).spk = (symHybridPair spk).pub from rfl,
    gyHybridEncodePub_sym, Except.ok_bind,
    show (symHybridPair spk).pub.curve.pkid = (symPair spk).pub.pkid from rfl,
    checkPkidOf_sym true hspk, Except.ok_bind,
    show (symHybridBundle ik spk opk flags).spkIkId = (symPair ik).pub.pkid from rfl,
    if_neg (not_not.mpr rfl)]
  have htime : (symHybridBundle ik spk opk flags).spkTimestamp = 0 := rfl
  have hadv : (symHybridBundle ik spk opk flags).spkFlags = flags := rfl
  cases opk with
  | none =>
    rw [if_neg habsent, hadv, htime, hflags, Except.ok_bind, hsigned, Except.ok_bind, hctx]
    rfl
  | some n =>
    rw [show (symHybridBundle ik spk (some n) flags).opk = (symHybridPair n).pub from rfl,
      show (symHybridPair n).pub.curve.pkid = (symPair n).pub.pkid from rfl,
      if_pos (pkidIsPresent_symPair (hopk n rfl)), gyHybridEncodePub_sym, Except.ok_bind,
      checkPkidOf_sym true (hopk n rfl), Except.ok_bind, hadv, htime, hflags, Except.ok_bind,
      hsigned, Except.ok_bind, hctx]
    rfl

/-- The responder of a symbolic hybrid bundle. -/
def symHybridLocal (ik spk : Nat) (opk : Option Nat) (flags : UInt64) : HybridX3dhLocal Sym :=
  ⟨symHybridIdentity ik, symHybridPair spk, flags, (opk.map symHybridPair).toList⟩

/-- The responder's hybrid keys are those the bundle was made from. -/
theorem symHybridLocal_for (ik spk : Nat) (opk : Option Nat) (flags : UInt64) :
    (symHybridLocal ik spk opk flags).For (symHybridBundle ik spk opk flags) := by
  cases opk with
  | none => exact ⟨rfl, rfl, rfl, fun h => absurd h Bool.false_ne_true, List.nodup_nil⟩
  | some n =>
    exact ⟨rfl, rfl, rfl, fun _ => ⟨symHybridPair n, List.mem_singleton.mpr rfl, rfl⟩,
      List.nodup_singleton _⟩

/-- And they are genuine. -/
theorem symHybridLocal_genuine (ik spk : Nat) (opk : Option Nat) (flags : UInt64) :
    (symHybridLocal ik spk opk flags).Genuine (symIdeal true).kex := by
  have hkem : ∀ n, (symIdeal true).kex.genuineKem (Sym.kemEk n) (Sym.kemDk n) :=
    fun n => ⟨n, rfl, rfl⟩
  refine ⟨genuine_symPair _ _, hkem _, genuine_symPair _ _, hkem _, fun k hk => ?_⟩
  cases opk with
  | none => cases hk
  | some n =>
    obtain rfl := List.mem_singleton.mp hk
    exact ⟨genuine_symPair _ _, hkem _⟩

end Geryon
