import Geryon.Kex.Keys

/-!
# X3DH

`kex/x3dh.c`: the key agreement of the classical and of the hybrid suites, with the wire prefix of
an initial message.
-/

namespace Geryon

/-- `struct gy_x3dh_opk_ref`: the one-time prekey a handshake used. -/
abbrev OpkRef := Option UInt32

variable {β : Type} [Octet β] (desc : SuiteDesc β)

/-! ## Derivation -/

/-- `gy_suite_f`: the domain-separation block. -/
def gySuiteF : Bytes β := List.replicate desc.fLen (Octet.ofByte 0xff)

/-- `expand_one`. -/
def expandOne (sk : Bytes β) (purpose : String) : Except GyErr (Bytes β) := do
  let info ← gyInfo desc infoMax purpose
  desc.hkdfExpand drKeyLen sk info

/-- `expand_secrets`: the ratchet's seeds from the key agreement's secret. -/
def expandSecrets (sk : Bytes β) : Except GyErr (DrSecrets β) := do
  let skDr ← expandOne desc sk "dr.sk"
  let hka ← expandOne desc sk "he.hka"
  let nhkb ← expandOne desc sk "he.nhkb"
  return ⟨skDr, hka, nhkb⟩

/-- `derive_secrets` and `hybrid_derive_secrets`: HKDF over the domain block and the shared
secrets, then the expansion into the ratchet's secrets. -/
def deriveSecrets (parts : List (Bytes β)) : Except GyErr (DrSecrets β) := do
  let prk ← desc.hkdfExtract (zeros desc.hashLen) (gySuiteF desc ++ parts.flatten)
  let info ← gyInfo desc infoMax "x3dh"
  let sk ← desc.hkdfExpand desc.hashLen prk info
  expandSecrets desc sk

/-- `build_ad`. -/
def buildAd (ikA ikB : PublicKey β) : Except GyErr (Bytes β) := do
  let a ← gyEncodeEc ikA.curveType ikA.pk
  let b ← gyEncodeEc ikB.curveType ikB.pk
  return a ++ b

/-! ## Wire keys -/

/-- `put_pubkey`. -/
def putPubkey (k : PublicKey β) : Bytes β :=
  be32Put k.pkid ++ Octet.ofByte k.curveType :: k.pk.take desc.curvePkLen

/-- Length of a public key on the wire. -/
def pubkeyWire : Nat := 4 + 1 + desc.curvePkLen

/-- The byte at a position. -/
def octetAt (b : Bytes β) (i : Nat) : UInt8 := UInt8.ofNat (byteAt b i)

/-- `parse_pubkey`. -/
def parsePubkey (b : Bytes β) : PublicKey β :=
  ⟨be32Get b, octetAt b 4, (b.drop 5).take desc.curvePkLen⟩

/-- `pkid_matches`. -/
def pkidMatches (k : PublicKey β) : Except GyErr Unit := do
  let enc ← gyEncodeEc k.curveType k.pk
  let recomputed ← gyPkid desc enc
  if recomputed = k.pkid then .ok () else .error .verify

/-! ## Classical -/

/-- Length of the prefix of a classical initial message. -/
def x3dhPrefixLen : Nat := 2 + 2 * pubkeyWire desc + 16

/-- What an initiator gets: the ratchet secrets, the associated data and the wire prefix. -/
structure Initiated (β : Type) where
  secrets : DrSecrets β
  ad : Bytes β
  wire : Bytes β

/-- `gy_x3dh_initiate` with the ephemeral pair `ek`. -/
def gyX3dhInitiate (localIk : CurvePair β) (peer : PrekeyBundle β) (ek : CurvePair β) :
    Except GyErr (Initiated β) := do
  gyBundleValidate desc peer
  let haveOpk := gyPkidIsPresent peer.opk.pkid
  let dh1 ← desc.dh localIk.sk peer.spk.pk
  let dh2 ← desc.dh ek.sk peer.ik.pk
  let dh3 ← desc.dh ek.sk peer.spk.pk
  -- only with a one-time prekey
  let dh4 ← if haveOpk then do
      let s ← desc.dh ek.sk peer.opk.pk
      pure [s]
    else pure []
  let secrets ← deriveSecrets desc ([dh1, dh2, dh3] ++ dh4)
  let ad ← buildAd localIk.pub peer.ik
  -- the last field is reserved and zero
  return ⟨secrets, ad, gyFramePut desc.suiteId ++ putPubkey desc localIk.pub ++
    putPubkey desc ek.pub ++ be32Put peer.ik.pkid ++ be32Put peer.spk.pkid ++
    be32Put (if haveOpk then peer.opk.pkid else 0) ++ be32Put 0⟩

/-- The keys a responder answers with: `struct gy_x3dh_local`. -/
structure X3dhLocal (β : Type) where
  ik : CurvePair β
  spk : CurvePair β
  opks : List (CurvePair β)

/-- The one-time prekey an initial message names, if it names one; unknown ones are refused. -/
def findOpk {κ : Type} (pkidOf : κ → UInt32) (opks : List κ) (opkId : UInt32) :
    Except GyErr (Option κ) :=
  if gyPkidIsPresent opkId then
    match opks.find? fun k => pkidOf k = opkId with
    | some k => .ok (some k)
    | none => .error .verify
  else .ok none

/-- What a responder gets: the ratchet secrets, the associated data, the one-time prekey used and
the agreed flag word (zero in classical suites). -/
structure Responded (β : Type) where
  secrets : DrSecrets β
  ad : Bytes β
  opkRef : OpkRef
  flag : UInt32

/-- `gy_x3dh_respond`. -/
def gyX3dhRespond (loc : X3dhLocal β) (msg : Bytes β) : Except GyErr (Responded β) := do
  gyFrameCheck msg desc.suiteId
  if msg.length < x3dhPrefixLen desc then .error .arg
  let kw := pubkeyWire desc
  let ik := parsePubkey desc (msg.drop 2)
  let ek := parsePubkey desc (msg.drop (2 + kw))
  let ikId := be32Get (msg.drop (2 + 2 * kw))
  let spkId := be32Get (msg.drop (2 + 2 * kw + 4))
  let opkId := be32Get (msg.drop (2 + 2 * kw + 8))
  if ik.curveType ≠ desc.curveType ∨ ek.curveType ≠ desc.curveType then .error .state
  pkidMatches desc ik
  pkidMatches desc ek
  -- the message names the three keys it was made for
  if ikId ≠ loc.ik.pub.pkid then .error .state
  if spkId ≠ loc.spk.pub.pkid then .error .verify
  let opk ← findOpk (fun k : CurvePair β => k.pub.pkid) loc.opks opkId
  let dh1 ← desc.dh loc.spk.sk ik.pk
  let dh2 ← desc.dh loc.ik.sk ek.pk
  let dh3 ← desc.dh loc.spk.sk ek.pk
  let dh4 ← match opk with
    | some k => do
      let s ← desc.dh k.sk ek.pk
      pure [s]
    | none => pure []
  let secrets ← deriveSecrets desc ([dh1, dh2, dh3] ++ dh4)
  let ad ← buildAd ik loc.ik.pub
  return ⟨secrets, ad, opk.map fun _ => opkId, 0⟩

/-! ## Hybrid -/

/-- Length of a hybrid identity on the wire. -/
def hybridIkWire : Nat := 4 + 1 + desc.curvePkLen + desc.kemPkLen + desc.dsaPkLen

/-- Length of the prefix of a hybrid initial message (`hybrid_prefix_len`). -/
def hybridPrefixLen : Nat :=
  2 + hybridIkWire desc + pubkeyWire desc + 3 * desc.kemCtLen + 12 + 4

/-- `hybrid_flag_check`: the initiator's choice fits the signed advertisement. -/
def hybridFlagCheck (flag : UInt32) (spkFlags : UInt64) : Except GyErr Unit :=
  let interval := flag.toNat % 2 ^ 16
  let aeadId := flag.toNat / 2 ^ 16 % 2 ^ 8
  let mn := spkFlags.toNat % 2 ^ 16
  let mx := spkFlags.toNat / 2 ^ 16 % 2 ^ 16
  -- the reserved octet
  if flag.toNat / 2 ^ 24 ≠ 0 then .error .verify
  else if interval < 1 ∨ 100 < interval then .error .verify
  else if interval < mn ∨ mx < interval then .error .verify
  else if aeadId < 1 ∨ 3 < aeadId then .error .verify
  -- the cipher must be one the signed prekey offers
  else if spkFlags.toNat / 2 ^ (31 + aeadId) % 2 = 0 then .error .verify
  else .ok ()

/-- `hybrid_build_ad`. -/
def hybridBuildAd (a b : HybridIdentity β) (flag : UInt32) : Except GyErr (Bytes β) := do
  let ha ← gyHybridIkhash desc a
  let hb ← gyHybridIkhash desc b
  return ha ++ hb ++ be32Put flag

/-- `put_hybrid_identity`. -/
def putHybridIdentity (k : HybridIdentity β) : Except GyErr (Bytes β) := do
  let enc ← gyHybridEncodeIdentity desc k
  return be32Put k.base.curve.pkid ++ enc

/-- `parse_hybrid_identity`. -/
def parseHybridIdentity (b : Bytes β) : HybridIdentity β :=
  ⟨⟨parsePubkey desc b, (b.drop (5 + desc.curvePkLen)).take desc.kemPkLen⟩,
    (b.drop (5 + desc.curvePkLen + desc.kemPkLen)).take desc.dsaPkLen⟩

/-- `hybrid_ik_pkid_matches`. -/
def hybridIkPkidMatches (k : HybridIdentity β) : Except GyErr Unit := do
  let enc ← gyHybridEncodeIdentity desc k
  let recomputed ← gyPkid desc enc
  if recomputed = k.base.curve.pkid then .ok () else .error .verify

/-- The coins of the three encapsulations. -/
structure HandshakeCoins (β : Type) where
  ik : Bytes β
  spk : Bytes β
  opk : Bytes β

/-- `gy_hybrid_x3dh_initiate` with the ephemeral pair `ek`. -/
def gyHybridX3dhInitiate (localIk : HybridIdentityPair β) (peer : HybridPrekeyBundle β)
    (ek : CurvePair β) (flag : UInt32) (coins : HandshakeCoins β) :
    Except GyErr (Initiated β) := do
  if !desc.isHybrid then .error .state
  gyHybridBundleValidate desc peer
  hybridFlagCheck flag peer.spkFlags
  let haveOpk := gyPkidIsPresent peer.opk.curve.pkid
  let (ctIk, ssIk) ← desc.kemEncap peer.ik.base.mlkemEk coins.ik
  let (ctSpk, ssSpk) ← desc.kemEncap peer.spk.mlkemEk coins.spk
  let (ctOpk, ssOpk) ← if haveOpk then desc.kemEncap peer.opk.mlkemEk coins.opk
    -- without a one-time prekey its ciphertext field is zero
    else pure (zeros desc.kemCtLen, [])
  let dh1 ← desc.dh localIk.curveSk peer.spk.curve.pk
  let dh2 ← desc.dh ek.sk peer.ik.base.curve.pk
  let dh3 ← desc.dh ek.sk peer.spk.curve.pk
  let dh4 ← if haveOpk then do
      let s ← desc.dh ek.sk peer.opk.curve.pk
      pure [s]
    else pure []
  -- each curve secret is combined with the KEM secret of the same peer key
  let hdh1 ← hybridCombine desc ssSpk dh1
  let hdh2 ← hybridCombine desc ssIk dh2
  let hdh3 ← hybridCombine desc ssSpk dh3
  let hdh4 ← dh4.mapM (hybridCombine desc ssOpk)
  let secrets ← deriveSecrets desc ([hdh1, hdh2, hdh3] ++ hdh4)
  let ad ← hybridBuildAd desc localIk.pub peer.ik flag
  let ikWire ← putHybridIdentity desc localIk.pub
  return ⟨secrets, ad, gyFramePut desc.suiteId ++ ikWire ++ putPubkey desc ek.pub ++
    ctIk ++ ctSpk ++ ctOpk ++ be32Put peer.ik.base.curve.pkid ++ be32Put peer.spk.curve.pkid ++
    be32Put (if haveOpk then peer.opk.curve.pkid else 0) ++ be32Put flag⟩

/-- `struct gy_hybrid_x3dh_local`. -/
structure HybridX3dhLocal (β : Type) where
  ik : HybridIdentityPair β
  spk : HybridPair β
  spkFlags : UInt64
  opks : List (HybridPair β)

/-- `gy_hybrid_x3dh_respond`. -/
def gyHybridX3dhRespond (loc : HybridX3dhLocal β) (msg : Bytes β) :
    Except GyErr (Responded β) := do
  if !desc.isHybrid then .error .state
  gyFrameCheck msg desc.suiteId
  if msg.length < hybridPrefixLen desc then .error .arg
  let o := 2 + hybridIkWire desc + pubkeyWire desc
  let ct := desc.kemCtLen
  let ik := parseHybridIdentity desc (msg.drop 2)
  let ek := parsePubkey desc (msg.drop (2 + hybridIkWire desc))
  let ctIk := (msg.drop o).take ct
  let ctSpk := (msg.drop (o + ct)).take ct
  let ctOpk := (msg.drop (o + 2 * ct)).take ct
  let ikId := be32Get (msg.drop (o + 3 * ct))
  let spkId := be32Get (msg.drop (o + 3 * ct + 4))
  let opkId := be32Get (msg.drop (o + 3 * ct + 8))
  let flag := be32Get (msg.drop (o + 3 * ct + 12))
  if ik.base.curve.curveType ≠ desc.curveType ∨ ek.curveType ≠ desc.curveType then .error .state
  hybridIkPkidMatches desc ik
  pkidMatches desc ek
  if ikId ≠ loc.ik.pub.base.curve.pkid then .error .state
  if spkId ≠ loc.spk.pub.curve.pkid then .error .verify
  -- an unknown one-time prekey ends the call, an absent one does not
  let opk ← findOpk (fun k : HybridPair β => k.pub.curve.pkid) loc.opks opkId
  hybridFlagCheck flag loc.spkFlags
  let ssIk ← desc.kemDecap ctIk loc.ik.mlkemDk
  let ssSpk ← desc.kemDecap ctSpk loc.spk.mlkemDk
  let ssOpk ← match opk with
    | some k => desc.kemDecap ctOpk k.mlkemDk
    | none => pure []
  let dh1 ← desc.dh loc.spk.curveSk ik.base.curve.pk
  let dh2 ← desc.dh loc.ik.curveSk ek.pk
  let dh3 ← desc.dh loc.spk.curveSk ek.pk
  let dh4 ← match opk with
    | some k => do
      let s ← desc.dh k.curveSk ek.pk
      pure [s]
    | none => pure []
  let hdh1 ← hybridCombine desc ssSpk dh1
  let hdh2 ← hybridCombine desc ssIk dh2
  let hdh3 ← hybridCombine desc ssSpk dh3
  let hdh4 ← dh4.mapM (hybridCombine desc ssOpk)
  let secrets ← deriveSecrets desc ([hdh1, hdh2, hdh3] ++ hdh4)
  let ad ← hybridBuildAd desc ik loc.ik.pub flag
  return ⟨secrets, ad, opk.map fun _ => opkId, flag⟩

end Geryon
