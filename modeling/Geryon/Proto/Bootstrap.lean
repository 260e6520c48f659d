import Geryon.Proto.KeyOps
import Mathlib.Data.Countable.Basic
import Mathlib.Logic.Equiv.List
import Mathlib.Tactic.DeriveCountable

/-!
# The bootstrap blob

What `gy_custodian_open` makes of the blobs a custodian persists.

A blob is persisted for a custodian when it is the encoded header of its suite, its addresses and a
wrap of its key-encryption key, followed by nothing or by its sealed material.

## Main definitions

- `LayoutLaws`: what the memory image of the identity material keeps.
- `PersistedAs`: the blob of a header and a material.

## Main results

- `gyCustHeaderDecode_encode`: an encoded header is decoded, whatever follows it.
- `gyCustodianOpen_persisted`: opening a persisted blob with the credential of its wrap gives back
  the suite, the addresses, the key-encryption key and the material.
-/

namespace Geryon

variable {β : Type} [Octet β]

/-! ## Header codec -/

/-- A short field is read back from behind its length byte. -/
theorem takeShort_append {max : Nat} (x rest : Bytes β) (hx : x.length ≤ max) (hmax : max < 256) :
    takeShort max (Octet.ofByte (UInt8.ofNat x.length) :: (x ++ rest)) = .ok (x, rest) := by
  have hbyte : byteAt (Octet.ofByte (UInt8.ofNat x.length) :: (x ++ rest)) 0 = x.length := by
    simp only [byteAt, List.getElem?_cons_zero, Option.map_some, Octet.toByte_ofByte,
      Option.getD_some, UInt8.toNat_ofNat']
    omega
  unfold takeShort
  rw [if_neg (by simp), hbyte, if_neg (by simp; omega)]
  simp

/-- The wrap is read back from behind its length. -/
theorem takeWrap_append (x rest : Bytes β) (hx : x.length ≤ keystoreWrapMax) :
    takeWrap (be16Put (UInt16.ofNat x.length) ++ (x ++ rest)) = .ok (x, rest) := by
  have hlen : (be16Get (be16Put (UInt16.ofNat x.length) ++ (x ++ rest))).toNat = x.length := by
    rw [be16Get_be16Put, UInt16.toNat_ofNat', Nat.mod_eq_of_lt]
    exact lt_of_le_of_lt hx (by decide)
  have hdrop : (be16Put (UInt16.ofNat x.length) ++ (x ++ rest)).drop 2 = x ++ rest :=
    List.drop_left' rfl
  unfold takeWrap
  rw [hlen, if_neg (by simp only [List.length_append, length_be16Put]; omega),
    if_neg (by simp; omega), hdrop]
  simp

/-- When a header is encoded, and into what. -/
theorem gyCustHeaderEncode_ok {cap : Nat} {h : CustHeader β} {b : Bytes β}
    (hb : gyCustHeaderEncode cap h = .ok b) :
    h.selfUid.length ≤ userIdMax ∧ h.selfDid.length ≤ deviceIdMax ∧
      h.wrap.length ≤ keystoreWrapMax ∧
      b = Octet.ofByte custHdrVersion :: Octet.ofByte h.suiteId ::
        (Octet.ofByte (UInt8.ofNat h.selfUid.length) :: (h.selfUid ++
          Octet.ofByte (UInt8.ofNat h.selfDid.length) :: (h.selfDid ++
            (be16Put (UInt16.ofNat h.wrap.length) ++ h.wrap)))) := by
  unfold gyCustHeaderEncode at hb
  split at hb
  · cases hb
  · split at hb
    · cases hb
    · obtain rfl := Except.ok.inj hb
      refine ⟨by omega, by omega, by omega, rfl⟩

/-- An encoded header is decoded, whatever follows it. -/
theorem gyCustHeaderDecode_encode {cap : Nat} {h : CustHeader β} {b : Bytes β}
    (hb : gyCustHeaderEncode cap h = .ok b) (tail : Bytes β) :
    gyCustHeaderDecode (b ++ tail) = .ok (h, tail) := by
  obtain ⟨huid, hdid, hwrap, rfl⟩ := gyCustHeaderEncode_ok hb
  unfold gyCustHeaderDecode
  simp only [List.cons_append, List.append_assoc]
  rw [if_neg (by simp), if_neg (by simp [byteAt])]
  simp only [List.drop_succ_cons, List.drop_zero, takeShort_append _ _ huid (by decide),
    takeShort_append _ _ hdid (by decide), takeWrap_append _ _ hwrap, Except.ok_bind]
  simp [octetAt, byteAt]
  rfl

/-! ## Persisted blobs -/

/-- Which keys the arrays of the identity material hold as they are. -/
structure FitPred (β : Type) (h : Bool) where
  ik : IkOf β h → Prop
  spk : SpkOf β h → Prop
  opk : OpkOf β h → Prop
  sak : SakOf β h → Prop

/-- Material that fits its structure: the keys fit, the counts are within the arrays, and an
identity comes with a signed prekey. -/
structure IdMat.Fits {h : Bool} (m : IdMat β h) (P : FitPred β h) : Prop where
  ik : P.ik m.ik
  spk : ∀ k ∈ m.spks, P.spk k
  opk : ∀ k ∈ m.held, P.opk k
  sak : ∀ k ∈ m.saks, P.sak k
  spks_ne : m.spks ≠ []
  spks_le : m.spks.length ≤ spkHistoryMax
  opks_le : m.opks.length ≤ opkBatchMax
  saks_le : m.saks.length ≤ sakHistoryMax

variable [Signer β] [Sodium β] [SodiumKeystore β] [StructLayout β]

/-- What the memory image keeps: generated keys fit their arrays, the image of material that fits
has the size of the structure, and the material is read back from it. The hybrid structure is the
larger one. -/
structure LayoutLaws (desc : SuiteDesc β) where
  fits : FitPred β desc.isHybrid
  ik_fits : ∀ {rnd k}, gyIdentityGenerate desc desc.isHybrid rnd = .ok k → fits.ik k
  spk_fits : ∀ {ik timestamp rnd k},
    gySignedPrekeyGenerate desc desc.isHybrid ik timestamp rnd = .ok k → fits.spk k
  opk_fits : ∀ {n existing rnd batch}, gyOpkGenerate desc desc.isHybrid n existing rnd = .ok batch →
    ∀ k ∈ batch, fits.opk k
  sak_fits : ∀ {ik issuedAt expiry rnd k},
    custMint desc desc.isHybrid ik issuedAt expiry rnd = .ok k → fits.sak k
  length_write : ∀ {m}, m.Fits fits → (StructLayout.write m).length =
    StructLayout.size β desc.isHybrid
  read_write : ∀ {m}, m.Fits fits → StructLayout.read desc (StructLayout.write m) = m
  size_le : StructLayout.size β desc.isHybrid ≤ StructLayout.size β true

/-- The part of a blob that follows the header: nothing, or the sealed material. -/
def TailOf {h : Bool} (kek : Bytes β) : Option (IdMat β h) → Bytes β → Prop
  | none, tail => tail = []
  | some m, tail => ∃ nonce, sealIdmat kek m nonce = .ok tail

/-- The blob of a suite, own addresses, a wrap and a material under a key-encryption key. -/
structure PersistedAs (desc : SuiteDesc β) (uid did wrap kek : Bytes β)
    (m : Option (IdMat β desc.isHybrid)) (blob : Bytes β) : Prop where
  split : ∃ hdr tail, gyCustHeaderEncode (custBlobMax β) ⟨desc.suiteId, uid, did, wrap⟩ = .ok hdr ∧
    TailOf kek m tail ∧ blob = hdr ++ tail

omit [Sodium β] [SodiumKeystore β] [StructLayout β] [Signer β] in
theorem length_idmatAd (h : Bool) : (idmatAd h : Bytes β).length = 1 := rfl

/-- Sealed material is loaded under the key that sealed it. -/
theorem custLoadIdmat_sealIdmat (laws : SealLaws β) {desc : SuiteDesc β} (L : LayoutLaws desc)
    {kek tail : Bytes β} {m : IdMat β desc.isHybrid} {nonce : Rng β} (hm : m.Fits L.fits)
    (h : sealIdmat kek m nonce = .ok tail) : custLoadIdmat desc kek tail = .ok m := by
  have hlen := L.length_write hm
  have hunseal : gyUnseal (StructLayout.size β desc.isHybrid) kek (idmatAd desc.isHybrid) tail =
      .ok (StructLayout.write m) :=
    gyUnseal_gySeal laws h (by rw [length_idmatAd]; decide) hlen.le
  have hle := hm.spks_le
  have hle' := hm.opks_le
  have hle'' := hm.saks_le
  have hne := hm.spks_ne
  unfold custLoadIdmat
  rw [hunseal, Except.ok_bind, if_neg (by simp [hlen]), L.read_write hm]
  simp only
  rw [if_neg (by omega), if_neg (by simp [hne])]

omit [Signer β] in
/-- A sealed tail is not empty. -/
theorem sealIdmat_length_ne (laws : SealLaws β) {h : Bool} {kek tail : Bytes β} {m : IdMat β h}
    {nonce : Rng β} (hs : sealIdmat kek m nonce = .ok tail) : tail.length ≠ 0 := by
  have hlen := length_gySeal laws hs
  simp only [sealMaxOverhead] at hlen
  omega

/-- The handle table of a custodian that was just opened. -/
def openedSlots {h : Bool} : Option (IdMat β h) → SlotTable
  | none => .empty
  | some m => registerAll m.keySlots .empty

/-- Opening a persisted blob with the credential of its wrap gives back the suite, the addresses,
the key-encryption key and the material; the clock and the expiry policy are gone. -/
theorem gyCustodianOpen_persisted (laws : SealLaws β) {suites : SuiteTable β} {desc : SuiteDesc β}
    (L : LayoutLaws desc) (hsuite : suites.lookup desc.suiteId = some desc)
    {cred uid did wrap kek blob : Bytes β} {m : Option (IdMat β desc.isHybrid)}
    (hm : ∀ m' ∈ m, m'.Fits L.fits) (hp : PersistedAs desc uid did wrap kek m blob)
    (hk : gyKeystoreOpen cred wrap = .ok kek) :
    gyCustodianOpen suites cred blob =
      .ok ⟨desc, uid, did, wrap, kek, false, .disabled, m, openedSlots m⟩ := by
  obtain ⟨hdr, tail, henc, htail, rfl⟩ := hp.split
  have hdec := gyCustHeaderDecode_encode henc tail
  have hne : (hdr ++ tail).length ≠ 0 := by
    obtain ⟨-, -, -, rfl⟩ := gyCustHeaderEncode_ok henc
    simp
  unfold gyCustodianOpen
  rw [if_neg hne, hdec, Except.ok_bind]
  simp only [hsuite, hk, Except.ok_bind]
  cases m with
  | none =>
    obtain rfl : tail = [] := htail
    rfl
  | some m =>
    obtain ⟨nonce, hseal⟩ := htail
    rw [if_neg (sealIdmat_length_ne laws hseal),
      custLoadIdmat_sealIdmat laws L (hm m rfl) hseal]
    rfl

/-! ## Symbolic layout -/

section Countable

instance countable_uint8 : Countable UInt8 :=
  Function.Injective.countable (f := UInt8.toNat) fun _ _ => UInt8.toNat_inj.mp

instance countable_uint32 : Countable UInt32 :=
  Function.Injective.countable (f := UInt32.toNat) fun _ _ => UInt32.toNat_inj.mp

instance countable_uint64 : Countable UInt64 :=
  Function.Injective.countable (f := UInt64.toNat) fun _ _ => UInt64.toNat_inj.mp

deriving instance Countable for Sym, PublicKey, CurvePair, HybridPublicKey, HybridPair,
  HybridIdentity, HybridIdentityPair, HybridIdentityKeypair, SignedPrekey, HybridSignedPrekey,
  StoredHybridSpk, CustSak, CustHsak, HeldOpk

instance (h : Bool) : Countable (IkOf Sym h) := by
  cases h <;> unfold IkOf <;> infer_instance

instance (h : Bool) : Countable (SpkOf Sym h) := by
  cases h <;> unfold SpkOf <;> infer_instance

instance (h : Bool) : Countable (OpkOf Sym h) := by
  cases h <;> unfold OpkOf <;> infer_instance

instance (h : Bool) : Countable (SakOf Sym h) := by
  cases h <;> unfold SakOf <;> infer_instance

instance (h : Bool) : Countable (IdMat Sym h) := by
  refine Function.Injective.countable (f := fun m => (m.ik, m.spks, m.opks, m.saks)) ?_
  rintro ⟨ik, spks, opks, saks⟩ ⟨ik', spks', opks', saks'⟩ h
  simpa using h

instance (h : Bool) : Nonempty (IdMat Sym h) := by
  cases h with
  | false => exact ⟨⟨(⟨⟨0, 0, []⟩, []⟩ : CurvePair Sym), [], [], []⟩⟩
  | true =>
    exact ⟨⟨(⟨⟨⟨⟨⟨0, 0, []⟩, []⟩, []⟩, [], []⟩, []⟩ : HybridIdentityKeypair Sym), [], [], []⟩⟩

end Countable

/-- A number for every symbolic material. -/
noncomputable def IdMat.code (h : Bool) : IdMat Sym h → Nat :=
  (exists_injective_nat (IdMat Sym h)).choose

theorem IdMat.code_injective (h : Bool) : Function.Injective (IdMat.code h) :=
  (exists_injective_nat (IdMat Sym h)).choose_spec

/-- The symbolic image of the material is one octet that names it. -/
noncomputable instance : StructLayout Sym where
  size _ := 1
  write m := [Sym.num (IdMat.code _ m)]
  read _ b :=
    match b with
    | [Sym.num n] => Function.invFun (IdMat.code _) n
    | _ => Classical.arbitrary _

/-- The symbolic image keeps every material. -/
noncomputable def symLayoutLaws (desc : SuiteDesc Sym) : LayoutLaws desc where
  fits := ⟨fun _ => True, fun _ => True, fun _ => True, fun _ => True⟩
  ik_fits _ := trivial
  spk_fits _ := trivial
  opk_fits _ _ _ := trivial
  sak_fits _ := trivial
  length_write _ := rfl
  read_write {m} _ := Function.leftInverse_invFun (IdMat.code_injective _) m
  size_le := le_refl _

end Geryon
