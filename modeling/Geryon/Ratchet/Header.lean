import Geryon.Suite

/-!
# Ratchet message headers

The plaintext header encodings of `ratchet/header.c`, classical and hybrid, and their round trips.
-/

namespace Geryon

/-- `GY_DR_HEADER_MAX`. -/
def drHeaderMax : Nat := 4 + curvePkMax + 4 + 4

/-- `GY_DR_HYBRID_HEADER_MAX`. -/
def drHybridHeaderMax : Nat := 4 + curvePkMax + kemCtMax + 4 + 4 + kemEkMax + kemCtMax

/-- `GY_DR_FLAG_CURVE_MASK`. -/
def flagCurveMask : UInt32 := 0x000000ff

/-- `GY_DR_FLAG_MLKEM_EK_PRESENT`. -/
def flagMlkemEkPresent : UInt32 := 0x00000100

/-- `GY_DR_FLAG_CONFIRM_CT_PRESENT`. -/
def flagConfirmCtPresent : UInt32 := 0x00000200

/-- `GY_DR_FLAG_NONCURVE_MASK`. -/
def flagNoncurveMask : UInt32 := 0xffffff00

/-- `GY_DR_FLAG_RESERVED_MASK`. -/
def flagReservedMask : UInt32 := 0xfffffc00

/-- Classical header (`struct gy_dr_header`). -/
structure DrHeader (β : Type) where
  flags : UInt32
  ratchetPk : Bytes β
  pn : UInt32
  n : UInt32

/-- Hybrid header (`struct gy_dr_hybrid_header`). -/
structure DrHybridHeader (β : Type) where
  flags : UInt32
  ratchetPk : Bytes β
  kemCt : Bytes β
  pn : UInt32
  n : UInt32
  mlkemEk : Bytes β
  confirmCt : Bytes β

variable {β : Type} [Octet β]

/-- The first `len` bytes of a zeroed buffer that starts with `b`. -/
def fixed (len : Nat) (b : Bytes β) : Bytes β := (b ++ zeros len).take len

/-- A field has its width, whatever was put into it. -/
@[simp] theorem length_fixed (len : Nat) (b : Bytes β) : (fixed len b).length = len := by
  simp [fixed]

/-- A string of that width is not cut. -/
theorem fixed_of_length {len : Nat} {b : Bytes β} (h : b.length = len) : fixed len b = b := by
  subst h
  simp [fixed]

variable (desc : SuiteDesc β)

/-- `gy_dr_header_encode` into a buffer of `cap` bytes. -/
def gyDrHeaderEncode (h : DrHeader β) (cap : Nat) : Except GyErr (Bytes β) :=
  if cap < 4 + desc.curvePkLen + 4 + 4 then .error .arg
  else .ok (be32Put h.flags ++ fixed desc.curvePkLen h.ratchetPk ++ be32Put h.pn ++ be32Put h.n)

/-- `gy_dr_header_decode`: the header and the number of bytes consumed. -/
def gyDrHeaderDecode (b : Bytes β) : Except GyErr (DrHeader β × Nat) :=
  let cpl := desc.curvePkLen
  let need := 4 + cpl + 4 + 4
  if b.length < need then .error .arg
  else
    let flags := be32Get b
    if flags &&& flagCurveMask ≠ desc.curveType.toUInt32 then .error .state
    else if flags &&& flagNoncurveMask ≠ 0 then .error .arg
    else
      .ok (⟨flags, (b.drop 4).take cpl, be32Get (b.drop (4 + cpl)), be32Get (b.drop (8 + cpl))⟩,
        need)

/-- `ek_present` of a hybrid header's flags. -/
def ekPresent (flags : UInt32) : Bool := flags &&& flagMlkemEkPresent ≠ 0

/-- `confirm_present` of a hybrid header's flags. -/
def confirmPresent (flags : UInt32) : Bool := flags &&& flagConfirmCtPresent ≠ 0

/-- `gy_dr_hybrid_header_len`. -/
def gyDrHybridHeaderLen (ek confirm : Bool) : Nat :=
  if desc.isHybrid then
    4 + desc.curvePkLen + desc.kemCtLen + 4 + 4 + (if ek then desc.kemPkLen else 0) +
      (if confirm then desc.kemCtLen else 0)
  else 0

/-- `gy_dr_hybrid_header_encode` into a buffer of `cap` bytes. -/
def gyDrHybridHeaderEncode (h : DrHybridHeader β) (cap : Nat) : Except GyErr (Bytes β) :=
  if cap < 4 + desc.curvePkLen + desc.kemCtLen + 4 + 4 +
      (if ekPresent h.flags then desc.kemPkLen else 0) +
      (if confirmPresent h.flags then desc.kemCtLen else 0) then .error .arg
  else
    .ok (be32Put h.flags ++ fixed desc.curvePkLen h.ratchetPk ++ fixed desc.kemCtLen h.kemCt ++
      be32Put h.pn ++ be32Put h.n ++
      (if ekPresent h.flags then fixed desc.kemPkLen h.mlkemEk else []) ++
      (if confirmPresent h.flags then fixed desc.kemCtLen h.confirmCt else []))

/-- `gy_dr_hybrid_header_decode`: the header and the number of bytes consumed. A field whose flag
is clear stays zeroed. -/
def gyDrHybridHeaderDecode (b : Bytes β) : Except GyErr (DrHybridHeader β × Nat) :=
  let cpl := desc.curvePkLen
  let ctl := desc.kemCtLen
  let ekl := desc.kemPkLen
  if b.length < 4 then .error .arg
  else
    let flags := be32Get b
    if flags &&& flagCurveMask ≠ desc.curveType.toUInt32 then .error .state
    else if flags &&& flagReservedMask ≠ 0 then .error .arg
    else
      let ek := if ekPresent flags then ekl else 0
      let need := 4 + cpl + ctl + 4 + 4 + ek + (if confirmPresent flags then ctl else 0)
      if b.length < need then .error .arg
      else
        .ok (⟨flags, (b.drop 4).take cpl, (b.drop (4 + cpl)).take ctl,
          be32Get (b.drop (4 + cpl + ctl)), be32Get (b.drop (4 + cpl + ctl + 4)),
          if ekPresent flags then (b.drop (4 + cpl + ctl + 8)).take ekl else zeros ekl,
          if confirmPresent flags then (b.drop (4 + cpl + ctl + 8 + ek)).take ctl
            else zeros ctl⟩, need)

/-! ## Round trips -/

/-- The flag word of a header: the suite's curve type with some of the two defined bits. -/
def headerFlags (ek confirm : Bool) : UInt32 :=
  desc.curveType.toUInt32 ||| (if ek then flagMlkemEkPresent else 0) |||
    (if confirm then flagConfirmCtPresent else 0)

/-- What the decoders read in a flag word, for each of the 256 curve bytes. -/
private theorem headerFlags_table : ∀ i : Fin 256, ∀ ek confirm : Bool,
    let flags := (UInt8.ofNat i).toUInt32 ||| (if ek then flagMlkemEkPresent else 0) |||
      (if confirm then flagConfirmCtPresent else 0)
    flags &&& flagCurveMask = (UInt8.ofNat i).toUInt32 ∧ flags &&& flagReservedMask = 0 ∧
      ekPresent flags = ek ∧ confirmPresent flags = confirm ∧
      (ek = false → confirm = false → flags &&& flagNoncurveMask = 0) := by
  decide +kernel

omit [Octet β] in
private theorem headerFlags_spec (ek confirm : Bool) :
    let flags := headerFlags desc ek confirm
    flags &&& flagCurveMask = desc.curveType.toUInt32 ∧ flags &&& flagReservedMask = 0 ∧
      ekPresent flags = ek ∧ confirmPresent flags = confirm ∧
      (ek = false → confirm = false → flags &&& flagNoncurveMask = 0) := by
  have h := headerFlags_table ⟨desc.curveType.toNat, desc.curveType.toNat_lt⟩ ek confirm
  simpa [headerFlags] using h

omit [Octet β] in
/-- The flags name the curve of the suite. -/
@[simp] theorem headerFlags_curve (ek confirm : Bool) :
    headerFlags desc ek confirm &&& flagCurveMask = desc.curveType.toUInt32 :=
  (headerFlags_spec desc ek confirm).1

omit [Octet β] in
/-- No reserved bit is set. -/
@[simp] theorem headerFlags_reserved (ek confirm : Bool) :
    headerFlags desc ek confirm &&& flagReservedMask = 0 := (headerFlags_spec desc ek confirm).2.1

omit [Octet β] in
/-- The flag of the KEM key. -/
@[simp] theorem ekPresent_headerFlags (ek confirm : Bool) :
    ekPresent (headerFlags desc ek confirm) = ek := (headerFlags_spec desc ek confirm).2.2.1

omit [Octet β] in
/-- The flag of the confirmation. -/
@[simp] theorem confirmPresent_headerFlags (ek confirm : Bool) :
    confirmPresent (headerFlags desc ek confirm) = confirm :=
  (headerFlags_spec desc ek confirm).2.2.2.1

omit [Octet β] in
/-- Without the two fields only the curve is flagged. -/
@[simp] theorem headerFlags_noncurve :
    headerFlags desc false false &&& flagNoncurveMask = 0 :=
  (headerFlags_spec desc false false).2.2.2.2 rfl rfl

/-- A flag word is the union of what the four masks of a header show of it. -/
theorem flags_split (x : UInt32) : x = (x &&& flagCurveMask) ||| (x &&& flagMlkemEkPresent) |||
    (x &&& flagConfirmCtPresent) ||| (x &&& flagReservedMask) := by
  apply UInt32.toBitVec_inj.mp
  have h : ∀ y : BitVec 32, y = (y &&& 0x000000ff#32) ||| (y &&& 0x00000100#32) |||
      (y &&& 0x00000200#32) ||| (y &&& 0xfffffc00#32) := by
    intro y
    rw [← BitVec.and_or_distrib_left, ← BitVec.and_or_distrib_left, ← BitVec.and_or_distrib_left]
    exact BitVec.and_allOnes.symm
  exact h x.toBitVec

/-- A mask of one bit shows that bit or nothing. -/
theorem and_bit (x : UInt32) {i : Nat} {m : UInt32} (hm : m.toBitVec = BitVec.twoPow 32 i) :
    x &&& m = if x &&& m ≠ 0 then m else 0 := by
  by_cases h : x &&& m = 0
  · simp [h]
  · rw [if_pos h]
    apply UInt32.toBitVec_inj.mp
    have hand : (x &&& m).toBitVec = if x.toBitVec.getLsbD i then BitVec.twoPow 32 i else 0#32 := by
      rw [UInt32.toBitVec_and, hm, BitVec.and_twoPow]
    rw [hand, hm]
    split
    · rfl
    · rename_i hb
      rw [if_neg hb] at hand
      exact absurd (UInt32.toBitVec_inj.mp hand) h

omit [Octet β] in
/-- The flag words the hybrid decoder lets through are those a sender builds. -/
theorem flags_eq_headerFlags {x : UInt32} (hcurve : x &&& flagCurveMask = desc.curveType.toUInt32)
    (hreserved : x &&& flagReservedMask = 0) :
    x = headerFlags desc (ekPresent x) (confirmPresent x) := by
  have hek : x &&& flagMlkemEkPresent = if ekPresent x then flagMlkemEkPresent else 0 := by
    rw [@and_bit x 8 flagMlkemEkPresent rfl]
    simp [ekPresent]
  have hcf : x &&& flagConfirmCtPresent = if confirmPresent x then flagConfirmCtPresent else 0 := by
    rw [@and_bit x 9 flagConfirmCtPresent rfl]
    simp [confirmPresent]
  have h := flags_split x
  rw [hcurve, hreserved, hek, hcf, UInt32.or_zero] at h
  exact h

omit [Octet β] in
/-- The flag words the classical decoder lets through are the curve type alone. -/
theorem flags_eq_curve {x : UInt32} (hcurve : x &&& flagCurveMask = desc.curveType.toUInt32)
    (hnoncurve : x &&& flagNoncurveMask = 0) : x = headerFlags desc false false := by
  -- the mask of everything but the curve byte covers the three other masks
  have hsub : ∀ m : UInt32, flagNoncurveMask &&& m = m → x &&& m = 0 := by
    intro m hm
    rw [← hm, ← UInt32.and_assoc, hnoncurve, UInt32.zero_and]
  have hek : ekPresent x = false := by simp [ekPresent, hsub flagMlkemEkPresent (by decide)]
  have hcf : confirmPresent x = false := by
    simp [confirmPresent, hsub flagConfirmCtPresent (by decide)]
  have h := flags_eq_headerFlags desc hcurve (hsub flagReservedMask (by decide))
  rwa [hek, hcf] at h

/-- The length of an encoded classical header. -/
theorem length_gyDrHeaderEncode {h : DrHeader β} {cap : Nat} {b : Bytes β}
    (he : gyDrHeaderEncode desc h cap = .ok b) : b.length = 4 + desc.curvePkLen + 4 + 4 := by
  unfold gyDrHeaderEncode at he
  split_ifs at he
  cases he
  simp only [List.length_append, length_be32Put, length_fixed]

/-- A classical header decodes to what was encoded. -/
theorem gyDrHeaderDecode_encode {h : DrHeader β} {cap : Nat} {b : Bytes β}
    (hflags : h.flags = headerFlags desc false false) (hpk : h.ratchetPk.length = desc.curvePkLen)
    (he : gyDrHeaderEncode desc h cap = .ok b) :
    gyDrHeaderDecode desc b = .ok (h, 4 + desc.curvePkLen + 4 + 4) := by
  have hlen := length_gyDrHeaderEncode desc he
  unfold gyDrHeaderEncode at he
  split_ifs at he
  rw [fixed_of_length hpk] at he
  obtain rfl := Except.ok.inj he
  generalize hb : be32Put h.flags ++ h.ratchetPk ++ be32Put h.pn ++ be32Put h.n = b at hlen
  have hfl : be32Get b = h.flags := by simp [← hb]
  have hrk : (b.drop 4).take desc.curvePkLen = h.ratchetPk :=
    take_drop_field (be32Put h.flags) (be32Put h.pn ++ be32Put h.n)
      (by simp [← hb]) (by simp) hpk
  have hpn : be32Get (b.drop (4 + desc.curvePkLen)) = h.pn :=
    be32Get_drop_field (be32Put h.flags ++ h.ratchetPk) (be32Put h.n)
      (by simp [← hb]) (by simp [hpk])
  have hn : be32Get (b.drop (8 + desc.curvePkLen)) = h.n :=
    be32Get_drop_field (be32Put h.flags ++ h.ratchetPk ++ be32Put h.pn) []
      (by simp [← hb]) (by simp [hpk]; omega)
  simp only [gyDrHeaderDecode, hlen, hfl, hrk, hpn, hn, lt_irrefl, if_false]
  simp [hflags]
  exact hflags.symm ▸ rfl

/-- A hybrid header as the sender fills it: the flag word says which optional fields are there, and
an absent field is zeroed. -/
structure DrHybridHeader.Filled (h : DrHybridHeader β) (ek confirm : Bool) : Prop where
  flags : h.flags = headerFlags desc ek confirm
  ratchetPk : h.ratchetPk.length = desc.curvePkLen
  kemCt : h.kemCt.length = desc.kemCtLen
  mlkemEk : h.mlkemEk.length = desc.kemPkLen
  confirmCt : h.confirmCt.length = desc.kemCtLen
  mlkemEk_absent : ek = false → h.mlkemEk = zeros desc.kemPkLen
  confirmCt_absent : confirm = false → h.confirmCt = zeros desc.kemCtLen

/-- The bytes of a filled hybrid header. -/
theorem gyDrHybridHeaderEncode_filled {h : DrHybridHeader β} {ek confirm : Bool}
    (hf : h.Filled desc ek confirm) {cap : Nat} {b : Bytes β}
    (he : gyDrHybridHeaderEncode desc h cap = .ok b) :
    b = be32Put h.flags ++ h.ratchetPk ++ h.kemCt ++ be32Put h.pn ++ be32Put h.n ++
      (if ek then h.mlkemEk else []) ++ (if confirm then h.confirmCt else []) := by
  have hek : ekPresent h.flags = ek := by rw [hf.flags, ekPresent_headerFlags]
  have hcf : confirmPresent h.flags = confirm := by rw [hf.flags, confirmPresent_headerFlags]
  simp only [gyDrHybridHeaderEncode, fixed_of_length hf.ratchetPk, fixed_of_length hf.kemCt,
    fixed_of_length hf.mlkemEk, fixed_of_length hf.confirmCt, hek, hcf] at he
  by_cases hcap : cap < 4 + desc.curvePkLen + desc.kemCtLen + 4 + 4 +
      (if ek then desc.kemPkLen else 0) + (if confirm then desc.kemCtLen else 0)
  · simp [hcap] at he
  · rw [if_neg hcap] at he
    exact (Except.ok.inj he).symm

/-- The length of an encoded hybrid header is one of the four the receiver allows. -/
theorem length_gyDrHybridHeaderEncode {h : DrHybridHeader β} {ek confirm : Bool}
    (hh : desc.isHybrid = true) (hf : h.Filled desc ek confirm) {cap : Nat} {b : Bytes β}
    (he : gyDrHybridHeaderEncode desc h cap = .ok b) :
    b.length = gyDrHybridHeaderLen desc ek confirm := by
  rw [gyDrHybridHeaderEncode_filled desc hf he, gyDrHybridHeaderLen, if_pos hh]
  cases ek <;> cases confirm <;>
    simp [hf.ratchetPk, hf.kemCt, hf.mlkemEk, hf.confirmCt] <;> omega

/-- A filled hybrid header decodes to what was encoded, and every byte of it is consumed. -/
theorem gyDrHybridHeaderDecode_encode {h : DrHybridHeader β} {ek confirm : Bool}
    (hh : desc.isHybrid = true) (hf : h.Filled desc ek confirm) {cap : Nat} {b : Bytes β}
    (he : gyDrHybridHeaderEncode desc h cap = .ok b) :
    gyDrHybridHeaderDecode desc b = .ok (h, b.length) := by
  have hlen := length_gyDrHybridHeaderEncode desc hh hf he
  rw [gyDrHybridHeaderLen, if_pos hh] at hlen
  have hb := gyDrHybridHeaderEncode_filled desc hf he
  generalize hekl : (if ek then h.mlkemEk else []) = ekb at hb
  generalize hcfl : (if confirm then h.confirmCt else []) = cfb at hb
  have hfl : be32Get b = h.flags := by simp [hb]
  have hrk : (b.drop 4).take desc.curvePkLen = h.ratchetPk :=
    take_drop_field (be32Put h.flags) (h.kemCt ++ be32Put h.pn ++ be32Put h.n ++ ekb ++ cfb)
      (by simp [hb]) (by simp) hf.ratchetPk
  have hct : (b.drop (4 + desc.curvePkLen)).take desc.kemCtLen = h.kemCt :=
    take_drop_field (be32Put h.flags ++ h.ratchetPk) (be32Put h.pn ++ be32Put h.n ++ ekb ++ cfb)
      (by simp [hb]) (by simp [hf.ratchetPk]) hf.kemCt
  have hpn : be32Get (b.drop (4 + desc.curvePkLen + desc.kemCtLen)) = h.pn :=
    be32Get_drop_field (be32Put h.flags ++ h.ratchetPk ++ h.kemCt) (be32Put h.n ++ ekb ++ cfb)
      (by simp [hb]) (by simp [hf.ratchetPk, hf.kemCt]; omega)
  have hn : be32Get (b.drop (4 + desc.curvePkLen + desc.kemCtLen + 4)) = h.n :=
    be32Get_drop_field (be32Put h.flags ++ h.ratchetPk ++ h.kemCt ++ be32Put h.pn) (ekb ++ cfb)
      (by simp [hb]) (by simp [hf.ratchetPk, hf.kemCt]; omega)
  have hek : (if ek then (b.drop (4 + desc.curvePkLen + desc.kemCtLen + 8)).take desc.kemPkLen
      else zeros desc.kemPkLen) = h.mlkemEk := by
    cases ek with
    | false => exact (hf.mlkemEk_absent rfl).symm
    | true =>
      simp only [if_true] at hekl ⊢
      refine take_drop_field (be32Put h.flags ++ h.ratchetPk ++ h.kemCt ++ be32Put h.pn ++
        be32Put h.n) cfb ?_ ?_ hf.mlkemEk
      · simp [hb, hekl]
      · simp [hf.ratchetPk, hf.kemCt]; omega
  have hcf : (if confirm then (b.drop (4 + desc.curvePkLen + desc.kemCtLen + 8 +
      (if ek then desc.kemPkLen else 0))).take desc.kemCtLen else zeros desc.kemCtLen) =
      h.confirmCt := by
    cases confirm with
    | false => exact (hf.confirmCt_absent rfl).symm
    | true =>
      simp only [if_true] at hcfl ⊢
      refine take_drop_field (be32Put h.flags ++ h.ratchetPk ++ h.kemCt ++ be32Put h.pn ++
        be32Put h.n ++ ekb) [] ?_ ?_ hf.confirmCt
      · simp [hb, hcfl]
      · subst hekl
        cases ek <;> simp [hf.ratchetPk, hf.kemCt, hf.mlkemEk] <;> omega
  have hge : ¬ b.length < 4 := by omega
  simp only [gyDrHybridHeaderDecode, hfl, hrk, hct, hpn, hn, hge, if_false]
  simp only [hf.flags, headerFlags_curve, headerFlags_reserved, ekPresent_headerFlags,
    confirmPresent_headerFlags, ne_eq, not_true, if_false, hek, hcf, ← hlen, lt_irrefl]
  exact hf.flags ▸ rfl

end Geryon
