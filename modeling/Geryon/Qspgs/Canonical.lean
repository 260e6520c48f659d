import Geryon.Proto.Canonical
import Geryon.Qspgs.Lines

/-!
# Canonical objects of a group

Over bytes, every decoder of `qspgs_wire.c` accepts exactly the strings that its encoder writes for
the value it returns. A value is read back from what was encoded if its fields have the widths of
the format: the encoders write a format version, a signature width and a length of `2^32` or more
that no decoder takes.

## Main results

- `gyQspgsHeaderDecode_exact` and its companions: what is accepted is the encoding of the result.
- `qspgsObjects_strict`: the seven formats are strict.
-/

namespace Geryon

/-! ## Fields -/

/-- A 16-bit field is written back as it was read. -/
theorem be16Put_be16Get_append {b : Bytes UInt8} (h : 2 ≤ b.length) :
    be16Put (be16Get b) ++ b.drop 2 = b :=
  be16Codec.put_get_append h

/-- So is a 32-bit field. -/
theorem be32Put_be32Get_append {b : Bytes UInt8} (h : 4 ≤ b.length) :
    be32Put (be32Get b) ++ b.drop 4 = b :=
  be32Codec.put_get_append h

/-- So is a 64-bit field. -/
theorem be64Put_be64Get_append {b : Bytes UInt8} (h : 8 ≤ b.length) :
    be64Put (be64Get b) ++ b.drop 8 = b :=
  be64Codec.put_get_append h

/-- And a byte. -/
theorem ofByte_byteAt_append {b : Bytes UInt8} (h : 1 ≤ b.length) :
    Octet.ofByte (UInt8.ofNat (byteAt b 0)) :: b.drop 1 = b :=
  byteCodec.put_get_append h

/-- A byte of the rest of a string. -/
theorem byteAt_drop (b : Bytes UInt8) (n i : Nat) : byteAt (b.drop n) i = byteAt b (n + i) := by
  simp [byteAt]

/-- A 16-bit length field in front of as many bytes. -/
theorem sized16_append {b : Bytes UInt8} (h : 2 ≤ b.length)
    (hlen : (be16Get b).toNat ≤ (b.drop 2).length) :
    be16Put (UInt16.ofNat ((b.drop 2).take (be16Get b).toNat).length) ++
      ((b.drop 2).take (be16Get b).toNat ++ (b.drop 2).drop (be16Get b).toNat) = b := by
  rw [List.length_take_of_le hlen, UInt16.ofNat_toNat, List.take_append_drop,
    be16Put_be16Get_append h]

/-- A 32-bit length field in front of as many bytes. -/
theorem sized32_append {b : Bytes UInt8} (h : 4 ≤ b.length)
    (hlen : (be32Get b).toNat ≤ (b.drop 4).length) :
    be32Put (UInt32.ofNat ((b.drop 4).take (be32Get b).toNat).length) ++
      ((b.drop 4).take (be32Get b).toNat ++ (b.drop 4).drop (be32Get b).toNat) = b := by
  rw [List.length_take_of_le hlen, UInt32.ofNat_toNat, List.take_append_drop,
    be32Put_be32Get_append h]

variable (desc : SuiteDesc UInt8)

/-- An object header is accepted exactly where it was written. -/
theorem objPutHeader_append_of_check {t : QObj} {b : Bytes UInt8}
    (h : objCheckHeader desc t b = .ok ()) :
    3 ≤ b.length ∧ objPutHeader desc t ++ b.drop qspgsObjHdrLen = b := by
  unfold objCheckHeader at h
  split_ifs at h with hlen hbytes
  obtain ⟨h0, hrest⟩ := not_or.1 hbytes
  obtain ⟨h1, h2⟩ := not_or.1 hrest
  have hlen3 : 3 ≤ b.length := Nat.not_lt.1 hlen
  obtain ⟨x0, b, rfl, hb₁⟩ := exists_cons_of_le_length hlen3
  obtain ⟨x1, b, rfl, hb₂⟩ := exists_cons_of_le_length hb₁
  obtain ⟨x2, b, rfl, -⟩ := exists_cons_of_le_length hb₂
  refine ⟨hlen3, ?_⟩
  simp only [byteAt, List.getElem?_cons_zero, List.getElem?_cons_succ, Option.map_some,
    Option.getD_some, Octet.toByte, id_eq, not_not, UInt8.toNat_inj] at h0 h1 h2
  rw [h0, h1, h2]
  rfl

/-! ## Header -/

/-- A join slot is written back as it was read. -/
theorem joinSlotEncode_of_decode {b join : Bytes UInt8} (h : joinSlotDecode b = .ok join) :
    joinSlotEncode join = b := by
  unfold joinSlotDecode at h
  dsimp only at h
  split_ifs at h with hlen h0 h1 hone hfive hjl heq
  · -- no slot: the flag is the whole string
    obtain rfl := Except.ok.inj h
    obtain ⟨x, b, rfl, -⟩ := exists_cons_of_le_length (Nat.not_lt.1 hlen)
    obtain rfl : b = [] := List.eq_nil_of_length_eq_zero (by simpa using h1)
    have hx : x = 0 := by
      apply UInt8.toNat_inj.1
      simpa [byteAt, Octet.toByte] using h0
    rw [hx]
    rfl
  · obtain rfl := Except.ok.inj h
    have hpos : (b.drop 5).length ≠ 0 := by
      intro h0
      exact hjl (Or.inl (by omega))
    have hlen' : (be32Get (b.drop 1)).toNat = (b.drop 5).length := by omega
    have hflag : Octet.ofByte (UInt8.ofNat (byteAt b 0)) :: b.drop 1 = b :=
      ofByte_byteAt_append (by omega)
    have hfield : be32Put (be32Get (b.drop 1)) ++ (b.drop 1).drop 4 = b.drop 1 :=
      be32Put_be32Get_append (by rw [List.length_drop]; omega)
    rw [List.drop_drop] at hfield
    rw [hone] at hflag
    rw [joinSlotEncode, if_pos hpos, ← hlen', UInt32.ofNat_toNat, hfield]
    exact hflag

/-- The fields of a header behind the group id and in front of the settings. -/
theorem headerFields_append {b : Bytes UInt8} (h : 11 ≤ b.length) :
    be16Put (be16Get b) ++ ([Octet.ofByte (UInt8.ofNat (byteAt b 2))] ++
      (be32Put (be32Get (b.drop 3)) ++ (be32Put (be32Get (b.drop 7)) ++ b.drop 11))) = b := by
  have h7 : be32Put (be32Get (b.drop 7)) ++ (b.drop 7).drop 4 = b.drop 7 :=
    be32Put_be32Get_append (by rw [List.length_drop]; omega)
  have h3 : be32Put (be32Get (b.drop 3)) ++ (b.drop 3).drop 4 = b.drop 3 :=
    be32Put_be32Get_append (by rw [List.length_drop]; omega)
  have h2 : Octet.ofByte (UInt8.ofNat (byteAt (b.drop 2) 0)) :: (b.drop 2).drop 1 = b.drop 2 :=
    ofByte_byteAt_append (by rw [List.length_drop]; omega)
  rw [List.drop_drop] at h2 h3 h7
  rw [byteAt_drop] at h2
  rw [h7, h3, List.singleton_append, h2, be16Put_be16Get_append (by omega)]

/-- A header that is accepted is the encoding of what was read. -/
theorem gyQspgsHeaderDecode_exact {init core : QspgsCore UInt8} {b : Bytes UInt8}
    (h : gyQspgsHeaderDecode desc init b = .ok core) : headerBytes desc core = b := by
  obtain ⟨⟨⟩, hhdr, h⟩ := Except.bind_eq_ok_iff.mp h
  dsimp only at h
  split_ifs at h with hlen hfmt hsal
  obtain ⟨join, hjoin, h⟩ := Except.bind_eq_ok_iff.mp h
  obtain rfl := Except.ok.inj h
  have hslot := joinSlotEncode_of_decode hjoin
  have hobj := (objPutHeader_append_of_check desc hhdr).2
  generalize b.drop qspgsObjHdrLen = body at *
  have hfields := headerFields_append (b := body.drop qspgsGidLen)
    (by rw [List.length_drop]; unfold qspgsGidLen at *; omega)
  generalize hrest : (body.drop qspgsGidLen).drop 11 = rest at *
  rw [← hobj, headerBytes]
  simp only [List.append_assoc]
  rw [hslot, List.take_append_drop, List.length_take_of_le (by omega), UInt32.ofNat_toNat, hfields,
    List.take_append_drop]

/-! ## Member list and key list -/

/-- The hash length and the count in front of a list. -/
theorem countFields_append {b : Bytes UInt8} (h : 3 ≤ b.length)
    (hhash : byteAt b 0 = desc.hashLen % 256) :
    [Octet.ofByte (UInt8.ofNat desc.hashLen)] ++ (be16Put (be16Get (b.drop 1)) ++ b.drop 3) =
      b := by
  have hbyte : Octet.ofByte (UInt8.ofNat (byteAt b 0)) :: b.drop 1 = b :=
    ofByte_byteAt_append (by omega)
  have hfield : be16Put (be16Get (b.drop 1)) ++ (b.drop 1).drop 2 = b.drop 1 :=
    be16Put_be16Get_append (by rw [List.length_drop]; omega)
  have hmod : UInt8.ofNat (byteAt b 0) = UInt8.ofNat desc.hashLen := by
    apply UInt8.toNat_inj.1
    simp [hhash]
  rw [List.drop_drop] at hfield
  rw [hfield, List.singleton_append, ← hmod, hbyte]

/-- The entries that the loop reads are what stands in front of the tail. -/
theorem memberEntries_exact {hlen n : Nat} {b tail : Bytes UInt8} {ms : List (QspgsMember UInt8)}
    (h : memberEntries hlen n b = .ok (ms, tail)) :
    ms.flatMap QspgsMember.encode ++ tail = b := by
  induction n generalizing b ms with
  | zero =>
    obtain ⟨rfl, rfl⟩ := Prod.mk.inj (Except.ok.inj h)
    rfl
  | succ n ih =>
    unfold memberEntries at h
    dsimp only at h
    split_ifs at h with hb hadmn hmlen
    obtain ⟨⟨ms', tail'⟩, hrec, h⟩ := Except.bind_eq_ok_iff.mp h
    obtain ⟨rfl, rfl⟩ := Prod.mk.inj (Except.ok.inj h)
    have hrest := ih hrec
    -- the flag byte is `0` or `1`, so the flag says all of it
    have hflag : (if decide (byteAt b hlen = 1) = true then 1 else 0 : UInt8) =
        UInt8.ofNat (byteAt b hlen) := by
      rcases Nat.le_one_iff_eq_zero_or_eq_one.1 (Nat.not_lt.1 hadmn) with h | h <;> simp [h]
    have hbyte : Octet.ofByte (UInt8.ofNat (byteAt (b.drop hlen) 0)) :: (b.drop hlen).drop 1 =
        b.drop hlen := ofByte_byteAt_append (by rw [List.length_drop]; omega)
    have hfield := sized16_append (b := b.drop (hlen + 1)) (by rw [List.length_drop]; omega)
      (by rw [List.drop_drop]; exact Nat.not_lt.1 hmlen)
    rw [List.drop_drop] at hbyte hfield
    rw [byteAt_drop, Nat.add_zero] at hbyte
    rw [List.flatMap_cons, List.append_assoc, hrest, QspgsMember.encode]
    simp only [List.append_assoc, List.cons_append]
    rw [hflag, hfield, hbyte, List.take_append_drop]

/-- A member list that is accepted is the encoding of what was read. -/
theorem gyQspgsMemberListDecode_exact {init core : QspgsCore UInt8} {b : Bytes UInt8}
    (h : gyQspgsMemberListDecode desc init b = .ok core) : memberListBytes desc core = b := by
  obtain ⟨⟨⟩, hhdr, h⟩ := Except.bind_eq_ok_iff.mp h
  dsimp only at h
  split_ifs at h with hlen hhash hmax
  obtain ⟨⟨ms, tail⟩, hms, h⟩ := Except.bind_eq_ok_iff.mp h
  dsimp only at h
  split_ifs at h with htail
  obtain rfl := Except.ok.inj h
  obtain rfl : tail = [] := List.eq_nil_of_length_eq_zero (not_not.1 htail)
  have hentries := memberEntries_exact hms
  have hn := (memberEntries_ok hms).1
  have hobj := (objPutHeader_append_of_check desc hhdr).2
  generalize b.drop qspgsObjHdrLen = body at *
  rw [List.append_nil] at hentries
  have hcount := countFields_append desc (b := body) (by omega) (not_not.1 hhash)
  rw [← hobj, memberListBytes, hn, UInt16.ofNat_toNat, hentries]
  simp only [List.append_assoc]
  rw [hcount]

/-- The hashes of a list are its bytes. -/
theorem flatten_hashEntries {hlen n : Nat} {b : Bytes UInt8} (h : b.length = n * hlen) :
    (hashEntries hlen n b).flatten = b := by
  induction n generalizing b with
  | zero => exact (List.eq_nil_of_length_eq_zero (by omega)).symm
  | succ n ih =>
    rw [Nat.succ_mul] at h
    rw [hashEntries, List.flatten_cons, ih (by rw [List.length_drop]; omega),
      List.take_append_drop]

/-- A key list that is accepted is the encoding of what was read. -/
theorem gyQspgsVkLstDecode_exact {init core : QspgsCore UInt8} {b : Bytes UInt8}
    (h : gyQspgsVkLstDecode desc init b = .ok core) : vkLstBytes desc core = b := by
  obtain ⟨⟨⟩, hhdr, h⟩ := Except.bind_eq_ok_iff.mp h
  dsimp only at h
  split_ifs at h with hlen hhash hmax hexact
  obtain rfl := Except.ok.inj h
  have hobj := (objPutHeader_append_of_check desc hhdr).2
  generalize b.drop qspgsObjHdrLen = body at *
  have hbody : (body.drop 3).length = (be16Get (body.drop 1)).toNat * desc.hashLen := by
    rw [List.length_drop]
    omega
  have hcount := countFields_append desc (b := body) (by omega) (not_not.1 hhash)
  rw [← hobj, vkLstBytes, (hashEntries_ok hbody).1, UInt16.ofNat_toNat, flatten_hashEntries hbody]
  simp only [List.append_assoc]
  rw [hcount]

/-! ## Core signature -/

/-- A core signature that is accepted is the encoding of what was read, at the width of the tier. -/
theorem gyQspgsCoreSigDecode_exact {sig : CoreSig UInt8} {b : Bytes UInt8}
    (h : gyQspgsCoreSigDecode desc b = .ok sig) :
    coreSigBytes desc sig = b ∧ sig.sig.length = desc.dsaSigLen ∧ sig.sig.length ≤ 0xffff := by
  obtain ⟨⟨⟩, hhdr, h⟩ := Except.bind_eq_ok_iff.mp h
  dsimp only at h
  split_ifs at h with hlen hsl
  obtain ⟨hwidth, hexact⟩ := not_or.1 hsl
  obtain rfl := Except.ok.inj h
  have hobj := (objPutHeader_append_of_check desc hhdr).2
  generalize b.drop qspgsObjHdrLen = body at *
  have hsig : (be16Get (body.drop 8)).toNat = (body.drop 10).length := by
    rw [List.length_drop]
    omega
  have h8 : be16Put (be16Get (body.drop 8)) ++ (body.drop 8).drop 2 = body.drop 8 :=
    be16Put_be16Get_append (by rw [List.length_drop]; omega)
  have h4 : be32Put (be32Get (body.drop 4)) ++ (body.drop 4).drop 4 = body.drop 4 :=
    be32Put_be32Get_append (by rw [List.length_drop]; omega)
  rw [List.drop_drop] at h4 h8
  refine ⟨?_, ?_, ?_⟩
  · rw [← hobj, coreSigBytes]
    simp only [List.append_assoc]
    rw [← hsig, UInt16.ofNat_toNat, h8, h4, be32Put_be32Get_append (by omega)]
  · exact hsig.symm.trans (not_not.1 hwidth)
  · rw [← hsig]
    exact Nat.le_of_lt_succ (be16Get _).toNat_lt

/-! ## Appendix -/

/-- The byte of a kind is the one it was read from. -/
theorem ApxKind.byte_of_ofByte {v : Nat} {kind : ApxKind} (h : ApxKind.ofByte v = some kind) :
    kind.byte = UInt8.ofNat v := by
  unfold ApxKind.ofByte at h
  split_ifs at h with h1 h2 h3 h4 h5
  · rw [← Option.some.inj h, h1]
    rfl
  · rw [← Option.some.inj h, h2]
    rfl
  · rw [← Option.some.inj h, h3]
    rfl
  · rw [← Option.some.inj h, h4]
    rfl
  · rw [← Option.some.inj h, h5]
    rfl

/-- The lines that the loop reads are what stands in front of the tail. -/
theorem apxLines_exact {siglen n : Nat} {b tail : Bytes UInt8} {ls : List (ApxLine UInt8)}
    (h : apxLines siglen n b = .ok (ls, tail)) : ls.flatMap ApxLine.encode ++ tail = b := by
  induction n generalizing b ls with
  | zero =>
    obtain ⟨rfl, rfl⟩ := Prod.mk.inj (Except.ok.inj h)
    rfl
  | succ n ih =>
    unfold apxLines at h
    split at h
    · cases h
    next hb =>
    split at h
    · cases h
    next kind hkind =>
    dsimp only at h
    split_ifs at h with hpl htail hsl
    obtain ⟨⟨ls', tail'⟩, hrec, h⟩ := Except.bind_eq_ok_iff.mp h
    obtain ⟨rfl, rfl⟩ := Prod.mk.inj (Except.ok.inj h)
    have hrest := ih hrec
    have hbyte : Octet.ofByte (UInt8.ofNat (byteAt b 0)) :: b.drop 1 = b :=
      ofByte_byteAt_append (by omega)
    have hauthor : be32Put (be32Get (b.drop 1)) ++ (b.drop 1).drop 4 = b.drop 1 :=
      be32Put_be32Get_append (by rw [List.length_drop]; omega)
    have hpayload := sized16_append (b := b.drop 5) (by rw [List.length_drop]; omega)
      (by rw [List.drop_drop]; exact Nat.not_lt.1 hpl)
    rw [List.drop_drop] at hauthor hpayload
    have hsig := sized16_append (Nat.not_lt.1 htail) (Nat.not_lt.1 (not_or.1 hsl).2)
    rw [List.flatMap_cons, List.append_assoc, hrest, ApxLine.encode,
      ApxKind.byte_of_ofByte hkind]
    simp only [List.append_assoc, List.cons_append]
    rw [hsig, hpayload, hauthor, hbyte]

/-- The version and the count behind the group id of an appendix. -/
theorem appendixFields_append {b : Bytes UInt8} (h : 26 ≤ b.length) :
    b.take 16 ++ (be32Put (be32Get (b.drop 16)) ++ (be32Put (be32Get (b.drop 20)) ++
      (be16Put (be16Get (b.drop 24)) ++ b.drop 26))) = b := by
  have h24 : be16Put (be16Get (b.drop 24)) ++ (b.drop 24).drop 2 = b.drop 24 :=
    be16Put_be16Get_append (by rw [List.length_drop]; omega)
  have h20 : be32Put (be32Get (b.drop 20)) ++ (b.drop 20).drop 4 = b.drop 20 :=
    be32Put_be32Get_append (by rw [List.length_drop]; omega)
  have h16 : be32Put (be32Get (b.drop 16)) ++ (b.drop 16).drop 4 = b.drop 16 :=
    be32Put_be32Get_append (by rw [List.length_drop]; omega)
  rw [List.drop_drop] at h16 h20 h24
  rw [h24, h20, h16, List.take_append_drop]

/-- An appendix that is accepted is the encoding of what was read. -/
theorem gyQspgsAppendixDecode_exact {apx : Appendix UInt8} {b : Bytes UInt8}
    (h : gyQspgsAppendixDecode desc b = .ok apx) : appendixBytes desc apx = b := by
  obtain ⟨⟨⟩, hhdr, h⟩ := Except.bind_eq_ok_iff.mp h
  dsimp only at h
  split_ifs at h with hlen hmax
  obtain ⟨⟨ls, tail⟩, hls, h⟩ := Except.bind_eq_ok_iff.mp h
  dsimp only at h
  split_ifs at h with htail
  obtain rfl := Except.ok.inj h
  obtain rfl : tail = [] := List.eq_nil_of_length_eq_zero (not_not.1 htail)
  have hlines := apxLines_exact hls
  have hn := (apxLines_ok hls).1
  have hobj := (objPutHeader_append_of_check desc hhdr).2
  rw [List.append_nil] at hlines
  generalize b.drop qspgsObjHdrLen = body at *
  unfold qspgsGidLen at hlen
  have hfields := appendixFields_append (b := body) (by omega)
  rw [← hobj, appendixBytes, hn, UInt16.ofNat_toNat, hlines]
  simp only [List.append_assoc]
  rw [qspgsGidLen, hfields]

/-- A well-formed appendix is encoded into a buffer that holds it. -/
theorem gyQspgsAppendixEncode_eq {apx : Appendix UInt8} (hwf : apx.Wf desc)
    (hsig : desc.dsaSigLen ≠ 0) (hsigMax : desc.dsaSigLen ≤ 0xffff) {cap : Nat}
    (hcap : (appendixBytes desc apx).length ≤ cap) :
    gyQspgsAppendixEncode desc apx cap = .ok (appendixBytes desc apx) := by
  have hlines : ¬ (apx.lines.any fun l =>
      decide (l.sig.length = 0 ∨ 0xffff < l.payload.length ∨ 0xffff < l.sig.length)) = true := by
    rw [List.any_eq_true]
    rintro ⟨l, hl, hbad⟩
    have hpay := hwf.payload l hl
    have hwidth := hwf.sig l hl
    have hbad := of_decide_eq_true hbad
    omega
  rw [gyQspgsAppendixEncode, if_neg (Nat.not_lt.2 hwf.lines_le), if_neg hlines,
    if_neg (Nat.not_lt.2 hcap)]

/-! ## Invite queue -/

/-- The entries that the loop reads are what stands in front of the tail. -/
theorem inviteEntries_exact {n : Nat} {b tail : Bytes UInt8} {es : List (Bytes UInt8)}
    (h : inviteEntries n b = .ok (es, tail)) :
    es.flatMap (fun e => be32Put (UInt32.ofNat e.length) ++ e) ++ tail = b := by
  induction n generalizing b es with
  | zero =>
    obtain ⟨rfl, rfl⟩ := Prod.mk.inj (Except.ok.inj h)
    rfl
  | succ n ih =>
    unfold inviteEntries at h
    dsimp only at h
    split_ifs at h with hb hel
    obtain ⟨⟨es', tail'⟩, hrec, h⟩ := Except.bind_eq_ok_iff.mp h
    obtain ⟨rfl, rfl⟩ := Prod.mk.inj (Except.ok.inj h)
    have hrest := ih hrec
    have hentry := sized32_append (Nat.not_lt.1 hb) (Nat.not_lt.1 (not_or.1 hel).2)
    rw [List.flatMap_cons, List.append_assoc, hrest, List.append_assoc, hentry]

/-- A queue that is accepted is the encoding of what was read. -/
theorem gyQspgsInviteQueueDecode_exact {es : List (Bytes UInt8)} {b : Bytes UInt8}
    (h : gyQspgsInviteQueueDecode desc b = .ok es) : inviteQueueBytes desc es = b := by
  obtain ⟨⟨⟩, hhdr, h⟩ := Except.bind_eq_ok_iff.mp h
  dsimp only at h
  split_ifs at h with hlen hmax
  obtain ⟨⟨es', tail⟩, hes, h⟩ := Except.bind_eq_ok_iff.mp h
  dsimp only at h
  split_ifs at h with htail
  obtain rfl := Except.ok.inj h
  obtain rfl : tail = [] := List.eq_nil_of_length_eq_zero (not_not.1 htail)
  have hentries := inviteEntries_exact hes
  have hobj := (objPutHeader_append_of_check desc hhdr).2
  rw [List.append_nil] at hentries
  rw [← hobj, inviteQueueBytes, (inviteEntries_ok hes).1, UInt16.ofNat_toNat, hentries,
    List.append_assoc, be16Put_be16Get_append (Nat.not_lt.1 hlen)]

/-! ## Accounts -/

variable [KrMlDsa UInt8]

/-- The key and the tag of a registration record have the widths of the tier. -/
structure Acct.Widths (a : Acct UInt8) : Prop where
  vkb : a.vkb.length = KrMlDsa.vkbLen desc
  acq : a.acq.length = gyQspgsMasterKeyLen desc

/-- A registration record that is accepted is the encoding of what was read. -/
theorem gyQspgsAcctDecode_exact {a : Acct UInt8} {b : Bytes UInt8}
    (h : gyQspgsAcctDecode desc (some b) = .ok a) :
    acctBytes desc a = b ∧ Acct.Widths desc a ∧
      (KrMlDsa.vkbLen desc ≠ 0 ∧ gyQspgsMasterKeyLen desc ≠ 0) ∧
      (a.edSig.length ≠ 0 ∧ a.edSig.length ≤ 0xffff) ∧
      a.mldsaSig.length ≠ 0 ∧ a.mldsaSig.length ≤ 0xffff := by
  unfold gyQspgsAcctDecode at h
  dsimp only at h
  by_cases hdesc : KrMlDsa.vkbLen desc = 0 ∨ gyQspgsMasterKeyLen desc = 0
  · rw [if_pos hdesc] at h
    cases h
  rw [if_neg hdesc] at h
  obtain ⟨⟨⟩, hhdr, h⟩ := Except.bind_eq_ok_iff.mp h
  split_ifs at h with hlen hed htail hpq
  obtain rfl := Except.ok.inj h
  have hobj := (objPutHeader_append_of_check desc hhdr).2
  generalize b.drop qspgsObjHdrLen = body at *
  generalize hfields : body.drop (KrMlDsa.vkbLen desc + gyQspgsMasterKeyLen desc) = fields at *
  have hfieldsLen : fields.length =
      body.length - (KrMlDsa.vkbLen desc + gyQspgsMasterKeyLen desc) := by
    rw [← hfields, List.length_drop]
  obtain ⟨hed₀, hed₁⟩ := not_or.1 hed
  obtain ⟨hpq₀, hpq₁⟩ := not_or.1 hpq
  -- the string splits into key, tag, epoch and two sized signatures
  have hkeys : body.take (KrMlDsa.vkbLen desc) ++
      ((body.drop (KrMlDsa.vkbLen desc)).take (gyQspgsMasterKeyLen desc) ++ fields) = body := by
    rw [← hfields, ← List.drop_drop, List.take_append_drop, List.take_append_drop]
  have hep : be64Put (be64Get fields) ++ fields.drop 8 = fields :=
    be64Put_be64Get_append (by omega)
  have hcurve := sized16_append (b := fields.drop 8) (by rw [List.length_drop]; omega)
    (by rw [List.drop_drop]; exact Nat.not_lt.1 hed₁)
  rw [List.drop_drop] at hcurve
  generalize hlast : (fields.drop 10).drop (be16Get (fields.drop 8)).toNat = last at *
  have hdsa : be16Put (be16Get last) ++ last.drop 2 = last :=
    be16Put_be16Get_append (by omega)
  have hmsl : (last.drop 2).length = (be16Get last).toNat := not_not.1 hpq₁
  have hesl : ((fields.drop 10).take (be16Get (fields.drop 8)).toNat).length =
      (be16Get (fields.drop 8)).toNat := List.length_take_of_le (Nat.not_lt.1 hed₁)
  refine ⟨?_, ⟨?_, ?_⟩, not_or.1 hdesc, ⟨?_, ?_⟩, ?_, ?_⟩
  · rw [← hobj, acctBytes]
    simp only [List.append_assoc]
    rw [hmsl, UInt16.ofNat_toNat, hdsa, hcurve, hep, hkeys]
  · exact List.length_take_of_le (by omega)
  · exact List.length_take_of_le (by rw [List.length_drop]; omega)
  · rw [hesl]
    exact hed₀
  · rw [hesl]
    exact Nat.le_of_lt_succ (be16Get _).toNat_lt
  · rw [hmsl]
    exact hpq₀
  · rw [hmsl]
    exact Nat.le_of_lt_succ (be16Get _).toNat_lt

/-- A registration record decodes to what was encoded. -/
theorem gyQspgsAcctDecode_acctBytes {a : Acct UInt8} (hw : Acct.Widths desc a)
    (hdesc : ¬(KrMlDsa.vkbLen desc = 0 ∨ gyQspgsMasterKeyLen desc = 0))
    (hed₀ : a.edSig.length ≠ 0) (hed : a.edSig.length ≤ 0xffff) (hpq₀ : a.mldsaSig.length ≠ 0)
    (hpq : a.mldsaSig.length ≤ 0xffff) :
    gyQspgsAcctDecode desc (some (acctBytes desc a)) = .ok a := by
  have hesl : (UInt16.ofNat a.edSig.length).toNat = a.edSig.length := by
    rw [UInt16.toNat_ofNat']
    exact Nat.mod_eq_of_lt (by omega)
  have hmsl : (UInt16.ofNat a.mldsaSig.length).toNat = a.mldsaSig.length := by
    rw [UInt16.toNat_ofNat']
    exact Nat.mod_eq_of_lt (by omega)
  unfold gyQspgsAcctDecode acctBytes
  dsimp only
  simp only [List.append_assoc]
  rw [if_neg hdesc, objCheckHeader_objPutHeader, Except.ok_bind, drop_objPutHeader]
  generalize hlast : be16Put (UInt16.ofNat a.mldsaSig.length) ++ a.mldsaSig = last
  have hlastGet : be16Get last = UInt16.ofNat a.mldsaSig.length := by
    rw [← hlast, be16Get_be16Put]
  have hlastDrop : last.drop 2 = a.mldsaSig := by
    rw [← hlast]
    exact List.drop_left' (length_be16Put _)
  have hlastLen : last.length = 2 + a.mldsaSig.length := by
    rw [← hlast, List.length_append, length_be16Put]
  generalize htail : be64Put a.ep ++ (be16Put (UInt16.ofNat a.edSig.length) ++
    (a.edSig ++ last)) = tail
  have htailGet : be16Get (tail.drop 8) = UInt16.ofNat a.edSig.length :=
    be16Get_drop_field (be64Put a.ep) (a.edSig ++ last) htail.symm (length_be64Put _)
  have htailDrop : tail.drop 10 = a.edSig ++ last :=
    drop_field (be64Put a.ep ++ be16Put (UInt16.ofNat a.edSig.length))
      (by rw [← htail, List.append_assoc]) (by simp)
  have htailEp : be64Get tail = a.ep := by rw [← htail, be64Get_be64Put]
  have htailLen : 10 ≤ tail.length := by
    rw [← htail, List.length_append, List.length_append, length_be64Put, length_be16Put]
    omega
  have hdrop : (a.vkb ++ (a.acq ++ tail)).drop
      (KrMlDsa.vkbLen desc + gyQspgsMasterKeyLen desc) = tail :=
    drop_field (a.vkb ++ a.acq) (List.append_assoc _ _ _).symm
      (by rw [List.length_append, hw.vkb, hw.acq])
  have hlen : ¬(a.vkb ++ (a.acq ++ tail)).length <
      KrMlDsa.vkbLen desc + gyQspgsMasterKeyLen desc + 8 + 2 := by
    rw [List.length_append, List.length_append, hw.vkb, hw.acq]
    omega
  rw [if_neg hlen, hdrop, htailGet, htailDrop, hesl, if_neg (by simp [hed₀]), List.drop_left,
    if_neg (by omega), hlastGet, hlastDrop, hmsl, if_neg (by simp [hpq₀]), htailEp, List.take_left,
    List.take_left' hw.vkb, List.drop_left' hw.vkb, List.take_left' hw.acq]

/-! ## The seven formats -/

/-- A core that is `init` with the fields of a header, of the widths of the wire. -/
structure QspgsCore.HeaderOver (init core : QspgsCore UInt8) : Prop where
  gid : core.gid.length = qspgsGidLen
  format : core.formatVersion = qspgsFormatVersion
  saCt : core.saCt.length < 2 ^ 32
  joinCt : core.joinCt.length < 2 ^ 32
  rest : core = { init with
    gid := core.gid
    formatVersion := core.formatVersion
    aeadId := core.aeadId
    vmaj := core.vmaj
    saCt := core.saCt
    joinCt := core.joinCt }

/-- A core that is `init` with members whose commitments have the hash length. -/
structure QspgsCore.MembersOver (init core : QspgsCore UInt8) : Prop where
  cuid : ∀ m ∈ core.members, m.cuid.length = desc.hashLen
  rest : core = { init with members := core.members }

/-- A core that is `init` with key hashes of the hash length. -/
structure QspgsCore.KeysOver (init core : QspgsCore UInt8) : Prop where
  vkhash : ∀ h ∈ core.vkhash, h.length = desc.hashLen
  rest : core = { init with vkhash := core.vkhash }

/-- An appendix whose group id and signatures have the widths of the tier. -/
structure Appendix.Widths (apx : Appendix UInt8) : Prop where
  gid : apx.gid.length = qspgsGidLen
  sig : ∀ l ∈ apx.lines, l.sig.length = desc.dsaSigLen

omit [KrMlDsa UInt8]

/-- A core without members is well formed if its header is. -/
theorem QspgsCore.HeaderOver.wf {init core : QspgsCore UInt8} (h : init.HeaderOver core) :
    ({ core with members := [], vkhash := [] } : QspgsCore UInt8).Wf desc where
  gid := h.gid
  format := h.format
  saCt := h.saCt
  joinCt := h.joinCt
  members_le := Nat.zero_le _
  cuid := by simp
  mct := by simp
  vkhash_le := Nat.zero_le _
  vkhash := by simp

/-- Headers are strict. -/
theorem qspgsHeader_strict (init : QspgsCore UInt8) :
    Strict init.HeaderOver (fun cap core => gyQspgsHeaderEncode desc core cap)
      (gyQspgsHeaderDecode desc init) where
  round_trip {core cap b} hcore h := by
    rw [gyQspgsHeaderEncode] at h
    split_ifs at h with hcap
    obtain rfl := Except.ok.inj h
    have hdec := gyQspgsHeaderDecode_headerBytes desc init (hcore.wf desc)
    exact hdec.trans (congrArg Except.ok hcore.rest.symm)
  exact {b core} h := by
    obtain ⟨hgid, hfmt, hsa, hjoin, hmem, hvk, hvmin⟩ := gyQspgsHeaderDecode_ok desc h
    obtain rfl := gyQspgsHeaderDecode_exact desc h
    refine ⟨⟨hgid, hfmt, hsa, hjoin, ?_⟩, fun cap hcap => ?_⟩
    · rw [← hmem, ← hvk, ← hvmin]
    · rw [gyQspgsHeaderEncode, if_neg (Nat.not_lt.2 hcap)]

/-- Well-formed members behind a supported header. -/
theorem wf_members {ms : List (QspgsMember UInt8)} (hmax : ms.length ≤ qspgsMaxEntries)
    (hcuid : ∀ m ∈ ms, m.cuid.length = desc.hashLen) (hmct : ∀ m ∈ ms, m.mct.length ≤ 0xffff) :
    ({ QspgsCore.zero with
      formatVersion := qspgsFormatVersion
      members := ms } : QspgsCore UInt8).Wf desc where
  gid := length_zeros _
  format := rfl
  saCt := Nat.two_pow_pos 32
  joinCt := Nat.two_pow_pos 32
  members_le := hmax
  cuid := hcuid
  mct := hmct
  vkhash_le := Nat.zero_le _
  vkhash := fun _ h => nomatch h

/-- Member lists are strict. -/
theorem qspgsMemberList_strict (init : QspgsCore UInt8) :
    Strict (init.MembersOver desc) (fun cap core => gyQspgsMemberListEncode desc core cap)
      (gyQspgsMemberListDecode desc init) where
  round_trip {core cap b} hcore h := by
    rw [gyQspgsMemberListEncode] at h
    split_ifs at h with hmax hmct hcap
    obtain rfl := Except.ok.inj h
    have hwf := wf_members desc (Nat.not_lt.1 hmax) hcore.cuid (by simpa using hmct)
    have hdec := gyQspgsMemberListDecode_memberListBytes desc init hwf
    exact hdec.trans (congrArg Except.ok hcore.rest.symm)
  exact {b core} h := by
    obtain ⟨ms, rfl, hmax, hms⟩ := gyQspgsMemberListDecode_ok desc h
    obtain rfl := gyQspgsMemberListDecode_exact desc h
    have hany : ¬ (ms.any fun m => decide (0xffff < m.mct.length)) = true := by
      simpa using fun m hm => (hms m hm).2
    refine ⟨⟨fun m hm => (hms m hm).1, rfl⟩, fun cap hcap => ?_⟩
    rw [gyQspgsMemberListEncode, if_neg (Nat.not_lt.2 hmax), if_neg hany,
      if_neg (Nat.not_lt.2 hcap)]

/-- Key lists are strict. -/
theorem qspgsVkLst_strict (init : QspgsCore UInt8) :
    Strict (init.KeysOver desc) (fun cap core => gyQspgsVkLstEncode desc core cap)
      (gyQspgsVkLstDecode desc init) where
  round_trip {core cap b} hcore h := by
    rw [gyQspgsVkLstEncode] at h
    split_ifs at h with hmax hcap
    obtain rfl := Except.ok.inj h
    have hwf : ({ QspgsCore.zero with
        formatVersion := qspgsFormatVersion
        vkhash := core.vkhash } : QspgsCore UInt8).Wf desc :=
      { @wf_members desc [] (Nat.zero_le _) (by simp) (by simp) with
        vkhash_le := Nat.not_lt.1 hmax
        vkhash := hcore.vkhash }
    have hdec := gyQspgsVkLstDecode_vkLstBytes desc init hwf
    exact hdec.trans (congrArg Except.ok hcore.rest.symm)
  exact {b core} h := by
    obtain ⟨hs, rfl, hmax, hhs⟩ := gyQspgsVkLstDecode_ok desc h
    obtain rfl := gyQspgsVkLstDecode_exact desc h
    refine ⟨⟨hhs, rfl⟩, fun cap hcap => ?_⟩
    rw [gyQspgsVkLstEncode, if_neg (Nat.not_lt.2 hmax), if_neg (Nat.not_lt.2 hcap)]

/-- Core signatures are strict. -/
theorem qspgsCoreSig_strict (hsig : desc.dsaSigLen ≠ 0) :
    Strict (fun s : CoreSig UInt8 => s.sig.length = desc.dsaSigLen)
      (fun cap s => gyQspgsCoreSigEncode desc s cap) (gyQspgsCoreSigDecode desc) where
  round_trip {s cap b} hs h := by
    rw [gyQspgsCoreSigEncode] at h
    split_ifs at h with hlen hcap
    obtain rfl := Except.ok.inj h
    exact gyQspgsCoreSigDecode_coreSigBytes desc hs (Nat.not_lt.1 (not_or.1 hlen).2)
  exact {b s} h := by
    obtain ⟨rfl, hwidth, hlen⟩ := gyQspgsCoreSigDecode_exact desc h
    refine ⟨hwidth, fun cap hcap => ?_⟩
    rw [gyQspgsCoreSigEncode, if_neg (by omega), if_neg (Nat.not_lt.2 hcap)]

/-- Appendices are strict, with lines of every kind. -/
theorem qspgsAppendix_strict (hsig : desc.dsaSigLen ≠ 0) (hsigMax : desc.dsaSigLen ≤ 0xffff) :
    Strict (Appendix.Widths desc) (fun cap apx => gyQspgsAppendixEncode desc apx cap)
      (gyQspgsAppendixDecode desc) where
  round_trip {apx cap b} hapx h := by
    rw [gyQspgsAppendixEncode] at h
    split_ifs at h with hmax hlines hcap
    obtain rfl := Except.ok.inj h
    simp only [List.any_eq_true, decide_eq_true_eq, not_exists, not_and, not_or, Nat.not_lt]
      at hlines
    have hwf : apx.Wf desc :=
      ⟨hapx.gid, Nat.not_lt.1 hmax, fun l hl => (hlines l hl).2.1, hapx.sig⟩
    exact gyQspgsAppendixDecode_appendixBytes desc hwf hsigMax
  exact {b apx} h := by
    obtain ⟨hwf, -⟩ := gyQspgsAppendixDecode_ok desc h
    obtain rfl := gyQspgsAppendixDecode_exact desc h
    refine ⟨⟨hwf.gid, hwf.sig⟩, fun cap hcap => ?_⟩
    exact gyQspgsAppendixEncode_eq desc hwf hsig hsigMax hcap

/-- Invite queues are strict. -/
theorem qspgsInviteQueue_strict :
    Strict (fun es : List (Bytes UInt8) => ∀ e ∈ es, e.length < 2 ^ 32)
      (fun cap es => gyQspgsInviteQueueEncode desc es cap) (gyQspgsInviteQueueDecode desc) where
  round_trip {es cap b} hes h := by
    rw [gyQspgsInviteQueueEncode] at h
    split_ifs at h with hmax hne hcap
    obtain rfl := Except.ok.inj h
    refine gyQspgsInviteQueueDecode_inviteQueueBytes desc (Nat.not_lt.1 hmax) ?_ hes
    intro e he h0
    exact hne (List.any_eq_true.2 ⟨e, he, decide_eq_true h0⟩)
  exact {b es} h := by
    refine ⟨gyQspgsInviteQueueDecode_lt desc h, fun cap hcap => ?_⟩
    rw [(gyQspgsInviteQueueEncode_of_sublist desc h (List.Sublist.refl es) hcap).1,
      gyQspgsInviteQueueDecode_exact desc h]

/-- Accounts are strict. -/
theorem qspgsAcct_strict [KrMlDsa UInt8] :
    Strict (Acct.Widths desc) (fun cap a => gyQspgsAcctEncode desc a cap)
      (fun b => gyQspgsAcctDecode desc (some b)) where
  round_trip {a cap b} ha h := by
    rw [gyQspgsAcctEncode] at h
    split_ifs at h with hdesc hsigs hcap
    obtain rfl := Except.ok.inj h
    simp only [not_or] at hsigs
    exact gyQspgsAcctDecode_acctBytes desc ha hdesc hsigs.1 (Nat.not_lt.1 hsigs.2.1) hsigs.2.2.1
      (Nat.not_lt.1 hsigs.2.2.2)
  exact {b a} h := by
    obtain ⟨rfl, hw, hdesc, hed, hpq⟩ := gyQspgsAcctDecode_exact desc h
    refine ⟨hw, fun cap hcap => ?_⟩
    rw [gyQspgsAcctEncode, if_neg (not_or.2 hdesc), if_neg (by omega), if_neg (Nat.not_lt.2 hcap)]

/-- The objects of a group are canonical: each decoder accepts exactly the encodings of the values
it returns, and each value of the widths of the format is read back from its encoding. -/
theorem qspgsObjects_strict [KrMlDsa UInt8] (hsig : desc.dsaSigLen ≠ 0)
    (hsigMax : desc.dsaSigLen ≤ 0xffff) (init : QspgsCore UInt8) :
    Strict init.HeaderOver (fun cap core => gyQspgsHeaderEncode desc core cap)
      (gyQspgsHeaderDecode desc init) ∧
    Strict (init.MembersOver desc) (fun cap core => gyQspgsMemberListEncode desc core cap)
      (gyQspgsMemberListDecode desc init) ∧
    Strict (init.KeysOver desc) (fun cap core => gyQspgsVkLstEncode desc core cap)
      (gyQspgsVkLstDecode desc init) ∧
    Strict (fun s : CoreSig UInt8 => s.sig.length = desc.dsaSigLen)
      (fun cap s => gyQspgsCoreSigEncode desc s cap) (gyQspgsCoreSigDecode desc) ∧
    Strict (Appendix.Widths desc) (fun cap apx => gyQspgsAppendixEncode desc apx cap)
      (gyQspgsAppendixDecode desc) ∧
    Strict (fun es : List (Bytes UInt8) => ∀ e ∈ es, e.length < 2 ^ 32)
      (fun cap es => gyQspgsInviteQueueEncode desc es cap) (gyQspgsInviteQueueDecode desc) ∧
    Strict (Acct.Widths desc) (fun cap a => gyQspgsAcctEncode desc a cap)
      (fun b => gyQspgsAcctDecode desc (some b)) :=
  ⟨qspgsHeader_strict desc init, qspgsMemberList_strict desc init, qspgsVkLst_strict desc init,
    qspgsCoreSig_strict desc hsig, qspgsAppendix_strict desc hsig hsigMax,
    qspgsInviteQueue_strict desc, qspgsAcct_strict desc⟩

/-- The sizes of a hybrid tier, without its primitives. -/
def qspgsWireSuite : SuiteDesc UInt8 :=
  { wireSuite with
    suiteId := 2
    isHybrid := true
    name := "geryon_h25519_512"
    kemPkLen := 800
    kemSkLen := 1632
    kemCtLen := 768
    kemSsLen := 32
    dsaPkLen := 1312
    dsaSigLen := 2420 }

/-- The base-key widths of the tier, without its primitives. -/
@[reducible] def qspgsWireKr : KrMlDsa UInt8 where
  vkbLen _ := 2976
  skbLen _ := 800
  randVk _ _ _ := .error .crypto
  randSk _ _ _ _ := .error .crypto
  sign _ _ _ _ _ := .error .crypto
  verify _ _ _ _ _ := false

/-- At the sizes of the tier all seven formats are canonical; the first three are read into a core
that holds nothing yet. -/
theorem qspgsObjects_strict_tier :
    letI : KrMlDsa UInt8 := qspgsWireKr
    Strict QspgsCore.zero.HeaderOver (fun cap core => gyQspgsHeaderEncode qspgsWireSuite core cap)
      (gyQspgsHeaderDecode qspgsWireSuite QspgsCore.zero) ∧
    Strict (QspgsCore.zero.MembersOver qspgsWireSuite)
      (fun cap core => gyQspgsMemberListEncode qspgsWireSuite core cap)
      (gyQspgsMemberListDecode qspgsWireSuite QspgsCore.zero) ∧
    Strict (QspgsCore.zero.KeysOver qspgsWireSuite)
      (fun cap core => gyQspgsVkLstEncode qspgsWireSuite core cap)
      (gyQspgsVkLstDecode qspgsWireSuite QspgsCore.zero) ∧
    Strict (fun s : CoreSig UInt8 => s.sig.length = 2420)
      (fun cap s => gyQspgsCoreSigEncode qspgsWireSuite s cap)
      (gyQspgsCoreSigDecode qspgsWireSuite) ∧
    Strict (Appendix.Widths qspgsWireSuite)
      (fun cap apx => gyQspgsAppendixEncode qspgsWireSuite apx cap)
      (gyQspgsAppendixDecode qspgsWireSuite) ∧
    Strict (fun es : List (Bytes UInt8) => ∀ e ∈ es, e.length < 2 ^ 32)
      (fun cap es => gyQspgsInviteQueueEncode qspgsWireSuite es cap)
      (gyQspgsInviteQueueDecode qspgsWireSuite) ∧
    Strict (Acct.Widths qspgsWireSuite) (fun cap a => gyQspgsAcctEncode qspgsWireSuite a cap)
      (fun b => gyQspgsAcctDecode qspgsWireSuite (some b)) :=
  letI : KrMlDsa UInt8 := qspgsWireKr
  qspgsObjects_strict qspgsWireSuite (by decide) (by decide) QspgsCore.zero

/-- A core signature of one byte is encoded, and is not read back. -/
theorem short_core_signature_refused :
    gyQspgsCoreSigEncode qspgsWireSuite ⟨0, 0, [7]⟩ 14 =
      .ok (coreSigBytes qspgsWireSuite ⟨0, 0, [7]⟩) ∧
    gyQspgsCoreSigDecode qspgsWireSuite (coreSigBytes qspgsWireSuite ⟨0, 0, [7]⟩) =
      .error .verify := by
  decide

end Geryon
