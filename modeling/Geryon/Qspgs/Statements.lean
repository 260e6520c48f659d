import Geryon.Qspgs.Canonical

/-!
# The signed statements of a group

What the signatures of a group are made over: a core, a line of the appendix, the registration of a
user and the acceptance of an invitation. The strings of each kind determine their fields. The
strings of different kinds may be equal: every core of the supported format reads as a leave line.
The kinds are kept apart by the context each is signed in.

## Main definitions

- `GroupStatement.signed`: the context and the string that is signed.

## Main results

- `groupStatement_inj`: context and string determine the statement.
-/

namespace Geryon

variable {β : Type} [Octet β]

/-! ## Labels -/

/-- The bytes of a label. -/
def asciiCodes (s : String) : List UInt8 := s.toList.map fun c => UInt8.ofNat c.toNat

/-- A text as its codes. -/
theorem ascii_eq (s : String) : (ascii s : Bytes β) = (asciiCodes s).map Octet.ofByte := by
  simp [ascii, asciiCodes]

/-- Octets are told apart. -/
theorem ofByte_injective : Function.Injective (Octet.ofByte : UInt8 → β) := fun _ _ => ofByte_inj

/-- Labels of which none begins the other begin different strings. -/
theorem ascii_append_ne {s t : String} (hst : ¬asciiCodes s <+: asciiCodes t)
    (hts : ¬asciiCodes t <+: asciiCodes s) (r r' : Bytes β) : ascii s ++ r ≠ ascii t ++ r' := by
  intro h
  have hs : (ascii s : Bytes β) <+: ascii t ++ r' := ⟨r, h⟩
  have ht : (ascii t : Bytes β) <+: ascii t ++ r' := ⟨r', rfl⟩
  rw [ascii_eq] at hs
  rw [ascii_eq t] at hs ht
  rcases List.prefix_or_prefix_of_prefix hs ht with hp | hp
  · exact hst ((List.prefix_map_iff_of_injective ofByte_injective).1 hp)
  · exact hts ((List.prefix_map_iff_of_injective ofByte_injective).1 hp)

variable (desc : SuiteDesc β)

/-- The info string of a purpose. -/
def infoBytes (purpose : String) : Bytes β :=
  ascii "geryon" ++ ascii "." ++ ascii "1" ++ ascii "." ++ ascii desc.name ++ ascii "." ++
    ascii purpose

/-- The info string of a purpose. -/
theorem gyInfo_ok {cap : Nat} {purpose : String} {info : Bytes β}
    (h : gyInfo desc cap purpose = .ok info) : info = infoBytes desc purpose := by
  unfold gyInfo at h
  split_ifs at h
  exact (Except.ok.inj h).symm

/-- The info strings of a suite differ where their purposes do. -/
theorem infoBytes_append_ne {s t : String} (hst : ¬asciiCodes s <+: asciiCodes t)
    (hts : ¬asciiCodes t <+: asciiCodes s) (r r' : Bytes β) :
    infoBytes desc s ++ r ≠ infoBytes desc t ++ r' := by
  intro h
  simp only [infoBytes, List.append_assoc, List.append_cancel_left_eq] at h
  exact ascii_append_ne hst hts r r' h

/-- No info string begins with the byte of a curve type. -/
theorem infoBytes_append_ne_cons {b : UInt8} (hb : b ≠ 103) (purpose : String) (r r' : Bytes β) :
    infoBytes desc purpose ++ r ≠ Octet.ofByte b :: r' := by
  intro h
  have hhead : (Octet.ofByte 103 : β) = Octet.ofByte b := by
    have := congrArg List.head? h
    simpa [infoBytes, ascii] using this
  exact hb (ofByte_inj hhead).symm

/-! ## Objects in front of a string -/

/-- A length that fits its field is read off with as many octets. -/
theorem sized16_append_inj {a b r s : Bytes β} (ha : a.length ≤ 0xffff) (hb : b.length ≤ 0xffff)
    (h : be16Put (UInt16.ofNat a.length) ++ (a ++ r) =
      be16Put (UInt16.ofNat b.length) ++ (b ++ s)) : a = b ∧ r = s := by
  obtain ⟨hlen, h⟩ := be16Put_append_inj h
  have hlen := congrArg UInt16.toNat hlen
  rw [UInt16.toNat_ofNat', UInt16.toNat_ofNat', Nat.mod_eq_of_lt (by omega),
    Nat.mod_eq_of_lt (by omega)] at hlen
  exact List.append_inj h hlen

/-- A field behind its length is told apart from what follows. -/
theorem sized32_append_inj {a b r s : Bytes β} (ha : a.length < 2 ^ 32) (hb : b.length < 2 ^ 32)
    (h : be32Put (UInt32.ofNat a.length) ++ (a ++ r) =
      be32Put (UInt32.ofNat b.length) ++ (b ++ s)) : a = b ∧ r = s := by
  obtain ⟨hlen, h⟩ := be32Put_append_inj h
  have hlen := congrArg UInt32.toNat hlen
  rw [UInt32.toNat_ofNat', UInt32.toNat_ofNat', Nat.mod_eq_of_lt ha, Nat.mod_eq_of_lt hb] at hlen
  exact List.append_inj h hlen

/-- So is a join slot. -/
theorem joinSlotEncode_append_inj {a b r s : Bytes β} (ha : a.length < 2 ^ 32)
    (hb : b.length < 2 ^ 32) (h : joinSlotEncode a ++ r = joinSlotEncode b ++ s) :
    a = b ∧ r = s := by
  unfold joinSlotEncode at h
  split_ifs at h with h₁ h₂ h₃
  · simp only [List.cons_append, List.append_assoc] at h
    exact sized32_append_inj ha hb (List.cons.inj h).2
  · exact absurd (ofByte_inj (List.cons.inj h).1) (by decide)
  · exact absurd (ofByte_inj (List.cons.inj h).1) (by decide)
  · rw [List.eq_nil_of_length_eq_zero (not_not.1 h₁), List.eq_nil_of_length_eq_zero (not_not.1 h₃)]
    exact ⟨rfl, (List.cons.inj h).2⟩

/-- A core whose fixed-width fields have their widths and whose blobs have 32-bit lengths. -/
structure QspgsCore.Sized (core : QspgsCore β) : Prop where
  gid : core.gid.length = qspgsGidLen
  saCt : core.saCt.length < 2 ^ 32
  joinCt : core.joinCt.length < 2 ^ 32
  cuid : ∀ m ∈ core.members, m.cuid.length = desc.hashLen
  vkhash : ∀ h ∈ core.vkhash, h.length = desc.hashLen

/-- A header determines its fields and ends where it ends. -/
theorem headerBytes_append_inj {core core' : QspgsCore β} (hc : core.Sized desc)
    (hc' : core'.Sized desc) {r r' : Bytes β}
    (h : headerBytes desc core ++ r = headerBytes desc core' ++ r') :
    (core.gid = core'.gid ∧ core.formatVersion = core'.formatVersion ∧
      core.aeadId = core'.aeadId ∧ core.vmaj = core'.vmaj ∧ core.saCt = core'.saCt ∧
      core.joinCt = core'.joinCt) ∧ r = r' := by
  simp only [headerBytes, List.append_assoc, List.append_cancel_left_eq] at h
  obtain ⟨hgid, h⟩ := List.append_inj h (hc.gid.trans hc'.gid.symm)
  obtain ⟨hformat, h⟩ := be16Put_append_inj h
  obtain ⟨haead, h⟩ := List.cons.inj h
  obtain ⟨hvmaj, h⟩ := be32Put_append_inj h
  obtain ⟨hsa, h⟩ := sized32_append_inj hc.saCt hc'.saCt h
  obtain ⟨hjoin, h⟩ := joinSlotEncode_append_inj hc.joinCt hc'.joinCt h
  exact ⟨⟨hgid, hformat, ofByte_inj haead, hvmaj, hsa, hjoin⟩, h⟩

/-- A flag byte determines the flag. -/
theorem flag_inj : ∀ a b : Bool, (if a then 1 else 0 : UInt8) = (if b then 1 else 0) → a = b := by
  decide

/-- As many entries in front of two equal strings are the same entries. -/
theorem memberEntries_append_inj {ms ms' : List (QspgsMember β)} (hlen : ms.length = ms'.length)
    (hcuid : ∀ m ∈ ms, m.cuid.length = desc.hashLen)
    (hcuid' : ∀ m ∈ ms', m.cuid.length = desc.hashLen)
    (hmct : ∀ m ∈ ms, m.mct.length ≤ 0xffff) (hmct' : ∀ m ∈ ms', m.mct.length ≤ 0xffff)
    {r r' : Bytes β}
    (h : ms.flatMap QspgsMember.encode ++ r = ms'.flatMap QspgsMember.encode ++ r') :
    ms = ms' ∧ r = r' := by
  induction ms generalizing ms' with
  | nil =>
    obtain rfl := List.eq_nil_of_length_eq_zero hlen.symm
    exact ⟨rfl, h⟩
  | cons m ms ih =>
    obtain _ | ⟨m', ms'⟩ := ms'
    · cases hlen
    simp only [List.flatMap_cons, QspgsMember.encode, List.append_assoc, List.cons_append] at h
    have hwidth : m.cuid.length = m'.cuid.length :=
      (hcuid m List.mem_cons_self).trans (hcuid' m' List.mem_cons_self).symm
    obtain ⟨hc, h⟩ := List.append_inj h hwidth
    obtain ⟨hflag, h⟩ := List.cons.inj h
    obtain ⟨hm, h⟩ := sized16_append_inj (hmct m List.mem_cons_self) (hmct' m' List.mem_cons_self) h
    obtain ⟨rfl, hr⟩ := ih (Nat.succ.inj hlen) (fun x hx => hcuid x (List.mem_cons_of_mem _ hx))
      (fun x hx => hcuid' x (List.mem_cons_of_mem _ hx))
      (fun x hx => hmct x (List.mem_cons_of_mem _ hx))
      (fun x hx => hmct' x (List.mem_cons_of_mem _ hx)) h
    have hadmn : m.admn = m'.admn := flag_inj _ _ (ofByte_inj hflag)
    obtain ⟨cuid, admn, mct⟩ := m
    obtain ⟨cuid', admn', mct'⟩ := m'
    obtain rfl : cuid = cuid' := hc
    obtain rfl : admn = admn' := hadmn
    obtain rfl : mct = mct' := hm
    exact ⟨rfl, hr⟩

/-- A count that fits its field is read back. -/
theorem count_inj {m n : Nat} (hm : m ≤ qspgsMaxEntries) (hn : n ≤ qspgsMaxEntries)
    (h : UInt16.ofNat m = UInt16.ofNat n) : m = n := by
  unfold qspgsMaxEntries at hm hn
  have h := congrArg UInt16.toNat h
  rwa [UInt16.toNat_ofNat', UInt16.toNat_ofNat', Nat.mod_eq_of_lt (by omega),
    Nat.mod_eq_of_lt (by omega)] at h

/-- A member list is told apart from what follows. -/
theorem memberListBytes_append_inj {core core' : QspgsCore β} (hc : core.Sized desc)
    (hc' : core'.Sized desc) {cap cap' : Nat} {b b' r r' : Bytes β}
    (hb : gyQspgsMemberListEncode desc core cap = .ok b)
    (hb' : gyQspgsMemberListEncode desc core' cap' = .ok b') (h : b ++ r = b' ++ r') :
    core.members = core'.members ∧ r = r' := by
  rw [gyQspgsMemberListEncode] at hb hb'
  split_ifs at hb with hmax hmct hcap
  split_ifs at hb' with hmax' hmct' hcap'
  obtain rfl := Except.ok.inj hb
  obtain rfl := Except.ok.inj hb'
  simp only [memberListBytes, List.append_assoc, List.append_cancel_left_eq] at h
  obtain ⟨hn, h⟩ := be16Put_append_inj h
  exact memberEntries_append_inj desc (count_inj (Nat.not_lt.1 hmax) (Nat.not_lt.1 hmax') hn)
    hc.cuid hc'.cuid (by simpa using hmct) (by simpa using hmct') h

omit [Octet β] in
/-- So are hashes of one length, as many on either side. -/
theorem flatten_append_inj {hlen : Nat} {hs hs' : List (Bytes β)} (hn : hs.length = hs'.length)
    (hw : ∀ x ∈ hs, x.length = hlen) (hw' : ∀ x ∈ hs', x.length = hlen) {r r' : Bytes β}
    (h : hs.flatten ++ r = hs'.flatten ++ r') : hs = hs' ∧ r = r' := by
  have hread := hashEntries_flatten r hw
  have hread' := hashEntries_flatten r' hw'
  rw [h, hn, hread'] at hread
  obtain rfl := hread
  exact ⟨rfl, List.append_cancel_left h⟩

/-- So is a key list. -/
theorem vkLstBytes_append_inj {core core' : QspgsCore β} (hc : core.Sized desc)
    (hc' : core'.Sized desc) {cap cap' : Nat} {b b' r r' : Bytes β}
    (hb : gyQspgsVkLstEncode desc core cap = .ok b)
    (hb' : gyQspgsVkLstEncode desc core' cap' = .ok b') (h : b ++ r = b' ++ r') :
    core.vkhash = core'.vkhash ∧ r = r' := by
  rw [gyQspgsVkLstEncode] at hb hb'
  split_ifs at hb with hmax hcap
  split_ifs at hb' with hmax' hcap'
  obtain rfl := Except.ok.inj hb
  obtain rfl := Except.ok.inj hb'
  simp only [vkLstBytes, List.append_assoc, List.append_cancel_left_eq] at h
  obtain ⟨hn, h⟩ := be16Put_append_inj h
  exact flatten_append_inj (count_inj (Nat.not_lt.1 hmax) (Nat.not_lt.1 hmax') hn)
    hc.vkhash hc'.vkhash h

/-! ## Statements -/

/-- `gy_qspgs_reguser_tbs`. -/
def gyQspgsReguserTbs (vkb acq : Bytes β) : Bytes β := vkb ++ acq

/-- What is signed for a group. -/
inductive GroupStatement (β : Type) where
  | core (signerIndex : UInt32) (core : QspgsCore β)
  | line (gid : Bytes β) (vmaj vmin : UInt32) (lineType : ApxKind) (authorIndex : UInt32)
      (payload : Bytes β)
  | reguser (vkb acq : Bytes β)
  | invaccept (uid uk gid : Bytes β)

variable [KrMlDsa β]

/-- The context and the string of a statement, built in a buffer of `cap` bytes. -/
def GroupStatement.signed (cap : Nat) : GroupStatement β → Except GyErr (Bytes β × Bytes β)
  | .core signerIndex c => do
    let tbs ← gyQspgsCoreTbs desc c signerIndex cap
    return (ascii "qspgs-core", tbs)
  | .line gid vmaj vmin lineType authorIndex payload => do
    let tbs ← gyQspgsApxLineTbs gid vmaj vmin lineType authorIndex payload cap
    return (ascii "qspgs-appendix", tbs)
  | .reguser vkb acq => do
    let info ← gyInfo desc qspgsDomainMax PersCtx.reguser.purpose
    return (info, gyQspgsReguserTbs vkb acq)
  | .invaccept uid uk gid => do
    let info ← gyInfo desc qspgsDomainMax PersCtx.invaccept.purpose
    return (info, gyQspgsInvacceptTbs uid uk gid)

/-- The fields of fixed width have their widths. -/
def GroupStatement.Sized : GroupStatement β → Prop
  | .core _ c => c.Sized desc
  | .line gid _ _ _ _ _ => gid.length = qspgsGidLen
  | .reguser vkb acq =>
    vkb.length = KrMlDsa.vkbLen desc ∧ acq.length = gyQspgsMasterKeyLen desc
  | .invaccept uid uk gid =>
    uid.length < 256 ∧ uk.length = gyQspgsMasterKeyLen desc ∧ gid.length = qspgsGidLen

/-! ### Strings of one kind -/

omit [KrMlDsa β] in
/-- What is signed for a core determines the core and the signer's line. -/
theorem gyQspgsCoreTbs_inj {core core' : QspgsCore β} {i i' : UInt32} {cap cap' : Nat}
    {tbs : Bytes β} (hc : core.Sized desc) (hc' : core'.Sized desc)
    (h : gyQspgsCoreTbs desc core i cap = .ok tbs)
    (h' : gyQspgsCoreTbs desc core' i' cap' = .ok tbs) : i = i' ∧ core = core' := by
  unfold gyQspgsCoreTbs at h h'
  split_ifs at h with hcap
  split_ifs at h' with hcap'
  obtain ⟨hdr, hhdr, h⟩ := Except.bind_eq_ok_iff.1 h
  obtain ⟨mem, hmem, h⟩ := Except.bind_eq_ok_iff.1 h
  obtain ⟨vk, hvk, h⟩ := Except.bind_eq_ok_iff.1 h
  obtain ⟨hdr', hhdr', h'⟩ := Except.bind_eq_ok_iff.1 h'
  obtain ⟨mem', hmem', h'⟩ := Except.bind_eq_ok_iff.1 h'
  obtain ⟨vk', hvk', h'⟩ := Except.bind_eq_ok_iff.1 h'
  split_ifs at h h'
  have heq := (Except.ok.inj h).trans (Except.ok.inj h').symm
  simp only [List.append_assoc] at heq
  rw [gyQspgsHeaderEncode] at hhdr hhdr'
  split_ifs at hhdr hhdr'
  obtain rfl := Except.ok.inj hhdr
  obtain rfl := Except.ok.inj hhdr'
  -- index, header, member list, key list and versions follow each other
  obtain ⟨hi, heq⟩ := be32Put_append_inj heq
  obtain ⟨⟨hgid, hformat, haead, hvmaj, hsa, hjoin⟩, heq⟩ := headerBytes_append_inj desc hc hc' heq
  obtain ⟨hmembers, heq⟩ := memberListBytes_append_inj desc hc hc' hmem hmem' heq
  obtain ⟨hkeys, heq⟩ := vkLstBytes_append_inj desc hc hc' hvk hvk' heq
  have hvmin := be32Put_injective (be32Put_append_inj heq).2
  refine ⟨hi, ?_⟩
  obtain ⟨gid, fmt, aead, vmaj, sa, join, ms, vks, vmin⟩ := core
  obtain ⟨gid', fmt', aead', vmaj', sa', join', ms', vks', vmin'⟩ := core'
  simp only at hgid hformat haead hvmaj hsa hjoin hmembers hkeys hvmin
  rw [hgid, hformat, haead, hvmaj, hsa, hjoin, hmembers, hkeys, hvmin]

omit [KrMlDsa β] in
/-- The byte of a kind determines it. -/
theorem ApxKind.byte_inj : ∀ k k' : ApxKind, k.byte = k'.byte → k = k' := by
  intro k k' h
  have h' := ApxKind.ofByte_byte k
  rw [h, ApxKind.ofByte_byte] at h'
  exact (Option.some.inj h').symm

omit [KrMlDsa β] in
/-- What is signed for an appendix line determines all its fields. -/
theorem gyQspgsApxLineTbs_inj {gid gid' payload payload' : Bytes β} {vmaj vmaj' vmin vmin' : UInt32}
    {kind kind' : ApxKind} {author author' : UInt32} {cap cap' : Nat} {tbs : Bytes β}
    (hgid : gid.length = qspgsGidLen) (hgid' : gid'.length = qspgsGidLen)
    (h : gyQspgsApxLineTbs gid vmaj vmin kind author payload cap = .ok tbs)
    (h' : gyQspgsApxLineTbs gid' vmaj' vmin' kind' author' payload' cap' = .ok tbs) :
    gid = gid' ∧ vmaj = vmaj' ∧ vmin = vmin' ∧ kind = kind' ∧ author = author' ∧
      payload = payload' := by
  rw [gyQspgsApxLineTbs] at h h'
  split_ifs at h h'
  have heq := (Except.ok.inj h).trans (Except.ok.inj h').symm
  simp only [List.append_assoc] at heq
  obtain ⟨hg, heq⟩ := List.append_inj heq (hgid.trans hgid'.symm)
  obtain ⟨hmaj, heq⟩ := be32Put_append_inj heq
  obtain ⟨hmin, heq⟩ := be32Put_append_inj heq
  obtain ⟨hkind, heq⟩ := List.cons.inj heq
  obtain ⟨hauthor, heq⟩ := be32Put_append_inj heq
  exact ⟨hg, hmaj, hmin, ApxKind.byte_inj _ _ (ofByte_inj hkind), hauthor, heq⟩

omit [Octet β] [KrMlDsa β] in
/-- What is signed for a registration determines it. -/
theorem gyQspgsReguserTbs_inj {vkb vkb' acq acq' : Bytes β} (hlen : vkb.length = vkb'.length)
    (h : gyQspgsReguserTbs vkb acq = gyQspgsReguserTbs vkb' acq') : vkb = vkb' ∧ acq = acq' :=
  List.append_inj h hlen

omit [KrMlDsa β] in
/-- What is signed for an acceptance determines it. -/
theorem gyQspgsInvacceptTbs_inj {uid uid' uk uk' gid gid' : Bytes β} (huid : uid.length < 256)
    (huid' : uid'.length < 256) (hlen : uk.length = uk'.length)
    (h : gyQspgsInvacceptTbs uid uk gid = gyQspgsInvacceptTbs uid' uk' gid') :
    uid = uid' ∧ uk = uk' ∧ gid = gid' := by
  obtain ⟨hn, h⟩ := List.cons.inj h
  have hn := congrArg UInt8.toNat (ofByte_inj hn)
  rw [UInt8.toNat_ofNat', UInt8.toNat_ofNat', Nat.mod_eq_of_lt huid, Nat.mod_eq_of_lt huid'] at hn
  rw [List.append_assoc, List.append_assoc] at h
  obtain ⟨hu, h⟩ := List.append_inj h hn
  obtain ⟨hk, hg⟩ := List.append_inj h hlen
  exact ⟨hu, hk, hg⟩

/-! ### Strings of different kinds -/

/-- What a statement is signed in: the context, which is the same for all of its kind. -/
def GroupStatement.context : GroupStatement β → Bytes β
  | .core .. => ascii "qspgs-core"
  | .line .. => ascii "qspgs-appendix"
  | .reguser .. => infoBytes desc PersCtx.reguser.purpose
  | .invaccept .. => infoBytes desc PersCtx.invaccept.purpose

omit [KrMlDsa β] in
/-- The context of a statement is that of its kind. -/
theorem GroupStatement.signed_context {s : GroupStatement β} {cap : Nat} {p : Bytes β × Bytes β}
    (h : s.signed desc cap = .ok p) : p.1 = s.context desc := by
  cases s with
  | core i c =>
    obtain ⟨tbs, -, h⟩ := Except.bind_eq_ok_iff.1 h
    rw [← Except.ok.inj h]
    rfl
  | line gid vmaj vmin kind author payload =>
    obtain ⟨tbs, -, h⟩ := Except.bind_eq_ok_iff.1 h
    rw [← Except.ok.inj h]
    rfl
  | reguser vkb acq =>
    obtain ⟨info, hinfo, h⟩ := Except.bind_eq_ok_iff.1 h
    rw [← Except.ok.inj h]
    exact gyInfo_ok desc hinfo
  | invaccept uid uk gid =>
    obtain ⟨info, hinfo, h⟩ := Except.bind_eq_ok_iff.1 h
    rw [← Except.ok.inj h]
    exact gyInfo_ok desc hinfo

omit [KrMlDsa β] in
/-- The contexts of the four kinds have four lengths. -/
theorem GroupStatement.length_context (s : GroupStatement β) :
    (s.context desc).length =
      match s with
      | .core .. => 10
      | .line .. => 14
      | .reguser .. => 10 + desc.name.length + 13
      | .invaccept .. => 10 + desc.name.length + 15 := by
  cases s with
  | core i c => rw [context, length_ascii]; rfl
  | line gid vmaj vmin kind author payload => rw [context, length_ascii]; rfl
  | reguser vkb acq =>
    simp only [context, infoBytes, List.length_append, length_ascii]
    show 6 + 1 + 1 + 1 + desc.name.length + 1 + 13 = _
    omega
  | invaccept uid uk gid =>
    simp only [context, infoBytes, List.length_append, length_ascii]
    show 6 + 1 + 1 + 1 + desc.name.length + 1 + 15 = _
    omega

/-- A context and a string are signed for one statement: a signature binds every field of it. -/
theorem groupStatement_inj {s s' : GroupStatement β} {cap cap' : Nat} {p : Bytes β × Bytes β}
    (hs : s.Sized desc) (hs' : s'.Sized desc) (h : s.signed desc cap = .ok p)
    (h' : s'.signed desc cap' = .ok p) : s = s' := by
  have hlen : (s.context desc).length = (s'.context desc).length := by
    rw [← GroupStatement.signed_context desc h, GroupStatement.signed_context desc h']
  rw [GroupStatement.length_context, GroupStatement.length_context] at hlen
  cases s with
  | core i c =>
    cases s' with
    | core i' c' =>
      obtain ⟨tbs, htbs, h⟩ := Except.bind_eq_ok_iff.1 h
      obtain ⟨tbs', htbs', h'⟩ := Except.bind_eq_ok_iff.1 h'
      obtain rfl : tbs = tbs' :=
        congrArg Prod.snd ((Except.ok.inj h).trans (Except.ok.inj h').symm)
      obtain ⟨rfl, rfl⟩ := gyQspgsCoreTbs_inj desc hs hs' htbs htbs'
      rfl
    | _ => simp only at hlen; omega
  | line gid vmaj vmin kind author payload =>
    cases s' with
    | line gid' vmaj' vmin' kind' author' payload' =>
      obtain ⟨tbs, htbs, h⟩ := Except.bind_eq_ok_iff.1 h
      obtain ⟨tbs', htbs', h'⟩ := Except.bind_eq_ok_iff.1 h'
      obtain rfl : tbs = tbs' :=
        congrArg Prod.snd ((Except.ok.inj h).trans (Except.ok.inj h').symm)
      obtain ⟨rfl, rfl, rfl, rfl, rfl, rfl⟩ := gyQspgsApxLineTbs_inj hs hs' htbs htbs'
      rfl
    | _ => simp only at hlen; omega
  | reguser vkb acq =>
    cases s' with
    | reguser vkb' acq' =>
      obtain ⟨info, -, h⟩ := Except.bind_eq_ok_iff.1 h
      obtain ⟨info', -, h'⟩ := Except.bind_eq_ok_iff.1 h'
      have heq := congrArg Prod.snd ((Except.ok.inj h).trans (Except.ok.inj h').symm)
      obtain ⟨rfl, rfl⟩ := gyQspgsReguserTbs_inj (hs.1.trans hs'.1.symm) heq
      rfl
    | _ => simp only at hlen; omega
  | invaccept uid uk gid =>
    cases s' with
    | invaccept uid' uk' gid' =>
      obtain ⟨info, -, h⟩ := Except.bind_eq_ok_iff.1 h
      obtain ⟨info', -, h'⟩ := Except.bind_eq_ok_iff.1 h'
      have heq := congrArg Prod.snd ((Except.ok.inj h).trans (Except.ok.inj h').symm)
      obtain ⟨rfl, rfl, rfl⟩ :=
        gyQspgsInvacceptTbs_inj hs.1 hs'.1 (hs.2.1.trans hs'.2.1.symm) heq
      rfl
    | _ => simp only at hlen; omega

/-! ### What verification checks -/

/-- A core is verified as the statement about it. -/
theorem gyQspgsCoreVerify_signed [DecidableEq β] (core : QspgsCore β) (i : UInt32)
    (vkr sig : Bytes β) (cap : Nat) :
    gyQspgsCoreVerify desc core i vkr sig cap =
      ((GroupStatement.core i core).signed desc cap >>= fun p =>
        if sig.length ≠ desc.dsaSigLen then .error .verify
        else if KrMlDsa.verify desc sig vkr p.2 p.1 then .ok () else .error .verify) := by
  simp only [gyQspgsCoreVerify, GroupStatement.signed]
  cases gyQspgsCoreTbs desc core i cap with
  | error e => rfl
  | ok tbs => rfl

/-- A line is verified as the statement about it. -/
theorem gyQspgsApxLineVerify_signed (gid : Bytes β) (vmaj vmin : UInt32) (l : ApxLine β)
    (vkr : Bytes β) (cap : Nat) :
    gyQspgsApxLineVerify desc gid vmaj vmin l vkr cap =
      ((GroupStatement.line gid vmaj vmin l.lineType l.authorIndex l.payload).signed desc cap >>=
        fun p =>
          if l.sig.length ≠ desc.dsaSigLen then .error .verify
          else if KrMlDsa.verify desc l.sig vkr p.2 p.1 then .ok () else .error .verify) := by
  simp only [gyQspgsApxLineVerify, GroupStatement.signed]
  cases gyQspgsApxLineTbs gid vmaj vmin l.lineType l.authorIndex l.payload cap with
  | error e => rfl
  | ok tbs => rfl

/-- Whether an identity signs the statement. -/
def GroupStatement.IsPers : GroupStatement β → Prop
  | .reguser .. | .invaccept .. => True
  | _ => False

omit [KrMlDsa β] in
/-- The curve signature of an identity is over the string behind its context. -/
theorem gyQspgsPersVerify_ok {s : GroupStatement β} {ctx : PersCtx} {cap : Nat}
    {curvePk mldsaPk edSig mldsaSig : Bytes β} {p : Bytes β × Bytes β}
    (hs : s.signed desc cap = .ok p) (hctx : s.context desc = infoBytes desc ctx.purpose)
    (h : gyQspgsPersVerify desc curvePk mldsaPk ctx p.2 edSig mldsaSig = .ok ()) :
    desc.verify edSig curvePk (p.1 ++ p.2) = .ok () ∧
      desc.dsaVerify mldsaSig mldsaPk p.2 p.1 = .ok () := by
  unfold gyQspgsPersVerify at h
  split_ifs at h
  obtain ⟨info, hinfo, h⟩ := Except.bind_eq_ok_iff.1 h
  have hp : p.1 = info := by
    rw [GroupStatement.signed_context desc hs, hctx, gyInfo_ok desc hinfo]
  rw [hp]
  split at h
  · cases h
  next hcurve =>
  split at h
  · cases h
  next hdsa => exact ⟨hcurve, hdsa⟩

/-! ### Every signature -/

/-- The signed strings of a group bind their statement: context and string together determine it,
and so does, for the statements an identity signs, the string behind its context. -/
theorem groupStatements_bound {s s' : GroupStatement β} {cap cap' : Nat}
    {p p' : Bytes β × Bytes β} (hs : s.Sized desc) (hs' : s'.Sized desc)
    (h : s.signed desc cap = .ok p) (h' : s'.signed desc cap' = .ok p') :
    (p = p' → s = s') ∧ (s.IsPers → s'.IsPers → p.1 ++ p.2 = p'.1 ++ p'.2 → s = s') := by
  refine ⟨fun heq => groupStatement_inj desc hs hs' h (heq ▸ h'), fun hpers hpers' heq => ?_⟩
  have hctx := GroupStatement.signed_context desc h
  have hctx' := GroupStatement.signed_context desc h'
  have hsame : s.context desc = s'.context desc → s = s' := by
    intro hc
    have hone : p.1 = p'.1 := by rw [hctx, hctx', hc]
    rw [hone] at heq
    exact groupStatement_inj desc hs hs' h
      ((Prod.ext hone (List.append_cancel_left heq) : p = p') ▸ h')
  rw [hctx, hctx'] at heq
  cases s with
  | core i c => exact hpers.elim
  | line gid vmaj vmin kind author payload => exact hpers.elim
  | reguser vkb acq =>
    cases s' with
    | core i c => exact hpers'.elim
    | line gid vmaj vmin kind author payload => exact hpers'.elim
    | reguser vkb' acq' => exact hsame rfl
    | invaccept uid uk gid =>
      exact absurd heq (infoBytes_append_ne desc (by decide) (by decide) _ _)
  | invaccept uid uk gid =>
    cases s' with
    | core i c => exact hpers'.elim
    | line gid vmaj vmin kind author payload => exact hpers'.elim
    | reguser vkb acq =>
      exact absurd heq (infoBytes_append_ne desc (by decide) (by decide) _ _)
    | invaccept uid' uk' gid' => exact hsame rfl

/-- The core of version 1 of a group without members. -/
def plainCore : QspgsCore UInt8 :=
  { QspgsCore.zero with
    formatVersion := qspgsFormatVersion
    aeadId := 1
    vmaj := 1 }

/-- The plain core has the widths of the code. -/
theorem sized_plainCore : plainCore.Sized qspgsWireSuite where
  gid := length_zeros _
  saCt := Nat.two_pow_pos 32
  joinCt := Nat.two_pow_pos 32
  cuid _ h := nomatch h
  vkhash _ h := nomatch h

/-- The leave line with the string that is signed for the core of version 1. -/
def leaveReading : GroupStatement UInt8 :=
  let tbs := coreTbsBytes qspgsWireSuite plainCore 0
  .line (tbs.take 16) (be32Get (tbs.drop 16)) (be32Get (tbs.drop 20)) .leave
    (be32Get (tbs.drop 25)) (tbs.drop 29)

/-- A registration and an acceptance of one user key. -/
def plainReguser : GroupStatement UInt8 := .reguser (zeros 2976) (zeros 32)

def plainInvaccept : GroupStatement UInt8 := .invaccept [1] (zeros 32) (zeros 16)

/-- A core and the leave line with the same string are signed in different contexts, and a
registration and an acceptance for different strings behind their contexts. -/
theorem groupStatements_bound_reading :
    letI : KrMlDsa UInt8 := qspgsWireKr
    (∃ p p', (GroupStatement.core 0 plainCore).signed qspgsWireSuite 256 = .ok p ∧
      leaveReading.signed qspgsWireSuite 256 = .ok p' ∧ p.2 = p'.2 ∧ p ≠ p') ∧
    ∃ p p', plainReguser.signed qspgsWireSuite 256 = .ok p ∧
      plainInvaccept.signed qspgsWireSuite 256 = .ok p' ∧ p.1 ++ p.2 ≠ p'.1 ++ p'.2 := by
  let _ : KrMlDsa UInt8 := qspgsWireKr
  constructor
  · have hcore : (GroupStatement.core 0 plainCore).signed qspgsWireSuite 256 =
        .ok (ascii "qspgs-core", coreTbsBytes qspgsWireSuite plainCore 0) := by rfl
    have hline : leaveReading.signed qspgsWireSuite 256 =
        .ok (ascii "qspgs-appendix", coreTbsBytes qspgsWireSuite plainCore 0) := by decide
    have hgid : leaveReading.Sized qspgsWireSuite := by
      show List.length (List.take 16 (coreTbsBytes qspgsWireSuite plainCore 0)) = 16
      decide
    have hbound := groupStatements_bound qspgsWireSuite (s := .core 0 plainCore) sized_plainCore
      hgid hcore hline
    exact ⟨_, _, hcore, hline, rfl, fun heq => nomatch hbound.1 heq⟩
  · have hreg : plainReguser.Sized qspgsWireSuite := ⟨length_zeros _, length_zeros _⟩
    have hinv : plainInvaccept.Sized qspgsWireSuite :=
      ⟨by decide, length_zeros _, length_zeros _⟩
    have hlist : plainReguser.signed qspgsWireSuite 256 = .ok _ := rfl
    have haccept : plainInvaccept.signed qspgsWireSuite 256 = .ok _ := rfl
    have hbound := groupStatements_bound qspgsWireSuite hreg hinv hlist haccept
    exact ⟨_, _, hlist, haccept, fun heq => nomatch hbound.2 trivial trivial heq⟩

/-- What an admin signs for a core is what a member signs for a leave line. -/
theorem core_reads_as_line :
    ∃ tbs : Bytes UInt8, gyQspgsCoreTbs qspgsWireSuite plainCore 0 256 = .ok tbs ∧
      gyQspgsApxLineTbs (tbs.take 16) (be32Get (tbs.drop 16)) (be32Get (tbs.drop 20)) .leave
        (be32Get (tbs.drop 25)) (tbs.drop 29) 256 = .ok tbs :=
  ⟨coreTbsBytes qspgsWireSuite plainCore 0, by decide, by decide⟩

end Geryon
