import Geryon.Suite
import Geryon.Lib.Cmd

/-!
# The group data structure on the wire

The objects of `qspgs_wire.c`: the header, the member list and the list of pseudonym-key hashes
that an editing admin signs, and the core signature over them.

A hybrid descriptor stands for the `suite_id` of an object: the entry points resolve it before
anything here runs. Decoders are strict, so a decoded object is consumed whole and the `consumed`
outputs are left out. A blob of length zero stands for the `NULL` pointer it is decoded to.
-/

namespace Geryon

/-- `GY_QSPGS_WIRE_VERSION`. -/
def qspgsWireVersion : UInt8 := 1

/-- `GY_QSPGS_OBJ_HDR_LEN`. -/
def qspgsObjHdrLen : Nat := 3

/-- `GY_QSPGS_GID_LEN`. -/
def qspgsGidLen : Nat := 16

/-- `GY_QSPGS_UID_LEN`. -/
def qspgsUidLen : Nat := 16

/-- `GY_QSPGS_RC_LEN`. -/
def qspgsRcLen : Nat := 32

/-- `GY_QSPGS_MAX_ENTRIES`. -/
def qspgsMaxEntries : Nat := 1024

/-- `GY_QSPGS_FORMAT_VERSION`, which is also the least and the greatest supported one. -/
def qspgsFormatVersion : UInt16 := 1

/-- `QSPGS_WIRE_DOMAIN_MAX`, and the domain buffers of the other QSPGS files. -/
def qspgsDomainMax : Nat := 48

/-- The object types `GY_QOBJ_*`. -/
inductive QObj where
  | header | memberList | vkLst | coreSig | appendix | inviteQueue | acct | groupKey
  deriving DecidableEq, Repr

/-- The wire byte of an object type. -/
def QObj.byte : QObj → UInt8
  | .header => 1
  | .memberList => 2
  | .vkLst => 3
  | .coreSig => 4
  | .appendix => 5
  | .inviteQueue => 6
  | .acct => 7
  | .groupKey => 8

/-- A member entry (`struct gy_qspgs_member`): commitment, admin flag and sealed tuple. -/
structure QspgsMember (β : Type) where
  cuid : Bytes β
  admn : Bool
  mct : Bytes β
  deriving DecidableEq

/-- The core list (`struct gy_qspgs_core`). The fetch token is not part of any object and stands
in the emitted bundle instead. -/
structure QspgsCore (β : Type) where
  gid : Bytes β
  formatVersion : UInt16
  aeadId : UInt8
  vmaj : UInt32
  saCt : Bytes β
  /-- The join slot; empty when the group has none. -/
  joinCt : Bytes β
  members : List (QspgsMember β)
  /-- The hashes `H(vkpsdn)`, each of the suite's hash length. -/
  vkhash : List (Bytes β)
  lastVmin : UInt32
  deriving DecidableEq

/-- The KR-ML-DSA primitive of a tier (`krmldsa44.c`, `krmldsa87.c`). -/
class KrMlDsa (β : Type) where
  /-- `GY_KR*_VKB` and `GY_KR*_SKB`: the widths of a base pair. -/
  vkbLen : SuiteDesc β → Nat
  skbLen : SuiteDesc β → Nat
  /-- `gy_kr*_randvk` of a base key and a randomizer. -/
  randVk : SuiteDesc β → Bytes β → Bytes β → Except GyErr (Bytes β)
  /-- `gy_kr*_randsk` of a base pair (secret, public) and a randomizer. -/
  randSk : SuiteDesc β → Bytes β → Bytes β → Bytes β → Except GyErr (Bytes β)
  /-- `gy_kr*_sign` of a message in a context, under the given coins. -/
  sign : SuiteDesc β → Bytes β → Bytes β → Bytes β → Bytes β → Except GyErr (Bytes β)
  /-- `gy_kr*_verify` on signature, rerandomised key, message and context. -/
  verify : SuiteDesc β → Bytes β → Bytes β → Bytes β → Bytes β → Bool

variable {β : Type} [Octet β] [DecidableEq β]

/-- `memset(core, 0, sizeof(*core))`. -/
def QspgsCore.zero : QspgsCore β where
  gid := zeros qspgsGidLen
  formatVersion := 0
  aeadId := 0
  vmaj := 0
  saCt := []
  joinCt := []
  members := []
  vkhash := []
  lastVmin := 0

variable (desc : SuiteDesc β)

/-! ## Object headers and tier hashes -/

/-- `obj_put_header`. -/
def objPutHeader (t : QObj) : Bytes β :=
  [Octet.ofByte t.byte, Octet.ofByte qspgsWireVersion, Octet.ofByte desc.suiteId]

/-- `obj_check_header`. -/
def objCheckHeader (t : QObj) (b : Bytes β) : Except GyErr Unit :=
  if b.length < qspgsObjHdrLen then .error .verify
  else if byteAt b 0 ≠ t.byte.toNat ∨ byteAt b 1 ≠ qspgsWireVersion.toNat ∨
      byteAt b 2 ≠ desc.suiteId.toNat then .error .verify
  else .ok ()

/-- `wire_domain_hash`: the tier hash of `gy_info(purpose) || a || b`. -/
def wireDomainHash (purpose : String) (a b : Bytes β) : Except GyErr (Bytes β) := do
  let domain ← gyInfo desc qspgsDomainMax purpose
  desc.hash (domain ++ a ++ b)

/-- `gy_qspgs_cuid_commit`. -/
def gyQspgsCuidCommit (uid rcOpen : Bytes β) : Except GyErr (Bytes β) :=
  if uid.length ≠ qspgsUidLen then .error .arg
  else wireDomainHash desc "qspgs-cuid" rcOpen uid

/-- `gy_qspgs_vkpsdn_hash`. -/
def gyQspgsVkpsdnHash (vkr : Bytes β) : Except GyErr (Bytes β) :=
  wireDomainHash desc "qspgs-vkhash" vkr []

/-- `gy_qspgs_vkpsdn_hash_check`. -/
def gyQspgsVkpsdnHashCheck (vkr storedHash : Bytes β) : Except GyErr Unit := do
  let h ← gyQspgsVkpsdnHash desc vkr
  if h = storedHash then .ok () else .error .verify

/-! ## Header -/

/-- The join slot at the end of a header: a present flag and a length-prefixed blob. -/
def joinSlotEncode (join : Bytes β) : Bytes β :=
  if join.length ≠ 0 then Octet.ofByte 1 :: (be32Put (UInt32.ofNat join.length) ++ join)
  else [Octet.ofByte 0]

/-- A header object. -/
def headerBytes (core : QspgsCore β) : Bytes β :=
  objPutHeader desc .header ++ core.gid ++ be16Put core.formatVersion ++
    [Octet.ofByte core.aeadId] ++ be32Put core.vmaj ++
    be32Put (UInt32.ofNat core.saCt.length) ++ core.saCt ++ joinSlotEncode core.joinCt

/-- `gy_qspgs_header_encode` into a buffer of `cap` bytes. -/
def gyQspgsHeaderEncode (core : QspgsCore β) (cap : Nat) : Except GyErr (Bytes β) :=
  if cap < (headerBytes desc core).length then .error .toolong else .ok (headerBytes desc core)

/-- Read the join slot; a present flag with an empty blob is invalid. -/
def joinSlotDecode (b : Bytes β) : Except GyErr (Bytes β) :=
  if b.length < 1 then .error .verify
  else if byteAt b 0 = 0 then if b.length ≠ 1 then .error .verify else .ok []
  else if byteAt b 0 = 1 then
    if b.length < 1 + 4 then .error .verify
    else
      let jl := (be32Get (b.drop 1)).toNat
      let blob := b.drop 5
      -- a slot that is present is not empty
      if jl = 0 ∨ blob.length < jl then .error .verify
      else if blob.length ≠ jl then .error .verify
      else .ok blob
  else .error .verify

/-- `gy_qspgs_header_decode`: fills the header fields of the core. -/
def gyQspgsHeaderDecode (core : QspgsCore β) (b : Bytes β) : Except GyErr (QspgsCore β) := do
  objCheckHeader desc .header b
  let b := b.drop qspgsObjHdrLen
  if b.length < qspgsGidLen + 2 + 1 + 4 + 4 then .error .verify
  else
    let gid := b.take qspgsGidLen
    let b := b.drop qspgsGidLen
    -- another version is told apart from a malformed object
    if be16Get b ≠ qspgsFormatVersion then .error .unsupported
    else
      let sal := (be32Get (b.drop 7)).toNat
      let rest := b.drop 11
      if rest.length < sal then .error .verify
      else do
        let join ← joinSlotDecode (rest.drop sal)
        return { core with
          gid := gid
          formatVersion := be16Get b
          aeadId := UInt8.ofNat (byteAt b 2)
          vmaj := be32Get (b.drop 3)
          saCt := rest.take sal
          joinCt := join }

/-! ## Member list -/

/-- One entry of the member list. -/
def QspgsMember.encode (m : QspgsMember β) : Bytes β :=
  m.cuid ++ Octet.ofByte (if m.admn then 1 else 0) ::
    (be16Put (UInt16.ofNat m.mct.length) ++ m.mct)

/-- A member-list object. -/
def memberListBytes (core : QspgsCore β) : Bytes β :=
  objPutHeader desc .memberList ++ [Octet.ofByte (UInt8.ofNat desc.hashLen)] ++
    be16Put (UInt16.ofNat core.members.length) ++ core.members.flatMap QspgsMember.encode

/-- `gy_qspgs_member_list_encode` into a buffer of `cap` bytes. -/
def gyQspgsMemberListEncode (core : QspgsCore β) (cap : Nat) : Except GyErr (Bytes β) :=
  if qspgsMaxEntries < core.members.length then .error .arg
  else if core.members.any fun m => 0xffff < m.mct.length then .error .arg
  else if cap < (memberListBytes desc core).length then .error .toolong
  else .ok (memberListBytes desc core)

/-- The entry loop of `gy_qspgs_member_list_decode`: `n` entries and what follows them. -/
def memberEntries (hlen : Nat) :
    Nat → Bytes β → Except GyErr (List (QspgsMember β) × Bytes β)
  | 0, b => .ok ([], b)
  | n + 1, b =>
    if b.length < hlen + 1 + 2 then .error .verify
    else if 1 < byteAt b hlen then .error .verify
    else
      let mlen := (be16Get (b.drop (hlen + 1))).toNat
      let rest := b.drop (hlen + 3)
      if rest.length < mlen then .error .verify
      else do
        let (ms, tail) ← memberEntries hlen n (rest.drop mlen)
        return (⟨b.take hlen, byteAt b hlen = 1, rest.take mlen⟩ :: ms, tail)

/-- `gy_qspgs_member_list_decode` into an array of `GY_QSPGS_MAX_ENTRIES` members. -/
def gyQspgsMemberListDecode (core : QspgsCore β) (b : Bytes β) : Except GyErr (QspgsCore β) := do
  objCheckHeader desc .memberList b
  let b := b.drop qspgsObjHdrLen
  if b.length < 1 + 2 then .error .verify
  else if byteAt b 0 ≠ desc.hashLen % 256 then .error .verify
  else
    let n := (be16Get (b.drop 1)).toNat
    if qspgsMaxEntries < n then .error .verify
    else do
      let (ms, tail) ← memberEntries desc.hashLen n (b.drop 3)
      if tail.length ≠ 0 then .error .verify else .ok { core with members := ms }

/-! ## Pseudonym key list -/

/-- A key-list object. -/
def vkLstBytes (core : QspgsCore β) : Bytes β :=
  objPutHeader desc .vkLst ++ [Octet.ofByte (UInt8.ofNat desc.hashLen)] ++
    be16Put (UInt16.ofNat core.vkhash.length) ++ core.vkhash.flatten

/-- `gy_qspgs_vk_lst_encode` into a buffer of `cap` bytes. -/
def gyQspgsVkLstEncode (core : QspgsCore β) (cap : Nat) : Except GyErr (Bytes β) :=
  if qspgsMaxEntries < core.vkhash.length then .error .arg
  else if cap < (vkLstBytes desc core).length then .error .toolong
  else .ok (vkLstBytes desc core)

/-- `n` packed hashes. -/
def hashEntries (hlen : Nat) : Nat → Bytes β → List (Bytes β)
  | 0, _ => []
  | n + 1, b => b.take hlen :: hashEntries hlen n (b.drop hlen)

/-- `gy_qspgs_vk_lst_decode`. -/
def gyQspgsVkLstDecode (core : QspgsCore β) (b : Bytes β) : Except GyErr (QspgsCore β) := do
  objCheckHeader desc .vkLst b
  let b := b.drop qspgsObjHdrLen
  if b.length < 1 + 2 then .error .verify
  else if byteAt b 0 ≠ desc.hashLen % 256 then .error .verify
  else
    let n := (be16Get (b.drop 1)).toNat
    if qspgsMaxEntries < n then .error .verify
    else if b.length ≠ 3 + n * desc.hashLen then .error .verify
    else .ok { core with vkhash := hashEntries desc.hashLen n (b.drop 3) }

/-! ## Core signature -/

/-- A decoded core-signature object. -/
structure CoreSig (β : Type) where
  signerIndex : UInt32
  lastVmin : UInt32
  sig : Bytes β
  deriving DecidableEq

/-- What the editing admin signs. -/
def coreTbsBytes (core : QspgsCore β) (signerIndex : UInt32) : Bytes β :=
  be32Put signerIndex ++ headerBytes desc core ++ memberListBytes desc core ++
    vkLstBytes desc core ++ be32Put core.vmaj ++ be32Put core.lastVmin

/-- `gy_qspgs_core_tbs` into a buffer of `cap` bytes. -/
def gyQspgsCoreTbs (core : QspgsCore β) (signerIndex : UInt32) (cap : Nat) :
    Except GyErr (Bytes β) :=
  if cap < 4 then .error .toolong
  else do
    let hdr ← gyQspgsHeaderEncode desc core (cap - 4)
    let mem ← gyQspgsMemberListEncode desc core (cap - (4 + hdr.length))
    let vk ← gyQspgsVkLstEncode desc core (cap - (4 + hdr.length + mem.length))
    if cap - (4 + hdr.length + mem.length + vk.length) < 8 then .error .toolong
    else .ok (be32Put signerIndex ++ hdr ++ mem ++ vk ++ be32Put core.vmaj ++
      be32Put core.lastVmin)

/-- A core-signature object. -/
def coreSigBytes (s : CoreSig β) : Bytes β :=
  objPutHeader desc .coreSig ++ be32Put s.signerIndex ++ be32Put s.lastVmin ++
    be16Put (UInt16.ofNat s.sig.length) ++ s.sig

/-- `gy_qspgs_core_sig_encode` into a buffer of `cap` bytes. -/
def gyQspgsCoreSigEncode (s : CoreSig β) (cap : Nat) : Except GyErr (Bytes β) :=
  if s.sig.length = 0 ∨ 0xffff < s.sig.length then .error .arg
  else if cap < (coreSigBytes desc s).length then .error .toolong
  else .ok (coreSigBytes desc s)

/-- `gy_qspgs_core_sig_decode`: the signature has the width of the tier. -/
def gyQspgsCoreSigDecode (b : Bytes β) : Except GyErr (CoreSig β) := do
  objCheckHeader desc .coreSig b
  let b := b.drop qspgsObjHdrLen
  if b.length < 4 + 4 + 2 then .error .verify
  else
    let sl := (be16Get (b.drop 8)).toNat
    if sl ≠ desc.dsaSigLen ∨ b.length ≠ 10 + sl then .error .verify
    else .ok ⟨be32Get b, be32Get (b.drop 4), b.drop 10⟩

/-- `gy_qspgs_core_verify` with a scratch buffer of `cap` bytes. -/
def gyQspgsCoreVerify [KrMlDsa β] (core : QspgsCore β) (signerIndex : UInt32)
    (vkr sig : Bytes β) (cap : Nat) : Except GyErr Unit := do
  let tbs ← gyQspgsCoreTbs desc core signerIndex cap
  if sig.length ≠ desc.dsaSigLen then .error .verify
  else if KrMlDsa.verify desc sig vkr tbs (ascii "qspgs-core") then .ok ()
  else .error .verify

/-- `decode_core` of the facades: header, member list and key list. -/
def decodeCore (header memberList vkLst : Bytes β) : Except GyErr (QspgsCore β) := do
  let core ← gyQspgsHeaderDecode desc QspgsCore.zero header
  let core ← gyQspgsMemberListDecode desc core memberList
  gyQspgsVkLstDecode desc core vkLst

/-! ## What decodes is well formed, and what is encoded decodes -/

/-- A core whose fields have the widths of the wire. -/
structure QspgsCore.Wf (core : QspgsCore β) : Prop where
  gid : core.gid.length = qspgsGidLen
  format : core.formatVersion = qspgsFormatVersion
  saCt : core.saCt.length < 2 ^ 32
  joinCt : core.joinCt.length < 2 ^ 32
  members_le : core.members.length ≤ qspgsMaxEntries
  cuid : ∀ m ∈ core.members, m.cuid.length = desc.hashLen
  mct : ∀ m ∈ core.members, m.mct.length ≤ 0xffff
  vkhash_le : core.vkhash.length ≤ qspgsMaxEntries
  vkhash : ∀ h ∈ core.vkhash, h.length = desc.hashLen

omit [DecidableEq β] in
/-- A 16-bit field that stands after `pre` in a record is read back. -/
theorem be16Get_drop_field {b : Bytes β} {v : UInt16} {off : Nat} (pre post : Bytes β)
    (hb : b = pre ++ (be16Put v ++ post)) (hpre : pre.length = off) :
    be16Get (b.drop off) = v := by
  rw [drop_field pre hb hpre, be16Get_be16Put]

omit [DecidableEq β] in
@[simp] theorem objCheckHeader_objPutHeader (t : QObj) (rest : Bytes β) :
    objCheckHeader desc t (objPutHeader desc t ++ rest) = .ok () := by
  simp [objCheckHeader, objPutHeader, qspgsObjHdrLen, byteAt]

omit [DecidableEq β] in
@[simp] theorem length_objPutHeader (t : QObj) : (objPutHeader desc t).length = 3 := rfl

omit [DecidableEq β] in
@[simp] theorem drop_objPutHeader (t : QObj) (rest : Bytes β) :
    (objPutHeader desc t ++ rest).drop qspgsObjHdrLen = rest := rfl

omit [DecidableEq β] in
/-- A join slot is read back. -/
theorem joinSlotDecode_encode {blob : Bytes β} (hlt : blob.length < 2 ^ 32) :
    joinSlotDecode (joinSlotEncode blob) = .ok blob := by
  unfold joinSlotEncode
  split
  · next hne =>
    have hjl : (UInt32.ofNat blob.length).toNat = blob.length := by
      rw [UInt32.toNat_ofNat']
      exact Nat.mod_eq_of_lt hlt
    have hdrop : (be32Put (UInt32.ofNat blob.length) ++ blob : Bytes β).drop 4 = blob :=
      List.drop_left' (by simp)
    have hb : byteAt (Octet.ofByte 1 ::
        (be32Put (UInt32.ofNat blob.length) ++ blob : Bytes β)) 0 = 1 := by
      simp [byteAt]
    simp [joinSlotDecode, hb, hdrop, hjl, hne]
  · next hne =>
    rw [List.eq_nil_of_length_eq_zero (not_not.mp hne)]
    simp [joinSlotDecode, byteAt]

omit [DecidableEq β] in
/-- A header decodes to the header fields of the core that was encoded. -/
theorem gyQspgsHeaderDecode_headerBytes {core : QspgsCore β} (init : QspgsCore β)
    (hwf : core.Wf desc) :
    gyQspgsHeaderDecode desc init (headerBytes desc core) = .ok { init with
      gid := core.gid
      formatVersion := core.formatVersion
      aeadId := core.aeadId
      vmaj := core.vmaj
      saCt := core.saCt
      joinCt := core.joinCt } := by
  unfold headerBytes
  simp only [List.append_assoc]
  have hslot := joinSlotDecode_encode hwf.joinCt
  generalize joinSlotEncode core.joinCt = join at hslot ⊢
  have hsal : (UInt32.ofNat core.saCt.length).toNat = core.saCt.length := by
    rw [UInt32.toNat_ofNat']
    exact Nat.mod_eq_of_lt hwf.saCt
  -- the header splits into its fields, each read at a fixed offset behind the group id
  unfold gyQspgsHeaderDecode
  rw [objCheckHeader_objPutHeader, Except.ok_bind, drop_objPutHeader]
  have htake : (core.gid ++ (be16Put core.formatVersion ++ ([Octet.ofByte core.aeadId] ++
      (be32Put core.vmaj ++ (be32Put (UInt32.ofNat core.saCt.length) ++
        (core.saCt ++ join)))))).take qspgsGidLen = core.gid := List.take_left' hwf.gid
  have hdrop : (core.gid ++ (be16Put core.formatVersion ++ ([Octet.ofByte core.aeadId] ++
      (be32Put core.vmaj ++ (be32Put (UInt32.ofNat core.saCt.length) ++
        (core.saCt ++ join)))))).drop qspgsGidLen =
      be16Put core.formatVersion ++ ([Octet.ofByte core.aeadId] ++
        (be32Put core.vmaj ++ (be32Put (UInt32.ofNat core.saCt.length) ++
          (core.saCt ++ join)))) := List.drop_left' hwf.gid
  rw [if_neg (by simp [hwf.gid]; omega)]
  dsimp only
  rw [htake, hdrop, be16Get_be16Put, if_neg (not_not.mpr hwf.format)]
  generalize htail : (core.saCt ++ join) = tail
  have hvmaj : be32Get ((be16Put core.formatVersion ++ ([Octet.ofByte core.aeadId] ++
      (be32Put core.vmaj ++ (be32Put (UInt32.ofNat core.saCt.length) ++ tail)))).drop 3) =
      core.vmaj :=
    be32Get_drop_field (be16Put core.formatVersion ++ [Octet.ofByte core.aeadId])
      (be32Put (UInt32.ofNat core.saCt.length) ++ tail) (by simp) (by simp)
  have hlen : be32Get ((be16Put core.formatVersion ++ ([Octet.ofByte core.aeadId] ++
      (be32Put core.vmaj ++ (be32Put (UInt32.ofNat core.saCt.length) ++ tail)))).drop 7) =
      UInt32.ofNat core.saCt.length :=
    be32Get_drop_field (be16Put core.formatVersion ++ [Octet.ofByte core.aeadId] ++
      be32Put core.vmaj) tail (by simp) (by simp)
  have hrest : (be16Put core.formatVersion ++ ([Octet.ofByte core.aeadId] ++
      (be32Put core.vmaj ++ (be32Put (UInt32.ofNat core.saCt.length) ++ tail)))).drop 11 =
      tail :=
    drop_field (be16Put core.formatVersion ++ [Octet.ofByte core.aeadId] ++
      be32Put core.vmaj ++ be32Put (UInt32.ofNat core.saCt.length)) (by simp) (by simp)
  have haead : byteAt (be16Put core.formatVersion ++ ([Octet.ofByte core.aeadId] ++
      (be32Put core.vmaj ++ (be32Put (UInt32.ofNat core.saCt.length) ++ tail)))) 2 =
      core.aeadId.toNat := by
    simp [byteAt, be16Put, octets]
  rw [hvmaj, hlen, hrest, haead, hsal, if_neg (by simp [← htail])]
  subst htail
  rw [List.drop_left, List.take_left, hslot]
  simp

omit [DecidableEq β] in
/-- The entry loop reads back the members it finds in front of `tail`. -/
theorem memberEntries_encode {ms : List (QspgsMember β)} (tail : Bytes β)
    (hcuid : ∀ m ∈ ms, m.cuid.length = desc.hashLen) (hmct : ∀ m ∈ ms, m.mct.length ≤ 0xffff) :
    memberEntries desc.hashLen ms.length (ms.flatMap QspgsMember.encode ++ tail) =
      .ok (ms, tail) := by
  induction ms with
  | nil => rfl
  | cons m ms ih =>
    have hm := hcuid m List.mem_cons_self
    have hml : (UInt16.ofNat m.mct.length).toNat = m.mct.length := by
      have := hmct m List.mem_cons_self
      rw [UInt16.toNat_ofNat']
      exact Nat.mod_eq_of_lt (by omega)
    have ih := ih (fun x hx => hcuid x (List.mem_cons_of_mem _ hx))
      (fun x hx => hmct x (List.mem_cons_of_mem _ hx))
    generalize hr : ms.flatMap QspgsMember.encode ++ tail = rest at ih
    have hb : (m :: ms).flatMap QspgsMember.encode ++ tail =
        m.cuid ++ (Octet.ofByte (if m.admn then 1 else 0) ::
          (be16Put (UInt16.ofNat m.mct.length) ++ (m.mct ++ rest))) := by
      simp [QspgsMember.encode, ← hr]
    rw [hb]
    have hadmn : byteAt (m.cuid ++ (Octet.ofByte (if m.admn then 1 else 0) ::
        (be16Put (UInt16.ofNat m.mct.length) ++ (m.mct ++ rest)))) desc.hashLen =
        if m.admn then 1 else 0 := by
      rw [← hm]
      cases m.admn <;> simp [byteAt]
    have hmlen : be16Get ((m.cuid ++ (Octet.ofByte (if m.admn then 1 else 0) ::
        (be16Put (UInt16.ofNat m.mct.length) ++ (m.mct ++ rest)))).drop (desc.hashLen + 1)) =
        UInt16.ofNat m.mct.length :=
      be16Get_drop_field (m.cuid ++ [Octet.ofByte (if m.admn then 1 else 0)]) (m.mct ++ rest)
        (by simp) (by simp [hm])
    have hdrop : (m.cuid ++ (Octet.ofByte (if m.admn then 1 else 0) ::
        (be16Put (UInt16.ofNat m.mct.length) ++ (m.mct ++ rest)))).drop (desc.hashLen + 3) =
        m.mct ++ rest :=
      drop_field (m.cuid ++ [Octet.ofByte (if m.admn then 1 else 0)] ++
        be16Put (UInt16.ofNat m.mct.length)) (by simp) (by simp [hm])
    rw [List.length_cons, memberEntries, if_neg (by simp [hm]; omega),
      if_neg (by rw [hadmn]; split <;> omega)]
    dsimp only
    rw [hmlen, hdrop, hml, if_neg (by simp), List.drop_left, List.take_left, ih, Except.ok_bind,
      List.take_left' hm, hadmn]
    have hbit : decide ((if m.admn = true then 1 else 0) = 1) = m.admn := by
      cases m.admn <;> rfl
    rw [hbit]
    rfl

omit [DecidableEq β] in
/-- A member list decodes to the members that were encoded. -/
theorem gyQspgsMemberListDecode_memberListBytes {core : QspgsCore β} (init : QspgsCore β)
    (hwf : core.Wf desc) :
    gyQspgsMemberListDecode desc init (memberListBytes desc core) =
      .ok { init with members := core.members } := by
  unfold memberListBytes
  have hn : (UInt16.ofNat core.members.length).toNat = core.members.length := by
    have := hwf.members_le
    rw [UInt16.toNat_ofNat']
    exact Nat.mod_eq_of_lt (by unfold qspgsMaxEntries at this; omega)
  have hentries := memberEntries_encode desc [] hwf.cuid hwf.mct
  rw [List.append_nil] at hentries
  simp only [List.append_assoc]
  unfold gyQspgsMemberListDecode
  rw [objCheckHeader_objPutHeader, Except.ok_bind, drop_objPutHeader]
  generalize core.members.flatMap QspgsMember.encode = body at hentries ⊢
  have hcount : be16Get (([Octet.ofByte (UInt8.ofNat desc.hashLen)] ++
      (be16Put (UInt16.ofNat core.members.length) ++ body) : Bytes β).drop 1) =
      UInt16.ofNat core.members.length :=
    be16Get_drop_field [Octet.ofByte (UInt8.ofNat desc.hashLen)] body (by simp) (by simp)
  have hbody : ([Octet.ofByte (UInt8.ofNat desc.hashLen)] ++
      (be16Put (UInt16.ofNat core.members.length) ++ body) : Bytes β).drop 3 = body :=
    drop_field ([Octet.ofByte (UInt8.ofNat desc.hashLen)] ++
      be16Put (UInt16.ofNat core.members.length)) (by simp) (by simp)
  rw [if_neg (by simp), if_neg (by simp [byteAt])]
  dsimp only
  rw [hcount, hbody, hn, if_neg (not_lt.mpr hwf.members_le), hentries]
  rfl

omit [Octet β] [DecidableEq β] in
/-- Hashes are read back from their bytes. -/
theorem hashEntries_flatten {hlen : Nat} {hs : List (Bytes β)} (tail : Bytes β)
    (h : ∀ x ∈ hs, x.length = hlen) :
    hashEntries hlen hs.length (hs.flatten ++ tail) = hs := by
  induction hs with
  | nil => rfl
  | cons x hs ih =>
    have hx := h x List.mem_cons_self
    rw [List.length_cons, hashEntries, List.flatten_cons, List.append_assoc, List.take_left' hx,
      List.drop_left' hx, ih (fun y hy => h y (List.mem_cons_of_mem _ hy))]

omit [Octet β] [DecidableEq β] in
/-- The size of a list of hashes. -/
theorem length_flatten_of_length {hlen : Nat} {hs : List (Bytes β)}
    (h : ∀ x ∈ hs, x.length = hlen) : hs.flatten.length = hs.length * hlen := by
  induction hs with
  | nil => simp
  | cons x hs ih =>
    rw [List.flatten_cons, List.length_append, h x List.mem_cons_self,
      ih (fun y hy => h y (List.mem_cons_of_mem _ hy)), List.length_cons, Nat.add_mul, Nat.one_mul,
      Nat.add_comm]

omit [DecidableEq β] in
/-- A key list decodes to the hashes that were encoded. -/
theorem gyQspgsVkLstDecode_vkLstBytes {core : QspgsCore β} (init : QspgsCore β)
    (hwf : core.Wf desc) :
    gyQspgsVkLstDecode desc init (vkLstBytes desc core) =
      .ok { init with vkhash := core.vkhash } := by
  unfold vkLstBytes
  have hn : (UInt16.ofNat core.vkhash.length).toNat = core.vkhash.length := by
    have := hwf.vkhash_le
    rw [UInt16.toNat_ofNat']
    exact Nat.mod_eq_of_lt (by unfold qspgsMaxEntries at this; omega)
  have hentries := hashEntries_flatten [] hwf.vkhash
  have hlen := length_flatten_of_length hwf.vkhash
  rw [List.append_nil] at hentries
  simp only [List.append_assoc]
  unfold gyQspgsVkLstDecode
  rw [objCheckHeader_objPutHeader, Except.ok_bind, drop_objPutHeader]
  generalize core.vkhash.flatten = body at hentries hlen ⊢
  have hcount : be16Get (([Octet.ofByte (UInt8.ofNat desc.hashLen)] ++
      (be16Put (UInt16.ofNat core.vkhash.length) ++ body) : Bytes β).drop 1) =
      UInt16.ofNat core.vkhash.length :=
    be16Get_drop_field [Octet.ofByte (UInt8.ofNat desc.hashLen)] body (by simp) (by simp)
  have hbody : ([Octet.ofByte (UInt8.ofNat desc.hashLen)] ++
      (be16Put (UInt16.ofNat core.vkhash.length) ++ body) : Bytes β).drop 3 = body :=
    drop_field ([Octet.ofByte (UInt8.ofNat desc.hashLen)] ++
      be16Put (UInt16.ofNat core.vkhash.length)) (by simp) (by simp)
  rw [if_neg (by simp), if_neg (by simp [byteAt])]
  dsimp only
  rw [hcount, hbody, hn, if_neg (not_lt.mpr hwf.vkhash_le), if_neg (by simp [hlen]; omega),
    hentries]

omit [DecidableEq β] in
/-- A core-signature object decodes to what was encoded. -/
theorem gyQspgsCoreSigDecode_coreSigBytes {s : CoreSig β}
    (hsig : s.sig.length = desc.dsaSigLen) (hlen : s.sig.length ≤ 0xffff) :
    gyQspgsCoreSigDecode desc (coreSigBytes desc s) = .ok s := by
  unfold coreSigBytes
  have hn : (UInt16.ofNat s.sig.length).toNat = s.sig.length := by
    rw [UInt16.toNat_ofNat']
    exact Nat.mod_eq_of_lt (by omega)
  simp only [List.append_assoc]
  unfold gyQspgsCoreSigDecode
  rw [objCheckHeader_objPutHeader, Except.ok_bind, drop_objPutHeader]
  have hvmin : be32Get ((be32Put s.signerIndex ++ (be32Put s.lastVmin ++
      (be16Put (UInt16.ofNat s.sig.length) ++ s.sig))).drop 4) = s.lastVmin :=
    be32Get_drop_field (be32Put s.signerIndex) (be16Put (UInt16.ofNat s.sig.length) ++ s.sig)
      (by simp) (by simp)
  have hsl : be16Get ((be32Put s.signerIndex ++ (be32Put s.lastVmin ++
      (be16Put (UInt16.ofNat s.sig.length) ++ s.sig))).drop 8) = UInt16.ofNat s.sig.length :=
    be16Get_drop_field (be32Put s.signerIndex ++ be32Put s.lastVmin) s.sig (by simp) (by simp)
  have hdrop : (be32Put s.signerIndex ++ (be32Put s.lastVmin ++
      (be16Put (UInt16.ofNat s.sig.length) ++ s.sig))).drop 10 = s.sig :=
    drop_field (be32Put s.signerIndex ++ be32Put s.lastVmin ++
      be16Put (UInt16.ofNat s.sig.length)) (by simp) (by simp)
  rw [if_neg (by simp; omega)]
  dsimp only
  rw [hvmin, hsl, hdrop, hn, be32Get_be32Put, if_neg (by simp [hsig]; omega)]

omit [DecidableEq β] in
/-- The three objects of a core decode to the core they were encoded from; the last minor version
travels with the signature. -/
theorem decodeCore_bytes {core : QspgsCore β} (hwf : core.Wf desc) :
    decodeCore desc (headerBytes desc core) (memberListBytes desc core) (vkLstBytes desc core) =
      .ok { core with lastVmin := 0 } := by
  unfold decodeCore
  rw [gyQspgsHeaderDecode_headerBytes desc _ hwf, Except.ok_bind,
    gyQspgsMemberListDecode_memberListBytes desc _ hwf, Except.ok_bind,
    gyQspgsVkLstDecode_vkLstBytes desc _ hwf]
  rfl

omit [DecidableEq β] in
/-- The encoders write a well-formed core into a buffer that holds it. -/
theorem gyQspgsMemberListEncode_eq {core : QspgsCore β} {cap : Nat} (hwf : core.Wf desc)
    (hcap : (memberListBytes desc core).length ≤ cap) :
    gyQspgsMemberListEncode desc core cap = .ok (memberListBytes desc core) := by
  have hmct : ¬ (core.members.any fun m => decide (0xffff < m.mct.length)) = true := by
    simpa using hwf.mct
  rw [gyQspgsMemberListEncode, if_neg (not_lt.mpr hwf.members_le), if_neg hmct,
    if_neg (not_lt.mpr hcap)]

omit [DecidableEq β] in
/-- What is signed for a core, if it fits the buffer. -/
theorem gyQspgsCoreTbs_eq {core : QspgsCore β} {cap : Nat} (i : UInt32) (hwf : core.Wf desc)
    (hcap : (coreTbsBytes desc core i).length ≤ cap) :
    gyQspgsCoreTbs desc core i cap = .ok (coreTbsBytes desc core i) := by
  simp only [coreTbsBytes, List.length_append, length_be32Put] at hcap
  rw [gyQspgsCoreTbs, if_neg (by omega), gyQspgsHeaderEncode, if_neg (by omega), Except.ok_bind,
    gyQspgsMemberListEncode_eq desc hwf (by omega), Except.ok_bind, gyQspgsVkLstEncode,
    if_neg (not_lt.mpr hwf.vkhash_le), if_neg (by omega), Except.ok_bind, if_neg (by omega)]
  rfl

omit [DecidableEq β] in
/-- A join slot that is read has a length of 32 bits. -/
theorem joinSlotDecode_length {b join : Bytes β} (h : joinSlotDecode b = .ok join) :
    join.length < 2 ^ 32 := by
  unfold joinSlotDecode at h
  dsimp only at h
  split_ifs at h
  · obtain rfl := Except.ok.inj h
    exact Nat.two_pow_pos 32
  · next hlen =>
    obtain rfl := Except.ok.inj h
    rw [not_not.mp hlen]
    exact (be32Get (b.drop 1)).toNat_lt

omit [DecidableEq β] in
/-- What a header that is read satisfies. -/
theorem gyQspgsHeaderDecode_ok {init core : QspgsCore β} {b : Bytes β}
    (h : gyQspgsHeaderDecode desc init b = .ok core) :
    core.gid.length = qspgsGidLen ∧ core.formatVersion = qspgsFormatVersion ∧
      core.saCt.length < 2 ^ 32 ∧ core.joinCt.length < 2 ^ 32 ∧
      core.members = init.members ∧ core.vkhash = init.vkhash ∧ core.lastVmin = init.lastVmin := by
  obtain ⟨_, _, h⟩ := Except.bind_eq_ok_iff.mp h
  dsimp only at h
  split_ifs at h with hlen hfmt hsal
  obtain ⟨join, hjoin, h⟩ := Except.bind_eq_ok_iff.mp h
  obtain rfl := Except.ok.inj h
  refine ⟨?_, not_not.mp hfmt, ?_, joinSlotDecode_length hjoin, rfl, rfl, rfl⟩
  · simp only [List.length_take]
    omega
  · refine lt_of_le_of_lt (List.length_take_le _ _) ?_
    exact (be32Get _).toNat_lt

omit [DecidableEq β] in
/-- What member entries that are read satisfy. -/
theorem memberEntries_ok {hlen n : Nat} {b tail : Bytes β} {ms : List (QspgsMember β)}
    (h : memberEntries hlen n b = .ok (ms, tail)) :
    ms.length = n ∧ ∀ m ∈ ms, m.cuid.length = hlen ∧ m.mct.length ≤ 0xffff := by
  induction n generalizing b ms with
  | zero =>
    obtain ⟨rfl, rfl⟩ := Prod.mk.inj (Except.ok.inj h)
    simp
  | succ n ih =>
    unfold memberEntries at h
    dsimp only at h
    split_ifs at h with hb hadmn hlenm
    obtain ⟨⟨ms', tail'⟩, hrec, h⟩ := Except.bind_eq_ok_iff.mp h
    obtain ⟨rfl, rfl⟩ := Prod.mk.inj (Except.ok.inj h)
    obtain ⟨hlen', hms⟩ := ih hrec
    refine ⟨by simp [hlen'], fun m hm => ?_⟩
    rcases List.mem_cons.mp hm with rfl | hm
    · refine ⟨?_, ?_⟩
      · simp only [List.length_take]
        omega
      · refine le_trans (List.length_take_le _ _) ?_
        exact Nat.le_of_lt_succ (be16Get _).toNat_lt
    · exact hms m hm

omit [DecidableEq β] in
/-- What a member list that is read satisfies. -/
theorem gyQspgsMemberListDecode_ok {init core : QspgsCore β} {b : Bytes β}
    (h : gyQspgsMemberListDecode desc init b = .ok core) :
    ∃ ms : List (QspgsMember β), core = { init with members := ms } ∧
      ms.length ≤ qspgsMaxEntries ∧
      ∀ m ∈ ms, m.cuid.length = desc.hashLen ∧ m.mct.length ≤ 0xffff := by
  obtain ⟨_, _, h⟩ := Except.bind_eq_ok_iff.mp h
  dsimp only at h
  split_ifs at h with hlen hhash hmax
  obtain ⟨⟨ms, tail⟩, hms, h⟩ := Except.bind_eq_ok_iff.mp h
  dsimp only at h
  split_ifs at h
  obtain ⟨hn, hwf⟩ := memberEntries_ok hms
  exact ⟨ms, (Except.ok.inj h).symm, by omega, hwf⟩

omit [Octet β] [DecidableEq β] in
/-- The number and the widths of the hashes that are read. -/
theorem hashEntries_ok {hlen n : Nat} {b : Bytes β} (h : b.length = n * hlen) :
    (hashEntries hlen n b).length = n ∧ ∀ x ∈ hashEntries hlen n b, x.length = hlen := by
  induction n generalizing b with
  | zero => simp [hashEntries]
  | succ n ih =>
    rw [Nat.add_mul, Nat.one_mul] at h
    obtain ⟨hlen', hall⟩ := ih (show (b.drop hlen).length = n * hlen by simp [h])
    refine ⟨by simp [hashEntries, hlen'], fun x hx => ?_⟩
    rcases List.mem_cons.mp hx with rfl | hx
    · simp only [List.length_take]
      omega
    · exact hall x hx

omit [DecidableEq β] in
/-- What a key list that is read satisfies. -/
theorem gyQspgsVkLstDecode_ok {init core : QspgsCore β} {b : Bytes β}
    (h : gyQspgsVkLstDecode desc init b = .ok core) :
    ∃ hs : List (Bytes β), core = { init with vkhash := hs } ∧ hs.length ≤ qspgsMaxEntries ∧
      ∀ x ∈ hs, x.length = desc.hashLen := by
  obtain ⟨_, _, h⟩ := Except.bind_eq_ok_iff.mp h
  dsimp only at h
  split_ifs at h with hlen hhash hmax hexact
  have hbody : ((b.drop qspgsObjHdrLen).drop 3).length =
      (be16Get ((b.drop qspgsObjHdrLen).drop 1)).toNat * desc.hashLen := by
    rw [List.length_drop]
    omega
  obtain ⟨hn, hall⟩ := hashEntries_ok hbody
  exact ⟨_, (Except.ok.inj h).symm, by omega, hall⟩

omit [DecidableEq β] in
/-- A decoded core is well formed: it can be encoded again. -/
theorem decodeCore_wf {hdr mem vk : Bytes β} {core : QspgsCore β}
    (h : decodeCore desc hdr mem vk = .ok core) : core.Wf desc ∧ core.lastVmin = 0 := by
  obtain ⟨core₁, hh, h⟩ := Except.bind_eq_ok_iff.mp h
  obtain ⟨core₂, hm, hv⟩ := Except.bind_eq_ok_iff.mp h
  obtain ⟨hgid, hfmt, hsa, hjoin, -, -, hvmin⟩ := gyQspgsHeaderDecode_ok desc hh
  obtain ⟨ms, rfl, hms, hmem⟩ := gyQspgsMemberListDecode_ok desc hm
  obtain ⟨hs, rfl, hhs, hvk⟩ := gyQspgsVkLstDecode_ok desc hv
  exact ⟨⟨hgid, hfmt, hsa, hjoin, hms, fun m hm => (hmem m hm).1, fun m hm => (hmem m hm).2, hhs,
    hvk⟩, hvmin⟩

end Geryon
