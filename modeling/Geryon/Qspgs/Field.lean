import Geryon.Qspgs.Store

/-!
# Group keys and sealed fields

The derivations of `qspgs_keys.c`, the sealed fields of `qspgs_field.c` and the member entries of
`qspgs_ops.c`.

Sealing draws a nonce, so it runs over the state of a client: its store and the random bytes it is
going to draw. An empty input stands for the `NULL` pointer an empty field is decoded to.
-/

namespace Geryon

/-- The outputs of `gy_random_bytes` by call and length; a call may fail. -/
abbrev Coins (β : Type) := ℕ → (n : ℕ) → Option { b : Bytes β // b.length = n }

/-- The state of a client of the group layer. -/
structure QsWorld (β : Type) where
  store : QsStore β
  rnd : Coins β
  /-- The number of calls of `gy_random_bytes` so far. -/
  drawn : ℕ

/-- Calls of a client. -/
abbrev QsC (β : Type) := Cmd GyErr (QsWorld β)

/-- A call on the store of a client. -/
def onStore {β α : Type} (x : QsM β α) : QsC β α :=
  Cmd.zoom QsWorld.store (fun s w => { w with store := s }) x

/-- `gy_random_bytes`. -/
def gyRandomBytes {β : Type} (n : ℕ) : QsC β (Bytes β) := fun w =>
  match w.rnd w.drawn n with
  | some b => (.ok b.1, { w with drawn := w.drawn + 1 })
  | none => (.error .crypto, { w with drawn := w.drawn + 1 })

variable {β : Type} [Octet β] [DecidableEq β] (desc : SuiteDesc β)

/-! ## Key derivations -/

/-- `qspgs_kdf`. -/
def qspgsKdf (domain key info : Bytes β) (outlen : Nat) : Except GyErr (Bytes β) := do
  let prk ← desc.hkdfExtract domain key
  desc.hkdfExpand outlen prk info

/-- `qspgs_prepare`: the domain of a purpose, for a hybrid suite. -/
def qspgsPrepare (purpose : String) : Except GyErr (Bytes β) :=
  if gyQspgsMasterKeyLen desc = 0 then .error .arg else gyInfo desc qspgsDomainMax purpose

/-- `gy_qspgs_derive_uk`. -/
def gyQspgsDeriveUk (muk : Bytes β) (ep : UInt64) : Except GyErr (Bytes β) := do
  let domain ← qspgsPrepare desc "qspgs-uk"
  qspgsKdf desc domain muk (domain ++ be64Put ep) (gyQspgsMasterKeyLen desc)

/-- `gy_qspgs_derive_acq`. -/
def gyQspgsDeriveAcq (uk : Bytes β) : Except GyErr (Bytes β) := do
  let domain ← qspgsPrepare desc "qspgs-acq"
  qspgsKdf desc domain uk domain (gyQspgsMasterKeyLen desc)

/-- The two halves of a sub-key: `GY_QSPGS_EK_BYTES` and `GY_QSPGS_RRS_BYTES`. -/
structure SubKey (β : Type) where
  ek : Bytes β
  rrs : Bytes β
  deriving DecidableEq

/-- `gy_qspgs_derive_sub_key`. -/
def gyQspgsDeriveSubKey (gk : Bytes β) : Except GyErr (SubKey β) := do
  let domain ← qspgsPrepare desc "qspgs-sub"
  let sub ← qspgsKdf desc domain gk domain 64
  return ⟨sub.take 32, sub.drop 32⟩

/-- `gy_qspgs_derive_fet`. -/
def gyQspgsDeriveFet (gk : Bytes β) : Except GyErr (Bytes β) := do
  let domain ← qspgsPrepare desc "qspgs-fet"
  qspgsKdf desc domain gk domain 32

/-- `gy_qspgs_derive_rho`. -/
def gyQspgsDeriveRho (rrs uid : Bytes β) : Except GyErr (Bytes β) :=
  if uid.length ≠ qspgsUidLen then .error .arg
  else do
    let domain ← qspgsPrepare desc "qspgs-rerand"
    qspgsKdf desc domain rrs (domain ++ Octet.ofByte (UInt8.ofNat uid.length) :: uid) 64

/-- `gy_qspgs_attribute_hash`: the hash of a member's pseudonym key. -/
def gyQspgsAttributeHash [KrMlDsa β] (rrs vkb uid : Bytes β) : Except GyErr (Bytes β) := do
  let rho ← gyQspgsDeriveRho desc rrs uid
  let vkr ← KrMlDsa.randVk desc vkb rho
  gyQspgsVkpsdnHash desc vkr

/-- An open member context (`struct gy_qspgs_member_ctx`). -/
structure MemberCtx (β : Type) where
  sub : SubKey β
  vkr : Bytes β
  sk : Bytes β

/-- `gy_qspgs_member_ctx_open`. -/
def gyQspgsMemberCtxOpen [KrMlDsa β] (gk skb vkb uid : Bytes β) : Except GyErr (MemberCtx β) :=
  if gyQspgsMasterKeyLen desc = 0 then .error .arg
  else do
    let sub ← gyQspgsDeriveSubKey desc gk
    let rho ← gyQspgsDeriveRho desc sub.rrs uid
    let vkr ← KrMlDsa.randVk desc vkb rho
    let sk ← KrMlDsa.randSk desc skb vkb rho
    return ⟨sub, vkr, sk⟩

/-! ## Sealed fields -/

/-- The field kinds `GY_QSPGS_FIELD_*`. -/
inductive FieldTag where
  | member | header | attr | uk | joinSlot
  deriving DecidableEq, Repr

/-- The tag byte of a field kind. -/
def FieldTag.byte : FieldTag → UInt8
  | .member => 1
  | .header => 2
  | .attr => 3
  | .uk => 4
  | .joinSlot => 5

/-- `gy_qspgs_group_aead_ok`. -/
def gyQspgsGroupAeadOk (aeadId : UInt8) : Bool := aeadId = 1 ∨ aeadId = 3

/-- `field_aad`. -/
def fieldAad (tag : FieldTag) (gid : Bytes β) : Except GyErr (Bytes β) := do
  let domain ← qspgsPrepare desc "qspgs-field"
  return domain ++ Octet.ofByte tag.byte :: gid

/-- `gy_qspgs_field_overhead`. -/
def gyQspgsFieldOverhead (aeadId : UInt8) : Nat :=
  if gyQspgsGroupAeadOk aeadId then aeadNonceLen aeadId + aeadTagLen aeadId else 0

section

variable [Sodium β]

/-- `gy_qspgs_field_seal` into a buffer of `cap` bytes: a fresh nonce and the sealed text. -/
def gyQspgsFieldSeal (aeadId : UInt8) (ek : Bytes β) (tag : FieldTag) (gid pt : Bytes β)
    (cap : Nat) : QsC β (Bytes β) :=
  if ¬gyQspgsGroupAeadOk aeadId then Cmd.fail .arg
  else do
    let aad ← Cmd.lift (fieldAad desc tag gid)
    if cap < aeadNonceLen aeadId + pt.length + aeadTagLen aeadId then Cmd.fail .toolong
    else do
      let nonce ← gyRandomBytes (aeadNonceLen aeadId)
      let ct ← Cmd.lift (gyAeadEncrypt aeadId (cap - aeadNonceLen aeadId) ek nonce aad pt)
      return nonce ++ ct

/-- `gy_qspgs_field_open` into a buffer of `cap` bytes. -/
def gyQspgsFieldOpen (aeadId : UInt8) (ek : Bytes β) (tag : FieldTag) (gid input : Bytes β)
    (cap : Nat) : Except GyErr (Bytes β) :=
  if input.length = 0 then .error .arg
  else if ¬gyQspgsGroupAeadOk aeadId then .error .arg
  else do
    let aad ← fieldAad desc tag gid
    if input.length < aeadNonceLen aeadId + aeadTagLen aeadId then .error .toolong
    else
      gyAeadDecrypt aeadId cap ek (input.take (aeadNonceLen aeadId)) aad
        (input.drop (aeadNonceLen aeadId))

/-! ## Member tuples -/

/-- `GY_QSPGS_MEMBER_PT_MAX`. -/
def qspgsMemberPtMax : Nat := 1 + 1 + qspgsUidLen + qspgsRcLen + qspgsMasterKeyMax

/-- A member tuple: who, in which form, the opening of the commitment and the key slot, which is the
user key of a settled member and the basis key of a pending one. -/
structure MemberTuple (β : Type) where
  pending : Bool
  uid : Bytes β
  rcOpen : Bytes β
  key : Bytes β
  deriving DecidableEq

/-- `member_ct_seal_form`. -/
def memberCtSealForm (aeadId : UInt8) (ek gid : Bytes β) (t : MemberTuple β) (cap : Nat) :
    QsC β (Bytes β) :=
  if gyQspgsMasterKeyLen desc = 0 then Cmd.fail .arg
  else if t.uid.length ≠ qspgsUidLen then Cmd.fail .arg
  else
    gyQspgsFieldSeal desc aeadId ek .member gid
      (Octet.ofByte (if t.pending then 1 else 0) :: Octet.ofByte (UInt8.ofNat t.uid.length) ::
        (t.uid ++ t.rcOpen ++ t.key)) cap

/-- `gy_qspgs_member_ct_open`. -/
def gyQspgsMemberCtOpen (aeadId : UInt8) (ek gid input : Bytes β) :
    Except GyErr (MemberTuple β) :=
  if gyQspgsMasterKeyLen desc = 0 then .error .arg
  else do
    let pt ← gyQspgsFieldOpen desc aeadId ek .member gid input qspgsMemberPtMax
    if pt.length < 2 then .error .verify
    -- the pending flag, the length of the user id, then the three fields at fixed offsets
    else if 1 < byteAt pt 0 then .error .verify
    else if byteAt pt 1 ≠ qspgsUidLen ∨
        pt.length ≠ 2 + qspgsUidLen + qspgsRcLen + gyQspgsMasterKeyLen desc then .error .verify
    else .ok ⟨byteAt pt 0 = 1, (pt.drop 2).take qspgsUidLen,
      (pt.drop (2 + qspgsUidLen)).take qspgsRcLen, pt.drop (2 + qspgsUidLen + qspgsRcLen)⟩

/-- A fetched member (`struct gy_qspgs_member_view`). -/
structure MemberView (β : Type) where
  uid : Bytes β
  admn : Bool
  pending : Bool
  uk : Bytes β
  deriving DecidableEq

/-- `gy_qspgs_member_decrypt`: the user key of a pending entry is left zero. -/
def gyQspgsMemberDecrypt (aeadId : UInt8) (ek gid : Bytes β) (m : QspgsMember β) :
    Except GyErr (MemberView β) :=
  if m.mct.length = 0 then .error .arg
  else do
    let t ← gyQspgsMemberCtOpen desc aeadId ek gid m.mct
    let computed ← gyQspgsCuidCommit desc t.uid t.rcOpen
    if computed ≠ m.cuid then .error .verify
    else .ok ⟨t.uid, m.admn, t.pending,
      if t.pending then zeros (gyQspgsMasterKeyLen desc) else t.key⟩

/-- The buffer of a sealed member tuple. -/
def mctCap : Nat := 512

/-- `member_build_form`: an entry of the member list and its key hash. -/
def memberBuildForm [KrMlDsa β] (aeadId : UInt8) (sub : SubKey β) (gid : Bytes β) (pending : Bool)
    (uid key vkb : Bytes β) (admn : Bool) : QsC β (QspgsMember β × Bytes β) :=
  if gyQspgsMasterKeyLen desc = 0 then Cmd.fail .arg
  else do
    let rcOpen ← gyRandomBytes qspgsRcLen
    let mct ← memberCtSealForm desc aeadId sub.ek gid ⟨pending, uid, rcOpen, key⟩ mctCap
    let cuid ← Cmd.lift (gyQspgsCuidCommit desc uid rcOpen)
    let vkhash ← Cmd.lift (gyQspgsAttributeHash desc sub.rrs vkb uid)
    return (⟨cuid, admn, mct⟩, vkhash)

/-- `gy_qspgs_member_build`. -/
def gyQspgsMemberBuild [KrMlDsa β] (aeadId : UInt8) (sub : SubKey β) (gid uid uk vkb : Bytes β)
    (admn : Bool) : QsC β (QspgsMember β × Bytes β) :=
  memberBuildForm desc aeadId sub gid false uid uk vkb admn

/-- `gy_qspgs_member_build_pending`: a pending entry is never an admin line. -/
def gyQspgsMemberBuildPending [KrMlDsa β] (aeadId : UInt8) (sub : SubKey β)
    (gid uid gkPrime vkb : Bytes β) : QsC β (QspgsMember β × Bytes β) :=
  memberBuildForm desc aeadId sub gid true uid gkPrime vkb false

/-! ## Join links -/

/-- `joinlink_key`. -/
def joinlinkKey (jls : Bytes β) : Except GyErr (Bytes β) := do
  let domain ← gyInfo desc qspgsDomainMax "qspgs-joinlink"
  qspgsKdf desc domain jls domain 32

/-- `gy_qspgs_joinlink_seal`. -/
def gyQspgsJoinlinkSeal (aeadId : UInt8) (jls gid gk fet : Bytes β) (cap : Nat) :
    QsC β (Bytes β) :=
  if gyQspgsMasterKeyLen desc = 0 then Cmd.fail .arg
  else do
    let jlk ← Cmd.lift (joinlinkKey desc jls)
    gyQspgsFieldSeal desc aeadId jlk .joinSlot gid (gk ++ fet) cap

/-- `gy_qspgs_joinlink_open`: the group key and the fetch token. -/
def gyQspgsJoinlinkOpen (aeadId : UInt8) (jls gid input : Bytes β) :
    Except GyErr (Bytes β × Bytes β) :=
  if gyQspgsMasterKeyLen desc = 0 then .error .arg
  else do
    let jlk ← joinlinkKey desc jls
    let pt ← gyQspgsFieldOpen desc aeadId jlk .joinSlot gid input (qspgsMasterKeyMax + 32)
    if pt.length ≠ gyQspgsMasterKeyLen desc + 32 then .error .verify
    else .ok (pt.take (gyQspgsMasterKeyLen desc), pt.drop (gyQspgsMasterKeyLen desc))

end

end Geryon
