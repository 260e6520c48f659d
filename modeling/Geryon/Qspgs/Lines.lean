import Mathlib.Algebra.Order.BigOperators.Group.List
import Mathlib.Algebra.Order.Ring.Nat
import Geryon.Qspgs.Field

/-!
# Appendix lines, accounts and invitations

The remaining objects of `qspgs_wire.c` (the appendix, the invite queue and the registration
record), the encryption to an invite key of `qspgs_join.c`, the identity signatures of
`qspgs_pers.c`, and the acceptances and line signatures of `qspgs_ops.c`.
-/

namespace Geryon

/-! ## The appendix -/

/-- The line types `GY_QAPX_*`. -/
inductive ApxKind where
  | leave | refresh | addUser | modAttr | join
  deriving DecidableEq, Repr

/-- The wire byte of a line type. -/
def ApxKind.byte : ApxKind → UInt8
  | .leave => 1
  | .refresh => 2
  | .addUser => 3
  | .modAttr => 4
  | .join => 5

/-- The line type of a wire byte; `apx_line_type_ok`. -/
def ApxKind.ofByte (b : Nat) : Option ApxKind :=
  if b = 1 then some .leave
  else if b = 2 then some .refresh
  else if b = 3 then some .addUser
  else if b = 4 then some .modAttr
  else if b = 5 then some .join
  else none

/-- An appendix line (`struct gy_qspgs_apx_line`). -/
structure ApxLine (β : Type) where
  lineType : ApxKind
  authorIndex : UInt32
  payload : Bytes β
  sig : Bytes β
  deriving DecidableEq

/-- An appendix (`struct gy_qspgs_appendix`). -/
structure Appendix (β : Type) where
  gid : Bytes β
  vmaj : UInt32
  vmin : UInt32
  lines : List (ApxLine β)
  deriving DecidableEq

variable {β : Type} [Octet β] [DecidableEq β] (desc : SuiteDesc β)

/-- `gy_qspgs_apx_line_tbs` into a buffer of `cap` bytes. -/
def gyQspgsApxLineTbs (gid : Bytes β) (vmaj vmin : UInt32) (lineType : ApxKind)
    (authorIndex : UInt32) (payload : Bytes β) (cap : Nat) : Except GyErr (Bytes β) :=
  if cap < qspgsGidLen + 4 + 4 + 1 + 4 + payload.length then .error .toolong
  else .ok (gid ++ be32Put vmaj ++ be32Put vmin ++ [Octet.ofByte lineType.byte] ++
    be32Put authorIndex ++ payload)

/-- `gy_qspgs_apx_line_verify` with a scratch buffer of `cap` bytes. -/
def gyQspgsApxLineVerify [KrMlDsa β] (gid : Bytes β) (vmaj vmin : UInt32) (line : ApxLine β)
    (vkr : Bytes β) (cap : Nat) : Except GyErr Unit := do
  let tbs ← gyQspgsApxLineTbs gid vmaj vmin line.lineType line.authorIndex line.payload cap
  if line.sig.length ≠ desc.dsaSigLen then .error .verify
  else if KrMlDsa.verify desc line.sig vkr tbs (ascii "qspgs-appendix") then .ok ()
  else .error .verify

/-- `gy_qspgs_apx_line_resolve_verify`; a newcomer has no stored hash. -/
def gyQspgsApxLineResolveVerify [KrMlDsa β] (gid : Bytes β) (vmaj vmin : UInt32)
    (line : ApxLine β) (rrs authorVkb authorUid : Bytes β) (storedVkhash : Option (Bytes β))
    (cap : Nat) : Except GyErr Unit := do
  let rho ← gyQspgsDeriveRho desc rrs authorUid
  let vkr ← KrMlDsa.randVk desc authorVkb rho
  match storedVkhash with
  | some h => gyQspgsVkpsdnHashCheck desc vkr h
  | none => pure ()
  gyQspgsApxLineVerify desc gid vmaj vmin line vkr cap

/-- One line on the wire. -/
def ApxLine.encode (l : ApxLine β) : Bytes β :=
  Octet.ofByte l.lineType.byte :: (be32Put l.authorIndex ++
    be16Put (UInt16.ofNat l.payload.length) ++ l.payload ++
    be16Put (UInt16.ofNat l.sig.length) ++ l.sig)

/-- An appendix object. -/
def appendixBytes (apx : Appendix β) : Bytes β :=
  objPutHeader desc .appendix ++ apx.gid ++ be32Put apx.vmaj ++ be32Put apx.vmin ++
    be16Put (UInt16.ofNat apx.lines.length) ++ apx.lines.flatMap ApxLine.encode

/-- `gy_qspgs_appendix_encode` into a buffer of `cap` bytes. -/
def gyQspgsAppendixEncode (apx : Appendix β) (cap : Nat) : Except GyErr (Bytes β) :=
  if qspgsMaxEntries < apx.lines.length then .error .arg
  else if apx.lines.any fun l =>
      l.sig.length = 0 ∨ 0xffff < l.payload.length ∨ 0xffff < l.sig.length then .error .arg
  else if cap < (appendixBytes desc apx).length then .error .toolong
  else .ok (appendixBytes desc apx)

/-- The line loop of `gy_qspgs_appendix_decode`: `n` lines and what follows them. -/
def apxLines (siglen : Nat) : Nat → Bytes β → Except GyErr (List (ApxLine β) × Bytes β)
  | 0, b => .ok ([], b)
  | n + 1, b =>
    -- kind, author and payload length stand in front of the payload
    if b.length < 1 + 4 + 2 then .error .verify
    else
      match ApxKind.ofByte (byteAt b 0) with
      | none => .error .verify
      | some kind =>
        let pl := (be16Get (b.drop 5)).toNat
        let rest := b.drop 7
        if rest.length < pl then .error .verify
        else
          let tail := rest.drop pl
          if tail.length < 2 then .error .verify
          else
            let sl := (be16Get tail).toNat
            -- a line carries a whole ML-DSA signature or none is read
            if sl ≠ siglen ∨ (tail.drop 2).length < sl then .error .verify
            else do
              let (ls, left) ← apxLines siglen n ((tail.drop 2).drop sl)
              return (⟨kind, be32Get (b.drop 1), rest.take pl, (tail.drop 2).take sl⟩ :: ls, left)

/-- `gy_qspgs_appendix_decode` into an array of `GY_QSPGS_MAX_ENTRIES` lines. -/
def gyQspgsAppendixDecode (b : Bytes β) : Except GyErr (Appendix β) := do
  objCheckHeader desc .appendix b
  let b := b.drop qspgsObjHdrLen
  if b.length < qspgsGidLen + 4 + 4 + 2 then .error .verify
  else
    let n := (be16Get (b.drop 24)).toNat
    if qspgsMaxEntries < n then .error .verify
    else do
      let (ls, tail) ← apxLines desc.dsaSigLen n (b.drop 26)
      if tail.length ≠ 0 then .error .verify
      else .ok ⟨b.take qspgsGidLen, be32Get (b.drop 16), be32Get (b.drop 20), ls⟩

/-- `gy_qspgs_appendix_decode` into an array of `outCap` lines. -/
def gyQspgsAppendixDecodeInto (outCap : Nat) (b : Bytes β) : Except GyErr (Appendix β) := do
  objCheckHeader desc .appendix b
  let b := b.drop qspgsObjHdrLen
  if b.length < qspgsGidLen + 4 + 4 + 2 then .error .verify
  else
    let n := (be16Get (b.drop 24)).toNat
    if qspgsMaxEntries < n then .error .verify
    else if outCap < n then .error .toolong
    else do
      let (ls, tail) ← apxLines desc.dsaSigLen n (b.drop 26)
      if tail.length ≠ 0 then .error .verify
      else .ok ⟨b.take qspgsGidLen, be32Get (b.drop 16), be32Get (b.drop 20), ls⟩

/-! ## The invite queue -/

/-- An invite-queue object. -/
def inviteQueueBytes (entries : List (Bytes β)) : Bytes β :=
  objPutHeader desc .inviteQueue ++ be16Put (UInt16.ofNat entries.length) ++
    entries.flatMap fun e => be32Put (UInt32.ofNat e.length) ++ e

/-- `gy_qspgs_invite_queue_encode` into a buffer of `cap` bytes. -/
def gyQspgsInviteQueueEncode (entries : List (Bytes β)) (cap : Nat) : Except GyErr (Bytes β) :=
  if qspgsMaxEntries < entries.length then .error .arg
  else if entries.any fun e => e.length = 0 then .error .arg
  else if cap < (inviteQueueBytes desc entries).length then .error .toolong
  else .ok (inviteQueueBytes desc entries)

/-- The entry loop of `gy_qspgs_invite_queue_decode`. -/
def inviteEntries : Nat → Bytes β → Except GyErr (List (Bytes β) × Bytes β)
  | 0, b => .ok ([], b)
  | n + 1, b =>
    if b.length < 4 then .error .verify
    else
      let el := (be32Get b).toNat
      if el = 0 ∨ (b.drop 4).length < el then .error .verify
      else do
        let (es, tail) ← inviteEntries n ((b.drop 4).drop el)
        return ((b.drop 4).take el :: es, tail)

/-- `gy_qspgs_invite_queue_decode` into an array of `GY_QSPGS_MAX_ENTRIES` entries. -/
def gyQspgsInviteQueueDecode (b : Bytes β) : Except GyErr (List (Bytes β)) := do
  objCheckHeader desc .inviteQueue b
  let b := b.drop qspgsObjHdrLen
  if b.length < 2 then .error .verify
  else
    let n := (be16Get b).toNat
    if qspgsMaxEntries < n then .error .verify
    else do
      let (es, tail) ← inviteEntries n (b.drop 2)
      if tail.length ≠ 0 then .error .verify else .ok es

/-- `gy_qspgs_invite_queue_decode` into an array of `outCap` entries. -/
def gyQspgsInviteQueueDecodeInto (outCap : Nat) (b : Bytes β) : Except GyErr (List (Bytes β)) := do
  objCheckHeader desc .inviteQueue b
  let b := b.drop qspgsObjHdrLen
  if b.length < 2 then .error .verify
  else
    let n := (be16Get b).toNat
    if qspgsMaxEntries < n then .error .verify
    else if outCap < n then .error .toolong
    else do
      let (es, tail) ← inviteEntries n (b.drop 2)
      if tail.length ≠ 0 then .error .verify else .ok es

/-! ## Accounts -/

/-- A registration record. -/
structure Acct (β : Type) where
  vkb : Bytes β
  acq : Bytes β
  ep : UInt64
  edSig : Bytes β
  mldsaSig : Bytes β
  deriving DecidableEq

/-- A registration-record object. -/
def acctBytes (a : Acct β) : Bytes β :=
  objPutHeader desc .acct ++ a.vkb ++ a.acq ++ be64Put a.ep ++
    be16Put (UInt16.ofNat a.edSig.length) ++ a.edSig ++
    be16Put (UInt16.ofNat a.mldsaSig.length) ++ a.mldsaSig

/-- `gy_qspgs_acct_encode` into a buffer of `cap` bytes. -/
def gyQspgsAcctEncode [KrMlDsa β] (a : Acct β) (cap : Nat) : Except GyErr (Bytes β) :=
  if KrMlDsa.vkbLen desc = 0 ∨ gyQspgsMasterKeyLen desc = 0 then .error .arg
  else if a.edSig.length = 0 ∨ 0xffff < a.edSig.length ∨ a.mldsaSig.length = 0 ∨
      0xffff < a.mldsaSig.length then .error .arg
  else if cap < (acctBytes desc a).length then .error .toolong
  else .ok (acctBytes desc a)

/-- `gy_qspgs_acct_decode`; the record may be missing. -/
def gyQspgsAcctDecode [KrMlDsa β] (input : Option (Bytes β)) : Except GyErr (Acct β) :=
  match input with
  | none => .error .arg
  | some b =>
    let vkblen := KrMlDsa.vkbLen desc
    let mklen := gyQspgsMasterKeyLen desc
    if vkblen = 0 ∨ mklen = 0 then .error .arg
    else do
      objCheckHeader desc .acct b
      let b := b.drop qspgsObjHdrLen
      if b.length < vkblen + mklen + 8 + 2 then .error .verify
      else
        let tail := b.drop (vkblen + mklen)
        let esl := (be16Get (tail.drop 8)).toNat
        let rest := tail.drop 10
        -- both signatures must be there; their true lengths are the verifier's business
        if esl = 0 ∨ rest.length < esl then .error .verify
        else
          let last := rest.drop esl
          if last.length < 2 then .error .verify
          else
            let msl := (be16Get last).toNat
            -- the last field ends the object
            if msl = 0 ∨ (last.drop 2).length ≠ msl then .error .verify
            else .ok ⟨b.take vkblen, (b.drop vkblen).take mklen, be64Get tail, rest.take esl,
              last.drop 2⟩

/-- An account served for a user (`struct gy_qsgroup_acct_ref`). -/
structure AcctRef (β : Type) where
  uid : Bytes β
  acct : Option (Bytes β)
  curvePk : Option (Bytes β)
  mldsaPk : Option (Bytes β)

/-- The context labels of identity signatures. -/
inductive PersCtx where
  | reguser | invaccept
  deriving DecidableEq

/-- `GY_QSPGS_CTX_REGUSER` and `GY_QSPGS_CTX_INVACCEPT`. -/
def PersCtx.purpose : PersCtx → String
  | .reguser => "qspgs-reguser"
  | .invaccept => "qspgs-invaccept"

/-- `gy_qspgs_pers_verify`: both signatures must verify. -/
def gyQspgsPersVerify (curvePk mldsaPk : Bytes β) (ctx : PersCtx) (obj edSig mldsaSig : Bytes β) :
    Except GyErr Unit :=
  if 6144 < obj.length then .error .toolong
  else do
    let info ← gyInfo desc qspgsDomainMax ctx.purpose
    match desc.verify edSig curvePk (info ++ obj) with
    | .error _ => .error .verify
    | .ok () =>
      match desc.dsaVerify mldsaSig mldsaPk obj info with
      | .error _ => .error .verify
      | .ok () => .ok ()

/-- `gy_qspgs_acct_verify`. -/
def gyQspgsAcctVerify [KrMlDsa β] (curvePk mldsaPk : Bytes β) (input : Option (Bytes β)) :
    Except GyErr (Acct β) := do
  let a ← gyQspgsAcctDecode desc input
  if a.edSig.length ≠ desc.sigLen ∨ a.mldsaSig.length ≠ desc.dsaSigLen then .error .verify
  else do
    gyQspgsPersVerify desc curvePk mldsaPk .reguser (a.vkb ++ a.acq) a.edSig a.mldsaSig
    return a

/-! ## Invite keys and acceptances -/

/-- Key generation for invite keys: deterministic ML-KEM and a fresh curve pair from coins. -/
class JoinKem (β : Type) where
  /-- `gy_mlkem*_keypair_derand`: encapsulation and decapsulation key of a seed. -/
  keypairDerand : SuiteDesc β → Bytes β → Except GyErr (Bytes β × Bytes β)
  /-- `desc->keypair` from coins. -/
  curveKeypair : SuiteDesc β → Bytes β → Except GyErr (Keypair β)

/-- `gy_qspgs_join_pk_t`. -/
structure JoinPk (β : Type) where
  curvePk : Bytes β
  mlkemEk : Bytes β

/-- `gy_qspgs_join_sk_t`. -/
structure JoinSk (β : Type) where
  curveSk : Bytes β
  mlkemDk : Bytes β

/-- The base point of the suite's curve: `u = 9` or `u = 5`. -/
def joinBase : Except GyErr (Bytes β) :=
  if desc.curveType = 32 then .ok (Octet.ofByte 9 :: zeros 31)
  else if desc.curveType = 56 then .ok (Octet.ofByte 5 :: zeros 55)
  else .error .arg

/-- `gy_qspgs_join_derive`. -/
def gyQspgsJoinDerive [JoinKem β] (gk : Bytes β) : Except GyErr (JoinPk β × JoinSk β) :=
  if gyQspgsMasterKeyLen desc = 0 then .error .arg
  else do
    let base ← joinBase desc
    let ecDomain ← gyInfo desc qspgsDomainMax "qspgs-join-ec"
    let curveSk ← qspgsKdf desc ecDomain gk ecDomain desc.curveSkLen
    let curvePk ← desc.dh curveSk base
    let kemDomain ← gyInfo desc qspgsDomainMax "qspgs-join-mlkem"
    let seed ← qspgsKdf desc kemDomain gk kemDomain 64
    let (ek, dk) ← JoinKem.keypairDerand desc seed
    return (⟨curvePk, ek⟩, ⟨curveSk, dk⟩)

/-- `join_dem_key`. -/
def joinDemKey (kemSs dh : Bytes β) : Except GyErr (Bytes β) := do
  let domain ← gyInfo desc qspgsDomainMax "qspgs-join-kem"
  qspgsKdf desc domain (kemSs ++ dh) domain 32

section

variable [Sodium β]

/-- `gy_qspgs_join_seal` into a buffer of `cap` bytes. -/
def gyQspgsJoinSeal [JoinKem β] (ipk : JoinPk β) (pt : Bytes β) (cap : Nat) : QsC β (Bytes β) :=
  if gyQspgsMasterKeyLen desc = 0 then Cmd.fail .arg
  else if cap < desc.curvePkLen + desc.kemCtLen + 16 + pt.length then Cmd.fail .toolong
  else do
    let ephCoins ← gyRandomBytes 32
    let eph ← Cmd.lift (JoinKem.curveKeypair desc ephCoins)
    let dh ← Cmd.lift (desc.dh eph.sk ipk.curvePk)
    let kemCoins ← gyRandomBytes 32
    let (ct, ss) ← Cmd.lift (desc.kemEncap ipk.mlkemEk kemCoins)
    let key ← Cmd.lift (joinDemKey desc ss dh)
    let sealed ← Cmd.lift (gyAeadEncrypt 1 (cap - (desc.curvePkLen + desc.kemCtLen)) key (zeros 12)
      (eph.pk ++ ct) pt)
    return eph.pk ++ ct ++ sealed

/-- `gy_qspgs_join_open` into a buffer of `cap` bytes. -/
def gyQspgsJoinOpen (isk : JoinSk β) (input : Bytes β) (cap : Nat) : Except GyErr (Bytes β) :=
  if gyQspgsMasterKeyLen desc = 0 then .error .arg
  else
    let off := desc.curvePkLen + desc.kemCtLen
    if input.length < off + 16 then .error .toolong
    else do
      let dh ← desc.dh isk.curveSk (input.take desc.curvePkLen)
      let ss ← desc.kemDecap ((input.drop desc.curvePkLen).take desc.kemCtLen) isk.mlkemDk
      let key ← joinDemKey desc ss dh
      gyAeadDecrypt 1 cap key (zeros 12) (input.take off) (input.drop off)

/-- `QSPGS_INVITE_PT_MAX`. -/
def qspgsInvitePtMax : Nat := 1 + qspgsUidLen + qspgsMasterKeyMax + 2 + 114 + 2 + 4627

/-- An opened acceptance (`struct gy_qspgs_invite`). -/
structure Invite (β : Type) where
  uid : Bytes β
  uk : Bytes β
  edSig : Bytes β
  mldsaSig : Bytes β
  deriving DecidableEq

/-- The plaintext of an acceptance. -/
def invitePt (inv : Invite β) : Bytes β :=
  Octet.ofByte (UInt8.ofNat inv.uid.length) :: (inv.uid ++ inv.uk ++
    be16Put (UInt16.ofNat inv.edSig.length) ++ inv.edSig ++
    be16Put (UInt16.ofNat inv.mldsaSig.length) ++ inv.mldsaSig)

/-- `gy_qspgs_invite_seal_signed` into a buffer of `cap` bytes. -/
def gyQspgsInviteSealSigned [JoinKem β] (ipk : JoinPk β) (inv : Invite β) (cap : Nat) :
    QsC β (Bytes β) :=
  if inv.uid.length ≠ qspgsUidLen then Cmd.fail .arg
  else if inv.edSig.length ≠ desc.sigLen ∨ inv.mldsaSig.length ≠ desc.dsaSigLen then Cmd.fail .arg
  else gyQspgsJoinSeal desc ipk (invitePt inv) cap

/-- `gy_qspgs_invite_open`. -/
def gyQspgsInviteOpen (isk : JoinSk β) (input : Bytes β) : Except GyErr (Invite β) := do
  let mklen := gyQspgsMasterKeyLen desc
  let pt ← gyQspgsJoinOpen desc isk input qspgsInvitePtMax
  if pt.length < 1 then .error .verify
  -- the length byte of the uid admits one value
  else if byteAt pt 0 ≠ qspgsUidLen ∨ pt.length < 1 + qspgsUidLen + mklen + 2 then .error .verify
  else
    let tail := pt.drop (1 + qspgsUidLen + mklen)
    let esl := (be16Get tail).toNat
    -- the lengths of both signatures are those of the suite
    if esl ≠ desc.sigLen ∨ (tail.drop 2).length < esl + 2 then .error .verify
    else
      let last := (tail.drop 2).drop esl
      let msl := (be16Get last).toNat
      if msl ≠ desc.dsaSigLen ∨ (last.drop 2).length ≠ msl then .error .verify
      else .ok ⟨(pt.drop 1).take qspgsUidLen, (pt.drop (1 + qspgsUidLen)).take mklen,
        (tail.drop 2).take esl, last.drop 2⟩

end

/-- `gy_qspgs_invaccept_tbs`. -/
def gyQspgsInvacceptTbs (uid uk gid : Bytes β) : Bytes β :=
  Octet.ofByte (UInt8.ofNat uid.length) :: (uid ++ uk ++ gid)

/-- `gy_qspgs_invite_verify`. -/
def gyQspgsInviteVerify (gid curvePk mldsaPk : Bytes β) (inv : Invite β) : Except GyErr Unit :=
  if inv.uid.length ≠ qspgsUidLen then .error .arg
  else
    gyQspgsPersVerify desc curvePk mldsaPk .invaccept (gyQspgsInvacceptTbs inv.uid inv.uk gid)
      inv.edSig inv.mldsaSig

/-! ## Signing -/

/-- `ctx_sign`: a signing failure is reported as `GY_ERR_CRYPTO`. -/
def ctxSign [KrMlDsa β] (mctx : MemberCtx β) (msg sctx : Bytes β) : QsC β (Bytes β) := do
  let coins ← gyRandomBytes 32
  match KrMlDsa.sign desc mctx.sk msg sctx coins with
  | .ok sig => return sig
  | .error _ => Cmd.fail .crypto

/-- `gy_qspgs_core_sign` with an output buffer of `cap` and a scratch buffer of `scratchCap`
bytes. -/
def gyQspgsCoreSign [KrMlDsa β] (core : QspgsCore β) (signerIndex : UInt32) (mctx : MemberCtx β)
    (cap scratchCap : Nat) : QsC β (Bytes β) := do
  let tbs ← Cmd.lift (gyQspgsCoreTbs desc core signerIndex scratchCap)
  let sig ← ctxSign desc mctx tbs (ascii "qspgs-core")
  Cmd.lift (gyQspgsCoreSigEncode desc ⟨signerIndex, core.lastVmin, sig⟩ cap)

/-- `gy_qspgs_core_resolve_verify` with a scratch buffer of `cap` bytes. -/
def gyQspgsCoreResolveVerify [KrMlDsa β] (core : QspgsCore β) (signerIndex : UInt32)
    (rrs signerVkb signerUid sig : Bytes β) (cap : Nat) : Except GyErr Unit :=
  match core.vkhash[signerIndex.toNat]? with
  | none => .error .arg
  | some h => do
    let rho ← gyQspgsDeriveRho desc rrs signerUid
    let vkr ← KrMlDsa.randVk desc signerVkb rho
    gyQspgsVkpsdnHashCheck desc vkr h
    gyQspgsCoreVerify desc core signerIndex vkr sig cap

/-- `frame_line`: sign one line and frame it as an appendix of one line, in a buffer of `cap`
bytes. -/
def frameLine [KrMlDsa β] (mctx : MemberCtx β) (gid : Bytes β) (vmaj vmin : UInt32)
    (lineType : ApxKind) (authorIndex : UInt32) (payload : Bytes β) (cap : Nat) :
    QsC β (Bytes β) := do
  let tbs ← Cmd.lift
    (gyQspgsApxLineTbs gid vmaj vmin lineType authorIndex payload (payload.length + 64))
  let sig ← ctxSign desc mctx tbs (ascii "qspgs-appendix")
  Cmd.lift (gyQspgsAppendixEncode desc
    ⟨gid, vmaj, vmin, [⟨lineType, authorIndex, payload, sig⟩]⟩ cap)

/-! ## What decodes is well formed, and what is encoded decodes -/

/-- An appendix whose fields have the widths of the wire. -/
structure Appendix.Wf (apx : Appendix β) : Prop where
  gid : apx.gid.length = qspgsGidLen
  lines_le : apx.lines.length ≤ qspgsMaxEntries
  payload : ∀ l ∈ apx.lines, l.payload.length ≤ 0xffff
  sig : ∀ l ∈ apx.lines, l.sig.length = desc.dsaSigLen

omit [Octet β] [DecidableEq β] in
/-- An appendix stays well formed when lines are dropped. -/
theorem Appendix.Wf.filter {apx : Appendix β} (h : apx.Wf desc) (p : ApxLine β → Bool) :
    ({ apx with lines := apx.lines.filter p } : Appendix β).Wf desc where
  gid := h.gid
  lines_le := (List.length_filter_le _ _).trans h.lines_le
  payload l hl := h.payload l (List.mem_of_mem_filter hl)
  sig l hl := h.sig l (List.mem_of_mem_filter hl)

theorem ApxKind.ofByte_byte (k : ApxKind) : ApxKind.ofByte k.byte.toNat = some k := by
  cases k <;> rfl

omit [DecidableEq β] in
/-- The line loop reads back the lines it finds in front of `tail`. -/
theorem apxLines_encode {siglen : Nat} {ls : List (ApxLine β)} (tail : Bytes β)
    (hsiglen : siglen ≤ 0xffff) (hpay : ∀ l ∈ ls, l.payload.length ≤ 0xffff)
    (hsig : ∀ l ∈ ls, l.sig.length = siglen) :
    apxLines siglen ls.length (ls.flatMap ApxLine.encode ++ tail) = .ok (ls, tail) := by
  induction ls with
  | nil => rfl
  | cons l ls ih =>
    have hs := hsig l List.mem_cons_self
    have hpl : (UInt16.ofNat l.payload.length).toNat = l.payload.length := by
      have := hpay l List.mem_cons_self
      rw [UInt16.toNat_ofNat']
      exact Nat.mod_eq_of_lt (by omega)
    have hsl : (UInt16.ofNat l.sig.length).toNat = siglen := by
      rw [UInt16.toNat_ofNat', hs]
      exact Nat.mod_eq_of_lt (by omega)
    have ih := ih (fun x hx => hpay x (List.mem_cons_of_mem _ hx))
      (fun x hx => hsig x (List.mem_cons_of_mem _ hx))
    generalize hr : ls.flatMap ApxLine.encode ++ tail = rest at ih
    -- the front line field by field, as the reader cuts it off
    have hb : (l :: ls).flatMap ApxLine.encode ++ tail =
        [Octet.ofByte l.lineType.byte] ++ (be32Put l.authorIndex ++
          (be16Put (UInt16.ofNat l.payload.length) ++ (l.payload ++
            (be16Put (UInt16.ofNat l.sig.length) ++ (l.sig ++ rest))))) := by
      simp [ApxLine.encode, ← hr]
    rw [hb]
    generalize hfront : [Octet.ofByte l.lineType.byte] ++ (be32Put l.authorIndex ++
      (be16Put (UInt16.ofNat l.payload.length) ++ (l.payload ++
        (be16Put (UInt16.ofNat l.sig.length) ++ (l.sig ++ rest))))) = b
    have hkind : ApxKind.ofByte (byteAt b 0) = some l.lineType := by
      rw [← hfront, ← ApxKind.ofByte_byte l.lineType]
      simp [byteAt]
    have hlen : 7 ≤ b.length := by simp [← hfront]; omega
    have hplen : be16Get (b.drop 5) = UInt16.ofNat l.payload.length :=
      be16Get_drop_field ([Octet.ofByte l.lineType.byte] ++ be32Put l.authorIndex)
        (l.payload ++ (be16Put (UInt16.ofNat l.sig.length) ++ (l.sig ++ rest)))
        (by simp [← hfront]) (by simp)
    have hauth : be32Get (b.drop 1) = l.authorIndex :=
      be32Get_drop_field [Octet.ofByte l.lineType.byte]
        (be16Put (UInt16.ofNat l.payload.length) ++ (l.payload ++
          (be16Put (UInt16.ofNat l.sig.length) ++ (l.sig ++ rest)))) (by simp [← hfront]) (by simp)
    have hdrop : b.drop 7 = l.payload ++ (be16Put (UInt16.ofNat l.sig.length) ++ (l.sig ++ rest)) :=
      drop_field ([Octet.ofByte l.lineType.byte] ++ be32Put l.authorIndex ++
        be16Put (UInt16.ofNat l.payload.length)) (by simp [← hfront]) (by simp)
    have hsdrop : (be16Put (UInt16.ofNat l.sig.length) ++ (l.sig ++ rest)).drop 2 = l.sig ++ rest :=
      List.drop_left' (length_be16Put _)
    rw [List.length_cons, apxLines, if_neg (by omega), hkind]
    dsimp only
    rw [hplen, hdrop, hpl, if_neg (by simp), List.drop_left,
      if_neg (by simp only [List.length_append, length_be16Put]; omega), be16Get_be16Put, hsl,
      hsdrop,
      if_neg (by simp [hs]), List.drop_left' hs, ih, Except.ok_bind, hauth, List.take_left,
      List.take_left' hs]
    rfl

omit [DecidableEq β] in
/-- An appendix decodes to the lines that were encoded. -/
theorem gyQspgsAppendixDecode_appendixBytes {apx : Appendix β} (hwf : apx.Wf desc)
    (hsiglen : desc.dsaSigLen ≤ 0xffff) :
    gyQspgsAppendixDecode desc (appendixBytes desc apx) = .ok apx := by
  have hn : (UInt16.ofNat apx.lines.length).toNat = apx.lines.length := by
    have := hwf.lines_le
    rw [UInt16.toNat_ofNat']
    exact Nat.mod_eq_of_lt (by unfold qspgsMaxEntries at this; omega)
  have hlines := apxLines_encode [] hsiglen hwf.payload hwf.sig
  rw [List.append_nil] at hlines
  unfold appendixBytes gyQspgsAppendixDecode
  simp only [List.append_assoc]
  rw [objCheckHeader_objPutHeader, Except.ok_bind, drop_objPutHeader]
  generalize apx.lines.flatMap ApxLine.encode = body at hlines ⊢
  generalize hb : apx.gid ++ (be32Put apx.vmaj ++ (be32Put apx.vmin ++
    (be16Put (UInt16.ofNat apx.lines.length) ++ body))) = b
  have hlen : b.length = 26 + body.length := by
    simp [← hb, hwf.gid, qspgsGidLen]
    omega
  -- each field is read where the encoder put it
  have hcount : be16Get (b.drop 24) = UInt16.ofNat apx.lines.length :=
    be16Get_drop_field (apx.gid ++ be32Put apx.vmaj ++ be32Put apx.vmin) body (by simp [← hb])
      (by simp [hwf.gid, qspgsGidLen])
  have hbody : b.drop 26 = body :=
    drop_field (apx.gid ++ be32Put apx.vmaj ++ be32Put apx.vmin ++
      be16Put (UInt16.ofNat apx.lines.length)) (by simp [← hb]) (by simp [hwf.gid, qspgsGidLen])
  have hvmaj : be32Get (b.drop 16) = apx.vmaj :=
    be32Get_drop_field apx.gid (be32Put apx.vmin ++
      (be16Put (UInt16.ofNat apx.lines.length) ++ body)) (by simp [← hb]) hwf.gid
  have hvmin : be32Get (b.drop 20) = apx.vmin :=
    be32Get_drop_field (apx.gid ++ be32Put apx.vmaj)
      (be16Put (UInt16.ofNat apx.lines.length) ++ body) (by simp [← hb])
      (by simp [hwf.gid, qspgsGidLen])
  have hgid : b.take qspgsGidLen = apx.gid := by
    rw [← hb]
    exact List.take_left' hwf.gid
  rw [if_neg (by simp only [hlen, qspgsGidLen]; omega), hcount, hn, if_neg (not_lt.2 hwf.lines_le),
    hbody, hlines, Except.ok_bind, if_neg (by simp), hgid, hvmaj, hvmin]

omit [DecidableEq β] in
theorem apxLines_ok {siglen n : Nat} {b tail : Bytes β} {ls : List (ApxLine β)}
    (h : apxLines siglen n b = .ok (ls, tail)) :
    ls.length = n ∧ ∀ l ∈ ls,
      l.payload.length ≤ 0xffff ∧ l.sig.length = siglen ∧ l.payload.length ≤ b.length := by
  induction n generalizing b ls with
  | zero =>
    obtain ⟨rfl, rfl⟩ := Prod.mk.inj (Except.ok.inj h)
    simp
  | succ n ih =>
    unfold apxLines at h
    split at h
    · cases h
    split at h
    · cases h
    dsimp only at h
    split_ifs at h with hpl htail hsl
    obtain ⟨⟨ls', tail'⟩, hrec, h⟩ := Except.bind_eq_ok_iff.mp h
    obtain ⟨rfl, rfl⟩ := Prod.mk.inj (Except.ok.inj h)
    obtain ⟨hlen', hls⟩ := ih hrec
    obtain ⟨hsl₁, hsl₂⟩ := not_or.1 hsl
    -- the front line takes what its own length fields allow; the rest is by induction
    refine ⟨by simp [hlen'], fun l hl => ?_⟩
    rcases List.mem_cons.mp hl with rfl | hl
    · refine ⟨?_, ?_, ?_⟩
      · refine le_trans (List.length_take_le _ _) ?_
        exact Nat.le_of_lt_succ (be16Get _).toNat_lt
      · simp only [List.length_take]
        omega
      · simp only [List.length_take, List.length_drop]
        omega
    · obtain ⟨h₁, h₂, h₃⟩ := hls l hl
      refine ⟨h₁, h₂, h₃.trans ?_⟩
      simp only [List.length_drop]
      omega

omit [DecidableEq β] in
/-- A decoded appendix is well formed, and no payload is longer than the object. -/
theorem gyQspgsAppendixDecode_ok {b : Bytes β} {apx : Appendix β}
    (h : gyQspgsAppendixDecode desc b = .ok apx) :
    apx.Wf desc ∧ ∀ l ∈ apx.lines, l.payload.length ≤ b.length := by
  obtain ⟨_, _, h⟩ := Except.bind_eq_ok_iff.mp h
  dsimp only at h
  split_ifs at h with hlen hmax
  obtain ⟨⟨ls, tail⟩, hls, h⟩ := Except.bind_eq_ok_iff.mp h
  dsimp only at h
  split_ifs at h
  obtain rfl := Except.ok.inj h
  obtain ⟨hn, hwf⟩ := apxLines_ok hls
  refine ⟨⟨?_, by dsimp only; omega, fun l hl => (hwf l hl).1, fun l hl => (hwf l hl).2.1⟩, ?_⟩
  · simp only [List.length_take]
    omega
  · intro l hl
    refine (hwf l hl).2.2.trans ?_
    simp only [List.length_drop]
    omega

/-! ## Queues that are drained fit where they came from -/

omit [DecidableEq β] in
theorem length_inviteQueueBytes (es : List (Bytes β)) :
    (inviteQueueBytes desc es).length = 5 + (es.map fun e => 4 + e.length).sum := by
  simp only [inviteQueueBytes, List.length_append, length_objPutHeader, length_be16Put,
    List.length_flatMap, length_be32Put]

omit [DecidableEq β] in
theorem inviteEntries_ok {n : Nat} {b tail : Bytes β} {es : List (Bytes β)}
    (h : inviteEntries n b = .ok (es, tail)) :
    es.length = n ∧ (∀ e ∈ es, e.length ≠ 0) ∧
      (es.map fun e => 4 + e.length).sum + tail.length = b.length := by
  induction n generalizing b es with
  | zero =>
    obtain ⟨rfl, rfl⟩ := Prod.mk.inj (Except.ok.inj h)
    simp
  | succ n ih =>
    unfold inviteEntries at h
    dsimp only at h
    split_ifs at h with hlen hel
    obtain ⟨⟨es', tail'⟩, hrec, h⟩ := Except.bind_eq_ok_iff.mp h
    obtain ⟨rfl, rfl⟩ := Prod.mk.inj (Except.ok.inj h)
    obtain ⟨hn, hne, hsum⟩ := ih hrec
    obtain ⟨hel₀, hel₁⟩ := not_or.1 hel
    -- an entry is as long as the number in front of it
    have htake : ((b.drop 4).take (be32Get b).toNat).length = (be32Get b).toNat := by
      rw [List.length_take]
      omega
    refine ⟨by simp [hn], fun e he => ?_, ?_⟩
    · rcases List.mem_cons.mp he with rfl | he
      · rw [htake]
        exact hel₀
      · exact hne e he
    · rw [List.map_cons, List.sum_cons, htake]
      rw [List.length_drop] at hel₁
      simp only [List.drop_drop, List.length_drop] at hsum
      dsimp only at hsum ⊢
      omega

omit [DecidableEq β] in
/-- What a decoded queue holds. -/
theorem gyQspgsInviteQueueDecode_ok {b : Bytes β} {es : List (Bytes β)}
    (h : gyQspgsInviteQueueDecode desc b = .ok es) :
    es.length ≤ qspgsMaxEntries ∧ (∀ e ∈ es, e.length ≠ 0) ∧
      (inviteQueueBytes desc es).length = b.length := by
  obtain ⟨_, hhdr, h⟩ := Except.bind_eq_ok_iff.mp h
  -- an object whose header was read has one
  have hlen3 : 3 ≤ b.length := by
    unfold objCheckHeader at hhdr
    split at hhdr
    · cases hhdr
    · next h3 =>
      unfold qspgsObjHdrLen at h3
      omega
  dsimp only at h
  split_ifs at h with hlen hmax
  obtain ⟨⟨es', tail⟩, hes, h⟩ := Except.bind_eq_ok_iff.mp h
  dsimp only at h
  split_ifs at h with htail
  obtain rfl := Except.ok.inj h
  obtain ⟨hn, hne, hsum⟩ := inviteEntries_ok hes
  refine ⟨by omega, hne, ?_⟩
  rw [length_inviteQueueBytes]
  simp only [List.length_drop, qspgsObjHdrLen] at hsum hlen
  omega

omit [DecidableEq β] in
/-- Part of a decoded queue can be encoded in as much room. -/
theorem gyQspgsInviteQueueEncode_of_sublist {b : Bytes β} {es l : List (Bytes β)}
    (h : gyQspgsInviteQueueDecode desc b = .ok es) (hl : l.Sublist es) {cap : Nat}
    (hcap : b.length ≤ cap) :
    gyQspgsInviteQueueEncode desc l cap = .ok (inviteQueueBytes desc l) ∧
      (inviteQueueBytes desc l).length ≤ b.length := by
  obtain ⟨hmax, hne, hlen⟩ := gyQspgsInviteQueueDecode_ok desc h
  have hle : (inviteQueueBytes desc l).length ≤ b.length := by
    rw [← hlen, length_inviteQueueBytes, length_inviteQueueBytes]
    exact Nat.add_le_add_left ((hl.map _).sum_le_sum fun _ _ => Nat.zero_le _) _
  have hcount := hl.length_le
  -- no entry that was read is empty, so none that stays is
  have hempty : ¬ (l.any fun e => decide (e.length = 0)) = true := by
    rw [List.any_eq_true]
    rintro ⟨e, he, h0⟩
    exact hne e (hl.subset he) (of_decide_eq_true h0)
  exact ⟨by rw [gyQspgsInviteQueueEncode, if_neg (by omega), if_neg hempty, if_neg (by omega)], hle⟩

omit [DecidableEq β] in
theorem inviteEntries_lt {n : Nat} {b tail : Bytes β} {es : List (Bytes β)}
    (h : inviteEntries n b = .ok (es, tail)) : ∀ e ∈ es, e.length < 2 ^ 32 := by
  induction n generalizing b es with
  | zero =>
    obtain ⟨rfl, rfl⟩ := Prod.mk.inj (Except.ok.inj h)
    simp
  | succ n ih =>
    unfold inviteEntries at h
    dsimp only at h
    split_ifs at h with hb hel
    obtain ⟨⟨es', tail'⟩, hrec, h⟩ := Except.bind_eq_ok_iff.mp h
    obtain ⟨rfl, rfl⟩ := Prod.mk.inj (Except.ok.inj h)
    intro e he
    rcases List.mem_cons.1 he with rfl | he
    · exact lt_of_le_of_lt (List.length_take_le _ _) (be32Get _).toNat_lt
    · exact ih hrec e he

omit [DecidableEq β] in
/-- The entry loop reads back the entries it finds in front of `tail`. -/
theorem inviteEntries_encode {es : List (Bytes β)} (tail : Bytes β)
    (hne : ∀ e ∈ es, e.length ≠ 0) (hlt : ∀ e ∈ es, e.length < 2 ^ 32) :
    inviteEntries es.length
      (es.flatMap (fun e => be32Put (UInt32.ofNat e.length) ++ e) ++ tail) = .ok (es, tail) := by
  induction es with
  | nil => rfl
  | cons e es ih =>
    have hel : (UInt32.ofNat e.length).toNat = e.length := by
      rw [UInt32.toNat_ofNat']
      exact Nat.mod_eq_of_lt (hlt e List.mem_cons_self)
    have ih := ih (fun x hx => hne x (List.mem_cons_of_mem _ hx))
      (fun x hx => hlt x (List.mem_cons_of_mem _ hx))
    rw [List.flatMap_cons, List.append_assoc, List.append_assoc]
    generalize es.flatMap (fun e => be32Put (UInt32.ofNat e.length) ++ e) ++ tail = rest at *
    have hdrop : (be32Put (UInt32.ofNat e.length) ++ (e ++ rest)).drop 4 = e ++ rest :=
      List.drop_left' (length_be32Put _)
    rw [List.length_cons, inviteEntries, if_neg (by simp)]
    dsimp only
    rw [be32Get_be32Put, hel, hdrop, if_neg (by simp [hne e List.mem_cons_self]), List.drop_left,
      List.take_left, ih, Except.ok_bind]
    rfl

omit [DecidableEq β] in
theorem gyQspgsInviteQueueDecode_lt {es : List (Bytes β)} {b : Bytes β}
    (h : gyQspgsInviteQueueDecode desc b = .ok es) : ∀ e ∈ es, e.length < 2 ^ 32 := by
  obtain ⟨⟨⟩, hhdr, h⟩ := Except.bind_eq_ok_iff.mp h
  dsimp only at h
  split_ifs at h with hlen hmax
  obtain ⟨⟨es', tail⟩, hes, h⟩ := Except.bind_eq_ok_iff.mp h
  dsimp only at h
  split_ifs at h with htail
  obtain rfl := Except.ok.inj h
  exact inviteEntries_lt hes

omit [DecidableEq β] in
/-- A queue decodes to the entries that were encoded. -/
theorem gyQspgsInviteQueueDecode_inviteQueueBytes {es : List (Bytes β)}
    (hmax : es.length ≤ qspgsMaxEntries) (hne : ∀ e ∈ es, e.length ≠ 0)
    (hlt : ∀ e ∈ es, e.length < 2 ^ 32) :
    gyQspgsInviteQueueDecode desc (inviteQueueBytes desc es) = .ok es := by
  have hn : (UInt16.ofNat es.length).toNat = es.length := by
    rw [UInt16.toNat_ofNat']
    exact Nat.mod_eq_of_lt (by unfold qspgsMaxEntries at hmax; omega)
  have hentries := inviteEntries_encode [] hne hlt
  rw [List.append_nil] at hentries
  unfold inviteQueueBytes gyQspgsInviteQueueDecode
  rw [List.append_assoc, objCheckHeader_objPutHeader, Except.ok_bind, drop_objPutHeader]
  generalize es.flatMap (fun e => be32Put (UInt32.ofNat e.length) ++ e) = body at *
  have hdrop : (be16Put (UInt16.ofNat es.length) ++ body).drop 2 = body :=
    List.drop_left' (length_be16Put _)
  rw [if_neg (by rw [List.length_append, length_be16Put]; omega)]
  dsimp only
  rw [be16Get_be16Put, hn, hdrop, if_neg (Nat.not_lt.2 hmax), hentries, Except.ok_bind]
  rfl

/-! ## Bounded arrays -/

omit [DecidableEq β] in
/-- A bounded array takes what decodes and fits. -/
theorem gyQspgsAppendixDecodeInto_ok_iff {outCap : Nat} {b : Bytes β} {apx : Appendix β} :
    gyQspgsAppendixDecodeInto desc outCap b = .ok apx ↔
      gyQspgsAppendixDecode desc b = .ok apx ∧ apx.lines.length ≤ outCap := by
  unfold gyQspgsAppendixDecodeInto gyQspgsAppendixDecode
  cases objCheckHeader desc .appendix b with
  | error e => simp [bind, Except.bind]
  | ok u =>
    simp only [Except.ok_bind]
    generalize b.drop qspgsObjHdrLen = body
    -- the room is asked for after the count and before the first line
    split_ifs with hlen hmax hcap
    · simp
    · simp
    · constructor
      · intro h
        cases h
      · rintro ⟨h, hle⟩
        obtain ⟨⟨ls, tail⟩, hls, h⟩ := Except.bind_eq_ok_iff.mp h
        dsimp only at h
        split_ifs at h
        obtain rfl := Except.ok.inj h
        exact absurd hle (Nat.not_le.2 (by rw [(apxLines_ok hls).1]; exact hcap))
    · rw [iff_self_and]
      intro h
      obtain ⟨⟨ls, tail⟩, hls, h⟩ := Except.bind_eq_ok_iff.mp h
      dsimp only at h
      split_ifs at h
      obtain rfl := Except.ok.inj h
      rw [(apxLines_ok hls).1]
      exact Nat.not_lt.1 hcap

omit [DecidableEq β] in
theorem gyQspgsInviteQueueDecodeInto_ok_iff {outCap : Nat} {b : Bytes β} {es : List (Bytes β)} :
    gyQspgsInviteQueueDecodeInto desc outCap b = .ok es ↔
      gyQspgsInviteQueueDecode desc b = .ok es ∧ es.length ≤ outCap := by
  unfold gyQspgsInviteQueueDecodeInto gyQspgsInviteQueueDecode
  cases objCheckHeader desc .inviteQueue b with
  | error e => simp [bind, Except.bind]
  | ok u =>
    simp only [Except.ok_bind]
    generalize b.drop qspgsObjHdrLen = body
    -- the room is asked for after the count and before the first entry
    split_ifs with hlen hmax hcap
    · simp
    · simp
    · constructor
      · intro h
        cases h
      · rintro ⟨h, hle⟩
        obtain ⟨⟨es', tail⟩, hes, h⟩ := Except.bind_eq_ok_iff.mp h
        dsimp only at h
        split_ifs at h
        obtain rfl := Except.ok.inj h
        exact absurd hle (Nat.not_le.2 (by rw [(inviteEntries_ok hes).1]; exact hcap))
    · rw [iff_self_and]
      intro h
      obtain ⟨⟨es', tail⟩, hes, h⟩ := Except.bind_eq_ok_iff.mp h
      dsimp only at h
      split_ifs at h
      obtain rfl := Except.ok.inj h
      rw [(inviteEntries_ok hes).1]
      exact Nat.not_lt.1 hcap

end Geryon
