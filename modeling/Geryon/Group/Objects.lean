import Geryon.Group.Client
import Geryon.Group.Encoded
import Geryon.Proto.Canonical

/-!
# Group objects on the wire

The codecs of `group_wire.c` over encodings of points and scalars. Every object but the list of
members has a fixed layout: a header of three bytes and the fields in a row. The key-distribution
envelope has its codec next to the facade.

## Main definitions

- `gyGroupObjPutHeader`, `gyGroupObjCheckHeader`: the header of an object.
- `gyGroup…Encode`, `gyGroup…Decode`: the writer and the reader of each object.
-/

namespace Geryon

/-- The object types of the wire registry. -/
inductive GroupObjType where
  | serverPublic | authResponse | authPresentation | pkPresentation | pkCommitment | pkRequest
  | pkResponse | pkVersion | memberList | groupPublic
  deriving DecidableEq

/-- `GY_GOBJ_*`. -/
def GroupObjType.code (t : GroupObjType) : UInt8 := UInt8.ofNat (t.ctorIdx + 1)

/-- `GY_GROUP_WIRE_VERSION`. -/
def groupWireVersion : UInt8 := 1

/-- The `proof_V` and `proof_r` of an object. -/
structure GroupProof where
  v : List (Bytes UInt8)
  r : List (Bytes UInt8)

/-- The copies of a loop over `n` fields of `len` bytes into a buffer. -/
def putEach (n len : Nat) (l : List (Bytes UInt8)) : Bytes UInt8 := (l.take n).flatMap (·.take len)

/-- The copies of a loop over `n` fields of `len` bytes out of a buffer. -/
def getEach (n len : Nat) (p : Bytes UInt8) : List (Bytes UInt8) := (Codec.raw len).getMany n p

/-! ## Dimensions of the proofs -/

/-- `GY_GROUP_PI_I_M`. -/
def groupPiIM : Nat := 3
/-- `GY_GROUP_PI_I_K`. -/
def groupPiIK : Nat := 7
/-- `GY_GROUP_PI_A_M`. -/
def groupPiAM : Nat := 6
/-- `GY_GROUP_PI_A_K`. -/
def groupPiAK : Nat := 6
/-- `GY_GROUP_PI_P_M`. -/
def groupPiPM : Nat := 8
/-- `GY_GROUP_PI_P_K`. -/
def groupPiPK : Nat := 9
/-- `GY_GROUP_PI_BR_M`. -/
def groupPiBrM : Nat := 6
/-- `GY_GROUP_PI_BR_K`. -/
def groupPiBrK : Nat := 4
/-- `GY_GROUP_PI_BI_M`. -/
def groupPiBiM : Nat := 4
/-- `GY_GROUP_PI_BI_K`. -/
def groupPiBiK : Nat := 9

variable {S P π : Type} (tier : GroupTier S P UInt8 π)

/-! ## Headers -/

/-- `gy_group_obj_put_header` into a buffer of `cap` bytes. -/
def gyGroupObjPutHeader (t : GroupObjType) (cap : Nat) : Except GyErr (Bytes UInt8) :=
  if cap < groupObjHdrLen then .error .toolong
  else .ok [t.code, groupWireVersion, tier.desc.suiteId]

/-- `gy_group_obj_check_header`. -/
def gyGroupObjCheckHeader (t : GroupObjType) (b : Bytes UInt8) : Except GyErr Unit :=
  if b.length < groupObjHdrLen then .error .verify
  else if octetAt b 0 ≠ t.code ∨ octetAt b 1 ≠ groupWireVersion ∨
      octetAt b 2 ≠ tier.desc.suiteId then .error .verify
  else .ok ()

/-! ## Parameters -/

/-- `gy_group_server_public_encode`. -/
def gyGroupServerPublicEncode (cap : Nat) (pp : GroupServerPublic (Bytes UInt8)) :
    Except GyErr (Bytes UInt8) :=
  let plen := tier.pointLen
  if cap < groupObjHdrLen + 2 * plen then .error .toolong
  else do
    let hdr ← gyGroupObjPutHeader tier .serverPublic cap
    return hdr ++ (pp.cW.take plen ++ pp.i.take plen)

/-- `gy_group_server_public_decode`. -/
def gyGroupServerPublicDecode (b : Bytes UInt8) : Except GyErr (GroupServerPublic (Bytes UInt8)) :=
  let plen := tier.pointLen
  if b.length ≠ groupObjHdrLen + 2 * plen then .error .verify
  else do
    gyGroupObjCheckHeader tier .serverPublic b
    let p := b.drop groupObjHdrLen
    return ⟨p.take plen, (p.drop plen).take plen⟩

/-- `gy_group_public_params_encode`. -/
def gyGroupPublicParamsEncode (cap : Nat) (pp : GroupPublicParams (Bytes UInt8)) :
    Except GyErr (Bytes UInt8) :=
  let plen := tier.pointLen
  if cap < groupObjHdrLen + 2 * plen then .error .toolong
  else do
    let hdr ← gyGroupObjPutHeader tier .groupPublic cap
    return hdr ++ (pp.a.take plen ++ pp.b.take plen)

/-- `gy_group_public_params_decode`. -/
def gyGroupPublicParamsDecode (b : Bytes UInt8) : Except GyErr (GroupPublicParams (Bytes UInt8)) :=
  let plen := tier.pointLen
  if b.length ≠ groupObjHdrLen + 2 * plen then .error .verify
  else do
    gyGroupObjCheckHeader tier .groupPublic b
    let p := b.drop groupObjHdrLen
    return ⟨p.take plen, (p.drop plen).take plen⟩

/-! ## Auth credentials -/

/-- `gy_group_auth_response_encode`. -/
def gyGroupAuthResponseEncode (cap : Nat)
    (resp : GroupAuthResponse (Bytes UInt8) (Bytes UInt8) GroupProof) :
    Except GyErr (Bytes UInt8) :=
  let plen := tier.pointLen
  let slen := tier.scalarLen
  if cap < groupObjHdrLen + slen + 2 * plen + groupPiIM * plen + groupPiIK * slen then
    .error .toolong
  else do
    let hdr ← gyGroupObjPutHeader tier .authResponse cap
    return hdr ++ (resp.mac.t.take slen ++ (resp.mac.u.take plen ++ (resp.mac.v.take plen ++
      (putEach groupPiIM plen resp.proof.v ++ putEach groupPiIK slen resp.proof.r))))

/-- `gy_group_auth_response_decode`. -/
def gyGroupAuthResponseDecode (b : Bytes UInt8) :
    Except GyErr (GroupAuthResponse (Bytes UInt8) (Bytes UInt8) GroupProof) :=
  let plen := tier.pointLen
  let slen := tier.scalarLen
  if b.length ≠ groupObjHdrLen + slen + 2 * plen + groupPiIM * plen + groupPiIK * slen then
    .error .verify
  else do
    gyGroupObjCheckHeader tier .authResponse b
    -- the fields one after another; none of them is tested to encode an element
    let p := b.drop groupObjHdrLen
    let t := p.take slen
    let p := p.drop slen
    let u := p.take plen
    let p := p.drop plen
    let v := p.take plen
    let p := p.drop plen
    let proofV := getEach groupPiIM plen p
    let p := p.drop (groupPiIM * plen)
    return ⟨⟨t, u, v⟩, ⟨proofV, getEach groupPiIK slen p⟩⟩

/-- `gy_group_auth_pres_encode`. -/
def gyGroupAuthPresEncode (cap : Nat) (pres : GroupAuthPresentation (Bytes UInt8) GroupProof) :
    Except GyErr (Bytes UInt8) :=
  let plen := tier.pointLen
  let slen := tier.scalarLen
  if cap < groupObjHdrLen + 8 * plen + 8 + groupPiAM * plen + groupPiAK * slen then .error .toolong
  else do
    let hdr ← gyGroupObjPutHeader tier .authPresentation cap
    let pts := [pres.cX0, pres.cX1, pres.cY1, pres.cY2, pres.cY3, pres.cV, pres.eA1, pres.eA2]
    return hdr ++ (putEach 8 plen pts ++ (be64Put pres.date ++
      (putEach groupPiAM plen pres.proof.v ++ putEach groupPiAK slen pres.proof.r)))

/-- `gy_group_auth_pres_decode`. -/
def gyGroupAuthPresDecode (b : Bytes UInt8) :
    Except GyErr (GroupAuthPresentation (Bytes UInt8) GroupProof) :=
  let plen := tier.pointLen
  let slen := tier.scalarLen
  if b.length ≠ groupObjHdrLen + 8 * plen + 8 + groupPiAM * plen + groupPiAK * slen then
    .error .verify
  else do
    gyGroupObjCheckHeader tier .authPresentation b
    let p := b.drop groupObjHdrLen
    let pts := getEach 8 plen p
    let p := p.drop (8 * plen)
    let date := be64Get p
    let p := p.drop 8
    let proofV := getEach groupPiAM plen p
    let p := p.drop (groupPiAM * plen)
    return {
      cX0 := pts.getD 0 []
      cX1 := pts.getD 1 []
      cY1 := pts.getD 2 []
      cY2 := pts.getD 3 []
      cY3 := pts.getD 4 []
      cV := pts.getD 5 []
      eA1 := pts.getD 6 []
      eA2 := pts.getD 7 []
      date := date
      proof := ⟨proofV, getEach groupPiAK slen p⟩ }

/-! ## Profile-key credentials -/

/-- `gy_group_pk_pres_encode`. -/
def gyGroupPkPresEncode (cap : Nat) (pres : GroupPkPresentation (Bytes UInt8) GroupProof) :
    Except GyErr (Bytes UInt8) :=
  let plen := tier.pointLen
  let slen := tier.scalarLen
  if cap < groupObjHdrLen + 11 * plen + groupPiPM * plen + groupPiPK * slen then .error .toolong
  else do
    let hdr ← gyGroupObjPutHeader tier .pkPresentation cap
    let pts := [pres.cY1, pres.cY2, pres.cY3, pres.cY4, pres.cX0, pres.cX1, pres.cV, pres.eA1,
      pres.eA2, pres.eB1, pres.eB2]
    return hdr ++ (putEach 11 plen pts ++
      (putEach groupPiPM plen pres.proof.v ++ putEach groupPiPK slen pres.proof.r))

/-- `gy_group_pk_pres_decode`. -/
def gyGroupPkPresDecode (b : Bytes UInt8) :
    Except GyErr (GroupPkPresentation (Bytes UInt8) GroupProof) :=
  let plen := tier.pointLen
  let slen := tier.scalarLen
  if b.length ≠ groupObjHdrLen + 11 * plen + groupPiPM * plen + groupPiPK * slen then
    .error .verify
  else do
    gyGroupObjCheckHeader tier .pkPresentation b
    let p := b.drop groupObjHdrLen
    let pts := getEach 11 plen p
    let p := p.drop (11 * plen)
    let proofV := getEach groupPiPM plen p
    let p := p.drop (groupPiPM * plen)
    return {
      cY1 := pts.getD 0 []
      cY2 := pts.getD 1 []
      cY3 := pts.getD 2 []
      cY4 := pts.getD 3 []
      cX0 := pts.getD 4 []
      cX1 := pts.getD 5 []
      cV := pts.getD 6 []
      eA1 := pts.getD 7 []
      eA2 := pts.getD 8 []
      eB1 := pts.getD 9 []
      eB2 := pts.getD 10 []
      proof := ⟨proofV, getEach groupPiPK slen p⟩ }

/-- `gy_group_pk_commit_encode`. -/
def gyGroupPkCommitEncode (cap : Nat) (commit : GroupPkCommitment (Bytes UInt8)) :
    Except GyErr (Bytes UInt8) :=
  let plen := tier.pointLen
  if cap < groupObjHdrLen + 3 * plen then .error .toolong
  else do
    let hdr ← gyGroupObjPutHeader tier .pkCommitment cap
    return hdr ++ (commit.j1.take plen ++ (commit.j2.take plen ++ commit.j3.take plen))

/-- `gy_group_pk_commit_decode`. -/
def gyGroupPkCommitDecode (b : Bytes UInt8) : Except GyErr (GroupPkCommitment (Bytes UInt8)) :=
  let plen := tier.pointLen
  if b.length ≠ groupObjHdrLen + 3 * plen then .error .verify
  else do
    gyGroupObjCheckHeader tier .pkCommitment b
    let p := b.drop groupObjHdrLen
    let j1 := p.take plen
    let p := p.drop plen
    let j2 := p.take plen
    let p := p.drop plen
    return ⟨j1, j2, p.take plen⟩

/-- `gy_group_pk_request_encode`. -/
def gyGroupPkRequestEncode (cap : Nat) (req : GroupPkRequest (Bytes UInt8) GroupProof) :
    Except GyErr (Bytes UInt8) :=
  let plen := tier.pointLen
  let slen := tier.scalarLen
  if cap < groupObjHdrLen + 5 * plen + groupPiBrM * plen + groupPiBrK * slen then .error .toolong
  else do
    let hdr ← gyGroupObjPutHeader tier .pkRequest cap
    let pts := [req.y, req.d1, req.d2, req.e1, req.e2]
    return hdr ++ (putEach 5 plen pts ++
      (putEach groupPiBrM plen req.proof.v ++ putEach groupPiBrK slen req.proof.r))

/-- `gy_group_pk_request_decode`. -/
def gyGroupPkRequestDecode (b : Bytes UInt8) :
    Except GyErr (GroupPkRequest (Bytes UInt8) GroupProof) :=
  let plen := tier.pointLen
  let slen := tier.scalarLen
  if b.length ≠ groupObjHdrLen + 5 * plen + groupPiBrM * plen + groupPiBrK * slen then
    .error .verify
  else do
    gyGroupObjCheckHeader tier .pkRequest b
    let p := b.drop groupObjHdrLen
    let pts := getEach 5 plen p
    let p := p.drop (5 * plen)
    let proofV := getEach groupPiBrM plen p
    let p := p.drop (groupPiBrM * plen)
    return {
      y := pts.getD 0 []
      d1 := pts.getD 1 []
      d2 := pts.getD 2 []
      e1 := pts.getD 3 []
      e2 := pts.getD 4 []
      proof := ⟨proofV, getEach groupPiBrK slen p⟩ }

/-- `gy_group_pk_response_encode`. -/
def gyGroupPkResponseEncode (cap : Nat)
    (resp : GroupPkBlindResponse (Bytes UInt8) (Bytes UInt8) GroupProof) :
    Except GyErr (Bytes UInt8) :=
  let plen := tier.pointLen
  let slen := tier.scalarLen
  if cap < groupObjHdrLen + 3 * plen + slen + groupPiBiM * plen + groupPiBiK * slen then
    .error .toolong
  else do
    let hdr ← gyGroupObjPutHeader tier .pkResponse cap
    return hdr ++ (resp.s1.take plen ++ (resp.s2.take plen ++ (resp.t.take slen ++
      (resp.u.take plen ++ (putEach groupPiBiM plen resp.proof.v ++
        putEach groupPiBiK slen resp.proof.r)))))

/-- `gy_group_pk_response_decode`. -/
def gyGroupPkResponseDecode (b : Bytes UInt8) :
    Except GyErr (GroupPkBlindResponse (Bytes UInt8) (Bytes UInt8) GroupProof) :=
  let plen := tier.pointLen
  let slen := tier.scalarLen
  if b.length ≠ groupObjHdrLen + 3 * plen + slen + groupPiBiM * plen + groupPiBiK * slen then
    .error .verify
  else do
    gyGroupObjCheckHeader tier .pkResponse b
    let p := b.drop groupObjHdrLen
    let s1 := p.take plen
    let p := p.drop plen
    let s2 := p.take plen
    let p := p.drop plen
    let t := p.take slen
    let p := p.drop slen
    let u := p.take plen
    let p := p.drop plen
    let proofV := getEach groupPiBiM plen p
    let p := p.drop (groupPiBiM * plen)
    return ⟨s1, s2, t, u, ⟨proofV, getEach groupPiBiK slen p⟩⟩

/-! ## The list of members -/

/-- `GY_GROUP_ROLE_MAX`. -/
def groupRoleMax : UInt8 := 1

/-- The size of one entry of the list. -/
def GroupTier.entryLen : Nat := 2 + 4 * tier.pointLen

/-- One entry of `gy_group_member_list_encode`. -/
def putMemberEntry (e : GroupMemberCt (Bytes UInt8)) : Bytes UInt8 :=
  let plen := tier.pointLen
  (if e.pkCt.isSome then 1 else 0) :: e.role :: (e.uidCt.eA1.take plen ++ (e.uidCt.eA2.take plen ++
    match e.pkCt with
    | some ct => ct.eB1.take plen ++ ct.eB2.take plen
    | none => zeros (2 * plen)))

/-- `gy_group_member_list_encode` into a buffer of `cap` bytes. -/
def gyGroupMemberListEncode (cap : Nat) (entries : List (GroupMemberCt (Bytes UInt8))) :
    Except GyErr (Bytes UInt8) :=
  let n := entries.length
  if groupMaxEntries < n then .error .arg
  else if cap < groupObjHdrLen + 2 + n * tier.entryLen then .error .toolong
  else if entries.any (groupRoleMax < ·.role) then .error .arg
  else do
    let hdr ← gyGroupObjPutHeader tier .memberList cap
    return hdr ++ (be16Put (UInt16.ofNat n) ++ entries.flatMap (putMemberEntry tier))

/-- One entry of `gy_group_member_list_decode`. -/
def getMemberEntry (p : Bytes UInt8) : Except GyErr (GroupMemberCt (Bytes UInt8)) :=
  let plen := tier.pointLen
  let hpk := octetAt p 0
  let role := octetAt p 1
  if 1 < hpk ∨ groupRoleMax < role then .error .verify
  else
    let p := p.drop 2
    let eA1 := p.take plen
    let p := p.drop plen
    let eA2 := p.take plen
    let p := p.drop plen
    if hpk ≠ 0 then .ok ⟨⟨eA1, eA2⟩, some ⟨p.take plen, (p.drop plen).take plen⟩, role⟩
    -- an entry without a profile key carries zeros in its place
    else if !gyIsZero (p.take (2 * plen)) then .error .verify
    else .ok ⟨⟨eA1, eA2⟩, none, role⟩

/-- The loop of `gy_group_member_list_decode`. -/
def getMemberEntries : Nat → Bytes UInt8 → Except GyErr (List (GroupMemberCt (Bytes UInt8)))
  | 0, _ => .ok []
  | n + 1, p => do
    let e ← getMemberEntry tier p
    let es ← getMemberEntries n (p.drop tier.entryLen)
    return e :: es

/-- `gy_group_member_list_decode` into room for `outCap` entries. -/
def gyGroupMemberListDecode (outCap : Nat) (b : Bytes UInt8) :
    Except GyErr (List (GroupMemberCt (Bytes UInt8))) :=
  if b.length < groupObjHdrLen + 2 then .error .verify
  else do
    gyGroupObjCheckHeader tier .memberList b
    let n := (be16Get (b.drop groupObjHdrLen)).toNat
    if groupMaxEntries < n then .error .verify
    else if outCap < n then .error .toolong
    else if b.length ≠ groupObjHdrLen + 2 + n * tier.entryLen then .error .verify
    else getMemberEntries tier n (b.drop (groupObjHdrLen + 2))

/-! ## Objects of a fixed layout -/

/-- The header of an object. -/
def GroupTier.objHdr (t : GroupObjType) : Bytes UInt8 :=
  [t.code, groupWireVersion, tier.desc.suiteId]

/-- The header is accepted exactly where it was written. -/
theorem gyGroupObjCheckHeader_ok_iff {t : GroupObjType} {b : Bytes UInt8} :
    gyGroupObjCheckHeader tier t b = .ok () ↔ b.take groupObjHdrLen = tier.objHdr t := by
  unfold gyGroupObjCheckHeader
  by_cases hlen : b.length < groupObjHdrLen
  · rw [if_pos hlen]
    constructor
    · intro h
      cases h
    · intro h
      have hlen' := congrArg List.length h
      rw [List.length_take, min_eq_right (Nat.le_of_lt hlen)] at hlen'
      exact absurd hlen' (Nat.ne_of_lt hlen)
  · rw [if_neg hlen]
    obtain ⟨x0, b, rfl, h₁⟩ := exists_cons_of_le_length (n := 2) (not_lt.1 hlen)
    obtain ⟨x1, b, rfl, h₂⟩ := exists_cons_of_le_length (n := 1) h₁
    obtain ⟨x2, b, rfl, -⟩ := exists_cons_of_le_length (n := 0) h₂
    simp only [octetAt_cons_zero, octetAt_cons_succ, groupObjHdrLen, GroupTier.objHdr,
      List.take_succ_cons, List.take_zero, List.cons.injEq, and_true]
    by_cases h : x0 = t.code ∧ x1 = groupWireVersion ∧ x2 = tier.desc.suiteId
    · obtain ⟨rfl, rfl, rfl⟩ := h
      simp
    · rw [if_pos (by tauto)]
      simp [h]

/-- An object of fixed layout: the header and the fields of a codec. -/
def parseObj {α : Type} (t : GroupObjType) (c : Codec UInt8 α) (b : Bytes UInt8) : Except GyErr α :=
  if b.length ≠ groupObjHdrLen + c.width then .error .verify
  else gyGroupObjCheckHeader tier t b >>= fun _ => .ok (c.get (b.drop groupObjHdrLen))

/-- An object is read exactly from its header followed by the fields of its codec. -/
theorem parseObj_ok_iff {α : Type} {t : GroupObjType} (c : Codec UInt8 α) {b : Bytes UInt8}
    {v : α} :
    parseObj tier t c b = .ok v ↔ c.Fits v ∧ b = tier.objHdr t ++ c.put v := by
  unfold parseObj
  by_cases hlen : b.length = groupObjHdrLen + c.width
  · have hdrop : (b.drop groupObjHdrLen).length = c.width := by
      rw [List.length_drop]
      omega
    rw [if_neg (not_not_intro hlen), Except.bind_eq_ok_iff]
    constructor
    · rintro ⟨⟨⟩, hhdr, hget⟩
      obtain ⟨hfits, hput⟩ := (c.get_eq_iff hdrop).1 (Except.ok.inj hget)
      refine ⟨hfits, ?_⟩
      rw [← hput, ← (gyGroupObjCheckHeader_ok_iff tier).1 hhdr, List.take_append_drop]
    · rintro ⟨hfits, rfl⟩
      refine ⟨(), (gyGroupObjCheckHeader_ok_iff tier).2 (List.take_left' rfl), ?_⟩
      rw [(c.get_eq_iff hdrop).2 ⟨hfits, List.drop_left' rfl⟩]
  · rw [if_pos hlen]
    constructor
    · intro h
      cases h
    · rintro ⟨hfits, rfl⟩
      rw [List.length_append, c.length_put hfits] at hlen
      exact absurd rfl hlen

/-- A reader of an object of fixed layout is strict for the writer of its fields. -/
theorem obj_strict {α : Type} (t : GroupObjType) (c : Codec UInt8 α)
    {put : Nat → α → Except GyErr (Bytes UInt8)} {parse : Bytes UInt8 → Except GyErr α}
    (hparse : ∀ b, parse b = parseObj tier t c b)
    (hput : ∀ cap v, c.Fits v → put cap v =
      if cap < groupObjHdrLen + c.width then .error .toolong else .ok (tier.objHdr t ++ c.put v)) :
    Strict c.Fits put parse where
  round_trip {v cap b} hv h := by
    rw [hput cap v hv] at h
    split at h
    · cases h
    · rw [hparse]
      exact (parseObj_ok_iff tier c).2 ⟨hv, (Except.ok.inj h).symm⟩
  exact {b v} h := by
    rw [hparse] at h
    obtain ⟨hv, rfl⟩ := (parseObj_ok_iff tier c).1 h
    refine ⟨hv, fun cap hcap => ?_⟩
    rw [List.length_append, c.length_put hv] at hcap
    rw [hput cap v hv]
    exact if_neg (Nat.not_lt.2 hcap)

/-- The header fits where the object does. -/
theorem putObj_eq {t : GroupObjType} {cap n : Nat} (hn : groupObjHdrLen ≤ n) (body : Bytes UInt8) :
    (if cap < n then .error .toolong
      else do
        let hdr ← gyGroupObjPutHeader tier t cap
        return hdr ++ body : Except GyErr (Bytes UInt8)) =
      if cap < n then .error .toolong else .ok (tier.objHdr t ++ body) := by
  by_cases hcap : cap < n
  · rw [if_pos hcap, if_pos hcap]
  · rw [if_neg hcap, if_neg hcap, gyGroupObjPutHeader, if_neg (by omega)]
    rfl

/-! ## Layouts -/

/-- A field of the right width is not cut. -/
theorem take_of_fits {len : Nat} {a : Bytes UInt8} (h : (Codec.raw len).Fits a) :
    a.take len = a := by
  have hlen : a.length = len := h
  rw [← hlen, List.take_length]

/-- Writing fields one by one is writing them as a block. -/
theorem putEach_eq {n len : Nat} {l : List (Bytes UInt8)} (h : ((Codec.raw len).many n).Fits l) :
    putEach n len l = ((Codec.raw len).many n).put l := by
  obtain ⟨rfl, hl⟩ := h
  rw [putEach, List.take_length]
  exact List.flatMap_congr fun a ha => take_of_fits (hl a ha)

/-- A list is what its positions hold. -/
theorem map_getD_range {n : Nat} {l : List (Bytes UInt8)} (h : l.length = n) :
    (List.range n).map (l.getD · []) = l := by
  apply List.ext_getElem
  · rw [List.length_map, List.length_range, h]
  · intro i _ hi
    simp [hi]

/-- The proof of `m` equations in `k` scalars. -/
def proofCodec (m k : Nat) : Codec UInt8 GroupProof :=
  (((Codec.raw tier.pointLen).many m).pair ((Codec.raw tier.scalarLen).many k)).ofEquiv
    ⟨fun a => ⟨a.1, a.2⟩, fun p => (p.v, p.r), fun _ => rfl, fun _ => rfl⟩

/-- The two loops over a proof write its codec. -/
theorem putEach_proof {m k : Nat} {p : GroupProof} (h : (proofCodec tier m k).Fits p) :
    putEach m tier.pointLen p.v ++ putEach k tier.scalarLen p.r = (proofCodec tier m k).put p := by
  have hv : ((Codec.raw tier.pointLen).many m).Fits p.v := h.1
  have hr : ((Codec.raw tier.scalarLen).many k).Fits p.r := h.2
  rw [putEach_eq hv, putEach_eq hr]
  rfl

/-- The fields of server public parameters. -/
def serverPublicCodec : Codec UInt8 (GroupServerPublic (Bytes UInt8)) :=
  ((Codec.raw tier.pointLen).pair (.raw tier.pointLen)).ofEquiv
    ⟨fun a => ⟨a.1, a.2⟩, fun pp => (pp.cW, pp.i), fun _ => rfl, fun _ => rfl⟩

/-- The fields of group public parameters. -/
def publicParamsCodec : Codec UInt8 (GroupPublicParams (Bytes UInt8)) :=
  ((Codec.raw tier.pointLen).pair (.raw tier.pointLen)).ofEquiv
    ⟨fun a => ⟨a.1, a.2⟩, fun pp => (pp.a, pp.b), fun _ => rfl, fun _ => rfl⟩

/-- The fields of an auth response. -/
def authResponseCodec : Codec UInt8 (GroupAuthResponse (Bytes UInt8) (Bytes UInt8) GroupProof) :=
  ((Codec.raw tier.scalarLen).pair ((Codec.raw tier.pointLen).pair ((Codec.raw tier.pointLen).pair
    (proofCodec tier groupPiIM groupPiIK)))).ofEquiv
    ⟨fun a => ⟨⟨a.1, a.2.1, a.2.2.1⟩, a.2.2.2⟩,
      fun resp => (resp.mac.t, resp.mac.u, resp.mac.v, resp.proof), fun _ => rfl, fun _ => rfl⟩

/-- The points of an auth presentation, in wire order. -/
def GroupAuthPresentation.points {ρ : Type} (p : GroupAuthPresentation (Bytes UInt8) ρ) :
    List (Bytes UInt8) :=
  [p.cX0, p.cX1, p.cY1, p.cY2, p.cY3, p.cV, p.eA1, p.eA2]

/-- The fields of an auth presentation. -/
def authPresCodec : Codec UInt8 (GroupAuthPresentation (Bytes UInt8) GroupProof) :=
  (((Codec.raw tier.pointLen).many 8).pair (be64Codec.pair
    (proofCodec tier groupPiAM groupPiAK))).ofInv
    (fun a => ⟨a.1.getD 0 [], a.1.getD 1 [], a.1.getD 2 [], a.1.getD 3 [], a.1.getD 4 [],
      a.1.getD 5 [], a.1.getD 6 [], a.1.getD 7 [], a.2.1, a.2.2⟩)
    (fun p => (p.points, p.date, p.proof))
    (fun _ h => Prod.ext (map_getD_range h.1.1) rfl) (fun _ _ => rfl)

/-- The points of a profile-key presentation, in wire order. -/
def GroupPkPresentation.points {ρ : Type} (p : GroupPkPresentation (Bytes UInt8) ρ) :
    List (Bytes UInt8) :=
  [p.cY1, p.cY2, p.cY3, p.cY4, p.cX0, p.cX1, p.cV, p.eA1, p.eA2, p.eB1, p.eB2]

/-- The fields of a profile-key presentation. -/
def pkPresCodec : Codec UInt8 (GroupPkPresentation (Bytes UInt8) GroupProof) :=
  (((Codec.raw tier.pointLen).many 11).pair (proofCodec tier groupPiPM groupPiPK)).ofInv
    (fun a => {
      cY1 := a.1.getD 0 []
      cY2 := a.1.getD 1 []
      cY3 := a.1.getD 2 []
      cY4 := a.1.getD 3 []
      cX0 := a.1.getD 4 []
      cX1 := a.1.getD 5 []
      cV := a.1.getD 6 []
      eA1 := a.1.getD 7 []
      eA2 := a.1.getD 8 []
      eB1 := a.1.getD 9 []
      eB2 := a.1.getD 10 []
      proof := a.2 })
    (fun p => (p.points, p.proof))
    (fun _ h => Prod.ext (map_getD_range h.1.1) rfl) (fun _ _ => rfl)

/-- The fields of a commitment. -/
def pkCommitCodec : Codec UInt8 (GroupPkCommitment (Bytes UInt8)) :=
  ((Codec.raw tier.pointLen).pair ((Codec.raw tier.pointLen).pair (.raw tier.pointLen))).ofEquiv
    ⟨fun a => ⟨a.1, a.2.1, a.2.2⟩, fun cm => (cm.j1, cm.j2, cm.j3), fun _ => rfl, fun _ => rfl⟩

/-- The points of a request, in wire order. -/
def GroupPkBlinded.points (req : GroupPkBlinded (Bytes UInt8)) : List (Bytes UInt8) :=
  [req.y, req.d1, req.d2, req.e1, req.e2]

/-- The fields of a request. -/
def pkRequestCodec : Codec UInt8 (GroupPkRequest (Bytes UInt8) GroupProof) :=
  (((Codec.raw tier.pointLen).many 5).pair (proofCodec tier groupPiBrM groupPiBrK)).ofInv
    (fun a => ⟨⟨a.1.getD 0 [], a.1.getD 1 [], a.1.getD 2 [], a.1.getD 3 [], a.1.getD 4 []⟩, a.2⟩)
    (fun req => (req.points, req.proof))
    (fun _ h => Prod.ext (map_getD_range h.1.1) rfl) (fun _ _ => rfl)

/-- The fields of a blind response. -/
def pkResponseCodec : Codec UInt8 (GroupPkBlindResponse (Bytes UInt8) (Bytes UInt8) GroupProof) :=
  ((Codec.raw tier.pointLen).pair ((Codec.raw tier.pointLen).pair ((Codec.raw tier.scalarLen).pair
    ((Codec.raw tier.pointLen).pair (proofCodec tier groupPiBiM groupPiBiK))))).ofEquiv
    ⟨fun a => ⟨a.1, a.2.1, a.2.2.1, a.2.2.2.1, a.2.2.2.2⟩,
      fun resp => (resp.s1, resp.s2, resp.t, resp.u, resp.proof), fun _ => rfl, fun _ => rfl⟩

/-! ## The objects over their layouts -/

/-- The size of server parameters. -/
theorem width_serverPublicCodec : groupObjHdrLen + (serverPublicCodec tier).width =
    groupObjHdrLen + 2 * tier.pointLen := by
  change groupObjHdrLen + (tier.pointLen + tier.pointLen) = _
  omega

/-- Server parameters are read by their codec. -/
theorem gyGroupServerPublicDecode_eq (b : Bytes UInt8) :
    gyGroupServerPublicDecode tier b = parseObj tier .serverPublic (serverPublicCodec tier) b := by
  rw [parseObj, width_serverPublicCodec]
  rfl

/-- And written by it, if they fit the buffer. -/
theorem gyGroupServerPublicEncode_eq (cap : Nat) {v : GroupServerPublic (Bytes UInt8)}
    (hv : (serverPublicCodec tier).Fits v) : gyGroupServerPublicEncode tier cap v =
      if cap < groupObjHdrLen + (serverPublicCodec tier).width then .error .toolong
      else .ok (tier.objHdr .serverPublic ++ (serverPublicCodec tier).put v) := by
  have h1 : (Codec.raw tier.pointLen).Fits v.cW := hv.1
  have h2 : (Codec.raw tier.pointLen).Fits v.i := hv.2
  rw [width_serverPublicCodec, gyGroupServerPublicEncode, putObj_eq tier (by omega),
    take_of_fits h1, take_of_fits h2]
  rfl

/-- The size of group parameters. -/
theorem width_publicParamsCodec : groupObjHdrLen + (publicParamsCodec tier).width =
    groupObjHdrLen + 2 * tier.pointLen := by
  change groupObjHdrLen + (tier.pointLen + tier.pointLen) = _
  omega

/-- Group parameters are read by their codec. -/
theorem gyGroupPublicParamsDecode_eq (b : Bytes UInt8) :
    gyGroupPublicParamsDecode tier b = parseObj tier .groupPublic (publicParamsCodec tier) b := by
  rw [parseObj, width_publicParamsCodec]
  rfl

/-- And written by it. -/
theorem gyGroupPublicParamsEncode_eq (cap : Nat) {v : GroupPublicParams (Bytes UInt8)}
    (hv : (publicParamsCodec tier).Fits v) : gyGroupPublicParamsEncode tier cap v =
      if cap < groupObjHdrLen + (publicParamsCodec tier).width then .error .toolong
      else .ok (tier.objHdr .groupPublic ++ (publicParamsCodec tier).put v) := by
  have h1 : (Codec.raw tier.pointLen).Fits v.a := hv.1
  have h2 : (Codec.raw tier.pointLen).Fits v.b := hv.2
  rw [width_publicParamsCodec, gyGroupPublicParamsEncode, putObj_eq tier (by omega),
    take_of_fits h1, take_of_fits h2]
  rfl

/-- The size of an issuance response. -/
theorem width_authResponseCodec : groupObjHdrLen + (authResponseCodec tier).width =
    groupObjHdrLen + tier.scalarLen + 2 * tier.pointLen +
      groupPiIM * tier.pointLen + groupPiIK * tier.scalarLen := by
  change groupObjHdrLen + (tier.scalarLen + (tier.pointLen + (tier.pointLen +
    (groupPiIM * tier.pointLen + groupPiIK * tier.scalarLen)))) = _
  omega

/-- An issuance response is read by its codec. -/
theorem gyGroupAuthResponseDecode_eq (b : Bytes UInt8) :
    gyGroupAuthResponseDecode tier b = parseObj tier .authResponse (authResponseCodec tier) b := by
  rw [parseObj, width_authResponseCodec]
  rfl

/-- And written by it. -/
theorem gyGroupAuthResponseEncode_eq (cap : Nat)
    {v : GroupAuthResponse (Bytes UInt8) (Bytes UInt8) GroupProof}
    (hv : (authResponseCodec tier).Fits v) : gyGroupAuthResponseEncode tier cap v =
      if cap < groupObjHdrLen + (authResponseCodec tier).width then .error .toolong
      else .ok (tier.objHdr .authResponse ++ (authResponseCodec tier).put v) := by
  have h1 : (Codec.raw tier.scalarLen).Fits v.mac.t := hv.1
  have h2 : (Codec.raw tier.pointLen).Fits v.mac.u := hv.2.1
  have h3 : (Codec.raw tier.pointLen).Fits v.mac.v := hv.2.2.1
  have h4 : (proofCodec tier groupPiIM groupPiIK).Fits v.proof := hv.2.2.2
  rw [width_authResponseCodec, gyGroupAuthResponseEncode, putObj_eq tier (by omega),
    take_of_fits h1, take_of_fits h2, take_of_fits h3, putEach_proof tier h4]
  rfl

/-- The size of an auth presentation. -/
theorem width_authPresCodec : groupObjHdrLen + (authPresCodec tier).width =
    groupObjHdrLen + 8 * tier.pointLen + 8 +
      groupPiAM * tier.pointLen + groupPiAK * tier.scalarLen := by
  change groupObjHdrLen + (8 * tier.pointLen + (8 +
    (groupPiAM * tier.pointLen + groupPiAK * tier.scalarLen))) = _
  omega

/-- An auth presentation is read by its codec. -/
theorem gyGroupAuthPresDecode_eq (b : Bytes UInt8) :
    gyGroupAuthPresDecode tier b = parseObj tier .authPresentation (authPresCodec tier) b := by
  rw [parseObj, width_authPresCodec]
  rfl

/-- And written by it. -/
theorem gyGroupAuthPresEncode_eq (cap : Nat) {v : GroupAuthPresentation (Bytes UInt8) GroupProof}
    (hv : (authPresCodec tier).Fits v) : gyGroupAuthPresEncode tier cap v =
      if cap < groupObjHdrLen + (authPresCodec tier).width then .error .toolong
      else .ok (tier.objHdr .authPresentation ++ (authPresCodec tier).put v) := by
  have h1 : ((Codec.raw tier.pointLen).many 8).Fits v.points := hv.1
  have h2 : (proofCodec tier groupPiAM groupPiAK).Fits v.proof := hv.2.2
  rw [width_authPresCodec, gyGroupAuthPresEncode, putObj_eq tier (by omega), putEach_proof tier h2]
  rw [GroupAuthPresentation.points] at h1
  rw [putEach_eq h1]
  rfl

/-- The size of a profile key presentation. -/
theorem width_pkPresCodec : groupObjHdrLen + (pkPresCodec tier).width =
    groupObjHdrLen + 11 * tier.pointLen +
      groupPiPM * tier.pointLen + groupPiPK * tier.scalarLen := by
  change groupObjHdrLen + (11 * tier.pointLen +
    (groupPiPM * tier.pointLen + groupPiPK * tier.scalarLen)) = _
  omega

/-- A profile key presentation is read by its codec. -/
theorem gyGroupPkPresDecode_eq (b : Bytes UInt8) :
    gyGroupPkPresDecode tier b = parseObj tier .pkPresentation (pkPresCodec tier) b := by
  rw [parseObj, width_pkPresCodec]
  rfl

/-- And written by it. -/
theorem gyGroupPkPresEncode_eq (cap : Nat) {v : GroupPkPresentation (Bytes UInt8) GroupProof}
    (hv : (pkPresCodec tier).Fits v) : gyGroupPkPresEncode tier cap v =
      if cap < groupObjHdrLen + (pkPresCodec tier).width then .error .toolong
      else .ok (tier.objHdr .pkPresentation ++ (pkPresCodec tier).put v) := by
  have h1 : ((Codec.raw tier.pointLen).many 11).Fits v.points := hv.1
  have h2 : (proofCodec tier groupPiPM groupPiPK).Fits v.proof := hv.2
  rw [width_pkPresCodec, gyGroupPkPresEncode, putObj_eq tier (by omega), putEach_proof tier h2]
  rw [GroupPkPresentation.points] at h1
  rw [putEach_eq h1]
  rfl

/-- The size of a profile key commitment. -/
theorem width_pkCommitCodec : groupObjHdrLen + (pkCommitCodec tier).width =
    groupObjHdrLen + 3 * tier.pointLen := by
  change groupObjHdrLen + (tier.pointLen + (tier.pointLen + tier.pointLen)) = _
  omega

/-- A profile key commitment is read by its codec. -/
theorem gyGroupPkCommitDecode_eq (b : Bytes UInt8) :
    gyGroupPkCommitDecode tier b = parseObj tier .pkCommitment (pkCommitCodec tier) b := by
  rw [parseObj, width_pkCommitCodec]
  rfl

/-- And written by it. -/
theorem gyGroupPkCommitEncode_eq (cap : Nat) {v : GroupPkCommitment (Bytes UInt8)}
    (hv : (pkCommitCodec tier).Fits v) : gyGroupPkCommitEncode tier cap v =
      if cap < groupObjHdrLen + (pkCommitCodec tier).width then .error .toolong
      else .ok (tier.objHdr .pkCommitment ++ (pkCommitCodec tier).put v) := by
  have h1 : (Codec.raw tier.pointLen).Fits v.j1 := hv.1
  have h2 : (Codec.raw tier.pointLen).Fits v.j2 := hv.2.1
  have h3 : (Codec.raw tier.pointLen).Fits v.j3 := hv.2.2
  rw [width_pkCommitCodec, gyGroupPkCommitEncode, putObj_eq tier (by omega), take_of_fits h1,
    take_of_fits h2, take_of_fits h3]
  rfl

/-- The size of a credential request. -/
theorem width_pkRequestCodec : groupObjHdrLen + (pkRequestCodec tier).width =
    groupObjHdrLen + 5 * tier.pointLen +
      groupPiBrM * tier.pointLen + groupPiBrK * tier.scalarLen := by
  change groupObjHdrLen + (5 * tier.pointLen +
    (groupPiBrM * tier.pointLen + groupPiBrK * tier.scalarLen)) = _
  omega

/-- A credential request is read by its codec. -/
theorem gyGroupPkRequestDecode_eq (b : Bytes UInt8) :
    gyGroupPkRequestDecode tier b = parseObj tier .pkRequest (pkRequestCodec tier) b := by
  rw [parseObj, width_pkRequestCodec]
  rfl

/-- And written by it. -/
theorem gyGroupPkRequestEncode_eq (cap : Nat) {v : GroupPkRequest (Bytes UInt8) GroupProof}
    (hv : (pkRequestCodec tier).Fits v) : gyGroupPkRequestEncode tier cap v =
      if cap < groupObjHdrLen + (pkRequestCodec tier).width then .error .toolong
      else .ok (tier.objHdr .pkRequest ++ (pkRequestCodec tier).put v) := by
  have h1 : ((Codec.raw tier.pointLen).many 5).Fits v.points := hv.1
  have h2 : (proofCodec tier groupPiBrM groupPiBrK).Fits v.proof := hv.2
  rw [width_pkRequestCodec, gyGroupPkRequestEncode, putObj_eq tier (by omega),
    putEach_proof tier h2]
  rw [GroupPkBlinded.points] at h1
  rw [putEach_eq h1]
  rfl

/-- The size of a blind response. -/
theorem width_pkResponseCodec : groupObjHdrLen + (pkResponseCodec tier).width =
    groupObjHdrLen + 3 * tier.pointLen + tier.scalarLen +
      groupPiBiM * tier.pointLen + groupPiBiK * tier.scalarLen := by
  change groupObjHdrLen + (tier.pointLen + (tier.pointLen + (tier.scalarLen + (tier.pointLen +
    (groupPiBiM * tier.pointLen + groupPiBiK * tier.scalarLen))))) = _
  omega

/-- A blind response is read by its codec. -/
theorem gyGroupPkResponseDecode_eq (b : Bytes UInt8) :
    gyGroupPkResponseDecode tier b = parseObj tier .pkResponse (pkResponseCodec tier) b := by
  rw [parseObj, width_pkResponseCodec]
  rfl

/-- And written by it. -/
theorem gyGroupPkResponseEncode_eq (cap : Nat)
    {v : GroupPkBlindResponse (Bytes UInt8) (Bytes UInt8) GroupProof}
    (hv : (pkResponseCodec tier).Fits v) : gyGroupPkResponseEncode tier cap v =
      if cap < groupObjHdrLen + (pkResponseCodec tier).width then .error .toolong
      else .ok (tier.objHdr .pkResponse ++ (pkResponseCodec tier).put v) := by
  have h1 : (Codec.raw tier.pointLen).Fits v.s1 := hv.1
  have h2 : (Codec.raw tier.pointLen).Fits v.s2 := hv.2.1
  have h3 : (Codec.raw tier.scalarLen).Fits v.t := hv.2.2.1
  have h4 : (Codec.raw tier.pointLen).Fits v.u := hv.2.2.2.1
  have h5 : (proofCodec tier groupPiBiM groupPiBiK).Fits v.proof := hv.2.2.2.2
  rw [width_pkResponseCodec, gyGroupPkResponseEncode, putObj_eq tier (by omega),
    take_of_fits h1, take_of_fits h2, take_of_fits h3, take_of_fits h4, putEach_proof tier h5]
  rfl

/-! ## The key-distribution envelope -/

/-- What the receiver of a key has room for. -/
def KeyEnvelopeOk (mkCap : Nat) (v : UInt16 × Bytes UInt8) : Prop :=
  v.2.length = tier.masterKeyLen ∧ tier.masterKeyLen ≤ mkCap

/-- The header of the envelope. -/
def GroupTier.envelopeHdr : Bytes UInt8 := [wireVersion, tier.desc.suiteId, msgGroupKeyDistribution]

/-- A key envelope is read exactly from its header, its length and as many bytes. -/
theorem keyDistributionDecode_ok_iff {mkCap : Nat} {b : Bytes UInt8} {v : UInt16 × Bytes UInt8} :
    gyGroupKeyDistributionDecode tier b mkCap = .ok v ↔
      KeyEnvelopeOk tier mkCap v ∧ b = tier.envelopeHdr ++ be16Put v.1 ++ v.2 := by
  unfold gyGroupKeyDistributionDecode
  by_cases hcap : mkCap < tier.masterKeyLen
  · rw [if_pos hcap]
    constructor
    · intro h
      cases h
    · rintro ⟨⟨-, hcap'⟩, -⟩
      omega
  rw [if_neg hcap]
  by_cases hlen : b.length = groupEnvelopeHdrLen + groupEnvelopeFmtverLen + tier.masterKeyLen
  · rw [if_neg (not_not_intro hlen)]
    have h5 : 5 ≤ b.length := by
      rw [hlen, groupEnvelopeHdrLen, groupEnvelopeFmtverLen]
      omega
    obtain ⟨x0, b, rfl, h₁⟩ := exists_cons_of_le_length h5
    obtain ⟨x1, b, rfl, h₂⟩ := exists_cons_of_le_length h₁
    obtain ⟨x2, b, rfl, h₃⟩ := exists_cons_of_le_length h₂
    have hb : b.length = 2 + tier.masterKeyLen := by
      simp only [List.length_cons, groupEnvelopeHdrLen, groupEnvelopeFmtverLen] at hlen
      omega
    simp only [byteAt, List.getElem?_cons_zero, List.getElem?_cons_succ, Option.map_some,
      Option.getD_some, Octet.toByte, ne_eq, UInt8.toNat_inj]
    by_cases hhdr : x0 = wireVersion ∧ x1 = tier.desc.suiteId ∧ x2 = msgGroupKeyDistribution
    · obtain ⟨rfl, rfl, rfl⟩ := hhdr
      rw [if_neg (by simp)]
      change Except.ok (be16Get b, b.drop 2) = .ok v ↔ _
      constructor
      · intro h
        obtain rfl := Except.ok.inj h
        refine ⟨⟨by rw [List.length_drop]; omega, by omega⟩, ?_⟩
        have hput : be16Put (be16Get b) ++ b.drop 2 = b := be16Codec.put_get_append h₃
        rw [List.append_assoc, hput]
        rfl
      · rintro ⟨-, hbuf⟩
        have htail : b = be16Put v.1 ++ v.2 := by
          rw [List.append_assoc] at hbuf
          simpa only [GroupTier.envelopeHdr, List.cons_append, List.nil_append, List.cons.injEq,
            true_and] using hbuf
        rw [htail, be16Get_be16Put, List.drop_left' (length_be16Put _)]
    · rw [if_pos (by tauto)]
      constructor
      · intro h
        cases h
      · rintro ⟨-, hbuf⟩
        rw [List.append_assoc] at hbuf
        simp only [GroupTier.envelopeHdr, List.cons_append, List.cons.injEq] at hbuf
        exact absurd ⟨hbuf.1, hbuf.2.1, hbuf.2.2.1⟩ hhdr
  · rw [if_pos hlen]
    constructor
    · intro h
      cases h
    · rintro ⟨⟨hv, -⟩, rfl⟩
      rw [List.length_append, List.length_append, hv] at hlen
      exact absurd rfl hlen

/-- Key envelopes are strict, although their last field has no fixed width. -/
theorem keyDistribution_strict (mkCap : Nat) : Strict (KeyEnvelopeOk tier mkCap)
    (fun cap v => gyGroupKeyDistributionEncode tier v.1 v.2 cap)
    (fun b => gyGroupKeyDistributionDecode tier b mkCap) where
  round_trip {v cap b} hv h := by
    rw [gyGroupKeyDistributionEncode, if_neg (not_not_intro hv.1)] at h
    split at h
    · cases h
    · exact (keyDistributionDecode_ok_iff tier).2 ⟨hv, (Except.ok.inj h).symm⟩
  exact {b v} h := by
    obtain ⟨hv, rfl⟩ := (keyDistributionDecode_ok_iff tier).1 h
    refine ⟨hv, fun cap hcap => ?_⟩
    rw [List.length_append, List.length_append, hv.1] at hcap
    rw [gyGroupKeyDistributionEncode, if_neg (not_not_intro hv.1)]
    exact if_neg (Nat.not_lt.2 hcap)

/-! ## The list of members -/

/-- The entries the writer is meant for: a defined role and ciphertexts of the width of points. -/
structure MemberEntryOk (e : GroupMemberCt (Bytes UInt8)) : Prop where
  role : e.role ≤ groupRoleMax
  eA1 : e.uidCt.eA1.length = tier.pointLen
  eA2 : e.uidCt.eA2.length = tier.pointLen
  pkCt : ∀ ct ∈ e.pkCt, ct.eB1.length = tier.pointLen ∧ ct.eB2.length = tier.pointLen

/-- What follows the flags of an entry, in four blocks. -/
def entryBody (e : GroupMemberCt (Bytes UInt8)) : List (Bytes UInt8) :=
  [e.uidCt.eA1, e.uidCt.eA2] ++
    match e.pkCt with
    | some ct => [ct.eB1, ct.eB2]
    | none => [zeros tier.pointLen, zeros tier.pointLen]

variable {tier}

/-- The four points of an entry fit their block. -/
theorem MemberEntryOk.body {e : GroupMemberCt (Bytes UInt8)} (h : MemberEntryOk tier e) :
    ((Codec.raw tier.pointLen).many 4).Fits (entryBody tier e) := by
  obtain ⟨⟨eA1, eA2⟩, pkCt, role⟩ := e
  refine ⟨?_, ?_⟩
  · cases pkCt <;> rfl
  · cases pkCt with
    | none =>
      simp only [entryBody, List.cons_append, List.nil_append, List.forall_mem_cons]
      exact ⟨h.eA1, h.eA2, length_zeros _, length_zeros _, by simp⟩
    | some ct =>
      simp only [entryBody, List.cons_append, List.nil_append, List.forall_mem_cons]
      exact ⟨h.eA1, h.eA2, (h.pkCt ct rfl).1, (h.pkCt ct rfl).2, by simp⟩

/-- An entry is its flag, its role and four points. -/
theorem MemberEntryOk.putMemberEntry_eq {e : GroupMemberCt (Bytes UInt8)}
    (h : MemberEntryOk tier e) : putMemberEntry tier e =
      (if e.pkCt.isSome then 1 else 0) :: e.role :: ((Codec.raw tier.pointLen).many 4).put
        (entryBody tier e) := by
  obtain ⟨⟨eA1, eA2⟩, pkCt, role⟩ := e
  have h1 : (Codec.raw tier.pointLen).Fits eA1 := h.eA1
  have h2 : (Codec.raw tier.pointLen).Fits eA2 := h.eA2
  cases pkCt with
  | none =>
    rw [putMemberEntry, take_of_fits h1, take_of_fits h2, Nat.two_mul, zeros, List.replicate_add]
    simp [Codec.many, Codec.raw, entryBody, zeros]
  | some ct =>
    have h3 : (Codec.raw tier.pointLen).Fits ct.eB1 := (h.pkCt ct rfl).1
    have h4 : (Codec.raw tier.pointLen).Fits ct.eB2 := (h.pkCt ct rfl).2
    rw [putMemberEntry]
    dsimp only
    rw [take_of_fits h1, take_of_fits h2, take_of_fits h3, take_of_fits h4]
    simp [Codec.many, Codec.raw, entryBody]

/-- Entries have one size, with a profile key ciphertext or without. -/
theorem MemberEntryOk.length_putMemberEntry {e : GroupMemberCt (Bytes UInt8)}
    (h : MemberEntryOk tier e) : (putMemberEntry tier e).length = tier.entryLen := by
  rw [h.putMemberEntry_eq, List.length_cons, List.length_cons, Codec.length_put _ h.body]
  change 4 * tier.pointLen + 1 + 1 = 2 + 4 * tier.pointLen
  omega

/-- Four blocks in a row. -/
theorem get_four (n : Nat) (p : Bytes UInt8) : ((Codec.raw n).many 4).get p =
    [p.take n, (p.drop n).take n, ((p.drop n).drop n).take n,
      (((p.drop n).drop n).drop n).take n] := rfl

/-- What is read from the flag, the role and the four points. -/
theorem getMemberEntry_cons (hpk role : UInt8) (p : Bytes UInt8) :
    getMemberEntry tier (hpk :: role :: p) =
      if 1 < hpk ∨ groupRoleMax < role then .error .verify
      else if hpk ≠ 0 then
        .ok ⟨⟨p.take tier.pointLen, (p.drop tier.pointLen).take tier.pointLen⟩,
          some ⟨((p.drop tier.pointLen).drop tier.pointLen).take tier.pointLen,
            (((p.drop tier.pointLen).drop tier.pointLen).drop tier.pointLen).take tier.pointLen⟩,
          role⟩
      else if !gyIsZero (((p.drop tier.pointLen).drop tier.pointLen).take (2 * tier.pointLen)) then
        .error .verify
      else
        .ok ⟨⟨p.take tier.pointLen, (p.drop tier.pointLen).take tier.pointLen⟩, none, role⟩ := by
  rw [getMemberEntry, octetAt_cons_zero, octetAt_cons_succ, octetAt_cons_zero]
  rfl

/-- An entry is read back. -/
theorem MemberEntryOk.getMemberEntry_put {e : GroupMemberCt (Bytes UInt8)}
    (h : MemberEntryOk tier e) (rest : Bytes UInt8) :
    getMemberEntry tier (putMemberEntry tier e ++ rest) = .ok e := by
  have hget := ((Codec.raw tier.pointLen).many 4).get_put rest h.body
  have hrole : ¬ groupRoleMax < e.role := UInt8.not_lt.2 h.role
  rw [h.putMemberEntry_eq, List.cons_append, List.cons_append, getMemberEntry_cons]
  generalize ((Codec.raw tier.pointLen).many 4).put (entryBody tier e) ++ rest = p at hget
  obtain ⟨⟨eA1, eA2⟩, pkCt, role⟩ := e
  rw [get_four] at hget
  cases pkCt with
  | none =>
    simp only [entryBody, List.cons_append, List.nil_append, List.cons.injEq, and_true] at hget
    obtain ⟨h1, h2, h3, h4⟩ := hget
    have hslot : ((p.drop tier.pointLen).drop tier.pointLen).take (2 * tier.pointLen) =
        zeros (2 * tier.pointLen) := by
      rw [Nat.two_mul, List.take_add, h3, h4, zeros, zeros, List.replicate_add]
    have hzero := (gyIsZero_iff (length_zeros (2 * tier.pointLen))).2 rfl
    rw [hslot, hzero, h1, h2]
    simp [hrole]
  | some ct =>
    simp only [entryBody, List.cons_append, List.nil_append, List.cons.injEq, and_true] at hget
    obtain ⟨h1, h2, h3, h4⟩ := hget
    rw [h1, h2, h3, h4]
    simp [hrole]

/-- A flag that is neither out of range nor zero is one. -/
theorem flag_eq_one {x : UInt8} (h : ¬ 1 < x) (h0 : x ≠ 0) : x = 1 := by
  have hle : x.toNat ≤ 1 := UInt8.le_iff_toNat_le.1 (UInt8.not_lt.1 h)
  have hne : x.toNat ≠ 0 := fun hx => h0 (UInt8.toNat_inj.1 hx)
  exact UInt8.toNat_inj.1 (Nat.le_antisymm hle (Nat.pos_of_ne_zero hne))

/-- What is read as an entry is the writing of it. -/
theorem memberEntry_of_ok {p : Bytes UInt8} {e : GroupMemberCt (Bytes UInt8)}
    (hp : tier.entryLen ≤ p.length) (h : getMemberEntry tier p = .ok e) :
    MemberEntryOk tier e ∧ p.take tier.entryLen = putMemberEntry tier e := by
  have hlen : 4 * tier.pointLen + 1 + 1 ≤ p.length := by
    rw [GroupTier.entryLen] at hp
    omega
  obtain ⟨hpk, p, rfl, h₁⟩ := exists_cons_of_le_length hlen
  obtain ⟨role, p, rfl, h₂⟩ := exists_cons_of_le_length h₁
  obtain ⟨-, hfits⟩ := ((Codec.raw tier.pointLen).many 4).fits_get h₂
  have hput : ((Codec.raw tier.pointLen).many 4).put (((Codec.raw tier.pointLen).many 4).get p) =
      p.take (4 * tier.pointLen) := Codec.put_get _ h₂
  have htake : (hpk :: role :: p).take tier.entryLen =
      hpk :: role :: p.take (4 * tier.pointLen) := by
    rw [GroupTier.entryLen, Nat.add_comm]
    rfl
  rw [get_four] at hput
  rw [get_four] at hfits
  simp only [List.forall_mem_cons] at hfits
  obtain ⟨f1, f2, f3, f4, -⟩ := hfits
  rw [getMemberEntry_cons] at h
  split_ifs at h with hbad hzero hslot
  · have he := Except.ok.inj h
    have hok : MemberEntryOk tier e := by
      rw [← he]
      refine ⟨UInt8.not_lt.1 fun hr => hbad (.inr hr), f1, f2, ?_⟩
      rintro ct ⟨⟩
      exact ⟨f3, f4⟩
    refine ⟨hok, ?_⟩
    rw [hok.putMemberEntry_eq, htake, ← hput, flag_eq_one (fun hr => hbad (.inl hr)) hzero, ← he]
    rfl
  · have he := Except.ok.inj h
    have hok : MemberEntryOk tier e := by
      rw [← he]
      refine ⟨UInt8.not_lt.1 fun hr => hbad (.inr hr), f1, f2, ?_⟩
      rintro ct ⟨⟩
    refine ⟨hok, ?_⟩
    -- the slot of an invited member is read as two zero blocks
    have hzeros : ((p.drop tier.pointLen).drop tier.pointLen).take (2 * tier.pointLen) =
        zeros tier.pointLen ++ zeros tier.pointLen := by
      rw [Bool.not_eq_true', Bool.not_eq_false] at hslot
      have hlen' : (((p.drop tier.pointLen).drop tier.pointLen).take (2 * tier.pointLen)).length =
          2 * tier.pointLen := by
        rw [List.length_take, List.length_drop, List.length_drop]
        omega
      rw [(gyIsZero_iff hlen').1 hslot, Nat.two_mul, zeros, List.replicate_add]
      rfl
    rw [Nat.two_mul, List.take_add] at hzeros
    obtain ⟨h3, h4⟩ := List.append_inj hzeros (Eq.trans f3 (length_zeros _).symm)
    rw [hok.putMemberEntry_eq, htake, ← hput, h3, h4, not_not.1 hzero, ← he]
    rfl

/-- The loop of the reader inverts the loop of the writer. -/
theorem getMemberEntries_put {es : List (GroupMemberCt (Bytes UInt8))}
    (h : ∀ e ∈ es, MemberEntryOk tier e) :
    getMemberEntries tier es.length (es.flatMap (putMemberEntry tier)) = .ok es := by
  induction es with
  | nil => rfl
  | cons e es ih =>
    have he := h e List.mem_cons_self
    rw [List.length_cons, List.flatMap_cons, getMemberEntries, he.getMemberEntry_put,
      Except.ok_bind, List.drop_left' he.length_putMemberEntry,
      ih fun e' he' => h e' (List.mem_cons_of_mem _ he')]
    rfl

/-- Entries that are read are well formed, and written back as the bytes they came from. -/
theorem memberEntries_of_ok {n : Nat} {p : Bytes UInt8} {es : List (GroupMemberCt (Bytes UInt8))}
    (hp : n * tier.entryLen ≤ p.length) (h : getMemberEntries tier n p = .ok es) :
    es.length = n ∧ (∀ e ∈ es, MemberEntryOk tier e) ∧
      p.take (n * tier.entryLen) = es.flatMap (putMemberEntry tier) := by
  induction n generalizing p es with
  | zero =>
    obtain rfl := Except.ok.inj h
    exact ⟨rfl, by simp, by simp⟩
  | succ n ih =>
    rw [Nat.succ_mul] at hp
    obtain ⟨e, he, h⟩ := Except.bind_eq_ok_iff.1 h
    obtain ⟨es', hes, h⟩ := Except.bind_eq_ok_iff.1 h
    obtain rfl := Except.ok.inj h
    obtain ⟨hok, hput⟩ := memberEntry_of_ok (by omega) he
    obtain ⟨hlen, hall, hput'⟩ := ih (by rw [List.length_drop]; omega) hes
    refine ⟨congrArg (· + 1) hlen, List.forall_mem_cons.2 ⟨hok, hall⟩, ?_⟩
    rw [Nat.succ_mul, Nat.add_comm, List.take_add, hput, hput', List.flatMap_cons]

variable (tier)

/-- The lists the writer is meant for and the receiver has room for. -/
structure MemberListOk (outCap : Nat) (es : List (GroupMemberCt (Bytes UInt8))) : Prop where
  length_le : es.length ≤ groupMaxEntries
  room : es.length ≤ outCap
  entries : ∀ e ∈ es, MemberEntryOk tier e

variable {tier}

/-- The size of a list of entries. -/
theorem length_flatMap_putMemberEntry {es : List (GroupMemberCt (Bytes UInt8))}
    (h : ∀ e ∈ es, MemberEntryOk tier e) :
    (es.flatMap (putMemberEntry tier)).length = es.length * tier.entryLen := by
  induction es with
  | nil => simp
  | cons e es ih =>
    rw [List.flatMap_cons, List.length_append, (h e List.mem_cons_self).length_putMemberEntry,
      ih fun e' he' => h e' (List.mem_cons_of_mem _ he'), List.length_cons, Nat.succ_mul,
      Nat.add_comm]

/-- A member list is written if it fits the buffer. -/
theorem gyGroupMemberListEncode_ok_iff {cap : Nat} {es : List (GroupMemberCt (Bytes UInt8))}
    {b : Bytes UInt8} (h : ∀ e ∈ es, MemberEntryOk tier e) (hn : es.length ≤ groupMaxEntries) :
    gyGroupMemberListEncode tier cap es = .ok b ↔
      groupObjHdrLen + 2 + es.length * tier.entryLen ≤ cap ∧
      b = tier.objHdr .memberList ++
        (be16Put (UInt16.ofNat es.length) ++ es.flatMap (putMemberEntry tier)) := by
  have hroles : es.any (groupRoleMax < ·.role) = false := by
    rw [List.any_eq_false]
    intro e he
    rw [decide_eq_true_eq]
    exact UInt8.not_lt.2 (h e he).role
  rw [gyGroupMemberListEncode]
  simp only [if_neg (not_lt.2 hn), hroles]
  by_cases hcap : cap < groupObjHdrLen + 2 + es.length * tier.entryLen
  · rw [if_pos hcap]
    constructor
    · intro h
      cases h
    · rintro ⟨hcap', -⟩
      omega
  · rw [if_neg hcap, if_neg Bool.false_ne_true, gyGroupObjPutHeader, if_neg (by omega)]
    constructor
    · intro h
      exact ⟨not_lt.1 hcap, (Except.ok.inj h).symm⟩
    · rintro ⟨-, rfl⟩
      rfl

/-- A member list is read exactly from a header, a count within both bounds and as many entries. -/
theorem memberListDecode_iff_entries {outCap : Nat} {b : Bytes UInt8}
    {es : List (GroupMemberCt (Bytes UInt8))} : gyGroupMemberListDecode tier outCap b = .ok es ↔
      let n := (be16Get (b.drop groupObjHdrLen)).toNat
      b.take groupObjHdrLen = tier.objHdr .memberList ∧ n ≤ groupMaxEntries ∧ n ≤ outCap ∧
        b.length = groupObjHdrLen + 2 + n * tier.entryLen ∧
        getMemberEntries tier n (b.drop (groupObjHdrLen + 2)) = .ok es := by
  unfold gyGroupMemberListDecode
  constructor
  · intro h
    split at h
    · cases h
    · obtain ⟨⟨⟩, hhdr, h⟩ := Except.bind_eq_ok_iff.1 h
      dsimp only at h
      split_ifs at h with hmax hcap hexact
      exact ⟨(gyGroupObjCheckHeader_ok_iff tier).1 hhdr, not_lt.1 hmax, not_lt.1 hcap,
        not_not.1 hexact, h⟩
  · rintro ⟨hhdr, hmax, hcap, hexact, hes⟩
    rw [if_neg (by omega), (gyGroupObjCheckHeader_ok_iff tier).2 hhdr, Except.ok_bind]
    dsimp only
    rw [if_neg (not_lt.2 hmax), if_neg (not_lt.2 hcap), if_neg (not_not_intro hexact), hes]

/-- So a member list is read exactly from what is written for it. -/
theorem gyGroupMemberListDecode_ok_iff {outCap : Nat} {b : Bytes UInt8}
    {es : List (GroupMemberCt (Bytes UInt8))} :
    gyGroupMemberListDecode tier outCap b = .ok es ↔ MemberListOk tier outCap es ∧
      b = tier.objHdr .memberList ++
        (be16Put (UInt16.ofNat es.length) ++ es.flatMap (putMemberEntry tier)) := by
  rw [memberListDecode_iff_entries]
  constructor
  · rintro ⟨hhdr, hmax, hcap, hexact, h⟩
    have hp : (be16Get (b.drop groupObjHdrLen)).toNat * tier.entryLen ≤
        (b.drop (groupObjHdrLen + 2)).length := by
      rw [List.length_drop, hexact]
      omega
    obtain ⟨hn, hall, hput⟩ := memberEntries_of_ok hp h
    refine ⟨⟨by omega, by omega, hall⟩, ?_⟩
    have hcount : be16Put (be16Get (b.drop groupObjHdrLen)) ++ b.drop (groupObjHdrLen + 2) =
        b.drop groupObjHdrLen := by
      rw [← List.drop_drop]
      apply be16Codec.put_get_append
      rw [List.length_drop]
      change 2 ≤ _
      omega
    have htail : (b.drop (groupObjHdrLen + 2)).take
        ((be16Get (b.drop groupObjHdrLen)).toNat * tier.entryLen) =
        b.drop (groupObjHdrLen + 2) := by
      apply List.take_of_length_le
      rw [List.length_drop, hexact]
      omega
    rw [hn, UInt16.ofNat_toNat, ← hput, htail, hcount, ← hhdr, List.take_append_drop]
  · rintro ⟨⟨hmax, hcap, hall⟩, rfl⟩
    have hcount : (UInt16.ofNat es.length).toNat = es.length :=
      UInt16.toNat_ofNat_of_lt' (Nat.lt_of_le_of_lt hmax (by decide))
    have hlen : (tier.objHdr .memberList ++
        (be16Put (UInt16.ofNat es.length) ++ es.flatMap (putMemberEntry tier))).length =
          groupObjHdrLen + 2 + es.length * tier.entryLen := by
      rw [List.length_append, List.length_append, length_be16Put,
        length_flatMap_putMemberEntry hall, Nat.add_assoc]
      rfl
    have hdrop : (tier.objHdr .memberList ++
        (be16Put (UInt16.ofNat es.length) ++ es.flatMap (putMemberEntry tier))).drop
          groupObjHdrLen = be16Put (UInt16.ofNat es.length) ++ es.flatMap (putMemberEntry tier) :=
      List.drop_left' rfl
    have hn := be16Get_be16Put (β := UInt8) (UInt16.ofNat es.length)
      (es.flatMap (putMemberEntry tier))
    dsimp only
    rw [← List.drop_drop, hdrop, hn, hcount, List.drop_left' (length_be16Put _)]
    exact ⟨List.take_left' rfl, hmax, hcap, hlen, getMemberEntries_put hall⟩

/-- Member lists are strict for every size of the output array. -/
theorem memberList_strict (outCap : Nat) : Strict (MemberListOk tier outCap)
    (gyGroupMemberListEncode tier) (gyGroupMemberListDecode tier outCap) where
  round_trip {v cap b} hv h := by
    rw [gyGroupMemberListDecode_ok_iff]
    exact ⟨hv, ((gyGroupMemberListEncode_ok_iff hv.entries hv.length_le).1 h).2⟩
  exact {b v} h := by
    obtain ⟨hv, rfl⟩ := gyGroupMemberListDecode_ok_iff.1 h
    refine ⟨hv, fun cap hcap => ?_⟩
    rw [List.length_append, List.length_append, length_be16Put,
      length_flatMap_putMemberEntry hv.entries, ← Nat.add_assoc] at hcap
    exact (gyGroupMemberListEncode_ok_iff hv.entries hv.length_le).2 ⟨hcap, rfl⟩

end Geryon
