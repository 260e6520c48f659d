import Geryon.Group.Objects

/-!
# What the readers of group objects accept

The ten objects as one family. A reader accepts exactly the strings of the right shape and returns
what they hold; it looks at no encoding of a point or of a scalar. Whether an accepted string holds
canonical encodings only is up to the string.

## Main definitions

- `FixedObject`, `GroupObject`: the objects, with their values, writers and readers.
- `GroupObject.fieldsAt`: the encodings of points and scalars a string holds, by position.

## Main results

- `groupObjects_exact_iff`: the codecs are exact, tell the objects apart and are strict about
  encodings on the strings that hold canonical ones.
-/

namespace Geryon

/-! ## Objects of a fixed layout -/

/-- The objects of a fixed layout under an object header. -/
inductive FixedObject where
  | serverPublic | groupPublic | authResponse | authPres | pkPres | pkCommit | pkRequest
  | pkResponse
  deriving DecidableEq

/-- What a field of an object holds. -/
inductive GroupField where
  | element | scalar | other (n : Nat)
  deriving DecidableEq

namespace FixedObject

/-- The values of an object. -/
def Value : FixedObject → Type
  | serverPublic => GroupServerPublic (Bytes UInt8)
  | groupPublic => GroupPublicParams (Bytes UInt8)
  | authResponse => GroupAuthResponse (Bytes UInt8) (Bytes UInt8) GroupProof
  | authPres => GroupAuthPresentation (Bytes UInt8) GroupProof
  | pkPres => GroupPkPresentation (Bytes UInt8) GroupProof
  | pkCommit => GroupPkCommitment (Bytes UInt8)
  | pkRequest => GroupPkRequest (Bytes UInt8) GroupProof
  | pkResponse => GroupPkBlindResponse (Bytes UInt8) (Bytes UInt8) GroupProof

/-- The type in the header. -/
def type : FixedObject → GroupObjType
  | serverPublic => .serverPublic
  | groupPublic => .groupPublic
  | authResponse => .authResponse
  | authPres => .authPresentation
  | pkPres => .pkPresentation
  | pkCommit => .pkCommitment
  | pkRequest => .pkRequest
  | pkResponse => .pkResponse

/-- The fields of an object, in wire order. -/
def layout : FixedObject → List GroupField
  | serverPublic => [.element, .element]
  | groupPublic => [.element, .element]
  | authResponse => .scalar :: .element :: .element ::
      (List.replicate groupPiIM .element ++ List.replicate groupPiIK .scalar)
  | authPres => List.replicate 8 .element ++ .other 8 ::
      (List.replicate groupPiAM .element ++ List.replicate groupPiAK .scalar)
  | pkPres => List.replicate 11 .element ++
      (List.replicate groupPiPM .element ++ List.replicate groupPiPK .scalar)
  | pkCommit => [.element, .element, .element]
  | pkRequest => List.replicate 5 .element ++
      (List.replicate groupPiBrM .element ++ List.replicate groupPiBrK .scalar)
  | pkResponse => .element :: .element :: .scalar :: .element ::
      (List.replicate groupPiBiM .element ++ List.replicate groupPiBiK .scalar)

/-- The encodings of a proof. -/
def proofFields (p : GroupProof) : List (GroupField × Bytes UInt8) :=
  p.v.map (.element, ·) ++ p.r.map (.scalar, ·)

/-- The fields of a value, in wire order. -/
def fields : (t : FixedObject) → t.Value → List (GroupField × Bytes UInt8)
  | serverPublic => fun pp => [(.element, pp.cW), (.element, pp.i)]
  | groupPublic => fun pp => [(.element, pp.a), (.element, pp.b)]
  | authResponse => fun r => (.scalar, r.mac.t) :: (.element, r.mac.u) :: (.element, r.mac.v) ::
      proofFields r.proof
  | authPres => fun p => p.points.map (.element, ·) ++ (.other 8, be64Put p.date) ::
      proofFields p.proof
  | pkPres => fun p => p.points.map (.element, ·) ++ proofFields p.proof
  | pkCommit => fun cm => [(.element, cm.j1), (.element, cm.j2), (.element, cm.j3)]
  | pkRequest => fun req => req.points.map (.element, ·) ++ proofFields req.proof
  | pkResponse => fun r => (.element, r.s1) :: (.element, r.s2) :: (.scalar, r.t) ::
      (.element, r.u) :: proofFields r.proof

variable {S P π : Type} (tier : GroupTier S P UInt8 π)

/-- The writer of an object. -/
def encode (cap : Nat) : (t : FixedObject) → t.Value → Except GyErr (Bytes UInt8)
  | serverPublic => gyGroupServerPublicEncode tier cap
  | groupPublic => gyGroupPublicParamsEncode tier cap
  | authResponse => gyGroupAuthResponseEncode tier cap
  | authPres => gyGroupAuthPresEncode tier cap
  | pkPres => gyGroupPkPresEncode tier cap
  | pkCommit => gyGroupPkCommitEncode tier cap
  | pkRequest => gyGroupPkRequestEncode tier cap
  | pkResponse => gyGroupPkResponseEncode tier cap

/-- The reader of an object. -/
def decode : (t : FixedObject) → Bytes UInt8 → Except GyErr t.Value
  | serverPublic => gyGroupServerPublicDecode tier
  | groupPublic => gyGroupPublicParamsDecode tier
  | authResponse => gyGroupAuthResponseDecode tier
  | authPres => gyGroupAuthPresDecode tier
  | pkPres => gyGroupPkPresDecode tier
  | pkCommit => gyGroupPkCommitDecode tier
  | pkRequest => gyGroupPkRequestDecode tier
  | pkResponse => gyGroupPkResponseDecode tier

/-- The codec of an object. -/
def codec : (t : FixedObject) → Codec UInt8 t.Value
  | serverPublic => serverPublicCodec tier
  | groupPublic => publicParamsCodec tier
  | authResponse => authResponseCodec tier
  | authPres => authPresCodec tier
  | pkPres => pkPresCodec tier
  | pkCommit => pkCommitCodec tier
  | pkRequest => pkRequestCodec tier
  | pkResponse => pkResponseCodec tier

/-- Each of the eight objects is read by its codec. -/
theorem decode_eq (t : FixedObject) (b : Bytes UInt8) :
    t.decode tier b = parseObj tier t.type (t.codec tier) b := by
  cases t with
  | serverPublic => exact gyGroupServerPublicDecode_eq tier b
  | groupPublic => exact gyGroupPublicParamsDecode_eq tier b
  | authResponse => exact gyGroupAuthResponseDecode_eq tier b
  | authPres => exact gyGroupAuthPresDecode_eq tier b
  | pkPres => exact gyGroupPkPresDecode_eq tier b
  | pkCommit => exact gyGroupPkCommitDecode_eq tier b
  | pkRequest => exact gyGroupPkRequestDecode_eq tier b
  | pkResponse => exact gyGroupPkResponseDecode_eq tier b

/-- And written by it. -/
theorem encode_eq (t : FixedObject) (cap : Nat) {v : t.Value} (hv : (t.codec tier).Fits v) :
    t.encode tier cap v =
      if cap < groupObjHdrLen + (t.codec tier).width then .error .toolong
      else .ok (tier.objHdr t.type ++ (t.codec tier).put v) := by
  cases t with
  | serverPublic => exact gyGroupServerPublicEncode_eq tier cap hv
  | groupPublic => exact gyGroupPublicParamsEncode_eq tier cap hv
  | authResponse => exact gyGroupAuthResponseEncode_eq tier cap hv
  | authPres => exact gyGroupAuthPresEncode_eq tier cap hv
  | pkPres => exact gyGroupPkPresEncode_eq tier cap hv
  | pkCommit => exact gyGroupPkCommitEncode_eq tier cap hv
  | pkRequest => exact gyGroupPkRequestEncode_eq tier cap hv
  | pkResponse => exact gyGroupPkResponseEncode_eq tier cap hv

/-- Every reader of a fixed layout is strict for its writer. -/
theorem strict (t : FixedObject) :
    Strict (t.codec tier).Fits (fun cap => t.encode tier cap) (t.decode tier) :=
  obj_strict tier t.type (t.codec tier) (t.decode_eq tier) fun cap _ hv => t.encode_eq tier cap hv

end FixedObject

/-! ## Fields by position -/

section Fields

variable {S P π : Type} (tier : GroupTier S P UInt8 π)

/-- The width of a field. -/
def GroupField.width : GroupField → Nat
  | element => tier.pointLen
  | scalar => tier.scalarLen
  | other n => n

/-- The fields of a layout, read off the front of a string. -/
def fieldsOf : List GroupField → Bytes UInt8 → List (GroupField × Bytes UInt8)
  | [], _ => []
  | f :: l, p => (f, p.take (f.width tier)) :: fieldsOf l (p.drop (f.width tier))

/-- Fields of one kind in a row. -/
theorem fieldsOf_replicate (n : Nat) (f : GroupField) (l : List GroupField) (p : Bytes UInt8) :
    fieldsOf tier (List.replicate n f ++ l) p =
      ((Codec.raw (f.width tier)).getMany n p).map (f, ·) ++
        fieldsOf tier l (p.drop (n * f.width tier)) := by
  induction n generalizing p with
  | zero => simp [Codec.getMany]
  | succ n ih =>
    rw [List.replicate_succ, List.cons_append, fieldsOf, ih, Codec.getMany, List.map_cons,
      List.cons_append, List.drop_drop, Nat.succ_mul, Nat.add_comm]
    rfl

/-- The fields of a proof: its commitments, then its responses. -/
theorem fieldsOf_proof (m k : Nat) (p : Bytes UInt8) :
    fieldsOf tier (List.replicate m .element ++ List.replicate k .scalar) p =
      FixedObject.proofFields ((proofCodec tier m k).get p) := by
  have hk := fieldsOf_replicate tier k .scalar [] (p.drop (m * tier.pointLen))
  rw [List.append_nil, fieldsOf, List.append_nil] at hk
  rw [fieldsOf_replicate]
  exact congrArg _ hk

/-- What is read as a value has the fields that stand in the string. -/
theorem FixedObject.fields_get (t : FixedObject) {p : Bytes UInt8}
    (hp : (t.codec tier).width ≤ p.length) :
    t.fields ((t.codec tier).get p) = fieldsOf tier t.layout p := by
  cases t with
  | serverPublic => rfl
  | groupPublic => rfl
  | pkCommit => rfl
  | authResponse =>
    simp only [layout, fieldsOf, fieldsOf_proof]
    rfl
  | authPres =>
    have hdate : be64Put (be64Get (p.drop (8 * tier.pointLen))) =
        (p.drop (8 * tier.pointLen)).take 8 := by
      apply be64Codec.put_get
      rw [List.length_drop]
      change 8 ≤ _
      have hw := width_authPresCodec tier
      change (authPresCodec tier).width ≤ p.length at hp
      omega
    rw [layout, fieldsOf_replicate, fieldsOf, fieldsOf_proof]
    exact congrArg (fun date =>
      ((Codec.raw tier.pointLen).getMany 8 p).map (GroupField.element, ·) ++
        (GroupField.other 8, date) :: proofFields ((proofCodec tier groupPiAM groupPiAK).get
          ((p.drop (8 * tier.pointLen)).drop 8))) hdate
  | pkPres =>
    rw [layout, fieldsOf_replicate, fieldsOf_proof]
    rfl
  | pkRequest =>
    rw [layout, fieldsOf_replicate, fieldsOf_proof]
    rfl
  | pkResponse =>
    simp only [layout, fieldsOf, fieldsOf_proof]
    rfl

/-! ## Entries by position -/

/-- The entries of a list start here. -/
def entriesAt : Nat → Bytes UInt8 → List (Bytes UInt8)
  | 0, _ => []
  | n + 1, p => p :: entriesAt n (p.drop tier.entryLen)

/-- One of the four blocks after the flags of an entry. -/
def entryBlock (p : Bytes UInt8) (i : Nat) : Bytes UInt8 :=
  (getEach 4 tier.pointLen (p.drop 2)).getD i []

/-- The flags of an entry are in range, and the slot of an invited member is zero. -/
structure EntryShaped (p : Bytes UInt8) : Prop where
  hpk : octetAt p 0 ≤ 1
  role : octetAt p 1 ≤ groupRoleMax
  slot : octetAt p 0 = 0 →
    (((p.drop 2).drop tier.pointLen).drop tier.pointLen).take (2 * tier.pointLen) =
      zeros (2 * tier.pointLen)

/-- The encodings an entry holds. -/
def entryFieldsAt (p : Bytes UInt8) : List (GroupField × Bytes UInt8) :=
  [(.element, entryBlock tier p 0), (.element, entryBlock tier p 1)] ++
    if octetAt p 0 = 0 then []
    else [(.element, entryBlock tier p 2), (.element, entryBlock tier p 3)]

/-- The encodings of an entry. -/
def entryFields (e : GroupMemberCt (Bytes UInt8)) : List (GroupField × Bytes UInt8) :=
  [(.element, e.uidCt.eA1), (.element, e.uidCt.eA2)] ++
    match e.pkCt with
    | none => []
    | some ct => [(.element, ct.eB1), (.element, ct.eB2)]

/-- An entry is read exactly if its two bytes are in range. -/
theorem getMemberEntry_iff {p : Bytes UInt8} (hp : tier.entryLen ≤ p.length) :
    (∃ e, getMemberEntry tier p = .ok e) ↔ EntryShaped tier p := by
  have hslot : ((((p.drop 2).drop tier.pointLen).drop tier.pointLen).take
      (2 * tier.pointLen)).length = 2 * tier.pointLen := by
    rw [GroupTier.entryLen] at hp
    simp only [List.length_take, List.length_drop]
    omega
  rw [getMemberEntry]
  dsimp only
  constructor
  · rintro ⟨e, h⟩
    split_ifs at h with hbad hhpk hzero
    · exact ⟨UInt8.not_lt.1 fun hr => hbad (.inl hr), UInt8.not_lt.1 fun hr => hbad (.inr hr),
        fun h0 => absurd h0 hhpk⟩
    · rw [Bool.not_eq_true', Bool.not_eq_false] at hzero
      exact ⟨UInt8.not_lt.1 fun hr => hbad (.inl hr), UInt8.not_lt.1 fun hr => hbad (.inr hr),
        fun _ => (gyIsZero_iff hslot).1 hzero⟩
  · rintro ⟨h1, h2, h3⟩
    rw [if_neg (not_or.2 ⟨UInt8.not_lt.2 h1, UInt8.not_lt.2 h2⟩)]
    by_cases h0 : octetAt p 0 = 0
    · rw [if_neg (not_not_intro h0), (gyIsZero_iff hslot).2 (h3 h0)]
      exact ⟨_, rfl⟩
    · rw [if_pos h0]
      exact ⟨_, rfl⟩

/-- The elements of an entry that is read are its fields. -/
theorem entryFields_of_ok {p : Bytes UInt8} {e : GroupMemberCt (Bytes UInt8)}
    (h : getMemberEntry tier p = .ok e) : entryFields e = entryFieldsAt tier p := by
  rw [getMemberEntry] at h
  dsimp only at h
  rw [entryFieldsAt]
  split_ifs at h with hbad hhpk hzero
  · obtain rfl := Except.ok.inj h
    rw [if_neg hhpk]
    rfl
  · obtain rfl := Except.ok.inj h
    rw [if_pos (not_not.1 hhpk)]
    rfl

/-- Entries are read exactly if each of them is. -/
theorem getMemberEntries_iff {n : Nat} {p : Bytes UInt8} (hp : n * tier.entryLen ≤ p.length) :
    (∃ es, getMemberEntries tier n p = .ok es) ↔ ∀ q ∈ entriesAt tier n p, EntryShaped tier q := by
  induction n generalizing p with
  | zero => simp [getMemberEntries, entriesAt]
  | succ n ih =>
    rw [Nat.succ_mul] at hp
    rw [entriesAt, List.forall_mem_cons, ← getMemberEntry_iff tier (by omega),
      ← ih (by rw [List.length_drop]; omega)]
    constructor
    · rintro ⟨es, h⟩
      obtain ⟨e, he, h⟩ := Except.bind_eq_ok_iff.1 h
      obtain ⟨es', hes, -⟩ := Except.bind_eq_ok_iff.1 h
      exact ⟨⟨e, he⟩, es', hes⟩
    · rintro ⟨⟨e, he⟩, es, hes⟩
      exact ⟨e :: es, by rw [getMemberEntries, he, Except.ok_bind, hes]; rfl⟩

theorem entriesFields_of_ok {n : Nat} {p : Bytes UInt8} {es : List (GroupMemberCt (Bytes UInt8))}
    (h : getMemberEntries tier n p = .ok es) :
    es.flatMap entryFields = (entriesAt tier n p).flatMap (entryFieldsAt tier) := by
  induction n generalizing p es with
  | zero =>
    obtain rfl := Except.ok.inj h
    rfl
  | succ n ih =>
    obtain ⟨e, he, h⟩ := Except.bind_eq_ok_iff.1 h
    obtain ⟨es', hes, h⟩ := Except.bind_eq_ok_iff.1 h
    obtain rfl := Except.ok.inj h
    rw [List.flatMap_cons, entriesAt, List.flatMap_cons, entryFields_of_ok tier he, ih hes]

end Fields

/-! ## The objects -/

/-- The objects of the wire. -/
inductive GroupObject where
  | fixed (t : FixedObject)
  | keyEnvelope
  | memberList
  deriving DecidableEq

namespace GroupObject

/-- The values of an object. -/
def Value : GroupObject → Type
  | fixed t => t.Value
  | keyEnvelope => UInt16 × Bytes UInt8
  | memberList => List (GroupMemberCt (Bytes UInt8))

/-- The fields of a value that hold encodings. A key envelope has none. -/
def fields : (t : GroupObject) → t.Value → List (GroupField × Bytes UInt8)
  | fixed t => t.fields
  | keyEnvelope => fun _ => []
  | memberList => fun es => es.flatMap entryFields

variable {S P π : Type} (tier : GroupTier S P UInt8 π)

/-- The writer of an object. -/
def encode (cap : Nat) : (t : GroupObject) → t.Value → Except GyErr (Bytes UInt8)
  | fixed t => t.encode tier cap
  | keyEnvelope => fun v => gyGroupKeyDistributionEncode tier v.1 v.2 cap
  | memberList => gyGroupMemberListEncode tier cap

/-- The reader of an object. A key and a list are read into `room` bytes or entries. -/
def decode (room : Nat) : (t : GroupObject) → Bytes UInt8 → Except GyErr t.Value
  | fixed t => t.decode tier
  | keyEnvelope => fun b => gyGroupKeyDistributionDecode tier b room
  | memberList => gyGroupMemberListDecode tier room

/-- The values of the tier's widths that the reader has room for. -/
def Ok (room : Nat) : (t : GroupObject) → t.Value → Prop
  | fixed t => (t.codec tier).Fits
  | keyEnvelope => KeyEnvelopeOk tier room
  | memberList => MemberListOk tier room

theorem strict (room : Nat) (t : GroupObject) :
    Strict (t.Ok tier room) (fun cap => t.encode tier cap) (t.decode tier room) := by
  cases t with
  | fixed t => exact t.strict tier
  | keyEnvelope => exact keyDistribution_strict tier room
  | memberList => exact memberList_strict room

/-- A value of the tier's widths is written where there is room. -/
theorem encode_ok {room : Nat} {t : GroupObject} {v : t.Value} (hv : t.Ok tier room v) :
    ∃ n, ∀ cap, n ≤ cap → ∃ b, t.encode tier cap v = .ok b := by
  cases t with
  | fixed t =>
    refine ⟨groupObjHdrLen + (t.codec tier).width, fun cap hcap => ?_⟩
    have henc := t.encode_eq tier cap hv
    rw [if_neg (not_lt.2 hcap)] at henc
    exact ⟨_, henc⟩
  | keyEnvelope =>
    refine ⟨groupEnvelopeHdrLen + groupEnvelopeFmtverLen + tier.masterKeyLen, fun cap hcap => ?_⟩
    change ∃ b, gyGroupKeyDistributionEncode tier v.1 v.2 cap = .ok b
    rw [gyGroupKeyDistributionEncode, if_neg (not_not_intro hv.1), if_neg (not_lt.2 hcap)]
    exact ⟨_, rfl⟩
  | memberList =>
    exact ⟨_, fun cap hcap => ⟨_, (gyGroupMemberListEncode_ok_iff hv.entries hv.length_le).2
      ⟨hcap, rfl⟩⟩⟩

/-- The string has the length, the header and the flags of the object. -/
def Shaped (room : Nat) (b : Bytes UInt8) : GroupObject → Prop
  | fixed t => b.length = groupObjHdrLen + (t.codec tier).width ∧
      b.take groupObjHdrLen = tier.objHdr t.type
  | keyEnvelope => tier.masterKeyLen ≤ room ∧
      b.length = groupEnvelopeHdrLen + groupEnvelopeFmtverLen + tier.masterKeyLen ∧
      b.take groupEnvelopeHdrLen = tier.envelopeHdr
  | memberList =>
      let n := (be16Get (b.drop groupObjHdrLen)).toNat
      b.take groupObjHdrLen = tier.objHdr .memberList ∧ n ≤ groupMaxEntries ∧ n ≤ room ∧
        b.length = groupObjHdrLen + 2 + n * tier.entryLen ∧
        -- and every entry has its flag and role in range, with zeros where there is no key
        ∀ p ∈ entriesAt tier n (b.drop (groupObjHdrLen + 2)), EntryShaped tier p

/-- The encodings a string holds, by position. -/
def fieldsAt (b : Bytes UInt8) : GroupObject → List (GroupField × Bytes UInt8)
  | fixed t => fieldsOf tier t.layout (b.drop groupObjHdrLen)
  | keyEnvelope => []
  | memberList => (entriesAt tier (be16Get (b.drop groupObjHdrLen)).toNat
      (b.drop (groupObjHdrLen + 2))).flatMap (entryFieldsAt tier)

/-- A fixed object is read exactly by its length and its header; no element is looked at. -/
theorem fixed_decode_iff {t : FixedObject} {b : Bytes UInt8} {v : t.Value} :
    t.decode tier b = .ok v ↔ b.length = groupObjHdrLen + (t.codec tier).width ∧
      b.take groupObjHdrLen = tier.objHdr t.type ∧
      (t.codec tier).get (b.drop groupObjHdrLen) = v := by
  rw [t.decode_eq, parseObj]
  by_cases hlen : b.length = groupObjHdrLen + (t.codec tier).width
  · rw [if_neg (not_not_intro hlen), Except.bind_eq_ok_iff, ← gyGroupObjCheckHeader_ok_iff]
    constructor
    · rintro ⟨⟨⟩, hhdr, hget⟩
      exact ⟨hlen, hhdr, Except.ok.inj hget⟩
    · rintro ⟨-, hhdr, rfl⟩
      exact ⟨(), hhdr, rfl⟩
  · rw [if_pos hlen]
    constructor
    · intro h
      cases h
    · rintro ⟨hlen', -⟩
      exact absurd hlen' hlen

/-- A string is accepted exactly if it has the shape of the object. -/
theorem decode_iff {room : Nat} {t : GroupObject} {b : Bytes UInt8} :
    (∃ v, t.decode tier room b = .ok v) ↔ t.Shaped tier room b := by
  cases t with
  | fixed t =>
    constructor
    · rintro ⟨v, h⟩
      obtain ⟨hlen, hhdr, -⟩ := (fixed_decode_iff tier).1 h
      exact ⟨hlen, hhdr⟩
    · rintro ⟨hlen, hhdr⟩
      exact ⟨_, (fixed_decode_iff tier).2 ⟨hlen, hhdr, rfl⟩⟩
  | keyEnvelope =>
    constructor
    · rintro ⟨v, h⟩
      obtain ⟨⟨hv, hroom⟩, rfl⟩ := (keyDistributionDecode_ok_iff tier).1 h
      refine ⟨hroom, ?_, rfl⟩
      rw [List.length_append, List.length_append, hv]
      rfl
    · rintro ⟨hroom, hlen, hhdr⟩
      simp only [groupEnvelopeHdrLen, groupEnvelopeFmtverLen] at hlen hhdr
      have hkey : ((b.drop 3).drop 2).length = tier.masterKeyLen := by
        rw [List.length_drop, List.length_drop]
        omega
      have hput : be16Put (be16Get (b.drop 3)) ++ (b.drop 3).drop 2 = b.drop 3 := by
        apply be16Codec.put_get_append
        rw [List.length_drop]
        change 2 ≤ _
        omega
      refine ⟨(be16Get (b.drop 3), (b.drop 3).drop 2),
        (keyDistributionDecode_ok_iff tier).2 ⟨⟨hkey, hroom⟩, ?_⟩⟩
      rw [List.append_assoc, hput, ← hhdr, List.take_append_drop]
  | memberList =>
    constructor
    · rintro ⟨es, h⟩
      obtain ⟨hhdr, hmax, hcap, hlen, hes⟩ := memberListDecode_iff_entries.1 h
      refine ⟨hhdr, hmax, hcap, hlen, (getMemberEntries_iff tier ?_).1 ⟨es, hes⟩⟩
      rw [List.length_drop]
      omega
    · rintro ⟨hhdr, hmax, hcap, hlen, hes⟩
      obtain ⟨es, hes⟩ := (getMemberEntries_iff tier (by rw [List.length_drop]; omega)).2 hes
      exact ⟨es, memberListDecode_iff_entries.2 ⟨hhdr, hmax, hcap, hlen, hes⟩⟩

/-- The value of an accepted string holds the encodings that stand in the string. -/
theorem decode_fields {room : Nat} {t : GroupObject} {b : Bytes UInt8} {v : t.Value}
    (h : t.decode tier room b = .ok v) : t.fields v = t.fieldsAt tier b := by
  cases t with
  | fixed t =>
    obtain ⟨hlen, -, rfl⟩ := (fixed_decode_iff tier).1 h
    apply t.fields_get tier
    rw [List.length_drop]
    omega
  | keyEnvelope => rfl
  | memberList => exact entriesFields_of_ok tier (memberListDecode_iff_entries.1 h).2.2.2.2

/-! ## Telling the objects apart -/

end GroupObject

/-- The tiers of the two classical suites. -/
def GroupTier.Published {S P π : Type} (tier : GroupTier S P UInt8 π) : Prop :=
  tier.desc.suiteId = 1 ∧ tier.pointLen = 32 ∧ tier.scalarLen = 32 ∧ tier.masterKeyLen = 32 ∨
    tier.desc.suiteId = 3 ∧ tier.pointLen = 56 ∧ tier.scalarLen = 56 ∧ tier.masterKeyLen = 56

namespace GroupObject

variable {S P π S' P' π' : Type} {tier : GroupTier S P UInt8 π} {tier' : GroupTier S' P' UInt8 π'}

/-- The first byte of an object under an object header. -/
def code : GroupObject → UInt8
  | fixed t => t.type.code
  | keyEnvelope => wireVersion
  | memberList => GroupObjType.memberList.code

/-- The type byte determines the object, the key envelope apart. -/
theorem code_inj {t t' : GroupObject} (h : t.code = t'.code) (ht : t ≠ keyEnvelope)
    (ht' : t' ≠ keyEnvelope) : t = t' := by
  cases t with
  | keyEnvelope => exact absurd rfl ht
  | memberList =>
    cases t' with
    | keyEnvelope => exact absurd rfl ht'
    | memberList => rfl
    | fixed t' => cases t' <;> exact absurd h (by decide)
  | fixed t =>
    cases t' with
    | keyEnvelope => exact absurd rfl ht'
    | memberList => cases t <;> exact absurd h (by decide)
    | fixed t' => cases t <;> cases t' <;> first | rfl | exact absurd h (by decide)

/-- The header of an accepted string. -/
theorem header_of_shaped {room : Nat} {t : GroupObject} {b : Bytes UInt8}
    (h : t.Shaped tier room b) (ht : t ≠ keyEnvelope) :
    b.take 3 = [t.code, groupWireVersion, tier.desc.suiteId] := by
  cases t with
  | fixed t => exact h.2
  | keyEnvelope => exact absurd rfl ht
  | memberList => exact h.1

/-- The header of an envelope of the lower tier is the header of server parameters of the upper
one; their lengths differ. -/
theorem eq_keyEnvelope (hp : tier.Published) (hp' : tier'.Published) {room room' : Nat}
    {t : GroupObject} {b : Bytes UInt8} (h : t.Shaped tier room b)
    (h' : keyEnvelope.Shaped tier' room' b) : t = keyEnvelope := by
  by_contra ht
  have hhdr := header_of_shaped h ht
  obtain ⟨-, hlen, hhdr'⟩ := h'
  rw [groupEnvelopeHdrLen, hhdr, GroupTier.envelopeHdr] at hhdr'
  simp only [List.cons.injEq, and_true] at hhdr'
  obtain ⟨hcode, hsuite', hsuite⟩ := hhdr'
  have htype : t = fixed .serverPublic := code_inj hcode ht (by decide)
  subst htype
  have hlen' : b.length = 3 + 2 * tier.pointLen := h.1.trans (width_serverPublicCodec tier)
  rcases hp with ⟨hs, -⟩ | ⟨-, hpoint, -⟩
  · rw [hs] at hsuite
    exact absurd hsuite (by decide)
  · rcases hp' with ⟨-, -, -, hmk⟩ | ⟨hs', -⟩
    · rw [hlen, hpoint, hmk] at hlen'
      exact absurd hlen' (by decide)
    · rw [hs'] at hsuite'
      exact absurd hsuite' (by decide)

/-- No string has the shape of two objects, in one tier or in both. -/
theorem shaped_unique (hp : tier.Published) (hp' : tier'.Published) {room room' : Nat}
    {t t' : GroupObject} {b : Bytes UInt8} (h : t.Shaped tier room b)
    (h' : t'.Shaped tier' room' b) : t = t' := by
  by_cases ht : t = keyEnvelope
  · subst ht
    exact (eq_keyEnvelope hp' hp h' h).symm
  · by_cases ht' : t' = keyEnvelope
    · subst ht'
      exact eq_keyEnvelope hp hp' h h'
    · have hhdr := (header_of_shaped h ht).symm.trans (header_of_shaped h' ht')
      exact code_inj (List.cons.inj hhdr).1 ht ht'

end GroupObject

/-! ## Canonical encodings -/

/-- Which encodings of points and of scalars are canonical. -/
structure GroupCanon where
  element : Bytes UInt8 → Prop
  scalar : Bytes UInt8 → Prop

/-- A field that holds an encoding holds a canonical one. -/
def GroupCanon.Holds (canon : GroupCanon) (f : GroupField × Bytes UInt8) : Prop :=
  match f.1 with
  | .element => canon.element f.2
  | .scalar => canon.scalar f.2
  | .other _ => True

section Claim

variable {S P π : Type}

/-- The codecs of both tiers are exact. What is written for a value is read back; what is accepted
is written for the value it is read as, and belongs to no other object of either tier. An accepted
string holds only canonical encodings exactly if those at the positions of points and scalars are
canonical. -/
theorem groupObjects_exact_iff (canon : GroupCanon) {tier : GroupTier S P UInt8 π}
    (hp : tier.Published) (room : Nat) :
    (∀ (t : GroupObject) (v : t.Value), t.Ok tier room v → ∃ n, ∀ cap, n ≤ cap →
      ∃ b, t.encode tier cap v = .ok b ∧ t.decode tier room b = .ok v) ∧
    ∀ (t : GroupObject) (b : Bytes UInt8),
      (∀ v, t.decode tier room b = .ok v →
        t.encode tier b.length v = .ok b ∧
        (∀ {S' P' π' : Type} {tier' : GroupTier S' P' UInt8 π'}, tier'.Published →
          ∀ room' (t' : GroupObject) v', t'.decode tier' room' b = .ok v' → t' = t) ∧
        ∀ f ∈ t.fields v, canon.Holds f) ↔
      (t.Shaped tier room b → ∀ f ∈ t.fieldsAt tier b, canon.Holds f) := by
  constructor
  · intro t v hv
    obtain ⟨n, hn⟩ := GroupObject.encode_ok tier hv
    refine ⟨n, fun cap hcap => ?_⟩
    obtain ⟨b, hb⟩ := hn cap hcap
    exact ⟨b, hb, (GroupObject.strict tier room t).round_trip hv hb⟩
  · intro t b
    constructor
    · intro h hshaped
      obtain ⟨v, hv⟩ := (GroupObject.decode_iff tier).2 hshaped
      rw [← GroupObject.decode_fields tier hv]
      exact (h v hv).2.2
    · intro h v hv
      have hshaped := (GroupObject.decode_iff tier).1 ⟨v, hv⟩
      refine ⟨((GroupObject.strict tier room t).exact hv).2 _ (le_refl _), ?_, ?_⟩
      · intro S' P' π' tier' hp' room' t' v' hv'
        exact GroupObject.shaped_unique hp' hp ((GroupObject.decode_iff tier').1 ⟨v', hv'⟩) hshaped
      · rw [GroupObject.decode_fields tier hv]
        exact h hshaped

end Claim

namespace ByteGroup

theorem tier_published : tier.Published := .inl ⟨rfl, rfl, rfl, rfl⟩

/-- The little-endian value of a string. -/
def leNat (b : Bytes UInt8) : Nat := b.foldr (fun x n => x.toNat + 256 * n) 0

/-- What holds of every canonical encoding of the lower tier: a point is an even number below the
field prime, a scalar is a number below the group order. -/
def reduced : GroupCanon where
  element e := leNat e < 2 ^ 255 - 19 ∧ leNat e % 2 = 0
  scalar s := leNat s < 2 ^ 252 + 27742317777372353535851937790883648493

/-- An auth response whose fields have all bits set. -/
def onesResponse : Bytes UInt8 :=
  tier.objHdr .authResponse ++ List.replicate 416 255

/-- Server parameters of two zero encodings. -/
def zeroParams : Bytes UInt8 := tier.objHdr .serverPublic ++ zeros 64

/-- A string of one byte, read as fields of one width. -/
theorem mem_fieldsOf_replicate {l : List GroupField} {w : Nat}
    (hl : ∀ f ∈ l, f.width tier = w) (x : UInt8) :
    ∀ f ∈ fieldsOf tier l (List.replicate (l.length * w) x), f.1 ∈ l ∧
      f.2 = List.replicate w x := by
  induction l with
  | nil => simp [fieldsOf]
  | cons k l ih =>
    have hw := hl k List.mem_cons_self
    intro f hf
    rw [fieldsOf, hw, List.length_cons, Nat.succ_mul, Nat.add_comm, List.replicate_add,
      List.take_left' List.length_replicate, List.drop_left' List.length_replicate] at hf
    rcases List.mem_cons.1 hf with rfl | hf
    · exact ⟨List.mem_cons_self, rfl⟩
    · obtain ⟨hk, hb⟩ := ih (fun f hf => hl f (List.mem_cons_of_mem _ hf)) f hf
      exact ⟨List.mem_cons_of_mem _ hk, hb⟩

/-- No field of an accepted auth response need be reduced. -/
theorem onesResponse_accepted : ∃ v : FixedObject.authResponse.Value,
    (GroupObject.fixed .authResponse).decode tier 0 onesResponse = .ok v ∧
      ∀ f ∈ (GroupObject.fixed .authResponse).fields v, ¬ reduced.Holds f := by
  have hshaped : (GroupObject.fixed .authResponse).Shaped tier 0 onesResponse := by
    refine ⟨?_, List.take_left' rfl⟩
    rw [onesResponse, List.length_append, List.length_replicate]
    rfl
  obtain ⟨v, hv⟩ := (GroupObject.decode_iff tier).2 hshaped
  refine ⟨v, hv, ?_⟩
  intro f hf
  rw [GroupObject.decode_fields tier hv] at hf
  obtain ⟨hk, hb⟩ := mem_fieldsOf_replicate (l := FixedObject.authResponse.layout) (w := 32)
    (by decide) 255 f hf
  obtain ⟨k, e⟩ := f
  dsimp only at hk hb
  subst hb
  have hkinds : ∀ k ∈ FixedObject.authResponse.layout, k = .element ∨ k = .scalar := by decide
  rcases hkinds k hk with rfl | rfl
  · exact fun h => absurd h.1 (by decide)
  · exact fun h : leNat _ < _ => absurd h (by decide)

/-- Server parameters of reduced encodings are accepted and written back. -/
theorem zeroParams_exact : ∃ v : FixedObject.serverPublic.Value,
    (GroupObject.fixed .serverPublic).decode tier 0 zeroParams = .ok v ∧
      (GroupObject.fixed .serverPublic).encode tier zeroParams.length v = .ok zeroParams ∧
      ∀ f ∈ (GroupObject.fixed .serverPublic).fields v, reduced.Holds f := by
  have hshaped : (GroupObject.fixed .serverPublic).Shaped tier 0 zeroParams := by
    refine ⟨?_, List.take_left' rfl⟩
    rw [zeroParams, List.length_append, length_zeros]
    rfl
  obtain ⟨v, hv⟩ := (GroupObject.decode_iff tier).2 hshaped
  have hexact := ((groupObjects_exact_iff reduced tier_published 0).2 (.fixed .serverPublic)
    zeroParams).2 (fun _ f hf => ?_) v hv
  · exact ⟨v, hv, hexact.1, hexact.2.2⟩
  · obtain ⟨hk, hb⟩ := mem_fieldsOf_replicate (l := FixedObject.serverPublic.layout) (w := 32)
      (by decide) 0 f hf
    obtain ⟨k, e⟩ := f
    dsimp only at hk hb
    subst hb
    have hkinds : ∀ k ∈ FixedObject.serverPublic.layout, k = .element := by decide
    obtain rfl := hkinds k hk
    exact ⟨by decide, by decide⟩

end ByteGroup

end Geryon
