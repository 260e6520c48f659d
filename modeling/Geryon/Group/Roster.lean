import Geryon.Group.Elements

/-!
# The transport of a roster

The server assembles the list of members from ciphertexts it cannot read
(`group_facade_server.c`), and a custodian that holds the key of the group opens every entry
(`group_facade_client.c`). The sizes the header publishes for the list are computed apart from the
writer and leave out its count.

## Main definitions

- `gyGroupServerMemberListEncode`, `Encoded.groupFetchMembers`: the two ends.
- `Honest`, `HonestCt`: the ciphertexts of a member are encryptions of what it shows.

## Main results

- `Encoded.groupFetchMembers_ok_iff`: a fetch gives back exactly what was encrypted.
- `roster_transport_iff`: honest lists arrive through a buffer of the published size except the
  longest ones, and no list with another entry arrives.
-/

namespace Geryon

variable {S P π : Type}

/-! ## The server -/

/-- `struct gy_group_server_member`. -/
structure GroupServerMember where
  uidCt : Bytes UInt8
  pkCt : Option (Bytes UInt8)
  role : UInt8
  hasProfileKey : UInt8

section Server

variable (tier : GroupTier S P UInt8 π)

/-- `ct2_decode`. -/
def ct2Decode (b : Bytes UInt8) : Except GyErr (Bytes UInt8 × Bytes UInt8) :=
  if b.length ≠ 2 * tier.pointLen then .error .verify
  else .ok (b.take tier.pointLen, b.drop tier.pointLen)

/-- `gy_group_uid_ct_decode`. -/
def gyGroupUidCtDecode (b : Bytes UInt8) : Except GyErr (GroupUidCt (Bytes UInt8)) := do
  let (e1, e2) ← ct2Decode tier b
  return ⟨e1, e2⟩

/-- `gy_group_pk_ct_decode`. -/
def gyGroupPkCtDecode (b : Bytes UInt8) : Except GyErr (GroupPkCt (Bytes UInt8)) := do
  let (e1, e2) ← ct2Decode tier b
  return ⟨e1, e2⟩

/-- One pass of the loop of `gy_group_server_member_list_encode`. -/
def serverMemberCt (m : GroupServerMember) : Except GyErr (GroupMemberCt (Bytes UInt8)) := do
  let uidCt ← gyGroupUidCtDecode tier m.uidCt
  if m.hasProfileKey = 0 then return ⟨uidCt, none, m.role⟩
  else
    match m.pkCt with
    | none => .error .arg
    | some b => do
      let pkCt ← gyGroupPkCtDecode tier b
      return ⟨uidCt, some pkCt, m.role⟩

end Server

/-- `gy_group_server_member_list_encode`: `tier` is none for a suite without a proof group, `out` is
the capacity of the caller's buffer, none for a size query. -/
def gyGroupServerMemberListEncode (tier : Option (GroupTier S P UInt8 π))
    (members : List GroupServerMember) (out : Option Nat) :
    Except GyErr (Emitted (Bytes UInt8)) :=
  match tier with
  | none => .error .arg
  | some tier =>
    let n := members.length
    if groupMaxEntries < n then .error .toolong
    else do
      let cts ← members.mapM' (serverMemberCt tier)
      -- the scratch size of the source
      let need := 3 + n * (2 + 4 * tier.pointLen) + 16
      let scratch ← gyGroupMemberListEncode tier need cts
      emit scratch scratch.length out

/-- `GY_GROUP_MEMBER_LIST_MAX_255`. -/
def groupMemberListMax255 : Nat := 3 + groupMaxEntries * 130

/-- `GY_GROUP_MEMBER_LIST_MAX_448`. -/
def groupMemberListMax448 : Nat := 3 + groupMaxEntries * 226

/-- `GY_GROUP_ROLE_COUNT`. -/
def groupRoleCount : UInt8 := 2

/-- The published size of the list in a tier. -/
def GroupTier.memberListMax (tier : GroupTier S P UInt8 π) : Nat :=
  if tier.desc.suiteId = 1 then groupMemberListMax255 else groupMemberListMax448

section Sizes

variable {tier : GroupTier S P UInt8 π}

/-- Two halves of the width of a point are taken apart again. -/
theorem ct2Decode_append {e1 e2 : Bytes UInt8} (h1 : e1.length = tier.pointLen)
    (h2 : e2.length = tier.pointLen) : ct2Decode tier (e1 ++ e2) = .ok (e1, e2) := by
  have hlen : (e1 ++ e2).length = 2 * tier.pointLen := by
    rw [List.length_append, h1, h2, Nat.two_mul]
  rw [ct2Decode, if_neg (not_not_intro hlen), List.take_left' h1, List.drop_left' h1]

/-- What the server does with entries it could take apart. -/
theorem gyGroupServerMemberListEncode_eq {members : List GroupServerMember}
    {es : List (GroupMemberCt (Bytes UInt8))} (hes : members.mapM' (serverMemberCt tier) = .ok es)
    (hok : ∀ e ∈ es, MemberEntryOk tier e) (hn : members.length ≤ groupMaxEntries) (cap : Nat) :
    gyGroupServerMemberListEncode (some tier) members (some cap) =
      if cap < groupObjHdrLen + 2 + members.length * tier.entryLen then .error .toolong
      else .ok (.bytes (tier.objHdr .memberList ++
        (be16Put (UInt16.ofNat es.length) ++ es.flatMap (putMemberEntry tier)))) := by
  have hlen : members.length = es.length := (Except.mapM'_eq_ok_iff.1 hes).length_eq
  -- the scratch buffer is large enough for the count, which its size does not name
  have hneed : groupObjHdrLen + 2 + es.length * tier.entryLen ≤
      3 + es.length * (2 + 4 * tier.pointLen) + 16 := by
    rw [GroupTier.entryLen, groupObjHdrLen]
    omega
  have hlist := (gyGroupMemberListEncode_ok_iff hok (hlen ▸ hn)).2 ⟨hneed, rfl⟩
  have hwidth : (tier.objHdr .memberList ++
      (be16Put (UInt16.ofNat es.length) ++ es.flatMap (putMemberEntry tier))).length =
        groupObjHdrLen + 2 + es.length * tier.entryLen := by
    rw [List.length_append, List.length_append, length_be16Put, length_flatMap_putMemberEntry hok,
      Nat.add_assoc]
    rfl
  rw [gyGroupServerMemberListEncode]
  dsimp only
  rw [if_neg (not_lt.2 hn), hes, Except.ok_bind, hlen, hlist, Except.ok_bind, emit, hwidth]

/-- The published size has room for the header, the count and all entries but one. -/
theorem GroupTier.Published.memberListMax_lt_iff (hp : tier.Published) {n : Nat} :
    tier.memberListMax < groupObjHdrLen + 2 + n * tier.entryLen ↔ groupMaxEntries ≤ n := by
  rw [GroupTier.memberListMax, GroupTier.entryLen, groupObjHdrLen, groupMaxEntries]
  rcases hp with ⟨hs, hpoint, -⟩ | ⟨hs, hpoint, -⟩
  · rw [if_pos hs, hpoint, groupMemberListMax255, groupMaxEntries]
    omega
  · rw [if_neg (by rw [hs]; decide), hpoint, groupMemberListMax448, groupMaxEntries]
    omega

end Sizes

/-! ## The custodian -/

namespace Encoded

/-- What the stack holds while an entry is decrypted. -/
abbrev MemberScratch := UidScratch × List (ProfileKey UInt8)

section Fetch

variable (tier : GroupTier S P UInt8 π) (ops : PointOps S)

/-- One pass of the loop of `gy_group_fetch_members`. -/
def memberDecrypt (sp : GroupSecretParams S) (mem : MemberScratch)
    (e : GroupMemberCt (Bytes UInt8)) : Except GyErr (GroupMember UInt8) := do
  let (rc, uid) := gyGroupUidDecrypt tier ops sp mem.1 e.uidCt
  rc
  match e.pkCt with
  | none => return ⟨uid, none, e.role⟩
  | some ct => do
    let (rc, pk) := gyGroupPkDecrypt tier ops sp mem.2 ct uid
    rc
    return ⟨uid, some pk, e.role⟩

/-- `gy_group_fetch_members` into room for `cap` entries. -/
def gyGroupFetchMembers (sp : GroupSecretParams S) (mem : Nat → MemberScratch)
    (entries : List (GroupMemberCt (Bytes UInt8))) (cap : Nat) :
    Except GyErr (List (GroupMember UInt8)) :=
  if groupMaxEntries < entries.length ∨ cap < entries.length then .error .arg
  else entries.zipIdx.mapM' fun e => memberDecrypt tier ops sp (mem e.2) e.1

end Fetch

section Call

variable [Field S] [AddCommGroup P] [Module S P]

/-- `gy_custodian_group_fetch_members` on the bytes of a list: `max` is the capacity of the caller's
view in entries, none for a count query. -/
def groupFetchMembers (c : GroupHandle S P UInt8 π) (ops : PointOps S) (gid : GroupId UInt8)
    (wire : Bytes UInt8) (mem : Nat → MemberScratch) (max : Option Nat) :
    GroupM S P UInt8 π (Emitted (List (GroupMember UInt8))) := do
  let tier ← Cmd.lift (groupGuard c)
  let (_, sp, _) ← loadGroup tier gid
  match gyGroupMemberListDecode tier groupMaxEntries wire with
  | .error _ => Cmd.fail .verify
  | .ok entries =>
    match max with
    -- the size query answers before anything is decrypted
    | none => return .size entries.length
    | some cap =>
      if cap < entries.length then Cmd.fail .toolong
      else
        match gyGroupFetchMembers tier ops sp mem entries entries.length with
        | .error _ => Cmd.fail .verify
        | .ok members => return .bytes members

end Call

end Encoded

/-! ## Honest entries -/

section Honest

variable (tier : GroupTier S P UInt8 π) (ops : PointOps S) (sp : GroupSecretParams S)

/-- The ciphertexts of an entry are the encryption of what a member shows. -/
structure HonestCt (e : GroupMemberCt (Bytes UInt8)) (v : GroupMember UInt8) : Prop where
  role : e.role = v.role
  uid : Encoded.gyGroupUidEncrypt tier ops sp v.uid = .ok e.uidCt
  profileKey : Option.Rel (fun ct pk => Encoded.gyGroupPkEncrypt tier ops sp pk v.uid = .ok ct)
    e.pkCt v.profileKey

/-- What the server is handed for a member holds encryptions of what the member shows, and is
flagged as having a profile key exactly if it has one. -/
structure Honest (m : GroupServerMember) (v : GroupMember UInt8) : Prop where
  role : m.role = v.role
  uid : ∃ ct, Encoded.gyGroupUidEncrypt tier ops sp v.uid = .ok ct ∧ m.uidCt = ct.eA1 ++ ct.eA2
  flag : m.hasProfileKey = 0 ↔ v.profileKey = none
  profileKey : ∀ pk ∈ v.profileKey, ∃ ct,
    Encoded.gyGroupPkEncrypt tier ops sp pk v.uid = .ok ct ∧ m.pkCt = some (ct.eB1 ++ ct.eB2)

end Honest

/-! ## Opening one entry -/

section Points

variable [Field S] [AddCommGroup P] [Module S P] {tier : GroupTier S P UInt8 π} {ops : PointOps S}
  {sp : GroupSecretParams S}

/-- The four secrets of a group are not zero. -/
structure GroupSecretParams.Nonzero (sp : GroupSecretParams S) : Prop where
  a1 : sp.a1 ≠ 0
  a2 : sp.a2 ≠ 0
  b1 : sp.b1 ≠ 0
  b2 : sp.b2 ≠ 0

namespace Encoded

variable (he : ops.Encodes tier) (hm : ops.Inverts tier) (hsp : sp.Nonzero)
include he hm hsp

/-- An entry is opened as the member it was encrypted for. -/
theorem memberDecrypt_of_honest {e : GroupMemberCt (Bytes UInt8)} {v : GroupMember UInt8}
    (h : HonestCt tier ops sp e v) (mem : MemberScratch) :
    memberDecrypt tier ops sp mem e = .ok v := by
  obtain ⟨uidCt, pkCt, role⟩ := e
  obtain ⟨uid, profileKey, role'⟩ := v
  obtain ⟨hrole, huid, hpk⟩ := h
  dsimp only at hrole huid hpk
  subst hrole
  rw [memberDecrypt, (gyGroupUidDecrypt_iff_encrypt he hm hsp.a1 hsp.a2).2 huid]
  cases hpk with
  | none => rfl
  | some hpk =>
    dsimp only
    rw [(gyGroupPkDecrypt_iff_encrypt he hm hsp.b1 hsp.b2).2 hpk]
    rfl

/-- An entry that is the encryption of no member is not opened. -/
theorem memberDecrypt_other {e : GroupMemberCt (Bytes UInt8)}
    (h : ∀ v, ¬ HonestCt tier ops sp e v) (mem : MemberScratch) :
    memberDecrypt tier ops sp mem e = .error .verify := by
  obtain ⟨uidCt, pkCt, role⟩ := e
  by_cases huid : ∃ uid, gyGroupUidEncrypt tier ops sp uid = .ok uidCt
  · obtain ⟨uid, huid⟩ := huid
    rw [memberDecrypt, (gyGroupUidDecrypt_iff_encrypt he hm hsp.a1 hsp.a2).2 huid]
    -- the user id is honest, so the profile key is there and is not
    cases pkCt with
    | none => exact absurd ⟨rfl, huid, .none⟩ (h ⟨uid, none, role⟩)
    | some ct =>
      dsimp only
      rw [gyGroupPkDecrypt_other he hm hsp.b1 hsp.b2]
      · rfl
      · intro pk hpk
        exact h ⟨uid, some pk, role⟩ ⟨rfl, huid, .some hpk⟩
  · rw [memberDecrypt, gyGroupUidDecrypt_other he hm hsp.a1 hsp.a2]
    · rfl
    · intro uid hct
      exact huid ⟨uid, hct⟩

theorem memberDecrypt_iff {e : GroupMemberCt (Bytes UInt8)} {v : GroupMember UInt8}
    {mem : MemberScratch} :
    memberDecrypt tier ops sp mem e = .ok v ↔ HonestCt tier ops sp e v := by
  constructor
  · intro h
    by_cases hno : ∀ v, ¬ HonestCt tier ops sp e v
    · rw [memberDecrypt_other he hm hsp hno] at h
      cases h
    · obtain ⟨v', hv'⟩ := not_forall_not.1 hno
      rw [memberDecrypt_of_honest he hm hsp hv'] at h
      obtain rfl := Except.ok.inj h
      exact hv'
  · exact fun h => memberDecrypt_of_honest he hm hsp h mem

/-! ## Opening a list -/

/-- The loop gives one member for every entry, whatever the stack holds. -/
theorem gyGroupFetchMembers_ok_iff {entries : List (GroupMemberCt (Bytes UInt8))}
    {vs : List (GroupMember UInt8)} {mem : Nat → MemberScratch} {cap : Nat} :
    gyGroupFetchMembers tier ops sp mem entries cap = .ok vs ↔
      entries.length ≤ groupMaxEntries ∧ entries.length ≤ cap ∧
        List.Forall₂ (HonestCt tier ops sp) entries vs := by
  have hloop : entries.zipIdx.mapM' (fun e => memberDecrypt tier ops sp (mem e.2) e.1) = .ok vs ↔
      List.Forall₂ (HonestCt tier ops sp) entries vs := by
    rw [Except.mapM'_eq_ok_iff]
    simp only [memberDecrypt_iff he hm hsp]
    rw [← List.forall₂_map_left_iff, List.zipIdx_map_fst]
  rw [gyGroupFetchMembers]
  split_ifs with hlong
  · constructor
    · intro h
      cases h
    · rintro ⟨hmax, hcap, -⟩
      omega
  · rw [hloop]
    constructor
    · intro h
      exact ⟨by omega, by omega, h⟩
    · exact fun h => h.2.2

/-- An entry that is the encryption of no member fails the loop. -/
theorem gyGroupFetchMembers_other {entries : List (GroupMemberCt (Bytes UInt8))}
    {mem : Nat → MemberScratch} {cap : Nat}
    (h : ∃ e ∈ entries, ∀ v, ¬ HonestCt tier ops sp e v) :
    ∃ err, gyGroupFetchMembers tier ops sp mem entries cap = .error err := by
  cases hrun : gyGroupFetchMembers tier ops sp mem entries cap with
  | error err => exact ⟨err, rfl⟩
  | ok vs =>
    obtain ⟨-, -, hall⟩ := (gyGroupFetchMembers_ok_iff he hm hsp).1 hrun
    obtain ⟨e, hmem, hno⟩ := h
    obtain ⟨v, -, hv⟩ := hall.flip.exists_left hmem
    exact absurd hv (hno v)

end Encoded

/-! ## The call -/

/-- The custodian is unlocked, works in the tier and finds the key of the group in its store. -/
def HoldsKey (tier : GroupTier S P UInt8 π) (sp : GroupSecretParams S)
    (c : GroupHandle S P UInt8 π) (gid : GroupId UInt8) (st : GroupStore S P UInt8 π) : Prop :=
  groupGuard c = .ok tier ∧ ∃ gens pp, (loadGroup tier gid st).1 = .ok (gens, sp, pp)

namespace Encoded

variable {c : GroupHandle S P UInt8 π} {gid : GroupId UInt8} {st : GroupStore S P UInt8 π}
  {b : Bytes UInt8} {es : List (GroupMemberCt (Bytes UInt8))} {mem : Nat → MemberScratch}
  {cap : Nat}

/-- With the key at hand a call is left with the list and the loop. -/
theorem groupFetchMembers_of_holds (hc : HoldsKey tier sp c gid st)
    (hes : gyGroupMemberListDecode tier groupMaxEntries b = .ok es) (hcap : es.length ≤ cap) :
    (groupFetchMembers c ops gid b mem (some cap) st).1 =
      match gyGroupFetchMembers tier ops sp mem es es.length with
      | .error _ => .error .verify
      | .ok members => .ok (.bytes members) := by
  obtain ⟨hguard, gens, pp, hload⟩ := hc
  have hrun : loadGroup tier gid st = (.ok (gens, sp, pp), (loadGroup tier gid st).2) :=
    Prod.ext hload rfl
  rw [groupFetchMembers, hguard, Cmd.lift_ok_bind_apply, Cmd.bind_apply_of_ok hrun]
  dsimp only
  rw [hes]
  dsimp only
  rw [if_neg (not_lt.2 hcap)]
  cases gyGroupFetchMembers tier ops sp mem es es.length with
  | error err => rfl
  | ok members => rfl

variable (he : ops.Encodes tier) (hm : ops.Inverts tier) (hsp : sp.Nonzero)
include he hm hsp

/-- A list of honest entries is opened as the members, in order. -/
theorem groupFetchMembers_of_honest (hc : HoldsKey tier sp c gid st)
    (hes : gyGroupMemberListDecode tier groupMaxEntries b = .ok es) (hcap : es.length ≤ cap)
    {vs : List (GroupMember UInt8)} (hvs : List.Forall₂ (HonestCt tier ops sp) es vs) :
    (groupFetchMembers c ops gid b mem (some cap) st).1 = .ok (.bytes vs) := by
  have hlen := (gyGroupMemberListDecode_ok_iff.1 hes).1.length_le
  rw [groupFetchMembers_of_holds hc hes hcap,
    (gyGroupFetchMembers_ok_iff he hm hsp).2 ⟨hlen, le_refl _, hvs⟩]

/-- One entry that is not honest fails the call. -/
theorem groupFetchMembers_other (hc : HoldsKey tier sp c gid st)
    (hes : gyGroupMemberListDecode tier groupMaxEntries b = .ok es) (hcap : es.length ≤ cap)
    (hbad : ∃ e ∈ es, ∀ v, ¬ HonestCt tier ops sp e v) :
    (groupFetchMembers c ops gid b mem (some cap) st).1 = .error .verify := by
  have hfail : ∃ err, gyGroupFetchMembers tier ops sp mem es es.length = .error err :=
    gyGroupFetchMembers_other he hm hsp hbad
  obtain ⟨err, herr⟩ := hfail
  rw [groupFetchMembers_of_holds hc hes hcap, herr]

end Encoded

/-! ## Assembling an honest list -/

section Assemble

variable (he : ops.Encodes tier) (hm : ops.Inverts tier) (hsp : sp.Nonzero)
include he hm hsp

/-- The server takes an honest member apart into its ciphertexts. -/
theorem Honest.serverMemberCt {m : GroupServerMember} {v : GroupMember UInt8}
    (h : Honest tier ops sp m v) (hrole : m.role ≤ groupRoleMax) :
    ∃ e, serverMemberCt tier m = .ok e ∧ MemberEntryOk tier e ∧ HonestCt tier ops sp e v := by
  obtain ⟨mUid, mPk, role, flag⟩ := m
  obtain ⟨uid, profileKey, role'⟩ := v
  obtain ⟨hr, ⟨ct, hct, hmUid⟩, hflag, hpk⟩ := h
  dsimp only at hrole hr hct hmUid hflag hpk
  subst hr hmUid
  have hu1 : ct.eA1.length = tier.pointLen := by
    obtain ⟨m2, -, rfl⟩ := (Encoded.gyGroupUidEncrypt_iff he hm hsp.a1 hsp.a2).1 hct
    exact he.length _
  have hu2 : ct.eA2.length = tier.pointLen := by
    obtain ⟨m2, -, rfl⟩ := (Encoded.gyGroupUidEncrypt_iff he hm hsp.a1 hsp.a2).1 hct
    exact he.length _
  have hdec : gyGroupUidCtDecode tier (ct.eA1 ++ ct.eA2) = .ok ct := by
    rw [gyGroupUidCtDecode, ct2Decode_append hu1 hu2]
    rfl
  rw [Geryon.serverMemberCt, hdec, Except.ok_bind]
  cases profileKey with
  | none =>
    rw [if_pos (hflag.2 rfl)]
    refine ⟨_, rfl, ⟨hrole, hu1, hu2, ?_⟩, rfl, hct, .none⟩
    rintro _ ⟨⟩
  | some pk =>
    obtain ⟨ct', hct', rfl⟩ := hpk pk rfl
    have hlen : ct'.eB1.length = tier.pointLen ∧ ct'.eB2.length = tier.pointLen := by
      obtain ⟨m4, -, rfl⟩ := (Encoded.gyGroupPkEncrypt_iff he hm hsp.b1 hsp.b2).1 hct'
      exact ⟨he.length _, he.length _⟩
    have hdec' : gyGroupPkCtDecode tier (ct'.eB1 ++ ct'.eB2) = .ok ct' := by
      rw [gyGroupPkCtDecode, ct2Decode_append hlen.1 hlen.2]
      rfl
    rw [if_neg (mt hflag.1 (by simp))]
    dsimp only
    rw [hdec']
    refine ⟨_, rfl, ⟨hrole, hu1, hu2, ?_⟩, rfl, hct, .some hct'⟩
    rintro _ ⟨⟩
    exact hlen

/-- And a list of honest members into a list of honest entries. -/
theorem serverMemberCts_of_honest {members : List GroupServerMember}
    {vs : List (GroupMember UInt8)} (h : List.Forall₂ (Honest tier ops sp) members vs)
    (hrole : ∀ m ∈ members, m.role ≤ groupRoleMax) :
    ∃ es, members.mapM' (serverMemberCt tier) = .ok es ∧ (∀ e ∈ es, MemberEntryOk tier e) ∧
      List.Forall₂ (HonestCt tier ops sp) es vs := by
  induction h with
  | nil => exact ⟨[], rfl, by simp, .nil⟩
  | @cons m v members vs hv _ ih =>
    rw [List.forall_mem_cons] at hrole
    obtain ⟨e, hme, hok, hev⟩ := hv.serverMemberCt he hm hsp hrole.1
    obtain ⟨es, hes, hoks, hvs⟩ := ih hrole.2
    refine ⟨e :: es, ?_, List.forall_mem_cons.2 ⟨hok, hoks⟩, .cons hev hvs⟩
    rw [List.mapM'_cons, hme, Except.ok_bind, hes]
    rfl

end Assemble

/-- An honest list arrives through a buffer of the published size, for every custodian that holds
the key, exactly if it is not of the greatest length. A list with an entry that encrypts no member
is rejected, whoever has assembled it. -/
theorem roster_transport_iff (he : ops.Encodes tier) (hm : ops.Inverts tier) (hp : tier.Published)
    (hsp : sp.Nonzero) :
    (∀ (members : List GroupServerMember) (vs : List (GroupMember UInt8)),
      List.Forall₂ (Honest tier ops sp) members vs → members.length ≤ groupMaxEntries →
      (∀ m ∈ members, m.role < groupRoleCount) →
      ((∃ b, gyGroupServerMemberListEncode (some tier) members (some tier.memberListMax) =
          .ok (.bytes b) ∧
        ∀ c gid st mem max, HoldsKey tier sp c gid st → members.length ≤ max →
          (Encoded.groupFetchMembers c ops gid b mem (some max) st).1 = .ok (.bytes vs)) ↔
        members.length < groupMaxEntries)) ∧
    ∀ b es, gyGroupMemberListDecode tier groupMaxEntries b = .ok es →
      (∃ e ∈ es, ∀ v, ¬ HonestCt tier ops sp e v) →
      ∀ c gid st mem max, HoldsKey tier sp c gid st → es.length ≤ max →
        (Encoded.groupFetchMembers c ops gid b mem (some max) st).1 = .error .verify := by
  constructor
  · intro members vs hvs hn hrole
    have hrole' : ∀ m ∈ members, m.role ≤ groupRoleMax := by
      intro m hmem
      have hlt := UInt8.lt_iff_toNat_lt.1 (hrole m hmem)
      exact UInt8.le_iff_toNat_le.2 (Nat.le_of_lt_succ hlt)
    obtain ⟨es, hes, hok, hhonest⟩ := serverMemberCts_of_honest he hm hsp hvs hrole'
    have hlen : members.length = es.length := (Except.mapM'_eq_ok_iff.1 hes).length_eq
    rw [gyGroupServerMemberListEncode_eq hes hok hn]
    constructor
    · rintro ⟨b, hb, -⟩
      by_contra hlong
      rw [if_pos (hp.memberListMax_lt_iff.2 (not_lt.1 hlong))] at hb
      cases hb
    · intro hlt
      rw [if_neg (mt hp.memberListMax_lt_iff.1 (not_le.2 hlt))]
      refine ⟨_, rfl, ?_⟩
      intro c gid st mem max hc hmax
      have hdec := gyGroupMemberListDecode_ok_iff.2 ⟨⟨hlen ▸ hn, hlen ▸ hn, hok⟩, rfl⟩
      exact Encoded.groupFetchMembers_of_honest he hm hsp hc hdec (hlen ▸ hmax) hhonest
  · intro b es hes hbad c gid st mem max hc hmax
    exact Encoded.groupFetchMembers_other he hm hsp hc hes hmax hbad

end Points

namespace ByteGroup

open GroupSample (zq)

/-- The secrets that are derived from every master key. -/
def ones : GroupSecretParams GroupSample.Zq := ⟨1, 1, 1, 1⟩

theorem ones_nonzero : ones.Nonzero := ⟨by decide, by decide, by decide, by decide⟩

/-- The identifier of the group. -/
def gid : GroupId UInt8 := zeroBlock groupIdLen

/-- An unlocked custodian. -/
def custodian :
    GroupHandle GroupSample.Zq GroupSample.Zq UInt8 (IdealProof GroupSample.Zq UInt8) :=
  ⟨some tier, true, [], none⟩

/-- A store that holds the master key of the group. -/
def store : GroupStore GroupSample.Zq GroupSample.Zq UInt8 (IdealProof GroupSample.Zq UInt8) :=
  ⟨fun
    | .masterKey _ => some (1, zeros 32)
    | _ => none, []⟩

theorem holdsKey : HoldsKey tier ones custodian gid store :=
  ⟨rfl, tier.gens, gyGroupPublicDerive tier.gens ones, rfl⟩

/-- An administrator with a profile key, as the server holds it and as it is shown. -/
def member : GroupServerMember × GroupMember UInt8 :=
  (⟨enc 1 ++ enc (zq 5), some (enc (zq 2) ++ enc (zq 6)), 1, 1⟩,
    ⟨uidOf 4, some (pkOf 4 true), 1⟩)

/-- An invited member. -/
def invited : GroupServerMember × GroupMember UInt8 :=
  (⟨enc 1 ++ enc (zq 6), none, 0, 0⟩, ⟨uidOf (zq 5), none, 0⟩)

theorem member_honest : Honest tier ops ones member.1 member.2 where
  role := rfl
  uid := ⟨⟨enc 1, enc 5⟩, rfl, rfl⟩
  flag := by decide
  profileKey := by
    rintro _ ⟨⟩
    exact ⟨⟨enc 2, enc 6⟩, rfl, rfl⟩

theorem invited_honest : Honest tier ops ones invited.1 invited.2 where
  role := rfl
  uid := ⟨⟨enc 1, enc 6⟩, rfl, rfl⟩
  flag := by decide
  profileKey := by rintro _ ⟨⟩

/-- An invited member whose second half is no point. -/
def garbled : GroupMemberCt (Bytes UInt8) :=
  ⟨⟨enc 1, List.replicate 32 255⟩, none, 0⟩

/-- The list of that member. -/
def garbledList : Bytes UInt8 :=
  tier.objHdr .memberList ++
    (be16Put (UInt16.ofNat [garbled].length) ++ [garbled].flatMap (putMemberEntry tier))

theorem garbledList_decode :
    gyGroupMemberListDecode tier groupMaxEntries garbledList = .ok [garbled] := by
  refine gyGroupMemberListDecode_ok_iff.2 ⟨⟨by decide, by decide, ?_⟩, rfl⟩
  rw [List.forall_mem_singleton]
  exact ⟨by decide, rfl, rfl, by rintro _ ⟨⟩⟩

theorem garbled_other (v : GroupMember UInt8) : ¬ HonestCt tier ops ones garbled v := by
  intro h
  obtain ⟨m2, -, hct⟩ := (Encoded.gyGroupUidEncrypt_iff ops_encodes ops_inverts ones_nonzero.a1
    ones_nonzero.a2).1 h.uid
  have htail : List.replicate 31 (255 : UInt8) = zeros 31 :=
    congrArg List.tail (GroupUidCt.mk.inj hct).2
  exact absurd htail (by decide)

/-- The two members arrive; the list with the garbled one is rejected. -/
theorem roster_arrives :
    (∃ b, gyGroupServerMemberListEncode (some tier) [member.1, invited.1]
        (some tier.memberListMax) = .ok (.bytes b) ∧
      ∀ mem, (Encoded.groupFetchMembers custodian ops gid b mem (some 2) store).1 =
        .ok (.bytes [member.2, invited.2])) ∧
    ∀ mem, (Encoded.groupFetchMembers custodian ops gid garbledList mem (some 1) store).1 =
      .error .verify := by
  obtain ⟨harrive, hreject⟩ :=
    roster_transport_iff ops_encodes ops_inverts tier_published ones_nonzero
  constructor
  · obtain ⟨b, hb, hfetch⟩ := (harrive [member.1, invited.1] [member.2, invited.2]
      (.cons member_honest (.cons invited_honest .nil)) (by decide) (by decide)).2 (by decide)
    exact ⟨b, hb, fun mem => hfetch custodian gid store mem 2 holdsKey (by decide)⟩
  · intro mem
    exact hreject garbledList [garbled] garbledList_decode
      ⟨garbled, List.mem_singleton_self _, garbled_other⟩ custodian gid store mem 1 holdsKey
      (le_refl 1)

/-- A full group of honest members does not fit the published size. -/
theorem fullRoster_toolong :
    List.Forall₂ (Honest tier ops ones) (List.replicate groupMaxEntries invited.1)
      (List.replicate groupMaxEntries invited.2) ∧
    (∀ m ∈ List.replicate groupMaxEntries invited.1, m.role < groupRoleCount) ∧
    gyGroupServerMemberListEncode (some tier) (List.replicate groupMaxEntries invited.1)
      (some tier.memberListMax) = .error .toolong := by
  have hvs : List.Forall₂ (Honest tier ops ones) (List.replicate groupMaxEntries invited.1)
      (List.replicate groupMaxEntries invited.2) := by
    generalize groupMaxEntries = n
    induction n with
    | zero => exact .nil
    | succ n ih => exact .cons invited_honest ih
  have hrole : ∀ m ∈ List.replicate groupMaxEntries invited.1, m.role = 0 := by
    intro m hm
    rw [List.eq_of_mem_replicate hm]
    rfl
  obtain ⟨es, hes, hok, -⟩ := serverMemberCts_of_honest ops_encodes ops_inverts ones_nonzero hvs
    fun m hm => by rw [hrole m hm]; decide
  refine ⟨hvs, fun m hm => by rw [hrole m hm]; decide, ?_⟩
  rw [gyGroupServerMemberListEncode_eq hes hok (by rw [List.length_replicate])]
  exact if_pos (tier_published.memberListMax_lt_iff.2 (by rw [List.length_replicate]))

end ByteGroup

end Geryon
