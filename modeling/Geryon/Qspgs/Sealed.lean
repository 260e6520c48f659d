import Geryon.Qspgs.Consolidate

/-!
# What is sealed opens

A field sealed under a group key opens to what was sealed, so a built member entry decrypts to the
user, the form and the key it was built from. The reads of a client on a store whose callbacks
report no failure leave the client as it is.
-/

namespace Geryon

/-- What the group layer relies on of the AEADs: a sealed text is longer by the tag, and opens under
the key, nonce and associated data it was sealed with. -/
def AeadOpens (β : Type) [Sodium β] : Prop :=
  ∀ ⦃a : AeadAlg⦄ ⦃key nonce ad pt ct : Bytes β⦄, Sodium.aeadEncrypt a key nonce ad pt = some ct →
    ct.length = pt.length + a.tagLen ∧ Sodium.aeadDecrypt a key nonce ad ct = some pt

variable {β : Type} [Octet β] [DecidableEq β] [Sodium β] {desc : SuiteDesc β} {aeadId : UInt8}

omit [Octet β] [DecidableEq β] in
/-- What was encrypted is decrypted, into a buffer it fits. -/
theorem gyAeadDecrypt_of_encrypt (haead : AeadOpens β) {cap cap' : Nat}
    {key nonce ad pt ct : Bytes β} (h : gyAeadEncrypt aeadId cap key nonce ad pt = .ok ct)
    (hcap : pt.length ≤ cap') :
    gyAeadDecrypt aeadId cap' key nonce ad ct = .ok pt ∧
      ct.length = pt.length + aeadTagLen aeadId := by
  unfold gyAeadEncrypt at h
  cases ha : aeadAlg aeadId with
  | none =>
    rw [ha] at h
    cases h
  | some a =>
    rw [ha] at h
    dsimp only at h
    split at h
    · cases h
    next hnonce =>
    split at h
    · cases h
    next haes =>
    split at h
    · cases h
    cases henc : Sodium.aeadEncrypt a key nonce ad pt with
    | none =>
      rw [henc] at h
      cases h
    | some c =>
      rw [henc] at h
      obtain rfl := Except.ok.inj h
      obtain ⟨hlen, hdec⟩ := haead henc
      constructor
      · rw [gyAeadDecrypt, ha]
        dsimp only
        rw [if_neg hnonce, if_neg haes, if_neg (by omega), if_neg (by omega), hdec]
      · rw [hlen, aeadTagLen, ha]
        rfl

/-! ## Fields -/

/-- A ciphertext is a sealing of a text: it is longer by nonce and tag, and opens to it. -/
structure Seals (desc : SuiteDesc β) (aeadId : UInt8) (ek : Bytes β) (tag : FieldTag)
    (gid pt ct : Bytes β) : Prop where
  length : ct.length = aeadNonceLen aeadId + pt.length + aeadTagLen aeadId
  opens : ∀ cap, pt.length ≤ cap → gyQspgsFieldOpen desc aeadId ek tag gid ct cap = .ok pt

/-- Group AEADs have a nonce. -/
theorem aeadNonceLen_pos {aeadId : UInt8} (h : gyQspgsGroupAeadOk aeadId = true) :
    0 < aeadNonceLen aeadId := by
  have hid : aeadId = 1 ∨ aeadId = 3 := by simpa [gyQspgsGroupAeadOk] using h
  rcases hid with rfl | rfl <;> decide

omit [Octet β] [DecidableEq β] [Sodium β] in
/-- What a draw that succeeds gives, and what it costs. -/
theorem gyRandomBytes_ok {n : Nat} {w w' : QsWorld β} {b : Bytes β}
    (h : gyRandomBytes n w = (.ok b, w')) :
    b.length = n ∧ w' = { w with drawn := w.drawn + 1 } := by
  unfold gyRandomBytes at h
  cases hb : w.rnd w.drawn n with
  | none =>
    rw [hb] at h
    cases h
  | some r =>
    rw [hb] at h
    obtain ⟨hr, rfl⟩ := Prod.ext_iff.1 h
    obtain rfl := Except.ok.inj hr
    exact ⟨r.2, rfl⟩

omit [DecidableEq β] in
/-- What sealing a field returns, and that it leaves the store alone. -/
theorem gyQspgsFieldSeal_ok (haead : AeadOpens β) {ek gid pt ct : Bytes β} {tag : FieldTag}
    {cap : Nat} {w w' : QsWorld β}
    (h : gyQspgsFieldSeal desc aeadId ek tag gid pt cap w = (.ok ct, w')) :
    Seals desc aeadId ek tag gid pt ct ∧ w'.store = w.store := by
  unfold gyQspgsFieldSeal at h
  rw [Cmd.ite_apply] at h
  split at h
  · cases h
  next hok =>
  obtain ⟨aad, haad, h⟩ := Cmd.lift_bind_eq_ok_iff.1 h
  rw [Cmd.ite_apply] at h
  split at h
  · cases h
  obtain ⟨nonce, w₁, hnonce, h⟩ := Cmd.bind_eq_ok_iff.1 h
  obtain ⟨c, hc, h⟩ := Cmd.lift_bind_eq_ok_iff.1 h
  obtain ⟨hct, rfl⟩ := Prod.ext_iff.1 h
  obtain rfl := Except.ok.inj hct
  obtain ⟨hnlen, rfl⟩ := gyRandomBytes_ok hnonce
  have hpos := aeadNonceLen_pos (not_not.1 hok)
  have hclen := (gyAeadDecrypt_of_encrypt haead hc le_rfl).2
  refine ⟨⟨?_, fun cap' hcap' => ?_⟩, rfl⟩
  · rw [List.length_append, hnlen, hclen, Nat.add_assoc]
  · have hlen : (nonce ++ c).length = aeadNonceLen aeadId + (pt.length + aeadTagLen aeadId) := by
      rw [List.length_append, hnlen, hclen]
    rw [gyQspgsFieldOpen, if_neg (by omega), if_neg hok, haad, Except.ok_bind,
      if_neg (by omega), List.take_left' hnlen, List.drop_left' hnlen]
    exact (gyAeadDecrypt_of_encrypt haead hc hcap').1

/-! ## Member entries -/

/-- The plaintext of a member tuple. -/
def MemberTuple.pt (t : MemberTuple β) : Bytes β :=
  Octet.ofByte (if t.pending then 1 else 0) :: Octet.ofByte (UInt8.ofNat t.uid.length) ::
    (t.uid ++ t.rcOpen ++ t.key)

/-- The parts of a member tuple have the widths of the suite. -/
structure MemberTuple.Wf (desc : SuiteDesc β) (t : MemberTuple β) : Prop where
  uid : t.uid.length = qspgsUidLen
  rcOpen : t.rcOpen.length = qspgsRcLen
  key : t.key.length = gyQspgsMasterKeyLen desc

omit [DecidableEq β] [Sodium β] in
/-- The size of a member tuple. -/
theorem MemberTuple.Wf.length_pt {t : MemberTuple β} (h : t.Wf desc) :
    t.pt.length = 2 + qspgsUidLen + qspgsRcLen + gyQspgsMasterKeyLen desc := by
  simp only [MemberTuple.pt, List.length_cons, List.length_append, h.uid, h.rcOpen, h.key]
  omega

omit [Octet β] [DecidableEq β] [Sodium β] in
/-- Group keys fit the buffers for them. -/
theorem gyQspgsMasterKeyLen_le_max (desc : SuiteDesc β) :
    gyQspgsMasterKeyLen desc ≤ qspgsMasterKeyMax := by
  unfold gyQspgsMasterKeyLen qspgsMasterKeyMax
  split
  · decide
  · split <;> decide

omit [DecidableEq β] in
/-- A sealed tuple is read back. -/
theorem gyQspgsMemberCtOpen_of_seals {ek gid ct : Bytes β} {t : MemberTuple β}
    (hlen : gyQspgsMasterKeyLen desc ≠ 0) (ht : t.Wf desc)
    (h : Seals desc aeadId ek .member gid t.pt ct) :
    gyQspgsMemberCtOpen desc aeadId ek gid ct = .ok t := by
  have hmax := gyQspgsMasterKeyLen_le_max desc
  have hpt := ht.length_pt
  have hcap : t.pt.length ≤ qspgsMemberPtMax := by
    rw [hpt, qspgsMemberPtMax]
    omega
  have hform : byteAt t.pt 0 = if t.pending then 1 else 0 := by
    cases t with
    | mk pending uid rcOpen key => cases pending <;> simp [MemberTuple.pt, byteAt]
  have huid : byteAt t.pt 1 = qspgsUidLen := by
    simp [MemberTuple.pt, byteAt, ht.uid, qspgsUidLen]
  rw [gyQspgsMemberCtOpen, if_neg hlen, h.opens _ hcap, Except.ok_bind, if_neg (by omega),
    if_neg (by rw [hform]; split <;> omega), if_neg (by rw [huid, hpt]; simp)]
  congr 1
  refine MemberTuple.mk.injEq .. |>.mpr ⟨?_, ?_, ?_, ?_⟩
  · rw [hform]
    cases t.pending <;> rfl
  · exact take_drop_field (t.pt.take 2) (t.rcOpen ++ t.key) (by simp [MemberTuple.pt]) rfl ht.uid
  · exact take_drop_field (t.pt.take 2 ++ t.uid) t.key (by simp [MemberTuple.pt])
      (by simp [MemberTuple.pt, ht.uid, qspgsUidLen]) ht.rcOpen
  · exact drop_field (t.pt.take 2 ++ t.uid ++ t.rcOpen) (by simp [MemberTuple.pt])
      (by simp [MemberTuple.pt, ht.uid, ht.rcOpen, qspgsUidLen, qspgsRcLen])

/-- A line of a member list holds a tuple: it opens to the tuple and its commitment is the one to
the tuple's user. -/
structure Holds (desc : SuiteDesc β) (aeadId : UInt8) (ek gid : Bytes β) (m : QspgsMember β)
    (t : MemberTuple β) : Prop where
  opens : gyQspgsMemberCtOpen desc aeadId ek gid m.mct = .ok t
  commits : gyQspgsCuidCommit desc t.uid t.rcOpen = .ok m.cuid

/-- What a client sees of a tuple: the key of a pending one is left zero. -/
def MemberTuple.view (desc : SuiteDesc β) (t : MemberTuple β) (admn : Bool) : MemberView β :=
  ⟨t.uid, admn, t.pending, if t.pending then zeros (gyQspgsMasterKeyLen desc) else t.key⟩

omit [DecidableEq β] in
/-- A sealed tuple is not empty. -/
theorem Holds.mct_ne {ek gid : Bytes β} {m : QspgsMember β} {t : MemberTuple β}
    (h : Holds desc aeadId ek gid m t) : m.mct.length ≠ 0 := by
  intro h0
  have hopen := h.opens
  unfold gyQspgsMemberCtOpen at hopen
  split at hopen
  · cases hopen
  · rw [gyQspgsFieldOpen, if_pos h0] at hopen
    cases hopen

/-- A line decrypts to the view of the tuple it holds. -/
theorem gyQspgsMemberDecrypt_eq_ok_iff {ek gid : Bytes β} {m : QspgsMember β} {v : MemberView β} :
    gyQspgsMemberDecrypt desc aeadId ek gid m = .ok v ↔
      ∃ t, Holds desc aeadId ek gid m t ∧ v = t.view desc m.admn := by
  constructor
  · intro h
    unfold gyQspgsMemberDecrypt at h
    split at h
    · cases h
    obtain ⟨t, ht, h⟩ := Except.bind_eq_ok_iff.1 h
    obtain ⟨computed, hcommit, h⟩ := Except.bind_eq_ok_iff.1 h
    split at h
    · cases h
    next heq =>
    obtain rfl := not_not.1 heq
    exact ⟨t, ⟨ht, hcommit⟩, (Except.ok.inj h).symm⟩
  · rintro ⟨t, ht, rfl⟩
    rw [gyQspgsMemberDecrypt, if_neg ht.mct_ne, ht.opens, Except.ok_bind, ht.commits,
      Except.ok_bind, if_neg (not_not.2 rfl)]
    rfl

omit [DecidableEq β] in
/-- What building an entry returns: a line that holds the tuple, the key hash, and an unchanged
store. -/
theorem memberBuildForm_ok [KrMlDsa β] (haead : AeadOpens β) {sub : SubKey β}
    {gid uid key vkb h : Bytes β} {pending admn : Bool} {m : QspgsMember β} {w w' : QsWorld β}
    (hkey : key.length = gyQspgsMasterKeyLen desc)
    (hrun : memberBuildForm desc aeadId sub gid pending uid key vkb admn w = (.ok (m, h), w')) :
    (∃ rc, Holds desc aeadId sub.ek gid m ⟨pending, uid, rc, key⟩) ∧ m.admn = admn ∧
      gyQspgsAttributeHash desc sub.rrs vkb uid = .ok h ∧ w'.store = w.store := by
  unfold memberBuildForm at hrun
  rw [Cmd.ite_apply] at hrun
  split at hrun
  · cases hrun
  next hlen =>
  obtain ⟨rc, w₁, hrc, hrun⟩ := Cmd.bind_eq_ok_iff.1 hrun
  obtain ⟨mct, w₂, hmct, hrun⟩ := Cmd.bind_eq_ok_iff.1 hrun
  obtain ⟨cuid, hcuid, hrun⟩ := Cmd.lift_bind_eq_ok_iff.1 hrun
  obtain ⟨vkhash, hvk, hrun⟩ := Cmd.lift_bind_eq_ok_iff.1 hrun
  obtain ⟨hpair, rfl⟩ := Prod.ext_iff.1 hrun
  obtain ⟨rfl, rfl⟩ := Prod.ext_iff.1 (Except.ok.inj hpair)
  obtain ⟨hrclen, rfl⟩ := gyRandomBytes_ok hrc
  unfold memberCtSealForm at hmct
  rw [if_neg hlen, Cmd.ite_apply] at hmct
  split at hmct
  · cases hmct
  next huid =>
  obtain ⟨hseal, hstore⟩ := gyQspgsFieldSeal_ok haead hmct
  have hwf : MemberTuple.Wf desc ⟨pending, uid, rc, key⟩ := ⟨not_not.1 huid, hrclen, hkey⟩
  exact ⟨⟨rc, gyQspgsMemberCtOpen_of_seals hlen hwf hseal, hcuid⟩, rfl, hvk, hstore⟩

/-! ## Acceptances -/

/-- The two halves of an invite key belong together: what is agreed or encapsulated with the one is
recovered with the other, in octets of the widths of the suite. -/
structure JoinPair [JoinKem β] (desc : SuiteDesc β) (ipk : JoinPk β) (isk : JoinSk β) : Prop where
  agrees : ∀ {coins dh : Bytes β} {eph : Keypair β}, JoinKem.curveKeypair desc coins = .ok eph →
    desc.dh eph.sk ipk.curvePk = .ok dh →
      eph.pk.length = desc.curvePkLen ∧ desc.dh isk.curveSk eph.pk = .ok dh
  decaps : ∀ {coins ct ss : Bytes β}, desc.kemEncap ipk.mlkemEk coins = .ok (ct, ss) →
    ct.length = desc.kemCtLen ∧ desc.kemDecap ct isk.mlkemDk = .ok ss

omit [DecidableEq β] in
/-- What is sealed to an invite key opens with its other half. -/
theorem gyQspgsJoinSeal_ok [JoinKem β] (haead : AeadOpens β) {ipk : JoinPk β} {isk : JoinSk β}
    (hpair : JoinPair desc ipk isk) {pt ct : Bytes β} {cap cap' : Nat} {w w' : QsWorld β}
    (h : gyQspgsJoinSeal desc ipk pt cap w = (.ok ct, w')) (hcap : pt.length ≤ cap') :
    gyQspgsJoinOpen desc isk ct cap' = .ok pt := by
  unfold gyQspgsJoinSeal at h
  split at h
  · cases h
  next hmk =>
  split at h
  · cases h
  obtain ⟨ephCoins, w₁, -, h⟩ := Cmd.bind_eq_ok_iff.1 h
  obtain ⟨eph, heph, h⟩ := Cmd.lift_bind_eq_ok_iff.1 h
  obtain ⟨dh, hdh, h⟩ := Cmd.lift_bind_eq_ok_iff.1 h
  obtain ⟨kemCoins, w₂, -, h⟩ := Cmd.bind_eq_ok_iff.1 h
  obtain ⟨⟨kct, ss⟩, hkem, h⟩ := Cmd.lift_bind_eq_ok_iff.1 h
  obtain ⟨key, hkey, h⟩ := Cmd.lift_bind_eq_ok_iff.1 h
  obtain ⟨sealed, henc, h⟩ := Cmd.lift_bind_eq_ok_iff.1 h
  obtain rfl := Except.ok.inj (Prod.ext_iff.1 h).1
  obtain ⟨hpk, hagree⟩ := hpair.agrees heph hdh
  obtain ⟨hct, hdec⟩ := hpair.decaps hkem
  obtain ⟨hopen, hlen⟩ := gyAeadDecrypt_of_encrypt haead henc hcap
  have hhead : (eph.pk ++ kct).length = desc.curvePkLen + desc.kemCtLen := by
    rw [List.length_append, hpk, hct]
  have htag : aeadTagLen (1 : UInt8) = 16 := rfl
  unfold gyQspgsJoinOpen
  rw [if_neg hmk]
  dsimp only
  rw [if_neg (by simp only [List.length_append] at hhead ⊢; omega), List.take_left' hhead,
    List.drop_left' hhead, List.append_assoc, List.take_left' hpk, hagree, Except.ok_bind,
    List.drop_left' hpk, List.take_left' hct, hdec, Except.ok_bind, hkey, Except.ok_bind]
  exact hopen

omit [DecidableEq β] [Sodium β] in
/-- The plaintext of an acceptance of proper widths. -/
theorem length_invitePt {inv : Invite β} (huid : inv.uid.length = qspgsUidLen)
    (huk : inv.uk.length = gyQspgsMasterKeyLen desc) (hed : inv.edSig.length = desc.sigLen)
    (hmldsa : inv.mldsaSig.length = desc.dsaSigLen) :
    (invitePt inv).length =
      1 + qspgsUidLen + gyQspgsMasterKeyLen desc + 2 + desc.sigLen + 2 + desc.dsaSigLen := by
  simp only [invitePt, List.length_cons, List.length_append, length_be16Put]
  omega

omit [DecidableEq β] in
/-- An acceptance that is sealed to an invite key opens to what was sealed. -/
theorem gyQspgsInviteOpen_of_seal [JoinKem β] (haead : AeadOpens β) {ipk : JoinPk β}
    {isk : JoinSk β} (hpair : JoinPair desc ipk isk) {inv : Invite β} {ct : Bytes β} {cap : Nat}
    {w w' : QsWorld β} (huk : inv.uk.length = gyQspgsMasterKeyLen desc) (hsig : desc.sigLen ≤ 114)
    (hdsa : desc.dsaSigLen ≤ 4627)
    (h : gyQspgsInviteSealSigned desc ipk inv cap w = (.ok ct, w')) :
    gyQspgsInviteOpen desc isk ct = .ok inv := by
  unfold gyQspgsInviteSealSigned at h
  split at h
  · cases h
  next huid =>
  split at h
  · cases h
  next hlens =>
  obtain ⟨hed, hmldsa⟩ := not_or.1 hlens
  have huid := not_not.1 huid
  have hed := not_not.1 hed
  have hmldsa := not_not.1 hmldsa
  have hlen := length_invitePt huid huk hed hmldsa
  have hmk := gyQspgsMasterKeyLen_le_max desc
  have hcap : (invitePt inv).length ≤ qspgsInvitePtMax := by
    rw [hlen]
    show _ ≤ 1 + qspgsUidLen + qspgsMasterKeyMax + 2 + 114 + 2 + 4627
    omega
  have hopen := gyQspgsJoinSeal_ok haead hpair h hcap
  have hfirst : byteAt (invitePt inv) 0 = qspgsUidLen := by
    simp [invitePt, byteAt, huid, qspgsUidLen]
  -- the parts of the plaintext, from the front
  have hparts : invitePt inv = Octet.ofByte (UInt8.ofNat inv.uid.length) :: (inv.uid ++ (inv.uk ++
      (be16Put (UInt16.ofNat inv.edSig.length) ++ (inv.edSig ++
        (be16Put (UInt16.ofNat inv.mldsaSig.length) ++ inv.mldsaSig))))) := by
    simp only [invitePt, List.append_assoc]
  have hrest : (invitePt inv).drop (1 + qspgsUidLen) = inv.uk ++
      (be16Put (UInt16.ofNat inv.edSig.length) ++ (inv.edSig ++
        (be16Put (UInt16.ofNat inv.mldsaSig.length) ++ inv.mldsaSig))) := by
    rw [hparts, Nat.add_comm, List.drop_succ_cons, List.drop_left' huid]
  have htail : (invitePt inv).drop (1 + qspgsUidLen + gyQspgsMasterKeyLen desc) =
      be16Put (UInt16.ofNat inv.edSig.length) ++ (inv.edSig ++
        (be16Put (UInt16.ofNat inv.mldsaSig.length) ++ inv.mldsaSig)) := by
    rw [← List.drop_drop, hrest, List.drop_left' huk]
  have hput (n : Nat) : (be16Put (UInt16.ofNat n) : Bytes β).length = 2 := length_be16Put _
  have hedn : (UInt16.ofNat inv.edSig.length).toNat = desc.sigLen := by
    rw [UInt16.toNat_ofNat', hed]
    omega
  have hmldsan : (UInt16.ofNat inv.mldsaSig.length).toNat = desc.dsaSigLen := by
    rw [UInt16.toNat_ofNat', hmldsa]
    omega
  unfold gyQspgsInviteOpen
  dsimp only
  rw [hopen, Except.ok_bind, if_neg (by omega), if_neg (by rw [hfirst]; omega), htail,
    be16Get_be16Put, List.drop_left' (hput _), hedn, List.drop_left' hed, be16Get_be16Put,
    List.drop_left' (hput _), hmldsan, List.take_left' hed, hrest, List.take_left' huk,
    hparts, List.drop_succ_cons, List.drop_zero, List.take_left' huid]
  rw [if_neg (by simp only [List.length_append, hput]; omega), if_neg (by simp [hmldsa])]

/-! ## Reads on a store that reports no failure -/

/-- No callback of the store reports a failure. -/
def QsWorld.Quiet (w : QsWorld β) : Prop := w.store.faults = []

section Quiet

variable {w : QsWorld β}

omit [DecidableEq β] [Sodium β] in
/-- Without faults a load leaves the store. -/
theorem still_loadKeyed {st : QsStore β} (h : st.faults = []) (kind : QRecKind) (id : Bytes β)
    (n : Nat) : Cmd.Still (loadKeyed kind id n) st := by
  unfold loadKeyed
  apply Cmd.Still.bind
  · simp only [Cmd.Still, loadCb, callback, h]
    cases st
    cases h
    rfl
  · intro blob
    split
    · rfl
    split
    · rfl
    split <;> rfl

omit [DecidableEq β] [Sodium β] in
/-- A record of the expected width is read back. -/
theorem loadKeyed_of_record {st : QsStore β} (hq : st.faults = []) {kind : QRecKind}
    {id payload : Bytes β} {n : Nat} (hrec : st.recs kind id = putHdr ++ payload)
    (hlen : payload.length = n) (hmax : qspgsRecHdrLen + n ≤ qspgsRecBlobMax) :
    loadKeyed kind id n st = (.ok payload, st) := by
  have hstill := still_loadKeyed hq kind id n
  have hblob : (putHdr ++ payload : Bytes β).length = qspgsRecHdrLen + n := by
    rw [List.length_append, hlen]
    rfl
  rw [hstill.apply]
  refine Prod.ext ?_ rfl
  simp only [loadKeyed, Cmd.bind_apply, loadCb, callback, hq, hrec, hblob, if_neg (not_lt.2 hmax)]
  rw [if_neg (by rw [qspgsRecHdrLen]; omega), if_neg (by simp [putHdr, byteAt]),
    if_neg (by simp [putHdr])]
  rfl

omit [DecidableEq β] [Sodium β] in
/-- An absent record is reported as such. -/
theorem loadKeyed_of_absent {st : QsStore β} (hq : st.faults = []) {kind : QRecKind}
    {id : Bytes β} (hrec : st.recs kind id = []) (n : Nat) :
    loadKeyed kind id n st = (.error .notFound, st) := by
  rw [(still_loadKeyed hq kind id n).apply]
  refine Prod.ext ?_ rfl
  simp [loadKeyed, Cmd.bind_apply, loadCb, callback, hq, hrec]

omit [Octet β] [DecidableEq β] [Sodium β] in
/-- A store command that leaves the store leaves the world. -/
theorem still_onStore {α : Type} {x : QsM β α} (h : Cmd.Still x w.store) :
    Cmd.Still (onStore x) w := by
  rw [Cmd.Still, onStore, Cmd.zoom_apply, h]

omit [DecidableEq β] [Sodium β] in
/-- Loading the group key leaves the world. -/
theorem still_groupKeyLoad (h : w.Quiet) (gid : Bytes β) (cap : Nat) :
    Cmd.Still (onStore (gyQspgsGroupKeyLoad desc gid cap)) w := by
  apply still_onStore
  unfold gyQspgsGroupKeyLoad
  split
  · rfl
  split
  · rfl
  apply Cmd.Still.bind (still_loadKeyed h _ _ _).attempt
  intro rc
  split
  · exact still_loadKeyed h _ _ _
  · rfl

variable [KrMlDsa β]

omit [DecidableEq β] [Sodium β] in
/-- So does loading the base key. -/
theorem still_baseKeyLoad (h : w.Quiet) (uid : Bytes β) :
    Cmd.Still (onStore (gyQspgsBaseKeyLoad desc uid)) w := by
  apply still_onStore
  unfold gyQspgsBaseKeyLoad
  split
  · rfl
  split
  · rfl
  exact (still_loadKeyed h _ _ _).bind fun _ => rfl

omit [DecidableEq β] [Sodium β] in
/-- So does loading an acquaintance. -/
theorem still_acquaintanceLoad (h : w.Quiet) (uid : Bytes β) :
    Cmd.Still (onStore (gyQspgsAcquaintanceLoad desc uid)) w := by
  apply still_onStore
  unfold gyQspgsAcquaintanceLoad
  split
  · rfl
  split
  · rfl
  exact (still_loadKeyed h _ _ _).bind fun _ => rfl

omit [DecidableEq β] [Sodium β] in
/-- A stored base pair is read back. -/
theorem baseKeyLoad_of_record (h : w.Quiet) {uid skb vkb : Bytes β}
    (huid : uid.length = qspgsUidLen) (hskb : skb.length = KrMlDsa.skbLen desc)
    (hvkb : vkb.length = KrMlDsa.vkbLen desc) (hpos : skb.length ≠ 0 ∧ vkb.length ≠ 0)
    (hmax : qspgsRecHdrLen + (skb.length + vkb.length) ≤ qspgsRecBlobMax)
    (hrec : w.store.recs .baseKey uid = putHdr ++ (skb ++ vkb)) :
    onStore (gyQspgsBaseKeyLoad desc uid) w = (.ok (skb, vkb), w) := by
  refine Prod.ext ?_ (still_baseKeyLoad h uid)
  have hload := loadKeyed_of_record h hrec List.length_append hmax
  rw [hskb, hvkb] at hload hpos
  show (gyQspgsBaseKeyLoad desc uid w.store).1 = .ok (skb, vkb)
  rw [gyQspgsBaseKeyLoad, if_neg (not_not.2 huid), if_neg (not_or.2 hpos),
    Cmd.bind_apply_of_ok hload, Cmd.pure_apply, List.take_left' hskb, List.drop_left' hskb]

omit [DecidableEq β] [Sodium β] in
/-- A stored acquaintance is read back. -/
theorem acquaintanceLoad_of_record (h : w.Quiet) {uid : Bytes β} {a : Acquaintance β}
    (huid : uid.length = qspgsUidLen) (hvkb : a.vkb.length = KrMlDsa.vkbLen desc)
    (hacq : a.acq.length = gyQspgsMasterKeyLen desc) (huk : a.uk.length = gyQspgsMasterKeyLen desc)
    (hpos : a.vkb.length ≠ 0 ∧ a.uk.length ≠ 0)
    (hmax : qspgsRecHdrLen + (8 + a.vkb.length + 2 * a.uk.length) ≤ qspgsRecBlobMax)
    (hrec : w.store.recs .acquaintance uid =
      putHdr ++ (be64Put a.ep ++ a.vkb ++ a.acq ++ a.uk)) :
    onStore (gyQspgsAcquaintanceLoad desc uid) w = (.ok a, w) := by
  refine Prod.ext ?_ (still_acquaintanceLoad h uid)
  have hlen : (be64Put a.ep ++ a.vkb ++ a.acq ++ a.uk).length =
      8 + a.vkb.length + 2 * a.uk.length := by
    simp only [List.length_append, length_be64Put, hacq, huk]
    omega
  have hload := loadKeyed_of_record h hrec hlen hmax
  rw [hvkb, huk] at hload hpos
  show (gyQspgsAcquaintanceLoad desc uid w.store).1 = .ok a
  rw [gyQspgsAcquaintanceLoad, if_neg (not_not.2 huid), if_neg (not_or.2 hpos),
    Cmd.bind_apply_of_ok hload, Cmd.pure_apply]
  have hep : be64Get (be64Put a.ep ++ a.vkb ++ a.acq ++ a.uk) = a.ep := by
    rw [List.append_assoc, List.append_assoc, be64Get_be64Put]
  have hv : ((be64Put a.ep ++ a.vkb ++ a.acq ++ a.uk).drop 8).take (KrMlDsa.vkbLen desc) = a.vkb :=
    take_drop_field (be64Put a.ep) (a.acq ++ a.uk) (by simp) rfl hvkb
  have hq : ((be64Put a.ep ++ a.vkb ++ a.acq ++ a.uk).drop (8 + KrMlDsa.vkbLen desc)).take
      (gyQspgsMasterKeyLen desc) = a.acq :=
    take_drop_field (be64Put a.ep ++ a.vkb) a.uk (by simp) (by simp [hvkb]) hacq
  have hu : (be64Put a.ep ++ a.vkb ++ a.acq ++ a.uk).drop
      (8 + KrMlDsa.vkbLen desc + gyQspgsMasterKeyLen desc) = a.uk :=
    drop_field (be64Put a.ep ++ a.vkb ++ a.acq) rfl (by simp [hvkb, hacq, Nat.add_assoc])
  rw [hep, hv, hq, hu]

variable {c : QsCustodian β}

omit [Sodium β] in
/-- So does resolving the base key of a member. -/
theorem still_resolveMemberVkb (h : w.Quiet) (uid : Bytes β) (accts : List (AcctRef β)) :
    Cmd.Still (resolveMemberVkb c uid accts) w := by
  unfold resolveMemberVkb
  split
  · exact (still_baseKeyLoad h uid).bind fun _ => rfl
  apply (still_acquaintanceLoad h uid).attempt.bind
  intro rc
  split
  · rfl
  · split
    · rfl
    · exact (Cmd.still_lift _ _).bind fun _ => rfl
  · rfl

omit [Sodium β] in
/-- The own base key is the one in the store. -/
theorem resolveMemberVkb_self {uid skb vkb : Bytes β} (accts : List (AcctRef β)) {w' : QsWorld β}
    (hself : uid = c.selfUid)
    (h : onStore (gyQspgsBaseKeyLoad c.desc uid) w = (.ok (skb, vkb), w')) :
    resolveMemberVkb c uid accts w = (.ok vkb, w') := by
  rw [resolveMemberVkb, if_pos hself]
  exact Cmd.bind_apply_of_ok h

omit [Sodium β] in
/-- That of an acquaintance is the one in the record. -/
theorem resolveMemberVkb_known {uid : Bytes β} {a : Acquaintance β} (accts : List (AcctRef β))
    {w' : QsWorld β} (hself : uid ≠ c.selfUid)
    (h : onStore (gyQspgsAcquaintanceLoad c.desc uid) w = (.ok a, w')) :
    resolveMemberVkb c uid accts w = (.ok a.vkb, w') := by
  rw [resolveMemberVkb, if_neg hself, Cmd.attempt_bind_apply, h]
  rfl

omit [Sodium β] in
/-- A key attested at acquaintance is correct. -/
theorem checkUserKey_known {uid : Bytes β} {a : Acquaintance β} (accts : List (AcctRef β))
    (hlen : a.uk.length = gyQspgsMasterKeyLen c.desc)
    (h : onStore (gyQspgsAcquaintanceLoad c.desc uid) w = (.ok a, w)) :
    checkUserKey c uid a.uk accts w = (.ok (), w) := by
  rw [checkUserKey, if_neg (not_not.2 hlen)]
  split
  · rfl
  rw [Cmd.attempt_bind_apply, h]
  simp

omit [Octet β] [DecidableEq β] [Sodium β] [KrMlDsa β] in
/-- A check that is skipped on one return code leaves the world as its parts do. -/
theorem still_unlessFails {α : Type} {code : GyErr} {x : QsC β α} {k : α → QsC β Bool}
    (hx : Cmd.Still x w) (hk : ∀ a, Cmd.Still (k a) w) : Cmd.Still (unlessFails code x k) w := by
  unfold unlessFails
  apply hx.attempt.bind
  intro rc
  split
  · exact hk _
  · split <;> rfl

omit [Sodium β] [KrMlDsa β] in
/-- Opening a commitment leaves the world. -/
theorem still_commitmentOpens (t : MemberTuple β) (payload : Bytes β) :
    Cmd.Still (commitmentOpens desc t payload) w :=
  (Cmd.still_lift _ _).bind fun _ => rfl

omit [KrMlDsa β] in
/-- So does opening the payload of a line. -/
theorem still_checkApxPayload (core : QspgsCore β) (sub : SubKey β) (line : ApxLine β)
    (set : Settings) : Cmd.Still (checkApxPayload c core sub line set) w := by
  unfold checkApxPayload
  split
  · rfl
  · exact still_unlessFails (Cmd.still_lift _ _) fun _ => rfl
  · split
    · rfl
    · exact still_unlessFails (Cmd.still_lift _ _) fun _ => rfl
  · split
    · rfl
    split
    · rfl
    · exact still_unlessFails (Cmd.still_lift _ _) fun t => still_commitmentOpens t _
  · rfl

/-- Checking a line reads the records and nothing else. -/
theorem still_checkApxLine (h : w.Quiet) (core : QspgsCore β) (sub : SubKey β)
    (vmaj vmin : UInt32) (line : ApxLine β) (set : Settings) (accts : List (AcctRef β))
    (cap : Nat) : Cmd.Still (checkApxLine c core sub vmaj vmin line set accts cap) w := by
  unfold checkApxLine
  split
  · split
    · rfl
    split
    · rfl
    apply still_unlessFails (Cmd.still_lift _ _)
    intro t
    apply still_unlessFails (still_resolveMemberVkb h _ _)
    intro vkb
    exact still_unlessFails (Cmd.still_lift _ _) fun _ => still_commitmentOpens t _
  · split
    · rfl
    · apply (Cmd.still_lift _ _).bind
      intro av
      apply still_unlessFails (still_resolveMemberVkb h _ _)
      intro vkb
      exact still_unlessFails (Cmd.still_lift _ _) fun _ => still_checkApxPayload core sub line set

end Quiet

end Geryon
