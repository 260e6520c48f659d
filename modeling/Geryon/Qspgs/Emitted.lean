import Geryon.Qspgs.Emit
import Geryon.Qspgs.LineCheck
import Geryon.Qspgs.Opened

/-!
# What an edit emits

Inversions of the emission of a core: the objects an edit writes out decode to the core it
assembled, and every entry it builds opens under the key it was built with.

## Main results

* `decodeCore_encoded`, `emitEdited_ok`: what is written out is read back;
* `rebuildMember_run`: the survivors of a rebuild, entry by entry;
* `consBuild_run`: the same for a consolidation.
-/

namespace Geryon

variable {β : Type} [Octet β] [DecidableEq β] [Sodium β] {desc : SuiteDesc β}

/-! ## The objects of a core -/

/-- The parts of a core whose widths no encoder checks have those of the wire. -/
structure QspgsCore.Shaped (desc : SuiteDesc β) (core : QspgsCore β) : Prop where
  gid : core.gid.length = qspgsGidLen
  format : core.formatVersion = qspgsFormatVersion
  saCt : core.saCt.length < 2 ^ 32
  joinCt : core.joinCt.length < 2 ^ 32
  cuid : ∀ m ∈ core.members, m.cuid.length = desc.hashLen
  vkhash : ∀ h ∈ core.vkhash, h.length = desc.hashLen

omit [Octet β] [DecidableEq β] [Sodium β] in
theorem QspgsCore.Wf.shaped {core : QspgsCore β} (h : core.Wf desc) : core.Shaped desc :=
  ⟨h.gid, h.format, h.saCt, h.joinCt, h.cuid, h.vkhash⟩

omit [DecidableEq β] [Sodium β] in
/-- The encoders check the widths that are left, so what they write out is read back. -/
theorem decodeCore_encoded {core : QspgsCore β} {hs ms vs : Bytes β} {hcap mcap vcap : Nat}
    (hcore : core.Shaped desc) (hhdr : gyQspgsHeaderEncode desc core hcap = .ok hs)
    (hmem : gyQspgsMemberListEncode desc core mcap = .ok ms)
    (hvk : gyQspgsVkLstEncode desc core vcap = .ok vs) :
    decodeCore desc hs ms vs = .ok { core with lastVmin := 0 } ∧ core.Wf desc := by
  unfold gyQspgsHeaderEncode at hhdr
  unfold gyQspgsMemberListEncode at hmem
  unfold gyQspgsVkLstEncode at hvk
  split_ifs at hhdr hmem hvk with hcap₁ hmax hmct hcap₂ hvmax hcap₃
  obtain rfl := Except.ok.inj hhdr
  obtain rfl := Except.ok.inj hmem
  obtain rfl := Except.ok.inj hvk
  have hwf : core.Wf desc :=
    { gid := hcore.gid, format := hcore.format, saCt := hcore.saCt, joinCt := hcore.joinCt
      members_le := not_lt.1 hmax
      cuid := hcore.cuid
      mct := by simpa using hmct
      vkhash_le := not_lt.1 hvmax
      vkhash := hcore.vkhash }
  exact ⟨decodeCore_bytes desc hwf, hwf⟩

/-- The core of a bundle, without its signature. -/
def CoreBundle.core (desc : SuiteDesc β) (b : CoreBundle β) : Except GyErr (QspgsCore β) :=
  decodeCore desc b.hdr b.memberList b.vkLst

omit [DecidableEq β] [Sodium β] in
/-- What `emit_edited` writes out decodes to the core it was given. -/
theorem emitEdited_ok [KrMlDsa β] {c : QsCustodian β} {core : QspgsCore β}
    {gkOp skb vkb fet : Bytes β} {i : UInt32} {caps : CoreCaps} {w w' : QsWorld β}
    {b : CoreBundle β} (hcore : core.Shaped c.desc)
    (h : emitEdited c core gkOp skb vkb i caps w = (.ok (b, fet), w')) :
    b.core c.desc = .ok { core with lastVmin := 0 } ∧ gyQspgsDeriveFet c.desc gkOp = .ok fet := by
  unfold emitEdited at h
  obtain ⟨mctx, -, h⟩ := Cmd.lift_bind_eq_ok_iff.1 h
  obtain ⟨hs, hhdr, h⟩ := Cmd.lift_bind_eq_ok_iff.1 h
  obtain ⟨ms, hmem, h⟩ := Cmd.lift_bind_eq_ok_iff.1 h
  obtain ⟨vs, hvk, h⟩ := Cmd.lift_bind_eq_ok_iff.1 h
  obtain ⟨ss, w₁, -, h⟩ := Cmd.bind_eq_ok_iff.1 h
  rw [Cmd.ite_apply] at h
  split at h
  · cases h
  obtain ⟨fet', hfet, h⟩ := Cmd.lift_bind_eq_ok_iff.1 h
  obtain ⟨rfl, rfl⟩ := Prod.ext_iff.1 (Except.ok.inj (congrArg Prod.fst h))
  exact ⟨(decodeCore_encoded hcore hhdr hmem hvk).1, hfet⟩

/-! ## Widths -/

omit [DecidableEq β] [Sodium β] in
theorem length_gyQspgsCuidCommit {uid rcOpen cuid : Bytes β}
    (h : gyQspgsCuidCommit desc uid rcOpen = .ok cuid) : cuid.length = desc.hashLen := by
  unfold gyQspgsCuidCommit wireDomainHash at h
  split at h
  · cases h
  obtain ⟨d, -, h⟩ := Except.bind_eq_ok_iff.1 h
  exact desc.length_hash h

omit [DecidableEq β] [Sodium β] in
theorem length_gyQspgsAttributeHash [KrMlDsa β] {rrs vkb uid h : Bytes β}
    (hh : gyQspgsAttributeHash desc rrs vkb uid = .ok h) : h.length = desc.hashLen := by
  unfold gyQspgsAttributeHash at hh
  obtain ⟨rho, -, hh⟩ := Except.bind_eq_ok_iff.1 hh
  obtain ⟨vkr, -, hh⟩ := Except.bind_eq_ok_iff.1 hh
  unfold gyQspgsVkpsdnHash wireDomainHash at hh
  obtain ⟨d, -, hh⟩ := Except.bind_eq_ok_iff.1 hh
  exact desc.length_hash hh

omit [DecidableEq β] in
/-- A sealed field fits the buffer it was written to. -/
theorem length_gyQspgsFieldSeal_le (haead : AeadOpens β) {aeadId : UInt8}
    {ek gid pt ct : Bytes β} {tag : FieldTag} {cap : Nat} {w w' : QsWorld β}
    (h : gyQspgsFieldSeal desc aeadId ek tag gid pt cap w = (.ok ct, w')) : ct.length ≤ cap := by
  have hlen := (gyQspgsFieldSeal_ok haead h).1.length
  unfold gyQspgsFieldSeal at h
  rw [Cmd.ite_apply] at h
  split at h
  · cases h
  obtain ⟨aad, -, h⟩ := Cmd.lift_bind_eq_ok_iff.1 h
  rw [Cmd.ite_apply] at h
  split at h
  · cases h
  · omega

omit [DecidableEq β] in
/-- A member seen in a core has a user key of the width of the suite. -/
theorem length_uk_of_decrypt [DecidableEq β] {aeadId : UInt8} {ek gid : Bytes β}
    {m : QspgsMember β} {v : MemberView β}
    (h : gyQspgsMemberDecrypt desc aeadId ek gid m = .ok v) :
    v.uk.length = gyQspgsMasterKeyLen desc := by
  obtain ⟨t, ht, rfl⟩ := gyQspgsMemberDecrypt_eq_ok_iff.1 h
  unfold MemberTuple.view
  split
  · exact length_zeros _
  · exact (gyQspgsMemberCtOpen_ok ht.opens).2.key

/-! ## Built entries -/

/-- Where a custodian may take the base key of a user from. -/
def Resolved [KrMlDsa β] (c : QsCustodian β) (accts : List (AcctRef β)) (uid vkb : Bytes β) :
    Prop :=
  ∃ w w', resolveMemberVkb c uid accts w = (.ok vkb, w')

/-- An entry and its key hash stand for a member under the sub-keys of a group key: the entry opens
to the member's tuple, in its form and with its key, and the hash is that of the member's pseudonym
key. A pending entry is never an admin line. -/
structure BuiltFor [KrMlDsa β] (c : QsCustodian β) (aeadId : UInt8) (sub : SubKey β)
    (gid : Bytes β) (accts : List (AcctRef β)) (v : MemberView β) (p : QspgsMember β × Bytes β) :
    Prop where
  holds : ∃ rc, Holds c.desc aeadId sub.ek gid p.1 ⟨v.pending, v.uid, rc, v.uk⟩
  admn : p.1.admn = (!v.pending && v.admn)
  hash : ∃ vkb, Resolved c accts v.uid vkb ∧
    gyQspgsAttributeHash c.desc sub.rrs vkb v.uid = .ok p.2

section Built

variable [KrMlDsa β] {c : QsCustodian β} {aeadId : UInt8} {sub : SubKey β} {gid : Bytes β}
  {accts : List (AcctRef β)}

theorem BuiltFor.length_cuid {v : MemberView β} {p : QspgsMember β × Bytes β}
    (h : BuiltFor c aeadId sub gid accts v p) : p.1.cuid.length = c.desc.hashLen := by
  obtain ⟨rc, hrc⟩ := h.holds
  exact length_gyQspgsCuidCommit hrc.commits

theorem BuiltFor.length_hash {v : MemberView β} {p : QspgsMember β × Bytes β}
    (h : BuiltFor c aeadId sub gid accts v p) : p.2.length = c.desc.hashLen := by
  obtain ⟨vkb, -, hvkb⟩ := h.hash
  exact length_gyQspgsAttributeHash hvkb

/-- The entry built for a member in the form it has. -/
theorem builtFor_of_build (haead : AeadOpens β) {v : MemberView β} {vkb : Bytes β}
    {p : QspgsMember β × Bytes β} {w w' : QsWorld β}
    (hkey : v.uk.length = gyQspgsMasterKeyLen c.desc) (hvkb : Resolved c accts v.uid vkb)
    (hrun : (if v.pending then gyQspgsMemberBuildPending c.desc aeadId sub gid v.uid v.uk vkb
      else gyQspgsMemberBuild c.desc aeadId sub gid v.uid v.uk vkb v.admn) w = (.ok p, w')) :
    BuiltFor c aeadId sub gid accts v p := by
  cases hpend : v.pending with
  | true =>
    rw [hpend, if_pos rfl] at hrun
    obtain ⟨hholds, hadmn, hhash, -⟩ := memberBuildForm_ok haead hkey hrun
    exact ⟨by rw [hpend]; exact hholds, by rw [hadmn, hpend]; rfl, vkb, hvkb, hhash⟩
  | false =>
    rw [hpend, if_neg Bool.false_ne_true] at hrun
    obtain ⟨hholds, hadmn, hhash, -⟩ := memberBuildForm_ok haead hkey hrun
    exact ⟨by rw [hpend]; exact hholds, by rw [hadmn, hpend]; rfl, vkb, hvkb, hhash⟩

/-- The survivors of a rebuild: every line that does not name the user to remove, in order. -/
theorem rebuildMember_run (haead : AeadOpens β) {core : QspgsCore β} {ek : Bytes β}
    {remove : Option (Bytes β)} {ms : List (QspgsMember β)} {r r' : Rebuilt β} {w w' : QsWorld β}
    (h : ms.foldlM (rebuildMember c core ek sub remove) r w = (.ok r', w')) :
    ∃ vs ps, ms.mapM' (gyQspgsMemberDecrypt c.desc core.aeadId ek core.gid) = .ok vs ∧
      r'.members = r.members ++ ps.map Prod.fst ∧ r'.vkhash = r.vkhash ++ ps.map Prod.snd ∧
      List.Forall₂ (BuiltFor c core.aeadId sub core.gid [])
        (vs.filter fun v => decide (remove ≠ some v.uid)) ps := by
  induction ms generalizing r w with
  | nil =>
    obtain rfl := Except.ok.inj (congrArg Prod.fst h)
    exact ⟨[], [], rfl, by simp, by simp, .nil⟩
  | cons m ms ih =>
    rw [List.foldlM_cons] at h
    obtain ⟨r₁, w₁, h₁, h⟩ := Cmd.bind_eq_ok_iff.1 h
    obtain ⟨vs, ps, hvs, hmem, hvk, hbuilt⟩ := ih h
    unfold rebuildMember at h₁
    obtain ⟨v, hv, h₁⟩ := Cmd.lift_bind_eq_ok_iff.1 h₁
    have hall : (m :: ms).mapM' (gyQspgsMemberDecrypt c.desc core.aeadId ek core.gid) =
        .ok (v :: vs) :=
      Except.mapM'_eq_ok_iff.2 (.cons hv (Except.mapM'_eq_ok_iff.1 hvs))
    rw [Cmd.ite_apply] at h₁
    split at h₁
    -- the line names the user to remove
    · next hrem =>
      obtain rfl := Except.ok.inj (congrArg Prod.fst h₁)
      refine ⟨v :: vs, ps, hall, hmem, hvk, ?_⟩
      rw [List.filter_cons_of_neg (by simpa using hrem)]
      exact hbuilt
    -- the line is rebuilt
    · next hkeep =>
      obtain ⟨vkb, w₂, hvkb, h₁⟩ := Cmd.bind_eq_ok_iff.1 h₁
      obtain ⟨p, w₃, hp, h₁⟩ := Cmd.of_ite_bind_ok h₁
      obtain rfl := Except.ok.inj (congrArg Prod.fst h₁)
      refine ⟨v :: vs, p :: ps, hall, ?_, ?_, ?_⟩
      · rw [hmem, List.map_cons, List.append_assoc]
        rfl
      · rw [hvk, List.map_cons, List.append_assoc]
        rfl
      · rw [List.filter_cons_of_pos (by simpa using hkeep)]
        exact .cons (builtFor_of_build haead (length_uk_of_decrypt hv) ⟨_, _, hvkb⟩ hp) hbuilt

/-- The member an entry of the working set of a consolidation stands for. -/
def ConsWork.view (w : ConsWork β) : MemberView β := ⟨w.uid, w.admn, w.pending, w.key⟩

/-- The base key of a working entry is its user's, and its key has the width of the suite. -/
structure ConsWork.Sound (c : QsCustodian β) (accts : List (AcctRef β))
    (x : ConsWork β) : Prop where
  vkb : Resolved c accts x.uid x.vkb
  key : x.key.length = gyQspgsMasterKeyLen c.desc

/-- The survivors of a consolidation, in order. -/
theorem consBuild_run (haead : AeadOpens β) {core : QspgsCore β} {work : List (ConsWork β)}
    (hwork : ∀ x ∈ work, x.Sound c accts) {r r' : ConsBuilt β} {w w' : QsWorld β}
    (h : work.foldlM (consBuild c core sub) r w = (.ok r', w')) :
    ∃ ps, r'.members = r.members ++ ps.map Prod.fst ∧ r'.vkhash = r.vkhash ++ ps.map Prod.snd ∧
      List.Forall₂ (BuiltFor c core.aeadId sub core.gid accts)
        ((work.filter fun x => !x.removed).map ConsWork.view) ps := by
  induction work generalizing r w with
  | nil =>
    obtain rfl := Except.ok.inj (congrArg Prod.fst h)
    exact ⟨[], by simp, by simp, .nil⟩
  | cons x work ih =>
    rw [List.foldlM_cons] at h
    obtain ⟨r₁, w₁, h₁, h⟩ := Cmd.bind_eq_ok_iff.1 h
    obtain ⟨ps, hmem, hvk, hbuilt⟩ := ih (fun y hy => hwork y (List.mem_cons_of_mem _ hy)) h
    unfold consBuild at h₁
    rw [Cmd.ite_apply] at h₁
    split at h₁
    · next hrem =>
      obtain rfl := Except.ok.inj (congrArg Prod.fst h₁)
      refine ⟨ps, hmem, hvk, ?_⟩
      rw [List.filter_cons_of_neg (by simp [hrem])]
      exact hbuilt
    · next hkeep =>
      obtain ⟨p, w₂, hp, h₁⟩ := Cmd.of_ite_bind_ok h₁
      obtain rfl := Except.ok.inj (congrArg Prod.fst h₁)
      have hx := hwork x List.mem_cons_self
      have hx' : BuiltFor c core.aeadId sub core.gid accts x.view p :=
        builtFor_of_build haead hx.key hx.vkb hp
      refine ⟨p :: ps, ?_, ?_, ?_⟩
      · rw [hmem, List.map_cons, List.append_assoc]
        rfl
      · rw [hvk, List.map_cons, List.append_assoc]
        rfl
      · rw [List.filter_cons_of_pos (by simp [hkeep])]
        exact .cons hx' hbuilt

end Built

end Geryon
