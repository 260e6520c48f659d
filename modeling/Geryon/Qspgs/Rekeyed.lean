import Geryon.Qspgs.Roster

/-!
# Cores under a fresh key

A rotation rebuilds a core under a fresh group key: every entry, every key hash, the header field
and the join slot. `KeyedUnder` says that all of them are under one key and what they hold.

## Main results

* `rebuildAndEmit_ok`: the core a rotation emits is under the key it stages, throughout;
* `consEmit_ok`: so is the core a consolidation emits, under the key it operates with.
-/

namespace Geryon

variable {β : Type} [Octet β] [DecidableEq β] [KrMlDsa β] [Sodium β]

/-- The join slot of a core: there is none, or it gives holders of the link secret the group key and
the fetch token. -/
def SlotGives (desc : SuiteDesc β) (core : QspgsCore β) (gk fet : Bytes β) : Prop :=
  core.joinCt = [] ∨ ∃ jls jlk, joinlinkKey desc jls = .ok jlk ∧
    Seals desc core.aeadId jlk .joinSlot core.gid (gk ++ fet) core.joinCt

/-- A core under one group key: its entries stand for these members, its header field opens to this
text, and its slot gives this key. -/
structure KeyedUnder (c : QsCustodian β) (accts : List (AcctRef β)) (core : QspgsCore β)
    (gk fet : Bytes β) (sub : SubKey β) (vs : List (MemberView β)) (pt : Bytes β) : Prop where
  subKey : gyQspgsDeriveSubKey c.desc gk = .ok sub
  fetch : gyQspgsDeriveFet c.desc gk = .ok fet
  entries : ∃ ps, core.members = ps.map Prod.fst ∧ core.vkhash = ps.map Prod.snd ∧
    List.Forall₂ (BuiltFor c core.aeadId sub core.gid accts) vs ps
  header : Seals c.desc core.aeadId sub.ek .header core.gid pt core.saCt

section

variable {c : QsCustodian β} {w w' : QsWorld β}

omit [Octet β] [DecidableEq β] [Sodium β] [KrMlDsa β] in
theorem length_groupKeyGen {desc : SuiteDesc β} {gk : Bytes β}
    (h : gyQspgsGroupKeyGen desc w = (.ok gk, w')) : gk.length = gyQspgsMasterKeyLen desc := by
  unfold gyQspgsGroupKeyGen at h
  rw [Cmd.ite_apply] at h
  split at h
  · cases h
  · exact (gyRandomBytes_ok h).1

omit [DecidableEq β] [KrMlDsa β] in
/-- A sealed slot gives the key and the token, and fits its buffer. -/
theorem gyQspgsJoinlinkSeal_ok (haead : AeadOpens β) {desc : SuiteDesc β} {aeadId : UInt8}
    {jls gid gk fet ct : Bytes β} {cap : Nat}
    (h : gyQspgsJoinlinkSeal desc aeadId jls gid gk fet cap w = (.ok ct, w')) :
    (∃ jlk, joinlinkKey desc jls = .ok jlk ∧
      Seals desc aeadId jlk .joinSlot gid (gk ++ fet) ct) ∧ ct.length ≤ cap := by
  unfold gyQspgsJoinlinkSeal at h
  rw [Cmd.ite_apply] at h
  split at h
  · cases h
  obtain ⟨jlk, hjlk, h⟩ := Cmd.lift_bind_eq_ok_iff.1 h
  exact ⟨⟨jlk, hjlk, (gyQspgsFieldSeal_ok haead h).1⟩, length_gyQspgsFieldSeal_le haead h⟩

omit [DecidableEq β] [KrMlDsa β] in
/-- The slot of a rotated core is dropped, or resealed for the holders of the link secret. -/
theorem resealJoinSlot_ok (haead : AeadOpens β) {core : QspgsCore β} {gk fet slot : Bytes β}
    {dropped : Bool} (h : resealJoinSlot c core gk fet w = (.ok (slot, dropped), w')) :
    slot.length ≤ 512 ∧ SlotGives c.desc { core with joinCt := slot } gk fet := by
  obtain ⟨res, w₁, -, h⟩ := Cmd.bind_eq_ok_iff.1 h
  cases res with
  | ok jls =>
    obtain ⟨s, w₂, hseal, h⟩ := Cmd.bind_eq_ok_iff.1 h
    obtain ⟨rfl, -⟩ := Prod.mk.inj (Except.ok.inj (congrArg Prod.fst h))
    obtain ⟨⟨jlk, hjlk, hs⟩, hlen⟩ := gyQspgsJoinlinkSeal_ok haead hseal
    exact ⟨hlen, .inr ⟨jls, jlk, hjlk, hs⟩⟩
  | error e =>
    cases e with
    | notFound =>
      obtain ⟨rfl, -⟩ := Prod.mk.inj (Except.ok.inj (congrArg Prod.fst h))
      exact ⟨Nat.zero_le _, .inl rfl⟩
    | _ => cases h

/-- Built entries have the widths of the suite. -/
theorem lengths_of_built {aeadId : UInt8} {sub : SubKey β} {gid : Bytes β}
    {accts : List (AcctRef β)} {vs : List (MemberView β)} {ps : List (QspgsMember β × Bytes β)}
    (h : List.Forall₂ (BuiltFor c aeadId sub gid accts) vs ps) :
    (∀ m ∈ ps.map Prod.fst, m.cuid.length = c.desc.hashLen) ∧
      ∀ k ∈ ps.map Prod.snd, k.length = c.desc.hashLen := by
  constructor
  · intro m hm
    obtain ⟨p, hp, rfl⟩ := List.mem_map.1 hm
    obtain ⟨v, -, hv⟩ := h.exists_left hp
    exact hv.length_cuid
  · intro k hk
    obtain ⟨p, hp, rfl⟩ := List.mem_map.1 hk
    obtain ⟨v, -, hv⟩ := h.exists_left hp
    exact hv.length_hash

/-- A rotation emits a core that is throughout under the key it stages. -/
theorem rebuildAndEmit_ok (haead : AeadOpens β) {e : EditCtx β} {remove : Option (Bytes β)}
    {caps : CoreCaps} {next : NextCore β} (hcore : e.cur.core.Shaped c.desc) (hb : w.Benign)
    (h : rebuildAndEmit c e remove caps w = (.ok next, w')) :
    ∃ core gk sub vs pt,
      (⟨next.bundle, gk⟩ : GroupVersion β).Opens c.desc core sub ∧
      core.gid = e.cur.core.gid ∧
      loadedKey c.desc w'.store.recs e.cur.core.gid = .ok gk ∧
      e.cur.core.members.mapM' (gyQspgsMemberDecrypt c.desc e.cur.core.aeadId e.cur.sub.ek
        e.cur.core.gid) = .ok vs ∧
      gyQspgsFieldOpen c.desc e.cur.core.aeadId e.cur.sub.ek .header e.cur.core.gid
        e.cur.core.saCt (1 + qsgroupAttrMax) = .ok pt ∧
      KeyedUnder c [] core gk next.fet sub
        (vs.filter fun v => decide (remove ≠ some v.uid)) pt ∧
      SlotGives c.desc core gk next.fet := by
  obtain ⟨gk, w₁, hgk, h⟩ := Cmd.bind_eq_ok_iff.1 h
  obtain ⟨sub, hsub, h⟩ := Cmd.lift_bind_eq_ok_iff.1 h
  obtain ⟨r, w₂, hr, h⟩ := Cmd.bind_eq_ok_iff.1 h
  obtain ⟨vs, ps, hvs, hmem, hvk, hbuilt⟩ := rebuildMember_run haead hr
  rw [Cmd.ite_apply] at h
  split at h
  · cases h
  cases hself : r.self with
  | none =>
    rw [hself] at h
    cases h
  | some selfNew =>
  rw [hself] at h
  obtain ⟨fet, hfet, h⟩ := Cmd.lift_bind_eq_ok_iff.1 h
  obtain ⟨pt, hpt, h⟩ := Cmd.lift_bind_eq_ok_iff.1 h
  obtain ⟨sa, w₃, hseal, h⟩ := Cmd.bind_eq_ok_iff.1 h
  obtain ⟨⟨slot, dropped⟩, w₄, hslot, h⟩ := Cmd.of_ite_bind_ok h
  obtain ⟨⟨bundle, fet'⟩, w₅, hemit, h⟩ := Cmd.bind_eq_ok_iff.1 h
  obtain ⟨_, hstage, h⟩ := onStore_bind_eq_ok_iff.1 h
  obtain ⟨hnext, rfl⟩ := Prod.ext_iff.1 h
  obtain rfl := Except.ok.inj hnext
  have hslot' : slot.length ≤ 512 ∧
      SlotGives c.desc { e.cur.core with joinCt := slot } gk fet := by
    split at hslot
    · obtain ⟨rfl, -⟩ := Prod.mk.inj (Except.ok.inj (congrArg Prod.fst hslot))
      exact ⟨Nat.zero_le _, .inl rfl⟩
    · exact resealJoinSlot_ok haead hslot
  have hshaped : ({ e.cur.core with
      vmaj := e.cur.core.vmaj + 1
      saCt := sa
      joinCt := slot
      members := r.members
      vkhash := r.vkhash
      lastVmin := 0 } : QspgsCore β).Shaped c.desc := by
    refine ⟨hcore.gid, hcore.format, ?_, ?_, ?_, ?_⟩
    · have := length_gyQspgsFieldSeal_le haead hseal
      rw [qsgroupAttrMax] at this
      dsimp only
      omega
    · dsimp only
      omega
    · dsimp only
      rw [hmem]
      exact (lengths_of_built hbuilt).1
    · dsimp only
      rw [hvk]
      exact (lengths_of_built hbuilt).2
  obtain ⟨hbundle, hfet'⟩ := emitEdited_ok hshaped hemit
  obtain rfl := Except.ok.inj (hfet.symm.trans hfet')
  -- everything up to the staging leaves the key records alone
  have hinert : Inert (β := β) (gyQspgsGroupKeyGen c.desc) := inert_groupKeyGen
  have hb₁ := (hinert.of_apply hgk hb).1
  have hb₂ := ((Cmd.Keeps.foldlM (inert_rebuildMember _ _ _ _) _ _).of_apply hr hb₁).1
  have hb₃ := ((inert_fieldSeal _ _ _ _ _ _).of_apply hseal hb₂).1
  have hb₄ := ((Cmd.Keeps.ite (Cmd.keeps_pure _) (inert_resealJoinSlot _ _ _)).of_apply hslot hb₃).1
  have hb₅ := ((inert_emitEdited _ _ _ _ _ _).of_apply hemit hb₄).1
  have hkey := loadedKey_of_stage hb₅ (length_groupKeyGen hgk) (Prod.ext hstage rfl)
  exact ⟨_, gk, sub, vs, pt, ⟨hbundle, hsub⟩, rfl, hkey, hvs, hpt,
    ⟨hsub, hfet, ⟨ps, hmem, hvk, hbuilt⟩, (gyQspgsFieldSeal_ok haead hseal).1⟩, hslot'.2⟩

/-- A consolidation emits a core that is throughout under the key it operates with; its slot is
resealed for that key when a member leaves, and else stays. -/
theorem consEmit_ok (haead : AeadOpens β) {e : EditCtx β} {f : Folded β} {gkOp : Bytes β}
    {subOp : SubKey β} {accts : List (AcctRef β)} {caps : CoreCaps} {next : NextCore β}
    (hcore : e.cur.core.Shaped c.desc) (hsub : gyQspgsDeriveSubKey c.desc gkOp = .ok subOp)
    (hwork : ∀ x ∈ f.work, x.Sound c accts)
    (h : consEmit c e f gkOp subOp caps w = (.ok next, w')) :
    ∃ core, (⟨next.bundle, gkOp⟩ : GroupVersion β).Opens c.desc core subOp ∧
      core.gid = e.cur.core.gid ∧
      KeyedUnder c accts core gkOp next.fet subOp
        ((f.work.filter fun x => !x.removed).map ConsWork.view)
        (Octet.ofByte f.flags :: f.attr) ∧
      (if e.cur.core.joinCt.length ≠ 0 ∧ f.leave then SlotGives c.desc core gkOp next.fet
        else core.joinCt = e.cur.core.joinCt) := by
  obtain ⟨fet, hfet, h⟩ := Cmd.lift_bind_eq_ok_iff.1 h
  obtain ⟨r, w₁, hr, h⟩ := Cmd.bind_eq_ok_iff.1 h
  obtain ⟨ps, hmem, hvk, hbuilt⟩ := consBuild_run haead hwork hr
  cases hself : r.self with
  | none =>
    rw [hself] at h
    cases h
  | some selfNew =>
  rw [hself] at h
  obtain ⟨sa, w₂, hseal, h⟩ := Cmd.bind_eq_ok_iff.1 h
  obtain ⟨⟨slot, dropped⟩, w₃, hslot, h⟩ := Cmd.of_ite_bind_ok h
  obtain ⟨⟨bundle, fet'⟩, w₄, hemit, h⟩ := Cmd.bind_eq_ok_iff.1 h
  obtain rfl := Except.ok.inj (congrArg Prod.fst h)
  have hslot' : slot.length < 2 ^ 32 ∧
      (if e.cur.core.joinCt.length ≠ 0 ∧ f.leave then
        SlotGives c.desc { e.cur.core with joinCt := slot } gkOp fet
        else slot = e.cur.core.joinCt) := by
    split at hslot
    · next hleave =>
      obtain ⟨hlen, hgives⟩ := resealJoinSlot_ok haead hslot
      refine ⟨by omega, ?_⟩
      rw [if_pos hleave]
      exact hgives
    · next hkeep =>
      obtain ⟨rfl, -⟩ := Prod.mk.inj (Except.ok.inj (congrArg Prod.fst hslot))
      refine ⟨hcore.joinCt, ?_⟩
      rw [if_neg hkeep]
  have hshaped : ({ e.cur.core with
      vmaj := e.cur.core.vmaj + 1
      saCt := sa
      joinCt := slot
      members := r.members
      vkhash := r.vkhash
      lastVmin := UInt32.ofNat f.nLines } : QspgsCore β).Shaped c.desc := by
    refine ⟨hcore.gid, hcore.format, ?_, hslot'.1, ?_, ?_⟩
    · have := length_gyQspgsFieldSeal_le haead hseal
      rw [qsgroupAttrMax] at this
      dsimp only
      omega
    · dsimp only
      rw [hmem]
      exact (lengths_of_built hbuilt).1
    · dsimp only
      rw [hvk]
      exact (lengths_of_built hbuilt).2
  obtain ⟨hbundle, hfet'⟩ := emitEdited_ok hshaped hemit
  obtain rfl := Except.ok.inj (hfet.symm.trans hfet')
  exact ⟨_, ⟨hbundle, hsub⟩, rfl,
    ⟨hsub, hfet, ⟨ps, hmem, hvk, hbuilt⟩, (gyQspgsFieldSeal_ok haead hseal).1⟩, hslot'.2⟩

end

end Geryon
