import Geryon.Qspgs.Opened

/-!
# What an edit emits

The buffers of `emit_edited` hold every core whose member ciphertexts have the width of a sealed
member tuple, so that signing such a core succeeds whenever the caller's buffers are large enough.
-/

namespace Geryon

variable {β : Type} [Octet β]

section Lengths

variable {desc : SuiteDesc β} {core : QspgsCore β}

/-- The header fits the scratch buffer of the source. -/
theorem length_headerBytes_le (hgid : core.gid.length = qspgsGidLen) :
    (headerBytes desc core).length ≤ 128 + core.saCt.length + core.joinCt.length := by
  have hslot : (joinSlotEncode core.joinCt).length ≤ 5 + core.joinCt.length := by
    unfold joinSlotEncode
    split
    · simp only [List.length_cons, List.length_append, length_be32Put]
      omega
    · simp only [List.length_cons, List.length_nil]
      omega
  simp only [headerBytes, List.length_append, length_objPutHeader, hgid, length_be16Put,
    length_be32Put, List.length_cons, List.length_nil, qspgsGidLen]
  omega

/-- The member list fits the scratch buffer of the source. -/
theorem length_memberListBytes_le (hhash : desc.hashLen ≤ 64) (hwf : core.Wf desc)
    (hmct : ∀ m ∈ core.members, m.mct.length ≤ 512) :
    (memberListBytes desc core).length ≤ 64 + core.members.length * (64 + 3 + 512) := by
  have hentries : ∀ ms : List (QspgsMember β), (∀ m ∈ ms, m ∈ core.members) →
      (ms.flatMap QspgsMember.encode).length ≤ ms.length * (64 + 3 + 512) := by
    intro ms
    induction ms with
    | nil => simp
    | cons m ms ih =>
      intro hmem
      have hm := hmem m List.mem_cons_self
      have hrest := ih fun x hx => hmem x (List.mem_cons_of_mem _ hx)
      have hcuid := hwf.cuid m hm
      have hct := hmct m hm
      simp only [List.flatMap_cons, List.length_append, QspgsMember.encode, List.length_cons,
        length_be16Put]
      omega
  have hall := hentries core.members fun _ h => h
  simp only [memberListBytes, List.length_append, length_objPutHeader, length_be16Put,
    List.length_cons, List.length_nil]
  omega

/-- The list of key hashes fits the scratch buffer of the source. -/
theorem length_vkLstBytes_le (hhash : desc.hashLen ≤ 64) (hwf : core.Wf desc)
    (hn : core.vkhash.length ≤ core.members.length) :
    (vkLstBytes desc core).length ≤ 64 + core.members.length * 64 := by
  have hmul : core.vkhash.length * desc.hashLen ≤ core.members.length * 64 :=
    Nat.mul_le_mul hn hhash
  simp only [vkLstBytes, List.length_append, length_objPutHeader, length_be16Put,
    List.length_cons, List.length_nil, length_flatten_of_length hwf.vkhash]
  omega

end Lengths

/-- The size of a core's signature object, with a signature of the given length. -/
def coreSigLen (n : Nat) : Nat := 13 + n

/-- The length of a signature object. -/
theorem length_coreSigBytes (desc : SuiteDesc β) (s : CoreSig β) :
    (coreSigBytes desc s).length = coreSigLen s.sig.length := by
  simp only [coreSigBytes, List.length_append, length_objPutHeader, length_be32Put, length_be16Put,
    coreSigLen]

/-- The caller's buffers hold a core with a signature of `n` bytes. -/
structure CoreCaps.Hold (caps : CoreCaps) (desc : SuiteDesc β) (core : QspgsCore β) (n : Nat) :
    Prop where
  hdr : (headerBytes desc core).length ≤ caps.hdr
  memberList : (memberListBytes desc core).length ≤ caps.memberList
  vkLst : (vkLstBytes desc core).length ≤ caps.vkLst
  sig : coreSigLen n ≤ caps.sig

/-- `emit_edited` writes out the objects of a well-formed core and its signature. -/
theorem emitEdited_of_wf [KrMlDsa β] {c : QsCustodian β}
    {core : QspgsCore β} {gkOp skb vkb : Bytes β}
    {i : UInt32} {caps : CoreCaps} {w w' : QsWorld β} {mctx : MemberCtx β} {sig fet : Bytes β}
    (hhash : c.desc.hashLen ≤ 64) (hwf : core.Wf c.desc)
    (hmct : ∀ m ∈ core.members, m.mct.length ≤ 512)
    (hn : core.vkhash.length ≤ core.members.length)
    (hctx : gyQspgsMemberCtxOpen c.desc gkOp skb vkb c.selfUid = .ok mctx)
    (hsign : ctxSign c.desc mctx (coreTbsBytes c.desc core i) (ascii "qspgs-core") w =
      (.ok sig, w'))
    (hsig : sig.length ≠ 0 ∧ sig.length ≤ 8000) (hfet : gyQspgsDeriveFet c.desc gkOp = .ok fet)
    (hcaps : caps.Hold c.desc core sig.length) :
    emitEdited c core gkOp skb vkb i caps w =
      (.ok (⟨headerBytes c.desc core, memberListBytes c.desc core, vkLstBytes c.desc core,
        coreSigBytes c.desc ⟨i, core.lastVmin, sig⟩⟩, fet), w') := by
  have hh := @length_headerBytes_le _ _ c.desc _ hwf.gid
  have hm := length_memberListBytes_le hhash hwf hmct
  have hv := length_vkLstBytes_le hhash hwf hn
  have hs := length_coreSigBytes c.desc ⟨i, core.lastVmin, sig⟩
  have htbs : (coreTbsBytes c.desc core i).length ≤ 128 + core.saCt.length + core.joinCt.length +
      (64 + core.members.length * (64 + 3 + 512)) + (64 + core.members.length * 64) + 64 := by
    simp only [coreTbsBytes, List.length_append, length_be32Put]
    omega
  obtain ⟨hne, hle⟩ := hsig
  obtain ⟨hch, hcm, hcv, hcs⟩ := hcaps
  simp only [coreSigLen] at hs hcs
  unfold emitEdited
  rw [hctx, Cmd.lift_ok_bind_apply, gyQspgsHeaderEncode, if_neg (by omega), Cmd.lift_ok_bind_apply,
    gyQspgsMemberListEncode_eq c.desc hwf hm, Cmd.lift_ok_bind_apply, gyQspgsVkLstEncode,
    if_neg (not_lt.2 hwf.vkhash_le), if_neg (by omega), Cmd.lift_ok_bind_apply]
  have hsigned : gyQspgsCoreSign c.desc core i mctx 8192
      (128 + core.saCt.length + core.joinCt.length +
        (64 + core.members.length * (64 + 3 + 512)) + (64 + core.members.length * 64) + 64) w =
      (.ok (coreSigBytes c.desc ⟨i, core.lastVmin, sig⟩), w') := by
    rw [gyQspgsCoreSign, gyQspgsCoreTbs_eq c.desc i hwf htbs, Cmd.lift_ok_bind_apply,
      Cmd.bind_apply_of_ok hsign, gyQspgsCoreSigEncode]
    dsimp only
    rw [if_neg (by omega), if_neg (by omega)]
    rfl
  rw [Cmd.bind_apply_of_ok hsigned, if_neg (by omega), hfet, Cmd.lift_ok_bind_apply]
  rfl

/-- A rebuild of a core whose join link is closed, step by step. -/
theorem rebuildAndEmit_of_closed [DecidableEq β] [KrMlDsa β] [Sodium β] {c : QsCustodian β}
    {e : EditCtx β} {remove : Option (Bytes β)} {caps : CoreCaps} {w w₁ w₂ w₃ w₄ w₅ : QsWorld β}
    {gk fet sa sa' : Bytes β} {sub : SubKey β}
    {r : Rebuilt β} {n : Nat} {p : CoreBundle β × Bytes β}
    (hgen : gyQspgsGroupKeyGen c.desc w = (.ok gk, w₁))
    (hsub : gyQspgsDeriveSubKey c.desc gk = .ok sub)
    (hfold : e.cur.core.members.foldlM (rebuildMember c e.cur.core e.cur.sub.ek sub remove)
      ⟨[], [], none, false⟩ w₁ = (.ok r, w₂))
    (htarget : ¬(remove.isSome ∧ ¬r.target)) (hself : r.self = some n)
    (hfet : gyQspgsDeriveFet c.desc gk = .ok fet)
    (hopen : gyQspgsFieldOpen c.desc e.cur.core.aeadId e.cur.sub.ek .header e.cur.core.gid
      e.cur.core.saCt (1 + qsgroupAttrMax) = .ok sa)
    (hseal : gyQspgsFieldSeal c.desc e.cur.core.aeadId sub.ek .header e.cur.core.gid sa
      (1 + qsgroupAttrMax + 64) w₂ = (.ok sa', w₃))
    (hjoin : e.cur.core.joinCt.length = 0)
    (hemit : emitEdited c
      { e.cur.core with
        vmaj := e.cur.core.vmaj + 1
        saCt := sa'
        joinCt := []
        members := r.members
        vkhash := r.vkhash
        lastVmin := 0 } gk e.skb e.vkb (UInt32.ofNat n) caps w₃ = (.ok p, w₄))
    (hstage : onStore (gyQspgsGroupKeyStage c.desc e.cur.core.gid gk) w₄ = (.ok (), w₅)) :
    rebuildAndEmit c e remove caps w = (.ok ⟨p.1, p.2, false⟩, w₅) := by
  rw [rebuildAndEmit, Cmd.bind_apply_of_ok hgen, hsub, Cmd.lift_ok_bind_apply,
    Cmd.bind_apply_of_ok hfold, if_neg htarget, hself]
  dsimp only
  rw [hfet, Cmd.lift_ok_bind_apply, hopen, Cmd.lift_ok_bind_apply, Cmd.bind_apply_of_ok hseal,
    if_pos hjoin]
  refine (Cmd.bind_apply_of_ok hemit).trans ?_
  exact Cmd.bind_apply_of_ok hstage

end Geryon
