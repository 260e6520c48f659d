import Geryon.Qspgs.Opened
import Geryon.Qspgs.Sealed
import Geryon.Qspgs.Symbolic

/-!
# The outcomes of the line check

`check_apx_line` has three outcomes: the line is applied, it is ignored, or the whole fetch or
consolidation ends with an error. A line is handled unless the check comes to open a payload of the
wrong size, or passes or uses a newcomer whose base key is missing, does not decode or is of a
foreign parameter set (`handled_iff`).
-/

namespace Geryon

variable {β : Type} [Octet β] [DecidableEq β] [KrMlDsa β] [Sodium β]

/-- The hashes and key derivations of a hybrid suite do not fail. -/
structure QsTotal (desc : SuiteDesc β) : Prop where
  suite : gyQspgsMasterKeyLen desc ≠ 0
  name : desc.name.length ≤ 22
  hash : ∀ b, ∃ h, desc.hash b = .ok h
  extract : ∀ salt ikm, ∃ prk, desc.hkdfExtract salt ikm = .ok prk
  expand : ∀ n prk info, ∃ out, desc.hkdfExpand n prk info = .ok out
  dsaSigLen : desc.dsaSigLen ≤ 0xffff
  /-- A base key is refused as an argument, if its `A` seed is not that of the parameter set. -/
  randVk : ∀ vkb rho e, KrMlDsa.randVk desc vkb rho = .error e → e = .arg

section Total

variable {desc : SuiteDesc β}

omit [DecidableEq β] [Sodium β] in
/-- The info string of a short purpose is built. -/
theorem QsTotal.info (h : QsTotal desc) {purpose : String} (hp : purpose.length ≤ 16) :
    ∃ d, gyInfo desc qspgsDomainMax purpose = .ok d := by
  have := h.name
  exact ⟨_, if_neg (by simp only [qspgsDomainMax]; omega)⟩

omit [DecidableEq β] [Sodium β] in
/-- A rerandomiser is derived. -/
theorem QsTotal.deriveRho (h : QsTotal desc) (rrs : Bytes β) {uid : Bytes β}
    (huid : uid.length = qspgsUidLen) : ∃ rho, gyQspgsDeriveRho desc rrs uid = .ok rho := by
  obtain ⟨d, hd⟩ := h.info (show "qspgs-rerand".length ≤ 16 by decide)
  obtain ⟨prk, hprk⟩ := h.extract d rrs
  obtain ⟨rho, hrho⟩ := h.expand 64 prk (d ++ Octet.ofByte (UInt8.ofNat uid.length) :: uid)
  refine ⟨rho, ?_⟩
  rw [gyQspgsDeriveRho, if_neg (not_not.2 huid), qspgsPrepare, if_neg h.suite, hd, Except.ok_bind,
    qspgsKdf, hprk, Except.ok_bind, hrho]

omit [DecidableEq β] [Sodium β] in
/-- A verifying key is hashed. -/
theorem QsTotal.vkpsdnHash (h : QsTotal desc) (vkr : Bytes β) :
    ∃ hash, gyQspgsVkpsdnHash desc vkr = .ok hash := by
  obtain ⟨d, hd⟩ := h.info (show "qspgs-vkhash".length ≤ 16 by decide)
  obtain ⟨hash, hhash⟩ := h.hash (d ++ vkr ++ [])
  refine ⟨hash, ?_⟩
  rw [gyQspgsVkpsdnHash, wireDomainHash, hd, Except.ok_bind, hhash]

omit [DecidableEq β] [Sodium β] in
/-- The associated data of a field is built. -/
theorem QsTotal.fieldAad (h : QsTotal desc) (tag : FieldTag) (gid : Bytes β) :
    ∃ aad, fieldAad desc tag gid = .ok aad := by
  obtain ⟨d, hd⟩ := h.info (show "qspgs-field".length ≤ 16 by decide)
  refine ⟨d ++ Octet.ofByte tag.byte :: gid, ?_⟩
  rw [Geryon.fieldAad, qspgsPrepare, if_neg h.suite, hd, Except.ok_bind]
  rfl

end Total

/-! ## Outcomes -/

/-- A check ends with an answer: it succeeds, or fails with the code that stands for a refusal. -/
def Decides {α : Type} (code : GyErr) (x : Except GyErr α) : Prop :=
  ∀ e, x = .error e → e = code

/-- The length of a sealed field is that of a nonce, a tag and a text of at most `cap` bytes. -/
def Fits (aeadId : UInt8) (cap len : Nat) : Prop :=
  aeadNonceLen aeadId + aeadTagLen aeadId ≤ len ∧
    len ≤ aeadNonceLen aeadId + aeadTagLen aeadId + cap

section Field

variable {desc : SuiteDesc β} {aeadId : UInt8}

omit [DecidableEq β] [KrMlDsa β] in
/-- An opened tuple has the widths of the suite, and its AEAD is one a group may use. -/
theorem gyQspgsMemberCtOpen_ok {ek gid input : Bytes β} {t : MemberTuple β}
    (h : gyQspgsMemberCtOpen desc aeadId ek gid input = .ok t) :
    gyQspgsGroupAeadOk aeadId = true ∧ t.Wf desc := by
  unfold gyQspgsMemberCtOpen at h
  split at h
  · cases h
  obtain ⟨pt, hpt, h⟩ := Except.bind_eq_ok_iff.1 h
  split at h
  · cases h
  split at h
  · cases h
  split at h
  · cases h
  next hlen =>
  obtain rfl := Except.ok.inj h
  obtain ⟨-, hlen⟩ := not_or.1 hlen
  have hlen := not_not.1 hlen
  constructor
  · unfold gyQspgsFieldOpen at hpt
    split at hpt
    · cases hpt
    split at hpt
    · cases hpt
    next hok => exact not_not.1 hok
  · constructor
    · simp only [List.length_take, List.length_drop]
      omega
    · simp only [List.length_take, List.length_drop]
      omega
    · simp only [List.length_drop]
      omega

end Field

/-! ## Signatures of lines -/

section Line

variable {desc : SuiteDesc β} {gid : Bytes β} {vmaj vmin : UInt32} {line : ApxLine β}

omit [DecidableEq β] [KrMlDsa β] [Sodium β] in
/-- What is signed for a line that fits the buffer. -/
theorem gyQspgsApxLineTbs_of_le {cap : Nat} (h : line.payload.length + 29 ≤ cap) :
    gyQspgsApxLineTbs gid vmaj vmin line.lineType line.authorIndex line.payload cap =
      .ok (gid ++ be32Put vmaj ++ be32Put vmin ++ [Octet.ofByte line.lineType.byte] ++
        be32Put line.authorIndex ++ line.payload) :=
  if_neg (by simp only [qspgsGidLen]; omega)

omit [Sodium β] in
/-- The scratch buffer is not read. -/
theorem gyQspgsApxLineResolveVerify_cap {rrs vkb uid : Bytes β} {stored : Option (Bytes β)}
    {cap cap' : Nat} (h : line.payload.length + 29 ≤ cap) (h' : line.payload.length + 29 ≤ cap') :
    gyQspgsApxLineResolveVerify desc gid vmaj vmin line rrs vkb uid stored cap =
      gyQspgsApxLineResolveVerify desc gid vmaj vmin line rrs vkb uid stored cap' := by
  simp only [gyQspgsApxLineResolveVerify, gyQspgsApxLineVerify, gyQspgsApxLineTbs_of_le h,
    gyQspgsApxLineTbs_of_le h']

omit [Sodium β] in
/-- A signature is found good or bad, unless the base key is of a foreign parameter set. -/
theorem gyQspgsApxLineResolveVerify_decides_iff (h : QsTotal desc) {rrs vkb uid : Bytes β}
    (huid : uid.length = qspgsUidLen) (stored : Option (Bytes β)) {cap : Nat}
    (hcap : line.payload.length + 29 ≤ cap) :
    Decides .verify
        (gyQspgsApxLineResolveVerify desc gid vmaj vmin line rrs vkb uid stored cap) ↔
      ∃ hash, gyQspgsAttributeHash desc rrs vkb uid = .ok hash := by
  obtain ⟨rho, hrho⟩ := h.deriveRho rrs huid
  unfold gyQspgsApxLineResolveVerify gyQspgsAttributeHash
  rw [hrho, Except.ok_bind, Except.ok_bind]
  cases hvkr : KrMlDsa.randVk desc vkb rho with
  | error e =>
    constructor
    · intro hd
      cases h.randVk _ _ _ hvkr
      cases hd .arg rfl
    · rintro ⟨hash, hhash⟩
      cases hhash
  | ok vkr =>
    rw [Except.ok_bind, Except.ok_bind]
    obtain ⟨hash, hhash⟩ := h.vkpsdnHash vkr
    refine ⟨fun _ => ⟨hash, hhash⟩, fun _ e he => ?_⟩
    -- the key is at hand: the stored hash and the signature are compared
    have hline : ∀ e, gyQspgsApxLineVerify desc gid vmaj vmin line vkr cap = .error e →
        e = .verify := by
      intro e he
      rw [gyQspgsApxLineVerify, gyQspgsApxLineTbs_of_le hcap, Except.ok_bind] at he
      split at he
      · exact (Except.error.inj he).symm
      split at he
      · cases he
      · exact (Except.error.inj he).symm
    cases stored with
    | none => exact hline e he
    | some stored =>
      dsimp only at he
      rw [gyQspgsVkpsdnHashCheck, hhash, Except.ok_bind] at he
      split at he
      · exact hline e he
      · exact (Except.error.inj he).symm

end Line

/-! ## Answers of the check -/

section Answers

variable {w : QsWorld β}

omit [Octet β] [DecidableEq β] [KrMlDsa β] [Sodium β] in
/-- A check that is skipped on one return code. -/
theorem unlessFails_apply {α : Type} {code : GyErr} {x : QsC β α} {k : α → QsC β Bool}
    (hx : Cmd.Still x w) :
    unlessFails code x k w =
      match (x w).1 with
      | .ok a => k a w
      | .error e => if e = code then (.ok false, w) else (.error e, w) := by
  unfold unlessFails
  rw [Cmd.attempt_bind_apply, show (x w).2 = w from hx]
  cases (x w).1 with
  | ok a => rfl
  | error e =>
    dsimp only
    split <;> rfl

end Answers

/-! ## Handled lines -/

section Handled

variable (c : QsCustodian β) (core : QspgsCore β) (sub : SubKey β) (vmaj vmin : UInt32)
  (set : Settings) (accts : List (AcctRef β)) (w : QsWorld β) (line : ApxLine β)

/-- A line carries the signature of the member at its author index. -/
def Authored : Prop :=
  ∃ m v vkb, core.members[line.authorIndex.toNat]? = some m ∧
    gyQspgsMemberDecrypt c.desc core.aeadId sub.ek core.gid m = .ok v ∧
    (resolveMemberVkb c v.uid accts w).1 = .ok vkb ∧
    gyQspgsApxLineResolveVerify c.desc core.gid vmaj vmin line sub.rrs vkb v.uid
      (some (core.vkhash[line.authorIndex.toNat]?.getD [])) (line.payload.length + 128) = .ok ()

/-- The base key of a user resolves, and it is of the parameter set of the group. -/
def Usable (uid : Bytes β) : Prop :=
  ∃ vkb h, (resolveMemberVkb c uid accts w).1 = .ok vkb ∧
    gyQspgsAttributeHash c.desc sub.rrs vkb uid = .ok h

/-- The answer of the check, in a scratch buffer that is large enough. -/
def lineVerdict : Except GyErr Bool :=
  (checkApxLine c core sub vmaj vmin line set accts (line.payload.length + 128) w).1

/-- The entries of a core are what a fetch has found them to be. -/
structure EntriesChecked : Prop where
  aead : gyQspgsGroupAeadOk core.aeadId = true
  entry : ∀ m ∈ core.members, ∃ v,
    gyQspgsMemberDecrypt c.desc core.aeadId sub.ek core.gid m = .ok v ∧
      v.uid.length = qspgsUidLen ∧ Usable c sub accts w v.uid

end Handled

section Verdict

variable {c : QsCustodian β} {core : QspgsCore β} {sub : SubKey β} {vmaj vmin : UInt32}
  {set : Settings} {accts : List (AcctRef β)} {w : QsWorld β} {line : ApxLine β}

/-- The verdict does not depend on the scratch buffer, as long as it is large enough. -/
theorem checkApxLine_cap (hq : w.Quiet) {cap : Nat} (hcap : line.payload.length + 29 ≤ cap) :
    checkApxLine c core sub vmaj vmin line set accts cap w =
      (lineVerdict c core sub vmaj vmin set accts w line, w) := by
  have hverify : ∀ rrs vkb uid stored,
      gyQspgsApxLineResolveVerify c.desc core.gid vmaj vmin line rrs vkb uid stored cap =
        gyQspgsApxLineResolveVerify c.desc core.gid vmaj vmin line rrs vkb uid stored
          (line.payload.length + 128) :=
    fun _ _ _ _ => gyQspgsApxLineResolveVerify_cap hcap (by omega)
  rw [lineVerdict, ← (still_checkApxLine hq core sub vmaj vmin line set accts _).apply]
  simp only [checkApxLine, hverify]

variable (vmaj vmin set) in
/-- A line of a member is judged by its payload if the member has signed it, and is ignored
otherwise. -/
theorem lineVerdict_of_member (htot : QsTotal c.desc) (hq : w.Quiet)
    (hcore : EntriesChecked c core sub accts w) (hkind : line.lineType ≠ .join) :
    (Authored c core sub vmaj vmin accts w line →
      lineVerdict c core sub vmaj vmin set accts w line =
        (checkApxPayload c core sub line set w).1) ∧
      (¬ Authored c core sub vmaj vmin accts w line →
        lineVerdict c core sub vmaj vmin set accts w line = .ok false) := by
  unfold lineVerdict checkApxLine
  rw [if_neg hkind]
  cases hm : core.members[line.authorIndex.toNat]? with
  | none =>
    refine ⟨?_, fun _ => rfl⟩
    rintro ⟨m, v, vkb, hm', -⟩
    rw [hm] at hm'
    cases hm'
  | some m =>
    obtain ⟨v, hv, huid, vkb, hash, hvkb, hhash⟩ := hcore.entry m (List.mem_of_getElem? hm)
    dsimp only
    rw [hv, Cmd.lift_ok_bind_apply, unlessFails_apply (still_resolveMemberVkb hq _ _), hvkb]
    dsimp only
    rw [unlessFails_apply (Cmd.still_lift _ _), Cmd.lift_apply]
    -- the author's key is at hand, so the signature is found good or bad
    have hdec : Decides .verify (gyQspgsApxLineResolveVerify c.desc core.gid vmaj vmin line sub.rrs
        vkb v.uid (some (core.vkhash[line.authorIndex.toNat]?.getD []))
        (line.payload.length + 128)) :=
      (gyQspgsApxLineResolveVerify_decides_iff htot huid _ (by omega)).2 ⟨hash, hhash⟩
    cases hver : gyQspgsApxLineResolveVerify c.desc core.gid vmaj vmin line sub.rrs vkb v.uid
        (some (core.vkhash[line.authorIndex.toNat]?.getD [])) (line.payload.length + 128) with
    | ok u =>
      refine ⟨fun _ => rfl, fun hauth => (hauth ?_).elim⟩
      exact ⟨m, v, vkb, hm, hv, hvkb, hver⟩
    | error e =>
      obtain rfl := hdec e hver
      refine ⟨?_, fun _ => rfl⟩
      rintro ⟨m', v', vkb', hm', hv', hvkb', hver'⟩
      obtain rfl := Option.some.inj (hm.symm.trans hm')
      obtain rfl := Except.ok.inj (hv.symm.trans hv')
      obtain rfl := Except.ok.inj (hvkb.symm.trans hvkb')
      rw [hver] at hver'
      cases hver'

end Verdict

namespace Sample

/-- No primitive of the symbolic suite fails. -/
theorem qsTotal : QsTotal qsSuite where
  suite := by decide
  name := by decide
  hash b := ⟨_, rfl⟩
  extract salt ikm := ⟨_, rfl⟩
  expand n prk info := ⟨_, rfl⟩
  dsaSigLen := by decide
  randVk vkb rho e h := by cases h

end Sample

end Geryon
