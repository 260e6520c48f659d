import Mathlib.Data.List.GetD
import Mathlib.Data.List.Forall2
import Geryon.Qspgs.Symbolic

/-!
# The group server

The stateless checks of `qspgs_server.c` and `qspgs_facade_server.c`, and the write path a
deployment builds from them (`srv_submit_core` of `examples/qsgroup_coordinator.c`): a submitted
core is stored if the version check and the core check pass, against the stored prior version.

Two things hold over every run of submissions: who can have signed an accepted core, and which
fields of the stored core can change. For both, what a single acceptance implies is
`gyQspgsServerCoreCheck_ok`.
-/

namespace Geryon

/-- The operation kinds `GY_QSPGS_OP_*`. -/
inductive QspgsOp where
  | create | unchanged | appendOne | replace
  deriving DecidableEq, Repr

/-- The operation an `op_kind` byte names, if any. -/
def QspgsOp.ofByte (b : UInt8) : Option QspgsOp :=
  if b = 0 then some .create
  else if b = 1 then some .unchanged
  else if b = 2 then some .appendOne
  else if b = 3 then some .replace
  else none

/-- `server_group_aead_ok`. -/
def serverGroupAeadOk (aeadId : UInt8) : Bool := aeadId = 1 || aeadId = 3

open Geryon.Sym

variable {β : Type}

/-- The admin flag of the member line at an index; `false` past the end. -/
def QspgsCore.admnAt (core : QspgsCore β) (i : Nat) : Bool :=
  core.members[i]?.any QspgsMember.admn

/-- The wire objects of a core, without its signature. -/
structure CoreObjs (β : Type) where
  header : Bytes β
  memberList : Bytes β
  vkLst : Bytes β
  deriving DecidableEq

variable [Octet β] [DecidableEq β] [KrMlDsa β] (desc : SuiteDesc β)

/-- The rule on the key list of each operation: kept, kept with one hash appended, or any list. -/
def vkLstTransitionOk (op : QspgsOp) (prior next : QspgsCore β) : Bool :=
  match op with
  | .create => false
  | .unchanged => next.vkhash = prior.vkhash
  | .appendOne => next.vkhash.length = prior.vkhash.length + 1 ∧
      next.vkhash.take prior.vkhash.length = prior.vkhash
  | .replace => true

/-- `gy_qspgs_server_core_check` with a scratch buffer of `cap` bytes. -/
def gyQspgsServerCoreCheck (prior : Option (QspgsCore β)) (opKind : UInt8) (next : QspgsCore β)
    (signerIndex : UInt32) (signerVkr sig : Bytes β) (cap : Nat) : Except GyErr Unit :=
  let i := signerIndex.toNat
  match QspgsOp.ofByte opKind, prior with
  | none, _ => .error .arg
  | some .create, some _ => .error .arg
  | some .create, none =>
    if next.members.length ≠ 1 ∨ next.vkhash.length ≠ 1 ∨ next.vmaj ≠ 1 then .error .verify
    else if ¬ serverGroupAeadOk next.aeadId then .error .verify
    else if signerIndex ≠ 0 then .error .arg
    else if ¬ next.admnAt 0 then .error .verify
    else do
      gyQspgsVkpsdnHashCheck desc signerVkr (next.vkhash.getD 0 [])
      gyQspgsCoreVerify desc next signerIndex signerVkr sig cap
  | some _, none => .error .arg
  | some op, some prior =>
    if next.aeadId ≠ prior.aeadId then .error .verify
    else if next.formatVersion ≠ prior.formatVersion then .error .verify
    else if next.gid ≠ prior.gid then .error .verify
    -- the admin gate reads the prior list
    else if prior.members.length ≤ i ∨ prior.vkhash.length ≤ i then .error .arg
    else if ¬ prior.admnAt i then .error .verify
    else if next.vmaj ≠ prior.vmaj + 1 then .error .verify
    else if ¬ vkLstTransitionOk op prior next then .error .verify
    -- the key is resolved in the submitted list
    else if next.members.length ≤ i ∨ next.vkhash.length ≤ i then .error .arg
    else do
      gyQspgsVkpsdnHashCheck desc signerVkr (next.vkhash.getD i [])
      gyQspgsCoreVerify desc next signerIndex signerVkr sig cap

/-- `gy_qsgroups_server_core_check`: the objects are decoded for one suite, and the prior ones are
supplied together or not at all. -/
def gyQsgroupsServerCoreCheck (opKind : UInt8) (prior : Option (CoreObjs β)) (next : CoreObjs β)
    (sigObj signerVkr : Bytes β) : Except GyErr Unit :=
  if signerVkr.length ≠ desc.dsaPkLen then .error .arg
  else do
    let core ← decodeCore desc next.header next.memberList next.vkLst
    let priorCore ← prior.mapM fun p => decodeCore desc p.header p.memberList p.vkLst
    let s ← gyQspgsCoreSigDecode desc sigObj
    gyQspgsServerCoreCheck desc priorCore opKind { core with lastVmin := s.lastVmin } s.signerIndex
      signerVkr s.sig
      (next.header.length + next.memberList.length + next.vkLst.length + 16)

/-- `version_gt`. -/
def versionGt (aMaj aMin bMaj bMin : UInt32) : Bool :=
  if aMaj ≠ bMaj then bMaj < aMaj else bMin < aMin

/-- `gy_qspgs_server_version_check`. -/
def gyQspgsServerVersionCheck (curMaj curMin extMaj extMin newMaj newMin : UInt32) :
    Except GyErr Unit :=
  if extMaj ≠ curMaj ∨ extMin ≠ curMin then .error .state
  else if ¬ versionGt newMaj newMin curMaj curMin then .error .state
  else .ok ()

/-! ## The write path -/

/-- A stored group version (`struct group_state`). -/
structure GroupSlot (β : Type) where
  objs : CoreObjs β
  sig : Bytes β
  vmaj : UInt32
  vmin : UInt32

/-- A request to store a core: the operation, the version it extends and the new one, the
submitter's key and the four objects. -/
structure Submission (β : Type) where
  opKind : UInt8
  newVmaj : UInt32
  newVmin : UInt32
  extVmaj : UInt32
  extVmin : UInt32
  vkr : Bytes β
  objs : CoreObjs β
  sig : Bytes β

/-- `srv_submit_core`: the checked write path. -/
def srvSubmitCore (g : Option (GroupSlot β)) (s : Submission β) : Except GyErr (GroupSlot β) := do
  match g with
  | none => pure ()
  | some g => gyQspgsServerVersionCheck g.vmaj g.vmin s.extVmaj s.extVmin s.newVmaj s.newVmin
  gyQsgroupsServerCoreCheck desc s.opKind (g.map GroupSlot.objs) s.objs s.sig s.vkr
  return ⟨s.objs, s.sig, s.newVmaj, s.newVmin⟩

/-- An accepted submission, with the version that was stored before it. -/
structure Acceptance (β : Type) where
  prior : Option (GroupSlot β)
  sub : Submission β

/-- The accepted submissions of a run, in order. A rejected one leaves the stored version. -/
def srvRun : Option (GroupSlot β) → List (Submission β) → List (Acceptance β)
  | _, [] => []
  | g, s :: ss =>
    match srvSubmitCore desc g s with
    | .ok g' => ⟨g, s⟩ :: srvRun (some g') ss
    | .error _ => srvRun g ss

/-! ## What an acceptance implies -/

omit [DecidableEq β] [KrMlDsa β] in
/-- A key that passes the check hashes to what is stored. -/
theorem gyQspgsVkpsdnHashCheck_ok [DecidableEq β] {vkr stored : Bytes β}
    (h : gyQspgsVkpsdnHashCheck desc vkr stored = .ok ()) :
    gyQspgsVkpsdnHash desc vkr = .ok stored := by
  obtain ⟨x, hx, h⟩ := Except.bind_eq_ok_iff.mp h
  split_ifs at h with heq
  rw [hx, heq]

/-- The signature of an accepted core, under a key that hashes to the submitted entry of the
signer's line. -/
structure SignedBy (core : QspgsCore β) (signerIndex : UInt32) (vkr sig : Bytes β) (cap : Nat) :
    Prop where
  lt : signerIndex.toNat < core.vkhash.length
  hash : gyQspgsVkpsdnHash desc vkr = .ok (core.vkhash.getD signerIndex.toNat [])
  verify : gyQspgsCoreVerify desc core signerIndex vkr sig cap = .ok ()

/-- What relates an accepted core to the stored one, for each operation. -/
structure Succeeds (op : QspgsOp) (prior next : QspgsCore β) (signerIndex : UInt32) : Prop where
  aead : next.aeadId = prior.aeadId
  format : next.formatVersion = prior.formatVersion
  gid : next.gid = prior.gid
  lt : signerIndex.toNat < prior.vkhash.length
  admn : prior.admnAt signerIndex.toNat = true
  vmaj : next.vmaj = prior.vmaj + 1
  unchanged : op = .unchanged → next.vkhash = prior.vkhash
  appendOne : op = .appendOne → ∃ h, next.vkhash = prior.vkhash ++ [h]

omit [Octet β] [KrMlDsa β] in
/-- An addition appends one hash. -/
theorem vkLstTransitionOk_appendOne {prior next : QspgsCore β}
    (h : vkLstTransitionOk .appendOne prior next = true) :
    ∃ x, next.vkhash = prior.vkhash ++ [x] := by
  obtain ⟨hlen, htake⟩ : next.vkhash.length = prior.vkhash.length + 1 ∧
      next.vkhash.take prior.vkhash.length = prior.vkhash := by
    simpa [vkLstTransitionOk] using h
  have hdrop : (next.vkhash.drop prior.vkhash.length).length = 1 := by
    rw [List.length_drop]
    omega
  obtain ⟨x, hx⟩ := List.length_eq_one_iff.mp hdrop
  exact ⟨x, by rw [← List.take_append_drop prior.vkhash.length next.vkhash, htake, hx]⟩

omit [Octet β] [KrMlDsa β] in
/-- What each kind of transition says about the two lists. -/
theorem vkLstTransitionOk_ok {op : QspgsOp} {prior next : QspgsCore β}
    (h : vkLstTransitionOk op prior next = true) :
    (op = .unchanged → next.vkhash = prior.vkhash) ∧
      (op = .appendOne → ∃ x, next.vkhash = prior.vkhash ++ [x]) := by
  refine ⟨?_, ?_⟩
  · rintro rfl
    simpa [vkLstTransitionOk] using h
  · rintro rfl
    exact vkLstTransitionOk_appendOne h

/-- An accepted first core: one admin, one hash, version one. -/
theorem gyQspgsServerCoreCheck_create {opKind : UInt8} {next : QspgsCore β}
    {signerIndex : UInt32} {vkr sig : Bytes β} {cap : Nat}
    (h : gyQspgsServerCoreCheck desc none opKind next signerIndex vkr sig cap = .ok ()) :
    QspgsOp.ofByte opKind = some .create ∧ next.members.length = 1 ∧ next.vkhash.length = 1 ∧
      next.vmaj = 1 ∧ next.admnAt 0 = true ∧ SignedBy desc next signerIndex vkr sig cap := by
  unfold gyQspgsServerCoreCheck at h
  dsimp only at h
  rcases hop : QspgsOp.ofByte opKind with _ | op
  · simp only [hop] at h
    cases h
  · cases op with
    | create =>
      simp only [hop] at h
      split_ifs at h with hsize haead hidx hadmn
      obtain ⟨_, hhash, hver⟩ := Except.bind_eq_ok_iff.mp h
      simp only [not_or, not_not] at hsize hidx hadmn
      subst hidx
      refine ⟨rfl, hsize.1, hsize.2.1, hsize.2.2, hadmn, ?_, gyQspgsVkpsdnHashCheck_ok desc hhash,
        hver⟩
      rw [hsize.2.1]
      exact Nat.one_pos
    | unchanged | appendOne | replace =>
      simp only [hop] at h
      cases h

/-- An accepted later core: the operation is not `CREATE`, the prior line at the signer's index is
an admin's, and the lists are related by the operation's rule. -/
theorem gyQspgsServerCoreCheck_ok {prior next : QspgsCore β} {opKind : UInt8}
    {signerIndex : UInt32} {vkr sig : Bytes β} {cap : Nat}
    (h : gyQspgsServerCoreCheck desc (some prior) opKind next signerIndex vkr sig cap = .ok ()) :
    ∃ op, QspgsOp.ofByte opKind = some op ∧ op ≠ .create ∧
      Succeeds op prior next signerIndex ∧ SignedBy desc next signerIndex vkr sig cap := by
  unfold gyQspgsServerCoreCheck at h
  dsimp only at h
  rcases hop : QspgsOp.ofByte opKind with _ | op
  · simp only [hop] at h
    cases h
  refine ⟨op, rfl, ?_⟩
  cases op with
  | create =>
    simp only [hop] at h
    cases h
  | unchanged | appendOne | replace =>
    simp only [hop] at h
    split_ifs at h with haead hfmt hgid hlen hadmn hvmaj hvk hlen'
    obtain ⟨_, hhash, hver⟩ := Except.bind_eq_ok_iff.mp h
    simp only [not_or, not_not, not_le] at haead hfmt hgid hlen hadmn hvmaj hvk hlen'
    have htrans := vkLstTransitionOk_ok hvk
    exact ⟨by decide, ⟨haead, hfmt, hgid, hlen.2, hadmn, hvmaj, htrans.1, htrans.2⟩, hlen'.2,
      gyQspgsVkpsdnHashCheck_ok desc hhash, hver⟩

/-- A later core that extends the stored one and is signed by the key on an admin's line is
accepted. -/
theorem gyQspgsServerCoreCheck_of_succeeds {prior next : QspgsCore β} {opKind : UInt8}
    {op : QspgsOp} {signerIndex : UInt32} {vkr sig : Bytes β} {cap : Nat}
    (hop : QspgsOp.ofByte opKind = some op) (hne : op ≠ .create)
    (hsucc : Succeeds op prior next signerIndex)
    (hlt : signerIndex.toNat < prior.members.length)
    (hlt' : signerIndex.toNat < next.members.length)
    (hsigned : SignedBy desc next signerIndex vkr sig cap) :
    gyQspgsServerCoreCheck desc (some prior) opKind next signerIndex vkr sig cap = .ok () := by
  have htrans : vkLstTransitionOk op prior next = true := by
    cases op with
    | create => exact absurd rfl hne
    | unchanged => simp [vkLstTransitionOk, hsucc.unchanged rfl]
    | appendOne =>
      obtain ⟨x, hx⟩ := hsucc.appendOne rfl
      simp [vkLstTransitionOk, hx]
    | replace => rfl
  have hhash :
      gyQspgsVkpsdnHashCheck desc vkr (next.vkhash.getD signerIndex.toNat []) = .ok () := by
    rw [gyQspgsVkpsdnHashCheck, hsigned.hash, Except.ok_bind, if_pos rfl]
  have hlist := hsucc.lt
  have hlist' := hsigned.lt
  cases op with
  | create => exact absurd rfl hne
  | unchanged | appendOne | replace =>
    simp only [gyQspgsServerCoreCheck, hop]
    rw [if_neg (not_not.mpr hsucc.aead), if_neg (not_not.mpr hsucc.format),
      if_neg (not_not.mpr hsucc.gid), if_neg (by omega), if_neg (not_not.mpr hsucc.admn),
      if_neg (not_not.mpr hsucc.vmaj), if_neg (not_not.mpr htrans), if_neg (by omega), hhash,
      Except.ok_bind, hsigned.verify]

/-- The core and the signature an acceptance is about. -/
structure Acceptance.Decodes (e : Acceptance β) (core : QspgsCore β) (s : CoreSig β) : Prop where
  core : ∃ c, decodeCore desc e.sub.objs.header e.sub.objs.memberList e.sub.objs.vkLst = .ok c ∧
    core = { c with lastVmin := s.lastVmin }
  sig : gyQspgsCoreSigDecode desc e.sub.sig = .ok s

/-- The decoded prior version of an acceptance. -/
def GroupSlot.core (g : GroupSlot β) : Except GyErr (QspgsCore β) :=
  decodeCore desc g.objs.header g.objs.memberList g.objs.vkLst

/-- The scratch buffer of the facade. -/
def CoreObjs.scratchCap (o : CoreObjs β) : Nat :=
  o.header.length + o.memberList.length + o.vkLst.length + 16

/-- What an accepted first submission implies. -/
theorem srvSubmitCore_create {s : Submission β} {g' : GroupSlot β}
    (h : srvSubmitCore desc none s = .ok g') :
    g'.objs = s.objs ∧ ∃ core sig, Acceptance.Decodes desc ⟨none, s⟩ core sig ∧
      QspgsOp.ofByte s.opKind = some .create ∧ core.members.length = 1 ∧
      core.vkhash.length = 1 ∧ core.vmaj = 1 := by
  obtain ⟨_, hcheck, h⟩ := Except.bind_eq_ok_iff.mp h
  obtain rfl := Except.ok.inj h
  unfold gyQsgroupsServerCoreCheck at hcheck
  split_ifs at hcheck
  obtain ⟨c, hc, hcheck⟩ := Except.bind_eq_ok_iff.mp hcheck
  obtain ⟨p, hp, hcheck⟩ := Except.bind_eq_ok_iff.mp hcheck
  obtain rfl := Except.ok.inj hp
  obtain ⟨sig, hsig, hcheck⟩ := Except.bind_eq_ok_iff.mp hcheck
  obtain ⟨hop, hm, hv, hvm, -, -⟩ := gyQspgsServerCoreCheck_create desc hcheck
  exact ⟨rfl, _, sig, ⟨⟨c, hc, rfl⟩, hsig⟩, hop, hm, hv, hvm⟩

/-- What a later accepted submission implies. -/
theorem srvSubmitCore_ok {g : GroupSlot β} {s : Submission β} {g' : GroupSlot β}
    (h : srvSubmitCore desc (some g) s = .ok g') :
    g'.objs = s.objs ∧ ∃ op prior core sig, Acceptance.Decodes desc ⟨some g, s⟩ core sig ∧
      g.core desc = .ok prior ∧ QspgsOp.ofByte s.opKind = some op ∧ op ≠ .create ∧
      Succeeds op prior core sig.signerIndex ∧
      SignedBy desc core sig.signerIndex s.vkr sig.sig s.objs.scratchCap := by
  obtain ⟨_, -, h⟩ := Except.bind_eq_ok_iff.mp h
  obtain ⟨_, hcheck, h⟩ := Except.bind_eq_ok_iff.mp h
  obtain rfl := Except.ok.inj h
  unfold gyQsgroupsServerCoreCheck at hcheck
  split_ifs at hcheck
  obtain ⟨c, hc, hcheck⟩ := Except.bind_eq_ok_iff.mp hcheck
  obtain ⟨p, hp, hcheck⟩ := Except.bind_eq_ok_iff.mp hcheck
  obtain ⟨prior, hprior, hp⟩ := Except.bind_eq_ok_iff.mp hp
  obtain rfl := Except.ok.inj hp
  obtain ⟨sig, hsig, hcheck⟩ := Except.bind_eq_ok_iff.mp hcheck
  obtain ⟨op, hop, hne, hsucc, hsigned⟩ := gyQspgsServerCoreCheck_ok desc hcheck
  exact ⟨rfl, op, prior, _, sig, ⟨⟨c, hc, rfl⟩, hsig⟩, hprior, hop, hne, hsucc, hsigned⟩

/-- An accepted submission is the next version. -/
theorem srvRun_cons_of_ok {g : Option (GroupSlot β)} {g' : GroupSlot β} {s : Submission β}
    (h : srvSubmitCore desc g s = .ok g') (ss : List (Submission β)) :
    srvRun desc g (s :: ss) = ⟨g, s⟩ :: srvRun desc (some g') ss := by
  rw [srvRun, h]

/-! ## Who signed an accepted core -/

/-- Every entry of a run was accepted at the state it names. -/
theorem srvRun_accepted {g : Option (GroupSlot β)} {subs : List (Submission β)} {e : Acceptance β}
    (he : e ∈ srvRun desc g subs) : ∃ g', srvSubmitCore desc e.prior e.sub = .ok g' := by
  induction subs generalizing g with
  | nil => cases he
  | cons s ss ih =>
    unfold srvRun at he
    split at he
    · next g' hs =>
      rcases List.mem_cons.mp he with rfl | he
      · exact ⟨g', hs⟩
      · exact ih he
    · exact ih he

omit [Octet β] [DecidableEq β] [KrMlDsa β] in
/-- An operation that does not replace the key list keeps the signer's entry. -/
theorem Succeeds.vkhash_eq {op : QspgsOp} {prior next : QspgsCore β} {i : UInt32}
    (h : Succeeds op prior next i) (hne : op ≠ .create) (hrep : op ≠ .replace) :
    next.vkhash.getD i.toNat [] = prior.vkhash.getD i.toNat [] := by
  cases op with
  | create => exact absurd rfl hne
  | unchanged => rw [h.unchanged rfl]
  | appendOne =>
    obtain ⟨x, hx⟩ := h.appendOne rfl
    rw [hx, List.getD_append _ _ _ _ h.lt]
  | replace => exact absurd rfl hrep

/-- Over every run of submissions, an accepted core after the first is signed under a key whose
hash the submitted list has on the signer's line, and the stored list has an admin on that line.
Unless the operation replaces the key list, the stored list has the same hash there. -/
theorem accepted_under_admin_line (subs : List (Submission β)) :
    ∀ e ∈ srvRun desc none subs, ∀ g, e.prior = some g →
      ∃ op prior core sig, e.Decodes desc core sig ∧ g.core desc = .ok prior ∧
        QspgsOp.ofByte e.sub.opKind = some op ∧ op ≠ .create ∧
        prior.admnAt sig.signerIndex.toNat = true ∧
        SignedBy desc core sig.signerIndex e.sub.vkr sig.sig e.sub.objs.scratchCap ∧
        (op ≠ .replace →
          gyQspgsVkpsdnHash desc e.sub.vkr = .ok (prior.vkhash.getD sig.signerIndex.toNat []) ∧
            sig.signerIndex.toNat < prior.vkhash.length) := by
  intro e he g hg
  obtain ⟨g', hs⟩ := srvRun_accepted desc he
  obtain ⟨prior, sub⟩ := e
  cases hg
  obtain ⟨-, op, prior, core, sig, hdec, hprior, hop, hne, hsucc, hsigned⟩ :=
    srvSubmitCore_ok desc hs
  refine ⟨op, prior, core, sig, hdec, hprior, hop, hne, hsucc.admn, hsigned, fun hrep => ?_⟩
  rw [← hsucc.vkhash_eq hne hrep]
  exact ⟨hsigned.hash, hsucc.lt⟩

section Symbolic

/-- The wire objects of a symbolic core. -/
def symObjs (core : QspgsCore Sym) : CoreObjs Sym :=
  ⟨headerBytes qsSuite core, memberListBytes qsSuite core, vkLstBytes qsSuite core⟩

/-- The submission of a core, signed by the holder of `vkr` for the line `signerIndex`. -/
def symSubmission (opKind : UInt8) (core : QspgsCore Sym) (signerIndex : UInt32)
    (vkr : Bytes Sym) : Submission Sym where
  opKind := opKind
  newVmaj := core.vmaj
  newVmin := 0
  extVmaj := core.vmaj - 1
  extVmin := 0
  vkr := vkr
  objs := symObjs core
  sig := coreSigBytes qsSuite (symSign core signerIndex vkr)

/-- The version stored after a submission. -/
def Submission.slot (s : Submission Sym) : GroupSlot Sym := ⟨s.objs, s.sig, s.newVmaj, s.newVmin⟩

/-- A symbolic signature under a listed key is one of the core. -/
theorem symSigned {core : QspgsCore Sym} {i : UInt32} {vkr : Bytes Sym} (hwf : core.Wf qsSuite)
    (hi : core.vkhash[i.toNat]? = some (symVkHash vkr)) :
    SignedBy qsSuite core i vkr (symSign core i vkr).sig (symObjs core).scratchCap := by
  refine ⟨(List.getElem?_eq_some_iff.mp hi).1, ?_, gyQspgsCoreVerify_symSign i vkr hwf ?_⟩
  · rw [gyQspgsVkpsdnHash_sym, List.getD_eq_getElem?_getD, hi]
    rfl
  · simp only [coreTbsBytes, CoreObjs.scratchCap, symObjs, List.length_append, length_be32Put]
    omega

/-- A symbolic creation is accepted. -/
theorem srvSubmitCore_symCreate {core : QspgsCore Sym} {vkr : Bytes Sym}
    (hwf : core.Wf qsSuite) (hvkr : vkr.length = qsSuite.dsaPkLen)
    (hm : core.members.length = 1) (hv : core.vkhash = [symVkHash vkr]) (hvmaj : core.vmaj = 1)
    (haead : serverGroupAeadOk core.aeadId = true) (hadmn : core.admnAt 0 = true) :
    srvSubmitCore qsSuite none (symSubmission 0 core 0 vkr) =
      .ok (symSubmission 0 core 0 vkr).slot := by
  have hfirst : core.vkhash[(0 : UInt32).toNat]? = some (symVkHash vkr) := by simp [hv]
  have hsigned := symSigned hwf hfirst
  have hhash : gyQspgsVkpsdnHashCheck qsSuite vkr (core.vkhash.getD 0 []) = .ok () := by
    rw [gyQspgsVkpsdnHashCheck, gyQspgsVkpsdnHash_sym, Except.ok_bind, if_pos (by simp [hv])]
  have hcheck : gyQspgsServerCoreCheck qsSuite none 0 core 0 vkr (symSign core 0 vkr).sig
      (symObjs core).scratchCap = .ok () := by
    simp only [gyQspgsServerCoreCheck, QspgsOp.ofByte, if_true]
    rw [if_neg (by simp [hm, hv, hvmaj]), if_neg (not_not.mpr haead), if_neg (by decide),
      if_neg (not_not.mpr hadmn), hhash, Except.ok_bind, hsigned.verify]
  have hfacade : gyQsgroupsServerCoreCheck qsSuite 0 none (symObjs core)
      (coreSigBytes qsSuite (symSign core 0 vkr)) vkr = .ok () := by
    rw [gyQsgroupsServerCoreCheck, if_neg (not_not.mpr hvkr), symObjs,
      decodeCore_bytes qsSuite hwf, Except.ok_bind, gyQspgsCoreSigDecode_symSign]
    exact hcheck
  simp only [srvSubmitCore, symSubmission, Option.map_none, hfacade]
  rfl

/-- A symbolic successor is accepted. -/
theorem srvSubmitCore_symNext {prior core : QspgsCore Sym} {opKind opKind' : UInt8} {op : QspgsOp}
    {i i' : UInt32} {vkr vkr' : Bytes Sym} (hwf : prior.Wf qsSuite) (hwf' : core.Wf qsSuite)
    (hvkr : vkr.length = qsSuite.dsaPkLen) (hop : QspgsOp.ofByte opKind = some op)
    (hne : op ≠ .create) (hsucc : Succeeds op prior core i)
    (hlt : i.toNat < prior.members.length) (hlt' : i.toNat < core.members.length)
    (hgt : prior.vmaj < core.vmaj) (hi : core.vkhash[i.toNat]? = some (symVkHash vkr)) :
    srvSubmitCore qsSuite (some (symSubmission opKind' prior i' vkr').slot)
      (symSubmission opKind core i vkr) = .ok (symSubmission opKind core i vkr).slot := by
  have hver : gyQspgsServerVersionCheck prior.vmaj 0 (core.vmaj - 1) 0 core.vmaj 0 = .ok () := by
    have hext : core.vmaj - 1 = prior.vmaj := by rw [hsucc.vmaj, UInt32.add_sub_cancel]
    have hne : core.vmaj ≠ prior.vmaj := fun h => absurd hgt (h ▸ UInt32.lt_irrefl _)
    rw [gyQspgsServerVersionCheck, if_neg (by simp [hext]), if_neg (by simp [versionGt, hne, hgt])]
  have hstored : Succeeds op { prior with lastVmin := 0 } core i :=
    ⟨hsucc.aead, hsucc.format, hsucc.gid, hsucc.lt, hsucc.admn, hsucc.vmaj, hsucc.unchanged,
      hsucc.appendOne⟩
  have hcheck := gyQspgsServerCoreCheck_of_succeeds qsSuite hop hne hstored hlt hlt'
    (symSigned hwf' hi)
  have hfacade : gyQsgroupsServerCoreCheck qsSuite opKind (some (symObjs prior)) (symObjs core)
      (coreSigBytes qsSuite (symSign core i vkr)) vkr = .ok () := by
    rw [gyQsgroupsServerCoreCheck, if_neg (not_not.mpr hvkr), symObjs, symObjs,
      decodeCore_bytes qsSuite hwf', Except.ok_bind, Option.mapM_some, decodeCore_bytes qsSuite hwf,
      gyQspgsCoreSigDecode_symSign]
    exact hcheck
  simp only [srvSubmitCore, symSubmission, Submission.slot, Option.map_some, hver, Except.ok_bind,
    hfacade]
  rfl

/-- A symbolic group version: the given lines and hashes, and otherwise empty fields. -/
def symCore (vmaj : UInt32) (members : List (QspgsMember Sym)) (vkhash : List (Bytes Sym)) :
    QspgsCore Sym :=
  { QspgsCore.zero with
    formatVersion := 1
    aeadId := 1
    vmaj := vmaj
    members := members
    vkhash := vkhash }

/-- A symbolic member line. -/
def symLine (admn : Bool) : QspgsMember Sym := ⟨zeros 64, admn, []⟩

/-- The symbolic cores are well formed. -/
theorem symCore_wf (vmaj : UInt32) {admns : List Bool} {vkrs : List (Bytes Sym)}
    (hm : admns.length ≤ 2) (hv : vkrs.length ≤ 2) :
    (symCore vmaj (admns.map symLine) (vkrs.map symVkHash)).Wf qsSuite where
  gid := by simp [symCore, QspgsCore.zero]
  format := rfl
  saCt := Nat.two_pow_pos 32
  joinCt := Nat.two_pow_pos 32
  members_le := by
    simp only [symCore, List.length_map, qspgsMaxEntries]
    omega
  cuid := by
    intro m hm
    obtain ⟨b, -, rfl⟩ := List.mem_map.mp hm
    simp [symLine, qsSuite, symSuite]
  mct := by
    intro m hm
    obtain ⟨b, -, rfl⟩ := List.mem_map.mp hm
    simp [symLine]
  vkhash_le := by
    simp only [symCore, List.length_map, qspgsMaxEntries]
    omega
  vkhash := by
    intro h hh
    obtain ⟨k, -, rfl⟩ := List.mem_map.mp hh
    exact length_symVkHash k

/-- The pseudonym key number `n`. -/
def symKey (n : Nat) : Bytes Sym := psdnVk qsSuite (num n) nil

/-- Symbolic keys have the length of the suite. -/
theorem length_symKey (n : Nat) : (symKey n).length = qsSuite.dsaPkLen := length_prim _ _ _

/-- The two keys have different hashes. -/
theorem symKey_ne : symVkHash (symKey 0) ≠ symVkHash (symKey 1) := by
  intro h
  have hkey : prim 32 [num 0, nil] 1312 = prim 32 [num 1, nil] 1312 := symVkHash_inj h
  have hpos : 0 < 1312 := by decide
  have heq : ((prim 32 [num 0, nil] 1312).drop 0).take 1312 =
      ((prim 32 [num 1, nil] 1312).drop 0).take 1312 := by rw [hkey]
  simpa using (prim_inj hpos hpos hpos heq).2.1

-- a key is named by its number only
attribute [irreducible] symKey

/-- The group of one admin, holder of the key `0`. -/
def foundedCore : QspgsCore Sym := symCore 1 ([true].map symLine) ([symKey 0].map symVkHash)

/-- The admin has added the holder of the key `1`, who is no admin. -/
def joinedCore : QspgsCore Sym :=
  symCore 2 ([true, false].map symLine) ([symKey 0, symKey 1].map symVkHash)

/-- The admin creates the group and adds a member. -/
def foundingRun : List (Submission Sym) :=
  [symSubmission 0 foundedCore 0 (symKey 0), symSubmission 2 joinedCore 0 (symKey 0)]

/-- The group is created. -/
theorem srvSubmitCore_founded :
    srvSubmitCore qsSuite none (symSubmission 0 foundedCore 0 (symKey 0)) =
      .ok (symSubmission 0 foundedCore 0 (symKey 0)).slot :=
  srvSubmitCore_symCreate (symCore_wf 1 (by decide) (by decide)) (length_symKey 0)
    rfl rfl rfl rfl rfl

/-- A second member is added. -/
theorem srvSubmitCore_joined :
    srvSubmitCore qsSuite (some (symSubmission 0 foundedCore 0 (symKey 0)).slot)
      (symSubmission 2 joinedCore 0 (symKey 0)) =
        .ok (symSubmission 2 joinedCore 0 (symKey 0)).slot :=
  srvSubmitCore_symNext (symCore_wf 1 (by decide) (by decide))
    (symCore_wf 2 (by decide) (by decide)) (length_symKey 0)
    (show QspgsOp.ofByte 2 = some .appendOne from rfl) (by decide)
    ⟨rfl, rfl, rfl, by decide, rfl, rfl, fun h => (nomatch h), fun _ => ⟨symVkHash (symKey 1), rfl⟩⟩
    (by decide) (by decide) (by decide) rfl

/-- The run of `foundingRun`, followed by further submissions. -/
theorem srvRun_founding (subs : List (Submission Sym)) :
    srvRun qsSuite none (foundingRun ++ subs) =
      ⟨none, symSubmission 0 foundedCore 0 (symKey 0)⟩ ::
        ⟨some (symSubmission 0 foundedCore 0 (symKey 0)).slot,
          symSubmission 2 joinedCore 0 (symKey 0)⟩ ::
        srvRun qsSuite (some (symSubmission 2 joinedCore 0 (symKey 0)).slot) subs := by
  rw [foundingRun, List.cons_append, List.cons_append, List.nil_append,
    srvRun_cons_of_ok _ srvSubmitCore_founded, srvRun_cons_of_ok _ srvSubmitCore_joined]

/-- The addition of a member is signed under the key on the admin's stored line. -/
theorem accepted_under_admin_line_founding :
    ∃ op prior core sig, Acceptance.Decodes qsSuite
        ⟨some (symSubmission 0 foundedCore 0 (symKey 0)).slot,
          symSubmission 2 joinedCore 0 (symKey 0)⟩ core sig ∧
      (symSubmission 0 foundedCore 0 (symKey 0)).slot.core qsSuite = .ok prior ∧
      QspgsOp.ofByte 2 = some op ∧ op ≠ .create ∧ prior.admnAt sig.signerIndex.toNat = true ∧
      SignedBy qsSuite core sig.signerIndex (symKey 0) sig.sig (symObjs joinedCore).scratchCap ∧
      (op ≠ .replace →
        gyQspgsVkpsdnHash qsSuite (symKey 0) = .ok (prior.vkhash.getD sig.signerIndex.toNat []) ∧
          sig.signerIndex.toNat < prior.vkhash.length) :=
  accepted_under_admin_line qsSuite (foundingRun ++ [])
    ⟨some (symSubmission 0 foundedCore 0 (symKey 0)).slot,
      symSubmission 2 joinedCore 0 (symKey 0)⟩ (by rw [srvRun_founding]; simp) _ rfl

/-- What the member who is no admin submits: her own hash on every line, her own admin bit, and the
index of the admin's line. -/
def takeoverCore : QspgsCore Sym :=
  symCore 3 ([false, true].map symLine) ([symKey 1, symKey 1].map symVkHash)

/-- The second member's core is accepted as a successor. -/
theorem srvSubmitCore_takeover :
    srvSubmitCore qsSuite (some (symSubmission 2 joinedCore 0 (symKey 0)).slot)
      (symSubmission 3 takeoverCore 0 (symKey 1)) =
        .ok (symSubmission 3 takeoverCore 0 (symKey 1)).slot :=
  srvSubmitCore_symNext (symCore_wf 2 (by decide) (by decide))
    (symCore_wf 3 (by decide) (by decide)) (length_symKey 1)
    (show QspgsOp.ofByte 3 = some .replace from rfl) (by decide)
    ⟨rfl, rfl, rfl, by decide, rfl, rfl, fun h => (nomatch h), fun h => (nomatch h)⟩
    (by decide) (by decide) (by decide) rfl

/-- A stored core is read back. -/
theorem symSlot_core {opKind : UInt8} {core : QspgsCore Sym} {i : UInt32} {vkr : Bytes Sym}
    (hwf : core.Wf qsSuite) :
    (symSubmission opKind core i vkr).slot.core qsSuite = .ok { core with lastVmin := 0 } :=
  decodeCore_bytes qsSuite hwf

/-- An accepted core need not be signed under a key of an admin's stored line: a replacing
submission of a member who is no admin is accepted. -/
theorem replaced_by_nonadmin :
    ∃ e ∈ srvRun qsSuite none (foundingRun ++ [symSubmission 3 takeoverCore 0 (symKey 1)]),
      ∃ g prior h, e.prior = some g ∧ g.core qsSuite = .ok prior ∧
        gyQspgsVkpsdnHash qsSuite e.sub.vkr = .ok h ∧ prior.vkhash[1]? = some h ∧
        prior.admnAt 1 = false ∧ ∀ i, prior.admnAt i = true → prior.vkhash[i]? ≠ some h := by
  refine ⟨⟨some (symSubmission 2 joinedCore 0 (symKey 0)).slot,
    symSubmission 3 takeoverCore 0 (symKey 1)⟩, ?_, _, { joinedCore with lastVmin := 0 },
    symVkHash (symKey 1), rfl, symSlot_core (symCore_wf 2 (by decide) (by decide)),
    gyQspgsVkpsdnHash_sym _, rfl, rfl, ?_⟩
  · rw [srvRun_founding, srvRun_cons_of_ok _ srvSubmitCore_takeover]
    exact List.mem_cons_of_mem _ (List.mem_cons_of_mem _ List.mem_cons_self)
  · intro i hadmn
    match i with
    | 0 => exact fun h => symKey_ne (Option.some.inj h)
    | 1 => cases hadmn
    | i + 2 => cases hadmn

end Symbolic

/-! ## Lineage -/

/-- The operation and the core of an accepted submission. -/
def Acceptance.IsCore (e : Acceptance β) (a : QspgsOp × QspgsCore β) : Prop :=
  QspgsOp.ofByte e.sub.opKind = some a.1 ∧
    decodeCore desc e.sub.objs.header e.sub.objs.memberList e.sub.objs.vkLst = .ok a.2

/-- What one stored version hands on to the next. -/
structure LineageStep (a b : QspgsOp × QspgsCore β) : Prop where
  gid : b.2.gid = a.2.gid
  format : b.2.formatVersion = a.2.formatVersion
  aead : b.2.aeadId = a.2.aeadId
  vmaj : b.2.vmaj.toNat = a.2.vmaj.toNat + 1
  unchanged : b.1 = .unchanged → b.2.vkhash = a.2.vkhash
  appendOne : b.1 = .appendOne → ∃ h, b.2.vkhash = a.2.vkhash ++ [h]

/-- The lineage of the versions stored one after the other. -/
structure Lineage (cores : List (QspgsOp × QspgsCore β)) : Prop where
  /-- Versions are numbered from one without gaps. -/
  vmaj : ∀ i a, cores[i]? = some a → a.2.vmaj.toNat = i + 1
  /-- What is fixed at creation never changes. -/
  fixed : ∀ a ∈ cores, ∀ b ∈ cores, a.2.gid = b.2.gid ∧
    a.2.formatVersion = b.2.formatVersion ∧ a.2.aeadId = b.2.aeadId
  /-- There is one hash for each member line. -/
  balanced : ∀ a ∈ cores, a.2.members.length = a.2.vkhash.length
  steps : cores.IsChain LineageStep

/-- The submissions that keep the lineage: as many hashes as member lines, and a successor version
that a 32-bit counter still holds. -/
structure Acceptance.InStep (e : Acceptance β) : Prop where
  balanced : ∀ core, decodeCore desc e.sub.objs.header e.sub.objs.memberList e.sub.objs.vkLst =
    .ok core → core.members.length = core.vkhash.length
  headroom : ∀ g prior, e.prior = some g → g.core desc = .ok prior → prior.vmaj.toNat + 1 < 2 ^ 32

/-- The versions stored after `prior`, for submissions in step. -/
theorem srvRun_chain {g : GroupSlot β} {a : QspgsOp × QspgsCore β} (hg : g.core desc = .ok a.2)
    (subs : List (Submission β)) (hstep : ∀ e ∈ srvRun desc (some g) subs, e.InStep desc) :
    ∃ cores, List.Forall₂ (Acceptance.IsCore desc) (srvRun desc (some g) subs) cores ∧
      (a :: cores).IsChain LineageStep ∧
      ∀ b ∈ cores, b.2.members.length = b.2.vkhash.length := by
  induction subs generalizing g a with
  | nil => exact ⟨[], .nil, .singleton a, by simp⟩
  | cons s ss ih =>
    unfold srvRun at hstep ⊢
    split at hstep
    · next g' hs =>
      obtain ⟨hobjs, op, prior, core, sig, ⟨⟨c, hc, rfl⟩, hsig⟩, hprior, hop, hne, hsucc, -⟩ :=
        srvSubmitCore_ok desc hs
      obtain rfl : a.2 = prior := Except.ok.inj (hg.symm.trans hprior)
      have hin := hstep ⟨some g, s⟩ List.mem_cons_self
      have hg' : g'.core desc = .ok c := by rw [GroupSlot.core, hobjs, hc]
      obtain ⟨cores, hall, hchain, hbal⟩ := ih (a := (op, c)) hg' fun e he =>
        hstep e (List.mem_cons_of_mem _ he)
      have hvmaj : c.vmaj.toNat = a.2.vmaj.toNat + 1 := by
        have hnext : c.vmaj = a.2.vmaj + 1 := hsucc.vmaj
        have hroom := hin.headroom g a.2 rfl hprior
        rw [hnext, UInt32.toNat_add]
        exact Nat.mod_eq_of_lt hroom
      refine ⟨(op, c) :: cores, .cons ⟨hop, hc⟩ hall, .cons_cons ?_ hchain, fun b hb => ?_⟩
      · exact ⟨hsucc.gid, hsucc.format, hsucc.aead, hvmaj, hsucc.unchanged, hsucc.appendOne⟩
      · rcases List.mem_cons.mp hb with rfl | hb
        · exact hin.balanced c hc
        · exact hbal b hb
    · exact ih hg hstep

omit [Octet β] [DecidableEq β] [KrMlDsa β] in
/-- Along a lineage the versions count up and the fixed fields stay those of the first version. -/
theorem chain_fixed {a : QspgsOp × QspgsCore β} {cores : List (QspgsOp × QspgsCore β)}
    (hchain : (a :: cores).IsChain LineageStep) :
    (∀ i b, (a :: cores)[i]? = some b → b.2.vmaj.toNat = a.2.vmaj.toNat + i) ∧
      ∀ b ∈ a :: cores, b.2.gid = a.2.gid ∧ b.2.formatVersion = a.2.formatVersion ∧
        b.2.aeadId = a.2.aeadId := by
  induction cores generalizing a with
  | nil =>
    refine ⟨fun i b hb => ?_, by simp⟩
    cases i with
    | zero =>
      obtain rfl := Option.some.inj hb
      rfl
    | succ i => cases hb
  | cons c cores ih =>
    obtain ⟨hstep, hrest⟩ := List.isChain_cons_cons.mp hchain
    obtain ⟨hv, hf⟩ := ih hrest
    refine ⟨fun i b hb => ?_, fun b hb => ?_⟩
    · cases i with
      | zero =>
        obtain rfl := Option.some.inj hb
        rfl
      | succ i =>
        rw [hv i b hb, hstep.vmaj]
        omega
    · rcases List.mem_cons.mp hb with rfl | hb
      · exact ⟨rfl, rfl, rfl⟩
      · obtain ⟨hgid, hfmt, haead⟩ := hf b hb
        exact ⟨hgid.trans hstep.gid, hfmt.trans hstep.format, haead.trans hstep.aead⟩

omit [Octet β] [DecidableEq β] [KrMlDsa β] in
/-- A chain of permitted steps from version one is a lineage. -/
theorem Lineage.of_chain {a : QspgsOp × QspgsCore β} {cores : List (QspgsOp × QspgsCore β)}
    (hchain : (a :: cores).IsChain LineageStep) (hone : a.2.vmaj = 1)
    (hbal : ∀ b ∈ a :: cores, b.2.members.length = b.2.vkhash.length) :
    Lineage (a :: cores) := by
  obtain ⟨hv, hf⟩ := chain_fixed hchain
  refine ⟨fun i b hb => ?_, fun b hb c hc => ?_, hbal, hchain⟩
  · rw [hv i b hb, hone]
    exact Nat.add_comm 1 i
  · obtain ⟨hgid, hfmt, haead⟩ := hf b hb
    obtain ⟨hgid', hfmt', haead'⟩ := hf c hc
    exact ⟨hgid.trans hgid'.symm, hfmt.trans hfmt'.symm, haead.trans haead'.symm⟩

/-- The versions a server stores form a lineage, over every run whose accepted submissions have one
hash for each member line and do not extend the last version a 32-bit counter holds. -/
theorem stored_versions_lineage (subs : List (Submission β))
    (hstep : ∀ e ∈ srvRun desc none subs, e.InStep desc) :
    ∃ cores, List.Forall₂ (Acceptance.IsCore desc) (srvRun desc none subs) cores ∧
      Lineage cores := by
  induction subs with
  | nil => exact ⟨[], .nil, by simp, by simp, by simp, .nil⟩
  | cons s ss ih =>
    unfold srvRun at hstep ⊢
    split at hstep
    · next g hs =>
      obtain ⟨hobjs, core, sig, ⟨⟨c, hc, rfl⟩, hsig⟩, hop, hm, hvk, hv⟩ :=
        srvSubmitCore_create desc hs
      have hg : g.core desc = .ok c := by rw [GroupSlot.core, hobjs, hc]
      obtain ⟨cores, hall, hchain, hbal⟩ := srvRun_chain desc (a := (.create, c)) hg ss fun e he =>
        hstep e (List.mem_cons_of_mem _ he)
      refine ⟨(.create, c) :: cores, .cons ⟨hop, hc⟩ hall, .of_chain hchain hv fun b hb => ?_⟩
      rcases List.mem_cons.mp hb with rfl | hb
      · exact hm.trans hvk.symm
      · exact hbal b hb
    · exact ih hstep

section Symbolic

/-- A symbolic submission with room is in step. -/
theorem symSubmission_inStep {opKind : UInt8} {prior : Option (GroupSlot Sym)}
    {core : QspgsCore Sym} {i : UInt32} {vkr : Bytes Sym} (hwf : core.Wf qsSuite)
    (hbal : core.members.length = core.vkhash.length)
    (hroom : ∀ g p, prior = some g → g.core qsSuite = .ok p → p.vmaj.toNat + 1 < 2 ^ 32) :
    Acceptance.InStep qsSuite ⟨prior, symSubmission opKind core i vkr⟩ where
  balanced c hc := by
    obtain rfl := Except.ok.inj ((decodeCore_bytes qsSuite hwf).symm.trans hc)
    exact hbal
  headroom := hroom

/-- The founding run is in step, and its two versions form a lineage. -/
theorem stored_versions_lineage_founding :
    ∃ cores,
      List.Forall₂ (Acceptance.IsCore qsSuite) (srvRun qsSuite none (foundingRun ++ [])) cores ∧
      Lineage cores := by
  refine stored_versions_lineage qsSuite _ fun e he => ?_
  rw [srvRun_founding] at he
  rcases List.mem_cons.mp he with rfl | he
  · exact symSubmission_inStep (symCore_wf 1 (by decide) (by decide)) rfl fun g p hg => (nomatch hg)
  · rcases List.mem_cons.mp he with rfl | he
    · refine symSubmission_inStep (symCore_wf 2 (by decide) (by decide)) rfl fun g p hg hp => ?_
      obtain rfl := Option.some.inj hg
      obtain rfl := Except.ok.inj
        ((symSlot_core (symCore_wf 1 (by decide) (by decide))).symm.trans hp)
      decide
    · cases he

/-- The admin submits a third line without a hash for it. -/
def unbalancedCore : QspgsCore Sym :=
  symCore 2 ([true, false].map symLine) ([symKey 0].map symVkHash)

/-- A core with more members than hashes is accepted. -/
theorem srvSubmitCore_unbalanced :
    srvSubmitCore qsSuite (some (symSubmission 0 foundedCore 0 (symKey 0)).slot)
      (symSubmission 1 unbalancedCore 0 (symKey 0)) =
        .ok (symSubmission 1 unbalancedCore 0 (symKey 0)).slot :=
  srvSubmitCore_symNext (symCore_wf 1 (by decide) (by decide))
    (symCore_wf 2 (by decide) (by decide)) (length_symKey 0)
    (show QspgsOp.ofByte 1 = some .unchanged from rfl) (by decide)
    ⟨rfl, rfl, rfl, by decide, rfl, rfl, fun _ => rfl, fun h => (nomatch h)⟩
    (by decide) (by decide) (by decide) rfl

/-- A run whose second accepted version has two member lines and one hash. -/
theorem unbalanced_version_stored :
    ¬ ∃ cores, List.Forall₂ (Acceptance.IsCore qsSuite)
        (srvRun qsSuite none [symSubmission 0 foundedCore 0 (symKey 0),
          symSubmission 1 unbalancedCore 0 (symKey 0)]) cores ∧ Lineage cores := by
  rintro ⟨cores, hall, hlin⟩
  rw [srvRun_cons_of_ok _ srvSubmitCore_founded,
    srvRun_cons_of_ok _ srvSubmitCore_unbalanced] at hall
  obtain _ | ⟨-, _ | ⟨hcore, -⟩⟩ := hall
  have hdec := Except.ok.inj
    ((decodeCore_bytes qsSuite (symCore_wf 2 (by decide) (by decide))).symm.trans hcore.2)
  have hbal := hlin.balanced _ (List.mem_cons_of_mem _ List.mem_cons_self)
  rw [← hdec] at hbal
  exact absurd hbal (by decide)

end Symbolic

end Geryon
