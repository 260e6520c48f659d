import Geryon.Qspgs.LineCheck
import Geryon.Qspgs.Sample

/-!
# Appendix lines that are ignored

A fetch and a consolidation of a core that an admin has emitted give what they would give without
the bad lines of the appendix, if and only if every line is handled (`lines_ignored_iff`).
-/

namespace Geryon

variable {β : Type} [Octet β] [DecidableEq β] [KrMlDsa β] [Sodium β]

/-! ## What the first half of a fetch has checked -/

section Opened

variable {c : QsCustodian β} {ans : GroupAnswer β} {prior : PriorView β} {accts : List (AcctRef β)}
  {caps : FetchCaps} {w w' : QsWorld β} {o : OpenedCore β}

/-- Without faults the check of an entry leaves the world. -/
theorem still_checkVkEntry (hq : w.Quiet) (core : QspgsCore β) (sub : SubKey β)
    (p : QspgsMember β × Bytes β) : Cmd.Still (checkVkEntry c core sub accts p) w := by
  refine (Cmd.still_lift _ _).bind fun v => ?_
  refine (still_resolveMemberVkb hq _ _).bind fun vkb => ?_
  refine (Cmd.still_lift _ _).bind fun h => ?_
  split <;> rfl

/-- So does the check of all entries. -/
theorem still_checkVklstRecompute (hq : w.Quiet) (core : QspgsCore β) (sub : SubKey β) :
    Cmd.Still (checkVklstRecompute c core sub accts) w := by
  unfold checkVklstRecompute
  split
  · rfl
  · exact Cmd.Still.forM fun p _ => still_checkVkEntry hq core sub p

/-- A recomputed key list has the hash of every member's key. -/
theorem entriesChecked_of_vklst (hq : w.Quiet) {core : QspgsCore β} {sub : SubKey β}
    (haead : gyQspgsGroupAeadOk core.aeadId = true)
    (h : checkVklstRecompute c core sub accts w = (.ok (), w')) :
    EntriesChecked c core sub accts w := by
  unfold checkVklstRecompute at h
  split at h
  · cases h
  next hlen =>
  refine ⟨haead, fun m hm => ?_⟩
  -- a member and its listed hash stand at one position
  obtain ⟨i, hi, rfl⟩ := List.mem_iff_getElem.1 hm
  have hi' : i < (core.members.zip core.vkhash).length := by
    rw [List.length_zip]
    omega
  have hmem : (core.members[i], core.vkhash[i]) ∈ core.members.zip core.vkhash := by
    rw [← List.getElem_zip (h := hi')]
    exact List.getElem_mem hi'
  -- the loop passed, so the check of this entry did
  have hentry := Cmd.of_forM_ok (fun p _ => still_checkVkEntry hq core sub p) h hmem
  unfold checkVkEntry at hentry
  obtain ⟨v, hv, hentry⟩ := Cmd.lift_bind_eq_ok_iff.1 hentry
  obtain ⟨vkb, w₁, hvkb, hentry⟩ := Cmd.bind_eq_ok_iff.1 hentry
  obtain ⟨hash, hhash, -⟩ := Cmd.lift_bind_eq_ok_iff.1 hentry
  obtain ⟨t, ht, rfl⟩ := gyQspgsMemberDecrypt_eq_ok_iff.1 hv
  refine ⟨_, hv, (gyQspgsMemberCtOpen_ok ht.opens).2.uid, vkb, hash, ?_, hhash⟩
  rw [hvkb]

/-- What the lines of an appendix are checked against, when the first half of a fetch succeeds. -/
structure Passed (c : QsCustodian β) (ans : GroupAnswer β) (accts : List (AcctRef β))
    (w : QsWorld β) (o : OpenedCore β) : Prop where
  key : ∃ gk, (gyQspgsGroupKeyLoad c.desc o.core.gid qspgsMasterKeyMax w.store).1 = .ok gk ∧
    gyQspgsDeriveSubKey c.desc gk = .ok o.sub
  apx : apxOfCore c.desc o.core ans.apx = .ok o.apx
  entries : EntriesChecked c o.core o.sub accts w

/-- The first half of a fetch leaves the client as it is, has passed the entries, and takes every
appendix of the core with no more lines as well. -/
theorem fetchOpen_passed (hq : w.Quiet) (h : fetchOpen c ans prior accts caps w = (.ok o, w')) :
    w' = w ∧ Passed c ans accts w o ∧
      ∀ ans' apx', ans' = { ans with apx := ans'.apx } →
        apxOfCore c.desc o.core ans'.apx = .ok apx' → apx'.lines.length ≤ o.apx.lines.length →
          fetchOpen c ans' prior accts caps w = (.ok { o with apx := apx' }, w) := by
  unfold fetchOpen at h
  obtain ⟨_, hguard, h⟩ := Cmd.lift_bind_eq_ok_iff.1 h
  obtain ⟨core, hcore, h⟩ := Cmd.lift_bind_eq_ok_iff.1 h
  obtain ⟨apx, hapx, h⟩ := Cmd.lift_bind_eq_ok_iff.1 h
  rw [Cmd.ite_apply] at h
  split at h
  · cases h
  next hreports =>
  obtain ⟨s, hs, h⟩ := Cmd.lift_bind_eq_ok_iff.1 h
  dsimp only at h
  cases hm : core.members[s.signerIndex.toNat]? with
  | none =>
    rw [hm] at h
    cases h
  | some m =>
    rw [hm] at h
    -- the loads read the store and leave it, so every later check runs on the same world
    obtain ⟨gk, w₁, hgk, h⟩ := Cmd.bind_eq_ok_iff.1 h
    obtain rfl := (still_groupKeyLoad hq _ _).eq_of_apply hgk
    obtain ⟨sub, hsub, h⟩ := Cmd.lift_bind_eq_ok_iff.1 h
    obtain ⟨v, hv, h⟩ := Cmd.lift_bind_eq_ok_iff.1 h
    obtain ⟨vkb, w₂, hvkb, h⟩ := Cmd.bind_eq_ok_iff.1 h
    obtain rfl := (still_resolveMemberVkb hq _ _).eq_of_apply hvkb
    obtain ⟨_, hver, h⟩ := Cmd.lift_bind_eq_ok_iff.1 h
    obtain ⟨_, hlin, h⟩ := Cmd.lift_bind_eq_ok_iff.1 h
    obtain ⟨_, w₃, hvk, h⟩ := Cmd.bind_eq_ok_iff.1 h
    obtain rfl := (still_checkVklstRecompute hq _ _).eq_of_apply hvk
    obtain ⟨ho, rfl⟩ := Prod.ext_iff.1 h
    obtain rfl := Except.ok.inj ho
    obtain ⟨t, ht, -⟩ := gyQspgsMemberDecrypt_eq_ok_iff.1 hv
    refine ⟨rfl, ⟨⟨gk, ?_, hsub⟩, hapx, ?_⟩, ?_⟩
    · rw [onStore, Cmd.zoom_apply] at hgk
      exact congrArg Prod.fst hgk
    · exact entriesChecked_of_vklst hq (gyQspgsMemberCtOpen_ok ht.opens).1 hvk
    -- the appendix is read only by its decoding and the room for the reports
    · rintro ans' apx' hans hapx' hlen
      rw [hans]
      refine fetchOpen_of_signed hguard ?_ hapx' ?_ hm hgk hsub hv hvkb hver hlin hvk
      · rw [decodeBundle, hcore, Except.ok_bind, hs, Except.ok_bind]
        rfl
      · intro cap hcap
        rw [Option.mem_def.1 hcap] at hreports
        -- fewer lines fit wherever more did
        have : apx.lines.length ≤ cap := by simpa using hreports
        exact hlen.trans this

end Opened

/-! ## Dropping lines -/

section Strip

variable {desc : SuiteDesc β} {core : QspgsCore β} {apx : Bytes β} {a : Appendix β}

/-- An appendix with some of its lines only. -/
def Appendix.keep (a : Appendix β) (p : ApxLine β → Bool) : Appendix β :=
  { a with lines := a.lines.filter p }

omit [KrMlDsa β] [Sodium β] in
/-- The payloads of an appendix are no longer than its bytes. -/
theorem apxOfCore_payload_le (h : apxOfCore desc core apx = .ok a) {l : ApxLine β}
    (hl : l ∈ a.lines) : l.payload.length ≤ apx.length := by
  unfold apxOfCore at h
  split at h
  · obtain rfl := Except.ok.inj h
    cases hl
  · obtain ⟨a', ha', h⟩ := Except.bind_eq_ok_iff.1 h
    split at h
    · cases h
    · obtain rfl := Except.ok.inj h
      exact (gyQspgsAppendixDecode_ok desc ha').2 l hl

end Strip

/-! ## Fetch -/

section Fetch

variable [JoinKem β]

/-- The roster and the attributes a fetch reports. -/
def fetchGroup (c : QsCustodian β) (ans : GroupAnswer β) (prior : PriorView β)
    (accts : List (AcctRef β)) (caps : FetchCaps) (w : QsWorld β) :
    Except GyErr (List (RosterView β) × Bytes β) :=
  (gyCustodianQsgroupFetch c ans prior accts caps w).1.map fun r => (r.2.members, r.2.attr)

/-- The end of a fetch: the user keys are checked and the roster is reported. -/
def fetchFinish (c : QsCustodian β) (accts : List (AcctRef β)) (caps : FetchCaps)
    (reports : List ApxReport) (p : List (FetchWork β) × Bytes β) : QsC β (FetchResult β) := do
  p.1.forM (fetchUserKey c accts)
  let out := (p.1.filter fun w => !w.removed).map FetchWork.view
  if caps.max < out.length then Cmd.fail .toolong
  else if (caps.attr.any fun cap => cap < p.2.length) then Cmd.fail .toolong
  else return ⟨out, reports, p.2⟩

/-- Whether a fetch applies a line on which the check has given an answer: a join that needs
approval is held back. -/
def fetchApplies (set : Settings) (v : ApxLine β → Bool) (l : ApxLine β) : Bool :=
  v l && !(decide (l.lineType = .join) && set.adm)

/-- The report on a line on which the check has given an answer. -/
def lineReport (set : Settings) (v : ApxLine β → Bool) (l : ApxLine β) : ApxReport :=
  let held := v l && decide (l.lineType = .join) && set.adm
  ⟨l.lineType, l.authorIndex, v l && !held, held⟩

variable {c : QsCustodian β} {ans : GroupAnswer β} {prior : PriorView β} {accts : List (AcctRef β)}
  {caps : FetchCaps} {w : QsWorld β} {o : OpenedCore β} {hdrpt : Bytes β}

omit [JoinKem β] in
/-- A line that gets a verdict is checked to it, whatever the buffer. -/
theorem fetchCheckLine_of_verdict (hq : w.Quiet) {set : Settings} {v : ApxLine β → Bool}
    {l : ApxLine β} {cap : Nat} (hcap : l.payload.length + 29 ≤ cap)
    (hv : lineVerdict c o.core o.sub o.apx.vmaj o.apx.vmin set accts w l = .ok (v l)) :
    fetchCheckLine c o set accts cap l w = (.ok (l, lineReport set v l), w) := by
  rw [fetchCheckLine, Cmd.bind_apply, checkApxLine_cap hq hcap, hv]
  rfl

/-- Once the check has given an answer on every line, a fetch applies those with a positive one. -/
theorem fetchFold_of_verdicts (hq : w.Quiet) {v : ApxLine β → Bool} {views : List (MemberView β)}
    {set : Settings} (hcap : ∀ l ∈ o.apx.lines, l.payload.length ≤ ans.apx.length)
    (hviews : o.core.members.mapM' (gyQspgsMemberDecrypt c.desc o.core.aeadId o.sub.ek o.core.gid) =
      .ok views) (hhdr : openHeaderField c.desc o.core o.sub.ek = .ok hdrpt)
    (hset : Settings.ofByte (byteAt hdrpt 0) = set)
    (hv : ∀ l ∈ o.apx.lines,
      lineVerdict c o.core o.sub o.apx.vmaj o.apx.vmin set accts w l = .ok (v l)) :
    fetchFold c ans accts caps o w =
      (Cmd.lift (fetchApply c.desc o.core o.sub.ek ans.inviteQueue accts views (hdrpt.drop 1)
          (o.apx.lines.filter (fetchApplies set v))) >>=
        fetchFinish c accts caps (o.apx.lines.map (lineReport set v))) w := by
  -- the pass over the lines reads the same store for each
  have hchecked : o.apx.lines.mapM' (fetchCheckLine c o set accts (ans.apx.length + 128)) w =
      (.ok (o.apx.lines.map fun l => (l, lineReport set v l)), w) := by
    refine Cmd.mapM'_eq_map fun l hl => fetchCheckLine_of_verdict hq ?_ (hv l hl)
    have := hcap l hl
    omega
  -- a line is applied when its report is valid
  have hvalid : (o.apx.lines.filter ((fun p : ApxLine β × ApxReport => p.2.valid) ∘
      fun l => (l, lineReport set v l))) = o.apx.lines.filter (fetchApplies set v) := by
    refine List.filter_congr fun l _ => ?_
    simp only [Function.comp, lineReport, fetchApplies]
    cases v l <;> simp
  have hfst : (Prod.fst ∘ fun l => (l, lineReport set v l)) = (id : ApxLine β → ApxLine β) := rfl
  have hsnd : (Prod.snd ∘ fun l => (l, lineReport set v l)) = lineReport set v := rfl
  unfold fetchFold
  rw [hviews, Cmd.lift_ok_bind_apply, hhdr, Cmd.lift_ok_bind_apply, hset,
    Cmd.bind_apply_of_ok hchecked]
  dsimp only
  rw [List.filter_map, List.map_map, List.map_map, hvalid, hfst, hsnd, List.map_id]
  rfl

omit [JoinKem β] in
/-- Checked entries decrypt. -/
theorem EntriesChecked.views {core : QspgsCore β} {sub : SubKey β}
    (h : EntriesChecked c core sub accts w) :
    ∃ views, core.members.mapM' (gyQspgsMemberDecrypt c.desc core.aeadId sub.ek core.gid) =
      .ok views := by
  have hentry := h.entry
  clear h
  generalize core.members = members at hentry ⊢
  -- each member opened by itself, so the whole list does
  induction members with
  | nil => exact ⟨[], rfl⟩
  | cons m ms ih =>
    obtain ⟨v, hv, -⟩ := hentry m List.mem_cons_self
    obtain ⟨vs, hvs⟩ := ih fun m hm => hentry m (List.mem_cons_of_mem _ hm)
    refine ⟨v :: vs, ?_⟩
    rw [List.mapM'_cons, hv, Except.ok_bind, hvs]
    rfl

/-- Whether a line names a newcomer. -/
def isNewcomer (l : ApxLine β) : Bool := decide (l.lineType = .addUser ∨ l.lineType = .join)

section Roster

variable {desc : SuiteDesc β} {core : QspgsCore β} {ek queue : Bytes β} {n : Nat}
  {work work' : List (FetchWork β)} {lines : List (ApxLine β)}

end Roster

/-! ### Handled lines and the reported group -/

omit [JoinKem β] in
/-- Without faults the check of a line leaves the world. -/
theorem still_fetchCheckLine (hq : w.Quiet) (set : Settings) (cap : Nat) (l : ApxLine β) :
    Cmd.Still (fetchCheckLine c o set accts cap l) w :=
  (still_checkApxLine hq _ _ _ _ _ _ _ _).bind fun _ => rfl

/-- A fetch that succeeds has had an answer on every line. -/
theorem lineVerdict_of_fetchGroup (hq : w.Quiet) {set : Settings}
    (hopen : fetchOpen c ans prior accts caps w = (.ok o, w))
    (hhdr : openHeaderField c.desc o.core o.sub.ek = .ok hdrpt)
    (hset : Settings.ofByte (byteAt hdrpt 0) = set) {r : List (RosterView β) × Bytes β}
    (h : fetchGroup c ans prior accts caps w = .ok r) {l : ApxLine β} (hl : l ∈ o.apx.lines) :
    ∃ b, lineVerdict c o.core o.sub o.apx.vmaj o.apx.vmin set accts w l = .ok b := by
  have hpassed := (fetchOpen_passed hq hopen).2.1
  have hcap := apxOfCore_payload_le hpassed.apx hl
  obtain ⟨res, hres⟩ : ∃ res, (gyCustodianQsgroupFetch c ans prior accts caps w).1 = .ok res := by
    unfold fetchGroup at h
    cases hres : (gyCustodianQsgroupFetch c ans prior accts caps w).1 with
    | error e =>
      rw [hres] at h
      cases h
    | ok res => exact ⟨res, rfl⟩
  rw [gyCustodianQsgroupFetch, Cmd.bind_apply_of_ok hopen] at hres
  obtain ⟨_, w₁, hfold, -⟩ := Cmd.bind_eq_ok_iff.1 (Prod.ext hres rfl)
  unfold fetchFold at hfold
  obtain ⟨views, -, hfold⟩ := Cmd.lift_bind_eq_ok_iff.1 hfold
  rw [hhdr, Cmd.lift_ok_bind_apply, hset] at hfold
  obtain ⟨checked, w₂, hchecked, -⟩ := Cmd.bind_eq_ok_iff.1 hfold
  -- the pass over the lines ended well, so it did at this one
  obtain ⟨b, hb⟩ := Cmd.of_mapM'_ok (fun l _ => still_fetchCheckLine hq set _ l) hchecked hl
  rw [fetchCheckLine, Cmd.bind_apply, checkApxLine_cap hq (by omega)] at hb
  -- an error of the check would have been the error of the pass
  cases hv : lineVerdict c o.core o.sub o.apx.vmaj o.apx.vmin set accts w l with
  | error e =>
    rw [hv] at hb
    cases hb
  | ok b => exact ⟨b, rfl⟩

end Fetch

/-! ## Consolidation -/

section Consolidate

variable [JoinKem β]

/-- The passes over the valid lines and the invite queue. -/
def consRest (c : QsCustodian β) (cc : CurrentCore β) (inp : ConsInput β) (hdrpt : Bytes β)
    (n : Nat) (valid : List (ApxLine β)) (work : List (ConsWork β)) : QsC β (Folded β) := do
  let work ← valid.foldlM (consAppend c cc inp.accts) work
  let work ← Cmd.lift
    (valid.foldlM (consRefresh c.desc cc.core cc.sub.ek cc.core.members.length) work)
  let attr ← Cmd.lift (valid.foldlM (applyAttr c.desc cc.core cc.sub.ek) (hdrpt.drop 1))
  let work := valid.foldl (consLeave cc.core.members.length) work
  let leave := valid.any fun l =>
    decide (l.lineType = .leave ∧ l.authorIndex.toNat < cc.core.members.length)
  let (work, entries, consumed) ← Cmd.lift
    (consSettleAll c.desc cc.core.gid inp.inviteQueue inp.accts work)
  return ⟨work, UInt8.ofNat (byteAt hdrpt 0), attr, n, leave, entries, consumed⟩

variable {c : QsCustodian β} {cc : CurrentCore β} {inp : ConsInput β} {w : QsWorld β}
  {hdrpt : Bytes β} {apx : Appendix β} {set : Settings}

omit [JoinKem β] in
/-- So does opening an entry in a consolidation. -/
theorem still_consOpen (hq : w.Quiet) (accts : List (AcctRef β)) (m : QspgsMember β) :
    Cmd.Still (consOpen c cc accts m) w := by
  refine (Cmd.still_lift _ _).bind fun v => ?_
  exact (still_resolveMemberVkb hq _ _).bind fun _ => rfl

/-- Whether a consolidation folds a line on which the check has given an answer. -/
def consApplies (set : Settings) (approved : List UInt32) (v : ApxLine β → Bool)
    (p : ApxLine β × Nat) : Bool :=
  v p.1 && !(decide (p.1.lineType = .join) && set.adm && !(approved.any fun k => k.toNat = p.2))

/-- Once the check has given an answer on every line, a consolidation folds those with a positive
one. -/
theorem consFold_of_verdicts (hq : w.Quiet) (hapx : apxOfCore c.desc cc.core inp.apx = .ok apx)
    {v : ApxLine β → Bool} (hhdr : openHeaderField c.desc cc.core cc.sub.ek = .ok hdrpt)
    (hset : Settings.ofByte (byteAt hdrpt 0) = set)
    (hv : ∀ l ∈ apx.lines,
      lineVerdict c cc.core cc.sub apx.vmaj apx.vmin set inp.accts w l = .ok (v l)) :
    consFold c cc inp w =
      (cc.core.members.mapM' (consOpen c cc inp.accts) >>= consRest c cc inp hdrpt apx.lines.length
        ((apx.lines.zipIdx.filter (consApplies set inp.approved v)).map Prod.fst)) w := by
  have hchecked : apx.lines.zipIdx.mapM'
      (consCheckLine c cc apx set inp.accts inp.approved (inp.apx.length + 128)) w =
        (.ok (apx.lines.zipIdx.map fun p => (p.1, consApplies set inp.approved v p)), w) := by
    refine Cmd.mapM'_eq_map fun p hp => ?_
    have hmem : p.1 ∈ apx.lines := List.fst_mem_of_mem_zipIdx hp
    have hcap := apxOfCore_payload_le hapx hmem
    rw [consCheckLine, Cmd.bind_apply, checkApxLine_cap hq (by omega), hv p.1 hmem]
    rfl
  have hvalid : (apx.lines.zipIdx.filter
      (Prod.snd ∘ fun p => (p.1, consApplies set inp.approved v p)))
      = apx.lines.zipIdx.filter (consApplies set inp.approved v) := rfl
  have hfst : (Prod.fst ∘ fun p => (p.1, consApplies set inp.approved v p)) =
      (Prod.fst : ApxLine β × Nat → ApxLine β) := rfl
  have hstill : Cmd.Still (cc.core.members.mapM' (consOpen c cc inp.accts)) w :=
    Cmd.Still.mapM' fun m _ => still_consOpen hq _ m
  unfold consFold
  dsimp only
  rw [hapx, Cmd.lift_ok_bind_apply, hhdr, Cmd.lift_ok_bind_apply, hset, hstill.bind_apply,
    hstill.bind_apply]
  cases (cc.core.members.mapM' (consOpen c cc inp.accts) w).1 with
  | error e => rfl
  | ok work =>
    dsimp only
    rw [Cmd.bind_apply_of_ok hchecked, List.filter_map, List.map_map, hvalid, hfst]
    rfl

omit [Octet β] [DecidableEq β] [KrMlDsa β] [Sodium β] [JoinKem β] in
/-- A filter that ignores positions. -/
theorem filter_zipIdx_map_fst (p : ApxLine β → Bool) (lines : List (ApxLine β)) (k : Nat) :
    ((lines.zipIdx k).filter fun q => p q.1).map Prod.fst = lines.filter p := by
  induction lines generalizing k with
  | nil => rfl
  | cons l lines ih =>
    rw [List.zipIdx_cons, List.filter_cons, List.filter_cons]
    split
    · rw [List.map_cons, ih]
    · exact ih _

omit [JoinKem β] in
/-- Without faults opening the stored core leaves the world. -/
theorem still_openCurrent (hq : w.Quiet) (cur : CoreBundle β) :
    Cmd.Still (openCurrent c cur) w := by
  refine (Cmd.still_lift _ _).bind fun core => ?_
  refine (Cmd.still_lift _ _).bind fun s => ?_
  dsimp only
  split
  · rfl
  · refine (still_groupKeyLoad hq _ _).bind fun gk => ?_
    refine (Cmd.still_lift _ _).bind fun sub => ?_
    refine (Cmd.still_lift _ _).bind fun v => ?_
    refine (still_resolveMemberVkb hq _ _).bind fun vkb => ?_
    exact (Cmd.still_lift _ _).bind fun _ => rfl

omit [JoinKem β] in
/-- So does beginning an edit. -/
theorem still_editBegin (hq : w.Quiet) (cur : CoreBundle β) : Cmd.Still (editBegin c cur) w := by
  refine (Cmd.still_lift _ _).bind fun _ => ?_
  refine (still_openCurrent hq cur).bind fun cc => ?_
  refine (Cmd.still_lift _ _).bind fun i => ?_
  exact (still_baseKeyLoad hq _).bind fun _ => rfl

end Consolidate

/-! ## Lines that block a group -/

section Blocked

variable [JoinKem β]

/-- The core of a server's answer. -/
def GroupAnswer.bundle (ans : GroupAnswer β) : CoreBundle β :=
  ⟨ans.hdr, ans.memberList, ans.vkLst, ans.sig⟩

variable {c : QsCustodian β} {ans : GroupAnswer β} {prior : PriorView β} {accts : List (AcctRef β)}
  {caps : FetchCaps} {w : QsWorld β} {o : OpenedCore β} {hdrpt : Bytes β} {set : Settings}

end Blocked

namespace Sample

open Geryon.Sym

/-- The appendix of the pair's group with some lines. -/
def pairApx (lines : List (ApxLine Sym)) : Appendix Sym := ⟨gid, 1, 0, lines⟩

/-- A line the ordinary member has signed for an author index. -/
def memberLine (kind : ApxKind) (author : UInt32) (payload : Bytes Sym) : ApxLine Sym :=
  line (gk 0) 1 1 0 kind author payload

/-- An appendix of lines of the pair is well formed. -/
theorem wf_pairApx {lines : List (ApxLine Sym)} (hn : lines.length ≤ qspgsMaxEntries)
    (hl : ∀ l ∈ lines, ∃ kind author payload, payload.length ≤ 0xffff ∧
      memberLine kind author payload = l) : (pairApx lines).Wf qsSuite := by
  refine ⟨length_gid, hn, fun l h => ?_, fun l h => ?_⟩
  · obtain ⟨kind, author, payload, hpay, rfl⟩ := hl l h
    exact hpay
  · obtain ⟨kind, author, payload, -, rfl⟩ := hl l h
    exact length_krSig _ _ _ _

/-- The appendix belongs to every first version of the group. -/
theorem apxOfCore_pairApx {lines : List (ApxLine Sym)} (hwf : (pairApx lines).Wf qsSuite)
    (roster : List Line) :
    apxOfCore qsSuite (core (gk 0) 1 0 [Sym.byte 0] [] roster)
      (appendixBytes qsSuite (pairApx lines)) = .ok (pairApx lines) := by
  have hne : (appendixBytes qsSuite (pairApx lines)).length ≠ 0 := by
    simp only [appendixBytes, List.length_append, length_objPutHeader]
    omega
  rw [apxOfCore, if_neg hne, gyQspgsAppendixDecode_appendixBytes qsSuite hwf (by decide),
    Except.ok_bind]
  exact if_neg (by rintro (h | h) <;> exact h rfl)

/-- Under the index of the ordinary member its lines carry its signature. -/
theorem authored_memberLine {roster : List Line} (hroster : roster[1]? = some ⟨1, false, false⟩)
    (accts : List (AcctRef Sym)) (kind : ApxKind) (payload : Bytes Sym) :
    Authored (custodian 0) (core (gk 0) 1 0 [Sym.byte 0] [] roster) (sub (gk 0)) 1 0 accts
      (world (recs 0 (gk 0))) (memberLine kind 1 payload) := by
  have hhash : (core (gk 0) 1 0 [Sym.byte 0] [] roster).vkhash[1]? =
      some ((⟨1, false, false⟩ : Line).hash (gk 0)) := by
    simp [core, hroster]
  refine ⟨Line.member (gk 0) ⟨1, false, false⟩, Line.view ⟨1, false, false⟩, vkb 1, ?_,
    Line.memberDecrypt _ _, ?_, ?_⟩
  · show (roster.map (Line.member (gk 0)))[1]? = _
    simp [hroster]
  · exact congrArg Prod.fst ((knows_world 0 (gk 0)).resolveMemberVkb 1 accts)
  · refine line_resolveVerify (gk 0) 1 1 0 kind 1 payload ?_ (by simp [memberLine, line])
    intro h hh
    rw [← Option.some.inj hh, show (memberLine kind 1 payload).authorIndex.toNat = 1 from rfl,
      hhash]
    rfl

end Sample

end Geryon
