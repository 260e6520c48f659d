import Geryon.Qspgs.Consolidate

/-!
# What an opened core has passed

Inversions of the calls that read a core: what `open_current`, the first half of a fetch and the
join over a link have established when they succeed, and when they do.
-/

namespace Geryon

variable {β : Type} [Octet β] [DecidableEq β] [KrMlDsa β] [Sodium β]

/-- The signature of a core verifies under the key of the line its signer index names, which opens
under the group key to the given view. -/
structure SignedByLine (desc : SuiteDesc β) (core : QspgsCore β) (s : CoreSig β) (gk : Bytes β)
    (v : MemberView β) : Prop where
  exists_line : ∃ m sub vkb cap, core.members[s.signerIndex.toNat]? = some m ∧
    gyQspgsDeriveSubKey desc gk = .ok sub ∧
    gyQspgsMemberDecrypt desc core.aeadId sub.ek core.gid m = .ok v ∧
    gyQspgsCoreResolveVerify desc core s.signerIndex sub.rrs vkb v.uid s.sig cap = .ok ()

/-- A core with its signature, as the objects of a bundle decode. -/
def decodeBundle (desc : SuiteDesc β) (b : CoreBundle β) : Except GyErr (QspgsCore β × CoreSig β) :=
  do
    let core ← decodeCore desc b.hdr b.memberList b.vkLst
    let s ← gyQspgsCoreSigDecode desc b.sig
    return ({ core with lastVmin := s.lastVmin }, s)

omit [Octet β] [DecidableEq β] [KrMlDsa β] [Sodium β] in
/-- A store call followed by a client call succeeds if both do. -/
theorem onStore_bind_eq_ok_iff {α τ : Type} {x : QsM β α} {f : α → QsC β τ} {w w' : QsWorld β}
    {b : τ} :
    (onStore x >>= f) w = (.ok b, w') ↔
      ∃ a, (x w.store).1 = .ok a ∧ f a { w with store := (x w.store).2 } = (.ok b, w') := by
  rw [Cmd.bind_apply, onStore, Cmd.zoom_apply]
  rcases (x w.store) with ⟨_ | a, st⟩ <;> simp

/-- What `open_current` has established when it succeeds. -/
theorem openCurrent_ok {c : QsCustodian β} {cur : CoreBundle β} {w w' : QsWorld β}
    {cc : CurrentCore β} (h : openCurrent c cur w = (.ok cc, w')) :
    decodeBundle c.desc cur = .ok (cc.core, cc.sig) ∧
      (gyQspgsGroupKeyLoad c.desc cc.core.gid qspgsMasterKeyMax w.store).1 = .ok cc.gk ∧
      gyQspgsDeriveSubKey c.desc cc.gk = .ok cc.sub ∧
      ∃ v, SignedByLine c.desc cc.core cc.sig cc.gk v := by
  unfold openCurrent at h
  obtain ⟨core, hcore, h⟩ := Cmd.lift_bind_eq_ok_iff.1 h
  obtain ⟨s, hs, h⟩ := Cmd.lift_bind_eq_ok_iff.1 h
  dsimp only at h
  cases hm : core.members[s.signerIndex.toNat]? with
  | none =>
    rw [hm] at h
    cases h
  | some m =>
    rw [hm] at h
    obtain ⟨gk, hgk, h⟩ := onStore_bind_eq_ok_iff.1 h
    obtain ⟨sub, hsub, h⟩ := Cmd.lift_bind_eq_ok_iff.1 h
    obtain ⟨v, hv, h⟩ := Cmd.lift_bind_eq_ok_iff.1 h
    obtain ⟨vkb, w₁, -, h⟩ := Cmd.bind_eq_ok_iff.1 h
    obtain ⟨_, hver, h⟩ := Cmd.lift_bind_eq_ok_iff.1 h
    obtain rfl : (⟨{ core with lastVmin := s.lastVmin }, s, gk, sub⟩ : CurrentCore β) = cc :=
      Except.ok.inj (congrArg Prod.fst h)
    refine ⟨?_, hgk, hsub, v, ⟨m, sub, vkb, _, hm, hsub, hv, hver⟩⟩
    simp only [decodeBundle, hcore, hs, Except.ok_bind]
    rfl

/-- A core that decodes, and whose signature verifies under the line it names, is opened. -/
theorem openCurrent_of_signed {c : QsCustodian β} {cur : CoreBundle β} {w w₁ w₂ : QsWorld β}
    {core : QspgsCore β} {s : CoreSig β} {m : QspgsMember β} {gk vkb : Bytes β} {sub : SubKey β}
    {v : MemberView β} (hdec : decodeBundle c.desc cur = .ok (core, s))
    (hm : core.members[s.signerIndex.toNat]? = some m)
    (hgk : onStore (gyQspgsGroupKeyLoad c.desc core.gid qspgsMasterKeyMax) w = (.ok gk, w₁))
    (hsub : gyQspgsDeriveSubKey c.desc gk = .ok sub)
    (hv : gyQspgsMemberDecrypt c.desc core.aeadId sub.ek core.gid m = .ok v)
    (hvkb : resolveMemberVkb c v.uid [] w₁ = (.ok vkb, w₂))
    (hver : gyQspgsCoreResolveVerify c.desc core s.signerIndex sub.rrs vkb v.uid s.sig
      (cur.hdr.length + cur.memberList.length + cur.vkLst.length + 64) = .ok ()) :
    openCurrent c cur w = (.ok ⟨core, s, gk, sub⟩, w₂) := by
  obtain ⟨core₀, hcore, hdec⟩ := Except.bind_eq_ok_iff.1 hdec
  obtain ⟨s₀, hs, hdec⟩ := Except.bind_eq_ok_iff.1 hdec
  obtain ⟨rfl, rfl⟩ := Prod.ext_iff.1 (Except.ok.inj hdec)
  unfold openCurrent
  rw [hcore, Cmd.lift_ok_bind_apply, hs, Cmd.lift_ok_bind_apply]
  dsimp only at hm hgk hv hver ⊢
  rw [hm]
  dsimp only
  rw [Cmd.bind_apply_of_ok hgk, hsub, Cmd.lift_ok_bind_apply, hv, Cmd.lift_ok_bind_apply,
    Cmd.bind_apply_of_ok hvkb, hver, Cmd.lift_ok_bind_apply]
  rfl

theorem editBegin_ok {c : QsCustodian β} {cur : CoreBundle β} {w w' : QsWorld β} {e : EditCtx β}
    (h : editBegin c cur w = (.ok e, w')) : ∃ w₁, openCurrent c cur w = (.ok e.cur, w₁) := by
  unfold editBegin at h
  obtain ⟨_, -, h⟩ := Cmd.lift_bind_eq_ok_iff.1 h
  obtain ⟨cc, w₁, hcc, h⟩ := Cmd.bind_eq_ok_iff.1 h
  obtain ⟨selfIdx, -, h⟩ := Cmd.lift_bind_eq_ok_iff.1 h
  obtain ⟨p, -, h⟩ := onStore_bind_eq_ok_iff.1 h
  obtain rfl : (⟨cc, selfIdx, p.1, p.2⟩ : EditCtx β) = e := Except.ok.inj (congrArg Prod.fst h)
  exact ⟨w₁, hcc⟩

theorem editBegin_of_opened {c : QsCustodian β} {cur : CoreBundle β} {w w₁ w₂ : QsWorld β}
    {cc : CurrentCore β} {i : UInt32} {skb vkb : Bytes β} (hguard : qsgroupGuard c = .ok ())
    (hopen : openCurrent c cur w = (.ok cc, w₁))
    (hself : selfAdminIndex c cc.core cc.sub.ek = .ok i)
    (hbase : onStore (gyQspgsBaseKeyLoad c.desc c.selfUid) w₁ = (.ok (skb, vkb), w₂)) :
    editBegin c cur w = (.ok ⟨cc, i, skb, vkb⟩, w₂) := by
  rw [editBegin, hguard, Cmd.lift_ok_bind_apply, Cmd.bind_apply_of_ok hopen, hself,
    Cmd.lift_ok_bind_apply, Cmd.bind_apply_of_ok hbase]
  rfl

theorem appendixPrepare_of_opened {c : QsCustodian β} {cur : CoreBundle β} {w w₁ w₂ : QsWorld β}
    {cc : CurrentCore β} {i : UInt32} {skb vkb : Bytes β} {mctx : MemberCtx β}
    (hguard : qsgroupGuard c = .ok ()) (hopen : openCurrent c cur w = (.ok cc, w₁))
    (hself : findSelfIndex c cc.core cc.sub.ek = .ok i)
    (hbase : onStore (gyQspgsBaseKeyLoad c.desc c.selfUid) w₁ = (.ok (skb, vkb), w₂))
    (hctx : gyQspgsMemberCtxOpen c.desc cc.gk skb vkb c.selfUid = .ok mctx) :
    appendixPrepare c cur w = (.ok ⟨cc, mctx, i⟩, w₂) := by
  rw [appendixPrepare, hguard, Cmd.lift_ok_bind_apply, Cmd.bind_apply_of_ok hopen, hself,
    Cmd.lift_ok_bind_apply, Cmd.bind_apply_of_ok hbase]
  dsimp only
  rw [hctx, Cmd.lift_ok_bind_apply]
  rfl

theorem appendixPrepare_ok {c : QsCustodian β} {cur : CoreBundle β} {w w' : QsWorld β}
    {l : LineCtx β} (h : appendixPrepare c cur w = (.ok l, w')) :
    ∃ w₁, openCurrent c cur w = (.ok l.cur, w₁) := by
  unfold appendixPrepare at h
  obtain ⟨_, -, h⟩ := Cmd.lift_bind_eq_ok_iff.1 h
  obtain ⟨cc, w₁, hcc, h⟩ := Cmd.bind_eq_ok_iff.1 h
  obtain ⟨selfIdx, -, h⟩ := Cmd.lift_bind_eq_ok_iff.1 h
  obtain ⟨p, -, h⟩ := onStore_bind_eq_ok_iff.1 h
  obtain ⟨mctx, -, h⟩ := Cmd.lift_bind_eq_ok_iff.1 h
  obtain rfl : (⟨cc, mctx, selfIdx⟩ : LineCtx β) = l := Except.ok.inj (congrArg Prod.fst h)
  exact ⟨w₁, hcc⟩

omit [KrMlDsa β] in
/-- The admin flag of a view is that of its line. -/
theorem gyQspgsMemberDecrypt_admn {desc : SuiteDesc β} {aeadId : UInt8} {ek gid : Bytes β}
    {m : QspgsMember β} {v : MemberView β}
    (h : gyQspgsMemberDecrypt desc aeadId ek gid m = .ok v) : v.admn = m.admn := by
  unfold gyQspgsMemberDecrypt at h
  split at h
  · cases h
  obtain ⟨t, -, h⟩ := Except.bind_eq_ok_iff.1 h
  obtain ⟨computed, -, h⟩ := Except.bind_eq_ok_iff.1 h
  split at h
  · cases h
  obtain rfl := Except.ok.inj h
  rfl

omit [Octet β] [KrMlDsa β] [Sodium β] in
/-- The lineage check passes an admin's core only. -/
theorem lineageCheck_admn {core : QspgsCore β} {uid : Bytes β} {admn : Bool} {prior : PriorView β}
    (h : lineageCheck core uid admn prior = .ok ()) : admn = true := by
  cases admn with
  | true => rfl
  | false => cases h

/-- What the first half of a fetch has established when it succeeds. -/
theorem fetchOpen_ok {c : QsCustodian β} {ans : GroupAnswer β} {prior : PriorView β}
    {accts : List (AcctRef β)} {caps : FetchCaps} {w w' : QsWorld β} {o : OpenedCore β}
    (h : fetchOpen c ans prior accts caps w = (.ok o, w')) :
    decodeBundle c.desc ⟨ans.hdr, ans.memberList, ans.vkLst, ans.sig⟩ = .ok (o.core, o.sig) ∧
      ∃ gk, (gyQspgsGroupKeyLoad c.desc o.core.gid qspgsMasterKeyMax w.store).1 = .ok gk ∧
        SignedByLine c.desc o.core o.sig gk o.signer ∧ o.signer.admn = true ∧
        lineageCheck o.core o.signer.uid true prior = .ok () := by
  unfold fetchOpen at h
  obtain ⟨_, -, h⟩ := Cmd.lift_bind_eq_ok_iff.1 h
  obtain ⟨core, hcore, h⟩ := Cmd.lift_bind_eq_ok_iff.1 h
  obtain ⟨apx, -, h⟩ := Cmd.lift_bind_eq_ok_iff.1 h
  rw [Cmd.ite_apply] at h
  split at h
  · cases h
  obtain ⟨s, hs, h⟩ := Cmd.lift_bind_eq_ok_iff.1 h
  dsimp only at h
  cases hm : core.members[s.signerIndex.toNat]? with
  | none =>
    rw [hm] at h
    cases h
  | some m =>
    rw [hm] at h
    obtain ⟨gk, hgk, h⟩ := onStore_bind_eq_ok_iff.1 h
    obtain ⟨sub, hsub, h⟩ := Cmd.lift_bind_eq_ok_iff.1 h
    obtain ⟨v, hv, h⟩ := Cmd.lift_bind_eq_ok_iff.1 h
    obtain ⟨vkb, w₁, -, h⟩ := Cmd.bind_eq_ok_iff.1 h
    obtain ⟨_, hver, h⟩ := Cmd.lift_bind_eq_ok_iff.1 h
    obtain ⟨_, hlin, h⟩ := Cmd.lift_bind_eq_ok_iff.1 h
    obtain ⟨_, w₂, -, h⟩ := Cmd.bind_eq_ok_iff.1 h
    obtain rfl : (⟨{ core with lastVmin := s.lastVmin }, apx, s, v, sub⟩ : OpenedCore β) = o :=
      Except.ok.inj (congrArg Prod.fst h)
    have hadmn : m.admn = true := lineageCheck_admn hlin
    refine ⟨?_, gk, hgk, ⟨m, sub, vkb, _, hm, hsub, hv, hver⟩, ?_, ?_⟩
    · simp only [decodeBundle, hcore, hs, Except.ok_bind]
      rfl
    · exact (gyQspgsMemberDecrypt_admn hv).trans hadmn
    · rwa [hadmn] at hlin

/-- An entry of the key list is right if it is the hash of the key of the entry's user. -/
theorem checkVkEntry_of_hash {c : QsCustodian β} {core : QspgsCore β} {sub : SubKey β}
    {accts : List (AcctRef β)} {p : QspgsMember β × Bytes β} {v : MemberView β} {vkb : Bytes β}
    {w w' : QsWorld β}
    (hv : gyQspgsMemberDecrypt c.desc core.aeadId sub.ek core.gid p.1 = .ok v)
    (hvkb : resolveMemberVkb c v.uid accts w = (.ok vkb, w'))
    (hhash : gyQspgsAttributeHash c.desc sub.rrs vkb v.uid = .ok p.2) :
    checkVkEntry c core sub accts p w = (.ok (), w') := by
  rw [checkVkEntry, hv, Cmd.lift_ok_bind_apply, Cmd.bind_apply_of_ok hvkb, hhash,
    Cmd.lift_ok_bind_apply, if_neg (not_not.2 rfl)]
  rfl

/-- A fetch opens a core that decodes, whose signature verifies under an admin line that passes the
lineage check, and whose key list is right. -/
theorem fetchOpen_of_signed {c : QsCustodian β} {ans : GroupAnswer β} {prior : PriorView β}
    {accts : List (AcctRef β)} {caps : FetchCaps} {w w₁ w₂ w₃ : QsWorld β} {core : QspgsCore β}
    {s : CoreSig β} {m : QspgsMember β} {gk vkb : Bytes β} {sub : SubKey β} {v : MemberView β}
    {apx : Appendix β} (hguard : qsgroupGuard c = .ok ())
    (hdec : decodeBundle c.desc ⟨ans.hdr, ans.memberList, ans.vkLst, ans.sig⟩ = .ok (core, s))
    (hapx : apxOfCore c.desc core ans.apx = .ok apx)
    (hreports : ∀ cap ∈ caps.reports, apx.lines.length ≤ cap)
    (hm : core.members[s.signerIndex.toNat]? = some m)
    (hgk : onStore (gyQspgsGroupKeyLoad c.desc core.gid qspgsMasterKeyMax) w = (.ok gk, w₁))
    (hsub : gyQspgsDeriveSubKey c.desc gk = .ok sub)
    (hv : gyQspgsMemberDecrypt c.desc core.aeadId sub.ek core.gid m = .ok v)
    (hvkb : resolveMemberVkb c v.uid accts w₁ = (.ok vkb, w₂))
    (hver : gyQspgsCoreResolveVerify c.desc core s.signerIndex sub.rrs vkb v.uid s.sig
      (ans.hdr.length + ans.memberList.length + ans.vkLst.length + 64) = .ok ())
    (hlin : lineageCheck core v.uid m.admn prior = .ok ())
    (hvk : checkVklstRecompute c core sub accts w₂ = (.ok (), w₃)) :
    fetchOpen c ans prior accts caps w = (.ok ⟨core, apx, s, v, sub⟩, w₃) := by
  obtain ⟨core₀, hcore, hdec⟩ := Except.bind_eq_ok_iff.1 hdec
  obtain ⟨s₀, hs, hdec⟩ := Except.bind_eq_ok_iff.1 hdec
  obtain ⟨rfl, rfl⟩ := Prod.ext_iff.1 (Except.ok.inj hdec)
  have hapx₀ : apxOfCore c.desc core₀ ans.apx = .ok apx := hapx
  have hcaps : ¬ (caps.reports.any fun cap => decide (cap < apx.lines.length)) = true := by
    cases hr : caps.reports with
    | none => simp
    | some cap => simpa using hreports cap hr
  unfold fetchOpen
  rw [hguard, Cmd.lift_ok_bind_apply, hcore, Cmd.lift_ok_bind_apply, hapx₀,
    Cmd.lift_ok_bind_apply, if_neg hcaps, hs, Cmd.lift_ok_bind_apply]
  dsimp only at hm hgk hv hver hlin hvk ⊢
  rw [hm]
  dsimp only
  rw [Cmd.bind_apply_of_ok hgk, hsub, Cmd.lift_ok_bind_apply, hv, Cmd.lift_ok_bind_apply,
    Cmd.bind_apply_of_ok hvkb, hver, Cmd.lift_ok_bind_apply, hlin, Cmd.lift_ok_bind_apply,
    Cmd.bind_apply_of_ok hvk]
  rfl

/-- A fetch without appendix and invite queue reports the roster of the core. -/
theorem fetchFold_of_plain [JoinKem β] {c : QsCustodian β} {ans : GroupAnswer β}
    {accts : List (AcctRef β)} {caps : FetchCaps} {o : OpenedCore β} {w w' : QsWorld β}
    {views : List (MemberView β)} {hdrpt : Bytes β} (hlines : o.apx.lines = [])
    (hqueue : ans.inviteQueue.length = 0)
    (hviews : o.core.members.mapM' (gyQspgsMemberDecrypt c.desc o.core.aeadId o.sub.ek o.core.gid) =
      .ok views)
    (hhdr : openHeaderField c.desc o.core o.sub.ek = .ok hdrpt)
    (hkeys : (views.map FetchWork.ofView).forM (fetchUserKey c accts) w = (.ok (), w'))
    (hmax : views.length ≤ caps.max) (hattr : caps.attr = none) :
    fetchFold c ans accts caps o w =
      (.ok ⟨views.map fun v => (FetchWork.ofView v).view, [], hdrpt.drop 1⟩, w') := by
  have hout : ((views.map FetchWork.ofView).filter fun w => !w.removed).map FetchWork.view =
      views.map fun v => (FetchWork.ofView v).view := by
    rw [List.filter_eq_self.2, List.map_map]
    · rfl
    · intro x hx
      obtain ⟨v, -, rfl⟩ := List.mem_map.1 hx
      unfold FetchWork.ofView
      split <;> rfl
  have happly : fetchApply c.desc o.core o.sub.ek ans.inviteQueue accts views (hdrpt.drop 1) [] =
      .ok (views.map FetchWork.ofView, hdrpt.drop 1) := by
    have hq : fetchQueue c.desc o.core.gid ans.inviteQueue accts (views.map FetchWork.ofView) =
        .ok (views.map FetchWork.ofView) := if_pos hqueue
    show (fetchQueue c.desc o.core.gid ans.inviteQueue accts (views.map FetchWork.ofView) >>=
      fun work => Except.ok (work, hdrpt.drop 1)) = _
    rw [hq]
    rfl
  unfold fetchFold
  rw [hviews, Cmd.lift_ok_bind_apply, hhdr, Cmd.lift_ok_bind_apply, hlines, List.mapM'_nil,
    Cmd.pure_bind_apply]
  change (Cmd.lift (fetchApply c.desc o.core o.sub.ek ans.inviteQueue accts views (hdrpt.drop 1) [])
    >>= _) w = _
  rw [happly, Cmd.lift_ok_bind_apply]
  dsimp only
  rw [Cmd.bind_apply_of_ok hkeys, hout, if_neg (by simpa using hmax), if_neg (by simp [hattr])]
  rfl

theorem gyCustodianQsgroupFetch_of_opened [JoinKem β] {c : QsCustodian β} {ans : GroupAnswer β}
    {prior : PriorView β} {accts : List (AcctRef β)} {caps : FetchCaps} {w w₁ w₂ : QsWorld β}
    {o : OpenedCore β} {r : FetchResult β}
    (hopen : fetchOpen c ans prior accts caps w = (.ok o, w₁))
    (hfold : fetchFold c ans accts caps o w₁ = (.ok r, w₂)) :
    gyCustodianQsgroupFetch c ans prior accts caps w = (.ok (o, r), w₂) := by
  rw [gyCustodianQsgroupFetch, Cmd.bind_apply_of_ok hopen, Cmd.bind_apply_of_ok hfold]
  rfl

/-- What a join over a link has established when it succeeds. -/
theorem joinViaLink_ok [KrKeygen β] {c : QsCustodian β} {cur : CoreBundle β}
    {linkSecret : Bytes β} {ep : UInt64} {signerAcct : Bytes β} {ukCap lineCap : Nat}
    {w w' : QsWorld β} {r : Bytes β × Bytes β}
    (h : gyCustodianQsgroupJoinViaLink c cur linkSecret ep signerAcct ukCap lineCap w =
      (.ok r, w')) :
    ∃ core s gk v, decodeBundle c.desc cur = .ok (core, s) ∧
      (gyQspgsJoinlinkOpen c.desc core.aeadId linkSecret core.gid core.joinCt).map Prod.fst =
        .ok gk ∧ SignedByLine c.desc core s gk v := by
  unfold gyCustodianQsgroupJoinViaLink at h
  obtain ⟨_, -, h⟩ := Cmd.lift_bind_eq_ok_iff.1 h
  rw [Cmd.ite_apply] at h
  split at h
  · cases h
  obtain ⟨core₁, hh, h⟩ := Cmd.lift_bind_eq_ok_iff.1 h
  obtain ⟨core₂, hm, h⟩ := Cmd.lift_bind_eq_ok_iff.1 h
  rw [Cmd.ite_apply] at h
  split at h
  · cases h
  obtain ⟨p, hp, h⟩ := Cmd.lift_bind_eq_ok_iff.1 h
  obtain ⟨core₃, hv, h⟩ := Cmd.lift_bind_eq_ok_iff.1 h
  obtain ⟨s, hs, h⟩ := Cmd.lift_bind_eq_ok_iff.1 h
  obtain ⟨hashes, rfl, -⟩ := gyQspgsVkLstDecode_ok c.desc hv
  dsimp only at h
  cases hline : core₂.members[s.signerIndex.toNat]? with
  | none =>
    rw [hline] at h
    cases h
  | some m =>
    rw [hline] at h
    obtain ⟨sub, hsub, h⟩ := Cmd.lift_bind_eq_ok_iff.1 h
    obtain ⟨v, hview, h⟩ := Cmd.lift_bind_eq_ok_iff.1 h
    obtain ⟨a, -, h⟩ := Cmd.lift_bind_eq_ok_iff.1 h
    obtain ⟨_, hver, -⟩ := Cmd.lift_bind_eq_ok_iff.1 h
    refine ⟨{ core₂ with vkhash := hashes, lastVmin := s.lastVmin }, s, p.1, v, ?_, ?_,
      ⟨m, sub, a.vkb, _, hline, hsub, hview, hver⟩⟩
    · simp only [decodeBundle, decodeCore, hh, hm, hv, hs, Except.ok_bind]
      rfl
    · rw [hp]
      rfl

end Geryon
