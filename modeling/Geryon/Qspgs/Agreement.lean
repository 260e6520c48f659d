import Geryon.Qspgs.Evolution

/-!
# What a fetch reports of what others emit

A fetch applies the lines of the appendix and the invite queue to the roster it reports; a
consolidation applies them to the roster it emits as the next core. Each has a working set and
passes of its own. This file runs the two side by side.

They do not always agree. A rebuilt pending entry loses its admin bit, and a refresh line by a
pending author changes the reported key in one and the basis key in the other. Where neither
happens, the next core stands for what the fetch has reported.

## Main results

* `fetchApply_matches`: the working sets of the two after all passes;
* `consolidate_shows_fetch`: what a consolidation emits is what a fetch of the same answer reports;
* `groupRun_fetch`: the users a fetch reports after a run of edits.
-/

namespace Geryon

variable {β : Type} [Octet β] [DecidableEq β] [KrMlDsa β] [Sodium β]

/-! ## Entries in step -/

/-- A member as a fetch reports it. -/
def MemberView.report (v : MemberView β) : RosterView β :=
  ⟨v.uid, v.admn, if v.pending then [] else v.uk⟩

omit [Octet β] [DecidableEq β] [KrMlDsa β] [Sodium β] in
/-- The working entry of a member shows the member. -/
theorem FetchWork.view_ofView (v : MemberView β) : (FetchWork.ofView v).view = v.report := by
  unfold FetchWork.ofView MemberView.report
  split <;> rfl

/-- Two entries for the same user before the invite queue is read. A fetch keeps the key of a
pending entry aside, and a consolidation in the place of the user key. -/
structure FetchWork.Matches (x : FetchWork β) (y : ConsWork β) : Prop where
  uid : y.uid = x.view.uid
  admn : y.admn = x.view.admn
  removed : y.removed = x.removed
  pending : y.pending = x.pending0
  settled : x.pending0 = false → y.key = x.view.uk
  waiting : x.pending0 = true → y.admn = false ∧ x.view.uk = [] ∧ y.key = x.gkPrime

/-- Two entries for the same user at the end: what stays is the same for a reader, and nobody who is
pending is an admin. -/
structure FetchWork.Reports (x : FetchWork β) (y : ConsWork β) : Prop where
  removed : y.removed = x.removed
  view : x.removed = false → y.view.report = x.view
  admn : x.removed = false → y.pending = true → y.admn = false

/-- The pending entries of a core are no admin lines, and author none of these refresh lines. -/
structure PendingPlain (views : List (MemberView β)) (lines : List (ApxLine β)) : Prop where
  admn : ∀ v ∈ views, v.pending = true → v.admn = false
  refresh : ∀ l ∈ lines, l.lineType = .refresh →
    ∀ v, views[l.authorIndex.toNat]? = some v → v.pending = false

section Passes

variable {c : QsCustodian β} {cc : CurrentCore β} {accts : List (AcctRef β)} {w w' : QsWorld β}
  {lines : List (ApxLine β)} {views : List (MemberView β)} {n : Nat}
  {xs xs' : List (FetchWork β)} {ys ys' : List (ConsWork β)}

/-- Both start from the entries of the core. -/
theorem matches_ofView {ms : List (QspgsMember β)}
    (hviews : ms.mapM' (gyQspgsMemberDecrypt c.desc cc.core.aeadId cc.sub.ek cc.core.gid) =
      .ok views)
    (hadmn : ∀ v ∈ views, v.pending = true → v.admn = false)
    (h : ms.mapM' (consOpen c cc accts) w = (.ok ys, w')) :
    List.Forall₂ FetchWork.Matches (views.map FetchWork.ofView) ys := by
  have hall := Cmd.forall₂_of_mapM'_ok h
  clear h
  induction hall generalizing views with
  | nil =>
    obtain rfl := Except.ok.inj hviews
    exact .nil
  | @cons m y ms ys hy _ ih =>
    obtain ⟨v, vs, hv, hvs, rfl⟩ := List.forall₂_cons_left_iff.1 (Except.mapM'_eq_ok_iff.1 hviews)
    obtain ⟨w₁, w₂, hy⟩ := hy
    obtain ⟨v', hv', hy⟩ := Cmd.lift_bind_eq_ok_iff.1 hy
    obtain rfl := Except.ok.inj (hv.symm.trans hv')
    -- only the consolidation looks up the base key, with which it will build the entry
    obtain ⟨vkb, w₃, -, hy⟩ := Cmd.bind_eq_ok_iff.1 hy
    obtain rfl := Except.ok.inj (congrArg Prod.fst hy)
    refine .cons ?_ (ih (Except.mapM'_eq_ok_iff.2 hvs) fun v hv => hadmn v (.tail _ hv))
    have hv₀ := hadmn v List.mem_cons_self
    unfold FetchWork.ofView
    split
    -- a pending entry: the fetch reports no key yet
    · next hp =>
      exact ⟨rfl, rfl, rfl, hp, (fun h => by cases h), fun _ => ⟨hv₀ hp, rfl, rfl⟩⟩
    · next hp => exact ⟨rfl, rfl, rfl, by simpa using hp, fun _ => rfl, fun h => by cases h⟩

/-- Pass 1: both append the newcomers. -/
theorem matches_append (hm : List.Forall₂ FetchWork.Matches xs ys)
    (hx : lines.foldlM (fetchAppend c.desc cc.core cc.sub.ek) xs = .ok xs')
    (hy : lines.foldlM (consAppend c cc accts) ys w = (.ok ys', w')) :
    List.Forall₂ FetchWork.Matches xs' ys' := by
  induction lines generalizing xs ys w with
  | nil =>
    obtain rfl := Except.ok.inj hx
    obtain rfl := Except.ok.inj (congrArg Prod.fst hy)
    exact hm
  | cons l lines ih =>
    obtain ⟨xs₁, hx₁, hx⟩ := Except.bind_eq_ok_iff.1 hx
    rw [List.foldlM_cons] at hy
    obtain ⟨ys₁, w₁, hy₁, hy⟩ := Cmd.bind_eq_ok_iff.1 hy
    refine ih ?_ hx hy
    unfold fetchAppend at hx₁
    unfold consAppend at hy₁
    rw [Cmd.ite_apply] at hy₁
    split at hx₁
    · next hkind =>
      rw [if_pos hkind, Cmd.ite_apply] at hy₁
      split at hx₁
      · cases hx₁
      obtain ⟨t, ht, hx₁⟩ := Except.bind_eq_ok_iff.1 hx₁
      obtain rfl := Except.ok.inj hx₁
      split at hy₁
      · cases hy₁
      -- the line opens to one tuple for both
      obtain ⟨t', ht', hy₁⟩ := Cmd.lift_bind_eq_ok_iff.1 hy₁
      obtain rfl := Except.ok.inj (ht.symm.trans ht')
      obtain ⟨vkb, w₂, -, hy₁⟩ := Cmd.bind_eq_ok_iff.1 hy₁
      obtain rfl := Except.ok.inj (congrArg Prod.fst hy₁)
      refine List.rel_append hm (.cons ?_ .nil)
      exact ⟨rfl, rfl, rfl, rfl, fun _ => rfl, fun h => by cases h⟩
    -- a line of another kind leaves both as they are
    · next hkind =>
      rw [if_neg hkind] at hy₁
      obtain rfl := Except.ok.inj hx₁
      obtain rfl := Except.ok.inj (congrArg Prod.fst hy₁)
      exact hm

omit [Octet β] [DecidableEq β] [KrMlDsa β] [Sodium β] in
/-- A change at one place of both working sets keeps them in step, if it keeps the entries there
in step. -/
theorem matches_modify {f : FetchWork β → FetchWork β} {g : ConsWork β → ConsWork β} {j : Nat}
    (hm : List.Forall₂ FetchWork.Matches xs ys)
    (hfg : ∀ x y, xs[j]? = some x → x.Matches y → (f x).Matches (g y)) :
    List.Forall₂ FetchWork.Matches (xs.modify j f) (ys.modify j g) := by
  induction hm generalizing j with
  | nil => cases j <;> exact .nil
  | @cons x y xs ys hxy hm ih =>
    cases j with
    | zero => exact .cons (hfg x y rfl hxy) hm
    | succ j => exact .cons hxy (ih fun x y hx => hfg x y hx)

omit [Octet β] [DecidableEq β] [KrMlDsa β] [Sodium β] in
/-- Entries in step are removed at the same places. -/
theorem matches_removed (hm : List.Forall₂ FetchWork.Matches xs ys) (j : Nat) :
    ys[j]?.any ConsWork.removed = xs[j]?.any FetchWork.removed := by
  induction hm generalizing j with
  | nil => rfl
  | cons hxy _ ih =>
    cases j with
    | zero => exact hxy.removed
    | succ j => exact ih j

omit [DecidableEq β] [KrMlDsa β] in
/-- Pass 2: both replace the keys that are refreshed, none of which is a basis key. -/
theorem matches_refresh (hm : List.Forall₂ FetchWork.Matches xs ys)
    (hplain : ∀ l ∈ lines, l.lineType = .refresh → l.authorIndex.toNat < n →
      ∀ x, xs[l.authorIndex.toNat]? = some x → x.pending0 = false)
    (hx : lines.foldlM (fetchRefresh c.desc cc.core cc.sub.ek n) xs = .ok xs')
    (hy : lines.foldlM (consRefresh c.desc cc.core cc.sub.ek n) ys = .ok ys') :
    List.Forall₂ FetchWork.Matches xs' ys' := by
  induction lines generalizing xs ys with
  | nil =>
    obtain rfl := Except.ok.inj hx
    obtain rfl := Except.ok.inj hy
    exact hm
  | cons l lines ih =>
    obtain ⟨xs₁, hx₁, hx⟩ := Except.bind_eq_ok_iff.1 hx
    obtain ⟨ys₁, hy₁, hy⟩ := Except.bind_eq_ok_iff.1 hy
    have hrest := fun l' hl' => hplain l' (List.mem_cons_of_mem l hl')
    unfold fetchRefresh at hx₁
    unfold consRefresh at hy₁
    dsimp only at hx₁ hy₁
    -- both ask whether the author is removed, and get the same answer
    rw [matches_removed hm] at hy₁
    split at hx₁
    · next hcond =>
      rw [if_pos hcond] at hy₁
      obtain ⟨uk, huk, hx₁⟩ := Except.bind_eq_ok_iff.1 hx₁
      obtain rfl := Except.ok.inj hx₁
      rw [huk, Except.ok_bind] at hy₁
      obtain rfl := Except.ok.inj hy₁
      refine ih ?_ ?_ hx hy
      · refine matches_modify hm fun x y hxj hxy => ?_
        -- for a pending author the fetch would report the new key as a user key
        have hp := hplain l List.mem_cons_self hcond.1 hcond.2.1 x hxj
        exact ⟨hxy.uid, hxy.admn, hxy.removed, hxy.pending, fun _ => rfl,
          fun h => absurd (hp.symm.trans h) (by decide)⟩
      · -- no pass changes who is pending in the core
        intro l' hl' hkind hlt x hxj
        rw [List.getElem?_modify] at hxj
        obtain ⟨x₀, hx₀, hxj⟩ := Option.map_eq_some_iff.1 hxj
        have hp := hrest l' hl' hkind hlt x₀ hx₀
        rw [← hxj]
        split
        · exact hp
        · exact hp
    · next hcond =>
      rw [if_neg hcond] at hy₁
      obtain rfl := Except.ok.inj hx₁
      obtain rfl := Except.ok.inj hy₁
      exact ih hm hrest hx hy

omit [Octet β] [DecidableEq β] [KrMlDsa β] [Sodium β] in
/-- Pass 4: both remove those who leave. -/
theorem matches_leave (hm : List.Forall₂ FetchWork.Matches xs ys) :
    List.Forall₂ FetchWork.Matches (lines.foldl (fetchLeave n) xs)
      (lines.foldl (consLeave n) ys) := by
  induction lines generalizing xs ys with
  | nil => exact hm
  | cons l lines ih =>
    apply ih
    unfold fetchLeave consLeave
    dsimp only
    split
    · refine matches_modify hm fun x y _ hxy => ?_
      exact ⟨hxy.uid, hxy.admn, rfl, hxy.pending, hxy.settled, hxy.waiting⟩
    · exact hm

omit [Octet β] [DecidableEq β] [KrMlDsa β] [Sodium β] in
/-- Entries in step read alike. -/
theorem FetchWork.Matches.reports {x : FetchWork β} {y : ConsWork β} (h : x.Matches y) :
    x.Reports y where
  removed := h.removed
  view _ := by
    unfold MemberView.report ConsWork.view
    dsimp only
    rw [h.uid, h.admn, h.pending]
    cases hp : x.pending0 with
    | false => rw [if_neg Bool.false_ne_true, h.settled hp]
    | true => rw [if_pos rfl, ← (h.waiting hp).2.1]
  admn _ hp := (h.waiting (h.pending.symm.trans hp)).1

omit [KrMlDsa β] in
/-- The invite queue settles a pending entry for both or for neither, with the same key. -/
theorem reports_settle [JoinKem β] {gid : Bytes β} {entries : List (Bytes β)}
    {x x' : FetchWork β} {y : ConsWork β} {p : ConsWork β × Option Nat} (h : x.Matches y)
    (hx : fetchSettle c.desc gid entries accts x = .ok x')
    (hy : consSettle c.desc gid entries accts y = .ok p) : x'.Reports p.1 := by
  unfold fetchSettle at hx
  unfold consSettle at hy
  cases hp : x.pending0 with
  | false =>
    rw [hp, if_neg Bool.false_ne_true] at hx
    rw [h.pending, hp, if_neg (by simp)] at hy
    obtain rfl := Except.ok.inj hx
    obtain rfl := Except.ok.inj hy
    exact h.reports
  | true =>
    rw [hp, if_pos rfl] at hx
    -- the key that is tried is the basis key, which the consolidation has as the user key
    obtain ⟨hadmn, -, hkey⟩ := h.waiting hp
    obtain ⟨r, hr, hx⟩ := Except.bind_eq_ok_iff.1 hx
    cases hrem : x.removed with
    | true =>
      -- a removed entry is settled by the fetch only, which does not report it
      rw [h.removed, hrem, if_neg (by simp)] at hy
      obtain rfl := Except.ok.inj hy
      have hrem' : x'.removed = true := by
        cases r with
        | none =>
          obtain rfl := Except.ok.inj hx
          exact hrem
        | some q =>
          obtain rfl := Except.ok.inj hx
          exact hrem
      exact ⟨h.removed.trans (hrem.trans hrem'.symm), (fun hf => absurd (hrem'.symm.trans hf)
        (by decide)), fun hf => absurd (hrem'.symm.trans hf) (by decide)⟩
    | false =>
      rw [h.pending, hp, h.removed, hrem, if_pos (by simp), hkey, h.uid, hr, Except.ok_bind] at hy
      cases r with
      -- nobody has answered the invitation
      | none =>
        obtain rfl := Except.ok.inj hx
        obtain rfl := Except.ok.inj hy
        exact h.reports
      | some q =>
        obtain rfl := Except.ok.inj hx
        obtain rfl := Except.ok.inj hy
        refine ⟨hrem.symm, fun _ => ?_, fun _ hf => by cases hf⟩
        unfold MemberView.report ConsWork.view
        dsimp only
        rw [h.admn, if_neg Bool.false_ne_true]

omit [KrMlDsa β] in
/-- The invite queue is read by both, or by neither. -/
theorem reports_queue [JoinKem β] {gid queue : Bytes β} {entries : List (Bytes β)}
    {consumed : List Nat} (hm : List.Forall₂ FetchWork.Matches xs ys)
    (hx : fetchQueue c.desc gid queue accts xs = .ok xs')
    (hy : consSettleAll c.desc gid queue accts ys = .ok (ys', entries, consumed)) :
    List.Forall₂ FetchWork.Reports xs' ys' := by
  unfold fetchQueue at hx
  unfold consSettleAll at hy
  -- an empty queue is not decoded
  split at hx
  · next hq =>
    rw [if_pos hq] at hy
    obtain rfl := Except.ok.inj hx
    obtain ⟨rfl, -⟩ := Prod.mk.inj (Except.ok.inj hy)
    exact hm.imp fun _ _ h => h.reports
  next hq =>
  rw [if_neg hq] at hy
  obtain ⟨ents, hents, hmap⟩ := Except.bind_eq_ok_iff.1 hx
  rw [hents, Except.ok_bind] at hy
  obtain ⟨settled, hsettled, hpure⟩ := Except.bind_eq_ok_iff.1 hy
  obtain ⟨rfl, -⟩ := Prod.mk.inj (Except.ok.inj hpure)
  have hxs := Except.mapM'_eq_ok_iff.1 hmap
  have hys := Except.mapM'_eq_ok_iff.1 hsettled
  clear hx hy hmap hsettled hpure
  induction hm generalizing xs' settled with
  | nil =>
    cases hxs
    cases hys
    exact .nil
  | cons hxy _ ih =>
    obtain ⟨x', xs', hx, hxs', rfl⟩ := List.forall₂_cons_left_iff.1 hxs
    obtain ⟨p, settled, hy, hys', rfl⟩ := List.forall₂_cons_left_iff.1 hys
    exact .cons (reports_settle hxy hx hy) (ih settled hxs' hys')

omit [Octet β] [DecidableEq β] [KrMlDsa β] [Sodium β] in
/-- An entry that was pending from the beginning. -/
theorem pending0_of_getElem? {work : List (FetchWork β)} {j : Nat} {x : FetchWork β}
    (hx : (views.map FetchWork.ofView ++ work)[j]? = some x) (hj : j < views.length) :
    ∃ v, views[j]? = some v ∧ x.pending0 = v.pending := by
  rw [List.getElem?_append_left (by simpa using hj), List.getElem?_map] at hx
  obtain ⟨v, hv, rfl⟩ := Option.map_eq_some_iff.1 hx
  refine ⟨v, hv, ?_⟩
  unfold FetchWork.ofView
  split
  · next h => exact h.symm
  · next h => simpa using (Bool.eq_false_iff.2 h).symm

omit [DecidableEq β] [KrMlDsa β] in
/-- The newcomers stand behind the members of the core. -/
theorem fetchAppend_prefix {desc : SuiteDesc β} {core : QspgsCore β} {ek : Bytes β}
    (h : lines.foldlM (fetchAppend desc core ek) xs = .ok xs') : ∃ new, xs' = xs ++ new := by
  refine Except.foldlM_invariant (fun ys => ∃ new, ys = xs ++ new) ?_
    ⟨[], (List.append_nil _).symm⟩ h
  rintro ys l - ys' ⟨new, rfl⟩ hstep
  unfold fetchAppend at hstep
  split at hstep
  · split at hstep
    · cases hstep
    obtain ⟨t, -, hstep⟩ := Except.bind_eq_ok_iff.1 hstep
    obtain rfl := Except.ok.inj hstep
    exact ⟨_, List.append_assoc _ _ _⟩
  · exact ⟨new, (Except.ok.inj hstep).symm⟩

/-- After all passes over the same lines, the working sets of a fetch and of a consolidation read
alike, and both have arrived at the same attributes. -/
theorem fetchApply_matches [JoinKem β] {inp : ConsInput β} {hdrpt attr : Bytes β} {f : Folded β}
    {k : Nat} (hopen : cc.core.members.mapM' (consOpen c cc inp.accts) w = (.ok ys, w))
    (hviews : cc.core.members.mapM'
      (gyQspgsMemberDecrypt c.desc cc.core.aeadId cc.sub.ek cc.core.gid) = .ok views)
    (hplain : PendingPlain views lines)
    (hx : fetchApply c.desc cc.core cc.sub.ek inp.inviteQueue inp.accts views (hdrpt.drop 1)
      lines = .ok (xs, attr))
    (hy : consRest c cc inp hdrpt k lines ys w = (.ok f, w')) :
    List.Forall₂ FetchWork.Reports xs f.work ∧ f.attr = attr := by
  unfold fetchApply at hx
  obtain ⟨xs₁, hx₁, hx⟩ := Except.bind_eq_ok_iff.1 hx
  obtain ⟨xs₂, hx₂, hx⟩ := Except.bind_eq_ok_iff.1 hx
  obtain ⟨attr', hattr, hx⟩ := Except.bind_eq_ok_iff.1 hx
  obtain ⟨xs₃, hx₃, hx⟩ := Except.bind_eq_ok_iff.1 hx
  obtain ⟨rfl, rfl⟩ := Prod.ext_iff.1 (Except.ok.inj hx)
  unfold consRest at hy
  obtain ⟨ys₁, w₁, hy₁, hy⟩ := Cmd.bind_eq_ok_iff.1 hy
  obtain ⟨ys₂, hy₂, hy⟩ := Cmd.lift_bind_eq_ok_iff.1 hy
  obtain ⟨attr'', hattr', hy⟩ := Cmd.lift_bind_eq_ok_iff.1 hy
  obtain ⟨⟨ys₃, entries, consumed⟩, hy₃, hy⟩ := Cmd.lift_bind_eq_ok_iff.1 hy
  obtain rfl := Except.ok.inj (congrArg Prod.fst hy)
  obtain rfl := Except.ok.inj (hattr.symm.trans hattr')
  have hlen : views.length = cc.core.members.length :=
    (Except.mapM'_eq_ok_iff.1 hviews).length_eq.symm
  have hm₀ := matches_ofView hviews hplain.admn hopen
  have hm₁ := matches_append hm₀ hx₁ hy₁
  -- a line may refresh members of the core only, who stand before the newcomers
  have hm₂ : List.Forall₂ FetchWork.Matches xs₂ ys₂ := by
    refine matches_refresh hm₁ (fun l hl hkind hlt x hxj => ?_) hx₂ hy₂
    obtain ⟨new, rfl⟩ := fetchAppend_prefix hx₁
    obtain ⟨v, hv, hp⟩ := pending0_of_getElem? hxj (by omega)
    exact hp.trans (hplain.refresh l hl hkind v hv)
  exact ⟨reports_queue (matches_leave hm₂) hx₃ hy₃, rfl⟩

end Passes

/-! ## What a version stands for -/

/-- A version stands for these members and attributes: its entries are those of the members, and its
header field holds the attributes behind the settings. -/
def GroupVersion.Shows (desc : SuiteDesc β) (v : GroupVersion β) (members : List (RosterView β))
    (attr : Bytes β) : Prop :=
  ∃ core sub vs flags, v.Opens desc core sub ∧ v.views desc = .ok vs ∧
    vs.map MemberView.report = members ∧
    Seals desc core.aeadId sub.ek .header core.gid (Octet.ofByte flags :: attr) core.saCt

section Shows

variable {c : QsCustodian β} {accts : List (AcctRef β)} {w w' : QsWorld β}

/-- Entries built for members decrypt to what is reported of them. -/
theorem views_of_built {aeadId : UInt8} {sub : SubKey β} {gid : Bytes β}
    {vs : List (MemberView β)} {ps : List (QspgsMember β × Bytes β)}
    (hadmn : ∀ v ∈ vs, v.pending = true → v.admn = false)
    (hbuilt : List.Forall₂ (BuiltFor c aeadId sub gid accts) vs ps) :
    ∃ vs', (ps.map Prod.fst).mapM' (gyQspgsMemberDecrypt c.desc aeadId sub.ek gid) = .ok vs' ∧
      vs'.map MemberView.report = vs.map MemberView.report := by
  induction hbuilt with
  | nil => exact ⟨[], rfl, rfl⟩
  | @cons v p vs ps hp _ ih =>
    obtain ⟨vs', hvs', hreport⟩ := ih fun v hv => hadmn v (.tail _ hv)
    obtain ⟨rc, hholds⟩ := hp.holds
    refine ⟨_ :: vs', Except.mapM'_eq_ok_iff.2 (.cons
      (gyQspgsMemberDecrypt_eq_ok_iff.2 ⟨_, hholds, rfl⟩) (Except.mapM'_eq_ok_iff.1 hvs')), ?_⟩
    rw [List.map_cons, List.map_cons, hreport]
    congr 1
    have hadmn' := hadmn v List.mem_cons_self
    unfold MemberTuple.view MemberView.report
    dsimp only
    -- a built entry is an admin line only if it is not pending
    rw [hp.admn]
    cases hpend : v.pending with
    | false => rfl
    | true => rw [hadmn' hpend]; rfl

omit [Octet β] [DecidableEq β] [KrMlDsa β] [Sodium β] in
/-- The members who stay are reported alike. -/
theorem survivors_report {xs : List (FetchWork β)} {ys : List (ConsWork β)}
    (h : List.Forall₂ FetchWork.Reports xs ys) :
    ((ys.filter fun y => !y.removed).map ConsWork.view).map MemberView.report =
        (xs.filter fun x => !x.removed).map FetchWork.view ∧
      ∀ v ∈ (ys.filter fun y => !y.removed).map ConsWork.view,
        v.pending = true → v.admn = false := by
  induction h with
  | nil => exact ⟨rfl, fun v hv => by cases hv⟩
  | @cons x y xs ys hxy _ ih =>
    -- a row both sides drop, or a row both sides show
    cases hrem : x.removed with
    | true =>
      rw [List.filter_cons_of_neg (by simp [hxy.removed, hrem]),
        List.filter_cons_of_neg (by simp [hrem])]
      exact ih
    | false =>
      rw [List.filter_cons_of_pos (by simp [hxy.removed, hrem]),
        List.filter_cons_of_pos (by simp [hrem]), List.map_cons, List.map_cons, List.map_cons,
        ih.1, hxy.view hrem]
      refine ⟨rfl, fun v hv hp => ?_⟩
      rcases List.mem_cons.1 hv with rfl | hv
      · exact hxy.admn hrem hp
      · exact ih.2 v hv hp

end Shows

/-! ## Fetch and consolidation -/

section Agree

variable [JoinKem β] {c : QsCustodian β} {ans : GroupAnswer β} {prior : PriorView β}
  {accts : List (AcctRef β)} {caps : FetchCaps} {w w' : QsWorld β} {o : OpenedCore β}
  {r : FetchResult β}

omit [Octet β] [DecidableEq β] [KrMlDsa β] [Sodium β] [JoinKem β] in
/-- No fault at all is a benign one. -/
theorem QsWorld.Quiet.benign (hq : w.Quiet) : w.Benign := by
  intro f hf
  rw [show w.store.faults = [] from hq] at hf
  cases hf

/-- What a successful fetch reports is what the passes over the lines with a positive check have
left. -/
theorem fetch_applied (hq : w.Quiet)
    (h : gyCustodianQsgroupFetch c ans prior accts caps w = (.ok (o, r), w')) :
    fetchOpen c ans prior accts caps w = (.ok o, w) ∧
      ∃ views hdrpt xs verdict,
        o.core.members.mapM' (gyQspgsMemberDecrypt c.desc o.core.aeadId o.sub.ek o.core.gid) =
          .ok views ∧
        openHeaderField c.desc o.core o.sub.ek = .ok hdrpt ∧
        (∀ l ∈ o.apx.lines, lineVerdict c o.core o.sub o.apx.vmaj o.apx.vmin
          (Settings.ofByte (byteAt hdrpt 0)) accts w l = .ok (verdict l)) ∧
        fetchApply c.desc o.core o.sub.ek ans.inviteQueue accts views (hdrpt.drop 1)
          (o.apx.lines.filter (fetchApplies (Settings.ofByte (byteAt hdrpt 0)) verdict)) =
          .ok (xs, r.attr) ∧
        r.members = (xs.filter fun x => !x.removed).map FetchWork.view := by
  have hgroup : fetchGroup c ans prior accts caps w = .ok (r.members, r.attr) := by
    rw [fetchGroup, h]
    rfl
  obtain ⟨o', w₁, hopen, h⟩ := Cmd.bind_eq_ok_iff.1 h
  obtain ⟨r', w₂, hfold, h⟩ := Cmd.bind_eq_ok_iff.1 h
  obtain ⟨rfl, rfl⟩ := Prod.mk.inj (Except.ok.inj (congrArg Prod.fst h))
  -- both halves run in the same world
  obtain ⟨hw, hpassed, -⟩ := fetchOpen_passed hq hopen
  obtain rfl := hw.symm
  refine ⟨hopen, ?_⟩
  have hrun := hfold
  unfold fetchFold at hrun
  obtain ⟨views, hviews, hrun⟩ := Cmd.lift_bind_eq_ok_iff.1 hrun
  obtain ⟨hdrpt, hhdr, -⟩ := Cmd.lift_bind_eq_ok_iff.1 hrun
  have hanswer : ∀ l ∈ o'.apx.lines, ∃ b, lineVerdict c o'.core o'.sub o'.apx.vmaj o'.apx.vmin
      (Settings.ofByte (byteAt hdrpt 0)) accts w l = .ok b :=
    fun l hl => lineVerdict_of_fetchGroup hq hopen hhdr rfl hgroup hl
  choose! verdict hverdict using hanswer
  -- with the answers at hand, the fetch is the passes and what checks their outcome
  rw [fetchFold_of_verdicts hq (fun l hl => apxOfCore_payload_le hpassed.apx hl) hviews hhdr rfl
    hverdict] at hfold
  obtain ⟨⟨xs, attr⟩, happly, hfin⟩ := Cmd.lift_bind_eq_ok_iff.1 hfold
  obtain ⟨_, w₃, -, hfin⟩ := Cmd.bind_eq_ok_iff.1 hfin
  -- the roster and the attributes have fitted their buffers
  rw [Cmd.ite_apply] at hfin
  split at hfin
  · cases hfin
  rw [Cmd.ite_apply] at hfin
  split at hfin
  · cases hfin
  obtain rfl := Except.ok.inj (congrArg Prod.fst hfin)
  exact ⟨views, hdrpt, xs, verdict, hviews, hhdr, hverdict, happly, rfl⟩

/-- A server's answer with a core, and neither lines nor a queue. -/
def CoreBundle.served (b : CoreBundle β) : GroupAnswer β :=
  ⟨b.hdr, b.memberList, b.vkLst, b.sig, [], []⟩

omit [Octet β] [DecidableEq β] [KrMlDsa β] [Sodium β] [JoinKem β] in
/-- Of a roster nobody has left everybody is shown. -/
theorem survivors_ofView (views : List (MemberView β)) :
    ((views.map FetchWork.ofView).filter fun x => !x.removed).map FetchWork.view =
      views.map MemberView.report := by
  have hstays : ∀ x ∈ views.map FetchWork.ofView, (!x.removed) = true := by
    intro x hx
    obtain ⟨v, -, rfl⟩ := List.mem_map.1 hx
    unfold FetchWork.ofView
    split <;> rfl
  rw [List.filter_eq_self.2 hstays, List.map_map]
  exact List.map_congr_left fun v _ => FetchWork.view_ofView v

/-- A fetch of a version opens it and reports its entries and attributes. -/
theorem fetch_of_served {v : GroupVersion β} (hq : w.Quiet)
    (hkey : loadedKey c.desc w.store.recs (v.gid c.desc) = .ok v.gk)
    (h : gyCustodianQsgroupFetch c v.bundle.served prior accts caps w = (.ok (o, r), w')) :
    ∃ pt vs, v.Opens c.desc o.core o.sub ∧ v.views c.desc = .ok vs ∧
      gyQspgsFieldOpen c.desc o.core.aeadId o.sub.ek .header o.core.gid o.core.saCt
        (1 + qsgroupAttrMax) = .ok pt ∧
      r.members = vs.map MemberView.report ∧ r.attr = pt.drop 1 := by
  obtain ⟨hopen, views, hdrpt, xs, verdict, hviews, hhdr, -, happly, hr⟩ := fetch_applied hq h
  obtain ⟨-, hpassed, -⟩ := fetchOpen_passed hq hopen
  obtain ⟨hdec, -⟩ := fetchOpen_ok hopen
  obtain ⟨gk, hload, hsub⟩ := hpassed.key
  -- the core is the version's, but for the count of lines that its signature states
  have hdecode : v.bundle.core c.desc = .ok { o.core with lastVmin := 0 } := by
    obtain ⟨core, hcore, hdec⟩ := Except.bind_eq_ok_iff.1 hdec
    obtain ⟨s, -, hdec⟩ := Except.bind_eq_ok_iff.1 hdec
    obtain ⟨hcore', -⟩ := Prod.mk.inj (Except.ok.inj hdec)
    have hzero := (decodeCore_wf c.desc hcore).2
    rw [← hcore', ← hzero]
    exact hcore
  have hgid : v.gid c.desc = o.core.gid := by rw [GroupVersion.gid, hdecode]
  rw [hgid] at hkey
  obtain rfl := Except.ok.inj ((loadedKey_of_load hq.benign hload).symm.trans hkey)
  have hopens : v.Opens c.desc o.core o.sub := ⟨hdecode, hsub⟩
  obtain ⟨pt, hpt, hhdr⟩ := Except.bind_eq_ok_iff.1 hhdr
  split at hhdr
  · cases hhdr
  obtain rfl := Except.ok.inj hhdr
  -- there are no lines to apply
  have hapx : o.apx = ⟨zeros qspgsGidLen, 0, 0, []⟩ := (Except.ok.inj hpassed.apx).symm
  rw [hapx] at happly
  obtain ⟨rfl, hattr⟩ := Prod.mk.inj (Except.ok.inj happly)
  exact ⟨pt, views, hopens, hopens.views_eq.trans hviews, hpt, hr.trans (survivors_ofView _),
    hattr.symm⟩

/-- A fetch of a version reports what the version stands for. -/
theorem fetch_of_shows {v : GroupVersion β} {members : List (RosterView β)} {attr : Bytes β}
    (hq : w.Quiet) (hshows : v.Shows c.desc members attr)
    (hkey : loadedKey c.desc w.store.recs (v.gid c.desc) = .ok v.gk)
    (h : gyCustodianQsgroupFetch c v.bundle.served prior accts caps w = (.ok (o, r), w')) :
    r.members = members ∧ r.attr = attr := by
  obtain ⟨core, sub, vs, flags, hopens, hvs, hmembers, hseals⟩ := hshows
  obtain ⟨pt, vs', hopens', hvs', hpt, hr, hattr⟩ := fetch_of_served hq hkey h
  obtain rfl := Except.ok.inj (hvs'.symm.trans hvs)
  have hsub : o.sub = sub := Except.ok.inj (hopens'.subKey.symm.trans hopens.subKey)
  -- the two agree in everything but the count of lines
  obtain ⟨hgid, -, haead, -, hsa, -⟩ := QspgsCore.mk.inj
    (Except.ok.inj (hopens'.decode.symm.trans hopens.decode))
  rw [haead, hgid, hsa, hsub] at hpt
  obtain rfl := gyQspgsFieldOpen_unique hpt (hseals.opens _ (le_refl _))
  exact ⟨hr.trans hmembers, hattr⟩

/-- The core that a consolidation makes of an answer, with no join approved, stands for what a fetch
of the answer reports. -/
theorem consolidate_shows (haead : AeadOpens β) (hq : w.Quiet)
    (hfetch : gyCustodianQsgroupFetch c ans prior accts caps w = (.ok (o, r), w'))
    (hplain : ∀ views,
      o.core.members.mapM' (gyQspgsMemberDecrypt c.desc o.core.aeadId o.sub.ek o.core.gid) =
        .ok views → PendingPlain views o.apx.lines)
    {queueCap : Option Nat} {coreCaps : CoreCaps} {next : NextCore β} {q : Bytes β}
    {w₁ : QsWorld β}
    (h : gyCustodianQsgroupConsolidate c ans.bundle ⟨ans.apx, ans.inviteQueue, accts, []⟩ queueCap
      coreCaps w = (.ok (next, q), w₁)) :
    ∃ gk, loadedKey c.desc w₁.store.recs o.core.gid = .ok gk ∧
      (⟨next.bundle, gk⟩ : GroupVersion β).gid c.desc = o.core.gid ∧
      (⟨next.bundle, gk⟩ : GroupVersion β).Shows c.desc r.members r.attr := by
  obtain ⟨hopen, views, hdrpt, xs, verdict, hviews, hhdr, hverdict, happly, hr⟩ :=
    fetch_applied hq hfetch
  obtain ⟨-, hpassed, -⟩ := fetchOpen_passed hq hopen
  obtain ⟨hdec, -⟩ := fetchOpen_ok hopen
  obtain ⟨gk₀, hload, hsub⟩ := hpassed.key
  have hgid : bundleGid c.desc ans.bundle = o.core.gid := by
    rw [bundleGid, show decodeBundle c.desc ans.bundle = _ from hdec]
  have hkey : loadedKey c.desc w.store.recs (bundleGid c.desc ans.bundle) = .ok gk₀ := by
    rw [hgid]
    exact loadedKey_of_load hq.benign hload
  obtain ⟨e, f, gk, sub, w₂, w₃, w₄, w₅, he, hopens, hf, hder, hnext, hloaded, -⟩ :=
    consolidate_emits (v := ⟨ans.bundle, gk₀⟩) hq.benign hkey h
  rw [hgid] at hloaded
  -- the consolidation starts from the core and the keys of the fetch
  obtain rfl := (still_editBegin hq _).eq_of_apply he
  obtain ⟨w₆, hcur⟩ := editBegin_ok he
  obtain ⟨hdec', hload', hsub', -⟩ := openCurrent_ok hcur
  clear he hcur hfetch
  rcases e with ⟨⟨core, sig, gk', sub'⟩, i, skb, vkb⟩
  dsimp only at hdec' hload' hsub' hopens hf
  obtain ⟨rfl, -⟩ := Prod.ext_iff.1 (Except.ok.inj (hdec'.symm.trans hdec))
  obtain rfl := Except.ok.inj (hload'.symm.trans hload)
  obtain rfl := Except.ok.inj (hsub'.symm.trans hsub)
  obtain ⟨-, -, -, -, -, -, -, -, -, -, hsound⟩ := consFold_register hf
  -- both apply the same lines
  rw [consFold_of_verdicts hq hpassed.apx hhdr rfl hverdict] at hf
  obtain ⟨ys, w₇, hys, hrest⟩ := Cmd.bind_eq_ok_iff.1 hf
  have hstill : Cmd.Still (o.core.members.mapM' (consOpen c ⟨o.core, sig, gk', o.sub⟩ accts)) w :=
    Cmd.Still.mapM' fun m _ => still_consOpen hq _ m
  obtain rfl := hstill.eq_of_apply hys
  have hlines : ((o.apx.lines.zipIdx.filter
      (consApplies (Settings.ofByte (byteAt hdrpt 0)) [] verdict)).map Prod.fst) =
      o.apx.lines.filter (fetchApplies (Settings.ofByte (byteAt hdrpt 0)) verdict) := by
    rw [← filter_zipIdx_map_fst (fetchApplies (Settings.ofByte (byteAt hdrpt 0)) verdict) _ 0]
    congr 2
    funext p
    simp [consApplies, fetchApplies]
  rw [hlines] at hrest
  have hplain' := hplain views hviews
  obtain ⟨hreports, hattr⟩ := fetchApply_matches hys hviews
    ⟨hplain'.admn, fun l hl => hplain'.refresh l (List.mem_of_mem_filter hl)⟩ happly hrest
  obtain ⟨core', hopens', hgid', hkeyed, -⟩ := consEmit_ok haead hopens.shaped hder hsound hnext
  obtain ⟨ps, hmem, -, hbuilt⟩ := hkeyed.entries
  obtain ⟨hreport, hadmn⟩ := survivors_report hreports
  -- what is built of a survivor decrypts to the entry reported of it
  obtain ⟨vs, hvs, hvreport⟩ := views_of_built hadmn hbuilt
  refine ⟨gk, hloaded, hopens'.gid_eq.trans hgid', core', sub, vs, f.flags, hopens', ?_,
    hvreport.trans (hreport.trans hr.symm), ?_⟩
  · rw [hopens'.views_eq, hmem]
    exact hvs
  · rw [← hattr]
    exact hkeyed.header

/-- After a consolidation of an answer, with no join approved, a member who holds the key the admin
then operates with is reported what the fetch of the answer reports, unless the core has a pending
admin line or a refresh line by a pending author. -/
theorem consolidate_shows_fetch (haead : AeadOpens β) (hq : w.Quiet)
    (hfetch : gyCustodianQsgroupFetch c ans prior accts caps w = (.ok (o, r), w'))
    (hplain : ∀ views,
      o.core.members.mapM' (gyQspgsMemberDecrypt c.desc o.core.aeadId o.sub.ek o.core.gid) =
        .ok views → PendingPlain views o.apx.lines)
    {queueCap : Option Nat} {coreCaps : CoreCaps} {next : NextCore β} {q : Bytes β}
    {w₁ : QsWorld β}
    (h : gyCustodianQsgroupConsolidate c ans.bundle ⟨ans.apx, ans.inviteQueue, accts, []⟩ queueCap
      coreCaps w = (.ok (next, q), w₁)) :
    ∃ gk, loadedKey c.desc w₁.store.recs o.core.gid = .ok gk ∧
      ∀ (c' : QsCustodian β) prior' accts' caps' (w₂ w₃ : QsWorld β) o' r', c'.desc = c.desc →
        w₂.Quiet → loadedKey c.desc w₂.store.recs o.core.gid = .ok gk →
          gyCustodianQsgroupFetch c' next.bundle.served prior' accts' caps' w₂ =
            (.ok (o', r'), w₃) → r'.members = r.members ∧ r'.attr = r.attr := by
  obtain ⟨gk, hloaded, hgid, hshows⟩ := consolidate_shows haead hq hfetch hplain h
  -- a later reader holds the key of the new core and sees what the editor wrote
  refine ⟨gk, hloaded, fun c' prior' accts' caps' w₂ w₃ o' r' hdesc hq₂ hkey hfetch' => ?_⟩
  rw [← hgid, ← hdesc] at hkey
  rw [← hdesc] at hshows
  exact fetch_of_shows (v := ⟨next.bundle, gk⟩) hq₂ hshows hkey hfetch'

end Agree

/-! ## An admin consolidates -/

omit [KrMlDsa β] in
/-- The passes of a fetch over a single leave line. -/
theorem fetchApply_leave [JoinKem β] {desc : SuiteDesc β} {core : QspgsCore β}
    {ek queue attr : Bytes β} {accts : List (AcctRef β)} {views : List (MemberView β)}
    {l : ApxLine β} (hkind : l.lineType = .leave)
    (hlt : l.authorIndex.toNat < core.members.length) :
    fetchApply desc core ek queue accts views attr [l] =
      (fetchQueue desc core.gid queue accts ((views.map FetchWork.ofView).modify
        l.authorIndex.toNat fun w => { w with removed := true })).map fun work => (work, attr) := by
  -- the passes for newcomers, refreshes and attributes have nothing to do
  have happend (work : List (FetchWork β)) :
      [l].foldlM (fetchAppend desc core ek) work = .ok work := by
    simp [fetchAppend, hkind]
  have hrefresh (work : List (FetchWork β)) :
      [l].foldlM (fetchRefresh desc core ek core.members.length) work = .ok work := by
    simp [fetchRefresh, hkind]
  have hattr : [l].foldlM (applyAttr desc core ek) attr = .ok attr := by
    simp [applyAttr, hkind]
  have hleave (work : List (FetchWork β)) : [l].foldl (fetchLeave core.members.length) work =
      work.modify l.authorIndex.toNat fun w => { w with removed := true } := by
    simp [fetchLeave, hkind, hlt]
  rw [fetchApply, happend, Except.ok_bind, hrefresh, Except.ok_bind, hattr, Except.ok_bind, hleave]
  cases fetchQueue desc core.gid queue accts ((views.map FetchWork.ofView).modify
    l.authorIndex.toNat fun w => { w with removed := true }) <;> rfl

/-- The passes of a consolidation over a single leave line. -/
theorem consRest_leave [JoinKem β] {c : QsCustodian β} {cc : CurrentCore β} {inp : ConsInput β}
    {hdrpt : Bytes β} {n : Nat} {l : ApxLine β} (work : List (ConsWork β)) (w : QsWorld β)
    (hkind : l.lineType = .leave) (hlt : l.authorIndex.toNat < cc.core.members.length) :
    consRest c cc inp hdrpt n [l] work w =
      ((consSettleAll c.desc cc.core.gid inp.inviteQueue inp.accts (work.modify
        l.authorIndex.toNat fun w => { w with removed := true })).map fun p =>
          ⟨p.1, UInt8.ofNat (byteAt hdrpt 0), hdrpt.drop 1, n, true, p.2.1, p.2.2⟩, w) := by
  have happend : [l].foldlM (consAppend c cc inp.accts) work w = (.ok work, w) := by
    -- a leave line starts no row
    have hline : consAppend c cc inp.accts work l = pure work :=
      if_neg (by simp [hkind])
    rw [List.foldlM_cons, hline]
    rfl
  have hrefresh : [l].foldlM (consRefresh c.desc cc.core cc.sub.ek cc.core.members.length) work =
      .ok work := by
    simp [consRefresh, hkind]
  have hattr : [l].foldlM (applyAttr c.desc cc.core cc.sub.ek) (hdrpt.drop 1) =
      .ok (hdrpt.drop 1) := by
    simp [applyAttr, hkind]
  have hleave : [l].foldl (consLeave cc.core.members.length) work =
      work.modify l.authorIndex.toNat fun w => { w with removed := true } := by
    simp [consLeave, hkind, hlt]
  -- the line makes the core move to a new key
  have hany : ([l].any fun l =>
      decide (l.lineType = .leave ∧ l.authorIndex.toNat < cc.core.members.length)) = true := by
    simp [hkind, hlt]
  unfold consRest
  rw [Cmd.bind_apply_of_ok happend, hrefresh, Cmd.lift_ok_bind_apply, hattr,
    Cmd.lift_ok_bind_apply]
  dsimp only
  rw [hleave, hany]
  cases consSettleAll c.desc cc.core.gid inp.inviteQueue inp.accts (work.modify
    l.authorIndex.toNat fun w => { w with removed := true }) <;> rfl

/-- A consolidation of a core whose join link is closed emits the next core, step by step. -/
theorem consEmit_of_closed {c : QsCustodian β} {e : EditCtx β} {f : Folded β}
    {gkOp fet sa : Bytes β} {subOp : SubKey β} {caps : CoreCaps} {w w₁ w₂ w₃ : QsWorld β}
    {r : ConsBuilt β} {n : Nat} {p : CoreBundle β × Bytes β}
    (hfet : gyQspgsDeriveFet c.desc gkOp = .ok fet)
    (hbuild : f.work.foldlM (consBuild c e.cur.core subOp) ⟨[], [], none⟩ w = (.ok r, w₁))
    (hself : r.self = some n)
    (hseal : gyQspgsFieldSeal c.desc e.cur.core.aeadId subOp.ek .header e.cur.core.gid
      (Octet.ofByte f.flags :: f.attr) (1 + qsgroupAttrMax + 64) w₁ = (.ok sa, w₂))
    (hjoin : e.cur.core.joinCt.length = 0)
    (hemit : emitEdited c
      { e.cur.core with
        vmaj := e.cur.core.vmaj + 1
        saCt := sa
        members := r.members
        vkhash := r.vkhash
        lastVmin := UInt32.ofNat f.nLines } gkOp e.skb e.vkb (UInt32.ofNat n) caps w₂ =
        (.ok p, w₃)) :
    consEmit c e f gkOp subOp caps w = (.ok ⟨p.1, p.2, false⟩, w₃) := by
  unfold consEmit
  dsimp only
  rw [hfet, Cmd.lift_ok_bind_apply, Cmd.bind_apply_of_ok hbuild, hself]
  dsimp only
  -- no join slot stands open, so none is resealed
  rw [Cmd.bind_apply_of_ok hseal, if_neg fun h => h.1 hjoin]
  exact Cmd.bind_apply_of_ok hemit

namespace Sample

open Geryon.Sym

/-! ### Acceptances -/

/-- What is encapsulated to the key of a seed. -/
theorem kemEncap_eq {ek : Bytes Sym} {seed : Sym} (hek : ek.head? = some (out 65 seed 0))
    (c : Bytes Sym) : qsSuite.kemEncap ek c =
      .ok (prim 67 [seed, ofList c] 768, prim 68 [seed, ofList c] 32) := by
  have hencap : qsSuite.kemEncap = qsKemEncap := rfl
  rw [hencap, qsKemEncap, hek]
  rfl

/-- The key of the seed decapsulates it. -/
theorem kemDecap_eq {dk : Bytes Sym} {seed : Sym} (hdk : dk.head? = some (out 66 seed 0))
    (c : Sym) : qsSuite.kemDecap (prim 67 [seed, c] 768) dk = .ok (prim 68 [seed, c] 32) := by
  have hdecap : qsSuite.kemDecap = qsKemDecap := rfl
  rw [hdecap, qsKemDecap, head?_prim 67 _ (by decide), hdk]
  exact if_pos rfl

/-- The key derived from a basis key for one half of the invite key. -/
def joinKey (purpose : String) (basis : Bytes Sym) (len : Nat) : Bytes Sym :=
  kdf (domain purpose) basis (domain purpose) len

/-- The opening half of the invite key of a basis key. -/
def joinSk (basis : Bytes Sym) : JoinSk Sym :=
  ⟨joinKey "qspgs-join-ec" basis 32, prim 66 (joinKey "qspgs-join-mlkem" basis 64) 1632⟩

/-- The sealing half of the invite key of a basis key. -/
def joinPk (basis : Bytes Sym) : JoinPk Sym :=
  ⟨prim 61 (joinKey "qspgs-join-ec" basis 32) 32,
    prim 65 (joinKey "qspgs-join-mlkem" basis 64) 800⟩

/-- The join keys of the sample. -/
theorem gyQspgsJoinDerive_eq (basis : Bytes Sym) :
    gyQspgsJoinDerive qsSuite basis = .ok (joinPk basis, joinSk basis) := by
  have hbase : joinBase qsSuite = .ok (Octet.ofByte 9 :: zeros 31 : Bytes Sym) := rfl
  have hec : gyInfo qsSuite qspgsDomainMax "qspgs-join-ec" = .ok (domain "qspgs-join-ec") := by
    with_unfolding_all rfl
  have hkem : gyInfo qsSuite qspgsDomainMax "qspgs-join-mlkem" =
      .ok (domain "qspgs-join-mlkem") := by
    with_unfolding_all rfl
  have hkdf (purpose : String) (n : Nat) : qspgsKdf qsSuite (domain purpose) basis (domain purpose)
      n = .ok (joinKey purpose basis n) := rfl
  have hdh : qsSuite.dh (joinKey "qspgs-join-ec" basis qsSuite.curveSkLen)
      (Octet.ofByte 9 :: zeros 31) = .ok (joinPk basis).curvePk := rfl
  rw [gyQspgsJoinDerive, if_neg (by decide), hbase, Except.ok_bind, hec, Except.ok_bind, hkdf,
    Except.ok_bind, hdh, Except.ok_bind, hkem, Except.ok_bind, hkdf, Except.ok_bind]
  rfl

/-- The seed of the encapsulation key. -/
theorem head?_mlkemEk (basis : Bytes Sym) : (joinPk basis).mlkemEk.head? =
    some (out 65 (ofList (joinKey "qspgs-join-mlkem" basis 64)) 0) := by
  simp only [joinPk]
  exact head?_prim 65 (joinKey "qspgs-join-mlkem" basis 64) (show 0 < 800 by decide)

theorem head?_mlkemDk (basis : Bytes Sym) : (joinSk basis).mlkemDk.head? =
    some (out 66 (ofList (joinKey "qspgs-join-mlkem" basis 64)) 0) := by
  simp only [joinSk]
  exact head?_prim 66 (joinKey "qspgs-join-mlkem" basis 64) (show 0 < 1632 by decide)

/-- The halves of an invite key belong together. -/
theorem joinPair_sample (basis : Bytes Sym) : JoinPair qsSuite (joinPk basis) (joinSk basis) where
  agrees heph hdh := by
    obtain rfl := Except.ok.inj heph
    exact ⟨length_prim _ _ _, hdh⟩
  decaps hkem := by
    rw [kemEncap_eq (head?_mlkemEk basis)] at hkem
    obtain ⟨rfl, rfl⟩ := Prod.mk.inj (Except.ok.inj hkem)
    exact ⟨length_prim _ _ _, kemDecap_eq (head?_mlkemDk basis) _⟩

/-- A signature of a user on its acceptance. -/
def acceptSig (n len : Nat) : Bytes Sym := prim 71 [num n] len

/-- The sample signatures have the size they are made with. -/
theorem length_acceptSig (n len : Nat) : (acceptSig n len).length = len := length_prim _ _ _

attribute [irreducible] acceptSig

/-- What a user seals when it accepts an invitation. -/
def acceptance (n : Nat) : Invite Sym := ⟨uid n, uk n, acceptSig n 64, acceptSig n 2420⟩

/-- The key an invitation is sealed under. -/
theorem joinDemKey_eq (ss dh : Bytes Sym) : joinDemKey qsSuite ss dh =
    .ok (kdf (domain "qspgs-join-kem") (ss ++ dh) (domain "qspgs-join-kem") 32) := by
  with_unfolding_all rfl

/-- An acceptance is sealed to the invite key. -/
theorem inviteSealSigned_eq {w : QsWorld Sym} (h : w.rnd = coins) (basis : Bytes Sym) (n : Nat) :
    ∃ ct w', gyQspgsInviteSealSigned qsSuite (joinPk basis) (acceptance n) 8000 w = (.ok ct, w') ∧
      ct.length ≠ 0 ∧ ct.length < 2 ^ 32 := by
  have hlen : (invitePt (acceptance n)).length = 2537 :=
    @length_invitePt _ _ qsSuite _ (length_uid n) (length_uk n) (length_acceptSig n 64)
      (length_acceptSig n 2420)
  obtain ⟨kct, ss, hkct, hkem⟩ : ∃ ct ss, ct.length = 768 ∧ qsSuite.kemEncap
      (joinPk basis).mlkemEk (prim 50 [num (w.drawn + 1)] 32) = .ok (ct, ss) :=
    ⟨_, _, length_prim 67 _ 768, kemEncap_eq (head?_mlkemEk basis) _⟩
  obtain ⟨eph, hepk, hcurve, dh, hdh⟩ : ∃ eph : Keypair Sym, eph.pk.length = 32 ∧
      JoinKem.curveKeypair qsSuite (prim 50 [num w.drawn] 32) = .ok eph ∧
        ∃ dh, qsSuite.dh eph.sk (joinPk basis).curvePk = .ok dh :=
    ⟨⟨_, _⟩, length_prim 64 _ 32, rfl, _, rfl⟩
  obtain ⟨key, hkey⟩ : ∃ key, joinDemKey qsSuite ss dh = .ok key := ⟨_, joinDemKey_eq ss dh⟩
  have htag : (Sym.tag key (zeros 12) (eph.pk ++ kct) (invitePt (acceptance n)) 16).length = 16 :=
    length_prim _ _ _
  -- the plaintext and its tag fit what the seal leaves of 8000 bytes
  have hcap : (invitePt (acceptance n)).length + 16 ≤
      8000 - (qsSuite.curvePkLen + qsSuite.kemCtLen) := by
    rw [hlen]
    decide
  have hrnd := @gyRandomBytes_eq { w with drawn := w.drawn + 1 } h 32
  refine ⟨eph.pk ++ kct ++ (invitePt (acceptance n) ++ Sym.tag key (zeros 12) (eph.pk ++ kct)
    (invitePt (acceptance n)) 16), { w with drawn := w.drawn + 2 }, ?_, ?_, ?_⟩
  · rw [gyQspgsInviteSealSigned, if_neg (by simp [acceptance, qspgsUidLen]), if_neg (by
        rw [acceptance, length_acceptSig, length_acceptSig]
        decide), gyQspgsJoinSeal, if_neg (by decide), if_neg (by rw [hlen]; decide),
      Cmd.bind_apply_of_ok (gyRandomBytes_eq h 32), hcurve, Cmd.lift_ok_bind_apply, hdh,
      Cmd.lift_ok_bind_apply, Cmd.bind_apply_of_ok hrnd]
    dsimp only
    rw [hkem, Cmd.lift_ok_bind_apply]
    dsimp only
    rw [hkey, Cmd.lift_ok_bind_apply, gyAeadEncrypt_eq key _ (length_zeros 12) hcap,
      Cmd.lift_ok_bind_apply]
    rfl
  · simp only [List.length_append, hepk]
    omega
  · simp only [List.length_append, hepk, hkct, hlen, htag]
    omega

/-- The account of an invited user. -/
def newcomerAcct (n : Nat) : AcctRef Sym :=
  ⟨uid n, none, some (prim 73 [num n] 32), some (prim 74 [num n] 1312)⟩

/-- A sealed acceptance of a user. -/
structure Accepts (n : Nat) (basis ct : Bytes Sym) : Prop where
  opens : gyQspgsInviteOpen qsSuite (joinSk basis) ct = .ok (acceptance n)
  ne : ct.length ≠ 0
  lt : ct.length < 2 ^ 32

/-- Every invited user can accept. -/
theorem exists_accepts (n : Nat) (basis : Bytes Sym) : ∃ ct, Accepts n basis ct := by
  obtain ⟨ct, w', hseal, hne, hlt⟩ := inviteSealSigned_eq (w := world (recs n basis)) rfl basis n
  exact ⟨ct, gyQspgsInviteOpen_of_seal aeadOpens_sym (joinPair_sample basis) (length_uk n)
    (by decide) (by decide) hseal, hne, hlt⟩

/-- The acceptance settles the pending entry of its user, whatever follows it in the queue. -/
theorem settleOne_accepts {n : Nat} {basis ct : Bytes Sym} (h : Accepts n basis ct)
    (rest : List (Bytes Sym)) :
    settleOne qsSuite basis gid (ct :: rest) [newcomerAcct n] (uid n) = .ok (some (uk n, 0)) := by
  -- both signatures of the acceptance verify under the account handed in
  have hgenuine : inviteGenuine qsSuite gid [newcomerAcct n] (acceptance n) = true := by
    have hinfo : gyInfo qsSuite qspgsDomainMax PersCtx.invaccept.purpose =
        .ok (domain "qspgs-invaccept") := by with_unfolding_all rfl
    have hlen : ¬ 6144 < (gyQspgsInvacceptTbs (uid n) (uk n) gid).length := by
      simp [gyQspgsInvacceptTbs]
    have hverify : gyQspgsInviteVerify qsSuite gid (prim 73 [num n] 32) (prim 74 [num n] 1312)
        (acceptance n) = .ok () := by
      have huid : ¬ (acceptance n).uid.length ≠ qspgsUidLen := not_not.2 (length_uid n)
      rw [gyQspgsInviteVerify, if_neg huid, gyQspgsPersVerify, acceptance, if_neg hlen, hinfo,
        Except.ok_bind]
      rfl
    unfold inviteGenuine newcomerAcct
    rw [List.findSome?_cons]
    dsimp only
    rw [if_pos (show uid n = (acceptance n).uid from rfl)]
    dsimp only
    rw [hverify]
  rw [settleOne, gyQspgsJoinDerive_eq, Except.ok_bind]
  show Except.ok (settleLoop qsSuite (joinSk basis) gid [newcomerAcct n] (uid n) 0 (ct :: rest)) = _
  -- the first entry already opens, so the rest is not looked at
  rw [settleLoop, h.opens]
  dsimp only
  rw [if_pos ⟨rfl, hgenuine⟩]
  rfl

/-! ### A member leaves and an invited user accepts -/

/-- A group of an admin, an ordinary member and an invited user, users 0 to 2. -/
def trioCore : QspgsCore Sym :=
  core (gk 0) 1 0 [Sym.byte 0] [] [⟨0, true, false⟩, ⟨1, false, false⟩, ⟨2, false, true⟩]

/-- The core of the trio is well formed. -/
theorem trioCore_wf : trioCore.Wf qsSuite := core_wf (by decide) (by decide) (by decide)

/-- A queue entry that no key opens. -/
def stray : Bytes Sym := zeros 8

/-- The group after the ordinary member has left and the invited user has accepted. -/
def trioAnswer (ct : Bytes Sym) : GroupAnswer Sym :=
  { answer (bundle trioCore (gk 0) 0 0) with
    apx := appendixBytes qsSuite (pairApx [memberLine .leave 1 []])
    inviteQueue := inviteQueueBytes qsSuite [ct, stray] }

/-- The admin's fetch of it. -/
def trioOpened : OpenedCore Sym :=
  { opened trioCore (gk 0) 0 ⟨0, true, false⟩ with apx := pairApx [memberLine .leave 1 []] }

/-- So is its appendix. -/
theorem wf_leaveApx : (pairApx [memberLine .leave 1 []]).Wf qsSuite :=
  wf_pairApx (by decide) fun _ hl => ⟨_, _, _, by decide, (List.mem_singleton.1 hl).symm⟩

/-- The answer for the trio opens. -/
theorem fetchOpen_trio (ct : Bytes Sym) : fetchOpen (custodian 0) (trioAnswer ct) ⟨0, 0, 0, []⟩
    [newcomerAcct 2] ⟨3, none, none⟩ (world (recs 0 (gk 0))) =
      (.ok trioOpened, world (recs 0 (gk 0))) :=
  (knows_world 0 (gk 0)).fetchOpen (length_gk 0) trioCore_wf (i := 0) (l := ⟨0, true, false⟩)
    rfl rfl rfl [newcomerAcct 2]
    (apxOfCore_pairApx wf_leaveApx _) rfl

/-- The leave line is good. -/
theorem lineVerdict_leave : lineVerdict (custodian 0) trioCore (sub (gk 0)) 1 0 (Settings.ofByte 0)
    [newcomerAcct 2] (world (recs 0 (gk 0))) (memberLine .leave 1 []) = .ok true := by
  have hquiet := (knows_world 0 (gk 0)).quiet
  have hentries := (fetchOpen_passed hquiet (fetchOpen_trio [])).2.1.entries
  exact (lineVerdict_of_member 1 0 (Settings.ofByte 0) qsTotal hquiet hentries
    (show (memberLine .leave 1 []).lineType ≠ .join by decide)).1
      (authored_memberLine rfl [newcomerAcct 2] .leave [])

/-- Its header opens to the settings. -/
theorem openHeaderField_trio :
    openHeaderField qsSuite trioCore (sub (gk 0)).ek = .ok [Sym.byte 0] :=
  openHeaderField_core (by decide) (by decide)

/-- The queue with the two entries is read back. -/
theorem inviteQueue_pair {ct : Bytes Sym} (hne : ct.length ≠ 0) (hlt : ct.length < 2 ^ 32) :
    (inviteQueueBytes qsSuite [ct, stray]).length ≠ 0 ∧
      gyQspgsInviteQueueDecode qsSuite (inviteQueueBytes qsSuite [ct, stray]) =
        .ok [ct, stray] := by
  refine ⟨?_, gyQspgsInviteQueueDecode_inviteQueueBytes qsSuite
    (show 2 ≤ qspgsMaxEntries by decide) ?_ ?_⟩
  · rw [length_inviteQueueBytes]
    omega
  · intro e he
    obtain rfl | rfl : e = ct ∨ e = stray := by simpa using he
    · exact hne
    · decide
  · intro e he
    obtain rfl | rfl : e = ct ∨ e = stray := by simpa using he
    · exact hlt
    · decide

/-- What is left to settle once the leave line is applied. -/
theorem fetchApply_trio {ct : Bytes Sym} (h : Accepts 2 (zeros 32) ct) :
    fetchApply qsSuite trioCore (sub (gk 0)).ek (inviteQueueBytes qsSuite [ct, stray])
      [newcomerAcct 2] ([⟨0, true, false⟩, ⟨1, false, false⟩, ⟨2, false, true⟩].map Line.view) []
      [memberLine .leave 1 []] =
        .ok ([⟨⟨uid 0, true, uk 0⟩, false, [], false⟩, ⟨⟨uid 1, false, uk 1⟩, false, [], true⟩,
          ⟨⟨uid 2, false, uk 2⟩, true, zeros 32, false⟩], []) := by
  obtain ⟨hne, hdec⟩ := inviteQueue_pair h.ne h.lt
  -- only the third row is pending, and the first entry of the queue is its acceptance
  have hqueue : fetchQueue qsSuite gid (inviteQueueBytes qsSuite [ct, stray]) [newcomerAcct 2]
      [⟨⟨uid 0, true, uk 0⟩, false, [], false⟩, ⟨⟨uid 1, false, uk 1⟩, false, [], true⟩,
        ⟨⟨uid 2, false, []⟩, true, zeros 32, false⟩] =
      .ok [⟨⟨uid 0, true, uk 0⟩, false, [], false⟩, ⟨⟨uid 1, false, uk 1⟩, false, [], true⟩,
        ⟨⟨uid 2, false, uk 2⟩, true, zeros 32, false⟩] := by
    have hsettled : fetchSettle qsSuite gid [ct, stray] [newcomerAcct 2]
        ⟨⟨uid 2, false, []⟩, true, zeros 32, false⟩ =
          .ok ⟨⟨uid 2, false, uk 2⟩, true, zeros 32, false⟩ := by
      rw [fetchSettle, if_pos rfl]
      dsimp only
      rw [settleOne_accepts h [stray]]
      rfl
    rw [fetchQueue, if_neg hne, hdec, Except.ok_bind, List.mapM'_cons, fetchSettle,
      if_neg Bool.false_ne_true, Except.ok_bind, List.mapM'_cons, fetchSettle,
      if_neg Bool.false_ne_true, Except.ok_bind, List.mapM'_cons, hsettled, Except.ok_bind]
    rfl
  have hlt : (memberLine .leave 1 []).authorIndex.toNat < trioCore.members.length :=
    show 1 < 3 by decide
  rw [fetchApply_leave (show (memberLine .leave 1 []).lineType = .leave from rfl) hlt]
  exact congrArg (Except.map _) hqueue

/-- The admin's fetch strikes out the user who leaves and shows the key of the one who accepts. -/
theorem fetch_trio {ct : Bytes Sym} (h : Accepts 2 (zeros 32) ct) :
    gyCustodianQsgroupFetch (custodian 0) (trioAnswer ct) ⟨0, 0, 0, []⟩ [newcomerAcct 2]
      ⟨3, none, none⟩ (world (recs 0 (gk 0))) =
        (.ok (trioOpened, ⟨[⟨uid 0, true, uk 0⟩, ⟨uid 2, false, uk 2⟩],
          [⟨.leave, 1, true, false⟩], []⟩), world (recs 0 (gk 0))) := by
  have hk := knows_world 0 (gk 0)
  have hverdict : ∀ l ∈ trioOpened.apx.lines, lineVerdict (custodian 0) trioOpened.core
      trioOpened.sub trioOpened.apx.vmaj trioOpened.apx.vmin (Settings.ofByte 0) [newcomerAcct 2]
      (world (recs 0 (gk 0))) l = .ok true := by
    intro l hl
    obtain rfl := List.mem_singleton.1 hl
    exact lineVerdict_leave
  have hcap : ∀ l ∈ trioOpened.apx.lines, l.payload.length ≤ (trioAnswer ct).apx.length :=
    fun l hl => apxOfCore_payload_le (apxOfCore_pairApx wf_leaveApx []) hl
  have hviews := @mapM'_memberDecrypt (gk 0) [⟨0, true, false⟩, ⟨1, false, false⟩, ⟨2, false, true⟩]
  have hfold : fetchFold (custodian 0) (trioAnswer ct) [newcomerAcct 2] ⟨3, none, none⟩ trioOpened
      (world (recs 0 (gk 0))) = _ :=
    fetchFold_of_verdicts hk.quiet hcap hviews openHeaderField_trio rfl hverdict
  refine gyCustodianQsgroupFetch_of_opened (fetchOpen_trio ct) (hfold.trans ?_)
  have hfinish : fetchFinish (custodian 0) [newcomerAcct 2] ⟨3, none, none⟩
      [⟨.leave, 1, true, false⟩]
      ([⟨⟨uid 0, true, uk 0⟩, false, [], false⟩, ⟨⟨uid 1, false, uk 1⟩, false, [], true⟩,
          ⟨⟨uid 2, false, uk 2⟩, true, zeros 32, false⟩], []) (world (recs 0 (gk 0))) =
      (.ok ⟨[⟨uid 0, true, uk 0⟩, ⟨uid 2, false, uk 2⟩], [⟨.leave, 1, true, false⟩], []⟩,
        world (recs 0 (gk 0))) := by
    -- the key of this custodian is checked; of the others none is stored
    have hself : fetchUserKey (custodian 0) [newcomerAcct 2]
        ⟨⟨uid 0, true, uk 0⟩, false, [], false⟩ (world (recs 0 (gk 0))) =
          (.ok (), world (recs 0 (gk 0))) := by
      rw [fetchUserKey, if_neg (by simp [gyQspgsMasterKeyLen, qsSuite, symSuite])]
      exact hk.checkUserKey 0 [newcomerAcct 2]
    have hkeys : [⟨⟨uid 0, true, uk 0⟩, false, [], false⟩,
        ⟨⟨uid 1, false, uk 1⟩, false, [], true⟩, ⟨⟨uid 2, false, uk 2⟩, true, zeros 32, false⟩].forM
          (fetchUserKey (custodian 0) [newcomerAcct 2]) (world (recs 0 (gk 0))) =
            (.ok (), world (recs 0 (gk 0))) := by
      show (fetchUserKey (custodian 0) [newcomerAcct 2]
        ⟨⟨uid 0, true, uk 0⟩, false, [], false⟩ >>= fun _ => _) _ = _
      rw [Cmd.bind_apply_of_ok hself]
      rfl
    rw [fetchFinish, Cmd.bind_apply_of_ok hkeys]
    rfl
  have hlines : trioOpened.apx.lines.filter
      (fetchApplies (Settings.ofByte (byteAt [Sym.byte 0] 0)) fun _ => true) =
        [memberLine .leave 1 []] := rfl
  rw [hlines]
  have happly : fetchApply (custodian 0).desc trioOpened.core trioOpened.sub.ek
      (trioAnswer ct).inviteQueue [newcomerAcct 2]
      ([⟨0, true, false⟩, ⟨1, false, false⟩, ⟨2, false, true⟩].map Line.view)
      (List.drop 1 [Sym.byte 0]) [memberLine .leave 1 []] = _ := fetchApply_trio h
  rw [happly, Cmd.lift_ok_bind_apply]
  exact hfinish

/-- The admin as an edit of the group sees the current core. -/
def trioEdit : EditCtx Sym :=
  ⟨⟨trioCore, symSign trioCore 0 (vkr (gk 0) 0), gk 0, sub (gk 0)⟩, 0, skb 0, vkb 0⟩

/-- What the admin consolidates. -/
def trioInput (ct : Bytes Sym) : ConsInput Sym :=
  ⟨appendixBytes qsSuite (pairApx [memberLine .leave 1 []]), inviteQueueBytes qsSuite [ct, stray],
    [newcomerAcct 2], []⟩

/-- The working set of the consolidation. -/
def trioFolded (ct : Bytes Sym) : Folded Sym :=
  ⟨[⟨uid 0, vkb 0, uk 0, true, false, false⟩, ⟨uid 1, vkb 1, uk 1, false, false, true⟩,
    ⟨uid 2, vkb 2, uk 2, false, false, false⟩], 0, [], 1, true, [ct, stray], [0]⟩

/-- The entry of a line in the working set of a consolidation. -/
def consWork (l : Line) : ConsWork Sym :=
  ⟨uid l.user, vkb l.user, l.view.uk, l.admn, l.pending, false⟩

/-- A consolidation opens the entries of a roster. -/
theorem consOpen_lines (roster : List Line) (accts : List (AcctRef Sym)) :
    (roster.map (Line.member (gk 0))).mapM' (consOpen (custodian 0) trioEdit.cur accts)
      (world (recs 0 (gk 0))) = (.ok (roster.map consWork), world (recs 0 (gk 0))) := by
  have hline (l : Line) : consOpen (custodian 0) trioEdit.cur accts (l.member (gk 0))
      (world (recs 0 (gk 0))) = (.ok (consWork l), world (recs 0 (gk 0))) := by
    have hvkb : resolveMemberVkb (custodian 0) l.view.uid accts (world (recs 0 (gk 0))) =
        (.ok (vkb l.user), world (recs 0 (gk 0))) :=
      (knows_world 0 (gk 0)).resolveMemberVkb l.user accts
    show (Cmd.lift (gyQspgsMemberDecrypt qsSuite 1 (sub (gk 0)).ek gid (l.member (gk 0))) >>= _) _ =
      _
    rw [l.memberDecrypt, Cmd.lift_ok_bind_apply]
    exact Cmd.bind_apply_of_ok hvkb
  -- opening a row reads the store and draws nothing
  induction roster with
  | nil => rfl
  | cons l roster ih =>
    rw [List.map_cons, List.mapM'_cons, Cmd.bind_apply_of_ok (hline l), Cmd.bind_apply_of_ok ih]
    rfl

/-- The leaver is struck out and the invited user has its key. -/
theorem consFold_trio {ct : Bytes Sym} (h : Accepts 2 (zeros 32) ct) :
    consFold (custodian 0) trioEdit.cur (trioInput ct) (world (recs 0 (gk 0))) =
      (.ok (trioFolded ct), world (recs 0 (gk 0))) := by
  have hk := knows_world 0 (gk 0)
  obtain ⟨hne, hdec⟩ := inviteQueue_pair h.ne h.lt
  have hopen : trioEdit.cur.core.members.mapM' (consOpen (custodian 0) trioEdit.cur
      (trioInput ct).accts) (world (recs 0 (gk 0))) = _ :=
    consOpen_lines [⟨0, true, false⟩, ⟨1, false, false⟩, ⟨2, false, true⟩] [newcomerAcct 2]
  have hverdict : ∀ l ∈ (pairApx [memberLine .leave 1 []]).lines, lineVerdict (custodian 0)
      trioEdit.cur.core trioEdit.cur.sub 1 0 (Settings.ofByte 0) (trioInput ct).accts
      (world (recs 0 (gk 0))) l = .ok true := by
    intro l hl
    obtain rfl := List.mem_singleton.1 hl
    exact lineVerdict_leave
  -- the pending row takes the key of its acceptance and entry 0 is used up
  have hsettle : consSettleAll qsSuite gid (inviteQueueBytes qsSuite [ct, stray]) [newcomerAcct 2]
      [⟨uid 0, vkb 0, uk 0, true, false, false⟩, ⟨uid 1, vkb 1, uk 1, false, false, true⟩,
        ⟨uid 2, vkb 2, zeros 32, false, true, false⟩] =
      .ok ((trioFolded ct).work, [ct, stray], [0]) := by
    have hsettled : consSettle qsSuite gid [ct, stray] [newcomerAcct 2]
        ⟨uid 2, vkb 2, zeros 32, false, true, false⟩ =
          .ok (⟨uid 2, vkb 2, uk 2, false, false, false⟩, some 0) := by
      rw [consSettle, if_pos ⟨rfl, Bool.false_ne_true⟩]
      dsimp only
      rw [settleOne_accepts h [stray]]
      rfl
    rw [consSettleAll, if_neg hne, hdec, Except.ok_bind, List.mapM'_cons, consSettle,
      if_neg (fun h => Bool.false_ne_true h.1), Except.ok_bind, List.mapM'_cons, consSettle,
      if_neg (fun h => Bool.false_ne_true h.1), Except.ok_bind, List.mapM'_cons, hsettled,
      Except.ok_bind]
    rfl
  have hlt : (memberLine .leave 1 []).authorIndex.toNat < trioEdit.cur.core.members.length :=
    show 1 < 3 by decide
  have hapx : apxOfCore (custodian 0).desc trioEdit.cur.core (trioInput ct).apx =
      .ok (pairApx [memberLine .leave 1 []]) := apxOfCore_pairApx wf_leaveApx _
  rw [consFold_of_verdicts hk.quiet hapx openHeaderField_trio rfl hverdict]
  have hlines : (((pairApx [memberLine .leave 1 []]).lines.zipIdx.filter
      (consApplies (Settings.ofByte (byteAt [Sym.byte 0] 0)) (trioInput ct).approved
        fun _ => true)).map Prod.fst) = [memberLine .leave 1 []] := rfl
  rw [hlines, Cmd.bind_apply_of_ok hopen,
    consRest_leave _ _ (show (memberLine .leave 1 []).lineType = .leave from rfl) hlt]
  exact Prod.ext (congrArg (Except.map _) hsettle) rfl

/-- The survivors are built anew, under any key. -/
theorem consBuild_trio (ct new : Bytes Sym) : ∃ m₀ m₂ : QspgsMember Sym,
    (trioFolded ct).work.foldlM (consBuild (custodian 0) trioCore (sub new)) ⟨[], [], none⟩
      { world (recs 0 (gk 0)) with drawn := 1 } =
      (.ok ⟨[m₀, m₂], [symVkHash (vkr new 0), symVkHash (vkr new 2)], some 0⟩,
        { world (recs 0 (gk 0)) with drawn := 5 }) ∧
      ∀ m ∈ [m₀, m₂], m.cuid.length = 64 ∧ m.mct.length ≤ 512 := by
  obtain ⟨m₀, hbuild₀, hcuid₀, hmct₀⟩ :=
    @memberBuild_eq { world (recs 0 (gk 0)) with drawn := 1 } rfl new 0 true
  obtain ⟨m₂, hbuild₂, hcuid₂, hmct₂⟩ :=
    @memberBuild_eq { world (recs 0 (gk 0)) with drawn := 3 } rfl new 2 false
  refine ⟨m₀, m₂, ?_, by simp [hcuid₀, hmct₀, hcuid₂, hmct₂]⟩
  have hfirst : consBuild (custodian 0) trioCore (sub new) ⟨[], [], none⟩
      ⟨uid 0, vkb 0, uk 0, true, false, false⟩ { world (recs 0 (gk 0)) with drawn := 1 } =
        (.ok ⟨[m₀], [symVkHash (vkr new 0)], some 0⟩,
          { world (recs 0 (gk 0)) with drawn := 3 }) := by
    rw [consBuild, if_neg Bool.false_ne_true, if_neg Bool.false_ne_true]
    exact Cmd.bind_apply_of_ok hbuild₀
  have hlast : consBuild (custodian 0) trioCore (sub new) ⟨[m₀], [symVkHash (vkr new 0)], some 0⟩
      ⟨uid 2, vkb 2, uk 2, false, false, false⟩ { world (recs 0 (gk 0)) with drawn := 3 } =
        (.ok ⟨[m₀, m₂], [symVkHash (vkr new 0), symVkHash (vkr new 2)], some 0⟩,
          { world (recs 0 (gk 0)) with drawn := 5 }) := by
    rw [consBuild, if_neg Bool.false_ne_true, if_neg Bool.false_ne_true]
    refine (Cmd.bind_apply_of_ok hbuild₂).trans ?_
    dsimp only
    rw [if_neg (show ¬ uid 2 = (custodian 0).selfUid by simp)]
    rfl
  show (consBuild (custodian 0) trioCore (sub new) ⟨[], [], none⟩
    ⟨uid 0, vkb 0, uk 0, true, false, false⟩ >>= fun r =>
      consBuild (custodian 0) trioCore (sub new) r ⟨uid 1, vkb 1, uk 1, false, false, true⟩ >>=
        fun r => consBuild (custodian 0) trioCore (sub new) r
          ⟨uid 2, vkb 2, uk 2, false, false, false⟩ >>= fun r => pure r) _ = _
  -- the row in the middle has left and is passed over
  rw [Cmd.bind_apply_of_ok hfirst, consBuild, if_pos rfl, Cmd.pure_bind_apply,
    Cmd.bind_apply_of_ok hlast]
  rfl

/-- The admin emits the version with the survivors, under any key. -/
theorem consEmit_trio (ct new : Bytes Sym) : ∃ b,
    consEmit (custodian 0) trioEdit (trioFolded ct) new (sub new) roomy
      { world (recs 0 (gk 0)) with drawn := 1 } =
        (.ok ⟨b, fet new, false⟩, { world (recs 0 (gk 0)) with drawn := 7 }) := by
  obtain ⟨m₀, m₂, hbuilt, hmem⟩ := consBuild_trio ct new
  obtain ⟨sa, hsa, hseal⟩ := @fieldSeal_eq { world (recs 0 (gk 0)) with drawn := 5 } rfl
    (sub new).ek .header [Sym.byte 0] (1 + qsgroupAttrMax + 64) (by decide)
  have hemit := @emitEdited_keptCore { world (recs 0 (gk 0)) with drawn := 6 } [m₀, m₂]
    [symVkHash (vkr new 0), symVkHash (vkr new 2)] sa hmem (by simp) (by simp) (by simp) hsa rfl
    new 1
  refine ⟨bundle (keptCore [m₀, m₂] [symVkHash (vkr new 0), symVkHash (vkr new 2)] sa 1) new 0 0,
    ?_⟩
  have hnext : { trioEdit.cur.core with
      vmaj := trioEdit.cur.core.vmaj + 1
      saCt := sa
      members := [m₀, m₂]
      vkhash := [symVkHash (vkr new 0), symVkHash (vkr new 2)]
      lastVmin := UInt32.ofNat (trioFolded ct).nLines } =
      keptCore [m₀, m₂] [symVkHash (vkr new 0), symVkHash (vkr new 2)] sa 1 := rfl
  refine consEmit_of_closed
    (r := ⟨[m₀, m₂], [symVkHash (vkr new 0), symVkHash (vkr new 2)], some 0⟩) (n := 0)
    (p := (bundle (keptCore [m₀, m₂] [symVkHash (vkr new 0), symVkHash (vkr new 2)] sa 1) new 0 0,
      fet new))
    (gyQspgsDeriveFet_eq new) hbuilt rfl hseal rfl ?_
  dsimp only
  rw [hnext]
  exact hemit

/-- An edit begins on the core of the trio. -/
theorem editBegin_trio (ct : Bytes Sym) :
    editBegin (custodian 0) (trioAnswer ct).bundle (world (recs 0 (gk 0))) =
      (.ok trioEdit, world (recs 0 (gk 0))) :=
  (knows_world 0 (gk 0)).editBegin (i := 0) (l := ⟨0, true, false⟩) ⟨0, true, false⟩ (length_gk 0)
    trioCore_wf rfl rfl

/-- The admin consolidates, under a new key. -/
theorem consolidate_trio {ct : Bytes Sym} (h : Accepts 2 (zeros 32) ct) : ∃ next q w',
    gyCustodianQsgroupConsolidate (custodian 0) (trioAnswer ct).bundle (trioInput ct) none roomy
      (world (recs 0 (gk 0))) = (.ok (next, q), w') := by
  have hk := knows_world 0 (gk 0)
  have hkey : gyQspgsGroupKeyGen qsSuite (world (recs 0 (gk 0))) =
      (.ok (prim 50 [num 0] 32), { world (recs 0 (gk 0)) with drawn := 1 }) := by
    rw [gyQspgsGroupKeyGen, if_neg (by decide)]
    exact gyRandomBytes_eq rfl _
  generalize (prim 50 [num 0] 32 : Bytes Sym) = new at hkey
  obtain ⟨b, hemit⟩ := consEmit_trio ct new
  -- nothing is staged yet, so the new key can be
  obtain ⟨w', hstage, -⟩ := stage_succeeds (w := { world (recs 0 (gk 0)) with drawn := 7 })
    ⟨hk.quiet, hk.base, hk.staged, hk.current, hk.known⟩ new
  obtain ⟨q, hq⟩ : ∃ q, consQueue (custodian 0) (trioInput ct) (trioFolded ct) none = .ok q :=
    consQueue_ok (consFold_entries (consFold_trio h)) fun n hn => by cases hn
  refine ⟨⟨b, fet new, false⟩, q, w', ?_⟩
  rw [gyCustodianQsgroupConsolidate, Cmd.bind_apply_of_ok (editBegin_trio ct),
    Cmd.bind_apply_of_ok (consFold_trio h), if_pos (show (trioFolded ct).leave = true from rfl)]
  refine (Cmd.bind_apply_of_ok hkey).trans ?_
  rw [show gyQspgsDeriveSubKey (custodian 0).desc new = .ok (sub new) from
    gyQspgsDeriveSubKey_eq new, Cmd.lift_ok_bind_apply, Cmd.bind_apply_of_ok hemit]
  refine (Cmd.bind_apply_of_ok hstage).trans ?_
  rw [hq]
  rfl

/-- A user leaves and an invited user accepts. After the admin has consolidated both, whoever
fetches the next version under the new key is reported what the admin's fetch has reported: the
admin and the user who has accepted. -/
theorem consolidate_shows_fetch_trio : ∃ ct next q w₁ gk', Accepts 2 (zeros 32) ct ∧
    gyCustodianQsgroupConsolidate (custodian 0) (trioAnswer ct).bundle (trioInput ct) none roomy
      (world (recs 0 (gk 0))) = (.ok (next, q), w₁) ∧
      loadedKey qsSuite w₁.store.recs gid = .ok gk' ∧
      ∀ n prior accts caps (w₂ w₃ : QsWorld Sym) o r, w₂.Quiet →
        loadedKey qsSuite w₂.store.recs gid = .ok gk' →
          gyCustodianQsgroupFetch (custodian n) next.bundle.served prior accts caps w₂ =
            (.ok (o, r), w₃) →
              r.members = [⟨uid 0, true, uk 0⟩, ⟨uid 2, false, uk 2⟩] ∧ r.attr = [] := by
  obtain ⟨ct, haccepts⟩ := exists_accepts 2 (zeros 32)
  obtain ⟨next, q, w₁, h⟩ := consolidate_trio haccepts
  have hviews := @mapM'_memberDecrypt (gk 0) [⟨0, true, false⟩, ⟨1, false, false⟩, ⟨2, false, true⟩]
  obtain ⟨gk', hkey, hall⟩ := consolidate_shows_fetch aeadOpens_sym
    (knows_world 0 (gk 0)).quiet (fetch_trio haccepts) (fun views hv => by
      obtain rfl := Except.ok.inj (hv.symm.trans hviews)
      refine ⟨fun v hv hp => ?_, fun l hl hkind => ?_⟩
      · simp only [List.map_cons, List.map_nil, List.mem_cons, List.not_mem_nil, or_false] at hv
        -- the one pending row carries no admin bit
        rcases hv with rfl | rfl | rfl <;> first | rfl | cases hp
      · obtain rfl := List.mem_singleton.1 hl
        cases hkind) h
  exact ⟨ct, next, q, w₁, gk', haccepts, h, hkey,
    fun n prior accts caps w₂ w₃ o r hq hkey₂ hfetch₂ =>
      hall (custodian n) prior accts caps w₂ w₃ o r rfl hq hkey₂ hfetch₂⟩

/-! ### A member is removed -/

end Sample

end Geryon
