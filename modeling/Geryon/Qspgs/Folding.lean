import Geryon.Lib.Register
import Geryon.Qspgs.Ignored
import Geryon.Qspgs.Rekeyed

/-!
# Folding the appendix

A fetch and a consolidation go over the valid lines of the appendix with a working set each. Seen as
a register of users, both do the same to it: a newcomer line enters a user, a leave line strikes the
author's entry, and nothing else touches who is there.

## Main results

* `consFold_register`: the register of a consolidation.
-/

namespace Geryon

variable {β : Type} [Octet β] [DecidableEq β] [KrMlDsa β] [Sodium β]

/-! ## Lines -/

/-- Whether a line lets the member at its author's place leave. -/
def isLeaver (n : Nat) (l : ApxLine β) : Bool :=
  decide (l.lineType = .leave ∧ l.authorIndex.toNat < n)

/-- The places of a core whose members the lines let leave. -/
def leavers (n : Nat) (lines : List (ApxLine β)) : List Nat :=
  (lines.filter (isLeaver n)).map fun l => l.authorIndex.toNat

/-- The tuples of the newcomer lines, in order. -/
def newcomers (desc : SuiteDesc β) (core : QspgsCore β) (ek : Bytes β) (lines : List (ApxLine β)) :
    Except GyErr (List (MemberTuple β)) :=
  (lines.filter isNewcomer).mapM' (newcomerOpen desc core ek)

/-- The entry of the working set of a fetch in the register. -/
def FetchWork.entry (x : FetchWork β) : Bytes β × Bool := (x.view.uid, x.removed)

/-- The entry of the working set of a consolidation in the register. -/
def ConsWork.entry (x : ConsWork β) : Bytes β × Bool := (x.uid, x.removed)

section Lines

variable {n : Nat} {lines : List (ApxLine β)}

omit [Octet β] [DecidableEq β] [KrMlDsa β] [Sodium β] in
theorem lt_of_mem_leavers {i : Nat} (h : i ∈ leavers n lines) : i < n := by
  obtain ⟨l, hl, rfl⟩ := List.mem_map.1 h
  exact (of_decide_eq_true (List.mem_filter.1 hl).2).2

omit [Octet β] [DecidableEq β] [KrMlDsa β] [Sodium β] in
theorem leavers_cons_of_leave {l : ApxLine β} (h : isLeaver n l = true) :
    leavers n (l :: lines) = l.authorIndex.toNat :: leavers n lines := by
  rw [leavers, List.filter_cons_of_pos h]
  rfl

omit [Octet β] [DecidableEq β] [KrMlDsa β] [Sodium β] in
theorem leavers_cons_of_not {l : ApxLine β} (h : ¬isLeaver n l = true) :
    leavers n (l :: lines) = leavers n lines := by
  rw [leavers, List.filter_cons_of_neg h]
  rfl

omit [DecidableEq β] [KrMlDsa β] in
theorem newcomers_cons_of_new {desc : SuiteDesc β} {core : QspgsCore β} {ek : Bytes β}
    {l : ApxLine β} {t : MemberTuple β} {ts : List (MemberTuple β)} (hl : isNewcomer l = true)
    (ht : newcomerOpen desc core ek l = .ok t) (hts : newcomers desc core ek lines = .ok ts) :
    newcomers desc core ek (l :: lines) = .ok (t :: ts) := by
  rw [newcomers, List.filter_cons_of_pos hl]
  exact Except.mapM'_eq_ok_iff.2 (.cons ht (Except.mapM'_eq_ok_iff.1 hts))

omit [DecidableEq β] [KrMlDsa β] in
theorem newcomers_cons_of_not {desc : SuiteDesc β} {core : QspgsCore β} {ek : Bytes β}
    {l : ApxLine β} (hl : ¬isNewcomer l = true) :
    newcomers desc core ek (l :: lines) = newcomers desc core ek lines := by
  rw [newcomers, List.filter_cons_of_neg hl]
  rfl

omit [Octet β] [DecidableEq β] [KrMlDsa β] [Sodium β] in
/-- A strike in the register is the mark of a removed entry. -/
theorem map_strike {α : Type} {f : α → α} {entry : α → Bytes β × Bool}
    (hf : ∀ x, entry (f x) = ((entry x).1, true)) (work : List α) (i : Nat) :
    (work.modify i f).map entry = Register.strike (work.map entry) i :=
  List.map_modify_of_comm hf work i

end Lines

/-! ## The register of a fetch -/

section Fetch

variable {desc : SuiteDesc β} {core : QspgsCore β} {ek queue : Bytes β} {n : Nat}
  {accts : List (AcctRef β)} {work work' : List (FetchWork β)} {lines : List (ApxLine β)}

variable [JoinKem β]

end Fetch

/-! ## The register of a consolidation -/

section Consolidate

variable {c : QsCustodian β} {cc : CurrentCore β} {accts : List (AcctRef β)} {w w' : QsWorld β}
  {lines : List (ApxLine β)} {work work' : List (ConsWork β)} {n : Nat}

/-- The working entries of a core: its members, none of them removed. -/
theorem consOpen_register {ms : List (QspgsMember β)}
    (h : ms.mapM' (consOpen c cc accts) w = (.ok work, w')) :
    ∃ vs, ms.mapM' (gyQspgsMemberDecrypt c.desc cc.core.aeadId cc.sub.ek cc.core.gid) = .ok vs ∧
      work.map ConsWork.entry = Register.ofNames (vs.map MemberView.uid) ∧
      ∀ x ∈ work, x.Sound c accts := by
  have hall := Cmd.forall₂_of_mapM'_ok h
  clear h
  induction hall with
  | nil => exact ⟨[], rfl, rfl, fun x hx => by cases hx⟩
  | @cons m x ms work hx _ ih =>
    obtain ⟨vs, hvs, hentry, hsound⟩ := ih
    obtain ⟨w₁, w₂, hx⟩ := hx
    obtain ⟨v, hv, hx⟩ := Cmd.lift_bind_eq_ok_iff.1 hx
    obtain ⟨vkb, w₃, hvkb, hx⟩ := Cmd.bind_eq_ok_iff.1 hx
    obtain rfl := Except.ok.inj (congrArg Prod.fst hx)
    refine ⟨v :: vs, ?_, ?_, ?_⟩
    · exact Except.mapM'_eq_ok_iff.2 (.cons hv (Except.mapM'_eq_ok_iff.1 hvs))
    · rw [List.map_cons, hentry]
      rfl
    · intro y hy
      rcases List.mem_cons.1 hy with rfl | hy
      · exact ⟨⟨_, _, hvkb⟩, length_uk_of_decrypt hv⟩
      · exact hsound y hy

/-- A consolidation enters the newcomers behind the members of the core. -/
theorem consAppend_register (hwork : ∀ x ∈ work, x.Sound c accts)
    (h : lines.foldlM (consAppend c cc accts) work w = (.ok work', w')) :
    ∃ ts, newcomers c.desc cc.core cc.sub.ek lines = .ok ts ∧
      work'.map ConsWork.entry =
        work.map ConsWork.entry ++ Register.ofNames (ts.map MemberTuple.uid) ∧
      ∀ x ∈ work', x.Sound c accts := by
  induction lines generalizing work w with
  | nil =>
    obtain rfl := Except.ok.inj (congrArg Prod.fst h)
    exact ⟨[], rfl, (List.append_nil _).symm, hwork⟩
  | cons l lines ih =>
    rw [List.foldlM_cons] at h
    obtain ⟨work₁, w₁, h₁, h⟩ := Cmd.bind_eq_ok_iff.1 h
    unfold consAppend at h₁
    rw [Cmd.ite_apply] at h₁
    split at h₁
    · next hkind =>
      rw [Cmd.ite_apply] at h₁
      split at h₁
      · cases h₁
      obtain ⟨t, ht, h₁⟩ := Cmd.lift_bind_eq_ok_iff.1 h₁
      obtain ⟨vkb, w₂, hvkb, h₁⟩ := Cmd.bind_eq_ok_iff.1 h₁
      obtain rfl := Except.ok.inj (congrArg Prod.fst h₁)
      have hsound : ∀ x ∈ work ++ [(⟨t.uid, vkb, t.key, false, false, false⟩ : ConsWork β)],
          x.Sound c accts := by
        intro x hx
        rcases List.mem_append.1 hx with hx | hx
        · exact hwork x hx
        · rw [List.mem_singleton.1 hx]
          exact ⟨⟨_, _, hvkb⟩, (gyQspgsMemberCtOpen_ok ht).2.key⟩
      obtain ⟨ts, hts, hentry, hsound'⟩ := ih hsound h
      refine ⟨t :: ts, newcomers_cons_of_new (decide_eq_true hkind) ht hts, ?_, hsound'⟩
      rw [hentry, List.map_append, List.append_assoc]
      rfl
    · next hkind =>
      obtain rfl := Except.ok.inj (congrArg Prod.fst h₁)
      obtain ⟨ts, hts, hentry, hsound⟩ := ih hwork h
      refine ⟨ts, ?_, hentry, hsound⟩
      rw [newcomers_cons_of_not fun hnew => hkind (of_decide_eq_true hnew), hts]

omit [Octet β] [DecidableEq β] [Sodium β] [KrMlDsa β] in
/-- A change at one place keeps what holds of every entry, if it keeps it there. -/
theorem forall_mem_modify {α : Type} {P : α → Prop} {f : α → α} {l : List α} {i : Nat}
    (hl : ∀ x ∈ l, P x) (hf : ∀ x ∈ l, P (f x)) : ∀ x ∈ l.modify i f, P x := by
  intro x hx
  obtain ⟨k, hk, rfl⟩ := List.getElem_of_mem hx
  rw [List.length_modify] at hk
  rw [List.getElem_modify]
  split
  · exact hf _ (List.getElem_mem hk)
  · exact hl _ (List.getElem_mem hk)

omit [Octet β] [DecidableEq β] [KrMlDsa β] [Sodium β] in
/-- A check with a positive answer has gone on behind its first step. -/
theorem of_unlessFails_true {α : Type} {code : GyErr} {x : QsC β α} {k : α → QsC β Bool}
    (h : unlessFails code x k w = (.ok true, w')) :
    ∃ a w₁, x w = (.ok a, w₁) ∧ k a w₁ = (.ok true, w') := by
  unfold unlessFails at h
  rw [Cmd.attempt_bind_apply] at h
  rcases hx : x w with ⟨e | a, w₁⟩
  · rw [hx] at h
    dsimp only at h
    rw [Cmd.ite_apply] at h
    split at h
    · cases h
    · cases h
  · rw [hx] at h
    exact ⟨a, w₁, rfl, h⟩

omit [DecidableEq β] [KrMlDsa β] in
/-- A field opens to the same text whatever the size of the buffer. -/
theorem gyQspgsFieldOpen_unique {desc : SuiteDesc β} {aeadId : UInt8} {ek gid ct pt pt' : Bytes β}
    {tag : FieldTag} {cap cap' : Nat} (h : gyQspgsFieldOpen desc aeadId ek tag gid ct cap = .ok pt)
    (h' : gyQspgsFieldOpen desc aeadId ek tag gid ct cap' = .ok pt') : pt = pt' := by
  unfold gyQspgsFieldOpen at h h'
  split at h
  · cases h
  next h0 =>
  split at h
  · cases h
  next hok =>
  rw [if_neg h0, if_neg hok] at h'
  obtain ⟨aad, haad, h⟩ := Except.bind_eq_ok_iff.1 h
  rw [haad, Except.ok_bind] at h'
  split at h
  · cases h
  next hlen =>
  rw [if_neg hlen] at h'
  unfold gyAeadDecrypt at h h'
  cases ha : aeadAlg aeadId with
  | none =>
    rw [ha] at h
    cases h
  | some a =>
    rw [ha] at h h'
    dsimp only at h h'
    split_ifs at h h' with hnonce haes htag hcap hcap'
    cases hd : Sodium.aeadDecrypt a ek (ct.take (aeadNonceLen aeadId)) aad
        (ct.drop (aeadNonceLen aeadId)) with
    | none =>
      rw [hd] at h
      cases h
    | some p =>
      rw [hd] at h h'
      exact (Except.ok.inj h).symm.trans (Except.ok.inj h')

/-- A refresh line that passes the check holds a key of the width of the suite. -/
theorem refresh_key_of_valid {core : QspgsCore β} {sub : SubKey β} {vmaj vmin : UInt32}
    {l : ApxLine β} {set : Settings} {cap : Nat} (hkind : l.lineType = .refresh)
    (h : checkApxLine c core sub vmaj vmin l set accts cap w = (.ok true, w')) :
    ∃ pt, gyQspgsFieldOpen c.desc core.aeadId sub.ek .uk core.gid l.payload qsgroupAttrMax =
      .ok pt ∧ pt.length = gyQspgsMasterKeyLen c.desc := by
  unfold checkApxLine at h
  rw [hkind, if_neg (by decide)] at h
  cases hm : core.members[l.authorIndex.toNat]? with
  | none =>
    rw [hm] at h
    cases h
  | some m =>
  rw [hm] at h
  obtain ⟨av, -, h⟩ := Cmd.lift_bind_eq_ok_iff.1 h
  obtain ⟨vkb, w₁, -, h⟩ := of_unlessFails_true h
  obtain ⟨_, w₂, -, h⟩ := of_unlessFails_true h
  unfold checkApxPayload at h
  rw [hkind] at h
  obtain ⟨pt, w₃, hpt, h⟩ := of_unlessFails_true h
  exact ⟨pt, congrArg Prod.fst hpt, of_decide_eq_true (Except.ok.inj (congrArg Prod.fst h))⟩

/-- Refreshed keys touch no entry of the register, and have the width of the suite. -/
theorem consRefresh_register (hwork : ∀ x ∈ work, x.Sound c accts)
    (hlines : ∀ l ∈ lines, l.lineType = .refresh → ∃ pt,
      gyQspgsFieldOpen c.desc cc.core.aeadId cc.sub.ek .uk cc.core.gid l.payload qsgroupAttrMax =
        .ok pt ∧ pt.length = gyQspgsMasterKeyLen c.desc)
    (h : lines.foldlM (consRefresh c.desc cc.core cc.sub.ek n) work = .ok work') :
    work'.map ConsWork.entry = work.map ConsWork.entry ∧ ∀ x ∈ work', x.Sound c accts := by
  refine Except.foldlM_invariant (fun y : List (ConsWork β) =>
    y.map ConsWork.entry = work.map ConsWork.entry ∧ ∀ x ∈ y, x.Sound c accts) ?_
    ⟨rfl, hwork⟩ h
  intro y l hl y' hy hstep
  unfold consRefresh at hstep
  dsimp only at hstep
  split at hstep
  · next hcond =>
    obtain ⟨uk, huk, hstep⟩ := Except.bind_eq_ok_iff.1 hstep
    obtain rfl := Except.ok.inj hstep
    obtain ⟨pt, hpt, hlen⟩ := hlines l hl hcond.1
    obtain rfl := gyQspgsFieldOpen_unique huk hpt
    have hmod : (y.modify l.authorIndex.toNat fun w => { w with key := uk }).map ConsWork.entry =
        (y.map ConsWork.entry).modify l.authorIndex.toNat id := by
      refine List.map_modify_of_comm ?_ y _
      exact fun _ => rfl
    refine ⟨?_, ?_⟩
    · rw [hmod, List.modify_id, hy.1]
    · exact forall_mem_modify hy.2 fun x hx => ⟨(hy.2 x hx).vkb, hlen⟩
  · obtain rfl := Except.ok.inj hstep
    exact hy

omit [Sodium β] in
/-- A consolidation strikes those who leave. -/
theorem consLeave_register (hwork : ∀ x ∈ work, x.Sound c accts) :
    (lines.foldl (consLeave n) work).map ConsWork.entry =
        Register.strikeAll (work.map ConsWork.entry) (leavers n lines) ∧
      ∀ x ∈ lines.foldl (consLeave n) work, x.Sound c accts := by
  induction lines generalizing work with
  | nil => exact ⟨rfl, hwork⟩
  | cons l lines ih =>
    rw [List.foldl_cons]
    have hstep : ∀ x ∈ consLeave n work l, x.Sound c accts := by
      unfold consLeave
      dsimp only
      split
      · exact forall_mem_modify hwork fun x hx => ⟨(hwork x hx).vkb, (hwork x hx).key⟩
      · exact hwork
    obtain ⟨hentry, hsound⟩ := ih hstep
    refine ⟨?_, hsound⟩
    rw [hentry]
    unfold consLeave
    dsimp only
    split
    · next h =>
      rw [leavers_cons_of_leave (decide_eq_true h), map_strike fun _ => rfl]
      rfl
    · next h => rw [leavers_cons_of_not fun hl => h (of_decide_eq_true hl)]

omit [DecidableEq β] [KrMlDsa β] in
/-- An opened acceptance holds a key of the width of the suite. -/
theorem length_uk_of_inviteOpen [JoinKem β] {desc : SuiteDesc β} {isk : JoinSk β}
    {input : Bytes β} {inv : Invite β} (h : gyQspgsInviteOpen desc isk input = .ok inv) :
    inv.uk.length = gyQspgsMasterKeyLen desc := by
  unfold gyQspgsInviteOpen at h
  obtain ⟨pt, -, h⟩ := Except.bind_eq_ok_iff.1 h
  dsimp only at h
  split_ifs at h with h1 h2 h3 h4
  obtain rfl := Except.ok.inj h
  have hlen : 1 + qspgsUidLen + gyQspgsMasterKeyLen desc + 2 ≤ pt.length := by
    rw [not_or, not_lt] at h2
    exact h2.2
  show ((pt.drop _).take _).length = _
  rw [List.length_take, List.length_drop]
  omega

omit [KrMlDsa β] in
theorem length_uk_of_settleLoop [JoinKem β] {desc : SuiteDesc β} {isk : JoinSk β}
    {gid uid uk : Bytes β} {entries : List (Bytes β)} {k e : Nat}
    (h : settleLoop desc isk gid accts uid k entries = some (uk, e)) :
    uk.length = gyQspgsMasterKeyLen desc := by
  induction entries generalizing k with
  | nil => cases h
  | cons ct rest ih =>
    unfold settleLoop at h
    split at h
    · exact ih h
    · next inv hinv =>
      split at h
      · obtain ⟨rfl, -⟩ := Prod.mk.inj (Option.some.inj h)
        exact length_uk_of_inviteOpen hinv
      · exact ih h

omit [KrMlDsa β] in
theorem length_uk_of_settleOne [JoinKem β] {desc : SuiteDesc β} {gkPrime gid uid uk : Bytes β}
    {entries : List (Bytes β)} {e : Nat}
    (h : settleOne desc gkPrime gid entries accts uid = .ok (some (uk, e))) :
    uk.length = gyQspgsMasterKeyLen desc := by
  obtain ⟨⟨ipk, isk⟩, -, h⟩ := Except.bind_eq_ok_iff.1 h
  exact length_uk_of_settleLoop (Except.ok.inj h)

/-- Settling pending entries touches no entry of the register. -/
theorem consSettleAll_register [JoinKem β] {gid queue : Bytes β}
    {entries : List (Bytes β)} {consumed : List Nat} (hwork : ∀ x ∈ work, x.Sound c accts)
    (h : consSettleAll c.desc gid queue accts work = .ok (work', entries, consumed)) :
    work'.map ConsWork.entry = work.map ConsWork.entry ∧ ∀ x ∈ work', x.Sound c accts := by
  unfold consSettleAll at h
  split at h
  · obtain ⟨rfl, -⟩ := Prod.mk.inj (Except.ok.inj h)
    exact ⟨rfl, hwork⟩
  obtain ⟨ents, -, h₁⟩ := Except.bind_eq_ok_iff.1 h
  obtain ⟨settled, hmap, h₂⟩ := Except.bind_eq_ok_iff.1 h₁
  obtain ⟨rfl, -⟩ := Prod.mk.inj (Except.ok.inj h₂)
  have hall := Except.mapM'_eq_ok_iff.1 hmap
  clear h h₁ h₂ hmap
  induction hall with
  | nil => exact ⟨rfl, fun x hx => by cases hx⟩
  | @cons x p l l' hx _ ih =>
    obtain ⟨hentry, hsound⟩ := ih fun y hy => hwork y (List.mem_cons_of_mem _ hy)
    have hx₀ := hwork x List.mem_cons_self
    have hone : p.1.entry = x.entry ∧ p.1.Sound c accts := by
      unfold consSettle at hx
      split at hx
      · obtain ⟨r, hr, hx⟩ := Except.bind_eq_ok_iff.1 hx
        cases r with
        | none =>
          obtain rfl := Except.ok.inj hx
          exact ⟨rfl, hx₀⟩
        | some q =>
          obtain rfl := Except.ok.inj hx
          exact ⟨rfl, hx₀.vkb, length_uk_of_settleOne hr⟩
      · obtain rfl := Except.ok.inj hx
        exact ⟨rfl, hx₀⟩
    refine ⟨?_, ?_⟩
    · rw [List.map_cons, List.map_cons, List.map_cons, hone.1, hentry]
    · intro y hy
      rw [List.map_cons] at hy
      rcases List.mem_cons.1 hy with rfl | hy
      · exact hone.2
      · exact hsound y hy

omit [DecidableEq β] in
/-- The lines left of a checked appendix are lines of it that pass the check. -/
theorem valid_of_checked [DecidableEq β] {apx : Appendix β} {set : Settings}
    {approved : List UInt32} {cap : Nat} {k : Nat} {checked : List (ApxLine β × Bool)}
    (h : List.Forall₂ (fun p q => ∃ s₁ s₂,
      consCheckLine c cc apx set accts approved cap p s₁ = (.ok q, s₂)) (lines.zipIdx k) checked) :
    ((checked.filter Prod.snd).map Prod.fst).Sublist lines ∧
      ∀ l ∈ (checked.filter Prod.snd).map Prod.fst, ∃ s₁ s₂,
        checkApxLine c cc.core cc.sub apx.vmaj apx.vmin l set accts cap s₁ = (.ok true, s₂) := by
  induction lines generalizing k checked with
  | nil =>
    cases h
    exact ⟨.slnil, fun l hl => by cases hl⟩
  | cons l lines ih =>
    rw [List.zipIdx_cons] at h
    obtain ⟨q, qs, ⟨s₁, s₂, hq⟩, hrest, rfl⟩ := List.forall₂_cons_left_iff.1 h
    obtain ⟨hsub, hvalid⟩ := ih hrest
    obtain ⟨valid, s₃, hv, hq⟩ := Cmd.bind_eq_ok_iff.1 hq
    obtain rfl := Except.ok.inj (congrArg Prod.fst hq)
    cases hb : (valid && !(decide (l.lineType = .join) && set.adm &&
        !(approved.any fun j => j.toNat = k))) with
    | false =>
      rw [List.filter_cons_of_neg Bool.false_ne_true]
      exact ⟨hsub.cons l, hvalid⟩
    | true =>
      rw [List.filter_cons_of_pos rfl, List.map_cons]
      refine ⟨hsub.cons_cons l, ?_⟩
      intro l' hl'
      rcases List.mem_cons.1 hl' with rfl | hl'
      · rw [Bool.and_eq_true] at hb
        exact ⟨s₁, s₃, by rw [hv, hb.1]⟩
      · exact hvalid l' hl'

/-- A consolidation enters the newcomers of the lines it folds behind the members of the core and
strikes those who leave. -/
theorem consFold_register [JoinKem β] {inp : ConsInput β} {f : Folded β}
    (h : consFold c cc inp w = (.ok f, w')) :
    ∃ a lines vs ts, apxOfCore c.desc cc.core inp.apx = .ok a ∧ lines.Sublist a.lines ∧
      cc.core.members.mapM' (gyQspgsMemberDecrypt c.desc cc.core.aeadId cc.sub.ek cc.core.gid) =
        .ok vs ∧
      newcomers c.desc cc.core cc.sub.ek lines = .ok ts ∧
      Register.live (f.work.map ConsWork.entry) =
        Register.staying (vs.map MemberView.uid) (leavers cc.core.members.length lines) ++
          ts.map MemberTuple.uid ∧
      (f.leave = true ↔ leavers cc.core.members.length lines ≠ []) ∧
      ∀ x ∈ f.work, x.Sound c inp.accts := by
  unfold consFold at h
  obtain ⟨apx, hapx, h⟩ := Cmd.lift_bind_eq_ok_iff.1 h
  obtain ⟨hdrpt, -, h⟩ := Cmd.lift_bind_eq_ok_iff.1 h
  obtain ⟨work₀, w₁, h₀, h⟩ := Cmd.bind_eq_ok_iff.1 h
  obtain ⟨checked, w₂, hchecked, h⟩ := Cmd.bind_eq_ok_iff.1 h
  obtain ⟨work₁, w₃, h₁, h⟩ := Cmd.bind_eq_ok_iff.1 h
  obtain ⟨work₂, h₂, h⟩ := Cmd.lift_bind_eq_ok_iff.1 h
  obtain ⟨attr, -, h⟩ := Cmd.lift_bind_eq_ok_iff.1 h
  obtain ⟨⟨work₄, entries, consumed⟩, h₄, h⟩ := Cmd.lift_bind_eq_ok_iff.1 h
  obtain rfl := Except.ok.inj (congrArg Prod.fst h)
  -- the folded lines are those with a positive check
  have hpairs := Cmd.forall₂_of_mapM'_ok hchecked
  obtain ⟨hsub, hvalid⟩ := valid_of_checked hpairs
  obtain ⟨vs, hvs, hentry₀, hsound₀⟩ := consOpen_register h₀
  obtain ⟨ts, hts, hentry₁, hsound₁⟩ := consAppend_register hsound₀ h₁
  obtain ⟨hentry₂, hsound₂⟩ := consRefresh_register hsound₁
    (fun l hl hkind => refresh_key_of_valid hkind (hvalid l hl).choose_spec.choose_spec) h₂
  obtain ⟨hentry₃, hsound₃⟩ := consLeave_register hsound₂
  obtain ⟨hentry₄, hsound₄⟩ := consSettleAll_register hsound₃ h₄
  refine ⟨apx, _, vs, ts, hapx, hsub, hvs, hts, ?_, ?_, hsound₄⟩
  · rw [hentry₄, hentry₃, hentry₂, hentry₁, hentry₀, Register.strikeAll_append,
      Register.live_append, Register.live_ofNames, Register.staying]
    intro i hi
    rw [Register.length_ofNames, List.length_map, ← List.Forall₂.length_eq
      (Except.mapM'_eq_ok_iff.1 hvs)]
    exact lt_of_mem_leavers hi
  · rw [List.any_eq_true, ne_eq, leavers, List.map_eq_nil_iff, List.filter_eq_nil_iff]
    simp only [isLeaver, not_forall, not_not, exists_prop]

end Consolidate

end Geryon
