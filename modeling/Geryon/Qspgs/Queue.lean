import Geryon.Qspgs.Agreement

/-!
# The invite queue under its operations

The queue of sealed acceptances is a list of opaque entries: an append adds one, a revocation
filters out those of the revoked user, and a consolidation those it has settled; what is kept is
copied as it stands. The length of an appended entry is written in 32 bits without a check.

## Main results

- `inviteQueue_operations`: what each operation does to the entries of the queue.
-/

namespace Geryon

variable {β : Type} [Octet β] [DecidableEq β]

/-- `gy_custodian_qsgroup_invite_queue_append` into a buffer of `cap` bytes: it leaves room for the
appended entry. -/
def gyCustodianQsgroupInviteQueueAppend (c : QsCustodian β) (curQueue entry : Bytes β) (cap : Nat) :
    Except GyErr (Bytes β) :=
  if entry.length = 0 then .error .arg
  else do
    qsgroupGuard c
    let ents ←
      if curQueue.length = 0 then pure []
      else gyQspgsInviteQueueDecodeInto c.desc (qspgsMaxEntries - 1) curQueue
    gyQspgsInviteQueueEncode c.desc (ents ++ [entry]) cap

/-- The entries of a stored queue; an absent one has none. -/
def QueueHolds (desc : SuiteDesc β) (queue : Bytes β) (entries : List (Bytes β)) : Prop :=
  if queue.length = 0 then entries = [] else gyQspgsInviteQueueDecode desc queue = .ok entries

variable (desc : SuiteDesc β)

/-! ## Encoding what is kept -/

omit [DecidableEq β] in
/-- What a queue is encoded from is read back if every entry has a 32-bit length. -/
theorem gyQspgsInviteQueueDecode_of_encode {es : List (Bytes β)} {cap : Nat} {out : Bytes β}
    (h : gyQspgsInviteQueueEncode desc es cap = .ok out) (hlt : ∀ e ∈ es, e.length < 2 ^ 32) :
    gyQspgsInviteQueueDecode desc out = .ok es := by
  rw [gyQspgsInviteQueueEncode] at h
  split_ifs at h with hmax hne hcap
  obtain rfl := Except.ok.inj h
  refine gyQspgsInviteQueueDecode_inviteQueueBytes desc (Nat.not_lt.1 hmax) ?_ hlt
  intro e he h0
  exact hne (List.any_eq_true.2 ⟨e, he, decide_eq_true h0⟩)

omit [DecidableEq β] in
/-- Part of a decoded queue is read back from its encoding. -/
theorem gyQspgsInviteQueueDecode_of_sublist {queue out : Bytes β} {es l : List (Bytes β)}
    {cap : Nat} (h : gyQspgsInviteQueueDecode desc queue = .ok es) (hl : l.Sublist es)
    (hout : gyQspgsInviteQueueEncode desc l cap = .ok out) :
    gyQspgsInviteQueueDecode desc out = .ok l :=
  gyQspgsInviteQueueDecode_of_encode desc hout fun e he =>
    gyQspgsInviteQueueDecode_lt desc h e (hl.subset he)

/-! ## Append -/

variable {c : QsCustodian β}

omit [DecidableEq β] in
/-- An appended entry follows the stored ones exactly if its length has 32 bits. -/
theorem gyCustodianQsgroupInviteQueueAppend_iff {curQueue entry out : Bytes β} {cap : Nat}
    {entries : List (Bytes β)} (hcur : QueueHolds c.desc curQueue entries)
    (h : gyCustodianQsgroupInviteQueueAppend c curQueue entry cap = .ok out) :
    gyQspgsInviteQueueDecode c.desc out = .ok (entries ++ [entry]) ↔ entry.length < 2 ^ 32 := by
  unfold gyCustodianQsgroupInviteQueueAppend at h
  split_ifs at h with hempty h0
  · obtain ⟨⟨⟩, -, h⟩ := Except.bind_eq_ok_iff.1 h
    rw [QueueHolds, if_pos h0] at hcur
    obtain rfl := hcur
    constructor
    · intro hdec
      exact gyQspgsInviteQueueDecode_lt c.desc hdec entry (by simp)
    · intro hlt
      refine gyQspgsInviteQueueDecode_of_encode c.desc h fun e he => ?_
      obtain rfl : e = entry := by simpa using he
      exact hlt
  · obtain ⟨⟨⟩, -, h⟩ := Except.bind_eq_ok_iff.1 h
    obtain ⟨ents, hdec, h⟩ := Except.bind_eq_ok_iff.1 h
    rw [QueueHolds, if_neg h0] at hcur
    have hdec := ((gyQspgsInviteQueueDecodeInto_ok_iff c.desc).1 hdec).1
    obtain rfl := Except.ok.inj (hdec.symm.trans hcur)
    constructor
    · intro hdec'
      exact gyQspgsInviteQueueDecode_lt c.desc hdec' entry (by simp)
    · intro hlt
      refine gyQspgsInviteQueueDecode_of_encode c.desc h fun e he => ?_
      rcases List.mem_append.1 he with he | he
      · exact gyQspgsInviteQueueDecode_lt c.desc hdec e he
      · obtain rfl := List.mem_singleton.1 he
        exact hlt

/-! ## Consolidation -/

/-- The entries at positions that are not consumed. -/
def keptEntries (entries : List (Bytes β)) (consumed : List Nat) : List (Bytes β) :=
  (entries.zipIdx.filter fun p => p.2 ∉ consumed).map Prod.fst

omit [Octet β] [DecidableEq β] in
theorem keptEntries_sublist (entries : List (Bytes β)) (consumed : List Nat) :
    (keptEntries entries consumed).Sublist entries := by
  have hsub := (List.filter_sublist (p := fun p => decide (p.2 ∉ consumed))
    (l := entries.zipIdx)).map Prod.fst
  rwa [List.zipIdx_map_fst] at hsub

variable [KrMlDsa β] [Sodium β] [JoinKem β]

/-- The working set of a consolidation behind the passes over the appendix. -/
def consWorkingSet (c : QsCustodian β) (cc : CurrentCore β) (inp : ConsInput β) :
    QsC β (List (ConsWork β)) := do
  let n := cc.core.members.length
  let apx ← Cmd.lift (apxOfCore c.desc cc.core inp.apx)
  let hdrpt ← Cmd.lift (openHeaderField c.desc cc.core cc.sub.ek)
  let set := Settings.ofByte (byteAt hdrpt 0)
  let work ← cc.core.members.mapM' (consOpen c cc inp.accts)
  let checked ← apx.lines.zipIdx.mapM'
    (consCheckLine c cc apx set inp.accts inp.approved (inp.apx.length + 128))
  let valid := (checked.filter Prod.snd).map Prod.fst
  let work ← valid.foldlM (consAppend c cc inp.accts) work
  let work ← Cmd.lift (valid.foldlM (consRefresh c.desc cc.core cc.sub.ek n) work)
  return valid.foldl (consLeave n) work

/-- The acceptance at a position of the queue settles a pending entry of the working set. -/
def Settles (desc : SuiteDesc β) (gid : Bytes β) (accts : List (AcctRef β))
    (work : List (ConsWork β)) (entries : List (Bytes β)) (k : Nat) : Prop :=
  ∃ w ∈ work, w.pending = true ∧ w.removed = false ∧
    ∃ uk, settleOne desc w.key gid entries accts w.uid = .ok (some (uk, k))

/-- A fold settles the working set behind the appendix against the queue. -/
theorem consFold_settles {cc : CurrentCore β} {inp : ConsInput β} {w w' : QsWorld β} {f : Folded β}
    (h : consFold c cc inp w = (.ok f, w')) :
    ∃ work w₁, consWorkingSet c cc inp w = (.ok work, w₁) ∧
      consSettleAll c.desc cc.core.gid inp.inviteQueue inp.accts work =
        .ok (f.work, f.entries, f.consumed) := by
  unfold consFold at h
  obtain ⟨apx, hapx, h⟩ := Cmd.lift_bind_eq_ok_iff.1 h
  obtain ⟨hdrpt, hhdr, h⟩ := Cmd.lift_bind_eq_ok_iff.1 h
  obtain ⟨work₁, w₁, hopen, h⟩ := Cmd.bind_eq_ok_iff.1 h
  obtain ⟨checked, w₂, hcheck, h⟩ := Cmd.bind_eq_ok_iff.1 h
  obtain ⟨work₃, w₃, happend, h⟩ := Cmd.bind_eq_ok_iff.1 h
  obtain ⟨work₄, hrefresh, h⟩ := Cmd.lift_bind_eq_ok_iff.1 h
  obtain ⟨attr, -, h⟩ := Cmd.lift_bind_eq_ok_iff.1 h
  obtain ⟨⟨work₅, entries, consumed⟩, hsettle, h⟩ := Cmd.lift_bind_eq_ok_iff.1 h
  obtain ⟨hf, rfl⟩ := Prod.mk.inj h
  obtain rfl := Except.ok.inj hf
  refine ⟨_, w₃, ?_, hsettle⟩
  unfold consWorkingSet
  rw [hapx, Cmd.lift_ok_bind_apply, hhdr, Cmd.lift_ok_bind_apply, Cmd.bind_apply_of_ok hopen,
    Cmd.bind_apply_of_ok hcheck, Cmd.bind_apply_of_ok happend, hrefresh, Cmd.lift_ok_bind_apply]
  rfl

omit [KrMlDsa β] in
theorem consSettle_some {gid : Bytes β} {entries : List (Bytes β)} {accts : List (AcctRef β)}
    {w : ConsWork β} {p : ConsWork β × Option Nat} {k : Nat}
    (h : consSettle desc gid entries accts w = .ok p) (hk : p.2 = some k) :
    w.pending = true ∧ w.removed = false ∧
      ∃ uk, settleOne desc w.key gid entries accts w.uid = .ok (some (uk, k)) := by
  unfold consSettle at h
  split_ifs at h with hw
  · obtain ⟨r, hr, h⟩ := Except.bind_eq_ok_iff.1 h
    refine ⟨hw.1, by simpa using hw.2, ?_⟩
    rcases r with _ | ⟨uk, k'⟩
    · rw [← Except.ok.inj h] at hk
      cases hk
    · rw [← Except.ok.inj h] at hk
      obtain rfl := Option.some.inj hk
      exact ⟨uk, hr⟩
  · rw [← Except.ok.inj h] at hk
    cases hk

omit [KrMlDsa β] in
/-- The consumed positions of a queue are those that settle an entry. -/
theorem consSettleAll_consumed {gid queue : Bytes β} {accts : List (AcctRef β)}
    {work settled : List (ConsWork β)} {entries : List (Bytes β)} {consumed : List Nat}
    (hqueue : queue.length ≠ 0)
    (h : consSettleAll desc gid queue accts work = .ok (settled, entries, consumed)) :
    gyQspgsInviteQueueDecode desc queue = .ok entries ∧
      ∀ k, k ∈ consumed ↔ Settles desc gid accts work entries k := by
  unfold consSettleAll at h
  rw [if_neg hqueue] at h
  obtain ⟨entries', hdec, h⟩ := Except.bind_eq_ok_iff.1 h
  obtain ⟨pairs, hpairs, h⟩ := Except.bind_eq_ok_iff.1 h
  have h := Except.ok.inj h
  obtain rfl : entries' = entries := congrArg (fun p => p.2.1) h
  obtain rfl : pairs.filterMap Prod.snd = consumed := congrArg (fun p => p.2.2) h
  refine ⟨hdec, fun k => ?_⟩
  rw [List.mem_filterMap]
  have hall := Except.mapM'_eq_ok_iff.1 hpairs
  constructor
  · rintro ⟨p, hp, hk⟩
    obtain ⟨w, hw, hsettle⟩ := hall.exists_left hp
    exact ⟨w, hw, consSettle_some desc hsettle hk⟩
  · rintro ⟨w, hw, hpending, hremoved, uk, hone⟩
    obtain ⟨p, hp, hsettle⟩ := hall.flip.exists_left hw
    refine ⟨p, hp, ?_⟩
    have hsettle : consSettle desc gid entries' accts w = .ok p := hsettle
    rw [consSettle, if_pos ⟨hpending, by simp [hremoved]⟩, hone, Except.ok_bind] at hsettle
    rw [← Except.ok.inj hsettle]

/-- A consolidation drops the acceptances that settle a pending entry, and no other. -/
theorem gyCustodianQsgroupConsolidate_queue {cur : CoreBundle β} {inp : ConsInput β}
    {queueCap : Option Nat} {caps : CoreCaps} {w w' : QsWorld β} {next : NextCore β} {q : Bytes β}
    (h : gyCustodianQsgroupConsolidate c cur inp queueCap caps w = (.ok (next, q), w'))
    (hqueue : inp.inviteQueue.length ≠ 0) :
    ∃ e w₁ work w₂ entries consumed, editBegin c cur w = (.ok e, w₁) ∧
      consWorkingSet c e.cur inp w₁ = (.ok work, w₂) ∧
      gyQspgsInviteQueueDecode c.desc inp.inviteQueue = .ok entries ∧
      (∀ k, k ∈ consumed ↔ Settles c.desc e.cur.core.gid inp.accts work entries k) ∧
      gyQspgsInviteQueueDecode c.desc q = .ok (keptEntries entries consumed) := by
  obtain ⟨e, w₁, he, h⟩ := Cmd.bind_eq_ok_iff.1 h
  obtain ⟨f, w₂, hf, h⟩ := Cmd.bind_eq_ok_iff.1 h
  obtain ⟨work, w₃, hset, hsettle⟩ := consFold_settles hf
  obtain ⟨hdec, hconsumed⟩ := consSettleAll_consumed c.desc hqueue hsettle
  have hq : consQueue c inp f queueCap = .ok q := by
    split at h
    · obtain ⟨newGk, w₄, -, h⟩ := Cmd.bind_eq_ok_iff.1 h
      obtain ⟨newSub, -, h⟩ := Cmd.lift_bind_eq_ok_iff.1 h
      obtain ⟨next', w₅, -, h⟩ := Cmd.bind_eq_ok_iff.1 h
      obtain ⟨⟨⟩, w₆, -, h⟩ := Cmd.bind_eq_ok_iff.1 h
      obtain ⟨q', hq, h⟩ := Cmd.lift_bind_eq_ok_iff.1 h
      obtain rfl : q' = q := congrArg Prod.snd (Except.ok.inj (congrArg Prod.fst h))
      exact hq
    · obtain ⟨next', w₅, -, h⟩ := Cmd.bind_eq_ok_iff.1 h
      obtain ⟨q', hq, h⟩ := Cmd.lift_bind_eq_ok_iff.1 h
      obtain rfl : q' = q := congrArg Prod.snd (Except.ok.inj (congrArg Prod.fst h))
      exact hq
  unfold consQueue at hq
  rw [if_neg hqueue] at hq
  obtain ⟨q', henc, hq⟩ := Except.bind_eq_ok_iff.1 hq
  split_ifs at hq
  obtain rfl := Except.ok.inj hq
  exact ⟨e, w₁, work, w₃, f.entries, f.consumed, he, hset, hdec, hconsumed,
    gyQspgsInviteQueueDecode_of_sublist c.desc hdec (keptEntries_sublist _ _) henc⟩

/-! ## Revocation -/

/-- A revocation drops the acceptances of the revoked user, and no other. -/
theorem gyCustodianQsgroupRevokeInvitation_queue {cur : CoreBundle β} {curQueue targetUid : Bytes β}
    {queueCap : Nat} {caps : CoreCaps} {w w' : QsWorld β} {next : NextCore β} {q : Bytes β}
    (h : gyCustodianQsgroupRevokeInvitation c cur curQueue targetUid queueCap caps w =
      (.ok (next, q), w')) :
    ∃ e w₁ gkPrime join entries, editBegin c cur w = (.ok e, w₁) ∧
      findPending c.desc e.cur.core e.cur.sub.ek targetUid e.cur.core.members =
        .ok (some gkPrime) ∧
      gyQspgsJoinDerive c.desc gkPrime = .ok join ∧
      gyQspgsInviteQueueDecode c.desc curQueue = .ok entries ∧
      gyQspgsInviteQueueDecode c.desc q =
        .ok (entries.filter fun ct => !acceptanceOf c.desc join.2 targetUid ct) := by
  unfold gyCustodianQsgroupRevokeInvitation at h
  rw [Cmd.ite_apply] at h
  split at h
  · cases h
  obtain ⟨e, w₁, he, h⟩ := Cmd.bind_eq_ok_iff.1 h
  obtain ⟨pending, hpending, h⟩ := Cmd.lift_bind_eq_ok_iff.1 h
  cases pending with
  | none => cases h
  | some gkPrime =>
    obtain ⟨next', w₂, -, h⟩ := Cmd.bind_eq_ok_iff.1 h
    obtain ⟨join, hjoin, h⟩ := Cmd.lift_bind_eq_ok_iff.1 h
    obtain ⟨entries, hdec, h⟩ := Cmd.lift_bind_eq_ok_iff.1 h
    obtain ⟨q', henc, h⟩ := Cmd.lift_bind_eq_ok_iff.1 h
    obtain rfl : q' = q := congrArg Prod.snd (Except.ok.inj (congrArg Prod.fst h))
    exact ⟨e, w₁, gkPrime, join, entries, he, hpending, hjoin, hdec,
      gyQspgsInviteQueueDecode_of_sublist c.desc hdec List.filter_sublist henc⟩

/-- A revocation, step by step. -/
theorem gyCustodianQsgroupRevokeInvitation_of_rebuilt {cur : CoreBundle β}
    {curQueue targetUid : Bytes β} {queueCap : Nat} {caps : CoreCaps} {w w₁ w₂ : QsWorld β}
    {e : EditCtx β} {gkPrime q : Bytes β} {next : NextCore β} {join : JoinPk β × JoinSk β}
    {entries : List (Bytes β)} (huid : targetUid.length = qspgsUidLen)
    (hbegin : editBegin c cur w = (.ok e, w₁))
    (hpending : findPending c.desc e.cur.core e.cur.sub.ek targetUid e.cur.core.members =
      .ok (some gkPrime))
    (hrebuild : rebuildAndEmit c e (some targetUid) caps w₁ = (.ok next, w₂))
    (hjoin : gyQspgsJoinDerive c.desc gkPrime = .ok join)
    (hdec : gyQspgsInviteQueueDecode c.desc curQueue = .ok entries)
    (henc : gyQspgsInviteQueueEncode c.desc
      (entries.filter fun ct => !acceptanceOf c.desc join.2 targetUid ct) queueCap = .ok q) :
    gyCustodianQsgroupRevokeInvitation c cur curQueue targetUid queueCap caps w =
      (.ok (next, q), w₂) := by
  rw [gyCustodianQsgroupRevokeInvitation, if_neg (not_not.2 huid), Cmd.bind_apply_of_ok hbegin,
    hpending, Cmd.lift_ok_bind_apply]
  dsimp only
  rw [Cmd.bind_apply_of_ok hrebuild, hjoin, Cmd.lift_ok_bind_apply, hdec, Cmd.lift_ok_bind_apply,
    henc, Cmd.lift_ok_bind_apply]
  rfl

/-! ## The queue as a list -/

/-- What the operations leave of the entries of a queue. An append keeps the entries and adds one
exactly if the length of the new one has 32 bits; a revocation and a consolidation keep the
entries they do not open or settle, in order. -/
theorem inviteQueue_operations (c : QsCustodian β) :
    (∀ curQueue entry cap out entries, QueueHolds c.desc curQueue entries →
      gyCustodianQsgroupInviteQueueAppend c curQueue entry cap = .ok out →
      (gyQspgsInviteQueueDecode c.desc out = .ok (entries ++ [entry]) ↔
        entry.length < 2 ^ 32)) ∧
    (∀ cur curQueue targetUid queueCap caps w w' next q,
      gyCustodianQsgroupRevokeInvitation c cur curQueue targetUid queueCap caps w =
        (.ok (next, q), w') →
      ∃ e w₁ gkPrime join entries, editBegin c cur w = (.ok e, w₁) ∧
        findPending c.desc e.cur.core e.cur.sub.ek targetUid e.cur.core.members =
          .ok (some gkPrime) ∧
        gyQspgsJoinDerive c.desc gkPrime = .ok join ∧
        gyQspgsInviteQueueDecode c.desc curQueue = .ok entries ∧
        gyQspgsInviteQueueDecode c.desc q =
          .ok (entries.filter fun ct => !acceptanceOf c.desc join.2 targetUid ct)) ∧
    (∀ cur inp queueCap caps w w' next q, inp.inviteQueue.length ≠ 0 →
      gyCustodianQsgroupConsolidate c cur inp queueCap caps w = (.ok (next, q), w') →
      ∃ e w₁ work w₂ entries consumed, editBegin c cur w = (.ok e, w₁) ∧
        consWorkingSet c e.cur inp w₁ = (.ok work, w₂) ∧
        gyQspgsInviteQueueDecode c.desc inp.inviteQueue = .ok entries ∧
        (∀ k, k ∈ consumed ↔ Settles c.desc e.cur.core.gid inp.accts work entries k) ∧
        gyQspgsInviteQueueDecode c.desc q = .ok (keptEntries entries consumed)) :=
  ⟨fun _ _ _ _ _ => gyCustodianQsgroupInviteQueueAppend_iff,
    fun _ _ _ _ _ _ _ _ _ => gyCustodianQsgroupRevokeInvitation_queue,
    fun _ _ _ _ _ _ _ _ hqueue h => gyCustodianQsgroupConsolidate_queue h hqueue⟩

omit [KrMlDsa β] [Sodium β] [JoinKem β] [DecidableEq β] in
/-- An entry is appended to the queue of an unlocked hybrid custodian if it fits. -/
theorem gyCustodianQsgroupInviteQueueAppend_ok {curQueue entry : Bytes β}
    {entries : List (Bytes β)} {cap : Nat} (hc : qsgroupGuard c = .ok ())
    (hentry : entry.length ≠ 0) (hcur : QueueHolds c.desc curQueue entries)
    (hmax : entries.length < qspgsMaxEntries)
    (hcap : (inviteQueueBytes c.desc (entries ++ [entry])).length ≤ cap) :
    gyCustodianQsgroupInviteQueueAppend c curQueue entry cap =
      .ok (inviteQueueBytes c.desc (entries ++ [entry])) := by
  have hne : ∀ e ∈ entries, e.length ≠ 0 := by
    unfold QueueHolds at hcur
    split_ifs at hcur
    · subst hcur
      exact fun e he => (nomatch he)
    · exact (gyQspgsInviteQueueDecode_ok c.desc hcur).2.1
  have henc : gyQspgsInviteQueueEncode c.desc (entries ++ [entry]) cap =
      .ok (inviteQueueBytes c.desc (entries ++ [entry])) := by
    have hlen : ¬qspgsMaxEntries < (entries ++ [entry]).length := by
      rw [List.length_append, List.length_singleton]
      omega
    have hany : ¬((entries ++ [entry]).any fun e => decide (e.length = 0)) = true := by
      simp only [List.any_append, List.any_cons, List.any_nil, Bool.or_false, Bool.or_eq_true,
        List.any_eq_true, decide_eq_true_eq, not_or, not_exists, not_and]
      exact ⟨hne, hentry⟩
    rw [gyQspgsInviteQueueEncode, if_neg hlen, if_neg hany, if_neg (Nat.not_lt.2 hcap)]
  rw [gyCustodianQsgroupInviteQueueAppend, if_neg hentry, hc, Except.ok_bind]
  unfold QueueHolds at hcur
  split_ifs at hcur ⊢
  · subst hcur
    exact henc
  · have hload := (gyQspgsInviteQueueDecodeInto_ok_iff c.desc).2
      ⟨hcur, show entries.length ≤ qspgsMaxEntries - 1 by omega⟩
    rw [hload]
    exact henc

namespace Sample

open Geryon.Sym

/-- The stray entry alone in a queue. -/
theorem inviteQueue_stray : QueueHolds qsSuite (inviteQueueBytes qsSuite [stray]) [stray] := by
  rw [QueueHolds, if_neg (by decide)]
  decide

/-- A group of an admin and an invited user. -/
def guestCore : QspgsCore Sym :=
  core (gk 0) 1 0 [Sym.byte 0] [] [⟨0, true, false⟩, ⟨1, false, true⟩]

theorem guestCore_wf : guestCore.Wf qsSuite := core_wf (by decide) (by decide) (by decide)

/-- The admin as an edit of the group sees it. -/
def guestEdit : EditCtx Sym :=
  ⟨⟨guestCore, symSign guestCore 0 (vkr (gk 0) 0), gk 0, sub (gk 0)⟩, 0, skb 0, vkb 0⟩

theorem editBegin_guest : editBegin (custodian 0) (bundle guestCore (gk 0) 0 0)
    (world (recs 0 (gk 0))) = (.ok guestEdit, world (recs 0 (gk 0))) :=
  (knows_world 0 (gk 0)).editBegin (i := 0) (l := ⟨0, true, false⟩) ⟨0, true, false⟩ (length_gk 0)
    guestCore_wf rfl rfl

/-- The invite key of the user is derived from the key in its entry. -/
theorem findPending_guest : findPending qsSuite guestCore (sub (gk 0)).ek (uid 1)
    guestCore.members = .ok (some (zeros 32)) := by
  have hopens (l : Line) : gyQspgsMemberCtOpen qsSuite 1 (sub (gk 0)).ek gid
      (l.member (gk 0)).mct = .ok l.tuple := (l.holds (gk 0)).opens
  have hfirst : findPending qsSuite guestCore (sub (gk 0)).ek (uid 1) guestCore.members =
      findPending qsSuite guestCore (sub (gk 0)).ek (uid 1)
        [(⟨1, false, true⟩ : Line).member (gk 0)] := by
    show (gyQspgsMemberCtOpen qsSuite 1 (sub (gk 0)).ek gid
      ((⟨0, true, false⟩ : Line).member (gk 0)).mct >>= _) = _
    rw [hopens, Except.ok_bind]
    exact if_neg fun h => Bool.false_ne_true h.1
  rw [hfirst]
  show (gyQspgsMemberCtOpen qsSuite 1 (sub (gk 0)).ek gid
    ((⟨1, false, true⟩ : Line).member (gk 0)).mct >>= _) = _
  rw [hopens, Except.ok_bind]
  exact if_pos ⟨rfl, rfl⟩

/-- The acceptance of a user is dropped and the stray entry stays. -/
theorem filter_acceptanceOf {n : Nat} {ct : Bytes Sym} (h : Accepts n (zeros 32) ct) :
    [ct, stray].filter (fun e => !acceptanceOf qsSuite (joinSk (zeros 32)) (uid n) e) =
      [stray] := by
  have hct : acceptanceOf qsSuite (joinSk (zeros 32)) (uid n) ct = true := by
    rw [acceptanceOf, h.opens]
    exact decide_eq_true rfl
  have hstray : acceptanceOf qsSuite (joinSk (zeros 32)) (uid n) stray = false := rfl
  rw [List.filter_cons, if_neg (by simp [hct]), List.filter_cons, if_pos (by simp [hstray])]
  rfl

theorem rebuildAndEmit_guest : ∃ next w', rebuildAndEmit (custodian 0) guestEdit (some (uid 1))
    roomy (world (recs 0 (gk 0))) = (.ok next, w') := by
  obtain ⟨next, w', hrun, -⟩ := rebuildAndEmit_alone (l := ⟨1, false, true⟩) (by decide)
    (symSign guestCore 0 (vkr (gk 0) 0))
  exact ⟨next, w', hrun⟩

theorem inviteQueueEncode_guest {ct : Bytes Sym} (h : Accepts 1 (zeros 32) ct) :
    gyQspgsInviteQueueEncode qsSuite
      ([ct, stray].filter fun e => !acceptanceOf qsSuite (joinSk (zeros 32)) (uid 1) e) 64 =
        .ok (inviteQueueBytes qsSuite [stray]) := by
  rw [filter_acceptanceOf h]
  decide

/-- The admin revokes the invitation. -/
theorem revokeInvitation_guest {ct : Bytes Sym} (h : Accepts 1 (zeros 32) ct) : ∃ next q w',
    gyCustodianQsgroupRevokeInvitation (custodian 0) (bundle guestCore (gk 0) 0 0)
      (inviteQueueBytes qsSuite [ct, stray]) (uid 1) 64 roomy (world (recs 0 (gk 0))) =
        (.ok (next, q), w') := by
  obtain ⟨next, w', hrebuild⟩ := rebuildAndEmit_guest
  have hpending : findPending (custodian 0).desc guestEdit.cur.core guestEdit.cur.sub.ek (uid 1)
      guestEdit.cur.core.members = .ok (some (zeros 32)) := findPending_guest
  have hjoin : gyQspgsJoinDerive (custodian 0).desc (zeros 32) =
      .ok (joinPk (zeros 32), joinSk (zeros 32)) := gyQspgsJoinDerive_eq (zeros 32)
  have hdec : gyQspgsInviteQueueDecode (custodian 0).desc (inviteQueueBytes qsSuite [ct, stray]) =
      .ok [ct, stray] := (inviteQueue_pair h.ne h.lt).2
  have henc : gyQspgsInviteQueueEncode (custodian 0).desc
      ([ct, stray].filter fun e => !acceptanceOf (custodian 0).desc (joinSk (zeros 32)) (uid 1) e)
      64 = .ok (inviteQueueBytes qsSuite [stray]) := inviteQueueEncode_guest h
  exact ⟨next, _, w', gyCustodianQsgroupRevokeInvitation_of_rebuilt (length_uid 1) editBegin_guest
    hpending hrebuild hjoin hdec henc⟩

/-- An acceptance is appended to a queue with another entry; it is dropped from a queue with that
entry when its user is revoked, and when it has settled the entry of its user. -/
theorem inviteQueue_operations_trio :
    (∃ ct out, Accepts 2 (zeros 32) ct ∧
      gyCustodianQsgroupInviteQueueAppend (custodian 0) (inviteQueueBytes qsSuite [stray]) ct
        (inviteQueueBytes qsSuite [stray, ct]).length = .ok out ∧
      gyQspgsInviteQueueDecode qsSuite out = .ok [stray, ct]) ∧
    (∃ ct next q w', Accepts 1 (zeros 32) ct ∧
      gyCustodianQsgroupRevokeInvitation (custodian 0) (bundle guestCore (gk 0) 0 0)
        (inviteQueueBytes qsSuite [ct, stray]) (uid 1) 64 roomy (world (recs 0 (gk 0))) =
          (.ok (next, q), w') ∧
      gyQspgsInviteQueueDecode qsSuite q = .ok [stray]) ∧
    ∃ ct next q w', Accepts 2 (zeros 32) ct ∧
      gyCustodianQsgroupConsolidate (custodian 0) (trioAnswer ct).bundle (trioInput ct) none roomy
        (world (recs 0 (gk 0))) = (.ok (next, q), w') ∧
      gyQspgsInviteQueueDecode qsSuite q = .ok [stray] := by
  obtain ⟨happend, hrevoke, hconsolidate⟩ := inviteQueue_operations (custodian 0)
  refine ⟨?_, ?_, ?_⟩
  · obtain ⟨ct, h⟩ := exists_accepts 2 (zeros 32)
    have hout := gyCustodianQsgroupInviteQueueAppend_ok (c := custodian 0) rfl h.ne
      inviteQueue_stray (by decide) le_rfl
    exact ⟨ct, _, h, hout, (happend _ _ _ _ _ inviteQueue_stray hout).2 h.lt⟩
  · obtain ⟨ct, h⟩ := exists_accepts 1 (zeros 32)
    obtain ⟨next, q, w', hrun⟩ := revokeInvitation_guest h
    obtain ⟨e, w₁, gkPrime, join, entries, he, hpending, hjoin, hdec, hq⟩ :=
      hrevoke _ _ _ _ _ _ _ _ _ hrun
    obtain rfl := Except.ok.inj (congrArg Prod.fst (he.symm.trans editBegin_guest))
    obtain rfl := Option.some.inj (Except.ok.inj (hpending.symm.trans findPending_guest))
    obtain rfl := Except.ok.inj (hjoin.symm.trans (gyQspgsJoinDerive_eq (zeros 32)))
    obtain rfl := Except.ok.inj (hdec.symm.trans (inviteQueue_pair h.ne h.lt).2)
    exact ⟨ct, next, q, w', h, hrun, hq.trans (congrArg Except.ok (filter_acceptanceOf h))⟩
  · obtain ⟨ct, h⟩ := exists_accepts 2 (zeros 32)
    obtain ⟨next, q, w', hrun⟩ := consolidate_trio h
    obtain ⟨e, w₁, work, w₂, entries, consumed, he, hset, hdec, hconsumed, hq⟩ :=
      hconsolidate _ _ _ _ _ _ _ _ (inviteQueue_pair h.ne h.lt).1 hrun
    obtain ⟨hedit, rfl⟩ := Prod.mk.inj (he.symm.trans (editBegin_trio ct))
    obtain rfl := Except.ok.inj hedit
    have hqueue : (trioInput ct).inviteQueue = inviteQueueBytes qsSuite [ct, stray] := rfl
    rw [hqueue] at hdec
    obtain rfl := Except.ok.inj (hdec.symm.trans (inviteQueue_pair h.ne h.lt).2)
    -- the working set is the one that the fold settles, at the first position
    obtain ⟨work', w₃, hset', hsettled⟩ := consFold_settles (consFold_trio h)
    obtain rfl := Except.ok.inj (congrArg Prod.fst (hset.symm.trans hset'))
    have hfirst := (consSettleAll_consumed qsSuite (inviteQueue_pair h.ne h.lt).1 hsettled).2
    have hkept : keptEntries [ct, stray] consumed = keptEntries [ct, stray] [0] := by
      refine congrArg (List.map Prod.fst) (List.filter_congr fun p _ => ?_)
      have hiff : p.2 ∈ consumed ↔ p.2 ∈ [0] := (hconsumed p.2).trans (hfirst p.2).symm
      exact decide_eq_decide.2 (not_congr hiff)
    exact ⟨ct, next, q, w', h, hrun, hq.trans (congrArg Except.ok hkept)⟩

end Sample

/-- An entry whose length does not have 32 bits is appended, and is not read back. -/
theorem gyCustodianQsgroupInviteQueueAppend_long {n : Nat} (hn : n = 2 ^ 32) :
    gyCustodianQsgroupInviteQueueAppend (Sample.custodian 0) [] (zeros n) (n + 9) =
      .ok (inviteQueueBytes qsSuite [zeros n]) ∧
    gyQspgsInviteQueueDecode qsSuite (inviteQueueBytes qsSuite [zeros n]) ≠
      .ok ([] ++ [(zeros n : Bytes Sym)]) := by
  constructor
  · have hcur : QueueHolds (Sample.custodian 0).desc [] [] := rfl
    have hne : (zeros n : Bytes Sym).length ≠ 0 := by rw [length_zeros]; omega
    have hcap : (inviteQueueBytes (Sample.custodian 0).desc
        ([] ++ [(zeros n : Bytes Sym)])).length ≤ n + 9 := by
      simp [inviteQueueBytes]
      omega
    have hguard : qsgroupGuard (Sample.custodian 0) = .ok () := rfl
    have happend := gyCustodianQsgroupInviteQueueAppend_ok hguard hne hcur (by decide) hcap
    exact happend
  · intro hdec
    have hlt := gyQspgsInviteQueueDecode_lt qsSuite hdec (zeros n) (by simp)
    rw [length_zeros] at hlt
    omega

theorem long_entry_lost : ∃ entry out : Bytes Sym, entry.length = 2 ^ 32 ∧
    gyCustodianQsgroupInviteQueueAppend (Sample.custodian 0) [] entry (2 ^ 32 + 9) = .ok out ∧
    gyQspgsInviteQueueDecode qsSuite out ≠ .ok ([] ++ [entry]) := by
  obtain ⟨n, hn⟩ : ∃ n, n = 2 ^ 32 := ⟨_, rfl⟩
  rw [← hn]
  exact ⟨zeros n, _, length_zeros n, gyCustodianQsgroupInviteQueueAppend_long hn⟩

end Geryon
