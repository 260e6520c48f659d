import Geryon.Group.Complete
import Geryon.Group.Query

/-!
# The life of a group's records

Creating, installing, exporting and forgetting groups on any number of custodians of one suite. A
group is known to a custodian from the call that created or installed it to the one that forgot it,
and while it is known its record rederives its parameters. Forgetting removes every record of the
group only where no profile-key credential is cached for it.
-/

namespace Geryon

section Lifecycle

variable {S P β π : Type} [Field S] [AddCommGroup P] [Module S P] [Octet β] [DecidableEq β]

/-! ## The envelope -/

section Envelope

omit [Field S] [AddCommGroup P] [Module S P] [DecidableEq β]

/-- A decoded envelope is the one that was encoded. -/
theorem gyGroupKeyDistribution_roundTrip {tier : GroupTier S P β π} {v : UInt16} {gmk env : Bytes β}
    {cap mkCap : Nat} (henc : gyGroupKeyDistributionEncode tier v gmk cap = .ok env)
    (hcap : tier.masterKeyLen ≤ mkCap) :
    gyGroupKeyDistributionDecode tier env mkCap = .ok (v, gmk) := by
  unfold gyGroupKeyDistributionEncode at henc
  split at henc
  · cases henc
  · next hlen =>
    rw [not_not] at hlen
    split at henc
    · cases henc
    · obtain rfl := Except.ok.inj henc
      unfold gyGroupKeyDistributionDecode
      rw [if_neg (not_lt.2 hcap), if_neg, if_neg]
      · congr 2
        · exact be16Get_be16Put v gmk
      · simp [byteAt]
      · rw [not_not]
        simp only [List.length_append, length_be16Put, hlen]
        rfl

theorem length_of_decode {tier : GroupTier S P β π} {v : UInt16} {gmk env : Bytes β} {mkCap : Nat}
    (h : gyGroupKeyDistributionDecode tier env mkCap = .ok (v, gmk)) :
    gmk.length = tier.masterKeyLen := by
  unfold gyGroupKeyDistributionDecode at h
  split at h
  · cases h
  · split at h
    · cases h
    · next hlen =>
      split at h
      · cases h
      · obtain ⟨-, rfl⟩ := Prod.mk.inj (Except.ok.inj h)
        rw [List.length_drop, not_not.1 hlen]
        omega

end Envelope

/-! ## Keys and groups -/

section Keys

/-- The group that a key in a format version is the key of. -/
def DerivesTo (tier : GroupTier S P β π) (key : UInt16 × Bytes β) (gid : GroupId β) : Prop :=
  ∃ sp pp, groupDerive tier tier.gens key.1 key.2 = .ok (gid, sp, pp)

/-- The key a call makes a group of. -/
def GroupCall.key? (tier : GroupTier S P β π) : GroupCall S P β π → Option (UInt16 × Bytes β)
  | .create gmk => some (groupFormatVersion, (gmk tier.masterKeyLen).1)
  | .installKeyEnvelope env => (gyGroupKeyDistributionDecode tier env groupMasterKeyMax).toOption
  | _ => none

/-- No two of the keys are keys of one group: the hash does not collide on them. -/
def NoCollision (tier : GroupTier S P β π) (K : Set (UInt16 × Bytes β)) : Prop :=
  ∀ gid, ∀ key ∈ K, ∀ key' ∈ K, DerivesTo tier key gid → DerivesTo tier key' gid → key = key'

/-- Loading the group gives the format version and the parameters of the key, unless the callback
fails. -/
def Rederives (tier : GroupTier S P β π) (recs : GroupRecords S P β π) (gid : GroupId β)
    (key : UInt16 × Bytes β) : Prop :=
  ∃ sp pp, groupDerive tier tier.gens key.1 key.2 = .ok (gid, sp, pp) ∧
    ∀ faults : List (Option (Fault GyErr)),
      (gyGroupLoad tier tier.gens gid ⟨recs, faults⟩).1 =
        (match faults.getD 0 none with | some f => .error f.err | none => .ok (sp, pp)) ∧
      (gyGroupFormatVersionLoad tier gid ⟨recs, faults⟩).1 =
        (match faults.getD 0 none with | some f => .error f.err | none => .ok key.1)

variable {tier : GroupTier S P β π} {recs recs' : GroupRecords S P β π} {gid : GroupId β}
  {key : UInt16 × Bytes β}

/-- What reading a key record gives. -/
def readMasterRecord (tier : GroupTier S P β π) (fault : Option (Fault GyErr))
    (blob : Option (UInt16 × Bytes β)) : Except GyErr (UInt16 × Bytes β) :=
  match fault, blob with
  | some f, _ => .error f.err
  | none, none => .error .notFound
  | none, some key => if key.2.length ≠ tier.masterKeyLen then .error .verify else .ok key

omit [Field S] [AddCommGroup P] [Module S P] [Octet β] [DecidableEq β] in
theorem loadMasterRecord_apply (recs : GroupRecords S P β π) (gid : GroupId β)
    (faults : List (Option (Fault GyErr))) :
    loadMasterRecord tier gid ⟨recs, faults⟩ =
      (readMasterRecord tier (faults.getD 0 none) (recs (.masterKey gid)),
        ⟨recs, faults.tail⟩) := by
  unfold loadMasterRecord RecStore.load readMasterRecord
  rw [Cmd.bind_apply, RecStore.callback_apply]
  cases faults.getD 0 none with
  | some f =>
    dsimp only
    -- a fault is reported the same whether it struck before or after the read
    rw [ite_self]
  | none =>
    dsimp only
    cases recs (.masterKey gid) with
    | none => rfl
    | some key =>
      dsimp only
      rw [Cmd.ite_apply]
      split
      · rfl
      · rfl

/-- Loading a group is about its key record only. -/
theorem Rederives.congr (h : Rederives tier recs gid key)
    (hrec : recs' (.masterKey gid) = recs (.masterKey gid)) : Rederives tier recs' gid key := by
  obtain ⟨sp, pp, hd, hload⟩ := h
  refine ⟨sp, pp, hd, fun faults => ?_⟩
  rw [← (hload faults).1, ← (hload faults).2]
  -- the load reads no other record
  unfold gyGroupLoad gyGroupFormatVersionLoad
  simp only [Cmd.bind_apply, loadMasterRecord_apply, hrec]
  cases readMasterRecord tier (faults.getD 0 none) (recs (.masterKey gid)) with
  | error e => exact ⟨rfl, rfl⟩
  | ok key' =>
    refine ⟨?_, rfl⟩
    dsimp only
    cases groupDerive tier tier.gens key'.1 key'.2 with
    | error e => rfl
    | ok d =>
      simp only [Cmd.lift_apply, Cmd.ite_apply]
      split
      · rfl
      · rfl

/-- A stored key of the right length rederives its group. -/
theorem rederives_of_stored (hrec : recs (.masterKey gid) = some key)
    (hlen : key.2.length = tier.masterKeyLen) (hder : DerivesTo tier key gid) :
    Rederives tier recs gid key := by
  obtain ⟨sp, pp, hd⟩ := hder
  refine ⟨sp, pp, hd, fun faults => ?_⟩
  unfold gyGroupLoad gyGroupFormatVersionLoad
  rw [Cmd.bind_apply, Cmd.bind_apply, loadMasterRecord_apply, hrec]
  unfold readMasterRecord
  cases faults.getD 0 none with
  | some f => exact ⟨rfl, rfl⟩
  | none =>
    dsimp only
    rw [if_neg (not_not.2 hlen)]
    refine ⟨?_, rfl⟩
    dsimp only
    rw [hd]
    simp

/-- A group whose key record is gone is not loaded. -/
theorem not_rederives_of_absent (hrec : recs (.masterKey gid) = none) :
    ¬ Rederives tier recs gid key := by
  rintro ⟨sp, pp, -, hload⟩
  have hv := (hload []).2
  unfold gyGroupFormatVersionLoad at hv
  rw [Cmd.bind_apply, loadMasterRecord_apply, hrec] at hv
  cases hv

end Keys

/-! ## Forgetting -/

section Forget

variable {tier : GroupTier S P β π} {c : GroupHandle S P β π} {recs : GroupRecords S P β π}
  {gid : GroupId β} {faults : List (Option (Fault GyErr))}

omit [Field S] [AddCommGroup P] [Module S P] [Octet β] in
/-- The cut points of a deletion. -/
theorem gyGroupDeleteStored_cases (recs : GroupRecords S P β π) (gid : GroupId β)
    (faults : List (Option (Fault GyErr))) :
    (faults.getD 0 none = none ∧ faults.getD 1 none = none ∧ faults.getD 2 none = none ∧
      gyGroupDeleteStored gid ⟨recs, faults⟩ = (.ok (), ⟨Function.update (Function.update
        (Function.update recs (.authCred gid) none) (.ownPk gid) none) (.masterKey gid) none,
          faults.tail.tail.tail⟩)) ∨
    ∃ e recs' faults', gyGroupDeleteStored gid ⟨recs, faults⟩ = (.error e, ⟨recs', faults'⟩) ∧
      (((faults.getD 0 none ≠ none ∨ faults.getD 1 none ≠ none) ∧
          recs' (.masterKey gid) = recs (.masterKey gid)) ∨
        (faults.getD 0 none = none ∧ faults.getD 1 none = none ∧
          ∃ f, faults.getD 2 none = some f ∧
            recs' (.masterKey gid) = if f.after then none else recs (.masterKey gid))) := by
  -- three removals in a row: the auth credential, the own ProfileKey, the master key
  unfold gyGroupDeleteStored RecStore.remove
  rw [Cmd.bind_apply, RecStore.callback_apply]
  cases h0 : faults.getD 0 none with
  | some f =>
    refine .inr ⟨_, _, _, rfl, .inl ⟨.inl (Option.some_ne_none f), ?_⟩⟩
    cases f.after with
    | false => rfl
    | true => rw [if_pos rfl, Function.update_of_ne (by simp)]
  | none =>
    have h1' : faults.tail.getD 0 none = faults.getD 1 none := by cases faults <;> rfl
    have h2' : faults.tail.tail.getD 0 none = faults.getD 2 none := by
      rcases faults with _ | ⟨_, _ | _⟩ <;> rfl
    dsimp only
    rw [Cmd.bind_apply, RecStore.callback_apply, h1']
    cases h1 : faults.getD 1 none with
    | some f =>
      refine .inr ⟨_, _, _, rfl, .inl ⟨.inr (Option.some_ne_none f), ?_⟩⟩
      cases f.after with
      | false => rw [if_neg Bool.false_ne_true, Function.update_of_ne (by simp)]
      | true => rw [if_pos rfl, Function.update_of_ne (by simp), Function.update_of_ne (by simp)]
    | none =>
      dsimp only
      rw [RecStore.callback_apply, h2']
      -- only the last removal touches the master key
      cases h2 : faults.getD 2 none with
      | some f =>
        refine .inr ⟨_, _, _, rfl, .inr ⟨rfl, rfl, f, rfl, ?_⟩⟩
        cases f.after with
        | false =>
          rw [if_neg Bool.false_ne_true, Function.update_of_ne (by simp),
            Function.update_of_ne (by simp)]
          rfl
        | true => rw [if_pos rfl, Function.update_self, if_pos rfl]
      | none => exact .inl ⟨rfl, rfl, rfl, rfl⟩

/-- What forgetting has to find where its first deletions succeed: the deletion of the master key
does not fail after its effect, and where it succeeds no profile-key credential is cached for the
group and an outstanding request is dropped. -/
def ForgetsCleanly (recs : GroupRecords S P β π) (gid : GroupId β)
    (faults : List (Option (Fault GyErr))) : Prop :=
  faults.getD 0 none = none → faults.getD 1 none = none →
    match faults.getD 2 none with
    | some f => f.after = false ∨ recs (.masterKey gid) = none
    | none => (∀ uid, recs (.pkCred gid uid) = none) ∧
      (recs (.blindState gid) = none ∨ ∀ f, faults.getD 3 none = some f → f.after = true)

/-- What forgetting owes: a group is still there where it fails, and nothing of it where it
succeeds. -/
def ForgetContract (tier : GroupTier S P β π) (recs : GroupRecords S P β π) (gid : GroupId β)
    {α : Type} (r : Except GyErr α × GroupRecords S P β π) : Prop :=
  (∀ e, r.1 = .error e → ∀ key, Rederives tier recs gid key → Rederives tier r.2 gid key) ∧
  (∀ a, r.1 = .ok a → ∀ k : GroupRecKey β, k.group? = some gid → r.2 k = none)

omit [Field S] [AddCommGroup P] [Module S P] [Octet β] in
/-- Dropping the outstanding request of a group after a command. -/
theorem groupForget_ok_tier (hguard : groupGuard c = .ok tier) {rc : Except GyErr Unit}
    {recs' : GroupRecords S P β π} {faults' : List (Option (Fault GyErr))}
    (hdel : gyGroupDeleteStored gid ⟨recs, faults⟩ = (rc, ⟨recs', faults'⟩)) :
    (groupForget c gid ⟨recs, faults⟩).1 = rc ∧
      (groupForget c gid ⟨recs, faults⟩).2.recs =
        match faults'.getD 0 none with
        | some f => if f.after then Function.update recs' (.blindState gid) none else recs'
        | none => Function.update recs' (.blindState gid) none := by
  unfold groupForget
  -- the request goes last and whatever its removal says is dropped
  rw [hguard, Cmd.lift_ok_bind_apply, Cmd.attempt_bind_apply, hdel, Cmd.attempt_bind_apply]
  unfold RecStore.remove
  rw [RecStore.callback_apply]
  refine ⟨rfl, ?_⟩
  cases faults'.getD 0 none with
  | some f => rfl
  | none => rfl

omit [Field S] [AddCommGroup P] [Module S P] [Octet β] in
theorem groupForget_error (hguard : groupGuard c = .ok tier) {e : GyErr}
    {recs' : GroupRecords S P β π} {faults' : List (Option (Fault GyErr))}
    (hdel : gyGroupDeleteStored gid ⟨recs, faults⟩ = (.error e, ⟨recs', faults'⟩)) :
    (groupForget c gid ⟨recs, faults⟩).1 = .error e ∧
      (groupForget c gid ⟨recs, faults⟩).2.recs (.masterKey gid) = recs' (.masterKey gid) := by
  obtain ⟨hrc, hrecs⟩ := groupForget_ok_tier hguard hdel
  refine ⟨hrc, ?_⟩
  rw [hrecs]
  -- removing the request touches another record
  cases faults'.getD 0 none with
  | some f =>
    dsimp only
    split
    · exact Function.update_of_ne (by simp) _ _
    · rfl
  | none => exact Function.update_of_ne (by simp) _ _

omit [Field S] [AddCommGroup P] [Module S P] [Octet β] in
/-- What is left of a group whose deletion succeeded. -/
theorem groupForget_deleted (recs : GroupRecords S P β π) (gid : GroupId β)
    (hguard : groupGuard c = .ok tier) (h0 : faults.getD 0 none = none)
    (h1 : faults.getD 1 none = none) (h2 : faults.getD 2 none = none) :
    (groupForget c gid ⟨recs, faults⟩).1 = .ok () ∧
      ∃ recs', (groupForget c gid ⟨recs, faults⟩).2.recs = recs' ∧
        recs' (.masterKey gid) = none ∧ recs' (.authCred gid) = none ∧
        recs' (.ownPk gid) = none ∧ (∀ uid, recs' (.pkCred gid uid) = recs (.pkCred gid uid)) ∧
        (recs' (.blindState gid) = none ↔
          recs (.blindState gid) = none ∨ ∀ f, faults.getD 3 none = some f → f.after = true) := by
  obtain ⟨-, -, -, hdel⟩ | ⟨_, _, _, -, ⟨h | h, -⟩ | ⟨-, -, f, hf, -⟩⟩ :=
    gyGroupDeleteStored_cases recs gid faults
  · obtain ⟨hrc, hrecs⟩ := groupForget_ok_tier hguard hdel
    have h3 : faults.tail.tail.tail.getD 0 none = faults.getD 3 none := by
      rcases faults with _ | ⟨_, _ | ⟨_, _ | _⟩⟩ <;> rfl
    rw [h3] at hrecs
    refine ⟨hrc, _, hrecs, ?_⟩
    cases faults.getD 3 none with
    | none => simp
    | some f => cases hf : f.after <;> simp [hf]
  · exact absurd h0 h
  · exact absurd h1 h
  · rw [h2] at hf
    cases hf

/-- Forgetting meets its contract exactly where its condition holds. -/
theorem groupForget_contract_iff (hguard : groupGuard c = .ok tier)
    (hstored : ∀ key, recs (.masterKey gid) = some key → Rederives tier recs gid key) :
    ForgetContract tier recs gid ((groupForget c gid ⟨recs, faults⟩).1,
      (groupForget c gid ⟨recs, faults⟩).2.recs) ↔ ForgetsCleanly recs gid faults := by
  rcases gyGroupDeleteStored_cases recs gid faults with
    ⟨h0, h1, h2, -⟩ | ⟨e, recs', faults', hdel, ⟨hearly, hkept⟩ | ⟨h0, h1, f, h2, hmk⟩⟩
  -- all three removals went through: what may be left is other members' credentials and the
  -- request
  · obtain ⟨hrc, recs', hrecs, hmk, hauth, hown, hpk, hblind⟩ :=
      groupForget_deleted recs gid hguard h0 h1 h2
    unfold ForgetContract ForgetsCleanly
    rw [hrc, hrecs, h2]
    constructor
    · rintro ⟨-, hnone⟩ - -
      exact ⟨fun uid => (hpk uid).symm.trans (hnone () rfl (.pkCred gid uid) rfl),
        hblind.1 (hnone () rfl (.blindState gid) rfl)⟩
    · intro h
      obtain ⟨hcreds, hreq⟩ := h h0 h1
      refine ⟨fun e he => (by cases he), fun _ _ k hk => ?_⟩
      cases k with
      | serverParams => cases hk
      | masterKey => exact Option.some.inj hk ▸ hmk
      | authCred => exact Option.some.inj hk ▸ hauth
      | ownPk => exact Option.some.inj hk ▸ hown
      | pkCred _ uid =>
        obtain rfl := Option.some.inj hk
        exact (hpk uid).trans (hcreds uid)
      | blindState =>
        obtain rfl := Option.some.inj hk
        exact hblind.2 hreq
  · obtain ⟨hrc, hrecs⟩ := groupForget_error hguard hdel
    refine ⟨fun _ h0 h1 => (hearly.elim (· h0) (· h1)).elim, fun _ => ⟨fun _ _ key hr => ?_, ?_⟩⟩
    · exact hr.congr (hrecs.trans hkept)
    · rw [hrc]
      exact fun _ h => (by cases h)
  · obtain ⟨hrc, hrecs⟩ := groupForget_error hguard hdel
    rw [hmk] at hrecs
    unfold ForgetContract ForgetsCleanly
    rw [hrc, h2]
    constructor
    · rintro ⟨herr, -⟩ - -
      dsimp only
      cases hafter : f.after with
      | false => exact .inl rfl
      | true =>
        rw [hafter, if_pos rfl] at hrecs
        refine .inr (Option.eq_none_iff_forall_ne_some.2 fun key hkey => ?_)
        exact not_rederives_of_absent hrecs (herr e rfl key (hstored key hkey))
    · intro h
      refine ⟨fun _ _ key hr => ?_, fun _ h => (by cases h)⟩
      -- the third removal failed: before or after it took effect
      rcases h h0 h1 with hafter | habsent
      · rw [hafter, if_neg Bool.false_ne_true] at hrecs
        exact hr.congr hrecs
      · exact (not_rederives_of_absent habsent hr).elim

end Forget

/-! ## Calls that make a group -/

section Makes

open RecStore

variable {tier : GroupTier S P β π} {c : GroupHandle S P β π} {recs : GroupRecords S P β π}

theorem groupCreate_stores (htier : c.tier = some tier) (gmk : (n : Nat) → Block n β) :
    Ensures False (groupCreate c gmk) recs fun r recs' => ∀ gid, r = .ok gid →
      DerivesTo tier (groupFormatVersion, (gmk tier.masterKeyLen).1) gid ∧
        recs' (.masterKey gid) = some (groupFormatVersion, (gmk tier.masterKeyLen).1) := by
  refine Ensures.lift_bind (fun _ _ _ h => by cases h) fun tier' htier' => ?_
  obtain rfl := Option.some.inj (htier.symm.trans (groupGuard_ok htier'))
  rw [gyGroupGeneratorsDerive_eq]
  refine Ensures.bind (ensures_lift (Ensures.bind_pure ?_))
  refine ensures_deriveAndStoreMaster tier (fun _ _ h => by cases h) fun gid sp pp hder => ?_
  refine ⟨fun _ _ _ h => (by cases h), fun gid' h => ?_⟩
  obtain rfl := Except.ok.inj h
  exact ⟨⟨sp, pp, hder⟩, Function.update_self _ _ _⟩

theorem groupInstallKeyEnvelope_stores (htier : c.tier = some tier) {env : Bytes β}
    {key : UInt16 × Bytes β}
    (hdec : gyGroupKeyDistributionDecode tier env groupMasterKeyMax = .ok key) :
    Ensures False (groupInstallKeyEnvelope c env) recs fun r recs' => ∀ gid, r = .ok gid →
      DerivesTo tier key gid ∧ recs' (.masterKey gid) = some key := by
  refine Ensures.lift_bind (fun _ _ _ h => by cases h) fun tier' htier' => ?_
  obtain rfl := Option.some.inj (htier.symm.trans (groupGuard_ok htier'))
  rw [hdec]
  obtain ⟨v, gmk⟩ := key
  dsimp only
  rw [gyGroupGeneratorsDerive_eq]
  refine Ensures.bind (ensures_lift (Ensures.bind_pure ?_))
  refine Ensures.ite (fun _ => ensures_fail fun _ h => by cases h) fun _ => ?_
  refine Ensures.ite (fun _ => ensures_fail fun _ h => by cases h) fun _ => ?_
  refine ensures_deriveAndStoreMaster tier (fun _ _ h => by cases h) fun gid sp pp hder => ?_
  refine ⟨fun _ _ _ h => (by cases h), fun gid' h => ?_⟩
  obtain rfl := Except.ok.inj h
  exact ⟨⟨sp, pp, hder⟩, Function.update_self _ _ _⟩

/-- Where a call makes a group, the key is stored for it. -/
def StoresKey (tier : GroupTier S P β π) (key : UInt16 × Bytes β)
    (r : Except GyErr (GroupOut S P β π)) (recs : GroupRecords S P β π) : Prop :=
  ∀ gid, r = .ok (.group gid) → DerivesTo tier key gid ∧ recs (.masterKey gid) = some key

/-- A call that makes a group of a key and succeeds leaves the key stored. -/
theorem GroupEvent.step_stores [DecidableEq P] (htier : c.tier = some tier)
    {ev : GroupEvent S P β π} {key : UInt16 × Bytes β} (hkey : ev.call.key? tier = some key)
    {gid : GroupId β} (hok : (ev.step c recs).1 = .ok (.group gid)) :
    DerivesTo tier key gid ∧ (ev.step c recs).2 (.masterKey gid) = some key := by
  -- create and install answer with the id of the group
  have hwrap {x : GroupM S P β π (GroupId β)}
      (h : Ensures False x recs fun r recs' => ∀ gid, r = .ok gid →
        DerivesTo tier key gid ∧ recs' (.masterKey gid) = some key) :
      Ensures False (x >>= fun gid => pure (GroupOut.group gid)) recs (StoresKey tier key) := by
    refine Ensures.bind_pure (h.mono fun r recs' h gid hr => ?_)
    cases r with
    | error e => cases hr
    | ok gid' =>
      obtain rfl := GroupOut.group.inj (Except.ok.inj hr)
      exact h gid' rfl
  have hens : Ensures False (ev.call.run (ev.handle c) ev.out) recs (StoresKey tier key) := by
    revert hkey
    cases ev.call with
    | create gmk =>
      intro hkey
      obtain rfl := Option.some.inj hkey
      exact hwrap (groupCreate_stores (c := ev.handle c) htier gmk)
    | installKeyEnvelope env =>
      intro hkey
      refine hwrap (groupInstallKeyEnvelope_stores (c := ev.handle c) htier ?_)
      have hkey' : (gyGroupKeyDistributionDecode tier env groupMasterKeyMax).toOption = some key :=
        hkey
      revert hkey'
      cases gyGroupKeyDistributionDecode tier env groupMasterKeyMax with
      | error e => exact fun h => by cases h
      | ok key' => exact fun h => congrArg _ (Option.some.inj h)
    | _ => exact fun h => by cases h
  exact GroupEvent.step_of_ensures hens gid hok

end Makes

/-! ## Custodians and what they know -/

section World

variable [DecidableEq P] {ι : Type} [DecidableEq ι]

/-- A custodian's records, and the groups it has made or joined and not forgotten, each with the
key of the call. -/
structure GroupNode (S P β π : Type) where
  recs : GroupRecords S P β π
  known : GroupId β → Option (UInt16 × Bytes β)

/-- A custodian without group records. -/
def GroupNode.fresh : GroupNode S P β π := ⟨.fresh, fun _ => none⟩

/-- The groups that are known after a call. -/
def knownAfter (tier : GroupTier S P β π) (known : GroupId β → Option (UInt16 × Bytes β))
    (call : GroupCall S P β π) (r : Except GyErr (GroupOut S P β π)) :
    GroupId β → Option (UInt16 × Bytes β) :=
  match call, r with
  | .forget gid, .ok _ => Function.update known gid none
  | call, .ok (.group gid) => Function.update known gid (call.key? tier)
  | _, _ => known

/-- An event at a custodian. -/
def GroupNode.step (tier : GroupTier S P β π) (c : GroupHandle S P β π) (n : GroupNode S P β π)
    (ev : GroupEvent S P β π) : GroupNode S P β π :=
  ⟨(ev.step c n.recs).2, knownAfter tier n.known ev.call (ev.step c n.recs).1⟩

/-- An event at one of the custodians. -/
def groupWorldStep (tier : GroupTier S P β π) (c : ι → GroupHandle S P β π)
    (w : ι → GroupNode S P β π) (e : ι × GroupEvent S P β π) : ι → GroupNode S P β π :=
  Function.update w e.1 ((w e.1).step tier (c e.1) e.2)

/-- The custodians after a run. -/
def groupWorldRun (tier : GroupTier S P β π) (c : ι → GroupHandle S P β π)
    (evs : List (ι × GroupEvent S P β π)) : ι → GroupNode S P β π :=
  evs.foldl (groupWorldStep tier c) fun _ => .fresh

/-- The keys of the groups that a run makes. -/
def groupKeys (tier : GroupTier S P β π) (evs : List (ι × GroupEvent S P β π)) :
    Set (UInt16 × Bytes β) := {key | ∃ e ∈ evs, e.2.call.key? tier = some key}

/-- Every stored key is one of the keys, fits the tier and derives to its group; every known group
has its key stored. -/
structure GroupNode.Sound (tier : GroupTier S P β π) (K : Set (UInt16 × Bytes β))
    (n : GroupNode S P β π) : Prop where
  stored : ∀ gid key, n.recs (.masterKey gid) = some key → key ∈ K ∧
    key.2.length = tier.masterKeyLen ∧
    (groupMinSupportedFormatVersion ≤ key.1 ∧ key.1 ≤ groupMaxSupportedFormatVersion) ∧
    DerivesTo tier key gid
  known : ∀ gid key, n.known gid = some key → n.recs (.masterKey gid) = some key

section Step

variable {tier : GroupTier S P β π} {c : GroupHandle S P β π} {n : GroupNode S P β π}
  {K : Set (UInt16 × Bytes β)} {ev : GroupEvent S P β π} {gid : GroupId β}
  {key : UInt16 × Bytes β}

omit [DecidableEq P] in
theorem GroupNode.Sound.rederives (h : n.Sound tier K)
    (hkey : n.recs (.masterKey gid) = some key) : Rederives tier n.recs gid key := by
  obtain ⟨-, hlen, -, hder⟩ := h.stored gid key hkey
  exact rederives_of_stored hkey hlen hder

/-- What an event may leave as the key of a group. -/
theorem GroupNode.masterKey_step (htier : c.tier = some tier)
    (hmem : ∀ key, ev.call.key? tier = some key → key ∈ K)
    (hkey : (ev.step c n.recs).2 (.masterKey gid) = some key) :
    n.recs (.masterKey gid) = some key ∨
      (key ∈ K ∧ key.2.length = tier.masterKeyLen ∧
        (groupMinSupportedFormatVersion ≤ key.1 ∧ key.1 ≤ groupMaxSupportedFormatVersion) ∧
        DerivesTo tier key gid) := by
  rcases ev.step_written c n.recs (.masterKey gid) with heq | hw
  · exact .inl (heq.symm.trans hkey)
  · refine .inr ?_
    rw [hkey] at hw
    obtain ⟨unlocked, clock, call, out, faults⟩ := ev
    dsimp only at hw hmem
    -- only a create and an install write this record
    cases hw with
    | @create gmk _ _ _ _ _ htier' hgens hder =>
      obtain rfl := Option.some.inj (htier.symm.trans htier')
      obtain rfl := Except.ok.inj ((gyGroupGeneratorsDerive_eq tier).symm.trans hgens)
      -- a key that was made here has the one version this code writes
      exact ⟨hmem _ rfl, (gmk _).2, ⟨UInt16.le_refl _, UInt16.le_refl _⟩, _, _, hder⟩
    | install htier' hgens hdec hlen hver hder =>
      obtain rfl := Option.some.inj (htier.symm.trans htier')
      obtain rfl := Except.ok.inj ((gyGroupGeneratorsDerive_eq tier).symm.trans hgens)
      exact ⟨hmem _ (congrArg Except.toOption hdec), hlen, hver, _, _, hder⟩

/-- A stored key stays while its group is not forgotten. -/
theorem GroupNode.Sound.masterKey_kept (h : n.Sound tier K) (htier : c.tier = some tier)
    (hcol : NoCollision tier K) (hmem : ∀ key, ev.call.key? tier = some key → key ∈ K)
    (hforget : ev.call ≠ .forget gid) (hkey : n.recs (.masterKey gid) = some key) :
    (ev.step c n.recs).2 (.masterKey gid) = some key := by
  cases hafter : (ev.step c n.recs).2 (.masterKey gid) with
  | none =>
    rcases ev.step_written c n.recs (.masterKey gid) with heq | hw
    · rw [← hafter, heq, hkey]
    · rw [hafter] at hw
      -- only forget removes the record
      generalize ev.call = call at hw hforget
      cases hw
      exact (hforget rfl).elim
  | some key' =>
    obtain ⟨hK, -, -, hder⟩ := h.stored gid key hkey
    -- a key written over it derives the same id, so it is the same key
    rcases GroupNode.masterKey_step htier hmem hafter with heq | ⟨hK', -, -, hder'⟩
    · rw [← heq, hkey]
    · rw [hcol gid key hK key' hK' hder hder']

omit [Field S] [AddCommGroup P] [Module S P] [DecidableEq P] in
/-- A call that leaves a group known either makes it or found it known. -/
theorem of_knownAfter {known : GroupId β → Option (UInt16 × Bytes β)} {call : GroupCall S P β π}
    {r : Except GyErr (GroupOut S P β π)} (h : knownAfter tier known call r gid = some key) :
    (r = .ok (.group gid) ∧ call.key? tier = some key) ∨
      (known gid = some key ∧ (call = .forget gid → ∃ e, r = .error e)) := by
  unfold knownAfter at h
  split at h
  · next gid' out =>
    have hne : gid ≠ gid' := by
      rintro rfl
      rw [Function.update_self] at h
      cases h
    rw [Function.update_of_ne hne] at h
    exact .inr ⟨h, fun heq => (hne (GroupCall.forget.inj heq).symm).elim⟩
  · next gid' hcall =>
    -- the call made this group known, or another one
    by_cases heq : gid = gid'
    · subst heq
      rw [Function.update_self] at h
      exact .inl ⟨rfl, h⟩
    · rw [Function.update_of_ne heq] at h
      exact .inr ⟨h, fun hf => (hcall _ hf).elim⟩
  · next hgroup hforget =>
    refine .inr ⟨h, fun hf => ?_⟩
    cases r with
    | error e => exact ⟨e, rfl⟩
    | ok out => exact (hforget _ _ hf rfl).elim

/-- An event keeps a custodian sound, if forgetting keeps its contract. -/
theorem GroupNode.Sound.step (h : n.Sound tier K) (htier : c.tier = some tier)
    (hcol : NoCollision tier K) (hmem : ∀ key, ev.call.key? tier = some key → key ∈ K)
    (hforget : ∀ gid, ev.call = .forget gid → ForgetContract tier n.recs gid (ev.step c n.recs)) :
    (n.step tier c ev).Sound tier K := by
  refine ⟨fun gid key hkey => ?_, fun gid key hknown => ?_⟩
  · rcases GroupNode.masterKey_step htier hmem hkey with hold | hnew
    · exact h.stored gid key hold
    · exact hnew
  · rcases of_knownAfter hknown with ⟨hr, hkey⟩ | ⟨hold, herr⟩
    · exact (GroupEvent.step_stores htier hkey hr).2
    · have hrec := h.known gid key hold
      -- a forget that failed left the key it could not remove
      by_cases hcall : ev.call = .forget gid
      · obtain ⟨e, he⟩ := herr hcall
        have hload := (hforget gid hcall).1 e he key (h.rederives hrec)
        rcases ev.step_written c n.recs (.masterKey gid) with heq | hw
        · exact heq.trans hrec
        · rw [hcall] at hw
          generalize hafter : (ev.step c n.recs).2 (.masterKey gid) = after at hw
          cases hw
          exact (not_rederives_of_absent hafter hload).elim
      · exact h.masterKey_kept htier hcol hmem hcall hrec

end Step

section Envelopes

open RecStore

variable {tier : GroupTier S P β π} {c : GroupHandle S P β π} {recs : GroupRecords S P β π}
  {ev : GroupEvent S P β π} {gid : GroupId β} {key : UInt16 × Bytes β} {env : Bytes β}

/-- An exported envelope carries the stored key. -/
theorem GroupEvent.step_export (htier : c.tier = some tier)
    (hcall : ev.call = .exportKeyEnvelope gid)
    (hok : (ev.step c recs).1 = .ok (.envelope env)) :
    ∃ key, recs (.masterKey gid) = some key ∧
      gyGroupKeyDistributionDecode tier env groupMasterKeyMax = .ok key := by
  have hens : Ensures False (groupExportKeyEnvelope (ev.handle c) gid ev.out) recs
      fun r _ => r = .ok (.bytes env) → ∃ key, recs (.masterKey gid) = some key ∧
        gyGroupKeyDistributionDecode tier env groupMasterKeyMax = .ok key := by
    refine Ensures.lift_bind (fun _ _ h => by cases h) fun tier' htier' => ?_
    have hsame : c.tier = some tier' := groupGuard_ok (c := ev.handle c) htier'
    obtain rfl := Option.some.inj (htier.symm.trans hsame)
    refine Ensures.bind (Ensures.bind
      (ensures_loadMasterRecord tier (fun _ h => by cases h) fun v gmk hrec _ => ensures_pure ?_))
    refine Ensures.bind (Ensures.ite (fun _ => ensures_fail fun h => by cases h) fun hcap => ?_)
    refine Ensures.bind
      (ensures_loadMasterRecord tier (fun _ h => by cases h) fun v' gmk' hrec' _ => ensures_pure ?_)
    -- the record is read twice, and nothing is written in between
    obtain ⟨rfl, rfl⟩ := Prod.mk.inj (Option.some.inj (hrec.symm.trans hrec'))
    refine Ensures.lift_bind (fun _ _ h => by cases h) fun frame hframe => ensures_lift fun h => ?_
    obtain rfl : env = frame := by
      unfold emit at h
      split at h
      · cases h
      · split at h
        · cases h
        · exact (Emitted.bytes.inj (Except.ok.inj h)).symm
    exact ⟨_, hrec, gyGroupKeyDistribution_roundTrip hframe (not_lt.1 hcap)⟩
  refine (hens ev.faults fun hf => hf.elim).1 ?_
  unfold GroupEvent.step at hok
  rw [hcall] at hok
  dsimp only [GroupCall.run] at hok
  rw [Cmd.fst_bind_pure] at hok
  cases hr : (groupExportKeyEnvelope (ev.handle c) gid ev.out ⟨recs, ev.faults⟩).1 with
  | error e =>
    rw [hr] at hok
    cases hok
  | ok em =>
    rw [hr] at hok
    cases em with
    | size n => cases hok
    | bytes env' => exact congrArg _ (congrArg _ (GroupOut.envelope.inj (Except.ok.inj hok)))

/-- Installing the envelope of a key makes its group, unless a callback fails. -/
theorem GroupEvent.step_install (htier : c.tier = some tier)
    (hdec : gyGroupKeyDistributionDecode tier env groupMasterKeyMax = .ok key)
    (hver : groupMinSupportedFormatVersion ≤ key.1 ∧ key.1 ≤ groupMaxSupportedFormatVersion)
    (hder : DerivesTo tier key gid) (hcall : ev.call = .installKeyEnvelope env) :
    (∀ out, (ev.step c recs).1 = .ok out →
      out = .group gid ∧ Rederives tier (ev.step c recs).2 gid key) ∧
    (ev.unlocked = true → ev.faults = [] → (ev.step c recs).1 = .ok (.group gid)) := by
  have hlen := length_of_decode hdec
  have hrun : (ev.step c recs).1 =
      (groupInstallKeyEnvelope (ev.handle c) env ⟨recs, ev.faults⟩).1.map GroupOut.group := by
    unfold GroupEvent.step
    rw [hcall]
    exact Cmd.fst_bind_pure _ _ _
  refine ⟨fun out hout => ?_, fun hunlocked hfaults => ?_⟩
  · rw [hrun] at hout
    cases hr : (groupInstallKeyEnvelope (ev.handle c) env ⟨recs, ev.faults⟩).1 with
    | error e =>
      rw [hr] at hout
      cases hout
    | ok gid' =>
      rw [hr] at hout hrun
      obtain rfl := Except.ok.inj hout
      have hkey : ev.call.key? tier = some key := by
        rw [hcall]
        exact congrArg Except.toOption hdec
      obtain ⟨⟨sp', pp', hder'⟩, hrec⟩ := GroupEvent.step_stores htier hkey hrun
      obtain ⟨sp, pp, hd⟩ := hder
      -- one key derives one group id
      obtain rfl := (Prod.mk.inj (Except.ok.inj (hd.symm.trans hder'))).1
      exact ⟨rfl, rederives_of_stored hrec hlen ⟨sp, pp, hd⟩⟩
  · obtain ⟨v, gmk⟩ := key
    obtain ⟨sp, pp, hd⟩ := hder
    have hguard : groupGuard (ev.handle c) = .ok tier := by
      unfold groupGuard GroupEvent.handle
      rw [hunlocked, htier]
      rfl
    rw [hrun, hfaults]
    unfold groupInstallKeyEnvelope
    rw [hguard, Cmd.lift_ok_bind_apply, hdec]
    dsimp only at hlen hver hd ⊢
    rw [gyGroupGeneratorsDerive_eq, Cmd.lift_ok_bind_apply]
    unfold gyGroupInstallMasterKey deriveAndStoreMaster
    rw [if_neg (not_not.2 hlen), if_neg (by grind), hd]
    rfl

end Envelopes

/-- An event that forgets a group meets the contract exactly where its condition holds. -/
theorem GroupEvent.step_forget_iff {tier : GroupTier S P β π} {c : GroupHandle S P β π}
    {recs : GroupRecords S P β π} {ev : GroupEvent S P β π} {gid : GroupId β}
    (htier : c.tier = some tier) (hcall : ev.call = .forget gid)
    (hstored : ∀ key, recs (.masterKey gid) = some key → Rederives tier recs gid key) :
    ForgetContract tier recs gid (ev.step c recs) ↔
      (ev.unlocked = true → ForgetsCleanly recs gid ev.faults) := by
  have hrun : ev.step c recs =
      ((groupForget (ev.handle c) gid ⟨recs, ev.faults⟩).1.map fun _ => GroupOut.done,
        (groupForget (ev.handle c) gid ⟨recs, ev.faults⟩).2.recs) := by
    unfold GroupEvent.step
    rw [hcall]
    exact Prod.ext (Cmd.fst_bind_pure _ _ _) (congrArg RecStore.recs (Cmd.snd_bind_pure _ _ _))
  -- a locked custodian refuses before it touches a record
  cases hunlocked : ev.unlocked with
  | false =>
    have hguard : groupGuard (ev.handle c) = .error .state := by
      unfold groupGuard GroupEvent.handle
      rw [hunlocked]
      rfl
    unfold groupForget at hrun
    rw [hguard] at hrun
    rw [hrun]
    refine ⟨fun _ h => (by cases h), fun _ => ⟨fun _ _ key hr => hr, fun _ h => (by cases h)⟩⟩
  | true =>
    have hguard : groupGuard (ev.handle c) = .ok tier := by
      unfold groupGuard GroupEvent.handle
      rw [hunlocked, htier]
      rfl
    rw [hrun, forall_prop_of_true rfl, ← groupForget_contract_iff hguard hstored]
    unfold ForgetContract
    cases (groupForget (ev.handle c) gid ⟨recs, ev.faults⟩).1 with
    | error e =>
      refine and_congr ⟨fun h _ _ => h e rfl, fun h _ _ => h e rfl⟩ ?_
      exact ⟨fun _ _ h => (by cases h), fun _ _ h => (by cases h)⟩
    | ok a =>
      refine and_congr ⟨fun _ _ h => (by cases h), fun _ _ h => (by cases h)⟩ ?_
      exact ⟨fun h _ _ => h .done rfl, fun h _ _ => h a rfl⟩

/-- Every forgetting event of a run meets its condition. -/
def ForgetsCleanlyAlong (tier : GroupTier S P β π) (c : ι → GroupHandle S P β π) :
    (ι → GroupNode S P β π) → List (ι × GroupEvent S P β π) → Prop
  | _, [] => True
  | w, e :: evs =>
    (∀ gid, e.2.call = .forget gid → e.2.unlocked = true →
      ForgetsCleanly (w e.1).recs gid e.2.faults) ∧
    ForgetsCleanlyAlong tier c (groupWorldStep tier c w e) evs

section Lifecycle

variable {tier : GroupTier S P β π} {c : ι → GroupHandle S P β π}

theorem groupWorldStep_sound {K : Set (UInt16 × Bytes β)} {w : ι → GroupNode S P β π}
    {e : ι × GroupEvent S P β π} (htier : ∀ i, (c i).tier = some tier) (hcol : NoCollision tier K)
    (hmem : ∀ key, e.2.call.key? tier = some key → key ∈ K)
    (hforget : ∀ gid, e.2.call = .forget gid → e.2.unlocked = true →
      ForgetsCleanly (w e.1).recs gid e.2.faults)
    (h : ∀ i, (w i).Sound tier K) (i : ι) : (groupWorldStep tier c w e i).Sound tier K := by
  unfold groupWorldStep
  -- a call moves the records of its own custodian only
  by_cases hi : i = e.1
  · subst hi
    rw [Function.update_self]
    refine (h e.1).step (htier e.1) hcol hmem fun gid hcall => ?_
    exact (GroupEvent.step_forget_iff (htier e.1) hcall fun key => (h e.1).rederives).2
      (hforget gid hcall)
  · rw [Function.update_of_ne hi]
    exact h i

theorem groupWorldRun_sound (htier : ∀ i, (c i).tier = some tier)
    {evs : List (ι × GroupEvent S P β π)} (hcol : NoCollision tier (groupKeys tier evs))
    (hforget : ForgetsCleanlyAlong tier c (fun _ => .fresh) evs) (i : ι) :
    (groupWorldRun tier c evs i).Sound tier (groupKeys tier evs) := by
  -- by induction on the calls; the keys are those of the whole run, so that none of them collide
  have hrun : ∀ (evs' : List (ι × GroupEvent S P β π)) (w : ι → GroupNode S P β π),
      (∀ e ∈ evs', e ∈ evs) → ForgetsCleanlyAlong tier c w evs' →
      (∀ i, (w i).Sound tier (groupKeys tier evs)) →
      ∀ i, (evs'.foldl (groupWorldStep tier c) w i).Sound tier (groupKeys tier evs) := by
    intro evs'
    induction evs' with
    | nil => exact fun _ _ _ h => h
    | cons e evs' ih =>
      intro w hsub halong h
      refine ih _ (fun e' he' => hsub e' (List.mem_cons_of_mem _ he')) halong.2 ?_
      have he : e ∈ evs := hsub e List.mem_cons_self
      exact groupWorldStep_sound htier hcol (fun key hkey => ⟨e, he, hkey⟩) halong.1 h
  refine hrun evs _ (fun e he => he) hforget (fun i => ⟨fun gid key h => ?_, fun gid key h => ?_⟩) i
  · cases h
  · cases h

/-- The life of the groups of any number of custodians of one tier, whatever callbacks fail and
whatever else is called: a known group rederives from the key it was made with; an exported key
makes the same group wherever it is installed; and forgetting a group keeps it loadable on failure
and leaves nothing of it on success, exactly where its condition holds. -/
theorem group_lifecycle (htier : ∀ i, (c i).tier = some tier)
    {evs : List (ι × GroupEvent S P β π)} (hcol : NoCollision tier (groupKeys tier evs))
    (hforget : ForgetsCleanlyAlong tier c (fun _ => .fresh) evs) {w : ι → GroupNode S P β π}
    (hw : w = groupWorldRun tier c evs) :
    (∀ i gid key, (w i).known gid = some key → Rederives tier (w i).recs gid key) ∧
    (∀ i gid (ev : GroupEvent S P β π) env, ev.call = .exportKeyEnvelope gid →
      (ev.step (c i) (w i).recs).1 = .ok (.envelope env) →
      ∃ key, Rederives tier (w i).recs gid key ∧
        ∀ j recs (ev' : GroupEvent S P β π), ev'.call = .installKeyEnvelope env →
          (∀ out, (ev'.step (c j) recs).1 = .ok out →
            out = .group gid ∧ Rederives tier (ev'.step (c j) recs).2 gid key) ∧
          (ev'.unlocked = true → ev'.faults = [] →
            (ev'.step (c j) recs).1 = .ok (.group gid))) ∧
    ∀ i gid (ev : GroupEvent S P β π), ev.call = .forget gid →
      (ForgetContract tier (w i).recs gid (ev.step (c i) (w i).recs) ↔
        (ev.unlocked = true → ForgetsCleanly (w i).recs gid ev.faults)) := by
  subst hw
  have hsound := groupWorldRun_sound htier hcol hforget
  refine ⟨fun i gid key hkey => ?_, fun i gid ev env hcall hok => ?_, fun i gid ev hcall => ?_⟩
  · exact (hsound i).rederives ((hsound i).known gid key hkey)
  · obtain ⟨key, hrec, hdec⟩ := GroupEvent.step_export (htier i) hcall hok
    obtain ⟨-, -, hver, hder⟩ := (hsound i).stored gid key hrec
    refine ⟨key, (hsound i).rederives hrec, fun j recs ev' hcall' => ?_⟩
    exact GroupEvent.step_install (htier j) hdec hver hder hcall'
  · exact GroupEvent.step_forget_iff (htier i) hcall fun key => (hsound i).rederives

end Lifecycle

end World

end Lifecycle

namespace GroupSample

set_option maxRecDepth 8000 in
/-- One of two custodians forgets a group that both have made; the other one still rederives it. -/
theorem group_lifecycle_two :
    let w := groupWorldRun tier (fun _ : Bool => handle)
      [(false, event (.create drawn)), (true, event (.create drawn)), (false, event (.forget made))]
    Rederives tier (w true).recs made (groupFormatVersion, (drawn 32).1) ∧
      (w false).recs (.masterKey made) = none := by
  have hkeys : ∀ key ∈ groupKeys tier [(false, event (.create drawn)),
      (true, event (.create drawn)), (false, event (.forget made))],
      key = (groupFormatVersion, (drawn 32).1) := by
    rintro key ⟨e, he, hkey⟩
    simp only [List.mem_cons, List.not_mem_nil, or_false] at he
    rcases he with rfl | rfl | rfl
    · exact (Option.some.inj hkey).symm
    · exact (Option.some.inj hkey).symm
    · cases hkey
  have hmade := group_lifecycle (c := fun _ : Bool => handle) (fun _ => rfl)
    (fun _ key hk key' hk' _ _ => (hkeys key hk).trans (hkeys key' hk').symm) ⟨?_, ?_, ?_, trivial⟩
    rfl
  · exact ⟨hmade.1 true made _ (by decide), rfl⟩
  · exact fun _ h => by cases h
  · exact fun _ h => by cases h
  · intro gid hgid _ _ _
    cases hgid
    exact ⟨fun _ => rfl, .inl rfl⟩

set_option maxRecDepth 8000 in
/-- Forgetting the group succeeds and leaves the credential. -/
theorem forget_leaves_credential :
    (∃ out, (GroupEvent.step handle (groupRun handle .fresh acquireCred)
      (event (.forget made))).1 = .ok out) ∧
    (groupRun handle .fresh (acquireCred ++ [event (.forget made)]) (.masterKey made)).isSome =
      false ∧
    (groupRun handle .fresh (acquireCred ++ [event (.forget made)])
      (.pkCred made (uid 4))).isSome = true :=
  ⟨⟨_, rfl⟩, by decide, by decide⟩

end GroupSample

end Geryon
