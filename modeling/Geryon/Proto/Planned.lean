import Geryon.Proto.Fanout

/-!
# Plans and sends agree

In every store a custodian reaches, every stored session can send and every user's index lists each
device once. So a plan has one descriptor for every listed device but the sender's own, and
`gy_send_encrypt` does to each device what its descriptor says. Its last step can still fail: the
stage of one transaction holds `opMaxSessions` sessions.

## Main results

* `keepsIndex_call`, `keepsCanSend_call`: what every call keeps;
* `fanout_agrees`: plans and sends, over every run;
* `fanout_stage_full`: a run whose next send fails although the plan says otherwise.
-/

namespace Geryon

variable {β : Type} [Octet β] [DecidableEq β] [Sodium β]

/-! ## Runs over custodians -/

/-- A run of calls, each on the custodian as it is open at the time. -/
def ApiState.runs (st : ApiState β) (calls : List (Custodian β × Call β)) : ApiState β :=
  calls.foldl (fun st x => (st.step x.1 x.2).2) st

/-- What every call of a run keeps, the run keeps. -/
theorem ApiState.Holds.runs {P : RecKey β → Record β → Prop} {st : ApiState β} (hst : st.Holds P)
    {calls : List (Custodian β × Call β)} (h : ∀ x ∈ calls, x.2.Keeps P x.1) :
    (st.runs calls).Holds P := by
  induction calls generalizing st with
  | nil => exact hst
  | cons x rest ih =>
    exact ih (hst.step (h x List.mem_cons_self)) fun y hy => h y (List.mem_cons_of_mem _ hy)

omit [Octet β] [DecidableEq β] [Sodium β] in
/-- A fresh state stores nothing. -/
theorem ApiState.holds_fresh (P : RecKey β → Record β → Prop) (opks : OpkPool β) :
    (ApiState.fresh opks).Holds P :=
  ⟨fun _ _ h => (nomatch h), fun _ h => (nomatch h)⟩

/-! ## The index of a user -/

/-- A user record sits under its own identifier, of an admissible length, and lists a device once.
-/
def IndexOk : RecKey β → Record β → Prop
  | .user id, .user u => u.userId = id ∧ 0 < id.length ∧ id.length ≤ userIdMax ∧
      (u.devices.map DeviceEntry.id).Nodup
  | _, _ => True

section Index

omit [Octet β] [Sodium β] in
/-- Inserting a device keeps the entries of a user distinct. -/
theorem nodup_gyUserDeviceInsert {u u' : UserRecord β} {deviceId : Bytes β} {ev : Option (Bytes β)}
    (hu : (u.devices.map DeviceEntry.id).Nodup)
    (h : gyUserDeviceInsert u deviceId = .ok (u', ev)) :
    u'.userId = u.userId ∧ (u'.devices.map DeviceEntry.id).Nodup := by
  -- appending a device that is not listed keeps the ids distinct
  have hsnoc : ∀ l : List (DeviceEntry β), l.Sublist u.devices → u.hasDevice deviceId = false →
      ((l ++ [(⟨deviceId, false⟩ : DeviceEntry β)]).map DeviceEntry.id).Nodup := by
    intro l hl hno
    rw [List.map_append, List.nodup_append]
    refine ⟨hu.sublist (hl.map _), List.nodup_singleton _, ?_⟩
    intro id hid id' hnew heq'
    obtain rfl := List.mem_singleton.mp hnew
    obtain ⟨e, he, heq⟩ := List.mem_map.mp hid
    have hall := List.any_eq_false.mp hno e (hl.subset he)
    exact hall (decide_eq_true (heq.trans heq'))
  unfold gyUserDeviceInsert at h
  split_ifs at h with hlen hhas hfull
  · split at h
    · cases h
    · obtain ⟨rfl, -⟩ := Prod.mk.inj (Except.ok.inj h)
      exact ⟨rfl, hsnoc _ List.eraseP_sublist (by simpa using hhas)⟩
  · obtain ⟨rfl, -⟩ := Prod.mk.inj (Except.ok.inj h)
    exact ⟨rfl, hsnoc _ (List.Sublist.refl _) (by simpa using hhas)⟩

omit [Octet β] [DecidableEq β] [Sodium β] in
/-- A user that is loaded is the one that was asked for, with distinct devices. -/
theorem keepsIndex_gyOpLoadUser (id : Bytes β) :
    Keeps IndexOk (fun v => ∀ u, v = some u → IndexOk (.user id) (.user u))
      (gyOpLoadUser id) := by
  refine Txn.Sat.bind (Txn.Sat.find _) fun v hv => ?_
  match v, hv with
  | none, _ => exact fun u hu => by cases hu
  | some (.user u), hv =>
    refine Txn.Sat.pure fun u' hu => ?_
    obtain rfl := Option.some.inj hu
    exact hv _ rfl
  | some (.device d), hv => trivial
  | some (.session s), hv => trivial

omit [Octet β] [DecidableEq β] [Sodium β] in
/-- A program that only loads keeps every kind. -/
theorem ReadOnly.keeps {α : Type} {P : RecKey β → Record β → Prop} {p : OpM β α}
    (hp : ReadOnly p) : Keeps P (fun _ => True) p := by
  induction p with
  | done a => trivial
  | fail e => trivial
  | load k next ih => exact fun x _ => ih x (hp x fun _ _ => trivial)
  | act a next ih => exact hp.1.elim

omit [Octet β] [DecidableEq β] [Sodium β] in
/-- Deleting sessions touches no user. -/
theorem keepsIndex_deleteSessions (ids : List (Bytes β)) :
    Keeps IndexOk (fun _ => True) (deleteSessions ids) := by
  induction ids with
  | nil => trivial
  | cons id rest ih => exact Txn.Sat.bind (Txn.Sat.perform trivial) fun _ _ => ih

omit [DecidableEq β] in
/-- A deferred deletion takes the device out of its user. -/
theorem keepsIndex_deferDeleteDeviceInner (userId deviceId : Bytes β) :
    Keeps IndexOk (fun _ => True) (deferDeleteDeviceInner userId deviceId) := by
  refine Txn.Sat.bind (ReadOnly.lift _).keeps fun dk (_ : True) => ?_
  refine Txn.Sat.bind (readOnly_gyOpLoadDeviceAny dk).keeps fun v _ => ?_
  cases v with
  | none => trivial
  | some dev =>
    exact Txn.Sat.bind (keepsIndex_deleteSessions _) fun _ _ => Txn.Sat.perform trivial

omit [Octet β] [DecidableEq β] [Sodium β] in
/-- Loading a device of one of the two kinds stages no change. -/
theorem readOnly_gyOpLoadDeviceOf (isHybrid : Bool) (key : Bytes β) :
    ReadOnly (gyOpLoadDeviceOf isHybrid key) := by
  refine (readOnly_gyOpLoadDeviceAny key).bind fun v => ?_
  cases v with
  | none => trivial
  | some d =>
    dsimp only
    split_ifs <;> trivial

omit [Octet β] [DecidableEq β] [Sodium β] in
/-- Loading a session stages no change, also when the fault is handed out. -/
theorem readOnly_gyOpTryLoadSession (id : Bytes β) : ReadOnly (gyOpTryLoadSession id) := by
  refine ReadOnly.bind (Txn.Sat.mono (Txn.Sat.attempt _) fun _ _ => trivial) fun v => ?_
  split <;> trivial

omit [Sodium β] in
/-- Pinning an identity decides what the device record becomes; it is stored later. -/
theorem readOnly_pinDevice (isHybrid report : Bool) (desc : SuiteDesc β) (deviceId : Bytes β)
    (ik : Identity β) (dk : Bytes β) :
    ReadOnly (pinDevice isHybrid report desc deviceId ik dk) := by
  refine (readOnly_gyOpLoadDeviceOf isHybrid dk).bind fun v => ?_
  cases v with
  | none => exact (ReadOnly.lift _).bind fun _ => trivial
  | some dev =>
    dsimp only
    split_ifs
    · trivial
    · exact (ReadOnly.lift _).bind fun _ => trivial
    · trivial
    · trivial

/-- The index a peer's device is entered into is in order. -/
theorem keepsIndex_indexDevice (desc : SuiteDesc β) {userId deviceId : Bytes β}
    (hids : idsOk userId deviceId = true) :
    Keeps IndexOk (fun u => IndexOk (.user userId) (.user u))
      (indexDevice desc userId deviceId) := by
  refine Txn.Sat.bind (keepsIndex_gyOpLoadUser userId) fun v hv => ?_
  have husr : IndexOk (.user userId)
      (.user (v.getD (gyUserRecordInit desc.suiteId userId))) := by
    -- a user that has no record gets an empty one
    cases v with
    | none =>
      simp only [idsOk, Bool.and_eq_true, Bool.not_eq_true', Bool.or_eq_false_iff,
        beq_eq_false_iff_ne,
        decide_eq_false_iff_not, Nat.not_lt] at hids
      exact ⟨rfl, Nat.pos_of_ne_zero hids.2.1, hids.2.2, List.nodup_nil⟩
    | some u => exact hv u rfl
  generalize v.getD (gyUserRecordInit desc.suiteId userId) = usr at husr
  dsimp only
  split_ifs
  · exact Txn.Sat.pure husr
  · refine Txn.Sat.bind (Txn.Sat.lift fun x hx => hx) fun x hx => ?_
    obtain ⟨hid, hnodup⟩ := nodup_gyUserDeviceInsert husr.2.2.2 hx
    refine Txn.Sat.bind (Q := fun _ => True) ?_ fun _ _ => Txn.Sat.pure ?_
    · cases x.2 with
      | none => trivial
      | some ev => exact keepsIndex_deferDeleteDeviceInner userId ev
    · exact ⟨hid.trans husr.1, husr.2.1, husr.2.2.1, hnodup⟩

/-- The conditional update lists the device once. -/
theorem keepsIndex_conditionalUpdateOf (isHybrid report : Bool) (desc : SuiteDesc β)
    (userId deviceId : Bytes β) (ik : Identity β) :
    Keeps IndexOk (fun _ => True)
      (conditionalUpdateOf isHybrid report desc userId deviceId ik) := by
  unfold conditionalUpdateOf
  split_ifs with hids
  · trivial
  · trivial
  · refine Txn.Sat.bind (ReadOnly.lift _).keeps fun dk (_ : True) => ?_
    refine Txn.Sat.bind (readOnly_pinDevice isHybrid report desc deviceId ik dk).keeps
      fun dev _ => ?_
    refine Txn.Sat.bind (keepsIndex_indexDevice desc (by simpa using hids)) fun usr husr => ?_
    refine Txn.Sat.bind (Txn.Sat.perform trivial) fun _ _ => Txn.Sat.perform ?_
    show IndexOk (.user usr.userId) (.user usr)
    rw [husr.1]
    exact husr

omit [DecidableEq β] in
/-- Accepting a key change keeps the entries of users distinct. -/
theorem keepsIndex_acceptKeyChangeOf (isHybrid : Bool) (desc : SuiteDesc β)
    (userId deviceId : Bytes β) (ik : Identity β) :
    Keeps IndexOk (fun _ => True) (acceptKeyChangeOf isHybrid desc userId deviceId ik) := by
  unfold acceptKeyChangeOf
  split_ifs
  · trivial
  · trivial
  · refine Txn.Sat.bind (ReadOnly.lift _).keeps fun dk (_ : True) => ?_
    refine Txn.Sat.bind (readOnly_gyOpLoadDeviceOf isHybrid dk).keeps fun v _ => ?_
    cases v with
    | none => trivial
    | some dev =>
      dsimp only
      split_ifs
      · trivial
      · refine Txn.Sat.bind (keepsIndex_deleteSessions _) fun _ _ => ?_
        exact Txn.Sat.bind (ReadOnly.lift _).keeps fun _ (_ : True) => Txn.Sat.perform trivial

/-- Inserting a session touches no user. -/
theorem keepsIndex_gyDeviceInsertSession (userId deviceId id : Bytes β) :
    Keeps IndexOk (fun _ => True) (gyDeviceInsertSession userId deviceId id) := by
  refine Txn.Sat.bind (ReadOnly.lift _).keeps fun dk (_ : True) => ?_
  refine Txn.Sat.bind (readOnly_gyOpLoadDeviceAny dk).keeps fun v _ => ?_
  cases v with
  | none => trivial
  | some dev =>
    refine Txn.Sat.bind (ReadOnly.lift _).keeps fun x (_ : True) => ?_
    refine Txn.Sat.bind (Q := fun _ => True) ?_ fun _ _ => Txn.Sat.perform trivial
    cases x.2 with
    | none => trivial
    | some ev => exact Txn.Sat.perform trivial

/-- Nor does activating one. -/
theorem keepsIndex_gyDeviceActivateSession (userId deviceId id : Bytes β) :
    Keeps IndexOk (fun _ => True) (gyDeviceActivateSession userId deviceId id) := by
  refine Txn.Sat.bind (ReadOnly.lift _).keeps fun dk (_ : True) => ?_
  refine Txn.Sat.bind (readOnly_gyOpLoadDeviceAny dk).keeps fun v _ => ?_
  cases v with
  | none => trivial
  | some dev =>
    exact Txn.Sat.bind (ReadOnly.lift _).keeps fun _ (_ : True) => Txn.Sat.perform trivial

omit [DecidableEq β] in
/-- Nor does an encryption. -/
theorem keepsIndex_gySendEncrypt (c : SendCtx β) (userId deviceId pt : Bytes β) (cap : Nat)
    (salt : Except GyErr (Bytes β)) :
    Keeps IndexOk (fun _ => True) (gySendEncrypt c userId deviceId pt cap salt) := by
  refine Txn.Sat.bind (ReadOnly.lift _).keeps fun dk (_ : True) => ?_
  refine Txn.Sat.bind (readOnly_gyOpLoadDeviceAny dk).keeps fun v _ => ?_
  split
  · trivial
  · refine Txn.Sat.bind (readOnly_gyOpLoadSession _).keeps fun v _ => ?_
    cases v with
    | none => trivial
    | some s =>
      dsimp only
      split_ifs
      · trivial
      · split
        · trivial
        · exact Txn.Sat.bind (Txn.Sat.perform trivial) fun _ _ => trivial

/-- An initiation touches users through its update only. -/
theorem keepsIndex_initiateWith {update : OpM β Unit}
    (hupdate : Keeps IndexOk (fun _ => True) update)
    (handshake : Except GyErr (Bytes β × Session β)) (patchLen : Bool)
    (userId deviceId pt : Bytes β) (cap : Nat) (salt : Except GyErr (Bytes β)) :
    Keeps IndexOk (fun _ => True)
      (initiateWith update handshake patchLen userId deviceId pt cap salt) := by
  refine Txn.Sat.bind hupdate fun _ _ => ?_
  refine Txn.Sat.bind (ReadOnly.lift _).keeps fun x (_ : True) => ?_
  refine Txn.Sat.bind (ReadOnly.lift _).keeps fun y (_ : True) => ?_
  refine Txn.Sat.bind (Q := fun _ => True) ?_ fun _ _ => trivial
  exact Txn.Sat.bind (Txn.Sat.perform trivial) fun _ _ => keepsIndex_gyDeviceInsertSession _ _ _

/-- Trying a session touches no user. -/
theorem keepsIndex_trySession (c : RecvCtx β) (userId deviceId id : Bytes β) (fromInactive : Bool)
    (frame : Bytes β) (cap : Nat) (rnd : RatchetRand β) :
    Keeps IndexOk (fun _ => True)
      (trySession c userId deviceId id fromInactive frame cap rnd) := by
  refine Txn.Sat.bind (readOnly_gyOpTryLoadSession id).keeps fun x _ => ?_
  match x with
  | .error e => trivial
  | .ok none => trivial
  | .ok (some s) =>
    dsimp only
    split
    · trivial
    · trivial
    · refine Txn.Sat.bind (Txn.Sat.perform trivial) fun _ _ => ?_
      refine Txn.Sat.bind (Q := fun _ => True) ?_ fun _ _ => trivial
      unfold activateIf
      split_ifs
      · exact keepsIndex_gyDeviceActivateSession _ _ _
      · trivial

/-- Nor does trying the inactive ones. -/
theorem keepsIndex_tryInactive (c : RecvCtx β) (userId deviceId frame : Bytes β) (cap : Nat)
    (rnd : RatchetRand β) (ids : List (Bytes β)) :
    Keeps IndexOk (fun _ => True) (tryInactive c userId deviceId frame cap rnd ids) := by
  induction ids with
  | nil => trivial
  | cons id rest ih =>
    refine Txn.Sat.bind (keepsIndex_trySession c userId deviceId id true frame cap rnd)
      fun x _ => ?_
    cases x with
    | ok pt => trivial
    | error e => exact ih

/-- Nor does receiving a frame. -/
theorem keepsIndex_recvDr (c : RecvCtx β) (userId deviceId frame : Bytes β) (cap : Nat)
    (rnd : RatchetRand β) :
    Keeps IndexOk (fun _ => True) (recvDr c userId deviceId frame cap rnd) := by
  refine Txn.Sat.bind (ReadOnly.lift _).keeps fun dk (_ : True) => ?_
  refine Txn.Sat.bind (readOnly_gyOpLoadDeviceAny dk).keeps fun v _ => ?_
  cases v with
  | none => trivial
  | some dev =>
    dsimp only
    split
    · exact keepsIndex_tryInactive c userId deviceId frame cap rnd _
    · refine Txn.Sat.bind (keepsIndex_trySession c userId deviceId _ false frame cap rnd)
        fun x _ => ?_
      cases x with
      | ok pt => trivial
      | error e => exact keepsIndex_tryInactive c userId deviceId frame cap rnd _

/-- Receiving an initial message lists the sender's device once. -/
theorem keepsIndex_recvInitOf (isHybrid : Bool) (c : RecvCtx β) (userId deviceId : Bytes β)
    (m : InitMsg β) (respond : Except GyErr (Session β × OpkRef)) (cap : Nat)
    (rnd : RatchetRand β) :
    Keeps IndexOk (fun _ => True)
      (recvInitOf isHybrid c userId deviceId m respond cap rnd) := by
  unfold recvInitOf
  split
  · trivial
  · refine Txn.Sat.bind (ReadOnly.lift _).keeps fun dk (_ : True) => ?_
    refine Txn.Sat.bind (readOnly_gyOpLoadDeviceOf isHybrid dk).keeps fun v _ => ?_
    split
    · refine Txn.Sat.bind (keepsIndex_trySession c userId deviceId _ _ m.frame cap rnd)
        fun x _ => ?_
      exact (ReadOnly.lift _).keeps
    · refine Txn.Sat.bind (keepsIndex_conditionalUpdateOf _ _ _ _ _ _) fun _ _ => ?_
      split
      · trivial
      · split
        · trivial
        · refine Txn.Sat.bind (Q := fun _ => True) ?_ fun _ _ => trivial
          refine Txn.Sat.bind (Txn.Sat.perform trivial) fun _ _ => ?_
          refine Txn.Sat.bind (keepsIndex_gyDeviceInsertSession _ _ _) fun _ _ => ?_
          unfold consumeOpkRef
          split
          · exact Txn.Sat.perform trivial
          · trivial

/-- Receiving keeps the entries of users distinct. -/
theorem keepsIndex_receiveProg (c : Custodian β) (now : Option UInt64) (opks : OpkPool β)
    (userId deviceId msg : Bytes β) (cap : Nat) (rnd : RatchetRand β) :
    Keeps IndexOk (fun _ => True) (receiveProg c now opks userId deviceId msg cap rnd) := by
  obtain ⟨m, respond, -, h⟩ | ⟨-, ⟨e, h⟩ | ⟨frame, h⟩⟩ :=
    receiveProg_cases c now opks userId deviceId msg cap rnd
  · rw [h]
    exact keepsIndex_recvInitOf _ _ _ _ _ _ _ _
  · rw [h]
    trivial
  · rw [h]
    exact keepsIndex_recvDr _ _ _ _ _ _

omit [DecidableEq β] in
/-- So does accepting an identity. -/
theorem keepsIndex_acceptProg (c : Custodian β) (userId deviceId : Bytes β)
    (bundle : ParsedBundle β) :
    Keeps IndexOk (fun _ => True) (acceptProg c userId deviceId bundle) := by
  unfold acceptProg gyAcceptKeyChange gyHybridAcceptKeyChange
  split
  · trivial
  · split_ifs
    · trivial
    · exact keepsIndex_acceptKeyChangeOf _ _ _ _ _
  · split_ifs
    · trivial
    · exact keepsIndex_acceptKeyChangeOf _ _ _ _ _
    · trivial

/-- So does deleting a device. -/
theorem keepsIndex_gyDeleteDevice (userId deviceId : Bytes β) :
    Keeps IndexOk (fun _ => True) (gyDeleteDevice userId deviceId) := by
  unfold gyDeleteDevice
  split_ifs
  · trivial
  · refine Txn.Sat.bind (keepsIndex_deferDeleteDeviceInner userId deviceId) fun _ _ => ?_
    refine Txn.Sat.bind (keepsIndex_gyOpLoadUser userId) fun v hv => ?_
    cases v with
    | none => trivial
    | some usr =>
      obtain ⟨hid, hpos, hle, hnodup⟩ := hv usr rfl
      dsimp only
      split
      · trivial
      · next u hu =>
        unfold gyUserDeviceRemove at hu
        split_ifs at hu
        obtain rfl := Option.some.inj hu
        -- the record is written back with one device less
        refine Txn.Sat.perform ?_
        show IndexOk (.user usr.userId)
          (.user { usr with devices := usr.devices.eraseP fun e => e.id = deviceId })
        rw [hid]
        exact ⟨rfl, hpos, hle, hnodup.sublist (List.eraseP_sublist.map _)⟩

/-- Every call keeps the indexes in order. -/
theorem keepsIndex_call (c : Custodian β) (call : Call β) : call.Keeps IndexOk c := by
  -- the calls that write a user record, one at a time
  cases call with
  | encrypt fault userId deviceId pt cap salt =>
    intro p hp
    unfold encryptProg at hp
    split_ifs at hp
    obtain rfl := Except.ok.inj hp
    exact Txn.Sat.bind (keepsIndex_gySendEncrypt _ _ _ _ _ _) fun _ _ => trivial
  | initiate fault report userId deviceId bundle pt cap rnd =>
    intro p hp
    obtain ⟨ik, rfl⟩ := initiateProg_eq hp
    refine Txn.Sat.bind (keepsIndex_initiateWith ?_ _ _ _ _ _ _ _) fun _ _ => trivial
    exact keepsIndex_conditionalUpdateOf _ _ _ _ _ _
  | receive faults now userId deviceId msg cap rnd =>
    exact fun opks => keepsIndex_receiveProg c now opks userId deviceId msg cap rnd
  | acceptIdentity faults userId deviceId bundle => exact keepsIndex_acceptProg c _ _ _
  | purgeDevice faults userId deviceId => exact keepsIndex_gyDeleteDevice _ _
  | purgeUser faults userId =>
    exact fun d hd => holds_gyDeleteUser faults userId (keepsIndex_deferDeleteDeviceInner userId) hd
  | sendOpen | prepare | commit | rollback => trivial

end Index

/-! ## Every stored session can send -/

section Sessions

omit [DecidableEq β] [Sodium β] in
/-- The session of a handshake is of the custodian's suite. -/
theorem desc_handshake {c : Custodian β} {bundle : ParsedBundle β} {rnd : InitiateRand β}
    {pre : Bytes β} {s : Session β} (h : c.handshake bundle rnd = .ok (pre, s)) :
    s.desc = c.desc := by
  have hsend : c.send.desc = c.desc := rfl
  -- naming a session does not change its suite
  have hid : ∀ {ikA ekA : PublicKey β} {t t' : Session β},
      gySessionId c.desc ikA ekA t = .ok t' → t'.desc = t.desc := by
    intro ikA ekA t t' ht
    obtain ⟨base, -, ht⟩ := Except.bind_eq_ok_iff.mp ht
    obtain rfl := Except.ok.inj ht
    rfl
  cases bundle with
  | malformed e => cases h
  | classical b =>
    obtain ⟨ek, -, h⟩ := Except.bind_eq_ok_iff.mp h
    obtain ⟨x, -, h⟩ := Except.bind_eq_ok_iff.mp h
    obtain ⟨dr, -, h⟩ := Except.bind_eq_ok_iff.mp h
    obtain ⟨s', hs, h⟩ := Except.bind_eq_ok_iff.mp h
    obtain ⟨-, rfl⟩ := Prod.mk.inj (Except.ok.inj h)
    exact hid hs
  | hybrid b =>
    obtain ⟨ek, -, h⟩ := Except.bind_eq_ok_iff.mp h
    obtain ⟨x, -, h⟩ := Except.bind_eq_ok_iff.mp h
    obtain ⟨dr, -, h⟩ := Except.bind_eq_ok_iff.mp h
    obtain ⟨s', hs, h⟩ := Except.bind_eq_ok_iff.mp h
    obtain ⟨-, rfl⟩ := Prod.mk.inj (Except.ok.inj h)
    exact hid hs

/-- A responder's session before its first message: of the custodian's suite, with no remote ratchet
key and no skipped keys. -/
structure Session.Unopened (desc : SuiteDesc β) (s : Session β) : Prop where
  desc : s.desc = desc
  haveDhr : s.ratchet.base.haveDhr = false
  skipped : s.ratchet.base.skipped.ent = []

omit [DecidableEq β] [Sodium β] in
/-- A session made by responding has not received anything. -/
theorem unopened_respondSession {c : RecvCtx β} {opks : OpkPool β} {inner : Bytes β}
    {s : Session β} {opkRef : OpkRef} (h : respondSession c opks inner = .ok (s, opkRef)) :
    s.Unopened c.desc := by
  unfold respondSession at h
  split at h
  · cases h
  · split at h
    · cases h
    · obtain ⟨rfl, -⟩ := Prod.mk.inj (Except.ok.inj h)
      exact ⟨rfl, rfl, rfl⟩

omit [DecidableEq β] [Sodium β] in
/-- Nor has a hybrid one. -/
theorem unopened_respondHybridSession {c : RecvCtx β} {hik : HybridIdentityPair β}
    {hspks : List (HybridSignedPrekey β)} {opks : OpkPool β} {idEk inner : Bytes β}
    {s : Session β} {opkRef : OpkRef}
    (h : respondHybridSession c hik hspks opks idEk inner = .ok (s, opkRef)) :
    s.Unopened c.desc := by
  unfold respondHybridSession at h
  split at h
  · cases h
  · next spk r _ =>
    split at h
    · cases h
    · next dr hdr =>
      obtain ⟨rfl, -⟩ := Prod.mk.inj (Except.ok.inj h)
      unfold gyHybridDrInitBob at hdr
      split_ifs at hdr
      obtain rfl := Except.ok.inj hdr
      exact ⟨rfl, rfl, rfl⟩

omit [DecidableEq β] [Sodium β] in
/-- So the session of an initial message is unopened on either engine. -/
theorem unopened_initiation {c : Custodian β} {now : Option UInt64} {opks : OpkPool β}
    {msg : Bytes β} {m : InitMsg β} {s : Session β} {opkRef : OpkRef}
    (h : c.initiation now opks msg = some (m, .ok (s, opkRef))) : s.Unopened c.desc := by
  have hdesc : (c.recv now).desc = c.desc := by
    unfold Custodian.recv
    split <;> rfl
  rw [← hdesc]
  unfold Custodian.initiation at h
  split at h
  · cases h
  · split_ifs at h
    · obtain ⟨x, -, hx⟩ := Option.map_eq_some_iff.mp h
      exact unopened_respondHybridSession (Prod.mk.inj hx).2
    · obtain ⟨x, -, hx⟩ := Option.map_eq_some_iff.mp h
      exact unopened_respondSession (Prod.mk.inj hx).2

/-- Every call keeps the sessions able to send. -/
theorem keepsCanSend_call (c : Custodian β) (call : Call β) :
    call.Keeps (Stored (Session.CanSend c.desc)) c := by
  cases call with
  | encrypt fault userId deviceId pt cap salt =>
    refine fun p => keeps_encryptProg c _ _ _ _ _ fun s ct s' hs henc => ?_
    have hnext := canSend_of_sessEncrypt henc
    rw [hs.1] at hnext
    exact hnext
  | initiate fault report userId deviceId bundle pt cap rnd =>
    refine fun p => keeps_initiateProg c _ _ _ _ _ _ _ fun pre s msg s' hand hemit => ?_
    obtain ⟨frame, t, henc, -, rfl, -⟩ := emitInitial_same hemit
    have hnext := canSend_of_sessEncrypt henc
    rw [desc_handshake hand] at hnext
    exact hnext
  | receive faults now userId deviceId msg cap rnd =>
    intro opks
    refine keeps_receiveProg c now opks userId deviceId msg cap rnd ?_ ?_
    · intro frame s pt s' hs hdec
      have hnext := canSend_of_sessDecrypt (.inl (hs.1.symm ▸ hs)) hdec
      rw [hs.1] at hnext
      exact hnext
    -- a session that answers a first message has no remote key yet, so it ratchets first
    · rintro m _ base s opkRef pt b s' hinit - rfl hdec
      have hfresh := unopened_initiation hinit
      generalize ht : ({ s with base := base, id := sessionIdOf base } : Session β) = t at hdec
      have hd : t.desc = c.desc := by rw [← ht, ← hfresh.desc]
      have hr : t.ratchet = s.ratchet := by rw [← ht]
      have hnext := canSend_of_sessDecrypt
        (.inr ⟨by rw [hr, hfresh.haveDhr], by rw [hr, hfresh.skipped]⟩) hdec
      rw [hd] at hnext
      exact hnext
  | acceptIdentity faults userId deviceId bundle => exact keeps_acceptProg c _ _ _
  | purgeDevice faults userId deviceId => exact keeps_gyDeleteDevice _ _
  | purgeUser faults userId =>
    exact fun d hd => holds_gyDeleteUser faults userId (keeps_deferDeleteDeviceInner userId) hd
  | sendOpen | prepare | commit | rollback => trivial

end Sessions

/-! ## Loads of records in order -/

section Loads

variable {S : Session β → Prop} {d : Disk β} {op : Op β} {fault : RecKey β → Option GyErr}

omit [Octet β] [Sodium β] in
/-- A load fails only where the load callback does. -/
theorem answer_error {k : RecKey β} {e : GyErr}
    (h : Txn.answer engine (d.view fault) op k = .error e) : fault k = some e := by
  unfold Txn.answer at h
  split at h
  · cases h
  · unfold Disk.view at h
    split at h
    · next e' he =>
      obtain rfl := Except.error.inj h
      exact he
    · cases h

omit [Octet β] [Sodium β] in
/-- A record that is found is of the kind of the store and of the stage. -/
theorem answer_ok {P : RecKey β → Record β → Prop} (hd : d.Holds P) (hop : op.Holds P)
    {k : RecKey β} {r : Record β} (h : Txn.answer engine (d.view fault) op k = .ok (some r)) :
    P k r := by
  unfold Txn.answer at h
  split at h
  · next v hv =>
    obtain rfl := Except.ok.inj h
    exact hop _ (mem_of_stageLookup hv)
  · exact hd k r (Disk.view_ok h).symm

omit [Octet β] [Sodium β] in
/-- Loading a user fails as its load callback does, and in no other way. -/
theorem loadUser_error (hd : d.Holds (Stored S)) (hop : op.Holds (Stored S)) {id : Bytes β}
    {e : GyErr} (h : ((gyOpLoadUser id).run engine (d.view fault) op).1 = .error e) :
    fault (.user id) = some e := by
  simp only [gyOpLoadUser, Txn.run_bind, Txn.run_find, Cmd.bind_apply] at h
  rcases hans : Txn.answer engine (d.view fault) op (.user id) with e' | v
  · rw [hans] at h
    obtain rfl := Except.error.inj h
    exact answer_error hans
  · rw [hans] at h
    match v, hans, h with
    | none, _, h => cases h
    | some (.user u), _, h => cases h
    | some (.device dev), hans, _ => exact (answer_ok hd hop hans).elim
    | some (.session s), hans, _ => exact (answer_ok hd hop hans).elim

omit [Octet β] [Sodium β] in
/-- So does loading a device. -/
theorem loadDevice_error (hd : d.Holds (Stored S)) (hop : op.Holds (Stored S)) {key : Bytes β}
    {e : GyErr} (h : ((gyOpLoadDeviceAny key).run engine (d.view fault) op).1 = .error e) :
    fault (.device key) = some e := by
  simp only [gyOpLoadDeviceAny, Txn.run_bind, Txn.run_find, Cmd.bind_apply] at h
  rcases hans : Txn.answer engine (d.view fault) op (.device key) with e' | v
  · rw [hans] at h
    obtain rfl := Except.error.inj h
    exact answer_error hans
  · rw [hans] at h
    match v, hans, h with
    | none, _, h => cases h
    | some (.device dev), _, h => cases h
    | some (.user u), hans, _ => exact (answer_ok hd hop hans).elim
    | some (.session s), hans, _ => exact (answer_ok hd hop hans).elim

omit [Octet β] [Sodium β] in
/-- So does loading a session. -/
theorem loadSession_error (hd : d.Holds (Stored S)) (hop : op.Holds (Stored S)) {id : Bytes β}
    {e : GyErr} (h : ((gyOpLoadSession id).run engine (d.view fault) op).1 = .error e) :
    fault (.session id) = some e := by
  simp only [gyOpLoadSession, gyOpTryLoadSession, Txn.run_bind, Txn.run_attempt, Cmd.bind_apply,
    Txn.run_lift] at h
  rcases hans : Txn.answer engine (d.view fault) op (.session id) with e' | v
  · rw [hans] at h
    obtain rfl := Except.error.inj h
    exact answer_error hans
  · rw [hans] at h
    match v, hans, h with
    | none, _, h => cases h
    | some (.session s), _, h => cases h
    | some (.user u), hans, _ => exact (answer_ok hd hop hans).elim
    | some (.device dev), hans, _ => exact (answer_ok hd hop hans).elim

/-- The session of a device with an admissible identifier is found unless a load fails. -/
theorem loadActive_error (hd : d.Holds (Stored S)) (hop : op.Holds (Stored S))
    {userId deviceId dk : Bytes β} (hdk : gyDevrecKey userId deviceId = .ok dk) {e : GyErr}
    (h : ((loadActive userId deviceId).run engine (d.view fault) op).1 = .error e) :
    ∃ k, fault k = some e := by
  simp only [loadActive, Txn.run_bind, Txn.run_lift, Cmd.bind_apply, hdk] at h
  rw [(readOnly_gyOpLoadDeviceAny dk).run_eq] at h
  rcases hdev : ((gyOpLoadDeviceAny dk).run engine (d.view fault) op).1 with e' | dev
  · rw [hdev] at h
    obtain rfl := Except.error.inj h
    exact ⟨_, loadDevice_error hd hop hdev⟩
  · rw [hdev] at h
    dsimp only at h
    cases hact : dev.bind DeviceRecord.active with
    | none =>
      rw [hact] at h
      cases h
    | some id =>
      rw [hact] at h
      exact ⟨_, loadSession_error hd hop h⟩

omit [DecidableEq β] in
/-- The session of a device sits under its own identifier and is of the kind of the sessions. -/
theorem keeps_loadActive (userId deviceId : Bytes β) :
    Keeps (Stored S) (fun v => ∀ s, v = some s → S s) (loadActive userId deviceId) := by
  refine Txn.Sat.bind (ReadOnly.lift _).keeps fun dk (_ : True) => ?_
  refine Txn.Sat.bind (readOnly_gyOpLoadDeviceAny dk).keeps fun v _ => ?_
  split
  · exact fun s hs => by cases hs
  · exact (keeps_gyOpLoadSession _).mono fun v hv s hs => (hv s hs).2.2.2

end Loads

/-! ## Agreement -/

section Agreement

/-- There is a slot for a session in the stage: its own, or a free one. -/
def Op.HasSlot (op : Op β) (id : Bytes β) : Prop :=
  (∃ e ∈ op.sess, e.1 = .session id) ∨ op.sess.length < opMaxSessions

omit [Octet β] [Sodium β] in
/-- A session is staged if there is a slot for it, and refused otherwise. -/
theorem gyOpPutSession_run {view : RecKey β → Except GyErr (Option (Record β))} (op : Op β)
    (s : Session β) :
    (op.HasSlot s.id → ∃ op', (gyOpPutSession s).run engine view op = (.ok (), op')) ∧
      (¬ op.HasSlot s.id → (gyOpPutSession s).run engine view op = (.error .state, op)) := by
  have hany : (op.sess.any fun e => decide (e.1 = .session s.id)) = true ↔
      ∃ e ∈ op.sess, e.1 = .session s.id := by
    simp only [List.any_eq_true, decide_eq_true_eq]
  rw [gyOpPutSession, Txn.run_perform]
  constructor
  -- a slot of the same session, or room for one more
  · intro hslot
    simp only [engine, stageAct, slotPut]
    split_ifs with h1 h2
    · exact ⟨_, rfl⟩
    · exact ⟨_, rfl⟩
    · rcases hslot with h | h
      · exact absurd (hany.mpr h) h1
      · exact absurd h h2
  · intro hno
    rw [Op.HasSlot, not_or, ← hany] at hno
    simp only [engine, stageAct, slotPut, if_neg hno.1, if_neg hno.2]
    rfl

/-- What the descriptor of a device says about the next `gy_send_encrypt` to it, in the same
transaction state. A message goes through if there is a slot for its session, and is refused
otherwise, as long as no primitive fails. -/
def SendAgrees (c : SendCtx β) (view : RecKey β → Except GyErr (Option (Record β))) (op : Op β)
    (d : SendDesc β) : Prop :=
  ∀ pt cap salt,
    let res := (gySendEncrypt c d.userId d.deviceId pt cap salt).run engine view op
    match d.status with
    | .needsBundle => res = (.error .state, op)
    | .stale => res = (.error .expired, op)
    | .message => WorkingSuite c.desc → gySendSize c.desc pt.length ≤ cap → ∀ b, salt = .ok b →
        ∃ s, ((loadActive d.userId d.deviceId).run engine view op).1 = .ok (some s) ∧
          (op.HasSlot s.id → ∃ ct op', res = (.ok ct, op')) ∧
          (¬ op.HasSlot s.id → res = (.error .state, op))

omit [DecidableEq β] in
/-- An encryption on a session that can send and has not expired stages it. -/
theorem encryptOn_run [DecidableEq β] {desc : SuiteDesc β} (W : WorkingSuite desc)
    {cfg : ExpiryCfg} {s : Session β} (hs : s.CanSend desc)
    (hfresh : gySessionExpired cfg s = false)
    {pt : Bytes β} {cap : Nat} (hcap : gySendSize desc pt.length ≤ cap) (b : Bytes β)
    {view : RecKey β → Except GyErr (Option (Record β))} (op : Op β) :
    (op.HasSlot s.id →
      ∃ ct op', (encryptOn cfg pt cap (.ok b) (some s)).run engine view op = (.ok ct, op')) ∧
    (¬ op.HasSlot s.id →
      (encryptOn cfg pt cap (.ok b) (some s)).run engine view op = (.error .state, op)) := by
  obtain ⟨ct, s', henc⟩ := hs.sessEncrypt_ok W hcap b
  -- the ratchet keeps the session's id, so the slot is the one asked for
  have hid : s'.id = s.id := by
    have hsame := sessEncrypt_same cap pt (.ok b) s
    rw [henc] at hsame
    exact hsame.id
  have hput : (op.HasSlot s'.id → ∃ op', (gyOpPutSession { s' with nsend := s'.nsend + 1 }).run
        engine view op = (.ok (), op')) ∧
      (¬ op.HasSlot s'.id → (gyOpPutSession { s' with nsend := s'.nsend + 1 }).run engine view op =
        (.error .state, op)) :=
    gyOpPutSession_run op { s' with nsend := s'.nsend + 1 }
  rw [← hid]
  simp only [encryptOn, hfresh, henc, Bool.false_eq_true, if_false, Txn.run_bind, Cmd.bind_apply]
  constructor
  · intro hslot
    obtain ⟨op', hop'⟩ := hput.1 hslot
    rw [hop']
    exact ⟨ct, op', rfl⟩
  · intro hno
    rw [hput.2 hno]

/-- A descriptor agrees with the encryption to its device. -/
theorem sendAgrees_of_status {desc : SuiteDesc β} {c : SendCtx β} (hc : c.desc = desc)
    {view : RecKey β → Except GyErr (Option (Record β))} {op : Op β} {d : SendDesc β}
    {v : Option (Session β)}
    (hload : ((loadActive d.userId d.deviceId).run engine view op).1 = .ok v)
    (hv : ∀ s, v = some s → s.CanSend desc) (hst : d.status = statusOf c.expiry v) :
    SendAgrees c view op d := by
  intro pt cap salt
  dsimp only
  rw [gySendEncrypt_run, hload, hst]
  -- the status says what the load found
  cases v with
  | none => rfl
  | some s =>
    simp only [statusOf]
    cases hexp : gySessionExpired c.expiry s with
    | true =>
      rw [if_pos rfl]
      dsimp only
      rw [encryptOn, if_pos hexp]
      rfl
    | false =>
      rw [if_neg Bool.false_ne_true]
      dsimp only
      rintro W hcap b rfl
      rw [hc] at W hcap
      exact ⟨s, rfl, encryptOn_run W (hv s rfl) hexp hcap b op⟩

end Agreement

/-! ## What a plan lists -/

section Plan

variable {c : SendCtx β} {view : RecKey β → Except GyErr (Option (Record β))} {op : Op β}

/-- The device of a descriptor. -/
def SendDesc.device (d : SendDesc β) : Bytes β × Bytes β := (d.userId, d.deviceId)

/-- The devices a plan lists for a user. -/
def listedOf (c : SendCtx β) (view : RecKey β → Except GyErr (Option (Record β))) (op : Op β)
    (userId : Bytes β) : List (Bytes β × Bytes β) :=
  match ((gyOpLoadUser userId).run engine view op).1 with
  | .error _ => []
  | .ok u => (plannedOf c userId u).map fun e => (userId, e.id)

/-- The record of the user lists the device. -/
def Lists (view : RecKey β → Except GyErr (Option (Record β))) (op : Op β)
    (userId deviceId : Bytes β) : Prop :=
  ∃ usr, ((gyOpLoadUser userId).run engine view op).1 = .ok (some usr) ∧
    deviceId ∈ usr.devices.map DeviceEntry.id

omit [Octet β] [Sodium β] in
/-- The devices listed for a user: those of the record, the sender's own apart. -/
theorem mem_listedOf {userId : Bytes β} {x : Bytes β × Bytes β} :
    x ∈ listedOf c view op userId ↔
      x.1 = userId ∧ Lists view op userId x.2 ∧
        ¬ (x.1 = c.selfUserId ∧ x.2 = c.selfDeviceId) := by
  unfold listedOf Lists
  rcases hload : ((gyOpLoadUser userId).run engine view op).1 with e | _ | usr
  · simp
  · simp [plannedOf]
  · simp only [plannedOf, Option.elim_some, List.mem_map, List.mem_filter, SendCtx.includes,
      Bool.not_eq_true', decide_eq_false_iff_not, Except.ok.injEq, Option.some.injEq,
      exists_eq_left']
    constructor
    · rintro ⟨e, ⟨he, hself⟩, rfl⟩
      exact ⟨rfl, ⟨e, he, rfl⟩, fun h => hself ⟨h.1.symm, h.2.symm⟩⟩
    · rintro ⟨rfl, ⟨e, he, hid⟩, hself⟩
      refine ⟨e, ⟨he, fun h => hself ⟨h.1.symm, ?_⟩⟩, Prod.ext rfl hid⟩
      rw [← hid, h.2]

/-- The descriptors of a user: the devices its record lists, each with the status of its session. -/
theorem planUser_ok {userId : Bytes β} {l : List (SendDesc β)}
    (h : planUser c view op userId = .ok l) :
    l.map SendDesc.device = listedOf c view op userId ∧
      ∀ d ∈ l, ∃ v, ((loadActive d.userId d.deviceId).run engine view op).1 = .ok v ∧
        d.status = statusOf c.expiry v := by
  obtain ⟨u, hu, hl⟩ := Except.bind_eq_ok_iff.1 h
  have hall := Except.mapM'_eq_ok_iff.1 hl
  rw [listedOf, hu]
  dsimp only
  clear h hl
  -- on the entries of the user's index
  generalize plannedOf c userId u = es at hall ⊢
  induction hall with
  | nil => exact ⟨rfl, fun d hd => by cases hd⟩
  | @cons e d es ds hd _ ih =>
    rw [planDevice] at hd
    rcases hload : ((loadActive userId e.id).run engine view op).1 with err | v
    · rw [hload] at hd
      cases hd
    · rw [hload] at hd
      obtain rfl := Except.ok.inj hd
      refine ⟨?_, fun d' hd' => ?_⟩
      · rw [List.map_cons, List.map_cons, ih.1]
        rfl
      · rcases List.mem_cons.1 hd' with rfl | hmem
        · exact ⟨v, hload, rfl⟩
        · exact ih.2 d' hmem

/-- The descriptors of a plan, user by user. -/
theorem prepareTargets_ok {targets : List (Bytes β)} {descs : List (SendDesc β)}
    (h : (targets.mapM' (planUser c view op)).map List.flatten = .ok descs) :
    descs.map SendDesc.device = targets.flatMap (listedOf c view op) ∧
      ∀ d ∈ descs, ∃ v, ((loadActive d.userId d.deviceId).run engine view op).1 = .ok v ∧
        d.status = statusOf c.expiry v := by
  rcases hm : targets.mapM' (planUser c view op) with e | ls
  · rw [hm] at h
    cases h
  · rw [hm] at h
    obtain rfl := Except.ok.inj h
    have hall := Except.mapM'_eq_ok_iff.1 hm
    clear h hm
    -- on the targets
    induction hall with
    | nil => exact ⟨rfl, fun d hd => by cases hd⟩
    | cons hu _ ih =>
      obtain ⟨hdev, hst⟩ := planUser_ok hu
      refine ⟨?_, fun d hd => ?_⟩
      · rw [List.flatten_cons, List.map_append, List.flatMap_cons, hdev, ih.1]
      · rw [List.flatten_cons] at hd
        rcases List.mem_append.1 hd with h1 | h1
        · exact hst d h1
        · exact ih.2 d h1

omit [Octet β] [Sodium β] in
/-- Distinct users with orderly indexes have distinct devices. -/
theorem nodup_flatMap_listedOf {targets : List (Bytes β)} (hnodup : targets.Nodup)
    (hindex : ∀ userId usr, ((gyOpLoadUser userId).run engine view op).1 = .ok (some usr) →
      (usr.devices.map DeviceEntry.id).Nodup) :
    (targets.flatMap (listedOf c view op)).Nodup := by
  rw [List.nodup_flatMap]
  refine ⟨fun userId _ => ?_, hnodup.imp fun hne => ?_⟩
  · unfold listedOf
    rcases hload : ((gyOpLoadUser userId).run engine view op).1 with e | _ | usr
    · exact List.nodup_nil
    · exact List.nodup_nil
    · have hids := hindex userId usr hload
      have hsub : ((usr.devices.filter (c.includes userId)).map DeviceEntry.id).Nodup :=
        hids.sublist (List.filter_sublist.map _)
      have hpair := hsub.map (f := fun id => (userId, id)) fun a b hab => (Prod.mk.inj hab).2
      rwa [List.map_map] at hpair
  · intro x hx hx'
    exact hne ((mem_listedOf.1 hx).1.symm.trans (mem_listedOf.1 hx').1)

end Plan

/-! ## Every run -/

/-- Records of users and devices in order, and sessions that can send. -/
structure Planned (desc : SuiteDesc β) (st : ApiState β) : Prop where
  sessions : st.Holds (Stored (Session.CanSend desc))
  index : st.Holds IndexOk

/-- Every store a suite's custodians reach is of that kind. -/
theorem planned_runs {desc : SuiteDesc β} (opks : OpkPool β) {calls : List (Custodian β × Call β)}
    (hdesc : ∀ x ∈ calls, x.1.desc = desc) :
    Planned desc ((ApiState.fresh opks).runs calls) where
  sessions := (ApiState.holds_fresh _ opks).runs fun x hx => hdesc x hx ▸ keepsCanSend_call x.1 x.2
  index := (ApiState.holds_fresh _ opks).runs fun x _ => keepsIndex_call x.1 x.2

section Plans

variable {desc : SuiteDesc β} {st : ApiState β} {op : Op β} {fault : RecKey β → Option GyErr}

/-- A plan fails only where a load fails. -/
theorem planUser_error (hst : Planned desc st) (hop : st.tx = some op) {c : SendCtx β}
    {userId : Bytes β} {e : GyErr}
    (h : planUser c (st.disk.view fault) op userId = .error e) : ∃ k, fault k = some e := by
  have hd := hst.sessions.1
  have ho := hst.sessions.2 op hop
  unfold planUser at h
  rcases hload : ((gyOpLoadUser userId).run engine (st.disk.view fault) op).1 with e' | u
  · rw [hload] at h
    obtain rfl := Except.error.inj h
    exact ⟨_, loadUser_error hd ho hload⟩
  · rw [hload] at h
    obtain ⟨dev, hmem, hdev⟩ := Except.exists_of_mapM'_error h
    -- the identifiers of a listed device have admissible lengths, so its key can be derived
    obtain ⟨usr, rfl⟩ : ∃ usr, u = some usr := by
      cases u with
      | none => cases hmem
      | some usr => exact ⟨usr, rfl⟩
    have huser := ((keeps_gyOpLoadUser userId).run hd fault ho).2 _ hload usr rfl
    have hidx := ((keepsIndex_gyOpLoadUser userId).run hst.index.1 fault
      (hst.index.2 op hop)).2 _ hload usr rfl
    have hlen := huser.2 dev (List.mem_of_mem_filter hmem)
    obtain ⟨dk, hdk⟩ : ∃ dk, gyDevrecKey userId dev.id = .ok dk := by
      refine ⟨_, if_neg ?_⟩
      obtain ⟨-, hpos, hle, -⟩ := hidx
      omega
    unfold planDevice at hdev
    rcases hact : ((loadActive userId dev.id).run engine (st.disk.view fault) op).1 with e' | v
    · rw [hact] at hdev
      obtain rfl := Except.error.inj hdev
      exact loadActive_error hd ho hdk hact
    · rw [hact] at hdev
      cases hdev

/-- What `gy_send_prepare` reports of a plan to an array of a size, or to no array. -/
def reportOf (descs : List (SendDesc β)) (cap : Option Nat) : PrepareReport β :=
  match cap with
  | none => ⟨.ok (), descs.length, []⟩
  | some n => ⟨if n < descs.length then .error .arg else .ok (), descs.length, descs.take n⟩

/-- The run of a plan: the plans of the targets in a row, reported to the array. -/
theorem gySendPrepareReport_run {c : SendCtx β} {targets : List (Bytes β)} {cap : Option Nat}
    {view : RecKey β → Except GyErr (Option (Record β))} :
    (gySendPrepareReport c targets cap).run engine view op =
      (((targets.mapM' (planUser c view op)).map List.flatten).map fun descs =>
        reportOf descs cap, op) := by
  rw [gySendPrepareReport, Txn.run_bind, Cmd.bind_apply, prepareTargets_run]
  cases (targets.mapM' (planUser c view op)).map List.flatten with
  | error e => rfl
  | ok descs => cases cap <;> rfl

end Plans

/-- Plans agree with sends. In every store the custodians of a suite reach, with an open send
transaction, a plan for distinct users either fails as a load callback did, or has one descriptor
for each device that the record of a target lists, the sender's own apart, and what it says of a
device is what the next `gy_send_encrypt` to it does. A too small array takes the first descriptors
and is reported with their number. A plan never changes the transaction. -/
theorem fanout_agrees {desc : SuiteDesc β} (opks : OpkPool β)
    (calls : List (Custodian β × Call β)) (hdesc : ∀ x ∈ calls, x.1.desc = desc)
    (c : Custodian β) (hc : c.desc = desc) {op : Op β}
    (htx : ((ApiState.fresh opks).runs calls).tx = some op) {targets : List (Bytes β)}
    (hnodup : targets.Nodup) (fault : RecKey β → Option GyErr) :
    let view := ((ApiState.fresh opks).runs calls).disk.view fault
    (∃ k e, fault k = some e ∧ ∀ cap,
      (gySendPrepareReport c.send targets cap).run engine view op = (.error e, op)) ∨
    ∃ descs : List (SendDesc β),
      (∀ cap, (gySendPrepareReport c.send targets cap).run engine view op =
        (.ok (reportOf descs cap), op)) ∧
      (descs.map SendDesc.device).Nodup ∧
      (∀ userId deviceId, (userId, deviceId) ∈ descs.map SendDesc.device ↔
        userId ∈ targets ∧ Lists view op userId deviceId ∧
          ¬ (userId = c.selfUserId ∧ deviceId = c.selfDeviceId)) ∧
      ∀ d ∈ descs, SendAgrees c.send view op d := by
  intro view
  have hst := planned_runs opks hdesc
  -- either a load failed, and so does the call, or there is a plan
  rcases hplan : (targets.mapM' (planUser c.send view op)).map List.flatten with e | descs
  · left
    obtain ⟨userId, -, huser⟩ : ∃ userId ∈ targets, planUser c.send view op userId = .error e := by
      rcases hm : targets.mapM' (planUser c.send view op) with e' | ls
      · rw [hm] at hplan
        obtain rfl := Except.error.inj hplan
        exact Except.exists_of_mapM'_error hm
      · rw [hm] at hplan
        cases hplan
    obtain ⟨k, hk⟩ := planUser_error hst htx huser
    refine ⟨k, e, hk, fun cap => ?_⟩
    rw [gySendPrepareReport_run, hplan]
    rfl
  · right
    obtain ⟨hdev, hstatus⟩ := prepareTargets_ok hplan
    have hindex : ∀ userId usr, ((gyOpLoadUser userId).run engine view op).1 = .ok (some usr) →
        (usr.devices.map DeviceEntry.id).Nodup := fun userId usr hload =>
      (((keepsIndex_gyOpLoadUser userId).run hst.index.1 fault
        (hst.index.2 op htx)).2 _ hload usr rfl).2.2.2
    refine ⟨descs, fun cap => ?_, ?_, fun userId deviceId => ?_, fun d hd => ?_⟩
    · rw [gySendPrepareReport_run, hplan]
      rfl
    · rw [hdev]
      exact nodup_flatMap_listedOf hnodup hindex
    · rw [hdev, List.mem_flatMap]
      constructor
      · rintro ⟨u, hu, hx⟩
        obtain ⟨rfl, hlists, hself⟩ := mem_listedOf.1 hx
        exact ⟨hu, hlists, hself⟩
      · rintro ⟨hu, hlists, hself⟩
        exact ⟨userId, hu, mem_listedOf.2 ⟨rfl, hlists, hself⟩⟩
    · obtain ⟨v, hload, hs⟩ := hstatus d hd
      have hcan := ((keeps_loadActive d.userId d.deviceId).run hst.sessions.1 fault
        (hst.sessions.2 op htx)).2 _ hload
      exact sendAgrees_of_status hc hload hcan hs

/-! ## A full stage -/

namespace Sym

/-- A public key with the identifier of its digest. -/
def publicKey (n : Nat) : PublicKey Sym := ⟨UInt32.ofNat (n + 1), 32, (curvePair n).pk⟩

/-- A key pair with its public structure. -/
def keyPair (n : Nat) : CurvePair Sym := ⟨publicKey n, (curvePair n).sk⟩

/-- A custodian of the classical suite that never expires a session. -/
def sender : Custodian Sym where
  desc := symSuite false
  ik := keyPair 1
  spks := []
  hik := ⟨⟨⟨publicKey 1, []⟩, []⟩, [], []⟩
  hspks := []
  aeadId := 1
  expiry := .disabled
  selfUserId := [num 1]
  selfDeviceId := [num 1]

/-- The bundle of a peer, without a one-time prekey. -/
def peerBundle : PrekeyBundle Sym := ⟨publicKey 3, publicKey 5, 0, [], ⟨0, 0, []⟩⟩

/-- An initiation to a device of the peer, with the `n`th ephemeral key. -/
def initiateTo (device n : Nat) : Call Sym :=
  .initiate (fun _ => none) false [num 7] [num device] (.classical peerBundle) [] 8192
    ⟨.ok (keyPair (2 * n)), ⟨[], [], []⟩,
      ⟨.ok (curvePair (1000 + n)), .error .crypto, [], []⟩, .ok (zeros 16)⟩

/-- One device has a session in the store; another has as many staged as the stage holds. -/
def fillStage : List (Custodian Sym × Call Sym) :=
  ([.sendOpen, initiateTo 0 100, .commit none, .sendOpen] ++
    (List.range opMaxSessions).map (initiateTo 1)).map fun call => (sender, call)

end Sym

open Geryon.Sym

set_option maxRecDepth 100000 in
/-- With an open transaction after one committed initiation the plan is one message, and it goes
through. -/
theorem fanout_agrees_sym :
    let st := (ApiState.fresh ⟨[], []⟩).runs (fillStage.take 4)
    let view := st.disk.view fun _ => none
    let descs : List (SendDesc Sym) := [⟨[num 7], [num 0], .message⟩]
    (∀ cap, (gySendPrepareReport sender.send [[num 7]] cap).run engine view Op.empty =
      (.ok (reportOf descs cap), Op.empty)) ∧
    ∃ ct op', (gySendEncrypt sender.send [num 7] [num 0] [] 8192 (.ok (zeros 16))).run engine view
      Op.empty = (.ok ct, op') := by
  intro st view descs
  have hdesc : ∀ x ∈ fillStage.take 4, x.1.desc = symSuite false := by
    intro x hx
    obtain ⟨call, -, rfl⟩ := List.mem_map.mp (List.mem_of_mem_take hx)
    rfl
  have hplan : ((gySendPrepareReport sender.send [[num 7]] (some 2)).run engine view Op.empty).1 =
      .ok (reportOf descs (some 2)) := by
    decide +kernel
  rcases fanout_agrees ⟨[], []⟩ (fillStage.take 4) hdesc sender rfl rfl
      (List.nodup_singleton [num 7]) fun _ => none with
    ⟨_, _, hfault, -⟩ | ⟨listed, hreport, -, -, hagrees⟩
  · exact nomatch hfault
  · have hlisted : reportOf listed (some 2) = reportOf descs (some 2) :=
      Except.ok.inj ((congrArg Prod.fst (hreport (some 2))).symm.trans hplan)
    have hlen : listed.length = 1 := congrArg PrepareReport.count hlisted
    have htake : listed.take 2 = descs := congrArg PrepareReport.descs hlisted
    rw [List.take_of_length_le (by omega)] at htake
    subst htake
    refine ⟨hreport, ?_⟩
    obtain ⟨s, -, hslot, -⟩ := hagrees _ List.mem_cons_self [] 8192 (.ok (zeros 16))
      (symIdeal false).works (by decide) _ rfl
    exact hslot (.inr (by decide))

set_option maxRecDepth 100000 in
/-- A plan calls a device ready for a message, and the next `gy_send_encrypt` to it is refused for
want of a slot, with a buffer of the reported size; and a too small array is written to. -/
theorem fanout_stage_full :
    let st := (ApiState.fresh ⟨[], []⟩).runs fillStage
    let plan cap := (st.inTx (fun _ => none) (gySendPrepareReport sender.send [[num 7]] cap)).1
    plan (some 2) = .ok ⟨.ok (), 2, [⟨[num 7], [num 0], .message⟩, ⟨[num 7], [num 1], .message⟩]⟩ ∧
      plan (some 1) = .ok ⟨.error .arg, 2, [⟨[num 7], [num 0], .message⟩]⟩ ∧
      gySendSize sender.desc 0 ≤ 8192 ∧
      (st.inTx (fun _ => none)
        (gySendEncrypt sender.send [num 7] [num 0] [] 8192 (.ok (zeros 16)))).1 =
        .error .state := by
  decide +kernel

end Geryon
