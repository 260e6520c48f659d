import Geryon.Proto.Api

/-!
# What every stored record satisfies

An operation that loads only records of a kind `P` and puts only records of that kind keeps a store
whose records are all of that kind. The kind used throughout is `Stored`: a record sits under the
key it names, the lists of a device stay within their capacity, and a session satisfies a given
predicate.

## Main definitions

- `Keeps`: a program that puts only records of a kind, as long as it loads only such records.
- `Stored`: the kind of all records of a custodian.

## Main results

- `Keeps.transact`, `Keeps.inTx`: a program that keeps a kind keeps the store and the stage.
- `keeps_encryptProg`, `keeps_initiateProg`, `keeps_receiveProg`, `keeps_acceptProg`,
  `keeps_gyDeleteDevice`: the programs of the protocol calls keep `Stored`.
-/

namespace Geryon

variable {β : Type} [DecidableEq β]

/-! ## Kinds of records -/

section Kinds

variable {P : RecKey β → Record β → Prop} {α : Type}

/-- Every stored record is of a kind. -/
def Disk.Holds (P : RecKey β → Record β → Prop) (d : Disk β) : Prop :=
  ∀ k r, d.recs k = some r → P k r

/-- Every staged record is of a kind. -/
def Op.Holds (P : RecKey β → Record β → Prop) (op : Op β) : Prop :=
  ∀ e ∈ op.recs ++ op.sess, P e.1 e.2

/-- The answer to a load is of a kind, if there is one. -/
def Loads (P : RecKey β → Record β → Prop) (k : RecKey β) (v : Option (Record β)) : Prop :=
  ∀ r, v = some r → P k r

/-- An action puts only records of a kind. -/
def Act.Puts (P : RecKey β → Record β → Prop) : Act β → Prop
  | .put k r => P k r
  | _ => True

/-- A program puts only records of a kind and returns only values in `Q`, as long as it loads only
records of that kind. -/
def Keeps (P : RecKey β → Record β → Prop) (Q : α → Prop) (p : OpM β α) : Prop :=
  p.Sat (Loads P) (Act.Puts P) Q

omit [DecidableEq β] in
/-- An empty stage holds nothing that could be wrong. -/
theorem Op.holds_empty : (Op.empty : Op β).Holds P := by
  intro e he
  cases he

/-- What is found in a stage is in it. -/
theorem mem_of_slotGet {l : List (RecKey β × Record β)} {k : RecKey β} {r : Record β}
    (h : slotGet l k = some r) : (k, r) ∈ l := by
  obtain ⟨e, he, rfl⟩ := Option.map_eq_some_iff.mp h
  have hk : e.1 = k := by simpa using List.find?_some he
  rw [← hk]
  exact List.mem_of_find?_eq_some he

/-- What the stage answers for a key comes from its slots. -/
theorem mem_of_stageLookup {op : Op β} {k : RecKey β} {r : Record β}
    (h : stageLookup op k = some (some r)) : (k, r) ∈ op.recs ++ op.sess := by
  unfold stageLookup at h
  split at h
  · next r' hg =>
    obtain rfl := Option.some.inj (Option.some.inj h)
    cases k with
    | user id => exact List.mem_append_left _ (mem_of_slotGet hg)
    | device key => exact List.mem_append_left _ (mem_of_slotGet hg)
    | session id => exact List.mem_append_right _ (mem_of_slotGet hg)
  · split_ifs at h
    cases Option.some.inj h

/-- A slot list after a put holds the record put and entries it held before. -/
theorem mem_slotPut {cap : Nat} {l l' : List (RecKey β × Record β)} {k : RecKey β} {r : Record β}
    (h : slotPut cap l k r = .ok l') {e : RecKey β × Record β} (he : e ∈ l') :
    e = (k, r) ∨ e ∈ l := by
  unfold slotPut at h
  split_ifs at h
  · obtain rfl := Except.ok.inj h
    obtain ⟨e', he', rfl⟩ := List.mem_map.mp he
    split_ifs
    · exact Or.inl rfl
    · exact Or.inr he'
  · obtain rfl := Except.ok.inj h
    rcases List.mem_append.mp he with h1 | h1
    · exact Or.inr h1
    · exact Or.inl (List.mem_singleton.mp h1)

/-- An action that puts records of a kind keeps the stage. -/
theorem Op.Holds.stageAct {a : Act β} {op op' : Op β} (hop : op.Holds P) (ha : a.Puts P)
    (h : Geryon.stageAct a op = .ok op') : op'.Holds P := by
  have hput : ∀ {cap l l'} {k : RecKey β} {r : Record β}, (∀ e ∈ l, P e.1 e.2) → P k r →
      slotPut cap l k r = .ok l' → ∀ e ∈ l', P e.1 e.2 := by
    intro cap l l' k r hl hr hl' e he
    rcases mem_slotPut hl' he with rfl | h1
    · exact hr
    · exact hl e h1
  have hrecs : ∀ e ∈ op.recs, P e.1 e.2 := fun e he => hop e (List.mem_append_left _ he)
  have hsess : ∀ e ∈ op.sess, P e.1 e.2 := fun e he => hop e (List.mem_append_right _ he)
  have hdefer : ∀ {d : Defer β}, pushDefer op d = .ok op' → op'.Holds P := by
    intro d hd
    unfold pushDefer at hd
    split_ifs at hd
    obtain rfl := Except.ok.inj hd
    exact hop
  -- a put rewrites one slot list; the deferred actions do not touch the slots
  match a, ha with
  | .put (.user id) r, ha | .put (.device id) r, ha =>
    simp only [Geryon.stageAct] at h
    rcases hl : slotPut opMaxRecords op.recs _ r with e | l
    · rw [hl] at h
      cases h
    · rw [hl] at h
      obtain rfl := Except.ok.inj h
      intro e he
      rcases List.mem_append.mp he with h1 | h1
      · exact hput hrecs ha hl e h1
      · exact hsess e h1
  | .put (.session id) r, ha =>
    simp only [Geryon.stageAct] at h
    rcases hl : slotPut opMaxSessions op.sess _ r with e | l
    · rw [hl] at h
      cases h
    · rw [hl] at h
      obtain rfl := Except.ok.inj h
      intro e he
      rcases List.mem_append.mp he with h1 | h1
      · exact hrecs e h1
      · exact hput hsess ha hl e h1
  | .delete k, _ =>
    simp only [Geryon.stageAct] at h
    split_ifs at h
    exact hdefer h
  | .consumeOpk pkid, _ => exact hdefer h

omit [DecidableEq β] in
/-- A load callback answers from the store. -/
theorem Disk.view_ok {d : Disk β} {fault : RecKey β → Option GyErr} {k : RecKey β}
    {v : Option (Record β)} (h : d.view fault k = .ok v) : v = d.recs k := by
  unfold Disk.view at h
  split at h
  · cases h
  · exact (Except.ok.inj h).symm

/-- A program that keeps a kind keeps the stage, and returns what it promises. -/
theorem Keeps.run {Q : α → Prop} {p : OpM β α} (hp : Keeps P Q p) {d : Disk β} (hd : d.Holds P)
    (fault : RecKey β → Option GyErr) {op : Op β} (hop : op.Holds P) :
    (p.run engine (d.view fault) op).2.Holds P ∧
      ∀ a, (p.run engine (d.view fault) op).1 = .ok a → Q a := by
  refine Txn.Sat.run hp ?_ ?_ ?_ hop
  · intro s k v hs hv r hr
    rw [hr] at hv
    exact hs _ (mem_of_stageLookup hv)
  · intro k v hv r hr
    exact hd k r ((Disk.view_ok hv).symm.trans hr)
  · exact fun a s s' ha hs h => hs.stageAct ha h

/-- Callbacks that store records of a kind keep the store. -/
theorem Disk.Holds.applyAll {cbs : List (Callback β)} {d : Disk β} (hd : d.Holds P)
    (hcbs : ∀ k r, Callback.store k r ∈ cbs → P k r) : (d.applyAll cbs).Holds P := by
  induction cbs generalizing d with
  | nil => exact hd
  | cons cb cbs ih =>
    refine ih ?_ fun k r h => hcbs k r (List.mem_cons_of_mem _ h)
    intro k r hr
    -- a store brings its own record, the other two callbacks only take away
    cases cb with
    | store k' r' =>
      simp only [Disk.apply, Function.update_apply] at hr
      split_ifs at hr with hk
      · obtain rfl := Option.some.inj hr
        rw [hk]
        exact hcbs k' r' List.mem_cons_self
      · exact hd k r hr
    | delete k' =>
      simp only [Disk.apply, Function.update_apply] at hr
      split_ifs at hr with hk
      exact hd k r hr
    | consumeOpk pkid => exact hd k r hr

omit [DecidableEq β] in
/-- The stores of a commit are the staged records and sessions. -/
theorem mem_callbacks_store {op : Op β} {k : RecKey β} {r : Record β} :
    Callback.store k r ∈ op.callbacks ↔ (k, r) ∈ op.recs ++ op.sess := by
  rw [Op.callbacks, List.mem_append]
  constructor
  · rintro (h | h)
    · obtain ⟨e, he, h1⟩ := List.mem_map.mp h
      obtain ⟨rfl, rfl⟩ := Callback.store.inj h1
      exact he
    · obtain ⟨d, -, h1⟩ := List.mem_map.mp h
      cases d <;> cases h1
  · exact fun h => Or.inl (List.mem_map.mpr ⟨(k, r), h, rfl⟩)

/-- A commit, complete or cut short, keeps a kind. -/
theorem Op.Holds.gyOpCommit {op : Op β} (hop : op.Holds P) {d : Disk β} (hd : d.Holds P)
    (fault : Option CommitFault) : (Geryon.gyOpCommit fault op d).2.Holds P := by
  have hall : ∀ cbs, cbs.Sublist op.callbacks → (d.applyAll cbs).Holds P := fun cbs hsub =>
    hd.applyAll fun k r h => hop (k, r) (mem_callbacks_store.mp (hsub.subset h))
  unfold Geryon.gyOpCommit
  split
  · split_ifs
    · exact hall _ (List.take_sublist _ _)
    · exact hall _ (List.Sublist.refl _)
  · exact hall _ (List.Sublist.refl _)

/-- A call whose program keeps a kind keeps the store. -/
theorem Keeps.transact {Q : α → Prop} {p : OpM β α} (hp : Keeps P Q p) {d : Disk β}
    (hd : d.Holds P) (faults : Faults β) : (d.transact faults p).2.Holds P := by
  unfold Disk.transact
  have hrun := (hp.run hd faults.load Op.holds_empty).1
  split
  · exact hd
  · next a op hop =>
    rw [hop] at hrun
    have hcommit := hrun.gyOpCommit hd faults.commit
    split <;> next h =>
      rw [h] at hcommit
      exact hcommit

/-- A program run in the open transaction keeps a kind. -/
theorem Keeps.inTx {Q : α → Prop} {p : OpM β α} (hp : Keeps P Q p) {st : ApiState β}
    (hd : st.disk.Holds P) (hop : ∀ op, st.tx = some op → op.Holds P)
    (fault : RecKey β → Option GyErr) :
    (st.inTx fault p).2.disk.Holds P ∧ ∀ op, (st.inTx fault p).2.tx = some op → op.Holds P := by
  unfold ApiState.inTx
  split
  · exact ⟨hd, hop⟩
  · next op htx =>
    refine ⟨hd, fun op' h => ?_⟩
    obtain rfl := Option.some.inj h
    exact (hp.run hd fault (hop op htx)).1

end Kinds

/-! ## The kind of all records -/

/-- A record of a custodian: it sits under the key it names, the device identifiers of a user and
the session identifiers of a device have their lengths, the inactive sessions fit their array, and a
session satisfies `S`. -/
def Stored (S : Session β → Prop) : RecKey β → Record β → Prop
  | .user id, .user u =>
    u.userId = id ∧ ∀ e ∈ u.devices, 0 < e.id.length ∧ e.id.length ≤ deviceIdMax
  | .device _, .device d =>
    (∀ id ∈ d.sessions, id.length = sessionIdLen) ∧ d.inactive.length ≤ sessionInactiveMax
  | .session id, .session s =>
    s.id = id ∧ s.id = sessionIdOf s.base ∧ id.length = sessionIdLen ∧ S s
  | _, _ => False

variable {S : Session β → Prop}

omit [DecidableEq β] in
/-- Loading a user keeps the invariant and hands out a record it holds of. -/
theorem keeps_gyOpLoadUser (id : Bytes β) :
    Keeps (Stored S) (fun v => ∀ u, v = some u → Stored S (.user id) (.user u))
      (gyOpLoadUser id) := by
  refine Txn.Sat.bind (Txn.Sat.find _) fun v hv => ?_
  match v, hv with
  | none, _ => exact fun u hu => by cases hu
  | some (.user u), hv =>
    refine Txn.Sat.pure fun u' hu => ?_
    obtain rfl := Option.some.inj hu
    exact hv _ rfl
  | some (.device d), hv => trivial
  | some (.session s), hv => trivial

omit [DecidableEq β] in
/-- Loading a device keeps the invariant and hands out a record it holds of. -/
theorem keeps_gyOpLoadDeviceAny (key : Bytes β) :
    Keeps (Stored S) (fun v => ∀ d, v = some d → Stored S (.device key) (.device d))
      (gyOpLoadDeviceAny key) := by
  refine Txn.Sat.bind (Txn.Sat.find _) fun v hv => ?_
  match v, hv with
  | none, _ => exact fun u hu => by cases hu
  | some (.device d), hv =>
    refine Txn.Sat.pure fun d' hd => ?_
    obtain rfl := Option.some.inj hd
    exact hv _ rfl
  | some (.user u), hv => trivial
  | some (.session s), hv => trivial

omit [DecidableEq β] in
/-- So does loading a device of one of the two kinds. -/
theorem keeps_gyOpLoadDeviceOf (isHybrid : Bool) (key : Bytes β) :
    Keeps (Stored S) (fun v => ∀ d, v = some d → Stored S (.device key) (.device d))
      (gyOpLoadDeviceOf isHybrid key) := by
  refine Txn.Sat.bind (keeps_gyOpLoadDeviceAny key) fun v hv => ?_
  match v, hv with
  | none, _ => exact fun u hu => by cases hu
  | some d, hv =>
    dsimp only
    split_ifs
    · exact hv
    · trivial

omit [DecidableEq β] in
/-- Loading a session keeps the invariant; a fault is handed out as a result. -/
theorem keeps_gyOpTryLoadSession (id : Bytes β) :
    Keeps (Stored S) (fun x => ∀ s, x = .ok (some s) → Stored S (.session id) (.session s))
      (gyOpTryLoadSession id) := by
  refine Txn.Sat.bind (Txn.Sat.attempt _) fun x hx => ?_
  match x, hx with
  | .error e, _ => exact fun s hs => by cases hs
  | .ok none, _ => exact fun s hs => by cases hs
  | .ok (some (.session s)), hx =>
    refine Txn.Sat.pure fun s' hs => ?_
    obtain rfl := Option.some.inj (Except.ok.inj hs)
    exact hx _ rfl _ rfl
  | .ok (some (.user u)), _ => exact fun s hs => by cases hs
  | .ok (some (.device d)), _ => exact fun s hs => by cases hs

omit [DecidableEq β] in
/-- Loading a session keeps the invariant and hands out a session it holds of. -/
theorem keeps_gyOpLoadSession (id : Bytes β) :
    Keeps (Stored S) (fun v => ∀ s, v = some s → Stored S (.session id) (.session s))
      (gyOpLoadSession id) := by
  refine Txn.Sat.bind (keeps_gyOpTryLoadSession id) fun x hx => Txn.Sat.lift ?_
  rintro v rfl s rfl
  exact hx s rfl

omit [DecidableEq β] in
/-- Deletions put nothing. -/
theorem keeps_gyOpDelete (k : RecKey β) : Keeps (Stored S) (fun _ => True) (gyOpDelete k) :=
  Txn.Sat.perform trivial

omit [DecidableEq β] in
/-- Staging deletions stores nothing. -/
theorem keeps_deleteSessions (ids : List (Bytes β)) :
    Keeps (Stored S) (fun _ => True) (deleteSessions ids) := by
  induction ids with
  | nil => trivial
  | cons id rest ih => exact Txn.Sat.bind (keeps_gyOpDelete _) fun _ _ => ih

variable [Octet β] [Sodium β]

omit [DecidableEq β] in
/-- A deferred deletion of a device stages deletions and the user without the device. -/
theorem keeps_deferDeleteDeviceInner (userId deviceId : Bytes β) :
    Keeps (Stored S) (fun _ => True) (deferDeleteDeviceInner userId deviceId) := by
  refine Txn.Sat.bind (Txn.Sat.lift fun _ _ => trivial) fun dk (_ : True) => ?_
  refine Txn.Sat.bind (keeps_gyOpLoadDeviceAny dk) fun v _ => ?_
  cases v with
  | none => trivial
  | some dev => exact Txn.Sat.bind (keeps_deleteSessions _) fun _ _ => keeps_gyOpDelete _

/-! ## Devices of a user -/

omit [Octet β] [Sodium β] in
/-- Inserting a device keeps a user record, and names an admissible device when it evicts one. -/
theorem stored_gyUserDeviceInsert {u u' : UserRecord β} {id deviceId : Bytes β}
    {ev : Option (Bytes β)} (hu : Stored S (.user id) (.user u))
    (h : gyUserDeviceInsert u deviceId = .ok (u', ev)) : Stored S (.user id) (.user u') := by
  unfold gyUserDeviceInsert at h
  -- in both branches the list is a part of the old one and the new device
  split_ifs at h with hid hmem hfull
  · split at h
    · cases h
    · obtain ⟨rfl, -⟩ := Prod.mk.inj (Except.ok.inj h)
      refine ⟨hu.1, fun e he => ?_⟩
      rcases List.mem_append.mp he with h1 | h1
      · exact hu.2 e (List.mem_of_mem_eraseP h1)
      · obtain rfl := List.mem_singleton.mp h1
        simp only
        omega
  · obtain ⟨rfl, -⟩ := Prod.mk.inj (Except.ok.inj h)
    refine ⟨hu.1, fun e he => ?_⟩
    rcases List.mem_append.mp he with h1 | h1
    · exact hu.2 e h1
    · obtain rfl := List.mem_singleton.mp h1
      simp only
      omega

omit [DecidableEq β] [Octet β] [Sodium β] in
/-- A fresh device record has no session. -/
theorem stored_gyDeviceRecordInit (key : Bytes β) (suiteId : UInt8) (deviceId : Bytes β)
    (ik : Identity β) (fp : Bytes β) :
    Stored S (.device key) (.device (gyDeviceRecordInit suiteId deviceId ik fp)) := by
  refine ⟨fun id hid => ?_, Nat.zero_le _⟩
  cases hid

omit [Sodium β] in
/-- Pinning an identity writes a device record without a session, or leaves the one there is. -/
theorem keeps_pinDevice (isHybrid report : Bool) (desc : SuiteDesc β) (deviceId : Bytes β)
    (ik : Identity β) (dk : Bytes β) :
    Keeps (Stored S) (fun d => Stored S (.device dk) (.device d))
      (pinDevice isHybrid report desc deviceId ik dk) := by
  refine Txn.Sat.bind (keeps_gyOpLoadDeviceOf isHybrid dk) fun v hv => ?_
  cases v with
  | some dev =>
    dsimp only
    split_ifs
    · trivial
    · exact Txn.Sat.bind (Txn.Sat.lift fun _ _ => trivial) fun _ (_ : True) => trivial
    · trivial
    · exact hv dev rfl
  | none =>
    refine Txn.Sat.bind (Txn.Sat.lift fun _ _ => trivial) fun fp (_ : True) => Txn.Sat.pure ?_
    exact stored_gyDeviceRecordInit _ _ _ _ _

/-- Listing a device adds an entry to the user. -/
theorem keeps_indexDevice (desc : SuiteDesc β) (userId deviceId : Bytes β) :
    Keeps (Stored S) (fun u => Stored S (.user userId) (.user u))
      (indexDevice desc userId deviceId) := by
  refine Txn.Sat.bind (keeps_gyOpLoadUser userId) fun v hv => ?_
  have husr : Stored S (.user userId)
      (.user (v.getD (gyUserRecordInit desc.suiteId userId))) := by
    cases v with
    | none => exact ⟨rfl, fun e he => by cases he⟩
    | some u => exact hv u rfl
  dsimp only
  split_ifs
  · exact husr
  · refine Txn.Sat.bind (Txn.Sat.lift fun x hx => hx) fun x hx => ?_
    refine Txn.Sat.bind (Q := fun _ => True) ?_ fun _ _ => ?_
    · rcases x.2 with - | ev
      · trivial
      · exact keeps_deferDeleteDeviceInner _ _
    · exact stored_gyUserDeviceInsert husr hx

/-- The conditional update of a device keeps the invariant. -/
theorem keeps_conditionalUpdateOf (isHybrid report : Bool) (desc : SuiteDesc β)
    (userId deviceId : Bytes β) (ik : Identity β) :
    Keeps (Stored S) (fun _ => True)
      (conditionalUpdateOf isHybrid report desc userId deviceId ik) := by
  unfold conditionalUpdateOf
  split_ifs
  · trivial
  · trivial
  · refine Txn.Sat.bind (Txn.Sat.lift fun _ _ => trivial) fun dk (_ : True) => ?_
    refine Txn.Sat.bind (keeps_pinDevice _ _ _ _ _ _) fun dev hdev => ?_
    refine Txn.Sat.bind (keeps_indexDevice _ _ _) fun usr husr => ?_
    refine Txn.Sat.bind (Txn.Sat.perform hdev) fun _ _ => Txn.Sat.perform ?_
    rw [husr.1]
    exact husr

omit [DecidableEq β] in
/-- Accepting a key change keeps the invariant. -/
theorem keeps_acceptKeyChangeOf (isHybrid : Bool) (desc : SuiteDesc β)
    (userId deviceId : Bytes β) (ik : Identity β) :
    Keeps (Stored S) (fun _ => True) (acceptKeyChangeOf isHybrid desc userId deviceId ik) := by
  unfold acceptKeyChangeOf
  split_ifs
  · trivial
  · trivial
  · refine Txn.Sat.bind (Txn.Sat.lift fun _ _ => trivial) fun dk (_ : True) => ?_
    refine Txn.Sat.bind (keeps_gyOpLoadDeviceOf isHybrid dk) fun v _ => ?_
    cases v with
    | none => trivial
    | some dev =>
      dsimp only
      split_ifs
      · trivial
      · refine Txn.Sat.bind (keeps_deleteSessions _) fun _ _ => ?_
        refine Txn.Sat.bind (Txn.Sat.lift fun _ _ => trivial) fun fp (_ : True) => ?_
        exact Txn.Sat.perform (stored_gyDeviceRecordInit (S := S) dk _ _ _ _)

/-- Deleting a device keeps the invariant. -/
theorem keeps_gyDeleteDevice (userId deviceId : Bytes β) :
    Keeps (Stored S) (fun _ => True) (gyDeleteDevice userId deviceId) := by
  unfold gyDeleteDevice
  split_ifs
  · trivial
  · refine Txn.Sat.bind (keeps_deferDeleteDeviceInner _ _) fun _ _ => ?_
    refine Txn.Sat.bind (keeps_gyOpLoadUser userId) fun v hv => ?_
    cases v with
    | none => trivial
    | some usr =>
      have husr := hv usr rfl
      dsimp only
      unfold gyUserDeviceRemove
      split_ifs
      · refine Txn.Sat.perform ⟨rfl, fun e he => husr.2 e (List.mem_of_mem_eraseP he)⟩
      · trivial

/-! ## Sessions of a device -/

omit [DecidableEq β] [Octet β] [Sodium β] in
/-- The inactive list after a push. -/
theorem mem_inactivePushHead {l : List (Bytes β)} {a id : Bytes β}
    (h : id ∈ (inactivePushHead l a).1) : id = a ∨ id ∈ l := by
  unfold inactivePushHead at h
  split_ifs at h
  · rcases List.mem_cons.mp h with h1 | h1
    · exact Or.inl h1
    · exact Or.inr (List.mem_of_mem_dropLast h1)
  · exact List.mem_cons.mp h

omit [DecidableEq β] [Octet β] [Sodium β] in
/-- The list of inactive sessions keeps its bound: the last one is pushed out. -/
theorem length_inactivePushHead {l : List (Bytes β)} (a : Bytes β)
    (h : l.length ≤ sessionInactiveMax) :
    (inactivePushHead l a).1.length ≤ sessionInactiveMax := by
  unfold inactivePushHead
  split_ifs with hfull
  · simp only [List.length_cons, List.length_dropLast, hfull, sessionInactiveMax]
    omega
  · simp only [List.length_cons]
    omega

omit [Octet β] [Sodium β] in
/-- Inserting a session into a device keeps the bound and the length of the names. -/
theorem stored_gyDeviceSessionInsert {d d' : DeviceRecord β} {key id : Bytes β}
    {ev : Option (Bytes β)} (hd : Stored S (.device key) (.device d))
    (hid : id.length = sessionIdLen) (h : gyDeviceSessionInsert d id = .ok (d', ev)) :
    Stored S (.device key) (.device d') := by
  unfold gyDeviceSessionInsert at h
  split_ifs at h with hmem
  -- the session that was active, if any, becomes the first inactive one
  split at h
  · obtain ⟨rfl, -⟩ := Prod.mk.inj (Except.ok.inj h)
    refine ⟨fun id' h' => ?_, hd.2⟩
    rcases List.mem_append.mp h' with h1 | h1
    · simp only [Option.toList_some, List.mem_singleton] at h1
      rw [h1, hid]
    · exact hd.1 id' (List.mem_append_right _ h1)
  · next a ha =>
    obtain ⟨rfl, -⟩ := Prod.mk.inj (Except.ok.inj h)
    refine ⟨fun id' h' => ?_, length_inactivePushHead a hd.2⟩
    rcases List.mem_append.mp h' with h1 | h1
    · simp only [Option.toList_some, List.mem_singleton] at h1
      rw [h1, hid]
    · rcases mem_inactivePushHead h1 with rfl | h2
      · exact hd.1 id' (List.mem_append_left _ (by simp [ha]))
      · exact hd.1 id' (List.mem_append_right _ h2)

omit [Octet β] [Sodium β] in
/-- Activating a session of a device moves names it already has. -/
theorem stored_gyDeviceSessionActivate {d d' : DeviceRecord β} {key id : Bytes β}
    (hd : Stored S (.device key) (.device d)) (h : gyDeviceSessionActivate d id = .ok d') :
    Stored S (.device key) (.device d') := by
  unfold gyDeviceSessionActivate at h
  split_ifs at h with hmem
  -- the id leaves the inactive list before the old active one enters it
  have hlen : (d.inactive.erase id).length ≤ sessionInactiveMax :=
    (List.length_erase_le).trans hd.2
  have hact : ∀ id', id' ∈ (some id).toList → id'.length = sessionIdLen := fun id' h' => by
    simp only [Option.toList_some, List.mem_singleton] at h'
    rw [h']
    exact hd.1 id (List.mem_append_right _ hmem)
  split at h
  · obtain rfl := Except.ok.inj h
    refine ⟨fun id' h' => ?_, hlen⟩
    rcases List.mem_append.mp h' with h1 | h1
    · exact hact id' h1
    · exact hd.1 id' (List.mem_append_right _ (List.mem_of_mem_erase h1))
  · next a ha =>
    obtain rfl := Except.ok.inj h
    refine ⟨fun id' h' => ?_, length_inactivePushHead a hlen⟩
    rcases List.mem_append.mp h' with h1 | h1
    · exact hact id' h1
    · rcases mem_inactivePushHead h1 with rfl | h2
      · exact hd.1 id' (List.mem_append_left _ (by simp [ha]))
      · exact hd.1 id' (List.mem_append_right _ (List.mem_of_mem_erase h2))

/-- Inserting a session into the record of a device keeps the invariant. -/
theorem keeps_gyDeviceInsertSession (userId deviceId : Bytes β) {id : Bytes β}
    (hid : id.length = sessionIdLen) :
    Keeps (Stored S) (fun _ => True) (gyDeviceInsertSession userId deviceId id) := by
  refine Txn.Sat.bind (Txn.Sat.lift fun _ _ => trivial) fun dk (_ : True) => ?_
  refine Txn.Sat.bind (keeps_gyOpLoadDeviceAny dk) fun v hv => ?_
  cases v with
  | none => trivial
  | some dev =>
    refine Txn.Sat.bind (Txn.Sat.lift fun x hx => hx) fun x hx => ?_
    refine Txn.Sat.bind (Q := fun _ => True) ?_ fun _ _ => ?_
    · rcases x.2 with - | ev
      · trivial
      · exact keeps_gyOpDelete _
    · exact Txn.Sat.perform (stored_gyDeviceSessionInsert (hv dev rfl) hid hx)

/-- Activating a session of the record of a device keeps the invariant. -/
theorem keeps_gyDeviceActivateSession (userId deviceId id : Bytes β) :
    Keeps (Stored S) (fun _ => True) (gyDeviceActivateSession userId deviceId id) := by
  refine Txn.Sat.bind (Txn.Sat.lift fun _ _ => trivial) fun dk (_ : True) => ?_
  refine Txn.Sat.bind (keeps_gyOpLoadDeviceAny dk) fun v hv => ?_
  cases v with
  | none => trivial
  | some dev =>
    refine Txn.Sat.bind (Txn.Sat.lift fun x hx => hx) fun x hx => ?_
    exact Txn.Sat.perform (stored_gyDeviceSessionActivate (hv dev rfl) hx)

/-! ## Sending -/

/-- What the ratchets leave alone in a session. -/
structure Session.Same (s s' : Session β) : Prop where
  desc : s'.desc = s.desc
  id : s'.id = s.id
  base : s'.base = s.base
  ad : s'.ad = s.ad
  nsend : s'.nsend = s.nsend
  nrecv : s'.nrecv = s.nrecv

omit [DecidableEq β] in
/-- An encryption changes the ratchet and nothing that names the session. -/
theorem sessEncrypt_same (cap : Nat) (pt : Bytes β) (salt : Except GyErr (Bytes β))
    (s : Session β) : s.Same (sessEncrypt cap pt salt s).2 := by
  unfold sessEncrypt Session.onRatchet
  split_ifs
  · split <;> exact ⟨rfl, rfl, rfl, rfl, rfl, rfl⟩
  · exact ⟨rfl, rfl, rfl, rfl, rfl, rfl⟩

/-- A decryption changes the ratchet and nothing that names the session. -/
theorem sessDecrypt_same (rnd : RatchetRand β) (cap : Nat) (frame : Bytes β) (s : Session β) :
    s.Same (sessDecrypt rnd cap frame s).2 := by
  unfold sessDecrypt
  split_ifs
  · split <;> exact ⟨rfl, rfl, rfl, rfl, rfl, rfl⟩
  · exact ⟨rfl, rfl, rfl, rfl, rfl, rfl⟩

omit [DecidableEq β] [Octet β] [Sodium β] in
/-- A session stays under its key while its ratchet, its counters and its clock move. -/
theorem Stored.session_of_same {id : Bytes β} {s s' t : Session β}
    (hs : Stored S (.session id) (.session s)) (h : s.Same s') (hid : t.id = s'.id)
    (hbase : t.base = s'.base) (ht : S t) : Stored S (.session t.id) (.session t) := by
  obtain ⟨h1, h2, h3, -⟩ := hs
  refine ⟨rfl, ?_, ?_, ht⟩
  · rw [hid, hbase, h.id, h.base, h2]
  · rw [hid, h.id, h1, h3]

omit [DecidableEq β] in
/-- A send keeps the invariant if one encryption keeps what is known of sessions. -/
theorem keeps_gySendEncrypt (c : SendCtx β) (userId deviceId pt : Bytes β) (cap : Nat)
    (salt : Except GyErr (Bytes β))
    (hS : ∀ s ct s', S s → sessEncrypt cap pt salt s = (.ok ct, s') →
      S { s' with nsend := s'.nsend + 1 }) :
    Keeps (Stored S) (fun _ => True) (gySendEncrypt c userId deviceId pt cap salt) := by
  refine Txn.Sat.bind (Txn.Sat.lift fun _ _ => trivial) fun dk (_ : True) => ?_
  refine Txn.Sat.bind (keeps_gyOpLoadDeviceAny dk) fun v hv => ?_
  split
  · trivial
  · next id hid =>
    refine Txn.Sat.bind (keeps_gyOpLoadSession id) fun v hv => ?_
    cases v with
    | none => trivial
    | some s =>
      have hs := hv s rfl
      dsimp only
      split_ifs
      · trivial
      · split
        · trivial
        · next ct s' henc =>
          -- encrypting changes the ratchet only
          have hsame := sessEncrypt_same cap pt salt s
          rw [henc] at hsame
          refine Txn.Sat.bind (Txn.Sat.perform ?_) fun _ _ => trivial
          exact hs.session_of_same hsame rfl rfl (hS s ct s' hs.2.2.2 henc)

omit [DecidableEq β] in
/-- The same for the call that wraps the send in an envelope. -/
theorem keeps_encryptProg (c : Custodian β) (userId deviceId pt : Bytes β) (cap : Nat)
    (salt : Except GyErr (Bytes β))
    (hS : ∀ s ct s', S s → sessEncrypt (cap - envelopeHdrLen) pt salt s = (.ok ct, s') →
      S { s' with nsend := s'.nsend + 1 }) {p : OpM β (Bytes β)}
    (hp : encryptProg c userId deviceId pt cap salt = .ok p) :
    Keeps (Stored S) (fun _ => True) p := by
  unfold encryptProg at hp
  split_ifs at hp
  obtain rfl := Except.ok.inj hp
  exact Txn.Sat.bind (keeps_gySendEncrypt _ _ _ _ _ _ hS) fun _ _ => trivial

/-! ## Initiating -/

omit [DecidableEq β] [Sodium β] in
/-- The identifier of a base hash has the length of an identifier. -/
theorem length_sessionIdOf_gySessionBase {desc : SuiteDesc β} {ikA ekA : PublicKey β}
    {base : Bytes β} (h : gySessionBase desc ikA ekA = .ok base) :
    (sessionIdOf base).length = sessionIdLen := by
  have hhash : ∃ b, desc.hash b = .ok base := by
    unfold gySessionBase at h
    split_ifs at h
    obtain ⟨a, -, h⟩ := Except.bind_eq_ok_iff.mp h
    obtain ⟨b, -, h⟩ := Except.bind_eq_ok_iff.mp h
    exact ⟨_, h⟩
  obtain ⟨b, hb⟩ := hhash
  have h1 := desc.length_hash hb
  have h2 := desc.hashLen_ge
  rw [sessionIdOf, List.length_take, sessionIdLen]
  omega

/-- A session whose identifier is that of its base hash. -/
def Session.Named (s : Session β) : Prop :=
  s.id = sessionIdOf s.base ∧ s.id.length = sessionIdLen

omit [DecidableEq β] [Sodium β] in
/-- A session is named by the digest of the two keys, which has the length of names. -/
theorem named_gySessionId {desc : SuiteDesc β} {ikA ekA : PublicKey β} {s s' : Session β}
    (h : gySessionId desc ikA ekA s = .ok s') : s'.Named := by
  obtain ⟨base, hb, h⟩ := Except.bind_eq_ok_iff.mp h
  obtain rfl := Except.ok.inj h
  exact ⟨rfl, length_sessionIdOf_gySessionBase hb⟩

omit [DecidableEq β] [Sodium β] in
/-- The classical handshake ends by naming the session. -/
theorem named_initiateHandshake {c : SendCtx β} {localIk : CurvePair β} {bundle : PrekeyBundle β}
    {rnd : InitiateRand β} {pre : Bytes β} {s : Session β}
    (h : initiateHandshake c localIk bundle rnd = .ok (pre, s)) : s.Named := by
  obtain ⟨ek, -, h⟩ := Except.bind_eq_ok_iff.mp h
  obtain ⟨x, -, h⟩ := Except.bind_eq_ok_iff.mp h
  obtain ⟨dr, -, h⟩ := Except.bind_eq_ok_iff.mp h
  obtain ⟨s', hs, h⟩ := Except.bind_eq_ok_iff.mp h
  obtain ⟨-, rfl⟩ := Prod.mk.inj (Except.ok.inj h)
  exact named_gySessionId hs

omit [DecidableEq β] [Sodium β] in
/-- So does the hybrid one. -/
theorem named_initiateHybridHandshake {c : SendCtx β} {localHik : HybridIdentityPair β}
    {mlkemInterval : UInt32} {bundle : HybridPrekeyBundle β} {rnd : InitiateRand β}
    {pre : Bytes β} {s : Session β}
    (h : initiateHybridHandshake c localHik mlkemInterval bundle rnd = .ok (pre, s)) :
    s.Named := by
  obtain ⟨ek, -, h⟩ := Except.bind_eq_ok_iff.mp h
  obtain ⟨x, -, h⟩ := Except.bind_eq_ok_iff.mp h
  obtain ⟨dr, -, h⟩ := Except.bind_eq_ok_iff.mp h
  obtain ⟨s', hs, h⟩ := Except.bind_eq_ok_iff.mp h
  obtain ⟨-, rfl⟩ := Prod.mk.inj (Except.ok.inj h)
  exact named_gySessionId hs

omit [DecidableEq β] in
/-- The first frame of an initiation moves the ratchet and counts one send. -/
theorem emitInitial_same {pre : Bytes β} {patchLen : Bool} {pt : Bytes β} {cap : Nat}
    {salt : Except GyErr (Bytes β)} {s s' : Session β} {msg : Bytes β}
    (h : emitInitial pre patchLen pt cap salt s = .ok (msg, s')) :
    ∃ frame t, sessEncrypt (cap - pre.length) pt salt s = (.ok frame, t) ∧ s.Same t ∧
      s' = { t with nsend := t.nsend + 1 } ∧
      ∃ pre', pre'.length = pre.length ∧ msg = pre' ++ frame := by
  have hsame := sessEncrypt_same (cap - pre.length) pt salt s
  unfold emitInitial at h
  split at h
  · cases h
  · next hlen =>
    rcases henc : sessEncrypt (cap - pre.length) pt salt s with ⟨_ | frame, t⟩
    · rw [henc] at h
      cases h
    · rw [henc] at h hsame
      obtain ⟨rfl, rfl⟩ := Prod.mk.inj (Except.ok.inj h)
      refine ⟨frame, t, rfl, hsame, rfl, _, ?_, rfl⟩
      -- the classical prefix carries the length of the frame in its last field
      split_ifs
      · simp only [List.length_append, List.length_take, length_be32Put]
        omega
      · rfl

/-- An initiation keeps the invariant: it updates the device, stages the session and inserts its
name. -/
theorem keeps_initiateWith {update : OpM β Unit} {handshake : Except GyErr (Bytes β × Session β)}
    {patchLen : Bool} {userId deviceId pt : Bytes β} {cap : Nat} {salt : Except GyErr (Bytes β)}
    (hupdate : Keeps (Stored S) (fun _ => True) update)
    (hnamed : ∀ pre s, handshake = .ok (pre, s) → s.Named)
    (hS : ∀ pre s msg s', handshake = .ok (pre, s) →
      emitInitial pre patchLen pt cap salt s = .ok (msg, s') → S s') :
    Keeps (Stored S) (fun _ => True)
      (initiateWith update handshake patchLen userId deviceId pt cap salt) := by
  refine Txn.Sat.bind hupdate fun _ _ => ?_
  refine Txn.Sat.bind (Txn.Sat.lift fun x hx => hx) fun x hx => ?_
  refine Txn.Sat.bind (Txn.Sat.lift fun y hy => hy) fun y hy => ?_
  obtain ⟨frame, t, henc, hsame, hs', -⟩ := emitInitial_same hy
  have hn := hnamed x.1 x.2 hx
  -- emitting the first frame keeps the name the handshake gave the session
  have hid : y.2.id = x.2.id := by rw [hs', hsame.id]
  have hbase : y.2.base = x.2.base := by rw [hs', hsame.base]
  have hlen : y.2.id.length = sessionIdLen := by rw [hid, hn.2]
  refine Txn.Sat.bind (Q := fun _ => True) ?_ fun _ _ => trivial
  refine Txn.Sat.bind (Txn.Sat.perform ?_) fun _ _ => keeps_gyDeviceInsertSession _ _ hlen
  refine ⟨rfl, ?_, hlen, hS x.1 x.2 y.1 y.2 hx hy⟩
  rw [hid, hbase, hn.1]

/-- The handshake of `gy_initiate`: the wire prefix and the session before its first frame. -/
def Custodian.handshake (c : Custodian β) (bundle : ParsedBundle β) (rnd : InitiateRand β) :
    Except GyErr (Bytes β × Session β) :=
  match bundle with
  | .malformed e => .error e
  | .classical b => initiateHandshake c.send c.ik b rnd
  | .hybrid b => initiateHybridHandshake c.send c.hik hybridMlkemInterval b rnd

omit [DecidableEq β] [Sodium β] in
/-- The handshake of either engine names the session. -/
theorem named_handshake {c : Custodian β} {bundle : ParsedBundle β} {rnd : InitiateRand β}
    {pre : Bytes β} {s : Session β} (h : c.handshake bundle rnd = .ok (pre, s)) : s.Named := by
  cases bundle with
  | malformed e => cases h
  | classical b => exact named_initiateHandshake h
  | hybrid b => exact named_initiateHybridHandshake h

/-- The program of `gy_initiate` is the shared part on the custodian's handshake, framed. -/
theorem initiateProg_eq {c : Custodian β} {report : Bool} {userId deviceId : Bytes β}
    {bundle : ParsedBundle β} {pt : Bytes β} {cap : Nat} {rnd : InitiateRand β}
    {p : OpM β (Bytes β)}
    (h : initiateProg c report userId deviceId bundle pt cap rnd = .ok p) :
    ∃ ik, p = do
      let inner ← initiateWith
        (conditionalUpdateOf c.desc.isHybrid report c.desc userId deviceId ik)
        (c.handshake bundle rnd) (!c.desc.isHybrid) userId deviceId pt (cap - envelopeHdrLen)
        rnd.salt
      return frameEnvelope c msgInit inner := by
  cases bundle with
  | malformed e => cases h
  | classical b =>
    simp only [initiateProg] at h
    split_ifs at h with hcap
    obtain rfl := Except.ok.inj h
    -- a bundle of the other kind is refused
    have hno : c.desc.isHybrid = false := by
      by_contra hy
      exact hcap (Or.inl (by simpa using hy))
    refine ⟨b.ik.identity, ?_⟩
    simp only [gySendInitiate, Custodian.send, Custodian.handshake, hno, Bool.false_eq_true,
      if_false, gyConditionalUpdate, Bool.not_false]
  | hybrid b =>
    simp only [initiateProg] at h
    split_ifs at h with hcap
    obtain rfl := Except.ok.inj h
    have hyes : c.desc.isHybrid = true := by
      by_contra hn
      exact hcap (Or.inl (by simpa using hn))
    refine ⟨b.ik.identity, ?_⟩
    simp only [gySendInitiateHybrid, Custodian.send, Custodian.handshake, hyes, Bool.not_true,
      Bool.false_eq_true, if_false, gyHybridConditionalUpdate]

/-- The call that initiates keeps the invariant. -/
theorem keeps_initiateProg (c : Custodian β) (report : Bool) (userId deviceId : Bytes β)
    (bundle : ParsedBundle β) (pt : Bytes β) (cap : Nat) (rnd : InitiateRand β)
    (hS : ∀ pre s msg s', c.handshake bundle rnd = .ok (pre, s) →
      emitInitial pre (!c.desc.isHybrid) pt (cap - envelopeHdrLen) rnd.salt s = .ok (msg, s') →
      S s') {p : OpM β (Bytes β)}
    (hp : initiateProg c report userId deviceId bundle pt cap rnd = .ok p) :
    Keeps (Stored S) (fun _ => True) p := by
  obtain ⟨ik, rfl⟩ := initiateProg_eq hp
  refine Txn.Sat.bind (keeps_initiateWith ?_ (fun _ _ => named_handshake) hS) fun _ _ => trivial
  exact keeps_conditionalUpdateOf _ _ _ _ _ _

/-! ## Receiving -/

/-- Trying a session stages it only after a frame of it was read. -/
theorem keeps_trySession (c : RecvCtx β) (userId deviceId id : Bytes β) (fromInactive : Bool)
    (frame : Bytes β) (cap : Nat) (rnd : RatchetRand β)
    (hS : ∀ s pt s', S s → sessDecrypt rnd cap frame s = ((.ok pt, true), s') →
      S { s' with nrecv := s'.nrecv + 1, lastRecvAt := c.stamp s' }) :
    Keeps (Stored S) (fun _ => True)
      (trySession c userId deviceId id fromInactive frame cap rnd) := by
  refine Txn.Sat.bind (keeps_gyOpTryLoadSession id) fun x hx => ?_
  -- only a session that decrypts is written
  match x, hx with
  | .error e, _ => trivial
  | .ok none, _ => trivial
  | .ok (some s), hx =>
    have hs := hx s rfl
    have hsame := sessDecrypt_same rnd cap frame s
    dsimp only
    split
    · trivial
    · trivial
    · next pt s' hdec =>
      rw [hdec] at hsame
      refine Txn.Sat.bind (Txn.Sat.perform ?_) fun _ _ => ?_
      · exact hs.session_of_same hsame rfl rfl (hS s pt s' hs.2.2.2 hdec)
      · refine Txn.Sat.bind (Q := fun _ => True) ?_ fun _ _ => trivial
        unfold activateIf
        split_ifs
        · exact keeps_gyDeviceActivateSession _ _ _
        · trivial

/-- Trying the inactive sessions in turn stages at most the one that reads the frame. -/
theorem keeps_tryInactive (c : RecvCtx β) (userId deviceId frame : Bytes β) (cap : Nat)
    (rnd : RatchetRand β)
    (hS : ∀ s pt s', S s → sessDecrypt rnd cap frame s = ((.ok pt, true), s') →
      S { s' with nrecv := s'.nrecv + 1, lastRecvAt := c.stamp s' }) (ids : List (Bytes β)) :
    Keeps (Stored S) (fun _ => True) (tryInactive c userId deviceId frame cap rnd ids) := by
  induction ids with
  | nil => trivial
  | cons id rest ih =>
    refine Txn.Sat.bind (keeps_trySession c userId deviceId id true frame cap rnd hS) fun x _ => ?_
    cases x with
    | ok pt => trivial
    | error e => exact ih

/-- Receiving a frame keeps the invariant. -/
theorem keeps_recvDr (c : RecvCtx β) (userId deviceId frame : Bytes β) (cap : Nat)
    (rnd : RatchetRand β)
    (hS : ∀ s pt s', S s → sessDecrypt rnd cap frame s = ((.ok pt, true), s') →
      S { s' with nrecv := s'.nrecv + 1, lastRecvAt := c.stamp s' }) :
    Keeps (Stored S) (fun _ => True) (recvDr c userId deviceId frame cap rnd) := by
  refine Txn.Sat.bind (Txn.Sat.lift fun _ _ => trivial) fun dk (_ : True) => ?_
  refine Txn.Sat.bind (keeps_gyOpLoadDeviceAny dk) fun v _ => ?_
  cases v with
  | none => trivial
  | some dev =>
    dsimp only
    split
    · exact keeps_tryInactive c userId deviceId frame cap rnd hS _
    · next id hid =>
      refine Txn.Sat.bind (keeps_trySession c userId deviceId id false frame cap rnd hS)
        fun x _ => ?_
      cases x with
      | ok pt => trivial
      | error e => exact keeps_tryInactive c userId deviceId frame cap rnd hS _

/-- The initiation a message carries: its keys, its first frame, and the responder's handshake. -/
def Custodian.initiation (c : Custodian β) (now : Option UInt64) (opks : OpkPool β)
    (msg : Bytes β) : Option (InitMsg β × Except GyErr (Session β × OpkRef)) :=
  match openEnvelope c.desc msg with
  | none => none
  | some (type, inner) =>
    if type ≠ msgInit then none
    else if c.desc.isHybrid then
      if c.hspks = [] then none
      else (parseHybridInit c.desc inner).map fun x =>
        (x.2, respondHybridSession (c.recv now) c.hik c.hspks opks x.1.base.mlkemEk inner)
    else (parseInit c.desc inner).map fun m => (m, respondSession (c.recv now) opks inner)

/-- What `gy_receive` does with a message: refuse it, take it as the initiation it carries, or try
it against the sender's sessions. -/
theorem receiveProg_cases (c : Custodian β) (now : Option UInt64) (opks : OpkPool β)
    (userId deviceId msg : Bytes β) (cap : Nat) (rnd : RatchetRand β) :
    (∃ m respond, c.initiation now opks msg = some (m, respond) ∧
      receiveProg c now opks userId deviceId msg cap rnd =
        recvInitOf c.desc.isHybrid (c.recv now) userId deviceId m respond cap rnd) ∨
    c.initiation now opks msg = none ∧
      ((∃ e, receiveProg c now opks userId deviceId msg cap rnd = Txn.fail e) ∨
        ∃ frame, receiveProg c now opks userId deviceId msg cap rnd =
          recvDr (c.recv now) userId deviceId frame cap rnd) := by
  have hdesc : (c.recv now).desc = c.desc := by
    unfold Custodian.recv
    split <;> rfl
  unfold receiveProg Custodian.initiation gyHybridRecv gyRecv hybridRecvInit recvInit
  rw [hdesc]
  rcases openEnvelope c.desc msg with - | ⟨type, inner⟩
  · refine Or.inr ⟨rfl, Or.inl ?_⟩
    split_ifs
    · exact ⟨_, rfl⟩
    · exact ⟨_, rfl⟩
    · exact ⟨_, rfl⟩
  · dsimp only
    by_cases hinit : type = msgInit
    · -- an initiation: what decides is whether its keys parse
      by_cases hyb : c.desc.isHybrid
      · by_cases hspk : c.hspks = []
        · simp only [hinit, hyb, hspk, ne_eq, not_true_eq_false, if_true, if_false]
          exact Or.inr ⟨trivial, Or.inl ⟨_, rfl⟩⟩
        · simp only [hinit, hyb, hspk, ne_eq, not_true_eq_false, if_true, if_false]
          rcases parseHybridInit c.desc inner with - | ⟨ik, m⟩
          · exact Or.inr ⟨rfl, Or.inl ⟨_, rfl⟩⟩
          · exact Or.inl ⟨m, _, rfl, rfl⟩
      · simp only [hinit, hyb, ne_eq, not_true_eq_false, if_true, if_false, Bool.false_eq_true]
        rcases parseInit c.desc inner with - | m
        · exact Or.inr ⟨rfl, Or.inl ⟨_, rfl⟩⟩
        · exact Or.inl ⟨m, _, rfl, rfl⟩
    · simp only [hinit, ne_eq, not_false_eq_true, if_true, if_false]
      refine Or.inr ⟨trivial, ?_⟩
      split_ifs
      · exact Or.inl ⟨_, rfl⟩
      · exact Or.inr ⟨_, rfl⟩
      · exact Or.inl ⟨_, rfl⟩
      · exact Or.inr ⟨_, rfl⟩
      · exact Or.inl ⟨_, rfl⟩

/-- Accepting a fresh session stages it under its name. -/
theorem keeps_acceptFresh (c : RecvCtx β) (userId deviceId : Bytes β) {s : Session β}
    (opkRef : OpkRef) (hs : s.Named) (hS : S { s with nrecv := 1, lastRecvAt := c.stamp s }) :
    Keeps (Stored S) (fun _ => True) (acceptFresh c userId deviceId s opkRef) := by
  refine Txn.Sat.bind (Txn.Sat.perform ⟨rfl, hs.1, hs.2, hS⟩) fun _ _ => ?_
  refine Txn.Sat.bind (keeps_gyDeviceInsertSession _ _ hs.2) fun _ _ => ?_
  cases opkRef with
  | none => trivial
  | some pkid => exact Txn.Sat.perform trivial

/-- Receiving an initial message keeps the invariant, on the path that has the session and on the
one that responds. -/
theorem keeps_recvInitOf (isHybrid : Bool) (c : RecvCtx β) (userId deviceId : Bytes β)
    (m : InitMsg β) (respond : Except GyErr (Session β × OpkRef)) (cap : Nat)
    (rnd : RatchetRand β)
    (hS : ∀ s pt s', S s → sessDecrypt rnd cap m.frame s = ((.ok pt, true), s') →
      S { s' with nrecv := s'.nrecv + 1, lastRecvAt := c.stamp s' })
    (hnew : ∀ base s opkRef pt b s', gySessionBase c.desc m.ik.curve m.ek = .ok base →
      respond = .ok (s, opkRef) →
      sessDecrypt rnd cap m.frame { s with base := base, id := sessionIdOf base } =
        ((.ok pt, b), s') → S { s' with nrecv := 1, lastRecvAt := c.stamp s' }) :
    Keeps (Stored S) (fun _ => True)
      (recvInitOf isHybrid c userId deviceId m respond cap rnd) := by
  unfold recvInitOf
  rcases hbase : gySessionBase c.desc m.ik.curve m.ek with _ | base
  · trivial
  · refine Txn.Sat.bind (Txn.Sat.lift fun _ _ => trivial) fun dk (_ : True) => ?_
    refine Txn.Sat.bind (keeps_gyOpLoadDeviceOf isHybrid dk) fun v _ => ?_
    -- a repeated first message goes to the session it made, a new one makes a session
    split
    · refine Txn.Sat.bind (keeps_trySession c userId deviceId _ _ m.frame cap rnd hS) fun x _ => ?_
      exact Txn.Sat.lift fun _ _ => trivial
    · refine Txn.Sat.bind (keeps_conditionalUpdateOf _ _ _ _ _ _) fun _ _ => ?_
      rcases respond with _ | ⟨s, opkRef⟩
      · trivial
      · have hsame := sessDecrypt_same rnd cap m.frame
          { s with base := base, id := sessionIdOf base }
        dsimp only
        rcases hdec : sessDecrypt rnd cap m.frame
            { s with base := base, id := sessionIdOf base } with ⟨⟨_ | pt, b⟩, s'⟩
        · trivial
        · rw [hdec] at hsame
          have hnamed : s'.Named := by
            refine ⟨?_, ?_⟩
            · rw [hsame.id, hsame.base]
            · rw [hsame.id]
              exact length_sessionIdOf_gySessionBase hbase
          refine Txn.Sat.bind (keeps_acceptFresh _ _ _ _ hnamed ?_) fun _ _ => trivial
          exact hnew base s opkRef pt b s' hbase rfl hdec

/-- The program of `gy_receive` keeps the kind of all records, if the sessions it decrypts on and
those it creates satisfy `S`. -/
theorem keeps_receiveProg (c : Custodian β) (now : Option UInt64) (opks : OpkPool β)
    (userId deviceId msg : Bytes β) (cap : Nat) (rnd : RatchetRand β)
    (hS : ∀ frame s pt s', S s → sessDecrypt rnd cap frame s = ((.ok pt, true), s') →
      S { s' with nrecv := s'.nrecv + 1, lastRecvAt := (c.recv now).stamp s' })
    (hnew : ∀ m respond base s opkRef pt b s', c.initiation now opks msg = some (m, respond) →
      gySessionBase c.desc m.ik.curve m.ek = .ok base → respond = .ok (s, opkRef) →
      sessDecrypt rnd cap m.frame { s with base := base, id := sessionIdOf base } =
        ((.ok pt, b), s') → S { s' with nrecv := 1, lastRecvAt := (c.recv now).stamp s' }) :
    Keeps (Stored S) (fun _ => True)
      (receiveProg c now opks userId deviceId msg cap rnd) := by
  have hdesc : (c.recv now).desc = c.desc := by
    unfold Custodian.recv
    split <;> rfl
  obtain ⟨m, respond, hinit, h⟩ | ⟨-, ⟨e, h⟩ | ⟨frame, h⟩⟩ :=
    receiveProg_cases c now opks userId deviceId msg cap rnd
  · rw [h]
    refine keeps_recvInitOf _ _ _ _ _ _ _ _ (hS m.frame) ?_
    rw [hdesc]
    exact fun base s opkRef pt b s' => hnew m respond base s opkRef pt b s' hinit
  · rw [h]
    trivial
  · rw [h]
    exact keeps_recvDr _ _ _ _ _ _ (hS frame)

/-! ## Managing peers -/

omit [DecidableEq β] in
/-- Accepting an identity keeps the invariant. -/
theorem keeps_acceptProg (c : Custodian β) (userId deviceId : Bytes β) (bundle : ParsedBundle β) :
    Keeps (Stored S) (fun _ => True) (acceptProg c userId deviceId bundle) := by
  unfold acceptProg gyAcceptKeyChange gyHybridAcceptKeyChange
  split
  · trivial
  · split_ifs
    · trivial
    · exact keeps_acceptKeyChangeOf _ _ _ _ _
  · split_ifs
    · trivial
    · exact keeps_acceptKeyChangeOf _ _ _ _ _
    · trivial

/-- Purging a user keeps a kind that the deletion of a device keeps. -/
theorem holds_gyDeleteUser {P : RecKey β → Record β → Prop} (faults : List (Faults β))
    (userId : Bytes β) (hdev : ∀ did, Keeps P (fun _ => True) (deferDeleteDeviceInner userId did))
    {d : Disk β} (hd : d.Holds P) : (gyDeleteUser faults userId d).2.Holds P := by
  -- by induction on the devices, each its own transaction
  have hdevs : ∀ (dids : List (Bytes β)) (faults : List (Faults β)) (d : Disk β),
      d.Holds P → (deleteDevices userId faults dids d).2.Holds P := by
    intro dids
    induction dids with
    | nil => exact fun _ _ hd => hd
    | cons did rest ih =>
      intro faults d hd
      have hstep := (hdev did).transact hd (faults.headD Faults.none)
      unfold deleteDevices
      split <;> next h =>
        rw [h] at hstep
        first | exact hstep | exact ih _ _ hstep
  have hdel : Keeps P (fun _ => True) (gyOpDelete (.user userId)) := Txn.Sat.perform trivial
  unfold gyDeleteUser
  split_ifs
  · exact hd
  · split
    · exact hd
    · exact hd
    · next usr _ _ =>
      have hall := hdevs (usr.devices.map DeviceEntry.id) faults.tail d hd
      split <;> next h =>
        rw [h] at hall
        first | exact hall | exact hdel.transact hall _

/-! ## Programs that only load -/

/-- A program that issues no action. -/
def ReadOnly {α : Type} (p : OpM β α) : Prop :=
  p.Sat (fun _ _ => True) (fun _ => False) (fun _ => True)

omit [DecidableEq β] [Octet β] [Sodium β] in
/-- Programs that only read compose. -/
theorem ReadOnly.bind {α τ : Type} {p : OpM β α} {f : α → OpM β τ} (hp : ReadOnly p)
    (hf : ∀ a, ReadOnly (f a)) : ReadOnly (p >>= f) :=
  Txn.Sat.bind hp fun a _ => hf a

omit [DecidableEq β] [Octet β] [Sodium β] in
/-- A pure result reads nothing. -/
theorem ReadOnly.lift {α : Type} (x : Except GyErr α) : ReadOnly (Txn.lift x : OpM β α) :=
  Txn.Sat.lift fun _ _ => trivial

omit [DecidableEq β] [Octet β] [Sodium β] in
/-- A load reads one record. -/
theorem ReadOnly.find (k : RecKey β) : ReadOnly (Txn.find k : OpM β _) :=
  Txn.Sat.find k

omit [DecidableEq β] [Octet β] [Sodium β] in
/-- Loading a user stages no change. -/
theorem readOnly_gyOpLoadUser (id : Bytes β) : ReadOnly (gyOpLoadUser id) := by
  refine (ReadOnly.find _).bind fun v => ?_
  split <;> trivial

omit [DecidableEq β] [Octet β] [Sodium β] in
/-- Loading a device stages no change. -/
theorem readOnly_gyOpLoadDeviceAny (key : Bytes β) : ReadOnly (gyOpLoadDeviceAny key) := by
  refine (ReadOnly.find _).bind fun v => ?_
  split <;> trivial

omit [DecidableEq β] [Octet β] [Sodium β] in
/-- Loading a session stages no change. -/
theorem readOnly_gyOpLoadSession (id : Bytes β) : ReadOnly (gyOpLoadSession id) := by
  refine ReadOnly.bind ?_ fun x => ReadOnly.lift x
  refine ReadOnly.bind (Txn.Sat.mono (Txn.Sat.attempt _) fun _ _ => trivial) fun v => ?_
  split <;> trivial

omit [DecidableEq β] in
/-- Classifying a device stages no change. -/
theorem readOnly_classifyDevice (c : SendCtx β) (userId deviceId : Bytes β) :
    ReadOnly (classifyDevice c userId deviceId) := by
  refine (ReadOnly.lift _).bind fun dk => (readOnly_gyOpLoadDeviceAny dk).bind fun v => ?_
  split
  · trivial
  · refine (readOnly_gyOpLoadSession _).bind fun v => ?_
    split <;> trivial

/-- Nor does classifying the devices of a user. -/
theorem readOnly_prepareDevices (c : SendCtx β) (userId : Bytes β) (l : List (DeviceEntry β)) :
    ReadOnly (prepareDevices c userId l) := by
  induction l with
  | nil => trivial
  | cons e rest ih =>
    unfold prepareDevices
    split_ifs
    · exact ih
    · exact (readOnly_classifyDevice _ _ _).bind fun _ => ih.bind fun _ => trivial

/-- Nor does classifying those of all targets. -/
theorem readOnly_prepareTargets (c : SendCtx β) (targets : List (Bytes β)) :
    ReadOnly (prepareTargets c targets) := by
  induction targets with
  | nil => trivial
  | cons userId rest ih =>
    refine (readOnly_gyOpLoadUser userId).bind fun v => ?_
    cases v with
    | none => exact ih.bind fun _ => trivial
    | some usr => exact (readOnly_prepareDevices _ _ _).bind fun _ => ih.bind fun _ => trivial

/-- A plan stages no change. -/
theorem readOnly_gySendPrepare (c : SendCtx β) (targets : List (Bytes β)) (cap : Nat) :
    ReadOnly (gySendPrepare c targets cap) := by
  refine (readOnly_prepareTargets c targets).bind fun descs => ?_
  split_ifs <;> trivial

/-- `gy_prepare` changes nothing. -/
theorem step_prepare (c : Custodian β) (st : ApiState β) (fault : RecKey β → Option GyErr)
    (targets : List (Bytes β)) (cap : Nat) :
    (st.step c (.prepare fault targets cap)).2 = st := by
  rcases st with ⟨d, _ | op⟩
  · rfl
  · have hop : ((gySendPrepare c.send targets cap).run engine (d.view fault) op).2 = op :=
      (readOnly_gySendPrepare c.send targets cap).run_readOnly op
    simp only [ApiState.step, gyPrepare, ApiState.inTx, hop]

/-! ## Every call -/

section Calls

variable {P : RecKey β → Record β → Prop}

/-- Stored and staged records are of a kind. -/
def ApiState.Holds (P : RecKey β → Record β → Prop) (st : ApiState β) : Prop :=
  st.disk.Holds P ∧ ∀ op, st.tx = some op → op.Holds P

/-- What a call does with its operation keeps a kind, whatever the one-time prekeys. -/
def Call.Keeps (P : RecKey β → Record β → Prop) (c : Custodian β) : Call β → Prop
  | .encrypt _ userId deviceId pt cap salt =>
    ∀ p, encryptProg c userId deviceId pt cap salt = .ok p → Geryon.Keeps P (fun _ => True) p
  | .initiate _ report userId deviceId bundle pt cap rnd =>
    ∀ p, initiateProg c report userId deviceId bundle pt cap rnd = .ok p →
      Geryon.Keeps P (fun _ => True) p
  | .receive _ now userId deviceId msg cap rnd =>
    ∀ opks, Geryon.Keeps P (fun _ => True) (receiveProg c now opks userId deviceId msg cap rnd)
  | .acceptIdentity _ userId deviceId bundle =>
    Geryon.Keeps P (fun _ => True) (acceptProg c userId deviceId bundle)
  | .purgeDevice _ userId deviceId =>
    Geryon.Keeps P (fun _ => True) (gyDeleteDevice userId deviceId)
  | .purgeUser faults userId =>
    ∀ d : Disk β, d.Holds P → (gyDeleteUser faults userId d).2.Holds P
  | .sendOpen | .prepare .. | .commit _ | .rollback => True

omit [Octet β] [Sodium β] in
/-- A send call keeps stored and staged records of a kind. -/
theorem ApiState.Holds.sendTx {st : ApiState β} (hst : st.Holds P)
    (fault : RecKey β → Option GyErr) {p : Except GyErr (OpM β (Bytes β))}
    (hp : ∀ q, p = .ok q → Geryon.Keeps P (fun _ => True) q) : (st.sendTx fault p).2.Holds P := by
  cases p with
  | error e => exact hst
  | ok q => exact (hp q rfl).inTx hst.1 hst.2 fault

omit [Octet β] [Sodium β] in
/-- A call with an operation of its own keeps stored and staged records of a kind. -/
theorem ApiState.Holds.alone {α : Type} {st : ApiState β} (hst : st.Holds P) (faults : Faults β)
    {p : OpM β α} (hp : Geryon.Keeps P (fun _ => True) p) : (st.alone faults p).2.Holds P :=
  ⟨hp.transact hst.1 faults, hst.2⟩

/-- Calls that keep a kind keep stored and staged records of that kind. -/
theorem ApiState.Holds.step {st : ApiState β} (hst : st.Holds P) {c : Custodian β}
    {call : Call β} (hcall : call.Keeps P c) : (st.step c call).2.Holds P := by
  -- the open send carries what is staged, the other calls what is stored
  cases call with
  | sendOpen =>
    rcases st with ⟨d, _ | op⟩
    · refine ⟨hst.1, ?_⟩
      rintro _ ⟨⟩
      exact Op.holds_empty
    · exact hst
  | prepare fault targets cap =>
    rw [step_prepare]
    exact hst
  | encrypt fault userId deviceId pt cap salt => exact hst.sendTx fault hcall
  | initiate fault report userId deviceId bundle pt cap rnd => exact hst.sendTx fault hcall
  | commit fault =>
    rcases st with ⟨d, _ | op⟩
    · exact hst
    · refine ⟨(hst.2 op rfl).gyOpCommit hst.1 fault, fun _ h => nomatch h⟩
  | rollback => exact ⟨hst.1, fun _ h => nomatch h⟩
  | receive faults now userId deviceId msg cap rnd => exact hst.alone faults (hcall _)
  | acceptIdentity faults userId deviceId bundle => exact hst.alone faults hcall
  | purgeDevice faults userId deviceId => exact hst.alone faults hcall
  | purgeUser faults userId => exact ⟨hcall _ hst.1, hst.2⟩

end Calls

/-- The records of a custodian, with nothing said of its sessions. -/
abbrev Record.Wf (k : RecKey β) (r : Record β) : Prop := Stored (fun _ => True) k r

/-- Stored and staged records are those of a custodian. -/
def ApiState.Wf (st : ApiState β) : Prop :=
  st.disk.Holds Record.Wf ∧ ∀ op, st.tx = some op → op.Holds Record.Wf

/-- Every call keeps stored and staged records. -/
theorem ApiState.Wf.step {st : ApiState β} (hst : st.Wf) (c : Custodian β) (call : Call β) :
    (st.step c call).2.Wf := by
  refine ApiState.Holds.step hst ?_
  cases call with
  | encrypt fault userId deviceId pt cap salt =>
    exact fun q => keeps_encryptProg c _ _ _ _ _ fun _ _ _ _ _ => trivial
  | initiate fault report userId deviceId bundle pt cap rnd =>
    exact fun q => keeps_initiateProg c _ _ _ _ _ _ _ fun _ _ _ _ _ _ => trivial
  | receive faults now userId deviceId msg cap rnd =>
    exact fun opks => keeps_receiveProg c _ _ _ _ _ _ _ (fun _ _ _ _ _ _ => trivial)
      fun _ _ _ _ _ _ _ _ _ _ _ _ => trivial
  | acceptIdentity faults userId deviceId bundle => exact keeps_acceptProg c _ _ _
  | purgeDevice faults userId deviceId => exact keeps_gyDeleteDevice _ _
  | purgeUser faults userId =>
    exact fun d hd => holds_gyDeleteUser faults userId (keeps_deferDeleteDeviceInner userId) hd
  | sendOpen | prepare | commit | rollback => trivial

end Geryon
