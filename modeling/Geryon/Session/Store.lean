import Geryon.Lib.Txn
import Geryon.Session.Record

/-!
# The staging engine

`session/store.c`: an operation stages record writes and deferred actions and flushes them through
the store callbacks at one commit point, records first, then sessions, then deletions and consumed
one-time prekeys. A load consults the stage before the store.

Operations are programs over the engine (`OpM`), run by `Txn.run` against a stage and a view of the
store. The view may fail at any key, as the load callback may.
-/

namespace Geryon

/-- `GY_OP_MAX_RECORDS`. -/
def opMaxRecords : Nat := 40

/-- `GY_OP_MAX_SESSIONS`. -/
def opMaxSessions : Nat := 34

/-- `GY_OP_MAX_DEFER`. -/
def opMaxDefer : Nat := 64

/-- A record kind (`enum gy_rec_kind`) with the identifier the record is stored under. -/
inductive RecKey (β : Type) where
  | user (id : Bytes β)
  | device (key : Bytes β)
  | session (id : Bytes β)
  deriving DecidableEq

/-- The identifier of a key. -/
def RecKey.id {β : Type} : RecKey β → Bytes β
  | .user id => id
  | .device key => key
  | .session id => id

/-- A stored record. -/
inductive Record (β : Type) where
  | user (u : UserRecord β)
  | device (d : DeviceRecord β)
  | session (s : Session β)

/-- The one-time prekeys of a custodian; the list of the other suite family is empty. -/
structure OpkPool (β : Type) where
  classical : List (CurvePair β)
  hybrid : List (HybridPair β)

/-- What is persisted: the records by key and the one-time prekeys. -/
@[ext] structure Disk (β : Type) where
  recs : RecKey β → Option (Record β)
  opks : OpkPool β

/-- A staged action. -/
inductive Act (β : Type) where
  | put (k : RecKey β) (r : Record β)
  | delete (k : RecKey β)
  | consumeOpk (pkid : UInt32)

/-- A deferred action (`struct gy_op_defer`). -/
inductive Defer (β : Type) where
  | delete (k : RecKey β)
  | consumeOpk (pkid : UInt32)
  deriving DecidableEq

/-- A staged operation (`struct gy_op`): the user and device slots in use, the session slots in use,
and the deferred actions. -/
structure Op (β : Type) where
  recs : List (RecKey β × Record β)
  sess : List (RecKey β × Record β)
  defers : List (Defer β)

/-- `gy_op_begin`. -/
def Op.empty {β : Type} : Op β := ⟨[], [], []⟩

/-- Programs over the engine. -/
abbrev OpM (β : Type) := Txn (RecKey β) (Record β) (Act β) GyErr

variable {β : Type} [DecidableEq β]

/-! ## Staging -/

/-- The record a slot list holds for a key. -/
def slotGet (l : List (RecKey β × Record β)) (k : RecKey β) : Option (Record β) :=
  (l.find? fun e => e.1 = k).map Prod.snd

/-- Write a record into the slot of its key, or into a free slot if there is one. -/
def slotPut (cap : Nat) (l : List (RecKey β × Record β)) (k : RecKey β) (r : Record β) :
    Except GyErr (List (RecKey β × Record β)) :=
  if l.any fun e => e.1 = k then .ok (l.map fun e => if e.1 = k then (k, r) else e)
  else if l.length < cap then .ok (l ++ [(k, r)])
  else .error .state

/-- `stage_lookup`: a staged record answers for the store, and a staged deletion hides the stored
one. -/
def stageLookup (op : Op β) (k : RecKey β) : Option (Option (Record β)) :=
  match (match k with | .session _ => slotGet op.sess k | _ => slotGet op.recs k) with
  | some r => some (some r)
  | none => if Defer.delete k ∈ op.defers then some none else none

/-- Append a deferred action. -/
def pushDefer (op : Op β) (d : Defer β) : Except GyErr (Op β) :=
  if opMaxDefer ≤ op.defers.length then .error .state
  else .ok { op with defers := op.defers ++ [d] }

/-- `put_rec`, `gy_op_put_session`, `gy_op_delete` and `gy_op_consume_opk`. -/
def stageAct (a : Act β) (op : Op β) : Except GyErr (Op β) :=
  match a with
  | .put (.session id) r => do
    let l ← slotPut opMaxSessions op.sess (.session id) r
    return { op with sess := l }
  | .put k r => do
    let l ← slotPut opMaxRecords op.recs k r
    return { op with recs := l }
  -- deletes and consumed keys are put off until the commit
  | .delete k =>
    if k.id.length = 0 ∨ deviceIdMax < k.id.length then .error .arg else pushDefer op (.delete k)
  | .consumeOpk pkid => pushDefer op (.consumeOpk pkid)

/-- The staging engine. -/
def engine : Txn.Stage (RecKey β) (Record β) (Act β) GyErr (Op β) := ⟨stageLookup, stageAct⟩

/-- What the load callback returns at a key: an error of its choice or the stored record. -/
def Disk.view (d : Disk β) (fault : RecKey β → Option GyErr) (k : RecKey β) :
    Except GyErr (Option (Record β)) :=
  match fault k with
  | some e => .error e
  | none => .ok (d.recs k)

/-! ## Loads and puts -/

/-- `gy_op_load_user`. -/
def gyOpLoadUser (id : Bytes β) : OpM β (Option (UserRecord β)) := do
  match ← Txn.find (.user id) with
  | none => return none
  | some (.user u) => return some u
  | some _ => Txn.fail .arg

/-- `gy_op_load_device_any`. -/
def gyOpLoadDeviceAny (key : Bytes β) : OpM β (Option (DeviceRecord β)) := do
  match ← Txn.find (.device key) with
  | none => return none
  | some (.device d) => return some d
  | some _ => Txn.fail .arg

/-- `gy_op_load_device` and `gy_op_load_hybrid_device`: a record of the other family does not
decode. -/
def gyOpLoadDeviceOf (isHybrid : Bool) (key : Bytes β) : OpM β (Option (DeviceRecord β)) := do
  match ← gyOpLoadDeviceAny key with
  | none => return none
  | some d => if d.ik.pq.isSome = isHybrid then return some d else Txn.fail .arg

/-- `gy_op_load_session`, for callers that look at its return code. -/
def gyOpTryLoadSession (id : Bytes β) : OpM β (Except GyErr (Option (Session β))) := do
  match ← Txn.attempt (.session id) with
  | .error e => return .error e
  | .ok none => return .ok none
  | .ok (some (.session s)) => return .ok (some s)
  | .ok (some _) => return .error .arg

/-- `gy_op_load_session`, for callers that pass an error on. -/
def gyOpLoadSession (id : Bytes β) : OpM β (Option (Session β)) := do
  Txn.lift (← gyOpTryLoadSession id)

/-- `gy_op_put_user`. -/
def gyOpPutUser (u : UserRecord β) : OpM β Unit := Txn.perform (.put (.user u.userId) (.user u))

/-- `gy_op_put_device_any`. -/
def gyOpPutDevice (d : DeviceRecord β) (key : Bytes β) : OpM β Unit :=
  Txn.perform (.put (.device key) (.device d))

/-- `gy_op_put_session`. -/
def gyOpPutSession (s : Session β) : OpM β Unit := Txn.perform (.put (.session s.id) (.session s))

/-- `gy_op_delete`. -/
def gyOpDelete (k : RecKey β) : OpM β Unit := Txn.perform (.delete k)

/-- `gy_op_consume_opk`. -/
def gyOpConsumeOpk (pkid : UInt32) : OpM β Unit := Txn.perform (.consumeOpk pkid)

/-! ## Commit -/

/-- A store callback issued by a commit. -/
inductive Callback (β : Type) where
  | store (k : RecKey β) (r : Record β)
  | delete (k : RecKey β)
  | consumeOpk (pkid : UInt32)

/-- The callback of a deferred action. -/
def Defer.callback : Defer β → Callback β
  | .delete k => .delete k
  | .consumeOpk pkid => .consumeOpk pkid

/-- The callbacks of `gy_op_commit`, in the order it issues them. -/
def Op.callbacks (op : Op β) : List (Callback β) :=
  (op.recs ++ op.sess).map (fun e => .store e.1 e.2) ++ op.defers.map Defer.callback

/-- Destroy a one-time prekey. -/
def OpkPool.consume (p : OpkPool β) (pkid : UInt32) : OpkPool β :=
  ⟨p.classical.eraseP fun k => k.pub.pkid = pkid, p.hybrid.eraseP fun k => k.pub.curve.pkid = pkid⟩

/-- The effect of a callback that succeeds. -/
def Disk.apply (d : Disk β) : Callback β → Disk β
  | .store k r => { d with recs := Function.update d.recs k (some r) }
  | .delete k => { d with recs := Function.update d.recs k none }
  | .consumeOpk pkid => { d with opks := d.opks.consume pkid }

/-- The effect of a sequence of callbacks. -/
def Disk.applyAll (d : Disk β) (cbs : List (Callback β)) : Disk β := cbs.foldl Disk.apply d

/-- A failing callback of a commit: its number and its return code. -/
structure CommitFault where
  at_ : Nat
  err : GyErr

/-- `gy_op_commit`: issue the callbacks up to the first that fails. -/
def gyOpCommit (fault : Option CommitFault) (op : Op β) (d : Disk β) : Except GyErr Unit × Disk β :=
  match fault with
  | some f =>
    if f.at_ < op.callbacks.length then (.error f.err, d.applyAll (op.callbacks.take f.at_))
    else (.ok (), d.applyAll op.callbacks)
  | none => (.ok (), d.applyAll op.callbacks)

/-- What the callbacks may do to one call: which loads fail, and which callback of its commit. -/
structure Faults (β : Type) where
  load : RecKey β → Option GyErr
  commit : Option CommitFault

/-- Callbacks that succeed. -/
def Faults.none : Faults β := ⟨fun _ => .none, .none⟩

/-- A call with its own operation: begin, run, and commit on success or abort on failure. The
result is what the call returns. -/
def Disk.transact {α : Type} (d : Disk β) (faults : Faults β) (p : OpM β α) :
    Except GyErr α × Disk β :=
  match p.run engine (d.view faults.load) Op.empty with
  | (.error e, _) => (.error e, d)
  | (.ok a, op) =>
    match gyOpCommit faults.commit op d with
    | (.ok (), d') => (.ok a, d')
    | (.error e, d') => (.error e, d')

end Geryon
