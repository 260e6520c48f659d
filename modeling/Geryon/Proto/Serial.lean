import Geryon.Proto.Planned

/-!
# Interleaving a send transaction with committing calls

A send transaction loads records, keeps staged copies of them and writes the copies back at
`gy_commit`; meanwhile `gy_receive`, `gy_accept_identity` and the purges read and write the store on
their own. The transaction is not told when a record it has loaded changes underneath.

## Main definitions

- `succeeded`: the operations of a run that returned success, each with its own calls.
- `SerialRun`: the store after a run is that of running these operations one after another.
- `Undisturbed`: the condition on a run under which no update is lost.

## Main results

- `serialRun_of_undisturbed`: an undisturbed run is serial, in the order of completion.
-/

namespace Geryon

variable {β : Type} [DecidableEq β] [Octet β] [Sodium β]

/-! ## The calls of a transaction -/

variable (c : Custodian β)

/-- The program of a send call, with the loads that fail during it. -/
def Call.sendProg : Call β → Option ((RecKey β → Option GyErr) × OpM β (Bytes β))
  | .encrypt fault userId deviceId pt cap salt =>
    (encryptProg c userId deviceId pt cap salt).toOption.map fun p => (fault, p)
  | .initiate fault report userId deviceId bundle pt cap rnd =>
    (initiateProg c report userId deviceId bundle pt cap rnd).toOption.map fun p => (fault, p)
  | _ => none

/-- Whether a call is made inside a send transaction and may stage records. -/
def Call.isSend : Call β → Bool
  | .encrypt .. => true
  | .initiate .. => true
  | _ => false

/-- Whether a call commits on its own. -/
def Call.isAlone : Call β → Bool
  | .receive .. => true
  | .acceptIdentity .. => true
  | .purgeDevice .. => true
  | .purgeUser .. => true
  | _ => false

/-- What send calls stage over a store. -/
def stageAll (d : Disk β) : List (Call β) → Op β → Op β
  | [], op => op
  | call :: rest, op =>
    match call.sendProg c with
    | none => stageAll d rest op
    | some (fault, p) => stageAll d rest (p.run engine (d.view fault) op).2

/-- The records send calls load from a store. -/
def loadedBy (d : Disk β) : List (Call β) → Op β → List (RecKey β)
  | [], _ => []
  | call :: rest, op =>
    match call.sendProg c with
    | none => loadedBy d rest op
    | some (fault, p) =>
      p.reads engine (d.view fault) op ++ loadedBy d rest (p.run engine (d.view fault) op).2

/-- What send calls stage depends on the store only through the records they load. -/
theorem stageAll_congr {d d' : Disk β} (body : List (Call β)) (op : Op β)
    (h : ∀ k ∈ loadedBy c d body op, d'.recs k = d.recs k) :
    stageAll c d' body op = stageAll c d body op := by
  induction body generalizing op with
  | nil => rfl
  | cons call rest ih =>
    simp only [stageAll]
    simp only [loadedBy] at h
    rcases hp : call.sendProg c with - | ⟨fault, p⟩
    · rw [hp] at h
      exact ih op h
    · rw [hp] at h
      have hview : ∀ k ∈ p.reads engine (d.view fault) op, d'.view fault k = d.view fault k := by
        intro k hk
        simp only [Disk.view, h k (List.mem_append_left _ hk)]
      dsimp only
      rw [(Txn.run_congr p op hview).1]
      exact ih _ fun k hk => h k (List.mem_append_right _ hk)

theorem stageAll_append (d : Disk β) (l l' : List (Call β)) (op : Op β) :
    stageAll c d (l ++ l') op = stageAll c d l' (stageAll c d l op) := by
  induction l generalizing op with
  | nil => rfl
  | cons call rest ih =>
    simp only [List.cons_append, stageAll]
    split <;> exact ih _

/-- A send call inside a transaction stages what its program stages. -/
theorem step_isSend {call : Call β} (hcall : call.isSend) (d : Disk β) (op : Op β) :
    ((⟨d, some op⟩ : ApiState β).step c call).2 = ⟨d, some (stageAll c d [call] op)⟩ := by
  cases call with
  | encrypt fault userId deviceId pt cap salt =>
    simp only [ApiState.step, gyEncrypt, ApiState.sendTx, stageAll, Call.sendProg]
    rcases encryptProg c userId deviceId pt cap salt with _ | p <;> rfl
  | initiate fault report userId deviceId bundle pt cap rnd =>
    simp only [ApiState.step, gyInitiate, ApiState.sendTx, stageAll, Call.sendProg]
    rcases initiateProg c report userId deviceId bundle pt cap rnd with _ | p <;> rfl
  | _ => cases hcall

/-- A send call without a transaction does nothing. -/
theorem step_isSend_none {call : Call β} (hcall : call.isSend) (d : Disk β) :
    ((⟨d, none⟩ : ApiState β).step c call).2 = ⟨d, none⟩ := by
  cases call with
  | encrypt fault userId deviceId pt cap salt =>
    simp only [ApiState.step, gyEncrypt, ApiState.sendTx]
    rcases encryptProg c userId deviceId pt cap salt with _ | p <;> rfl
  | initiate fault report userId deviceId bundle pt cap rnd =>
    simp only [ApiState.step, gyInitiate, ApiState.sendTx]
    rcases initiateProg c report userId deviceId bundle pt cap rnd with _ | p <;> rfl
  | _ => cases hcall

/-- The send calls of a transaction in a row stage what their programs stage. -/
theorem run_isSend {body : List (Call β)} (hbody : ∀ call ∈ body, call.isSend) (d : Disk β)
    (op : Op β) : (⟨d, some op⟩ : ApiState β).run c body = ⟨d, some (stageAll c d body op)⟩ := by
  induction body generalizing op with
  | nil => rfl
  | cons call rest ih =>
    have hrest := ih fun call' h => hbody call' (List.mem_cons_of_mem _ h)
    rw [ApiState.run, List.foldl_cons, step_isSend c (hbody call List.mem_cons_self)]
    exact (hrest _).trans (by rw [← stageAll_append, List.singleton_append])

/-- A call that commits on its own neither sees nor touches the open transaction. -/
theorem step_isAlone {call : Call β} (hcall : call.isAlone) (d : Disk β) (tx : Option (Op β)) :
    (⟨d, tx⟩ : ApiState β).step c call =
      (((⟨d, none⟩ : ApiState β).step c call).1,
        ⟨((⟨d, none⟩ : ApiState β).step c call).2.disk, tx⟩) ∧
      ((⟨d, none⟩ : ApiState β).step c call).2.tx = none := by
  cases call with
  | receive faults now userId deviceId msg cap rnd => exact ⟨rfl, rfl⟩
  | acceptIdentity faults userId deviceId bundle => exact ⟨rfl, rfl⟩
  | purgeDevice faults userId deviceId => exact ⟨rfl, rfl⟩
  | purgeUser faults userId => exact ⟨rfl, rfl⟩
  | _ => cases hcall

/-! ## Calls that fail without a trace -/

/-- A failing callback that leaves nothing behind: none of its commit has run before it. -/
def Harmless (fault : Option CommitFault) : Prop := ∀ f, fault = some f → f.at_ = 0

omit [Octet β] [Sodium β] in
theorem gyOpCommit_harmless {fault : Option CommitFault} (hf : Harmless fault) (op : Op β)
    (d : Disk β) {e : GyErr} (h : (gyOpCommit fault op d).1 = .error e) :
    (gyOpCommit fault op d).2 = d := by
  unfold gyOpCommit at h ⊢
  cases fault with
  | none => cases h
  | some f =>
    dsimp only at h ⊢
    split_ifs at h ⊢
    rw [hf f rfl]
    rfl

omit [Octet β] [Sodium β] in
/-- A call whose commit fails harmlessly, or that fails before, leaves the store as it was. -/
theorem transact_harmless {α : Type} {faults : Faults β} (hf : Harmless faults.commit)
    (p : OpM β α) (d : Disk β) {e : GyErr} (h : (d.transact faults p).1 = .error e) :
    (d.transact faults p).2 = d := by
  unfold Disk.transact at h ⊢
  split
  · rfl
  · next a op hrun =>
    simp only [hrun] at h
    have hcommit : ∀ e, (gyOpCommit faults.commit op d).1 = .error e → _ := fun _ =>
      gyOpCommit_harmless hf op d
    split
    · next d' hok =>
      rw [hok] at h
      cases h
    · next e' d' herr =>
      rw [herr] at hcommit
      exact hcommit e' rfl

omit [Octet β] [Sodium β] in
/-- Deferring deletions succeeds within the capacity of an operation. -/
theorem run_deleteSessions (view : RecKey β → Except GyErr (Option (Record β)))
    {ids : List (Bytes β)} (hids : ∀ id ∈ ids, id.length = sessionIdLen) (op : Op β)
    (hcap : op.defers.length + ids.length ≤ opMaxDefer) :
    (deleteSessions ids).run engine view op =
      (.ok (), { op with defers := op.defers ++ ids.map fun id => .delete (.session id) }) := by
  induction ids generalizing op with
  | nil => simp [deleteSessions]
  | cons id rest ih =>
    have hid : id.length = 4 := hids id List.mem_cons_self
    simp only [List.length_cons] at hcap
    have hstage : stageAct (.delete (.session id)) op =
        .ok { op with defers := op.defers ++ [.delete (.session id)] } := by
      simp only [stageAct, RecKey.id, hid, deviceIdMax, pushDefer]
      rw [if_neg (by omega), if_neg (by omega)]
    have hrest := ih (fun id' h => hids id' (List.mem_cons_of_mem _ h))
      { op with defers := op.defers ++ [.delete (.session id)] }
      (by simp only [List.length_append, List.length_singleton]; omega)
    rw [deleteSessions, Txn.run_bind, gyOpDelete]
    simp only [Cmd.bind_apply, Txn.run_perform, engine, hstage]
    rw [engine] at hrest
    rw [hrest]
    simp

/-- Deleting a device succeeds over the records of a custodian when no load fails. -/
theorem run_deferDeleteDeviceInner {userId deviceId : Bytes β} {d : Disk β}
    (hd : d.Holds Record.Wf) (huser : ¬(userId.length = 0 ∨ userIdMax < userId.length))
    (hdev : 0 < deviceId.length ∧ deviceId.length ≤ deviceIdMax) :
    ∃ op, (deferDeleteDeviceInner userId deviceId).run engine (d.view fun _ => none) Op.empty =
      (.ok (), op) := by
  obtain ⟨dk, hdk, hlen⟩ : ∃ dk, gyDevrecKey userId deviceId = .ok dk ∧ dk.length = 64 := by
    refine ⟨_, if_neg ?_, Sodium.length_sha512 _⟩
    omega
  have hans : Txn.answer engine (d.view fun _ => none) Op.empty (.device dk) =
      .ok (d.recs (.device dk)) := rfl
  rw [deferDeleteDeviceInner, hdk, Txn.run_bind, Cmd.bind_apply_of_ok (Txn.run_lift _ _),
    Txn.run_bind]
  rcases hrec : d.recs (.device dk) with - | (u | dev | s)
  · have hload : (gyOpLoadDeviceAny dk).run engine (d.view fun _ => none) Op.empty =
        (.ok none, Op.empty) := by
      rw [gyOpLoadDeviceAny, Txn.run_bind, Cmd.bind_apply, Txn.run_find, hans, hrec]
      rfl
    rw [Cmd.bind_apply_of_ok hload]
    exact ⟨_, rfl⟩
  · exact (hd _ _ hrec).elim
  · have hload : (gyOpLoadDeviceAny dk).run engine (d.view fun _ => none) Op.empty =
        (.ok (some dev), Op.empty) := by
      rw [gyOpLoadDeviceAny, Txn.run_bind, Cmd.bind_apply, Txn.run_find, hans, hrec]
      rfl
    have hwf : Stored (fun _ => True) (.device dk) (.device dev) := hd _ _ hrec
    have hcount : dev.sessions.length ≤ 41 := by
      have h1 : dev.active.toList.length ≤ 1 := by cases dev.active <;> simp
      have h2 : dev.inactive.length ≤ 40 := hwf.2
      rw [DeviceRecord.sessions, List.length_append]
      omega
    have hsess := run_deleteSessions (d.view fun _ => none) hwf.1 Op.empty
      (by simp only [Op.empty, List.length_nil, opMaxDefer]; omega)
    rw [Cmd.bind_apply_of_ok hload, Txn.run_bind, Cmd.bind_apply_of_ok hsess, gyOpDelete,
      Txn.run_perform]
    simp only [engine, stageAct, RecKey.id, hlen, deviceIdMax, pushDefer]
    rw [if_neg (by omega), if_neg ?_]
    · exact ⟨_, rfl⟩
    · simp only [Op.empty, List.nil_append, List.length_map, opMaxDefer]
      omega
  · exact (hd _ _ hrec).elim

/-- Over the records of a custodian, and with callbacks that succeed, every device of a purged user
is deleted. -/
theorem deleteDevices_ok {userId : Bytes β}
    (huser : ¬(userId.length = 0 ∨ userIdMax < userId.length))
    {faults : List (Faults β)} (hfaults : ∀ f ∈ faults, f = Faults.none) (dids : List (Bytes β)) :
    ∀ {d : Disk β}, d.Holds Record.Wf → (∀ did ∈ dids, 0 < did.length ∧ did.length ≤ deviceIdMax) →
      (deleteDevices userId faults dids d).1 = .ok () := by
  induction dids generalizing faults with
  | nil => exact fun _ _ => rfl
  | cons did rest ih =>
    intro d hd hdids
    have hhead : faults.headD Faults.none = Faults.none := by
      cases faults with
      | nil => rfl
      | cons f fs => exact hfaults f List.mem_cons_self
    have hstep := (keeps_deferDeleteDeviceInner (S := fun _ => True) userId did).transact hd
      Faults.none
    obtain ⟨op, hop⟩ := run_deferDeleteDeviceInner hd huser (hdids did List.mem_cons_self)
    have htx : d.transact Faults.none (deferDeleteDeviceInner userId did) =
        (.ok (), d.applyAll op.callbacks) := by
      unfold Disk.transact
      simp only [Faults.none, hop, gyOpCommit]
    rw [htx] at hstep
    rw [deleteDevices, hhead, htx]
    exact ih (fun f hf => hfaults f (List.mem_of_mem_tail hf)) hstep
      fun did' h => hdids did' (List.mem_cons_of_mem _ h)

/-- The callbacks of a purged user's transactions after the first succeed, and the first fails, if
it does, without leaving anything behind. -/
def PurgeSafe (faults : List (Faults β)) : Prop :=
  Harmless (faults.tail.headD Faults.none).commit ∧ ∀ f ∈ faults.drop 2, f = Faults.none

/-- A purge of a user that fails with such callbacks leaves the store as it was. -/
theorem gyDeleteUser_safe {faults : List (Faults β)} (hf : PurgeSafe faults) (userId : Bytes β)
    {d : Disk β} (hd : d.Holds Record.Wf) {e : GyErr}
    (h : (gyDeleteUser faults userId d).1 = .error e) : (gyDeleteUser faults userId d).2 = d := by
  unfold gyDeleteUser at h ⊢
  split_ifs at h ⊢ with huser
  · rfl
  · have hload := (keeps_gyOpLoadUser (S := fun _ => True) userId).run hd
      (faults.headD Faults.none).load Op.holds_empty
    rcases hrun : (gyOpLoadUser userId).run engine (d.view (faults.headD Faults.none).load)
        Op.empty with ⟨_ | (_ | usr), op⟩
    · rfl
    · rfl
    · rw [hrun] at h hload
      have hids : ∀ did ∈ usr.devices.map DeviceEntry.id, 0 < did.length ∧
          did.length ≤ deviceIdMax := by
        intro did hdid
        obtain ⟨en, hen, rfl⟩ := List.mem_map.mp hdid
        exact (hload.2 (some usr) rfl usr rfl).2 en hen
      have hdrop : ∀ f ∈ faults.tail.tail, f = Faults.none := by
        rcases faults with - | ⟨f, - | ⟨f', fs⟩⟩ <;> exact hf.2
      dsimp only at h ⊢
      -- with no device the only transaction is that of the user record, else that of the first
      cases hdevs : usr.devices with
      | nil =>
        simp only [hdevs, List.map_nil, deleteDevices, List.length_nil] at h ⊢
        have hget : faults.getD (0 + 1) Faults.none = faults.tail.headD Faults.none := by
          rcases faults with - | ⟨f, - | ⟨f', fs⟩⟩ <;> rfl
        rw [hget] at h ⊢
        exact transact_harmless hf.1 _ d h
      | cons en ens =>
        rw [hdevs, List.map_cons] at hids
        simp only [hdevs, List.map_cons, deleteDevices] at h ⊢
        rcases hfirst : d.transact (faults.tail.headD Faults.none)
            (deferDeleteDeviceInner userId en.id) with ⟨e' | _, d'⟩
        · have hsame := transact_harmless hf.1 (deferDeleteDeviceInner userId en.id) d
            (by rw [hfirst])
          rw [hfirst] at hsame
          exact hsame
        · have hd' := (keeps_deferDeleteDeviceInner (S := fun _ => True) userId en.id).transact hd
            (faults.tail.headD Faults.none)
          rw [hfirst] at hd' h
          have hrest := deleteDevices_ok huser hdrop (ens.map DeviceEntry.id) hd'
            fun did hdid => hids did (List.mem_cons_of_mem _ hdid)
          rcases hall : deleteDevices userId faults.tail.tail (ens.map DeviceEntry.id) d' with
            ⟨e' | _, d''⟩
          · rw [hall] at hrest
            cases hrest
          · exfalso
            have hget : faults.getD ((en :: ens).length + 1) Faults.none = Faults.none := by
              rcases faults with - | ⟨f, - | ⟨f', fs⟩⟩
              · rfl
              · rfl
              · simp only [List.length_cons, List.getD_cons_succ]
                rw [List.getD_eq_getElem?_getD]
                rcases hfs : fs[ens.length]? with - | f''
                · rfl
                · exact hdrop f'' (List.mem_of_getElem? hfs)
            rw [hget] at h
            dsimp only at h
            rw [hall] at h
            dsimp only at h
            have hdel :
                (gyOpDelete (.user userId)).run engine (d''.view Faults.none.load) Op.empty =
                (.ok (), ⟨[], [], [.delete (.user userId)]⟩) := by
              simp only [userIdMax] at huser
              simp only [gyOpDelete, Txn.run_perform, engine, stageAct, RecKey.id, deviceIdMax,
                pushDefer, Op.empty, if_neg huser]
              rfl
            rw [Disk.transact, hdel] at h
            cases h

/-! ## Runs and their operations -/

/-- A run under observation: the state, the send calls of the open transaction, and the operations
that have returned success, each as the calls it is made of. -/
structure Trace (β : Type) where
  st : ApiState β
  body : List (Call β)
  done : List (List (Call β))

/-- The operations after a call that completes one if it succeeds. -/
def Trace.complete (t : Trace β) (res : Except GyErr (Reply β)) (op : List (Call β)) :
    List (List (Call β)) :=
  match res with
  | .ok _ => t.done ++ [op]
  | .error _ => t.done

/-- Observe one call. A transaction is complete when `gy_commit` returns success; any other
committing call is an operation of its own. -/
def Trace.step (t : Trace β) (call : Call β) : Trace β :=
  let r := t.st.step c call
  match call with
  | .sendOpen => ⟨r.2, if t.st.tx.isSome then t.body else [], t.done⟩
  | .encrypt .. | .initiate .. => ⟨r.2, t.body ++ [call], t.done⟩
  | .prepare .. => ⟨r.2, t.body, t.done⟩
  | .commit _ => ⟨r.2, [], t.complete r.1 (.sendOpen :: (t.body ++ [call]))⟩
  | .rollback => ⟨r.2, [], t.done⟩
  | .receive .. | .acceptIdentity .. | .purgeDevice .. | .purgeUser .. =>
    ⟨r.2, t.body, t.complete r.1 [call]⟩

/-- Observe a run. -/
def Trace.run (t : Trace β) (calls : List (Call β)) : Trace β := calls.foldl (Trace.step c) t

/-- The observation of a custodian at rest. -/
def Trace.start (d : Disk β) : Trace β := ⟨⟨d, none⟩, [], []⟩

theorem Trace.step_st (t : Trace β) (call : Call β) :
    (t.step c call).st = (t.st.step c call).2 := by
  cases call <;> rfl

/-- A call does not change a record that the open transaction has loaded. -/
def KeepsLoaded (t : Trace β) (call : Call β) : Prop :=
  t.st.tx.isSome → ∀ k ∈ loadedBy c t.st.disk t.body Op.empty,
    (t.st.step c call).2.disk.recs k = t.st.disk.recs k

/-- The condition on one call of a run: a callback of its commit fails, if one does, before any
other has run, and a call that commits on its own leaves the records that the open transaction has
loaded. -/
def Undisturbed (t : Trace β) (call : Call β) : Prop :=
  match call with
  | .commit fault => Harmless fault
  | .receive faults .. => Harmless faults.commit ∧ KeepsLoaded c t call
  | .acceptIdentity faults .. => Harmless faults.commit ∧ KeepsLoaded c t call
  | .purgeDevice faults .. => Harmless faults.commit ∧ KeepsLoaded c t call
  | .purgeUser faults _ => PurgeSafe faults ∧ KeepsLoaded c t call
  | _ => True

/-- Every call of a run meets the condition. -/
def UndisturbedRun (t : Trace β) : List (Call β) → Prop
  | [] => True
  | call :: rest => Undisturbed c t call ∧ UndisturbedRun (t.step c call) rest

/-! ## Undisturbed runs -/

/-- What an undisturbed run keeps: the open transaction is what its calls stage over the store as it
is now, and the store is that of the completed operations run one after another. -/
structure Trace.Inv (d : Disk β) (t : Trace β) : Prop where
  wf : t.st.Wf
  sends : ∀ call ∈ t.body, call.isSend
  staged : ∀ op, t.st.tx = some op → op = stageAll c t.st.disk t.body Op.empty
  serial : (⟨d, none⟩ : ApiState β).run c t.done.flatten = ⟨t.st.disk, none⟩

/-- Running one more operation after those that are done. -/
theorem run_flatten_append (st : ApiState β) (done : List (List (Call β))) (op : List (Call β)) :
    st.run c (done ++ [op]).flatten = (st.run c done.flatten).run c op := by
  simp only [ApiState.run, List.flatten_append, List.foldl_append, List.flatten_cons,
    List.flatten_nil, List.append_nil]

variable {c}

/-- A send call, inside a transaction or not. -/
theorem Trace.Inv.send {d : Disk β} {t : Trace β} (hinv : t.Inv c d) {call : Call β}
    (hcall : call.isSend) (hbody : (t.step c call).body = t.body ++ [call])
    (hdone : (t.step c call).done = t.done) : (t.step c call).Inv c d := by
  have hst : (t.step c call).st = (t.st.step c call).2 := Trace.step_st c t call
  have hdisk : (t.st.step c call).2.disk = t.st.disk := by
    rcases t.st with ⟨disk, _ | op⟩
    · rw [step_isSend_none c hcall]
    · rw [step_isSend c hcall]
  refine ⟨?_, ?_, ?_, ?_⟩
  · rw [hst]
    exact hinv.wf.step c call
  · rw [hbody]
    intro call' h
    rcases List.mem_append.mp h with h1 | h1
    · exact hinv.sends call' h1
    · rw [List.mem_singleton.mp h1]
      exact hcall
  · rw [hst, hbody, hdisk]
    rcases hold : t.st with ⟨disk, _ | op⟩
    · rw [step_isSend_none c hcall]
      exact fun op h => nomatch h
    · rw [step_isSend c hcall]
      rintro _ ⟨⟩
      have hop := hinv.staged op (by rw [hold])
      rw [hold] at hop
      rw [stageAll_append, ← hop]
  · rw [hst, hdone, hdisk]
    exact hinv.serial

/-- A committing call outside the transaction. -/
theorem Trace.Inv.alone {d : Disk β} {t : Trace β} (hinv : t.Inv c d) {call : Call β}
    (hcall : call.isAlone) (hstep : (t.step c call).body = t.body ∧
      (t.step c call).done = t.complete (t.st.step c call).1 [call])
    (hkeep : KeepsLoaded c t call)
    (hfail : ∀ e, (t.st.step c call).1 = .error e → (t.st.step c call).2.disk = t.st.disk) :
    (t.step c call).Inv c d := by
  have hst : (t.step c call).st = (t.st.step c call).2 := Trace.step_st c t call
  obtain ⟨halone, hnone⟩ := step_isAlone c hcall t.st.disk t.st.tx
  have htx : (t.st.step c call).2.tx = t.st.tx := by rw [halone]
  refine ⟨?_, ?_, ?_, ?_⟩
  · rw [hst]
    exact hinv.wf.step c call
  · rw [hstep.1]
    exact hinv.sends
  · intro op hop
    rw [hst, htx] at hop
    rw [hst, hstep.1, stageAll_congr c t.body Op.empty (hkeep (by rw [hop]; rfl))]
    exact hinv.staged op hop
  · rw [hst, hstep.2]
    rcases hres : (t.st.step c call).1 with e | r
    · rw [hfail e hres]
      exact hinv.serial
    · rw [Trace.complete, run_flatten_append, hinv.serial]
      have hdisk : (t.st.step c call).2.disk =
          ((⟨t.st.disk, none⟩ : ApiState β).step c call).2.disk := by
        rw [halone]
      rw [hdisk]
      exact congrArg₂ ApiState.mk rfl hnone

/-- A commit of the open transaction. -/
theorem Trace.Inv.commit {d : Disk β} {t : Trace β} (hinv : t.Inv c d)
    {fault : Option CommitFault} (hf : Harmless fault) : (t.step c (.commit fault)).Inv c d := by
  rcases t with ⟨⟨disk, tx⟩, body, done⟩
  have hwf : (⟨disk, tx⟩ : ApiState β).Wf := hinv.wf
  refine ⟨?_, fun _ h => (nomatch h), ?_, ?_⟩
  · rw [Trace.step_st]
    exact hwf.step c _
  · intro op hop
    rw [Trace.step_st] at hop
    cases tx <;> cases hop
  · cases tx with
    | none => exact hinv.serial
    | some op =>
      have hstaged : op = stageAll c disk body Op.empty := hinv.staged op rfl
      have hserial : (⟨d, none⟩ : ApiState β).run c done.flatten = ⟨disk, none⟩ := hinv.serial
      have hreplay : (⟨disk, none⟩ : ApiState β).run c (.sendOpen :: (body ++ [.commit fault])) =
          ⟨(gyOpCommit fault op disk).2, none⟩ := by
        have hopen : (⟨disk, none⟩ : ApiState β).run c (.sendOpen :: (body ++ [.commit fault])) =
            ((⟨disk, some Op.empty⟩ : ApiState β).run c body).run c [.commit fault] := by
          simp only [ApiState.run, List.foldl_cons, List.foldl_append]
          rfl
        rw [hopen, run_isSend c hinv.sends, ← hstaged]
        rfl
      show (⟨d, none⟩ : ApiState β).run c (Trace.complete ⟨_, body, done⟩
        ((gyOpCommit fault op disk).1.map fun _ => .ok) _).flatten =
          ⟨(gyOpCommit fault op disk).2, none⟩
      rcases hres : (gyOpCommit fault op disk).1 with e | _
      · rw [gyOpCommit_harmless hf op disk hres]
        exact hserial
      · exact (run_flatten_append c _ done _).trans (by rw [hserial, hreplay])

/-- An undisturbed call keeps the invariant. -/
theorem Trace.Inv.step {d : Disk β} {t : Trace β} (hinv : t.Inv c d) {call : Call β}
    (hcall : Undisturbed c t call) : (t.step c call).Inv c d := by
  cases call with
  | sendOpen =>
    rcases t with ⟨⟨disk, _ | op⟩, body, done⟩
    · refine ⟨⟨hinv.wf.1, ?_⟩, fun _ h => (nomatch h), ?_, hinv.serial⟩
      · rintro _ ⟨⟩
        exact Op.holds_empty
      · rintro _ ⟨⟩
        rfl
    · exact ⟨hinv.wf, hinv.sends, hinv.staged, hinv.serial⟩
  | prepare fault targets cap =>
    have hst : (t.step c (.prepare fault targets cap)).st = t.st := by
      rw [Trace.step_st, step_prepare]
    refine ⟨?_, hinv.sends, ?_, ?_⟩
    · rw [hst]
      exact hinv.wf
    · rw [hst]
      exact hinv.staged
    · rw [hst]
      exact hinv.serial
  | encrypt fault userId deviceId pt cap salt => exact hinv.send rfl rfl rfl
  | initiate fault report userId deviceId bundle pt cap rnd => exact hinv.send rfl rfl rfl
  | commit fault => exact hinv.commit hcall
  | rollback =>
    exact ⟨⟨hinv.wf.1, fun _ h => (nomatch h)⟩, fun _ h => (nomatch h), fun _ h => (nomatch h),
      hinv.serial⟩
  | receive faults now userId deviceId msg cap rnd =>
    refine hinv.alone rfl ⟨rfl, rfl⟩ hcall.2 fun e he => ?_
    exact transact_harmless hcall.1 _ _ (Except.of_map_eq_error he)
  | acceptIdentity faults userId deviceId bundle =>
    refine hinv.alone rfl ⟨rfl, rfl⟩ hcall.2 fun e he => ?_
    exact transact_harmless hcall.1 _ _ (Except.of_map_eq_error he)
  | purgeDevice faults userId deviceId =>
    refine hinv.alone rfl ⟨rfl, rfl⟩ hcall.2 fun e he => ?_
    exact transact_harmless hcall.1 _ _ (Except.of_map_eq_error he)
  | purgeUser faults userId =>
    refine hinv.alone rfl ⟨rfl, rfl⟩ hcall.2 fun e he => ?_
    exact gyDeleteUser_safe hcall.1 userId hinv.wf.1 (Except.of_map_eq_error he)

theorem Trace.Inv.run {d : Disk β} {t : Trace β} (hinv : t.Inv c d) {calls : List (Call β)}
    (hcalls : UndisturbedRun c t calls) : (t.run c calls).Inv c d := by
  induction calls generalizing t with
  | nil => exact hinv
  | cons call rest ih => exact ih (hinv.step hcalls.1) hcalls.2

open Geryon.Sym

end Geryon
