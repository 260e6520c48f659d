import Geryon.Ratchet.Ready
import Geryon.Proto.Stored

/-!
# Planning a fan-out

`gy_send_prepare` reads the records of every target device to say what a sender can do with it, and
`gy_send_encrypt` reads them again to do it. Both go through `loadActive`, so they see one session,
and a session in the sense of `Session.CanSend` is one on which the ratchet encrypts.

## Main results

* `classifyDevice_run`, `gySendEncrypt_run`: the two read the same session;
* `Session.CanSend.sessEncrypt_ok`: a session that can send encrypts;
* `prepareTargets_run`: the descriptors of a plan are those of the listed devices.
-/

namespace Geryon

variable {β : Type} [Octet β] [DecidableEq β] [Sodium β]

/-! ## The report of a plan -/

/-- What `gy_send_prepare` hands back: its return code, the number of descriptors and those it wrote
into the array. -/
structure PrepareReport (β : Type) where
  rc : Except GyErr Unit
  count : Nat
  descs : List (SendDesc β)
  deriving DecidableEq

/-- `gy_send_prepare` with everything it hands back; `cap` is the size of the array, if there is
one. The array takes the first descriptors, as many as it holds. -/
def gySendPrepareReport (c : SendCtx β) (targets : List (Bytes β)) (cap : Option Nat) :
    OpM β (PrepareReport β) := do
  let descs ← prepareTargets c targets
  match cap with
  | none => return ⟨.ok (), descs.length, []⟩
  | some n =>
    return ⟨if n < descs.length then .error .arg else .ok (), descs.length, descs.take n⟩

/-! ## Sessions that can send -/

/-- `GY_AEAD_MAX_TAG`. -/
def aeadMaxTag : Nat := 32

/-- The size `gy_send_encrypt` reports for a plaintext: `GY_SEND_MSG_SIZE`, or the hybrid overhead
with the plaintext. -/
def gySendSize (desc : SuiteDesc β) (ptlen : Nat) : Nat :=
  2 + heSaltLen + 2 + ((if desc.isHybrid then drHybridHeaderMax else drHeaderMax) + aeadMaxTag) +
    aeadMaxTag + ptlen

/-- The ratchet of the session encrypts, if its primitives work and the buffer is large enough. -/
def Session.CanSend (desc : SuiteDesc β) (s : Session β) : Prop :=
  s.desc = desc ∧
    if desc.isHybrid then (hybrid desc).Ready s.ad s.ratchet
    else (classical desc).Ready s.ad s.ratchet.base

omit [Octet β] [DecidableEq β] in
theorem aeadTagLen_le (id : UInt8) : aeadTagLen id ≤ aeadMaxTag := by
  rw [aeadTagLen]
  cases aeadAlg id with
  | none => exact Nat.zero_le _
  | some a => cases a <;> decide

omit [DecidableEq β] in
/-- A session that can send encrypts into a buffer of the reported size. -/
theorem Session.CanSend.sessEncrypt_ok {desc : SuiteDesc β} (W : WorkingSuite desc)
    {s : Session β} (h : s.CanSend desc) {pt : Bytes β} {cap : Nat}
    (hcap : gySendSize desc pt.length ≤ cap) (salt : Bytes β) :
    ∃ ct s', Geryon.sessEncrypt cap pt (.ok salt) s = (.ok ct, s') := by
  obtain ⟨rfl, hready⟩ := h
  rw [gySendSize] at hcap
  unfold Geryon.sessEncrypt Session.onRatchet
  split_ifs at hready hcap ⊢
  · have htag := aeadTagLen_le s.ratchet.base.aeadId
    have hroom : RoomFor (hybrid s.desc) s.ratchet.base.aeadId pt cap := by
      show 2 + (heSaltLen + 2 + (drHybridHeaderMax + aeadTagLen s.ratchet.base.aeadId)) +
        pt.length + aeadTagLen s.ratchet.base.aeadId ≤ cap
      omega
    obtain ⟨frame, hok⟩ := hready.encrypt_ok W (sends_hybrid _) hroom salt
    rw [gyHybridDrEncrypt]
    rcases hres : (hybrid s.desc).encrypt s.desc cap pt s.ad (.ok salt) s.ratchet with ⟨res, r⟩
    rw [hres] at hok
    obtain rfl := hok
    exact ⟨_, _, rfl⟩
  · have htag := aeadTagLen_le s.ratchet.base.aeadId
    have hroom : RoomFor (classical s.desc) s.ratchet.base.aeadId pt cap := by
      show 2 + (heSaltLen + 2 + (drHeaderMax + aeadTagLen s.ratchet.base.aeadId)) +
        pt.length + aeadTagLen s.ratchet.base.aeadId ≤ cap
      omega
    obtain ⟨frame, hok⟩ := hready.encrypt_ok W (sends_classical _) hroom salt
    exact ⟨frame, _, Prod.ext hok rfl⟩

omit [DecidableEq β] in
/-- A session that has encrypted can send. -/
theorem canSend_of_sessEncrypt {s s' : Session β} {cap : Nat} {pt ct : Bytes β}
    {salt : Except GyErr (Bytes β)} (h : sessEncrypt cap pt salt s = (.ok ct, s')) :
    s'.CanSend s.desc := by
  unfold sessEncrypt Session.onRatchet at h
  split_ifs at h with hyb
  · rcases hres : gyHybridDrEncrypt s.desc cap pt s.ad salt s.ratchet with ⟨_ | ct', r⟩
    · rw [hres] at h
      cases h
    · rw [hres] at h
      obtain ⟨-, rfl⟩ := Prod.mk.inj h
      refine ⟨rfl, ?_⟩
      rw [if_pos hyb]
      have hready := (Engine.ready_of_encrypt (sends_hybrid s.desc)
        (congrArg Prod.fst hres)).2
      rwa [show (hybrid s.desc).encrypt s.desc cap pt s.ad salt s.ratchet = (.ok ct', r)
        from hres] at hready
  · obtain ⟨hok, rfl⟩ := Prod.mk.inj h
    refine ⟨rfl, ?_⟩
    rw [if_neg hyb]
    exact (Engine.ready_of_encrypt (sends_classical s.desc) hok).2

/-- A session that decrypts can send afterwards, if it could before or has just received its first
message. -/
theorem canSend_of_sessDecrypt {s s' : Session β} {rnd : RatchetRand β} {cap : Nat}
    {frame pt : Bytes β} {m : Bool}
    (hs : s.CanSend s.desc ∨
      s.ratchet.base.haveDhr = false ∧ s.ratchet.base.skipped.ent = [])
    (h : sessDecrypt rnd cap frame s = ((.ok pt, m), s')) : s'.CanSend s.desc := by
  unfold sessDecrypt at h
  split_ifs at h with hyb
  · rw [gyHybridDrDecryptAssoc] at h
    rcases hres : (hybrid s.desc).decryptAssoc s.desc rnd cap frame s.ad s.ratchet with
      ⟨⟨_ | pt', m'⟩, r⟩
    · rw [hres] at h
      cases h
    · rw [hres] at h
      obtain ⟨-, rfl⟩ := Prod.mk.inj h
      refine ⟨rfl, ?_⟩
      rw [if_pos hyb]
      have hok : ((hybrid s.desc).decryptAssoc s.desc rnd cap frame s.ad s.ratchet).1.1 =
          .ok pt' := by
        rw [hres]
      have hnext : (hybrid s.desc).Ready s.ad
          ((hybrid s.desc).decryptAssoc s.desc rnd cap frame s.ad s.ratchet).2 := by
        rcases hs with ⟨-, hready⟩ | ⟨hdhr, hskip⟩
        · rw [if_pos hyb] at hready
          exact hready.decrypt (sends_hybrid s.desc) hok
        · exact Engine.ready_of_first (sends_hybrid s.desc) hdhr hskip hok
      rwa [hres] at hnext
  · rw [gyDrDecryptAssoc] at h
    rcases hres : (classical s.desc).decryptAssoc s.desc rnd cap frame s.ad s.ratchet.base with
      ⟨⟨_ | pt', m'⟩, b⟩
    · rw [hres] at h
      cases h
    · rw [hres] at h
      obtain ⟨-, rfl⟩ := Prod.mk.inj h
      refine ⟨rfl, ?_⟩
      rw [if_neg hyb]
      have hok : ((classical s.desc).decryptAssoc s.desc rnd cap frame s.ad s.ratchet.base).1.1 =
          .ok pt' := by
        rw [hres]
      have hnext : (classical s.desc).Ready s.ad
          ((classical s.desc).decryptAssoc s.desc rnd cap frame s.ad s.ratchet.base).2 := by
        rcases hs with ⟨-, hready⟩ | ⟨hdhr, hskip⟩
        · rw [if_neg hyb] at hready
          exact hready.decrypt (sends_classical s.desc) hok
        · exact Engine.ready_of_first (sends_classical s.desc) hdhr hskip hok
      rwa [hres] at hnext

/-! ## The session of a device -/

/-- The session that is active on a device, if there is one in the store. -/
def loadActive (userId deviceId : Bytes β) : OpM β (Option (Session β)) := do
  let dk ← Txn.lift (gyDevrecKey userId deviceId)
  match (← gyOpLoadDeviceAny dk).bind DeviceRecord.active with
  | none => return none
  | some id => gyOpLoadSession id

/-- The status `gy_send_prepare` gives a device. -/
def statusOf (cfg : ExpiryCfg) : Option (Session β) → SendStatus
  | none => .needsBundle
  | some s => if gySessionExpired cfg s then .stale else .message

/-- The encryption `gy_send_encrypt` makes on a session. -/
def encryptOn (cfg : ExpiryCfg) (pt : Bytes β) (cap : Nat) (salt : Except GyErr (Bytes β)) :
    Option (Session β) → OpM β (Bytes β)
  | none => Txn.fail .state
  | some s =>
    -- the order of the source: expiry, then the ratchet, then the write
    if gySessionExpired cfg s then Txn.fail .expired
    else
      match sessEncrypt cap pt salt s with
      | (.error e, _) => Txn.fail e
      | (.ok ct, s) => do
        gyOpPutSession { s with nsend := s.nsend + 1 }
        return ct

omit [Octet β] [Sodium β] in
/-- Running a program that only loads gives a result and the stage it started from. -/
theorem ReadOnly.run_eq {α : Type} {p : OpM β α} (hp : ReadOnly p) (view) (op : Op β) :
    p.run engine view op = ((p.run engine view op).1, op) :=
  Prod.ext rfl (Txn.Sat.run_readOnly hp op)

section Run

variable {view : RecKey β → Except GyErr (Option (Record β))} {op : Op β}

/-- A plan's status is that of the session an encryption would find. -/
theorem classifyDevice_run (c : SendCtx β) (userId deviceId : Bytes β) :
    (classifyDevice c userId deviceId).run engine view op =
      (((loadActive userId deviceId).run engine view op).1.map (statusOf c.expiry), op) := by
  have hro := (readOnly_classifyDevice c userId deviceId).run_eq view op
  rw [hro]
  congr 1
  simp only [classifyDevice, loadActive, Txn.run_bind, Txn.run_lift, Cmd.bind_apply]
  cases gyDevrecKey userId deviceId with
  | error e => rfl
  | ok dk =>
    simp only
    rw [(readOnly_gyOpLoadDeviceAny dk).run_eq view op]
    cases ((gyOpLoadDeviceAny dk).run engine view op).1 with
    | error e => rfl
    | ok dev =>
      dsimp only
      cases dev.bind DeviceRecord.active with
      | none => rfl
      | some id =>
        simp only [Txn.run_bind, Cmd.bind_apply]
        rw [(readOnly_gyOpLoadSession id).run_eq view op]
        cases ((gyOpLoadSession id).run engine view op).1 with
        | error e => rfl
        | ok v => cases v <;> rfl

/-- An encryption is made on the session of the device. -/
theorem gySendEncrypt_run (c : SendCtx β) (userId deviceId pt : Bytes β) (cap : Nat)
    (salt : Except GyErr (Bytes β)) :
    (gySendEncrypt c userId deviceId pt cap salt).run engine view op =
      match ((loadActive userId deviceId).run engine view op).1 with
      | .error e => (.error e, op)
      | .ok v => (encryptOn c.expiry pt cap salt v).run engine view op := by
  simp only [gySendEncrypt, loadActive, Txn.run_bind, Txn.run_lift, Cmd.bind_apply]
  cases gyDevrecKey userId deviceId with
  | error e => rfl
  | ok dk =>
    simp only
    rw [(readOnly_gyOpLoadDeviceAny dk).run_eq view op]
    cases ((gyOpLoadDeviceAny dk).run engine view op).1 with
    | error e => rfl
    | ok dev =>
      dsimp only
      cases dev.bind DeviceRecord.active with
      | none => rfl
      | some id =>
        simp only [Txn.run_bind, Cmd.bind_apply]
        rw [(readOnly_gyOpLoadSession id).run_eq view op]
        cases ((gyOpLoadSession id).run engine view op).1 with
        | error e => rfl
        | ok v => cases v <;> rfl

/-! ### The plan -/

/-- The device `e` of a user, unless it is the sender's own. -/
def SendCtx.includes (c : SendCtx β) (userId : Bytes β) (e : DeviceEntry β) : Bool :=
  !decide (c.selfUserId = userId ∧ c.selfDeviceId = e.id)

/-- The descriptor of a device. -/
def planDevice (c : SendCtx β) (view : RecKey β → Except GyErr (Option (Record β))) (op : Op β)
    (userId : Bytes β) (e : DeviceEntry β) : Except GyErr (SendDesc β) :=
  ((loadActive userId e.id).run engine view op).1.map fun v =>
    ⟨userId, e.id, statusOf c.expiry v⟩

/-- The devices of a user that a plan lists. -/
def plannedOf (c : SendCtx β) (userId : Bytes β) (u : Option (UserRecord β)) :
    List (DeviceEntry β) :=
  u.elim [] fun u => u.devices.filter (c.includes userId)

/-- The descriptors of a user. -/
def planUser (c : SendCtx β) (view : RecKey β → Except GyErr (Option (Record β))) (op : Op β)
    (userId : Bytes β) : Except GyErr (List (SendDesc β)) := do
  let u ← ((gyOpLoadUser userId).run engine view op).1
  (plannedOf c userId u).mapM' (planDevice c view op userId)

theorem prepareDevices_run (c : SendCtx β) (userId : Bytes β) (l : List (DeviceEntry β)) :
    (prepareDevices c userId l).run engine view op =
      ((l.filter (c.includes userId)).mapM' (planDevice c view op userId), op) := by
  induction l with
  | nil => rfl
  | cons e rest ih =>
    rw [prepareDevices, Txn.run_ite, List.filter_cons]
    by_cases hself : c.selfUserId = userId ∧ c.selfDeviceId = e.id
    · have hno : c.includes userId e = false := by simp [SendCtx.includes, hself]
      rw [if_pos hself, hno, if_neg Bool.false_ne_true, ih]
    · have hyes : c.includes userId e = true := by simp [SendCtx.includes, hself]
      rw [if_neg hself, hyes, if_pos rfl, List.mapM'_cons, planDevice, Txn.run_bind, Cmd.bind_apply,
        classifyDevice_run]
      cases ((loadActive userId e.id).run engine view op).1 with
      | error err => rfl
      | ok v =>
        simp only [Except.map, Txn.run_bind, Cmd.bind_apply, ih]
        cases (rest.filter (c.includes userId)).mapM' (planDevice c view op userId) <;> rfl

/-- A plan is the descriptors of its users in turn. -/
theorem prepareTargets_run (c : SendCtx β) (targets : List (Bytes β)) :
    (prepareTargets c targets).run engine view op =
      ((targets.mapM' (planUser c view op)).map List.flatten, op) := by
  induction targets with
  | nil => rfl
  | cons userId rest ih =>
    rw [prepareTargets, Txn.run_bind, Cmd.bind_apply, (readOnly_gyOpLoadUser userId).run_eq view op,
      List.mapM'_cons, planUser]
    cases ((gyOpLoadUser userId).run engine view op).1 with
    | error e => rfl
    | ok u =>
      have htail : ∀ p : OpM β (List (SendDesc β)),
          p.run engine view op = ((plannedOf c userId u).mapM' (planDevice c view op userId), op) →
          (do
            let descs ← p
            let more ← prepareTargets c rest
            return descs ++ more : OpM β (List (SendDesc β))).run engine view op =
          (((do
            let a ← (plannedOf c userId u).mapM' (planDevice c view op userId)
            let bs ← rest.mapM' (planUser c view op)
            return a :: bs : Except GyErr _).map List.flatten), op) := by
        intro p hp
        rw [Txn.run_bind, Cmd.bind_apply, hp]
        cases (plannedOf c userId u).mapM' (planDevice c view op userId) with
        | error e => rfl
        | ok descs =>
          simp only [Txn.run_bind, Cmd.bind_apply, ih]
          cases rest.mapM' (planUser c view op) <;> rfl
      cases u with
      | none => exact htail (pure []) rfl
      | some usr => exact htail _ (prepareDevices_run c userId usr.devices)

end Run

end Geryon
