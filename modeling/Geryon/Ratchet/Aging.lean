import Geryon.Ratchet.Counters
import Geryon.Ratchet.Tracking

/-!
# How long a skipped key is kept

A skipped key is stamped with the number of messages decrypted before the one that skips it, and
the clock ticks for that message too. So a key that is neither used nor pushed out survives
`skipAgeLimit - 1` later messages, one fewer than the limit.

## Main definitions

* `Reception`: a run of a session, seen from its receiving side;
* `Reception.AgesAfter`: keys are kept for exactly so many later messages, and in order.

## Main results

* `skipped_key_ages`: how long a key is kept, and when that is as long as the limit says;
* `skipped_key_ages_early`: a run in which a key is one message short.
-/

namespace Geryon

variable {β : Type} [Octet β] [DecidableEq β] [Sodium β] {σ η : Type}

/-- What a session may do between two messages it decrypts: encryptions, whatever they return, and
decryptions that fail. -/
inductive Engine.Idle (E : Engine β σ η) (desc : SuiteDesc β) (s : σ) : σ → Prop where
  | refl : Idle E desc s s
  | encrypt {t : σ} (c : SendCall β) (h : Idle E desc s t) :
      Idle E desc s (E.encrypt desc c.cap c.pt c.ad c.salt t).2
  | refused {t : σ} {rnd : RatchetRand β} {cap : Nat} {msg ad : Bytes β} {e : GyErr}
      (h : Idle E desc s t) (he : (E.decryptAssoc desc rnd cap msg ad t).1.1 = .error e) :
      Idle E desc s (E.decryptAssoc desc rnd cap msg ad t).2

/-- A run of a session that starts with no skipped keys and decrypts `N` messages; `st m` is the
session after `m` of them. -/
structure Reception (E : Engine β σ η) (desc : SuiteDesc β) (N : Nat) where
  st : Nat → σ
  empty : (E.base (st 0)).skipped = SkipStore.empty
  step : ∀ m < N, ∃ s rnd cap msg ad pt, E.Idle desc (st m) s ∧
    (E.decryptAssoc desc rnd cap msg ad s).1.1 = .ok pt ∧
    st (m + 1) = (E.decryptAssoc desc rnd cap msg ad s).2

namespace Engine

variable {E : Engine β σ η} {desc : SuiteDesc β}

omit [DecidableEq β] in
/-- An encryption leaves the receiving side. -/
theorem recvSide_encrypt (c : SendCall β) (s : σ) :
    (E.base (E.encrypt desc c.cap c.pt c.ad c.salt s).2).recvSide = (E.base s).recvSide ∧
      (E.base (E.encrypt desc c.cap c.pt c.ad c.salt s).2).roots = (E.base s).roots := by
  rw [encrypt_eq]
  cases E.prepare desc c.cap c.pt c.ad c.salt s with
  | error e => exact ⟨rfl, rfl⟩
  | ok p =>
    dsimp only
    rw [advanced, E.base_withBase]
    exact ⟨rfl, rfl⟩

/-- So does everything that may happen between two messages. -/
theorem Idle.recvSide {s t : σ} (h : E.Idle desc s t) :
    (E.base t).recvSide = (E.base s).recvSide ∧ (E.base t).roots = (E.base s).roots := by
  induction h with
  | refl => exact ⟨rfl, rfl⟩
  | encrypt c _ ih =>
    obtain ⟨hside, hroots⟩ := recvSide_encrypt c _
    exact ⟨hside.trans ih.1, hroots.trans ih.2⟩
  | refused _ he ih =>
    rw [decryptAssoc_error he]
    exact ih

end Engine

namespace Reception

variable {E : Engine β σ η} {desc : SuiteDesc β} {N : Nat} (R : Reception E desc N)

/-- The receiving side after `m` messages. -/
def side (m : Nat) : RecvSide β := (E.base (R.st m)).recvSide

/-- The messages of the run were these arrivals. -/
structure Took (arr : Nat → Arrival β) : Prop where
  fits : ∀ m < N, (arr m).Fits (E.base (R.st m)).nhkr (R.side m)
  moves : ∀ m < N, R.side (m + 1) = (R.side m).receive (arr m)

/-- Every message of a run is an arrival. -/
theorem exists_took (hE : E.Shape desc) : ∃ arr, R.Took arr ∧
    ∀ m < N, RootsMoved desc (E.base (R.st m)) (E.base (R.st (m + 1))) (arr m) := by
  have hstep : ∀ m, ∃ a : Arrival β, m < N →
      a.Fits (E.base (R.st m)).nhkr (R.side m) ∧ R.side (m + 1) = (R.side m).receive a ∧
      RootsMoved desc (E.base (R.st m)) (E.base (R.st (m + 1))) a := by
    intro m
    by_cases hm : m < N
    · obtain ⟨s, rnd, cap, msg, ad, pt, hidle, hok, hst⟩ := R.step m hm
      obtain ⟨a, hfit, hside, hmoved⟩ := Engine.decryptAssoc_arrival hE hok
      obtain ⟨hrecv, hroots⟩ := hidle.recvSide
      rw [hrecv, show (E.base s).nhkr = _ from congrArg Prod.snd hroots] at hfit
      rw [hrecv] at hside
      refine ⟨a, fun _ => ⟨hfit, ?_, ?_⟩⟩
      · rw [side, hst, hside]
        rfl
      · rw [hst]
        exact hmoved.congr hroots rfl
    · exact ⟨.stored 0, fun h => absurd h hm⟩
  choose arr harr using hstep
  exact ⟨arr, ⟨fun m hm => (harr m hm).1, fun m hm => (harr m hm).2.1⟩,
    fun m hm => (harr m hm).2.2⟩

section History

variable (arr : Nat → Arrival β)

/-- The queue of skipped messages after `m` messages. -/
def queue (m : Nat) : AgeQueue (Place β) := (Ghost.after (R.side 0) arr m).queue

/-- The key with serial number `s` was stored while message `k` was processed. -/
def StoredBy (k s : Nat) : Prop := (R.queue arr k).issued ≤ s ∧ s < (R.queue arr (k + 1)).issued

/-- The key with serial number `s` is in the store of the session after `m` messages. -/
def InStore (m s : Nat) : Prop :=
  ∃ (i : Nat) (x : AgeItem (Place β)), (R.queue arr m).items[i]? = some x ∧ x.serial = s ∧
    (E.base (R.st m)).skipped.view[i]? = some x.val.held

/-- A key that is neither used nor pushed out for capacity is there for each of the `limit` messages
after the one that stored it and is gone afterwards; and as long as a key has not been used, no
older one is kept longer. -/
structure AgesAfter (limit : Nat) : Prop where
  kept : ∀ k s m, R.StoredBy arr k s → k < m → m ≤ N → s ∉ (R.queue arr m).used →
    s ∉ (R.queue arr m).pushed → (R.InStore arr m s ↔ m ≤ k + limit)
  order : ∀ s s' m, s < s' → s' < (R.queue arr m).issued → m ≤ N → s' ∉ (R.queue arr m).used →
    ¬ R.InStore arr m s' → ¬ R.InStore arr m s

/-- The messages of the queue. -/
def msg (m : Nat) : AgeMessage (Place β) := (Ghost.after (R.side 0) arr m).message (arr m)

theorem queue_eq_after (m : Nat) :
    R.queue arr m = AgeQueue.after maxSkip skipAgeLimit.toNat (R.msg arr) m :=
  Ghost.queue_after (R.side 0) arr m

variable {arr} {R}

theorem Took.tracks (h : R.Took arr) {m : Nat} (hm : m ≤ N) :
    Tracks (Ghost.after (R.side 0) arr m) (R.side m) :=
  Tracks.after R.side R.empty fun i hi => h.moves i (Nat.lt_of_lt_of_le hi hm)

/-- The store holds exactly the items of the queue. -/
theorem Took.follows (h : R.Took arr) {m : Nat} (hm : m ≤ N) :
    Follows (R.queue arr m) (E.base (R.st m)).skipped := (h.tracks hm).store

theorem Took.inStore_iff (h : R.Took arr) {m s : Nat} (hm : m ≤ N) :
    R.InStore arr m s ↔ (R.queue arr m).Has s := by
  rw [InStore, (h.follows hm).view]
  constructor
  · rintro ⟨i, x, hx, hs, -⟩
    exact ⟨x, List.mem_of_getElem? hx, hs⟩
  · rintro ⟨x, hx, hs⟩
    obtain ⟨i, hi⟩ := List.mem_iff_getElem?.1 hx
    exact ⟨i, x, hi, hs, by rw [List.getElem?_map, hi]; rfl⟩

theorem storedBy_iff {k s : Nat} :
    R.StoredBy arr k s ↔ AgeQueue.PutAt maxSkip skipAgeLimit.toNat (R.msg arr) k s := by
  rw [StoredBy, queue_eq_after, queue_eq_after]
  rfl

/-- A key stays as long as its age is below the limit. -/
theorem Took.inStore_iff_age (h : R.Took arr) {k s m : Nat} (hk : R.StoredBy arr k s) (hkm : k < m)
    (hm : m ≤ N) (huse : s ∉ (R.queue arr m).used) (hpush : s ∉ (R.queue arr m).pushed) :
    R.InStore arr m s ↔ m - k < skipAgeLimit.toNat := by
  rw [h.inStore_iff hm]
  rw [queue_eq_after] at huse hpush ⊢
  rw [storedBy_iff] at hk
  constructor
  · intro hhas
    by_contra hge
    exact AgeQueue.gone hk (Nat.le_of_not_lt hge) hhas
  · exact fun hage => AgeQueue.kept hk hkm hage huse hpush

/-- Keys go in the order they came. -/
theorem Took.order (h : R.Took arr) {s s' m : Nat} (hss : s < s')
    (hs' : s' < (R.queue arr m).issued) (hm : m ≤ N) (huse : s' ∉ (R.queue arr m).used)
    (hgone : ¬ R.InStore arr m s') : ¬ R.InStore arr m s := by
  rw [h.inStore_iff hm] at hgone ⊢
  rw [queue_eq_after] at hs' huse hgone ⊢
  exact AgeQueue.older_gone hss hs' huse hgone

/-- Keys are kept for one message fewer than the limit. -/
theorem Took.agesAfter (h : R.Took arr) : R.AgesAfter arr (skipAgeLimit.toNat - 1) where
  kept := by
    intro k s m hk hkm hm huse hpush
    have hlim : skipAgeLimit.toNat = 1000 := rfl
    rw [h.inStore_iff_age hk hkm hm huse hpush]
    omega
  order _ _ _ hss hs' hm huse hgone := h.order hss hs' hm huse hgone

variable (R) (arr) in
/-- Every key that a message of the run stores is used or pushed out by the time `skipAgeLimit - 1`
later messages have been decrypted, unless the run ends before. -/
def NoneLasts : Prop :=
  ∀ k s, R.StoredBy arr k s → k + skipAgeLimit.toNat ≤ N →
    s ∈ (R.queue arr (k + skipAgeLimit.toNat)).used ∨
      s ∈ (R.queue arr (k + skipAgeLimit.toNat)).pushed

/-- Keys are kept for as long as the limit says exactly when none gets that far. -/
theorem Took.agesAfter_limit_iff (h : R.Took arr) :
    R.AgesAfter arr skipAgeLimit.toNat ↔ R.NoneLasts arr := by
  have hlim : 0 < skipAgeLimit.toNat := by decide
  constructor
  · intro hages k s hk hN
    by_contra hno
    rw [not_or] at hno
    have hage := h.inStore_iff_age hk (by omega) hN hno.1 hno.2
    have hin := (hages.kept k s _ hk (by omega) hN hno.1 hno.2).2 le_rfl
    have := hage.1 hin
    omega
  · intro hnone
    refine ⟨fun k s m hk hkm hm huse hpush => ?_, fun _ _ _ hss hs' hm huse hgone =>
      h.order hss hs' hm huse hgone⟩
    rw [h.inStore_iff_age hk hkm hm huse hpush]
    -- the two bounds differ at one message only, and no key gets that far
    have hne : m ≠ k + skipAgeLimit.toNat := by
      rintro rfl
      obtain hmem | hmem := hnone k s hk hm
      · exact huse hmem
      · exact hpush hmem
    omega

end History

end Reception

/-- What the aging of an engine's skipped keys amounts to. -/
def Engine.AgingOk (E : Engine β σ η) (desc : SuiteDesc β) : Prop :=
  ∀ (N : Nat) (R : Reception E desc N), (∃ arr, R.Took arr) ∧ ∀ arr, R.Took arr →
    R.AgesAfter arr (skipAgeLimit.toNat - 1) ∧
    (R.AgesAfter arr skipAgeLimit.toNat ↔ R.NoneLasts arr)

theorem Engine.Shape.agingOk {E : Engine β σ η} {desc : SuiteDesc β} (hE : E.Shape desc) :
    E.AgingOk desc :=
  fun _ R => ⟨(R.exists_took hE).imp fun _ h => h.1,
    fun _ h => ⟨h.agesAfter, h.agesAfter_limit_iff⟩⟩

/-- For both engines and every run: a skipped key that is neither used nor pushed out is there for
each of the `skipAgeLimit - 1` next messages and gone afterwards, and no key is kept longer than a
newer one. That is as long as the limit says exactly when every key is used or pushed out before. -/
theorem skipped_key_ages (desc : SuiteDesc β) :
    (classical desc).AgingOk desc ∧ (hybrid desc).AgingOk desc :=
  ⟨(shape_classical desc).agingOk, (shape_hybrid desc).agingOk⟩

/-! ## A key that goes one message early -/

/-- A run in which one key is skipped by message one and nothing else happens to it: the key is
gone when it should still be there. -/
theorem Reception.not_agesAfter {E : Engine β σ η} {desc : SuiteDesc β} {N : Nat}
    {R : Reception E desc N} {arr : Nat → Arrival β} (h : R.Took arr)
    (hN : skipAgeLimit.toNat + 1 = N) {next mk : Bytes β} (h0 : arr 0 = .fresh next [] [])
    (h1 : arr 1 = .same [mk]) (hlater : ∀ m, 2 ≤ m → m < N → arr m = .same []) :
    ¬ R.AgesAfter arr skipAgeLimit.toNat := by
  have hlim : skipAgeLimit.toNat = 1000 := rfl
  have hhk : (Ghost.after (R.side 0) arr 1).hk = some next := by
    rw [Ghost.after, h0]
    rfl
  have hq1 : R.queue arr 1 = ⟨[], 1, 0, [], []⟩ := by
    rw [queue, Ghost.after, h0, Ghost.receive, Ghost.message, Ghost.after, Ghost.finished]
    cases (Ghost.start (R.side 0)).hk <;> rfl
  have hq2 : (R.queue arr 2).issued = 1 ∧ (R.queue arr 2).used = [] ∧
      (R.queue arr 2).pushed = [] := by
    have hmsg : (Ghost.after (R.side 0) arr 1).message (.same [mk]) =
        .put (placesFrom next (Ghost.after (R.side 0) arr 1).pos [mk]) := by
      rw [Ghost.message, Ghost.finished, hhk]
    have heq : R.queue arr 2 = (R.queue arr 1).receive maxSkip skipAgeLimit.toNat
        ((Ghost.after (R.side 0) arr 1).message (arr 1)) := rfl
    rw [heq, h1, hmsg, hq1]
    exact ⟨rfl, rfl, rfl⟩
  -- nothing is put in, taken or pushed out later
  have hq : ∀ m, 2 ≤ m → m ≤ N → (R.queue arr m).used = [] ∧ (R.queue arr m).pushed = [] := by
    intro m hm
    induction m, hm using Nat.le_induction with
    | base => exact fun _ => hq2.2
    | succ m hm ih =>
      intro hmN
      have hfin : (Ghost.after (R.side 0) arr m).finished [] = [] := by
        rw [Ghost.finished]
        cases (Ghost.after (R.side 0) arr m).hk <;> rfl
      have heq : R.queue arr (m + 1) = (R.queue arr m).receive maxSkip skipAgeLimit.toNat
          ((Ghost.after (R.side 0) arr m).message (arr m)) := rfl
      rw [heq, hlater m hm (by omega), Ghost.message, hfin]
      exact ih (by omega)
  intro hages
  have hstored : R.StoredBy arr 1 0 := by
    refine ⟨?_, ?_⟩
    · rw [hq1]
    · rw [hq2.1]
      exact Nat.one_pos
  obtain ⟨huse, hpush⟩ := hq (1 + skipAgeLimit.toNat) (by omega) (by omega)
  obtain hmem | hmem := h.agesAfter_limit_iff.1 hages 1 0 hstored (by omega)
  · rw [huse] at hmem
    cases hmem
  · rw [hpush] at hmem
    cases hmem

section Late

variable {γ : Type} {desc : SuiteDesc β} {E : Engine β σ η} {I : IdealSuite desc}
  {S : EngineSpec E I γ} {id : UInt8} {ad : Bytes β} {sec : DrSecrets β} {w : World β σ}
  {keys : List (Bytes β)} {lv : Nat → Level β γ} {pos : Party → Nat → Nat}

/-- The message of a burst that is delivered as number `m`: all but message one, in order. -/
def lateIdx (m : Nat) : Nat := if m = 0 then 0 else m + 1

/-- The first `m` deliveries of a burst in which message one is held back. -/
def lateRun (rnd : Nat → RatchetRand β) (cap m : Nat) : List (Event β) :=
  (List.range m).map fun i => .deliver (lateIdx i) (rnd i) cap

omit [Octet β] [DecidableEq β] [Sodium β] in
theorem lateRun_succ (rnd : Nat → RatchetRand β) (cap m : Nat) :
    lateRun rnd cap (m + 1) = lateRun rnd cap m ++ [.deliver (lateIdx m) (rnd m) cap] := by
  simp [lateRun, List.range_succ]

/-- The receiver of such a burst is on the sender's chain, one past the last message delivered. -/
def LateSync (S : EngineSpec E I γ) (id : UInt8) (ad : Bytes β) (sec : DrSecrets β)
    (w w' : World β σ) (m : Nat) : Prop :=
  ∃ keys lv pos, Sync S id ad sec w' keys lv (oneWay 2) pos ∧
    pos .bob 1 = lateIdx (m - 1) + 1 ∧ w'.sent = w.sent

theorem LateSync.side {w' : World β σ} {m : Nat} (hsec : Seeds desc sec)
    (h : LateSync S id ad sec w w' m) :
    (E.base (w'.st .bob)).recvSide.hk = some sec.sharedHka ∧
      sec.sharedHka ≠ (E.base (w'.st .bob)).nhkr ∧
      (E.base (w'.st .bob)).recvSide.nr.toNat = lateIdx (m - 1) + 1 := by
  obtain ⟨keys, lv, pos, hy, hpos, -⟩ := h
  exact hpos ▸ hy.side_bob hsec

variable {rnd : Nat → RatchetRand β} {kp : Nat → Keypair β} {N : Nat}

/-- The first delivery. -/
theorem Burst.late_first (h : Burst S id ad sec w keys lv pos N) (hid : AeadUsable β id)
    (had : ad.length ≤ E.adMax) (hsec : Seeds desc sec) (hN : N < 2 ^ 32) (hpos : 0 < N)
    (hrnd : ∀ i, S.RandOk (rnd i) (kp i)) (hfresh : (kp 0).pk ∉ keys) (cap : Nat) :
    ∃ s, World.step E desc ad w (.deliver 0 (rnd 0) cap) = w.accept .bob s 0 ∧
      LateSync S id ad sec w (w.accept .bob s 0) 1 := by
  obtain ⟨lv', pos', s, hstep, -, hpos', hy⟩ :=
    h.deliver_first hid had hsec hN hpos (Nat.zero_le _) (hrnd 0) hfresh cap
  exact ⟨s, hstep, _, lv', pos', hy, hpos', rfl⟩

/-- A later delivery. -/
theorem Burst.late_step (h : Burst S id ad sec w keys lv pos N) (hid : AeadUsable β id)
    (had : ad.length ≤ E.adMax) (hsec : Seeds desc sec) (hN : N < 2 ^ 32)
    (hrnd : ∀ i, S.RandOk (rnd i) (kp i)) {w' : World β σ} {m : Nat} (hm : 1 ≤ m)
    (hmN : m + 1 < N) (hw : LateSync S id ad sec w w' m) (cap : Nat) :
    ∃ s, World.step E desc ad w' (.deliver (m + 1) (rnd m) cap) = w'.accept .bob s (m + 1) ∧
      LateSync S id ad sec w (w'.accept .bob s (m + 1)) (m + 1) := by
  obtain ⟨keys', lv', pos', hy, hpos, hsent⟩ := hw
  obtain ⟨f, hget⟩ : ∃ f, w.sent[m + 1]? = some f :=
    ⟨_, List.getElem?_eq_getElem (by rw [h.length]; exact hmN)⟩
  obtain ⟨hs, hidx, hpt⟩ := h.frames _ _ hget
  have hwrap : ∀ q pk, w'.total E q pk < 2 ^ 32 := fun q pk => by
    refine (World.total_le_length w' q pk).trans_lt ?_
    rw [hsent, h.length]
    exact hN
  have hms : maxSkip = 1000 := rfl
  -- the receiver stands one or two numbers short of the message
  have hback : m + 1 = pos' .bob 1 ∨ m + 1 = pos' .bob 1 + 1 := by
    rw [hpos, lateIdx]
    split_ifs <;> omega
  obtain ⟨pos'', s, hstep, hpos'', hy'⟩ :=
    hy.deliver_ahead hid had hsec hwrap (by rw [hsent]; exact hget) hs hpt
    (by rw [hidx]; omega) (by rw [hidx]; omega) (hrnd m) cap
  refine ⟨s, hstep, keys', lv', pos'', hy', ?_, hsent⟩
  rw [hpos'', hidx, lateIdx, if_neg (by omega)]
  rfl

/-- Every delivery of such a burst is accepted. -/
theorem Burst.late_run (h : Burst S id ad sec w keys lv pos N) (hid : AeadUsable β id)
    (had : ad.length ≤ E.adMax) (hsec : Seeds desc sec) (hN : N < 2 ^ 32)
    (hrnd : ∀ i, S.RandOk (rnd i) (kp i)) (hfresh : (kp 0).pk ∉ keys) (cap : Nat) :
    ∀ m, m + 1 < N → ∃ s,
      World.step E desc ad (w.run E desc ad (lateRun rnd cap m))
        (.deliver (lateIdx m) (rnd m) cap) =
        (w.run E desc ad (lateRun rnd cap m)).accept .bob s (lateIdx m) ∧
      LateSync S id ad sec w (w.run E desc ad (lateRun rnd cap (m + 1))) (m + 1) := by
  intro m
  induction m with
  | zero =>
    intro hm
    obtain ⟨s, hstep, hw⟩ := h.late_first hid had hsec hN (by omega) hrnd hfresh cap
    refine ⟨s, hstep, ?_⟩
    rw [lateRun_succ, World.run_append_singleton]
    exact hstep ▸ hw
  | succ m ih =>
    intro hm
    obtain ⟨-, -, hw⟩ := ih (by omega)
    obtain ⟨s, hstep, hw'⟩ := h.late_step hid had hsec hN hrnd (Nat.succ_pos m) hm hw cap
    have hidx : lateIdx (m + 1) = m + 1 + 1 := if_neg (Nat.succ_ne_zero m)
    refine ⟨s, by rw [hidx]; exact hstep, ?_⟩
    rw [lateRun_succ, World.run_append_singleton, hidx, hstep]
    exact hw'

/-- The receiver's run over such a burst. -/
def Burst.lateReception (h : Burst S id ad sec w keys lv pos N) (hid : AeadUsable β id)
    (had : ad.length ≤ E.adMax) (hsec : Seeds desc sec) (hN : N < 2 ^ 32)
    (hrnd : ∀ i, S.RandOk (rnd i) (kp i)) (hfresh : (kp 0).pk ∉ keys) (cap : Nat) :
    Reception E desc (N - 1) where
  st m := (w.run E desc ad (lateRun rnd cap m)).st .bob
  empty := h.skipped
  step := by
    intro m hm
    obtain ⟨s, hstep, -⟩ := h.late_run hid had hsec hN hrnd hfresh cap m (by omega)
    have hsent : (w.run E desc ad (lateRun rnd cap m)).sent = w.sent := by
      cases m with
      | zero => rfl
      | succ m =>
        obtain ⟨-, -, _, _, _, -, -, hsent⟩ :=
          h.late_run hid had hsec hN hrnd hfresh cap m (by omega)
        exact hsent
    have hlt : lateIdx m < N := by
      rw [lateIdx]
      split_ifs <;> omega
    obtain ⟨f, hget⟩ : ∃ f, w.sent[lateIdx m]? = some f :=
      ⟨_, List.getElem?_eq_getElem (by rw [h.length]; exact hlt)⟩
    obtain ⟨hs, -, -⟩ := h.frames _ _ hget
    obtain ⟨pt, hok, hst⟩ := World.decrypted_of_accept (by rw [hsent]; exact hget) hstep
    rw [hs] at hok hst
    refine ⟨_, rnd m, cap, f.wire, ad, pt, .refl, hok, ?_⟩
    rw [lateRun_succ, World.run_append_singleton]
    exact hst

/-- Over a burst of `skipAgeLimit + 2` messages of which message one is held back, its key is gone
too early. -/
theorem Burst.late_not_agesAfter (hE : E.Shape desc) (h : Burst S id ad sec w keys lv pos N)
    (hid : AeadUsable β id) (had : ad.length ≤ E.adMax) (hsec : Seeds desc sec) (hN : N < 2 ^ 32)
    (hNl : skipAgeLimit.toNat + 2 = N) (hrnd : ∀ i, S.RandOk (rnd i) (kp i))
    (hfresh : (kp 0).pk ∉ keys) (cap : Nat) :
    ∃ (R : Reception E desc (N - 1)) (arr : Nat → Arrival β),
      (∀ m, R.st m = (w.run E desc ad (lateRun rnd cap m)).st .bob) ∧ R.Took arr ∧
      ¬ R.AgesAfter arr skipAgeLimit.toNat := by
  have hlim : skipAgeLimit.toNat = 1000 := rfl
  have hside : ∀ m, 1 ≤ m → m < N →
      (E.base ((w.run E desc ad (lateRun rnd cap m)).st .bob)).recvSide.hk = some sec.sharedHka ∧
      sec.sharedHka ≠ (E.base ((w.run E desc ad (lateRun rnd cap m)).st .bob)).nhkr ∧
      (E.base ((w.run E desc ad (lateRun rnd cap m)).st .bob)).recvSide.nr.toNat =
        lateIdx (m - 1) + 1 := by
    intro m hm hmN
    obtain ⟨m, rfl⟩ : ∃ k, m = k + 1 := ⟨m - 1, by omega⟩
    obtain ⟨-, -, hw⟩ := h.late_run hid had hsec hN hrnd hfresh cap m hmN
    exact hw.side hsec
  obtain ⟨arr, harr, -⟩ := (h.lateReception hid had hsec hN hrnd hfresh cap).exists_took hE
  refine ⟨_, arr, fun m => rfl, harr, ?_⟩
  have hb : BaseAt desc id sec lv 0 (E.base (w.st .bob)) := h.sync.base .bob
  have hckr : (E.base (w.st .bob)).haveCkr = false := hb.haveCkr
  obtain ⟨-, -, hnr⟩ := hside 1 le_rfl (by omega)
  have h0 := Arrival.fresh_of (harr.fits 0 (by omega)) (harr.moves 0 (by omega))
    (by simp [Reception.side, Burst.lateReception, DrState.recvSide, hckr, lateRun])
    (by
      show (E.base (w.st .bob)).skipped.ent = []
      rw [h.skipped]
      rfl) hnr
  -- the other arrivals are on the chain it opened
  have hsame : ∀ m j, 1 ≤ m → m < N - 1 → lateIdx m = lateIdx (m - 1) + 1 + j →
      ∃ mks, arr m = .same mks ∧ mks.length = j := by
    intro m j hm hmN hj
    obtain ⟨-, hne, hnr⟩ := hside m hm (by omega)
    obtain ⟨hhk', -, hnr'⟩ := hside (m + 1) (by omega) (by omega)
    rw [Nat.add_sub_cancel, hj] at hnr'
    exact Arrival.same_of (harr.fits m hmN) (harr.moves m hmN) hhk' hne hnr hnr'
  obtain ⟨mks, h1, hlen⟩ := hsame 1 1 le_rfl (by omega) rfl
  obtain ⟨mk, rfl⟩ := List.length_eq_one_iff.1 hlen
  apply Reception.not_agesAfter harr (by omega) h0 h1
  intro m hm hmN
  obtain ⟨mks, hmks, hlen⟩ := hsame m 0 (by omega) hmN (by
    rw [lateIdx, lateIdx, if_neg (by omega), if_neg (by omega)]
    omega)
  rw [hmks, List.eq_nil_of_length_eq_zero hlen]

end Late

/-- An initiator sends `skipAgeLimit + 2` messages, and the first `m` deliveries leave out message
one. -/
def lateBurst (m : Nat) : List (Event Sym) :=
  List.replicate (skipAgeLimit.toNat + 2) (.send .alice 8192 [] (zeros 16)) ++
    lateRun (fun i => symRand (i + 2)) 8192 m

/-- The key of message one is stored by the second of these deliveries, never used and never pushed
out, and gone after `skipAgeLimit - 1` later messages. -/
theorem skipped_key_ages_early :
    ∃ (R : Reception (classical (symSuite false)) (symSuite false) (skipAgeLimit.toNat + 1))
      (arr : Nat → Arrival Sym),
      (∀ m, R.st m = ((World.start symAlice symBob).run (classical (symSuite false))
        (symSuite false) [] (lateBurst m)).st .bob) ∧ R.Took arr ∧
      ¬ R.AgesAfter arr skipAgeLimit.toNat := by
  obtain ⟨lv, hy⟩ := sync_sym
  have hburst := (Burst.start hy rfl).run aeadUsable_sym (Nat.zero_le _) (length_zeros 16)
    roomFor_classical (skipAgeLimit.toNat + 2) (by decide)
  obtain ⟨R, arr, hst, htook, hages⟩ := hburst.late_not_agesAfter (shape_classical _)
    aeadUsable_sym (Nat.zero_le _) (seeds_sym false) (by decide) rfl
    (fun i => classicalRandOk_sym (i + 2)) (symRand_pk_fresh 0) 8192
  refine ⟨R, arr, fun m => ?_, htook, hages⟩
  rw [hst, lateBurst, World.run, World.run, World.run, List.foldl_append]

end Geryon
