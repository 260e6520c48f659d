import Geryon.Ratchet.Limits
import Geryon.Ratchet.Receipt
import Geryon.Ratchet.Sending

/-!
# Message numbers and key derivations

How many keys a received header can make the session derive, and what the 32-bit message numbers do
at the end of their range, for either engine.

## Main results

* `Engine.keyCount_chainPath_le`: no header makes the session derive more than `2 * maxSkip` keys;
* `Engine.sendAll_numbers`: when two frames of consecutive encryptions carry one number;
* `chain_counters`: both, with the receive counter, for the two engines;
* `chain_counters_wrap`: both counters do wrap.
-/

namespace Geryon

variable {β : Type} [Octet β]

/-! ## Counting derived keys -/

/-- How many message keys a store has taken in and not handed out: those it holds and those it
lost. -/
def SkipStore.keyCount (s : SkipStore β) : Nat := s.ent.length + s.lost.length

namespace SkipStore

omit [Octet β] in
@[simp] theorem keyCount_clock (s : SkipStore β) (t : UInt64) :
    ({ s with recvCount := t } : SkipStore β).keyCount = s.keyCount := rfl

/-- An eviction moves a key from the held to the lost ones. -/
@[simp] theorem keyCount_storeEvict (s : SkipStore β) (i : Nat) :
    (storeEvict s i).keyCount = s.keyCount := by
  simp only [keyCount, storeEvict, ent_storeRemove, List.length_append, List.length_map]
  rcases lt_or_ge i s.ent.length with hlt | hge
  · have hget : s.ent[i]? = some s.ent[i] := List.getElem?_eq_getElem hlt
    rw [List.length_eraseIdx_of_lt hlt, hget]
    simp only [Option.toList_some, List.length_cons, List.length_nil]
    omega
  · rw [List.eraseIdx_of_length_le hge, List.getElem?_eq_none hge]
    rfl

/-- Dropping aged entries derives no key. -/
theorem keyCount_storeEvictAged (fuel i : Nat) (s : SkipStore β) :
    (storeEvictAged fuel i s).keyCount = s.keyCount := by
  induction fuel generalizing i s with
  | zero => rfl
  | succ fuel ih =>
    rw [storeEvictAged]
    split
    · rfl
    · split_ifs
      · rw [ih, keyCount_storeEvict]
      · exact ih _ _

@[simp] theorem keyCount_storePostSuccess (s : SkipStore β) :
    (storePostSuccess s).keyCount = s.keyCount := by
  rw [storePostSuccess, keyCount_storeEvictAged, keyCount_clock]

variable [DecidableEq β]

omit [Octet β] in
/-- Nor does interning a header key. -/
theorem keyCount_epochIntern (s : SkipStore β) (hk : Bytes β) :
    (epochIntern s hk).2.keyCount = s.keyCount := by
  unfold epochIntern
  split
  · rfl
  · rfl

omit [DecidableEq β] in
@[simp] theorem keyCount_storeEvictOldest (s : SkipStore β) :
    (storeEvictOldest s).keyCount = s.keyCount := by
  rw [storeEvictOldest]
  split_ifs
  · exact keyCount_storeEvict s 0
  · rfl

omit [Octet β] [DecidableEq β] in
/-- An appended key is one key more. -/
theorem keyCount_storeAppend (t : SkipStore β) (ep : Nat) (n : UInt32) (mk : Bytes β) :
    (storeAppend t ep n mk).keyCount = t.keyCount + 1 := by
  simp only [keyCount, storeAppend, List.length_append, List.length_cons, List.length_nil]
  omega

/-- An insertion takes in one key. -/
@[simp] theorem keyCount_storeInsert (s : SkipStore β) (hk : Bytes β) (n : UInt32)
    (mk : Bytes β) : (storeInsert s hk n mk).keyCount = s.keyCount + 1 := by
  rw [storeInsert, keyCount_storeAppend, keyCount_epochIntern, keyCount_storeEvictOldest]

@[simp] theorem keyCount_storeInsertAll (hk : Bytes β) (n : UInt32) (mks : List (Bytes β))
    (s : SkipStore β) : (storeInsertAll hk n mks s).keyCount = s.keyCount + mks.length := by
  induction mks generalizing n s with
  | nil => rfl
  | cons mk mks ih =>
    rw [storeInsertAll, ih, keyCount_storeInsert, List.length_cons]
    omega

end SkipStore

namespace Engine

variable {σ η : Type} [DecidableEq β] [Sodium β] {E : Engine β σ η} {desc : SuiteDesc β}

variable (E desc) in
omit [Sodium β] in
/-- A walk of a receiving chain derives at most the keys up to its target, whatever it returns. -/
theorem keyCount_skipForward_le (to_ : UInt32) (hk : Bytes β) (s : σ) :
    (E.base (E.skipForward desc to_ hk s).2).skipped.keyCount ≤
      (E.base s).skipped.keyCount + (to_.toNat - (E.base s).nr.toNat) := by
  rw [skipForward_apply]
  obtain ⟨mks, hle, hstore, -, -⟩ := skipMany_stores desc hk (to_.toNat - (E.base s).nr.toNat)
    (E.base s).recv
  dsimp only
  rw [E.base_withBase, DrState.withRecv, hstore, SkipStore.keyCount_storeInsertAll]
  exact Nat.add_le_add_left hle _

variable (desc) in
omit [Sodium β] in
/-- A jump derives at most the keys of two jumps, one for each chain, whatever it returns. -/
theorem keyCount_reach_le (hE : E.Shape desc) (rnd : RatchetRand β) (h : η) (s : σ) :
    (E.base (E.reach desc rnd h s).2).skipped.keyCount ≤
      (E.base s).skipped.keyCount + 2 * maxSkip := by
  simp only [reach, Cmd.get_bind_apply, Cmd.ite_apply]
  split
  · -- a new chain: the checks bound both jumps before anything is derived
    simp only [newRemote, Cmd.get_bind_apply, Cmd.ite_apply, Cmd.fail_apply]
    split_ifs with hold hnew
    · exact Nat.le_add_right _ _
    · exact Nat.le_add_right _ _
    -- the old chain adds at most one store full: its check came first
    have hfin : (E.base (E.finishOld desc h s).2).skipped.keyCount ≤
        (E.base s).skipped.keyCount + maxSkip := by
      rw [finishOld, Cmd.get_bind_apply, Cmd.ite_apply]
      split
      · next hckr =>
        refine (keyCount_skipForward_le E desc _ _ _).trans (Nat.add_le_add_left ?_ _)
        rw [not_and_or, not_or, UInt32.not_lt] at hold
        obtain hno | ⟨hle, hfar⟩ := hold
        · exact absurd hckr hno
        · rw [UInt32.toNat_sub_of_le _ _ hle] at hfar
          omega
      · exact Nat.le_add_right _ _
    rw [Cmd.bind_apply]
    rcases hf : E.finishOld desc h s with ⟨_ | _, s₁⟩
    · rw [hf] at hfin
      dsimp only at hfin ⊢
      omega
    rw [hf] at hfin
    dsimp only at hfin ⊢
    rw [startNew, Cmd.bind_apply]
    -- the ratchet step itself stores nothing, also when it fails
    rcases hr : E.dhRatchet rnd h s₁ with ⟨_ | _, s₂⟩
    · have hkeep : (E.base s₂).skipped = (E.base s₁).skipped :=
        (hE.keeps_ratchet rnd h).of_apply hr
      dsimp only
      rw [hkeep]
      omega
    · obtain ⟨hview, -⟩ := hE.ratchet_ok hr
      simp only [DrState.recvView, Prod.mk.injEq] at hview
      have hwalk := keyCount_skipForward_le E desc (E.n h) (E.base s₂).hkr s₂
      have hzero : (0 : UInt32).toNat = 0 := rfl
      rw [hview.1, hview.2.1, hzero] at hwalk
      simp only [Cmd.get_bind_apply]
      omega
  · -- the current chain
    simp only [sameRemote, Cmd.get_bind_apply, Cmd.ite_apply, Cmd.fail_apply]
    split_ifs with hckr hback hfar
    · exact Nat.le_add_right _ _
    · exact Nat.le_add_right _ _
    · exact Nat.le_add_right _ _
    · have hle : (E.base s).nr ≤ E.n h := UInt32.not_lt.1 hback
      rw [UInt32.toNat_sub_of_le _ _ hle] at hfar
      have hwalk := keyCount_skipForward_le E desc (E.n h) (E.base s).hkr s
      omega

omit [DecidableEq β] in
/-- Opening a payload derives no key that is stored. -/
theorem keyCount_consume (fr : WireFrame β) (cap : Nat) (n : UInt32) (s : σ) :
    (E.base (E.consume desc fr cap n s).2).skipped.keyCount = (E.base s).skipped.keyCount := by
  rw [consume, Cmd.get_bind_apply]
  cases gyDrcKdfCk desc (E.base s).ckr with
  | error e => rfl
  | ok r =>
    simp only [Cmd.lift_ok_bind_apply, Cmd.modify_bind_apply]
    cases openPayload desc (E.base s) fr cap r.1 n with
    | error e =>
      rw [Cmd.lift_error_bind_apply]
      dsimp only
      rw [E.base_withBase]
    | ok pt =>
      simp only [Cmd.lift_ok_bind_apply, Cmd.modify_bind_apply, Cmd.pure_apply, E.base_withBase,
        SkipStore.keyCount_storePostSuccess]

/-- No header makes the session derive more than `2 * maxSkip` keys, whatever becomes of it. -/
theorem keyCount_chainPath_le (hE : E.Shape desc) (rnd : RatchetRand β) (fr : WireFrame β)
    (cap : Nat)
    (h : η) (s : σ) : (E.base (E.chainPath desc rnd fr cap h s).2).skipped.keyCount ≤
      (E.base s).skipped.keyCount + 2 * maxSkip := by
  have hreach := keyCount_reach_le desc hE rnd h s
  rw [chainPath, Cmd.bind_apply]
  rcases hr : E.reach desc rnd h s with ⟨_ | _, s₁⟩
  · rw [hr] at hreach
    exact hreach
  · rw [hr] at hreach
    exact (keyCount_consume fr cap (E.n h) s₁).trans_le hreach

/-- The numbers of the receiving chain around a message that came through the chain path: on the
chain the session was on, the message was not behind it. -/
theorem chainPath_le {rnd : RatchetRand β} {fr : WireFrame β} {cap : Nat} {h : η} {pt : Bytes β}
    {s s' : σ} (hr : E.chainPath desc rnd fr cap h s = (.ok pt, s'))
    (hsame : (E.base s).haveDhr = true ∧ E.ratchetPk h = (E.base s).dhr) :
    (E.base s).nr ≤ E.n h := by
  rw [chainPath] at hr
  obtain ⟨_, s₁, hreach, -⟩ := Cmd.bind_eq_ok_iff.1 hr
  have hcond : ¬ (!(E.base s).haveDhr || decide (E.ratchetPk h ≠ (E.base s).dhr)) = true := by
    simp [hsame.1, hsame.2]
  rw [reach, Cmd.get_bind_apply, Cmd.ite_apply, if_neg hcond] at hreach
  exact UInt32.le_iff_toNat_le.2 (sameRemote_ok hreach).2.1

end Engine

/-! ## Consecutive encryptions -/

/-- One call of an encryption: the buffer size, the plaintext, the associated data and what the
random source returns for the header salt. -/
structure SendCall (β : Type) where
  cap : Nat
  pt : Bytes β
  ad : Bytes β
  salt : Except GyErr (Bytes β)

/-- What came of one call in a sequence of encryptions: the header that the frame carries, the
frame or the error code, and whether the sending chain advanced. -/
structure Outgoing (β η : Type) where
  header : η
  frame : Except GyErr (Bytes β)
  moved : Bool

/-- How many steps the sending chain made from call `i` up to call `j`. -/
def chainSteps {η : Type} (os : List (Outgoing β η)) (i j : Nat) : Nat :=
  ((os.drop i).take (j - i)).countP (·.moved)

/-- A 32-bit counter is back where it was after a multiple of `2 ^ 32` steps only. -/
theorem UInt32.add_ofNat_eq_self_iff {a : UInt32} {k : Nat} :
    a = a + UInt32.ofNat k ↔ 2 ^ 32 ∣ k := by
  rw [left_eq_add, ← UInt32.toNat_inj, UInt32.toNat_ofNat', Nat.dvd_iff_mod_eq_zero]
  rfl

namespace Engine

variable {σ η : Type} [Sodium β] (E : Engine β σ η) (desc : SuiteDesc β)

/-- Consecutive encryptions, with no decryption in between. -/
def sendAll : List (SendCall β) → σ → List (Outgoing β η)
  | [], _ => []
  | c :: cs, s =>
    ⟨E.header s, (E.encrypt desc c.cap c.pt c.ad c.salt s).1,
        (E.prepare desc c.cap c.pt c.ad c.salt s).isOk⟩ ::
      sendAll cs (E.encrypt desc c.cap c.pt c.ad c.salt s).2

variable {E desc}

variable (E desc) in
/-- An encryption keeps the ratchet pair, and moves the sending chain by one number if it got as far
as that. -/
theorem encrypt_base (c : SendCall β) (s : σ) :
    (E.base (E.encrypt desc c.cap c.pt c.ad c.salt s).2).dhs = (E.base s).dhs ∧
    (E.base (E.encrypt desc c.cap c.pt c.ad c.salt s).2).ns = (E.base s).ns +
      UInt32.ofNat (if (E.prepare desc c.cap c.pt c.ad c.salt s).isOk then 1 else 0) := by
  rw [encrypt_eq]
  cases E.prepare desc c.cap c.pt c.ad c.salt s with
  | error e => simp [Except.isOk, Except.toBool]
  | ok p => simp [Except.isOk, Except.toBool, advanced]

/-- A frame is returned only if the sending chain advanced. -/
theorem moved_of_ok {c : SendCall β} {s : σ}
    (h : (E.encrypt desc c.cap c.pt c.ad c.salt s).1.isOk = true) :
    (E.prepare desc c.cap c.pt c.ad c.salt s).isOk = true := by
  rw [encrypt_eq] at h
  cases hp : E.prepare desc c.cap c.pt c.ad c.salt s with
  | error e =>
    rw [hp] at h
    exact h
  | ok p => rfl

/-- Against the first state: every header carries the same ratchet key, and a number that counts the
steps of the chain so far. -/
theorem sendAll_getElem (hE : E.Shape desc) {cs : List (SendCall β)} {s : σ} {j : Nat}
    {o : Outgoing β η} (h : (E.sendAll desc cs s)[j]? = some o) :
    E.ratchetPk o.header = (E.base s).dhs.pk ∧
      E.n o.header = (E.base s).ns +
        UInt32.ofNat (((E.sendAll desc cs s).take j).countP (·.moved)) := by
  induction cs generalizing s j with
  | nil => cases h
  | cons c cs ih =>
    cases j with
    | zero =>
      obtain rfl := Option.some.inj h
      exact ⟨hE.header_pk s, by simp [hE.header_n]⟩
    | succ j =>
      obtain ⟨hpk, hn⟩ := ih h
      obtain ⟨hdhs, hns⟩ := encrypt_base E desc c s
      rw [hdhs] at hpk
      refine ⟨hpk, ?_⟩
      rw [hn, hns, sendAll, List.take_succ_cons, List.countP_cons, Nat.add_comm, UInt32.ofNat_add,
        UInt32.add_assoc]

variable (E desc) in
/-- The later sends of a run are a run from a later state. -/
theorem drop_sendAll (cs : List (SendCall β)) (s : σ) (i : Nat) :
    ∃ s', (E.sendAll desc cs s).drop i = E.sendAll desc (cs.drop i) s' := by
  induction cs generalizing s i with
  | nil => exact ⟨s, by simp [sendAll]⟩
  | cons c cs ih =>
    cases i with
    | zero => exact ⟨s, rfl⟩
    | succ i => exact ih _ i

/-- A frame that was returned moved the sending chain. -/
theorem sendAll_moved {cs : List (SendCall β)} {s : σ} {o : Outgoing β η}
    (ho : o ∈ E.sendAll desc cs s) (h : o.frame.isOk = true) : o.moved = true := by
  induction cs generalizing s with
  | nil => cases ho
  | cons c cs ih =>
    rcases List.mem_cons.1 ho with rfl | ho
    · exact moved_of_ok h
    · exact ih ho

/-- Two frames of consecutive encryptions carry the same ratchet key, and the same number exactly
when the chain made a multiple of `2 ^ 32` steps in between; fewer than `2 ^ 32` calls are too few
for that. -/
theorem sendAll_numbers (hE : E.Shape desc) {cs : List (SendCall β)} {s : σ} {i j : Nat}
    {o o' : Outgoing β η} (hij : i < j) (ho : (E.sendAll desc cs s)[i]? = some o)
    (ho' : (E.sendAll desc cs s)[j]? = some o') :
    E.ratchetPk o.header = E.ratchetPk o'.header ∧
      (E.n o.header = E.n o'.header ↔ 2 ^ 32 ∣ chainSteps (E.sendAll desc cs s) i j) ∧
      (o.frame.isOk = true → j - i < 2 ^ 32 → E.n o.header ≠ E.n o'.header) := by
  obtain ⟨s', hdrop⟩ := drop_sendAll E desc cs s i
  have h0 : (E.sendAll desc (cs.drop i) s')[0]? = some o := by
    rw [← hdrop, List.getElem?_drop]
    exact ho
  have h1 : (E.sendAll desc (cs.drop i) s')[j - i]? = some o' := by
    rw [← hdrop, List.getElem?_drop, Nat.add_sub_cancel' hij.le]
    exact ho'
  obtain ⟨hpk, hn⟩ := sendAll_getElem hE h0
  obtain ⟨hpk', hn'⟩ := sendAll_getElem hE h1
  replace hn : E.n o.header = (E.base s').ns := hn.trans (UInt32.add_zero _)
  rw [← hdrop] at hn'
  change E.n o'.header = _ + UInt32.ofNat (chainSteps (E.sendAll desc cs s) i j) at hn'
  have hiff : E.n o.header = E.n o'.header ↔ 2 ^ 32 ∣ chainSteps (E.sendAll desc cs s) i j := by
    rw [hn, hn', UInt32.add_ofNat_eq_self_iff]
  refine ⟨hpk.trans hpk'.symm, hiff, fun hok hlt heq => ?_⟩
  -- at least the step of the first call, and at most one for each call
  have hpos : 0 < chainSteps (E.sendAll desc cs s) i j := by
    refine List.countP_pos_iff.2 ⟨o, ?_, sendAll_moved (List.mem_of_getElem? ho) hok⟩
    refine List.mem_of_getElem? (i := 0) ?_
    rw [List.getElem?_take_of_lt (by omega), List.getElem?_drop]
    exact ho
  have hle : chainSteps (E.sendAll desc cs s) i j ≤ j - i :=
    List.countP_le_length.trans (List.length_take_le _ _)
  exact absurd (Nat.le_of_dvd hpos (hiff.1 heq)) (by omega)

/-- The frame carries the header, encrypted. -/
def Carries (E : Engine β σ η) (desc : SuiteDesc β) (h : η) (frame : Bytes β) : Prop :=
  ∃ aeadId hk hdrp cap rand salt enc ct, E.encode h E.headerMax = .ok hdrp ∧
    gyHeEncrypt desc aeadId hk hdrp (gyFramePut desc.suiteId) cap rand = .ok (salt, enc) ∧
    frame = gyFramePut desc.suiteId ++ headerWire salt enc ++ ct

/-- A prepared header unit is the encrypted header of the state. -/
theorem prepare_carries {cap : Nat} {pt ad : Bytes β} {salt : Except GyErr (Bytes β)} {st : σ}
    {p : Prepared β} (h : E.prepare desc cap pt ad salt st = .ok p) (ct : Bytes β) :
    Carries E desc (E.header st) (gyFramePut desc.suiteId ++ p.wire ++ ct) := by
  rw [prepare] at h
  split_ifs at h with hhave had
  obtain ⟨hdrp, henc, h⟩ := Except.bind_eq_ok_iff.1 h
  dsimp only at h
  split_ifs at h with hcap
  obtain ⟨⟨salt', enc⟩, hhe, h⟩ := Except.bind_eq_ok_iff.1 h
  obtain ⟨⟨msgKey, ckNext⟩, hck, h⟩ := Except.bind_eq_ok_iff.1 h
  obtain rfl := Except.ok.inj h
  exact ⟨_, _, hdrp, _, _, salt', enc, ct, henc, hhe, rfl⟩

/-- What a send hands out carries its header. -/
theorem sendAll_carries {cs : List (SendCall β)} {s : σ} {o : Outgoing β η} {frame : Bytes β}
    (ho : o ∈ E.sendAll desc cs s) (h : o.frame = .ok frame) : Carries E desc o.header frame := by
  induction cs generalizing s with
  | nil => cases ho
  | cons c cs ih =>
    rcases List.mem_cons.1 ho with rfl | ho
    · rw [encrypt_eq] at h
      cases hp : E.prepare desc c.cap c.pt c.ad c.salt s with
      | error e =>
        rw [hp] at h
        cases h
      | ok p =>
        rw [hp] at h
        obtain ⟨r, -, h⟩ := Except.bind_eq_ok_iff.1 h
        obtain ⟨ct, -, h⟩ := Except.bind_eq_ok_iff.1 h
        obtain rfl := Except.ok.inj h
        exact prepare_carries hp ct
    · exact ih ho

end Engine

/-! ## Both engines -/

/-- What the message numbers of an engine promise. -/
structure Engine.CountersOk {σ η : Type} [DecidableEq β] [Sodium β] (E : Engine β σ η)
    (desc : SuiteDesc β) : Prop where
  /-- No header makes the session derive more than two stores full of keys, whatever becomes of
  it. -/
  derived_le : ∀ rnd fr cap h s, (E.base (E.chainPath desc rnd fr cap h s).2).skipped.keyCount ≤
    (E.base s).skipped.keyCount + 2 * maxSkip
  /-- An accepted message that used no stored key leaves the receiving chain one past its header's
  number, modulo the counter's range, and was not behind the chain it belongs to. -/
  received : ∀ rnd cap msg ad s pt, (E.decryptAssoc desc rnd cap msg ad s).1.1 = .ok pt →
    (E.base (E.decryptAssoc desc rnd cap msg ad s).2).nr = (E.base s).nr ∨
    ∃ fr hdrp hd, E.parseFrame desc (E.base s).aeadId msg ad = .ok fr ∧
      E.openCurrentOrNext desc (E.base s) fr = some hdrp ∧ E.decode hdrp = .ok hd ∧
      (E.base (E.decryptAssoc desc rnd cap msg ad s).2).nr.toNat = ((E.n hd).toNat + 1) % 2 ^ 32 ∧
      ((E.base s).haveDhr = true ∧ E.ratchetPk hd = (E.base s).dhr → (E.base s).nr ≤ E.n hd)
  /-- Of consecutive encryptions, two frames carry the same number under the same ratchet key
  exactly when the chain made a multiple of `2 ^ 32` steps in between, which fewer than `2 ^ 32`
  calls never do. -/
  sent : ∀ (cs : List (SendCall β)) (s : σ) (i j : Nat) (o o' : Outgoing β η) (f f' : Bytes β),
    i < j → (E.sendAll desc cs s)[i]? = some o → (E.sendAll desc cs s)[j]? = some o' →
    o.frame = .ok f → o'.frame = .ok f' →
    E.Carries desc o.header f ∧ E.Carries desc o'.header f' ∧
    E.ratchetPk o.header = E.ratchetPk o'.header ∧
    (E.n o.header = E.n o'.header ↔ 2 ^ 32 ∣ chainSteps (E.sendAll desc cs s) i j) ∧
    (j - i < 2 ^ 32 → E.n o.header ≠ E.n o'.header)

/-- The counters of both engines, from their common shape. -/
theorem Engine.Shape.countersOk {σ η : Type} [DecidableEq β] [Sodium β] {E : Engine β σ η}
    {desc : SuiteDesc β} (hE : E.Shape desc) : E.CountersOk desc where
  derived_le := keyCount_chainPath_le hE
  received := by
    intro rnd cap msg ad s pt h
    obtain ⟨i, -, hst⟩ | ⟨fr, hdrp, hd, hfr, hopen, hdec, hchain⟩ := decryptAssoc_ok h
    · left
      rw [hst, E.base_withBase]
    · right
      refine ⟨fr, hdrp, hd, hfr, hopen, hdec, ?_, chainPath_le hchain⟩
      rw [(chainPath_ok hE hchain).2, UInt32.toNat_add]
      rfl
  sent := by
    intro cs s i j o o' f f' hij ho ho' hf hf'
    obtain ⟨hpk, hiff, hne⟩ := sendAll_numbers hE hij ho ho'
    refine ⟨sendAll_carries (List.mem_of_getElem? ho) hf,
      sendAll_carries (List.mem_of_getElem? ho') hf', hpk, hiff, hne ?_⟩
    rw [hf]
    rfl

/-- For both engines, whatever the suite and the state. -/
theorem chain_counters [DecidableEq β] [Sodium β] (desc : SuiteDesc β) :
    (classical desc).CountersOk desc ∧ (hybrid desc).CountersOk desc :=
  ⟨(shape_classical desc).countersOk, (shape_hybrid desc).countersOk⟩

/-! ## The counters wrap -/

section Wrap

variable {σ η γ : Type} [Sodium β] {desc : SuiteDesc β} {E : Engine β σ η} {I : IdealSuite desc}
  {S : EngineSpec E I γ} {id : UInt8} {ad : Bytes β} {sec : DrSecrets β} {lv : Nat → Level β γ}

/-- A session that can send on the chain of level `ℓ`, wherever on it the session stands. -/
structure ReadyAt (S : EngineSpec E I γ) (id : UInt8) (lv : Nat → Level β γ) (ℓ : Nat) (s : σ) :
    Prop where
  aeadId : (E.base s).aeadId = id
  haveCks : (E.base s).haveCks = true
  haveHks : (E.base s).haveHks = true
  dhs : (E.base s).dhs = (lv ℓ).kp
  ext : S.Ext lv ℓ s

/-- A sender that has advanced its chain is still ready. -/
theorem ReadyAt.advanced {ℓ : Nat} {s : σ} (h : ReadyAt S id lv ℓ s) (ckNext : Bytes β) :
    ReadyAt S id lv ℓ (E.advanced ckNext s) := by
  refine ⟨?_, ?_, ?_, ?_, S.ext_withBase _ h.ext⟩
  all_goals rw [Engine.advanced, E.base_withBase]
  · exact h.aeadId
  · exact h.haveCks
  · exact h.haveHks
  · exact h.dhs

/-- With room in the buffer such a session produces a frame and can send again. -/
theorem ReadyAt.encrypt {ℓ : Nat} {s : σ} (h : ReadyAt S id lv ℓ s) (hℓ : 1 ≤ ℓ)
    (hid : AeadUsable β id) (hg : I.genuine (lv ℓ).kp) (had : ad.length ≤ E.adMax) {cap : Nat}
    {pt : Bytes β} (hcap : RoomFor E id pt cap) (salt : Bytes β) :
    (E.encrypt desc cap pt ad (.ok salt) s).1.isOk = true ∧
      ReadyAt S id lv ℓ (E.encrypt desc cap pt ad (.ok salt) s).2 := by
  have hpk : (E.ratchetPk (E.header s)).length = desc.curvePkLen := by
    rw [S.header_pk, h.dhs]
    exact I.genuine_pk hg
  obtain ⟨hdrp, henc, hmax, -, -, -⟩ := S.encode_ok (S.hdr_header hℓ h.ext h.dhs) hpk
  unfold RoomFor at hcap
  obtain ⟨enc, hhe, -⟩ := I.works.gyHeEncrypt_ok hid (E.base s).hks (gyFramePut desc.suiteId) salt
    (by omega : hdrp.length + aeadTagLen id ≤ cap - (2 + heSaltLen + 2))
  obtain ⟨hck, -, -⟩ := I.works.gyDrcKdfCk_eq (E.base s).cks
  -- the header and the chain step go through
  have hp : E.prepare desc cap pt ad (.ok salt) s =
      .ok ⟨2 + (heSaltLen + 2 + (hdrp.length + aeadTagLen (E.base s).aeadId)),
        Engine.headerWire salt enc, messageKey desc (E.base s).cks,
        nextChainKey desc (E.base s).cks⟩ := by
    apply Engine.prepare_of h.haveCks h.haveHks (S.canSend hℓ h.ext) had henc
    · rw [h.aeadId]
      omega
    · rw [h.aeadId]
      exact hhe
    · exact hck
  -- and so does the payload, since the room was checked for it
  obtain ⟨key, nonce, -, hder, hn, -⟩ := I.works.deriveKeyNonce_ok hid
    (by decide : "dr.aead".length ≤ 10) (messageKey desc (E.base s).cks) (be32Put (E.base s).ns)
  obtain ⟨ct, hct, -, -⟩ := I.works.gyAeadEncrypt_ok hid key (ad ++ Engine.headerWire salt enc) hn
    (by omega : pt.length + aeadTagLen id ≤
      cap - (2 + (heSaltLen + 2 + (hdrp.length + aeadTagLen id))))
  rw [Engine.encrypt_eq, hp]
  refine ⟨?_, h.advanced _⟩
  simp only [Engine.sealPayload, gyDrcDeriveAead, h.aeadId, hder, hct, Except.ok_bind]
  rfl

/-- One call repeated: every frame is returned. -/
theorem ReadyAt.sendAll {ℓ : Nat} {s : σ} (h : ReadyAt S id lv ℓ s) (hℓ : 1 ≤ ℓ)
    (hid : AeadUsable β id) (hg : I.genuine (lv ℓ).kp) (had : ad.length ≤ E.adMax) {cap : Nat}
    {pt : Bytes β} (hcap : RoomFor E id pt cap) (salt : Bytes β) (n : Nat) :
    (E.sendAll desc (List.replicate n ⟨cap, pt, ad, .ok salt⟩) s).length = n ∧
      ∀ o ∈ E.sendAll desc (List.replicate n ⟨cap, pt, ad, .ok salt⟩) s, o.frame.isOk = true := by
  induction n generalizing s with
  | zero => exact ⟨rfl, fun o ho => by cases ho⟩
  | succ n ih =>
    obtain ⟨hok, hnext⟩ := h.encrypt hℓ hid hg had hcap salt
    obtain ⟨hlen, hall⟩ := ih hnext
    refine ⟨congrArg (· + 1) hlen, fun o ho => ?_⟩
    rcases List.mem_cons.1 ho with rfl | ho
    · exact hok
    · exact hall o ho

/-- So one message number comes back after `2 ^ 32` calls. -/
theorem ReadyAt.repeats (hE : E.Shape desc) {ℓ : Nat} {s : σ} (h : ReadyAt S id lv ℓ s) (hℓ : 1 ≤ ℓ)
    (hid : AeadUsable β id) (hg : I.genuine (lv ℓ).kp) (had : ad.length ≤ E.adMax) {cap : Nat}
    {pt : Bytes β} (hcap : RoomFor E id pt cap) (salt : Bytes β) {M : Nat} (hM : 2 ^ 32 ∣ M)
    (hpos : 0 < M) :
    ∃ o o', (E.sendAll desc (List.replicate (M + 1) ⟨cap, pt, ad, .ok salt⟩) s)[0]? = some o ∧
      (E.sendAll desc (List.replicate (M + 1) ⟨cap, pt, ad, .ok salt⟩) s)[M]? = some o' ∧
      o.frame.isOk = true ∧ o'.frame.isOk = true ∧
      E.ratchetPk o.header = E.ratchetPk o'.header ∧ E.n o.header = E.n o'.header := by
  obtain ⟨hlen, hall⟩ := h.sendAll hℓ hid hg had hcap salt (M + 1)
  generalize hos : E.sendAll desc (List.replicate (M + 1) ⟨cap, pt, ad, .ok salt⟩) s = os
    at hlen hall
  obtain ⟨o, h0⟩ : ∃ o, os[0]? = some o := ⟨_, List.getElem?_eq_getElem (by omega)⟩
  obtain ⟨o', hM'⟩ : ∃ o, os[M]? = some o := ⟨_, List.getElem?_eq_getElem (by omega)⟩
  refine ⟨o, o', h0, hM', hall _ (List.mem_of_getElem? h0), hall _ (List.mem_of_getElem? hM'), ?_⟩
  rw [← hos] at h0 hM'
  obtain ⟨hpk, hiff, -⟩ := Engine.sendAll_numbers hE hpos h0 hM'
  refine ⟨hpk, hiff.2 ?_⟩
  -- every one of the calls in between moved the chain
  have hsteps : chainSteps os 0 M = M := by
    rw [chainSteps, List.drop_zero, Nat.sub_zero, List.countP_eq_length.2, List.length_take]
    · omega
    · intro o ho
      have hmem : o ∈ os := List.mem_of_mem_take ho
      rw [← hos] at hmem
      exact Engine.sendAll_moved hmem (hall o (hos ▸ hmem))
  rw [hos, hsteps]
  exact hM

/-- A receiver that stands at the last number of a chain accepts the message of that number and
then stands at zero. -/
theorem Pinged.receive_wraps [DecidableEq β] {w : World β σ} {keys : List (Bytes β)}
    {pos : Party → Nat → Nat} {m M : Nat} (h : Pinged S id ad sec w keys lv pos m)
    (hid : AeadUsable β id) (had : ad.length ≤ E.adMax) (hsec : Seeds desc sec) (hm : 0 < m)
    (hlt : m < 2 ^ 32) (hmM : m + 1 = M) (hM : UInt32.ofNat M = 0) {cap : Nat} {salt : Bytes β}
    (hsalt : salt.length = heSaltLen) (hcap : RoomFor E id ([] : Bytes β) cap)
    {rnd : RatchetRand β} {kp : Keypair β} (hrnd : S.RandOk rnd kp) :
    ∃ wire, (E.encrypt desc cap [] ad (.ok salt) (w.st .alice)).1 = .ok wire ∧
      (E.decryptAssoc desc rnd cap wire ad (w.st .bob)).1.1 = .ok [] ∧
      (E.base (w.st .bob)).nr.toNat = m ∧
      (E.base (E.decryptAssoc desc rnd cap wire ad (w.st .bob)).2).nr = 0 := by
  have hy := h.sync
  rw [if_neg (by omega : m ≠ 0)] at hy
  have hnr := h.nr (by omega)
  have hg : I.genuine (lv 1).kp := hy.genuine .alice 1 le_rfl
  have hd : Schedule.Derived sec lv desc 2 := hy.derived .bob
  have hns : (E.base (w.st .alice)).ns.toNat = m := by
    rw [hy.ns .alice]
    show (UInt32.ofNat (w.total E .alice (lv 1).kp.pk)).toNat = m
    rw [h.total, UInt32.toNat_ofNat', Nat.mod_eq_of_lt hlt]
  -- Alice's frame carries the number `m`
  obtain ⟨wire, henc, hsealed⟩ : ∃ wire, (E.encrypt desc cap [] ad (.ok salt) (w.st .alice)).1 =
      .ok wire ∧ Sealed S id ad sec lv 1 m
        (UInt32.ofNat (E.base (w.st .alice)).pn.toNat) [] wire := by
    rw [UInt32.ofNat_toNat]
    rcases encrypt_at S hid le_rfl (hy.base .alice) (hy.ext .alice) hg had cap [] hsalt with
      ⟨wire, henc, hsealed⟩ | ⟨e, hlt', -⟩
    · rw [hns] at hsealed
      exact ⟨wire, congrArg Prod.fst henc, hsealed⟩
    · exact absurd hcap (Nat.not_le.mpr hlt')
  have hlen : ∀ i, 1 ≤ i → i ≤ 2 + 1 → (Schedule.hk sec lv i).length = 32 := fun i h1 hi =>
    Schedule.length_hk I hsec hd h1 (by omega)
  have hb : BaseAt desc id sec lv 2 (E.base (w.st .bob)) := hy.base .bob
  have hx : S.Ext lv 2 (w.st .bob) := hy.ext .bob
  have hout := decryptAssoc_sealed S hid hb hx hg had hsealed le_rfl
    (by decide) (by decide) hlen
    (fun i h1 hi heq => Schedule.hk_injective I hsec hd h1 le_rfl (by omega) (by omega) heq)
    (fun x hx => by rw [h.view] at hx; cases hx) (fun h => absurd h (by decide))
    (fun h => absurd h (by decide)) hlt (UInt32.toNat_lt _) hrnd cap
  refine ⟨wire, henc, ?_⟩
  -- Bob stands at `m` with an empty store, so of the four outcomes only one is possible
  rcases hout with ⟨i, -, hview, -⟩ | ⟨-, -, -, -, t, -, -, hout⟩ | ⟨-, hr, -⟩ | ⟨e, -, hwhy⟩
  · rw [h.view] at hview
    cases hview
  · obtain ⟨h1, h2⟩ := Prod.mk.inj hout
    refine ⟨h1, hnr, ?_⟩
    rw [h2, E.base_withBase, hmM, hM]
    rfl
  · exact absurd hr (by decide)
  · exfalso
    rcases hwhy with hwhy | ⟨-, hno, -⟩
    · exact absurd hwhy (by simp)
    · exact hno ⟨rfl, hnr.le, by rw [hnr, Nat.sub_self]; exact Nat.zero_le _⟩

end Wrap

/-- The initiator of a fresh session can send on the first chain. -/
theorem readyAt_symAlice : ∃ lv : Nat → Level Sym Unit,
    ReadyAt (classicalSpec (symIdeal false)) 1 lv 1 symAlice ∧
      (symIdeal false).genuine (lv 1).kp := by
  obtain ⟨lv, hy⟩ := sync_sym
  have hb : BaseAt (symSuite false) 1 (symSecrets false) lv 1 symAlice := hy.base .alice
  exact ⟨lv, ⟨hb.aeadId, hb.haveCks, hb.haveHks, hb.dhs, trivial⟩, hy.genuine .alice 1 le_rfl⟩

/-- The first and the third of three frames of an initiator are under one ratchet key and have
different numbers. -/
theorem three_frames_numbered :
    let os := (classical (symSuite false)).sendAll (symSuite false)
      (List.replicate 3 ⟨8192, [], [], .ok (zeros 16)⟩) symAlice
    ∃ o o', os[0]? = some o ∧ os[2]? = some o' ∧ o.frame.isOk = true ∧ o'.frame.isOk = true ∧
      o.header.ratchetPk = o'.header.ratchetPk ∧ o.header.n ≠ o'.header.n := by
  intro os
  obtain ⟨lv, hready, hg⟩ := readyAt_symAlice
  obtain ⟨hlen, hall⟩ := hready.sendAll le_rfl aeadUsable_sym hg
    (show ([] : Bytes Sym).length ≤ x3dhAdMax from Nat.zero_le _) roomFor_classical (zeros 16) 3
  have hlen : os.length = 3 := hlen
  obtain ⟨o, ho⟩ : ∃ o, os[0]? = some o := ⟨_, List.getElem?_eq_getElem (by omega)⟩
  obtain ⟨o', ho'⟩ : ∃ o, os[2]? = some o := ⟨_, List.getElem?_eq_getElem (by omega)⟩
  have hok := hall o (List.mem_of_getElem? ho)
  have hok' := hall o' (List.mem_of_getElem? ho')
  -- all three frames go out, by the run lemma
  have hframe : ∀ x : Except GyErr (Bytes Sym), x.isOk = true → ∃ f, x = .ok f := by
    rintro (e | f) h
    · cases h
    · exact ⟨f, rfl⟩
  obtain ⟨f, hf⟩ := hframe _ hok
  obtain ⟨f', hf'⟩ := hframe _ hok'
  obtain ⟨-, -, hpk, -, hne⟩ := (chain_counters (symSuite false)).1.sent _ symAlice 0 2 o o' f f'
    (by decide) ho ho' hf hf'
  exact ⟨o, o', ho, ho', hok, hok', hpk, hne (by decide)⟩

/-- The repeated number, for the classical engine. -/
theorem classical_repeats {M : Nat} (hM : 2 ^ 32 ∣ M) (hpos : 0 < M) :
    ∃ (cs : List (SendCall Sym)) (o o' : Outgoing Sym (DrHeader Sym)),
      ((classical (symSuite false)).sendAll (symSuite false) cs symAlice)[0]? = some o ∧
      ((classical (symSuite false)).sendAll (symSuite false) cs symAlice)[M]? = some o' ∧
      o.frame.isOk = true ∧ o'.frame.isOk = true ∧ o.header.ratchetPk = o'.header.ratchetPk ∧
      o.header.n = o'.header.n := by
  obtain ⟨lv, hready, hg⟩ := readyAt_symAlice
  obtain ⟨o, o', h⟩ := hready.repeats (shape_classical _) le_rfl aeadUsable_sym hg
    (show ([] : Bytes Sym).length ≤ (classical (symSuite false)).adMax from Nat.zero_le _)
    roomFor_classical (zeros 16) hM hpos
  exact ⟨_, o, o', h⟩

/-- The wrapped receiver, for the classical engine. -/
theorem classical_receive_wraps {m M : Nat} (hm : 0 < m) (hlt : m < 2 ^ 32) (hmM : m + 1 = M)
    (hM : UInt32.ofNat M = 0) :
    let w := (World.start symAlice symBob).run (classical (symSuite false)) (symSuite false) []
      (pings (fun i => symRand (i + 2)) 8192 (zeros 16) m)
    ∃ wire, (gyDrEncrypt (symSuite false) 8192 [] [] (.ok (zeros 16)) (w.st .alice)).1 = .ok wire ∧
      (gyDrDecryptAssoc (symSuite false) (symRand 1) 8192 wire [] (w.st .bob)).1.1 = .ok [] ∧
      (w.st .bob).nr.toNat = m ∧
      (gyDrDecryptAssoc (symSuite false) (symRand 1) 8192 wire [] (w.st .bob)).2.nr = 0 := by
  obtain ⟨lv, hy⟩ := sync_sym
  obtain ⟨keys, lv', pos', hp, -⟩ := (Pinged.start hy rfl).run aeadUsable_sym (Nat.zero_le _)
    (seeds_sym false) (length_zeros 16) roomFor_classical (fun i => classicalRandOk_sym (i + 2))
    (symRand_pk_injective 2) symRand_pk_fresh m hlt
  exact hp.receive_wraps aeadUsable_sym (Nat.zero_le _) (seeds_sym false) hm hlt hmM hM
    (length_zeros 16) roomFor_classical (classicalRandOk_sym 1)

/-- Both counters of a session wrap. An initiator that encrypts `2 ^ 32 + 1` times returns two
frames with one number under one ratchet key; a responder that has received `2 ^ 32 - 1` messages
one by one accepts the next and then expects number zero. -/
theorem chain_counters_wrap :
    (∃ (cs : List (SendCall Sym)) (o o' : Outgoing Sym (DrHeader Sym)),
      ((classical (symSuite false)).sendAll (symSuite false) cs symAlice)[0]? = some o ∧
      ((classical (symSuite false)).sendAll (symSuite false) cs symAlice)[2 ^ 32]? = some o' ∧
      o.frame.isOk = true ∧ o'.frame.isOk = true ∧ o.header.ratchetPk = o'.header.ratchetPk ∧
      o.header.n = o'.header.n) ∧
    let w := (World.start symAlice symBob).run (classical (symSuite false)) (symSuite false) []
      (pings (fun i => symRand (i + 2)) 8192 (zeros 16) (2 ^ 32 - 1))
    ∃ wire, (gyDrEncrypt (symSuite false) 8192 [] [] (.ok (zeros 16)) (w.st .alice)).1 = .ok wire ∧
      (gyDrDecryptAssoc (symSuite false) (symRand 1) 8192 wire [] (w.st .bob)).1.1 = .ok [] ∧
      (w.st .bob).nr.toNat = 2 ^ 32 - 1 ∧
      (gyDrDecryptAssoc (symSuite false) (symRand 1) 8192 wire [] (w.st .bob)).2.nr = 0 := by
  constructor
  · apply classical_repeats
    · decide
    · decide
  · exact classical_receive_wraps (M := 2 ^ 32) (by decide) (by decide) (by decide) (by decide)

end Geryon
