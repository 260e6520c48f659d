import Geryon.Ratchet.Shape

/-!
# What a successful decryption does to the receiving side

The receiving side of a session is its skipped keys, the header key of its receiving chain and the
number the chain stands at. A successful decryption changes it in one of three ways, which
`Arrival` lists; the two engines differ in how they derive keys, not here.

## Main definitions

* `storeInsertAll`: the store after consecutive message keys of one chain were inserted;
* `Arrival`, `RecvSide.receive`: the three ways and what they do.

## Main results

* `skipMany_stores`: the skip loop inserts consecutive keys, whatever it returns;
* `Engine.decryptAssoc_arrival`: a successful decryption is an arrival that fits.
-/

namespace Geryon

variable {β : Type} [Octet β]

/-- A counter that moved from `a` to `b` in `k` steps without wrapping. -/
theorem UInt32.eq_add_ofNat {a b : UInt32} {k : Nat} (h : a.toNat + k = b.toNat) :
    b = a + UInt32.ofNat k := by
  have hb := b.toNat_lt
  refine UInt32.toNat_inj.1 ?_
  rw [UInt32.toNat_add, UInt32.toNat_ofNat', Nat.mod_eq_of_lt (by omega : k < 2 ^ 32), h,
    Nat.mod_eq_of_lt hb]

section Store

variable [DecidableEq β]

/-- Insert consecutive message keys of one chain, from number `n` on. -/
def storeInsertAll (hk : Bytes β) : UInt32 → List (Bytes β) → SkipStore β → SkipStore β
  | _, [], s => s
  | n, mk :: mks, s => storeInsertAll hk (n + 1) mks (storeInsert s hk n mk)

/-- The skip loop inserts consecutive keys and moves the chain past them; it stops early only when
it fails. -/
theorem skipMany_stores (desc : SuiteDesc β) (hk : Bytes β) (k : Nat) (c : RecvChain β) :
    ∃ mks : List (Bytes β), mks.length ≤ k ∧
      (skipMany desc hk k c).2.store = storeInsertAll hk c.nr mks c.store ∧
      (skipMany desc hk k c).2.nr = c.nr + UInt32.ofNat mks.length ∧
      ((skipMany desc hk k c).1 = .ok () → mks.length = k) := by
  induction k generalizing c with
  | zero => exact ⟨[], le_rfl, rfl, by simp [skipMany], fun _ => rfl⟩
  | succ k ih =>
    rw [skipMany]
    cases hck : gyDrcKdfCk desc c.ck with
    | error e =>
      have hone : skipOne desc hk c = (.error e, c) := by
        simp [skipOne, hck]
      rw [Cmd.bind_apply_of_error hone]
      exact ⟨[], Nat.zero_le _, rfl, by simp, fun h => by cases h⟩
    | ok r =>
      have hone : skipOne desc hk c =
          (.ok (), ⟨storeInsert c.store hk c.nr r.1, r.2, c.nr + 1⟩) := by
        simp [skipOne, hck]
      rw [Cmd.bind_apply_of_ok hone]
      obtain ⟨mks, hle, hstore, hnr, hall⟩ := ih ⟨storeInsert c.store hk c.nr r.1, r.2, c.nr + 1⟩
      refine ⟨r.1 :: mks, Nat.succ_le_succ hle, hstore, ?_, fun h => congrArg (· + 1) (hall h)⟩
      rw [hnr, List.length_cons, UInt32.ofNat_add]
      show c.nr + 1 + _ = c.nr + (_ + 1)
      rw [UInt32.add_assoc, UInt32.add_comm 1]

/-- While there is room, an insertion appends an entry that carries the clock's reading. -/
theorem storeInsert_of_room {s : SkipStore β} (hroom : s.ent.length < maxSkip) (hk : Bytes β)
    (n : UInt32) (mk : Bytes β) :
    (storeInsert s hk n mk).lost = s.lost ∧ (storeInsert s hk n mk).recvCount = s.recvCount ∧
      ∃ ep, (storeInsert s hk n mk).ent = s.ent ++ [⟨ep, n, s.recvCount, mk⟩] := by
  have hold : storeEvictOldest s = s := by
    rw [storeEvictOldest, if_neg hroom.ne]
  have hin : (epochIntern s hk).2.ent = s.ent ∧ (epochIntern s hk).2.lost = s.lost ∧
      (epochIntern s hk).2.recvCount = s.recvCount := by
    unfold epochIntern
    split
    · exact ⟨rfl, rfl, rfl⟩
    · exact ⟨rfl, rfl, rfl⟩
  obtain ⟨hent, hlost, hclock⟩ := hin
  simp only [storeInsert, hold, storeAppend, hent, hclock]
  exact ⟨hlost, trivial, (epochIntern s hk).1, rfl⟩

/-- While there is room, nothing is lost and the new entries carry the clock's reading. -/
theorem storeInsertAll_of_room {s : SkipStore β} {hk : Bytes β} {n : UInt32}
    {mks : List (Bytes β)} (hroom : s.ent.length + mks.length ≤ maxSkip) :
    (storeInsertAll hk n mks s).lost = s.lost ∧
      (storeInsertAll hk n mks s).recvCount = s.recvCount ∧
      (storeInsertAll hk n mks s).ent.length = s.ent.length + mks.length ∧
      ∀ e ∈ (storeInsertAll hk n mks s).ent, e ∈ s.ent ∨ e.age = s.recvCount := by
  induction mks generalizing n s with
  | nil => exact ⟨rfl, rfl, rfl, fun e he => .inl he⟩
  | cons mk mks ih =>
    rw [List.length_cons] at hroom ⊢
    obtain ⟨hlost, hclock, ep, hent⟩ := storeInsert_of_room (s := s) (by omega) hk n mk
    have hlen : (storeInsert s hk n mk).ent.length = s.ent.length + 1 := by
      rw [hent, List.length_append]
      rfl
    obtain ⟨hlost', hclock', hlen', hages⟩ := @ih (storeInsert s hk n mk) (n + 1) (by omega)
    refine ⟨hlost'.trans hlost, hclock'.trans hclock, by rw [storeInsertAll, hlen']; omega,
      fun e he => ?_⟩
    obtain he | he := hages e he
    · rw [hent] at he
      obtain he | he := List.mem_append.1 he
      · exact .inl he
      · obtain rfl := List.mem_singleton.1 he
        exact .inr rfl
    · exact .inr (he.trans hclock)

end Store

/-! ## Arrivals -/

/-- The receiving side of a session: its skipped keys, the header key of its receiving chain if it
has one, and the number the chain stands at. -/
structure RecvSide (β : Type) where
  store : SkipStore β
  hk : Option (Bytes β)
  nr : UInt32

/-- The receiving side of a session state. -/
def DrState.recvSide (b : DrState β) : RecvSide β :=
  ⟨b.skipped, if b.haveCkr then some b.hkr else none, b.nr⟩

/-- What the next receiving chain is derived from: the root key and the next header key. -/
def DrState.roots (b : DrState β) : Bytes β × Bytes β := (b.rk, b.nhkr)

/-- Only the roots matter to a derivation of roots. -/
theorem Rerooted.congr {desc : SuiteDesc β} {b b' c c' : DrState β} (h : Rerooted desc b b')
    (hb : b.roots = c.roots) (hc : c'.roots = b'.roots) : Rerooted desc c c' := by
  obtain ⟨j, rk, ikm, r, k, hj, hr, hnhk, hk⟩ := h
  rw [DrState.roots, DrState.roots, Prod.mk.injEq] at hb hc
  rw [hb.1] at hj
  rw [← hc.1] at hk
  exact ⟨j, rk, ikm, r, k, hj, hr, hc.2.trans hnhk, hk⟩

section Arrivals

variable [DecidableEq β]

/-- The store after the remaining keys `mks` of the receiving chain, if there is one, were
inserted. -/
def RecvSide.finished (c : RecvSide β) (mks : List (Bytes β)) : SkipStore β :=
  match c.hk with
  | none => c.store
  | some hk => storeInsertAll hk c.nr mks c.store

theorem RecvSide.finished_nil (c : RecvSide β) : c.finished [] = c.store := by
  rw [RecvSide.finished]
  cases c.hk <;> rfl

/-- What a successfully decrypted message was to the receiving side: one whose key was stored, at an
index; one on the current chain, with the keys it skips; or one that opens a new chain under a
header key, with the remaining keys of the old chain and the keys it skips on the new one. -/
inductive Arrival (β : Type) where
  | stored (i : Nat)
  | same (mks : List (Bytes β))
  | fresh (hk : Bytes β) (old new : List (Bytes β))

/-- The receiving side after a message. Every message ticks the aging clock. -/
def RecvSide.receive (c : RecvSide β) : Arrival β → RecvSide β
  | .stored i => { c with store := storePostSuccess (storeRemove c.store i) }
  | .same mks =>
    ⟨storePostSuccess (c.finished mks), c.hk, c.nr + UInt32.ofNat mks.length + 1⟩
  | .fresh hk old new =>
    ⟨storePostSuccess (storeInsertAll hk 0 new (c.finished old)), some hk,
      UInt32.ofNat new.length + 1⟩

/-- What a message can be to a receiving side whose next header key is `next`. -/
def Arrival.Fits (next : Bytes β) (c : RecvSide β) : Arrival β → Prop
  | .stored i => i < c.store.ent.length
  | .same mks => c.hk.isSome = true ∧ mks.length ≤ maxSkip ∧ c.nr.toNat + mks.length < 2 ^ 32
  | .fresh hk old new => hk = next ∧ old.length ≤ maxSkip ∧ (c.hk = none → old = []) ∧
      c.nr.toNat + old.length < 2 ^ 32 ∧ new.length ≤ maxSkip

/-- An arrival on the current chain: how many keys it skips shows in the chain's number. -/
theorem Arrival.same_of {c c' : RecvSide β} {a : Arrival β} {next hk : Bytes β} {p j : Nat}
    (hfit : a.Fits next c) (hmove : c' = c.receive a) (hhk' : c'.hk = some hk)
    (hne : hk ≠ next) (hp : c.nr.toNat = p) (hp' : c'.nr.toNat = p + j + 1) :
    ∃ mks, a = .same mks ∧ mks.length = j := by
  subst hmove
  cases a with
  | stored i =>
    have : c.nr.toNat = p + j + 1 := hp'
    omega
  | same mks =>
    obtain ⟨-, hle, hlt⟩ := hfit
    refine ⟨mks, rfl, ?_⟩
    have hone : (1 : UInt32).toNat = 1 := rfl
    change (c.nr + UInt32.ofNat mks.length + 1).toNat = _ at hp'
    rw [UInt32.toNat_add, UInt32.toNat_add, UInt32.toNat_ofNat', hone] at hp'
    omega
  | fresh hk' old new =>
    -- a new chain would have the next header key
    obtain rfl : hk' = next := hfit.1
    exact absurd (Option.some.inj hhk') hne.symm

/-- The first arrival of a session that has no receiving chain opens one. -/
theorem Arrival.fresh_of {c c' : RecvSide β} {a : Arrival β} {next : Bytes β}
    (hfit : a.Fits next c) (hmove : c' = c.receive a) (hhk : c.hk = none)
    (hempty : c.store.ent = []) (hp' : c'.nr.toNat = 1) :
    a = .fresh next [] [] := by
  subst hmove
  cases a with
  | stored i =>
    have hlt : i < c.store.ent.length := hfit
    rw [hempty] at hlt
    exact absurd hlt (Nat.not_lt_zero i)
  | same mks =>
    rw [Arrival.Fits, hhk] at hfit
    exact absurd hfit.1 (by simp)
  | fresh hk' old new =>
    obtain ⟨rfl, -, hold, -, hnew⟩ := hfit
    obtain rfl := hold hhk
    have hms : maxSkip = 1000 := rfl
    have hone : (1 : UInt32).toNat = 1 := rfl
    change (UInt32.ofNat new.length + 1).toNat = 1 at hp'
    rw [UInt32.toNat_add, UInt32.toNat_ofNat', hone] at hp'
    have hlen : new.length = 0 := by omega
    rw [List.eq_nil_of_length_eq_zero hlen]

/-- What an arrival does to the roots: a new chain derives a new next header key, the others change
nothing. -/
def RootsMoved (desc : SuiteDesc β) (b b' : DrState β) : Arrival β → Prop
  | .fresh _ _ _ => Rerooted desc b b'
  | _ => b'.roots = b.roots

omit [DecidableEq β] in
theorem RootsMoved.congr {desc : SuiteDesc β} {a : Arrival β} {b b' c c' : DrState β}
    (h : RootsMoved desc b b' a) (hb : b.roots = c.roots) (hc : c'.roots = b'.roots) :
    RootsMoved desc c c' a := by
  cases a with
  | stored i => exact hc.trans (Eq.trans h hb)
  | same mks => exact hc.trans (Eq.trans h hb)
  | fresh hk old new => exact Rerooted.congr h hb hc

namespace Engine

variable {σ η : Type} [Sodium β] {E : Engine β σ η} {desc : SuiteDesc β}

omit [Sodium β] in
theorem skipForward_apply (to_ : UInt32) (hk : Bytes β) (s : σ) :
    E.skipForward desc to_ hk s =
      ((skipMany desc hk (to_.toNat - (E.base s).nr.toNat) (E.base s).recv).1,
        E.withBase ((E.base s).withRecv
          (skipMany desc hk (to_.toNat - (E.base s).nr.toNat) (E.base s).recv).2) s) := rfl

omit [Sodium β] in
/-- A walk of the receiving chain that succeeds: consecutive keys are stored and the chain stands at
the target. -/
theorem skipForward_ok {to_ : UInt32} {hk : Bytes β} {s s' : σ}
    (hle : (E.base s).nr.toNat ≤ to_.toNat) (h : E.skipForward desc to_ hk s = (.ok (), s')) :
    ∃ mks : List (Bytes β), (E.base s).nr.toNat + mks.length = to_.toNat ∧
      (E.base s').skipped = storeInsertAll hk (E.base s).nr mks (E.base s).skipped ∧
      (E.base s').nr = to_ ∧ (E.base s').hkr = (E.base s).hkr ∧
      (E.base s').roots = (E.base s).roots ∧ (E.base s').haveCkr = (E.base s).haveCkr := by
  rw [skipForward_apply] at h
  obtain ⟨hok, rfl⟩ := Prod.mk.inj h
  obtain ⟨mks, -, hstore, hnr, hall⟩ := skipMany_stores desc hk
    (to_.toNat - (E.base s).nr.toNat) (E.base s).recv
  have hlen : (E.base s).nr.toNat + mks.length = to_.toNat := by
    rw [hall hok]
    omega
  refine ⟨mks, hlen, ?_, ?_, ?_, ?_, ?_⟩
  · rw [E.base_withBase]
    exact hstore
  · rw [E.base_withBase]
    exact hnr.trans (UInt32.eq_add_ofNat hlen).symm
  all_goals
    rw [E.base_withBase]
    rfl

omit [Sodium β] in
/-- A jump on the current chain that succeeds. -/
theorem sameRemote_ok {h : η} {s s' : σ} (hr : E.sameRemote desc h s = (.ok (), s')) :
    (E.base s).haveCkr = true ∧ (E.base s).nr.toNat ≤ (E.n h).toNat ∧
      (E.n h).toNat - (E.base s).nr.toNat ≤ maxSkip ∧
      E.skipForward desc (E.n h) (E.base s).hkr s = (.ok (), s') := by
  simp only [sameRemote, Cmd.get_bind_apply, Cmd.ite_apply, Cmd.fail_apply] at hr
  split_ifs at hr with hckr hback hfar
  · cases hr
  · cases hr
  · cases hr
  · have hle : (E.base s).nr ≤ E.n h := UInt32.not_lt.1 hback
    rw [UInt32.toNat_sub_of_le _ _ hle] at hfar
    exact ⟨by simpa using hckr, UInt32.le_iff_toNat_le.1 hle, by omega, hr⟩

omit [Sodium β] in
/-- A jump to a new chain that succeeds: both jumps are short enough, the old chain was finished and
the session has ratcheted and walked the new chain. -/
theorem newRemote_ok {rnd : RatchetRand β} {h : η} {s s' : σ}
    (hr : E.newRemote desc rnd h s = (.ok (), s')) :
    ((E.base s).haveCkr = true → (E.base s).nr.toNat ≤ (E.pn h).toNat ∧
        (E.pn h).toNat - (E.base s).nr.toNat ≤ maxSkip) ∧
      (E.n h).toNat ≤ maxSkip ∧
      ∃ s₁ s₂, E.finishOld desc h s = (.ok (), s₁) ∧ E.dhRatchet rnd h s₁ = (.ok (), s₂) ∧
        E.skipForward desc (E.n h) (E.base s₂).hkr s₂ = (.ok (), s') := by
  simp only [newRemote, Cmd.get_bind_apply, Cmd.ite_apply, Cmd.fail_apply] at hr
  split_ifs at hr with hold hnew
  · cases hr
  · cases hr
  · obtain ⟨_, s₁, hfin, hr⟩ := Cmd.bind_eq_ok_iff.1 hr
    obtain ⟨_, s₂, hrat, hr⟩ := Cmd.bind_eq_ok_iff.1 hr
    refine ⟨fun hckr => ?_, by omega, s₁, s₂, hfin, hrat, hr⟩
    rw [not_and_or, not_or, UInt32.not_lt] at hold
    obtain hno | ⟨hle, hfar⟩ := hold
    · exact absurd hckr hno
    · rw [UInt32.toNat_sub_of_le _ _ hle] at hfar
      exact ⟨UInt32.le_iff_toNat_le.1 hle, by omega⟩

omit [DecidableEq β] in
/-- Opening the payload moves the chain past the message and ticks the aging clock. -/
theorem consume_ok {fr : WireFrame β} {cap : Nat} {n : UInt32} {pt : Bytes β} {s s' : σ}
    (h : E.consume desc fr cap n s = (.ok pt, s')) :
    (E.base s').recvView = (storePostSuccess (E.base s).skipped, (E.base s).nr + 1,
      (E.base s).hkr, (E.base s).haveCkr) ∧ (E.base s').roots = (E.base s).roots := by
  rw [consume, Cmd.get_bind_apply] at h
  obtain ⟨⟨msgKey, ckNext⟩, -, h⟩ := Cmd.lift_bind_eq_ok_iff.1 h
  simp only [Cmd.modify_bind_apply] at h
  obtain ⟨pt', -, h⟩ := Cmd.lift_bind_eq_ok_iff.1 h
  rw [Cmd.modify_bind_apply] at h
  obtain ⟨-, rfl⟩ := Prod.mk.inj h
  simp only [E.base_withBase]
  exact ⟨rfl, rfl⟩

omit [Sodium β] in
/-- A jump that succeeds moves the receiving side to the header's number, on the current chain or on
a new one under the next header key. -/
theorem reach_ok (hE : E.Shape desc) {rnd : RatchetRand β} {h : η} {s s' : σ}
    (hr : E.reach desc rnd h s = (.ok (), s')) :
    (∃ hk mks, (E.base s).recvSide.hk = some hk ∧ mks.length ≤ maxSkip ∧
      (E.base s).nr.toNat + mks.length = (E.n h).toNat ∧
      (E.base s').recvView = ((E.base s).recvSide.finished mks, E.n h, hk, true) ∧
      (E.base s').roots = (E.base s).roots) ∨
    Rerooted desc (E.base s) (E.base s') ∧ ∃ old new, old.length ≤ maxSkip ∧
      ((E.base s).recvSide.hk = none → old = []) ∧
      (E.base s).nr.toNat + old.length < 2 ^ 32 ∧ new.length ≤ maxSkip ∧
      new.length = (E.n h).toNat ∧
      (E.base s').recvView = (storeInsertAll (E.base s).nhkr 0 new
        ((E.base s).recvSide.finished old), E.n h, (E.base s).nhkr, true) := by
  have hlt := (E.n h).toNat_lt
  have hplt := (E.pn h).toNat_lt
  simp only [reach, Cmd.get_bind_apply, Cmd.ite_apply] at hr
  split at hr
  · right
    obtain ⟨hold, hnew, s₁, s₂, hfin, hrat, hwalk⟩ := newRemote_ok hr
    obtain ⟨hview, hre⟩ := hE.ratchet_ok hrat
    simp only [DrState.recvView, Prod.mk.injEq] at hview
    obtain ⟨hskip, hzero, hhkr, hckr⟩ := hview
    obtain ⟨new, hlen, hst, hnr, hhk, hroots', hc⟩ :=
      skipForward_ok (by rw [hzero]; exact Nat.zero_le _) hwalk
    rw [hzero] at hlen hst
    -- the old chain, if there is one, was walked to the header's `pn`
    obtain ⟨old, holdlen, hnone, holdnr, hstore, hroots⟩ : ∃ old : List (Bytes β),
        old.length ≤ maxSkip ∧ ((E.base s).recvSide.hk = none → old = []) ∧
        (E.base s).nr.toNat + old.length < 2 ^ 32 ∧
        (E.base s₁).skipped = (E.base s).recvSide.finished old ∧
        (E.base s₁).roots = (E.base s).roots := by
      rw [finishOld, Cmd.get_bind_apply, Cmd.ite_apply] at hfin
      split at hfin
      · next hckr' =>
        obtain ⟨hle, hfar⟩ := hold hckr'
        obtain ⟨old, holdlen, hstore, -, -, hroots, -⟩ := skipForward_ok hle hfin
        refine ⟨old, by omega, by simp [DrState.recvSide, hckr'], by omega, ?_, hroots⟩
        simp [hstore, RecvSide.finished, DrState.recvSide, hckr']
      · next hckr' =>
        obtain ⟨-, rfl⟩ := Prod.mk.inj hfin
        refine ⟨[], Nat.zero_le _, fun _ => rfl, (E.base s).nr.toNat_lt, ?_, rfl⟩
        simp [RecvSide.finished, DrState.recvSide, hckr']
    have hnhkr : (E.base s₁).nhkr = (E.base s).nhkr := congrArg Prod.snd hroots
    refine ⟨hre.congr hroots hroots', old, new, holdlen, hnone, holdnr, ?_, ?_, ?_⟩
    · have : (0 : UInt32).toNat = 0 := rfl
      omega
    · have : (0 : UInt32).toNat = 0 := rfl
      omega
    · rw [DrState.recvView, hst, hnr, hhk, hc, hhkr, hckr, hskip, hstore, hnhkr]
  · left
    obtain ⟨hckr, hle, hfar, hwalk⟩ := sameRemote_ok hr
    obtain ⟨mks, hlen, hst, hnr, hhk, hroots, hc⟩ := skipForward_ok hle hwalk
    refine ⟨(E.base s).hkr, mks, ?_, by omega, hlen, ?_, hroots⟩
    · simp [DrState.recvSide, hckr]
    · rw [DrState.recvView, hst, hnr, hhk, hc, hckr]
      simp [RecvSide.finished, DrState.recvSide, hckr]

/-- A message that comes through the chain path is on the current chain or opens a new one, and
leaves the chain one past the header's number. -/
theorem chainPath_ok (hE : E.Shape desc) {rnd : RatchetRand β} {fr : WireFrame β}
    {cap : Nat} {h : η}
    {pt : Bytes β} {s s' : σ} (hr : E.chainPath desc rnd fr cap h s = (.ok pt, s')) :
    (∃ a : Arrival β, a.Fits (E.base s).nhkr (E.base s).recvSide ∧
      (E.base s').recvSide = (E.base s).recvSide.receive a ∧
      RootsMoved desc (E.base s) (E.base s') a) ∧
    (E.base s').nr = E.n h + 1 := by
  rw [chainPath] at hr
  obtain ⟨_, s₁, hreach, hr⟩ := Cmd.bind_eq_ok_iff.1 hr
  obtain ⟨hcons, hroots⟩ := consume_ok hr
  simp only [DrState.recvView, Prod.mk.injEq] at hcons
  obtain ⟨hst, hnr, hhk, hc⟩ := hcons
  obtain ⟨hk, mks, hsome, hlen, hnum, hview, hroots'⟩ |
    ⟨hre, old, new, hold, hnone, holdnr, hnew, hnum, hview⟩ := reach_ok hE hreach
  · simp only [DrState.recvView, Prod.mk.injEq] at hview
    obtain ⟨hst', hnr', hhk', hc'⟩ := hview
    refine ⟨⟨.same mks, ⟨by rw [hsome]; rfl, hlen, ?_⟩, ?_, hroots.trans hroots'⟩,
      by rw [hnr, hnr']⟩
    · exact hnum.trans_lt (E.n h).toNat_lt
    · rw [RecvSide.receive, hsome, DrState.recvSide, hst, hc, hc', hhk, hhk', hst', hnr, hnr',
        UInt32.eq_add_ofNat hnum]
      rfl
  · simp only [DrState.recvView, Prod.mk.injEq] at hview
    obtain ⟨hst', hnr', hhk', hc'⟩ := hview
    have hto : E.n h = UInt32.ofNat new.length := by
      rw [hnum, UInt32.ofNat_toNat]
    refine ⟨⟨.fresh (E.base s).nhkr old new, ⟨rfl, hold, hnone, holdnr, hnew⟩, ?_,
      hre.congr rfl hroots⟩, by rw [hnr, hnr']⟩
    rw [RecvSide.receive, DrState.recvSide, hst, hc, hc', hhk, hhk', hst', hnr, hnr', hto]
    rfl

omit [DecidableEq β] in
/-- A trial that hits names a stored key. -/
theorem trialEntry_hit {b : DrState β} {fr : WireFrame β} {cap slot i : Nat} {n : UInt32}
    {pt : Bytes β} (h : trialEntry desc b fr cap slot n = .hit i pt) :
    i < b.skipped.ent.length := by
  rw [trialEntry] at h
  split at h
  · cases h
  · split at h
    · cases h
    · next j e he =>
      split at h
      · cases h
      · split at h
        · cases h
        · obtain ⟨rfl, -⟩ := Trial.hit.inj h
          exact (List.getElem?_eq_some_iff.1 he).1

omit [DecidableEq β] in
theorem trialSlots_hit {b : DrState β} {fr : WireFrame β} {cap i : Nat} {pt : Bytes β}
    {slots : List Nat} (h : (E.trialSlots desc b fr cap slots).2 = .hit i pt) :
    i < b.skipped.ent.length := by
  induction slots with
  | nil => cases h
  | cons slot rest ih =>
    rw [trialSlots] at h
    split_ifs at h
    · exact ih h
    · split at h
      · exact ih h
      · split at h
        · exact ih h
        · exact trialEntry_hit h

/-- A successful decryption used up a stored key or came through the chain path, with a header that
one of the receiving header keys opened. -/
theorem decryptAssoc_ok {rnd : RatchetRand β} {cap : Nat} {msg ad : Bytes β} {st : σ}
    {pt : Bytes β} (h : (E.decryptAssoc desc rnd cap msg ad st).1.1 = .ok pt) :
    (∃ i < (E.base st).skipped.ent.length, (E.decryptAssoc desc rnd cap msg ad st).2 =
      E.withBase { E.base st with
        skipped := storePostSuccess (storeRemove (E.base st).skipped i) } st) ∨
    ∃ fr hdrp hd, E.parseFrame desc (E.base st).aeadId msg ad = .ok fr ∧
      E.openCurrentOrNext desc (E.base st) fr = some hdrp ∧ E.decode hdrp = .ok hd ∧
      E.chainPath desc rnd fr cap hd st = (.ok pt, (E.decryptAssoc desc rnd cap msg ad st).2) := by
  rw [decryptAssoc] at h ⊢
  dsimp only at h ⊢
  cases hparse : E.parseFrame desc (E.base st).aeadId msg ad with
  | error e =>
    rw [hparse] at h
    cases h
  | ok fr =>
    rw [hparse] at h
    rcases htrial : E.trialSlots desc (E.base st) fr cap (List.range maxSkip) with ⟨m, tr⟩
    simp only [htrial] at h ⊢
    cases tr with
    | fail e => cases h
    | hit i pt' => exact .inl ⟨i, trialSlots_hit (congrArg Prod.snd htrial), rfl⟩
    | miss =>
      right
      dsimp only at h ⊢
      split at h
      · cases h
      · next hdrp hopen =>
        split at h
        · cases h
        · next hd hdec =>
          split at h
          · cases h
          · next hchk =>
            refine ⟨fr, hdrp, hd, rfl, hopen, hdec, ?_⟩
            rcases hchain : E.chainPath desc rnd fr cap hd st with ⟨_ | pt', s'⟩
            · rw [hchain] at h
              cases h
            · rw [hchain] at h
              obtain rfl := Except.ok.inj h
              rfl

/-- A successful decryption is an arrival that fits. -/
theorem decryptAssoc_arrival (hE : E.Shape desc) {rnd : RatchetRand β} {cap : Nat}
    {msg ad : Bytes β}
    {st : σ} {pt : Bytes β} (h : (E.decryptAssoc desc rnd cap msg ad st).1.1 = .ok pt) :
    ∃ a : Arrival β, a.Fits (E.base st).nhkr (E.base st).recvSide ∧
      (E.base (E.decryptAssoc desc rnd cap msg ad st).2).recvSide =
        (E.base st).recvSide.receive a ∧
      RootsMoved desc (E.base st) (E.base (E.decryptAssoc desc rnd cap msg ad st).2) a := by
  obtain ⟨i, hi, hst⟩ | ⟨fr, hdrp, hd, -, -, -, hchain⟩ := decryptAssoc_ok h
  · refine ⟨.stored i, hi, ?_⟩
    rw [hst]
    constructor
    · rw [E.base_withBase]
      rfl
    · show DrState.roots (E.base _) = _
      rw [E.base_withBase]
      rfl
  · exact (chainPath_ok hE hchain).1

end Engine

end Arrivals

end Geryon
