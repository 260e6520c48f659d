import Geryon.Ratchet.Deliver

/-!
# Runs

From the step lemmas to whole runs: in any run of two parties that started in step, they stay in
step, every frame that qualifies is decrypted to its plaintext, and none is accepted twice.
-/

namespace Geryon

variable {β σ η γ : Type} [Octet β] [DecidableEq β] [Sodium β]

namespace Sync

variable {desc : SuiteDesc β} {E : Engine β σ η} {I : IdealSuite desc} {S : EngineSpec E I γ}
  {id : UInt8} {ad : Bytes β} {sec : DrSecrets β} {w : World β σ} {keys : List (Bytes β)}
  {lv : Nat → Level β γ} {lvl : Party → Nat} {pos : Party → Nat → Nat}

/-- More keys may be counted as in use. -/
theorem mono_keys (hy : Sync S id ad sec w keys lv lvl pos) {keys' : List (Bytes β)}
    (h : keys ⊆ keys') : Sync S id ad sec w keys' lv lvl pos :=
  { hy with used := fun p ℓ hℓ => h (hy.used p ℓ hℓ) }

variable (hy : Sync S id ad sec w keys lv lvl pos) (hid : AeadUsable β id)
  (had : ad.length ≤ E.adMax)
include hy hid had

/-- A party that encrypts stays in step, whether or not the call succeeds. -/
theorem step_send (p : Party) (cap : Nat) (pt : Bytes β) {salt : Bytes β}
    (hsalt : salt.length = heSaltLen)
    (hwrap : ∀ q pk, (World.step E desc ad w (.send p cap pt salt)).total E q pk < 2 ^ 32) :
    Sync S id ad sec (World.step E desc ad w (.send p cap pt salt)) keys lv lvl pos := by
  have hb := hy.base p
  rcases Nat.eq_zero_or_pos (lvl p) with h0 | hℓ
  · -- no sending chain yet
    have henc : E.encrypt desc cap pt ad (.ok salt) (w.st p) = (.error .state, w.st p) := by
      simp [Engine.encrypt, hb.haveCks, h0]
    simp only [World.step, henc, World.settle_self]
    exact hy
  -- either the frame goes out at the party's level, or the call leaves the state alone
  · rcases encrypt_at S hid hℓ hb (hy.ext p) (hy.genuine p _ le_rfl) had cap pt hsalt with
      ⟨wire, henc, hsealed⟩ | ⟨e, -, henc⟩
    · have hpk : (E.base (w.st p)).dhs.pk = (lv (lvl p)).kp.pk := by rw [hb.dhs]
      have hw := hwrap p (lv (lvl p)).kp.pk
      simp only [World.step, henc, hpk] at hw ⊢
      have hon : (⟨p, w.st p, w.total E p (lv (lvl p)).kp.pk, pt, wire⟩ : Sent β σ).On E p
          (lv (lvl p)).kp.pk := ⟨rfl, hpk⟩
      rw [World.total_produce, if_pos hon] at hw
      have hns : (E.base (w.st p)).ns.toNat = w.total E p (lv (lvl p)).kp.pk := by
        rw [hy.ns p, UInt32.toNat_ofNat', Nat.mod_eq_of_lt (by omega)]
      rw [hns, hy.pn p] at hsealed
      exact hy.produce hℓ rfl rfl rfl hw hsealed
    · simp only [World.step, henc, World.settle_self]
      exact hy

variable (hsec : Seeds desc sec) (hwrap : ∀ q pk, w.total E q pk < 2 ^ 32)
include hsec hwrap

/-- What comes of delivering a frame of the log. -/
theorem outcome {i k : Nat} {f : Sent β σ} {p : Party} (hp : Pending S id ad sec w lv lvl i f p k)
    {rnd : RatchetRand β} {kp : Keypair β} (hrnd : S.RandOk rnd kp) (cap : Nat) :
    Outcome S sec lv (lvl p) k f.idx (prevTotal E w lv p.peer k) f.pt cap kp (w.st p)
      ((E.decryptAssoc desc rnd cap f.wire ad (w.st p)).1.1,
        (E.decryptAssoc desc rnd cap f.wire ad (w.st p)).2) := by
  obtain ⟨hkr, hpar⟩ := hy.pending_le hp
  have hd := hy.derived p
  have hidx := hy.idx_lt hp
  have hw := hwrap p.peer (lv k).kp.pk
  have hframe := hp.at_.frame
  rw [hp.sender] at hframe
  -- the premises are what the invariant says of the party that receives
  refine decryptAssoc_sealed S hid (hy.base p) (hy.ext p) (hy.genuine p.peer k hp.le) had hframe
    hp.one_le hkr hpar ?_ ?_ ?_ ?_ ?_ (by omega) ?_ hrnd cap
  · exact fun j h1 hj => Schedule.length_hk I hsec hd h1 (by omega)
  · exact fun j h1 hj h => Schedule.hk_injective I hsec hd h1 hp.one_le (by omega) (by omega) h
  -- the stored keys are tickets of the lanes received so far, so a match names this frame
  · intro x hx
    obtain ⟨k', m, hlane, hm, -, rfl⟩ := (hy.ledger p).mem x hx
    have hk' := hlane.2.1
    refine ⟨Schedule.length_hk I hsec hd hlane.1 (by omega), fun hhk hn => ?_⟩
    obtain rfl := Schedule.hk_injective I hsec hd hlane.1 hp.one_le (by omega) (by omega) hhk
    have hle := hy.pos_le p k' hlane
    have hnat := congrArg UInt32.toNat hn
    simp only [ticket, UInt32.toNat_ofNat'] at hnat
    rw [Nat.mod_eq_of_lt (by omega), Nat.mod_eq_of_lt (by omega)] at hnat
    rw [hnat]
    rfl
  · intro h
    have := hp.le
    exact hy.link p.peer (lvl p) (by omega)
  · intro h h1 heq
    have := hy.inj p.peer p k (lvl p - 1) hp.le (by omega) heq
    omega
  · unfold prevTotal
    split_ifs
    · decide
    · exact hwrap _ _

/-- A delivery keeps the parties in step. -/
theorem step_deliver (i cap : Nat) {rnd : RatchetRand β} {kp : Keypair β} (hrnd : S.RandOk rnd kp)
    (hfresh : kp.pk ∉ keys) :
    ∃ lv' lvl' pos', Sync S id ad sec (World.step E desc ad w (.deliver i rnd cap))
      (kp.pk :: keys) lv' lvl' pos' := by
  have hsub : keys ⊆ kp.pk :: keys := fun x hx => List.mem_cons_of_mem _ hx
  -- delivering an index that was never sent does nothing
  rcases hi : w.sent[i]? with _ | f
  · simp only [World.step, hi]
    exact ⟨_, _, _, hy.mono_keys hsub⟩
  · obtain ⟨k, hp⟩ := hy.exists_pending hi
    have hout := hy.outcome hid had hsec hwrap hp hrnd cap
    rcases hdec : E.decryptAssoc desc rnd cap f.wire ad (w.st f.sender.peer) with ⟨⟨res, m⟩, s'⟩
    rw [hdec] at hout
    have hkept : ∀ s'', res = .ok f.pt → s' = s'' →
        World.step E desc ad w (.deliver i rnd cap) = w.accept f.sender.peer s'' i := by
      rintro s'' rfl rfl
      simp only [World.step, hi, hdec]
    -- one case for each outcome of the decryption
    rcases hout with ⟨j, -, hj, hout⟩ | ⟨-, hr, hge, -, t, hinv, hgrow, hout⟩ |
      ⟨-, hr, hold, -, s₁, new, t, hkp, hbase, hinv, hgrow, hlink, hext, hout⟩ | ⟨e, hout, -⟩
    · obtain ⟨h1, h2⟩ := Prod.mk.inj hout
      rw [hkept _ h1 h2]
      exact ⟨_, _, _, (hy.accept_stored hp hsec hwrap hj).mono_keys hsub⟩
    · obtain ⟨h1, h2⟩ := Prod.mk.inj hout
      rw [hkept _ h1 h2]
      exact ⟨_, _, _, (hy.accept_ahead hp hsec hwrap hr hge hinv hgrow).mono_keys hsub⟩
    · obtain ⟨h1, h2⟩ := Prod.mk.inj hout
      rw [hkept _ h1 h2]
      subst hkp
      exact ⟨_, _, _, hy.accept_opens hp hsec hwrap hr (fun h => (hold h).1) hgrow
        (S.randOk_curve hrnd).2 hfresh hbase hinv hlink hext⟩
    · obtain ⟨h1, h2⟩ := Prod.mk.inj hout
      simp only at h1 h2
      subst h1 h2
      simp only [World.step, hi, hdec, World.settle_self]
      exact ⟨_, _, _, hy.mono_keys hsub⟩

/-- A frame that was not accepted yet, is within the skip bounds and whose key was not dropped is
decrypted to its plaintext. -/
theorem decrypts {i cap : Nat} {f : Sent β σ} {rnd : RatchetRand β} {kp : Keypair β}
    (hi : w.sent[i]? = some f) (hrnd : S.RandOk rnd kp) (hnot : i ∉ w.accepted)
    (hskip : w.WithinSkip E f)
    (hlost : f.msgKey E desc ∉ (E.base (w.st f.sender.peer)).skipped.lost)
    (hcap : f.pt.length ≤ cap) :
    (E.decryptAssoc desc rnd cap f.wire ad (w.st f.sender.peer)).1.1 = .ok f.pt := by
  obtain ⟨k, hp⟩ := hy.exists_pending hi
  have hs : f.sender = f.sender.peer.peer := hp.sender
  generalize f.sender.peer = p at hp hlost hs ⊢
  obtain ⟨hkr, hpar⟩ := hy.pending_le hp
  have hk1 := hp.one_le
  have hchain := FrameAt.chain hp.at_
  rw [World.WithinSkip, hs, hchain, Party.peer_peer] at hskip
  -- the three accepting outcomes are immediate; a refusal contradicts the hypotheses
  rcases hy.outcome hid had hsec hwrap hp hrnd cap with ⟨_, _, _, hout⟩ |
      ⟨_, _, _, _, _, _, _, hout⟩ | ⟨_, _, _, _, _, _, _, _, _, _, _, _, _, hout⟩ | ⟨e, hout, hwhy⟩
  · exact congrArg Prod.fst hout
  · exact congrArg Prod.fst hout
  · exact congrArg Prod.fst hout
  · exfalso
    rcases hwhy with hwhy | ⟨hno, hahead, hopens⟩
    · omega
    by_cases hk : k = lvl p + 1
    · -- the frame would open a new chain
      rw [if_pos (hy.acceptedOn_eq_nil hp (hy.pos_new p k (by omega)))] at hskip
      refine hopens ⟨hk, fun h2 => ?_, hskip.2⟩
      have hold := hskip.1 (by rw [(hy.base p).haveDhr]; simp; omega)
      obtain ⟨hnr, hpass⟩ := hy.pos_cur p h2
      have hle := hy.pos_le p (lvl p - 1) ⟨by omega, by omega, by omega⟩
      rw [(hy.base p).dhr (by omega), ← hpass] at hold
      rw [prevTotal, if_neg (by omega), show k - 2 = lvl p - 1 by omega]
      omega
    · have hlane : Lane (lvl p) k := ⟨hk1, by omega, hpar⟩
      by_cases hpos : f.idx < pos p k
      · -- its position has been passed: accepted, stored or lost
        rcases (hy.ledger p).complete k f.idx hlane hpos with hacc | hmem | hl
        · exact hnot ((hy.mem_accepted_iff hp).mpr hacc)
        · exact hno _ hmem rfl rfl
        · rw [FrameAt.msgKey hk1 hp.at_] at hlost
          exact hlost hl
      · -- it is ahead, so on the current chain
        have hidx := hy.idx_lt hp
        have hcur : lvl p = k + 1 := by
          by_contra hne
          have := hy.pos_old p k hlane (by have := hlane.2.1; omega)
          omega
        obtain ⟨hnr, hpass⟩ := hy.pos_cur p (by omega)
        rw [show lvl p - 1 = k by omega] at hnr hpass
        rw [if_neg (hy.opened p k hlane), ← hpass] at hskip
        exact hahead ⟨hcur, by omega, by omega⟩

end Sync

/-- The two parties are in step at some levels of some schedule. -/
def InStep {desc : SuiteDesc β} {E : Engine β σ η} {I : IdealSuite desc} (S : EngineSpec E I γ)
    (id : UInt8) (ad : Bytes β) (sec : DrSecrets β) (w : World β σ)
    (keys : List (Bytes β)) : Prop :=
  ∃ lv lvl pos, Sync S id ad sec w keys lv lvl pos

/-- A fresh session: nothing sent, received or skipped. -/
structure DrState.Fresh (b : DrState β) : Prop where
  ns : b.ns = 0
  pn : b.pn = 0
  skipped : b.skipped = SkipStore.empty

/-- Alice at level one and Bob at level zero of one schedule are in step. -/
theorem Sync.start {desc : SuiteDesc β} {E : Engine β σ η} {I : IdealSuite desc}
    {S : EngineSpec E I γ} {id : UInt8} {ad : Bytes β} {sec : DrSecrets β} (lv : Nat → Level β γ)
    {a b : σ} (hroot : (lv 0).rk = sec.skDr) (hlink : S.Link lv 0)
    (hgen : ∀ ℓ ≤ 1, I.genuine (lv ℓ).kp) (hne : (lv 0).kp.pk ≠ (lv 1).kp.pk)
    (ha : BaseAt desc id sec lv 1 (E.base a)) (hb : BaseAt desc id sec lv 0 (E.base b))
    (hxa : S.Ext lv 1 a) (hxb : S.Ext lv 0 b) (hfa : (E.base a).Fresh) (hfb : (E.base b).Fresh) :
    Sync S id ad sec (World.start a b) [(lv 0).kp.pk, (lv 1).kp.pk] lv Party.par fun _ _ => 0 := by
  have hpar : ∀ p : Party, p.par ≤ 1 := fun p => by cases p <;> decide
  -- no lane has been received yet
  have hlane : ∀ (p : Party) k, ¬ Lane p.par k := by
    rintro p k ⟨h1, h2, -⟩
    have := hpar p
    omega
  have hfresh : ∀ p, (E.base ((World.start a b : World β σ).st p)).Fresh := fun p => by
    cases p
    · exact hfa
    · exact hfb
  refine {
    par := fun p => by cases p <;> rfl
    adj := fun p => by cases p <;> decide
    root := hroot
    link := fun p ℓ hℓ => ?_
    genuine := fun p ℓ hℓ => hgen ℓ (hℓ.trans (hpar p))
    used := fun p ℓ hℓ => ?_
    inj := fun p q i j hi hj h => ?_
    base := fun p => ?_
    ext := fun p => ?_
    ns := fun p => (hfresh p).ns
    pn := fun p => ?_
    log := ⟨fun i f hi => by simp [World.start] at hi, fun i hi => by cases hi⟩
    sent := fun f hf => by cases hf
    nodup := List.nodup_nil
    ledger := fun p => ?_
    pos_cur := fun p h => absurd (hpar p) (by omega)
    pos_old := fun p k h => absurd h (hlane p k)
    pos_le := fun p k h => absurd h (hlane p k)
    pos_new := fun p k h => rfl
    opened := fun p k h => absurd h (hlane p k) }
  · obtain rfl : ℓ = 0 := by have := hpar p; omega
    exact hlink
  · obtain rfl | rfl : ℓ = 0 ∨ ℓ = 1 := by have := hpar p; omega
    · exact List.mem_cons_self
    · exact List.mem_cons_of_mem _ List.mem_cons_self
  · obtain rfl | rfl : i = 0 ∨ i = 1 := by have := hpar p; omega
    all_goals obtain rfl | rfl : j = 0 ∨ j = 1 := by have := hpar q; omega
    · rfl
    · exact absurd h hne
    · exact absurd h.symm hne
    · rfl
  · cases p
    · exact ha
    · exact hb
  · cases p
    · exact hxa
    · exact hxb
  · rw [(hfresh p).pn, prevTotal, if_pos (by have := hpar p; omega)]
    rfl
  · rw [(hfresh p).skipped]
    exact ⟨fun x hx => (by cases hx), List.nodup_nil, fun k m h => absurd h (hlane p k),
      fun k m h => by obtain ⟨-, i, hi, -⟩ := h; cases hi⟩

/-- Parties that start in step stay in step, as long as no chain carries `2 ^ 32` messages. -/
theorem InStep.run {desc : SuiteDesc β} {E : Engine β σ η} {I : IdealSuite desc}
    {S : EngineSpec E I γ} {id : UInt8} {ad : Bytes β} {sec : DrSecrets β} {w : World β σ}
    {keys : List (Bytes β)} (hid : AeadUsable β id) (had : ad.length ≤ E.adMax)
    (hsec : Seeds desc sec) (h0 : InStep S id ad sec w keys) (es : List (Event β))
    (hfair : Fair (fun rnd => ∃ kp, S.RandOk rnd kp) keys es)
    (hwrap : ∀ q pk, (w.run E desc ad es).total E q pk < 2 ^ 32) :
    InStep S id ad sec (w.run E desc ad es) (keys ++ ratchetKeys es) := by
  -- on the run from its end, so that the keys used before are those of the prefix
  induction es using List.reverseRecOn with
  | nil => simpa [ratchetKeys] using h0
  | append_singleton es e ih =>
    rw [World.run_append_singleton] at hwrap ⊢
    have hwrap' : ∀ q pk, (w.run E desc ad es).total E q pk < 2 ^ 32 := fun q pk =>
      (World.total_le_step desc ad e q pk).trans_lt (hwrap q pk)
    obtain ⟨lv, lvl, pos, hy⟩ := ih hfair.of_append hwrap'
    cases e with
    | send p cap pt salt =>
      have hsalt := hfair.salts (List.mem_append_right _ (List.mem_singleton_self _))
      rw [ratchetKeys_append, show ratchetKeys [Event.send p cap pt salt] = [] from rfl,
        List.append_nil]
      exact ⟨lv, lvl, pos, hy.step_send hid had p cap pt hsalt hwrap⟩
    | deliver i rnd cap =>
      obtain ⟨kp, hkp⟩ := hfair.rands (List.mem_append_right _ (List.mem_singleton_self _))
      have hkeys : ratchetKeys [Event.deliver i rnd cap] = [kp.pk] := by
        simp [ratchetKeys, (S.randOk_curve hkp).1, Except.toOption]
      have hfresh := hfair.fresh
      rw [ratchetKeys_append, hkeys, ← List.append_assoc] at hfresh
      -- the ratchet pair drawn for this delivery is fresh
      have hnot : kp.pk ∉ keys ++ ratchetKeys es := fun h =>
        (List.nodup_append.mp hfresh).2.2 _ h _ (List.mem_singleton_self _) rfl
      obtain ⟨lv', lvl', pos', hy'⟩ := hy.step_deliver hid had hsec hwrap' i cap hkp hnot
      rw [ratchetKeys_append, hkeys, ← List.append_assoc]
      exact ⟨lv', lvl', pos', hy'.mono_keys (by simp)⟩

end Geryon
