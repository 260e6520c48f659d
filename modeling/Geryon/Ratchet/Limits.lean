import Geryon.Ratchet.Receipt
import Geryon.Ratchet.Run

/-!
# Limits of the ratchets

Two things the ratchets do not promise. Message numbers are 32 bits wide and wrap: a receiver that
stands at the last number of a chain refuses the message after it when the two arrive out of order.
And the skipped-key store is bounded: a key that was pushed out is gone, and its message with it.

Both hold for either engine.
-/

namespace Geryon

variable {β σ η γ : Type} [Octet β] [DecidableEq β] [Sodium β]

/-- Alice at level one, Bob at level `r`. -/
def oneWay (r : Nat) : Party → Nat
  | .alice => 1
  | .bob => r

section Generic

variable {desc : SuiteDesc β} {E : Engine β σ η} {I : IdealSuite desc} {S : EngineSpec E I γ}
  {id : UInt8} {ad : Bytes β} {sec : DrSecrets β} {w : World β σ} {keys : List (Bytes β)}
  {lv : Nat → Level β γ} {lvl : Party → Nat} {pos : Party → Nat → Nat}

/-- A buffer that holds any frame of a plaintext. -/
def RoomFor (E : Engine β σ η) (id : UInt8) (pt : Bytes β) (cap : Nat) : Prop :=
  2 + (heSaltLen + 2 + (E.headerMax + aeadTagLen id)) + pt.length + aeadTagLen id ≤ cap

/-- With room in the buffer, a party that has a sending chain produces a frame. -/
theorem Sync.step_send_eq (hy : Sync S id ad sec w keys lv lvl pos) (hid : AeadUsable β id)
    (had : ad.length ≤ E.adMax) {p : Party} (hℓ : 1 ≤ lvl p) {cap : Nat} {pt salt : Bytes β}
    (hsalt : salt.length = heSaltLen) (hcap : RoomFor E id pt cap) :
    ∃ wire, World.step E desc ad w (.send p cap pt salt) =
        w.produce p (E.withBase { E.base (w.st p) with
          cks := nextChainKey desc (E.base (w.st p)).cks, ns := (E.base (w.st p)).ns + 1 } (w.st p))
          ⟨p, w.st p, w.total E p (lv (lvl p)).kp.pk, pt, wire⟩ ∧
      Sealed S id ad sec lv (lvl p) (E.base (w.st p)).ns.toNat (E.base (w.st p)).pn pt wire := by
  have hpk : (E.base (w.st p)).dhs.pk = (lv (lvl p)).kp.pk := by rw [(hy.base p).dhs]
  rcases encrypt_at S hid hℓ (hy.base p) (hy.ext p) (hy.genuine p _ le_rfl) had cap pt hsalt with
    ⟨wire, henc, hsealed⟩ | ⟨e, hlt, -⟩
  · refine ⟨wire, ?_, hsealed⟩
    simp only [World.step, henc, hpk]
  · exact absurd hcap (Nat.not_le.mpr hlt)

/-- The state of a run in which Alice sends and Bob receives every message at once: `m` messages so
far, nothing skipped. -/
structure Pinged (S : EngineSpec E I γ) (id : UInt8) (ad : Bytes β) (sec : DrSecrets β)
    (w : World β σ) (keys : List (Bytes β)) (lv : Nat → Level β γ) (pos : Party → Nat → Nat)
    (m : Nat) : Prop where
  sync : Sync S id ad sec w keys lv (oneWay (if m = 0 then 0 else 2)) pos
  length : w.sent.length = m
  total : w.total E .alice (lv 1).kp.pk = m
  nr : m ≠ 0 → (E.base (w.st .bob)).nr.toNat = m
  view : (E.base (w.st .bob)).skipped.view = []
  lost : (E.base (w.st .bob)).skipped.lost = []

omit [Octet β] [DecidableEq β] [Sodium β] in
/-- A store that holds nothing and gets nothing loses nothing. -/
theorem SkipStore.Grows.nil {s t : SkipStore β} (h : s.Grows [] t) (hv : s.view = [])
    (hl : s.lost = []) : t.view = [] ∧ t.lost = [] := by
  constructor
  · have := h.sub
    rw [hv] at this
    exact List.sublist_nil.mp this
  · refine List.eq_nil_iff_forall_not_mem.mpr fun k hk => ?_
    rcases h.lost_of k hk with hk | ⟨x, hx, -⟩
    · rw [hl] at hk
      cases hk
    · rw [hv] at hx
      cases hx

omit [Octet β] [Sodium β] in
/-- A chain has at most as many messages as were sent. -/
theorem World.total_le_length (w : World β σ) (q : Party) (pk : Bytes β) :
    w.total E q pk ≤ w.sent.length := List.countP_le_length

/-- One more message, sent and received. -/
theorem Pinged.round {m : Nat} (h : Pinged S id ad sec w keys lv pos m) (hid : AeadUsable β id)
    (had : ad.length ≤ E.adMax) (hsec : Seeds desc sec) (hm : m + 1 < 2 ^ 32) {cap : Nat}
    {salt : Bytes β} (hsalt : salt.length = heSaltLen) (hcap : RoomFor E id ([] : Bytes β) cap)
    {rnd : RatchetRand β} {kp : Keypair β} (hrnd : S.RandOk rnd kp) (hfresh : kp.pk ∉ keys) :
    ∃ lv' pos', Pinged S id ad sec
      (World.step E desc ad (World.step E desc ad w (.send .alice cap [] salt))
        (.deliver m rnd cap))
      (kp.pk :: keys) lv' pos' (m + 1) := by
  obtain ⟨wire, hsend, -⟩ := h.sync.step_send_eq hid had (p := .alice) le_rfl hsalt hcap
  have hwrap₁ : ∀ q pk, (World.step E desc ad w (.send .alice cap [] salt)).total E q pk <
      2 ^ 32 := by
    intro q pk
    refine (World.total_le_length _ q pk).trans_lt ?_
    rw [hsend]
    simp only [World.produce, List.length_append, List.length_cons, List.length_nil, h.length]
    omega
  have hy := h.sync.step_send hid had .alice cap [] hsalt hwrap₁
  have hsent := congrArg World.sent hsend
  have hbob := congrArg (fun w => w.st .bob) hsend
  have htot := congrArg (fun w => w.total E .alice (lv 1).kp.pk) hsend
  generalize World.step E desc ad w (.send .alice cap [] salt) = w₁ at hwrap₁ hy hsent hbob htot ⊢
  have hst : w₁.st .bob = w.st .bob := by simpa [World.produce] using hbob
  have hpk : (E.base (w.st .alice)).dhs.pk = (lv 1).kp.pk := by rw [(h.sync.base .alice).dhs]; rfl
  have htotal : w₁.total E .alice (lv 1).kp.pk = m + 1 := by
    have hon : (⟨.alice, w.st .alice, w.total E .alice (lv (oneWay (if m = 0 then 0 else 2)
        .alice)).kp.pk, [], wire⟩ : Sent β σ).On E .alice (lv 1).kp.pk := ⟨rfl, hpk⟩
    rw [htot, World.total_produce, h.total, if_pos hon]
  have hi : w₁.sent[m]? = some ⟨.alice, w.st .alice, m, [], wire⟩ := by
    rw [hsent, ← h.length]
    simp only [World.produce, List.getElem?_concat_length]
    rw [h.length]
    exact congrArg (fun n => some (⟨.alice, w.st .alice, n, [], wire⟩ : Sent β σ)) h.total
  have hlen : w₁.sent.length = m + 1 := by
    rw [hsent]
    simp [World.produce, h.length]
  obtain ⟨k, hp⟩ := hy.exists_pending hi
  obtain rfl : k = 1 := by
    have h1 := hp.one_le
    have h2 : k ≤ 1 := hp.le
    omega
  have hout := hy.outcome hid had hsec hwrap₁ hp hrnd cap
  rcases hdec : E.decryptAssoc desc rnd cap wire ad (w₁.st .bob) with ⟨⟨res, b⟩, s'⟩
  have hstep : ∀ s'', res = .ok [] → s' = s'' →
      World.step E desc ad w₁ (.deliver m rnd cap) = w₁.accept .bob s'' m := by
    rintro s'' rfl rfl
    simp only [World.step, hi, Party.peer, hdec]
  simp only [Party.peer, hdec] at hout
  by_cases hm0 : m = 0
  · -- the first message opens the chain
    subst hm0
    rcases hout with ⟨j, -, hj, -⟩ | ⟨-, hr, -⟩ |
      ⟨-, hr, hold, -, s₁, new, t, hkp, hbase, hinv, hgrow, hlink, hext, hout⟩ | ⟨e, -, hwhy⟩
    · rw [hst, h.view] at hj
      cases hj
    · exact absurd hr (by decide)
    · obtain ⟨h1, h2⟩ := Prod.mk.inj hout
      have hview : (E.base (w₁.st .bob)).skipped.view = [] := by rw [hst]; exact h.view
      have hlost : (E.base (w₁.st .bob)).skipped.lost = [] := by rw [hst]; exact h.lost
      obtain ⟨ht1, ht2⟩ := SkipStore.Grows.nil hgrow hview hlost
      have hacc := hy.accept_opens hp hsec hwrap₁ hr (fun h => (hold h).1) hgrow
        (hkp ▸ (S.randOk_curve hrnd).2) (hkp ▸ hfresh) hbase hinv hlink hext
      have hlevels : Function.update (oneWay (if 0 = 0 then 0 else 2)) .bob 2 =
          oneWay (if 0 + 1 = 0 then 0 else 2) := by
        funext q
        cases q <;> rfl
      rw [hstep _ h1 h2, ← hkp]
      refine ⟨_, _, ⟨hlevels ▸ hacc, hlen, ?_, fun _ => ?_, ?_, ?_⟩⟩
      · exact htotal
      · simp [World.accept, hbase, DrState.withRecv]
      · simpa [World.accept, hbase, DrState.withRecv] using ht1
      · simpa [World.accept, hbase, DrState.withRecv] using ht2
    · rcases hwhy with hwhy | ⟨-, -, hno⟩
      · exact absurd hwhy (by simp)
      · exact absurd ⟨rfl, fun h => absurd h (by decide), Nat.zero_le _⟩ hno
  · -- the others are next on the chain
    have hnr : (E.base (w₁.st .bob)).nr.toNat = m := by rw [hst]; exact h.nr hm0
    have hview : (E.base (w₁.st .bob)).skipped.view = [] := by rw [hst]; exact h.view
    have hlost : (E.base (w₁.st .bob)).skipped.lost = [] := by rw [hst]; exact h.lost
    simp only [if_neg hm0] at hy hp hout
    rcases hout with
      ⟨j, -, hj, -⟩ | ⟨-, hr, hge, -, t, hinv, hgrow, hout⟩ | ⟨-, hr, -⟩ | ⟨e, -, hwhy⟩
    · rw [hview] at hj
      cases hj
    · obtain ⟨h1, h2⟩ := Prod.mk.inj hout
      have hacc := hy.accept_ahead hp hsec hwrap₁ hr hge hinv hgrow
      have hnil : keysFrom desc (Schedule.hk sec lv 1) (lv 1).ck
          (E.base (w₁.st .bob)).nr.toNat (m - (E.base (w₁.st .bob)).nr.toNat) = [] := by
        rw [hnr, Nat.sub_self]
        rfl
      rw [hnil] at hgrow
      obtain ⟨ht1, ht2⟩ := SkipStore.Grows.nil hgrow hview hlost
      have hnn : (UInt32.ofNat (m + 1)).toNat = m + 1 := by
        rw [UInt32.toNat_ofNat', Nat.mod_eq_of_lt hm]
      rw [hstep _ h1 h2]
      refine ⟨lv, _,
        ⟨hacc.mono_keys fun x hx => List.mem_cons_of_mem _ hx, hlen, ?_, fun _ => ?_, ?_,
        ?_⟩⟩
      · exact htotal
      · simp only [World.accept, Function.update_self, E.base_withBase, DrState.withRecv]
        exact hnn
      · simpa [World.accept, DrState.withRecv] using ht1
      · simpa [World.accept, DrState.withRecv] using ht2
    · exact absurd hr (by decide)
    · rcases hwhy with hwhy | ⟨-, hno, -⟩
      · exact absurd hwhy (by simp)
      · exact absurd ⟨rfl, hnr.le, by simp only [hnr, Nat.sub_self]; exact Nat.zero_le _⟩ hno

/-- Alice sends `m` messages, and Bob receives each at once. -/
def pings (rnd : Nat → RatchetRand β) (cap : Nat) (salt : Bytes β) (m : Nat) : List (Event β) :=
  (List.range m).flatMap fun i => [.send .alice cap [] salt, .deliver i (rnd i) cap]

omit [Octet β] [DecidableEq β] [Sodium β] in
/-- One more ping and its answer. -/
theorem pings_succ (rnd : Nat → RatchetRand β) (cap : Nat) (salt : Bytes β) (m : Nat) :
    pings rnd cap salt (m + 1) =
      pings rnd cap salt m ++ [.send .alice cap [] salt] ++ [.deliver m (rnd m) cap] := by
  simp [pings, List.range_succ]

/-- The run of `m` messages, by induction on `m`. -/
theorem Pinged.run (h : Pinged S id ad sec w keys lv pos 0) (hid : AeadUsable β id)
    (had : ad.length ≤ E.adMax) (hsec : Seeds desc sec) {cap : Nat} {salt : Bytes β}
    (hsalt : salt.length = heSaltLen) (hcap : RoomFor E id ([] : Bytes β) cap)
    {rnd : Nat → RatchetRand β} {kp : Nat → Keypair β} (hrnd : ∀ i, S.RandOk (rnd i) (kp i))
    (hinj : Function.Injective fun i => (kp i).pk) (hfresh : ∀ i, (kp i).pk ∉ keys) :
    ∀ m < 2 ^ 32, ∃ keys' lv' pos',
      Pinged S id ad sec (w.run E desc ad (pings rnd cap salt m)) keys' lv' pos' m ∧
        ∀ x ∈ keys', x ∈ keys ∨ ∃ i < m, x = (kp i).pk := by
  intro m
  induction m with
  | zero => exact fun _ => ⟨keys, lv, pos, h, fun x hx => .inl hx⟩
  | succ m ih =>
    intro hm
    obtain ⟨keys', lv', pos', hp, hkeys⟩ := ih (by omega)
    -- each round draws a key that no earlier round used
    have hnew : (kp m).pk ∉ keys' := by
      intro hmem
      rcases hkeys _ hmem with hold | ⟨i, hi, heq⟩
      · exact hfresh m hold
      · have := hinj heq
        omega
    obtain ⟨lv'', pos'', hp'⟩ := hp.round hid had hsec hm hsalt hcap (hrnd m) hnew
    refine ⟨(kp m).pk :: keys', lv'', pos'', ?_, ?_⟩
    · rw [pings_succ, World.run_append_singleton, World.run_append_singleton]
      exact hp'
    · intro x hx
      rcases List.mem_cons.mp hx with rfl | hx
      · exact .inr ⟨m, by omega, rfl⟩
      · rcases hkeys x hx with hold | ⟨i, hi, heq⟩
        · exact .inl hold
        · exact .inr ⟨i, by omega, heq⟩

/-! ## The counter wraps -/

/-- The schedule as a sender sees it whose counter has wrapped after `M` messages: the chain starts
over at its `M`-th key. -/
def rewound (desc : SuiteDesc β) (lv : Nat → Level β γ) (M : Nat) : Nat → Level β γ :=
  Function.update lv 1 { lv 1 with ck := chainKey desc (lv 1).ck M }

omit [DecidableEq β] [Sodium β] in
/-- The level that is rewound. -/
theorem rewound_one (desc : SuiteDesc β) (lv : Nat → Level β γ) (M : Nat) :
    rewound desc lv M 1 = { lv 1 with ck := chainKey desc (lv 1).ck M } := Function.update_self ..

omit [DecidableEq β] [Sodium β] in
/-- Rewinding a chain leaves the key pairs of all levels. -/
theorem samePairs_rewound (desc : SuiteDesc β) (lv : Nat → Level β γ) (M ℓ : Nat) :
    SamePairs (rewound desc lv M) lv ℓ := by
  intro i _
  by_cases h : i = 1
  · subst h
    rw [rewound_one]
    exact ⟨rfl, rfl⟩
  · rw [rewound, Function.update_of_ne h]
    exact ⟨rfl, rfl⟩

omit [DecidableEq β] [Sodium β] in
/-- A sender whose counter has just wrapped stands at the start of the rewound schedule. -/
theorem BaseAt.rewound {b : DrState β} {M : Nat} (hb : BaseAt desc id sec lv 1 b)
    (hns : b.ns.toNat + 1 = M) (hM : UInt32.ofNat M = 0) :
    BaseAt desc id sec (Geryon.rewound desc lv M) 1
      { b with cks := nextChainKey desc b.cks, ns := b.ns + 1 } := by
  have h1 := rewound_one desc lv M
  have h0 : Geryon.rewound desc lv M 0 = lv 0 := Function.update_of_ne (by decide) _ _
  -- the counter is at its last value, so the next one is zero again
  have hzero : b.ns + 1 = 0 := by
    rw [← hM, ← hns, UInt32.ofNat_add, UInt32.ofNat_toNat]
    rfl
  have hnhks : Schedule.hk sec (Geryon.rewound desc lv M) 3 = (lv 1).nhk := by
    show (Geryon.rewound desc lv M 1).nhk = _
    rw [h1]
  refine { hb with
    rk := ?_, dhs := ?_, nhks := ?_, nhkr := ?_, cks := fun _ => ?_, hks := ?_, dhr := fun _ => ?_,
    ckr := fun h => absurd h (by decide), hkr := fun h => absurd h (by decide) }
  · rw [h1]
    exact hb.rk
  · rw [h1]
    exact hb.dhs
  · rw [hnhks]
    exact hb.nhks
  · exact hb.nhkr
  · rw [h1]
    show nextChainKey desc b.cks = chainKey desc (chainKey desc (lv 1).ck M) (b.ns + 1).toNat
    rw [hzero, hb.cks le_rfl, ← chainKey_succ, hns]
    rfl
  · exact hb.hks
  · show b.dhr = (Geryon.rewound desc lv M 0).kp.pk
    rw [h0]
    exact hb.dhr le_rfl

omit [DecidableEq β] in
/-- A frame of the rewound schedule is the frame of position `M` of the chain. -/
theorem Sealed.of_rewound {M : Nat} {pn : UInt32} {pt wire : Bytes β} (hM : UInt32.ofNat M = 0)
    (hs : Sealed S id ad sec (rewound desc lv M) 1 0 pn pt wire) :
    Sealed S id ad sec lv 1 M pn pt wire := by
  obtain ⟨h, hdrp, salt, enc, ct, hw⟩ := hs
  have h1 := rewound_one desc lv M
  refine ⟨h, hdrp, salt, enc, ct, S.hdr_congr (samePairs_rewound desc lv M 1) hw.hdr,
    ?_, hw.pn_eq, ?_,
    hw.encode, hw.length_salt, hw.length_enc, hw.header, ?_, hw.length_ct, hw.wire_eq⟩
  · rw [hw.ratchetPk, h1]
  · rw [hw.n_eq, hM]
    rfl
  · have hpay := hw.payload
    rw [h1, chainKey_zero] at hpay
    rw [hM]
    exact hpay

/-- A receiver with no stored keys refuses a frame whose header number has wrapped to zero. -/
theorem decrypt_wrapped {s : σ} (hid : AeadUsable β id) (had : ad.length ≤ E.adMax)
    (hsec : Seeds desc sec) (hb : BaseAt desc id sec lv 2 (E.base s)) (hx : S.Ext lv 2 s)
    (hg : I.genuine (lv 1).kp) (hd : Schedule.Derived sec lv desc 2) {M : Nat} {pn : UInt32}
    {pt wire : Bytes β} (hM : UInt32.ofNat M = 0) (hs : Sealed S id ad sec lv 1 M pn pt wire)
    (hview : (E.base s).skipped.view = []) (hnr : 0 < (E.base s).nr.toNat) (rnd : RatchetRand β)
    (cap : Nat) : ∃ e, (E.decryptAssoc desc rnd cap wire ad s).1.1 = .error e := by
  obtain ⟨h, hdrp, salt, enc, ct, hw⟩ := hs
  have hlen : ∀ i, 1 ≤ i → i ≤ 2 + 1 → (Schedule.hk sec lv i).length = 32 := fun i h1 hi =>
    Schedule.length_hk I hsec hd h1 (by omega)
  have hmiss : (E.trialSlots desc (E.base s) (frameOf desc ad salt enc ct) cap
      (List.range maxSkip)).2 = .miss := by
    rcases trial_sealed S hid hg hb.aeadId hw (hlen 1 le_rfl (by omega)) hb.skipped
      (by rw [hview]; simp) cap with ⟨i, hi, -⟩ | ⟨-, hmiss⟩
    · rw [hview] at hi
      cases hi
    · exact hmiss
  obtain ⟨m, hdec⟩ := decryptAssoc_miss S hid hb hx hg had hw le_rfl (by omega) (by decide) hlen
    (fun i h1 hi heq => Schedule.hk_injective I hsec hd h1 le_rfl (by omega) (by omega) heq)
    rnd (by rw [hw.length_ct]; omega) hmiss
  rw [← hw.wire_eq] at hdec
  -- the header number reads as zero, which lies behind the receiver
  obtain ⟨e, he⟩ := (reach_same I (k := 1) (n := 0) hb le_rfl (by decide) hw.ratchetPk
    (by rw [hw.n_eq, hM]; rfl) rnd).2 (by omega)
  refine ⟨e, ?_⟩
  rw [hdec, if_pos (.inl rfl), Engine.chainPath, Cmd.bind_apply_of_error he]
  rfl

/-- Two more messages after a wrap-around number of them: the first wraps the counter, and the
second, delivered without it, is refused although it skips a single message. -/
theorem Pinged.wrap_refused {m M : Nat} (h : Pinged S id ad sec w keys lv pos m)
    (hid : AeadUsable β id) (had : ad.length ≤ E.adMax) (hsec : Seeds desc sec) (hm : 0 < m)
    (hlt : m < 2 ^ 32) (hmM : m + 1 = M) (hM : UInt32.ofNat M = 0) {cap : Nat} {salt : Bytes β}
    (hsalt : salt.length = heSaltLen) (hcap : RoomFor E id ([] : Bytes β) cap)
    (rnd : RatchetRand β) :
    let w' := World.step E desc ad (World.step E desc ad w (.send .alice cap [] salt))
      (.send .alice cap [] salt)
    ∃ f e, w'.sent[M]? = some f ∧ M ∉ w'.accepted ∧ w'.WithinSkip E f ∧
      f.msgKey E desc ∉ (E.base (w'.st f.sender.peer)).skipped.lost ∧ f.pt.length ≤ cap ∧
      (E.decryptAssoc desc rnd cap f.wire ad (w'.st f.sender.peer)).1.1 = .error e := by
  have hy := h.sync
  rw [if_neg (by omega : m ≠ 0)] at hy
  have hb : BaseAt desc id sec lv 1 (E.base (w.st .alice)) := hy.base .alice
  have hx : S.Ext lv 1 (w.st .alice) := hy.ext .alice
  have hg : I.genuine (lv 1).kp := hy.genuine .alice 1 le_rfl
  have hns : (E.base (w.st .alice)).ns.toNat + 1 = M := by
    have := hy.ns .alice
    rw [this]
    show (UInt32.ofNat (w.total E .alice (lv 1).kp.pk)).toNat + 1 = M
    rw [h.total, UInt32.toNat_ofNat', Nat.mod_eq_of_lt hlt, hmM]
  obtain ⟨wire₁, hsend₁, -⟩ := hy.step_send_eq hid had (p := .alice) le_rfl hsalt hcap
  set f₁ : Sent β σ :=
    ⟨.alice, w.st .alice, w.total E .alice (lv (oneWay 2 .alice)).kp.pk, [], wire₁⟩
    with hf₁
  set s₁ := E.withBase { E.base (w.st .alice) with
    cks := nextChainKey desc (E.base (w.st .alice)).cks,
    ns := (E.base (w.st .alice)).ns + 1 } (w.st .alice) with hs₁
  -- the sender after the wrap, on the rewound schedule
  have hb₁ : BaseAt desc id sec (rewound desc lv M) 1 (E.base s₁) := by
    rw [hs₁, E.base_withBase]
    exact hb.rewound hns hM
  have hx₁ : S.Ext (rewound desc lv M) 1 s₁ :=
    S.ext_withBase _ (S.ext_congr (fun i hi => by
      obtain ⟨h1, h2⟩ := samePairs_rewound desc lv M 1 i hi
      exact ⟨h1.symm, h2.symm⟩) hx)
  have hns₁ : (E.base s₁).ns.toNat = 0 := by
    rw [hs₁, E.base_withBase]
    show ((E.base (w.st .alice)).ns + 1).toNat = 0
    have : (E.base (w.st .alice)).ns + 1 = 0 := by
      rw [← hM, ← hns, UInt32.ofNat_add, UInt32.ofNat_toNat]
      rfl
    rw [this]
    rfl
  have hpk₁ : (E.base s₁).dhs.pk = (lv 1).kp.pk := by
    rw [hb₁.dhs, rewound_one]
  obtain ⟨wire, henc, hsealed⟩ :
      ∃ wire, E.encrypt desc cap [] ad (.ok salt) s₁ = (.ok wire, _) ∧ _ := by
    rcases encrypt_at S hid le_rfl hb₁ hx₁ (by rw [rewound_one]; exact hg) had cap [] hsalt with
      hok | ⟨e, hlt', -⟩
    · exact hok
    · exact absurd hcap (Nat.not_le.mpr hlt')
  rw [hns₁] at hsealed
  -- the world after the two sends
  have hst₁ : (w.produce .alice s₁ f₁).st .alice = s₁ := by simp [World.produce]
  have hlog₁ : (w.produce .alice s₁ f₁).LogOk E := by
    refine hy.log.produce ?_
    rw [Sent.chain, hf₁, hb.dhs]
    rfl
  have hon₁ : f₁.On E .alice (lv 1).kp.pk := ⟨rfl, by rw [Sent.chain, hf₁, hb.dhs]⟩
  have htot₁ : (w.produce .alice s₁ f₁).total E .alice (lv 1).kp.pk = M := by
    rw [World.total_produce, if_pos hon₁, h.total, hmM]
  have hw' : World.step E desc ad (World.step E desc ad w (.send .alice cap [] salt))
      (.send .alice cap [] salt) = (w.produce .alice s₁ f₁).produce .alice
        (E.withBase { E.base s₁ with
          cks := nextChainKey desc (E.base s₁).cks, ns := (E.base s₁).ns + 1 } s₁)
        ⟨.alice, s₁, M, [], wire⟩ := by
    rw [hsend₁]
    simp only [World.step, hst₁, henc, hpk₁, htot₁]
  rw [hw']
  set w₁ := w.produce .alice s₁ f₁ with hw₁
  set f : Sent β σ := ⟨.alice, s₁, M, [], wire⟩ with hf
  have hlen : w₁.sent.length = M := by
    rw [hw₁]
    simp only [World.produce, List.length_append, List.length_cons, List.length_nil, h.length]
    exact hmM
  have hchain : f.chain E = (lv 1).kp.pk := hpk₁
  have hbobst : ∀ s, (w₁.produce .alice s f).st .bob = w.st .bob := fun s => by
    simp [hw₁, World.produce]
  obtain ⟨hpos, hpass⟩ := hy.pos_cur .bob le_rfl
  refine ⟨f, ?_⟩
  obtain ⟨e, he⟩ := decrypt_wrapped hid had hsec (hy.base .bob) (hy.ext .bob) hg
    (hy.derived .bob) hM (Sealed.of_rewound hM hsealed) h.view (by rw [h.nr (by omega)]; exact hm)
    rnd cap
  refine ⟨e, ?_, ?_, ?_, ?_, Nat.zero_le _, ?_⟩
  · rw [← hlen]
    exact List.getElem?_concat_length
  · intro hmem
    have := hy.log.accepted_lt M hmem
    rw [h.length] at this
    omega
  · have hopen : w₁.acceptedOn E .alice (lv 1).kp.pk ≠ [] := by
      rw [hw₁, hy.log.acceptedOn_produce]
      exact hy.opened .bob 1 ⟨le_rfl, by decide, by decide⟩
    have hp : w₁.passed E .alice (lv 1).kp.pk = m := by
      rw [hw₁, hy.log.passed_produce]
      exact hpass.symm.trans (hpos.trans (h.nr (by omega)))
    rw [World.WithinSkip, hchain, hlog₁.acceptedOn_produce, if_neg hopen, hlog₁.passed_produce, hp]
    show M - m ≤ maxSkip
    rw [← hmM, Nat.add_sub_cancel_left]
    decide
  · show f.msgKey E desc ∉ (E.base ((w₁.produce .alice _ f).st .bob)).skipped.lost
    rw [hbobst, h.lost]
    exact List.not_mem_nil
  · show (E.decryptAssoc desc rnd cap wire ad ((w₁.produce .alice _ f).st .bob)).1.1 = .error e
    rw [hbobst]
    exact he

/-! ## The store is bounded -/

/-- Alice has sent `n` messages and nothing was delivered. -/
structure Burst (S : EngineSpec E I γ) (id : UInt8) (ad : Bytes β) (sec : DrSecrets β)
    (w : World β σ) (keys : List (Bytes β)) (lv : Nat → Level β γ) (pos : Party → Nat → Nat)
    (n : Nat) : Prop where
  sync : Sync S id ad sec w keys lv (oneWay 0) pos
  length : w.sent.length = n
  frames : ∀ (i : Nat) (f : Sent β σ), w.sent[i]? = some f →
    f.sender = .alice ∧ f.idx = i ∧ f.pt = []
  total : w.total E .alice (lv 1).kp.pk = n
  accepted : w.accepted = []
  skipped : (E.base (w.st .bob)).skipped = SkipStore.empty

/-- Until something is delivered, the first messages are within the skip bounds. -/
theorem Burst.withinSkip {n i : Nat} {f : Sent β σ} (h : Burst S id ad sec w keys lv pos n)
    (hi : w.sent[i]? = some f) (hle : i ≤ maxSkip) : w.WithinSkip E f := by
  obtain ⟨hs, hidx, -⟩ := h.frames i f hi
  have hnil : w.acceptedOn E .alice (f.chain E) = [] := by
    rw [World.acceptedOn, h.accepted]
    rfl
  have hdhr : (E.base (w.st .bob)).haveDhr = false := (h.sync.base .bob).haveDhr
  rw [World.WithinSkip, hs, if_pos hnil, Party.peer, hdhr, hidx]
  exact ⟨fun h => absurd h (by decide), hle⟩

/-- A burst of messages on one chain. -/
theorem Burst.run (h : Burst S id ad sec w keys lv pos 0) (hid : AeadUsable β id)
    (had : ad.length ≤ E.adMax) {cap : Nat} {salt : Bytes β} (hsalt : salt.length = heSaltLen)
    (hcap : RoomFor E id ([] : Bytes β) cap) : ∀ n < 2 ^ 32,
      Burst S id ad sec (w.run E desc ad (List.replicate n (.send .alice cap [] salt))) keys lv pos
        n := by
  intro n
  induction n with
  | zero => exact fun _ => h
  | succ n ih =>
    intro hn
    have hb := ih (by omega)
    rw [List.replicate_succ', World.run_append_singleton]
    generalize w.run E desc ad (List.replicate n (.send .alice cap [] salt)) = w₀ at hb ⊢
    -- one more frame of Alice's first chain
    obtain ⟨wire, hsend, -⟩ := hb.sync.step_send_eq hid had (p := .alice) le_rfl hsalt hcap
    have hlen : (World.step E desc ad w₀ (.send .alice cap [] salt)).sent.length = n + 1 := by
      rw [hsend]
      simp [World.produce, hb.length]
    have hy := hb.sync.step_send hid had .alice cap [] hsalt
      fun q pk => (World.total_le_length _ q pk).trans_lt (by rw [hlen]; exact hn)
    refine ⟨hy, hlen, ?_, ?_, ?_, ?_⟩
    · rw [hsend]
      intro i f hi
      simp only [World.produce] at hi
      -- the earlier frames are as they were, the last one is the new one
      rcases Nat.lt_or_ge i w₀.sent.length with hlt | hge
      · rw [List.getElem?_append_left hlt] at hi
        exact hb.frames i f hi
      · have hlt := (List.getElem?_eq_some_iff.mp hi).1
        rw [List.length_append, List.length_cons, List.length_nil] at hlt
        obtain rfl : i = w₀.sent.length := by omega
        rw [List.getElem?_concat_length] at hi
        obtain rfl := Option.some.inj hi
        refine ⟨rfl, ?_, rfl⟩
        rw [hb.length]
        exact hb.total
    · have hon : (⟨.alice, w₀.st .alice, w₀.total E .alice (lv (oneWay 0 .alice)).kp.pk, [], wire⟩ :
          Sent β σ).On E .alice (lv 1).kp.pk :=
        ⟨rfl, by rw [Sent.chain, (hb.sync.base .alice).dhs]; rfl⟩
      rw [hsend, World.total_produce, if_pos hon, hb.total]
    · rw [hsend]
      exact hb.accepted
    · rw [hsend]
      simpa [World.produce] using hb.skipped

/-- A delivery that decrypts is an acceptance. -/
theorem World.step_deliver_ok {w : World β σ} {i : Nat} {f : Sent β σ} {rnd : RatchetRand β}
    {cap : Nat} {pt : Bytes β} {s : σ} (hi : w.sent[i]? = some f)
    (hdec : ((E.decryptAssoc desc rnd cap f.wire ad (w.st f.sender.peer)).1.1,
      (E.decryptAssoc desc rnd cap f.wire ad (w.st f.sender.peer)).2) = (.ok pt, s)) :
    World.step E desc ad w (.deliver i rnd cap) = w.accept f.sender.peer s i := by
  rcases hd : E.decryptAssoc desc rnd cap f.wire ad (w.st f.sender.peer) with ⟨⟨res, b⟩, s'⟩
  rw [hd] at hdec
  obtain ⟨rfl, rfl⟩ := Prod.mk.inj hdec
  simp only [World.step, hi, hd]

/-- A delivery that was accepted decrypted the frame. -/
theorem World.decrypted_of_accept {w : World β σ} {i cap : Nat} {f : Sent β σ}
    {rnd : RatchetRand β} {p : Party} {s : σ}
    (hi : w.sent[i]? = some f)
    (h : World.step E desc ad w (.deliver i rnd cap) = w.accept p s i) :
    ∃ pt, (E.decryptAssoc desc rnd cap f.wire ad (w.st f.sender.peer)).1.1 = .ok pt ∧
      (World.step E desc ad w (.deliver i rnd cap)).st f.sender.peer =
        (E.decryptAssoc desc rnd cap f.wire ad (w.st f.sender.peer)).2 := by
  rcases hdec : E.decryptAssoc desc rnd cap f.wire ad (w.st f.sender.peer) with ⟨⟨_ | pt, b⟩, s'⟩
  · -- a refused frame is not recorded as accepted
    simp only [World.step, hi, hdec] at h
    have hlen := congrArg (fun w => w.accepted.length) h
    simp [World.settle, World.accept] at hlen
  · refine ⟨pt, rfl, ?_⟩
    simp only [World.step, hi, hdec, World.accept, Function.update_self]

omit [Octet β] [DecidableEq β] [Sodium β] in
/-- Accepting sets the state of the receiver. -/
@[simp] theorem World.st_accept (w : World β σ) (p : Party) (s : σ) (i : Nat) :
    (w.accept p s i).st p = s := by
  rw [World.accept]
  exact Function.update_self ..

omit [Octet β] [DecidableEq β] [Sodium β] in
/-- Sending sets the state of the sender. -/
@[simp] theorem World.st_produce (w : World β σ) (p : Party) (s : σ) (f : Sent β σ) :
    (w.produce p s f).st p = s := by
  rw [World.produce]
  exact Function.update_self ..

omit [Octet β] [DecidableEq β] [Sodium β] in
/-- And leaves the other one. -/
theorem World.st_produce_of_ne (w : World β σ) {p q : Party} (h : q ≠ p) (s : σ) (f : Sent β σ) :
    (w.produce p s f).st q = w.st q := by
  rw [World.produce]
  exact Function.update_of_ne h _ _

/-- A delivery that was accepted is an arrival that fits. -/
theorem World.arrival_of_accept (hE : E.Shape desc) {i cap : Nat} {f : Sent β σ}
    {rnd : RatchetRand β} {s : σ} (hi : w.sent[i]? = some f)
    (h : World.step E desc ad w (.deliver i rnd cap) = w.accept f.sender.peer s i) :
    ∃ a : Arrival β, a.Fits (E.base (w.st f.sender.peer)).nhkr
        (E.base (w.st f.sender.peer)).recvSide ∧
      (E.base s).recvSide = (E.base (w.st f.sender.peer)).recvSide.receive a := by
  obtain ⟨pt, hok, hst⟩ := World.decrypted_of_accept hi h
  obtain ⟨a, hfit, hside, -⟩ := Engine.decryptAssoc_arrival hE hok
  rw [h, World.st_accept] at hst
  exact ⟨a, hfit, hst ▸ hside⟩

/-- After a burst, delivering message `n` first opens the chain and skips the messages before it. -/
theorem Burst.deliver_first {N n : Nat} (h : Burst S id ad sec w keys lv pos N)
    (hid : AeadUsable β id) (had : ad.length ≤ E.adMax) (hsec : Seeds desc sec) (hN : N < 2 ^ 32)
    (hn : n < N) (hskip : n ≤ maxSkip) {rnd : RatchetRand β} {kp : Keypair β}
    (hrnd : S.RandOk rnd kp) (hfresh : kp.pk ∉ keys) (cap : Nat) :
    ∃ lv' pos' s', World.step E desc ad w (.deliver n rnd cap) = w.accept .bob s' n ∧
      (lv' 1).kp.pk = (lv 1).kp.pk ∧ pos' .bob 1 = n + 1 ∧
      Sync S id ad sec (w.accept .bob s' n) (kp.pk :: keys) lv' (oneWay 2) pos' := by
  have hwrap : ∀ q pk, w.total E q pk < 2 ^ 32 := fun q pk =>
    (World.total_le_length w q pk).trans_lt (by rw [h.length]; exact hN)
  -- frame `n` of the burst, still pending for Bob
  obtain ⟨f, hi⟩ : ∃ f, w.sent[n]? = some f :=
    ⟨_, List.getElem?_eq_getElem (by rw [h.length]; exact hn)⟩
  obtain ⟨hs, hidx, hpt⟩ := h.frames n f hi
  obtain ⟨k, hp⟩ := h.sync.exists_pending hi
  rw [hs] at hp
  obtain rfl : k = 1 := by
    have h1 := hp.one_le
    have h2 : k ≤ 1 := hp.le
    omega
  have hout := h.sync.outcome hid had hsec hwrap hp hrnd cap
  have hview : (E.base (w.st .bob)).skipped.view = [] := by
    refine List.eq_nil_iff_forall_not_mem.mpr fun x hx => ?_
    obtain ⟨k, m, hlane, -⟩ := (h.sync.ledger .bob).mem x hx
    exact absurd hlane.2.1 (Nat.not_lt_zero k)
  -- Bob has no chain yet: the frame can only open a new one
  rcases hout with ⟨j, -, hj, -⟩ | ⟨-, hr, -⟩ |
    ⟨-, hr, hold, -, s₁, new, t, hkp, hbase, hinv, hgrow, hlink, hext, hout⟩ | ⟨e, -, hwhy⟩
  · have hj' : (E.base (w.st .bob)).skipped.view[j]? = _ := hj
    rw [hview] at hj'
    cases hj'
  · exact absurd hr (by decide)
  -- it does, and Bob is at level 2 afterwards
  · have hacc := h.sync.accept_opens hp hsec hwrap hr (fun h => (hold h).1) hgrow
      (hkp ▸ (S.randOk_curve hrnd).2) (hkp ▸ hfresh) hbase hinv hlink hext
    have hlevels : Function.update (oneWay 0) .bob 2 = oneWay 2 := by
      funext q
      cases q <;> rfl
    have hstep := World.step_deliver_ok hi (hs ▸ hout)
    rw [hs] at hstep
    refine ⟨_, _, s₁, hstep, ?_, ?_, hkp ▸ hlevels ▸ hacc⟩
    · rw [Function.update_of_ne (by decide)]
    · show Function.update pos .bob _ .bob 1 = n + 1
      rw [Function.update_self]
      exact congrArg (· + 1) hidx
  · rcases hwhy with hwhy | ⟨-, -, hno⟩
    · rw [hpt] at hwhy
      exact absurd hwhy (by simp)
    · exact absurd ⟨rfl, fun h => absurd h (by decide), hidx ▸ hskip⟩ hno

/-! ## Tampered payloads -/

/-- The staged copy `s₁` on which the payload of `msg` is tried: the frame parses, its header opens
and decodes, and the receiving chain was brought to the header's number. -/
def Engine.Stages (E : Engine β σ η) (desc : SuiteDesc β) (rnd : RatchetRand β)
    (msg ad : Bytes β) (s s₁ : σ) : Prop :=
  ∃ fr hdrp h, E.parseFrame desc (E.base s).aeadId msg ad = .ok fr ∧
    E.openCurrentOrNext desc (E.base s) fr = some hdrp ∧ E.decode hdrp = .ok h ∧
    E.reach desc rnd h s = (.ok (), s₁)

/-- `msg` with its last bytes, as many as `tag` has, replaced by `tag`. -/
def withTag (msg tag : Bytes β) : Bytes β := msg.take (msg.length - tag.length) ++ tag

omit [Octet β] [Sodium β] [DecidableEq β] in
/-- The tag of a frame is its end. -/
theorem withTag_append {msg ct tag : Bytes β} (h : ct.length = tag.length) :
    withTag (msg ++ ct) tag = msg ++ tag := by
  rw [withTag, List.length_append, h, Nat.add_sub_cancel, List.take_left]

omit [DecidableEq β] in
/-- A payload that never opens: consuming it fails. -/
theorem consume_bad (I : IdealSuite desc) (fr : WireFrame β) (hid : AeadUsable β id) {s : σ}
    (hs : (E.base s).aeadId = id)
    (hbad : ∀ cap key nonce ad, ∃ e, gyAeadDecrypt id cap key nonce ad fr.payload = .error e)
    (cap : Nat) (n : UInt32) : ∃ e s', E.consume desc fr cap n s = (.error e, s') := by
  obtain ⟨hck, -, -⟩ := I.works.gyDrcKdfCk_eq (E.base s).ckr
  obtain ⟨key, nonce, -, hder, -⟩ := I.works.deriveKeyNonce_ok hid
    (by decide : "dr.aead".length ≤ 10) (messageKey desc (E.base s).ckr) (be32Put n)
  obtain ⟨e, he⟩ := hbad cap key nonce fr.adm
  refine ⟨e, E.withBase { E.base s with
    ckr := nextChainKey desc (E.base s).ckr, nr := (E.base s).nr + 1 } s, ?_⟩
  simp [Engine.consume, hck, Engine.openPayload, gyDrcDeriveAead, hder, hs, bind, Except.bind, he]

/-- Message `n` of a burst with a tag that never verifies: the receiver ratchets and skips the `n`
messages before it on its staged copy, and only then refuses it. -/
theorem Burst.tampered_refused {N n : Nat} (h : Burst S id ad sec w keys lv pos N)
    (hid : AeadUsable β id) (had : ad.length ≤ E.adMax) (hsec : Seeds desc sec) (hN : N < 2 ^ 32)
    (hn : n < N) (hskip : n ≤ maxSkip) {rnd : RatchetRand β} {kp : Keypair β}
    (hrnd : S.RandOk rnd kp) {tag : Bytes β} (htag : tag.length = aeadTagLen id)
    (hbad : ∀ cap key nonce ad, ∃ e, gyAeadDecrypt id cap key nonce ad tag = .error e)
    (cap : Nat) :
    (E.base (w.st .bob)).haveCkr = false ∧
    ∃ f s₁ e, w.sent[n]? = some f ∧ E.Stages desc rnd (withTag f.wire tag) ad (w.st .bob) s₁ ∧
      (E.base s₁).haveCkr = true ∧ (E.base s₁).nr = UInt32.ofNat n ∧
      (E.decryptAssoc desc rnd cap (withTag f.wire tag) ad (w.st .bob)).1.1 = .error e := by
  have hwrap : ∀ q pk, w.total E q pk < 2 ^ 32 := fun q pk =>
    (World.total_le_length w q pk).trans_lt (by rw [h.length]; exact hN)
  obtain ⟨f, hi⟩ : ∃ f, w.sent[n]? = some f :=
    ⟨_, List.getElem?_eq_getElem (by rw [h.length]; exact hn)⟩
  obtain ⟨hs, hidx, hpt⟩ := h.frames n f hi
  obtain ⟨k, hp⟩ := h.sync.exists_pending hi
  rw [hs] at hp
  obtain rfl : k = 1 := by
    have h1 := hp.one_le
    have h2 : k ≤ 1 := hp.le
    omega
  have hb : BaseAt desc id sec lv 0 (E.base (w.st .bob)) := h.sync.base .bob
  have hx : S.Ext lv 0 (w.st .bob) := h.sync.ext .bob
  have hd := h.sync.derived .bob
  have hg : I.genuine (lv 1).kp := h.sync.genuine .alice 1 le_rfl
  obtain ⟨hdr, hdrp, salt, enc, ct, hw⟩ := hp.at_.frame
  rw [hs, hidx, hpt] at hw
  have hlen : ∀ i, 1 ≤ i → i ≤ 0 + 1 → (Schedule.hk sec lv i).length = 32 := fun i h1 hi =>
    Schedule.length_hk I hsec hd h1 (by omega)
  have hinj : ∀ i, 1 ≤ i → i ≤ 0 + 1 → Schedule.hk sec lv i = Schedule.hk sec lv 1 → i = 1 := by
    omega
  -- the tag of an empty plaintext is all of its ciphertext
  have hmsg : withTag f.wire tag =
      gyFramePut desc.suiteId ++ Engine.headerWire salt enc ++ tag := by
    rw [hw.wire_eq]
    refine withTag_append ?_
    rw [hw.length_ct, htag]
    exact Nat.zero_add _
  have hparse := parseFrame_payload S hid hg had hw htag.ge
  have hopen := openCurrentOrNext_sealed S hid hb hg hw le_rfl le_rfl hlen hinj
  change E.openCurrentOrNext desc (E.base (w.st .bob)) (frameOf desc ad salt enc tag) = _ at hopen
  rw [if_pos (.inr rfl)] at hopen
  obtain ⟨s₁, new, t, hreach, -, hbase, -⟩ := (reach_new S hb hx (h.sync.link .alice 0 (by decide))
    hw.hdr hw.ratchetPk (by omega) hg hrnd (by omega) hw.n_eq (by decide : 0 < 2 ^ 32)
    hw.pn_eq).1 ⟨by omega, hskip⟩
  have hid₁ : (E.base s₁).aeadId = id := by
    rw [hbase]
    exact hb.aeadId
  obtain ⟨e, s₂, hcons⟩ := consume_bad I (frameOf desc ad salt enc tag) hid hid₁ hbad
    cap (E.n hdr)
  obtain ⟨m, hdec⟩ := decryptAssoc_miss S hid hb hx hg had hw le_rfl le_rfl (by decide) hlen hinj
    rnd htag.ge (congrArg Prod.snd (trialSlots_of_dead
      (fun i => by rw [h.skipped]; rfl) (frameOf desc ad salt enc tag) cap _))
  refine ⟨hb.haveCkr, f, s₁, e, hi, ⟨_, hdrp, hdr, ?_, hopen, decode_sealed S hg hw, hreach⟩, ?_,
    ?_, ?_⟩
  · rw [hb.aeadId, hmsg]
    exact hparse
  · rw [hbase]
    rfl
  · rw [hbase]
    rfl
  · rw [hmsg, hdec, if_pos (.inr rfl), Engine.chainPath, Cmd.bind_apply_of_ok hreach, hcons]
    rfl

/-- The next delivery on the current chain skips the messages in between. -/
theorem Sync.deliver_ahead {i : Nat} {f : Sent β σ} (hy : Sync S id ad sec w keys lv (oneWay 2) pos)
    (hid : AeadUsable β id) (had : ad.length ≤ E.adMax) (hsec : Seeds desc sec)
    (hwrap : ∀ q pk, w.total E q pk < 2 ^ 32) (hi : w.sent[i]? = some f) (hs : f.sender = .alice)
    (hpt : f.pt = []) (hge : pos .bob 1 ≤ f.idx) (hle : f.idx - pos .bob 1 ≤ maxSkip)
    {rnd : RatchetRand β} {kp : Keypair β} (hrnd : S.RandOk rnd kp) (cap : Nat) :
    ∃ pos' s', World.step E desc ad w (.deliver i rnd cap) = w.accept .bob s' i ∧
      pos' .bob 1 = f.idx + 1 ∧ Sync S id ad sec (w.accept .bob s' i) keys lv (oneWay 2) pos' := by
  obtain ⟨k, hp⟩ := hy.exists_pending hi
  rw [hs] at hp
  obtain rfl : k = 1 := by
    have h1 := hp.one_le
    have h2 : k ≤ 1 := hp.le
    omega
  have hnr : pos .bob 1 = (E.base (w.st .bob)).nr.toNat := (hy.pos_cur .bob le_rfl).1
  -- a frame at or past the position is neither stored nor of another chain
  rcases hy.outcome hid had hsec hwrap hp hrnd cap with ⟨j, -, hj, -⟩ |
    ⟨-, hr, hge', -, t, hinv, hgrow, hout⟩ | ⟨-, hr, -⟩ | ⟨e, -, hwhy⟩
  · have h2 : f.idx < pos .bob 1 := (hy.of_stored hp hsec hwrap hj).2.1
    omega
  · have hacc := hy.accept_ahead hp hsec hwrap hr hge' hinv hgrow
    have hstep := World.step_deliver_ok hi (hs ▸ hout)
    rw [hs] at hstep
    refine ⟨_, _, hstep, ?_, hacc⟩
    show Function.update pos .bob _ .bob 1 = _
    rw [Function.update_self, Function.update_self]
  · exact absurd hr (by decide)
  · rcases hwhy with hwhy | ⟨-, hno, -⟩
    · rw [hpt] at hwhy
      exact absurd hwhy (by simp)
    · refine absurd ⟨rfl, ?_, ?_⟩ hno
      · exact hnr ▸ hge
      · exact hnr ▸ hle

/-- The side of a receiver in step: it has a receiving chain, whose header key is not the next one.
-/
theorem Sync.side_bob (hy : Sync S id ad sec w keys lv (oneWay 2) pos) (hsec : Seeds desc sec) :
    (E.base (w.st .bob)).recvSide.hk = some sec.sharedHka ∧
      sec.sharedHka ≠ (E.base (w.st .bob)).nhkr ∧
      (E.base (w.st .bob)).recvSide.nr.toNat = pos .bob 1 := by
  have hb : BaseAt desc id sec lv 2 (E.base (w.st .bob)) := hy.base .bob
  refine ⟨?_, ?_, (hy.pos_cur .bob le_rfl).1.symm⟩
  · have hckr : (E.base (w.st .bob)).haveCkr = true := hb.haveCkr
    simp only [DrState.recvSide, hckr, if_true, hb.hkr le_rfl]
    rfl
  · rw [hb.nhkr]
    intro heq
    have hone : Schedule.hk sec lv 1 = Schedule.hk sec lv (2 + 1) := heq
    exact absurd (Schedule.hk_injective I hsec (hy.derived .bob) le_rfl (by decide) (by decide)
      (by decide) hone) (by decide)

/-- A frame behind the receiver whose key is not stored is refused. -/
theorem Sync.refused_of_not_stored {i : Nat} {f : Sent β σ}
    (hy : Sync S id ad sec w keys lv (oneWay 2) pos) (hid : AeadUsable β id)
    (had : ad.length ≤ E.adMax) (hsec : Seeds desc sec) (hwrap : ∀ q pk, w.total E q pk < 2 ^ 32)
    (hi : w.sent[i]? = some f) (hs : f.sender = .alice) (hlt : f.idx < pos .bob 1)
    (hno : ticket desc sec lv 1 f.idx ∉ (E.base (w.st .bob)).skipped.view)
    {rnd : RatchetRand β} {kp : Keypair β} (hrnd : S.RandOk rnd kp) (cap : Nat) :
    ∃ e, (E.decryptAssoc desc rnd cap f.wire ad (w.st f.sender.peer)).1.1 = .error e := by
  obtain ⟨k, hp⟩ := hy.exists_pending hi
  rw [hs] at hp ⊢
  obtain rfl : k = 1 := by
    have h1 := hp.one_le
    have h2 : k ≤ 1 := hp.le
    omega
  have hnr : pos .bob 1 = (E.base (w.st .bob)).nr.toNat := (hy.pos_cur .bob le_rfl).1
  rcases hy.outcome hid had hsec hwrap hp hrnd cap with ⟨j, -, hj, -⟩ | ⟨-, -, hge, -⟩ |
    ⟨-, hr, -⟩ | ⟨e, hout, -⟩
  · exact absurd (List.mem_of_getElem? hj) hno
  · have : (E.base (w.st .bob)).nr.toNat ≤ f.idx := hge
    omega
  · exact absurd hr (by decide)
  · exact ⟨e, congrArg Prod.fst hout⟩

/-- More keys than the store holds: some skipped message of the chain is lost. -/
theorem Sync.exists_not_stored (hy : Sync S id ad sec w keys lv (oneWay 2) pos)
    (hsec : Seeds desc sec) {L : List Nat} (hnd : L.Nodup) (hL : maxSkip < L.length)
    (hb : ∀ m ∈ L, m < 2 ^ 32) :
    ∃ m ∈ L, ticket desc sec lv 1 m ∉ (E.base (w.st .bob)).skipped.view := by
  by_contra hno
  have hall : ∀ m ∈ L, ticket desc sec lv 1 m ∈ (E.base (w.st .bob)).skipped.view := fun m hm => by
    by_contra h
    exact hno ⟨m, hm, h⟩
  have hinj : (L.map (ticket desc sec lv 1)).Nodup := by
    refine hnd.map_on fun x hx y hy' hxy => ?_
    exact (ticket_inj I hsec (hy.derived .bob) le_rfl le_rfl (by decide) (by decide) (hb x hx)
      (hb y hy') hxy).2
  have hsub : L.map (ticket desc sec lv 1) ⊆ (E.base (w.st .bob)).skipped.view := by
    intro x hx
    obtain ⟨m, hm, rfl⟩ := List.mem_map.mp hx
    exact hall m hm
  have hle := (List.subperm_of_subset hinj hsub).length_le
  have hmax := (hy.base .bob).skipped.length_le
  rw [List.length_map, SkipStore.view, List.length_map] at hle
  omega

/-- A burst of `maxSkip + 3` messages of which only two arrive at first, far enough apart to skip
more than the store holds: one of the skipped messages is then refused, although delivering it
skips nothing. -/
theorem Burst.evicted_refused (h : Burst S id ad sec w keys lv pos (maxSkip + 3))
    (hid : AeadUsable β id) (had : ad.length ≤ E.adMax) (hsec : Seeds desc sec)
    {rnd₁ rnd₂ rnd₃ : RatchetRand β} {kp₁ kp₂ kp₃ : Keypair β} (hrnd₁ : S.RandOk rnd₁ kp₁)
    (hrnd₂ : S.RandOk rnd₂ kp₂) (hrnd₃ : S.RandOk rnd₃ kp₃) (hfresh : kp₁.pk ∉ keys) (cap : Nat) :
    let w' := World.step E desc ad (World.step E desc ad w (.deliver maxSkip rnd₁ cap))
      (.deliver (maxSkip + 2) rnd₂ cap)
    ∃ i f e, w'.sent[i]? = some f ∧ i ∉ w'.accepted ∧ w'.WithinSkip E f ∧ f.pt.length ≤ cap ∧
      (E.decryptAssoc desc rnd₃ cap f.wire ad (w'.st f.sender.peer)).1.1 = .error e := by
  have hms : maxSkip = 1000 := rfl
  obtain ⟨lv₁, pos₁, s₁, hstep₁, -, hpos₁, hy₁⟩ := h.deliver_first hid had hsec (by omega)
    (by omega : maxSkip < maxSkip + 3) le_rfl hrnd₁ hfresh cap
  have hwrap : ∀ q pk, (w.accept .bob s₁ maxSkip).total E q pk < 2 ^ 32 := fun q pk =>
    (World.total_le_length w q pk).trans_lt (by rw [h.length]; omega)
  have hframe : ∀ i < maxSkip + 3, ∃ f, w.sent[i]? = some f ∧ f.sender = .alice ∧ f.idx = i ∧
      f.pt = [] := fun i hi => by
    have hget := List.getElem?_eq_getElem (by rw [h.length]; exact hi : i < w.sent.length)
    exact ⟨_, hget, h.frames i _ hget⟩
  obtain ⟨f₂, hf₂, hs₂, hidx₂, hpt₂⟩ := hframe (maxSkip + 2) (by omega)
  obtain ⟨pos₂, s₂, hstep₂, hpos₂, hy₂⟩ := hy₁.deliver_ahead hid had hsec hwrap hf₂ hs₂ hpt₂
    (by omega) (by omega) hrnd₂ cap
  rw [hstep₁, hstep₂]
  -- the skipped messages are one more than the store holds
  obtain ⟨m, hm, hno⟩ := hy₂.exists_not_stored hsec
    (L := List.range maxSkip ++ [maxSkip + 1]) (by
      refine List.nodup_append.mpr ⟨List.nodup_range, List.nodup_singleton _, ?_⟩
      rintro x hx y hy' rfl
      have h1 := List.mem_range.mp hx
      have h2 := List.mem_singleton.mp hy'
      omega) (by simp) (by
      intro x hx
      rcases List.mem_append.mp hx with hx | hx
      · have := List.mem_range.mp hx
        omega
      · have := List.mem_singleton.mp hx
        omega)
  have hmne : m < maxSkip ∨ m = maxSkip + 1 := by
    rcases List.mem_append.mp hm with hm | hm
    · exact .inl (List.mem_range.mp hm)
    · exact .inr (List.mem_singleton.mp hm)
  obtain ⟨f, hf, hs, hidx, hpt⟩ := hframe m (by omega)
  obtain ⟨e, he⟩ := hy₂.refused_of_not_stored hid had hsec hwrap hf hs (by omega)
    (by rw [hidx]; exact hno) hrnd₃ cap
  refine ⟨m, f, e, hf, ?_, ?_, by rw [hpt]; exact Nat.zero_le _, he⟩
  · simp only [World.accept, h.accepted, List.mem_append, List.mem_singleton, List.not_mem_nil,
      false_or]
    omega
  · obtain ⟨k, hp⟩ := hy₂.exists_pending hf
    rw [hs] at hp
    obtain rfl : k = 1 := by
      have h1 := hp.one_le
      have h2 : k ≤ 1 := hp.le
      omega
    have hpass : World.passed E _ .alice (lv₁ 1).kp.pk = pos₂ .bob 1 :=
      (hy₂.pos_cur .bob le_rfl).2.symm
    have hopen : World.acceptedOn E _ .alice (lv₁ 1).kp.pk ≠ [] :=
      hy₂.opened .bob 1 ⟨le_rfl, by decide, by decide⟩
    rw [World.WithinSkip, hs, Sync.FrameAt.chain hp.at_, if_neg hopen, hpass]
    omega

omit [Octet β] [DecidableEq β] [Sodium β] in
/-- Every answer brings the key it ratchets with. -/
theorem ratchetKeys_pings {rnd : Nat → RatchetRand β} {kp : Nat → Keypair β}
    (hrnd : ∀ i, (rnd i).curve = .ok (kp i)) (cap : Nat) (salt : Bytes β) (m : Nat) :
    ratchetKeys (pings rnd cap salt m) = (List.range m).map fun i => (kp i).pk := by
  induction m with
  | zero => rfl
  | succ m ih =>
    rw [pings_succ, ratchetKeys_append, ratchetKeys_append, ih, List.range_succ, List.map_append]
    simp [ratchetKeys, hrnd, Except.toOption]

omit [Octet β] [DecidableEq β] [Sodium β] in
/-- The random input of such a run is as the ratchets expect it. -/
theorem fair_pings {ok : RatchetRand β → Prop} {rnd : Nat → RatchetRand β} (kp : Nat → Keypair β)
    (hok : ∀ i, ok (rnd i)) (hrnd : ∀ i, (rnd i).curve = .ok (kp i))
    (hinj : Function.Injective fun i => (kp i).pk) (hnd : keys.Nodup)
    (hfresh : ∀ i, (kp i).pk ∉ keys) {salt : Bytes β} (hsalt : salt.length = heSaltLen)
    (cap m : Nat) :
    Fair ok keys (pings rnd cap salt m ++ [.send .alice cap [] salt] ++
      [.send .alice cap [] salt]) where
  -- every event of the run is one of the three kinds built here
  salts := by
    intro p c pt salt' hmem
    simp only [pings, List.mem_append, List.mem_flatMap, List.mem_cons, List.not_mem_nil, or_false,
      Event.send.injEq, reduceCtorEq] at hmem
    rcases hmem with (⟨-, -, -, -, -, rfl⟩ | ⟨-, -, -, rfl⟩) | ⟨-, -, -, rfl⟩ <;> exact hsalt
  rands := by
    intro i r c hmem
    simp only [pings, List.mem_append, List.mem_flatMap, List.mem_cons, List.not_mem_nil, or_false,
      Event.deliver.injEq, reduceCtorEq, false_or] at hmem
    obtain ⟨j, -, -, rfl, -⟩ := hmem
    exact hok j
  fresh := by
    rw [ratchetKeys_append, ratchetKeys_append, ratchetKeys_pings hrnd]
    simp only [show ratchetKeys [Event.send .alice cap [] salt] = [] from rfl, List.append_nil]
    refine List.nodup_append.mpr ⟨hnd, List.Nodup.map hinj List.nodup_range, ?_⟩
    rintro x hx y hy rfl
    obtain ⟨i, -, rfl⟩ := List.mem_map.mp hy
    exact hfresh i hx

/-- Every fresh start is a run of no messages. -/
theorem Pinged.start {a b : σ}
    (hy : Sync S id ad sec (World.start a b) keys lv Party.par fun _ _ => 0)
    (hb : (E.base b).skipped = SkipStore.empty) :
    Pinged S id ad sec (World.start a b) keys lv (fun _ _ => 0) 0 := by
  have hlvl : Party.par = oneWay (if 0 = 0 then 0 else 2) := by
    funext q
    cases q <;> rfl
  refine ⟨hlvl ▸ hy, rfl, rfl, fun h => absurd rfl h, ?_, ?_⟩
  · show (E.base b).skipped.view = []
    rw [hb]
    rfl
  · show (E.base b).skipped.lost = []
    rw [hb]
    rfl

/-- A burst begins on a fresh session. -/
theorem Burst.start {a b : σ}
    (hy : Sync S id ad sec (World.start a b) keys lv Party.par fun _ _ => 0)
    (hb : (E.base b).skipped = SkipStore.empty) :
    Burst S id ad sec (World.start a b) keys lv (fun _ _ => 0) 0 := by
  have hlvl : Party.par = oneWay 0 := by
    funext q
    cases q <;> rfl
  exact ⟨hlvl ▸ hy, rfl, fun i f hi => by simp [World.start] at hi, rfl, rfl, hb⟩


/-! ## A conversation -/

omit [Octet β] [Sodium β] in
/-- In a short run every frame is within the skip bounds. -/
theorem World.LogOk.withinSkip (hlog : w.LogOk E) (hlen : w.sent.length ≤ maxSkip) {i : Nat}
    {f : Sent β σ} (hi : w.sent[i]? = some f) : w.WithinSkip E f := by
  have hidx := hlog.idx_lt_total hi
  have htotal := World.total_le_length (E := E) w
  have hf := htotal f.sender (f.chain E)
  rw [World.WithinSkip]
  split_ifs
  · refine ⟨fun _ => ?_, by omega⟩
    have hold := htotal f.sender (E.base (w.st f.sender.peer)).dhr
    omega
  · omega

/-- Of a burst of four, message 0 arrives and then message 3: the keys of the two in between are
kept, and none is lost. -/
theorem Burst.skip_two (hE : E.Shape desc) (h : Burst S id ad sec w keys lv pos 4)
    (hid : AeadUsable β id) (had : ad.length ≤ E.adMax) (hsec : Seeds desc sec)
    {rnd₁ rnd₂ : RatchetRand β} {kp₁ kp₂ : Keypair β} (hrnd₁ : S.RandOk rnd₁ kp₁)
    (hrnd₂ : S.RandOk rnd₂ kp₂) (hfresh : kp₁.pk ∉ keys) (cap : Nat) :
    ∃ lv' pos' s₁ s₂, World.step E desc ad w (.deliver 0 rnd₁ cap) = w.accept .bob s₁ 0 ∧
      World.step E desc ad (w.accept .bob s₁ 0) (.deliver 3 rnd₂ cap) =
        (w.accept .bob s₁ 0).accept .bob s₂ 3 ∧
      Sync S id ad sec ((w.accept .bob s₁ 0).accept .bob s₂ 3) (kp₁.pk :: keys) lv' (oneWay 2)
        pos' ∧
      (E.base s₂).skipped.ent.length = 2 ∧ (E.base s₂).skipped.lost = [] := by
  obtain ⟨lv', pos₁, s₁, hstep₁, -, hpos₁, hy₁⟩ := h.deliver_first hid had hsec (by decide)
    (by decide) (Nat.zero_le _) hrnd₁ hfresh cap
  have hget : ∀ i < 4, ∃ f, w.sent[i]? = some f := fun i hi =>
    ⟨_, List.getElem?_eq_getElem (by rw [h.length]; exact hi)⟩
  obtain ⟨f₀, hf₀⟩ := hget 0 (by decide)
  obtain ⟨f₃, hf₃⟩ := hget 3 (by decide)
  obtain ⟨hs₀, -⟩ := h.frames 0 f₀ hf₀
  obtain ⟨hs₃, hidx₃, hpt₃⟩ := h.frames 3 f₃ hf₃
  have hwrap : ∀ q pk, (w.accept .bob s₁ 0).total E q pk < 2 ^ 32 := fun q pk =>
    (World.total_le_length w q pk).trans_lt (by rw [h.length]; decide)
  have hms : maxSkip = 1000 := rfl
  obtain ⟨pos₂, s₂, hstep₂, hpos₂, hy₂⟩ := hy₁.deliver_ahead hid had hsec hwrap hf₃ hs₃ hpt₃
    (by rw [hpos₁, hidx₃]; decide) (by rw [hpos₁, hidx₃]; decide) hrnd₂ cap
  refine ⟨lv', pos₂, s₁, s₂, hstep₁, hstep₂, hy₂, ?_⟩
  -- the first opens the chain, the second skips two messages of it
  obtain ⟨hhk₁, hne, hnr₁⟩ := hy₁.side_bob hsec
  obtain ⟨hhk₂, -, hnr₂⟩ := hy₂.side_bob hsec
  rw [World.st_accept] at hhk₁ hne hnr₁ hhk₂ hnr₂
  rw [hpos₁] at hnr₁
  rw [hpos₂, hidx₃] at hnr₂
  have hb : BaseAt desc id sec lv 0 (E.base (w.st .bob)) := h.sync.base .bob
  have hckr : (E.base (w.st .bob)).haveCkr = false := hb.haveCkr
  have hempty : (E.base (w.st .bob)).recvSide =
      ⟨SkipStore.empty, none, (E.base (w.st .bob)).nr⟩ := by
    rw [DrState.recvSide, h.skipped, hckr]
    rfl
  obtain ⟨a₁, hfit₁, hside₁⟩ := World.arrival_of_accept hE hf₀ (by rw [hs₀]; exact hstep₁)
  obtain ⟨a₂, hfit₂, hside₂⟩ := @World.arrival_of_accept _ _ _ _ _ _ desc E ad
    (w.accept .bob s₁ 0) hE _ _ _ _ _ hf₃ (by rw [hs₃]; exact hstep₂)
  rw [hs₀, Party.peer, hempty] at hfit₁ hside₁
  rw [hs₃, Party.peer, World.st_accept] at hfit₂ hside₂
  obtain rfl := Arrival.fresh_of hfit₁ hside₁ rfl rfl hnr₁
  obtain ⟨mks, rfl, hlen⟩ := Arrival.same_of (j := 2) hfit₂ hside₂ hhk₂ hne hnr₁ hnr₂
  have hstore₁ : (E.base s₁).skipped = { SkipStore.empty with recvCount := 1 } :=
    congrArg RecvSide.store hside₁
  have hstore₂ : (E.base s₂).skipped = storePostSuccess (storeInsertAll sec.sharedHka
      (E.base s₁).nr mks { SkipStore.empty with recvCount := 1 }) := by
    rw [← hstore₁]
    have hfin : (E.base s₁).recvSide.finished mks =
        storeInsertAll sec.sharedHka (E.base s₁).nr mks (E.base s₁).skipped := by
      rw [RecvSide.finished, hhk₁]
      rfl
    rw [← hfin]
    exact congrArg RecvSide.store hside₂
  obtain ⟨hlost, hclock, hcount, hages⟩ := @storeInsertAll_of_room _ _ _
    { SkipStore.empty with recvCount := 1 } sec.sharedHka (E.base s₁).nr mks (by
      rw [hlen]
      show 0 + 2 ≤ 1000
      decide)
  rw [hstore₂, SkipStore.storePostSuccess_of_young]
  · exact ⟨hcount.trans (by rw [hlen]; rfl), hlost⟩
  · intro e he
    obtain he | he := hages e he
    · cases he
    · rw [hclock, he]
      show (1 : UInt64) + 1 - 1 < 1000
      decide

/-- A burst leaves the receiver, and the sender's skipped keys. -/
theorem Burst.run_kept (h : Burst S id ad sec w keys lv pos 0) (hid : AeadUsable β id)
    (had : ad.length ≤ E.adMax) {cap : Nat} {salt : Bytes β} (hsalt : salt.length = heSaltLen)
    (hcap : RoomFor E id ([] : Bytes β) cap) : ∀ n < 2 ^ 32,
      (w.run E desc ad (List.replicate n (.send .alice cap [] salt))).st .bob = w.st .bob ∧
      (E.base ((w.run E desc ad (List.replicate n (.send .alice cap [] salt))).st .alice)).skipped =
        (E.base (w.st .alice)).skipped := by
  intro n
  induction n with
  | zero => exact fun _ => ⟨rfl, rfl⟩
  | succ n ih =>
    intro hn
    obtain ⟨hbob, halice⟩ := ih (by omega)
    have hb := h.run hid had hsalt hcap n (by omega)
    rw [← hbob, ← halice, List.replicate_succ', World.run_append_singleton]
    obtain ⟨wire, hsend, -⟩ := hb.sync.step_send_eq hid had (p := .alice) le_rfl hsalt hcap
    rw [hsend]
    refine ⟨World.st_produce_of_ne _ (by decide) _ _, ?_⟩
    rw [World.st_produce, E.base_withBase]

end Generic
/-! ## Symbolic runs -/

section Symbolic

variable {desc : SuiteDesc Sym} {E : Engine Sym σ η} {I : IdealSuite desc} {S : EngineSpec E I γ}
  {sec : DrSecrets Sym} {a b : σ} {lv : Nat → Level Sym γ}

/-- The ratchet keys of two parties that have just been set up. -/
abbrev symKeys : List (Bytes Sym) := [(Sym.curvePair 0).pk, (Sym.curvePair 1).pk]

/-- What the receiver of a conversation answers. -/
def reply : Bytes Sym := ascii "received"

/-- A run in which four messages are sent, the first and the last of them arrive in this order, and
the receiver replies. -/
def conversation : List (Event Sym) :=
  List.replicate 4 (.send .alice 8192 [] (zeros 16)) ++ [.deliver 0 (symRand 2) 8192] ++
    [.deliver 3 (symRand 3) 8192] ++ [.send .bob 8192 reply (zeros 16)]

/-- A run of `m + 2` messages of which all but the last two are received at once. -/
def wrapRun (m : Nat) : List (Event Sym) :=
  pings (fun i => symRand (i + 2)) 8192 (zeros 16) m ++
    [.send .alice 8192 [] (zeros 16)] ++ [.send .alice 8192 [] (zeros 16)]

/-- A burst of messages of which two arrive, one past the first `maxSkip` and the last. -/
def evictRun : List (Event Sym) :=
  List.replicate (maxSkip + 3) (.send .alice 8192 [] (zeros 16)) ++
    [.deliver maxSkip (symRand 2) 8192] ++ [.deliver (maxSkip + 2) (symRand 3) 8192]

/-- A burst brings no new key. -/
theorem ratchetKeys_burst (n : Nat) : ratchetKeys
    (List.replicate n (Event.send .alice 8192 [] (zeros 16 : Bytes Sym))) = [] := by
  induction n with
  | zero => rfl
  | succ n ih => simpa only [List.replicate_succ, ratchetKeys, List.filterMap_cons] using ih

/-- Each of these runs feeds the ratchets good random input. -/
theorem fair_burst {ok : RatchetRand Sym → Prop} (n : Nat) :
    Fair ok symKeys (List.replicate n (.send .alice 8192 [] (zeros 16))) where
  salts := by
    intro p c pt salt hmem
    obtain ⟨-, -, -, rfl⟩ := Event.send.inj (List.eq_of_mem_replicate hmem)
    exact length_zeros 16
  rands := by
    intro i r c hmem
    cases List.eq_of_mem_replicate hmem
  fresh := by
    rw [ratchetKeys_burst, List.append_nil]
    exact symRand_pk_nodup

/-- The run that wraps is fair. -/
theorem fair_wrapRun {ok : RatchetRand Sym → Prop} (hok : ∀ n, ok (symRand n)) (m : Nat) :
    Fair ok symKeys (wrapRun m) :=
  fair_pings (fun i => Sym.curvePair (i + 2)) (fun _ => hok _) (fun _ => rfl)
    (symRand_pk_injective 2) symRand_pk_nodup symRand_pk_fresh (length_zeros 16) _ _

/-- A burst of which two messages arrive. -/
theorem fair_twoOfBurst {ok : RatchetRand Sym → Prop} (hok : ∀ n, ok (symRand n)) (n i j : Nat) :
    Fair ok symKeys (List.replicate n (.send .alice 8192 [] (zeros 16)) ++
      [.deliver i (symRand 2) 8192] ++ [.deliver j (symRand 3) 8192]) := by
  have hburst : Fair ok symKeys _ := fair_burst n
  refine ⟨?_, ?_, ?_⟩
  · intro p c pt salt hmem
    simp only [List.mem_append, List.mem_singleton, reduceCtorEq, or_false] at hmem
    exact hburst.salts hmem
  · intro i r c hmem
    simp only [List.mem_append, List.mem_singleton, Event.deliver.injEq] at hmem
    rcases hmem with (hmem | ⟨-, rfl, -⟩) | ⟨-, rfl, -⟩
    · exact hburst.rands hmem
    · exact hok 2
    · exact hok 3
  · rw [ratchetKeys_append, ratchetKeys_append, ratchetKeys_burst]
    show [(Sym.curvePair 0).pk, (Sym.curvePair 1).pk, (Sym.curvePair 2).pk,
      (Sym.curvePair 3).pk].Nodup
    simp only [List.nodup_cons, List.mem_cons, List.not_mem_nil, or_false, not_or,
      List.nodup_nil, not_false_eq_true, and_true]
    exact ⟨⟨symRand_pk_ne (by decide), symRand_pk_ne (by decide), symRand_pk_ne (by decide)⟩,
      ⟨symRand_pk_ne (by decide), symRand_pk_ne (by decide)⟩, symRand_pk_ne (by decide)⟩

/-- So is the run that evicts. -/
theorem fair_evictRun {ok : RatchetRand Sym → Prop} (hok : ∀ n, ok (symRand n)) :
    Fair ok symKeys evictRun := fair_twoOfBurst hok _ _ _

/-- And the conversation. -/
theorem fair_conversation {ok : RatchetRand Sym → Prop} (hok : ∀ n, ok (symRand n)) :
    Fair ok symKeys conversation := by
  have htwo : Fair ok symKeys _ := fair_twoOfBurst hok 4 0 3
  refine ⟨?_, ?_, ?_⟩
  · intro p c pt salt hmem
    rcases List.mem_append.1 hmem with hmem | hmem
    · exact htwo.salts hmem
    · obtain ⟨-, -, -, rfl⟩ := Event.send.inj (List.mem_singleton.1 hmem)
      exact length_zeros 16
  · intro i r c hmem
    rcases List.mem_append.1 hmem with hmem | hmem
    · exact htwo.rands hmem
    · cases List.mem_singleton.1 hmem
  · rw [conversation, ratchetKeys_append]
    exact (List.append_nil (ratchetKeys _)).symm ▸ htwo.fresh

/-- After the conversation: the first and the last message were accepted, and every frame, those
that were skipped and the reply among them, is within the skip bounds and no key was lost. -/
theorem conversation_ready (hE : E.Shape desc)
    (hy : Sync S 1 [] sec (World.start a b) symKeys lv Party.par fun _ _ => 0)
    (ha : (E.base a).skipped = SkipStore.empty) (hb : (E.base b).skipped = SkipStore.empty)
    (hcap : RoomFor E 1 ([] : Bytes Sym) 8192) (hreply : RoomFor E 1 reply 8192)
    (hsec : Seeds desc sec) (hrnd : ∀ n, S.RandOk (symRand n) (Sym.curvePair n)) :
    let w := (World.start a b).run E desc [] conversation
    (∀ q pk, w.total E q pk < 2 ^ 32) ∧ w.accepted = [0, 3] ∧ w.sent.length = 5 ∧
      (∃ f : Sent Sym σ, w.sent[4]? = some f ∧ f.sender = .bob ∧ f.pt = reply ∧
        w.acceptedOn E f.sender (f.chain E) = []) ∧
      (∀ q, (E.base (w.st q)).skipped.lost = []) ∧
      ∀ (i : Nat) (f : Sent Sym σ), w.sent[i]? = some f →
        w.WithinSkip E f ∧ f.pt.length ≤ 8192 := by
  have hstart := Burst.start hy hb
  have hburst := hstart.run aeadUsable_sym (Nat.zero_le _) (length_zeros 16) hcap 4 (by decide)
  obtain ⟨-, halice⟩ := hstart.run_kept aeadUsable_sym (Nat.zero_le _) (length_zeros 16) hcap 4
    (by decide)
  rw [conversation, World.run_append_singleton, World.run_append_singleton,
    World.run_append_singleton]
  generalize (World.start a b).run E desc []
    (List.replicate 4 (.send .alice 8192 [] (zeros 16))) = w₀ at hburst halice ⊢
  obtain ⟨lv', pos', s₁, s₂, hstep₁, hstep₂, hy₂, -, hlost⟩ := hburst.skip_two hE aeadUsable_sym
    (Nat.zero_le _) hsec (hrnd 2) (hrnd 3) (symRand_pk_fresh 0) 8192
  rw [hstep₁, hstep₂]
  generalize hw₂ : (w₀.accept .bob s₁ 0).accept .bob s₂ 3 = w₂ at hy₂ ⊢
  have hsent : w₂.sent = w₀.sent := by rw [← hw₂]; rfl
  have hacc : w₂.accepted = [0, 3] := by
    rw [← hw₂]
    show w₀.accepted ++ [0] ++ [3] = [0, 3]
    rw [hburst.accepted]
    rfl
  have hlen : w₂.sent.length = 4 := by rw [hsent]; exact hburst.length
  obtain ⟨wire, hsend, -⟩ := hy₂.step_send_eq aeadUsable_sym (Nat.zero_le _) (p := .bob)
    (show 1 ≤ 2 by decide) (length_zeros 16) hreply
  have hlen' : (World.step E desc [] w₂ (.send .bob 8192 reply (zeros 16))).sent.length = 5 := by
    rw [hsend, World.produce, List.length_append, hlen]
    rfl
  have hwrap : ∀ q pk, (World.step E desc [] w₂ (.send .bob 8192 reply (zeros 16))).total E q pk <
      2 ^ 32 := fun q pk => (World.total_le_length _ q pk).trans_lt (by rw [hlen']; decide)
  have hlog := (hy₂.step_send aeadUsable_sym (Nat.zero_le _) .bob 8192 reply (length_zeros 16)
    hwrap).log
  intro w
  change w.LogOk E at hlog
  change w.sent.length = 5 at hlen'
  change w = _ at hsend
  -- a frame of the run is one of the burst, or the reply
  have hframe : ∀ (i : Nat) (f : Sent Sym σ), w.sent[i]? = some f →
      (w₀.sent[i]? = some f ∧ i < 4) ∨ (i = 4 ∧ f.sender = .bob ∧ f.pt = reply) := by
    intro i f hi
    rw [hsend, World.produce] at hi
    rcases Nat.lt_or_ge i w₂.sent.length with hlt | hge
    · rw [List.getElem?_append_left hlt, hsent] at hi
      exact .inl ⟨hi, hlen ▸ hlt⟩
    · have hle := (List.getElem?_eq_some_iff.1 hi).1
      rw [List.length_append, List.length_singleton] at hle
      obtain rfl : i = w₂.sent.length := by omega
      rw [List.getElem?_concat_length] at hi
      obtain rfl := Option.some.inj hi
      exact .inr ⟨hlen, rfl, rfl⟩
  have hkept : ∀ q, (E.base (w.st q)).skipped.lost = [] := by
    intro q
    cases q with
    | alice =>
      have hst : w.st .alice = w₀.st .alice := by
        rw [hsend, ← hw₂]
        simp [World.produce, World.accept]
      rw [hst, halice]
      exact congrArg SkipStore.lost ha
    | bob =>
      rw [hsend, World.st_produce, E.base_withBase, ← hw₂, World.st_accept]
      exact hlost
  have hacc' : w.accepted = [0, 3] := by
    rw [hsend]
    exact hacc
  refine ⟨hwrap, hacc', hlen', ?_, hkept,
    fun i f hi => ⟨hlog.withinSkip (by rw [hlen']; decide) hi, ?_⟩⟩
  · obtain ⟨f, hf⟩ : ∃ f, w.sent[4]? = some f :=
      ⟨_, List.getElem?_eq_getElem (by rw [hlen']; decide)⟩
    obtain ⟨-, hlt⟩ | ⟨-, hs, hpt⟩ := hframe 4 f hf
    · exact absurd hlt (by decide)
    refine ⟨f, hf, hs, hpt, List.eq_nil_iff_forall_not_mem.2 fun g hg => ?_⟩
    -- only frames of the burst were accepted
    obtain ⟨⟨i, hi, hget⟩, hon, -⟩ := World.mem_acceptedOn.1 hg
    rw [hacc'] at hi
    obtain ⟨hget₀, -⟩ | ⟨rfl, -⟩ := hframe i g hget
    · rw [hs, (hburst.frames i g hget₀).1] at hon
      cases hon
    · simp at hi
  · obtain ⟨hget₀, -⟩ | ⟨-, -, hpt⟩ := hframe i f hi
    · rw [(hburst.frames i f hget₀).2.2]
      exact Nat.zero_le _
    · rw [hpt]
      decide

/-- No symbolic tag is all zeros. -/
theorem gyAeadDecrypt_zeros (cap : Nat) (key nonce ad : Bytes Sym) :
    ∃ e, gyAeadDecrypt 1 cap key nonce ad (zeros 16) = .error e := by
  have hne : ¬ (zeros 16 : Bytes Sym) = Sym.tag key nonce ad [] 16 := by
    intro heq
    have hhead := congrArg List.head? heq
    rw [Sym.tag, Sym.head?_prim _ _ (by decide)] at hhead
    cases hhead
  have hnone : Sodium.aeadDecrypt .chacha20poly1305 key nonce ad (zeros 16 : Bytes Sym) = none :=
    if_neg hne
  rw [gyAeadDecrypt, show aeadAlg 1 = some .chacha20poly1305 from rfl]
  simp only [hnone]
  split_ifs
  all_goals exact ⟨_, rfl⟩

/-- A burst of which the last message arrives with a zeroed tag. -/
theorem burst_tampered
    (hy : Sync S 1 [] sec (World.start a b) symKeys lv Party.par fun _ _ => 0)
    (hb : (E.base b).skipped = SkipStore.empty) (hcap : RoomFor E 1 ([] : Bytes Sym) 8192)
    (hsec : Seeds desc sec) (hrnd : ∀ n, S.RandOk (symRand n) (Sym.curvePair n)) :
    let w := (World.start a b).run E desc [] (List.replicate 4 (.send .alice 8192 [] (zeros 16)))
    (E.base (w.st .bob)).haveCkr = false ∧
    ∃ f s₁ e, w.sent[3]? = some f ∧
      E.Stages desc (symRand 2) (withTag f.wire (zeros 16)) [] (w.st .bob) s₁ ∧
      (E.base s₁).haveCkr = true ∧ (E.base s₁).nr = 3 ∧
      (E.decryptAssoc desc (symRand 2) 8192 (withTag f.wire (zeros 16)) [] (w.st .bob)).1.1 =
        .error e :=
  ((Burst.start hy hb).run aeadUsable_sym (Nat.zero_le _) (length_zeros 16) hcap 4
    (by decide)).tampered_refused aeadUsable_sym (Nat.zero_le _) hsec (by decide) (by decide)
    (by decide) (hrnd 2) (length_zeros 16) gyAeadDecrypt_zeros 8192

/-- The last message of a run that wraps the counter, delivered before the one it skips. -/
theorem wrapRun_refused
    (hy : Sync S 1 [] sec (World.start a b) symKeys lv Party.par fun _ _ => 0)
    (hb : (E.base b).skipped = SkipStore.empty) (hcap : RoomFor E 1 ([] : Bytes Sym) 8192)
    (hsec : Seeds desc sec) (hrnd : ∀ n, S.RandOk (symRand n) (Sym.curvePair n)) {m M : Nat}
    (hm : 0 < m) (hlt : m < 2 ^ 32) (hmM : m + 1 = M) (hM : UInt32.ofNat M = 0)
    (rnd : RatchetRand Sym) :
    let w := (World.start a b).run E desc [] (wrapRun m)
    ∃ f e, w.sent[M]? = some f ∧ M ∉ w.accepted ∧ w.WithinSkip E f ∧
      f.msgKey E desc ∉ (E.base (w.st f.sender.peer)).skipped.lost ∧ f.pt.length ≤ 8192 ∧
      (E.decryptAssoc desc rnd 8192 f.wire [] (w.st f.sender.peer)).1.1 = .error e := by
  obtain ⟨keys, lv', pos', hp, -⟩ := (Pinged.start hy hb).run aeadUsable_sym (Nat.zero_le _) hsec
    (length_zeros 16) hcap (fun i => hrnd (i + 2)) (symRand_pk_injective 2) symRand_pk_fresh m hlt
  rw [wrapRun, World.run_append_singleton, World.run_append_singleton]
  exact hp.wrap_refused aeadUsable_sym (Nat.zero_le _) hsec hm hlt hmM hM (length_zeros 16) hcap rnd

/-- One of the messages skipped in `evictRun`. -/
theorem evictRun_refused
    (hy : Sync S 1 [] sec (World.start a b) symKeys lv Party.par fun _ _ => 0)
    (hb : (E.base b).skipped = SkipStore.empty) (hcap : RoomFor E 1 ([] : Bytes Sym) 8192)
    (hsec : Seeds desc sec) (hrnd : ∀ n, S.RandOk (symRand n) (Sym.curvePair n)) :
    let w := (World.start a b).run E desc [] evictRun
    ∃ i f e, w.sent[i]? = some f ∧ i ∉ w.accepted ∧ w.WithinSkip E f ∧ f.pt.length ≤ 8192 ∧
      (E.decryptAssoc desc (symRand 4) 8192 f.wire [] (w.st f.sender.peer)).1.1 = .error e := by
  have hburst := (Burst.start hy hb).run aeadUsable_sym (Nat.zero_le _) (length_zeros 16) hcap
    (maxSkip + 3) (by decide)
  rw [evictRun, World.run_append_singleton, World.run_append_singleton]
  exact hburst.evicted_refused aeadUsable_sym (Nat.zero_le _) hsec (hrnd 2) (hrnd 3) (hrnd 4)
    (symRand_pk_fresh 0) 8192

end Symbolic

end Geryon
