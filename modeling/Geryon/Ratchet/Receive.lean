import Geryon.Ratchet.Frame

/-!
# Receiving a genuine frame

What `decryptAssoc` does with a sealed frame on a session at a known level: the skipped-key trials
find exactly the stored key of the frame's position, and the chain path reaches the position when
the jump is allowed.
-/

namespace Geryon

variable {β σ η γ : Type} [Octet β] [Sodium β]

/-- The keys of the positions `a, …, a + j - 1` of a chain, under its header key. -/
def keysFrom (desc : SuiteDesc β) (hk ck : Bytes β) (a j : Nat) : List (SkipStore.Held β) :=
  (List.range j).map fun i => ⟨hk, UInt32.ofNat (a + i), messageKey desc (chainKey desc ck (a + i))⟩

omit [Sodium β] in
theorem keysFrom_succ (desc : SuiteDesc β) (hk ck : Bytes β) (a j : Nat) :
    keysFrom desc hk ck a (j + 1) =
      ⟨hk, UInt32.ofNat a, messageKey desc (chainKey desc ck a)⟩ ::
        keysFrom desc hk ck (a + 1) j := by
  simp only [keysFrom, List.range_succ_eq_map, List.map_cons, List.map_map, Nat.add_zero]
  congr 1
  apply List.map_congr_left
  intro i _
  simp only [Function.comp, Nat.succ_eq_add_one]
  rw [show a + (i + 1) = a + 1 + i by omega]

omit [Sodium β] in
theorem mem_keysFrom {desc : SuiteDesc β} {hk ck : Bytes β} {a j : Nat} {x : SkipStore.Held β} :
    x ∈ keysFrom desc hk ck a j ↔ ∃ n, a ≤ n ∧ n < a + j ∧
      x = ⟨hk, UInt32.ofNat n, messageKey desc (chainKey desc ck n)⟩ := by
  simp only [keysFrom, List.mem_map, List.mem_range]
  constructor
  · rintro ⟨i, hi, rfl⟩
    exact ⟨a + i, by omega, by omega, rfl⟩
  · rintro ⟨n, han, hn, rfl⟩
    exact ⟨n - a, by omega, by rw [Nat.add_sub_cancel' han]⟩

variable [DecidableEq β]

section Skip

variable {desc : SuiteDesc β} (I : IdealSuite desc)
include I

/-- The skip loop walks the chain and stores every key it passes. -/
theorem skipMany_spec (hk ck : Bytes β) (j : Nat) : ∀ (a : Nat) (c : RecvChain β), c.store.Inv →
    c.ck = chainKey desc ck a → c.nr = UInt32.ofNat a →
    ∃ t, skipMany desc hk j c =
        (.ok (), ⟨t, chainKey desc ck (a + j), UInt32.ofNat (a + j)⟩) ∧ t.Inv ∧
      c.store.Grows (keysFrom desc hk ck a j) t := by
  -- on the number of keys to skip, the chain position moving along
  induction j with
  | zero =>
    rintro a ⟨store, ck', nr⟩ hinv rfl rfl
    exact ⟨store, rfl, hinv, SkipStore.Grows.refl store⟩
  | succ j ih =>
    rintro a ⟨store, ck', nr⟩ hinv rfl rfl
    obtain ⟨hck, -, -⟩ := I.works.gyDrcKdfCk_eq (chainKey desc ck a)
    -- one step derives the key at `a` and moves to `a + 1`
    have hone : skipOne desc hk ⟨store, chainKey desc ck a, UInt32.ofNat a⟩ =
        (.ok (), ⟨storeInsert store hk (UInt32.ofNat a) (messageKey desc (chainKey desc ck a)),
          chainKey desc ck (a + 1), UInt32.ofNat (a + 1)⟩) := by
      simp [skipOne, hck, chainKey_succ, UInt32.ofNat_add]
    have hgrow := SkipStore.grows_storeInsert hinv hk (UInt32.ofNat a)
      (messageKey desc (chainKey desc ck a))
    have hinv' := SkipStore.inv_storeInsert hinv hk (UInt32.ofNat a)
      (messageKey desc (chainKey desc ck a))
    generalize storeInsert store hk (UInt32.ofNat a) (messageKey desc (chainKey desc ck a)) = store'
      at hone hgrow hinv'
    obtain ⟨t, ht, htinv, htgrow⟩ :=
      ih (a + 1) ⟨store', chainKey desc ck (a + 1), UInt32.ofNat (a + 1)⟩ hinv' rfl rfl
    refine ⟨t, ?_, htinv, ?_⟩
    · rw [skipMany, Cmd.bind_apply_of_ok hone, ht, show a + 1 + j = a + (j + 1) by omega]
    · rw [keysFrom_succ]
      exact hgrow.trans htgrow

variable (E : Engine β σ η)

/-- `gy_drc_skip_forward` on a session whose receiving chain stands at position `a`. -/
theorem skipForward_spec (ck hk : Bytes β) {s : σ} {a to_ : Nat} (ha : a ≤ to_)
    (hto : to_ < 2 ^ 32) (hinv : (E.base s).skipped.Inv) (hck : (E.base s).ckr = chainKey desc ck a)
    (hnr : (E.base s).nr = UInt32.ofNat a) :
    ∃ t, E.skipForward desc (UInt32.ofNat to_) hk s =
        (.ok (), E.withBase
          ((E.base s).withRecv ⟨t, chainKey desc ck to_, UInt32.ofNat to_⟩) s) ∧ t.Inv ∧
      (E.base s).skipped.Grows (keysFrom desc hk ck a (to_ - a)) t := by
  obtain ⟨t, ht, htinv, hgrow⟩ := skipMany_spec I hk ck (to_ - a) a
    (E.base s).recv hinv hck hnr
  rw [Nat.add_sub_cancel' ha] at ht
  refine ⟨t, ?_, htinv, hgrow⟩
  have hto' : (UInt32.ofNat to_).toNat = to_ := by
    rw [UInt32.toNat_ofNat']
    exact Nat.mod_eq_of_lt hto
  have ha' : (UInt32.ofNat a).toNat = a := by
    rw [UInt32.toNat_ofNat']
    exact Nat.mod_eq_of_lt (by omega)
  have hnr' : (E.base s).recv.nr.toNat = a := by rw [← ha', ← hnr]; rfl
  simp only [Engine.skipForward, Cmd.zoom_apply, gyDrcSkipForward, hnr', hto', ht]

end Skip

section Receive

variable {desc : SuiteDesc β} {E : Engine β σ η} {I : IdealSuite desc} (S : EngineSpec E I γ)
  {id : UInt8} (hid : AeadUsable β id) {ad : Bytes β} {sec : DrSecrets β} {lv : Nat → Level β γ}
  {k n : Nat} {pn : UInt32} {pt wire : Bytes β} {h : η} {hdrp salt enc ct : Bytes β}
include hid

omit hid [DecidableEq β] in
/-- Without stored keys no slot is tried. -/
theorem trialSlots_of_dead {b : DrState β} (hdead : ∀ i, (b.skipped.epochs i).refs = 0)
    (fr : WireFrame β) (cap : Nat) (slots : List Nat) :
    E.trialSlots desc b fr cap slots = (false, .miss) := by
  induction slots with
  | nil => rfl
  | cons i rest ih => rw [Engine.trialSlots, if_pos (hdead i), ih]

/-- The trials over a list of slots come down to the first live slot with the frame's header key. -/
theorem trialSlots_sealed (hg : I.genuine (lv k).kp) {b : DrState β} (hb : b.aeadId = id)
    (hs : SealedWith S id ad sec lv k n pn pt wire h hdrp salt enc ct)
    (hlen : (Schedule.hk sec lv k).length = 32)
    (hlive : ∀ i, (b.skipped.epochs i).refs ≠ 0 → (b.skipped.epochs i).hk.length = 32)
    (cap : Nat) (slots : List Nat) :
    (E.trialSlots desc b (frameOf desc ad salt enc ct) cap slots).2 =
      match slots.find? fun i => (b.skipped.epochs i).refs ≠ 0 ∧
        (b.skipped.epochs i).hk = Schedule.hk sec lv k with
      | none => .miss
      | some i =>
        Engine.trialEntry desc b (frameOf desc ad salt enc ct) cap i (UInt32.ofNat n) := by
  induction slots with
  | nil => rfl
  | cons i rest ih =>
    rw [Engine.trialSlots]
    -- an epoch no stored key refers to is passed over
    by_cases hrefs : (b.skipped.epochs i).refs = 0
    · simp only [hrefs, if_true]
      rw [ih, List.find?_cons_of_neg (by simp [hrefs])]
    · rw [if_neg hrefs]
      have hopen := openHeader_sealed S hid hg hb hs hlen (hlive i hrefs)
      -- its header key opens the frame exactly when it is the frame's own
      by_cases hk : (b.skipped.epochs i).hk = Schedule.hk sec lv k
      · rw [hopen.1 hk, List.find?_cons_of_pos (by simp [hrefs, hk])]
        simp [decode_sealed S hg hs, hs.n_eq]
      · obtain ⟨e, he⟩ := hopen.2 hk
        rw [he, List.find?_cons_of_neg (by simp [hk])]
        exact ih

/-- The trials find the stored key of the frame's position, if it is stored. -/
theorem trial_sealed (hg : I.genuine (lv k).kp) {b : DrState β} (hb : b.aeadId = id)
    (hs : SealedWith S id ad sec lv k n pn pt wire h hdrp salt enc ct)
    (hlen : (Schedule.hk sec lv k).length = 32) (hinv : b.skipped.Inv)
    (hview : ∀ x ∈ b.skipped.view, x.hk.length = 32 ∧
      (x.hk = Schedule.hk sec lv k → x.n = UInt32.ofNat n →
        x.msgKey = messageKey desc (chainKey desc (lv k).ck n))) (cap : Nat) :
    (∃ i, b.skipped.view[i]? = some ⟨Schedule.hk sec lv k, UInt32.ofNat n,
        messageKey desc (chainKey desc (lv k).ck n)⟩ ∧
      (E.trialSlots desc b (frameOf desc ad salt enc ct) cap (List.range maxSkip)).2 =
        if pt.length ≤ cap then .hit i pt else .miss) ∨
    ((∀ x ∈ b.skipped.view, x.hk = Schedule.hk sec lv k → x.n ≠ UInt32.ofNat n) ∧
      (E.trialSlots desc b (frameOf desc ad salt enc ct) cap (List.range maxSkip)).2 = .miss) := by
  have hlive : ∀ i, (b.skipped.epochs i).refs ≠ 0 → (b.skipped.epochs i).hk.length = 32 := by
    intro i hi
    obtain ⟨e, he, rfl⟩ := hinv.exists_entry hi
    exact (hview _ (List.mem_map_of_mem he)).1
  rw [trialSlots_sealed S hid hg hb hs hlen hlive]
  rcases hfind : (List.range maxSkip).find? (fun i => (b.skipped.epochs i).refs ≠ 0 ∧
      (b.skipped.epochs i).hk = Schedule.hk sec lv k) with _ | slot
  · right
    refine ⟨?_, rfl⟩
    rw [List.find?_eq_none] at hfind
    intro x hx hxk
    obtain ⟨e, he, rfl⟩ := List.mem_map.mp hx
    have hpos := (hinv.refs_pos he).ne'
    have hno := hfind e.epoch (List.mem_range.mpr (hinv.slot_lt e he))
    simp only [ne_eq, decide_eq_true_eq, not_and] at hno
    exact absurd hxk (hno hpos)
  · have hslot := List.find?_some hfind
    simp only [ne_eq, decide_eq_true_eq] at hslot
    -- an entry stands for the frame's position exactly when it is in that slot under that number
    have hiff : ∀ e ∈ b.skipped.ent, (b.skipped.held e).hk = Schedule.hk sec lv k ↔
        e.epoch = slot := by
      intro e he
      constructor
      · intro hk
        exact hinv.hk_inj _ _ (hinv.refs_pos he).ne' hslot.1 (hk.trans hslot.2.symm)
      · rintro rfl
        exact hslot.2
    simp only [Engine.trialEntry]
    rcases hidx : b.skipped.ent.findIdx? (fun e => e.epoch = slot ∧ e.n = UInt32.ofNat n) with _ | i
    · right
      refine ⟨?_, by simp only [hidx]⟩
      rw [List.findIdx?_eq_none_iff] at hidx
      intro x hx hxk hxn
      obtain ⟨e, he, rfl⟩ := List.mem_map.mp hx
      simpa [(hiff e he).mp hxk, show e.n = UInt32.ofNat n from hxn] using hidx e he
    · left
      obtain ⟨hi, hei, -⟩ := List.findIdx?_eq_some_iff_getElem.mp hidx
      simp only [decide_eq_true_eq] at hei
      have hmem : b.skipped.ent[i] ∈ b.skipped.ent := List.getElem_mem hi
      have hk := (hiff _ hmem).mpr hei.1
      have hmk := (hview _ (List.mem_map_of_mem hmem)).2 hk hei.2
      have hheld : b.skipped.held b.skipped.ent[i] = ⟨Schedule.hk sec lv k, UInt32.ofNat n,
          messageKey desc (chainKey desc (lv k).ck n)⟩ := by
        rw [← hk, ← hei.2, ← hmk]
        rfl
      refine ⟨i, ?_, ?_⟩
      · rw [SkipStore.view, List.getElem?_map, List.getElem?_eq_getElem hi, Option.map_some, hheld]
      · have hopen := openPayload_sealed S hid hb hs cap
        have hmk' : (b.skipped.ent[i]).msgKey = _ := hmk
        simp only [hidx, List.getElem?_eq_getElem hi, hmk']
        simp only [Engine.openPayload, bind, Except.bind] at hopen
        rcases hder : gyDrcDeriveAead desc (messageKey desc (chainKey desc (lv k).ck n)) b.aeadId
            (UInt32.ofNat n) with e | ⟨key, nonce⟩
        · obtain ⟨_, key, nonce, hder', -⟩ := hs.payload
          rw [hb, hder'] at hder
          cases hder
        · simp only [hder] at hopen ⊢
          rw [hopen]
          split_ifs <;> rfl

/-! ## The chain path -/

/-- Where the receiving chain of a session stands: position `a` of the chain that starts with `ck`,
with `t` as the skipped keys. -/
structure StandsAt (desc : SuiteDesc β) (id : UInt8) (b : DrState β) (ck : Bytes β) (a : Nat) :
    Prop where
  aeadId : b.aeadId = id
  ckr : b.ckr = chainKey desc ck a
  nr : b.nr = UInt32.ofNat a
  skipped : b.skipped.Inv

omit [DecidableEq β] in
/-- With the chain at the frame's position, the payload opens if the buffer holds it. -/
theorem consume_sealed {s : σ} (hat : StandsAt desc id (E.base s) (lv k).ck n)
    (hs : SealedWith S id ad sec lv k n pn pt wire h hdrp salt enc ct) (cap : Nat) :
    (pt.length ≤ cap → E.consume desc (frameOf desc ad salt enc ct) cap (UInt32.ofNat n) s =
        (.ok pt, E.withBase ((E.base s).withRecv ⟨storePostSuccess (E.base s).skipped,
          chainKey desc (lv k).ck (n + 1), UInt32.ofNat (n + 1)⟩) s)) ∧
      (¬ pt.length ≤ cap → ∃ s',
        E.consume desc (frameOf desc ad salt enc ct) cap (UInt32.ofNat n) s =
          (.error .arg, s')) := by
  obtain ⟨hck, -, -⟩ := I.works.gyDrcKdfCk_eq (chainKey desc (lv k).ck n)
  have hopen := openPayload_sealed S hid hat.aeadId hs cap
  constructor
  · intro hcap
    rw [if_pos hcap] at hopen
    simp [Engine.consume, DrState.withRecv, hat.ckr, hck, hopen, hat.nr, chainKey_succ,
      UInt32.ofNat_add]
  · intro hcap
    rw [if_neg hcap] at hopen
    simp [Engine.consume, hat.ckr, hck, hopen]

omit hid in
/-- A jump of a header on the current chain: refused when it goes back or too far, otherwise the
chain moves to the header's number and the keys in between are stored. -/
theorem reach_same (I : IdealSuite desc) {s : σ} (hb : BaseAt desc id sec lv (k + 1) (E.base s))
    (hk1 : 1 ≤ k)
    (hn : n < 2 ^ 32) (hpk : E.ratchetPk h = (lv k).kp.pk) (hhn : E.n h = UInt32.ofNat n)
    (rnd : RatchetRand β) :
    ((E.base s).nr.toNat ≤ n ∧ n - (E.base s).nr.toNat ≤ maxSkip →
      ∃ t, E.reach desc rnd h s = (.ok (), E.withBase
          ((E.base s).withRecv ⟨t, chainKey desc (lv k).ck n, UInt32.ofNat n⟩) s) ∧ t.Inv ∧
        (E.base s).skipped.Grows (keysFrom desc (Schedule.hk sec lv k) (lv k).ck
          (E.base s).nr.toNat (n - (E.base s).nr.toNat)) t) ∧
    (¬ ((E.base s).nr.toNat ≤ n ∧ n - (E.base s).nr.toNat ≤ maxSkip) →
      ∃ e, E.reach desc rnd h s = (.error e, s)) := by
  have hnn : (UInt32.ofNat n).toNat = n := by
    rw [UInt32.toNat_ofNat']
    exact Nat.mod_eq_of_lt hn
  -- the header repeats the remote key, so the chain in use goes on
  have hcond : (!(E.base s).haveDhr || decide (E.ratchetPk h ≠ (E.base s).dhr)) = false := by
    simp [hb.haveDhr, hpk, hb.dhr (by omega)]
  have hckr : (E.base s).haveCkr = true := by simp [hb.haveCkr]; omega
  have hlt : UInt32.ofNat n < (E.base s).nr ↔ n < (E.base s).nr.toNat := by
    rw [UInt32.lt_iff_toNat_lt, hnn]
  have hreach : E.reach desc rnd h s = E.sameRemote desc h s := by
    simp only [Engine.reach, Cmd.get_bind_apply, hcond]
    rfl
  constructor
  · rintro ⟨hge, hle⟩
    have hsub : (UInt32.ofNat n - (E.base s).nr).toNat = n - (E.base s).nr.toNat := by
      rw [UInt32.toNat_sub_of_le _ _ (by rw [UInt32.le_iff_toNat_le, hnn]; exact hge), hnn]
    obtain ⟨t, ht, htinv, hgrow⟩ := skipForward_spec I E (lv k).ck (E.base s).hkr hge hn hb.skipped
      (hb.ckr (by omega)) (by rw [UInt32.ofNat_toNat])
    have hhkr : (E.base s).hkr = Schedule.hk sec lv k := hb.hkr (by omega)
    refine ⟨t, ?_, htinv, hhkr ▸ hgrow⟩
    rw [hreach]
    simp [Engine.sameRemote, hckr, hhn, hlt, hsub, Nat.not_lt.mpr hge, Nat.not_lt.mpr hle, ht]
  · intro hbad
    rw [hreach]
    -- behind the chain: refused as a replay; too far ahead: refused by the limit
    by_cases hback : n < (E.base s).nr.toNat
    · exact ⟨.verify, by simp [Engine.sameRemote, hckr, hhn, hlt, hback]⟩
    · have hsub : (UInt32.ofNat n - (E.base s).nr).toNat = n - (E.base s).nr.toNat := by
        rw [UInt32.toNat_sub_of_le _ _ (by rw [UInt32.le_iff_toNat_le, hnn]; omega), hnn]
      have hfar : maxSkip < n - (E.base s).nr.toNat := by omega
      exact ⟨.state, by simp [Engine.sameRemote, hckr, hhn, hlt, hback, hsub, hfar]⟩

omit hid in
/-- Finishing the old chain stores its remaining keys and leaves the session at its level. -/
theorem finishOld_spec (I : IdealSuite desc) {r pnN : Nat} {s : σ}
    (hb : BaseAt desc id sec lv r (E.base s)) (hpn : pnN < 2 ^ 32)
    (hhpn : E.pn h = UInt32.ofNat pnN) (hge : 2 ≤ r → (E.base s).nr.toNat ≤ pnN) :
    ∃ b₁, E.finishOld desc h s = (.ok (), E.withBase b₁ s) ∧ BaseAt desc id sec lv r b₁ ∧
      (∀ (mid new : Level β γ) (c : RecvChain β),
        (ratcheted b₁ mid new).withRecv c = (ratcheted (E.base s) mid new).withRecv c) ∧
      (E.base s).skipped.Grows (if 2 ≤ r then keysFrom desc (Schedule.hk sec lv (r - 1))
        (lv (r - 1)).ck (E.base s).nr.toNat (pnN - (E.base s).nr.toNat) else []) b₁.skipped := by
  -- only a party that has a receiving chain has one to finish
  by_cases hr : 2 ≤ r
  · have hckr : (E.base s).haveCkr = true := by simp [hb.haveCkr, hr]
    obtain ⟨t, ht, htinv, hgrow⟩ := skipForward_spec I E (lv (r - 1)).ck (E.base s).hkr (hge hr) hpn
      hb.skipped (hb.ckr hr) (by rw [UInt32.ofNat_toNat])
    refine ⟨(E.base s).withRecv ⟨t, chainKey desc (lv (r - 1)).ck pnN, UInt32.ofNat pnN⟩, ?_, ?_,
      fun _ _ _ => rfl, ?_⟩
    · simp only [Engine.finishOld, Cmd.get_bind_apply, hckr, if_true, hhpn]
      exact ht
    · refine { hb with ckr := fun _ => ?_, skipped := htinv }
      show chainKey desc (lv (r - 1)).ck pnN =
        chainKey desc (lv (r - 1)).ck (UInt32.ofNat pnN).toNat
      rw [UInt32.toNat_ofNat', Nat.mod_eq_of_lt hpn]
    · rw [if_pos hr, ← hb.hkr hr]
      exact hgrow
  · have hckr : (E.base s).haveCkr = false := by simp [hb.haveCkr]; omega
    refine ⟨E.base s, ?_, hb, fun _ _ _ => rfl, ?_⟩
    · simp [Engine.finishOld, hckr]
    · rw [if_neg hr]
      exact SkipStore.Grows.refl _

omit hid in
/-- The ratchet step and the walk on the new chain. -/
theorem startNew_spec {r : Nat} {s : σ} {rnd : RatchetRand β} {kp : Keypair β}
    (hb : BaseAt desc id sec lv r (E.base s)) (hx : S.Ext lv r s) (hlink : S.Link lv r)
    (hh : S.Hdr lv (r + 1) h) (hpk : E.ratchetPk h = (lv (r + 1)).kp.pk)
    (hg : I.genuine (lv (r + 1)).kp) (hrnd : S.RandOk rnd kp) (hn : n < 2 ^ 32)
    (hhn : E.n h = UInt32.ofNat n) :
    ∃ s₁ new t, E.startNew desc rnd h s = (.ok (), s₁) ∧ new.kp = kp ∧
      E.base s₁ = (ratcheted (E.base s) (lv (r + 1)) new).withRecv
        ⟨t, chainKey desc (lv (r + 1)).ck n, UInt32.ofNat n⟩ ∧ t.Inv ∧
      (E.base s).skipped.Grows
        (keysFrom desc (Schedule.hk sec lv (r + 1)) (lv (r + 1)).ck 0 n) t ∧
      S.Link (Function.update lv (r + 2) new) (r + 1) ∧
      S.Ext (Function.update lv (r + 2) new) (r + 2) s₁ := by
  obtain ⟨s', new, hstep, hkp, hbase, hlink', hx'⟩ := S.ratchet hb hx hlink hh hpk hg hrnd
  have hskip : (E.base s').skipped = (E.base s).skipped := by rw [hbase]; rfl
  have hhkr : (E.base s').hkr = Schedule.hk sec lv (r + 1) := by rw [hbase]; exact hb.nhkr
  obtain ⟨t, ht, htinv, hgrow⟩ := skipForward_spec I E (lv (r + 1)).ck (E.base s').hkr
    (Nat.zero_le n) hn (by rw [hskip]; exact hb.skipped) (by rw [hbase]; rfl) (by rw [hbase]; rfl)
  refine ⟨E.withBase ((E.base s').withRecv ⟨t, chainKey desc (lv (r + 1)).ck n, UInt32.ofNat n⟩) s',
    new, t, ?_, hkp, ?_, htinv, ?_, hlink', S.ext_withBase _ hx'⟩
  · rw [Engine.startNew, Cmd.bind_apply_of_ok hstep, Cmd.get_bind_apply, hhn]
    exact ht
  · rw [E.base_withBase, hbase]
  · rw [hskip, hhkr, Nat.sub_zero] at hgrow
    exact hgrow

omit hid in
/-- A jump to a new chain: refused when either jump is too far, otherwise the old chain is finished,
the session ratchets up two levels and the new chain moves to the header's number. -/
theorem reach_new {r pnN : Nat} {s : σ} {rnd : RatchetRand β} {kp : Keypair β}
    (hb : BaseAt desc id sec lv r (E.base s)) (hx : S.Ext lv r s) (hlink : S.Link lv r)
    (hh : S.Hdr lv (r + 1) h) (hpk : E.ratchetPk h = (lv (r + 1)).kp.pk)
    (hfresh : 1 ≤ r → (lv (r + 1)).kp.pk ≠ (lv (r - 1)).kp.pk)
    (hg : I.genuine (lv (r + 1)).kp) (hrnd : S.RandOk rnd kp) (hn : n < 2 ^ 32)
    (hhn : E.n h = UInt32.ofNat n) (hpn : pnN < 2 ^ 32) (hhpn : E.pn h = UInt32.ofNat pnN) :
    (((2 ≤ r → (E.base s).nr.toNat ≤ pnN ∧ pnN - (E.base s).nr.toNat ≤ maxSkip) ∧ n ≤ maxSkip) →
      ∃ s₁ new t, E.reach desc rnd h s = (.ok (), s₁) ∧ new.kp = kp ∧
        E.base s₁ = (ratcheted (E.base s) (lv (r + 1)) new).withRecv
          ⟨t, chainKey desc (lv (r + 1)).ck n, UInt32.ofNat n⟩ ∧ t.Inv ∧
        (E.base s).skipped.Grows
          ((if 2 ≤ r then keysFrom desc (Schedule.hk sec lv (r - 1)) (lv (r - 1)).ck
              (E.base s).nr.toNat (pnN - (E.base s).nr.toNat) else []) ++
            keysFrom desc (Schedule.hk sec lv (r + 1)) (lv (r + 1)).ck 0 n) t ∧
        S.Link (Function.update lv (r + 2) new) (r + 1) ∧
        S.Ext (Function.update lv (r + 2) new) (r + 2) s₁) ∧
    (¬ ((2 ≤ r → (E.base s).nr.toNat ≤ pnN ∧ pnN - (E.base s).nr.toNat ≤ maxSkip) ∧
        n ≤ maxSkip) → ∃ e, E.reach desc rnd h s = (.error e, s)) := by
  have hnn : (UInt32.ofNat n).toNat = n := by
    rw [UInt32.toNat_ofNat']
    exact Nat.mod_eq_of_lt hn
  have hpp : (UInt32.ofNat pnN).toNat = pnN := by
    rw [UInt32.toNat_ofNat']
    exact Nat.mod_eq_of_lt hpn
  have hcond : (!(E.base s).haveDhr || decide (E.ratchetPk h ≠ (E.base s).dhr)) = true := by
    rcases Nat.eq_zero_or_pos r with rfl | hr
    · simp [hb.haveDhr]
    · simp [hpk, hb.dhr hr, hfresh hr]
  have hreach : E.reach desc rnd h s = E.newRemote desc rnd h s := by
    simp only [Engine.reach, Cmd.get_bind_apply, hcond]
    rfl
  -- the two comparisons of the source in `uint32`, read as one bound on the old chain
  have hjump : ((E.base s).haveCkr = true ∧ (UInt32.ofNat pnN < (E.base s).nr ∨
      maxSkip < (UInt32.ofNat pnN - (E.base s).nr).toNat)) ↔
      ¬ (2 ≤ r → (E.base s).nr.toNat ≤ pnN ∧ pnN - (E.base s).nr.toNat ≤ maxSkip) := by
    have hckr : (E.base s).haveCkr = true ↔ 2 ≤ r := by simp [hb.haveCkr]
    rw [hckr, UInt32.lt_iff_toNat_lt, hpp]
    by_cases hge : (E.base s).nr.toNat ≤ pnN
    · rw [UInt32.toNat_sub_of_le _ _ (by rw [UInt32.le_iff_toNat_le, hpp]; exact hge), hpp]
      constructor <;> intro hj <;> omega
    · constructor
      · rintro ⟨h2, -⟩ himp
        exact hge (himp h2).1
      · intro hno
        exact ⟨by by_contra h2; exact hno fun h => absurd h h2, .inl (by omega)⟩
  constructor
  -- both jumps are in bounds: finish the old chain, ratchet, walk the new one
  · rintro ⟨hold, hnew⟩
    obtain ⟨b₁, hfin, hb₁, hrat, hgrow₁⟩ :=
      finishOld_spec I hb hpn hhpn fun hr => (hold hr).1
    obtain ⟨s₁, new, t, hstart, hkp, hbase, htinv, hgrow₂, hlink', hx'⟩ :=
      startNew_spec S (s := E.withBase b₁ s) (by rwa [E.base_withBase]) (S.ext_withBase _ hx) hlink
        hh hpk hg hrnd hn hhn
    rw [E.base_withBase] at hbase hgrow₂
    refine ⟨s₁, new, t, ?_, hkp, ?_, htinv, hgrow₁.trans hgrow₂, hlink', hx'⟩
    · have h1 : ¬ ((E.base s).haveCkr = true ∧ (UInt32.ofNat pnN < (E.base s).nr ∨
          maxSkip < (UInt32.ofNat pnN - (E.base s).nr).toNat)) := fun hj => hjump.mp hj hold
      have h2 : ¬ maxSkip < n := by omega
      rw [hreach]
      simp only [Engine.newRemote, Cmd.get_bind_apply, hhpn, hhn, Cmd.ite_apply, if_neg h1, hnn,
        if_neg h2]
      rw [Cmd.bind_apply_of_ok hfin]
      exact hstart
    · rw [hbase, hrat]
  -- the first bound that is broken gives the error, before anything is derived
  · intro hbad
    rw [hreach]
    refine ⟨.state, ?_⟩
    by_cases h1 : 2 ≤ r → (E.base s).nr.toNat ≤ pnN ∧ pnN - (E.base s).nr.toNat ≤ maxSkip
    · have h2 : maxSkip < n := by
        by_contra h2
        exact hbad ⟨h1, by omega⟩
      have h3 := fun hj => hjump.mp hj h1
      simp only [Engine.newRemote, Cmd.get_bind_apply, hhpn, hhn, Cmd.ite_apply, if_neg h3, hnn,
        if_pos h2, Cmd.fail_apply]
    · simp only [Engine.newRemote, Cmd.get_bind_apply, hhpn, Cmd.ite_apply, if_pos (hjump.mpr h1),
        Cmd.fail_apply]

/-! ## Decryption -/

omit [DecidableEq β] in
/-- The header of a frame on a chain that is neither the current nor the next one does not open; on
those two it does. -/
theorem openCurrentOrNext_sealed {r : Nat} {b : DrState β} (hb : BaseAt desc id sec lv r b)
    (hg : I.genuine (lv k).kp) (hs : SealedWith S id ad sec lv k n pn pt wire h hdrp salt enc ct)
    (hk1 : 1 ≤ k) (hkr : k ≤ r + 1)
    (hlen : ∀ i, 1 ≤ i → i ≤ r + 1 → (Schedule.hk sec lv i).length = 32)
    (hinj : ∀ i, 1 ≤ i → i ≤ r + 1 → Schedule.hk sec lv i = Schedule.hk sec lv k → i = k) :
    E.openCurrentOrNext desc b (frameOf desc ad salt enc ct) =
      if (2 ≤ r ∧ k = r - 1) ∨ k = r + 1 then some hdrp else none := by
  have hlenk := hlen k hk1 hkr
  have hnext := openHeader_sealed S hid hg hb.aeadId hs hlenk
    (by rw [hb.nhkr]; exact hlen _ (by omega) le_rfl : b.nhkr.length = 32)
  -- the current header key opens the frame exactly when it is of the chain being received
  have hcur : (if b.haveHkr then (E.openHeader desc b (frameOf desc ad salt enc ct)
      b.hkr).toOption else none) = if 2 ≤ r ∧ k = r - 1 then some hdrp else none := by
    by_cases hr : 2 ≤ r
    · have hopen := openHeader_sealed S hid hg hb.aeadId hs hlenk
        (by rw [hb.hkr hr]; exact hlen _ (by omega) (by omega) : b.hkr.length = 32)
      by_cases hk : k = r - 1
      · rw [hopen.1 (by rw [hb.hkr hr, hk])]
        simp [hb.haveHkr, hr, hk, Except.toOption]
      · obtain ⟨e, he⟩ := hopen.2 (by
          rw [hb.hkr hr]
          exact fun heq => hk (hinj _ (by omega) (by omega) heq).symm)
        rw [he]
        simp [hk, Except.toOption]
    · simp [hb.haveHkr, hr]
  rw [Engine.openCurrentOrNext, hcur]
  by_cases hc : 2 ≤ r ∧ k = r - 1
  · simp [hc]
  · simp only [if_neg hc, hb.haveNhkr, if_true]
    -- the next header key opens it exactly when it is of the chain to come
    by_cases hk : k = r + 1
    · rw [hnext.1 (by rw [hb.nhkr, hk]), if_pos (Or.inr hk)]
      rfl
    · obtain ⟨e, he⟩ := hnext.2 (by
        rw [hb.nhkr]
        exact fun heq => hk (hinj _ (by omega) le_rfl heq).symm)
      rw [he, if_neg (by tauto)]
      rfl

/-- What comes of delivering message `n` of level `k` to a session at level `r`. -/
inductive Outcome (S : EngineSpec E I γ) (sec : DrSecrets β) (lv : Nat → Level β γ)
    (r k n pnN : Nat) (pt : Bytes β) (cap : Nat) (kp : Keypair β) (s : σ)
    (out : Except GyErr (Bytes β) × σ) : Prop
  /-- Its key was stored: it is consumed. -/
  | stored (i : Nat) (hcap : pt.length ≤ cap)
      (hview : (E.base s).skipped.view[i]? = some ⟨Schedule.hk sec lv k, UInt32.ofNat n,
        messageKey desc (chainKey desc (lv k).ck n)⟩)
      (hout : out = (.ok pt, E.withBase { E.base s with
        skipped := storePostSuccess (storeRemove (E.base s).skipped i) } s))
  /-- It is ahead on the current chain: the chain moves past it. -/
  | ahead (hcap : pt.length ≤ cap) (hr : r = k + 1) (hge : (E.base s).nr.toNat ≤ n)
      (hle : n - (E.base s).nr.toNat ≤ maxSkip) (t : SkipStore β) (hinv : t.Inv)
      (hgrow : (E.base s).skipped.Grows (keysFrom desc (Schedule.hk sec lv k) (lv k).ck
        (E.base s).nr.toNat (n - (E.base s).nr.toNat)) t)
      (hout : out = (.ok pt, E.withBase ((E.base s).withRecv
        ⟨t, chainKey desc (lv k).ck (n + 1), UInt32.ofNat (n + 1)⟩) s))
  /-- It opens a new chain: the session ratchets. -/
  | opens (hcap : pt.length ≤ cap) (hr : k = r + 1)
      (hold : 2 ≤ r → (E.base s).nr.toNat ≤ pnN ∧ pnN - (E.base s).nr.toNat ≤ maxSkip)
      (hnew : n ≤ maxSkip) (s₁ : σ) (new : Level β γ) (t : SkipStore β) (hkp : new.kp = kp)
      (hbase : E.base s₁ = (ratcheted (E.base s) (lv k) new).withRecv
        ⟨t, chainKey desc (lv k).ck (n + 1), UInt32.ofNat (n + 1)⟩) (hinv : t.Inv)
      (hgrow : (E.base s).skipped.Grows
        ((if 2 ≤ r then keysFrom desc (Schedule.hk sec lv (r - 1)) (lv (r - 1)).ck
            (E.base s).nr.toNat (pnN - (E.base s).nr.toNat) else []) ++
          keysFrom desc (Schedule.hk sec lv k) (lv k).ck 0 n) t)
      (hlink : S.Link (Function.update lv (r + 2) new) (r + 1))
      (hext : S.Ext (Function.update lv (r + 2) new) (r + 2) s₁) (hout : out = (.ok pt, s₁))
  /-- It is refused, for one of the listed reasons, and nothing changes. -/
  | refused (e : GyErr) (hout : out = (.error e, s))
      (hwhy : cap < pt.length ∨
        ((∀ x ∈ (E.base s).skipped.view, x.hk = Schedule.hk sec lv k → x.n ≠ UInt32.ofNat n) ∧
          ¬ (r = k + 1 ∧ (E.base s).nr.toNat ≤ n ∧ n - (E.base s).nr.toNat ≤ maxSkip) ∧
          ¬ (k = r + 1 ∧
            (2 ≤ r → (E.base s).nr.toNat ≤ pnN ∧ pnN - (E.base s).nr.toNat ≤ maxSkip) ∧
            n ≤ maxSkip)))

/-- Past the skipped keys, a frame with a genuine header of the current or the next chain goes
through the chain path, whatever its payload; any other is refused. -/
theorem decryptAssoc_miss {r : Nat} {s : σ} (hb : BaseAt desc id sec lv r (E.base s))
    (hx : S.Ext lv r s) (hg : I.genuine (lv k).kp) (had : ad.length ≤ E.adMax)
    (hs : SealedWith S id ad sec lv k n pn pt wire h hdrp salt enc ct)
    (hk1 : 1 ≤ k) (hkr : k ≤ r + 1) (hpar : k % 2 ≠ r % 2)
    (hlen : ∀ i, 1 ≤ i → i ≤ r + 1 → (Schedule.hk sec lv i).length = 32)
    (hinj : ∀ i, 1 ≤ i → i ≤ r + 1 → Schedule.hk sec lv i = Schedule.hk sec lv k → i = k)
    {cap : Nat} (rnd : RatchetRand β) {ct' : Bytes β} (hct : aeadTagLen id ≤ ct'.length)
    (hmiss : (E.trialSlots desc (E.base s) (frameOf desc ad salt enc ct') cap
      (List.range maxSkip)).2 = .miss) :
    ∃ m, E.decryptAssoc desc rnd cap
        (gyFramePut desc.suiteId ++ Engine.headerWire salt enc ++ ct') ad s =
      if r = k + 1 ∨ k = r + 1 then
        Engine.commitStage s (E.chainPath desc rnd (frameOf desc ad salt enc ct') cap h s)
      else ((.error .verify, m), s) := by
  have hparse := parseFrame_payload S hid hg had hs hct
  -- the header is opened without a look at the payload
  have hopen := openCurrentOrNext_sealed S hid hb hg hs hk1 hkr hlen hinj
  change E.openCurrentOrNext desc (E.base s) (frameOf desc ad salt enc ct') = _ at hopen
  rcases htrial : E.trialSlots desc (E.base s) (frameOf desc ad salt enc ct') cap
    (List.range maxSkip) with ⟨m, tr⟩
  rw [htrial] at hmiss
  obtain rfl : tr = .miss := hmiss
  refine ⟨m, ?_⟩
  rw [← hb.aeadId] at hparse
  simp only [Engine.decryptAssoc, hparse, htrial, hopen]
  by_cases hc : r = k + 1 ∨ k = r + 1
  · rw [if_pos (by omega), if_pos hc]
    simp only [decode_sealed S hg hs, S.headerCheck hx hs.hdr hk1 hpar]
  · rw [if_neg (by omega), if_neg hc]

/-- Delivering a sealed frame: the outcome and why. -/
theorem decryptAssoc_sealed {r pnN : Nat} {s : σ} {kp : Keypair β}
    (hb : BaseAt desc id sec lv r (E.base s)) (hx : S.Ext lv r s) (hg : I.genuine (lv k).kp)
    (had : ad.length ≤ E.adMax)
    (hs : Sealed S id ad sec lv k n (UInt32.ofNat pnN) pt wire)
    (hk1 : 1 ≤ k) (hkr : k ≤ r + 1) (hpar : k % 2 ≠ r % 2)
    (hlen : ∀ i, 1 ≤ i → i ≤ r + 1 → (Schedule.hk sec lv i).length = 32)
    (hinj : ∀ i, 1 ≤ i → i ≤ r + 1 → Schedule.hk sec lv i = Schedule.hk sec lv k → i = k)
    (hview : ∀ x ∈ (E.base s).skipped.view, x.hk.length = 32 ∧
      (x.hk = Schedule.hk sec lv k → x.n = UInt32.ofNat n →
        x.msgKey = messageKey desc (chainKey desc (lv k).ck n)))
    (hlink : k = r + 1 → S.Link lv r)
    (hfresh : k = r + 1 → 1 ≤ r → (lv k).kp.pk ≠ (lv (r - 1)).kp.pk)
    (hn : n < 2 ^ 32) (hpn : pnN < 2 ^ 32) {rnd : RatchetRand β} (hrnd : S.RandOk rnd kp)
    (cap : Nat) :
    Outcome S sec lv r k n pnN pt cap kp s
      ((E.decryptAssoc desc rnd cap wire ad s).1.1, (E.decryptAssoc desc rnd cap wire ad s).2) := by
  obtain ⟨h, hdrp, salt, enc, ct, hs⟩ := hs
  have hparse := parseFrame_sealed S hid hg had hs
  rw [← hb.aeadId] at hparse
  -- the stored keys are tried first; a hit that does not fit the buffer counts as a miss
  obtain ⟨i, hcap, hi, htr⟩ | ⟨hno, htr⟩ : (∃ i, pt.length ≤ cap ∧
      (E.base s).skipped.view[i]? = some ⟨Schedule.hk sec lv k, UInt32.ofNat n,
        messageKey desc (chainKey desc (lv k).ck n)⟩ ∧
      (E.trialSlots desc (E.base s) (frameOf desc ad salt enc ct) cap (List.range maxSkip)).2 =
        .hit i pt) ∨
    ((cap < pt.length ∨ ∀ x ∈ (E.base s).skipped.view, x.hk = Schedule.hk sec lv k →
        x.n ≠ UInt32.ofNat n) ∧
      (E.trialSlots desc (E.base s) (frameOf desc ad salt enc ct) cap (List.range maxSkip)).2 =
        .miss) := by
    rcases trial_sealed S hid hg hb.aeadId hs (hlen k hk1 hkr) hb.skipped hview cap with
      ⟨i, hi, htr⟩ | ⟨hno, htr⟩
    · by_cases hcap : pt.length ≤ cap
      · exact .inl ⟨i, hcap, hi, by rw [htr, if_pos hcap]⟩
      · exact .inr ⟨.inl (by omega), by rw [htr, if_neg hcap]⟩
    · exact .inr ⟨.inr hno, htr⟩
  -- a stored key opens the frame
  · refine .stored i hcap hi ?_
    rcases htrial : E.trialSlots desc (E.base s) (frameOf desc ad salt enc ct) cap
      (List.range maxSkip) with ⟨m, tr⟩
    rw [htrial] at htr
    obtain rfl : tr = .hit i pt := htr
    simp only [Engine.decryptAssoc, hparse, htrial]
  · obtain ⟨m, hdec⟩ := decryptAssoc_miss S hid hb hx hg had hs hk1 hkr hpar hlen hinj rnd
      (by rw [hs.length_ct]; omega) htr
    rw [← hs.wire_eq] at hdec
    rw [hdec]
    by_cases hc : r = k + 1 ∨ k = r + 1
    · rw [if_pos hc]
      rcases hc with rfl | rfl
      · -- a frame of the current chain
        have hreach := reach_same I hb hk1 hn hs.ratchetPk hs.n_eq rnd
        by_cases hok : (E.base s).nr.toNat ≤ n ∧ n - (E.base s).nr.toNat ≤ maxSkip
        · obtain ⟨t, ht, htinv, hgrow⟩ := hreach.1 hok
          have hat : StandsAt desc id (E.base (E.withBase ((E.base s).withRecv
              ⟨t, chainKey desc (lv k).ck n, UInt32.ofNat n⟩) s)) (lv k).ck n := by
            rw [E.base_withBase]
            exact ⟨hb.aeadId, rfl, rfl, htinv⟩
          have hcons := consume_sealed S hid hat hs cap
          rw [Engine.chainPath, Cmd.bind_apply_of_ok ht, hs.n_eq]
          by_cases hcap : pt.length ≤ cap
          · have hpost := SkipStore.grows_storePostSuccess htinv
            refine .ahead hcap rfl hok.1 hok.2 (storePostSuccess t)
              (SkipStore.inv_storePostSuccess htinv) ?_ ?_
            · simpa using hgrow.trans hpost
            · rw [hcons.1 hcap, E.base_withBase, E.withBase_withBase]
              rfl
          · obtain ⟨s', hs'⟩ := hcons.2 hcap
            rw [hs']
            exact .refused .arg rfl (.inl (by omega))
        · obtain ⟨e, he⟩ := hreach.2 hok
          rw [Engine.chainPath, Cmd.bind_apply_of_error he]
          refine .refused e rfl (hno.imp_right fun hno => ⟨hno, fun h => hok h.2, fun h => ?_⟩)
          omega
      · -- a frame of the next chain
        have hreach := reach_new S hb hx (hlink rfl) hs.hdr hs.ratchetPk (hfresh rfl) hg hrnd hn
          hs.n_eq hpn hs.pn_eq
        by_cases hok : (2 ≤ r → (E.base s).nr.toNat ≤ pnN ∧
            pnN - (E.base s).nr.toNat ≤ maxSkip) ∧ n ≤ maxSkip
        · obtain ⟨s₁, new, t, ht, hkp, hbase, htinv, hgrow, hlink', hx'⟩ := hreach.1 hok
          have hat : StandsAt desc id (E.base s₁) (lv (r + 1)).ck n := by
            rw [hbase]
            exact ⟨hb.aeadId, rfl, rfl, htinv⟩
          have hcons := consume_sealed S hid hat hs cap
          rw [Engine.chainPath, Cmd.bind_apply_of_ok ht, hs.n_eq]
          by_cases hcap : pt.length ≤ cap
          · have hpost := SkipStore.grows_storePostSuccess htinv
            refine .opens hcap rfl hok.1 hok.2 _ new (storePostSuccess t) hkp ?_
              (SkipStore.inv_storePostSuccess htinv) ?_ hlink' (S.ext_withBase _ hx')
              (by rw [hcons.1 hcap]; rfl)
            · rw [E.base_withBase, hbase]
              rfl
            · simpa using hgrow.trans hpost
          · obtain ⟨s', hs'⟩ := hcons.2 hcap
            rw [hs']
            exact .refused .arg rfl (.inl (by omega))
        · obtain ⟨e, he⟩ := hreach.2 hok
          rw [Engine.chainPath, Cmd.bind_apply_of_error he]
          refine .refused e rfl (hno.imp_right fun hno => ⟨hno, fun h => ?_, fun h => hok h.2⟩)
          omega
    -- neither header key opens the frame: it is of a chain already left behind
    · rw [if_neg hc]
      refine .refused .verify rfl (hno.imp_right fun hno => ⟨hno, fun h => ?_, fun h => ?_⟩)
      · exact hc (.inl h.1)
      · exact hc (.inr h.1)

end Receive
end Geryon
