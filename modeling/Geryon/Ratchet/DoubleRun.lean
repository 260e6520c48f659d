import Geryon.Ratchet.Double
import Geryon.Ratchet.Limits

/-!
# Correctness of the classical Double Ratchet

The classical engine on the key schedule, and what follows for two parties set up by
`gy_dr_init_alice` and `gy_dr_init_bob`: over any run, with loss, reordering and duplication, every
frame that qualifies decrypts to its plaintext and no frame is accepted twice.
-/

namespace Geryon

variable {β : Type} [Octet β] [Sodium β] {desc : SuiteDesc β}

/-- The receiver at level `ℓ` derives level `ℓ + 1` from the DH of its pair with the header's key.
-/
def ClassicalLink (desc : SuiteDesc β) (lv : Nat → Level β Unit) (ℓ : Nat) : Prop :=
  ∃ dh, desc.dh (lv ℓ).kp.sk (lv (ℓ + 1)).kp.pk = .ok dh ∧
    gyDrcKdfRk desc (lv ℓ).rk dh = .ok ⟨(lv (ℓ + 1)).rk, (lv (ℓ + 1)).ck, (lv (ℓ + 1)).nhk⟩

/-- Good random input for a classical ratchet step: a genuine curve pair. -/
def ClassicalRandOk (I : IdealSuite desc) (rnd : RatchetRand β) (kp : Keypair β) : Prop :=
  rnd.curve = .ok kp ∧ I.genuine kp

omit [Sodium β] in
theorem ClassicalLink.kdf {lv : Nat → Level β Unit} {ℓ : Nat} (h : ClassicalLink desc lv ℓ) :
    ∃ ikm, gyDrcKdfRk desc (lv ℓ).rk ikm =
      .ok ⟨(lv (ℓ + 1)).rk, (lv (ℓ + 1)).ck, (lv (ℓ + 1)).nhk⟩ := by
  obtain ⟨dh, -, hkdf⟩ := h
  exact ⟨dh, hkdf⟩

omit [Sodium β] in
theorem ClassicalLink.congr {lv lv' : Nat → Level β Unit} {ℓ : Nat}
    (h : ∀ i ≤ ℓ + 1, lv i = lv' i) (hl : ClassicalLink desc lv ℓ) : ClassicalLink desc lv' ℓ := by
  obtain ⟨dh, h1, h2⟩ := hl
  refine ⟨dh, ?_, ?_⟩
  · rwa [← h ℓ (by omega), ← h (ℓ + 1) le_rfl]
  · rwa [← h ℓ (by omega), ← h (ℓ + 1) le_rfl]

/-- A classical header with a key of its width fits, and decodes to itself. -/
theorem classical_encode_ok (I : IdealSuite desc) {h : DrHeader β}
    (hflags : h.flags = headerFlags desc false false) (hpk : h.ratchetPk.length = desc.curvePkLen) :
    ∃ b, (classical desc).encode h (classical desc).headerMax = .ok b ∧
      b.length ≤ (classical desc).headerMax ∧
      (∀ tag, (classical desc).encHeaderLenOk (b.length + tag) tag = true) ∧ b.length < 60000 ∧
      (classical desc).decode b = .ok h := by
  have hlen := I.curvePkLen_le
  have hmax : curvePkMax = 56 := rfl
  have hcap : ¬ drHeaderMax < 4 + desc.curvePkLen + 4 + 4 := by
    have : drHeaderMax = 4 + curvePkMax + 4 + 4 := rfl
    omega
  obtain ⟨b, hb⟩ : ∃ b, gyDrHeaderEncode desc h drHeaderMax = .ok b := by
    simp [gyDrHeaderEncode, hcap]
  have hblen := length_gyDrHeaderEncode desc hb
  refine ⟨b, hb, ?_, ?_, by omega, ?_⟩
  · show b.length ≤ drHeaderMax
    omega
  · intro tag
    simp [classical, hblen]
  · show (gyDrHeaderDecode desc b).map Prod.fst = .ok h
    rw [gyDrHeaderDecode_encode desc hflags hpk hb]
    rfl

/-- A classical ratchet step moves a session up two levels. -/
theorem dhRatchet_spec (I : IdealSuite desc) {id : UInt8} {sec : DrSecrets β}
    {lv : Nat → Level β Unit} {ℓ : Nat} {b : DrState β} {rnd : RatchetRand β} {kp : Keypair β}
    (hb : BaseAt desc id sec lv ℓ b) (hlink : ClassicalLink desc lv ℓ)
    (hg : I.genuine (lv (ℓ + 1)).kp) (hrnd : ClassicalRandOk I rnd kp) :
    ∃ b' new, dhRatchet desc rnd (lv (ℓ + 1)).kp.pk b = (.ok (), b') ∧ new.kp = kp ∧
      b' = ratcheted b (lv (ℓ + 1)) new ∧
      ClassicalLink desc (Function.update lv (ℓ + 2) new) (ℓ + 1) := by
  obtain ⟨dh, hdh, hkdf⟩ := hlink
  obtain ⟨hcurve, hkp⟩ := hrnd
  -- the sending half: the DH of the new pair with the header's key, as the peer will compute it
  obtain ⟨dh', hdh₁, hdh₂⟩ := I.dh_comm hg hkp
  obtain ⟨r, hr⟩ := I.gyDrcKdfRk_ok (lv (ℓ + 1)).rk dh'
  refine ⟨_, ⟨kp, r.rk, r.ck, r.nhk, ()⟩, ?_, rfl, rfl, dh', ?_, ?_⟩
  · simp [dhRatchet, startEpoch, rotateHkr, ratchetDh, hb.dhs, hdh, recvRoot, hb.rk, hkdf, hcurve,
      rotateHks, hdh₂, sendRoot, hr, ratcheted]
  · simpa using hdh₁
  · simpa using hr

/-- The classical engine on the key schedule. -/
def classicalSpec (I : IdealSuite desc) : EngineSpec (classical desc) I Unit where
  RandOk := ClassicalRandOk I
  Ext _ _ _ := True
  Hdr _ _ h := h.flags = headerFlags desc false false
  Link := ClassicalLink desc
  randOk_curve h := h
  ext_congr _ _ := trivial
  hdr_congr _ h := h
  link_congr h hl := hl.congr h
  link_kdf hl := hl.kdf
  ext_withBase _ _ := trivial
  canSend _ _ := rfl
  hdr_header _ _ _ := by simp [classical, headerFlags]
  header_pk _ := rfl
  header_pn _ := rfl
  header_n _ := rfl
  encode_ok hflags hpk := classical_encode_ok I hflags hpk
  headerCheck _ _ _ _ := rfl
  -- the ratchet step of the source
  ratchet := by
    intro id sec lv ℓ s h rnd kp hb _ hlink _ hpk hg hrnd
    obtain ⟨b', new, hstep, hkp, hb', hlink'⟩ := dhRatchet_spec I hb hlink hg hrnd
    refine ⟨b', new, ?_, hkp, hb', hlink', trivial⟩
    rw [← hpk] at hstep
    exact hstep

/-- Two parties that have just been set up from the same secrets are in step. -/
theorem sync_start_classical (I : IdealSuite desc) [DecidableEq β] {id : UInt8}
    {sec : DrSecrets β} {spk kp : Keypair β} {a : DrState β} {ad : Bytes β}
    (hspk : I.genuine spk) (hkp : I.genuine kp) (hne : spk.pk ≠ kp.pk)
    (ha : gyDrInitAlice desc id sec spk.pk (.ok kp) = .ok a) :
    ∃ lv, Sync (classicalSpec I) id ad sec (World.start a (gyDrInitBob id sec spk))
      [spk.pk, kp.pk] lv Party.par fun _ _ => 0 := by
  obtain ⟨dh, hdh₁, hdh₂⟩ := I.dh_comm hspk hkp
  obtain ⟨r, hr⟩ := I.gyDrcKdfRk_ok sec.skDr dh
  simp only [gyDrInitAlice, aliceStart, hdh₂, hr, bind, Except.bind, pure, Except.pure] at ha
  obtain rfl := Except.ok.inj ha
  -- level 0 is the signed prekey's, level 1 what the initiator derived from it
  let lv : Nat → Level β Unit := fun ℓ =>
    ℓ.casesOn ⟨spk, sec.skDr, [], [], ()⟩ fun _ => ⟨kp, r.rk, r.ck, r.nhk, ()⟩
  refine ⟨lv, Sync.start lv rfl ⟨dh, hdh₁, hr⟩ ?_ hne ?_ ?_ trivial trivial ⟨rfl, rfl, rfl⟩
    ⟨rfl, rfl, rfl⟩⟩
  · intro ℓ hℓ
    obtain rfl | rfl : ℓ = 0 ∨ ℓ = 1 := by omega
    · exact hspk
    · exact hkp
  · exact ⟨rfl, rfl, rfl, rfl, rfl, rfl, rfl, rfl, rfl, rfl, rfl, fun _ => rfl, fun _ => rfl,
      fun _ => rfl, fun h => absurd h (by decide), fun h => absurd h (by decide),
      SkipStore.inv_empty⟩
  · exact ⟨rfl, rfl, rfl, rfl, rfl, rfl, rfl, rfl, rfl, rfl, rfl, fun h => absurd h (by decide),
      fun h => absurd h (by decide), fun h => absurd h (by decide), fun h => absurd h (by decide),
      fun h => absurd h (by decide), SkipStore.inv_empty⟩

/-- Two parties of the classical Double Ratchet, set up from the same secrets, over any run of
encryptions and deliveries with loss, reordering and duplication in which no chain carries `2 ^ 32`
messages: no frame is accepted twice, and every frame that was not accepted yet, skips at most
`maxSkip` messages and whose message key was not evicted decrypts to its plaintext. -/
theorem double_ratchet_correct (I : IdealSuite desc) [DecidableEq β] {id : UInt8}
    (hid : AeadUsable β id) {sk ad : Bytes β} (had : ad.length ≤ x3dhAdMax) {sec : DrSecrets β}
    (hsec : expandSecrets desc sk = .ok sec) {spk kp : Keypair β} (hspk : I.genuine spk)
    (hkp : I.genuine kp) {a : DrState β}
    (ha : gyDrInitAlice desc id sec spk.pk (.ok kp) = .ok a) (es : List (Event β))
    (hfair : Fair (fun rnd => ∃ kp, ClassicalRandOk I rnd kp) [spk.pk, kp.pk] es) :
    let w := (World.start a (gyDrInitBob id sec spk)).run (classical desc) desc ad es
    (∀ q pk, w.total (classical desc) q pk < 2 ^ 32) →
    w.accepted.Nodup ∧
    ∀ i f rnd kp' cap, w.sent[i]? = some f → ClassicalRandOk I rnd kp' → i ∉ w.accepted →
      w.WithinSkip (classical desc) f →
      f.msgKey (classical desc) desc ∉ (w.st f.sender.peer).skipped.lost → f.pt.length ≤ cap →
      (gyDrDecryptAssoc desc rnd cap f.wire ad (w.st f.sender.peer)).1.1 = .ok f.pt := by
  intro w hwrap
  have hseeds := I.seeds_of_expandSecrets hsec
  -- the two first ratchet keys differ, since no key of a fair run comes twice
  have hne : spk.pk ≠ kp.pk := by
    have := (List.nodup_append.mp hfair.fresh).1
    simpa using this
  obtain ⟨lv₀, hstart⟩ := sync_start_classical I hspk hkp hne ha
  obtain ⟨lv, lvl, pos, hy⟩ := InStep.run hid had hseeds ⟨lv₀, _, _, hstart⟩ es hfair hwrap
  refine ⟨hy.nodup, ?_⟩
  intro i f rnd kp' cap hi hrnd hnot hskip hlost hcap
  exact hy.decrypts hid had hseeds hwrap hi hrnd hnot hskip hlost hcap

/-! ## Symbolic runs -/

/-- The initiator of a symbolic session. -/
def symAlice : DrState Sym :=
  (gyDrInitAlice (symSuite false) 1 (symSecrets false) (Sym.curvePair 0).pk
    (.ok (Sym.curvePair 1))).toOption.getD DrState.zero

/-- The responder of a symbolic session. -/
def symBob : DrState Sym := gyDrInitBob 1 (symSecrets false) (Sym.curvePair 0)

theorem gyDrInitAlice_sym : gyDrInitAlice (symSuite false) 1 (symSecrets false) (Sym.curvePair 0).pk
    (.ok (Sym.curvePair 1)) = .ok symAlice := by
  obtain ⟨dh, -, hdh⟩ := (symIdeal false).dh_comm ⟨0, rfl⟩ ⟨1, rfl⟩
  obtain ⟨r, hr⟩ := (symIdeal false).gyDrcKdfRk_ok (symSecrets false).skDr dh
  have hok : ∃ a, gyDrInitAlice (symSuite false) 1 (symSecrets false) (Sym.curvePair 0).pk
      (.ok (Sym.curvePair 1)) = .ok a := by
    simp only [gyDrInitAlice, aliceStart, bind, Except.bind]
    rw [hdh]
    simp only
    rw [hr]
    exact ⟨_, rfl⟩
  obtain ⟨a, ha⟩ := hok
  rw [symAlice, ha]
  rfl

theorem symAlice_skipped : symAlice.skipped = SkipStore.empty := by
  have ha := gyDrInitAlice_sym
  obtain ⟨kp, -, ha⟩ := Except.bind_eq_ok_iff.1 ha
  obtain ⟨dh, -, ha⟩ := Except.bind_eq_ok_iff.1 ha
  obtain ⟨r, -, ha⟩ := Except.bind_eq_ok_iff.1 ha
  rw [← Except.ok.inj ha]
  rfl

/-- A symbolic session starts in step. -/
theorem sync_sym : ∃ lv, Sync (classicalSpec (symIdeal false)) 1 [] (symSecrets false)
    (World.start symAlice symBob) symKeys lv Party.par fun _ _ => 0 :=
  sync_start_classical (symIdeal false) ⟨0, rfl⟩ ⟨1, rfl⟩ (symRand_pk_ne (by decide))
    gyDrInitAlice_sym

theorem roomFor_classical : RoomFor (classical (symSuite false)) 1 ([] : Bytes Sym) 8192 := by
  show 2 + (16 + 2 + (68 + 16)) + 0 + 16 ≤ 8192
  decide

theorem roomFor_classical_reply : RoomFor (classical (symSuite false)) 1 reply 8192 := by
  show 2 + (16 + 2 + (68 + 16)) + 8 + 16 ≤ 8192
  decide

theorem classicalRandOk_sym (n : Nat) :
    ClassicalRandOk (symIdeal false) (symRand n) (Sym.curvePair n) := ⟨rfl, n, rfl⟩

/-- In a conversation the two messages that were skipped decrypt late, and so does the reply. -/
theorem double_ratchet_conversation :
    let w := (World.start symAlice symBob).run (classical (symSuite false)) (symSuite false) []
      conversation
    w.accepted = [0, 3] ∧ ∀ i ∈ [1, 2, 4], ∃ f : Sent Sym (DrState Sym), w.sent[i]? = some f ∧
      (gyDrDecryptAssoc (symSuite false) (symRand 4) 8192 f.wire [] (w.st f.sender.peer)).1.1 =
        .ok f.pt := by
  obtain ⟨lv, hy⟩ := sync_sym
  obtain ⟨hwrap, hacc, hlen, -, hkept, hready⟩ := conversation_ready (shape_classical _)
    hy symAlice_skipped rfl roomFor_classical roomFor_classical_reply (seeds_sym false)
    classicalRandOk_sym
  have hmain := double_ratchet_correct (symIdeal false) aeadUsable_sym (Nat.zero_le _)
    (expandSecrets_sym false) ⟨0, rfl⟩ ⟨1, rfl⟩ gyDrInitAlice_sym conversation
    (fair_conversation fun n => ⟨_, classicalRandOk_sym n⟩) hwrap
  rw [show gyDrInitBob 1 (symSecrets false) (Sym.curvePair 0) = symBob from rfl] at hmain
  generalize (World.start symAlice symBob).run (classical (symSuite false)) (symSuite false) []
    conversation = w at *
  refine ⟨hacc, fun i hi => ?_⟩
  -- the three frames that are not accepted yet
  have hi' : i < 5 ∧ i ∉ w.accepted := by
    rw [hacc]
    simp only [List.mem_cons, List.not_mem_nil, or_false] at hi
    rcases hi with rfl | rfl | rfl
    all_goals decide
  obtain ⟨f, hf⟩ : ∃ f, w.sent[i]? = some f :=
    ⟨_, List.getElem?_eq_getElem (by rw [hlen]; exact hi'.1)⟩
  obtain ⟨hskip, hcap⟩ := hready i f hf
  have hlost : (w.st f.sender.peer).skipped.lost = [] := hkept f.sender.peer
  exact ⟨f, hf, hmain.2 i f (symRand 4) _ 8192 hf (classicalRandOk_sym 4) hi'.2 hskip
    (by rw [hlost]; exact List.not_mem_nil) hcap⟩

/-- The run that wraps the counter, for the classical engine. -/
theorem classical_wrapRun {m M : Nat} (hm : 0 < m) (hlt : m < 2 ^ 32) (hmM : m + 1 = M)
    (hM : UInt32.ofNat M = 0) (rnd : RatchetRand Sym) :
    Fair (fun rnd => ∃ kp, ClassicalRandOk (symIdeal false) rnd kp) symKeys (wrapRun m) ∧
    let w := (World.start symAlice symBob).run (classical (symSuite false)) (symSuite false) []
      (wrapRun m)
    ∃ (f : Sent Sym (DrState Sym)) (e : GyErr), w.sent[M]? = some f ∧ M ∉ w.accepted ∧
      w.WithinSkip (classical (symSuite false)) f ∧
      f.msgKey (classical (symSuite false)) (symSuite false) ∉
        (w.st f.sender.peer).skipped.lost ∧ f.pt.length ≤ 8192 ∧
      (gyDrDecryptAssoc (symSuite false) rnd 8192 f.wire [] (w.st f.sender.peer)).1.1 =
        .error e := by
  obtain ⟨lv, hy⟩ := sync_sym
  refine ⟨fair_wrapRun (fun n => ⟨_, classicalRandOk_sym n⟩) _, ?_⟩
  exact wrapRun_refused hy rfl roomFor_classical (seeds_sym false) classicalRandOk_sym
    hm hlt hmM hM rnd

/-- Without the bound on chain lengths the guarantee fails: after `2 ^ 32 - 1` messages received one
by one, the second of two further messages, delivered before the first, is refused. -/
theorem double_ratchet_wraps :
    Fair (fun rnd => ∃ kp, ClassicalRandOk (symIdeal false) rnd kp) symKeys
      (wrapRun (2 ^ 32 - 1)) ∧
    let w := (World.start symAlice symBob).run (classical (symSuite false)) (symSuite false) []
      (wrapRun (2 ^ 32 - 1))
    ∃ (f : Sent Sym (DrState Sym)) (e : GyErr), w.sent[2 ^ 32]? = some f ∧ 2 ^ 32 ∉ w.accepted ∧
      w.WithinSkip (classical (symSuite false)) f ∧
      f.msgKey (classical (symSuite false)) (symSuite false) ∉
        (w.st f.sender.peer).skipped.lost ∧ f.pt.length ≤ 8192 ∧
      (gyDrDecryptAssoc (symSuite false) (symRand (2 ^ 32 + 1)) 8192 f.wire []
        (w.st f.sender.peer)).1.1 = .error e :=
  classical_wrapRun (by decide) (by decide) (by decide) (by decide) _

end Geryon
