import Geryon.Proto.Reopen
import Geryon.Proto.Stored
import Geryon.Session.Sequential

/-!
# One-time prekeys over whole runs

A receive reads the pool of the live custodian and consumes the one-time prekey of its handshake
through the callbacks of its commit: the session records go to the application's store, the
consumption to the live object and to the sealed blob. Each callback may fail, and a receive whose
callbacks do not all succeed reports an error.

Runs carry three ghost lists of private keys: those the generator delivered, those that
established a session in a receive that returned success, and those that left the live custodian in
a call that returned success.

## Main definitions

- `CustWorld`: a live custodian beside the records of the application's store.
- `OneTimeRun`: runs of calls, receives, closes and reopens, with the ghost lists.

## Main results

- `OpkInv.step`: what a call does to the one-time prekeys keeps the invariant.
- `one_time_prekeys_once`: no key establishes two sessions, and no spent key comes back.
-/

namespace Geryon

variable {β : Type}

/-! ## Private keys -/

/-- The private part of a one-time prekey: the curve key and, in hybrid suites, the ML-KEM key. -/
abbrev OpkPrivate (β : Type) := Bytes β × Bytes β

/-- The private part of a one-time prekey. -/
def OpkOf.secret : {h : Bool} → OpkOf β h → OpkPrivate β
  | false, (k : CurvePair β) => (k.sk, [])
  | true, (k : HybridPair β) => (k.curveSk, k.mlkemDk)

/-- The private keys of the pool, in slot order. -/
def IdMat.secrets {h : Bool} (m : IdMat β h) : List (OpkPrivate β) := m.held.map OpkOf.secret

/-- The private keys of the pool of a custodian that may not have an identity yet. -/
def optSecrets {h : Bool} (m : Option (IdMat β h)) : List (OpkPrivate β) := m.elim [] IdMat.secrets

/-- The private one-time prekeys a live custodian holds. -/
def Live.secrets (s : Live β) : List (OpkPrivate β) := optSecrets s.cust.mat

variable [Octet β] [Signer β] [Sodium β] [SodiumKeystore β] [StructLayout β]

/-! ## Generated keys -/

/-- The private keys the generator delivers to `cust_replenish_opks`, once its arguments are in
order. -/
def replenishMints (s : Live β) (count : Nat) (rnd : KeyRand β) : List (OpkPrivate β) :=
  match s.cust.mat with
  | none => []
  | some m =>
    if count = 0 ∨ opkBatchMax < count ∨ opkBatchMax - m.held.length < count then []
    else
      match gyOpkGenerate s.cust.desc s.cust.desc.isHybrid count (m.held.map OpkOf.pkid) rnd with
      | .error _ => []
      | .ok gen => gen.map OpkOf.secret

/-- The private one-time prekeys the generator delivers to a call. -/
def Live.mints (s : Live β) : CustCall β → List (OpkPrivate β)
  | .generateIdentity timestamp n rnd _ =>
    if s.cust.mat.isSome ∨ opkBatchMax < n then []
    else
      match generateIdmat s.cust.desc s.cust.desc.isHybrid timestamp n rnd with
      | .error _ => []
      | .ok m => m.secrets
  | .generateOnetimePrekeys count rnd _ => replenishMints s count rnd
  | .publishBundle _ rnd _ _ =>
    match s.cust.mat.bind fun m => custFirstReservableOpk m.opks with
    | some _ => []
    | none => replenishMints s 1 rnd
  | _ => []

/-! ## What a step does to the pool -/

/-- The blob holds the material of a custodian with these private one-time prekeys, under some wrap
of its key-encryption key. -/
def Live.Stores (L : (desc : SuiteDesc β) → LayoutLaws desc) (s : Live β)
    (l : List (OpkPrivate β)) : Prop :=
  ∃ wrap m, WrapOf s.cust.kek wrap ∧
    PersistedAs s.cust.desc s.cust.selfUid s.cust.selfDid wrap s.cust.kek m s.blob ∧
    (∀ m' ∈ m, m'.Fits (L s.cust.desc).fits) ∧ optSecrets m = l

/-- What a step with the generated keys `new` does to the pool: the live keys are old or new ones,
and the blob is that of the live keys or still the old one. A step that reports success and leaves
the blob leaves the live keys. -/
structure OpkStep (L : (desc : SuiteDesc β) → LayoutLaws desc) (new : List (OpkPrivate β))
    (s s' : Live β) (ok : Prop) : Prop where
  live : s'.secrets.Subperm (new ++ s.secrets)
  blob : s'.Stores L s'.secrets ∨
    ((∀ l, s.Stores L l → s'.Stores L l) ∧ (ok → s'.secrets = s.secrets))

variable {suites : SuiteTable β} {L : (desc : SuiteDesc β) → LayoutLaws desc}
  {new : List (OpkPrivate β)} {s s' : Live β} {ok : Prop}

/-- Doing nothing spends nothing. -/
theorem OpkStep.refl (s : Live β) : OpkStep L new s s ok :=
  ⟨(List.sublist_append_right _ _).subperm, Or.inr ⟨fun _ h => h, fun _ => rfl⟩⟩

/-- The condition for success may be weakened. -/
theorem OpkStep.mono {ok' : Prop} (h : OpkStep L new s s' ok) (hok : ok' → ok) :
    OpkStep L new s s' ok' :=
  ⟨h.live, h.blob.imp_right fun ⟨h1, h2⟩ => ⟨h1, fun h => h2 (hok h)⟩⟩

/-- A step that reports success and a step that does and adds no key make one. -/
theorem OpkStep.trans {s'' : Live β} (h : OpkStep L new s s' True) (h' : OpkStep L [] s' s'' True) :
    OpkStep L new s s'' True := by
  refine ⟨h'.live.trans h.live, ?_⟩
  rcases h'.blob with hb' | ⟨hkeep', hsame'⟩
  · exact Or.inl hb'
  · rcases h.blob with hb | ⟨hkeep, hsame⟩
    · rw [hsame' trivial]
      exact Or.inl (hkeep' _ hb)
    · exact Or.inr ⟨fun l hl => hkeep' l (hkeep l hl), fun _ =>
        (hsame' trivial).trans (hsame trivial)⟩

/-- A step that persisted the live material. -/
theorem OpkStep.of_persisted (hinv : s'.Inv suites L) (hp : s'.cust.Persisted s'.cust.mat s'.blob)
    (hlive : s'.secrets.Subperm (new ++ s.secrets)) : OpkStep L new s s' ok :=
  ⟨hlive, Or.inl ⟨s'.cust.wrap, s'.cust.mat, hinv.wrap, hp, fun _ hm => hinv.fits hm, rfl⟩⟩

section Pool

omit [Octet β] [Signer β] [Sodium β] [SodiumKeystore β] [StructLayout β]

theorem IdMat.secrets_eq {h : Bool} (m : IdMat β h) :
    m.secrets = (heldKeys m.opks).map OpkOf.secret := rfl

/-- The pool after a fill: the generated keys and those it held. -/
theorem secrets_fillOpks {h : Bool} (m : IdMat β h) (gen : List (OpkOf β h)) :
    ({ m with opks := (fillOpks gen m.opks).map Prod.fst } : IdMat β h).secrets.Perm
      (gen.map OpkOf.secret ++ m.secrets) := by
  rw [IdMat.secrets_eq, IdMat.secrets_eq, ← List.map_append]
  exact (heldKeys_fillOpks gen m.opks).map _

/-- Marking a key as exported keeps the secrets. -/
theorem secrets_setExported {h : Bool} (m : IdMat β h) (i : Nat) (b : Bool) :
    ({ m with opks := setExported i b m.opks } : IdMat β h).secrets = m.secrets := by
  rw [IdMat.secrets_eq, IdMat.secrets_eq, heldKeys_setExported]

/-- The pool without one of its keys. -/
theorem secrets_set_none {h : Bool} {m : IdMat β h} {pkid : UInt32} {i : Nat}
    (hi : opkIndex pkid m.opks = some i) :
    ({ m with opks := m.opks.set i none } : IdMat β h).secrets.Subperm m.secrets := by
  obtain ⟨x, hx, -⟩ := opkIndex_eq_some hi
  have hperm := (heldKeys_set_none hx).map OpkOf.secret
  rw [IdMat.secrets_eq, IdMat.secrets_eq]
  exact (List.sublist_cons_self _ _).subperm.trans hperm.symm.subperm

end Pool

/-! ## Calls -/

omit [Octet β] [Signer β] [Sodium β] [SodiumKeystore β] [StructLayout β] in
/-- The secrets of a running custodian are those of its key material. -/
theorem Live.secrets_of_mat {m : IdMat β s.cust.desc.isHybrid} (hm : s.cust.mat = some m) :
    s.secrets = m.secrets := by
  rw [Live.secrets, hm]
  rfl

/-- A change of material that is persisted and adds no key. -/
theorem OpkStep.of_edit {m m1 : IdMat β s.cust.desc.isHybrid} {t1 : SlotTable} {blob' : Bytes β}
    (hinv : s.Inv suites L) (hm : s.cust.mat = some m) (he : Edit s.cust.desc m s.cust.slots m1 t1)
    (hp : s.cust.Persisted (some m1) blob') (hsub : m1.secrets.Subperm (new ++ m.secrets)) :
    OpkStep L new s ⟨{ s.cust with mat := some m1, slots := t1 }, blob'⟩ ok := by
  have hmove : Move s ⟨{ s.cust with mat := some m1, slots := t1 }, blob'⟩ := .edit hm he hp
  refine OpkStep.of_persisted (hmove.inv hinv) hp ?_
  rw [Live.secrets_of_mat hm]
  exact hsub

omit [Signer β] [Sodium β] [SodiumKeystore β] [StructLayout β] in
/-- What a replenishment delivers once its material was generated. -/
theorem replenishMints_eq {m : IdMat β s.cust.desc.isHybrid}
    (hm : s.cust.mat = some m) {count : Nat}
    {rnd : KeyRand β} {gen : List (OpkOf β s.cust.desc.isHybrid)}
    (hroom : count ≤ opkBatchMax - m.held.length)
    (hgen : gyOpkGenerate s.cust.desc s.cust.desc.isHybrid count (m.held.map OpkOf.pkid) rnd =
      .ok gen) : replenishMints s count rnd = gen.map OpkOf.secret := by
  have hcount : ¬(count = 0 ∨ opkBatchMax < count) := by
    intro h
    unfold gyOpkGenerate at hgen
    rw [if_pos h] at hgen
    cases hgen
  unfold replenishMints
  simp only [hm]
  rw [if_neg (by omega), hgen]

omit [Sodium β] [SodiumKeystore β] [StructLayout β] in
/-- What the generation of an identity delivers. -/
theorem mints_generateIdentity (hnone : s.cust.mat = none) {timestamp : UInt64} {n : Nat}
    {rnd : IdentityRand β} {env : PersistEnv β} {m : IdMat β s.cust.desc.isHybrid}
    (hn : n ≤ opkBatchMax)
    (hgen : generateIdmat s.cust.desc s.cust.desc.isHybrid timestamp n rnd = .ok m) :
    s.mints (.generateIdentity timestamp n rnd env) = m.secrets := by
  simp only [Live.mints, hnone, hgen]
  exact if_neg (by simp; omega)

/-- Replenishing adds the keys it mints. -/
theorem OpkStep.replenish (hinv : s.Inv suites L) (count : Nat) (rnd : KeyRand β)
    (env : PersistEnv β) :
    OpkStep L (replenishMints s count rnd) s (custReplenishOpks count rnd env s).2 ok := by
  rcases custReplenishOpks_cases count rnd env hinv.ok with
    ⟨e, h⟩ | ⟨m, gen, blob', hm, hroom, hgen, hp, h⟩
  · rw [h]
    exact .refl s
  · rw [h, replenishMints_eq hm hroom hgen]
    exact .of_edit hinv hm (.replenish hroom hgen) (custSealAndPersist_ok hp)
      (secrets_fillOpks m gen).subperm

/-- A reservation adds and spends nothing. -/
theorem OpkStep.reserve (hinv : s.Inv suites L) (cap : Nat) (env : PersistEnv β)
    {m : IdMat β s.cust.desc.isHybrid} (hm : s.cust.mat = some m) {i : Nat}
    (hi : custFirstReservableOpk m.opks = some i) :
    OpkStep L [] s (reserveAndPut cap i env s).2 True := by
  rcases reserveAndPut_cases cap env hinv.ok hm hi with ⟨e, -, h⟩ | ⟨r, blob', hp, -, h⟩
  · rw [h]
    exact .refl s
  · rw [h]
    have hedit : Edit s.cust.desc m s.cust.slots { m with opks := setExported i true m.opks }
        s.cust.slots := .reserve i
    refine .of_edit hinv hm hedit (custSealAndPersist_ok hp) ?_
    rw [secrets_setExported]
    exact List.Subperm.refl _

/-- A publication: a replenishment that was persisted, if the pool was spent, and a reservation that
changes no key. -/
theorem OpkStep.publish (hinv : s.Inv suites L) (cap : Nat) (rnd : KeyRand β)
    (mint reserve : PersistEnv β) :
    OpkStep L (s.mints (.publishBundle cap rnd mint reserve)) s
      (gyCustodianPublishBundle cap rnd mint reserve s).2 ok := by
  rcases gyCustodianPublishBundle_cases cap rnd mint reserve hinv.ok with
    ⟨e, h⟩ | ⟨m, i, hm, hi, h⟩ | ⟨m, gen, blob', i, hm, hnone, hroom, hgen, hp, hi, h⟩
  · rw [h]
    exact .refl s
  · have hnew : s.mints (.publishBundle cap rnd mint reserve) = [] := by
      simp only [Live.mints, hm, Option.bind_some, hi]
    rw [h, hnew]
    exact (OpkStep.reserve hinv cap reserve hm hi).mono fun _ => trivial
  · have hnew : s.mints (.publishBundle cap rnd mint reserve) = gen.map OpkOf.secret := by
      simp only [Live.mints, hm, Option.bind_some, hnone]
      exact replenishMints_eq hm hroom hgen
    have hmove : Move s _ := .edit hm (.replenish hroom hgen) (custSealAndPersist_ok hp)
    have hmint : OpkStep L (gen.map OpkOf.secret) s _ True := .of_edit hinv hm
      (.replenish hroom hgen) (custSealAndPersist_ok hp) (secrets_fillOpks m gen).subperm
    rw [h, hnew]
    refine (hmint.trans ?_).mono fun _ => trivial
    exact OpkStep.reserve (hmove.inv hinv) cap reserve rfl hi

/-- A consumption removes the key from the live object. It reports success only if the removal was
persisted or there was nothing to remove. -/
theorem OpkStep.consume (hinv : s.Inv suites L) (pkid : UInt32) (app : Option GyErr)
    (env : PersistEnv β) :
    OpkStep L [] s (trConsumeOpk pkid app env s).2 ((trConsumeOpk pkid app env s).1 = .ok ()) := by
  rcases trConsumeOpk_cases pkid app env s with
    ⟨e, -, h⟩ | ⟨-, -, h⟩ | ⟨m, i, r, blob', hm, hi, hp, h⟩
  · rw [h]
    exact .refl s
  · rw [h]
    exact .refl s
  · rw [h]
    have hsub := secrets_set_none hi
    rcases hp with ⟨rfl, hp⟩ | ⟨⟨e, rfl⟩, rfl⟩
    · exact .of_edit hinv hm (.consume hi) hp hsub
    · refine ⟨?_, Or.inr ⟨fun _ hl => hl, fun hok => (nomatch hok)⟩⟩
      rw [Live.secrets_of_mat hm]
      exact hsub

/-- Deleting a prekey may drop a secret. -/
theorem OpkStep.delete (hinv : s.Inv suites L) (handle : Nat) (env : PersistEnv β) :
    OpkStep L [] s (gyCustodianDeletePrekey handle env s).2 ok := by
  unfold gyCustodianDeletePrekey
  cases hget : gyCustodianSlotGet handle s.cust.slots with
  | error e => exact .refl s
  | ok k =>
    obtain ⟨type, pkid⟩ := k
    cases hm : s.cust.mat with
    | none => cases type <;> exact .refl s
    | some m =>
      have hspks := hinv.ok.spks hm
      cases type with
      | identity => exact .refl s
      | sak => exact .refl s
      | spk =>
        rcases deleteSpk_cases handle pkid env hm hspks with ⟨e, h⟩ | ⟨blob', hhead, hmem, hp, h⟩
        · simp only [h]
          exact .refl s
        · simp only [h]
          exact .of_edit hinv hm (.dropSpk hget hhead hmem) hp (List.Subperm.refl _)
      | opk =>
        rcases deleteOpk_cases handle pkid env hm hspks with ⟨e, h⟩ | ⟨i, blob', hi, hp, h⟩
        · simp only [h]
          exact .refl s
        · simp only [h]
          exact .of_edit hinv hm (.dropOpk hget hi) hp (secrets_set_none hi)

/-- What a call does to the pool. -/
theorem OpkStep.call (hinv : s.Inv suites L) (call : CustCall β) :
    OpkStep L (s.mints call) s (s.step call).2 (∃ r, (s.step call).1 = .ok r) := by
  cases call with
  | generateIdentity timestamp n rnd env =>
    rcases gyCustodianGenerateIdentity_cases timestamp n rnd env s with
      ⟨e, h⟩ | ⟨m, blob', hnone, hn, hgen, hp, h⟩
    · simp only [Live.step, h]
      exact .refl s
    · have hmove : Move s _ := .identity hnone hn hgen hp
      simp only [Live.step, h, mints_generateIdentity hnone hn hgen]
      refine .of_persisted (hmove.inv hinv) hp ?_
      exact (List.sublist_append_left _ _).subperm
  | rotateSignedPrekey timestamp rnd env =>
    rcases gyCustodianRotateSignedPrekey_cases timestamp rnd env s with
      ⟨e, h⟩ | ⟨m, spk, blob', hm, hgen, hp, h⟩
    · simp only [Live.step, h]
      exact .refl s
    · simp only [Live.step, h]
      exact .of_edit hinv hm (.rotateSpk hgen) hp (List.Subperm.refl _)
  | generateOnetimePrekeys count rnd env => exact OpkStep.replenish hinv count rnd env
  | publishBundle cap rnd mint reserve => exact OpkStep.publish hinv cap rnd mint reserve
  | consumeOpk pkid app env =>
    refine (OpkStep.consume hinv pkid app env).mono fun hreply => ?_
    obtain ⟨r, hr⟩ := hreply
    obtain ⟨u, hu, -⟩ := Except.bind_eq_ok_iff.mp hr
    exact hu
  | deletePrekey handle env => exact OpkStep.delete hinv handle env
  | generateAppkey now expiry rnd env =>
    rcases gyCustodianGenerateAppkey_cases now expiry rnd env s with
      ⟨e, h⟩ | ⟨m, sak, blob', hm, hnil, hgen, hp, h⟩
    · simp only [Live.step, h]
      exact .refl s
    · simp only [Live.step, h]
      exact .of_edit hinv hm (.appkey hgen hnil) hp (List.Subperm.refl _)
  | rotateAppkey now expiry rnd env =>
    rcases gyCustodianRotateAppkey_cases now expiry rnd env s with
      ⟨e, h⟩ | ⟨m, sak, blob', hm, -, hgen, hp, h⟩
    · simp only [Live.step, h]
      exact .refl s
    · simp only [Live.step, h]
      exact .of_edit hinv hm (.rotateSak hgen) hp (List.Subperm.refl _)
  | changeCredential newCred rnd load fault =>
    rcases gyCustodianChangeCredential_cases newCred rnd load fault s with
      ⟨e, h⟩ | ⟨hdr, tail, wrap, r, blob', -, hdec, hwrap, hp, h⟩
    · simp only [Live.step, h]
      exact .refl s
    · simp only [Live.step, h]
      refine ⟨List.Subperm.refl _, Or.inr ⟨fun l hl => ?_, fun _ => rfl⟩⟩
      rcases hp with ⟨-, hdr', henc, rfl⟩ | ⟨-, rfl⟩
      · -- the tail that was carried over is the sealed material of the old blob
        obtain ⟨wrap', m, hw, ⟨hdr0, tail0, henc0, htail, hblob⟩, hfits, hsec⟩ := hl
        have hdec0 := gyCustHeaderDecode_encode henc0 tail0
        rw [← hblob] at hdec0
        obtain ⟨-, rfl⟩ := Prod.mk.inj (Except.ok.inj (hdec0.symm.trans hdec))
        exact ⟨wrap, m, ⟨newCred, rnd, hwrap⟩, ⟨⟨_, _, henc, htail, rfl⟩⟩, hfits, hsec⟩
      · exact hl

/-! ## The invariant -/

/-- The private keys a custodian holds, live and in its blob, came from the generator, differ from
each other, and none of them is gone. -/
structure OpkInv (suites : SuiteTable β) (L : (desc : SuiteDesc β) → LayoutLaws desc)
    (made gone : List (OpkPrivate β)) (s : Live β) : Prop where
  inv : s.Inv suites L
  nodup : s.secrets.Nodup
  live : ∀ k ∈ s.secrets, k ∈ made ∧ k ∉ gone
  stored : ∃ l, s.Stores L l ∧ l.Nodup ∧ ∀ k ∈ l, k ∈ made ∧ k ∉ gone
  gone_made : ∀ k ∈ gone, k ∈ made

section Spent

variable [DecidableEq β]

/-- The private keys a step takes from the live custodian. -/
def spent (s s' : Live β) : List (OpkPrivate β) := s.secrets.filter fun k => k ∉ s'.secrets

omit [Octet β] [Signer β] [Sodium β] [SodiumKeystore β] [StructLayout β] in
/-- A spent key was held before and is not held now. -/
theorem mem_spent {k : OpkPrivate β} : k ∈ spent s s' ↔ k ∈ s.secrets ∧ k ∉ s'.secrets := by
  simp [spent]

variable {made gone : List (OpkPrivate β)}

/-- A step keeps the invariant if the generator repeats no key, and what a step that reports success
takes from the live custodian is gone. -/
theorem OpkInv.step (h : OpkInv suites L made gone s) (hstep : OpkStep L new s s' ok)
    (hinv : s'.Inv suites L) (hmade : (made ++ new).Nodup) :
    OpkInv suites L (made ++ new) gone s' ∧
      (ok → OpkInv suites L (made ++ new) (gone ++ spent s s') s') := by
  obtain ⟨-, hnew, hfresh⟩ := List.nodup_append.mp hmade
  have hold : ∀ {l : List (OpkPrivate β)}, (∀ k ∈ l, k ∈ made ∧ k ∉ gone) →
      ∀ k ∈ l, k ∈ made ++ new ∧ k ∉ gone :=
    fun hl k hk => ⟨List.mem_append_left _ (hl k hk).1, (hl k hk).2⟩
  have hgone : ∀ k ∈ gone, k ∈ made ++ new := fun k hk => List.mem_append_left _ (h.gone_made k hk)
  -- old and new keys differ, because the generator had delivered the old ones
  have hpool : (new ++ s.secrets).Nodup := by
    refine List.nodup_append.mpr ⟨hnew, h.nodup, fun a ha b hb hab => ?_⟩
    exact hfresh b (h.live b hb).1 a ha hab.symm
  obtain ⟨l, hperm, hsub⟩ := hstep.live
  have hnodup : s'.secrets.Nodup := hperm.nodup_iff.mp (hpool.sublist hsub)
  have hlive : ∀ k ∈ s'.secrets, k ∈ made ++ new ∧ k ∉ gone := by
    intro k hk
    rcases List.mem_append.mp (hstep.live.subset hk) with hk | hk
    · exact ⟨List.mem_append_right _ hk, fun hg => hfresh k (h.gone_made k hg) k hk rfl⟩
    · exact hold h.live k hk
  have hkeep : OpkInv suites L (made ++ new) gone s' := by
    refine ⟨hinv, hnodup, hlive, ?_, hgone⟩
    rcases hstep.blob with hb | ⟨hcarry, -⟩
    · exact ⟨_, hb, hnodup, hlive⟩
    · obtain ⟨l, hl, hln, hlk⟩ := h.stored
      exact ⟨l, hcarry l hl, hln, hold hlk⟩
  refine ⟨hkeep, fun hok => ?_⟩
  rcases hstep.blob with hb | ⟨-, hsame⟩
  · have hlive' : ∀ k ∈ s'.secrets, k ∈ made ++ new ∧ k ∉ gone ++ spent s s' := by
      intro k hk
      refine ⟨(hlive k hk).1, fun hg => ?_⟩
      rcases List.mem_append.mp hg with hg | hg
      · exact (hlive k hk).2 hg
      · exact (mem_spent.mp hg).2 hk
    refine ⟨hinv, hnodup, hlive', ⟨_, hb, hnodup, hlive'⟩, fun k hk => ?_⟩
    rcases List.mem_append.mp hk with hk | hk
    · exact hgone k hk
    · exact List.mem_append_left _ (h.live k (mem_spent.mp hk).1).1
  · -- a step that leaves the live keys takes none
    have hnone : spent s s' = [] := by
      simp [spent, hsame hok]
    rw [hnone, List.append_nil]
    exact hkeep

end Spent

/-! ## Receiving on a live custodian -/

/-- The keys of a material as the protocol calls use them. What belongs to the other suite family is
empty. -/
def protocolKeys (desc : SuiteDesc β) (aeadId : UInt8) (expiry : ExpiryCfg) (uid did : Bytes β) :
    {h : Bool} → IdMat β h → Custodian β
  | false, ⟨(ik : CurvePair β), spks, _, _⟩ =>
    ⟨desc, ik, spks.map fun k : SignedPrekey β => k.kp,
      ⟨⟨⟨⟨0, 0, []⟩, []⟩, []⟩, [], []⟩, [], aeadId,
      expiry, uid, did⟩
  | true, ⟨(ik : HybridIdentityKeypair β), spks, _, _⟩ =>
    ⟨desc, ⟨⟨0, 0, []⟩, []⟩, [], ik.toHybridIdentityPair,
      spks.map fun k : StoredHybridSpk β => k.toHybridSignedPrekey, aeadId, expiry, uid, did⟩

/-- The pool of a material as a receive reads it. -/
def IdMat.pool : {h : Bool} → IdMat β h → OpkPool β
  | false, m => ⟨(m.held : List (CurvePair β)), []⟩
  | true, m => ⟨[], (m.held : List (HybridPair β))⟩

/-- A live custodian beside the records of the application's store. -/
structure CustWorld (β : Type) where
  live : Live β
  recs : RecKey β → Option (Record β)

/-- What the environment supplies to one callback of a commit: the code with which the application's
callback fails, if it does, and the persist of a consumption. -/
structure CallbackEnv (β : Type) where
  app : Option GyErr
  persist : PersistEnv β

/-- What the environment supplies to a receive: the message and its sender, the clock, random input,
which loads fail, and the callbacks of the commit in turn. -/
structure RecvInput (β : Type) where
  aeadId : UInt8
  now : Option UInt64
  userId : Bytes β
  deviceId : Bytes β
  msg : Bytes β
  cap : Nat
  rnd : RatchetRand β
  load : RecKey β → Option GyErr
  env : Nat → CallbackEnv β

variable [DecidableEq β]

/-- One callback of a commit. Records go to the application's store; a consumed one-time prekey goes
through `tr_consume_opk`. -/
def CustWorld.callback (env : CallbackEnv β) : Callback β → Cmd GyErr (CustWorld β) Unit
  | .store k r => fun w =>
    match env.app with
    | some e => (.error e, w)
    | none => (.ok (), { w with recs := Function.update w.recs k (some r) })
  | .delete k => fun w =>
    match env.app with
    | some e => (.error e, w)
    | none => (.ok (), { w with recs := Function.update w.recs k none })
  -- the third callback is the custodian's own: it writes the key material
  | .consumeOpk pkid => fun w =>
    let (r, s) := trConsumeOpk pkid env.app env.persist w.live
    (r, { w with live := s })

/-- `gy_op_commit` on a live custodian: the callbacks up to the first that fails. -/
def CustWorld.commit : List (Callback β) → (Nat → CallbackEnv β) → Cmd GyErr (CustWorld β) Unit
  | [], _ => pure ()
  | cb :: cbs, env => do
    CustWorld.callback (env 0) cb
    CustWorld.commit cbs fun n => env (n + 1)

/-- The program of a receive on a custodian with an identity. -/
def recvProgOf (c : GyCustodian β) (m : IdMat β c.desc.isHybrid) (x : RecvInput β) :
    OpM β (Bytes β) :=
  receiveProg (protocolKeys c.desc x.aeadId c.expiry c.selfUid c.selfDid m) x.now m.pool x.userId
    x.deviceId x.msg x.cap x.rnd

/-- What the load callback returns to a receive. -/
def CustWorld.view (w : CustWorld β) (x : RecvInput β) :
    RecKey β → Except GyErr (Option (Record β)) :=
  (⟨w.recs, ⟨[], []⟩⟩ : Disk β).view x.load

/-- `gy_receive` on a live custodian. -/
def CustWorld.receive (x : RecvInput β) : Cmd GyErr (CustWorld β) (Bytes β) := fun w =>
  match w.live.cust.mat with
  | none => (.error .state, w)
  | some m =>
    match (recvProgOf w.live.cust m x).run engine (w.view x) Op.empty with
    | (.error e, _) => (.error e, w)
    | (.ok pt, op) =>
      match CustWorld.commit op.callbacks x.env w with
      | (.error e, w') => (.error e, w')
      | (.ok (), w') => (.ok pt, w')

/-! ## Establishing a session -/

/-- Whether an initiation is new to its receiver: its identifier is not among the sessions the
sender's device record lists. -/
def isNewInitiation (isHybrid : Bool) (desc : SuiteDesc β)
    (view : RecKey β → Except GyErr (Option (Record β))) (userId deviceId : Bytes β)
    (m : InitMsg β) : Bool :=
  match gySessionBase desc m.ik.curve m.ek, gyDevrecKey userId deviceId with
  | .ok base, .ok dk =>
    match ((gyOpLoadDeviceOf isHybrid dk).run engine view Op.empty).1 with
    | .ok dev => (dev.bind fun dev => sessionPosition dev (sessionIdOf base)).isNone
    | .error _ => false
  | _, _ => false

/-- The one-time prekey with which a receive establishes a session: the message is an initiation
that is new, and its handshake is answered with the key. -/
def establishingKey (w : CustWorld β) (x : RecvInput β) : Option (OpkPrivate β) :=
  match w.live.cust.mat with
  | none => none
  | some m =>
    let c := protocolKeys w.live.cust.desc x.aeadId w.live.cust.expiry w.live.cust.selfUid
      w.live.cust.selfDid m
    match c.initiation x.now m.pool x.msg with
    | some (im, .ok (_, some pkid)) =>
      -- a repeated first message opens the session it made before
      if isNewInitiation c.desc.isHybrid c.desc (w.view x) x.userId x.deviceId im then
        (m.held.find? fun k => k.pkid = pkid).map OpkOf.secret
      else none
    | _ => none

omit [Signer β] [SodiumKeystore β] [StructLayout β] in
/-- A new initiation that is accepted stages the consumption of the one-time prekey of its
handshake. -/
theorem recvInitOf_new_consumes {isHybrid : Bool} {c : RecvCtx β} {userId deviceId : Bytes β}
    {m : InitMsg β} {s : Session β} {pkid : UInt32} {cap : Nat} {rnd : RatchetRand β}
    {view : RecKey β → Except GyErr (Option (Record β))} {pt : Bytes β} {op : Op β}
    (hnew : isNewInitiation isHybrid c.desc view userId deviceId m = true)
    (hrun : (recvInitOf isHybrid c userId deviceId m (.ok (s, some pkid)) cap rnd).run engine view
      Op.empty = (.ok pt, op)) : Defer.consumeOpk pkid ∈ op.defers := by
  unfold isNewInitiation at hnew
  unfold recvInitOf at hrun
  cases hbase : gySessionBase c.desc m.ik.curve m.ek with
  | error e => simp [hbase] at hnew
  | ok base =>
    cases hdk : gyDevrecKey userId deviceId with
    | error e => simp [hbase, hdk] at hnew
    | ok dk =>
      rw [hbase, hdk] at hnew
      rw [hbase, hdk] at hrun
      dsimp only at hnew hrun
      rw [Txn.run_bind, Cmd.bind_eq_ok_iff] at hrun
      obtain ⟨dk', op0, hlift, hrun⟩ := hrun
      rw [Txn.run_lift] at hlift
      obtain ⟨hdk', rfl⟩ := Prod.mk.inj hlift
      obtain rfl := Except.ok.inj hdk'
      rw [Txn.run_bind, Cmd.bind_eq_ok_iff] at hrun
      obtain ⟨dev, op1, hload, hrun⟩ := hrun
      rw [hload] at hnew
      dsimp only at hnew
      rw [Option.isNone_iff_eq_none] at hnew
      rw [hnew] at hrun
      dsimp only at hrun
      rw [Txn.run_bind, Cmd.bind_eq_ok_iff] at hrun
      obtain ⟨_, op2, -, hrun⟩ := hrun
      split at hrun
      · cases hrun
      · rw [Txn.run_bind, Cmd.bind_eq_ok_iff] at hrun
        obtain ⟨_, op3, hacc, hrun⟩ := hrun
        obtain ⟨-, rfl⟩ := Prod.mk.inj hrun
        -- the consumption is the last action of the acceptance
        unfold acceptFresh at hacc
        rw [Txn.run_bind, Cmd.bind_eq_ok_iff] at hacc
        obtain ⟨_, op4, -, hacc⟩ := hacc
        rw [Txn.run_bind, Cmd.bind_eq_ok_iff] at hacc
        obtain ⟨_, op5, -, hacc⟩ := hacc
        simp only [consumeOpkRef, gyOpConsumeOpk, Txn.run_perform, engine, stageAct] at hacc
        cases hpush : pushDefer op5 (.consumeOpk pkid) with
        | error e =>
          rw [hpush] at hacc
          cases hacc
        | ok op6 =>
          rw [hpush] at hacc
          obtain ⟨-, rfl⟩ := Prod.mk.inj hacc
          rw [pushDefer_ok hpush]
          simp

/-! ## Commits -/

/-- The one-time prekeys of a live custodian as pairs of identifier and private key. -/
def Live.keyed (s : Live β) : List (UInt32 × OpkPrivate β) :=
  s.cust.mat.elim [] fun m => m.held.map fun k => (k.pkid, k.secret)

omit [Octet β] [Signer β] [Sodium β] [SodiumKeystore β] [StructLayout β] [DecidableEq β] in
/-- The secrets without their identifiers. -/
theorem Live.secrets_eq_keyed (s : Live β) : s.secrets = s.keyed.map Prod.snd := by
  rw [Live.secrets, Live.keyed]
  cases s.cust.mat with
  | none => rfl
  | some m => simp [optSecrets, IdMat.secrets, Function.comp_def]

omit [Octet β] [Signer β] [Sodium β] [SodiumKeystore β] [StructLayout β] [DecidableEq β] in
/-- The pairs of identifier and secret that are held. -/
theorem mem_keyed {m : IdMat β s.cust.desc.isHybrid} (hm : s.cust.mat = some m)
    {p : UInt32 × OpkPrivate β} : p ∈ s.keyed ↔ ∃ k ∈ m.held, (k.pkid, k.secret) = p := by
  rw [Live.keyed, hm, Option.elim_some, List.mem_map]

omit [Octet β] [Signer β] [Sodium β] [SodiumKeystore β] [StructLayout β] [DecidableEq β] in
/-- An identifier without a slot is that of no key held. -/
theorem pkid_ne_of_opkIndex {h : Bool} {pkid : UInt32} {m : IdMat β h}
    (hi : opkIndex pkid m.opks = none) {k : OpkOf β h} (hk : k ∈ m.held) : k.pkid ≠ pkid := by
  rw [opkIndex, List.findIdx?_eq_none_iff] at hi
  obtain ⟨o, ho, hok⟩ := List.mem_filterMap.mp hk
  obtain ⟨x, rfl, rfl⟩ := Option.map_eq_some_iff.mp hok
  simpa using hi _ ho

omit [Signer β] [DecidableEq β] in
/-- A consumption adds no key; one that reports success leaves no key of the identifier. -/
theorem keyed_trConsumeOpk {s : Live β} (hok : s.cust.Ok) (pkid : UInt32) (app : Option GyErr)
    (env : PersistEnv β) :
    (trConsumeOpk pkid app env s).2.keyed ⊆ s.keyed ∧
      ((trConsumeOpk pkid app env s).1 = .ok () →
        ∀ k, (pkid, k) ∉ (trConsumeOpk pkid app env s).2.keyed) := by
  rcases trConsumeOpk_cases pkid app env s with
    ⟨e, -, h⟩ | ⟨-, hnone, h⟩ | ⟨m, i, r, blob', hm, hi, -, h⟩
  · rw [h]
    exact ⟨List.Subset.refl _, fun h => (nomatch h)⟩
  · rw [h]
    refine ⟨List.Subset.refl _, fun _ k hk => ?_⟩
    cases hm : s.cust.mat with
    | none => simp [Live.keyed, hm] at hk
    | some m =>
      obtain ⟨k', hk', heq⟩ := (mem_keyed hm).mp hk
      exact pkid_ne_of_opkIndex (hnone m hm) hk' (Prod.mk.inj heq).1
  · rw [h]
    obtain ⟨x, hx, hxid⟩ := opkIndex_eq_some hi
    have hperm := heldKeys_set_none hx
    have hids : (m.held.map OpkOf.pkid).Nodup := by
      have := hok.distinct
      rwa [GyCustodian.heldIds, hm, Option.elim_some] at this
    rw [IdMat.held_eq, (hperm.map OpkOf.pkid).nodup_iff, List.map_cons, List.nodup_cons] at hids
    refine ⟨fun p hp => ?_, fun _ k hk => ?_⟩
    · obtain ⟨k, hk, rfl⟩ := List.mem_map.mp hp
      exact (mem_keyed hm).mpr ⟨k, hperm.mem_iff.mpr (List.mem_cons_of_mem _ hk), rfl⟩
    · -- the identifiers differ, so the key that went was the only one of its identifier
      obtain ⟨k', hk', heq⟩ := List.mem_map.mp hk
      refine hids.1 ?_
      rw [hxid, ← (Prod.mk.inj heq).1]
      exact List.mem_map_of_mem hk'

variable {made gone : List (OpkPrivate β)} {w w' : CustWorld β}

omit [Signer β] in
/-- A callback for a record leaves the live custodian. -/
theorem CustWorld.live_callback (env : CallbackEnv β) {cb : Callback β} (w : CustWorld β)
    (hcb : ∀ pkid, cb ≠ .consumeOpk pkid) : (CustWorld.callback env cb w).2.live = w.live := by
  cases cb with
  | store k r => cases h : env.app <;> simp [CustWorld.callback, h]
  | delete k => cases h : env.app <;> simp [CustWorld.callback, h]
  | consumeOpk pkid => exact absurd rfl (hcb pkid)

/-- A callback keeps the invariant and adds no key; one that reports success is a step that does. -/
theorem CustWorld.callback_spec (hw : OpkInv suites L made gone w.live) (hmade : made.Nodup)
    (env : CallbackEnv β) (cb : Callback β) {r : Except GyErr Unit}
    (hcb : CustWorld.callback env cb w = (r, w')) :
    OpkInv suites L made gone w'.live ∧ w'.live.keyed ⊆ w.live.keyed ∧
      (r = .ok () → OpkStep L [] w.live w'.live True ∧
        ∀ pkid, cb = .consumeOpk pkid → ∀ k, (pkid, k) ∉ w'.live.keyed) := by
  -- a record goes to the application's store only
  have hrecord : (∀ pkid, cb ≠ .consumeOpk pkid) →
      OpkInv suites L made gone w'.live ∧ w'.live.keyed ⊆ w.live.keyed ∧
        (r = .ok () → OpkStep L [] w.live w'.live True ∧
          ∀ pkid, cb = .consumeOpk pkid → ∀ k, (pkid, k) ∉ w'.live.keyed) := by
    intro hne
    have hlive := CustWorld.live_callback env w hne
    rw [hcb] at hlive
    rw [show w'.live = w.live from hlive]
    exact ⟨hw, List.Subset.refl _, fun _ => ⟨.refl _, fun pkid h => absurd h (hne pkid)⟩⟩
  cases cb with
  | store k rec => exact hrecord fun _ h => (nomatch h)
  | delete k => exact hrecord fun _ h => (nomatch h)
  | consumeOpk pkid =>
    obtain ⟨rfl, rfl⟩ := Prod.mk.inj hcb
    have hstep := OpkStep.consume hw.inv pkid env.app env.persist
    have hinv : (trConsumeOpk pkid env.app env.persist w.live).2.Inv suites L :=
      moves_inv (Live.step_moves hw.inv.ok (.consumeOpk pkid env.app env.persist)) hw.inv
    have hkeyed := keyed_trConsumeOpk hw.inv.ok pkid env.app env.persist
    have hnew := (hw.step hstep hinv (by rwa [List.append_nil])).1
    rw [List.append_nil] at hnew
    refine ⟨hnew, hkeyed.1, fun hok => ⟨hstep.mono fun _ => hok, fun pkid' h k => ?_⟩⟩
    obtain rfl := Callback.consumeOpk.inj h
    exact hkeyed.2 hok k

/-- A commit keeps the invariant, also when it stops at a callback that fails. One that reports
success leaves no key of an identifier it consumed. -/
theorem CustWorld.commit_spec (hw : OpkInv suites L made gone w.live) (hmade : made.Nodup)
    {cbs : List (Callback β)} {env : Nat → CallbackEnv β} {r : Except GyErr Unit}
    (hcommit : CustWorld.commit cbs env w = (r, w')) :
    OpkInv suites L made gone w'.live ∧ w'.live.keyed ⊆ w.live.keyed ∧
      (r = .ok () → OpkStep L [] w.live w'.live True ∧
        ∀ pkid, .consumeOpk pkid ∈ cbs → ∀ k, (pkid, k) ∉ w'.live.keyed) := by
  induction cbs generalizing w env with
  | nil =>
    obtain ⟨-, rfl⟩ := Prod.mk.inj hcommit
    exact ⟨hw, List.Subset.refl _, fun _ => ⟨.refl _, fun _ h => (nomatch h)⟩⟩
  | cons cb cbs ih =>
    rw [CustWorld.commit, Cmd.bind_apply] at hcommit
    rcases hcb : CustWorld.callback (env 0) cb w with ⟨r1, w1⟩
    obtain ⟨hw1, hkeyed1, hok1⟩ := CustWorld.callback_spec hw hmade (env 0) cb hcb
    rw [hcb] at hcommit
    cases r1 with
    | error e =>
      obtain ⟨rfl, rfl⟩ := Prod.mk.inj hcommit
      exact ⟨hw1, hkeyed1, fun h => (nomatch h)⟩
    | ok u =>
      obtain ⟨hw', hkeyed, hok⟩ := ih hw1 hcommit
      refine ⟨hw', List.Subset.trans hkeyed hkeyed1, fun h => ?_⟩
      obtain ⟨hstep, hgone⟩ := hok h
      obtain ⟨hstep1, hgone1⟩ := hok1 rfl
      refine ⟨hstep1.trans hstep, fun pkid hmem k hk => ?_⟩
      rcases List.mem_cons.mp hmem with rfl | hmem
      · exact hgone1 pkid rfl k (hkeyed hk)
      · exact hgone pkid hmem k hk

omit [Signer β] [SodiumKeystore β] [StructLayout β] in
/-- A receive that establishes a session with a one-time prekey stages its consumption; the key is
one of the pool. -/
theorem establishingKey_consumed {m : IdMat β w.live.cust.desc.isHybrid}
    (hm : w.live.cust.mat = some m) {x : RecvInput β} {key : OpkPrivate β}
    (hkey : establishingKey w x = some key) {pt : Bytes β} {op : Op β}
    (hrun : (recvProgOf w.live.cust m x).run engine (w.view x) Op.empty = (.ok pt, op)) :
    ∃ pkid, (pkid, key) ∈ w.live.keyed ∧ .consumeOpk pkid ∈ op.callbacks := by
  unfold establishingKey at hkey
  rw [hm] at hkey
  dsimp only at hkey
  split at hkey
  · rename_i im s pkid hinit
    split at hkey
    · rename_i hnew
      obtain ⟨k, hfind, rfl⟩ := Option.map_eq_some_iff.mp hkey
      have hmem := List.mem_of_find?_eq_some hfind
      have hpkid : k.pkid = pkid := by simpa using List.find?_some hfind
      refine ⟨pkid, (mem_keyed hm).mpr ⟨k, hmem, by rw [hpkid]⟩, ?_⟩
      -- the program takes the initiation branch, and the initiation is new
      unfold recvProgOf at hrun
      generalize hc : protocolKeys w.live.cust.desc x.aeadId w.live.cust.expiry
        w.live.cust.selfUid w.live.cust.selfDid m = c at *
      obtain ⟨im', respond, hinit', heq⟩ | ⟨hno, -⟩ :=
        receiveProg_cases c x.now m.pool x.userId x.deviceId x.msg x.cap x.rnd
      · obtain ⟨rfl, rfl⟩ := Prod.mk.inj (Option.some.inj (hinit'.symm.trans hinit))
        rw [heq] at hrun
        have hdesc : (c.recv x.now).desc = c.desc := by
          unfold Custodian.recv
          split <;> rfl
        rw [← hdesc] at hnew
        have hdefer := recvInitOf_new_consumes (by rw [← hdesc]; exact hnew) hrun
        exact List.mem_append_right _ (List.mem_map.mpr ⟨_, hdefer, rfl⟩)
      · rw [hno] at hinit
        cases hinit
    · cases hkey
  · cases hkey

/-- A receive keeps the invariant, whichever of its callbacks fail. One that returns success is a
step that reports success, and the key that established its session is no longer held. -/
theorem CustWorld.receive_spec (hw : OpkInv suites L made gone w.live) (hmade : made.Nodup)
    (x : RecvInput β) :
    OpkInv suites L made gone (w.receive x).2.live ∧
      ∀ pt, (w.receive x).1 = .ok pt → OpkStep L [] w.live (w.receive x).2.live True ∧
        ∀ key, establishingKey w x = some key →
          key ∈ w.live.secrets ∧ key ∉ (w.receive x).2.live.secrets := by
  unfold CustWorld.receive
  cases hm : w.live.cust.mat with
  | none => exact ⟨hw, fun _ h => (nomatch h)⟩
  | some m =>
    dsimp only
    rcases hrun : (recvProgOf w.live.cust m x).run engine (w.view x) Op.empty with ⟨_ | pt, op⟩
    · exact ⟨hw, fun _ h => (nomatch h)⟩
    · dsimp only
      rcases hcommit : CustWorld.commit op.callbacks x.env w with ⟨r, w1⟩
      obtain ⟨hw1, hkeyed, hok⟩ := CustWorld.commit_spec hw hmade hcommit
      cases r with
      | error e => exact ⟨hw1, fun _ h => (nomatch h)⟩
      | ok u =>
        obtain ⟨hstep, hgone⟩ := hok rfl
        refine ⟨hw1, fun _ _ => ⟨hstep, fun key hkey => ?_⟩⟩
        obtain ⟨pkid, hheld, hcons⟩ := establishingKey_consumed hm hkey hrun
        have hnodup := hw.nodup
        rw [Live.secrets_eq_keyed] at hnodup
        refine ⟨?_, fun hin => ?_⟩
        · rw [Live.secrets_eq_keyed]
          exact List.mem_map.mpr ⟨_, hheld, rfl⟩
        · -- a key that is still held has the identifier it had, which was consumed
          rw [Live.secrets_eq_keyed] at hin
          obtain ⟨⟨pkid', key'⟩, hpair, rfl⟩ := List.mem_map.mp hin
          have hsame := List.inj_on_of_nodup_map hnodup (hkeyed hpair) hheld rfl
          obtain ⟨rfl, -⟩ := Prod.mk.inj hsame
          exact hgone pkid' hcons key' hpair

/-! ## Runs -/

/-- What a run has done with private one-time prekeys so far: those the generator delivered, those
that established a session in a receive that returned success, and those that left the live
custodian in a call that returned success. -/
structure OpkHistory (β : Type) where
  made : List (OpkPrivate β)
  used : List (OpkPrivate β)
  gone : List (OpkPrivate β)

/-- A list if a call returned success. -/
def onSuccess {α τ : Type} (r : Except GyErr α) (l : List τ) : List τ :=
  match r with
  | .ok _ => l
  | .error _ => []

/-- Runs of a custodian over a store, with what they did to one-time prekeys. The other protocol
calls change records only, and may leave any. A close leaves the blob; a crash is a close. -/
inductive OneTimeRun (suites : SuiteTable β) : OpkHistory β → CustWorld β → Prop
  | create {suiteId cred uid did clock cfg kekRand rnd fault blob c blob'}
      (h : gyCustodianCreate suites suiteId cred uid did clock cfg kekRand rnd fault blob =
        (.ok c, blob')) (recs : RecKey β → Option (Record β)) :
      OneTimeRun suites ⟨[], [], []⟩ ⟨⟨c, blob'⟩, recs⟩
  | call {hist w} (call : CustCall β) (h : OneTimeRun suites hist w) :
      OneTimeRun suites ⟨hist.made ++ w.live.mints call, hist.used, hist.gone ++
        onSuccess (w.live.step call).1 (spent w.live (w.live.step call).2)⟩
        ⟨(w.live.step call).2, w.recs⟩
  | receive {hist w} (x : RecvInput β) (h : OneTimeRun suites hist w) :
      OneTimeRun suites ⟨hist.made, hist.used ++
        onSuccess (w.receive x).1 (establishingKey w x).toList, hist.gone ++
        onSuccess (w.receive x).1 (spent w.live (w.receive x).2.live)⟩ (w.receive x).2
  | records {hist w} (recs : RecKey β → Option (Record β)) (h : OneTimeRun suites hist w) :
      OneTimeRun suites hist ⟨w.live, recs⟩
  -- what was consumed stays consumed
  | reopen {hist w cred c} (h : OneTimeRun suites hist w)
      (hopen : gyCustodianOpen suites cred w.live.blob = .ok c) :
      OneTimeRun suites hist ⟨⟨c, w.live.blob⟩, w.recs⟩

/-- The invariant of runs: besides that of the pool, a key that established a session is gone, and
did so once. -/
structure OpkHistory.Inv (suites : SuiteTable β) (L : (desc : SuiteDesc β) → LayoutLaws desc)
    (hist : OpkHistory β) (w : CustWorld β) : Prop where
  pool : OpkInv suites L hist.made hist.gone w.live
  once : hist.used.Nodup
  used_gone : ∀ k ∈ hist.used, k ∈ hist.gone

omit [DecidableEq β] in
/-- A custodian that was opened again holds what its blob stored. -/
theorem OpkInv.reopen (laws : SealLaws β) {s : Live β} (h : OpkInv suites L made gone s)
    {cred : Bytes β} {c : GyCustodian β} (hopen : gyCustodianOpen suites cred s.blob = .ok c) :
    OpkInv suites L made gone ⟨c, s.blob⟩ := by
  obtain ⟨l, ⟨wrap, m, hwrap, hp, hfits, rfl⟩, hnodup, hl⟩ := h.stored
  have hinv := h.inv.reopen laws hopen
  obtain rfl := gyCustodianOpen_stored laws (L _) h.inv.suite hwrap hp hfits hopen
  exact ⟨hinv, hnodup, hl, ⟨_, ⟨wrap, m, hwrap, hp, hfits, rfl⟩, hnodup, hl⟩, h.gone_made⟩

/-- The invariant holds along every run in which the generator repeats no private key. -/
theorem OneTimeRun.inv (laws : SealLaws β) (L : (desc : SuiteDesc β) → LayoutLaws desc)
    {hist : OpkHistory β} {w : CustWorld β} (h : OneTimeRun suites hist w)
    (hfresh : hist.made.Nodup) :
    hist.Inv suites L w := by
  induction h with
  | @create _ _ _ _ _ _ _ _ _ _ c blob' h recs =>
    obtain ⟨hinv, hp, -, hmat, -⟩ := gyCustodianCreate_inv (L := L) h
    have hnone : Live.secrets ⟨c, blob'⟩ = [] := congrArg optSecrets hmat
    refine ⟨⟨hinv, ?_, ?_, ?_, fun _ hk => (nomatch hk)⟩, List.nodup_nil, fun _ hk => (nomatch hk)⟩
    · rw [hnone]
      exact List.nodup_nil
    · rw [hnone]
      exact fun _ hk => (nomatch hk)
    · refine ⟨[], ⟨_, _, hinv.wrap, hp, fun m' hm' => hinv.fits hm', ?_⟩, List.nodup_nil,
        fun _ hk => (nomatch hk)⟩
      rw [hmat]
      rfl
  | @call hist w call h ih =>
    obtain ⟨hold, -, -⟩ := List.nodup_append.mp hfresh
    obtain ⟨hpool, honce, hused⟩ := ih hold
    have hinv := moves_inv (Live.step_moves hpool.inv.ok call) hpool.inv
    obtain ⟨hkeep, hok⟩ := hpool.step (OpkStep.call hpool.inv call) hinv hfresh
    refine ⟨?_, honce, fun k hk => List.mem_append_left _ (hused k hk)⟩
    rcases hr : (w.live.step call).1 with e | r
    · simpa [onSuccess] using hkeep
    · exact hok ⟨r, hr⟩
  | @receive hist w x h ih =>
    obtain ⟨hpool, honce, hused⟩ := ih hfresh
    obtain ⟨hkeep, hok⟩ := CustWorld.receive_spec hpool hfresh x
    rcases hr : (w.receive x).1 with e | pt
    · simp only [onSuccess, List.append_nil]
      exact ⟨hkeep, honce, hused⟩
    · obtain ⟨hstep, hkey⟩ := hok pt hr
      have hpool' := (hpool.step hstep hkeep.inv (by rwa [List.append_nil])).2 trivial
      rw [List.append_nil] at hpool'
      -- a key that establishes a session was held, so it was not among those used before
      have hnew : ∀ k ∈ (establishingKey w x).toList, k ∈ w.live.secrets ∧
          k ∉ (w.receive x).2.live.secrets := fun k hk => hkey k (Option.mem_toList.mp hk)
      refine ⟨hpool', List.nodup_append.mpr ⟨honce, ?_, ?_⟩, ?_⟩
      · cases establishingKey w x <;> simp [onSuccess]
      · rintro a ha b hb rfl
        exact (hpool.live a (hnew a hb).1).2 (hused a ha)
      · intro k hk
        rcases List.mem_append.mp hk with hk | hk
        · exact List.mem_append_left _ (hused k hk)
        · exact List.mem_append_right _ (mem_spent.mpr (hnew k hk))
  | records recs h ih =>
    obtain ⟨hpool, honce, hused⟩ := ih hfresh
    exact ⟨hpool, honce, hused⟩
  | reopen h hopen ih =>
    obtain ⟨hpool, honce, hused⟩ := ih hfresh
    exact ⟨hpool.reopen laws hopen, honce, hused⟩

/-- One-time prekeys are used once: in every run of calls, receives of arbitrary messages, closes
and reopens, with any failures, in which the generator repeats no private key, no private key
establishes two sessions in receives that returned success, and no private key that was consumed or
deleted by a call that returned success is held again. -/
theorem one_time_prekeys_once (laws : SealLaws β) (L : (desc : SuiteDesc β) → LayoutLaws desc)
    {hist : OpkHistory β} {w : CustWorld β} (h : OneTimeRun suites hist w)
    (hfresh : hist.made.Nodup) :
    hist.used.Nodup ∧ ∀ k ∈ hist.gone, k ∉ w.live.secrets := by
  obtain ⟨hpool, honce, -⟩ := h.inv laws L hfresh
  exact ⟨honce, fun k hk hin => (hpool.live k hin).2 hk⟩

omit [Signer β] [DecidableEq β] in
/-- A key that is held is destroyed, whatever becomes of the rest of the material. -/
theorem trConsumeOpk_held {pkid : UInt32} {env : PersistEnv β} {s : Live β}
    {m : IdMat β s.cust.desc.isHybrid} (hm : s.cust.mat = some m) {i : Nat}
    (hi : opkIndex pkid m.opks = some i) {res : Except GyErr Unit} {blob' : Bytes β}
    (hp : custSealAndPersist s.cust { m with opks := m.opks.set i none } env s.blob =
      (res, blob')) :
    trConsumeOpk pkid none env s = (res, ⟨{ s.cust with
      mat := some { m with opks := m.opks.set i none }
      slots := freeKey ⟨.opk, pkid⟩ s.cust.slots }, blob'⟩) := by
  unfold trConsumeOpk
  simp only [hm, hi, hp]

/-- The symbolic custodian with two one-time prekeys, the first of them destroyed. -/
def symConsumed (wrap blob : Bytes Sym) : Live Sym :=
  ⟨{ symCust wrap with
    mat := some { symIdmat 2 with opks := (symIdmat 2).opks.set 0 none }
    slots := freeKey ⟨.opk, (symPair 2).pub.pkid⟩ (registerAll (symIdmat 2).keySlots .empty) },
    blob⟩

/-- The store callback that consumes the first one-time prekey. -/
def symConsume (env : PersistEnv Sym) : CustCall Sym := .consumeOpk (symPair 2).pub.pkid none env

section Sample

variable {wrap blob : Bytes Sym}

/-- The blob is left when the callback of the persist fails, and replaced otherwise. -/
theorem symOneTime_consume (hinv : (symOneTime 2 wrap blob).Inv symSuites symLayoutLaws) :
    (symOneTime 2 wrap blob).step (symConsume symPersistFault) =
        (.error .noSpace, symConsumed wrap blob) ∧
      ∃ blob', (symOneTime 2 wrap blob).step (symConsume symPersist) =
        (.ok .ok, symConsumed wrap blob') := by
  have hi : opkIndex (symPair 2).pub.pkid (symIdmat 2).opks = some 0 := by decide
  obtain ⟨x, hx, -⟩ := opkIndex_eq_some hi
  have hfits := (hinv.fits (m := symIdmat 2) rfl).set_none hx
  obtain ⟨sealed, hseal⟩ := sym_sealIdmat symKek
    { symIdmat 2 with opks := (symIdmat 2).opks.set 0 none }
  have hnospace : symPersistFault.fault = some .noSpace := rfl
  have hfault := hinv.persist_fault sym_sealLaws hfits
    (show sealIdmat _ _ symPersistFault.nonce = _ from hseal) hnospace
  obtain ⟨blob', hok⟩ := hinv.persist_ok sym_sealLaws hfits ⟨⟨sealed, hseal⟩, rfl⟩
  constructor
  · have hrun := trConsumeOpk_held (s := symOneTime 2 wrap blob) (m := symIdmat 2) rfl hi hfault
    simp only [Live.step, symConsume, hrun]
    rfl
  · have hrun := trConsumeOpk_held (s := symOneTime 2 wrap blob) (m := symIdmat 2) rfl hi hok
    simp only [Live.step, symConsume, hrun]
    exact ⟨blob', rfl⟩

end Sample

/-- The private key of the one-time prekey number `n`. -/
def symSecret (n : Nat) : OpkPrivate Sym := ((symPair n).sk, [])

/-- The run that generates an identity with two one-time prekeys. -/
theorem symOneTime_run : ∃ wrap blob,
    OneTimeRun symSuites ⟨[symSecret 2, symSecret 3], [], []⟩
      ⟨symOneTime 2 wrap blob, fun _ => none⟩ ∧
    CleanRun symSuites [Sym.num 5] (symOneTime 2 wrap blob) := by
  obtain ⟨wrap, blob, blob', hcreate, hstep⟩ := sym_identity (n := 2) (by decide)
  have hmints : (⟨symCust wrap, blob⟩ : Live Sym).mints
      (.generateIdentity 0 2 (symIdentityRand 2) symPersist) = (symIdmat 2).secrets :=
    mints_generateIdentity rfl (by decide) (generateIdmat_sym (n := 2) (by decide))
  have hrun := OneTimeRun.call (.generateIdentity 0 2 (symIdentityRand 2) symPersist)
    (.create hcreate fun _ => none)
  simp only [hmints, hstep] at hrun
  exact ⟨wrap, blob', hrun, .call _ (.create hcreate) hstep⟩

/-- A callback fails while the first of two one-time prekeys is consumed, and the custodian comes
back with both keys; then the key is consumed, and the custodian comes back with the other one. -/
theorem one_time_prekey_consumed :
    ∃ (hist : OpkHistory Sym) (w : CustWorld Sym), OneTimeRun symSuites hist w ∧ hist.made.Nodup ∧
      hist.gone = [symSecret 2] ∧ w.live.secrets = [symSecret 3] ∧ hist.used.Nodup ∧
      ∀ k ∈ hist.gone, k ∉ w.live.secrets := by
  obtain ⟨wrap, blob, hrun, hclean⟩ := symOneTime_run
  obtain ⟨hfault, blob', hconsume⟩ :=
    symOneTime_consume (hclean.reached.inv sym_sealLaws symLayoutLaws)
  have hspent : spent (symOneTime 2 wrap blob) (symConsumed wrap blob') = [symSecret 2] := by
    show [symSecret 2, symSecret 3].filter (fun k => k ∉ [symSecret 3]) = _
    decide
  have hmade : [symSecret 2, symSecret 3].Nodup := by decide
  have hfailed := hrun.call (symConsume symPersistFault)
  simp only [hfault, onSuccess] at hfailed
  -- the blob was not written, so opening it gives back the key
  have hback : OneTimeRun symSuites ⟨[symSecret 2, symSecret 3], [], []⟩
      ⟨symOneTime 2 wrap blob, fun _ => none⟩ :=
    hfailed.reopen (hclean.open_eq sym_sealLaws symLayoutLaws)
  have hspentRun := hback.call (symConsume symPersist)
  simp only [hconsume, onSuccess, hspent] at hspentRun
  have hagain := hspentRun.reopen
    ((hclean.call (symConsume symPersist) hconsume).open_eq sym_sealLaws symLayoutLaws)
  exact ⟨_, _, hagain, hmade, rfl, rfl,
    one_time_prekeys_once sym_sealLaws symLayoutLaws hagain hmade⟩

end Geryon
