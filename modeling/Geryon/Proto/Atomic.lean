import Geryon.Proto.Reached

/-!
# Failed custodian calls

A call that reports a failure should leave the custodian and its blob as they were. Two calls do
not keep to that. A change of credential installs the new wrap in the live object before it writes
the header, and keeps it when the write fails. A publication persists the reservation of a one-time
prekey, or the key it had to mint, before the steps that can still fail.

## Main definitions

- `Torn`: the calls that fail with part of their work done.

## Main results

- `failed_call_unchanged_iff`: on every reachable custodian, a call that fails leaves everything as
  it was exactly when it is not torn.
-/

namespace Geryon

variable {β : Type} [Octet β] [Signer β] [Sodium β] [SodiumKeystore β] [StructLayout β]

/-! ## When a persist succeeds -/

/-- The material is sealed and the store callback takes the blob. -/
def Persists (c : GyCustodian β) (m : IdMat β c.desc.isHybrid) (env : PersistEnv β) : Prop :=
  (∃ sealed, sealIdmat c.kek m env.nonce = .ok sealed) ∧ env.fault = none

/-- The addresses of a custodian with the invariant are within their limits. -/
theorem Live.Inv.ids {suites : SuiteTable β} {L : (desc : SuiteDesc β) → LayoutLaws desc}
    {s : Live β} (hinv : s.Inv suites L) :
    s.cust.selfUid.length ≤ userIdMax ∧ s.cust.selfDid.length ≤ deviceIdMax := by
  obtain ⟨wrap, m, -, hp, -⟩ := hinv.stored
  obtain ⟨hdr, tail, henc, -, -⟩ := hp.split
  obtain ⟨huid, hdid, -, -⟩ := gyCustHeaderEncode_ok henc
  exact ⟨huid, hdid⟩

/-- Sealed material that fits is within the limit of a blob. -/
theorem length_sealIdmat_le (laws : SealLaws β) {desc : SuiteDesc β} (L : LayoutLaws desc)
    {kek tail : Bytes β} {m : IdMat β desc.isHybrid} {nonce : Rng β} (hm : m.Fits L.fits)
    (h : sealIdmat kek m nonce = .ok tail) : tail.length ≤ custHybridIdmatSealedMax β := by
  have hsize := L.size_le
  rw [length_gySeal laws h, L.length_write hm, custHybridIdmatSealedMax]
  omega

/-- The blob of a custodian with the invariant: its header decodes, and what follows is within the
limit of a blob. -/
theorem Live.Inv.blob_decodes (laws : SealLaws β) {suites : SuiteTable β}
    {L : (desc : SuiteDesc β) → LayoutLaws desc} {s : Live β} (hinv : s.Inv suites L) :
    ∃ hdr tail, gyCustHeaderDecode s.blob = .ok (hdr, tail) ∧
      tail.length ≤ custHybridIdmatSealedMax β := by
  obtain ⟨wrap, m, -, hp, hgood⟩ := hinv.stored
  obtain ⟨hdr, tail, henc, htail, hblob⟩ := hp.split
  refine ⟨_, tail, by rw [hblob]; exact gyCustHeaderDecode_encode henc tail, ?_⟩
  cases m with
  | none =>
    obtain rfl : tail = [] := htail
    exact Nat.zero_le _
  | some m =>
    obtain ⟨nonce, hseal⟩ := htail
    exact length_sealIdmat_le laws (L _) (hgood m rfl).fits hseal

omit [Signer β] in
/-- A persist that succeeded was sealed and taken. -/
theorem persists_of_ok {c : GyCustodian β} {m : IdMat β c.desc.isHybrid} {env : PersistEnv β}
    {blob blob' : Bytes β} (h : custSealAndPersist c m env blob = (.ok (), blob')) :
    Persists c m env := by
  unfold custSealAndPersist at h
  split at h
  · cases h
  · rename_i sealed hseal
    refine ⟨⟨sealed, hseal⟩, ?_⟩
    unfold custPersistHeader at h
    split at h
    · cases h
    · split at h
      · cases h
      · split at h
        · cases h
        · assumption

/-- On a custodian with the invariant, the callback decides what becomes of material that fits and
is sealed. -/
theorem Live.Inv.persist_eq (laws : SealLaws β) {suites : SuiteTable β}
    {L : (desc : SuiteDesc β) → LayoutLaws desc} {s : Live β} (hinv : s.Inv suites L)
    {m : IdMat β s.cust.desc.isHybrid} (hm : m.Fits (L s.cust.desc).fits) {env : PersistEnv β}
    {sealed : Bytes β} (hseal : sealIdmat s.cust.kek m env.nonce = .ok sealed) :
    ∃ blob', custSealAndPersist s.cust m env s.blob =
      match env.fault with
      | some e => (.error e, s.blob)
      | none => (.ok (), blob') := by
  obtain ⟨huid, hdid⟩ := hinv.ids
  obtain ⟨hdr, -, hp⟩ := custPersistHeader_eq s.cust env.fault huid hdid
    (hinv.wrap.length laws hinv.kek).le (length_sealIdmat_le laws (L _) hm hseal) s.blob
  refine ⟨hdr ++ sealed, ?_⟩
  unfold custSealAndPersist
  rw [hseal]
  exact hp

/-- It is persisted when it is sealed and taken. -/
theorem Live.Inv.persist_ok (laws : SealLaws β) {suites : SuiteTable β}
    {L : (desc : SuiteDesc β) → LayoutLaws desc} {s : Live β} (hinv : s.Inv suites L)
    {m : IdMat β s.cust.desc.isHybrid} (hm : m.Fits (L s.cust.desc).fits) {env : PersistEnv β}
    (h : Persists s.cust m env) :
    ∃ blob', custSealAndPersist s.cust m env s.blob = (.ok (), blob') := by
  obtain ⟨⟨sealed, hseal⟩, hfault⟩ := h
  obtain ⟨blob', hp⟩ := hinv.persist_eq laws hm hseal
  rw [hfault] at hp
  exact ⟨blob', hp⟩

/-- A callback that fails leaves the blob. -/
theorem Live.Inv.persist_fault (laws : SealLaws β) {suites : SuiteTable β}
    {L : (desc : SuiteDesc β) → LayoutLaws desc} {s : Live β} (hinv : s.Inv suites L)
    {m : IdMat β s.cust.desc.isHybrid} (hm : m.Fits (L s.cust.desc).fits) {env : PersistEnv β}
    {sealed : Bytes β} (hseal : sealIdmat s.cust.kek m env.nonce = .ok sealed) {e : GyErr}
    (hfault : env.fault = some e) :
    custSealAndPersist s.cust m env s.blob = (.error e, s.blob) := by
  obtain ⟨blob', hp⟩ := hinv.persist_eq laws hm hseal
  rwa [hfault] at hp

/-! ## Torn calls -/

/-- The call is the store callback that consumes a one-time prekey. -/
def CustCall.isConsume : CustCall β → Bool
  | .consumeOpk .. => true
  | _ => false

/-- A call that fails with part of its work done. -/
def Torn (s : Live β) : CustCall β → Prop
  -- the new wrap is made, and the write of the header fails
  | .changeCredential newCred rnd load fault =>
    load = none ∧ fault ≠ none ∧ ∃ wrap,
      gyKeystoreChangeCredential s.cust.kek sealAlgAegis256 pwhashOpslimitMin pwhashMemlimitMin
        newCred rnd = .ok wrap ∧ wrap ≠ s.cust.wrap
  | .publishBundle cap rnd mint reserve =>
    ∃ m, s.cust.mat = some m ∧
      match custFirstReservableOpk m.opks with
      -- the reservation is persisted, and the bundle does not fit
      | some i =>
        Persists s.cust { m with opks := setExported i true m.opks } reserve ∧
          cap < custBundleLen s.cust.desc
      -- a key is minted and persisted, and its reservation or the bundle fails
      | none =>
        m.held.length < opkBatchMax ∧ ∃ gen,
          gyOpkGenerate s.cust.desc s.cust.desc.isHybrid 1 (m.held.map OpkOf.pkid) rnd = .ok gen ∧
          Persists s.cust { m with opks := (fillOpks gen m.opks).map Prod.fst } mint ∧
          (cap < custBundleLen s.cust.desc ∨ ∀ i,
            custFirstReservableOpk ((fillOpks gen m.opks).map Prod.fst) = some i →
            ¬ Persists s.cust
              { m with opks := setExported i true ((fillOpks gen m.opks).map Prod.fst) } reserve)
  | _ => False

/-- What a change of credential does on a custodian with the invariant. -/
theorem Live.Inv.changeCredential_eq (laws : SealLaws β) {suites : SuiteTable β}
    {L : (desc : SuiteDesc β) → LayoutLaws desc} {s : Live β} (hinv : s.Inv suites L)
    {newCred wrap : Bytes β} {rnd : WrapRand β} (fault : Option GyErr)
    (hwrap : gyKeystoreChangeCredential s.cust.kek sealAlgAegis256 pwhashOpslimitMin
      pwhashMemlimitMin newCred rnd = .ok wrap) :
    ∃ blob', gyCustodianChangeCredential newCred rnd none fault s =
      match fault with
      | some e => (.error e, ⟨{ s.cust with wrap := wrap }, s.blob⟩)
      | none => (.ok (), ⟨{ s.cust with wrap := wrap }, blob'⟩) := by
  obtain ⟨hdr, tail, hdec, htail⟩ := hinv.blob_decodes laws
  obtain ⟨huid, hdid⟩ := hinv.ids
  have hw : WrapOf s.cust.kek wrap := ⟨newCred, rnd, hwrap⟩
  -- the new header always encodes: only the callback can fail
  obtain ⟨hdr', -, hp⟩ := custPersistHeader_eq { s.cust with wrap := wrap } fault huid hdid
    (hw.length laws hinv.kek).le htail s.blob
  refine ⟨hdr' ++ tail, ?_⟩
  unfold gyCustodianChangeCredential
  dsimp only
  rw [hdec]
  dsimp only
  rw [hwrap]
  dsimp only
  rw [hp]
  cases fault <;> rfl

/-- A change of credential fails cleanly exactly when it is not torn. -/
theorem changeCredential_unchanged_iff (laws : SealLaws β) {suites : SuiteTable β}
    {L : (desc : SuiteDesc β) → LayoutLaws desc} {s : Live β} (hinv : s.Inv suites L)
    (newCred : Bytes β) (rnd : WrapRand β) (load fault : Option GyErr) :
    (∀ e s', gyCustodianChangeCredential newCred rnd load fault s = (.error e, s') → s' = s) ↔
      ¬ Torn s (.changeCredential newCred rnd load fault) := by
  constructor
  -- the wrap has changed, and the call failed
  · rintro h ⟨rfl, hfault, wrap, hwrap, hne⟩
    obtain ⟨blob', heq⟩ := hinv.changeCredential_eq laws fault hwrap
    obtain ⟨e, rfl⟩ := Option.ne_none_iff_exists'.mp hfault
    exact hne (congrArg (fun s => s.cust.wrap) (h e _ heq))
  · intro htorn e s' hs'
    rcases gyCustodianChangeCredential_cases newCred rnd load fault s with
      ⟨e', h⟩ | ⟨hdr, tail, wrap, r, blob', rfl, -, hwrap, -, -⟩
    · exact (Prod.mk.inj (hs'.symm.trans h)).2
    · obtain ⟨blob'', heq⟩ := hinv.changeCredential_eq laws fault hwrap
      cases fault with
      | none => cases hs'.symm.trans heq
      | some e' =>
        obtain ⟨-, rfl⟩ := Prod.mk.inj (hs'.symm.trans heq)
        -- no tear: the new wrap is the old one
        have hsame : wrap = s.cust.wrap := by
          by_contra hne
          exact htorn ⟨rfl, by simp, wrap, hwrap, hne⟩
        rw [hsame]

/-! ## Publications -/

/-- The export marks of the pool slots. -/
def GyCustodian.exportMarks (c : GyCustodian β) : List (Option Bool) :=
  c.mat.elim [] fun m => m.opks.map fun o => o.map HeldOpk.exported

/-- A reservation shows in the marks. -/
theorem setExported_marks_ne {κ : Type} {opks : List (Option (HeldOpk κ))} {i : Nat}
    (hi : custFirstReservableOpk opks = some i) :
    ((setExported i true opks).map fun o => o.map HeldOpk.exported) ≠
      opks.map fun o => o.map HeldOpk.exported := by
  rw [custFirstReservableOpk, List.findIdx?_eq_some_iff_getElem] at hi
  obtain ⟨hlt, hany, -⟩ := hi
  intro h
  have hat := congrArg (fun l => l[i]?) h
  simp only [setExported, List.getElem?_map, List.getElem?_modify_eq,
    List.getElem?_eq_getElem hlt, Option.map_some] at hat
  cases ho : opks[i] with
  | none =>
    rw [ho] at hany
    cases hany
  | some x =>
    rw [ho] at hany hat
    have hx : true = x.exported := by simpa using hat
    simp [← hx] at hany

omit [Signer β] in
/-- A pool with room takes the generated keys when they are persisted. -/
theorem custReplenishOpks_ok {count : Nat} {rnd : KeyRand β} {env : PersistEnv β} {s : Live β}
    (hok : s.cust.Ok) {m : IdMat β s.cust.desc.isHybrid} (hm : s.cust.mat = some m)
    (hcount : 0 < count) (hroom : count ≤ opkBatchMax - m.held.length)
    {gen : List (OpkOf β s.cust.desc.isHybrid)}
    (hgen : gyOpkGenerate s.cust.desc s.cust.desc.isHybrid count (m.held.map OpkOf.pkid) rnd =
      .ok gen) {blob' : Bytes β}
    (hp : custSealAndPersist s.cust { m with opks := (fillOpks gen m.opks).map Prod.fst } env
      s.blob = (.ok (), blob')) :
    custReplenishOpks count rnd env s = (.ok (), ⟨{ s.cust with
      mat := some { m with opks := (fillOpks gen m.opks).map Prod.fst }
      slots := registerAll (gen.map fun k => ⟨.opk, k.pkid⟩) s.cust.slots }, blob'⟩) := by
  have hreinit : custReinitRecv s.cust.desc.isHybrid m.spks = .ok () :=
    if_neg fun h => hok.spks hm h.2
  unfold custReplenishOpks
  rw [hm]
  dsimp only
  rw [if_neg (by omega), if_neg (by omega), hgen]
  dsimp only
  rw [hp]
  dsimp only
  rw [hreinit]

/-- A publication of a key of the pool fails cleanly exactly when its reservation is not persisted
or the bundle fits. -/
theorem reserve_unchanged_iff (laws : SealLaws β) {suites : SuiteTable β}
    {L : (desc : SuiteDesc β) → LayoutLaws desc} {s : Live β} (hinv : s.Inv suites L) (cap : Nat)
    (env : PersistEnv β) {m : IdMat β s.cust.desc.isHybrid} (hm : s.cust.mat = some m) {i : Nat}
    (hi : custFirstReservableOpk m.opks = some i) :
    (∀ e s', reserveAndPut cap i env s = (.error e, s') → s' = s) ↔
      ¬ (Persists s.cust { m with opks := setExported i true m.opks } env ∧
        cap < custBundleLen s.cust.desc) := by
  have hfits : ({ m with opks := setExported i true m.opks } : IdMat β s.cust.desc.isHybrid).Fits
      (L s.cust.desc).fits := (Edit.reserve (t := s.cust.slots) i).fits (L _) (hinv.fits hm)
  rcases reserveAndPut_cases cap env hinv.ok hm hi with ⟨e, hp, h⟩ | ⟨r, blob', hp, hr, h⟩
  · refine ⟨fun _ hpers => ?_, fun _ e' s' hs' => (Prod.mk.inj (hs'.symm.trans h)).2⟩
    obtain ⟨blob', hp'⟩ := hinv.persist_ok laws hfits hpers.1
    cases hp.symm.trans hp'
  -- the mark is written before the room for the bundle is checked
  · by_cases hcap : cap < custBundleLen s.cust.desc
    · rw [if_pos hcap] at hr
      subst hr
      refine ⟨fun hclean => ?_, fun hpers => absurd ⟨persists_of_ok hp, hcap⟩ hpers⟩
      have hmarks := congrArg (fun s => s.cust.exportMarks) (hclean _ _ h)
      simp only [GyCustodian.exportMarks, hm, Option.elim_some] at hmarks
      exact absurd hmarks (setExported_marks_ne hi)
    · rw [if_neg hcap] at hr
      obtain ⟨b, rfl⟩ := hr
      exact ⟨fun _ hpers => hcap hpers.2, fun _ e' s' hs' => nomatch hs'.symm.trans h⟩

omit [Signer β] [Sodium β] [SodiumKeystore β] [StructLayout β] in
/-- A key more is held once the generated key is filled in, whether or not it is reserved then. -/
theorem length_heldIds_minted {c : GyCustodian β} {m : IdMat β c.desc.isHybrid}
    (hm : c.mat = some m) {rnd : KeyRand β} {gen : List (OpkOf β c.desc.isHybrid)}
    (hgen : gyOpkGenerate c.desc c.desc.isHybrid 1 (m.held.map OpkOf.pkid) rnd = .ok gen) :
    (heldKeys ((fillOpks gen m.opks).map Prod.fst)).length = c.heldIds.length + 1 := by
  obtain ⟨-, hlen, -, -⟩ := gyOpkGenerate_spec _ hgen
  have hperm := (heldKeys_fillOpks gen m.opks).length_eq
  have hids : c.heldIds.length = (heldKeys m.opks).length := by
    simp only [GyCustodian.heldIds, hm, Option.elim_some, List.length_map]
    rfl
  rw [hperm, hids, List.length_append, hlen]
  omega

omit [Signer β] in
/-- A reservation on a custodian whose one-time prekeys are not those of `s` does not end in `s`. -/
theorem reserveAndPut_ne (cap : Nat) (env : PersistEnv β) {s s1 : Live β} (hok : s1.cust.Ok)
    {m : IdMat β s1.cust.desc.isHybrid} (hm : s1.cust.mat = some m) {i : Nat}
    (hi : custFirstReservableOpk m.opks = some i)
    (hne : m.held.length ≠ s.cust.heldIds.length) : (reserveAndPut cap i env s1).2 ≠ s := by
  have hids : s1.cust.heldIds.length = m.held.length := by
    simp only [GyCustodian.heldIds, hm, Option.elim_some, List.length_map]
  rintro rfl
  rcases reserveAndPut_cases cap env hok hm hi with ⟨e, -, h⟩ | ⟨r, blob', -, -, h⟩
  · rw [h] at hne
    exact hne hids.symm
  · rw [h] at hne
    refine hne ?_
    simp only [GyCustodian.heldIds, Option.elim_some, List.length_map]
    exact congrArg List.length (heldKeys_setExported i true m.opks).symm

/-- A publication that finds no key to reserve fails cleanly exactly when it mints no key, or
reserves the key it minted and writes the bundle. -/
theorem mint_unchanged_iff (laws : SealLaws β) {suites : SuiteTable β}
    {L : (desc : SuiteDesc β) → LayoutLaws desc} {s : Live β} (hinv : s.Inv suites L) (cap : Nat)
    (rnd : KeyRand β) (mint reserve : PersistEnv β) {m : IdMat β s.cust.desc.isHybrid}
    (hm : s.cust.mat = some m) (hnone : custFirstReservableOpk m.opks = none) :
    (∀ e s', gyCustodianPublishBundle cap rnd mint reserve s = (.error e, s') → s' = s) ↔
      ¬ (m.held.length < opkBatchMax ∧ ∃ gen,
        gyOpkGenerate s.cust.desc s.cust.desc.isHybrid 1 (m.held.map OpkOf.pkid) rnd = .ok gen ∧
        Persists s.cust { m with opks := (fillOpks gen m.opks).map Prod.fst } mint ∧
        (cap < custBundleLen s.cust.desc ∨ ∀ i,
          custFirstReservableOpk ((fillOpks gen m.opks).map Prod.fst) = some i →
          ¬ Persists s.cust
            { m with
              opks := setExported i true ((fillOpks gen m.opks).map Prod.fst) } reserve)) := by
  constructor
  · rintro hclean ⟨hroom, gen, hgen, hmint, hfail⟩
    have hedit : Edit s.cust.desc m s.cust.slots _ _ := .replenish (by omega) hgen
    obtain ⟨blob', hp⟩ := hinv.persist_ok laws (hedit.fits (L _) (hinv.fits hm)) hmint
    have hrep := custReplenishOpks_ok hinv.ok hm (by omega) (by omega) hgen hp
    have hok1 := (Move.edit hm hedit (custSealAndPersist_ok hp) : Move s _).ok hinv.ok
    obtain ⟨-, hlen, -, -⟩ := gyOpkGenerate_spec _ hgen
    obtain ⟨i, hi⟩ := custFirstReservableOpk_fillOpks
      (List.ne_nil_of_length_pos (by omega : 0 < gen.length)) m.opks
    have heq : gyCustodianPublishBundle cap rnd mint reserve s = _ :=
      gyCustodianPublishBundle_mint hm hnone hrep
    simp only [Option.bind_some, hi] at heq
    have hheld := length_heldIds_minted hm hgen
    -- whatever the reservation does, the minted key is there
    have hne := reserveAndPut_ne cap reserve (s := s) hok1 rfl hi
      (by simp only [IdMat.held_eq]; omega)
    rcases reserveAndPut_cases cap reserve hok1 rfl hi with ⟨e, -, h⟩ | ⟨r, blob'', hp', hr, h⟩
    · exact hne (by rw [h]; exact hclean e _ (heq.trans h))
    · by_cases hcap : cap < custBundleLen s.cust.desc
      · obtain rfl := (if_pos hcap).mp hr
        exact hne (by rw [h]; exact hclean _ _ (heq.trans h))
      · exact absurd (persists_of_ok hp') ((hfail.resolve_left hcap) i hi)
  · intro htorn e s' hs'
    rcases gyCustodianPublishBundle_cases cap rnd mint reserve hinv.ok with
      ⟨e', h⟩ | ⟨m', i, hm', hi, -⟩ | ⟨m', gen, blob', i, hm', -, hroom, hgen, hp, hi, h⟩
    · exact (Prod.mk.inj (hs'.symm.trans h)).2
    · obtain rfl := Option.some.inj (hm.symm.trans hm')
      cases hnone.symm.trans hi
    · obtain rfl := Option.some.inj (hm.symm.trans hm')
      refine absurd ⟨by omega, gen, hgen, persists_of_ok hp, ?_⟩ htorn
      have hedit : Edit s.cust.desc m s.cust.slots _ _ := .replenish (by omega) hgen
      have hinv1 := (Move.edit hm hedit (custSealAndPersist_ok hp) : Move s _).inv hinv
      by_cases hcap : cap < custBundleLen s.cust.desc
      · exact Or.inl hcap
      · refine Or.inr fun j hj hpers => ?_
        obtain rfl := Option.some.inj (hi.symm.trans hj)
        rcases reserveAndPut_cases cap reserve hinv1.ok rfl hi with
          ⟨e', hp', -⟩ | ⟨r, blob'', -, hr, h'⟩
        · obtain ⟨blob'', hp''⟩ := hinv1.persist_ok laws
            ((Edit.reserve (t := s.cust.slots) i).fits (L _) (hinv1.fits rfl)) hpers
          cases hp'.symm.trans hp''
        · obtain ⟨b, rfl⟩ := (if_neg hcap).mp hr
          cases hs'.symm.trans (h.trans h')

/-- A publication fails cleanly exactly when it is not torn. -/
theorem publishBundle_unchanged_iff (laws : SealLaws β) {suites : SuiteTable β}
    {L : (desc : SuiteDesc β) → LayoutLaws desc} {s : Live β} (hinv : s.Inv suites L) (cap : Nat)
    (rnd : KeyRand β) (mint reserve : PersistEnv β) :
    (∀ e s', gyCustodianPublishBundle cap rnd mint reserve s = (.error e, s') → s' = s) ↔
      ¬ Torn s (.publishBundle cap rnd mint reserve) := by
  cases hm : s.cust.mat with
  | none =>
    have heq : gyCustodianPublishBundle cap rnd mint reserve s = (.error .state, s) := by
      unfold gyCustodianPublishBundle
      rw [hm]
    refine ⟨fun _ htorn => ?_, fun _ e s' hs' => (Prod.mk.inj (hs'.symm.trans heq)).2⟩
    obtain ⟨m, hm', -⟩ := htorn
    cases hm.symm.trans hm'
  | some m =>
    -- the material is fixed, so a tear is about which key is found
    have htorn_iff : Torn s (.publishBundle cap rnd mint reserve) ↔ _ :=
      ⟨fun ⟨m', hm', h⟩ => (Option.some.inj (hm.symm.trans hm')) ▸ h, fun h => ⟨m, hm, h⟩⟩
    cases hi : custFirstReservableOpk m.opks with
    | some i =>
      rw [htorn_iff, hi, gyCustodianPublishBundle_reserve hm hi]
      exact reserve_unchanged_iff laws hinv cap reserve hm hi
    | none =>
      rw [htorn_iff, hi]
      exact mint_unchanged_iff laws hinv cap rnd mint reserve hm hi

/-! ## Calls -/

omit [Octet β] [Signer β] [Sodium β] [SodiumKeystore β] [StructLayout β] in
/-- A reply is built on success only: a call fails when its operation does. -/
theorem map_reply_error {α σ : Type} {x : Except GyErr α × σ} {f : α → CustReply β} {e : GyErr}
    {s : σ} : (x.1.map f, x.2) = (.error e, s) ↔ x = (.error e, s) := by
  obtain ⟨r, s'⟩ := x
  cases r with
  | error e' => simp [Except.map]
  | ok a => simp [Except.map]

omit [Signer β] in
/-- A failed deletion changes nothing. -/
theorem gyCustodianDeletePrekey_unchanged {handle : Nat} {env : PersistEnv β} {s s' : Live β}
    {e : GyErr} (hok : s.cust.Ok) (h : gyCustodianDeletePrekey handle env s = (.error e, s')) :
    s' = s := by
  unfold gyCustodianDeletePrekey at h
  cases hget : gyCustodianSlotGet handle s.cust.slots with
  | error e' =>
    rw [hget] at h
    exact (Prod.mk.inj h).2.symm
  | ok k =>
    obtain ⟨type, pkid⟩ := k
    rw [hget] at h
    cases hm : s.cust.mat with
    | none =>
      rw [hm] at h
      cases type <;> exact (Prod.mk.inj h).2.symm
    | some m =>
      rw [hm] at h
      have hspks := hok.spks hm
      -- only the two prekey types reach an edit
      cases type with
      | identity => exact (Prod.mk.inj h).2.symm
      | sak => exact (Prod.mk.inj h).2.symm
      | spk =>
        rcases deleteSpk_cases handle pkid env hm hspks with ⟨e', h'⟩ | ⟨blob', -, -, -, h'⟩
        · exact (Prod.mk.inj (h.symm.trans h')).2
        · cases h.symm.trans h'
      | opk =>
        rcases deleteOpk_cases handle pkid env hm hspks with ⟨e', h'⟩ | ⟨i, blob', -, -, h'⟩
        · exact (Prod.mk.inj (h.symm.trans h')).2
        · cases h.symm.trans h'

omit [Octet β] [Signer β] [Sodium β] [SodiumKeystore β] [StructLayout β] in
/-- An operation that either changes nothing or succeeds fails cleanly. -/
theorem unchanged_of_cases {α : Type} {s : Live β} {x : Except GyErr α × Live β} {P : Prop}
    (h : (∃ e, x = (.error e, s)) ∨ ∃ a s', x = (.ok a, s')) (hP : P) :
    (∀ e s', x = (.error e, s') → s' = s) ↔ P := by
  refine ⟨fun _ => hP, fun _ e s' hx => ?_⟩
  rcases h with ⟨e', h⟩ | ⟨a, s'', h⟩
  · exact (Prod.mk.inj (hx.symm.trans h)).2
  · cases hx.symm.trans h

/-- On every reachable custodian, a call other than the consumption callback leaves the live object
and the blob as they were when it fails, exactly when it is not torn. -/
theorem failed_call_unchanged_iff (laws : SealLaws β) (L : (desc : SuiteDesc β) → LayoutLaws desc)
    {suites : SuiteTable β} {s : Live β} (hreach : Reached suites s) (call : CustCall β)
    (hcall : call.isConsume = false) :
    (∀ e s', s.step call = (.error e, s') → s' = s) ↔ ¬ Torn s call := by
  have hinv := hreach.inv laws L
  -- one call at a time; the credential change and the bundle are the two that can tear
  cases call with
  | generateIdentity timestamp n rnd env =>
    simp only [Live.step, map_reply_error]
    refine unchanged_of_cases ?_ (fun h => h)
    rcases gyCustodianGenerateIdentity_cases timestamp n rnd env s with
      h | ⟨m, blob', -, -, -, -, h⟩
    · exact Or.inl h
    · exact Or.inr ⟨_, _, h⟩
  | rotateSignedPrekey timestamp rnd env =>
    simp only [Live.step, map_reply_error]
    refine unchanged_of_cases ?_ (fun h => h)
    rcases gyCustodianRotateSignedPrekey_cases timestamp rnd env s with
      h | ⟨m, spk, blob', -, -, -, h⟩
    · exact Or.inl h
    · exact Or.inr ⟨_, _, h⟩
  | generateOnetimePrekeys count rnd env =>
    simp only [Live.step, map_reply_error]
    refine unchanged_of_cases ?_ (fun h => h)
    rcases custReplenishOpks_cases count rnd env hinv.ok with
      h | ⟨m, gen, blob', -, -, -, -, h⟩
    · exact Or.inl h
    · exact Or.inr ⟨_, _, h⟩
  | publishBundle cap rnd mint reserve =>
    simp only [Live.step, map_reply_error]
    exact publishBundle_unchanged_iff laws hinv cap rnd mint reserve
  | consumeOpk pkid app env => cases hcall
  | deletePrekey handle env =>
    simp only [Live.step, map_reply_error]
    exact ⟨fun _ h => h, fun _ e s' h => gyCustodianDeletePrekey_unchanged hinv.ok h⟩
  | generateAppkey now expiry rnd env =>
    simp only [Live.step, map_reply_error]
    refine unchanged_of_cases ?_ (fun h => h)
    rcases gyCustodianGenerateAppkey_cases now expiry rnd env s with
      h | ⟨m, sak, blob', -, -, -, -, h⟩
    · exact Or.inl h
    · exact Or.inr ⟨_, _, h⟩
  | rotateAppkey now expiry rnd env =>
    simp only [Live.step, map_reply_error]
    refine unchanged_of_cases ?_ (fun h => h)
    rcases gyCustodianRotateAppkey_cases now expiry rnd env s with
      h | ⟨m, sak, blob', -, -, -, -, h⟩
    · exact Or.inl h
    · exact Or.inr ⟨_, _, h⟩
  | changeCredential newCred rnd load fault =>
    simp only [Live.step, map_reply_error]
    exact changeCredential_unchanged_iff laws hinv newCred rnd load fault

/-! ## Symbolic custodians -/

/-- The symbolic custodian with a given wrap. -/
def symCust (wrap : Bytes Sym) : GyCustodian Sym :=
  ⟨symSuite false, [Sym.num 1], [Sym.num 2], wrap, symKek, false, .disabled, none, .empty⟩

/-- The symbolic custodian with `n` one-time prekeys. -/
def symOneTime (n : Nat) (wrap blob : Bytes Sym) : Live Sym :=
  ⟨{ symCust wrap with
    mat := some (symIdmat n), slots := registerAll (symIdmat n).keySlots .empty }, blob⟩

open Geryon.Sym in
/-- A symbolic custodian generates an identity with `n` one-time prekeys. -/
theorem sym_identity {n : Nat} (hn : n ≤ opkBatchMax) :
    ∃ wrap blob blob', gyCustodianCreate symSuites 1 [num 5] [num 1] [num 2] false none (symRng 0)
        ⟨symRng 1, symRng 1⟩ none [] = (.ok (symCust wrap), blob) ∧
      (⟨symCust wrap, blob⟩ : Live Sym).step
        (.generateIdentity 0 n (symIdentityRand n) symPersist) =
        (.ok .ok, symOneTime n wrap blob') := by
  obtain ⟨rest, blob, hcreate⟩ := sym_create [num 5] false
    (show expiryOf none = .ok .disabled from rfl) 1
  have hinv := (Reached.create hcreate).inv sym_sealLaws symLayoutLaws
  have hgen := generateIdmat_sym hn
  have hfits : (symIdmat n).Fits (symLayoutLaws (symSuite false)).fits :=
    generateIdmat_fits (symLayoutLaws _) hn hgen
  obtain ⟨blob', hp⟩ := hinv.persist_ok sym_sealLaws hfits ⟨sym_sealIdmat _ _, rfl⟩
  refine ⟨_, blob, blob', hcreate, ?_⟩
  have hstep := gyCustodianGenerateIdentity_ok rfl hn hgen hp
  exact congrArg (fun x : Except GyErr Unit × Live Sym => (x.1.map fun _ => CustReply.ok, x.2))
    hstep

theorem reached_symOneTime {n : Nat} (hn : n ≤ opkBatchMax) :
    ∃ wrap blob, Reached symSuites (symOneTime n wrap blob) := by
  obtain ⟨wrap, blob, blob', hcreate, hstep⟩ := sym_identity hn
  have hcall := Reached.call (.generateIdentity 0 n (symIdentityRand n) symPersist)
    (.create hcreate)
  rw [hstep] at hcall
  exact ⟨wrap, blob', hcall⟩

/-- A symbolic persist whose callback fails. -/
def symPersistFault : PersistEnv Sym := ⟨symRng 9, some .noSpace⟩

/-- A bundle whose reservation cannot be persisted: the key is marked and unmarked again. -/
theorem failed_reservation_unchanged :
    ∃ wrap blob, Reached symSuites (symOneTime 2 wrap blob) ∧
      (symOneTime 2 wrap blob).step (.publishBundle 4096 (symKeyRand 4 1) symPersist
        symPersistFault) = (.error .noSpace, symOneTime 2 wrap blob) := by
  obtain ⟨wrap, blob, hreach⟩ := reached_symOneTime (n := 2) (by decide)
  have hinv := hreach.inv sym_sealLaws symLayoutLaws
  have hi : custFirstReservableOpk (symIdmat 2).opks = some 0 := by decide
  -- the reservation is sealed, and the callback refuses it
  obtain ⟨sealed, hseal⟩ := sym_sealIdmat symKek
    { symIdmat 2 with opks := setExported 0 true (symIdmat 2).opks }
  have hedit : Edit (symSuite false) (symIdmat 2) (symOneTime 2 wrap blob).cust.slots
      { symIdmat 2 with opks := setExported 0 true (symIdmat 2).opks }
      (symOneTime 2 wrap blob).cust.slots := .reserve 0
  have hfits := hedit.fits (symLayoutLaws _) (hinv.fits (m := symIdmat 2) rfl)
  have hnospace : symPersistFault.fault = some .noSpace := rfl
  have hp := hinv.persist_fault sym_sealLaws hfits
    (show sealIdmat _ _ symPersistFault.nonce = _ from hseal) hnospace
  have hfail : ((symOneTime 2 wrap blob).step (.publishBundle 4096 (symKeyRand 4 1) symPersist
      symPersistFault)).1 = .error .noSpace := by
    have hpublish : gyCustodianPublishBundle 4096 (symKeyRand 4 1) symPersist symPersistFault
        (symOneTime 2 wrap blob) =
        reserveAndPut 4096 0 symPersistFault (symOneTime 2 wrap blob) :=
      gyCustodianPublishBundle_reserve rfl hi
    simp only [Live.step, hpublish]
    rcases reserveAndPut_cases 4096 symPersistFault hinv.ok (m := symIdmat 2) rfl hi with
      ⟨e, herr, hrun⟩ | ⟨r, blob'', hok, -, -⟩
    · obtain rfl := Except.error.inj (Prod.mk.inj (herr.symm.trans hp)).1
      rw [hrun]
      rfl
    · cases hok.symm.trans hp
  have hkept := (failed_call_unchanged_iff sym_sealLaws symLayoutLaws hreach
    (.publishBundle 4096 (symKeyRand 4 1) symPersist symPersistFault) rfl).2 fun h => ?_
  · exact ⟨wrap, blob, hreach, Prod.ext hfail (hkept .noSpace _ (Prod.ext hfail rfl))⟩
  · obtain ⟨m, hm, htorn⟩ := h
    obtain rfl := Option.some.inj hm
    change Persists (symOneTime 2 wrap blob).cust
      { symIdmat 2 with opks := setExported 0 true (symIdmat 2).opks } symPersistFault ∧ _ at htorn
    cases htorn.1.2

open Geryon.Sym in
/-- A credential change whose header write fails leaves the new wrap in the live object. -/
theorem failed_credential_change_keeps_wrap :
    ¬ ∀ (suites : SuiteTable Sym) (s : Live Sym) (call : CustCall Sym), Reached suites s →
      call.isConsume = false → ∀ e s', s.step call = (.error e, s') → s' = s := by
  intro hclaim
  obtain ⟨rest, blob, hcreate⟩ :=
    sym_create [num 5] false (show expiryOf none = .ok .disabled from rfl) 1
  obtain ⟨rest', hwrap⟩ := sym_gyKekprotWrap [num 6] symKek (length_prim _ _ _) 2
  have hreach : Reached symSuites _ := .create hcreate
  have hinv := hreach.inv sym_sealLaws symLayoutLaws
  obtain ⟨blob', heq⟩ := hinv.changeCredential_eq sym_sealLaws (some .noSpace) hwrap
  have hsame :=
    hclaim _ _ (.changeCredential [num 6] ⟨symRng 2, symRng 2⟩ none (some .noSpace)) hreach
    rfl .noSpace _ (by simp only [Live.step, heq]; rfl)
  exact sym_salt_ne (by decide) rest' rest (congrArg (fun s => s.cust.wrap) hsame)

end Geryon
