import Geryon.Kex.Agree
import Geryon.Proto.CustodyRun

/-!
# Reachable custodians

A custodian is created, called, closed and opened again from what its store holds, in any order and
with any failures. The invariant ties the live object to the blob: both carry the same suite,
addresses and key-encryption key, and material that fits its structure.

A close leaves the blob; a crash is a close. Opening takes any credential: a credential that does
not open the wrap leaves no custodian.

## Main definitions

- `Reached`: the live custodians of all runs, with the calls made so far.
- `Live.Inv`: the invariant.

## Main results

- `Reached.inv`: the invariant holds of every reachable custodian.
- `Live.Inv.open_eq`: what opening the blob of a reachable custodian gives.
-/

namespace Geryon

variable {β : Type} [Octet β] [Signer β] [Sodium β] [SodiumKeystore β] [StructLayout β]

/-- The live custodians of all runs over a store. -/
inductive Reached (suites : SuiteTable β) : Live β → Prop
  | create {suiteId cred uid did clock cfg kekRand rnd fault blob c blob'}
      (h : gyCustodianCreate suites suiteId cred uid did clock cfg kekRand rnd fault blob =
        (.ok c, blob')) : Reached suites ⟨c, blob'⟩
  | call {s} (call : CustCall β) (h : Reached suites s) : Reached suites (s.step call).2
  | reopen {s cred c} (h : Reached suites s) (hopen : gyCustodianOpen suites cred s.blob = .ok c) :
      Reached suites ⟨c, s.blob⟩

/-- Material as a custodian keeps it: it fits its structure, and the identifiers of its one-time
prekeys are present and differ. -/
structure IdMat.Good {h : Bool} (m : IdMat β h) (P : FitPred β h) : Prop where
  fits : m.Fits P
  distinct : (m.held.map OpkOf.pkid).Nodup
  present : (0 : UInt32) ∉ m.held.map OpkOf.pkid

section Fits

omit [Octet β] [Signer β] [Sodium β] [SodiumKeystore β] [StructLayout β]

/-- A history keeps its bound. -/
theorem length_pushHistory_le {κ : Type} {max : Nat} (hmax : 0 < max) (k : κ) (l : List κ) :
    (pushHistory max k l).length ≤ max := by
  simp only [pushHistory, List.length_cons, List.length_take]
  omega

/-- It holds the new entry and old ones. -/
theorem mem_pushHistory {κ : Type} {max : Nat} {k k' : κ} {l : List κ}
    (h : k' ∈ pushHistory max k l) : k' = k ∨ k' ∈ l := by
  rcases List.mem_cons.mp h with h | h
  · exact Or.inl h
  · exact Or.inr (List.mem_of_mem_take h)

/-- There are no more held keys than slots. -/
theorem length_held_le {h : Bool} (m : IdMat β h) : m.held.length ≤ m.opks.length :=
  List.length_filterMap_le _ _

/-- Material with fewer one-time prekeys in the same slots still fits. -/
theorem IdMat.Fits.set_none {h : Bool} {m : IdMat β h} {P : FitPred β h} (hm : m.Fits P) {i : Nat}
    {x : HeldOpk (OpkOf β h)} (hi : m.opks[i]? = some (some x)) :
    ({ m with opks := m.opks.set i none } : IdMat β h).Fits P where
  ik := hm.ik
  spk := hm.spk
  opk := fun k hk => hm.opk k ((heldKeys_set_none hi).mem_iff.mpr (List.mem_cons_of_mem _ hk))
  sak := hm.sak
  spks_ne := hm.spks_ne
  spks_le := hm.spks_le
  opks_le := by simpa using hm.opks_le
  saks_le := hm.saks_le

end Fits

omit [Sodium β] [SodiumKeystore β] in
/-- Edits keep the material within its structure. -/
theorem Edit.fits {desc : SuiteDesc β} (L : LayoutLaws desc) {m m1 : IdMat β desc.isHybrid}
    {t t1 : SlotTable} (he : Edit desc m t m1 t1) (hm : m.Fits L.fits) : m1.Fits L.fits := by
  cases he with
  | rotateSpk hgen =>
    refine ⟨hm.ik, fun k hk => ?_, hm.opk, hm.sak, List.cons_ne_nil _ _,
      length_pushHistory_le (by decide) _ _, hm.opks_le, hm.saks_le⟩
    rcases mem_pushHistory hk with rfl | hk
    · exact L.spk_fits hgen
    · exact hm.spk k hk
  | replenish hroom hgen =>
    rename_i count rnd gen
    obtain ⟨-, hlen, -, -⟩ := gyOpkGenerate_spec desc hgen
    refine ⟨hm.ik, hm.spk, fun k hk => ?_, hm.sak, hm.spks_ne, hm.spks_le, ?_, hm.saks_le⟩
    · rcases List.mem_append.mp ((heldKeys_fillOpks gen m.opks).mem_iff.mp hk) with hk | hk
      · exact L.opk_fits hgen k hk
      · exact hm.opk k hk
    · have hle := length_fillOpks_le gen m.opks
      have hheld := length_held_le m
      have hmax := hm.opks_le
      simp only [IdMat.held_eq] at hheld hroom
      simp only [List.length_map]
      omega
  | reserve i =>
    refine ⟨hm.ik, hm.spk, fun k hk => ?_, hm.sak, hm.spks_ne, hm.spks_le, ?_, hm.saks_le⟩
    · exact hm.opk k (by rwa [IdMat.held_eq, heldKeys_setExported] at hk)
    · simpa only [length_setExported] using hm.opks_le
  | dropSpk hget hhead hmem =>
    rename_i handle pkid
    have hsub : (m.spks.take 1 ++ (m.spks.drop 1).eraseP fun k => decide (k.pkid = pkid)).Sublist
        m.spks := by
      have := (List.Sublist.refl (m.spks.take 1)).append
        (List.eraseP_sublist (p := fun k => decide (k.pkid = pkid)) (l := m.spks.drop 1))
      rwa [List.take_append_drop] at this
    refine ⟨hm.ik, fun k hk => hm.spk k (hsub.subset hk), hm.opk, hm.sak, fun hnil => ?_,
      hsub.length_le.trans hm.spks_le, hm.opks_le, hm.saks_le⟩
    obtain ⟨spk, rest, hspk⟩ := List.exists_cons_of_ne_nil hm.spks_ne
    rw [hspk] at hnil
    cases hnil
  | dropOpk hget hi =>
    obtain ⟨x, hx, -⟩ := opkIndex_eq_some hi
    exact hm.set_none hx
  | consume hi =>
    obtain ⟨x, hx, -⟩ := opkIndex_eq_some hi
    exact hm.set_none hx
  | appkey hgen hnil =>
    refine ⟨hm.ik, hm.spk, hm.opk, fun k hk => ?_, hm.spks_ne, hm.spks_le, hm.opks_le, by simp
      [sakHistoryMax]⟩
    obtain rfl := List.mem_singleton.mp hk
    exact L.sak_fits hgen
  | rotateSak hgen =>
    refine ⟨hm.ik, hm.spk, hm.opk, fun k hk => ?_, hm.spks_ne, hm.spks_le, hm.opks_le,
      length_pushHistory_le (by decide) _ _⟩
    rcases mem_pushHistory hk with rfl | hk
    · exact L.sak_fits hgen
    · exact hm.sak k hk

omit [Sodium β] [SodiumKeystore β] in
/-- Generated material fits. -/
theorem generateIdmat_fits {desc : SuiteDesc β} (L : LayoutLaws desc) {timestamp : UInt64} {n : Nat}
    {rnd : IdentityRand β} {m : IdMat β desc.isHybrid} (hn : n ≤ opkBatchMax)
    (hgen : generateIdmat desc desc.isHybrid timestamp n rnd = .ok m) : m.Fits L.fits := by
  obtain ⟨hspks, hsaks, hopks, -, -⟩ := generateIdmat_spec hgen
  obtain ⟨ik, hik, hgen⟩ := Except.bind_eq_ok_iff.mp hgen
  obtain ⟨spk, hspk, hgen⟩ := Except.bind_eq_ok_iff.mp hgen
  obtain ⟨opks, hopk, hgen⟩ := Except.bind_eq_ok_iff.mp hgen
  obtain rfl := Except.ok.inj hgen
  have hheld : (⟨ik, [spk], opks.map fun k => some ⟨k, false⟩, []⟩ :
      IdMat β desc.isHybrid).held = opks := by
    simp [IdMat.held, List.filterMap_map]
  refine ⟨L.ik_fits hik, fun k hk => ?_, fun k hk => ?_, fun k hk => (nomatch hk),
    List.cons_ne_nil _ _, by simp [spkHistoryMax], hopks.trans hn, Nat.zero_le _⟩
  · obtain rfl := List.mem_singleton.mp hk
    exact L.spk_fits hspk
  · rw [hheld] at hk
    unfold initialOpks at hopk
    split at hopk
    · exact L.opk_fits hopk k hk
    · obtain rfl := Except.ok.inj hopk
      cases hk

/-! ## The invariant -/

/-- A live custodian and the blob of its store belong together. -/
structure Live.Inv (suites : SuiteTable β) (L : (desc : SuiteDesc β) → LayoutLaws desc)
    (s : Live β) : Prop where
  ok : s.cust.Ok
  suite : suites.lookup s.cust.desc.suiteId = some s.cust.desc
  kek : s.cust.kek.length = kekprotKekLen
  wrap : WrapOf s.cust.kek s.cust.wrap
  fits : ∀ {m}, s.cust.mat = some m → m.Fits (L s.cust.desc).fits
  stored : ∃ wrap m, WrapOf s.cust.kek wrap ∧
    PersistedAs s.cust.desc s.cust.selfUid s.cust.selfDid wrap s.cust.kek m s.blob ∧
    ∀ m' ∈ m, m'.Good (L s.cust.desc).fits

omit [Octet β] [Signer β] [Sodium β] [SodiumKeystore β] [StructLayout β] in
/-- The material of a custodian in order is good. -/
theorem GyCustodian.Ok.good {c : GyCustodian β} (hok : c.Ok) {m : IdMat β c.desc.isHybrid}
    {P : FitPred β c.desc.isHybrid} (hm : c.mat = some m) (hfits : m.Fits P) : m.Good P := by
  have hids : c.heldIds = m.held.map OpkOf.pkid := by
    simp only [GyCustodian.heldIds, hm, Option.elim_some]
  exact ⟨hfits, hids ▸ hok.distinct, hids ▸ hok.present⟩

/-- Moves keep the invariant. -/
theorem Move.inv {suites : SuiteTable β}
    {L : (desc : SuiteDesc β) → LayoutLaws desc} {s s' : Live β}
    (hmove : Move s s') (hinv : s.Inv suites L) : s'.Inv suites L := by
  have hok := hmove.ok hinv.ok
  cases hmove with
  | identity hnone hn hgen hp =>
    have hfits := generateIdmat_fits (L _) hn hgen
    refine ⟨hok, hinv.suite, hinv.kek, hinv.wrap, fun h => ?_, ?_⟩
    · obtain rfl := Option.some.inj h
      exact hfits
    · refine ⟨_, _, hinv.wrap, hp, fun m' hm' => ?_⟩
      obtain rfl := Option.some.inj hm'
      exact hok.good rfl hfits
  | edit hm he hp =>
    have hfits := he.fits (L _) (hinv.fits hm)
    refine ⟨hok, hinv.suite, hinv.kek, hinv.wrap, fun h => ?_, ?_⟩
    · obtain rfl := Option.some.inj h
      exact hfits
    · refine ⟨_, _, hinv.wrap, hp, fun m' hm' => ?_⟩
      obtain rfl := Option.some.inj hm'
      exact hok.good rfl hfits
  | lose hm hi =>
    obtain ⟨x, hx, -⟩ := opkIndex_eq_some hi
    refine ⟨hok, hinv.suite, hinv.kek, hinv.wrap, fun h => ?_, hinv.stored⟩
    obtain rfl := Option.some.inj h
    exact (hinv.fits hm).set_none hx
  | rewrap hw hold henc =>
    refine ⟨hok, hinv.suite, hinv.kek, hw, hinv.fits, ?_⟩
    obtain ⟨wrap, m, hwrap, hp, hgood⟩ := hinv.stored
    obtain ⟨hdr, tail, hhdr, htail, hblob⟩ := hp.split
    -- the tail that was carried over is the sealed material the old blob held
    have hdec := gyCustHeaderDecode_encode hhdr tail
    rw [← hblob] at hdec
    obtain ⟨-, rfl⟩ := Prod.mk.inj (Except.ok.inj (hdec.symm.trans hold))
    exact ⟨_, m, hw, ⟨⟨_, _, henc, htail, rfl⟩⟩, hgood⟩
  | rewrapLive hw => exact ⟨hok, hinv.suite, hinv.kek, hw, hinv.fits, hinv.stored⟩

open Relation in
/-- Sequences of moves keep the invariant. -/
theorem moves_inv {suites : SuiteTable β} {L : (desc : SuiteDesc β) → LayoutLaws desc}
    {s s' : Live β} (hmoves : ReflTransGen Move s s') (hinv : s.Inv suites L) :
    s'.Inv suites L := by
  induction hmoves with
  | refl => exact hinv
  | tail _ hmove ih => exact hmove.inv ih

/-! ## Create and open -/

section Opened

omit [Octet β] [Signer β] [Sodium β] [SodiumKeystore β] [StructLayout β]

/-- A custodian without identity and handles is in order. -/
theorem ok_of_empty {c : GyCustodian β} (hmat : c.mat = none) (hslots : c.slots = .empty) :
    c.Ok := by
  have hids : c.heldIds = [] := by simp only [GyCustodian.heldIds, hmat, Option.elim_none]
  refine ⟨by rw [hslots]; exact List.length_replicate, fun id => ?_, by simp [hids], by simp [hids],
    fun h => ?_⟩
  · rw [hslots, SlotTable.empty, Slots.inUse_replicate_none]
    exact Nat.zero_le _
  · rw [hmat] at h
    cases h

/-- A custodian that was just opened is in order. -/
theorem ok_of_opened {c : GyCustodian β} {P : FitPred β c.desc.isHybrid}
    (hgood : ∀ m ∈ c.mat, m.Good P) (hslots : c.slots = openedSlots c.mat) : c.Ok := by
  obtain ⟨desc, uid, did, wrap, kek, clock, expiry, mat, slots⟩ := c
  obtain rfl : slots = openedSlots mat := hslots
  cases mat with
  | none => exact ok_of_empty rfl rfl
  | some m =>
    have hm := hgood m rfl
    have hempty : (⟨desc, uid, did, wrap, kek, clock, expiry, none, .empty⟩ : GyCustodian β).Ok :=
      ok_of_empty rfl rfl
    refine hempty.grow (count_keySlots_opk m) (by
      show List.Perm _ (_ ++ []); rw [List.append_nil]) hm.distinct (fun k hk => ⟨fun h0 => ?_, ?_⟩)
      hm.fits.spks_ne
    · exact hm.present (h0 ▸ List.mem_map_of_mem hk)
    · exact List.not_mem_nil

end Opened

/-- A created custodian satisfies the invariant. -/
theorem gyCustodianCreate_inv {suites : SuiteTable β} {L : (desc : SuiteDesc β) → LayoutLaws desc}
    {suiteId : UInt8} {cred uid did : Bytes β} {clock : Bool} {cfg : Option GyConfig}
    {kekRand : Rng β} {rnd : WrapRand β} {fault : Option GyErr} {blob blob' : Bytes β}
    {c : GyCustodian β}
    (h : gyCustodianCreate suites suiteId cred uid did clock cfg kekRand rnd fault
      blob = (.ok c, blob')) :
    (⟨c, blob'⟩ : Live β).Inv suites L ∧ c.Persisted c.mat blob' ∧
      gyKekprotWrap sealAlgAegis256 pwhashOpslimitMin pwhashMemlimitMin cred [] c.kek rnd =
        .ok c.wrap ∧ c.mat = none ∧ c.slots = .empty := by
  unfold gyCustodianCreate at h
  split at h
  · cases h
  · split at h
    · cases h
    · rename_i desc hsuite
      split at h
      · cases h
      · split at h
        · cases h
        · rename_i kek wrap hks
          dsimp only at h
          split at h
          · cases h
          · rename_i blob'' hp
            obtain ⟨hc, rfl⟩ := Prod.mk.inj h
            obtain rfl := Except.ok.inj hc
            obtain ⟨k, hk, hks⟩ := Except.bind_eq_ok_iff.mp hks
            obtain ⟨w, hw, hks⟩ := Except.bind_eq_ok_iff.mp hks
            obtain ⟨rfl, rfl⟩ := Prod.mk.inj (Except.ok.inj hks)
            obtain ⟨hdr, henc, rfl⟩ := custPersistHeader_ok hp
            have hpers : PersistedAs desc uid did w k.1 none (hdr ++ []) :=
              ⟨⟨hdr, [], henc, rfl, rfl⟩⟩
            have hid := suites.lookup_suiteId hsuite
            refine ⟨⟨ok_of_empty rfl rfl, by rw [hid]; exact hsuite, k.2, ⟨cred, rnd, hw⟩,
              fun h => (nomatch h), w, none, ⟨cred, rnd, hw⟩, hpers, fun m' hm' => (nomatch hm')⟩,
              hpers, hw, rfl, rfl⟩

/-- What opening a persisted blob gives, whatever the credential: if the wrap opens, it opens to the
key it wraps. -/
theorem gyCustodianOpen_stored (laws : SealLaws β) {suites : SuiteTable β} {desc : SuiteDesc β}
    (L : LayoutLaws desc) (hsuite : suites.lookup desc.suiteId = some desc)
    {cred uid did wrap kek blob : Bytes β} {m : Option (IdMat β desc.isHybrid)} {c : GyCustodian β}
    (hwrap : WrapOf kek wrap) (hp : PersistedAs desc uid did wrap kek m blob)
    (hm : ∀ m' ∈ m, m'.Fits L.fits) (hopen : gyCustodianOpen suites cred blob = .ok c) :
    c = ⟨desc, uid, did, wrap, kek, false, .disabled, m, openedSlots m⟩ := by
  have hkek : gyKeystoreOpen cred wrap = .ok kek := by
    obtain ⟨cred0, rnd0, hw⟩ := hwrap
    obtain ⟨hdr, tail, henc, -, hblob⟩ := hp.split
    have hdec := gyCustHeaderDecode_encode henc tail
    unfold gyCustodianOpen at hopen
    rw [hblob] at hopen
    split at hopen
    · cases hopen
    · rw [hdec, Except.ok_bind] at hopen
      dsimp only at hopen
      rw [hsuite] at hopen
      obtain ⟨kek', hkek, -⟩ := Except.bind_eq_ok_iff.mp hopen
      rw [hkek, gyKeystoreOpen_unique laws hw hkek]
  have heq := gyCustodianOpen_persisted laws L hsuite hm hp hkek
  exact (Except.ok.inj (heq.symm.trans hopen)).symm

/-- What opening the blob of a custodian with the invariant gives: its suite, its addresses, its
key-encryption key and the stored material. -/
theorem Live.Inv.open_eq (laws : SealLaws β) {suites : SuiteTable β}
    {L : (desc : SuiteDesc β) → LayoutLaws desc} {s : Live β} (hinv : s.Inv suites L)
    {cred : Bytes β} {c : GyCustodian β} (hopen : gyCustodianOpen suites cred s.blob = .ok c) :
    ∃ wrap m, WrapOf s.cust.kek wrap ∧ (∀ m' ∈ m, m'.Good (L s.cust.desc).fits) ∧
      PersistedAs s.cust.desc s.cust.selfUid s.cust.selfDid wrap s.cust.kek m s.blob ∧
      c = ⟨s.cust.desc, s.cust.selfUid, s.cust.selfDid, wrap, s.cust.kek, false, .disabled, m,
        openedSlots m⟩ := by
  obtain ⟨wrap, m, hwrap, hp, hgood⟩ := hinv.stored
  exact ⟨wrap, m, hwrap, hgood, hp, gyCustodianOpen_stored laws (L _) hinv.suite hwrap hp
    (fun m' hm' => (hgood m' hm').fits) hopen⟩

/-- A custodian that was opened again satisfies the invariant. -/
theorem Live.Inv.reopen (laws : SealLaws β) {suites : SuiteTable β}
    {L : (desc : SuiteDesc β) → LayoutLaws desc} {s : Live β} (hinv : s.Inv suites L)
    {cred : Bytes β} {c : GyCustodian β} (hopen : gyCustodianOpen suites cred s.blob = .ok c) :
    (⟨c, s.blob⟩ : Live β).Inv suites L := by
  obtain ⟨wrap, m, hwrap, hgood, hp, rfl⟩ := hinv.open_eq laws hopen
  exact ⟨ok_of_opened hgood rfl, hinv.suite, hinv.kek, hwrap, fun h => (hgood _ h).fits, wrap, m,
    hwrap, hp, hgood⟩

/-- The invariant holds of every reachable custodian. -/
theorem Reached.inv (laws : SealLaws β) (L : (desc : SuiteDesc β) → LayoutLaws desc)
    {suites : SuiteTable β} {s : Live β} (h : Reached suites s) : s.Inv suites L := by
  induction h with
  | create h => exact (gyCustodianCreate_inv h).1
  | call call _ ih => exact moves_inv (Live.step_moves ih.ok call) ih
  | reopen _ hopen ih => exact ih.reopen laws hopen

/-! ## A symbolic custodian -/

/-- The two symbolic suites. -/
def symSuites : SuiteTable Sym where
  lookup id :=
    if id = 1 then some (symSuite false) else if id = 3 then some (symSuite true) else none
  lookup_suiteId := by
    intro id desc h
    split at h
    · rename_i hid
      obtain rfl := Option.some.inj h
      exact hid.symm
    · split at h
      · rename_i hid
        obtain rfl := Option.some.inj h
        exact hid.symm
      · cases h

/-- The key-encryption key of a symbolic custodian. -/
def symKek : Bytes Sym := Sym.prim 17 [Sym.num 0] kekprotKekLen

open Geryon.Sym in
/-- A symbolic classical custodian is created, with a wrap that starts with its salt. -/
theorem sym_create (cred : Bytes Sym) (clock : Bool) {cfg : Option GyConfig} {expiry : ExpiryCfg}
    (hcfg : expiryOf cfg = .ok expiry) (k : Nat) :
    ∃ rest blob, gyCustodianCreate symSuites 1 cred [num 1] [num 2] clock cfg (symRng 0)
      ⟨symRng k, symRng k⟩ none [] =
        (.ok ⟨symSuite false, [num 1], [num 2], prim 17 [num k] pwhashSaltLen ++ rest,
          symKek, clock,
          expiry, none, .empty⟩, blob) := by
  obtain ⟨rest, hwrap⟩ := sym_gyKekprotWrap cred symKek (length_prim _ _ _) k
  have hks : gyKeystoreCreate sealAlgAegis256 pwhashOpslimitMin pwhashMemlimitMin cred (symRng 0)
      ⟨symRng k, symRng k⟩ = .ok (symKek, prim 17 [num k] pwhashSaltLen ++ rest) := by
    have hkek : symRng 0 kekprotKekLen = .ok ⟨symKek, length_prim _ _ _⟩ := rfl
    simp only [gyKeystoreCreate]
    rw [hkek]
    simp only [Except.ok_bind, hwrap]
    rfl
  have hwrapOf : WrapOf symKek (prim 17 [num k] pwhashSaltLen ++ rest) := ⟨cred, _, hwrap⟩
  obtain ⟨hdr, -, hp⟩ := custPersistHeader_eq
    ⟨symSuite false, [num 1], [num 2], prim 17 [num k] pwhashSaltLen ++ rest, symKek, clock,
      expiry, none, .empty⟩ none (show 1 ≤ userIdMax by decide) (show 1 ≤ deviceIdMax by decide)
    (hwrapOf.length sym_sealLaws (length_prim _ _ _)).le
    (show List.length [] ≤ _ from Nat.zero_le _) []
  have hlookup : symSuites.lookup 1 = some (symSuite false) := rfl
  unfold gyCustodianCreate
  rw [if_neg (by decide), hlookup]
  dsimp only
  rw [hcfg]
  dsimp only
  rw [hks]
  dsimp only
  rw [hp]
  exact ⟨rest, _, rfl⟩

open Geryon.Sym in
/-- The symbolic keys number `n`. -/
def symDraw (desc : SuiteDesc Sym) (n : Nat) : KeyDraw desc where
  pk := prim 1 [num n] desc.curvePkLen
  sk := prim 2 [num n] desc.curveSkLen
  mlkemEk := prim 3 [num n] desc.kemPkLen
  mlkemDk := prim 4 [num n] desc.kemSkLen
  mldsaPk := prim 13 [num n] desc.dsaPkLen
  mldsaSk := []
  length_pk := length_prim _ _ _
  length_sk := length_prim _ _ _
  length_mlkemEk := length_prim _ _ _
  length_mlkemDk := length_prim _ _ _
  length_mldsaPk := length_prim _ _ _

/-- The draws of the symbolic keys from `start` on. -/
def symKeyRand (start n : Nat) : KeyRand Sym :=
  ⟨fun desc => (List.range' start n).map fun i => .ok (symDraw desc i), [], []⟩

/-- A symbolic draw makes a key pair. -/
theorem makeKeypair_symDraw (n : Nat) :
    makeKeypair (symSuite false) (symDraw (symSuite false) n) = .ok (symPair n) := by
  have henc : gyEncodeEc (symSuite false).curveType (symDraw (symSuite false) n).pk =
      .ok (Octet.ofByte 32 :: (symPair n).pub.pk) := gyEncodeEc_symPair n
  have hid := gyPkid_sym false n []
  rw [List.append_nil] at hid
  rw [makeKeypair, henc, Except.ok_bind, hid, Except.ok_bind]
  rfl

/-- A symbolic key that is not forbidden is taken at its first draw. -/
theorem genKeypair_symDraw {n : Nat} (hn : n < 2 ^ 31) {forbidden : List UInt32}
    (hnew : (symPair n).pub.pkid ∉ forbidden) (rest : Draws (symSuite false)) :
    genKeypair (symSuite false) forbidden (.ok (symDraw (symSuite false) n) :: rest) =
      .ok (symPair n, rest) := by
  have hpresent := pkidIsPresent_symPair hn
  rw [genKeypair, genLoop, makeKeypair_symDraw, Except.ok_bind, if_neg (by simp [hpresent, hnew])]
  rfl

/-- Symbolic keys have different identifiers. -/
theorem symPair_pkid_injOn {n m : Nat} (hn : n < 2 ^ 31) (hm : m < 2 ^ 31)
    (h : (symPair n).pub.pkid = (symPair m).pub.pkid) : n = m := by
  have hnat := congrArg UInt32.toNat h
  simp only [symPair, UInt32.toNat_ofNat'] at hnat
  omega

/-- A batch of symbolic one-time prekeys. -/
theorem opkBatchLoop_symDraw {start n : Nat} (hn : start + n ≤ 2 ^ 31) {forbidden : List UInt32}
    (hnew : ∀ i, start ≤ i → i < start + n → (symPair i).pub.pkid ∉ forbidden) :
    opkBatchLoop (symSuite false) (genKeypair (symSuite false)) (fun k => k.pub.pkid) n forbidden
      ((List.range' start n).map fun i => .ok (symDraw (symSuite false) i)) =
        .ok ((List.range' start n).map symPair) := by
  induction n generalizing start forbidden with
  | zero => rfl
  | succ n ih =>
    have hnew' : ∀ i, start + 1 ≤ i → i < start + 1 + n →
        (symPair i).pub.pkid ∉ (symPair start).pub.pkid :: forbidden := by
      intro i hi hi' hmem
      rcases List.mem_cons.mp hmem with heq | hmem
      · have := symPair_pkid_injOn (by omega) (by omega) heq
        omega
      · exact hnew i (by omega) (by omega) hmem
    have hrest := ih (by omega) hnew'
    rw [List.range'_succ, List.map_cons, List.map_cons, opkBatchLoop,
      genKeypair_symDraw (by omega) (hnew start (by omega) (by omega)), Except.ok_bind]
    simp only [hrest, Except.ok_bind]
    rfl

/-- The symbolic signed prekey number 1, signed by the identity number 0. -/
def symSignedPrekey : SignedPrekey Sym :=
  ⟨symPair 1, 0, Sym.prim 15 [Sym.ofList (symPair 0).sk,
    Sym.ofList (Octet.ofByte 32 :: (symPair 1).pub.pk ++ be64Put 0), Sym.ofList []] 64⟩

/-- The symbolic identity material with `n` one-time prekeys. -/
def symIdmat (n : Nat) : IdMat Sym (symSuite false).isHybrid :=
  ⟨symPair 0, [symSignedPrekey], ((List.range' 2 n).map symPair).map fun k => some ⟨k, false⟩, []⟩

/-- The symbolic draws of an identity with `n` one-time prekeys. -/
def symIdentityRand (n : Nat) : IdentityRand Sym := ⟨symKeyRand 0 1, symKeyRand 1 1, symKeyRand 2 n⟩

/-- The one-time prekeys of the sample. -/
theorem held_symIdmat (n : Nat) : (symIdmat n).held = (List.range' 2 n).map symPair :=
  heldKeys_fresh _

theorem length_held_symIdmat (n : Nat) : (symIdmat n).held.length = n := by
  have hlen : ((List.range' 2 n).map symPair).length = n := by simp
  exact (congrArg List.length (held_symIdmat n)).trans hlen

/-- The key material of the sample is generated. -/
theorem generateIdmat_sym {n : Nat} (hn : n ≤ opkBatchMax) :
    generateIdmat (symSuite false) (symSuite false).isHybrid 0 n (symIdentityRand n) =
      .ok (symIdmat n) := by
  have hik : gyIdentityGenerate (symSuite false) false (symKeyRand 0 1) = .ok (symPair 0) := by
    have h : genKeypair (symSuite false) [] ((symKeyRand 0 1).draws (symSuite false)) = _ :=
      genKeypair_symDraw (n := 0) (by decide) List.not_mem_nil []
    rw [gyIdentityGenerate, h, Except.ok_bind]
    rfl
  have hsigned : spkSignedData (symPair 1).pub 0 =
      .ok (Octet.ofByte 32 :: (symPair 1).pub.pk ++ be64Put 0) := by
    rw [spkSignedData, gyEncodeEc_symPair]
    rfl
  have hspk : gySignedPrekeyGenerate (symSuite false) false (symPair 0) 0 (symKeyRand 1 1) =
      .ok symSignedPrekey := by
    have h : genKeypair (symSuite false) [] ((symKeyRand 1 1).draws (symSuite false)) = _ :=
      genKeypair_symDraw (n := 1) (by decide) List.not_mem_nil []
    rw [gySignedPrekeyGenerate, gySpkCreate, h, Except.ok_bind]
    simp only [hsigned, Except.ok_bind]
    rfl
  have hopks : initialOpks (symSuite false) false n (symKeyRand 2 n) =
      .ok ((List.range' 2 n).map symPair) := by
    have hmax : opkBatchMax = 100 := rfl
    unfold initialOpks
    split
    · unfold gyOpkGenerate
      rw [if_neg (by omega)]
      exact opkBatchLoop_symDraw (by omega) fun i _ _ => List.not_mem_nil
    · obtain rfl : n = 0 := by omega
      rfl
  exact generateIdmat_ok hik hspk hopks

/-- A symbolic persist that succeeds. -/
def symPersist : PersistEnv Sym := ⟨symRng 9, none⟩

/-- Key material is always sealed. -/
theorem sym_sealIdmat {h : Bool} (kek : Bytes Sym) (m : IdMat Sym h) :
    ∃ sealed, sealIdmat kek m symPersist.nonce = .ok sealed :=
  sym_gySeal kek _ _ 9 (by rw [length_idmatAd]; decide) (le_refl _)

end Geryon
