import Geryon.Lib.Reserve
import Geryon.Proto.Envelope
import Geryon.Proto.OneTime

/-!
# Exports of one-time prekeys

Two calls hand out one-time prekeys. A one-shot bundle carries one that is reserved for it; a batch
carries every one that is not reserved, and reserves none. The mark of a reservation is part of the
sealed material, so it outlives a close, and a reservation that cannot be persisted is taken back.

A run keeps two ghost lists: the public keys the generator delivered, and the exports that were
returned with success.

## Main definitions

- `gyCustodianPublishOpkBatch`: the granular publication.
- `ExportRun`: runs of calls, batches, receives, closes and reopens, with the exports.

## Main results

- `publishBundle_carries`, `publishOpkBatch_carries`: what the exported bytes carry.
- `reserved_not_reissued`: the key of a bundle is in no later export.
-/

namespace Geryon

variable {β : Type}

/-! ## Public keys and marks -/

/-- The public part of a one-time prekey: the curve key and, in hybrid suites, the ML-KEM key. -/
abbrev OpkPublic (β : Type) := PublicKey β × Bytes β

/-- The public part of a one-time prekey. -/
def OpkOf.pub : {h : Bool} → OpkOf β h → OpkPublic β
  | false, (k : CurvePair β) => (k.pub, [])
  | true, (k : HybridPair β) => (k.pub.curve, k.pub.mlkemEk)

/-- The pool of a list of slots: the public keys held, each with its exported mark. -/
def poolOf {h : Bool} (opks : List (Option (HeldOpk (OpkOf β h)))) : Reserve.Pool (OpkPublic β) :=
  opks.filterMap fun o => o.map fun x => (x.key.pub, x.exported)

/-- The pool of a custodian that may not have an identity yet. -/
def optPool {h : Bool} (m : Option (IdMat β h)) : Reserve.Pool (OpkPublic β) :=
  m.elim [] fun m => poolOf m.opks

/-- The pool of a live custodian. -/
def Live.marked (s : Live β) : Reserve.Pool (OpkPublic β) := optPool s.cust.mat

/-! ## Publications -/

/-- The one-time prekeys `gy_custodian_publish_opk_batch` collects. -/
def custUnexported {κ : Type} (opks : List (Option (HeldOpk κ))) : List κ :=
  opks.filterMap fun o => o.bind fun x => if x.exported then none else some x.key

/-- The key of the slot `cust_first_reservable_opk` finds. -/
def firstReservable {h : Bool} (m : IdMat β h) : Option (OpkPublic β) := do
  let i ← custFirstReservableOpk m.opks
  let x ← m.opks[i]?.join
  return x.key.pub

variable [Octet β]

/-- The put of `gy_custodian_publish_opk_batch` and of `cust_publish_hybrid_opk_batch`. -/
def custPutOpkBatch (desc : SuiteDesc β) (cap : Nat) : (h : Bool) → List (OpkOf β h) →
    Except GyErr (Bytes β)
  | false, keys => gyOpkBatchPut desc cap (keys.map fun k : CurvePair β => k.pub)
  | true, keys => gyHybridOpkBatchPut desc cap (keys.map fun k : HybridPair β => k.pub)

/-- `gy_custodian_publish_opk_batch` into a buffer of `cap` bytes. -/
def gyCustodianPublishOpkBatch (cap : Nat) : Cmd GyErr (Live β) (Bytes β) := fun s =>
  match s.cust.mat with
  | none => (.error .state, s)
  | some m => (custPutOpkBatch s.cust.desc cap _ (custUnexported m.opks), s)

variable [Signer β]

/-- The public keys the generator delivers to `cust_replenish_opks`, once its arguments are in
order. -/
def replenishKeys (s : Live β) (count : Nat) (rnd : KeyRand β) : List (OpkPublic β) :=
  match s.cust.mat with
  | none => []
  | some m =>
    if count = 0 ∨ opkBatchMax < count ∨ opkBatchMax - m.held.length < count then []
    else
      match gyOpkGenerate s.cust.desc s.cust.desc.isHybrid count (m.held.map OpkOf.pkid) rnd with
      | .error _ => []
      | .ok gen => gen.map OpkOf.pub

/-- The public one-time prekeys the generator delivers to a call. -/
def Live.delivers (s : Live β) : CustCall β → List (OpkPublic β)
  | .generateIdentity timestamp n rnd _ =>
    if s.cust.mat.isSome ∨ opkBatchMax < n then []
    else
      match generateIdmat s.cust.desc s.cust.desc.isHybrid timestamp n rnd with
      | .error _ => []
      | .ok m => (poolOf m.opks).keys
  | .generateOnetimePrekeys count rnd _ => replenishKeys s count rnd
  | .publishBundle _ rnd _ _ =>
    match s.cust.mat.bind fun m => custFirstReservableOpk m.opks with
    | some _ => []
    -- a bundle mints only when nothing is left to hand out
    | none => replenishKeys s 1 rnd
  | _ => []

variable [Sodium β] [SodiumKeystore β] [StructLayout β]

/-- The key a bundle carries: the first one that can be reserved, after a spent pool was
replenished. -/
def Live.bundleKey (s : Live β) (rnd : KeyRand β) (mint : PersistEnv β) : Option (OpkPublic β) :=
  match s.cust.mat.bind fun m => custFirstReservableOpk m.opks with
  | some _ => s.cust.mat.bind firstReservable
  | none => (custReplenishOpks 1 rnd mint s).2.cust.mat.bind firstReservable

/-- What a call that returns success exports. -/
def Live.exports (s : Live β) : CustCall β → List (Reserve.Export (OpkPublic β))
  | .publishBundle _ rnd mint _ => [⟨true, (s.bundleKey rnd mint).toList⟩]
  | _ => []

/-! ## Slots -/

section Slots

omit [Octet β] [Signer β] [Sodium β] [SodiumKeystore β] [StructLayout β]

variable {h : Bool} {opks : List (Option (HeldOpk (OpkOf β h)))} {i : Nat}
  {x : HeldOpk (OpkOf β h)}

/-- The pool of two parts. -/
theorem poolOf_append (l l' : List (Option (HeldOpk (OpkOf β h)))) :
    poolOf (l ++ l') = poolOf l ++ poolOf l' := List.filterMap_append

/-- The pool around a slot in use. -/
theorem poolOf_split (hi : opks[i]? = some (some x)) :
    poolOf opks = poolOf (opks.take i) ++ (x.key.pub, x.exported) ::
      poolOf (opks.drop (i + 1)) := by
  obtain ⟨hlt, hx⟩ := List.getElem?_eq_some_iff.mp hi
  have hsplit : opks = opks.take i ++ some x :: opks.drop (i + 1) := by
    rw [← hx, List.getElem_cons_drop, List.take_append_drop]
  conv_lhs => rw [hsplit]
  rw [poolOf_append]
  rfl

/-- Marking a slot marks its key in the pool. -/
theorem poolOf_setExported (hi : opks[i]? = some (some x)) (b : Bool) :
    poolOf (setExported i b opks) =
      poolOf (opks.take i) ++ (x.key.pub, b) :: poolOf (opks.drop (i + 1)) := by
  obtain ⟨hlt, hx⟩ := List.getElem?_eq_some_iff.mp hi
  rw [setExported, List.modify_eq_take_cons_drop hlt, hx, poolOf_append]
  rfl

/-- Emptying a slot takes its key out of the pool. -/
theorem poolOf_set_none (hi : opks[i]? = some (some x)) :
    (poolOf (opks.set i none)).Sublist (poolOf opks) := by
  obtain ⟨hlt, -⟩ := List.getElem?_eq_some_iff.mp hi
  have hset : poolOf (opks.set i none) =
      poolOf (opks.take i) ++ poolOf (opks.drop (i + 1)) := by
    rw [List.set_eq_take_append_cons_drop, if_pos hlt, poolOf_append]
    rfl
  rw [hset, poolOf_split hi]
  exact (List.Sublist.refl _).append (List.sublist_cons_self _ _)

/-- A fill adds the generated keys, without marks. -/
theorem poolOf_fillOpks (gen : List (OpkOf β h)) :
    (poolOf ((fillOpks gen opks).map Prod.fst)).Perm
      ((gen.map OpkOf.pub).map (·, false) ++ poolOf opks) := by
  fun_induction fillOpks gen opks with
  | case1 opks => simp [poolOf, Function.comp_def]
  | case2 ks _ => simp [poolOf, Function.comp_def, List.filterMap_map]
  | case3 k ks opks ih => exact ih.cons (k.pub, false)
  | case4 k ks y opks ih =>
    exact (ih.cons (y.key.pub, y.exported)).trans List.perm_middle.symm

/-- The slot that is reserved is in use and not marked. -/
theorem custFirstReservableOpk_eq_some (hi : custFirstReservableOpk opks = some i) :
    ∃ x, opks[i]? = some (some x) ∧ x.exported = false := by
  rw [custFirstReservableOpk, List.findIdx?_eq_some_iff_getElem] at hi
  obtain ⟨hlt, hany, -⟩ := hi
  cases hx : opks[i] with
  | none =>
    rw [hx] at hany
    cases hany
  | some x =>
    rw [hx] at hany
    exact ⟨x, by rw [List.getElem?_eq_getElem hlt, hx], by simpa using hany⟩

/-- A batch carries the keys without a mark. -/
theorem custUnexported_pub : (custUnexported opks).map OpkOf.pub = (poolOf opks).free := by
  induction opks with
  | nil => rfl
  | cons o opks ih =>
    rcases o with _ | ⟨k, exported⟩
    · exact ih
    · cases exported with
      | true => exact ih
      | false => exact congrArg (k.pub :: ·) ih

end Slots

/-! ## What a step does to the pool -/

/-- The blob holds the material of a custodian with this pool, under some wrap of its
key-encryption key. -/
def Live.StoresPool (L : (desc : SuiteDesc β) → LayoutLaws desc) (s : Live β)
    (l : Reserve.Pool (OpkPublic β)) : Prop :=
  ∃ wrap m, WrapOf s.cust.kek wrap ∧
    PersistedAs s.cust.desc s.cust.selfUid s.cust.selfDid wrap s.cust.kek m s.blob ∧
    (∀ m' ∈ m, m'.Fits (L s.cust.desc).fits) ∧ optPool m = l

/-- What a step with the generated keys `new` does: the pool changes without losing a mark, and the
blob is that of the new pool or still the old one. -/
structure PoolStep (L : (desc : SuiteDesc β) → LayoutLaws desc) (new : List (OpkPublic β))
    (s s' : Live β) : Prop where
  live : Reserve.Change new s.marked s'.marked
  blob : s'.StoresPool L s'.marked ∨ ∀ l, s.StoresPool L l → s'.StoresPool L l

variable {suites : SuiteTable β} {L : (desc : SuiteDesc β) → LayoutLaws desc}
  {new : List (OpkPublic β)} {s s' : Live β}

/-- Doing nothing exports nothing. -/
theorem PoolStep.refl (s : Live β) : PoolStep L new s s := ⟨.refl _ _, .inr fun _ h => h⟩

/-- A step that persisted the live material. -/
theorem PoolStep.of_persisted (hinv : s'.Inv suites L) (hp : s'.cust.Persisted s'.cust.mat s'.blob)
    (hlive : Reserve.Change new s.marked s'.marked) : PoolStep L new s s' :=
  ⟨hlive, .inl ⟨s'.cust.wrap, s'.cust.mat, hinv.wrap, hp, fun _ hm => hinv.fits hm, rfl⟩⟩

omit [Octet β] [Signer β] [Sodium β] [SodiumKeystore β] [StructLayout β] in
/-- The marked keys of a running custodian are those of its key material. -/
theorem Live.marked_of_mat {m : IdMat β s.cust.desc.isHybrid} (hm : s.cust.mat = some m) :
    s.marked = poolOf m.opks := by
  rw [Live.marked, hm]
  rfl

/-- A change of material that is persisted. -/
theorem PoolStep.of_edit {m m1 : IdMat β s.cust.desc.isHybrid} {t1 : SlotTable} {blob' : Bytes β}
    (hinv : s.Inv suites L) (hm : s.cust.mat = some m) (he : Edit s.cust.desc m s.cust.slots m1 t1)
    (hp : s.cust.Persisted (some m1) blob')
    (hpool : Reserve.Change new (poolOf m.opks) (poolOf m1.opks)) :
    PoolStep L new s ⟨{ s.cust with mat := some m1, slots := t1 }, blob'⟩ := by
  have hmove : Move s ⟨{ s.cust with mat := some m1, slots := t1 }, blob'⟩ := .edit hm he hp
  refine PoolStep.of_persisted (hmove.inv hinv) hp ?_
  rw [Live.marked_of_mat hm]
  exact hpool

/-! ## Calls -/

omit [Signer β] [Sodium β] [SodiumKeystore β] [StructLayout β] in
/-- What a replenishment delivers once its material was generated. -/
theorem replenishKeys_eq {m : IdMat β s.cust.desc.isHybrid} (hm : s.cust.mat = some m) {count : Nat}
    {rnd : KeyRand β} {gen : List (OpkOf β s.cust.desc.isHybrid)}
    (hroom : count ≤ opkBatchMax - m.held.length)
    (hgen : gyOpkGenerate s.cust.desc s.cust.desc.isHybrid count (m.held.map OpkOf.pkid) rnd =
      .ok gen) : replenishKeys s count rnd = gen.map OpkOf.pub := by
  have hcount : ¬(count = 0 ∨ opkBatchMax < count) := by
    intro h
    unfold gyOpkGenerate at hgen
    rw [if_pos h] at hgen
    cases hgen
  unfold replenishKeys
  simp only [hm]
  rw [if_neg (by omega), hgen]

omit [Sodium β] [SodiumKeystore β] [StructLayout β] in
/-- What the generation of an identity delivers. -/
theorem delivers_generateIdentity (hnone : s.cust.mat = none) {timestamp : UInt64} {n : Nat}
    {rnd : IdentityRand β} {env : PersistEnv β} {m : IdMat β s.cust.desc.isHybrid}
    (hn : n ≤ opkBatchMax)
    (hgen : generateIdmat s.cust.desc s.cust.desc.isHybrid timestamp n rnd = .ok m) :
    s.delivers (.generateIdentity timestamp n rnd env) = (poolOf m.opks).keys := by
  simp only [Live.delivers, hnone, hgen]
  exact if_neg (by simp; omega)

omit [Sodium β] [SodiumKeystore β] [StructLayout β] in
/-- The pool of a new identity has no marks. -/
theorem generateIdmat_pool {desc : SuiteDesc β} {h : Bool} {timestamp : UInt64} {n : Nat}
    {rnd : IdentityRand β} {m : IdMat β h} (hgen : generateIdmat desc h timestamp n rnd = .ok m) :
    poolOf m.opks = (poolOf m.opks).keys.map (·, false) := by
  obtain ⟨ik, -, hgen⟩ := Except.bind_eq_ok_iff.mp hgen
  obtain ⟨spk, -, hgen⟩ := Except.bind_eq_ok_iff.mp hgen
  obtain ⟨opks, -, hgen⟩ := Except.bind_eq_ok_iff.mp hgen
  obtain rfl := Except.ok.inj hgen
  simp [poolOf, Reserve.Pool.keys, List.filterMap_map, Function.comp_def]

/-- Replenishing adds unmarked keys. -/
theorem PoolStep.replenish (hinv : s.Inv suites L) (count : Nat) (rnd : KeyRand β)
    (env : PersistEnv β) :
    PoolStep L (replenishKeys s count rnd) s (custReplenishOpks count rnd env s).2 := by
  rcases custReplenishOpks_cases count rnd env hinv.ok with
    ⟨e, h⟩ | ⟨m, gen, blob', hm, hroom, hgen, hp, h⟩
  · rw [h]
    exact .refl s
  · rw [h, replenishKeys_eq hm hroom hgen]
    exact .of_edit hinv hm (.replenish hroom hgen) (custSealAndPersist_ok hp)
      (.add (poolOf_fillOpks gen))

/-- A consumption takes the key from the live custodian, and from the blob if that is written. -/
theorem PoolStep.consume (hinv : s.Inv suites L) (pkid : UInt32) (app : Option GyErr)
    (env : PersistEnv β) : PoolStep L [] s (trConsumeOpk pkid app env s).2 := by
  rcases trConsumeOpk_cases pkid app env s with
    ⟨e, -, h⟩ | ⟨-, -, h⟩ | ⟨m, i, r, blob', hm, hi, hp, h⟩
  · rw [h]
    exact .refl s
  · rw [h]
    exact .refl s
  · rw [h]
    obtain ⟨x, hx, -⟩ := opkIndex_eq_some hi
    have hpool : Reserve.Change [] (poolOf m.opks) (poolOf (m.opks.set i none)) :=
      .drop (poolOf_set_none hx)
    rcases hp with ⟨-, hp⟩ | ⟨-, rfl⟩
    · exact .of_edit hinv hm (.consume hi) hp hpool
    · refine ⟨?_, .inr fun _ hl => hl⟩
      rw [Live.marked_of_mat hm]
      exact hpool

/-- Deleting a prekey takes it out of the pool. -/
theorem PoolStep.delete (hinv : s.Inv suites L) (handle : Nat) (env : PersistEnv β) :
    PoolStep L [] s (gyCustodianDeletePrekey handle env s).2 := by
  unfold gyCustodianDeletePrekey
  cases hget : gyCustodianSlotGet handle s.cust.slots with
  | error e => exact .refl s
  | ok k =>
    obtain ⟨type, pkid⟩ := k
    cases hm : s.cust.mat with
    | none => cases type <;> exact .refl s
    | some m =>
      have hspks := hinv.ok.spks hm
      cases type with
      | identity => exact .refl s
      | sak => exact .refl s
      | spk =>
        rcases deleteSpk_cases handle pkid env hm hspks with ⟨e, h⟩ | ⟨blob', hhead, hmem, hp, h⟩
        · simp only [h]
          exact .refl s
        · simp only [h]
          exact .of_edit hinv hm (.dropSpk hget hhead hmem) hp (.refl _ _)
      | opk =>
        rcases deleteOpk_cases handle pkid env hm hspks with ⟨e, h⟩ | ⟨i, blob', hi, hp, h⟩
        · simp only [h]
          exact .refl s
        · simp only [h]
          obtain ⟨x, hx, -⟩ := opkIndex_eq_some hi
          exact .of_edit hinv hm (.dropOpk hget hi) hp (.drop (poolOf_set_none hx))

/-- A credential change carries the sealed material over. -/
theorem PoolStep.changeCredential (newCred : Bytes β) (rnd : WrapRand β)
    (load fault : Option GyErr) :
    PoolStep L [] s (gyCustodianChangeCredential newCred rnd load fault s).2 := by
  rcases gyCustodianChangeCredential_cases newCred rnd load fault s with
    ⟨e, h⟩ | ⟨hdr, tail, wrap, r, blob', -, hdec, hwrap, hp, h⟩
  · rw [h]
    exact .refl s
  · rw [h]
    refine ⟨.refl _ _, .inr fun l hl => ?_⟩
    rcases hp with ⟨-, hdr', henc, rfl⟩ | ⟨-, rfl⟩
    · obtain ⟨wrap', m, hw, ⟨hdr0, tail0, henc0, htail, hblob⟩, hfits, hpool⟩ := hl
      have hdec0 := gyCustHeaderDecode_encode henc0 tail0
      rw [← hblob] at hdec0
      obtain ⟨-, rfl⟩ := Prod.mk.inj (Except.ok.inj (hdec0.symm.trans hdec))
      exact ⟨wrap, m, ⟨newCred, rnd, hwrap⟩, ⟨⟨_, _, henc, htail, rfl⟩⟩, hfits, hpool⟩
    · exact hl

/-! ## The invariant -/

/-- The pool of a custodian, live and in its blob, is in order: its keys were delivered once, and
those in `out` are marked. -/
structure ExportInv (suites : SuiteTable β) (L : (desc : SuiteDesc β) → LayoutLaws desc)
    (made out : List (OpkPublic β)) (s : Live β) : Prop where
  inv : s.Inv suites L
  live : Reserve.Inv made out s.marked
  stored : ∃ l, s.StoresPool L l ∧ Reserve.Inv made out l
  out_made : ∀ k ∈ out, k ∈ made

variable {made out : List (OpkPublic β)}

/-- The invariant of exports is kept by one step. -/
theorem ExportInv.step (h : ExportInv suites L made out s) (hstep : PoolStep L new s s')
    (hinv : s'.Inv suites L) (hfresh : (made ++ new).Nodup) :
    ExportInv suites L (made ++ new) out s' := by
  have hlive := h.live.change hstep.live hfresh h.out_made
  refine ⟨hinv, hlive, ?_, fun k hk => List.mem_append_left _ (h.out_made k hk)⟩
  rcases hstep.blob with hb | hkeep
  · exact ⟨_, hb, hlive⟩
  · obtain ⟨l, hl, hold⟩ := h.stored
    exact ⟨l, hkeep l hl, hold.mono new⟩

/-- A step that makes no key. -/
theorem ExportInv.quiet (h : ExportInv suites L made out s) (hstep : PoolStep L [] s s')
    (hinv : s'.Inv suites L) (hmade : made.Nodup) : ExportInv suites L made out s' := by
  have h' := h.step hstep hinv (by rwa [List.append_nil])
  rwa [List.append_nil] at h'

/-! ## Bundles -/

omit [Octet β] [Signer β] [Sodium β] [SodiumKeystore β] [StructLayout β] in
/-- The key that is reserved next. -/
theorem firstReservable_eq {h : Bool} {m : IdMat β h} {i : Nat} {x : HeldOpk (OpkOf β h)}
    (hi : custFirstReservableOpk m.opks = some i) (hx : m.opks[i]? = some (some x)) :
    firstReservable m = some x.key.pub := by
  rw [firstReservable, hi, Option.bind_eq_bind, Option.bind_some, hx]
  rfl

/-- A reservation takes a key that was in no bundle; afterwards, if it is reported, the key is among
those that were. -/
theorem ExportInv.reserve (h : ExportInv suites L made out s) (hmade : made.Nodup)
    {m : IdMat β s.cust.desc.isHybrid} (hm : s.cust.mat = some m) {i : Nat}
    (hi : custFirstReservableOpk m.opks = some i) (cap : Nat) (env : PersistEnv β) :
    ExportInv suites L made out (reserveAndPut cap i env s).2 ∧
      ∃ k, firstReservable m = some k ∧ k ∉ out ∧ ∀ b, (reserveAndPut cap i env s).1 = .ok b →
        ExportInv suites L made (out ++ [k]) (reserveAndPut cap i env s).2 := by
  obtain ⟨x, hx, hfree⟩ := custFirstReservableOpk_eq_some hi
  have hsplit := poolOf_split hx
  have hlive := h.live
  rw [Live.marked_of_mat hm, hsplit] at hlive
  have hout : x.key.pub ∉ out := by
    apply hlive.not_mem_of_free
    simp [Reserve.Pool.free, hfree]
  have hk : x.key.pub ∈ made := by
    apply hlive.made
    simp [Reserve.Pool.keys]
  have hfirst := firstReservable_eq hi hx
  rcases reserveAndPut_cases cap env h.inv.ok hm hi with ⟨e, -, hrun⟩ | ⟨r, blob', hp, -, hrun⟩
  · rw [hrun]
    exact ⟨h, _, hfirst, hout, fun b hb => by cases hb⟩
  · rw [hrun]
    have hpersisted := custSealAndPersist_ok hp
    have hedit : Edit s.cust.desc m s.cust.slots { m with opks := setExported i true m.opks }
        s.cust.slots := .reserve i
    have hmove : Move s ⟨{ s.cust with
        mat := some { m with opks := setExported i true m.opks } }, blob'⟩ :=
      .edit hm hedit hpersisted
    have hinv := hmove.inv h.inv
    have hmark : Reserve.Change [] (poolOf m.opks) (poolOf (setExported i true m.opks)) := by
      rw [hsplit, poolOf_setExported hx]
      exact .mark
    refine ⟨h.quiet (.of_edit h.inv hm hedit hpersisted hmark) hinv hmade, _, hfirst, hout, ?_⟩
    intro b _
    -- the blob holds the marked pool as well
    have hmarked : Reserve.Inv made (out ++ [x.key.pub]) (poolOf (setExported i true m.opks)) := by
      rw [poolOf_setExported hx]
      exact hlive.reserve
    refine ⟨hinv, hmarked, ⟨_, ⟨_, _, hinv.wrap, hpersisted, fun _ hm => hinv.fits hm, rfl⟩,
      hmarked⟩, ?_⟩
    intro k' hk'
    rcases List.mem_append.mp hk' with hk' | hk'
    · exact h.out_made k' hk'
    · rw [List.mem_singleton.mp hk']
      exact hk

/-- A publication of a bundle, whatever becomes of it. -/
theorem ExportInv.publish (h : ExportInv suites L made out s) (cap : Nat) (rnd : KeyRand β)
    (mint reserve : PersistEnv β)
    (hfresh : (made ++ s.delivers (.publishBundle cap rnd mint reserve)).Nodup) :
    ExportInv suites L (made ++ s.delivers (.publishBundle cap rnd mint reserve)) out
        (gyCustodianPublishBundle cap rnd mint reserve s).2 ∧
      ∀ b, (gyCustodianPublishBundle cap rnd mint reserve s).1 = .ok b →
        ∃ k, s.bundleKey rnd mint = some k ∧ k ∉ out ∧
          ExportInv suites L (made ++ s.delivers (.publishBundle cap rnd mint reserve))
            (out ++ [k]) (gyCustodianPublishBundle cap rnd mint reserve s).2 := by
  rcases gyCustodianPublishBundle_cases cap rnd mint reserve h.inv.ok with
    ⟨e, hrun⟩ | ⟨m, i, hm, hi, hrun⟩ | ⟨m, gen, blob', i, hm, hnone, hroom, hgen, hp, hi, hrun⟩
  · rw [hrun]
    exact ⟨h.step (.refl s) h.inv hfresh, fun b hb => (nomatch hb)⟩
  · have hnew : s.delivers (.publishBundle cap rnd mint reserve) = [] := by
      simp only [Live.delivers, hm, Option.bind_some, hi]
    have hkey : s.bundleKey rnd mint = firstReservable m := by
      simp only [Live.bundleKey, hm, Option.bind_some, hi]
    rw [hnew, List.append_nil] at hfresh ⊢
    obtain ⟨hkeep, k, hk, hout, hok⟩ := h.reserve hfresh hm hi cap reserve
    rw [hrun, hkey]
    exact ⟨hkeep, fun b hb => ⟨k, hk, hout, hok b hb⟩⟩
  · have hnew : s.delivers (.publishBundle cap rnd mint reserve) = gen.map OpkOf.pub := by
      simp only [Live.delivers, hm, Option.bind_some, hnone]
      exact replenishKeys_eq hm hroom hgen
    have hpersisted := custSealAndPersist_ok hp
    have hedit := Edit.replenish (t := s.cust.slots) hroom hgen
    have hmint := h.step (.of_edit h.inv hm hedit hpersisted (.add (poolOf_fillOpks gen)))
      ((Move.edit hm hedit hpersisted : Move s _).inv h.inv) (hnew ▸ hfresh)
    have hrep := custReplenishOpks_ok h.inv.ok hm (by omega) (by omega) hgen hp
    have hkey : s.bundleKey rnd mint =
        (custReplenishOpks 1 rnd mint s).2.cust.mat.bind firstReservable := by
      simp only [Live.bundleKey, hm, Option.bind_some, hnone]
    rw [hrep] at hkey
    rw [hnew] at hfresh ⊢
    obtain ⟨hkeep, k, hk, hout, hok⟩ := hmint.reserve hfresh rfl hi cap reserve
    rw [hrun, hkey]
    exact ⟨hkeep, fun b hb => ⟨k, hk, hout, hok b hb⟩⟩

/-! ## Exported bytes -/

omit [Signer β] in
/-- The bytes of a reservation are the bundle of the key that was reserved. -/
theorem reserveAndPut_carries {m : IdMat β s.cust.desc.isHybrid} (hm : s.cust.mat = some m)
    {i : Nat} {x : HeldOpk (OpkOf β s.cust.desc.isHybrid)} (hx : m.opks[i]? = some (some x))
    {cap : Nat} {env : PersistEnv β} {b : Bytes β}
    (hrun : reserveAndPut cap i env s = (.ok b, s')) :
    ∃ spk, m.spks.head? = some spk ∧
      custPutBundle s.cust.desc cap _ m.ik spk x.key = .ok b := by
  have hx' : (setExported i true m.opks)[i]?.join = some { x with exported := true } := by
    rw [setExported, List.getElem?_modify_eq, hx]
    rfl
  unfold reserveAndPut at hrun
  rw [hm] at hrun
  dsimp only at hrun
  split at hrun
  · cases hrun
  · rw [hx'] at hrun
    have hput := (Prod.mk.inj hrun).1
    cases hspk : m.spks.head? with
    | none =>
      rw [hspk] at hput
      cases hput
    | some spk =>
      rw [hspk] at hput
      exact ⟨spk, rfl, hput⟩

omit [Signer β] in
/-- The bytes of a bundle are those of the key it is said to carry. -/
theorem publishBundle_carries (hok : s.cust.Ok) {cap : Nat} {rnd : KeyRand β}
    {mint reserve : PersistEnv β} {b : Bytes β}
    (hrun : (gyCustodianPublishBundle cap rnd mint reserve s).1 = .ok b) :
    ∃ (ik : IkOf β s.cust.desc.isHybrid) (spk : SpkOf β s.cust.desc.isHybrid)
      (opk : OpkOf β s.cust.desc.isHybrid),
      s.bundleKey rnd mint = some opk.pub ∧ custPutBundle s.cust.desc cap _ ik spk opk = .ok b := by
  rcases gyCustodianPublishBundle_cases cap rnd mint reserve hok with
    ⟨e, h⟩ | ⟨m, i, hm, hi, h⟩ | ⟨m, gen, blob', i, hm, hnone, hroom, hgen, hp, hi, h⟩
  · rw [h] at hrun
    cases hrun
  · obtain ⟨x, hx, -⟩ := custFirstReservableOpk_eq_some hi
    have hkey : s.bundleKey rnd mint = firstReservable m := by
      simp only [Live.bundleKey, hm, Option.bind_some, hi]
    rw [h] at hrun
    obtain ⟨spk, -, hput⟩ := reserveAndPut_carries hm hx (Prod.ext hrun rfl)
    exact ⟨m.ik, spk, x.key, hkey.trans (firstReservable_eq hi hx), hput⟩
  · obtain ⟨x, hx, -⟩ := custFirstReservableOpk_eq_some hi
    have hkey : s.bundleKey rnd mint =
        (custReplenishOpks 1 rnd mint s).2.cust.mat.bind firstReservable := by
      simp only [Live.bundleKey, hm, Option.bind_some, hnone]
    rw [custReplenishOpks_ok hok hm (by omega) (by omega) hgen hp] at hkey
    rw [h] at hrun
    obtain ⟨spk, -, hput⟩ := reserveAndPut_carries rfl hx (Prod.ext hrun rfl)
    exact ⟨m.ik, spk, x.key, hkey.trans (firstReservable_eq hi hx), hput⟩

omit [Signer β] [Sodium β] [SodiumKeystore β] [StructLayout β] in
/-- The bytes of a batch are those of the keys without a mark; nothing changes. -/
theorem publishOpkBatch_carries {cap : Nat} {b : Bytes β}
    (hrun : gyCustodianPublishOpkBatch cap s = (.ok b, s')) :
    s' = s ∧ ∃ keys : List (OpkOf β s.cust.desc.isHybrid),
      custPutOpkBatch s.cust.desc cap _ keys = .ok b ∧ keys.map OpkOf.pub = s.marked.free := by
  unfold gyCustodianPublishOpkBatch at hrun
  cases hm : s.cust.mat with
  | none =>
    rw [hm] at hrun
    cases hrun
  | some m =>
    rw [hm] at hrun
    obtain ⟨hput, rfl⟩ := Prod.mk.inj hrun
    refine ⟨rfl, _, hput, ?_⟩
    rw [custUnexported_pub, Live.marked_of_mat hm]

/-! ## Steps of a run -/

/-- A call keeps the pool in order. What it exports was in no bundle, and is in one afterwards. -/
theorem ExportInv.call (h : ExportInv suites L made out s) (call : CustCall β)
    (hfresh : (made ++ s.delivers call).Nodup) :
    ExportInv suites L (made ++ s.delivers call)
        (out ++ Reserve.issued (onSuccess (s.step call).1 (s.exports call))) (s.step call).2 ∧
      ∀ e ∈ onSuccess (s.step call).1 (s.exports call), ∀ k ∈ e.keys, k ∉ out := by
  have hinv := moves_inv (Live.step_moves h.inv.ok call) h.inv
  -- a call that exports nothing
  have hquiet : s.exports call = [] → PoolStep L (s.delivers call) s (s.step call).2 →
      ExportInv suites L (made ++ s.delivers call)
          (out ++ Reserve.issued (onSuccess (s.step call).1 (s.exports call))) (s.step call).2 ∧
        ∀ e ∈ onSuccess (s.step call).1 (s.exports call), ∀ k ∈ e.keys, k ∉ out := by
    intro hnone hstep
    have hnil : onSuccess (s.step call).1 (s.exports call) = [] := by
      rw [hnone]
      cases (s.step call).1 <;> rfl
    rw [hnil, Reserve.issued, List.flatMap_nil, List.append_nil]
    exact ⟨h.step hstep hinv hfresh, fun e he => (nomatch he)⟩
  cases call with
  | generateIdentity timestamp n rnd env =>
    refine hquiet rfl ?_
    rcases gyCustodianGenerateIdentity_cases timestamp n rnd env s with
      ⟨e, hrun⟩ | ⟨m, blob', hnone, hn, hgen, hp, hrun⟩
    · simp only [Live.step, hrun]
      exact .refl s
    · have hmove : Move s _ := .identity hnone hn hgen hp
      simp only [Live.step, hrun, delivers_generateIdentity hnone hn hgen]
      refine .of_persisted (hmove.inv h.inv) hp (.add ?_)
      have hold : s.marked = [] := by
        rw [Live.marked, hnone]
        rfl
      rw [hold, List.append_nil, ← generateIdmat_pool hgen]
      exact List.Perm.refl _
  | rotateSignedPrekey timestamp rnd env =>
    refine hquiet rfl ?_
    rcases gyCustodianRotateSignedPrekey_cases timestamp rnd env s with
      ⟨e, hrun⟩ | ⟨m, spk, blob', hm, hgen, hp, hrun⟩
    · simp only [Live.step, hrun]
      exact .refl s
    · simp only [Live.step, hrun]
      exact .of_edit h.inv hm (.rotateSpk hgen) hp (.refl _ _)
  | generateOnetimePrekeys count rnd env => exact hquiet rfl (.replenish h.inv count rnd env)
  | publishBundle cap rnd mint reserve =>
    obtain ⟨hkeep, hok⟩ := h.publish cap rnd mint reserve hfresh
    cases hr : (gyCustodianPublishBundle cap rnd mint reserve s).1 with
    | error e =>
      simp only [Live.step, hr, Except.map, onSuccess, Reserve.issued, List.flatMap_nil,
        List.append_nil]
      exact ⟨hkeep, fun e he => (nomatch he)⟩
    | ok b =>
      obtain ⟨k, hk, hout, hdone⟩ := hok b hr
      simp only [Live.step, hr, Except.map, onSuccess, Live.exports, hk, Option.toList_some,
        Reserve.issued, List.flatMap_cons, List.flatMap_nil, List.append_nil, if_pos]
      refine ⟨hdone, ?_⟩
      rw [List.forall_mem_singleton, List.forall_mem_singleton]
      exact hout
  | consumeOpk pkid app env => exact hquiet rfl (.consume h.inv pkid app env)
  | deletePrekey handle env => exact hquiet rfl (.delete h.inv handle env)
  | generateAppkey now expiry rnd env =>
    refine hquiet rfl ?_
    rcases gyCustodianGenerateAppkey_cases now expiry rnd env s with
      ⟨e, hrun⟩ | ⟨m, sak, blob', hm, hnil, hgen, hp, hrun⟩
    · simp only [Live.step, hrun]
      exact .refl s
    · simp only [Live.step, hrun]
      exact .of_edit h.inv hm (.appkey hgen hnil) hp (.refl _ _)
  | rotateAppkey now expiry rnd env =>
    refine hquiet rfl ?_
    rcases gyCustodianRotateAppkey_cases now expiry rnd env s with
      ⟨e, hrun⟩ | ⟨m, sak, blob', hm, -, hgen, hp, hrun⟩
    · simp only [Live.step, hrun]
      exact .refl s
    · simp only [Live.step, hrun]
      exact .of_edit h.inv hm (.rotateSak hgen) hp (.refl _ _)
  | changeCredential newCred rnd load fault =>
    exact hquiet rfl (.changeCredential newCred rnd load fault)

section Receive

variable [DecidableEq β] {w : CustWorld β}

/-- A callback of a commit keeps the pool in order. -/
theorem ExportInv.callback (h : ExportInv suites L made out w.live) (hmade : made.Nodup)
    (env : CallbackEnv β) (cb : Callback β) :
    ExportInv suites L made out (CustWorld.callback env cb w).2.live := by
  -- a record goes to the application's store only
  have hrecord : (∀ pkid, cb ≠ .consumeOpk pkid) →
      ExportInv suites L made out (CustWorld.callback env cb w).2.live := by
    intro hne
    rw [CustWorld.live_callback env w hne]
    exact h
  cases cb with
  | store k r => exact hrecord fun _ h => (nomatch h)
  | delete k => exact hrecord fun _ h => (nomatch h)
  | consumeOpk pkid =>
    exact h.quiet (.consume h.inv pkid env.app env.persist)
      (moves_inv (Live.step_moves h.inv.ok (.consumeOpk pkid env.app env.persist)) h.inv) hmade

/-- So does a commit, wherever it stops. -/
theorem ExportInv.commit (hmade : made.Nodup) (cbs : List (Callback β))
    (env : Nat → CallbackEnv β) (h : ExportInv suites L made out w.live) :
    ExportInv suites L made out (CustWorld.commit cbs env w).2.live := by
  induction cbs generalizing w env with
  | nil => exact h
  | cons cb cbs ih =>
    have h1 := h.callback hmade (env 0) cb
    rw [CustWorld.commit, Cmd.bind_apply]
    rcases hcb : CustWorld.callback (env 0) cb w with ⟨r, w1⟩
    rw [hcb] at h1
    cases r with
    | error e => exact h1
    | ok u => exact ih _ h1

/-- Receiving keeps the invariant: it consumes at most one prekey. -/
theorem ExportInv.receive (h : ExportInv suites L made out w.live) (hmade : made.Nodup)
    (x : RecvInput β) : ExportInv suites L made out (w.receive x).2.live := by
  unfold CustWorld.receive
  cases w.live.cust.mat with
  | none => exact h
  | some m =>
    dsimp only
    rcases (recvProgOf w.live.cust m x).run engine (w.view x) Op.empty with ⟨_ | pt, op⟩
    · exact h
    · have hcommit := h.commit hmade op.callbacks x.env
      dsimp only
      rcases hrun : CustWorld.commit op.callbacks x.env w with ⟨r, w1⟩
      rw [hrun] at hcommit
      cases r with
      | error e => exact hcommit
      | ok u => exact hcommit

end Receive

/-- A custodian that was opened again has the pool its blob stored. -/
theorem ExportInv.reopen (laws : SealLaws β) (h : ExportInv suites L made out s) {cred : Bytes β}
    {c : GyCustodian β} (hopen : gyCustodianOpen suites cred s.blob = .ok c) :
    ExportInv suites L made out ⟨c, s.blob⟩ := by
  obtain ⟨l, ⟨wrap, m, hwrap, hp, hfits, rfl⟩, hl⟩ := h.stored
  have hinv := h.inv.reopen laws hopen
  obtain rfl := gyCustodianOpen_stored laws (L _) h.inv.suite hwrap hp hfits hopen
  exact ⟨hinv, hl, ⟨_, ⟨wrap, m, hwrap, hp, hfits, rfl⟩, hl⟩, h.out_made⟩

/-! ## Runs -/

/-- What a run has done with one-time prekeys so far: the public keys the generator delivered, and
the exports that were returned with success. -/
structure ExportHistory (β : Type) where
  made : List (OpkPublic β)
  exports : List (Reserve.Export (OpkPublic β))

variable [DecidableEq β]

/-- Runs of a custodian over a store, with what they export. The other protocol calls change records
only, and may leave any. A close leaves the blob; a crash is a close. -/
inductive ExportRun (suites : SuiteTable β) : ExportHistory β → CustWorld β → Prop
  | create {suiteId cred uid did clock cfg kekRand rnd fault blob c blob'}
      (h : gyCustodianCreate suites suiteId cred uid did clock cfg kekRand rnd fault blob =
        (.ok c, blob')) (recs : RecKey β → Option (Record β)) :
      ExportRun suites ⟨[], []⟩ ⟨⟨c, blob'⟩, recs⟩
  | call {hist w} (call : CustCall β) (h : ExportRun suites hist w) :
      ExportRun suites ⟨hist.made ++ w.live.delivers call, hist.exports ++
        onSuccess (w.live.step call).1 (w.live.exports call)⟩ ⟨(w.live.step call).2, w.recs⟩
  | batch {hist w} (cap : Nat) (h : ExportRun suites hist w) :
      ExportRun suites ⟨hist.made, hist.exports ++
        onSuccess (gyCustodianPublishOpkBatch cap w.live).1 [⟨false, w.live.marked.free⟩]⟩
        ⟨(gyCustodianPublishOpkBatch cap w.live).2, w.recs⟩
  | receive {hist w} (x : RecvInput β) (h : ExportRun suites hist w) :
      ExportRun suites hist (w.receive x).2
  | records {hist w} (recs : RecKey β → Option (Record β)) (h : ExportRun suites hist w) :
      ExportRun suites hist ⟨w.live, recs⟩
  -- the keys handed out before are still counted
  | reopen {hist w cred c} (h : ExportRun suites hist w)
      (hopen : gyCustodianOpen suites cred w.live.blob = .ok c) :
      ExportRun suites hist ⟨⟨c, w.live.blob⟩, w.recs⟩

omit [DecidableEq β] [Signer β] [Sodium β] [SodiumKeystore β] [StructLayout β] in
/-- A batch leaves the custodian. -/
theorem gyCustodianPublishOpkBatch_state (cap : Nat) (s : Live β) :
    (gyCustodianPublishOpkBatch cap s).2 = s := by
  unfold gyCustodianPublishOpkBatch
  cases s.cust.mat <;> rfl

/-- Every run keeps the pool in order and hands no reserved key out again. -/
theorem ExportRun.inv (laws : SealLaws β) (L : (desc : SuiteDesc β) → LayoutLaws desc)
    {hist : ExportHistory β} {w : CustWorld β} (h : ExportRun suites hist w)
    (hfresh : hist.made.Nodup) :
    ExportInv suites L hist.made (Reserve.issued hist.exports) w.live ∧
      Reserve.NoReissue hist.exports := by
  induction h with
  | @create _ _ _ _ _ _ _ _ _ _ c blob' h recs =>
    obtain ⟨hinv, hp, -, hmat, -⟩ := gyCustodianCreate_inv (L := L) h
    have hnone : Live.marked ⟨c, blob'⟩ = [] := congrArg optPool hmat
    refine ⟨⟨hinv, ?_, ⟨[], ⟨_, _, hinv.wrap, hp, fun m' hm' => hinv.fits hm', ?_⟩,
      Reserve.inv_nil⟩, fun _ hk => (nomatch hk)⟩, List.Pairwise.nil⟩
    · rw [hnone]
      exact Reserve.inv_nil
    · rw [hmat]
      rfl
  | @call hist w call h ih =>
    obtain ⟨hold, -, -⟩ := List.nodup_append.mp hfresh
    obtain ⟨hpool, hissue⟩ := ih hold
    obtain ⟨hpool', hnew⟩ := hpool.call call hfresh
    dsimp only
    rw [Reserve.issued_append]
    refine ⟨hpool', hissue.append ?_ hnew⟩
    -- a call exports at most once
    cases (w.live.step call).1 with
    | error e => exact List.Pairwise.nil
    | ok r => cases call <;> first | exact List.Pairwise.nil | exact List.pairwise_singleton _ _
  | @batch hist w cap h ih =>
    obtain ⟨hpool, hissue⟩ := ih hfresh
    rw [gyCustodianPublishOpkBatch_state]
    cases (gyCustodianPublishOpkBatch cap w.live).1 with
    | error e =>
      rw [onSuccess, List.append_nil]
      exact ⟨hpool, hissue⟩
    | ok b =>
      -- a batch reserves nothing
      have hnone : Reserve.issued [(⟨false, w.live.marked.free⟩ :
          Reserve.Export (OpkPublic β))] = [] := rfl
      rw [onSuccess]
      dsimp only
      rw [Reserve.issued_append, hnone, List.append_nil]
      refine ⟨hpool, hissue.append (List.pairwise_singleton _ _) ?_⟩
      rw [List.forall_mem_singleton]
      exact fun k hk => hpool.live.not_mem_of_free hk
  | receive x h ih =>
    obtain ⟨hpool, hissue⟩ := ih hfresh
    exact ⟨hpool.receive hfresh x, hissue⟩
  | records recs h ih => exact ih hfresh
  | reopen h hopen ih =>
    obtain ⟨hpool, hissue⟩ := ih hfresh
    exact ⟨hpool.reopen laws hopen, hissue⟩

/-- A reserved key is handed out once: in every run of calls, batches, receives of arbitrary
messages, closes and reopens, with any failures, in which the generator repeats no public key, the
key of a one-shot bundle that was returned with success is in no other bundle and in no later
batch. A batch that was returned before may contain it. -/
theorem reserved_not_reissued (laws : SealLaws β) (L : (desc : SuiteDesc β) → LayoutLaws desc)
    {hist : ExportHistory β} {w : CustWorld β} (h : ExportRun suites hist w)
    (hfresh : hist.made.Nodup) {i j : Nat} {e e' : Reserve.Export (OpkPublic β)}
    (he : hist.exports[i]? = some e) (he' : hist.exports[j]? = some e') (hij : i ≠ j)
    (hbundle : e.reserved = true) (hlater : e'.reserved = true ∨ i < j) :
    ∀ k ∈ e.keys, k ∉ e'.keys :=
  Reserve.NoReissue.disjoint (h.inv laws L hfresh).2 he he' hij hbundle hlater

/-! ## Symbolic exports -/

/-- The public key of the one-time prekey number `n` of the symbolic custodian. -/
def symExported (n : Nat) : OpkPublic Sym := ((symPair n).pub, [])

/-- The run that generates an identity with `n` one-time prekeys. -/
theorem symOneTime_exportRun {n : Nat} (hn : n ≤ opkBatchMax) : ∃ wrap blob,
    ExportRun symSuites ⟨(List.range' 2 n).map symExported, []⟩
      ⟨symOneTime n wrap blob, fun _ => none⟩ ∧
    (symOneTime n wrap blob).Inv symSuites symLayoutLaws := by
  obtain ⟨wrap, blob, blob', hcreate, hstep⟩ := sym_identity hn
  have hinv := (Reached.call (.generateIdentity 0 n (symIdentityRand n) symPersist)
    (.create hcreate)).inv sym_sealLaws symLayoutLaws
  have hdelivers : (⟨symCust wrap, blob⟩ : Live Sym).delivers
      (.generateIdentity 0 n (symIdentityRand n) symPersist) = (poolOf (symIdmat n).opks).keys :=
    delivers_generateIdentity rfl hn (generateIdmat_sym hn)
  have hkeys : (poolOf (symIdmat n).opks).keys = (List.range' 2 n).map symExported := by
    unfold symIdmat
    induction List.range' 2 n with
    | nil => rfl
    | cons i l ih => exact congrArg (symExported i :: ·) ih
  have hrun := ExportRun.call (.generateIdentity 0 n (symIdentityRand n) symPersist)
    (.create hcreate fun _ => none)
  simp only [hdelivers, hkeys, hstep] at hrun
  rw [hstep] at hinv
  exact ⟨wrap, blob', hrun, hinv⟩

/-- A call that publishes a bundle. -/
def symPublish : CustCall Sym := .publishBundle 4096 (symKeyRand 4 1) symPersist symPersist

/-- The symbolic custodian whose first one-time prekey is reserved. -/
def symReserved (n : Nat) (wrap blob : Bytes Sym) : Live Sym :=
  ⟨{ (symOneTime n wrap blob).cust with
    mat := some { symIdmat n with opks := setExported 0 true (symIdmat n).opks } }, blob⟩

/-- The symbolic custodian publishes its first one-time prekey and marks it. -/
theorem symOneTime_publish {n : Nat} {wrap blob : Bytes Sym}
    (hinv : (symOneTime (n + 1) wrap blob).Inv symSuites symLayoutLaws) :
    ∃ b blob', (symOneTime (n + 1) wrap blob).step symPublish =
      (.ok (.bundle b), symReserved (n + 1) wrap blob') := by
  have hi : custFirstReservableOpk (symIdmat (n + 1)).opks = some 0 := rfl
  have hedit : Edit (symSuite false) (symIdmat (n + 1)) (symOneTime (n + 1) wrap blob).cust.slots
      { symIdmat (n + 1) with opks := setExported 0 true (symIdmat (n + 1)).opks }
      (symOneTime (n + 1) wrap blob).cust.slots := .reserve 0
  obtain ⟨blob', hp⟩ := hinv.persist_ok sym_sealLaws
    (hedit.fits (symLayoutLaws _) (hinv.fits (m := symIdmat (n + 1)) rfl))
    ⟨sym_sealIdmat _ _, rfl⟩
  have hpublish : gyCustodianPublishBundle 4096 (symKeyRand 4 1) symPersist symPersist
      (symOneTime (n + 1) wrap blob) =
      reserveAndPut 4096 0 symPersist (symOneTime (n + 1) wrap blob) :=
    gyCustodianPublishBundle_reserve rfl hi
  simp only [Live.step, symPublish, hpublish]
  rcases reserveAndPut_cases 4096 symPersist hinv.ok (m := symIdmat (n + 1)) rfl hi with
    ⟨e, herr, -⟩ | ⟨r, blob'', -, hr, hrun⟩
  · cases herr.symm.trans hp
  · have hcap : ¬ 4096 < custBundleLen (symSuite false) := by decide
    obtain ⟨b, rfl⟩ := (if_neg hcap).mp hr
    rw [hrun]
    exact ⟨b, blob'', rfl⟩

/-- A batch that fits its buffer is written. -/
theorem gyOpkBatchPut_ok {desc : SuiteDesc Sym} {cap : Nat} {keys : List (PublicKey Sym)}
    (hcap : gyOpkBatchWireLen desc keys.length ≤ cap) (hlen : keys.length ≤ 0xffff) :
    ∃ b, gyOpkBatchPut desc cap keys = .ok b := by
  rw [gyOpkBatchPut, if_neg (Nat.not_lt.mpr hcap), if_neg (Nat.not_lt.mpr hlen)]
  exact ⟨_, rfl⟩

/-- A custodian with two one-time prekeys publishes a bundle with the first of them, and then the
batch of the keys that are not reserved: the key of the bundle is not in it. -/
theorem bundle_then_batch : ∃ hist w, ExportRun symSuites hist w ∧
    hist.exports = [⟨true, [symExported 2]⟩, ⟨false, [symExported 3]⟩] ∧
    ∀ k ∈ [symExported 2], k ∉ [symExported 3] := by
  obtain ⟨wrap, blob, hrun, hinv⟩ := symOneTime_exportRun (n := 2) (by decide)
  obtain ⟨b, blob', hstep⟩ := symOneTime_publish hinv
  obtain ⟨b', hb'⟩ : ∃ b, (gyCustodianPublishOpkBatch 4096 (symReserved 2 wrap blob')).1 = .ok b :=
    @gyOpkBatchPut_ok (symSuite false) 4096 [(symPair 3).pub] (by decide) (by decide)
  have hbundle := hrun.call symPublish
  rw [hstep] at hbundle
  have hbatch := hbundle.batch 4096
  simp only [hb', onSuccess] at hbatch
  have hmade : ((List.range' 2 2).map symExported ++ []).Nodup := by decide
  refine ⟨_, _, hbatch, rfl, ?_⟩
  exact reserved_not_reissued sym_sealLaws symLayoutLaws hbatch hmade
    (i := 0) (j := 1) rfl rfl (by decide) rfl (.inr (by decide))

/-- A batch and then a bundle hand out the same key. -/
theorem batch_then_bundle : ∃ hist w, ExportRun symSuites hist w ∧ hist.made.Nodup ∧
    hist.exports = [⟨false, [symExported 2]⟩, ⟨true, [symExported 2]⟩] := by
  obtain ⟨wrap, blob, hrun, hinv⟩ := symOneTime_exportRun (n := 1) (by decide)
  obtain ⟨b, hb⟩ : ∃ b, (gyCustodianPublishOpkBatch 4096 (symOneTime 1 wrap blob)).1 = .ok b :=
    @gyOpkBatchPut_ok (symSuite false) 4096 [(symPair 2).pub] (by decide) (by decide)
  obtain ⟨b', blob', hstep⟩ := symOneTime_publish hinv
  have hbatch := hrun.batch 4096
  simp only [hb, onSuccess] at hbatch
  rw [gyCustodianPublishOpkBatch_state] at hbatch
  have hbundle := hbatch.call symPublish
  rw [hstep] at hbundle
  exact ⟨_, _, hbundle, List.nodup_singleton (symExported 2), rfl⟩

end Geryon
