import Geryon.Qspgs.LineCheck
import Geryon.Qspgs.Signer

/-!
# Edits and the stored keys

What the edits do to the key records of a client: the current group keys, the staged ones and the
secrets of the join links. Everything an edit does before its last step leaves these records alone
(`Inert`); the rotating edits then stage a key, which a rollback drops again. Creating a group,
toggling a join link and joining over one write a current key or a link secret outright.
-/

namespace Geryon

/-- Whether a record holds a group key, staged or not, or the secret of a join link. -/
def QRecKind.isKey : QRecKind → Bool
  | .groupKey | .groupKeyPending | .joinLink => true
  | _ => false

variable {β : Type}

/-- The key records are the same. -/
def SameKeys (recs recs' : QsRecords β) : Prop :=
  ∀ kind id, kind.isKey = true → recs' kind id = recs kind id

/-- A callback that fails has had no effect, and does not report its failure as an absent record. -/
def Benign (faults : List (Option CallbackFault)) : Prop :=
  ∀ f, some f ∈ faults → f.after = false ∧ f.err ≠ .notFound

/-- The group keys are kept step by step. -/
theorem SameKeys.trans {recs recs' recs'' : QsRecords β} (h : SameKeys recs recs')
    (h' : SameKeys recs' recs'') : SameKeys recs recs'' :=
  fun kind id hkind => (h' kind id hkind).trans (h kind id hkind)

/-- A store with callbacks that fail without effect keeps its key records. -/
def StoreKept (st st' : QsStore β) : Prop :=
  Benign st.faults → Benign st'.faults ∧ SameKeys st.recs st'.recs

/-- A client with callbacks that fail without effect keeps its key records. -/
def KeysKept (w w' : QsWorld β) : Prop := StoreKept w.store w'.store

instance : IsPreorder (QsStore β) StoreKept where
  refl st h := ⟨h, fun _ _ _ => rfl⟩
  trans a b c hab hbc h := by
    obtain ⟨hb, hab⟩ := hab h
    obtain ⟨hc, hbc⟩ := hbc hb
    exact ⟨hc, hab.trans hbc⟩

instance : IsPreorder (QsWorld β) KeysKept where
  refl w := Std.Refl.refl (r := StoreKept) w.store
  trans a b c := IsTrans.trans (r := StoreKept) a.store b.store c.store

/-- A call that leaves the key records alone. -/
abbrev Inert {α : Type} (x : QsC β α) : Prop := Cmd.Keeps KeysKept x

/-- A store command that keeps the group keys is inert as a command of the client. -/
theorem keeps_onStore {α : Type} {x : QsM β α} (h : Cmd.Keeps StoreKept x) : Inert (onStore x) :=
  fun w => h w.store

/-- Drawing bytes does not touch the store. -/
theorem inert_gyRandomBytes (n : Nat) : Inert (gyRandomBytes (β := β) n) := by
  intro w
  unfold gyRandomBytes
  split
  · exact Std.Refl.refl (r := StoreKept) w.store
  · exact Std.Refl.refl (r := StoreKept) w.store

variable [Octet β] [DecidableEq β]

/-! ## Callbacks -/

omit [Octet β] [DecidableEq β] in
/-- A callback uses up the fault of its call, so the faults that are left are benign. -/
theorem benign_callback {α : Type} {effect : QsRecords β → QsRecords β}
    {result : QsRecords β → Except GyErr α} {st : QsStore β} (hb : Benign st.faults) :
    Benign (callback effect result st).2.faults := by
  unfold callback
  split
  · next f rest hf => exact fun f' hf' => hb f' (hf ▸ List.mem_cons_of_mem _ hf')
  · next rest hf => exact fun f' hf' => hb f' (hf ▸ List.mem_cons_of_mem _ hf')
  · exact fun f' hf' => by cases hf'

omit [Octet β] [DecidableEq β] in
/-- A callback whose effect keeps the group keys keeps them, whether it fails or not. -/
theorem keeps_callback {α : Type} {effect : QsRecords β → QsRecords β}
    {result : QsRecords β → Except GyErr α} (h : ∀ recs, SameKeys recs (effect recs)) :
    Cmd.Keeps StoreKept (callback effect result) := by
  intro st hb
  refine ⟨benign_callback hb, ?_⟩
  unfold callback
  -- a benign failure leaves the records, and a call that runs has the effect h speaks of
  split
  · next f rest hf =>
    rw [hf] at hb
    obtain ⟨hafter, -⟩ := hb f List.mem_cons_self
    rw [hafter]
    exact fun _ _ _ => rfl
  · exact h st.recs
  · exact h st.recs

omit [DecidableEq β] in
/-- Loads do not write. -/
theorem keeps_loadKeyed (kind : QRecKind) (id : Bytes β) (n : Nat) :
    Cmd.Keeps StoreKept (loadKeyed kind id n) := by
  unfold loadKeyed loadCb
  refine (keeps_callback fun recs _ _ _ => rfl).bind fun blob => ?_
  refine .ite (Cmd.keeps_fail _) (.ite (Cmd.keeps_fail _) (.ite (Cmd.keeps_fail _) ?_))
  exact Cmd.keeps_pure _

/-- Writing a record that holds no key. -/
theorem keeps_storeKeyed {kind : QRecKind} (hkind : kind.isKey = false) (id payload : Bytes β) :
    Cmd.Keeps StoreKept (storeKeyed kind id payload) := by
  refine keeps_callback fun recs k i hk => ?_
  unfold QsRecords.set
  rw [if_neg]
  rintro ⟨rfl, -⟩
  rw [hkind] at hk
  cases hk

section Loads

variable {desc : SuiteDesc β}

omit [DecidableEq β] in
/-- Loading the group key, staged or stored, leaves both. -/
theorem inert_groupKeyLoad (gid : Bytes β) (cap : Nat) :
    Inert (onStore (gyQspgsGroupKeyLoad desc gid cap)) := by
  refine keeps_onStore ?_
  unfold gyQspgsGroupKeyLoad
  refine .ite (Cmd.keeps_fail _) (.ite (Cmd.keeps_fail _) ?_)
  refine (keeps_loadKeyed _ _ _).attempt.bind fun rc => ?_
  split
  · exact keeps_loadKeyed _ _ _
  · exact Cmd.keeps_lift _

omit [DecidableEq β] in
/-- Loading the secret of the join link leaves the group keys. -/
theorem inert_joinlinkSecretLoad (gid : Bytes β) (cap : Nat) :
    Inert (onStore (gyQspgsJoinlinkSecretLoad gid cap)) :=
  keeps_onStore (.ite (Cmd.keeps_fail _) (keeps_loadKeyed _ _ _))

omit [DecidableEq β] in
/-- Loading a member's user key leaves the group keys. -/
theorem inert_mukLoad (uid : Bytes β) (cap : Nat) :
    Inert (onStore (gyQspgsMukLoad desc uid cap)) :=
  keeps_onStore (.ite (Cmd.keeps_fail _) (.ite (Cmd.keeps_fail _)
    (.ite (Cmd.keeps_fail _) (keeps_loadKeyed _ _ _))))

/-- Storing a member's user key leaves the group keys, which are records of another kind. -/
theorem inert_mukStore (uid muk : Bytes β) : Inert (onStore (gyQspgsMukStore desc uid muk)) :=
  keeps_onStore (.ite (Cmd.keeps_fail _) (.ite (Cmd.keeps_fail _) (keeps_storeKeyed rfl _ _)))

variable [KrMlDsa β]

omit [DecidableEq β] in
/-- Loading the base key leaves the group keys. -/
theorem inert_baseKeyLoad (uid : Bytes β) : Inert (onStore (gyQspgsBaseKeyLoad desc uid)) :=
  keeps_onStore (.ite (Cmd.keeps_fail _) (.ite (Cmd.keeps_fail _)
    ((keeps_loadKeyed _ _ _).bind fun _ => Cmd.keeps_pure _)))

/-- Storing the base key leaves the group keys. -/
theorem inert_baseKeyStore (uid skb vkb : Bytes β) :
    Inert (onStore (gyQspgsBaseKeyStore desc uid skb vkb)) :=
  keeps_onStore (.ite (Cmd.keeps_fail _) (.ite (Cmd.keeps_fail _) (keeps_storeKeyed rfl _ _)))

omit [DecidableEq β] in
/-- Loading an acquaintance leaves the group keys. -/
theorem inert_acquaintanceLoad (uid : Bytes β) :
    Inert (onStore (gyQspgsAcquaintanceLoad desc uid)) :=
  keeps_onStore (.ite (Cmd.keeps_fail _) (.ite (Cmd.keeps_fail _)
    ((keeps_loadKeyed _ _ _).bind fun _ => Cmd.keeps_pure _)))

/-- Resolving the base key of a member reads an account or an acquaintance. -/
theorem inert_resolveMemberVkb {c : QsCustodian β} (uid : Bytes β) (accts : List (AcctRef β)) :
    Inert (resolveMemberVkb c uid accts) := by
  unfold resolveMemberVkb
  refine .ite ((inert_baseKeyLoad uid).bind fun _ => Cmd.keeps_pure _) ?_
  refine (inert_acquaintanceLoad uid).attempt.bind fun rc => ?_
  split
  · exact Cmd.keeps_pure _
  · split
    · exact Cmd.keeps_fail _
    · exact (Cmd.keeps_lift _).bind fun _ => Cmd.keeps_pure _
  · exact Cmd.keeps_fail _

end Loads

/-! ## Building and signing -/

section Build

variable [KrMlDsa β] [Sodium β] {desc : SuiteDesc β} {c : QsCustodian β}

omit [DecidableEq β] [KrMlDsa β] in
/-- Sealing a field draws a nonce and writes nothing. -/
theorem inert_fieldSeal (aeadId : UInt8) (ek : Bytes β) (tag : FieldTag) (gid pt : Bytes β)
    (cap : Nat) : Inert (gyQspgsFieldSeal desc aeadId ek tag gid pt cap) := by
  unfold gyQspgsFieldSeal
  refine .ite (Cmd.keeps_fail _) ((Cmd.keeps_lift _).bind fun aad => ?_)
  refine .ite (Cmd.keeps_fail _) ((inert_gyRandomBytes _).bind fun nonce => ?_)
  exact (Cmd.keeps_lift _).bind fun _ => Cmd.keeps_pure _

omit [DecidableEq β] [KrMlDsa β] in
/-- Sealing a member's tuple draws a nonce and writes nothing. -/
theorem inert_memberCtSealForm (aeadId : UInt8) (ek gid : Bytes β) (t : MemberTuple β) (cap : Nat) :
    Inert (memberCtSealForm desc aeadId ek gid t cap) :=
  .ite (Cmd.keeps_fail _) (.ite (Cmd.keeps_fail _) (inert_fieldSeal _ _ _ _ _ _))

omit [DecidableEq β] in
/-- A roster entry is built without writing. -/
theorem inert_memberBuildForm (aeadId : UInt8) (sub : SubKey β) (gid : Bytes β) (pending : Bool)
    (uid key vkb : Bytes β) (admn : Bool) :
    Inert (memberBuildForm desc aeadId sub gid pending uid key vkb admn) := by
  unfold memberBuildForm
  refine .ite (Cmd.keeps_fail _) ((inert_gyRandomBytes _).bind fun rc => ?_)
  refine (inert_memberCtSealForm _ _ _ _ _).bind fun mct => ?_
  refine (Cmd.keeps_lift _).bind fun cuid => ?_
  exact (Cmd.keeps_lift _).bind fun _ => Cmd.keeps_pure _

omit [DecidableEq β] [KrMlDsa β] in
/-- The slot of a join link is sealed without writing. -/
theorem inert_joinlinkSeal (aeadId : UInt8) (jls gid gk fet : Bytes β) (cap : Nat) :
    Inert (gyQspgsJoinlinkSeal desc aeadId jls gid gk fet cap) :=
  .ite (Cmd.keeps_fail _) ((Cmd.keeps_lift _).bind fun _ => inert_fieldSeal _ _ _ _ _ _)

omit [Octet β] [DecidableEq β] [KrMlDsa β] [Sodium β] in
/-- A group key is drawn, not stored. -/
theorem inert_groupKeyGen : Inert (gyQspgsGroupKeyGen desc) :=
  .ite (Cmd.keeps_fail _) (inert_gyRandomBytes _)

omit [Octet β] [DecidableEq β] [Sodium β] in
/-- A signature draws its hedge and writes nothing. -/
theorem inert_ctxSign (mctx : MemberCtx β) (msg sctx : Bytes β) :
    Inert (ctxSign desc mctx msg sctx) := by
  refine (inert_gyRandomBytes 32).bind fun coins => ?_
  split
  · exact Cmd.keeps_pure _
  · exact Cmd.keeps_fail _

omit [DecidableEq β] [Sodium β] in
/-- Signing a core writes nothing. -/
theorem inert_coreSign (core : QspgsCore β) (i : UInt32) (mctx : MemberCtx β)
    (cap scratchCap : Nat) : Inert (gyQspgsCoreSign desc core i mctx cap scratchCap) :=
  (Cmd.keeps_lift _).bind fun _ => (inert_ctxSign _ _ _).bind fun _ => Cmd.keeps_lift _

omit [DecidableEq β] [Sodium β] in
/-- Framing and signing an appendix line writes nothing. -/
theorem inert_frameLine (mctx : MemberCtx β) (gid : Bytes β) (vmaj vmin : UInt32) (kind : ApxKind)
    (author : UInt32) (payload : Bytes β) (cap : Nat) :
    Inert (frameLine desc mctx gid vmaj vmin kind author payload cap) :=
  (Cmd.keeps_lift _).bind fun _ => (inert_ctxSign _ _ _).bind fun _ => Cmd.keeps_lift _

omit [DecidableEq β] [Sodium β] in
/-- An edited core is signed and encoded under a key the caller holds; nothing is written. -/
theorem inert_emitEdited (core : QspgsCore β) (gkOp skb vkb : Bytes β) (i : UInt32)
    (caps : CoreCaps) : Inert (emitEdited c core gkOp skb vkb i caps) := by
  refine (Cmd.keeps_lift _).bind fun mctx => ?_
  refine (Cmd.keeps_lift _).bind fun hs => ?_
  refine (Cmd.keeps_lift _).bind fun ms => ?_
  refine (Cmd.keeps_lift _).bind fun vs => ?_
  refine (inert_coreSign _ _ _ _ _).bind fun ss => ?_
  exact .ite (Cmd.keeps_fail _) ((Cmd.keeps_lift _).bind fun _ => Cmd.keeps_pure _)

omit [DecidableEq β] [Sodium β] in
/-- The next version under the same key is emitted without writing. -/
theorem inert_emitNext (e : EditCtx β) (core : QspgsCore β) (caps : CoreCaps) :
    Inert (emitNext c e core caps) :=
  (inert_emitEdited _ _ _ _ _ _).bind fun _ => Cmd.keeps_pure _

/-- Opening the stored core reads the group key and the base key. -/
theorem inert_openCurrent (cur : CoreBundle β) : Inert (openCurrent c cur) := by
  refine (Cmd.keeps_lift _).bind fun core => ?_
  refine (Cmd.keeps_lift _).bind fun s => ?_
  dsimp only
  split
  · exact Cmd.keeps_fail _
  · refine (inert_groupKeyLoad _ _).bind fun gk => ?_
    refine (Cmd.keeps_lift _).bind fun sub => ?_
    refine (Cmd.keeps_lift _).bind fun v => ?_
    refine (inert_resolveMemberVkb _ _).bind fun vkb => ?_
    exact (Cmd.keeps_lift _).bind fun _ => Cmd.keeps_pure _

/-- An edit starts by opening the stored core. -/
theorem inert_editBegin (cur : CoreBundle β) : Inert (editBegin c cur) := by
  refine (Cmd.keeps_lift _).bind fun _ => ?_
  refine (inert_openCurrent cur).bind fun cc => ?_
  refine (Cmd.keeps_lift _).bind fun i => ?_
  exact (inert_baseKeyLoad _).bind fun _ => Cmd.keeps_pure _

/-- A roster entry is rebuilt for the new key without writing. -/
theorem inert_rebuildMember (core : QspgsCore β) (ek : Bytes β) (newSub : SubKey β)
    (remove : Option (Bytes β)) (r : Rebuilt β) (m : QspgsMember β) :
    Inert (rebuildMember c core ek newSub remove r m) := by
  refine (Cmd.keeps_lift _).bind fun v => ?_
  refine .ite (Cmd.keeps_pure _) ((inert_resolveMemberVkb _ _).bind fun vkb => ?_)
  dsimp only
  split
  · exact (inert_memberBuildForm _ _ _ _ _ _ _ _).bind fun _ => Cmd.keeps_pure _
  · exact (inert_memberBuildForm _ _ _ _ _ _ _ _).bind fun _ => Cmd.keeps_pure _

omit [DecidableEq β] [KrMlDsa β] in
/-- The join slot is sealed again for the new key without writing. -/
theorem inert_resealJoinSlot (core : QspgsCore β) (newGk fet : Bytes β) :
    Inert (resealJoinSlot c core newGk fet) := by
  refine (inert_joinlinkSecretLoad _ _).attempt.bind fun rc => ?_
  split
  · exact (inert_joinlinkSeal _ _ _ _ _ _).bind fun _ => Cmd.keeps_pure _
  · exact Cmd.keeps_pure _
  · exact Cmd.keeps_fail _

omit [Sodium β] in
/-- Provisioning writes the base key and the user key of the own account only. -/
theorem inert_provisionUser [KrKeygen β] : Inert (provisionUser c) := by
  unfold provisionUser
  refine .ite (Cmd.keeps_fail _) ((inert_mukLoad _ _).attempt.bind fun rc => ?_)
  dsimp only
  split
  -- the three answers for the user key lead to the same base key
  case' h_1 => refine (Cmd.keeps_pure _).bind fun muk => ?_
  case' h_2 =>
    refine (inert_gyRandomBytes _).bind fun fresh => (inert_mukStore _ _).bind fun _ =>
      (Cmd.keeps_pure _).bind fun muk => ?_
  case' h_3 => refine (Cmd.keeps_fail _).bind fun muk => ?_
  all_goals
    refine (inert_baseKeyLoad _).attempt.bind fun rc' => ?_
    split
    · exact Cmd.keeps_pure _
    · exact (inert_gyRandomBytes _).bind fun coins => (Cmd.keeps_lift _).bind fun p =>
        (inert_baseKeyStore _ _ _).bind fun _ => Cmd.keeps_pure _
    · exact (Cmd.keeps_fail _).bind fun _ => Cmd.keeps_pure _

end Build

/-! ## Safe calls -/

section Safe

variable {α τ : Type} {gid : Bytes β} {written : Option QRecKind} {rotates : Bool} {w : QsWorld β}

/-- The records after a rollback of the staged key of a group. -/
def rolledBack (gid : Bytes β) (recs : QsRecords β) : QsRecords β :=
  (gyQspgsGroupKeyRollback gid ⟨recs, []⟩).2.recs

/-- The client's callbacks fail without effect. -/
def QsWorld.Benign (w : QsWorld β) : Prop := Geryon.Benign w.store.faults

/-- A call that changes no key if it fails. -/
def Atomic (x : QsC β α) (w : QsWorld β) : Prop :=
  ∀ e w', x w = (.error e, w') → SameKeys w.store.recs w'.store.recs

/-- A call on a group whose changes to the keys a rollback undoes if it succeeds, but for the record
it writes outright. -/
def Recovers (gid : Bytes β) (written : Option QRecKind) (x : QsC β α) (w : QsWorld β) : Prop :=
  ∀ a w', x w = (.ok a, w') → ∀ kind id, kind.isKey = true →
    (written = some kind → id ≠ gid) → rolledBack gid w'.store.recs kind id = w.store.recs kind id

/-- A call that is atomic and, if it rotates the key or finds none staged, recovers. -/
structure Safe (gid : Bytes β) (written : Option QRecKind) (rotates : Bool) (x : QsC β α)
    (w : QsWorld β) : Prop where
  atomic : Atomic x w
  recover : rotates = true ∨ w.store.recs .groupKeyPending gid = [] → Recovers gid written x w

omit [Octet β] in
/-- After a rollback only the staged key of the group is gone. -/
theorem rolledBack_apply (gid : Bytes β) (recs : QsRecords β) (kind : QRecKind) (id : Bytes β) :
    rolledBack gid recs kind id = if kind = .groupKeyPending ∧ id = gid then [] else recs kind id :=
  rfl

omit [Octet β] in
/-- What changes no key record is safe: with nothing staged, a rollback changes nothing either. -/
theorem Safe.of_inert {x : QsC β α} (hx : Inert x) (hb : w.Benign) :
    Safe gid written false x w where
  atomic e w' h := (hx.of_apply h hb).2
  recover hpend a w' h kind id hkind _ := by
    have hsame := (hx.of_apply h hb).2 kind id hkind
    rw [rolledBack_apply]
    split
    · next heq => rw [heq.1, heq.2, hpend.resolve_left Bool.false_ne_true]
    · exact hsame

omit [Octet β] in
/-- A command that fails at once is safe. -/
theorem Safe.fail (e : GyErr) : Safe gid written rotates (Cmd.fail e : QsC β α) w where
  atomic e' w' h := by
    obtain ⟨-, rfl⟩ := Prod.ext_iff.1 h
    exact fun _ _ _ => rfl
  recover _ a w' h := by cases h

omit [Octet β] in
/-- What precedes a safe call may do anything that leaves the keys alone. -/
theorem Safe.bind {x : QsC β α} {f : α → QsC β τ} (hx : Inert x) (hb : w.Benign)
    (hf : ∀ a w', w'.Benign → SameKeys w.store.recs w'.store.recs → x w = (.ok a, w') →
      Safe gid written rotates (f a) w') : Safe gid written rotates (x >>= f) w := by
  -- either x stops before anything is written or the rest starts from the records it found
  rcases hxw : x w with ⟨_ | a, w'⟩
  · have hfail := Cmd.bind_apply_of_error (f := f) hxw
    constructor
    · intro e' w'' h
      obtain ⟨-, rfl⟩ := Prod.ext_iff.1 (hfail.symm.trans h)
      exact (hx.of_apply hxw hb).2
    · intro _ b w'' h
      cases hfail.symm.trans h
  · obtain ⟨hb', hsame⟩ := hx.of_apply hxw hb
    have hnext := hf a w' hb' hsame hxw
    have hrun := Cmd.bind_apply_of_ok (f := f) hxw
    constructor
    · intro e w'' h
      exact hsame.trans (hnext.atomic e w'' (hrun.symm.trans h))
    · intro hpend b w'' h kind id hkind hne
      -- x wrote nothing, so what was staged is what it was
      have hpend' := hpend.imp_right (hsame .groupKeyPending gid rfl).trans
      exact (hnext.recover hpend' b w'' (hrun.symm.trans h) kind id hkind hne).trans
        (hsame kind id hkind)

omit [Octet β] in
/-- What follows a safe call may compute anything, if it does not fail. -/
theorem Safe.bind_of_ok {x : QsC β α} {f : α → QsC β τ} (hx : Safe gid written rotates x w)
    (hf : ∀ a w', x w = (.ok a, w') → ∃ b, f a w' = (.ok b, w')) :
    Safe gid written rotates (x >>= f) w := by
  -- the write is last: nothing after it can fail
  rcases hxw : x w with ⟨e | a, w'⟩
  · have hfail := Cmd.bind_apply_of_error (f := f) hxw
    constructor
    · intro e' w'' h
      obtain ⟨-, rfl⟩ := Prod.ext_iff.1 (hfail.symm.trans h)
      exact hx.atomic e _ hxw
    · intro _ b w'' h
      cases hfail.symm.trans h
  · obtain ⟨b, hb⟩ := hf a w' hxw
    have hrun := (Cmd.bind_apply_of_ok (f := f) hxw).trans hb
    constructor
    · intro e w'' h
      cases hrun.symm.trans h
    · intro hpend b' w'' h
      obtain ⟨-, rfl⟩ := Prod.ext_iff.1 (hrun.symm.trans h)
      exact hx.recover hpend a _ hxw

omit [Octet β] in
/-- What follows a call that recovers may leave the keys alone. -/
theorem Recovers.bind_inert {x : QsC β α} {f : α → QsC β τ} (hx : Recovers gid written x w)
    (hb : ∀ a w', x w = (.ok a, w') → w'.Benign) (hf : ∀ a, Inert (f a)) :
    Recovers gid written (x >>= f) w := by
  intro b w'' h kind id hkind hne
  obtain ⟨a, w', hxw, hfw⟩ := Cmd.bind_eq_ok_iff.1 h
  have hsame := ((hf a).of_apply hfw (hb a w' hxw)).2 kind id hkind
  have hrec := hx a w' hxw kind id hkind hne
  rw [rolledBack_apply] at hrec ⊢
  split
  · next heq => rwa [if_pos heq] at hrec
  · next heq =>
    rw [if_neg heq] at hrec
    exact hsame.trans hrec

omit [Octet β] in
/-- Writing a record outright. -/
theorem safe_set (kind : QRecKind) (blob : Bytes β) (hb : w.Benign) :
    Safe gid (some kind) false
      (onStore (callback (fun recs => recs.set kind gid blob) fun _ => .ok ())) w := by
  -- the callback writes the record or fails without a trace
  have hrun : ∀ r w', onStore (callback (fun recs => recs.set kind gid blob) fun _ => .ok ()) w =
      ((r : Except GyErr Unit), w') →
        (∃ e, r = .error e ∧ w'.store.recs = w.store.recs) ∨
          w'.store.recs = w.store.recs.set kind gid blob ∧ r = .ok () := by
    intro r w' h
    rw [onStore, Cmd.zoom_apply] at h
    obtain ⟨rfl, rfl⟩ := Prod.ext_iff.1 h
    unfold callback
    split
    · next f rest hf =>
      rw [QsWorld.Benign, hf] at hb
      refine .inl ⟨f.err, rfl, ?_⟩
      simp [(hb f List.mem_cons_self).1]
    · exact .inr ⟨rfl, rfl⟩
    · exact .inr ⟨rfl, rfl⟩
  constructor
  · intro e w' h
    rcases hrun _ _ h with ⟨_, -, hrecs⟩ | ⟨-, hr⟩
    · rw [hrecs]
      exact fun _ _ _ => rfl
    · cases hr
  · intro hpend a w' h k id hk hne
    rcases hrun _ _ h with ⟨_, hr, -⟩ | ⟨hrecs, -⟩
    · cases hr
    -- the old record of this kind is not asked for, and the staged one is as it was
    · rw [rolledBack_apply, hrecs]
      split
      · next heq => rw [heq.1, heq.2, hpend.resolve_left Bool.false_ne_true]
      · unfold QsRecords.set
        rw [if_neg]
        rintro ⟨rfl, rfl⟩
        exact hne rfl rfl

omit [Octet β] [DecidableEq β] in
/-- A load changes no record. -/
theorem loadCb_cases (kind : QRecKind) (id : Bytes β) (cap : Nat) {st : QsStore β}
    (hb : Benign st.faults) :
    (loadCb kind id cap st).2.recs = st.recs ∧
      ((loadCb kind id cap st).1 = .ok (st.recs kind id) ∨
        ∃ e, (loadCb kind id cap st).1 = .error e ∧ e ≠ .notFound) := by
  -- too small a buffer is an error of its own, never an absent record
  have hread : (if cap < (st.recs kind id).length then Except.error GyErr.toolong
      else .ok (st.recs kind id)) = .ok (st.recs kind id) ∨
      ∃ e, (if cap < (st.recs kind id).length then Except.error GyErr.toolong
        else .ok (st.recs kind id)) = .error e ∧ e ≠ .notFound := by
    split
    · exact .inr ⟨.toolong, rfl, by decide⟩
    · exact .inl rfl
  -- a benign failure does not claim that the record is absent
  unfold loadCb callback
  split
  · next f rest hf =>
    rw [hf] at hb
    exact ⟨by simp, .inr ⟨f.err, rfl, (hb f List.mem_cons_self).2⟩⟩
  · exact ⟨rfl, hread⟩
  · exact ⟨rfl, hread⟩

omit [DecidableEq β] in
/-- A load changes no record, and reports a record as absent only if it is. -/
theorem loadKeyed_cases (kind : QRecKind) (id : Bytes β) (n : Nat) {st : QsStore β}
    (hb : Benign st.faults) :
    (loadKeyed kind id n st).2.recs = st.recs ∧
      ((loadKeyed kind id n st).1 = .error .notFound → st.recs kind id = []) := by
  obtain ⟨hrecs, hload⟩ := loadCb_cases kind id qspgsRecBlobMax hb
  unfold loadKeyed
  rw [Cmd.bind_apply]
  -- only an empty record reads as absent
  rcases hcb : loadCb kind id qspgsRecBlobMax st with ⟨e | blob, st'⟩
  · rw [hcb] at hrecs hload
    refine ⟨hrecs, fun h => ?_⟩
    rcases hload with hload | ⟨e', he', hne⟩
    · cases hload
    · cases he'
      cases h
      exact absurd rfl hne
  · rw [hcb] at hrecs hload
    dsimp only at hrecs hload ⊢
    rcases hload with hload | ⟨e', he', -⟩
    · obtain rfl := Except.ok.inj hload
      rw [Cmd.ite_apply, Cmd.ite_apply, Cmd.ite_apply]
      split
      · next h0 => exact ⟨hrecs, fun _ => List.length_eq_zero_iff.1 h0⟩
      split
      · exact ⟨hrecs, fun h => by cases h⟩
      split
      · exact ⟨hrecs, fun h => by cases h⟩
      · exact ⟨hrecs, fun h => by cases h⟩
    · cases he'

/-- Staging fails without effect, or stages the key over nothing staged. -/
theorem stage_cases (desc : SuiteDesc β) (gid gk : Bytes β) {st : QsStore β}
    (hb : Benign st.faults) :
    ((∃ e, (gyQspgsGroupKeyStage desc gid gk st).1 = .error e) ∧
        (gyQspgsGroupKeyStage desc gid gk st).2.recs = st.recs) ∨
      ((gyQspgsGroupKeyStage desc gid gk st).1 = .ok () ∧ st.recs .groupKeyPending gid = [] ∧
        (gyQspgsGroupKeyStage desc gid gk st).2.recs =
          st.recs.set .groupKeyPending gid (putHdr ++ gk)) := by
  unfold gyQspgsGroupKeyStage
  rw [Cmd.ite_apply]
  split
  · exact .inl ⟨⟨_, rfl⟩, rfl⟩
  rw [Cmd.attempt_bind_apply]
  obtain ⟨hrecs, habsent⟩ := loadKeyed_cases .groupKeyPending gid (gyQspgsMasterKeyLen desc) hb
  obtain ⟨hb', -⟩ := keeps_loadKeyed .groupKeyPending gid (gyQspgsMasterKeyLen desc) st hb
  -- the stage looks first and writes only over nothing
  rcases hload : loadKeyed .groupKeyPending gid (gyQspgsMasterKeyLen desc) st with ⟨r, st'⟩
  rw [hload] at hrecs habsent hb'
  dsimp only at hrecs habsent hb' ⊢
  split
  · exact .inl ⟨⟨_, rfl⟩, hrecs⟩
  · rw [← hrecs] at habsent ⊢
    unfold storeKeyed storeCb callback
    split
    · next f rest hf =>
      rw [hf] at hb'
      refine .inl ⟨⟨f.err, rfl⟩, ?_⟩
      simp [(hb' f List.mem_cons_self).1]
    · exact .inr ⟨rfl, habsent rfl, rfl⟩
    · exact .inr ⟨rfl, habsent rfl, rfl⟩
  · exact .inl ⟨⟨_, rfl⟩, hrecs⟩

/-- Staging a key recovers whatever was staged before: over a staged key it fails. -/
theorem safe_stage {desc : SuiteDesc β} (gk : Bytes β) (hb : w.Benign) :
    Safe gid none rotates (onStore (gyQspgsGroupKeyStage desc gid gk)) w := by
  have hcases := stage_cases desc gid gk hb
  constructor
  · intro e w' h
    rw [onStore, Cmd.zoom_apply] at h
    obtain ⟨hr, rfl⟩ := Prod.ext_iff.1 h
    rcases hcases with ⟨-, hrecs⟩ | ⟨hok, -⟩
    · intro kind id _
      dsimp only
      rw [hrecs]
    · rw [hok] at hr
      cases hr
  · intro _ a w' h kind id _ _
    rw [onStore, Cmd.zoom_apply] at h
    obtain ⟨hr, rfl⟩ := Prod.ext_iff.1 h
    rcases hcases with ⟨⟨e, he⟩, -⟩ | ⟨-, hpend, hrecs⟩
    · rw [he] at hr
      cases hr
    · dsimp only
      -- dropping the staged key gives back the records before the call
      rw [rolledBack_apply, hrecs]
      split
      · next heq => rw [heq.1, heq.2, hpend]
      · next hne => exact if_neg hne

/-- Storing a current key. -/
theorem safe_groupKeyStore (desc : SuiteDesc β) (gk : Bytes β) (hb : w.Benign) :
    Safe gid (some .groupKey) false (onStore (gyQspgsGroupKeyStore desc gid gk)) w := by
  unfold gyQspgsGroupKeyStore
  split
  · exact Safe.of_inert (keeps_onStore (Cmd.keeps_fail _)) hb
  · exact safe_set .groupKey _ hb

/-- Storing a current key uses up callbacks. -/
theorem benign_groupKeyStore {desc : SuiteDesc β} {gk : Bytes β} {w' : QsWorld β} {a : Unit}
    (h : onStore (gyQspgsGroupKeyStore desc gid gk) w = (.ok a, w')) (hb : w.Benign) :
    w'.Benign := by
  rw [onStore, Cmd.zoom_apply] at h
  obtain ⟨-, rfl⟩ := Prod.ext_iff.1 h
  show Geryon.Benign (gyQspgsGroupKeyStore desc gid gk w.store).2.faults
  unfold gyQspgsGroupKeyStore
  rw [Cmd.ite_apply]
  split
  · exact hb
  · exact benign_callback hb

end Safe

/-! ## The edits -/

section Edits

variable [KrMlDsa β] [Sodium β] {c : QsCustodian β} {gid : Bytes β} {rotates : Bool}
  {w : QsWorld β}

/-- The group of a core. -/
def bundleGid (desc : SuiteDesc β) (b : CoreBundle β) : Bytes β :=
  match decodeBundle desc b with
  | .ok (core, _) => core.gid
  | .error _ => []

/-- The group of an edit is the one the bundle names. -/
theorem editBegin_gid {cur : CoreBundle β} {w' : QsWorld β} {e : EditCtx β}
    (h : editBegin c cur w = (.ok e, w')) : e.cur.core.gid = bundleGid c.desc cur := by
  obtain ⟨w₁, hcur⟩ := editBegin_ok h
  obtain ⟨hdec, -⟩ := openCurrent_ok hcur
  rw [bundleGid, hdec]

/-- An addition keeps the group key. -/
theorem inert_addMember (cur : CoreBundle β) (newUid : Bytes β) (caps : CoreCaps) :
    Inert (gyCustodianQsgroupAddMember c cur newUid caps) := by
  refine (inert_editBegin cur).bind fun e => ?_
  refine .ite (Cmd.keeps_fail _) (.ite (Cmd.keeps_fail _) ?_)
  refine (inert_acquaintanceLoad _).bind fun a => ?_
  exact (inert_memberBuildForm _ _ _ _ _ _ _ _).bind fun _ => inert_emitNext _ _ _

/-- A change of an admin flag keeps the group key. -/
theorem inert_setAdmin (cur : CoreBundle β) (targetUid : Bytes β) (admin : Bool) (caps : CoreCaps) :
    Inert (gyCustodianQsgroupSetAdmin c cur targetUid admin caps) := by
  refine (inert_editBegin cur).bind fun e => ?_
  refine .ite (Cmd.keeps_fail _) ((Cmd.keeps_lift _).bind fun r => ?_)
  split
  · exact Cmd.keeps_fail _
  · exact inert_emitNext _ _ _

/-- An invitation keeps the group key. -/
theorem inert_invite (cur : CoreBundle β) (inviteeUid : Bytes β) (acct : Option (AcctRef β))
    (gkprimeCap : Nat) (caps : CoreCaps) :
    Inert (gyCustodianQsgroupInvite c cur inviteeUid acct gkprimeCap caps) := by
  refine .ite (Cmd.keeps_fail _) ((inert_editBegin cur).bind fun e => ?_)
  refine .ite (Cmd.keeps_fail _) (.ite (Cmd.keeps_fail _) ?_)
  refine (inert_resolveMemberVkb _ _).bind fun vkb => ?_
  refine inert_groupKeyGen.bind fun gkPrime => ?_
  refine (inert_memberBuildForm _ _ _ _ _ _ _ _).bind fun p => ?_
  exact (inert_emitNext _ _ _).bind fun _ => Cmd.keeps_pure _

/-- Completing an invitation keeps the group key. -/
theorem inert_completeInvitation (cur : CoreBundle β) (inviteeUid inviteeUk : Bytes β)
    (caps : CoreCaps) :
    Inert (gyCustodianQsgroupCompleteInvitation c cur inviteeUid inviteeUk caps) := by
  refine .ite (Cmd.keeps_fail _) ((inert_editBegin cur).bind fun e => ?_)
  refine .ite (Cmd.keeps_fail _) ((Cmd.keeps_lift _).bind fun r => ?_)
  split
  · exact Cmd.keeps_fail _
  · refine .ite (Cmd.keeps_fail _) ((inert_gyRandomBytes _).bind fun rc => ?_)
    refine (inert_memberCtSealForm _ _ _ _ _).bind fun mct => ?_
    exact (Cmd.keeps_lift _).bind fun _ => inert_emitNext _ _ _

/-- A change of the settings keeps the group key. -/
theorem inert_changeSettings (cur : CoreBundle β) (flags : UInt8) (attr : Bytes β)
    (caps : CoreCaps) : Inert (gyCustodianQsgroupChangeSettings c cur flags attr caps) := by
  refine .ite (Cmd.keeps_fail _) ((inert_editBegin cur).bind fun e => ?_)
  refine (Cmd.keeps_lift _).bind fun pt => ?_
  exact (inert_fieldSeal _ _ _ _ _ _).bind fun _ => inert_emitNext _ _ _

/-- A rebuild under a fresh key stages the key at its end. -/
theorem safe_rebuildAndEmit (e : EditCtx β) (remove : Option (Bytes β)) (caps : CoreCaps)
    (hgid : e.cur.core.gid = gid) (hb : w.Benign) :
    Safe gid none rotates (rebuildAndEmit c e remove caps) w := by
  unfold rebuildAndEmit
  refine Safe.bind inert_groupKeyGen hb fun newGk w₁ hb _ _ => ?_
  refine Safe.bind (Cmd.keeps_lift _) hb fun newSub w₂ hb _ _ => ?_
  refine Safe.bind (.foldlM (inert_rebuildMember _ _ _ _) _ _) hb fun r w₃ hb _ _ => ?_
  split
  · exact Safe.fail _
  split
  · exact Safe.fail _
  refine Safe.bind (Cmd.keeps_lift _) hb fun fet w₄ hb _ _ => ?_
  refine Safe.bind (Cmd.keeps_lift _) hb fun sa w₅ hb _ _ => ?_
  refine Safe.bind (inert_fieldSeal _ _ _ _ _ _) hb fun saNew w₆ hb _ _ => ?_
  dsimp only
  -- with the join slot as it was or resealed, the core is signed and the key staged
  split
  · refine Safe.bind (Cmd.keeps_pure _) hb fun p w₇ hb _ _ => ?_
    refine Safe.bind (inert_emitEdited _ _ _ _ _ _) hb fun b w₈ hb _ _ => ?_
    rw [hgid]
    exact (safe_stage newGk hb).bind_of_ok fun _ _ _ => ⟨_, rfl⟩
  · refine Safe.bind (inert_resealJoinSlot _ _ _) hb fun p w₇ hb _ _ => ?_
    refine Safe.bind (inert_emitEdited _ _ _ _ _ _) hb fun b w₈ hb _ _ => ?_
    rw [hgid]
    exact (safe_stage newGk hb).bind_of_ok fun _ _ _ => ⟨_, rfl⟩

/-- A removal stages the next key before the core under it goes out, so a failure leaves the stored
key. -/
theorem safe_removeMember (cur : CoreBundle β) (targetUid : Bytes β) (caps : CoreCaps)
    (hb : w.Benign) :
    Safe (bundleGid c.desc cur) none rotates
      (gyCustodianQsgroupRemoveMember c cur targetUid caps) w := by
  refine Safe.bind (inert_editBegin cur) hb fun e w₁ hb _ he => ?_
  split
  · exact Safe.fail _
  split
  · exact Safe.fail _
  · exact safe_rebuildAndEmit e _ caps (editBegin_gid he) hb

/-- A rotation stages the next key as a removal does. -/
theorem safe_rotateGroupKey (cur : CoreBundle β) (caps : CoreCaps) (hb : w.Benign) :
    Safe (bundleGid c.desc cur) none rotates (gyCustodianQsgroupRotateGroupKey c cur caps) w := by
  refine Safe.bind (inert_editBegin cur) hb fun e w₁ hb _ he => ?_
  exact safe_rebuildAndEmit e _ caps (editBegin_gid he) hb

/-- A toggle writes or removes the secret of the link at its end. -/
theorem safe_toggleJoinLink (cur : CoreBundle β) (caps : CoreCaps) (hb : w.Benign) :
    Safe (bundleGid c.desc cur) (some .joinLink) false
      (gyCustodianQsgroupToggleJoinLink c cur caps) w := by
  refine Safe.bind (inert_editBegin cur) hb fun e w₁ hb _ he => ?_
  -- opening stores the secret, closing removes it; both come after the core is made
  dsimp only
  split
  · refine Safe.bind (inert_gyRandomBytes _) hb fun jls w₂ hb _ _ => ?_
    refine Safe.bind (Cmd.keeps_lift _) hb fun fet w₃ hb _ _ => ?_
    refine Safe.bind (inert_joinlinkSeal _ _ _ _ _ _) hb fun slot w₄ hb _ _ => ?_
    refine Safe.bind (inert_emitNext _ _ _) hb fun next w₅ hb _ _ => ?_
    rw [editBegin_gid he]
    exact (safe_set .joinLink _ hb).bind_of_ok fun _ _ _ => ⟨_, rfl⟩
  · refine Safe.bind (inert_emitNext _ _ _) hb fun next w₂ hb _ _ => ?_
    rw [editBegin_gid he]
    exact (safe_set .joinLink _ hb).bind_of_ok fun _ _ _ => ⟨_, rfl⟩

/-- A toggle of an open link emits a core without a slot and removes the secret. -/
theorem toggleJoinLink_closes {cur : CoreBundle β} {caps : CoreCaps} {w₁ w₂ : QsWorld β}
    {e : EditCtx β} {p : CoreBundle β × Bytes β} (hbegin : editBegin c cur w = (.ok e, w₁))
    (hopen : e.cur.core.joinCt.length ≠ 0)
    (hemit : emitEdited c
      { e.cur.core with joinCt := [], vmaj := e.cur.core.vmaj + 1, lastVmin := 0 } e.cur.gk e.skb
      e.vkb e.selfIdx caps w₁ = (.ok p, w₂)) (hquiet : w₂.store.faults = []) :
    gyCustodianQsgroupToggleJoinLink c cur caps w =
      (.ok (⟨p.1, p.2, false⟩, none),
        { w₂ with store := ⟨w₂.store.recs.set .joinLink e.cur.core.gid [], []⟩ }) := by
  have hnext : emitNext c e { e.cur.core with joinCt := [] } caps w₁ =
      (.ok ⟨p.1, p.2, false⟩, w₂) := by
    rw [emitNext, Cmd.bind_apply_of_ok hemit]
    rfl
  have hremove : onStore (gyQspgsJoinlinkSecretDelete e.cur.core.gid) w₂ =
      (.ok (), { w₂ with store := ⟨w₂.store.recs.set .joinLink e.cur.core.gid [], []⟩ }) := by
    rw [onStore, Cmd.zoom_apply, gyQspgsJoinlinkSecretDelete, removeCb, callback, hquiet]
  rw [gyCustodianQsgroupToggleJoinLink, Cmd.bind_apply_of_ok hbegin, if_neg hopen,
    Cmd.bind_apply_of_ok hnext, Cmd.bind_apply_of_ok hremove]
  rfl

/-- A group is created by writing its key at the end. -/
theorem safe_create [KrKeygen β] (gid : Bytes β) (ep : UInt64) (flags aeadId : UInt8)
    (attr : Bytes β) (caps : CoreCaps) (hb : w.Benign) :
    Safe gid (some .groupKey) false
      (gyCustodianQsgroupCreate c gid ep flags aeadId attr caps) w := by
  unfold gyCustodianQsgroupCreate
  split
  · exact Safe.fail _
  split
  · exact Safe.fail _
  refine Safe.bind (Cmd.keeps_lift _) hb fun _ w₁ hb _ _ => ?_
  split
  · exact Safe.fail _
  -- everything up to the core is computed without a write
  refine Safe.bind inert_provisionUser hb fun p w₂ hb _ _ => ?_
  refine Safe.bind (Cmd.keeps_lift _) hb fun uk w₃ hb _ _ => ?_
  refine Safe.bind inert_groupKeyGen hb fun gk w₄ hb _ _ => ?_
  refine Safe.bind (Cmd.keeps_lift _) hb fun mctx w₅ hb _ _ => ?_
  refine Safe.bind (Cmd.keeps_lift _) hb fun fet w₆ hb _ _ => ?_
  refine Safe.bind (Cmd.keeps_lift _) hb fun pt w₇ hb _ _ => ?_
  refine Safe.bind (inert_fieldSeal _ _ _ _ _ _) hb fun sa w₈ hb _ _ => ?_
  refine Safe.bind (inert_memberBuildForm _ _ _ _ _ _ _ _) hb fun m w₉ hb _ _ => ?_
  refine Safe.bind (Cmd.keeps_lift _) hb fun hs w₁₀ hb _ _ => ?_
  refine Safe.bind (Cmd.keeps_lift _) hb fun ms w₁₁ hb _ _ => ?_
  refine Safe.bind (Cmd.keeps_lift _) hb fun vs w₁₂ hb _ _ => ?_
  refine Safe.bind (inert_coreSign _ _ _ _ _) hb fun ss w₁₃ hb _ _ => ?_
  split
  · exact Safe.fail _
  -- the key is stored last
  exact (safe_groupKeyStore _ gk hb).bind_of_ok fun _ _ _ => ⟨_, rfl⟩

/-! ### Consolidation -/

omit [Octet β] [DecidableEq β] [KrMlDsa β] [Sodium β] in
/-- A check that is skipped on one return code is inert as its parts are. -/
theorem inert_unlessFails {α : Type} {code : GyErr} {x : QsC β α} {k : α → QsC β Bool}
    (hx : Inert x) (hk : ∀ a, Inert (k a)) : Inert (unlessFails code x k) := by
  refine hx.attempt.bind fun rc => ?_
  split
  · exact hk _
  · exact .ite (Cmd.keeps_pure _) (Cmd.keeps_fail _)

omit [KrMlDsa β] [Sodium β] in
/-- Opening a commitment is a computation. -/
theorem inert_commitmentOpens {desc : SuiteDesc β} (t : MemberTuple β) (payload : Bytes β) :
    Inert (commitmentOpens desc t payload) :=
  (Cmd.keeps_lift _).bind fun _ => Cmd.keeps_pure _

omit [KrMlDsa β] in
/-- The payload of a line is opened without writing. -/
theorem inert_checkApxPayload (core : QspgsCore β) (sub : SubKey β) (line : ApxLine β)
    (set : Settings) : Inert (checkApxPayload c core sub line set) := by
  unfold checkApxPayload
  split
  · exact Cmd.keeps_pure _
  · exact inert_unlessFails (Cmd.keeps_lift _) fun _ => Cmd.keeps_pure _
  · exact .ite (Cmd.keeps_pure _)
      (inert_unlessFails (Cmd.keeps_lift _) fun _ => Cmd.keeps_pure _)
  · exact .ite (Cmd.keeps_pure _) (.ite (Cmd.keeps_pure _)
      (inert_unlessFails (Cmd.keeps_lift _) fun t => inert_commitmentOpens t _))
  · exact Cmd.keeps_pure _

/-- A line is checked without writing; the newcomer of an add-user line is looked up. -/
theorem inert_checkApxLine (core : QspgsCore β) (sub : SubKey β) (vmaj vmin : UInt32)
    (line : ApxLine β) (set : Settings) (accts : List (AcctRef β)) (cap : Nat) :
    Inert (checkApxLine c core sub vmaj vmin line set accts cap) := by
  unfold checkApxLine
  refine .ite (.ite (Cmd.keeps_pure _) (.ite (Cmd.keeps_pure _) ?_)) ?_
  · refine inert_unlessFails (Cmd.keeps_lift _) fun t => ?_
    refine inert_unlessFails (inert_resolveMemberVkb _ _) fun vkb => ?_
    exact inert_unlessFails (Cmd.keeps_lift _) fun _ => inert_commitmentOpens t _
  · split
    · exact Cmd.keeps_pure _
    · refine (Cmd.keeps_lift _).bind fun av => ?_
      refine inert_unlessFails (inert_resolveMemberVkb _ _) fun vkb => ?_
      exact inert_unlessFails (Cmd.keeps_lift _) fun _ => inert_checkApxPayload _ _ _ _

/-- A line is folded into the working roster without writing. -/
theorem inert_consAppend (cc : CurrentCore β) (accts : List (AcctRef β)) (work : List (ConsWork β))
    (line : ApxLine β) : Inert (consAppend c cc accts work line) := by
  refine .ite (.ite (Cmd.keeps_fail _) ?_) (Cmd.keeps_pure _)
  refine (Cmd.keeps_lift _).bind fun t => ?_
  exact (inert_resolveMemberVkb _ _).bind fun _ => Cmd.keeps_pure _

/-- The folding of an appendix writes nothing. -/
theorem inert_consFold [JoinKem β] (cc : CurrentCore β) (inp : ConsInput β) :
    Inert (consFold c cc inp) := by
  refine (Cmd.keeps_lift _).bind fun apx => ?_
  refine (Cmd.keeps_lift _).bind fun hdrpt => ?_
  refine Cmd.Keeps.bind (.mapM' (fun m => ?_) _) fun work => ?_
  · refine (Cmd.keeps_lift _).bind fun v => ?_
    exact (inert_resolveMemberVkb _ _).bind fun _ => Cmd.keeps_pure _
  refine Cmd.Keeps.bind (.mapM' (fun p => ?_) _) fun checked => ?_
  · exact (inert_checkApxLine _ _ _ _ _ _ _ _).bind fun _ => Cmd.keeps_pure _
  refine (Cmd.Keeps.foldlM (inert_consAppend cc _) _ _).bind fun work => ?_
  refine (Cmd.keeps_lift _).bind fun work => ?_
  refine (Cmd.keeps_lift _).bind fun attr => ?_
  exact (Cmd.keeps_lift _).bind fun _ => Cmd.keeps_pure _

/-- The consolidated core is emitted without writing: the key was staged before. -/
theorem inert_consEmit (e : EditCtx β) (f : Folded β) (gkOp : Bytes β) (subOp : SubKey β)
    (caps : CoreCaps) : Inert (consEmit c e f gkOp subOp caps) := by
  refine (Cmd.keeps_lift _).bind fun fet => ?_
  -- the members are resealed one by one, each without a write
  refine Cmd.Keeps.bind (.foldlM (fun r x => ?_) _ _) fun r => ?_
  · refine .ite (Cmd.keeps_pure _) ?_
    dsimp only
    split
    · exact (inert_memberBuildForm _ _ _ _ _ _ _ _).bind fun _ => Cmd.keeps_pure _
    · exact (inert_memberBuildForm _ _ _ _ _ _ _ _).bind fun _ => Cmd.keeps_pure _
  split
  · exact Cmd.keeps_fail _
  refine (inert_fieldSeal _ _ _ _ _ _).bind fun sa => ?_
  dsimp only
  split
  · refine (inert_resealJoinSlot _ _ _).bind fun p => ?_
    exact (inert_emitEdited _ _ _ _ _ _).bind fun _ => Cmd.keeps_pure _
  · refine (Cmd.keeps_pure _).bind fun p => ?_
    exact (inert_emitEdited _ _ _ _ _ _).bind fun _ => Cmd.keeps_pure _

/-- The entries a consolidation has settled against are those of the queue. -/
theorem consFold_entries [JoinKem β] {cc : CurrentCore β} {inp : ConsInput β} {w' : QsWorld β}
    {f : Folded β} (h : consFold c cc inp w = (.ok f, w')) (hqueue : inp.inviteQueue.length ≠ 0) :
    gyQspgsInviteQueueDecode c.desc inp.inviteQueue = .ok f.entries := by
  unfold consFold at h
  obtain ⟨apx, -, h⟩ := Cmd.lift_bind_eq_ok_iff.1 h
  obtain ⟨hdrpt, -, h⟩ := Cmd.lift_bind_eq_ok_iff.1 h
  obtain ⟨work₁, w₁, -, h⟩ := Cmd.bind_eq_ok_iff.1 h
  obtain ⟨checked, w₂, -, h⟩ := Cmd.bind_eq_ok_iff.1 h
  obtain ⟨work₃, w₃, -, h⟩ := Cmd.bind_eq_ok_iff.1 h
  obtain ⟨work₄, -, h⟩ := Cmd.lift_bind_eq_ok_iff.1 h
  obtain ⟨attr, -, h⟩ := Cmd.lift_bind_eq_ok_iff.1 h
  obtain ⟨p, hp, h⟩ := Cmd.lift_bind_eq_ok_iff.1 h
  -- the queue that is settled is the one that was handed in
  unfold consSettleAll at hp
  rw [if_neg hqueue] at hp
  obtain ⟨entries, hdec, hp⟩ := Except.bind_eq_ok_iff.1 hp
  obtain ⟨settled, -, hp⟩ := Except.bind_eq_ok_iff.1 hp
  obtain rfl := Except.ok.inj hp
  obtain rfl := Except.ok.inj (congrArg Prod.fst h)
  exact hdec

omit [DecidableEq β] [KrMlDsa β] [Sodium β] in
/-- The drained queue fits where the queue does. -/
theorem consQueue_ok {inp : ConsInput β} {f : Folded β} {cap : Option Nat}
    (hentries : inp.inviteQueue.length ≠ 0 →
      gyQspgsInviteQueueDecode c.desc inp.inviteQueue = .ok f.entries)
    (hcap : ∀ n ∈ cap, inp.inviteQueue.length ≤ n) : ∃ q, consQueue c inp f cap = .ok q := by
  unfold consQueue
  by_cases h0 : inp.inviteQueue.length = 0
  · exact ⟨[], if_pos h0⟩
  -- what stays of the queue is in its old order
  have hsub : ((f.entries.zipIdx.filter fun p => p.2 ∉ f.consumed).map Prod.fst).Sublist
      f.entries := by
    have := (List.filter_sublist (p := fun p => decide (p.2 ∉ f.consumed))
      (l := f.entries.zipIdx)).map Prod.fst
    rwa [List.zipIdx_map_fst] at this
  obtain ⟨henc, hle⟩ := gyQspgsInviteQueueEncode_of_sublist c.desc (hentries h0) hsub
    (Nat.le_add_right inp.inviteQueue.length 16)
  refine ⟨inviteQueueBytes c.desc
    ((f.entries.zipIdx.filter fun p => p.2 ∉ f.consumed).map Prod.fst), ?_⟩
  -- a part of a queue that decoded encodes, and is no longer than it
  rw [if_neg h0]
  dsimp only
  rw [henc, Except.ok_bind, if_neg]
  cases cap with
  | none => simp
  | some n =>
    have := hcap n rfl
    simp only [Option.any_some, decide_eq_true_eq]
    omega

/-- A consolidation that folds a leave stages a key before it writes out the drained queue. -/
theorem safe_consolidate [JoinKem β] (cur : CoreBundle β) (inp : ConsInput β)
    (queueCap : Option Nat) (caps : CoreCaps) (hcap : ∀ n ∈ queueCap, inp.inviteQueue.length ≤ n)
    (hb : w.Benign) :
    Safe (bundleGid c.desc cur) none false
      (gyCustodianQsgroupConsolidate c cur inp queueCap caps) w := by
  refine Safe.bind (inert_editBegin cur) hb fun e w₁ hb _ he => ?_
  refine Safe.bind (inert_consFold _ _) hb fun f w₂ hb _ hf => ?_
  -- the queue is encoded after the stage, so it must not fail there
  obtain ⟨q, hq⟩ := consQueue_ok (consFold_entries hf) hcap
  rw [hq]
  split
  -- somebody left: a new key is staged
  · refine Safe.bind inert_groupKeyGen hb fun newGk w₃ hb _ _ => ?_
    refine Safe.bind (Cmd.keeps_lift _) hb fun newSub w₄ hb _ _ => ?_
    refine Safe.bind (inert_consEmit _ _ _ _ _) hb fun next w₅ hb _ _ => ?_
    rw [editBegin_gid he]
    exact (safe_stage newGk hb).bind_of_ok fun _ _ _ => ⟨_, rfl⟩
  -- nobody left: nothing is written
  · refine Safe.of_inert ?_ hb
    exact (inert_consEmit _ _ _ _ _).bind fun _ => (Cmd.keeps_lift _).bind fun _ =>
      Cmd.keeps_pure _

/-- A revocation stages a key before it writes out the drained queue. -/
theorem safe_revokeInvitation [JoinKem β] (cur : CoreBundle β) (curQueue targetUid : Bytes β)
    (queueCap : Nat) (caps : CoreCaps)
    (hjoin : ∀ gk, ∃ p, gyQspgsJoinDerive c.desc gk = .ok p)
    (hqueue : ∃ es, gyQspgsInviteQueueDecode c.desc curQueue = .ok es)
    (hcap : curQueue.length ≤ queueCap) (hb : w.Benign) :
    Safe (bundleGid c.desc cur) none rotates
      (gyCustodianQsgroupRevokeInvitation c cur curQueue targetUid queueCap caps) w := by
  unfold gyCustodianQsgroupRevokeInvitation
  split
  · exact Safe.fail _
  refine Safe.bind (inert_editBegin cur) hb fun e w₁ hb _ he => ?_
  refine Safe.bind (Cmd.keeps_lift _) hb fun r w₂ hb _ _ => ?_
  split
  · exact Safe.fail _
  · next gkPrime _ =>
    -- the new key is staged by then, and the queue after it cannot fail
    refine (safe_rebuildAndEmit e _ caps (editBegin_gid he) hb).bind_of_ok fun next w₃ _ => ?_
    obtain ⟨p, hp⟩ := hjoin gkPrime
    obtain ⟨es, hes⟩ := hqueue
    rw [hp, Cmd.lift_ok_bind_apply]
    dsimp only
    rw [hes, Cmd.lift_ok_bind_apply,
      (gyQspgsInviteQueueEncode_of_sublist c.desc hes List.filter_sublist hcap).1,
      Cmd.lift_ok_bind_apply]
    exact ⟨_, rfl⟩

/-- A join over a link with nothing staged writes the group key, and then builds its line. -/
theorem recovers_joinViaLink [KrKeygen β] (cur : CoreBundle β) (linkSecret : Bytes β) (ep : UInt64)
    (signerAcct : Bytes β) (ukCap lineCap : Nat) (hb : w.Benign)
    (hpend : w.store.recs .groupKeyPending (bundleGid c.desc cur) = []) :
    Recovers (bundleGid c.desc cur) (some .groupKey)
      (gyCustodianQsgroupJoinViaLink c cur linkSecret ep signerAcct ukCap lineCap) w := by
  intro r w' h
  unfold gyCustodianQsgroupJoinViaLink at h
  obtain ⟨_, -, h⟩ := Cmd.lift_bind_eq_ok_iff.1 h
  rw [Cmd.ite_apply] at h
  split at h
  · cases h
  obtain ⟨core₁, hh, h⟩ := Cmd.lift_bind_eq_ok_iff.1 h
  obtain ⟨core₂, hm, h⟩ := Cmd.lift_bind_eq_ok_iff.1 h
  rw [Cmd.ite_apply] at h
  split at h
  · cases h
  obtain ⟨p, hp, h⟩ := Cmd.lift_bind_eq_ok_iff.1 h
  obtain ⟨core₃, hv, h⟩ := Cmd.lift_bind_eq_ok_iff.1 h
  obtain ⟨s, hs, h⟩ := Cmd.lift_bind_eq_ok_iff.1 h
  -- the joiner reads the group id out of the core it was given
  have hgid : bundleGid c.desc cur = core₃.gid := by
    simp only [bundleGid, decodeBundle, decodeCore, hh, hm, hv, hs, Except.ok_bind]
    rfl
  rw [hgid] at hpend ⊢
  dsimp only at h
  cases hline : core₃.members[s.signerIndex.toNat]? with
  | none =>
    rw [hline] at h
    cases h
  | some m =>
    rw [hline] at h
    obtain ⟨sub, -, h⟩ := Cmd.lift_bind_eq_ok_iff.1 h
    obtain ⟨v, -, h⟩ := Cmd.lift_bind_eq_ok_iff.1 h
    obtain ⟨a, -, h⟩ := Cmd.lift_bind_eq_ok_iff.1 h
    obtain ⟨_, -, h⟩ := Cmd.lift_bind_eq_ok_iff.1 h
    -- the key is stored in the middle of the call; what follows writes nothing
    refine ((safe_groupKeyStore c.desc p.1 hb).recover (.inr hpend)).bind_inert
      (fun _ _ hx => benign_groupKeyStore hx hb) (fun _ => ?_) r w' h
    refine inert_provisionUser.bind fun q => ?_
    refine (Cmd.keeps_lift _).bind fun uk => (Cmd.keeps_lift _).bind fun mctx => ?_
    refine (inert_gyRandomBytes _).bind fun rc => (Cmd.keeps_lift _).bind fun cuid => ?_
    refine (inert_memberCtSealForm _ _ _ _ _).bind fun ct => ?_
    exact (inert_frameLine _ _ _ _ _ _ _ _).bind fun _ => Cmd.keeps_pure _

/-- An appendix line starts by opening the stored core. -/
theorem inert_appendixPrepare (cur : CoreBundle β) : Inert (appendixPrepare c cur) := by
  refine (Cmd.keeps_lift _).bind fun _ => (inert_openCurrent cur).bind fun cc => ?_
  refine (Cmd.keeps_lift _).bind fun i => (inert_baseKeyLoad _).bind fun p => ?_
  exact (Cmd.keeps_lift _).bind fun _ => Cmd.keeps_pure _

/-- A roster entry is compared with the key it is listed under. -/
theorem inert_checkVkEntry (core : QspgsCore β) (sub : SubKey β) (accts : List (AcctRef β))
    (p : QspgsMember β × Bytes β) : Inert (checkVkEntry c core sub accts p) := by
  refine (Cmd.keeps_lift _).bind fun v => (inert_resolveMemberVkb _ _).bind fun vkb => ?_
  exact (Cmd.keeps_lift _).bind fun h => .ite (Cmd.keeps_fail _) (Cmd.keeps_pure _)

omit [Sodium β] in
/-- A user key in the roster is compared with the one that is stored, or stored if there is none. -/
theorem inert_checkUserKey (uid uk : Bytes β) (accts : List (AcctRef β)) :
    Inert (checkUserKey c uid uk accts) := by
  unfold checkUserKey
  refine .ite (Cmd.keeps_fail _) (.ite (Cmd.keeps_pure _) ?_)
  refine (inert_acquaintanceLoad _).attempt.bind fun rc => ?_
  refine (Cmd.keeps_lift _).bind fun known => .ite (Cmd.keeps_pure _) ?_
  split
  · exact Cmd.keeps_fail _
  split
  · refine (Cmd.keeps_lift _).bind fun a => (Cmd.keeps_lift _).bind fun acq => ?_
    exact .ite (Cmd.keeps_pure _) (Cmd.keeps_fail _)
  · exact Cmd.keeps_fail _

/-- A fetch opens and checks the answer without touching the group keys. -/
theorem inert_fetchOpen (ans : GroupAnswer β) (prior : PriorView β) (accts : List (AcctRef β))
    (caps : FetchCaps) : Inert (fetchOpen c ans prior accts caps) := by
  refine (Cmd.keeps_lift _).bind fun _ => (Cmd.keeps_lift _).bind fun core => ?_
  refine (Cmd.keeps_lift _).bind fun apx => .ite (Cmd.keeps_fail _) ?_
  refine (Cmd.keeps_lift _).bind fun s => ?_
  dsimp only
  split
  · exact Cmd.keeps_fail _
  · refine (inert_groupKeyLoad _ _).bind fun gk => (Cmd.keeps_lift _).bind fun sub => ?_
    refine (Cmd.keeps_lift _).bind fun v => (inert_resolveMemberVkb _ _).bind fun vkb => ?_
    refine (Cmd.keeps_lift _).bind fun _ => (Cmd.keeps_lift _).bind fun _ => ?_
    refine Cmd.Keeps.bind ?_ fun _ => Cmd.keeps_pure _
    exact .ite (Cmd.keeps_fail _) (.forM (inert_checkVkEntry _ _ _) _)

/-- A fetch keeps the group key: it stores user keys at most. -/
theorem inert_fetch [JoinKem β] (ans : GroupAnswer β) (prior : PriorView β)
    (accts : List (AcctRef β)) (caps : FetchCaps) :
    Inert (gyCustodianQsgroupFetch c ans prior accts caps) := by
  refine (inert_fetchOpen _ _ _ _).bind fun o => Cmd.Keeps.bind ?_ fun _ => Cmd.keeps_pure _
  refine (Cmd.keeps_lift _).bind fun views => (Cmd.keeps_lift _).bind fun hdrpt => ?_
  refine Cmd.Keeps.bind (.mapM' (fun line => ?_) _) fun checked => ?_
  · exact (inert_checkApxLine _ _ _ _ _ _ _ _).bind fun _ => Cmd.keeps_pure _
  refine (Cmd.keeps_lift _).bind fun p => Cmd.Keeps.bind (.forM (fun x => ?_) _) fun _ => ?_
  · exact .ite (Cmd.keeps_pure _) (inert_checkUserKey _ _ _)
  · exact .ite (Cmd.keeps_fail _) (.ite (Cmd.keeps_fail _) (Cmd.keeps_pure _))

end Edits

/-! ## Every call -/

/-- The calls of a client: creating a group, and the calls that act on a core. -/
inductive QsCall (β : Type) where
  | create (gid : Bytes β) (ep : UInt64) (flags aeadId : UInt8) (attr : Bytes β) (caps : CoreCaps)
  | entry (e : QsEntry β)

namespace QsCall

variable [KrMlDsa β] [Sodium β] [JoinKem β]

/-- What a call runs. -/
def run [KrKeygen β] (c : QsCustodian β) : QsCall β → QsC β Unit
  | create gid ep flags aeadId attr caps =>
    QsEntry.void (gyCustodianQsgroupCreate c gid ep flags aeadId attr caps)
  | entry e => e.run c

/-- The group a call is about. -/
def gid (desc : SuiteDesc β) : QsCall β → Bytes β
  | create gid _ _ _ _ _ => gid
  | entry e => bundleGid desc e.bundle

/-- The record of its group that a call writes outright. -/
def written : QsCall β → Option QRecKind
  | create .. => some .groupKey
  | entry (.joinViaLink ..) => some .groupKey
  | entry (.toggleJoinLink ..) => some .joinLink
  | entry _ => none

/-- The calls that rotate the group key whenever they succeed. -/
def rotates : QsCall β → Bool
  | entry (.removeMember ..) => true
  | entry (.rotateGroupKey ..) => true
  | entry (.revokeInvitation ..) => true
  | _ => false

/-- The join over a link. -/
def joins : QsCall β → Bool
  | entry (.joinViaLink ..) => true
  | _ => false

/-- The invite queue that a call drains decodes, and has a buffer of its own length. -/
def QueueFits (desc : SuiteDesc β) : QsCall β → Prop
  | entry (.consolidate _ inp queueCap _) => ∀ n ∈ queueCap, inp.inviteQueue.length ≤ n
  | entry (.revokeInvitation _ curQueue _ queueCap _) =>
    (∃ es, gyQspgsInviteQueueDecode desc curQueue = .ok es) ∧ curQueue.length ≤ queueCap
  | _ => True

end QsCall

/-- The primitives behind an invite key do not fail. -/
structure JoinTotal [KrMlDsa β] [JoinKem β] (desc : SuiteDesc β) : Prop extends QsTotal desc where
  curve : desc.curveType = 32 ∨ desc.curveType = 56
  base : ∀ sk b, joinBase desc = .ok b → ∃ pk, desc.dh sk b = .ok pk
  keypair : ∀ seed, ∃ p, JoinKem.keypairDerand desc seed = .ok p

omit [DecidableEq β] in
/-- The join keys of a group key are derived. -/
theorem JoinTotal.joinDerive [KrMlDsa β] [JoinKem β] {desc : SuiteDesc β} (h : JoinTotal desc)
    (gk : Bytes β) : ∃ p, gyQspgsJoinDerive desc gk = .ok p := by
  have hbase : ∃ b, joinBase desc = .ok b := by
    unfold joinBase
    rcases h.curve with hcurve | hcurve
    · exact ⟨_, if_pos hcurve⟩
    · exact ⟨_, (if_neg (by rw [hcurve]; decide)).trans (if_pos hcurve)⟩
  have hkdf : ∀ d key info n, ∃ out, qspgsKdf desc d key info n = .ok out := by
    intro d key info n
    obtain ⟨prk, hprk⟩ := h.extract d key
    obtain ⟨out, hout⟩ := h.expand n prk info
    exact ⟨out, by rw [qspgsKdf, hprk, Except.ok_bind, hout]⟩
  obtain ⟨b, hb⟩ := hbase
  obtain ⟨ec, hec⟩ := h.info (show "qspgs-join-ec".length ≤ 16 by decide)
  obtain ⟨sk, hsk⟩ := hkdf ec gk ec desc.curveSkLen
  obtain ⟨pk, hpk⟩ := h.base sk b hb
  obtain ⟨kem, hkem⟩ := h.info (show "qspgs-join-mlkem".length ≤ 16 by decide)
  obtain ⟨seed, hseed⟩ := hkdf kem gk kem 64
  obtain ⟨p, hp⟩ := h.keypair seed
  refine ⟨(⟨pk, p.1⟩, ⟨sk, p.2⟩), ?_⟩
  rw [gyQspgsJoinDerive, if_neg h.suite, hb, Except.ok_bind, hec, Except.ok_bind, hsk,
    Except.ok_bind, hpk, Except.ok_bind, hkem, Except.ok_bind, hseed, Except.ok_bind, hp,
    Except.ok_bind]
  rfl

section Calls

variable [KrMlDsa β] [Sodium β] [JoinKem β] [KrKeygen β] {c : QsCustodian β} {w : QsWorld β}

omit [Octet β] [KrMlDsa β] [Sodium β] [JoinKem β] [KrKeygen β] in
/-- The result of an entry point plays no part in its safety. -/
theorem Safe.void {α : Type} {gid : Bytes β} {written : Option QRecKind} {rotates : Bool}
    {x : QsC β α} (h : Safe gid written rotates x w) :
    Safe gid written rotates (QsEntry.void x) w :=
  h.bind_of_ok fun _ _ _ => ⟨(), rfl⟩

omit [Octet β] [KrMlDsa β] [Sodium β] [JoinKem β] [KrKeygen β] in
/-- Nor does it in what is recovered. -/
theorem Recovers.void {α : Type} {gid : Bytes β} {written : Option QRecKind} {x : QsC β α}
    (h : Recovers gid written x w) : Recovers gid written (QsEntry.void x) w := by
  intro b w'' hrun
  obtain ⟨a, w', hx, hpure⟩ := Cmd.bind_eq_ok_iff.1 hrun
  obtain ⟨-, rfl⟩ := Prod.ext_iff.1 hpure
  exact h a _ hx

omit [Octet β] [DecidableEq β] [KrMlDsa β] [Sodium β] [JoinKem β] [KrKeygen β] in
/-- What a call returns is dropped. -/
theorem void_apply_of_ok {α : Type} {x : QsC β α} {w' : QsWorld β} {a : α}
    (h : x w = (.ok a, w')) : QsEntry.void x w = (.ok (), w') :=
  Cmd.bind_apply_of_ok h

/-- Every call but the join over a link is safe, if the queue it drains fits. -/
theorem safe_call (x : QsCall β) (hdesc : JoinTotal c.desc) (hb : w.Benign)
    (hqueue : x.QueueFits c.desc) (hjoin : x.joins = false) :
    Safe (x.gid c.desc) x.written x.rotates (x.run c) w := by
  have hinert : ∀ {α : Type} {y : QsC β α}, Inert y →
      Safe (x.gid c.desc) none false (QsEntry.void y) w := fun hy =>
    Safe.of_inert (hy.bind fun _ => Cmd.keeps_pure _) hb
  rcases x with _ | e
  · exact (safe_create _ _ _ _ _ _ hb).void
  · cases e with
    | fetch ans prior accts caps => exact hinert (inert_fetch _ _ _ _)
    | addMember cur newUid caps => exact hinert (inert_addMember _ _ _)
    | setAdmin cur targetUid admin caps => exact hinert (inert_setAdmin _ _ _ _)
    | removeMember cur targetUid caps => exact (safe_removeMember _ _ _ hb).void
    | rotateGroupKey cur caps => exact (safe_rotateGroupKey _ _ hb).void
    | invite cur inviteeUid acct gkprimeCap caps => exact hinert (inert_invite _ _ _ _ _)
    | completeInvitation cur inviteeUid inviteeUk caps =>
      exact hinert (inert_completeInvitation _ _ _ _)
    | revokeInvitation cur curQueue targetUid queueCap caps =>
      exact (safe_revokeInvitation _ _ _ _ _ hdesc.joinDerive hqueue.1 hqueue.2 hb).void
    | consolidate cur inp queueCap caps => exact (safe_consolidate _ _ _ _ hqueue hb).void
    | changeSettings cur flags attr caps => exact hinert (inert_changeSettings _ _ _ _)
    | toggleJoinLink cur caps => exact (safe_toggleJoinLink _ _ hb).void
    | appendixLeave cur vmin lineCap =>
      exact hinert ((inert_appendixPrepare cur).bind fun _ => inert_frameLine _ _ _ _ _ _ _ _)
    | appendixRefresh cur vmin ep lineCap =>
      refine hinert ((inert_appendixPrepare cur).bind fun l => ?_)
      refine (inert_mukLoad _ _).bind fun muk => (Cmd.keeps_lift _).bind fun uk => ?_
      exact (inert_fieldSeal _ _ _ _ _ _).bind fun _ => inert_frameLine _ _ _ _ _ _ _ _
    | appendixModAttr cur vmin attr lineCap =>
      refine hinert ((inert_appendixPrepare cur).bind fun l => ?_)
      exact (inert_fieldSeal _ _ _ _ _ _).bind fun _ => inert_frameLine _ _ _ _ _ _ _ _
    | appendixAddUser cur vmin newUid newUk lineCap hashCap =>
      refine hinert ((inert_appendixPrepare cur).bind fun l => .ite (Cmd.keeps_fail _) ?_)
      refine (inert_acquaintanceLoad _).bind fun a => (Cmd.keeps_lift _).bind fun h => ?_
      refine (inert_gyRandomBytes _).bind fun rc => (Cmd.keeps_lift _).bind fun cuid => ?_
      refine (inert_memberCtSealForm _ _ _ _ _).bind fun ct => ?_
      refine (inert_frameLine _ _ _ _ _ _ _ _).bind fun line => ?_
      exact .ite (Cmd.keeps_fail _) (Cmd.keeps_pure _)
    | joinViaLink cur linkSecret ep signerAcct ukCap lineCap => cases hjoin

/-- A call that fails leaves every key as it was. The changes of one that succeeds are undone by a
rollback, but for the key or link secret that creating a group, joining over a link and toggling a
link write outright; a call that need not rotate the key is to find none staged for this, since a
rollback would drop that one too. Two kinds of failure stand apart: that of a join over a link, and
that of draining a queue which does not decode or does not fit. -/
theorem stored_keys_recover (x : QsCall β) (hdesc : JoinTotal c.desc) (hb : w.Benign)
    (hqueue : x.QueueFits c.desc) :
    (x.joins = false → Atomic (x.run c) w) ∧
      (x.rotates = true ∨ w.store.recs .groupKeyPending (x.gid c.desc) = [] →
        Recovers (x.gid c.desc) x.written (x.run c) w) := by
  refine ⟨fun hjoin => (safe_call x hdesc hb hqueue hjoin).atomic, fun hpend => ?_⟩
  by_cases hjoin : x.joins = false
  · exact (safe_call x hdesc hb hqueue hjoin).recover hpend
  · rcases x with _ | e
    · exact absurd rfl hjoin
    · cases e <;> first | exact absurd rfl hjoin | skip
      next cur linkSecret ep signerAcct ukCap lineCap =>
      have hunstaged := hpend.resolve_left Bool.false_ne_true
      exact (recovers_joinViaLink cur linkSecret ep signerAcct ukCap lineCap hb hunstaged).void

end Calls

namespace Sample

open Geryon.Sym

/-- No primitive of the symbolic suite fails. -/
theorem joinTotal : JoinTotal qsSuite where
  toQsTotal := qsTotal
  curve := .inl rfl
  base sk b hb := by
    obtain rfl := Except.ok.inj hb
    refine ⟨prim 61 sk 32, ?_⟩
    show qsDh sk (Sym.byte 9 :: zeros 31) = _
    unfold qsDh
    split
    · next h => cases h
    · next h => cases h
    · rfl
    · simp_all
  keypair seed := ⟨_, rfl⟩

/-- The call that removes user 1 from the pair. -/
def removeSecond : QsCall Sym :=
  .entry (.removeMember (bundle pairCore (gk 0) 0 0) (uid 1) roomy)

/-- The removal of the second member succeeds and leaves a staged key. -/
theorem run_removeSecond : ∃ w', removeSecond.run (custodian 0) (world (recs 0 (gk 0))) =
    (.ok (), w') ∧ w'.store.recs .groupKeyPending gid ≠ [] := by
  obtain ⟨next, w', hrun, hstaged⟩ := removeMember_pair
  exact ⟨w', void_apply_of_ok hrun, hstaged⟩

/-- It is an edit of the sample group. -/
theorem gid_removeSecond : removeSecond.gid qsSuite = gid := by
  show bundleGid qsSuite (bundle pairCore (gk 0) 0 0) = gid
  rw [bundleGid, decodeBundle_bundle pairCore_wf]
  rfl

/-- Removing a member stages a key, and a rollback brings back every key as it was. -/
theorem stored_keys_recover_removeSecond : ∃ w',
    removeSecond.run (custodian 0) (world (recs 0 (gk 0))) = (.ok (), w') ∧
      w'.store.recs .groupKeyPending gid ≠ [] ∧ ∀ kind id, kind.isKey = true →
        rolledBack gid w'.store.recs kind id = recs 0 (gk 0) kind id := by
  obtain ⟨w', hrun, hstaged⟩ := run_removeSecond
  have hrecover := (stored_keys_recover (c := custodian 0) (w := world (recs 0 (gk 0)))
    removeSecond joinTotal (fun f hf => by cases hf) trivial).2 (.inl rfl) () w' hrun
  refine ⟨w', hrun, hstaged, fun kind id hkind => ?_⟩
  have hback := hrecover kind id hkind (fun hwritten => by cases hwritten)
  rwa [custodian_desc, gid_removeSecond] at hback

/-- The secret of a join link. -/
def jls : Bytes Sym := prim 46 [] 32

/-- The slot of the join link of a group. -/
def joinSlot (gk : Bytes Sym) : Bytes Sym :=
  field (kdf (domain "qspgs-joinlink") jls (domain "qspgs-joinlink") 32) .joinSlot (gk ++ fet gk) 9

/-- The first version of a group of one admin, with an open join link. -/
def linkCore : QspgsCore Sym := core (gk 0) 1 0 [Sym.byte 0] (joinSlot (gk 0)) [⟨0, true, false⟩]

/-- The records of the admin, who holds the secret of the link. -/
def linkRecs : QsRecords Sym := (recs 0 (gk 0)).set .joinLink gid (putHdr ++ jls)

/-- The call that closes the link. -/
def closeLink : QsCall Sym := .entry (.toggleJoinLink (bundle linkCore (gk 0) 0 0) roomy)

/-- The join slot of the sample group has the size its parser expects. -/
theorem length_joinSlot : (joinSlot (gk 0)).length = 92 := by
  have hfet : (fet (gk 0)).length = 32 := length_prim _ _ _
  rw [joinSlot, length_field, List.length_append, length_gk, hfet]

/-- The core with the join link is well formed. -/
theorem linkCore_wf : linkCore.Wf qsSuite :=
  core_wf (by decide) (by rw [length_joinSlot]; decide) (by decide)

/-- The store that holds the link secret knows the group key. -/
theorem knows_linkRecs : Knows 0 (gk 0) (world linkRecs) where
  quiet := rfl
  base := by simp [world, linkRecs, QsRecords.set, recs]
  staged := by simp [world, linkRecs, QsRecords.set, recs]
  current := by simp [world, linkRecs, QsRecords.set, recs]
  known n := by simp [world, linkRecs, QsRecords.set, recs, keyNum_uid]

/-- Closing the link is an edit of the sample group. -/
theorem gid_closeLink : closeLink.gid qsSuite = gid := by
  show bundleGid qsSuite (bundle linkCore (gk 0) 0 0) = gid
  rw [bundleGid, decodeBundle_bundle linkCore_wf]
  rfl

/-- Nothing is staged for the admin of the group. -/
theorem unstaged_linkRecs : (world linkRecs).store.recs .groupKeyPending
    (closeLink.gid qsSuite) = [] := by
  rw [gid_closeLink]
  exact knows_linkRecs.staged

/-- Closing the link succeeds and removes its secret. -/
theorem run_closeLink : ∃ w', closeLink.run (custodian 0) (world linkRecs) = (.ok (), w') ∧
    w'.store.recs .joinLink gid = [] := by
  have hnext : (core (gk 0) 2 0 [Sym.byte 0] [] [⟨0, true, false⟩]).Wf qsSuite :=
    core_wf (by decide) (by decide) (by decide)
  have hmct : ∀ m ∈ (core (gk 0) 2 0 [Sym.byte 0] [] [⟨0, true, false⟩]).members,
      m.mct.length ≤ 512 := by
    intro m hm
    obtain ⟨l, -, rfl⟩ := List.mem_map.1 hm
    exact l.length_mct (gk 0)
  have hbegin := knows_linkRecs.editBegin (i := 0) (l := ⟨0, true, false⟩) ⟨0, true, false⟩
    (length_gk 0) linkCore_wf rfl rfl
  have hemit := emitEdited_eq (w := world linkRecs) rfl hnext hmct (le_refl _) (gk 0) 0 0
    (roomy_hold hnext hmct (le_refl _) (by simp [core, length_field]) (by simp [core])
      (by simp [core]))
  have hrun := toggleJoinLink_closes hbegin
    (show (joinSlot (gk 0)).length ≠ 0 by rw [length_joinSlot]; decide) hemit rfl
  have hset : ∀ r : QsRecords Sym, r.set .joinLink gid [] .joinLink gid = [] :=
    fun r => if_pos ⟨rfl, rfl⟩
  exact ⟨_, void_apply_of_ok hrun, hset linkRecs⟩

/-- Closing a join link removes its secret before the server has taken the new core, and a rollback
does not bring it back. -/
theorem link_secret_lost : ¬ ∀ (x : QsCall Sym) (c : QsCustodian Sym) (w w' : QsWorld Sym),
    w.store.faults = [] → w.store.recs .groupKeyPending (x.gid c.desc) = [] →
      x.run c w = (.ok (), w') → ∀ kind id, kind.isKey = true →
        rolledBack (x.gid c.desc) w'.store.recs kind id = w.store.recs kind id := by
  intro hclaim
  obtain ⟨w', hrun, hgone⟩ := run_closeLink
  have hkept := hclaim closeLink (custodian 0) (world linkRecs) w' rfl unstaged_linkRecs hrun
    .joinLink gid rfl
  have hback : rolledBack (closeLink.gid (custodian 0).desc) w'.store.recs .joinLink gid = [] :=
    hgone
  have hstood : (world linkRecs).store.recs .joinLink gid = putHdr ++ jls := by
    simp [world, linkRecs, QsRecords.set]
  rw [hback, hstood] at hkept
  cases hkept

end Sample

end Geryon
