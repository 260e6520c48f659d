import Geryon.Ratchet.Double
import Geryon.Ratchet.Hybrid

/-!
# What a ratchet step does to the receiving side

The two engines ratchet with different keys, but they treat the receiving side alike: a step never
touches the skipped keys, and one that succeeds has taken up a new receiving chain at number zero
under the next header key, and has derived a new next header key on the way from the old root key to
the new one. `Engine.Shape` collects this for the results that hold of both.

## Main results

* `shape_classical`, `shape_hybrid`: both engines have this shape.
-/

namespace Geryon

variable {β : Type} [Octet β]

/-- The root key `rk'` comes from `rk` by `k` root derivations. -/
inductive KdfPath (desc : SuiteDesc β) (rk : Bytes β) : Nat → Bytes β → Prop where
  | refl : KdfPath desc rk 0 rk
  | step {k : Nat} {rk' ikm : Bytes β} {r : RootKeys β} (h : KdfPath desc rk k rk')
      (hr : gyDrcKdfRk desc rk' ikm = .ok r) : KdfPath desc rk (k + 1) r.rk

/-- Paths of root derivations compose. -/
theorem KdfPath.trans {desc : SuiteDesc β} {rk rk' rk'' : Bytes β} {j k : Nat}
    (h : KdfPath desc rk j rk') (h' : KdfPath desc rk' k rk'') : KdfPath desc rk (j + k) rk'' := by
  induction h' with
  | refl => exact h
  | step _ hr ih => exact ih.step hr

/-- The receiving side as a ratchet step leaves it: skipped keys, number, header key and whether
there is a chain. -/
def DrState.recvView (b : DrState β) : SkipStore β × UInt32 × Bytes β × Bool :=
  (b.skipped, b.nr, b.hkr, b.haveCkr)

/-- The receiving side and its next header key are the same before and after; the root key may have
moved on. -/
structure Onward (desc : SuiteDesc β) (b b' : DrState β) : Prop where
  view : b'.recvView = b.recvView
  nhkr : b'.nhkr = b.nhkr
  root : ∃ k, KdfPath desc b.rk k b'.rk

instance (desc : SuiteDesc β) : IsPreorder (DrState β) (Onward desc) where
  refl _ := ⟨rfl, rfl, 0, .refl⟩
  trans b b' b'' h h' := by
    obtain ⟨j, hj⟩ := h.root
    obtain ⟨k, hk⟩ := h'.root
    exact ⟨h'.view.trans h.view, h'.nhkr.trans h.nhkr, j + k, hj.trans hk⟩

/-- The next header key of `b'` was derived on the way from the root key of `b` to its own. -/
def Rerooted (desc : SuiteDesc β) (b b' : DrState β) : Prop :=
  ∃ j rk ikm r k, KdfPath desc b.rk j rk ∧ gyDrcKdfRk desc rk ikm = .ok r ∧ b'.nhkr = r.nhk ∧
    KdfPath desc r.rk k b'.rk

/-- A rerooted state stays one when it goes on. -/
theorem Rerooted.onward {desc : SuiteDesc β} {b b' b'' : DrState β} (h : Rerooted desc b b')
    (h' : Onward desc b' b'') : Rerooted desc b b'' := by
  obtain ⟨j, rk, ikm, r, k, hj, hr, hnhk, hk⟩ := h
  obtain ⟨k', hk'⟩ := h'.root
  exact ⟨j, rk, ikm, r, k + k', hj, hr, h'.nhkr.trans hnhk, hk.trans hk'⟩

section Steps

open Cmd

variable (desc : SuiteDesc β)

omit [Octet β] in
/-- The DH of a ratchet step changes nothing. -/
theorem keeps_ratchetDh {R : DrState β → DrState β → Prop} [IsPreorder (DrState β) R] :
    Keeps R (ratchetDh desc) := keeps_get.bind fun _ => keeps_lift _

/-- The sending half of a ratchet step derives the root once. -/
theorem keeps_sendRoot (ikm : Bytes β) : Keeps (Onward desc) (sendRoot desc ikm) := by
  intro b
  rw [sendRoot, get_bind_apply]
  cases hr : gyDrcKdfRk desc b.rk ikm with
  | error e => exact ⟨rfl, rfl, 0, .refl⟩
  | ok r => exact ⟨rfl, rfl, 1, KdfPath.refl.step hr⟩

/-- The receiving half leaves the skipped keys. -/
theorem keeps_recvRoot (ikm : Bytes β) :
    Keeps (SameBy DrState.skipped) (recvRoot desc ikm) := by
  refine keeps_get.bind fun st => (keeps_lift _).bind fun r => ?_
  exact keeps_modify fun _ => rfl

/-- A root derivation that succeeds has filled the receiving chain, derived the next header key, and
left the chain's number and header key and the skipped keys. -/
theorem recvRoot_ok {ikm : Bytes β} {b b' : DrState β} (h : recvRoot desc ikm b = (.ok (), b')) :
    b'.recvView = (b.skipped, b.nr, b.hkr, true) ∧ Rerooted desc b b' := by
  rw [recvRoot, get_bind_apply] at h
  obtain ⟨r, hr, h⟩ := lift_bind_eq_ok_iff.1 h
  obtain ⟨-, rfl⟩ := Prod.mk.inj h
  exact ⟨rfl, 0, b.rk, ikm, r, 0, .refl, hr, rfl, .refl⟩

/-- Rotating the sending header key leaves the rest. -/
theorem keeps_rotateHks : Keeps (Onward desc) (rotateHks (β := β)) :=
  fun _ => ⟨rfl, rfl, 0, .refl⟩

omit [Octet β] in
/-- Rotating the receiving one leaves the skipped keys. -/
theorem keeps_rotateHkr : Keeps (SameBy DrState.skipped) (rotateHkr (β := β)) := fun _ => rfl

omit [Octet β] in
/-- So does beginning an epoch. -/
theorem keeps_startEpoch (pk : Bytes β) : Keeps (SameBy DrState.skipped) (startEpoch pk) :=
  fun _ => rfl

/-! ### The classical step -/

/-- The new curve pair and the sending half of a classical ratchet step. -/
theorem keeps_sendHalf (kp : Except GyErr (Keypair β)) :
    Keeps (Onward desc) (do
      let kp ← Cmd.lift kp
      Cmd.modify fun st : DrState β => { st with dhs := kp }
      rotateHks
      let dh ← ratchetDh desc
      sendRoot desc dh) := by
  refine (keeps_lift _).bind fun kp => ?_
  refine Keeps.bind (fun _ => ⟨rfl, rfl, 0, .refl⟩) fun _ => (keeps_rotateHks desc).bind fun _ => ?_
  exact (keeps_ratchetDh desc).bind fun dh => keeps_sendRoot desc dh

/-- A classical ratchet step never touches the skipped keys. -/
theorem keeps_dhRatchet (rnd : RatchetRand β) (pk : Bytes β) :
    Keeps (SameBy DrState.skipped) (dhRatchet desc rnd pk) := by
  refine (keeps_startEpoch pk).bind fun _ => keeps_rotateHkr.bind fun _ => ?_
  refine (keeps_ratchetDh desc).bind fun dh => (keeps_recvRoot desc dh).bind fun _ => ?_
  exact fun s => congrArg Prod.fst (keeps_sendHalf desc rnd.curve s).view

/-- A classical ratchet step that succeeds has moved the receiving side to a new chain at number
zero, under the next header key. -/
theorem dhRatchet_ok {rnd : RatchetRand β} {pk : Bytes β} {b b' : DrState β}
    (h : dhRatchet desc rnd pk b = (.ok (), b')) :
    b'.recvView = (b.skipped, 0, b.nhkr, true) ∧ Rerooted desc b b' := by
  obtain ⟨_, b₁, hstart, h⟩ := bind_eq_ok_iff.1 h
  obtain ⟨-, rfl⟩ := Prod.mk.inj hstart
  obtain ⟨_, b₂, hrot, h⟩ := bind_eq_ok_iff.1 h
  obtain ⟨-, rfl⟩ := Prod.mk.inj hrot
  obtain ⟨dh, b₃, hdh, h⟩ := bind_eq_ok_iff.1 h
  obtain ⟨_, b₄, hroot, h⟩ := bind_eq_ok_iff.1 h
  -- the DH leaves the state, and what comes after the receiving root leaves the receiving side
  have hsame := (keeps_ratchetDh desc (R := Eq)).of_apply hdh
  rw [← hsame] at hroot
  obtain ⟨hview, hre⟩ := recvRoot_ok desc hroot
  have hsend := (keeps_sendHalf desc rnd.curve).of_apply h
  exact ⟨hsend.view.trans hview, hre.onward hsend⟩

/-! ### The hybrid step -/

/-- The receiving side of a hybrid session moves on like its classical part. -/
def HybridState.Onward (desc : SuiteDesc β) (s s' : HybridState β) : Prop :=
  Geryon.Onward desc s.base s'.base

instance (desc : SuiteDesc β) : IsPreorder (HybridState β) (HybridState.Onward desc) where
  refl s := Std.Refl.refl s.base
  trans s s' s'' h h' := IsTrans.trans s.base s'.base s''.base h h'

omit [Octet β] in
/-- A command on the classical part relates the classical parts. -/
theorem keeps_onBase {R : DrState β → DrState β → Prop} {α : Type} {c : Cmd GyErr (DrState β) α}
    (h : Keeps R c) : Keeps (fun s s' => R s.base s'.base) (onBase c) := fun s => h s.base

omit [Octet β] in
/-- Caching the peer's KEM key leaves the classical part. -/
theorem keeps_cacheRemoteEk (hd : DrHybridHeader β) :
    Keeps (SameBy HybridState.base) (cacheRemoteEk hd) := by
  refine keeps_get.bind fun st => ?_
  refine Keeps.ite (fun _ => rfl) ?_
  exact Keeps.ite (keeps_fail _) (keeps_pure _)

/-- A change outside the classical part, or of its own pair, is no change of the receiving side. -/
theorem onward_of_base {s s' : HybridState β} {kp : Keypair β}
    (h : s'.base = s.base ∨ s'.base = { s.base with dhs := kp }) : s.Onward desc s' := by
  rw [HybridState.Onward]
  rcases h with h | h
  · rw [h]
    exact Std.Refl.refl _
  · rw [h]
    exact ⟨rfl, rfl, 0, .refl⟩

/-- Refreshing the KEM pair goes onward. -/
theorem keeps_hybridRefresh (rnd : RatchetRand β) :
    Keeps (HybridState.Onward desc) (hybridRefresh rnd) := by
  have hsame : ∀ s s' : HybridState β, s'.base = s.base → s.Onward desc s' := fun s s' h =>
    onward_of_base desc (Or.inl h : _ ∨ s'.base = { s.base with dhs := ⟨[], []⟩ })
  refine Keeps.bind (fun _ => hsame _ _ rfl) fun _ => keeps_get.bind fun st => ?_
  -- both branches end in the new curve pair
  have hpair : ∀ regen : Bool, Keeps (HybridState.Onward desc) (do
      let kp ← Cmd.lift rnd.curve
      Cmd.modify fun st : HybridState β => { st with base := { st.base with dhs := kp } }
      return regen) :=
    fun _ => (keeps_lift _).bind fun kp =>
      Keeps.bind (fun _ => onward_of_base desc (.inr rfl)) fun _ => keeps_pure _
  refine Keeps.ite ?_ ((keeps_pure _).bind hpair)
  exact (keeps_lift _).bind fun r =>
    Keeps.bind (fun _ => hsame _ _ rfl) fun _ => (keeps_pure _).bind hpair

/-- So does the sending half of the hybrid step. -/
theorem keeps_hybridSendStep (rnd : RatchetRand β) :
    Keeps (HybridState.Onward desc) (hybridSendStep desc rnd) := by
  have hsame : ∀ s s' : HybridState β, s'.base = s.base → s.Onward desc s' := fun s s' h =>
    onward_of_base desc (Or.inl h : _ ∨ s'.base = { s.base with dhs := ⟨[], []⟩ })
  refine Keeps.bind (keeps_onBase (keeps_rotateHks desc)) fun _ => keeps_get.bind fun st => ?_
  refine (keeps_lift _).bind fun r => Keeps.bind (fun _ => hsame _ _ rfl) fun _ => ?_
  have htail : ∀ cs : Option (Bytes β), Keeps (HybridState.Onward desc) (do
      let dh ← onBase (ratchetDh desc)
      let hdh ← Cmd.lift (hybridMix desc cs r.2 dh)
      onBase (sendRoot desc hdh)
      return st.confirmPending) := fun cs =>
    Keeps.bind (keeps_onBase (keeps_ratchetDh desc)) fun dh => (keeps_lift _).bind fun hdh =>
      Keeps.bind (keeps_onBase (keeps_sendRoot desc hdh)) fun _ => keeps_pure _
  refine Keeps.ite ?_ ((keeps_pure _).bind htail)
  exact (keeps_lift _).bind fun c =>
    Keeps.bind (fun _ => hsame _ _ rfl) fun _ => (keeps_pure _).bind htail

/-- The bookkeeping after a step leaves the classical part. -/
theorem keeps_hybridTransition (regen sendConfirm recvConfirm wasSent : Bool) :
    Keeps (SameBy HybridState.base)
      (hybridTransition (β := β) regen sendConfirm recvConfirm wasSent) := by
  refine Keeps.bind (fun _ => rfl) fun _ => Keeps.bind (fun st => ?_) fun _ =>
    Keeps.bind (fun st => ?_) fun _ => fun st => ?_
  · cases sendConfirm <;> rfl
  · cases recvConfirm <;> rfl
  · show HybridState.base (if _ then _ else _) = _
    split <;> rfl

/-- The skipped keys of a hybrid session. -/
def HybridState.skipped (s : HybridState β) : SkipStore β := s.base.skipped

/-- The receiving half of the hybrid step leaves the skipped keys. -/
theorem keeps_hybridRecvStep (confirm : Bool) (hd : DrHybridHeader β) :
    Keeps (SameBy HybridState.skipped) (hybridRecvStep desc confirm hd) := by
  refine Keeps.bind (keeps_onBase keeps_rotateHkr) fun _ => keeps_get.bind fun st => ?_
  refine (keeps_lift _).bind fun kemSs => ?_
  refine Keeps.bind (keeps_onBase (keeps_ratchetDh desc (R := SameBy DrState.skipped))) fun dh => ?_
  have htail : ∀ cs : Option (Bytes β), Keeps (SameBy HybridState.skipped) (do
      let hdh ← Cmd.lift (hybridMix desc cs kemSs dh)
      onBase (recvRoot desc hdh)) := fun cs =>
    (keeps_lift _).bind fun hdh => keeps_onBase (keeps_recvRoot desc hdh)
  refine Keeps.ite ?_ ((keeps_pure _).bind htail)
  exact ((keeps_lift _).bind fun c => keeps_pure _).bind htail

/-- The receiving half of a hybrid step that succeeds is a root derivation on the next header key's
chain. -/
theorem hybridRecvStep_ok {confirm : Bool} {hd : DrHybridHeader β} {s s' : HybridState β}
    (h : hybridRecvStep desc confirm hd s = (.ok (), s')) :
    ∃ ikm, recvRoot desc ikm (rotateHkr s.base).2 = (.ok (), s'.base) := by
  obtain ⟨_, s₁, hrot, h⟩ := bind_eq_ok_iff.1 h
  obtain ⟨-, rfl⟩ := Prod.mk.inj hrot
  rw [get_bind_apply] at h
  obtain ⟨kemSs, -, h⟩ := lift_bind_eq_ok_iff.1 h
  obtain ⟨dh, s₂, hdh, h⟩ := bind_eq_ok_iff.1 h
  have hbase : (rotateHkr s.base).2 = s₂.base :=
    Keeps.of_apply (keeps_onBase (keeps_ratchetDh desc (R := Eq))) hdh
  rw [hbase]
  -- whether or not the confirmation is mixed in, the root derivation comes last
  have htail : ∀ cs : Option (Bytes β), (do
      let hdh ← Cmd.lift (hybridMix desc cs kemSs dh)
      onBase (recvRoot desc hdh) : Cmd GyErr (HybridState β) Unit) s₂ = (.ok (), s') →
      ∃ ikm, recvRoot desc ikm s₂.base = (.ok (), s'.base) := by
    intro cs hcs
    obtain ⟨hdh', -, hcs⟩ := lift_bind_eq_ok_iff.1 hcs
    obtain ⟨hfst, hsnd⟩ := Prod.mk.inj hcs
    exact ⟨hdh', Prod.ext hfst (congrArg HybridState.base hsnd)⟩
  simp only [Cmd.ite_apply] at h
  split at h
  · obtain ⟨cs, s₃, hcs, h⟩ := bind_eq_ok_iff.1 h
    obtain ⟨c, -, hcs⟩ := lift_bind_eq_ok_iff.1 hcs
    obtain ⟨-, rfl⟩ := Prod.mk.inj hcs
    exact htail cs h
  · exact htail none h

/-- A hybrid ratchet step never touches the skipped keys. -/
theorem keeps_hybridDhRatchet (rnd : RatchetRand β) (hd : DrHybridHeader β) :
    Keeps (SameBy HybridState.skipped) (hybridDhRatchet desc rnd hd) := by
  refine keeps_get.bind fun st => (keeps_lift _).bind fun confirm => ?_
  refine Keeps.bind (keeps_onBase (keeps_startEpoch _)) fun _ => ?_
  refine Keeps.bind (fun s => congrArg DrState.skipped (keeps_cacheRemoteEk hd s)) fun _ => ?_
  refine (keeps_hybridRecvStep desc confirm hd).bind fun _ => ?_
  refine Keeps.bind (fun s => congrArg Prod.fst (keeps_hybridRefresh desc rnd s).view)
    fun regen => ?_
  refine Keeps.bind (fun s => congrArg Prod.fst (keeps_hybridSendStep desc rnd s).view)
    fun sent => ?_
  exact fun s => congrArg DrState.skipped (keeps_hybridTransition regen sent confirm _ s)

/-- A hybrid ratchet step that succeeds has moved the receiving side to a new chain at number zero,
under the next header key. -/
theorem hybridDhRatchet_ok {rnd : RatchetRand β} {hd : DrHybridHeader β} {s s' : HybridState β}
    (h : hybridDhRatchet desc rnd hd s = (.ok (), s')) :
    s'.base.recvView = (s.base.skipped, 0, s.base.nhkr, true) ∧
      Rerooted desc s.base s'.base := by
  rw [hybridDhRatchet, get_bind_apply] at h
  obtain ⟨confirm, -, h⟩ := lift_bind_eq_ok_iff.1 h
  obtain ⟨_, s₁, hstart, h⟩ := bind_eq_ok_iff.1 h
  obtain ⟨-, rfl⟩ := Prod.mk.inj hstart
  obtain ⟨_, s₂, hek, h⟩ := bind_eq_ok_iff.1 h
  obtain ⟨_, s₃, hrecv, h⟩ := bind_eq_ok_iff.1 h
  obtain ⟨regen, s₄, hfresh, h⟩ := bind_eq_ok_iff.1 h
  obtain ⟨sent, s₅, hsend, h⟩ := bind_eq_ok_iff.1 h
  have hbase : s₂.base = _ := (keeps_cacheRemoteEk hd).of_apply hek
  obtain ⟨ikm, hroot⟩ := hybridRecvStep_ok desc hrecv
  rw [hbase] at hroot
  obtain ⟨hview, hre⟩ := recvRoot_ok desc hroot
  -- what comes after the receiving root leaves the receiving side
  have hlast : s'.base = s₅.base := (keeps_hybridTransition regen sent confirm _).of_apply h
  have hon : Onward desc s₃.base s₅.base := IsTrans.trans _ _ _
    ((keeps_hybridRefresh desc rnd).of_apply hfresh)
    ((keeps_hybridSendStep desc rnd).of_apply hsend)
  rw [hlast]
  exact ⟨hon.view.trans hview, hre.onward hon⟩

end Steps

/-- What the results about receiving chains and message numbers use of an engine: how its header is
made and what its ratchet step does to the receiving side. -/
structure Engine.Shape {σ η : Type} (E : Engine β σ η) (desc : SuiteDesc β) : Prop where
  header_pk : ∀ s, E.ratchetPk (E.header s) = (E.base s).dhs.pk
  header_n : ∀ s, E.n (E.header s) = (E.base s).ns
  keeps_ratchet : ∀ rnd h, Cmd.Keeps (Cmd.SameBy fun s => (E.base s).skipped) (E.dhRatchet rnd h)
  ratchet_ok : ∀ {rnd h s s'}, E.dhRatchet rnd h s = (.ok (), s') →
    (E.base s').recvView = ((E.base s).skipped, 0, (E.base s).nhkr, true) ∧
      Rerooted desc (E.base s) (E.base s')

/-- The classical engine has the common shape. -/
theorem shape_classical (desc : SuiteDesc β) : (classical desc).Shape desc where
  header_pk _ := rfl
  header_n _ := rfl
  keeps_ratchet rnd h := keeps_dhRatchet desc rnd h.ratchetPk
  ratchet_ok h := dhRatchet_ok desc h

/-- So has the hybrid one. -/
theorem shape_hybrid (desc : SuiteDesc β) : (hybrid desc).Shape desc where
  header_pk _ := rfl
  header_n _ := rfl
  keeps_ratchet := keeps_hybridDhRatchet desc
  ratchet_ok h := hybridDhRatchet_ok desc h

end Geryon
