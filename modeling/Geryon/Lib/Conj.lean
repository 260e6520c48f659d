import Mathlib.Algebra.BigOperators.Group.List.Basic
import Mathlib.Algebra.Module.Basic
import Mathlib.Data.Fintype.Basic

/-!
# Conjunctions of linear equations and their proofs

A conjunction is a list of equations `P = ∑ wᵢ • Gᵢ` over one family of secret scalars `w`, the
statement that a generalised Schnorr proof is about. A proof system for conjunctions is a parameter
of everything that uses one; completeness and binding to the statement are properties of it.
-/

namespace Geryon

/-- One equation: a target and the bases it is a combination of, each with the index of its
scalar. -/
structure ConjEq (k : Nat) (P : Type) where
  terms : List (Fin k × P)
  target : P
  deriving DecidableEq

/-- Equations over `k` shared scalars. -/
abbrev Conj (k : Nat) (P : Type) := List (ConjEq k P)

section Holds

variable {S P : Type} [Semiring S] [AddCommMonoid P] [Module S P] {k : Nat}

/-- The scalars solve an equation. -/
def ConjEq.Holds (e : ConjEq k P) (w : Fin k → S) : Prop :=
  e.target = (e.terms.map fun t => w t.1 • t.2).sum

/-- The scalars solve every equation. -/
def Conj.Holds (st : Conj k P) (w : Fin k → S) : Prop := ∀ e ∈ st, e.Holds w

instance [DecidableEq P] (e : ConjEq k P) (w : Fin k → S) : Decidable (e.Holds w) :=
  inferInstanceAs (Decidable (_ = _))

instance [DecidableEq P] (st : Conj k P) (w : Fin k → S) : Decidable (Conj.Holds st w) :=
  inferInstanceAs (Decidable (∀ e ∈ st, e.Holds w))

/-- An equation holds when its target is the sum of its terms. -/
theorem ConjEq.holds_iff (terms : List (Fin k × P)) (target : P) (w : Fin k → S) :
    (ConjEq.mk terms target).Holds w ↔ target = (terms.map fun t => w t.1 • t.2).sum := Iff.rfl

/-- The empty conjunction holds. -/
@[simp] theorem Conj.holds_nil (w : Fin k → S) : Conj.Holds ([] : Conj k P) w ↔ True := by
  simp [Conj.Holds]

/-- A conjunction holds when its first equation and the rest do. -/
@[simp] theorem Conj.holds_cons (e : ConjEq k P) (st : Conj k P) (w : Fin k → S) :
    Conj.Holds (e :: st) w ↔ e.Holds w ∧ Conj.Holds st w := List.forall_mem_cons

end Holds

/-- A proof system for conjunctions. A proof is made under an identity and a label, from nonces. -/
structure ConjNizk (S P β π : Type) where
  prove {k : Nat} (st : Conj k P) (w : Fin k → S) (userId otherInfo : List β) (nonces : Nat → S) :
    Option π
  verify {k : Nat} (proof : π) (st : Conj k P) (userId otherInfo : List β) : Bool

namespace ConjNizk

variable {S P β π : Type} [Semiring S] [AddCommMonoid P] [Module S P]

/-- A proof of a solved conjunction can be made and is accepted. -/
def Complete (N : ConjNizk S P β π) : Prop :=
  ∀ {k : Nat} (st : Conj k P) (w : Fin k → S) (userId otherInfo : List β) (nonces : Nat → S),
    st.Holds w → ∃ p, N.prove st w userId otherInfo nonces = some p ∧
      N.verify p st userId otherInfo = true

/-- A proof that was made for a conjunction is accepted for no other. -/
def Binds (N : ConjNizk S P β π) : Prop :=
  ∀ {k : Nat} {st st' : Conj k P} {w : Fin k → S} {userId otherInfo : List β} {nonces : Nat → S}
    {p : π}, N.prove st w userId otherInfo nonces = some p →
      N.verify p st' userId otherInfo = true → st = st'

end ConjNizk

/-! ## The ideal proof system -/

/-- A proof that names what it was made for and whether the scalars solved it. -/
structure IdealProof (P β : Type) where
  k : Nat
  st : Conj k P
  userId : List β
  otherInfo : List β
  good : Bool

/-- The ideal proof system. -/
def idealNizk (S P β : Type) [Semiring S] [AddCommMonoid P] [Module S P] [DecidableEq P]
    [DecidableEq β] : ConjNizk S P β (IdealProof P β) where
  prove st w userId otherInfo _ := some ⟨_, st, userId, otherInfo, decide (st.Holds w)⟩
  verify {k} p st userId otherInfo :=
    p.good && decide (p.userId = userId ∧ p.otherInfo = otherInfo) &&
      if h : p.k = k then decide (h ▸ p.st = st) else false

section Ideal

variable {S P β : Type} [Semiring S] [AddCommMonoid P] [Module S P] [DecidableEq P] [DecidableEq β]

/-- The ideal proof system proves what holds. -/
theorem idealNizk_complete : (idealNizk S P β).Complete := by
  intro k st w userId otherInfo nonces h
  refine ⟨_, rfl, ?_⟩
  simp [idealNizk, h]

end Ideal

end Geryon
