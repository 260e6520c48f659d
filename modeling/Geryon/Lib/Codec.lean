import Mathlib.Logic.Equiv.Defs
import Mathlib.Tactic.Common

/-!
# Fixed-width codecs

A codec writes a value as a fixed number of symbols and reads it off the front of a string. Values
that fit are read back from what was written, and what was read is written back as it stood. The
laws are closed under sequencing, under a change of representation and under repetition, so a wire
format inherits them from its fields.

## Main results

- `Codec.get_eq_iff`: a string of the codec's width is read as a value exactly if it is what is
  written for the value.
-/

/-- A writer and a reader of values of one width. -/
structure Codec (γ α : Type) where
  width : Nat
  /-- The values the writer is meant for. -/
  Fits : α → Prop
  put : α → List γ
  get : List γ → α
  length_put : ∀ {a}, Fits a → (put a).length = width
  get_put : ∀ {a} (rest : List γ), Fits a → get (put a ++ rest) = a
  fits_get : ∀ {b : List γ}, width ≤ b.length → Fits (get b)
  put_get : ∀ {b : List γ}, width ≤ b.length → put (get b) = b.take width

namespace Codec

variable {γ α τ : Type}

/-! ## Consequences of the laws -/

/-- A string of the codec's width is read as a value exactly if it is what is written for it. -/
theorem get_eq_iff (c : Codec γ α) {b : List γ} (hb : b.length = c.width) {a : α} :
    c.get b = a ↔ c.Fits a ∧ b = c.put a := by
  constructor
  · rintro rfl
    refine ⟨c.fits_get (Nat.le_of_eq hb.symm), ?_⟩
    rw [c.put_get (Nat.le_of_eq hb.symm), ← hb, List.take_length]
  · rintro ⟨ha, rfl⟩
    simpa using c.get_put [] ha

/-- What is read back stands at the front of the string. -/
theorem put_get_append (c : Codec γ α) {b : List γ} (hb : c.width ≤ b.length) :
    c.put (c.get b) ++ b.drop c.width = b := by
  rw [c.put_get hb, List.take_append_drop]

/-! ## Combinators -/

/-- Symbols as they stand. -/
def raw (n : Nat) : Codec γ (List γ) where
  width := n
  Fits a := a.length = n
  put a := a
  get b := b.take n
  length_put h := h
  get_put _ h := List.take_left' h
  fits_get h := List.length_take_of_le h
  put_get _ := rfl

/-- One value after another. -/
def pair (c : Codec γ α) (d : Codec γ τ) : Codec γ (α × τ) where
  width := c.width + d.width
  Fits a := c.Fits a.1 ∧ d.Fits a.2
  put a := c.put a.1 ++ d.put a.2
  get b := (c.get b, d.get (b.drop c.width))
  length_put h := by rw [List.length_append, c.length_put h.1, d.length_put h.2]
  get_put rest h := by
    rw [List.append_assoc, c.get_put _ h.1, List.drop_left' (c.length_put h.1), d.get_put _ h.2]
  fits_get h := ⟨c.fits_get (by omega), d.fits_get (by rw [List.length_drop]; omega)⟩
  put_get {b} h := by
    have hd : d.width ≤ (b.drop c.width).length := by rw [List.length_drop]; omega
    rw [c.put_get (by omega), d.put_get hd, List.take_add]

/-- The same symbols for another representation of the values. -/
def ofEquiv (c : Codec γ α) (e : α ≃ τ) : Codec γ τ where
  width := c.width
  Fits a := c.Fits (e.symm a)
  put a := c.put (e.symm a)
  get b := e (c.get b)
  length_put h := c.length_put h
  get_put rest h := by rw [c.get_put rest h, e.apply_symm_apply]
  fits_get h := by rw [e.symm_apply_apply]; exact c.fits_get h
  put_get h := by rw [e.symm_apply_apply, c.put_get h]

/-- The same symbols for another representation of the values that fit. -/
def ofInv (c : Codec γ α) (f : α → τ) (g : τ → α) (hg : ∀ a, c.Fits a → g (f a) = a)
    (hf : ∀ t, c.Fits (g t) → f (g t) = t) : Codec γ τ where
  width := c.width
  Fits t := c.Fits (g t)
  put t := c.put (g t)
  get b := f (c.get b)
  length_put h := c.length_put h
  get_put rest h := by rw [c.get_put rest h, hf _ h]
  fits_get h := by
    have hfits := c.fits_get h
    rwa [hg _ hfits]
  put_get h := by rw [hg _ (c.fits_get h), c.put_get h]

/-- Read `n` values in a row. -/
def getMany (c : Codec γ α) : Nat → List γ → List α
  | 0, _ => []
  | n + 1, b => c.get b :: getMany c n (b.drop c.width)

/-- As many values are read as were asked for. -/
theorem length_getMany (c : Codec γ α) (n : Nat) (b : List γ) : (c.getMany n b).length = n := by
  induction n generalizing b with
  | zero => rfl
  | succ n ih => rw [getMany, List.length_cons, ih]

/-- The encoding of a list is as wide as its values together. -/
theorem length_flatMap_put (c : Codec γ α) {l : List α} (h : ∀ a ∈ l, c.Fits a) :
    (l.flatMap c.put).length = l.length * c.width := by
  induction l with
  | nil => simp
  | cons a l ih =>
    rw [List.flatMap_cons, List.length_append, c.length_put (h a List.mem_cons_self),
      ih fun a' ha => h a' (List.mem_cons_of_mem _ ha), List.length_cons,
        Nat.succ_mul, Nat.add_comm]

/-- Reading the encoding of a list gives the list, whatever follows. -/
theorem getMany_flatMap_put (c : Codec γ α) {l : List α} (h : ∀ a ∈ l, c.Fits a)
    (rest : List γ) : c.getMany l.length (l.flatMap c.put ++ rest) = l := by
  induction l with
  | nil => rfl
  | cons a l ih =>
    have ha := h a List.mem_cons_self
    rw [List.length_cons, getMany, List.flatMap_cons, List.append_assoc, c.get_put _ ha,
      List.drop_left' (c.length_put ha), ih fun a' ha' => h a' (List.mem_cons_of_mem _ ha')]

/-- What is read fits. -/
theorem fits_getMany (c : Codec γ α) {n : Nat} {b : List γ} (hb : n * c.width ≤ b.length) :
    ∀ a ∈ c.getMany n b, c.Fits a := by
  induction n generalizing b with
  | zero => simp [getMany]
  | succ n ih =>
    rw [Nat.succ_mul] at hb
    intro a ha
    rcases List.mem_cons.1 ha with rfl | ha
    · exact c.fits_get (by omega)
    · exact ih (by rw [List.length_drop]; omega) a ha

/-- Encoding what was read gives back the octets that were read. -/
theorem flatMap_put_getMany (c : Codec γ α) {n : Nat} {b : List γ} (hb : n * c.width ≤ b.length) :
    (c.getMany n b).flatMap c.put = b.take (n * c.width) := by
  induction n generalizing b with
  | zero => simp [getMany]
  | succ n ih =>
    rw [Nat.succ_mul] at hb
    rw [getMany, List.flatMap_cons, c.put_get (by omega), ih (by rw [List.length_drop]; omega),
      Nat.succ_mul, Nat.add_comm, List.take_add]

/-- `n` values in a row. -/
def many (c : Codec γ α) (n : Nat) : Codec γ (List α) where
  width := n * c.width
  Fits l := l.length = n ∧ ∀ a ∈ l, c.Fits a
  put l := l.flatMap c.put
  get b := c.getMany n b
  length_put h := by rw [c.length_flatMap_put h.2, h.1]
  get_put rest h := by
    obtain ⟨rfl, hl⟩ := h
    exact c.getMany_flatMap_put hl rest
  fits_get h := ⟨c.length_getMany n _, c.fits_getMany h⟩
  put_get h := c.flatMap_put_getMany h

end Codec
