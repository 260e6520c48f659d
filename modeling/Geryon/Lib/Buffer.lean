import Mathlib.Data.List.OfFn
import Mathlib.Tactic.Ring

/-!
# Rows and buffers

Strings of symbols that are laid out as rows of one width, and buffers of a fixed length that are
written in place. A read of a range gives what was last written there, whatever was written beside
it.
-/

namespace Buffer

variable {α : Type*}

/-- `len` symbols from an offset on. -/
def slice (off len : ℕ) (b : List α) : List α := (b.drop off).take len

/-- What a slice has at `i` is what the buffer has there. -/
theorem getElem?_slice (off len : ℕ) (b : List α) (i : ℕ) :
    (slice off len b)[i]? = if i < len then b[off + i]? else none := by
  unfold slice
  rw [List.getElem?_take, List.getElem?_drop]

/-- A range behind a prefix. -/
theorem slice_append_right {a b : List α} {off : ℕ} (h : a.length = off) (i len : ℕ) :
    slice (off + i) len (a ++ b) = slice i len b := by
  unfold slice
  rw [← h, ← List.drop_drop, List.drop_left]

/-- A range within a prefix. -/
theorem slice_append_left {a b : List α} {off len : ℕ} (h : off + len ≤ a.length) :
    slice off len (a ++ b) = slice off len a := by
  unfold slice
  rw [List.drop_append_of_le_length (by omega), List.take_append_of_le_length
    (by rw [List.length_drop]; omega)]

/-- The slice that is the whole buffer. -/
theorem slice_self {b : List α} {len : ℕ} (h : b.length = len) : slice 0 len b = b := by
  unfold slice
  rw [List.drop_zero, ← h, List.take_length]

/-! ## Rows -/

/-- Rows one after another. -/
def rows {k : ℕ} (f : Fin k → List α) : List α := (List.ofFn f).flatten

variable {k w : ℕ} {f : Fin k → List α}

/-- Rows of one width, one after the other. -/
theorem length_rows (h : ∀ i, (f i).length = w) : (rows f).length = k * w := by
  induction k with
  | zero => simp [rows]
  | succ k ih =>
    have htail := ih (f := fun i => f i.succ) fun i => h i.succ
    unfold rows at htail ⊢
    rw [List.ofFn_succ, List.flatten_cons, List.length_append, h 0, htail]
    ring

/-- A row is read where its width says. -/
theorem slice_rows (h : ∀ i, (f i).length = w) (i : Fin k) :
    slice (i * w) w (rows f) = f i := by
  induction k with
  | zero => exact i.elim0
  | succ k ih =>
    have hcons : rows f = f 0 ++ rows fun i => f i.succ := by
      unfold rows
      rw [List.ofFn_succ, List.flatten_cons]
    rw [hcons]
    cases i using Fin.cases with
    | zero =>
      rw [Fin.val_zero, Nat.zero_mul, slice_append_left (by rw [h 0]; omega), slice_self (h 0)]
    | succ i =>
      have hoff : (i.succ : ℕ) * w = w + i * w := by
        rw [Fin.val_succ]
        ring
      rw [hoff, slice_append_right (h 0)]
      exact ih (f := fun i => f i.succ) (fun i => h i.succ) i

end Buffer

/-- A buffer of `n` symbols. -/
structure Buffer (α : Type*) (n : ℕ) where
  toList : List α
  length_toList : toList.length = n

namespace Buffer

variable {α : Type*} {n : ℕ}

/-- Write into the buffer at an offset; a string that does not fit is not written. -/
def put (b : Buffer α n) (off : ℕ) (x : List α) : Buffer α n :=
  if h : off + x.length ≤ n then
    ⟨b.toList.take off ++ (x ++ b.toList.drop (off + x.length)), by
      have := b.length_toList
      simp only [List.length_append, List.length_take, List.length_drop]
      omega⟩
  else b

variable {b : Buffer α n} {off : ℕ} {x : List α}

/-- A write replaces the octets it covers. -/
theorem toList_put (h : off + x.length ≤ n) :
    (b.put off x).toList = b.toList.take off ++ (x ++ b.toList.drop (off + x.length)) := by
  unfold put
  rw [dif_pos h]

/-- What was written is read back. -/
theorem slice_put_self (h : off + x.length ≤ n) :
    slice off x.length (b.put off x).toList = x := by
  have hoff : (b.toList.take off).length = off := by
    rw [List.length_take, b.length_toList]
    omega
  rw [toList_put h]
  have hback := slice_append_right (b := x ++ b.toList.drop (off + x.length)) hoff 0 x.length
  rw [Nat.add_zero] at hback
  rw [hback, slice_append_left (by omega), slice_self rfl]

/-- A range before or behind what was written is read as it was. -/
theorem slice_put_other (h : off + x.length ≤ n) {off' len : ℕ}
    (hdis : off' + len ≤ off ∨ off + x.length ≤ off') :
    slice off' len (b.put off x).toList = slice off' len b.toList := by
  apply List.ext_getElem?
  intro i
  have hlen : (b.toList.take off).length = off := by
    rw [List.length_take, b.length_toList]
    omega
  rw [getElem?_slice, getElem?_slice]
  split
  · next hi =>
    rw [toList_put h]
    rcases hdis with hbefore | hbehind
    · rw [List.getElem?_append_left (by omega), List.getElem?_take, if_pos (by omega)]
    · rw [List.getElem?_append_right (by omega), List.getElem?_append_right (by omega), hlen,
        List.getElem?_drop]
      congr 1
      omega
  · rfl

end Buffer
