import Mathlib.Data.Nat.Digits.Defs
import Mathlib.Data.List.OfFn
import Geryon.Lib.LittleEndian

/-!
# Packed numbers and packed index sets

Two ways to write numbers as bytes. Numbers below one bound are packed as the digits of a single
little-endian integer, so each takes the same number of bits. Sets of small indices, one set a row,
are packed as their elements row after row, padded to a fixed number, and the running count after
each row; the unpacker rejects what the packer does not write.

## Main results

* `digit_packDigits`: a packed number is read back;
* `unpackIndices_packIndices`: so are increasing rows that fit.
-/

namespace Packing

/-! ## Digits -/

/-- The digit of an integer at a position. -/
def digit (b x i : ℕ) : ℕ := x / b ^ i % b

/-- The digit at `i` of a number made of digits. -/
theorem digit_ofDigits {b : ℕ} {l : List ℕ} (h : ∀ x ∈ l, x < b) {i : ℕ} (hi : i < l.length) :
    digit b (Nat.ofDigits b l) i = l[i] := by
  induction l generalizing i with
  | nil => exact absurd hi (Nat.not_lt_zero _)
  | cons a l ih =>
    have ha := h a List.mem_cons_self
    have hb : 0 < b := Nat.zero_lt_of_lt ha
    rw [Nat.ofDigits_cons, digit]
    cases i with
    | zero =>
      rw [Nat.pow_zero, Nat.div_one, List.getElem_cons_zero, Nat.add_mul_mod_self_left,
        Nat.mod_eq_of_lt ha]
    | succ i =>
      have hdiv : (a + b * Nat.ofDigits b l) / b = Nat.ofDigits b l := by
        rw [Nat.add_mul_div_left _ _ hb, Nat.div_eq_of_lt ha, Nat.zero_add]
      have hlen : i < l.length := Nat.lt_of_succ_lt_succ hi
      rw [Nat.pow_succ', ← Nat.div_div_eq_div_mul, hdiv, List.getElem_cons_succ]
      exact ih (fun x hx => h x (List.mem_cons_of_mem _ hx)) hlen

/-- Numbers below `b` as the digits of one integer of `k` bytes. -/
def packDigits (b k : ℕ) {n : ℕ} (f : Fin n → ℕ) : List UInt8 :=
  LittleEndian.ofNat k (Nat.ofDigits b (List.ofFn f))

/-- Packed digits take the octets they are given. -/
@[simp] theorem length_packDigits (b k : ℕ) {n : ℕ} (f : Fin n → ℕ) :
    (packDigits b k f).length = k :=
  LittleEndian.length_ofNat _ _

/-- Each digit can be read off the packed ones. -/
theorem digit_packDigits {b k n : ℕ} (hb : 1 < b) {f : Fin n → ℕ} (hf : ∀ i, f i < b)
    (hk : b ^ n ≤ 256 ^ k) (i : Fin n) :
    digit b (LittleEndian.toNat (packDigits b k f)) i = f i := by
  have hmem : ∀ x ∈ List.ofFn f, x < b := by
    intro x hx
    obtain ⟨j, rfl⟩ := List.mem_ofFn.mp hx
    exact hf j
  have hlt := Nat.ofDigits_lt_base_pow_length hb hmem
  rw [List.length_ofFn] at hlt
  unfold packDigits
  rw [LittleEndian.toNat_ofNat (lt_of_lt_of_le hlt hk), digit_ofDigits hmem (by
    rw [List.length_ofFn]
    exact i.isLt), List.getElem_ofFn]

/-! ## Index sets -/

/-- The running counts of rows, from a count on. -/
def ends : ℕ → List (List ℕ) → List ℕ
  | _, [] => []
  | s, r :: rs => (s + r.length) :: ends (s + r.length) rs

/-- One end for each list. -/
@[simp] theorem length_ends (s : ℕ) (rs : List (List ℕ)) : (ends s rs).length = rs.length := by
  induction rs generalizing s with
  | nil => rfl
  | cons r rs ih => rw [ends, List.length_cons, ih, List.length_cons]

/-- No end lies past the positions there are. -/
theorem ends_le {s m : ℕ} {rs : List (List ℕ)} (h : s + rs.flatten.length ≤ m) :
    ∀ e ∈ ends s rs, e ≤ m := by
  induction rs generalizing s with
  | nil => simp [ends]
  | cons r rs ih =>
    rw [List.flatten_cons, List.length_append] at h
    intro e he
    cases he with
    | head => omega
    | tail _ htail => exact ih (by omega) e htail

/-- Rows of indices with `m` places for indices. -/
def packIndices (m : ℕ) (rs : List (List ℕ)) : List ℕ :=
  (rs.flatten ++ List.replicate m 0).take m ++ ends 0 rs

/-- Packed indices take one octet each and one for every list. -/
theorem length_packIndices (m : ℕ) (rs : List (List ℕ)) :
    (packIndices m rs).length = m + rs.length := by
  unfold packIndices
  rw [List.length_append, List.length_take, List.length_append, List.length_replicate, length_ends]
  omega

/-- Read rows off the indices, from a count on. -/
def unpackRows (m : ℕ) (idx : List ℕ) : ℕ → List ℕ → Option (List (List ℕ))
  | s, [] => if (idx.drop s).all (· == 0) then some [] else none
  | s, e :: es =>
    if e < s ∨ m < e then none
    else
      let r := (idx.drop s).take (e - s)
      if r.Pairwise (· < ·) then (unpackRows m idx e es).map (r :: ·) else none

/-- The rows of a packed string. -/
def unpackIndices (m : ℕ) (y : List ℕ) : Option (List (List ℕ)) :=
  unpackRows m (y.take m) 0 (y.drop m)

/-- Rows are read back from the place they stand at. -/
theorem unpackRows_ends {m : ℕ} {pad : List ℕ} (hpad : ∀ x ∈ pad, x = 0) {rs : List (List ℕ)}
    (hrs : ∀ r ∈ rs, r.Pairwise (· < ·)) (pre : List ℕ)
    (hm : pre.length + rs.flatten.length ≤ m) :
    unpackRows m (pre ++ (rs.flatten ++ pad)) pre.length (ends pre.length rs) = some rs := by
  induction rs generalizing pre with
  | nil =>
    have hall : pad.all (· == 0) = true :=
      List.all_eq_true.mpr fun x hx => beq_iff_eq.mpr (hpad x hx)
    rw [ends, unpackRows, List.flatten_nil, List.nil_append, List.drop_left, if_pos hall]
  | cons r rs ih =>
    have hrest := ih (fun r' hr' => hrs r' (List.mem_cons_of_mem _ hr')) (pre ++ r) (by
      rw [List.flatten_cons, List.length_append] at hm
      rw [List.length_append]
      omega)
    rw [List.length_append, List.append_assoc, ← List.append_assoc r] at hrest
    rw [List.flatten_cons, List.length_append] at hm
    have hrow : ((pre ++ (r ++ rs.flatten ++ pad)).drop pre.length).take
        (pre.length + r.length - pre.length) = r := by
      rw [List.drop_left, List.append_assoc, Nat.add_sub_cancel_left, List.take_left]
    rw [ends, unpackRows, List.flatten_cons, if_neg (by omega)]
    dsimp only
    rw [hrow, if_pos (hrs r List.mem_cons_self), hrest, Option.map_some]

/-- Increasing rows that fit are read back. -/
theorem unpackIndices_packIndices {m : ℕ} {rs : List (List ℕ)}
    (hrs : ∀ r ∈ rs, r.Pairwise (· < ·)) (hm : rs.flatten.length ≤ m) :
    unpackIndices m (packIndices m rs) = some rs := by
  have htake : (rs.flatten ++ List.replicate m 0).take m =
      rs.flatten ++ List.replicate (m - rs.flatten.length) 0 := by
    rw [List.take_append, List.take_of_length_le hm, List.take_replicate,
      Nat.min_eq_left (by omega)]
  have hlen : ((rs.flatten ++ List.replicate m 0).take m).length = m := by
    rw [List.length_take, List.length_append, List.length_replicate]
    omega
  unfold unpackIndices packIndices
  rw [List.take_left' hlen, List.drop_left' hlen, htake]
  exact unpackRows_ends (fun x hx => List.eq_of_mem_replicate hx) hrs []
    (by rw [List.length_nil, Nat.zero_add]; exact hm)

end Packing
