import Mathlib.Data.List.Basic
import Mathlib.Tactic.Common

/-!
# Counter mode

A stream cut from the blocks of a counter: block number `i` is the value of a function that may
fail, every block has the same width, and the first symbols of the concatenation are the output.

`stream_step` takes one block off the front, which is what a loop with a counter does. The fixed
input of the blocks is a label, a separator, a context and a length field; `fixedInput_inj` says
when its parts can be read off.
-/

namespace CounterMode

variable {ε α : Type} {block : ℕ → Except ε (List α)} {w : ℕ}

/-- How many blocks of width `w` hold `n` symbols. -/
def count (w n : ℕ) : ℕ := (n + w - 1) / w

/-- The first `n` symbols of the blocks from number `start` on. -/
def stream (block : ℕ → Except ε (List α)) (w start n : ℕ) : Except ε (List α) := do
  let blocks ← (List.range' start (count w n)).mapM block
  return blocks.flatten.take n

theorem count_zero (hw : 0 < w) : count w 0 = 0 :=
  Nat.div_eq_of_lt (by omega)

/-- One block more than what is left after one block. -/
theorem count_step (hw : 0 < w) {n : ℕ} (hn : 0 < n) : count w n = count w (n - min n w) + 1 := by
  unfold count
  rcases Nat.le_total n w with hle | hle
  · -- the last block
    rw [Nat.min_eq_left hle, Nat.sub_self, Nat.div_eq_of_lt (by omega : 0 + w - 1 < w)]
    exact Nat.div_eq_of_lt_le (by omega) (by omega)
  · rw [Nat.min_eq_right hle, ← Nat.add_div_right _ hw]
    congr 1
    omega

/-- The blocks cover the output, and the last one is needed. -/
theorem count_le_iff (hw : 0 < w) {n k : ℕ} : count w n ≤ k ↔ n ≤ k * w := by
  unfold count
  rw [← Nat.lt_succ_iff, Nat.div_lt_iff_lt_mul hw, Nat.succ_mul]
  omega

theorem stream_zero (hw : 0 < w) (start : ℕ) : stream block w start 0 = .ok [] := by
  rw [stream, count_zero hw]
  rfl

/-- A stream is its first block, cut to what is asked for, and the stream of the later blocks. -/
theorem stream_step (hlen : ∀ i b, block i = .ok b → b.length = w) (hw : 0 < w) (start : ℕ)
    {n : ℕ} (hn : 0 < n) :
    stream block w start n = (do
      let b ← block start
      let rest ← stream block w (start + 1) (n - min n w)
      return b.take (min n w) ++ rest) := by
  rw [stream, count_step hw hn, List.range'_succ, List.mapM_cons]
  cases hb : block start with
  | error e => rfl
  | ok b =>
    have hbw := hlen start b hb
    unfold stream
    cases (List.range' (start + 1) (count w (n - min n w))).mapM block with
    | error e => rfl
    | ok blocks =>
      show Except.ok _ = Except.ok _
      congr 1
      rw [List.flatten_cons, List.take_append, hbw]
      congr 1
      · rcases Nat.le_total n w with hle | hle
        · rw [Nat.min_eq_left hle]
        · rw [Nat.min_eq_right hle,
            List.take_of_length_le (Nat.le_trans (Nat.le_of_eq hbw) hle), ← hbw,
            List.take_length]
      · congr 1
        omega

/-- Two strings that end at the first separator. -/
theorem append_cons_inj {sep : α} : ∀ {x y z t : List α}, sep ∉ x → sep ∉ y →
    x ++ sep :: z = y ++ sep :: t → x = y ∧ z = t
  | [], [], _, _, _, _, h => ⟨rfl, (List.cons.inj h).2⟩
  | [], b :: y, _, _, _, hy, h => absurd (List.mem_cons.mpr (Or.inl (List.cons.inj h).1)) hy
  | a :: x, [], _, _, hx, _, h => absurd (List.mem_cons.mpr (Or.inl (List.cons.inj h).1.symm)) hx
  | a :: x, b :: y, _, _, hx, hy, h => by
    obtain ⟨rfl, htail⟩ := List.cons.inj h
    obtain ⟨rfl, rfl⟩ := append_cons_inj (fun hm => hx (List.mem_cons_of_mem _ hm))
      (fun hm => hy (List.mem_cons_of_mem _ hm)) htail
    exact ⟨rfl, rfl⟩

/-- A label without the separator, the separator, a context of any length and a field of fixed width
are told apart in their concatenation. -/
theorem fixedInput_inj {sep : α} {label label' context context' field field' : List α}
    (hl : sep ∉ label) (hl' : sep ∉ label') (hw : field.length = field'.length)
    (h : label ++ [sep] ++ context ++ field = label' ++ [sep] ++ context' ++ field') :
    label = label' ∧ context = context' ∧ field = field' := by
  obtain ⟨hfront, hfield⟩ := List.append_inj' h hw
  rw [List.append_assoc, List.append_assoc, List.singleton_append, List.singleton_append] at hfront
  obtain ⟨hlabel, hcontext⟩ := append_cons_inj hl hl' hfront
  exact ⟨hlabel, hcontext, hfield⟩

end CounterMode
