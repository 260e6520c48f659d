import Mathlib.Data.List.Basic
import Mathlib.Data.List.Perm.Basic
import Mathlib.Tactic.Common

/-!
# Fixed tables of slots

A table is a list of slots that are free (`none`) or in use. A key is put into the first free slot,
found by scanning, and cleared by index. A full table takes no further key.

## Main results

- `Slots.inUse_putAll`: in a table with room, putting keys adds exactly these keys.
- `Slots.clearKey_eq_wipe`: clearing a key that stands in at most one slot wipes it everywhere.
- `Slots.clearAll_putAll`: clearing keys that were just put gives back the table, whether or not
  there was room for all of them.
- `Slots.perm_put`, `Slots.perm_clearKey`: tables that differ in the numbering of their slots only
  stay so.
-/

namespace Slots

variable {κ : Type}

/-- The keys in use, in slot order. -/
def inUse (t : List (Option κ)) : List κ := t.filterMap id

/-- The first free slot. -/
def firstFree (t : List (Option κ)) : Option Nat := t.findIdx? Option.isNone

/-- Put a key into the first free slot, if there is one. -/
def put (k : κ) (t : List (Option κ)) : List (Option κ) :=
  match firstFree t with
  | some i => t.set i (some k)
  | none => t

/-- Put keys in order. -/
def putAll (ks : List κ) (t : List (Option κ)) : List (Option κ) := ks.foldl (fun t k => put k t) t

/-- Free every slot whose key satisfies `p`. -/
def wipe (p : κ → Bool) (t : List (Option κ)) : List (Option κ) :=
  t.map fun s => if s.any p then none else s

@[simp] theorem inUse_nil : inUse ([] : List (Option κ)) = [] := rfl

@[simp] theorem inUse_cons_none (t : List (Option κ)) : inUse (none :: t) = inUse t := rfl

@[simp] theorem inUse_cons_some (k : κ) (t : List (Option κ)) :
    inUse (some k :: t) = k :: inUse t := rfl

/-- What is in use is in some slot. -/
theorem mem_inUse {k : κ} {t : List (Option κ)} : k ∈ inUse t ↔ some k ∈ t := by
  simp [inUse]

/-- A fresh table has no slot in use. -/
theorem inUse_replicate_none (n : Nat) : inUse (List.replicate n (none : Option κ)) = [] := by
  induction n with
  | zero => rfl
  | succ n ih => exact ih

/-! ## Putting -/

/-- A taken slot is passed over. -/
theorem firstFree_cons_some (k : κ) (t : List (Option κ)) :
    firstFree (some k :: t) = (firstFree t).map (· + 1) := by
  simp [firstFree, List.findIdx?_cons]

/-- The first free slot is taken. -/
theorem put_cons_none (k : κ) (t : List (Option κ)) : put k (none :: t) = some k :: t := rfl

/-- A taken slot stays. -/
theorem put_cons_some (k k' : κ) (t : List (Option κ)) :
    put k (some k' :: t) = some k' :: put k t := by
  unfold put
  rw [firstFree_cons_some]
  cases firstFree t <;> rfl

@[simp] theorem length_put (k : κ) (t : List (Option κ)) : (put k t).length = t.length := by
  unfold put
  split <;> simp

@[simp] theorem length_putAll (ks : List κ) (t : List (Option κ)) :
    (putAll ks t).length = t.length := by
  induction ks generalizing t with
  | nil => rfl
  | cons k ks ih => exact (ih (put k t)).trans (length_put k t)

/-- A table with room has a first free slot, and a key put there is the only change. -/
theorem put_of_room {t : List (Option κ)} (h : (inUse t).length < t.length) (k : κ) :
    ∃ i, firstFree t = some i ∧ i < t.length ∧ (put k t)[i]? = some (some k) ∧
      (inUse (put k t)).Perm (k :: inUse t) := by
  induction t with
  | nil => simp at h
  | cons s t ih =>
    cases s with
    | none => exact ⟨0, rfl, by simp, rfl, by rw [put_cons_none]; exact .refl _⟩
    | some k' =>
      obtain ⟨i, hi, hlt, hget, hperm⟩ := ih (by simpa using h)
      refine ⟨i + 1, by rw [firstFree_cons_some, hi]; rfl, by simpa using hlt, ?_, ?_⟩
      · rw [put_cons_some]
        simpa using hget
      · rw [put_cons_some, inUse_cons_some, inUse_cons_some]
        exact (List.Perm.cons k' hperm).trans (List.Perm.swap k k' _)

/-- In a table with room, putting keys adds exactly these keys. -/
theorem inUse_putAll {ks : List κ} {t : List (Option κ)}
    (h : (inUse t).length + ks.length ≤ t.length) :
    (inUse (putAll ks t)).Perm (ks ++ inUse t) := by
  induction ks generalizing t with
  | nil => exact .refl _
  | cons k ks ih =>
    simp only [List.length_cons] at h
    obtain ⟨-, -, -, -, hperm⟩ := put_of_room (by omega : (inUse t).length < t.length) k
    have hrest : (inUse (putAll ks (put k t))).Perm (ks ++ inUse (put k t)) :=
      ih (by rw [length_put, hperm.length_eq, List.length_cons]; omega)
    exact hrest.trans ((List.Perm.append_left ks hperm).trans List.perm_middle)

/-- Freeing a slot only removes keys. -/
theorem inUse_set_none_sublist (i : Nat) (t : List (Option κ)) :
    (inUse (t.set i none)).Sublist (inUse t) := by
  induction t generalizing i with
  | nil => exact .refl _
  | cons s t ih =>
    cases i with
    | zero =>
      cases s with
      | none => exact .refl _
      | some k => exact List.sublist_cons_self k _
    | succ i =>
      cases s with
      | none => exact ih i
      | some k => exact (ih i).cons_cons k

/-! ## Wiping -/

@[simp] theorem length_wipe (p : κ → Bool) (t : List (Option κ)) :
    (wipe p t).length = t.length := by
  simp [wipe]

/-- Wiping keeps the keys in use that do not satisfy the predicate. -/
theorem inUse_wipe (p : κ → Bool) (t : List (Option κ)) :
    inUse (wipe p t) = (inUse t).filter fun k => !p k := by
  induction t with
  | nil => rfl
  | cons s t ih =>
    cases s with
    | none => exact ih
    | some k =>
      have hcons : wipe p (some k :: t) = (if p k then none else some k) :: wipe p t := rfl
      rw [hcons, inUse_cons_some, List.filter_cons, ← ih]
      cases p k <;> rfl

/-- Wiping what is not there changes nothing. -/
theorem wipe_eq_self {p : κ → Bool} {t : List (Option κ)} (h : ∀ k ∈ inUse t, p k = false) :
    wipe p t = t := by
  induction t with
  | nil => rfl
  | cons s t ih =>
    cases s with
    | none => exact congrArg (none :: ·) (ih h)
    | some k =>
      have hk : p k = false := h k (by simp)
      have ht := ih fun k' hk' => h k' (by simp [hk'])
      show (if p k then none else some k) :: wipe p t = _
      rw [hk, ht]
      rfl

/-- Wiping forgets what was put. -/
theorem wipe_put {p : κ → Bool} {k : κ} (hk : p k = true) (t : List (Option κ)) :
    wipe p (put k t) = wipe p t := by
  induction t with
  | nil => rfl
  | cons s t ih =>
    cases s with
    | none =>
      rw [put_cons_none]
      show (if p k then none else some k) :: wipe p t = none :: wipe p t
      rw [hk]
      rfl
    | some k' =>
      rw [put_cons_some]
      exact congrArg (_ :: ·) ih

/-- What is put and wiped again was not there. -/
theorem wipe_putAll {p : κ → Bool} {ks : List κ} (hks : ∀ k ∈ ks, p k = true)
    (t : List (Option κ)) : wipe p (putAll ks t) = wipe p t := by
  induction ks generalizing t with
  | nil => rfl
  | cons k ks ih =>
    have hrest := ih (fun k' hk' => hks k' (List.mem_cons_of_mem _ hk')) (put k t)
    exact hrest.trans (wipe_put (hks k List.mem_cons_self) t)

/-- Two wipes are one. -/
theorem wipe_wipe (p q : κ → Bool) (t : List (Option κ)) :
    wipe q (wipe p t) = wipe (fun k => p k || q k) t := by
  unfold wipe
  rw [List.map_map]
  refine List.map_congr_left fun s _ => ?_
  cases s with
  | none => rfl
  | some k => cases hp : p k <;> simp [hp]

/-! ## Renumbered slots -/

/-- There is no free slot exactly if every slot is taken. -/
theorem firstFree_eq_none {t : List (Option κ)} : firstFree t = none ↔ none ∉ t := by
  rw [firstFree, List.findIdx?_eq_none_iff]
  constructor
  · exact fun h hmem => absurd (h none hmem) (by simp)
  · intro h s hs
    cases s with
    | none => exact absurd hs h
    | some k => rfl

/-- A slot that is overwritten, by what was in it. -/
theorem cons_set_perm {t : List (Option κ)} {i : Nat} {a : Option κ} (h : t[i]? = some a)
    (b : Option κ) : (a :: t.set i b).Perm (b :: t) := by
  obtain ⟨hi, rfl⟩ := List.getElem?_eq_some_iff.1 h
  refine ((List.set_perm_cons_eraseIdx hi b).cons _).trans ((List.Perm.swap _ _ _).trans ?_)
  exact (List.getElem_cons_eraseIdx_perm hi).cons b

/-- A key goes into either table or, when these are full, into neither. -/
theorem perm_put {t t' : List (Option κ)} (h : t.Perm t') (k : κ) : (put k t).Perm (put k t') := by
  have hfree : firstFree t = none ↔ firstFree t' = none := by
    rw [firstFree_eq_none, firstFree_eq_none, h.mem_iff]
  unfold put
  cases hi : firstFree t with
  | none => rw [hfree.1 hi]; exact h
  | some i =>
    cases hj : firstFree t' with
    | none => exact absurd (hfree.2 hj) (by rw [hi]; exact Option.some_ne_none i)
    | some j =>
      have hat : ∀ {t : List (Option κ)} {i : Nat}, firstFree t = some i → t[i]? = some none := by
        intro t i hi
        obtain ⟨hlt, hnone, -⟩ := List.findIdx?_eq_some_iff_getElem.1 hi
        rw [List.getElem?_eq_getElem hlt, Option.isNone_iff_eq_none.1 hnone]
      refine List.Perm.cons_inv (a := none) ?_
      exact (cons_set_perm (hat hi) _).trans ((h.cons _).trans (cons_set_perm (hat hj) _).symm)

/-- Tables that agree up to the order of slots stay so. -/
theorem perm_putAll {t t' : List (Option κ)} (h : t.Perm t') (ks : List κ) :
    (putAll ks t).Perm (putAll ks t') := by
  induction ks generalizing t t' with
  | nil => exact h
  | cons k ks ih => exact ih (perm_put h k)

/-- Freeing a slot of the same key in either table. -/
theorem perm_set_none {t t' : List (Option κ)} (h : t.Perm t') {k : κ} {i j : Nat}
    (hi : t[i]? = some (some k)) (hj : t'[j]? = some (some k)) :
    (t.set i none).Perm (t'.set j none) :=
  List.Perm.cons_inv (a := some k)
    ((cons_set_perm hi _).trans ((h.cons _).trans (cons_set_perm hj _).symm))

/-- A table holds its keys and, for the rest, free slots. -/
theorem exists_perm_inUse (t : List (Option κ)) :
    ∃ n, t.Perm ((inUse t).map some ++ List.replicate n none) := by
  induction t with
  | nil => exact ⟨0, .refl _⟩
  | cons s t ih =>
    obtain ⟨n, h⟩ := ih
    cases s with
    | none => exact ⟨n + 1, (h.cons none).trans List.perm_middle.symm⟩
    | some k => exact ⟨n, h.cons (some k)⟩

/-- Tables of one size that hold the same keys differ in the numbering of their slots. -/
theorem perm_iff_inUse {t t' : List (Option κ)} (hlen : t.length = t'.length) :
    t.Perm t' ↔ (inUse t).Perm (inUse t') := by
  refine ⟨fun h => h.filterMap id, fun h => ?_⟩
  obtain ⟨n, ht⟩ := exists_perm_inUse t
  obtain ⟨n', ht'⟩ := exists_perm_inUse t'
  have hn : n = n' := by
    have hl := ht.length_eq
    have hl' := ht'.length_eq
    have hk := h.length_eq
    simp only [List.length_append, List.length_map, List.length_replicate] at hl hl'
    omega
  exact ht.trans (((h.map some).append_right _).trans (hn ▸ ht'.symm))

/-- Registering keys in an empty table fills it from the front. -/
theorem inUse_putAll_replicate (ks : List κ) (n : Nat) :
    inUse (putAll ks (List.replicate n none)) = ks.take n := by
  have hfill : ∀ (ks l : List κ) (n : Nat),
      inUse (putAll ks (l.map some ++ List.replicate n none)) = l ++ ks.take n := by
    intro ks
    induction ks with
    | nil =>
      intro l n
      show inUse (l.map some ++ _) = _
      simp [inUse, List.filterMap_append]
    | cons k ks ih =>
      intro l n
      cases n with
      | zero =>
        have hfull : put k (l.map some) = l.map some := by
          rw [put, firstFree_eq_none.2 (by simp)]
        simpa [putAll, hfull] using ih l 0
      | succ n =>
        have hput : ∀ l : List κ, put k (l.map some ++ List.replicate (n + 1) none) =
            (l ++ [k]).map some ++ List.replicate n none := by
          intro l
          induction l with
          | nil => exact put_cons_none k _
          | cons k' l ihl =>
            rw [List.map_cons, List.cons_append, put_cons_some, ihl]
            rfl
        have hrest := ih (l ++ [k]) n
        rw [← hput] at hrest
        show inUse (putAll ks (put k _)) = _
        simpa using hrest
  exact hfill ks [] n

/-! ## Clearing a key -/

variable [DecidableEq κ]

/-- The first slot of a key. -/
def locate (k : κ) (t : List (Option κ)) : Option Nat := t.findIdx? fun s => decide (s = some k)

/-- Free the first slot of a key, if it has one. -/
def clearKey (k : κ) (t : List (Option κ)) : List (Option κ) :=
  match locate k t with
  | some i => t.set i none
  | none => t

@[simp] theorem length_clearKey (k : κ) (t : List (Option κ)) :
    (clearKey k t).length = t.length := by
  unfold clearKey
  split <;> simp

/-- A key is found where it is. -/
theorem locate_eq_some {k : κ} {t : List (Option κ)} {i : Nat} (h : locate k t = some i) :
    i < t.length ∧ t[i]? = some (some k) := by
  rw [locate, List.findIdx?_eq_some_iff_getElem] at h
  obtain ⟨hi, hk, -⟩ := h
  exact ⟨hi, by rw [List.getElem?_eq_getElem hi, of_decide_eq_true hk]⟩

/-- And it is found exactly if it is in use. -/
theorem locate_isSome {k : κ} {t : List (Option κ)} : (locate k t).isSome ↔ k ∈ inUse t := by
  rw [locate, List.findIdx?_isSome, List.any_eq_true, mem_inUse]
  constructor
  · rintro ⟨s, hs, heq⟩
    exact of_decide_eq_true heq ▸ hs
  · exact fun h => ⟨_, h, by simp⟩

/-- Freeing a slot whose key stands in no other slot wipes the key. -/
theorem set_none_eq_wipe {k : κ} {t : List (Option κ)} {i : Nat} (hi : t[i]? = some (some k))
    (h : (inUse t).count k ≤ 1) : t.set i none = wipe (fun k' => decide (k' = k)) t := by
  induction t generalizing i with
  | nil => simp at hi
  | cons s t ih =>
    cases i with
    | zero =>
      obtain rfl : s = some k := by simpa using hi
      have hout : ∀ k' ∈ inUse t, decide (k' = k) = false := by
        intro k' hk'
        have hnot : k ∉ inUse t := by
          rw [← List.count_eq_zero]
          simp at h
          simpa using h
        exact decide_eq_false fun heq => hnot (heq ▸ hk')
      have hrest := wipe_eq_self hout
      show none :: t = (if decide (k = k) then none else some k) :: wipe _ t
      rw [hrest]
      simp
    | succ i =>
      have hi' : t[i]? = some (some k) := by simpa using hi
      cases s with
      | none => exact congrArg (none :: ·) (ih hi' h)
      | some k' =>
        have hmem : k ∈ inUse t := mem_inUse.mpr (List.mem_of_getElem? hi')
        have hpos : 0 < (inUse t).count k := List.count_pos_iff.mpr hmem
        have hne : k' ≠ k := by
          rintro rfl
          rw [inUse_cons_some, List.count_cons_self] at h
          omega
        have hcount : (inUse t).count k ≤ 1 := by
          rw [inUse_cons_some, List.count_cons] at h
          omega
        show some k' :: t.set i none = (if decide (k' = k) then none else some k') :: wipe _ t
        rw [ih hi' hcount]
        simp [hne]

/-- Clearing a key that stands in at most one slot wipes it everywhere. -/
theorem clearKey_eq_wipe {k : κ} {t : List (Option κ)} (h : (inUse t).count k ≤ 1) :
    clearKey k t = wipe (fun k' => decide (k' = k)) t := by
  unfold clearKey
  cases hl : locate k t with
  | some i => exact set_none_eq_wipe (locate_eq_some hl).2 h
  | none =>
    have hnot : k ∉ inUse t := by
      intro hmem
      have := locate_isSome.mpr hmem
      rw [hl] at this
      cases this
    refine (wipe_eq_self fun k' hk' => decide_eq_false ?_).symm
    rintro rfl
    exact hnot hk'

/-- Clear keys in order. -/
def clearAll (ks : List κ) (t : List (Option κ)) : List (Option κ) :=
  ks.foldl (fun t k => clearKey k t) t

/-- Clearing keys that are in use once is wiping them. -/
theorem clearAll_eq_wipe {ks : List κ} {t : List (Option κ)}
    (h : ∀ k ∈ ks, (inUse t).count k ≤ 1) :
    clearAll ks t = wipe (fun k' => decide (k' ∈ ks)) t := by
  induction ks generalizing t with
  | nil => exact (wipe_eq_self fun k _ => by simp).symm
  | cons k ks ih =>
    have hcount : ∀ k' ∈ ks, (inUse (clearKey k t)).count k' ≤ 1 := by
      intro k' hk'
      rw [clearKey_eq_wipe (h k List.mem_cons_self), inUse_wipe]
      exact Nat.le_trans (List.filter_sublist.count_le k') (h k' (List.mem_cons_of_mem _ hk'))
    show clearAll ks (clearKey k t) = _
    rw [ih hcount, clearKey_eq_wipe (h k List.mem_cons_self), wipe_wipe]
    congr 1
    funext k'
    simp

/-- A put adds a key at most once. -/
theorem count_inUse_put_le (k k' : κ) (t : List (Option κ)) :
    (inUse (put k' t)).count k ≤ [k'].count k + (inUse t).count k := by
  induction t with
  | nil => simp [put, firstFree]
  | cons s t ih =>
    cases s with
    | none =>
      rw [put_cons_none, inUse_cons_some, inUse_cons_none, List.count_cons, List.count_cons]
      simp
      omega
    | some k'' =>
      rw [put_cons_some, inUse_cons_some, inUse_cons_some, List.count_cons,
        List.count_cons (l := inUse t)]
      omega

/-- Putting keys adds at most each of them. -/
theorem count_inUse_putAll_le (ks : List κ) (k : κ) (t : List (Option κ)) :
    (inUse (putAll ks t)).count k ≤ ks.count k + (inUse t).count k := by
  induction ks generalizing t with
  | nil => simp [putAll]
  | cons k' ks ih =>
    have hrest := ih (put k' t)
    have hput := count_inUse_put_le k k' t
    have hcons : (k' :: ks).count k = [k'].count k + ks.count k := by
      rw [← List.count_append]
      rfl
    show (inUse (putAll ks (put k' t))).count k ≤ _
    omega

/-- Clearing keys that were just put gives back the table. -/
theorem clearAll_putAll {ks : List κ} {t : List (Option κ)} (hks : ks.Nodup)
    (hnew : ∀ k ∈ ks, k ∉ inUse t) : clearAll ks (putAll ks t) = t := by
  have hcount : ∀ k ∈ ks, (inUse (putAll ks t)).count k ≤ 1 := by
    intro k hk
    have hle := count_inUse_putAll_le ks k t
    rw [List.count_eq_zero.mpr (hnew k hk), hks.count, if_pos hk] at hle
    exact hle
  rw [clearAll_eq_wipe hcount, wipe_putAll fun k hk => by simpa using hk]
  exact wipe_eq_self fun k hk => decide_eq_false fun hin => hnew k hin hk

/-- Clearing a key in either table. -/
theorem perm_clearKey {t t' : List (Option κ)} (h : t.Perm t') (k : κ) :
    (clearKey k t).Perm (clearKey k t') := by
  have hloc : (locate k t).isSome ↔ (locate k t').isSome := by
    rw [locate_isSome, locate_isSome, mem_inUse, mem_inUse, h.mem_iff]
  unfold clearKey
  cases hi : locate k t with
  | none =>
    have hj : locate k t' = none := by
      rw [← Option.not_isSome_iff_eq_none, ← hloc, hi]
      exact Bool.false_ne_true
    rw [hj]
    exact h
  | some i =>
    obtain ⟨j, hj⟩ := Option.isSome_iff_exists.1 (hloc.1 (by rw [hi]; rfl))
    rw [hj]
    exact perm_set_none h (locate_eq_some hi).2 (locate_eq_some hj).2

end Slots
