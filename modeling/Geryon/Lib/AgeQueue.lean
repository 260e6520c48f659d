import Mathlib.Data.List.Perm.Basic
import Mathlib.Data.List.Pairwise
import Mathlib.Data.Nat.Basic
import Mathlib.Tactic.Common

/-!
# Bounded queues that forget by age

A queue of at most `cap` items, oldest first, with a clock. A message either takes an item out or
puts items in, each of which pushes the oldest one out if the queue is full; then the clock ticks
and the items whose age has reached `limit` are forgotten.

Every item has a serial number and the clock's reading when it was put in. The queue remembers which
items were taken and which were pushed out, so that an item that is gone for neither reason was
forgotten.

## Main results

* `AgeQueue.inv_after`: serial numbers and stamps are in order, every item is younger than the
  limit, and what was lost is older than what is left;
* `AgeQueue.kept`, `AgeQueue.gone`: how long an item stays;
* `AgeQueue.older_gone`: an older item is never kept longer than a newer one.
-/

/-- An item of a queue: its serial number, when it was put in, and its value. -/
structure AgeItem (α : Type) where
  serial : Nat
  stamp : Nat
  val : α

/-- A queue, with its clock, the number of items ever put in, and the serial numbers of those that
were taken and those that were pushed out. -/
structure AgeQueue (α : Type) where
  items : List (AgeItem α)
  clock : Nat
  issued : Nat
  used : List Nat
  pushed : List Nat

/-- What one message does: take the item at an index, or put in items in order. -/
inductive AgeMessage (α : Type) where
  | take (i : Nat)
  | put (vs : List α)

namespace AgeQueue

variable {α : Type}

def empty : AgeQueue α := ⟨[], 0, 0, [], []⟩

/-- Take the item at index `i`. -/
def take (q : AgeQueue α) (i : Nat) : AgeQueue α :=
  { q with
    items := q.items.eraseIdx i
    used := q.used ++ q.items[i]?.toList.map (·.serial) }

/-- Push the oldest item out if the queue is full. -/
def makeRoom (cap : Nat) (q : AgeQueue α) : AgeQueue α :=
  if q.items.length = cap then
    { q with
      items := q.items.tail
      pushed := q.pushed ++ q.items.head?.toList.map (·.serial) }
  else q

/-- Append an item with the next serial number. -/
def append (q : AgeQueue α) (v : α) : AgeQueue α :=
  { q with
    items := q.items ++ [⟨q.issued, q.clock, v⟩]
    issued := q.issued + 1 }

/-- Put an item in. -/
def put (cap : Nat) (q : AgeQueue α) (v : α) : AgeQueue α := (q.makeRoom cap).append v

/-- The clock ticks, and items whose age has reached the limit are forgotten. -/
def tick (limit : Nat) (q : AgeQueue α) : AgeQueue α :=
  { q with
    items := q.items.filter fun x => q.clock + 1 - x.stamp < limit
    clock := q.clock + 1 }

/-- The part of a message before the clock ticks. -/
def apply (cap : Nat) (q : AgeQueue α) : AgeMessage α → AgeQueue α
  | .take i => q.take i
  | .put vs => vs.foldl (put cap) q

/-- One message. -/
def receive (cap limit : Nat) (q : AgeQueue α) (m : AgeMessage α) : AgeQueue α :=
  (q.apply cap m).tick limit

/-- The queue after the first `m` of a sequence of messages. -/
def after (cap limit : Nat) (msg : Nat → AgeMessage α) : Nat → AgeQueue α
  | 0 => empty
  | m + 1 => (after cap limit msg m).receive cap limit (msg m)

/-- A queue holds an item with the serial number. -/
def Has (q : AgeQueue α) (s : Nat) : Prop := ∃ x ∈ q.items, x.serial = s

/-- The order of a queue: serial numbers and stamps go up, and an item that was issued and is
neither here nor taken is older than all that are here. -/
structure Ordered (q : AgeQueue α) : Prop where
  pairwise : q.items.Pairwise fun x y => x.serial < y.serial ∧ x.stamp ≤ y.stamp
  serial_lt : ∀ x ∈ q.items, x.serial < q.issued
  stamp_le : ∀ x ∈ q.items, x.stamp ≤ q.clock
  front : ∀ s < q.issued, s ∉ q.used → ¬ q.Has s → ∀ x ∈ q.items, s < x.serial

/-- The empty queue is in order. -/
theorem ordered_empty : (empty : AgeQueue α).Ordered :=
  ⟨List.Pairwise.nil, by simp [empty], by simp [empty], by simp [empty]⟩

/-- The item with the larger serial number has the later stamp. -/
theorem Ordered.stamp_mono {q : AgeQueue α} (h : q.Ordered) {x y : AgeItem α} (hx : x ∈ q.items)
    (hy : y ∈ q.items) (hxy : x.serial < y.serial) : x.stamp ≤ y.stamp := by
  obtain ⟨i, hi, rfl⟩ := List.getElem_of_mem hx
  obtain ⟨j, hj, rfl⟩ := List.getElem_of_mem hy
  have hpw := List.pairwise_iff_getElem.1 h.pairwise
  rcases Nat.lt_trichotomy i j with hij | rfl | hij
  · exact (hpw i j hi hj hij).2
  · exact le_rfl
  · exact absurd (hpw j i hj hi hij).1 (Nat.lt_asymm hxy)

/-- A sublist of the items in which everything that went missing is accounted for is in order. -/
theorem Ordered.sublist {q r : AgeQueue α} (h : q.Ordered) (hsub : r.items.Sublist q.items)
    (hclock : q.clock ≤ r.clock) (hissued : r.issued = q.issued) (hused : ∀ s ∈ q.used, s ∈ r.used)
    (hlost : ∀ x ∈ q.items, x.serial ∉ r.used → ¬ r.Has x.serial →
      ∀ y ∈ r.items, x.serial < y.serial) : r.Ordered where
  pairwise := h.pairwise.sublist hsub
  serial_lt x hx := hissued ▸ h.serial_lt x (hsub.subset hx)
  stamp_le x hx := Nat.le_trans (h.stamp_le x (hsub.subset hx)) hclock
  front := by
    intro s hs hno hhas y hy
    by_cases hq : q.Has s
    · obtain ⟨x, hx, rfl⟩ := hq
      exact hlost x hx hno hhas y hy
    · exact h.front s (hissued ▸ hs) (fun hmem => hno (hused s hmem)) hq y (hsub.subset hy)

/-- Taking an item leaves the others in order. -/
theorem Ordered.take {q : AgeQueue α} (h : q.Ordered) (i : Nat) : (q.take i).Ordered := by
  refine h.sublist (List.eraseIdx_sublist _ _) le_rfl rfl (fun s hs => List.mem_append_left _ hs) ?_
  intro x hx hno hhas
  exfalso
  rcases lt_or_ge i q.items.length with hlt | hge
  · rcases List.mem_cons.1 ((List.getElem_cons_eraseIdx_perm hlt).mem_iff.2 hx) with rfl | hmem
    · refine hno (List.mem_append_right _ ?_)
      simp [List.getElem?_eq_getElem hlt]
    · exact hhas ⟨x, hmem, rfl⟩
  · exact hhas ⟨x, by simpa [AgeQueue.take, List.eraseIdx_of_length_le hge] using hx, rfl⟩

/-- So does dropping the oldest. -/
theorem Ordered.makeRoom {q : AgeQueue α} (h : q.Ordered) (cap : Nat) :
    (q.makeRoom cap).Ordered := by
  rw [AgeQueue.makeRoom]
  split_ifs
  · refine h.sublist (List.tail_sublist _) le_rfl rfl (fun s hs => hs) ?_
    intro x hx _ hhas y hy
    -- the oldest item is the one that goes
    cases hl : q.items with
    | nil => simp [hl] at hx
    | cons x₀ l =>
      have hpw := h.pairwise
      rw [hl] at hpw
      dsimp only at hhas hy
      rw [hl] at hx hy
      rcases List.mem_cons.1 hx with rfl | hx
      · exact (List.rel_of_pairwise_cons hpw hy).1
      · exact absurd ⟨x, by simpa [hl] using hx, rfl⟩ hhas
  · exact h

/-- A new item has the latest stamp. -/
theorem Ordered.append {q : AgeQueue α} (h : q.Ordered) (v : α) : (q.append v).Ordered where
  pairwise := by
    refine List.pairwise_append.2 ⟨h.pairwise, List.pairwise_singleton _ _, ?_⟩
    intro x hx y hy
    obtain rfl := List.mem_singleton.1 hy
    exact ⟨h.serial_lt x hx, h.stamp_le x hx⟩
  serial_lt := by
    intro x hx
    rcases List.mem_append.1 hx with hx | hx
    · exact Nat.lt_succ_of_lt (h.serial_lt x hx)
    · obtain rfl := List.mem_singleton.1 hx
      exact Nat.lt_succ_self _
  stamp_le := by
    intro x hx
    rcases List.mem_append.1 hx with hx | hx
    · exact h.stamp_le x hx
    · obtain rfl := List.mem_singleton.1 hx
      exact le_rfl
  front := by
    intro s hs hno hhas x hx
    have hlt : s < q.issued := by
      refine lt_of_le_of_ne (Nat.le_of_lt_succ hs) fun heq => hhas ?_
      exact ⟨_, List.mem_append_right _ (List.mem_singleton.2 rfl), heq.symm⟩
    rcases List.mem_append.1 hx with hx | hx
    · refine h.front s hlt hno (fun ⟨y, hy, hs⟩ => hhas ⟨y, List.mem_append_left _ hy, hs⟩) x hx
    · obtain rfl := List.mem_singleton.1 hx
      exact hlt

/-- So a tick, which drops what has become too old, keeps the order. -/
theorem Ordered.tick {q : AgeQueue α} (h : q.Ordered) (limit : Nat) : (q.tick limit).Ordered := by
  refine h.sublist List.filter_sublist (Nat.le_succ _) rfl (fun s hs => hs) ?_
  intro x hx _ hhas y hy
  obtain ⟨hy, hyoung⟩ := List.mem_filter.1 hy
  have hold : ¬ q.clock + 1 - x.stamp < limit := fun hyoung =>
    hhas ⟨x, List.mem_filter.2 ⟨hx, by simpa using hyoung⟩, rfl⟩
  have hyoung : q.clock + 1 - y.stamp < limit := by simpa using hyoung
  -- of two items the one with the smaller stamp comes first
  have hne : x.serial ≠ y.serial := fun heq => hhas ⟨y, List.mem_filter.2 ⟨hy, by simpa⟩, heq.symm⟩
  by_contra hge
  have hxy : y.serial < x.serial := by omega
  have hstamp := h.stamp_mono hy hx hxy
  omega

/-- Putting an item keeps the order. -/
theorem Ordered.put {q : AgeQueue α} (h : q.Ordered) (cap : Nat) (v : α) :
    (q.put cap v).Ordered := (h.makeRoom cap).append v

/-- So does a message. -/
theorem Ordered.apply {q : AgeQueue α} (h : q.Ordered) (cap : Nat) (m : AgeMessage α) :
    (q.apply cap m).Ordered := by
  cases m with
  | take i => exact h.take i
  | put vs =>
    rw [AgeQueue.apply]
    induction vs generalizing q with
    | nil => exact h
    | cons v vs ih => exact ih (h.put cap v)

/-- And a message with the tick after it. -/
theorem Ordered.receive {q : AgeQueue α} (h : q.Ordered) (cap limit : Nat) (m : AgeMessage α) :
    (q.receive cap limit m).Ordered := (h.apply cap m).tick limit

/-- A queue is in order after any number of messages. -/
theorem ordered_after (cap limit : Nat) (msg : Nat → AgeMessage α) (m : Nat) :
    (after cap limit msg m).Ordered := by
  induction m with
  | zero => exact ordered_empty
  | succ m ih => exact ih.receive cap limit (msg m)

/-! ## What a message does to the items -/

section Put

variable (cap : Nat)

@[simp] theorem clock_makeRoom (q : AgeQueue α) : (q.makeRoom cap).clock = q.clock := by
  rw [makeRoom]
  split_ifs <;> rfl

@[simp] theorem issued_makeRoom (q : AgeQueue α) : (q.makeRoom cap).issued = q.issued := by
  rw [makeRoom]
  split_ifs <;> rfl

@[simp] theorem used_makeRoom (q : AgeQueue α) : (q.makeRoom cap).used = q.used := by
  rw [makeRoom]
  split_ifs <;> rfl

/-- Only the item that is pushed out goes. -/
theorem mem_makeRoom {q : AgeQueue α} {x : AgeItem α} (hx : x ∈ q.items) :
    x ∈ (q.makeRoom cap).items ∨ x.serial ∈ (q.makeRoom cap).pushed := by
  rw [makeRoom]
  split_ifs
  · cases hl : q.items with
    | nil => simp [hl] at hx
    | cons x₀ l =>
      rw [hl] at hx
      rcases List.mem_cons.1 hx with rfl | hx
      · right
        simp
      · exact .inl hx
  · exact .inl hx

/-- Making room adds nothing. -/
theorem makeRoom_subset (q : AgeQueue α) : (q.makeRoom cap).items ⊆ q.items := by
  rw [makeRoom]
  split_ifs
  · exact (List.tail_sublist _).subset
  · exact fun x hx => hx

/-- What was pushed out stays so. -/
theorem pushed_makeRoom_mono {q : AgeQueue α} {s : Nat} (hs : s ∈ q.pushed) :
    s ∈ (q.makeRoom cap).pushed := by
  rw [makeRoom]
  split_ifs
  · exact List.mem_append_left _ hs
  · exact hs

/-- What a message does before the clock ticks. The items that were here are here, were taken or
were pushed out; the items that were put in carry the clock's reading; nothing else is here; and the
record of what was taken and pushed out only grows. -/
structure Applied (q r : AgeQueue α) : Prop where
  clock : r.clock = q.clock
  issued : q.issued ≤ r.issued
  used : ∀ s ∈ q.used, s ∈ r.used
  pushed : ∀ s ∈ q.pushed, s ∈ r.pushed
  old : ∀ x ∈ q.items, x ∈ r.items ∨ x.serial ∈ r.used ∨ x.serial ∈ r.pushed
  new : ∀ s, q.issued ≤ s → s < r.issued →
    (∃ x ∈ r.items, x.serial = s ∧ x.stamp = q.clock) ∨ s ∈ r.used ∨ s ∈ r.pushed
  only : ∀ x ∈ r.items, x ∈ q.items ∨ (q.issued ≤ x.serial ∧ x.stamp = q.clock)

/-- Nothing happens to a queue by itself. -/
theorem Applied.refl (q : AgeQueue α) : Applied q q :=
  ⟨rfl, le_rfl, fun _ h => h, fun _ h => h, fun _ h => .inl h,
    fun _ h h' => absurd h' (Nat.not_lt.2 h), fun _ h => .inl h⟩

/-- One change after another. -/
theorem Applied.trans {q r t : AgeQueue α} (h : Applied q r) (h' : Applied r t) :
    Applied q t where
  clock := h'.clock.trans h.clock
  issued := Nat.le_trans h.issued h'.issued
  used s hs := h'.used s (h.used s hs)
  pushed s hs := h'.pushed s (h.pushed s hs)
  old x hx := by
    obtain hx | hx | hx := h.old x hx
    · exact h'.old x hx
    · exact .inr (.inl (h'.used _ hx))
    · exact .inr (.inr (h'.pushed _ hx))
  new s hs hlt := by
    rcases Nat.lt_or_ge s r.issued with hr | hr
    · obtain ⟨x, hx, rfl, hstamp⟩ | huse | hpush := h.new s hs hr
      · exact (h'.old x hx).imp_left fun hx => ⟨x, hx, rfl, hstamp⟩
      · exact .inr (.inl (h'.used s huse))
      · exact .inr (.inr (h'.pushed s hpush))
    · rw [← h.clock]
      exact h'.new s hr hlt
  only x hx := by
    obtain hx | ⟨hs, hstamp⟩ := h'.only x hx
    · exact h.only x hx
    · exact .inr ⟨Nat.le_trans h.issued hs, hstamp.trans h.clock⟩

/-- What taking an item does. -/
theorem applied_take (q : AgeQueue α) (i : Nat) : Applied q (q.take i) where
  clock := rfl
  issued := le_rfl
  used _ hs := List.mem_append_left _ hs
  pushed _ hs := hs
  old x hx := by
    rcases lt_or_ge i q.items.length with hlt | hge
    · rcases List.mem_cons.1 ((List.getElem_cons_eraseIdx_perm hlt).mem_iff.2 hx) with rfl | hmem
      · right
        left
        refine List.mem_append_right _ ?_
        simp [List.getElem?_eq_getElem hlt]
      · exact .inl hmem
    · exact .inl (by simpa [take, List.eraseIdx_of_length_le hge] using hx)
  new _ h h' := absurd h' (Nat.not_lt.2 h)
  only _ hx := .inl (List.mem_of_mem_eraseIdx hx)

/-- What making room does. -/
theorem applied_makeRoom (q : AgeQueue α) : Applied q (q.makeRoom cap) where
  clock := clock_makeRoom cap q
  issued := Nat.le_of_eq (issued_makeRoom cap q).symm
  used _ hs := (used_makeRoom cap q).symm ▸ hs
  pushed _ hs := pushed_makeRoom_mono cap hs
  old _ hx := (mem_makeRoom cap hx).imp_right .inr
  new _ h h' := absurd (issued_makeRoom cap q ▸ h') (Nat.not_lt.2 h)
  only _ hx := .inl (makeRoom_subset cap q hx)

/-- What appending does. -/
theorem applied_append (q : AgeQueue α) (v : α) : Applied q (q.append v) where
  clock := rfl
  issued := Nat.le_succ _
  used _ hs := hs
  pushed _ hs := hs
  old _ hx := .inl (List.mem_append_left _ hx)
  new s h h' := by
    left
    refine ⟨_, List.mem_append_right _ (List.mem_singleton.2 rfl), ?_, rfl⟩
    exact Nat.le_antisymm h (Nat.le_of_lt_succ h')
  only x hx := by
    rcases List.mem_append.1 hx with hx | hx
    · exact .inl hx
    · obtain rfl := List.mem_singleton.1 hx
      exact .inr ⟨le_rfl, rfl⟩

/-- So what a message does. -/
theorem applied_apply (q : AgeQueue α) (m : AgeMessage α) : Applied q (q.apply cap m) := by
  cases m with
  | take i => exact applied_take q i
  | put vs =>
    rw [apply]
    induction vs generalizing q with
    | nil => exact Applied.refl q
    | cons v vs ih =>
      exact ((applied_makeRoom cap q).trans (applied_append _ v)).trans (ih (q.put cap v))

end Put

/-! ## Runs -/

section Runs

variable {cap limit : Nat} {msg : Nat → AgeMessage α}

/-- What the clock of a queue says: how many messages there were. -/
theorem clock_after (m : Nat) : (after cap limit msg m).clock = m := by
  induction m with
  | zero => rfl
  | succ m ih =>
    show ((after cap limit msg m).apply cap (msg m)).clock + 1 = m + 1
    rw [(applied_apply cap _ _).clock, ih]

/-- Stamps are given out in order. -/
theorem issued_mono {m n : Nat} (h : m ≤ n) :
    (after cap limit msg m).issued ≤ (after cap limit msg n).issued := by
  induction n, h using Nat.le_induction with
  | base => exact le_rfl
  | succ n _ ih => exact Nat.le_trans ih (applied_apply cap _ (msg n)).issued

/-- The items of a queue are younger than the limit. -/
theorem young (m : Nat) {x : AgeItem α}
    (hx : x ∈ (after cap limit msg m).items) :
    (after cap limit msg m).clock - x.stamp < limit := by
  cases m with
  | zero => cases hx
  | succ m =>
    obtain ⟨-, hyoung⟩ := List.mem_filter.1 hx
    exact of_decide_eq_true hyoung

/-- The item with serial number `s` was put in by message `k`. -/
def PutAt (cap limit : Nat) (msg : Nat → AgeMessage α) (k s : Nat) : Prop :=
  (after cap limit msg k).issued ≤ s ∧ s < (after cap limit msg (k + 1)).issued

/-- Every item carries the number of the message that put it in. -/
theorem stamp_eq {k m : Nat} {x : AgeItem α} (hx : x ∈ (after cap limit msg m).items)
    (hk : PutAt cap limit msg k x.serial) : x.stamp = k := by
  induction m with
  | zero => cases hx
  | succ m ih =>
    obtain ⟨hx, -⟩ := List.mem_filter.1 hx
    obtain hold | ⟨hnew, hstamp⟩ := (applied_apply cap _ (msg m)).only x hx
    · exact ih hold
    · -- the message that put it in is the last one
      rw [clock_after] at hstamp
      rw [hstamp]
      have hlt : x.serial < (after cap limit msg (m + 1)).issued := by
        exact ((ordered_after cap limit msg m).apply cap (msg m)).serial_lt x hx
      rcases Nat.lt_trichotomy m k with hmk | rfl | hmk
      · exact absurd (Nat.lt_of_lt_of_le hlt (issued_mono hmk)) (Nat.not_lt.2 hk.1)
      · rfl
      · exact absurd (Nat.lt_of_lt_of_le hk.2 (issued_mono hmk)) (Nat.not_lt.2 hnew)

/-- An item that is not taken and not pushed out is there until its age reaches the limit. -/
theorem kept {k m s : Nat} (hk : PutAt cap limit msg k s) (hkm : k < m) (hage : m - k < limit)
    (huse : s ∉ (after cap limit msg m).used) (hpush : s ∉ (after cap limit msg m).pushed) :
    (after cap limit msg m).Has s := by
  obtain ⟨x, hx, hs, -⟩ : ∃ x ∈ (after cap limit msg m).items, x.serial = s ∧ x.stamp = k := by
    induction m, hkm using Nat.le_induction with
    | base =>
      obtain ⟨x, hx, hs, hstamp⟩ | huse' | hpush' :=
        (applied_apply cap (after cap limit msg k) (msg k)).new s hk.1 hk.2
      · refine ⟨x, List.mem_filter.2 ⟨hx, ?_⟩, hs, hstamp.trans (clock_after k)⟩
        rw [(applied_apply cap _ _).clock, hstamp, clock_after]
        simpa using hage
      · exact absurd huse' huse
      · exact absurd hpush' hpush
    | succ m hkm ih =>
      have happ := applied_apply cap (after cap limit msg m) (msg m)
      obtain ⟨x, hx, rfl, hstamp⟩ := ih (by omega) (fun h => huse (happ.used s h))
        (fun h => hpush (happ.pushed s h))
      obtain hx | huse' | hpush' := happ.old x hx
      · refine ⟨x, List.mem_filter.2 ⟨hx, ?_⟩, rfl, hstamp⟩
        rw [happ.clock, hstamp, clock_after]
        simpa using hage
      · exact absurd huse' huse
      · exact absurd hpush' hpush
  exact ⟨x, hx, hs⟩

/-- Once the age of an item has reached the limit it is gone. -/
theorem gone {k m s : Nat} (hk : PutAt cap limit msg k s)
    (hage : limit ≤ m - k) : ¬ (after cap limit msg m).Has s := by
  rintro ⟨x, hx, rfl⟩
  have hyoung := young m hx
  rw [clock_after, stamp_eq hx hk] at hyoung
  omega

/-- When an item is gone and was not taken, every older one is gone too. -/
theorem older_gone {m s s' : Nat} (hss : s < s') (hs' : s' < (after cap limit msg m).issued)
    (huse : s' ∉ (after cap limit msg m).used) (hgone : ¬ (after cap limit msg m).Has s') :
    ¬ (after cap limit msg m).Has s := by
  rintro ⟨x, hx, rfl⟩
  exact Nat.lt_asymm hss ((ordered_after cap limit msg m).front s' hs' huse hgone x hx)

end Runs

end AgeQueue
