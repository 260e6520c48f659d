import Geryon.Suite
import Mathlib.Data.List.Nodup
import Mathlib.Data.List.Range

/-!
# The skipped-message-key store

The bounded store of `ratchet/dr_common.c`: entries oldest first, each holding one reference to a
slot of the epoch table, which keeps the header key its chain was received under.

## Main definitions

* `SkipStore.view`: what the store is for, a list of message keys by header key and number;
* `SkipStore.Inv`: the reference counts are exact and two live slots never hold one header key;
* `SkipStore.Grows`: how a store may change while keys are added, with every key that goes missing
  accounted for in the history variable `lost`.

## Main results

* `view_storeRemove`, `grows_storeInsert`, `grows_storePostSuccess`: the three operations on the
  view;
* `inv_storeRemove`, `inv_storeInsert`, `inv_storePostSuccess`: they keep the invariant.
-/

namespace Geryon

/-- `GY_MAX_SKIP`: the largest key jump of one header, and the capacity of the store. -/
def maxSkip : Nat := 1000

/-- `GY_SKIP_AGE_LIMIT`. -/
def skipAgeLimit : UInt64 := 1000

/-- One skipped message key (`struct gy_skipped_key`). -/
structure SkippedKey (β : Type) where
  epoch : Nat
  n : UInt32
  age : UInt64
  msgKey : Bytes β

/-- One slot of the epoch table (`struct gy_skip_epoch`); live while `refs > 0`. -/
structure SkipEpoch (β : Type) where
  hk : Bytes β
  refs : Nat

/-- `struct gy_skip_store`. The entries are the compacted prefix `[0, count)` of the C array. `lost`
is a history variable that no function reads: the message keys dropped by capacity or by age. -/
structure SkipStore (β : Type) where
  ent : List (SkippedKey β)
  epochs : Nat → SkipEpoch β
  recvCount : UInt64
  lost : List (Bytes β)

variable {β : Type}

section Operations

variable [Octet β]

/-- The zeroed store a session starts with. -/
def SkipStore.empty : SkipStore β := ⟨[], fun _ => ⟨zeros drKeyLen, 0⟩, 0, []⟩

/-- `epoch_unref`: drop one reference, wiping the slot when it was the last. -/
def epochUnref (s : SkipStore β) (ep : Nat) : SkipStore β :=
  if (s.epochs ep).refs > 0 then
    if (s.epochs ep).refs - 1 = 0 then
      { s with epochs := Function.update s.epochs ep ⟨zeros drKeyLen, 0⟩ }
    else
      { s with epochs := Function.update s.epochs ep ⟨(s.epochs ep).hk, (s.epochs ep).refs - 1⟩ }
  else s

/-- `gy_drc_store_remove`. -/
def storeRemove (s : SkipStore β) (idx : Nat) : SkipStore β :=
  match s.ent[idx]? with
  | none => s
  | some e => { epochUnref s e.epoch with ent := s.ent.eraseIdx idx }

/-- Drop an entry to make room or because of its age, recording its key as lost. -/
def storeEvict (s : SkipStore β) (idx : Nat) : SkipStore β :=
  ⟨(storeRemove s idx).ent, (storeRemove s idx).epochs, (storeRemove s idx).recvCount,
    s.lost ++ s.ent[idx]?.toList.map (·.msgKey)⟩

section Insert

variable [DecidableEq β]

/-- `epoch_intern`: the live slot that holds `hk`, else the first free one with `hk` copied in. -/
def epochIntern (s : SkipStore β) (hk : Bytes β) : Nat × SkipStore β :=
  match (List.range maxSkip).find? fun i => (s.epochs i).refs ≠ 0 ∧ (s.epochs i).hk = hk with
  | some i => (i, s)
  | none =>
    let free := ((List.range maxSkip).find? fun i => (s.epochs i).refs = 0).getD maxSkip
    (free, { s with epochs := Function.update s.epochs free ⟨hk, (s.epochs free).refs⟩ })

/-- Evict the oldest entry when the store is full. -/
def storeEvictOldest (s : SkipStore β) : SkipStore β :=
  if s.ent.length = maxSkip then storeEvict s 0 else s

/-- Append an entry that takes a reference to slot `ep`. -/
def storeAppend (t : SkipStore β) (ep : Nat) (n : UInt32) (mk : Bytes β) : SkipStore β :=
  { t with
    ent := t.ent ++ [⟨ep, n, t.recvCount, mk⟩]
    epochs := Function.update t.epochs ep ⟨(t.epochs ep).hk, (t.epochs ep).refs + 1⟩ }

/-- `store_insert`. -/
def storeInsert (s : SkipStore β) (hk : Bytes β) (n : UInt32) (mk : Bytes β) : SkipStore β :=
  let r := epochIntern (storeEvictOldest s) hk
  storeAppend r.2 r.1 n mk

end Insert

/-- The loop of `gy_drc_store_post_success` from position `i`. Every pass either drops an entry or
moves past one, so one pass per entry is enough. -/
def storeEvictAged : Nat → Nat → SkipStore β → SkipStore β
  | 0, _, s => s
  | fuel + 1, i, s =>
    match s.ent[i]? with
    | none => s
    | some e =>
      if s.recvCount - e.age ≥ skipAgeLimit then
        storeEvictAged fuel i (storeEvict s i)
      else storeEvictAged fuel (i + 1) s

/-- `gy_drc_store_post_success`: advance the aging clock and evict aged entries. -/
def storePostSuccess (s : SkipStore β) : SkipStore β :=
  storeEvictAged s.ent.length 0 { s with recvCount := s.recvCount + 1 }

end Operations

namespace SkipStore

/-! ## The abstract view -/

/-- A held message key: the header key of its chain, its number and the key. -/
structure Held (β : Type) where
  hk : Bytes β
  n : UInt32
  msgKey : Bytes β

/-- What an entry stands for in a store. -/
def held (s : SkipStore β) (e : SkippedKey β) : Held β := ⟨(s.epochs e.epoch).hk, e.n, e.msgKey⟩

/-- The message keys a store holds, oldest first. -/
def view (s : SkipStore β) : List (Held β) := s.ent.map s.held

/-- The store's bookkeeping is right: it is within capacity, every slot counts exactly the entries
that refer to it, and two live slots never hold one header key. -/
structure Inv (s : SkipStore β) : Prop where
  length_le : s.ent.length ≤ maxSkip
  refs_eq : ∀ i, (s.epochs i).refs = s.ent.countP (·.epoch = i)
  slot_lt : ∀ e ∈ s.ent, e.epoch < maxSkip
  hk_inj : ∀ i j, (s.epochs i).refs ≠ 0 → (s.epochs j).refs ≠ 0 →
    (s.epochs i).hk = (s.epochs j).hk → i = j

/-- `t` comes from `s` by adding the keys `new`, possibly losing some: what `t` holds was there or
is new, in order, and what is missing, and nothing else, is recorded in `t.lost`. -/
structure Grows (s : SkipStore β) (new : List (Held β)) (t : SkipStore β) : Prop where
  sub : t.view.Sublist (s.view ++ new)
  kept : ∀ x ∈ s.view ++ new, x ∈ t.view ∨ x.msgKey ∈ t.lost
  lost_mono : ∀ k ∈ s.lost, k ∈ t.lost
  lost_of : ∀ k ∈ t.lost, k ∈ s.lost ∨ ∃ x ∈ s.view ++ new, x.msgKey = k

/-- A store that is left grows by nothing. -/
theorem Grows.refl (s : SkipStore β) : s.Grows [] s :=
  ⟨by simp, by simp; tauto, fun _ h => h, fun _ h => .inl h⟩

/-- Changes of a store compose. -/
theorem Grows.trans {s t u : SkipStore β} {a b : List (Held β)} (h : s.Grows a t)
    (h' : t.Grows b u) : s.Grows (a ++ b) u where
  sub := by
    rw [← List.append_assoc]
    exact h'.sub.trans (h.sub.append (List.Sublist.refl b))
  kept := by
    intro x hx
    rw [← List.append_assoc, List.mem_append] at hx
    rcases hx with hx | hx
    -- an entry of the first store is still there or lost after each of the two steps
    · rcases h.kept x hx with hx | hx
      · exact h'.kept x (List.mem_append_left b hx)
      · exact .inr (h'.lost_mono _ hx)
    · exact h'.kept x (List.mem_append_right _ hx)
  lost_mono := fun k hk => h'.lost_mono k (h.lost_mono k hk)
  lost_of := by
    intro k hk
    rw [← List.append_assoc]
    -- a key that is lost in the end was lost before or was held at the start or added
    rcases h'.lost_of k hk with hk | ⟨x, hx, rfl⟩
    · rcases h.lost_of k hk with hk | ⟨x, hx, rfl⟩
      · exact .inl hk
      · exact .inr ⟨x, List.mem_append_left _ hx, rfl⟩
    · rcases List.mem_append.mp hx with hx | hx
      · exact .inr ⟨x, List.mem_append_left _ (h.sub.subset hx), rfl⟩
      · exact .inr ⟨x, List.mem_append_right _ hx, rfl⟩

/-- A slot an entry refers to is live. -/
theorem Inv.refs_pos {s : SkipStore β} (hs : s.Inv) {e : SkippedKey β} (he : e ∈ s.ent) :
    0 < (s.epochs e.epoch).refs := by
  rw [hs.refs_eq, List.countP_pos_iff]
  exact ⟨e, he, by simp⟩

/-- A live slot is inside the table and some entry refers to it. -/
theorem Inv.exists_entry {s : SkipStore β} (hs : s.Inv) {i : Nat} (hi : (s.epochs i).refs ≠ 0) :
    ∃ e ∈ s.ent, e.epoch = i := by
  rw [hs.refs_eq, ← Nat.pos_iff_ne_zero, List.countP_pos_iff] at hi
  simpa using hi

/-- Live slots are within the table. -/
theorem Inv.lt_of_live {s : SkipStore β} (hs : s.Inv) {i : Nat} (hi : (s.epochs i).refs ≠ 0) :
    i < maxSkip := by
  obtain ⟨e, he, rfl⟩ := hs.exists_entry hi
  exact hs.slot_lt e he

/-- Entries of a list that keep their slots' header keys keep their view. -/
theorem map_held_congr {s t : SkipStore β} {l : List (SkippedKey β)}
    (h : ∀ e ∈ l, (t.epochs e.epoch).hk = (s.epochs e.epoch).hk) :
    l.map t.held = l.map s.held :=
  List.map_congr_left fun e he => by simp [held, h e he]

/-- A full table of live slots needs a full store, so a slot is free while there is room. -/
theorem Inv.exists_free {s : SkipStore β} (hs : s.Inv) (hlen : s.ent.length < maxSkip) :
    ∃ i < maxSkip, (s.epochs i).refs = 0 := by
  by_contra hfull
  push Not at hfull
  have hsub : List.range maxSkip ⊆ s.ent.map (·.epoch) := by
    intro i hi
    obtain ⟨e, he, rfl⟩ := hs.exists_entry (hfull i (List.mem_range.mp hi))
    exact List.mem_map_of_mem he
  have hle := (List.nodup_range.subperm hsub).length_le
  simp at hle
  omega

/-- Counting around a removed entry. -/
theorem countP_eraseIdx_of_get {l : List (SkippedKey β)} {idx : Nat} {e : SkippedKey β}
    (h : l[idx]? = some e) (p : SkippedKey β → Bool) :
    l.countP p = (l.eraseIdx idx).countP p + if p e then 1 else 0 := by
  obtain ⟨hlt, rfl⟩ := List.getElem?_eq_some_iff.mp h
  rw [← (List.getElem_cons_eraseIdx_perm hlt).countP_eq p, List.countP_cons]

variable [Octet β]

@[simp] theorem view_empty : (SkipStore.empty : SkipStore β).view = [] := rfl

/-- The empty store satisfies the invariant. -/
theorem inv_empty : (SkipStore.empty : SkipStore β).Inv :=
  ⟨by simp [SkipStore.empty], by simp [SkipStore.empty], by simp [SkipStore.empty],
    by simp [SkipStore.empty]⟩

/-! ## Removing an entry -/

@[simp] theorem ent_epochUnref (s : SkipStore β) (ep : Nat) : (epochUnref s ep).ent = s.ent := by
  unfold epochUnref
  split_ifs <;> rfl

@[simp] theorem lost_epochUnref (s : SkipStore β) (ep : Nat) :
    (epochUnref s ep).lost = s.lost := by
  unfold epochUnref
  split_ifs <;> rfl

/-- Dropping a reference counts one slot down. -/
theorem refs_epochUnref (s : SkipStore β) (ep i : Nat) :
    ((epochUnref s ep).epochs i).refs =
      if i = ep then (s.epochs ep).refs - 1 else (s.epochs i).refs := by
  unfold epochUnref
  by_cases hi : i = ep
  · subst hi
    rw [if_pos rfl]
    split_ifs with hpos hlast
    · simp [hlast]
    · simp
    · omega
  · split_ifs <;> simp [hi]

/-- A slot that stays live keeps its header key. -/
theorem hk_epochUnref {s : SkipStore β} {ep i : Nat}
    (hlive : ((epochUnref s ep).epochs i).refs ≠ 0) :
    ((epochUnref s ep).epochs i).hk = (s.epochs i).hk := by
  unfold epochUnref at hlive ⊢
  by_cases hi : i = ep
  · subst hi
    split_ifs at hlive ⊢ <;> simp_all
  · split_ifs <;> simp [hi]

/-- Removing an entry that is there. -/
theorem storeRemove_of_get {s : SkipStore β} {idx : Nat} {e : SkippedKey β}
    (h : s.ent[idx]? = some e) :
    storeRemove s idx = { epochUnref s e.epoch with ent := s.ent.eraseIdx idx } := by
  simp [storeRemove, h]

@[simp] theorem lost_storeRemove (s : SkipStore β) (idx : Nat) :
    (storeRemove s idx).lost = s.lost := by
  unfold storeRemove
  split <;> simp

/-- Afterwards every slot still counts its entries. -/
theorem refs_storeRemove {s : SkipStore β} (hs : s.Inv) (idx i : Nat) :
    ((storeRemove s idx).epochs i).refs = (storeRemove s idx).ent.countP (·.epoch = i) := by
  rcases h : s.ent[idx]? with _ | e
  · simpa [storeRemove, h] using hs.refs_eq i
  · have hcount := countP_eraseIdx_of_get h (·.epoch = i)
    rw [storeRemove_of_get h]
    simp only [refs_epochUnref, hs.refs_eq]
    split_ifs with hi
    · subst hi
      simp only [decide_true, if_true] at hcount
      omega
    · have hne : e.epoch ≠ i := fun h => hi h.symm
      simp only [hne, decide_false, Bool.false_eq_true, if_false] at hcount
      omega

/-- Slots that stay live keep their key. -/
theorem hk_storeRemove {s : SkipStore β} {idx i : Nat}
    (hlive : ((storeRemove s idx).epochs i).refs ≠ 0) :
    ((storeRemove s idx).epochs i).hk = (s.epochs i).hk := by
  rcases h : s.ent[idx]? with _ | e
  · simp [storeRemove, h]
  · rw [storeRemove_of_get h] at hlive ⊢
    exact hk_epochUnref hlive

/-- The entries without the one that is removed. -/
theorem ent_storeRemove (s : SkipStore β) (idx : Nat) :
    (storeRemove s idx).ent = s.ent.eraseIdx idx := by
  rcases h : s.ent[idx]? with _ | e
  · rw [List.eraseIdx_of_length_le (List.getElem?_eq_none_iff.mp h)]
    simp [storeRemove, h]
  · simp [storeRemove_of_get h]

/-- A slot that is live after a removal was live before it. -/
theorem live_of_live_storeRemove {s : SkipStore β} (hs : s.Inv) {idx i : Nat}
    (hlive : ((storeRemove s idx).epochs i).refs ≠ 0) : (s.epochs i).refs ≠ 0 := by
  rw [refs_storeRemove hs, ← Nat.pos_iff_ne_zero, List.countP_pos_iff, ent_storeRemove] at hlive
  obtain ⟨e, he, hi⟩ := hlive
  obtain rfl : e.epoch = i := by simpa using hi
  exact (hs.refs_pos (List.mem_of_mem_eraseIdx he)).ne'

/-- Removing an entry keeps the invariant. -/
theorem inv_storeRemove {s : SkipStore β} (hs : s.Inv) (idx : Nat) : (storeRemove s idx).Inv where
  length_le := by
    rw [ent_storeRemove]
    exact (List.length_eraseIdx_le _ _).trans hs.length_le
  refs_eq := refs_storeRemove hs idx
  slot_lt := by
    intro e he
    rw [ent_storeRemove] at he
    exact hs.slot_lt e (List.mem_of_mem_eraseIdx he)
  hk_inj := by
    intro i j hi hj hij
    rw [hk_storeRemove hi, hk_storeRemove hj] at hij
    exact hs.hk_inj i j (live_of_live_storeRemove hs hi) (live_of_live_storeRemove hs hj) hij

/-- Removing an entry removes exactly its key from the view. -/
theorem view_storeRemove {s : SkipStore β} (hs : s.Inv) (idx : Nat) :
    (storeRemove s idx).view = s.view.eraseIdx idx := by
  have hkeep : (storeRemove s idx).view = (storeRemove s idx).ent.map s.held :=
    map_held_congr fun e he =>
      hk_storeRemove ((inv_storeRemove hs idx).refs_pos he).ne'
  rw [hkeep, ent_storeRemove, view, List.eraseIdx_map]

/-- So does evicting one. -/
theorem inv_storeEvict {s : SkipStore β} (hs : s.Inv) (idx : Nat) : (storeEvict s idx).Inv :=
  have h := inv_storeRemove hs idx
  ⟨h.length_le, h.refs_eq, h.slot_lt, h.hk_inj⟩

/-- An eviction loses at most the key it records. -/
theorem grows_storeEvict {s : SkipStore β} (hs : s.Inv) (idx : Nat) :
    s.Grows [] (storeEvict s idx) := by
  have hview : (storeEvict s idx).view = s.view.eraseIdx idx := view_storeRemove hs idx
  refine ⟨?_, ?_, fun k hk => List.mem_append_left _ hk, ?_⟩
  · rw [hview, List.append_nil]
    exact List.eraseIdx_sublist _ _
  · intro x hx
    rw [List.append_nil] at hx
    rw [hview]
    -- an index past the end evicts nothing
    rcases lt_or_ge idx s.ent.length with hlt | hge
    · have hlt' : idx < s.view.length := by simpa [view] using hlt
      -- the evicted entry is the one that becomes lost
      rcases List.mem_cons.mp ((List.getElem_cons_eraseIdx_perm hlt').mem_iff.mpr hx) with rfl | hx
      · right
        simp [storeEvict, view, held, hlt]
      · exact .inl hx
    · left
      rwa [List.eraseIdx_of_length_le (by simpa [view] using hge)]
  · intro k hk
    rcases List.mem_append.mp hk with hk | hk
    · exact .inl hk
    · obtain ⟨e, he, rfl⟩ := List.mem_map.mp hk
      rw [Option.mem_toList] at he
      rw [List.append_nil]
      exact .inr ⟨s.held e, List.mem_map_of_mem (List.mem_of_getElem? he), rfl⟩

/-! ## Inserting an entry -/

/-- Evicting the oldest key of a full store records it. -/
theorem grows_storeEvictOldest {s : SkipStore β} (hs : s.Inv) :
    s.Grows [] (storeEvictOldest s) := by
  unfold storeEvictOldest
  split_ifs
  · exact grows_storeEvict hs 0
  · exact Grows.refl s

/-- So does evicting the oldest. -/
theorem inv_storeEvictOldest {s : SkipStore β} (hs : s.Inv) : (storeEvictOldest s).Inv := by
  unfold storeEvictOldest
  split_ifs
  · exact inv_storeEvict hs 0
  · exact hs

/-- After the eviction there is room for one entry. -/
theorem length_storeEvictOldest_lt {s : SkipStore β} (hs : s.Inv) :
    (storeEvictOldest s).ent.length < maxSkip := by
  unfold storeEvictOldest
  split_ifs with hfull
  · simp only [storeEvict, ent_storeRemove, List.length_eraseIdx, hfull]
    decide
  · exact lt_of_le_of_ne hs.length_le hfull

variable [DecidableEq β]

/-- What `epoch_intern` guarantees of the slot it returns and of the table it leaves. -/
structure Interned (s : SkipStore β) (hk : Bytes β) (ep : Nat) (t : SkipStore β) : Prop where
  lt : ep < maxSkip
  ent : t.ent = s.ent
  lost : t.lost = s.lost
  refs : ∀ i, (t.epochs i).refs = (s.epochs i).refs
  hk_self : (t.epochs ep).hk = hk
  hk_live : ∀ i, (s.epochs i).refs ≠ 0 → (t.epochs i).hk = (s.epochs i).hk
  unique : ∀ i, (s.epochs i).refs ≠ 0 → (s.epochs i).hk = hk → i = ep

omit [Octet β] in
/-- A header key gets the slot it has, or a free one: there is one while the store is not full. -/
theorem interned_epochIntern {s : SkipStore β} (hs : s.Inv) (hlen : s.ent.length < maxSkip)
    (hk : Bytes β) : Interned s hk (epochIntern s hk).1 (epochIntern s hk).2 := by
  unfold epochIntern
  split
  · next i hfind =>
    have hi := List.find?_some hfind
    simp only [ne_eq, decide_eq_true_eq] at hi
    have hmem := List.mem_range.mp (List.mem_of_find?_eq_some hfind)
    exact ⟨hmem, rfl, rfl, fun _ => rfl, hi.2, fun _ _ => rfl,
      fun j hj hjk => hs.hk_inj j i hj hi.1 (hjk.trans hi.2.symm)⟩
  · next hnone =>
    rw [List.find?_eq_none] at hnone
    -- no live slot holds `hk`, so the key goes into a free one
    obtain ⟨i, hi, hfree⟩ := hs.exists_free hlen
    obtain ⟨j, hj⟩ : ∃ j, (List.range maxSkip).find? (fun i => (s.epochs i).refs = 0) = some j := by
      rw [← Option.isSome_iff_exists, List.find?_isSome]
      exact ⟨i, List.mem_range.mpr hi, by simpa using hfree⟩
    have hjfree : (s.epochs j).refs = 0 := by simpa using List.find?_some hj
    have hjlt := List.mem_range.mp (List.mem_of_find?_eq_some hj)
    simp only [hj, Option.getD_some]
    refine ⟨hjlt, rfl, rfl, ?_, by simp, ?_, ?_⟩
    · intro i
      by_cases h : i = j
      · subst h; simp
      · simp [h]
    · intro i hi
      have h : i ≠ j := fun h => hi (h ▸ hjfree)
      simp [h]
    · intro i hi hik
      have := hnone i (List.mem_range.mpr (hs.lt_of_live hi))
      simp [hi, hik] at this

omit [Octet β] [DecidableEq β] in
/-- Appending keeps the view and adds the new key at its end. -/
theorem view_storeAppend {s t : SkipStore β} {hk : Bytes β} {ep : Nat} (hs : s.Inv)
    (hin : Interned s hk ep t) (n : UInt32) (mk : Bytes β) :
    (storeAppend t ep n mk).view = s.view ++ [⟨hk, n, mk⟩] := by
  have hheld : ∀ e ∈ s.ent,
      ((storeAppend t ep n mk).epochs e.epoch).hk = (s.epochs e.epoch).hk := by
    intro e he
    rw [← hin.hk_live _ (hs.refs_pos he).ne']
    by_cases h : e.epoch = ep
    · simp [storeAppend, h]
    · simp [storeAppend, h]
  have hnew : ((storeAppend t ep n mk).epochs ep).hk = hk := by
    simp [storeAppend, hin.hk_self]
  calc (storeAppend t ep n mk).view
      = s.ent.map (storeAppend t ep n mk).held ++
          [(storeAppend t ep n mk).held ⟨ep, n, t.recvCount, mk⟩] := by
        simp [view, storeAppend, hin.ent]
    _ = s.view ++ [⟨hk, n, mk⟩] := by
        rw [map_held_congr hheld, held, hnew, view]

omit [Octet β] [DecidableEq β] in
/-- Appending an entry under an interned key keeps the invariant. -/
theorem inv_storeAppend {s t : SkipStore β} {hk : Bytes β} {ep : Nat} (hs : s.Inv)
    (hlen : s.ent.length < maxSkip) (hin : Interned s hk ep t) (n : UInt32) (mk : Bytes β) :
    (storeAppend t ep n mk).Inv := by
  -- only the epoch of the new entry gains a reference
  have hlive : ∀ i, ((storeAppend t ep n mk).epochs i).refs ≠ 0 →
      i = ep ∨ (s.epochs i).refs ≠ 0 := by
    intro i hi
    by_cases h : i = ep
    · exact .inl h
    · exact .inr (by simpa [storeAppend, h, hin.refs] using hi)
  have hheld : ∀ i, ((storeAppend t ep n mk).epochs i).hk = (t.epochs i).hk := by
    intro i
    by_cases h : i = ep
    · simp [storeAppend, h]
    · simp [storeAppend, h]
  refine ⟨?_, ?_, ?_, ?_⟩
  · simp only [storeAppend, hin.ent, List.length_append, List.length_cons, List.length_nil]
    omega
  · intro i
    by_cases h : i = ep
    · subst h
      simp [storeAppend, hin.ent, hin.refs, hs.refs_eq]
    · have h' : ep ≠ i := fun e => h e.symm
      simp [storeAppend, hin.ent, h, h', hin.refs, hs.refs_eq]
  · intro e he
    simp only [storeAppend, hin.ent, List.mem_append, List.mem_singleton] at he
    rcases he with he | rfl
    · exact hs.slot_lt e he
    · exact hin.lt
  · intro i j hi hj hij
    rw [hheld, hheld] at hij
    -- two live epochs with one header key: the interned one was unique already
    rcases hlive i hi with rfl | hi' <;> rcases hlive j hj with rfl | hj'
    · rfl
    · rw [hin.hk_self, hin.hk_live j hj'] at hij
      exact (hin.unique j hj' hij.symm).symm
    · rw [hin.hk_self, hin.hk_live i hi'] at hij
      exact hin.unique i hi' hij
    · rw [hin.hk_live i hi', hin.hk_live j hj'] at hij
      exact hs.hk_inj i j hi' hj' hij

/-- So an insertion does, which makes room first. -/
theorem inv_storeInsert {s : SkipStore β} (hs : s.Inv) (hk : Bytes β) (n : UInt32)
    (mk : Bytes β) : (storeInsert s hk n mk).Inv :=
  have hs' := inv_storeEvictOldest hs
  have hlen := length_storeEvictOldest_lt hs
  inv_storeAppend hs' hlen (interned_epochIntern hs' hlen hk) n mk

omit [Octet β] [DecidableEq β] in
/-- An insertion grows the store by one key. -/
theorem grows_storeAppend {s t : SkipStore β} {hk : Bytes β} {ep : Nat} (hs : s.Inv)
    (hin : Interned s hk ep t) (n : UInt32) (mk : Bytes β) :
    s.Grows [⟨hk, n, mk⟩] (storeAppend t ep n mk) := by
  have hview := view_storeAppend hs hin n mk
  have hlost : (storeAppend t ep n mk).lost = s.lost := hin.lost
  exact ⟨hview ▸ List.Sublist.refl _, fun x hx => .inl (hview ▸ hx), fun k hk => hlost ▸ hk,
    fun k hk => .inl (hlost ▸ hk)⟩

/-- An insertion adds one key, at the price of the oldest when the store is full. -/
theorem grows_storeInsert {s : SkipStore β} (hs : s.Inv) (hk : Bytes β) (n : UInt32)
    (mk : Bytes β) : s.Grows [⟨hk, n, mk⟩] (storeInsert s hk n mk) :=
  have hs' := inv_storeEvictOldest hs
  have hin := interned_epochIntern hs' (length_storeEvictOldest_lt hs) hk
  (grows_storeEvictOldest hs).trans (grows_storeAppend hs' hin n mk)

/-! ## Aging -/

omit [DecidableEq β] in
/-- The loop over the aged entries keeps the invariant and only drops. -/
theorem storeEvictAged_spec (fuel : Nat) : ∀ (i : Nat) (s : SkipStore β), s.Inv →
    (storeEvictAged fuel i s).Inv ∧ s.Grows [] (storeEvictAged fuel i s) := by
  induction fuel with
  | zero => exact fun i s hs => ⟨hs, Grows.refl s⟩
  | succ fuel ih =>
    intro i s hs
    rw [storeEvictAged]
    split
    · exact ⟨hs, Grows.refl s⟩
    · next e he =>
      split_ifs
      · -- the entry at `i` has aged out: it leaves the view and enters `lost`
        obtain ⟨h₁, h₂⟩ := ih i _ (inv_storeEvict hs i)
        exact ⟨h₁, (grows_storeEvict hs i).trans h₂⟩
      · exact ih (i + 1) s hs

omit [DecidableEq β] in
/-- What follows a successful decryption keeps the invariant. -/
theorem inv_storePostSuccess {s : SkipStore β} (hs : s.Inv) : (storePostSuccess s).Inv :=
  (storeEvictAged_spec s.ent.length 0 { s with recvCount := s.recvCount + 1 }
    ⟨hs.length_le, hs.refs_eq, hs.slot_lt, hs.hk_inj⟩).1

omit [DecidableEq β] in
/-- A successful decryption may age keys out, and records those it drops. -/
theorem grows_storePostSuccess {s : SkipStore β} (hs : s.Inv) :
    s.Grows [] (storePostSuccess s) := by
  have h := (storeEvictAged_spec s.ent.length 0 { s with recvCount := s.recvCount + 1 }
    ⟨hs.length_le, hs.refs_eq, hs.slot_lt, hs.hk_inj⟩).2
  exact ⟨h.sub, h.kept, h.lost_mono, h.lost_of⟩

omit [DecidableEq β] in
/-- Aging drops nothing while every entry is young. -/
theorem storePostSuccess_of_young {s : SkipStore β}
    (h : ∀ e ∈ s.ent, s.recvCount + 1 - e.age < skipAgeLimit) :
    storePostSuccess s = { s with recvCount := s.recvCount + 1 } := by
  have hloop : ∀ (fuel i : Nat), storeEvictAged fuel i { s with recvCount := s.recvCount + 1 } =
      { s with recvCount := s.recvCount + 1 } := by
    intro fuel
    induction fuel with
    | zero => exact fun _ => rfl
    | succ fuel ih =>
      intro i
      rw [storeEvictAged]
      split
      · rfl
      · next e he =>
        rw [if_neg (UInt64.not_le.2 (h e (List.mem_of_getElem? he)))]
        exact ih (i + 1)
  exact hloop _ _

end SkipStore
end Geryon
