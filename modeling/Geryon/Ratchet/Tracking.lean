import Geryon.Lib.AgeQueue
import Geryon.Ratchet.Receipt

/-!
# The skipped keys as a bounded queue that forgets by age

The skipped-key store keeps ages modulo `2 ^ 64`, header keys in a table of slots and message
numbers modulo `2 ^ 32`. Along a run of arrivals it follows a bounded queue whose items name their
chain by its header key and their position on it as a number, and whose stamps count messages:
`Tracks`. 
## Main definitions

* `SkipStore.stamped`: the entries of a store with the header keys they stand for and their ages;
* `Ghost`: the queue, the header key of the receiving chain and the position on it;
* `Tracks`: a receiving side follows a ghost.

## Main results

* `stamped_storeRemove`, `stamped_storeInsert`, `stamped_storePostSuccess`: the operations of the
  store are those of the queue;
* `Tracks.receive`: an arrival is a message of the queue.
-/

namespace Geryon

namespace SkipStore

variable {β : Type}

/-- The entries of a store, oldest first, each with the header key of its chain and its age. -/
def stamped (s : SkipStore β) : List (Held β × UInt64) := s.ent.map fun e => (s.held e, e.age)

/-- The keys of the stamped entries are those of the store. -/
theorem map_fst_stamped (s : SkipStore β) : s.stamped.map Prod.fst = s.view := by
  simp [stamped, view]

@[simp] theorem length_stamped (s : SkipStore β) : s.stamped.length = s.ent.length := by
  simp [stamped]

variable [Octet β]

/-- Removing an entry removes exactly that. -/
theorem stamped_storeRemove {s : SkipStore β} (hs : s.Inv) (i : Nat) :
    (storeRemove s i).stamped = s.stamped.eraseIdx i := by
  rw [stamped, stamped, List.eraseIdx_map, ← ent_storeRemove]
  refine List.map_congr_left fun e he => ?_
  have hlive := ((inv_storeRemove hs i).refs_pos he).ne'
  rw [held, held, hk_storeRemove hlive]

/-- Evicting an entry takes out its stamp. -/
theorem stamped_storeEvict {s : SkipStore β} (hs : s.Inv) (i : Nat) :
    (storeEvict s i).stamped = s.stamped.eraseIdx i := stamped_storeRemove hs i

/-- Dropping a reference leaves the count. -/
theorem recvCount_epochUnref (s : SkipStore β) (ep : Nat) :
    (epochUnref s ep).recvCount = s.recvCount := by
  unfold epochUnref
  split_ifs <;> rfl

@[simp] theorem recvCount_storeRemove (s : SkipStore β) (i : Nat) :
    (storeRemove s i).recvCount = s.recvCount := by
  unfold storeRemove
  split
  · rfl
  · exact recvCount_epochUnref s _

@[simp] theorem recvCount_storeEvict (s : SkipStore β) (i : Nat) :
    (storeEvict s i).recvCount = s.recvCount := recvCount_storeRemove s i

/-- The aging loop from position `i` keeps what comes before and filters what comes after. -/
theorem stamped_storeEvictAged (fuel : Nat) : ∀ (i : Nat) (s : SkipStore β), s.Inv →
    s.ent.length ≤ i + fuel →
    (storeEvictAged fuel i s).stamped = s.stamped.take i ++
      (s.stamped.drop i).filter (fun x => s.recvCount - x.2 < skipAgeLimit) ∧
    (storeEvictAged fuel i s).recvCount = s.recvCount := by
  -- on the entries left to visit; the ones before `i` are kept already
  induction fuel with
  | zero =>
    intro i s _ hlen
    have hdrop : s.stamped.drop i = [] := List.drop_eq_nil_of_le (by simpa using hlen)
    refine ⟨?_, rfl⟩
    rw [storeEvictAged, hdrop, List.filter_nil, List.append_nil, List.take_of_length_le]
    simpa using hlen
  | succ fuel ih =>
    intro i s hs hlen
    rw [storeEvictAged]
    split
    · next hnone =>
      have hge : s.ent.length ≤ i := List.getElem?_eq_none_iff.1 hnone
      rw [List.drop_eq_nil_of_le (by simpa using hge), List.take_of_length_le (by simpa using hge)]
      simp
    · next e he =>
      have hi : i < s.stamped.length := by
        rw [length_stamped]
        exact (List.getElem?_eq_some_iff.1 he).1
      have hget : s.stamped[i] = (s.held e, e.age) := by
        have : s.stamped[i]? = some (s.held e, e.age) := by simp [stamped, he]
        exact (List.getElem?_eq_some_iff.1 this).2
      rw [List.drop_eq_getElem_cons hi, hget]
      split_ifs with hold
      · -- the entry at `i` is dropped, and the loop stays at `i`
        obtain ⟨hst, hrc⟩ := ih i (storeEvict s i) (inv_storeEvict hs i) (by
          simp only [storeEvict, ent_storeRemove]
          have := List.length_eraseIdx_of_lt (l := s.ent) (i := i) (by simpa using hi)
          omega)
        rw [recvCount_storeEvict] at hrc
        refine ⟨?_, hrc⟩
        have htake : (s.stamped.take i).length = i := List.length_take_of_le hi.le
        rw [hst, stamped_storeEvict hs, recvCount_storeEvict, List.filter_cons_of_neg,
          List.eraseIdx_eq_take_drop_succ, List.take_left' htake, List.drop_left' htake]
        simpa using hold
      · obtain ⟨hst, hrc⟩ := ih (i + 1) s hs (by omega)
        refine ⟨?_, hrc⟩
        rw [hst, List.filter_cons_of_pos, List.take_succ_eq_append_getElem hi, hget,
          List.append_assoc, List.singleton_append]
        simpa using hold

/-- A successful message advances the clock and drops what is old enough. -/
theorem stamped_storePostSuccess {s : SkipStore β} (hs : s.Inv) :
    (storePostSuccess s).stamped =
      s.stamped.filter (fun x => s.recvCount + 1 - x.2 < skipAgeLimit) ∧
    (storePostSuccess s).recvCount = s.recvCount + 1 := by
  have h := stamped_storeEvictAged s.ent.length 0 { s with recvCount := s.recvCount + 1 }
    ⟨hs.length_le, hs.refs_eq, hs.slot_lt, hs.hk_inj⟩ (by simp)
  rw [List.take_zero, List.nil_append, List.drop_zero] at h
  exact h

variable [DecidableEq β]

omit [Octet β] in
/-- So does interning a key. -/
theorem recvCount_epochIntern (s : SkipStore β) (hk : Bytes β) :
    (epochIntern s hk).2.recvCount = s.recvCount := by
  unfold epochIntern
  split
  · rfl
  · rfl

omit [DecidableEq β] in
/-- A full store drops its oldest entry. -/
theorem stamped_storeEvictOldest {s : SkipStore β} (hs : s.Inv) :
    (storeEvictOldest s).stamped =
      (if s.stamped.length = maxSkip then s.stamped.tail else s.stamped) ∧
    (storeEvictOldest s).recvCount = s.recvCount := by
  rw [length_stamped]
  unfold storeEvictOldest
  split_ifs
  · rw [stamped_storeEvict hs, List.eraseIdx_zero]
    exact ⟨rfl, recvCount_storeEvict s 0⟩
  · exact ⟨rfl, rfl⟩

omit [Octet β] [DecidableEq β] in
/-- Appending leaves the count. -/
theorem recvCount_storeAppend (t : SkipStore β) (ep : Nat) (n : UInt32) (mk : Bytes β) :
    (storeAppend t ep n mk).recvCount = t.recvCount := rfl

omit [Octet β] [DecidableEq β] in
/-- Appending leaves the other entries' header keys. -/
theorem stamped_storeAppend {s t : SkipStore β} {hk : Bytes β} {ep : Nat} (hs : s.Inv)
    (hin : Interned s hk ep t) (hrc : t.recvCount = s.recvCount) (n : UInt32) (mk : Bytes β) :
    (storeAppend t ep n mk).stamped = s.stamped ++ [(⟨hk, n, mk⟩, s.recvCount)] := by
  have hview := view_storeAppend hs hin n mk
  have hages : (storeAppend t ep n mk).ent.map (·.age) =
      s.ent.map (·.age) ++ [s.recvCount] := by
    simp [storeAppend, hin.ent, hrc]
  -- a list of pairs is known by its two projections
  have hzip : ∀ u : SkipStore β, u.stamped = u.view.zip (u.ent.map (·.age)) := fun u => by
    rw [stamped, view, List.zip_map']
  rw [hzip, hview, hages, List.zip_append (by simp [view]), ← hzip]
  rfl

/-- Inserting appends the key with the clock's reading, after the oldest made room if need be. -/
theorem stamped_storeInsert {s : SkipStore β} (hs : s.Inv) (hk : Bytes β) (n : UInt32)
    (mk : Bytes β) :
    (storeInsert s hk n mk).stamped =
      (if s.stamped.length = maxSkip then s.stamped.tail else s.stamped) ++
        [(⟨hk, n, mk⟩, s.recvCount)] ∧
    (storeInsert s hk n mk).recvCount = s.recvCount := by
  obtain ⟨hst, hrc⟩ := stamped_storeEvictOldest hs
  have hs' := inv_storeEvictOldest hs
  have hin := interned_epochIntern hs' (length_storeEvictOldest_lt hs) hk
  have happ := stamped_storeAppend hs' hin (recvCount_epochIntern _ _) n mk
  rw [hst, hrc] at happ
  refine ⟨happ, ?_⟩
  simp only [storeInsert, recvCount_storeAppend, recvCount_epochIntern, hrc]

end SkipStore

/-! ## The ghost of a receiving side -/

/-- A skipped message: the header key of its chain, its position on it and its message key. -/
structure Place (β : Type) where
  hk : Bytes β
  pos : Nat
  msgKey : Bytes β

variable {β : Type}

/-- A place as the store writes it. -/
def Place.held (x : Place β) : SkipStore.Held β := ⟨x.hk, UInt32.ofNat x.pos, x.msgKey⟩

/-- An item as the store writes it, with its age. -/
def AgeItem.written (x : AgeItem (Place β)) : SkipStore.Held β × UInt64 :=
  (x.val.held, UInt64.ofNat x.stamp)

/-- The places of consecutive message keys of one chain, from position `pos` on. -/
def placesFrom (hk : Bytes β) : Nat → List (Bytes β) → List (Place β)
  | _, [] => []
  | pos, mk :: mks => ⟨hk, pos, mk⟩ :: placesFrom hk (pos + 1) mks

/-- What a receiving side amounts to: the queue of its skipped messages, the header key of its
receiving chain if it has one, and the position the chain stands at. -/
structure Ghost (β : Type) where
  queue : AgeQueue (Place β)
  hk : Option (Bytes β)
  pos : Nat

namespace Ghost

/-- A side that has skipped nothing yet. -/
def start (c : RecvSide β) : Ghost β := ⟨AgeQueue.empty, c.hk, c.nr.toNat⟩

/-- The places of the remaining keys `mks` of the receiving chain, if there is one. -/
def finished (g : Ghost β) (mks : List (Bytes β)) : List (Place β) :=
  match g.hk with
  | none => []
  | some hk => placesFrom hk g.pos mks

/-- What an arrival is to the queue. -/
def message (g : Ghost β) : Arrival β → AgeMessage (Place β)
  | .stored i => .take i
  | .same mks => .put (g.finished mks)
  | .fresh hk old new => .put (g.finished old ++ placesFrom hk 0 new)

/-- One arrival. -/
def receive (g : Ghost β) (a : Arrival β) : Ghost β :=
  { queue := g.queue.receive maxSkip skipAgeLimit.toNat (g.message a)
    hk := match a with
      | .fresh hk _ _ => some hk
      | _ => g.hk
    pos := match a with
      | .stored _ => g.pos
      | .same mks => g.pos + mks.length + 1
      | .fresh _ _ new => new.length + 1 }

/-- The ghost of a receiving side after the first `m` of a sequence of arrivals. -/
def after (c : RecvSide β) (arr : Nat → Arrival β) : Nat → Ghost β
  | 0 => start c
  | m + 1 => (after c arr m).receive (arr m)

/-- The queue of a ghost, as a run of messages. -/
theorem queue_after (c : RecvSide β) (arr : Nat → Arrival β) (m : Nat) : (after c arr m).queue =
    AgeQueue.after maxSkip skipAgeLimit.toNat (fun i => (after c arr i).message (arr i)) m := by
  induction m with
  | zero => rfl
  | succ m ih =>
    show (after c arr m).queue.receive maxSkip skipAgeLimit.toNat _ = _
    rw [ih]
    rfl

end Ghost

/-- The store holds exactly the items of the queue, in order, and its clock reads the queue's; the
items are younger than the limit. -/
structure Follows (q : AgeQueue (Place β)) (s : SkipStore β) : Prop where
  inv : s.Inv
  stamped : s.stamped = q.items.map AgeItem.written
  clock : s.recvCount = UInt64.ofNat q.clock
  young : ∀ x ∈ q.items, x.stamp ≤ q.clock ∧ q.clock - x.stamp < skipAgeLimit.toNat

/-- The receiving side follows the ghost. -/
structure Tracks (g : Ghost β) (c : RecvSide β) : Prop where
  store : Follows g.queue c.store
  hk : c.hk = g.hk
  nr : c.nr = UInt32.ofNat g.pos

namespace Follows

variable {q : AgeQueue (Place β)} {s : SkipStore β}

/-- The keys of the store are those of the queue. -/
theorem view (h : Follows q s) : s.view = q.items.map fun x => x.val.held := by
  rw [← SkipStore.map_fst_stamped, h.stamped, List.map_map]
  rfl

variable [Octet β]

/-- A store that follows a queue follows it when an item is taken. -/
theorem take (h : Follows q s) (i : Nat) : Follows (q.take i) (storeRemove s i) where
  inv := SkipStore.inv_storeRemove h.inv i
  stamped := by
    rw [SkipStore.stamped_storeRemove h.inv, h.stamped, List.eraseIdx_map]
    rfl
  clock := (SkipStore.recvCount_storeRemove s i).trans h.clock
  young x hx := h.young x (List.mem_of_mem_eraseIdx hx)

/-- The test of the aging loop, on the clock's reading. -/
theorem young_iff {clock stamp : Nat} (hle : stamp ≤ clock)
    (hlt : clock - stamp < skipAgeLimit.toNat) :
    UInt64.ofNat clock + 1 - UInt64.ofNat stamp < skipAgeLimit ↔
      clock + 1 - stamp < skipAgeLimit.toNat := by
  have hlim : skipAgeLimit.toNat = 1000 := rfl
  have hsub : UInt64.ofNat clock + 1 - UInt64.ofNat stamp = UInt64.ofNat (clock + 1 - stamp) := by
    rw [← UInt64.ofNat_one, ← UInt64.ofNat_add, UInt64.ofNat_sub (by omega)]
  rw [hsub, UInt64.lt_iff_toNat_lt, UInt64.toNat_ofNat', Nat.mod_eq_of_lt (by omega)]

/-- When a message was decrypted. -/
theorem tick (h : Follows q s) :
    Follows (q.tick skipAgeLimit.toNat) (storePostSuccess s) where
  inv := SkipStore.inv_storePostSuccess h.inv
  stamped := by
    rw [(SkipStore.stamped_storePostSuccess h.inv).1, h.stamped, List.filter_map, h.clock]
    refine congrArg (List.map _) (List.filter_congr fun x hx => ?_)
    obtain ⟨hle, hlt⟩ := h.young x hx
    exact decide_eq_decide.2 (young_iff hle hlt)
  clock := by
    rw [(SkipStore.stamped_storePostSuccess h.inv).2, h.clock]
    exact (UInt64.ofNat_add _ 1).symm
  young x hx := by
    obtain ⟨hx, hlt⟩ := List.mem_filter.1 hx
    exact ⟨Nat.le_succ_of_le (h.young x hx).1, of_decide_eq_true hlt⟩

variable [DecidableEq β]

/-- And when an item is put. -/
theorem put (h : Follows q s) (x : Place β) :
    Follows (q.put maxSkip x) (storeInsert s x.hk (UInt32.ofNat x.pos) x.msgKey) where
  inv := SkipStore.inv_storeInsert h.inv _ _ _
  stamped := by
    rw [(SkipStore.stamped_storeInsert h.inv _ _ _).1, h.stamped, List.length_map, h.clock,
      AgeQueue.put, AgeQueue.append, List.map_append, AgeQueue.clock_makeRoom, AgeQueue.makeRoom]
    -- a full store first drops its oldest entry
    split_ifs
    · rw [List.map_tail]
      rfl
    · rfl
  clock := by
    rw [(SkipStore.stamped_storeInsert h.inv _ _ _).2, h.clock]
    exact congrArg UInt64.ofNat (AgeQueue.clock_makeRoom maxSkip q).symm
  young y hy := by
    rw [show (q.put maxSkip x).clock = q.clock from AgeQueue.clock_makeRoom maxSkip q]
    rcases List.mem_append.1 hy with hy | hy
    · exact h.young y (AgeQueue.makeRoom_subset maxSkip q hy)
    · obtain rfl := List.mem_singleton.1 hy
      rw [AgeQueue.clock_makeRoom]
      exact ⟨le_rfl, by rw [Nat.sub_self]; decide⟩

/-- Consecutive keys of one chain. -/
theorem putAll (h : Follows q s) (hk : Bytes β) (pos : Nat) (mks : List (Bytes β)) :
    Follows ((placesFrom hk pos mks).foldl (AgeQueue.put maxSkip) q)
      (storeInsertAll hk (UInt32.ofNat pos) mks s) := by
  induction mks generalizing pos q s with
  | nil => exact h
  | cons mk mks ih =>
    have hpos : UInt32.ofNat pos + 1 = UInt32.ofNat (pos + 1) := (UInt32.ofNat_add pos 1).symm
    rw [placesFrom, storeInsertAll, List.foldl_cons, hpos]
    exact ih (h.put ⟨hk, pos, mk⟩) _

end Follows

namespace Tracks

variable [Octet β]

theorem start {c : RecvSide β} (h : c.store = SkipStore.empty) : Tracks (Ghost.start c) c where
  store := by
    rw [h]
    exact ⟨SkipStore.inv_empty, rfl, rfl, fun x hx => by cases hx⟩
  hk := rfl
  nr := (UInt32.ofNat_toNat).symm

variable [DecidableEq β] {g : Ghost β} {c : RecvSide β}

theorem finished (h : Tracks g c) (mks : List (Bytes β)) :
    Follows ((g.finished mks).foldl (AgeQueue.put maxSkip) g.queue) (c.finished mks) := by
  rw [Ghost.finished, RecvSide.finished, h.hk, h.nr]
  cases g.hk with
  | none => exact h.store
  | some hk => exact h.store.putAll hk g.pos mks

/-- An arrival is a message of the queue. -/
theorem receive (h : Tracks g c) (a : Arrival β) : Tracks (g.receive a) (c.receive a) := by
  cases a with
  | stored i => exact ⟨(h.store.take i).tick, h.hk, h.nr⟩
  | same mks =>
    refine ⟨(h.finished mks).tick, h.hk, ?_⟩
    show c.nr + _ + 1 = UInt32.ofNat (g.pos + mks.length + 1)
    rw [UInt32.ofNat_add, UInt32.ofNat_add, h.nr]
    rfl
  | fresh hk old new =>
    refine ⟨?_, rfl, (UInt32.ofNat_add new.length 1).symm⟩
    have h' := ((h.finished old).putAll hk 0 new).tick
    rwa [← List.foldl_append] at h'

/-- A receiving side that starts with an empty store follows its ghost through any arrivals. -/
theorem after (side : Nat → RecvSide β) {arr : Nat → Arrival β}
    (hempty : (side 0).store = SkipStore.empty) {m : Nat}
    (hstep : ∀ i < m, side (i + 1) = (side i).receive (arr i)) :
    Tracks (Ghost.after (side 0) arr m) (side m) := by
  induction m with
  | zero => exact start hempty
  | succ m ih =>
    rw [hstep m (Nat.lt_succ_self m)]
    exact (ih fun i hi => hstep i (Nat.lt_succ_of_lt hi)).receive (arr m)

end Tracks

end Geryon
