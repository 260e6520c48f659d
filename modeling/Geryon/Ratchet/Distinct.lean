import Geryon.Ratchet.Aging

/-!
# Skipped keys are told apart

The skipped-key store keeps its books whatever a session receives and whatever its primitives do:
counts, slots and ages. That two skipped keys never carry the same header key and number takes an
ideal key derivation. Keys of different chains then differ in the header key, which a root
derivation yields only once. Keys of one chain differ in the number, although numbers wrap: a
message moves the chain by at most `maxSkip + 1` numbers, and both keys are younger than the age
limit.

## Main definitions

* `HkRank`: how many root derivations into the session a header key was derived;
* `Spread`: keys of one chain in the queue are in order and close together;
* `SkipStore.Sound`: what the store promises of every run;
* `SkipStore.KeysApart`: what it promises under an ideal key derivation.

## Main results

* `HkRank.unique`: a header key is derived once;
* `Reception.ghostOk`: along a run the queue is spread;
* `skip_store_sound`: whatever a session receives, every store it handles is sound, and under an
  ideal key derivation its keys are told apart.
-/

namespace Geryon

variable {β : Type}

/-! ## Header keys of one session -/

section Ranks

variable [Octet β] {desc : SuiteDesc β}

/-- A header key of a session whose root key is `root` and whose first next header key is `first`,
with its rank: the first, or one derived at a depth below the rank. -/
inductive HkRank (desc : SuiteDesc β) (root first : Bytes β) : Nat → Bytes β → Prop where
  | first : HkRank desc root first 0 first
  | derived {j : Nat} {rk ikm : Bytes β} {r : RootKeys β} (h : KdfPath desc root j rk)
      (hr : gyDrcKdfRk desc rk ikm = .ok r) : HkRank desc root first (j + 1) r.nhk

/-- The two seeds are never derived. -/
structure SeedPair (desc : SuiteDesc β) (root first : Bytes β) : Prop where
  root_ne : ∀ {rk ikm r}, gyDrcKdfRk desc rk ikm = .ok r → root ≠ r.rk
  first_ne : ∀ {rk ikm r}, gyDrcKdfRk desc rk ikm = .ok r → first ≠ r.nhk

variable {root first : Bytes β} [Sodium β]

/-- A root key lies at one depth only. -/
theorem KdfPath.unique (I : IdealSuite desc) (hs : SeedPair desc root first) {i j : Nat}
    {rk rk' : Bytes β} (h : KdfPath desc root i rk) (h' : KdfPath desc root j rk')
    (hrk : rk = rk') : i = j := by
  induction h generalizing j rk' with
  | refl =>
    cases h' with
    | refl => rfl
    | step _ hr => exact absurd hrk (hs.root_ne hr)
  | step h hr ih =>
    cases h' with
    | refl => exact absurd hrk.symm (hs.root_ne hr)
    | step h' hr' =>
      -- one output of the derivation determines its input
      have hin := I.gyDrcKdfRk_inj hr hr' (.inl hrk)
      rw [ih h' hin]

/-- A header key has one rank only. -/
theorem HkRank.unique (I : IdealSuite desc) (hs : SeedPair desc root first) {i j : Nat}
    {hk : Bytes β} (h : HkRank desc root first i hk) (h' : HkRank desc root first j hk) :
    i = j := by
  generalize heq : hk = hk' at h'
  cases h with
  | first =>
    cases h' with
    | first => rfl
    | derived _ hr => exact absurd heq (hs.first_ne hr)
  | derived h hr =>
    cases h' with
    | first => exact absurd heq.symm (hs.first_ne hr)
    | derived h' hr' =>
      have hin := I.gyDrcKdfRk_inj hr hr' (.inr heq)
      rw [h.unique I hs h' hin]

end Ranks

/-! ## Keys of one chain -/

/-- The items of a queue that lie on one chain are in the order of their positions, and no further
apart than the messages between them can have moved the chain. -/
def Spread (q : AgeQueue (Place β)) : Prop :=
  q.items.Pairwise fun x y => x.val.hk = y.val.hk → x.val.pos < y.val.pos ∧
    y.val.pos < x.val.pos + (maxSkip + 1) * (y.stamp - x.stamp) + maxSkip

/-- Every item on the chain with header key `hk` lies before `pos`, by at most `slack` positions
more than the messages since can have moved the chain. -/
def Behind (q : AgeQueue (Place β)) (hk : Bytes β) (pos slack : Nat) : Prop :=
  ∀ x ∈ q.items, x.val.hk = hk → x.val.pos < pos ∧
    pos ≤ x.val.pos + (maxSkip + 1) * (q.clock - x.stamp) + slack

section Queue

variable {q r : AgeQueue (Place β)} {hk : Bytes β} {pos slack : Nat}

theorem Spread.sublist (h : Spread q) (hsub : r.items.Sublist q.items) : Spread r :=
  List.Pairwise.sublist hsub h

theorem Behind.subset (h : Behind q hk pos slack) (hsub : r.items ⊆ q.items)
    (hclock : r.clock = q.clock) : Behind r hk pos slack := by
  intro x hx hxk
  rw [hclock]
  exact h x (hsub hx) hxk

/-- The next position of a chain goes in at the back. -/
theorem Spread.put (h : Spread q) (hb : Behind q hk pos slack) (hslack : slack < maxSkip)
    (mk : Bytes β) : Spread (q.put maxSkip ⟨hk, pos, mk⟩) := by
  have hsub : (q.makeRoom maxSkip).items ⊆ q.items := AgeQueue.makeRoom_subset maxSkip q
  have hroom : Spread (q.makeRoom maxSkip) := by
    refine h.sublist ?_
    rw [AgeQueue.makeRoom]
    split_ifs
    · exact List.tail_sublist _
    · exact List.Sublist.refl _
  refine List.pairwise_append.2 ⟨hroom, List.pairwise_singleton _ _, ?_⟩
  intro x hx y hy hxy
  obtain rfl := List.mem_singleton.1 hy
  obtain ⟨hlt, hle⟩ := hb x (hsub hx) hxy
  rw [AgeQueue.clock_makeRoom]
  dsimp only
  omega

theorem Behind.put (hb : Behind q hk pos slack) (mk : Bytes β) :
    Behind (q.put maxSkip ⟨hk, pos, mk⟩) hk (pos + 1) (slack + 1) := by
  intro x hx hxk
  rw [show (q.put maxSkip ⟨hk, pos, mk⟩).clock = q.clock from AgeQueue.clock_makeRoom maxSkip q]
  rcases List.mem_append.1 hx with hx | hx
  · obtain ⟨hlt, hle⟩ := hb x (AgeQueue.makeRoom_subset maxSkip q hx) hxk
    omega
  · obtain rfl := List.mem_singleton.1 hx
    dsimp only
    omega

/-- Consecutive positions of a chain. -/
theorem Spread.putAll {mks : List (Bytes β)} (h : Spread q) (hb : Behind q hk pos slack)
    (hlen : slack + mks.length ≤ maxSkip) :
    Spread ((placesFrom hk pos mks).foldl (AgeQueue.put maxSkip) q) ∧
      Behind ((placesFrom hk pos mks).foldl (AgeQueue.put maxSkip) q) hk (pos + mks.length)
        (slack + mks.length) := by
  induction mks generalizing pos slack q with
  | nil => exact ⟨h, hb⟩
  | cons mk mks ih =>
    rw [List.length_cons] at hlen ⊢
    rw [placesFrom, List.foldl_cons, Nat.add_comm mks.length 1, ← Nat.add_assoc, ← Nat.add_assoc]
    exact ih (h.put hb (by omega) mk) (hb.put mk) (by omega)

/-- A message that moved the chain by at most `maxSkip + 1` positions uses up the slack. -/
theorem Behind.tick (hb : Behind q hk pos slack) (hslack : slack ≤ maxSkip)
    (hstamp : ∀ x ∈ q.items, x.stamp ≤ q.clock) (limit : Nat) :
    Behind (q.tick limit) hk (pos + 1) 0 := by
  intro x hx hxk
  obtain ⟨hx, -⟩ := List.mem_filter.1 hx
  obtain ⟨hlt, hle⟩ := hb x hx hxk
  have hle' := hstamp x hx
  have hclock : (q.tick limit).clock - x.stamp = q.clock - x.stamp + 1 := Nat.succ_sub hle'
  rw [hclock, Nat.mul_succ]
  omega

/-- The items of a chain that none of the queue's items is on. -/
theorem Behind.of_not_mem (h : ∀ x ∈ q.items, x.val.hk ≠ hk) (pos slack : Nat) :
    Behind q hk pos slack := fun x hx hxk => absurd hxk (h x hx)

/-- The chains of the items after some places were put in. -/
theorem hk_putAll {mks : List (Bytes β)} {x : AgeItem (Place β)}
    (hx : x ∈ ((placesFrom hk pos mks).foldl (AgeQueue.put maxSkip) q).items) :
    (∃ y ∈ q.items, y.val.hk = x.val.hk) ∨ x.val.hk = hk := by
  induction mks generalizing pos q with
  | nil => exact .inl ⟨x, hx, rfl⟩
  | cons mk mks ih =>
    rw [placesFrom, List.foldl_cons] at hx
    obtain ⟨y, hy, hyx⟩ | heq := ih hx
    · rcases List.mem_append.1 hy with hy | hy
      · exact .inl ⟨y, AgeQueue.makeRoom_subset maxSkip q hy, hyx⟩
      · obtain rfl := List.mem_singleton.1 hy
        exact .inr hyx.symm
    · exact .inr heq

end Queue

/-! ## One message -/

section Message

variable [Octet β] {desc : SuiteDesc β} {root first : Bytes β} {k n : Nat} {g : Ghost β}
  {b : DrState β}

/-- The skipped messages of a session are spread, and the header keys seen so far, including that of
its receiving chain, have ranks below the next one's. -/
structure GhostOk (desc : SuiteDesc β) (root first : Bytes β) (k n : Nat) (g : Ghost β)
    (b : DrState β) : Prop where
  spread : Spread g.queue
  behind : ∀ hk, g.hk = some hk → Behind g.queue hk g.pos 0
  next : HkRank desc root first k b.nhkr
  path : KdfPath desc root n b.rk
  le : k ≤ n
  seen : ∀ x ∈ g.queue.items, ∃ j < k, HkRank desc root first j x.val.hk
  current : ∀ hk, g.hk = some hk → ∃ j < k, HkRank desc root first j hk

/-- The old chain finished. -/
theorem GhostOk.finished (h : GhostOk desc root first k n g b) {mks : List (Bytes β)}
    (hlen : mks.length ≤ maxSkip) {q : AgeQueue (Place β)}
    (hq : q = (g.finished mks).foldl (AgeQueue.put maxSkip) g.queue) :
    Spread q ∧ (∀ hk, g.hk = some hk → Behind q hk (g.pos + mks.length) mks.length) ∧
      ∀ x ∈ q.items, ∃ j < k, HkRank desc root first j x.val.hk := by
  subst hq
  rw [Ghost.finished]
  cases hhk : g.hk with
  | none => exact ⟨h.spread, fun _ heq => (by cases heq), h.seen⟩
  | some hk =>
    obtain ⟨hspread, hbehind⟩ := h.spread.putAll (h.behind hk hhk) (by omega : 0 + mks.length ≤ _)
    rw [Nat.zero_add] at hbehind
    refine ⟨hspread, fun hk' heq => ?_, fun x hx => ?_⟩
    · obtain rfl := Option.some.inj heq
      exact hbehind
    · obtain ⟨y, hy, hyx⟩ | heq := hk_putAll hx
      · rw [← hyx]
        exact h.seen y hy
      · rw [heq]
        exact h.current hk hhk

variable [Sodium β]

/-- The old chain finished and the next one begun. -/
theorem GhostOk.opened (I : IdealSuite desc) (hs : SeedPair desc root first)
    (h : GhostOk desc root first k n g b) {old new : List (Bytes β)} (hold : old.length ≤ maxSkip)
    (hnew : new.length ≤ maxSkip) {q : AgeQueue (Place β)}
    (hq : q = (g.finished old ++ placesFrom b.nhkr 0 new).foldl (AgeQueue.put maxSkip) g.queue) :
    Spread q ∧ Behind q b.nhkr new.length new.length ∧
      ∀ x ∈ q.items, ∃ j < k + 1, HkRank desc root first j x.val.hk := by
  obtain ⟨hspread, -, hseen⟩ := h.finished hold rfl
  rw [List.foldl_append] at hq
  subst hq
  -- no key of an older chain has the next header key
  have hnone : ∀ x ∈ ((g.finished old).foldl (AgeQueue.put maxSkip) g.queue).items,
      x.val.hk ≠ b.nhkr := by
    intro x hx heq
    obtain ⟨j, hj, hrank⟩ := hseen x hx
    rw [heq] at hrank
    exact absurd (hrank.unique I hs h.next) (Nat.ne_of_lt hj)
  obtain ⟨hspread', hbehind⟩ := hspread.putAll (Behind.of_not_mem hnone 0 0)
    (by omega : 0 + new.length ≤ _)
  rw [Nat.zero_add] at hbehind
  refine ⟨hspread', hbehind, fun x hx => ?_⟩
  obtain ⟨y, hy, hyx⟩ | heq := hk_putAll hx
  · obtain ⟨j, hj, hrank⟩ := hseen y hy
    exact ⟨j, by omega, hyx ▸ hrank⟩
  · exact ⟨k, Nat.lt_succ_self k, heq ▸ h.next⟩

omit [Sodium β] in
/-- Taking a key, or aging, leaves the others as they are. -/
theorem GhostOk.mono (h : GhostOk desc root first k n g b) {g' : Ghost β} {b' : DrState β}
    (hsub : g'.queue.items.Sublist g.queue.items) (hclock : g.queue.clock ≤ g'.queue.clock)
    (hhk : g'.hk = g.hk) (hpos : g'.pos = g.pos) (hb : b'.roots = b.roots) :
    GhostOk desc root first k n g' b' where
  spread := h.spread.sublist hsub
  behind := by
    intro hk heq x hx hxk
    rw [hhk] at heq
    obtain ⟨hlt, hle⟩ := h.behind hk heq x (hsub.subset hx) hxk
    have hmono := Nat.mul_le_mul_left (maxSkip + 1) (Nat.sub_le_sub_right hclock x.stamp)
    rw [hpos]
    exact ⟨hlt, by omega⟩
  next := by
    rw [show b'.nhkr = b.nhkr from congrArg Prod.snd hb]
    exact h.next
  path := by
    rw [show b'.rk = b.rk from congrArg Prod.fst hb]
    exact h.path
  le := h.le
  seen x hx := h.seen x (hsub.subset hx)
  current hk heq := h.current hk (hhk ▸ heq)

variable [DecidableEq β]

/-- An arrival keeps the skipped messages spread. -/
theorem GhostOk.receive (I : IdealSuite desc) (hs : SeedPair desc root first)
    (h : GhostOk desc root first k n g b) {c : RecvSide β} (ht : Tracks g c) {a : Arrival β}
    (hfit : a.Fits b.nhkr c) {b' : DrState β} (hmoved : RootsMoved desc b b' a) :
    ∃ k n, GhostOk desc root first k n (g.receive a) b' := by
  cases a with
  | stored i =>
    refine ⟨k, n, h.mono ?_ (Nat.le_succ _) rfl rfl hmoved⟩
    exact List.filter_sublist.trans (List.eraseIdx_sublist _ _)
  | same mks =>
    obtain ⟨-, hlen, -⟩ := hfit
    obtain ⟨hspread, hbehind, hseen⟩ := h.finished hlen rfl
    have hstamp := fun x hx => ((ht.finished mks).young x hx).1
    refine ⟨k, n, hspread.sublist List.filter_sublist, fun hk heq => ?_, ?_, ?_, h.le,
      fun x hx => hseen x (List.mem_filter.1 hx).1, h.current⟩
    · exact (hbehind hk heq).tick hlen hstamp _
    · rw [show b'.nhkr = b.nhkr from congrArg Prod.snd hmoved]
      exact h.next
    · rw [show b'.rk = b.rk from congrArg Prod.fst hmoved]
      exact h.path
  | fresh hk old new =>
    obtain ⟨rfl, hold, -, -, hnew⟩ := hfit
    obtain ⟨hspread, hbehind, hseen⟩ := h.opened I hs hold hnew rfl
    obtain ⟨j, rk, ikm, r, k', hj, hr, hnhk, hk'⟩ := hmoved
    have hstamp : ∀ x ∈ ((g.finished old ++ placesFrom b.nhkr 0 new).foldl
        (AgeQueue.put maxSkip) g.queue).items, x.stamp ≤ ((g.finished old ++
          placesFrom b.nhkr 0 new).foldl (AgeQueue.put maxSkip) g.queue).clock := by
      rw [List.foldl_append]
      exact fun x hx => (((ht.finished old).putAll b.nhkr 0 new).young x hx).1
    -- the new next header key is derived below the old root key
    have hpath := (h.path.trans hj).step hr
    have hle := h.le
    refine ⟨n + j + 1, n + j + 1 + k', hspread.sublist List.filter_sublist, fun hk heq => ?_, ?_,
      hpath.trans hk', by omega, fun x hx => ?_, fun hk heq => ⟨k, by omega, ?_⟩⟩
    · obtain rfl := Option.some.inj heq
      exact hbehind.tick hnew hstamp _
    · rw [hnhk]
      exact .derived (h.path.trans hj) hr
    · obtain ⟨i, hi, hrank⟩ := hseen x (List.mem_filter.1 hx).1
      exact ⟨i, by omega, hrank⟩
    · obtain rfl := Option.some.inj heq
      exact h.next

end Message

/-! ## The store -/

/-- What the skipped-key store promises. Ages are read as the number of messages that have been
decrypted since, modulo the clock's range. -/
structure SkipStore.Sound [DecidableEq β] [Octet β] (s : SkipStore β) : Prop where
  /-- The store is within its capacity. -/
  count_le : s.ent.length ≤ maxSkip
  /-- Every slot counts exactly the entries that refer to it. -/
  refs_eq : ∀ i, (s.epochs i).refs = s.ent.countP (·.epoch = i)
  /-- Two live slots never hold one header key. -/
  hk_inj : ∀ i j, (s.epochs i).refs ≠ 0 → (s.epochs j).refs ≠ 0 →
    (s.epochs i).hk = (s.epochs j).hk → i = j
  /-- An older entry comes first, and every entry is younger than the limit. -/
  elapsed : s.ent.Pairwise fun x y => s.recvCount - y.age ≤ s.recvCount - x.age
  young : ∀ x ∈ s.ent, s.recvCount - x.age < skipAgeLimit
  /-- Interning a header key finds a slot of the table. -/
  intern_lt : ∀ hk, (epochIntern (storeEvictOldest s) hk).1 < maxSkip

/-- No two entries of a store have the same slot and number. -/
def SkipStore.KeysApart (s : SkipStore β) : Prop :=
  s.ent.Pairwise fun x y => (x.epoch, x.n) ≠ (y.epoch, y.n)

/-- While the clock has not wrapped, the ages themselves are in order and not ahead of it. -/
structure SkipStore.AgesInOrder (s : SkipStore β) : Prop where
  pairwise : s.ent.Pairwise fun x y => x.age ≤ y.age
  le : ∀ x ∈ s.ent, x.age ≤ s.recvCount

section Store

variable {q : AgeQueue (Place β)} {s : SkipStore β}

/-- What holds of any two items holds of the entries they were written to. -/
theorem Follows.pairwise (h : Follows q s)
    {R : SkipStore.Held β × UInt64 → SkipStore.Held β × UInt64 → Prop}
    (hq : q.items.Pairwise fun x y => R (AgeItem.written x) (AgeItem.written y)) :
    s.ent.Pairwise fun x y => R (s.held x, x.age) (s.held y, y.age) := by
  have hst := List.pairwise_map.2 hq
  rw [← h.stamped, SkipStore.stamped, List.pairwise_map] at hst
  exact hst

theorem Follows.of_mem (h : Follows q s) {e : SkippedKey β} (he : e ∈ s.ent) :
    ∃ x ∈ q.items, AgeItem.written x = (s.held e, e.age) := by
  have hmem : (s.held e, e.age) ∈ s.stamped := List.mem_map_of_mem he
  rw [h.stamped] at hmem
  exact List.mem_map.1 hmem

/-- The elapsed time of an item, as the store computes it. -/
theorem Follows.elapsed (h : Follows q s) {x : AgeItem (Place β)} (hx : x ∈ q.items) :
    (s.recvCount - UInt64.ofNat x.stamp).toNat = q.clock - x.stamp := by
  have hlim : skipAgeLimit.toNat = 1000 := rfl
  obtain ⟨hle, hlt⟩ := h.young x hx
  rw [h.clock, ← UInt64.ofNat_sub hle, UInt64.toNat_ofNat', Nat.mod_eq_of_lt (by omega)]

/-- Positions of one chain that are close together have different numbers. -/
theorem Follows.number_ne (h : Follows q s) {x y : AgeItem (Place β)} (hx : x ∈ q.items)
    (hy : y ∈ q.items) (hlt : x.val.pos < y.val.pos)
    (hle : y.val.pos < x.val.pos + (maxSkip + 1) * (y.stamp - x.stamp) + maxSkip) :
    UInt32.ofNat x.val.pos ≠ UInt32.ofNat y.val.pos := by
  have hms : maxSkip = 1000 := rfl
  have hlim : skipAgeLimit.toNat = 1000 := rfl
  obtain ⟨-, hxage⟩ := h.young x hx
  obtain ⟨hyle, -⟩ := h.young y hy
  rw [hms] at hle
  intro heq
  have hnat := congrArg UInt32.toNat heq
  rw [UInt32.toNat_ofNat', UInt32.toNat_ofNat'] at hnat
  omega

variable [Octet β] [DecidableEq β]

/-- A store that follows an ordered queue is sound. -/
theorem Follows.sound (h : Follows q s) (ho : q.Ordered) : s.Sound where
  count_le := h.inv.length_le
  refs_eq := h.inv.refs_eq
  hk_inj := h.inv.hk_inj
  elapsed := by
    refine h.pairwise (R := fun a b => s.recvCount - b.2 ≤ s.recvCount - a.2) ?_
    refine ho.pairwise.imp_of_mem fun {x y} hx hy hxy => ?_
    show s.recvCount - UInt64.ofNat y.stamp ≤ s.recvCount - UInt64.ofNat x.stamp
    rw [UInt64.le_iff_toNat_le, h.elapsed hx, h.elapsed hy]
    omega
  young := by
    intro e he
    obtain ⟨x, hx, hxe⟩ := h.of_mem he
    rw [← show UInt64.ofNat x.stamp = e.age from congrArg Prod.snd hxe, UInt64.lt_iff_toNat_lt,
      h.elapsed hx]
    exact (h.young x hx).2
  intern_lt := by
    intro hk
    have hinv := SkipStore.inv_storeEvictOldest h.inv
    exact (SkipStore.interned_epochIntern hinv (SkipStore.length_storeEvictOldest_lt h.inv) hk).lt

omit [Octet β] [DecidableEq β] in
/-- The keys of a store that follows a spread queue are told apart. -/
theorem Follows.keysApart (h : Follows q s) (hspread : Spread q) : s.KeysApart := by
  have hne : s.ent.Pairwise fun x y => (s.held x).hk = (s.held y).hk →
      (s.held x).n ≠ (s.held y).n := by
    refine h.pairwise (R := fun a b => a.1.hk = b.1.hk → a.1.n ≠ b.1.n) ?_
    refine hspread.imp_of_mem fun {x y} hx hy hxy hhk => ?_
    obtain ⟨hlt, hle⟩ := hxy hhk
    exact h.number_ne hx hy hlt hle
  -- one slot holds one header key
  refine hne.imp fun {x y} hxy heq => ?_
  obtain ⟨hep, hn⟩ := Prod.mk.inj heq
  refine hxy ?_ hn
  rw [SkipStore.held, SkipStore.held, hep]

omit [Octet β] [DecidableEq β] in
theorem Follows.agesInOrder (h : Follows q s) (ho : q.Ordered) (hclock : q.clock < 2 ^ 64) :
    s.AgesInOrder where
  pairwise := by
    refine h.pairwise (R := fun a b => a.2 ≤ b.2) ?_
    refine ho.pairwise.imp_of_mem fun {x y} hx hy hxy => ?_
    show UInt64.ofNat x.stamp ≤ UInt64.ofNat y.stamp
    have hyle := (h.young y hy).1
    rw [UInt64.le_iff_toNat_le, UInt64.toNat_ofNat', UInt64.toNat_ofNat',
      Nat.mod_eq_of_lt (by omega), Nat.mod_eq_of_lt (by omega)]
    exact hxy.2
  le := by
    intro e he
    obtain ⟨x, hx, hxe⟩ := h.of_mem he
    have hle := (h.young x hx).1
    rw [← show UInt64.ofNat x.stamp = e.age from congrArg Prod.snd hxe, h.clock,
      UInt64.le_iff_toNat_le, UInt64.toNat_ofNat', UInt64.toNat_ofNat',
      Nat.mod_eq_of_lt (by omega), Nat.mod_eq_of_lt (by omega)]
    exact hle

end Store

/-! ## The stores a session handles -/

section Handled

variable [Octet β] [DecidableEq β] [Sodium β] {σ η : Type} {E : Engine β σ η}
  {desc : SuiteDesc β}

/-- The stores a session handles while it receives: the one at rest, the one after a key was removed
from it, and in a chain path the one after the old chain was finished and the one after the header's
number was reached, whether or not the walk succeeded. -/
inductive Engine.Handles (E : Engine β σ η) (desc : SuiteDesc β) (s : σ) : SkipStore β → Prop where
  | rest : Handles E desc s (E.base s).skipped
  | removed (i : Nat) : Handles E desc s (storeRemove (E.base s).skipped i)
  | finished (h : η) (hnear : ¬ ((E.base s).haveCkr ∧ (E.pn h < (E.base s).nr ∨
      maxSkip < (E.pn h - (E.base s).nr).toNat))) :
      Handles E desc s (E.base (E.finishOld desc h s).2).skipped
  | reached (rnd : RatchetRand β) (h : η) :
      Handles E desc s (E.base (E.reach desc rnd h s).2).skipped

/-- How such a store comes from the one at rest. -/
inductive RecvSide.Handles (next : Bytes β) (c : RecvSide β) : SkipStore β → Prop where
  | removed (i : Nat) : Handles next c (storeRemove c.store i)
  | finished (mks : List (Bytes β)) (hlen : mks.length ≤ maxSkip) : Handles next c (c.finished mks)
  | opened (old new : List (Bytes β)) (hold : old.length ≤ maxSkip) (hnew : new.length ≤ maxSkip) :
      Handles next c (storeInsertAll next 0 new (c.finished old))

omit [Sodium β] in
theorem RecvSide.Handles.rest {next : Bytes β} {c : RecvSide β} : c.Handles next c.store := by
  have h : c.Handles next (c.finished []) := .finished [] (Nat.zero_le _)
  rwa [RecvSide.finished_nil] at h

namespace Engine

variable (E desc) in
omit [Sodium β] in
/-- Finishing the old chain, whatever comes of it. -/
theorem finishOld_store (h : η) {s : σ} (hnear : ¬ ((E.base s).haveCkr ∧ (E.pn h < (E.base s).nr ∨
      maxSkip < (E.pn h - (E.base s).nr).toNat))) :
    ∃ mks : List (Bytes β), mks.length ≤ maxSkip ∧
      (E.base (E.finishOld desc h s).2).skipped = (E.base s).recvSide.finished mks := by
  rw [finishOld, Cmd.get_bind_apply, Cmd.ite_apply]
  split
  · next hckr =>
    rw [not_and_or, not_or, UInt32.not_lt] at hnear
    obtain hno | ⟨hle, hfar⟩ := hnear
    · exact absurd hckr hno
    · rw [UInt32.toNat_sub_of_le _ _ hle] at hfar
      obtain ⟨mks, hlen, hstore, -, -⟩ := skipMany_stores desc (E.base s).hkr
        ((E.pn h).toNat - (E.base s).nr.toNat) (E.base s).recv
      refine ⟨mks, by omega, ?_⟩
      rw [skipForward_apply]
      dsimp only
      rw [E.base_withBase, DrState.withRecv, hstore, RecvSide.finished, DrState.recvSide, hckr]
      rfl
  · refine ⟨[], Nat.zero_le _, ?_⟩
    rw [RecvSide.finished_nil]
    rfl

variable (E desc) in
omit [Sodium β] in
/-- Finishing the old chain leaves the next header key. -/
theorem finishOld_nhkr (h : η) (s : σ) :
    (E.base (E.finishOld desc h s).2).nhkr = (E.base s).nhkr := by
  rw [finishOld, Cmd.get_bind_apply, Cmd.ite_apply]
  split
  · rw [skipForward_apply]
    dsimp only
    rw [E.base_withBase]
    rfl
  · rfl

omit [Sodium β] in
/-- Reaching a header's number, whatever comes of it. -/
theorem reach_store (hE : E.Shape desc) (rnd : RatchetRand β) (h : η) (s : σ) :
    (E.base s).recvSide.Handles (E.base s).nhkr (E.base (E.reach desc rnd h s).2).skipped := by
  have hrest : (E.base s).recvSide.Handles (E.base s).nhkr (E.base s).skipped := .rest
  simp only [reach, Cmd.get_bind_apply, Cmd.ite_apply]
  split
  · -- a new chain: the old one is finished, then the ratchet steps, then the new one is walked
    simp only [newRemote, Cmd.get_bind_apply, Cmd.ite_apply, Cmd.fail_apply]
    split_ifs with hold hnew
    · exact hrest
    · exact hrest
    obtain ⟨old, hlen, hfin⟩ := finishOld_store E desc h hold
    have hnhkr := finishOld_nhkr E desc h s
    rw [Cmd.bind_apply]
    rcases hf : E.finishOld desc h s with ⟨_ | _, s₁⟩
    · rw [hf] at hfin
      dsimp only at hfin ⊢
      rw [hfin]
      exact .finished old hlen
    rw [hf] at hfin hnhkr
    dsimp only at hfin hnhkr ⊢
    rw [startNew, Cmd.bind_apply]
    rcases hr : E.dhRatchet rnd h s₁ with ⟨_ | _, s₂⟩
    · have hkeep : (E.base s₂).skipped = (E.base s₁).skipped :=
        (hE.keeps_ratchet rnd h).of_apply hr
      dsimp only
      rw [hkeep, hfin]
      exact .finished old hlen
    · obtain ⟨hview, -⟩ := hE.ratchet_ok hr
      simp only [DrState.recvView, Prod.mk.injEq] at hview
      obtain ⟨hskip, hzero, hhkr, -⟩ := hview
      obtain ⟨new, hlen', hstore, -, -⟩ := skipMany_stores desc (E.base s₂).hkr
        ((E.n h).toNat - (E.base s₂).nr.toNat) (E.base s₂).recv
      simp only [Cmd.get_bind_apply]
      rw [skipForward_apply]
      dsimp only
      have hrecv : (E.base s₂).recv.nr = 0 ∧ (E.base s₂).recv.store = (E.base s₁).skipped :=
        ⟨hzero, hskip⟩
      rw [E.base_withBase, DrState.withRecv, hstore, hrecv.1, hrecv.2, hfin, hhkr, hnhkr]
      exact .opened old new hlen (by omega)
  · -- the current chain
    simp only [sameRemote, Cmd.get_bind_apply, Cmd.ite_apply, Cmd.fail_apply]
    split_ifs with hckr hback hfar
    · exact hrest
    · exact hrest
    · exact hrest
    · have hckr : (E.base s).haveCkr = true := by simpa using hckr
      rw [UInt32.toNat_sub_of_le _ _ (UInt32.not_lt.1 hback)] at hfar
      obtain ⟨mks, hlen, hstore, -, -⟩ := skipMany_stores desc (E.base s).hkr
        ((E.n h).toNat - (E.base s).nr.toNat) (E.base s).recv
      have hfin : (E.base s).recvSide.finished mks = storeInsertAll (E.base s).hkr
          (E.base s).recv.nr mks (E.base s).recv.store := by
        rw [RecvSide.finished, DrState.recvSide, hckr]
        rfl
      rw [skipForward_apply]
      dsimp only
      rw [E.base_withBase, DrState.withRecv, hstore, ← hfin]
      exact .finished mks (by omega)

omit [Sodium β] in
/-- Every store a session handles comes from the one at rest in one of these ways. -/
theorem Handles.recvSide (hE : E.Shape desc) {s : σ} {t : SkipStore β} (h : E.Handles desc s t) :
    (E.base s).recvSide.Handles (E.base s).nhkr t := by
  cases h with
  | rest => exact .rest
  | removed i => exact .removed i
  | finished h hnear =>
    obtain ⟨mks, hlen, hfin⟩ := finishOld_store E desc h hnear
    rw [hfin]
    exact .finished mks hlen
  | reached rnd h => exact reach_store hE rnd h s

end Engine

/-- The queues that such stores follow. -/
inductive Ghost.Handles (next : Bytes β) (g : Ghost β) : AgeQueue (Place β) → Prop where
  | removed (i : Nat) : Handles next g (g.queue.take i)
  | finished (mks : List (Bytes β)) (hlen : mks.length ≤ maxSkip) :
      Handles next g ((g.finished mks).foldl (AgeQueue.put maxSkip) g.queue)
  | opened (old new : List (Bytes β)) (hold : old.length ≤ maxSkip) (hnew : new.length ≤ maxSkip) :
      Handles next g
        ((g.finished old ++ placesFrom next 0 new).foldl (AgeQueue.put maxSkip) g.queue)

section Queues

variable {next : Bytes β} {g : Ghost β} {q : AgeQueue (Place β)}

omit [Sodium β] in
theorem Tracks.handles {c : RecvSide β} (ht : Tracks g c) {t : SkipStore β}
    (hh : c.Handles next t) : ∃ q, g.Handles next q ∧ Follows q t := by
  cases hh with
  | removed i => exact ⟨_, .removed i, ht.store.take i⟩
  | finished mks hlen => exact ⟨_, .finished mks hlen, ht.finished mks⟩
  | opened old new hold hnew =>
    refine ⟨_, .opened old new hold hnew, ?_⟩
    rw [List.foldl_append]
    exact (ht.finished old).putAll next 0 new

omit [Octet β] [DecidableEq β] [Sodium β] in
/-- Such a queue is ordered, and no message has been counted. -/
theorem Ghost.Handles.ordered (h : g.Handles next q) (ho : g.queue.Ordered) :
    q.Ordered ∧ q.clock = g.queue.clock := by
  have hput : ∀ ps : List (Place β), (ps.foldl (AgeQueue.put maxSkip) g.queue).Ordered ∧
      (ps.foldl (AgeQueue.put maxSkip) g.queue).clock = g.queue.clock := fun ps =>
    ⟨ho.apply maxSkip (.put ps), (AgeQueue.applied_apply maxSkip g.queue (.put ps)).clock⟩
  cases h with
  | removed i => exact ⟨ho.take i, rfl⟩
  | finished mks _ => exact hput _
  | opened old new _ _ => exact hput _

omit [DecidableEq β] in
/-- Under an ideal key derivation it is spread. -/
theorem GhostOk.spread_of_handles (I : IdealSuite desc) {root first : Bytes β}
    (hs : SeedPair desc root first) {k n : Nat} {b : DrState β}
    (h : GhostOk desc root first k n g b) (hh : g.Handles b.nhkr q) : Spread q := by
  cases hh with
  | removed i => exact h.spread.sublist (List.eraseIdx_sublist _ _)
  | finished mks hlen => exact (h.finished hlen rfl).1
  | opened old new hold hnew => exact (h.opened I hs hold hnew rfl).1

end Queues

/-- A session as its set-up leaves it, as far as the receiving side goes: no keys, no receiving
chain, and roots derived from seeds that are not derived again. -/
structure DrState.Begun (desc : SuiteDesc β) (root : Bytes β) (b : DrState β) : Prop where
  seeds : SeedPair desc root b.nhkr
  path : ∃ n, KdfPath desc root n b.rk
  haveCkr : b.haveCkr = false
  skipped : b.skipped = SkipStore.empty

namespace Reception

variable {N : Nat} {R : Reception E desc N} {root : Bytes β}

/-- Along a run the skipped messages stay spread. -/
theorem ghostOk (I : IdealSuite desc) (hb : (E.base (R.st 0)).Begun desc root)
    {arr : Nat → Arrival β} (h : R.Took arr)
    (hroots : ∀ m < N, RootsMoved desc (E.base (R.st m)) (E.base (R.st (m + 1))) (arr m)) {m : Nat}
    (hm : m ≤ N) : ∃ k n, GhostOk desc root (E.base (R.st 0)).nhkr k n
      (Ghost.after (R.side 0) arr m) (E.base (R.st m)) := by
  induction m with
  | zero =>
    obtain ⟨n, hpath⟩ := hb.path
    have hhk : (Ghost.after (R.side 0) arr 0).hk = none := by
      show (if (E.base (R.st 0)).haveCkr then _ else none) = none
      rw [hb.haveCkr]
      rfl
    refine ⟨0, n, List.Pairwise.nil, fun hk heq => ?_, .first, hpath, Nat.zero_le _,
      fun x hx => (by cases hx), fun hk heq => ?_⟩
    · rw [hhk] at heq
      cases heq
    · rw [hhk] at heq
      cases heq
  | succ m ih =>
    obtain ⟨k, n, hok⟩ := ih (by omega)
    exact hok.receive I hb.seeds (h.tracks (by omega)) (h.fits m hm) (hroots m hm)

/-- Every store that the session handles at any time of a run follows a queue. -/
theorem handled (hE : E.Shape desc) {arr : Nat → Arrival β} (htook : R.Took arr) {m : Nat}
    (hm : m ≤ N) {s : σ} (hidle : E.Idle desc (R.st m) s) {t : SkipStore β}
    (ht : E.Handles desc s t) :
    ∃ q, (Ghost.after (R.side 0) arr m).Handles (E.base (R.st m)).nhkr q ∧ Follows q t := by
  obtain ⟨hside, hroots⟩ := hidle.recvSide
  have hh := ht.recvSide hE
  rw [hside, show (E.base s).nhkr = _ from congrArg Prod.snd hroots] at hh
  exact (htook.tracks hm).handles hh

/-- So it is sound, and its ages are in order while the clock has not wrapped. -/
theorem sound (hE : E.Shape desc) {m : Nat} (hm : m ≤ N) {s : σ} (hidle : E.Idle desc (R.st m) s)
    {t : SkipStore β} (ht : E.Handles desc s t) : t.Sound ∧ (m < 2 ^ 64 → t.AgesInOrder) := by
  obtain ⟨arr, htook, -⟩ := R.exists_took hE
  obtain ⟨q, hq, hfollows⟩ := R.handled hE htook hm hidle ht
  have ho : (R.queue arr m).Ordered := by
    rw [queue_eq_after]
    exact AgeQueue.ordered_after _ _ _ _
  have hclock : (R.queue arr m).clock = m := by
    rw [queue_eq_after]
    exact AgeQueue.clock_after m
  obtain ⟨hqo, hqc⟩ := hq.ordered ho
  refine ⟨hfollows.sound hqo, fun hlt => hfollows.agesInOrder hqo ?_⟩
  rw [hqc]
  exact hclock.trans_lt hlt

/-- Under an ideal key derivation its keys are told apart. -/
theorem keysApart (hE : E.Shape desc) (I : IdealSuite desc)
    (hb : (E.base (R.st 0)).Begun desc root) {m : Nat} (hm : m ≤ N) {s : σ}
    (hidle : E.Idle desc (R.st m) s) {t : SkipStore β} (ht : E.Handles desc s t) :
    t.KeysApart := by
  obtain ⟨arr, htook, hroots⟩ := R.exists_took hE
  obtain ⟨q, hq, hfollows⟩ := R.handled hE htook hm hidle ht
  obtain ⟨k, n, hok⟩ := R.ghostOk I hb htook hroots hm
  exact hfollows.keysApart (hok.spread_of_handles I hb.seeds hq)

end Reception

end Handled

/-! ## Both engines -/

section Starts

variable [Octet β] [Sodium β] {desc : SuiteDesc β}

/-- A classical session as its set-up returns it. -/
def ClassicalStart (desc : SuiteDesc β) (s : DrState β) : Prop :=
  ∃ sk sec, expandSecrets desc sk = .ok sec ∧
    ((∃ id pk kp, gyDrInitAlice desc id sec pk kp = .ok s) ∨
      ∃ id spk, gyDrInitBob id sec spk = s)

/-- A hybrid session as its set-up returns it. -/
def HybridStart (desc : SuiteDesc β) (s : HybridState β) : Prop :=
  ∃ sk sec, expandSecrets desc sk = .ok sec ∧
    ((∃ id pk ek int dk rnd, gyHybridDrInitAlice desc id sec pk ek int dk rnd = .ok s) ∨
      ∃ id spk int ek, gyHybridDrInitBob desc id sec spk int ek = .ok s)

/-- The responder's side has derived nothing yet. -/
theorem begun_bob (I : IdealSuite desc) {sk : Bytes β} {sec : DrSecrets β}
    (h : expandSecrets desc sk = .ok sec) (id : UInt8) (spk : Keypair β) :
    (gyDrInitBob id sec spk).Begun desc sec.skDr :=
  have hseeds := I.seeds_of_expandSecrets h
  ⟨⟨hseeds.skDr_ne, hseeds.hka_ne⟩, ⟨0, .refl⟩, rfl, rfl⟩

/-- The initiator's side has made one derivation. -/
theorem begun_alice (I : IdealSuite desc) {sk : Bytes β} {sec : DrSecrets β}
    (h : expandSecrets desc sk = .ok sec) {ikm : Bytes β} {r : RootKeys β}
    (hr : gyDrcKdfRk desc sec.skDr ikm = .ok r) {b : DrState β} (hrk : b.rk = r.rk)
    (hnhkr : b.nhkr = sec.sharedNhkb) (hckr : b.haveCkr = false)
    (hskip : b.skipped = SkipStore.empty) : b.Begun desc sec.skDr where
  seeds := by
    have hseeds := I.seeds_of_expandSecrets h
    rw [hnhkr]
    exact ⟨hseeds.skDr_ne, hseeds.nhkb_ne⟩
  path := ⟨1, hrk ▸ KdfPath.refl.step hr⟩
  haveCkr := hckr
  skipped := hskip

theorem ClassicalStart.begun (I : IdealSuite desc) {s : DrState β} (h : ClassicalStart desc s) :
    ∃ root, s.Begun desc root := by
  obtain ⟨sk, sec, hsec, ⟨id, pk, kp, hinit⟩ | ⟨id, spk, rfl⟩⟩ := h
  · obtain ⟨kp, -, hinit⟩ := Except.bind_eq_ok_iff.1 hinit
    obtain ⟨dh, -, hinit⟩ := Except.bind_eq_ok_iff.1 hinit
    obtain ⟨r, hr, hinit⟩ := Except.bind_eq_ok_iff.1 hinit
    obtain rfl := Except.ok.inj hinit
    exact ⟨_, begun_alice I hsec hr rfl rfl rfl rfl⟩
  · exact ⟨_, begun_bob I hsec id spk⟩

theorem HybridStart.begun (I : IdealSuite desc) {s : HybridState β} (h : HybridStart desc s) :
    ∃ root, s.base.Begun desc root := by
  obtain ⟨sk, sec, hsec, ⟨id, pk, ek, int, dk, rnd, hinit⟩ | ⟨id, spk, int, ek, hinit⟩⟩ := h
  · rw [gyHybridDrInitAlice] at hinit
    split_ifs at hinit
    obtain ⟨kp, -, hinit⟩ := Except.bind_eq_ok_iff.1 hinit
    obtain ⟨kem, -, hinit⟩ := Except.bind_eq_ok_iff.1 hinit
    obtain ⟨ct, -, hinit⟩ := Except.bind_eq_ok_iff.1 hinit
    obtain ⟨dh, -, hinit⟩ := Except.bind_eq_ok_iff.1 hinit
    obtain ⟨hdh, -, hinit⟩ := Except.bind_eq_ok_iff.1 hinit
    obtain ⟨r, hr, hinit⟩ := Except.bind_eq_ok_iff.1 hinit
    obtain rfl := Except.ok.inj hinit
    exact ⟨_, begun_alice I hsec hr rfl rfl rfl rfl⟩
  · rw [gyHybridDrInitBob] at hinit
    split_ifs at hinit
    obtain rfl := Except.ok.inj hinit
    exact ⟨_, begun_bob I hsec id spk.curve⟩

/-- Whatever a session with an empty store receives: every store it handles, at rest or in the
middle of a message, is sound, and while fewer than `2 ^ 64` messages have been decrypted its ages
are in order and not ahead of the clock. -/
def Engine.StoresOk [DecidableEq β] {σ η : Type} (E : Engine β σ η) (desc : SuiteDesc β) : Prop :=
  ∀ (N : Nat) (R : Reception E desc N), ∀ m ≤ N, ∀ s t, E.Idle desc (R.st m) s →
    E.Handles desc s t → t.Sound ∧ (m < 2 ^ 64 → t.AgesInOrder)

/-- Whatever a session receives after its set-up: the keys of every store it handles are told
apart. -/
def Engine.KeysOk [DecidableEq β] {σ η : Type} (E : Engine β σ η) (desc : SuiteDesc β)
    (Start : σ → Prop) : Prop :=
  ∀ (N : Nat) (R : Reception E desc N), Start (R.st 0) → ∀ m ≤ N, ∀ s t,
    E.Idle desc (R.st m) s → E.Handles desc s t → t.KeysApart

/-- For both engines and every suite, whether or not its primitives fail, the skipped-key store is
sound in every run. That its keys are told apart takes an ideal key derivation. -/
theorem skip_store_sound [DecidableEq β] (desc : SuiteDesc β) :
    (classical desc).StoresOk desc ∧ (hybrid desc).StoresOk desc ∧
      ∀ _ : IdealSuite desc, (classical desc).KeysOk desc (ClassicalStart desc) ∧
        (hybrid desc).KeysOk desc (HybridStart desc) := by
  refine ⟨fun N R m hm s t hidle ht => R.sound (shape_classical desc) hm hidle ht,
    fun N R m hm s t hidle ht => R.sound (shape_hybrid desc) hm hidle ht, fun I => ⟨?_, ?_⟩⟩
  · intro N R hstart m hm s t hidle ht
    obtain ⟨root, hb⟩ := hstart.begun I
    exact R.keysApart (shape_classical desc) I hb hm hidle ht
  · intro N R hstart m hm s t hidle ht
    obtain ⟨root, hb⟩ := hstart.begun I
    exact R.keysApart (shape_hybrid desc) I hb hm hidle ht

/-- Of a burst of four messages, message 0 and message 3 arrive: a run of the receiver that ends
with two skipped keys. -/
theorem Burst.exists_reception [DecidableEq β] {σ η γ : Type} {E : Engine β σ η}
    {I : IdealSuite desc} {S : EngineSpec E I γ} {id : UInt8} {ad : Bytes β} {sec : DrSecrets β}
    {w : World β σ} {keys : List (Bytes β)} {lv : Nat → Level β γ} {pos : Party → Nat → Nat}
    (hE : E.Shape desc) (h : Burst S id ad sec w keys lv pos 4) (hid : AeadUsable β id)
    (had : ad.length ≤ E.adMax) (hsec : Seeds desc sec) {rnd₁ rnd₂ : RatchetRand β}
    {kp₁ kp₂ : Keypair β} (hrnd₁ : S.RandOk rnd₁ kp₁) (hrnd₂ : S.RandOk rnd₂ kp₂)
    (hfresh : kp₁.pk ∉ keys) (cap : Nat) : ∃ R : Reception E desc 2, R.st 0 = w.st .bob ∧
      (E.base (R.st 2)).skipped.ent.length = 2 := by
  obtain ⟨-, -, s₁, s₂, hstep₁, hstep₂, -, hcount, -⟩ :=
    h.skip_two hE hid had hsec hrnd₁ hrnd₂ hfresh cap
  have hget : ∀ i < 4, ∃ f, w.sent[i]? = some f := fun i hi =>
    ⟨_, List.getElem?_eq_getElem (by rw [h.length]; exact hi)⟩
  obtain ⟨f₀, hf₀⟩ := hget 0 (by decide)
  obtain ⟨f₃, hf₃⟩ := hget 3 (by decide)
  obtain ⟨pt₁, hok₁, hst₁⟩ := World.decrypted_of_accept hf₀ hstep₁
  obtain ⟨pt₂, hok₂, hst₂⟩ := @World.decrypted_of_accept _ _ _ _ _ _ desc E ad
    (w.accept .bob s₁ 0) _ _ _ _ _ _ hf₃ hstep₂
  rw [hstep₁, (h.frames 0 f₀ hf₀).1, Party.peer, World.st_accept] at hst₁
  rw [hstep₂, (h.frames 3 f₃ hf₃).1, Party.peer, World.st_accept, World.st_accept] at hst₂
  rw [(h.frames 0 f₀ hf₀).1, Party.peer] at hok₁
  rw [(h.frames 3 f₃ hf₃).1, Party.peer, World.st_accept] at hok₂
  refine ⟨⟨fun m => [w.st .bob, s₁, s₂].getD m s₂, h.skipped, fun m hm => ?_⟩, rfl, hcount⟩
  obtain rfl | rfl : m = 0 ∨ m = 1 := by omega
  · exact ⟨_, rnd₁, cap, f₀.wire, ad, pt₁, .refl, hok₁, hst₁⟩
  · exact ⟨_, rnd₂, cap, f₃.wire, ad, pt₂, .refl, hok₂, hst₂⟩

theorem skip_store_sound_conversation :
    ∃ R : Reception (classical (symSuite false)) (symSuite false) 2, R.st 0 = symBob ∧
      (R.st 2).skipped.ent.length = 2 ∧ (R.st 2).skipped.Sound ∧ (R.st 2).skipped.AgesInOrder ∧
      (R.st 2).skipped.KeysApart := by
  obtain ⟨lv, hy⟩ := sync_sym
  have hstart := Burst.start hy rfl
  have hburst := hstart.run aeadUsable_sym (Nat.zero_le _) (length_zeros 16) roomFor_classical 4
    (by decide)
  obtain ⟨hbob, -⟩ := hstart.run_kept aeadUsable_sym (Nat.zero_le _) (length_zeros 16)
    roomFor_classical 4 (by decide)
  obtain ⟨R, hst, hcount⟩ := hburst.exists_reception (shape_classical _) aeadUsable_sym
    (Nat.zero_le _) (seeds_sym false) (classicalRandOk_sym 2) (classicalRandOk_sym 3)
    (symRand_pk_fresh 0) 8192
  have h0 : R.st 0 = symBob := hst.trans hbob
  have hclassical : ClassicalStart (symSuite false) (R.st 0) :=
    ⟨_, _, expandSecrets_sym false, .inr ⟨1, Sym.curvePair 0, h0.symm⟩⟩
  obtain ⟨hstores, -, hkeys⟩ := skip_store_sound (symSuite false)
  obtain ⟨hsound, hages⟩ := hstores 2 R 2 le_rfl _ _ .refl .rest
  exact ⟨R, h0, hcount, hsound, hages (by decide),
    (hkeys (symIdeal false)).1 2 R hclassical 2 le_rfl _ _ .refl .rest⟩

end Starts

/-! ## The clock wraps -/

section Wrap

variable [Octet β] [DecidableEq β]

/-- The receiving side after the first `m` of a sequence of arrivals. -/
def RecvSide.after (c : RecvSide β) (arr : Nat → Arrival β) : Nat → RecvSide β
  | 0 => c
  | m + 1 => (after c arr m).receive (arr m)

/-- One chain is opened under the header key `hk` and followed in order, until message `M` opens
another under `hk'` and skips a message of it. -/
def lateSkip (hk hk' mk : Bytes β) (M m : Nat) : Arrival β :=
  if m = 0 then .fresh hk [] [] else if m = M then .fresh hk' [] [mk] else .same []

/-- The receiving side before the first message. -/
def RecvSide.start : RecvSide β := ⟨SkipStore.empty, none, 0⟩

/-- A message that skips nothing, and one that opens a chain and skips one message, fit. -/
theorem lateSkip_fits {hk hk' mk : Bytes β} {M : Nat} (hM : 0 < M) (m : Nat) :
    (lateSkip hk hk' mk M m).Fits (if m = M then hk' else hk)
      (RecvSide.start.after (lateSkip hk hk' mk M) m) := by
  have hlt := (RecvSide.start.after (lateSkip hk hk' mk M) m).nr.toNat_lt
  by_cases h0 : m = 0
  · subst h0
    rw [lateSkip, if_pos rfl, if_neg hM.ne]
    exact ⟨rfl, Nat.zero_le _, fun _ => rfl, hlt, Nat.zero_le _⟩
  · rw [lateSkip, if_neg h0]
    split_ifs
    · exact ⟨rfl, Nat.zero_le _, fun _ => rfl, hlt, Nat.succ_pos 999⟩
    · refine ⟨?_, Nat.zero_le _, hlt⟩
      -- the chain was opened by message zero
      have hsome : ∀ j, 0 < j →
          ((RecvSide.start : RecvSide β).after (lateSkip hk hk' mk M) j).hk.isSome = true := by
        intro j hj
        induction j, hj using Nat.le_induction with
        | base => rfl
        | succ j hj ih =>
          rw [RecvSide.after, lateSkip, if_neg (by omega)]
          split_ifs
          · rfl
          · exact ih
      exact hsome m (Nat.pos_of_ne_zero h0)

/-- When the clock wraps, a key that the last message skipped carries a stamp ahead of it. -/
theorem lateSkip_wraps {hk hk' mk : Bytes β} {M : Nat} (hM : 0 < M)
    (hwrap : UInt64.ofNat (M + 1) = 0) :
    ∃ e ∈ (RecvSide.start.after (lateSkip hk hk' mk M) (M + 1)).store.ent,
      (RecvSide.start.after (lateSkip hk hk' mk M) (M + 1)).store.recvCount < e.age := by
  have ht : ∀ m, Tracks (Ghost.after RecvSide.start (lateSkip hk hk' mk M) m)
      (RecvSide.start.after (lateSkip hk hk' mk M) m) := fun m =>
    Tracks.after (RecvSide.start.after (lateSkip hk hk' mk M)) rfl fun _ _ => rfl
  have hclock : (Ghost.after RecvSide.start (lateSkip hk hk' mk M) M).queue.clock = M := by
    rw [Ghost.queue_after]
    exact AgeQueue.clock_after M
  have hlast : lateSkip hk hk' mk M M = .fresh hk' [] [mk] := by
    rw [lateSkip, if_neg hM.ne', if_pos rfl]
  have hstore := (ht (M + 1)).store
  rw [Ghost.after, hlast] at hstore
  generalize Ghost.after RecvSide.start (lateSkip hk hk' mk M) M = g at hclock hstore
  -- the last message puts its key in with the clock's reading
  obtain ⟨x, hx, hxM⟩ : ∃ x ∈ (g.receive (.fresh hk' [] [mk])).queue.items, x.stamp = M := by
    have hfin : g.finished [] = [] := by
      rw [Ghost.finished]
      cases g.hk <;> rfl
    refine ⟨⟨g.queue.issued, g.queue.clock, ⟨hk', 0, mk⟩⟩, List.mem_filter.2 ⟨?_, ?_⟩, hclock⟩
    · rw [Ghost.message, hfin]
      refine List.mem_append_right _ (List.mem_singleton.2 ?_)
      rw [AgeQueue.issued_makeRoom, AgeQueue.clock_makeRoom]
    · rw [(AgeQueue.applied_apply maxSkip g.queue _).clock, Nat.add_sub_cancel_left]
      rfl
  have hmem : AgeItem.written x ∈
      ((RecvSide.start.after (lateSkip hk hk' mk M) (M + 1)).store).stamped := by
    rw [hstore.stamped]
    exact List.mem_map_of_mem hx
  obtain ⟨e, he, hex⟩ := List.mem_map.1 hmem
  have hage : e.age = UInt64.ofNat M := (congrArg Prod.snd hex).trans (congrArg UInt64.ofNat hxM)
  have hnow : (g.receive (.fresh hk' [] [mk])).queue.clock = M + 1 := by
    show (g.queue.apply maxSkip _).clock + 1 = M + 1
    rw [(AgeQueue.applied_apply maxSkip g.queue _).clock, hclock]
  refine ⟨e, he, ?_⟩
  rw [hstore.clock, hage, hnow, hwrap, UInt64.lt_iff_toNat_lt, UInt64.toNat_ofNat']
  have hmod := congrArg UInt64.toNat hwrap
  rw [UInt64.toNat_ofNat'] at hmod
  have hzero : (0 : UInt64).toNat = 0 := rfl
  omega

/-- After `2 ^ 64` messages the clock reads zero, and the key that the last of them skipped carries
a stamp ahead of it. -/
theorem skip_store_ages_wrap :
    ∃ (next : Nat → Bytes Sym) (arr : Nat → Arrival Sym),
      (∀ m, (arr m).Fits (next m) (RecvSide.start.after arr m)) ∧
      ∃ e ∈ (RecvSide.start.after arr (2 ^ 64)).store.ent,
        (RecvSide.start.after arr (2 ^ 64)).store.recvCount < e.age :=
  ⟨_, lateSkip (zeros 32) (List.replicate 32 (.byte 1)) (zeros 32) (2 ^ 64 - 1),
    lateSkip_fits (by decide), lateSkip_wraps (M := 2 ^ 64 - 1) (by decide) (by decide)⟩

end Wrap

end Geryon
