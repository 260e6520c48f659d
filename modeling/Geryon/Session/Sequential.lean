import Geryon.Session.Store

/-!
# The staging engine against sequential execution

The engine answers loads from its stage and flushes records before deletions. `immediate` is what it
stands for: every action takes effect on the store at once. The two agree on a program exactly as
long as no key is both written and deleted in the wrong order: a deletion does not undo a staged
write for later loads, and a write does not undo an earlier deletion at commit.

## Main definitions

- `immediate`: sequential execution, as a stage over the store itself.
- `lastAct`: what the last action on a key made of it.

## Main results

- `engine_sequential_iff`: exactly when the engine refines sequential execution.
-/

namespace Geryon

variable {β : Type} [DecidableEq β]

/-! ## Sequential execution -/

/-- The callback that carries out an action at once. -/
def Act.callback : Act β → Callback β
  | .put k r => .store k r
  | .delete k => .delete k
  | .consumeOpk pkid => .consumeOpk pkid

/-- Sequential execution: a load reads the store, an action changes it. -/
def immediate : Txn.Stage (RecKey β) (Record β) (Act β) GyErr (Disk β) :=
  ⟨fun d k => some (d.recs k), fun a d => .ok (d.apply a.callback)⟩

/-- The store as the load callback of an operation sees it when it never fails. -/
def Disk.steady (d : Disk β) : RecKey β → Except GyErr (Option (Record β)) := d.view fun _ => none

/-- What an action makes of a key, if it concerns it. -/
def Act.effect (k : RecKey β) : Act β → Option (Option (Record β))
  | .put k' r => if k' = k then some (some r) else none
  | .delete k' => if k' = k then some none else none
  | .consumeOpk _ => none

/-- The record an action puts at a key, if it does. -/
def Act.putAt (k : RecKey β) : Act β → Option (Record β)
  | .put k' r => if k' = k then some r else none
  | _ => none

/-- The prekey an action consumes, if it does. -/
def Act.opk : Act β → Option UInt32
  | .consumeOpk pkid => some pkid
  | _ => none

/-- The prekey a deferred action consumes, if it does. -/
def Defer.opk : Defer β → Option UInt32
  | .consumeOpk pkid => some pkid
  | _ => none

/-- What the last action on a key made of it. -/
def lastAct (l : List (Act β)) (k : RecKey β) : Option (Option (Record β)) :=
  l.reverse.findSome? (Act.effect k)

/-- The last record put at a key. -/
def lastPut (l : List (Act β)) (k : RecKey β) : Option (Record β) :=
  l.reverse.findSome? (Act.putAt k)

@[simp] theorem lastAct_append (l : List (Act β)) (a : Act β) (k : RecKey β) :
    lastAct (l ++ [a]) k = (a.effect k).or (lastAct l k) := by
  rw [lastAct, lastAct, List.reverse_append, List.reverse_singleton, List.singleton_append,
    List.findSome?_cons]
  cases a.effect k <;> rfl

@[simp] theorem lastPut_append (l : List (Act β)) (a : Act β) (k : RecKey β) :
    lastPut (l ++ [a]) k = (a.putAt k).or (lastPut l k) := by
  rw [lastPut, lastPut, List.reverse_append, List.reverse_singleton, List.singleton_append,
    List.findSome?_cons]
  cases a.putAt k <;> rfl

/-- A key was not put exactly if no action puts it. -/
theorem lastPut_eq_none {l : List (Act β)} {k : RecKey β} :
    lastPut l k = none ↔ ∀ r, Act.put k r ∉ l := by
  rw [lastPut, List.findSome?_eq_none_iff]
  constructor
  · intro h r hmem
    have hnone := h _ (List.mem_reverse.mpr hmem)
    simp [Act.putAt] at hnone
  · intro h a ha
    cases a with
    | put k' r =>
      rw [Act.putAt, if_neg]
      rintro rfl
      exact h r (List.mem_reverse.mp ha)
    | delete k' => rfl
    | consumeOpk pkid => rfl

/-- Callbacks are applied in order. -/
theorem Disk.applyAll_append (d : Disk β) (l l' : List (Callback β)) :
    d.applyAll (l ++ l') = (d.applyAll l).applyAll l' := List.foldl_append

/-- One more callback is applied last. -/
theorem Disk.applyAll_snoc (d : Disk β) (l : List (Callback β)) (cb : Callback β) :
    d.applyAll (l ++ [cb]) = (d.applyAll l).apply cb := List.foldl_append

/-- What a sequence of actions leaves at a key. -/
theorem recs_immediate (d : Disk β) (l : List (Act β)) (k : RecKey β) :
    (d.applyAll (l.map Act.callback)).recs k = (lastAct l k).getD (d.recs k) := by
  induction l using List.reverseRecOn with
  | nil => rfl
  | append_singleton l a ih =>
    rw [List.map_append, List.map_singleton, Disk.applyAll_snoc, lastAct_append]
    cases a with
    | put k' r =>
      by_cases hk : k' = k
      · subst hk
        simp [Disk.apply, Act.callback, Act.effect]
      · simp [Disk.apply, Act.callback, Act.effect, hk, Function.update_of_ne (Ne.symm hk), ih]
    | delete k' =>
      by_cases hk : k' = k
      · subst hk
        simp [Disk.apply, Act.callback, Act.effect]
      · simp [Disk.apply, Act.callback, Act.effect, hk, Function.update_of_ne (Ne.symm hk), ih]
    | consumeOpk pkid =>
      simp [Disk.apply, Act.callback, Act.effect, ih]

/-- The one-time prekeys after the callbacks of a program, one by one. -/
theorem opks_immediate (d : Disk β) (l : List (Act β)) :
    (d.applyAll (l.map Act.callback)).opks =
      (l.filterMap Act.opk).foldl OpkPool.consume d.opks := by
  induction l using List.reverseRecOn with
  | nil => rfl
  | append_singleton l a ih =>
    rw [List.map_append, List.map_singleton, Disk.applyAll_snoc, List.filterMap_append,
      List.foldl_append, ← ih]
    cases a <;> rfl

/-! ## What the stage holds -/

/-- The slots a key belongs to. -/
def Op.slots (op : Op β) : RecKey β → List (RecKey β × Record β)
  | .session _ => op.sess
  | _ => op.recs

/-- The kind of a key whose record is staged with the sessions. -/
def RecKey.isSession : RecKey β → Bool
  | .session _ => true
  | _ => false

omit [DecidableEq β] in
/-- Sessions are staged apart from other records. -/
theorem Op.slots_eq (op : Op β) (k : RecKey β) :
    op.slots k = if k.isSession then op.sess else op.recs := by
  cases k <;> rfl

/-- A stage that has taken a sequence of actions. -/
structure Staged (l : List (Act β)) (op : Op β) : Prop where
  put : ∀ k, slotGet (op.slots k) k = lastPut l k
  delete : ∀ k, Defer.delete k ∈ op.defers ↔ Act.delete k ∈ l
  opk : op.defers.filterMap Defer.opk = l.filterMap Act.opk
  recs : ∀ e ∈ op.recs, e.1.isSession = false
  sess : ∀ e ∈ op.sess, e.1.isSession = true
  nodup_recs : (op.recs.map Prod.fst).Nodup
  nodup_sess : (op.sess.map Prod.fst).Nodup

/-- Nothing is staged before the first action. -/
theorem staged_empty : Staged [] (Op.empty : Op β) where
  put k := by cases k <;> rfl
  delete k := by simp [Op.empty]
  opk := rfl
  recs e he := by cases he
  sess e he := by cases he
  nodup_recs := List.nodup_nil
  nodup_sess := List.nodup_nil

@[simp] theorem slotGet_nil (k : RecKey β) : slotGet ([] : List (RecKey β × Record β)) k = none :=
  rfl

@[simp] theorem slotGet_cons (e : RecKey β × Record β) (l : List (RecKey β × Record β))
    (k : RecKey β) : slotGet (e :: l) k = if e.1 = k then some e.2 else slotGet l k := by
  rw [slotGet, List.find?_cons]
  by_cases h : e.1 = k
  · simp [h]
  · simp [h, slotGet]

/-- A record is looked for in the first part, then in the second. -/
theorem slotGet_append (l l' : List (RecKey β × Record β)) (k : RecKey β) :
    slotGet (l ++ l') k = (slotGet l k).or (slotGet l' k) := by
  induction l with
  | nil => rfl
  | cons e l ih =>
    rw [List.cons_append, slotGet_cons, slotGet_cons, ih]
    split <;> rfl

/-- A record is not found exactly if no slot has its key. -/
theorem slotGet_eq_none {l : List (RecKey β × Record β)} {k : RecKey β} :
    slotGet l k = none ↔ ∀ e ∈ l, e.1 ≠ k := by
  simp [slotGet, List.find?_eq_none]

/-- Replacing the record of a key leaves the other keys as they are. -/
theorem slotGet_replace (l : List (RecKey β × Record β)) (k k' : RecKey β) (r : Record β) :
    slotGet (l.map fun e => if e.1 = k then (k, r) else e) k' =
      if k = k' then (slotGet l k).map fun _ => r else slotGet l k' := by
  induction l with
  | nil => simp
  | cons e l ih =>
    rw [List.map_cons, slotGet_cons, ih]
    by_cases hek : e.1 = k
    · by_cases hk : k = k' <;> simp [hek, hk]
    · by_cases hk : k = k'
      · subst hk
        simp [hek]
      · simp [hek, hk]

/-- What a slot list holds after a put. -/
theorem slotGet_slotPut {cap : Nat} {l l' : List (RecKey β × Record β)} {k : RecKey β}
    {r : Record β} (h : slotPut cap l k r = .ok l') (k' : RecKey β) :
    slotGet l' k' = if k = k' then some r else slotGet l k' := by
  rw [slotPut] at h
  -- an existing slot is overwritten, a new one is appended while there is room
  split at h
  · next hany =>
    obtain rfl := Except.ok.inj h
    obtain ⟨e, he, hek⟩ := List.any_eq_true.mp hany
    have hsome : slotGet l k ≠ none := fun hnone =>
      slotGet_eq_none.mp hnone e he (of_decide_eq_true hek)
    obtain ⟨r', hr'⟩ := Option.ne_none_iff_exists'.mp hsome
    rw [slotGet_replace, hr', Option.map_some]
  · next hany =>
    split at h
    · obtain rfl := Except.ok.inj h
      have hnone : slotGet l k = none := by
        rw [slotGet_eq_none]
        intro e he hek
        exact hany (List.any_eq_true.mpr ⟨e, he, decide_eq_true hek⟩)
      rw [slotGet_append, slotGet_cons, slotGet_nil]
      by_cases hk : k = k'
      · subst hk
        rw [if_pos rfl, if_pos rfl, hnone, Option.none_or]
      · rw [if_neg hk, if_neg hk, Option.or_none]
    · cases h

/-- A put keeps the keys of a slot list distinct and adds no key but its own. -/
theorem keys_slotPut {cap : Nat} {l l' : List (RecKey β × Record β)} {k : RecKey β}
    {r : Record β} (h : slotPut cap l k r = .ok l') (hnd : (l.map Prod.fst).Nodup) :
    (l'.map Prod.fst).Nodup ∧ ∀ e ∈ l', e.1 = k ∨ ∃ e' ∈ l, e'.1 = e.1 := by
  rw [slotPut] at h
  split at h
  · obtain rfl := Except.ok.inj h
    have hkeys : (l.map fun e => if e.1 = k then (k, r) else e).map Prod.fst = l.map Prod.fst := by
      rw [List.map_map]
      refine List.map_congr_left fun e _ => ?_
      by_cases he : e.1 = k <;> simp [he]
    refine ⟨hkeys ▸ hnd, fun e he => ?_⟩
    have hmem : e.1 ∈ l.map Prod.fst := hkeys ▸ List.mem_map_of_mem he
    exact .inr (by simpa using hmem)
  · next hany =>
    split at h
    · obtain rfl := Except.ok.inj h
      have hfresh : k ∉ l.map Prod.fst := by
        rw [List.mem_map]
        rintro ⟨e, he, hek⟩
        exact hany (List.any_eq_true.mpr ⟨e, he, decide_eq_true hek⟩)
      refine ⟨?_, fun e he => ?_⟩
      · rw [List.map_append, List.map_singleton]
        refine List.nodup_append.mpr ⟨hnd, List.nodup_singleton _, ?_⟩
        rintro a ha b hb rfl
        obtain rfl := List.mem_singleton.mp hb
        exact hfresh ha
      · rcases List.mem_append.mp he with he | he
        · exact .inr ⟨e, he, rfl⟩
        · exact .inl (by rw [List.mem_singleton.mp he])
    · cases h

/-- A put that is taken goes to the slots of its key. -/
theorem stageAct_put {k : RecKey β} {r : Record β} {op op' : Op β}
    (h : stageAct (.put k r) op = .ok op') :
    (k.isSession = false ∧ ∃ l, slotPut opMaxRecords op.recs k r = .ok l ∧
      op' = { op with recs := l }) ∨
    (k.isSession = true ∧ ∃ l, slotPut opMaxSessions op.sess k r = .ok l ∧
      op' = { op with sess := l }) := by
  cases k with
  | session id =>
    obtain ⟨l, hl, h⟩ := Except.bind_eq_ok_iff.mp h
    exact .inr ⟨rfl, l, hl, (Except.ok.inj h).symm⟩
  | user id =>
    obtain ⟨l, hl, h⟩ := Except.bind_eq_ok_iff.mp h
    exact .inl ⟨rfl, l, hl, (Except.ok.inj h).symm⟩
  | device key =>
    obtain ⟨l, hl, h⟩ := Except.bind_eq_ok_iff.mp h
    exact .inl ⟨rfl, l, hl, (Except.ok.inj h).symm⟩

omit [DecidableEq β] in
/-- A deferred action that is taken joins the list. -/
theorem pushDefer_ok {op op' : Op β} {d : Defer β} (h : pushDefer op d = .ok op') :
    op' = { op with defers := op.defers ++ [d] } := by
  rw [pushDefer] at h
  split at h
  · cases h
  · exact (Except.ok.inj h).symm

/-- Staging a put keeps the stage in step with the program. -/
theorem Staged.put_act {l : List (Act β)} {op op' : Op β} (h : Staged l op) {k : RecKey β}
    {r : Record β} (ha : stageAct (.put k r) op = .ok op') : Staged (l ++ [.put k r]) op' := by
  have hdel : ∀ k', Defer.delete k' ∈ op.defers ↔ Act.delete k' ∈ l ++ [.put k r] := by
    intro k'
    rw [h.delete k']
    simp
  have hopk : op.defers.filterMap Defer.opk = (l ++ [Act.put k r]).filterMap Act.opk := by
    rw [h.opk, List.filterMap_append]
    exact (List.append_nil _).symm
  have hput : ∀ (cap : Nat) {slots slots' : List (RecKey β × Record β)},
      slotPut cap slots k r = .ok slots' → ∀ k', slotGet slots k' = lastPut l k' →
        slotGet slots' k' = lastPut (l ++ [.put k r]) k' := by
    intro cap slots slots' hp k' hk'
    rw [slotGet_slotPut hp k', hk', lastPut_append, Act.putAt]
    split <;> rfl
  -- sessions go to a table of their own
  rcases stageAct_put ha with ⟨hk, slots, hp, rfl⟩ | ⟨hk, slots, hp, rfl⟩
  · obtain ⟨hnd, hkeys⟩ := keys_slotPut hp h.nodup_recs
    refine ⟨fun k' => ?_, hdel, hopk, fun e he => ?_, h.sess, hnd, h.nodup_sess⟩
    · have hk' := h.put k'
      rw [Op.slots_eq] at hk' ⊢
      by_cases hs : k'.isSession
      · rw [if_pos hs] at hk' ⊢
        have hne : k ≠ k' := by
          rintro rfl
          rw [hk] at hs
          cases hs
        rw [lastPut_append, Act.putAt, if_neg hne, Option.none_or, hk']
      · rw [if_neg hs] at hk' ⊢
        exact hput _ hp k' hk'
    · rcases hkeys e he with he | ⟨e', he', heq⟩
      · rw [he, hk]
      · rw [← heq]
        exact h.recs e' he'
  · obtain ⟨hnd, hkeys⟩ := keys_slotPut hp h.nodup_sess
    refine ⟨fun k' => ?_, hdel, hopk, h.recs, fun e he => ?_, h.nodup_recs, hnd⟩
    · have hk' := h.put k'
      rw [Op.slots_eq] at hk' ⊢
      by_cases hs : k'.isSession
      · rw [if_pos hs] at hk' ⊢
        exact hput _ hp k' hk'
      · rw [if_neg hs] at hk' ⊢
        have hne : k ≠ k' := by
          rintro rfl
          exact hs hk
        rw [lastPut_append, Act.putAt, if_neg hne, Option.none_or, hk']
    · rcases hkeys e he with he | ⟨e', he', heq⟩
      · rw [he, hk]
      · rw [← heq]
        exact h.sess e' he'

/-- So does deferring an action. -/
theorem Staged.defer_act {l : List (Act β)} {op : Op β} (h : Staged l op) {a : Act β}
    {d : Defer β} (hput : ∀ k, a.putAt k = none) (hopk : a.opk = d.opk)
    (hdel : ∀ k, Defer.delete k = d ↔ Act.delete k = a) :
    Staged (l ++ [a]) { op with defers := op.defers ++ [d] } where
  put k := by
    rw [lastPut_append, hput, Option.none_or, ← h.put k]
    rw [Op.slots_eq, Op.slots_eq]
  delete k := by
    rw [List.mem_append, List.mem_append, List.mem_singleton, List.mem_singleton,
      h.delete k, hdel k]
  opk := by
    rw [List.filterMap_append, List.filterMap_append, h.opk]
    simp [List.filterMap_cons, hopk]
  recs := h.recs
  sess := h.sess
  nodup_recs := h.nodup_recs
  nodup_sess := h.nodup_sess

/-- An action that is taken extends the sequence of actions. -/
theorem Staged.stageAct {l : List (Act β)} {op op' : Op β} (h : Staged l op) {a : Act β}
    (ha : Geryon.stageAct a op = .ok op') : Staged (l ++ [a]) op' := by
  cases a with
  | put k r => exact h.put_act ha
  | delete k =>
    rw [Geryon.stageAct] at ha
    split at ha
    · cases ha
    · obtain rfl := pushDefer_ok ha
      exact h.defer_act (fun _ => rfl) rfl fun k' => by simp
  | consumeOpk pkid =>
    obtain rfl := pushDefer_ok ha
    exact h.defer_act (fun _ => rfl) rfl fun k' => by simp

/-- What a load of a key finds. -/
theorem Staged.answer {l : List (Act β)} {op : Op β} (h : Staged l op) (d : Disk β)
    (k : RecKey β) : Txn.answer engine d.steady op k =
      .ok (match lastPut l k with
        | some r => some r
        | none => if Defer.delete k ∈ op.defers then none else d.recs k) := by
  have hlook : stageLookup op k = match lastPut l k with
      | some r => some (some r)
      | none => if Defer.delete k ∈ op.defers then some none else none := by
    rw [← h.put k]
    cases k <;> rfl
  rw [Txn.answer, show engine.shadow op k = stageLookup op k from rfl, hlook]
  cases lastPut l k with
  | some r => rfl
  | none =>
    by_cases hd : Defer.delete k ∈ op.defers
    · simp only [hd, if_true]
    · simp only [hd, if_false]
      rfl

/-- How the last action, the last put and the deletions of a key hang together. -/
theorem lastAct_spec (l : List (Act β)) (k : RecKey β) :
    (lastAct l k = none → lastPut l k = none ∧ Act.delete k ∉ l) ∧
    (lastAct l k = some none → Act.delete k ∈ l) ∧
    (∀ r, lastAct l k = some (some r) → lastPut l k = some r) := by
  induction l using List.reverseRecOn with
  | nil => exact ⟨fun _ => ⟨rfl, List.not_mem_nil⟩, fun h => (nomatch h), fun _ h => (nomatch h)⟩
  | append_singleton l a ih =>
    obtain ⟨h1, h2, h3⟩ := ih
    rw [lastAct_append, lastPut_append, List.mem_append, List.mem_singleton]
    -- the last action decides, unless it is about another key
    cases a with
    | put k' r' =>
      by_cases hk : k' = k
      · subst hk
        simp [Act.effect, Act.putAt]
      · simpa [Act.effect, Act.putAt, hk] using ⟨h1, h2, h3⟩
    | delete k' =>
      by_cases hk : k' = k
      · subst hk
        simp [Act.effect, Act.putAt]
      · simpa [Act.effect, Act.putAt, hk, Ne.symm hk] using ⟨h1, h2, h3⟩
    | consumeOpk pkid => simpa [Act.effect, Act.putAt] using ⟨h1, h2, h3⟩

/-! ## What a commit leaves -/

/-- The stores of a commit, at a key. -/
theorem recs_stores (d : Disk β) (l : List (RecKey β × Record β)) (hnd : (l.map Prod.fst).Nodup)
    (k : RecKey β) :
    (d.applyAll (l.map fun e => .store e.1 e.2)).recs k = (slotGet l k).or (d.recs k) := by
  induction l generalizing d with
  | nil => rfl
  | cons e l ih =>
    rw [List.map_cons, List.nodup_cons] at hnd
    rw [List.map_cons, Disk.applyAll, List.foldl_cons, ← Disk.applyAll, ih _ hnd.2, slotGet_cons]
    by_cases hk : e.1 = k
    · have hnone : slotGet l k = none := by
        rw [slotGet_eq_none]
        intro e' he' hek
        exact hnd.1 (List.mem_map.mpr ⟨e', he', hek.trans hk.symm⟩)
      subst hk
      simp [hnone, Disk.apply]
    · simp [hk, Disk.apply, Function.update_of_ne (Ne.symm hk)]

/-- The deferred actions of a commit, at a key. -/
theorem recs_defers (d : Disk β) (l : List (Defer β)) (k : RecKey β) :
    (d.applyAll (l.map Defer.callback)).recs k =
      if Defer.delete k ∈ l then none else d.recs k := by
  induction l generalizing d with
  | nil => rfl
  | cons e l ih =>
    rw [List.map_cons, Disk.applyAll, List.foldl_cons, ← Disk.applyAll, ih]
    by_cases hmem : Defer.delete k ∈ l
    · simp [hmem]
    · cases e with
      | delete k' =>
        by_cases hk : k' = k
        · subst hk
          simp [Defer.callback, Disk.apply]
        · simp [hmem, Ne.symm hk, Defer.callback, Disk.apply]
      | consumeOpk pkid => simp [hmem, Defer.callback, Disk.apply]

/-- Stores consume no prekey. -/
theorem opks_stores (d : Disk β) (l : List (RecKey β × Record β)) :
    (d.applyAll (l.map fun e => .store e.1 e.2)).opks = d.opks := by
  induction l generalizing d with
  | nil => rfl
  | cons e l ih =>
    rw [List.map_cons, Disk.applyAll, List.foldl_cons, ← Disk.applyAll, ih]
    rfl

/-- The deferred actions consume theirs. -/
theorem opks_defers (d : Disk β) (l : List (Defer β)) :
    (d.applyAll (l.map Defer.callback)).opks =
      (l.filterMap Defer.opk).foldl OpkPool.consume d.opks := by
  induction l generalizing d with
  | nil => rfl
  | cons e l ih =>
    rw [List.map_cons, Disk.applyAll, List.foldl_cons, ← Disk.applyAll, ih]
    cases e <;> rfl

/-- What the commit of a stage leaves at a key. -/
theorem Staged.recs_commit {l : List (Act β)} {op : Op β} (h : Staged l op) (d : Disk β)
    (k : RecKey β) : (d.applyAll op.callbacks).recs k =
      if Defer.delete k ∈ op.defers then none else (lastPut l k).or (d.recs k) := by
  -- the two tables hold different kinds of keys, so no key is stored twice
  have hnd : ((op.recs ++ op.sess).map Prod.fst).Nodup := by
    rw [List.map_append, List.nodup_append]
    refine ⟨h.nodup_recs, h.nodup_sess, ?_⟩
    rintro a ha b hb rfl
    obtain ⟨e, he, rfl⟩ := List.mem_map.mp ha
    obtain ⟨e', he', heq⟩ := List.mem_map.mp hb
    have hrec := h.recs e he
    rw [← heq, h.sess e' he'] at hrec
    cases hrec
  have hget : slotGet (op.recs ++ op.sess) k = lastPut l k := by
    rw [← h.put k, Op.slots_eq, slotGet_append]
    by_cases hs : k.isSession
    · have hnone : slotGet op.recs k = none := by
        rw [slotGet_eq_none]
        rintro e he rfl
        rw [h.recs e he] at hs
        cases hs
      rw [if_pos hs, hnone, Option.none_or]
    · have hnone : slotGet op.sess k = none := by
        rw [slotGet_eq_none]
        rintro e he rfl
        exact hs (h.sess e he)
      rw [if_neg hs, hnone, Option.or_none]
  rw [Op.callbacks, Disk.applyAll_append, recs_defers, recs_stores _ _ hnd, hget]

/-- A commit consumes the prekeys of the program. -/
theorem Staged.opks_commit {l : List (Act β)} {op : Op β} (h : Staged l op) (d : Disk β) :
    (d.applyAll op.callbacks).opks = (l.filterMap Act.opk).foldl OpkPool.consume d.opks := by
  rw [Op.callbacks, Disk.applyAll_append, opks_defers, opks_stores, h.opk]

/-! ## Refinement -/

/-- A load is in order: a key whose last action is a deletion was not written before. -/
def LoadTidy (l : List (Act β)) (k : RecKey β) : Prop :=
  lastAct l k = some none → ∀ r, Act.put k r ∉ l

/-- A commit is in order: a key whose last action is a write was not deleted before. -/
def CommitTidy (l : List (Act β)) : Prop :=
  ∀ k r, lastAct l k = some (some r) → Act.delete k ∉ l

/-- The stage answers a load as sequential execution would exactly if the load is in order. -/
theorem Staged.answer_iff {l : List (Act β)} {op : Op β} (h : Staged l op) (d : Disk β)
    (k : RecKey β) :
    Txn.answer engine d.steady op k =
      Txn.answer immediate d.steady (d.applyAll (l.map Act.callback)) k ↔
    LoadTidy l k := by
  obtain ⟨h1, h2, h3⟩ := lastAct_spec l k
  rw [h.answer, show Txn.answer immediate d.steady
    (d.applyAll (l.map Act.callback)) k = .ok ((d.applyAll (l.map Act.callback)).recs k) from rfl,
    recs_immediate, Except.ok.injEq, LoadTidy, ← lastPut_eq_none]
  -- a load sees the last store; after a delete it must see nothing
  cases hact : lastAct l k with
  | none =>
    obtain ⟨hput, hdel⟩ := h1 hact
    simp [hput, h.delete k, hdel]
  | some v =>
    cases v with
    | none =>
      have hdel := h2 hact
      cases lastPut l k with
      | none => simp [h.delete k, hdel]
      | some r => simp
    | some r => simp [h3 r hact]

/-- The commit of a stage leaves what sequential execution does exactly if it is in order. -/
theorem Staged.commit_iff {l : List (Act β)} {op : Op β} (h : Staged l op) (d : Disk β) :
    d.applyAll op.callbacks = d.applyAll (l.map Act.callback) ↔ CommitTidy l := by
  -- the commit runs its deletes last, so a store after a delete is what can go wrong
  have hrecs : ∀ k, (d.applyAll op.callbacks).recs k = (d.applyAll (l.map Act.callback)).recs k ↔
      ∀ r, lastAct l k = some (some r) → Act.delete k ∉ l := by
    intro k
    obtain ⟨h1, h2, h3⟩ := lastAct_spec l k
    rw [h.recs_commit, recs_immediate]
    cases hact : lastAct l k with
    | none =>
      obtain ⟨hput, hdel⟩ := h1 hact
      simp [hput, h.delete k, hdel]
    | some v =>
      cases v with
      | none => simp [h.delete k, h2 hact]
      | some r => simp [h.delete k, h3 r hact]
  constructor
  · intro heq k
    exact (hrecs k).mp (by rw [heq])
  · intro htidy
    have hopks : (d.applyAll op.callbacks).opks = (d.applyAll (l.map Act.callback)).opks := by
      rw [h.opks_commit, opks_immediate]
    have hfun : (d.applyAll op.callbacks).recs = (d.applyAll (l.map Act.callback)).recs :=
      funext fun k => (hrecs k).mpr (htidy k)
    exact Disk.ext hfun hopks

/-- The engine runs a program as sequential execution does: every load has the answer it would have
had every earlier action been applied at once, the result is the same, and the commit leaves the
store as the actions applied in order do. -/
def RunsSequentially {α : Type} (d : Disk β) (p : OpM β α) : Prop :=
  p.log engine d.steady Op.empty = p.log immediate d.steady d ∧
  (p.run engine d.steady Op.empty).1 = (p.run immediate d.steady d).1 ∧
  gyOpCommit none (p.run engine d.steady Op.empty).2 d = (.ok (), (p.run immediate d.steady d).2)

/-- The engine refines sequential execution of a program within its capacities exactly if every load
of the program is in order and so is its commit. -/
theorem engine_sequential_iff {α : Type} (d : Disk β) (p : OpM β α)
    (hfit : p.Fits engine d.steady Op.empty) :
    RunsSequentially d p ↔
      Txn.LoadsOk LoadTidy [] (p.log immediate d.steady d) ∧
        CommitTidy (Txn.acts (p.log immediate d.steady d)) := by
  -- the stage and the store go through the same actions; `Staged` says how the stage remembers them
  have hact : ∀ {l : List (Act β)} {op : Op β} {d' : Disk β} {a : Act β} {op' : Op β},
      (Staged l op ∧ d' = d.applyAll (l.map Act.callback)) → engine.stage a op = .ok op' →
      ∃ d'', immediate.stage a d' = .ok d'' ∧
        (Staged (l ++ [a]) op' ∧ d'' = d.applyAll ((l ++ [a]).map Act.callback)) := by
    rintro l op _ a op' ⟨h, rfl⟩ ha
    refine ⟨_, rfl, h.stageAct ha, ?_⟩
    rw [List.map_append, List.map_singleton, Disk.applyAll_snoc]
  obtain ⟨hlog, hend⟩ := Txn.log_eq_iff
    (R := fun l op d' => Staged l op ∧ d' = d.applyAll (l.map Act.callback)) (g := LoadTidy)
    (fun k h => h.2 ▸ h.1.answer_iff d k) hact p (t := d) hfit ⟨staged_empty, rfl⟩
  rw [List.nil_append] at hend
  constructor
  · rintro ⟨hsame, -, hcommit⟩
    obtain ⟨-, hst, hd⟩ := hend hsame
    refine ⟨hlog.mp hsame, (hst.commit_iff d).mp ?_⟩
    rw [← hd]
    exact (Prod.mk.inj hcommit).2
  · rintro ⟨hloads, htidy⟩
    have hsame := hlog.mpr hloads
    obtain ⟨hres, hst, hd⟩ := hend hsame
    refine ⟨hsame, hres, ?_⟩
    rw [gyOpCommit, hd, (hst.commit_iff d).mpr htidy]

/-- A store with no records. -/
def Disk.blank : Disk UInt8 := ⟨fun _ => none, ⟨[], []⟩⟩

/-- A record that is written and loaded. -/
def putThenLoad : OpM UInt8 (Option (UserRecord UInt8)) := do
  gyOpPutUser ⟨1, [7], []⟩
  gyOpLoadUser [7]

/-- On a put that is loaded again. -/
theorem engine_sequential_put : RunsSequentially Disk.blank putThenLoad := by
  have hfit : putThenLoad.Fits engine Disk.blank.steady Op.empty := trivial
  refine (engine_sequential_iff Disk.blank putThenLoad hfit).mpr ⟨⟨fun h => ?_, trivial⟩, ?_⟩
  · cases h
  · intro k r h hmem
    rcases List.mem_singleton.mp hmem with ⟨⟩

/-- A record that is deleted and then written. -/
def deleteThenPut : OpM UInt8 Unit := do
  gyOpDelete (.user [7])
  gyOpPutUser ⟨1, [7], []⟩

/-- A record that is written, deleted and then loaded. -/
def putThenDelete : OpM UInt8 (Option (UserRecord UInt8)) := do
  gyOpPutUser ⟨1, [7], []⟩
  gyOpDelete (.user [7])
  gyOpLoadUser [7]

/-- A write after a deletion is lost at commit, and a write before a deletion still answers loads.
-/
theorem engine_not_sequential :
    (deleteThenPut.Fits engine Disk.blank.steady Op.empty ∧
      ¬ RunsSequentially Disk.blank deleteThenPut) ∧
    (putThenDelete.Fits engine Disk.blank.steady Op.empty ∧
      ¬ RunsSequentially Disk.blank putThenDelete) := by
  refine ⟨⟨trivial, fun h => ?_⟩, trivial, fun h => ?_⟩
  · have hrec := congrFun (congrArg Disk.recs (Prod.mk.inj h.2.2).2) (.user [7])
    cases hrec
  · cases h.2.1

end Geryon
