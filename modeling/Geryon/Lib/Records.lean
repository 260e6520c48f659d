import Geryon.Lib.Cmd
import Mathlib.Logic.Function.Basic

/-!
# Record stores with failing callbacks

A store of typed records that is reached through three callbacks. A callback may fail, before or
after its effect; the failures are part of the state, one entry for each callback to come.

`Ensures clean x recs Q` is the postcondition of a command over all failures: whatever callbacks
fail, the result of `x` and the records it leaves satisfy `Q`. Under `clean` no failing callback has
an effect.
-/

namespace Geryon

/-- A failing callback: its code, and whether it had its effect before it failed. -/
structure Fault (ε : Type) where
  err : ε
  after : Bool
  deriving DecidableEq

/-- The records by key, and the failures of the callbacks to come. -/
structure RecStore (ε κ : Type) (V : κ → Type) where
  recs : (k : κ) → Option (V k)
  faults : List (Option (Fault ε))

namespace RecStore

variable {ε κ α : Type} {V : κ → Type} [DecidableEq κ]

/-- One callback: it has its effect and its result, unless it fails. -/
def callback (effect : ((k : κ) → Option (V k)) → (k : κ) → Option (V k))
    (result : ((k : κ) → Option (V k)) → α) : Cmd ε (RecStore ε κ V) α := fun s =>
  match s.faults with
  | some f :: rest => (.error f.err, ⟨if f.after then effect s.recs else s.recs, rest⟩)
  | none :: rest => (.ok (result s.recs), ⟨effect s.recs, rest⟩)
  | [] => (.ok (result s.recs), ⟨effect s.recs, []⟩)

/-- Read a record; nothing is read from an absent one. -/
def load (k : κ) : Cmd ε (RecStore ε κ V) (Option (V k)) := callback (fun r => r) fun r => r k

/-- Write a record. -/
def store (k : κ) (v : V k) : Cmd ε (RecStore ε κ V) Unit :=
  callback (fun r => Function.update r k (some v)) fun _ => ()

/-- Remove a record; removing an absent one succeeds. -/
def remove (k : κ) : Cmd ε (RecStore ε κ V) Unit :=
  callback (fun r => Function.update r k none) fun _ => ()

omit [DecidableEq κ] in
/-- A callback fails where the next failure says so. -/
theorem callback_apply (effect : ((k : κ) → Option (V k)) → (k : κ) → Option (V k))
    (result : ((k : κ) → Option (V k)) → α) (recs : (k : κ) → Option (V k))
    (faults : List (Option (Fault ε))) :
    callback effect result ⟨recs, faults⟩ =
      match faults.getD 0 none with
      | some f => (.error f.err, ⟨if f.after then effect recs else recs, faults.tail⟩)
      | none => (.ok (result recs), ⟨effect recs, faults.tail⟩) := by
  rcases faults with _ | ⟨_ | f, rest⟩
  · rfl
  · rfl
  · rfl

/-! ## Without failures -/

section NoFaults

variable {s : RecStore ε κ V} {k : κ} {v : V k}

omit [DecidableEq κ] in
@[simp] theorem load_apply (k : κ) (recs : (k : κ) → Option (V k)) :
    (load k : Cmd ε (RecStore ε κ V) _) ⟨recs, []⟩ = (.ok (recs k), ⟨recs, []⟩) := rfl

@[simp] theorem store_apply (k : κ) (v : V k) (recs : (k : κ) → Option (V k)) :
    (store k v : Cmd ε (RecStore ε κ V) _) ⟨recs, []⟩ =
      (.ok (), ⟨Function.update recs k (some v), []⟩) := rfl

@[simp] theorem remove_apply (k : κ) (recs : (k : κ) → Option (V k)) :
    (remove k : Cmd ε (RecStore ε κ V) _) ⟨recs, []⟩ =
      (.ok (), ⟨Function.update recs k none, []⟩) := rfl

omit [DecidableEq κ] in
/-- A load leaves the store. -/
theorem still_load (k : κ) (recs : (k : κ) → Option (V k)) :
    Cmd.Still (load k : Cmd ε (RecStore ε κ V) _) ⟨recs, []⟩ := rfl

end NoFaults

/-! ## Postconditions over all failures -/

/-- No failing callback has an effect. -/
def Clean (faults : List (Option (Fault ε))) : Prop := ∀ f, some f ∈ faults → f.after = false

/-- Whatever callbacks fail, the result and the records satisfy the postcondition; under `clean` no
failing callback has an effect. -/
def Ensures (clean : Prop) (x : Cmd ε (RecStore ε κ V) α) (recs : (k : κ) → Option (V k))
    (Q : Except ε α → ((k : κ) → Option (V k)) → Prop) : Prop :=
  ∀ faults, (clean → Clean faults) →
    Q (x ⟨recs, faults⟩).1 (x ⟨recs, faults⟩).2.recs ∧ (clean → Clean (x ⟨recs, faults⟩).2.faults)

section Ensures

variable {α' : Type} {clean : Prop} {recs : (k : κ) → Option (V k)} {x : Cmd ε (RecStore ε κ V) α}
  {Q Q' : Except ε α → ((k : κ) → Option (V k)) → Prop}

omit [DecidableEq κ] in
/-- What is ensured may be weakened. -/
theorem Ensures.mono (h : Ensures clean x recs Q) (hQ : ∀ r recs', Q r recs' → Q' r recs') :
    Ensures clean x recs Q' := fun faults hf => ⟨hQ _ _ (h faults hf).1, (h faults hf).2⟩

omit [DecidableEq κ] in
/-- A value ensures what holds of it. -/
theorem ensures_pure {a : α} (h : Q (.ok a) recs) : Ensures clean (pure a) recs Q :=
  fun _ hf => ⟨h, hf⟩

omit [DecidableEq κ] in
/-- So does a failure. -/
theorem ensures_fail {e : ε} (h : Q (.error e) recs) : Ensures clean (Cmd.fail e) recs Q :=
  fun _ hf => ⟨h, hf⟩

omit [DecidableEq κ] in
/-- So does a pure result. -/
theorem ensures_lift {r : Except ε α} (h : Q r recs) : Ensures clean (Cmd.lift r) recs Q :=
  fun _ hf => ⟨h, hf⟩

omit [DecidableEq κ] in
/-- A sequence: the first command ensures the postcondition where it fails, and where it succeeds
that the second one does. -/
theorem Ensures.bind {Q : Except ε α' → ((k : κ) → Option (V k)) → Prop}
    {f : α → Cmd ε (RecStore ε κ V) α'}
    (h : Ensures clean x recs fun r recs' =>
      match r with
      | .error e => Q (.error e) recs'
      | .ok a => Ensures clean (f a) recs' Q) :
    Ensures clean (x >>= f) recs Q := by
  intro faults hf
  obtain ⟨hQ, hclean⟩ := h faults hf
  rw [Cmd.bind_apply]
  rcases hx : x ⟨recs, faults⟩ with ⟨_ | a, recs', faults'⟩
  · rw [hx] at hQ hclean
    exact ⟨hQ, hclean⟩
  · rw [hx] at hQ hclean
    exact hQ faults' hclean

omit [DecidableEq κ] in
/-- Post-processing a result. -/
theorem Ensures.bind_pure {Q : Except ε α' → ((k : κ) → Option (V k)) → Prop} {f : α → α'}
    (h : Ensures clean x recs fun r recs' => Q (r.map f) recs') :
    Ensures clean (x >>= fun a => pure (f a)) recs Q := by
  refine Ensures.bind (h.mono fun r recs' hQ => ?_)
  cases r with
  | error e => exact hQ
  | ok a => exact ensures_pure hQ

omit [DecidableEq κ] in
/-- A computation that does not touch the store, followed by a command. -/
theorem Ensures.lift_bind {Q : Except ε α' → ((k : κ) → Option (V k)) → Prop} {r : Except ε α}
    {f : α → Cmd ε (RecStore ε κ V) α'} (hfail : ∀ e, r = .error e → Q (.error e) recs)
    (hok : ∀ a, r = .ok a → Ensures clean (f a) recs Q) :
    Ensures clean (Cmd.lift r >>= f) recs Q := by
  refine Ensures.bind (ensures_lift ?_)
  cases r with
  | error e => exact hfail e rfl
  | ok a => exact hok a rfl

omit [DecidableEq κ] in
/-- Catching an error. -/
theorem Ensures.attempt {Q : Except ε (Except ε α) → ((k : κ) → Option (V k)) → Prop}
    (h : Ensures clean x recs fun r recs' => Q (.ok r) recs') :
    Ensures clean (Cmd.attempt x) recs Q := h

omit [DecidableEq κ] in
/-- Either branch ensures it under its own condition. -/
theorem Ensures.ite {p : Prop} [Decidable p] {y : Cmd ε (RecStore ε κ V) α}
    (hx : p → Ensures clean x recs Q) (hy : ¬p → Ensures clean y recs Q) :
    Ensures clean (if p then x else y) recs Q := by
  split
  · exact hx ‹_›
  · exact hy ‹_›

omit [DecidableEq κ] in
/-- A callback ensures what holds after its effect, and before it if it fails. -/
theorem ensures_callback {effect : ((k : κ) → Option (V k)) → (k : κ) → Option (V k)}
    {result : ((k : κ) → Option (V k)) → α} (hfail : ∀ e, Q (.error e) recs)
    (hafter : ¬clean → ∀ e, Q (.error e) (effect recs))
    (hok : Q (.ok (result recs)) (effect recs)) :
    Ensures clean (callback effect result) recs Q := by
  intro faults hf
  rcases faults with _ | ⟨_ | ⟨err, after⟩, rest⟩
  · exact ⟨hok, hf⟩
  · exact ⟨hok, fun hc f hmem => hf hc f (List.mem_cons_of_mem _ hmem)⟩
  · refine ⟨?_, fun hc f hmem => hf hc f (List.mem_cons_of_mem _ hmem)⟩
    cases after with
    | false => exact hfail err
    | true =>
      refine hafter (fun hc => ?_) err
      exact Bool.noConfusion (hf hc ⟨err, true⟩ List.mem_cons_self)

omit [DecidableEq κ] in
/-- What a load ensures. -/
theorem ensures_load {k : κ} {Q : Except ε (Option (V k)) → ((k : κ) → Option (V k)) → Prop}
    (hfail : ∀ e, Q (.error e) recs) (hok : Q (.ok (recs k)) recs) :
    Ensures clean (load k) recs Q := ensures_callback hfail (fun _ => hfail) hok

omit [DecidableEq κ] in
/-- What a command that begins with a load ensures. -/
theorem Ensures.load_bind {k : κ} {Q : Except ε α → ((k : κ) → Option (V k)) → Prop}
    {f : Option (V k) → Cmd ε (RecStore ε κ V) α} (hfail : ∀ e, Q (.error e) recs)
    (hok : Ensures clean (f (recs k)) recs Q) : Ensures clean (load k >>= f) recs Q :=
  Ensures.bind (ensures_load hfail hok)

/-- What a store ensures. -/
theorem ensures_store {k : κ} {v : V k}
    {Q : Except ε Unit → ((k : κ) → Option (V k)) → Prop} (hfail : ∀ e, Q (.error e) recs)
    (hafter : ¬clean → ∀ e, Q (.error e) (Function.update recs k (some v)))
    (hok : Q (.ok ()) (Function.update recs k (some v))) : Ensures clean (store k v) recs Q :=
  ensures_callback hfail hafter hok

/-- What a removal ensures. -/
theorem ensures_remove {k : κ} {Q : Except ε Unit → ((k : κ) → Option (V k)) → Prop}
    (hfail : ∀ e, Q (.error e) recs)
    (hafter : ¬clean → ∀ e, Q (.error e) (Function.update recs k none))
    (hok : Q (.ok ()) (Function.update recs k none)) : Ensures clean (remove k) recs Q :=
  ensures_callback hfail hafter hok

/-- Writing a record before a command that keeps the records. -/
theorem Ensures.store_bind {k : κ} {v : V k} {Q : Except ε α → ((k : κ) → Option (V k)) → Prop}
    {f : Unit → Cmd ε (RecStore ε κ V) α} (hfail : ∀ e, Q (.error e) recs)
    (hafter : ¬clean → ∀ e, Q (.error e) (Function.update recs k (some v)))
    (hok : Ensures clean (f ()) (Function.update recs k (some v)) Q) :
    Ensures clean (store k v >>= f) recs Q :=
  Ensures.bind (ensures_store hfail hafter hok)

/-- Dropping a record as far as that works. -/
theorem Ensures.drop_bind {k : κ} {Q : Except ε α → ((k : κ) → Option (V k)) → Prop}
    {f : Except ε Unit → Cmd ε (RecStore ε κ V) α}
    (hkept : ∀ e, Ensures clean (f (.error e)) recs Q)
    (hdropped : ∀ r, Ensures clean (f r) (Function.update recs k none) Q) :
    Ensures clean (Cmd.attempt (remove k) >>= f) recs Q :=
  Ensures.bind (Ensures.attempt (ensures_remove hkept (fun _ e => hdropped (.error e))
    (hdropped (.ok ()))))

end Ensures

end RecStore

end Geryon
