import Geryon.Lib.Cmd

/-!
# Programs over a staged record store

A transactional program loads records by key, stages actions and may fail. `Txn` is the tree of its
requests; `Txn.run` interprets it over a stage that answers loads from its own writes first and
falls through to a view of the store, and `Txn.reads` lists the keys that fell through.

## Main results

- `Txn.run_bind`: running a sequence is running its parts.
- `Txn.run_congr`: a run depends on the view only at the keys it reads.
- `Txn.Sat.run`: what loads and actions keep is kept by every run.
- `Txn.log_eq_iff`: two stages that answer alike under a condition give the same log under it.
-/

/-- A program that loads records `ν` at keys `κ`, issues actions `ι` and may fail with `ε`. -/
inductive Txn (κ ν ι ε α : Type) : Type
  | done (a : α)
  | fail (e : ε)
  | load (k : κ) (next : Except ε (Option ν) → Txn κ ν ι ε α)
  | act (a : ι) (next : Txn κ ν ι ε α)

namespace Txn

variable {κ ν ι ε σ α τ : Type}

/-- Sequencing. -/
def bind : Txn κ ν ι ε α → (α → Txn κ ν ι ε τ) → Txn κ ν ι ε τ
  | done a, f => f a
  | fail e, _ => fail e
  | load k next, f => load k fun v => (next v).bind f
  | act a next, f => act a (next.bind f)

instance : Monad (Txn κ ν ι ε) where
  pure := done
  bind := bind

/-- Load the record at a key, or learn why the load failed. -/
def attempt (k : κ) : Txn κ ν ι ε (Except ε (Option ν)) := load k done

/-- Issue an action. -/
def perform (a : ι) : Txn κ ν ι ε Unit := act a (done ())

/-- Run a computation that neither loads nor acts. -/
def lift : Except ε α → Txn κ ν ι ε α
  | .ok a => done a
  | .error e => fail e

/-- Load the record at a key; a failed load is a failure. -/
def find (k : κ) : Txn κ ν ι ε (Option ν) := load k lift

/-- How a stage `σ` answers a load, if it does, and how it takes an action. -/
structure Stage (κ ν ι ε σ : Type) where
  shadow : σ → κ → Option (Option ν)
  stage : ι → σ → Except ε σ

variable (S : Stage κ ν ι ε σ) (view : κ → Except ε (Option ν))

/-- Run a program over a stage and a view of the store. -/
def run : Txn κ ν ι ε α → Cmd ε σ α
  | done a, s => (.ok a, s)
  | fail e, s => (.error e, s)
  | load k next, s =>
    match S.shadow s k with
    | some v => run (next (.ok v)) s
    | none => run (next (view k)) s
  | act a next, s =>
    match S.stage a s with
    | .ok s' => run next s'
    | .error e => (.error e, s)

/-- The keys a run asks the view for, in order. -/
def reads : Txn κ ν ι ε α → σ → List κ
  | done _, _ => []
  | fail _, _ => []
  | load k next, s =>
    match S.shadow s k with
    | some v => reads (next (.ok v)) s
    | none => k :: reads (next (view k)) s
  | act a next, s =>
    match S.stage a s with
    | .ok s' => reads next s'
    | .error _ => []

variable {S view}

@[simp] theorem run_pure (a : α) (s : σ) : (pure a : Txn κ ν ι ε α).run S view s = (.ok a, s) := rfl

@[simp] theorem run_fail (e : ε) (s : σ) : (fail e : Txn κ ν ι ε α).run S view s = (.error e, s) :=
  rfl

@[simp] theorem run_lift (x : Except ε α) (s : σ) :
    (lift x : Txn κ ν ι ε α).run S view s = (x, s) := by
  cases x <;> rfl

/-- What a load of a key gives: the stage's answer, or what the view holds. -/
def answer (S : Stage κ ν ι ε σ) (view : κ → Except ε (Option ν)) (s : σ) (k : κ) :
    Except ε (Option ν) :=
  match S.shadow s k with
  | some v => .ok v
  | none => view k

@[simp] theorem run_attempt (k : κ) (s : σ) :
    (attempt k : Txn κ ν ι ε _).run S view s = (.ok (answer S view s k), s) := by
  simp only [attempt, run, answer]
  cases S.shadow s k <;> rfl

@[simp] theorem run_find (k : κ) (s : σ) :
    (find k : Txn κ ν ι ε _).run S view s = (answer S view s k, s) := by
  simp only [find, run, answer]
  cases S.shadow s k with
  | none => exact run_lift _ _
  | some v => rfl

/-- An action that the stage takes changes the stage; one that it refuses leaves it. -/
@[simp] theorem run_perform (a : ι) (s : σ) : (perform a : Txn κ ν ι ε Unit).run S view s =
    match S.stage a s with
    | .ok s' => (.ok (), s')
    | .error e => (.error e, s) := rfl

/-- Running a sequence is running its parts. -/
@[simp] theorem run_bind (p : Txn κ ν ι ε α) (f : α → Txn κ ν ι ε τ) (s : σ) :
    (p >>= f).run S view s = (p.run S view >>= fun a => (f a).run S view) s := by
  show (p.bind f).run S view s = _
  induction p generalizing s with
  | done a => rfl
  | fail e => rfl
  | load k next ih =>
    rw [Cmd.bind_apply]
    simp only [bind, run]
    rcases S.shadow s k with - | v
    · exact ih (view k) s
    · exact ih (.ok v) s
  | act a next ih =>
    rw [Cmd.bind_apply]
    simp only [bind, run]
    rcases S.stage a s with e | s'
    · rfl
    · exact ih s'

/-- A choice runs the branch that is taken. -/
theorem run_ite (c : Prop) [Decidable c] (p q : Txn κ ν ι ε α) (s : σ) :
    (if c then p else q).run S view s = if c then p.run S view s else q.run S view s := by
  split <;> rfl

/-- A run depends on the view only at the keys it reads. -/
theorem run_congr {view' : κ → Except ε (Option ν)} (p : Txn κ ν ι ε α) (s : σ)
    (h : ∀ k ∈ p.reads S view s, view' k = view k) :
    p.run S view' s = p.run S view s ∧ p.reads S view' s = p.reads S view s := by
  induction p generalizing s with
  | done a => exact ⟨rfl, rfl⟩
  | fail e => exact ⟨rfl, rfl⟩
  | load k next ih =>
    simp only [reads] at h
    simp only [run, reads]
    rcases hk : S.shadow s k with - | v
    · rw [hk] at h
      have hkey : view' k = view k := h k List.mem_cons_self
      rw [hkey]
      obtain ⟨h1, h2⟩ := ih (view k) s fun k' hk' => h k' (List.mem_cons_of_mem _ hk')
      exact ⟨h1, congrArg _ h2⟩
    · rw [hk] at h
      exact ih _ s h
  | act a next ih =>
    simp only [reads] at h
    simp only [run, reads]
    rcases ha : S.stage a s with e | s'
    · exact ⟨rfl, rfl⟩
    · rw [ha] at h
      exact ih s' h

/-! ## What a program keeps -/

/-- Fed with loads in `R`, or with failed loads, the program issues only actions in `A` and returns
only values in `Q`. -/
def Sat (R : κ → Option ν → Prop) (A : ι → Prop) (Q : α → Prop) : Txn κ ν ι ε α → Prop
  | done a => Q a
  | fail _ => True
  | load k next => ∀ x, (∀ v, x = .ok v → R k v) → (next x).Sat R A Q
  | act a next => A a ∧ next.Sat R A Q

section Sat

variable {R : κ → Option ν → Prop} {A : ι → Prop} {Q Q' : α → Prop}

/-- A value satisfies what holds of it. -/
theorem Sat.pure {a : α} (h : Q a) : (Pure.pure a : Txn κ ν ι ε α).Sat R A Q := h

/-- So does a pure result. -/
theorem Sat.lift {x : Except ε α} (h : ∀ a, x = .ok a → Q a) :
    (Txn.lift x : Txn κ ν ι ε α).Sat R A Q := by
  cases x with
  | error e => trivial
  | ok a => exact h a rfl

/-- A load satisfies what holds of the records. -/
theorem Sat.find (k : κ) : (Txn.find k : Txn κ ν ι ε (Option ν)).Sat R A (R k) :=
  fun _ hx => Sat.lift hx

/-- So does one whose fault is handed out. -/
theorem Sat.attempt (k : κ) :
    (Txn.attempt k : Txn κ ν ι ε (Except ε (Option ν))).Sat R A fun x => ∀ v, x = .ok v → R k v :=
  fun _ hx => hx

/-- A permitted action is one. -/
theorem Sat.perform {a : ι} (h : A a) : (Txn.perform a : Txn κ ν ι ε Unit).Sat R A fun _ => True :=
  ⟨h, trivial⟩

/-- Specifications compose. -/
theorem Sat.bind {p : Txn κ ν ι ε α} {f : α → Txn κ ν ι ε τ} {Q' : τ → Prop} (hp : p.Sat R A Q)
    (hf : ∀ a, Q a → (f a).Sat R A Q') : (p >>= f).Sat R A Q' := by
  show (p.bind f).Sat R A Q'
  induction p with
  | done a => exact hf a hp
  | fail e => trivial
  | load k next ih => exact fun v hv => ih v (hp v hv)
  | act a next ih => exact ⟨hp.1, ih hp.2⟩

/-- And may be weakened. -/
theorem Sat.mono {p : Txn κ ν ι ε α} (hp : p.Sat R A Q) (h : ∀ a, Q a → Q' a) : p.Sat R A Q' := by
  induction p with
  | done a => exact h a hp
  | fail e => trivial
  | load k next ih => exact fun v hv => ih v (hp v hv)
  | act a next ih => exact ⟨hp.1, ih hp.2⟩

/-- What the stage's answers, the view and the actions respect is kept by every run. -/
theorem Sat.run {p : Txn κ ν ι ε α} (hp : p.Sat R A Q) {Inv : σ → Prop}
    (hshadow : ∀ s k v, Inv s → S.shadow s k = some v → R k v)
    (hview : ∀ k v, view k = .ok v → R k v)
    (hstage : ∀ a s s', A a → Inv s → S.stage a s = .ok s' → Inv s') {s : σ} (hs : Inv s) :
    Inv (p.run S view s).2 ∧ ∀ a, (p.run S view s).1 = .ok a → Q a := by
  induction p generalizing s with
  | done a =>
    refine ⟨hs, fun b hb => ?_⟩
    obtain rfl := Except.ok.inj hb
    exact hp
  | fail e => exact ⟨hs, fun b hb => by cases hb⟩
  | load k next ih =>
    simp only [Txn.run]
    rcases hk : S.shadow s k with - | v
    · exact ih _ (hp _ (hview k)) hs
    · refine ih _ (hp _ fun w hw => ?_) hs
      obtain rfl := Except.ok.inj hw
      exact hshadow s k v hs hk
  | act a next ih =>
    simp only [Txn.run]
    rcases ha : S.stage a s with e | s'
    · exact ⟨hs, fun b hb => by cases hb⟩
    · exact ih hp.2 (hstage a s s' hp.1 hs ha)

/-- A program that issues no action leaves the stage as it was. -/
theorem Sat.run_readOnly {p : Txn κ ν ι ε α} (hp : p.Sat (fun _ _ => True) (fun _ => False) Q)
    (s : σ) : (p.run S view s).2 = s := by
  have hkeep : ∀ a (t t' : σ), False → t = s → S.stage a t = .ok t' → t' = s :=
    fun _ _ _ h => h.elim
  exact (hp.run (fun _ _ _ _ _ => trivial) (fun _ _ _ => trivial) hkeep rfl).1

end Sat

/-! ## Logs -/

/-- What a run does: a load with its answer, or an action. -/
inductive Event (κ ν ι ε : Type) : Type
  | load (k : κ) (x : Except ε (Option ν))
  | act (a : ι)

/-- The loads of a run with their answers, and its actions, in order. -/
def log (S : Stage κ ν ι ε σ) (view : κ → Except ε (Option ν)) :
    Txn κ ν ι ε α → σ → List (Event κ ν ι ε)
  | done _, _ => []
  | fail _, _ => []
  | load k next, s => .load k (answer S view s k) :: log S view (next (answer S view s k)) s
  | act a next, s =>
    match S.stage a s with
    | .ok s' => .act a :: log S view next s'
    | .error _ => []

/-- No action of the run is refused. -/
def Fits (S : Stage κ ν ι ε σ) (view : κ → Except ε (Option ν)) : Txn κ ν ι ε α → σ → Prop
  | done _, _ => True
  | fail _, _ => True
  | load k next, s => (next (answer S view s k)).Fits S view s
  | act a next, s =>
    match S.stage a s with
    | .ok s' => next.Fits S view s'
    | .error _ => False

/-- The actions of a log. -/
def acts : List (Event κ ν ι ε) → List ι
  | [] => []
  | .load _ _ :: l => acts l
  | .act a :: l => a :: acts l

/-- Every load of the log meets a condition on the actions before it and on its key. -/
def LoadsOk (good : List ι → κ → Prop) : List ι → List (Event κ ν ι ε) → Prop
  | _, [] => True
  | l, .load k _ :: rest => good l k ∧ LoadsOk good l rest
  | l, .act a :: rest => LoadsOk good (l ++ [a]) rest

/-- A load continues with its answer. -/
theorem run_load (k : κ) (next : Except ε (Option ν) → Txn κ ν ι ε α) (s : σ) :
    (load k next).run S view s = (next (answer S view s k)).run S view s := by
  rw [run, answer]
  cases S.shadow s k <;> rfl

/-- Two stages that take the same actions and answer a load alike exactly under a condition on the
actions so far have the same log exactly if every load meets the condition; their results are then
the same, and they end in related states. -/
theorem log_eq_iff {σ' : Type} {S' : Stage κ ν ι ε σ'} {view' : κ → Except ε (Option ν)}
    {R : List ι → σ → σ' → Prop} {g : List ι → κ → Prop}
    (hload : ∀ {l s t} k, R l s t → (answer S view s k = answer S' view' t k ↔ g l k))
    (hact : ∀ {l s t a s'}, R l s t → S.stage a s = .ok s' →
      ∃ t', S'.stage a t = .ok t' ∧ R (l ++ [a]) s' t')
    (p : Txn κ ν ι ε α) {l : List ι} {s : σ} {t : σ'} (hfit : p.Fits S view s) (hrel : R l s t) :
    (p.log S view s = p.log S' view' t ↔ LoadsOk g l (p.log S' view' t)) ∧
    (p.log S view s = p.log S' view' t →
      (p.run S view s).1 = (p.run S' view' t).1 ∧
      R (l ++ acts (p.log S' view' t)) (p.run S view s).2 (p.run S' view' t).2) := by
  induction p generalizing l s t with
  | done a =>
    refine ⟨⟨fun _ => trivial, fun _ => rfl⟩, fun _ => ⟨rfl, ?_⟩⟩
    rw [log, acts, List.append_nil]
    exact hrel
  | fail e =>
    refine ⟨⟨fun _ => trivial, fun _ => rfl⟩, fun _ => ⟨rfl, ?_⟩⟩
    rw [log, acts, List.append_nil]
    exact hrel
  | load k next ih =>
    simp only [log, List.cons.injEq, Event.load.injEq, true_and, LoadsOk, run_load, acts,
      ← hload k hrel]
    -- once the answers agree, the two runs go on with the same program
    refine ⟨and_congr_right fun hans => ?_, fun ⟨hans, hlog⟩ => ?_⟩
    · rw [← hans]
      exact (ih _ hfit hrel).1
    · rw [← hans] at hlog ⊢
      exact (ih _ hfit hrel).2 hlog
  | act a next ih =>
    simp only [Fits] at hfit
    rcases hs : S.stage a s with e | s'
    · rw [hs] at hfit
      exact hfit.elim
    · rw [hs] at hfit
      obtain ⟨t', ht, hrel'⟩ := hact hrel hs
      have hnext := ih hfit hrel'
      rw [List.append_assoc] at hnext
      simp only [log, run, hs, ht, List.cons.injEq, true_and, LoadsOk, acts]
      exact hnext

end Txn
