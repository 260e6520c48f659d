import Mathlib.Data.List.Forall2
import Mathlib.Order.Defs.Unbundled
import Mathlib.Tactic.Common

/-!
# Commands over a pointed-to state

A C function that takes `struct s *st` and returns an error code may leave `*st` half updated when
it fails. `Cmd ε σ α` keeps that: a command always hands back the state it leaves behind, next to
its result or its error. Sequencing stops at the first error and keeps the state at that point.
-/

/-- A value is passed on. -/
@[simp] theorem Except.ok_bind {ε α τ : Type} (a : α) (f : α → Except ε τ) :
    ((.ok a : Except ε α) >>= f) = f a := rfl

/-- A sequence of fallible computations that succeeds is two successes in a row. -/
theorem Except.bind_eq_ok_iff {ε α τ : Type} {x : Except ε α} {f : α → Except ε τ} {b : τ} :
    (x >>= f) = .ok b ↔ ∃ a, x = .ok a ∧ f a = .ok b := by
  cases x with
  | error e => simp [bind, Except.bind]
  | ok a => simp [bind, Except.bind]

/-- An error of a mapped result was there before. -/
theorem Except.of_map_eq_error {ε α τ : Type} {x : Except ε α} {f : α → τ} {e : ε}
    (h : x.map f = .error e) : x = .error e := by
  cases x with
  | error e' =>
    obtain rfl := Except.error.inj h
    rfl
  | ok a => cases h

/-- Every element on the right has a partner on the left. -/
theorem List.Forall₂.exists_left {α τ : Type} {R : α → τ → Prop} {l : List α} {l' : List τ}
    (h : List.Forall₂ R l l') {b : τ} (hb : b ∈ l') : ∃ a ∈ l, R a b := by
  induction h with
  | nil => cases hb
  | @cons a b' l l' hab _ ih =>
    rcases List.mem_cons.1 hb with rfl | hb
    · exact ⟨a, List.mem_cons_self, hab⟩
    · obtain ⟨a', ha', hR⟩ := ih hb
      exact ⟨a', List.mem_cons_of_mem _ ha', hR⟩

/-- A function that commutes with the modification of an element maps a modified list to one. -/
theorem List.map_modify_of_comm {α τ : Type} {f : α → α} {g : τ → τ} {h : α → τ}
    (hfg : ∀ a, h (f a) = g (h a)) (l : List α) (i : Nat) :
    (l.modify i f).map h = (l.map h).modify i g := by
  induction l generalizing i with
  | nil => simp
  | cons a l ih =>
    cases i with
    | zero => simp [hfg]
    | succ i => simp [ih]

/-- Modifying an element of the first part of a list leaves the second. -/
theorem List.modify_append_of_lt {α : Type} {f : α → α} {l : List α} (l' : List α) {i : Nat}
    (h : i < l.length) : (l ++ l').modify i f = l.modify i f ++ l' := by
  induction l generalizing i with
  | nil => simp at h
  | cons a l ih =>
    cases i with
    | zero => simp
    | succ i => simpa using ih (by simpa using h)

/-- A loop that succeeds has an output for every input. -/
theorem Except.mapM'_eq_ok_iff {ε α τ : Type} {f : α → Except ε τ} {l : List α} {l' : List τ} :
    l.mapM' f = .ok l' ↔ List.Forall₂ (fun a b => f a = .ok b) l l' := by
  induction l generalizing l' with
  | nil =>
    rw [List.mapM'_nil, List.forall₂_nil_left_iff]
    exact ⟨fun h => (Except.ok.inj h).symm, fun h => by rw [h]; rfl⟩
  | cons a l ih =>
    rw [List.mapM'_cons, List.forall₂_cons_left_iff, Except.bind_eq_ok_iff]
    constructor
    · rintro ⟨b, hb, h⟩
      obtain ⟨bs, hbs, h⟩ := Except.bind_eq_ok_iff.1 h
      exact ⟨b, bs, hb, ih.1 hbs, (Except.ok.inj h).symm⟩
    · rintro ⟨b, bs, hb, hbs, rfl⟩
      exact ⟨b, hb, Except.bind_eq_ok_iff.2 ⟨bs, ih.2 hbs, rfl⟩⟩

/-- A loop that fails has failed at one of its inputs. -/
theorem Except.exists_of_mapM'_error {ε α τ : Type} {f : α → Except ε τ} {l : List α} {e : ε}
    (h : l.mapM' f = .error e) : ∃ a ∈ l, f a = .error e := by
  induction l with
  | nil => cases h
  | cons a l ih =>
    rw [List.mapM'_cons] at h
    cases ha : f a with
    | error e' =>
      rw [ha] at h
      obtain rfl := Except.error.inj h
      exact ⟨a, List.mem_cons_self, ha⟩
    | ok b =>
      cases hl : l.mapM' f with
      | error e' =>
        rw [ha, hl] at h
        obtain rfl := Except.error.inj h
        obtain ⟨a', hmem, ha'⟩ := ih hl
        exact ⟨a', List.mem_cons_of_mem _ hmem, ha'⟩
      | ok bs =>
        rw [ha, hl] at h
        cases h

/-- Mapping the results afterwards or element by element is the same. -/
theorem Except.mapM'_map {ε α τ ρ : Type} (f : α → Except ε τ) (g : τ → ρ) (l : List α) :
    (l.mapM' f).map (List.map g) = l.mapM' fun a => (f a).map g := by
  induction l with
  | nil => rfl
  | cons a l ih =>
    rw [List.mapM'_cons, List.mapM'_cons, ← ih]
    cases f a with
    | error e => rfl
    | ok b => cases l.mapM' f <;> rfl

/-- A traversal of two lists goes through when both do. -/
theorem Except.mapM'_append {ε α τ : Type} {f : α → Except ε τ} {l m : List α} {l' m' : List τ}
    (hl : l.mapM' f = .ok l') (hm : m.mapM' f = .ok m') : (l ++ m).mapM' f = .ok (l' ++ m') :=
  Except.mapM'_eq_ok_iff.2
    (List.rel_append (Except.mapM'_eq_ok_iff.1 hl) (Except.mapM'_eq_ok_iff.1 hm))

/-- A loop does not see a change of an input that has the same output. -/
theorem Except.mapM'_modify {ε α τ : Type} {f : α → Except ε τ} {g : α → α} {l : List α} {i : Nat}
    (h : ∀ a, l[i]? = some a → f (g a) = f a) : (l.modify i g).mapM' f = l.mapM' f := by
  induction l generalizing i with
  | nil => rw [List.modify_nil]
  | cons a l ih =>
    cases i with
    | zero => rw [List.modify_zero_cons, List.mapM'_cons, List.mapM'_cons, h a rfl]
    | succ i =>
      rw [List.modify_succ_cons, List.mapM'_cons, List.mapM'_cons,
        ih fun a' ha => h a' (by simpa using ha)]

/-- What every pass of a fold keeps holds of its result. -/
theorem Except.foldlM_invariant {ε α τ : Type} {f : τ → α → Except ε τ} (P : τ → Prop)
    {l : List α} (hstep : ∀ b, ∀ a ∈ l, ∀ b', P b → f b a = .ok b' → P b') {b b' : τ} (hb : P b)
    (h : l.foldlM f b = .ok b') : P b' := by
  induction l generalizing b with
  | nil =>
    obtain rfl := Except.ok.inj h
    exact hb
  | cons a l ih =>
    obtain ⟨b₁, hb₁, h⟩ := Except.bind_eq_ok_iff.1 h
    exact ih (fun b a ha => hstep b a (List.mem_cons_of_mem _ ha))
      (hstep b a List.mem_cons_self b₁ hb hb₁) h

/-- A command over a state `σ` with errors `ε`: the state survives an error. -/
def Cmd (ε σ α : Type) : Type := σ → Except ε α × σ

namespace Cmd

variable {ε σ α τ : Type}

instance : Monad (Cmd ε σ) where
  pure a := fun s => (.ok a, s)
  bind x f := fun s =>
    match x s with
    | (.error e, s') => (.error e, s')
    | (.ok a, s') => f a s'

/-- Read the current state. -/
def get : Cmd ε σ σ := fun s => (.ok s, s)

/-- Update the current state. -/
def modify (f : σ → σ) : Cmd ε σ Unit := fun s => (.ok (), f s)

/-- Return an error code, leaving the state as it is. -/
def fail (e : ε) : Cmd ε σ α := fun s => (.error e, s)

/-- Run a computation that does not touch the state. -/
def lift (x : Except ε α) : Cmd ε σ α := fun s => (x, s)

/-- Run a command and look at its return code instead of stopping at an error. -/
def attempt (c : Cmd ε σ α) : Cmd ε σ (Except ε α) := fun s => (.ok (c s).1, (c s).2)

/-- Run a command on a part of the state, given by how it is read and written back. -/
def zoom (read : τ → σ) (write : σ → τ → τ) (c : Cmd ε σ α) : Cmd ε τ α := fun t =>
  ((c (read t)).1, write (c (read t)).2 t)

@[simp] theorem pure_apply (a : α) (s : σ) : (pure a : Cmd ε σ α) s = (.ok a, s) := rfl

/-- Sequencing: an error stops, with the state it left. -/
theorem bind_apply (x : Cmd ε σ α) (f : α → Cmd ε σ τ) (s : σ) :
    (x >>= f) s =
      match x s with
      | (.error e, s') => (.error e, s')
      | (.ok a, s') => f a s' := rfl

/-- A command that succeeds is followed by its continuation. -/
theorem bind_apply_of_ok {x : Cmd ε σ α} {f : α → Cmd ε σ τ} {s s' : σ} {a : α}
    (h : x s = (.ok a, s')) : (x >>= f) s = f a s' := by
  simp [bind_apply, h]

/-- A command that fails ends the sequence. -/
theorem bind_apply_of_error {x : Cmd ε σ α} {f : α → Cmd ε σ τ} {s s' : σ} {e : ε}
    (h : x s = (.error e, s')) : (x >>= f) s = (.error e, s') := by
  simp [bind_apply, h]

/-- A sequence that succeeds is two successes in a row. -/
theorem bind_eq_ok_iff {x : Cmd ε σ α} {f : α → Cmd ε σ τ} {s s'' : σ} {b : τ} :
    (x >>= f) s = (.ok b, s'') ↔ ∃ a s', x s = (.ok a, s') ∧ f a s' = (.ok b, s'') := by
  rw [bind_apply]
  rcases x s with ⟨_ | a, s'⟩ <;> simp

/-- A computation followed by a command succeeds if both do. -/
theorem lift_bind_eq_ok_iff {x : Except ε α} {f : α → Cmd ε σ τ} {s s' : σ} {b : τ} :
    (lift x >>= f) s = (.ok b, s') ↔ ∃ a, x = .ok a ∧ f a s = (.ok b, s') := by
  cases x with
  | error e => simp [bind_apply, lift]
  | ok a => simp [bind_apply, lift]

/-- A sequence that succeeds has succeeded in its first command. -/
theorem of_bind_ok {x : Cmd ε σ α} {f : α → Cmd ε σ τ} {s s'' : σ} {b : τ}
    (h : (x >>= f) s = (.ok b, s'')) : ∃ a s', x s = (.ok a, s') := by
  obtain ⟨a, s', hx, -⟩ := bind_eq_ok_iff.1 h
  exact ⟨a, s', hx⟩

@[simp] theorem get_apply (s : σ) : (get : Cmd ε σ σ) s = (.ok s, s) := rfl

@[simp] theorem modify_apply (f : σ → σ) (s : σ) : (modify f : Cmd ε σ Unit) s = (.ok (), f s) :=
  rfl

@[simp] theorem fail_apply (e : ε) (s : σ) : (fail e : Cmd ε σ α) s = (.error e, s) := rfl

@[simp] theorem lift_apply (x : Except ε α) (s : σ) : lift x s = (x, s) := rfl

@[simp] theorem attempt_apply (c : Cmd ε σ α) (s : σ) : attempt c s = (.ok (c s).1, (c s).2) := rfl

/-- What follows an attempt sees the error instead of stopping at it. -/
theorem attempt_bind_apply (c : Cmd ε σ α) (f : Except ε α → Cmd ε σ τ) (s : σ) :
    (attempt c >>= f) s = f (c s).1 (c s).2 := rfl

@[simp] theorem zoom_apply (read : τ → σ) (write : σ → τ → τ) (c : Cmd ε σ α) (t : τ) :
    zoom read write c t = ((c (read t)).1, write (c (read t)).2 t) := rfl

@[simp] theorem ite_apply (c : Prop) [Decidable c] (x y : Cmd ε σ α) (s : σ) :
    (if c then x else y) s = if c then x s else y s := by
  split <;> rfl

/-- A choice whose branches go on in the same way. -/
theorem of_ite_bind_ok {p : Prop} [Decidable p] {x y : Cmd ε σ α} {f : α → Cmd ε σ τ} {s s' : σ}
    {b : τ} (h : (if p then x >>= f else y >>= f) s = (.ok b, s')) :
    ∃ a s₁, (if p then x else y) s = (.ok a, s₁) ∧ f a s₁ = (.ok b, s') := by
  split at h
  · next hp =>
    rw [if_pos hp]
    exact bind_eq_ok_iff.1 h
  · next hp =>
    rw [if_neg hp]
    exact bind_eq_ok_iff.1 h

@[simp] theorem pure_bind_apply (a : α) (f : α → Cmd ε σ τ) (s : σ) :
    ((pure a : Cmd ε σ α) >>= f) s = f a s := rfl

/-- Post-processing a result does not change the state. -/
theorem snd_bind_pure (x : Cmd ε σ α) (f : α → τ) (s : σ) :
    ((x >>= fun a => pure (f a)) s).2 = (x s).2 := by
  rw [bind_apply]
  rcases x s with ⟨_ | a, s'⟩ <;> rfl

/-- Post-processing maps the result. -/
theorem fst_bind_pure (x : Cmd ε σ α) (f : α → τ) (s : σ) :
    ((x >>= fun a => pure (f a)) s).1 = (x s).1.map f := by
  rw [bind_apply]
  rcases x s with ⟨_ | a, s'⟩ <;> rfl

/-- Sequencing is associative, stated on a state so that `simp` can use it. -/
@[simp] theorem bind_bind_apply {ρ : Type} (x : Cmd ε σ α) (f : α → Cmd ε σ τ)
    (g : τ → Cmd ε σ ρ) (s : σ) : ((x >>= f) >>= g) s = (x >>= fun a => f a >>= g) s := by
  simp only [bind_apply]
  rcases x s with ⟨_ | a, s'⟩ <;> rfl

@[simp] theorem map_apply (f : α → τ) (x : Cmd ε σ α) (s : σ) :
    (f <$> x) s = (x >>= fun a => pure (f a)) s := rfl

@[simp] theorem get_bind_apply (f : σ → Cmd ε σ τ) (s : σ) : (get >>= f) s = f s s := rfl

@[simp] theorem modify_bind_apply (g : σ → σ) (f : Unit → Cmd ε σ τ) (s : σ) :
    (modify g >>= f) s = f () (g s) := rfl

@[simp] theorem fail_bind_apply (e : ε) (f : α → Cmd ε σ τ) (s : σ) :
    (fail e >>= f) s = (.error e, s) := rfl

@[simp] theorem lift_ok_bind_apply (a : α) (f : α → Cmd ε σ τ) (s : σ) :
    (lift (.ok a) >>= f) s = f a s := rfl

@[simp] theorem lift_error_bind_apply (e : ε) (f : α → Cmd ε σ τ) (s : σ) :
    (lift (.error e) >>= f) s = (.error e, s) := rfl

/-! ## Commands that leave the state as it is -/

/-- Run at `s`, the command leaves the state as it is. -/
def Still (x : Cmd ε σ α) (s : σ) : Prop := (x s).2 = s

/-- A command that leaves the state, as an equation. -/
theorem Still.apply {x : Cmd ε σ α} {s : σ} (h : Still x s) : x s = ((x s).1, s) :=
  Prod.ext rfl h

/-- The state is left if the run says so. -/
theorem Still.of_eq {x : Cmd ε σ α} {s : σ} {r : Except ε α} (h : x s = (r, s)) : Still x s :=
  congrArg Prod.snd h

/-- The state a still command leaves is the one it began in. -/
theorem Still.eq_of_apply {x : Cmd ε σ α} {s s' : σ} {r : Except ε α} (h : Still x s)
    (hx : x s = (r, s')) : s = s' := by
  rw [Still, hx] at h
  exact h.symm

/-- A value leaves the state. -/
theorem still_pure (a : α) (s : σ) : Still (pure a : Cmd ε σ α) s := rfl

/-- A failure leaves the state. -/
theorem still_fail (e : ε) (s : σ) : Still (fail e : Cmd ε σ α) s := rfl

/-- A pure result leaves the state. -/
theorem still_lift (x : Except ε α) (s : σ) : Still (lift x) s := rfl

/-- Catching an error leaves what was left. -/
theorem Still.attempt {x : Cmd ε σ α} {s : σ} (h : Still x s) : Still (Cmd.attempt x) s := h

/-- A sequence of two commands that leave the state as it is runs both at the same state. -/
theorem Still.bind_apply {x : Cmd ε σ α} {f : α → Cmd ε σ τ} {s : σ} (h : Still x s) :
    (x >>= f) s =
      match (x s).1 with
      | .error e => (.error e, s)
      | .ok a => f a s := by
  rw [Cmd.bind_apply, h.apply]
  cases (x s).1 <;> rfl

/-- Sequencing still commands; the second one runs in the same state. -/
theorem Still.bind {x : Cmd ε σ α} {f : α → Cmd ε σ τ} {s : σ} (hx : Still x s)
    (hf : ∀ a, Still (f a) s) : Still (x >>= f) s := by
  rw [Still, hx.bind_apply]
  cases (x s).1 with
  | error e => rfl
  | ok a => exact hf a

/-- A traversal by still commands is still. -/
theorem Still.mapM' {f : α → Cmd ε σ τ} {l : List α} {s : σ} (h : ∀ a ∈ l, Still (f a) s) :
    Still (l.mapM' f) s := by
  induction l with
  | nil => exact still_pure _ _
  | cons a l ih =>
    rw [List.mapM'_cons]
    refine (h a List.mem_cons_self).bind fun b => ?_
    exact (ih fun a ha => h a (List.mem_cons_of_mem _ ha)).bind fun _ => still_pure _ _

/-- A loop of still commands is still. -/
theorem Still.forM {f : α → Cmd ε σ PUnit} {l : List α} {s : σ} (h : ∀ a ∈ l, Still (f a) s) :
    Still (l.forM f) s := by
  induction l with
  | nil => exact still_pure _ _
  | cons a l ih =>
    exact (h a List.mem_cons_self).bind fun _ => ih fun a ha => h a (List.mem_cons_of_mem _ ha)

/-- A loop of commands that leave the state as it is and succeed gives their results. -/
theorem mapM'_eq_map {f : α → Cmd ε σ τ} {g : α → τ} {l : List α} {s : σ}
    (h : ∀ a ∈ l, f a s = (.ok (g a), s)) : l.mapM' f s = (.ok (l.map g), s) := by
  induction l with
  | nil => rfl
  | cons a l ih =>
    rw [List.mapM'_cons, bind_apply_of_ok (h a List.mem_cons_self),
      bind_apply_of_ok (ih fun a ha => h a (List.mem_cons_of_mem _ ha))]
    rfl

/-- A loop that succeeds has run its body on every element. -/
theorem forall₂_of_mapM'_ok {f : α → Cmd ε σ τ} {l : List α} {s s' : σ} {l' : List τ}
    (h : l.mapM' f s = (.ok l', s')) :
    List.Forall₂ (fun a b => ∃ s₁ s₂, f a s₁ = (.ok b, s₂)) l l' := by
  induction l generalizing l' s s' with
  | nil =>
    obtain rfl := Except.ok.inj (congrArg Prod.fst h)
    exact .nil
  | cons a l ih =>
    rw [List.mapM'_cons] at h
    obtain ⟨b, s₁, hb, h⟩ := bind_eq_ok_iff.1 h
    obtain ⟨bs, s₂, hbs, h⟩ := bind_eq_ok_iff.1 h
    obtain rfl := Except.ok.inj (congrArg Prod.fst h)
    exact .cons ⟨s, s₁, hb⟩ (ih hbs)

/-- If a loop of commands that leave the state as it is succeeds, so does each of them. -/
theorem of_mapM'_ok {f : α → Cmd ε σ τ} {l : List α} {s s' : σ} {l' : List τ}
    (hf : ∀ a ∈ l, Still (f a) s) (h : l.mapM' f s = (.ok l', s')) {a : α} (ha : a ∈ l) :
    ∃ b, (f a s).1 = .ok b := by
  induction l generalizing l' s' with
  | nil => cases ha
  | cons x l ih =>
    rw [List.mapM'_cons] at h
    obtain ⟨b, s₁, hb, htail⟩ := bind_eq_ok_iff.1 h
    obtain rfl := (hf x List.mem_cons_self).eq_of_apply hb
    obtain ⟨bs, s₂, hbs, -⟩ := bind_eq_ok_iff.1 htail
    rcases List.mem_cons.1 ha with rfl | ha
    · exact ⟨b, by rw [hb]⟩
    · exact ih (fun a ha => hf a (List.mem_cons_of_mem _ ha)) hbs ha

/-- If a loop of commands that leave the state as it is succeeds, so does each of them. -/
theorem of_forM_ok {f : α → Cmd ε σ PUnit} {l : List α} {s s' : σ}
    (hf : ∀ a ∈ l, Still (f a) s) (h : l.forM f s = (.ok ⟨⟩, s')) {a : α} (ha : a ∈ l) :
    f a s = (.ok ⟨⟩, s) := by
  induction l with
  | nil => cases ha
  | cons x l ih =>
    obtain ⟨b, s₁, hb, htail⟩ := bind_eq_ok_iff.1 h
    obtain rfl := (hf x List.mem_cons_self).eq_of_apply hb
    rcases List.mem_cons.1 ha with rfl | ha
    · exact hb
    · exact ih (fun a ha => hf a (List.mem_cons_of_mem _ ha)) htail ha

/-- A choice between still commands is still. -/
theorem Still.ite {p : Prop} [Decidable p] {x y : Cmd ε σ α} {s : σ} (hx : Still x s)
    (hy : Still y s) : Still (if p then x else y) s := by
  split
  · exact hx
  · exact hy

/-! ## Commands that keep a relation between the states -/

/-- Wherever the command is run, the state before it and the one after it are related. -/
def Keeps (R : σ → σ → Prop) (x : Cmd ε σ α) : Prop := ∀ s, R s (x s).2

section Keeps

variable {R : σ → σ → Prop} [IsPreorder σ R]

/-- Reading the state keeps every reflexive relation. -/
theorem keeps_get : Keeps R (get : Cmd ε σ σ) := fun s => Std.Refl.refl s

/-- So does a value. -/
theorem keeps_pure (a : α) : Keeps R (pure a : Cmd ε σ α) := fun s => Std.Refl.refl s

/-- So does a failure. -/
theorem keeps_fail (e : ε) : Keeps R (fail e : Cmd ε σ α) := fun s => Std.Refl.refl s

/-- So does a pure result. -/
theorem keeps_lift (x : Except ε α) : Keeps R (lift x) := fun s => Std.Refl.refl s

omit [IsPreorder σ R] in
/-- A modification keeps a relation that every state has to what it becomes. -/
theorem keeps_modify {g : σ → σ} (h : ∀ s, R s (g s)) : Keeps R (modify g : Cmd ε σ Unit) := h

omit [IsPreorder σ R] in
/-- Catching an error keeps what was kept. -/
theorem Keeps.attempt {x : Cmd ε σ α} (h : Keeps R x) : Keeps R (Cmd.attempt x) := h

omit [IsPreorder σ R] in
/-- What a command keeps, between the states of a run of it. -/
theorem Keeps.of_apply {x : Cmd ε σ α} (h : Keeps R x) {s s' : σ} {r : Except ε α}
    (hx : x s = (r, s')) : R s s' := by
  have := h s
  rwa [hx] at this

/-- Sequencing keeps a transitive relation. -/
theorem Keeps.bind {x : Cmd ε σ α} {f : α → Cmd ε σ τ} (hx : Keeps R x)
    (hf : ∀ a, Keeps R (f a)) : Keeps R (x >>= f) := by
  intro s
  rw [Cmd.bind_apply]
  rcases hs : x s with ⟨_ | a, s'⟩
  · exact hx.of_apply hs
  · exact IsTrans.trans _ _ _ (hx.of_apply hs) (hf a s')

omit [IsPreorder σ R] in
/-- A choice keeps what both branches keep. -/
theorem Keeps.ite {p : Prop} [Decidable p] {x y : Cmd ε σ α} (hx : Keeps R x) (hy : Keeps R y) :
    Keeps R (if p then x else y) := by
  split
  · exact hx
  · exact hy

/-- A fold keeps what its step keeps. -/
theorem Keeps.foldlM {f : τ → α → Cmd ε σ τ} (h : ∀ b a, Keeps R (f b a)) (l : List α) (b : τ) :
    Keeps R (l.foldlM f b) := by
  induction l generalizing b with
  | nil => exact keeps_pure b
  | cons a l ih => exact (h b a).bind fun b' => ih b'

/-- A traversal keeps what each of its commands keeps. -/
theorem Keeps.mapM' {f : α → Cmd ε σ τ} (h : ∀ a, Keeps R (f a)) (l : List α) :
    Keeps R (l.mapM' f) := by
  induction l with
  | nil => exact keeps_pure []
  | cons a l ih =>
    rw [List.mapM'_cons]
    exact (h a).bind fun _ => ih.bind fun _ => keeps_pure _

/-- A loop keeps what its body keeps. -/
theorem Keeps.forM {f : α → Cmd ε σ PUnit} (h : ∀ a, Keeps R (f a)) (l : List α) :
    Keeps R (l.forM f) := by
  induction l with
  | nil => exact keeps_pure _
  | cons a l ih => exact (h a).bind fun _ => ih

end Keeps

/-- A part of the state is the same before and after. -/
def SameBy (f : σ → τ) (s s' : σ) : Prop := f s' = f s

instance (f : σ → τ) : IsPreorder σ (SameBy f) where
  refl _ := rfl
  trans _ _ _ h h' := Eq.trans h' h

/-- A command on a component keeps a part of the whole that reads that component only through what
the command keeps. -/
theorem Keeps.zoom {ρ : Type} {read : τ → σ} {write : σ → τ → τ} {f : σ → ρ} {g : τ → ρ}
    {c : Cmd ε σ α} (h : Keeps (SameBy f) c) (hg : ∀ t, g t = f (read t))
    (hw : ∀ b t, read (write b t) = b) : Keeps (SameBy g) (Cmd.zoom read write c) := by
  intro t
  rw [SameBy, hg, hg, zoom_apply, hw]
  exact h (read t)

end Cmd
