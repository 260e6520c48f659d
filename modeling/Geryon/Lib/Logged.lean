import Geryon.Lib.Cmd

/-!
# Commands that log events

A command over a state with a log beside it. Erasing the log leaves a command over the state: the
logging command does what it does and appends events. What holds of the events of a sequence is
what holds of those of its parts, each in the states it is run in.

## Main definitions

- `Cmd.quiet`, `Cmd.note`: a command without events, and an event.
- `Cmd.ErasesTo`: a logging command is a command with events.
- `Cmd.Emits`: what the events of a run satisfy.
- `Cmd.Stays`: what the events of every run satisfy.
-/

namespace Cmd

variable {ε σ ρ α τ : Type}

/-- Run a command that logs nothing. -/
def quiet (x : Cmd ε σ α) : Cmd ε (σ × List ρ) α := zoom Prod.fst (fun s p => (s, p.2)) x

/-- Log an event. -/
def note (r : ρ) : Cmd ε (σ × List ρ) Unit := modify fun p => (p.1, p.2 ++ [r])

/-- The events of a run from a state. -/
def events (t : Cmd ε (σ × List ρ) α) (s : σ) : List ρ := (t (s, [])).2.2

/-- The command does what `x` does and appends its events. -/
def ErasesTo (t : Cmd ε (σ × List ρ) α) (x : Cmd ε σ α) : Prop :=
  ∀ s log, t (s, log) = ((x s).1, (x s).2, log ++ t.events s)

/-- Every event of a run from `s` satisfies `P`. -/
def Emits (P : ρ → Prop) (t : Cmd ε (σ × List ρ) α) (s : σ) : Prop := ∀ r ∈ t.events s, P r

/-! ## Erasure -/

/-- A command that logs nothing. -/
theorem quiet_apply (x : Cmd ε σ α) (s : σ) (log : List ρ) :
    quiet x (s, log) = ((x s).1, (x s).2, log) := rfl

@[simp] theorem events_quiet (x : Cmd ε σ α) (s : σ) :
    (quiet x : Cmd ε (σ × List ρ) α).events s = [] := rfl

@[simp] theorem events_note (r : ρ) (s : σ) :
    (note r : Cmd ε (σ × List ρ) Unit).events s = [r] := rfl

/-- It erases to itself. -/
theorem erasesTo_quiet (x : Cmd ε σ α) : (quiet x : Cmd ε (σ × List ρ) α).ErasesTo x := by
  intro s log
  rw [quiet_apply, events_quiet, List.append_nil]

/-- A value erases to itself. -/
theorem erasesTo_pure (a : α) : (pure a : Cmd ε (σ × List ρ) α).ErasesTo (pure a) :=
  erasesTo_quiet (pure a)

/-- A failure erases to itself. -/
theorem erasesTo_fail (e : ε) : (fail e : Cmd ε (σ × List ρ) α).ErasesTo (fail e) :=
  erasesTo_quiet (fail e)

/-- An entry of the log erases to nothing. -/
theorem erasesTo_note (r : ρ) : (note r : Cmd ε (σ × List ρ) Unit).ErasesTo (pure ()) := by
  intro s log
  rfl

namespace ErasesTo

variable {t : Cmd ε (σ × List ρ) α} {x : Cmd ε σ α} {f : α → Cmd ε (σ × List ρ) τ}
  {g : α → Cmd ε σ τ}

/-- The events of a sequence are those of its first command and, if that succeeds, those of its
continuation. -/
theorem events_bind (ht : t.ErasesTo x) (hf : ∀ a, (f a).ErasesTo (g a)) (s : σ) :
    (t >>= f).events s =
      t.events s ++
        match x s with
        | (.ok a, s') => (f a).events s'
        | (.error _, _) => [] := by
  unfold events
  rw [bind_apply, ht s []]
  rcases x s with ⟨e | a, s'⟩
  · simp only [List.nil_append, List.append_nil]
  · simp only [List.nil_append]
    rw [hf a s' _]
    rfl

theorem bind (ht : t.ErasesTo x) (hf : ∀ a, (f a).ErasesTo (g a)) :
    (t >>= f).ErasesTo (x >>= g) := by
  intro s log
  rw [ht.events_bind hf, bind_apply, bind_apply, ht s log]
  rcases x s with ⟨e | a, s'⟩
  · rw [List.append_nil]
  · dsimp only
    rw [hf a s' _, List.append_assoc]

theorem ite {p : Prop} [Decidable p] {t' : Cmd ε (σ × List ρ) α} {x' : Cmd ε σ α}
    (ht : t.ErasesTo x) (ht' : t'.ErasesTo x') :
    (if p then t else t').ErasesTo (if p then x else x') := by
  split
  · exact ht
  · exact ht'

theorem mapM' (hf : ∀ a, (f a).ErasesTo (g a)) (l : List α) :
    (l.mapM' f).ErasesTo (l.mapM' g) := by
  induction l with
  | nil => exact erasesTo_pure []
  | cons a l ih =>
    rw [List.mapM'_cons, List.mapM'_cons]
    exact (hf a).bind fun b => ih.bind fun bs => erasesTo_pure (b :: bs)

end ErasesTo

/-! ## Events -/

section Emits

variable {P : ρ → Prop} {t : Cmd ε (σ × List ρ) α} {x : Cmd ε σ α}
  {f : α → Cmd ε (σ × List ρ) τ} {g : α → Cmd ε σ τ} {s : σ}

@[simp] theorem emits_quiet : Emits P (quiet x) s := fun _ h => nomatch h

@[simp] theorem emits_pure (a : α) : Emits P (pure a : Cmd ε (σ × List ρ) α) s :=
  fun _ h => nomatch h

@[simp] theorem emits_fail (e : ε) : Emits P (fail e : Cmd ε (σ × List ρ) α) s :=
  fun _ h => nomatch h

@[simp] theorem emits_note_iff {r : ρ} :
    Emits P (note r : Cmd ε (σ × List ρ) Unit) s ↔ P r := by
  simp [Emits]

/-- The continuation is judged in the state its command leaves. -/
theorem emits_bind_iff (ht : t.ErasesTo x) (hf : ∀ a, (f a).ErasesTo (g a)) :
    Emits P (t >>= f) s ↔ Emits P t s ∧ ∀ a s', x s = (.ok a, s') → Emits P (f a) s' := by
  unfold Emits
  rw [ht.events_bind hf]
  rcases x s with ⟨e | a, s'⟩ <;> simp [or_imp, forall_and]

/-- A command without events in front. -/
theorem emits_quiet_bind_iff :
    Emits P (quiet x >>= f) s ↔ ∀ a s', x s = (.ok a, s') → Emits P (f a) s' := by
  unfold Emits events
  rw [bind_apply, quiet_apply]
  rcases x s with ⟨e | a, s'⟩ <;> simp

/-- A computation that does not touch the state, in front. -/
theorem emits_lift_bind_iff {y : Except ε α} :
    Emits P (quiet (lift y) >>= f) s ↔ ∀ a, y = .ok a → Emits P (f a) s := by
  rw [emits_quiet_bind_iff]
  constructor
  · intro h a ha
    exact h a s (by rw [ha, lift_apply])
  · intro h a s' ha
    obtain ⟨rfl, rfl⟩ := Prod.mk.inj ha
    exact h a rfl

/-- A choice emits what the branch that is taken emits. -/
theorem emits_ite_iff {p : Prop} [Decidable p] {t' : Cmd ε (σ × List ρ) α} :
    Emits P (if p then t else t') s ↔ (p → Emits P t s) ∧ (¬p → Emits P t' s) := by
  split_ifs with h <;> simp [h]

/-- The events of a loop are those of the passes it comes to. -/
theorem emits_mapM'_iff {l : List α} (hf : ∀ a, (f a).ErasesTo (g a)) :
    Emits P (l.mapM' f) s ↔
      ∀ pre a post s', l = pre ++ a :: post → (∃ bs, pre.mapM' g s = (.ok bs, s')) →
        Emits P (f a) s' := by
  induction l generalizing s with
  | nil => simp [List.mapM'_nil]
  | cons b l ih =>
    rw [List.mapM'_cons, emits_bind_iff (hf b) fun b =>
      (ErasesTo.mapM' hf l).bind fun bs => erasesTo_pure (b :: bs)]
    have hrest : ∀ s' b', Emits P (l.mapM' f >>= fun bs => pure (b' :: bs)) s' ↔
        Emits P (l.mapM' f) s' := by
      intro s' b'
      rw [emits_bind_iff (ErasesTo.mapM' hf l) fun bs => erasesTo_pure (b' :: bs)]
      simp
    simp only [hrest, ih]
    constructor
    · rintro ⟨hb, hl⟩ pre a post s' heq ⟨bs, hbs⟩
      obtain _ | ⟨b', pre⟩ := pre
      · obtain ⟨rfl, rfl⟩ := List.cons.inj heq
        obtain ⟨-, rfl⟩ := Prod.mk.inj hbs
        exact hb
      · obtain ⟨rfl, rfl⟩ := List.cons.inj heq
        rw [List.mapM'_cons] at hbs
        obtain ⟨c, s₁, hc, hbs⟩ := bind_eq_ok_iff.1 hbs
        obtain ⟨cs, s₂, hcs, hbs⟩ := bind_eq_ok_iff.1 hbs
        obtain ⟨-, rfl⟩ := Prod.mk.inj hbs
        exact hl c s₁ hc pre a post s₂ rfl ⟨cs, hcs⟩
    · intro h
      refine ⟨h [] b l s rfl ⟨[], rfl⟩, fun c s₁ hc pre a post s' heq hpre => ?_⟩
      obtain ⟨bs, hbs⟩ := hpre
      refine h (b :: pre) a post s' (by rw [heq, List.cons_append]) ⟨c :: bs, ?_⟩
      rw [List.mapM'_cons, bind_apply_of_ok hc, bind_apply_of_ok hbs]
      rfl

end Emits

/-! ## Commands whose events all satisfy a property -/

/-- The command erases to `x`, and all its events satisfy `P` from every state. -/
structure Stays (P : ρ → Prop) (t : Cmd ε (σ × List ρ) α) (x : Cmd ε σ α) : Prop where
  erases : t.ErasesTo x
  emits : ∀ s, Emits P t s

section Stays

variable {P : ρ → Prop}

/-- A command that logs nothing stays within any bound. -/
theorem stays_quiet (x : Cmd ε σ α) : Stays P (quiet x) x :=
  ⟨erasesTo_quiet x, fun _ => emits_quiet⟩

/-- So does a value. -/
theorem stays_pure (a : α) : Stays P (pure a : Cmd ε (σ × List ρ) α) (pure a) :=
  ⟨erasesTo_pure a, fun _ => emits_pure a⟩

/-- So does a failure. -/
theorem stays_fail (e : ε) : Stays P (fail e : Cmd ε (σ × List ρ) α) (fail e) :=
  ⟨erasesTo_fail e, fun _ => emits_fail e⟩

/-- An entry within the bound stays within it. -/
theorem stays_note {r : ρ} (h : P r) : Stays P (note r : Cmd ε (σ × List ρ) Unit) (pure ()) :=
  ⟨erasesTo_note r, fun _ => emits_note_iff.2 h⟩

namespace Stays

variable {t : Cmd ε (σ × List ρ) α} {x : Cmd ε σ α} {f : α → Cmd ε (σ × List ρ) τ}
  {g : α → Cmd ε σ τ}

theorem bind (ht : Stays P t x) (hf : ∀ a, Stays P (f a) (g a)) :
    Stays P (t >>= f) (x >>= g) where
  erases := ht.erases.bind fun a => (hf a).erases
  emits s := (Cmd.emits_bind_iff ht.erases fun a => (hf a).erases).2
    ⟨ht.emits s, fun a s' _ => (hf a).emits s'⟩

/-- In front of such a continuation, the events that matter are those of the first command. -/
theorem emits_bind_iff (ht : t.ErasesTo x) (hf : ∀ a, Stays P (f a) (g a)) {s : σ} :
    Emits P (t >>= f) s ↔ Emits P t s := by
  rw [Cmd.emits_bind_iff ht fun a => (hf a).erases]
  exact and_iff_left fun a s' _ => (hf a).emits s'

theorem ite {p : Prop} [Decidable p] {t' : Cmd ε (σ × List ρ) α} {x' : Cmd ε σ α}
    (ht : Stays P t x) (ht' : Stays P t' x') :
    Stays P (if p then t else t') (if p then x else x') := by
  split
  · exact ht
  · exact ht'

theorem mapM' {l : List α} (hf : ∀ a, (f a).ErasesTo (g a))
    (h : ∀ a ∈ l, ∀ s, Emits P (f a) s) : Stays P (l.mapM' f) (l.mapM' g) where
  erases := .mapM' hf l
  emits _ := (emits_mapM'_iff hf).2 fun pre a _ s' heq _ =>
    h a (heq ▸ List.mem_append_right pre List.mem_cons_self) s'

/-- A loop over the entries of a list with their positions. -/
theorem forM_zipIdx {f : α × ℕ → Cmd ε (σ × List ρ) Unit} {g : α → Cmd ε σ Unit} {l : List α}
    {n : ℕ} (h : ∀ p ∈ l.zipIdx n, Stays P (f p) (g p.1)) :
    Stays P ((l.zipIdx n).forM f) (l.forM g) := by
  induction l generalizing n with
  | nil => exact stays_pure ()
  | cons a l ih =>
    rw [List.zipIdx_cons] at h ⊢
    exact (h (a, n) List.mem_cons_self).bind fun _ =>
      ih fun p hp => h p (List.mem_cons_of_mem _ hp)

end Stays

end Stays

end Cmd
