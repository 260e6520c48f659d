import Mathlib.Tactic.Common
import Mathlib.Data.List.Infix

/-!
# A value with a staged replacement

A cell holds a current value and possibly a staged one that is to replace it. The staged value is
read before the current one; a commit promotes it and a rollback discards it.

A program may keep such a cell in two records, one for each value, that it can only write one after
the other. Each call then is a sequence of writes, and a call that is cut short has done a prefix
of them. `Repr` relates the two records to the cell they stand for, and `Repr.step` says under what
conditions every prefix of a call is a step of the cell. A promotion that is cut short is the one
point where the records show a value the cell does not hold yet: the record of the current value
already has the staged one.
-/

namespace Staged

variable {κ : Type*}

/-- A current value and a staged one. -/
structure Cell (κ : Type*) where
  current : Option κ
  staged : Option κ

/-- The calls on a cell. -/
inductive Call (κ : Type*) where
  | put (v : κ)
  | stage (v : κ)
  | commit
  | rollback
  | drop

/-- Over the given staged value, a call can be carried out: a value is staged only over nothing
staged, and only a staged value is committed. -/
def Call.Enabled (staged : Option κ) : Call κ → Prop
  | .stage _ => staged = none
  | .commit => staged ≠ none
  | _ => True

namespace Cell

/-- A cell that holds nothing. -/
def empty : Cell κ := ⟨none, none⟩

/-- What reading the cell gives: the staged value if there is one, else the current one. -/
def value (c : Cell κ) : Option κ := c.staged <|> c.current

/-- What a call does when it is carried out. -/
def apply (c : Cell κ) : Call κ → Cell κ
  | .put v => { c with current := some v }
  | .stage v => { c with staged := some v }
  | .commit => ⟨c.staged, none⟩
  | .rollback => { c with staged := none }
  | .drop => empty

/-- A call that succeeds is carried out. A call that fails is carried out or leaves the cell as it
was; one that drops the cell may also have dropped the staged value alone. -/
inductive Step (c : Cell κ) (a : Call κ) : Bool → Cell κ → Prop
  | done (ok : Bool) (h : a.Enabled c.staged) : Step c a ok (c.apply a)
  | undone : Step c a false c
  | unstaged (h : a = .drop) : Step c a false { c with staged := none }

/-- A call that succeeds is carried out. -/
theorem Step.eq_apply {c c' : Cell κ} {a : Call κ} (h : Step c a true c') : c' = c.apply a := by
  cases h
  rfl

/-- Only a put, a commit and a drop touch the current value. -/
theorem Step.current_eq {c c' : Cell κ} {a : Call κ} {ok : Bool} (h : Step c a ok c')
    (hput : ∀ v, a ≠ .put v) (hcommit : a ≠ .commit) (hdrop : a ≠ .drop) :
    c'.current = c.current := by
  cases h with
  | done ok h =>
    cases a with
    | put v => exact absurd rfl (hput v)
    | stage v => rfl
    | commit => exact absurd rfl hcommit
    | rollback => rfl
    | drop => exact absurd rfl hdrop
  | undone => rfl
  | unstaged h => exact absurd h hdrop

end Cell

/-! ## Two records -/

/-- The records of the current and of the staged value. -/
@[ext] structure Slots (κ : Type*) where
  cur : Option κ
  pend : Option κ

/-- A write of one record. -/
inductive Write (κ : Type*) where
  | setCur (v : κ)
  | setPend (v : κ)
  | clearPend
  | clearCur

/-- The effect of a write. -/
def Slots.write (s : Slots κ) : Write κ → Slots κ
  | .setCur v => { s with cur := some v }
  | .setPend v => { s with pend := some v }
  | .clearPend => { s with pend := none }
  | .clearCur => { s with cur := none }

/-- The effect of writes in order. -/
def Slots.writeAll (s : Slots κ) (ws : List (Write κ)) : Slots κ := ws.foldl Slots.write s

/-- The writes of a call. -/
def Slots.writes (s : Slots κ) : Call κ → List (Write κ)
  | .put v => [.setCur v]
  | .stage v => if s.pend.isNone then [.setPend v] else []
  | .commit =>
    match s.pend with
    | none => []
    | some v => [.setCur v, .clearPend]
  | .rollback => [.clearPend]
  | .drop => [.clearPend, .clearCur]

@[simp] theorem Slots.writeAll_nil (s : Slots κ) : s.writeAll [] = s := rfl

@[simp] theorem Slots.writeAll_cons (s : Slots κ) (w : Write κ) (ws : List (Write κ)) :
    s.writeAll (w :: ws) = (s.write w).writeAll ws := rfl

/-- The records hold the values of the cell; after a promotion that was cut short (`cut`) the
current record may already hold the staged value. -/
structure Repr (cut : Prop) (s : Slots κ) (c : Cell κ) : Prop where
  pend : s.pend = c.staged
  cur : s.cur = c.current ∨ (cut ∧ s.pend ≠ none ∧ s.cur = s.pend)

/-- Reading the staged record before the current one reads the cell. -/
theorem Repr.read {cut : Prop} {s : Slots κ} {c : Cell κ} (h : Repr cut s c) :
    (s.pend <|> s.cur) = c.value := by
  obtain ⟨hp, hc | ⟨-, hne, -⟩⟩ := h
  · rw [Cell.value, hp, hc]
  · obtain ⟨v, hv⟩ := Option.ne_none_iff_exists'.1 hne
    rw [Cell.value, ← hp, hv]
    rfl

/-- The prefixes of a sequence of two writes. -/
private theorem prefix_pair {α : Type*} {x y : α} {ws : List α} (h : ws <+: [x, y]) :
    ws = [] ∨ ws = [x] ∨ ws = [x, y] := by
  rcases List.prefix_cons_iff.1 h with rfl | ⟨t, rfl, ht⟩
  · exact .inl rfl
  rcases List.prefix_cons_iff.1 ht with rfl | ⟨u, rfl, hu⟩
  · exact .inr (.inl rfl)
  · exact .inr (.inr (by rw [List.prefix_nil.1 hu]))

private theorem prefix_single {α : Type*} {x : α} {ws : List α} (h : ws <+: [x]) :
    ws = [] ∨ ws = [x] := by
  rcases List.prefix_cons_iff.1 h with rfl | ⟨t, rfl, ht⟩
  · exact .inl rfl
  · exact .inr (by rw [List.prefix_nil.1 ht])

/-- A call that does nothing leaves the cell as it was; it has failed unless it has no writes. -/
private theorem Repr.undone {cut cut' : Prop} {s : Slots κ} {c : Cell κ} (h : Repr cut s c)
    (hkeep : cut → s.pend ≠ none → cut') : Repr cut' s c :=
  ⟨h.pend, h.cur.imp id fun ⟨hcut, hne, he⟩ => ⟨hkeep hcut hne, hne, he⟩⟩

/-- Every prefix of a call's writes is a step of the cell, and a call that succeeds has done them
all. This needs that nothing is put over a staged value, that a staged value whose promotion was cut
short is not rolled back, and that a drop of it is not cut short. -/
theorem Repr.step {cut cut' : Prop} {s : Slots κ} {c : Cell κ} (h : Repr cut s c) {a : Call κ}
    {ok : Bool} {ws : List (Write κ)} (hws : ws <+: s.writes a)
    (hok : ok = true → a.Enabled s.pend ∧ ws = s.writes a)
    (hput : ∀ v, a = .put v → s.pend = none) (hrollback : a = .rollback → ¬cut)
    (hdrop : a = .drop → cut → ok = true)
    (hkeep : cut → (s.writeAll ws).pend ≠ none → cut')
    (hcut : a = .commit → (s.writeAll ws).cur ≠ s.cur → (s.writeAll ws).pend ≠ none → cut') :
    ∃ c', c.Step a ok c' ∧ Repr cut' (s.writeAll ws) c' := by
  have failed : ¬(a.Enabled s.pend ∧ ws = s.writes a) → ok = false := by
    intro hnot
    cases ok with
    | false => rfl
    | true => exact absurd (hok rfl) hnot
  -- a call without writes cannot have succeeded unless it had none to do
  have nil_case : ws = [] → s.writes a ≠ [] →
      ∃ c', c.Step a ok c' ∧ Repr cut' (s.writeAll ws) c' := by
    rintro rfl hne
    obtain rfl := failed fun hc => hne hc.2.symm
    exact ⟨c, .undone, h.undone hkeep⟩
  cases a with
  | put v =>
    have hpend := hput v rfl
    rcases prefix_single hws with hnil | rfl
    · exact nil_case hnil (by simp [Slots.writes])
    · exact ⟨c.apply (.put v), .done _ trivial, h.pend, .inl rfl⟩
  | stage v =>
    by_cases hpend : s.pend = none
    · have hwr : s.writes (.stage v) = [.setPend v] := by simp [Slots.writes, hpend]
      rw [hwr] at hws
      rcases prefix_single hws with hnil | rfl
      · exact nil_case hnil (by simp [hwr])
      · refine ⟨c.apply (.stage v), .done _ (h.pend ▸ hpend), rfl, .inl ?_⟩
        rcases h.cur with hc | ⟨-, hne, -⟩
        · exact hc
        · exact absurd hpend hne
    · have hwr : s.writes (.stage v) = [] := by simp [Slots.writes, hpend]
      rw [hwr, List.prefix_nil] at hws
      subst hws
      obtain rfl := failed fun hc => hpend hc.1
      exact ⟨c, .undone, h.undone hkeep⟩
  | commit =>
    cases hpend : s.pend with
    | none =>
      have hwr : s.writes (.commit : Call κ) = [] := by simp [Slots.writes, hpend]
      rw [hwr, List.prefix_nil] at hws
      subst hws
      obtain rfl := failed fun hc => hc.1 hpend
      exact ⟨c, .undone, h.undone hkeep⟩
    | some v =>
      have hwr : s.writes (.commit : Call κ) = [.setCur v, .clearPend] := by
        simp [Slots.writes, hpend]
      rw [hwr] at hws
      rcases prefix_pair hws with hnil | rfl | rfl
      · exact nil_case hnil (by simp [hwr])
      · -- the promotion is cut short: the cell still has the value staged
        obtain rfl := failed fun hc => by simp [hwr] at hc
        have hp' : (s.writeAll [.setCur v]).pend ≠ none := by simp [Slots.write, hpend]
        have he' : (s.writeAll [.setCur v]).cur = (s.writeAll [.setCur v]).pend := by
          simp [Slots.write, hpend]
        refine ⟨c, .undone, h.pend, ?_⟩
        by_cases hsame : (s.writeAll [.setCur v]).cur = s.cur
        · rcases h.cur with hc | ⟨hold, -, -⟩
          · exact .inl (hsame.trans hc)
          · exact .inr ⟨hkeep hold hp', hp', he'⟩
        · exact .inr ⟨hcut rfl hsame hp', hp', he'⟩
      · refine ⟨c.apply .commit, .done _ (by simp [Call.Enabled, ← h.pend, hpend]), rfl, .inl ?_⟩
        show some v = c.staged
        rw [← h.pend, hpend]
  | rollback =>
    rcases prefix_single hws with hnil | rfl
    · exact nil_case hnil (by simp [Slots.writes])
    · refine ⟨c.apply .rollback, .done _ trivial, rfl, .inl ?_⟩
      rcases h.cur with hc | ⟨hold, -, -⟩
      · exact hc
      · exact absurd hold (hrollback rfl)
  | drop =>
    rcases prefix_pair hws with hnil | rfl | rfl
    · exact nil_case hnil (by simp [Slots.writes])
    · obtain rfl := failed fun hc => by simp [Slots.writes] at hc
      refine ⟨{ c with staged := none }, .unstaged rfl, rfl, .inl ?_⟩
      rcases h.cur with hc | ⟨hold, -, -⟩
      · exact hc
      · exact absurd (hdrop rfl hold) (by simp)
    · exact ⟨c.apply .drop, .done _ trivial, rfl, .inl rfl⟩

end Staged
