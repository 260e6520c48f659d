import Mathlib.Data.List.Basic
import Mathlib.Data.List.Nodup
import Mathlib.Data.List.Sublists
import Mathlib.Tactic.Common

/-!
# Ledgers of out-of-order receipt

A receiver works through lanes of numbered items. On lane `k` it has got to position `pos k`; every
earlier item it has either accepted, still holds the ticket for, or has lost the ticket of. Tickets
are handed out when the receiver moves ahead and taken back when an item is accepted late, so no
item is accepted twice.

The development is over any type `α` of tickets, with `ticket k m` the ticket of item `m` of lane
`k`.
-/

namespace Ledger

variable {α : Type*}

/-- The receiver's books are in order. -/
structure Sound (ticket : ℕ → ℕ → α) (lane : ℕ → Prop) (pos : ℕ → ℕ) (Acc : ℕ → ℕ → Prop)
    (held : List α) (Lost : α → Prop) : Prop where
  mem : ∀ x ∈ held, ∃ k m, lane k ∧ m < pos k ∧ ¬ Acc k m ∧ x = ticket k m
  nodup : held.Nodup
  complete : ∀ k m, lane k → m < pos k → Acc k m ∨ ticket k m ∈ held ∨ Lost (ticket k m)
  acc_lt : ∀ k m, Acc k m → lane k ∧ m < pos k

/-- Tickets of different items differ, below the given bounds. -/
def TicketsDistinct (ticket : ℕ → ℕ → α) (lane : ℕ → Prop) (bound : ℕ → ℕ) : Prop :=
  ∀ k m k' m', lane k → lane k' → m < bound k → m' < bound k' → ticket k m = ticket k' m' →
    k = k' ∧ m = m'

variable {ticket : ℕ → ℕ → α} {lane lane' : ℕ → Prop} {pos pos' : ℕ → ℕ}
  {Acc Acc' : ℕ → ℕ → Prop} {held held' : List α} {Lost Lost' : α → Prop}

/-- Only the tickets of the open lanes matter. -/
theorem Sound.congr {ticket' : ℕ → ℕ → α} (h : Sound ticket lane pos Acc held Lost)
    (ht : ∀ k m, lane k → ticket k m = ticket' k m) : Sound ticket' lane pos Acc held Lost where
  mem := by
    intro x hx
    obtain ⟨k, m, hk, hm, hacc, rfl⟩ := h.mem x hx
    exact ⟨k, m, hk, hm, hacc, ht k m hk⟩
  nodup := h.nodup
  complete := by
    intro k m hk hm
    rw [← ht k m hk]
    exact h.complete k m hk hm
  acc_lt := h.acc_lt

/-- Moving ahead and accepting the item `n` of lane `k₀` on the way: the items passed over become
held, new lanes may be opened, and some tickets may get lost. -/
theorem Sound.advance (h : Sound ticket lane pos Acc held Lost) (new : List α) (k₀ n : ℕ)
    (hlane : ∀ k, lane k → lane' k) (hpos : ∀ k, lane k → pos k ≤ pos' k)
    (hopen : ∀ k, lane' k → ¬ lane k → pos k = 0)
    (hdist : TicketsDistinct ticket lane' pos')
    (hnew : ∀ x ∈ new, ∃ k m, lane' k ∧ pos k ≤ m ∧ m < pos' k ∧ ¬ (k = k₀ ∧ m = n) ∧
      x = ticket k m)
    (hnodup : new.Nodup)
    (hcover : ∀ k m, lane' k → pos k ≤ m → m < pos' k → (k = k₀ ∧ m = n) ∨ ticket k m ∈ new)
    (hk₀ : lane' k₀) (hn : pos k₀ ≤ n) (hn' : n < pos' k₀)
    (hAcc : ∀ k m, Acc' k m ↔ Acc k m ∨ (k = k₀ ∧ m = n))
    (hsub : held'.Sublist (held ++ new))
    (hkept : ∀ x ∈ held ++ new, x ∈ held' ∨ Lost' x) (hlost : ∀ x, Lost x → Lost' x) :
    Sound ticket lane' pos' Acc' held' Lost' := by
  have hold : ∀ x ∈ held, ∃ k m, lane k ∧ m < pos k ∧ ¬ Acc' k m ∧ x = ticket k m := by
    intro x hx
    obtain ⟨k, m, hk, hm, hacc, rfl⟩ := h.mem x hx
    refine ⟨k, m, hk, hm, fun ha => ?_, rfl⟩
    rcases (hAcc k m).mp ha with ha | ⟨rfl, rfl⟩
    · exact hacc ha
    · omega
  refine ⟨?_, ?_, ?_, ?_⟩
  · intro x hx
    rcases List.mem_append.mp (hsub.subset hx) with hx | hx
    · obtain ⟨k, m, hk, hm, hacc, rfl⟩ := hold x hx
      exact ⟨k, m, hlane k hk, hm.trans_le (hpos k hk), hacc, rfl⟩
    · obtain ⟨k, m, hk, hm, hm', hne, rfl⟩ := hnew x hx
      refine ⟨k, m, hk, hm', fun ha => ?_, rfl⟩
      rcases (hAcc k m).mp ha with ha | ha
      · have := (h.acc_lt k m ha).2
        omega
      · exact hne ha
  · refine hsub.nodup (List.nodup_append.mpr ⟨h.nodup, hnodup, ?_⟩)
    -- a held ticket is below the old position, a new one is not
    rintro x hx y hy rfl
    obtain ⟨k, m, hk, hm, -, rfl⟩ := hold x hx
    obtain ⟨k', m', hk', hle, hlt, -, heq⟩ := hnew _ hy
    obtain ⟨rfl, rfl⟩ := hdist k m k' m' (hlane k hk) hk' (hm.trans_le (hpos k hk)) hlt heq
    omega
  · intro k m hk hm
    rw [hAcc]
    by_cases hlt : m < pos k
    · have hkold : lane k := by
        by_contra hno
        have := hopen k hk hno
        omega
      rcases h.complete k m hkold hlt with ha | ht | hl
      · exact .inl (.inl ha)
      · exact .inr (hkept _ (List.mem_append_left _ ht))
      · exact .inr (.inr (hlost _ hl))
    · rcases hcover k m hk (by omega) hm with ha | ht
      · exact .inl (.inr ha)
      · exact .inr (hkept _ (List.mem_append_right _ ht))
  · intro k m ha
    rcases (hAcc k m).mp ha with ha | ⟨rfl, rfl⟩
    · obtain ⟨hk, hm⟩ := h.acc_lt k m ha
      exact ⟨hlane k hk, hm.trans_le (hpos k hk)⟩
    · exact ⟨hk₀, hn'⟩

/-- Accepting a held item late: its ticket is taken back, and some tickets may get lost. -/
theorem Sound.consume (h : Sound ticket lane pos Acc held Lost) {i k₀ n : ℕ}
    (hdist : TicketsDistinct ticket lane pos) (hi : held[i]? = some (ticket k₀ n))
    (hk₀ : lane k₀) (hn : n < pos k₀)
    (hAcc : ∀ k m, Acc' k m ↔ Acc k m ∨ (k = k₀ ∧ m = n))
    (hsub : held'.Sublist (held.eraseIdx i))
    (hkept : ∀ x ∈ held.eraseIdx i, x ∈ held' ∨ Lost' x) (hlost : ∀ x, Lost x → Lost' x) :
    Sound ticket lane pos Acc' held' Lost' := by
  obtain ⟨hlt, heq⟩ := List.getElem?_eq_some_iff.mp hi
  have hperm : (ticket k₀ n :: held.eraseIdx i).Perm held := by
    rw [← heq]
    exact List.getElem_cons_eraseIdx_perm hlt
  have hnd := List.nodup_cons.mp (hperm.nodup_iff.mpr h.nodup)
  refine ⟨?_, hsub.nodup hnd.2, ?_, ?_⟩
  · intro x hx
    have hx' := hsub.subset hx
    obtain ⟨k, m, hk, hm, hacc, rfl⟩ := h.mem x (List.mem_of_mem_eraseIdx hx')
    refine ⟨k, m, hk, hm, fun ha => ?_, rfl⟩
    rcases (hAcc k m).mp ha with ha | ⟨rfl, rfl⟩
    · exact hacc ha
    · exact hnd.1 hx'
  · intro k m hk hm
    rw [hAcc]
    rcases h.complete k m hk hm with ha | ht | hl
    · exact .inl (.inl ha)
    · rcases List.mem_cons.mp (hperm.mem_iff.mpr ht) with heq | ht
      · exact .inl (.inr (hdist k m k₀ n hk hk₀ hm hn heq))
      · exact .inr (hkept _ ht)
    · exact .inr (.inr (hlost _ hl))
  · intro k m ha
    rcases (hAcc k m).mp ha with ha | ⟨rfl, rfl⟩
    · exact h.acc_lt k m ha
    · exact ⟨hk₀, hn⟩

end Ledger
