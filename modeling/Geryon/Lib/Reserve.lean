import Mathlib.Data.List.Nodup
import Mathlib.Data.List.Perm.Subperm
import Mathlib.Tactic.Common

/-!
# Reservations from a pool of keys

A pool lists keys, each with a mark. A reservation marks a key and hands it out; an offer hands out
every key without a mark and marks none. In between keys come and go, and a pool may give way to one
that was kept aside. As long as no key is made twice and no change takes a mark away, a key that was
reserved is never handed out again. A key that was offered may be.

The development is over any type of keys.

## Main definitions

- `Reserve.Change`: a change of a pool that takes no mark away.
- `Reserve.Inv`: the keys of a pool were made once, and the reserved ones are marked.
- `Reserve.NoReissue`: no export contains a key that was reserved before.
-/

namespace Reserve

variable {κ : Type*}

/-- Keys, each with whether it was reserved. -/
abbrev Pool (κ : Type*) := List (κ × Bool)

/-- The keys of a pool. -/
def Pool.keys (l : Pool κ) : List κ := l.map Prod.fst

/-- The keys without a mark. -/
def Pool.free (l : Pool κ) : List κ := (l.filter fun x => !x.2).map Prod.fst

variable {made new out : List κ} {l l' l'' a c : Pool κ} {k : κ} {b : Bool}

/-! ## Changes -/

/-- A change that makes the keys `new`: no key comes from elsewhere, and one that stays keeps its
mark. -/
structure Change (new : List κ) (l l' : Pool κ) : Prop where
  keys : l'.keys.Subperm (new ++ l.keys)
  marks : ∀ x ∈ l', x.1 ∈ new ∨ ∃ b, (x.1, b) ∈ l ∧ (b = true → x.2 = true)

theorem Change.refl (new : List κ) (l : Pool κ) : Change new l l where
  keys := (List.sublist_append_right new l.keys).subperm
  marks x hx := .inr ⟨x.2, hx, id⟩

/-- A change and one that makes no key are a change. -/
theorem Change.trans (h : Change new l l') (h' : Change [] l' l'') : Change new l l'' where
  keys := h'.keys.trans h.keys
  marks := by
    intro x hx
    rcases h'.marks x hx with hnil | ⟨b', hb', hmark'⟩
    · cases hnil
    · rcases h.marks _ hb' with hnew | ⟨b, hb, hmark⟩
      · exact .inl hnew
      · exact .inr ⟨b, hb, fun ht => hmark' (hmark ht)⟩

/-- Keys may go. -/
theorem Change.drop (h : l'.Sublist l) : Change new l l' where
  keys := (h.map Prod.fst).subperm.trans (List.sublist_append_right new _).subperm
  marks x hx := .inr ⟨x.2, h.subset hx, id⟩

/-- New keys may come, without a mark. -/
theorem Change.add (h : l'.Perm (new.map (·, false) ++ l)) : Change new l l' where
  keys := by
    have hkeys := h.map Prod.fst
    rw [List.map_append, List.map_map, Function.comp_def, List.map_id'] at hkeys
    exact hkeys.subperm
  marks := by
    intro x hx
    rcases List.mem_append.mp (h.subset hx) with hnew | hold
    · obtain ⟨k, hk, rfl⟩ := List.mem_map.mp hnew
      exact .inl hk
    · exact .inr ⟨x.2, hold, id⟩

/-- A key may be marked. -/
theorem Change.mark : Change new (a ++ (k, b) :: c) (a ++ (k, true) :: c) where
  keys := by
    have hkeys : Pool.keys (a ++ (k, true) :: c) = Pool.keys (a ++ (k, b) :: c) := by
      simp only [Pool.keys, List.map_append, List.map_cons]
    rw [hkeys]
    exact (List.sublist_append_right new _).subperm
  marks := by
    intro x hx
    rcases List.mem_append.mp hx with hx | hx
    · exact .inr ⟨x.2, List.mem_append_left _ hx, id⟩
    · rcases List.mem_cons.mp hx with rfl | hx
      · exact .inr ⟨b, List.mem_append_right _ List.mem_cons_self, fun _ => rfl⟩
      · exact .inr ⟨x.2, List.mem_append_right _ (List.mem_cons_of_mem _ hx), id⟩

/-! ## The invariant -/

/-- The keys of a pool were made, they differ, and those that were reserved are marked. -/
structure Inv (made out : List κ) (l : Pool κ) : Prop where
  nodup : l.keys.Nodup
  made : ∀ k ∈ l.keys, k ∈ made
  marked : ∀ x ∈ l, x.1 ∈ out → x.2 = true

theorem inv_nil : Inv made out [] :=
  ⟨List.nodup_nil, fun _ h => (nomatch h), fun _ h => (nomatch h)⟩

/-- Making keys does not touch a pool kept aside. -/
theorem Inv.mono (h : Inv made out l) (new : List κ) : Inv (made ++ new) out l :=
  ⟨h.nodup, fun k hk => List.mem_append_left _ (h.made k hk), h.marked⟩

/-- A change keeps the invariant if no key is made twice. -/
theorem Inv.change (h : Inv made out l) (hl : Change new l l') (hfresh : (made ++ new).Nodup)
    (hout : ∀ k ∈ out, k ∈ made) : Inv (made ++ new) out l' := by
  obtain ⟨-, hnew, hdisj⟩ := List.nodup_append.mp hfresh
  refine ⟨?_, ?_, ?_⟩
  · have hpool : (new ++ l.keys).Nodup :=
      List.nodup_append.mpr
        ⟨hnew, h.nodup, fun x hx y hy hxy => hdisj y (h.made y hy) x hx hxy.symm⟩
    obtain ⟨m, hperm, hsub⟩ := hl.keys
    exact hperm.nodup_iff.mp (hpool.sublist hsub)
  · intro k hk
    rcases List.mem_append.mp (hl.keys.subset hk) with hk | hk
    · exact List.mem_append_right _ hk
    · exact List.mem_append_left _ (h.made k hk)
  · intro x hx hxout
    rcases hl.marks x hx with hxnew | ⟨b, hb, hmark⟩
    · -- a reserved key was made before, so it is not made now
      exact absurd rfl (hdisj x.1 (hout x.1 hxout) x.1 hxnew)
    · exact hmark (h.marked _ hb hxout)

/-- After a reservation the key is among the reserved ones. -/
theorem Inv.reserve (h : Inv made out (a ++ (k, b) :: c)) :
    Inv made (out ++ [k]) (a ++ (k, true) :: c) := by
  have hkeys : Pool.keys (a ++ (k, true) :: c) = Pool.keys (a ++ (k, b) :: c) := by
    simp only [Pool.keys, List.map_append, List.map_cons]
  refine ⟨hkeys ▸ h.nodup, fun k' hk' => h.made k' (hkeys ▸ hk'), ?_⟩
  -- the keys differ, so no other entry is one of the reserved key
  have hother : ∀ x ∈ a ++ c, x.1 ≠ k := by
    have hnodup := h.nodup
    rw [Pool.keys, List.map_append, List.map_cons] at hnodup
    have hmiddle : (a.map Prod.fst ++ k :: c.map Prod.fst).Perm
        (k :: (a.map Prod.fst ++ c.map Prod.fst)) := List.perm_middle
    have hperm := hmiddle.nodup_iff.mp hnodup
    rw [← List.map_append] at hperm
    intro x hx heq
    exact (List.nodup_cons.mp hperm).1 (heq ▸ List.mem_map_of_mem hx)
  intro x hx hxout
  by_cases hxk : x.1 = k
  · rcases List.mem_append.mp hx with hx | hx
    · exact absurd hxk (hother x (List.mem_append_left _ hx))
    · rcases List.mem_cons.mp hx with rfl | hx
      · rfl
      · exact absurd hxk (hother x (List.mem_append_right _ hx))
  · have hxold : x ∈ a ++ (k, b) :: c := by
      rcases List.mem_append.mp hx with hx | hx
      · exact List.mem_append_left _ hx
      · rcases List.mem_cons.mp hx with rfl | hx
        · exact absurd rfl hxk
        · exact List.mem_append_right _ (List.mem_cons_of_mem _ hx)
    rcases List.mem_append.mp hxout with hxout | hxout
    · exact h.marked x hxold hxout
    · exact absurd (List.mem_singleton.mp hxout) hxk

/-- A key without a mark was not reserved. -/
theorem Inv.not_mem_of_free (h : Inv made out l) (hk : k ∈ l.free) : k ∉ out := by
  obtain ⟨x, hx, rfl⟩ := List.mem_map.mp hk
  obtain ⟨hmem, hfree⟩ := List.mem_filter.mp hx
  intro hout
  rw [h.marked x hmem hout] at hfree
  cases hfree

/-! ## Exports -/

/-- Keys that were handed out together, and whether they were reserved for it. -/
structure Export (κ : Type*) where
  reserved : Bool
  keys : List κ
  deriving DecidableEq

/-- The keys that were reserved for one of the exports. -/
def issued (es : List (Export κ)) : List κ := es.flatMap fun e => if e.reserved then e.keys else []

/-- No export contains a key that was reserved for an earlier one. -/
def NoReissue (es : List (Export κ)) : Prop :=
  es.Pairwise fun e e' => e.reserved = true → ∀ k ∈ e.keys, k ∉ e'.keys

theorem issued_append (es es' : List (Export κ)) : issued (es ++ es') = issued es ++ issued es' :=
  List.flatMap_append

/-- Exports of keys that were not reserved before may follow. -/
theorem NoReissue.append {es es' : List (Export κ)} (h : NoReissue es) (h' : NoReissue es')
    (hk : ∀ e ∈ es', ∀ k ∈ e.keys, k ∉ issued es) : NoReissue (es ++ es') := by
  refine List.pairwise_append.mpr ⟨h, h', ?_⟩
  intro e he e' he' hres k hmem hmem'
  refine hk e' he' k hmem' (List.mem_flatMap.mpr ⟨e, he, ?_⟩)
  rw [if_pos hres]
  exact hmem

/-- A key that was reserved for one export is reserved for no other and in no later one. -/
theorem NoReissue.disjoint {es : List (Export κ)} (h : NoReissue es) {i j : ℕ} {e e' : Export κ}
    (he : es[i]? = some e) (he' : es[j]? = some e') (hij : i ≠ j) (hres : e.reserved = true)
    (hlater : e'.reserved = true ∨ i < j) : ∀ k ∈ e.keys, k ∉ e'.keys := by
  obtain ⟨hi, rfl⟩ := List.getElem?_eq_some_iff.mp he
  obtain ⟨hj, rfl⟩ := List.getElem?_eq_some_iff.mp he'
  have hpair := List.pairwise_iff_getElem.mp h
  intro k hk hk'
  rcases Nat.lt_or_gt_of_ne hij with hlt | hgt
  · exact hpair i j hi hj hlt hres k hk hk'
  · rcases hlater with hres' | hlt
    · exact hpair j i hj hi hgt hres' k hk' hk
    · exact absurd hlt (Nat.lt_asymm hgt)

end Reserve
