import Geryon.Ratchet.Sync

/-!
# Deliveries

Delivering a frame of the log keeps the two parties in step, whatever comes of it. The three ways a
frame can be accepted change the receiver's books in two ways: a stored key is taken back, or the
receiver moves ahead, possibly onto a new chain.
-/

namespace Geryon

variable {β σ η γ : Type} [Octet β] [DecidableEq β] [Sodium β]

section

variable {E : Engine β σ η} {w : World β σ} {lv : Nat → Level β γ} {lvl : Party → Nat}

omit [Octet β] [DecidableEq β] [Sodium β] in
/-- What is accepted after one more acceptance. -/
theorem acceptedAt_accept {i : Nat} {f : Sent β σ} (hi : w.sent[i]? = some f) {p q : Party} {s : σ}
    {k m : Nat} : AcceptedAt E (w.accept p s i) lv lvl q k m ↔ AcceptedAt E w lv lvl q k m ∨
      ((1 ≤ k ∧ k ≤ lvl q.peer) ∧ f.On E q.peer (lv k).kp.pk ∧ f.idx = m) := by
  simp only [AcceptedAt, World.accept, List.mem_append, List.mem_singleton]
  constructor
  · rintro ⟨hk, j, hj | rfl, g, hg, hrest⟩
    · exact .inl ⟨hk, j, hj, g, hg, hrest⟩
    · obtain rfl : f = g := Option.some.inj (hi.symm.trans hg)
      exact .inr ⟨hk, hrest⟩
  · rintro (⟨hk, j, hj, g, hg, hrest⟩ | ⟨hk, hrest⟩)
    · exact ⟨hk, j, .inl hj, g, hg, hrest⟩
    · exact ⟨hk, i, .inr rfl, f, hi, hrest⟩

omit [DecidableEq β] [Sodium β] in
theorem keysFrom_eq_map_ticket (desc : SuiteDesc β) (sec : DrSecrets β) (k a j : Nat) :
    keysFrom desc (Schedule.hk sec lv k) (lv k).ck a j =
      (List.range j).map fun i => ticket desc sec lv k (a + i) := rfl

omit [DecidableEq β] [Sodium β] in
theorem mem_keysFrom_ticket {desc : SuiteDesc β} {sec : DrSecrets β} {k a j : Nat}
    {x : SkipStore.Held β} :
    x ∈ keysFrom desc (Schedule.hk sec lv k) (lv k).ck a j ↔
      ∃ m, a ≤ m ∧ m < a + j ∧ x = ticket desc sec lv k m :=
  mem_keysFrom

omit [DecidableEq β] [Sodium β] in
/-- The keys that a walk stores are all different. -/
theorem nodup_keysFrom {desc : SuiteDesc β} {sec : DrSecrets β} {lane : Nat → Prop}
    {bound : Nat → Nat} (hd : Ledger.TicketsDistinct (ticket desc sec lv) lane bound) {k a j : Nat}
    (hk : lane k) (hj : a + j ≤ bound k) :
    (keysFrom desc (Schedule.hk sec lv k) (lv k).ck a j).Nodup := by
  rw [keysFrom_eq_map_ticket]
  refine List.Nodup.map_on ?_ List.nodup_range
  intro x hx y hy hxy
  have hx := List.mem_range.mp hx
  have hy := List.mem_range.mp hy
  have := (hd k (a + x) k (a + y) hk hk (by omega) (by omega) hxy).2
  omega

/-- Positions after a new chain was opened at level `r + 1`, with the chain at `r - 1` finished. -/
def openedPos (pos : Nat → Nat) (r pn n : Nat) (j : Nat) : Nat :=
  if j = r + 1 then n + 1 else if j + 1 = r then pn else pos j

omit [DecidableEq β] [Sodium β] in
/-- Skipped keys depend on the levels up to their own only. -/
theorem ticket_congr {desc : SuiteDesc β} {sec : DrSecrets β} {lv' : Nat → Level β γ} {top j : Nat}
    (h : ∀ i ≤ top, lv i = lv' i) (hj : j ≤ top) (m : Nat) :
    ticket desc sec lv j m = ticket desc sec lv' j m := by
  rw [ticket, ticket, Schedule.hk_congr sec lv h (by omega), h j hj]

end

namespace Sync

variable {desc : SuiteDesc β} {E : Engine β σ η} {I : IdealSuite desc} {S : EngineSpec E I γ}
  {id : UInt8} {ad : Bytes β} {sec : DrSecrets β} {w : World β σ} {keys : List (Bytes β)}
  {lv : Nat → Level β γ} {lvl : Party → Nat} {pos : Party → Nat → Nat}
  (hy : Sync S id ad sec w keys lv lvl pos)

/-- A frame on the way: `f` stands in the log at `i`, its receiver is `p`, its level `k`. -/
structure Pending (S : EngineSpec E I γ) (id : UInt8) (ad : Bytes β) (sec : DrSecrets β)
    (w : World β σ) (lv : Nat → Level β γ) (lvl : Party → Nat) (i : Nat) (f : Sent β σ) (p : Party)
    (k : Nat) : Prop where
  get : w.sent[i]? = some f
  sender : f.sender = p.peer
  one_le : 1 ≤ k
  le : k ≤ lvl p.peer
  par : k % 2 = p.peer.par
  at_ : FrameAt S id ad sec w lv f k

include hy

theorem exists_pending {i : Nat} {f : Sent β σ} (hi : w.sent[i]? = some f) :
    ∃ k, Pending S id ad sec w lv lvl i f f.sender.peer k := by
  obtain ⟨k, hk1, hk, hpar, hf⟩ := hy.sent f (List.mem_of_getElem? hi)
  exact ⟨k, hi, by rw [Party.peer_peer], hk1, by rwa [Party.peer_peer],
    by rwa [Party.peer_peer], hf⟩

variable {i k : Nat} {f : Sent β σ} {p : Party} (hp : Pending S id ad sec w lv lvl i f p k)
include hp

/-- A frame is at most one level ahead of its receiver, and on a level of the other party. -/
theorem pending_le : k ≤ lvl p + 1 ∧ k % 2 ≠ lvl p % 2 := by
  have h1 := hy.adj p.peer
  have h2 := hp.le
  have h3 := Party.par_peer_ne p
  have h4 := hy.par p
  rw [Party.peer_peer] at h1
  exact ⟨by omega, by rw [hp.par, h4]; exact h3⟩

/-- The frame is on level `k` of its sender and no other. -/
theorem on_iff {q : Party} {j : Nat} (hj : j ≤ lvl q) :
    f.On E q (lv j).kp.pk ↔ q = p.peer ∧ j = k := by
  rw [Sent.On, hp.sender, FrameAt.chain hp.at_]
  constructor
  · rintro ⟨rfl, hpk⟩
    exact ⟨rfl, (hy.inj _ _ k j hp.le hj hpk).symm⟩
  · rintro ⟨rfl, rfl⟩
    exact ⟨rfl, rfl⟩

/-- Accepting the frame adds its position to what its receiver has accepted, and nothing else. -/
theorem acceptedAt_iff {s : σ} {q : Party} {j m : Nat} :
    AcceptedAt E (w.accept p s i) lv lvl q j m ↔
      AcceptedAt E w lv lvl q j m ∨ (q = p ∧ j = k ∧ m = f.idx) := by
  rw [acceptedAt_accept hp.get]
  refine or_congr_right ⟨?_, ?_⟩
  · rintro ⟨⟨-, hj⟩, hon, rfl⟩
    obtain ⟨hq, rfl⟩ := (hy.on_iff hp hj).mp hon
    exact ⟨by rw [← Party.peer_peer q, hq, Party.peer_peer], rfl, rfl⟩
  · rintro ⟨rfl, rfl, rfl⟩
    exact ⟨⟨hp.one_le, hp.le⟩, (hy.on_iff hp hp.le).mpr ⟨rfl, rfl⟩, rfl⟩

/-- The frame is accepted exactly when its position is. -/
theorem mem_accepted_iff : i ∈ w.accepted ↔ AcceptedAt E w lv lvl p k f.idx := by
  constructor
  · intro h
    exact ⟨⟨hp.one_le, hp.le⟩, i, h, f, hp.get, (hy.on_iff hp hp.le).mpr ⟨rfl, rfl⟩, rfl⟩
  · rintro ⟨-, j, hj, g, hg, hon, hidx⟩
    have hf : f.On E p.peer (lv k).kp.pk := (hy.on_iff hp hp.le).mpr ⟨rfl, rfl⟩
    rwa [hy.log.eq_of_idx_eq hp.get hg (hf.1.trans hon.1.symm) (hf.2.trans hon.2.symm) hidx.symm]

/-- The frame's number lies below the number of messages of its chain. -/
theorem idx_lt : f.idx < w.total E p.peer (lv k).kp.pk := by
  have h := hy.log.idx_lt_total hp.get
  rwa [hp.sender, FrameAt.chain hp.at_] at h

/-! ## Acceptance on a chain the receiver knows -/

/-- Acceptance that leaves the receiver on its level: only its receiving chain and its store move.
-/
theorem accept_withRecv {t : SkipStore β} {ck : Bytes β} {nr : UInt32} {pos' : Nat → Nat}
    (hnot : i ∉ w.accepted) (ht : t.Inv)
    (hck : 2 ≤ lvl p → ck = chainKey desc (lv (lvl p - 1)).ck nr.toNat)
    (hbooks : ∀ Acc', (∀ j m, Acc' j m ↔ AcceptedAt E w lv lvl p j m ∨ (j = k ∧ m = f.idx)) →
      Ledger.Sound (ticket desc sec lv) (Lane (lvl p)) pos' Acc' t.view fun x => x.msgKey ∈ t.lost)
    (hcur : 2 ≤ lvl p → pos' (lvl p - 1) = nr.toNat ∧ pos' (lvl p - 1) =
      if k = lvl p - 1 then max (w.passed E p.peer (lv (lvl p - 1)).kp.pk) (f.idx + 1)
      else w.passed E p.peer (lv (lvl p - 1)).kp.pk)
    (hkeep : ∀ j, j + 1 ≠ lvl p → pos' j = pos p j)
    (hle : ∀ j, Lane (lvl p) j → pos' j ≤ w.total E p.peer (lv j).kp.pk) :
    Sync S id ad sec
      (w.accept p (E.withBase ((E.base (w.st p)).withRecv ⟨t, ck, nr⟩) (w.st p)) i) keys lv lvl
      (Function.update pos p pos') := by
  generalize hs' : E.withBase ((E.base (w.st p)).withRecv ⟨t, ck, nr⟩) (w.st p) = s'
  have hbase' : E.base s' = (E.base (w.st p)).withRecv ⟨t, ck, nr⟩ := by
    rw [← hs', E.base_withBase]
  have hother : ∀ q, q ≠ p → (w.accept p s' i).st q = w.st q := fun q hq => by
    simp [World.accept, hq]
  have hself : (w.accept p s' i).st p = s' := by simp [World.accept]
  have hpos : ∀ q, q ≠ p → Function.update pos p pos' q = pos q := fun q hq => by simp [hq]
  have hpos_self : Function.update pos p pos' p = pos' := by simp
  -- the sending half of every state is as it was
  have hsend : ∀ q, (E.base ((w.accept p s' i).st q)).ns = (E.base (w.st q)).ns ∧
      (E.base ((w.accept p s' i).st q)).pn = (E.base (w.st q)).pn := by
    intro q
    by_cases hq : q = p
    · subst hq
      rw [hself, hbase']
      exact ⟨rfl, rfl⟩
    · rw [hother q hq]
      exact ⟨rfl, rfl⟩
  have hpassed : ∀ q j, j ≤ lvl q.peer → (w.accept p s' i).passed E q.peer (lv j).kp.pk =
      if q = p ∧ j = k then max (w.passed E q.peer (lv j).kp.pk) (f.idx + 1)
      else w.passed E q.peer (lv j).kp.pk := by
    intro q j hj
    have hiff : f.On E q.peer (lv j).kp.pk ↔ q = p ∧ j = k := by
      rw [hy.on_iff hp hj]
      exact and_congr_left fun _ => ⟨fun h => by rw [← Party.peer_peer q, h, Party.peer_peer],
        fun h => by rw [h]⟩
    rw [World.passed_accept hp.get]
    exact if_congr hiff rfl rfl
  refine { hy with
    base := ?_, ext := ?_, ns := ?_, pn := ?_, log := hy.log.accept hp.get, sent := ?_,
    nodup := ?_, ledger := ?_, pos_cur := ?_, pos_old := ?_, pos_le := ?_, pos_new := ?_,
    opened := ?_ }
  · intro q
    by_cases hq : q = p
    · subst hq
      rw [hself, hbase']
      exact { hy.base q with ckr := hck, skipped := ht }
    · rw [hother q hq]
      exact hy.base q
  · intro q
    by_cases hq : q = p
    · subst hq
      rw [hself, ← hs']
      exact S.ext_withBase _ (hy.ext q)
    · rw [hother q hq]
      exact hy.ext q
  · intro q
    rw [(hsend q).1]
    exact hy.ns q
  · intro q
    rw [(hsend q).2]
    exact hy.pn q
  · intro g hg
    obtain ⟨j, hj1, hj, hpar, hg⟩ := hy.sent g hg
    exact ⟨j, hj1, hj, hpar, hg.base, hg.ext, hg.ns, hg.frame⟩
  · exact List.nodup_append.mpr ⟨hy.nodup, List.nodup_singleton i, by
      rintro x hx y hy' rfl
      rw [List.mem_singleton.mp hy'] at hx
      exact hnot hx⟩
  · intro q
    by_cases hq : q = p
    · subst hq
      rw [hself, hbase', hpos_self]
      refine hbooks _ fun j m => ?_
      rw [hy.acceptedAt_iff hp]
      simp
    · rw [hother q hq, hpos q hq]
      have hacc : AcceptedAt E (w.accept p s' i) lv lvl q = AcceptedAt E w lv lvl q := by
        funext j m
        rw [hy.acceptedAt_iff hp]
        simp [hq]
      rw [hacc]
      exact hy.ledger q
  · intro q hq2
    have hle' : lvl q - 1 ≤ lvl q.peer := by
      have := hy.adj q
      omega
    rw [hpassed q _ hle']
    by_cases hq : q = p
    · subst hq
      rw [hself, hbase', hpos_self]
      refine ⟨(hcur hq2).1, ?_⟩
      rw [(hcur hq2).2]
      exact if_congr (by simp [eq_comm]) rfl rfl
    · rw [hother q hq, hpos q hq, if_neg fun h => hq h.1]
      exact hy.pos_cur q hq2
  · intro q j hlane hj
    by_cases hq : q = p
    · subst hq
      rw [hpos_self, hkeep j (by omega)]
      exact hy.pos_old q j hlane hj
    · rw [hpos q hq]
      exact hy.pos_old q j hlane hj
  · intro q j hlane
    by_cases hq : q = p
    · subst hq
      rw [hpos_self]
      exact hle j hlane
    · rw [hpos q hq]
      exact hy.pos_le q j hlane
  · intro q j hj
    by_cases hq : q = p
    · subst hq
      rw [hpos_self, hkeep j (by omega)]
      exact hy.pos_new q j hj
    · rw [hpos q hq]
      exact hy.pos_new q j hj
  · intro q j hlane hnil
    rw [World.acceptedOn_accept hp.get] at hnil
    exact hy.opened q j hlane (List.append_eq_nil_iff.mp hnil).1

variable (hsec : Seeds desc sec) (hwrap : ∀ q pk, w.total E q pk < 2 ^ 32)
include hsec hwrap

/-- Where the frame's key is found in the store, its position has been passed and not accepted. -/
theorem of_stored {j : Nat} (hj : (E.base (w.st p)).skipped.view[j]? =
      some (ticket desc sec lv k f.idx)) :
    Lane (lvl p) k ∧ f.idx < pos p k ∧ ¬ AcceptedAt E w lv lvl p k f.idx := by
  obtain ⟨k', m', hlane, hm, hacc, heq⟩ := (hy.ledger p).mem _ (List.mem_of_getElem? hj)
  have hle := hy.pos_le p k' hlane
  have hw := hwrap p.peer (lv k').kp.pk
  have hidx := hy.idx_lt hp
  have hw' := hwrap p.peer (lv k).kp.pk
  obtain ⟨rfl, rfl⟩ := ticket_inj I hsec (hy.derived p) hp.one_le hlane.1
    ((hy.pending_le hp).1.trans (by omega)) (by have := hlane.2.1; omega) (by omega) (by omega) heq
  exact ⟨hlane, hm, hacc⟩

/-- Accepting a frame whose key was stored. -/
theorem accept_stored {j : Nat} (hj : (E.base (w.st p)).skipped.view[j]? =
      some (ticket desc sec lv k f.idx)) :
    Sync S id ad sec (w.accept p (E.withBase { E.base (w.st p) with
      skipped := storePostSuccess (storeRemove (E.base (w.st p)).skipped j) } (w.st p)) i)
      keys lv lvl (Function.update pos p (pos p)) := by
  obtain ⟨hlane, hlt, hacc⟩ := hy.of_stored hp hsec hwrap hj
  have hinv := SkipStore.inv_storeRemove (hy.base p).skipped j
  have hgrow := SkipStore.grows_storePostSuccess hinv
  have hview := SkipStore.view_storeRemove (hy.base p).skipped j
  have hlost := SkipStore.lost_storeRemove (E.base (w.st p)).skipped j
  generalize storeRemove (E.base (w.st p)).skipped j = u at hinv hgrow hview hlost ⊢
  -- no chain moves: only the store and the set of accepted frames change
  refine hy.accept_withRecv hp (fun h => hacc ((hy.mem_accepted_iff hp).mp h))
    (SkipStore.inv_storePostSuccess hinv) (hy.base p).ckr ?_ ?_ (fun _ _ => rfl) (hy.pos_le p)
  · intro Acc' hAcc
    -- the ticket leaves the store and its frame counts as accepted
    refine (hy.ledger p).consume (ticketsDistinct I hsec (hy.derived p) (by omega) _ fun j hj => ?_)
      hj hlane hlt hAcc ?_ ?_ ?_
    · have := hy.pos_le p j hj
      have := hwrap p.peer (lv j).kp.pk
      omega
    · have h := hgrow.sub
      rwa [List.append_nil, hview] at h
    · have h := hgrow.kept
      rwa [List.append_nil, hview] at h
    · intro x hx
      exact hgrow.lost_mono _ (hlost ▸ hx)
  · intro hr
    obtain ⟨h1, h2⟩ := hy.pos_cur p hr
    refine ⟨h1, ?_⟩
    split_ifs with hk
    · subst hk
      omega
    · exact h2

/-- Accepting a frame ahead on the current chain. -/
theorem accept_ahead (hr : lvl p = k + 1) (hge : (E.base (w.st p)).nr.toNat ≤ f.idx)
    {t : SkipStore β} (hinv : t.Inv)
    (hgrow : (E.base (w.st p)).skipped.Grows (keysFrom desc (Schedule.hk sec lv k) (lv k).ck
        (E.base (w.st p)).nr.toNat (f.idx - (E.base (w.st p)).nr.toNat)) t) :
    Sync S id ad sec (w.accept p (E.withBase ((E.base (w.st p)).withRecv
        ⟨t, chainKey desc (lv k).ck (f.idx + 1), UInt32.ofNat (f.idx + 1)⟩) (w.st p)) i)
      keys lv lvl (Function.update pos p (Function.update (pos p) k (f.idx + 1))) := by
  have hk1 := hp.one_le
  have hk : lvl p - 1 = k := by omega
  have hlane : Lane (lvl p) k := ⟨hk1, by omega, (hy.pending_le hp).2⟩
  obtain ⟨hcur, hpass⟩ := hy.pos_cur p (by omega)
  rw [hk] at hcur hpass
  have hidx := hy.idx_lt hp
  have hw := hwrap p.peer (lv k).kp.pk
  -- only the lane of this chain moves, and not past what was sent
  have hle : ∀ j, Lane (lvl p) j →
      Function.update (pos p) k (f.idx + 1) j ≤ w.total E p.peer (lv j).kp.pk := by
    intro j hj
    by_cases h : j = k
    · subst h
      rw [Function.update_self]
      exact hidx
    · rw [Function.update_of_ne h]
      exact hy.pos_le p j hj
  have hdist := ticketsDistinct I hsec (hy.derived p) (r := lvl p) (by omega)
    (Function.update (pos p) k (f.idx + 1)) fun j hj =>
      (hle j hj).trans (hwrap p.peer (lv j).kp.pk).le
  have hnr : (UInt32.ofNat (f.idx + 1)).toNat = f.idx + 1 := by
    rw [UInt32.toNat_ofNat', Nat.mod_eq_of_lt (by omega)]
  -- the frame is at or past the position, so it was not accepted before
  have hnot : i ∉ w.accepted := by
    rw [hy.mem_accepted_iff hp]
    intro h
    have := ((hy.ledger p).acc_lt _ _ h).2
    omega
  refine hy.accept_withRecv hp hnot hinv ?_ ?_ ?_ ?_ hle
  · intro _
    rw [hk, hnr]
  · intro Acc' hAcc
    -- the frames passed over are the keys the store gains
    refine (hy.ledger p).advance (keysFrom desc (Schedule.hk sec lv k) (lv k).ck
      (E.base (w.st p)).nr.toNat (f.idx - (E.base (w.st p)).nr.toNat)) k f.idx (fun _ h => h) ?_
      (fun j hj hno => absurd hj hno) hdist ?_
        (nodup_keysFrom hdist hlane (by simp; omega)) ?_ hlane
      (by omega) (by simp) hAcc hgrow.sub hgrow.kept fun x hx => hgrow.lost_mono _ hx
    · intro j _
      by_cases h : j = k
      · subst h
        simp
        omega
      · simp [h]
    · intro x hx
      obtain ⟨m, hm, hm', rfl⟩ := mem_keysFrom_ticket.mp hx
      exact ⟨k, m, hlane, by omega, by simp; omega, by omega, rfl⟩
    · intro j m _ hm hm'
      by_cases h : j = k
      · subst h
        rw [Function.update_self] at hm'
        by_cases hmn : m = f.idx
        · exact .inl ⟨rfl, hmn⟩
        · exact .inr (mem_keysFrom_ticket.mpr ⟨m, by omega, by omega, rfl⟩)
      · rw [Function.update_of_ne h] at hm'
        omega
  · intro _
    rw [hk, hnr, if_pos rfl, Function.update_self]
    exact ⟨rfl, by omega⟩
  · intro j hj
    exact Function.update_of_ne (by omega) _ _

/-! ## Acceptance of a frame that opens a new chain -/

omit hp hsec hwrap in
/-- Nothing was sent under a key that is not in use. -/
theorem total_fresh {pk : Bytes β} (hpk : pk ∉ keys) (q : Party) : w.total E q pk = 0 := by
  refine List.countP_eq_zero.mpr fun g hg => ?_
  obtain ⟨j, -, hj, -, hat⟩ := hy.sent g hg
  simp only [decide_eq_true_eq]
  rintro ⟨-, hc⟩
  rw [FrameAt.chain hat] at hc
  exact hpk (hc ▸ hy.used g.sender j hj)

omit hsec hwrap in
/-- Nothing was accepted on a chain the receiver has not opened. -/
theorem acceptedOn_eq_nil (h0 : pos p k = 0) : w.acceptedOn E p.peer (lv k).kp.pk = [] := by
  refine List.eq_nil_iff_forall_not_mem.mpr fun g hg => ?_
  obtain ⟨⟨j, hj, hgj⟩, hon⟩ := World.mem_acceptedOn.mp hg
  have := ((hy.ledger p).acc_lt k g.idx ⟨⟨hp.one_le, hp.le⟩, j, hj, g, hgj, hon, rfl⟩).2
  omega

variable {t : SkipStore β} {new : Level β γ} (hr : k = lvl p + 1)
  (hold : 2 ≤ lvl p → (E.base (w.st p)).nr.toNat ≤ prevTotal E w lv p.peer k)
  (hgrow : (E.base (w.st p)).skipped.Grows
    ((if 2 ≤ lvl p then keysFrom desc (Schedule.hk sec lv (lvl p - 1)) (lv (lvl p - 1)).ck
        (E.base (w.st p)).nr.toNat
        (prevTotal E w lv p.peer k - (E.base (w.st p)).nr.toNat) else []) ++
      keysFrom desc (Schedule.hk sec lv k) (lv k).ck 0 f.idx) t)
include hr

omit hsec hwrap in
/-- Opening a chain completes the receiver's position on the chain before. -/
theorem openedPos_le {j : Nat} (hj : Lane (lvl p + 2) j) :
    openedPos (pos p) (lvl p) (prevTotal E w lv p.peer k) f.idx j ≤
      w.total E p.peer (lv j).kp.pk ∧
    (j + 1 < lvl p + 2 → openedPos (pos p) (lvl p) (prevTotal E w lv p.peer k) f.idx j =
      w.total E p.peer (lv j).kp.pk) := by
  obtain ⟨hj1, hlt, hpar⟩ := hj
  unfold openedPos
  split_ifs with h1 h2
  · subst h1
    have hidx := hy.idx_lt hp
    rw [hr] at hidx
    exact ⟨hidx, by omega⟩
  · have hk2 : k - 2 = j := by omega
    rw [prevTotal, if_neg (by omega), hk2]
    exact ⟨le_rfl, fun _ => rfl⟩
  · have hlane : Lane (lvl p) j := ⟨hj1, by omega, by omega⟩
    exact ⟨hy.pos_le p j hlane, fun _ => hy.pos_old p j hlane (by omega)⟩

include hold hgrow

/-- The receiver's books after the new chain was opened. -/
theorem books_opens (Acc' : Nat → Nat → Prop)
    (hAcc : ∀ j m, Acc' j m ↔ AcceptedAt E w lv lvl p j m ∨ (j = k ∧ m = f.idx)) :
    Ledger.Sound (ticket desc sec lv) (Lane (lvl p + 2))
      (openedPos (pos p) (lvl p) (prevTotal E w lv p.peer k) f.idx) Acc' t.view
      fun x => x.msgKey ∈ t.lost := by
  have hpar := (hy.pending_le hp).2
  have hdist := ticketsDistinct I hsec (hy.derived p) le_rfl
    (openedPos (pos p) (lvl p) (prevTotal E w lv p.peer k) f.idx) fun j hj =>
      (hy.openedPos_le hp hr hj).1.trans (hwrap p.peer (lv j).kp.pk).le
  have hlanek : Lane (lvl p + 2) k := ⟨hp.one_le, by omega, by omega⟩
  have hposk : openedPos (pos p) (lvl p) (prevTotal E w lv p.peer k) f.idx k = f.idx + 1 := by
    rw [openedPos, if_pos hr]
  have hpos0 : pos p k = 0 := hy.pos_new p k (by omega)
  -- the chain before, when there is one
  have hlane1 : 2 ≤ lvl p → Lane (lvl p + 2) (lvl p - 1) := fun h => ⟨by omega, by omega, by omega⟩
  have hpos1 : 2 ≤ lvl p → openedPos (pos p) (lvl p) (prevTotal E w lv p.peer k) f.idx
      (lvl p - 1) = prevTotal E w lv p.peer k := fun h => by
    rw [openedPos, if_neg (by omega), if_pos (by omega)]
  have hcur := fun h => (hy.pos_cur p h).1
  refine (hy.ledger p).advance _ k f.idx ?_ ?_ ?_ hdist ?_ ?_ ?_ hlanek (by omega)
    (by omega) hAcc hgrow.sub hgrow.kept fun x hx => hgrow.lost_mono _ hx
  · rintro j ⟨h1, h2, h3⟩
    exact ⟨h1, by omega, by omega⟩
  · rintro j ⟨h1, h2, h3⟩
    unfold openedPos
    split_ifs with ha hb
    · omega
    · have h2r : 2 ≤ lvl p := by omega
      obtain rfl : j = lvl p - 1 := by omega
      rw [hcur h2r]
      exact hold h2r
    · exact le_rfl
  · rintro j ⟨h1, h2, h3⟩ hno
    refine hy.pos_new p j ?_
    by_contra hlt
    exact hno ⟨h1, by omega, by omega⟩
  · intro x hx
    rcases List.mem_append.mp hx with hx | hx
    · by_cases h2r : 2 ≤ lvl p
      · rw [if_pos h2r] at hx
        obtain ⟨m, hm, hm', rfl⟩ := mem_keysFrom_ticket.mp hx
        have h1 := hold h2r
        have h2 := hcur h2r
        have h3 := hpos1 h2r
        exact ⟨lvl p - 1, m, hlane1 h2r, by omega, by omega, by omega, rfl⟩
      · rw [if_neg h2r] at hx
        cases hx
    · obtain ⟨m, -, hm', rfl⟩ := mem_keysFrom_ticket.mp hx
      exact ⟨k, m, hlanek, by omega, by omega, by omega, rfl⟩
  · refine List.nodup_append.mpr ⟨?_, nodup_keysFrom hdist hlanek (by omega), ?_⟩
    · split_ifs with h2r
      · have h1 := hold h2r
        have h3 := hpos1 h2r
        exact nodup_keysFrom hdist (hlane1 h2r) (by omega)
      · exact List.nodup_nil
    · rintro x hx y hy' rfl
      split_ifs at hx with h2r
      · obtain ⟨m, hm, hm', rfl⟩ := mem_keysFrom_ticket.mp hx
        obtain ⟨m', -, hlt, heq⟩ := mem_keysFrom_ticket.mp hy'
        have h1 := hold h2r
        have h3 := hpos1 h2r
        have := (hdist _ _ _ _ (hlane1 h2r) hlanek (by omega) (by omega) heq).1
        omega
      · cases hx
  · intro j m hj hm hm'
    by_cases hjk : j = k
    · subst hjk
      by_cases hmn : m = f.idx
      · exact .inl ⟨rfl, hmn⟩
      · exact .inr (List.mem_append_right _ (mem_keysFrom_ticket.mpr ⟨m, by omega, by omega, rfl⟩))
    · unfold openedPos at hm'
      rw [if_neg (by omega)] at hm'
      split_ifs at hm' with h1
      · have hj1 := hj.1
        have h2r : 2 ≤ lvl p := by omega
        obtain rfl : j = lvl p - 1 := by omega
        have h2 := hcur h2r
        rw [if_pos h2r]
        exact .inr (List.mem_append_left _ (mem_keysFrom_ticket.mpr ⟨m, by omega, by omega, rfl⟩))
      · omega

/-- Accepting a frame that opens a new chain: the receiver moves up two levels. -/
theorem accept_opens {s₁ : σ} (hkp : I.genuine new.kp) (hfresh : new.kp.pk ∉ keys)
    (hbase : E.base s₁ = (ratcheted (E.base (w.st p)) (lv k) new).withRecv
      ⟨t, chainKey desc (lv k).ck (f.idx + 1), UInt32.ofNat (f.idx + 1)⟩) (hinv : t.Inv)
    (hlink : S.Link (Function.update lv (lvl p + 2) new) (lvl p + 1))
    (hext : S.Ext (Function.update lv (lvl p + 2) new) (lvl p + 2) s₁) :
    Sync S id ad sec (w.accept p s₁ i) (new.kp.pk :: keys) (Function.update lv (lvl p + 2) new)
      (Function.update lvl p (lvl p + 2)) (Function.update pos p
        (openedPos (pos p) (lvl p) (prevTotal E w lv p.peer k) f.idx)) := by
  have hpeer : lvl p.peer = lvl p + 1 := by
    have h1 := hy.adj p.peer
    rw [Party.peer_peer] at h1
    have := hp.le
    omega
  have hidx := hy.idx_lt hp
  have hw := hwrap p.peer (lv k).kp.pk
  have hpar := (hy.pending_le hp).2
  have hpos0 : pos p k = 0 := hy.pos_new p k (by omega)
  have hbooks := hy.books_opens hp hsec hwrap hr hold hgrow
  set lv' := Function.update lv (lvl p + 2) new with hlv'
  set lvl' := Function.update lvl p (lvl p + 2) with hlvl'
  set pos' := openedPos (pos p) (lvl p) (prevTotal E w lv p.peer k) f.idx with hpos'
  have hlow : ∀ j ≤ lvl p + 1, lv j = lv' j := fun j hj =>
    (Function.update_of_ne (by omega) _ _).symm
  have htop : lv' (lvl p + 2) = new := Function.update_self ..
  have hself : (w.accept p s₁ i).st p = s₁ := by simp [World.accept]
  have hother : ∀ q, q ≠ p → (w.accept p s₁ i).st q = w.st q := fun q hq => by
    simp [World.accept, hq]
  have hlself : lvl' p = lvl p + 2 := Function.update_self ..
  have hlother : ∀ q, q ≠ p → lvl' q = lvl p + 1 := fun q hq => by
    rw [hlvl', Function.update_of_ne hq, Party.ne_iff_eq_peer.mp hq, hpeer]
  have hlkeep : ∀ q, q ≠ p → lvl' q = lvl q := fun q hq => Function.update_of_ne hq _ _
  have hpself : Function.update pos p pos' p = pos' := Function.update_self ..
  have hpother : ∀ q, q ≠ p → Function.update pos p pos' q = pos q := fun q hq =>
    Function.update_of_ne hq _ _
  -- a level in reach is an old one or the new one
  have hreach : ∀ {q j}, j ≤ lvl' q → j ≤ lvl p.peer ∨ j = lvl p + 2 := by
    intro q j hj
    by_cases hq : q = p
    · rw [hq, hlself] at hj
      omega
    · rw [hlother q hq] at hj
      omega
  have hprev : ∀ q j, j ≤ lvl p + 1 →
      prevTotal E (w.accept p s₁ i) lv' q j = prevTotal E w lv q j := by
    intro q j hj
    unfold prevTotal
    split_ifs
    · rfl
    · rw [← hlow _ (by omega)]
      rfl
  have hacc : ∀ q j m, AcceptedAt E (w.accept p s₁ i) lv' lvl' q j m ↔
      AcceptedAt E w lv lvl q j m ∨ (q = p ∧ j = k ∧ m = f.idx) := by
    intro q j m
    rw [← hy.acceptedAt_iff hp (s := s₁)]
    by_cases hq : q = p
    · subst hq
      have hle : lvl' q.peer = lvl q.peer := hlkeep _ (Party.peer_ne q)
      simp only [AcceptedAt, hle]
      refine and_congr_right fun hj => ?_
      rw [hlow j (by omega)]
    · obtain rfl := Party.ne_iff_eq_peer.mp hq
      simp only [AcceptedAt, Party.peer_peer, hlself]
      constructor
      · rintro ⟨⟨h1, hj⟩, x, hx, g, hg, hon, hm⟩
        by_cases hj2 : j = lvl p + 2
        · -- nothing was sent on the new level
          rw [hj2, htop] at hon
          have := List.countP_eq_zero.mp (hy.total_fresh hfresh p) g (List.mem_of_getElem? hg)
          simp only [decide_eq_true_eq] at this
          exact absurd hon this
        · rw [← hlow j (by omega)] at hon
          obtain ⟨j', hj1', hle, hp', hat⟩ := hy.sent g (List.mem_of_getElem? hg)
          rw [hon.1] at hle
          have hjj := hy.inj p p.peer j' j hle (by omega)
            ((FrameAt.chain hat).symm.trans hon.2)
          exact ⟨⟨h1, by omega⟩, x, hx, g, hg, hon, hm⟩
      · rintro ⟨⟨h1, hj⟩, x, hx, g, hg, hon, hm⟩
        rw [hlow j (by omega)] at hon
        exact ⟨⟨h1, by omega⟩, x, hx, g, hg, hon, hm⟩
  refine {
    par := ?_, adj := ?_, root := ?_, link := ?_, genuine := ?_, used := ?_, inj := ?_,
    base := ?_, ext := ?_, ns := ?_, pn := ?_, log := hy.log.accept hp.get, sent := ?_,
    nodup := ?_, ledger := ?_, pos_cur := ?_, pos_old := ?_, pos_le := ?_, pos_new := ?_,
    opened := ?_ }
  · intro q
    by_cases hq : q = p
    · rw [hq, hlself, ← hy.par p]
      omega
    · rw [hlkeep q hq]
      exact hy.par q
  · intro q
    by_cases hq : q = p
    · rw [hq, hlself, hlother _ (Party.peer_ne p)]
    · obtain rfl := Party.ne_iff_eq_peer.mp hq
      rw [Party.peer_peer, hlself, hlother _ hq]
      omega
  · rw [← hlow 0 (by omega)]
    exact hy.root
  · intro q ℓ hℓ
    by_cases h : ℓ = lvl p + 1
    · rw [h]
      exact hlink
    · have hlt : ℓ < lvl p.peer := by
        rcases hreach hℓ.le with h1 | h1
        · omega
        · by_cases hq : q = p
          · rw [hq, hlself] at hℓ
            omega
          · rw [hlother q hq] at hℓ
            omega
      exact S.link_congr (fun j hj => hlow j (by omega)) (hy.link p.peer ℓ hlt)
  · intro q ℓ hℓ
    rcases hreach hℓ with h | rfl
    · rw [← hlow ℓ (by omega)]
      exact hy.genuine p.peer ℓ h
    · rw [htop]
      exact hkp
  · intro q ℓ hℓ
    rcases hreach hℓ with h | rfl
    · rw [← hlow ℓ (by omega)]
      exact List.mem_cons_of_mem _ (hy.used p.peer ℓ h)
    · rw [htop]
      exact List.mem_cons_self
  · intro q q' a b ha hb hab
    rcases hreach ha with ha | rfl <;> rcases hreach hb with hb | rfl
    · rw [← hlow a (by omega), ← hlow b (by omega)] at hab
      exact hy.inj p.peer p.peer a b ha hb hab
    · rw [← hlow a (by omega), htop] at hab
      exact absurd (hab ▸ hy.used p.peer a ha) hfresh
    · rw [← hlow b (by omega), htop] at hab
      exact absurd (hab ▸ hy.used p.peer b hb) hfresh
    · rfl
  · intro q
    by_cases hq : q = p
    · rw [hq, hlself, hself, hbase, hr]
      exact (hy.base p).ratcheted new hinv (by rw [hr] at hidx hw; omega)
    · rw [hlkeep q hq, hother q hq]
      have := hlother q hq
      exact (hy.base q).congr fun j hj => hlow j (by rw [← hlkeep q hq] at hj; omega)
  · intro q
    by_cases hq : q = p
    · rw [hq, hlself, hself]
      exact hext
    · rw [hlkeep q hq, hother q hq]
      have := hlother q hq
      exact S.ext_congr (.of_eq fun j hj => hlow j (by rw [← hlkeep q hq] at hj; omega)) (hy.ext q)
  · intro q
    by_cases hq : q = p
    · have h0 : (w.accept p s₁ i).total E p new.kp.pk = 0 := hy.total_fresh hfresh p
      rw [hq, hlself, hself, hbase, htop, h0]
      rfl
    · have := hlother q hq
      rw [hother q hq, ← hlow _ (by omega), hlkeep q hq]
      exact hy.ns q
  · intro q
    by_cases hq : q = p
    · have hpn : prevTotal E (w.accept p s₁ i) lv' p (lvl p + 2) =
          w.total E p (lv (lvl p)).kp.pk := by
        rw [prevTotal, if_neg (by omega), Nat.add_sub_cancel, ← hlow _ (by omega)]
        rfl
      rw [hq, hlself, hself, hbase, hpn]
      exact hy.ns p
    · have := hlother q hq
      rw [hother q hq, hprev _ _ (by omega), hlkeep q hq]
      exact hy.pn q
  · intro g hg
    obtain ⟨j, hj1, hj, hjp, hat⟩ := hy.sent g hg
    have hj' : j ≤ lvl p + 1 := by
      by_cases hq : g.sender = p
      · rw [hq] at hj
        omega
      · have := hlother _ hq
        rw [← hlkeep _ hq] at hj
        omega
    have hlow' : ∀ x ≤ j, lv x = lv' x := fun x hx => hlow x (hx.trans hj')
    refine ⟨j, hj1, ?_, hjp, hat.base.congr hlow', S.ext_congr (.of_eq hlow') hat.ext, hat.ns, ?_⟩
    · by_cases hq : g.sender = p
      · rw [hq, hlself]
        rw [hq] at hj
        omega
      · rw [hlkeep _ hq]
        exact hj
    · rw [hprev _ _ hj']
      exact Sealed.congr S hlow' hat.frame
  · refine List.nodup_append.mpr ⟨hy.nodup, List.nodup_singleton i, ?_⟩
    rintro x hx y hy' rfl
    rw [List.mem_singleton.mp hy', hy.mem_accepted_iff hp] at hx
    have := ((hy.ledger p).acc_lt _ _ hx).2
    omega
  · intro q
    by_cases hq : q = p
    · rw [hq, hlself, hself, hpself, hbase]
      refine (hbooks _ fun j m => ?_).congr fun j m hj =>
        ticket_congr hlow (by have := hj.2.1; omega) m
      rw [hacc]
      simp
    · have := hlother q hq
      rw [hlkeep q hq, hother q hq, hpother q hq]
      have hAcc : AcceptedAt E (w.accept p s₁ i) lv' lvl' q = AcceptedAt E w lv lvl q := by
        funext j m
        rw [hacc]
        simp [hq]
      rw [hAcc]
      exact (hy.ledger q).congr fun j m hj =>
        ticket_congr hlow (by have := hj.2.1; rw [← hlkeep q hq] at this; omega) m
  · intro q hq2
    by_cases hq : q = p
    · have hnil := hy.acceptedOn_eq_nil hp hpos0
      have hon : f.On E p.peer (lv k).kp.pk := (hy.on_iff hp hp.le).mpr ⟨rfl, rfl⟩
      have hpk : pos' k = f.idx + 1 := by rw [hpos', openedPos, if_pos hr]
      have hnr : (UInt32.ofNat (f.idx + 1)).toNat = f.idx + 1 := by
        rw [UInt32.toNat_ofNat', Nat.mod_eq_of_lt (by omega)]
      rw [hq, hlself, hself, hpself, hbase, show lvl p + 2 - 1 = k by omega, ← hlow k (by omega),
        hpk, World.passed_accept hp.get, if_pos hon, World.passed, hnil]
      exact ⟨hnr.symm, by simp⟩
    · have hlq := hlother q hq
      rw [hlkeep q hq] at hq2 hlq ⊢
      rw [hother q hq, hpother q hq, ← hlow _ (by omega), World.passed_accept hp.get, if_neg]
      · exact hy.pos_cur q hq2
      · rintro ⟨hs, -⟩
        rw [hp.sender] at hs
        exact hq (by rw [← Party.peer_peer q, ← hs, Party.peer_peer])
  · intro q j hj hlt
    by_cases hq : q = p
    · rw [hq] at hj hlt ⊢
      rw [hlself] at hj hlt
      rw [hpself, ← hlow j (by omega)]
      exact (hy.openedPos_le hp hr hj).2 hlt
    · have hlq := hlother q hq
      rw [hlkeep q hq] at hj hlt hlq
      rw [hpother q hq, ← hlow j (by omega)]
      exact hy.pos_old q j hj hlt
  · intro q j hj
    by_cases hq : q = p
    · rw [hq] at hj ⊢
      rw [hlself] at hj
      rw [hpself, ← hlow j (by have := hj.2.1; omega)]
      exact (hy.openedPos_le hp hr hj).1
    · have hlq := hlother q hq
      rw [hlkeep q hq] at hj hlq
      rw [hpother q hq, ← hlow j (by have := hj.2.1; omega)]
      exact hy.pos_le q j hj
  · intro q j hj
    by_cases hq : q = p
    · rw [hq] at hj ⊢
      rw [hlself] at hj
      rw [hpself, hpos', openedPos, if_neg (by omega), if_neg (by omega)]
      exact hy.pos_new p j (by omega)
    · rw [hlkeep q hq] at hj
      rw [hpother q hq]
      exact hy.pos_new q j hj
  · intro q j hj hnil
    rw [World.acceptedOn_accept hp.get] at hnil
    obtain ⟨h1, h2⟩ := List.append_eq_nil_iff.mp hnil
    by_cases hq : q = p
    · rw [hq] at hj h1 h2
      rw [hlself] at hj
      have hj2 := hj.2.1
      have hj3 := hj.2.2
      rw [← hlow j (by omega)] at h1 h2
      by_cases hjk : j = k
      · rw [hjk, if_pos ((hy.on_iff hp hp.le).mpr ⟨rfl, rfl⟩)] at h2
        cases h2
      · exact hy.opened p j ⟨hj.1, by omega, by omega⟩ h1
    · have hlq := hlother q hq
      rw [hlkeep q hq] at hj hlq
      rw [← hlow j (by have := hj.2.1; omega)] at h1
      exact hy.opened q j hj h1

end Sync
end Geryon
