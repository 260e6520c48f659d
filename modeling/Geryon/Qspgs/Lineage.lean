import Geryon.Qspgs.Sample

/-!
# The versions a member accepts

A member fetches with the view it retained of its last fetch. What a sequence of accepted answers
can do: the major version stays or grows by one, and a core of the next major is signed by an admin
of the retained view. On the same major the fetch compares the last minor version only; it takes any
core that one of its own lines marked admin has signed.
-/

namespace Geryon

variable {β : Type} [Octet β] [DecidableEq β] [KrMlDsa β] [Sodium β] [JoinKem β]

/-- An accepted fetch: the opened core with its appendix, and the report. -/
structure Accepted (β : Type) where
  opened : OpenedCore β
  result : FetchResult β

namespace Accepted

/-- The core of an accepted fetch. -/
def core (a : Accepted β) : QspgsCore β := a.opened.core

/-- The view a caller retains of an accepted fetch. -/
def prior (a : Accepted β) : PriorView β where
  vmaj := a.core.vmaj
  vmin := a.core.lastVmin
  apxLineCount := UInt32.ofNat a.opened.apx.lines.length
  members := a.result.members

/-- The users with an admin line in the core of an accepted fetch. -/
def IsAdmin (desc : SuiteDesc β) (a : Accepted β) (uid : Bytes β) : Prop :=
  ∃ m ∈ a.core.members, m.admn = true ∧ ∃ v,
    gyQspgsMemberDecrypt desc a.core.aeadId a.opened.sub.ek a.core.gid m = .ok v ∧ v.uid = uid

end Accepted

/-- A fetch with the given prior view accepts. The answer, the accounts, the buffers and the state
of the client are arbitrary. -/
def AcceptedWith (c : QsCustodian β) (prior : PriorView β) (a : Accepted β) : Prop :=
  ∃ ans accts caps w w', gyCustodianQsgroupFetch c ans prior accts caps w =
    (.ok (a.opened, a.result), w')

/-- The accepted fetches of a member, the last one first: each is made with the view of the one
before, and the first one with any view. Refused answers leave no trace. -/
inductive FetchRun (c : QsCustodian β) : List (Accepted β) → Prop
  | first {prior : PriorView β} {a : Accepted β} (h : AcceptedWith c prior a) : FetchRun c [a]
  | next {a b : Accepted β} {hist : List (Accepted β)} (hist_run : FetchRun c (a :: hist))
      (h : AcceptedWith c a.prior b) : FetchRun c (b :: a :: hist)

/-! ## The roster of a fetch -/

/-- Every admin of a working set is one of the given views. -/
def AdminsFrom (views : List (MemberView β)) (work : List (FetchWork β)) : Prop :=
  ∀ x ∈ work, x.view.admn = true → ∃ v ∈ views, v.admn = true ∧ v.uid = x.view.uid

namespace AdminsFrom

variable {views : List (MemberView β)} {work work' : List (FetchWork β)} {desc : SuiteDesc β}
  {core : QspgsCore β} {ek : Bytes β} {line : ApxLine β}

omit [Octet β] [DecidableEq β] [KrMlDsa β] [Sodium β] [JoinKem β] in
/-- At first the admins are those of the core. -/
theorem ofView : AdminsFrom views (views.map FetchWork.ofView) := by
  intro x hx hadmn
  obtain ⟨v, hv, rfl⟩ := List.mem_map.1 hx
  refine ⟨v, hv, ?_⟩
  unfold FetchWork.ofView at hadmn ⊢
  split at hadmn
  · next hp => simpa [hp] using hadmn
  · next hp => simpa [hp] using hadmn

omit [Octet β] [DecidableEq β] [KrMlDsa β] [Sodium β] [JoinKem β] in
/-- Changing an entry without its user and its admin flag changes no admin. -/
theorem modify (h : AdminsFrom views work) (j : Nat) {f : FetchWork β → FetchWork β}
    (hadmn : ∀ x, (f x).view.admn = x.view.admn) (huid : ∀ x, (f x).view.uid = x.view.uid) :
    AdminsFrom views (work.modify j f) := by
  intro x hx hx'
  obtain ⟨i, hi⟩ := List.mem_iff_getElem?.1 hx
  rw [List.getElem?_modify, Option.map_eq_map, Option.map_eq_some_iff] at hi
  obtain ⟨y, hy, rfl⟩ := hi
  have hmem : y ∈ work := List.mem_of_getElem? hy
  split at hx'
  · next hij =>
    rw [hadmn] at hx'
    rw [if_pos hij, huid]
    exact h y hmem hx'
  · next hij =>
    rw [if_neg hij]
    exact h y hmem hx'

omit [DecidableEq β] [KrMlDsa β] [JoinKem β] in
/-- A newcomer is no admin. -/
theorem append (h : AdminsFrom views work)
    (hrun : fetchAppend desc core ek work line = .ok work') : AdminsFrom views work' := by
  unfold fetchAppend at hrun
  split at hrun
  · split at hrun
    · cases hrun
    obtain ⟨t, -, hrun⟩ := Except.bind_eq_ok_iff.1 hrun
    obtain rfl := Except.ok.inj hrun
    intro x hx hadmn
    rcases List.mem_append.1 hx with hx | hx
    · exact h x hx hadmn
    · -- a newcomer is no admin
      obtain rfl := List.mem_singleton.1 hx
      cases hadmn
  · obtain rfl := Except.ok.inj hrun
    exact h

omit [DecidableEq β] [KrMlDsa β] [JoinKem β] in
/-- A refresh changes no flag. -/
theorem refresh {n : Nat} (h : AdminsFrom views work)
    (hrun : fetchRefresh desc core ek n work line = .ok work') : AdminsFrom views work' := by
  unfold fetchRefresh at hrun
  dsimp only at hrun
  split at hrun
  · obtain ⟨uk, -, hrun⟩ := Except.bind_eq_ok_iff.1 hrun
    obtain rfl := Except.ok.inj hrun
    exact h.modify _ (fun _ => rfl) fun _ => rfl
  · obtain rfl := Except.ok.inj hrun
    exact h

omit [Octet β] [DecidableEq β] [KrMlDsa β] [Sodium β] [JoinKem β] in
/-- Nor does a leave line. -/
theorem leave {n : Nat} (h : AdminsFrom views work) (line : ApxLine β) :
    AdminsFrom views (fetchLeave n work line) := by
  unfold fetchLeave
  dsimp only
  split
  · exact h.modify _ (fun _ => rfl) fun _ => rfl
  · exact h

omit [KrMlDsa β] in
/-- Nor does settling an entry. -/
theorem settle {gid : Bytes β} {entries : List (Bytes β)} {accts : List (AcctRef β)}
    (h : AdminsFrom views work)
    (hrun : work.mapM' (fetchSettle desc gid entries accts) = .ok work') :
    AdminsFrom views work' := by
  intro x hx hadmn
  obtain ⟨y, hy, hyx⟩ := (Except.mapM'_eq_ok_iff.1 hrun).exists_left hx
  have hsame : x.view.admn = y.view.admn ∧ x.view.uid = y.view.uid := by
    unfold fetchSettle at hyx
    split at hyx
    · obtain ⟨s, -, hyx⟩ := Except.bind_eq_ok_iff.1 hyx
      cases s with
      | none =>
        obtain rfl := Except.ok.inj hyx
        exact ⟨rfl, rfl⟩
      | some p =>
        obtain rfl := Except.ok.inj hyx
        exact ⟨rfl, rfl⟩
    · obtain rfl := Except.ok.inj hyx
      exact ⟨rfl, rfl⟩
  rw [hsame.1] at hadmn
  rw [hsame.2]
  exact h y hy hadmn

omit [KrMlDsa β] in
/-- The passes of a fetch make nobody an admin. -/
theorem apply {queue attr attr' : Bytes β} {accts : List (AcctRef β)} {valid : List (ApxLine β)}
    (h : fetchApply desc core ek queue accts views attr valid = .ok (work, attr')) :
    AdminsFrom views work := by
  unfold fetchApply at h
  obtain ⟨work₁, h₁, h⟩ := Except.bind_eq_ok_iff.1 h
  obtain ⟨work₂, h₂, h⟩ := Except.bind_eq_ok_iff.1 h
  obtain ⟨_, -, h⟩ := Except.bind_eq_ok_iff.1 h
  obtain ⟨work₃, h₃, h⟩ := Except.bind_eq_ok_iff.1 h
  obtain ⟨rfl, -⟩ := Prod.ext_iff.1 (Except.ok.inj h)
  have hfrom₁ : AdminsFrom views work₁ :=
    Except.foldlM_invariant _ (fun _ _ _ _ hb hrun => hb.append hrun) .ofView h₁
  have hfrom₂ : AdminsFrom views work₂ :=
    Except.foldlM_invariant _ (fun _ _ _ _ hb hrun => hb.refresh hrun) hfrom₁ h₂
  have hleft : AdminsFrom views (valid.foldl (fetchLeave core.members.length) work₂) :=
    List.foldlRecOn _ _ hfrom₂ fun _ hb line _ => hb.leave line
  unfold fetchQueue at h₃
  split at h₃
  · obtain rfl := Except.ok.inj h₃
    exact hleft
  · obtain ⟨entries, -, h₃⟩ := Except.bind_eq_ok_iff.1 h₃
    exact hleft.settle h₃

end AdminsFrom

/-- Every admin a fetch reports has an admin line in the core. -/
theorem fetchFold_admins {c : QsCustodian β} {ans : GroupAnswer β} {accts : List (AcctRef β)}
    {caps : FetchCaps} {o : OpenedCore β} {r : FetchResult β} {w w' : QsWorld β}
    (h : fetchFold c ans accts caps o w = (.ok r, w')) {x : RosterView β} (hx : x ∈ r.members)
    (hadmn : x.admn = true) : Accepted.IsAdmin c.desc ⟨o, r⟩ x.uid := by
  unfold fetchFold at h
  obtain ⟨views, hviews, h⟩ := Cmd.lift_bind_eq_ok_iff.1 h
  obtain ⟨hdrpt, -, h⟩ := Cmd.lift_bind_eq_ok_iff.1 h
  obtain ⟨checked, w₁, -, h⟩ := Cmd.bind_eq_ok_iff.1 h
  obtain ⟨⟨work, attr⟩, happly, h⟩ := Cmd.lift_bind_eq_ok_iff.1 h
  obtain ⟨_, w₂, -, h⟩ := Cmd.bind_eq_ok_iff.1 h
  have hr : r.members = (work.filter fun w => !w.removed).map FetchWork.view := by
    rw [Cmd.ite_apply] at h
    split at h
    · cases h
    rw [Cmd.ite_apply] at h
    split at h
    · cases h
    obtain rfl := Except.ok.inj (congrArg Prod.fst h)
    rfl
  rw [hr] at hx
  obtain ⟨y, hy, rfl⟩ := List.mem_map.1 hx
  obtain ⟨v, hv, hva, hvu⟩ := AdminsFrom.apply happly y (List.mem_of_mem_filter hy) hadmn
  obtain ⟨m, hm, hmv⟩ := (Except.mapM'_eq_ok_iff.1 hviews).exists_left hv
  exact ⟨m, hm, (gyQspgsMemberDecrypt_admn hmv).symm.trans hva, v, hmv, hvu⟩

/-! ## One step -/

/-- A member that accepted `a` goes on to `b` safely: the core stays the one already accepted, or
the major version grows by one and the signer is an admin of the retained view. -/
def StepSafe (a b : Accepted β) : Prop :=
  (b.core.vmaj = a.core.vmaj ∧ b.core = a.core) ∨
    (b.core.vmaj.toNat = a.core.vmaj.toNat + 1 ∧
      ∃ m ∈ a.result.members, m.admn = true ∧ m.uid = b.opened.signer.uid)

/-- The server answers a major version with one core only. -/
def SameCore (a b : Accepted β) : Prop := b.core.vmaj = a.core.vmaj → b.core = a.core

omit [Octet β] [KrMlDsa β] [Sodium β] [JoinKem β] in
/-- What the lineage check lets pass with a prior view. -/
theorem lineageCheck_ok {core : QspgsCore β} {uid : Bytes β} {prior : PriorView β}
    (hprior : prior.members ≠ []) (h : lineageCheck core uid true prior = .ok ()) :
    (core.vmaj = prior.vmaj ∧ prior.vmin ≤ core.lastVmin) ∨
      (core.vmaj.toNat = prior.vmaj.toNat + 1 ∧ core.lastVmin = prior.apxLineCount ∧
        ∃ m ∈ prior.members, m.admn = true ∧ m.uid = uid) := by
  unfold lineageCheck at h
  rw [if_neg (by simp), if_neg hprior] at h
  split at h
  · cases h
  next hroll =>
  obtain ⟨hge, hmin⟩ := not_or.1 hroll
  split at h
  · cases h
  next hskip =>
  split at h
  · next hnext =>
    split at h
    · cases h
    next hvmin =>
    split at h
    · next hany =>
      obtain ⟨m, hm, hma⟩ := List.any_eq_true.1 hany
      have hma' : m.admn = true ∧ m.uid = uid := by simpa using hma
      refine .inr ⟨?_, not_not.1 hvmin, m, hm, hma'⟩
      -- the successor does not wrap: a wrapped one is below the prior major
      have hge' : prior.vmaj.toNat ≤ core.vmaj.toNat :=
        UInt32.le_iff_toNat_le.1 (UInt32.not_lt.1 hge)
      have hval : core.vmaj.toNat = (prior.vmaj.toNat + 1) % 2 ^ 32 := by
        rw [hnext, UInt32.toNat_add]
        rfl
      have hlt := prior.vmaj.toNat_lt
      omega
    · cases h
  · next hnext =>
    refine .inl ?_
    have hge' : prior.vmaj.toNat ≤ core.vmaj.toNat := UInt32.le_iff_toNat_le.1 (UInt32.not_lt.1 hge)
    have hle : core.vmaj.toNat ≤ (prior.vmaj + 1).toNat :=
      UInt32.le_iff_toNat_le.1 (UInt32.not_lt.1 hskip)
    have hne : core.vmaj.toNat ≠ (prior.vmaj + 1).toNat := fun heq => hnext (UInt32.toNat_inj.1 heq)
    have hval : (prior.vmaj + 1).toNat = (prior.vmaj.toNat + 1) % 2 ^ 32 := UInt32.toNat_add _ _
    have hlt := prior.vmaj.toNat_lt
    have heq : core.vmaj = prior.vmaj := UInt32.toNat_inj.1 (by omega)
    exact ⟨heq, UInt32.not_lt.1 fun hlt' => hmin ⟨heq, hlt'⟩⟩

/-- What an accepted fetch has passed. -/
theorem AcceptedWith.opened {c : QsCustodian β} {prior : PriorView β} {a : Accepted β}
    (h : AcceptedWith c prior a) :
    a.opened.signer.admn = true ∧ lineageCheck a.core a.opened.signer.uid true prior = .ok () ∧
      ∀ x ∈ a.result.members, x.admn = true → a.IsAdmin c.desc x.uid := by
  obtain ⟨ans, accts, caps, w, w', h⟩ := h
  obtain ⟨o, w₁, ho, h⟩ := Cmd.bind_eq_ok_iff.1 h
  obtain ⟨r, w₂, hr, h⟩ := Cmd.bind_eq_ok_iff.1 h
  obtain ⟨rfl, rfl⟩ := Prod.ext_iff.1 (Except.ok.inj (congrArg Prod.fst h))
  obtain ⟨-, gk, -, -, hadmn, hlin⟩ := fetchOpen_ok ho
  exact ⟨hadmn, hlin, fun x hx hxa => fetchFold_admins hr hx hxa⟩

/-- A step is safe if and only if an answer with the same major version brings the core already
accepted. -/
theorem stepSafe_iff {c : QsCustodian β} {a b : Accepted β} (hview : a.result.members ≠ [])
    (h : AcceptedWith c a.prior b) : StepSafe a b ↔ SameCore a b := by
  constructor
  · rintro (⟨-, hcore⟩ | ⟨hvmaj, -⟩) hsame
    · exact hcore
    · rw [hsame] at hvmaj
      omega
  · intro hsame
    rcases lineageCheck_ok hview h.opened.2.1 with ⟨hvmaj, -⟩ | ⟨hvmaj, -, hsigner⟩
    · exact .inl ⟨hvmaj, hsame hvmaj⟩
    · exact .inr ⟨hvmaj, hsigner⟩

/-! ## Runs -/

/-- A newer state never lies before an older one: its major version is no smaller, and an equal one
brings the same core. -/
def NotOlder (newer older : Accepted β) : Prop :=
  older.core.vmaj.toNat ≤ newer.core.vmaj.toNat ∧
    (newer.core.vmaj = older.core.vmaj → newer.core = older.core)

/-- The core stays, or its signer has an admin line in the core accepted before. -/
def SignedByAdmin (desc : SuiteDesc β) (a b : Accepted β) : Prop :=
  b.core = a.core ∨ a.IsAdmin desc b.opened.signer.uid

/-- A relation between consecutive fetches of a history, the last one first. -/
def Steps (R : Accepted β → Accepted β → Prop) : List (Accepted β) → Prop :=
  List.IsChain fun b a => R a b

omit [Octet β] [DecidableEq β] [KrMlDsa β] [Sodium β] [JoinKem β] in
/-- Not being older is transitive. -/
theorem NotOlder.trans {x y z : Accepted β} (hxy : NotOlder x y) (hyz : NotOlder y z) :
    NotOlder x z := by
  refine ⟨hyz.1.trans hxy.1, fun heq => ?_⟩
  -- the middle major version lies between two equal ones
  have hmid : y.core.vmaj = z.core.vmaj := by
    have hx := congrArg UInt32.toNat heq
    have h₁ := hxy.1
    have h₂ := hyz.1
    exact UInt32.toNat_inj.1 (by omega)
  rw [hxy.2 (heq.trans hmid.symm), hyz.2 hmid]

omit [Octet β] [DecidableEq β] [KrMlDsa β] [Sodium β] [JoinKem β] in
/-- A safe step does not go back. -/
theorem StepSafe.notOlder {a b : Accepted β} (h : StepSafe a b) : NotOlder b a := by
  rcases h with ⟨hvmaj, hcore⟩ | ⟨hvmaj, -⟩
  · exact ⟨by rw [hvmaj], fun _ => hcore⟩
  · refine ⟨by omega, fun heq => ?_⟩
    rw [heq] at hvmaj
    omega

/-- A relation of consecutive fetches that every accepted step has holds along a run. -/
theorem FetchRun.steps {c : QsCustodian β} {R S : Accepted β → Accepted β → Prop}
    {hist : List (Accepted β)} (hrun : FetchRun c hist)
    (hviews : ∀ a ∈ hist.tail, a.result.members ≠ [])
    (hstep : ∀ a b prior, a.result.members ≠ [] → AcceptedWith c prior a →
      AcceptedWith c a.prior b → R a b → S a b)
    (h : Steps R hist) : Steps S hist := by
  induction hrun with
  | first _ => exact .singleton _
  | @next a b hist hprev hb ih =>
    obtain ⟨hR, htail⟩ := List.isChain_cons_cons.1 h
    have ha : ∃ prior, AcceptedWith c prior a := by
      cases hprev with
      | first ha => exact ⟨_, ha⟩
      | next _ ha => exact ⟨_, ha⟩
    obtain ⟨prior, ha⟩ := ha
    have hprior := ih (fun x hx => hviews x (List.mem_cons_of_mem _ hx)) htail
    exact .cons_cons (hstep a b prior (hviews a List.mem_cons_self) ha hb hR) hprior

/-- Along every run of fetches with retained views, every step is safe (the accepted core stays, or
the major version grows by one and the signer was an admin in the retained view) if and only if no
answer brings a second core for a major version already accepted; and then no older state is ever
accepted, and every new core is signed by a user with an admin line in the core accepted before. -/
theorem fetch_lineage {c : QsCustodian β} {hist : List (Accepted β)} (hrun : FetchRun c hist)
    (hviews : ∀ a ∈ hist.tail, a.result.members ≠ []) :
    (Steps StepSafe hist ↔ Steps SameCore hist) ∧
      (Steps SameCore hist →
        hist.Pairwise NotOlder ∧ Steps (SignedByAdmin c.desc) hist) := by
  have hsafe : Steps SameCore hist → Steps StepSafe hist :=
    hrun.steps hviews fun a b _ hview _ hb hsame => (stepSafe_iff hview hb).2 hsame
  refine ⟨⟨hrun.steps hviews fun a b _ hview _ hb hstep => (stepSafe_iff hview hb).1 hstep, hsafe⟩,
    fun hsame => ⟨?_, ?_⟩⟩
  · have hchain : hist.IsChain NotOlder := (hsafe hsame).imp fun b a hstep => hstep.notOlder
    have : IsTrans (Accepted β) NotOlder := ⟨fun _ _ _ => NotOlder.trans⟩
    exact hchain.pairwise
  · refine hrun.steps hviews (fun a b prior _ ha _ hstep => ?_) (hsafe hsame)
    rcases hstep with ⟨-, hcore⟩ | ⟨-, m, hm, hma, hmu⟩
    · exact .inl hcore
    · have hadmin := ha.opened.2.2 m hm hma
      rw [hmu] at hadmin
      exact .inr hadmin

section Sample

open Sample

/-- No retained view. -/
def noPrior : PriorView Sym := ⟨0, 0, 0, []⟩

/-- User 0 fetches the first version of its group. -/
def pairAccepted : Accepted Sym :=
  ⟨opened pairCore (gk 0) 0 ⟨0, true, false⟩,
    ⟨[⟨0, true, false⟩, ⟨1, false, false⟩].map Line.report, [], []⟩⟩

/-- The pair is accepted by a client without a prior view. -/
theorem pairAccepted_first : AcceptedWith (custodian 0) noPrior pairAccepted :=
  ⟨_, [], _, _, _, (knows_world 0 (gk 0)).fetch (length_gk 0) pairCore_wf (by decide) (by decide)
    (l := ⟨0, true, false⟩) rfl rfl rfl []⟩

/-- And again by one that has it. -/
theorem pairAccepted_again : AcceptedWith (custodian 0) pairAccepted.prior pairAccepted :=
  ⟨_, [], _, _, _, (knows_world 0 (gk 0)).fetch (length_gk 0) pairCore_wf (by decide) (by decide)
    (l := ⟨0, true, false⟩) rfl rfl rfl []⟩

/-- The next version of the group: user 0 has made user 1 an admin too. -/
def raisedCore : QspgsCore Sym :=
  core (gk 0) 2 0 [Sym.byte 0] [] [⟨0, true, false⟩, ⟨1, true, false⟩]

/-- The successor is well formed. -/
theorem raisedCore_wf : raisedCore.Wf qsSuite := core_wf (by decide) (by decide) (by decide)

/-- User 0 fetches the version after the one it retains. -/
def raisedAccepted : Accepted Sym :=
  ⟨opened raisedCore (gk 0) 0 ⟨0, true, false⟩,
    ⟨[⟨0, true, false⟩, ⟨1, true, false⟩].map Line.report, [], []⟩⟩

/-- It is accepted after the pair. -/
theorem raisedAccepted_next : AcceptedWith (custodian 0) pairAccepted.prior raisedAccepted :=
  ⟨_, [], _, _, _, (knows_world 0 (gk 0)).fetch (length_gk 0) raisedCore_wf (by decide) (by decide)
    (l := ⟨0, true, false⟩) rfl rfl rfl []⟩

/-- A member fetches a version, fetches it again and then its successor. -/
theorem raisedAccepted_run :
    FetchRun (custodian 0) [raisedAccepted, pairAccepted, pairAccepted] :=
  .next (.next (.first pairAccepted_first) pairAccepted_again) raisedAccepted_next

/-- Along that run no major version has two cores, so every step of it is safe: nothing older is
accepted, and the second core is another one, signed by an admin of the first. -/
theorem fetch_lineage_successor :
    Steps StepSafe [raisedAccepted, pairAccepted, pairAccepted] ∧
      [raisedAccepted, pairAccepted, pairAccepted].Pairwise NotOlder ∧
      Steps (SignedByAdmin qsSuite) [raisedAccepted, pairAccepted, pairAccepted] ∧
      raisedAccepted.core.members ≠ pairAccepted.core.members := by
  have hlin := fetch_lineage raisedAccepted_run (by simp [pairAccepted])
  have hmajor : raisedAccepted.core.vmaj ≠ pairAccepted.core.vmaj := by decide
  have hsame : Steps SameCore [raisedAccepted, pairAccepted, pairAccepted] :=
    .cons_cons (fun heq => absurd heq hmajor) (.cons_cons (fun _ => rfl) (.singleton _))
  refine ⟨hlin.1.2 hsame, (hlin.2 hsame).1, (hlin.2 hsame).2, fun h => ?_⟩
  have hbits := congrArg (fun ms => ms.map QspgsMember.admn) h
  revert hbits
  show ¬ ([true, true] = [true, false])
  decide

/-- The same version of the group as user 1, an ordinary member, would have it. -/
def takenCore : QspgsCore Sym :=
  core (gk 0) 1 0 [Sym.byte 0] [] [⟨0, false, false⟩, ⟨1, true, false⟩]

/-- So is the core with the other roster. -/
theorem takenCore_wf : takenCore.Wf qsSuite := core_wf (by decide) (by decide) (by decide)

/-- User 0 fetches the core in which user 1 has made itself the admin. -/
def takenAccepted : Accepted Sym :=
  ⟨opened takenCore (gk 0) 1 ⟨1, true, false⟩,
    ⟨[⟨0, false, false⟩, ⟨1, true, false⟩].map Line.report, [], []⟩⟩

/-- It is accepted after the pair, too. -/
theorem takenAccepted_next : AcceptedWith (custodian 0) pairAccepted.prior takenAccepted :=
  ⟨_, [], _, _, _, (knows_world 0 (gk 0)).fetch (length_gk 0) takenCore_wf (by decide) (by decide)
    (i := 1) (l := ⟨1, true, false⟩) rfl rfl rfl []⟩

/-- Two answers of the same major version: after the second one the member has accepted another
roster, signed by a user that was no admin of the first. -/
theorem same_major_replaced :
    FetchRun (custodian 0) [takenAccepted, pairAccepted] ∧
      takenAccepted.core.vmaj = pairAccepted.core.vmaj ∧
      takenAccepted.core.members ≠ pairAccepted.core.members ∧
      (∀ m ∈ pairAccepted.result.members, m.uid = takenAccepted.opened.signer.uid →
        m.admn = false) ∧
      ¬ StepSafe pairAccepted takenAccepted := by
  have hmembers : takenAccepted.core.members ≠ pairAccepted.core.members := by
    intro h
    have hbits := congrArg (fun ms => ms.map QspgsMember.admn) h
    revert hbits
    show ¬ ([false, true] = [true, false])
    decide
  refine ⟨.next (.first pairAccepted_first) takenAccepted_next, rfl, hmembers, ?_, ?_⟩
  · intro m hm huid
    simp only [pairAccepted, List.map_cons, List.map_nil, List.mem_cons, List.not_mem_nil,
      or_false] at hm
    rcases hm with rfl | rfl
    · have heq : (0 : Nat) = 1 := uid_inj.1 huid
      cases heq
    · rfl
  · rintro (⟨-, hcore⟩ | ⟨hvmaj, -⟩)
    · exact hmembers (congrArg QspgsCore.members hcore)
    · exact absurd hvmaj (by decide)

end Sample

end Geryon
