import Geryon.Ratchet.Engine
import Geryon.Ratchet.Ideal
import Mathlib.Data.List.Count

/-!
# Two parties over an unreliable network

A world holds the two parties' session states, every frame produced so far and which of them the
receiver accepted. The parties encrypt in any order; the network delivers any frame produced so far
to its receiver, in any order, any number of times or not at all.

What a frame's position is and how far a receiver has got on a chain are read off the history, not
off the parties' counters.
-/

namespace Geryon

/-- The two ends of a session. -/
inductive Party where
  | alice | bob
  deriving DecidableEq, Repr

/-- The other end. -/
def Party.peer : Party → Party
  | .alice => .bob
  | .bob => .alice

@[simp] theorem Party.peer_peer (p : Party) : p.peer.peer = p := by cases p <;> rfl

/-- A party is not its own peer. -/
theorem Party.peer_ne (p : Party) : p.peer ≠ p := by cases p <;> decide

/-- There are two parties. -/
theorem Party.ne_iff_eq_peer {p q : Party} : q ≠ p ↔ q = p.peer := by
  cases p <;> cases q <;> decide

/-- A frame that was produced: who sent it, from which session state, as which message of its chain,
the plaintext and the bytes on the wire. -/
structure Sent (β σ : Type) where
  sender : Party
  from_ : σ
  idx : Nat
  pt : Bytes β
  wire : Bytes β

/-- The state of a run. -/
structure World (β σ : Type) where
  st : Party → σ
  sent : List (Sent β σ)
  accepted : List Nat

/-- One call: a party encrypts, or the network delivers the frame at a log position. The random
inputs of the call come with it. -/
inductive Event (β : Type) where
  | send (p : Party) (cap : Nat) (pt salt : Bytes β)
  | deliver (i : Nat) (rnd : RatchetRand β) (cap : Nat)

variable {β σ η : Type}

section Chains

variable [DecidableEq β] (E : Engine β σ η)

/-- The chain a frame belongs to: the ratchet public key it was sent under. -/
def Sent.chain (f : Sent β σ) : Bytes β := (E.base f.from_).dhs.pk

/-- Whether a frame was sent by `q` under the ratchet key `pk`. -/
def Sent.On (q : Party) (pk : Bytes β) (f : Sent β σ) : Prop := f.sender = q ∧ f.chain E = pk

instance (q : Party) (pk : Bytes β) (f : Sent β σ) : Decidable (f.On E q pk) :=
  inferInstanceAs (Decidable (_ ∧ _))

/-- The key a frame's payload is sealed under. -/
def Sent.msgKey [Octet β] (desc : SuiteDesc β) (f : Sent β σ) : Bytes β :=
  messageKey desc (E.base f.from_).cks

/-- How many frames `q` produced under a ratchet key. -/
def World.total (w : World β σ) (q : Party) (pk : Bytes β) : Nat :=
  w.sent.countP fun f => f.On E q pk

/-- The accepted frames that `q` sent under a ratchet key. -/
def World.acceptedOn (w : World β σ) (q : Party) (pk : Bytes β) : List (Sent β σ) :=
  (w.accepted.filterMap fun i => w.sent[i]?).filter fun f => f.On E q pk

/-- How far acceptance has got on a chain: one past the latest accepted position. -/
def World.passed (w : World β σ) (q : Party) (pk : Bytes β) : Nat :=
  ((w.acceptedOn E q pk).map fun f => f.idx + 1).foldr max 0

/-- Delivering `f` now skips at most `maxSkip` messages of its chain and, when it opens a new chain
for the receiver, at most `maxSkip` messages of the chain the receiver is on. -/
def World.WithinSkip (w : World β σ) (f : Sent β σ) : Prop :=
  if w.acceptedOn E f.sender (f.chain E) = [] then
    ((E.base (w.st f.sender.peer)).haveDhr = true →
      w.total E f.sender (E.base (w.st f.sender.peer)).dhr -
        w.passed E f.sender (E.base (w.st f.sender.peer)).dhr ≤ maxSkip) ∧ f.idx ≤ maxSkip
  else f.idx - w.passed E f.sender (f.chain E) ≤ maxSkip

end Chains

/-- A world in which a party's state was replaced, as after a call that failed. -/
def World.settle (w : World β σ) (p : Party) (s : σ) : World β σ :=
  { w with st := Function.update w.st p s }

/-- A world after a frame was added to the log. -/
def World.produce (w : World β σ) (p : Party) (s : σ) (f : Sent β σ) : World β σ :=
  { w with st := Function.update w.st p s, sent := w.sent ++ [f] }

/-- A world after a frame of the log was accepted. -/
def World.accept (w : World β σ) (p : Party) (s : σ) (i : Nat) : World β σ :=
  { w with st := Function.update w.st p s, accepted := w.accepted ++ [i] }

/-- Setting a party to its own state changes nothing. -/
theorem World.settle_self (w : World β σ) (p : Party) : w.settle p (w.st p) = w := by
  simp [World.settle]

section Steps

variable [Octet β] [DecidableEq β] [Sodium β] (E : Engine β σ η) (desc : SuiteDesc β)
  (ad : Bytes β)

/-- One call of a run. -/
def World.step (w : World β σ) : Event β → World β σ
  | .send p cap pt salt =>
    match E.encrypt desc cap pt ad (.ok salt) (w.st p) with
    | (.error _, s') => w.settle p s'
    | (.ok wire, s') =>
      w.produce p s' ⟨p, w.st p, w.total E p (E.base (w.st p)).dhs.pk, pt, wire⟩
  | .deliver i rnd cap =>
    match w.sent[i]? with
    | none => w
    | some f =>
      match E.decryptAssoc desc rnd cap f.wire ad (w.st f.sender.peer) with
      | ((.error _, _), s') => w.settle f.sender.peer s'
      | ((.ok _, _), s') => w.accept f.sender.peer s' i

/-- A finite run. -/
def World.run (w : World β σ) (es : List (Event β)) : World β σ :=
  es.foldl (World.step E desc ad) w

@[simp] theorem World.run_nil (w : World β σ) : w.run E desc ad [] = w := rfl

@[simp] theorem World.run_append_singleton (w : World β σ) (es : List (Event β)) (e : Event β) :
    w.run E desc ad (es ++ [e]) = World.step E desc ad (w.run E desc ad es) e := by
  simp [World.run]

end Steps

/-- The start of a run. -/
def World.start (a b : σ) : World β σ where
  st
    | .alice => a
    | .bob => b
  sent := []
  accepted := []

/-- The ratchet public keys the random source hands out during a run. -/
def ratchetKeys (es : List (Event β)) : List (Bytes β) :=
  es.filterMap fun
    | .send _ _ _ _ => none
    | .deliver _ rnd _ => rnd.curve.toOption.map Keypair.pk

/-- What a run expects of the random source: salts have their length, every ratchet step is offered
good random input (`ok`), and no ratchet key comes up twice, nor one of the keys in use before. -/
structure Fair (ok : RatchetRand β → Prop) (keys : List (Bytes β)) (es : List (Event β)) :
    Prop where
  salts : ∀ {p cap pt salt}, Event.send p cap pt salt ∈ es → salt.length = heSaltLen
  rands : ∀ {i rnd cap}, Event.deliver i rnd cap ∈ es → ok rnd
  fresh : (keys ++ ratchetKeys es).Nodup

@[simp] theorem ratchetKeys_append (es es' : List (Event β)) :
    ratchetKeys (es ++ es') = ratchetKeys es ++ ratchetKeys es' :=
  List.filterMap_append

/-- The first part of a fair run is fair. -/
theorem Fair.of_append {ok : RatchetRand β → Prop} {keys : List (Bytes β)} {es es' : List (Event β)}
    (h : Fair ok keys (es ++ es')) : Fair ok keys es where
  salts := fun hm => h.salts (List.mem_append_left _ hm)
  rands := fun hm => h.rands (List.mem_append_left _ hm)
  fresh := by
    have := h.fresh
    rw [ratchetKeys_append, ← List.append_assoc] at this
    exact (List.nodup_append.mp this).1

/-! ## Facts about the history -/

namespace World

variable [DecidableEq β] (E : Engine β σ η)

/-- The log is consistent: positions count the earlier frames of the chain, and only frames of the
log are accepted. -/
structure LogOk (w : World β σ) : Prop where
  idx : ∀ i f, w.sent[i]? = some f →
    f.idx = (w.sent.take i).countP fun g => g.On E f.sender (f.chain E)
  accepted_lt : ∀ i ∈ w.accepted, i < w.sent.length

variable {E} {w : World β σ}

omit [DecidableEq β] in
/-- One more frame of the chain lies before the end than before the frame itself. -/
theorem countP_take_succ_le {i j : Nat} {f : Sent β σ} (hi : w.sent[i]? = some f) (hij : i < j)
    (p : Sent β σ → Bool) (hp : p f = true) :
    (w.sent.take i).countP p + 1 ≤ (w.sent.take j).countP p := by
  have hsucc : w.sent.take (i + 1) = w.sent.take i ++ [f] := by
    rw [List.take_add_one, hi]
    rfl
  calc (w.sent.take i).countP p + 1 = (w.sent.take (i + 1)).countP p := by
        rw [hsucc, List.countP_append]
        simp [hp]
    _ ≤ (w.sent.take j).countP p :=
        (List.take_sublist_take_left (by omega)).countP_le

/-- A logged message has a number below those used up on its chain. -/
theorem LogOk.idx_lt_total (hw : w.LogOk E) {i : Nat} {f : Sent β σ} (hi : w.sent[i]? = some f) :
    f.idx < w.total E f.sender (f.chain E) := by
  obtain ⟨hlt, -⟩ := List.getElem?_eq_some_iff.mp hi
  have h := countP_take_succ_le hi hlt (fun g => decide (g.On E f.sender (f.chain E)))
    (by simp [Sent.On])
  rw [List.take_length] at h
  rw [hw.idx i f hi]
  exact h

/-- A chain and a position determine the frame. -/
theorem LogOk.eq_of_idx_eq (hw : w.LogOk E) {i j : Nat} {f g : Sent β σ}
    (hi : w.sent[i]? = some f) (hj : w.sent[j]? = some g) (hs : f.sender = g.sender)
    (hc : f.chain E = g.chain E) (hidx : f.idx = g.idx) : i = j := by
  have hfi := hw.idx i f hi
  have hgj := hw.idx j g hj
  rw [← hs, ← hc] at hgj
  rcases lt_trichotomy i j with hlt | heq | hlt
  · have := countP_take_succ_le hi hlt (fun h => decide (h.On E f.sender (f.chain E)))
      (by simp [Sent.On])
    omega
  · exact heq
  · have := countP_take_succ_le hj hlt (fun h => decide (h.On E f.sender (f.chain E)))
      (by simp [Sent.On, hs, hc])
    omega

/-- The messages that were accepted on a chain. -/
theorem mem_acceptedOn {q : Party} {pk : Bytes β} {f : Sent β σ} :
    f ∈ w.acceptedOn E q pk ↔ (∃ i ∈ w.accepted, w.sent[i]? = some f) ∧ f.On E q pk := by
  simp [acceptedOn]

/-- The largest of a list with one more number. -/
theorem foldr_max_append_singleton (l : List Nat) (a : Nat) :
    (l ++ [a]).foldr max 0 = max (l.foldr max 0) a := by
  induction l with
  | nil => simp
  | cons b l ih => simp only [List.cons_append, List.foldr_cons, ih, max_assoc]

/-! ### Producing a frame -/

/-- A message uses up one number of its chain. -/
theorem total_produce {p q : Party} {s : σ} {f : Sent β σ} {pk : Bytes β} :
    (w.produce p s f).total E q pk = w.total E q pk + if f.On E q pk then 1 else 0 := by
  simp only [total, produce, List.countP_append, List.countP_cons, List.countP_nil,
    decide_eq_true_eq, Nat.zero_add]

/-- A message under the next number of its chain keeps the log in order. -/
theorem LogOk.produce (hw : w.LogOk E) {p : Party} {s : σ} {f : Sent β σ}
    (hidx : f.idx = w.total E f.sender (f.chain E)) : (w.produce p s f).LogOk E where
  idx := by
    intro i g hi
    rcases Nat.lt_or_ge i w.sent.length with hlt | hge
    · have hi' : w.sent[i]? = some g := by
        simpa [World.produce, List.getElem?_append_left hlt] using hi
      simpa [World.produce, List.take_append_of_le_length hlt.le] using hw.idx i g hi'
    · have hlen : i < w.sent.length + 1 := by
        simpa [World.produce] using (List.getElem?_eq_some_iff.mp hi).1
      obtain rfl : i = w.sent.length := by omega
      obtain rfl : f = g := by simpa [World.produce] using hi
      simpa [World.produce, total] using hidx
  accepted_lt := by
    intro i hi
    have := hw.accepted_lt i hi
    simp only [World.produce, List.length_append, List.length_cons, List.length_nil]
    omega

/-- What was sent stays in the log. -/
theorem LogOk.getElem?_produce (hw : w.LogOk E) {p : Party} {s : σ} {f : Sent β σ} {i : Nat}
    (hi : i ∈ w.accepted) : (w.produce p s f).sent[i]? = w.sent[i]? :=
  List.getElem?_append_left (hw.accepted_lt i hi)

/-- Sending accepts nothing. -/
theorem LogOk.acceptedOn_produce (hw : w.LogOk E) {p q : Party} {s : σ} {f : Sent β σ}
    {pk : Bytes β} : (w.produce p s f).acceptedOn E q pk = w.acceptedOn E q pk := by
  simp only [acceptedOn]
  congr 1
  exact List.filterMap_congr fun i hi => hw.getElem?_produce hi

/-- And it does not move a receiver on. -/
theorem LogOk.passed_produce (hw : w.LogOk E) {p q : Party} {s : σ} {f : Sent β σ}
    {pk : Bytes β} : (w.produce p s f).passed E q pk = w.passed E q pk := by
  rw [passed, hw.acceptedOn_produce, passed]

/-- A call never takes a frame back. -/
theorem total_le_step [Octet β] [Sodium β] (desc : SuiteDesc β) (ad : Bytes β) (e : Event β)
    (q : Party) (pk : Bytes β) : w.total E q pk ≤ (World.step E desc ad w e).total E q pk := by
  cases e with
  | send p cap pt salt =>
    simp only [step]
    split
    · exact le_rfl
    · rw [total_produce]
      exact Nat.le_add_right _ _
  | deliver i rnd cap =>
    simp only [step]
    split
    · exact le_rfl
    · split
      · exact le_rfl
      · exact le_rfl

/-! ### Accepting a frame -/

/-- Accepting a logged message keeps the log in order. -/
theorem LogOk.accept (hw : w.LogOk E) {p : Party} {s : σ} {i : Nat} {f : Sent β σ}
    (hi : w.sent[i]? = some f) : (w.accept p s i).LogOk E where
  idx := hw.idx
  accepted_lt := by
    intro j hj
    rcases List.mem_append.mp hj with hj | hj
    · exact hw.accepted_lt j hj
    · obtain rfl := List.mem_singleton.mp hj
      exact (List.getElem?_eq_some_iff.mp hi).1

/-- An accepted message is added to those of its chain. -/
theorem acceptedOn_accept {p q : Party} {s : σ} {i : Nat} {f : Sent β σ} {pk : Bytes β}
    (hi : w.sent[i]? = some f) : (w.accept p s i).acceptedOn E q pk =
      w.acceptedOn E q pk ++ if f.On E q pk then [f] else [] := by
  simp only [acceptedOn, World.accept, List.filterMap_append, List.filterMap_cons,
    List.filterMap_nil, hi, List.filter_append, List.filter_cons, List.filter_nil,
    decide_eq_true_eq]

/-- And it moves the receiver of that chain up to behind it. -/
theorem passed_accept {p q : Party} {s : σ} {i : Nat} {f : Sent β σ} {pk : Bytes β}
    (hi : w.sent[i]? = some f) : (w.accept p s i).passed E q pk =
      if f.On E q pk then max (w.passed E q pk) (f.idx + 1) else w.passed E q pk := by
  rw [passed, acceptedOn_accept hi, passed]
  split_ifs
  · rw [List.map_append, List.map_cons, List.map_nil, foldr_max_append_singleton]
  · rw [List.append_nil]

end World
end Geryon
