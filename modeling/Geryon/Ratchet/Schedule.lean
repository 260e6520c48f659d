import Geryon.Kex.X3dh
import Geryon.Lib.Chain
import Geryon.Ratchet.Ideal

/-!
# The key schedule of a session

Seen from outside, the ratchets of the two parties walk one sequence of levels. Level `0` is the
responder's signed prekey, level `1` the initiator's first sending chain, and every further ratchet
step of either party opens the next level. A level carries its owner's ratchet pair, the root key
after it, the chain key its sending chain starts with and the next header key it derived.

The header key of level `ℓ + 2` is the next header key of level `ℓ`; levels `1` and `2` use the two
header keys of the key agreement. The main result, `Schedule.hk_injective`, is that no two levels
share a header key when the key derivations are ideal.
-/

namespace Geryon

variable {β : Type} [Octet β]

namespace IdealSuite

variable [Sodium β] {desc : SuiteDesc β} (I : IdealSuite desc)
include I

/-- What a root derivation computes, with the intermediate key it expands. -/
theorem gyDrcKdfRk_spec (rk ikm : Bytes β) :
    ∃ prk okm, desc.hkdfExtract rk ikm = .ok prk ∧
      desc.hkdfExpand drRkOutLen prk (infoOf desc "dr.root") = .ok okm ∧ okm.length = 96 ∧
      gyDrcKdfRk desc rk ikm =
        .ok ⟨okm.take 32, (okm.drop 32).take 32, (okm.drop 64).take 32⟩ := by
  have hlen := desc.hashLen_ge
  obtain ⟨prk, hprk⟩ := I.extract_ok rk ikm
  obtain ⟨okm, hokm, hokmlen⟩ := I.expand_ok drRkOutLen prk (infoOf desc "dr.root")
    (by simp only [drRkOutLen]; omega)
  refine ⟨prk, okm, hprk, hokm, hokmlen, ?_⟩
  simp [gyDrcKdfRk, hprk, I.works.gyInfo_eq (by decide : "dr.root".length ≤ 10), hokm,
    bind, Except.bind,
    pure, Except.pure]

/-- A root derivation succeeds. -/
theorem gyDrcKdfRk_ok (rk ikm : Bytes β) : ∃ r, gyDrcKdfRk desc rk ikm = .ok r := by
  obtain ⟨_, _, _, _, _, h⟩ := I.gyDrcKdfRk_spec rk ikm
  exact ⟨_, h⟩

/-- Derived header keys have their length. -/
theorem length_nhk {rk ikm : Bytes β} {r : RootKeys β} (h : gyDrcKdfRk desc rk ikm = .ok r) :
    r.nhk.length = 32 := by
  obtain ⟨_, okm, _, _, hlen, h'⟩ := I.gyDrcKdfRk_spec rk ikm
  rw [h] at h'
  cases h'
  simp [hlen]

/-- A root key, and a next header key, determine what they were derived from. -/
theorem gyDrcKdfRk_inj {rk rk' ikm ikm' : Bytes β} {r r' : RootKeys β}
    (h : gyDrcKdfRk desc rk ikm = .ok r) (h' : gyDrcKdfRk desc rk' ikm' = .ok r')
    (heq : r.rk = r'.rk ∨ r.nhk = r'.nhk) : rk = rk' := by
  obtain ⟨prk, okm, hprk, hokm, hlen, hr⟩ := I.gyDrcKdfRk_spec rk ikm
  obtain ⟨prk', okm', hprk', hokm', hlen', hr'⟩ := I.gyDrcKdfRk_spec rk' ikm'
  rw [h] at hr
  rw [h'] at hr'
  cases hr
  cases hr'
  have hpp : prk = prk' := by
    rcases heq with heq | heq
    · exact (I.expand_inj (i := 0) (j := 0) hokm hokm' (by decide) (by decide)
        (by simpa using heq)).1
    · exact (I.expand_inj (i := 2) (j := 2) hokm hokm' (by decide) (by decide) heq).1
  subst hpp
  exact (I.extract_inj hprk hprk').1

/-- What `expand_one` computes. -/
theorem expandOne_spec {sk out : Bytes β} {purpose : String} (hp : purpose.length ≤ 10)
    (h : expandOne desc sk purpose = .ok out) :
    desc.hkdfExpand drKeyLen sk (infoOf desc purpose) = .ok out ∧ out.length = 32 := by
  have hlen := desc.hashLen_ge
  have h' : desc.hkdfExpand drKeyLen sk (infoOf desc purpose) = .ok out := by
    simpa [expandOne, I.works.gyInfo_eq hp, bind, Except.bind] using h
  obtain ⟨t, ht, htlen⟩ := I.expand_ok drKeyLen sk (infoOf desc purpose)
    (by simp only [drKeyLen]; omega)
  rw [h'] at ht
  cases ht
  exact ⟨h', htlen⟩

omit [Sodium β] I in
/-- Different labels give different info strings. -/
theorem infoOf_injective {p q : String} (h : infoOf desc p = infoOf desc q) :
    (ascii p : Bytes β) = ascii q := by
  simpa [infoOf] using h

/-- A seed never equals a derived root key or header key. -/
theorem seed_ne_derived {sk out rk ikm : Bytes β} {purpose : String} {r : RootKeys β}
    (hp : purpose.length ≤ 10) (hne : (ascii purpose : Bytes β) ≠ ascii "dr.root")
    (h : expandOne desc sk purpose = .ok out) (hr : gyDrcKdfRk desc rk ikm = .ok r) :
    out ≠ r.rk ∧ out ≠ r.nhk := by
  obtain ⟨hexp, hlen⟩ := I.expandOne_spec hp h
  obtain ⟨_, okm, _, hokm, _, hr'⟩ := I.gyDrcKdfRk_spec rk ikm
  rw [hr] at hr'
  cases hr'
  have hout : (out.drop (32 * 0)).take 32 = out := by simp [← hlen]
  constructor
  · intro he
    have := I.expand_inj (i := 0) (j := 0) hexp hokm (by decide) (by decide)
      (by rw [hout, he]; simp)
    exact hne (infoOf_injective this.2.1)
  · intro he
    have := I.expand_inj (i := 0) (j := 2) hexp hokm (by decide) (by decide)
      (by rw [hout, he])
    exact absurd this.2.2 (by decide)

end IdealSuite

/-- What the ratchets need of their seeds: the header keys have key length and differ, and no seed
is ever derived again. -/
structure Seeds (desc : SuiteDesc β) (sec : DrSecrets β) : Prop where
  length_hka : sec.sharedHka.length = 32
  length_nhkb : sec.sharedNhkb.length = 32
  hka_ne_nhkb : sec.sharedHka ≠ sec.sharedNhkb
  skDr_ne : ∀ {rk ikm r}, gyDrcKdfRk desc rk ikm = .ok r → sec.skDr ≠ r.rk
  hka_ne : ∀ {rk ikm r}, gyDrcKdfRk desc rk ikm = .ok r → sec.sharedHka ≠ r.nhk
  nhkb_ne : ∀ {rk ikm r}, gyDrcKdfRk desc rk ikm = .ok r → sec.sharedNhkb ≠ r.nhk

/-- The seeds of a key agreement are good seeds. -/
theorem IdealSuite.seeds_of_expandSecrets [Sodium β] {desc : SuiteDesc β} (I : IdealSuite desc)
    {sk : Bytes β} {sec : DrSecrets β} (h : expandSecrets desc sk = .ok sec) : Seeds desc sec := by
  obtain ⟨a, b, c, ha, hb, hc, rfl⟩ : ∃ a b c, expandOne desc sk "dr.sk" = .ok a ∧
      expandOne desc sk "he.hka" = .ok b ∧ expandOne desc sk "he.nhkb" = .ok c ∧
      sec = ⟨a, b, c⟩ := by
    simp only [expandSecrets, bind, Except.bind, pure, Except.pure] at h
    split at h <;> [cases h; skip]
    split at h <;> [cases h; skip]
    split at h <;> [cases h; skip]
    next a ha _ b hb _ c hc => exact ⟨a, b, c, ha, hb, hc, (Except.ok.inj h).symm⟩
  obtain ⟨hbexp, hblen⟩ := I.expandOne_spec (by decide) hb
  obtain ⟨hcexp, hclen⟩ := I.expandOne_spec (by decide) hc
  refine ⟨hblen, hclen, ?_, ?_, ?_, ?_⟩
  -- the three labels differ, two of them already in length
  · rintro (rfl : b = c)
    have := I.expand_inj (i := 0) (j := 0) hbexp hcexp (by decide) (by decide) rfl
    have hlen := congrArg List.length (IdealSuite.infoOf_injective this.2.1)
    simp only [length_ascii] at hlen
    exact absurd hlen (by decide)
  · exact fun hr => (I.seed_ne_derived (by decide)
      (fun he => absurd (congrArg List.length he) (by simp only [length_ascii]; decide)) ha hr).1
  · exact fun hr => (I.seed_ne_derived (by decide)
      (fun he => absurd (congrArg List.length he) (by simp only [length_ascii]; decide)) hb hr).2
  · refine fun hr => (I.seed_ne_derived (by decide) (fun he => ?_) hc hr).2
    have h0 := congrArg (fun l : Bytes β => byteAt l 0) he
    simp only [byteAt, ascii] at h0
    revert h0
    simp

/-- One level of a session's key schedule; `x` is what the engine adds. -/
structure Level (β γ : Type) where
  kp : Keypair β
  rk : Bytes β
  ck : Bytes β
  nhk : Bytes β
  x : γ

namespace Schedule

variable {γ : Type} (sec : DrSecrets β) (lv : Nat → Level β γ)

/-- The header key of a level. -/
def hk : Nat → Bytes β
  | 0 => []
  | 1 => sec.sharedHka
  | 2 => sec.sharedNhkb
  | ℓ + 3 => (lv (ℓ + 1)).nhk

omit [Octet β] in
/-- The header key of a level is the next header key of two levels before. -/
theorem hk_add_two {ℓ : Nat} (h : 1 ≤ ℓ) : hk sec lv (ℓ + 2) = (lv ℓ).nhk := by
  obtain ⟨k, rfl⟩ : ∃ k, ℓ = k + 1 := ⟨ℓ - 1, by omega⟩
  rfl

omit [Octet β] in
/-- Header keys up to level `ℓ + 2` depend on the levels up to `ℓ` only. -/
theorem hk_congr {lv' : Nat → Level β γ} {ℓ : Nat} (h : ∀ i ≤ ℓ, lv i = lv' i) {i : Nat}
    (hi : i ≤ ℓ + 2) : hk sec lv i = hk sec lv' i := by
  match i with
  | 0 => rfl
  | 1 => rfl
  | 2 => rfl
  | k + 3 => simp only [hk]; rw [h (k + 1) (by omega)]

/-- Levels up to `top` are derived one from the other, starting at the session's root. -/
structure Derived (desc : SuiteDesc β) (top : Nat) : Prop where
  root : (lv 0).rk = sec.skDr
  step : ∀ ℓ < top, ∃ ikm, gyDrcKdfRk desc (lv ℓ).rk ikm =
    .ok ⟨(lv (ℓ + 1)).rk, (lv (ℓ + 1)).ck, (lv (ℓ + 1)).nhk⟩

variable {sec lv} [Sodium β] {desc : SuiteDesc β} (I : IdealSuite desc)
include I

/-- All header keys of a derived run have one length. -/
theorem length_hk (hsec : Seeds desc sec) {top : Nat} (hd : Derived sec lv desc top) {i : Nat}
    (h1 : 1 ≤ i) (hi : i ≤ top + 2) : (hk sec lv i).length = 32 := by
  match i with
  | 1 => exact hsec.length_hka
  | 2 => exact hsec.length_nhkb
  | k + 3 =>
    obtain ⟨ikm, hk⟩ := hd.step k (by omega)
    exact I.length_nhk hk

/-- Root keys of different levels differ. -/
theorem rk_injective (hsec : Seeds desc sec) {top : Nat} (hd : Derived sec lv desc top) :
    ∀ i j, i ≤ top → j ≤ top → (lv i).rk = (lv j).rk → i = j := by
  apply Chain.eq_of_eq_of_step
  · intro m hm
    obtain ⟨ikm, hk⟩ := hd.step m hm
    rw [hd.root]
    exact hsec.skDr_ne hk
  · intro i j hi hj h
    obtain ⟨ikm, hki⟩ := hd.step i hi
    obtain ⟨ikm', hkj⟩ := hd.step j hj
    exact I.gyDrcKdfRk_inj hki hkj (.inl h)

/-- Header keys of different levels differ. -/
theorem hk_injective (hsec : Seeds desc sec) {top : Nat} (hd : Derived sec lv desc top) {i j : Nat}
    (hi1 : 1 ≤ i) (hj1 : 1 ≤ j) (hi : i ≤ top + 2) (hj : j ≤ top + 2)
    (h : hk sec lv i = hk sec lv j) : i = j := by
  -- the first two header keys are seeds, the others come out of a root step
  match i, j with
  | 1, 1 => rfl
  | 1, 2 => exact absurd h hsec.hka_ne_nhkb
  | 2, 1 => exact absurd h.symm hsec.hka_ne_nhkb
  | 2, 2 => rfl
  | 1, k + 3 =>
    obtain ⟨ikm, hk⟩ := hd.step k (by omega)
    exact absurd h (hsec.hka_ne hk)
  | 2, k + 3 =>
    obtain ⟨ikm, hk⟩ := hd.step k (by omega)
    exact absurd h (hsec.nhkb_ne hk)
  | k + 3, 1 =>
    obtain ⟨ikm, hk⟩ := hd.step k (by omega)
    exact absurd h.symm (hsec.hka_ne hk)
  | k + 3, 2 =>
    obtain ⟨ikm, hk⟩ := hd.step k (by omega)
    exact absurd h.symm (hsec.nhkb_ne hk)
  -- two derived keys: their root steps agree, so their levels do
  | k + 3, m + 3 =>
    obtain ⟨ikm, hk⟩ := hd.step k (by omega)
    obtain ⟨ikm', hm⟩ := hd.step m (by omega)
    have := rk_injective I hsec hd k m (by omega) (by omega) (I.gyDrcKdfRk_inj hk hm (.inr h))
    rw [this]

end Schedule
/-! ## Symbolic sessions -/

/-- Random input number `n`. -/
def symRand (n : Nat) : RatchetRand Sym :=
  ⟨.ok (Sym.curvePair n), .ok (Sym.kemEk n, Sym.kemDk n), [], []⟩

/-- The secrets of a key agreement. -/
def symSecrets (isHybrid : Bool) : DrSecrets Sym :=
  (expandSecrets (symSuite isHybrid) []).toOption.getD ⟨[], [], []⟩

/-- The secrets of the symbolic handshake. -/
theorem expandSecrets_sym (isHybrid : Bool) :
    expandSecrets (symSuite isHybrid) [] = .ok (symSecrets isHybrid) := by
  cases isHybrid <;> rfl

/-- They seed a run. -/
theorem seeds_sym (isHybrid : Bool) : Seeds (symSuite isHybrid) (symSecrets isHybrid) :=
  (symIdeal isHybrid).seeds_of_expandSecrets (expandSecrets_sym isHybrid)

/-- Symbolic draws give different keys. -/
theorem symRand_pk_injective (k : Nat) :
    Function.Injective fun i => (Sym.curvePair (i + k)).pk := by
  intro i j h
  have hnum := congrArg (Sym.keyNum 1) h
  simp only [Sym.curvePair, Sym.keyNum_prim 1 _ (by decide : 0 < 32), Option.some.injEq] at hnum
  omega

/-- So two of them differ. -/
theorem symRand_pk_ne {i j : Nat} (h : i ≠ j) : (Sym.curvePair i).pk ≠ (Sym.curvePair j).pk :=
  fun heq => h (symRand_pk_injective 0 heq)

/-- Keys numbered from two on are not the first two. -/
theorem symRand_pk_fresh (i : Nat) : (Sym.curvePair (i + 2)).pk ∉
    [(Sym.curvePair 0).pk, (Sym.curvePair 1).pk] := by
  intro hmem
  rcases List.mem_cons.mp hmem with h | h
  · exact symRand_pk_ne (by omega) h
  · exact symRand_pk_ne (by omega) (List.mem_singleton.mp h)

theorem symRand_pk_nodup : [(Sym.curvePair 0).pk, (Sym.curvePair 1).pk].Nodup := by
  simpa using symRand_pk_ne (by decide : (0 : Nat) ≠ 1)

/-- The AEAD of the symbolic suite is usable. -/
theorem aeadUsable_sym : AeadUsable Sym 1 := ⟨.chacha20poly1305, rfl, fun h => by cases h⟩

end Geryon
