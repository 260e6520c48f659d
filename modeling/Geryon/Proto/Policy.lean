import Geryon.Proto.Reached

/-!
# The expiry policy of a custodian

`gy_expiry_cfg_init` compares `max_recv` with `max_send + 2 * max_latency`, computed in 64 bits.
Over the integers the sum has up to 66 bits, so the machine sum may wrap and come out below
`max_recv`. This module says exactly for which configurations the comparison of the code is the
integer inequality, and carries that over to `gy_custodian_create`.
-/

namespace Geryon

/-- The bounds a policy promises: both counters bounded, and the inequality of the section 4.2
lifetime over the integers. -/
def PolicyBounds (maxSend maxRecv : UInt32) (maxLatency : UInt64) : Prop :=
  maxSend ≠ 0 ∧ maxRecv ≠ 0 ∧ maxSend.toNat + 2 * maxLatency.toNat < maxRecv.toNat

instance (maxSend maxRecv : UInt32) (maxLatency : UInt64) :
    Decidable (PolicyBounds maxSend maxRecv maxLatency) :=
  inferInstanceAs (Decidable (_ ∧ _))

/-- The bounds whose sum leaves the 64-bit range and comes back below `max_recv`. -/
def SumWraps (maxSend maxRecv : UInt32) (maxLatency : UInt64) : Prop :=
  maxSend ≠ 0 ∧ maxRecv ≠ 0 ∧ 2 ^ 64 ≤ maxSend.toNat + 2 * maxLatency.toNat ∧
    (maxSend.toNat + 2 * maxLatency.toNat) % 2 ^ 64 < maxRecv.toNat

/-- The 64-bit sum of the code is the integer sum modulo the word size. -/
theorem policySum_toNat (maxSend : UInt32) (maxLatency : UInt64) :
    (maxSend.toUInt64 + 2 * maxLatency).toNat =
      (maxSend.toNat + 2 * maxLatency.toNat) % 2 ^ 64 := by
  rw [UInt64.toNat_add, UInt64.toNat_mul, UInt32.toNat_toUInt64]
  exact Nat.add_mod_mod _ _ _

/-- The code accepts a policy when both bounds are positive and the sum modulo the word size is
below `max_recv`. -/
theorem gyExpiryCfgInit_ok_iff (maxSend maxRecv : UInt32) (maxLatency : UInt64) :
    (∃ policy, gyExpiryCfgInit maxSend maxRecv maxLatency = .ok policy) ↔
      maxSend ≠ 0 ∧ maxRecv ≠ 0 ∧
        (maxSend.toNat + 2 * maxLatency.toNat) % 2 ^ 64 < maxRecv.toNat := by
  have hle : maxRecv.toUInt64 ≤ maxSend.toUInt64 + 2 * maxLatency ↔
      maxRecv.toNat ≤ (maxSend.toNat + 2 * maxLatency.toNat) % 2 ^ 64 := by
    rw [UInt64.le_iff_toNat_le, UInt32.toNat_toUInt64, policySum_toNat]
  unfold gyExpiryCfgInit
  split_ifs with hzero hsum
  · constructor
    · rintro ⟨policy, h⟩
      cases h
    · rintro ⟨hs, hr, -⟩
      exact absurd hzero (by simp [hs, hr])
  · constructor
    · rintro ⟨policy, h⟩
      cases h
    · rintro ⟨-, -, hlt⟩
      exact absurd (hle.mp hsum) (Nat.not_le.mpr hlt)
  · rw [not_or] at hzero
    exact ⟨fun _ => ⟨hzero.1, hzero.2, Nat.not_le.mp fun h => hsum (hle.mpr h)⟩, fun _ => ⟨_, rfl⟩⟩

/-- A policy that keeps the inequality is accepted. -/
theorem PolicyBounds.accepted {maxSend maxRecv : UInt32} {maxLatency : UInt64}
    (h : PolicyBounds maxSend maxRecv maxLatency) :
    ∃ policy, gyExpiryCfgInit maxSend maxRecv maxLatency = .ok policy := by
  obtain ⟨hs, hr, hlt⟩ := h
  apply (gyExpiryCfgInit_ok_iff _ _ _).mpr
  exact ⟨hs, hr, (Nat.mod_le _ _).trans_lt hlt⟩

/-- The check of the code is the integer inequality exactly where the sum does not wrap to a value
below `max_recv`. -/
theorem gyExpiryCfgInit_exact_iff (maxSend maxRecv : UInt32) (maxLatency : UInt64) :
    ((∃ policy, gyExpiryCfgInit maxSend maxRecv maxLatency = .ok policy) ↔
      PolicyBounds maxSend maxRecv maxLatency) ↔ ¬SumWraps maxSend maxRecv maxLatency := by
  have hrecv := maxRecv.toNat_lt
  constructor
  · rintro hiff ⟨hs, hr, hwrap, hlt⟩
    -- the code accepts the wrapped sum, while `max_recv` has 32 bits
    obtain ⟨-, -, hbound⟩ := hiff.mp ((gyExpiryCfgInit_ok_iff _ _ _).mpr ⟨hs, hr, hlt⟩)
    omega
  · intro hwraps
    constructor
    · intro hok
      obtain ⟨hs, hr, hlt⟩ := (gyExpiryCfgInit_ok_iff _ _ _).mp hok
      refine ⟨hs, hr, ?_⟩
      by_cases hword : 2 ^ 64 ≤ maxSend.toNat + 2 * maxLatency.toNat
      · exact absurd ⟨hs, hr, hword, hlt⟩ hwraps
      · rwa [Nat.mod_eq_of_lt (Nat.not_le.mp hword)] at hlt
    · exact PolicyBounds.accepted

variable {β : Type} [Octet β] [Sodium β] [SodiumKeystore β] [StructLayout β]

/-- Whether a custodian is created. -/
def Creates (suites : SuiteTable β) (suiteId : UInt8) (cred selfUid selfDid : Bytes β)
    (hasClock : Bool) (cfg : Option GyConfig) (kekRand : Rng β) (rnd : WrapRand β)
    (fault : Option GyErr) (blob : Bytes β) : Prop :=
  ∃ c blob', gyCustodianCreate suites suiteId cred selfUid selfDid hasClock cfg kekRand rnd fault
    blob = (.ok c, blob')

/-- A policy only decides whether a custodian is created: it is created under a configuration when
the configuration is accepted and it is created without one. -/
theorem creates_iff (suites : SuiteTable β) (suiteId : UInt8) (cred selfUid selfDid : Bytes β)
    (hasClock : Bool) (cfg : Option GyConfig) (kekRand : Rng β) (rnd : WrapRand β)
    (fault : Option GyErr) (blob : Bytes β) :
    Creates suites suiteId cred selfUid selfDid hasClock cfg kekRand rnd fault blob ↔
      (∃ policy, expiryOf cfg = .ok policy) ∧
        Creates suites suiteId cred selfUid selfDid hasClock none kekRand rnd fault blob := by
  have hnone : expiryOf none = .ok .disabled := rfl
  unfold Creates gyCustodianCreate
  by_cases hids : userIdMax < selfUid.length ∨ deviceIdMax < selfDid.length
  · simp [hids]
  simp only [hids, if_false]
  cases suites.lookup suiteId with
  | none => simp
  | some desc =>
    simp only [hnone]
    cases expiryOf cfg with
    | error e => simp
    | ok policy =>
      cases
        gyKeystoreCreate sealAlgAegis256 pwhashOpslimitMin pwhashMemlimitMin cred kekRand rnd with
      | error e => simp
      | ok ks =>
        -- the header that is written does not hold the policy
        simp only [custPersistHeader, GyCustodian.header]
        split_ifs
        · simp
        · generalize gyCustHeaderEncode (custBlobMax β) (_ : CustHeader β) = encoded
          cases encoded with
          | error e => simp
          | ok hdr => cases fault <;> simp

/-- The check of `gy_expiry_cfg_init` is the integer inequality exactly where the 64-bit sum does
not wrap below `max_recv`, and so is that of `gy_custodian_create` under an enabled configuration,
on all other arguments it takes. -/
theorem policy_check_iff (maxSend maxRecv : UInt32) (maxLatency : UInt64) :
    (((∃ policy, gyExpiryCfgInit maxSend maxRecv maxLatency = .ok policy) ↔
      PolicyBounds maxSend maxRecv maxLatency) ↔ ¬SumWraps maxSend maxRecv maxLatency) ∧
    ∀ (suites : SuiteTable β) (suiteId : UInt8) (cred selfUid selfDid : Bytes β) (hasClock : Bool)
      (kekRand : Rng β) (rnd : WrapRand β) (fault : Option GyErr) (blob : Bytes β),
      ((Creates suites suiteId cred selfUid selfDid hasClock
          (some ⟨true, maxSend, maxRecv, maxLatency⟩) kekRand rnd fault blob ↔
        PolicyBounds maxSend maxRecv maxLatency ∧
          Creates suites suiteId cred selfUid selfDid hasClock none kekRand rnd fault blob) ↔
        ¬(SumWraps maxSend maxRecv maxLatency ∧
          Creates suites suiteId cred selfUid selfDid hasClock none kekRand rnd fault blob)) := by
  have hexact := gyExpiryCfgInit_exact_iff maxSend maxRecv maxLatency
  refine ⟨hexact, fun suites suiteId cred selfUid selfDid hasClock kekRand rnd fault blob => ?_⟩
  rw [creates_iff, show expiryOf (some ⟨true, maxSend, maxRecv, maxLatency⟩) =
    gyExpiryCfgInit maxSend maxRecv maxLatency from rfl]
  by_cases hplain :
      Creates suites suiteId cred selfUid selfDid hasClock none kekRand rnd fault blob
  · simpa only [hplain, and_true] using hexact
  · simp only [hplain, and_false, not_false_eq_true]

open Geryon.Sym in
/-- A symbolic custodian is created with the largest latency that leaves `max_recv` above the sum,
and not with the next one. -/
theorem sym_policies :
    let creates := fun latency => Creates symSuites 1 [num 5] [num 1] [num 2] false
      (some ⟨true, 10, 21, latency⟩) (symRng 0) ⟨symRng 1, symRng 1⟩ none []
    creates 5 ∧ ¬creates 6 := by
  intro creates
  have hplain : Creates symSuites 1 [num 5] [num 1] [num 2] false none (symRng 0)
      ⟨symRng 1, symRng 1⟩ none [] := by
    obtain ⟨rest, blob, hcreate⟩ :=
      sym_create [num 5] false (show expiryOf none = .ok .disabled from rfl) 1
    exact ⟨_, blob, hcreate⟩
  have hbounds : ∀ latency : UInt64, ¬SumWraps 10 21 latency →
      (creates latency ↔ PolicyBounds 10 21 latency) := by
    intro latency hwraps
    have hexact := ((policy_check_iff 10 21 latency).2 symSuites 1 [num 5] [num 1] [num 2] false
      (symRng 0) ⟨symRng 1, symRng 1⟩ none []).2 fun h => hwraps h.1
    exact hexact.trans (and_iff_left hplain)
  have hfive : ¬SumWraps 10 21 5 := fun h => absurd h.2.2.1 (by decide)
  have hsix : ¬SumWraps 10 21 6 := fun h => absurd h.2.2.1 (by decide)
  exact ⟨(hbounds 5 hfive).2 (by decide), fun h => absurd ((hbounds 6 hsix).1 h) (by decide)⟩

/-- A latency of `2 ^ 63` vanishes from the sum: the code enables a policy with `max_recv = 2`. -/
theorem policy_wrapped :
    ¬((∃ policy, gyExpiryCfgInit 1 2 0x8000000000000000 = .ok policy) ↔
      PolicyBounds 1 2 0x8000000000000000) := by
  intro h
  exact absurd (h.mp ⟨⟨true, 1, 2, 0x8000000000000000⟩, by decide⟩) (by decide)

end Geryon
