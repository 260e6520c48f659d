import Geryon.Kex.Agree
import Geryon.Session.Send

/-!
# The handshake of a session

What an initiator and a responder of `session/` agree on: the flag word a sender builds from a
verified bundle is one the responder admits, and from a verified bundle both sides derive the same
ratchet secrets and the same associated data.

## Main results

- `hybridFlagCheck_buildHybridFlag`: a flag word built from valid advertisement flags fits them.
- `x3dh_agreement`: agreement for classical and hybrid bundles, with and without a one-time prekey.
-/

namespace Geryon

variable {β : Type} [Octet β] {desc : SuiteDesc β}

/-- The AEAD a sender settles on: its preference if that is offered, else the mandatory one. -/
def chooseAead (aeadPref : UInt8) (flags : UInt64) : Nat :=
  if aeadPref < 1 ∨ 3 < aeadPref ∨ flags.toNat / 2 ^ (31 + aeadPref.toNat) % 2 = 0 then 1
  else aeadPref.toNat

/-- The AEAD a sender settles on is one of the three and is offered. -/
theorem chooseAead_offered (aeadPref : UInt8) {flags : UInt64}
    (h : flags.toNat / 2 ^ 32 % 2 ≠ 0) :
    1 ≤ chooseAead aeadPref flags ∧ chooseAead aeadPref flags ≤ 3 ∧
      flags.toNat / 2 ^ (31 + chooseAead aeadPref flags) % 2 ≠ 0 := by
  rw [chooseAead]
  split
  · exact ⟨le_rfl, by decide, h⟩
  · next hno =>
    push Not at hno
    obtain ⟨hlo, hhi, hbit⟩ := hno
    rw [UInt8.lt_iff_toNat_lt, Nat.not_lt] at hlo hhi
    exact ⟨hlo, hhi, hbit⟩

/-- A flag word built from a well-formed advertisement passes the check against it, whatever the
sender prefers. -/
theorem hybridFlagCheck_buildHybridFlag (aeadPref : UInt8) (intervalPref : UInt32) {flags : UInt64}
    (h : gyHybridFlagsValidate flags = .ok ()) :
    hybridFlagCheck (buildHybridFlag aeadPref intervalPref flags) flags = .ok () := by
  simp only [gyHybridFlagsValidate] at h
  split at h
  · cases h
  next hbit =>
  split at h
  · cases h
  split at h
  · cases h
  next hrange =>
  push Not at hrange
  obtain ⟨haead₁, haead₂, hoffer⟩ := chooseAead_offered aeadPref hbit
  -- the offered interval bounds, then the interval clamped between them
  generalize hmn : flags.toNat % 2 ^ 16 = mn at hrange
  generalize hmx : flags.toNat / 2 ^ 16 % 2 ^ 16 = mx at hrange
  generalize hiv : min (max intervalPref.toNat mn) mx = interval
  have hlo : mn ≤ interval := by omega
  have hhi : interval ≤ mx := by omega
  have hflag : (buildHybridFlag aeadPref intervalPref flags).toNat =
      interval + chooseAead aeadPref flags * 2 ^ 16 := by
    simp only [buildHybridFlag, hmn, hmx, hiv, UInt32.toNat_ofNat']
    rw [← chooseAead, Nat.mod_eq_of_lt (by omega : interval < 2 ^ 16), Nat.mod_eq_of_lt (by omega)]
  generalize chooseAead aeadPref flags = aead at *
  -- the two fields of the flag do not overlap
  have hi : (interval + aead * 2 ^ 16) % 2 ^ 16 = interval := by omega
  have ha : (interval + aead * 2 ^ 16) / 2 ^ 16 % 2 ^ 8 = aead := by omega
  simp only [hybridFlagCheck, hflag, hi, ha, hmn, hmx]
  rw [if_neg (by omega), if_neg (by omega), if_neg (by omega), if_neg (by omega), if_neg hoffer]

/-- An initiator and a responder with genuine keys agree: from every bundle that verifies and whose
private keys the responder holds, with or without a one-time prekey, the initiator completes its
handshake, and the responder derives from the initiator's prefix, and whatever follows it, the same
secrets and the same associated data. In a hybrid suite the flag word is the one a sender builds
from the bundle, and it passes the responder's check. -/
theorem x3dh_agreement (K : KexSuite desc) (hc : desc.CurveOk) :
    (∀ (ikA ekA : CurvePair β) (bundle : PrekeyBundle β) (loc : X3dhLocal β),
      ikA.pub.Ok desc → K.genuine ikA.keypair → ekA.pub.Ok desc → K.genuine ekA.keypair →
      gyBundleValidate desc bundle = .ok () → loc.For bundle → loc.Genuine K →
      ∃ x, gyX3dhInitiate desc ikA bundle ekA = .ok x ∧ ∀ rest : Bytes β, 4 ≤ rest.length →
        gyX3dhRespond desc loc (x.wire.take (x.wire.length - 4) ++ rest) =
          .ok ⟨x.secrets, x.ad,
            if gyPkidIsPresent bundle.opk.pkid then some bundle.opk.pkid else none, 0⟩) ∧
    (∀ (ikA : HybridIdentityPair β) (ekA : CurvePair β) (bundle : HybridPrekeyBundle β)
      (loc : HybridX3dhLocal β) (aeadPref : UInt8) (intervalPref : UInt32)
      (coins : HandshakeCoins β),
      ikA.pub.Ok desc → K.genuine ⟨ikA.pub.base.curve.pk, ikA.curveSk⟩ → ekA.pub.Ok desc →
      K.genuine ekA.keypair → gyHybridBundleValidate desc bundle = .ok () → loc.For bundle →
      loc.Genuine K →
      let flag := buildHybridFlag aeadPref intervalPref bundle.spkFlags
      hybridFlagCheck flag loc.spkFlags = .ok () ∧
      ∃ x, gyHybridX3dhInitiate desc ikA bundle ekA flag coins = .ok x ∧ ∀ rest : Bytes β,
        gyHybridX3dhRespond desc loc (x.wire ++ rest) =
          .ok ⟨x.secrets, x.ad,
            if gyPkidIsPresent bundle.opk.curve.pkid then some bundle.opk.curve.pkid else none,
            flag⟩) := by
  refine ⟨?_, ?_⟩
  · intro ikA ekA bundle loc hA hgA hE hgE hval hloc hg
    obtain ⟨x, hx⟩ := gyX3dhInitiate_ok K hc hA hgA hgE hval hloc hg
    refine ⟨x, hx, fun rest hrest => ?_⟩
    exact gyX3dhRespond_of_initiate hA hE hloc (hg.dhAgree hgA hgE) hx hrest
  · intro ikA ekA bundle loc aeadPref intervalPref coins hA hgA hE hgE hval hloc hg flag
    obtain ⟨-, -, hflags⟩ := gyHybridBundleValidate_inv hval
    have hflag : hybridFlagCheck flag bundle.spkFlags = .ok () :=
      hybridFlagCheck_buildHybridFlag aeadPref intervalPref hflags
    obtain ⟨x, hx⟩ := gyHybridX3dhInitiate_ok K hc hA hgA hgE hval hloc hg hflag coins
    refine ⟨by rw [hloc.flags]; exact hflag, x, hx, fun rest => ?_⟩
    exact gyHybridX3dhRespond_of_initiate hc hA hE hloc (hg.dhAgree hgA hgE) hg.kemAgree hx rest

/-- The agreement on symbolic keys: a classical bundle with a one-time prekey, a hybrid one without,
under the advertisement a custodian publishes. -/
theorem x3dh_agreement_sym :
    (∃ x, gyX3dhInitiate (symSuite false) (symPair 3) (symBundle 0 1 (some 2)) (symPair 4) = .ok x ∧
      gyX3dhRespond (symSuite false) (symLocal 0 1 (some 2))
        (x.wire.take (x.wire.length - 4) ++ zeros 4) = .ok ⟨x.secrets, x.ad, some 3, 0⟩) ∧
    (∃ x, gyHybridX3dhInitiate (symSuite true) (symHybridIdentity 3)
        (symHybridBundle 0 1 none custHybridSpkFlags) (symPair 4)
        (buildHybridFlag 1 20 custHybridSpkFlags) ⟨[], [], []⟩ = .ok x ∧
      gyHybridX3dhRespond (symSuite true) (symHybridLocal 0 1 none custHybridSpkFlags)
        (x.wire ++ []) =
          .ok ⟨x.secrets, x.ad, none, buildHybridFlag 1 20 custHybridSpkFlags⟩) := by
  have hopk : ∀ n ∈ some 2, n < 2 ^ 31 := by simp
  have hflags : gyHybridFlagsValidate custHybridSpkFlags = .ok () := by decide
  constructor
  -- the classical handshake with a one-time prekey and trailing octets
  · obtain ⟨x, hx, hr⟩ := (x3dh_agreement (symIdeal false).kex (curveOk_sym false)).1 (symPair 3)
      (symPair 4) (symBundle 0 1 (some 2)) (symLocal 0 1 (some 2)) (ok_symPair _ _)
      (genuine_symPair _ _) (ok_symPair _ _) (genuine_symPair _ _)
      (gyBundleValidate_symBundle (by decide) (by decide) hopk) (symLocal_for _ _ _)
      (symLocal_genuine _ _ _)
    exact ⟨x, hx, hr (zeros 4) (length_zeros 4).ge⟩
  -- the hybrid one without a one-time prekey
  · obtain ⟨-, x, hx, hr⟩ := (x3dh_agreement (symIdeal true).kex (curveOk_sym true)).2
      (symHybridIdentity 3) (symPair 4) (symHybridBundle 0 1 none custHybridSpkFlags)
      (symHybridLocal 0 1 none custHybridSpkFlags) 1 20 ⟨[], [], []⟩ (ok_symHybridIdentity _)
      (genuine_symPair _ _) (ok_symPair _ _) (genuine_symPair _ _)
      (gyHybridBundleValidate_sym (by decide) (by decide) (by simp) hflags)
      (symHybridLocal_for _ _ _ _) (symHybridLocal_genuine _ _ _ _)
    exact ⟨x, hx, hr []⟩

end Geryon
