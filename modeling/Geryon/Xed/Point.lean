import Geryon.Suite
import Geryon.Lib.LittleEndian
import Geryon.Lib.Montgomery
import Geryon.Decaf.Primes
import Mathlib.Algebra.Field.ZMod

/-!
# The point layer of XEd448

The field and scalar operations `core/ed448.c` takes from libdecaf, and its own point layer: the
twisted Edwards curve with `a = 1` in extended coordinates.

The field is that of the integers modulo `fieldPrime`, and a serialized element is its least
residue. The inverse square root is a parameter with its documented contract. The scrubbing of
intermediate values leaves no trace in the model.
-/

namespace Geryon

instance : Fact fieldPrime.Prime := ⟨fieldPrime_prime⟩
instance : Fact groupOrder.Prime := ⟨groupOrder_prime⟩

/-- `gf`: an element of the field. -/
abbrev Gf := ZMod fieldPrime

/-- `decaf_448_scalar_t`: an integer modulo the group order. -/
abbrev DecafScalar := ZMod groupOrder

/-- What the linked libdecaf provides beyond ring operations. -/
class Libdecaf where
  /-- `gf_isr`: an inverse square root, and whether there is one. -/
  gfIsr : Gf → Gf × Bool
  gfIsr_of_isSquare : ∀ {x}, x ≠ 0 → IsSquare x →
    (gfIsr x).2 = true ∧ (gfIsr x).1 ^ 2 * x = 1

/-! ## Encodings -/

/-- `gf_serialize`. -/
def gfSerialize (x : Gf) : Bytes UInt8 := LittleEndian.ofNat 56 x.val

/-- `gf_deserialize`: the element, and whether the encoding is canonical. -/
def gfDeserialize (b : Bytes UInt8) : Gf × Bool :=
  ((LittleEndian.toNat b : Gf), decide (LittleEndian.toNat b < fieldPrime))

/-- The low bit of `gf_lobit`. -/
def gfLobit (x : Gf) : Bool := x.val.testBit 0

/-- `decaf_448_scalar_decode_long`. -/
def scalarDecodeLong (b : Bytes UInt8) : DecafScalar := (LittleEndian.toNat b : DecafScalar)

/-- `decaf_448_scalar_decode`: only reduced encodings of 56 bytes are decoded. -/
def scalarDecode (b : Bytes UInt8) : Option DecafScalar :=
  if LittleEndian.toNat (b.take 56) < groupOrder then
    some (LittleEndian.toNat (b.take 56)) else none

/-- `decaf_448_scalar_encode`. -/
def scalarEncode (s : DecafScalar) : Bytes UInt8 := LittleEndian.ofNat 56 s.val

/-! ## Points -/

/-- `struct pt`: extended coordinates, with `t = x y / z`. -/
structure Pt where
  x : Gf
  y : Gf
  z : Gf
  t : Gf
  deriving DecidableEq

/-- `pt_identity`. -/
def ptIdentity : Pt := ⟨0, 1, 1, 0⟩

/-- `pt_negate`. -/
def ptNegate (p : Pt) : Pt := ⟨0 - p.x, p.y, p.z, 0 - p.t⟩

/-- `pt_cond_sel`. -/
def ptCondSel (a b : Pt) (bit : Bool) : Pt := bif bit then b else a

/-- `pt_add`. -/
def ptAdd (p q : Pt) (d : Gf) : Pt :=
  let a := p.x * q.x
  let b := p.y * q.y
  let c := p.t * q.t
  -- the product of the two extended coordinates, scaled by the curve constant
  let cd := c * d
  let dd := p.z * q.z
  let t0 := p.x + p.y
  let t1 := q.x + q.y
  let e := t0 * t1
  let e := e - a
  let e := e - b
  let f := dd - cd
  let g := dd + cd
  let h := b - a
  { x := e * f, y := g * h, t := e * h, z := f * g }

/-- `pt_double`. -/
def ptDouble (p : Pt) : Pt :=
  let a := p.x ^ 2
  let b := p.y ^ 2
  let c := p.z ^ 2
  let c := c + c
  let t0 := p.x + p.y
  let e := t0 ^ 2
  let e := e - a
  let e := e - b
  let g := a + b
  let f := g - c
  let h := a - b
  { x := e * f, y := g * h, t := e * h, z := f * g }

/-- Bit `i` of a scalar: `(scalar[i >> 3] >> (i & 7)) & 1`. -/
def scalarBit (scalar : Bytes UInt8) (i : ℕ) : Bool := (scalar.getD (i / 8) 0).toNat.testBit (i % 8)

/-- The loop of `pt_scalarmul` from bit `i - 1` down to bit 0. -/
def ptScalarmulLoop (base : Pt) (scalar : Bytes UInt8) (d : Gf) : ℕ → Pt → Pt
  | 0, acc => acc
  | i + 1, acc =>
    let acc := ptDouble acc
    let sum := ptAdd acc base d
    ptScalarmulLoop base scalar d i (ptCondSel acc sum (scalarBit scalar i))

/-- `pt_scalarmul`. -/
def ptScalarmul (base : Pt) (scalar : Bytes UInt8) (d : Gf) : Pt :=
  ptScalarmulLoop base scalar d 448 ptIdentity

section Decaf

variable [Libdecaf]

/-- `gf_invert`: one over a nonzero element, through an inverse square root. -/
def gfInvert (z : Gf) : Gf :=
  let r := (Libdecaf.gfIsr (z ^ 2)).1
  r ^ 2 * z

/-- `curve_d`. -/
def curveD : Gf := 39082 * gfInvert 39081

/-- `pt_from_y`: the point with a `y`-coordinate, and whether there is one. -/
def ptFromY (y : Gf) (forceZero wantSign : Bool) (d : Gf) : Pt × Bool :=
  let y2 := y ^ 2
  let num := 1 - y2
  let den := 1 - d * y2
  let prod := num * den
  let (r, ok) := Libdecaf.gfIsr prod
  let x := num * r
  -- both square roots are on the curve: take the one with the requested low bit
  let want := bif forceZero then false else wantSign
  let x := bif gfLobit x ^^ want then -x else x
  (⟨x, y, 1, x * y⟩, ok)

/-- `pt_encode`: the `y`-coordinate, and the low bit of `x` in the top bit of a last byte. -/
def ptEncode (p : Pt) (forceZero : Bool) : Bytes UInt8 :=
  let zi := gfInvert p.z
  let x := p.x * zi
  let y := p.y * zi
  let sgn : UInt8 := bif forceZero then 0 else bif gfLobit x then 1 else 0
  gfSerialize y ++ [sgn <<< 7]

/-- `u_to_y`: the Edwards `y` of a Montgomery `u`, and whether the encoding is canonical. -/
def uToY (uBytes : Bytes UInt8) : Gf × Bool :=
  let (u, canon) := gfDeserialize uBytes
  let onepu := u + 1
  let umone := u - 1
  (onepu * gfInvert umone, canon)

/-- `base_point`: the image of `u = 5`. -/
def basePoint (d : Gf) : Pt :=
  let five : Gf := 5
  let onepu := five + 1
  let umone := five - 1
  (ptFromY (onepu * gfInvert umone) true false d).1

end Decaf

/-! ## What the operations compute -/

variable {d : Gf}

/-- Extended coordinates of a point of the curve. -/
structure Represents (p : Pt) (P : Edwards.Point d) : Prop where
  z_ne : p.z ≠ 0
  x_eq : p.x = P.x * p.z
  y_eq : p.y = P.y * p.z
  t_eq : p.t = P.x * P.y * p.z

/-- A point represented in two ways. -/
theorem Represents.unique {p : Pt} {P Q : Edwards.Point d} (hP : Represents p P)
    (hQ : Represents p Q) : P = Q := by
  apply Edwards.Point.ext
  · exact mul_right_cancel₀ hP.z_ne (hP.x_eq.symm.trans hQ.x_eq)
  · exact mul_right_cancel₀ hP.z_ne (hP.y_eq.symm.trans hQ.y_eq)

theorem represents_affine (P : Edwards.Point d) : Represents ⟨P.x, P.y, 1, P.x * P.y⟩ P :=
  ⟨one_ne_zero, (mul_one _).symm, (mul_one _).symm, (mul_one _).symm⟩

theorem represents_identity : Represents ptIdentity (0 : Edwards.Point d) :=
  ⟨one_ne_zero, (zero_mul _).symm, (mul_one _).symm, by simp [ptIdentity]⟩

theorem Represents.negate {p : Pt} {P : Edwards.Point d} (h : Represents p P) :
    Represents (ptNegate p) (-P) where
  z_ne := h.z_ne
  x_eq := by
    simp only [ptNegate, Edwards.Point.neg_x]
    rw [h.x_eq]
    ring
  y_eq := h.y_eq
  t_eq := by
    simp only [ptNegate, Edwards.Point.neg_x, Edwards.Point.neg_y]
    rw [h.t_eq]
    ring

variable [Edwards.Complete d]

/-- `pt_add` computes the addition law on all pairs of points. -/
theorem Represents.add {p q : Pt} {P Q : Edwards.Point d} (hp : Represents p P)
    (hq : Represents q Q) : Represents (ptAdd p q d) (P + Q) := by
  obtain ⟨hpz, hpx, hpy, hpt⟩ := hp
  obtain ⟨hqz, hqx, hqy, hqt⟩ := hq
  have hx := Edwards.Point.add_x_mul P Q
  have hy := Edwards.Point.add_y_mul P Q
  have hplus := Edwards.Point.one_add_cross_ne P Q
  have hminus := Edwards.Point.one_sub_cross_ne P Q
  -- the denominators of the affine law, over the square of the two `z`
  have hf : (ptAdd p q d).z = (p.z * q.z) ^ 2 * ((1 - d * P.x * Q.x * P.y * Q.y) *
      (1 + d * P.x * Q.x * P.y * Q.y)) := by
    simp only [ptAdd, hpt, hqt]
    ring
  refine ⟨?_, ?_, ?_, ?_⟩
  · rw [hf]
    exact mul_ne_zero (pow_ne_zero _ (mul_ne_zero hpz hqz)) (mul_ne_zero hminus hplus)
  · rw [hf]
    simp only [ptAdd, hpx, hqx, hpy, hqy, hpt, hqt]
    linear_combination -(p.z * q.z) ^ 2 * (1 - d * P.x * Q.x * P.y * Q.y) * hx
  · rw [hf]
    simp only [ptAdd, hpx, hqx, hpy, hqy, hpt, hqt]
    linear_combination -(p.z * q.z) ^ 2 * (1 + d * P.x * Q.x * P.y * Q.y) * hy
  · rw [hf]
    simp only [ptAdd, hpx, hqx, hpy, hqy]
    linear_combination
      -(p.z * q.z) ^ 2 * (P.y * Q.y - P.x * Q.x) * hx -
      (p.z * q.z) ^ 2 * (P + Q).x * (1 + d * P.x * Q.x * P.y * Q.y) * hy

/-- `pt_double` computes the addition law on equal arguments. -/
theorem Represents.double {p : Pt} {P : Edwards.Point d} (hp : Represents p P) :
    Represents (ptDouble p) (P + P) := by
  obtain ⟨hpz, hpx, hpy, -⟩ := hp
  have hP := P.on
  have hx := Edwards.Point.add_x_mul P P
  have hy := Edwards.Point.add_y_mul P P
  have hplus := Edwards.Point.one_add_cross_ne P P
  have hminus := Edwards.Point.one_sub_cross_ne P P
  -- by the equation of the curve, `f` and `g` are the denominators of the affine law
  have hf : (ptDouble p).z = -p.z ^ 4 * ((1 - d * P.x * P.x * P.y * P.y) *
      (1 + d * P.x * P.x * P.y * P.y)) := by
    simp only [ptDouble, hpx, hpy]
    linear_combination p.z ^ 4 * (P.x ^ 2 + P.y ^ 2 + d * P.x ^ 2 * P.y ^ 2 - 1) * hP
  refine ⟨?_, ?_, ?_, ?_⟩
  · rw [hf]
    exact mul_ne_zero (neg_ne_zero.mpr (pow_ne_zero _ hpz)) (mul_ne_zero hminus hplus)
  · rw [hf]
    simp only [ptDouble, hpx, hpy]
    linear_combination p.z ^ 4 * (1 - d * P.x * P.x * P.y * P.y) * hx +
      2 * p.z ^ 4 * P.x * P.y * hP
  · rw [hf]
    simp only [ptDouble, hpx, hpy]
    linear_combination p.z ^ 4 * (1 + d * P.x * P.x * P.y * P.y) * hy +
      p.z ^ 4 * (P.x ^ 2 - P.y ^ 2) * hP
  · rw [hf]
    simp only [ptDouble, hpx, hpy]
    linear_combination p.z ^ 4 * (P.y * P.y - P.x * P.x) * hx +
      p.z ^ 4 * (P + P).x * (1 + d * P.x * P.x * P.y * P.y) * hy

end Geryon
