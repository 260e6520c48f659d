import Geryon.Krmldsa.Keys

/-!
# One signing attempt

What an attempt of `sign` does, apart from the buffer it works in: `Attempt.Accepted` says when it
is accepted, and then the buffer holds the challenge hash, the responses and the hint, each where
the verifier looks for it (`krAttempt_spec`). What the buffer held before, and the scratch of the
rejected attempts, has no part in either.
-/

namespace Geryon

open Buffer (slice rows)
open MldsaNative

variable {p : MldsaSet} [MldsaNative p]

/-- The bounds of the two parameter sets, in the form the attempts need. -/
theorem gamma_bounds (p : MldsaSet) :
    p.gamma1 ≤ 524288 ∧ p.gamma2 ≤ 261888 ∧ 0 < p.beta ∧ krBeta p < p.gamma1 ∧
      krBeta p < p.gamma2 := by
  cases p <;> decide

omit [MldsaNative p] in
/-- Masks and responses are below `q`. -/
theorem ZRange.lt_q {x : ℤ} (h : ZRange p x) : |x| < (mldsaQ : ℤ) := by
  have hγ := (gamma_bounds p).1
  unfold ZRange at h
  rw [mldsaQ_eq, abs_lt]
  omega

/-- The norm check passes exactly if every coefficient is below the bound. -/
theorem polyChknorm_eq_false {a : MldPoly} {b : ℤ} (ha : ∀ i, |a i| ≤ 6283009) (h0 : 0 ≤ b)
    (hb : b ≤ 524288) : polyChknorm p a b = false ↔ ∀ i, |a i| < b := by
  have hle : b ≤ ((mldsaQ : ℤ) - 1) / 8 := hb.trans (by decide)
  rw [← Bool.not_eq_true, polyChknorm_iff ha h0 hle, not_exists]
  exact forall_congr' fun i => not_le

/-! ## The loop over the responses -/

section Responses

variable (rsk : KrRsk p) (y : Fin p.l → MldPoly) (cp : Hat p)

/-- A response is within its bound. -/
def ResponseOk (j : Fin p.l) : Prop :=
  polyChknorm p (krResponse rsk y cp j) (p.gamma1 - krBeta p) = false

/-- The loop runs to its end exactly if every response is within its bound. -/
theorem krResponses_fst (js : List (Fin p.l)) (sig : KrSig p) :
    (krResponses rsk y cp js sig).1 = true ↔ ∀ j ∈ js, ResponseOk rsk y cp j := by
  induction js generalizing sig with
  | nil => simp [krResponses]
  | cons j js ih =>
    rw [List.forall_mem_cons, krResponses]
    unfold ResponseOk
    split
    · next hbad => simp [hbad]
    · next hgood =>
      rw [Bool.not_eq_true] at hgood
      rw [ih, and_iff_right hgood]
      rfl

omit [MldsaNative p] in
/-- The rows of the responses follow one another. -/
theorem sigZOff_add (n : ℕ) : sigZOff p n + p.polyzPackedBytes = sigZOff p (n + 1) := by
  unfold sigZOff
  ring

omit [MldsaNative p] in
/-- Later rows stand behind. -/
theorem sigZOff_mono {m n : ℕ} (h : m ≤ n) : sigZOff p m ≤ sigZOff p n :=
  Nat.add_le_add_left (Nat.mul_le_mul_right _ h) _

variable {y} (hy : ∀ j i, ZRange p (y j i))

include hy

/-- A product and a mask are added without overflow. -/
theorem addable_response (j : Fin p.l) :
    Addable (polyProduct p (rsk.s1hat j) cp) (y j) := by
  intro i
  have hprod := abs_lt.mp (polyProduct_lt (rsk.s1hat j) cp i)
  have hr := abs_lt.mp (hy j i).lt_q
  rw [mldsaQ_eq] at hprod hr
  omega

variable {rsk cp}

/-- What the norm check of a response says. -/
theorem ResponseOk.lt {j : Fin p.l} (h : ResponseOk rsk y cp j) (i : Fin 256) :
    |krResponse rsk y cp j i| < p.gamma1 - krBeta p := by
  have hle : ∀ i, |krResponse rsk y cp j i| ≤ 6283009 :=
    polyReduce_le (reducible32_polyAdd (addable_response rsk cp hy j))
  have hγ := gamma_bounds p
  exact (polyChknorm_eq_false hle (by omega) (by unfold krBeta; omega)).mp h i

/-- A response that is written can be packed. -/
theorem ResponseOk.range {j : Fin p.l} (h : ResponseOk rsk y cp j) (i : Fin 256) :
    ZRange p (krResponse rsk y cp j i) := by
  have hlt := abs_lt.mp (h.lt hy i)
  have hβ := gamma_bounds p
  unfold krBeta at hlt hβ
  unfold ZRange
  omega

omit hy

/-- Every response fits the buffer. -/
theorem sigZ_fits (z : MldPoly) (j : Fin p.l) :
    sigZOff p j + ((MldsaNative.z (p := p)).pack z).length ≤ p.cryptoBytes := by
  rw [(MldsaNative.z (p := p)).length_pack, sigZOff_add]
  exact (sigZOff_mono j.isLt).trans (Nat.le_add_right _ _)

/-- Writing a response leaves the others. -/
theorem slice_packSigZ_other (sig : KrSig p) {z : MldPoly} (hz : ∀ i, ZRange p (z i))
    {j j' : Fin p.l} (h : j' ≠ j) :
    slice (sigZOff p j') p.polyzPackedBytes (packSigZ sig z j).toList =
      slice (sigZOff p j') p.polyzPackedBytes sig.toList := by
  rw [packSigZ_eq sig j hz]
  apply Buffer.slice_put_other (sigZ_fits z j)
  rw [(MldsaNative.z (p := p)).length_pack, sigZOff_add, sigZOff_add]
  rcases Nat.lt_or_gt_of_ne fun hval => h (Fin.ext hval) with hlt | hgt
  · exact .inl (sigZOff_mono hlt)
  · exact .inr (sigZOff_mono hgt)

/-- A response is found where it was written. -/
theorem slice_packSigZ_self (sig : KrSig p) {z : MldPoly} (hz : ∀ i, ZRange p (z i))
    (j : Fin p.l) :
    slice (sigZOff p j) p.polyzPackedBytes (packSigZ sig z j).toList =
      (MldsaNative.z (p := p)).pack z := by
  rw [packSigZ_eq sig j hz]
  have hself := Buffer.slice_put_self (b := sig) (sigZ_fits z j)
  rwa [(MldsaNative.z (p := p)).length_pack] at hself

include hy

/-- A response the loop does not come to is left as it is. -/
theorem slice_krResponses_other (js : List (Fin p.l)) (sig : KrSig p) {j' : Fin p.l}
    (h : j' ∉ js) :
    slice (sigZOff p j') p.polyzPackedBytes (krResponses rsk y cp js sig).2.toList =
      slice (sigZOff p j') p.polyzPackedBytes sig.toList := by
  induction js generalizing sig with
  | nil => rfl
  | cons j js ih =>
    rw [List.mem_cons, not_or] at h
    rw [krResponses]
    split
    · rfl
    · next hgood =>
      have hok : ResponseOk rsk y cp j := eq_false_of_ne_true hgood
      rw [ih _ h.2, slice_packSigZ_other sig (hok.range hy) h.1]

/-- A loop that runs to its end has written every response. -/
theorem slice_krResponses (js : List (Fin p.l)) (hnodup : js.Nodup) (sig : KrSig p)
    (h : (krResponses rsk y cp js sig).1 = true) :
    ∀ j ∈ js, slice (sigZOff p j) p.polyzPackedBytes (krResponses rsk y cp js sig).2.toList =
      (MldsaNative.z (p := p)).pack (krResponse rsk y cp j) := by
  induction js generalizing sig with
  | nil => simp
  | cons j js ih =>
    obtain ⟨hj, hjs⟩ := List.nodup_cons.mp hnodup
    rw [krResponses] at h ⊢
    split at h
    · exact absurd h Bool.false_ne_true
    · next hgood =>
      have hok : ResponseOk rsk y cp j := eq_false_of_ne_true hgood
      rw [if_neg hgood]
      intro j' hj'
      cases hj' with
      | head => rw [slice_krResponses_other hy js _ hj, slice_packSigZ_self sig (hok.range hy)]
      | tail _ htail => exact ih hjs _ h j' htail

end Responses

/-! ## The loop over the low parts -/

section Lows

variable (rsk : KrRsk p) (cp : Hat p)

/-- The low part of a row and `c * t0` are within their bounds. -/
def LowOk (w0 : MldPoly) (r : Fin p.k) : Prop :=
  polyChknorm p (krLow rsk cp w0 r) (p.gamma2 - krBeta p) = false ∧
    polyChknorm p (krCt0 rsk cp r) p.gamma2 = false

instance (w0 : MldPoly) (r : Fin p.k) : Decidable (LowOk rsk cp w0 r) :=
  inferInstanceAs (Decidable (_ ∧ _))

/-- The row the loop leaves. -/
def krLowRow (w0 : MldPoly) (r : Fin p.k) : MldPoly :=
  polyAdd p (krLow rsk cp w0 r) (krCt0 rsk cp r)

/-- The loop leaves early exactly if some row is out of bounds; otherwise it has done every row by
itself. -/
theorem krLows_eq (rs : List (Fin p.k)) (hnodup : rs.Nodup) (w0 : Fin p.k → MldPoly) :
    krLows rsk cp rs w0 =
      if ∀ r ∈ rs, LowOk rsk cp (w0 r) r then
        some fun r => if r ∈ rs then krLowRow rsk cp (w0 r) r else w0 r
      else none := by
  induction rs generalizing w0 with
  | nil => simp [krLows]
  | cons r rs ih =>
    obtain ⟨hr, hrs⟩ := List.nodup_cons.mp hnodup
    -- the rows still to come are as they were
    have hother : ∀ x : MldPoly, ∀ r' ∈ rs, Function.update w0 r x r' = w0 r' := fun x r' hr' =>
      Function.update_of_ne (fun heq : r' = r => hr (heq ▸ hr')) _ _
    rw [krLows]
    dsimp only
    split
    · next hbad =>
      rw [if_neg fun hall => ?_]
      exact Bool.false_ne_true ((hall r List.mem_cons_self).1.symm.trans hbad)
    · split
      · next hbad =>
        rw [if_neg fun hall => ?_]
        exact Bool.false_ne_true ((hall r List.mem_cons_self).2.symm.trans hbad)
      · next hlow hct0 =>
        have hok : LowOk rsk cp (w0 r) r := ⟨eq_false_of_ne_true hlow, eq_false_of_ne_true hct0⟩
        have hiff : (∀ r' ∈ rs, LowOk rsk cp
            (Function.update w0 r (polyAdd p (krLow rsk cp (w0 r) r) (krCt0 rsk cp r)) r') r') ↔
              ∀ r' ∈ r :: rs, LowOk rsk cp (w0 r') r' := by
          rw [List.forall_mem_cons, and_iff_right hok]
          exact forall₂_congr fun r' hr' => by rw [hother _ r' hr']
        rw [ih hrs, if_congr hiff rfl rfl]
        congr 2
        funext r'
        by_cases heq : r' = r
        · subst heq
          rw [if_neg hr, if_pos List.mem_cons_self, Function.update_self, krLowRow]
        · rw [Function.update_of_ne heq]
          simp only [List.mem_cons, heq, false_or]

/-- `w0 - c s2` can be reduced. -/
theorem reducible32_low {w0 : MldPoly} (hw : ∀ i, |w0 i| ≤ p.gamma2) (r : Fin p.k) :
    Reducible32 (polySub p w0 (polyProduct p (rsk.s2hat r) cp)) := by
  have hγ : p.gamma2 < (mldsaQ : ℤ) := lt_of_le_of_lt (gamma_bounds p).2.1 (by decide)
  exact reducible32_polySub (fun i => lt_of_le_of_lt (hw i) hγ) (polyProduct_lt _ _)

/-- A product can be reduced. -/
theorem reducible32_product (a b : Hat p) : Reducible32 (polyProduct p a b) := by
  intro i
  have hprod := abs_lt.mp (polyProduct_lt a b i)
  rw [mldsaQ_eq] at hprod
  omega

/-- The bound of the reduction for the low part. -/
theorem krLow_le {w0 : MldPoly} (hw : ∀ i, |w0 i| ≤ p.gamma2) (r : Fin p.k) (i : Fin 256) :
    |krLow rsk cp w0 r i| ≤ 6283009 :=
  polyReduce_le (reducible32_low rsk cp hw r) i

/-- And for `c t0`. -/
theorem krCt0_le (r : Fin p.k) (i : Fin 256) : |krCt0 rsk cp r i| ≤ 6283009 :=
  polyReduce_le (reducible32_product _ _) i

/-- The low part and `c t0` are added without overflow. -/
theorem addable_low {w0 : MldPoly} (hw : ∀ i, |w0 i| ≤ p.gamma2) (r : Fin p.k) :
    Addable (krLow rsk cp w0 r) (krCt0 rsk cp r) := by
  intro i
  have hlow := abs_le.mp (krLow_le rsk cp hw r i)
  have hct0 := abs_le.mp (krCt0_le rsk cp r i)
  omega

variable {rsk cp}

/-- The row the loop leaves stays below a full step. -/
theorem LowOk.row_lt {w0 : MldPoly} (hw : ∀ i, |w0 i| ≤ p.gamma2) {r : Fin p.k}
    (h : LowOk rsk cp w0 r) (i : Fin 256) : |krLowRow rsk cp w0 r i| < 2 * p.gamma2 := by
  have hγ := gamma_bounds p
  unfold krBeta at hγ
  have hlow := (polyChknorm_eq_false (krLow_le rsk cp hw r) (by unfold krBeta; omega)
    (by unfold krBeta; omega)).mp h.1 i
  have hct0 := (polyChknorm_eq_false (krCt0_le rsk cp r) (by omega) (by omega)).mp h.2 i
  unfold krBeta at hlow
  rw [abs_lt] at hlow hct0
  rw [krLowRow, polyAdd_eq (addable_low rsk cp hw r), abs_lt]
  dsimp only
  omega

end Lows

/-! ## The attempt -/

/-- What an attempt starts from. -/
structure Attempt (p : MldsaSet) [MldsaNative p] where
  mu : Bytes UInt8
  rhoprime : Bytes UInt8
  nonce : ℕ
  mat : Fin p.k → Fin p.l → Hat p
  rsk : KrRsk p

namespace Attempt

variable (a : Attempt p)

/-- The mask. -/
def y : Fin p.l → MldPoly := yvecInit a.rhoprime a.nonce

/-- The product of the matrix and the mask, in `[0, q)`. -/
def w (r : Fin p.k) : MldPoly := polyCaddq p (matrixYvec a.mat a.y r)

/-- The high parts. -/
def w1 : Fin p.k → MldPoly := (polyveckDecompose a.w).1

/-- The low parts. -/
def w0 : Fin p.k → MldPoly := (polyveckDecompose a.w).2

/-- The challenge hash. -/
def c : Bytes UInt8 := krH p p.ctildeBytes a.mu (rows fun r => w1Pack p (a.w1 r)) []

/-- The challenge, in the NTT domain. -/
def cp : Hat p := polyNtt (polyChallenge p a.c)

/-- The responses. -/
def z (j : Fin p.l) : MldPoly := krResponse a.rsk a.y a.cp j

/-- The low parts of `w - c * s2 + c * t0`. -/
def low (r : Fin p.k) : MldPoly := krLowRow a.rsk a.cp (a.w0 r) r

/-- The hint. -/
def hint : MldHint p := mldHint p a.low a.w1

/-- The attempt passes every check. -/
def Accepted : Prop :=
  (∀ j, ResponseOk a.rsk a.y a.cp j) ∧ (∀ r, LowOk a.rsk a.cp (a.w0 r) r) ∧
    hintWeight a.hint ≤ p.omega

/-- The mask is in range. -/
theorem y_range (j : Fin p.l) (i : Fin 256) : ZRange p (a.y j i) := yvecInit_range _ _ j i

/-- The rows of `w` are in `[0, q)`. -/
theorem w_reduced (r : Fin p.k) : Reduced (a.w r) := reduced_polyCaddq (matrixYvec_lt _ _ r)

omit [MldsaNative p] in
/-- The rounding intervals of both parameter sets. -/
theorem balanced (p : MldsaSet) :
    Rounding.Balanced (mldsaQ : ℤ) p.gamma2 (p.highParts : ℤ) := by
  cases p <;> exact ⟨by decide, by decide, by decide⟩

/-- The high parts are below their number and the low parts within `gamma2`. -/
theorem parts_bounds (r : Fin p.k) (i : Fin 256) :
    (0 ≤ a.w1 r i ∧ a.w1 r i < p.highParts) ∧ |a.w0 r i| ≤ p.gamma2 := by
  obtain ⟨h0, h1, hlo, hhi⟩ := Rounding.decompose_bounds (balanced p) (a.w r i)
  rw [w1, w0, polyveckDecompose_eq a.w_reduced]
  exact ⟨⟨h0, h1⟩, abs_le.mpr ⟨hlo, hhi⟩⟩

/-- The low part stays below a full step. -/
theorem low_lt (h : ∀ r, LowOk a.rsk a.cp (a.w0 r) r) (r : Fin p.k) (i : Fin 256) :
    |a.low r i| < 2 * p.gamma2 :=
  (h r).row_lt (fun i => (a.parts_bounds r i).2) i

omit [MldsaNative p] in
/-- The scratch of the high bits fits the buffer. -/
theorem polyw1_fits : p.k * p.polyw1PackedBytes ≤ p.cryptoBytes := by
  cases p <;> decide

/-- The challenge hash has its length. -/
theorem length_c : a.c.length = p.ctildeBytes := length_shake256 _ _

/-- The scratch of the high bits is hashed as it was written. -/
theorem c_eq (sig : KrSig p) :
    krH p p.ctildeBytes a.mu (slice 0 (p.k * p.polyw1PackedBytes)
      (sig.put 0 (rows fun r => w1Pack p (a.w1 r))).toList) [] = a.c := by
  have hlen : (rows fun r => w1Pack p (a.w1 r)).length = p.k * p.polyw1PackedBytes :=
    Buffer.length_rows fun r => length_w1Pack _
  have hfits : 0 + (rows fun r => w1Pack p (a.w1 r)).length ≤ p.cryptoBytes := by
    rw [hlen, Nat.zero_add]
    exact polyw1_fits
  have hself := Buffer.slice_put_self (b := sig) hfits
  rw [← hlen, hself, c]

/-- The signature an accepted attempt leaves in the buffer. -/
def Leaves (sig : KrSig p) : Prop :=
  slice 0 p.ctildeBytes sig.toList = a.c ∧
    (∀ j : Fin p.l, slice (sigZOff p j) p.polyzPackedBytes sig.toList =
      (MldsaNative.z (p := p)).pack (a.z j)) ∧
    slice (sigZOff p p.l) p.polyvechPackedBytes sig.toList = hintBitPack a.hint

/-- The challenge hash and the hint are written beside the responses. -/
theorem leaves_of_responses {sig : KrSig p}
    (hz : ∀ j : Fin p.l, slice (sigZOff p j) p.polyzPackedBytes sig.toList =
      (MldsaNative.z (p := p)).pack (a.z j)) :
    a.Leaves ((sig.put 0 a.c).put (sigZOff p p.l) (hintBitPack a.hint)) := by
  have hc := a.length_c
  have hh := length_hintBitPack a.hint
  have hz0 : sigZOff p 0 = p.ctildeBytes := by
    unfold sigZOff
    omega
  have hend : sigZOff p p.l + p.polyvechPackedBytes = p.cryptoBytes := rfl
  have hstart : p.ctildeBytes ≤ sigZOff p p.l := hz0 ▸ sigZOff_mono (Nat.zero_le _)
  have hfitc : 0 + a.c.length ≤ p.cryptoBytes := by omega
  have hfith : sigZOff p p.l + (hintBitPack a.hint).length ≤ p.cryptoBytes := by omega
  refine ⟨?_, fun j => ?_, ?_⟩
  · rw [Buffer.slice_put_other hfith (.inl (by omega)), ← hc, Buffer.slice_put_self hfitc]
  · have hlo : p.ctildeBytes ≤ sigZOff p j := hz0 ▸ sigZOff_mono (Nat.zero_le _)
    have hhi : sigZOff p j + p.polyzPackedBytes ≤ sigZOff p p.l := by
      rw [sigZOff_add]
      exact sigZOff_mono j.isLt
    rw [Buffer.slice_put_other hfith (.inl hhi), Buffer.slice_put_other hfitc (.inr (by omega)),
      hz j]
  · rw [← hh, Buffer.slice_put_self hfith]

/-- The attempt from the end of the loop over the responses on, with the challenge hash and the
challenge. -/
def afterResponses (c : Bytes UInt8) (cp : Hat p) : Bool × KrSig p → Except GyErr Unit × KrSig p
  | (false, sig) => (.error .verify, sig)
  | (true, sig) =>
    match krLows a.rsk cp (List.finRange p.k) a.w0 with
    | none => (.error .verify, sig)
    | some w0 =>
      match packSigH (sig.put 0 c) w0 a.w1 with
      | none => (.error .verify, sig.put 0 c)
      | some sig => (.ok (), sig)

/-- An attempt is its first half followed by what comes after the responses. -/
theorem krAttempt_eq (sig : KrSig p) :
    krAttempt sig a.mu a.rhoprime a.nonce a.mat a.rsk =
      a.afterResponses a.c a.cp (krResponses a.rsk a.y a.cp (List.finRange p.l)
        (sig.put 0 (rows fun r => w1Pack p (a.w1 r)))) := by
  rw [cp, ← a.c_eq sig]
  rfl

/-- When every response was written, the low parts and the number of hint bits decide. -/
theorem afterResponses_true (sig : KrSig p) :
    a.afterResponses a.c a.cp (true, sig) =
      if ∀ r, LowOk a.rsk a.cp (a.w0 r) r then
        if p.omega < hintWeight a.hint then (.error .verify, sig.put 0 a.c)
        else (.ok (), (sig.put 0 a.c).put (sigZOff p p.l) (hintBitPack a.hint))
      else (.error .verify, sig) := by
  rw [afterResponses, krLows_eq _ _ _ (List.nodup_finRange _)]
  simp only [List.mem_finRange, true_imp_iff, if_true]
  by_cases hlow : ∀ r, LowOk a.rsk a.cp (a.w0 r) r
  · rw [if_pos hlow, if_pos hlow]
    have hpack : packSigH (sig.put 0 a.c) (fun r => krLowRow a.rsk a.cp (a.w0 r) r) a.w1 =
        if p.omega < hintWeight a.hint then none
        else some ((sig.put 0 a.c).put (sigZOff p p.l) (hintBitPack a.hint)) :=
      packSigH_eq _ (a.low_lt hlow) fun r i => (a.parts_bounds r i).1
    dsimp only
    rw [hpack]
    by_cases hw : p.omega < hintWeight a.hint
    · rw [if_pos hw, if_pos hw]
    · rw [if_neg hw, if_neg hw]
  · rw [if_neg hlow, if_neg hlow]

/-- An attempt is accepted or marked as rejected, whatever the buffer holds, and an accepted one
leaves its signature there. -/
theorem krAttempt_spec (sig : KrSig p) :
    (a.Accepted ∧ ∃ sig', krAttempt sig a.mu a.rhoprime a.nonce a.mat a.rsk = (.ok (), sig') ∧
      a.Leaves sig') ∨
    (¬a.Accepted ∧ (krAttempt sig a.mu a.rhoprime a.nonce a.mat a.rsk).1 = .error .verify) := by
  rw [krAttempt_eq]
  generalize hres : krResponses a.rsk a.y a.cp (List.finRange p.l)
    (sig.put 0 (rows fun r => w1Pack p (a.w1 r))) = res
  have hfst := krResponses_fst a.rsk a.y a.cp (List.finRange p.l)
    (sig.put 0 (rows fun r => w1Pack p (a.w1 r)))
  have hslice := @slice_krResponses p _ a.rsk a.y a.cp a.y_range _ (List.nodup_finRange _)
    (sig.put 0 (rows fun r => w1Pack p (a.w1 r)))
  rw [hres] at hfst hslice
  rcases res with ⟨ok, sig'⟩
  cases ok with
  | false =>
    exact .inr ⟨fun hacc => Bool.false_ne_true (hfst.mpr fun j _ => hacc.1 j), rfl⟩
  | true =>
    have hz : ∀ j, ResponseOk a.rsk a.y a.cp j := fun j => hfst.mp rfl j (List.mem_finRange j)
    rw [afterResponses_true]
    split
    · next hlow =>
      split
      · next hw => exact .inr ⟨fun hacc => absurd hacc.2.2 (not_le.mpr hw), rfl⟩
      · next hw =>
        exact .inl ⟨⟨hz, hlow, not_lt.mp hw⟩, _, rfl,
          a.leaves_of_responses fun j => hslice rfl j (List.mem_finRange j)⟩
    · next hlow => exact .inr ⟨fun hacc => hlow hacc.2.1, rfl⟩

end Attempt

end Geryon
