/-
How far the transition matrix of `predict` is the derivative of the prediction.

A prediction moves an estimate with an error along one curve, and the filter assumes it on
another.  The two touch in every member but the attitude: an error of the attitude is
carried on as it is, while the body turns under it.
-/
import RobotNav.Esekf.Derivative
import RobotNav.Esekf.Propagation

namespace RobotNav

open Matrix

/-! ## Turns before and after a correction -/

namespace SO3

theorem mul_assoc (p q r : SO3 ℝ) : (p.mul q).mul r = p.mul (q.mul r) := by
  rw [mul, mul, mul, mul, cross_apply, cross_apply, cross_apply, cross_apply]
  congr 1
  · simp [dotProduct, Fin.sum_univ_three]
    ring
  · funext i
    fin_cases i
    · simp [dotProduct, Fin.sum_univ_three, vecHead, vecTail]
      ring
    · simp [dotProduct, Fin.sum_univ_three, vecHead, vecTail]
      ring
    · simp [dotProduct, Fin.sum_univ_three, vecHead, vecTail]
      ring

/-- A correction before a turn and the same one after it are apart by a product of axes. -/
theorem mul_sub_mul (C S : ℝ) (r : SO3 ℝ) (δ : Fin 3 → ℝ) :
    ((SO3.mk C ((S / 2) • δ)).mul r).w - (r.mul ⟨C, (S / 2) • δ⟩).w = 0 ∧
      ((SO3.mk C ((S / 2) • δ)).mul r).vec - (r.mul ⟨C, (S / 2) • δ⟩).vec =
        S • crossProduct δ r.vec := by
  constructor
  · show C * r.w - ((S / 2) • δ) ⬝ᵥ r.vec - (r.w * C - r.vec ⬝ᵥ ((S / 2) • δ)) = 0
    rw [dotProduct_comm r.vec]
    ring
  · show C • r.vec + r.w • (S / 2) • δ + crossProduct ((S / 2) • δ) r.vec -
        (r.w • (S / 2) • δ + C • r.vec + crossProduct r.vec ((S / 2) • δ)) = _
    rw [map_smul, LinearMap.smul_apply, map_smul, ← cross_anticomm δ r.vec]
    module

theorem boxplus_mul_sub (q r : SO3 ℝ) (t : ℝ) (δ : Fin 3 → ℝ) :
    ((q.boxplus .real (t • δ) 1).mul r).w - ((q.mul r).boxplus .real (t • δ) 1).w =
        MTK.smallSin (δ ⬝ᵥ δ / 4) t * -(q.vec ⬝ᵥ crossProduct δ r.vec) ∧
      ((q.boxplus .real (t • δ) 1).mul r).vec - ((q.mul r).boxplus .real (t • δ) 1).vec =
        MTK.smallSin (δ ⬝ᵥ δ / 4) t •
          (q.w • crossProduct δ r.vec + crossProduct q.vec (crossProduct δ r.vec)) := by
  rw [boxplus, boxplus, mul_assoc, mul_assoc, exp_smul]
  set S := MTK.smallSin (δ ⬝ᵥ δ / 4) t
  obtain ⟨hw, hvec⟩ := mul_sub_mul (MTK.smallCos (δ ⬝ᵥ δ / 4) t) S r δ
  set before := (SO3.mk (MTK.smallCos (δ ⬝ᵥ δ / 4) t) ((S / 2) • δ)).mul r
  set after := r.mul ⟨MTK.smallCos (δ ⬝ᵥ δ / 4) t, (S / 2) • δ⟩
  rw [sub_eq_zero] at hw
  rw [sub_eq_iff_eq_add] at hvec
  constructor
  · show q.w * before.w - q.vec ⬝ᵥ before.vec - (q.w * after.w - q.vec ⬝ᵥ after.vec) = _
    rw [hw, hvec, dotProduct_add, dotProduct_smul, smul_eq_mul]
    ring
  · show q.w • before.vec + before.w • q.vec + crossProduct q.vec before.vec -
        (q.w • after.vec + after.w • q.vec + crossProduct q.vec after.vec) = _
    rw [hw, hvec, map_add, map_smul]
    module

/-- The exponential of a rate over a time, short of a whole turn, is about the rate. -/
theorem exp_vec_eq {ω : Fin 3 → ℝ} {dt : ℝ} (h : angleOf (dt • ω) < 2 * Real.pi) :
    ∃ k : ℝ, k ≠ 0 ∧ (exp .real ω dt).vec = k • dt • ω := by
  have hsquare : dt / lit 2 * (dt / lit 2) * squaredNorm ω = (angleOf (dt • ω) / 2) ^ 2 := by
    have hmul := angleOf_mul_self (dt • ω)
    rw [smul_dotProduct, dotProduct_smul, smul_eq_mul, smul_eq_mul] at hmul
    rw [squaredNorm, lit_eq]
    push_cast
    linear_combination (-1 / 4 : ℝ) * hmul
  refine ⟨(MTK.cosSincSqrt .real ((angleOf (dt • ω) / 2) ^ 2)).2 / 2, ?_, ?_⟩
  · have hhalf : 0 ≤ angleOf (dt • ω) / 2 := by linarith [angleOf_nonneg (dt • ω)]
    have hpos : 0 < (MTK.cosSincSqrt .real ((angleOf (dt • ω) / 2) ^ 2)).2 := by
      by_cases hle : 1 / 8192 ≤ (angleOf (dt • ω) / 2) ^ 2
      · rw [MTK.cosSincSqrt_of_le hle, Real.sqrt_sq hhalf]
        have hne : angleOf (dt • ω) / 2 ≠ 0 := by
          intro hzero
          rw [hzero] at hle
          norm_num at hle
        have hgt := lt_of_le_of_ne hhalf hne.symm
        exact div_pos (Real.sin_pos_of_pos_of_lt_pi hgt (by linarith)) hgt
      · obtain ⟨-, hsinc, -⟩ := MTK.cosSincSqrt_range (sq_nonneg _) (not_le.mp hle)
        linarith
    exact (div_pos hpos two_pos).ne'
  · show ((MTK.cosSincSqrt .real (dt / lit 2 * (dt / lit 2) * squaredNorm ω)).2 *
      (dt / lit 2)) • ω = _
    rw [hsquare, lit_eq, smul_smul]
    push_cast
    congr 1
    ring

/-- Two curves of quaternions that touch at zero. -/
structure Tangent (p q : ℝ → SO3 ℝ) : Prop where
  w : HasDerivAt (fun t => (p t).w - (q t).w) 0 0
  vec : HasDerivAt (fun t => (p t).vec - (q t).vec) 0 0

theorem tangent_of_eq {p q : ℝ → SO3 ℝ} (h : ∀ t, p t = q t) : Tangent p q := by
  constructor
  · simp only [h, sub_self]
    exact hasDerivAt_const 0 0
  · simp only [h, sub_self]
    exact hasDerivAt_const 0 0

/-- A correction before a turn touches the same one after it when the axes are parallel, and
only then. -/
theorem boxplus_mul_tangent {q : SO3 ℝ} (hq : q.normSq = 1) (r : SO3 ℝ) (δ : Fin 3 → ℝ) :
    Tangent (fun t : ℝ => (q.boxplus .real (t • δ) 1).mul r)
        (fun t : ℝ => (q.mul r).boxplus .real (t • δ) 1) ↔ crossProduct δ r.vec = 0 := by
  have hsin := MTK.hasDerivAt_smallSin (δ ⬝ᵥ δ / 4)
  set u := crossProduct δ r.vec with hu
  have hw : HasDerivAt (fun t : ℝ => ((q.boxplus .real (t • δ) 1).mul r).w -
      ((q.mul r).boxplus .real (t • δ) 1).w) (-(q.vec ⬝ᵥ u)) 0 := by
    simp only [(boxplus_mul_sub q r _ δ).1]
    simpa only [one_mul] using hsin.mul_const (-(q.vec ⬝ᵥ u))
  have hvec : HasDerivAt (fun t : ℝ => ((q.boxplus .real (t • δ) 1).mul r).vec -
      ((q.mul r).boxplus .real (t • δ) 1).vec) (q.w • u + crossProduct q.vec u) 0 := by
    simp only [(boxplus_mul_sub q r _ δ).2]
    simpa only [one_smul] using hsin.smul_const (q.w • u + crossProduct q.vec u)
  constructor
  · intro h
    have hflat : q.vec ⬝ᵥ u = 0 := neg_eq_zero.mp (hw.unique h.w)
    have hnone : q.w • u + crossProduct q.vec u = 0 := hvec.unique h.vec
    -- the quaternion is one, so what it takes to zero is zero
    have hsquare : (q.w • u + crossProduct q.vec u) ⬝ᵥ (q.w • u + crossProduct q.vec u) =
        q.normSq * (u ⬝ᵥ u) - (q.vec ⬝ᵥ u) * (q.vec ⬝ᵥ u) := by
      have hcross := cross_dot_cross q.vec u q.vec u
      rw [add_dotProduct, dotProduct_add, dotProduct_add, smul_dotProduct, dotProduct_smul,
        smul_dotProduct, dot_cross_self, dotProduct_smul, dotProduct_comm (crossProduct q.vec u) u,
        dot_cross_self, hcross, normSq, squaredNorm, dotProduct_comm u q.vec]
      simp only [smul_eq_mul]
      ring
    rw [hnone, zero_dotProduct, hq, one_mul, hflat, mul_zero, sub_zero] at hsquare
    exact dotProduct_self_eq_zero.mp hsquare.symm
  · intro h
    rw [h, dotProduct_zero, neg_zero] at hw
    rw [h, smul_zero, map_zero, add_zero] at hvec
    exact ⟨hw, hvec⟩

end SO3

/-! ## The transition matrix -/

namespace StateIkfom

/-- Two curves of states that touch at zero in every member but the attitude. -/
structure TangentButRot (x y : ℝ → StateIkfom ℝ) : Prop where
  start : x 0 = y 0
  pos : HasDerivAt (fun t => (x t).pos - (y t).pos) 0 0
  offsetRLI : SO3.Tangent (fun t => (x t).offsetRLI) (fun t => (y t).offsetRLI)
  offsetTLI : HasDerivAt (fun t => (x t).offsetTLI - (y t).offsetTLI) 0 0
  vel : HasDerivAt (fun t => (x t).vel - (y t).vel) 0 0
  bg : HasDerivAt (fun t => (x t).bg - (y t).bg) 0 0
  ba : HasDerivAt (fun t => (x t).ba - (y t).ba) 0 0
  grav : HasDerivAt (fun t => (x t).grav.vec - (y t).grav.vec) 0 0

/-- Two curves of states that touch at zero, member by member. -/
structure Tangent (x y : ℝ → StateIkfom ℝ) : Prop extends TangentButRot x y where
  rot : SO3.Tangent (fun t => (x t).rot) (fun t => (y t).rot)

theorem hasDerivAt_sub_of_eq {k : ℕ} {a b : ℝ → Fin k → ℝ} (h : ∀ t, a t = b t) :
    HasDerivAt (fun t => a t - b t) 0 0 := by
  simp only [h, sub_self]
  exact hasDerivAt_const 0 0

section

variable {s : StateIkfom ℝ} (input : InputIkfom ℝ) (dt : ℝ) (δ : Fin 23 → ℝ)

/-- The curve of a prediction from an estimate with an error. -/
noncomputable def movedAlong (s : StateIkfom ℝ) (t : ℝ) : StateIkfom ℝ :=
  moved (s.boxplus .real (t • δ) 1) input dt

/-- The curve the filter assumes: the error carried by the transition matrix. -/
noncomputable def carriedAlong (s : StateIkfom ℝ) (t : ℝ) : StateIkfom ℝ :=
  (moved s input dt).boxplus .real (t • (transitionMatrix s input dt *ᵥ δ)) 1

theorem get_smul {k : ℕ} (b : Block 23 k) (t : ℝ) (v : Fin 23 → ℝ) :
    b.get (t • v) = t • b.get v := rfl

theorem pos_along (t : ℝ) :
    (movedAlong input dt δ s t).pos = (carriedAlong input dt δ s t).pos := by
  show s.pos + (1 : ℝ) • posIdx.get (t • δ) +
      dt • posDim.get ((s.boxplus .real (t • δ) 1).getF input) =
    s.pos + dt • posDim.get (s.getF input) + (1 : ℝ) • posIdx.get (t • _)
  rw [getF_pos, getF_pos, get_smul, get_smul, transition_pos]
  show _ + dt • (s.vel + (1 : ℝ) • velIdx.get (t • δ)) = _
  rw [get_smul]
  module

theorem vel_along (hrot : s.rot.normSq = 1) :
    HasDerivAt (fun t => (movedAlong input dt δ s t).vel - (carriedAlong input dt δ s t).vel)
      0 0 := by
  have hmade := (hasDerivAt_line s.vel (velIdx.get δ)).fun_add
    ((hasDerivAt_getF_vel hrot input δ).const_smul dt)
  have hassumed := hasDerivAt_line (s.vel + dt • velDim.get (s.getF input))
    (velIdx.get (transitionMatrix s input dt *ᵥ δ))
  refine (hmade.fun_sub hassumed).congr_deriv ?_
  rw [transition_vel, Block.get_mulVec, dfDx_vel_mulVec, sub_self]

/-- What no rate of change reaches is carried as it is. -/
theorem still_along (hgrav : s.grav.Regular) (t : ℝ) :
    (movedAlong input dt δ s t).offsetRLI = (carriedAlong input dt δ s t).offsetRLI ∧
      (movedAlong input dt δ s t).offsetTLI = (carriedAlong input dt δ s t).offsetTLI ∧
      (movedAlong input dt δ s t).bg = (carriedAlong input dt δ s t).bg ∧
      (movedAlong input dt δ s t).ba = (carriedAlong input dt δ s t).ba ∧
      (movedAlong input dt δ s t).grav = (carriedAlong input dt δ s t).grav := by
  have hstill := fun (b : Block 23 3) (hb : b ∈ stillBlocks) =>
    get_transition_still s input dt hb δ
  refine ⟨?_, ?_, ?_, ?_, ?_⟩
  · show (moved _ input dt).offsetRLI = (moved s input dt).offsetRLI.boxplus .real _ 1
    rw [moved_offsetRLI, moved_offsetRLI, get_smul, hstill offsetRIdx (by decide)]
    rfl
  · show (moved _ input dt).offsetTLI = (moved s input dt).offsetTLI + (1 : ℝ) • offsetTIdx.get _
    rw [moved_offsetTLI, moved_offsetTLI, get_smul, hstill offsetTIdx (by decide)]
    rfl
  · show (moved _ input dt).bg = (moved s input dt).bg + (1 : ℝ) • bgIdx.get _
    rw [moved_bg, moved_bg, get_smul, hstill bgIdx (by decide)]
    rfl
  · show (moved _ input dt).ba = (moved s input dt).ba + (1 : ℝ) • baIdx.get _
    rw [moved_ba, moved_ba, get_smul, hstill baIdx (by decide)]
    rfl
  · show (moved _ input dt).grav = (moved s input dt).grav.boxplus .real _ 1
    rw [moved_grav, moved_grav, get_smul, get_transition_grav,
      gravityBlock_eq_one s input dt hgrav, one_mulVec]
    rfl

/-- The attitude turns under its error. -/
theorem rot_along_iff (hrot : s.rot.normSq = 1)
    (hturn : angleOf (dt • (input.gyro - s.bg)) < 2 * Real.pi) (hbg : bgIdx.get δ = 0) :
    SO3.Tangent (fun t => (movedAlong input dt δ s t).rot)
        (fun t => (carriedAlong input dt δ s t).rot) ↔
      crossProduct (rotIdx.get δ) (dt • (input.gyro - s.bg)) = 0 := by
  have hrate : ∀ t : ℝ, rotDim.get ((s.boxplus .real (t • δ) 1).getF input) =
      input.gyro - s.bg := by
    intro t
    rw [getF_rot]
    show input.gyro - (s.bg + (1 : ℝ) • t • bgIdx.get δ) = _
    rw [hbg, smul_zero, smul_zero, add_zero]
  have hmade : ∀ t, (movedAlong input dt δ s t).rot =
      (s.rot.boxplus .real (t • rotIdx.get δ) 1).mul
        (SO3.exp .real (input.gyro - s.bg) dt) := by
    intro t
    show (s.rot.boxplus .real (rotIdx.get (t • δ)) 1).oplus .real
      (rotDim.get ((s.boxplus .real (t • δ) 1).getF input)) dt = _
    rw [hrate, get_smul, SO3.oplus]
  have hassumed : ∀ t, (carriedAlong input dt δ s t).rot =
      (s.rot.mul (SO3.exp .real (input.gyro - s.bg) dt)).boxplus .real (t • rotIdx.get δ) 1 := by
    intro t
    show (s.rot.oplus .real (rotDim.get (s.getF input)) dt).boxplus .real
      (rotIdx.get (t • (transitionMatrix s input dt *ᵥ δ))) 1 = _
    rw [getF_rot, get_smul, transition_rot, hbg, mulVec_zero, smul_zero, sub_zero, SO3.oplus]
  obtain ⟨k, hk, hvec⟩ := SO3.exp_vec_eq hturn
  have hparallel := SO3.boxplus_mul_tangent hrot (SO3.exp .real (input.gyro - s.bg) dt)
    (rotIdx.get δ)
  rw [hvec, map_smul, smul_eq_zero_iff_right hk] at hparallel
  rw [← hparallel]
  simp only [hmade, hassumed]

/-- All members but the attitude are carried on to the first order, whatever the error. -/
theorem tangentButRot_along (hrot : s.rot.normSq = 1) (hgrav : s.grav.Regular) :
    TangentButRot (movedAlong input dt δ s) (carriedAlong input dt δ s) := by
  have hstill := still_along input dt δ hgrav
  exact
    { start := by simp only [movedAlong, carriedAlong, zero_smul, boxplus_zero]
      pos := hasDerivAt_sub_of_eq (pos_along input dt δ)
      offsetRLI := SO3.tangent_of_eq fun t => (hstill t).1
      offsetTLI := hasDerivAt_sub_of_eq fun t => (hstill t).2.1
      vel := vel_along input dt δ hrot
      bg := hasDerivAt_sub_of_eq fun t => (hstill t).2.2.1
      ba := hasDerivAt_sub_of_eq fun t => (hstill t).2.2.2.1
      grav := hasDerivAt_sub_of_eq fun t => congrArg S2.vec (hstill t).2.2.2.2 }

/-- For an error without a part in the bias of the gyroscope, the transition matrix is the
derivative of the prediction exactly where the body turns about the axis of the error of the
attitude: the rest of the state is carried on to the first order, the attitude is not. -/
theorem transition_tangent_iff (hrot : s.rot.normSq = 1) (hgrav : s.grav.Regular)
    (hturn : angleOf (dt • (input.gyro - s.bg)) < 2 * Real.pi) (hbg : bgIdx.get δ = 0) :
    TangentButRot (movedAlong input dt δ s) (carriedAlong input dt δ s) ∧
      (Tangent (movedAlong input dt δ s) (carriedAlong input dt δ s) ↔
        crossProduct (rotIdx.get δ) (dt • (input.gyro - s.bg)) = 0) := by
  have hcurves := rot_along_iff input dt δ hrot hturn hbg
  have hrest := tangentButRot_along input dt δ hrot hgrav
  exact ⟨hrest, fun h => hcurves.mp h.rot, fun h => ⟨hrest, hcurves.mpr h⟩⟩

end

/-- A turn about the third axis under an error about the first: the two curves part. -/
theorem transition_tangent_iff_turning :
    TangentButRot (movedAlong ⟨0, Pi.single 2 1⟩ (1 / 100) (rotIdx.set (Pi.single 0 1) 0) create)
        (carriedAlong ⟨0, Pi.single 2 1⟩ (1 / 100) (rotIdx.set (Pi.single 0 1) 0) create) ∧
      (Tangent (movedAlong ⟨0, Pi.single 2 1⟩ (1 / 100) (rotIdx.set (Pi.single 0 1) 0) create)
          (carriedAlong ⟨0, Pi.single 2 1⟩ (1 / 100) (rotIdx.set (Pi.single 0 1) 0) create) ↔
        crossProduct (rotIdx.get (rotIdx.set (Pi.single 0 1) (0 : Fin 23 → ℝ)))
          ((1 / 100 : ℝ) •
            ((⟨0, Pi.single 2 1⟩ : InputIkfom ℝ).gyro - (create : StateIkfom ℝ).bg)) = 0) := by
  have hpi := Real.pi_gt_three
  have hrate : (1 / 100 : ℝ) • ((⟨0, Pi.single 2 1⟩ : InputIkfom ℝ).gyro -
      (create : StateIkfom ℝ).bg) = Pi.single 2 (1 / 100) := by
    funext i
    show (1 / 100 : ℝ) * ((Pi.single 2 1 : Fin 3 → ℝ) i - lit 0) = _
    rw [lit_eq, Int.cast_zero, sub_zero]
    fin_cases i <;> simp
  have hangle : angleOf (Pi.single 2 (1 / 100) : Fin 3 → ℝ) = 1 / 100 := by
    rw [angleOf, single_dotProduct, Pi.single_eq_same, Real.sqrt_mul_self (by norm_num)]
  refine transition_tangent_iff _ _ _ create_proper.rot create_proper.grav ?_ ?_
  · rw [hrate, hangle]
    linarith
  · rw [Block.get_set_of_apart (by decide)]
    rfl

end StateIkfom

end RobotNav
