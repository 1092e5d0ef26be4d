/-
Runs of the filter: any sequence of predictions and updates.

The quaternions and gravity are never brought back to their lengths, so every correction
may shorten them; the covariance stays positive definite while none of the blocks it is
multiplied by is singular.
-/
import RobotNav.Esekf.Covariance
import RobotNav.Esekf.Propagation
import RobotNav.Library.Machine

namespace RobotNav

open Matrix

namespace StateIkfom

/-- A call to the filter. -/
inductive FilterStep (Env : Type) where
  | predict (p : Prediction)
  | update (cfg : UpdateConfig ℝ (manifold .real) Env) (env : Env)

variable {Env : Type} (e : Eigen ℝ)

noncomputable def FilterStep.apply (kf : Esekf (manifold .real)) :
    FilterStep Env → Esekf (manifold .real)
  | .predict p => kf.predict .real (processModel .real) p.dt p.Q p.input
  | .update cfg env => (updateIteratedDynShareModified .real e twelve_le_dof cfg kf env).1.kf

noncomputable def filterRuns (kf : Esekf (manifold .real)) :
    Machine (Esekf (manifold .real)) (FilterStep Env) Unit where
  init := kf
  step := fun kf s => (s.apply e kf, ())

/-! ## Lengths -/

/-- What `N` corrections leave of the squares of the lengths. -/
structure Shortened (N : ℕ) (x x' : StateIkfom ℝ) : Prop where
  rot : (1 - 1 / 2 ^ 66) ^ N * x.rot.normSq ≤ x'.rot.normSq ∧ x'.rot.normSq ≤ x.rot.normSq
  offsetRLI : (1 - 1 / 2 ^ 66) ^ N * x.offsetRLI.normSq ≤ x'.offsetRLI.normSq ∧
    x'.offsetRLI.normSq ≤ x.offsetRLI.normSq
  grav : (1 - 1 / 2 ^ 64) ^ N * (x.grav.vec ⬝ᵥ x.grav.vec) ≤ x'.grav.vec ⬝ᵥ x'.grav.vec ∧
    x'.grav.vec ⬝ᵥ x'.grav.vec ≤ x.grav.vec ⬝ᵥ x.grav.vec

theorem shortened_mul {r : ℝ} (hr : 0 ≤ r) {N N' : ℕ} {a b d : ℝ}
    (hab : r ^ N * a ≤ b ∧ b ≤ a) (hbd : r ^ N' * b ≤ d ∧ d ≤ b) :
    r ^ (N + N') * a ≤ d ∧ d ≤ a := by
  constructor
  · calc r ^ (N + N') * a = r ^ N' * (r ^ N * a) := by rw [pow_add]; ring
      _ ≤ r ^ N' * b := mul_le_mul_of_nonneg_left hab.1 (pow_nonneg hr N')
      _ ≤ d := hbd.1
  · exact hbd.2.trans hab.2

theorem Shortened.trans {N N' : ℕ} {x x' x'' : StateIkfom ℝ} (h : Shortened N x x')
    (h' : Shortened N' x' x'') : Shortened (N + N') x x'' where
  rot := shortened_mul (by norm_num) h.rot h'.rot
  offsetRLI := shortened_mul (by norm_num) h.offsetRLI h'.offsetRLI
  grav := shortened_mul (by norm_num) h.grav h'.grav

theorem normSq_nonneg (q : SO3 ℝ) : 0 ≤ q.normSq :=
  add_nonneg (mul_self_nonneg q.w) (dotProduct_self_nonneg_real q.vec)

theorem Shortened.refl (x : StateIkfom ℝ) : Shortened 0 x x where
  rot := by simp
  offsetRLI := by simp
  grav := by simp

theorem shortened_mono {r a b : ℝ} (hr : 0 ≤ r) (hr1 : r ≤ 1) (ha : 0 ≤ a) {N N' : ℕ}
    (hle : N ≤ N') (h : r ^ N * a ≤ b ∧ b ≤ a) : r ^ N' * a ≤ b ∧ b ≤ a :=
  ⟨(mul_le_mul_of_nonneg_right (pow_le_pow_of_le_one hr hr1 hle) ha).trans h.1, h.2⟩

theorem Shortened.mono {N N' : ℕ} (hle : N ≤ N') {x x' : StateIkfom ℝ} (h : Shortened N x x') :
    Shortened N' x x' where
  rot := shortened_mono (by norm_num) (by norm_num) (normSq_nonneg _) hle h.rot
  offsetRLI := shortened_mono (by norm_num) (by norm_num) (normSq_nonneg _) hle h.offsetRLI
  grav := shortened_mono (by norm_num) (by norm_num) (dotProduct_self_nonneg_real _) hle h.grav

/-- The quaternion of a correction is a little short of one. -/
theorem mul_ofExp_normSq (q : SO3 ℝ) (v : Fin 3 → ℝ) (scale : ℝ) :
    (1 - 1 / 2 ^ 66) ^ 1 * q.normSq ≤ (q.mul (SO3.exp .real v scale)).normSq ∧
      (q.mul (SO3.exp .real v scale)).normSq ≤ q.normSq := by
  obtain ⟨hlow, hhigh⟩ := SO3.ofExp_normSq v (scale / lit 2)
  rw [normSq_mul, pow_one, mul_comm q.normSq]
  exact ⟨mul_le_mul_of_nonneg_right hlow (normSq_nonneg q),
    mul_le_of_le_one_left (normSq_nonneg q) hhigh⟩

theorem shortened_boxplus (x : StateIkfom ℝ) (v : Fin 23 → ℝ) (scale : ℝ) :
    Shortened 1 x (x.boxplus .real v scale) where
  rot := mul_ofExp_normSq x.rot _ scale
  offsetRLI := mul_ofExp_normSq x.offsetRLI _ scale
  grav := by
    rw [pow_one]
    exact S2.oplus_length x.grav _ scale

theorem shortened_oplus (x : StateIkfom ℝ) (v : Fin 24 → ℝ) (scale : ℝ) :
    Shortened 1 x (x.oplus .real v scale) where
  rot := mul_ofExp_normSq x.rot _ scale
  offsetRLI := mul_ofExp_normSq x.offsetRLI _ scale
  grav := by
    rw [pow_one]
    exact S2.oplus_length x.grav _ scale

theorem shortened_pass {h12 : 12 ≤ 23} {cfg : UpdateConfig ℝ (manifold .real) Env}
    {propagated : Esekf (manifold .real)} (l : UpdateLoop (manifold .real) Env) (i : ℤ) :
    Shortened 1 l.kf.x (l.pass .real e h12 cfg propagated i).1.kf.x := by
  cases hvalid : (UpdateLoop.answer cfg l).2.valid with
  | false =>
    rw [UpdateLoop.pass_of_invalid hvalid]
    exact (Shortened.refl _).mono (Nat.zero_le 1)
  | true =>
    rw [UpdateLoop.pass_of_valid hvalid]
    split_ifs <;> exact shortened_boxplus l.kf.x _ _

theorem shortened_passes {h12 : 12 ≤ 23} {cfg : UpdateConfig ℝ (manifold .real) Env}
    {propagated : Esekf (manifold .real)} (l : UpdateLoop (manifold .real) Env) (is : List ℤ) :
    Shortened is.length l.kf.x (l.passes .real e h12 cfg propagated is).1.kf.x := by
  induction is generalizing l with
  | nil => exact Shortened.refl _
  | cons i rest ih =>
    have hpass : Shortened 1 l.kf.x (l.pass .real e h12 cfg propagated i).1.kf.x :=
      shortened_pass e l i
    cases hreturned : (l.pass .real e h12 cfg propagated i).2 with
    | true =>
      rw [UpdateLoop.passes_cons_of_returned hreturned]
      exact hpass.mono (by simp)
    | false =>
      rw [UpdateLoop.passes_cons hreturned, List.length_cons, Nat.add_comm]
      exact hpass.trans (ih _)

/-- How often a call can correct the state. -/
def FilterStep.corrections : FilterStep Env → ℕ
  | .predict _ => 1
  | .update cfg _ => (counter cfg.maximumIter).length

theorem shortened_apply (kf : Esekf (manifold .real)) (s : FilterStep Env) :
    Shortened s.corrections kf.x (s.apply e kf).x := by
  cases s with
  | predict p => exact shortened_oplus kf.x _ _
  | update cfg env =>
    exact shortened_passes e (UpdateLoop.mk kf env DynShare.start 0) (counter cfg.maximumIter)

/-! ## The covariance -/

/-- What a pass with a measurement must not do: lose a direction of the plane of gravity, or,
where it is the last, turn a rotation by a whole turn at once. -/
structure Steady (e : Eigen ℝ) (cfg : UpdateConfig ℝ (manifold .real) Env)
    (propagated : Esekf (manifold .real)) (l : UpdateLoop (manifold .real) Env) (i : ℤ) : Prop where
  gravity : IsUnit (gravityTurn l.kf.x propagated.x (l.kf.x.boxminus .real propagated.x))
  rot : l.Last .real e twelve_le_dof cfg propagated i →
    angleOf (rotIdx.get (l.stepped .real e twelve_le_dof cfg propagated).dx) < 2 * Real.pi
  offset : l.Last .real e twelve_le_dof cfg propagated i →
    angleOf (offsetRIdx.get (l.stepped .real e twelve_le_dof cfg propagated).dx) < 2 * Real.pi
  lastGravity : l.Last .real e twelve_le_dof cfg propagated i → IsUnit (gravityTurn
    (l.kf.x.boxplus .real (l.stepped .real e twelve_le_dof cfg propagated).dx (lit 1)) propagated.x
      (l.stepped .real e twelve_le_dof cfg propagated).dx)

/-- Where gravity's block is not singular, no block that carries the covariance over is. -/
theorem isUnit_carrying {propagated : Esekf (manifold .real)}
    {l : UpdateLoop (manifold .real) Env}
    (h : IsUnit (gravityTurn l.kf.x propagated.x (l.kf.x.boxminus .real propagated.x))) :
    ∀ t ∈ l.carrying propagated, IsUnit t.factor := by
  have hpi := Real.pi_pos
  obtain ⟨hrot, hoffset⟩ := boxminus_angle_le l.kf.x propagated.x
  exact isUnit_turns (hrot.trans_lt (by linarith)) (hoffset.trans_lt (by linarith)) h

theorem Steady.sound {e : Eigen ℝ} {cfg : UpdateConfig ℝ (manifold .real) Env}
    {propagated : Esekf (manifold .real)} {l : UpdateLoop (manifold .real) Env} {i : ℤ}
    (h : Steady e cfg propagated l i) : l.Sound e twelve_le_dof cfg propagated i where
  carrying := isUnit_carrying h.gravity
  closing := fun hlast => isUnit_turns (h.rot hlast) (h.offset hlast) (h.lastGravity hlast)

/-- An update that ends in a last pass leaves no more of the covariance than it was given,
carried over to the new estimate, however many passes it took, as long as each found gravity
where its block is not singular. -/
theorem update_le {e : Eigen ℝ} (he : e.Inverts) {cfg : UpdateConfig ℝ (manifold .real) Env}
    (hR : 0 < cfg.R) {kf : Esekf (manifold .real)} (hP : kf.P.PosDef) {env : Env}
    (hgrav : ∀ p ∈ (UpdateLoop.mk kf env DynShare.start 0).made .real e twelve_le_dof cfg kf
        (counter cfg.maximumIter), (UpdateLoop.answer cfg p.1).2.valid = true →
      IsUnit (gravityTurn p.1.kf.x kf.x (p.1.kf.x.boxminus .real kf.x)))
    (hdone : (updateIteratedDynShareModified .real e twelve_le_dof cfg kf env).2 = true) :
    ∃ p ∈ (UpdateLoop.mk kf env DynShare.start 0).made .real e twelve_le_dof cfg kf
        (counter cfg.maximumIter),
      (p.1.carriedOver e twelve_le_dof cfg kf * kf.P * (p.1.carriedOver e twelve_le_dof cfg kf)ᵀ -
        (updateIteratedDynShareModified .real e twelve_le_dof cfg kf env).1.kf.P).PosSemidef :=
  UpdateLoop.passes_le he hR manifold_allApart hP
    (fun p hp hvalid => isUnit_carrying (hgrav p hp hvalid)) hdone

/-- Two passes with a measurement of the position along the first axis, in which it is always
one off. -/
noncomputable def positionConfig : UpdateConfig ℝ (manifold .real) Unit where
  hDynShare := fun _ arg => (arg.1,
    { valid := true, converge := true, rows := 1, h := fun _ => 1, hx := fun _ => Pi.single 0 1 })
  maximumIter := 1
  limit := fun _ => ratio 1 1000
  R := 1

/-- What is correlated in `leaning`: the position with the direction of gravity. -/
def lean : Fin 23 → ℝ := gravIdx.set ![1, 0] (posIdx.set ![1, 0, 0] 0)

/-- A filter whose gravity follows a measurement of the position. -/
noncomputable def leaning : Esekf (manifold .real) where
  x := create
  P := 1 + vecMulVec lean lean

theorem leaning_posDef : leaning.P.PosDef := by
  have hsemi : (vecMulVec lean lean).PosSemidef := by
    simpa using posSemidef_vecMulVec_self_star lean
  exact PosDef.one.add_posSemidef hsemi

theorem positionConfig_returned (kf : Esekf (manifold .real)) :
    (updateIteratedDynShareModified .real .real twelve_le_dof positionConfig kf ()).2 = true := by
  have hstuck : UpdateLoop.Stuck positionConfig.hDynShare :=
    fun _ _ _ _ hinvalid => absurd hinvalid (by simp [positionConfig])
  have hlast := UpdateLoop.counter_last (by decide : 0 ≤ positionConfig.maximumIter)
  exact (UpdateLoop.passes_returned_iff hstuck hlast).mpr fun _ _ => rfl

/-- Its first pass turns gravity by a third. -/
theorem leaning_stepped :
    gravIdx.get ((UpdateLoop.mk leaning () DynShare.start 0).stepped .real .real twelve_le_dof
      positionConfig leaning).dx = ![1 / 3, 0] := by
  have hpos : lean (posIdx.entry 0) = 1 := by
    have hget : posIdx.get lean = ![1, 0, 0] := by
      rw [lean, Block.get_set_of_apart (by decide), Block.get_set]
    exact congrFun hget 0
  have hgrav : gravIdx.get lean = ![1, 0] := Block.get_set _ _ _
  have hdx : ((UpdateLoop.mk leaning () DynShare.start 0).stepped .real .real twelve_le_dof
      positionConfig leaning).dx = _ :=
    UpdateLoop.stepped_dx_self S2.create_regular rfl
  rw [hdx]
  funext i
  refine (gain_single twelve_le_dof Eigen.real_inverts (by norm_num) leaning_posDef one_pos rfl 1
    (fun _ => rfl) 0 (fun _ => rfl) (gravIdx.entry i)).trans ?_
  have hne : gravIdx.entry i ≠ posIdx.entry 0 := by
    revert i
    decide
  show ((1 : Matrix (Fin 23) (Fin 23) ℝ) (gravIdx.entry i) (posIdx.entry 0) +
      gravIdx.get lean i * lean (posIdx.entry 0)) *
    (1 / ((1 : Matrix (Fin 23) (Fin 23) ℝ) (posIdx.entry 0) (posIdx.entry 0) +
      lean (posIdx.entry 0) * lean (posIdx.entry 0) + 1)) = _
  rw [one_apply_ne hne, one_apply_eq, hpos, hgrav]
  fin_cases i <;> norm_num

theorem update_le_leaning :
    ∃ p ∈ (UpdateLoop.mk leaning () DynShare.start 0).made .real .real twelve_le_dof positionConfig
        leaning (counter positionConfig.maximumIter),
      (p.1.carriedOver .real twelve_le_dof positionConfig leaning * leaning.P *
          (p.1.carriedOver .real twelve_le_dof positionConfig leaning)ᵀ -
        (updateIteratedDynShareModified .real .real twelve_le_dof positionConfig leaning
          ()).1.kf.P).PosSemidef := by
  refine update_le Eigen.real_inverts one_pos leaning_posDef (fun p hp _ => ?_)
    (positionConfig_returned leaning)
  have hcounter : counter positionConfig.maximumIter = [-1, 0] := by decide
  rw [hcounter, UpdateLoop.made, UpdateLoop.made, UpdateLoop.made, ite_self] at hp
  rcases List.mem_cons.mp hp with rfl | hp
  · exact isUnit_gravityTurn_self S2.create_regular
  · split_ifs at hp with hreturned
    · exact absurd hp List.not_mem_nil
    · rw [List.mem_singleton.mp hp]
      -- the second pass finds gravity turned
      have hmoved : ((UpdateLoop.mk leaning () DynShare.start 0).pass .real .real twelve_le_dof
          positionConfig leaning (-1)).1.kf.x.grav = S2.create.boxplus .real ![1 / 3, 0] 1 := by
        rw [UpdateLoop.pass_of_valid rfl, ← leaning_stepped]
        have hone : (lit 1 : ℝ) = 1 := by rw [lit_eq, Int.cast_one]
        split_ifs
        · show S2.create.boxplus .real _ (lit 1) = _
          rw [hone]
        · show S2.create.boxplus .real _ (lit 1) = _
          rw [hone]
      have hangle : angleOf (![1 / 3, 0] : Fin 2 → ℝ) = 1 / 3 := by
        rw [angleOf, dotProduct, Fin.sum_univ_two]
        simp only [cons_val_zero, cons_val_one, mul_zero, add_zero]
        exact Real.sqrt_mul_self (by norm_num)
      have hwide : SO3.Wide ((S2.create : S2 ℝ).bx *ᵥ ![1 / 3, 0]) := by
        rw [SO3.Wide, S2.create_regular.angleOf_bx, hangle]
        norm_num
      obtain ⟨hregular, hne⟩ := S2.create_boxplus hwide (by
        rw [hangle]
        linarith [Real.pi_gt_three])
      rw [← hmoved] at hregular hne
      exact isUnit_gravityTurn hregular S2.create_regular hne

/-! ## Rotations and gravity left alone -/

/-- The components of a correction that turn a rotation or gravity. -/
def Turning (i : Fin 23) : Prop := (3 ≤ i.val ∧ i.val < 9) ∨ 21 ≤ i.val

instance : DecidablePred Turning := fun _ => inferInstanceAs (Decidable (_ ∨ _))

/-- Nothing has turned. -/
structure Level (x x' : StateIkfom ℝ) : Prop where
  rot : x'.rot = x.rot
  offsetRLI : x'.offsetRLI = x.offsetRLI
  grav : x'.grav = x.grav

theorem blank_turning_get {v : Fin 23 → ℝ} (h : Blank Turning v) :
    rotIdx.get v = 0 ∧ offsetRIdx.get v = 0 ∧ gravIdx.get v = 0 :=
  ⟨funext fun j => h _ (by revert j; decide), funext fun j => h _ (by revert j; decide),
    funext fun j => h _ (by revert j; decide)⟩

theorem turning_cases {i : Fin 23} (h : Turning i) :
    (∃ j, rotIdx.entry j = i) ∨ (∃ j, offsetRIdx.entry j = i) ∨ ∃ j, gravIdx.entry j = i := by
  revert i
  decide

theorem Level.blank {x x' : StateIkfom ℝ} (h : Level x x') (hx : x.grav.Regular) :
    Blank Turning (x'.boxminus .real x) := by
  have hrot : rotIdx.get (x'.boxminus .real x) = 0 := by
    rw [boxminus_rot, h.rot, SO3.boxminus_self]
  have hoffset : offsetRIdx.get (x'.boxminus .real x) = 0 := by
    rw [boxminus_offsetRLI, h.offsetRLI, SO3.boxminus_self]
  have hgrav : gravIdx.get (x'.boxminus .real x) = 0 := by
    rw [boxminus_grav, h.grav, hx.boxminus_self]
  intro i hi
  rcases turning_cases hi with ⟨j, rfl⟩ | ⟨j, rfl⟩ | ⟨j, rfl⟩
  · exact congrFun hrot j
  · exact congrFun hoffset j
  · exact congrFun hgrav j

theorem Level.boxplus {x x' : StateIkfom ℝ} (h : Level x x') {dx : Fin 23 → ℝ}
    (hdx : Blank Turning dx) : Level x (x'.boxplus .real dx (lit 1)) := by
  obtain ⟨hrot, hoffset, hgrav⟩ := blank_turning_get hdx
  have hone : (lit 1 : ℝ) = 1 := by rw [lit_eq, Int.cast_one]
  rw [hone]
  refine ⟨?_, ?_, ?_⟩
  · show x'.rot.boxplus .real (rotIdx.get dx) 1 = x.rot
    rw [hrot, SO3.boxplus_zero, h.rot]
  · show x'.offsetRLI.boxplus .real (offsetRIdx.get dx) 1 = x.offsetRLI
    rw [hoffset, SO3.boxplus_zero, h.offsetRLI]
  · show x'.grav.boxplus .real (gravIdx.get dx) 1 = x.grav
    rw [hgrav, S2.boxplus_zero, h.grav]

theorem Level.gravityTurn {x x' : StateIkfom ℝ} (h : Level x x') (hx : x.grav.Regular)
    {dx : Fin 23 → ℝ} (hdx : Blank Turning dx) : gravityTurn x' x dx = 1 := by
  rw [StateIkfom.gravityTurn, (blank_turning_get hdx).2.2, h.grav, hx.nxYy_mul_mx_zero]

theorem steady_of_blank {cfg : UpdateConfig ℝ (manifold .real) Env}
    {propagated : Esekf (manifold .real)} {l : UpdateLoop (manifold .real) Env} {i : ℤ}
    (hx : propagated.x.grav.Regular) (hl : Level propagated.x l.kf.x)
    (hdx : Blank Turning (l.stepped .real e twelve_le_dof cfg propagated).dx) :
    Steady e cfg propagated l i := by
  have hpi := Real.pi_pos
  obtain ⟨hrot, hoffset, -⟩ := blank_turning_get hdx
  refine ⟨?_, fun _ => ?_, fun _ => ?_, fun _ => ?_⟩
  · rw [hl.gravityTurn hx (hl.blank hx)]
    exact isUnit_one
  · rw [hrot, angleOf_zero]
    linarith
  · rw [hoffset, angleOf_zero]
    linarith
  · rw [(hl.boxplus hdx).gravityTurn hx hdx]
    exact isUnit_one

/-- What a pass with a measurement of the position does with an uncorrelated filter. -/
theorem positionConfig_stepped {kf : Esekf (manifold .real)} (hx : kf.x.grav.Regular)
    (hP : kf.P = 1) {l : UpdateLoop (manifold .real) Unit} (hl : Level kf.x l.kf.x) :
    Blank Turning (l.stepped .real .real twelve_le_dof positionConfig kf).dx := by
  have hposDef : kf.P.PosDef := by
    rw [hP]
    exact PosDef.one
  have hgravity : IsUnit (StateIkfom.gravityTurn l.kf.x kf.x (l.kf.x.boxminus .real kf.x)) := by
    rw [hl.gravityTurn hx (hl.blank hx)]
    exact isUnit_one
  refine (UpdateLoop.stepped_blank Eigen.real_inverts one_pos
    (UpdateLoop.jacobian_onto fun r j hj => ?_)
      (keeps_product (by decide) (by decide) (by decide) _ _ _) ?_
      (UpdateLoop.stepped_posDef .real twelve_le_dof positionConfig hposDef
        (isUnit_carrying hgravity)) (hl.blank hx)).2.2
  · have hne : j ≠ 0 := by
      rintro rfl
      exact absurd hj (by decide)
    exact Pi.single_eq_of_ne hne 1
  · rw [hP]
    exact keeps_one

theorem positionConfig_pass {kf : Esekf (manifold .real)} (hx : kf.x.grav.Regular)
    (hP : kf.P = 1) {l : UpdateLoop (manifold .real) Unit} (hl : Level kf.x l.kf.x) (i : ℤ) :
    Level kf.x (l.pass .real .real twelve_le_dof positionConfig kf i).1.kf.x := by
  have hafter := hl.boxplus (positionConfig_stepped hx hP hl)
  rw [UpdateLoop.pass_of_valid rfl]
  split_ifs <;> exact hafter

/-! ## Runs -/

/-- A call that keeps the covariance positive definite. -/
def FilterStep.Regular (e : Eigen ℝ) (kf : Esekf (manifold .real)) : FilterStep Env → Prop
  | .predict p => p.Q.PosSemidef ∧ IsUnit (gravityBlock .real kf.x (moved kf.x p.input p.dt))
  | .update cfg env => 0 < cfg.R ∧
    ∀ p ∈ (UpdateLoop.mk kf env DynShare.start 0).made .real e twelve_le_dof cfg kf
      (counter cfg.maximumIter), (UpdateLoop.answer cfg p.1).2.valid = true →
        Steady e cfg kf p.1 p.2

variable {e}

/-- With gravity as it should be any prediction is regular. -/
theorem regular_predict {kf : Esekf (manifold .real)} (h : kf.x.grav.Regular) {p : Prediction}
    (hQ : p.Q.PosSemidef) : (.predict p : FilterStep Env).Regular e kf := by
  refine ⟨hQ, ?_⟩
  rw [gravityBlock_eq_one _ _ _ h]
  exact isUnit_one

theorem apply_posDef (he : e.Inverts) {kf : Esekf (manifold .real)} {s : FilterStep Env}
    (hP : kf.P.PosDef) (hs : s.Regular e kf) : (s.apply e kf).P.PosDef := by
  cases s with
  | predict p =>
    obtain ⟨hQ, hgrav⟩ := hs
    rw [FilterStep.apply, predict_eq]
    exact PosDef.add_posSemidef (Gain.posDef_congr hP (isUnit_transitionMatrix _ _ _ hgrav))
      (Gain.posSemidef_congr hQ _)
  | update cfg env =>
    obtain ⟨hR, hpasses⟩ := hs
    exact UpdateLoop.passes_posDef he hR manifold_allApart hP hP fun p hp hvalid =>
      (hpasses p hp hvalid).sound

/-- The covariance is positive definite after every run that starts with one and whose
calls are regular. -/
theorem filterRuns_posDef (he : e.Inverts) {kf : Esekf (manifold .real)} (hP : kf.P.PosDef)
    {steps : List (FilterStep Env)}
    (hsteps : (filterRuns e kf).Along (fun kf s => s.Regular e kf) kf steps) :
    ((filterRuns e kf).run kf steps).P.PosDef :=
  Machine.run_along (m := filterRuns e kf) (I := fun kf => kf.P.PosDef)
    (P := fun kf s => s.Regular e kf) (fun _ _ hkf hs => apply_posDef he hkf hs) hP hsteps

/-- A short step without noise, with nothing to integrate but gravity. -/
noncomputable def restStep : Prediction := ⟨ratio 1 100, 0, ⟨0, 0⟩⟩

theorem filterRuns_posDef_rest :
    ((filterRuns .real ⟨create, 1⟩).run ⟨create, 1⟩
      [.update positionConfig (), .predict restStep]).P.PosDef := by
  have hkept : ∀ (l : UpdateLoop (manifold .real) Unit) (i : ℤ), Level create l.kf.x →
      Level create (l.pass .real .real twelve_le_dof positionConfig ⟨create, 1⟩ i).1.kf.x :=
    fun l i hl => @positionConfig_pass ⟨create, 1⟩ S2.create_regular rfl l hl i
  have hlevel : Level create ((.update positionConfig () : FilterStep Unit).apply .real
      (⟨create, 1⟩ : Esekf (manifold .real))).x :=
    UpdateLoop.passes_invariant (M := manifold .real) (l := ⟨⟨create, 1⟩, (), DynShare.start, 0⟩)
      (fun l => Level create l.kf.x) hkept ⟨rfl, rfl, rfl⟩ (counter 1)
  refine filterRuns_posDef Eigen.real_inverts PosDef.one ⟨⟨one_pos, fun p hp _ => ?_⟩, ?_,
    trivial⟩
  · have hl : Level create p.1.kf.x :=
      UpdateLoop.made_invariant (fun l => Level create l.kf.x) hkept ⟨rfl, rfl, rfl⟩ _ p hp
    exact steady_of_blank .real S2.create_regular hl
      (@positionConfig_stepped ⟨create, 1⟩ S2.create_regular rfl p.1 hl)
  · have hregular : ((.update positionConfig () : FilterStep Unit).apply .real
        (⟨create, 1⟩ : Esekf (manifold .real))).x.grav.Regular := by
      rw [hlevel.grav]
      exact S2.create_regular
    exact regular_predict hregular PosSemidef.zero

end StateIkfom

end RobotNav
