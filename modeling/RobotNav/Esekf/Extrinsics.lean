/-
The extrinsics while they are not estimated.

With `extrinsic_est_en` off the rows of `h_x` have no columns for them.  That alone does not
keep an update from moving them: what does is that nothing ever correlates them with the
rest of the state, in a prediction or in an update.
-/
import RobotNav.Esekf.Runs
import RobotNav.Esekf.SurfUpdate

namespace RobotNav

open Matrix

namespace StateIkfom

/-- The components of a correction that belong to the extrinsics. -/
def Extrinsic (i : Fin 23) : Prop := 6 ≤ i.val ∧ i.val < 12

instance : DecidablePred Extrinsic := fun _ => inferInstanceAs (Decidable (_ ∧ _))

/-- Where the extrinsics are, and the members beside them. -/
theorem extrinsic_cases (i : Fin 23) : Extrinsic i ∧
      ((∃ j, offsetRIdx.entry j = i) ∨ ∃ j, offsetTIdx.entry j = i) ∨
    ¬ Extrinsic i ∧ ((∃ j, posIdx.entry j = i) ∨ (∃ j, rotIdx.entry j = i) ∨
      (∃ j, velIdx.entry j = i) ∨ (∃ j, bgIdx.entry j = i) ∨ (∃ j, baIdx.entry j = i) ∨
        ∃ j, gravIdx.entry j = i) := by
  revert i
  decide

theorem blank_extrinsic_iff {v : Fin 23 → ℝ} :
    Blank Extrinsic v ↔ offsetRIdx.get v = 0 ∧ offsetTIdx.get v = 0 := by
  constructor
  · intro h
    exact ⟨funext fun j => h _ (by revert j; decide), funext fun j => h _ (by revert j; decide)⟩
  · rintro ⟨hR, hT⟩ i hi
    rcases extrinsic_cases i with ⟨-, ⟨j, rfl⟩ | ⟨j, rfl⟩⟩ | ⟨hnot, -⟩
    · exact congrFun hR j
    · exact congrFun hT j
    · exact absurd hi hnot

/-! ## A prediction -/

section

variable (s : StateIkfom ℝ) (input : InputIkfom ℝ) (dt : ℝ)

/-- What a prediction makes of the extrinsics goes to the extrinsics. -/
theorem transition_extrinsic {v : Fin 23 → ℝ} (hv : ∀ i, ¬ Extrinsic i → v i = 0) {i : Fin 23}
    (hi : ¬ Extrinsic i) : (transitionMatrix s input dt *ᵥ v) i = 0 := by
  have hget : ∀ {k : ℕ} (b : Block 23 k), (∀ j, ¬ Extrinsic (b.entry j)) → b.get v = 0 :=
    fun b hb => funext fun j => hv _ (hb j)
  have hpos := hget posIdx (by decide)
  have hrot := hget rotIdx (by decide)
  have hvel := hget velIdx (by decide)
  have hbg := hget bgIdx (by decide)
  have hba := hget baIdx (by decide)
  have hgrav := hget gravIdx (by decide)
  rcases extrinsic_cases i with ⟨hin, -⟩ | ⟨-, hplace⟩
  · exact absurd hin hi
  · rcases hplace with ⟨j, rfl⟩ | ⟨j, rfl⟩ | ⟨j, rfl⟩ | ⟨j, rfl⟩ | ⟨j, rfl⟩ | ⟨j, rfl⟩
    · have hrow := transition_pos s input dt v
      rw [hpos, hvel, smul_zero, add_zero] at hrow
      exact congrFun hrow j
    · have hrow := transition_rot s input dt v
      rw [hrot, hbg, mulVec_zero, smul_zero, sub_zero] at hrow
      exact congrFun hrow j
    · have hrow := transition_vel s input dt v
      rw [hvel, hgrav, hba, hrot, mulVec_zero, mulVec_zero, mulVec_zero, add_zero, add_zero,
        smul_zero, add_zero] at hrow
      exact congrFun hrow j
    · have hrow := get_transition_still s input dt (b := bgIdx) (by decide) v
      exact (congrFun hrow j).trans (congrFun hbg j)
    · have hrow := get_transition_still s input dt (b := baIdx) (by decide) v
      exact (congrFun hrow j).trans (congrFun hba j)
    · have hrow := get_transition_grav s input dt v
      rw [hgrav, mulVec_zero] at hrow
      exact congrFun hrow j

theorem keeps_transitionMatrix : Keeps Extrinsic (transitionMatrix s input dt) := by
  rw [keeps_iff]
  intro i j hij
  by_cases hi : Extrinsic i
  · -- the rows of the extrinsics are those of the identity
    have hne : i ≠ j := by
      rintro rfl
      exact hij Iff.rfl
    rcases extrinsic_cases i with ⟨-, ⟨a, rfl⟩ | ⟨a, rfl⟩⟩ | ⟨hnot, -⟩
    · have hrows := rows_transition_still s input dt (b := offsetRIdx) (by decide)
      exact (congrFun₂ hrows a j).trans (one_apply_ne hne)
    · have hrows := rows_transition_still s input dt (b := offsetTIdx) (by decide)
      exact (congrFun₂ hrows a j).trans (one_apply_ne hne)
    · exact absurd hi hnot
  · have hj : Extrinsic j := by
      by_contra hj
      exact hij ⟨fun h => absurd h hi, fun h => absurd h hj⟩
    have hsingle : ∀ a, ¬ Extrinsic a → (Pi.single j 1 : Fin 23 → ℝ) a = 0 := by
      intro a ha
      refine Pi.single_eq_of_ne ?_ 1
      rintro rfl
      exact ha hj
    have hcolumn := transition_extrinsic s input dt hsingle hi
    rwa [mulVec_single_one] at hcolumn

theorem keeps_noise (Q : Matrix (Fin 12) (Fin 12) ℝ) :
    Keeps Extrinsic (noiseMatrix s input dt * Q * (noiseMatrix s input dt)ᵀ) := by
  have hrow : ∀ i, Extrinsic i → noiseMatrix s input dt i = 0 := by
    intro i hi
    have hnone : biasNoise i = none := by
      revert i
      decide
    have hstill : Still i := Or.inl hi
    rw [noise_row s input dt hstill, hnone]
  rw [keeps_iff]
  intro i j hij
  rw [congruence_apply]
  by_cases hi : Extrinsic i
  · rw [hrow i hi, zero_dotProduct]
  · have hj : Extrinsic j := by
      by_contra hj
      exact hij ⟨fun h => absurd h hi, fun h => absurd h hj⟩
    rw [hrow j hj, mulVec_zero, dotProduct_zero]

end

/-! ## An update -/

section

variable {Env : Type} {e : Eigen ℝ} {cfg : UpdateConfig ℝ (manifold .real) Env}
variable {propagated : Esekf (manifold .real)}

/-- A measurement model whose rows have no columns for the extrinsics. -/
def Blind (cfg : UpdateConfig ℝ (manifold .real) Env) : Prop :=
  ∀ x arg, (cfg.hDynShare x arg).2.valid = true → ∀ i j, 6 ≤ j.val →
    (cfg.hDynShare x arg).2.hx i j = 0

theorem Blind.jacobian (h : Blind cfg) {l : UpdateLoop (manifold .real) Env}
    (hvalid : (UpdateLoop.answer cfg l).2.valid = true) :
    (UpdateLoop.answer cfg l).2.jacobian twelve_le_dof * onto ℝ Extrinsic = 0 := by
  refine UpdateLoop.jacobian_onto fun r j hj => h _ _ hvalid r j ?_
  have hstart : 6 ≤ 0 + j.val := hj.1
  omega

/-- What a pass of an update needs and leaves. -/
structure Aside (x : StateIkfom ℝ) (kf : Esekf (manifold .real)) : Prop where
  offsetRLI : kf.x.offsetRLI = x.offsetRLI
  offsetTLI : kf.x.offsetTLI = x.offsetTLI
  keeps : Keeps Extrinsic kf.P

theorem extrinsic_product (x x' : StateIkfom ℝ) (dx : Fin 23 → ℝ) :
    Keeps Extrinsic (Turn.product (turns .real (manifold .real) x x' dx)) :=
  keeps_product (by decide) (by decide) (by decide) x x' dx

theorem boxminus_blank {x x' : StateIkfom ℝ} (hR : x.offsetRLI = x'.offsetRLI)
    (hT : x.offsetTLI = x'.offsetTLI) : Blank Extrinsic (x.boxminus .real x') := by
  rw [blank_extrinsic_iff, boxminus_offsetRLI, boxminus_offsetTLI, hR, hT, SO3.boxminus_self,
    sub_self]
  exact ⟨rfl, rfl⟩

theorem boxplus_offsets {x : StateIkfom ℝ} {dx : Fin 23 → ℝ} (h : Blank Extrinsic dx) :
    (x.boxplus .real dx 1).offsetRLI = x.offsetRLI ∧
      (x.boxplus .real dx 1).offsetTLI = x.offsetTLI := by
  obtain ⟨hR, hT⟩ := blank_extrinsic_iff.mp h
  constructor
  · show x.offsetRLI.boxplus .real (offsetRIdx.get dx) 1 = x.offsetRLI
    rw [hR, SO3.boxplus_zero]
  · show x.offsetTLI + (1 : ℝ) • offsetTIdx.get dx = x.offsetTLI
    rw [hT, smul_zero, add_zero]

/-- The gain of a pass of a blind model, with what it takes to keep the extrinsics. -/
theorem Blind.stepped (he : e.Inverts) (hR : 0 < cfg.R) (h : Blind cfg)
    {l : UpdateLoop (manifold .real) Env} (hvalid : (UpdateLoop.answer cfg l).2.valid = true)
    (hpropagated : Keeps Extrinsic propagated.P)
    (hP : (l.stepped .real e twelve_le_dof cfg propagated).P.PosDef)
    (hl : Aside propagated.x l.kf) :
    Keeps Extrinsic (l.stepped .real e twelve_le_dof cfg propagated).P ∧
      Keeps Extrinsic (l.stepped .real e twelve_le_dof cfg propagated).Kx ∧
      Blank Extrinsic (l.stepped .real e twelve_le_dof cfg propagated).dx := by
  exact UpdateLoop.stepped_blank he hR (h.jacobian hvalid) (extrinsic_product _ _ _) hpropagated hP
    (boxminus_blank hl.offsetRLI hl.offsetTLI)

/-- A pass leaves the extrinsics where the update found them. -/
theorem Aside.pass (he : e.Inverts) (hR : 0 < cfg.R) (h : Blind cfg)
    (hP : propagated.P.PosDef) (hpropagated : Keeps Extrinsic propagated.P)
    {l : UpdateLoop (manifold .real) Env} (hl : Aside propagated.x l.kf)
    {i : ℤ} (hsteady : (UpdateLoop.answer cfg l).2.valid = true → Steady e cfg propagated l i) :
    Aside propagated.x (l.pass .real e twelve_le_dof cfg propagated i).1.kf := by
  cases hvalid : (UpdateLoop.answer cfg l).2.valid with
  | false =>
    rw [UpdateLoop.pass_of_invalid hvalid]
    exact hl
  | true =>
    have hcarried := UpdateLoop.stepped_posDef e twelve_le_dof cfg hP (hsteady hvalid).sound.carrying
    obtain ⟨hPkeeps, hKx, hdx⟩ := h.stepped he hR hvalid hpropagated hcarried hl
    obtain ⟨hoffR, hoffT⟩ := boxplus_offsets (x := l.kf.x) hdx
    have hstate : ∀ P, Keeps Extrinsic P → Aside propagated.x
        (l.after .real e twelve_le_dof cfg propagated i P).kf := by
      intro P hkeeps
      have hone : (lit 1 : ℝ) = 1 := by rw [lit_eq, Int.cast_one]
      refine ⟨?_, ?_, hkeeps⟩
      · show (StateIkfom.boxplus .real l.kf.x _ (lit 1)).offsetRLI = _
        rw [hone]
        exact hoffR.trans hl.offsetRLI
      · show (StateIkfom.boxplus .real l.kf.x _ (lit 1)).offsetTLI = _
        rw [hone]
        exact hoffT.trans hl.offsetTLI
    rw [UpdateLoop.pass_of_valid hvalid]
    split_ifs
    · apply hstate
      rw [UpdateLoop.closedP_eq he hR hcarried (manifold_allApart _ _ _)]
      exact (extrinsic_product _ _ _).congruence ((keeps_one.sub hKx).mul hPkeeps)
    · exact hstate _ hPkeeps

theorem Aside.passes (he : e.Inverts) (hR : 0 < cfg.R) (h : Blind cfg)
    (hP : propagated.P.PosDef) (hpropagated : Keeps Extrinsic propagated.P)
    {l : UpdateLoop (manifold .real) Env} (hl : Aside propagated.x l.kf) {is : List ℤ}
    (hsteady : ∀ p ∈ l.made .real e twelve_le_dof cfg propagated is,
      (UpdateLoop.answer cfg p.1).2.valid = true → Steady e cfg propagated p.1 p.2) :
    Aside propagated.x (l.passes .real e twelve_le_dof cfg propagated is).1.kf := by
  induction is generalizing l with
  | nil => exact hl
  | cons i rest ih =>
    rw [UpdateLoop.made] at hsteady
    have hpass := hl.pass he hR h hP hpropagated (hsteady _ List.mem_cons_self)
    cases hreturned : (l.pass .real e twelve_le_dof cfg propagated i).2 with
    | true =>
      rw [UpdateLoop.passes_cons_of_returned hreturned]
      exact hpass
    | false =>
      rw [UpdateLoop.passes_cons hreturned]
      refine ih hpass fun p hp => hsteady p (List.mem_cons_of_mem _ ?_)
      rw [hreturned, if_neg Bool.false_ne_true]
      exact hp

/-! ## Runs -/

/-- A call to the filter that never measures the extrinsics. -/
def FilterStep.Blind : FilterStep Env → Prop
  | .predict _ => True
  | .update cfg _ => StateIkfom.Blind cfg

theorem Aside.apply (he : e.Inverts) {x : StateIkfom ℝ} {kf : Esekf (manifold .real)}
    {s : FilterStep Env} (hP : kf.P.PosDef) (hkf : Aside x kf) (hs : s.Regular e kf)
    (hblind : s.Blind) : Aside x (s.apply e kf) := by
  cases s with
  | predict p =>
    rw [FilterStep.apply, predict_eq]
    refine ⟨(moved_offsetRLI _ _ _).trans hkf.offsetRLI,
      (moved_offsetTLI _ _ _).trans hkf.offsetTLI, ?_⟩
    exact ((keeps_transitionMatrix _ _ _).congruence hkf.keeps).add (keeps_noise _ _ _ _)
  | update cfg env =>
    obtain ⟨hR, hpasses⟩ := hs
    have hdone := Aside.passes (l := UpdateLoop.mk kf env DynShare.start 0) he hR hblind hP
      hkf.keeps ⟨rfl, rfl, hkf.keeps⟩ hpasses
    exact ⟨hdone.offsetRLI.trans hkf.offsetRLI, hdone.offsetTLI.trans hkf.offsetTLI, hdone.keeps⟩

end

/-! ## The measurement model of the node -/

open ShareModel (hShareModel posCols rotCols updateConfig hShareModel_of_valid)

theorem row_blind {cfg : SurfConfig ℝ} (h : cfg.extrinsicEstEn = false) (s : StateIkfom ℝ)
    (p : SurfPoint ℝ) {j : Fin 12} (hj : 6 ≤ j.val) : ShareModel.row cfg s p j = 0 := by
  have hpos : posCols.place j = none := by
    revert j
    decide
  have hrot : rotCols.place j = none := by
    revert j
    decide
  rw [ShareModel.row, h, if_neg Bool.false_ne_true, Block.set, hpos]
  show rotCols.set _ _ j = 0
  rw [Block.set, hrot]
  exact Int.cast_zero

/-- With `extrinsic_est_en` off, `h_share_model` is blind to the extrinsics. -/
theorem hShareModel_blind {cfg : SurfConfig ℝ} (h : cfg.extrinsicEstEn = false)
    (maximumIter : ℤ) : Blind (updateConfig .real cfg maximumIter) := by
  intro x arg hdone
  show ∀ i j, 6 ≤ j.val → (hShareModel .real cfg x (arg.1, arg.2)).2.hx i j = 0
  rw [hShareModel_of_valid hdone]
  exact fun i j hj => row_blind h _ _ hj

end StateIkfom

end RobotNav
