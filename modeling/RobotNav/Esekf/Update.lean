/-
`esekf::update_iterated_dyn_share_modified`: the iterated update by point to plane
residuals.

A pass asks the measurement model at the present estimate, carries the propagated
covariance over to it, computes the gain and moves the estimate.  The last pass also
carries the covariance to the new estimate and takes off what was measured.
-/
import RobotNav.Esekf.Predict

namespace RobotNav

open Matrix

variable {K : Type} [Field K] [LinearOrder K] [FloorRing K]

/-- What the update uses of Eigen beside sums and products. -/
structure Eigen (K : Type) where
  inverse : (k : ℕ) → Matrix (Fin k) (Fin k) K → Matrix (Fin k) (Fin k) K

noncomputable def Eigen.real : Eigen ℝ := ⟨fun _ A => A⁻¹⟩

/-- `dyn_share_datastruct`, of which the measurement model sets `h` and `h_x`. -/
structure DynShare (K : Type) where
  valid : Bool
  converge : Bool
  /-- `h_x.rows()`. -/
  rows : ℕ
  h : Fin rows → K
  hx : Matrix (Fin rows) (Fin 12) K

def DynShare.start : DynShare K :=
  { valid := true, converge := true, rows := 0, h := fun _ => lit 0, hx := fun _ _ => lit 0 }

/-- The columns of a correction that are measured: the first twelve. -/
def lead {n : ℕ} (h12 : 12 ≤ n) : Block n 12 := ⟨0, by omega⟩

/-! ## The gain -/

section

variable (e : Eigen K) {n : ℕ} (h12 : 12 ≤ n) (P : Matrix (Fin n) (Fin n) K) (R : K)
variable (share : DynShare K)

/-- `K_h` and `K_x` where there are fewer measurements than components. -/
def gainOfFew : (Fin n → K) × Matrix (Fin n) (Fin n) K :=
  let hxCur := (lead h12).setCols share.hx 0
  let gain := R⁻¹ • (P * hxCurᵀ * e.inverse share.rows (R⁻¹ • (hxCur * P * hxCurᵀ) + 1))
  (gain *ᵥ share.h, gain * hxCur)

/-- `K_h` and `K_x` otherwise. -/
def gainOfMany : (Fin n → K) × Matrix (Fin n) (Fin n) K :=
  let pTemp := e.inverse n (R⁻¹ • P)
  let hth := share.hxᵀ * share.hx
  let pTemp := (lead h12).setBlock (lead h12) ((lead h12).cols ((lead h12).rows pTemp) + hth) pTemp
  let pInv := e.inverse n pTemp
  (((lead h12).cols pInv * share.hxᵀ) *ᵥ share.h,
    (lead h12).setCols ((lead h12).cols pInv * hth) 0)

def gain : (Fin n → K) × Matrix (Fin n) (Fin n) K :=
  if share.rows < n then gainOfFew e h12 P R share else gainOfMany e h12 P R share

end

/-! ## The parts of the state that turn -/

section

variable (c : CMath K) {n m : ℕ} (M : Manifold K n m)

/-- What the loops over `SO3_state` and `S2_state` multiply the blocks by, for a correction
`dx` and the state `x` it led to. -/
def turns (x propagated : M.State) (dx : Fin n → K) : List (Turn n K) :=
  (M.so3State.map fun part =>
    { size := 3, block := part.idx, factor := (MTK.aMatrix c (part.idx.get dx))ᵀ }) ++
  M.s2State.map fun part =>
    { size := 2, block := part.idx
      factor := (part.member x).nxYy * (part.member propagated).mx c (part.idx.get dx) }

def Turn.onVector (v : Fin n → K) (t : Turn n K) : Fin n → K :=
  t.block.set (t.factor *ᵥ t.block.get v) v

/-- `L_`, `P_` and `K_x` in the loops of the last pass. -/
structure Closing (K : Type) (n : ℕ) where
  L : Matrix (Fin n) (Fin n) K
  P : Matrix (Fin n) (Fin n) K
  Kx : Matrix (Fin n) (Fin n) K

/-- The body of those loops.  The rows of `L_` are made from `P_`, and of `K_x` only the
first twelve columns. -/
def Closing.step (h12 : 12 ≤ n) (s : Closing K n) (t : Turn n K) : Closing K n :=
  let L := t.block.setRows (t.factor * t.block.rows s.P) s.L
  let kxLead := (lead h12).cols s.Kx
  let kxLead := t.block.setRows (t.factor * t.block.rows kxLead) kxLead
  { L := t.block.setCols (t.block.cols L * t.factorᵀ) L
    P := t.block.setCols (t.block.cols s.P * t.factorᵀ) s.P
    Kx := (lead h12).setCols kxLead s.Kx }

/-- The covariance the last pass leaves. -/
def closed (h12 : 12 ≤ n) (P Kx : Matrix (Fin n) (Fin n) K) (ts : List (Turn n K)) :
    Matrix (Fin n) (Fin n) K :=
  let s := ts.foldl (Closing.step h12) ⟨P, P, Kx⟩
  s.L - (lead h12).cols s.Kx * (lead h12).rows s.P

end

/-! ## The loop -/

/-- What stays the same during one update. -/
structure UpdateConfig (K : Type) {n m : ℕ} (M : Manifold K n m) (Env : Type) where
  /-- `h_dyn_share`, which may also read and write the node's own variables. -/
  hDynShare : M.State → Env × DynShare K → Env × DynShare K
  maximumIter : ℤ
  limit : Fin n → K
  R : K

/-- The variables of the loop. -/
structure UpdateLoop {n m : ℕ} (M : Manifold K n m) (Env : Type) where
  kf : Esekf M
  env : Env
  share : DynShare K
  /-- How many passes have converged. -/
  t : ℕ

section

variable (c : CMath K) (e : Eigen K) {n m : ℕ} (h12 : 12 ≤ n) {M : Manifold K n m} {Env : Type}
variable (cfg : UpdateConfig K M Env) (propagated : Esekf M)

/-- What a pass with a valid measurement computes before it moves the estimate. -/
structure Measured (K : Type) (n : ℕ) where
  P : Matrix (Fin n) (Fin n) K
  dxNew : Fin n → K
  Kx : Matrix (Fin n) (Fin n) K
  /-- `dx_`. -/
  dx : Fin n → K

def measured (x : M.State) (share : DynShare K) : Measured K n :=
  let dx := M.boxminus x propagated.x
  let ts := turns c M x propagated.x dx
  let dxNew := ts.foldl Turn.onVector dx
  let P := ts.foldl Turn.congruence propagated.P
  let g := gain e h12 P cfg.R share
  { P := P, dxNew := dxNew, Kx := g.2, dx := g.1 + (g.2 - 1) *ᵥ dxNew }

/-- One pass, and whether it returned. -/
def UpdateLoop.pass (l : UpdateLoop M Env) (i : ℤ) : UpdateLoop M Env × Bool :=
  let (env, share) := cfg.hDynShare l.kf.x (l.env, { l.share with valid := true })
  if !share.valid then ({ l with env := env, share := share }, false)
  else
    let d := measured c e h12 cfg propagated l.kf.x share
    let x := M.boxplus l.kf.x d.dx
    let converge := decide (∀ j, ¬ cfg.limit j < fabs (d.dx j))
    let t := if converge then l.t + 1 else l.t
    let converge := if t = 0 ∧ i = cfg.maximumIter - 2 then true else converge
    let l : UpdateLoop M Env :=
      { kf := ⟨x, d.P⟩, env := env, share := { share with converge := converge }, t := t }
    if 1 < t ∨ i = cfg.maximumIter - 1 then
      ({ l with kf := ⟨x, closed h12 d.P d.Kx (turns c M x propagated.x d.dx)⟩ }, true)
    else (l, false)

/-- The passes at the given values of the counter, until one returns. -/
def UpdateLoop.passes (l : UpdateLoop M Env) : List ℤ → UpdateLoop M Env × Bool
  | [] => (l, false)
  | i :: rest =>
    let (l, returned) := l.pass c e h12 cfg propagated i
    if returned then (l, true) else UpdateLoop.passes l rest

/-- The values of the counter. -/
def counter (maximumIter : ℤ) : List ℤ :=
  (List.range (maximumIter + 1).toNat).map fun (j : ℕ) => (j : ℤ) - 1

def updateIteratedDynShareModified (kf : Esekf M) (env : Env) : UpdateLoop M Env × Bool :=
  UpdateLoop.passes c e h12 cfg kf { kf := kf, env := env, share := DynShare.start, t := 0 }
    (counter cfg.maximumIter)

end

end RobotNav
