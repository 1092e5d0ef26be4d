/-
The offset times that `mid360_handler` and `velodyne_handler` make up for clouds without
time stamps, from how far the azimuth of a point has turned from the first one of its line.

Line numbers are below `N_SCANS`, so the vectors over the lines are functions.  Azimuths
and times are exact; the code mixes floats and doubles here.
-/
import Mathlib.Algebra.Order.Field.Basic
import Mathlib.Data.Rat.Floor
import Mathlib.Logic.Function.Basic
import Mathlib.Tactic.FieldSimp
import Mathlib.Tactic.Linarith
import Mathlib.Tactic.NormNum
import Mathlib.Tactic.Positivity
import RobotNav.Library.Arith
import RobotNav.Library.Machine
import RobotNav.Library.Unwrap

namespace RobotNav
namespace Preprocess

/-- `velodyne_ros::Point`. -/
structure VelodynePoint (K : Type) where
  x : K
  y : K
  z : K
  intensity : K
  time : K
  ring : ℕ

/-- `livox_ros::LivoxPointXyzitl`. -/
structure LivoxPoint (K : Type) where
  x : K
  y : K
  z : K
  intensity : K
  line : ℕ

/-- `pcl::PointXYZINormal`, without the normals. -/
structure PointType (K : Type) where
  x : K
  y : K
  z : K
  intensity : K
  curvature : K
  deriving DecidableEq

/-- The parameters of the two handlers, and the library's `atan2`. -/
structure HandlerParams (K : Type) where
  nScans : ℕ
  scanRate : ℤ
  blind : K
  pointFilterNum : ℕ
  featureEnabled : Bool
  timeUnitScale : K
  atan2 : K → K → K

/-- The vectors of the times of each line. -/
structure LineTimes (K : Type) where
  isFirst : ℕ → Bool
  yawFp : ℕ → K
  yawLast : ℕ → K
  timeLast : ℕ → K

/-- What the loop makes of a point: the line, the point with its offset time, and whether
it goes on to `pl_surf` or to the buffer of its line. -/
structure Added (K : Type) where
  layer : ℕ
  point : PointType K
  kept : Bool

variable {K : Type} [Arith K] (params : HandlerParams K)

def LineTimes.start : LineTimes K :=
  ⟨fun _ => true, fun _ => lit 0, fun _ => lit 0, fun _ => lit 0⟩

/-- `omega_l`. -/
def HandlerParams.omegaL : K := ratio 361 1000 * lit params.scanRate

def HandlerParams.yawAngle (x y : K) : K := params.atan2 y x * ratio 572957 10000

/-- The block the loops share: the first point of a line only sets up its entries. -/
def assignTime (s : LineTimes K) (layer : ℕ) (yawAngle : K) : LineTimes K × K :=
  if s.isFirst layer then
    ({ isFirst := Function.update s.isFirst layer false
       yawFp := Function.update s.yawFp layer yawAngle
       yawLast := Function.update s.yawLast layer yawAngle
       timeLast := Function.update s.timeLast layer (lit 0) }, lit 0)
  else
    let curvature :=
      if yawAngle ≤ s.yawFp layer then (s.yawFp layer - yawAngle) / params.omegaL
      else (s.yawFp layer - yawAngle + lit 360) / params.omegaL
    let curvature :=
      if curvature < s.timeLast layer then curvature + lit 360 / params.omegaL else curvature
    ({ s with
        yawLast := Function.update s.yawLast layer yawAngle
        timeLast := Function.update s.timeLast layer curvature }, curvature)

/-- Farther away than `blind`. -/
def HandlerParams.far (p : PointType K) : Bool :=
  params.blind * params.blind < p.x * p.x + p.y * p.y + p.z * p.z

def mid360Point (s : LineTimes K) (p : LivoxPoint K) : LineTimes K × Option (Added K) :=
  let (times, curvature) := assignTime params s p.line (params.yawAngle p.x p.y)
  let addedPt : PointType K := ⟨p.x, p.y, p.z, p.intensity, curvature⟩
  (times, some ⟨p.line, addedPt, !s.isFirst p.line && params.far addedPt⟩)

/-- An event is a point with its index.  The loop for features passes over lines there are
no buffers for, the other one keeps every `point_filter_num`-th point. -/
def velodynePoint (givenOffsetTime : Bool) (s : LineTimes K) (e : VelodynePoint K × ℕ) :
    LineTimes K × Option (Added K) :=
  let (p, i) := e
  if params.featureEnabled ∧ params.nScans ≤ p.ring then (s, none)
  else
    let (times, curvature) :=
      if givenOffsetTime then (s, p.time * params.timeUnitScale)
      else assignTime params s p.ring (params.yawAngle p.x p.y)
    let addedPt : PointType K := ⟨p.x, p.y, p.z, p.intensity, curvature⟩
    let reached := givenOffsetTime || !s.isFirst p.ring
    (times, some ⟨p.ring, addedPt, reached &&
      (params.featureEnabled || (i % params.pointFilterNum == 0 && params.far addedPt))⟩)

def mid360Loop : Machine (LineTimes K) (LivoxPoint K) (Option (Added K)) where
  init := .start
  step := mid360Point params

def velodyneLoop (givenOffsetTime : Bool) :
    Machine (LineTimes K) (VelodynePoint K × ℕ) (Option (Added K)) where
  init := .start
  step := velodynePoint params givenOffsetTime

/-- The last point of the cloud says whether the points have time stamps. -/
def givenOffsetTime (cloud : List (VelodynePoint K)) : Bool :=
  match cloud.getLast? with
  | none => false
  | some p => lit 0 < p.time

def mid360Added (cloud : List (LivoxPoint K)) : List (Option (Added K)) :=
  (mid360Loop params).outs .start cloud

def velodyneAdded (cloud : List (VelodynePoint K)) : List (Option (Added K)) :=
  (velodyneLoop params (givenOffsetTime cloud)).outs .start cloud.zipIdx

/-- What is left in `pl_surf`. -/
def mid360Handler (cloud : List (LivoxPoint K)) : List (PointType K) :=
  ((mid360Added params cloud).filterMap id).filterMap fun a =>
    if a.kept then some a.point else none

/-- What is left in `pl_surf`, without features. -/
def velodyneHandler (cloud : List (VelodynePoint K)) : List (PointType K) :=
  ((velodyneAdded params cloud).filterMap id).filterMap fun a =>
    if a.kept then some a.point else none

/-- What the loop for features leaves in the buffer of a line. -/
def velodyneBuffer (cloud : List (VelodynePoint K)) (layer : ℕ) : List (PointType K) :=
  ((velodyneAdded params cloud).filterMap id).filterMap fun a =>
    if a.kept ∧ a.layer = layer then some a.point else none

/-- The times assigned to the points of a line, in message order. -/
def lineTimes (layer : ℕ) (added : List (Option (Added K))) : List K :=
  (added.filterMap id).filterMap fun a =>
    if a.layer = layer then some a.point.curvature else none

/-! ## What is left of a cloud -/

omit [Arith K] in
/-- A point that is kept was made of a point of the cloud. -/
theorem exists_added {σ ε : Type} {m : Machine σ ε (Option (Added K))} {s : σ} {es : List ε}
    {p : PointType K} (hp : p ∈ ((m.outs s es).filterMap id).filterMap fun a =>
      if a.kept then some a.point else none) :
    ∃ t, ∃ e ∈ es, ∃ a, m.out t e = some a ∧ a.kept = true ∧ a.point = p := by
  obtain ⟨a, ha, hkept⟩ := List.mem_filterMap.mp hp
  obtain ⟨o, ho, rfl⟩ := List.mem_filterMap.mp ha
  obtain ⟨t, e, he, hout⟩ := Machine.exists_of_mem_outs ho
  refine ⟨t, e, he, a, hout, ?_⟩
  split_ifs at hkept with hk
  exact ⟨hk, Option.some.inj hkept⟩

/-- Points of the cloud with new times, all farther away than `blind`. -/
theorem mid360Handler_far {cloud : List (LivoxPoint K)} {p : PointType K}
    (hp : p ∈ mid360Handler params cloud) : params.far p = true ∧
      ∃ q ∈ cloud, p = ⟨q.x, q.y, q.z, q.intensity, p.curvature⟩ := by
  obtain ⟨t, q, hq, a, hout, hkept, rfl⟩ := exists_added hp
  obtain rfl := Option.some.inj hout
  exact ⟨(Bool.and_eq_true_iff.mp hkept).2, q, hq, rfl⟩

theorem velodyneHandler_far (hoff : params.featureEnabled = false)
    {cloud : List (VelodynePoint K)} {p : PointType K}
    (hp : p ∈ velodyneHandler params cloud) : params.far p = true ∧
      ∃ q ∈ cloud, p = ⟨q.x, q.y, q.z, q.intensity, p.curvature⟩ := by
  obtain ⟨t, e, he, a, hout, hkept, rfl⟩ := exists_added hp
  have hline : ¬ (params.featureEnabled = true ∧ params.nScans ≤ e.1.ring) := by simp [hoff]
  replace hout : (velodynePoint params (givenOffsetTime cloud) t e).2 = some a := hout
  rw [velodynePoint, if_neg hline] at hout
  obtain rfl := Option.some.inj hout
  simp only [hoff, Bool.false_or, Bool.and_eq_true] at hkept
  exact ⟨hkept.2.2, e.1, List.fst_mem_of_mem_zipIdx he, rfl⟩

/-! ## How far a line has turned -/

/-- The turn from the first azimuth of a line, in degrees and less than a revolution. -/
def clockwiseTurn (yawFp yawAngle : K) : K :=
  if yawAngle ≤ yawFp then yawFp - yawAngle else yawFp - yawAngle + lit 360

def turns : List K → List K
  | [] => []
  | yawFp :: rest => (yawFp :: rest).map (clockwiseTurn yawFp)

/-- The azimuths of a line, in message order. -/
def mid360Yaws (cloud : List (LivoxPoint K)) (layer : ℕ) : List K :=
  cloud.filterMap fun p => if p.line = layer then some (params.yawAngle p.x p.y) else none

def velodyneYaws (cloud : List (VelodynePoint K)) (layer : ℕ) : List K :=
  cloud.filterMap fun p => if p.ring = layer then some (params.yawAngle p.x p.y) else none

/-! ## One line at a time -/

section

variable {params}

/-- What the loop keeps about a line. -/
structure LineTimes.SameLine (s s' : LineTimes K) (layer : ℕ) : Prop where
  isFirst : s'.isFirst layer = s.isFirst layer
  yawFp : s'.yawFp layer = s.yawFp layer
  timeLast : s'.timeLast layer = s.timeLast layer

theorem assignTime_sameLine (params : HandlerParams K) {s : LineTimes K} {layer other : ℕ}
    (hne : layer ≠ other) (yawAngle : K) :
    s.SameLine (assignTime params s other yawAngle).1 layer := by
  rw [assignTime]
  split
  · exact ⟨Function.update_of_ne hne .., Function.update_of_ne hne ..,
      Function.update_of_ne hne ..⟩
  · exact ⟨rfl, rfl, Function.update_of_ne hne ..⟩

/-- The time before it is compared with the one before. -/
def baseTime (params : HandlerParams K) (yawFp yawAngle : K) : K :=
  clockwiseTurn yawFp yawAngle / params.omegaL

def revolution (params : HandlerParams K) : K := lit 360 / params.omegaL

theorem assignTime_first (params : HandlerParams K) {s : LineTimes K} {layer : ℕ}
    (hfirst : s.isFirst layer = true) (yawAngle : K) :
    (assignTime params s layer yawAngle).2 = lit 0 ∧
      (assignTime params s layer yawAngle).1.isFirst layer = false ∧
      (assignTime params s layer yawAngle).1.yawFp layer = yawAngle ∧
      (assignTime params s layer yawAngle).1.timeLast layer = lit 0 := by
  rw [assignTime, if_pos hfirst]
  exact ⟨rfl, Function.update_self .., Function.update_self .., Function.update_self ..⟩

theorem assignTime_later (params : HandlerParams K) {s : LineTimes K} {layer : ℕ}
    (hlater : s.isFirst layer = false) (yawAngle : K) :
    (assignTime params s layer yawAngle).2 =
        unwrap (revolution params) (s.timeLast layer) (baseTime params (s.yawFp layer) yawAngle) ∧
      (assignTime params s layer yawAngle).1.isFirst layer = false ∧
      (assignTime params s layer yawAngle).1.yawFp layer = s.yawFp layer ∧
      (assignTime params s layer yawAngle).1.timeLast layer =
        (assignTime params s layer yawAngle).2 := by
  have hnot : ¬ s.isFirst layer = true := by simp [hlater]
  rw [assignTime, if_neg hnot]
  refine ⟨?_, hlater, rfl, Function.update_self ..⟩
  rw [unwrap, baseTime, clockwiseTurn, revolution, ← apply_ite (· / params.omegaL)]

variable {ε : Type} {m : Machine (LineTimes K) ε (Option (Added K))} {lineOf : ε → ℕ}
  {yawOf : ε → K}

/-- The loop gives the point of the event its time, and does nothing else to the
vectors. -/
def Assigns (params : HandlerParams K) (m : Machine (LineTimes K) ε (Option (Added K)))
    (lineOf : ε → ℕ) (yawOf : ε → K) (e : ε) : Prop :=
  ∀ s, m.next s e = (assignTime params s (lineOf e) (yawOf e)).1 ∧
    ∃ a, m.out s e = some a ∧ a.layer = lineOf e ∧
      a.point.curvature = (assignTime params s (lineOf e) (yawOf e)).2

/-- The azimuths of the events of a line. -/
def yawsOf (lineOf : ε → ℕ) (yawOf : ε → K) (layer : ℕ) (es : List ε) : List K :=
  es.filterMap fun e => if lineOf e = layer then some (yawOf e) else none

theorem lineTimes_cons_of_ne {s : LineTimes K} {e : ε} (he : Assigns params m lineOf yawOf e)
    {layer : ℕ} (hne : lineOf e ≠ layer) (es : List ε) :
    lineTimes layer (m.outs s (e :: es)) = lineTimes layer (m.outs (m.next s e) es) := by
  obtain ⟨-, a, ha, hlayer, -⟩ := he s
  rw [Machine.outs_cons, ha]
  simp [lineTimes, hlayer, hne]

theorem lineTimes_cons_self {s : LineTimes K} {e : ε} (he : Assigns params m lineOf yawOf e)
    (es : List ε) :
    lineTimes (lineOf e) (m.outs s (e :: es)) =
      (assignTime params s (lineOf e) (yawOf e)).2 ::
        lineTimes (lineOf e) (m.outs (m.next s e) es) := by
  obtain ⟨-, a, ha, hlayer, hcurvature⟩ := he s
  rw [Machine.outs_cons, ha, ← hcurvature]
  simp [lineTimes, hlayer]

/-- A line whose first azimuth is known. -/
theorem lineTimes_later {layer : ℕ} {es : List ε}
    (hes : ∀ e ∈ es, Assigns params m lineOf yawOf e) {s : LineTimes K}
    (hlater : s.isFirst layer = false) :
    lineTimes layer (m.outs s es) = unwrapped (revolution params) (s.timeLast layer)
      ((yawsOf lineOf yawOf layer es).map (baseTime params (s.yawFp layer))) := by
  induction es generalizing s with
  | nil => rfl
  | cons e es ih =>
    obtain ⟨he, hrest⟩ := List.forall_mem_cons.mp hes
    by_cases hline : lineOf e = layer
    · subst hline
      obtain ⟨htime, hfirst, hyaw, hlast⟩ := assignTime_later params hlater (yawOf e)
      rw [← (he s).1] at hfirst hyaw hlast
      rw [lineTimes_cons_self he, ih hrest hfirst, hyaw, hlast, htime]
      simp [yawsOf, unwrapped]
    · have hsame := assignTime_sameLine params (s := s) (Ne.symm hline) (yawOf e)
      rw [← (he s).1] at hsame
      rw [lineTimes_cons_of_ne he hline, ih hrest (hsame.isFirst.trans hlater), hsame.yawFp,
        hsame.timeLast]
      simp [yawsOf, hline]

/-- A line the loop has not seen yet. -/
theorem lineTimes_first {layer : ℕ} {es : List ε}
    (hes : ∀ e ∈ es, Assigns params m lineOf yawOf e) {s : LineTimes K}
    (hfirst : s.isFirst layer = true) {yawFp : K} {rest : List K}
    (hyaws : yawsOf lineOf yawOf layer es = yawFp :: rest) :
    lineTimes layer (m.outs s es) =
      lit 0 :: unwrapped (revolution params) (lit 0) (rest.map (baseTime params yawFp)) := by
  induction es generalizing s with
  | nil => cases hyaws
  | cons e es ih =>
    obtain ⟨he, hrest⟩ := List.forall_mem_cons.mp hes
    by_cases hline : lineOf e = layer
    · subst hline
      obtain ⟨rfl, rfl⟩ : yawOf e = yawFp ∧ yawsOf lineOf yawOf (lineOf e) es = rest := by
        simpa [yawsOf] using hyaws
      obtain ⟨htime, hlater, hyaw, hlast⟩ := assignTime_first params hfirst (yawOf e)
      rw [← (he s).1] at hlater hyaw hlast
      rw [lineTimes_cons_self he, lineTimes_later hrest hlater, hyaw, hlast, htime]
    · have hsame := assignTime_sameLine params (s := s) (Ne.symm hline) (yawOf e)
      rw [← (he s).1] at hsame
      rw [lineTimes_cons_of_ne he hline]
      refine ih hrest (hsame.isFirst.trans hfirst) ?_
      simpa [yawsOf, hline] using hyaws

theorem lineTimes_none {layer : ℕ} {es : List ε}
    (hes : ∀ e ∈ es, Assigns params m lineOf yawOf e) (s : LineTimes K)
    (hyaws : yawsOf lineOf yawOf layer es = []) : lineTimes layer (m.outs s es) = [] := by
  induction es generalizing s with
  | nil => rfl
  | cons e es ih =>
    obtain ⟨he, hrest⟩ := List.forall_mem_cons.mp hes
    by_cases hline : lineOf e = layer
    · simp [yawsOf, hline] at hyaws
    · rw [lineTimes_cons_of_ne he hline]
      refine ih hrest _ ?_
      simpa [yawsOf, hline] using hyaws

end

/-! ## When the times rise -/

section

variable {F : Type} [Field F] [LinearOrder F] [IsStrictOrderedRing F] [FloorRing F]
  {params : HandlerParams F}

/-- What is asked of the library: `atan2` gives an angle between minus and plus pi. -/
def HandlerParams.AtanBounded (params : HandlerParams F) : Prop :=
  ∀ y x, |params.atan2 y x| ≤ 3141593 / 1000000

theorem abs_yawAngle_lt (hatan : params.AtanBounded) (x y : F) :
    |params.yawAngle x y| < 180 := by
  rw [HandlerParams.yawAngle, ratio_eq, abs_mul]
  have habs : |((572957 : ℤ) / (10000 : ℤ) : F)| = 572957 / 10000 := by
    rw [abs_of_nonneg] <;> norm_num
  rw [habs]
  have hbound := hatan y x
  linarith

theorem clockwiseTurn_nonneg_lt {yawFp yawAngle : F} (hfp : |yawFp| < 180)
    (hyaw : |yawAngle| < 180) :
    0 ≤ clockwiseTurn yawFp yawAngle ∧ clockwiseTurn yawFp yawAngle < 360 := by
  rw [abs_lt] at hfp hyaw
  rw [clockwiseTurn, lit_eq]
  push_cast
  split_ifs with hle
  · constructor <;> linarith
  · constructor <;> linarith

theorem omegaL_pos (hrate : 0 < params.scanRate) : 0 < params.omegaL := by
  rw [HandlerParams.omegaL, ratio_eq, lit_eq]
  have hcast : (0 : F) < params.scanRate := Int.cast_pos.mpr hrate
  positivity

theorem baseTime_nonneg_lt (hrate : 0 < params.scanRate) {yawFp yawAngle : F}
    (hfp : |yawFp| < 180) (hyaw : |yawAngle| < 180) :
    0 ≤ baseTime params yawFp yawAngle ∧
      baseTime params yawFp yawAngle < revolution params := by
  obtain ⟨hnonneg, hlt⟩ := clockwiseTurn_nonneg_lt hfp hyaw
  have homega := omegaL_pos hrate
  rw [baseTime, revolution, lit_eq]
  push_cast
  exact ⟨div_nonneg hnonneg homega.le, (div_lt_div_iff_of_pos_right homega).mpr hlt⟩

variable {ε : Type} {m : Machine (LineTimes F) ε (Option (Added F))} {lineOf : ε → ℕ}
  {yawOf : ε → F}

theorem lineTimes_rising_iff (hrate : 0 < params.scanRate) (hyaw : ∀ e, |yawOf e| < 180)
    {es : List ε} (hes : ∀ e ∈ es, Assigns params m lineOf yawOf e) (layer : ℕ) :
    (lineTimes layer (m.outs .start es)).Pairwise (· ≤ ·) ↔
      TwoStretches (turns (yawsOf lineOf yawOf layer es)) := by
  have homega := omegaL_pos hrate
  have hyaws : ∀ yaw ∈ yawsOf lineOf yawOf layer es, |yaw| < 180 := by
    intro yaw hmem
    obtain ⟨e, -, he⟩ := List.mem_filterMap.mp hmem
    split at he
    · exact Option.some.inj he ▸ hyaw e
    · cases he
  rcases hcase : yawsOf lineOf yawOf layer es with _ | ⟨yawFp, rest⟩
  · rw [lineTimes_none hes .start hcase]
    exact iff_of_true .nil ⟨[], [], rfl, .nil, .nil⟩
  · rw [hcase] at hyaws
    obtain ⟨hfp, hrest⟩ := List.forall_mem_cons.mp hyaws
    have hturn : baseTime params yawFp yawFp = lit 0 := by
      rw [baseTime, clockwiseTurn, if_pos (le_refl _), sub_self, zero_div, lit_eq, Int.cast_zero]
    have hbase : ∀ c ∈ rest.map (baseTime params yawFp), 0 ≤ c ∧ c < revolution params := by
      intro c hc
      obtain ⟨yaw, hmem, rfl⟩ := List.mem_map.mp hc
      exact baseTime_nonneg_lt hrate hfp (hrest yaw hmem)
    have hstart : (lit 0 : F) < revolution params := by
      rw [← hturn]
      exact (baseTime_nonneg_lt hrate hfp hfp).2
    rw [lineTimes_first hes rfl hcase, unwrapped_rising_iff hstart hbase, ← hturn,
      ← List.map_cons (f := baseTime params yawFp), turns]
    have hmap : (yawFp :: rest).map (baseTime params yawFp) =
        ((yawFp :: rest).map (clockwiseTurn yawFp)).map (· / params.omegaL) := by
      rw [List.map_map]
      rfl
    rw [hmap, twoStretches_map fun a b => div_le_div_iff_of_pos_right homega]

omit [IsStrictOrderedRing F] in
theorem mid360_assigns (p : LivoxPoint F) :
    Assigns params (mid360Loop params) (·.line) (fun p => params.yawAngle p.x p.y) p :=
  fun _ => ⟨rfl, _, rfl, rfl, rfl⟩

omit [IsStrictOrderedRing F] in
theorem velodyne_assigns {e : VelodynePoint F × ℕ} (hring : e.1.ring < params.nScans) :
    Assigns params (velodyneLoop params false) (·.1.ring)
      (fun e => params.yawAngle e.1.x e.1.y) e := by
  intro s
  have hline : ¬ (params.featureEnabled = true ∧ params.nScans ≤ e.1.ring) :=
    fun h => absurd h.2 (not_le.mpr hring)
  show (velodynePoint params false s e).1 = _ ∧
    ∃ a, (velodynePoint params false s e).2 = some a ∧ _
  rw [velodynePoint, if_neg hline]
  exact ⟨rfl, _, rfl, rfl, rfl⟩

omit [IsStrictOrderedRing F] in
theorem yawsOf_zipIdx (cloud : List (VelodynePoint F)) (layer n : ℕ) :
    yawsOf (·.1.ring) (fun e => params.yawAngle e.1.x e.1.y) layer (cloud.zipIdx n) =
      velodyneYaws params cloud layer := by
  induction cloud generalizing n with
  | nil => rfl
  | cons p cloud ih =>
    rw [List.zipIdx_cons, yawsOf, velodyneYaws, List.filterMap_cons, List.filterMap_cons]
    have hrest := ih (n + 1)
    rw [yawsOf, velodyneYaws] at hrest
    rw [hrest]

/-- Without time stamps the times of a line rise exactly when its azimuths, measured from
the first of them, go round twice at most without a step back. -/
theorem offsetTimes_rising_iff (hrate : 0 < params.scanRate) (hatan : params.AtanBounded) :
    (∀ cloud, (∀ p ∈ cloud, p.line < params.nScans) → ∀ layer,
      (lineTimes layer (mid360Added params cloud)).Pairwise (· ≤ ·) ↔
        TwoStretches (turns (mid360Yaws params cloud layer))) ∧
    ∀ cloud, (∀ p ∈ cloud, p.ring < params.nScans) → givenOffsetTime cloud = false → ∀ layer,
      (lineTimes layer (velodyneAdded params cloud)).Pairwise (· ≤ ·) ↔
        TwoStretches (turns (velodyneYaws params cloud layer)) := by
  constructor
  · intro cloud _ layer
    exact lineTimes_rising_iff hrate (fun p => abs_yawAngle_lt hatan p.x p.y)
      (fun p _ => mid360_assigns p) layer
  · intro cloud hring hgiven layer
    rw [velodyneAdded, hgiven, ← yawsOf_zipIdx cloud layer 0]
    refine lineTimes_rising_iff hrate
      (fun e : VelodynePoint F × ℕ => abs_yawAngle_lt hatan e.1.x e.1.y)
      (fun e he => velodyne_assigns ?_) layer
    exact hring e.1 (List.fst_mem_of_mem_zipIdx he)

/-- The doubles `atan2` gives on the axes. -/
def axisAtan2 (y x : ℚ) : ℚ :=
  if y = 0 then if x < 0 then 884279719003555 / 281474976710656 else 0
  else if 0 < y then 884279719003555 / 562949953421312 else -884279719003555 / 562949953421312

def mid360Params : HandlerParams ℚ where
  nScans := 4
  scanRate := 10
  blind := 1 / 2
  pointFilterNum := 3
  featureEnabled := false
  timeUnitScale := 1
  atan2 := axisAtan2

theorem axisAtan2_bounded : mid360Params.AtanBounded := by
  intro y x
  show |axisAtan2 y x| ≤ _
  rw [axisAtan2]
  split_ifs
  · norm_num [abs_of_pos]
  · norm_num
  · norm_num [abs_of_pos]
  · norm_num [abs_of_neg]

theorem offsetTimes_rising_iff_mid360 :
    (∀ cloud, (∀ p ∈ cloud, p.line < mid360Params.nScans) → ∀ layer,
      (lineTimes layer (mid360Added mid360Params cloud)).Pairwise (· ≤ ·) ↔
        TwoStretches (turns (mid360Yaws mid360Params cloud layer))) ∧
    ∀ cloud, (∀ p ∈ cloud, p.ring < mid360Params.nScans) → givenOffsetTime cloud = false →
      ∀ layer, (lineTimes layer (velodyneAdded mid360Params cloud)).Pairwise (· ≤ ·) ↔
        TwoStretches (turns (velodyneYaws mid360Params cloud layer)) :=
  offsetTimes_rising_iff (by decide) axisAtan2_bounded

/-- Half a turn, a quarter back, and the last quarter back to the start. -/
def steppingBack : List (LivoxPoint ℚ) :=
  [⟨1, 0, 0, 0, 0⟩, ⟨-1, 0, 0, 0, 0⟩, ⟨0, -1, 0, 0, 0⟩, ⟨1, 0, 0, 0, 0⟩]

/-- The quarter back costs a revolution, and the fourth point comes before the third. -/
theorem steppingBack_not_rising : (∀ p ∈ steppingBack, p.line < mid360Params.nScans) ∧
    ¬ (lineTimes 0 (mid360Added mid360Params steppingBack)).Pairwise (· ≤ ·) := by
  decide +kernel

end

end Preprocess
end RobotNav
