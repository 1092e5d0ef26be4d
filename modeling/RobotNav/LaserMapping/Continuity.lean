/-
How often `timer_callback` publishes the odometry message and its transform.
-/
import RobotNav.LaserMapping.Tiling

namespace RobotNav
namespace LaserMapping

variable {K : Type}

def Action.publishes : Action K → Bool
  | .publishOdometry => true
  | _ => false

/-- Calls of `publish_odometry` within one callback. -/
def NodeOut.publications (o : NodeOut K) : ℕ := o.actions.countP Action.publishes

/-- Every successful `sync_packages` but the first is answered by one
`publish_odometry`. -/
def PublishesEach (os : List (NodeOut K)) : Prop :=
  ∀ a o b, os = a ++ o :: b → packages (a.map NodeOut.input) ≠ [] →
    o.input.delivered.isSome → o.publications = 1

variable [Arith K] {S M μ : Type}

/-- After the first scan, a package for which `Process` leaves points in
`feats_undistort` and the tree has no root yet. -/
def NodeState.FindsNoMap (env : Env K S M) (s : NodeState K S M) (meas : MeasureGroup K) : Prop :=
  let (_, kf, u) := s.imu.process env.filter meas s.kf
  (s.featsUndistort.refill u).points ≠ [] ∧ env.rootIsNull (env.fovSegment s.map kf) = true

/-- A step does not call the timer on such a package. -/
def MapFound (env : Env K S M) (s : NodeState K S M) (e : Event K μ) : Prop :=
  e = .sync → (syncPackages s.buf).2 = true → s.flgFirstScan = false →
    ¬ s.FindsNoMap env (syncPackages s.buf).1.measures

/-! ## One callback -/

section Callback

variable (env : Env K S M)

theorem mapScan_publications (s : NodeState K S M) (begTime : K) :
    (s.mapScan env begTime).2.countP Action.publishes = 1 ↔
      ¬ (s.featsUndistort.points ≠ [] ∧ env.rootIsNull (env.fovSegment s.map s.kf) = true) := by
  by_cases hempty : s.featsUndistort.points = []
  · simp [NodeState.mapScan, hempty, Action.publishes]
  · have hisEmpty : s.featsUndistort.points.isEmpty = false := by simp [hempty]
    by_cases hroot : env.rootIsNull (env.fovSegment s.map s.kf) = true
    · have hnone : (s.mapScan env begTime).2.countP Action.publishes = 0 := by
        simp only [NodeState.mapScan, hisEmpty, hroot, if_true, Bool.false_eq_true, if_false]
        split_ifs <;> rfl
      simp [hnone, hempty, hroot]
    · have hone : (s.mapScan env begTime).2.countP Action.publishes = 1 := by
        simp only [NodeState.mapScan, hisEmpty, hroot, Bool.false_eq_true, if_false]
        split_ifs <;> rfl
      simp [hone, hroot]

/-- After the first scan a package is answered by one message unless it finds no
map. -/
theorem usePackage_publications {s : NodeState K S M} (hfirst : s.flgFirstScan = false)
    (meas : MeasureGroup K) :
    (s.usePackage env meas).2.publications = 1 ↔ ¬ s.FindsNoMap env meas := by
  rw [NodeState.usePackage, if_neg (by simp [hfirst]), NodeState.FindsNoMap,
    NodeOut.publications]
  exact mapScan_publications env _ _

theorem timerCallback_publications {s : NodeState K S M} (hfirst : s.flgFirstScan = false)
    (hsync : (syncPackages s.buf).2 = true) :
    (timerCallback env s).2.publications = 1 ↔
      ¬ s.FindsNoMap env (syncPackages s.buf).1.measures := by
  rcases timerCallback_cases env s with ⟨hwait, -⟩ | ⟨-, htimer⟩
  · rw [hsync] at hwait
    cases hwait
  · rw [htimer]
    have h := usePackage_publications env (s := { s with buf := (syncPackages s.buf).1 }) hfirst
      (syncPackages s.buf).1.measures
    exact h

end Callback

/-! ## The first scan -/

section FirstScan

variable (cfg : Config K μ) (env : Env K S M)

theorem mapScan_flgFirstScan (s : NodeState K S M) (begTime : K) :
    (s.mapScan env begTime).1.flgFirstScan = s.flgFirstScan := by
  simp only [NodeState.mapScan]
  split_ifs <;> rfl

theorem usePackage_flgFirstScan (s : NodeState K S M) (meas : MeasureGroup K) :
    (s.usePackage env meas).1.flgFirstScan = false := by
  by_cases hfirst : s.flgFirstScan = true
  · rw [NodeState.usePackage, if_pos hfirst]
  · rw [NodeState.usePackage, if_neg hfirst]
    show (NodeState.mapScan env _ _).1.flgFirstScan = false
    rw [mapScan_flgFirstScan]
    exact Bool.eq_false_iff.mpr hfirst

/-- A step that delivers a package leaves the first scan behind; no other step
touches the flag. -/
theorem nodeStep_flgFirstScan (s : NodeState K S M) (e : Event K μ) :
    (nodeStep cfg env s e).1.flgFirstScan = true ↔
      s.flgFirstScan = true ∧ (nodeStep cfg env s e).2.input.delivered = none := by
  cases e with
  | standardPcl msg => exact ⟨fun h => ⟨h, rfl⟩, fun h => h.1⟩
  | livoxPcl msg => exact ⟨fun h => ⟨h, rfl⟩, fun h => h.1⟩
  | imu msg => exact ⟨fun h => ⟨h, rfl⟩, fun h => h.1⟩
  | sync =>
    show (timerCallback env s).1.flgFirstScan = true ↔
      s.flgFirstScan = true ∧ (timerCallback env s).2.input.delivered = none
    rcases timerCallback_cases env s with ⟨-, htimer⟩ | ⟨-, htimer⟩
    · rw [htimer]
      exact ⟨fun h => ⟨h, rfl⟩, fun h => h.1⟩
    · rw [htimer, usePackage_flgFirstScan, (usePackage_buf _ _).2]
      simp [Output.delivered]

variable (imu : ImuProcess K) (kf : S) (map : M)

theorem run_flgFirstScan (es : List (Event K μ)) :
    ((mappingNode cfg env imu kf map).run (NodeState.init imu kf map) es).flgFirstScan = true ↔
      packages (((mappingNode cfg env imu kf map).outs (NodeState.init imu kf map) es).map
        NodeOut.input) = [] := by
  induction es using List.reverseRecOn with
  | nil => simp [packages, NodeState.init]
  | append_singleton es e ih =>
    rw [Machine.run_snoc, Machine.outs_snoc, List.map_append, List.map_singleton, packages_snoc,
      List.append_eq_nil_iff, ← ih]
    simp only [Option.toList_eq_nil_iff]
    exact nodeStep_flgFirstScan cfg env _ e

end FirstScan

/-! ## Runs -/

/-- Only a successful `sync_packages` delivers a package. -/
theorem nodeStep_delivers {cfg : Config K μ} {env : Env K S M} {s : NodeState K S M}
    {e : Event K μ} :
    (nodeStep cfg env s e).2.input.delivered.isSome ↔
      e = .sync ∧ (syncPackages s.buf).2 = true := by
  cases e with
  | standardPcl msg => simp [nodeStep, step, Output.delivered]
  | livoxPcl msg => simp [nodeStep, step, Output.delivered]
  | imu msg => simp [nodeStep, step, Output.delivered]
  | sync =>
    show (timerCallback env s).2.input.delivered.isSome ↔ _
    rcases timerCallback_cases env s with ⟨hsync, hout⟩ | ⟨hsync, hout⟩
    · simp [hout, hsync, Output.delivered]
    · simp [hout, hsync, (usePackage_buf _ _).2, Output.delivered]

/-- Every run of the mapping node: each successful `sync_packages` after the first
leads to one `publish_odometry` exactly when no timer call finds the tree without
a root while it holds points. -/
theorem publishesEach_iff (cfg : Config K μ) (env : Env K S M) (imu : ImuProcess K) (kf : S)
    (map : M) (es : List (Event K μ)) :
    PublishesEach ((mappingNode cfg env imu kf map).outs (NodeState.init imu kf map) es) ↔
      (mappingNode cfg env imu kf map).Along (MapFound env) (NodeState.init imu kf map) es := by
  rw [Machine.along_iff]
  constructor
  · intro h before e after hes he hsync hfirst
    subst he hes
    rw [Machine.outs_append, Machine.outs_cons] at h
    have hpackages : packages (((mappingNode cfg env imu kf map).outs (NodeState.init imu kf map)
        before).map NodeOut.input) ≠ [] := by
      rw [Ne, ← run_flgFirstScan, hfirst]
      exact Bool.false_ne_true
    have hone := h _ _ _ rfl hpackages (nodeStep_delivers.mpr ⟨rfl, hsync⟩)
    exact (timerCallback_publications env hfirst hsync).mp hone
  · intro h a o b hos hpackages hinput
    obtain ⟨before, e, after, hes, hbefore, hout, -⟩ := Machine.outs_eq_append_cons hos
    have hfirst : ((mappingNode cfg env imu kf map).run (NodeState.init imu kf map)
        before).flgFirstScan = false := by
      rw [← hbefore, Ne, ← run_flgFirstScan] at hpackages
      exact Bool.eq_false_iff.mpr hpackages
    rw [← hout] at hinput
    obtain ⟨he, hsync⟩ := nodeStep_delivers.mp hinput
    have hfound := h before e after hes he hsync hfirst
    rw [← hout, he]
    exact (timerCallback_publications env hfirst hsync).mpr hfound

theorem gapOuts_length : 18 < gapOuts.length := by decide +kernel

/-- The third scan of the run finds no map: the call that builds it publishes
nothing. -/
theorem mapBuild_publishes_nothing :
    (gapOuts.get ⟨18, gapOuts_length⟩).input.delivered.isSome ∧
      (gapOuts.get ⟨18, gapOuts_length⟩).publications = 0 ∧ ¬ PublishesEach gapOuts := by
  refine ⟨by decide +kernel, by decide +kernel, fun h => ?_⟩
  have hsplit : gapOuts =
      gapOuts.take 18 ++ gapOuts.get ⟨18, gapOuts_length⟩ :: gapOuts.drop 19 := by
    rw [List.get_eq_getElem, List.cons_getElem_drop_succ, List.take_append_drop]
  have hone := h _ _ _ hsplit (by decide +kernel) (by decide +kernel)
  revert hone
  decide +kernel

end LaserMapping
end RobotNav
