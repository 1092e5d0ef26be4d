/-
`timer_callback`: one package through `ImuProcess`, the filter update and the
map.

`feats_undistort` is a global cloud that only `UndistortPcl` writes, so the model
keeps beside its points the scan they come from.  The map, the voxel filter and
the filter update are parameters.
-/
import RobotNav.LaserMapping.ImuProcess

namespace RobotNav
namespace LaserMapping

/-- `feats_undistort`: the points, and the scan they were made from (0 before the
first). -/
structure Cloud (K : Type) where
  seq : ℕ
  points : List (Point K)
  deriving DecidableEq

/-- What `timer_callback` does with a cloud or for the outside. -/
inductive Action (K : Type) where
  | publishOdometry
  /-- `ikdtree.Build`. -/
  | build (cloud : Cloud K)
  /-- The iterated filter update. -/
  | fuse (cloud : Cloud K)
  /-- `map_incremental`. -/
  | insert (cloud : Cloud K)
  deriving DecidableEq

/-- The parts of the node that are parameters: the filter with its state `S`, and
the map `M`.  `incremental` also reads the state before the update, from which
the nearest points were found. -/
structure Env (K S M : Type) where
  filter : Filter K S
  update : S → M → List (Point K) → S
  downsample : List (Point K) → List (Point K)
  rootIsNull : M → Bool
  fovSegment : M → S → M
  buildMap : M → S → List (Point K) → M
  incremental : M → S → S → Bool → List (Point K) → M

structure NodeState (K S M : Type) where
  buf : State K
  flgFirstScan : Bool
  firstLidarTime : K
  imu : ImuProcess K
  kf : S
  featsUndistort : Cloud K
  map : M

/-- What a step shows: the outcome of the callback or of `sync_packages`, the
call of `UndistortPcl` if there was one, and the actions in their order. -/
structure NodeOut (K : Type) where
  input : Output K
  undistorted : Option (Undistorted K)
  actions : List (Action K)
  deriving DecidableEq

variable {K : Type} [Arith K] {S M μ : Type} (cfg : Config K μ) (env : Env K S M)

def initTime : K := ratio 1 10

/-- `timer_callback` from the test of `feats_undistort` on. -/
def NodeState.mapScan (s : NodeState K S M) (begTime : K) : NodeState K S M × List (Action K) :=
  let cloud := s.featsUndistort
  if cloud.points.isEmpty then (s, [.publishOdometry])
  else
    let flgEKFInited := !decide (begTime - s.firstLidarTime < initTime)
    let map := env.fovSegment s.map s.kf
    let down := env.downsample cloud.points
    if env.rootIsNull map then
      if 5 < down.length then ({ s with map := env.buildMap map s.kf down }, [.build cloud])
      else ({ s with map := map }, [])
    else if down.length < 5 then ({ s with map := map }, [.publishOdometry])
    else
      let kf := env.update s.kf map down
      ({ s with kf := kf, map := env.incremental map s.kf kf flgEKFInited down },
        [.fuse cloud, .publishOdometry, .insert cloud])

/-- `feats_undistort` after `Process`. -/
def Cloud.refill (cloud : Cloud K) : Option (Undistorted K) → Cloud K
  | none => cloud
  | some u => { seq := u.seq, points := u.points }

/-- `timer_callback` after a successful `sync_packages`. -/
def NodeState.usePackage (s : NodeState K S M) (meas : MeasureGroup K) :
    NodeState K S M × NodeOut K :=
  if s.flgFirstScan then
    ({ s with flgFirstScan := false, firstLidarTime := meas.lidarBegTime },
      { input := .package meas, undistorted := none, actions := [] })
  else
    let (imu, kf, u) := s.imu.process env.filter meas s.kf
    let (s', actions) := NodeState.mapScan env
      { s with imu := imu, kf := kf, featsUndistort := s.featsUndistort.refill u }
      meas.lidarBegTime
    (s', { input := .package meas, undistorted := u, actions := actions })

def timerCallback (s : NodeState K S M) : NodeState K S M × NodeOut K :=
  match syncPackages s.buf with
  | (buf, true) => NodeState.usePackage env { s with buf := buf } buf.measures
  | (buf, false) => ({ s with buf := buf }, { input := .quiet, undistorted := none, actions := [] })

/-- The callbacks only touch the buffers; the timer runs `timer_callback`. -/
def nodeStep (s : NodeState K S M) : Event K μ → NodeState K S M × NodeOut K
  | .sync => timerCallback env s
  | e =>
    let (buf, o) := step cfg s.buf e
    ({ s with buf := buf }, { input := o, undistorted := none, actions := [] })

/-- The node at start-up; the first state of the filter, the unset fields of
`ImuProcess` and the empty map are given. -/
def NodeState.init (imu : ImuProcess K) (kf : S) (map : M) : NodeState K S M where
  buf := State.init
  flgFirstScan := true
  firstLidarTime := lit 0
  imu := imu
  kf := kf
  featsUndistort := { seq := 0, points := [] }
  map := map

def mappingNode (imu : ImuProcess K) (kf : S) (map : M) :
    Machine (NodeState K S M) (Event K μ) (NodeOut K) where
  init := NodeState.init imu kf map
  step := nodeStep cfg env

/-- A robot at rest: the filter keeps its state, the points stay where they are,
and the map is the list of all of them. -/
def stillEnv : Env ℚ Unit (List (Point ℚ)) where
  filter :=
    { norm := fun v => fabs v.z
      initialise := fun s _ _ => s
      predict := fun s _ _ _ => s
      angvel := fun _ v => v
      accWorld := fun _ v => v
      compensate := fun _ _ points => points }
  update := fun s _ _ => s
  downsample := id
  rootIsNull := List.isEmpty
  fovSegment := fun map _ => map
  buildMap := fun _ _ points => points
  incremental := fun map _ _ _ points => map ++ points

/-! ## The buffers inside the node -/

variable {cfg env}

@[simp] theorem mapScan_buf (s : NodeState K S M) (begTime : K) :
    (s.mapScan env begTime).1.buf = s.buf := by
  simp only [NodeState.mapScan]
  split_ifs <;> rfl

@[simp] theorem mapScan_imu (s : NodeState K S M) (begTime : K) :
    (s.mapScan env begTime).1.imu = s.imu := by
  simp only [NodeState.mapScan]
  split_ifs <;> rfl

theorem usePackage_buf (s : NodeState K S M) (meas : MeasureGroup K) :
    (s.usePackage env meas).1.buf = s.buf ∧ (s.usePackage env meas).2.input = .package meas := by
  by_cases hfirst : s.flgFirstScan = true
  · simp only [NodeState.usePackage, hfirst, if_true]
    exact ⟨trivial, trivial⟩
  · simp only [NodeState.usePackage, hfirst, if_false, mapScan_buf, Bool.false_eq_true]
    exact ⟨trivial, trivial⟩

/-- A call of `timer_callback` waits, or uses the package `sync_packages` has just
delivered. -/
theorem timerCallback_cases (env : Env K S M) (s : NodeState K S M) :
    ((syncPackages s.buf).2 = false ∧ timerCallback env s =
      ({ s with buf := (syncPackages s.buf).1 },
        { input := .quiet, undistorted := none, actions := [] })) ∨
    ((syncPackages s.buf).2 = true ∧ timerCallback env s =
      NodeState.usePackage env { s with buf := (syncPackages s.buf).1 }
        (syncPackages s.buf).1.measures) := by
  rw [timerCallback]
  rcases syncPackages s.buf with ⟨buf, _ | _⟩
  · exact .inl ⟨rfl, rfl⟩
  · exact .inr ⟨rfl, rfl⟩

/-- The node moves its buffers as the callbacks and `sync_packages` do alone. -/
theorem mappingNode_projects (cfg : Config K μ) (env : Env K S M) (imu : ImuProcess K) (kf : S)
    (map : M) :
    Machine.Projects (mappingNode cfg env imu kf map) (buffers cfg) NodeState.buf
      NodeOut.input := by
  constructor
  · intro s e
    cases e with
    | standardPcl msg => rfl
    | livoxPcl msg => rfl
    | imu msg => rfl
    | sync =>
      rw [buffers_next_sync]
      show (timerCallback env s).1.buf = _
      rcases timerCallback_cases env s with ⟨-, htimer⟩ | ⟨-, htimer⟩
      · rw [htimer]
      · rw [htimer]
        exact (usePackage_buf _ _).1
  · intro s e
    cases e with
    | standardPcl msg => rfl
    | livoxPcl msg => rfl
    | imu msg => rfl
    | sync =>
      rw [buffers_out_sync]
      show (timerCallback env s).2.input = _
      rcases timerCallback_cases env s with ⟨hsync, htimer⟩ | ⟨hsync, htimer⟩
      · rw [htimer, hsync]
        rfl
      · rw [htimer, hsync]
        exact (usePackage_buf _ _).2

end LaserMapping
end RobotNav
