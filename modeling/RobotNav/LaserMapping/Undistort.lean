/-
The backward loop of `UndistortPcl`, which moves every point of a scan to the pose
at the end of the frame.

The loop over the IMU poses and the one over the points share one point iterator,
and the inner loop leaves it where it is when it reaches the first point.  A point
is kept together with the passes it went through.
-/
import RobotNav.LaserMapping.ImuProcess
import Mathlib.Data.List.TakeWhile
import Mathlib.Tactic.NormNum

namespace RobotNav
namespace LaserMapping

variable {K S : Type} [Arith K]

/-- What the loop reads off a state of the filter. -/
structure StateView (K S : Type) where
  vel : S → V3 K
  pos : S → V3 K
  rot : S → V3 K → V3 K
  rotConjugate : S → V3 K → V3 K
  offsetRLI : S → V3 K → V3 K
  offsetRLIConjugate : S → V3 K → V3 K
  offsetTLI : S → V3 K
  /-- `Exp(ang_vel, dt)`. -/
  exp : V3 K → K → V3 K → V3 K

/-- The offset time of a point, in seconds. -/
def Point.offset (p : Point K) : K := p.curvature / lit 1000

/-- One pass of the loop over `it_kp`: the poses `it_kp - 1` and `it_kp`, and the
number of the first of the two in `IMUpose`. -/
structure Interval (K S : Type) where
  index : ℕ
  head : Pose6D K S
  tail : Pose6D K S

def Interval.before (iv : Interval K S) (t : K) : Prop := iv.head.offsetTime < t

instance (iv : Interval K S) (t : K) : Decidable (iv.before t) :=
  inferInstanceAs (Decidable (_ < _))

/-- The passes of the loop over `it_kp`, from the poses in reverse. -/
def intervals : List (Pose6D K S) → List (Interval K S)
  | tail :: head :: rest =>
    { index := rest.length, head := head, tail := tail } :: intervals (head :: rest)
  | _ => []

variable (v : StateView K S) (imuState : S)

/-- The body of the inner loop: `P_compensate`. -/
def Interval.compensate (iv : Interval K S) (p : Point K) : Point K :=
  let dt := p.offset - iv.head.offsetTime
  let ri := fun x => v.rot iv.head.kf (v.exp iv.tail.gyr dt x)
  let pi : V3 K := ⟨p.x, p.y, p.z⟩
  let tei := (((v.pos iv.head.kf).add ((v.vel iv.head.kf).scale dt)).add
    (((iv.tail.acc.scale (ratio 1 2)).scale dt).scale dt)).sub (v.pos imuState)
  let turned := (ri ((v.offsetRLI imuState pi).add (v.offsetTLI imuState))).add tei
  let c := v.offsetRLIConjugate imuState
    ((v.rotConjugate imuState turned).sub (v.offsetTLI imuState))
  { p with x := c.x, y := c.y, z := c.z }

/-- A point of `pcl_out`, with the passes whose body it went through. -/
structure Tracked (K S : Type) where
  point : Point K
  passes : List (Interval K S)

def Tracked.start (p : Point K) : Tracked K S := { point := p, passes := [] }

def Tracked.pass (iv : Interval K S) (c : Tracked K S) : Tracked K S :=
  { point := iv.compensate v imuState c.point, passes := c.passes ++ [iv] }

/-- The inner loop.  `pending` are the points from the iterator down to the first,
`done` the points behind the iterator. -/
def innerLoop (iv : Interval K S) :
    List (Tracked K S) → List (Tracked K S) → List (Tracked K S) × List (Tracked K S)
  | [], done => ([], done)
  | [first], done =>
    -- the `break` at `points.begin()` leaves the iterator on the point just moved
    if iv.before first.point.offset then ([first.pass v imuState iv], done) else ([first], done)
  | c :: next :: rest, done =>
    if iv.before c.point.offset then
      innerLoop iv (next :: rest) (c.pass v imuState iv :: done)
    else (c :: next :: rest, done)

/-- The loop over `it_kp`. -/
def outerLoop (ivs : List (Interval K S)) (pending done : List (Tracked K S)) :
    List (Tracked K S) × List (Tracked K S) :=
  ivs.foldl (fun acc iv => innerLoop v imuState iv acc.1 acc.2) (pending, done)

/-- The cloud after the backward loop, from the sorted points. -/
def undistorted (imuPose : List (Pose6D K S)) (points : List (Point K)) : List (Tracked K S) :=
  let (pending, done) := outerLoop v imuState (intervals imuPose.reverse)
    (points.map Tracked.start).reverse []
  pending.reverse ++ done

/-- A filter whose `compensate` is this loop. -/
def Filter.withLoop (f : Filter K S) : Filter K S :=
  { f with
    compensate := fun imuPose imuState points =>
      (undistorted v imuState imuPose points).map Tracked.point }

/-- `IMUpose` at the end of the forward propagation. -/
def ImuProcess.imuPose (p : ImuProcess K) (f : Filter K S) (meas : MeasureGroup K) (kf : S) :
    List (Pose6D K S) :=
  (Propagation.forward f p meas.lidarBegTime (p.propagation kf) (p.lastImu :: meas.imu)).imuPose

/-- What the backward loop of one package does to sorted points. -/
def ImuProcess.backward (p : ImuProcess K) (f : Filter K S) (meas : MeasureGroup K) (kf : S)
    (points : List (Point K)) : List (Tracked K S) :=
  undistorted v (p.undistortPcl f meas kf).2.1 (p.imuPose f meas kf) points

theorem undistortPcl_points (p : ImuProcess K) (f : Filter K S) (meas : MeasureGroup K) (kf : S) :
    (p.undistortPcl (f.withLoop v) meas kf).2.2.points =
      (p.backward v (f.withLoop v) meas kf
        (meas.lidar.points.insertionSort fun a b => a.curvature ≤ b.curvature)).map
          Tracked.point := rfl

/-! ## What is asked of the loop -/

/-- `iv` starts at the latest pose of `IMUpose` but the last whose offset time is
strictly before `t`. -/
structure LatestBefore (imuPose : List (Pose6D K S)) (t : K) (iv : Interval K S) : Prop where
  head : imuPose[iv.index]? = some iv.head
  tail : imuPose[iv.index + 1]? = some iv.tail
  before : iv.before t
  latest : ∀ k later, iv.index < k → k + 1 < imuPose.length → imuPose[k]? = some later →
    ¬ later.offsetTime < t

/-- At most one pass, and for a point after the first pose the one of the latest
head before it. -/
def CompensatedOnce (imuPose : List (Pose6D K S)) (p : Point K) (c : Tracked K S) : Prop :=
  c.passes.length ≤ 1 ∧
    ∀ first, imuPose.head? = some first → first.offsetTime < p.offset →
      ∃ iv, LatestBefore imuPose p.offset iv ∧ c.passes = [iv] ∧
        c.point = iv.compensate v imuState p

/-- In one package the loop compensates every point as it should. -/
def ImuProcess.CompensatesOnce (p : ImuProcess K) (f : Filter K S) (meas : MeasureGroup K) (kf : S)
    (points : List (Point K)) : Prop :=
  List.Forall₂ (CompensatedOnce v (p.undistortPcl f meas kf).2.1 (p.imuPose f meas kf)) points
    (p.backward v f meas kf points)

/-- The offset times of the heads, from the messages of the package: those before
the end of the last scan leave no pose, and the last pose is no head. -/
def ImuProcess.headOffsets (p : ImuProcess K) (meas : MeasureGroup K) : List K :=
  (lit 0 :: (meas.imu.filter fun m => ¬ m.sec < p.lastLidarEndTime).map fun m =>
    m.sec - meas.lidarBegTime).dropLast

/-! ## What the loop does -/

/-- The pass of a point other than the first. -/
def latestPass (ivs : List (Interval K S)) (c : Tracked K S) : Tracked K S :=
  ((ivs.find? fun iv => iv.before c.point.offset).map fun iv => c.pass v imuState iv).getD c

/-- The passes of the first point. -/
def everyPass (ivs : List (Interval K S)) (c : Tracked K S) : Tracked K S :=
  ivs.foldl (fun c iv => if iv.before c.point.offset then c.pass v imuState iv else c) c

variable {v : StateView K S} {imuState : S}

@[simp] theorem Tracked.pass_offset (iv : Interval K S) (c : Tracked K S) :
    (c.pass v imuState iv).point.offset = c.point.offset := rfl

theorem latestPass_cons_of_before {iv : Interval K S} {ivs : List (Interval K S)}
    {c : Tracked K S} (hbefore : iv.before c.point.offset) :
    latestPass v imuState (iv :: ivs) c = c.pass v imuState iv := by
  rw [latestPass, List.find?_cons_of_pos (by simpa using hbefore)]
  rfl

theorem latestPass_cons_of_not {iv : Interval K S} {ivs : List (Interval K S)}
    {c : Tracked K S} (hbefore : ¬ iv.before c.point.offset) :
    latestPass v imuState (iv :: ivs) c = latestPass v imuState ivs c := by
  rw [latestPass, latestPass, List.find?_cons_of_neg (by simpa using hbefore)]

theorem everyPass_cons (iv : Interval K S) (ivs : List (Interval K S)) (c : Tracked K S) :
    everyPass v imuState (iv :: ivs) c = everyPass v imuState ivs
      (if iv.before c.point.offset then c.pass v imuState iv else c) := rfl

/-- The points from the iterator down, in order of time, above the first point. -/
structure Descending (first : Tracked K S) (above : List (Tracked K S)) : Prop where
  sorted : above.Pairwise fun a b => b.point.offset ≤ a.point.offset
  first_le : ∀ c ∈ above, first.point.offset ≤ c.point.offset

theorem Interval.before_mono {iv : Interval K S} {s t : K} (hs : iv.before s) (hle : s ≤ t) :
    iv.before t := lt_of_lt_of_le hs hle

/-- The inner loop passes the points above the first up to the one that is too
early, and the first as well if it gets there. -/
theorem innerLoop_eq (iv : Interval K S) {first : Tracked K S} :
    ∀ {above : List (Tracked K S)} (done : List (Tracked K S)), Descending first above →
      innerLoop v imuState iv (above ++ [first]) done =
        (above.dropWhile (fun c => iv.before c.point.offset) ++
            [if iv.before first.point.offset then first.pass v imuState iv else first],
          ((above.takeWhile fun c => iv.before c.point.offset).map
            (Tracked.pass v imuState iv)).reverse ++ done) := by
  intro above
  induction above with
  | nil =>
    intro done _
    show innerLoop v imuState iv [first] done = _
    unfold innerLoop
    by_cases hfirst : iv.before first.point.offset
    · simp [hfirst]
    · simp [hfirst]
  | cons c above ih =>
    intro done hdesc
    have hrest : Descending first above :=
      ⟨(List.pairwise_cons.mp hdesc.sorted).2,
        fun d hd => hdesc.first_le d (List.mem_cons_of_mem c hd)⟩
    have hstep : innerLoop v imuState iv (c :: (above ++ [first])) done =
        if iv.before c.point.offset then
          innerLoop v imuState iv (above ++ [first]) (c.pass v imuState iv :: done)
        else (c :: (above ++ [first]), done) := by
      cases above with
      | nil => rfl
      | cons d above => rfl
    show innerLoop v imuState iv (c :: (above ++ [first])) done = _
    rw [hstep]
    by_cases hc : iv.before c.point.offset
    · rw [if_pos hc, ih _ hrest]
      simp [hc]
    · have hfirst : ¬ iv.before first.point.offset := fun h =>
        hc (Interval.before_mono h (hdesc.first_le c List.mem_cons_self))
      simp [hc, hfirst]

/-- Once a point is too early for an interval, so are those below it. -/
theorem not_before_of_mem_dropWhile (iv : Interval K S) {above : List (Tracked K S)}
    (hsorted : above.Pairwise fun a b => b.point.offset ≤ a.point.offset) {c : Tracked K S}
    (hc : c ∈ above.dropWhile fun c => iv.before c.point.offset) :
    ¬ iv.before c.point.offset := by
  induction above with
  | nil => cases hc
  | cons d above ih =>
    obtain ⟨hd, hrest⟩ := List.pairwise_cons.mp hsorted
    by_cases hbefore : iv.before d.point.offset
    · rw [List.dropWhile_cons_of_pos (by simpa using hbefore)] at hc
      exact ih hrest hc
    · rw [List.dropWhile_cons_of_neg (by simpa using hbefore)] at hc
      rcases List.mem_cons.mp hc with rfl | hc
      · exact hbefore
      · exact fun h => hbefore (Interval.before_mono h (hd c hc))

theorem Descending.dropWhile {iv : Interval K S} {first : Tracked K S}
    {above : List (Tracked K S)} (hdesc : Descending first above) :
    Descending (if iv.before first.point.offset then first.pass v imuState iv else first)
      (above.dropWhile fun c => iv.before c.point.offset) := by
  have hsub := List.dropWhile_sublist (l := above) fun c => decide (iv.before c.point.offset)
  constructor
  · exact hdesc.sorted.sublist hsub
  · intro c hc
    have hle := hdesc.first_le c (hsub.mem hc)
    split_ifs
    · exact hle
    · exact hle

/-- The loop over the poses: the points above the first go through one pass, that
of the first interval that starts before them, and the first point through every
such pass. -/
theorem outerLoop_eq (ivs : List (Interval K S)) {first : Tracked K S}
    {above : List (Tracked K S)} (done : List (Tracked K S)) (hdesc : Descending first above) :
    (outerLoop v imuState ivs (above ++ [first]) done).1.reverse ++
        (outerLoop v imuState ivs (above ++ [first]) done).2 =
      everyPass v imuState ivs first ::
        ((above.map (latestPass v imuState ivs)).reverse ++ done) := by
  induction ivs generalizing first above done with
  | nil =>
    have hnone : above.map (latestPass v imuState []) = above := List.map_id' above
    rw [hnone]
    show (above ++ [first]).reverse ++ done = _
    simp [everyPass]
  | cons iv ivs ih =>
    have hsplit := List.takeWhile_append_dropWhile
      (p := fun c : Tracked K S => decide (iv.before c.point.offset)) (l := above)
    have htaken : (above.takeWhile fun c => iv.before c.point.offset).map
        (latestPass v imuState (iv :: ivs)) =
        (above.takeWhile fun c => iv.before c.point.offset).map (Tracked.pass v imuState iv) :=
      List.map_congr_left fun c hc =>
        latestPass_cons_of_before (by simpa using List.mem_takeWhile_imp hc)
    have hleft : (above.dropWhile fun c => iv.before c.point.offset).map
        (latestPass v imuState (iv :: ivs)) =
        (above.dropWhile fun c => iv.before c.point.offset).map (latestPass v imuState ivs) :=
      List.map_congr_left fun c hc =>
        latestPass_cons_of_not (not_before_of_mem_dropWhile iv hdesc.sorted hc)
    have hloop : outerLoop v imuState (iv :: ivs) (above ++ [first]) done =
        outerLoop v imuState ivs
          (innerLoop v imuState iv (above ++ [first]) done).1
          (innerLoop v imuState iv (above ++ [first]) done).2 := rfl
    rw [hloop, innerLoop_eq iv done hdesc, ih _ hdesc.dropWhile, everyPass_cons]
    conv_rhs => rw [← hsplit, List.map_append, htaken, hleft, List.reverse_append]
    rw [List.append_assoc]

theorem undistorted_nil (imuPose : List (Pose6D K S)) :
    undistorted v imuState imuPose [] = [] := by
  have hloop : ∀ ivs : List (Interval K S), outerLoop v imuState ivs [] [] = ([], []) := by
    intro ivs
    induction ivs with
    | nil => rfl
    | cons iv ivs ih => exact ih
  show (outerLoop v imuState (intervals imuPose.reverse) [] []).1.reverse ++
    (outerLoop v imuState (intervals imuPose.reverse) [] []).2 = []
  rw [hloop]
  rfl

/-- The points in order of time, the first of them apart. -/
theorem undistorted_cons (imuPose : List (Pose6D K S)) {first : Point K} {rest : List (Point K)}
    (hsorted : (first :: rest).Pairwise fun a b => a.offset ≤ b.offset) :
    undistorted v imuState imuPose (first :: rest) =
      everyPass v imuState (intervals imuPose.reverse) (.start first) ::
        rest.map fun p => latestPass v imuState (intervals imuPose.reverse) (.start p) := by
  obtain ⟨hfirst, hrest⟩ := List.pairwise_cons.mp hsorted
  have hdesc : Descending (Tracked.start (S := S) first) (rest.map Tracked.start).reverse := by
    constructor
    · rw [List.pairwise_reverse, List.pairwise_map]
      exact hrest
    · intro c hc
      obtain ⟨p, hp, rfl⟩ := List.mem_map.mp (List.mem_reverse.mp hc)
      exact hfirst p hp
  show (outerLoop v imuState (intervals imuPose.reverse)
      ((first :: rest).map Tracked.start).reverse []).1.reverse ++
    (outerLoop v imuState (intervals imuPose.reverse)
      ((first :: rest).map Tracked.start).reverse []).2 = _
  rw [List.map_cons, List.reverse_cons, outerLoop_eq _ [] hdesc, List.append_nil,
    ← List.map_reverse, List.reverse_reverse, List.map_map]
  rfl

/-! ## The passes of a point -/

theorem everyPass_passes (ivs : List (Interval K S)) (c : Tracked K S) :
    (everyPass v imuState ivs c).passes =
      c.passes ++ ivs.filter fun iv => iv.before c.point.offset := by
  induction ivs generalizing c with
  | nil => simp [everyPass]
  | cons iv ivs ih =>
    rw [everyPass_cons, ih]
    by_cases hbefore : iv.before c.point.offset
    · rw [if_pos hbefore, List.filter_cons_of_pos (by simpa using hbefore), Tracked.pass_offset]
      exact List.append_assoc _ _ _
    · rw [if_neg hbefore, List.filter_cons_of_neg (by simpa using hbefore)]

omit [Arith K] in
theorem intervals_heads :
    ∀ rev : List (Pose6D K S), (intervals rev).map Interval.head = rev.tail
  | [] => rfl
  | [_] => rfl
  | tail :: head :: rest => by
    rw [intervals, List.map_cons, intervals_heads (head :: rest), List.tail_cons, List.tail_cons]

/-- A pose more does not change what the latest head is when the pose that now is
a head is too late. -/
theorem LatestBefore.snoc {imuPose : List (Pose6D K S)} {t : K} {iv : Interval K S}
    (hlatest : LatestBefore imuPose t iv) {last tail : Pose6D K S}
    (hlast : imuPose.getLast? = some last) (hafter : ¬ last.offsetTime < t) :
    LatestBefore (imuPose ++ [tail]) t iv := by
  have hhead := (List.getElem?_eq_some_iff.mp hlatest.head).1
  have htail := (List.getElem?_eq_some_iff.mp hlatest.tail).1
  constructor
  · rw [List.getElem?_append_left hhead]
    exact hlatest.head
  · rw [List.getElem?_append_left htail]
    exact hlatest.tail
  · exact hlatest.before
  · intro k later hk hlen hlater
    rw [List.length_append, List.length_singleton] at hlen
    have hin : k < imuPose.length := by omega
    rw [List.getElem?_append_left hin] at hlater
    by_cases hend : k + 1 < imuPose.length
    · exact hlatest.latest k later hk hend hlater
    · have hk' : k = imuPose.length - 1 := by omega
      rw [hk', ← List.getLast?_eq_getElem?, hlast] at hlater
      cases hlater
      exact hafter

theorem latestBefore_of_find {t : K} {iv : Interval K S} :
    ∀ {rev : List (Pose6D K S)}, (intervals rev).find? (fun iv => iv.before t) = some iv →
      LatestBefore rev.reverse t iv
  | [], hfind => by cases hfind
  | [_], hfind => by cases hfind
  | tail :: head :: rest, hfind => by
    rw [intervals] at hfind
    by_cases hbefore : (Interval.mk rest.length head tail).before t
    · rw [List.find?_cons_of_pos (by simpa using hbefore)] at hfind
      cases hfind
      constructor
      · simp
      · simp
      · exact hbefore
      · intro k later hk hlen _
        have htwo : (tail :: head :: rest).reverse.length = rest.length + 2 := by simp
        rw [htwo] at hlen
        have hlt : rest.length < k := hk
        omega
    · rw [List.find?_cons_of_neg (by simpa using hbefore)] at hfind
      rw [List.reverse_cons]
      exact (latestBefore_of_find hfind).snoc (by simp) hbefore

/-! ## The poses of a package -/

theorem forward_offsets (f : Filter K S) (p : ImuProcess K) (begTime : K) (last : ImuMsg K)
    (imu : List (ImuMsg K)) (g : Propagation K S) :
    (Propagation.forward f p begTime g (last :: imu)).imuPose.map Pose6D.offsetTime =
      g.imuPose.map Pose6D.offsetTime ++
        (imu.filter fun m => ¬ m.sec < p.lastLidarEndTime).map fun m => m.sec - begTime := by
  induction imu generalizing last g with
  | nil => simp [Propagation.forward]
  | cons tail rest ih =>
    rw [Propagation.forward, ih]
    by_cases hskip : tail.sec < p.lastLidarEndTime
    · rw [if_pos hskip, List.filter_cons_of_neg (by simpa using hskip)]
    · rw [if_neg hskip, List.filter_cons_of_pos (by simpa using hskip), List.map_cons]
      simp [Propagation.advance]

theorem imuPose_offsets (p : ImuProcess K) (f : Filter K S) (meas : MeasureGroup K) (kf : S) :
    (p.imuPose f meas kf).map Pose6D.offsetTime =
      lit 0 :: (meas.imu.filter fun m => ¬ m.sec < p.lastLidarEndTime).map fun m =>
        m.sec - meas.lidarBegTime := by
  rw [ImuProcess.imuPose, forward_offsets]
  rfl

theorem imuPose_heads (p : ImuProcess K) (f : Filter K S) (meas : MeasureGroup K) (kf : S) :
    (p.imuPose f meas kf).dropLast.map Pose6D.offsetTime = p.headOffsets meas := by
  rw [List.map_dropLast, imuPose_offsets]
  rfl

/-- `IMUpose` starts with offset 0. -/
theorem imuPose_first (p : ImuProcess K) (f : Filter K S) (meas : MeasureGroup K) (kf : S) :
    ∃ first, (p.imuPose f meas kf).head? = some first ∧ first.offsetTime = lit 0 := by
  have hhead := congrArg List.head? (imuPose_offsets p f meas kf)
  rw [List.head?_map] at hhead
  exact Option.map_eq_some_iff.mp hhead

/-! ## Which points are compensated once -/

/-- The passes of the first point, counted over the heads. -/
theorem length_filter_intervals (imuPose : List (Pose6D K S)) (t : K) :
    ((intervals imuPose.reverse).filter fun iv => iv.before t).length =
      ((imuPose.dropLast.map Pose6D.offsetTime).filter (· < t)).length := by
  have hheads := intervals_heads imuPose.reverse
  rw [List.tail_reverse] at hheads
  have hreverse : ((imuPose.dropLast.map Pose6D.offsetTime).filter (· < t)).reverse =
      ((intervals imuPose.reverse).map fun iv => iv.head.offsetTime).filter (· < t) := by
    rw [← List.filter_reverse, ← List.map_reverse, ← hheads, List.map_map]
    rfl
  calc ((intervals imuPose.reverse).filter fun iv => iv.before t).length
      = (((intervals imuPose.reverse).map fun iv => iv.head.offsetTime).filter (· < t)).length := by
        rw [List.filter_map, List.length_map]
        rfl
    _ = ((imuPose.dropLast.map Pose6D.offsetTime).filter (· < t)).reverse.length := by
        rw [hreverse]
    _ = ((imuPose.dropLast.map Pose6D.offsetTime).filter (· < t)).length := List.length_reverse

theorem everyPass_of_none {ivs : List (Interval K S)} {c : Tracked K S}
    (hnone : ivs.filter (fun iv => iv.before c.point.offset) = []) :
    everyPass v imuState ivs c = c := by
  induction ivs with
  | nil => rfl
  | cons iv ivs ih =>
    have hiv : ¬ iv.before c.point.offset := by
      simpa using List.filter_eq_nil_iff.mp hnone iv List.mem_cons_self
    rw [List.filter_cons_of_neg (by simpa using hiv)] at hnone
    rw [everyPass_cons, if_neg hiv, ih hnone]

/-- With one interval before it at most, the first point fares as any other. -/
theorem everyPass_eq_latestPass {ivs : List (Interval K S)} {c : Tracked K S}
    (hone : (ivs.filter fun iv => iv.before c.point.offset).length ≤ 1) :
    everyPass v imuState ivs c = latestPass v imuState ivs c := by
  induction ivs with
  | nil => rfl
  | cons iv ivs ih =>
    by_cases hbefore : iv.before c.point.offset
    · rw [List.filter_cons_of_pos (by simpa using hbefore), List.length_cons] at hone
      have hnone : ivs.filter (fun iv => iv.before c.point.offset) = [] :=
        List.length_eq_zero_iff.mp (by omega)
      have hrest : everyPass v imuState ivs (c.pass v imuState iv) = c.pass v imuState iv :=
        everyPass_of_none hnone
      rw [everyPass_cons, if_pos hbefore, hrest, latestPass_cons_of_before hbefore]
    · rw [List.filter_cons_of_neg (by simpa using hbefore)] at hone
      rw [everyPass_cons, if_neg hbefore, ih hone, latestPass_cons_of_not hbefore]

omit [Arith K] in
theorem head_mem_dropLast {imuPose : List (Pose6D K S)} {first : Pose6D K S}
    (hfirst : imuPose.head? = some first) (hheads : imuPose.dropLast ≠ []) :
    first ∈ imuPose.dropLast := by
  cases imuPose with
  | nil => cases hfirst
  | cons pose rest =>
    cases hfirst
    cases rest with
    | nil => exact absurd rfl hheads
    | cons next rest => exact List.mem_cons_self

/-- One pass through the latest interval is what is asked, where there is an
interval or nothing to compensate. -/
theorem latestPass_once_iff {imuPose : List (Pose6D K S)} {first : Pose6D K S}
    (hfirst : imuPose.head? = some first) (q : Point K) :
    CompensatedOnce v imuState imuPose q
        (latestPass v imuState (intervals imuPose.reverse) (.start q)) ↔
      (imuPose.dropLast = [] → ¬ first.offsetTime < q.offset) := by
  cases hfind : (intervals imuPose.reverse).find? fun iv => iv.before q.offset with
  | some iv =>
    have hlatest := latestBefore_of_find hfind
    rw [List.reverse_reverse] at hlatest
    have hpass : latestPass v imuState (intervals imuPose.reverse) (.start q) =
        (Tracked.start q).pass v imuState iv := by
      rw [latestPass, Tracked.start, hfind]
      rfl
    rw [hpass]
    constructor
    · intro _ hnone
      have hmem := List.mem_map_of_mem (f := Interval.head) (List.mem_of_find?_eq_some hfind)
      rw [intervals_heads, List.tail_reverse, hnone] at hmem
      cases hmem
    · intro _
      exact ⟨le_refl 1, fun _ _ _ => ⟨iv, hlatest, rfl, rfl⟩⟩
  | none =>
    have hpass : latestPass v imuState (intervals imuPose.reverse) (.start q) = .start q := by
      rw [latestPass, Tracked.start, hfind]
      rfl
    rw [hpass]
    constructor
    · intro honce _ hafter
      obtain ⟨iv, -, hpasses, -⟩ := honce.2 first hfirst hafter
      cases hpasses
    · intro hnone
      refine ⟨Nat.zero_le 1, fun first' hfirst' hafter => ?_⟩
      rw [hfirst] at hfirst'
      cases hfirst'
      exfalso
      by_cases hheads : imuPose.dropLast = []
      · exact hnone hheads hafter
      · -- the first pose is a head
        have hmem : first ∈ (intervals imuPose.reverse).map Interval.head := by
          rw [intervals_heads, List.tail_reverse, List.mem_reverse]
          exact head_mem_dropLast hfirst hheads
        obtain ⟨iv, hiv, rfl⟩ := List.mem_map.mp hmem
        have hno := List.find?_eq_none.mp hfind iv hiv
        exact hno (decide_eq_true hafter)

theorem everyPass_once_iff {imuPose : List (Pose6D K S)} {first : Pose6D K S}
    (hfirst : imuPose.head? = some first) (q : Point K) :
    CompensatedOnce v imuState imuPose q
        (everyPass v imuState (intervals imuPose.reverse) (.start q)) ↔
      ((imuPose.dropLast.map Pose6D.offsetTime).filter (· < q.offset)).length ≤ 1 ∧
        (imuPose.dropLast = [] → ¬ first.offsetTime < q.offset) := by
  rw [← length_filter_intervals]
  constructor
  · intro honce
    have hlen := honce.1
    rw [everyPass_passes] at hlen
    have hcount : ((intervals imuPose.reverse).filter fun iv => iv.before q.offset).length ≤ 1 :=
      hlen
    rw [everyPass_eq_latestPass hcount, latestPass_once_iff hfirst] at honce
    exact ⟨hcount, honce⟩
  · intro ⟨hcount, hnone⟩
    rw [everyPass_eq_latestPass hcount, latestPass_once_iff hfirst]
    exact hnone

/-- Whatever the arithmetic: the points in order of time. -/
theorem compensatesOnce_iff_of_offsets (p : ImuProcess K) (f : Filter K S) (meas : MeasureGroup K)
    (kf : S) {points : List (Point K)}
    (hsorted : points.Pairwise fun a b => a.offset ≤ b.offset) :
    p.CompensatesOnce v f meas kf points ↔
      (∀ earliest, points.head? = some earliest →
        ((p.headOffsets meas).filter (· < earliest.offset)).length ≤ 1) ∧
      (p.headOffsets meas = [] → ∀ q ∈ points, ¬ lit 0 < q.offset) := by
  obtain ⟨first, hfirst, hzero⟩ := imuPose_first p f meas kf
  have hnil : (p.imuPose f meas kf).dropLast = [] ↔ p.headOffsets meas = [] := by
    rw [← imuPose_heads p f meas kf, List.map_eq_nil_iff]
  unfold ImuProcess.CompensatesOnce ImuProcess.backward
  cases points with
  | nil =>
    rw [undistorted_nil]
    exact ⟨fun _ => ⟨nofun, nofun⟩, fun _ => .nil⟩
  | cons earliest rest =>
    rw [undistorted_cons _ hsorted, List.forall₂_cons, everyPass_once_iff hfirst,
      List.forall₂_map_right_iff, List.forall₂_same, imuPose_heads, hnil, hzero]
    constructor
    · intro ⟨⟨hcount, hnone⟩, hrest⟩
      refine ⟨fun q hq => ?_, fun hheads q hq => ?_⟩
      · cases hq
        exact hcount
      · rcases List.mem_cons.mp hq with rfl | hq
        · exact hnone hheads
        · have honce := (latestPass_once_iff hfirst q).mp (hrest q hq)
          rw [hnil, hzero] at honce
          exact honce hheads
    · intro ⟨hcount, hnone⟩
      refine ⟨⟨hcount earliest rfl, fun hheads => hnone hheads earliest List.mem_cons_self⟩,
        fun q hq => (latestPass_once_iff hfirst q).mpr ?_⟩
      rw [hnil, hzero]
      exact fun hheads => hnone hheads q (List.mem_cons_of_mem earliest hq)

section

variable {F : Type} [Field F] [LinearOrder F] [IsStrictOrderedRing F] [FloorRing F]
  {v : StateView F S}

theorem Point.offset_le {a b : Point F} (hle : a.curvature ≤ b.curvature) :
    a.offset ≤ b.offset := by
  rw [Point.offset, Point.offset, lit_eq]
  exact div_le_div_of_nonneg_right hle (by norm_num)

/-- In a package the backward loop compensates every point as it should exactly
when at most one head lies before the earliest point, and no point lies after the
first pose if there is no head at all. -/
theorem compensatesOnce_iff (p : ImuProcess F) (f : Filter F S) (meas : MeasureGroup F) (kf : S)
    {points : List (Point F)} (hsorted : points.Pairwise fun a b => a.curvature ≤ b.curvature) :
    p.CompensatesOnce v f meas kf points ↔
      (∀ earliest, points.head? = some earliest →
        ((p.headOffsets meas).filter (· < earliest.offset)).length ≤ 1) ∧
      (p.headOffsets meas = [] → ∀ q ∈ points, q.offset ≤ 0) := by
  have hzero : (lit 0 : F) = 0 := by rw [lit_eq, Int.cast_zero]
  rw [compensatesOnce_iff_of_offsets p f meas kf (hsorted.imp Point.offset_le), hzero]
  simp only [not_lt]

end

/-! ### A robot driving straight on -/

/-- A state of velocity and position, moved at constant velocity. -/
def driveFilter : Filter ℚ (V3 ℚ × V3 ℚ) where
  norm := V3.z
  initialise := fun kf _ _ => kf
  predict := fun kf dt _ _ => (kf.1, kf.2.add (kf.1.scale dt))
  angvel := fun _ w => w
  accWorld := fun _ _ => ⟨0, 0, 0⟩
  compensate := fun _ _ points => points

/-- No rotation and no lever arm. -/
def driveView : StateView ℚ (V3 ℚ × V3 ℚ) where
  vel := Prod.fst
  pos := Prod.snd
  rot := fun _ x => x
  rotConjugate := fun _ x => x
  offsetRLI := fun _ x => x
  offsetRLIConjugate := fun _ x => x
  offsetTLI := fun _ => ⟨0, 0, 0⟩
  exp := fun _ _ x => x

def driveImu (ms : ℕ) : ImuMsg ℚ :=
  { stamp := ⟨100, ms * 1000000⟩, angularVelocity := ⟨0, 0, 0⟩, linearAcceleration := ⟨0, 0, 1⟩ }

/-- The class after a scan that ended with the message at 100 s. -/
def driveProcess : ImuProcess ℚ :=
  { ImuProcess.create ⟨1, 1, 1⟩ ⟨1, 1, 1⟩ ⟨0, 0, 0⟩ 100 with
    lastImu := driveImu 0, meanAcc := ⟨0, 0, 1⟩, imuNeedInit := false }

/-- A scan of 40 ms with messages every 10 ms. -/
def drivePackage (points : List (Point ℚ)) : MeasureGroup ℚ where
  lidarBegTime := 100
  lidarEndTime := 100 + 4 / 100
  lidar := { seq := 0, stamp := 100, points := points }
  imu := [driveImu 10, driveImu 20, driveImu 30, driveImu 40]

/-- At 10 m/s from the origin. -/
def driveStart : V3 ℚ × V3 ℚ := (⟨10, 0, 0⟩, ⟨0, 0, 0⟩)

/-- A scan with a point near its start and one near its end. -/
def earlyScan : List (Point ℚ) := [⟨1, 0, 0, 5⟩, ⟨2, 0, 0, 38⟩]

/-- A scan whose first point comes after three of the poses. -/
def lateScan : List (Point ℚ) := [⟨1, 0, 0, 25⟩, ⟨2, 0, 0, 38⟩]

theorem compensatesOnce_iff_early :
    driveProcess.CompensatesOnce driveView driveFilter (drivePackage earlyScan) driveStart
        earlyScan ↔
      (∀ earliest, earlyScan.head? = some earliest →
        ((driveProcess.headOffsets (drivePackage earlyScan)).filter
          (· < earliest.offset)).length ≤ 1) ∧
      (driveProcess.headOffsets (drivePackage earlyScan) = [] →
        ∀ q ∈ earlyScan, q.offset ≤ 0) :=
  compensatesOnce_iff driveProcess driveFilter (drivePackage earlyScan) driveStart (by decide)

/-- The first point of the late scan goes through three passes, one for each pose
before it. -/
theorem late_compensated_again :
    lateScan.Pairwise (fun a b => a.curvature ≤ b.curvature) ∧
      ¬ driveProcess.CompensatesOnce driveView driveFilter (drivePackage lateScan) driveStart
        lateScan := by
  constructor
  · decide
  · intro honce
    have hback : (driveProcess.backward driveView driveFilter (drivePackage lateScan) driveStart
        lateScan).map (fun c => c.passes.map Interval.index) = [[2, 1, 0], [3]] := by
      decide +kernel
    obtain ⟨c, rest, hfirst, -, hcons⟩ := List.forall₂_cons_left_iff.mp honce
    rw [hcons, List.map_cons] at hback
    have hthree := congrArg List.length (List.cons.inj hback).1
    rw [List.length_map] at hthree
    have hone := hfirst.1
    rw [hthree] at hone
    exact absurd hone (by decide)

-- 15 ms before the end of the scan the robot is 15 cm short of it
example : ((driveProcess.undistortPcl (driveFilter.withLoop driveView) (drivePackage lateScan)
    driveStart).2.2.points.map Point.x) = [11 / 20, 99 / 50] := by
  decide +kernel

end LaserMapping
end RobotNav
