/-
What `IMU_init` makes of the samples it is given, over any number of packages.

`N` is a member of the class that the loop counts on, so that where a package ends makes
no difference.  The means are right.  The variances use the deviation from the mean the
sample is already in, with the factors for the deviation from the mean before it.

Arithmetic is exact; `N * N` is an `int` in the code, which holds it up to `N = 46340`.
-/
import Mathlib.Data.Rat.Floor
import RobotNav.LaserMapping.ImuProcess
import RobotNav.Library.RunningStats

namespace RobotNav
namespace LaserMapping

open RunningStats (mean variance Constant Underestimates)

section

variable {K : Type} [Arith K] {S : Type}

omit [Arith K] in
def V3.axis (v : V3 K) : Fin 3 → K
  | 0 => v.x
  | 1 => v.y
  | 2 => v.z

/-- The calls of `IMU_init` for some packages. -/
def imuInits (f : Filter K S) (p : ImuProcess K) (kf : S) (packages : List (List (ImuMsg K))) :
    ImuProcess K × S :=
  packages.foldl (fun s imu => s.1.imuInit f imu s.2) (p, kf)

/-- The calls of `Process` for some packages. -/
def processes (f : Filter K S) (p : ImuProcess K) (kf : S) (packages : List (MeasureGroup K)) :
    ImuProcess K × S :=
  packages.foldl (fun s meas => ((s.1.process f meas s.2).1, (s.1.process f meas s.2).2.1)) (p, kf)

/-! ## Which samples `IMU_init` is given -/

/-- The samples of the packages that have some. -/
def initPackages (packages : List (MeasureGroup K)) : List (List (ImuMsg K)) :=
  (packages.map MeasureGroup.imu).filter fun imu => !imu.isEmpty

theorem firstFrame_imuNeedInit {p : ImuProcess K} (h : p.imuNeedInit = true)
    (imu : List (ImuMsg K)) : (p.firstFrame imu).imuNeedInit = true := by
  unfold ImuProcess.firstFrame
  split_ifs
  · cases imu with
    | nil => exact h
    | cons front rest => rfl
  · exact h

theorem initSamples_imuNeedInit (imu : List (ImuMsg K)) (p : ImuProcess K) :
    (imu.foldl ImuProcess.initSample p).imuNeedInit = p.imuNeedInit := by
  induction imu generalizing p with
  | nil => rfl
  | cons m rest ih => exact ih (p.initSample m)

variable (f : Filter K S)

theorem imuInit_imuNeedInit {p : ImuProcess K} (h : p.imuNeedInit = true)
    (imu : List (ImuMsg K)) (kf : S) : (p.imuInit f imu kf).1.imuNeedInit = true := by
  show (imu.foldl ImuProcess.initSample (p.firstFrame imu)).imuNeedInit = true
  rw [initSamples_imuNeedInit, firstFrame_imuNeedInit h]

/-- The initialisation is not begun again. -/
theorem process_done {p : ImuProcess K} (h : p.imuNeedInit = false) (meas : MeasureGroup K)
    (kf : S) : (p.process f meas kf).1.imuNeedInit = false := by
  have hnot : ¬ p.imuNeedInit = true := by simp [h]
  rw [ImuProcess.process, if_neg hnot]
  split_ifs
  · exact h
  · exact h

theorem processes_done {p : ImuProcess K} (h : p.imuNeedInit = false) (kf : S)
    (packages : List (MeasureGroup K)) :
    (processes f p kf packages).1.imuNeedInit = false := by
  induction packages generalizing p kf with
  | nil => exact h
  | cons meas rest ih => exact ih (process_done f h meas kf) _

omit [Arith K] in
theorem withInit_eq {p : ImuProcess K} (h : p.imuNeedInit = true) :
    { p with imuNeedInit := true } = p := by
  rw [← h]

omit [Arith K] in
theorem finishInit_eq {p : ImuProcess K} (h : p.finishInit.imuNeedInit = true) :
    p.finishInit = p := by
  unfold ImuProcess.finishInit at h ⊢
  -- the other branch clears the flag
  split_ifs at h ⊢
  rfl

omit [Arith K] in
theorem finishInit_means (p : ImuProcess K) :
    p.finishInit.meanAcc = p.meanAcc ∧ p.finishInit.meanGyr = p.meanGyr := by
  unfold ImuProcess.finishInit
  split_ifs
  · exact ⟨rfl, rfl⟩
  · exact ⟨rfl, rfl⟩

theorem process_eq_imuInit {p : ImuProcess K} (hneed : p.imuNeedInit = true)
    {meas : MeasureGroup K} (hsome : ¬ meas.imu.isEmpty = true) {kf : S}
    (hstill : (p.process f meas kf).1.imuNeedInit = true) :
    ((p.process f meas kf).1, (p.process f meas kf).2.1) = p.imuInit f meas.imu kf := by
  have hinit := withInit_eq (imuInit_imuNeedInit f hneed meas.imu kf)
  rw [ImuProcess.process, if_neg hsome, if_pos hneed] at hstill ⊢
  dsimp only at hstill ⊢
  rw [finishInit_eq hstill, hinit]

/-- While it goes on, `Process` hands each package with samples to `IMU_init`. -/
theorem processes_eq_imuInits {p : ImuProcess K} (hneed : p.imuNeedInit = true) (kf : S)
    (packages : List (MeasureGroup K))
    (hstill : (processes f p kf packages).1.imuNeedInit = true) :
    processes f p kf packages = imuInits f p kf (initPackages packages) := by
  induction packages generalizing p kf with
  | nil => rfl
  | cons meas rest ih =>
    have hgoesOn : (p.process f meas kf).1.imuNeedInit = true := by
      by_contra hdone
      have hlater := processes_done f (Bool.eq_false_of_not_eq_true hdone)
        (p.process f meas kf).2.1 rest
      rw [processes, List.foldl_cons] at hstill
      rw [processes, hstill] at hlater
      cases hlater
    have hrest := ih hgoesOn (p.process f meas kf).2.1 hstill
    rw [processes, List.foldl_cons]
    refine hrest.trans ?_
    by_cases hempty : meas.imu.isEmpty = true
    · rw [ImuProcess.process, if_pos hempty, initPackages, initPackages, List.map_cons,
        List.filter_cons_of_neg (by simp [hempty])]
    · rw [initPackages, initPackages, List.map_cons, List.filter_cons_of_pos (by simp [hempty]),
        imuInits, imuInits, List.foldl_cons, process_eq_imuInit f hneed hempty hgoesOn]

end

/-! ## One sample -/

section

variable {F : Type} [Field F] [LinearOrder F] [IsStrictOrderedRing F] [FloorRing F]

/-- A running mean and variance of the vectors so far, axis by axis. -/
structure Tracks (vs : List (V3 F)) (runningMean runningCov : V3 F) : Prop where
  mean_eq : ∀ i, runningMean.axis i = mean (vs.map fun v => v.axis i)
  cov : ∀ i, Underestimates (runningCov.axis i) (vs.map fun v => v.axis i)

omit [IsStrictOrderedRing F] in
theorem axis_runningMean (n : ℤ) (m cur : V3 F) (i : Fin 3) :
    (m.add ((cur.sub m).div (lit n))).axis i = m.axis i + (cur.axis i - m.axis i) / n := by
  match i with
  | 0 => rfl
  | 1 => rfl
  | 2 => rfl

omit [IsStrictOrderedRing F] in
theorem axis_runningCov (n : ℤ) (cov m cur : V3 F) (i : Fin 3) :
    (runningCov n cov m cur).axis i = cov.axis i * (n - (1 : ℤ)) / n +
      (cur.axis i - m.axis i) * (cur.axis i - m.axis i) * (n - (1 : ℤ)) / (n * n : ℤ) := by
  match i with
  | 0 => rfl
  | 1 => rfl
  | 2 => rfl

theorem Tracks.concat {vs : List (V3 F)} {m cov : V3 F} (h : vs ≠ [] → Tracks vs m cov)
    (cur : V3 F) :
    Tracks (vs ++ [cur]) (m.add ((cur.sub m).div (lit (vs.length + 1))))
      (runningCov (vs.length + 1) cov (m.add ((cur.sub m).div (lit (vs.length + 1)))) cur) := by
  have hmean (i : Fin 3) : (m.add ((cur.sub m).div (lit (vs.length + 1)))).axis i =
      mean ((vs ++ [cur]).map fun v => v.axis i) := by
    rw [axis_runningMean, List.map_append, List.map_singleton, RunningStats.mean_concat,
      List.length_map]
    rcases eq_or_ne vs [] with rfl | hne
    · simp [mean]
    · rw [(h hne).mean_eq i]
      push_cast
      rfl
  refine ⟨hmean, fun i => ?_⟩
  have hunder : Underestimates _ ((vs.map fun v => v.axis i) ++ [cur.axis i]) :=
    .concat (fun hne => (h (by simpa using hne)).cov i) (cur.axis i)
  rw [axis_runningCov, hmean, List.map_append, List.map_singleton]
  rw [List.length_map] at hunder
  convert hunder using 2
  · push_cast
    ring
  · push_cast
    ring

/-- The class after it has been given the samples. -/
structure Initialises (samples : List (ImuMsg F)) (p : ImuProcess F) : Prop where
  started : p.bFirstFrame = false
  count : p.initIterNum = samples.length + 1
  acc : samples ≠ [] → Tracks (samples.map ImuMsg.linearAcceleration) p.meanAcc p.covAcc
  gyr : samples ≠ [] → Tracks (samples.map ImuMsg.angularVelocity) p.meanGyr p.covGyr

theorem Initialises.sample {samples : List (ImuMsg F)} {p : ImuProcess F}
    (h : Initialises samples p) (imu : ImuMsg F) :
    Initialises (samples ++ [imu]) (p.initSample imu) := by
  have hacc : Tracks (samples.map ImuMsg.linearAcceleration ++ [imu.linearAcceleration]) _ _ :=
    .concat (fun hne => h.acc (by simpa using hne)) imu.linearAcceleration
  have hgyr : Tracks (samples.map ImuMsg.angularVelocity ++ [imu.angularVelocity]) _ _ :=
    .concat (fun hne => h.gyr (by simpa using hne)) imu.angularVelocity
  rw [List.length_map, ← h.count] at hacc hgyr
  refine ⟨h.started, ?_, fun _ => ?_, fun _ => ?_⟩
  · show p.initIterNum + 1 = _
    rw [h.count, List.length_append, List.length_singleton]
    push_cast
    rfl
  · rw [List.map_append, List.map_singleton]
    exact hacc
  · rw [List.map_append, List.map_singleton]
    exact hgyr

/-! ## Packages -/

theorem Initialises.samples {samples : List (ImuMsg F)} {p : ImuProcess F}
    (h : Initialises samples p) (imu : List (ImuMsg F)) :
    Initialises (samples ++ imu) (imu.foldl ImuProcess.initSample p) := by
  induction imu generalizing samples p with
  | nil => rwa [List.append_nil]
  | cons m rest ih =>
    have hrest := ih (h.sample m)
    rwa [List.append_assoc, List.singleton_append] at hrest

variable {S : Type} (f : Filter F S)

theorem Initialises.imuInit {samples : List (ImuMsg F)} {p : ImuProcess F}
    (h : Initialises samples p) (imu : List (ImuMsg F)) (kf : S) :
    Initialises (samples ++ imu) (p.imuInit f imu kf).1 := by
  have hfirst : p.firstFrame imu = p := by
    unfold ImuProcess.firstFrame
    rw [if_neg (by simp [h.started])]
  have hloop := h.samples imu
  rw [← hfirst] at hloop
  exact ⟨hloop.started, hloop.count, hloop.acc, hloop.gyr⟩

/-- The first package; the seed of the means is overwritten. -/
theorem imuInit_first {p : ImuProcess F} (hp : p.bFirstFrame = true) {imu : List (ImuMsg F)}
    (hne : imu ≠ []) (kf : S) : Initialises imu (p.imuInit f imu kf).1 := by
  have hstart : Initialises [] (p.firstFrame imu) := by
    obtain ⟨front, rest, rfl⟩ := List.exists_cons_of_ne_nil hne
    unfold ImuProcess.firstFrame
    rw [if_pos hp]
    exact ⟨rfl, rfl, fun h => absurd rfl h, fun h => absurd rfl h⟩
  have hloop := hstart.samples imu
  exact ⟨hloop.started, hloop.count, hloop.acc, hloop.gyr⟩

theorem Initialises.imuInits {samples : List (ImuMsg F)} {p : ImuProcess F}
    (h : Initialises samples p) (kf : S) (packages : List (List (ImuMsg F))) :
    Initialises (samples ++ packages.flatten) (imuInits f p kf packages).1 := by
  induction packages generalizing samples p kf with
  | nil => rwa [List.flatten_nil, List.append_nil]
  | cons imu rest ih =>
    have hrest := ih (h.imuInit f imu kf) (p.imuInit f imu kf).2
    rwa [List.append_assoc, ← List.flatten_cons] at hrest

theorem imuInits_initialises {p : ImuProcess F} (hp : p.bFirstFrame = true) (kf : S)
    {packages : List (List (ImuMsg F))} (hsome : packages ≠ [])
    (hne : ∀ imu ∈ packages, imu ≠ []) :
    packages.flatten ≠ [] ∧ Initialises packages.flatten (imuInits f p kf packages).1 := by
  obtain ⟨imu, rest, rfl⟩ := List.exists_cons_of_ne_nil hsome
  have himu := hne imu List.mem_cons_self
  constructor
  · rw [List.flatten_cons]
    exact fun h => himu (List.append_eq_nil_iff.mp h).1
  · exact (imuInit_first f hp himu kf).imuInits f (p.imuInit f imu kf).2 rest

/-- The package that ends the initialisation in `Process` gives the means of all samples;
the scales take the place of the variances. -/
theorem processes_means {p : ImuProcess F} (hp : p.bFirstFrame = true)
    (hneed : p.imuNeedInit = true) (kf : S) (packages : List (MeasureGroup F))
    (hstill : (processes f p kf packages).1.imuNeedInit = true) {meas : MeasureGroup F}
    (hlast : ¬ meas.imu.isEmpty = true) (i : Fin 3) :
    (processes f p kf (packages ++ [meas])).1.meanAcc.axis i =
        mean (((packages ++ [meas]).flatMap MeasureGroup.imu).map fun s =>
          s.linearAcceleration.axis i) ∧
      (processes f p kf (packages ++ [meas])).1.meanGyr.axis i =
        mean (((packages ++ [meas]).flatMap MeasureGroup.imu).map fun s =>
          s.angularVelocity.axis i) := by
  have hpackages : initPackages (packages ++ [meas]) = initPackages packages ++ [meas.imu] := by
    simp [initPackages, hlast]
  have hsamples : (initPackages (packages ++ [meas])).flatten =
      (packages ++ [meas]).flatMap MeasureGroup.imu := by
    rw [initPackages, List.flatten_filter_not_isEmpty, ← List.flatMap_def]
  obtain ⟨hne, hinits⟩ := imuInits_initialises f hp kf
    (show initPackages (packages ++ [meas]) ≠ [] by simp [hpackages]) (by
      intro imu himu
      have hnot := (List.mem_filter.mp himu).2
      rintro rfl
      cases hnot)
  have hlastInit : (imuInits f p kf (initPackages (packages ++ [meas]))).1 =
      ((processes f p kf packages).1.imuInit f meas.imu (processes f p kf packages).2).1 := by
    rw [hpackages, imuInits, List.foldl_append, processes_eq_imuInits f hneed kf packages hstill]
    rfl
  have hmeans : (processes f p kf (packages ++ [meas])).1.meanAcc =
        (imuInits f p kf (initPackages (packages ++ [meas]))).1.meanAcc ∧
      (processes f p kf (packages ++ [meas])).1.meanGyr =
        (imuInits f p kf (initPackages (packages ++ [meas]))).1.meanGyr := by
    rw [hlastInit, processes, List.foldl_append]
    show ((processes f p kf packages).1.process f meas
        (processes f p kf packages).2).1.meanAcc = _ ∧
      ((processes f p kf packages).1.process f meas (processes f p kf packages).2).1.meanGyr = _
    rw [ImuProcess.process, if_neg hlast, if_pos hstill]
    exact finishInit_means _
  rw [hmeans.1, hmeans.2, ← hsamples, (hinits.acc hne).mean_eq, (hinits.gyr hne).mean_eq]
  simp only [List.map_map, Function.comp_def, and_self]

/-! ## The statistics -/

/-- `mean_acc` and `mean_gyr` are the means of the samples, `cov_acc` and `cov_gyr` their
variances. -/
structure Statistics (samples : List (ImuMsg F)) (p : ImuProcess F) : Prop where
  meanAcc : ∀ i, p.meanAcc.axis i = mean (samples.map fun s => s.linearAcceleration.axis i)
  meanGyr : ∀ i, p.meanGyr.axis i = mean (samples.map fun s => s.angularVelocity.axis i)
  covAcc : ∀ i, p.covAcc.axis i = variance (samples.map fun s => s.linearAcceleration.axis i)
  covGyr : ∀ i, p.covGyr.axis i = variance (samples.map fun s => s.angularVelocity.axis i)

omit [Field F] [LinearOrder F] [IsStrictOrderedRing F] [FloorRing F] in
theorem V3.ext_axis {a b : V3 F} (h : ∀ i, a.axis i = b.axis i) : a = b := by
  cases a
  cases b
  congr 1
  · exact h 0
  · exact h 1
  · exact h 2

omit [Field F] [LinearOrder F] [IsStrictOrderedRing F] [FloorRing F] in
theorem constant_axes_iff {vs : List (V3 F)} :
    (∀ i, Constant (vs.map fun v => v.axis i)) ↔ ∀ a ∈ vs, ∀ b ∈ vs, a = b := by
  constructor
  · intro h a ha b hb
    exact V3.ext_axis fun i => h i _ (List.mem_map_of_mem ha) _ (List.mem_map_of_mem hb)
  · intro h i x hx y hy
    obtain ⟨a, ha, rfl⟩ := List.mem_map.mp hx
    obtain ⟨b, hb, rfl⟩ := List.mem_map.mp hy
    rw [h a ha b hb]

omit [IsStrictOrderedRing F] [FloorRing F] in
theorem Tracks.cov_eq_iff {vs : List (V3 F)} {m cov : V3 F} (h : Tracks vs m cov) :
    (∀ i, cov.axis i = variance (vs.map fun v => v.axis i)) ↔ ∀ a ∈ vs, ∀ b ∈ vs, a = b := by
  rw [← constant_axes_iff]
  exact forall_congr' fun i => (h.cov i).eq_iff

omit [IsStrictOrderedRing F] [FloorRing F] in
theorem Initialises.statistics_iff {samples : List (ImuMsg F)} {p : ImuProcess F}
    (h : Initialises samples p) (hne : samples ≠ []) :
    Statistics samples p ↔ ∀ a ∈ samples, ∀ b ∈ samples,
      a.linearAcceleration = b.linearAcceleration ∧ a.angularVelocity = b.angularVelocity := by
  have hacc := (h.acc hne).cov_eq_iff
  have hgyr := (h.gyr hne).cov_eq_iff
  simp only [List.map_map, Function.comp_def, List.forall_mem_map] at hacc hgyr
  constructor
  · intro hstats a ha b hb
    exact ⟨hacc.mp hstats.covAcc a ha b hb, hgyr.mp hstats.covGyr a ha b hb⟩
  · intro hall
    have hmeanAcc := (h.acc hne).mean_eq
    have hmeanGyr := (h.gyr hne).mean_eq
    simp only [List.map_map, Function.comp_def] at hmeanAcc hmeanGyr
    exact ⟨hmeanAcc, hmeanGyr, hacc.mpr fun a ha b hb => (hall a ha b hb).1,
      hgyr.mpr fun a ha b hb => (hall a ha b hb).2⟩

/-- However the samples come in packages, `IMU_init` leaves their means and variances
exactly when they are all the same. -/
theorem imuInits_statistics_iff {p : ImuProcess F} (hp : p.bFirstFrame = true) (kf : S)
    {packages : List (List (ImuMsg F))} (hsome : packages ≠ [])
    (hne : ∀ imu ∈ packages, imu ≠ []) :
    Statistics packages.flatten (imuInits f p kf packages).1 ↔
      ∀ a ∈ packages.flatten, ∀ b ∈ packages.flatten,
        a.linearAcceleration = b.linearAcceleration ∧ a.angularVelocity = b.angularVelocity := by
  obtain ⟨hsamples, hinits⟩ := imuInits_initialises f hp kf hsome hne
  exact hinits.statistics_iff hsamples

end

/-- A filter that keeps nothing. -/
def plainFilter : Filter ℚ Unit where
  norm := V3.z
  initialise := fun _ _ _ => ()
  predict := fun _ _ _ _ => ()
  angvel := fun _ w => w
  accWorld := fun _ _ => ⟨0, 0, 0⟩
  compensate := fun _ _ points => points

/-- At rest, with noise on the vertical axis. -/
def noisySample (z : ℚ) : ImuMsg ℚ :=
  { stamp := ⟨0, 0⟩, angularVelocity := ⟨0, 0, 0⟩, linearAcceleration := ⟨0, 0, z⟩ }

/-- The variance is one, and `cov_acc` a quarter of that. -/
theorem noisySamples_underestimated :
    ¬ Statistics [noisySample 9, noisySample 11]
      (imuInits plainFilter (ImuProcess.create ⟨1, 1, 1⟩ ⟨1, 1, 1⟩ ⟨0, 0, 0⟩ 0) ()
        [[noisySample 9, noisySample 11]]).1 := by
  intro h
  have hz := h.covAcc 2
  revert hz
  decide +kernel

theorem imuInits_statistics_iff_noisy :
    Statistics [noisySample 9, noisySample 9, noisySample 9]
        (imuInits plainFilter (ImuProcess.create ⟨1, 1, 1⟩ ⟨1, 1, 1⟩ ⟨0, 0, 0⟩ 0) ()
          [[noisySample 9], [noisySample 9, noisySample 9]]).1 ↔
      ∀ a ∈ [noisySample 9, noisySample 9, noisySample 9],
        ∀ b ∈ [noisySample 9, noisySample 9, noisySample 9],
          a.linearAcceleration = b.linearAcceleration ∧ a.angularVelocity = b.angularVelocity :=
  imuInits_statistics_iff plainFilter (p := ImuProcess.create ⟨1, 1, 1⟩ ⟨1, 1, 1⟩ ⟨0, 0, 0⟩ 0)
    rfl () (show [[noisySample 9], [noisySample 9, noisySample 9]] ≠ [] from
      List.cons_ne_nil _ _) (by decide)

end LaserMapping
end RobotNav
