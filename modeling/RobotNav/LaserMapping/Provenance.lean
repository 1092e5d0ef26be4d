/-
What the calls to the filter are made of.

A condition on the measurements that the means and averages of the node keep, one on the
points that the voxel filter and the backward loop keep, and one on the noise the parameters
set, hold of the arguments of every call of a run.
-/
import RobotNav.LaserMapping.FilterCalls

namespace RobotNav
namespace LaserMapping

variable {K : Type} [Arith K] {S M μ : Type}

/-- A condition on an acceleration and a rate that what the node makes of them keeps. -/
structure KeptByNode (A : V3 K → V3 K → Prop) : Prop where
  none : A ⟨lit 0, lit 0, lit 0⟩ ⟨lit 0, lit 0, lit 0⟩
  mean : ∀ (n : ℤ) (a w a' w' : V3 K), A a w → A a' w' →
    A (a.add ((a'.sub a).div (lit n))) (w.add ((w'.sub w).div (lit n)))
  pair : ∀ (c : K) (a w a' w' : V3 K), A a w → A a' w' →
    A (((average a a').scale gravity).div c) (average w w')

def ImuMsg.Satisfies (A : V3 K → V3 K → Prop) (m : ImuMsg K) : Prop :=
  A m.linearAcceleration m.angularVelocity

/-- The condition on the arguments of a call. -/
def FilterCall.Sourced (A : V3 K → V3 K → Prop) (N : NoiseCov K → Prop) (C : Point K → Prop) :
    FilterCall K M → Prop
  | .initialise meanAcc meanGyr => A meanAcc meanGyr
  | .predict _ Q input => N Q ∧ A input.acc input.gyro
  | .update _ down => ∀ p ∈ down, C p

/-- The condition on what an event brings. -/
def Event.Sourced (cfg : Config K μ) (A : V3 K → V3 K → Prop) (C : Point K → Prop) :
    Event K μ → Prop
  | .standardPcl msg => ∀ p ∈ cfg.process msg.body, C p
  | .livoxPcl msg => ∀ p ∈ cfg.process msg.body, C p
  | .imu msg => msg.Satisfies A
  | .sync => True

/-! ## `ImuProcess` -/

/-- The noise the node sets, which replaces the measured one when the initialisation ends. -/
def ImuProcess.scales (p : ImuProcess K) : NoiseCov K :=
  { gyr := p.covGyrScale, acc := p.covAccScale, biasGyr := p.covBiasGyr, biasAcc := p.covBiasAcc }

/-- What the class keeps between packages. -/
structure ImuProcess.Sourced (A : V3 K → V3 K → Prop) (N : NoiseCov K → Prop) (p : ImuProcess K) :
    Prop where
  last : p.lastImu.Satisfies A
  mean : A p.meanAcc p.meanGyr
  noise : N p.Q
  scales : N p.scales
  done : p.imuNeedInit = false → p.noise = p.scales

variable {A : V3 K → V3 K → Prop} {N : NoiseCov K → Prop} {C : Point K → Prop} {p : ImuProcess K}

theorem initSamples_sourced (hA : KeptByNode A) {imu : List (ImuMsg K)}
    (himu : ∀ m ∈ imu, m.Satisfies A) (hmean : A p.meanAcc p.meanGyr) :
    A (imu.foldl ImuProcess.initSample p).meanAcc (imu.foldl ImuProcess.initSample p).meanGyr ∧
      (imu.foldl ImuProcess.initSample p).lastImu = p.lastImu ∧
      (imu.foldl ImuProcess.initSample p).Q = p.Q ∧
      (imu.foldl ImuProcess.initSample p).scales = p.scales := by
  induction imu generalizing p with
  | nil => exact ⟨hmean, rfl, rfl, rfl⟩
  | cons m rest ih =>
    rw [List.forall_mem_cons] at himu
    exact ih himu.2 (p := p.initSample m) (hA.mean _ _ _ _ _ hmean himu.1)

theorem firstFrame_sourced (hA : KeptByNode A) {imu : List (ImuMsg K)}
    (himu : ∀ m ∈ imu, m.Satisfies A) (hmean : A p.meanAcc p.meanGyr)
    (hlast : p.lastImu.Satisfies A) :
    A (p.firstFrame imu).meanAcc (p.firstFrame imu).meanGyr ∧
      (p.firstFrame imu).lastImu.Satisfies A ∧
      (p.firstFrame imu).Q = p.Q ∧ (p.firstFrame imu).scales = p.scales := by
  unfold ImuProcess.firstFrame
  split_ifs
  · cases imu with
    | nil => exact ⟨hmean, hlast, rfl, rfl⟩
    | cons front rest => exact ⟨himu front List.mem_cons_self, hA.none, rfl, rfl⟩
  · exact ⟨hmean, hlast, rfl, rfl⟩

omit [Arith K] in
theorem getLast_satisfies {imu : List (ImuMsg K)} (himu : ∀ m ∈ imu, m.Satisfies A)
    {before : ImuMsg K} (hbefore : before.Satisfies A) :
    (imu.getLast?.getD before).Satisfies A := by
  cases hlast : imu.getLast? with
  | none => exact hbefore
  | some m => exact himu m (List.mem_of_getLast? hlast)

omit [Arith K] in
/-- The end of an initialisation step, where the scales may come in. -/
theorem finishInit_sourced (hneed : p.imuNeedInit = true) (hlast : p.lastImu.Satisfies A)
    (hmean : A p.meanAcc p.meanGyr) (hnoise : N p.Q) (hscales : N p.scales) :
    p.finishInit.Sourced A N := by
  rw [ImuProcess.finishInit]
  split_ifs
  · exact ⟨hlast, hmean, hnoise, hscales, fun _ => rfl⟩
  · exact ⟨hlast, hmean, hnoise, hscales, fun hdone => absurd hneed (by simp [hdone])⟩

theorem imuInit_sourced (hA : KeptByNode A) (f : Filter K S) (hp : p.Sourced A N)
    {imu : List (ImuMsg K)} (himu : ∀ m ∈ imu, m.Satisfies A) (kf : S) :
    (({ (p.imuInit f imu kf).1 with imuNeedInit := true } : ImuProcess K).finishInit).Sourced A N ∧
      A (imu.foldl ImuProcess.initSample (p.firstFrame imu)).meanAcc
        (imu.foldl ImuProcess.initSample (p.firstFrame imu)).meanGyr := by
  obtain ⟨hfirst, hempty, hQ, hscales⟩ := firstFrame_sourced hA himu hp.mean hp.last
  obtain ⟨hmean, hlast, hQ', hscales'⟩ := initSamples_sourced hA himu hfirst
  refine ⟨finishInit_sourced rfl (getLast_satisfies himu ?_) hmean ?_ ?_, hmean⟩
  · rw [hlast]
    exact hempty
  · show N (imu.foldl ImuProcess.initSample (p.firstFrame imu)).Q
    rw [hQ', hQ]
    exact hp.noise
  · show N (imu.foldl ImuProcess.initSample (p.firstFrame imu)).scales
    rw [hscales', hscales]
    exact hp.scales

/-- The condition on the arguments of a prediction. -/
def PredictArgs.Sourced (A : V3 K → V3 K → Prop) (N : NoiseCov K → Prop) (s : PredictArgs K) :
    Prop :=
  N s.Q ∧ A s.input.acc s.input.gyro

theorem forwardSteps_sourced (hA : KeptByNode A) (f : Filter K S) (hnoise : N p.noise)
    {imu : List (ImuMsg K)} (himu : ∀ m ∈ imu, m.Satisfies A) :
    ∀ s ∈ p.forwardSteps f imu, s.Sourced A N := by
  induction imu with
  | nil => exact fun s hs => absurd hs List.not_mem_nil
  | cons head rest ih =>
    cases rest with
    | nil => exact fun s hs => absurd hs List.not_mem_nil
    | cons tail rest =>
      rw [List.forall_mem_cons] at himu
      have htail := (List.forall_mem_cons.mp himu.2).1
      rw [ImuProcess.forwardSteps]
      refine List.forall_mem_append.mpr ⟨?_, ih himu.2⟩
      split_ifs
      · exact fun s hs => absurd hs List.not_mem_nil
      · exact List.forall_mem_singleton.mpr ⟨hnoise, hA.pair _ _ _ _ _ himu.1 htail⟩

omit [Arith K] in
theorem lastOf_sourced {V : Type} {read : PredictArgs K → V} {before : V} {R : V → Prop}
    (hbefore : R before) {steps : List (PredictArgs K)} (hsteps : ∀ s ∈ steps, R (read s)) :
    R (lastOf read before steps) := by
  rw [lastOf]
  cases hlast : steps.getLast? with
  | none => exact hbefore
  | some s => exact hsteps s (List.mem_of_getLast? hlast)

theorem undistortSteps_sourced (hA : KeptByNode A) (f : Filter K S) (hp : p.Sourced A N)
    (hdone : p.imuNeedInit = false) {meas : MeasureGroup K}
    (himu : ∀ m ∈ meas.imu, m.Satisfies A) : ∀ s ∈ p.undistortSteps f meas, s.Sourced A N := by
  have hnoise : N p.noise := by
    rw [hp.done hdone]
    exact hp.scales
  have hsteps := forwardSteps_sourced hA f hnoise (List.forall_mem_cons.mpr ⟨hp.last, himu⟩)
  rw [ImuProcess.undistortSteps]
  refine List.forall_mem_append.mpr ⟨hsteps, List.forall_mem_singleton.mpr ⟨?_, ?_⟩⟩
  · exact lastOf_sourced hp.noise fun s hs => (hsteps s hs).1
  · exact lastOf_sourced (R := fun input : ImuInput K => A input.acc input.gyro) hA.none
      fun s hs => (hsteps s hs).2

/-- After the loop `Q` is what it was, or what the loop wrote to it. -/
theorem undistortPcl_sourced (hA : KeptByNode A) (f : Filter K S) (hp : p.Sourced A N)
    (hdone : p.imuNeedInit = false) {meas : MeasureGroup K}
    (himu : ∀ m ∈ meas.imu, m.Satisfies A) (kf : S) :
    (p.undistortPcl f meas kf).1.Sourced A N := by
  have hsteps := forwardSteps_sourced hA f (hp.done hdone ▸ hp.scales)
    (List.forall_mem_cons.mpr ⟨hp.last, himu⟩)
  obtain ⟨-, hQ, -⟩ := forward_eq f p meas.lidarBegTime (p.propagation kf)
    (p.lastImu :: meas.imu)
  refine ⟨getLast_satisfies himu hp.last, hp.mean, ?_, hp.scales, hp.done⟩
  show N (Propagation.forward f p meas.lidarBegTime (p.propagation kf)
    (p.lastImu :: meas.imu)).Q
  rw [hQ]
  exact lastOf_sourced hp.noise fun s hs => (hsteps s hs).1

/-- The backward loop keeps the condition on the points. -/
def KeptByFilter (f : Filter K S) (C : Point K → Prop) : Prop :=
  ∀ poses kf points, (∀ p ∈ points, C p) → ∀ p ∈ f.compensate poses kf points, C p

/-- A call of `Process`: the calls it makes, the class after it, and the cloud. -/
theorem process_sourced (hA : KeptByNode A) {f : Filter K S} (hC : KeptByFilter f C)
    (hp : p.Sourced A N) {meas : MeasureGroup K} (himu : ∀ m ∈ meas.imu, m.Satisfies A)
    (hscan : ∀ q ∈ meas.lidar.points, C q) (kf : S) {cloud : Cloud K}
    (hcloud : ∀ q ∈ cloud.points, C q) :
    (∀ c ∈ (p.calls f meas : List (FilterCall K M)), c.Sourced A N C) ∧
      (p.process f meas kf).1.Sourced A N ∧
      ∀ q ∈ (cloud.refill (p.process f meas kf).2.2).points, C q := by
  rw [ImuProcess.calls, ImuProcess.process]
  split_ifs with hempty hneed
  · exact ⟨fun c hc => absurd hc List.not_mem_nil, hp, hcloud⟩
  · obtain ⟨hafter, hmean⟩ := imuInit_sourced hA f hp himu kf
    exact ⟨List.forall_mem_singleton.mpr hmean, hafter, hcloud⟩
  · have hdone : p.imuNeedInit = false := by simpa using hneed
    refine ⟨fun c hc => ?_, undistortPcl_sourced hA f hp hdone himu kf, ?_⟩
    · obtain ⟨s, hs, rfl⟩ := List.mem_map.mp hc
      exact undistortSteps_sourced hA f hp hdone himu s hs
    · refine hC _ _ _ fun q hq => hscan q ?_
      exact (List.mem_insertionSort _).mp hq

/-! ## The buffers -/

/-- The condition on what the callbacks have stored. -/
structure State.Sourced (A : V3 K → V3 K → Prop) (C : Point K → Prop) (s : State K) : Prop where
  imu : ∀ m ∈ s.imuBuffer, m.Satisfies A
  scans : ∀ scan ∈ s.lidarBuffer, ∀ q ∈ scan.points, C q
  latched : ∀ q ∈ s.measures.lidar.points, C q

theorem State.Sourced.latch {s : State K} (h : s.Sourced A C) : s.latched.Sourced A C := by
  refine ⟨?_, ?_, ?_⟩
  · rw [latched_imuBuffer]
    exact h.imu
  · rw [latched_lidarBuffer]
    exact h.scans
  · rw [State.latched]
    split_ifs
    · exact h.latched
    · unfold State.pushScan
      split
      · rename_i scan rest begTime times hlidar htime
        refine h.scans scan ?_
        rw [hlidar]
        exact List.mem_cons_self
      · exact h.latched

/-- The messages of a package come out of the buffer, and its scan is the latched one. -/
theorem syncPackages_sourced {s buf : State K} {done : Bool} (h : s.Sourced A C)
    (hsync : syncPackages s = (buf, done)) :
    buf.Sourced A C ∧ (done = true → ∀ m ∈ buf.measures.imu, m.Satisfies A) := by
  rcases syncPackages_cases s with hs | ⟨hs, -⟩ | ⟨hs, -, hne, -⟩
  · rw [hs, Prod.mk.injEq] at hsync
    obtain ⟨rfl, rfl⟩ := hsync
    exact ⟨h, fun hdone => absurd hdone Bool.false_ne_true⟩
  · rw [hs, Prod.mk.injEq] at hsync
    obtain ⟨rfl, rfl⟩ := hsync
    exact ⟨h.latch, fun hdone => absurd hdone Bool.false_ne_true⟩
  · have hsplit : buf.measures.imu ++ buf.imuBuffer = s.imuBuffer := by
      rw [hs, Prod.mk.injEq] at hsync
      obtain ⟨rfl, rfl⟩ := hsync
      exact syncPackages_imu hs
    have himu := h.imu
    rw [← hsplit, List.forall_mem_append] at himu
    rw [hs, Prod.mk.injEq] at hsync
    obtain ⟨rfl, rfl⟩ := hsync
    obtain ⟨front, rest, hfront⟩ := List.exists_cons_of_ne_nil hne
    refine ⟨⟨himu.2, ?_, ?_⟩, fun _ => himu.1⟩
    · rw [State.popPackage, latched_imuBuffer, hfront]
      intro scan hscan
      have htail : scan ∈ s.latched.lidarBuffer.tail := hscan
      rw [latched_lidarBuffer] at htail
      exact h.scans scan (List.mem_of_mem_tail htail)
    · rw [popPackage_lidar]
      exact h.latch.latched

/-! ## Runs -/

variable {cfg : Config K μ} {env : Env K S M}

/-- What the calls to come are made of. -/
structure NodeState.Sourced (A : V3 K → V3 K → Prop) (N : NoiseCov K → Prop)
    (C : Point K → Prop) (s : NodeState K S M) : Prop where
  buf : s.buf.Sourced A C
  imu : s.imu.Sourced A N
  cloud : ∀ q ∈ s.featsUndistort.points, C q

omit [Arith K] in
theorem mapCalls_sourced (hdown : ∀ points, (∀ q ∈ points, C q) → ∀ q ∈ env.downsample points, C q)
    {s : NodeState K S M} (hcloud : ∀ q ∈ s.featsUndistort.points, C q) :
    ∀ c ∈ s.mapCalls env, c.Sourced A N C := by
  rw [NodeState.mapCalls]
  dsimp only
  split_ifs
  · exact fun c hc => absurd hc List.not_mem_nil
  · exact fun c hc => absurd hc List.not_mem_nil
  · exact fun c hc => absurd hc List.not_mem_nil
  · exact List.forall_mem_singleton.mpr (hdown _ hcloud)

theorem mapScan_featsUndistort (s : NodeState K S M) (begTime : K) :
    (s.mapScan env begTime).1.featsUndistort = s.featsUndistort := by
  simp only [NodeState.mapScan]
  split_ifs <;> rfl

/-- A package that goes through: the calls, and the node after it. -/
theorem usePackage_sourced (hA : KeptByNode A) (hC : KeptByFilter env.filter C)
    (hdown : ∀ points, (∀ q ∈ points, C q) → ∀ q ∈ env.downsample points, C q)
    {s : NodeState K S M} (h : s.Sourced A N C) {meas : MeasureGroup K}
    (himu : ∀ m ∈ meas.imu, m.Satisfies A) (hscan : ∀ q ∈ meas.lidar.points, C q) :
    (∀ c ∈ s.packageCalls env meas, c.Sourced A N C) ∧ (s.usePackage env meas).1.Sourced A N C := by
  obtain ⟨hcalls, hafter, hcloud⟩ := process_sourced (M := M) hA hC h.imu himu hscan s.kf h.cloud
  rw [NodeState.packageCalls]
  cases hfirst : s.flgFirstScan with
  | true =>
    rw [if_pos rfl, NodeState.usePackage, if_pos hfirst]
    exact ⟨fun c hc => absurd hc List.not_mem_nil, h.buf, h.imu, h.cloud⟩
  | false =>
    rw [if_neg Bool.false_ne_true, usePackage_eq env hfirst]
    refine ⟨List.forall_mem_append.mpr ⟨hcalls, mapCalls_sourced hdown hcloud⟩, ?_, ?_, ?_⟩
    · rw [mapScan_buf]
      exact h.buf
    · rw [mapScan_imu]
      exact hafter
    · rw [mapScan_featsUndistort]
      exact hcloud

/-- A step of the node: its calls, and what the later ones are made of. -/
theorem nodeStep_sourced (hA : KeptByNode A) (hC : KeptByFilter env.filter C)
    (hdown : ∀ points, (∀ q ∈ points, C q) → ∀ q ∈ env.downsample points, C q)
    {s : NodeState K S M} (h : s.Sourced A N C) (e : Event K μ) :
    (∀ c ∈ s.calls env e, c.Sourced A N C) ∧
      (e.Sourced cfg A C → (nodeStep cfg env s e).1.Sourced A N C) := by
  have hscan : ∀ {kept : List (Scan K)} {scan : Scan K},
      (kept = [] ∨ kept = s.buf.lidarBuffer) → (∀ q ∈ scan.points, C q) →
        ∀ sc ∈ kept ++ [scan], ∀ q ∈ sc.points, C q := by
    intro kept scan hkept hpoints
    refine List.forall_mem_append.mpr ⟨?_, List.forall_mem_singleton.mpr hpoints⟩
    rcases hkept with rfl | rfl
    · exact fun sc hsc => absurd hsc List.not_mem_nil
    · exact h.buf.scans
  cases e with
  | standardPcl msg =>
    exact ⟨fun c hc => absurd hc List.not_mem_nil,
      fun he => ⟨⟨h.buf.imu, hscan (ite_nil_or _) he, h.buf.latched⟩, h.imu, h.cloud⟩⟩
  | livoxPcl msg =>
    exact ⟨fun c hc => absurd hc List.not_mem_nil,
      fun he => ⟨⟨h.buf.imu, hscan (ite_nil_or _) he, h.buf.latched⟩, h.imu, h.cloud⟩⟩
  | imu msg =>
    refine ⟨fun c hc => absurd hc List.not_mem_nil, fun he => ⟨⟨?_, h.buf.scans, h.buf.latched⟩,
      h.imu, h.cloud⟩⟩
    obtain ⟨kept, hkept, hbuffer⟩ := imuCbk_imuBuffer_cases cfg s.buf msg
    show ∀ m ∈ (imuCbk cfg s.buf msg).imuBuffer, m.Satisfies A
    rw [hbuffer]
    refine List.forall_mem_append.mpr ⟨?_, List.forall_mem_singleton.mpr he⟩
    rcases hkept with rfl | rfl
    · exact fun m hm => absurd hm List.not_mem_nil
    · exact h.buf.imu
  | sync =>
    rw [NodeState.calls]
    show _ ∧ (_ → (timerCallback env s).1.Sourced A N C)
    rw [timerCallback]
    rcases hsync : syncPackages s.buf with ⟨buf, _ | _⟩
    · exact ⟨fun c hc => absurd hc List.not_mem_nil,
        fun _ => ⟨(syncPackages_sourced h.buf hsync).1, h.imu, h.cloud⟩⟩
    · obtain ⟨hbuf, himu⟩ := syncPackages_sourced h.buf hsync
      obtain ⟨hcalls, hafter⟩ := usePackage_sourced hA hC hdown (s := { s with buf := buf })
        ⟨hbuf, h.imu, h.cloud⟩ (himu rfl) hbuf.latched
      exact ⟨hcalls, fun _ => hafter⟩

/-- Over any order of the callbacks and the timer the conditions hold of the arguments of
every call to the filter. -/
theorem runCalls_sourced (cfg : Config K μ) (env : Env K S M) (hA : KeptByNode A)
    (hC : KeptByFilter env.filter C)
    (hdown : ∀ points, (∀ q ∈ points, C q) → ∀ q ∈ env.downsample points, C q)
    {imu : ImuProcess K} (himu : imu.Sourced A N) (kf : S) (map : M) {es : List (Event K μ)}
    (hes : ∀ e ∈ es, e.Sourced cfg A C) :
    ∀ c ∈ runCalls cfg env imu kf map es, c.Sourced A N C := by
  have hinit : (NodeState.init imu kf map).Sourced A N C :=
    ⟨⟨fun m hm => absurd hm List.not_mem_nil, fun sc hsc => absurd hsc List.not_mem_nil,
      fun q hq => absurd hq List.not_mem_nil⟩, himu, fun q hq => absurd hq List.not_mem_nil⟩
  have hnext : ∀ (s : NodeState K S M) (e : Event K μ), s.Sourced A N C → e.Sourced cfg A C →
      ((mappingNode cfg env imu kf map).next s e).Sourced A N C :=
    fun s e hs => (nodeStep_sourced hA hC hdown hs e).2
  have hcalls : ∀ (s : NodeState K S M) (e : Event K μ), s.Sourced A N C →
      ∀ c ∈ s.calls env e, c.Sourced A N C :=
    fun s e hs => (@nodeStep_sourced K _ S M μ A N C cfg env hA hC hdown s hs e).1
  exact Machine.gathered_forall hnext hcalls hinit hes

/-- The noise of every prediction is the constructor's or the one the node set. -/
theorem runCalls_noise (cfg : Config K μ) (env : Env K S M) {imu : ImuProcess K}
    (hQ : imu.Q = processNoiseCov) (hneed : imu.imuNeedInit = true) (kf : S) (map : M)
    (es : List (Event K μ)) {dt : K} {Q : NoiseCov K} {input : ImuInput K}
    (hmem : .predict dt Q input ∈ runCalls cfg env imu kf map es) :
    Q = processNoiseCov ∨ Q = imu.scales := by
  have himu : imu.Sourced (fun _ _ => True) fun Q => Q = processNoiseCov ∨ Q = imu.scales :=
    ⟨trivial, trivial, .inl hQ, .inr rfl, fun hdone => absurd hneed (by simp [hdone])⟩
  have hes : ∀ e ∈ es, e.Sourced cfg (fun _ _ => True) fun _ => True := by
    intro e _
    cases e with
    | standardPcl msg => exact fun _ _ => trivial
    | livoxPcl msg => exact fun _ _ => trivial
    | imu msg => exact trivial
    | sync => exact trivial
  have hall := runCalls_sourced cfg env
    ⟨trivial, fun _ _ _ _ _ _ _ => trivial, fun _ _ _ _ _ _ _ => trivial⟩
    (fun _ _ _ _ _ _ => trivial) (fun _ _ _ _ => trivial) himu kf map hes
  exact (hall _ hmem).1

end LaserMapping
end RobotNav
