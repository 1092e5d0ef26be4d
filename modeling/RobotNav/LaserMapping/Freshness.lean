/-
Which cloud `timer_callback` fuses and puts into the map.

`Process` returns without writing `feats_undistort` when a package has no IMU
message, and the tests after it only ask whether the cloud has points.  A package
is empty when every waiting message is stamped at or after the end of its scan;
the cloud of an earlier scan is then used again, under a new filter state.
-/
import RobotNav.LaserMapping.Tiling

namespace RobotNav
namespace LaserMapping

/-! ## The clouds a step uses -/

section Clouds

variable {K : Type}

def Action.cloud : Action K → Option (Cloud K)
  | .publishOdometry => none
  | .build c | .fuse c | .insert c => some c

def Action.fuses : Action K → Bool
  | .fuse _ => true
  | _ => false

/-- `map_incremental`. -/
def Action.inserts : Action K → Bool
  | .insert _ => true
  | _ => false

/-- The points reach the map, in its first build or in `map_incremental`. -/
def Action.maps : Action K → Bool
  | .build _ | .insert _ => true
  | _ => false

/-- The clouds that the actions of one kind use. -/
def NodeOut.used (kind : Action K → Bool) (o : NodeOut K) : List (Cloud K) :=
  (o.actions.filter kind).filterMap Action.cloud

/-- Each of these clouds was written by `UndistortPcl` in the same call, from the
scan of the package the call received. -/
def NodeOut.UsesOwn (kind : Action K → Bool) (o : NodeOut K) : Prop :=
  ∀ c ∈ o.used kind, ∃ meas u, o.input = .package meas ∧ o.undistorted = some u ∧
    u.seq = meas.lidar.seq ∧ c = { seq := u.seq, points := u.points }

def usedSeqs (kind : Action K → Bool) (os : List (NodeOut K)) : List ℕ :=
  os.flatMap fun o => (o.used kind).map Cloud.seq

/-- The filter update and `map_incremental` run on the scan just received, and
on none twice. -/
structure UpdatesOwnScans (os : List (NodeOut K)) : Prop where
  own : ∀ o ∈ os, o.UsesOwn fun a => a.fuses || a.inserts
  fusedOnce : (usedSeqs Action.fuses os).Nodup
  insertedOnce : (usedSeqs Action.inserts os).Nodup

/-- The same with the first build of the map counted as an insertion. -/
structure MapsOwnScans (os : List (NodeOut K)) : Prop where
  own : ∀ o ∈ os, o.UsesOwn fun a => a.fuses || a.maps
  fusedOnce : (usedSeqs Action.fuses os).Nodup
  mappedOnce : (usedSeqs Action.maps os).Nodup

theorem mem_used {kind : Action K → Bool} {o : NodeOut K} {c : Cloud K} :
    c ∈ o.used kind ↔ ∃ a ∈ o.actions, kind a = true ∧ a.cloud = some c := by
  simp only [NodeOut.used, List.mem_filterMap, List.mem_filter, and_assoc]

theorem NodeOut.UsesOwn.mono {kind kind' : Action K → Bool} {o : NodeOut K}
    (h : o.UsesOwn kind) (hkind : ∀ a, kind' a = true → kind a = true) : o.UsesOwn kind' := by
  intro c hc
  obtain ⟨a, ha, hka, hac⟩ := mem_used.mp hc
  exact h c (mem_used.mpr ⟨a, ha, hkind a hka, hac⟩)

end Clouds

/-! ## The scans of the packages -/

section Sequence

variable {K : Type}

/-- The scans still to be delivered: the latched one, and those behind the front
that the next success pops. -/
def State.pending (s : State K) : List ℕ :=
  if s.lidarPushed then s.measures.lidar.seq :: (s.lidarBuffer.map Scan.seq).tail
  else s.lidarBuffer.map Scan.seq

def deliveredSeqs (os : List (Output K)) : List ℕ :=
  (packages os).map fun p => p.lidar.seq

/-- Scans are numbered in their order of arrival and delivered in that order. -/
structure SeqOrdered (os : List (Output K)) (s : State K) : Prop where
  sorted : (deliveredSeqs os ++ s.pending).Pairwise (· < ·)
  counted : ∀ n ∈ deliveredSeqs os ++ s.pending, n ≤ s.scanCount

theorem deliveredSeqs_snoc (os : List (Output K)) (o : Output K) :
    deliveredSeqs (os ++ [o]) =
      deliveredSeqs os ++ o.delivered.toList.map fun p => p.lidar.seq := by
  unfold deliveredSeqs
  rw [packages_snoc, List.map_append]

/-- A scan put at the back, with the next number; a clear only takes scans away. -/
theorem SeqOrdered.push {os : List (Output K)} {s s' : State K} (h : SeqOrdered os s)
    {kept : List (Scan K)} {scan : Scan K} (hkept : kept = [] ∨ kept = s.lidarBuffer)
    (hlidar : s'.lidarBuffer = kept ++ [scan]) (hseq : scan.seq = s.scanCount + 1)
    (hcount : s'.scanCount = s.scanCount + 1) (hpushed : s'.lidarPushed = s.lidarPushed)
    (hmeas : s'.measures = s.measures) : SeqOrdered (os ++ [.quiet]) s' := by
  have hdel : deliveredSeqs (os ++ [.quiet]) = deliveredSeqs os := by
    rw [deliveredSeqs_snoc]
    exact List.append_nil _
  have hsub : List.Sublist s'.pending (s.pending ++ [s.scanCount + 1]) := by
    unfold State.pending
    rw [hpushed, hmeas, hlidar]
    by_cases hp : s.lidarPushed = true
    · rw [if_pos hp, if_pos hp, List.cons_append]
      refine List.Sublist.cons_cons _ ?_
      rcases hkept with rfl | rfl
      · exact List.nil_sublist _
      · rw [List.map_append, List.map_singleton, hseq]
        cases hl : s.lidarBuffer.map Scan.seq with
        | nil => exact List.nil_sublist _
        | cons n rest => exact List.Sublist.refl _
    · rw [if_neg hp, if_neg hp, List.map_append, List.map_singleton, hseq]
      rcases hkept with rfl | rfl
      · exact List.sublist_append_right _ _
      · exact List.Sublist.refl _
  have hall : List.Sublist (deliveredSeqs os ++ s'.pending)
      ((deliveredSeqs os ++ s.pending) ++ [s.scanCount + 1]) := by
    rw [List.append_assoc]
    exact List.Sublist.append_left hsub _
  have hsorted : ((deliveredSeqs os ++ s.pending) ++ [s.scanCount + 1]).Pairwise (· < ·) := by
    refine List.pairwise_append.mpr ⟨h.sorted, List.pairwise_singleton _ _, ?_⟩
    intro n hn k hk
    rw [List.mem_singleton.mp hk]
    exact Nat.lt_succ_of_le (h.counted n hn)
  constructor
  · rw [hdel]
    exact hsorted.sublist hall
  · intro n hn
    rw [hdel] at hn
    rw [hcount]
    rcases List.mem_append.mp (hall.mem hn) with hold | hnew
    · exact Nat.le_succ_of_le (h.counted n hold)
    · rw [List.mem_singleton.mp hnew]

variable [Arith K] {μ : Type} {cfg : Config K μ}

theorem latched_pending {s : State K} (h : EndLatched s) (hne : s.lidarBuffer ≠ []) :
    s.latched.pending = s.pending := by
  by_cases hp : s.lidarPushed = true
  · rw [State.latched, if_pos hp]
  · obtain ⟨hpushed, -⟩ := latched_endTime h hne
    rw [State.latched, if_neg hp] at hpushed ⊢
    obtain ⟨scan, scans, hl⟩ := List.exists_cons_of_ne_nil hne
    unfold State.pending
    rw [if_pos hpushed, if_neg hp, pushScan_lidarBuffer, hl, List.map_cons, List.tail_cons]
    cases ht : s.timeBuffer with
    | nil =>
      have hlen := h.length
      rw [hl, ht] at hlen
      exact absurd hlen (by simp)
    | cons t ts => simp only [State.pushScan, hl, ht]

theorem popPackage_pending {s : State K} (hp : s.lidarPushed = true) (hne : s.imuBuffer ≠ []) :
    s.pending = s.popPackage.measures.lidar.seq :: s.popPackage.pending := by
  obtain ⟨front, rest, hfront⟩ := List.exists_cons_of_ne_nil hne
  obtain ⟨hpop, hl, -, -, -⟩ := popPackage_fields hfront
  unfold State.pending
  rw [if_pos hp, hpop, hl, popPackage_lidar, List.map_tail]
  rfl

omit [Arith K] in
theorem deliveredSeqs_quiet (os : List (Output K)) :
    deliveredSeqs (os ++ [.quiet]) = deliveredSeqs os := by
  rw [deliveredSeqs_snoc]
  exact List.append_nil _

/-- `sync_packages` moves a scan from the pending ones to the delivered ones, or
nothing. -/
theorem SeqOrdered.sync {os : List (Output K)} {s : State K} (h : SeqOrdered os s)
    (hlat : EndLatched s) :
    SeqOrdered (os ++ [(buffers cfg).out s .sync]) ((buffers cfg).next s .sync) := by
  rw [buffers_next_sync, buffers_out_sync]
  rcases syncPackages_cases s with hs | ⟨hs, hne⟩ | ⟨hs, hne, himu, -⟩
  · rw [hs]
    constructor
    · show (deliveredSeqs (os ++ [.quiet]) ++ s.pending).Pairwise _
      rw [deliveredSeqs_quiet]
      exact h.sorted
    · show ∀ n ∈ deliveredSeqs (os ++ [.quiet]) ++ s.pending, n ≤ s.scanCount
      rw [deliveredSeqs_quiet]
      exact h.counted
  · rw [hs]
    constructor
    · show (deliveredSeqs (os ++ [.quiet]) ++ s.latched.pending).Pairwise _
      rw [deliveredSeqs_quiet, latched_pending hlat hne]
      exact h.sorted
    · show ∀ n ∈ deliveredSeqs (os ++ [.quiet]) ++ s.latched.pending, n ≤ s.latched.scanCount
      rw [deliveredSeqs_quiet, latched_pending hlat hne, latched_scanCount]
      exact h.counted
  · rw [hs]
    have hmove : deliveredSeqs (os ++ [.package s.latched.popPackage.measures]) ++
        s.latched.popPackage.pending = deliveredSeqs os ++ s.pending := by
      rw [deliveredSeqs_snoc, ← latched_pending hlat hne,
        popPackage_pending (latched_endTime hlat hne).1 (by rwa [latched_imuBuffer]),
        List.append_assoc]
      rfl
    constructor
    · show (deliveredSeqs (os ++ [.package s.latched.popPackage.measures]) ++
        s.latched.popPackage.pending).Pairwise _
      rw [hmove]
      exact h.sorted
    · show ∀ n ∈ deliveredSeqs (os ++ [.package s.latched.popPackage.measures]) ++
        s.latched.popPackage.pending, n ≤ s.latched.popPackage.scanCount
      rw [hmove, popPackage_scanCount, latched_scanCount]
      exact h.counted

theorem next_seqOrdered {os : List (Output K)} {s : State K} (h : SeqOrdered os s)
    (hlat : EndLatched s) (e : Event K μ) :
    SeqOrdered (os ++ [(buffers cfg).out s e]) ((buffers cfg).next s e) := by
  cases e with
  | standardPcl msg => exact h.push (ite_nil_or _) rfl rfl rfl rfl rfl
  | livoxPcl msg => exact h.push (ite_nil_or _) rfl rfl rfl rfl rfl
  | imu msg =>
    have hdel : deliveredSeqs (os ++ [(buffers cfg).out s (.imu msg)]) = deliveredSeqs os := by
      rw [deliveredSeqs_snoc]
      exact List.append_nil _
    constructor
    · rw [hdel]
      exact h.sorted
    · rw [hdel]
      exact h.counted
  | sync => exact h.sync hlat

theorem run_seqOrdered (cfg : Config K μ) (es : List (Event K μ)) :
    SeqOrdered ((buffers cfg).outs State.init es) ((buffers cfg).run State.init es) := by
  induction es using List.reverseRecOn with
  | nil => exact ⟨List.Pairwise.nil, fun n hn => absurd hn List.not_mem_nil⟩
  | append_singleton es e ih =>
    rw [Machine.outs_snoc, Machine.run_snoc]
    have hlat : EndLatched ((buffers cfg).run State.init es) :=
      Machine.run_invariant (I := EndLatched) (fun s e hs => next_endLatched hs e)
        init_endLatched es
    exact next_seqOrdered ih hlat e

/-- No scan is delivered twice. -/
theorem deliveredSeqs_nodup (cfg : Config K μ) (es : List (Event K μ)) :
    (deliveredSeqs ((buffers cfg).outs State.init es)).Nodup :=
  (List.pairwise_append.mp (run_seqOrdered cfg es).sorted).1.imp fun hlt => Nat.ne_of_lt hlt

end Sequence

/-! ## What `timer_callback` does with `feats_undistort` -/

section Timer

variable {K : Type} [Arith K] {S M μ : Type} {cfg : Config K μ} {env : Env K S M}

/-- `feats_undistort` would build the map, or go through the filter update, if
`Process` left everything as it is. -/
def NodeState.Builds (env : Env K S M) (s : NodeState K S M) : Prop :=
  env.rootIsNull (env.fovSegment s.map s.kf) = true ∧
    5 < (env.downsample s.featsUndistort.points).length

def NodeState.Updates (env : Env K S M) (s : NodeState K S M) : Prop :=
  env.rootIsNull (env.fovSegment s.map s.kf) = false ∧
    5 ≤ (env.downsample s.featsUndistort.points).length

/-- The timer would deliver a package whose scan ended before every waiting IMU
message, while `feats_undistort` holds points of an earlier scan. -/
structure StaleCloud (s : NodeState K S M) : Prop where
  scan : s.buf.lidarBuffer ≠ []
  ready : s.buf.latched.lidarEndTime ≤ s.buf.lastTimestampImu
  ended : ∃ front rest, s.buf.imuBuffer = front :: rest ∧ s.buf.latched.lidarEndTime ≤ front.sec
  notFirst : s.flgFirstScan = false
  left : s.featsUndistort.points ≠ []

/-- Everything the part after `Process` can do. -/
theorem mapScan_actions (env : Env K S M) (s : NodeState K S M) (begTime : K) :
    (s.featsUndistort.points = [] ∧ (s.mapScan env begTime).2 = [.publishOdometry]) ∨
    (s.featsUndistort.points ≠ [] ∧ s.Builds env ∧ ¬ s.Updates env ∧
      (s.mapScan env begTime).2 = [.build s.featsUndistort]) ∨
    (s.featsUndistort.points ≠ [] ∧ s.Updates env ∧ ¬ s.Builds env ∧
      (s.mapScan env begTime).2 =
        [.fuse s.featsUndistort, .publishOdometry, .insert s.featsUndistort]) ∨
    (s.featsUndistort.points ≠ [] ∧ ¬ s.Builds env ∧ ¬ s.Updates env ∧
      ((s.mapScan env begTime).2 = [] ∨ (s.mapScan env begTime).2 = [.publishOdometry])) := by
  by_cases hempty : s.featsUndistort.points = []
  · left
    refine ⟨hempty, ?_⟩
    simp [NodeState.mapScan, hempty]
  · right
    have hisEmpty : s.featsUndistort.points.isEmpty = false := by simp [hempty]
    by_cases hroot : env.rootIsNull (env.fovSegment s.map s.kf) = true
    · have hupd : ¬ s.Updates env := fun h => Bool.noConfusion (hroot.symm.trans h.1)
      by_cases hmany : 5 < (env.downsample s.featsUndistort.points).length
      · left
        refine ⟨hempty, ⟨hroot, hmany⟩, hupd, ?_⟩
        simp [NodeState.mapScan, hisEmpty, hroot, hmany]
      · right; right
        refine ⟨hempty, fun h => hmany h.2, hupd, .inl ?_⟩
        simp [NodeState.mapScan, hisEmpty, hroot, hmany]
    · have hbuild : ¬ s.Builds env := fun h => hroot h.1
      by_cases hfew : (env.downsample s.featsUndistort.points).length < 5
      · right; right
        refine ⟨hempty, hbuild, fun h => absurd hfew (not_lt.mpr h.2), .inr ?_⟩
        simp [NodeState.mapScan, hisEmpty, hroot, hfew]
      · right; left
        refine ⟨hempty, ⟨Bool.eq_false_iff.mpr hroot, not_lt.mp hfew⟩, hbuild, ?_⟩
        simp [NodeState.mapScan, hisEmpty, hroot, hfew]

/-- Whatever the timer uses is `feats_undistort`. -/
theorem mapScan_cloud (env : Env K S M) (s : NodeState K S M) (begTime : K) {a : Action K}
    (ha : a ∈ (s.mapScan env begTime).2) {c : Cloud K} (hc : a.cloud = some c) :
    c = s.featsUndistort ∧ s.featsUndistort.points ≠ [] := by
  rcases mapScan_actions env s begTime with
    ⟨-, h⟩ | ⟨hne, -, -, h⟩ | ⟨hne, -, -, h⟩ | ⟨-, -, -, h | h⟩
  · rw [h, List.mem_singleton] at ha
    rw [ha] at hc
    cases hc
  · rw [h, List.mem_singleton] at ha
    rw [ha] at hc
    exact ⟨(Option.some.inj hc).symm, hne⟩
  · rw [h, List.mem_cons, List.mem_cons, List.mem_singleton] at ha
    rcases ha with rfl | rfl | rfl
    · exact ⟨(Option.some.inj hc).symm, hne⟩
    · cases hc
    · exact ⟨(Option.some.inj hc).symm, hne⟩
  · rw [h] at ha
    exact absurd ha List.not_mem_nil
  · rw [h, List.mem_singleton] at ha
    rw [ha] at hc
    cases hc

/-- An action that is not taken by both ends of the update is taken once. -/
theorem mapScan_single (env : Env K S M) (s : NodeState K S M) (begTime : K)
    {kind : Action K → Bool} (hpub : kind .publishOdometry = false)
    (honce : ∀ c, kind (.fuse c) = false ∨ kind (.insert c) = false) :
    ((s.mapScan env begTime).2.filter kind).length ≤ 1 := by
  rcases mapScan_actions env s begTime with
    ⟨-, h⟩ | ⟨-, -, -, h⟩ | ⟨-, -, -, h⟩ | ⟨-, -, -, h | h⟩
  · rw [h]
    exact List.length_filter_le kind [_]
  · rw [h]
    exact List.length_filter_le kind [_]
  · rw [h]
    rcases honce s.featsUndistort with hfuse | hinsert
    · rw [List.filter_cons_of_neg (by simp [hfuse]), List.filter_cons_of_neg (by simp [hpub])]
      exact List.length_filter_le kind [_]
    · rw [List.filter_cons, List.filter_cons_of_neg (by simp [hpub]),
        List.filter_cons_of_neg (by simp [hinsert]), List.filter_nil]
      split <;> simp
  · rw [h]
    exact Nat.zero_le _
  · rw [h]
    exact List.length_filter_le kind [_]

/-- `sync_packages` takes no message exactly when the first one waiting is not
older than the end of the scan. -/
theorem drainImu_eq_nil_iff {endTime : K} {front : ImuMsg K} {rest : List (ImuMsg K)} :
    (drainImu endTime front.sec (front :: rest)).1 = [] ↔ endTime ≤ front.sec := by
  by_cases hgo : front.sec < endTime
  · have hstay : ¬ endTime < front.sec := not_lt.mpr (le_of_lt hgo)
    simp [drainImu, hgo, hstay]
  · simp [drainImu, hgo, not_lt.mp hgo]

/-- Until the IMU is initialised there are no points. -/
def EmptyBeforeInit (s : NodeState K S M) : Prop :=
  s.imu.imuNeedInit = true → s.featsUndistort.points = []

theorem usePackage_actions (env : Env K S M) (s : NodeState K S M) (meas : MeasureGroup K) :
    (s.usePackage env meas).2.actions = [] ∨ ∃ s' : NodeState K S M,
      (s.usePackage env meas).2.actions = (s'.mapScan env meas.lidarBegTime).2 := by
  by_cases hfirst : s.flgFirstScan = true
  · left
    simp [NodeState.usePackage, hfirst]
  · right
    simp only [NodeState.usePackage, hfirst, if_false, Bool.false_eq_true]
    exact ⟨_, rfl⟩

theorem nodeOut_single (cfg : Config K μ) (env : Env K S M) (s : NodeState K S M)
    (e : Event K μ) {kind : Action K → Bool} (hpub : kind .publishOdometry = false)
    (honce : ∀ c, kind (.fuse c) = false ∨ kind (.insert c) = false) :
    ((nodeStep cfg env s e).2.used kind).length ≤ 1 := by
  refine Nat.le_trans (List.length_filterMap_le _ _) ?_
  cases e with
  | standardPcl msg => exact Nat.zero_le _
  | livoxPcl msg => exact Nat.zero_le _
  | imu msg => exact Nat.zero_le _
  | sync =>
    show ((timerCallback env s).2.actions.filter kind).length ≤ 1
    rcases timerCallback_cases env s with ⟨-, htimer⟩ | ⟨-, htimer⟩
    · rw [htimer]
      exact Nat.zero_le _
    · rw [htimer]
      rcases usePackage_actions env { s with buf := (syncPackages s.buf).1 } _ with h | ⟨s', h⟩
      · rw [h]
        exact Nat.zero_le _
      · rw [h]
        exact mapScan_single env s' _ hpub honce

/-- Without an IMU message the clouds are judged as they were before. -/
theorem usePackage_empty {s : NodeState K S M} {meas : MeasureGroup K} (himu : meas.imu = [])
    (hfirst : s.flgFirstScan = false) :
    s.usePackage env meas = ((s.mapScan env meas.lidarBegTime).1,
      { input := .package meas, undistorted := none,
        actions := (s.mapScan env meas.lidarBegTime).2 }) := by
  have hproc : s.imu.process env.filter meas s.kf = (s.imu, s.kf, none) := by
    simp [ImuProcess.process, himu]
  rw [NodeState.usePackage, if_neg (by simp [hfirst]), hproc]
  rfl

theorem usePackage_featsUndistort (s : NodeState K S M) (meas : MeasureGroup K) :
    (s.usePackage env meas).1.featsUndistort =
      s.featsUndistort.refill (s.usePackage env meas).2.undistorted := by
  by_cases hfirst : s.flgFirstScan = true
  · simp [NodeState.usePackage, hfirst, Cloud.refill]
  · simp only [NodeState.usePackage, hfirst, if_false, Bool.false_eq_true]
    simp only [NodeState.mapScan]
    split_ifs <;> rfl

/-- A call whose package is not empty, or that finds no points, uses only what
`UndistortPcl` has just written. -/
theorem usePackage_usesOwn {s : NodeState K S M} (h : EmptyBeforeInit s) {meas : MeasureGroup K}
    (hfresh : meas.imu = [] → s.flgFirstScan = false → s.featsUndistort.points = [])
    (kind : Action K → Bool) : (s.usePackage env meas).2.UsesOwn kind := by
  intro c hc
  obtain ⟨a, ha, -, hac⟩ := mem_used.mp hc
  by_cases hfirst : s.flgFirstScan = true
  · simp [NodeState.usePackage, hfirst] at ha
  · have hnotFirst : s.flgFirstScan = false := Bool.eq_false_iff.mpr hfirst
    simp only [NodeState.usePackage, hfirst, if_false, Bool.false_eq_true] at ha ⊢
    obtain ⟨hcloud, hpoints⟩ := mapScan_cloud env _ _ ha hac
    simp only at hcloud hpoints
    rcases process_cases env.filter s.imu meas s.kf with
      ⟨himu, hproc⟩ | ⟨-, hinit, hproc⟩ | ⟨-, -, hproc⟩
    · rw [hproc] at hpoints
      exact absurd (hfresh himu hnotFirst) hpoints
    · rw [hproc] at hpoints
      exact absurd (h hinit) hpoints
    · rw [hproc] at hcloud ⊢
      exact ⟨meas, _, rfl, rfl, rfl, hcloud⟩

/-! ## The calls that use a stale cloud -/

theorem StaleCloud.package {s : NodeState K S M} (h : StaleCloud s) :
    syncPackages s.buf = (s.buf.latched.popPackage, true) ∧
      s.buf.latched.popPackage.measures.imu = [] := by
  obtain ⟨front, rest, himu, hended⟩ := h.ended
  obtain ⟨scan, scans, hlidar⟩ := List.exists_cons_of_ne_nil h.scan
  have hbuf : s.buf.latched.imuBuffer = front :: rest := by rw [latched_imuBuffer, himu]
  constructor
  · have hready : ¬ s.buf.latched.lastTimestampImu < s.buf.latched.lidarEndTime := by
      rw [latched_lastTimestampImu]
      exact not_lt.mpr h.ready
    rw [syncPackages, if_neg (by simp [hlidar, himu]), if_neg hready]
  · obtain ⟨-, -, -, htaken, -⟩ := popPackage_fields hbuf
    rw [htaken, hbuf]
    exact drainImu_eq_nil_iff.mpr hended

/-- An empty package finds points only in a stale cloud. -/
theorem staleCloud_of_empty {s : NodeState K S M} (hsync : (syncPackages s.buf).2 = true)
    (himu : (syncPackages s.buf).1.measures.imu = []) (hfirst : s.flgFirstScan = false)
    (hleft : s.featsUndistort.points ≠ []) : StaleCloud s := by
  rcases syncPackages_cases s.buf with hs | ⟨hs, -⟩ | ⟨hs, hlidar, hbuf, hready⟩
  · rw [hs] at hsync
    cases hsync
  · rw [hs] at hsync
    cases hsync
  · obtain ⟨front, rest, hfront⟩ := List.exists_cons_of_ne_nil hbuf
    have hlatched : s.buf.latched.imuBuffer = front :: rest := by rw [latched_imuBuffer, hfront]
    obtain ⟨-, -, -, htaken, -⟩ := popPackage_fields hlatched
    have himu' : s.buf.latched.popPackage.measures.imu = [] := by
      rw [hs] at himu
      exact himu
    rw [htaken, hlatched] at himu'
    exact ⟨hlidar, hready, ⟨front, rest, hfront, drainImu_eq_nil_iff.mp himu'⟩, hfirst, hleft⟩

theorem timerCallback_stale (env : Env K S M) {s : NodeState K S M} (h : StaleCloud s) :
    ∃ meas, (timerCallback env s).2 =
      { input := .package meas, undistorted := none,
        actions := (s.mapScan env meas.lidarBegTime).2 } := by
  obtain ⟨hsync, himu⟩ := h.package
  refine ⟨s.buf.latched.popPackage.measures, ?_⟩
  rw [timerCallback, hsync]
  show (NodeState.usePackage env { s with buf := s.buf.latched.popPackage }
    s.buf.latched.popPackage.measures).2 = _
  rw [usePackage_empty (s := { s with buf := s.buf.latched.popPackage }) himu h.notFirst]
  -- the part after `Process` does not read the buffers
  simp only [NodeState.mapScan]
  split_ifs <;> rfl

theorem timerCallback_fresh {s : NodeState K S M} (h : EmptyBeforeInit s) (hfresh : ¬ StaleCloud s)
    (kind : Action K → Bool) : (timerCallback env s).2.UsesOwn kind := by
  rcases timerCallback_cases env s with ⟨-, htimer⟩ | ⟨hsync, htimer⟩
  · rw [htimer]
    intro c hc
    exact absurd hc List.not_mem_nil
  · rw [htimer]
    have hstate : EmptyBeforeInit { s with buf := (syncPackages s.buf).1 } := h
    refine usePackage_usesOwn hstate (fun himu hfirst => ?_) kind
    by_contra hleft
    exact hfresh (staleCloud_of_empty hsync himu hfirst hleft)

omit [Arith K] in
theorem usesOwn_of_none {o : NodeOut K} (h : o.undistorted = none) (kind : Action K → Bool) :
    o.UsesOwn kind ↔ o.used kind = [] := by
  constructor
  · intro hown
    refine List.eq_nil_iff_forall_not_mem.mpr fun c hc => ?_
    obtain ⟨-, u, -, hu, -⟩ := hown c hc
    rw [h] at hu
    cases hu
  · intro hnil c hc
    rw [hnil] at hc
    exact absurd hc List.not_mem_nil

/-- What `Q` says of a state with points decides whether the kind of action is
taken. -/
def Decides (env : Env K S M) (kind : Action K → Bool) (Q : NodeState K S M → Prop) : Prop :=
  ∀ s begTime, s.featsUndistort.points ≠ [] →
    (((s.mapScan env begTime).2.filter kind).filterMap Action.cloud = [] ↔ Q s)

theorem updates_decides (env : Env K S M) :
    Decides env (fun a => a.fuses || a.inserts) fun s => ¬ s.Updates env := by
  intro s begTime hne
  rcases mapScan_actions env s begTime with
    ⟨hempty, -⟩ | ⟨-, -, hupd, h⟩ | ⟨-, hupd, -, h⟩ | ⟨-, -, hupd, h | h⟩
  · exact absurd hempty hne
  · simp [h, hupd, Action.fuses, Action.inserts]
  · simp [h, hupd, Action.fuses, Action.inserts, Action.cloud]
  · simp [h, hupd]
  · simp [h, hupd, Action.fuses, Action.inserts]

theorem maps_decides (env : Env K S M) :
    Decides env (fun a => a.fuses || a.maps) fun s => ¬ s.Updates env ∧ ¬ s.Builds env := by
  intro s begTime hne
  rcases mapScan_actions env s begTime with
    ⟨hempty, -⟩ | ⟨-, hbuild, hupd, h⟩ | ⟨-, hupd, hbuild, h⟩ | ⟨-, hbuild, hupd, h | h⟩
  · exact absurd hempty hne
  · simp [h, hbuild, hupd, Action.fuses, Action.maps, Action.cloud]
  · simp [h, hbuild, hupd, Action.fuses, Action.maps, Action.cloud]
  · simp [h, hbuild, hupd]
  · simp [h, hbuild, hupd, Action.fuses, Action.maps]

theorem timerCallback_usesOwn_iff {s : NodeState K S M} (h : EmptyBeforeInit s)
    {kind : Action K → Bool} {Q : NodeState K S M → Prop} (hQ : Decides env kind Q) :
    (timerCallback env s).2.UsesOwn kind ↔ (StaleCloud s → Q s) := by
  by_cases hstale : StaleCloud s
  · obtain ⟨meas, hout⟩ := timerCallback_stale env hstale
    rw [hout, usesOwn_of_none rfl]
    have hiff := hQ s meas.lidarBegTime hstale.left
    exact ⟨fun hnil _ => hiff.mp hnil, fun hq => hiff.mpr (hq hstale)⟩
  · exact ⟨fun _ hs => absurd hs hstale, fun _ => timerCallback_fresh h hstale kind⟩

/-! ## Runs -/

theorem usePackage_emptyBeforeInit {s : NodeState K S M} (h : EmptyBeforeInit s)
    (meas : MeasureGroup K) : EmptyBeforeInit (s.usePackage env meas).1 := by
  intro hinit
  rw [usePackage_featsUndistort]
  rcases usePackage_imu env s meas with ⟨himu, hnone⟩ | ⟨himu, hcall⟩
  · rw [himu] at hinit
    rw [hnone]
    exact h hinit
  · rw [himu] at hinit
    rw [hcall]
    rcases process_cases env.filter s.imu meas s.kf with
      ⟨-, hproc⟩ | ⟨-, hneed, hproc⟩ | ⟨-, hneed, hproc⟩
    · rw [hproc] at hinit ⊢
      exact h hinit
    · rw [hproc]
      exact h hneed
    · rw [hproc] at hinit
      rw [show (s.imu.undistortPcl env.filter meas s.kf).1.imuNeedInit = s.imu.imuNeedInit from rfl,
        hneed] at hinit
      cases hinit

theorem nodeStep_emptyBeforeInit (cfg : Config K μ) {s : NodeState K S M} (h : EmptyBeforeInit s)
    (e : Event K μ) : EmptyBeforeInit (nodeStep cfg env s e).1 := by
  cases e with
  | standardPcl msg => exact h
  | livoxPcl msg => exact h
  | imu msg => exact h
  | sync =>
    show EmptyBeforeInit (timerCallback env s).1
    rcases timerCallback_cases env s with ⟨-, htimer⟩ | ⟨-, htimer⟩
    · rw [htimer]
      exact h
    · rw [htimer]
      exact usePackage_emptyBeforeInit (s := { s with buf := (syncPackages s.buf).1 }) h _

theorem nodeStep_usesOwn_iff (cfg : Config K μ) {s : NodeState K S M} (h : EmptyBeforeInit s)
    (e : Event K μ) {kind : Action K → Bool} {Q : NodeState K S M → Prop}
    (hQ : Decides env kind Q) :
    (nodeStep cfg env s e).2.UsesOwn kind ↔ (e = .sync → StaleCloud s → Q s) := by
  cases e with
  | standardPcl msg =>
    exact iff_of_true (fun c hc => absurd hc List.not_mem_nil) (fun he => nomatch he)
  | livoxPcl msg =>
    exact iff_of_true (fun c hc => absurd hc List.not_mem_nil) (fun he => nomatch he)
  | imu msg => exact iff_of_true (fun c hc => absurd hc List.not_mem_nil) (fun he => nomatch he)
  | sync =>
    have hiff := timerCallback_usesOwn_iff h hQ
    exact ⟨fun hown _ => hiff.mp hown, fun hq => hiff.mpr (hq rfl)⟩

/-- Over a run the clouds are their own scans' exactly when no call of the timer
takes the action on a stale one. -/
theorem run_usesOwn_iff (cfg : Config K μ) (env : Env K S M) (imu : ImuProcess K) (kf : S)
    (map : M) (es : List (Event K μ)) {kind : Action K → Bool} {Q : NodeState K S M → Prop}
    (hQ : Decides env kind Q) :
    (∀ o ∈ (mappingNode cfg env imu kf map).outs (NodeState.init imu kf map) es,
        o.UsesOwn kind) ↔
      (mappingNode cfg env imu kf map).Along (fun s e => e = .sync → StaleCloud s → Q s)
        (NodeState.init imu kf map) es := by
  have hinit : EmptyBeforeInit (NodeState.init imu kf map) := fun _ => rfl
  rw [Machine.outs_forall]
  constructor
  · exact Machine.along_of_invariant (m := mappingNode cfg env imu kf map) (I := EmptyBeforeInit)
      (fun s e hs _ => nodeStep_emptyBeforeInit cfg hs e)
      (fun s e hs hown => (nodeStep_usesOwn_iff cfg hs e hQ).mp hown) hinit
  · exact Machine.along_of_invariant (m := mappingNode cfg env imu kf map) (I := EmptyBeforeInit)
      (fun s e hs _ => nodeStep_emptyBeforeInit cfg hs e)
      (fun s e hs hq => (nodeStep_usesOwn_iff cfg hs e hQ).mpr hq) hinit

omit [Arith K] in
/-- Own scans, taken at most one a step, are among the scans delivered, in their
order. -/
theorem usedSeqs_sublist {kind : Action K → Bool} {os : List (NodeOut K)}
    (hown : ∀ o ∈ os, o.UsesOwn kind) (honce : ∀ o ∈ os, (o.used kind).length ≤ 1) :
    List.Sublist (usedSeqs kind os) (deliveredSeqs (os.map NodeOut.input)) := by
  induction os with
  | nil => exact List.Sublist.refl _
  | cons o rest ih =>
    have hrest := ih (fun o ho => hown o (List.mem_cons_of_mem _ ho))
      fun o ho => honce o (List.mem_cons_of_mem _ ho)
    have hhead : List.Sublist ((o.used kind).map Cloud.seq)
        (o.input.delivered.toList.map fun p => p.lidar.seq) := by
      have hlen := honce o List.mem_cons_self
      cases hused : o.used kind with
      | nil => exact List.nil_sublist _
      | cons c cs =>
        rw [hused, List.length_cons] at hlen
        have hcs : cs = [] := List.eq_nil_of_length_eq_zero (by omega)
        obtain ⟨meas, u, hin, -, hseq, hc⟩ := hown o List.mem_cons_self c (by simp [hused])
        rw [hcs, hin, hc]
        show List.Sublist [u.seq] [meas.lidar.seq]
        rw [hseq]
    have hsplit : deliveredSeqs ((o :: rest).map NodeOut.input) =
        (o.input.delivered.toList.map fun p => p.lidar.seq) ++
          deliveredSeqs (rest.map NodeOut.input) := by
      unfold deliveredSeqs packages
      rw [List.map_cons]
      cases hdel : o.input.delivered with
      | none => rw [List.filterMap_cons_none hdel]; rfl
      | some meas => rw [List.filterMap_cons_some hdel]; rfl
    rw [hsplit]
    exact List.Sublist.append hhead hrest

theorem usedSeqs_nodup (cfg : Config K μ) (env : Env K S M) (imu : ImuProcess K) (kf : S)
    (map : M) (es : List (Event K μ)) {kind : Action K → Bool}
    (hown : ∀ o ∈ (mappingNode cfg env imu kf map).outs (NodeState.init imu kf map) es,
      o.UsesOwn kind)
    (hpub : kind .publishOdometry = false)
    (honce : ∀ c, kind (.fuse c) = false ∨ kind (.insert c) = false) :
    (usedSeqs kind
      ((mappingNode cfg env imu kf map).outs (NodeState.init imu kf map) es)).Nodup := by
  have hsingle : ∀ o ∈ (mappingNode cfg env imu kf map).outs (NodeState.init imu kf map) es,
      (o.used kind).length ≤ 1 := by
    rw [Machine.outs_forall]
    refine Machine.along_iff.mpr fun a e b _ => ?_
    exact nodeOut_single cfg env _ e hpub honce
  have hsub := usedSeqs_sublist hown hsingle
  rw [(mappingNode_projects cfg env imu kf map).outs] at hsub
  exact (deliveredSeqs_nodup cfg es).sublist hsub

/-- The filter update sees its own scan unless a stale cloud goes through it. -/
def NoStaleUpdate (env : Env K S M) (s : NodeState K S M) (e : Event K μ) : Prop :=
  e = .sync → StaleCloud s → ¬ s.Updates env

def NoStaleUse (env : Env K S M) (s : NodeState K S M) (e : Event K μ) : Prop :=
  e = .sync → StaleCloud s → ¬ s.Updates env ∧ ¬ s.Builds env

theorem updatesOwnScans_iff (cfg : Config K μ) (env : Env K S M) (imu : ImuProcess K) (kf : S)
    (map : M) (es : List (Event K μ)) :
    UpdatesOwnScans ((mappingNode cfg env imu kf map).outs (NodeState.init imu kf map) es) ↔
      (mappingNode cfg env imu kf map).Along (NoStaleUpdate env) (NodeState.init imu kf map)
        es := by
  have hiff := run_usesOwn_iff cfg env imu kf map es (updates_decides env)
  constructor
  · intro h
    exact hiff.mp h.own
  · intro h
    have hown := hiff.mpr h
    refine ⟨hown, ?_, ?_⟩
    · exact usedSeqs_nodup cfg env imu kf map es
        (fun o ho => (hown o ho).mono fun a ha => by simp [ha]) rfl fun c => .inr rfl
    · exact usedSeqs_nodup cfg env imu kf map es
        (fun o ho => (hown o ho).mono fun a ha => by simp [ha]) rfl fun c => .inl rfl

theorem mapsOwnScans_iff (cfg : Config K μ) (env : Env K S M) (imu : ImuProcess K) (kf : S)
    (map : M) (es : List (Event K μ)) :
    MapsOwnScans ((mappingNode cfg env imu kf map).outs (NodeState.init imu kf map) es) ↔
      (mappingNode cfg env imu kf map).Along (NoStaleUse env) (NodeState.init imu kf map) es := by
  have hiff := run_usesOwn_iff cfg env imu kf map es (maps_decides env)
  constructor
  · intro h
    exact hiff.mp h.own
  · intro h
    have hown := hiff.mpr h
    refine ⟨hown, ?_, ?_⟩
    · exact usedSeqs_nodup cfg env imu kf map es
        (fun o ho => (hown o ho).mono fun a ha => by simp [ha]) rfl fun c => .inr rfl
    · exact usedSeqs_nodup cfg env imu kf map es
        (fun o ho => (hown o ho).mono fun a ha => by simp [ha]) rfl fun c => .inl rfl

/-- Every run of the mapping node: the filter update and `map_incremental` work on
the scan of their own package, and on none twice, exactly when no call of the
timer takes a stale cloud through the update; and so with the first build of the
map. -/
theorem ownScans_iff_noStaleCloud (cfg : Config K μ) (env : Env K S M) (imu : ImuProcess K)
    (kf : S) (map : M) (es : List (Event K μ)) :
    (UpdatesOwnScans ((mappingNode cfg env imu kf map).outs (NodeState.init imu kf map) es) ↔
      (mappingNode cfg env imu kf map).Along (NoStaleUpdate env)
        (NodeState.init imu kf map) es) ∧
    (MapsOwnScans ((mappingNode cfg env imu kf map).outs (NodeState.init imu kf map) es) ↔
      (mappingNode cfg env imu kf map).Along (NoStaleUse env)
        (NodeState.init imu kf map) es) :=
  ⟨updatesOwnScans_iff cfg env imu kf map es, mapsOwnScans_iff cfg env imu kf map es⟩

end Timer

/-- The stamps of the LiDAR messages, as the driver gave them. -/
def Event.lidarHeader {K μ : Type} : Event K μ → Option Stamp
  | .standardPcl msg | .livoxPcl msg => some msg.stamp
  | _ => none

/-- After initialisation and with increasing stamps, the scan at 1.4 s ends
inside a gap of the IMU, and scan 4 is fused and inserted for the second time. -/
theorem imuGap_fuses_twice :
    ((mappingNode plainConfig stillEnv (.create ⟨1, 1, 1⟩ ⟨1, 1, 1⟩ ⟨0, 0, 0⟩ 0) () []).run
      (.init (.create ⟨1, 1, 1⟩ ⟨1, 1, 1⟩ ⟨0, 0, 0⟩ 0) () []) startUp).imu.imuNeedInit = false ∧
    StampsIncrease (arrivals (gapOuts.map NodeOut.input)) ∧
    (((startUp ++ imuGap).filterMap Event.lidarHeader).Pairwise fun a b =>
      a.nanoseconds ≤ b.nanoseconds) ∧
    usedSeqs Action.fuses gapOuts = [4, 4, 6] ∧ usedSeqs Action.inserts gapOuts = [4, 4, 6] ∧
    ¬ UpdatesOwnScans gapOuts := by
  refine ⟨by decide +kernel, by unfold StampsIncrease; decide +kernel, by decide +kernel,
    by decide +kernel, by decide +kernel, fun h => ?_⟩
  have honce := h.fusedOnce
  revert honce
  decide +kernel

end LaserMapping
end RobotNav
