/-
The global arrays of the mapping node: the time logs with `MAXN` entries, which are written
at counters that only grow, and the two arrays over the down-sampled points of a scan.

The node runs as before, with the arrays beside it, and each step answers with the entries
it has read or written.
-/
import Mathlib.Data.List.Forall2
import Mathlib.Data.List.Induction
import RobotNav.LaserMapping.Node

namespace RobotNav
namespace LaserMapping

inductive GlobalArray where
  | t1
  | sPlot
  | sPlot2
  | sPlot3
  | sPlot4
  | sPlot5
  | sPlot6
  | sPlot7
  | sPlot8
  | sPlot9
  | sPlot10
  | sPlot11
  | pointSelectedSurf
  | resLast
  deriving DecidableEq

def maxn : ℕ := 720000

def GlobalArray.size : GlobalArray → ℕ
  | .pointSelectedSurf => 100000
  | .resLast => 100000
  | _ => maxn

/-- The arrays `timer_callback` writes at `time_log_counter`. -/
def timeLogs : List GlobalArray :=
  [.t1, .sPlot, .sPlot2, .sPlot3, .sPlot4, .sPlot5, .sPlot6, .sPlot7, .sPlot8, .sPlot9, .sPlot10]

structure Access where
  array : GlobalArray
  index : ℕ
  deriving DecidableEq

def Access.inside (a : Access) : Prop := a.index < a.array.size

instance (a : Access) : Decidable a.inside := inferInstanceAs (Decidable (_ < _))

/-! ## `h_share_model` -/

/-- The two arrays over the points of a scan. -/
structure SurfArrays (K : Type) where
  pointSelectedSurf : ℕ → Bool
  resLast : ℕ → K

/-- What one call of `h_share_model` finds in the map: whether it searches again, the
points with enough near neighbours, and the residual of those whose plane fits. -/
structure Matching (K : Type) where
  converge : Bool
  nearby : ℕ → Bool
  residual : ℕ → Option K

variable {K : Type} [Arith K]

/-- The pass of the first loop for point `i`. -/
def matchPoint (m : Matching K) (arrays : SurfArrays K) (i : ℕ) :
    SurfArrays K × List Access :=
  let select (selected : Bool) (arrays : SurfArrays K) : SurfArrays K :=
    { arrays with pointSelectedSurf := Function.update arrays.pointSelectedSurf i selected }
  let searched := if m.converge then select (m.nearby i) arrays else arrays
  let tests : List Access :=
    if m.converge then [⟨.pointSelectedSurf, i⟩, ⟨.pointSelectedSurf, i⟩]
    else [⟨.pointSelectedSurf, i⟩]
  if !searched.pointSelectedSurf i then (searched, tests)
  else
    match m.residual i with
    | none => (select false searched, tests ++ [⟨.pointSelectedSurf, i⟩])
    | some pd2 =>
      ({ select true searched with resLast := Function.update searched.resLast i (fabs pd2) },
        tests ++ [⟨.pointSelectedSurf, i⟩, ⟨.pointSelectedSurf, i⟩, ⟨.resLast, i⟩])

/-- The pass of the second loop, with `effct_feat_num` and `total_residual`. -/
def countPoint (arrays : SurfArrays K) (acc : ℕ × K) (i : ℕ) : (ℕ × K) × List Access :=
  if arrays.pointSelectedSurf i then
    ((acc.1 + 1, acc.2 + arrays.resLast i), [⟨.pointSelectedSurf, i⟩, ⟨.resLast, i⟩])
  else (acc, [⟨.pointSelectedSurf, i⟩])

def matchLoop (m : Matching K) (arrays : SurfArrays K) :
    Machine (SurfArrays K) ℕ (List Access) where
  init := arrays
  step := matchPoint m

def countLoop (arrays : SurfArrays K) : Machine (ℕ × K) ℕ (List Access) where
  init := (0, lit 0)
  step := countPoint arrays

/-- The two loops of `h_share_model` for `feats_down_size` points: the arrays, the number
of effective points with the sum of their residuals, and the accesses. -/
def hShareModel (featsDownSize : ℕ) (arrays : SurfArrays K) (m : Matching K) :
    SurfArrays K × (ℕ × K) × List Access :=
  let indices := List.range featsDownSize
  let matched := (matchLoop m arrays).run arrays indices
  let counts := countLoop matched
  (matched, counts.run counts.init indices,
    ((matchLoop m arrays).outs arrays indices).flatten ++
      (counts.outs counts.init indices).flatten)

/-- The calls of the filter's update; its loop starts at minus one, and calls once at
least. -/
def updateLoop (featsDownSize : ℕ) (arrays : SurfArrays K) :
    Machine (SurfArrays K) (Matching K) (List Access) where
  init := arrays
  step := fun arrays m =>
    let (matched, _, accesses) := hShareModel featsDownSize arrays m
    (matched, accesses)

/-! ## The node with its arrays -/

/-- `max_iteration` is not negative, and gives how often the update matches again after
its first call, from the state before the step and the scan. -/
structure LogConfig (K S M : Type) where
  runtimePosLog : Bool
  firstMatching : NodeState K S M → Cloud K → Matching K
  laterMatchings : NodeState K S M → Cloud K → List (Matching K)

structure LoggedState (K S M : Type) where
  node : NodeState K S M
  timeLogCounter : ℕ
  arrays : SurfArrays K

variable {S M μ : Type} (cfg : Config K μ) (env : Env K S M) (log : LogConfig K S M)

/-- The scan a step has taken into the filter. -/
def fusedCloud : List (Action K) → Option (Cloud K)
  | [] => none
  | .fuse cloud :: _ => some cloud
  | _ :: rest => fusedCloud rest

/-- What the update and the log of a step do with the arrays. -/
def logScan (s : LoggedState K S M) (node : NodeState K S M) (cloud : Cloud K) :
    LoggedState K S M × List Access :=
  let loop := updateLoop (env.downsample cloud.points).length s.arrays
  let matchings := log.firstMatching s.node cloud :: log.laterMatchings s.node cloud
  let arrays := loop.run s.arrays matchings
  let accesses := (loop.outs s.arrays matchings).flatten
  if log.runtimePosLog then
    ({ node := node, timeLogCounter := s.timeLogCounter + 1, arrays := arrays },
      accesses ++ timeLogs.map fun array => ⟨array, s.timeLogCounter⟩)
  else ({ s with node := node, arrays := arrays }, accesses)

def loggedStep (s : LoggedState K S M) (e : Event K μ) : LoggedState K S M × List Access :=
  let (node, out) := nodeStep cfg env s.node e
  match e with
  | .standardPcl _ => ({ s with node := node }, [⟨.sPlot11, node.buf.scanCount⟩])
  | .livoxPcl _ => ({ s with node := node }, [⟨.sPlot11, node.buf.scanCount⟩])
  | .imu _ => ({ s with node := node }, [])
  | .sync =>
    match fusedCloud out.actions with
    | none => ({ s with node := node }, [])
    | some cloud => logScan env log s node cloud

/-- What `memset` leaves of `-1000.0f` in `res_last`: a float whose bytes are all `0x18`. -/
def resLastUnset : K := ratio 9967640 5070602400912917605986812821504

/-- The node from start-up. -/
def loggedNode (imu : ImuProcess K) (kf : S) (map : M) :
    Machine (LoggedState K S M) (Event K μ) (List Access) where
  init := ⟨NodeState.init imu kf map, 0, ⟨fun _ => true, fun _ => resLastUnset⟩⟩
  step := loggedStep cfg env log

def Event.isScan : Event K μ → Bool
  | .standardPcl _ => true
  | .livoxPcl _ => true
  | .imu _ => false
  | .sync => false

/-- The scan the step for `e` takes into the filter has at most as many points after
down-sampling as the arrays have entries. -/
def FitsArrays (s : LoggedState K S M) (e : Event K μ) : Prop :=
  ∀ cloud, fusedCloud (nodeStep cfg env s.node e).2.actions = some cloud →
    (env.downsample cloud.points).length ≤ 100000

/-! ## The points of a scan -/

/-- An entry for point `i` in one of the two arrays over the points. -/
def Access.ofPoint (i : ℕ) (a : Access) : Prop :=
  a.index = i ∧ (a.array = .pointSelectedSurf ∨ a.array = .resLast)

theorem Access.ofPoint.inside_iff {i : ℕ} {a : Access} (ha : a.ofPoint i) :
    a.inside ↔ i < 100000 := by
  obtain ⟨rfl, harray | harray⟩ := ha
  · rw [Access.inside, harray, GlobalArray.size]
  · rw [Access.inside, harray, GlobalArray.size]

theorem matchPoint_ofPoint (m : Matching K) (arrays : SurfArrays K) (i : ℕ) :
    ∀ a ∈ (matchPoint m arrays i).2, a.ofPoint i := by
  have htest : Access.ofPoint i ⟨.pointSelectedSurf, i⟩ := ⟨rfl, .inl rfl⟩
  have hres : Access.ofPoint i ⟨.resLast, i⟩ := ⟨rfl, .inr rfl⟩
  rw [matchPoint]
  cases m.residual i <;> split_ifs <;> simp [htest, hres]

theorem countPoint_ofPoint (arrays : SurfArrays K) (acc : ℕ × K) (i : ℕ) :
    (∀ a ∈ (countPoint arrays acc i).2, a.ofPoint i) ∧
      ⟨.pointSelectedSurf, i⟩ ∈ (countPoint arrays acc i).2 := by
  have htest : Access.ofPoint i ⟨.pointSelectedSurf, i⟩ := ⟨rfl, .inl rfl⟩
  have hres : Access.ofPoint i ⟨.resLast, i⟩ := ⟨rfl, .inr rfl⟩
  rw [countPoint]
  split_ifs <;> simp [htest, hres]

/-- One call stays inside the arrays exactly when they have an entry for every point. -/
theorem hShareModel_inside_iff (featsDownSize : ℕ) (arrays : SurfArrays K) (m : Matching K) :
    (∀ a ∈ (hShareModel featsDownSize arrays m).2.2, a.inside) ↔ featsDownSize ≤ 100000 := by
  let counts := countLoop ((matchLoop m arrays).run arrays (List.range featsDownSize))
  constructor
  · intro h
    by_contra hlarge
    -- the second loop reads the entry after the last one
    obtain ⟨acc, hout⟩ := Machine.exists_out_mem (m := counts)
      (List.mem_range.mpr (not_le.mp hlarge)) counts.init
    have hinside := h ⟨.pointSelectedSurf, 100000⟩
      (List.mem_append_right _ (List.mem_flatten.mpr ⟨_, hout, (countPoint_ofPoint _ acc _).2⟩))
    exact absurd hinside (lt_irrefl _)
  · intro hsmall a ha
    obtain ⟨i, hi, hpoint⟩ : ∃ i ∈ List.range featsDownSize, a.ofPoint i := by
      rcases List.mem_append.mp ha with ha | ha
      · obtain ⟨o, ho, hmem⟩ := List.mem_flatten.mp ha
        obtain ⟨t, i, hi, rfl⟩ := Machine.exists_of_mem_outs ho
        exact ⟨i, hi, matchPoint_ofPoint m t i a hmem⟩
      · obtain ⟨o, ho, hmem⟩ := List.mem_flatten.mp ha
        obtain ⟨acc, i, hi, rfl⟩ := Machine.exists_of_mem_outs ho
        exact ⟨i, hi, (countPoint_ofPoint _ acc i).1 a hmem⟩
    exact hpoint.inside_iff.mpr ((List.mem_range.mp hi).trans_le hsmall)

/-- However often the update calls it. -/
theorem updateLoop_inside_iff (featsDownSize : ℕ) (arrays : SurfArrays K) (m : Matching K)
    (later : List (Matching K)) :
    (∀ a ∈ ((updateLoop featsDownSize arrays).outs arrays (m :: later)).flatten, a.inside) ↔
      featsDownSize ≤ 100000 := by
  constructor
  · intro h
    refine (hShareModel_inside_iff featsDownSize arrays m).mp fun a ha => h a ?_
    exact List.mem_flatten.mpr ⟨_, List.mem_cons_self, ha⟩
  · intro hsmall a ha
    obtain ⟨o, ho, hmem⟩ := List.mem_flatten.mp ha
    obtain ⟨t, m', -, rfl⟩ := Machine.exists_of_mem_outs ho
    exact (hShareModel_inside_iff featsDownSize t m').mpr hsmall a hmem

theorem timeLogs_inside {counter : ℕ} (hcounter : counter < maxn) :
    ∀ a ∈ timeLogs.map (fun array => (⟨array, counter⟩ : Access)), a.inside := by
  intro a ha
  obtain ⟨array, harray, rfl⟩ := List.mem_map.mp ha
  have hsize : array.size = maxn := by
    revert harray
    cases array <;> decide
  rw [Access.inside, hsize]
  exact hcounter

/-! ## One step of the node -/

variable {cfg env log}

theorem nodeStep_buf (cfg : Config K μ) (env : Env K S M) (s : NodeState K S M) (e : Event K μ) :
    (nodeStep cfg env s e).1.buf = (buffers cfg).next s.buf e :=
  (mappingNode_projects cfg env s.imu s.kf s.map).next s e

theorem loggedStep_node (s : LoggedState K S M) (e : Event K μ) :
    (loggedStep cfg env log s e).1.node = (nodeStep cfg env s.node e).1 := by
  cases e with
  | standardPcl msg => rfl
  | livoxPcl msg => rfl
  | imu msg => rfl
  | sync =>
    rw [loggedStep]
    rcases nodeStep cfg env s.node (.sync : Event K μ) with ⟨node, out⟩
    cases hfused : fusedCloud out.actions with
    | none => simp only [hfused]
    | some cloud =>
      simp only [hfused, logScan]
      split_ifs <;> rfl

/-- There are never more scans waiting and logged than have arrived. -/
def LoggedState.Counted (s : LoggedState K S M) : Prop :=
  s.timeLogCounter + s.node.buf.lidarBuffer.length ≤ s.node.buf.scanCount

theorem buffers_scanCount (cfg : Config K μ) (s : State K) (e : Event K μ) :
    ((buffers cfg).next s e).scanCount = s.scanCount + if e.isScan then 1 else 0 := by
  cases e with
  | standardPcl msg => rfl
  | livoxPcl msg => rfl
  | imu msg => rfl
  | sync =>
    rw [buffers_next_sync]
    rcases syncPackages_cases s with h | ⟨h, -⟩ | ⟨h, -⟩
    · rw [h]
      rfl
    · rw [h]
      exact latched_scanCount s
    · rw [h]
      exact (popPackage_scanCount _).trans (latched_scanCount s)

theorem popPackage_lidarBuffer_length {s : State K} (hlidar : s.lidarBuffer ≠ [])
    (himu : s.imuBuffer ≠ []) :
    s.popPackage.lidarBuffer.length + 1 = s.lidarBuffer.length := by
  obtain ⟨front, rest, himu⟩ := List.exists_cons_of_ne_nil himu
  obtain ⟨scan, scans, hlidar⟩ := List.exists_cons_of_ne_nil hlidar
  rw [State.popPackage, himu, hlidar]
  rfl

/-- A callback adds one scan at most, and the timer takes one away when it delivers. -/
theorem buffers_lidarBuffer (cfg : Config K μ) (s : State K) (e : Event K μ) :
    ((buffers cfg).next s e).lidarBuffer.length ≤
      s.lidarBuffer.length + if e.isScan then 1 else 0 := by
  have hclear : ∀ curTime : K, (if s.loopBack curTime = true then [] else s.lidarBuffer).length ≤
      s.lidarBuffer.length := by
    intro curTime
    split_ifs <;> simp
  cases e with
  | standardPcl msg =>
    refine (List.length_append ..).trans_le ?_
    exact Nat.add_le_add_right (hclear _) 1
  | livoxPcl msg =>
    refine (List.length_append ..).trans_le ?_
    exact Nat.add_le_add_right (hclear _) 1
  | imu msg => exact Nat.le_refl _
  | sync =>
    rw [buffers_next_sync]
    rcases syncPackages_cases s with h | ⟨h, -⟩ | ⟨h, hlidar, himu, -⟩
    · rw [h]
      exact Nat.le_refl _
    · rw [h]
      exact (congrArg List.length (latched_lidarBuffer s)).le
    · rw [h]
      have hpop := popPackage_lidarBuffer_length (s := s.latched) (by simpa using hlidar)
        (by simpa using himu)
      rw [latched_lidarBuffer] at hpop
      exact Nat.le_of_lt (Nat.lt_of_succ_le hpop.le)

/-- A scan that reaches the filter has left the buffer. -/
theorem fused_lidarBuffer {s : NodeState K S M} {cloud : Cloud K}
    (hfused : fusedCloud (timerCallback env s).2.actions = some cloud) :
    (syncPackages s.buf).1.lidarBuffer.length + 1 = s.buf.lidarBuffer.length := by
  rcases timerCallback_cases env s with ⟨-, htimer⟩ | ⟨hdelivered, -⟩
  · rw [htimer] at hfused
    cases hfused
  · rcases syncPackages_cases s.buf with h | ⟨h, -⟩ | ⟨h, hlidar, himu, -⟩
    · rw [h] at hdelivered
      cases hdelivered
    · rw [h] at hdelivered
      cases hdelivered
    · rw [h, popPackage_lidarBuffer_length (by simpa using hlidar) (by simpa using himu),
        latched_lidarBuffer]

/-- Everything a step can do with the counter and the arrays. -/
theorem loggedStep_cases (cfg : Config K μ) (env : Env K S M) (log : LogConfig K S M)
    (s : LoggedState K S M) (e : Event K μ) :
    (e.isScan = true ∧ fusedCloud (nodeStep cfg env s.node e).2.actions = none ∧
      loggedStep cfg env log s e = ({ s with node := (nodeStep cfg env s.node e).1 },
        [⟨.sPlot11, (nodeStep cfg env s.node e).1.buf.scanCount⟩])) ∨
    (e.isScan = false ∧ fusedCloud (nodeStep cfg env s.node e).2.actions = none ∧
      loggedStep cfg env log s e = ({ s with node := (nodeStep cfg env s.node e).1 }, [])) ∨
    ∃ cloud, e = .sync ∧ fusedCloud (nodeStep cfg env s.node e).2.actions = some cloud ∧
      loggedStep cfg env log s e = logScan env log s (nodeStep cfg env s.node e).1 cloud := by
  cases e with
  | standardPcl msg => exact .inl ⟨rfl, rfl, rfl⟩
  | livoxPcl msg => exact .inl ⟨rfl, rfl, rfl⟩
  | imu msg => exact .inr (.inl ⟨rfl, rfl, rfl⟩)
  | sync =>
    rw [loggedStep]
    rcases nodeStep cfg env s.node (.sync : Event K μ) with ⟨node, out⟩
    cases hfused : fusedCloud out.actions with
    | none => exact .inr (.inl ⟨rfl, rfl, by simp only [hfused]⟩)
    | some cloud => exact .inr (.inr ⟨cloud, rfl, rfl, by simp only [hfused]⟩)

theorem logScan_node (env : Env K S M) (log : LogConfig K S M) (s : LoggedState K S M)
    (node : NodeState K S M) (cloud : Cloud K) :
    (logScan env log s node cloud).1.node = node ∧
      (logScan env log s node cloud).1.timeLogCounter ≤ s.timeLogCounter + 1 := by
  rw [logScan]
  split_ifs
  · exact ⟨rfl, Nat.le_refl _⟩
  · exact ⟨rfl, Nat.le_succ _⟩

/-- The accesses of a scan that reaches the filter. -/
theorem logScan_inside_iff {s : LoggedState K S M} (hlog : s.timeLogCounter < maxn)
    (node : NodeState K S M) (cloud : Cloud K) :
    (∀ a ∈ (logScan env log s node cloud).2, a.inside) ↔
      (env.downsample cloud.points).length ≤ 100000 := by
  have hupdate := updateLoop_inside_iff (env.downsample cloud.points).length s.arrays
    (log.firstMatching s.node cloud) (log.laterMatchings s.node cloud)
  rw [← hupdate, logScan]
  split_ifs
  · rw [List.forall_mem_append]
    exact and_iff_left (timeLogs_inside hlog)
  · exact Iff.rfl

theorem LoggedState.Counted.step {s : LoggedState K S M} (hs : s.Counted) (e : Event K μ) :
    (loggedStep cfg env log s e).1.Counted := by
  have hbuf := nodeStep_buf cfg env s.node e
  have hcount := buffers_scanCount cfg s.node.buf e
  have hlength := buffers_lidarBuffer cfg s.node.buf e
  rw [← hbuf] at hcount hlength
  rw [LoggedState.Counted] at hs ⊢
  rcases loggedStep_cases cfg env log s e with
    ⟨-, -, h⟩ | ⟨-, -, h⟩ | ⟨cloud, rfl, hfused, h⟩
  · have hsum : s.timeLogCounter + (nodeStep cfg env s.node e).1.buf.lidarBuffer.length ≤
        (nodeStep cfg env s.node e).1.buf.scanCount := by omega
    rw [h]
    exact hsum
  · have hsum : s.timeLogCounter + (nodeStep cfg env s.node e).1.buf.lidarBuffer.length ≤
        (nodeStep cfg env s.node e).1.buf.scanCount := by omega
    rw [h]
    exact hsum
  · obtain ⟨hnode, hlog⟩ := logScan_node env log s
      (nodeStep cfg env s.node (.sync : Event K μ)).1 cloud
    have hpop := fused_lidarBuffer hfused
    rw [buffers_next_sync] at hbuf
    rw [← hbuf] at hpop
    rw [h, hnode]
    omega

/-- While the counter of scans is in range, a step stays inside the arrays exactly when
the scan it takes into the filter fits them. -/
theorem loggedStep_inside_iff {s : LoggedState K S M} (hs : s.Counted) {e : Event K μ}
    (hcount : (nodeStep cfg env s.node e).1.buf.scanCount < maxn) :
    (∀ a ∈ (loggedStep cfg env log s e).2, a.inside) ↔ FitsArrays cfg env s e := by
  rcases loggedStep_cases cfg env log s e with
    ⟨-, hfused, h⟩ | ⟨-, hfused, h⟩ | ⟨cloud, rfl, hfused, h⟩
  · rw [h, FitsArrays, hfused]
    refine iff_of_true ?_ (fun cloud hcloud => by cases hcloud)
    intro a ha
    obtain rfl := List.mem_singleton.mp ha
    exact hcount
  · rw [h, FitsArrays, hfused]
    exact iff_of_true (List.forall_mem_nil _) (fun cloud hcloud => by cases hcloud)
  · have hbuf := nodeStep_buf cfg env s.node (.sync : Event K μ)
    have hscans := buffers_scanCount cfg s.node.buf (.sync : Event K μ)
    have hpop := fused_lidarBuffer hfused
    rw [← hbuf] at hscans
    have hlog : s.timeLogCounter < maxn := by
      rw [LoggedState.Counted] at hs
      rw [Event.isScan, if_neg Bool.false_ne_true] at hscans
      omega
    rw [h, logScan_inside_iff hlog, FitsArrays, hfused]
    exact ⟨fun hfits cloud hcloud => Option.some.inj hcloud ▸ hfits, fun hfits => hfits cloud rfl⟩

/-! ## Runs -/

variable {imu : ImuProcess K} {kf : S} {map : M}

theorem loggedNode_scanCount (cfg : Config K μ) (env : Env K S M) (log : LogConfig K S M)
    (imu : ImuProcess K) (kf : S) (map : M) (s : LoggedState K S M) (e : Event K μ) :
    ((loggedNode cfg env log imu kf map).next s e).node.buf.scanCount =
      s.node.buf.scanCount + if e.isScan then 1 else 0 := by
  show (loggedStep cfg env log s e).1.node.buf.scanCount = _
  rw [loggedStep_node, nodeStep_buf, buffers_scanCount]

/-- A step that stays inside the arrays leaves the counter of scans in range. -/
theorem loggedStep_scan_lt {s : LoggedState K S M} (hcount : s.node.buf.scanCount < maxn)
    {e : Event K μ}
    (hinside : ∀ a ∈ (loggedNode cfg env log imu kf map).out s e, a.inside) :
    ((loggedNode cfg env log imu kf map).next s e).node.buf.scanCount < maxn := by
  rcases loggedStep_cases cfg env log s e with
    ⟨-, -, h⟩ | ⟨hscan, -, -⟩ | ⟨cloud, rfl, -, -⟩
  · have hwrite : (⟨.sPlot11, (nodeStep cfg env s.node e).1.buf.scanCount⟩ : Access).inside := by
      refine hinside _ ?_
      show _ ∈ (loggedStep cfg env log s e).2
      rw [h]
      exact List.mem_singleton_self _
    show (loggedStep cfg env log s e).1.node.buf.scanCount < maxn
    rw [loggedStep_node]
    exact hwrite
  · rw [loggedNode_scanCount, hscan]
    exact hcount
  · rw [loggedNode_scanCount]
    exact hcount

/-- From any state whose counters are in order. -/
theorem run_inside_iff {s : LoggedState K S M} (hs : s.Counted)
    (hcount : s.node.buf.scanCount < maxn) (events : List (Event K μ)) :
    (∀ o ∈ (loggedNode cfg env log imu kf map).outs s events, ∀ a ∈ o, a.inside) ↔
      s.node.buf.scanCount + events.countP Event.isScan < maxn ∧
        (loggedNode cfg env log imu kf map).Along (FitsArrays cfg env) s events := by
  induction events generalizing s with
  | nil => exact iff_of_true (List.forall_mem_nil _) ⟨hcount, trivial⟩
  | cons e events ih =>
    have hnext := loggedNode_scanCount cfg env log imu kf map s e
    rw [Machine.outs_cons, List.forall_mem_cons, List.countP_cons, Machine.Along]
    by_cases hinside : ((loggedNode cfg env log imu kf map).next s e).node.buf.scanCount < maxn
    · have hstep : (∀ a ∈ (loggedNode cfg env log imu kf map).out s e, a.inside) ↔
          FitsArrays cfg env s e := by
        refine loggedStep_inside_iff hs ?_
        rw [nodeStep_buf, buffers_scanCount, ← hnext]
        exact hinside
      have hcounted : ((loggedNode cfg env log imu kf map).next s e).Counted := hs.step e
      rw [hstep, ih hcounted hinside, hnext]
      have hsum : s.node.buf.scanCount + (if e.isScan = true then 1 else 0) +
          events.countP Event.isScan =
        s.node.buf.scanCount + (events.countP Event.isScan +
          if e.isScan = true then 1 else 0) := by omega
      rw [hsum]
      exact and_left_comm
    · -- the callback of this scan writes after the end of `s_plot11`
      refine iff_of_false (fun h => hinside (loggedStep_scan_lt hcount h.1)) ?_
      rintro ⟨hsum, -⟩
      rw [hnext] at hinside
      omega

/-- No access of a run is outside its array exactly when the run has fewer than `MAXN`
scans, and every scan taken into the filter fits the arrays over its points. -/
theorem loggedNode_inside_iff (cfg : Config K μ) (env : Env K S M) (log : LogConfig K S M)
    (imu : ImuProcess K) (kf : S) (map : M) (events : List (Event K μ)) :
    (∀ o ∈ (loggedNode cfg env log imu kf map).outs (loggedNode cfg env log imu kf map).init
      events, ∀ a ∈ o, a.inside) ↔
      events.countP Event.isScan < maxn ∧ (loggedNode cfg env log imu kf map).Along
        (FitsArrays cfg env) (loggedNode cfg env log imu kf map).init events := by
  have hinit : (loggedNode cfg env log imu kf map).init.Counted := Nat.le_refl 0
  refine (run_inside_iff hinit (show 0 < maxn by decide) events).trans ?_
  show 0 + _ < _ ∧ _ ↔ _
  rw [Nat.zero_add]

/-- A node at rest, with no points and no search. -/
def quietNode : Machine (LoggedState ℚ Unit (List (Point ℚ))) (Event ℚ (List (Point ℚ)))
    (List Access) :=
  loggedNode plainConfig stillEnv
    { runtimePosLog := false
      firstMatching := fun _ _ => ⟨true, fun _ => false, fun _ => none⟩
      laterMatchings := fun _ _ => [] }
    (.create ⟨1, 1, 1⟩ ⟨1, 1, 1⟩ ⟨0, 0, 0⟩ 0) () []

/-- `MAXN` scans without a point: ten a second for twenty hours. -/
def emptyScans : List (Event ℚ (List (Point ℚ))) :=
  List.replicate maxn (.standardPcl ⟨⟨0, 0⟩, []⟩)

theorem emptyScans_outside :
    ¬ ∀ o ∈ quietNode.outs quietNode.init emptyScans, ∀ a ∈ o, a.inside := by
  intro h
  have hinit : quietNode.init.Counted := Nat.le_refl 0
  have hscans := ((run_inside_iff hinit (show 0 < maxn by decide) emptyScans).mp h).1
  rw [emptyScans, List.countP_replicate] at hscans
  exact absurd hscans (lt_irrefl maxn)

end LaserMapping
end RobotNav
