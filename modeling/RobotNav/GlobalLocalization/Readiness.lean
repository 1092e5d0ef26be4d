/-
When the filtered estimate may be read.

The thread sets `loc_initialized_` before its main loop assigns
`mat_odom2map_kalman_` for the first time, with two `continue`s in between, and the
callback for odometry reads the matrix as soon as the flag is set.
-/
import RobotNav.GlobalLocalization.InitialPose

namespace RobotNav
namespace GlobalLocalization

variable {K : Type} [Field K] [LinearOrder K] [FloorRing K]

/-! ## Matrices nobody has assigned -/

/-- What is published depends on no matrix that nobody has assigned. -/
def Output.ReadsWritten : Output K → Prop
  | .published messages =>
    messages.odom2mapKalman ≠ some none ∧ messages.baselink2mapKalman ≠ some none
  | _ => True

/-- Nothing published and no filter state is computed from an unwritten matrix. -/
structure ReadsOnlyWritten (os : List (Output K)) (s : State K) : Prop where
  published : ∀ o ∈ os, o.ReadsWritten
  filter : s.kfBaselinkZ ≠ none

/-- The matrix is there in every state in which the flag is set. -/
def HoldsOnceInitialized (cfg : Config K) (sqrt : K → K) (unset : Matrix4d K)
    (es : List (Event K)) : Prop :=
  ∀ before, before <+: es →
    ((node cfg sqrt unset).run (.init cfg unset) before).locInitialized = true →
    ((node cfg sqrt unset).run (.init cfg unset) before).matOdom2mapKalman ≠ none

/-- No odometry callback runs between the assignment of the flag and the first pass
of the main loop that gets past both `continue`s. -/
def WaitsForFirstPass (s : State K) (e : Event K) : Prop :=
  match e with
  | .odometry _ _ => s.free = true → s.locInitialized = true → s.passes ≠ 0
  | _ => True

instance (s : State K) (e : Event K) : Decidable (WaitsForFirstPass s e) :=
  match e with
  | .odometry _ _ => inferInstanceAs (Decidable (_ → _))
  | .scan _ => isTrue trivial
  | .initialPose _ => isTrue trivial
  | .initialPoseNext => isTrue trivial
  | .thread _ _ => isTrue trivial

/-! ## The phases of the thread -/

/-- Past the assignment of the flag. -/
def Stage.main : Stage K → Bool
  | .readStart => true
  | .stamp _ => true
  | .scan _ => true
  | .register _ _ => true
  | _ => false

structure Phases (s : State K) : Prop where
  flag : s.locInitialized = s.stage.main
  passes : s.locInitialized = false → s.passes = 0
  kalman : s.matOdom2mapKalman = none ↔ s.passes = 0

variable {cfg : Config K} {sqrt : K → K} {unset : Matrix4d K}

theorem phases_init (cfg : Config K) (unset : Matrix4d K) : Phases (.init cfg unset) :=
  ⟨rfl, fun _ => rfl, iff_of_true rfl rfl⟩

/-- A step that assigns to none of the three and stays on its side of the flag. -/
structure SamePhase (s s' : State K) : Prop where
  locInitialized : s'.locInitialized = s.locInitialized
  matOdom2mapKalman : s'.matOdom2mapKalman = s.matOdom2mapKalman
  passes : s'.passes = s.passes
  main : s'.stage.main = s.stage.main

/-- Such a step of the thread, which also spoils no filter. -/
structure SameFilter (s s' : State K) : Prop extends SamePhase s s' where
  filter : s.kfBaselinkZ ≠ none → s'.kfBaselinkZ ≠ none

omit [LinearOrder K] [FloorRing K] in
theorem SameFilter.refl (s : State K) : SameFilter s s := ⟨⟨rfl, rfl, rfl, rfl⟩, id⟩

omit [LinearOrder K] [FloorRing K] in
theorem SameFilter.move {s : State K} {stage : Stage K} (hmain : stage.main = s.stage.main)
    (estimate : Matrix4d K) (fitness : K) :
    SameFilter s { s with matOdom2map := estimate, locFitness := fitness, stage := stage } :=
  ⟨⟨rfl, rfl, rfl, hmain⟩, id⟩

theorem sameFilter_kalmanInit {s : State K} (hstage : s.stage = .kalmanInit) :
    SameFilter s (s.kalmanInit cfg) := by
  have hmain : Stage.main (.setInitialized : Stage K) = s.stage.main := by
    rw [hstage]
    rfl
  unfold State.kalmanInit
  dsimp only
  split_ifs
  · refine ⟨⟨rfl, rfl, rfl, hmain⟩, fun hfilter => ?_⟩
    rw [Ne, Option.map_eq_none_iff]
    exact hfilter
  · exact ⟨⟨rfl, rfl, rfl, hmain⟩, id⟩

variable (cfg sqrt) in
/-- Everything the thread does to the flag and the filtered estimate. -/
theorem threadStep_phase (s : State K) (icp : Matrix4d K) (fitness : K) :
    SameFilter s (s.threadStep cfg sqrt icp fitness).1 ∨
    (s.stage = .setInitialized ∧ (s.threadStep cfg sqrt icp fitness).1 =
      { s with locInitialized := true, stage := .readStart }) ∨
    ∃ timeLast, s.stage = .scan timeLast ∧
      (s.threadStep cfg sqrt icp fitness).1 = s.mainScan cfg sqrt timeLast := by
  have hmove {stage : Stage K} (hmain : stage.main = s.stage.main) :=
    SameFilter.move hmain s.matOdom2map s.locFitness
  unfold State.threadStep
  cases hstage : s.stage with
  | setInitialized => exact .inr (.inl ⟨rfl, rfl⟩)
  | scan timeLast =>
    dsimp only
    split_ifs
    · exact .inl (hmove (by rw [hstage]; rfl))
    · exact .inr (.inr ⟨timeLast, rfl, rfl⟩)
  | kalmanInit => exact .inl (sameFilter_kalmanInit hstage)
  | waitOdom =>
    left
    dsimp only
    split_ifs
    · exact .refl s
    · exact hmove (by rw [hstage]; rfl)
  | waitScan =>
    left
    dsimp only
    split_ifs
    · exact .refl s
    · exact hmove (by rw [hstage]; rfl)
  | initScan countSuccess =>
    left
    dsimp only
    split_ifs
    · exact .refl s
    · exact hmove (by rw [hstage]; rfl)
  | startPose => exact .inl (.move (by rw [hstage]; rfl) _ _)
  | readStart => exact .inl (hmove (by rw [hstage]; rfl))
  | stamp timeLast =>
    left
    dsimp only
    split_ifs <;> exact hmove (by rw [hstage]; rfl)
  | initRegister countSuccess cur =>
    left
    refine .move ?_ _ _
    rw [hstage]
    split_ifs <;> rfl
  | register timeLast cur => exact .inl (.move (by rw [hstage]; rfl) _ _)

omit [LinearOrder K] [FloorRing K] in
theorem Phases.same {s s' : State K} (hs : Phases s) (hsame : SamePhase s s') : Phases s' := by
  constructor
  · rw [hsame.locInitialized, hsame.main]
    exact hs.flag
  · rw [hsame.locInitialized, hsame.passes]
    exact hs.passes
  · rw [hsame.matOdom2mapKalman, hsame.passes]
    exact hs.kalman

theorem Phases.mainScan {s : State K} (hfilter : cfg.filterOdom2map = true) (hs : Phases s)
    {timeLast : K} (hstage : s.stage = .scan timeLast) :
    Phases (s.mainScan cfg sqrt timeLast) := by
  have hflag : s.locInitialized = true := by
    rw [hs.flag, hstage]
    rfl
  have hset : ¬ s.locInitialized = false := by
    rw [hflag]
    exact Bool.true_eq_false.mp
  unfold State.mainScan
  simp only [if_pos hfilter]
  split_ifs <;> exact ⟨hflag, fun h => absurd h hset,
    iff_of_false (Option.some_ne_none _) (Nat.succ_ne_zero _)⟩

omit [LinearOrder K] [FloorRing K] in
theorem samePhase_callback {s s' : State K} (hkeeps : CallbackKeeps s s') : SamePhase s s' :=
  ⟨hkeeps.locInitialized, hkeeps.matOdom2mapKalman, hkeeps.passes,
    congrArg Stage.main hkeeps.stage⟩

variable (cfg sqrt) in
/-- Everything a step does to the flag and the filtered estimate. -/
theorem nodeStep_phase (s : State K) (e : Event K) :
    SamePhase s (nodeStep cfg sqrt s e).1 ∨
    (s.stage = .setInitialized ∧ (nodeStep cfg sqrt s e).1 =
      { s with locInitialized := true, stage := .readStart }) ∨
    ∃ timeLast, s.stage = .scan timeLast ∧
      (nodeStep cfg sqrt s e).1 = s.mainScan cfg sqrt timeLast := by
  have hsame : SamePhase s s := ⟨rfl, rfl, rfl, rfl⟩
  cases e with
  | odometry stamp pose =>
    left
    simp only [nodeStep]
    split_ifs
    · exact samePhase_callback (callbackBaselink2Odom_keeps cfg s stamp pose)
    · exact hsame
  | scan points =>
    left
    simp only [nodeStep]
    split_ifs
    · exact samePhase_callback (callbackScan_keeps cfg s points)
    · exact hsame
  | initialPose pose =>
    left
    simp only [nodeStep]
    split_ifs
    · exact samePhase_callback (callbackInitialPose_keeps s pose)
    · exact hsame
  | initialPoseNext => exact .inl (samePhase_callback (callbackInitialPoseNext_keeps s))
  | thread icp fitness =>
    rcases threadStep_phase cfg sqrt s icp fitness with hkept | hset | hscan
    · exact .inl hkept.toSamePhase
    · exact .inr (.inl hset)
    · exact .inr (.inr hscan)

theorem Phases.step {s : State K} (hfilter : cfg.filterOdom2map = true) (hs : Phases s)
    (e : Event K) : Phases (nodeStep cfg sqrt s e).1 := by
  rcases nodeStep_phase cfg sqrt s e with
    hsame | ⟨hstage, hset⟩ | ⟨timeLast, hstage, hscan⟩
  · exact hs.same hsame
  · have hunset : s.locInitialized = false := by
      rw [hs.flag, hstage]
      rfl
    rw [hset]
    exact ⟨rfl, fun _ => hs.passes hunset, hs.kalman⟩
  · rw [hscan]
    exact hs.mainScan hfilter hstage

/-- The flag is set before the matrix is. -/
theorem Phases.set_unwritten {s : State K} (hs : Phases s) {e : Event K}
    (hunset : s.locInitialized = false)
    (hset : (nodeStep cfg sqrt s e).1.locInitialized = true) :
    (nodeStep cfg sqrt s e).1.matOdom2mapKalman = none := by
  rcases nodeStep_phase cfg sqrt s e with
    hsame | ⟨-, hstep⟩ | ⟨timeLast, hstage, -⟩
  · rw [hsame.locInitialized, hunset] at hset
    cases hset
  · rw [hstep]
    exact hs.kalman.mpr (hs.passes hunset)
  · have hmain : s.locInitialized = true := by
      rw [hs.flag, hstage]
      rfl
    rw [hunset] at hmain
    cases hmain

/-- Nobody takes the flag back. -/
theorem stays_set {s : State K} {e : Event K} (hset : s.locInitialized = true) :
    (nodeStep cfg sqrt s e).1.locInitialized = true := by
  rcases nodeStep_phase cfg sqrt s e with
    hsame | ⟨-, hstep⟩ | ⟨timeLast, -, hscan⟩
  · rw [hsame.locInitialized, hset]
  · rw [hstep]
  · rw [hscan]
    unfold State.mainScan
    dsimp only
    split_ifs <;> exact hset

/-! ## The filter state -/

/-- Once the first pass has assigned the matrix, the callback reads what is there. -/
theorem callback_reads {s : State K} (hfilter : cfg.filterOdom2map = true) (hs : Phases s)
    (hz : s.kfBaselinkZ ≠ none) (hpass : s.locInitialized = true → s.passes ≠ 0) (stamp : K)
    (pose : RigidMotion K) :
    (Output.published (s.callbackBaselink2Odom cfg stamp pose).2).ReadsWritten ∧
      (s.callbackBaselink2Odom cfg stamp pose).1.kfBaselinkZ ≠ none := by
  simp only [State.callbackBaselink2Odom, if_pos hfilter]
  split_ifs with hset
  · have hwritten : s.matOdom2mapKalman ≠ none := mt hs.kalman.mp (hpass hset)
    obtain ⟨kalman, hkalman⟩ := Option.ne_none_iff_exists'.mp hwritten
    obtain ⟨f, hf⟩ := Option.ne_none_iff_exists'.mp hz
    rw [hkalman, hf]
    exact ⟨⟨by simp, by simp⟩, by simp⟩
  · exact ⟨⟨by simp, by simp⟩, hz⟩

/-- Before that pass it publishes the unwritten matrix. -/
theorem callback_reads_unwritten {s : State K} (hfilter : cfg.filterOdom2map = true)
    (hs : Phases s) (hset : s.locInitialized = true) (hpass : s.passes = 0) (stamp : K)
    (pose : RigidMotion K) :
    ¬ (Output.published (s.callbackBaselink2Odom cfg stamp pose).2).ReadsWritten := by
  intro hreads
  have hunwritten := hs.kalman.mpr hpass
  simp only [State.callbackBaselink2Odom, if_pos hfilter, if_pos hset] at hreads
  exact hreads.1 (congrArg some hunwritten)

structure Sound (s : State K) : Prop where
  phases : Phases s
  filter : s.kfBaselinkZ ≠ none

theorem Sound.step {s : State K} (hfilter : cfg.filterOdom2map = true) (hs : Sound s)
    {e : Event K} (hwaits : WaitsForFirstPass s e) :
    (nodeStep cfg sqrt s e).2.ReadsWritten ∧ Sound (nodeStep cfg sqrt s e).1 := by
  have hphases : Phases (nodeStep cfg sqrt s e).1 := hs.phases.step hfilter e
  suffices hreads : (nodeStep cfg sqrt s e).2.ReadsWritten ∧
      (nodeStep cfg sqrt s e).1.kfBaselinkZ ≠ none from ⟨hreads.1, hphases, hreads.2⟩
  have hz := hs.filter
  cases e with
  | odometry stamp pose =>
    simp only [nodeStep]
    split_ifs with hfree
    · exact callback_reads hfilter hs.phases hz (hwaits hfree) stamp pose
    · exact ⟨trivial, hz⟩
  | scan points =>
    simp only [nodeStep, State.callbackScan]
    split_ifs <;> exact ⟨trivial, hz⟩
  | initialPose pose =>
    simp only [nodeStep, State.callbackInitialPose]
    split_ifs <;> exact ⟨trivial, hz⟩
  | initialPoseNext =>
    simp only [nodeStep, State.callbackInitialPoseNext]
    cases s.poseWrite <;> exact ⟨trivial, hz⟩
  | thread icp fitness =>
    show (s.threadStep cfg sqrt icp fitness).2.ReadsWritten ∧
      (s.threadStep cfg sqrt icp fitness).1.kfBaselinkZ ≠ none
    constructor
    · rcases threadStep_out cfg sqrt s icp fitness with
        ⟨_, _, -, hout⟩ | ⟨_, _, -, hout⟩ | ⟨-, hout⟩ <;> rw [hout] <;> trivial
    · rcases threadStep_phase cfg sqrt s icp fitness with
        hsame | ⟨-, hset⟩ | ⟨timeLast, -, hscan⟩
      · exact hsame.filter hz
      · rw [hset]
        exact hz
      · rw [hscan, State.mainScan]
        simp only [if_pos hfilter]
        split_ifs <;> exact hz

/-! ## Whole runs -/

theorem phases_run (hfilter : cfg.filterOdom2map = true) (es : List (Event K)) :
    Phases ((node cfg sqrt unset).run (.init cfg unset) es) :=
  Machine.run_invariant (fun _ e hs => hs.step hfilter e) (phases_init cfg unset) es

/-- Once the flag is set in a run, some state on the way has the flag and no
matrix. -/
theorem Phases.passes_unwritten {s : State K} (hfilter : cfg.filterOdom2map = true)
    (hs : Phases s) {es : List (Event K)} (hunset : s.locInitialized = false)
    (hset : ((node cfg sqrt unset).run s es).locInitialized = true) :
    ∃ before, before <+: es ∧ ((node cfg sqrt unset).run s before).locInitialized = true ∧
      ((node cfg sqrt unset).run s before).matOdom2mapKalman = none := by
  induction es generalizing s with
  | nil =>
    rw [Machine.run_nil, hunset] at hset
    cases hset
  | cons e rest ih =>
    cases hnext : ((node cfg sqrt unset).next s e).locInitialized with
    | true =>
      exact ⟨[e], List.prefix_append [e] rest, hnext, hs.set_unwritten hunset hnext⟩
    | false =>
      obtain ⟨before, hprefix, hfound⟩ := ih (hs.step hfilter e) hnext hset
      exact ⟨e :: before, List.cons_prefix_cons.mpr ⟨rfl, hprefix⟩, hfound⟩

/-- Every interleaving: what is read is written exactly when no odometry callback
falls between the flag and the first pass, and a state with the flag and without
the matrix is reached whenever the flag is set. -/
theorem readsOnlyWritten_iff (cfg : Config K) (sqrt : K → K) (unset : Matrix4d K)
    (es : List (Event K)) (hfilter : cfg.filterOdom2map = true) :
    (ReadsOnlyWritten ((node cfg sqrt unset).outs (.init cfg unset) es)
        ((node cfg sqrt unset).run (.init cfg unset) es) ↔
      (node cfg sqrt unset).Along WaitsForFirstPass (.init cfg unset) es) ∧
    (HoldsOnceInitialized cfg sqrt unset es ↔
      ((node cfg sqrt unset).run (.init cfg unset) es).locInitialized = false) := by
  have hinit := phases_init cfg unset
  constructor
  · constructor
    · intro hreads
      rw [Machine.along_iff]
      intro before e after hes
      have hs : Phases ((node cfg sqrt unset).run (.init cfg unset) before) :=
        phases_run hfilter before
      have hout :=
        (Machine.along_iff.mp (Machine.outs_forall.mp hreads.published)) before e after hes
      cases e with
      | odometry stamp pose =>
        intro hfree hset hpass
        apply callback_reads_unwritten hfilter hs hset hpass stamp pose
        replace hout : (nodeStep cfg sqrt ((node cfg sqrt unset).run (.init cfg unset) before)
          (.odometry stamp pose)).2.ReadsWritten := hout
        simp only [nodeStep, if_pos hfree] at hout
        exact hout
      | _ => trivial
    · intro hwaits
      have hstart : Sound (.init cfg unset) := ⟨hinit, Option.some_ne_none _⟩
      have hstep (s : State K) (e : Event K) (hs : Sound s) (hwait : WaitsForFirstPass s e) :
          (nodeStep cfg sqrt s e).2.ReadsWritten ∧ Sound (nodeStep cfg sqrt s e).1 :=
        hs.step hfilter hwait
      constructor
      · refine Machine.outs_forall.mpr ?_
        exact Machine.along_of_invariant (m := node cfg sqrt unset)
          (fun s e hs hwait => (hstep s e hs hwait).2) (fun s e hs hwait => (hstep s e hs hwait).1)
          hstart hwaits
      · exact (Machine.run_along (m := node cfg sqrt unset)
          (fun s e hs hwait => (hstep s e hs hwait).2) hstart hwaits).filter
  · constructor
    · intro hholds
      by_contra hset
      obtain ⟨before, hprefix, hflag, hnone⟩ :=
        hinit.passes_unwritten hfilter rfl (Bool.eq_true_of_not_eq_false hset)
      exact hholds before hprefix hflag hnone
    · intro hunset before hprefix hset
      obtain ⟨rest, rfl⟩ := hprefix
      have hstays := Machine.run_invariant (m := node cfg sqrt unset)
        (I := fun s => s.locInitialized = true) (fun _ _ => stays_set) hset rest
      rw [Machine.run_append, hstays] at hunset
      cases hunset

/-! ## An odometry message right after the flag -/

/-- One odometry message and a scan, some sections of the thread, and another
odometry message. -/
def sections (n : ℕ) : List (Event ℚ) :=
  [.odometry 1 ⟨1, ![0, 0, -5000]⟩, .scan 1, .scan 1] ++ List.replicate n (.thread 1 1) ++
    [.odometry 2 ⟨1, ![0, 0, -5000]⟩]

/-- The second message comes after the first pass. -/
theorem readsOnlyWritten_iff_afterPass :
    (ReadsOnlyWritten ((node awayConfig id 0).outs (.init awayConfig 0) (sections 12))
        ((node awayConfig id 0).run (.init awayConfig 0) (sections 12)) ↔
      (node awayConfig id 0).Along WaitsForFirstPass (.init awayConfig 0) (sections 12)) ∧
    (HoldsOnceInitialized awayConfig id 0 (sections 12) ↔
      ((node awayConfig id 0).run (.init awayConfig 0) (sections 12)).locInitialized = false) :=
  readsOnlyWritten_iff awayConfig id 0 (sections 12) rfl

example : (node awayConfig id 0).Along WaitsForFirstPass (.init awayConfig 0) (sections 12) := by
  decide +kernel

/-- The second message comes between the flag and the first pass. -/
theorem early_odometry_reads_unwritten :
    ¬ ReadsOnlyWritten ((node awayConfig id 0).outs (.init awayConfig 0) (sections 9))
        ((node awayConfig id 0).run (.init awayConfig 0) (sections 9)) ∧
    ¬ HoldsOnceInitialized awayConfig id 0 (sections 9) := by
  constructor
  · intro hreads
    apply hreads.filter
    decide +kernel
  · intro hholds
    apply hholds (sections 9) List.prefix_rfl
    · decide +kernel
    · decide +kernel

end GlobalLocalization
end RobotNav
