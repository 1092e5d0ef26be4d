/-
Initial poses: none is lost, as long as the start pose is the accepted one.

The callback writes `mat_initialpose_` in two statements before it takes the lock,
and `Localization` assigns `mat_initialpose_` to the estimate without the lock.
Everything else that writes the estimate holds the lock from its read to its write.
-/
import RobotNav.GlobalLocalization.Submap

namespace RobotNav
namespace GlobalLocalization

open Matrix

variable {K : Type} [Field K] [LinearOrder K] [FloorRing K]

/-! ## Accepted poses and the estimate -/

/-- Neither an acceptance nor a registration. -/
def Output.Other : Output K → Prop
  | .accepted _ => False
  | .registered _ => False
  | _ => True

/-- The first registration after an acceptance, if no later pose was accepted
before it, starts from the accepted pose. -/
def KeepsAccepted (os : List (Output K)) : Prop :=
  ∀ before pose between r after,
    os = before ++ .accepted pose :: (between ++ .registered r :: after) →
    (∀ o ∈ between, o.Other) → r.regMatrix = pose.homogeneous

/-- What a step may make of the estimate. -/
inductive MayBecome (cfg : Config K) (s : State K) : Event K → Matrix4d K → Prop where
  | same (e : Event K) : MayBecome cfg s e s.matOdom2map
  | accepted (pose : RigidMotion K) (hwritten : s.poseWrite = .written pose) :
    MayBecome cfg s .initialPoseNext pose.homogeneous
  | startPose (icp : Matrix4d K) (fitness : K) (hstage : s.stage = .startPose) :
    MayBecome cfg s (.thread icp fitness) s.matInitialpose
  | initialized (icp : Matrix4d K) (fitness : K) {countSuccess : ℕ} {cur : Current K}
    (hstage : s.stage = .initRegister countSuccess cur) :
    MayBecome cfg s (.thread icp fitness) (icp * s.matOdom2map)
  | registered (icp : Matrix4d K) (fitness : K) {timeLast : K} {cur : Current K}
    (hstage : s.stage = .register timeLast cur) (hfitness : cfg.thresholdFitness < fitness) :
    MayBecome cfg s (.thread icp fitness) (icp * s.matOdom2map)

/-- `mat_initialpose_` holds the pose accepted last: the callback is not between its
first write and its assignment under the lock.  After the second write the pose is
whole, but not accepted yet. -/
def PoseWrite.Settled : PoseWrite K → Prop
  | .idle => True
  | .accepted _ => True
  | .rotated _ => False
  | .written _ => False

instance (w : PoseWrite K) : Decidable w.Settled :=
  match w with
  | .idle => isTrue trivial
  | .accepted _ => isTrue trivial
  | .rotated _ => isFalse id
  | .written _ => isFalse id

def Stage.isStartPose : Stage K → Bool
  | .startPose => true
  | _ => false

def Event.isThread : Event K → Bool
  | .thread _ _ => true
  | _ => false

/-- The start pose is not assigned while the callback writes it. -/
def StartsSettled (s : State K) (e : Event K) : Prop :=
  (s.stage.isStartPose && e.isThread) = true → s.poseWrite.Settled

instance (s : State K) (e : Event K) : Decidable (StartsSettled s e) :=
  inferInstanceAs (Decidable (_ → _))

/-! ## The pose the callback writes -/

/-- The blocks of `mat_initialpose_` the callback has written so far, and the row
nobody writes. -/
structure PoseWritten (s : State K) : Prop where
  row : s.matInitialpose.toBlocks₂₁ = 0 ∧ s.matInitialpose.toBlocks₂₂ = 1
  rotated : ∀ pose, s.poseWrite = .rotated pose → s.matInitialpose.toBlocks₁₁ = pose.rotation.1
  written : ∀ pose, s.poseWrite = .written pose → s.matInitialpose = pose.homogeneous

variable {cfg : Config K} {sqrt : K → K}

theorem poseWritten_init (cfg : Config K) (unset : Matrix4d K) :
    PoseWritten (.init cfg unset) where
  row := ⟨toBlocks_fromBlocks₂₁ _ _ _ _, toBlocks_fromBlocks₂₂ _ _ _ _⟩
  rotated := fun _ h => nomatch h
  written := fun _ h => nomatch h

omit [LinearOrder K] [FloorRing K] in
theorem PoseWritten.of_eq {s s' : State K} (hs : PoseWritten s)
    (hpose : s'.matInitialpose = s.matInitialpose) (hwrite : s'.poseWrite = s.poseWrite) :
    PoseWritten s' := by
  constructor
  · rw [hpose]
    exact hs.row
  · rw [hpose, hwrite]
    exact hs.rotated
  · rw [hpose, hwrite]
    exact hs.written

omit [LinearOrder K] [FloorRing K] in
theorem PoseWritten.next {s : State K} (hs : PoseWritten s) :
    PoseWritten s.callbackInitialPoseNext.1 := by
  unfold State.callbackInitialPoseNext
  cases hwrite : s.poseWrite with
  | idle => exact hs
  | accepted pose =>
    constructor
    · rw [toBlocks_fromBlocks₂₁, toBlocks_fromBlocks₂₂]
      exact hs.row
    · intro pose' h
      cases h
      exact toBlocks_fromBlocks₁₁ _ _ _ _
    · intro pose' h
      cases h
  | rotated pose =>
    constructor
    · rw [toBlocks_fromBlocks₂₁, toBlocks_fromBlocks₂₂]
      exact hs.row
    · intro pose' h
      cases h
    · intro pose' h
      cases h
      show fromBlocks _ _ _ _ = _
      rw [hs.rotated pose hwrite, hs.row.1, hs.row.2]
      rfl
  | written pose =>
    constructor
    · exact hs.row
    · intro pose' h
      cases h
    · intro pose' h
      cases h

theorem PoseWritten.step {s : State K} (hs : PoseWritten s) (e : Event K) :
    PoseWritten (nodeStep cfg sqrt s e).1 := by
  cases e with
  | odometry stamp pose =>
    simp only [nodeStep, State.callbackBaselink2Odom]
    split_ifs <;> exact hs.of_eq rfl rfl
  | scan points =>
    simp only [nodeStep, State.callbackScan]
    split_ifs <;> exact hs.of_eq rfl rfl
  | initialPose pose =>
    simp only [nodeStep, State.callbackInitialPose]
    split_ifs
    · exact hs
    · refine ⟨hs.row, ?_, ?_⟩
      · intro pose' h
        cases h
      · intro pose' h
        cases h
    · exact hs
  | initialPoseNext => exact hs.next
  | thread icp fitness =>
    have hkeeps := threadStep_keeps cfg sqrt s icp fitness
    exact hs.of_eq hkeeps.matInitialpose hkeeps.poseWrite

/-! ## Who changes the estimate -/

theorem mayBecome_step {s : State K} (hs : PoseWritten s) (e : Event K) :
    MayBecome cfg s e (nodeStep cfg sqrt s e).1.matOdom2map := by
  cases e with
  | odometry stamp pose =>
    simp only [nodeStep, State.callbackBaselink2Odom]
    split_ifs <;> exact .same _
  | scan points =>
    simp only [nodeStep, State.callbackScan]
    split_ifs <;> exact .same _
  | initialPose pose =>
    simp only [nodeStep, State.callbackInitialPose]
    split_ifs <;> exact .same _
  | initialPoseNext =>
    simp only [nodeStep, State.callbackInitialPoseNext]
    cases hwrite : s.poseWrite with
    | written pose =>
      have hbecomes : MayBecome cfg s .initialPoseNext pose.homogeneous := .accepted pose hwrite
      rw [← hs.written pose hwrite] at hbecomes
      exact hbecomes
    | _ => exact .same _
  | thread icp fitness =>
    simp only [nodeStep, State.threadStep]
    cases hstage : s.stage with
    | startPose => exact .startPose icp fitness hstage
    | initRegister countSuccess cur => exact .initialized icp fitness hstage
    | register timeLast cur =>
      dsimp only
      split_ifs with hfitness
      · exact .registered icp fitness hstage hfitness
      · exact .same _
    | kalmanInit =>
      simp only [State.kalmanInit]
      split_ifs <;> exact .same _
    | scan timeLast =>
      simp only [State.mainScan]
      split_ifs <;> exact .same _
    | setInitialized => exact .same _
    | readStart => exact .same _
    | _ =>
      dsimp only
      split_ifs <;> exact .same _

/-! ## The accepted pose until it is read -/

/-- The estimate is the pose, and so is the start pose if nobody writes it. -/
structure Installed (pose : Matrix4d K) (s : State K) : Prop where
  estimate : s.matOdom2map = pose
  startPose : s.poseWrite.Settled → s.matInitialpose = pose

theorem installed_of_accepted {s : State K} (hs : PoseWritten s) {e : Event K}
    {pose : RigidMotion K} (hout : (nodeStep cfg sqrt s e).2 = .accepted pose) :
    Installed pose.homogeneous (nodeStep cfg sqrt s e).1 := by
  cases e with
  | initialPoseNext =>
    simp only [nodeStep, State.callbackInitialPoseNext] at hout ⊢
    cases hwrite : s.poseWrite with
    | written pose' =>
      rw [hwrite] at hout
      cases hout
      have hpose := hs.written pose hwrite
      exact ⟨hpose, fun _ => hpose⟩
    | _ =>
      rw [hwrite] at hout
      cases hout
  | odometry stamp pose' =>
    simp only [nodeStep] at hout
    split_ifs at hout
  | scan points => cases hout
  | initialPose pose' => cases hout
  | thread icp fitness =>
    rcases threadStep_out cfg sqrt s icp fitness with
      ⟨_, _, -, hshow⟩ | ⟨_, _, -, hshow⟩ | ⟨-, hshow⟩ <;>
      cases hshow.symm.trans hout

theorem Installed.thread {pose : Matrix4d K} {s : State K} (hs : Installed pose s)
    (hwritten : PoseWritten s) (icp : Matrix4d K) (fitness : K)
    (hsettled : StartsSettled s (.thread icp fitness))
    (hother : (s.threadStep cfg sqrt icp fitness).2.Other) :
    Installed pose (s.threadStep cfg sqrt icp fitness).1 := by
  have hkeeps := threadStep_keeps cfg sqrt s icp fitness
  have hestimate : (s.threadStep cfg sqrt icp fitness).1.matOdom2map = pose := by
    have hbecomes : MayBecome cfg s (.thread icp fitness)
      (s.threadStep cfg sqrt icp fitness).1.matOdom2map := mayBecome_step hwritten _
    generalize (s.threadStep cfg sqrt icp fitness).1.matOdom2map = estimate at hbecomes
    cases hbecomes with
    | same => exact hs.estimate
    | startPose _ _ hstage =>
      apply hs.startPose
      apply hsettled
      rw [hstage]
      rfl
    | initialized _ _ hstage =>
      simp only [State.threadStep, hstage] at hother
      exact hother.elim
    | registered _ _ hstage =>
      simp only [State.threadStep, hstage] at hother
      exact hother.elim
  refine ⟨hestimate, ?_⟩
  rw [hkeeps.poseWrite, hkeeps.matInitialpose]
  exact hs.startPose

theorem Installed.step {pose : Matrix4d K} {s : State K} (hs : Installed pose s)
    (hwritten : PoseWritten s) {e : Event K} (hsettled : StartsSettled s e)
    (hother : (nodeStep cfg sqrt s e).2.Other) : Installed pose (nodeStep cfg sqrt s e).1 := by
  cases e with
  | odometry stamp pose' =>
    simp only [nodeStep, State.callbackBaselink2Odom]
    split_ifs <;> exact ⟨hs.estimate, hs.startPose⟩
  | scan points =>
    simp only [nodeStep, State.callbackScan]
    split_ifs <;> exact ⟨hs.estimate, hs.startPose⟩
  | initialPose pose' =>
    have hidle (hfree : s.free = true) : s.poseWrite.Settled := by
      unfold State.free at hfree
      cases hwrite : s.poseWrite with
      | idle => trivial
      | _ =>
        rw [hwrite] at hfree
        cases hfree
    simp only [nodeStep, State.callbackInitialPose]
    split_ifs with hfree
    · exact hs
    · exact ⟨hs.estimate, fun _ => hs.startPose (hidle hfree)⟩
    · exact hs
  | initialPoseNext =>
    simp only [nodeStep, State.callbackInitialPoseNext] at hother ⊢
    cases hwrite : s.poseWrite with
    | idle => exact hs
    | accepted pose' => exact ⟨hs.estimate, False.elim⟩
    | rotated pose' => exact ⟨hs.estimate, False.elim⟩
    | written pose' =>
      rw [hwrite] at hother
      exact hother.elim
  | thread icp fitness => exact hs.thread hwritten icp fitness hsettled hother

/-! ## Whole runs -/

variable {unset : Matrix4d K}

theorem Installed.run {pose : Matrix4d K} {s : State K} (hs : Installed pose s)
    (hwritten : PoseWritten s) {es : List (Event K)}
    (hsettled : (node cfg sqrt unset).Along StartsSettled s es)
    (hother : ∀ o ∈ (node cfg sqrt unset).outs s es, o.Other) :
    Installed pose ((node cfg sqrt unset).run s es) := by
  induction es generalizing s with
  | nil => exact hs
  | cons e rest ih =>
    have hfirst := hother _ List.mem_cons_self
    exact ih (hs.step hwritten hsettled.1 hfirst) (hwritten.step e) hsettled.2
      fun o ho => hother o (List.mem_cons_of_mem _ ho)

variable (cfg sqrt unset) in
theorem poseWritten_run (es : List (Event K)) :
    PoseWritten ((node cfg sqrt unset).run (.init cfg unset) es) :=
  Machine.run_invariant (fun _ e hs => hs.step e) (poseWritten_init cfg unset) es

theorem regMatrix_of_registered {s : State K} {e : Event K} {r : Registration K}
    (hout : (nodeStep cfg sqrt s e).2 = .registered r) : r.regMatrix = s.matOdom2map := by
  obtain ⟨icp, fitness, -, hthread⟩ := nodeStep_registered hout
  rcases threadStep_out cfg sqrt s icp fitness with
    ⟨_, _, -, hshow⟩ | ⟨_, _, -, hshow⟩ | ⟨-, hshow⟩ <;>
    cases hshow.symm.trans hthread
  · rfl
  · rfl

/-- Every interleaving in which the start pose is an accepted one when it is assigned. -/
theorem keepsAccepted_of_startsSettled (cfg : Config K) (sqrt : K → K) (unset : Matrix4d K)
    (es : List (Event K))
    (hsettled : (node cfg sqrt unset).Along StartsSettled (.init cfg unset) es) :
    KeepsAccepted ((node cfg sqrt unset).outs (.init cfg unset) es) ∧
      (node cfg sqrt unset).Along
        (fun s e => MayBecome cfg s e ((node cfg sqrt unset).next s e).matOdom2map)
        (.init cfg unset) es := by
  constructor
  · intro before pose between r after houts hother
    obtain ⟨es₁, e₁, rest₁, rfl, -, haccepted, hrest₁⟩ := Machine.outs_eq_append_cons houts
    obtain ⟨es₂, e₂, rest₂, rfl, rfl, hregistered, -⟩ := Machine.outs_eq_append_cons hrest₁
    have hwritten := poseWritten_run cfg sqrt unset es₁
    have hinstalled := installed_of_accepted hwritten haccepted
    obtain ⟨-, -, htail⟩ := Machine.along_append.mp hsettled
    have hbetween := (Machine.along_append.mp htail).1
    have hread := hinstalled.run (hwritten.step e₁) hbetween hother
    rw [regMatrix_of_registered hregistered]
    exact hread.estimate
  · rw [Machine.along_iff]
    intro before e after _
    exact mayBecome_step (poseWritten_run cfg sqrt unset before) e

/-! ## Two initial poses before the start pose -/

def poseAhead : RigidMotion ℚ := ⟨1, ![1, 0, 0]⟩

/-- A quarter turn. -/
def poseTurned : RigidMotion ℚ := ⟨rotZ ⟨1, 0, by norm_num⟩, ![0, 2, 0]⟩

/-- Odometry, a scan, and an initial pose that is accepted. -/
def aheadRun : List (Event ℚ) :=
  [.odometry 1 ⟨1, 0⟩, .scan 1, .scan 1, .initialPose poseAhead, .initialPoseNext,
    .initialPoseNext, .initialPoseNext]

/-- The thread up to its first registration. -/
def startRun : List (Event ℚ) := List.replicate 5 (.thread 1 1)

theorem keepsAccepted_of_startsSettled_ahead :
    KeepsAccepted ((node awayConfig id 0).outs (.init awayConfig 0) (aheadRun ++ startRun)) ∧
      (node awayConfig id 0).Along
        (fun s e => MayBecome awayConfig s e ((node awayConfig id 0).next s e).matOdom2map)
        (.init awayConfig 0) (aheadRun ++ startRun) :=
  keepsAccepted_of_startsSettled awayConfig id 0 (aheadRun ++ startRun) (by decide +kernel)

def tornOuts : List (Output ℚ) :=
  (node awayConfig id 0).outs (.init awayConfig 0)
    (aheadRun ++ [.initialPose poseTurned, .initialPoseNext] ++ startRun)

/-- A second pose has its rotation written when the thread assigns the start pose:
the registration starts from the rotation of the second pose with the position of
the first. -/
theorem torn_startPose_loses_pose :
    ¬ KeepsAccepted tornOuts ∧ ∃ r, .registered r ∈ tornOuts ∧
      r.regMatrix ≠ poseAhead.homogeneous ∧ r.regMatrix ≠ poseTurned.homogeneous := by
  constructor
  · intro hkeeps
    have hread := hkeeps [.published _, .quiet, .quiet, .quiet, .quiet, .quiet] poseAhead
      [.quiet, .quiet, .quiet, .quiet, .quiet, .quiet] _ [] rfl (by simp [Output.Other])
    have hentry := congrFun (congrFun hread (.inl 0)) (.inl 0)
    revert hentry
    decide +kernel
  · refine ⟨_, List.mem_of_getElem? (i := 13) rfl, ?_, ?_⟩
    · intro hread
      have hentry := congrFun (congrFun hread (.inl 0)) (.inl 0)
      revert hentry
      decide +kernel
    · intro hread
      have hentry := congrFun (congrFun hread (.inl 0)) (.inr ())
      revert hentry
      decide +kernel

end GlobalLocalization
end RobotNav
