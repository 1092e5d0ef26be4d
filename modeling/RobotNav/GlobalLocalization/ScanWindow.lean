/-
The sliding window of scans, with the points in them.

A callback that finds the queue full empties it into another one, adds the clouds up
on the way, and fills it again before the oldest cloud is dropped.  A cloud is the
list of its points.
-/
import Mathlib.Data.List.DropRight
import Mathlib.Data.List.Induction
import RobotNav.GlobalLocalization.Node

namespace RobotNav
namespace GlobalLocalization

variable {P : Type}

/-- `que_pcd_scan_` and `pcd_scan_cur_`. -/
structure ScanWindow (P : Type) where
  quePcdScan : List (List P)
  pcdScanCur : List P
  deriving DecidableEq

/-- The loop that empties the queue: the temporary queue and the sum. -/
def accumulate : List (List P) → List (List P) → List P → List (List P) × List P
  | [], queTemp, cur => (queTemp, cur)
  | front :: que, queTemp, cur => accumulate que (queTemp ++ [front]) (cur ++ front)

/-- The loop that fills it again. -/
def refill : List (List P) → List (List P) → List (List P)
  | [], que => que
  | front :: queTemp, que => refill queTemp (que ++ [front])

/-- `CallbackScan`. -/
def ScanWindow.callbackScan (queueMaxsize : ℕ) (s : ScanWindow P) (pcdRecieved : List P) :
    ScanWindow P :=
  if queueMaxsize ≤ s.quePcdScan.length then
    let emptied := accumulate s.quePcdScan [] []
    let que := refill emptied.1 []
    { quePcdScan := que.tail ++ [pcdRecieved], pcdScanCur := emptied.2 }
  else { s with quePcdScan := s.quePcdScan ++ [pcdRecieved] }

def scanWindow (queueMaxsize : ℕ) (cur : List P) : Machine (ScanWindow P) (List P) Unit where
  init := ⟨[], cur⟩
  step := fun s pcdRecieved => (s.callbackScan queueMaxsize pcdRecieved, ())

/-! ## One scan -/

theorem accumulate_eq (que queTemp : List (List P)) (cur : List P) :
    accumulate que queTemp cur = (queTemp ++ que, cur ++ que.flatten) := by
  induction que generalizing queTemp cur with
  | nil => rw [accumulate, List.append_nil, List.flatten_nil, List.append_nil]
  | cons front que ih =>
    rw [accumulate, ih, List.append_assoc, List.append_assoc, List.flatten_cons]
    rfl

theorem refill_eq (queTemp que : List (List P)) : refill queTemp que = que ++ queTemp := by
  induction queTemp generalizing que with
  | nil => rw [refill, List.append_nil]
  | cons front queTemp ih =>
    rw [refill, ih, List.append_assoc]
    rfl

/-- A full queue becomes the current cloud and loses its oldest scan. -/
theorem callbackScan_full {queueMaxsize : ℕ} {s : ScanWindow P}
    (hfull : queueMaxsize ≤ s.quePcdScan.length) (pcdRecieved : List P) :
    s.callbackScan queueMaxsize pcdRecieved =
      ⟨s.quePcdScan.tail ++ [pcdRecieved], s.quePcdScan.flatten⟩ := by
  rw [ScanWindow.callbackScan, if_pos hfull]
  simp only [accumulate_eq, refill_eq, List.nil_append]

theorem callbackScan_room {queueMaxsize : ℕ} {s : ScanWindow P}
    (hroom : s.quePcdScan.length < queueMaxsize) (pcdRecieved : List P) :
    s.callbackScan queueMaxsize pcdRecieved =
      { s with quePcdScan := s.quePcdScan ++ [pcdRecieved] } := by
  rw [ScanWindow.callbackScan, if_neg (Nat.not_le.mpr hroom)]

/-- The node of the whole program keeps of each cloud its size. -/
theorem callbackScan_sizes {K : Type} [Field K] {cfg : Config K} {s : State K}
    {w : ScanWindow P} (hque : s.quePcdScan = w.quePcdScan.map List.length)
    (hcur : s.pcdScanCur = w.pcdScanCur.length) (pcdRecieved : List P) :
    let s' := s.callbackScan cfg pcdRecieved.length
    let w' := w.callbackScan cfg.queueMaxsize pcdRecieved
    s'.quePcdScan = w'.quePcdScan.map List.length ∧ s'.pcdScanCur = w'.pcdScanCur.length := by
  intro s' w'
  have hlength : s.quePcdScan.length = w.quePcdScan.length := by rw [hque, List.length_map]
  by_cases hfull : cfg.queueMaxsize ≤ w.quePcdScan.length
  · have hs : s' = { s with
        pcdScanCur := s.quePcdScan.sum
        quePcdScan := s.quePcdScan.tail ++ [pcdRecieved.length] } :=
      if_pos (hlength ▸ hfull)
    have hw : w' = _ := callbackScan_full hfull pcdRecieved
    rw [hs, hw]
    refine ⟨?_, ?_⟩
    · rw [List.map_append, List.map_tail, ← hque]
      rfl
    · rw [List.length_flatten, ← hque]
  · have hs : s' = { s with quePcdScan := s.quePcdScan ++ [pcdRecieved.length] } :=
      if_neg (hlength ▸ hfull)
    have hw : w' = _ := callbackScan_room (Nat.lt_of_not_le hfull) pcdRecieved
    rw [hs, hw]
    refine ⟨?_, hcur⟩
    rw [List.map_append, ← hque]
    rfl

/-! ## Any number of scans -/

/-- The last `n` of as many scans or fewer are all of them. -/
theorem rtake_of_le {l : List (List P)} {n : ℕ} (h : l.length ≤ n) : l.rtake n = l := by
  rw [List.rtake, Nat.sub_eq_zero_of_le h, List.drop_zero]

theorem length_rtake (l : List (List P)) (n : ℕ) : (l.rtake n).length = min l.length n := by
  rw [List.rtake, List.length_drop]
  omega

/-- The queue without its oldest scan. -/
theorem tail_rtake {l : List (List P)} {n : ℕ} (h : n + 1 ≤ l.length) :
    (l.rtake (n + 1)).tail = l.rtake n := by
  rw [List.rtake, List.rtake, List.tail_drop]
  congr 1
  omega

/-- After any scans the queue holds the last `queueMaxsize` of them, and the current cloud is
made of as many before the last one, once there are more than `queueMaxsize`. -/
theorem scanWindow_holds {queueMaxsize : ℕ} (hmax : 1 ≤ queueMaxsize) (cur : List P)
    (scans : List (List P)) {s : ScanWindow P}
    (hs : s = (scanWindow queueMaxsize cur).run (scanWindow queueMaxsize cur).init scans) :
    s.quePcdScan = scans.rtake queueMaxsize ∧
      s.quePcdScan.length = min scans.length queueMaxsize ∧
      (queueMaxsize < scans.length →
        s.pcdScanCur = (scans.dropLast.rtake queueMaxsize).flatten) ∧
      (scans.length ≤ queueMaxsize → s.pcdScanCur = cur) := by
  obtain ⟨n, rfl⟩ : ∃ n, queueMaxsize = n + 1 := ⟨queueMaxsize - 1, by omega⟩
  have hwindow : s.quePcdScan = scans.rtake (n + 1) ∧
      (n + 1 < scans.length → s.pcdScanCur = (scans.dropLast.rtake (n + 1)).flatten) ∧
      (scans.length ≤ n + 1 → s.pcdScanCur = cur) := by
    induction scans using List.reverseRecOn generalizing s with
    | nil =>
      subst hs
      exact ⟨(List.rtake_nil _).symm, nofun, fun _ => rfl⟩
    | append_singleton scans x ih =>
      obtain ⟨s₀, hs₀⟩ :
        ∃ s₀, s₀ = (scanWindow (n + 1) cur).run (scanWindow (n + 1) cur).init scans := ⟨_, rfl⟩
      obtain ⟨hque, hafter, hbefore⟩ := ih hs₀
      have hstep : s = s₀.callbackScan (n + 1) x := by
        rw [hs, hs₀]
        exact Machine.run_snoc _ _ scans x
      have hlength : s₀.quePcdScan.length = min scans.length (n + 1) := by
        rw [hque, length_rtake]
      rw [hstep, List.rtake_concat_succ, List.dropLast_concat, List.length_append,
        List.length_singleton]
      rcases Nat.lt_or_ge scans.length (n + 1) with hroom | hfull
      · rw [callbackScan_room (by omega)]
        refine ⟨?_, fun hmore => absurd hmore (by omega), fun _ => hbefore (by omega)⟩
        show s₀.quePcdScan ++ [x] = _
        rw [hque, rtake_of_le (by omega), rtake_of_le (by omega)]
      · rw [callbackScan_full (by omega)]
        refine ⟨?_, fun _ => ?_, fun hless => absurd hless (by omega)⟩
        · show s₀.quePcdScan.tail ++ [x] = _
          rw [hque, tail_rtake hfull]
        · show s₀.quePcdScan.flatten = _
          rw [hque]
  refine ⟨hwindow.1, ?_, hwindow.2⟩
  rw [hwindow.1, length_rtake]

theorem scanWindow_holds_two :
    ∃ s, s = (scanWindow 2 [0]).run (scanWindow 2 [0]).init [[1], [2, 3], [4]] ∧
      s.quePcdScan = [[1], [2, 3], [4]].rtake 2 ∧
      s.quePcdScan.length = min [[1], [2, 3], [4]].length 2 ∧
      (2 < [[1], [2, 3], [4]].length →
        s.pcdScanCur = ([[1], [2, 3], [4]].dropLast.rtake 2).flatten) ∧
      ([[1], [2, 3], [4]].length ≤ 2 → s.pcdScanCur = [0]) :=
  ⟨_, rfl, scanWindow_holds (by decide) [0] [[1], [2, 3], [4]] rfl⟩

end GlobalLocalization
end RobotNav
