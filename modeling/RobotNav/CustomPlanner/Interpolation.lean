/-
The poses between the waypoints, in exact arithmetic.

Interpolation cuts each segment of the smoothed path into equal parts no longer
than the resolution, as long as an `int` can count them: a segment with more parts
is not cut.  The two ends of the path are then replaced by the poses the planner was
given, which lie in the cells of the first and the last waypoint, half a diagonal
from their centres at most.
-/
import RobotNav.CustomPlanner.Smoothing
import RobotNav.CustomPlanner.Cost
import Mathlib.Analysis.Complex.Basic

namespace RobotNav
namespace CustomPlanner

/-! ## Distances -/

/-- The distance in the plane. -/
noncomputable def apart (a b : PoseStamped ℝ) : ℝ := hypot (b.x - a.x) (b.y - a.y)

theorem hypot_eq_norm (x y : ℝ) : hypot x y = ‖(⟨x, y⟩ : ℂ)‖ := by
  rw [hypot, Complex.norm_eq_sqrt_sq_add_sq]

theorem hypot_mul (t x y : ℝ) : hypot (t * x) (t * y) = |t| * hypot x y := by
  have hmul : (⟨t * x, t * y⟩ : ℂ) = (t : ℂ) * ⟨x, y⟩ := by
    apply Complex.ext <;> simp
  rw [hypot_eq_norm, hypot_eq_norm, hmul, norm_mul, Complex.norm_real, Real.norm_eq_abs]

theorem apart_comm (a b : PoseStamped ℝ) : apart a b = apart b a := by
  have hneg := hypot_mul (-1) (b.x - a.x) (b.y - a.y)
  rw [abs_neg, abs_one, one_mul] at hneg
  rw [apart, apart, ← hneg]
  congr 1 <;> ring

theorem apart_triangle (a b c : PoseStamped ℝ) : apart a c ≤ apart a b + apart b c := by
  have hadd : (⟨c.x - a.x, c.y - a.y⟩ : ℂ) =
      ⟨b.x - a.x, b.y - a.y⟩ + ⟨c.x - b.x, c.y - b.y⟩ := by
    apply Complex.ext <;> simp
  rw [apart, apart, apart, hypot_eq_norm, hypot_eq_norm, hypot_eq_norm, hadd]
  exact norm_add_le _ _

theorem apart_self (a : PoseStamped ℝ) : apart a a = 0 := by
  rw [apart, sub_self, sub_self, hypot]
  norm_num

/-- The pose lies at the fraction `t` of the way from `a` to `b`. -/
def AtFraction (a b : PoseStamped ℝ) (t : ℝ) (pose : PoseStamped ℝ) : Prop :=
  pose.x = a.x + t * (b.x - a.x) ∧ pose.y = a.y + t * (b.y - a.y)

theorem apart_of_atFraction {a b c d : PoseStamped ℝ} {t u : ℝ} (hc : AtFraction a b t c)
    (hd : AtFraction a b u d) : apart c d = |u - t| * apart a b := by
  rw [apart, apart, ← hypot_mul, hc.1, hc.2, hd.1, hd.2]
  congr 1 <;> ring

theorem atFraction_one (a b : PoseStamped ℝ) : AtFraction a b 1 b := by
  constructor <;> ring

theorem between_atFraction (a b : PoseStamped ℝ) (n j : ℕ) :
    AtFraction a b ((j : ℝ) / n) (between a b n j) := by
  constructor
  · show a.x + ((j : ℤ) : ℝ) * (b.x - a.x) / ((n : ℤ) : ℝ) = _
    push_cast
    ring
  · show a.y + ((j : ℤ) : ℝ) * (b.y - a.y) / ((n : ℤ) : ℝ) = _
    push_cast
    ring

theorem between_zero (a b : PoseStamped ℝ) (n : ℕ) : between a b n 0 = a := by
  have hx := (between_atFraction a b n 0).1
  have hy := (between_atFraction a b n 0).2
  rw [Nat.cast_zero, zero_div, zero_mul, add_zero] at hx hy
  show { a with x := (between a b n 0).x, y := (between a b n 0).y } = a
  rw [hx, hy]

/-! ## Moved poses -/

/-- Poses moved by at most `e` are at most `2 e` farther apart. -/
theorem chain_moved {r e : ℝ} {as bs : List (PoseStamped ℝ)}
    (h : List.Forall₂ (fun a b => apart a b ≤ e) as bs)
    (hchain : as.IsChain fun a b => apart a b ≤ r) :
    bs.IsChain fun a b => apart a b ≤ r + 2 * e := by
  induction h with
  | nil => exact List.isChain_nil
  | @cons a b as bs hab hrest ih =>
    cases hrest with
    | nil => exact List.isChain_singleton _
    | @cons a' b' as bs hab' hrest =>
      rw [List.isChain_cons_cons] at hchain
      refine List.IsChain.cons_cons ?_ (ih hchain.2)
      have h1 := apart_triangle b a b'
      have h2 := apart_triangle a a' b'
      rw [apart_comm b a] at h1
      linarith [hchain.1]

/-- Only the two ends are moved. -/
theorem ends_moved {e : ℝ} {start goal a b : PoseStamped ℝ} (hstart : apart a start ≤ e)
    (hgoal : apart b goal ≤ e) (rest : List (PoseStamped ℝ)) :
    List.Forall₂ (fun a b => apart a b ≤ e) (a :: rest ++ [b]) (start :: rest ++ [goal]) := by
  have hnonneg : 0 ≤ e := (Real.sqrt_nonneg _).trans hstart
  refine .cons hstart (List.rel_append ?_ (.cons hgoal .nil))
  rw [List.forall₂_same]
  intro c _
  rw [apart_self]
  exact hnonneg

/-! ## One segment -/

/-- The segment has more parts of length `r` than an `int` can count. -/
def Uncut (r : ℝ) (a b : PoseStamped ℝ) : Prop := lit (2 ^ 31 - 1) * r < apart a b

theorem ceil_eq (x : ℝ) : ceil x = ⌈x⌉ := by
  show -⌊-x⌋ = ⌈x⌉
  rw [Int.floor_neg, neg_neg]

theorem castInt_eq {i : ℤ} (h0 : 0 ≤ i) (h : i ≤ 2 ^ 31 - 1) : castInt i = i :=
  if_pos ⟨by omega, by omega⟩

theorem castInt_of_lt {i : ℤ} (h : 2 ^ 31 - 1 < i) : castInt i = -2 ^ 31 := if_neg (by omega)

section

variable {p : Planner ℝ} (hhypot : ∀ x y, p.hypot x y = hypot x y)
  (hres : 0 < p.interpolationResolution)

theorem numPoints_pos (a b : PoseStamped ℝ) : 0 < numPoints p a b := by
  have hle : (1 : ℤ) ≤ max 1 (castInt (ceil (p.hypot (b.x - a.x) (b.y - a.y) /
      p.interpolationResolution))) := le_max_left _ _
  rw [numPoints]
  omega

include hhypot in
theorem numPoints_eq (a b : PoseStamped ℝ) : numPoints p a b =
    (max 1 (castInt ⌈apart a b / p.interpolationResolution⌉)).toNat := by
  rw [numPoints, ceil_eq, hhypot, apart]

include hhypot hres in
/-- The parts of a segment are no longer than the resolution. -/
theorem apart_le_numPoints {a b : PoseStamped ℝ} (hcut : ¬ Uncut p.interpolationResolution a b) :
    apart a b ≤ numPoints p a b * p.interpolationResolution := by
  rw [← div_le_iff₀ hres]
  have hdist : 0 ≤ apart a b / p.interpolationResolution :=
    div_nonneg (Real.sqrt_nonneg _) hres.le
  have hfits : ⌈apart a b / p.interpolationResolution⌉ ≤ 2 ^ 31 - 1 := by
    rw [Int.ceil_le, div_le_iff₀ hres]
    exact not_lt.mp hcut
  have hnat : ⌈apart a b / p.interpolationResolution⌉ ≤ (numPoints p a b : ℤ) := by
    rw [numPoints_eq hhypot, castInt_eq (Int.ceil_nonneg hdist) hfits]
    omega
  refine (Int.le_ceil _).trans ?_
  exact_mod_cast hnat

include hhypot hres in
/-- A segment with too many parts is not cut at all. -/
theorem numPoints_of_uncut {a b : PoseStamped ℝ} (h : Uncut p.interpolationResolution a b) :
    numPoints p a b = 1 := by
  have hmany : 2 ^ 31 - 1 < ⌈apart a b / p.interpolationResolution⌉ := by
    rw [Int.lt_ceil, lt_div_iff₀ hres]
    exact h
  rw [numPoints_eq hhypot, castInt_of_lt hmany]
  rfl

include hhypot hres in
theorem part_le {a b c d : PoseStamped ℝ} (hcut : ¬ Uncut p.interpolationResolution a b) {j : ℕ}
    (hc : AtFraction a b ((j : ℝ) / numPoints p a b) c)
    (hd : AtFraction a b (((j + 1 : ℕ) : ℝ) / numPoints p a b) d) :
    apart c d ≤ p.interpolationResolution := by
  have hn : (0 : ℝ) < numPoints p a b := Nat.cast_pos.mpr (numPoints_pos a b)
  have hpart : ((j + 1 : ℕ) : ℝ) / numPoints p a b - (j : ℝ) / numPoints p a b =
      1 / numPoints p a b := by
    push_cast
    ring
  rw [apart_of_atFraction hc hd, hpart, abs_of_nonneg (by positivity), one_div,
    inv_mul_le_iff₀ hn]
  exact apart_le_numPoints hhypot hres hcut

include hhypot hres in
theorem segmentPoints_chain {a b : PoseStamped ℝ}
    (hcut : ¬ Uncut p.interpolationResolution a b) :
    (segmentPoints p a b).IsChain fun c d => apart c d ≤ p.interpolationResolution := by
  rw [List.isChain_iff_getElem]
  intro j hj
  simp only [segmentPoints, List.getElem_map, List.getElem_range]
  exact part_le hhypot hres hcut (between_atFraction a b _ j) (between_atFraction a b _ (j + 1))

include hhypot hres in
/-- The last point of a segment is one part away from its end. -/
theorem segmentPoints_last {a b c : PoseStamped ℝ}
    (hcut : ¬ Uncut p.interpolationResolution a b)
    (hc : (segmentPoints p a b).getLast? = some c) : apart c b ≤ p.interpolationResolution := by
  have hpos := numPoints_pos (p := p) a b
  have hn : (0 : ℝ) < numPoints p a b := Nat.cast_pos.mpr hpos
  rw [segmentPoints, List.getLast?_map, List.getLast?_range, if_neg (by omega),
    Option.map_some] at hc
  obtain rfl := Option.some.inj hc
  refine part_le hhypot hres hcut (between_atFraction a b _ _) ?_
  rw [Nat.sub_add_cancel hpos, div_self (ne_of_gt hn)]
  exact atFraction_one a b

theorem segmentPoints_zero (a b : PoseStamped ℝ) : (segmentPoints p a b)[0]? = some a := by
  rw [segmentPoints, List.getElem?_map, List.getElem?_range (numPoints_pos a b), Option.map_some,
    between_zero]

theorem segmentPoints_cons (a b : PoseStamped ℝ) :
    segmentPoints p a b = a :: (segmentPoints p a b).tail := by
  have hhead := segmentPoints_zero (p := p) a b
  rw [← List.head?_eq_getElem?] at hhead
  exact (List.cons_head?_tail hhead).symm

include hhypot hres in
/-- The points of a segment between poses that stand for its ends, up to `e` away:
only a segment left uncut can have points too far apart. -/
theorem segment_moved {e : ℝ} {a b a' b' : PoseStamped ℝ} (ha : apart a a' ≤ e)
    (hb : apart b b' ≤ e) :
    ((a' :: (segmentPoints p a b).tail ++ [b']).IsChain fun c d =>
        apart c d ≤ p.interpolationResolution + 2 * e) ↔
      (Uncut p.interpolationResolution a b →
        apart a' b' ≤ p.interpolationResolution + 2 * e) := by
  by_cases hcut : Uncut p.interpolationResolution a b
  · have htail : (segmentPoints p a b).tail = [] := by
      rw [segmentPoints, numPoints_of_uncut hhypot hres hcut]
      rfl
    rw [htail, List.singleton_append, List.isChain_pair]
    exact ⟨fun h _ => h, fun h => h hcut⟩
  · refine iff_of_true ?_ fun h => absurd h hcut
    refine chain_moved (ends_moved ha hb (segmentPoints p a b).tail) ?_
    rw [← segmentPoints_cons, List.isChain_append]
    refine ⟨segmentPoints_chain hhypot hres hcut, List.isChain_singleton b, ?_⟩
    intro c hc d hd
    rw [← Option.some.inj hd]
    exact segmentPoints_last hhypot hres hcut hc

end

/-! ## The polyline -/

/-- A place on the polyline: a segment, and a fraction of it. -/
def OnPolyline (waypoints : List (PoseStamped ℝ)) (place : ℕ × ℝ) (pose : PoseStamped ℝ) : Prop :=
  ∃ a b, waypoints[place.1]? = some a ∧ waypoints[place.1 + 1]? = some b ∧
    0 ≤ place.2 ∧ place.2 < 1 ∧ AtFraction a b place.2 pose

def Before (a b : ℕ × ℝ) : Prop := a.1 < b.1 ∨ a.1 = b.1 ∧ a.2 < b.2

/-- The poses in front of the last one: where each lies, and that the inner
waypoints are among them. -/
structure Fills (waypoints inner : List (PoseStamped ℝ)) (last : PoseStamped ℝ)
    (places : List (ℕ × ℝ)) : Prop where
  on : List.Forall₂ (OnPolyline waypoints) places inner
  ordered : places.Pairwise Before
  present : ∀ k w, waypoints[k]? = some w → k + 1 < waypoints.length →
    ∃ i, inner[i]? = some w ∧ (0 < k → 0 < i)
  first : (inner ++ [last]).head? = waypoints.head?

theorem OnPolyline.cons {waypoints : List (PoseStamped ℝ)} {place : ℕ × ℝ}
    {pose : PoseStamped ℝ} (h : OnPolyline waypoints place pose) (w : PoseStamped ℝ) :
    OnPolyline (w :: waypoints) (place.1 + 1, place.2) pose := by
  obtain ⟨a, b, ha, hb, h0, h1, hat⟩ := h
  exact ⟨a, b, ha, hb, h0, h1, hat⟩

theorem segmentPoints_on {p : Planner ℝ} (a b : PoseStamped ℝ) (rest : List (PoseStamped ℝ)) :
    List.Forall₂ (OnPolyline (a :: b :: rest))
      ((List.range (numPoints p a b)).map fun j : ℕ => ((0 : ℕ), (j : ℝ) / numPoints p a b))
      (segmentPoints p a b) := by
  rw [segmentPoints, List.forall₂_map_left_iff, List.forall₂_map_right_iff, List.forall₂_same]
  intro j hj
  have hn : (0 : ℝ) < numPoints p a b := Nat.cast_pos.mpr (numPoints_pos a b)
  have hlt : (j : ℝ) < numPoints p a b := Nat.cast_lt.mpr (List.mem_range.mp hj)
  refine ⟨a, b, rfl, rfl, by positivity, ?_, between_atFraction a b _ j⟩
  rw [div_lt_one hn]
  exact hlt

theorem segmentPlaces_ordered {n : ℕ} (hn : 0 < n) :
    ((List.range n).map fun j : ℕ => ((0 : ℕ), (j : ℝ) / n)).Pairwise Before := by
  rw [List.pairwise_map]
  refine List.pairwise_lt_range.imp fun {i j} hij => ?_
  have hn' : (0 : ℝ) < n := Nat.cast_pos.mpr hn
  have hij' : (i : ℝ) < j := Nat.cast_lt.mpr hij
  exact .inr ⟨rfl, div_lt_div_of_pos_right hij' hn'⟩

/-- One more segment in front. -/
theorem Fills.segment {p : Planner ℝ} {b last : PoseStamped ℝ}
    {rest inner : List (PoseStamped ℝ)} {places : List (ℕ × ℝ)}
    (h : Fills (b :: rest) inner last places) (a : PoseStamped ℝ) :
    Fills (a :: b :: rest) (segmentPoints p a b ++ inner) last
      (((List.range (numPoints p a b)).map fun j : ℕ => ((0 : ℕ), (j : ℝ) / numPoints p a b)) ++
        places.map fun place => (place.1 + 1, place.2)) := by
  have hpos := numPoints_pos (p := p) a b
  have hlen : (segmentPoints p a b).length = numPoints p a b := by
    rw [segmentPoints, List.length_map, List.length_range]
  refine ⟨?_, ?_, ?_, ?_⟩
  · refine List.rel_append (segmentPoints_on a b rest) ?_
    rw [List.forall₂_map_left_iff]
    exact h.on.imp fun place pose hplace => hplace.cons a
  · rw [List.pairwise_append]
    refine ⟨segmentPlaces_ordered hpos, ?_, ?_⟩
    · rw [List.pairwise_map]
      refine h.ordered.imp fun {x y} hxy => ?_
      rcases hxy with hlt | ⟨heq, hlt⟩
      · exact .inl (Nat.succ_lt_succ hlt)
      · exact .inr ⟨congrArg Nat.succ heq, hlt⟩
    · intro x hx y hy
      obtain ⟨j, -, rfl⟩ := List.mem_map.mp hx
      obtain ⟨place, -, rfl⟩ := List.mem_map.mp hy
      exact .inl (Nat.succ_pos _)
  · intro k w hw hk
    cases k with
    | zero =>
      obtain rfl : a = w := Option.some.inj hw
      refine ⟨0, ?_, fun hfalse => absurd hfalse (Nat.lt_irrefl 0)⟩
      rw [List.getElem?_append_left (by omega)]
      exact segmentPoints_zero a b
    | succ k =>
      obtain ⟨i, hi, -⟩ := h.present k w hw (by simpa using hk)
      refine ⟨numPoints p a b + i, ?_, fun _ => by omega⟩
      rw [List.getElem?_append_right (by omega), hlen, Nat.add_sub_cancel_left]
      exact hi
  · rw [segmentPoints_cons]
    rfl

/-- The interpolated path ends at the last waypoint and fills the polyline before
it. -/
theorem interpolatedPath_fills (p : Planner ℝ) {waypoints : List (PoseStamped ℝ)}
    {last : PoseStamped ℝ} (hlast : waypoints.getLast? = some last) :
    ∃ inner places, interpolatedPath p waypoints = inner ++ [last] ∧
      Fills waypoints inner last places := by
  induction waypoints with
  | nil => cases hlast
  | cons a rest ih =>
    cases rest with
    | nil =>
      obtain rfl := Option.some.inj hlast
      refine ⟨[], [], rfl, .nil, .nil, ?_, rfl⟩
      intro k w hw hk
      simp at hk
    | cons b rest =>
      rw [List.getLast?_cons_cons] at hlast
      obtain ⟨inner, places, hpath, hfills⟩ := ih hlast
      refine ⟨_, _, ?_, hfills.segment (p := p) a⟩
      rw [interpolatedPath, hpath, List.append_assoc]

/-- In front of the last pose there is the first waypoint. -/
theorem Fills.exists_cons {waypoints inner : List (PoseStamped ℝ)}
    {w last : PoseStamped ℝ} {places : List (ℕ × ℝ)} (h : Fills waypoints inner last places)
    (hfirst : waypoints.head? = some w) (htwo : 2 ≤ waypoints.length) :
    ∃ rest place places', inner = w :: rest ∧ places = place :: places' := by
  have hzero := hfirst
  rw [List.head?_eq_getElem?] at hzero
  obtain ⟨i, hi, -⟩ := h.present 0 _ hzero htwo
  have hne : inner ≠ [] := List.ne_nil_of_mem (List.mem_of_getElem? hi)
  obtain ⟨a, rest, rfl⟩ := List.exists_cons_of_ne_nil hne
  have hhead := h.first
  rw [hfirst] at hhead
  cases h.on with
  | cons _ _ => exact ⟨rest, _, _, congrArg (· :: rest) (Option.some.inj hhead), rfl⟩

/-! ## The ends -/

theorem setEnds_cons_snoc {K : Type} (start goal a b : PoseStamped K)
    (inner : List (PoseStamped K)) :
    setEnds start goal (a :: inner ++ [b]) = start :: inner ++ [goal] := by
  simp [setEnds]

theorem exists_mid {α : Type} {as : List α} {a b : α} (hfirst : as.head? = some a)
    (hlast : as.getLast? = some b) (htwo : 2 ≤ as.length) : ∃ mid, as = a :: mid ++ [b] := by
  obtain ⟨rest, rfl⟩ := List.head?_eq_some_iff.mp hfirst
  have hne : rest ≠ [] := List.ne_nil_of_length_pos (Nat.le_of_succ_le_succ htwo)
  rw [List.getLast?_cons_of_ne_nil hne] at hlast
  obtain ⟨mid, rfl⟩ := List.getLast?_eq_some_iff.mp hlast
  exact ⟨mid, rfl⟩

theorem setEnds_moved {e : ℝ} {start goal a b : PoseStamped ℝ}
    {waypoints : List (PoseStamped ℝ)} (hfirst : waypoints.head? = some a)
    (hlast : waypoints.getLast? = some b) (htwo : 2 ≤ waypoints.length)
    (hstart : apart a start ≤ e) (hgoal : apart b goal ≤ e) :
    List.Forall₂ (fun a b => apart a b ≤ e) waypoints (setEnds start goal waypoints) := by
  obtain ⟨mid, rfl⟩ := exists_mid hfirst hlast htwo
  rw [setEnds_cons_snoc]
  exact ends_moved hstart hgoal mid

/-- The interpolated path with the poses `ends` in place of the waypoints. -/
noncomputable def movedPath (p : Planner ℝ) :
    List (PoseStamped ℝ) → List (PoseStamped ℝ) → List (PoseStamped ℝ)
  | a :: b :: rest, a' :: ends => a' :: (segmentPoints p a b).tail ++ movedPath p (b :: rest) ends
  | _, ends => ends

theorem movedPath_self (p : Planner ℝ) (waypoints : List (PoseStamped ℝ)) :
    movedPath p waypoints waypoints = interpolatedPath p waypoints := by
  induction waypoints with
  | nil => rfl
  | cons a rest ih =>
    cases rest with
    | nil => rfl
    | cons b rest => rw [movedPath, interpolatedPath, ih, ← segmentPoints_cons]

/-- Moving the first and the last waypoint moves the first and the last pose. -/
theorem movedPath_ends (p : Planner ℝ) (a z : PoseStamped ℝ) (mid : List (PoseStamped ℝ)) :
    ∃ inner, ∀ a' z', movedPath p (a :: mid ++ [z]) (a' :: mid ++ [z']) = a' :: inner ++ [z'] := by
  induction mid generalizing a with
  | nil => exact ⟨(segmentPoints p a z).tail, fun a' z' => rfl⟩
  | cons b mid ih =>
    obtain ⟨inner, hinner⟩ := ih b
    refine ⟨(segmentPoints p a b).tail ++ b :: inner, fun a' z' => ?_⟩
    show a' :: (segmentPoints p a b).tail ++ movedPath p (b :: mid ++ [z]) (b :: mid ++ [z']) = _
    rw [hinner, List.cons_append, List.cons_append, List.cons_append, List.append_assoc,
      List.cons_append]

theorem setEnds_interpolatedPath (p : Planner ℝ) (start goal : PoseStamped ℝ)
    {a z : PoseStamped ℝ} {waypoints : List (PoseStamped ℝ)} (hfirst : waypoints.head? = some a)
    (hlast : waypoints.getLast? = some z) (htwo : 2 ≤ waypoints.length) :
    setEnds start goal (interpolatedPath p waypoints) =
      movedPath p waypoints (setEnds start goal waypoints) := by
  obtain ⟨mid, rfl⟩ := exists_mid hfirst hlast htwo
  obtain ⟨inner, hinner⟩ := movedPath_ends p a z mid
  rw [← movedPath_self, hinner, setEnds_cons_snoc, setEnds_cons_snoc, hinner]

/-- Whether the poses are close is decided segment by segment. -/
theorem movedPath_chain {p : Planner ℝ} (hhypot : ∀ x y, p.hypot x y = hypot x y)
    (hres : 0 < p.interpolationResolution) {e : ℝ} {waypoints ends : List (PoseStamped ℝ)}
    (h : List.Forall₂ (fun a b => apart a b ≤ e) waypoints ends) :
    ((movedPath p waypoints ends).IsChain fun a b =>
        apart a b ≤ p.interpolationResolution + 2 * e) ↔
      (waypoints.zip ends).IsChain fun u v =>
        Uncut p.interpolationResolution u.1 v.1 →
          apart u.2 v.2 ≤ p.interpolationResolution + 2 * e := by
  induction h with
  | nil => exact iff_of_true List.isChain_nil List.isChain_nil
  | @cons a a' waypoints ends ha hrest ih =>
    cases hrest with
    | nil => exact iff_of_true (List.isChain_singleton _) (List.isChain_singleton _)
    | @cons b b' waypoints ends hb hrest =>
      obtain ⟨moved, hmoved⟩ : ∃ moved, movedPath p (b :: waypoints) (b' :: ends) =
          b' :: moved := by
        cases hrest with
        | nil => exact ⟨[], rfl⟩
        | cons _ _ => exact ⟨_, rfl⟩
      rw [hmoved] at ih
      rw [movedPath, hmoved, List.isChain_split, ih, segment_moved hhypot hres ha hb]
      show _ ↔ List.IsChain _ ((a, a') :: (b, b') :: waypoints.zip ends)
      rw [List.isChain_cons_cons]
      rfl

/-- A pose is half a diagonal from the centre of its cell at most. -/
theorem apart_centre {p : Planner ℝ} {originX originY resolution : ℝ}
    (hnav : Nav2 p originX originY resolution) {pose : PoseStamped ℝ} {c : Cell}
    (hc : p.worldToMap pose.x pose.y = some c) :
    apart pose (poseAt p c) ≤ Real.sqrt 2 / 2 * resolution := by
  obtain ⟨-, ⟨hx0, hx1⟩, ⟨hy0, hy1⟩⟩ := (hnav.worldToMap _ _ _).mp hc
  have hpos := hnav.resolution_pos
  have hcx : (poseAt p c).x = originX + ((c.x : ℝ) + 1 / 2) * resolution :=
    congrArg Prod.fst (hnav.mapToWorld c)
  have hcy : (poseAt p c).y = originY + ((c.y : ℝ) + 1 / 2) * resolution :=
    congrArg Prod.snd (hnav.mapToWorld c)
  have hsqrt : Real.sqrt 2 ^ 2 = 2 := Real.sq_sqrt (by norm_num)
  have hsquare : ∀ d : ℝ, -(resolution / 2) ≤ d → d ≤ resolution / 2 →
      d ^ 2 ≤ (resolution / 2) ^ 2 := fun d hlow hhigh => sq_le_sq' hlow hhigh
  have hdx := hsquare ((poseAt p c).x - pose.x) (by rw [hcx]; linarith) (by rw [hcx]; linarith)
  have hdy := hsquare ((poseAt p c).y - pose.y) (by rw [hcy]; linarith) (by rw [hcy]; linarith)
  rw [apart, hypot]
  apply Real.sqrt_le_iff.mpr
  refine ⟨by positivity, ?_⟩
  have hexpand : (Real.sqrt 2 / 2 * resolution) ^ 2 = 2 * (resolution / 2) ^ 2 := by
    rw [mul_pow, div_pow, hsqrt]
    ring
  rw [hexpand]
  linarith

/-- Two cells of the map are no farther apart than its corners. -/
theorem apart_cells {p : Planner ℝ} {originX originY resolution : ℝ}
    (hnav : Nav2 p originX originY resolution) {a b : Cell} (ha : p.costmap.InMap a)
    (hb : p.costmap.InMap b) :
    apart (poseAt p a) (poseAt p b) ≤
      hypot p.costmap.sizeX p.costmap.sizeY * resolution := by
  have hx : (poseAt p b).x - (poseAt p a).x = resolution * ((b.x : ℝ) - a.x) := by
    show (p.mapToWorld b).1 - (p.mapToWorld a).1 = _
    rw [hnav.mapToWorld, hnav.mapToWorld]
    ring
  have hy : (poseAt p b).y - (poseAt p a).y = resolution * ((b.y : ℝ) - a.y) := by
    show (p.mapToWorld b).2 - (p.mapToWorld a).2 = _
    rw [hnav.mapToWorld, hnav.mapToWorld]
    ring
  have hsquare : ∀ i j n : ℕ, i < n → j < n → ((j : ℝ) - i) ^ 2 ≤ (n : ℝ) ^ 2 := by
    intro i j n hi hj
    have hi' : (i : ℝ) < n := Nat.cast_lt.mpr hi
    have hj' : (j : ℝ) < n := Nat.cast_lt.mpr hj
    have hi0 : (0 : ℝ) ≤ i := Nat.cast_nonneg i
    have hj0 : (0 : ℝ) ≤ j := Nat.cast_nonneg j
    exact sq_le_sq' (by linarith) (by linarith)
  rw [apart, hx, hy, hypot_mul, abs_of_pos hnav.resolution_pos, mul_comm]
  refine mul_le_mul_of_nonneg_right ?_ hnav.resolution_pos.le
  exact Real.sqrt_le_sqrt (add_le_add (hsquare _ _ _ ha.1 hb.1) (hsquare _ _ _ ha.2 hb.2))

theorem mem_smoothedPath {p : Planner ℝ} {cells : List Cell} {pose : PoseStamped ℝ}
    (h : pose ∈ smoothedPath p (cells.map (poseAt p))) : ∃ c ∈ cells, pose = poseAt p c := by
  rw [smoothedPath_map] at h
  obtain ⟨c, hc, rfl⟩ := List.mem_map.mp h
  exact ⟨c, mem_keptCells hc, rfl⟩

/-- Where an `int` counts the parts of the map's diagonal it counts those of every
segment. -/
theorem cut_of_diagonal {p : Planner ℝ} {originX originY resolution : ℝ}
    (hnav : Nav2 p originX originY resolution)
    (hsmall : hypot p.costmap.sizeX p.costmap.sizeY * resolution ≤
      lit (2 ^ 31 - 1) * p.interpolationResolution)
    {cells : List Cell} (hin : ∀ c ∈ cells, p.costmap.InMap c) {a b : PoseStamped ℝ}
    (ha : a ∈ smoothedPath p (cells.map (poseAt p)))
    (hb : b ∈ smoothedPath p (cells.map (poseAt p))) : ¬ Uncut p.interpolationResolution a b := by
  obtain ⟨c, hc, rfl⟩ := mem_smoothedPath ha
  obtain ⟨d, hd, rfl⟩ := mem_smoothedPath hb
  exact not_lt.mpr ((apart_cells hnav (hin c hc) (hin d hd)).trans hsmall)

/-- The first and the last waypoint are the centres of the two given cells. -/
theorem smoothedPath_ends {K : Type} [Arith K] {p : Planner K} {cells : List Cell} {s g : Cell}
    (hlen : 3 ≤ cells.length) (hs : cells.head? = some s) (hg : cells.getLast? = some g) :
    (smoothedPath p (cells.map (poseAt p))).head? = some (poseAt p s) ∧
      (smoothedPath p (cells.map (poseAt p))).getLast? = some (poseAt p g) ∧
      2 ≤ (smoothedPath p (cells.map (poseAt p))).length := by
  have hmap : (cells.map (poseAt p)).length = cells.length := List.length_map _
  have hne : cells.map (poseAt p) ≠ [] := List.ne_nil_of_length_pos (by omega)
  have heq := smoothedPath_eq (p := p) hne
  have hlast := keptIndices_getLast? (p := p) hne
  refine ⟨?_, ?_, ?_⟩
  · have hhead := congrArg List.head? heq
    rw [List.head?_map, List.head?_map] at hhead
    have hfirst : (cells.map (poseAt p))[0]? = some (poseAt p s) := by
      rw [← List.head?_eq_getElem?, List.head?_map, hs]
      rfl
    have hkept : (keptIndices p (cells.map (poseAt p))).head? = some 0 := rfl
    rw [hkept, Option.map_some, hfirst] at hhead
    exact Option.map_injective (Option.some_injective _) hhead
  · have hend := congrArg List.getLast? heq
    rw [List.getLast?_map, List.getLast?_map, hlast, Option.map_some,
      ← List.getLast?_eq_getElem?, List.getLast?_map, hg] at hend
    exact Option.map_injective (Option.some_injective _) hend
  · have hlength := congrArg List.length heq
    rw [List.length_map, List.length_map] at hlength
    rw [hlength]
    -- the first and the last index differ
    by_contra hshort
    have hone : keptIndices p (cells.map (poseAt p)) = [0] := by
      have hpos : (keptIndices p (cells.map (poseAt p))).length = 1 := by
        have hcons : (keptIndices p (cells.map (poseAt p))).length ≠ 0 := by simp [keptIndices]
        omega
      obtain ⟨i, hi⟩ := List.length_eq_one_iff.mp hpos
      have hhead : (keptIndices p (cells.map (poseAt p))).head? = some 0 := rfl
      rw [hi] at hhead
      rw [hi, Option.some.inj hhead]
    rw [hone] at hlast
    have hzero : 0 = (cells.map (poseAt p)).length - 1 := Option.some.inj hlast
    omega

/-- The spacing of a plan whose raw path has three cells at least. -/
theorem planPoses_spacing {p : Planner ℝ} {originX originY resolution : ℝ}
    (hnav : Nav2 p originX originY resolution) (hhypot : ∀ x y, p.hypot x y = hypot x y)
    (hres : 0 < p.interpolationResolution) {start goal : PoseStamped ℝ} {s g : Cell}
    (h : Locates p start goal s g) {cells : List Cell} (hlen : 3 ≤ cells.length)
    (hs : cells.head? = some s) (hg : cells.getLast? = some g) :
    ((planPoses p start goal (cells.map (poseAt p))).IsChain fun a b =>
        apart a b ≤ p.interpolationResolution + Real.sqrt 2 * resolution) ↔
      ((smoothedPath p (cells.map (poseAt p))).zip
          (setEnds start goal (smoothedPath p (cells.map (poseAt p))))).IsChain fun u v =>
        Uncut p.interpolationResolution u.1 v.1 →
          apart u.2 v.2 ≤ p.interpolationResolution + Real.sqrt 2 * resolution := by
  obtain ⟨hfirst, hlast, htwo⟩ := smoothedPath_ends (p := p) hlen hs hg
  have hstart := apart_centre hnav h.startCell
  have hgoal := apart_centre hnav h.goalCell
  rw [apart_comm] at hstart hgoal
  have hmoved := setEnds_moved hfirst hlast htwo hstart hgoal
  have hlong : 2 < (cells.map (poseAt p)).length := by
    rw [List.length_map]
    omega
  have htwice : Real.sqrt 2 * resolution = 2 * (Real.sqrt 2 / 2 * resolution) := by ring
  rw [planPoses, if_pos hlong, setEnds_interpolatedPath p start goal hfirst hlast htwo, htwice]
  exact movedPath_chain hhypot hres hmoved

/-- A plan whose raw path has three cells at least runs from the start pose to the
goal pose; between them it follows the smoothed path and passes through its inner
waypoints.  Its steps are the resolution plus the diagonal of a cell at most exactly
if so are those along the segments with more parts than an `int` can count, which
stay uncut. -/
theorem createPlan_poses (p : Planner ℝ) {originX originY resolution : ℝ}
    (hnav : Nav2 p originX originY resolution) (hhypot : ∀ x y, p.hypot x y = hypot x y)
    (hres : 0 < p.interpolationResolution) (choice : ℕ → ℕ) (start goal : PoseStamped ℝ)
    (plan : Path ℝ) (hplan : createPlan p choice start goal = .ok plan) :
    ∃ s g n, Locates p start goal s g ∧ search (p.query s g) choice = some n ∧
      (3 ≤ n.path.length →
        let waypoints := smoothedPath p (n.path.map (poseAt p))
        plan.poses.head? = some start ∧ plan.poses.getLast? = some goal ∧
        ((plan.poses.IsChain fun a b =>
            apart a b ≤ p.interpolationResolution + Real.sqrt 2 * resolution) ↔
          (waypoints.zip (setEnds start goal waypoints)).IsChain fun u v =>
            Uncut p.interpolationResolution u.1 v.1 →
              apart u.2 v.2 ≤ p.interpolationResolution + Real.sqrt 2 * resolution) ∧
        ∃ inner places, plan.poses = start :: inner ++ [goal] ∧
          List.Forall₂ (OnPolyline waypoints) places inner ∧ places.Pairwise Before ∧
          ∀ k w, 0 < k → k + 1 < waypoints.length → waypoints[k]? = some w → w ∈ inner) := by
  obtain ⟨s, g, h⟩ := locates_of_ok hnav hplan
  rw [createPlan_eq h] at hplan
  cases hsearch : search (p.query s g) choice with
  | none =>
    rw [hsearch] at hplan
    cases hplan
  | some n =>
    rw [hsearch] at hplan
    obtain rfl := (Except.ok.inj hplan).symm
    refine ⟨s, g, n, h, hsearch, fun hraw => ?_⟩
    intro waypoints
    have hs : (p.query s g).costmap.InMap (p.query s g).start := h.startInMap
    have hpath : HexPath p.costmap s g n.path := (search_path hs hsearch).1
    obtain ⟨hfirst, hlast, htwo⟩ := smoothedPath_ends (p := p) hraw hpath.first hpath.last
    obtain ⟨inner, places, hfilled, hfills⟩ := interpolatedPath_fills p hlast
    obtain ⟨rest, place, places, rfl, rfl⟩ := hfills.exists_cons hfirst htwo
    have hposes : planPoses p start goal (n.path.map (poseAt p)) = start :: rest ++ [goal] := by
      have hlong : 2 < (n.path.map (poseAt p)).length := by
        rw [List.length_map]
        omega
      rw [planPoses, if_pos hlong, hfilled, setEnds_cons_snoc]
    have hon := hfills.on
    rw [List.forall₂_cons] at hon
    refine ⟨?_, ?_, ?_, rest, places, hposes, hon.2, hfills.ordered.of_cons, ?_⟩
    · show (planPoses p start goal _).head? = _
      rw [hposes]
      rfl
    · show (planPoses p start goal _).getLast? = _
      rw [hposes]
      exact List.getLast?_concat
    · exact planPoses_spacing hnav hhypot hres h hraw hpath.first hpath.last
    · intro k w hk hklt hw
      obtain ⟨i, hi, hpos⟩ := hfills.present k w hw hklt
      obtain ⟨i, rfl⟩ : ∃ i', i = i' + 1 := ⟨i - 1, by have := hpos hk; omega⟩
      exact List.mem_of_getElem? hi

/-! ## The way round -/

/-- A map of unit cells with a corner at the origin, without rounding. -/
noncomputable def exactPlanner (m : Costmap) (resolution : ℝ) : Planner ℝ where
  costmap := m
  globalFrame := "map"
  interpolationResolution := resolution
  hypot := hypot
  worldToMap := fun x y =>
    if 0 ≤ x ∧ x < m.sizeX ∧ 0 ≤ y ∧ y < m.sizeY then some ⟨⌊x⌋.toNat, ⌊y⌋.toNat⟩ else none
  mapToWorld := fun c => ((c.x : ℝ) + ratio 1 2, (c.y : ℝ) + ratio 1 2)
  lineIterator := fun a b =>
    (Bresenham.walk a.toPoint b.toPoint).map fun w => ⟨w.1.toNat, w.2.toNat⟩

theorem exactPlanner_nav2 (m : Costmap) (resolution : ℝ) :
    Nav2 (exactPlanner m resolution) 0 0 1 := by
  refine nav2_of_unitCells (fun c => ?_) (fun _ _ => rfl) (fun _ _ => rfl)
  show ((c.x : ℝ) + ratio 1 2, (c.y : ℝ) + ratio 1 2) = _
  rw [ratio_eq]
  norm_num

/-- The planner of `detour` on unit cells. -/
noncomputable def detourPlanner : Planner ℝ := exactPlanner detourMap (1 / lit 2)

theorem detourPlanner_nav2 : Nav2 detourPlanner 0 0 1 := exactPlanner_nav2 _ _

/-- Two poses off the centres of their cells. -/
noncomputable def detourStart : PoseStamped ℝ := ⟨"map", 0.25, 1.75, 0, .unset⟩
noncomputable def detourGoal : PoseStamped ℝ := ⟨"map", 3.125, 1.5, 0, .unset⟩

theorem detour_locates : Locates detourPlanner detourStart detourGoal ⟨0, 1⟩ ⟨3, 1⟩ := by
  have hstart : detourPlanner.worldToMap detourStart.x detourStart.y = some ⟨0, 1⟩ := by
    rw [detourPlanner_nav2.worldToMap]
    refine ⟨by decide, ?_, ?_⟩ <;> norm_num [detourStart]
  have hgoal : detourPlanner.worldToMap detourGoal.x detourGoal.y = some ⟨3, 1⟩ := by
    rw [detourPlanner_nav2.worldToMap]
    refine ⟨by decide, ?_, ?_⟩ <;> norm_num [detourGoal]
  exact ⟨rfl, rfl, hstart, hgoal, by decide, by decide⟩

theorem createPlan_poses_detour :
    ∃ plan, createPlan detourPlanner (fun _ => 0) detourStart detourGoal = .ok plan ∧
      plan.poses.head? = some detourStart ∧ plan.poses.getLast? = some detourGoal ∧
      plan.poses.IsChain fun a b =>
        apart a b ≤ detourPlanner.interpolationResolution + Real.sqrt 2 * 1 := by
  have hsearch : search (detourPlanner.query ⟨0, 1⟩ ⟨3, 1⟩) (fun _ => 0) = some detour4 :=
    detour_search _
  have hplan := createPlan_eq detour_locates (fun _ => 0)
  rw [hsearch] at hplan
  refine ⟨_, hplan, ?_⟩
  have hhalf : detourPlanner.interpolationResolution = 1 / 2 := by
    show (1 : ℝ) / ((2 : ℤ) : ℝ) = 1 / 2
    norm_num
  have hres : 0 < detourPlanner.interpolationResolution := by
    rw [hhalf]
    norm_num
  obtain ⟨s, g, n, hlocates, hfound, hposes⟩ := createPlan_poses detourPlanner detourPlanner_nav2
    (fun _ _ => rfl) hres (fun _ => 0) detourStart detourGoal _ hplan
  obtain rfl : s = ⟨0, 1⟩ :=
    Option.some.inj (hlocates.startCell.symm.trans detour_locates.startCell)
  obtain rfl : g = ⟨3, 1⟩ :=
    Option.some.inj (hlocates.goalCell.symm.trans detour_locates.goalCell)
  obtain rfl : n = detour4 := Option.some.inj (hfound.symm.trans hsearch)
  have hraw : detour4.path.length = 5 := rfl
  obtain ⟨hhead, hlast, hchain, -⟩ := hposes (by omega)
  refine ⟨hhead, hlast, hchain.mpr ?_⟩
  have hsmall : hypot detourMap.sizeX detourMap.sizeY * 1 ≤
      lit (2 ^ 31 - 1) * detourPlanner.interpolationResolution := by
    rw [hhalf, hypot, lit_eq, mul_one]
    refine Real.sqrt_le_iff.mpr ⟨by norm_num, ?_⟩
    norm_num [detourMap]
  have hin : ∀ c ∈ detour4.path, detourMap.InMap c := by
    show ∀ c ∈ [(⟨0, 1⟩ : Cell), ⟨0, 0⟩, ⟨1, 0⟩, ⟨2, 1⟩, ⟨3, 1⟩], detourMap.InMap c
    decide
  rw [List.isChain_iff_getElem]
  intro i hi huncut
  rw [List.getElem_zip, List.getElem_zip] at huncut
  exact absurd huncut (cut_of_diagonal detourPlanner_nav2 hsmall hin (List.getElem_mem _)
    (List.getElem_mem _))

/-! ## A row of three cells -/

theorem row_cells : 3 * 1 < 2 ^ 31 := by decide

def rowMap : Costmap where
  sizeX := 3
  sizeY := 1
  getCost := fun _ => 0
  cells_lt := row_cells

/-- The poses are to be a millionth of a micrometre apart. -/
noncomputable def rowPlanner : Planner ℝ := exactPlanner rowMap (ratio 1 1000000000000)

theorem rowPlanner_nav2 : Nav2 rowPlanner 0 0 1 := exactPlanner_nav2 _ _

/-- The first and the last cell. -/
noncomputable def rowStart : PoseStamped ℝ := poseAt rowPlanner ⟨0, 0⟩
noncomputable def rowGoal : PoseStamped ℝ := poseAt rowPlanner ⟨2, 0⟩

theorem row_locates : Locates rowPlanner rowStart rowGoal ⟨0, 0⟩ ⟨2, 0⟩ :=
  ⟨rfl, rfl, rowPlanner_nav2.worldToMap_poseAt (by decide),
    rowPlanner_nav2.worldToMap_poseAt (by decide), by decide, by decide⟩

noncomputable def rowQuery : Query ℝ := rowPlanner.query ⟨0, 0⟩ ⟨2, 0⟩

noncomputable def row1 : AStarNode ℝ := (startNode rowQuery).child rowQuery ⟨1, 0⟩
noncomputable def row2 : AStarNode ℝ := row1.child rowQuery ⟨2, 0⟩

/-- One cell is open at a time. -/
theorem row_search (choice : ℕ → ℕ) : search rowQuery choice = some row2 := by
  have hloop : searchLoop rowQuery choice 20 (SearchState.init rowQuery) = some (some row2) := by
    rw [searchLoop_expand choice 19 (n := startNode rowQuery) (a := []) (b := []) rfl
      (fun m hm => absurd hm List.not_mem_nil) rfl (by decide)]
    rw [searchLoop_expand choice 18 (n := row1) (a := []) (b := []) rfl
      (fun m hm => absurd hm List.not_mem_nil) rfl (by decide)]
    exact searchLoop_found choice 17 (n := row2) (a := []) (b := []) rfl
      (fun m hm => absurd hm List.not_mem_nil) rfl (by decide)
  rw [search]
  show (searchLoop rowQuery choice 20 (SearchState.init rowQuery)).getD none = _
  rw [hloop]
  rfl

theorem row_smoothed : smoothedPath rowPlanner (row2.path.map (poseAt rowPlanner)) =
    [rowStart, rowGoal] := by
  have hpath : row2.path = [⟨0, 0⟩, ⟨1, 0⟩, ⟨2, 0⟩] := rfl
  have hround : ∀ c ∈ row2.path, rowPlanner.worldToMap (rowPlanner.mapToWorld c).1
      (rowPlanner.mapToWorld c).2 = some c := by
    intro c hc
    refine rowPlanner_nav2.worldToMap_poseAt ?_
    rw [hpath] at hc
    revert c
    show ∀ c ∈ [(⟨0, 0⟩ : Cell), ⟨1, 0⟩, ⟨2, 0⟩], rowMap.InMap c
    decide
  have hsees : visible rowPlanner (row2.path.map (poseAt rowPlanner)) 0 2 = true := by
    rw [visible_iff_sees hround]
    exact ⟨⟨0, 0⟩, ⟨2, 0⟩, rfl, rfl, by decide⟩
  have hkept : keptIndices rowPlanner (row2.path.map (poseAt rowPlanner)) = [0, 2] := by
    show 0 :: keptAfter rowPlanner (row2.path.map (poseAt rowPlanner)) 3 0 = [0, 2]
    have hnext : nextIdx rowPlanner (row2.path.map (poseAt rowPlanner)) 0 2 = 2 := by
      rw [nextIdx, if_pos (by omega), if_pos hsees]
    have hlast : (row2.path.map (poseAt rowPlanner)).length - 1 = 2 := rfl
    rw [keptAfter, hlast, if_pos (by omega), hnext, keptAfter, hlast, if_neg (by omega)]
  rw [smoothedPath, hkept]
  rfl

/-- The one segment of two metres has more parts than an `int` can count, and the
plan goes from the start to the goal in one step. -/
theorem createPlan_row_apart :
    Nav2 rowPlanner 0 0 1 ∧ 0 < rowPlanner.interpolationResolution ∧
      ∃ plan n, createPlan rowPlanner (fun _ => 0) rowStart rowGoal = .ok plan ∧
        search rowQuery (fun _ => 0) = some n ∧ 3 ≤ n.path.length ∧
        ¬ plan.poses.IsChain fun a b =>
          apart a b ≤ rowPlanner.interpolationResolution + Real.sqrt 2 * 1 := by
  have hsmall : rowPlanner.interpolationResolution = 1 / 1000000000000 := by
    show ((1 : ℤ) : ℝ) / ((1000000000000 : ℤ) : ℝ) = 1 / 1000000000000
    norm_num
  have hres : 0 < rowPlanner.interpolationResolution := by
    rw [hsmall]
    norm_num
  have hplan := createPlan_eq row_locates (fun _ => 0)
  have hsearch : search (rowPlanner.query ⟨0, 0⟩ ⟨2, 0⟩) (fun _ => 0) = some row2 := row_search _
  rw [hsearch] at hplan
  refine ⟨rowPlanner_nav2, hres, _, row2, hplan, hsearch, Nat.le_refl 3, ?_⟩
  have hlong : 3 ≤ row2.path.length := Nat.le_refl 3
  have hspacing := planPoses_spacing rowPlanner_nav2 (fun _ _ => rfl) hres row_locates hlong rfl rfl
  have hapart : apart rowStart rowGoal = 2 := by
    have hx : rowGoal.x - rowStart.x = 2 := by
      show ((2 : ℕ) : ℝ) + ratio 1 2 - (((0 : ℕ) : ℝ) + ratio 1 2) = 2
      rw [ratio_eq]
      norm_num
    have hy : rowGoal.y - rowStart.y = 0 := sub_self _
    rw [apart, hx, hy, hypot, Real.sqrt_eq_iff_mul_self_eq_of_pos (by norm_num)]
    norm_num
  have hroot : Real.sqrt 2 < 3 / 2 := by
    rw [Real.sqrt_lt' (by norm_num)]
    norm_num
  intro hchain
  have hlegs := hspacing.mp hchain
  rw [row_smoothed] at hlegs
  have hshort := List.isChain_pair.mp hlegs
  have huncut : Uncut rowPlanner.interpolationResolution rowStart rowGoal := by
    rw [Uncut, hapart, lit_eq, hsmall]
    norm_num
  have hle : apart rowStart rowGoal ≤
      rowPlanner.interpolationResolution + Real.sqrt 2 * 1 := hshort huncut
  rw [hapart, hsmall] at hle
  linarith

end CustomPlanner
end RobotNav
