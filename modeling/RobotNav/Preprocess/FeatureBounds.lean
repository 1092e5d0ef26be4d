/-
Which lines `give_feature` goes through without an index out of range.

The loops for edges, for small planes and for the clouds keep away from both ends.  What can
go wrong is the search for the head of a line, and a plane that is marked up to its end
when that is the end of the line.
-/
import Mathlib.Logic.Relation
import Mathlib.Order.Bounds.Basic
import RobotNav.Preprocess.Features

namespace RobotNav
namespace Preprocess
namespace FeatureParams

variable {K : Type} [Arith K]

/-! ## Planes of a line -/

section

variable (params : FeatureParams K) (root : K → K) (unset : Unset K) (pl : List (PointType K))

def BlindAt (j : ℕ) : Prop := ∃ p, pl[j]? = some p ∧ params.range p < params.blind

/-- The point is not in the group of point `i`. -/
def FarFrom (i j : ℕ) : Prop :=
  ∃ c p, pl[i]? = some c ∧ pl[j]? = some p ∧
    params.groupDis (params.range c) ≤ (p.minus c).dot (p.minus c)

/-- The group of point `i` does not go on at `j`. -/
def Stops (i j : ℕ) : Prop :=
  pl.length ≤ j ∨ params.BlindAt pl j ∨ (i + groupSize ≤ j ∧ params.FarFrom pl i j)

def GroupEnd (i e : ℕ) : Prop := IsLeast {j | i ≤ j ∧ params.Stops pl i j} e

/-- The distance to the next point, which the last one does not have. -/
def distaAt (j : ℕ) : K :=
  match pl[j]?, pl[j + 1]? with
  | some p, some q => root ((p.minus q).dot (p.minus q))
  | _, _ => unset.dista

def groupDistas (i e : ℕ) : List K := (List.range' i (e - i)).map (distaAt root unset pl)

/-- The widest of some points about the line from `c` along `v`. -/
def lengWid (c : PointType K) (v : Vector3d K) (ps : List (PointType K)) (lengWid : K) : K :=
  ps.foldl (fun lengWid p => if lengWid < width p c v then width p c v else lengWid) lengWid

/-- The points from `i` to before `e` pass for a plane. -/
def PlaneFrom (i e : ℕ) : Prop :=
  ¬ params.BlindAt pl e ∧ ∃ c last, pl[i]? = some c ∧ pl[min e (pl.length - 1)]? = some last ∧
    params.accepts ((last.minus c).dot (last.minus c))
      (lengWid c (last.minus c) ((pl.take e).drop (i + 1)) (lit 0))
      (groupDistas root unset pl i e) = true

/-- From one place where a group may start to the next. -/
def NextStart (i i' : ℕ) : Prop :=
  i + groupSize < pl.length ∧
    ((params.BlindAt pl i ∧ i' = i + 1) ∨
      ¬ params.BlindAt pl i ∧ ∃ e, params.GroupEnd pl i e ∧
        ((params.PlaneFrom root unset pl i e ∧ i' = e) ∨
          ¬ params.PlaneFrom root unset pl i e ∧ i' = e + 1))

/-- A plane from `i` goes on to the end of the line. -/
def PlaneToEnd (i : ℕ) : Prop :=
  i + groupSize < pl.length ∧ ¬ params.BlindAt pl i ∧ params.GroupEnd pl i pl.length ∧
    params.PlaneFrom root unset pl i pl.length

/-- The first point not within `blind`. -/
def Head (head : ℕ) : Prop := IsLeast {j | j < pl.length ∧ ¬ params.BlindAt pl j} head

/-- There is a point that is not within `blind`, and none of the groups from the first such
point on is a plane to the end of the line. -/
def LineFits : Prop :=
  ∃ head, params.Head pl head ∧
    ∀ i, Relation.ReflTransGen (params.NextStart root unset pl) head i →
      ¬ params.PlaneToEnd root unset pl i

end

variable {params : FeatureParams K} {root : K → K} {unset : Unset K} {pl : List (PointType K)}
  {types : List (OrgType K)}

theorem GroupEnd.unique {i e e' : ℕ} (h : params.GroupEnd pl i e)
    (h' : params.GroupEnd pl i e') : e = e' := IsLeast.unique h h'

theorem nextStart_iff {i j e : ℕ} (hi : i + groupSize < pl.length) (hnot : ¬ params.BlindAt pl i)
    (hend : params.GroupEnd pl i e) :
    params.NextStart root unset pl i j ↔
      (params.PlaneFrom root unset pl i e ∧ j = e) ∨
        ¬ params.PlaneFrom root unset pl i e ∧ j = e + 1 := by
  constructor
  · rintro ⟨-, ⟨hblind, -⟩ | ⟨-, e', hend', hnext⟩⟩
    · exact absurd hblind hnot
    · rw [hend.unique hend']
      exact hnext
  · exact fun hnext => ⟨hi, .inr ⟨hnot, e, hend, hnext⟩⟩

/-- A group that has not stopped before `e`. -/
theorem groupEnd_of_clear {i e : ℕ} (hle : i ≤ e)
    (hclear : ∀ j, i ≤ j → j < e → ¬ params.Stops pl i j) (hstop : params.Stops pl i e) :
    params.GroupEnd pl i e := by
  refine ⟨⟨hle, hstop⟩, fun j hj => ?_⟩
  by_contra hlt
  exact hclear j hj.1 (not_le.mp hlt) hj.2

/-! ## `types` -/

/-- `types` has the ranges and distances of the line. -/
structure Measured (params : FeatureParams K) (root : K → K) (unset : Unset K)
    (pl : List (PointType K)) (types : List (OrgType K)) : Prop where
  length : types.length = pl.length
  range : ∀ (j : ℕ) (t : OrgType K) (p : PointType K), types[j]? = some t → pl[j]? = some p →
    t.range = params.range p
  dista : ∀ (j : ℕ) (t : OrgType K), types[j]? = some t → t.dista = distaAt root unset pl j

namespace Measured

/-- An entry with the point it is about. -/
theorem entry (h : Measured params root unset pl types) {j : ℕ} (hj : j < pl.length) :
    ∃ t p, types[j]? = some t ∧ pl[j]? = some p ∧ t.range = params.range p ∧
      t.dista = distaAt root unset pl j := by
  obtain ⟨p, hp⟩ := exists_getElem? hj
  obtain ⟨t, ht⟩ := exists_getElem? (h.length ▸ hj)
  exact ⟨t, p, ht, hp, h.range j t p ht hp, h.dista j t ht⟩

theorem blindAt_iff {t : OrgType K} {p : PointType K} {j : ℕ} (hp : pl[j]? = some p)
    (hrange : t.range = params.range p) : params.BlindAt pl j ↔ t.range < params.blind := by
  rw [BlindAt, hp, hrange]
  simp

/-- Writes to the other fields. -/
theorem writeAt (h : Measured params root unset pl types) {i : ℕ} (hi : i < pl.length)
    {f : OrgType K → OrgType K} (hrange : ∀ t, (f t).range = t.range)
    (hdista : ∀ t, (f t).dista = t.dista) :
    ∃ types', RobotNav.writeAt types i f = some types' ∧
      Measured params root unset pl types' := by
  obtain ⟨t, ht⟩ := exists_getElem? (h.length ▸ hi)
  have hset {j : ℕ} {t' : OrgType K} (hj : (types.set i (f t))[j]? = some t') :
      ∃ t₀, types[j]? = some t₀ ∧ t'.range = t₀.range ∧ t'.dista = t₀.dista := by
    by_cases hji : i = j
    · subst hji
      rw [List.getElem?_set_self (h.length ▸ hi)] at hj
      obtain rfl := Option.some.inj hj
      exact ⟨t, ht, hrange t, hdista t⟩
    · rw [List.getElem?_set_ne hji] at hj
      exact ⟨t', hj, rfl, rfl⟩
  refine ⟨types.set i (f t), writeAt_eq ht, ?_, ?_, ?_⟩
  · rw [List.length_set]
    exact h.length
  · intro j t' p ht' hp
    obtain ⟨t₀, ht₀, hr, -⟩ := hset ht'
    exact hr.trans (h.range j t₀ p ht₀ hp)
  · intro j t' ht'
    obtain ⟨t₀, ht₀, -, hd⟩ := hset ht'
    exact hd.trans (h.dista j t₀ ht₀)

end Measured

/-! ## `plane_judge` -/

/-- What the loops of `plane_judge` have to gather. -/
def Gathered.Fits (params : FeatureParams K) (root : K → K) (unset : Unset K)
    (pl : List (PointType K)) (i : ℕ) : Gathered K → Prop
  | .cut e => params.GroupEnd pl i e ∧ params.BlindAt pl e
  | .whole e disarr v twoDis => params.GroupEnd pl i e ∧ ¬ params.BlindAt pl e ∧
      disarr = groupDistas root unset pl i e ∧
      ∃ c last, pl[i]? = some c ∧ pl[min e (pl.length - 1)]? = some last ∧
        v = last.minus c ∧ twoDis = v.dot v

theorem groupDistas_succ {i e : ℕ} (hie : i ≤ e) {t : OrgType K}
    (ht : t.dista = distaAt root unset pl e) :
    groupDistas root unset pl i e ++ [t.dista] = groupDistas root unset pl i (e + 1) := by
  have hcount : e + 1 - i = (e - i) + 1 := by omega
  rw [groupDistas, groupDistas, hcount, List.range'_concat, List.map_append, ht]
  simp only [Nat.one_mul, Nat.add_sub_cancel' hie, List.map_cons, List.map_nil]

theorem firstGroup_spec (h : Measured params root unset pl types) {i : ℕ}
    (hi : i + groupSize < pl.length) (v : Vector3d K) (twoDis : K) {iNex n : ℕ}
    (hie : i ≤ iNex) (hn : iNex + n = i + groupSize)
    (hclear : ∀ j, i ≤ j → j < iNex → ¬ params.Stops pl i j) :
    (∃ e, params.firstGroup types v twoDis iNex n (groupDistas root unset pl i iNex) =
        some (.cut e) ∧ params.GroupEnd pl i e ∧ params.BlindAt pl e) ∨
      params.firstGroup types v twoDis iNex n (groupDistas root unset pl i iNex) =
        some (.whole (i + groupSize) (groupDistas root unset pl i (i + groupSize)) v twoDis) ∧
      ∀ j, i ≤ j → j < i + groupSize → ¬ params.Stops pl i j := by
  induction n generalizing iNex with
  | zero =>
    obtain rfl : iNex = i + groupSize := hn
    exact .inr ⟨rfl, hclear⟩
  | succ n ih =>
    obtain ⟨t, p, ht, hp, hrange, hdista⟩ := h.entry (j := iNex) (by omega)
    have hblind := Measured.blindAt_iff hp hrange
    rw [firstGroup, ht, Option.bind_eq_bind, Option.bind_some]
    by_cases hnear : t.range < params.blind
    · rw [if_pos hnear]
      have hstop := hblind.mpr hnear
      exact .inl ⟨iNex, rfl, groupEnd_of_clear hie hclear (.inr (.inl hstop)), hstop⟩
    · rw [if_neg hnear, groupDistas_succ hie hdista]
      refine ih (by omega) (by omega) fun j hj hlt => ?_
      rcases Nat.lt_succ_iff_lt_or_eq.mp hlt with hlt | rfl
      · exact hclear j hj hlt
      · rintro (hend | hstop | ⟨hfar, -⟩)
        · omega
        · exact hnear (hblind.mp hstop)
        · omega

theorem growGroup_spec (h : Measured params root unset pl types) {i : ℕ} {c : PointType K}
    (hc : pl[i]? = some c) (v : Vector3d K) (twoDis : K) {iNex : ℕ}
    (hie : i + groupSize ≤ iNex) (hend : iNex ≤ pl.length)
    (hclear : ∀ j, i ≤ j → j < iNex → ¬ params.Stops pl i j)
    (hlast : pl.length = iNex → ∃ last, pl[pl.length - 1]? = some last ∧ v = last.minus c ∧
      twoDis = v.dot v) :
    ∃ g, params.growGroup pl types (params.groupDis (params.range c)) i iNex
        (groupDistas root unset pl i iNex) v twoDis = some g ∧ g.Fits params root unset pl i := by
  have hi := (List.getElem?_eq_some_iff.mp hc).1
  induction hn : pl.length - iNex using Nat.strong_induction_on generalizing iNex v twoDis with
  | h n ih =>
    rw [growGroup]
    by_cases hstop : pl.length ≤ i ∨ pl.length ≤ iNex
    · obtain rfl : iNex = pl.length := by omega
      obtain ⟨last, hread, hv, htwo⟩ := hlast rfl
      rw [if_pos hstop]
      refine ⟨_, rfl, groupEnd_of_clear (by omega) hclear (.inl (le_refl _)), ?_, rfl, c, last, hc,
        ?_, hv, htwo⟩
      · rintro ⟨p, hp, -⟩
        rw [List.getElem?_eq_none (le_refl _)] at hp
        cases hp
      · rw [min_eq_right (Nat.sub_le _ _)]
        exact hread
    · rw [not_or, not_le, not_le] at hstop
      obtain ⟨t, p, ht, hp, hrange, hdista⟩ := h.entry hstop.2
      have hblind := Measured.blindAt_iff hp hrange
      have hpast : ¬ (pl.length ≤ i ∨ pl.length ≤ iNex) := by omega
      rw [if_neg hpast, ht, Option.bind_eq_bind, Option.bind_some]
      by_cases hnear : t.range < params.blind
      · rw [if_pos hnear]
        have hblindAt := hblind.mpr hnear
        exact ⟨_, rfl, groupEnd_of_clear (by omega) hclear (.inr (.inl hblindAt)), hblindAt⟩
      · rw [if_neg hnear, hp, Option.bind_eq_bind, Option.bind_some, hc, Option.bind_some]
        dsimp only
        have hnot : ¬ params.BlindAt pl iNex := fun hblindAt => hnear (hblind.mp hblindAt)
        by_cases hfar : params.groupDis (params.range c) ≤ (p.minus c).dot (p.minus c)
        · rw [if_pos hfar]
          refine ⟨_, rfl, groupEnd_of_clear (by omega) hclear ?_, hnot, rfl, c, p, hc, ?_, rfl, rfl⟩
          · exact .inr (.inr ⟨hie, c, p, hc, hp, hfar⟩)
          · rw [min_eq_left (by omega)]
            exact hp
        · rw [if_neg hfar, groupDistas_succ (by omega) hdista]
          refine ih _ (by omega) _ _ (by omega) (by omega) (fun j hj hlt => ?_) (fun hlen => ?_) rfl
          · rcases Nat.lt_succ_iff_lt_or_eq.mp hlt with hlt | rfl
            · exact hclear j hj hlt
            · rintro (hout | hblindAt | ⟨-, c', p', hc', hp', hfar'⟩)
              · omega
              · exact hnot hblindAt
              · obtain rfl := Option.some.inj (hc.symm.trans hc')
                obtain rfl := Option.some.inj (hp.symm.trans hp')
                exact hfar hfar'
          · have hprev : pl.length - 1 = iNex := by omega
            exact ⟨p, by rw [hprev, hp], rfl, rfl⟩

/-- The loop takes the points from `j` to before `e`. -/
theorem lengWidLoop_from {i : ℕ} {c : PointType K} (hc : pl[i]? = some c) (v : Vector3d K)
    {e j : ℕ} (hj : j ≤ e) (he : e ≤ pl.length) (start : K) :
    loop (fun j lengWid =>
        if pl.length ≤ j ∨ pl.length ≤ i then some (.done lengWid)
        else do
          let p ← pl[j]?
          let c ← pl[i]?
          let lw := width p c v
          some (.yield (if lengWid < lw then lw else lengWid)))
      j (e - j) start = some (lengWid c v ((pl.take e).drop j) start) := by
  have hi := (List.getElem?_eq_some_iff.mp hc).1
  induction hn : e - j generalizing j start with
  | zero =>
    obtain rfl : j = e := by omega
    rw [List.drop_eq_nil_of_le (List.length_take_le _ _)]
    rfl
  | succ n ih =>
    have hlt : j < pl.length := by omega
    have hin : ¬ (pl.length ≤ j ∨ pl.length ≤ i) := by omega
    obtain ⟨p, hp⟩ := exists_getElem? hlt
    have hdrop : (pl.take e).drop j = p :: (pl.take e).drop (j + 1) := by
      rw [List.drop_eq_getElem_cons (by rw [List.length_take]; omega), List.getElem_take]
      congr 1
      exact Option.some.inj ((List.getElem?_eq_getElem hlt).symm.trans hp)
    rw [loop_yield (t := if start < width p c v then width p c v else start) (by
      rw [if_neg hin, hp, hc]
      rfl), hdrop]
    exact ih (by omega) _ (by omega)

theorem lengWidLoop_spec {i e : ℕ} {c : PointType K} (hc : pl[i]? = some c) (hie : i < e)
    (he : e ≤ pl.length) (v : Vector3d K) :
    lengWidLoop pl i e v = some (lengWid c v ((pl.take e).drop (i + 1)) (lit 0)) :=
  lengWidLoop_from hc v hie he (lit 0)

/-- `plane_judge` reads nothing outside the line, and finds the planes. -/
theorem planeJudge_spec (h : Measured params root unset pl types) {i : ℕ}
    (hi : i + groupSize < pl.length) :
    ∃ judged, params.planeJudge unset pl types i = some judged ∧
      params.GroupEnd pl i judged.iNex ∧
      (judged.planeType = 1 ↔ params.PlaneFrom root unset pl i judged.iNex) := by
  obtain ⟨t, c, ht, hc, hrange, -⟩ := h.entry (j := i) (by omega)
  have hnil : groupDistas root unset pl i i = [] := by rw [groupDistas, Nat.sub_self]; rfl
  have hcut {e : ℕ} (hblind : params.BlindAt pl e) :
      ((2 : ℕ) = 1 ↔ params.PlaneFrom root unset pl i e) :=
    iff_of_false (by omega) fun hplane => hplane.1 hblind
  rw [planeJudge, ht, Option.bind_eq_bind, Option.bind_some, ← hnil]
  rcases firstGroup_spec h hi unset.vec unset.twoDis (le_refl i) rfl
    (fun j hj hlt => absurd hlt (not_lt.mpr hj)) with ⟨e, hfirst, hend, hblind⟩ | ⟨hfirst, hclear⟩
  · rw [hfirst]
    exact ⟨⟨2, e, .zero⟩, rfl, hend, hcut hblind⟩
  · obtain ⟨g, hgrow, hfits⟩ := growGroup_spec h hc unset.vec unset.twoDis (le_refl _) hi.le hclear
      (fun hlen => by omega)
    rw [hfirst, Option.bind_eq_bind, Option.bind_some]
    dsimp only
    rw [hrange, hgrow, Option.bind_eq_bind, Option.bind_some]
    cases g with
    | cut e => exact ⟨⟨2, e, .zero⟩, rfl, hfits.1, hcut hfits.2⟩
    | whole e disarr v twoDis =>
      obtain ⟨hend, hnot, rfl, c', last, hc', hread, rfl, rfl⟩ := hfits
      obtain rfl := Option.some.inj (hc.symm.trans hc')
      have he : e ≤ pl.length := hend.2 ⟨by omega, .inl (le_refl _)⟩
      have hie : i < e := by
        by_contra hle
        exact hclear e hend.1.1 (by simp only [groupSize]; omega) hend.1.2
      dsimp only
      rw [lengWidLoop_spec hc hie he, Option.bind_some]
      split_ifs with haccepts
      · exact ⟨_, rfl, hend, iff_of_true rfl ⟨hnot, c, last, hc, hread, haccepts⟩⟩
      · refine ⟨_, rfl, hend, iff_of_false Nat.zero_ne_one ?_⟩
        rintro ⟨-, c', last', hc', hread', haccepts'⟩
        obtain rfl := Option.some.inj (hc.symm.trans hc')
        obtain rfl := Option.some.inj (hread.symm.trans hread')
        exact haccepts haccepts'

/-! ## The loop for planes -/

theorem markPlane_spec (h : Measured params root unset pl types) {i : ℕ} {judged : Judged K}
    (hi : i ≤ judged.iNex) (he : judged.iNex < pl.length) (lastState : ℕ)
    (lastDirect : Vector3d K) :
    ∃ types', params.markPlane types i judged lastState lastDirect = some types' ∧
      Measured params root unset pl types' := by
  obtain ⟨marked, hloop, hmarked⟩ := loop_keeps
    (fun j types => writeAt types j fun t : OrgType K =>
      { t with ftype := if j ≠ i ∧ j ≠ judged.iNex then .realPlane else .possPlane })
    (i := i) (n := judged.iNex + 1 - i) (fun _ types => Measured params root unset pl types) h
    fun j t hij hlt ht => ht.writeAt (by omega) (fun _ => rfl) (fun _ => rfl)
  rw [markPlane, hloop, Option.bind_eq_bind, Option.bind_some]
  split_ifs
  · exact hmarked.writeAt (by omega) (fun _ => rfl) (fun _ => rfl)
  · exact ⟨marked, rfl, hmarked⟩

/-- The end of the plane is marked, too. -/
theorem markPlane_eq_none (h : Measured params root unset pl types) {i : ℕ} {judged : Judged K}
    (hi : i ≤ judged.iNex) (he : judged.iNex = pl.length) (lastState : ℕ)
    (lastDirect : Vector3d K) :
    params.markPlane types i judged lastState lastDirect = none := by
  rw [markPlane, loop_eq_none (m := pl.length) (by omega) (by omega)
    (fun _ types => Measured params root unset pl types) h]
  · rfl
  · intro j t _ hj ht
    obtain ⟨t', hwrite, ht'⟩ := ht.writeAt (f := fun t =>
      { t with ftype := if j ≠ i ∧ j ≠ judged.iNex then .realPlane else .possPlane }) hj
      (fun _ => rfl) (fun _ => rfl)
    exact ⟨t', by rw [hwrite, Option.map_some], ht'⟩
  · intro t ht
    rw [writeAt_eq_none ht.length.le, Option.map_none]

/-- What the loop for planes has to leave when it goes on from `i`. -/
structure Outcome (params : FeatureParams K) (root : K → K) (unset : Unset K)
    (pl : List (PointType K)) (i : ℕ) (result : Option (List (OrgType K))) : Prop where
  fits : (∀ j, Relation.ReflTransGen (params.NextStart root unset pl) i j →
      ¬ params.PlaneToEnd root unset pl j) →
    ∃ types, result = some types ∧ Measured params root unset pl types
  leaves : (∃ j, Relation.ReflTransGen (params.NextStart root unset pl) i j ∧
    params.PlaneToEnd root unset pl j) → result = none

namespace Outcome

variable {i i' : ℕ} {result : Option (List (OrgType K))}

theorem step (hnext : ∀ j, params.NextStart root unset pl i j ↔ j = i')
    (hfits : ¬ params.PlaneToEnd root unset pl i)
    (h : Outcome params root unset pl i' result) : Outcome params root unset pl i result := by
  constructor
  · exact fun hall => h.fits fun j hj => hall j (.head ((hnext i').mpr rfl) hj)
  · rintro ⟨j, hj, hplane⟩
    rcases hj.cases_head with rfl | ⟨j', hj', hj⟩
    · exact absurd hplane hfits
    · obtain rfl := (hnext j').mp hj'
      exact h.leaves ⟨j, hj, hplane⟩

/-- No group starts within `group_size` of the end. -/
theorem last (hi : ¬ i + groupSize < pl.length) (h : Measured params root unset pl types) :
    Outcome params root unset pl i (some types) := by
  constructor
  · exact fun _ => ⟨types, rfl, h⟩
  · rintro ⟨j, hj, hplane⟩
    rcases hj.cases_head with rfl | ⟨j', hj', -⟩
    · exact absurd hplane.1 hi
    · exact absurd hj'.1 hi

theorem planeToEnd (h : params.PlaneToEnd root unset pl i) :
    Outcome params root unset pl i none :=
  ⟨fun hall => absurd h (hall i .refl), fun _ => rfl⟩

end Outcome

/-- The loop goes through the places where a group starts, and leaves the line at the first
plane to its end. -/
theorem surfLoop_spec (h : Measured params root unset pl types) (i lastState : ℕ)
    (lastDirect : Vector3d K) :
    Outcome params root unset pl i
      (params.surfLoop unset pl (pl.length - groupSize) i types lastState lastDirect) := by
  induction hn : pl.length - i using Nat.strong_induction_on
    generalizing i types lastState lastDirect with
  | h n ih =>
    rw [surfLoop]
    by_cases hi : i + groupSize < pl.length
    · obtain ⟨t, p, ht, hp, hrange, -⟩ := h.entry (j := i) (by omega)
      have hblind := Measured.blindAt_iff hp hrange
      rw [if_pos (by omega)]
      split
      · rename_i hread
        rw [ht] at hread
        cases hread
      rename_i t' hread
      obtain rfl := Option.some.inj (ht.symm.trans hread)
      by_cases hnear : t.range < params.blind
      · have hblindAt := hblind.mpr hnear
        rw [if_pos hnear]
        refine .step (fun j => ?_) (fun hplane => hplane.2.1 hblindAt)
          (ih _ (by omega) h (i + 1) lastState lastDirect rfl)
        simp only [NextStart, hi, hblindAt, true_and, not_true, false_and, or_false]
      · have hnot : ¬ params.BlindAt pl i := fun hblindAt => hnear (hblind.mp hblindAt)
        obtain ⟨judged, hjudged, hend, hplane⟩ := planeJudge_spec h hi
        have he : judged.iNex ≤ pl.length := hend.2 ⟨by omega, .inl (le_refl _)⟩
        have hon := planeJudge_le hjudged
        simp only [groupSize] at hon
        rw [if_neg hnear]
        split
        · rename_i hnone
          rw [hjudged] at hnone
          cases hnone
        rename_i judged' hjudged'
        obtain rfl := Option.some.inj (hjudged.symm.trans hjudged')
        split_ifs with htype
        · have hfrom := hplane.mp htype
          by_cases hlast : judged.iNex = pl.length
          · rw [markPlane_eq_none h hend.1.1 hlast]
            rw [hlast] at hend hfrom
            exact .planeToEnd ⟨hi, hnot, hend, hfrom⟩
          · obtain ⟨types', hmark, h'⟩ :=
              markPlane_spec h hend.1.1 (by omega) lastState lastDirect
            rw [hmark]
            refine .step (fun j => ?_) (fun hto => hlast (hend.unique hto.2.2.1))
              (ih _ (by omega) h' judged.iNex 1 judged.currDirect rfl)
            rw [nextStart_iff hi hnot hend]
            simp only [hfrom, true_and, not_true, false_and, or_false]
        · have hfrom : ¬ params.PlaneFrom root unset pl i judged.iNex :=
            fun h => htype (hplane.mpr h)
          refine .step (fun j => ?_) (fun hto => hfrom (hend.unique hto.2.2.1 ▸ hto.2.2.2))
            (ih _ (by omega) h (judged.iNex + 1) 0 judged.currDirect rfl)
          rw [nextStart_iff hi hnot hend]
          simp only [hfrom, false_and, not_false_eq_true, true_and, false_or]
    · rw [if_neg (by omega)]
      exact .last hi h

/-! ## The other loops of `give_feature` -/

/-- The head, or a line that is within `blind` as a whole. -/
theorem findHead_spec (h : Measured params root unset pl types) {i : ℕ} (hi : i ≤ pl.length)
    (hbefore : ∀ j < i, params.BlindAt pl j) :
    (∃ head, params.findHead types i = some head ∧ params.Head pl head) ∨
      params.findHead types i = none ∧ ∀ head, ¬ params.Head pl head := by
  induction hn : pl.length - i using Nat.strong_induction_on generalizing i with
  | h n ih =>
    rw [findHead]
    rcases Nat.lt_or_eq_of_le hi with hlt | rfl
    · obtain ⟨t, p, ht, hp, hrange, -⟩ := h.entry hlt
      have hblind := Measured.blindAt_iff hp hrange
      split
      · rename_i hread
        rw [ht] at hread
        cases hread
      rename_i t' hread
      obtain rfl := Option.some.inj (ht.symm.trans hread)
      split_ifs with hnear
      · refine ih _ (by omega) hlt (fun j hj => ?_) rfl
        rcases Nat.lt_succ_iff_lt_or_eq.mp hj with hj | rfl
        · exact hbefore j hj
        · exact hblind.mpr hnear
      · refine .inl ⟨i, rfl, ⟨hlt, fun hblindAt => hnear (hblind.mp hblindAt)⟩, fun j hj => ?_⟩
        by_contra hji
        exact hj.2 (hbefore j (not_le.mp hji))
    · right
      split
      · exact ⟨rfl, fun head hhead => hhead.1.2 (hbefore head hhead.1.1)⟩
      · rename_i t hread
        rw [List.getElem?_eq_none h.length.le] at hread
        cases hread

section

variable {i : ℕ}

theorem edgeJumpJudge_isSome (hlen : types.length = pl.length) (hi : 2 ≤ i)
    (hi' : i + 2 < pl.length) (norDir : Surround) :
    (params.edgeJumpJudge types i norDir).isSome := by
  have hbeside {n : ℕ} (hn : n ≤ 2) : norDir.beside i n < types.length := by
    cases norDir with
    | prev =>
      show i - n < types.length
      omega
    | next =>
      show i + n < types.length
      omega
  have hvalue : norDir.value ≤ 1 := by cases norDir <;> decide
  obtain ⟨near, hnear⟩ := exists_getElem? (hbeside (by omega : 1 ≤ 2))
  obtain ⟨far, hfar⟩ := exists_getElem? (hbeside (le_refl 2))
  obtain ⟨t₁, hfirst⟩ := exists_getElem? (show i + norDir.value - 1 < types.length by omega)
  obtain ⟨t₂, hsecond⟩ := exists_getElem? (show i + 3 * norDir.value - 2 < types.length by omega)
  rw [edgeJumpJudge, hnear, hfar, hfirst, hsecond]
  simp only [Option.bind_eq_bind, Option.bind_some]
  split_ifs
  · rfl
  · rfl
  · rfl

theorem edgeType_isSome (params : FeatureParams K) (hlen : types.length = pl.length) (hi : 2 ≤ i)
    (hi' : i + 2 < pl.length) (before t : OrgType K) :
    (params.edgeType types i before t).isSome := by
  have hjudge (norDir : Surround) : ((params.edgeJumpJudge types i norDir).map
      fun jump => if jump then Feature.edgeJump else t.ftype).isSome := by
    rw [Option.isSome_map]
    exact edgeJumpJudge_isSome hlen hi hi' norDir
  rw [edgeType]
  dsimp only
  split
  · split
    · exact hjudge .prev
    · rfl
  · split
    · split
      · exact hjudge .next
      · rfl
    · split
      · exact hjudge .prev
      · split
        · exact hjudge .next
        · split
          · rfl
          · rfl

theorem lookBeside_isSome (params : FeatureParams K) (unset : Unset K)
    (hlen : types.length = pl.length) (side : Surround) (hbeside : side.beside i 1 < pl.length)
    (a : PointType K) (t : OrgType K) :
    (params.lookBeside unset pl types i side a t).isSome := by
  obtain ⟨other, hother⟩ := exists_getElem? (hlen ▸ hbeside)
  obtain ⟨p, hp⟩ := exists_getElem? hbeside
  rw [lookBeside, hother, hp]
  simp only [Option.bind_eq_bind, Option.bind_some]
  split
  · rfl
  · rfl

theorem edgePass_spec (hlen : types.length = pl.length) (hi : 3 ≤ i) (hi' : i + 3 < pl.length) :
    ∃ types', params.edgePass unset pl i types = some types' ∧ types'.length = pl.length := by
  obtain ⟨t, ht⟩ := exists_getElem? (show i < types.length by omega)
  obtain ⟨before, hbefore⟩ := exists_getElem? (show i - 1 < types.length by omega)
  obtain ⟨a, ha⟩ := exists_getElem? (show i < pl.length by omega)
  rw [edgePass, ht, hbefore, ha]
  simp only [Option.bind_eq_bind, Option.bind_some]
  refine exists_ite ⟨types, rfl, hlen⟩ (exists_ite ⟨types, rfl, hlen⟩ ?_)
  obtain ⟨⟨t₁, prev⟩, hprev⟩ := Option.isSome_iff_exists.mp
    (lookBeside_isSome params unset hlen .prev
      (show i - 1 < pl.length by omega) a t)
  obtain ⟨⟨t₂, next⟩, hnext⟩ := Option.isSome_iff_exists.mp
    (lookBeside_isSome params unset hlen .next
      (show i + 1 < pl.length by omega) a t₁)
  obtain ⟨ftype, hftype⟩ := Option.isSome_iff_exists.mp
    (edgeType_isSome params hlen (by omega : 2 ≤ i) (by omega) before
      { t₂ with intersect := prev.dot next / params.norm prev / params.norm next })
  simp only [hprev, Option.bind_some, hnext, hftype]
  rw [← hlen]
  exact writeAt_length _ (by omega)

theorem smallPlanePass_spec (hlen : types.length = pl.length) (hi : 1 ≤ i)
    (hi' : i + 1 < pl.length) :
    ∃ types', params.smallPlanePass i types = some types' ∧ types'.length = pl.length := by
  obtain ⟨t, ht⟩ := exists_getElem? (show i < types.length by omega)
  obtain ⟨before, hbefore⟩ := exists_getElem? (show i - 1 < types.length by omega)
  obtain ⟨after, hafter⟩ := exists_getElem? (show i + 1 < types.length by omega)
  have hsame : ∃ types', some types = some types' ∧ types'.length = pl.length :=
    ⟨types, rfl, hlen⟩
  rw [smallPlanePass, ht, hbefore, hafter]
  simp only [Option.bind_eq_bind, Option.bind_some]
  refine exists_ite hsame (exists_ite hsame (exists_ite hsame (exists_ite hsame
    (exists_ite (exists_ite ?_ hsame) hsame))))
  obtain ⟨types₁, hwrite₁, hlen₁⟩ := writeAt_length (i := i - 1)
    (fun t : OrgType K => if t.ftype = .nor then { t with ftype := .realPlane } else t)
    (show i - 1 < types.length by omega)
  obtain ⟨types₂, hwrite₂, hlen₂⟩ := writeAt_length (i := i + 1)
    (fun t : OrgType K => if t.ftype = .nor then { t with ftype := .realPlane } else t)
    (show i + 1 < types₁.length by omega)
  simp only [hwrite₁, hwrite₂, Option.bind_some]
  rw [← hlen, ← hlen₁, ← hlen₂]
  exact writeAt_length _ (by omega)

end

theorem endSurface_isSome {j : ℕ} (hj : j ≤ pl.length) (s : Gathering K) :
    (endSurface pl j s).isSome := by
  rw [endSurface]
  split
  · rfl
  · rename_i lastSurface _
    obtain ⟨ap, hsum, -⟩ := loop_keeps (fun k (ap : PointType K) => pl[k]?.map ap.plus)
      (i := lastSurface) (n := j - lastSurface) (s := .blank) (fun _ _ => True) trivial
      fun k ap _ hlt _ => by
        obtain ⟨p, hp⟩ := exists_getElem? (show k < pl.length by omega)
        exact ⟨ap.plus p, by rw [hp, Option.map_some], trivial⟩
    rw [sumPoints, hsum]
    rfl

theorem gatherPass_isSome (params : FeatureParams K) (hlen : types.length = pl.length) {j : ℕ}
    (hj : j < pl.length) (s : Gathering K) : (params.gatherPass pl types j s).isSome := by
  obtain ⟨t, ht⟩ := exists_getElem? (hlen ▸ hj)
  obtain ⟨p, hp⟩ := exists_getElem? hj
  rw [gatherPass, ht, hp]
  simp only [Option.bind_eq_bind, Option.bind_some]
  split
  · split
    · rfl
    · rfl
  · split
    · exact endSurface_isSome hj.le _
    · exact endSurface_isSome hj.le s

/-! ## `give_feature` -/

/-- What comes after the loop for planes reads nothing outside the line. -/
theorem afterPlanes_isSome (hlen : types.length = pl.length) (head : ℕ) :
    (do
      let types ← loop (fun i types => (params.edgePass unset pl i types).map .yield)
        (head + 3) (pl.length - 3 - (head + 3)) types
      let types ← loop (fun i types => (params.smallPlanePass i types).map .yield)
        (head + 1) (pl.length - 1 - (head + 1)) types
      let s ← loop (fun j s => (params.gatherPass pl types j s).map .yield)
        head (pl.length - head) ⟨none, [], []⟩
      some s.clouds : Option (Clouds K)).isSome := by
  obtain ⟨types₁, hedges, hlen₁⟩ := loop_keeps (params.edgePass unset pl) (i := head + 3)
    (n := pl.length - 3 - (head + 3)) (fun _ types => types.length = pl.length) hlen
    fun i types hi hlt hlen => edgePass_spec hlen (by omega) (by omega)
  obtain ⟨types₂, hsmall, hlen₂⟩ := loop_keeps params.smallPlanePass (i := head + 1)
    (n := pl.length - 1 - (head + 1)) (fun _ types => types.length = pl.length) hlen₁
    fun i types hi hlt hlen => smallPlanePass_spec hlen (by omega) (by omega)
  obtain ⟨s, hgather, -⟩ := loop_keeps (params.gatherPass pl types₂) (i := head)
    (n := pl.length - head) (s := ⟨none, [], []⟩) (fun _ _ => True) trivial
    fun j s hj hlt _ => by
      obtain ⟨s', hs'⟩ := Option.isSome_iff_exists.mp
        (gatherPass_isSome params hlen₂ (show j < pl.length by omega) s)
      exact ⟨s', hs', trivial⟩
  rw [hedges, Option.bind_eq_bind, Option.bind_some, hsmall, Option.bind_eq_bind, Option.bind_some,
    hgather]
  rfl

theorem giveFeature_isSome_iff (h : Measured params root unset pl types) (hne : pl.length ≠ 0) :
    (params.giveFeature unset pl types).isSome ↔ params.LineFits root unset pl := by
  rw [giveFeature, if_neg hne]
  rcases findHead_spec h (Nat.zero_le _) (fun j hj => absurd hj (Nat.not_lt_zero j)) with
    ⟨head, hfound, hhead⟩ | ⟨hfound, hnone⟩
  · rw [hfound, Option.bind_eq_bind, Option.bind_some]
    have houtcome := surfLoop_spec h head 0 .zero
    by_cases hall : ∀ i, Relation.ReflTransGen (params.NextStart root unset pl) head i →
        ¬ params.PlaneToEnd root unset pl i
    · obtain ⟨types', hsurf, h'⟩ := houtcome.fits hall
      rw [hsurf]
      exact iff_of_true (afterPlanes_isSome h'.length head) ⟨head, hhead, hall⟩
    · rw [houtcome.leaves (by simpa only [not_forall, not_not, exists_prop] using hall)]
      refine iff_of_false (by simp) ?_
      rintro ⟨head', hhead', hall'⟩
      rw [IsLeast.unique hhead hhead'] at hall
      exact hall hall'
  · rw [hfound]
    refine iff_of_false (by simp) ?_
    rintro ⟨head, hhead, -⟩
    exact hnone head hhead

/-! ## The loop over the points of a line -/

/-- `types` after the passes for the points before `i`. -/
structure MeasuredTo (params : FeatureParams K) (root : K → K) (unset : Unset K)
    (pl : List (PointType K)) (i : ℕ) (types : List (OrgType K)) : Prop where
  length : types.length = pl.length
  range : ∀ j < i, ∀ (t : OrgType K) (p : PointType K), types[j]? = some t → pl[j]? = some p →
    t.range = params.range p
  dista : ∀ (j : ℕ) (t : OrgType K), types[j]? = some t →
    t.dista = if j < i then distaAt root unset pl j else unset.dista

theorem MeasuredTo.new : MeasuredTo params root unset pl 0
    (List.replicate pl.length (.new unset)) := by
  refine ⟨List.length_replicate, fun j hj => absurd hj (Nat.not_lt_zero j), fun j t ht => ?_⟩
  obtain rfl := List.eq_of_mem_replicate (List.mem_of_getElem? ht)
  rfl

/-- A write to the entry the next pass is about. -/
theorem MeasuredTo.set {i : ℕ} (h : MeasuredTo params root unset pl i types) {p : PointType K}
    (hp : pl[i]? = some p) {t : OrgType K} (hrange : t.range = params.range p)
    (hdista : t.dista = distaAt root unset pl i) :
    MeasuredTo params root unset pl (i + 1) (types.set i t) := by
  have hi : i < types.length := h.length ▸ (List.getElem?_eq_some_iff.mp hp).1
  refine ⟨by rw [List.length_set, h.length], fun j hj t' p' ht' hp' => ?_, fun j t' ht' => ?_⟩
  · by_cases hji : i = j
    · subst hji
      rw [List.getElem?_set_self hi] at ht'
      obtain rfl := Option.some.inj ht'
      obtain rfl := Option.some.inj (hp.symm.trans hp')
      exact hrange
    · rw [List.getElem?_set_ne hji] at ht'
      exact h.range j (by omega) t' p' ht' hp'
  · by_cases hji : i = j
    · subst hji
      rw [List.getElem?_set_self hi] at ht'
      obtain rfl := Option.some.inj ht'
      rw [if_pos (Nat.lt_succ_self i), hdista]
    · rw [List.getElem?_set_ne hji] at ht'
      rw [h.dista j t' ht']
      by_cases hj : j < i
      · rw [if_pos hj, if_pos (by omega)]
      · rw [if_neg hj, if_neg (by omega)]

theorem measurePass_spec {i : ℕ} (hi : i + 1 < pl.length)
    (h : MeasuredTo params root unset pl i types) :
    ∃ types', params.measurePass root pl i types = some types' ∧
      MeasuredTo params root unset pl (i + 1) types' := by
  obtain ⟨p, hp⟩ := exists_getElem? (show i < pl.length by omega)
  obtain ⟨q, hq⟩ := exists_getElem? hi
  have hlt : i < types.length := h.length ▸ (by omega : i < pl.length)
  obtain ⟨t, ht⟩ := exists_getElem? hlt
  have hread : (types.set i { t with range := params.range p })[i]? =
      some { t with range := params.range p } := List.getElem?_set_self hlt
  rw [measurePass, hp, hq, Option.bind_eq_bind, Option.bind_some, writeAt_eq ht,
    Option.bind_eq_bind, Option.bind_some, Option.bind_some, writeAt_eq hread, List.set_set]
  refine ⟨_, rfl, h.set hp rfl ?_⟩
  rw [distaAt, hp, hq]

theorem MeasuredTo.measured (h : MeasuredTo params root unset pl pl.length types) :
    Measured params root unset pl types := by
  refine ⟨h.length, fun j t p ht hp => ?_, fun j t ht => ?_⟩
  · exact h.range j (List.getElem?_eq_some_iff.mp hp).1 t p ht hp
  · rw [h.dista j t ht, if_pos]
    rw [← h.length]
    exact (List.getElem?_eq_some_iff.mp ht).1

/-- The bound of the loop over an empty line is a `uint` below zero. -/
theorem lineFeatures_nil (params : FeatureParams K) (root : K → K) (unset : Unset K) :
    params.lineFeatures root unset [] = none := by
  have hfirst : params.measurePass root [] 0 [] = none := rfl
  have hbound : asUint (([] : List (PointType K)).length - 1) = 4294967294 + 1 := rfl
  rw [lineFeatures, hbound, List.length_nil, List.replicate_zero, loop, hfirst]
  rfl

theorem asUint_natCast (n : ℕ) : asUint n = n := by
  rw [asUint, if_neg (by omega), Int.toNat_natCast]

theorem lineFeatures_isSome_iff :
    (params.lineFeatures root unset pl).isSome ↔ params.LineFits root unset pl := by
  rcases Nat.eq_zero_or_pos pl.length with hzero | hpos
  · rw [List.length_eq_zero_iff] at hzero
    subst hzero
    rw [lineFeatures_nil]
    refine iff_of_false (by simp) ?_
    rintro ⟨head, hhead, -⟩
    exact absurd hhead.1.1 (Nat.not_lt_zero head)
  · obtain ⟨n, hn⟩ : ∃ n, pl.length = n + 1 := ⟨pl.length - 1, by omega⟩
    have hsize : asUint ((pl.length : ℤ) - 1) = n := by
      rw [hn, Nat.cast_succ, add_sub_cancel_right, asUint_natCast]
    obtain ⟨types, hloop, hto⟩ := loop_keeps (params.measurePass root pl) (i := 0) (n := n)
      (MeasuredTo params root unset pl) .new
      fun i types _ hlt hto => measurePass_spec (by omega) hto
    obtain ⟨last, hlast⟩ := exists_getElem? (show n < pl.length by omega)
    obtain ⟨t, ht⟩ := exists_getElem? (show n < types.length by rw [hto.length]; omega)
    have hend : MeasuredTo params root unset pl pl.length
        (types.set n { t with range := params.range last }) := by
      rw [hn]
      refine MeasuredTo.set (by rwa [Nat.zero_add] at hto) hlast rfl ?_
      show t.dista = _
      rw [hto.dista n t ht, if_neg (by omega), distaAt, hlast, List.getElem?_eq_none (by omega)]
    rw [lineFeatures, hsize, hloop, Option.bind_eq_bind, Option.bind_some, hlast,
      Option.bind_eq_bind, Option.bind_some, writeAt_eq ht, Option.bind_some]
    exact giveFeature_isSome_iff hend.measured (by omega)

/-! ## The loops over the lines -/

theorem linesFeatures_isSome_iff {takes : ℕ → Bool} {unset : ℕ → Unset K}
    {plBuff : ℕ → List (PointType K)} :
    (params.linesFeatures takes root unset plBuff).isSome ↔
      ∀ j < params.nScans, takes (plBuff j).length = true →
        params.LineFits root (unset j) (plBuff j) := by
  have hfold (js : List ℕ) (clouds : Clouds K) :
      (js.foldlM (fun clouds j =>
          if takes (plBuff j).length then
            (params.lineFeatures root (unset j) (plBuff j)).map fun line =>
              ⟨clouds.plSurf ++ line.plSurf, clouds.plCorn ++ line.plCorn⟩
          else some clouds) clouds).isSome ↔
        ∀ j ∈ js, takes (plBuff j).length = true →
          params.LineFits root (unset j) (plBuff j) := by
    induction js generalizing clouds with
    | nil => simp
    | cons j js ih =>
      rw [List.foldlM_cons, List.forall_mem_cons]
      by_cases htakes : takes (plBuff j).length = true
      · rw [if_pos htakes, ← lineFeatures_isSome_iff]
        cases hline : params.lineFeatures root (unset j) (plBuff j) with
        | none => simp [htakes]
        | some line =>
          rw [Option.map_some, Option.bind_eq_bind, Option.bind_some, ih]
          simp
      · rw [if_neg htakes, Option.bind_eq_bind, Option.bind_some, ih]
        simp [htakes]
  rw [linesFeatures, hfold]
  simp only [List.mem_range]

/-- No index is out of range exactly when each line that is not passed over fits. -/
theorem features_inBounds_iff (params : FeatureParams K) (unset : ℕ → Unset K) :
    (∀ cloud, (params.oust64Features unset cloud).isSome ↔ ∀ j < params.nScans,
      params.LineFits id (unset j) (params.oust64Buffer cloud j)) ∧
    (∀ cloud, (params.velodyneFeatures unset cloud).isSome ↔ ∀ j < params.nScans,
      2 ≤ (velodyneBuffer params.toHandlerParams cloud j).length →
        params.LineFits id (unset j) (velodyneBuffer params.toHandlerParams cloud j)) ∧
    ∀ msg, (params.aviaFeatures unset msg).isSome ↔ ∀ j < params.nScans,
      5 < (params.aviaBuffer msg j).length →
        params.LineFits params.sqrt (unset j) (params.aviaBuffer msg j) := by
  refine ⟨fun cloud => ?_, fun cloud => ?_, fun msg => ?_⟩
  · rw [oust64Features, linesFeatures_isSome_iff]
    simp only [forall_const]
  · rw [velodyneFeatures, linesFeatures_isSome_iff]
    simp only [decide_eq_true_eq]
  · rw [aviaFeatures, linesFeatures_isSome_iff]
    simp only [decide_eq_true_eq]

/-- A lidar with 64 lines.  The root is that of whole squares. -/
def oust64Params : FeatureParams ℚ where
  nScans := 64
  scanRate := 10
  blind := 1 / 2
  pointFilterNum := 3
  featureEnabled := true
  timeUnitScale := 1 / 1000000
  atan2 := axisAtan2
  lidarType := .oust64
  disB := 0
  sqrt := fun x => Nat.sqrt ⌊x⌋.toNat
  cos := fun x => 1 - x * x / 2
  pi := 355 / 113

/-- One point in front of the lidar, on the first line. -/
def onePoint : List (OusterPoint ℚ) := [⟨1, 0, 0, 0, 0, 0⟩]

/-- The other lines are empty, and the first read for the second line is out of range. -/
theorem onePoint_outOfBounds :
    oust64Params.oust64Features (fun _ => ⟨0, 0, ⟨0, 0, 0⟩, 0⟩) onePoint = none := by
  rw [← Option.not_isSome_iff_eq_none, oust64Features, linesFeatures_isSome_iff]
  intro hall
  have hempty : oust64Params.oust64Buffer onePoint 1 = [] := by decide +kernel
  obtain ⟨head, hhead, -⟩ := hall 1 (by decide) rfl
  rw [hempty] at hhead
  exact absurd hhead.1.1 (Nat.not_lt_zero head)

end FeatureParams
end Preprocess
end RobotNav
