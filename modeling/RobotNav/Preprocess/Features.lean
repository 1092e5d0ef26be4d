/-
Features of a laser line: `give_feature`, `plane_judge` and `edge_jump_judge`, and the loops
of `oust64_handler`, `velodyne_handler` and `avia_handler` that call it for each line.

Every read and write of `pl` and `types` is checked, and `none` is an index out of range.
What the library and memory hold is in `FeatureParams` and `Unset`.
-/
import RobotNav.Library.Loop
import RobotNav.Preprocess.OffsetTimes

namespace RobotNav
namespace Preprocess

/-- `LID_TYPE`. -/
inductive LidType where
  | avia
  | velo16
  | oust64
  | mid360
  deriving DecidableEq

inductive Feature where
  | nor
  | possPlane
  | realPlane
  | edgeJump
  | edgePlane
  | wire
  | zeroPoint
  deriving DecidableEq

/-- The order of the enumeration. -/
def Feature.value : Feature → ℕ
  | nor => 0
  | possPlane => 1
  | realPlane => 2
  | edgeJump => 3
  | edgePlane => 4
  | wire => 5
  | zeroPoint => 6

inductive Surround where
  | prev
  | next
  deriving DecidableEq

/-- `E_jump`. -/
inductive EJump where
  | nor
  | zero
  | oneEighty
  | inf
  | blind
  deriving DecidableEq

/-- `Eigen::Vector3d`. -/
structure Vector3d (K : Type) where
  x : K
  y : K
  z : K

structure OrgType (K : Type) where
  range : K
  dista : K
  angle : Surround → K
  intersect : K
  edj : Surround → EJump
  ftype : Feature

/-- What memory holds where nothing has been written. -/
structure Unset (K : Type) where
  dista : K
  angle : K
  vec : Vector3d K
  twoDis : K

/-- `disB` is not set by the constructor. -/
structure FeatureParams (K : Type) extends HandlerParams K where
  lidarType : LidType
  disB : K
  sqrt : K → K
  cos : K → K
  pi : K

/-- `pl_surf` and `pl_corn`. -/
structure Clouds (K : Type) where
  plSurf : List (PointType K)
  plCorn : List (PointType K)

variable {K : Type} [Arith K]

namespace Vector3d

def zero : Vector3d K := ⟨lit 0, lit 0, lit 0⟩

def dot (a b : Vector3d K) : K := a.x * b.x + a.y * b.y + a.z * b.z

def cross (a b : Vector3d K) : Vector3d K :=
  ⟨a.y * b.z - b.y * a.z, a.z * b.x - a.x * b.z, a.x * b.y - b.x * a.y⟩

end Vector3d

def PointType.vector (p : PointType K) : Vector3d K := ⟨p.x, p.y, p.z⟩

def PointType.minus (p q : PointType K) : Vector3d K := ⟨p.x - q.x, p.y - q.y, p.z - q.z⟩

def PointType.plus (ap p : PointType K) : PointType K :=
  ⟨ap.x + p.x, ap.y + p.y, ap.z + p.z, ap.intensity + p.intensity, ap.curvature + p.curvature⟩

def PointType.blank : PointType K := ⟨lit 0, lit 0, lit 0, lit 0, lit 0⟩

/-- `orgtype()`. -/
def OrgType.new (unset : Unset K) : OrgType K where
  range := lit 0
  dista := unset.dista
  angle := fun _ => unset.angle
  intersect := lit 2
  edj := fun _ => .nor
  ftype := .nor

/-- `group_size`. -/
def groupSize : ℕ := 8

namespace FeatureParams

variable (params : FeatureParams K)

/-- The limits the constructor gives in degrees. -/
def cosOfDegrees (angle : K) : K := params.cos (angle / lit 180 * params.pi)

def norm (v : Vector3d K) : K := params.sqrt (v.dot v)

def normalize (v : Vector3d K) : Vector3d K :=
  if lit 0 < v.dot v then
    ⟨v.x / params.norm v, v.y / params.norm v, v.z / params.norm v⟩
  else v

/-! ## `plane_judge` -/

/-- Where a group stops: `cut` by a point within `blind`, or `whole`, with what the loops
have gathered. -/
inductive Gathered (K : Type) where
  | cut (iNex : ℕ)
  | whole (iNex : ℕ) (disarr : List K) (v : Vector3d K) (twoDis : K)

def Gathered.iNex : Gathered K → ℕ
  | cut iNex => iNex
  | whole iNex _ _ _ => iNex

/-- The first `group_size` points, `n` of them to come. -/
def firstGroup (types : List (OrgType K)) (v : Vector3d K) (twoDis : K) :
    ℕ → ℕ → List K → Option (Gathered K)
  | iNex, 0, disarr => some (.whole iNex disarr v twoDis)
  | iNex, n + 1, disarr => do
    let t ← types[iNex]?
    if t.range < params.blind then some (.cut iNex)
    else firstGroup types v twoDis (iNex + 1) n (disarr ++ [t.dista])

/-- The points after them, up to one that is too far away. -/
def growGroup (pl : List (PointType K)) (types : List (OrgType K)) (groupDis : K) (iCur : ℕ)
    (iNex : ℕ) (disarr : List K) (v : Vector3d K) (twoDis : K) : Option (Gathered K) :=
  if pl.length ≤ iCur ∨ pl.length ≤ iNex then some (.whole iNex disarr v twoDis)
  else do
    let t ← types[iNex]?
    if t.range < params.blind then some (.cut iNex)
    else
      let p ← pl[iNex]?
      let c ← pl[iCur]?
      let v := p.minus c
      let twoDis := v.dot v
      if groupDis ≤ twoDis then some (.whole iNex disarr v twoDis)
      else growGroup pl types groupDis iCur (iNex + 1) (disarr ++ [t.dista]) v twoDis
termination_by pl.length - iNex

/-- How far a point is off the line along `v`, squared and times the square of `v`. -/
def width (p c : PointType K) (v : Vector3d K) : K :=
  ((p.minus c).cross v).dot ((p.minus c).cross v)

def lengWidLoop (pl : List (PointType K)) (iCur iNex : ℕ) (v : Vector3d K) : Option K :=
  loop (fun j lengWid =>
      if pl.length ≤ j ∨ pl.length ≤ iCur then some (.done lengWid)
      else do
        let p ← pl[j]?
        let c ← pl[iCur]?
        let lw := width p c v
        some (.yield (if lengWid < lw then lw else lengWid)))
    (iCur + 1) (iNex - (iCur + 1)) (lit 0)

/-- A pass of the sort: the greatest comes to the front. -/
def exchange : K → List K → K × List K
  | x, [] => (x, [])
  | x, y :: ys =>
    if x < y then ((exchange y ys).1, x :: (exchange y ys).2)
    else ((exchange x ys).1, y :: (exchange x ys).2)

/-- The greatest first; `n` passes. -/
def sortDisarr : ℕ → List K → List K
  | 0, xs => xs
  | _ + 1, [] => []
  | n + 1, x :: xs => (exchange x xs).1 :: sortDisarr n (exchange x xs).2

/-- The tests of a group that is not cut. -/
def accepts (twoDis lengWid : K) (disarr : List K) : Bool :=
  if twoDis * twoDis / lengWid < lit 225 then false
  else
    let size := disarr.length
    let disarr := sortDisarr size disarr
    let greatest := disarr.getD 0 (lit 0)
    let mid := disarr.getD (size / 2) (lit 0)
    let least := disarr.getD (size - 2) (lit 0)
    if least < ratio 1 10000000000000000 then false
    else if params.lidarType = .avia then
      !(decide (ratio 625 100 ≤ greatest / mid) || decide (ratio 625 100 ≤ mid / least))
    else !decide (ratio 324 100 ≤ greatest / least)

/-- What `plane_judge` returns, with its two references. -/
structure Judged (K : Type) where
  planeType : ℕ
  iNex : ℕ
  currDirect : Vector3d K

/-- `disA * range + disB`, squared. -/
def groupDis (range : K) : K :=
  (ratio 1 10 * range + params.disB) * (ratio 1 10 * range + params.disB)

/-- `vx`, `vy` and `vz` are members, and start with what they hold. -/
def planeJudge (unset : Unset K) (pl : List (PointType K)) (types : List (OrgType K))
    (iCur : ℕ) : Option (Judged K) := do
  let t ← types[iCur]?
  match ← params.firstGroup types unset.vec unset.twoDis iCur groupSize [] with
  | .cut iNex => some ⟨2, iNex, .zero⟩
  | .whole iNex disarr v twoDis =>
    match ← params.growGroup pl types (params.groupDis t.range) iCur iNex disarr v twoDis with
    | .cut iNex => some ⟨2, iNex, .zero⟩
    | .whole iNex disarr v twoDis =>
      let lengWid ← lengWidLoop pl iCur iNex v
      if params.accepts twoDis lengWid disarr then some ⟨1, iNex, params.normalize v⟩
      else some ⟨0, iNex, .zero⟩

/-! ## A group goes on -/

variable {params} {types : List (OrgType K)} {pl : List (PointType K)} {v : Vector3d K}
  {twoDis groupDis : K} {iCur : ℕ}

theorem firstGroup_le {n iNex : ℕ} {disarr : List K} {g : Gathered K}
    (h : params.firstGroup types v twoDis iNex n disarr = some g) :
    iNex ≤ g.iNex ∧ ((∃ j, g = .cut j) ∨ g.iNex = iNex + n) := by
  induction n generalizing iNex disarr with
  | zero =>
    obtain rfl := Option.some.inj h
    exact ⟨le_refl iNex, .inr rfl⟩
  | succ n ih =>
    rw [firstGroup] at h
    obtain ⟨t, -, hrest⟩ := Option.bind_eq_some_iff.mp h
    split_ifs at hrest
    · obtain rfl := Option.some.inj hrest
      exact ⟨le_refl iNex, .inl ⟨iNex, rfl⟩⟩
    · obtain ⟨hle, hend⟩ := ih hrest
      exact ⟨by omega, hend.imp_right (by omega)⟩

theorem growGroup_le {iNex : ℕ} {disarr : List K} {g : Gathered K}
    (h : params.growGroup pl types groupDis iCur iNex disarr v twoDis = some g) :
    iNex ≤ g.iNex := by
  induction hn : pl.length - iNex using Nat.strong_induction_on
    generalizing iNex disarr v twoDis with
  | h n ih =>
    rw [growGroup] at h
    split_ifs at h with hend
    · obtain rfl := Option.some.inj h
      exact le_refl iNex
    · obtain ⟨t, -, hrest⟩ := Option.bind_eq_some_iff.mp h
      split_ifs at hrest
      · obtain rfl := Option.some.inj hrest
        exact le_refl iNex
      · obtain ⟨p, -, hrest⟩ := Option.bind_eq_some_iff.mp hrest
        obtain ⟨c, -, hrest⟩ := Option.bind_eq_some_iff.mp hrest
        dsimp only at hrest
        split_ifs at hrest
        · obtain rfl := Option.some.inj hrest
          exact le_refl iNex
        · have hle := ih _ (by omega) hrest rfl
          omega

/-- The group of a plane has `group_size` points. -/
theorem planeJudge_le {unset : Unset K} {judged : Judged K}
    (h : params.planeJudge unset pl types iCur = some judged) :
    iCur ≤ judged.iNex ∧ (judged.planeType = 1 → iCur + groupSize ≤ judged.iNex) := by
  rw [planeJudge] at h
  obtain ⟨t, -, h⟩ := Option.bind_eq_some_iff.mp h
  obtain ⟨g, hfirst, h⟩ := Option.bind_eq_some_iff.mp h
  obtain ⟨hle, hend⟩ := firstGroup_le hfirst
  cases g with
  | cut iNex =>
    obtain rfl := Option.some.inj h
    exact ⟨hle, fun htype => by cases htype⟩
  | whole iNex disarr v twoDis =>
    have hsize : iNex = iCur + groupSize := hend.resolve_left (by simp)
    obtain ⟨g, hgrow, h⟩ := Option.bind_eq_some_iff.mp h
    have hmore := growGroup_le hgrow
    cases g with
    | cut iNex =>
      obtain rfl := Option.some.inj h
      exact ⟨hle.trans hmore, fun htype => by cases htype⟩
    | whole iNex' disarr v twoDis =>
      obtain ⟨lengWid, -, h⟩ := Option.bind_eq_some_iff.mp h
      have hnext : judged.iNex = iNex' := by
        split_ifs at h
        · exact (congrArg Judged.iNex (Option.some.inj h)).symm
        · exact (congrArg Judged.iNex (Option.some.inj h)).symm
      rw [hnext]
      exact ⟨hle.trans hmore, fun _ => hsize ▸ hmore⟩

/-! ## `edge_jump_judge` -/

variable (params)

end FeatureParams

def Surround.value : Surround → ℕ
  | .prev => 0
  | .next => 1

/-- The neighbour `n` places on in a direction. -/
def Surround.beside (norDir : Surround) (i n : ℕ) : ℕ :=
  match norDir with
  | .prev => i - n
  | .next => i + n

namespace FeatureParams

variable (params : FeatureParams K)

def edgeJumpJudge (types : List (OrgType K)) (i : ℕ) (norDir : Surround) : Option Bool := do
  let near ← types[norDir.beside i 1]?
  if near.range < params.blind then some false
  else
    let far ← types[norDir.beside i 2]?
    if far.range < params.blind then some false
    else
      let t₁ ← types[i + norDir.value - 1]?
      let t₂ ← types[i + 3 * norDir.value - 2]?
      let d₁ := params.sqrt (max t₁.dista t₂.dista)
      let d₂ := params.sqrt (min t₁.dista t₂.dista)
      some !(decide (lit 2 * d₂ < d₁) || decide (ratio 1 10 < d₁ - d₂))

/-! ## `give_feature` -/

/-- Goes over the points within `blind`. -/
def findHead (types : List (OrgType K)) (head : ℕ) : Option ℕ :=
  match hread : types[head]? with
  | none => none
  | some t => if t.range < params.blind then findHead types (head + 1) else some head
termination_by types.length - head
decreasing_by
  obtain ⟨hlt, -⟩ := List.getElem?_eq_some_iff.mp hread
  omega

/-- The points of a plane, both ends included, and its first point again. -/
def markPlane (types : List (OrgType K)) (i : ℕ) (judged : Judged K) (lastState : ℕ)
    (lastDirect : Vector3d K) : Option (List (OrgType K)) := do
  let types ← loop (fun j types =>
      (writeAt types j fun t =>
        { t with
          ftype := if j ≠ i ∧ j ≠ judged.iNex then .realPlane else .possPlane }).map .yield)
    i (judged.iNex + 1 - i) types
  if lastState = 1 ∧ ratio 1 10 < params.norm lastDirect then
    let mod := lastDirect.dot judged.currDirect
    writeAt types i fun t =>
      { t with
        ftype := if -ratio 707 1000 < mod ∧ mod < ratio 707 1000 then .edgePlane else .realPlane }
  else some types

/-- The loop for planes.  After a plane `i` goes back by one before the loop adds one. -/
def surfLoop (unset : Unset K) (pl : List (PointType K)) (plsize2 i : ℕ)
    (types : List (OrgType K)) (lastState : ℕ) (lastDirect : Vector3d K) :
    Option (List (OrgType K)) :=
  if i < plsize2 then
    match types[i]? with
    | none => none
    | some t =>
      if t.range < params.blind then surfLoop unset pl plsize2 (i + 1) types lastState lastDirect
      else
        match hjudged : params.planeJudge unset pl types i with
        | none => none
        | some judged =>
          if hplane : judged.planeType = 1 then
            match params.markPlane types i judged lastState lastDirect with
            | none => none
            | some types => surfLoop unset pl plsize2 judged.iNex types 1 judged.currDirect
          else surfLoop unset pl plsize2 (judged.iNex + 1) types 0 judged.currDirect
  else some types
termination_by plsize2 - i
decreasing_by
  · omega
  · have hsize := (planeJudge_le hjudged).2 hplane
    simp only [groupSize] at hsize
    omega
  · have hle := (planeJudge_le hjudged).1
    omega

/-- A neighbour of the point in the loop for edges: what becomes of the point, and the way
to the neighbour. -/
def lookBeside (unset : Unset K) (pl : List (PointType K)) (types : List (OrgType K)) (i : ℕ)
    (side : Surround) (a : PointType K) (t : OrgType K) : Option (OrgType K × Vector3d K) := do
  let other ← types[side.beside i 1]?
  if other.range < params.blind then
    let jump := if lit 10 < t.range then EJump.inf else EJump.blind
    some ({ t with edj := Function.update t.edj side jump }, unset.vec)
  else
    let p ← pl[side.beside i 1]?
    let way := p.minus a
    let angle := a.vector.dot way / params.norm a.vector / params.norm way
    let edj :=
      if angle < params.cosOfDegrees (lit 170) then Function.update t.edj side .oneEighty
      else if params.cosOfDegrees (lit 8) < angle then Function.update t.edj side .zero
      else t.edj
    some ({ t with angle := Function.update t.angle side angle, edj := edj }, way)

/-- Where the branches of the loop for edges leave `ftype`. -/
def edgeType (types : List (OrgType K)) (i : ℕ) (before t : OrgType K) : Option Feature :=
  let judge (norDir : Surround) : Option Feature :=
    (params.edgeJumpJudge types i norDir).map fun jump => if jump then .edgeJump else t.ftype
  if t.edj .prev = .nor ∧ t.edj .next = .zero ∧ ratio 225 10000 < t.dista ∧
      lit 4 * before.dista < t.dista then
    if params.cosOfDegrees (lit 160) < t.intersect then judge .prev else some t.ftype
  else if t.edj .prev = .zero ∧ t.edj .next = .nor ∧ ratio 225 10000 < before.dista ∧
      lit 4 * t.dista < before.dista then
    if params.cosOfDegrees (lit 160) < t.intersect then judge .next else some t.ftype
  else if t.edj .prev = .nor ∧ t.edj .next = .inf then judge .prev
  else if t.edj .prev = .inf ∧ t.edj .next = .nor then judge .next
  else if t.edj .prev ≠ .nor ∧ t.edj .next ≠ .nor then
    some (if t.ftype = .nor then .wire else t.ftype)
  else some t.ftype

/-- A pass of the loop for edges. -/
def edgePass (unset : Unset K) (pl : List (PointType K)) (i : ℕ) (types : List (OrgType K)) :
    Option (List (OrgType K)) := do
  let t ← types[i]?
  if t.range < params.blind ∨ Feature.realPlane.value ≤ t.ftype.value then some types
  else
    let before ← types[i - 1]?
    if before.dista < ratio 1 10000000000000000 ∨ t.dista < ratio 1 10000000000000000 then
      some types
    else
      let a ← pl[i]?
      let (t, prev) ← params.lookBeside unset pl types i .prev a t
      let (t, next) ← params.lookBeside unset pl types i .next a t
      let t := { t with intersect := prev.dot next / params.norm prev / params.norm next }
      let ftype ← params.edgeType types i before t
      writeAt types i fun _ => { t with ftype := ftype }

/-- A pass of the loop for small planes. -/
def smallPlanePass (i : ℕ) (types : List (OrgType K)) : Option (List (OrgType K)) := do
  let t ← types[i]?
  if t.range < params.blind then some types
  else
    let before ← types[i - 1]?
    if before.range < params.blind then some types
    else
      let after ← types[i + 1]?
      if after.range < params.blind then some types
      else if before.dista < ratio 1 100000000 ∨ t.dista < ratio 1 100000000 then some types
      else if t.ftype = .nor then
        let ratio :=
          if t.dista < before.dista then before.dista / t.dista else t.dista / before.dista
        if t.intersect < params.cosOfDegrees (RobotNav.ratio 1725 10) ∧
            ratio < RobotNav.ratio 12 10 then
          let raise (t : OrgType K) : OrgType K :=
            if t.ftype = .nor then { t with ftype := .realPlane } else t
          let types ← writeAt types (i - 1) raise
          let types ← writeAt types (i + 1) raise
          writeAt types i fun t => { t with ftype := .realPlane }
        else some types
      else some types

/-- `last_surface` and the two clouds; `none` is -1. -/
structure Gathering (K : Type) where
  lastSurface : Option ℕ
  clouds : Clouds K

def Gathering.toSurf (s : Gathering K) (ap : PointType K) : Clouds K :=
  { s.clouds with plSurf := s.clouds.plSurf ++ [ap] }

/-- The sum of the points from `lastSurface` to before `j`. -/
def sumPoints (pl : List (PointType K)) (lastSurface j : ℕ) : Option (PointType K) :=
  loop (fun k ap => (pl[k]?.map ap.plus).map .yield) lastSurface (j - lastSurface) .blank

/-- The surface that ends before `j`, if there is one. -/
def endSurface (pl : List (PointType K)) (j : ℕ) (s : Gathering K) : Option (Gathering K) :=
  match s.lastSurface with
  | none => some s
  | some lastSurface => do
    let ap ← sumPoints pl lastSurface j
    let n : K := lit (j - lastSurface)
    some ⟨none, s.toSurf ⟨ap.x / n, ap.y / n, ap.z / n, ap.intensity / n, ap.curvature / n⟩⟩

/-- A pass of the last loop. -/
def gatherPass (pl : List (PointType K)) (types : List (OrgType K)) (j : ℕ) (s : Gathering K) :
    Option (Gathering K) := do
  let t ← types[j]?
  if t.ftype = .possPlane ∨ t.ftype = .realPlane then
    let lastSurface := s.lastSurface.getD j
    if j + 1 = lastSurface + params.pointFilterNum then
      let p ← pl[j]?
      some ⟨none, s.toSurf p⟩
    else some ⟨some lastSurface, s.clouds⟩
  else if t.ftype = .edgeJump ∨ t.ftype = .edgePlane then
    let p ← pl[j]?
    endSurface pl j { s with clouds := { s.clouds with plCorn := s.clouds.plCorn ++ [p] } }
  else endSurface pl j s

/-- `give_feature`: what it adds to the two clouds. -/
def giveFeature (unset : Unset K) (pl : List (PointType K)) (types : List (OrgType K)) :
    Option (Clouds K) :=
  if pl.length = 0 then some ⟨[], []⟩
  else do
    let head ← params.findHead types 0
    let types ← params.surfLoop unset pl (pl.length - groupSize) head types 0 .zero
    let types ← loop (fun i types => (params.edgePass unset pl i types).map .yield)
      (head + 3) (pl.length - 3 - (head + 3)) types
    let types ← loop (fun i types => (params.smallPlanePass i types).map .yield)
      (head + 1) (pl.length - 1 - (head + 1)) types
    let s ← loop (fun j s => (params.gatherPass pl types j s).map .yield)
      head (pl.length - head) ⟨none, [], []⟩
    some s.clouds

/-! ## The loops of the handlers -/

/-- The range of a point in the plane. -/
def range (p : PointType K) : K := params.sqrt (p.x * p.x + p.y * p.y)

/-- A pass over a point that is not the last one.  `avia_handler` takes the root of the
squared distance, the other two do not. -/
def measurePass (root : K → K) (pl : List (PointType K)) (i : ℕ) (types : List (OrgType K)) :
    Option (List (OrgType K)) := do
  let p ← pl[i]?
  let types ← writeAt types i fun t => { t with range := params.range p }
  let q ← pl[i + 1]?
  writeAt types i fun t => { t with dista := root ((p.minus q).dot (p.minus q)) }

/-- An `int` that is compared with a `uint`. -/
def asUint (n : ℤ) : ℕ := (if n < 0 then n + 4294967296 else n).toNat

/-- What a handler does for a line. -/
def lineFeatures (root : K → K) (unset : Unset K) (pl : List (PointType K)) :
    Option (Clouds K) := do
  let linesize : ℤ := pl.length - 1
  let types ← loop (fun i types => (params.measurePass root pl i types).map .yield)
    0 (asUint linesize) (List.replicate pl.length (.new unset))
  let p ← pl[asUint linesize]?
  let types ← writeAt types (asUint linesize) fun t => { t with range := params.range p }
  params.giveFeature unset pl types

/-- The loop of a handler over the lines; `takes` says which sizes it does not pass over. -/
def linesFeatures (takes : ℕ → Bool) (root : K → K) (unset : ℕ → Unset K)
    (plBuff : ℕ → List (PointType K)) : Option (Clouds K) :=
  (List.range params.nScans).foldlM (fun clouds j =>
      if takes (plBuff j).length then
        (params.lineFeatures root (unset j) (plBuff j)).map fun line =>
          ⟨clouds.plSurf ++ line.plSurf, clouds.plCorn ++ line.plCorn⟩
      else some clouds)
    ⟨[], []⟩

end FeatureParams

/-- `ouster_ros::Point`, without what the handler does not read. -/
structure OusterPoint (K : Type) where
  x : K
  y : K
  z : K
  intensity : K
  t : ℕ
  ring : ℕ

/-- `livox_ros_driver2::msg::CustomPoint`. -/
structure CustomPoint (K : Type) where
  offsetTime : ℕ
  x : K
  y : K
  z : K
  reflectivity : ℕ
  tag : ℕ
  line : ℕ

namespace FeatureParams

variable (params : FeatureParams K)

/-- The buffer of a line, of the points that are not within `blind`. -/
def oust64Buffer (cloud : List (OusterPoint K)) (layer : ℕ) : List (PointType K) :=
  cloud.filterMap fun p =>
    if p.x * p.x + p.y * p.y + p.z * p.z < params.blind * params.blind then none
    else if p.ring < params.nScans ∧ p.ring = layer then
      some ⟨p.x, p.y, p.z, p.intensity, lit p.t * params.timeUnitScale⟩
    else none

/-- Points the handler takes from the message. -/
def taken (p : CustomPoint K) : Prop :=
  p.line < params.nScans ∧ (p.tag &&& 48 = 16 ∨ p.tag &&& 48 = 0)

instance (p : CustomPoint K) : Decidable (params.taken p) :=
  inferInstanceAs (Decidable (_ ∧ _))

/-- The entry of a point in `pl_full`, which starts with blank points. -/
def fullPoint (p : CustomPoint K) : PointType K :=
  if params.taken p then ⟨p.x, p.y, p.z, lit p.reflectivity, lit p.offsetTime / lit 1000000⟩
  else .blank

/-- The buffer of a line, of the points that are not where the entry before them is.  The
first point of the message is left out. -/
def aviaBuffer (msg : List (CustomPoint K)) (layer : ℕ) : List (PointType K) :=
  ((.blank :: msg.tail.map params.fullPoint).zip msg.tail).filterMap fun (before, p) =>
    let full := params.fullPoint p
    if params.taken p ∧ (ratio 1 10000000 < fabs (full.x - before.x) ∨
        ratio 1 10000000 < fabs (full.y - before.y) ∨
        ratio 1 10000000 < fabs (full.z - before.z)) ∧ p.line = layer then
      some full
    else none

/-- `oust64_handler` with features. -/
def oust64Features (unset : ℕ → Unset K) (cloud : List (OusterPoint K)) : Option (Clouds K) :=
  params.linesFeatures (fun _ => true) id unset (params.oust64Buffer cloud)

/-- `velodyne_handler` with features. -/
def velodyneFeatures (unset : ℕ → Unset K) (cloud : List (VelodynePoint K)) :
    Option (Clouds K) :=
  params.linesFeatures (fun linesize => decide (2 ≤ linesize)) id unset
    (velodyneBuffer params.toHandlerParams cloud)

/-- `avia_handler` with features. -/
def aviaFeatures (unset : ℕ → Unset K) (msg : List (CustomPoint K)) : Option (Clouds K) :=
  params.linesFeatures (fun linesize => decide (5 < linesize)) params.sqrt unset
    (params.aviaBuffer msg)

end FeatureParams

end Preprocess
end RobotNav
