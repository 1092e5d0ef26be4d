/-
The passes of the iterated update: which of them are made, and what each leaves.

A pass with an invalid measurement is skipped.  A measurement model that stays invalid
where it once was, as that of the node does, makes the update end without a last pass.
-/
import RobotNav.Esekf.Update

namespace RobotNav

open Matrix

variable {K : Type} [Field K] [LinearOrder K] [FloorRing K]

variable {c : CMath K} {e : Eigen K} {n m : ℕ} {h12 : 12 ≤ n} {M : Manifold K n m} {Env : Type}
variable {cfg : UpdateConfig K M Env} {propagated : Esekf M}

namespace UpdateLoop

/-! ## One pass -/

/-- What the measurement model answers in a pass. -/
def answer (cfg : UpdateConfig K M Env) (l : UpdateLoop M Env) : Env × DynShare K :=
  cfg.hDynShare l.kf.x (l.env, { l.share with valid := true })

theorem pass_of_invalid {l : UpdateLoop M Env} {i : ℤ}
    (h : (answer cfg l).2.valid = false) :
    l.pass c e h12 cfg propagated i =
      ({ l with env := (answer cfg l).1, share := (answer cfg l).2 }, false) := by
  rw [answer] at h
  rw [pass, answer]
  simp only [h, Bool.not_false, if_true]

/-- The step of a pass with a valid measurement. -/
def stepped (c : CMath K) (e : Eigen K) (h12 : 12 ≤ n) (cfg : UpdateConfig K M Env)
    (propagated : Esekf M) (l : UpdateLoop M Env) : Measured K n :=
  measured c e h12 cfg propagated l.kf.x (answer cfg l).2

/-- Whether no component of the step is over its limit. -/
def settled (c : CMath K) (e : Eigen K) (h12 : 12 ≤ n) (cfg : UpdateConfig K M Env)
    (propagated : Esekf M) (l : UpdateLoop M Env) : Bool :=
  decide (∀ j, ¬ cfg.limit j < fabs ((l.stepped c e h12 cfg propagated).dx j))

/-- The value of `t` after a pass with a valid measurement. -/
def count (c : CMath K) (e : Eigen K) (h12 : 12 ≤ n) (cfg : UpdateConfig K M Env)
    (propagated : Esekf M) (l : UpdateLoop M Env) : ℕ :=
  if l.settled c e h12 cfg propagated then l.t + 1 else l.t

/-- Whether a pass with a valid measurement returns. -/
def Last (c : CMath K) (e : Eigen K) (h12 : 12 ≤ n) (cfg : UpdateConfig K M Env)
    (propagated : Esekf M) (l : UpdateLoop M Env) (i : ℤ) : Prop :=
  1 < l.count c e h12 cfg propagated ∨ i = cfg.maximumIter - 1

/-- The loop after a pass with a valid measurement, with the covariance it leaves. -/
def after (c : CMath K) (e : Eigen K) (h12 : 12 ≤ n) (cfg : UpdateConfig K M Env)
    (propagated : Esekf M) (l : UpdateLoop M Env) (i : ℤ) (P : Matrix (Fin n) (Fin n) K) :
    UpdateLoop M Env where
  kf := ⟨M.boxplus l.kf.x (l.stepped c e h12 cfg propagated).dx, P⟩
  env := (answer cfg l).1
  share := { (answer cfg l).2 with
    converge :=
      if l.count c e h12 cfg propagated = 0 ∧ i = cfg.maximumIter - 2 then true
      else l.settled c e h12 cfg propagated }
  t := l.count c e h12 cfg propagated

/-- The covariance of a last pass. -/
def closedP (c : CMath K) (e : Eigen K) (h12 : 12 ≤ n) (cfg : UpdateConfig K M Env)
    (propagated : Esekf M) (l : UpdateLoop M Env) : Matrix (Fin n) (Fin n) K :=
  closed h12 (l.stepped c e h12 cfg propagated).P (l.stepped c e h12 cfg propagated).Kx
    (turns c M (M.boxplus l.kf.x (l.stepped c e h12 cfg propagated).dx) propagated.x
      (l.stepped c e h12 cfg propagated).dx)

theorem pass_of_valid {l : UpdateLoop M Env} {i : ℤ} (h : (answer cfg l).2.valid = true) :
    l.pass c e h12 cfg propagated i =
      if 1 < l.count c e h12 cfg propagated ∨ i = cfg.maximumIter - 1 then
        (l.after c e h12 cfg propagated i (l.closedP c e h12 cfg propagated), true)
      else
        (l.after c e h12 cfg propagated i (l.stepped c e h12 cfg propagated).P, false) := by
  have hneg : ¬ (!(answer cfg l).2.valid) = true := by
    rw [h]
    simp
  exact if_neg hneg

/-- A pass returns only with a valid measurement, and then leaves the closed covariance. -/
theorem pass_returned {l : UpdateLoop M Env} {i : ℤ}
    (h : (l.pass c e h12 cfg propagated i).2 = true) :
    (answer cfg l).2.valid = true ∧
      (1 < l.count c e h12 cfg propagated ∨ i = cfg.maximumIter - 1) ∧
      (l.pass c e h12 cfg propagated i).1 =
        l.after c e h12 cfg propagated i (l.closedP c e h12 cfg propagated) := by
  cases hvalid : (answer cfg l).2.valid with
  | false =>
    rw [pass_of_invalid hvalid] at h
    exact absurd h Bool.false_ne_true
  | true =>
    rw [pass_of_valid hvalid] at h ⊢
    split_ifs at h ⊢ with hlast
    exact ⟨rfl, hlast, rfl⟩

/-- A pass sees of the node's variables what the measurement model answers. -/
theorem pass_congr {l l' : UpdateLoop M Env} (hkf : l.kf = l'.kf) (ht : l.t = l'.t)
    (hshare : (answer cfg l).2 = (answer cfg l').2) (i : ℤ) :
    (l.pass c e h12 cfg propagated i).2 = (l'.pass c e h12 cfg propagated i).2 ∧
      (l.pass c e h12 cfg propagated i).1.kf = (l'.pass c e h12 cfg propagated i).1.kf ∧
      (l.pass c e h12 cfg propagated i).1.t = (l'.pass c e h12 cfg propagated i).1.t ∧
      (l.pass c e h12 cfg propagated i).1.share = (l'.pass c e h12 cfg propagated i).1.share := by
  cases hvalid : (answer cfg l).2.valid with
  | false =>
    rw [pass_of_invalid hvalid, pass_of_invalid (hshare ▸ hvalid)]
    exact ⟨rfl, hkf, ht, hshare⟩
  | true =>
    have hstepped : l.stepped c e h12 cfg propagated = l'.stepped c e h12 cfg propagated := by
      rw [stepped, stepped, hkf, hshare]
    have hsettled : l.settled c e h12 cfg propagated = l'.settled c e h12 cfg propagated := by
      rw [settled, settled, hstepped]
    have hcount : l.count c e h12 cfg propagated = l'.count c e h12 cfg propagated := by
      rw [count, count, hsettled, ht]
    have hafter : ∀ P P', (l.after c e h12 cfg propagated i P).share =
        (l'.after c e h12 cfg propagated i P').share := by
      intro P P'
      rw [after, after, hcount, hsettled]
      show ({ (answer cfg l).2 with converge := _ } : DynShare K) = _
      rw [hshare]
    rw [pass_of_valid hvalid, pass_of_valid (hshare ▸ hvalid), hcount]
    split_ifs
    · refine ⟨rfl, ?_, hcount, hafter _ _⟩
      simp only [after, closedP, hstepped, hkf]
    · refine ⟨rfl, ?_, hcount, hafter _ _⟩
      simp only [after, hstepped, hkf]

theorem pass_env (l : UpdateLoop M Env) (i : ℤ) :
    (l.pass c e h12 cfg propagated i).1.env = (answer cfg l).1 := by
  cases hvalid : (answer cfg l).2.valid with
  | false => rw [pass_of_invalid hvalid]
  | true =>
    rw [pass_of_valid hvalid]
    split_ifs <;> rfl

/-! ## The passes that are made -/

variable (c e h12 cfg propagated) in
/-- The states of the loop before each pass that is made, with the counter. -/
def made (l : UpdateLoop M Env) : List ℤ → List (UpdateLoop M Env × ℤ)
  | [] => []
  | i :: rest =>
    (l, i) :: if (l.pass c e h12 cfg propagated i).2 then []
      else made (l.pass c e h12 cfg propagated i).1 rest

/-- Each pass that was made had a valid measurement. -/
def AllValid (cfg : UpdateConfig K M Env) (passes : List (UpdateLoop M Env × ℤ)) : Prop :=
  ∀ p ∈ passes, (answer cfg p.1).2.valid = true

/-- What holds before the first pass and is kept by each holds before every pass. -/
theorem made_invariant (Inv : UpdateLoop M Env → Prop)
    (hstep : ∀ l i, Inv l → Inv (l.pass c e h12 cfg propagated i).1) {l : UpdateLoop M Env}
    (hl : Inv l) (is : List ℤ) : ∀ p ∈ l.made c e h12 cfg propagated is, Inv p.1 := by
  induction is generalizing l with
  | nil => exact fun p hp => absurd hp List.not_mem_nil
  | cons i rest ih =>
    intro p hp
    rw [made] at hp
    rcases List.mem_cons.mp hp with rfl | hp
    · exact hl
    · split_ifs at hp with hreturned
      · exact absurd hp List.not_mem_nil
      · exact ih (hstep l i hl) p hp

theorem passes_cons_of_returned {l : UpdateLoop M Env} {i : ℤ} {rest : List ℤ}
    (h : (l.pass c e h12 cfg propagated i).2 = true) :
    l.passes c e h12 cfg propagated (i :: rest) =
      ((l.pass c e h12 cfg propagated i).1, true) := by
  rw [passes]
  simp only [h, if_true]

theorem passes_cons {l : UpdateLoop M Env} {i : ℤ} {rest : List ℤ}
    (h : (l.pass c e h12 cfg propagated i).2 = false) :
    l.passes c e h12 cfg propagated (i :: rest) =
      (l.pass c e h12 cfg propagated i).1.passes c e h12 cfg propagated rest := by
  rw [passes]
  simp only [h, Bool.false_eq_true, if_false]

/-- What holds before the first pass and is kept by each holds after the last. -/
theorem passes_invariant (Inv : UpdateLoop M Env → Prop)
    (hstep : ∀ l i, Inv l → Inv (l.pass c e h12 cfg propagated i).1) {l : UpdateLoop M Env}
    (hl : Inv l) (is : List ℤ) : Inv (l.passes c e h12 cfg propagated is).1 := by
  induction is generalizing l with
  | nil => exact hl
  | cons i rest ih =>
    cases hreturned : (l.pass c e h12 cfg propagated i).2 with
    | true =>
      rw [passes_cons_of_returned hreturned]
      exact hstep l i hl
    | false =>
      rw [passes_cons hreturned]
      exact ih (hstep l i hl)

/-- Two runs whose passes keep a relation end the same way, in related states. -/
theorem passes_related {R : UpdateLoop M Env → UpdateLoop M Env → Prop}
    (hstep : ∀ l l' i, R l l' → (l.pass c e h12 cfg propagated i).2 =
      (l'.pass c e h12 cfg propagated i).2 ∧
        R (l.pass c e h12 cfg propagated i).1 (l'.pass c e h12 cfg propagated i).1)
    {l l' : UpdateLoop M Env} (hl : R l l') (is : List ℤ) :
    (l.passes c e h12 cfg propagated is).2 = (l'.passes c e h12 cfg propagated is).2 ∧
      R (l.passes c e h12 cfg propagated is).1 (l'.passes c e h12 cfg propagated is).1 := by
  induction is generalizing l l' with
  | nil => exact ⟨rfl, hl⟩
  | cons i rest ih =>
    obtain ⟨hreturned, hnext⟩ := hstep l l' i hl
    cases hfirst : (l.pass c e h12 cfg propagated i).2 with
    | true =>
      rw [passes_cons_of_returned hfirst, passes_cons_of_returned (hreturned ▸ hfirst)]
      exact ⟨rfl, hnext⟩
    | false =>
      rw [passes_cons hfirst, passes_cons (hreturned ▸ hfirst)]
      exact ih hnext

/-- Where the measurement was invalid it stays so until the estimate moves. -/
def Stuck (h : M.State → Env × DynShare K → Env × DynShare K) : Prop :=
  ∀ x env share, share.valid = true → (h x (env, share)).2.valid = false →
    (h x ((h x (env, share)).1, { (h x (env, share)).2 with valid := true })).2.valid = false

/-- From an invalid measurement on, no pass does anything to the estimate. -/
theorem passes_of_invalid (hstuck : Stuck cfg.hDynShare) {l : UpdateLoop M Env}
    (h : (answer cfg l).2.valid = false) (is : List ℤ) :
    (l.passes c e h12 cfg propagated is).2 = false ∧
      (l.passes c e h12 cfg propagated is).1.kf = l.kf := by
  induction is generalizing l with
  | nil => exact ⟨rfl, rfl⟩
  | cons i rest ih =>
    have hpass : l.pass c e h12 cfg propagated i =
        ({ l with env := (answer cfg l).1, share := (answer cfg l).2 }, false) :=
      pass_of_invalid h
    have hnext : (answer cfg (l.pass c e h12 cfg propagated i).1).2.valid = false := by
      rw [hpass]
      exact hstuck _ _ _ rfl h
    have hreturned : (l.pass c e h12 cfg propagated i).2 = false := by rw [hpass]
    rw [passes_cons hreturned]
    obtain ⟨hnone, hkf⟩ := ih hnext
    exact ⟨hnone, hkf.trans (by rw [hpass])⟩

/-- What an update that does not return leaves: the estimate it started from, or the one
after the last valid measurement with the propagated covariance carried over to it. -/
def Unfinished (c : CMath K) (e : Eigen K) (h12 : 12 ≤ n) (cfg : UpdateConfig K M Env)
    (propagated kf kf' : Esekf M) : Prop :=
  kf' = kf ∨ ∃ l : UpdateLoop M Env, (answer cfg l).2.valid = true ∧
    kf' = ⟨M.boxplus l.kf.x (l.stepped c e h12 cfg propagated).dx,
      (l.stepped c e h12 cfg propagated).P⟩

theorem passes_unfinished {l : UpdateLoop M Env} {is : List ℤ}
    (h : (l.passes c e h12 cfg propagated is).2 = false) :
    Unfinished c e h12 cfg propagated l.kf (l.passes c e h12 cfg propagated is).1.kf := by
  induction is generalizing l with
  | nil => exact Or.inl rfl
  | cons i rest ih =>
    cases hreturned : (l.pass c e h12 cfg propagated i).2 with
    | true =>
      rw [passes_cons_of_returned hreturned] at h
      exact absurd h (by simp)
    | false =>
      rw [passes_cons hreturned] at h ⊢
      have hrest := ih h
      cases hvalid : (answer cfg l).2.valid with
      | false =>
        have hkf : (l.pass c e h12 cfg propagated i).1.kf = l.kf := by
          rw [pass_of_invalid hvalid]
        rw [hkf] at hrest
        exact hrest
      | true =>
        rcases hrest with hsame | hlater
        · right
          refine ⟨l, hvalid, ?_⟩
          rw [hsame]
          rw [pass_of_valid hvalid] at hreturned ⊢
          split_ifs at hreturned ⊢
          rfl
        · exact Or.inr hlater

/-- The update returns from a pass exactly when every pass it makes has a measurement. -/
theorem passes_returned_iff (hstuck : Stuck cfg.hDynShare) {l : UpdateLoop M Env} {is : List ℤ}
    (hlast : ∃ before, is = before ++ [cfg.maximumIter - 1]) :
    (l.passes c e h12 cfg propagated is).2 = true ↔
      AllValid cfg (l.made c e h12 cfg propagated is) := by
  induction is generalizing l with
  | nil =>
    obtain ⟨before, hbefore⟩ := hlast
    exact absurd hbefore.symm (by simp)
  | cons i rest ih =>
    cases hvalid : (answer cfg l).2.valid with
    | false =>
      have hnone : (l.passes c e h12 cfg propagated (i :: rest)).2 = false :=
        (passes_of_invalid hstuck hvalid (i :: rest)).1
      constructor
      · intro hreturned
        rw [hnone] at hreturned
        exact absurd hreturned Bool.false_ne_true
      · intro hall
        have hfirst := hall (l, i) (by rw [made]; exact List.mem_cons_self)
        rw [hvalid] at hfirst
        exact absurd hfirst Bool.false_ne_true
    | true =>
      cases hreturned : (l.pass c e h12 cfg propagated i).2 with
      | true =>
        rw [passes_cons_of_returned hreturned, made, hreturned]
        constructor
        · intro _ p hp
          rw [if_pos rfl, List.mem_singleton] at hp
          rw [hp]
          exact hvalid
        · intro _
          rfl
      | false =>
        -- a valid pass that does not return is not the last
        have hrest : ∃ before, rest = before ++ [cfg.maximumIter - 1] := by
          obtain ⟨before, hbefore⟩ := hlast
          cases before with
          | nil =>
            obtain ⟨hi, -⟩ := List.cons.inj hbefore
            rw [pass_of_valid hvalid, if_pos (Or.inr hi)] at hreturned
            exact absurd hreturned (by simp)
          | cons j before =>
            obtain ⟨-, hrest⟩ := List.cons.inj hbefore
            exact ⟨before, hrest⟩
        rw [passes_cons hreturned, made, hreturned, ih hrest]
        constructor
        · intro hall p hp
          rcases List.mem_cons.mp hp with rfl | hp
          · exact hvalid
          · exact hall p hp
        · intro hall p hp
          exact hall p (List.mem_cons_of_mem _ hp)

/-- What an update that returns leaves was made in its last pass. -/
theorem passes_returned_last {l : UpdateLoop M Env} {is : List ℤ}
    (h : (l.passes c e h12 cfg propagated is).2 = true) :
    ∃ p ∈ l.made c e h12 cfg propagated is, (answer cfg p.1).2.valid = true ∧
      (l.passes c e h12 cfg propagated is).1 =
        p.1.after c e h12 cfg propagated p.2 (p.1.closedP c e h12 cfg propagated) := by
  induction is generalizing l with
  | nil => exact absurd h Bool.false_ne_true
  | cons i rest ih =>
    cases hreturned : (l.pass c e h12 cfg propagated i).2 with
    | true =>
      obtain ⟨hvalid, -, hleft⟩ := pass_returned hreturned
      rw [passes_cons_of_returned hreturned, made]
      exact ⟨(l, i), List.mem_cons_self, hvalid, hleft⟩
    | false =>
      rw [passes_cons hreturned] at h ⊢
      obtain ⟨p, hp, hlast⟩ := ih h
      refine ⟨p, ?_, hlast⟩
      rw [made, hreturned, if_neg Bool.false_ne_true]
      exact List.mem_cons_of_mem _ hp

/-! ## The counter -/

/-- The last `k` values of the counter. -/
def countdown (maximumIter : ℤ) : ℕ → List ℤ
  | 0 => []
  | k + 1 => (maximumIter - (k + 1)) :: countdown maximumIter k

theorem countdown_eq (maximumIter : ℤ) (k : ℕ) :
    countdown maximumIter k = (List.range k).map fun (j : ℕ) => (j : ℤ) + (maximumIter - k) := by
  induction k with
  | zero => rfl
  | succ k ih =>
    rw [countdown, ih, List.range_succ_eq_map, List.map_cons, List.map_map]
    congr 1
    · push_cast
      omega
    · apply List.map_congr_left
      intro j _
      show (j : ℤ) + (maximumIter - k) = ((j + 1 : ℕ) : ℤ) + (maximumIter - (k + 1 : ℕ))
      push_cast
      omega

theorem countdown_length (maximumIter : ℤ) (k : ℕ) : (countdown maximumIter k).length = k := by
  rw [countdown_eq, List.length_map, List.length_range]

theorem counter_eq {maximumIter : ℤ} (h : 0 ≤ maximumIter) :
    counter maximumIter = countdown maximumIter (maximumIter + 1).toNat := by
  rw [countdown_eq, counter]
  apply List.map_congr_left
  intro j _
  omega

theorem countdown_last (maximumIter : ℤ) (k : ℕ) :
    ∃ before, countdown maximumIter (k + 1) = before ++ [maximumIter - 1] := by
  induction k with
  | zero => exact ⟨[], rfl⟩
  | succ k ih =>
    obtain ⟨before, hbefore⟩ := ih
    exact ⟨(maximumIter - ((k + 1 : ℕ) + 1)) :: before, by rw [countdown, hbefore]; rfl⟩

theorem counter_last {maximumIter : ℤ} (h : 0 ≤ maximumIter) :
    ∃ before, counter maximumIter = before ++ [maximumIter - 1] := by
  obtain ⟨k, hk⟩ : ∃ k, (maximumIter + 1).toNat = k + 1 := ⟨maximumIter.toNat, by omega⟩
  rw [counter_eq h, hk]
  exact countdown_last maximumIter k

/-! ## How often the map is searched -/

variable (c e h12 cfg propagated) in
/-- The passes that are made with the flag set that asks for a new search. -/
def searches (l : UpdateLoop M Env) (is : List ℤ) : ℕ :=
  ((l.made c e h12 cfg propagated is).filter fun p => p.1.share.converge).length

theorem made_length_le (l : UpdateLoop M Env) (is : List ℤ) :
    (l.made c e h12 cfg propagated is).length ≤ is.length := by
  induction is generalizing l with
  | nil => exact le_refl 0
  | cons i rest ih =>
    rw [made, List.length_cons, List.length_cons]
    split_ifs
    · simp
    · exact Nat.succ_le_succ (ih _)

theorem searches_cons (l : UpdateLoop M Env) (i : ℤ) (rest : List ℤ) :
    l.searches c e h12 cfg propagated (i :: rest) = (if l.share.converge then 1 else 0) +
      if (l.pass c e h12 cfg propagated i).2 then 0
      else (l.pass c e h12 cfg propagated i).1.searches c e h12 cfg propagated rest := by
  rw [searches, made, List.filter_cons]
  split_ifs <;> simp [searches, Nat.add_comm]

theorem searches_le_length (l : UpdateLoop M Env) (is : List ℤ) :
    l.searches c e h12 cfg propagated is ≤ is.length :=
  (List.length_filter_le _ _).trans (made_length_le l is)

/-- A valid pass that does not return counts itself if it converged. -/
theorem pass_of_going {l : UpdateLoop M Env} {i : ℤ} (h : (answer cfg l).2.valid = true)
    (hgo : (l.pass c e h12 cfg propagated i).2 = false) :
    ∃ next, l.pass c e h12 cfg propagated i = (next, false) ∧
      next.t = l.count c e h12 cfg propagated ∧ next.t ≤ 1 ∧ i ≠ cfg.maximumIter - 1 ∧
      next.share.converge =
        if next.t = 0 ∧ i = cfg.maximumIter - 2 then true
        else l.settled c e h12 cfg propagated := by
  rw [pass_of_valid h] at hgo ⊢
  split_ifs at hgo ⊢ with hlast
  rw [not_or, not_lt] at hlast
  exact ⟨_, rfl, rfl, hlast.1, hlast.2, rfl⟩

/-- Two passes that converge end the loop, and each search but the first is asked for by a
pass that converged or by the one before the last. -/
theorem searches_le {l : UpdateLoop M Env} {k : ℕ} (ht : l.t ≤ 1)
    (hall : AllValid cfg (l.made c e h12 cfg propagated (countdown cfg.maximumIter k))) :
    l.searches c e h12 cfg propagated (countdown cfg.maximumIter k) + l.t ≤
      if l.share.converge then 2 else 1 := by
  induction k generalizing l with
  | zero =>
    show 0 + l.t ≤ _
    split_ifs <;> omega
  | succ k ih =>
    rw [countdown, made] at hall
    have hvalid : (answer cfg l).2.valid = true := hall (l, _) List.mem_cons_self
    rw [countdown, searches_cons]
    cases hreturned : (l.pass c e h12 cfg propagated (cfg.maximumIter - (k + 1))).2 with
    | true =>
      rw [if_pos rfl]
      split_ifs <;> omega
    | false =>
      rw [if_neg Bool.false_ne_true]
      rw [hreturned, if_neg Bool.false_ne_true] at hall
      obtain ⟨next, hpass, hcount, hnext, hi, hconverge⟩ := pass_of_going hvalid hreturned
      rw [hpass] at hall ⊢
      have hrest := ih hnext fun p hp => hall p (List.mem_cons_of_mem _ hp)
      have hcounted : next.t = if l.settled c e h12 cfg propagated then l.t + 1 else l.t := hcount
      show _ + next.searches c e h12 cfg propagated (countdown cfg.maximumIter k) + l.t ≤ _
      by_cases hforced : next.t = 0 ∧ cfg.maximumIter - (k + 1) = cfg.maximumIter - 2
      · -- only the last pass is left
        have hone : next.searches c e h12 cfg propagated (countdown cfg.maximumIter k) ≤ k :=
          (searches_le_length next _).trans_eq (countdown_length cfg.maximumIter k)
        have hk : k = 1 := by omega
        split_ifs at hcounted ⊢ <;> omega
      · rw [if_neg hforced] at hconverge
        rw [hconverge] at hrest
        cases hsettled : l.settled c e h12 cfg propagated with
        | true =>
          rw [hsettled, if_pos rfl] at hrest hcounted
          split_ifs <;> omega
        | false =>
          rw [hsettled, if_neg Bool.false_ne_true] at hrest hcounted
          split_ifs <;> omega

end UpdateLoop

end RobotNav
