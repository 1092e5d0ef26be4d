/-
Counted loops whose body may read outside its array and may break.

A loop is its passes: the body is run for consecutive indices, it fails where a
read fails, and `ForInStep.done` leaves the loop.  `loop_spec` is the rule for
them: an invariant indexed by the pass, kept by every pass that goes on, and a
postcondition that a break and the last pass establish.
-/
import Mathlib.Order.Defs.LinearOrder
import Mathlib.Data.List.Basic

namespace RobotNav

variable {σ : Type*}

/-- A write that fails outside the list. -/
def writeAt {α : Type*} (xs : List α) (i : ℕ) (f : α → α) : Option (List α) :=
  xs[i]?.map fun x => xs.set i (f x)

/-- `n` passes of `body`, from the index `i` on. -/
def loop (body : ℕ → σ → Option (ForInStep σ)) : ℕ → ℕ → σ → Option σ
  | _, 0, s => some s
  | i, n + 1, s =>
    match body i s with
    | none => none
    | some (.done s') => some s'
    | some (.yield s') => loop body (i + 1) n s'

/-- What a pass at index `j` has to give for the rule: a break meets the
postcondition, and going on keeps the invariant. -/
def PassMeets (inv : ℕ → σ → Prop) (post : σ → Prop) (j : ℕ) : ForInStep σ → Prop
  | .done s => post s
  | .yield s => inv (j + 1) s

theorem loop_spec (body : ℕ → σ → Option (ForInStep σ)) (i n : ℕ) (s : σ)
    (inv : ℕ → σ → Prop) (post : σ → Prop) (hinit : inv i s)
    (hbody : ∀ j t, i ≤ j → j < i + n → inv j t →
      ∃ r, body j t = some r ∧ PassMeets inv post j r)
    (hexit : ∀ t, inv (i + n) t → post t) :
    ∃ t, loop body i n s = some t ∧ post t := by
  induction n generalizing i s with
  | zero => exact ⟨s, rfl, hexit s hinit⟩
  | succ n ih =>
    have hpass := hbody i s (Nat.le_refl i) (by omega) hinit
    obtain ⟨r, hr, hmeets⟩ := hpass
    cases r with
    | done t =>
      refine ⟨t, ?_, hmeets⟩
      simp only [loop, hr]
    | yield t =>
      have hlen : i + 1 + n = i + (n + 1) := by omega
      have hrest := ih (i + 1) t hmeets
        (fun j u hj hlt hu => hbody j u (by omega) (by omega) hu)
        (fun u hu => hexit u (by rw [← hlen]; exact hu))
      obtain ⟨u, hu, hpost⟩ := hrest
      refine ⟨u, ?_, hpost⟩
      simp only [loop, hr]
      exact hu

theorem loop_yield {body : ℕ → σ → Option (ForInStep σ)} {i n : ℕ} {s t : σ}
    (ht : body i s = some (.yield t)) : loop body i (n + 1) s = loop body (i + 1) n t := by
  simp only [loop, ht]

/-- A loop that fails at the index `m`, when the passes before keep an invariant. -/
theorem loop_eq_none {body : ℕ → σ → Option (ForInStep σ)} {i n m : ℕ} {s : σ} (him : i ≤ m)
    (hmn : m < i + n) (inv : ℕ → σ → Prop) (hinit : inv i s)
    (hbody : ∀ j t, i ≤ j → j < m → inv j t →
      ∃ t', body j t = some (.yield t') ∧ inv (j + 1) t')
    (hfail : ∀ t, inv m t → body m t = none) : loop body i n s = none := by
  induction n generalizing i s with
  | zero => omega
  | succ n ih =>
    by_cases hhere : i = m
    · subst hhere
      simp only [loop, hfail s hinit]
    · obtain ⟨t, ht, hinv⟩ := hbody i s (Nat.le_refl i) (by omega) hinit
      rw [loop_yield ht]
      exact ih (by omega) (by omega) hinv fun j u hj => hbody j u (by omega)

/-- Passes that neither fail nor break. -/
theorem loop_keeps (body : ℕ → σ → Option σ) {i n : ℕ} {s : σ} (inv : ℕ → σ → Prop)
    (hinit : inv i s)
    (hbody : ∀ j t, i ≤ j → j < i + n → inv j t → ∃ t', body j t = some t' ∧ inv (j + 1) t') :
    ∃ t, loop (fun j t => (body j t).map .yield) i n s = some t ∧ inv (i + n) t := by
  refine loop_spec _ i n s inv (inv (i + n)) hinit (fun j t hj hlt hinv => ?_) fun t ht => ht
  obtain ⟨t', ht', hinv'⟩ := hbody j t hj hlt hinv
  exact ⟨.yield t', by rw [ht', Option.map_some], hinv'⟩

section

variable {α : Type*} {xs : List α} {i : ℕ}

/-- A branch of code that does not fail on either side. -/
theorem exists_ite {c : Prop} [Decidable c] {a b : Option α} {post : α → Prop}
    (ha : ∃ x, a = some x ∧ post x) (hb : ∃ x, b = some x ∧ post x) :
    ∃ x, (if c then a else b) = some x ∧ post x := by
  split_ifs
  · exact ha
  · exact hb

theorem exists_getElem? (hi : i < xs.length) : ∃ x, xs[i]? = some x :=
  ⟨xs[i], List.getElem?_eq_getElem hi⟩

theorem writeAt_eq {f : α → α} {x : α} (hx : xs[i]? = some x) :
    writeAt xs i f = some (xs.set i (f x)) := by
  rw [writeAt, hx, Option.map_some]

theorem writeAt_eq_none {f : α → α} (hi : xs.length ≤ i) : writeAt xs i f = none := by
  rw [writeAt, List.getElem?_eq_none hi, Option.map_none]

theorem writeAt_length (f : α → α) (hi : i < xs.length) :
    ∃ ys, writeAt xs i f = some ys ∧ ys.length = xs.length := by
  obtain ⟨x, hx⟩ := exists_getElem? hi
  exact ⟨_, writeAt_eq hx, List.length_set⟩

end

/-- A pass over a list that may fail: what every step keeps holds at its end. -/
theorem foldlM_keeps {α : Type*} {f : σ → α → Option σ} {I : σ → Prop}
    (hstep : ∀ s a s', I s → f s a = some s' → I s') {as : List α} {s s' : σ} (hs : I s)
    (hfold : as.foldlM f s = some s') : I s' := by
  induction as generalizing s with
  | nil =>
    obtain rfl := Option.some.inj hfold
    exact hs
  | cons a as ih =>
    rw [List.foldlM_cons] at hfold
    obtain ⟨t, hfirst, hrest⟩ := Option.bind_eq_some_iff.mp hfold
    exact ih (hstep s a t hs hfirst) hrest

/-- It does not fail where no step does. -/
theorem exists_foldlM {α : Type*} {f : σ → α → Option σ} {I : σ → Prop}
    (hstep : ∀ s a, I s → ∃ s', f s a = some s' ∧ I s') (as : List α) {s : σ} (hs : I s) :
    ∃ s', as.foldlM f s = some s' ∧ I s' := by
  induction as generalizing s with
  | nil => exact ⟨s, rfl, hs⟩
  | cons a as ih =>
    obtain ⟨t, hfirst, ht⟩ := hstep s a hs
    obtain ⟨s', hrest, hs'⟩ := ih ht
    refine ⟨s', ?_, hs'⟩
    rw [List.foldlM_cons, hfirst]
    exact hrest

/-- What every step keeps between states with a property, when all states on the way have
it. -/
theorem foldlM_keeps_while {α : Type*} {f : σ → α → Option σ} {I P : σ → Prop}
    (hstep : ∀ s a s', I s → P s → P s' → f s a = some s' → I s') {as : List α} {s s' : σ}
    (hs : I s) (hway : ∀ k ≤ as.length, ∀ t ∈ (as.take k).foldlM f s, P t)
    (hfold : as.foldlM f s = some s') : I s' := by
  induction as generalizing s with
  | nil =>
    obtain rfl := Option.some.inj hfold
    exact hs
  | cons a as ih =>
    rw [List.foldlM_cons] at hfold
    obtain ⟨t, hfirst, hrest⟩ := Option.bind_eq_some_iff.mp hfold
    have hlater : ∀ k ≤ as.length, ∀ u ∈ (as.take k).foldlM f t, P u := by
      intro k hk u hu
      apply hway (k + 1) (Nat.succ_le_succ hk)
      rw [List.take_succ_cons, List.foldlM_cons, hfirst]
      exact hu
    have hstart : P s := hway 0 (Nat.zero_le _) s rfl
    have hnext : P t := hlater 0 (Nat.zero_le _) t rfl
    exact ih (hstep s a t hs hstart hnext hfirst) hlater hrest

end RobotNav
