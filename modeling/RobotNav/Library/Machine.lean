/-
Machines that answer every event, and the facts that hold along their runs.

A callback-driven node is a state, an event type and a total step that returns
the next state together with what the step gave out.  A run is a list of
events.  What one step preserves becomes a fact about every run through
`run_invariant`, a condition asked of each step of a run is `Along`, and a fact
about each answer of a run is `outs_forall`.
-/
import Mathlib.Logic.Basic
import Mathlib.Data.List.Basic

namespace RobotNav

structure Machine (σ ε ω : Type*) where
  init : σ
  step : σ → ε → σ × ω

namespace Machine

variable {σ ε ω : Type*} (m : Machine σ ε ω)

def next (s : σ) (e : ε) : σ := (m.step s e).1

def out (s : σ) (e : ε) : ω := (m.step s e).2

/-- The state after the events, in order. -/
def run (s : σ) : List ε → σ
  | [] => s
  | e :: es => run (m.next s e) es

/-- What the steps gave out, one answer per event. -/
def outs (s : σ) : List ε → List ω
  | [] => []
  | e :: es => m.out s e :: outs (m.next s e) es

/-- Every step of the run satisfies `P`, read on the state before it and on its
event. -/
def Along (P : σ → ε → Prop) (s : σ) : List ε → Prop
  | [] => True
  | e :: es => P s e ∧ Along P (m.next s e) es

instance (P : σ → ε → Prop) [∀ s e, Decidable (P s e)] (s : σ) (es : List ε) :
    Decidable (m.Along P s es) :=
  match es with
  | [] => isTrue trivial
  | e :: es =>
    have : Decidable (m.Along P (m.next s e) es) := instDecidableAlong P (m.next s e) es
    inferInstanceAs (Decidable (P s e ∧ m.Along P (m.next s e) es))

@[simp] theorem run_nil (s : σ) : m.run s [] = s := rfl

@[simp] theorem run_cons (s : σ) (e : ε) (es : List ε) :
    m.run s (e :: es) = m.run (m.next s e) es := rfl

@[simp] theorem outs_nil (s : σ) : m.outs s [] = [] := rfl

@[simp] theorem outs_cons (s : σ) (e : ε) (es : List ε) :
    m.outs s (e :: es) = m.out s e :: m.outs (m.next s e) es := rfl

theorem run_append (s : σ) (a b : List ε) :
    m.run s (a ++ b) = m.run (m.run s a) b := by
  induction a generalizing s with
  | nil => rfl
  | cons e rest ih => exact ih (m.next s e)

theorem outs_append (s : σ) (a b : List ε) :
    m.outs s (a ++ b) = m.outs s a ++ m.outs (m.run s a) b := by
  induction a generalizing s with
  | nil => rfl
  | cons e rest ih =>
    simp only [List.cons_append, outs_cons, run_cons]
    rw [ih]

theorem run_snoc (s : σ) (es : List ε) (e : ε) :
    m.run s (es ++ [e]) = m.next (m.run s es) e := m.run_append s es [e]

theorem outs_snoc (s : σ) (es : List ε) (e : ε) :
    m.outs s (es ++ [e]) = m.outs s es ++ [m.out (m.run s es) e] :=
  m.outs_append s es [e]

variable {m}

/-- Every answer of a run is the answer to one of its events. -/
theorem exists_of_mem_outs {s : σ} {es : List ε} {o : ω} (ho : o ∈ m.outs s es) :
    ∃ t, ∃ e ∈ es, m.out t e = o := by
  induction es generalizing s with
  | nil => cases ho
  | cons e rest ih =>
    rw [outs_cons] at ho
    rcases List.mem_cons.mp ho with rfl | ho
    · exact ⟨s, e, List.mem_cons_self, rfl⟩
    · obtain ⟨t, f, hf, hout⟩ := ih ho
      exact ⟨t, f, List.mem_cons_of_mem e hf, hout⟩

/-- Every event of a run is answered. -/
theorem exists_out_mem {es : List ε} {e : ε} (he : e ∈ es) (s : σ) :
    ∃ t, m.out t e ∈ m.outs s es := by
  induction es generalizing s with
  | nil => cases he
  | cons f rest ih =>
    rw [outs_cons]
    rcases List.mem_cons.mp he with rfl | he
    · exact ⟨s, List.mem_cons_self⟩
    · obtain ⟨t, ht⟩ := ih he (m.next s f)
      exact ⟨t, List.mem_cons_of_mem _ ht⟩

/-! ## Conditions on the steps of a run -/

theorem along_append {P : σ → ε → Prop} {s : σ} {a b : List ε} :
    m.Along P s (a ++ b) ↔ m.Along P s a ∧ m.Along P (m.run s a) b := by
  induction a generalizing s with
  | nil => simp [Along]
  | cons e rest ih =>
    simp only [List.cons_append, Along, run_cons, ih, and_assoc]

/-- A condition holds along a run exactly when it holds at each place where the
run can be cut before an event. -/
theorem along_iff {P : σ → ε → Prop} {s : σ} {es : List ε} :
    m.Along P s es ↔ ∀ a e b, es = a ++ e :: b → P (m.run s a) e := by
  induction es generalizing s with
  | nil => simp [Along]
  | cons e rest ih =>
    simp only [Along, ih]
    constructor
    · intro ⟨he, hrest⟩ a e' b hcut
      cases a with
      | nil =>
        obtain ⟨rfl, -⟩ := List.cons.inj hcut
        exact he
      | cons f a =>
        obtain ⟨rfl, htail⟩ := List.cons.inj hcut
        exact hrest a e' b htail
    · intro h
      exact ⟨h [] e rest rfl, fun a e' b hcut => h (e :: a) e' b (by rw [hcut]; rfl)⟩

theorem Along.mono {P Q : σ → ε → Prop} (hPQ : ∀ s e, P s e → Q s e) {s : σ}
    {es : List ε} (h : m.Along P s es) : m.Along Q s es := by
  induction es generalizing s with
  | nil => trivial
  | cons e rest ih => exact ⟨hPQ s e h.1, ih h.2⟩

/-! ## Invariants -/

theorem run_invariant {I : σ → Prop} (hstep : ∀ s e, I s → I (m.next s e))
    {s : σ} (hs : I s) (es : List ε) : I (m.run s es) := by
  induction es generalizing s with
  | nil => exact hs
  | cons e rest ih => exact ih (hstep s e hs)

/-- An invariant that each step keeps under its guard. -/
theorem run_along {I : σ → Prop} {P : σ → ε → Prop}
    (hstep : ∀ s e, I s → P s e → I (m.next s e)) {s : σ} (hs : I s) {es : List ε}
    (h : m.Along P s es) : I (m.run s es) := by
  induction es generalizing s with
  | nil => exact hs
  | cons e rest ih => exact ih (hstep s e hs h.1) h.2

/-- A condition that follows from an invariant holds along every run whose
steps meet the guard that keeps the invariant. -/
theorem along_of_invariant {I : σ → Prop} {P Q : σ → ε → Prop}
    (hstep : ∀ s e, I s → P s e → I (m.next s e))
    (hQ : ∀ s e, I s → P s e → Q s e) {s : σ} (hs : I s) {es : List ε}
    (h : m.Along P s es) : m.Along Q s es := by
  induction es generalizing s with
  | nil => trivial
  | cons e rest ih => exact ⟨hQ s e hs h.1, ih (hstep s e hs h.1) h.2⟩

/-- The answers of a run are those of its steps. -/
theorem outs_forall {R : ω → Prop} {s : σ} {es : List ε} :
    (∀ o ∈ m.outs s es, R o) ↔ m.Along (fun s e => R (m.out s e)) s es := by
  induction es generalizing s with
  | nil => simp [Along]
  | cons e rest ih => simp [Along, ih]

/-- A fact about each answer of a run, where an invariant says what it asks of the
step. -/
theorem outs_forall_iff {I : σ → Prop} {R : ω → Prop} {P : σ → ε → Prop}
    (hstep : ∀ s e, I s → I (m.next s e)) (hout : ∀ s e, I s → (R (m.out s e) ↔ P s e))
    {s : σ} (hs : I s) {es : List ε} : (∀ o ∈ m.outs s es, R o) ↔ m.Along P s es := by
  rw [outs_forall]
  induction es generalizing s with
  | nil => exact Iff.rfl
  | cons e rest ih => exact and_congr (hout s e hs) (ih (hstep s e hs))

/-- A place among the answers of a run is a place among its events. -/
theorem outs_eq_append_cons {s : σ} {es : List ε} {a b : List ω} {o : ω}
    (h : m.outs s es = a ++ o :: b) :
    ∃ before e after, es = before ++ e :: after ∧ m.outs s before = a ∧
      m.out (m.run s before) e = o ∧ m.outs (m.next (m.run s before) e) after = b := by
  induction es generalizing s a with
  | nil => simp at h
  | cons e rest ih =>
    rw [outs_cons] at h
    cases a with
    | nil =>
      obtain ⟨ho, htail⟩ := List.cons.inj h
      exact ⟨[], e, rest, rfl, rfl, ho, htail⟩
    | cons o' a =>
      obtain ⟨ho', htail⟩ := List.cons.inj h
      obtain ⟨before, f, after, hes, houts, hout, hafter⟩ := ih htail
      refine ⟨e :: before, f, after, by rw [hes]; rfl, ?_, hout, hafter⟩
      rw [outs_cons, houts, ho']

/-! ## Projections -/

/-- `m` runs `m'` inside it: what it shows of its state and of its answers moves
as `m'` does, on the same events. -/
structure Projects {σ' ω' : Type*} (m : Machine σ ε ω) (m' : Machine σ' ε ω') (f : σ → σ')
    (g : ω → ω') : Prop where
  next : ∀ s e, f (m.next s e) = m'.next (f s) e
  out : ∀ s e, g (m.out s e) = m'.out (f s) e

namespace Projects

variable {σ' ω' : Type*} {m' : Machine σ' ε ω'} {f : σ → σ'} {g : ω → ω'}

theorem run (h : Projects m m' f g) (s : σ) (es : List ε) :
    f (m.run s es) = m'.run (f s) es := by
  induction es generalizing s with
  | nil => rfl
  | cons e rest ih => rw [run_cons, run_cons, ih, h.next]

theorem outs (h : Projects m m' f g) (s : σ) (es : List ε) :
    (m.outs s es).map g = m'.outs (f s) es := by
  induction es generalizing s with
  | nil => rfl
  | cons e rest ih => rw [outs_cons, outs_cons, List.map_cons, ih, h.next, h.out]

end Projects

end Machine
end RobotNav
