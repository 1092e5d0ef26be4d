/-
Machines whose steps are calls to another machine.

The outer machine sees its events, the inner one the calls made for them: none, one or
many for each.  What the inner machine does over a run of the outer one is its own run over
the calls, in order.  What the calls of a run cost is charged to the events, with what a
state still holds ready for later.
-/
import RobotNav.Library.Machine
import Mathlib.Algebra.BigOperators.Group.List.Basic
import Mathlib.Algebra.GroupWithZero.Nat

namespace RobotNav
namespace Machine

variable {σ ε ω τ ι υ : Type*}

/-- The calls made along a run, in order. -/
def gathered (m : Machine σ ε ω) (calls : σ → ε → List ι) (s : σ) : List ε → List ι
  | [] => []
  | e :: es => calls s e ++ gathered m calls (m.next s e) es

section

variable {m : Machine σ ε ω} {calls : σ → ε → List ι}

@[simp] theorem gathered_nil (s : σ) : m.gathered calls s [] = [] := rfl

@[simp] theorem gathered_cons (s : σ) (e : ε) (es : List ε) :
    m.gathered calls s (e :: es) = calls s e ++ m.gathered calls (m.next s e) es := rfl

/-- What an invariant says of the calls of a step holds of all calls of a run. -/
theorem gathered_forall {I : σ → Prop} {G : ε → Prop} {R : ι → Prop}
    (hstep : ∀ s e, I s → G e → I (m.next s e)) (hcalls : ∀ s e, I s → ∀ c ∈ calls s e, R c)
    {s : σ} (hs : I s) {es : List ε} (hG : ∀ e ∈ es, G e) : ∀ c ∈ m.gathered calls s es, R c := by
  induction es generalizing s with
  | nil => exact fun c hc => absurd hc List.not_mem_nil
  | cons e rest ih =>
    rw [List.forall_mem_cons] at hG
    exact List.forall_mem_append.mpr ⟨hcalls s e hs, ih (hstep s e hs hG.1) hG.2⟩

/-- What a machine does while it is starting up, and how it leaves that. -/
structure StartsUp (m : Machine σ ε ω) (calls : σ → ε → List ι) (I starting : σ → Prop)
    (kind : ι → Prop) : Prop where
  step : ∀ s e, I s → I (m.next s e)
  early : ∀ s e, I s → starting s → ∀ c ∈ calls s e, kind c
  late : ∀ s e, I s → ¬ starting s → ∀ c ∈ calls s e, ¬ kind c
  /-- It takes a call to end the start. -/
  ends : ∀ s e, I s → starting s → ¬ starting (m.next s e) → calls s e ≠ []
  stays : ∀ s e, I s → ¬ starting s → ¬ starting (m.next s e)

/-- The calls of the start come before all others. -/
theorem StartsUp.gathered {I starting : σ → Prop} {kind : ι → Prop}
    (h : StartsUp m calls I starting kind) {s : σ} (hs : I s) (es : List ε) :
    ∃ before after, m.gathered calls s es = before ++ after ∧ (∀ c ∈ before, kind c) ∧
      (∀ c ∈ after, ¬ kind c) ∧ (starting (m.run s es) → after = []) ∧
        (starting s → ¬ starting (m.run s es) → before ≠ []) := by
  induction es generalizing s with
  | nil =>
    exact ⟨[], [], rfl, fun c hc => absurd hc List.not_mem_nil,
      fun c hc => absurd hc List.not_mem_nil, fun _ => rfl, fun hstart hnot => absurd hstart hnot⟩
  | cons e rest ih =>
    by_cases hstart : starting s
    · obtain ⟨before, after, hcalls, hbefore, hafter, hnone, hsome⟩ := ih (h.step s e hs)
      refine ⟨calls s e ++ before, after, ?_, ?_, hafter, hnone, ?_⟩
      · rw [gathered_cons, hcalls, List.append_assoc]
      · exact List.forall_mem_append.mpr ⟨h.early s e hs hstart, hbefore⟩
      · intro _ hdone hnil
        obtain ⟨hfirst, hrest⟩ := List.append_eq_nil_iff.mp hnil
        by_cases hnext : starting (m.next s e)
        · exact hsome hnext hdone hrest
        · exact h.ends s e hs hstart hnext hfirst
    · -- from here on there is no call of the start
      have hstep : ∀ t f, I t ∧ ¬ starting t → I (m.next t f) ∧ ¬ starting (m.next t f) :=
        fun t f ht => ⟨h.step t f ht.1, h.stays t f ht.1 ht.2⟩
      have hrun := run_invariant hstep ⟨hs, hstart⟩ (e :: rest)
      have hall : ∀ c ∈ m.gathered calls s (e :: rest), ¬ kind c :=
        gathered_forall (fun t f ht _ => hstep t f ht) (fun t f ht => h.late t f ht.1 ht.2)
          ⟨hs, hstart⟩ fun _ _ => trivial
      exact ⟨[], _, rfl, fun c hc => absurd hc List.not_mem_nil, hall,
        fun hstarting => absurd hstarting hrun.2, fun hstarting => absurd hstarting hstart⟩

/-- A condition on the events alone holds along a run of such events. -/
theorem along_of_mem {Q : ε → Prop} {s : σ} {es : List ε} (h : ∀ e ∈ es, Q e) :
    m.Along (fun _ e => Q e) s es := by
  induction es generalizing s with
  | nil => trivial
  | cons e rest ih =>
    rw [List.forall_mem_cons] at h
    exact ⟨h.1, ih h.2⟩

/-- It may be added to one along the run. -/
theorem Along.and_mem {P : σ → ε → Prop} {Q : ε → Prop} {s : σ} {es : List ε} (h : m.Along P s es)
    (hmem : ∀ e ∈ es, Q e) : m.Along (fun s e => P s e ∧ Q e) s es := by
  induction es generalizing s with
  | nil => trivial
  | cons e rest ih =>
    rw [List.forall_mem_cons] at hmem
    exact ⟨⟨h.1, hmem.1⟩, ih h.2 hmem.2⟩

/-- What a run costs is paid by its events and by what the first state holds ready. -/
theorem sum_gathered_le (held : σ → ℕ) {cost : ι → ℕ} {paid : ε → ℕ}
    (hstep : ∀ s e, ((calls s e).map cost).sum + held (m.next s e) ≤ held s + paid e) (s : σ)
    (es : List ε) :
    ((m.gathered calls s es).map cost).sum + held (m.run s es) ≤ held s + (es.map paid).sum := by
  induction es generalizing s with
  | nil => simp
  | cons e rest ih =>
    have hfirst := hstep s e
    have hrest := ih (m.next s e)
    rw [gathered_cons, List.map_append, List.sum_append, List.map_cons, List.sum_cons, run_cons]
    omega

end

/-- `f` of a state of `m` is a state of `m'` that only the calls move. -/
structure Drives (m : Machine σ ε ω) (m' : Machine τ ι υ) (f : σ → τ) (calls : σ → ε → List ι) :
    Prop where
  next : ∀ s e, f (m.next s e) = m'.run (f s) (calls s e)

theorem Drives.run {m : Machine σ ε ω} {m' : Machine τ ι υ} {f : σ → τ} {calls : σ → ε → List ι}
    (h : Drives m m' f calls) (s : σ) (es : List ε) :
    f (m.run s es) = m'.run (f s) (m.gathered calls s es) := by
  induction es generalizing s with
  | nil => rfl
  | cons e rest ih => rw [run_cons, ih, h.next, gathered_cons, run_append]

end Machine
end RobotNav
