/-
Best-first search that closes each vertex once.

The open list may hold many entries for one vertex.  An entry of least key is
taken out; if its vertex is closed it is dropped, otherwise it closes the vertex
and its successors at open vertices go in.  Ties are broken in any way, so the
search is a relation, and its facts hold of every order.

An entry is more than its vertex (it knows how it was reached), and the closing
entry need not be the best one for its vertex.  What can still be said of it is
`Run.dominated`: along a path whose entries are never overtaken by worse ones,
every closing entry is as good as the path.
-/
import Mathlib.Data.List.Nodup
import Mathlib.Data.List.Perm.Basic
import Mathlib.Data.Finset.Card
import Mathlib.Data.Nat.Find
import Mathlib.Logic.Relation

namespace RobotNav

structure BestFirst (N V K : Type*) where
  vertex : N → V
  key : N → K
  /-- The entries at the neighbours of an entry, closed or not. -/
  expand : N → List N
  start : N
  goal : V → Prop

namespace BestFirst

variable {N V K : Type*}

/-- The open list, and the entries that closed their vertex, oldest first. -/
structure State (N : Type*) where
  opened : List N
  expanded : List N

variable (p : BestFirst N V K)

def initial : State N := ⟨[p.start], []⟩

def Closed (expanded : List N) (v : V) : Prop := ∃ n ∈ expanded, p.vertex n = v

/-- The entries that successive expansions make. -/
inductive Generated : N → Prop where
  | start : Generated p.start
  | expand {n m : N} (hn : Generated n) (hm : m ∈ p.expand n) : Generated m

section Steps

variable [LE K]

/-- `n` is taken out of the open list. -/
structure Pop (s : State N) (n : N) (rest : List N) : Prop where
  perm : s.opened.Perm (n :: rest)
  least : ∀ m ∈ s.opened, p.key n ≤ p.key m

/-- The entries that go in when `n` closes its vertex. -/
structure Pushes (s : State N) (n : N) (pushed : List N) : Prop where
  sublist : List.Sublist pushed (p.expand n)
  complete : ∀ m ∈ p.expand n, m ∈ pushed ∨ p.Closed (s.expanded ++ [n]) (p.vertex m)

inductive Step : State N → State N → Prop where
  | skip {s : State N} {n : N} {rest : List N} (hpop : p.Pop s n rest)
      (hclosed : p.Closed s.expanded (p.vertex n)) : Step s ⟨rest, s.expanded⟩
  | expand {s : State N} {n : N} {rest pushed opened : List N} (hpop : p.Pop s n rest)
      (hopen : ¬ p.Closed s.expanded (p.vertex n)) (hgoal : ¬ p.goal (p.vertex n))
      (hpush : p.Pushes s n pushed) (hopened : opened.Perm (rest ++ pushed)) :
      Step s ⟨opened, s.expanded ++ [n]⟩

/-- The states after `k` steps. -/
inductive Run : ℕ → State N → Prop where
  | initial : Run 0 p.initial
  | step {k : ℕ} {s s' : State N} (hrun : Run k s) (hstep : p.Step s s') : Run (k + 1) s'

end Steps

variable {p}

/-! ## The open list -/

theorem Closed.append {expanded : List N} {v : V} (h : p.Closed expanded v) (n : N) :
    p.Closed (expanded ++ [n]) v := by
  obtain ⟨m, hm, hv⟩ := h
  exact ⟨m, List.mem_append_left _ hm, hv⟩

theorem closed_self (expanded : List N) (n : N) : p.Closed (expanded ++ [n]) (p.vertex n) :=
  ⟨n, List.mem_append_right _ (List.mem_singleton_self n), rfl⟩

section Open

variable [LE K]

theorem Pop.mem {s : State N} {n : N} {rest : List N} (h : p.Pop s n rest) : n ∈ s.opened :=
  h.perm.mem_iff.mpr List.mem_cons_self

theorem Pop.length {s : State N} {n : N} {rest : List N} (h : p.Pop s n rest) :
    s.opened.length = rest.length + 1 := by
  rw [h.perm.length_eq, List.length_cons]

/-- Taking out `n` keeps every other entry. -/
theorem Pop.mem_rest {s : State N} {n m : N} {rest : List N} (h : p.Pop s n rest)
    (hm : m ∈ s.opened) : m = n ∨ m ∈ rest :=
  List.mem_cons.mp (h.perm.mem_iff.mp hm)

theorem Pop.rest_subset {s : State N} {n m : N} {rest : List N} (h : p.Pop s n rest)
    (hm : m ∈ rest) : m ∈ s.opened :=
  h.perm.mem_iff.mpr (List.mem_cons_of_mem _ hm)

end Open

/-! ## What a run keeps -/

structure Searched (p : BestFirst N V K) (s : State N) : Prop where
  opened : ∀ n ∈ s.opened, p.Generated n
  expanded : ∀ n ∈ s.expanded, p.Generated n
  distinct : (s.expanded.map p.vertex).Nodup
  notGoal : ∀ n ∈ s.expanded, ¬ p.goal (p.vertex n)
  /-- Every successor of an expanded entry waits, or its vertex is closed. -/
  frontier : ∀ n ∈ s.expanded, ∀ m ∈ p.expand n, m ∈ s.opened ∨ p.Closed s.expanded (p.vertex m)
  root : (s.opened = [p.start] ∧ s.expanded = []) ∨ p.start ∈ s.expanded

theorem initial_searched : Searched p p.initial where
  opened := fun n hn => by
    rw [List.mem_singleton.mp hn]
    exact Generated.start
  expanded := fun n hn => absurd hn List.not_mem_nil
  distinct := List.nodup_nil
  notGoal := fun n hn => absurd hn List.not_mem_nil
  frontier := fun n hn => absurd hn List.not_mem_nil
  root := .inl ⟨rfl, rfl⟩

section Runs

variable [LE K]

theorem Searched.skip {s : State N} (h : Searched p s) {n : N} {rest : List N}
    (hpop : p.Pop s n rest) (hclosed : p.Closed s.expanded (p.vertex n)) :
    Searched p ⟨rest, s.expanded⟩ := by
  refine ⟨fun m hm => h.opened m (hpop.rest_subset hm), h.expanded, h.distinct, h.notGoal, ?_, ?_⟩
  · intro n' hn' m hm
    rcases h.frontier n' hn' m hm with hopen | hdone
    · rcases hpop.mem_rest hopen with rfl | hrest
      · exact .inr hclosed
      · exact .inl hrest
    · exact .inr hdone
  · rcases h.root with ⟨-, hnil⟩ | hstart
    · obtain ⟨m, hm, -⟩ := hclosed
      rw [hnil] at hm
      exact absurd hm List.not_mem_nil
    · exact .inr hstart

theorem Searched.expand {s : State N} (h : Searched p s) {n : N} {rest pushed opened : List N}
    (hpop : p.Pop s n rest) (hopen : ¬ p.Closed s.expanded (p.vertex n))
    (hgoal : ¬ p.goal (p.vertex n)) (hpush : p.Pushes s n pushed)
    (hopened : opened.Perm (rest ++ pushed)) : Searched p ⟨opened, s.expanded ++ [n]⟩ := by
  have hn : p.Generated n := h.opened n hpop.mem
  have hmem : ∀ m, m ∈ opened ↔ m ∈ rest ∨ m ∈ pushed := fun m => by
    rw [hopened.mem_iff, List.mem_append]
  refine ⟨?_, ?_, ?_, ?_, ?_, ?_⟩
  · intro m hm
    rcases (hmem m).mp hm with hrest | hnew
    · exact h.opened m (hpop.rest_subset hrest)
    · exact hn.expand (hpush.sublist.mem hnew)
  · intro m hm
    rcases List.mem_append.mp hm with hold | hnew
    · exact h.expanded m hold
    · rw [List.mem_singleton.mp hnew]
      exact hn
  · rw [List.map_append, List.map_singleton, List.nodup_append]
    refine ⟨h.distinct, List.nodup_singleton _, ?_⟩
    intro v hv w hw heq
    rw [List.mem_singleton.mp hw] at heq
    obtain ⟨m, hm, hmv⟩ := List.mem_map.mp hv
    exact hopen ⟨m, hm, hmv.trans heq⟩
  · intro m hm
    rcases List.mem_append.mp hm with hold | hnew
    · exact h.notGoal m hold
    · rw [List.mem_singleton.mp hnew]
      exact hgoal
  · intro n' hn' m hm
    rcases List.mem_append.mp hn' with hold | hnew
    · rcases h.frontier n' hold m hm with hwait | hdone
      · rcases hpop.mem_rest hwait with rfl | hrest
        · exact .inr (closed_self _ _)
        · exact .inl ((hmem m).mpr (.inl hrest))
      · exact .inr (hdone.append n)
    · rw [List.mem_singleton.mp hnew] at hm
      rcases hpush.complete m hm with hin | hdone
      · exact .inl ((hmem m).mpr (.inr hin))
      · exact .inr hdone
  · right
    rcases h.root with ⟨hstart, -⟩ | hstart
    · have hmem' := hpop.mem
      rw [hstart, List.mem_singleton] at hmem'
      rw [hmem']
      exact List.mem_append_right _ (List.mem_singleton_self _)
    · exact List.mem_append_left _ hstart

theorem Run.searched {k : ℕ} {s : State N} (h : p.Run k s) : Searched p s := by
  induction h with
  | initial => exact initial_searched
  | step _ hstep ih =>
    cases hstep with
    | skip hpop hclosed => exact ih.skip hpop hclosed
    | expand hpop hopen hgoal hpush hopened => exact ih.expand hpop hopen hgoal hpush hopened

/-! ## Termination -/

/-- Every step takes one entry out, and only expansions put entries in. -/
theorem Run.count {d : ℕ} (hd : ∀ n, p.Generated n → (p.expand n).length ≤ d) {k : ℕ}
    {s : State N} (h : p.Run k s) : k + s.opened.length ≤ 1 + d * s.expanded.length := by
  induction h with
  | initial => simp [BestFirst.initial]
  | step hrun hstep ih =>
    cases hstep with
    | skip hpop hclosed =>
      have hlen := hpop.length
      simp only
      omega
    | expand hpop hopen hgoal hpush hopened =>
      have hlen := hpop.length
      have hnew := hpush.sublist.length_le
      have hbound := hd _ (hrun.searched.opened _ hpop.mem)
      simp only [hopened.length_eq, List.length_append, List.length_singleton, Nat.mul_add]
      omega

/-- The closed vertices are distinct, so there are no more of them than vertices. -/
theorem Run.expanded_length_le [DecidableEq V] {range : Finset V}
    (hrange : ∀ n, p.Generated n → p.vertex n ∈ range) {k : ℕ} {s : State N} (h : p.Run k s) :
    s.expanded.length ≤ range.card := by
  have hs := h.searched
  have hcard : (s.expanded.map p.vertex).toFinset.card = s.expanded.length := by
    rw [List.toFinset_card_of_nodup hs.distinct, List.length_map]
  rw [← hcard]
  refine Finset.card_le_card fun v hv => ?_
  obtain ⟨n, hn, hnv⟩ := List.mem_map.mp (List.mem_toFinset.mp hv)
  rw [← hnv]
  exact hrange n (hs.expanded n hn)

end Runs

/-! ## Completeness -/

/-- When the open list is empty, everything that can be reached is closed. -/
theorem Searched.closed_of_reachable {s : State N} (h : Searched p s) (hempty : s.opened = [])
    (edge : V → V → Prop)
    (hedge : ∀ n, p.Generated n → ∀ w, edge (p.vertex n) w → ∃ m ∈ p.expand n, p.vertex m = w)
    {v : V} (hreach : Relation.ReflTransGen edge (p.vertex p.start) v) :
    p.Closed s.expanded v := by
  induction hreach with
  | refl =>
    rcases h.root with ⟨hstart, -⟩ | hstart
    · rw [hempty] at hstart
      cases hstart
    · exact ⟨p.start, hstart, rfl⟩
  | tail _ hvw ih =>
    obtain ⟨n, hn, rfl⟩ := ih
    obtain ⟨m, hm, rfl⟩ := hedge n (h.expanded n hn) _ hvw
    rcases h.frontier n hn m hm with hwait | hdone
    · rw [hempty] at hwait
      exact absurd hwait List.not_mem_nil
    · exact hdone

/-- A search that ends without accepting a goal had none to reach. -/
theorem Searched.not_goal_of_reachable {s : State N} (h : Searched p s) (hempty : s.opened = [])
    (edge : V → V → Prop)
    (hedge : ∀ n, p.Generated n → ∀ w, edge (p.vertex n) w → ∃ m ∈ p.expand n, p.vertex m = w)
    {v : V} (hreach : Relation.ReflTransGen edge (p.vertex p.start) v) : ¬ p.goal v := by
  obtain ⟨n, hn, rfl⟩ := h.closed_of_reachable hempty edge hedge hreach
  exact h.notGoal n hn

/-! ## How an entry was reached -/

section Lines

variable [LE K]

/-- `line n` lists the vertices from `n` back to the start. -/
structure Lines (p : BestFirst N V K) (line : N → List V) : Prop where
  start : line p.start = [p.vertex p.start]
  expand : ∀ n m, m ∈ p.expand n → line m = p.vertex m :: line n

variable {line : N → List V}

/-- Behind every entry lie distinct closed vertices. -/
structure Threaded (p : BestFirst N V K) (line : N → List V) (s : State N) : Prop where
  expanded : ∀ n ∈ s.expanded, (line n).Nodup ∧ ∀ v ∈ line n, p.Closed s.expanded v
  opened : ∀ n ∈ s.opened, ∃ l, line n = p.vertex n :: l ∧ l.Nodup ∧
    ∀ v ∈ l, p.Closed s.expanded v

theorem Threaded.pop_nodup {s : State N} (h : Threaded p line s) {n : N} {rest : List N}
    (hpop : p.Pop s n rest) (hopen : ¬ p.Closed s.expanded (p.vertex n)) : (line n).Nodup := by
  obtain ⟨l, hl, hnodup, hclosed⟩ := h.opened n hpop.mem
  rw [hl]
  exact List.nodup_cons.mpr ⟨fun hv => hopen (hclosed _ hv), hnodup⟩

theorem Run.threaded (hline : Lines p line) {k : ℕ} {s : State N} (h : p.Run k s) :
    Threaded p line s := by
  induction h with
  | initial =>
    refine ⟨fun n hn => absurd hn List.not_mem_nil, fun n hn => ⟨[], ?_, List.nodup_nil, ?_⟩⟩
    · rw [List.mem_singleton.mp hn]
      exact hline.start
    · exact fun v hv => absurd hv List.not_mem_nil
  | @step k s s' hrun hstep ih =>
    cases hstep with
    | skip hpop hclosed => exact ⟨ih.expanded, fun n hn => ih.opened n (hpop.rest_subset hn)⟩
    | @expand n rest pushed opened hpop hopen hgoal hpush hopened =>
      have hnodup := ih.pop_nodup hpop hopen
      have hclosed : ∀ v ∈ line n, p.Closed (s.expanded ++ [n]) v := by
        obtain ⟨l, hl, -, hl'⟩ := ih.opened n hpop.mem
        intro v hv
        rw [hl] at hv
        rcases List.mem_cons.mp hv with rfl | hv
        · exact closed_self _ _
        · exact (hl' v hv).append n
      constructor
      · intro m hm
        rcases List.mem_append.mp hm with hold | hnew
        · obtain ⟨hm1, hm2⟩ := ih.expanded m hold
          exact ⟨hm1, fun v hv => (hm2 v hv).append n⟩
        · rw [List.mem_singleton.mp hnew]
          exact ⟨hnodup, hclosed⟩
      · intro m hm
        rw [hopened.mem_iff, List.mem_append] at hm
        rcases hm with hrest | hnew
        · obtain ⟨l, hl, hl1, hl2⟩ := ih.opened m (hpop.rest_subset hrest)
          exact ⟨l, hl, hl1, fun v hv => (hl2 v hv).append n⟩
        · exact ⟨line n, hline.expand n m (hpush.sublist.mem hnew), hnodup, hclosed⟩

end Lines

/-! ## Entries as good as a path -/

section Dominance

variable [LE K]

/-- What makes every closing entry on the path `c` good: the start is, good
entries have good successors along the path, and an entry with a key no larger
than that of a good one earlier on the path is good too. -/
structure Dominance (p : BestFirst N V K) (c : ℕ → V) (len : ℕ) (good : ℕ → N → Prop) : Prop where
  first : c 0 = p.vertex p.start
  start : ∀ i ≤ len, c i = p.vertex p.start → good i p.start
  expand : ∀ i < len, ∀ n, p.Generated n → p.vertex n = c i → good i n →
    ∃ m ∈ p.expand n, p.vertex m = c (i + 1) ∧ good (i + 1) m
  overtake : ∀ i j n m, 1 ≤ j → j ≤ i → i ≤ len → p.Generated n → p.Generated m →
    p.vertex n = c i → p.vertex m = c j → good j m → p.key n ≤ p.key m → good i n

variable {c : ℕ → V} {len : ℕ} {good : ℕ → N → Prop}

/-- The first vertex of the path that is still open has a good entry waiting. -/
theorem Dominance.pop_good (hdom : Dominance p c len good) {s : State N} (h : Searched p s)
    (hgood : ∀ i ≤ len, ∀ n ∈ s.expanded, p.vertex n = c i → good i n) {n : N} {rest : List N}
    (hpop : p.Pop s n rest) (hopen : ¬ p.Closed s.expanded (p.vertex n)) {i : ℕ} (hi : i ≤ len)
    (hn : p.vertex n = c i) : good i n := by
  classical
  have hex : ∃ j, ¬ p.Closed s.expanded (c j) := ⟨i, hn ▸ hopen⟩
  have hji : Nat.find hex ≤ i := Nat.find_min' hex (hn ▸ hopen)
  have hgen : p.Generated n := h.opened n hpop.mem
  cases hj : Nat.find hex with
  | zero =>
    have hfirst := Nat.find_spec hex
    rw [hj, hdom.first] at hfirst
    rcases h.root with ⟨hstart, -⟩ | hstart
    · have hmem := hpop.mem
      rw [hstart, List.mem_singleton] at hmem
      rw [hmem] at hn ⊢
      exact hdom.start i hi hn.symm
    · exact absurd ⟨p.start, hstart, rfl⟩ hfirst
  | succ j =>
    have hopenj := Nat.find_spec hex
    rw [hj] at hopenj hji
    have hbefore : p.Closed s.expanded (c j) :=
      Classical.not_not.mp (Nat.find_min hex (by omega))
    obtain ⟨n', hn', hv'⟩ := hbefore
    obtain ⟨m, hm, hmv, hmgood⟩ := hdom.expand j (by omega) n' (h.expanded n' hn') hv'
      (hgood j (by omega) n' hn' hv')
    rcases h.frontier n' hn' m hm with hwait | hdone
    · exact hdom.overtake i (j + 1) n m (by omega) hji hi hgen (h.opened m hwait) hn hmv hmgood
        (hpop.least m hwait)
    · rw [hmv] at hdone
      exact absurd hdone hopenj

theorem Run.dominated (hdom : Dominance p c len good) {k : ℕ} {s : State N} (h : p.Run k s) :
    ∀ i ≤ len, ∀ n ∈ s.expanded, p.vertex n = c i → good i n := by
  induction h with
  | initial => exact fun i _ n hn => absurd hn List.not_mem_nil
  | step hrun hstep ih =>
    cases hstep with
    | skip hpop hclosed => exact ih
    | expand hpop hopen hgoal hpush hopened =>
      intro i hi n hn hv
      rcases List.mem_append.mp hn with hold | hnew
      · exact ih i hi n hold hv
      · rw [List.mem_singleton.mp hnew] at hv ⊢
        exact hdom.pop_good hrun.searched ih hpop hopen hi hv

end Dominance

end BestFirst
end RobotNav
