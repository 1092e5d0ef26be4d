/-
The map tree under both threads.

Up to the swap the new subtree, once all that waits in the log is replayed on it,
holds what the old one holds.  That survives every step of the mapping thread, and so
the swap changes nothing of what the tree holds, unless the loop behind it takes the
flag of a deleted node off.
-/
import Mathlib.Data.List.Induction
import RobotNav.IkdTree.Visits
import RobotNav.Library.Fifo

namespace RobotNav
namespace IkdTree

open PointType (coords)
open KdTree

/-! ## The queue -/

namespace ManualQ

variable {α : Type} {m : ManualQ α}

/-- All that has been pushed, and how much of it has been popped. -/
structure Keeps (m : ManualQ α) (history : List α) (popped : ℕ) : Prop where
  held : Fifo.Holds (fun i => i % qLen) m.q popped history
  popped_le : popped ≤ history.length
  head : m.head = popped % qLen
  tail : m.tail = history.length % qLen
  counter : m.counter = history.length - popped
  isEmpty : m.isEmpty = true ↔ m.counter = 0

/-- These are in the queue, the oldest first. -/
def Waiting (m : ManualQ α) (waiting : List α) : Prop :=
  ∃ history popped, m.Keeps history popped ∧ waiting = history.drop popped

theorem apart : Fifo.Apart (fun i => i % qLen) qLen := by
  intro i j hlt hnear heq
  have hpos : 0 < qLen := by decide
  have hi := Nat.div_add_mod i qLen
  have hj := Nat.div_add_mod j qLen
  have hsame : i % qLen = j % qLen := heq
  have hdiv : i / qLen = j / qLen ∨ i / qLen + 1 ≤ j / qLen := by
    have hle := Nat.div_le_div_right (c := qLen) hlt.le
    omega
  rcases hdiv with hdiv | hdiv
  · rw [hdiv, hsame] at hi
    omega
  · have hmul := Nat.mul_le_mul_left qLen hdiv
    rw [Nat.mul_add, Nat.mul_one] at hmul
    omega

theorem waiting_clear (q : ℕ → α) : (clear q).Waiting [] := by
  refine ⟨[], 0, ⟨Fifo.holds_nil, le_refl 0, rfl, rfl, rfl, ?_⟩, rfl⟩
  exact iff_of_true rfl rfl

theorem Waiting.isEmpty {waiting : List α} (h : m.Waiting waiting) :
    m.isEmpty = true ↔ waiting = [] := by
  obtain ⟨history, popped, hkeeps, rfl⟩ := h
  rw [hkeeps.isEmpty, hkeeps.counter, List.drop_eq_nil_iff]
  omega

theorem Waiting.push {waiting : List α} (h : m.Waiting waiting) (hroom : m.counter < qLen)
    (x : α) : (m.push x).Waiting (waiting ++ [x]) := by
  obtain ⟨history, popped, hkeeps, rfl⟩ := h
  obtain ⟨hheld, hle, hhead, htail, hcounter, -⟩ := hkeeps
  refine ⟨history ++ [x], popped, ⟨?_, ?_, hhead, ?_, ?_, ?_⟩, ?_⟩
  · have hstored := hheld.store apart (by omega) x
    rw [ManualQ.push, htail]
    exact hstored.push (Function.update_self _ _ _)
  · rw [List.length_append]
    omega
  · show (m.tail + 1) % qLen = _
    rw [htail, List.length_append, Nat.mod_add_mod]
    rfl
  · show m.counter + 1 = _
    rw [List.length_append, List.length_singleton]
    omega
  · exact iff_of_false nofun (Nat.succ_ne_zero _)
  · rw [List.drop_append_of_le_length hle]

theorem Waiting.pop {x : α} {waiting : List α} (h : m.Waiting (x :: waiting)) :
    m.front = x ∧ m.pop.Waiting waiting := by
  obtain ⟨history, popped, hkeeps, hdrop⟩ := h
  obtain ⟨hheld, hle, hhead, htail, hcounter, hempty⟩ := hkeeps
  have hget : history[popped]? = some x := by
    rw [← List.head?_drop, ← hdrop]
    rfl
  have hlt : popped < history.length := (List.getElem?_eq_some_iff.mp hget).1
  have hmore : m.counter ≠ 0 := by omega
  constructor
  · rw [ManualQ.front, hhead]
    exact hheld popped x (le_refl _) hget
  · refine ⟨history, popped + 1, ⟨?_, hlt, ?_, ?_, ?_, ?_⟩, ?_⟩
    · rw [ManualQ.pop, if_neg hmore]
      exact hheld.pop
    · rw [ManualQ.pop, if_neg hmore]
      show (m.head + 1) % qLen = _
      rw [hhead, Nat.mod_add_mod]
    · rw [ManualQ.pop, if_neg hmore]
      exact htail
    · rw [ManualQ.pop, if_neg hmore]
      show m.counter - 1 = _
      omega
    · rw [ManualQ.pop, if_neg hmore]
      show (if m.counter - 1 = 0 then true else m.isEmpty) = true ↔ m.counter - 1 = 0
      split_ifs with hlast
      · exact iff_of_true rfl hlast
      · refine iff_of_false (fun h => hmore (hempty.mp h)) hlast
    · rw [← List.tail_drop, ← hdrop]
      rfl

/-- `push` does not ask whether there is room: the oldest entry of a full queue is gone. -/
theorem Waiting.push_full {waiting : List α} (h : m.Waiting waiting)
    (hfull : waiting.length = qLen) (x : α) : (m.push x).front = x := by
  obtain ⟨history, popped, hkeeps, rfl⟩ := h
  rw [List.length_drop] at hfull
  have hle := hkeeps.popped_le
  have hsame : history.length = popped + qLen := by omega
  have hmeet : m.head = m.tail := by
    rw [hkeeps.head, hkeeps.tail, hsame, Nat.add_mod_right]
  rw [front, ManualQ.push, hmeet]
  exact Function.update_self _ _ _

end ManualQ

variable {P K : Type} [Arith K] [PointType P K]
variable (params : KdTreeParams K) (nth : NthElement P K)

/-! ## Replaying the log -/

/-- What several operations do to the points, in order. -/
def applyAll (ops : List (MapOp P K)) (m : Multiset P) : Multiset P :=
  ops.foldl (fun m op => op.apply m) m

/-- What the entries of the log do to the points, in order. -/
def replayAll (entries : List (LoggedOp P K)) (m : Multiset P) : Multiset P :=
  entries.foldl (fun m entry => entry.apply m) m

theorem applyAll_snoc (ops : List (MapOp P K)) (op : MapOp P K) (m : Multiset P) :
    applyAll (ops ++ [op]) m = op.apply (applyAll ops m) := by
  rw [applyAll, List.foldl_append]
  rfl

theorem replayAll_snoc (entries : List (LoggedOp P K)) (entry : LoggedOp P K) (m : Multiset P) :
    replayAll (entries ++ [entry]) m = entry.apply (replayAll entries m) := by
  rw [replayAll, List.foldl_append]
  rfl

/-- `run_operation` on a subtree that is there. -/
theorem run_operation_spec {entry : LoggedOp P K} (hproper : entry.Proper) {t : KdTree P K}
    (ht : t.Sound) (hthere : t.isNull = false) :
    ∃ t', entry.run params nth t = some t' ∧ t'.Sound ∧ t'.isNull = false ∧
      t'.held = entry.apply t.held := by
  cases t with
  | null => cases hthere
  | node n l r =>
    cases entry with
    | map op =>
      have hwhole : Whole false (node n l r) := ⟨ht, nofun⟩
      obtain ⟨hrun, hheld, hnull⟩ := run_spec params nth op false n.divisionAxis hwhole
      cases op <;> exact ⟨_, rfl, hrun.sound, hnull rfl, hheld⟩
    | pushDown treeDeleted treeDownsampleDeleted =>
      obtain rfl : treeDeleted = true := hproper
      have hdeleted : (n.pushFlags true treeDownsampleDeleted).treeDeleted = true := by
        simp [KdTreeNode.pushFlags, KdTreeNode.pushTo]
      have hpoint : (n.pushFlags true treeDownsampleDeleted).pointDeleted = true := by
        simp [KdTreeNode.pushFlags, KdTreeNode.pushTo]
      refine ⟨_, rfl, ⟨nodeSound_of_flagged hdeleted hpoint (.inl rfl) (.inl rfl), ht.2⟩, rfl, ?_⟩
      exact held_of_deleted hdeleted

/-! ## The mapping thread -/

namespace Mapper

/-- What the tree holds, or is to hold when the operation under way is over. -/
def Holds (strict : Bool) (mapper : Mapper P K) (t : KdTree P K) (m : Multiset P) : Prop :=
  match mapper with
  | idle => Whole strict t ∧ t.isNull = false ∧ t.held = m
  | rootLock op => Whole strict t ∧ t.isNull = false ∧ op.apply t.held = m
  | visiting op v => Doing strict op v t m

/-- The mapping thread does not touch the subtree in this place, or is at its lock. -/
def Clear (mapper : Mapper P K) (path : List Side) : Prop :=
  match mapper with
  | idle => True
  | rootLock _ => path = []
  | visiting _ v => v.Clear path

def Unlocked (mapper : Mapper P K) : Prop :=
  match mapper with
  | idle => True
  | rootLock _ => False
  | visiting _ v => v.lockAt = none

theorem Holds.there {strict : Bool} {mapper : Mapper P K} {t : KdTree P K} {m : Multiset P}
    (h : mapper.Holds strict t m) : t.isNull = false := by
  cases mapper with
  | idle => exact h.2.1
  | rootLock op => exact h.2.1
  | visiting op v => exact Doing.there h

/-- A subtree the mapping thread does not touch is as it should be. -/
theorem Holds.subtree {strict : Bool} {mapper : Mapper P K} {t : KdTree P K} {m : Multiset P}
    (h : mapper.Holds strict t m) {path : List Side} (hclear : mapper.Clear path) :
    Whole strict (t.subtree path) := by
  cases mapper with
  | idle => exact h.1.subtree path
  | rootLock op => exact h.1.subtree path
  | visiting op v => exact Doing.subtree h hclear.away

theorem Holds.pointsFlagged {strict : Bool} {mapper : Mapper P K} {t : KdTree P K}
    {m : Multiset P} (h : mapper.Holds strict t m) (path : List Side) : PointsFlagged path t := by
  cases mapper with
  | idle => exact h.1.sound.pointsFlagged path
  | rootLock op => exact h.1.sound.pointsFlagged path
  | visiting op v => exact Doing.pointsFlagged h

/-- A subtree the mapping thread does not touch may be replaced. -/
theorem Holds.replaced {exact : Bool} {mapper : Mapper P K} {t t' : KdTree P K} {m : Multiset P}
    (h : mapper.Holds true t m) {path : List Side} (hclear : mapper.Clear path)
    {new : KdTree P K} (hreplaced : Replaced new exact path t t')
    (hlarge : (t.subtree path).Large) (hnew : Replaces new (t.subtree path) exact) :
    mapper.Holds exact t' m := by
  cases mapper with
  | idle =>
    obtain ⟨hwhole, -, hheld⟩ := h
    obtain ⟨hwhole', hsame⟩ := hreplaced.whole hwhole hlarge hnew
    exact ⟨hwhole', hsame.there, hsame.held.trans hheld⟩
  | rootLock op =>
    obtain ⟨hwhole, -, hheld⟩ := h
    obtain ⟨hwhole', hsame⟩ := hreplaced.whole hwhole hlarge hnew
    refine ⟨hwhole', hsame.there, ?_⟩
    rw [hsame.held]
    exact hheld
  | visiting op v => exact hreplaced.doing h hclear.away hlarge hnew

end Mapper

theorem Tracked.large {rebuildFlag : Bool} {q q' : ManualQ (LoggedOp P K)} {t t' : KdTree P K}
    (h : Tracked rebuildFlag q t t' q') (ht : t.Large) : t'.Large := by
  cases h with
  | same => exact ht
  | logged _ _ _ hlarge => exact hlarge

theorem Tracked.logger_eq {rebuildFlag : Bool} {q q' : ManualQ (LoggedOp P K)} {t t' : KdTree P K}
    (h : Tracked rebuildFlag q t t' q') (hflag : rebuildFlag = false) : q' = q := by
  subst hflag
  cases h with
  | same => rfl
  | logged => rfl

/-- While the log is kept, replaying it keeps up with the subtree. -/
theorem Tracked.replay {rebuildFlag : Bool} {q q' : ManualQ (LoggedOp P K)} {t t' : KdTree P K}
    (h : Tracked rebuildFlag q t t' q') (hflag : rebuildFlag = true)
    {waiting : List (LoggedOp P K)} (hwaiting : q.Waiting waiting) (hroom : q.counter < qLen)
    (hproper : ∀ entry ∈ waiting, entry.Proper) {m : Multiset P}
    (hreplay : replayAll waiting m = t.held) :
    ∃ waiting', q'.Waiting waiting' ∧ (∀ entry ∈ waiting', entry.Proper) ∧
      replayAll waiting' m = t'.held := by
  subst hflag
  cases h with
  | same => exact ⟨waiting, hwaiting, hproper, hreplay⟩
  | logged entry hentry hheld _ =>
    refine ⟨waiting ++ [entry], hwaiting.push hroom entry, ?_, ?_⟩
    · intro entry' hmem
      rcases List.mem_append.mp hmem with hmem | hmem
      · exact hproper entry' hmem
      · rw [List.mem_singleton.mp hmem]
        exact hentry
    · rw [replayAll_snoc, hreplay, hheld]

/-- Before the swap. -/
def Phase.early : Phase P K → Bool
  | .swapped | .finished => false
  | _ => true

namespace ThreadState

variable {s : ThreadState P K}

/-- The operations that have been started have been done, but for what the mapping
thread has still to do of the last of them. -/
def Executes (points : List P) (ops : List (MapOp P K)) (s : ThreadState P K) : Prop :=
  ∃ started, ops = started ++ s.ops ∧
    s.mapper.Holds s.phase.early s.rootNode (applyAll started points)

omit [Arith K] [PointType P K] in
theorem visited_of_done {op : MapOp P K} {m : Moved P K} (h : m.visit = .done) :
    (s.visited op m).mapper = .idle := if_pos h

omit [Arith K] [PointType P K] in
theorem visited_of_ne {op : MapOp P K} {m : Moved P K} (h : m.visit ≠ .done) :
    (s.visited op m).mapper = .visiting op m.visit := if_neg h

omit [Arith K] [PointType P K] in
/-- `Rebuild` sets `Rebuild_Ptr` at most, and only while the other thread has no lock on
it. -/
theorem request_eq (s : ThreadState P K) (asks : Option (List Side)) :
    ∃ rebuildPtr, s.request asks = { s with rebuildPtr := rebuildPtr } ∧
      (rebuildPtr = s.rebuildPtr ∨
        ∃ path, asks = some path ∧ rebuildPtr = some path ∧ s.phase.unlocked = true) := by
  cases asks with
  | none => exact ⟨s.rebuildPtr, rfl, .inl rfl⟩
  | some path =>
    rw [request]
    split_ifs with hfree
    · rw [Bool.and_eq_true] at hfree
      exact ⟨some path, rfl, .inr ⟨path, rfl, rfl, hfree.1⟩⟩
    · exact ⟨s.rebuildPtr, rfl, .inl rfl⟩

theorem visited_holds {strict : Bool} {op : MapOp P K} {moved : Moved P K} {m : Multiset P}
    (h : Doing strict op moved.visit moved.tree m) :
    (s.visited op moved).mapper.Holds strict (s.visited op moved).rootNode m := by
  by_cases hdone : moved.visit = .done
  · rw [visited_of_done hdone]
    rw [hdone] at h
    exact ⟨h.of_done.1, h.there, h.of_done.2⟩
  · rw [visited_of_ne hdone]
    exact h

theorem step_mapping (h : s.fault = false) :
    s.step params nth .mapping = s.mapperStep params nth :=
  if_neg (by rw [h]; exact Bool.false_ne_true)

theorem step_rebuilding (h : s.fault = false) :
    s.step params nth .rebuilding = s.rebuildStep params nth :=
  if_neg (by rw [h]; exact Bool.false_ne_true)

theorem mapperStep_rootLock {op : MapOp P K} (h : s.mapper = .rootLock op) :
    s.mapperStep params nth =
      let locked := op.runLocked params nth s.rootNode.rootAxis (decide (s.rebuildPtr = some []))
        s.rootNode
      { s with
        rootNode := locked.1
        rebuildLogger := if s.rebuildFlag then s.rebuildLogger.push (.map op) else s.rebuildLogger
        rebuildPtr := if locked.2 then none else s.rebuildPtr
        mapper := .idle } := by
  rw [mapperStep, h]

theorem mapperStep_visiting {op : MapOp P K} {v : Visit} (h : s.mapper = .visiting op v) :
    s.mapperStep params nth =
      let m := op.move params nth s.rebuildFlag v s.rootNode s.rebuildPtr s.rebuildLogger
      (s.visited op m).request m.asks := by
  rw [mapperStep, h]

theorem mapperStep_nil (h : s.mapper = .idle) (hops : s.ops = []) :
    s.mapperStep params nth = s := by
  rw [mapperStep, h, hops]

/-- The next operation is started. -/
theorem mapperStep_cons (h : s.mapper = .idle) (hthere : s.rootNode.isNull = false)
    {op : MapOp P K} {ops : List (MapOp P K)} (hops : s.ops = op :: ops) :
    s.mapperStep params nth =
      { s with
        mapper := if s.rebuildPtr = some [] then .rootLock op else .visiting op .ready
        ops := ops } := by
  rw [mapperStep, h, hops]
  simp only [hthere, Bool.false_eq_true, if_false]
  split_ifs <;> rfl

theorem Executes.mapperStep {points : List P} {ops : List (MapOp P K)}
    (h : s.Executes points ops) (hfault : s.fault = false) :
    (s.mapperStep params nth).Executes points ops ∧ (s.mapperStep params nth).fault = false ∧
      (s.mapperStep params nth).phase = s.phase ∧
      (s.mapperStep params nth).rebuildFlag = s.rebuildFlag := by
  obtain ⟨started, rfl, hholds⟩ := h
  have hthere := hholds.there
  cases hmapper : s.mapper with
  | idle =>
    have hidle := hholds
    rw [hmapper] at hidle
    obtain ⟨hwhole, -, hheld⟩ := hidle
    cases hops : s.ops with
    | nil =>
      rw [mapperStep_nil params nth hmapper hops, ← hops]
      exact ⟨⟨started, rfl, hholds⟩, hfault, rfl, rfl⟩
    | cons op rest =>
      rw [mapperStep_cons params nth hmapper hthere hops]
      refine ⟨⟨started ++ [op], by simp, ?_⟩, hfault, rfl, rfl⟩
      have happlied : op.apply s.rootNode.held = applyAll (started ++ [op]) points := by
        rw [applyAll_snoc, hheld]
      show Mapper.Holds _ (if s.rebuildPtr = some [] then .rootLock op else .visiting op .ready) _ _
      split_ifs
      · exact ⟨hwhole, hthere, happlied⟩
      · show Doing _ op .ready s.rootNode _
        cases hroot : s.rootNode with
        | null =>
          rw [hroot] at hthere
          cases hthere
        | node n l r =>
          rw [hroot] at hwhole happlied
          exact ⟨hwhole, happlied⟩
  | rootLock op =>
    rw [hmapper] at hholds
    obtain ⟨hwhole, -, hheld⟩ := hholds
    obtain ⟨hrun, happlied, hnull⟩ := run_spec params nth op false s.rootNode.rootAxis hwhole
    rw [mapperStep_rootLock params nth hmapper]
    exact ⟨⟨started, rfl, hrun, hnull hthere, happlied.trans hheld⟩, hfault, rfl, rfl⟩
  | visiting op v =>
    rw [hmapper] at hholds
    have hmoved := move_doing params nth s.rebuildFlag hholds s.rebuildPtr s.rebuildLogger
    have hvisited := visited_holds (s := s) hmoved
    rw [mapperStep_visiting params nth hmapper]
    obtain ⟨rebuildPtr, hrequest, -⟩ := request_eq (s.visited op
      (op.move params nth s.rebuildFlag v s.rootNode s.rebuildPtr s.rebuildLogger))
      (op.move params nth s.rebuildFlag v s.rootNode s.rebuildPtr s.rebuildLogger).asks
    simp only [hrequest]
    exact ⟨⟨started, rfl, hvisited⟩, hfault, rfl, rfl⟩

/-! ### The subtree that is to be rebuilt -/

/-- `Rebuild_Ptr` points at a large subtree, which the mapping thread does not touch. -/
def Target (s : ThreadState P K) (path : List Side) : Prop :=
  s.rebuildPtr = some path ∧ (s.rootNode.subtree path).Large ∧ s.mapper.Clear path

omit [Arith K] [PointType P K] in
theorem visited_clear {op : MapOp P K} {m : Moved P K} {path : List Side}
    (h : m.visit = .done ∨ m.visit.Clear path) : (s.visited op m).mapper.Clear path := by
  by_cases hdone : m.visit = .done
  · rw [visited_of_done hdone]
    trivial
  · rw [visited_of_ne hdone]
    exact h.resolve_left hdone

omit [Arith K] [PointType P K] in
theorem visited_unlocked {op : MapOp P K} {m : Moved P K} (h : m.visit.lockAt = none) :
    (s.visited op m).mapper.Unlocked := by
  by_cases hdone : m.visit = .done
  · rw [visited_of_done hdone]
    trivial
  · rw [visited_of_ne hdone]
    exact h

/-- A subtree `Rebuild` was called for. -/
theorem target_of_asks {op : MapOp P K} {v : Visit} {path : List Side}
    (hasks : (op.move params nth s.rebuildFlag v s.rootNode s.rebuildPtr
      s.rebuildLogger).asks = some path) {s' : ThreadState P K}
    (hs' : s' =
      { s.visited op (op.move params nth s.rebuildFlag v s.rootNode s.rebuildPtr
          s.rebuildLogger) with
        rebuildPtr := some path }) : s'.Target path := by
  obtain ⟨hlarge, hlock, haway⟩ := move_asks params nth op s.rebuildFlag v s.rootNode s.rebuildPtr
    s.rebuildLogger hasks
  subst hs'
  exact ⟨rfl, hlarge, visited_clear (s := s) (haway.imp_right fun h => ⟨h, .inl hlock⟩)⟩

/-- A step of the mapping thread while `Rebuild_Ptr` is null. -/
theorem mapperStep_unlocked (hthere : s.rootNode.isNull = false) (hptr : s.rebuildPtr = none)
    (hunlocked : s.mapper.Unlocked) :
    (s.mapperStep params nth).rebuildLogger = s.rebuildLogger ∧
      (((s.mapperStep params nth).rebuildPtr = none ∧ (s.mapperStep params nth).mapper.Unlocked) ∨
        ∃ path, (s.mapperStep params nth).Target path) := by
  cases hmapper : s.mapper with
  | idle =>
    cases hops : s.ops with
    | nil =>
      rw [mapperStep_nil params nth hmapper hops]
      exact ⟨rfl, .inl ⟨hptr, hunlocked⟩⟩
    | cons op rest =>
      rw [mapperStep_cons params nth hmapper hthere hops]
      refine ⟨rfl, .inl ⟨hptr, ?_⟩⟩
      show Mapper.Unlocked (if s.rebuildPtr = some [] then .rootLock op else .visiting op .ready)
      rw [hptr, if_neg nofun]
      rfl
  | rootLock op =>
    rw [hmapper] at hunlocked
    exact hunlocked.elim
  | visiting op v =>
    rw [hmapper] at hunlocked
    obtain ⟨hlogger, hcleared, hlock⟩ :=
      move_unlocked params nth op s.rebuildFlag hunlocked s.rootNode hptr s.rebuildLogger
    rw [mapperStep_visiting params nth hmapper]
    obtain ⟨rebuildPtr, hrequest, hasks⟩ := request_eq (s.visited op
      (op.move params nth s.rebuildFlag v s.rootNode s.rebuildPtr s.rebuildLogger))
      (op.move params nth s.rebuildFlag v s.rootNode s.rebuildPtr s.rebuildLogger).asks
    simp only [hrequest]
    refine ⟨hlogger, ?_⟩
    rcases hasks with rfl | ⟨path, hpath, rfl, -⟩
    · refine .inl ⟨?_, visited_unlocked hlock⟩
      show (if _ then none else s.rebuildPtr) = none
      rw [hptr, ite_self]
    · exact .inr ⟨path, target_of_asks params nth hpath rfl⟩

/-- A step of the mapping thread while `Rebuild_Ptr` is set. -/
theorem mapperStep_target {m : Multiset P} {path : List Side}
    (hholds : s.mapper.Holds true s.rootNode m) (htarget : s.Target path) :
    Tracked s.rebuildFlag s.rebuildLogger (s.rootNode.subtree path)
        ((s.mapperStep params nth).rootNode.subtree path)
        (s.mapperStep params nth).rebuildLogger ∧
      ((s.mapperStep params nth).Target path ∨
        (s.phase.unlocked = true ∧ ∃ path', (s.mapperStep params nth).Target path')) := by
  have hthere := hholds.there
  obtain ⟨hptr, hlarge, hclear⟩ := htarget
  cases hmapper : s.mapper with
  | idle =>
    cases hops : s.ops with
    | nil =>
      rw [mapperStep_nil params nth hmapper hops]
      exact ⟨.same, .inl ⟨hptr, hlarge, hclear⟩⟩
    | cons op rest =>
      rw [mapperStep_cons params nth hmapper hthere hops]
      refine ⟨.same, .inl ⟨hptr, hlarge, ?_⟩⟩
      show Mapper.Clear (if s.rebuildPtr = some [] then .rootLock op else .visiting op .ready) _
      rw [hptr]
      cases path with
      | nil => exact if_pos rfl ▸ rfl
      | cons side path =>
        rw [if_neg (by simp)]
        exact ⟨trivial, .inl rfl⟩
  | rootLock op =>
    rw [hmapper] at hholds hclear
    obtain rfl : path = [] := hclear
    obtain ⟨hwhole, -, -⟩ := hholds
    have hrun := run_large params nth op s.rootNode.rootAxis hwhole hlarge
    obtain ⟨-, hheld, -⟩ := run_spec params nth op false s.rootNode.rootAxis hwhole
    have hnot : ¬ (op.run params nth false s.rootNode.rootAxis s.rootNode).treeSize <
        multiThreadRebuildPointNum := not_lt.mpr hrun
    rw [mapperStep_rootLock params nth hmapper]
    refine ⟨.logged (.map op) trivial hheld hrun, .inl ⟨?_, hrun, trivial⟩⟩
    show (if (_ && decide _) = true then none else s.rebuildPtr) = some []
    rw [decide_eq_false hnot, Bool.and_false, if_neg Bool.false_ne_true, hptr]
  | visiting op v =>
    rw [hmapper] at hholds hclear
    obtain ⟨hcleared, hclear', htracked⟩ :=
      move_target params nth s.rebuildFlag hholds hclear hlarge s.rebuildLogger
    rw [← hptr] at hcleared hclear' htracked
    rw [mapperStep_visiting params nth hmapper]
    obtain ⟨rebuildPtr, hrequest, hasks⟩ := request_eq (s.visited op
      (op.move params nth s.rebuildFlag v s.rootNode s.rebuildPtr s.rebuildLogger))
      (op.move params nth s.rebuildFlag v s.rootNode s.rebuildPtr s.rebuildLogger).asks
    simp only [hrequest]
    refine ⟨htracked, ?_⟩
    rcases hasks with rfl | ⟨path', hpath, rfl, hphase⟩
    · refine .inl ⟨?_, htracked.large hlarge, visited_clear (.inr hclear')⟩
      show (if _ then none else s.rebuildPtr) = some path
      rw [hcleared, if_neg Bool.false_ne_true, hptr]
    · exact .inr ⟨hphase, path', target_of_asks params nth hpath rfl⟩

/-! ### From the copy to the swap -/

/-- Nothing has been copied yet. -/
def Quiet (s : ThreadState P K) : Prop :=
  s.rebuildFlag = false ∧ s.rebuildLogger.Waiting [] ∧
    ((s.rebuildPtr = none ∧ s.mapper.Unlocked) ∨ ∃ path, s.Target path)

/-- What waits in the log makes of these points what the old subtree holds. -/
def CatchingUp (s : ThreadState P K) (m : Multiset P) : Prop :=
  s.rebuildFlag = true ∧ ∃ path waiting, s.Target path ∧ s.rebuildLogger.Waiting waiting ∧
    (∀ entry ∈ waiting, entry.Proper) ∧
    replayAll waiting m = (s.rootNode.subtree path).held

/-- What the rebuild thread relies on. -/
def Prepared (s : ThreadState P K) : Prop :=
  match s.phase with
  | .free => s.Quiet
  | .locked => s.Quiet
  | .copied points => points ≠ [] ∧ s.CatchingUp points
  | .replaying new => new.Sound ∧ new.isNull = false ∧ s.CatchingUp new.held
  | .swapped => True
  | .finished => True

/-- What a step must not do: copy a subtree that is deleted as a whole, take the flag
of a deleted node off, or log more than the queue has room for. -/
def Safe (s : ThreadState P K) : Thread → Prop
  | .mapping =>
    s.rebuildFlag = true → s.rebuildPtr ≠ none → s.rebuildLogger.counter < qLen
  | .rebuilding =>
    match s.phase with
    | .locked =>
      ∀ path, s.rebuildPtr = some path → (s.rootNode.subtree path).treeDeleted = false
    | .replaying new =>
      s.rebuildLogger.isEmpty = true →
        ∀ path, s.rebuildPtr = some path → SwapSafe new false path s.rootNode
    | _ => True

theorem Quiet.mapperStep (h : s.Quiet) {m : Multiset P}
    (hholds : s.mapper.Holds true s.rootNode m)
    (hflag : (s.mapperStep params nth).rebuildFlag = s.rebuildFlag) :
    (s.mapperStep params nth).Quiet := by
  obtain ⟨hdown, hwaiting, hptr⟩ := h
  rcases hptr with ⟨hnone, hunlocked⟩ | ⟨path, htarget⟩
  · obtain ⟨hlogger, hnext⟩ := mapperStep_unlocked params nth hholds.there hnone hunlocked
    refine ⟨hflag.trans hdown, ?_, hnext⟩
    rw [hlogger]
    exact hwaiting
  · obtain ⟨htracked, hnext⟩ := mapperStep_target params nth hholds htarget
    refine ⟨hflag.trans hdown, ?_, .inr ?_⟩
    · rw [htracked.logger_eq hdown]
      exact hwaiting
    · rcases hnext with hsame | ⟨-, path', hother⟩
      · exact ⟨path, hsame⟩
      · exact ⟨path', hother⟩

theorem CatchingUp.mapperStep {new m : Multiset P} (h : s.CatchingUp new)
    (hholds : s.mapper.Holds true s.rootNode m) (hphase : s.phase.unlocked = false)
    (hsafe : s.Safe .mapping)
    (hflag : (s.mapperStep params nth).rebuildFlag = s.rebuildFlag) :
    (s.mapperStep params nth).CatchingUp new := by
  obtain ⟨hup, path, waiting, htarget, hwaiting, hproper, hreplay⟩ := h
  obtain ⟨htracked, hnext⟩ := mapperStep_target params nth hholds htarget
  have htarget' := hnext.resolve_right fun hfree => by
    rw [hphase] at hfree
    cases hfree.1
  have hroom : s.rebuildLogger.counter < qLen := by
    apply hsafe hup
    rw [htarget.1]
    exact nofun
  obtain ⟨waiting', hwaiting', hproper', hreplay'⟩ :=
    htracked.replay hup hwaiting hroom hproper hreplay
  exact ⟨hflag.trans hup, path, waiting', htarget', hwaiting', hproper', hreplay'⟩

/-- All that holds in a run. -/
structure Sane (points : List P) (ops : List (MapOp P K)) (s : ThreadState P K) : Prop where
  fault : s.fault = false
  executes : s.Executes points ops
  prepared : s.Prepared

theorem Sane.mapperStep {points : List P} {ops : List (MapOp P K)} (h : s.Sane points ops)
    (hsafe : s.Safe .mapping) : (s.mapperStep params nth).Sane points ops := by
  obtain ⟨hexecutes, hfault, hphase, hflag⟩ := h.executes.mapperStep params nth h.fault
  refine ⟨hfault, hexecutes, ?_⟩
  have hprepared := h.prepared
  obtain ⟨started, -, hholds⟩ := h.executes
  rw [Prepared] at hprepared ⊢
  rw [hphase]
  cases hcase : s.phase with
  | free =>
    rw [hcase] at hprepared hholds
    exact Quiet.mapperStep params nth hprepared hholds hflag
  | locked =>
    rw [hcase] at hprepared hholds
    exact Quiet.mapperStep params nth hprepared hholds hflag
  | copied copy =>
    rw [hcase] at hprepared hholds
    have hunlocked : s.phase.unlocked = false := by
      rw [hcase]
      rfl
    exact ⟨hprepared.1, hprepared.2.mapperStep params nth hholds hunlocked hsafe hflag⟩
  | replaying new =>
    rw [hcase] at hprepared hholds
    have hunlocked : s.phase.unlocked = false := by
      rw [hcase]
      rfl
    exact ⟨hprepared.1, hprepared.2.1,
      hprepared.2.2.mapperStep params nth hholds hunlocked hsafe hflag⟩
  | swapped => trivial
  | finished => trivial

/-! ### The rebuild thread -/

omit [Arith K] [PointType P K] in
theorem subtree_putIn {new : KdTree P K} {path : List Side} {t : KdTree P K}
    (hthere : (t.subtree path).isNull = false) : (putIn new path t).subtree path = new := by
  induction path generalizing t with
  | nil => rfl
  | cons side path ih =>
    cases t with
    | null => cases hthere
    | node n l r =>
      rw [putIn, subtree_graft_self]
      exact ih hthere

/-- The copy. -/
theorem Sane.copy {points : List P} {ops : List (MapOp P K)} (h : s.Sane points ops)
    (hphase : s.phase = .locked) {path : List Side} (hptr : s.rebuildPtr = some path)
    (hsafe : (s.rootNode.subtree path).treeDeleted = false) :
    ThreadState.Sane points ops
      { s with
        rootNode := putIn (s.rootNode.subtree path).flatten.2 path s.rootNode
        rebuildFlag := true
        phase := .copied (s.rootNode.subtree path).flatten.1 } := by
  obtain ⟨hfault, ⟨started, hops, hholds⟩, hprepared⟩ := h
  rw [Prepared, hphase] at hprepared
  obtain ⟨-, hwaiting, hcases⟩ := hprepared
  obtain ⟨path', htarget⟩ : ∃ path', s.Target path' :=
    hcases.resolve_left fun hnone => by rw [hptr] at hnone; cases hnone.1
  obtain rfl : path' = path := Option.some.inj (htarget.1.symm.trans hptr)
  obtain ⟨-, hlarge, hclear⟩ := htarget
  rw [hphase] at hholds
  have hwhole := hholds.subtree hclear
  have hreplaces := flatten_replaces hwhole hlarge.isNull
  have hpoints := (flatten_spec hwhole.sound).1
  have hsubtree : (putIn (s.rootNode.subtree path').flatten.2 path' s.rootNode).subtree path' =
      (s.rootNode.subtree path').flatten.2 := subtree_putIn hlarge.isNull
  have hlarge' : (s.rootNode.subtree path').flatten.2.Large := by
    rw [KdTree.Large, (hreplaces.same rfl).size]
    exact hlarge
  refine ⟨hfault, ⟨started, hops, ?_⟩, ?_, rfl, path', [], ⟨hptr, ?_, hclear⟩, hwaiting,
    List.forall_mem_nil _, ?_⟩
  · exact hholds.replaced hclear (putIn_replaced hlarge.isNull) hlarge hreplaces
  · rw [hpoints]
    exact live_ne_nil hwhole.sound hsafe
  · show ((putIn _ path' s.rootNode).subtree path').Large
    rw [hsubtree]
    exact hlarge'
  · show ((s.rootNode.subtree path').flatten.1 : Multiset P) =
      ((putIn _ path' s.rootNode).subtree path').held
    rw [hsubtree, hreplaces.held, hpoints]
    rfl

/-- The new subtree. -/
theorem Sane.build {points : List P} {ops : List (MapOp P K)} (h : s.Sane points ops)
    {p : P} {ps : List P} (hphase : s.phase = .copied (p :: ps)) :
    ThreadState.Sane points ops { s with phase := .replaying (buildTree nth (p :: ps)) } := by
  obtain ⟨hfault, ⟨started, hops, hholds⟩, hprepared⟩ := h
  rw [Prepared, hphase] at hprepared
  rw [hphase] at hholds
  obtain ⟨hne, hcatching⟩ := hprepared
  obtain ⟨hsound, hperm, hnull⟩ := buildTree_spec nth (p :: ps)
  have hheld : (buildTree nth (p :: ps)).held = ((p :: ps : List P) : Multiset P) :=
    Multiset.coe_eq_coe.mpr hperm
  refine ⟨hfault, ⟨started, hops, hholds⟩, hsound, ?_, ?_⟩
  · by_contra hnone
    exact hne (hnull (Bool.eq_true_of_not_eq_false hnone))
  · rw [hheld]
    exact hcatching

/-- One operation of the log. -/
theorem Sane.replay {points : List P} {ops : List (MapOp P K)} (h : s.Sane points ops)
    {new : KdTree P K} (hphase : s.phase = .replaying new)
    (hmore : s.rebuildLogger.isEmpty = false) :
    ∃ new', s.rebuildLogger.front.run params nth new = some new' ∧
      ThreadState.Sane points ops
        { s with
          rebuildLogger := s.rebuildLogger.pop
          phase := .replaying new' } := by
  obtain ⟨hfault, ⟨started, hops, hholds⟩, hprepared⟩ := h
  rw [Prepared, hphase] at hprepared
  rw [hphase] at hholds
  obtain ⟨hsound, hthere, hup, path, waiting, htarget, hwaiting, hproper, hreplay⟩ := hprepared
  cases waiting with
  | nil =>
    rw [hwaiting.isEmpty.mpr rfl] at hmore
    cases hmore
  | cons entry waiting =>
    obtain ⟨hfront, hpop⟩ := hwaiting.pop
    obtain ⟨new', hrun, hsound', hthere', hheld⟩ :=
      run_operation_spec params nth (hproper entry List.mem_cons_self) hsound hthere
    rw [hfront]
    refine ⟨new', hrun, hfault, ⟨started, hops, hholds⟩, hsound', hthere', hup, path, waiting,
      htarget, hpop, fun entry' hmem => hproper entry' (List.mem_cons_of_mem _ hmem), ?_⟩
    rw [hheld]
    exact hreplay

/-- The swap. -/
theorem Sane.swap {points : List P} {ops : List (MapOp P K)} (h : s.Sane points ops)
    {new : KdTree P K} (hphase : s.phase = .replaying new)
    (hempty : s.rebuildLogger.isEmpty = true) :
    ∃ path, s.rebuildPtr = some path ∧ (SwapSafe new false path s.rootNode →
      ThreadState.Sane points ops
        { s with
          rootNode := swapIn new false path s.rootNode
          rebuildPtr := none
          phase := .swapped }) := by
  obtain ⟨hfault, ⟨started, hops, hholds⟩, hprepared⟩ := h
  rw [Prepared, hphase] at hprepared
  obtain ⟨hsound, hthere, -, path, waiting, htarget, hwaiting, -, hreplay⟩ := hprepared
  obtain ⟨hptr, hlarge, hclear⟩ := htarget
  refine ⟨path, hptr, fun hsafe => ⟨hfault, ⟨started, hops, ?_⟩, trivial⟩⟩
  rw [hphase] at hholds
  have hheld : new.held = (s.rootNode.subtree path).held := by
    rw [hwaiting.isEmpty.mp hempty] at hreplay
    exact hreplay
  exact hholds.replaced hclear
    (swapIn_replaced (hholds.pointsFlagged path) hlarge.isNull hsafe) hlarge
    ⟨hsound, hheld, hthere, nofun⟩

theorem Sane.rebuildStep {points : List P} {ops : List (MapOp P K)} (h : s.Sane points ops)
    (hsafe : s.Safe .rebuilding) : (s.rebuildStep params nth).Sane points ops := by
  have hprepared := h.prepared
  rw [Prepared] at hprepared
  rw [Safe] at hsafe
  obtain ⟨started, hops, hholds⟩ := h.executes
  cases hphase : s.phase with
  | free =>
    have hstep : s.rebuildStep params nth = { s with phase := .locked } := by
      rw [ThreadState.rebuildStep, hphase]
    rw [hphase] at hprepared hholds
    rw [hstep]
    exact ⟨h.fault, ⟨started, hops, hholds⟩, hprepared⟩
  | locked =>
    rw [hphase] at hprepared hholds hsafe
    cases hptr : s.rebuildPtr with
    | none =>
      have hstep : s.rebuildStep params nth = { s with phase := .free } := by
        rw [ThreadState.rebuildStep, hphase, hptr]
      rw [hstep]
      exact ⟨h.fault, ⟨started, hops, hholds⟩, hprepared⟩
    | some path =>
      have hcopied := h.copy hphase hptr (hsafe path hptr)
      rw [ThreadState.rebuildStep, hphase, hptr]
      rw [hptr] at hcopied
      exact hcopied
  | copied copy =>
    cases copy with
    | nil =>
      rw [hphase] at hprepared
      exact absurd rfl hprepared.1
    | cons p ps =>
      have hstep : s.rebuildStep params nth =
          { s with phase := .replaying (buildTree nth (p :: ps)) } := by
        rw [ThreadState.rebuildStep, hphase]
      rw [hstep]
      exact h.build nth hphase
  | replaying new =>
    cases hempty : s.rebuildLogger.isEmpty with
    | true =>
      obtain ⟨path, hptr, hswapped⟩ := h.swap hphase hempty
      have hstep : s.rebuildStep params nth =
          { s with
            rootNode := swapIn new false path s.rootNode
            rebuildPtr := none
            phase := .swapped } := by
        simp only [ThreadState.rebuildStep, hphase, hempty, hptr, if_true]
      rw [hphase] at hsafe
      rw [hstep]
      exact hswapped (hsafe hempty path hptr)
    | false =>
      obtain ⟨new', hrun, hreplayed⟩ := h.replay params nth hphase hempty
      have hstep : s.rebuildStep params nth =
          { s with rebuildLogger := s.rebuildLogger.pop, phase := .replaying new' } := by
        simp only [ThreadState.rebuildStep, hphase, hempty, hrun, Bool.false_eq_true, if_false]
      rw [hstep]
      exact hreplayed
  | swapped =>
    have hstep : s.rebuildStep params nth =
        { s with rebuildFlag := false, phase := .finished } := by
      rw [ThreadState.rebuildStep, hphase]
    rw [hphase] at hholds
    rw [hstep]
    exact ⟨h.fault, ⟨started, hops, hholds⟩, trivial⟩
  | finished =>
    have hstep : s.rebuildStep params nth = s := by
      rw [ThreadState.rebuildStep, hphase]
    rw [hstep]
    exact h

theorem Sane.step {points : List P} {ops : List (MapOp P K)} (h : s.Sane points ops)
    {thread : Thread} (hsafe : s.Safe thread) : (s.step params nth thread).Sane points ops := by
  cases thread with
  | mapping =>
    rw [step_mapping params nth h.fault]
    exact h.mapperStep params nth hsafe
  | rebuilding =>
    rw [step_rebuilding params nth h.fault]
    exact h.rebuildStep params nth hsafe

theorem sane_start {points : List P} (hne : points ≠ []) (ops : List (MapOp P K))
    (q : ℕ → LoggedOp P K) : (start (buildTree nth points) ops q).Sane points ops := by
  obtain ⟨hsound, hperm, hnull⟩ := buildTree_spec nth points
  have hthere : (buildTree nth points).isNull = false := by
    by_contra hnone
    exact hne (hnull (Bool.eq_true_of_not_eq_false hnone))
  refine ⟨rfl, ⟨[], rfl, ⟨hsound, fun _ => buildTree_counted nth points⟩, hthere, ?_⟩, ?_⟩
  · exact Multiset.coe_eq_coe.mpr hperm
  · exact ⟨rfl, ManualQ.waiting_clear q, .inl ⟨rfl, trivial⟩⟩

end ThreadState

/-! ## Whole runs -/

theorem withoutRebuild_spec (points : List P) (ops : List (MapOp P K)) :
    (withoutRebuild params nth points ops).Sound ∧
      (withoutRebuild params nth points ops).held = applyAll ops points := by
  induction ops using List.reverseRecOn with
  | nil =>
    obtain ⟨hsound, hperm, -⟩ := buildTree_spec nth points
    exact ⟨hsound, Multiset.coe_eq_coe.mpr hperm⟩
  | append_singleton ops op ih =>
    obtain ⟨hsound, hheld⟩ := ih
    have hwhole : Whole false (withoutRebuild params nth points ops) := ⟨hsound, nofun⟩
    obtain ⟨hrun, happlied, -⟩ := run_spec params nth op false
      (withoutRebuild params nth points ops).rootAxis hwhole
    have hnext : withoutRebuild params nth points (ops ++ [op]) =
        op.run params nth false (withoutRebuild params nth points ops).rootAxis
          (withoutRebuild params nth points ops) := by
      rw [withoutRebuild, List.foldl_append]
      rfl
    rw [hnext, applyAll_snoc, ← hheld]
    exact ⟨hrun.sound, happlied⟩

/-- No null pointer has been read, and between two operations the tree holds what the
operations so far make of the points with no rebuild. -/
def LosesNothing (points : List P) (ops : List (MapOp P K)) (s : ThreadState P K) : Prop :=
  s.fault = false ∧ (s.mapper = .idle → ∃ executed, ops = executed ++ s.ops ∧
    s.rootNode.flatten.1.Perm (withoutRebuild params nth points executed).flatten.1)

theorem ThreadState.Sane.losesNothing {points : List P} {ops : List (MapOp P K)}
    {s : ThreadState P K} (h : s.Sane points ops) : LosesNothing params nth points ops s := by
  obtain ⟨hfault, ⟨started, hops, hholds⟩, -⟩ := h
  refine ⟨hfault, fun hidle => ⟨started, hops, ?_⟩⟩
  rw [hidle] at hholds
  obtain ⟨hwhole, -, hheld⟩ := hholds
  obtain ⟨hsound, hheld'⟩ := withoutRebuild_spec params nth points started
  rw [(flatten_spec hwhole.sound).1, (flatten_spec hsound).1, ← Multiset.coe_eq_coe]
  exact hheld.trans hheld'.symm

end IkdTree
end RobotNav
