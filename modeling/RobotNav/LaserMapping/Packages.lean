/-
What `sync_packages` does with the IMU messages.

While the stored stamps increase, `imu_buffer` is never cleared: the packages cut
the arrival sequence into consecutive pieces, and the end times of the scans are
where it is cut.  The end times are partly estimated and may go backwards; a
package whose end lies before an earlier one is empty.
-/
import RobotNav.LaserMapping.Buffers
import Mathlib.Data.List.Induction

namespace RobotNav
namespace LaserMapping

/-! ## The messages and packages of a run -/

section Histories

variable {K : Type}

def Output.storedMsg : Output K → Option (ImuMsg K)
  | .stored msg => some msg
  | _ => none

def Output.delivered : Output K → Option (MeasureGroup K)
  | .package meas => some meas
  | _ => none

/-- The IMU messages in their order of arrival, with the stamps they are stored
with. -/
def arrivals (os : List (Output K)) : List (ImuMsg K) := os.filterMap Output.storedMsg

/-- The packages of the successful calls of `sync_packages`, in order. -/
def packages (os : List (Output K)) : List (MeasureGroup K) := os.filterMap Output.delivered

theorem arrivals_snoc (os : List (Output K)) (o : Output K) :
    arrivals (os ++ [o]) = arrivals os ++ o.storedMsg.toList := by
  cases o <;> simp [arrivals, Output.storedMsg]

theorem packages_snoc (os : List (Output K)) (o : Output K) :
    packages (os ++ [o]) = packages os ++ o.delivered.toList := by
  cases o <;> simp [packages, Output.delivered]

end Histories

variable {K : Type} [Arith K] {μ : Type} {cfg : Config K μ}

def StampsIncrease (l : List (ImuMsg K)) : Prop := l.Pairwise fun a b => a.sec < b.sec

theorem StampsIncrease.le {l : List (ImuMsg K)} (h : StampsIncrease l) :
    l.Pairwise fun a b => a.sec ≤ b.sec :=
  h.imp fun hlt => le_of_lt hlt

/-! ## The drain loop -/

theorem drainImu_append (endTime : K) :
    ∀ (imuTime : K) (buf : List (ImuMsg K)),
      (drainImu endTime imuTime buf).1 ++ (drainImu endTime imuTime buf).2 = buf := by
  intro imuTime buf
  induction buf generalizing imuTime with
  | nil => rfl
  | cons m rest ih =>
    by_cases hgo : imuTime < endTime
    · by_cases hbreak : endTime < m.sec
      · simp only [drainImu, hgo, hbreak, if_true, List.nil_append]
      · simp only [drainImu, hgo, hbreak, if_true, if_false, List.cons_append]
        rw [ih m.sec]
    · simp only [drainImu, hgo, if_false, List.nil_append]

theorem drainImu_taken_le (endTime : K) :
    ∀ (imuTime : K) (buf : List (ImuMsg K)),
      ∀ m ∈ (drainImu endTime imuTime buf).1, m.sec ≤ endTime := by
  intro imuTime buf
  induction buf generalizing imuTime with
  | nil => intro m hm; exact absurd hm List.not_mem_nil
  | cons a rest ih =>
    intro m hm
    by_cases hgo : imuTime < endTime
    · by_cases hbreak : endTime < a.sec
      · simp only [drainImu, hgo, hbreak, if_true] at hm
        exact absurd hm List.not_mem_nil
      · simp only [drainImu, hgo, hbreak, if_true, if_false, List.mem_cons] at hm
        rcases hm with rfl | hm
        · exact not_lt.mp hbreak
        · exact ih a.sec m hm
    · simp only [drainImu, hgo, if_false] at hm
      exact absurd hm List.not_mem_nil

/-- What the loop leaves is not older than the end time.  The stamp it tests is
that of the message before, so it must not be newer than the buffer. -/
theorem drainImu_left_ge (endTime : K) :
    ∀ (imuTime : K) (buf : List (ImuMsg K)),
      (buf.Pairwise fun a b => a.sec ≤ b.sec) → (∀ m ∈ buf, imuTime ≤ m.sec) →
      ∀ m ∈ (drainImu endTime imuTime buf).2, endTime ≤ m.sec := by
  intro imuTime buf
  induction buf generalizing imuTime with
  | nil => intro _ _ m hm; exact absurd hm List.not_mem_nil
  | cons a rest ih =>
    intro hsorted htime m hm
    have ha : ∀ b ∈ rest, a.sec ≤ b.sec := (List.pairwise_cons.mp hsorted).1
    by_cases hgo : imuTime < endTime
    · by_cases hbreak : endTime < a.sec
      · simp only [drainImu, hgo, hbreak, if_true, List.mem_cons] at hm
        rcases hm with rfl | hm
        · exact le_of_lt hbreak
        · exact le_trans (le_of_lt hbreak) (ha m hm)
      · simp only [drainImu, hgo, hbreak, if_true, if_false] at hm
        exact ih a.sec (List.pairwise_cons.mp hsorted).2 ha m hm
    · simp only [drainImu, hgo, if_false] at hm
      exact le_trans (not_lt.mp hgo) (htime m hm)

/-! ## The package of one call -/

/-- `time_buffer` is never the shorter one, so its front is there whenever a scan
is, and the end time in `meas` is the one the IMU is drained up to. -/
structure EndLatched (s : State K) : Prop where
  length : s.lidarBuffer.length ≤ s.timeBuffer.length
  endTime : s.lidarPushed = true → s.measures.lidarEndTime = s.lidarEndTime

theorem pushScan_endLatched {s : State K} (h : s.lidarBuffer.length ≤ s.timeBuffer.length)
    (hne : s.lidarBuffer ≠ []) :
    s.pushScan.lidarPushed = true ∧
      s.pushScan.measures.lidarEndTime = s.pushScan.lidarEndTime := by
  obtain ⟨scan, scans, hl⟩ := List.exists_cons_of_ne_nil hne
  have htime : s.timeBuffer ≠ [] := by
    intro hnil
    rw [hl, hnil] at h
    exact absurd h (by simp)
  obtain ⟨begTime, times, ht⟩ := List.exists_cons_of_ne_nil htime
  constructor
  · simp only [State.pushScan, hl, ht]
  · simp only [State.pushScan, hl, ht]

theorem latched_endTime {s : State K} (h : EndLatched s) (hne : s.lidarBuffer ≠ []) :
    s.latched.lidarPushed = true ∧ s.latched.measures.lidarEndTime = s.latched.lidarEndTime := by
  by_cases hp : s.lidarPushed = true
  · rw [State.latched, if_pos hp]
    exact ⟨hp, h.endTime hp⟩
  · rw [State.latched, if_neg hp]
    exact pushScan_endLatched h.length hne

theorem popPackage_fields {s : State K} {front : ImuMsg K} {rest : List (ImuMsg K)}
    (h : s.imuBuffer = front :: rest) :
    s.popPackage.lidarPushed = false ∧ s.popPackage.lidarBuffer = s.lidarBuffer.tail ∧
      s.popPackage.timeBuffer = s.timeBuffer.tail ∧
      s.popPackage.measures.imu = (drainImu s.lidarEndTime front.sec s.imuBuffer).1 ∧
      s.popPackage.imuBuffer = (drainImu s.lidarEndTime front.sec s.imuBuffer).2 := by
  refine ⟨?_, ?_, ?_, ?_, ?_⟩ <;> simp only [State.popPackage, h]

omit [Arith K] in
theorem lidarCallback_endLatched {s s' : State K} (h : EndLatched s) {kept : List (Scan K)}
    {scan : Scan K} {curTime : K} (hkept : kept = [] ∨ kept = s.lidarBuffer)
    (hlidar : s'.lidarBuffer = kept ++ [scan]) (htime : s'.timeBuffer = s.timeBuffer ++ [curTime])
    (hpushed : s'.lidarPushed = s.lidarPushed) (hmeas : s'.measures = s.measures)
    (hend : s'.lidarEndTime = s.lidarEndTime) : EndLatched s' := by
  constructor
  · have hlen := h.length
    rw [hlidar, htime, List.length_append, List.length_append]
    rcases hkept with rfl | rfl
    · simp
    · simp only [List.length_singleton]
      omega
  · intro hp
    rw [hmeas, hend]
    exact h.endTime (hpushed ▸ hp)

theorem ite_nil_or {p : Prop} [Decidable p] {α : Type} (l : List α) :
    (if p then [] else l) = [] ∨ (if p then [] else l) = l := by
  by_cases hp : p
  · exact .inl (if_pos hp)
  · exact .inr (if_neg hp)

theorem next_endLatched {s : State K} (h : EndLatched s) (e : Event K μ) :
    EndLatched ((buffers cfg).next s e) := by
  cases e with
  | standardPcl msg => exact lidarCallback_endLatched h (ite_nil_or _) rfl rfl rfl rfl rfl
  | livoxPcl msg => exact lidarCallback_endLatched h (ite_nil_or _) rfl rfl rfl rfl rfl
  | imu msg => exact ⟨h.length, h.endTime⟩
  | sync =>
    rw [buffers_next_sync]
    rcases syncPackages_cases s with hs | ⟨hs, hne⟩ | ⟨hs, hne, himu, -⟩
    · rw [hs]
      exact h
    · rw [hs]
      refine ⟨?_, fun _ => (latched_endTime h hne).2⟩
      rw [latched_lidarBuffer, latched_timeBuffer]
      exact h.length
    · rw [hs]
      obtain ⟨front, rest, hfront⟩ := List.exists_cons_of_ne_nil himu
      obtain ⟨hp, hl, ht, -, -⟩ :=
        popPackage_fields (s := s.latched) (by rw [latched_imuBuffer, hfront])
      constructor
      · have hlen := h.length
        show (State.popPackage _).lidarBuffer.length ≤ (State.popPackage _).timeBuffer.length
        rw [hl, ht, latched_lidarBuffer, latched_timeBuffer, List.length_tail, List.length_tail]
        omega
      · intro hpushed
        rw [hp] at hpushed
        cases hpushed

/-! ## The packages tile the arrival sequence -/

/-- What the history of outputs and the state have in common. -/
structure Tiled (os : List (Output K)) (s : State K) : Prop where
  concat : (packages os).flatMap MeasureGroup.imu ++ s.imuBuffer = arrivals os
  newest : ∀ m, (arrivals os).getLast? = some m → s.lastTimestampImu = m.sec
  /-- A package is delivered only when some message has reached its end time. -/
  reached : ∀ p ∈ packages os, ∃ m ∈ arrivals os, p.lidarEndTime ≤ m.sec
  waiting : ∀ p ∈ packages os, ∀ m ∈ s.imuBuffer, p.lidarEndTime ≤ m.sec
  upper : ∀ p ∈ packages os, ∀ m ∈ p.imu, m.sec ≤ p.lidarEndTime
  lower : (packages os).Pairwise fun p q => ∀ m ∈ q.imu, p.lidarEndTime ≤ m.sec

/-- A step that stores no message, delivers no package and leaves the IMU side
as it is. -/
theorem Tiled.quiet {os : List (Output K)} {s s' : State K} (h : Tiled os s)
    (himu : s'.imuBuffer = s.imuBuffer) (hlast : s'.lastTimestampImu = s.lastTimestampImu) :
    Tiled (os ++ [.quiet]) s' := by
  have ha : arrivals (os ++ [.quiet]) = arrivals os := by simp [arrivals_snoc, Output.storedMsg]
  have hp : packages (os ++ [.quiet]) = packages os := by simp [packages_snoc, Output.delivered]
  constructor
  · rw [hp, ha, himu]
    exact h.concat
  · rw [ha, hlast]
    exact h.newest
  · rw [hp, ha]
    exact h.reached
  · rw [hp, himu]
    exact h.waiting
  · rw [hp]
    exact h.upper
  · rw [hp]
    exact h.lower

/-- `imu_cbk` keeps the buffer when the new stamp is the largest so far. -/
theorem imuCbk_imuBuffer {os : List (Output K)} {s : State K} (h : Tiled os s)
    {msg : ImuMsg K} (hinc : StampsIncrease (arrivals os ++ [s.imuMsg cfg msg])) :
    (imuCbk cfg s msg).imuBuffer = s.imuBuffer ++ [s.imuMsg cfg msg] := by
  by_cases hnil : arrivals os = []
  · have hbuf : s.imuBuffer = [] := by
      have hconcat := h.concat
      rw [hnil] at hconcat
      exact (List.append_eq_nil_iff.mp hconcat).2
    simp only [imuCbk, hbuf, ite_self]
  · obtain ⟨last, hlast⟩ : ∃ last, (arrivals os).getLast? = some last :=
      ⟨_, List.getLast?_eq_some_getLast hnil⟩
    have hmem : last ∈ arrivals os := List.mem_of_getLast? hlast
    have hlt : last.sec < (s.imuMsg cfg msg).sec :=
      (List.pairwise_append.mp hinc).2.2 last hmem _ (List.mem_singleton_self _)
    have hkeep : ¬ (s.imuMsg cfg msg).sec < s.lastTimestampImu := by
      rw [h.newest last hlast]
      exact not_lt.mpr (le_of_lt hlt)
    simp only [imuCbk, hkeep, if_false]

theorem Tiled.store {os : List (Output K)} {s : State K} (h : Tiled os s) {msg : ImuMsg K}
    (hinc : StampsIncrease (arrivals os ++ [s.imuMsg cfg msg])) :
    Tiled (os ++ [.stored (s.imuMsg cfg msg)]) (imuCbk cfg s msg) := by
  have ha : arrivals (os ++ [.stored (s.imuMsg cfg msg)]) = arrivals os ++ [s.imuMsg cfg msg] := by
    simp [arrivals_snoc, Output.storedMsg]
  have hp : packages (os ++ [.stored (s.imuMsg cfg msg)]) = packages os := by
    simp [packages_snoc, Output.delivered]
  have hbuf := imuCbk_imuBuffer h hinc
  constructor
  · rw [hp, ha, hbuf, ← List.append_assoc, h.concat]
  · intro m hm
    rw [ha, List.getLast?_concat] at hm
    rw [← Option.some.inj hm]
    rfl
  · intro p hmem
    rw [hp] at hmem
    obtain ⟨m, hm, hle⟩ := h.reached p hmem
    rw [ha]
    exact ⟨m, List.mem_append_left _ hm, hle⟩
  · intro p hmem m hm
    rw [hp] at hmem
    rw [hbuf] at hm
    rcases List.mem_append.mp hm with hold | hnew
    · exact h.waiting p hmem m hold
    · rw [List.mem_singleton.mp hnew]
      obtain ⟨m₀, hm₀, hle⟩ := h.reached p hmem
      have hlt : m₀.sec < (s.imuMsg cfg msg).sec :=
        (List.pairwise_append.mp hinc).2.2 m₀ hm₀ _ (List.mem_singleton_self _)
      exact le_trans hle (le_of_lt hlt)
  · rw [hp]
    exact h.upper
  · rw [hp]
    exact h.lower

/-- The buffer is the end of the arrival sequence, so its stamps increase too. -/
theorem Tiled.sorted {os : List (Output K)} {s : State K} (h : Tiled os s)
    (hinc : StampsIncrease (arrivals os)) :
    s.imuBuffer.Pairwise fun a b => a.sec ≤ b.sec := by
  have hle := hinc.le
  rw [← h.concat] at hle
  exact (List.pairwise_append.mp hle).2.1

/-- What `sync_packages` leaves in the buffer is not older than the end of the
scan. -/
theorem Tiled.left_ge {os : List (Output K)} {s : State K} (h : Tiled os s)
    (hinc : StampsIncrease (arrivals os)) {front : ImuMsg K} {rest : List (ImuMsg K)}
    (hfront : s.imuBuffer = front :: rest) :
    ∀ m ∈ (drainImu s.lidarEndTime front.sec s.imuBuffer).2, s.lidarEndTime ≤ m.sec := by
  have hsorted := h.sorted hinc
  have hfrontle : ∀ m ∈ s.imuBuffer, front.sec ≤ m.sec := by
    rw [hfront] at hsorted ⊢
    intro m hm
    rcases List.mem_cons.mp hm with rfl | hm
    · exact le_refl _
    · exact (List.pairwise_cons.mp hsorted).1 m hm
  exact drainImu_left_ge _ _ _ hsorted hfrontle

/-- A successful call cuts a further piece off the buffer. -/
theorem Tiled.deliver {os : List (Output K)} {s : State K} (h : Tiled os s)
    (hinc : StampsIncrease (arrivals os)) (himu : s.imuBuffer ≠ [])
    (hready : s.lidarEndTime ≤ s.lastTimestampImu)
    (hend : s.measures.lidarEndTime = s.lidarEndTime) :
    Tiled (os ++ [.package s.popPackage.measures]) s.popPackage := by
  obtain ⟨front, rest, hfront⟩ := List.exists_cons_of_ne_nil himu
  obtain ⟨-, -, -, htaken, hleft⟩ := popPackage_fields hfront
  have happ := drainImu_append s.lidarEndTime front.sec s.imuBuffer
  rw [← htaken, ← hleft] at happ
  have ha : arrivals (os ++ [.package s.popPackage.measures]) = arrivals os := by
    simp [arrivals_snoc, Output.storedMsg]
  have hp : packages (os ++ [.package s.popPackage.measures]) =
      packages os ++ [s.popPackage.measures] := by
    simp [packages_snoc, Output.delivered]
  have hendTime : s.popPackage.measures.lidarEndTime = s.lidarEndTime := by
    rw [popPackage_measures_lidarEndTime, hend]
  have hbufsub : ∀ m ∈ s.popPackage.measures.imu ++ s.popPackage.imuBuffer, m ∈ s.imuBuffer := by
    rw [happ]
    exact fun m hm => hm
  have hleftge : ∀ m ∈ s.popPackage.imuBuffer, s.lidarEndTime ≤ m.sec := by
    rw [hleft]
    exact h.left_ge hinc hfront
  constructor
  · rw [hp, ha, List.flatMap_append, List.flatMap_singleton, List.append_assoc, happ]
    exact h.concat
  · rw [ha, popPackage_lastTimestampImu]
    exact h.newest
  · intro p hmem
    rw [ha]
    rw [hp] at hmem
    rcases List.mem_append.mp hmem with hold | hnew
    · exact h.reached p hold
    · rw [List.mem_singleton.mp hnew, hendTime]
      have hne : arrivals os ≠ [] := by
        rw [← h.concat, hfront]
        simp
      have hlast := List.getLast?_eq_some_getLast hne
      refine ⟨_, List.mem_of_getLast? hlast, ?_⟩
      rw [← h.newest _ hlast]
      exact hready
  · intro p hmem m hm
    rw [hp] at hmem
    rcases List.mem_append.mp hmem with hold | hnew
    · exact h.waiting p hold m (hbufsub m (List.mem_append_right _ hm))
    · rw [List.mem_singleton.mp hnew, hendTime]
      exact hleftge m hm
  · intro p hmem m hm
    rw [hp] at hmem
    rcases List.mem_append.mp hmem with hold | hnew
    · exact h.upper p hold m hm
    · rw [List.mem_singleton.mp hnew] at hm ⊢
      rw [htaken] at hm
      rw [hendTime]
      exact drainImu_taken_le _ _ _ m hm
  · rw [hp, List.pairwise_append]
    refine ⟨h.lower, List.pairwise_singleton _ _, ?_⟩
    intro p hmem q hq m hm
    rw [List.mem_singleton.mp hq] at hm
    exact h.waiting p hmem m (hbufsub m (List.mem_append_left _ hm))

theorem next_tiled {os : List (Output K)} {s : State K} (h : Tiled os s) (hlat : EndLatched s)
    (e : Event K μ)
    (hinc : StampsIncrease (arrivals (os ++ [(buffers cfg).out s e]))) :
    Tiled (os ++ [(buffers cfg).out s e]) ((buffers cfg).next s e) := by
  cases e with
  | standardPcl msg => exact h.quiet rfl rfl
  | livoxPcl msg => exact h.quiet rfl rfl
  | imu msg =>
    have ha : arrivals (os ++ [(buffers cfg).out s (.imu msg)]) =
        arrivals os ++ [s.imuMsg cfg msg] := by
      rw [arrivals_snoc]
      rfl
    rw [ha] at hinc
    exact h.store hinc
  | sync =>
    have ha : arrivals (os ++ [(buffers cfg).out s .sync]) = arrivals os := by
      rw [arrivals_snoc, buffers_out_sync]
      cases (syncPackages s).2 <;> simp [Output.storedMsg]
    rw [ha] at hinc
    rw [buffers_next_sync, buffers_out_sync]
    rcases syncPackages_cases s with hs | ⟨hs, -⟩ | ⟨hs, hne, himu, hready⟩
    · rw [hs]
      exact h.quiet rfl rfl
    · rw [hs]
      exact h.quiet (latched_imuBuffer s) (latched_lastTimestampImu s)
    · rw [hs]
      have hlatched : Tiled os s.latched := by
        refine ⟨?_, ?_, h.reached, ?_, h.upper, h.lower⟩
        · rw [latched_imuBuffer]
          exact h.concat
        · rw [latched_lastTimestampImu]
          exact h.newest
        · rw [latched_imuBuffer]
          exact h.waiting
      exact hlatched.deliver hinc (by rwa [latched_imuBuffer])
        (by rwa [latched_lastTimestampImu]) (latched_endTime hlat hne).2

/-! ## Runs -/

theorem init_endLatched : EndLatched (State.init : State K) :=
  ⟨Nat.le_refl 0, fun h => absurd h Bool.false_ne_true⟩

theorem init_tiled : Tiled [] (State.init : State K) where
  concat := rfl
  newest := fun _ h => absurd h (by simp [arrivals])
  reached := fun _ h => absurd h List.not_mem_nil
  waiting := fun _ h => absurd h List.not_mem_nil
  upper := fun _ h => absurd h List.not_mem_nil
  lower := List.Pairwise.nil

theorem run_tiled (cfg : Config K μ) (es : List (Event K μ))
    (hinc : StampsIncrease (arrivals ((buffers cfg).outs State.init es))) :
    Tiled ((buffers cfg).outs State.init es) ((buffers cfg).run State.init es) := by
  induction es using List.reverseRecOn with
  | nil => exact init_tiled
  | append_singleton es e ih =>
    rw [Machine.outs_snoc] at hinc ⊢
    rw [Machine.run_snoc]
    have hpre : StampsIncrease (arrivals ((buffers cfg).outs State.init es)) := by
      rw [arrivals_snoc] at hinc
      exact (List.pairwise_append.mp hinc).1
    have hlat : EndLatched ((buffers cfg).run State.init es) :=
      Machine.run_invariant (I := EndLatched) (fun s e hs => next_endLatched hs e)
        init_endLatched es
    exact next_tiled (ih hpre) hlat e hinc

/-- A message older than the end time of package `k` is in no later package
and no longer in the buffer. -/
theorem Tiled.mem_package {os : List (Output K)} {s : State K} (h : Tiled os s) {k : ℕ}
    {p : MeasureGroup K} (hk : (packages os)[k]? = some p) {m : ImuMsg K}
    (hm : m ∈ arrivals os) (hlt : m.sec < p.lidarEndTime) :
    ∃ (j : ℕ) (q : MeasureGroup K), j ≤ k ∧ (packages os)[j]? = some q ∧ m ∈ q.imu := by
  have hp : p ∈ packages os := List.mem_of_getElem? hk
  rw [← h.concat] at hm
  rcases List.mem_append.mp hm with hpackage | hbuffer
  · obtain ⟨q, hq, hmq⟩ := List.mem_flatMap.mp hpackage
    obtain ⟨j, hj⟩ := List.mem_iff_getElem?.mp hq
    refine ⟨j, q, ?_, hj, hmq⟩
    by_contra hlate
    obtain ⟨hkl, hkp⟩ := List.getElem?_eq_some_iff.mp hk
    obtain ⟨hjl, hjq⟩ := List.getElem?_eq_some_iff.mp hj
    have hle := List.pairwise_iff_getElem.mp h.lower k j hkl hjl (by omega) m
      (by rw [hjq]; exact hmq)
    rw [hkp] at hle
    exact absurd hlt (not_lt.mpr hle)
  · exact absurd hlt (not_lt.mpr (h.waiting p hp m hbuffer))

/-- What the packages of a run owe to the arrival sequence: followed by the
buffer they are that sequence, each lies between the earlier end times and its
own, and none misses a message older than its end time. -/
structure TilesArrivals (os : List (Output K)) (left : List (ImuMsg K)) : Prop where
  concat : (packages os).flatMap MeasureGroup.imu ++ left = arrivals os
  window : ∀ (k : ℕ) (p : MeasureGroup K), (packages os)[k]? = some p → ∀ m ∈ p.imu,
    (∀ (j : ℕ) (q : MeasureGroup K), j < k → (packages os)[j]? = some q →
      q.lidarEndTime ≤ m.sec) ∧ m.sec ≤ p.lidarEndTime
  complete : ∀ (k : ℕ) (p : MeasureGroup K), (packages os)[k]? = some p →
    ∀ m ∈ arrivals os, m.sec < p.lidarEndTime →
      ∃ (j : ℕ) (q : MeasureGroup K), j ≤ k ∧ (packages os)[j]? = some q ∧ m ∈ q.imu

/-- Every run of the callbacks and of `sync_packages` in which the stored IMU
stamps increase. -/
theorem packages_tile_arrivals (cfg : Config K μ) (es : List (Event K μ))
    (hinc : StampsIncrease (arrivals ((buffers cfg).outs State.init es))) :
    TilesArrivals ((buffers cfg).outs State.init es)
      ((buffers cfg).run State.init es).imuBuffer := by
  have h := run_tiled cfg es hinc
  refine ⟨h.concat, ?_, ?_⟩
  · intro k p hk m hm
    refine ⟨?_, h.upper p (List.mem_of_getElem? hk) m hm⟩
    intro j q hjk hj
    obtain ⟨hkl, hkp⟩ := List.getElem?_eq_some_iff.mp hk
    obtain ⟨hjl, hjq⟩ := List.getElem?_eq_some_iff.mp hj
    have hle := List.pairwise_iff_getElem.mp h.lower j k hjl hkl hjk m (by rw [hkp]; exact hm)
    rwa [hjq] at hle
  · intro k p hk m hm hlt
    exact h.mem_package hk hm hlt

/-- IMU messages at 0.1 s, 0.2 s and 0.3 s around a scan that ends at 0.2 s. -/
def sampleEvents : List (Event ℚ (List (Point ℚ))) :=
  [.imu ⟨⟨0, 100000000⟩, ⟨0, 0, 0⟩, ⟨0, 0, 1⟩⟩,
    .standardPcl ⟨⟨0, 100000000⟩, [⟨1, 0, 0, 0⟩, ⟨2, 0, 0, 100⟩]⟩,
    .imu ⟨⟨0, 200000000⟩, ⟨0, 0, 0⟩, ⟨0, 0, 1⟩⟩,
    .sync,
    .imu ⟨⟨0, 300000000⟩, ⟨0, 0, 0⟩, ⟨0, 0, 1⟩⟩]

theorem sampleEvents_tile_arrivals :
    TilesArrivals ((buffers plainConfig).outs State.init sampleEvents)
      ((buffers plainConfig).run State.init sampleEvents).imuBuffer :=
  packages_tile_arrivals plainConfig sampleEvents (by unfold StampsIncrease; decide +kernel)

/-! ## Header stamps and stored stamps -/

/-- In exact arithmetic the conversion keeps whole nanoseconds. -/
theorem getRosTime_nanoseconds (t : ℚ) : (getRosTime t).nanoseconds = ⌊t * 1000000000⌋ := by
  have hfrac : 0 ≤ t - (⌊t⌋ : ℚ) := by
    have hfloor := Int.floor_le t
    linarith
  have hnonneg : 0 ≤ (t - (⌊t⌋ : ℚ)) * 1000000000 := by positivity
  have hsplit : (t - (⌊t⌋ : ℚ)) * 1000000000 = t * 1000000000 - ((⌊t⌋ * 1000000000 : ℤ) : ℚ) := by
    push_cast
    ring
  have htrunc : Arith.trunc ((t - (⌊t⌋ : ℚ)) * 1000000000) =
      ⌊t * 1000000000⌋ - ⌊t⌋ * 1000000000 := by
    show (if 0 ≤ (t - (⌊t⌋ : ℚ)) * 1000000000 then ⌊(t - (⌊t⌋ : ℚ)) * 1000000000⌋ else _) = _
    rw [if_pos hnonneg, hsplit, Int.floor_sub_intCast]
  have hroundtrip : ∀ ns : ℤ, (Stamp.ofNanoseconds ns).nanoseconds = ns := by
    intro ns
    simp only [Stamp.ofNanoseconds, Stamp.nanoseconds]
    omega
  show (Stamp.ofNanoseconds (⌊t⌋ * 1000000000 +
    Arith.trunc ((t - (⌊t⌋ : ℚ)) * (1000000000 : ℤ)))).nanoseconds = _
  rw [hroundtrip]
  push_cast
  rw [htrunc]
  omega

/-- Taking off a constant offset keeps the order of stamps. -/
theorem getTimeSec_getRosTime_lt (d : ℚ) {a b : Stamp} (h : a.nanoseconds < b.nanoseconds) :
    (getTimeSec (getRosTime ((getTimeSec a : ℚ) - d)) : ℚ) <
      getTimeSec (getRosTime ((getTimeSec b : ℚ) - d)) := by
  have hsec : ∀ t : Stamp, (getTimeSec t : ℚ) = (t.nanoseconds : ℚ) / 1000000000 := fun t => by
    show (t.nanoseconds : ℚ) / ((1000000000 : ℤ) : ℚ) = _
    norm_num
  have hshift : ((getTimeSec b : ℚ) - d) * 1000000000 =
      ((getTimeSec a : ℚ) - d) * 1000000000 + ((b.nanoseconds - a.nanoseconds : ℤ) : ℚ) := by
    rw [hsec, hsec]
    push_cast
    ring
  have hfloor : ⌊((getTimeSec a : ℚ) - d) * 1000000000⌋ <
      ⌊((getTimeSec b : ℚ) - d) * 1000000000⌋ := by
    rw [hshift, Int.floor_add_intCast]
    omega
  rw [hsec (getRosTime _), hsec (getRosTime _), getRosTime_nanoseconds, getRosTime_nanoseconds]
  have hcast : (⌊((getTimeSec a : ℚ) - d) * 1000000000⌋ : ℚ) <
      (⌊((getTimeSec b : ℚ) - d) * 1000000000⌋ : ℚ) := Int.cast_lt.mpr hfloor
  linarith

/-- The stamp of an IMU message as the driver gave it. -/
def Event.imuHeader : Event K μ → Option Stamp
  | .imu msg => some msg.stamp
  | _ => none

/-- Without self-synchronisation the stored stamp is a function of the header
stamp alone. -/
theorem arrivals_stamps (hsync : cfg.timeSyncEn = false) (s : State K) (es : List (Event K μ)) :
    (arrivals ((buffers cfg).outs s es)).map ImuMsg.stamp =
      (es.filterMap Event.imuHeader).map
        fun t => getRosTime ((getTimeSec t : K) - cfg.timeDiffLidarToImu) := by
  induction es generalizing s with
  | nil => rfl
  | cons e rest ih =>
    have hrest := ih ((buffers cfg).next s e)
    unfold arrivals at hrest
    simp only [Machine.outs_cons, arrivals]
    cases e with
    | standardPcl msg => exact hrest
    | livoxPcl msg => exact hrest
    | imu msg =>
      have hstamp : (s.imuMsg cfg msg).stamp =
          getRosTime ((getTimeSec msg.stamp : K) - cfg.timeDiffLidarToImu) := by
        simp [State.imuMsg, State.imuStamp, hsync]
      have hout : ((buffers cfg).out s (.imu msg)).storedMsg = some (s.imuMsg cfg msg) := rfl
      have hheader : Event.imuHeader (.imu msg : Event K μ) = some msg.stamp := rfl
      rw [List.filterMap_cons_some hout, List.filterMap_cons_some hheader, List.map_cons,
        List.map_cons, hrest, hstamp]
    | sync =>
      have hout : ((buffers cfg).out s .sync).storedMsg = none := by
        rw [buffers_out_sync]
        cases (syncPackages s).2 <;> rfl
      rw [List.filterMap_cons_none hout]
      exact hrest

/-- In exact arithmetic and without self-synchronisation the stored stamps
increase as soon as the header stamps do. -/
theorem stampsIncrease_of_headers (cfg : Config ℚ μ) (hsync : cfg.timeSyncEn = false)
    (es : List (Event ℚ μ))
    (hraw : (es.filterMap Event.imuHeader).Pairwise fun a b => a.nanoseconds < b.nanoseconds) :
    StampsIncrease (arrivals ((buffers cfg).outs State.init es)) := by
  have hstored : ((arrivals ((buffers cfg).outs State.init es)).map ImuMsg.stamp).Pairwise
      fun a b => (getTimeSec a : ℚ) < getTimeSec b := by
    rw [arrivals_stamps hsync, List.pairwise_map]
    exact hraw.imp fun hlt => getTimeSec_getRosTime_lt cfg.timeDiffLidarToImu hlt
  rw [List.pairwise_map] at hstored
  exact hstored

end LaserMapping
end RobotNav
