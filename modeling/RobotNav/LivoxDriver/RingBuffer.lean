/-
The ring buffer of frames between the decoder and the publisher.

`rd_idx` and `wr_idx` run freely modulo 2^32 and are masked at each access.  A
step is one access of one of the two threads: the test of `QueueIsFull`, the
filling of a slot, the increment of `wr_idx`, and on the other side the test of
`QueueIsEmpty`, the copy out of a slot and the increment of `rd_idx`.  Any
interleaving of the two threads is a list of such steps.
-/
import Mathlib.Order.Bounds.Basic
import RobotNav.Library.Fifo
import RobotNav.LivoxDriver.Driver

namespace RobotNav
namespace LivoxDriver

variable {K : Type}

/-! ## The parts of a push and of a pop -/

namespace LidarDataQueue

variable (q : LidarDataQueue K)

def queueUsedSize : UInt32 := q.wrIdx - q.rdIdx

def slotAt (idx : UInt32) : UInt32 := idx &&& q.mask

/-- `QueuePushAny` up to its increment. -/
def storePacket (packet : StoragePacket K) : LidarDataQueue K :=
  { q with
    storagePacket := q.storagePacket.map fun slots =>
      Function.update slots (q.slotAt q.wrIdx) packet }

/-- The increment that ends `QueuePushAny`. -/
def pushUpdate : LidarDataQueue K := { q with wrIdx := q.wrIdx + 1 }

def queuePrePop : Option (StoragePacket K) :=
  if q.queueIsEmpty then none
  else q.storagePacket.map fun slots => slots (q.slotAt q.rdIdx)

def queuePopUpdate : LidarDataQueue K := { q with rdIdx := q.rdIdx + 1 }

theorem queuePushAny_eq (packet : StoragePacket K) (hset : q.storagePacket ≠ none) :
    q.queuePushAny packet = (q.storePacket packet).pushUpdate := by
  cases hslots : q.storagePacket with
  | none => exact absurd hslots hset
  | some slots => simp [queuePushAny, storePacket, pushUpdate, slotAt, hslots]

theorem queuePop_eq :
    q.queuePop = q.queuePrePop.map fun pkg => (pkg, q.queuePopUpdate) := by
  cases hslots : q.storagePacket with
  | none => simp [queuePop, queuePrePop, hslots]
  | some slots =>
    cases hempty : q.queueIsEmpty with
    | true => simp [queuePop, queuePrePop, hslots, hempty]
    | false => simp [queuePop, queuePrePop, queuePopUpdate, slotAt, hslots, hempty]

end LidarDataQueue

/-! ## The two threads -/

/-- Where a thread stands in `PushLidarData`. -/
inductive Pushing (K : Type) where
  | idle
  | storing (packet : StoragePacket K)
  | stored (packet : StoragePacket K)

/-- Where a thread stands in a round of `PublishCustomPointcloud`. -/
inductive Popping (K : Type) where
  | idle
  | popping
  | copied (pkg : StoragePacket K)

structure SharedQueue (K : Type) where
  queue : LidarDataQueue K
  producer : Pushing K
  consumer : Popping K
  /-- The packets whose push has ended, in order. -/
  accepted : List (StoragePacket K)
  /-- The packets whose pop has ended, in order. -/
  popped : List (StoragePacket K)

inductive Access (K : Type) where
  /-- The producer, when idle, enters `PushLidarData` and tests the queue. -/
  | pushLidarData (packet : StoragePacket K)
  | producer
  | consumer

namespace SharedQueue

variable (s : SharedQueue K)

def pushLidarData (packet : StoragePacket K) : SharedQueue K :=
  match s.producer with
  | .idle => if s.queue.queueIsFull then s else { s with producer := .storing packet }
  | _ => s

def produce : SharedQueue K :=
  match s.producer with
  | .idle => s
  | .storing packet =>
    { s with queue := s.queue.storePacket packet, producer := .stored packet }
  | .stored packet =>
    { s with queue := s.queue.pushUpdate, producer := .idle, accepted := s.accepted ++ [packet] }

/-- The queue is tested again in `QueuePrePop`. -/
def consume : SharedQueue K :=
  match s.consumer with
  | .idle => if s.queue.queueIsEmpty then s else { s with consumer := .popping }
  | .popping =>
    match s.queue.queuePrePop with
    | none => { s with consumer := .idle }
    | some pkg => { s with consumer := .copied pkg }
  | .copied pkg =>
    { s with queue := s.queue.queuePopUpdate, consumer := .idle, popped := s.popped ++ [pkg] }

/-- The slot a step fills. -/
def writes : Access K → Option UInt32
  | .producer =>
    match s.producer with
    | .storing _ => some (s.queue.slotAt s.queue.wrIdx)
    | _ => none
  | _ => none

/-- The slots of the packets pushed and not yet popped. -/
def occupied (j : UInt32) : Prop :=
  ∃ d < s.queue.queueUsedSize, s.queue.slotAt (s.queue.rdIdx + d) = j

end SharedQueue

/-- The queue after `InitQueue`, and its two threads. -/
def sharedQueue (queueSize : UInt32) : Machine (SharedQueue K) (Access K) Unit where
  init := ⟨initQueue queueSize, .idle, .idle, [], []⟩
  step s
    | .pushLidarData packet => (s.pushLidarData packet, ())
    | .producer => (s.produce, ())
    | .consumer => (s.consume, ())

/-! ## Calls that run alone -/

/-- A call of `PushLidarData` that nothing interrupts. -/
theorem run_push (queueSize : UInt32) (s : SharedQueue K) (packet : StoragePacket K)
    (hidle : s.producer = .idle) (hset : s.queue.storagePacket ≠ none) :
    ((sharedQueue queueSize).run s [.pushLidarData packet, .producer, .producer]).queue =
      if s.queue.queueIsFull then s.queue else s.queue.queuePushAny packet := by
  cases hfull : s.queue.queueIsFull with
  | true =>
    simp [sharedQueue, Machine.next, SharedQueue.pushLidarData, SharedQueue.produce, hidle, hfull]
  | false =>
    rw [s.queue.queuePushAny_eq packet hset]
    simp [sharedQueue, Machine.next, SharedQueue.pushLidarData, SharedQueue.produce, hidle, hfull]

/-- The step of the whole driver is such a call, after `InitQueue` where the queue is
not there yet. -/
theorem pushLidarData_data [Arith K] (lds : LdsLidar K) (packet : PointPacket K)
    (queueSize : UInt32) :
    let data := (lds.lidars packet.handle).data
    let queue := match data.storagePacket with
      | none => initQueue (LdsLidar.calculatePacketQueueSize lds.publishFreq)
      | some _ => data
    ((lds.pushLidarData packet).lidars packet.handle).data =
      ((sharedQueue queueSize).run ⟨queue, .idle, .idle, [], []⟩
        [.pushLidarData ⟨packet.baseTime, packet.points⟩, .producer, .producer]).queue := by
  intro data queue
  have hset : queue.storagePacket ≠ none := by
    cases hslots : data.storagePacket with
    | none => simp [queue, hslots, initQueue]
    | some slots => simp [queue, hslots]
  rw [run_push queueSize _ _ rfl hset]
  cases hslots : data.storagePacket with
  | none =>
    have hqueue : queue = initQueue (LdsLidar.calculatePacketQueueSize lds.publishFreq) := by
      simp only [queue, hslots]
    rw [hqueue]
    simp [LdsLidar.pushLidarData, data, hslots]
  | some slots =>
    have hqueue : queue = data := by simp only [queue, hslots]
    rw [hqueue]
    simp [LdsLidar.pushLidarData, data, hslots]

/-- A round of the publisher that nothing interrupts. -/
theorem run_pop (queueSize : UInt32) (s : SharedQueue K) (hidle : s.consumer = .idle)
    {pkg : StoragePacket K} {queue : LidarDataQueue K}
    (hpop : s.queue.queuePop = some (pkg, queue)) :
    ((sharedQueue queueSize).run s [.consumer, .consumer, .consumer]).queue = queue ∧
    ((sharedQueue queueSize).run s [.consumer, .consumer, .consumer]).popped =
      s.popped ++ [pkg] := by
  rw [s.queue.queuePop_eq, Option.map_eq_some_iff] at hpop
  obtain ⟨pkg', hcopy, heq⟩ := hpop
  cases heq
  have hempty : s.queue.queueIsEmpty = false := by
    cases hempty : s.queue.queueIsEmpty with
    | false => rfl
    | true => simp [LidarDataQueue.queuePrePop, hempty] at hcopy
  simp [sharedQueue, Machine.next, SharedQueue.consume, hidle, hempty, hcopy]

/-! ## The capacity -/

theorem toNat_shiftLeft {i : ℕ} (hi : i < 32) :
    ((1 : UInt32) <<< UInt32.ofNat i).toNat = 2 ^ i := by
  have hmod : i % 2 ^ 32 % 32 = i := by omega
  have hpow : 2 ^ i < 2 ^ 32 := Nat.pow_lt_pow_right (by omega) hi
  rw [UInt32.toNat_shiftLeft, UInt32.toNat_ofNat', hmod, UInt32.toNat_one, Nat.one_shiftLeft,
    Nat.mod_eq_of_lt hpow]

/-- The least power of two a size fits in. -/
def LeastPower (size : ℕ) (k : ℕ) : Prop := size ≤ 2 ^ k ∧ ∀ j, size ≤ 2 ^ j → k ≤ j

theorem isPowerOf2_spec {size : UInt32} (h : isPowerOf2 size = true) :
    ∃ k, k < 32 ∧ size.toNat = 2 ^ k := by
  simp only [isPowerOf2, bne_iff_ne, ne_eq, beq_iff_eq, Bool.and_eq_true] at h
  have hne : size.toNat ≠ 0 := fun h0 => h.1 (UInt32.toNat_inj.mp h0)
  have hone : (1 : UInt32) ≤ size := by
    have hpos : 1 ≤ size.toNat := Nat.pos_of_ne_zero hne
    exact hpos
  have hand : size.toNat &&& (size.toNat - 1) = 0 := by
    have hsub := UInt32.toNat_sub_of_le size 1 hone
    have htoNat := congrArg UInt32.toNat h.2
    rw [UInt32.toNat_and, hsub] at htoNat
    exact htoNat
  obtain ⟨k, hk⟩ := (Nat.and_sub_one_eq_zero_iff_isPowerOfTwo hne).mp hand
  refine ⟨k, ?_, hk⟩
  have hlt : 2 ^ k < 2 ^ 32 := hk ▸ size.toNat_lt
  exact (Nat.pow_lt_pow_iff_right (by omega)).mp hlt

theorem roundupPowerOf2_spec {size : UInt32} (hle : size.toNat ≤ 2 ^ 31) :
    ∃ k, k < 32 ∧ (roundupPowerOf2 size).toNat = 2 ^ k ∧ LeastPower size.toNat k := by
  have hfits : ∀ i, i < 32 →
      ((size ≤ (1 : UInt32) <<< UInt32.ofNat i) ↔ size.toNat ≤ 2 ^ i) := by
    intro i hi
    rw [UInt32.le_iff_toNat_le, toNat_shiftLeft hi]
  cases hfound : ((List.range 32).map fun i => (1 : UInt32) <<< UInt32.ofNat i).find?
      fun power => decide (size ≤ power) with
  | none =>
    -- the last power tried is large enough
    have hlast := List.find?_eq_none.mp hfound ((1 : UInt32) <<< UInt32.ofNat 31)
      (List.mem_map_of_mem (List.mem_range.mpr (by omega)))
    exact absurd (decide_eq_true ((hfits 31 (by omega)).mpr hle)) hlast
  | some power =>
    have hindex := hfound
    rw [List.find?_map, Option.map_eq_some_iff] at hindex
    obtain ⟨k, hk, rfl⟩ := hindex
    rw [List.find?_range_eq_some] at hk
    obtain ⟨hfit, hmem, hbefore⟩ := hk
    have hk : k < 32 := List.mem_range.mp hmem
    refine ⟨k, hk, ?_, (hfits k hk).mp (of_decide_eq_true hfit), fun j hj => ?_⟩
    · rw [roundupPowerOf2, hfound]
      exact toNat_shiftLeft hk
    · by_contra hlt
      have hsmall : decide (size ≤ (1 : UInt32) <<< UInt32.ofNat j) = true :=
        decide_eq_true ((hfits j (by omega)).mpr hj)
      have hearlier := hbefore j (by omega)
      rw [Function.comp_apply, hsmall] at hearlier
      cases hearlier

/-- The capacity `InitQueue` gives. -/
theorem initQueue_spec {queueSize : UInt32} (hle : queueSize.toNat ≤ 2 ^ 31) :
    ∃ k, k < 32 ∧ (initQueue queueSize : LidarDataQueue K).size.toNat = 2 ^ k ∧
      (initQueue queueSize : LidarDataQueue K).mask.toNat = 2 ^ k - 1 ∧
      LeastPower queueSize.toNat k := by
  have hmask : ∀ size : UInt32, ∀ k, size.toNat = 2 ^ k → (size - 1).toNat = 2 ^ k - 1 := by
    intro size k hk
    have hpos : 0 < 2 ^ k := Nat.two_pow_pos k
    have hone : (1 : UInt32) ≤ size := by
      rw [UInt32.le_iff_toNat_le, hk]
      exact hpos
    rw [UInt32.toNat_sub_of_le size 1 hone, hk]
    rfl
  cases hpow : isPowerOf2 queueSize with
  | true =>
    obtain ⟨k, hk, hsize⟩ := isPowerOf2_spec hpow
    refine ⟨k, hk, ?_, ?_, Nat.le_of_eq hsize, fun j hj => ?_⟩
    · simpa [initQueue, hpow] using hsize
    · simpa [initQueue, hpow] using hmask queueSize k hsize
    · rw [hsize] at hj
      exact (Nat.pow_le_pow_iff_right (by omega)).mp hj
  | false =>
    obtain ⟨k, hk, hsize, hleast⟩ := roundupPowerOf2_spec hle
    refine ⟨k, hk, ?_, ?_, hleast⟩
    · simpa [initQueue, hpow] using hsize
    · simpa [initQueue, hpow] using hmask _ k hsize

/-! ## Indices modulo 2^32 -/

theorem toNat_used {r w : ℕ} (hle : r ≤ w) (hlt : w < r + 2 ^ 32) :
    (UInt32.ofNat w - UInt32.ofNat r).toNat = w - r := by
  rw [UInt32.toNat_sub, UInt32.toNat_ofNat', UInt32.toNat_ofNat']
  omega

theorem toNat_masked {mask : UInt32} {k : ℕ} (hmask : mask.toNat = 2 ^ k - 1) (hk : k ≤ 32)
    (i : ℕ) : (UInt32.ofNat i &&& mask).toNat = i % 2 ^ k := by
  rw [UInt32.toNat_and, UInt32.toNat_ofNat', hmask, Nat.and_two_pow_sub_one_eq_mod,
    Nat.mod_mod_of_dvd i (Nat.pow_dvd_pow 2 hk)]

theorem apart_masked {mask : UInt32} {k : ℕ} (hmask : mask.toNat = 2 ^ k - 1) (hk : k ≤ 32) :
    Fifo.Apart (fun i => UInt32.ofNat i &&& mask) (2 ^ k) := by
  intro i j hlt hnear heq
  have hmod : i % 2 ^ k = j % 2 ^ k := by
    rw [← toNat_masked hmask hk i, ← toNat_masked hmask hk j]
    exact congrArg UInt32.toNat heq
  have hdvd : 2 ^ k ∣ j - i := Nat.dvd_of_mod_eq_zero (Nat.sub_mod_eq_zero_of_mod_eq hmod.symm)
  have hle := Nat.le_of_dvd (by omega) hdvd
  omega

/-! ## What every interleaving keeps -/

/-- The cell of the place `i` of the history. -/
def LidarDataQueue.cellOf (q : LidarDataQueue K) (i : ℕ) : UInt32 := q.slotAt (UInt32.ofNat i)

/-- The indices count the packets modulo 2^32, at most `2 ^ k` packets are stored,
each in its slot, and each thread is where its last test lets it be. -/
structure Ordered (k : ℕ) (s : SharedQueue K) : Prop where
  mask : s.queue.mask.toNat = 2 ^ k - 1
  size : s.queue.size.toNat = 2 ^ k
  rdIdx : s.queue.rdIdx = UInt32.ofNat s.popped.length
  wrIdx : s.queue.wrIdx = UInt32.ofNat s.accepted.length
  taken : s.popped = s.accepted.take s.popped.length
  room : s.accepted.length ≤ s.popped.length + 2 ^ k
  cells : ∃ slots, s.queue.storagePacket = some slots ∧
    Fifo.Holds s.queue.cellOf slots s.popped.length s.accepted ∧
    ∀ packet, s.producer = .stored packet → slots (s.queue.cellOf s.accepted.length) = packet
  pushing : s.producer ≠ .idle → s.accepted.length < s.popped.length + 2 ^ k
  popping : s.consumer = .popping → s.popped.length < s.accepted.length
  copied : ∀ pkg, s.consumer = .copied pkg → s.accepted[s.popped.length]? = some pkg

namespace Ordered

variable {k : ℕ} {s : SharedQueue K} (h : Ordered k s) (hk : k ≤ 31)

include h

theorem popped_le : s.popped.length ≤ s.accepted.length := by
  have hlen := congrArg List.length h.taken
  rw [List.length_take] at hlen
  omega

include hk

theorem queueUsedSize_eq :
    s.queue.queueUsedSize.toNat = s.accepted.length - s.popped.length := by
  have hpow : 2 ^ k ≤ 2 ^ 31 := Nat.pow_le_pow_right (by omega) hk
  have hroom := h.room
  rw [LidarDataQueue.queueUsedSize, h.rdIdx, h.wrIdx]
  exact toNat_used h.popped_le (by omega)

theorem queueIsFull_iff :
    s.queue.queueIsFull = true ↔ s.accepted.length = s.popped.length + 2 ^ k := by
  have hused := h.queueUsedSize_eq hk
  have hroom := h.room
  have hpos : 0 < 2 ^ k := Nat.two_pow_pos k
  have hmask := h.mask
  rw [LidarDataQueue.queueIsFull, decide_eq_true_iff, UInt32.lt_iff_toNat_lt]
  change s.queue.mask.toNat < s.queue.queueUsedSize.toNat ↔ _
  omega

theorem queueIsEmpty_iff :
    s.queue.queueIsEmpty = true ↔ s.accepted.length = s.popped.length := by
  have hused := h.queueUsedSize_eq hk
  have hle := h.popped_le
  rw [LidarDataQueue.queueIsEmpty, beq_iff_eq]
  constructor
  · intro heq
    have hzero : s.queue.queueUsedSize.toNat = 0 := by
      rw [LidarDataQueue.queueUsedSize, heq, UInt32.sub_self]
      rfl
    omega
  · intro heq
    rw [h.rdIdx, h.wrIdx, heq]

theorem pushLidarData (packet : StoragePacket K) : Ordered k (s.pushLidarData packet) := by
  unfold SharedQueue.pushLidarData
  cases hproducer : s.producer with
  | storing _ => exact h
  | stored _ => exact h
  | idle =>
    cases hfull : s.queue.queueIsFull with
    | true => exact h
    | false =>
      have hnot : ¬ s.accepted.length = s.popped.length + 2 ^ k := by
        rw [← h.queueIsFull_iff hk, hfull]
        exact Bool.false_ne_true
      have hroom := h.room
      obtain ⟨slots, hslots, hholds, -⟩ := h.cells
      exact { h with
        cells := ⟨slots, hslots, hholds, fun packet hstored => by cases hstored⟩
        pushing := fun _ => Nat.lt_of_le_of_ne hroom hnot }

theorem produce : Ordered k s.produce := by
  have hapart : Fifo.Apart s.queue.cellOf (2 ^ k) := apart_masked h.mask (by omega)
  obtain ⟨slots, hslots, hholds, hstored⟩ := h.cells
  unfold SharedQueue.produce
  cases hproducer : s.producer with
  | idle => exact h
  | storing packet =>
    have hroom := h.pushing (by rw [hproducer]; exact fun heq => by cases heq)
    have hcell : s.queue.slotAt s.queue.wrIdx = s.queue.cellOf s.accepted.length := by
      rw [h.wrIdx]
      rfl
    exact { h with
      cells := by
        refine ⟨Function.update slots (s.queue.cellOf s.accepted.length) packet, ?_, ?_, ?_⟩
        · simp only [LidarDataQueue.storePacket, hslots, Option.map_some, hcell]
        · exact hholds.store hapart hroom packet
        · intro packet' heq
          cases heq
          exact Function.update_self ..
      pushing := fun _ => hroom }
  | stored packet =>
    have hroom := h.pushing (by rw [hproducer]; exact fun heq => by cases heq)
    have hle := h.popped_le
    have hlen : (s.accepted ++ [packet]).length = s.accepted.length + 1 := by
      rw [List.length_append, List.length_singleton]
    refine { h with
      wrIdx := ?_, taken := ?_, room := ?_, cells := ?_, pushing := ?_, popping := ?_
      copied := ?_ }
    · show s.queue.wrIdx + 1 = UInt32.ofNat (s.accepted ++ [packet]).length
      rw [hlen, h.wrIdx, UInt32.ofNat_add]
      rfl
    · show s.popped = (s.accepted ++ [packet]).take s.popped.length
      rw [List.take_append_of_le_length hle]
      exact h.taken
    · show (s.accepted ++ [packet]).length ≤ s.popped.length + 2 ^ k
      omega
    · exact ⟨slots, hslots, hholds.push (hstored packet hproducer), fun _ heq => by cases heq⟩
    · exact fun hne => absurd rfl hne
    · intro hpopping
      have hlt := h.popping hpopping
      show s.popped.length < (s.accepted ++ [packet]).length
      omega
    · intro pkg hcopied
      have hpkg := h.copied pkg hcopied
      have hlt := (List.getElem?_eq_some_iff.mp hpkg).1
      show (s.accepted ++ [packet])[s.popped.length]? = some pkg
      rw [List.getElem?_append_left hlt, hpkg]

theorem consume : Ordered k s.consume := by
  obtain ⟨slots, hslots, hholds, hstored⟩ := h.cells
  have hle := h.popped_le
  unfold SharedQueue.consume
  cases hconsumer : s.consumer with
  | idle =>
    cases hempty : s.queue.queueIsEmpty with
    | true => exact h
    | false =>
      have hnot : ¬ s.accepted.length = s.popped.length := by
        rw [← h.queueIsEmpty_iff hk, hempty]
        exact Bool.false_ne_true
      exact { h with
        popping := fun _ => Nat.lt_of_le_of_ne hle fun heq => hnot heq.symm
        copied := fun pkg heq => by cases heq }
  | popping =>
    have hlt := h.popping hconsumer
    have hempty : s.queue.queueIsEmpty = false := by
      rw [Bool.eq_false_iff, ne_eq, h.queueIsEmpty_iff hk]
      omega
    have hfront := List.getElem?_eq_getElem hlt
    have hcell : s.queue.slotAt s.queue.rdIdx = s.queue.cellOf s.popped.length := by
      rw [h.rdIdx]
      rfl
    have hcopy : s.queue.queuePrePop = some s.accepted[s.popped.length] := by
      rw [LidarDataQueue.queuePrePop, if_neg (Bool.eq_false_iff.mp hempty), hslots, hcell]
      exact congrArg some (hholds _ _ (Nat.le_refl _) hfront)
    simp only [hcopy]
    exact { h with
      popping := fun heq => by cases heq
      copied := fun pkg heq => by
        cases heq
        exact hfront }
  | copied pkg =>
    have hpkg := h.copied pkg hconsumer
    have hlt := (List.getElem?_eq_some_iff.mp hpkg).1
    have hlen : (s.popped ++ [pkg]).length = s.popped.length + 1 := by
      rw [List.length_append, List.length_singleton]
    have hroom := h.room
    refine { h with
      rdIdx := ?_, taken := ?_, room := ?_, cells := ?_, pushing := ?_, popping := ?_
      copied := ?_ }
    · show s.queue.rdIdx + 1 = UInt32.ofNat (s.popped ++ [pkg]).length
      rw [hlen, h.rdIdx, UInt32.ofNat_add]
      rfl
    · show s.popped ++ [pkg] = s.accepted.take (s.popped ++ [pkg]).length
      rw [hlen, Fifo.take_succ_eq hpkg, ← h.taken]
    · show s.accepted.length ≤ (s.popped ++ [pkg]).length + 2 ^ k
      omega
    · refine ⟨slots, hslots, ?_, hstored⟩
      show Fifo.Holds s.queue.cellOf slots (s.popped ++ [pkg]).length s.accepted
      rw [hlen]
      exact hholds.pop
    · intro hne
      have hless := h.pushing hne
      show s.accepted.length < (s.popped ++ [pkg]).length + 2 ^ k
      omega
    · exact fun heq => by cases heq
    · exact fun pkg heq => by cases heq

theorem next (queueSize : UInt32) (e : Access K) :
    Ordered k ((sharedQueue queueSize).next s e) := by
  cases e with
  | pushLidarData packet => exact h.pushLidarData hk packet
  | producer => exact h.produce hk
  | consumer => exact h.consume hk

/-- The slots in use are those of the places between the two indices. -/
theorem occupied_iff (j : UInt32) :
    s.occupied j ↔
      ∃ i, s.popped.length ≤ i ∧ i < s.accepted.length ∧ s.queue.cellOf i = j := by
  have hused := h.queueUsedSize_eq hk
  have hle := h.popped_le
  have hcell : ∀ d, s.queue.slotAt (s.queue.rdIdx + UInt32.ofNat d) =
      s.queue.cellOf (s.popped.length + d) := by
    intro d
    rw [LidarDataQueue.cellOf, h.rdIdx, UInt32.ofNat_add]
  constructor
  · rintro ⟨d, hd, rfl⟩
    have hlt : d.toNat < s.queue.queueUsedSize.toNat := hd
    refine ⟨s.popped.length + d.toNat, by omega, by omega, ?_⟩
    rw [← hcell, UInt32.ofNat_toNat]
  · rintro ⟨i, hfrom, hto, rfl⟩
    have hroom := h.room
    have hpow : 2 ^ k ≤ 2 ^ 31 := Nat.pow_le_pow_right (by omega) hk
    have hsmall : (UInt32.ofNat (i - s.popped.length)).toNat = i - s.popped.length := by
      rw [UInt32.toNat_ofNat']
      omega
    refine ⟨UInt32.ofNat (i - s.popped.length), ?_, ?_⟩
    · rw [UInt32.lt_iff_toNat_lt, hsmall, hused]
      omega
    · rw [hcell, Nat.add_sub_cancel' hfrom]

/-- A slot that a step fills holds no packet still to be popped. -/
theorem writes_free {e : Access K} {j : UInt32} (hwrites : s.writes e = some j) :
    ¬ s.occupied j := by
  cases e with
  | pushLidarData packet => cases hwrites
  | consumer => cases hwrites
  | producer =>
    cases hproducer : s.producer with
    | idle => simp [SharedQueue.writes, hproducer] at hwrites
    | stored packet => simp [SharedQueue.writes, hproducer] at hwrites
    | storing packet =>
      have hroom := h.pushing (by rw [hproducer]; exact fun heq => by cases heq)
      have hcell : s.queue.cellOf s.accepted.length = j := by
        rw [LidarDataQueue.cellOf, ← h.wrIdx]
        simpa [SharedQueue.writes, hproducer] using hwrites
      rw [h.occupied_iff hk]
      rintro ⟨i, hfrom, hto, heq⟩
      have hapart : Fifo.Apart s.queue.cellOf (2 ^ k) := apart_masked h.mask (by omega)
      exact hapart i s.accepted.length hto (by omega) (heq.trans hcell.symm)

end Ordered

theorem ordered_init {queueSize : UInt32} {k : ℕ}
    (hsize : (initQueue queueSize : LidarDataQueue K).size.toNat = 2 ^ k)
    (hmask : (initQueue queueSize : LidarDataQueue K).mask.toNat = 2 ^ k - 1) :
    Ordered k (sharedQueue queueSize : Machine (SharedQueue K) _ _).init where
  mask := hmask
  size := hsize
  rdIdx := rfl
  wrIdx := rfl
  taken := rfl
  room := Nat.zero_le _
  cells := ⟨_, rfl, Fifo.holds_nil, fun _ heq => by cases heq⟩
  pushing hne := absurd rfl hne
  popping heq := by cases heq
  copied _ heq := by cases heq

/-- The buffer is a bounded first-in first-out queue: its capacity is the least
power of two the requested size fits in, what has been popped is the first part
of what has been accepted, what is stored never exceeds the capacity, each stored
packet is in its slot, and no step fills the slot of a stored packet. -/
theorem sharedQueue_isFifo (queueSize : UInt32) (hpos : 1 ≤ queueSize.toNat)
    (hle : queueSize.toNat ≤ 2 ^ 31) (accesses : List (Access K)) :
    let m : Machine (SharedQueue K) (Access K) Unit := sharedQueue queueSize
    let s := m.run m.init accesses
    IsLeast {c | queueSize.toNat ≤ c ∧ ∃ k, c = 2 ^ k} s.queue.size.toNat ∧
    s.popped <+: s.accepted ∧
    s.queue.queueUsedSize.toNat = s.accepted.length - s.popped.length ∧
    s.queue.queueUsedSize ≤ s.queue.size ∧
    (∃ slots, s.queue.storagePacket = some slots ∧ ∀ i packet, s.popped.length ≤ i →
      s.accepted[i]? = some packet → slots (s.queue.cellOf i) = packet) ∧
    m.Along (fun s e => ∀ j, s.writes e = some j → ¬ s.occupied j) m.init accesses := by
  intro m s
  obtain ⟨k, hk, hsize, hmask, hfits, hleast⟩ := initQueue_spec (K := K) hle
  have hinit : Ordered k m.init := ordered_init hsize hmask
  have hs : Ordered k s :=
    Machine.run_invariant (fun t e ht => ht.next (by omega) queueSize e) hinit accesses
  have hused := hs.queueUsedSize_eq (by omega)
  have hroom := hs.room
  refine ⟨⟨?_, ?_⟩, ?_, hused, ?_, ?_, ?_⟩
  · exact ⟨by rw [hs.size]; exact hfits, k, hs.size⟩
  · rintro c ⟨hc, j, rfl⟩
    rw [hs.size]
    exact Nat.pow_le_pow_right (by omega) (hleast j hc)
  · rw [hs.taken]
    exact List.take_prefix _ _
  · rw [UInt32.le_iff_toNat_le, hused, hs.size]
    omega
  · obtain ⟨slots, hslots, hholds, -⟩ := hs.cells
    exact ⟨slots, hslots, hholds⟩
  · rw [Machine.along_iff]
    intro before e after _ j hj
    have hbefore : Ordered k (m.run m.init before) :=
      Machine.run_invariant (fun t e ht => ht.next (by omega) queueSize e) hinit before
    exact hbefore.writes_free (by omega) hj

/-- A queue of four packets: the fifth one is refused, and the first is popped. -/
theorem sharedQueue_isFifo_three :
    let m : Machine (SharedQueue ℚ) (Access ℚ) Unit := sharedQueue 3
    let s := m.run m.init
      (((List.range 5).flatMap fun i =>
          [.pushLidarData ⟨UInt64.ofNat i, []⟩, .producer, .producer]) ++
        [.consumer, .consumer, .consumer])
    s.popped = [⟨0, []⟩] ∧ s.accepted = [⟨0, []⟩, ⟨1, []⟩, ⟨2, []⟩, ⟨3, []⟩] ∧
    s.popped <+: s.accepted ∧
    IsLeast {c | (3 : UInt32).toNat ≤ c ∧ ∃ k, c = 2 ^ k} s.queue.size.toNat := by
  have hfifo := sharedQueue_isFifo (K := ℚ) 3 (by decide) (by decide)
    (((List.range 5).flatMap fun i =>
        [.pushLidarData ⟨UInt64.ofNat i, []⟩, .producer, .producer]) ++
      [.consumer, .consumer, .consumer])
  exact ⟨by decide +kernel, by decide +kernel, hfifo.2.1, hfifo.1⟩

end LivoxDriver
end RobotNav
