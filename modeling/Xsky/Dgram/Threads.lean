import Xsky.Dgram.Fifo

/-!
# Dgram.Threads

Pushers and poppers on one ring, each call in two atomic steps: the test before `spin_lock`, then
the whole locked section, which does not repeat the test. Any number of threads, in any order.

A thread whose test passed may enter its locked section when the outcome no longer holds.
`capacity_iff_testsHold`: `have` stays within the ring and no packet is overwritten in exactly the
runs where that never happens.
-/

namespace Xsky
namespace Dgram

open Kit

inductive Phase where
  | idle
  | pushing (data : Mem) (size : Nat)
  | popping

/-- The shared queue, where each thread is, and the packets accepted and not yet popped: each with
the node it was written to, oldest first. -/
structure Threads where
  mem : QueueMem
  phase : Nat → Phase
  pending : List (Nat × Packet)

inductive ThreadStep where
  | pushTest (t : Nat) (data : Mem) (size : Nat)
  | pushLocked (t : Nat)
  | popTest (t : Nat)
  | popLocked (t : Nat)

def Threads.setPhase (s : Threads) (t : Nat) (p : Phase) : Threads :=
  { s with phase := fun u => if u = t then p else s.phase u }

def Threads.start (m : QueueMem) : Threads := ⟨m, fun _ => .idle, []⟩

/-- A step of a thread that is not at that point of its call leaves the state as it is. -/
def threadStep (s : Threads) : ThreadStep → Option Threads
  | .pushTest t data size =>
    match s.phase t, pushTest s.mem size with
    | .idle, none => some (s.setPhase t (.pushing data size))
    | _, _ => some s
  | .pushLocked t =>
    match s.phase t with
    | .pushing data size =>
      (pushLocked s.mem data size).map fun m =>
        { s.setPhase t .idle with
          mem := m
          pending := s.pending ++ [(m.queue.end_, packetAt data size)] }
    | _ => some s
  | .popTest t =>
    match s.phase t with
    | .idle => if s.mem.queue.have_ = 0 then some s else some (s.setPhase t .popping)
    | _ => some s
  | .popLocked t =>
    match s.phase t with
    | .popping =>
      (popLocked s.mem).map fun (p, m) =>
        { s.setPhase t .idle with mem := m, pending := s.pending.eraseP (·.1 = p) }
    | _ => some s

/-- `have` counts the packets accepted and not yet popped, there are at most `n` of them, and each
is still in its node. -/
structure CapacitySafe (n : Nat) (s : Threads) : Prop where
  bound : s.mem.queue.have_ ≤ n
  count : s.mem.queue.have_ = s.pending.length
  intact : ∀ p pkt, (p, pkt) ∈ s.pending →
    ∃ d, s.mem.heap.cell p = some d ∧ d.size = pkt.length ∧ d.packet = pkt

/-- A thread that enters its locked section would still pass its test. -/
def TestsHold (s : Threads) : ThreadStep → Prop
  | .pushLocked t => ∀ data size, s.phase t = .pushing data size → pushTest s.mem size = none
  | .popLocked t => s.phase t = .popping → s.mem.queue.have_ ≠ 0
  | _ => True

/-- The accepted packets are those the ring represents, each in its node. -/
structure ThreadInv (n : Nat) (node : Nat → Nat) (s : Threads) : Prop where
  sizes : ∀ t data size, s.phase t = .pushing data size → size ≤ xskyMtu
  rep : ∃ b xs, Rep s.mem n node b xs ∧
    s.pending = xs.mapIdx fun i x => (node (ringAt n b i), x)

theorem ThreadInv.safe {n : Nat} {node : Nat → Nat} {s : Threads} (h : ThreadInv n node s) :
    CapacitySafe n s := by
  obtain ⟨b, xs, hrep, hpend⟩ := h.rep
  refine ⟨by rw [hrep.count]; exact hrep.window.fits, by rw [hrep.count, hpend]; simp, ?_⟩
  intro p pkt hmem
  rw [hpend, List.mem_mapIdx] at hmem
  obtain ⟨i, hi, heq⟩ := hmem
  cases heq
  exact hrep.window.holds i hi

theorem ThreadInv.setPhase {n : Nat} {node : Nat → Nat} {s : Threads} (h : ThreadInv n node s)
    (t : Nat) {p : Phase} (hp : ∀ data size, p = .pushing data size → size ≤ xskyMtu) :
    ThreadInv n node (s.setPhase t p) := by
  refine ⟨fun u data size hu => ?_, h.rep⟩
  simp only [Threads.setPhase] at hu
  split at hu
  · exact hp data size hu
  · exact h.sizes u data size hu

theorem pushTest_none {m : QueueMem} {size : Nat} (h : pushTest m size = none) :
    size ≤ xskyMtu ∧ m.queue.size ≠ m.queue.have_ := by
  unfold pushTest at h
  split at h
  · cases h
  · rename_i hs
    split at h
    · cases h
    · rename_i hfull
      exact ⟨Nat.le_of_not_gt hs, hfull⟩

/-- The locked section of a push whose test still holds. -/
theorem ThreadInv.pushLocked {n : Nat} {node : Nat → Nat} {s : Threads} (h : ThreadInv n node s)
    (t : Nat) (data : Mem) {size : Nat} (hs : size ≤ xskyMtu)
    (hroom : s.mem.queue.size ≠ s.mem.queue.have_) :
    ∃ m, Dgram.pushLocked s.mem data size = some m ∧
      ThreadInv n node
        { s.setPhase t .idle with
          mem := m
          pending := s.pending ++ [(m.queue.end_, packetAt data size)] } := by
  obtain ⟨b, xs, hrep, hpend⟩ := h.rep
  rw [hrep.ring.size, hrep.count] at hroom
  have hlt : xs.length < n := Nat.lt_of_le_of_ne hrep.window.fits (Ne.symm hroom)
  obtain ⟨m, hm, _, hrep'⟩ := pushLocked_rep hrep data hs hlt
  refine ⟨m, hm, (h.setPhase t (p := .idle) (by simp)).sizes, _, _, hrep', ?_⟩
  have hend := hrep'.end_ (by simp)
  simp only [List.length_append, List.length_singleton, Nat.add_sub_cancel] at hend
  simp only [List.mapIdx_append, List.mapIdx_singleton, Nat.zero_add, hend, hpend]
  congr 1
  unfold pushPlace
  split
  · rename_i hx
    subst hx
    rfl
  · rfl

/-- The locked section of a pop whose test still holds. -/
theorem ThreadInv.popLocked {n : Nat} {node : Nat → Nat} {s : Threads} (h : ThreadInv n node s)
    (t : Nat) (hany : s.mem.queue.have_ ≠ 0) :
    ∃ p m, Dgram.popLocked s.mem = some (p, m) ∧
      ThreadInv n node
        { s.setPhase t .idle with mem := m, pending := s.pending.eraseP (·.1 = p) } := by
  obtain ⟨b, xs, hrep, hpend⟩ := h.rep
  cases xs with
  | nil => exact absurd hrep.count hany
  | cons x xs =>
    obtain ⟨m, hm, _, hrep'⟩ := popLocked_rep hrep
    refine ⟨_, m, hm, (h.setPhase t (p := .idle) (by simp)).sizes, _, _, hrep', ?_⟩
    simp [hpend, List.mapIdx_cons, ringAt_shift]

theorem threadStep_inv {n : Nat} {node : Nat → Nat} (s : Threads) (i : ThreadStep)
    (h : ThreadInv n node s) (hC : TestsHold s i) :
    ∃ s', threadStep s i = some s' ∧ ThreadInv n node s' := by
  cases i with
  | pushTest t data size =>
    simp only [threadStep]
    split
    · rename_i ht
      refine ⟨_, rfl, h.setPhase t fun data' size' he => ?_⟩
      cases he
      exact (pushTest_none ht).1
    · exact ⟨s, rfl, h⟩
  | pushLocked t =>
    simp only [threadStep]
    split
    · rename_i data size hp
      have ht := pushTest_none (hC data size hp)
      obtain ⟨m, hm, hinv⟩ := h.pushLocked t data ht.1 ht.2
      exact ⟨_, by rw [hm]; rfl, hinv⟩
    · exact ⟨s, rfl, h⟩
  | popTest t =>
    simp only [threadStep]
    split
    · split
      · exact ⟨s, rfl, h⟩
      · exact ⟨_, rfl, h.setPhase t (by simp)⟩
    · exact ⟨s, rfl, h⟩
  | popLocked t =>
    simp only [threadStep]
    split
    · rename_i hp
      obtain ⟨p, m, hm, hinv⟩ := h.popLocked t (hC hp)
      exact ⟨_, by rw [hm]; rfl, hinv⟩
    · exact ⟨s, rfl, h⟩

/-- A locked section entered on a test that no longer holds takes `have` out of the ring: one past
`n`, or below zero and around. -/
theorem testsHold_of_safe {n : Nat} {node : Nat → Nat} (s : Threads) (i : ThreadStep)
    (s' : Threads) (h : ThreadInv n node s) (hs : threadStep s i = some s')
    (hsafe : CapacitySafe n s') : TestsHold s i := by
  obtain ⟨b, xs, hrep, _⟩ := h.rep
  have hlt := hrep.ring.lt
  cases i with
  | pushTest t data size => trivial
  | popTest t => trivial
  | pushLocked t =>
    intro data size hp
    have hsize := h.sizes t data size hp
    simp only [threadStep, hp, Option.map_eq_some_iff] at hs
    obtain ⟨m, hm, rfl⟩ := hs
    have hbound := hsafe.bound
    simp only [pushLocked] at hm
    split at hm
    · cases hm
    · split at hm
      · cases hm
      · cases hm
        rw [pushTest_rep hrep, if_neg (by omega), if_neg]
        simp only [hrep.count] at hbound
        omega
  | popLocked t =>
    intro hp h0
    simp only [threadStep, hp, Option.map_eq_some_iff] at hs
    obtain ⟨⟨p, m⟩, hm, rfl⟩ := hs
    have hbound := hsafe.bound
    simp only [popLocked] at hm
    split at hm
    · cases hm
    · cases hm
      simp only [h0] at hbound
      omega

theorem threadInv_start {m : QueueMem} {n : Nat} {node : Nat → Nat} (h : Rep m n node 0 []) :
    ThreadInv n node (.start m) :=
  ⟨fun _ _ _ hp => by simp [Threads.start] at hp, 0, [], h, rfl⟩

/-- Over any interleaving of any number of pushers and poppers, the ring's capacity is kept in
every state if and only if every locked section is entered on a test that still holds. -/
theorem capacity_iff_testsHold (h : Heap) (qsize : Nat) (m : QueueMem)
    (hm : xskyQueueInit h qsize = some m) (steps : List ThreadStep) :
    Always threadStep (CapacitySafe qsize) (.start m) steps ↔
      Along threadStep TestsHold (.start m) steps := by
  obtain ⟨hpos, hlt⟩ := xskyQueueInit_bounds hm
  obtain ⟨m', hm', hrep⟩ := xskyQueueInit_rep h hpos hlt
  rw [hm] at hm'
  cases hm'
  exact always_iff_along (fun s => ThreadInv.safe) threadStep_inv testsHold_of_safe
    (threadInv_start hrep)

theorem capacity_iff_testsHold_one :
    ∃ m, xskyQueueInit Heap.empty 1 = some m ∧
      (Always threadStep (CapacitySafe 1) (.start m)
          [.pushTest 0 (fun _ => 7) 1, .pushLocked 0, .popTest 1, .popLocked 1] ↔
        Along threadStep TestsHold (.start m)
          [.pushTest 0 (fun _ => 7) 1, .pushLocked 0, .popTest 1, .popLocked 1]) :=
  ⟨_, rfl, capacity_iff_testsHold Heap.empty 1 _ rfl _⟩

/-- Two pushers that both test a ring of one place before either of them writes. -/
theorem two_pushers_overrun :
    ∃ m, xskyQueueInit Heap.empty 1 = some m ∧
      ¬ Always threadStep (CapacitySafe 1) (.start m)
        [.pushTest 0 (fun _ => 7) 1, .pushTest 1 (fun _ => 8) 1, .pushLocked 0, .pushLocked 1] := by
  refine ⟨_, rfl, fun h => ?_⟩
  obtain ⟨s, hs, hsafe⟩ := h.run
  have hhave : (some s).map (·.mem.queue.have_) = some 2 := by rw [← hs]; rfl
  have hbound := hsafe.bound
  simp only [Option.map_some, Option.some.injEq] at hhave
  omega

end Dgram
end Xsky
