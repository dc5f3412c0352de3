import Xsky.Kit.Runs
import Xsky.Dgram.Tap

/-!
# Dgram.Poll

Whether a thread that polls the `xsky_dgram` device may sleep while the device has what it asked
for.

`chr_poll` puts the thread on the wait queue and then looks at `have`; a packet is pushed first and
the wait queue woken then. These four are steps of their own here, and any number of threads poll
while other calls run. A thread sleeps until it is triggered and looks again then.

`polled_awake`: whenever no wake-up is on its way, what a sleeping thread has not been told of is
nothing it asked for; and a thread that asks for `POLLRDNORM` never sleeps.
-/

namespace Xsky
namespace Dgram

open Kit

/-- Where a thread is in its poll. -/
inductive PollerAt where
  | away
  | looks  -- on the wait queue, before the test of `have`
  | sleeps -- behind a test that found nothing it asked for
deriving DecidableEq

structure Polled where
  dev : Device
  /-- The pushes behind the queue's lock and before their `wake_up_interruptible`. -/
  waking : Nat
  place : Nat → PollerAt
  triggered : Nat → Bool

def Polled.start (dev : Device) : Polled := ⟨dev, 0, fun _ => .away, fun _ => false⟩

inductive PollStep where
  | call (c : TapCall)
  | wakeUp
  | pollWait (w : Nat)
  | look (w : Nat)
  | resume (w : Nat)
  | timeout (w : Nat)

namespace Polled

def move (s : Polled) (w : Nat) (p : PollerAt) : Polled :=
  { s with place := Function.update s.place w p }

def trigger (s : Polled) (w : Nat) (b : Bool) : Polled :=
  { s with triggered := Function.update s.triggered w b }

/-- `wake_up_interruptible` triggers every thread on the wait queue. -/
def wakeUp (s : Polled) : Polled :=
  { s with
    waking := s.waking - 1
    triggered := fun w => if s.place w = .away then s.triggered w else true }

end Polled

/-- `events w` is what the thread asks for. A step of a thread that is not at that point leaves all
as it is. -/
def pollStep (events : Nat → Nat) (s : Polled) : PollStep → Option Polled
  | .call c => (deviceStep s.dev c).map fun (ret, dev) =>
      { s with dev := dev, waking := if ret = .verdict .drop then s.waking + 1 else s.waking }
  | .wakeUp => some (if s.waking = 0 then s else s.wakeUp)
  | .pollWait w =>
    some (if s.place w = .away then (s.move w .looks).trigger w false else s)
  | .look w =>
    some (if s.place w = .looks then
      s.move w (if chrPoll s.dev &&& events w ≠ 0 then .away else .sleeps)
    else s)
  | .resume w =>
    some (if s.place w = .sleeps ∧ s.triggered w = true then (s.move w .looks).trigger w false
    else s)
  | .timeout w => some (if s.place w = .sleeps then s.move w .away else s)

/-- Asleep, with nothing that will end it. -/
structure Blocked (s : Polled) (w : Nat) : Prop where
  sleeps : s.place w = .sleeps
  untriggered : s.triggered w = false
  none_waking : s.waking = 0

structure Quiet (node events : Nat → Nat) (s : Polled) : Prop where
  taps : ∃ t, Taps node s.dev t
  blocked : ∀ w, Blocked s w → chrPoll s.dev &&& events w = 0
  rdNorm : ∀ w, s.place w = .sleeps → pollRdNorm &&& events w = 0

/-! ## One step -/

section

variable {node events : Nat → Nat} {s : Polled}

theorem chrPoll_taps {dev : Device} {t : Tap} (h : Taps node dev t) :
    chrPoll dev = if t.queue = [] then pollRdNorm else pollIn + pollRdNorm := by
  obtain ⟨b, hrep⟩ := h.queue
  unfold chrPoll
  rw [hrep.count]
  cases t.queue with
  | nil => rfl
  | cons x xs => rfl

/-- The mask without `POLLIN` is in every mask. -/
theorem rdNorm_of_chrPoll {dev : Device} {e : Nat} (h : chrPoll dev &&& e = 0) :
    pollRdNorm &&& e = 0 := by
  have hmask : pollRdNorm = pollRdNorm &&& chrPoll dev := by
    unfold chrPoll
    split <;> rfl
  rw [hmask, Nat.and_assoc, h, Nat.and_zero]

/-- Only a packet that is taken fills an empty queue. -/
theorem Tap.step_empty {t : Tap} {c : TapCall} (hret : (t.step c).1 ≠ .verdict .drop)
    (hqueue : t.queue = []) : (t.step c).2.queue = [] := by
  cases c with
  | open_ =>
    simp only [Tap.step]
    split <;> exact hqueue
  | release => rfl
  | ioctl cmd arg =>
    simp only [Tap.step]
    cases ht : t.ioctl cmd arg with
    | none => exact hqueue
    | some t' =>
      simp only [Tap.ioctl] at ht
      split at ht
      · obtain ⟨_, -, rfl⟩ := Option.map_eq_some_iff.mp ht
        exact hqueue
      · split at ht
        · obtain ⟨_, -, rfl⟩ := Option.map_eq_some_iff.mp ht
          exact hqueue
        · cases ht
  | packet skb =>
    cases skb with
    | none => exact hqueue
    | some skb =>
      simp only [Tap.step] at hret ⊢
      by_cases htakes : t.Takes skb
      · rw [if_pos htakes] at hret
        exact absurd rfl hret
      · rw [if_neg htakes]
        exact hqueue
  | read size left =>
    simp only [Tap.step, hqueue]
  | poll => exact hqueue

theorem chrPoll_call {dev dev' : Device} {t : Tap} {c : TapCall} (h : Taps node dev t)
    (h' : Taps node dev' (t.step c).2) (hret : (t.step c).1 ≠ .verdict .drop) {e : Nat}
    (hmask : chrPoll dev &&& e = 0) : chrPoll dev' &&& e = 0 := by
  rw [chrPoll_taps h']
  by_cases hempty : (t.step c).2.queue = []
  · rw [if_pos hempty]
    exact rdNorm_of_chrPoll hmask
  · rw [if_neg hempty]
    rw [chrPoll_taps h, if_neg fun hqueue => hempty (Tap.step_empty hret hqueue)] at hmask
    exact hmask

theorem quiet_start {q : QueueMem} (h : Rep q queueSize node 0 []) :
    Quiet node events (.start (.init q)) where
  taps := ⟨.start, taps_start h⟩
  blocked w hw := by cases hw.sleeps
  rdNorm w hw := by cases hw

theorem Quiet.call (h : Quiet node events s) (c : TapCall) :
    ∃ s', pollStep events s (.call c) = some s' ∧ Quiet node events s' := by
  obtain ⟨t, ht⟩ := h.taps
  obtain ⟨dev', hdev, ht'⟩ := device_simulates s.dev t c ht
  simp only [pollStep, hdev, Option.map_some]
  refine ⟨_, rfl, ⟨_, ht'⟩, fun w hw => ?_, h.rdNorm⟩
  obtain ⟨hsleeps, huntriggered, hwaking⟩ := hw
  by_cases hret : (t.step c).1 = .verdict .drop
  · rw [if_pos hret] at hwaking
    cases hwaking
  · rw [if_neg hret] at hwaking
    exact chrPoll_call ht ht' hret (h.blocked w ⟨hsleeps, huntriggered, hwaking⟩)

theorem Quiet.wakeUp (h : Quiet node events s) : Quiet node events s.wakeUp where
  taps := h.taps
  blocked w hw := by
    obtain ⟨hsleeps, huntriggered, -⟩ := hw
    have hplace : s.place w ≠ .away := by
      intro haway
      have hsame : s.wakeUp.place w = s.place w := rfl
      rw [hsame, haway] at hsleeps
      cases hsleeps
    simp only [Polled.wakeUp, if_neg hplace] at huntriggered
    cases huntriggered
  rdNorm := h.rdNorm

/-- A thread goes where it is not asleep. -/
theorem Quiet.move (h : Quiet node events s) {w : Nat} {p : PollerAt} (hp : p ≠ .sleeps) :
    Quiet node events (s.move w p) where
  taps := h.taps
  blocked v hv := by
    obtain ⟨hsleeps, huntriggered, hwaking⟩ := hv
    by_cases hvw : v = w
    · subst hvw
      simp only [Polled.move, Function.update_self] at hsleeps
      exact absurd hsleeps hp
    · simp only [Polled.move, Function.update_of_ne hvw] at hsleeps
      exact h.blocked v ⟨hsleeps, huntriggered, hwaking⟩
  rdNorm v hv := by
    by_cases hvw : v = w
    · subst hvw
      simp only [Polled.move, Function.update_self] at hv
      exact absurd hv hp
    · simp only [Polled.move, Function.update_of_ne hvw] at hv
      exact h.rdNorm v hv

/-- A thread that is not asleep loses its trigger. -/
theorem Quiet.untrigger (h : Quiet node events s) {w : Nat} (hw : s.place w ≠ .sleeps) :
    Quiet node events (s.trigger w false) where
  taps := h.taps
  blocked v hv := by
    obtain ⟨hsleeps, huntriggered, hwaking⟩ := hv
    by_cases hvw : v = w
    · subst hvw
      exact absurd hsleeps hw
    · simp only [Polled.trigger, Function.update_of_ne hvw] at huntriggered
      exact h.blocked v ⟨hsleeps, huntriggered, hwaking⟩
  rdNorm := h.rdNorm

/-- A thread falls asleep behind a test that found nothing it asked for. -/
theorem Quiet.sleep (h : Quiet node events s) {w : Nat} (hmask : chrPoll s.dev &&& events w = 0) :
    Quiet node events (s.move w .sleeps) where
  taps := h.taps
  blocked v hv := by
    obtain ⟨hsleeps, huntriggered, hwaking⟩ := hv
    by_cases hvw : v = w
    · subst hvw
      exact hmask
    · simp only [Polled.move, Function.update_of_ne hvw] at hsleeps
      exact h.blocked v ⟨hsleeps, huntriggered, hwaking⟩
  rdNorm v hv := by
    by_cases hvw : v = w
    · subst hvw
      exact rdNorm_of_chrPoll hmask
    · simp only [Polled.move, Function.update_of_ne hvw] at hv
      exact h.rdNorm v hv

theorem Quiet.looksAgain (h : Quiet node events s) (w : Nat) :
    Quiet node events ((s.move w .looks).trigger w false) := by
  refine (h.move (w := w) (by simp)).untrigger ?_
  simp [Polled.move]

theorem Quiet.step (h : Quiet node events s) (i : PollStep) :
    ∃ s', pollStep events s i = some s' ∧ Quiet node events s' := by
  cases i with
  | call c => exact h.call c
  | wakeUp =>
    refine ⟨_, rfl, ?_⟩
    split
    · exact h
    · exact h.wakeUp
  | pollWait w =>
    refine ⟨_, rfl, ?_⟩
    split
    · exact h.looksAgain w
    · exact h
  | look w =>
    refine ⟨_, rfl, ?_⟩
    split
    · by_cases hmask : chrPoll s.dev &&& events w = 0
      · rw [if_neg (not_not.mpr hmask)]
        exact h.sleep hmask
      · rw [if_pos hmask]
        exact h.move (by simp)
    · exact h
  | resume w =>
    refine ⟨_, rfl, ?_⟩
    split
    · exact h.looksAgain w
    · exact h
  | timeout w =>
    refine ⟨_, rfl, ?_⟩
    split
    · exact h.move (by simp)
    · exact h

/-! ## All steps -/

theorem quiet_always {q : QueueMem} (h : Rep q queueSize node 0 [])
    (is : List PollStep) : Always (pollStep events) (Quiet node events) (.start (.init q)) is :=
  always_of_along (C := fun _ _ => True) (fun _ i hs _ => hs.step i) (quiet_start h)
    (along_of_forall fun _ _ => trivial)

end

/-- From module load on, whatever calls, wake-ups and polls come in whatever order: nothing faults,
a thread sleeps untriggered with no wake-up on its way only while the device has nothing it asked
for, and one that asks for `POLLRDNORM` never sleeps. -/
theorem polled_awake (h : Heap) (events : Nat → Nat) (is : List PollStep) :
    ∃ q, xskyQueueInit h queueSize = some q ∧
      Always (pollStep events)
        (fun s => (∀ w, Blocked s w → chrPoll s.dev &&& events w = 0) ∧
          ∀ w, pollRdNorm &&& events w ≠ 0 → s.place w ≠ .sleeps)
        (.start (.init q)) is := by
  obtain ⟨q, hq, hrep⟩ := deviceQueue_rep h
  refine ⟨q, hq, (quiet_always hrep is).mono fun s hs => ⟨hs.blocked, fun w hasks hsleeps => ?_⟩⟩
  exact hasks (hs.rdNorm w hsleeps)

end Dgram
end Xsky
