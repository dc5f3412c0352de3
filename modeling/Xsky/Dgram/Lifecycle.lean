import Xsky.Dgram.Interleaved

/-!
# Dgram.Lifecycle

The module from `xsky_init` to `xsky_exit`, in the single steps of both, with the file operations
and packets between them. A step faults when a handler uses `poll` before it is set or after it is
freed, or `poll->r_queue` likewise.

* `lifeStep`  — one step of `xsky_init` or `xsky_exit`, or one whole call of a handler.
* `OpensLate` — the device is opened only behind the last step of `xsky_init`.

`initialised_before_use`: no handler faults in a run whose steps are all `OpensLate`, and one that
is not can be continued to a fault. `early_open_faults` is one in which the queue is missing.
-/

namespace Xsky
namespace Dgram

open Kit

/-- What there is of `poll` and of `poll->r_queue`. -/
inductive PollAt where
  | unset
  | allocated  -- without its queue
  | ready
  | released   -- its queue is freed
  | freed
deriving DecidableEq

structure Life where
  /-- The steps of `xsky_init` and of `xsky_exit` done so far, five each. -/
  initAt : Nat
  exitAt : Nat
  /-- The character device exists. -/
  openable : Bool
  hook4 : Bool
  hook6 : Bool
  poll : PollAt
  /-- A file is open. Its `private_data` is the `poll` that `chr_open` found. -/
  file : Bool
  /-- Its queue counts only when `poll` is ready. -/
  dev : Device

inductive LifeStep where
  | init
  | exit
  | open_
  | ioctl (cmd : BitVec 32) (arg : Nat → Option Byte)
  | read (size : Nat)
  | poll
  | release
  | packet (skb : Mem)

def Life.start (h : Heap) : Life where
  initAt := 0
  exitAt := 0
  openable := false
  hook4 := false
  hook6 := false
  poll := .unset
  file := false
  dev := Device.init ⟨h, ⟨0, 0, 0, 0, 0⟩⟩

/-- The hook of the family is registered. -/
def Life.hooked (s : Life) (v6 : Bool) : Bool := if v6 then s.hook6 else s.hook4

/-- The next step of `xsky_init`. -/
def xskyInit (s : Life) : Option Life :=
  match s.initAt with
  | 0 => some { s with initAt := 1, openable := true }
  | 1 => some { s with initAt := 2, hook4 := true }
  | 2 => some { s with initAt := 3, hook6 := true }
  | 3 => some { s with initAt := 4, poll := .allocated }
  | 4 =>
    (xskyQueueInit s.dev.rQueue.heap queueSize).map fun q =>
      { s with initAt := 5, poll := .ready, dev := { s.dev with rQueue := q } }
  | _ => some s

/-- The next step of `xsky_exit`, which starts only behind `xsky_init` and with no file open. -/
def xskyExit (s : Life) : Life :=
  match s.exitAt with
  | 0 => if s.initAt = 5 ∧ s.file = false then { s with exitAt := 1, openable := false } else s
  | 1 => { s with exitAt := 2, hook4 := false }
  | 2 => { s with exitAt := 3, hook6 := false }
  | 3 => { s with exitAt := 4, poll := .released }
  | 4 => { s with exitAt := 5, poll := .freed }
  | _ => s

/-- A call that the kernel does not pass on leaves the state as it is. -/
def lifeStep (s : Life) : LifeStep → Option Life
  | .init => xskyInit s
  | .exit => some (xskyExit s)
  | .open_ =>
    if s.openable = false ∨ s.dev.flockFlag = true then some s
    else if s.poll = .unset ∨ s.poll = .freed then none  -- `poll` is stored in the file
    else some { s with file := true, dev := (chrOpen s.dev).2 }
  | .ioctl cmd arg =>
    if s.file then some { s with dev := (chrIoctl s.dev cmd arg).2 } else some s
  | .read size =>
    if s.file = false then some s
    else if s.poll ≠ .ready then none
    else (chrRead s.dev size 0).map fun (_, dev) => { s with dev := dev }
  | .poll => if s.file = true ∧ s.poll ≠ .ready then none else some s
  | .release =>
    if s.file = false then some s
    else if s.poll ≠ .ready then none
    else some { s with file := false, dev := (chrRelease s.dev).2 }
  | .packet skb =>
    if s.hooked (isV6 skb) = false then some s
    else if s.dev.flockFlag = true ∧ reachesPush s.dev skb = true ∧ s.poll ≠ .ready then none
    else (nfHandleIn s.dev (some skb)).map fun (_, dev) => { s with dev := dev }

def OpensLate (s : Life) : LifeStep → Prop
  | .open_ => s.openable = true → s.dev.flockFlag = false → s.initAt = 5
  | _ => True

/-- What holds as long as the device was opened late. -/
structure LifeInv (s : Life) : Prop where
  ready : s.initAt = 5 → s.exitAt < 4 → s.poll = .ready
  rep : s.poll = .ready → ∃ node b xs, Rep s.dev.rQueue queueSize node b xs
  opened : s.file = true → s.initAt = 5 ∧ s.exitAt = 0
  flag : s.dev.flockFlag = s.file
  openable : s.openable = true → s.exitAt = 0
  init : s.initAt ≤ 5
  exit : s.exitAt ≠ 0 → s.initAt = 5
  before : s.initAt < 4 → s.poll = .unset
  allocated : s.initAt = 4 → s.poll = .allocated

namespace LifeInv

variable {s : Life}

theorem file_ready (h : LifeInv s) (hf : s.file = true) : s.poll = .ready := by
  obtain ⟨hinit, hexit⟩ := h.opened hf
  exact h.ready hinit (by omega)

/-- While a file is open, all that the calls on it use is in place. -/
theorem file_rep (h : LifeInv s) (hf : s.file = true) :
    s.poll = .ready ∧ ∃ node b xs, Rep s.dev.rQueue queueSize node b xs :=
  ⟨h.file_ready hf, h.rep (h.file_ready hf)⟩

/-! ## The steps of `xsky_init` and `xsky_exit` -/

theorem unopened (h : LifeInv s) (hne : s.initAt ≠ 5) : s.file = false ∧ s.exitAt = 0 := by
  refine ⟨?_, Decidable.byContradiction fun hx => hne (h.exit hx)⟩
  cases hf : s.file with
  | false => rfl
  | true => exact absurd (h.opened hf).1 hne

theorem closing (h : LifeInv s) (hne : s.exitAt ≠ 0) :
    s.file = false ∧ s.openable = false ∧ s.initAt = 5 := by
  refine ⟨?_, ?_, h.exit hne⟩
  · cases hf : s.file with
    | false => rfl
    | true => exact absurd (h.opened hf).2 hne
  · cases ho : s.openable with
    | false => rfl
    | true => exact absurd (h.openable ho) hne

/-- A step of `xsky_init` before it comes to `poll`. -/
theorem load (h : LifeInv s) (hlt : s.initAt < 3) {n : Nat} (hn : n ≤ 3)
    (openable hook4 hook6 : Bool) :
    LifeInv { s with initAt := n, openable := openable, hook4 := hook4, hook6 := hook6 } := by
  obtain ⟨hfile, hexit⟩ := h.unopened (by omega)
  have hpoll := h.before (by omega)
  refine ⟨?_, h.rep, ?_, h.flag, fun _ => hexit, ?_, fun hx => absurd hexit hx, fun _ => hpoll, ?_⟩
  · intro h5
    simp only at h5
    omega
  · intro hf
    simp only [hfile, Bool.false_eq_true] at hf
  · simp only
    omega
  · intro h4
    simp only at h4
    omega

theorem xskyInit (h : LifeInv s) : ∃ s', Dgram.xskyInit s = some s' ∧ LifeInv s' := by
  unfold Dgram.xskyInit
  split
  · exact ⟨_, rfl, h.load (by omega) (by omega) true s.hook4 s.hook6⟩
  · exact ⟨_, rfl, h.load (by omega) (by omega) s.openable true s.hook6⟩
  · exact ⟨_, rfl, h.load (by omega) (by omega) s.openable s.hook4 true⟩
  · obtain ⟨hfile, hexit⟩ := h.unopened (by omega)
    exact ⟨_, rfl, by simp, by simp, by simp [hfile], h.flag, h.openable, by simp,
      fun hx => absurd hexit hx, by simp, by simp⟩
  · obtain ⟨hfile, hexit⟩ := h.unopened (by omega)
    obtain ⟨q, hq, hrep⟩ := deviceQueue_rep s.dev.rQueue.heap
    rw [hq]
    exact ⟨_, rfl, fun _ _ => rfl, fun _ => ⟨_, 0, [], hrep⟩, by simp [hfile], h.flag, h.openable,
      by simp, fun _ => rfl, by simp, by simp⟩
  · exact ⟨s, rfl, h⟩

/-- A step of `xsky_exit` before it comes to the queue. -/
theorem unload (h : LifeInv s) (hne : s.exitAt ≠ 0) (hlt : s.exitAt < 4) (n : Nat)
    (hook4 hook6 : Bool) : LifeInv { s with exitAt := n, hook4 := hook4, hook6 := hook6 } := by
  obtain ⟨hfile, hopen, hinit⟩ := h.closing hne
  exact ⟨fun _ _ => h.ready hinit hlt, h.rep, by simp [hfile], h.flag, by simp [hopen], h.init,
    fun _ => hinit, h.before, h.allocated⟩

/-- The queue is freed, or `poll` behind it. -/
theorem free (h : LifeInv s) (hne : s.exitAt ≠ 0) {n : Nat} (hn : 4 ≤ n) {p : PollAt}
    (hp : p ≠ .ready) : LifeInv { s with exitAt := n, poll := p } := by
  obtain ⟨hfile, hopen, hinit⟩ := h.closing hne
  refine ⟨?_, fun hr => absurd hr hp, by simp [hfile], h.flag, by simp [hopen], h.init,
    fun _ => hinit, by simp [hinit], by simp [hinit]⟩
  intro _ hlt
  simp only at hlt
  omega

theorem xskyExit (h : LifeInv s) : LifeInv (Dgram.xskyExit s) := by
  unfold Dgram.xskyExit
  split
  · split
    · rename_i hstart
      obtain ⟨hinit, hfile⟩ := hstart
      exact ⟨fun _ _ => h.ready hinit (by omega), h.rep, by simp [hfile], h.flag, by simp, h.init,
        fun _ => hinit, h.before, h.allocated⟩
    · exact h
  · exact h.unload (by omega) (by omega) 2 false s.hook6
  · exact h.unload (by omega) (by omega) 3 s.hook4 false
  · exact h.free (by omega) (by omega) (by decide)
  · exact h.free (by omega) (by omega) (by decide)
  · exact h

/-! ## The handlers -/

/-- A handler changes only the device and whether a file is open. -/
theorem handler (h : LifeInv s) {f : Bool} {dev : Device}
    (hrep : s.poll = .ready → ∃ node b xs, Rep dev.rQueue queueSize node b xs)
    (hflag : dev.flockFlag = f) (hopen : f = true → s.initAt = 5 ∧ s.exitAt = 0) :
    LifeInv { s with file := f, dev := dev } :=
  ⟨h.ready, hrep, hopen, hflag, h.openable, h.init, h.exit, h.before, h.allocated⟩

theorem open_ (h : LifeInv s) (hC : OpensLate s .open_) :
    ∃ s', lifeStep s .open_ = some s' ∧ LifeInv s' := by
  simp only [lifeStep]
  split
  · exact ⟨s, rfl, h⟩
  · rename_i hno
    obtain ⟨hopenable, hflag⟩ : s.openable = true ∧ s.dev.flockFlag = false := by
      simpa only [not_or, Bool.not_eq_false, Bool.not_eq_true] using hno
    have hinit := hC hopenable hflag
    have hexit := h.openable hopenable
    have hready := h.ready hinit (by omega)
    rw [if_neg (by simp [hready])]
    refine ⟨_, rfl, h.handler ?_ ?_ fun _ => ⟨hinit, hexit⟩⟩
    · simpa [chrOpen, hflag] using h.rep
    · simp [chrOpen, hflag]

theorem chrIoctl_frame (dev : Device) (cmd : BitVec 32) (arg : Nat → Option Byte) :
    (chrIoctl dev cmd arg).2.rQueue = dev.rQueue ∧
      (chrIoctl dev cmd arg).2.flockFlag = dev.flockFlag := by
  rcases chrIoctl_cases dev cmd arg with ⟨ret, t, t6, b, b6, -, he⟩ | ⟨-, tmp, -, he⟩
  · rw [he]
    exact ⟨rfl, rfl⟩
  · rw [he]
    simp only
    split
    · exact ⟨rfl, rfl⟩
    · exact ⟨rfl, rfl⟩

theorem ioctl (h : LifeInv s) (cmd : BitVec 32) (arg : Nat → Option Byte) :
    ∃ s', lifeStep s (.ioctl cmd arg) = some s' ∧ LifeInv s' := by
  simp only [lifeStep]
  split
  · obtain ⟨hqueue, hflag⟩ := chrIoctl_frame s.dev cmd arg
    exact ⟨_, rfl, h.handler (by rw [hqueue]; exact h.rep) (by rw [hflag]; exact h.flag) h.opened⟩
  · exact ⟨s, rfl, h⟩

theorem read (h : LifeInv s) (size : Nat) :
    ∃ s', lifeStep s (.read size) = some s' ∧ LifeInv s' := by
  simp only [lifeStep]
  split
  · exact ⟨s, rfl, h⟩
  · rename_i hfile
    obtain ⟨hready, node, b, xs, hrep⟩ := h.file_rep (by simpa using hfile)
    rw [if_neg (by simp [hready])]
    cases xs with
    | nil =>
      rw [chrRead_nil hrep]
      exact ⟨_, rfl, h⟩
    | cons x ys =>
      obtain ⟨q, b', hread, hrep'⟩ := chrRead_cons hrep size 0
      rw [hread]
      exact ⟨_, rfl, h.handler (fun _ => ⟨node, b', ys, hrep'⟩) h.flag h.opened⟩

theorem release (h : LifeInv s) : ∃ s', lifeStep s .release = some s' ∧ LifeInv s' := by
  simp only [lifeStep]
  split
  · exact ⟨s, rfl, h⟩
  · rename_i hfile
    obtain ⟨hready, node, b, xs, hrep⟩ := h.file_rep (by simpa using hfile)
    rw [if_neg (by simp [hready])]
    exact ⟨_, rfl, h.handler (fun _ => ⟨node, b, [], xskyQueueReset_rep hrep⟩) rfl
      fun hf => by cases hf⟩

/-- A packet comes to the queue only while a file is open. -/
theorem packet (h : LifeInv s) (skb : Mem) :
    ∃ s', lifeStep s (.packet skb) = some s' ∧ LifeInv s' := by
  simp only [lifeStep]
  split
  · exact ⟨s, rfl, h⟩
  · by_cases hf : s.dev.flockFlag = true
    · obtain ⟨hready, node, b, xs, hrep⟩ := h.file_rep (h.flag ▸ hf)
      rw [if_neg (by simp [hready])]
      obtain ⟨v, q, b', hrest, -, hrep'⟩ := nfHandleRest_rep hrep skb
      rw [nfHandleIn_rest, if_neg (by simp [hf]), hrest]
      exact ⟨_, rfl, h.handler (fun _ => ⟨node, b', _, hrep'⟩) h.flag h.opened⟩
    · rw [if_neg (fun hc => hf hc.1), nfHandleIn_eq, if_neg (fun hc => hf hc.1)]
      exact ⟨s, rfl, h⟩

end LifeInv

theorem lifeStep_inv (s : Life) (i : LifeStep) (h : LifeInv s) (hC : OpensLate s i) :
    ∃ s', lifeStep s i = some s' ∧ LifeInv s' := by
  cases i with
  | init => exact h.xskyInit
  | exit => exact ⟨_, rfl, h.xskyExit⟩
  | open_ => exact h.open_ hC
  | ioctl cmd arg => exact h.ioctl cmd arg
  | read size => exact h.read size
  | poll => exact ⟨s, if_neg fun hp => hp.2 (h.file_ready hp.1), h⟩
  | release => exact h.release
  | packet skb => exact h.packet skb

theorem lifeInv_start (h : Heap) : LifeInv (.start h) where
  ready := by
    intro h5
    cases h5
  rep := by
    intro hr
    cases hr
  opened := by
    intro hf
    cases hf
  flag := rfl
  openable := fun _ => rfl
  init := Nat.zero_le 5
  exit := fun hx => absurd rfl hx
  before := fun _ => rfl
  allocated := by
    intro h4
    cases h4

/-- An open before the last step of `xsky_init` faults, or the first read behind it does. -/
theorem early_open {s : Life} (h : LifeInv s) {i : LifeStep} (hC : ¬ OpensLate s i) :
    ∃ js, ¬ Always lifeStep (fun _ => True) s (i :: js) := by
  cases i with
  | open_ =>
    obtain ⟨hopenable, hrest⟩ := Classical.not_imp.mp hC
    obtain ⟨hflag, hinit⟩ := Classical.not_imp.mp hrest
    by_cases hlt : s.initAt < 4
    · refine ⟨[], ?_⟩
      rintro ⟨-, s1, h1, -⟩
      simp [lifeStep, hopenable, hflag, h.before hlt] at h1
    · have h4 : s.initAt = 4 := by
        have := h.init
        omega
      refine ⟨[.read 0], ?_⟩
      rintro ⟨-, s1, h1, -, s2, h2, -⟩
      simp only [lifeStep, hopenable, hflag, h.allocated h4, reduceCtorEq, or_self, if_false,
        Bool.true_eq_false, Bool.false_eq_true] at h1
      cases h1
      simp [lifeStep] at h2
  | _ => exact absurd trivial hC

/-- No handler uses `poll` or its queue too early or too late in a run in which the device is opened
only behind `xsky_init`, and a run that opens it earlier can be continued to one that does. -/
theorem initialised_before_use (h : Heap) :
    (∀ is, Along lifeStep OpensLate (.start h) is →
      Always lifeStep (fun _ => True) (.start h) is) ∧
    ∀ is s i, Along lifeStep OpensLate (.start h) is → run lifeStep (.start h) is = some s →
      ¬ OpensLate s i → ∃ js, ¬ Always lifeStep (fun _ => True) (.start h) (is ++ i :: js) := by
  refine ⟨fun is hC => ?_, fun is s i hC hrun hearly => ?_⟩
  · exact (always_of_along lifeStep_inv (lifeInv_start h) hC).mono fun _ _ => trivial
  · obtain ⟨js, hjs⟩ := early_open (reached_of_along lifeStep_inv (lifeInv_start h) hC hrun) hearly
    exact ⟨js, not_always_append hrun hjs⟩

/-- The module is loaded, and diverts a packet to a file that is opened then. -/
theorem initialised_before_use_once :
    Always lifeStep (fun _ => True) (.start Heap.empty)
      [.init, .init, .init, .init, .init, .open_, .packet udpDatagram, .read 64, .release] := by
  refine (initialised_before_use Heap.empty).1 _ ⟨trivial, fun s1 h1 => ?_⟩
  cases h1
  refine ⟨trivial, fun s2 h2 => ?_⟩
  cases h2
  refine ⟨trivial, fun s3 h3 => ?_⟩
  cases h3
  refine ⟨trivial, fun s4 h4 => ?_⟩
  cases h4
  refine ⟨trivial, fun s5 h5 => ?_⟩
  simp only [lifeStep, xskyInit] at h5
  obtain ⟨q, -, rfl⟩ := Option.map_eq_some_iff.mp h5
  exact ⟨fun _ _ => rfl, fun _ _ => ⟨trivial, fun _ _ => ⟨trivial, fun _ _ => ⟨trivial, fun _ _ =>
    trivial⟩⟩⟩⟩

/-- The device is opened and read between the last two steps of `xsky_init`. -/
theorem early_open_faults :
    ¬ Always lifeStep (fun _ => True) (.start Heap.empty)
      [.init, .init, .init, .init, .open_, .read 1501] := by
  intro h
  obtain ⟨s, hs, -⟩ := h.run
  cases hs

end Dgram
end Xsky
