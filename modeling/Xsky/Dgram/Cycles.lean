import Xsky.Dgram.Init
import Xsky.Dgram.Release
import Xsky.Dgram.Tap

/-!
# Dgram.Cycles

The module loaded and unloaded again and again, with any calls of the device while it is loaded. A
load that fails leaves what it leaves, and the next one is tried all the same.

`xsky_exit` takes out the hooks, frees the ring and destroys the device, and gives back none of its
numbers: `delete_dev` asks for 0 of them. `Numbers` is what remains of that.

* `Heap.Within`     — a heap in which only cells that were there before have changed.
* `cycles_give_back` — after any loads no hook and no node is left, and as many numbers as loads
  found one; behind the last number no load succeeds.
-/

namespace Xsky
namespace Dgram

open Kit

/-- A load, what the kernel answers to it, and the calls until the unload. -/
structure Cycle (ν : Type _) where
  answers : Answers ν
  nets : List ν
  calls : List TapCall

/-- What the kernel has of all loads. -/
structure Loads (ν : Type _) where
  /-- The device numbers given out. -/
  numbers : Nat
  /-- The character devices added. -/
  devices : Nat
  hooked : ν → Bool
  heap : Heap

def Loads.start {ν : Type _} (h : Heap) : Loads ν := ⟨0, 0, fun _ => false, h⟩

section

variable {ν : Type _} [DecidableEq ν]

/-- `delete_dev`. Of `ndev` it gives back 0 numbers. -/
def Module.deleteDev (m : Module ν) : Module ν :=
  { m with chrDev := false, device := false, devClass := false }

def nfUnregisterHook (nets : List ν) (reg : HookOps ν) : HookOps ν :=
  rtnlUnlock (nets.foldl (fun reg net => nfUnregisterNetHook net reg) (rtnlLock reg))

/-- `q` is the queue as the calls have left it. -/
def Module.xskyExit (nets : List ν) (q : QueueMem) (m : Module ν) : Option (Module ν × Heap) :=
  let m := m.deleteDev
  let m := { m with nfOps := nfUnregisterHook nets m.nfOps }
  let m := { m with nf6Ops := nfUnregisterHook nets m.nf6Ops }
  (xskyQueueRelease q).map fun (h, _) => ({ m with rQueue := none }, h)

/-- `limit` is how many numbers there are to be had. -/
def allocChrdevRegion (limit numbers : Nat) : Int := if numbers < limit then 0 else -ebusy

/-- What the module leaves behind. -/
def Loads.left (s : Loads ν) (m : Module ν) (h : Heap) : Loads ν where
  numbers := s.numbers + m.ndev.toNat
  devices := s.devices + m.chrDev.toNat
  hooked := fun net => s.hooked net || m.nfOps.registered net || m.nf6Ops.registered net
  heap := h

/-- One load, with what `xsky_init` returns, and the unload if that is 0. -/
def cycleStep (limit : Nat) (s : Loads ν) (c : Cycle ν) : Option (Int × Loads ν) :=
  let a := { c.answers with allocChrdevRegion := allocChrdevRegion limit s.numbers }
  match Module.unloaded.xskyInit a c.nets s.heap with
  | none => none
  | some (ret, m) =>
    if ret ≠ 0 then some (ret, s.left m s.heap)
    else
      match m.rQueue with
      | none => none
      | some q =>
        match answers deviceStep (.init q) c.calls with
        | none => none
        | some (_, dev) =>
          (m.xskyExit c.nets dev.rQueue).map fun (m, h) => (ret, s.left m h)

/-! ## What it comes to -/

/-- The numbers that are gone, and the devices left with no module behind them. -/
structure Numbers where
  gone : Nat
  devices : Nat

def Numbers.step (limit : Nat) (t : Numbers) (c : Cycle ν) : Int × Numbers :=
  if t.gone < limit then
    if c.answers.classCreate then (0, { t with gone := t.gone + 1 })
    else (-1, ⟨t.gone + 1, t.devices + (decide (c.answers.cdevAdd = 0)).toNat⟩)
  else (-ebusy, t)

omit [DecidableEq ν] in
theorem numbers_gone (limit : Nat) (t : Numbers) (cs : List (Cycle ν)) (ht : t.gone ≤ limit) :
    (replies (Numbers.step limit) t cs).2.gone = min limit (t.gone + cs.length) := by
  induction cs generalizing t with
  | nil =>
    simp only [replies, List.length_nil, Nat.add_zero]
    omega
  | cons c cs ih =>
    have hstep : (Numbers.step limit t c).2.gone = min limit (t.gone + 1) := by
      unfold Numbers.step
      by_cases hlt : t.gone < limit
      · rw [if_pos hlt]
        split
        · simp only
          omega
        · simp only
          omega
      · rw [if_neg hlt]
        simp only
        omega
    have hrest := ih (Numbers.step limit t c).2 (by omega)
    simp only [replies, List.length_cons]
    rw [hrest, hstep]
    omega

/-! ## The heap -/

/-- No cell that was not there has come, and the next one goes to the same place. -/
structure Heap.Within (h h' : Heap) : Prop where
  brk : h'.brk = h.brk
  none : ∀ x, h.cell x = none → h'.cell x = none

theorem Heap.Within.refl (h : Heap) : h.Within h := ⟨rfl, fun _ hx => hx⟩

theorem Heap.store_within {h h' : Heap} {p : Nat} {f : XskyQueueData → XskyQueueData}
    (hs : h.store p f = some h') : h.Within h' where
  brk := Heap.store_brk hs
  none x hx := by
    unfold Heap.store at hs
    split at hs
    · cases hs
    · cases hs
      rw [Heap.update_cell, hx]
      simp

theorem xskyQueuePush_within {m m' : QueueMem} {data : Mem} {size : Nat} {ret : Int}
    (h : xskyQueuePush m data size = some (ret, m')) : m.heap.Within m'.heap := by
  unfold xskyQueuePush at h
  split at h
  · cases h
    exact .refl _
  · obtain ⟨q, hq, heq⟩ := Option.map_eq_some_iff.mp h
    cases heq
    unfold pushLocked at hq
    split at hq
    · cases hq
    · split at hq
      · cases hq
      · rename_i hstore
        cases hq
        exact Heap.store_within hstore

theorem chrRead_heap {dev dev' : Device} {size left : Nat} {ret : Int × List Byte}
    (h : chrRead dev size left = some (ret, dev')) : dev'.rQueue.heap = dev.rQueue.heap := by
  have hpop : ∀ {p q}, xskyQueuePop dev.rQueue = some (p, q) → q.heap = dev.rQueue.heap := by
    intro p q hq
    unfold xskyQueuePop popLocked at hq
    split at hq
    · cases hq
      rfl
    · split at hq
      · cases hq
      · cases hq
        rfl
  unfold chrRead at h
  split at h
  · cases h
  · rename_i p q hq
    split at h
    · cases h
      exact hpop hq
    · obtain ⟨d, -, heq⟩ := Option.map_eq_some_iff.mp h
      cases heq
      exact hpop hq

theorem deviceStep_within {dev dev' : Device} {c : TapCall} {ret : TapRet}
    (h : deviceStep dev c = some (ret, dev')) : dev.rQueue.heap.Within dev'.rQueue.heap := by
  cases c with
  | open_ =>
    cases h
    unfold chrOpen
    split
    · exact .refl _
    · exact .refl _
  | release =>
    cases h
    exact .refl _
  | ioctl cmd arg =>
    cases h
    rw [(LifeInv.chrIoctl_frame dev cmd arg).1]
    exact .refl _
  | packet skb =>
    obtain ⟨⟨v, dev1⟩, hd, heq⟩ := Option.map_eq_some_iff.mp h
    cases heq
    cases skb with
    | none =>
      unfold nfHandleIn at hd
      split at hd
      · cases hd
        exact .refl _
      · cases hd
        exact .refl _
    | some skb =>
      rw [nfHandleIn_eq] at hd
      split at hd
      · obtain ⟨⟨err, q⟩, hpush, heq⟩ := Option.map_eq_some_iff.mp hd
        cases heq
        exact xskyQueuePush_within hpush
      · cases hd
        exact .refl _
  | read size left =>
    obtain ⟨⟨r, dev1⟩, hd, heq⟩ := Option.map_eq_some_iff.mp h
    cases heq
    rw [chrRead_heap hd]
    exact .refl _
  | poll =>
    cases h
    exact .refl _

theorem deviceRun_within {dev dev' : Device} {calls : List TapCall} {rets : List TapRet}
    (h : answers deviceStep dev calls = some (rets, dev')) :
    dev.rQueue.heap.Within dev'.rQueue.heap := by
  induction calls generalizing dev rets with
  | nil =>
    cases h
    exact .refl _
  | cons c calls ih =>
    simp only [answers] at h
    split at h
    · cases h
    · rename_i hstep
      obtain ⟨⟨rets1, dev1⟩, hrest, heq⟩ := Option.map_eq_some_iff.mp h
      cases heq
      have hfirst := deviceStep_within hstep
      have hlater := ih hrest
      exact ⟨hlater.brk.trans hfirst.brk, fun x hx => hlater.none x (hfirst.none x hx)⟩

/-- A cell that is not there and was passed by does not come. -/
theorem initLoop_none (k : Nat) {n x : Nat} {h h' : Heap} {l l' : InitLocals}
    (hl : initLoop k n h l = some (h', l')) (hx : h.cell x = none) (hlt : x < h.brk) :
    h'.cell x = none := by
  induction k generalizing n h l with
  | zero =>
    cases hl
    exact hx
  | succ k ih =>
    have hmalloc : h.malloc.2.cell x = none := by
      rw [Heap.malloc_cell, if_neg (Nat.ne_of_lt hlt), hx]
    have hlt' : x < h.malloc.2.brk := by
      rw [Heap.malloc_brk]
      omega
    rw [initLoop] at hl
    split at hl
    · cases hl
    · simp only at hl
      split at hl
      · exact ih hl hmalloc hlt'
      · split at hl
        · cases hl
        · rename_i h2 hs2
          split at hl
          · cases hl
          · rename_i h3 hs3
            have h12 := Heap.store_within hs2
            have h23 := Heap.store_within hs3
            refine ih hl (h23.none x (h12.none x hmalloc)) ?_
            rw [h23.brk, h12.brk]
            exact hlt'

theorem xskyQueueInit_none {h : Heap} {qsize x : Nat} {m : QueueMem}
    (hm : xskyQueueInit h qsize = some m) (hx : h.cell x = none) (hlt : x < h.brk) :
    m.heap.cell x = none := by
  rw [xskyQueueInit] at hm
  split at hm
  · cases hm
  · rename_i h1 l hl
    split at hm
    · cases hm
    · rename_i h2 hs2
      split at hm
      · cases hm
      · rename_i h3 hs3
        cases hm
        exact (Heap.store_within hs3).none x ((Heap.store_within hs2).none x
          (initLoop_none qsize hl hx hlt))

theorem releaseLoop_brk (list k : Nat) {n tmpA : Nat} {h h' : Heap} {freed : List Nat}
    (hl : releaseLoop list k n tmpA h = some (h', freed)) : h'.brk = h.brk := by
  induction k generalizing n tmpA h freed with
  | zero =>
    cases hl
    rfl
  | succ k ih =>
    rw [releaseLoop] at hl
    split at hl
    · cases hl
    · simp only at hl
      split at hl
      · cases hl
      · split at hl
        · cases hl
        · rename_i h1 hfree
          obtain ⟨⟨h2, freed2⟩, hrest, heq⟩ := Option.map_eq_some_iff.mp hl
          cases heq
          rw [ih hrest]
          unfold Heap.free at hfree
          split at hfree
          · cases hfree
          · cases hfree
            rfl

/-! ## One load -/

/-- Nothing is left behind but numbers and devices, and every cell from `lo` on is free. -/
structure LeftClean (lo : Nat) (s : Loads ν) (t : Numbers) : Prop where
  numbers : s.numbers = t.gone
  devices : s.devices = t.devices
  hooked : ∀ net, s.hooked net = false
  brk : lo ≤ s.heap.brk
  cells : ∀ x, lo ≤ x → s.heap.cell x = none

omit [DecidableEq ν] in
theorem leftClean_start (h : Heap) : LeftClean h.brk (Loads.start (ν := ν) h) ⟨0, 0⟩ where
  numbers := rfl
  devices := rfl
  hooked _ := rfl
  brk := Nat.le_refl _
  cells x hx := h.fresh x hx

theorem xskyInit_created {a : Answers ν} {nets : List ν} {h : Heap} {q : QueueMem}
    (hge : ¬ a.allocChrdevRegion < 0) (hclass : a.classCreate = true)
    (hq : xskyQueueInit h queueSize = some q) :
    Module.unloaded.xskyInit a nets h = some (0, ⟨true, decide (a.cdevAdd = 0), true,
      a.deviceCreate, (nfRegisterHook a.nfOps nets ⟨fun _ => false, []⟩).2,
      (nfRegisterHook a.nf6Ops nets ⟨fun _ => false, []⟩).2, some q⟩) := by
  simp [Module.xskyInit, Module.createDev, Module.unloaded, hge, hclass, hq]

/-- The hook is nowhere but in the namespaces it was to be registered in. -/
theorem nfRegisterHook_outside (answer : ν → Int) {nets : List ν} (reg : HookOps ν) {net : ν}
    (hnet : net ∉ nets) :
    (nfRegisterHook answer nets reg).2.registered net = reg.registered net := by
  obtain hall | ⟨before, last, after, rfl, hbefore, hlast⟩ := tolerated_or_first answer nets
  · rw [nfRegisterHook_all hall]
    simp [rtnlUnlock, rtnlLock, registerAll, HookOps.call, hnet]
  · have hnot : net ∉ before := fun hmem => hnet (List.mem_append_left _ hmem)
    rw [nfRegisterHook_fails hbefore hlast]
    simp [rtnlUnlock, rtnlLock, registerAll, unregisterAll, HookOps.call, hnot]

theorem nfUnregisterHook_registered (nets : List ν) (reg : HookOps ν) (net : ν) :
    (nfUnregisterHook nets reg).registered net =
      if net ∈ nets then false else reg.registered net := by
  have hall : ∀ reg : HookOps ν,
      nets.foldl (fun reg net => nfUnregisterNetHook net reg) reg = unregisterAll nets reg := by
    intro reg
    induction nets generalizing reg with
    | nil => rw [List.foldl_nil, unregisterAll_nil]
    | cons net nets ih => rw [List.foldl_cons, ih, unregisterAll_cons]
  unfold nfUnregisterHook
  rw [hall]
  rfl

/-- Whatever it was registered in, unregistered it is nowhere. -/
theorem unregistered (answer : ν → Int) (nets : List ν) (net : ν) :
    (nfUnregisterHook nets (nfRegisterHook answer nets ⟨fun _ => false, []⟩).2).registered net =
      false := by
  rw [nfUnregisterHook_registered]
  by_cases hnet : net ∈ nets
  · rw [if_pos hnet]
  · rw [if_neg hnet, nfRegisterHook_outside answer _ hnet]

variable {limit lo : Nat} {s : Loads ν} {t : Numbers}

omit [DecidableEq ν] in
/-- A load that gives up leaves what `create_dev` made. -/
theorem LeftClean.failed (h : LeftClean lo s t) (ndev chrDev : Bool) :
    LeftClean lo (s.left { Module.unloaded with ndev := ndev, chrDev := chrDev } s.heap)
      ⟨t.gone + ndev.toNat, t.devices + chrDev.toNat⟩ where
  numbers := by simp only [Loads.left, h.numbers]
  devices := by simp only [Loads.left, h.devices]
  hooked net := by simp [Loads.left, Module.unloaded, h.hooked net]
  brk := h.brk
  cells := h.cells

/-- A load that succeeds, the calls and the unload. -/
theorem LeftClean.loaded (h : LeftClean lo s t) (c : Cycle ν) (hlt : s.numbers < limit)
    (hclass : c.answers.classCreate = true) :
    ∃ s', cycleStep limit s c = some (0, s') ∧ LeftClean lo s' { t with gone := t.gone + 1 } := by
  obtain ⟨q, hq, hrep⟩ := deviceQueue_rep s.heap
  obtain ⟨dev, hdev, htaps⟩ := device_simulates.answers (taps_start hrep) c.calls
  obtain ⟨b, hrep'⟩ := htaps.queue
  obtain ⟨h', hrelease, hfreed, hkept⟩ := hrep'.ring.releases
  obtain ⟨hbrk, -⟩ := xskyQueueInit_brk hq
  have hwithin := deviceRun_within hdev
  have hnumber : ¬ allocChrdevRegion limit s.numbers < 0 := by
    rw [allocChrdevRegion, if_pos hlt]
    omega
  have hinit := @xskyInit_created ν _
    { c.answers with allocChrdevRegion := allocChrdevRegion limit s.numbers }
    c.nets s.heap q hnumber hclass hq
  simp only [cycleStep, hinit, hdev, Module.xskyExit, hrelease, Option.map_some]
  refine ⟨_, rfl, ⟨?_, ?_, fun net => ?_, ?_, fun x hx => ?_⟩⟩
  · simp [Loads.left, Module.deleteDev, h.numbers]
  · simp [Loads.left, Module.deleteDev, h.devices]
  · simp [Loads.left, Module.deleteDev, h.hooked net, unregistered]
  · have hlast : h'.brk = q.heap.brk := (releaseLoop_brk _ _ hrelease).trans hwithin.brk
    have hlo := h.brk
    simp only [Loads.left]
    omega
  · simp only [Loads.left]
    by_cases hnode : x ∈ (List.range queueSize).map fun i => s.heap.brk + i
    · exact hfreed x hnode
    · rw [hkept x hnode]
      by_cases hbefore : x < s.heap.brk
      · exact hwithin.none x (xskyQueueInit_none hq (h.cells x hx) hbefore)
      · -- no node goes past the last of the ring
        have hpast : s.heap.brk + queueSize ≤ x := by
          apply Nat.le_of_not_lt
          intro hin
          exact hnode (mem_nodes.mpr ⟨x - s.heap.brk, by omega, by omega⟩)
        refine dev.rQueue.heap.fresh x ?_
        rw [hwithin.brk]
        show q.heap.brk ≤ x
        omega

theorem cycle_simulates (limit lo : Nat) :
    Simulates (cycleStep (ν := ν) limit) (Numbers.step limit) (LeftClean lo) := by
  intro s t c h
  unfold Numbers.step
  by_cases hlt : t.gone < limit
  · have hnumber : allocChrdevRegion limit s.numbers = 0 := by
      rw [allocChrdevRegion, h.numbers, if_pos hlt]
    rw [if_pos hlt]
    cases hclass : c.answers.classCreate with
    | true => exact h.loaded c (by rw [h.numbers]; exact hlt) hclass
    | false =>
      have hge : ¬ allocChrdevRegion limit s.numbers < 0 := by omega
      have hinit := @xskyInit_class ν _
        { c.answers with allocChrdevRegion := allocChrdevRegion limit s.numbers }
        c.nets s.heap hge hclass
      refine ⟨_, ?_, h.failed true (decide (c.answers.cdevAdd = 0))⟩
      simp only [cycleStep, hinit]
      rfl
  · have hnumber : allocChrdevRegion limit s.numbers = -ebusy := by
      rw [allocChrdevRegion, h.numbers, if_neg hlt]
    have hneg : allocChrdevRegion limit s.numbers < 0 := by
      rw [hnumber]
      decide
    have hinit := @xskyInit_numbers ν _
      { c.answers with allocChrdevRegion := allocChrdevRegion limit s.numbers }
      c.nets s.heap hneg
    rw [if_neg hlt]
    refine ⟨_, ?_, h.failed false false⟩
    simp only [cycleStep, hinit]
    rw [if_pos (Int.ne_of_lt hneg), hnumber]
    rfl

/-- However often the module is loaded, whatever the kernel answers and whatever is called: every
hook is taken out and every node of every ring freed by then, and each load has used up a device
number. When there is no number any more, every load fails. -/
theorem cycles_give_back (limit : Nat) (h : Heap) (cs : List (Cycle ν)) :
    ∃ s, answers (cycleStep limit) (.start h) cs =
        some ((replies (Numbers.step limit) ⟨0, 0⟩ cs).1, s) ∧
      s.numbers = min limit cs.length ∧ (∀ net, s.hooked net = false) ∧
      ∀ x, h.brk ≤ x → s.heap.cell x = none := by
  obtain ⟨s, hs, hclean⟩ := (cycle_simulates limit h.brk).answers (leftClean_start h) cs
  refine ⟨s, hs, ?_, hclean.hooked, hclean.cells⟩
  rw [hclean.numbers, numbers_gone limit ⟨0, 0⟩ cs (Nat.zero_le _), Nat.zero_add]

end

end Dgram
end Xsky
