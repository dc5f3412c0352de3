import Xsky.Dgram.Register
import Xsky.Dgram.Lifecycle

/-!
# Dgram.Init

`xsky_init` of `route/main.c`, with whatever the kernel answers to the calls it makes: the numbers
of the character device, the device, its class and node, and the two hooks in every network
namespace. Memory is always there.

What `create_dev` has made stays when the class fails, and what `cdev_add`, `device_create` and
`nf_register_hook` answer is dropped. `init_atomic_iff` says which answers leave all of it in place
or none, and `xskyInit_life` that the former is what `Life` starts from.
-/

namespace Xsky
namespace Dgram

open Kit

/-- What the calls answer: an error is below 0. -/
structure Answers (ν : Type _) where
  allocChrdevRegion : Int
  cdevAdd : Int
  /-- `IS_ERR` is false of what `class_create` returns, or `device_create`. -/
  classCreate : Bool
  deviceCreate : Bool
  nfOps : ν → Int
  nf6Ops : ν → Int

/-- What of the module the kernel knows, and the queue behind `poll`. -/
structure Module (ν : Type _) where
  ndev : Bool
  chrDev : Bool
  devClass : Bool
  device : Bool
  nfOps : HookOps ν
  nf6Ops : HookOps ν
  rQueue : Option QueueMem

def Module.unloaded {ν : Type _} : Module ν where
  ndev := false
  chrDev := false
  devClass := false
  device := false
  nfOps := ⟨fun _ => false, []⟩
  nf6Ops := ⟨fun _ => false, []⟩
  rQueue := none

section Init

variable {ν : Type _} [DecidableEq ν]

def Module.createDev (a : Answers ν) (m : Module ν) : Int × Module ν :=
  if a.allocChrdevRegion < 0 then (a.allocChrdevRegion, m)
  else
    let m := { m with ndev := true, chrDev := decide (a.cdevAdd = 0) }
    if a.classCreate then (0, { m with devClass := true, device := a.deviceCreate })
    else (-1, m)

/-- `h` is the memory the queue is made in. -/
def Module.xskyInit (a : Answers ν) (nets : List ν) (h : Heap) (m : Module ν) :
    Option (Int × Module ν) :=
  let (ret, m) := m.createDev a
  if ret ≠ 0 then some (ret, m)
  else
    let m := { m with nfOps := (nfRegisterHook a.nfOps nets m.nfOps).2 }
    let m := { m with nf6Ops := (nfRegisterHook a.nf6Ops nets m.nf6Ops).2 }
    (xskyQueueInit h queueSize).map fun q => (0, { m with rQueue := some q })

/-- All that `xsky_init` is to set up. -/
structure Module.Complete (a : Answers ν) (nets : List ν) (m : Module ν) : Prop where
  device : m.ndev = true ∧ m.chrDev = true ∧ m.devClass = true ∧ m.device = true
  nfOps : ∀ net ∈ nets, a.nfOps net ≠ -enoent → m.nfOps.registered net = true
  nf6Ops : ∀ net ∈ nets, a.nf6Ops net ≠ -enoent → m.nf6Ops.registered net = true
  queue : ∃ q node, m.rQueue = some q ∧ Rep q queueSize node 0 []

structure Module.Clean (m : Module ν) : Prop where
  device : m.ndev = false ∧ m.chrDev = false ∧ m.devClass = false ∧ m.device = false
  nfOps : ∀ net, m.nfOps.registered net = false
  nf6Ops : ∀ net, m.nf6Ops.registered net = false

/-- A call that returns, with all set up if that is 0 and with nothing left otherwise. -/
def InitAtomic (a : Answers ν) (nets : List ν) (res : Option (Int × Module ν)) : Prop :=
  ∃ ret m, res = some (ret, m) ∧ (ret = 0 → m.Complete a nets) ∧ (ret ≠ 0 → m.Clean)

/-- The hook is where it should be exactly when no namespace failed. -/
theorem registered_iff (answer : ν → Int) (nets : List ν) :
    (∀ net ∈ nets, answer net ≠ -enoent →
      (nfRegisterHook answer nets ⟨fun _ => false, []⟩).2.registered net = true) ↔
      ∀ net ∈ nets, Tolerated (answer net) := by
  obtain hall | ⟨before, last, after, rfl, hbefore, hlast⟩ := tolerated_or_first answer nets
  · refine ⟨fun _ => hall, fun _ net hnet hne => ?_⟩
    have h0 := (hall net hnet).resolve_right hne
    rw [nfRegisterHook_all hall]
    simp [rtnlUnlock, rtnlLock, registerAll, HookOps.call, hnet, h0]
  · constructor
    · intro hreg
      have hmem : last ∈ before ++ last :: after := by simp
      have hnew : last ∉ before := fun hin => hlast (hbefore last hin)
      have := hreg last hmem fun he => hlast (.inr he)
      rw [nfRegisterHook_fails hbefore hlast] at this
      simp [rtnlUnlock, rtnlLock, registerAll, unregisterAll, HookOps.call, hnew] at this
    · intro hall
      exact absurd (hall last (by simp)) hlast

/-- The answers `xsky_init` is made for: the numbers fail, at once, or nothing does. -/
def Answers.Fit (a : Answers ν) (nets : List ν) : Prop :=
  a.allocChrdevRegion < 0 ∨
    (a.cdevAdd = 0 ∧ a.classCreate = true ∧ a.deviceCreate = true ∧
      ∀ net ∈ nets, Tolerated (a.nfOps net) ∧ Tolerated (a.nf6Ops net))

variable {a : Answers ν} {nets : List ν} {h : Heap}

theorem xskyInit_numbers (hneg : a.allocChrdevRegion < 0) :
    Module.unloaded.xskyInit a nets h = some (a.allocChrdevRegion, Module.unloaded) := by
  have hne : a.allocChrdevRegion ≠ 0 := by omega
  simp only [Module.xskyInit, Module.createDev, if_pos hneg, if_pos hne]

/-- The numbers and the device stay behind. -/
theorem xskyInit_class (hge : ¬ a.allocChrdevRegion < 0) (hclass : a.classCreate = false) :
    Module.unloaded.xskyInit a nets h =
      some (-1, { Module.unloaded with ndev := true, chrDev := decide (a.cdevAdd = 0) }) := by
  simp [Module.xskyInit, Module.createDev, hge, hclass]

theorem xskyInit_class_created (hge : ¬ a.allocChrdevRegion < 0) (hclass : a.classCreate = true) :
    ∃ m q, xskyQueueInit h queueSize = some q ∧ m.rQueue = some q ∧ m.device = a.deviceCreate ∧
      Module.unloaded.xskyInit a nets h = some (0, m) ∧
      (m.Complete a nets ↔ a.cdevAdd = 0 ∧ a.deviceCreate = true ∧
        ∀ net ∈ nets, Tolerated (a.nfOps net) ∧ Tolerated (a.nf6Ops net)) := by
  obtain ⟨q, hq, hrep⟩ := deviceQueue_rep h
  have hops := registered_iff a.nfOps nets
  have hops6 := registered_iff a.nf6Ops nets
  refine ⟨⟨true, decide (a.cdevAdd = 0), true, a.deviceCreate,
    (nfRegisterHook a.nfOps nets ⟨fun _ => false, []⟩).2,
    (nfRegisterHook a.nf6Ops nets ⟨fun _ => false, []⟩).2, some q⟩, q, hq, rfl, rfl, ?_, ?_⟩
  · simp [Module.xskyInit, Module.createDev, Module.unloaded, hge, hclass, hq]
  · constructor
    · rintro ⟨⟨-, hcdev, -, hdevice⟩, hreg, hreg6, -⟩
      have hall := hops.mp hreg
      have hall6 := hops6.mp hreg6
      exact ⟨of_decide_eq_true hcdev, hdevice, fun net hnet => ⟨hall net hnet, hall6 net hnet⟩⟩
    · rintro ⟨hcdev, hdevice, hall⟩
      refine ⟨⟨rfl, decide_eq_true hcdev, rfl, hdevice⟩, ?_, ?_, q, _, rfl, hrep⟩
      · exact hops.mpr fun net hnet => (hall net hnet).1
      · exact hops6.mpr fun net hnet => (hall net hnet).2

/-- All of it or none, for any namespaces and any answers: only when the numbers fail, or when no
call does. -/
theorem init_atomic_iff (a : Answers ν) (nets : List ν) (h : Heap) :
    InitAtomic a nets (Module.unloaded.xskyInit a nets h) ↔ a.Fit nets := by
  by_cases hneg : a.allocChrdevRegion < 0
  · rw [xskyInit_numbers hneg]
    refine ⟨fun _ => .inl hneg, fun _ => ⟨_, _, rfl, fun h0 => by omega, fun _ => ?_⟩⟩
    exact ⟨⟨rfl, rfl, rfl, rfl⟩, fun _ => rfl, fun _ => rfl⟩
  · cases hclass : a.classCreate with
    | false =>
      rw [xskyInit_class hneg hclass]
      constructor
      · rintro ⟨ret, m, heq, -, hclean⟩
        cases heq
        have hndev := (hclean (by omega)).device.1
        cases hndev
      · rintro (hlt | ⟨-, hcreated, -⟩)
        · exact absurd hlt hneg
        · rw [hclass] at hcreated
          cases hcreated
    | true =>
      obtain ⟨m, -, -, -, -, hm, hcomplete⟩ :=
        @xskyInit_class_created ν _ a nets h hneg hclass
      rw [hm]
      constructor
      · rintro ⟨ret, m', heq, hdone, -⟩
        cases heq
        obtain ⟨hcdev, hdevice, hall⟩ := hcomplete.mp (hdone rfl)
        exact .inr ⟨hcdev, hclass, hdevice, hall⟩
      · rintro (hlt | ⟨hcdev, -, hdevice, hall⟩)
        · exact absurd hlt hneg
        · exact ⟨0, m, rfl, fun _ => hcomplete.mpr ⟨hcdev, hdevice, hall⟩,
            fun hne => absurd rfl hne⟩

/-- With answers that fit, and numbers for the device, the call leaves what its five steps leave in
`Life`. -/
theorem xskyInit_life (hge : ¬ a.allocChrdevRegion < 0) (hfit : a.Fit nets) (h : Heap) :
    ∃ m s, Module.unloaded.xskyInit a nets h = some (0, m) ∧ m.Complete a nets ∧
      run lifeStep (.start h) [.init, .init, .init, .init, .init] = some s ∧
      s.openable = m.device ∧ s.hook4 = true ∧ s.hook6 = true ∧ s.poll = .ready ∧
      m.rQueue = some s.dev.rQueue := by
  obtain hlt | ⟨hcdev, hclass, hdevice, hall⟩ := hfit
  · exact absurd hlt hge
  · obtain ⟨m, q, hq, hqueue, hdev, hm, hcomplete⟩ :=
      @xskyInit_class_created ν _ a nets h hge hclass
    have hrun : run lifeStep (.start h) [.init, .init, .init, .init, .init] =
        some { Life.start h with
          initAt := 5, openable := true, hook4 := true, hook6 := true, poll := .ready,
          dev := { (Life.start h).dev with rQueue := q } } := by
      simp [run, lifeStep, xskyInit, hq, Life.start, Device.init]
    refine ⟨m, _, hm, hcomplete.mpr ⟨hcdev, hdevice, hall⟩, hrun, ?_, rfl, rfl, rfl, hqueue⟩
    rw [hdev, hdevice]

/-- One of two namespaces has no memory for the hook of IPv6: the module loads with that hook taken
out again. Or the class fails, and the device stays. -/
theorem init_not_atomic :
    let a : Answers Nat := ⟨0, 0, true, true, fun _ => 0, fun net => if net = 1 then -12 else 0⟩
    let b : Answers Nat := ⟨0, 0, false, true, fun _ => 0, fun _ => 0⟩
    ¬ InitAtomic a [0, 1] (Module.unloaded.xskyInit a [0, 1] Heap.empty) ∧
      ¬ InitAtomic b [0, 1] (Module.unloaded.xskyInit b [0, 1] Heap.empty) := by
  intro a b
  constructor
  · obtain ⟨m, -, -, -, -, hm, hcomplete⟩ :=
      @xskyInit_class_created Nat _ a [0, 1] Heap.empty (by decide) rfl
    rw [hm]
    rintro ⟨ret, m', heq, hdone, -⟩
    cases heq
    have htolerated : Tolerated (a.nf6Ops 1) := ((hcomplete.mp (hdone rfl)).2.2 1 (by simp)).2
    exact absurd htolerated (by decide)
  · have hm := @xskyInit_class Nat _ b [0, 1] Heap.empty (by decide) rfl
    rw [hm]
    rintro ⟨ret, m', heq, -, hclean⟩
    cases heq
    have hdev := (hclean (by omega)).device.2.1
    cases hdev

end Init

end Dgram
end Xsky
