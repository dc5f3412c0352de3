import Mathlib.Logic.Function.Basic

/-!
# Dgram.Register

`nf_register_hook` of `route/main.c`: a hook registered in every network namespace, and taken out
again where it was registered before when one of them fails.

What `nf_register_net_hook` answers in each namespace is given; it has registered the hook if that
is 0. To unregister a hook that is not registered changes nothing.

* `registerLoop_append` — the first loop goes past the namespaces that answer 0 or `-ENOENT`.
* `rollbackLoop_split`  — the second stops at the namespace the first one stopped at.
* `hook_rolled_back`    — what is registered and what was called in the end, either way.
-/

namespace Xsky
namespace Dgram

def enoent : Int := 2

/-- The first loop goes on behind this answer. -/
def Tolerated (ret : Int) : Prop := ret = 0 ∨ ret = -enoent

instance (ret : Int) : Decidable (Tolerated ret) := inferInstanceAs (Decidable (_ ∨ _))

/-- Every answer is tolerated, or there is a first one that is not. -/
theorem tolerated_or_first {ν : Type _} (answer : ν → Int) (nets : List ν) :
    (∀ net ∈ nets, Tolerated (answer net)) ∨
      ∃ before last after, nets = before ++ last :: after ∧
        (∀ net ∈ before, Tolerated (answer net)) ∧ ¬ Tolerated (answer last) := by
  induction nets with
  | nil => exact .inl fun net hnet => by cases hnet
  | cons net nets ih =>
    by_cases h : Tolerated (answer net)
    · obtain hall | ⟨before, last, after, rfl, hbefore, hlast⟩ := ih
      · exact .inl (List.forall_mem_cons.mpr ⟨h, hall⟩)
      · exact .inr ⟨net :: before, last, after, rfl, List.forall_mem_cons.mpr ⟨h, hbefore⟩, hlast⟩
    · exact .inr ⟨[], net, nets, rfl, List.forall_mem_nil _, h⟩

inductive NetCall (ν : Type _) where
  | lock
  | unlock
  | register (net : ν)
  | unregister (net : ν)
deriving DecidableEq

/-- A hook: the namespaces it is registered in, and the calls made for it so far. -/
structure HookOps (ν : Type _) where
  registered : ν → Bool
  calls : List (NetCall ν)

section Register

variable {ν : Type _} [DecidableEq ν]

def HookOps.call (reg : HookOps ν) (c : NetCall ν) : HookOps ν :=
  { reg with calls := reg.calls ++ [c] }

def rtnlLock (reg : HookOps ν) : HookOps ν := reg.call .lock

def rtnlUnlock (reg : HookOps ν) : HookOps ν := reg.call .unlock

def nfRegisterNetHook (answer : ν → Int) (net : ν) (reg : HookOps ν) : Int × HookOps ν :=
  let registered :=
    if answer net = 0 then Function.update reg.registered net true else reg.registered
  (answer net, { reg with registered := registered }.call (.register net))

def nfUnregisterNetHook (net : ν) (reg : HookOps ν) : HookOps ν :=
  { reg with registered := Function.update reg.registered net false }.call (.unregister net)

/-- The first `for_each_net`, with `net` and `ret` when it leaves for `rollback`. -/
def registerLoop (answer : ν → Int) : List ν → HookOps ν → Option (ν × Int) × HookOps ν
  | [], reg => (none, reg)
  | net :: nets, reg =>
    let (ret, reg) := nfRegisterNetHook answer net reg
    if ret ≠ 0 ∧ ret ≠ -enoent then (some (net, ret), reg) else registerLoop answer nets reg

/-- The second one. -/
def rollbackLoop (last : ν) : List ν → HookOps ν → HookOps ν
  | [], reg => reg
  | net :: nets, reg =>
    if net = last then reg else rollbackLoop last nets (nfUnregisterNetHook net reg)

def nfRegisterHook (answer : ν → Int) (nets : List ν) (reg : HookOps ν) : Int × HookOps ν :=
  match registerLoop answer nets (rtnlLock reg) with
  | (none, reg) => (0, rtnlUnlock reg)
  | (some (last, ret), reg) => (ret, rtnlUnlock (rollbackLoop last nets reg))

/-! ## The two loops -/

/-- The hook after a registration in each of `nets`. -/
def registerAll (answer : ν → Int) (nets : List ν) (reg : HookOps ν) : HookOps ν where
  registered := fun net => if net ∈ nets ∧ answer net = 0 then true else reg.registered net
  calls := reg.calls ++ nets.map .register

/-- The hook after it was unregistered in each of `nets`. -/
def unregisterAll (nets : List ν) (reg : HookOps ν) : HookOps ν where
  registered := fun net => if net ∈ nets then false else reg.registered net
  calls := reg.calls ++ nets.map .unregister

variable {answer : ν → Int}

theorem registerAll_nil (reg : HookOps ν) : registerAll answer [] reg = reg := by
  simp [registerAll]

theorem registerAll_cons (net : ν) (nets : List ν) (reg : HookOps ν) :
    registerAll answer nets (nfRegisterNetHook answer net reg).2 =
      registerAll answer (net :: nets) reg := by
  simp only [registerAll, nfRegisterNetHook, HookOps.call, HookOps.mk.injEq]
  constructor
  · funext x
    by_cases hx : x = net
    · subst hx
      by_cases h0 : answer x = 0 <;> simp [h0]
    · by_cases h0 : answer net = 0 <;> simp [h0, hx]
  · simp

theorem unregisterAll_nil (reg : HookOps ν) : unregisterAll [] reg = reg := by
  simp [unregisterAll]

theorem unregisterAll_cons (net : ν) (nets : List ν) (reg : HookOps ν) :
    unregisterAll nets (nfUnregisterNetHook net reg) = unregisterAll (net :: nets) reg := by
  simp only [unregisterAll, nfUnregisterNetHook, HookOps.call, HookOps.mk.injEq]
  constructor
  · funext x
    by_cases hx : x = net
    · simp [hx]
    · simp [hx]
  · simp

/-- One iteration of the first loop. -/
theorem registerLoop_cons (net : ν) (nets : List ν) (reg : HookOps ν) :
    registerLoop answer (net :: nets) reg =
      if Tolerated (answer net) then registerLoop answer nets (nfRegisterNetHook answer net reg).2
      else (some (net, answer net), (nfRegisterNetHook answer net reg).2) := by
  have hleave : (answer net ≠ 0 ∧ answer net ≠ -enoent) ↔ ¬ Tolerated (answer net) := by
    rw [Tolerated, not_or]
  simp only [registerLoop, nfRegisterNetHook, hleave]
  by_cases h : Tolerated (answer net)
  · rw [if_neg (not_not.mpr h), if_pos h]
  · rw [if_pos h, if_neg h]

theorem registerLoop_append {before : List ν} (h : ∀ net ∈ before, Tolerated (answer net))
    (rest : List ν) (reg : HookOps ν) :
    registerLoop answer (before ++ rest) reg =
      registerLoop answer rest (registerAll answer before reg) := by
  induction before generalizing reg with
  | nil => rw [registerAll_nil, List.nil_append]
  | cons net before ih =>
    rw [List.cons_append, registerLoop_cons, if_pos (h net (by simp)),
      ih (fun x hx => h x (by simp [hx])), registerAll_cons]

theorem rollbackLoop_split {before : List ν} {last : ν} (h : last ∉ before) (after : List ν)
    (reg : HookOps ν) :
    rollbackLoop last (before ++ last :: after) reg = unregisterAll before reg := by
  induction before generalizing reg with
  | nil => rw [List.nil_append, rollbackLoop, if_pos rfl, unregisterAll_nil]
  | cons net before ih =>
    have hne : net ≠ last := fun he => h (by simp [he])
    rw [List.cons_append, rollbackLoop, if_neg hne, ih fun hmem => h (by simp [hmem]),
      unregisterAll_cons]

theorem nfRegisterHook_all {nets : List ν} (h : ∀ net ∈ nets, Tolerated (answer net))
    (reg : HookOps ν) :
    nfRegisterHook answer nets reg = (0, rtnlUnlock (registerAll answer nets (rtnlLock reg))) := by
  have hloop := registerLoop_append h [] (rtnlLock reg)
  rw [List.append_nil, registerLoop] at hloop
  rw [nfRegisterHook, hloop]

theorem nfRegisterHook_fails {before after : List ν} {last : ν}
    (h : ∀ net ∈ before, Tolerated (answer net)) (hlast : ¬ Tolerated (answer last))
    (reg : HookOps ν) :
    nfRegisterHook answer (before ++ last :: after) reg =
      (answer last, rtnlUnlock (unregisterAll before
        ((registerAll answer before (rtnlLock reg)).call (.register last)))) := by
  have hnew : last ∉ before := fun hmem => hlast (h last hmem)
  have h0 : answer last ≠ 0 := fun h0 => hlast (.inl h0)
  rw [nfRegisterHook, registerLoop_append h, registerLoop_cons, if_neg hlast]
  simp only [rollbackLoop_split hnew, nfRegisterNetHook, if_neg h0]

/-! ## What is left in the end -/

/-- The hook is in each namespace that did not answer `-ENOENT`. -/
structure Registered (answer : ν → Int) (nets : List ν) (reg reg' : HookOps ν) : Prop where
  calls : reg'.calls = reg.calls ++ .lock :: nets.map .register ++ [.unlock]
  registered : ∀ net ∈ nets, answer net ≠ -enoent → reg'.registered net = true
  other : ∀ net, (net ∈ nets → answer net = -enoent) → reg'.registered net = reg.registered net

/-- The calls under the lock when `last` is the first to fail. -/
def rollbackCalls (before : List ν) (last : ν) : List (NetCall ν) :=
  before.map .register ++ .register last :: before.map .unregister

/-- The hook is taken out of the namespaces before `last`, the first that failed; that one and those
after it are as they were. -/
structure RolledBack (answer : ν → Int) (before : List ν) (last : ν) (after : List ν)
    (reg reg' : HookOps ν) : Prop where
  tolerated : ∀ net ∈ before, Tolerated (answer net)
  fails : ¬ Tolerated (answer last)
  calls : reg'.calls = reg.calls ++ .lock :: rollbackCalls before last ++ [.unlock]
  removed : ∀ net ∈ before, reg'.registered net = false
  untouched : ∀ net ∈ last :: after, reg'.registered net = reg.registered net ∧
    .unregister net ∉ rollbackCalls before last

def RegistersOrRollsBack (answer : ν → Int) (nets : List ν) (reg : HookOps ν) :
    Int × HookOps ν → Prop
  | (ret, reg') =>
    (ret = 0 ∧ Registered answer nets reg reg') ∨
      ∃ before last after, nets = before ++ last :: after ∧ ret = answer last ∧
        RolledBack answer before last after reg reg'

/-- `nf_register_hook` in every list of namespaces, whatever each answers. The lock is released
once, by the last call. -/
theorem hook_rolled_back (answer : ν → Int) (nets : List ν) (reg : HookOps ν) (hnd : nets.Nodup) :
    RegistersOrRollsBack answer nets reg (nfRegisterHook answer nets reg) := by
  obtain hall | ⟨before, last, after, rfl, hbefore, hlast⟩ := tolerated_or_first answer nets
  · rw [nfRegisterHook_all hall]
    refine .inl ⟨rfl, ?_, fun net hnet hne => ?_, fun net hno => ?_⟩
    · simp [rtnlUnlock, rtnlLock, registerAll, HookOps.call]
    · have h0 := (hall net hnet).resolve_right hne
      simp [rtnlUnlock, rtnlLock, registerAll, HookOps.call, hnet, h0]
    · have hnot : ¬ (net ∈ nets ∧ answer net = 0) := by
        rintro ⟨hnet, h0⟩
        have := hno hnet
        rw [enoent] at this
        omega
      simp only [rtnlUnlock, rtnlLock, registerAll, HookOps.call, if_neg hnot]
  · rw [nfRegisterHook_fails hbefore hlast]
    refine .inr ⟨before, last, after, rfl, rfl, hbefore, hlast, ?_, fun net hnet => ?_,
      fun net hnet => ?_⟩
    · simp [rtnlUnlock, rtnlLock, registerAll, unregisterAll, HookOps.call, rollbackCalls]
    · simp only [rtnlUnlock, unregisterAll, HookOps.call, if_pos hnet]
    · have hnot : net ∉ before := fun hmem =>
        (List.nodup_append.mp hnd).2.2 net hmem net hnet rfl
      constructor
      · simp [rtnlUnlock, rtnlLock, registerAll, unregisterAll, HookOps.call, hnot]
      · simp [rollbackCalls, hnot]

/-- The second of four namespaces has no table for the hook, and the third fails. -/
theorem hook_rolled_back_third :
    RegistersOrRollsBack (fun net => [0, -2, -12, 0].getD net 0) [0, 1, 2, 3]
      ⟨fun _ => false, []⟩
      (nfRegisterHook (fun net => [0, -2, -12, 0].getD net 0) [0, 1, 2, 3]
        ⟨fun _ => false, []⟩) :=
  hook_rolled_back _ _ _ (by decide)

end Register

end Dgram
end Xsky
