import Xsky.Kit.Runs
import Xsky.Sky.RoundTrip
import Xsky.Sky.Hooks

/-!
# Sky.Handles

The `sky_dev` character device of `server/server.c`, and the packets that pass while it is open.

`file_open_sky` registers the route hook for every handle, and netfilter calls it once for every
registration: `applied_once_iff` says in which runs a packet still meets it once. A second call
takes the payload back to what it was (`two_handles_plaintext`).
-/

namespace Xsky
namespace Sky

open Kit

/-! ## The device -/

/-- `CMD_ROUTE_SKY`: `_IOW( 'd', 3, unsigned int )` -/
def cmdRouteSky : BitVec 32 := 0x40046403

/-- The open handles, the registrations of the hook, and `device_sky->servers`. -/
structure SkyFiles where
  handles : List Nat
  hooks : Nat
  servers : BitVec 32

/-- `nf_register_net_hooks` adds a call, when it succeeds; what it returns is not looked at. -/
def fileOpenSky (s : SkyFiles) (handle : Nat) (registers : Bool) : SkyFiles :=
  { s with
    handles := handle :: s.handles
    hooks := if registers then s.hooks + 1 else s.hooks }

/-- `nf_unregister_net_hooks` takes a call away, if there is one. -/
def fileReleaseSky (s : SkyFiles) (handle : Nat) : SkyFiles :=
  { s with handles := s.handles.erase handle, hooks := s.hooks - 1 }

def fileControlSky (s : SkyFiles) (cmd : BitVec 32) (arg : BitVec 64) : SkyFiles :=
  if cmd = cmdRouteSky then { s with servers := arg.setWidth 32 } else s

/-- A packet of at most 65535 bytes, with the stack of each call it meets. -/
structure Passing where
  skb : SkBuff
  len_lt : skb.len < 2 ^ 16
  frames : Nat → RouteFrame

inductive SkyCall where
  | open_ (handle : Nat) (registers : Bool)
  | release (handle : Nat)
  | control (cmd : BitVec 32) (arg : BitVec 64)
  | packet (p : Passing)

/-- As the device is before the first `open`. -/
def SkyFiles.start : SkyFiles := ⟨[], 0, 0⟩

/-- A handle is opened once and released when open; `none` for any other call. -/
def skyStep (s : SkyFiles) : SkyCall → Option SkyFiles
  | .open_ handle registers =>
    if handle ∈ s.handles then none else some (fileOpenSky s handle registers)
  | .release handle => if handle ∈ s.handles then some (fileReleaseSky s handle) else none
  | .control cmd arg => some (fileControlSky s cmd arg)
  | .packet _ => some s

/-! ## Packets -/

/-- The packet through `n` calls of the hook: how many there were, and what the last one returned.
A call that does not accept the packet is the last one. -/
def traverse (k : Kernel) (servers : BitVec 32) :
    Nat → (Nat → RouteFrame) → SkBuff → Nat × Option (Verdict × SkBuff)
  | 0, _, skb => (0, some (.accept, skb))
  | n + 1, frames, skb =>
    match routePreRoutingSky k (frames 0) servers skb with
    | some (.accept, skb') =>
      let rest := traverse k servers n (fun i => frames (i + 1)) skb'
      (rest.1 + 1, rest.2)
    | res => (1, res)

/-- The hook is applied to a packet once while a handle is open, and not at all otherwise. -/
def AppliedOnce (k : Kernel) (s : SkyFiles) : SkyCall → Prop
  | .packet p =>
    traverse k s.servers s.hooks p.frames p.skb =
      if s.handles = [] then (0, some (.accept, p.skb))
      else (1, routePreRoutingSky k (p.frames 0) s.servers p.skb)
  | _ => True

/-- `set_toa_data_sky` makes the kernel panic: no headroom for the option, a TCP header of less than
20 bytes, or a packet that ends within its headers. -/
def Cramped (skb : SkBuff) : Prop :=
  skb.data < tcpolenV4Sky ∨ tcpDoff skb.mem skb.transportHeader * 4 < tcphdrSize ∨ skb.dataLen < 0

/-- No second call can follow: the packet cannot be linearized, or is a SYN the kernel panics on. -/
def Stops (frame : RouteFrame) (skb : SkBuff) : Prop :=
  isLocalAddr skb.mem (skb.networkHeader + 16) = false ∧
    ipProtocol skb.mem skb.networkHeader = 6 ∧
    (skb.frags ≠ [] ∧ frame.linearizes = false ∨
      (tcpSyn skb.flat.mem skb.flat.transportHeader &&
        !tcpAck skb.flat.mem skb.flat.transportHeader) = true ∧ Cramped skb.flat)

theorem finish_some (k : Kernel) (skb : SkBuff) (hlen : skb.len < 2 ^ 17) :
    ∃ out, finish k skb = some out := by
  have hihl : ipIhl skb.mem skb.networkHeader < 16 := Nat.mod_lt _ (by omega)
  have hbyte := (skb.mem (skb.transportHeader + 12)).isLt
  have hdoff : tcpDoff skb.mem skb.transportHeader =
      (skb.mem (skb.transportHeader + 12)).toNat / 16 := rfl
  have hle : skb.dataLen ≤ 2 ^ 30 := by
    rw [SkBuff.dataLen, Int.bmod_eq_of_le (by omega) (by omega)]
    omega
  obtain ⟨m, c, hm, _⟩ := finish_spec k skb hle
  exact ⟨_, hm⟩

/-- The endpoint the hook writes to its variable, over what is there. -/
def RouteFrame.toa (frame : RouteFrame) (skb : SkBuff) : SkyData :=
  { frame.toaData with
    addr := ipDaddr skb.mem skb.networkHeader
    port := tcpDest skb.mem skb.transportHeader
    code := tcpoptV4Sky
    size := BitVec.ofNat 8 tcpolenV4Sky }

/-- `set_toa_data_sky` with an IPv4 endpoint. -/
theorem setToaDataSky_cases (slot : Mem) (skb : SkBuff) {toa : SkyData}
    (hcode : toa.code = tcpoptV4Sky) :
    (Cramped skb ∧ setToaDataSky slot skb toa = none) ∨
      (¬ Cramped skb ∧ ∃ out, setToaDataSky slot skb toa = some out ∧ out.len = skb.len + 8) := by
  simp only [setToaDataSky, hcode, if_true, SkBuff.push, Cramped]
  by_cases hroom : tcpolenV4Sky ≤ skb.data
  · simp only [if_pos hroom]
    by_cases hneg :
        ((tcpDoff skb.mem skb.transportHeader * 4 : Nat) : Int) - (tcphdrSize : Nat) < 0 ∨
          skb.dataLen < 0
    · refine .inl ⟨?_, by rw [if_pos hneg]⟩
      omega
    · refine .inr ⟨?_, ?_⟩
      · omega
      · rw [if_neg hneg]
        exact ⟨_, rfl, rfl⟩
  · simp only [if_neg hroom]
    refine .inl ⟨?_, trivial⟩
    omega

/-- A call accepts a packet that does not stop it. -/
theorem route_accepts_iff (k : Kernel) (frame : RouteFrame) (servers : BitVec 32) {skb : SkBuff}
    (hlen : skb.len < 2 ^ 16) :
    (∃ out, routePreRoutingSky k frame servers skb = some (.accept, out)) ↔ ¬ Stops frame skb := by
  have hflat := skb.flat_len
  simp only [routePreRoutingSky, Stops]
  by_cases hlocal : isLocalAddr skb.mem (skb.networkHeader + 16) = true
  · rw [if_pos hlocal, hlocal]
    exact ⟨fun _ h => Bool.noConfusion h.1, fun _ => ⟨_, rfl⟩⟩
  · rw [if_neg hlocal]
    by_cases hproto : ipProtocol skb.mem skb.networkHeader = 6
    · rw [if_pos hproto]
      by_cases hpaged : skb.frags ≠ [] ∧ frame.linearizes = false
      · rw [if_pos hpaged]
        constructor
        · rintro ⟨out, hout⟩
          cases hout
        · intro h
          exact absurd ⟨by simpa using hlocal, hproto, .inl hpaged⟩ h
      · rw [if_neg hpaged]
        split
        · rename_i hsyn
          have hcode : (frame.toa skb.flat).code = tcpoptV4Sky := rfl
          obtain ⟨hcramped, hnone⟩ | ⟨hroomy, out, hout, houtlen⟩ :=
            setToaDataSky_cases frame.toaSlot skb.flat hcode
          · simp only [RouteFrame.toa] at hnone
            rw [hnone]
            constructor
            · rintro ⟨out, hout⟩
              cases hout
            · intro h
              exact absurd ⟨by simpa using hlocal, hproto, .inr ⟨hsyn, hcramped⟩⟩ h
          · simp only [RouteFrame.toa] at hout
            rw [hout]
            have hrewrite : (rewrite out servers portSky).len = skb.len + 8 := by
              rw [← hflat]
              exact houtlen
            obtain ⟨out', hout'⟩ := finish_some k (rewrite out servers portSky) (by omega)
            simp only [hout', Option.map_some]
            refine ⟨fun _ h => ?_, fun _ => ⟨_, rfl⟩⟩
            obtain hp | ⟨_, hc⟩ := h.2.2
            · exact hpaged hp
            · exact hroomy hc
        · rename_i hsyn
          obtain ⟨out, hout⟩ := finish_some k skb.flat (by omega)
          simp only [hout, Option.map_some]
          refine ⟨fun _ h => ?_, fun _ => ⟨_, rfl⟩⟩
          obtain hp | ⟨hs, _⟩ := h.2.2
          · exact hpaged hp
          · exact hsyn hs
    · rw [if_neg hproto]
      exact ⟨fun _ h => hproto h.2.1, fun _ => ⟨_, rfl⟩⟩

/-! ## Calls of the hook -/

section Calls

variable {k : Kernel} {servers : BitVec 32} {frames : Nat → RouteFrame} {skb : SkBuff}

theorem traverse_accepted {n : Nat} {out : SkBuff}
    (h : routePreRoutingSky k (frames 0) servers skb = some (.accept, out)) :
    traverse k servers (n + 1) frames skb =
      ((traverse k servers n (fun i => frames (i + 1)) out).1 + 1,
        (traverse k servers n (fun i => frames (i + 1)) out).2) := by
  simp only [traverse, h]

theorem traverse_stopped {n : Nat}
    (h : ¬ ∃ out, routePreRoutingSky k (frames 0) servers skb = some (.accept, out)) :
    traverse k servers (n + 1) frames skb = (1, routePreRoutingSky k (frames 0) servers skb) := by
  simp only [traverse]
  split
  · rename_i out hout
    exact absurd ⟨out, hout⟩ h
  · rfl

theorem traverse_one :
    traverse k servers 1 frames skb = (1, routePreRoutingSky k (frames 0) servers skb) := by
  by_cases h : ∃ out, routePreRoutingSky k (frames 0) servers skb = some (.accept, out)
  · obtain ⟨out, hout⟩ := h
    rw [traverse_accepted hout, hout]
    rfl
  · exact traverse_stopped h

theorem traverse_pos (n : Nat) : 0 < (traverse k servers (n + 1) frames skb).1 := by
  by_cases h : ∃ out, routePreRoutingSky k (frames 0) servers skb = some (.accept, out)
  · obtain ⟨out, hout⟩ := h
    rw [traverse_accepted hout]
    exact Nat.succ_pos _
  · rw [traverse_stopped h]
    exact Nat.one_pos

/-- One call is made of `n` when there is one, or the first is the last. -/
theorem traverse_once_iff (hlen : skb.len < 2 ^ 16) (n : Nat) :
    traverse k servers n frames skb = (1, routePreRoutingSky k (frames 0) servers skb) ↔
      n = 1 ∨ 1 < n ∧ Stops (frames 0) skb := by
  match n with
  | 0 =>
    constructor
    · intro h
      cases congrArg Prod.fst h
    · omega
  | 1 => exact ⟨fun _ => .inl rfl, fun _ => traverse_one⟩
  | n + 2 =>
    have haccepts := route_accepts_iff k (frames 0) servers hlen
    constructor
    · intro h
      refine .inr ⟨by omega, Classical.byContradiction fun hgoes => ?_⟩
      obtain ⟨out, hout⟩ := haccepts.mpr hgoes
      rw [traverse_accepted hout] at h
      have hone := congrArg Prod.fst h
      have hpos := @traverse_pos k servers (fun i => frames (i + 1)) out n
      simp only at hone
      omega
    · intro h
      have hstops : Stops (frames 0) skb := by
        obtain h | h := h
        · omega
        · exact h.2
      exact traverse_stopped fun hacc => haccepts.mp hacc hstops

end Calls

/-! ## Runs -/

/-- No handle is open; or the hook is registered once, or its first call ends the packet. -/
def OneCall (s : SkyFiles) : SkyCall → Prop
  | .packet p =>
    s.handles = [] ∨ s.hooks = 1 ∨ 1 < s.hooks ∧ Stops (p.frames 0) p.skb
  | _ => True

/-- At most one handle is open, or the first call of the hook ends the packet. -/
def OneHandle (s : SkyFiles) : SkyCall → Prop
  | .packet p => s.handles.length ≤ 1 ∨ Stops (p.frames 0) p.skb
  | _ => True

/-- The hook is registered when the call is an `open`. -/
def SkyCall.Registers : SkyCall → Prop
  | .open_ _ registers => registers = true
  | _ => True

theorem skyStep_hooks_le {s s' : SkyFiles} {c : SkyCall} (h : s.hooks ≤ s.handles.length)
    (hs : skyStep s c = some s') : s'.hooks ≤ s'.handles.length := by
  cases c with
  | open_ handle registers =>
    simp only [skyStep] at hs
    split at hs
    · cases hs
    · cases hs
      simp only [fileOpenSky, List.length_cons]
      split
      · omega
      · omega
  | release handle =>
    simp only [skyStep] at hs
    split at hs
    · rename_i hmem
      cases hs
      simp only [fileReleaseSky, List.length_erase_of_mem hmem]
      omega
    · cases hs
  | control cmd arg =>
    cases hs
    simp only [fileControlSky]
    split
    · exact h
    · exact h
  | packet p =>
    cases hs
    exact h

/-- With every registration made, there is one for every open handle. -/
theorem skyStep_hooks_eq {s s' : SkyFiles} {c : SkyCall} (h : s.hooks = s.handles.length)
    (hc : c.Registers) (hs : skyStep s c = some s') : s'.hooks = s'.handles.length := by
  cases c with
  | open_ handle registers =>
    simp only [skyStep] at hs
    split at hs
    · cases hs
    · cases hs
      have hreg : registers = true := hc
      simp only [fileOpenSky, List.length_cons, hreg, if_true, h]
  | release handle =>
    simp only [skyStep] at hs
    split at hs
    · rename_i hmem
      cases hs
      simp only [fileReleaseSky, List.length_erase_of_mem hmem, h]
    · cases hs
  | control cmd arg =>
    cases hs
    simp only [fileControlSky]
    split
    · exact h
    · exact h
  | packet p =>
    cases hs
    exact h

theorem appliedOnce_iff (k : Kernel) {s : SkyFiles} (h : s.hooks ≤ s.handles.length) (c : SkyCall) :
    AppliedOnce k s c ↔ OneCall s c := by
  cases c with
  | packet p =>
    simp only [AppliedOnce, OneCall]
    by_cases hnone : s.handles = []
    · have hhooks : s.hooks = 0 := by
        rw [hnone] at h
        exact Nat.le_zero.mp h
      rw [if_pos hnone, hhooks]
      exact ⟨fun _ => .inl hnone, fun _ => rfl⟩
    · rw [if_neg hnone, traverse_once_iff p.len_lt]
      exact ⟨fun h => .inr h, fun h => h.resolve_left hnone⟩
  | open_ => exact Iff.rfl
  | release => exact Iff.rfl
  | control => exact Iff.rfl

theorem oneCall_iff_oneHandle {s : SkyFiles} (h : s.hooks = s.handles.length) (c : SkyCall) :
    OneCall s c ↔ OneHandle s c := by
  cases c with
  | packet p =>
    simp only [OneCall, OneHandle, ← List.length_eq_zero_iff, h]
    constructor
    · rintro (h0 | h1 | ⟨_, hstops⟩)
      · exact .inl (by omega)
      · exact .inl (by omega)
      · exact .inr hstops
    · rintro (hle | hstops)
      · omega
      · by_cases hle : s.handles.length ≤ 1
        · omega
        · exact .inr (.inr ⟨by omega, hstops⟩)
  | open_ => exact Iff.rfl
  | release => exact Iff.rfl
  | control => exact Iff.rfl

theorem appliedOnce_iff_oneCall (k : Kernel) (calls : List SkyCall) :
    Along skyStep (AppliedOnce k) .start calls ↔ Along skyStep OneCall .start calls := by
  refine along_congr (J := fun s => s.hooks ≤ s.handles.length) (E := fun _ _ => True) ?_
    (Nat.le_refl 0) (along_of_forall fun _ _ => trivial)
  intro s c hs _
  exact ⟨appliedOnce_iff k hs c, fun s' hs' => skyStep_hooks_le hs hs'⟩

/-- In a run of the device, the hook is applied to every packet once while a handle is open and not
at all otherwise, if and only if a packet that comes while a handle is open meets one registration,
or one whose call ends it. When every registration succeeds, that is to say that no more than one
handle is open. -/
theorem applied_once_iff (k : Kernel) (calls : List SkyCall) :
    (Along skyStep (AppliedOnce k) .start calls ↔ Along skyStep OneCall .start calls) ∧
    ((∀ c ∈ calls, c.Registers) →
      (Along skyStep (AppliedOnce k) .start calls ↔ Along skyStep OneHandle .start calls)) := by
  refine ⟨appliedOnce_iff_oneCall k calls, fun hreg => ?_⟩
  rw [appliedOnce_iff_oneCall]
  refine along_congr (J := fun s => s.hooks = s.handles.length) ?_ rfl (along_of_forall hreg)
  intro s c hs hc
  exact ⟨oneCall_iff_oneHandle hs c, fun s' hs' => skyStep_hooks_eq hs hc hs'⟩

/-- An acknowledgement from 10.0.0.10:36000 to 93.184.216.34:443 with 8 bytes of payload. -/
def ackBytes : List Byte :=
  [0x45, 0x00, 0x00, 0x30, 0x1c, 0x47, 0x40, 0x00, 0x40, 0x06, 0xde, 0x9c,
    0x0a, 0x00, 0x00, 0x0a, 0x5d, 0xb8, 0xd8, 0x22,
    0x8c, 0xa0, 0x01, 0xbb, 0x11, 0x22, 0x33, 0x45, 0x00, 0x00, 0x00, 0x01,
    0x50, 0x10, 0xfa, 0xf0, 0x00, 0x00, 0x00, 0x00,
    0x47, 0x45, 0x54, 0x20, 0x2f, 0x20, 0x48, 0x54]

def ackPassing : Passing where
  skb := .receive freshBuffer ackBytes
  len_lt := by decide
  frames := fun _ => ⟨true, site, pointerSlot⟩

theorem applied_once_ack :
    (Along skyStep (AppliedOnce softwareKernel) .start [.open_ 0 true, .packet ackPassing] ↔
        Along skyStep OneCall .start [.open_ 0 true, .packet ackPassing]) ∧
      (Along skyStep (AppliedOnce softwareKernel) .start [.open_ 0 true, .packet ackPassing] ↔
        Along skyStep OneHandle .start [.open_ 0 true, .packet ackPassing]) := by
  obtain ⟨hcall, hhandle⟩ :=
    applied_once_iff softwareKernel [.open_ 0 true, .packet ackPassing]
  refine ⟨hcall, hhandle fun c hc => ?_⟩
  obtain rfl | hc := List.mem_cons.mp hc
  · rfl
  · cases List.mem_singleton.mp hc
    trivial

/-- With two handles open the hook is called twice, and the payload goes out as it came in. -/
theorem two_handles_plaintext :
    (¬ Along skyStep (AppliedOnce softwareKernel) .start
      [.open_ 0 true, .open_ 1 true, .packet ackPassing]) ∧
    (traverse softwareKernel 0 1 ackPassing.frames ackPassing.skb).2.map (fun r => r.2.payload) ≠
      some ackPassing.skb.payload ∧
    (traverse softwareKernel 0 2 ackPassing.frames ackPassing.skb).2.map (fun r => r.2.payload) =
      some ackPassing.skb.payload := by
  refine ⟨fun hall => ?_, by decide +kernel, by decide +kernel⟩
  obtain ⟨_, hall⟩ := (appliedOnce_iff_oneCall _ _).mp hall
  obtain ⟨_, hall⟩ := hall _ rfl
  obtain ⟨hone, _⟩ := hall _ rfl
  obtain hnone | htwo | ⟨_, _, _, hends⟩ := hone
  · cases hnone
  · cases htwo
  · obtain ⟨hpaged, _⟩ | ⟨hsyn, _⟩ := hends
    · exact hpaged rfl
    · revert hsyn
      decide +kernel

end Sky
end Xsky
