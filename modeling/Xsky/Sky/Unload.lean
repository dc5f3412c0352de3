import Xsky.Kit.Runs
import Xsky.Sky.Handles

/-!
# Sky.Unload

`server/server.c` from `sky_init` to `sky_exit`, in the single steps of both, with the calls on its
files and packets between them.

The file operations have no `.owner`, so an open file does not keep the module loaded; and what
`kzalloc` and `vzalloc` return is not looked at. A step faults when it uses memory there is not, or
calls into the module when it is unloaded. `class_create` and `device_create` are taken to succeed,
and so is `vzalloc` for the pages that packets fill: without the class `sky_exit` faults, and
without a page `insert_route_sky` does.

`never_faults_iff`: with these, no call that can come next would fault, all the way, if and only if
there is memory for the device and the table and no file is open when the module goes.
-/

namespace Xsky
namespace Sky

open Kit

/-- What `device_sky` or `device_sky->routes` points to. -/
inductive Block where
  | unset
  | null
  | live
  | freed
deriving DecidableEq

structure SkyModule where
  /-- The steps of `sky_init`, four, and of `sky_exit`, five, done so far. -/
  initAt : Nat
  exitAt : Nat
  device : Block
  routes : Block
  /-- Opens come to `file_open_sky`. -/
  chrdev : Bool
  /-- `nf_server_hooks_sky` is registered. -/
  serverHook : Bool
  files : SkyFiles

inductive SkyEvent where
  | init (succeeds : Bool)
  | exit
  | open_ (handle : Nat) (registers : Bool)
  | release (handle : Nat)
  | control (handle : Nat) (cmd : BitVec 32) (arg : BitVec 64)
  | forwarded  -- to the route hook, for each of its registrations
  | delivered  -- to the server hook, which looks into the table or puts an entry into it

def SkyModule.start : SkyModule := ⟨0, 0, .unset, .unset, false, false, .start⟩

/-- The next step of `sky_init`. -/
def skyInit (s : SkyModule) (succeeds : Bool) : Option SkyModule :=
  let block := if succeeds then Block.live else .null
  match s.initAt with
  | 0 => some { s with initAt := 1, device := block }
  | 1 => if s.device = .null then none else some { s with initAt := 2, routes := block }
  | 2 => some { s with initAt := 3, chrdev := succeeds }
  | 3 => some { s with initAt := 4, serverHook := succeeds }
  | _ => some s

/-- The next step of `sky_exit`, which starts only behind `sky_init`. With the last one the module
is unloaded. -/
def skyExit (s : SkyModule) : Option SkyModule :=
  match s.exitAt with
  | 0 => some (if s.initAt = 4 then { s with exitAt := 1, serverHook := false } else s)
  | 1 => if s.routes = .null then none else some { s with exitAt := 2 }
  | 2 => some { s with exitAt := 3, routes := .freed }
  | 3 => some { s with exitAt := 4, chrdev := false }
  | 4 => some { s with exitAt := 5, device := .freed }
  | _ => some s

/-- A call that does not come to the module leaves the state as it is. -/
def moduleStep (s : SkyModule) : SkyEvent → Option SkyModule
  | .init succeeds => skyInit s succeeds
  | .exit => skyExit s
  | .open_ handle registers =>
    if s.chrdev = false ∨ handle ∈ s.files.handles then some s
    else some { s with files := fileOpenSky s.files handle registers }
  | .release handle =>
    if handle ∉ s.files.handles then some s
    else if s.exitAt = 5 then none
    else some { s with files := fileReleaseSky s.files handle }
  | .control handle cmd arg =>
    if handle ∉ s.files.handles then some s
    else if s.exitAt = 5 ∨ cmd = cmdRouteSky ∧ s.device ≠ .live then none
    else some { s with files := fileControlSky s.files cmd arg }
  | .forwarded =>
    if s.files.hooks = 0 then some s
    else if s.exitAt = 5 ∨ s.device ≠ .live then none
    else some s
  | .delivered => if s.serverHook = true ∧ s.routes ≠ .live then none else some s

/-- Whatever call comes next does not fault. -/
def SkyModule.Safe (s : SkyModule) : Prop := ∀ e, (moduleStep s e).isSome

/-- There is a device; there is a table when packets may come to it, and when its pages are freed;
and no file is open when the module goes. -/
def Provided (s : SkyModule) : SkyEvent → Prop
  | .init succeeds =>
    match s.initAt with
    | 0 => succeeds = true
    | 3 => succeeds = true → s.routes = .live
    | _ => True
  | .exit =>
    match s.exitAt with
    | 0 => s.initAt = 4 → s.routes = .live
    | 4 => s.files.handles = []
    | _ => True
  | _ => True

/-! ## What is there -/

structure ModuleInv (s : SkyModule) : Prop where
  started : s.exitAt ≠ 0 → s.initAt = 4
  device : s.initAt ≠ 0 → s.exitAt ≠ 5 → s.device = .live
  served : s.serverHook = true → s.routes = .live ∧ s.initAt = 4 ∧ s.exitAt = 0
  pages : s.exitAt = 1 → s.routes = .live
  table : 2 ≤ s.initAt → s.exitAt < 3 → s.routes = .null ∨ s.routes = .live
  early : s.initAt < 3 → s.chrdev = false ∧ s.files.handles = []
  late : 4 ≤ s.exitAt → s.chrdev = false
  gone : s.exitAt = 5 → s.files.handles = []
  hooks : s.files.hooks ≤ s.files.handles.length

theorem moduleInv_start : ModuleInv .start where
  started := fun h => absurd rfl h
  device := fun h => absurd rfl h
  served := by
    intro h
    cases h
  pages := by
    intro h
    cases h
  table := by
    intro h
    cases h
  early := fun _ => ⟨rfl, rfl⟩
  late := fun _ => rfl
  gone := fun _ => rfl
  hooks := Nat.le_refl 0

variable {s : SkyModule}

/-- While a file is open, so is the module, and there is its device. -/
theorem ModuleInv.opened (h : ModuleInv s) (hopen : s.files.handles ≠ []) :
    s.exitAt ≠ 5 ∧ s.device = .live := by
  have hexit : s.exitAt ≠ 5 := fun hgone => hopen (h.gone hgone)
  refine ⟨hexit, h.device ?_ hexit⟩
  intro hinit
  exact hopen (h.early (by omega)).2

theorem ModuleInv.hooked (h : ModuleInv s) (hhooks : s.files.hooks ≠ 0) :
    s.files.handles ≠ [] := by
  intro hnone
  have hle := h.hooks
  rw [hnone] at hle
  exact hhooks (Nat.le_zero.mp hle)

theorem skyInit_isSome (h : ModuleInv s) (succeeds : Bool) : (skyInit s succeeds).isSome := by
  simp only [skyInit]
  split
  · rfl
  · rename_i hinit
    have hexit : s.exitAt ≠ 5 := by
      intro hgone
      have hstarted := h.started (by omega)
      omega
    rw [if_neg (by rw [h.device (by omega) hexit]; decide)]
    rfl
  · rfl
  · rfl
  · rfl

theorem skyExit_isSome (h : ModuleInv s) : (skyExit s).isSome := by
  simp only [skyExit]
  split
  · rfl
  · rename_i hexit
    rw [if_neg (by rw [h.pages hexit]; decide)]
    rfl
  · rfl
  · rfl
  · rfl
  · rfl

theorem ModuleInv.safe (h : ModuleInv s) : s.Safe := by
  intro e
  cases e with
  | init succeeds => exact skyInit_isSome h succeeds
  | exit => exact skyExit_isSome h
  | open_ handle registers =>
    simp only [moduleStep]
    split
    · rfl
    · rfl
  | release handle =>
    simp only [moduleStep]
    by_cases hin : handle ∈ s.files.handles
    · obtain ⟨hexit, _⟩ := h.opened (List.ne_nil_of_mem hin)
      rw [if_neg (not_not_intro hin), if_neg hexit]
      rfl
    · rw [if_pos hin]
      rfl
  | control handle cmd arg =>
    simp only [moduleStep]
    by_cases hin : handle ∈ s.files.handles
    · obtain ⟨hexit, hdevice⟩ := h.opened (List.ne_nil_of_mem hin)
      rw [if_neg (not_not_intro hin), if_neg (by simp [hexit, hdevice])]
      rfl
    · rw [if_pos hin]
      rfl
  | forwarded =>
    simp only [moduleStep]
    by_cases hhooks : s.files.hooks = 0
    · rw [if_pos hhooks]
      rfl
    · obtain ⟨hexit, hdevice⟩ := h.opened (h.hooked hhooks)
      rw [if_neg hhooks, if_neg (by simp [hexit, hdevice])]
      rfl
  | delivered =>
    simp only [moduleStep]
    rw [if_neg (fun hbad => hbad.2 (h.served hbad.1).1)]
    rfl

/-! ## A step -/

theorem ModuleInv.idle (h : ModuleInv s) (hlt : s.initAt < 4) : s.exitAt = 0 := by
  refine Decidable.byContradiction fun hne => ?_
  have hstarted := h.started hne
  omega

/-- `sky_init` before it comes to the server hook. -/
theorem ModuleInv.load (h : ModuleInv s) (hlt : s.initAt < 4) {n : Nat} {device : Block}
    (hdevice : device = .live) {routes : Block} (chrdev : Bool)
    (htable : 2 ≤ n → routes = .null ∨ routes = .live)
    (hearly : n < 3 → chrdev = false ∧ s.files.handles = []) :
    ModuleInv { s with initAt := n, device := device, routes := routes, chrdev := chrdev } := by
  have hexit := h.idle hlt
  have hunserved : s.serverHook ≠ true := by
    intro hserved
    have hinit := (h.served hserved).2.1
    omega
  refine ⟨fun hne => absurd hexit hne, fun _ _ => hdevice, fun hserved => absurd hserved hunserved,
    ?_, fun htwo _ => htable htwo, hearly, ?_, ?_, h.hooks⟩
  · intro hone
    dsimp only at hone
    omega
  · intro hlate
    dsimp only at hlate
    omega
  · intro hgone
    dsimp only at hgone
    omega

theorem ModuleInv.loading (h : ModuleInv s) (hinit : s.initAt ≠ 0) (hlt : s.initAt < 4) :
    s.device = .live := by
  refine h.device hinit ?_
  rw [h.idle hlt]
  decide

theorem skyInit_inv (h : ModuleInv s) {succeeds : Bool} (hC : Provided s (.init succeeds)) :
    ∃ s', skyInit s succeeds = some s' ∧ ModuleInv s' := by
  simp only [Provided] at hC
  simp only [skyInit]
  split
  · rename_i hinit
    rw [hinit] at hC
    have hlive : (if succeeds then Block.live else .null) = .live := if_pos hC
    exact ⟨_, rfl, h.load (by omega) hlive s.chrdev (fun htwo => absurd htwo (by omega))
      fun _ => h.early (by omega)⟩
  · rename_i hinit
    have hdevice := h.loading (by omega) (by omega)
    rw [if_neg (by rw [hdevice]; decide)]
    refine ⟨_, rfl, h.load (by omega) hdevice s.chrdev (fun _ => ?_) fun _ => h.early (by omega)⟩
    cases succeeds with
    | true => exact .inr rfl
    | false => exact .inl rfl
  · rename_i hinit
    exact ⟨_, rfl, h.load (by omega) (h.loading (by omega) (by omega)) succeeds
      (fun _ => h.table (by omega) (by rw [h.idle (by omega)]; decide))
      fun hlt => absurd hlt (by omega)⟩
  · rename_i hinit
    rw [hinit] at hC
    have hexit := h.idle (by omega)
    have hloaded := h.load (n := 4) (by omega) (h.loading (by omega) (by omega)) s.chrdev
      (fun _ => h.table (by omega) (by omega)) fun hlt => absurd hlt (by omega)
    exact ⟨_, rfl, hloaded.started, hloaded.device, fun hserves => ⟨hC hserves, rfl, hexit⟩,
      hloaded.pages, hloaded.table, hloaded.early, hloaded.late, hloaded.gone, hloaded.hooks⟩
  · exact ⟨s, rfl, h⟩

/-- `sky_exit` once the server hook is gone. -/
theorem ModuleInv.unload (h : ModuleInv s) (hne : s.exitAt ≠ 0) {n : Nat} (hn : 1 < n)
    {device routes : Block} {chrdev : Bool} (hdevice : n ≠ 5 → device = .live)
    (htable : n < 3 → routes = .null ∨ routes = .live) (hchrdev : 4 ≤ n → chrdev = false)
    (hgone : n = 5 → s.files.handles = []) :
    ModuleInv { s with exitAt := n, device := device, routes := routes, chrdev := chrdev } := by
  have hinit := h.started hne
  refine ⟨fun _ => hinit, fun _ => hdevice, ?_, ?_, fun _ => htable, ?_, hchrdev, hgone, h.hooks⟩
  · intro hserved
    exact absurd (h.served hserved).2.2 hne
  · intro hone
    dsimp only at hone
    omega
  · intro hlt
    dsimp only at hlt
    omega

theorem skyExit_inv (h : ModuleInv s) (hC : Provided s .exit) :
    ∃ s', skyExit s = some s' ∧ ModuleInv s' := by
  simp only [Provided] at hC
  simp only [skyExit]
  split
  · rename_i hexit
    rw [hexit] at hC
    refine ⟨_, rfl, ?_⟩
    by_cases hinit : s.initAt = 4
    · rw [if_pos hinit]
      refine ⟨fun _ => hinit, fun hne _ => h.device hne (by omega), ?_, fun _ => hC hinit,
        fun _ _ => .inr (hC hinit), h.early, ?_, ?_, h.hooks⟩
      · intro hserved
        cases hserved
      · intro hlate
        dsimp only at hlate
        omega
      · intro hgone
        cases hgone
    · rw [if_neg hinit]
      exact h
  · rename_i hexit
    rw [if_neg (by rw [h.pages hexit]; decide)]
    have hinit := h.started (by omega)
    exact ⟨_, rfl, h.unload (by omega) (by omega) (fun _ => h.device (by omega) (by omega))
      (fun _ => h.table (by omega) (by omega))
      (fun hle => absurd hle (by omega)) fun hgone => absurd hgone (by omega)⟩
  · rename_i hexit
    have hinit := h.started (by omega)
    exact ⟨_, rfl, h.unload (by omega) (by omega) (fun _ => h.device (by omega) (by omega))
      (fun hlt => absurd hlt (by omega))
      (fun hle => absurd hle (by omega)) fun hgone => absurd hgone (by omega)⟩
  · rename_i hexit
    have hinit := h.started (by omega)
    exact ⟨_, rfl, h.unload (by omega) (by omega) (fun _ => h.device (by omega) (by omega))
      (fun hlt => absurd hlt (by omega)) (fun _ => rfl) fun hgone => absurd hgone (by omega)⟩
  · rename_i hexit
    rw [hexit] at hC
    exact ⟨_, rfl, h.unload (by omega) (by omega) (fun hne => absurd rfl hne)
      (fun hlt => absurd hlt (by omega)) (fun _ => h.late (by omega)) fun _ => hC⟩
  · exact ⟨s, rfl, h⟩

/-- A call on the files, which are there as long as it takes. -/
theorem ModuleInv.call (h : ModuleInv s) {files : SkyFiles}
    (hfew : files.hooks ≤ files.handles.length)
    (hopen : files.handles ≠ [] → s.chrdev = true ∨ s.files.handles ≠ []) :
    ModuleInv { s with files := files } := by
  have hnone : s.chrdev = false → s.files.handles = [] → files.handles = [] := by
    intro hchrdev hempty
    refine Decidable.byContradiction fun hne => ?_
    rcases hopen hne with hopen | hopen
    · rw [hchrdev] at hopen
      cases hopen
    · exact hopen hempty
  refine ⟨h.started, h.device, h.served, h.pages, h.table, ?_, h.late, ?_, hfew⟩
  · intro hlt
    obtain ⟨hchrdev, hempty⟩ := h.early hlt
    exact ⟨hchrdev, hnone hchrdev hempty⟩
  · intro hgone
    dsimp only at hgone
    exact hnone (h.late (by omega)) (h.gone hgone)

theorem moduleStep_inv (s : SkyModule) (e : SkyEvent) (h : ModuleInv s) (hC : Provided s e) :
    ∃ s', moduleStep s e = some s' ∧ ModuleInv s' := by
  cases e with
  | init succeeds => exact skyInit_inv h hC
  | exit => exact skyExit_inv h hC
  | open_ handle registers =>
    simp only [moduleStep]
    by_cases hpass : s.chrdev = false ∨ handle ∈ s.files.handles
    · rw [if_pos hpass]
      exact ⟨s, rfl, h⟩
    · rw [if_neg hpass]
      obtain ⟨hchrdev, hout⟩ := not_or.mp hpass
      refine ⟨_, rfl, h.call ?_ fun _ => .inl (Bool.not_eq_false _ ▸ hchrdev)⟩
      refine skyStep_hooks_le (c := .open_ handle registers) h.hooks ?_
      simp only [skyStep]
      rw [if_neg hout]
  | release handle =>
    simp only [moduleStep]
    by_cases hin : handle ∈ s.files.handles
    · have hopen := List.ne_nil_of_mem hin
      obtain ⟨hexit, _⟩ := h.opened hopen
      rw [if_neg (not_not_intro hin), if_neg hexit]
      refine ⟨_, rfl, h.call ?_ fun _ => .inr hopen⟩
      refine skyStep_hooks_le (c := .release handle) h.hooks ?_
      simp only [skyStep]
      rw [if_pos hin]
    · rw [if_pos hin]
      exact ⟨s, rfl, h⟩
  | control handle cmd arg =>
    simp only [moduleStep]
    by_cases hin : handle ∈ s.files.handles
    · have hopen := List.ne_nil_of_mem hin
      obtain ⟨hexit, hdevice⟩ := h.opened hopen
      rw [if_neg (not_not_intro hin), if_neg (by simp [hexit, hdevice])]
      exact ⟨_, rfl, h.call (skyStep_hooks_le (c := .control cmd arg) h.hooks rfl)
        fun _ => .inr hopen⟩
    · rw [if_pos hin]
      exact ⟨s, rfl, h⟩
  | forwarded =>
    simp only [moduleStep]
    by_cases hhooks : s.files.hooks = 0
    · rw [if_pos hhooks]
      exact ⟨s, rfl, h⟩
    · obtain ⟨hexit, hdevice⟩ := h.opened (h.hooked hhooks)
      rw [if_neg hhooks, if_neg (by simp [hexit, hdevice])]
      exact ⟨s, rfl, h⟩
  | delivered =>
    simp only [moduleStep]
    rw [if_neg (fun hbad => hbad.2 (h.served hbad.1).1)]
    exact ⟨s, rfl, h⟩

/-- A step that is not provided for leaves a state in which some call faults: the next step of
`sky_init` or `sky_exit`, a packet, or the release of a file. -/
theorem provided_of_safe (s : SkyModule) (e : SkyEvent) (s' : SkyModule) (h : ModuleInv s)
    (hs : moduleStep s e = some s') (hsafe : s'.Safe) : Provided s e := by
  cases e with
  | init succeeds =>
    simp only [Provided]
    simp only [moduleStep, skyInit] at hs
    split
    · rename_i hinit
      rw [hinit] at hs
      cases hs
      cases succeeds with
      | true => rfl
      | false => exact absurd (hsafe (.init true)) (by simp [moduleStep, skyInit])
    · rename_i hinit
      rw [hinit] at hs
      cases hs
      intro hserves
      have hdelivered := hsafe .delivered
      simp only [moduleStep] at hdelivered
      refine Decidable.byContradiction fun hnone => ?_
      rw [if_pos ⟨hserves, hnone⟩] at hdelivered
      cases hdelivered
    · trivial
  | exit =>
    simp only [Provided]
    simp only [moduleStep, skyExit] at hs
    split
    · rename_i hexit
      rw [hexit] at hs
      intro hinit
      rw [if_pos hinit] at hs
      cases hs
      rcases h.table (by omega) (by omega) with hnull | hlive
      · have hpages := hsafe .exit
        simp only [moduleStep, skyExit] at hpages
        rw [if_pos hnull] at hpages
        cases hpages
      · exact hlive
    · rename_i hexit
      rw [hexit] at hs
      cases hs
      refine List.eq_nil_iff_forall_not_mem.mpr fun handle hin => ?_
      have hrelease := hsafe (.release handle)
      simp only [moduleStep] at hrelease
      rw [if_neg (not_not_intro hin)] at hrelease
      cases hrelease
    · trivial
  | open_ handle registers => trivial
  | release handle => trivial
  | control handle cmd arg => trivial
  | forwarded => trivial
  | delivered => trivial

end Sky
end Xsky
