import Mathlib.Logic.Function.Basic
import Xsky.Dgram.Hook

/-!
# Dgram.Interleaved

Openers, releases and packets on one device, with `chr_open`, `chr_release` and `nf_handle_in` each
in two atomic steps: no lock spans the test of `flock_flag` and what follows it, or the two things
a release does. Any number of processes and of packets, in any order.

Sessions are numbered in the order they open. Of each queued packet it is recorded which sessions
were open when the hook tested the flag for it and when it was pushed, and of each session which
packets it read and which its release threw away.

* `Isolated` — one session at a time; a session reads only packets tested in it; no release throws
  away a packet of a later session.
* `InOrder` — a session is opened only when no other is open or still being released, and a packet
  is queued only while a session of its test is.

`trafficStep_inv`: steps in order keep `TrafficInv`, a part of which is `Isolated`.
-/

namespace Xsky
namespace Dgram

open Kit

/-- Where a user process is. -/
inductive UserAt where
  | closed
  | tested               -- in `chr_open`, behind the test
  | inSession (i : Nat)
  | resetting (i : Nat)  -- in `chr_release`, before the reset

/-- Where a packet's call of `nf_handle_in` is. -/
inductive HookAt where
  | idle
  | tested (skb : Mem) (during : List Nat)

/-- The sessions open when the packet was tested, and when it was pushed. -/
structure Tag where
  tested : List Nat
  during : List Nat

structure Traffic where
  dev : Device
  user : Nat → UserAt
  hook : Nat → HookAt
  opens : List Nat
  next : Nat
  /-- Of the queued packets, oldest first. -/
  tags : List Tag
  reads : List (Nat × Tag)
  discards : List (Nat × Tag)

inductive TrafficStep where
  | openTest (o : Nat)
  | openSet (o : Nat)
  | releaseFlag (o : Nat)
  | releaseReset (o : Nat)
  | hookTest (p : Nat) (skb : Mem)
  | hookRest (p : Nat)
  | read (o size : Nat)

namespace Traffic

def start (dev : Device) : Traffic :=
  ⟨dev, fun _ => .closed, fun _ => .idle, [], 0, [], [], []⟩

def setUser (s : Traffic) (o : Nat) (u : UserAt) : Traffic :=
  { s with user := Function.update s.user o u }

def setHook (s : Traffic) (p : Nat) (h : HookAt) : Traffic :=
  { s with hook := Function.update s.hook p h }

/-- The process has the session, or is still releasing it. -/
def Holds (s : Traffic) (o i : Nat) : Prop := s.user o = .inSession i ∨ s.user o = .resetting i

def Live (s : Traffic) (i : Nat) : Prop := ∃ o, s.Holds o i

end Traffic

/-- A step of a process or packet that is not at that point leaves the state as it is. -/
def trafficStep (s : Traffic) : TrafficStep → Option Traffic
  | .openTest o =>
    match s.user o with
    | .closed => if s.dev.flockFlag then some s else some (s.setUser o .tested)
    | _ => some s
  | .openSet o =>
    match s.user o with
    | .tested =>
      some
        { s.setUser o (.inSession s.next) with
          dev := { s.dev with flockFlag := true }
          opens := s.next :: s.opens
          next := s.next + 1 }
    | _ => some s
  | .releaseFlag o =>
    match s.user o with
    | .inSession i =>
      some
        { s.setUser o (.resetting i) with
          dev := { s.dev with flockFlag := false }
          opens := s.opens.erase i }
    | _ => some s
  | .releaseReset o =>
    match s.user o with
    | .resetting i =>
      some
        { s.setUser o .closed with
          dev := { s.dev with rQueue := xskyQueueReset s.dev.rQueue }
          discards := s.discards ++ s.tags.map (i, ·)
          tags := [] }
    | _ => some s
  | .hookTest p skb =>
    match s.hook p with
    | .idle =>
      if s.dev.flockFlag = false then some s else some (s.setHook p (.tested skb s.opens))
    | _ => some s
  | .hookRest p =>
    match s.hook p with
    | .tested skb during =>
      (nfHandleRest s.dev skb).map fun (v, dev) =>
        { s.setHook p .idle with
          dev := dev
          tags := if v = .drop then s.tags ++ [⟨during, s.opens⟩] else s.tags }
    | _ => some s
  | .read o size =>
    match s.user o with
    | .inSession i =>
      (chrRead s.dev size 0).map fun ((n, _), dev) =>
        { s with
          dev := dev
          reads := if 0 ≤ n then s.reads ++ (s.tags.take 1).map (i, ·) else s.reads
          tags := if 0 ≤ n then s.tags.tail else s.tags }
    | _ => some s

structure Isolated (s : Traffic) : Prop where
  one : s.opens.length ≤ 1
  reads : ∀ i t, (i, t) ∈ s.reads → i ∈ t.tested
  discards : ∀ i t, (i, t) ∈ s.discards → ∀ j ∈ t.during, j ≤ i

/-- The rest of the hook would queue the packet. -/
structure Queues (s : Traffic) (skb : Mem) : Prop where
  reaches : reachesPush s.dev skb = true
  fits : pushedLen skb ≤ xskyMtu
  room : (queued s.dev.rQueue).length < queueSize

def InOrder (s : Traffic) : TrafficStep → Prop
  | .openSet o => s.user o = .tested → ∀ i, ¬ s.Live i
  | .hookRest p => ∀ skb during, s.hook p = .tested skb during → Queues s skb →
      ∃ i ∈ during, s.Live i
  | _ => True

/-- The states that steps in order lead to. -/
structure TrafficInv (dev : Device) (node : Nat → Nat) (s : Traffic) : Prop where
  config : ∃ f q, s.dev = { dev with flockFlag := f, rQueue := q }
  rep : ∃ b xs, Rep s.dev.rQueue queueSize node b xs ∧ xs.length = s.tags.length
  flag : s.dev.flockFlag = true ↔ s.opens ≠ []
  alone : ∀ o o' i i', s.Holds o i → s.Holds o' i' → o = o'
  opened : ∀ i ∈ s.opens, ∃ o, s.user o = .inSession i
  listed : ∀ o i, s.user o = .inSession i → s.opens = [i]
  tags : ∀ t ∈ s.tags, ∃ i, s.Live i ∧ i ∈ t.tested ∧ ∀ j ∈ t.during, j ≤ i
  old : (∀ i, s.Live i → i < s.next) ∧ (∀ t ∈ s.tags, ∀ i ∈ t.tested, i < s.next) ∧
    ∀ p skb during, s.hook p = .tested skb during → ∀ i ∈ during, i < s.next
  finite : ∃ n, ∀ k, n ≤ k → s.user k = .closed ∧ s.hook k = .idle
  isolated : Isolated s

namespace TrafficInv

variable {dev : Device} {node : Nat → Nat} {s : Traffic}

theorem opens_le (h : TrafficInv dev node s) : s.opens = [] ∨ ∃ i, s.opens = [i] := by
  cases ho : s.opens with
  | nil => exact .inl rfl
  | cons i l =>
    obtain ⟨o, hu⟩ := h.opened i (by simp [ho])
    rw [h.listed o i hu] at ho
    cases ho
    exact .inr ⟨i, rfl⟩

/-- The session of a process that has one, or is releasing it, is the only one. -/
theorem live_eq (h : TrafficInv dev node s) {o i j : Nat} (ho : s.Holds o i) (hj : s.Live j) :
    j = i := by
  obtain ⟨o', ho'⟩ := hj
  obtain rfl := h.alone o o' i j ho ho'
  rcases ho with ho | ho <;> rcases ho' with ho' | ho' <;> rw [ho] at ho' <;> cases ho' <;> rfl

theorem finite_setUser (h : TrafficInv dev node s) (o : Nat) (u : UserAt) :
    ∃ n, ∀ k, n ≤ k → (s.setUser o u).user k = .closed ∧ (s.setUser o u).hook k = .idle := by
  obtain ⟨n, hn⟩ := h.finite
  refine ⟨max n (o + 1), fun k hk => ?_⟩
  have hne : k ≠ o := by omega
  simp only [Traffic.setUser, Function.update_of_ne hne]
  exact hn k (by omega)

/-- A process that has no session, before or after, moves. -/
theorem setUser (h : TrafficInv dev node s) {o : Nat} {u : UserAt}
    (ho : ∀ i, ¬ s.Holds o i) (hu : u = .closed ∨ u = .tested) :
    TrafficInv dev node (s.setUser o u) := by
  have hu' : ∀ i, u ≠ .inSession i ∧ u ≠ .resetting i := by
    intro i
    rcases hu with rfl | rfl <;> simp
  have hsame : ∀ o' i, (s.setUser o u).Holds o' i ↔ s.Holds o' i := by
    intro o' i
    by_cases heq : o' = o
    · subst heq
      simp only [Traffic.Holds, Traffic.setUser, Function.update_self]
      constructor
      · rintro (hi | hi)
        · exact absurd hi (hu' i).1
        · exact absurd hi (hu' i).2
      · intro hi
        exact absurd hi (ho i)
    · simp only [Traffic.Holds, Traffic.setUser, Function.update_of_ne heq]
  have hlive : ∀ i, (s.setUser o u).Live i ↔ s.Live i := fun i =>
    exists_congr fun o' => hsame o' i
  obtain ⟨hold, htags, hhook⟩ := h.old
  refine ⟨h.config, h.rep, h.flag, ?_, ?_, ?_, ?_, ⟨?_, htags, hhook⟩, ?_,
    ⟨h.isolated.one, h.isolated.reads, h.isolated.discards⟩⟩
  · intro o1 o2 i1 i2 h1 h2
    exact h.alone o1 o2 i1 i2 ((hsame _ _).mp h1) ((hsame _ _).mp h2)
  · intro i hi
    obtain ⟨o', ho'⟩ := h.opened i hi
    refine ⟨o', ?_⟩
    have hne : o' ≠ o := by
      rintro rfl
      exact ho i (.inl ho')
    simp only [Traffic.setUser, Function.update_of_ne hne]
    exact ho'
  · intro o' i hi
    by_cases heq : o' = o
    · subst heq
      simp only [Traffic.setUser, Function.update_self] at hi
      exact absurd hi (hu' i).1
    · simp only [Traffic.setUser, Function.update_of_ne heq] at hi
      exact h.listed o' i hi
  · intro t ht
    obtain ⟨i, hi, hrest⟩ := h.tags t ht
    exact ⟨i, (hlive i).mpr hi, hrest⟩
  · intro i hi
    exact hold i ((hlive i).mp hi)
  · exact h.finite_setUser o _

theorem openTest (h : TrafficInv dev node s) (o : Nat) :
    ∃ s', trafficStep s (.openTest o) = some s' ∧ TrafficInv dev node s' := by
  simp only [trafficStep]
  split
  · rename_i ho
    split
    · exact ⟨s, rfl, h⟩
    · refine ⟨_, rfl, h.setUser (fun i hi => ?_) (.inr rfl)⟩
      rcases hi with hi | hi <;> rw [ho] at hi <;> cases hi
  · exact ⟨s, rfl, h⟩

/-- Without a session, or one that is being released, nothing is queued. -/
theorem tags_nil (h : TrafficInv dev node s) (hnone : ∀ i, ¬ s.Live i) : s.tags = [] := by
  cases ht : s.tags with
  | nil => rfl
  | cons t ts =>
    obtain ⟨i, hi, -⟩ := h.tags t (by simp [ht])
    exact absurd hi (hnone i)

/-- Where the processes are when one of them opens a session. -/
theorem holds_open {o : Nat} (o' i : Nat) :
    { s.setUser o (.inSession s.next) with
      dev := { s.dev with flockFlag := true }
      opens := s.next :: s.opens
      next := s.next + 1 }.Holds o' i ↔
      if o' = o then i = s.next else s.Holds o' i := by
  by_cases heq : o' = o
  · subst heq
    simp only [Traffic.Holds, Traffic.setUser, Function.update_self, if_true,
      UserAt.inSession.injEq, reduceCtorEq, or_false]
    exact eq_comm
  · simp only [Traffic.Holds, Traffic.setUser, Function.update_of_ne heq, if_neg heq]

theorem openSet (h : TrafficInv dev node s) {o : Nat} (hC : InOrder s (.openSet o)) :
    ∃ s', trafficStep s (.openSet o) = some s' ∧ TrafficInv dev node s' := by
  simp only [trafficStep]
  split
  · rename_i ho
    have hnone := hC ho
    have htags := h.tags_nil hnone
    have hopens : s.opens = [] := by
      rcases h.opens_le with he | ⟨i, he⟩
      · exact he
      · obtain ⟨o', ho'⟩ := h.opened i (by simp [he])
        exact absurd ⟨o', .inl ho'⟩ (hnone i)
    obtain ⟨f, q, hdev⟩ := h.config
    obtain ⟨-, -, hhook⟩ := h.old
    refine ⟨_, rfl, ⟨true, q, by rw [hdev]⟩, h.rep, by simp, ?_, ?_, ?_, ?_, ⟨?_, ?_, ?_⟩, ?_, ?_⟩
    · intro o1 o2 i1 i2 h1 h2
      rw [holds_open] at h1 h2
      split at h1
      · rename_i e1
        split at h2
        · rename_i e2
          rw [e1, e2]
        · exact absurd ⟨o2, h2⟩ (hnone i2)
      · exact absurd ⟨o1, h1⟩ (hnone i1)
    · intro i hi
      simp only [hopens, List.mem_singleton] at hi
      exact ⟨o, by simp [Traffic.setUser, hi]⟩
    · intro o' i hi
      have hh := (holds_open o' i).mp (.inl hi)
      split at hh
      · simp only [hopens, hh]
      · exact absurd ⟨o', hh⟩ (hnone i)
    · intro t ht
      simp only [Traffic.setUser, htags, List.not_mem_nil] at ht
    · rintro i ⟨o', hi⟩
      rw [holds_open] at hi
      split at hi
      · simp only [hi]
        exact Nat.lt_succ_self _
      · exact absurd ⟨o', hi⟩ (hnone i)
    · intro t ht
      simp only [Traffic.setUser, htags, List.not_mem_nil] at ht
    · intro p skb during hp i hi
      exact Nat.lt_succ_of_lt (hhook p skb during hp i hi)
    · exact h.finite_setUser o _
    · exact ⟨by simp [hopens], h.isolated.reads, h.isolated.discards⟩
  · exact ⟨s, rfl, h⟩

theorem releaseFlag (h : TrafficInv dev node s) (o : Nat) :
    ∃ s', trafficStep s (.releaseFlag o) = some s' ∧ TrafficInv dev node s' := by
  simp only [trafficStep]
  split
  · rename_i i ho
    have hopens := h.listed o i ho
    have hholds : s.Holds o i := .inl ho
    obtain ⟨f, q, hdev⟩ := h.config
    obtain ⟨hold, htags, hhook⟩ := h.old
    refine ⟨_, rfl, ?_⟩
    rw [hopens, List.erase_cons_head]
    have hsame : ∀ o' i', { s.setUser o (.resetting i) with
        dev := { s.dev with flockFlag := false }, opens := [] }.Holds o' i' ↔ s.Holds o' i' := by
      intro o' i'
      by_cases heq : o' = o
      · subst heq
        simp [Traffic.Holds, Traffic.setUser, ho]
      · simp only [Traffic.Holds, Traffic.setUser, Function.update_of_ne heq]
    have hno : ∀ o' i', o' ≠ o → s.user o' ≠ .inSession i' := by
      intro o' i' hne hi
      exact hne (h.alone o' o i' i (.inl hi) hholds)
    refine ⟨⟨false, q, by rw [hdev]⟩, h.rep, by simp, ?_, by simp, ?_, ?_, ⟨?_, htags, hhook⟩, ?_,
      ⟨by simp, h.isolated.reads, h.isolated.discards⟩⟩
    · intro o1 o2 i1 i2 h1 h2
      exact h.alone o1 o2 i1 i2 ((hsame _ _).mp h1) ((hsame _ _).mp h2)
    · intro o' i' hi
      by_cases heq : o' = o
      · subst heq
        simp [Traffic.setUser] at hi
      · simp only [Traffic.setUser, Function.update_of_ne heq] at hi
        exact absurd hi (hno o' i' heq)
    · intro t ht
      obtain ⟨j, ⟨o', hj⟩, hrest⟩ := h.tags t ht
      exact ⟨j, ⟨o', (hsame o' j).mpr hj⟩, hrest⟩
    · rintro j ⟨o', hj⟩
      exact hold j ⟨o', (hsame o' j).mp hj⟩
    · exact h.finite_setUser o _
  · exact ⟨s, rfl, h⟩

/-- The packets thrown away are those of the session released. -/
theorem releaseReset (h : TrafficInv dev node s) (o : Nat) :
    ∃ s', trafficStep s (.releaseReset o) = some s' ∧ TrafficInv dev node s' := by
  simp only [trafficStep]
  split
  · rename_i i ho
    have hholds : s.Holds o i := .inr ho
    have hopens : s.opens = [] := by
      rcases h.opens_le with he | ⟨j, he⟩
      · exact he
      · obtain ⟨o', ho'⟩ := h.opened j (by simp [he])
        obtain rfl := h.alone o o' i j hholds (.inl ho')
        rw [ho] at ho'
        cases ho'
    have hgone : ∀ o' i', ¬ { s.setUser o .closed with
        dev := { s.dev with rQueue := xskyQueueReset s.dev.rQueue }
        discards := s.discards ++ s.tags.map (i, ·)
        tags := [] }.Holds o' i' := by
      intro o' i' hi
      by_cases heq : o' = o
      · subst heq
        simp [Traffic.Holds, Traffic.setUser] at hi
      · simp only [Traffic.Holds, Traffic.setUser, Function.update_of_ne heq] at hi
        exact heq (h.alone o' o i' i hi hholds)
    obtain ⟨f, q, hdev⟩ := h.config
    obtain ⟨-, -, hhook⟩ := h.old
    obtain ⟨b, xs, hrep, -⟩ := h.rep
    refine ⟨_, rfl, ⟨f, _, by rw [hdev]⟩, ⟨b, [], xskyQueueReset_rep hrep, rfl⟩, h.flag, ?_, ?_, ?_,
      by simp, ⟨?_, by simp, hhook⟩, ?_, ⟨h.isolated.one, h.isolated.reads, ?_⟩⟩
    · intro o1 o2 i1 i2 h1
      exact absurd h1 (hgone o1 i1)
    · intro j hj
      simp only [Traffic.setUser, hopens, List.not_mem_nil] at hj
    · intro o' i' hi
      exact absurd (.inl hi) (hgone o' i')
    · rintro j ⟨o', hj⟩
      exact absurd hj (hgone o' j)
    · exact h.finite_setUser o _
    · intro j t hjt
      simp only [List.mem_append, List.mem_map, Prod.mk.injEq] at hjt
      rcases hjt with hjt | ⟨t', ht', rfl, rfl⟩
      · exact h.isolated.discards j t hjt
      · obtain ⟨j, hj, -, hduring⟩ := h.tags t' ht'
        rw [← h.live_eq hholds hj]
        exact hduring
  · exact ⟨s, rfl, h⟩

theorem setHook (h : TrafficInv dev node s) {p : Nat} {k : HookAt}
    (hk : ∀ skb during, k = .tested skb during → during = s.opens) :
    TrafficInv dev node (s.setHook p k) := by
  obtain ⟨hold, htags, hhook⟩ := h.old
  obtain ⟨n, hn⟩ := h.finite
  refine ⟨h.config, h.rep, h.flag, h.alone, h.opened, h.listed, h.tags, ⟨hold, htags, ?_⟩, ?_,
    ⟨h.isolated.one, h.isolated.reads, h.isolated.discards⟩⟩
  · intro p' skb during hp i hi
    by_cases heq : p' = p
    · subst heq
      simp only [Traffic.setHook, Function.update_self] at hp
      rw [hk skb during hp] at hi
      obtain ⟨o, ho⟩ := h.opened i hi
      exact hold i ⟨o, .inl ho⟩
    · simp only [Traffic.setHook, Function.update_of_ne heq] at hp
      exact hhook p' skb during hp i hi
  · refine ⟨max n (p + 1), fun j hj => ?_⟩
    have hne : j ≠ p := by omega
    simp only [Traffic.setHook, Function.update_of_ne hne]
    exact hn j (by omega)

theorem hookTest (h : TrafficInv dev node s) (p : Nat) (skb : Mem) :
    ∃ s', trafficStep s (.hookTest p skb) = some s' ∧ TrafficInv dev node s' := by
  simp only [trafficStep]
  split
  · split
    · exact ⟨s, rfl, h⟩
    · exact ⟨_, rfl, h.setHook fun skb' during hk => by cases hk; rfl⟩
  · exact ⟨s, rfl, h⟩

/-- The rest of the hook, from the packet's test on. -/
theorem hookRest_step {p b : Nat} {skb : Mem} {during : List Nat} {xs : List Packet}
    (hp : s.hook p = .tested skb during) (hrep : Rep s.dev.rQueue queueSize node b xs) :
    ∃ (v : Verdict) (q : QueueMem) (b' : Nat), trafficStep s (.hookRest p) =
        some { s.setHook p .idle with
          dev := { s.dev with rQueue := q }
          tags := if v = .drop then s.tags ++ [⟨during, s.opens⟩] else s.tags } ∧
      (v = .drop ↔ Queues s skb) ∧
      Rep q queueSize node b' (xs ++ if v = .drop then [packetAt skb (pushedLen skb)] else []) := by
  obtain ⟨v, q, b', hrest, hv, hrep'⟩ := nfHandleRest_rep hrep skb
  refine ⟨v, q, b', by simp only [trafficStep, hp, hrest, Option.map_some], hv.trans ?_, hrep'⟩
  rw [← hrep.queued]
  constructor
  · rintro ⟨hreach, hfits, hroom⟩
    exact ⟨hreach, hfits, hroom⟩
  · intro hq
    exact ⟨hq.reaches, hq.fits, hq.room⟩

theorem hookRest (h : TrafficInv dev node s) {p : Nat} (hC : InOrder s (.hookRest p)) :
    ∃ s', trafficStep s (.hookRest p) = some s' ∧ TrafficInv dev node s' := by
  cases hp : s.hook p with
  | idle => exact ⟨s, by simp [trafficStep, hp], h⟩
  | tested skb during =>
    obtain ⟨b, xs, hrep, hlen⟩ := h.rep
    obtain ⟨v, q, b', hstep, hv, hrep'⟩ := hookRest_step hp hrep
    obtain ⟨f, q0, hdev⟩ := h.config
    have h' : TrafficInv dev node (s.setHook p .idle) :=
      h.setHook fun skb during hk => by cases hk
    obtain ⟨hold, htags, hhook⟩ := h'.old
    refine ⟨_, hstep, ⟨f, q, by rw [hdev]⟩, ⟨b', _, hrep', ?_⟩, h.flag, h'.alone, h'.opened,
      h'.listed, ?_, ⟨hold, ?_, hhook⟩, h'.finite,
      ⟨h.isolated.one, h.isolated.reads, h.isolated.discards⟩⟩
    · cases v <;> simp [hlen]
    · intro t ht
      cases v with
      | accept => exact h.tags t ht
      | drop =>
        simp only [if_true, List.mem_append, List.mem_singleton] at ht
        rcases ht with ht | rfl
        · exact h.tags t ht
        · -- the packet was tested in the session that is live now
          obtain ⟨i, hi, hlive⟩ := hC skb during hp (hv.mp rfl)
          refine ⟨i, hlive, hi, fun j hj => ?_⟩
          obtain ⟨o, ho⟩ := hlive
          obtain ⟨o', ho'⟩ := h.opened j hj
          exact Nat.le_of_eq (h.live_eq ho ⟨o', .inl ho'⟩)
    · intro t ht
      cases v with
      | accept => exact htags t ht
      | drop =>
        simp only [if_true, List.mem_append, List.mem_singleton] at ht
        rcases ht with ht | rfl
        · exact htags t ht
        · exact h.old.2.2 p skb during hp

/-- A read takes the oldest packet and its tag. -/
theorem read_step {o i b : Nat} {x : Packet} {ys : List Packet} {t : Tag} {ts : List Tag}
    (ho : s.user o = .inSession i) (hrep : Rep s.dev.rQueue queueSize node b (x :: ys))
    (ht : s.tags = t :: ts) (size : Nat) :
    ∃ q b', trafficStep s (.read o size) =
        some { s with
          dev := { s.dev with rQueue := q }
          reads := s.reads ++ [(i, t)]
          tags := ts } ∧
      Rep q queueSize node b' ys := by
  obtain ⟨q, b', hread, hrep'⟩ := chrRead_cons hrep size 0
  refine ⟨q, b', ?_, hrep'⟩
  simp only [trafficStep, ho, hread, ht, Option.map_some, ne_eq, not_true, if_false,
    Int.natCast_nonneg, if_true, List.take_succ_cons, List.take_zero, List.map_cons, List.map_nil,
    List.tail_cons]

theorem read (h : TrafficInv dev node s) (o size : Nat) :
    ∃ s', trafficStep s (.read o size) = some s' ∧ TrafficInv dev node s' := by
  cases ho : s.user o with
  | inSession i =>
    obtain ⟨b, xs, hrep, hlen⟩ := h.rep
    cases xs with
    | nil =>
      exact ⟨s, by simp [trafficStep, ho, chrRead_nil hrep, eagain], h⟩
    | cons x ys =>
      obtain ⟨f, q0, hdev⟩ := h.config
      obtain ⟨hold, htags, hhook⟩ := h.old
      cases ht : s.tags with
      | nil =>
        rw [ht] at hlen
        cases hlen
      | cons t ts =>
        have hmem : ∀ t' ∈ ts, t' ∈ s.tags := fun t' ht' => by simp [ht, ht']
        rw [ht, List.length_cons, List.length_cons] at hlen
        obtain ⟨q, b', hstep, hrep'⟩ := read_step ho hrep ht size
        refine ⟨_, hstep, ⟨f, q, by rw [hdev]⟩, ⟨b', ys, hrep', Nat.succ.inj hlen⟩, h.flag, h.alone,
          h.opened, h.listed, fun t' ht' => h.tags t' (hmem t' ht'),
          ⟨hold, fun t' ht' => htags t' (hmem t' ht'), hhook⟩, h.finite,
          ⟨h.isolated.one, ?_, h.isolated.discards⟩⟩
        intro j t' hjt
        simp only [List.mem_append, List.mem_singleton, Prod.mk.injEq] at hjt
        rcases hjt with hjt | ⟨rfl, rfl⟩
        · exact h.isolated.reads j t' hjt
        · obtain ⟨j', hj', htested, -⟩ := h.tags t' (by simp [ht])
          rwa [h.live_eq (.inl ho) hj'] at htested
  | _ => exact ⟨s, by simp [trafficStep, ho], h⟩

end TrafficInv

theorem trafficStep_inv {dev : Device} {node : Nat → Nat} (s : Traffic) (i : TrafficStep)
    (h : TrafficInv dev node s) (hC : InOrder s i) :
    ∃ s', trafficStep s i = some s' ∧ TrafficInv dev node s' := by
  cases i with
  | openTest o => exact h.openTest o
  | openSet o => exact h.openSet hC
  | releaseFlag o => exact h.releaseFlag o
  | releaseReset o => exact h.releaseReset o
  | hookTest p skb => exact h.hookTest p skb
  | hookRest p => exact h.hookRest hC
  | read o size => exact h.read o size

/-- A device of any configuration, closed and with nothing queued. -/
theorem trafficInv_start {dev : Device} {q : QueueMem} {node : Nat → Nat}
    (h : Rep q queueSize node 0 []) :
    TrafficInv dev node (.start { dev with flockFlag := false, rQueue := q }) where
  config := ⟨false, q, rfl⟩
  rep := ⟨0, [], h, rfl⟩
  flag := by simp [Traffic.start]
  alone := by
    rintro o o' i i' (hi | hi)
    · cases hi
    · cases hi
  opened := by simp [Traffic.start]
  listed := by
    intro o i hi
    cases hi
  tags := by simp [Traffic.start]
  old := by
    refine ⟨?_, by simp [Traffic.start], ?_⟩
    · rintro i ⟨o, hi | hi⟩
      · cases hi
      · cases hi
    · intro p skb during hp
      cases hp
  finite := ⟨0, fun _ _ => ⟨rfl, rfl⟩⟩
  isolated := ⟨by simp [Traffic.start], by simp [Traffic.start], by simp [Traffic.start]⟩

end Dgram
end Xsky
