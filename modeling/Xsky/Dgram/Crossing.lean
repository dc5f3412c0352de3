import Xsky.Dgram.Interleaved

/-!
# Dgram.Crossing

Where a step out of order leads.

* A session that opens while another is open is a second one; while another is being released, it
  reads what is left of that one, or loses its own packets to the reset.
* A packet of an old test that is queued is read in the end by a session it was not tested in.

`sessions_isolated`: sessions are isolated in a run whose steps are all in order, and the first step
that is not can be continued to a run in which they are not. `late_reset_discards` is one.
-/

namespace Xsky
namespace Dgram

open Kit

variable {dev : Device} {node : Nat → Nat} {s : Traffic}

/-- The process opens the next session. -/
def Traffic.opened (s : Traffic) (o : Nat) : Traffic :=
  { s.setUser o (.inSession s.next) with
    dev := { s.dev with flockFlag := true }
    opens := s.next :: s.opens
    next := s.next + 1 }

theorem openSet_step {o : Nat} (ho : s.user o = .tested) :
    trafficStep s (.openSet o) = some (s.opened o) := by
  simp only [trafficStep, ho, Traffic.opened]

theorem setUser_user_self (o : Nat) (u : UserAt) : (s.setUser o u).user o = u := by
  simp [Traffic.setUser]

theorem openTest_step {o : Nat} (ho : s.user o = .closed) (hflag : s.dev.flockFlag = false) :
    trafficStep s (.openTest o) = some (s.setUser o .tested) := by
  simp [trafficStep, ho, hflag]

theorem opened_user_self (o : Nat) : (s.opened o).user o = .inSession s.next := by
  simp [Traffic.opened, Traffic.setUser]

theorem opened_user_other {o o' : Nat} (hne : o' ≠ o) : (s.opened o).user o' = s.user o' := by
  simp [Traffic.opened, Traffic.setUser, hne]

theorem hookTest_step {p : Nat} (hp : s.hook p = .idle) (hflag : s.dev.flockFlag = true)
    (skb : Mem) :
    trafficStep s (.hookTest p skb) = some (s.setHook p (.tested skb s.opens)) := by
  simp [trafficStep, hp, hflag]

/-- The packet joins the queue. -/
def Traffic.pushed (s : Traffic) (p : Nat) (during : List Nat) (q : QueueMem) : Traffic :=
  { s.setHook p .idle with
    dev := { s.dev with rQueue := q }
    tags := s.tags ++ [⟨during, s.opens⟩] }

theorem pushed_step {p b : Nat} {skb : Mem} {during : List Nat} {xs : List Packet}
    (hp : s.hook p = .tested skb during) (hrep : Rep s.dev.rQueue queueSize node b xs)
    (hq : Queues s skb) :
    ∃ q b', trafficStep s (.hookRest p) = some (s.pushed p during q) ∧
      Rep q queueSize node b' (xs ++ [packetAt skb (pushedLen skb)]) := by
  obtain ⟨v, q, b', hstep, hv, hrep'⟩ := TrafficInv.hookRest_step hp hrep
  have hdrop : v = .drop := hv.mpr hq
  rw [if_pos hdrop] at hstep hrep'
  exact ⟨q, b', hstep, hrep'⟩

/-- Reads on end reach the packet queued last. -/
theorem read_until {o i : Nat} {t : Tag} {ts : List Tag} {b : Nat} {xs : List Packet}
    (ho : s.user o = .inSession i) (hrep : Rep s.dev.rQueue queueSize node b xs)
    (hlen : xs.length = s.tags.length) (ht : s.tags = ts ++ [t]) :
    ∃ s', run trafficStep s (List.replicate (ts.length + 1) (.read o 0)) = some s' ∧
      (i, t) ∈ s'.reads := by
  induction ts generalizing s b xs with
  | nil =>
    cases xs with
    | nil => simp [ht] at hlen
    | cons x ys =>
      obtain ⟨q, b', hstep, -⟩ := TrafficInv.read_step ho hrep ht 0
      exact ⟨_, by rw [List.replicate_succ, run_cons hstep]; rfl, by simp⟩
  | cons t1 ts ih =>
    cases xs with
    | nil => simp [ht] at hlen
    | cons x ys =>
      obtain ⟨q, b', hstep, hrep'⟩ := TrafficInv.read_step ho hrep ht 0
      have hlen' : ys.length = (ts ++ [t]).length := by
        rw [ht, List.cons_append, List.length_cons, List.length_cons] at hlen
        exact Nat.succ.inj hlen
      obtain ⟨s', hs', hmem⟩ := ih (s := { s with
        dev := { s.dev with rQueue := q }, reads := s.reads ++ [(i, t1)], tags := ts ++ [t] })
        ho hrep' hlen' rfl
      exact ⟨s', by rw [List.length_cons, List.replicate_succ, run_cons hstep]; exact hs', hmem⟩

/-! ## A session opened too early -/

/-- While a session is being released, another opens, diverts a packet and loses it. -/
theorem late_reset (h : TrafficInv dev node s) {o o' j p : Nat} {skb : Mem}
    (ho : s.user o = .tested) (ho' : s.user o' = .resetting j) (ht : s.tags = [])
    (hp : s.hook p = .idle) (hreach : reachesPush dev skb = true)
    (hfits : pushedLen skb ≤ xskyMtu) :
    ¬ Always trafficStep Isolated s
      [.openSet o, .hookTest p skb, .hookRest p, .releaseReset o'] := by
  have hne : o' ≠ o := by
    rintro rfl
    rw [ho] at ho'
    cases ho'
  obtain ⟨f, q0, hdev⟩ := h.config
  obtain ⟨b, xs, hrep, hlen⟩ := h.rep
  obtain rfl : xs = [] := List.eq_nil_of_length_eq_zero (by rw [hlen, ht]; rfl)
  have hwait : ((s.opened o).setHook p (.tested skb (s.opened o).opens)).hook p =
      .tested skb (s.opened o).opens := by
    simp [Traffic.setHook]
  have hq : Queues ((s.opened o).setHook p (.tested skb (s.opened o).opens)) skb := by
    refine ⟨?_, hfits, ?_⟩
    · simp only [Traffic.opened, Traffic.setHook, hdev]
      exact hreach
    · have hqueued : queued s.dev.rQueue = [] := hrep.queued
      simp only [Traffic.opened, Traffic.setHook, Traffic.setUser, hqueued]
      decide
  obtain ⟨q, b', hstep, -⟩ := pushed_step hwait hrep hq
  intro halways
  obtain ⟨-, s1, h1, -, s2, h2, -, s3, h3, -, s4, h4, hlost⟩ := halways
  rw [openSet_step ho] at h1
  cases h1
  rw [hookTest_step (by exact hp) rfl] at h2
  cases h2
  rw [hstep] at h3
  cases h3
  have hreset := (opened_user_other hne).trans ho'
  simp only [trafficStep, Traffic.pushed, Traffic.setHook, hreset] at h4
  cases h4
  have hlater : s.next ≤ j := by
    refine hlost.discards j ⟨s.next :: s.opens, s.next :: s.opens⟩ ?_ s.next (by simp)
    simp [Traffic.opened, Traffic.setUser, ht]
  have hearlier : j < s.next := h.old.1 j ⟨o', .inr ho'⟩
  omega

theorem crosses_openSet (h : TrafficInv dev node s) {o : Nat} {skb : Mem}
    (hreach : reachesPush dev skb = true) (hfits : pushedLen skb ≤ xskyMtu)
    (hC : ¬ InOrder s (.openSet o)) : ∃ js, ¬ Always trafficStep Isolated s (.openSet o :: js) := by
  obtain ⟨ho, hlive⟩ := Classical.not_imp.mp hC
  obtain ⟨j, o', hholds⟩ := not_forall_not.mp hlive
  rcases hholds with ho' | ho'
  · -- a second session
    refine ⟨[], not_always_of_run (run_cons (openSet_step ho)) fun hi => ?_⟩
    have hone := hi.one
    simp [Traffic.opened, h.listed o' j ho'] at hone
  · cases ht : s.tags with
    | nil =>
      obtain ⟨n, hn⟩ := h.finite
      exact ⟨_, late_reset h ho ho' ht (hn n (Nat.le_refl n)).2 hreach hfits⟩
    | cons t ts =>
      -- the new session reads what is left of the old one
      obtain ⟨b, xs, hrep, hlen⟩ := h.rep
      cases xs with
      | nil => simp [ht] at hlen
      | cons x ys =>
        obtain ⟨q, b', hstep, -⟩ := @TrafficInv.read_step node (s.opened o) o s.next b x ys t ts
          (opened_user_self o) hrep ht 0
        refine ⟨[.read o 0], not_always_of_run
          ((run_cons (openSet_step ho)).trans (run_cons hstep)) fun hi => ?_⟩
        have htested : s.next ∈ t.tested := hi.reads s.next t (by simp)
        have := h.old.2.1 t (by simp [ht]) s.next htested
        omega

/-! ## A packet queued too late -/

/-- The packet is read by the session that is open, or by the next. -/
theorem crosses_hookRest (h : TrafficInv dev node s) {p : Nat} (hC : ¬ InOrder s (.hookRest p)) :
    ∃ js, ¬ Always trafficStep Isolated s (.hookRest p :: js) := by
  have hstale : ∃ skb during, s.hook p = .tested skb during ∧ Queues s skb ∧
      ∀ i ∈ during, ¬ s.Live i := by
    simpa [InOrder] using hC
  obtain ⟨skb, during, hp, hqueues, hdead⟩ := hstale
  obtain ⟨b, xs, hrep, hlen⟩ := h.rep
  obtain ⟨q, b', hstep, hrep'⟩ := pushed_step hp hrep hqueues
  by_cases hsession : ∃ o i, s.user o = .inSession i
  · obtain ⟨o, i, ho⟩ := hsession
    obtain ⟨s', hs', hmem⟩ := read_until (s := s.pushed p during q) ho hrep'
      (by simp [Traffic.pushed, hlen]) rfl
    refine ⟨_, not_always_of_run ((run_cons hstep).trans hs') fun hi => ?_⟩
    exact hdead i (hi.reads i _ hmem) ⟨o, .inl ho⟩
  · have hopens : s.opens = [] := by
      rcases h.opens_le with he | ⟨i, he⟩
      · exact he
      · obtain ⟨o, ho⟩ := h.opened i (by simp [he])
        exact absurd ⟨o, i, ho⟩ hsession
    have hflag : s.dev.flockFlag = false := by
      by_contra hf
      exact h.flag.mp (by simpa using hf) hopens
    obtain ⟨o, hn⟩ := h.finite
    have ho : s.user o = .closed := (hn o (Nat.le_refl o)).1
    have htest := openTest_step (s := s.pushed p during q) ho hflag
    have hset := openSet_step (setUser_user_self (s := s.pushed p during q) o .tested)
    obtain ⟨s', hs', hmem⟩ := read_until
      (opened_user_self (s := (s.pushed p during q).setUser o .tested) o) hrep'
      (by simp [Traffic.opened, Traffic.pushed, Traffic.setUser, hlen]) rfl
    refine ⟨_, not_always_of_run
      ((run_cons hstep).trans ((run_cons htest).trans ((run_cons hset).trans hs'))) fun hi => ?_⟩
    have htested : s.next ∈ during := hi.reads s.next _ hmem
    have := h.old.2.2 p skb during hp s.next htested
    omega

/-- A step out of order can be continued to a run that mixes two sessions, on a device that can
divert anything at all. -/
theorem crosses (h : TrafficInv dev node s) {i : TrafficStep} {skb : Mem}
    (hreach : reachesPush dev skb = true) (hfits : pushedLen skb ≤ xskyMtu)
    (hC : ¬ InOrder s i) : ∃ js, ¬ Always trafficStep Isolated s (i :: js) := by
  cases i with
  | openSet o => exact crosses_openSet h hreach hfits hC
  | hookRest p => exact crosses_hookRest h hC
  | _ => exact absurd trivial hC

/-- In a run whose steps are all in order one session is open at a time, a session reads what was
tested in it, and a release throws away nothing of a later one; and the first step out of order can
be continued to a run in which that fails. -/
theorem sessions_isolated (h : Heap) :
    ∃ q, xskyQueueInit h queueSize = some q ∧ ∀ dev : Device,
      (∀ is, Along trafficStep InOrder (.start { dev with flockFlag := false, rQueue := q }) is →
        Always trafficStep Isolated (.start { dev with flockFlag := false, rQueue := q }) is) ∧
      ∀ skb is s i, reachesPush dev skb = true → pushedLen skb ≤ xskyMtu →
        Along trafficStep InOrder (.start { dev with flockFlag := false, rQueue := q }) is →
        run trafficStep (.start { dev with flockFlag := false, rQueue := q }) is = some s →
        ¬ InOrder s i →
        ∃ js, ¬ Always trafficStep Isolated
          (.start { dev with flockFlag := false, rQueue := q }) (is ++ i :: js) := by
  obtain ⟨q, hq, hrep⟩ := deviceQueue_rep h
  refine ⟨q, hq, fun dev => ⟨fun is hC => ?_, fun skb is s i hreach hfits hC hrun hcross => ?_⟩⟩
  · exact (always_of_along trafficStep_inv (trafficInv_start hrep) hC).mono fun s hs => hs.isolated
  · have hinv := reached_of_along trafficStep_inv (trafficInv_start hrep) hC hrun
    obtain ⟨js, hjs⟩ := crosses hinv hreach hfits hcross
    exact ⟨js, not_always_append hrun hjs⟩

/-- A packet is diverted and read in a session, and then the session is over. -/
theorem sessions_isolated_once :
    ∃ q, xskyQueueInit Heap.empty queueSize = some q ∧
      Always trafficStep Isolated (.start (Device.init q))
        [.openTest 0, .openSet 0, .hookTest 0 udpDatagram, .hookRest 0, .read 0 64,
          .releaseFlag 0, .releaseReset 0] := by
  obtain ⟨q, hq, h⟩ := sessions_isolated Heap.empty
  refine ⟨q, hq, (h (Device.init q)).1 _ ⟨trivial, fun s1 h1 => ?_⟩⟩
  cases h1
  refine ⟨?_, fun s2 h2 => ?_⟩
  · rintro - i ⟨o, ho⟩
    by_cases h0 : o = 0
    · subst h0
      simp [Traffic.Holds, Traffic.setUser] at ho
    · simp [Traffic.Holds, Traffic.setUser, Traffic.start, h0] at ho
  cases h2
  refine ⟨trivial, fun s3 h3 => ?_⟩
  cases h3
  refine ⟨?_, fun _ _ => ⟨trivial, fun _ _ => ⟨trivial, fun _ _ => ⟨trivial, fun _ _ => trivial⟩⟩⟩⟩
  -- the session it was tested in is still open
  intro skb during hp _
  obtain ⟨-, rfl⟩ := HookAt.tested.inj hp
  exact ⟨0, List.mem_singleton_self 0, 0, .inl rfl⟩

/-- Process 1 opens between the two steps of the release of process 0, and the packet diverted for
it is thrown away. -/
theorem late_reset_discards :
    ∃ q, xskyQueueInit Heap.empty queueSize = some q ∧
      ¬ Always trafficStep Isolated (.start (Device.init q))
        [.openTest 0, .openSet 0, .releaseFlag 0, .openTest 1, .openSet 1,
          .hookTest 0 udpDatagram, .hookRest 0, .releaseReset 0] := by
  obtain ⟨q, hq, hrep⟩ := deviceQueue_rep Heap.empty
  refine ⟨q, hq, fun halways => ?_⟩
  have hin : Along trafficStep InOrder (.start (Device.init q))
      [.openTest 0, .openSet 0, .releaseFlag 0, .openTest 1] := by
    refine ⟨trivial, fun s1 h1 => ⟨?_, fun s2 _ => ⟨trivial, fun s3 _ => ⟨trivial, fun _ _ =>
      trivial⟩⟩⟩⟩
    rintro - i ⟨o, ho⟩
    cases h1
    by_cases h0 : o = 0
    · subst h0
      simp [Traffic.Holds, Traffic.setUser] at ho
    · simp [Traffic.Holds, Traffic.setUser, Traffic.start, h0] at ho
  have hinv : TrafficInv (Device.init q) _ (.start (Device.init q)) := trafficInv_start hrep
  obtain ⟨s, hs, hs'⟩ := (always_of_along trafficStep_inv hinv hin).run
  have hlate := halways.drop hs
  cases hs
  exact late_reset hs' rfl rfl rfl rfl (udpDatagram_reaches q) (by decide) hlate

end Dgram
end Xsky
