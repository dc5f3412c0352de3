import Xsky.Sky.Flows

/-!
# Sky.RecentSyn

Whether the packets of a source go where its most recent SYN said.

`insert_route_sky` never looks for an entry of the key it stores, so an older entry that is found
before the new one keeps deciding; and both halves of a pair are stored as keys, so a SYN to the
endpoint of another source can take its packets over. A removal that does not get to its own entry
goes on to clear entries of the endpoint its own one leads to. `recentSyn_wins`: in a run in which
none of this happens every packet goes where it should.
-/

namespace Xsky
namespace Sky

open Kit

/-- A packet that is no SYN goes to the destination of the most recent SYN of its source, if there
is one since the last FIN or RST. -/
def RecentSynWins (k : Kernel) (w : World) : Prop :=
  ∀ (a : Arrival) (d : Endpoint), a.skb.flat.opens = false → live w.past a.src = some d →
    ∃ out r, serverPreRoutingSky k a.frame w.routes a.skb = some (.accept, out, r) ∧
      out.target = d

/-- The destination the table has for a source. -/
def routed (r : Routes) (s : Endpoint) : Option Endpoint := (r.lookup s.key).map (·.second.names)

/-- An arrival leaves every source with the destination of its most recent SYN. A SYN: its entry is
stored before the others of its source, or the one found has the same destination already; and the
entry for the way back does not get before those of the source it is stored for, if that source has
an open connection to elsewhere. A FIN or RST: its entry is in the first page with entries, or leads
to an endpoint that is not a source with an open connection. -/
def KeepsRecent (w : World) (a : Arrival) : Prop :=
  match a.kind with
  | .syn d =>
    (leads w.routes (flowPair a.src d) = true ∨ routed w.routes a.src = some d) ∧
      (d ≠ a.src → ∀ e, live w.past d = some e → e = a.src ∨
        leads (insertHalf w.routes (flowPair a.src d)) (flowPair d a.src) = false)
  | .fin =>
    match findRouteSky w.routes a.src.key with
    | none => True
    | some s =>
      firstUsed (w.routes s.bucket) = s.page ∨
        (w.routes.pair s).second.names = a.src ∨
        live w.past (w.routes.pair s).second.names = none
  | .data => True

section Table

variable {r : Routes} {s t d : Endpoint}

theorem routed_insertHalf_other (h : t ≠ s) :
    routed (insertHalf r (flowPair t d)) s = routed r s := by
  have he : sameKey (flowPair t d).first s.key = false := sameKey_key_ne h
  rw [routed, lookup_insertHalf_other (key_code s) he, routed]

theorem routed_insertHalf_same :
    routed (insertHalf r (flowPair s d)) s =
      if leads r (flowPair s d) then some d else routed r s := by
  have he : sameKey (flowPair s d).first s.key = true := sameKey_key.mpr rfl
  rw [routed, lookup_insertHalf_same (key_code s) he rfl]
  split
  · rfl
  · rw [routed]

/-- Storing an entry gives its source its destination, or leaves it with the one it had. -/
theorem routed_insertHalf_of_routed (h : routed r s = some d) :
    routed (insertHalf r (flowPair s d)) s = some d := by
  rw [routed_insertHalf_same, h]
  split <;> rfl

/-- A removal for `t` leaves every other source alone, unless it clears entries of the endpoint that
its own entry leads to. -/
theorem routed_remove (h : r.Tidy) (hne : t ≠ s)
    (hown : ∀ x, findRouteSky r t.key = some x →
      firstUsed (r x.bucket) = x.page ∨ (r.pair x).second.names ≠ s) :
    routed (removeRouteSky r t.key) s = routed r s := by
  have hlook : (removeRouteSky r t.key).lookup s.key = r.lookup s.key := by
    cases hf : findRouteSky r t.key with
    | none => simp only [removeRouteSky, hf]
    | some x =>
      obtain ⟨_, hb, hm⟩ := h.found hf
      have hfirst : sameKey (r.pair x).first s.key = false := by
        rw [Bool.eq_false_iff]
        intro hms
        exact hne (sameKey_key.mp (sameKey_cancel hm hms))
      obtain hpage | hsecond := hown x hf
      · obtain ⟨hsame, _⟩ := removeRouteSky_cleared h.clean hf hb hpage
        exact lookup_cleared hsame (key_code s) hfirst
      · refine (removeRouteSky_pruned h.clean hf).lookup (key_code s) hfirst ?_
        rw [Bool.eq_false_iff]
        exact fun hms => hsecond (sameKey_names hms)
  rw [routed, hlook, routed]

end Table

/-- The invariant: the table has the destination of every open connection. -/
structure Current (w : World) : Prop where
  tidy : w.routes.Tidy
  routed : ∀ s d, live w.past s = some d → routed w.routes s = some d

theorem Current.start : Current .start := by
  refine ⟨.empty, fun s d h => ?_⟩
  cases h

theorem Current.wins {k : Kernel} {w : World} (h : Current w) : RecentSynWins k w := by
  intro a d hopens hlive
  obtain ⟨out, hout, hsent⟩ := server_spec k w.routes a
  have hd : sentTo w.routes a.event = some d := by
    obtain ⟨hev, _⟩ | ⟨hev, _⟩ := Arrival.event_of_not_opens hopens
    · rw [hev]
      exact h.routed _ _ hlive
    · rw [hev]
      exact h.routed _ _ hlive
  rw [hd] at hsent
  exact ⟨out, _, hout, hsent⟩

theorem Current.syn {w : World} {t d : Endpoint} (h : Current w)
    (hlead : leads w.routes (flowPair t d) = true ∨ Sky.routed w.routes t = some d)
    (hback : d ≠ t → ∀ e, live w.past d = some e → e = t ∨
      leads (insertHalf w.routes (flowPair t d)) (flowPair d t) = false) :
    Current ⟨tableAfter w.routes ⟨t, .syn d⟩, ⟨t, .syn d⟩ :: w.past⟩ := by
  refine ⟨tableAfter_tidy h.tidy ⟨t, .syn d⟩, fun s x hx => ?_⟩
  change Sky.routed (insertHalf (insertHalf w.routes (flowPair t d)) (flowPair d t)) s = some x
  by_cases hs : t = s
  · subst hs
    have hxd : x = d := by
      simp only [live, if_true, Option.some.injEq] at hx
      exact hx.symm
    subst hxd
    have hfwd : Sky.routed (insertHalf w.routes (flowPair t x)) t = some x := by
      rw [routed_insertHalf_same]
      obtain hl | hl := hlead
      · rw [if_pos hl]
      · rw [hl]
        split <;> rfl
    by_cases hxt : x = t
    · subst hxt
      exact routed_insertHalf_of_routed hfwd
    · rw [routed_insertHalf_other hxt]
      exact hfwd
  · rw [live_other hs] at hx
    have hfwd : Sky.routed (insertHalf w.routes (flowPair t d)) s = some x := by
      rw [routed_insertHalf_other hs]
      exact h.routed s x hx
    by_cases hd : d = s
    · subst hd
      obtain rfl | hno := hback (Ne.symm hs) x hx
      · exact routed_insertHalf_of_routed hfwd
      · rw [routed_insertHalf_same, hno]
        exact hfwd
    · rw [routed_insertHalf_other hd]
      exact hfwd

theorem Current.fin {w : World} {t : Endpoint} (h : Current w)
    (hown : ∀ x, findRouteSky w.routes t.key = some x →
      firstUsed (w.routes x.bucket) = x.page ∨ (w.routes.pair x).second.names = t ∨
        live w.past (w.routes.pair x).second.names = none) :
    Current ⟨tableAfter w.routes ⟨t, .fin⟩, ⟨t, .fin⟩ :: w.past⟩ := by
  refine ⟨tableAfter_tidy h.tidy ⟨t, .fin⟩, fun s x hx => ?_⟩
  by_cases hs : t = s
  · simp only [live, if_pos hs] at hx
    cases hx
  · rw [live_other hs] at hx
    change Sky.routed (removeRouteSky w.routes t.key) s = some x
    rw [routed_remove h.tidy hs fun y hy => ?_]
    · exact h.routed s x hx
    · obtain hpage | hself | hnone := hown y hy
      · exact .inl hpage
      · exact .inr fun hn => hs (hself.symm.trans hn)
      · refine .inr fun hn => ?_
        rw [hn, hx] at hnone
        cases hnone

theorem Current.data {w : World} {t : Endpoint} (h : Current w) :
    Current ⟨tableAfter w.routes ⟨t, .data⟩, ⟨t, .data⟩ :: w.past⟩ := by
  refine ⟨tableAfter_tidy h.tidy ⟨t, .data⟩, fun s x hx => h.routed s x ?_⟩
  simpa only [live, ite_self] using hx

theorem Current.step {k : Kernel} {w : World} {a : Arrival} (h : Current w)
    (ha : KeepsRecent w a) : ∃ w', worldStep k w a = some w' ∧ Current w' := by
  refine ⟨_, worldStep_eq k w a, ?_⟩
  simp only [Arrival.event]
  simp only [KeepsRecent] at ha
  cases hk : a.kind with
  | syn d =>
    rw [hk] at ha
    exact h.syn ha.1 ha.2
  | fin =>
    rw [hk] at ha
    refine h.fin fun x hx => ?_
    simpa only [hx] using ha
  | data => exact h.data

/-- In a run whose arrivals all keep what the sources were told, every packet goes to the
destination of the most recent SYN of its source. -/
theorem recentSyn_wins (k : Kernel) (as : List Arrival)
    (h : Along (worldStep k) KeepsRecent .start as) :
    Always (worldStep k) (RecentSynWins k) .start as :=
  (always_of_along (fun _ _ hw ha => hw.step ha) Current.start h).mono fun _ hw => hw.wins

/-- One connection, opened, used and closed. -/
theorem recentSyn_wins_once :
    Always (worldStep softwareKernel) (RecentSynWins softwareKernel) .start
      [synA, ack, finAck] := by
  apply recentSyn_wins
  refine ⟨?_, fun w1 h1 => ?_⟩
  · have hkind : synA.kind = .syn siteA := congrArg Event.kind synA_event
    rw [KeepsRecent, hkind]
    refine ⟨.inl (by decide +kernel), fun _ e he => ?_⟩
    cases he
  rw [worldStep_eq, synA_event, Option.some.injEq] at h1
  subst h1
  refine ⟨?_, fun w2 h2 => ?_⟩
  · have hkind : ack.kind = .data := congrArg Event.kind ack_event
    rw [KeepsRecent, hkind]
    trivial
  rw [worldStep_eq, ack_event, Option.some.injEq] at h2
  subst h2
  refine ⟨?_, fun _ _ => trivial⟩
  have hkind : finAck.kind = .fin := congrArg Event.kind finAck_event
  have hsrc : finAck.src = client := congrArg Event.src finAck_event
  have hfind : findRouteSky (insertRouteSky .empty (flowPair client siteA)) client.key =
      some ⟨bucketOf client.key, 0, 0⟩ := by decide +kernel
  rw [KeepsRecent, hkind, hsrc]
  change match findRouteSky (insertRouteSky .empty (flowPair client siteA)) client.key with
    | none => True
    | some s => _
  rw [hfind]
  exact .inl (by decide +kernel)

/-- A second SYN from the same endpoint, for another site, does not take effect: its packets still
go to the first. -/
theorem second_syn_ignored :
    ¬ Always (worldStep softwareKernel) (RecentSynWins softwareKernel) .start [synA, synB] := by
  rintro ⟨_, w1, h1, _, w2, h2, hwins⟩
  rw [worldStep_eq, synA_event, Option.some.injEq] at h1
  subst h1
  rw [worldStep_eq, synB_event, Option.some.injEq] at h2
  subst h2
  obtain ⟨out, r, hout, htarget⟩ := hwins ack siteB (by decide +kernel) (by decide +kernel)
  have hto : sentTo (tableAfter (tableAfter .empty ⟨client, .syn siteA⟩) ⟨client, .syn siteB⟩)
      ack.event = some siteA := by
    decide +kernel
  exact absurd (htarget.symm.trans (server_target hout hto)) (by decide)

end Sky
end Xsky
