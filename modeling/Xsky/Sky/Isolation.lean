import Xsky.Sky.Flows

/-!
# Sky.Isolation

Whether the packets of a source are only ever sent on because of its own SYNs.

Two things let others in. The way back of a connection is stored like any other entry, under the
endpoint the connection leads to, so that packets from there are sent to the client. And a removal
clears one entry at most, and none when a page with entries stands before that of the entry, so what
several SYNs of a source have stored outlives its FIN. `flows_isolated`: apart from these, every
packet that is no SYN is sent to a destination of its own source while that has a connection open,
or passes as it is.
-/

namespace Xsky
namespace Sky

open Kit

/-- `s` has sent a SYN for `d`. -/
def Asked (past : List Event) (s d : Endpoint) : Prop := ⟨s, .syn d⟩ ∈ past

/-- The hook accepts the packet. If it is no SYN it passes as it is, or its source has a connection
open and it goes to a destination its source has asked for. -/
def Isolated (k : Kernel) (w : World) (a : Arrival) : Prop :=
  ∃ out r, serverPreRoutingSky k a.frame w.routes a.skb = some (.accept, out, r) ∧
    (a.skb.flat.opens = false →
      out.packet = a.skb.packet ∨
        live w.past a.src ≠ none ∧ Asked w.past a.src out.target)

/-- A packet that is no SYN comes from a source no other source has asked for; and when it is a FIN
or RST, the table has at most one entry for its source, in the first page with entries. -/
def StaysApart (w : World) (a : Arrival) : Prop :=
  match a.kind with
  | .syn _ => True
  | .fin =>
    (∀ t, t ≠ a.src → ¬ Asked w.past t a.src) ∧
      ∀ x, findRouteSky w.routes a.src.key = some x →
        firstUsed (w.routes x.bucket) = x.page ∧
          ∀ y, w.routes.HasKey a.src.key y → y = x
  | .data => ∀ t, t ≠ a.src → ¬ Asked w.past t a.src

/-- What explains an entry with key `s` and destination `d`: another source has asked for `s`, or
`s` has asked for `d` and has a connection open. -/
def Explained (past : List Event) (s d : Endpoint) : Prop :=
  (∃ t, t ≠ s ∧ Asked past t s) ∨ live past s ≠ none ∧ Asked past s d

/-- The invariant: there is an explanation for every entry. -/
structure Accountable (w : World) : Prop where
  tidy : w.routes.Tidy
  explained : w.routes.All (Entries fun _ e =>
    ∀ s, sameKey e.first s.key = true → Explained w.past s e.second.names)

theorem Accountable.start : Accountable .start := ⟨.empty, Routes.empty_all⟩

section Steps

variable {past : List Event} {s t d x : Endpoint}

theorem Explained.cons {e : Event} (h : Explained past s d)
    (hlive : live past s ≠ none → live (e :: past) s ≠ none) : Explained (e :: past) s d := by
  obtain ⟨t, ht, hasked⟩ | ⟨hl, hasked⟩ := h
  · exact .inl ⟨t, ht, List.mem_cons_of_mem _ hasked⟩
  · exact .inr ⟨hlive hl, List.mem_cons_of_mem _ hasked⟩

/-- A SYN of `t` for `d` explains both entries it stores. -/
theorem explained_syn : Explained (⟨t, .syn d⟩ :: past) t d := by
  refine .inr ⟨?_, List.mem_cons_self⟩
  simp [live]

theorem explained_back : Explained (⟨t, .syn d⟩ :: past) d t := by
  by_cases h : t = d
  · subst h
    exact explained_syn
  · exact .inl ⟨t, h, List.mem_cons_self⟩

theorem live_syn (h : live past s ≠ none) : live (⟨t, .syn d⟩ :: past) s ≠ none := by
  simp only [live]
  split
  · exact Option.some_ne_none d
  · exact h

theorem live_data : live (⟨t, .data⟩ :: past) s = live past s := by
  simp only [live, ite_self]

end Steps

theorem Accountable.syn {w : World} (h : Accountable w) (t d : Endpoint) :
    Accountable ⟨tableAfter w.routes ⟨t, .syn d⟩, ⟨t, .syn d⟩ :: w.past⟩ := by
  refine ⟨tableAfter_tidy h.tidy ⟨t, .syn d⟩, insertRouteSky_entries ?_ ?_ ?_⟩
  · exact fun b p hp => (h.explained b p hp).mono fun _ e he s hs => (he s hs).cons live_syn
  · intro s hs
    cases sameKey_key.mp hs
    exact explained_syn
  · intro s hs
    cases sameKey_key.mp hs
    exact explained_back

/-- After its FIN or RST nothing is stored for the source. -/
theorem removed_all {r : Routes} {s : Endpoint} (h : r.Tidy)
    (hown : ∀ x, findRouteSky r s.key = some x →
      firstUsed (r x.bucket) = x.page ∧ ∀ y, r.HasKey s.key y → y = x) (y : SlotRef) :
    ¬ (removeRouteSky r s.key).HasKey s.key y := by
  rintro ⟨e, he, hm⟩
  have hc := sameKey_code hm (key_code s)
  cases hf : findRouteSky r s.key with
  | none =>
    have hlook : r.lookup s.key = none := by rw [Routes.lookup, hf]; rfl
    simp only [removeRouteSky, hf] at he
    -- the entry would be in the bucket the lookup goes through
    obtain ⟨p, hp, hj⟩ := Routes.slot?_some.mp he
    rw [h.bucket he hm] at hp
    have := lookup_none_iff.mp hlook p (List.mem_of_getElem? hp) e
      (Vector.mem_iff_getElem?.mpr ⟨_, hj⟩)
    rw [hm] at this
    cases this
  | some x =>
    obtain ⟨hpage, honly⟩ := hown x hf
    obtain ⟨_, hb, _⟩ := h.found hf
    obtain ⟨hsame, _⟩ := removeRouteSky_cleared h.clean hf hb hpage
    rw [hsame y, Routes.slot?_clear] at he
    split at he
    · obtain ⟨_, _, rfl⟩ := Option.map_eq_some_iff.mp he
      exact hc rfl
    · rename_i hne
      exact hne (honly y ⟨e, he, hm⟩)

theorem Accountable.fin {w : World} (h : Accountable w) {t : Endpoint}
    (hown : ∀ x, findRouteSky w.routes t.key = some x →
      firstUsed (w.routes x.bucket) = x.page ∧ ∀ y, w.routes.HasKey t.key y → y = x) :
    Accountable ⟨tableAfter w.routes ⟨t, .fin⟩, ⟨t, .fin⟩ :: w.past⟩ := by
  refine ⟨tableAfter_tidy h.tidy ⟨t, .fin⟩, fun b p hp e he hc s hs => ?_⟩
  change p ∈ removeRouteSky w.routes t.key b at hp
  by_cases hst : t = s
  · subst hst
    obtain ⟨k, hk⟩ := List.getElem?_of_mem hp
    obtain ⟨j, hj⟩ := Vector.mem_iff_getElem?.mp he
    exact absurd ⟨e, Routes.slot?_some.mpr ⟨p, hk, hj⟩, hs⟩ (removed_all h.tidy hown ⟨b, k, j⟩)
  · have hexpl := removeRouteSky_entries t.key h.explained b p hp e he hc s hs
    exact hexpl.cons fun hl => by rw [live_other hst]; exact hl

theorem Accountable.data {w : World} (h : Accountable w) (t : Endpoint) :
    Accountable ⟨tableAfter w.routes ⟨t, .data⟩, ⟨t, .data⟩ :: w.past⟩ := by
  refine ⟨tableAfter_tidy h.tidy ⟨t, .data⟩, fun b p hp => (h.explained b p hp).mono ?_⟩
  exact fun _ e he s hs => (he s hs).cons fun hl => by rw [live_data]; exact hl

theorem Accountable.step {k : Kernel} {w w' : World} {a : Arrival} (h : Accountable w)
    (ha : StaysApart w a) (hstep : worldStep k w a = some w') : Accountable w' := by
  rw [worldStep_eq, Option.some.injEq] at hstep
  subst hstep
  simp only [Arrival.event]
  simp only [StaysApart] at ha
  cases hk : a.kind with
  | syn d => exact h.syn a.src d
  | fin =>
    rw [hk] at ha
    exact h.fin ha.2
  | data => exact h.data a.src

theorem Accountable.isolated {k : Kernel} {w : World} {a : Arrival} (h : Accountable w)
    (ha : StaysApart w a) : Isolated k w a := by
  obtain ⟨out, hout, hsent⟩ := server_spec k w.routes a
  refine ⟨out, _, hout, fun hopens => ?_⟩
  have hsent' : sentTo w.routes a.event = (w.routes.lookup a.src.key).map (·.second.names) := by
    obtain ⟨hev, _⟩ | ⟨hev, _⟩ := Arrival.event_of_not_opens hopens
    · rw [hev]
      rfl
    · rw [hev]
      rfl
  have hapart : ∀ t, t ≠ a.src → ¬ Asked w.past t a.src := by
    simp only [StaysApart, Arrival.kind, hopens, Bool.false_eq_true, if_false] at ha
    cases hc : a.skb.flat.closes with
    | true =>
      simp only [hc, if_true] at ha
      exact ha.1
    | false =>
      simp only [hc, Bool.false_eq_true, if_false] at ha
      exact ha
  cases hlook : w.routes.lookup a.src.key with
  | none =>
    rw [hsent', hlook] at hsent
    cases hsent
    exact .inl a.tcp.flat_packet
  | some e =>
    rw [hsent', hlook] at hsent
    have htarget : out.target = e.second.names := hsent
    obtain ⟨⟨p, hp, he⟩, hm⟩ := lookup_some hlook
    have hc := sameKey_code hm (key_code a.src)
    rw [htarget]
    obtain ⟨t, ht, hasked⟩ | hown := h.explained _ p hp e he hc a.src hm
    · exact absurd hasked (hapart t ht)
    · exact .inr hown

/-- In a run without packets from endpoints others have asked for, in which every FIN and RST finds
all there is for its source, the packets of every source are its own affair. -/
theorem flows_isolated (k : Kernel) (as : List Arrival)
    (h : Along (worldStep k) StaysApart .start as) :
    Along (worldStep k) (Isolated k) .start as :=
  along_of_along (fun _ _ hw ha => ⟨hw.isolated ha, fun _ hs => hw.step ha hs⟩) Accountable.start h

/-- The one slot of the client after its SYN. -/
theorem once_hasKey (y : SlotRef)
    (h : (insertRouteSky .empty (flowPair client siteA)).HasKey client.key y) :
    y = ⟨bucketOf client.key, 0, 0⟩ := by
  obtain ⟨e, he, hm⟩ := h
  obtain ⟨b, k, j⟩ := y
  have hb : b = bucketOf client.key :=
    (tableAfter_tidy .empty ⟨client, .syn siteA⟩).bucket he hm
  subst hb
  obtain ⟨p, hp, hj⟩ := Routes.slot?_some.mp he
  have hlen : (insertRouteSky .empty (flowPair client siteA) (bucketOf client.key)).length = 1 := by
    decide +kernel
  obtain ⟨hk, _⟩ := List.getElem?_eq_some_iff.mp hp
  have hk0 : k = 0 := by
    simp only at hk
    omega
  subst hk0
  have hall : ((insertRouteSky .empty (flowPair client siteA) (bucketOf client.key))[0]?).all
      (fun p => (List.range skyDataPairSize).all fun j => !p.hasKeyAt client.key j || j == 0) =
        true := by decide +kernel
  rw [hp, Option.all_some, List.all_eq_true] at hall
  have hj0 := hall j (List.mem_range.mpr (SkyDataPage.getElem?_lt hj))
  have hkey : p.hasKeyAt client.key j = true := by
    rw [SkyDataPage.hasKeyAt, hj]
    exact hm
  rw [hkey] at hj0
  have : j = 0 := by simpa using hj0
  subst this
  rfl

/-- One connection, opened, used, closed, and a packet too many. -/
theorem flows_isolated_once :
    Along (worldStep softwareKernel) (Isolated softwareKernel) .start [synA, ack, finAck, ack] := by
  apply flows_isolated
  have hack : ack.kind = .data ∧ ack.src = client :=
    ⟨congrArg Event.kind ack_event, congrArg Event.src ack_event⟩
  have hfin : finAck.kind = .fin ∧ finAck.src = client :=
    ⟨congrArg Event.kind finAck_event, congrArg Event.src finAck_event⟩
  have hsyn : synA.kind = .syn siteA := congrArg Event.kind synA_event
  have halone : ∀ e past, e = ⟨client, .syn siteA⟩ ∨ (∀ d, e.kind ≠ .syn d) →
      (∀ t, t ≠ client → ¬ Asked past t client) →
      ∀ t, t ≠ client → ¬ Asked (e :: past) t client := by
    intro e past he hpast t ht hasked
    obtain heq | hmem := List.mem_cons.mp hasked
    · obtain rfl | hno := he
      · cases heq
      · exact hno client (congrArg Event.kind heq).symm
    · exact hpast t ht hmem
  have h1 := halone ⟨client, .syn siteA⟩ [] (.inl rfl) fun _ _ h => nomatch h
  have h2 := halone ⟨client, .data⟩ _ (.inr fun _ h => nomatch h) h1
  have h3 := halone ⟨client, .fin⟩ _ (.inr fun _ h => nomatch h) h2
  refine ⟨by rw [StaysApart, hsyn]; trivial, fun w1 hw1 => ?_⟩
  rw [worldStep_eq, synA_event, Option.some.injEq] at hw1
  subst hw1
  refine ⟨by rw [StaysApart, hack.1, hack.2]; exact h1, fun w2 hw2 => ?_⟩
  rw [worldStep_eq, ack_event, Option.some.injEq] at hw2
  subst hw2
  refine ⟨?_, fun w3 hw3 => ?_⟩
  · rw [StaysApart, hfin.1, hfin.2]
    refine ⟨h2, fun x hx => ?_⟩
    have hfind : findRouteSky (insertRouteSky .empty (flowPair client siteA)) client.key =
        some ⟨bucketOf client.key, 0, 0⟩ := by decide +kernel
    cases hfind.symm.trans hx
    exact ⟨by decide +kernel, once_hasKey⟩
  rw [worldStep_eq, finAck_event, Option.some.injEq] at hw3
  subst hw3
  exact ⟨by rw [StaysApart, hack.1, hack.2]; exact h3, fun _ _ => trivial⟩

/-- A SYN sent twice stores two entries, and the FIN clears one: a packet after it is still sent
on. -/
theorem flow_outlives_fin :
    ¬ Along (worldStep softwareKernel) (Isolated softwareKernel) .start
      [synA, synA, finAck, ack] := by
  rintro ⟨_, h⟩
  obtain ⟨_, h⟩ := h _ (worldStep_eq _ _ _)
  obtain ⟨_, h⟩ := h _ (worldStep_eq _ _ _)
  obtain ⟨⟨out, r, hout, hiso⟩, _⟩ := h _ (worldStep_eq _ _ _)
  simp only [synA_event, finAck_event] at hout hiso
  obtain hsame | ⟨hlive, _⟩ := hiso (by decide +kernel)
  · have hpacket : (serverPreRoutingSky softwareKernel ack.frame
        (tableAfter (tableAfter (tableAfter .empty ⟨client, .syn siteA⟩) ⟨client, .syn siteA⟩)
          ⟨client, .fin⟩) ack.skb).map (fun x => x.2.1.packet) ≠ some ack.skb.packet := by
      decide +kernel
    apply hpacket
    change (serverPreRoutingSky softwareKernel ack.frame
        (tableAfter (tableAfter (tableAfter .empty ⟨client, .syn siteA⟩) ⟨client, .syn siteA⟩)
          ⟨client, .fin⟩) ack.skb) = _ at hout
    rw [hout, Option.map_some, hsame]
  · exact hlive (by decide +kernel)

end Sky
end Xsky
