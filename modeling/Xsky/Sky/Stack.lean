import Xsky.Sky.Flows

/-!
# Sky.Stack

What `server_pre_routing_sky` does with a stack variable it has not written, or not all of.

* `found_iff_bucket` — a lookup reads all 20 bytes of its key, to hash them, and compares 8 of them:
  keys that agree on those find the same slot when they have the same bucket, or when neither bucket
  holds the key.
* `left_alone_iff`   — a SYN is taken for one with an option in any case: what `get_toa_data_sky`
  returns is not looked at, and the variable is stored as it is.
-/

namespace Xsky
namespace Sky

open Kit

/-! ## Lookups -/

/-- The key with other bytes behind the fields of `v4`. -/
def SkyData.withRest (d : SkyData) (rest : BitVec 96) : SkyData := { d with rest := rest }

theorem sameKey_withRest (x d : SkyData) (rest : BitVec 96) :
    sameKey x (d.withRest rest) = sameKey x d := rfl

/-- No slot of the bucket has the key. -/
def Missing (r : Routes) (b : Nat) (d : SkyData) : Prop :=
  ∀ p ∈ r b, ∀ e ∈ p.pairs, sameKey e.first d = false

/-- The bytes behind the key do not matter to a lookup of it. -/
def SameFound (r : Routes) (d : SkyData) (rest : BitVec 96) : Prop :=
  bucketOf (d.withRest rest) = bucketOf d ∨
    Missing r (bucketOf d) d ∧ Missing r (bucketOf (d.withRest rest)) d

theorem findRouteSky_none_iff {r : Routes} {d : SkyData} :
    findRouteSky r d = none ↔ Missing r (bucketOf d) d := by
  rw [Missing, ← lookup_none_iff, Routes.lookup, Option.map_eq_none_iff]

theorem findRouteSky_bucket {r : Routes} {d : SkyData} {s : SlotRef}
    (h : findRouteSky r d = some s) : s.bucket = bucketOf d := (findRouteSky_some h).1

theorem findInChain_withRest (d : SkyData) (rest : BitVec 96) (ps : List SkyDataPage) (n : Nat) :
    findInChain (d.withRest rest) ps n = findInChain d ps n := by
  induction ps generalizing n with
  | nil => rfl
  | cons p ps ih =>
    simp only [findInChain, sameKey_withRest, ih]

theorem findRouteSky_withRest_iff (r : Routes) (d : SkyData) (rest : BitVec 96) :
    findRouteSky r (d.withRest rest) = findRouteSky r d ↔ SameFound r d rest := by
  by_cases hb : bucketOf (d.withRest rest) = bucketOf d
  · refine ⟨fun _ => .inl hb, fun _ => ?_⟩
    simp only [findRouteSky, hb, findInChain_withRest]
  · have hmissing : Missing r (bucketOf (d.withRest rest)) (d.withRest rest) ↔
        Missing r (bucketOf (d.withRest rest)) d := Iff.rfl
    constructor
    · intro h
      cases hf : findRouteSky r d with
      | none =>
        rw [hf] at h
        exact .inr ⟨findRouteSky_none_iff.mp hf, hmissing.mp (findRouteSky_none_iff.mp h)⟩
      | some s =>
        -- a slot is in one bucket only
        rw [hf] at h
        exact absurd ((findRouteSky_bucket h).symm.trans (findRouteSky_bucket hf)) hb
    · rintro (heq | ⟨h, h'⟩)
      · exact absurd heq hb
      · rw [findRouteSky_none_iff.mpr h, findRouteSky_none_iff.mpr (hmissing.mpr h')]

/-- The key the hook looks up for a packet that is no SYN, in its variable `data`. -/
def serverKey (frame : ServerFrame) (skb : SkBuff) : SkyData :=
  frame.data.endpoint (ipSaddr skb.flat.mem skb.flat.networkHeader)
    (tcpSource skb.flat.mem skb.flat.transportHeader)

/-- Keys that agree on code, size, port and address find the same slot, and so does the hook
whatever was on its stack, if and only if they have the same bucket or both buckets miss the key. -/
theorem found_iff_bucket (r : Routes) :
    (∀ d rest, findRouteSky r (d.withRest rest) = findRouteSky r d ↔ SameFound r d rest) ∧
    ∀ frame stack skb,
      findRouteSky r (serverKey { frame with data := stack } skb) =
          findRouteSky r (serverKey frame skb) ↔
        SameFound r (serverKey frame skb) stack.rest := by
  refine ⟨findRouteSky_withRest_iff r, fun frame stack skb => ?_⟩
  rw [← findRouteSky_withRest_iff]
  rfl

/-- The hook's variable matters to a packet that is no SYN through that lookup alone. -/
theorem server_of_found {k : Kernel} {frame : ServerFrame} {stack : SkyData} {r : Routes}
    {skb : SkBuff}
    (hopens : (tcpSyn skb.flat.mem skb.flat.transportHeader &&
      !tcpAck skb.flat.mem skb.flat.transportHeader) = false)
    (hfound : findRouteSky r (serverKey { frame with data := stack } skb) =
      findRouteSky r (serverKey frame skb)) :
    serverPreRoutingSky k { frame with data := stack } r skb =
      serverPreRoutingSky k frame r skb := by
  have hremove : removeRouteSky r (serverKey { frame with data := stack } skb) =
      removeRouteSky r (serverKey frame skb) := by
    simp only [removeRouteSky, hfound]
  simp only [serverKey] at hfound hremove
  simp only [serverPreRoutingSky, hopens, Bool.false_eq_true, if_false, hfound, hremove]

/-- A client the server knows, looked up with another byte on the stack. -/
theorem stack_hides_client :
    let client : SkyData := ⟨253, 8, 0x901f, 0x0a00000a, 0⟩
    let site : SkyData := ⟨253, 8, 0xbb01, 0x22d8b85d, 0⟩
    let r := routeStep .empty (.insert ⟨client, site⟩ (by decide) (by decide))
    ¬ findRouteSky r (client.withRest 1) = findRouteSky r client := by
  decide +kernel

/-! ## Stores that are lost -/

/-- The page picked for an entry has no free slot, though it counts fewer entries than it has room
for. -/
def overfull : List SkyDataPage → Bool
  | [] => false
  | p :: ps =>
    if p.used < skyDataPairSize then
      decide (¬ p.seek (fun s => s.first.code = 0) 0 < skyDataPairSize)
    else overfull ps

def loses (r : Routes) (e : SkyDataPair) : Bool := overfull (r (bucketOf e.first))

/-- A number that every store not lost makes larger. -/
def load : List SkyDataPage → Nat
  | [] => 0
  | p :: ps => p.used + 1 + load ps

theorem storeInChain_load {e : SkyDataPair} {ps qs : List SkyDataPage}
    (h : storeInChain e ps = some qs) :
    (overfull ps = true ∧ qs = ps) ∨ (overfull ps = false ∧ load ps < load qs) := by
  induction ps generalizing qs with
  | nil => cases h
  | cons p ps ih =>
    simp only [storeInChain] at h
    simp only [overfull]
    split at h
    · rename_i hu
      cases h
      rw [if_pos hu]
      by_cases hseek : p.seek (fun s => s.first.code = 0) 0 < skyDataPairSize
      · right
        simp only [SkyDataPage.store, if_pos hseek, load]
        refine ⟨by simpa using hseek, ?_⟩
        omega
      · left
        simp only [SkyDataPage.store, if_neg hseek]
        exact ⟨by simpa using hseek, trivial⟩
    · rename_i hu
      obtain ⟨qs', hqs, rfl⟩ := Option.map_eq_some_iff.mp h
      rw [if_neg hu]
      obtain ⟨hover, rfl⟩ | ⟨hover, hlt⟩ := ih hqs
      · exact .inl ⟨hover, rfl⟩
      · refine .inr ⟨hover, ?_⟩
        simp only [load] at hlt ⊢
        omega

theorem overfull_none {e : SkyDataPair} {ps : List SkyDataPage} (h : storeInChain e ps = none) :
    overfull ps = false := by
  induction ps with
  | nil => rfl
  | cons p ps ih =>
    simp only [storeInChain] at h
    split at h
    · cases h
    · rename_i hu
      rw [overfull, if_neg hu]
      exact ih (Option.map_eq_none_iff.mp h)

theorem setChain_same (r : Routes) (b : Nat) : r.setChain b (r b) = r := by
  funext c
  by_cases hc : c = b
  · subst hc
    exact Routes.setChain_self _ _ _
  · exact Routes.setChain_other _ _ hc

/-- One half of an insert changes nothing or makes its chain larger. -/
theorem insertHalf_load (r : Routes) (e : SkyDataPair) :
    (loses r e = true ∧ insertHalf r e = r) ∨
      (loses r e = false ∧
        load (r (bucketOf e.first)) < load (insertHalf r e (bucketOf e.first))) := by
  cases hps : storeInChain e (r (bucketOf e.first)) with
  | none =>
    refine .inr ⟨overfull_none hps, ?_⟩
    rw [insertHalf_chain, hps, Option.getD_none]
    simp only [load]
    omega
  | some qs =>
    obtain ⟨hover, rfl⟩ | ⟨hover, hlt⟩ := storeInChain_load hps
    · refine .inl ⟨hover, ?_⟩
      simp only [insertHalf, hps]
      exact setChain_same r _
    · refine .inr ⟨hover, ?_⟩
      rw [insertHalf_chain, hps, Option.getD_some]
      exact hlt

theorem load_insertHalf_le (r : Routes) (e : SkyDataPair) (b : Nat) :
    load (r b) ≤ load (insertHalf r e b) := by
  by_cases hb : b = bucketOf e.first
  · subst hb
    obtain ⟨_, heq⟩ | ⟨_, hlt⟩ := insertHalf_load r e
    · exact Nat.le_of_eq (by rw [heq])
    · exact Nat.le_of_lt hlt
  · exact Nat.le_of_eq (by rw [insertHalf_chain_other hb])

/-- An insert leaves the table as it is when both of its stores are lost, and only then. -/
theorem insertRouteSky_same_iff (r : Routes) (pair : SkyDataPair) :
    insertRouteSky r pair = r ↔ loses r pair = true ∧ loses r pair.swap = true := by
  change insertHalf (insertHalf r pair) pair.swap = r ↔ _
  obtain ⟨hlost, heq⟩ | ⟨hkept, hlt⟩ := insertHalf_load r pair
  · rw [heq]
    obtain ⟨hlost', heq'⟩ | ⟨hkept', hlt'⟩ := insertHalf_load r pair.swap
    · exact ⟨fun _ => ⟨hlost, hlost'⟩, fun _ => heq'⟩
    · constructor
      · intro h
        rw [h] at hlt'
        exact absurd hlt' (Nat.lt_irrefl _)
      · intro h
        rw [h.2] at hkept'
        cases hkept'
  · constructor
    · intro h
      have hle := load_insertHalf_le (insertHalf r pair) pair.swap (bucketOf pair.first)
      rw [h] at hle
      omega
    · intro h
      rw [h.1] at hkept
      cases hkept

/-! ## A SYN -/

/-- A SYN, no acknowledgement, to port 48888. The packet may end within its headers. -/
structure SkySyn (skb : SkBuff) : Prop where
  header : 20 ≤ skb.headlen
  headed : skb.flat.Headed
  protocol_eq : skb.flat.protocol = 6
  opens : skb.flat.opens = true
  dest : skb.flat.dest = portSky

/-- The hook returns without taking the packet. -/
def Untaken (frame : ServerFrame) (skb : SkBuff) : Prop :=
  isLocalAddr skb.mem (skb.networkHeader + 16) = true ∨
    skb.frags ≠ [] ∧ frame.linearizes = false

/-- The variable `data` when it is stored. -/
def storedData (frame : ServerFrame) (skb : SkBuff) : SkyData :=
  (getToaDataSky skb.flat frame.buff frame.data).getD frame.data

def storedPair (frame : ServerFrame) (skb : SkBuff) : SkyDataPair :=
  ⟨frame.pair.first.endpoint skb.flat.saddr skb.flat.source, storedData frame skb⟩

/-- The hook leaves the table and the destination of the packet as they are. -/
def LeavesAlone (k : Kernel) (frame : ServerFrame) (r : Routes) (skb : SkBuff) : Prop :=
  ∃ v out, serverPreRoutingSky k frame r skb = some (v, out, r) ∧
    out.flat.target = skb.flat.target

theorem SkySyn.of_tcpPacket {skb : SkBuff} (h : skb.TcpPacket) (hopens : skb.flat.opens = true)
    (hdest : skb.flat.dest = portSky) : SkySyn skb :=
  ⟨h.header, h.flat.headed, h.flat.protocol_eq, hopens, hdest⟩

theorem server_untaken {k : Kernel} {frame : ServerFrame} {r : Routes} {skb : SkBuff}
    (hproto : ipProtocol skb.mem skb.networkHeader = 6) (h : Untaken frame skb) :
    ∃ v, serverPreRoutingSky k frame r skb = some (v, skb, r) := by
  simp only [serverPreRoutingSky]
  by_cases hlocal : isLocalAddr skb.mem (skb.networkHeader + 16) = true
  · rw [if_pos hlocal]
    exact ⟨_, rfl⟩
  · rw [if_neg hlocal, if_pos hproto, if_pos (h.resolve_left hlocal)]
    exact ⟨_, rfl⟩

/-- Whatever `get_toa_data_sky` returns, a SYN the hook takes is stored and sent on. -/
theorem server_syn {frame : ServerFrame} {skb : SkBuff} (h : SkySyn skb)
    (htaken : ¬ Untaken frame skb) (k : Kernel) (r : Routes) :
    ∃ out, serverPreRoutingSky k frame r skb =
        some (.accept, out, insertRouteSky r (storedPair frame skb)) ∧
      out.flat.target = ⟨(storedData frame skb).addr, (storedData frame skb).port⟩ := by
  have hproto : ipProtocol skb.mem skb.networkHeader = 6 := by
    rw [SkBuff.protocol_flat h.header h.headed.toLocated]
    exact h.protocol_eq
  have hloc := h.headed.toLocated
  have hdest := hloc.dest_eq.trans h.dest
  have hopens := hloc.opens_eq.trans h.opens
  obtain ⟨out, hout, haddr, hport⟩ :=
    leave_spec k h.headed (storedData frame skb).addr (storedData frame skb).port
  refine ⟨out, ?_, ?_⟩
  · simp only [serverPreRoutingSky]
    rw [if_neg (fun hlocal => htaken (.inl hlocal)), if_pos hproto,
      if_neg (fun hpaged => htaken (.inr hpaged)), if_pos hdest, if_pos hopens, hloc.saddr_eq,
      hloc.source_eq]
    simp only [storedData] at hout
    simp only [storedPair, storedData, hout, Option.map_some]
  · have hlin : out.frags = [] := (finish_frags hout).trans skb.flat_linear
    rw [SkBuff.flat_of_linear hlin, SkBuff.target, haddr, hport]

theorem same_table_of_leavesAlone {k : Kernel} {frame : ServerFrame} {r : Routes} {skb : SkBuff}
    (h : SkySyn skb) (htaken : ¬ Untaken frame skb) (halone : LeavesAlone k frame r skb) :
    (loses r (storedPair frame skb) = true ∧ loses r (storedPair frame skb).swap = true) ∧
      skb.flat.target = ⟨(storedData frame skb).addr, (storedData frame skb).port⟩ := by
  obtain ⟨v, out, hout, htarget⟩ := halone
  obtain ⟨out', hout', htarget'⟩ := server_syn h htaken k r
  rw [hout] at hout'
  obtain ⟨_, hrest⟩ := Prod.mk.inj (Option.some.inj hout')
  obtain ⟨rfl, hr⟩ := Prod.mk.inj hrest
  exact ⟨(insertRouteSky_same_iff _ _).mp hr.symm, htarget.symm.trans htarget'⟩

/-- A SYN leaves the table and its destination alone, if and only if the hook does not take it; or
both entries go to pages with no free slot, and what is in `data` names the destination the packet
has. -/
theorem left_alone_iff (k : Kernel) (frame : ServerFrame) (r : Routes) (skb : SkBuff)
    (h : SkySyn skb) :
    LeavesAlone k frame r skb ↔
      Untaken frame skb ∨
        (loses r (storedPair frame skb) = true ∧ loses r (storedPair frame skb).swap = true) ∧
          skb.flat.target = ⟨(storedData frame skb).addr, (storedData frame skb).port⟩ := by
  by_cases htaken : Untaken frame skb
  · refine ⟨fun _ => .inl htaken, fun _ => ?_⟩
    have hproto := SkBuff.protocol_flat h.header h.headed.toLocated
    obtain ⟨v, hv⟩ := server_untaken (k := k) (r := r) (hproto.trans h.protocol_eq) htaken
    exact ⟨v, skb, hv, rfl⟩
  · constructor
    · intro halone
      exact .inr (same_table_of_leavesAlone h htaken halone)
    · intro hcond
      obtain ⟨hlost, htarget⟩ := hcond.resolve_left htaken
      obtain ⟨out, hout, htarget'⟩ := server_syn h htaken k r
      rw [(insertRouteSky_same_iff _ _).mpr hlost] at hout
      exact ⟨.accept, out, hout, htarget'.trans htarget.symm⟩

/-- A SYN without options. -/
def bareSyn : SkBuff := clientPacket (plainFor 0x02)

/-- A SYN with an IPv6 endpoint in its options. -/
def v6Syn : SkBuff :=
  clientPacket (clientBytes 80 0x58 0xf0 0x02
    ([0xfe, 0x14, 0x01, 0xbb, 0x20, 0x01, 0x0d, 0xb8] ++ List.replicate 32 0x01))

theorem bareSyn_skySyn : SkySyn bareSyn :=
  .of_tcpPacket (SkBuff.receive_tcpPacket (by decide +kernel)) (by decide +kernel)
    (by decide +kernel)

theorem v6Syn_skySyn : SkySyn v6Syn :=
  .of_tcpPacket (SkBuff.receive_tcpPacket (by decide +kernel)) (by decide +kernel)
    (by decide +kernel)

theorem left_alone_bare :
    LeavesAlone softwareKernel blankFrame .empty bareSyn ↔
      Untaken blankFrame bareSyn ∨
        (loses .empty (storedPair blankFrame bareSyn) = true ∧
          loses .empty (storedPair blankFrame bareSyn).swap = true) ∧
          bareSyn.flat.target =
            ⟨(storedData blankFrame bareSyn).addr, (storedData blankFrame bareSyn).port⟩ :=
  left_alone_iff softwareKernel blankFrame .empty bareSyn bareSyn_skySyn

/-- Both are stored as connections: the first with what was on the stack, the second with the IPv6
endpoint as if it were an IPv4 one. -/
theorem bad_syn_stored :
    (getToaDataSky bareSyn.flat blankFrame.buff blankFrame.data = none ∧
      ¬ LeavesAlone softwareKernel blankFrame .empty bareSyn) ∧
    (getToaDataSky v6Syn.flat blankFrame.buff blankFrame.data).map (·.code) =
        some tcpoptV6Sky ∧
      ¬ LeavesAlone softwareKernel blankFrame .empty v6Syn := by
  have hno : ∀ skb : SkBuff, SkySyn skb →
      isLocalAddr skb.mem (skb.networkHeader + 16) = false →
      ¬ LeavesAlone softwareKernel blankFrame .empty skb := by
    intro skb hsyn hremote halone
    have htaken : ¬ Untaken blankFrame skb := by
      rintro (hlocal | ⟨_, hno⟩)
      · rw [hremote] at hlocal
        cases hlocal
      · cases hno
    -- an empty bucket has no page to lose an entry in
    have hlost := (same_table_of_leavesAlone hsyn htaken halone).1.1
    cases hlost
  refine ⟨⟨by decide +kernel, hno bareSyn bareSyn_skySyn (by decide +kernel)⟩, by decide +kernel,
    hno v6Syn v6Syn_skySyn (by decide +kernel)⟩

end Sky
end Xsky
