import Xsky.Kit.Runs
import Xsky.Sky.Hooks
import Xsky.Sky.Lookup

/-!
# Sky.Flows

The server hook over a sequence of TCP packets to port 48888, from any number of sources.

An `Arrival` is such a packet, with the stack the hook is called on: what the source does not
initialise of its keys is zero, and a SYN carries an endpoint the hook can read. `Event` is what an
arrival means for its source, and `server_spec` says what the hook does with each: it inserts the
pair of a SYN, looks up the others, and removes the entry of a FIN or RST.
-/

namespace Xsky
namespace Sky

open Kit

/-- The key of an endpoint in the table. -/
def Endpoint.key (s : Endpoint) : SkyData :=
  ⟨tcpoptV4Sky, BitVec.ofNat 8 tcpolenV4Sky, s.port, s.addr, 0⟩

/-- The endpoint a `sky_data` names. -/
def SkyData.names (d : SkyData) : Endpoint := ⟨d.addr, d.port⟩

theorem key_code (s : Endpoint) : s.key.code ≠ 0 := by
  intro h
  exact absurd (show tcpoptV4Sky = 0 from h) (by decide)

theorem sameKey_key {s t : Endpoint} : sameKey s.key t.key = true ↔ s = t := by
  rw [sameKey_iff]
  constructor
  · rintro ⟨_, _, haddr, hport⟩
    cases s
    cases t
    cases haddr
    cases hport
    rfl
  · rintro rfl
    exact ⟨rfl, rfl, rfl, rfl⟩

theorem sameKey_key_ne {s t : Endpoint} (h : s ≠ t) : sameKey s.key t.key = false := by
  rw [Bool.eq_false_iff]
  exact fun hm => h (sameKey_key.mp hm)

theorem sameKey_names {d : SkyData} {s : Endpoint} (h : sameKey d s.key = true) : d.names = s := by
  obtain ⟨_, _, haddr, hport⟩ := sameKey_iff.mp h
  cases s
  cases haddr
  cases hport
  rfl

/-! ## Arrivals -/

structure Arrival where
  skb : SkBuff
  frame : ServerFrame
  tcp : skb.TcpPacket
  toSky : skb.flat.dest = portSky
  remote : isLocalAddr skb.mem (skb.networkHeader + 16) = false
  linearizes : skb.frags = [] ∨ frame.linearizes = true
  data_zero : frame.data.rest = 0
  pair_zero : frame.pair.first.rest = 0
  carries : skb.flat.opens = true →
    ∃ d, getToaDataSky skb.flat frame.buff frame.data = some d ∧ d.code = tcpoptV4Sky ∧
      d.size = BitVec.ofNat 8 tcpolenV4Sky

inductive Kind where
  | syn (dest : Endpoint)
  | fin
  | data
deriving DecidableEq

structure Event where
  src : Endpoint
  kind : Kind
deriving DecidableEq

namespace Arrival

def src (a : Arrival) : Endpoint := a.skb.flat.origin

/-- The endpoint a SYN carries. -/
def dest (a : Arrival) : Endpoint :=
  ((getToaDataSky a.skb.flat a.frame.buff a.frame.data).getD a.frame.data).names

def kind (a : Arrival) : Kind :=
  if a.skb.flat.opens then .syn a.dest else if a.skb.flat.closes then .fin else .data

def event (a : Arrival) : Event := ⟨a.src, a.kind⟩

theorem event_of_opens {a : Arrival} (h : a.skb.flat.opens = true) :
    a.event = ⟨a.src, .syn a.dest⟩ := by
  simp only [event, kind, h, if_true]

theorem event_of_not_opens {a : Arrival} (h : a.skb.flat.opens = false) :
    (a.event = ⟨a.src, .fin⟩ ∧ a.skb.flat.closes = true) ∨
      (a.event = ⟨a.src, .data⟩ ∧ a.skb.flat.closes = false) := by
  simp only [event, kind, h, Bool.false_eq_true, if_false]
  cases a.skb.flat.closes with
  | true => exact .inl ⟨rfl, rfl⟩
  | false => exact .inr ⟨rfl, rfl⟩

end Arrival

/-! ## The hook -/

/-- An option of the IPv4 kind leaves the rest of the variable it is copied to. -/
theorem walkToa_rest {ptr : Mem} {length : Nat} {pdata d : SkyData}
    (h : walkToa ptr length pdata = some d) (hcode : d.code = tcpoptV4Sky) :
    d.rest = pdata.rest := by
  simp only [walkToa] at h
  split at h
  · cases h
  · split at h
    · cases h
      rfl
    · rename_i hne
      cases h
      exact absurd hcode hne

theorem getToaDataSky_rest {skb : SkBuff} {buff : Mem} {pdata d : SkyData}
    (h : getToaDataSky skb buff pdata = some d) (hcode : d.code = tcpoptV4Sky) :
    d.rest = pdata.rest := by
  obtain ⟨ptr, _, hwalk⟩ := Option.bind_eq_some_iff.mp h
  exact walkToa_rest hwalk hcode

theorem Arrival.toa {a : Arrival} (h : a.skb.flat.opens = true) :
    (getToaDataSky a.skb.flat a.frame.buff a.frame.data).getD a.frame.data = a.dest.key := by
  obtain ⟨d, hd, hcode, hsize⟩ := a.carries h
  have hrest := (getToaDataSky_rest hd hcode).trans a.data_zero
  rw [Arrival.dest, hd, Option.getD_some]
  cases d
  cases hcode
  cases hsize
  cases hrest
  rfl

theorem endpoint_key {d : SkyData} (h : d.rest = 0) (addr : BitVec 32) (port : BitVec 16) :
    d.endpoint addr port = (⟨addr, port⟩ : Endpoint).key := by
  simp only [SkyData.endpoint, Endpoint.key, h]

/-- The pair a SYN from `s` to `d` inserts. -/
def flowPair (s d : Endpoint) : SkyDataPair := ⟨s.key, d.key⟩

/-- The table after the hook. -/
def tableAfter (r : Routes) (e : Event) : Routes :=
  match e.kind with
  | .syn d => insertRouteSky r (flowPair e.src d)
  | .fin => removeRouteSky r e.src.key
  | .data => r

/-- Where the hook sends the packet; `none` when it leaves it as it is. -/
def sentTo (r : Routes) (e : Event) : Option Endpoint :=
  match e.kind with
  | .syn d => some d
  | .fin => (r.lookup e.src.key).map (·.second.names)
  | .data => (r.lookup e.src.key).map (·.second.names)

/-- What the hook does with an arrival. -/
theorem server_spec (k : Kernel) (r : Routes) (a : Arrival) :
    ∃ out, serverPreRoutingSky k a.frame r a.skb = some (.accept, out, tableAfter r a.event) ∧
      match sentTo r a.event with
      | some d => out.target = d
      | none => out = a.skb.flat := by
  have htcp := a.tcp.flat
  have hproto := a.tcp.protocol
  have hlin : ¬ (a.skb.frags ≠ [] ∧ a.frame.linearizes = false) := by
    rintro ⟨hfrags, hno⟩
    obtain h | h := a.linearizes
    · exact hfrags h
    · rw [hno] at h
      cases h
  have hport := htcp.dest_eq.trans a.toSky
  have hleave : ∀ (d : Endpoint) (r' : Routes), ∃ out,
      ((finish k (rewrite a.skb.flat d.addr d.port)).map fun skb => (Verdict.accept, skb, r')) =
        some (.accept, out, r') ∧ out.target = d := by
    intro d r'
    obtain ⟨out, hout, haddr, hdest⟩ := leave_spec k htcp.headed d.addr d.port
    refine ⟨out, by rw [hout]; rfl, ?_⟩
    rw [SkBuff.target, haddr, hdest]
  have hsrc : ∀ d : SkyData, d.rest = 0 →
      d.endpoint (ipSaddr a.skb.flat.mem a.skb.flat.networkHeader)
        (tcpSource a.skb.flat.mem a.skb.flat.transportHeader) = a.src.key := by
    intro d hd
    rw [endpoint_key hd, htcp.saddr_eq, htcp.source_eq]
    rfl
  simp only [serverPreRoutingSky, a.remote, hproto, if_neg hlin, if_pos hport, htcp.opens_eq,
    htcp.closes_eq, hsrc _ a.data_zero, hsrc _ a.pair_zero, Bool.false_eq_true, if_false, if_true]
  cases hopens : a.skb.flat.opens with
  | true =>
    rw [Arrival.event_of_opens hopens, Arrival.toa hopens]
    exact hleave a.dest _
  | false =>
    simp only [Bool.false_eq_true, if_false]
    cases hfind : findRouteSky r a.src.key with
    | none =>
      have hlook : r.lookup a.src.key = none := by rw [Routes.lookup, hfind]; rfl
      refine ⟨a.skb.flat, ?_⟩
      obtain hkind | hkind := Arrival.event_of_not_opens hopens
      · simp only [hkind.1, sentTo, tableAfter, hlook, removeRouteSky, hfind, Option.map_none,
          and_self]
      · simp only [hkind.1, sentTo, tableAfter, hlook, Option.map_none, and_self]
    | some p =>
      have hlook : r.lookup a.src.key = some (r.pair p) := by rw [Routes.lookup, hfind]; rfl
      obtain hkind | hkind := Arrival.event_of_not_opens hopens
      · simp only [hkind, sentTo, tableAfter, hlook, Option.map_some, if_true]
        exact hleave (r.pair p).second.names _
      · simp only [hkind, sentTo, tableAfter, hlook, Option.map_some, Bool.false_eq_true, if_false]
        exact hleave (r.pair p).second.names _

/-- The destination of a packet the hook sends on. -/
theorem server_target {k : Kernel} {r r' : Routes} {a : Arrival} {v : Verdict} {out : SkBuff}
    {d : Endpoint} (h : serverPreRoutingSky k a.frame r a.skb = some (v, out, r'))
    (hd : sentTo r a.event = some d) : out.target = d := by
  obtain ⟨out', hout, hsent⟩ := server_spec k r a
  rw [h] at hout
  cases hout
  rw [hd] at hsent
  exact hsent

/-! ## Runs -/

structure World where
  routes : Routes
  /-- The events so far, the last one first. -/
  past : List Event

def World.start : World := ⟨.empty, []⟩

/-- The destination of the most recent SYN of `s` since its last FIN or RST. -/
def live : List Event → Endpoint → Option Endpoint
  | [], _ => none
  | e :: past, s =>
    if e.src = s then
      match e.kind with
      | .syn d => some d
      | .fin => none
      | .data => live past s
    else live past s

def worldStep (k : Kernel) (w : World) (a : Arrival) : Option World :=
  (serverPreRoutingSky k a.frame w.routes a.skb).map fun (_, _, r) => ⟨r, a.event :: w.past⟩

theorem worldStep_eq (k : Kernel) (w : World) (a : Arrival) :
    worldStep k w a = some ⟨tableAfter w.routes a.event, a.event :: w.past⟩ := by
  obtain ⟨out, hout, _⟩ := server_spec k w.routes a
  rw [worldStep, hout]
  rfl

theorem live_other {e : Event} {past : List Event} {s : Endpoint} (h : e.src ≠ s) :
    live (e :: past) s = live past s := by
  simp only [live, if_neg h]

/-- In the bucket of its key, and found there by any key with the same endpoint. -/
def Keyed (b : Nat) (e : SkyDataPair) : Prop := b = bucketOf e.first ∧ e.first.rest = 0

/-- The tables the hook makes. -/
structure Routes.Tidy (r : Routes) : Prop where
  clean : r.Clean
  keyed : r.All (Entries Keyed)

theorem Routes.Tidy.empty : Routes.empty.Tidy := ⟨empty_all, empty_all⟩

theorem tableAfter_tidy {r : Routes} (h : r.Tidy) (e : Event) : (tableAfter r e).Tidy := by
  obtain ⟨src, kind⟩ := e
  cases kind with
  | syn d =>
    exact ⟨h.clean.insert (key_code src) (key_code d),
      insertRouteSky_entries h.keyed ⟨rfl, rfl⟩ ⟨rfl, rfl⟩⟩
  | fin =>
    refine ⟨?_, removeRouteSky_entries _ h.keyed⟩
    cases hf : findRouteSky r src.key with
    | none => simpa only [tableAfter, removeRouteSky, hf] using h.clean
    | some s => exact (removeRouteSky_pruned h.clean hf).clean
  | data => exact h

/-- What is known of a slot the hook finds. -/
theorem Routes.Tidy.found {r : Routes} (h : r.Tidy) {t : Endpoint} {s : SlotRef}
    (hf : findRouteSky r t.key = some s) :
    r.slot? s = some (r.pair s) ∧ s.bucket = bucketOf (r.pair s).first ∧
      sameKey (r.pair s).first t.key = true := by
  obtain ⟨_, p, hp, he, hm⟩ := findRouteSky_some hf
  have hs : r.slot? s = some (r.pair s) := slot?_some.mpr ⟨p, hp, he⟩
  exact ⟨hs, (h.keyed.slot hs (sameKey_code hm (key_code t))).1, hm⟩

/-- Every slot with the key of an endpoint is in the bucket of that key. -/
theorem Routes.Tidy.bucket {r : Routes} (h : r.Tidy) {s : Endpoint} {t : SlotRef}
    {e : SkyDataPair} (ht : r.slot? t = some e) (hm : sameKey e.first s.key = true) :
    t.bucket = bucketOf s.key := by
  obtain ⟨hb, hrest⟩ := h.keyed.slot ht (sameKey_code hm (key_code s))
  have hfirst : e.first = s.key := by
    obtain ⟨h1, h2, h3, h4⟩ := sameKey_iff.mp hm
    cases hk : e.first
    rw [hk] at h1 h2 h3 h4 hrest
    cases h1
    cases h2
    cases h3
    cases h4
    cases hrest
    rfl
  rw [hb, hfirst]

/-! ## Packets of one client -/

/-- A packet from 10.0.0.10:532 to 10.0.0.1:48888 with the flags and options given. The walk of
`get_toa_data_sky` takes the source port, 0x0214, for an option of 20 bytes, and goes on at the TCP
options. -/
def clientBytes (length check doff flags : Byte) (options : List Byte) : List Byte :=
  [0x45, 0x00, 0x00, length, 0x1c, 0x46, 0x40, 0x00, 0x40, 0x06, 0x0a, check,
    0x0a, 0x00, 0x00, 0x0a, 0x0a, 0x00, 0x00, 0x01,
    0x02, 0x14, 0xbe, 0xf8, 0x11, 0x22, 0x33, 0x44, 0x00, 0x00, 0x00, 0x00,
    doff, flags, 0xfa, 0xf0, 0x00, 0x00, 0x00, 0x00] ++ options

def clientPacket (bytes : List Byte) : SkBuff := .receive ⟨fun _ => 0, 64, 0, [], 0, 0, 0, 0⟩ bytes

/-- A stack of zeros. -/
def blankFrame : ServerFrame := ⟨true, .zero, .zero, fun _ => 0⟩

/-- The packet as an arrival, if its bytes make it one. -/
def clientArrival (bytes : List Byte)
    (tcp : let skb := clientPacket bytes
      skb.protocol = 6 ∧ 5 ≤ skb.ihl ∧ 5 ≤ skb.doff ∧ skb.ihl * 4 + skb.doff * 4 ≤ skb.len ∧
        skb.len < 2 ^ 16)
    (toSky : (clientPacket bytes).dest = portSky ∧
      isLocalAddr (clientPacket bytes).mem ((clientPacket bytes).networkHeader + 16) = false)
    (carries : (clientPacket bytes).opens = true →
      ∃ d, getToaDataSky (clientPacket bytes) blankFrame.buff .zero = some d ∧
        d.code = tcpoptV4Sky ∧ d.size = BitVec.ofNat 8 tcpolenV4Sky) : Arrival where
  skb := clientPacket bytes
  frame := blankFrame
  tcp := SkBuff.receive_tcpPacket tcp
  toSky := toSky.1
  remote := toSky.2
  linearizes := .inl rfl
  data_zero := rfl
  pair_zero := rfl
  carries := carries

/-- A SYN for 93.184.216.`last`:443. -/
def synFor (last : Byte) : List Byte :=
  clientBytes 68 0x64 0xc0 0x02
    ([0xfd, 0x08, 0x01, 0xbb, 0x5d, 0xb8, 0xd8, last] ++ List.replicate 20 0x01)

/-- A packet without options, other than a SYN. -/
def plainFor (flags : Byte) : List Byte := clientBytes 40 0x80 0x50 flags []

def client : Endpoint := ⟨0x0a00000a, 0x1402⟩

def siteA : Endpoint := ⟨0x22d8b85d, 0xbb01⟩

def siteB : Endpoint := ⟨0x23d8b85d, 0xbb01⟩

def synA : Arrival :=
  clientArrival (synFor 0x22) (by decide +kernel) (by decide +kernel)
    fun _ => ⟨siteA.key, by decide +kernel, rfl, rfl⟩

def synB : Arrival :=
  clientArrival (synFor 0x23) (by decide +kernel) (by decide +kernel)
    fun _ => ⟨siteB.key, by decide +kernel, rfl, rfl⟩

def ack : Arrival :=
  clientArrival (plainFor 0x10) (by decide +kernel) (by decide +kernel)
    fun h => absurd h (by decide +kernel)

def finAck : Arrival :=
  clientArrival (plainFor 0x11) (by decide +kernel) (by decide +kernel)
    fun h => absurd h (by decide +kernel)

theorem synA_event : synA.event = ⟨client, .syn siteA⟩ := by decide +kernel

theorem synB_event : synB.event = ⟨client, .syn siteB⟩ := by decide +kernel

theorem ack_event : ack.event = ⟨client, .data⟩ := by decide +kernel

theorem finAck_event : finAck.event = ⟨client, .fin⟩ := by decide +kernel

end Sky
end Xsky
