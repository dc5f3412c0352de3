import Xsky.Headers
import Xsky.Kit.Buf
import Xsky.Kit.Endian

/-!
# Controller.Create

`controller::create`: the task it makes of a buffer with an id of 8 bytes and an IP packet, on a
64-bit host of either byte order. `none` is a read outside the buffer.

The version of both headers of `common.h` is the first bit-field of their first byte, and the next
header of `protocol_ipv6` is byte 6. What follows the bit-fields of `protocol_ipv4` depends on the
compiler, and with it the size of that structure.

* `created_iff` — when the task is the one for the packet's transport header.
* `within_iff`  — when all that is read, and the slice the task gets, is inside the buffer.
-/

namespace Xsky
namespace Controller

open Kit

def ipVersion4 : Nat := 0x0100

def ipProtoTcp : Byte := 6
def ipProtoUdp : Byte := 17
def ipv6NexthdrUdp : Byte := 136

def dnsFixedPort : Nat := 53
def httpFixedPort : Nat := 80
def httpsFixedPort : Nat := 443

/-- `sizeof( protocol_ipv4 * )` -/
def sizeofPointer : Nat := 8

/-- What the compiler does with the two bit-fields of 4 bits in front of `protocol_ipv4`: GCC puts
the next member into the same `unsigned int`, MSVC behind it. -/
inductive BitFields where
  | gcc
  | msvc

/-- `sizeof( protocol_ipv4 )` -/
def sizeofIpv4 : BitFields → Nat
  | .gcc => 20
  | .msvc => 24

/-- `offsetof( protocol_ipv4, protocol )` -/
def offsetofProtocol : BitFields → Nat
  | .gcc => 9
  | .msvc => 13

/-- `sizeof( std::uint64_t )` -/
def sizeofId : Nat := 8

inductive TaskKind where
  | http
  | https
  | tcp
  | dns
  | https3
  | udp
deriving DecidableEq

/-- A `task`: `id` as it stands in memory, and `data` as an offset in the buffer. -/
structure Task where
  kind : TaskKind
  id : Buf
  data : Nat
  size : Nat
deriving DecidableEq

def Task.init (kind : TaskKind) (id : Buf) (data size : Nat) : Task := ⟨kind, id, data, size⟩

/-- Which of the pointers `tcp` and `udp` is set. -/
inductive Transport where
  | tcp
  | udp
  | other
deriving DecidableEq

/-- A bit-field of 4 bits that comes first in its byte. -/
def versionField (o : ByteOrder) (b : Byte) : Nat :=
  match o with
  | .little => b.toNat % 16
  | .big => b.toNat / 16

/-- The tests on `protocol` of a `protocol_ipv4`. -/
def ipv4Transport (protocol : Byte) : Transport :=
  if protocol = ipProtoTcp then .tcp
  else if protocol = ipProtoUdp then .udp
  else .other

/-- The tests on `nexthdr` of a `protocol_ipv6`. -/
def ipv6Transport (nexthdr : Byte) : Transport :=
  if nexthdr = ipProtoTcp then .tcp
  else if nexthdr = ipProtoUdp then .udp
  else if nexthdr = ipv6NexthdrUdp then .udp
  else .other

def readTransport (l : BitFields) (o : ByteOrder) (ip : Buf) : Option Transport :=
  match ip[0]? with
  | none => none
  | some b =>
    if versionField o b = ipVersion4 then ip[offsetofProtocol l]?.map ipv4Transport
    else ip[6]?.map ipv6Transport

/-- The task for a transport protocol and a destination port. -/
def taskKind : Transport → Nat → Option TaskKind
  | .tcp, dest =>
    if dest = httpFixedPort then some .http
    else if dest = httpsFixedPort then some .https
    else some .tcp
  | .udp, dest =>
    if dest = dnsFixedPort then some .dns
    else if dest = httpsFixedPort then some .https3
    else some .udp
  | .other, _ => none

/-- The task that `create` pushes to the pool, if any. -/
def create (l : BitFields) (o : ByteOrder) (data : Buf) : Option (Option Task) :=
  if data.length > sizeofPointer then do
    let id ← data.head sizeofId
    let ip : Buf := data.drop sizeofId
    let transport ← readTransport l o ip
    if transport = .other then some none
    else do
      let dest ← ip.be16 (sizeofIpv4 l + 2)
      some ((taskKind transport dest).map fun kind => Task.init kind id sizeofId data.length)
  else some none

/-! ## The packet on the wire -/

def wireTransport (ip : Buf) : Transport :=
  if ipVersion ip.mem 0 = 4 then ipv4Transport (ipProtocol ip.mem 0)
  else ipv6Transport (ip6Nexthdr ip.mem 0)

/-- Where the header behind that of IP is. -/
def wireAt (ip : Buf) : Nat := if ipVersion ip.mem 0 = 4 then 4 * ipIhl ip.mem 0 else 40

def wireDest (ip : Buf) : Nat := ip.mem.be16 (wireAt ip + 2)

def transportLen : Transport → Nat
  | .tcp => 20
  | .udp => 8
  | .other => 0

/-- A complete packet of either version, with its options and its transport header. -/
def WholePacket (ip : Buf) : Prop :=
  ((ipVersion ip.mem 0 = 4 ∧ 5 ≤ ipIhl ip.mem 0 ∧ ip.length = ipTotLen ip.mem 0) ∨
    (ipVersion ip.mem 0 = 6 ∧ ip.length = 40 + ip6PayloadLen ip.mem 0)) ∧
    wireAt ip + transportLen (wireTransport ip) ≤ ip.length

instance (ip : Buf) : Decidable (WholePacket ip) := by
  unfold WholePacket
  infer_instance

/-- The task made of the buffer is of the kind for the packet, and has its id. -/
def CreatesTask (l : BitFields) (o : ByteOrder) (id ip : Buf) : Prop :=
  ∃ task, create l o (id ++ ip) = some task ∧
    task.map (fun t => (t.kind, t.id)) =
      (taskKind (wireTransport ip) (wireDest ip)).map fun kind => (kind, id)

/-- The ports with a task of their own. -/
def specialPorts : Transport → List Nat
  | .tcp => [httpFixedPort, httpsFixedPort]
  | .udp => [dnsFixedPort, httpsFixedPort]
  | .other => []

/-- Byte 6 names the packet's transport protocol, and the two bytes taken for the destination port a
port that counts for the same. -/
def ReadAlike (l : BitFields) (ip : Buf) : Prop :=
  ipv6Transport (ip.mem 6) = wireTransport ip ∧
    ∀ port ∈ specialPorts (wireTransport ip),
      ip.mem.be16 (sizeofIpv4 l + 2) = port ↔ wireDest ip = port

/-! ## What is read -/

/-- Four bits never reach `IP_VERSION_4`. -/
theorem versionField_ne (o : ByteOrder) (b : Byte) : versionField o b ≠ ipVersion4 := by
  have hb := b.isLt
  cases o with
  | little => simp only [versionField, ipVersion4]; omega
  | big => simp only [versionField, ipVersion4]; omega

theorem readTransport_ipv6 (l : BitFields) (o : ByteOrder) {ip : Buf} (h : 0 < ip.length) :
    readTransport l o ip = ip[6]?.map ipv6Transport := by
  unfold readTransport
  rw [Buf.getElem?_mem h]
  simp only [versionField_ne, if_false]

/-- The transport protocol a task is for. -/
def TaskKind.transport : TaskKind → Transport
  | .http | .https | .tcp => .tcp
  | .dns | .https3 | .udp => .udp

theorem taskKind_some {t : Transport} (h : t ≠ .other) (dest : Nat) :
    ∃ kind, taskKind t dest = some kind ∧ kind.transport = t := by
  cases t with
  | tcp =>
    simp only [taskKind]
    split
    · exact ⟨_, rfl, rfl⟩
    · split
      · exact ⟨_, rfl, rfl⟩
      · exact ⟨_, rfl, rfl⟩
  | udp =>
    simp only [taskKind]
    split
    · exact ⟨_, rfl, rfl⟩
    · split
      · exact ⟨_, rfl, rfl⟩
      · exact ⟨_, rfl, rfl⟩
  | other => exact absurd rfl h

theorem taskKind_transport {t t' : Transport} {p q : Nat} (h : taskKind t p = taskKind t' q) :
    t = t' := by
  by_cases ht : t = .other
  · by_cases ht' : t' = .other
    · rw [ht, ht']
    · obtain ⟨kind, hkind, -⟩ := taskKind_some ht' q
      rw [hkind, ht] at h
      cases h
  · obtain ⟨kind, hkind, hfor⟩ := taskKind_some ht p
    by_cases ht' : t' = .other
    · rw [hkind, ht'] at h
      cases h
    · obtain ⟨kind', hkind', hfor'⟩ := taskKind_some ht' q
      rw [hkind, hkind'] at h
      cases h
      rw [← hfor, hfor']

/-- Two ports get the same task if they are the same for both special ports. -/
theorem taskKind_eq_iff (t : Transport) (p q : Nat) :
    taskKind t p = taskKind t q ↔ ∀ port ∈ specialPorts t, p = port ↔ q = port := by
  cases t with
  | tcp =>
    simp only [taskKind, specialPorts, List.forall_mem_cons, List.not_mem_nil, false_imp_iff,
      implies_true, and_true]
    grind [httpFixedPort, httpsFixedPort]
  | udp =>
    simp only [taskKind, specialPorts, List.forall_mem_cons, List.not_mem_nil, false_imp_iff,
      implies_true, and_true]
    grind [dnsFixedPort, httpsFixedPort]
  | other => simp [taskKind, specialPorts]

/-! ## The task -/

/-- `create` of an id and a packet, with all reads inside. -/
theorem create_packet (l : BitFields) (o : ByteOrder) {id ip : Buf} (hid : id.length = sizeofId)
    (h : 20 ≤ ip.length) :
    create l o (id ++ ip) =
      if ipv6Transport (ip.mem 6) = .other then some none
      else if ip.length < sizeofIpv4 l + 4 then none
      else some ((taskKind (ipv6Transport (ip.mem 6)) (ip.mem.be16 (sizeofIpv4 l + 2))).map
        fun kind => Task.init kind id sizeofId (sizeofId + ip.length)) := by
  have hsize : (id ++ ip).length = sizeofId + ip.length := by rw [List.length_append, hid]
  unfold create
  rw [hsize, if_pos (by unfold sizeofId sizeofPointer; omega), Buf.head_append hid,
    ← hid, List.drop_left]
  simp only [Option.bind_eq_bind, Option.bind_some,
    readTransport_ipv6 l o (show 0 < ip.length by omega),
    Buf.getElem?_mem (show 6 < ip.length by omega), Option.map_some]
  split
  · rfl
  · split
    · rw [Buf.be16_none (by omega)]
      rfl
    · rw [Buf.be16_mem (by omega)]
      rfl

theorem wholePacket_length {ip : Buf} (h : WholePacket ip) :
    20 ≤ ip.length ∧ (wireTransport ip ≠ .other → 28 ≤ ip.length) := by
  obtain ⟨hver, hlen⟩ := h
  have hat : 20 ≤ wireAt ip := by
    unfold wireAt
    rcases hver with ⟨h4, hihl, -⟩ | ⟨h6, -⟩
    · rw [if_pos h4]
      omega
    · rw [if_neg (by omega)]
      omega
  refine ⟨by omega, fun hother => ?_⟩
  have hhdr : 8 ≤ transportLen (wireTransport ip) := by
    cases ht : wireTransport ip with
    | other => exact absurd ht hother
    | tcp => decide
    | udp => decide
  omega

/-- The task is right exactly when byte 6 and the two bytes behind `sizeof( protocol_ipv4 )` and a
port say the same as the protocol field and the destination port. -/
theorem created_iff (l : BitFields) (o : ByteOrder) (id ip : Buf) (hid : id.length = 8)
    (hip : WholePacket ip) : CreatesTask l o id ip ↔ ReadAlike l ip := by
  obtain ⟨hlen, htransport⟩ := wholePacket_length hip
  have hsize : sizeofIpv4 l ≤ 24 := by
    cases l with
    | gcc => decide
    | msvc => decide
  unfold CreatesTask ReadAlike
  rw [create_packet l o hid hlen]
  by_cases hother : ipv6Transport (ip.mem 6) = .other
  · rw [if_pos hother, hother]
    constructor
    · intro h
      obtain ⟨task, htask, hkind⟩ := h
      cases htask
      have hwire : wireTransport ip = .other := by
        refine Decidable.byContradiction fun hne => ?_
        obtain ⟨kind, hsome, -⟩ := taskKind_some hne (wireDest ip)
        rw [hsome] at hkind
        cases hkind
      rw [hwire]
      exact ⟨rfl, fun port hport => by cases hport⟩
    · intro h
      refine ⟨none, rfl, ?_⟩
      rw [← h.1]
      rfl
  · rw [if_neg hother]
    constructor
    · intro h
      obtain ⟨task, htask, hkind⟩ := h
      split at htask
      · cases htask
      · rw [Option.some.injEq] at htask
        have hsame : taskKind (ipv6Transport (ip.mem 6)) (ip.mem.be16 (sizeofIpv4 l + 2)) =
            taskKind (wireTransport ip) (wireDest ip) := by
          rw [← htask, Option.map_map] at hkind
          have hfst := congrArg (Option.map Prod.fst) hkind
          simpa [Option.map_map, Function.comp_def, Task.init] using hfst
        have htr := taskKind_transport hsame
        rw [htr] at hsame
        exact ⟨htr, (taskKind_eq_iff _ _ _).mp hsame⟩
    · intro h
      obtain ⟨htr, hports⟩ := h
      have hfits := htransport (by rw [← htr]; exact hother)
      rw [if_neg (by omega)]
      refine ⟨_, rfl, ?_⟩
      rw [htr, (taskKind_eq_iff _ _ _).mpr hports, Option.map_map]
      rfl

/-- The high byte of the fragment offset is taken for a next header, so no packet over IPv4 with a
transport header gets a task. -/
theorem create_unfragmented (l : BitFields) (o : ByteOrder) {id ip : Buf} (hid : id.length = 8)
    (hlen : 20 ≤ ip.length) (hoffset : ip.mem.be16 6 % 2 ^ 13 = 0) :
    create l o (id ++ ip) = some none := by
  have hbyte : (ip.mem 6).toNat % 32 = 0 := by
    have hlow := (ip.mem 7).isLt
    unfold Mem.be16 at hoffset
    omega
  have hne : ∀ v : Byte, v.toNat % 32 ≠ 0 → ip.mem 6 ≠ v := by
    intro v hv h
    exact hv (h ▸ hbyte)
  have hother : ipv6Transport (ip.mem 6) = .other := by
    unfold ipv6Transport
    rw [if_neg (hne ipProtoTcp (by decide)), if_neg (hne ipProtoUdp (by decide)),
      if_neg (hne ipv6NexthdrUdp (by decide))]
  rw [create_packet l o hid hlen, if_pos hother]

/-- TCP over IPv6 to port 80. The bytes taken for the port are in the addresses. -/
def requestV6 : Buf :=
  [0x60, 0, 0, 0, 0, 20, 6, 64] ++ [0, 0, 0, 0, 0, 0, 0, 0, 0, 0, 0, 0, 0, 0, 0, 80] ++
    [0, 1, 0, 80, 0, 3, 0, 4, 0, 5, 0, 6, 0, 7, 0, 8] ++
    [0x13, 0x88, 0, 80, 0, 0, 0, 1, 0, 0, 0, 0, 0x50, 2, 0, 0, 0, 0, 0, 0]

theorem created_request : CreatesTask .msvc .little [1, 2, 3, 4, 5, 6, 7, 8] requestV6 :=
  (created_iff .msvc .little _ requestV6 rfl (by decide)).mpr ⟨by decide, by decide⟩

/-- TCP over IPv4 to port 80. -/
def requestV4 : Buf :=
  [0x45, 0, 0, 40, 0, 1, 0x40, 0, 64, 6, 0, 0, 10, 0, 0, 2, 10, 0, 0, 1] ++
    [0x13, 0x88, 0, 80, 0, 0, 0, 1, 0, 0, 0, 0, 0x50, 2, 0, 0, 0, 0, 0, 0]

theorem request_untasked :
    WholePacket requestV4 ∧ ¬ CreatesTask .msvc .little [1, 2, 3, 4, 5, 6, 7, 8] requestV4 := by
  refine ⟨by decide, fun h => ?_⟩
  obtain ⟨task, htask, hkind⟩ := h
  rw [create_unfragmented .msvc .little rfl (by decide) (by decide)] at htask
  cases htask
  exact absurd hkind (by decide)

/-! ## The buffer -/

/-- All that `create` reads is in the buffer, and a task gets the slice from behind the id to the
end. -/
def Within (l : BitFields) (o : ByteOrder) (data : Buf) : Prop :=
  ∃ task, create l o data = some task ∧
    ∀ t, task = some t → t.data = sizeofId ∧ t.data + t.size = data.length

/-- The size that is handed on still counts the id, so every task gets 8 bytes too many. -/
theorem create_task {l : BitFields} {o : ByteOrder} {data : Buf} {t : Task}
    (h : create l o data = some (some t)) : t.data = sizeofId ∧ t.size = data.length := by
  unfold create at h
  split at h
  · simp only [Option.bind_eq_bind, Option.bind_eq_some_iff] at h
    obtain ⟨id, -, transport, -, h⟩ := h
    split at h
    · cases h
    · rw [Option.bind_eq_some_iff] at h
      obtain ⟨dest, -, h⟩ := h
      rw [Option.some.injEq, Option.map_eq_some_iff] at h
      obtain ⟨kind, -, rfl⟩ := h
      exact ⟨rfl, rfl⟩
  · cases h

/-- The reads are inside, and no task is made, for nothing but an id, and for a buffer that reaches
to byte 14 where there is none of the three numbers of TCP and UDP. -/
theorem within_iff (l : BitFields) (o : ByteOrder) (data : Buf) :
    Within l o data ↔
      data.length ≤ 8 ∨ (15 ≤ data.length ∧ ipv6Transport (data.mem 14) = .other) := by
  by_cases hsmall : data.length ≤ 8
  · have hnone : create l o data = some none := by
      unfold create
      rw [if_neg (by unfold sizeofPointer; omega)]
    refine ⟨fun _ => .inl hsmall, fun _ => ⟨none, hnone, fun t ht => ?_⟩⟩
    cases ht
  · have hid : data.head sizeofId = some (data.take sizeofId) := by
      unfold Buf.head
      rw [if_pos (by unfold sizeofId; omega)]
    have hip : Buf.mem (data.drop sizeofId) 6 = data.mem 14 := by
      simp [Buf.mem, sizeofId]
    have hlen : (data.drop sizeofId).length = data.length - 8 := List.length_drop
    have hcreate : create l o data =
        ((data.drop sizeofId)[6]?.map ipv6Transport).bind fun transport =>
          if transport = .other then some none
          else (Buf.be16 (data.drop sizeofId) (sizeofIpv4 l + 2)).bind fun dest =>
            some ((taskKind transport dest).map fun kind =>
              Task.init kind (data.take sizeofId) sizeofId data.length) := by
      unfold create
      rw [if_pos (by unfold sizeofPointer; omega), hid]
      simp only [Option.bind_eq_bind, Option.bind_some,
        readTransport_ipv6 l o (show 0 < (data.drop sizeofId).length by omega)]
    by_cases h14 : 15 ≤ data.length
    · rw [Buf.getElem?_mem (show 6 < (data.drop sizeofId).length by omega), hip,
        Option.map_some, Option.bind_some] at hcreate
      by_cases hother : ipv6Transport (data.mem 14) = .other
      · rw [if_pos hother] at hcreate
        refine ⟨fun _ => .inr ⟨h14, hother⟩, fun _ => ⟨none, hcreate, fun t ht => ?_⟩⟩
        cases ht
      · constructor
        · intro h
          obtain ⟨task, htask, hslice⟩ := h
          cases task with
          | none =>
            rw [htask, if_neg hother] at hcreate
            cases hdest : Buf.be16 (data.drop sizeofId) (sizeofIpv4 l + 2) with
            | none =>
              rw [hdest] at hcreate
              cases hcreate
            | some dest =>
              obtain ⟨kind, hkind, -⟩ := taskKind_some hother dest
              rw [hdest, Option.bind_some, hkind] at hcreate
              cases hcreate
          | some t =>
            -- a task, and so one whose slice is too long
            obtain ⟨hdata, hsize⟩ := create_task htask
            obtain ⟨-, hend⟩ := hslice t rfl
            rw [hdata, hsize] at hend
            unfold sizeofId at hend
            omega
        · intro h
          rcases h with h | ⟨-, h⟩
          · exact absurd h hsmall
          · exact absurd h hother
    · rw [List.getElem?_eq_none (by omega), Option.map_none, Option.bind_none] at hcreate
      constructor
      · intro h
        obtain ⟨task, htask, -⟩ := h
        rw [hcreate] at htask
        cases htask
      · intro h
        omega

/-- Nine bytes are read beyond, and the task of a whole packet gets more than there is. -/
theorem buffer_overrun :
    create .msvc .little [1, 2, 3, 4, 5, 6, 7, 8, 0x45] = none ∧
      create .msvc .little ([1, 2, 3, 4, 5, 6, 7, 8] ++ requestV6) =
        some (some ⟨.http, [1, 2, 3, 4, 5, 6, 7, 8], 8, 68⟩) ∧
      ([1, 2, 3, 4, 5, 6, 7, 8] ++ requestV6).length = 68 ∧
      ¬ Within .msvc .little [1, 2, 3, 4, 5, 6, 7, 8, 0x45] ∧
      ¬ Within .msvc .little ([1, 2, 3, 4, 5, 6, 7, 8] ++ requestV6) := by
  have hread : create .msvc .little [1, 2, 3, 4, 5, 6, 7, 8, 0x45] = none := by decide
  have htask : create .msvc .little ([1, 2, 3, 4, 5, 6, 7, 8] ++ requestV6) =
      some (some ⟨.http, [1, 2, 3, 4, 5, 6, 7, 8], 8, 68⟩) := by decide
  refine ⟨hread, htask, rfl, fun h => ?_, fun h => ?_⟩
  · obtain ⟨task, hsome, -⟩ := h
    rw [hread] at hsome
    cases hsome
  · obtain ⟨task, hsome, hslice⟩ := h
    rw [htask] at hsome
    cases hsome
    exact absurd (hslice _ rfl).2 (by decide)

end Controller
end Xsky
