import Xsky.Kit.Mem

/-!
# Headers

The header fields the kernel modules read, at an address in memory, as `struct iphdr`,
`struct ipv6hdr` and `struct tcphdr` lay them out on a little-endian machine. Ports and addresses
stay in network order, as in the source; lengths are read through `ntohs`.
-/

namespace Xsky

open Kit

inductive Verdict where
  | drop
  | accept
deriving DecidableEq

def ipIhl (m : Mem) (p : Nat) : Nat := (m p).toNat % 16

def ipVersion (m : Mem) (p : Nat) : Nat := (m p).toNat / 16

def ipTotLen (m : Mem) (p : Nat) : Nat := m.be16 (p + 2)

def ipProtocol (m : Mem) (p : Nat) : Byte := m (p + 9)

def ipSaddr (m : Mem) (p : Nat) : BitVec 32 := m.read32 (p + 12)

def ipDaddr (m : Mem) (p : Nat) : BitVec 32 := m.read32 (p + 16)

def ip6PayloadLen (m : Mem) (p : Nat) : Nat := m.be16 (p + 4)

def ip6Nexthdr (m : Mem) (p : Nat) : Byte := m (p + 6)

def tcpSource (m : Mem) (p : Nat) : BitVec 16 := m.read16 p

def tcpDest (m : Mem) (p : Nat) : BitVec 16 := m.read16 (p + 2)

def tcpDoff (m : Mem) (p : Nat) : Nat := (m (p + 12)).toNat / 16

def tcpFin (m : Mem) (p : Nat) : Bool := (m (p + 13)).getLsbD 0

def tcpSyn (m : Mem) (p : Nat) : Bool := (m (p + 13)).getLsbD 1

def tcpRst (m : Mem) (p : Nat) : Bool := (m (p + 13)).getLsbD 2

def tcpAck (m : Mem) (p : Nat) : Bool := (m (p + 13)).getLsbD 4

end Xsky
