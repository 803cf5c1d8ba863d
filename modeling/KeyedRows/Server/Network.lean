/-
# Networks

The network of a host decides at which addresses a server can listen and whether
its peers get through to it.

| network | a server listens at | peers |
| --- | --- | --- |
| `loopback` | the addresses of the host itself | get through |
| `isolated` | every IPv4 address | do not get through |

With no interface up, a host has no list of the IPv4 addresses that are its own,
and none is refused. An IPv6 address is refused if it is not one of its own,
unless it is all zeros or holds an IPv4 address.

Main statement: `listens_of_loopback`, what a server can listen at in a network
that works it can listen at in one that does not, the IPv6 loopback address apart.
-/

import KeyedRows.Server.Address

namespace KeyedRows

/-- The network that a server is in. -/
inductive Network where
  /-- No interface is up. -/
  | isolated
  /-- The interface that leads back to the host itself is up. -/
  | loopback
deriving DecidableEq, Repr

namespace Network

/-- Peers get through to a server. -/
def connects (network : Network) : Bool := network = loopback

/-- The address of the name of the host itself, `127.0.0.1`. -/
def localhost : UInt32 := 0x7f000001

/-- A server can listen at a 32-bit address. Besides the addresses that begin with `127` and the
one of all zeros, these are the addresses of groups and the one of all ones. -/
def listensV4 (network : Network) (address : UInt32) : Bool :=
  match network with
  | isolated => true
  | loopback =>
    let first := address >>> 24
    address = 0 || first = 127 || (224 ≤ first && first < 240) || address = 0xffffffff

/-- A server can listen at a host. A 128-bit address may hold a 32-bit one behind 16 bits that are
set, and of names only that of the host itself is known. -/
def listens (network : Network) : Host → Bool
  | .v4 address => network.listensV4 address
  | .v6 address =>
    address = 0 || (address = 1 && network.connects) ||
      (address >>> 32 = 0xffff && network.listensV4 (UInt32.ofBitVec (address.setWidth 32)))
  | .name text => text.toLower = "localhost" && network.listensV4 localhost

theorem listens_of_loopback {host : Host} (h : loopback.listens host = true)
    (ne : host ≠ .v6 1) : isolated.listens host = true := by
  cases host with
  | v4 address => rfl
  | v6 address =>
    have : address ≠ 1 := fun h => ne (by rw [h])
    simp only [listens, listensV4, Bool.or_eq_true, Bool.and_eq_true, decide_eq_true_iff] at h ⊢
    grind
  | name text =>
    simp only [listens, Bool.and_eq_true] at h ⊢
    exact ⟨h.1, rfl⟩

/-- A server can listen at the address that a text means. -/
def bindable (network : Network) (text : String) : Bool :=
  (Address.ofText? text).any fun address => network.listens address.host

end Network
end KeyedRows
