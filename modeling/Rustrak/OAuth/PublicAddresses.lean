import Rustrak.Network.Blocks

/-!
# Public addresses

Before a client's metadata document is fetched its host is resolved, and `is_public` of
`services/oauth.rs` says whether the address may be reached.  An IPv6 address that carries an
IPv4 one is as public as that.

What the registries of special-purpose addresses list as not globally reachable is set down
here by kind, and the tests of the code are turned into blocks as well
(`isPublic_v4_iff`, `isPublic_v6_iff`).  Comparing the two is then a matter of lists.
-/

namespace Rustrak.OAuth

open Rustrak.Network

/-! ## Addresses -/

/-- `std::net::Ipv4Addr`, by its octets. -/
structure Ipv4Addr where
  a : UInt8
  b : UInt8
  c : UInt8
  d : UInt8
  deriving DecidableEq, Repr

/-- `std::net::Ipv6Addr`, by its segments. -/
structure Ipv6Addr where
  s0 : UInt16
  s1 : UInt16
  s2 : UInt16
  s3 : UInt16
  s4 : UInt16
  s5 : UInt16
  s6 : UInt16
  s7 : UInt16
  deriving DecidableEq, Repr

inductive IpAddr
  | v4 (v4 : Ipv4Addr)
  | v6 (v6 : Ipv6Addr)
  deriving DecidableEq, Repr

namespace Ipv4Addr

def isLoopback (ip : Ipv4Addr) : Bool := ip.a == 127

def isPrivate (ip : Ipv4Addr) : Bool :=
  ip.a == 10 || (ip.a == 172 && 16 ≤ ip.b && ip.b ≤ 31) || (ip.a == 192 && ip.b == 168)

def isLinkLocal (ip : Ipv4Addr) : Bool := ip.a == 169 && ip.b == 254

def isUnspecified (ip : Ipv4Addr) : Bool := ip == ⟨0, 0, 0, 0⟩

def isBroadcast (ip : Ipv4Addr) : Bool := ip == ⟨255, 255, 255, 255⟩

def isDocumentation (ip : Ipv4Addr) : Bool :=
  (ip.a == 192 && ip.b == 0 && ip.c == 2) || (ip.a == 198 && ip.b == 51 && ip.c == 100) ||
    (ip.a == 203 && ip.b == 0 && ip.c == 113)

def isMulticast (ip : Ipv4Addr) : Bool := 224 ≤ ip.a && ip.a ≤ 239

/-- The address as a number of 32 bits. -/
def value (ip : Ipv4Addr) : ℕ :=
  ((ip.a.toNat * 2 ^ 8 + ip.b.toNat) * 2 ^ 8 + ip.c.toNat) * 2 ^ 8 + ip.d.toNat

end Ipv4Addr

namespace Ipv6Addr

def isLoopback (ip : Ipv6Addr) : Bool := ip == ⟨0, 0, 0, 0, 0, 0, 0, 1⟩

def isUnspecified (ip : Ipv6Addr) : Bool := ip == ⟨0, 0, 0, 0, 0, 0, 0, 0⟩

def isMulticast (ip : Ipv6Addr) : Bool := ip.s0 >>> 8 == 0xff

/-- `embedded`: the address whose octets are those of two segments. -/
def embedded (hi lo : UInt16) : Ipv4Addr :=
  ⟨(hi >>> 8).toUInt8, hi.toUInt8, (lo >>> 8).toUInt8, lo.toUInt8⟩

def toIpv4Mapped (ip : Ipv6Addr) : Option Ipv4Addr :=
  if ip.s0 == 0 && ip.s1 == 0 && ip.s2 == 0 && ip.s3 == 0 && ip.s4 == 0 && ip.s5 == 0xffff then
    some (embedded ip.s6 ip.s7)
  else none

/-- The address as a number of 128 bits. -/
def value (ip : Ipv6Addr) : ℕ :=
  ((((((ip.s0.toNat * 2 ^ 16 + ip.s1.toNat) * 2 ^ 16 + ip.s2.toNat) * 2 ^ 16 + ip.s3.toNat) *
    2 ^ 16 + ip.s4.toNat) * 2 ^ 16 + ip.s5.toNat) * 2 ^ 16 + ip.s6.toNat) * 2 ^ 16 + ip.s7.toNat

end Ipv6Addr

/-! ## The check -/

/-- `is_public` of an IPv4 address. -/
def isPublicV4 (ip : Ipv4Addr) : Bool :=
  !(ip.isLoopback || ip.isPrivate || ip.isLinkLocal || ip.isUnspecified || ip.isBroadcast ||
    ip.isDocumentation || ip.isMulticast || ip.a == 0 ||
    (ip.a == 100 && 64 ≤ ip.b && ip.b < 128) || (ip.a == 192 && ip.b == 0) || 240 ≤ ip.a)

/-- `is_public` of an IPv6 address. -/
def isPublicV6 (ip : Ipv6Addr) : Bool :=
  match ip.toIpv4Mapped with
  | some v4 => isPublicV4 v4
  | none =>
      -- NAT64, IPv4-compatible and 6to4 addresses carry an IPv4 one.
      if ip.s0 == 0x64 && ip.s1 == 0xff9b && ip.s2 == 0 && ip.s3 == 0 && ip.s4 == 0 &&
          ip.s5 == 0 then
        isPublicV4 (Ipv6Addr.embedded ip.s6 ip.s7)
      else if ip.s0 == 0 && ip.s1 == 0 && ip.s2 == 0 && ip.s3 == 0 && ip.s4 == 0 && ip.s5 == 0 &&
          !ip.isLoopback && !ip.isUnspecified then
        isPublicV4 (Ipv6Addr.embedded ip.s6 ip.s7)
      else if ip.s0 == 0x2002 then isPublicV4 (Ipv6Addr.embedded ip.s1 ip.s2)
      -- Teredo and local-use NAT64 hide or vary where they lead.
      else if (ip.s0 == 0x2001 && ip.s1 == 0) ||
          (ip.s0 == 0x64 && ip.s1 == 0xff9b && ip.s2 == 1) then
        false
      else
        !(ip.isLoopback || ip.isUnspecified || ip.isMulticast || ip.s0 &&& 0xfe00 == 0xfc00 ||
          ip.s0 &&& 0xffc0 == 0xfe80 || (ip.s0 == 0x2001 && ip.s1 == 0x0db8))

def isPublic : IpAddr → Bool
  | .v4 v4 => isPublicV4 v4
  | .v6 v6 => isPublicV6 v6

/-! ## Special-purpose addresses -/

/-- Why an address is not globally reachable. -/
inductive Kind
  | loopback
  | privateUse
  | linkLocal
  | shared
  | benchmarking
  | documentation
  | reserved
  | unspecified
  | multicast
  deriving DecidableEq, Repr

/-- The network of an IPv4 address and a length. -/
def net4 (a b c d : UInt8) (length : ℕ) : Block :=
  ⟨Ipv4Addr.value ⟨a, b, c, d⟩ / 2 ^ (32 - length), 32 - length⟩

/-- The network of an IPv6 address, of whose segments the last three are zero, and a length. -/
def net6 (s0 s1 s2 s3 s4 : UInt16) (length : ℕ) : Block :=
  ⟨Ipv6Addr.value ⟨s0, s1, s2, s3, s4, 0, 0, 0⟩ / 2 ^ (128 - length), 128 - length⟩

/-- One IPv6 address. -/
def host6 (ip : Ipv6Addr) : Block := ⟨ip.value, 0⟩

/-- The IPv4 networks of a kind. -/
def special4 : Kind → List Block
  | .loopback => [net4 127 0 0 0 8]
  | .privateUse => [net4 10 0 0 0 8, net4 172 16 0 0 12, net4 192 168 0 0 16]
  | .linkLocal => [net4 169 254 0 0 16]
  | .shared => [net4 100 64 0 0 10]
  | .benchmarking => [net4 198 18 0 0 15]
  | .documentation => [net4 192 0 2 0 24, net4 198 51 100 0 24, net4 203 0 113 0 24]
  | .reserved => [net4 192 0 0 0 24, net4 240 0 0 0 4]
  | .unspecified => [net4 0 0 0 0 8]
  | .multicast => [net4 224 0 0 0 4]

/-- Anycast addresses of the protocol assignments, which are reachable. -/
def reachable4 : List Block := [net4 192 0 0 9 32, net4 192 0 0 10 32]

/-- The IPv6 networks of a kind. -/
def special6 : Kind → List Block
  | .loopback => [host6 ⟨0, 0, 0, 0, 0, 0, 0, 1⟩]
  | .privateUse => [net6 0xfc00 0 0 0 0 7]
  | .linkLocal => [net6 0xfe80 0 0 0 0 10]
  | .shared => []
  | .benchmarking => [net6 0x2001 2 0 0 0 48]
  | .documentation => [net6 0x2001 0xdb8 0 0 0 32, net6 0x3fff 0 0 0 0 20]
  -- Local-use translation, discard-only, a dummy prefix, protocol assignments, segment ids.
  | .reserved =>
      [net6 0x64 0xff9b 1 0 0 48, net6 0x100 0 0 0 0 64, net6 0x100 0 0 1 0 64,
        net6 0x2001 0 0 0 0 23, net6 0x5f00 0 0 0 0 16]
  | .unspecified => [host6 ⟨0, 0, 0, 0, 0, 0, 0, 0⟩]
  | .multicast => [net6 0xff00 0 0 0 0 8]

/-- What is taken out of the protocol assignments again: Teredo, which carries addresses, and
the assignments that are reachable. -/
def reachable6 : List Block :=
  [net6 0x2001 0 0 0 0 32, host6 ⟨0x2001, 1, 0, 0, 0, 0, 0, 1⟩,
    host6 ⟨0x2001, 1, 0, 0, 0, 0, 0, 2⟩, host6 ⟨0x2001, 1, 0, 0, 0, 0, 0, 3⟩,
    net6 0x2001 3 0 0 0 32, net6 0x2001 4 0x112 0 0 48, net6 0x2001 0x20 0 0 0 28,
    net6 0x2001 0x30 0 0 0 28]

/-- An IPv4 address that an IPv6 one stands for, or may stand for. -/
inductive Embeds : Ipv6Addr → Ipv4Addr → Prop
  | mapped (hi lo : UInt16) :
      Embeds ⟨0, 0, 0, 0, 0, 0xffff, hi, lo⟩ (Ipv6Addr.embedded hi lo)
  | compatible (hi lo : UInt16) : Embeds ⟨0, 0, 0, 0, 0, 0, hi, lo⟩ (Ipv6Addr.embedded hi lo)
  | nat64 (hi lo : UInt16) :
      Embeds ⟨0x64, 0xff9b, 0, 0, 0, 0, hi, lo⟩ (Ipv6Addr.embedded hi lo)
  -- A network keeps the address wherever it likes.
  | localNat64 (s3 s4 s5 s6 s7 : UInt16) (v4 : Ipv4Addr) :
      Embeds ⟨0x64, 0xff9b, 1, s3, s4, s5, s6, s7⟩ v4
  | sixToFour (hi lo s3 s4 s5 s6 s7 : UInt16) :
      Embeds ⟨0x2002, hi, lo, s3, s4, s5, s6, s7⟩ (Ipv6Addr.embedded hi lo)
  | teredoServer (hi lo s4 s5 s6 s7 : UInt16) :
      Embeds ⟨0x2001, 0, hi, lo, s4, s5, s6, s7⟩ (Ipv6Addr.embedded hi lo)
  -- The client's bits are inverted.
  | teredoClient (s2 s3 s4 s5 hi lo : UInt16) :
      Embeds ⟨0x2001, 0, s2, s3, s4, s5, hi, lo⟩ (Ipv6Addr.embedded (~~~hi) (~~~lo))

/-- The address is of this kind, in any of its forms. -/
def Special (kind : Kind) : IpAddr → Prop
  | .v4 v4 => InBlocksBut (special4 kind) reachable4 v4.value
  | .v6 v6 =>
      InBlocksBut (special6 kind) reachable6 v6.value ∨
        ∃ v4, Embeds v6 v4 ∧ InBlocksBut (special4 kind) reachable4 v4.value

/-- What the check is for, at one address and one kind. -/
structure Sheltered (kind : Kind) (ip : IpAddr) : Prop where
  embedded : ∀ v6 v4, ip = .v6 v6 → Embeds v6 v4 → isPublic ip = true →
    isPublic (.v4 v4) = true
  special : isPublic ip = true → ¬Special kind ip

/-! ## The tests as blocks -/

/-- What the check refuses of IPv4, test by test. -/
def refused4 : List Block :=
  [net4 127 0 0 0 8, net4 10 0 0 0 8, net4 172 16 0 0 12, net4 192 168 0 0 16,
    net4 169 254 0 0 16, net4 0 0 0 0 32, net4 255 255 255 255 32, net4 192 0 2 0 24,
    net4 198 51 100 0 24, net4 203 0 113 0 24, net4 224 0 0 0 4, net4 0 0 0 0 8,
    net4 100 64 0 0 10, net4 192 0 0 0 16, net4 240 0 0 0 4]

namespace Ipv4Addr

variable {ip : Ipv4Addr}

theorem value_div (ip : Ipv4Addr) :
    ip.value / 2 ^ 8 = (ip.a.toNat * 2 ^ 8 + ip.b.toNat) * 2 ^ 8 + ip.c.toNat ∧
      ip.value / 2 ^ 16 = ip.a.toNat * 2 ^ 8 + ip.b.toNat ∧
      ip.value / 2 ^ 24 = ip.a.toNat := by
  have hb := ip.b.toNat_lt
  have hc := ip.c.toNat_lt
  have hd := ip.d.toNat_lt
  unfold value
  omega

theorem value_inj {x y : Ipv4Addr} : x.value = y.value ↔ x = y := by
  constructor
  · intro h
    have hx := x.value_div
    have hy := y.value_div
    have hbounds := And.intro x.b.toNat_lt (And.intro x.c.toNat_lt x.d.toNat_lt)
    have hbounds' := And.intro y.b.toNat_lt (And.intro y.c.toNat_lt y.d.toNat_lt)
    unfold value at h hx hy
    obtain ⟨a, b, c, d⟩ := x
    obtain ⟨a', b', c', d'⟩ := y
    simp only [Ipv4Addr.mk.injEq, ← UInt8.toNat_inj] at h hx hy hbounds hbounds' ⊢
    omega
  · rintro rfl
    rfl

theorem isLoopback_iff : ip.isLoopback = true ↔ (net4 127 0 0 0 8).Contains ip.value := by
  have hip := ip.value_div
  rw [isLoopback, beq_iff_eq, ← UInt8.toNat_inj]
  change ip.a.toNat = 127 ↔ ip.value / 2 ^ 24 = 127
  omega

theorem isPrivate_iff : ip.isPrivate = true ↔
    ((net4 10 0 0 0 8).Contains ip.value ∨ (net4 172 16 0 0 12).Contains ip.value) ∨
      (net4 192 168 0 0 16).Contains ip.value := by
  have hip := ip.value_div
  have hb := ip.b.toNat_lt
  simp only [isPrivate, Bool.or_eq_true, Bool.and_eq_true, beq_iff_eq, decide_eq_true_eq,
    ← UInt8.toNat_inj, UInt8.le_iff_toNat_le]
  change (ip.a.toNat = 10 ∨ (ip.a.toNat = 172 ∧ 16 ≤ ip.b.toNat) ∧ ip.b.toNat ≤ 31) ∨
      ip.a.toNat = 192 ∧ ip.b.toNat = 168 ↔
    (ip.value / 2 ^ 24 = 10 ∨ ip.value / 2 ^ 20 = 172 * 2 ^ 4 + 1) ∨
      ip.value / 2 ^ 16 = 192 * 2 ^ 8 + 168
  refine or_congr (or_congr ?_ ?_) ?_ <;> omega

theorem isLinkLocal_iff :
    ip.isLinkLocal = true ↔ (net4 169 254 0 0 16).Contains ip.value := by
  have hip := ip.value_div
  have hb := ip.b.toNat_lt
  simp only [isLinkLocal, Bool.and_eq_true, beq_iff_eq, ← UInt8.toNat_inj]
  change ip.a.toNat = 169 ∧ ip.b.toNat = 254 ↔ ip.value / 2 ^ 16 = 169 * 2 ^ 8 + 254
  omega

/-- A single address is a block of its own. -/
theorem eq_iff_contains (x : Ipv4Addr) :
    ip = x ↔ (net4 x.a x.b x.c x.d 32).Contains ip.value := by
  rw [← value_inj]
  unfold Block.Contains net4
  simp

theorem isUnspecified_iff : ip.isUnspecified = true ↔ (net4 0 0 0 0 32).Contains ip.value := by
  rw [isUnspecified, beq_iff_eq, eq_iff_contains]

theorem isBroadcast_iff :
    ip.isBroadcast = true ↔ (net4 255 255 255 255 32).Contains ip.value := by
  rw [isBroadcast, beq_iff_eq, eq_iff_contains]

theorem isDocumentation_iff : ip.isDocumentation = true ↔
    ((net4 192 0 2 0 24).Contains ip.value ∨ (net4 198 51 100 0 24).Contains ip.value) ∨
      (net4 203 0 113 0 24).Contains ip.value := by
  have hip := ip.value_div
  have hb := ip.b.toNat_lt
  have hc := ip.c.toNat_lt
  simp only [isDocumentation, Bool.or_eq_true, Bool.and_eq_true, beq_iff_eq, ← UInt8.toNat_inj]
  change ((ip.a.toNat = 192 ∧ ip.b.toNat = 0) ∧ ip.c.toNat = 2 ∨
      (ip.a.toNat = 198 ∧ ip.b.toNat = 51) ∧ ip.c.toNat = 100) ∨
      (ip.a.toNat = 203 ∧ ip.b.toNat = 0) ∧ ip.c.toNat = 113 ↔
    (ip.value / 2 ^ 8 = (192 * 2 ^ 8 + 0) * 2 ^ 8 + 2 ∨
      ip.value / 2 ^ 8 = (198 * 2 ^ 8 + 51) * 2 ^ 8 + 100) ∨
      ip.value / 2 ^ 8 = (203 * 2 ^ 8 + 0) * 2 ^ 8 + 113
  refine or_congr (or_congr ?_ ?_) ?_ <;> omega

theorem isMulticast_iff : ip.isMulticast = true ↔ (net4 224 0 0 0 4).Contains ip.value := by
  have hip := ip.value_div
  simp only [isMulticast, Bool.and_eq_true, decide_eq_true_eq, UInt8.le_iff_toNat_le]
  change 224 ≤ ip.a.toNat ∧ ip.a.toNat ≤ 239 ↔ ip.value / 2 ^ 28 = 14
  omega

end Ipv4Addr

theorem isPublicV4_iff (ip : Ipv4Addr) :
    isPublicV4 ip = true ↔ ¬InBlocks refused4 ip.value := by
  have hip := ip.value_div
  have ha := ip.a.toNat_lt
  have hb := ip.b.toNat_lt
  have hzero : ip.a = 0 ↔ (net4 0 0 0 0 8).Contains ip.value := by
    rw [← UInt8.toNat_inj]
    change ip.a.toNat = 0 ↔ ip.value / 2 ^ 24 = 0
    omega
  have hshared : (ip.a = 100 ∧ 64 ≤ ip.b) ∧ ip.b < 128 ↔
      (net4 100 64 0 0 10).Contains ip.value := by
    rw [← UInt8.toNat_inj, UInt8.le_iff_toNat_le, UInt8.lt_iff_toNat_lt]
    change (ip.a.toNat = 100 ∧ 64 ≤ ip.b.toNat) ∧ ip.b.toNat < 128 ↔
      ip.value / 2 ^ 22 = 100 * 2 ^ 2 + 1
    omega
  have hassigned : ip.a = 192 ∧ ip.b = 0 ↔ (net4 192 0 0 0 16).Contains ip.value := by
    rw [← UInt8.toNat_inj, ← UInt8.toNat_inj]
    change ip.a.toNat = 192 ∧ ip.b.toNat = 0 ↔ ip.value / 2 ^ 16 = 192 * 2 ^ 8
    omega
  have hreserved : 240 ≤ ip.a ↔ (net4 240 0 0 0 4).Contains ip.value := by
    rw [UInt8.le_iff_toNat_le]
    change 240 ≤ ip.a.toNat ↔ ip.value / 2 ^ 28 = 15
    omega
  rw [isPublicV4, Bool.not_eq_true', ← Bool.not_eq_true, not_iff_not]
  simp only [Bool.or_eq_true, Bool.and_eq_true, beq_iff_eq, decide_eq_true_eq,
    Ipv4Addr.isLoopback_iff, Ipv4Addr.isPrivate_iff, Ipv4Addr.isLinkLocal_iff,
    Ipv4Addr.isUnspecified_iff, Ipv4Addr.isBroadcast_iff, Ipv4Addr.isDocumentation_iff,
    Ipv4Addr.isMulticast_iff, hzero, hshared, hassigned, hreserved, refused4, inBlocks_cons,
    inBlocks_nil, or_false, or_assoc]

/-! ## The same for IPv6 -/

/-- What the check refuses of IPv6 addresses that carry no other. -/
def refused6 : List Block :=
  [net6 0x2001 0 0 0 0 32, net6 0x64 0xff9b 1 0 0 48, host6 ⟨0, 0, 0, 0, 0, 0, 0, 1⟩,
    host6 ⟨0, 0, 0, 0, 0, 0, 0, 0⟩, net6 0xff00 0 0 0 0 8, net6 0xfc00 0 0 0 0 7,
    net6 0xfe80 0 0 0 0 10, net6 0x2001 0xdb8 0 0 0 32]

namespace Ipv6Addr

variable {ip : Ipv6Addr}

theorem value_div (ip : Ipv6Addr) :
    ip.value / 2 ^ 48 = (((ip.s0.toNat * 2 ^ 16 + ip.s1.toNat) * 2 ^ 16 + ip.s2.toNat) *
        2 ^ 16 + ip.s3.toNat) * 2 ^ 16 + ip.s4.toNat ∧
      ip.value / 2 ^ 80 = (ip.s0.toNat * 2 ^ 16 + ip.s1.toNat) * 2 ^ 16 + ip.s2.toNat ∧
      ip.value / 2 ^ 96 = ip.s0.toNat * 2 ^ 16 + ip.s1.toNat ∧
      ip.value / 2 ^ 112 = ip.s0.toNat := by
  have h1 := ip.s1.toNat_lt
  have h2 := ip.s2.toNat_lt
  have h3 := ip.s3.toNat_lt
  have h4 := ip.s4.toNat_lt
  have h5 := ip.s5.toNat_lt
  have h6 := ip.s6.toNat_lt
  have h7 := ip.s7.toNat_lt
  unfold value
  omega

/-- The digits of a number in base `2^16`, one at a time. -/
private theorem digit_inj {m n : ℕ} {s t : UInt16} :
    m * 2 ^ 16 + s.toNat = n * 2 ^ 16 + t.toNat ↔ m = n ∧ s = t := by
  have hs := s.toNat_lt
  have ht := t.toNat_lt
  rw [← UInt16.toNat_inj]
  omega

theorem value_inj {x y : Ipv6Addr} : x.value = y.value ↔ x = y := by
  obtain ⟨s0, s1, s2, s3, s4, s5, s6, s7⟩ := x
  obtain ⟨t0, t1, t2, t3, t4, t5, t6, t7⟩ := y
  unfold value
  rw [digit_inj, digit_inj, digit_inj, digit_inj, digit_inj, digit_inj, digit_inj,
    UInt16.toNat_inj, Ipv6Addr.mk.injEq]
  simp only [and_assoc]

theorem isLoopback_iff :
    ip.isLoopback = true ↔ (host6 ⟨0, 0, 0, 0, 0, 0, 0, 1⟩).Contains ip.value := by
  rw [isLoopback, beq_iff_eq, ← value_inj]
  simp [Block.Contains, host6]

theorem isUnspecified_iff :
    ip.isUnspecified = true ↔ (host6 ⟨0, 0, 0, 0, 0, 0, 0, 0⟩).Contains ip.value := by
  rw [isUnspecified, beq_iff_eq, ← value_inj]
  simp [Block.Contains, host6]

theorem isMulticast_iff :
    ip.isMulticast = true ↔ (net6 0xff00 0 0 0 0 8).Contains ip.value := by
  have hip := ip.value_div
  rw [isMulticast, beq_iff_eq, ← UInt16.toNat_inj, UInt16.toNat_shiftRight]
  change ip.s0.toNat >>> 8 = 0xff ↔ ip.value / 2 ^ 120 = 0xff
  rw [Nat.shiftRight_eq_div_pow]
  omega

/-- A test under a mask of the first segment is a block. -/
theorem masked_iff (x : UInt16) {k n : ℕ} {mask high : UInt16}
    (hmask : mask.toNat = (2 ^ n - 1) * 2 ^ k) (hkn : k + n = 16) (block : ℕ)
    (hhigh : high.toNat = block * 2 ^ k) :
    (x &&& mask == high) = true ↔ x.toNat / 2 ^ k = block := by
  have hx : x.toNat / 2 ^ k < 2 ^ n := by
    rw [Nat.div_lt_iff_lt_mul (Nat.two_pow_pos k), ← Nat.pow_add, Nat.add_comm n k, hkn]
    exact x.toNat_lt
  rw [beq_iff_eq, ← UInt16.toNat_inj, UInt16.toNat_and, hmask, and_highMask, hhigh,
    Nat.mod_eq_of_lt hx]
  exact Nat.mul_right_cancel_iff (Nat.two_pow_pos k)

/-- The IPv4 address the check looks at in place of this one. -/
def carried (ip : Ipv6Addr) : Option Ipv4Addr :=
  match ip.toIpv4Mapped with
  | some v4 => some v4
  | none =>
      if ip.s0 == 0x64 && ip.s1 == 0xff9b && ip.s2 == 0 && ip.s3 == 0 && ip.s4 == 0 &&
          ip.s5 == 0 then
        some (embedded ip.s6 ip.s7)
      else if ip.s0 == 0 && ip.s1 == 0 && ip.s2 == 0 && ip.s3 == 0 && ip.s4 == 0 && ip.s5 == 0 &&
          !ip.isLoopback && !ip.isUnspecified then
        some (embedded ip.s6 ip.s7)
      else if ip.s0 == 0x2002 then some (embedded ip.s1 ip.s2)
      else none

end Ipv6Addr

theorem isPublicV6_of_carried {ip : Ipv6Addr} {v4 : Ipv4Addr} (h : ip.carried = some v4) :
    isPublicV6 ip = isPublicV4 v4 := by
  unfold Ipv6Addr.carried at h
  unfold isPublicV6
  cases hmapped : ip.toIpv4Mapped with
  | some mapped =>
      rw [hmapped] at h
      exact congrArg isPublicV4 (Option.some.inj h)
  | none =>
      rw [hmapped] at h
      dsimp only at h ⊢
      split_ifs at h ⊢ <;> exact congrArg isPublicV4 (Option.some.inj h)

theorem isPublicV6_iff {ip : Ipv6Addr} (h : ip.carried = none) :
    isPublicV6 ip = true ↔ ¬InBlocks refused6 ip.value := by
  have hip := ip.value_div
  have h1 := ip.s1.toNat_lt
  have h2 := ip.s2.toNat_lt
  have hteredo : ip.s0 = 0x2001 ∧ ip.s1 = 0 ↔ (net6 0x2001 0 0 0 0 32).Contains ip.value := by
    rw [← UInt16.toNat_inj, ← UInt16.toNat_inj]
    change ip.s0.toNat = 0x2001 ∧ ip.s1.toNat = 0 ↔ ip.value / 2 ^ 96 = 0x2001 * 2 ^ 16
    omega
  have hlocal : (ip.s0 = 0x64 ∧ ip.s1 = 0xff9b) ∧ ip.s2 = 1 ↔
      (net6 0x64 0xff9b 1 0 0 48).Contains ip.value := by
    rw [← UInt16.toNat_inj, ← UInt16.toNat_inj, ← UInt16.toNat_inj]
    change (ip.s0.toNat = 0x64 ∧ ip.s1.toNat = 0xff9b) ∧ ip.s2.toNat = 1 ↔
      ip.value / 2 ^ 80 = (0x64 * 2 ^ 16 + 0xff9b) * 2 ^ 16 + 1
    omega
  have hprivate : (ip.s0 &&& 0xfe00 == 0xfc00) = true ↔
      (net6 0xfc00 0 0 0 0 7).Contains ip.value := by
    rw [Ipv6Addr.masked_iff ip.s0 (k := 9) (n := 7) rfl rfl 126 rfl]
    change ip.s0.toNat / 2 ^ 9 = 126 ↔ ip.value / 2 ^ 121 = 126
    omega
  have hlink : (ip.s0 &&& 0xffc0 == 0xfe80) = true ↔
      (net6 0xfe80 0 0 0 0 10).Contains ip.value := by
    rw [Ipv6Addr.masked_iff ip.s0 (k := 6) (n := 10) rfl rfl 1018 rfl]
    change ip.s0.toNat / 2 ^ 6 = 1018 ↔ ip.value / 2 ^ 118 = 1018
    omega
  have hdocumentation : ip.s0 = 0x2001 ∧ ip.s1 = 0x0db8 ↔
      (net6 0x2001 0xdb8 0 0 0 32).Contains ip.value := by
    rw [← UInt16.toNat_inj, ← UInt16.toNat_inj]
    change ip.s0.toNat = 0x2001 ∧ ip.s1.toNat = 0xdb8 ↔ ip.value / 2 ^ 96 = 0x2001 * 2 ^ 16 + 0xdb8
    omega
  unfold Ipv6Addr.carried at h
  unfold isPublicV6
  cases hmapped : ip.toIpv4Mapped with
  | some mapped =>
      rw [hmapped] at h
      contradiction
  | none =>
      rw [hmapped] at h
      dsimp only at h ⊢
      split_ifs at h ⊢ with hnat64 hcompatible hsix hhidden
      · simp only [Bool.or_eq_true, Bool.and_eq_true, beq_iff_eq, hteredo, hlocal] at hhidden
        refine iff_of_false not_false (not_not.mpr ?_)
        rw [refused6, inBlocks_cons, inBlocks_cons, ← or_assoc]
        exact .inl hhidden
      · simp only [Bool.or_eq_true, Bool.and_eq_true, beq_iff_eq, hteredo, hlocal] at hhidden
        obtain ⟨hteredo, hlocal⟩ := not_or.mp hhidden
        rw [Bool.not_eq_true', ← Bool.not_eq_true, not_iff_not]
        simp only [Bool.or_eq_true, Bool.and_eq_true, beq_iff_eq, Ipv6Addr.isLoopback_iff,
          Ipv6Addr.isUnspecified_iff, Ipv6Addr.isMulticast_iff, hdocumentation, refused6,
          inBlocks_cons, inBlocks_nil, or_false, or_assoc, hteredo, hlocal, false_or]
        rw [← beq_iff_eq, hprivate, ← beq_iff_eq, hlink]

/-! ## Addresses that carry others -/

/-- Where the addresses are that carry one. -/
def carrying : List Block :=
  [net6 0 0 0 0 0 80, net6 0x64 0xff9b 0 0 0 80, net6 0x2002 0 0 0 0 16]

theorem contains_net6_80 (s0 s1 s2 s3 s4 s5 s6 s7 : UInt16) :
    (net6 s0 s1 s2 s3 s4 80).Contains (Ipv6Addr.value ⟨s0, s1, s2, s3, s4, s5, s6, s7⟩) := by
  have hin := Ipv6Addr.value_div ⟨s0, s1, s2, s3, s4, s5, s6, s7⟩
  have hfirst := Ipv6Addr.value_div ⟨s0, s1, s2, s3, s4, 0, 0, 0⟩
  change Ipv6Addr.value _ / 2 ^ 48 = Ipv6Addr.value _ / 2 ^ 48
  rw [hin.1, hfirst.1]

theorem contains_net6_48 (s0 s1 s2 s3 s4 s5 s6 s7 : UInt16) :
    (net6 s0 s1 s2 0 0 48).Contains (Ipv6Addr.value ⟨s0, s1, s2, s3, s4, s5, s6, s7⟩) := by
  have hin := Ipv6Addr.value_div ⟨s0, s1, s2, s3, s4, s5, s6, s7⟩
  have hfirst := Ipv6Addr.value_div ⟨s0, s1, s2, 0, 0, 0, 0, 0⟩
  change Ipv6Addr.value _ / 2 ^ 80 = Ipv6Addr.value _ / 2 ^ 80
  rw [hin.2.1, hfirst.2.1]

theorem contains_net6_32 (s0 s1 s2 s3 s4 s5 s6 s7 : UInt16) :
    (net6 s0 s1 0 0 0 32).Contains (Ipv6Addr.value ⟨s0, s1, s2, s3, s4, s5, s6, s7⟩) := by
  have hin := Ipv6Addr.value_div ⟨s0, s1, s2, s3, s4, s5, s6, s7⟩
  have hfirst := Ipv6Addr.value_div ⟨s0, s1, 0, 0, 0, 0, 0, 0⟩
  change Ipv6Addr.value _ / 2 ^ 96 = Ipv6Addr.value _ / 2 ^ 96
  rw [hin.2.2.1, hfirst.2.2.1]

theorem contains_net6_16 (s0 s1 s2 s3 s4 s5 s6 s7 : UInt16) :
    (net6 s0 0 0 0 0 16).Contains (Ipv6Addr.value ⟨s0, s1, s2, s3, s4, s5, s6, s7⟩) := by
  have hin := Ipv6Addr.value_div ⟨s0, s1, s2, s3, s4, s5, s6, s7⟩
  have hfirst := Ipv6Addr.value_div ⟨s0, 0, 0, 0, 0, 0, 0, 0⟩
  change Ipv6Addr.value _ / 2 ^ 112 = Ipv6Addr.value _ / 2 ^ 112
  rw [hin.2.2.2, hfirst.2.2.2]

theorem carried_spec {v6 : Ipv6Addr} {v4 : Ipv4Addr} (h : v6.carried = some v4) :
    Embeds v6 v4 ∧ InBlocks carrying v6.value ∧ v6.isLoopback = false ∧
      v6.isUnspecified = false := by
  obtain ⟨s0, s1, s2, s3, s4, s5, s6, s7⟩ := v6
  unfold Ipv6Addr.carried at h
  split at h
  · next mapped hmapped =>
      unfold Ipv6Addr.toIpv4Mapped at hmapped
      split_ifs at hmapped with hzero
      simp only [Bool.and_eq_true, beq_iff_eq] at hzero
      obtain ⟨⟨⟨⟨⟨rfl, rfl⟩, rfl⟩, rfl⟩, rfl⟩, rfl⟩ := hzero
      obtain rfl := Option.some.inj (hmapped.trans h)
      refine ⟨.mapped s6 s7, ?_, ?_, ?_⟩
      · exact ⟨_, List.mem_cons_self .., contains_net6_80 ..⟩
      · simp [Ipv6Addr.isLoopback]
      · simp [Ipv6Addr.isUnspecified]
  · split_ifs at h with hnat64 hcompatible hsix
    · simp only [Bool.and_eq_true, beq_iff_eq] at hnat64
      obtain ⟨⟨⟨⟨⟨rfl, rfl⟩, rfl⟩, rfl⟩, rfl⟩, rfl⟩ := hnat64
      obtain rfl := Option.some.inj h
      refine ⟨.nat64 s6 s7, ?_, ?_, ?_⟩
      · exact ⟨_, List.mem_cons_of_mem _ (List.mem_cons_self ..), contains_net6_80 ..⟩
      · simp [Ipv6Addr.isLoopback]
      · simp [Ipv6Addr.isUnspecified]
    · simp only [Bool.and_eq_true, beq_iff_eq, Bool.not_eq_true'] at hcompatible
      obtain ⟨⟨⟨⟨⟨⟨⟨rfl, rfl⟩, rfl⟩, rfl⟩, rfl⟩, rfl⟩, hloopback⟩, hunspecified⟩ := hcompatible
      obtain rfl := Option.some.inj h
      refine ⟨.compatible s6 s7, ?_, hloopback, hunspecified⟩
      exact ⟨_, List.mem_cons_self .., contains_net6_80 ..⟩
    · rw [beq_iff_eq] at hsix
      obtain rfl := hsix
      obtain rfl := Option.some.inj h
      refine ⟨.sixToFour s1 s2 s3 s4 s5 s6 s7, ?_, ?_, ?_⟩
      · exact ⟨_, List.mem_cons_of_mem _ (List.mem_cons_of_mem _ (List.mem_cons_self ..)),
          contains_net6_16 ..⟩
      · simp [Ipv6Addr.isLoopback]
      · simp [Ipv6Addr.isUnspecified]

/-- What embeds an address carries it, or is refused. -/
theorem carried_of_embeds {v6 : Ipv6Addr} {v4 : Ipv4Addr} (h : Embeds v6 v4) :
    v6.carried = some v4 ∨ v6.carried = none ∧ InBlocks refused6 v6.value := by
  cases h with
  | mapped hi lo => exact .inl rfl
  | compatible hi lo =>
      by_cases hloopback : Ipv6Addr.isLoopback ⟨0, 0, 0, 0, 0, 0, hi, lo⟩ = true
      · rw [Ipv6Addr.isLoopback, beq_iff_eq] at hloopback
        rw [hloopback]
        exact .inr ⟨rfl, by decide⟩
      · by_cases hunspecified : Ipv6Addr.isUnspecified ⟨0, 0, 0, 0, 0, 0, hi, lo⟩ = true
        · rw [Ipv6Addr.isUnspecified, beq_iff_eq] at hunspecified
          rw [hunspecified]
          exact .inr ⟨rfl, by decide⟩
        · rw [Bool.not_eq_true] at hloopback hunspecified
          refine .inl ?_
          unfold Ipv6Addr.carried
          simp [Ipv6Addr.toIpv4Mapped, hloopback, hunspecified]
  | nat64 hi lo => exact .inl rfl
  | localNat64 s3 s4 s5 s6 s7 v4 =>
      refine .inr ⟨rfl, _, List.mem_cons_of_mem _ (List.mem_cons_self ..), ?_⟩
      exact contains_net6_48 ..
  | sixToFour hi lo s3 s4 s5 s6 s7 => exact .inl rfl
  | teredoServer hi lo s4 s5 s6 s7 =>
      exact .inr ⟨rfl, _, List.mem_cons_self .., contains_net6_32 ..⟩
  | teredoClient s2 s3 s4 s5 hi lo =>
      exact .inr ⟨rfl, _, List.mem_cons_self .., contains_net6_32 ..⟩

/-! ## What is missed -/

/-- The IPv4 networks no test knows. -/
def missing4 : Kind → List Block
  | .benchmarking => [net4 198 18 0 0 15]
  | _ => []

/-- The IPv6 networks no test knows. -/
def missing6 : Kind → List Block
  | .benchmarking => [net6 0x2001 2 0 0 0 48]
  | .documentation => [net6 0x3fff 0 0 0 0 20]
  | .reserved =>
      [net6 0x100 0 0 0 0 64, net6 0x100 0 0 1 0 64, net6 0x2001 0 0 0 0 23,
        net6 0x5f00 0 0 0 0 16]
  | _ => []

/-- The address is in one of them, or carries one that is. -/
def Missed (kind : Kind) : IpAddr → Prop
  | .v4 v4 => InBlocksBut (missing4 kind) reachable4 v4.value
  | .v6 v6 =>
      InBlocksBut (missing6 kind) reachable6 v6.value ∨
        ∃ v4, v6.carried = some v4 ∧ InBlocksBut (missing4 kind) reachable4 v4.value

theorem gaps4 (kind : Kind) : Gaps refused4 (special4 kind) (missing4 kind) reachable4 := by
  constructor <;> cases kind <;> decide

theorem gaps6 (kind : Kind) : Gaps refused6 (special6 kind) (missing6 kind) reachable6 := by
  constructor <;> cases kind <;> decide

/-- Nothing that carries an address is special itself. -/
theorem apart_carrying (kind : Kind) : ∀ b ∈ special6 kind,
    (∀ c ∈ carrying, c.Apart b) ∨ b = host6 ⟨0, 0, 0, 0, 0, 0, 0, 1⟩ ∨
      b = host6 ⟨0, 0, 0, 0, 0, 0, 0, 0⟩ := by
  cases kind <;> decide

theorem not_special_of_carried {v6 : Ipv6Addr} {v4 : Ipv4Addr} (h : v6.carried = some v4)
    (kind : Kind) : ¬InBlocks (special6 kind) v6.value := by
  obtain ⟨-, ⟨c, hc, hcx⟩, hloopback, hunspecified⟩ := carried_spec h
  rw [← Bool.not_eq_true] at hloopback hunspecified
  rintro ⟨b, hb, hbx⟩
  rcases apart_carrying kind b hb with hapart | rfl | rfl
  · exact (hapart c hc).not_contains hcx hbx
  · exact hloopback (Ipv6Addr.isLoopback_iff.mpr hbx)
  · exact hunspecified (Ipv6Addr.isUnspecified_iff.mpr hbx)

/-- What an address embeds is public if the address is. -/
theorem isPublic_of_embeds {v6 : Ipv6Addr} {v4 : Ipv4Addr} (h : Embeds v6 v4)
    (hpublic : isPublicV6 v6 = true) : isPublicV4 v4 = true := by
  rcases carried_of_embeds h with hcarried | ⟨hnone, hrefused⟩
  · rwa [← isPublicV6_of_carried hcarried]
  · exact absurd hrefused ((isPublicV6_iff hnone).mp hpublic)

/-- The check of an IPv4 address misses just what no test knows. -/
theorem special_v4_iff (kind : Kind) (v4 : Ipv4Addr) :
    (isPublicV4 v4 = true → ¬Special kind (.v4 v4)) ↔ ¬Missed kind (.v4 v4) := by
  rw [isPublicV4_iff]
  exact (gaps4 kind).refuses_iff v4.value

/-- An address that carries one is of its kinds, and is missed with it. -/
theorem special_carried_iff {v6 : Ipv6Addr} {v4 : Ipv4Addr} (h : v6.carried = some v4)
    (kind : Kind) : (Special kind (.v6 v6) ↔ Special kind (.v4 v4)) ∧
      (Missed kind (.v6 v6) ↔ Missed kind (.v4 v4)) := by
  have hnot := not_special_of_carried h kind
  have hmissing : ¬InBlocks (missing6 kind) v6.value := by
    rintro ⟨b, hb, hbx⟩
    exact hnot ⟨b, (gaps6 kind).listed b hb, hbx⟩
  have honly : ∀ v4', Embeds v6 v4' → v4' = v4 := by
    intro v4' hembeds
    rcases carried_of_embeds hembeds with heq | ⟨hnone, -⟩
    · exact Option.some.inj (heq.symm.trans h)
    · rw [h] at hnone
      contradiction
  constructor
  · constructor
    · rintro (hspecial | ⟨v4', hembeds, hspecial⟩)
      · exact absurd hspecial.1 hnot
      · rwa [honly v4' hembeds] at hspecial
    · intro hspecial
      exact .inr ⟨v4, (carried_spec h).1, hspecial⟩
  · constructor
    · rintro (hmissed | ⟨v4', heq, hmissed⟩)
      · exact absurd hmissed.1 hmissing
      · rwa [Option.some.inj (heq.symm.trans h)] at hmissed
    · intro hmissed
      exact .inr ⟨v4, h, hmissed⟩

theorem special_v6_iff (kind : Kind) (v6 : Ipv6Addr) :
    (isPublicV6 v6 = true → ¬Special kind (.v6 v6)) ↔ ¬Missed kind (.v6 v6) := by
  cases hcarried : v6.carried with
  | some v4 =>
      obtain ⟨hspecial, hmissed⟩ := special_carried_iff hcarried kind
      rw [hspecial, hmissed, isPublicV6_of_carried hcarried]
      exact special_v4_iff kind v4
  | none =>
      have hown := (gaps6 kind).refuses_iff v6.value
      rw [← isPublicV6_iff hcarried] at hown
      have hmissed : Missed kind (.v6 v6) ↔ InBlocksBut (missing6 kind) reachable6 v6.value := by
        simp [Missed, hcarried]
      rw [hmissed, ← hown]
      constructor
      · intro h hpublic hspecial
        exact h hpublic (.inl hspecial)
      · rintro h hpublic (hspecial | ⟨v4, hembeds, -⟩)
        · exact h hpublic hspecial
        · -- What embeds an address and carries none is refused.
          rcases carried_of_embeds hembeds with hsome | ⟨-, hrefused⟩
          · rw [hcarried] at hsome
            contradiction
          · exact (isPublicV6_iff hcarried).mp hpublic hrefused

/-- For every address and every kind: what an address embeds is public if the address is, and
no form of an address of the kind is public, if and only if the address is in none of the
networks that no test knows and carries none of theirs. -/
theorem sheltered_iff (kind : Kind) (ip : IpAddr) : Sheltered kind ip ↔ ¬Missed kind ip := by
  cases ip with
  | v4 v4 =>
      rw [← special_v4_iff]
      refine ⟨Sheltered.special, fun h => ⟨?_, h⟩⟩
      rintro v6 v4' ⟨⟩
  | v6 v6 =>
      rw [← special_v6_iff]
      refine ⟨Sheltered.special, fun h => ⟨?_, h⟩⟩
      rintro _ v4 ⟨⟩ hembeds hpublic
      exact isPublic_of_embeds hembeds hpublic

/-- The first of the benchmarking addresses, plain, mapped and behind NAT64, and the first of
those of IPv6. -/
theorem benchmarking_is_public :
    (∀ ip ∈ ([.v4 ⟨198, 18, 0, 1⟩, .v6 ⟨0, 0, 0, 0, 0, 0xffff, 0xc612, 1⟩,
        .v6 ⟨0x64, 0xff9b, 0, 0, 0, 0, 0xc612, 1⟩, .v6 ⟨0x2001, 2, 0, 0, 0, 0, 0, 1⟩] :
          List IpAddr), isPublic ip = true) ∧
      ¬Sheltered .benchmarking (.v4 ⟨198, 18, 0, 1⟩) := by
  refine ⟨by decide, fun h => h.special (by decide) ?_⟩
  exact ⟨by decide, by decide⟩

end Rustrak.OAuth
