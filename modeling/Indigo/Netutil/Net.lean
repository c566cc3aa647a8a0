import Mathlib.Data.List.AList

/-!
# IP addresses, LAN ranges and subnet counters

`netutil.IsLAN` over the `net.IP` byte slices of Go's `net` package (`To4`, `IsLoopback`,
`IPNet.Contains`), and `netutil.DistinctNetSet`, which counts the tracked addresses of each
subnet and refuses one more than its limit.

## Main results

- `Add_count`, `Remove_count`: `Add` raises the count of the address's subnet by one when it
  is below the limit and refuses otherwise; `Remove` lowers it by one, or leaves it at zero.
  Both leave every other subnet's count alone.
- `Add_le_limit`, `Remove_le_limit`: no count ever exceeds the limit.
-/

namespace Indigo.Netutil

/-- `net.IP`: 4 bytes for IPv4, 16 for IPv6. -/
abbrev IP := List UInt8

/-- `net.IP.To4`: the 4-byte form of an IPv4 address, also of one mapped into IPv6. -/
def To4 (ip : IP) : Option IP :=
  if ip.length = 4 then some ip
  else if ip.length = 16 ∧ ip.take 10 = List.replicate 10 0 ∧ ip[10]? = some 0xff ∧
      ip[11]? = some 0xff then
    some (ip.drop 12)
  else none

/-- `net.IPv6loopback`, `::1`. -/
def IPv6loopback : IP := List.replicate 15 0 ++ [1]

/-- `net.IP.IsLoopback`: `127.0.0.0/8` or `::1`. -/
def IsLoopback (ip : IP) : Bool :=
  match To4 ip with
  | some ip4 => ip4.head? = some 127
  | none => ip = IPv6loopback

/-- `net.IPNet`, as `net.ParseCIDR` builds it: the network and its mask, both 4 bytes for
IPv4 and 16 for IPv6. -/
structure IPNet where
  IP : IP
  Mask : List UInt8
deriving DecidableEq, Repr

/-- `networkNumberAndMask` of `net`: the network and mask in matching lengths, if any. -/
def networkNumberAndMask (n : IPNet) : Option (Netutil.IP × List UInt8) :=
  let ip := (To4 n.IP).getD n.IP
  if (To4 n.IP).isNone ∧ ip.length ≠ 16 then none
  else if n.Mask.length = 4 then (if ip.length ≠ 4 then none else some (ip, n.Mask))
  else if n.Mask.length = 16 then (if ip.length = 4 then some (ip, n.Mask.drop 12) else some (ip, n.Mask))
  else none

/-- `net.IPNet.Contains`: the address agrees with the network on the mask's bits. -/
def IPNet.Contains (n : IPNet) (ip : Netutil.IP) : Bool :=
  match networkNumberAndMask n with
  | none => false
  | some (nn, m) =>
    let ip := (To4 ip).getD ip
    ip.length = nn.length &&
      (List.range ip.length).all fun i =>
        nn.getD i 0 &&& m.getD i 0 == ip.getD i 0 &&& m.getD i 0

/-- `netutil.Netlist`. -/
abbrev Netlist := List IPNet

def Netlist.Contains (l : Netlist) (ip : IP) : Bool := l.any fun net => net.Contains ip

/-- `lan4`: `0.0.0.0/8`, `10.0.0.0/8`, `172.16.0.0/12`, `192.168.0.0/16`. -/
def lan4 : Netlist :=
  [⟨[0, 0, 0, 0], [255, 0, 0, 0]⟩, ⟨[10, 0, 0, 0], [255, 0, 0, 0]⟩,
    ⟨[172, 16, 0, 0], [255, 240, 0, 0]⟩, ⟨[192, 168, 0, 0], [255, 255, 0, 0]⟩]

/-- `lan6`: `fe80::/10`, `fc00::/7`. -/
def lan6 : Netlist :=
  [⟨[0xfe, 0x80] ++ List.replicate 14 0, [0xff, 0xc0] ++ List.replicate 14 0⟩,
    ⟨[0xfc] ++ List.replicate 15 0, [0xfe] ++ List.replicate 15 0⟩]

/-- `netutil.IsLAN`: a loopback or private address. -/
def IsLAN (ip : IP) : Bool :=
  if IsLoopback ip then true
  else match To4 ip with
    | some v4 => lan4.Contains v4
    | none => lan6.Contains ip

example : IsLAN [192, 168, 1, 7] = true := by decide
example : IsLAN [127, 0, 0, 1] = true := by decide
example : IsLAN [8, 8, 8, 8] = false := by decide

/-- `netutil.DistinctNetSet`: how many tracked addresses each subnet key has, at most
`Limit` each. The map holds no zero counts. -/
structure DistinctNetSet where
  Subnet : Nat
  Limit : Nat
  members : AList fun _ : List UInt8 => Nat

namespace DistinctNetSet

/-- `DistinctNetSet.key`: `'4'` or `'6'`, then the first `Subnet` bits of the address. -/
def key (s : DistinctNetSet) (ip : IP) : List UInt8 :=
  let typ : UInt8 := if (To4 ip).isSome then 0x34 else 0x36
  let ip := (To4 ip).getD ip
  let bits := min s.Subnet (ip.length * 8)
  let nb := bits / 8
  let mask : UInt8 := ~~~((0xFF : UInt8) >>> (bits % 8).toUInt8)
  let buf := typ :: ip.take nb
  if nb < ip.length ∧ mask ≠ 0 then buf ++ [ip.getD nb 0 &&& mask] else buf

/-- The count of a subnet key, zero when the map lacks it. -/
def count (s : DistinctNetSet) (k : List UInt8) : Nat := (s.members.lookup k).getD 0

/-- `DistinctNetSet.Add`: count the address unless its subnet is at the limit. -/
def Add (s : DistinctNetSet) (ip : IP) : Bool × DistinctNetSet :=
  let key := s.key ip
  let n := s.count key
  if n < s.Limit then (true, { s with members := s.members.insert key (n + 1) })
  else (false, s)

/-- `DistinctNetSet.Remove`: uncount the address if its subnet has any. -/
def Remove (s : DistinctNetSet) (ip : IP) : DistinctNetSet :=
  let key := s.key ip
  match s.members.lookup key with
  | some n =>
    if n = 1 then { s with members := s.members.erase key }
    else { s with members := s.members.insert key (n - 1) }
  | none => s

example : key ⟨24, 2, ∅⟩ [1, 2, 3, 4] = [0x34, 1, 2, 3] := by decide

@[simp] theorem key_subnet (s : DistinctNetSet) (members : AList fun _ : List UInt8 => Nat) :
    key { s with members } = key s := rfl

@[simp] theorem count_insert (s : DistinctNetSet) (k k' : List UInt8) (n : Nat) :
    count { s with members := s.members.insert k n } k' = if k' = k then n else count s k' := by
  by_cases same : k' = k
  · subst same
    simp [count]
  · simp [count, same, AList.lookup_insert_ne same]

@[simp] theorem count_erase (s : DistinctNetSet) (k k' : List UInt8) :
    count { s with members := s.members.erase k } k' = if k' = k then 0 else count s k' := by
  by_cases same : k' = k
  · subst same
    simp [count]
  · simp [count, same, AList.lookup_erase_ne same]

theorem Add_count (s : DistinctNetSet) (ip : IP) (k : List UInt8) :
    (s.Add ip).1 = decide (s.count (s.key ip) < s.Limit) ∧
      (s.Add ip).2.count k = if k = s.key ip ∧ s.count k < s.Limit then s.count k + 1 else s.count k := by
  unfold Add
  by_cases below : s.count (s.key ip) < s.Limit
  · by_cases same : k = s.key ip
    · subst same
      simp [below]
    · simp [below, same]
  · by_cases same : k = s.key ip
    · subst same
      simp [below]
    · simp [below, same]

theorem Remove_count (s : DistinctNetSet) (ip : IP) (k : List UInt8) :
    (s.Remove ip).count k = if k = s.key ip then s.count k - 1 else s.count k := by
  rcases found : s.members.lookup (s.key ip) with _ | n
  · -- no count to lower: the key's count is already zero
    have zero : s.count (s.key ip) = 0 := by simp [count, found]
    simp only [Remove, found]
    by_cases same : k = s.key ip
    · rw [if_pos same, same, zero]
    · rw [if_neg same]
  · have counted : s.count (s.key ip) = n := by simp [count, found]
    simp only [Remove, found]
    by_cases same : k = s.key ip <;> by_cases single : n = 1 <;> simp [same, single, counted]

@[simp] theorem Add_subnet (s : DistinctNetSet) (ip : IP) :
    (s.Add ip).2.Subnet = s.Subnet ∧ (s.Add ip).2.Limit = s.Limit := by
  dsimp only [Add]
  split <;> exact ⟨rfl, rfl⟩

@[simp] theorem Remove_subnet (s : DistinctNetSet) (ip : IP) :
    (s.Remove ip).Subnet = s.Subnet ∧ (s.Remove ip).Limit = s.Limit := by
  dsimp only [Remove]
  split
  · split <;> exact ⟨rfl, rfl⟩
  · exact ⟨rfl, rfl⟩

/-- Every subnet's count is within the limit. -/
def Bounded (s : DistinctNetSet) : Prop := ∀ k, s.count k ≤ s.Limit

theorem Add_le_limit {s : DistinctNetSet} (bounded : s.Bounded) (ip : IP) : (s.Add ip).2.Bounded := by
  intro k
  rw [(Add_count s ip k).2, (Add_subnet s ip).2]
  split
  · omega
  · exact bounded k

theorem Remove_le_limit {s : DistinctNetSet} (bounded : s.Bounded) (ip : IP) :
    (s.Remove ip).Bounded := by
  intro k
  rw [Remove_count s ip k, (Remove_subnet s ip).2]
  have := bounded k
  split <;> omega

end DistinctNetSet

end Indigo.Netutil
