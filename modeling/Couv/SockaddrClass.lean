import Couv.Args
import Couv.UdpAddress

/-! The class of a SockAddr userdata, the family in its memory and the size of that memory,
over runs of the calls that make SockAddrs. -/
namespace Couv

/-- `uv_inet_pton` on the C string of a value, for the two families it knows. -/
structure UvInetPton where
  v4 : Value → Option (Vector UInt8 4)
  v6 : Value → Option (Vector UInt8 16)

/-- An IP address as `couv_inet_pton` leaves it in its buffer, with the family it sets. -/
inductive IpAddr
  | v4 (addr : Vector UInt8 4)
  | v6 (addr : Vector UInt8 16)
  deriving DecidableEq

section producers
variable (pton : UvInetPton)

def couvInetPton (af : ℤ) (src : Value) : Option IpAddr :=
  if af = afUnspec then
    match pton.v4 src with
    | some a => some (.v4 a)
    | none => (pton.v6 src).map .v6
  else if af = afInet then (pton.v4 src).map .v4
  else if af = afInet6 then (pton.v6 src).map .v6
  else none

def couvLCheckip (arg : ℕ) (af : ℤ) (ip : LuaArg) : Except LuaError IpAddr := do
  let str ← ip.checkstring arg
  match couvInetPton pton af str with
  | some a => .ok a
  | none => .error (luaLArgerror arg "must be valid IP address")

def couvLCheckport (arg : ℕ) (port : LuaArg) : Except LuaError UInt16 := do
  let p ← port.checkint arg
  luaLArgcheck (0 ≤ p ∧ p ≤ 65535) arg "must be integer between 0 and 65535"
  return UInt16.ofNat p.toNat

def couvLChecksockfamily (arg : ℕ) (family : LuaArg) : Except LuaError ℤ := do
  let f ← couvLTosockfamily arg family
  luaLArgcheck (f ≠ -1) arg "must be AF_UNSPEC, AF_INET or AF_INET6"
  return f

/-- `couv_sockaddrv4_new_addr_port`: what the memset clears and the stores do not fill is 0. -/
def couvSockaddrv4NewAddrPort (addr : Vector UInt8 4) (port : UInt16) : SockaddrUd :=
  ⟨.v4, (Address.v4 port addr).bytes⟩

def couvSockaddrv6NewAddrPort (addr : Vector UInt8 16) (port : UInt16) : SockaddrUd :=
  ⟨.v6, (Address.v6 port (.replicate 4 0) addr (.replicate 4 0)).bytes⟩

def newAddrPort (ip : IpAddr) (port : UInt16) : SockaddrUd :=
  match ip with
  | .v4 a => couvSockaddrv4NewAddrPort a port
  | .v6 a => couvSockaddrv6NewAddrPort a port

def couvSockaddrv4New (ip port : LuaArg) : Except LuaError SockaddrUd := do
  let a ← couvLCheckip pton 1 afInet ip
  let p ← couvLCheckport 2 port
  return newAddrPort a p

def couvSockaddrv6New (ip port : LuaArg) : Except LuaError SockaddrUd := do
  let a ← couvLCheckip pton 1 afInet6 ip
  let p ← couvLCheckport 2 port
  return newAddrPort a p

def couvSockaddrCreate (ip port family : LuaArg) : Except LuaError SockaddrUd := do
  let p ← couvLCheckport 2 port
  let af ← couvLChecksockfamily 3 family
  let a ← couvLCheckip pton 1 af ip
  return newAddrPort a p

end producers

/-- What a call leaves: the SockAddrs it made, and what it raises. -/
structure SockaddrsMade where
  uds : List SockaddrUd
  err : Option CallError
  deriving DecidableEq

def SockaddrsMade.of : Except LuaError SockaddrUd → SockaddrsMade
  | .ok ud => ⟨[ud], none⟩
  | .error e => ⟨[], some (.lua e)⟩

/-- A handle's name of itself or of its peer: the bytes of `name` after libuv has filled it. -/
def getName (t : HandleType) (tname : String) (self : LuaArg) (uv : Option ℤ)
    (name : List UInt8) : SockaddrsMade :=
  match self.checkudataclass 1 [t] tname with
  | .error e => ⟨[], some (.lua e)⟩
  | .ok _ =>
    match uv with
    | some code => ⟨[], some (.uv code)⟩
    | none => .of (couvLPushsockaddr name)

def udpGetsockname : LuaArg → Option ℤ → List UInt8 → SockaddrsMade := getName .udp "couv.Udp"
def tcpGetsockname : LuaArg → Option ℤ → List UInt8 → SockaddrsMade := getName .tcp "couv.Tcp"
def tcpGetpeername : LuaArg → Option ℤ → List UInt8 → SockaddrsMade := getName .tcp "couv.Tcp"

/-- The loops over the addresses of a list; an unknown family ends them with an error. -/
def pushAll : List (List UInt8) → SockaddrsMade
  | [] => ⟨[], none⟩
  | addr :: addrs =>
    match couvLPushsockaddr addr with
    | .error e => ⟨[], some (.lua e)⟩
    | .ok ud => ⟨ud :: (pushAll addrs).uds, (pushAll addrs).err⟩

/-- `getaddrinfo_cb`: with an error there is nothing to push. -/
def getaddrinfoCb (status : ℤ) (addrs : List (List UInt8)) : SockaddrsMade :=
  if status = 0 then pushAll addrs else ⟨[], none⟩

def couvInterfaceAddresses (uv : Option ℤ) (addresses : List (List UInt8)) : SockaddrsMade :=
  match uv with
  | some code => ⟨[], some (.uv code)⟩
  | none => pushAll addresses

/-! What the calls that take a SockAddr read of it; `none` is a read outside its memory. -/

namespace SockaddrUd
variable (ud : SockaddrUd)

def read (i n : ℕ) : Option (List UInt8) :=
  if i+n ≤ ud.mem.length then some (window ud.mem i n) else none

def readFamily : Option ℕ := (ud.read 0 2).map saFamily

/-- `*(struct sockaddr_in *)addr` where the family is AF_INET, else
`*(struct sockaddr_in6 *)addr` -/
def castByFamily : Option (List UInt8) := do
  let family ← ud.readFamily
  if family = afInet then ud.read 0 sizeofSockaddrIn else ud.read 0 sizeofSockaddrIn6

def udpBind := ud.castByFamily
def udpSend := ud.castByFamily
def tcpBind := ud.castByFamily
def tcpConnect := ud.castByFamily

def isV4 : Option Bool := ud.readFamily.map (· == afInet)
def isV6 : Option Bool := ud.readFamily.map (· == afInet6)

def couvSockaddrHost : Option (List UInt8) :=
  match ud.cls with
  | .v4 => ud.read 4 4
  | .v6 => ud.read 8 16

def couvSockaddrPort : Option (List UInt8) := ud.read 2 2

/-- Class, family and size go together. -/
def Consistent : Prop :=
  match ud.cls with
  | .v4 => saFamily ud.mem = afInet ∧ sizeofSockaddrIn ≤ ud.mem.length
  | .v6 => saFamily ud.mem = afInet6 ∧ sizeofSockaddrIn6 ≤ ud.mem.length

instance : Decidable ud.Consistent := by
  unfold Consistent
  cases ud.cls <;> infer_instance

/-- Every call that takes the SockAddr stays inside it, and isV4 and isV6 tell its class. -/
structure Usable : Prop where
  udpBind : ud.udpBind.isSome
  udpSend : ud.udpSend.isSome
  tcpBind : ud.tcpBind.isSome
  tcpConnect : ud.tcpConnect.isSome
  host : ud.couvSockaddrHost.isSome
  port : ud.couvSockaddrPort.isSome
  isV4 : ud.isV4 = some (ud.cls == .v4)
  isV6 : ud.isV6 = some (ud.cls == .v6)

/-- The reads a class calls for are inside a userdata of its size. -/
theorem Consistent.usable {ud : SockaddrUd} (h : ud.Consistent) : ud.Usable := by
  obtain ⟨cls, mem⟩ := ud
  have hread : ∀ i n, i+n ≤ mem.length →
      SockaddrUd.read ⟨cls, mem⟩ i n = some (window mem i n) := fun i n hle => if_pos hle
  have hhead : saFamily (window mem 0 2) = saFamily mem := by
    match mem with
    | [] => rfl
    | [_] => rfl
    | _ :: _ :: _ => rfl
  have hfamily (hlen : 2 ≤ mem.length) :
      SockaddrUd.readFamily ⟨cls, mem⟩ = some (saFamily mem) := by
    rw [readFamily, hread 0 2 (by omega), Option.map_some, hhead]
  -- every method reads within the size of the class
  cases cls with
  | v4 =>
    obtain ⟨hf, hlen⟩ : saFamily mem = afInet ∧ sizeofSockaddrIn ≤ mem.length := h
    unfold sizeofSockaddrIn at hlen
    have hcast : (SockaddrUd.castByFamily ⟨.v4, mem⟩).isSome := by
      rw [castByFamily, hfamily (by omega), hf]
      simp [hread 0 sizeofSockaddrIn (by unfold sizeofSockaddrIn; omega)]
    have hhost : (SockaddrUd.couvSockaddrHost ⟨.v4, mem⟩).isSome := by
      simp [couvSockaddrHost, hread 4 4 (by omega)]
    have hport : (SockaddrUd.couvSockaddrPort ⟨.v4, mem⟩).isSome := by
      simp [couvSockaddrPort, hread 2 2 (by omega)]
    refine ⟨hcast, hcast, hcast, hcast, hhost, hport, ?_, ?_⟩
    · rw [isV4, hfamily (by omega), hf]
      rfl
    · rw [isV6, hfamily (by omega), hf]
      rfl
  | v6 =>
    obtain ⟨hf, hlen⟩ : saFamily mem = afInet6 ∧ sizeofSockaddrIn6 ≤ mem.length := h
    unfold sizeofSockaddrIn6 at hlen
    have hcast : (SockaddrUd.castByFamily ⟨.v6, mem⟩).isSome := by
      rw [castByFamily, hfamily (by omega), hf]
      simp [hread 0 sizeofSockaddrIn6 (by unfold sizeofSockaddrIn6; omega), afInet, afInet6]
    have hhost : (SockaddrUd.couvSockaddrHost ⟨.v6, mem⟩).isSome := by
      simp [couvSockaddrHost, hread 8 16 (by omega)]
    have hport : (SockaddrUd.couvSockaddrPort ⟨.v6, mem⟩).isSome := by
      simp [couvSockaddrPort, hread 2 2 (by omega)]
    refine ⟨hcast, hcast, hcast, hcast, hhost, hport, ?_, ?_⟩
    · rw [isV4, hfamily (by omega), hf]
      rfl
    · rw [isV6, hfamily (by omega), hf]
      rfl

end SockaddrUd

/-! Runs of the calls that make SockAddrs. -/

inductive SockaddrAct
  | sockaddrv4New (ip port : LuaArg)
  | sockaddrv6New (ip port : LuaArg)
  | sockaddrCreate (ip port family : LuaArg)
  | udpGetsockname (self : LuaArg) (uv : Option ℤ) (name : List UInt8)
  | tcpGetsockname (self : LuaArg) (uv : Option ℤ) (name : List UInt8)
  | tcpGetpeername (self : LuaArg) (uv : Option ℤ) (name : List UInt8)
  | getaddrinfoCb (status : ℤ) (addrs : List (List UInt8))
  | interfaceAddresses (uv : Option ℤ) (addresses : List (List UInt8))
  /-- recv takes a node whose memory held `junk` before udp_recv_cb stored the sender. -/
  | recv (junk : List UInt8) (addr : Option Address)
  | gc (a : ℕ)
  deriving DecidableEq

namespace SockaddrAct

def made (pton : UvInetPton) : SockaddrAct → SockaddrsMade
  | sockaddrv4New ip port => .of (couvSockaddrv4New pton ip port)
  | sockaddrv6New ip port => .of (couvSockaddrv6New pton ip port)
  | sockaddrCreate ip port family => .of (couvSockaddrCreate pton ip port family)
  | udpGetsockname self uv name => Couv.udpGetsockname self uv name
  | tcpGetsockname self uv name => Couv.tcpGetsockname self uv name
  | tcpGetpeername self uv name => Couv.tcpGetpeername self uv name
  | getaddrinfoCb status addrs => Couv.getaddrinfoCb status addrs
  | interfaceAddresses uv addresses => couvInterfaceAddresses uv addresses
  | recv junk addr => ⟨[recvAddress junk addr], none⟩
  | gc _ => ⟨[], none⟩

/-- An address of a known family has the memory of that family's struct. -/
def Sized (addr : List UInt8) : Prop :=
  (saFamily addr = afInet → sizeofSockaddrIn ≤ addr.length) ∧
    (saFamily addr = afInet6 → sizeofSockaddrIn6 ≤ addr.length)

instance : DecidablePred Sized := fun _ => inferInstanceAs (Decidable (_ ∧ _))

/-- The memory that a call finds: a sockaddr_storage, the addresses that libuv allocates, and
the union of the two structs in a uv_interface_address_t. -/
def Guard : SockaddrAct → Prop
  | udpGetsockname _ _ name | tcpGetsockname _ _ name | tcpGetpeername _ _ name =>
    name.length = sizeofSockaddrStorage
  | getaddrinfoCb _ addrs => ∀ addr ∈ addrs, Sized addr
  | interfaceAddresses _ addresses => ∀ addr ∈ addresses, addr.length = sizeofSockaddrIn6
  | recv junk _ => junk.length = sizeofSockaddrStorage
  | _ => True

instance : DecidablePred Guard := by
  intro a
  cases a <;> unfold Guard <;> infer_instance

/-- Where recv gives its SockAddr the class V4, the sender is an IPv4 address, or there is none
and the memory happens to hold AF_INET. -/
def SenderV4 : SockaddrAct → Prop
  | recv _ (some addr) => addr.cls = .v4
  | recv junk none => saFamily junk = afInet
  | _ => True

instance : DecidablePred SenderV4 := by
  intro a
  unfold SenderV4
  split <;> infer_instance

end SockaddrAct

/-- The SockAddr userdata of the Lua heap. -/
def sockaddrs (pton : UvInetPton) : Machine (Store SockaddrUd) SockaddrAct where
  guard _ a := a.Guard
  exec s a :=
    match a with
    | .gc u => s.free u
    | a => (a.made pton).uds.foldl Store.alloc s

instance (pton : UvInetPton) (s : Store SockaddrUd) (a : SockaddrAct) :
    Decidable ((sockaddrs pton).guard s a) :=
  inferInstanceAs (Decidable a.Guard)

/-! What each producer makes. -/

theorem sized_of_length {addr : List UInt8} (h : sizeofSockaddrIn6 ≤ addr.length) :
    SockaddrAct.Sized addr := by
  unfold sizeofSockaddrIn6 at h
  unfold SockaddrAct.Sized sizeofSockaddrIn sizeofSockaddrIn6
  omega

theorem saFamily_take {mem : List UInt8} {n : ℕ} (h : 2 ≤ n) :
    saFamily (mem.take n) = saFamily mem := by
  obtain ⟨m, rfl⟩ := Nat.exists_eq_add_of_le' h
  match mem with
  | [] => simp only [List.take_nil]
  | [_] => rfl
  | _ :: _ :: _ => rfl

theorem couvLPushsockaddr_consistent {addr : List UInt8} (h : SockaddrAct.Sized addr)
    {ud : SockaddrUd} (hud : couvLPushsockaddr addr = .ok ud) : ud.Consistent := by
  unfold couvLPushsockaddr at hud
  split at hud
  · next hf =>
    obtain rfl := Except.ok.inj hud
    refine ⟨?_, ?_⟩
    · exact (saFamily_take (by decide)).trans hf
    · have := h.1 hf
      simp only [couvLPushsockaddrv4, List.length_take]
      omega
  · split at hud
    · next hf =>
      obtain rfl := Except.ok.inj hud
      refine ⟨?_, ?_⟩
      · exact (saFamily_take (by decide)).trans hf
      · have := h.2 hf
        simp only [couvLPushsockaddrv6, List.length_take]
        omega
    · cases hud

theorem newAddrPort_consistent (ip : IpAddr) (port : UInt16) :
    (newAddrPort ip port).Consistent := by
  cases ip with
  | v4 a => exact ⟨rfl, (Address.bytes_length (.v4 port a)).ge⟩
  | v6 a =>
    exact ⟨rfl, (Address.bytes_length (.v6 port (.replicate 4 0) a (.replicate 4 0))).ge⟩

theorem getName_consistent {t : HandleType} {tname : String} {self : LuaArg} {uv : Option ℤ}
    {name : List UInt8} (h : name.length = sizeofSockaddrStorage) :
    ∀ ud ∈ (getName t tname self uv name).uds, ud.Consistent := by
  have hsized : SockaddrAct.Sized name := sized_of_length (by rw [h]; decide)
  intro ud hud
  unfold getName at hud
  split at hud
  · cases hud
  split at hud
  · cases hud
  cases hp : couvLPushsockaddr name with
  | error e =>
    rw [hp] at hud
    cases hud
  | ok ud' =>
    rw [hp] at hud
    obtain rfl := List.mem_singleton.mp hud
    exact couvLPushsockaddr_consistent hsized hp

theorem pushAll_consistent {addrs : List (List UInt8)}
    (h : ∀ addr ∈ addrs, SockaddrAct.Sized addr) :
    ∀ ud ∈ (pushAll addrs).uds, ud.Consistent := by
  induction addrs with
  | nil => exact fun ud hud => absurd hud List.not_mem_nil
  | cons addr addrs ih =>
    have ih' := ih (fun a ha => h a (List.mem_cons_of_mem addr ha))
    intro ud hud
    unfold pushAll at hud
    split at hud
    · cases hud
    · next ud' hp =>
      cases hud with
      | head => exact couvLPushsockaddr_consistent (h addr List.mem_cons_self) hp
      | tail _ hud => exact ih' ud hud

/-- The constructors check their arguments and then fill a new struct. -/
theorem newAddrPort_of {x : Except LuaError SockaddrUd}
    (h : ∀ ud, x = .ok ud → ∃ ip port, ud = newAddrPort ip port) :
    ∀ ud ∈ (SockaddrsMade.of x).uds, ud.Consistent := by
  intro ud hud
  cases x with
  | error e => cases hud
  | ok ud' =>
    obtain rfl := List.mem_singleton.mp hud
    obtain ⟨ip, port, rfl⟩ := h ud rfl
    exact newAddrPort_consistent ip port

theorem couvSockaddrv4New_eq {pton : UvInetPton} {ip port : LuaArg} {ud : SockaddrUd}
    (h : couvSockaddrv4New pton ip port = .ok ud) : ∃ a p, ud = newAddrPort a p := by
  obtain ⟨a, -, h⟩ := bind_eq_ok h
  obtain ⟨p, -, h⟩ := bind_eq_ok h
  exact ⟨a, p, (Except.ok.inj h).symm⟩

theorem couvSockaddrv6New_eq {pton : UvInetPton} {ip port : LuaArg} {ud : SockaddrUd}
    (h : couvSockaddrv6New pton ip port = .ok ud) : ∃ a p, ud = newAddrPort a p := by
  obtain ⟨a, -, h⟩ := bind_eq_ok h
  obtain ⟨p, -, h⟩ := bind_eq_ok h
  exact ⟨a, p, (Except.ok.inj h).symm⟩

theorem couvSockaddrCreate_eq {pton : UvInetPton} {ip port family : LuaArg} {ud : SockaddrUd}
    (h : couvSockaddrCreate pton ip port family = .ok ud) : ∃ a p, ud = newAddrPort a p := by
  obtain ⟨p, -, h⟩ := bind_eq_ok h
  obtain ⟨af, -, h⟩ := bind_eq_ok h
  obtain ⟨a, -, h⟩ := bind_eq_ok h
  exact ⟨a, p, (Except.ok.inj h).symm⟩

/-- recv says V4 whatever it copies. -/
theorem recvAddress_consistent_iff {junk : List UInt8} (h : junk.length = sizeofSockaddrStorage)
    (addr : Option Address) :
    (recvAddress junk addr).Consistent ↔ (SockaddrAct.recv junk addr).SenderV4 := by
  have hlen : sizeofSockaddrIn ≤ (World.recvStorage junk addr).length := by
    cases addr with
    | none => exact h.ge.trans' (by decide)
    | some a =>
      rw [World.recvStorage, overwrite_length]
      · exact h.ge.trans' (by decide)
      · simp only [List.length_take, h]
        exact (Nat.add_le_add_left (Nat.min_le_left _ _) 0).trans (by decide)
  have htake : sizeofSockaddrIn ≤ (recvAddress junk addr).mem.length := by
    simp only [recvAddress, couvLPushsockaddrv4, List.length_take]
    omega
  have hfamily : saFamily (recvAddress junk addr).mem = saFamily (World.recvStorage junk addr) :=
    saFamily_take (by decide)
  have hiff : (recvAddress junk addr).Consistent ↔
      saFamily (World.recvStorage junk addr) = afInet := by
    rw [← hfamily]
    exact ⟨fun hc => hc.1, fun hf => ⟨hf, htake⟩⟩
  -- the family in the memory of the node decides
  rw [hiff]
  cases addr with
  | none => rfl
  | some a =>
    have hsome : saFamily (World.recvStorage junk (some a)) = a.family := by
      cases a <;> rfl
    rw [hsome]
    cases a
    · exact ⟨fun _ => rfl, fun _ => rfl⟩
    · have hne : afInet6 ≠ afInet := by decide
      exact ⟨fun hf => absurd hf hne, fun hc => SockClass.noConfusion hc⟩

/-- Spec of one step: what a call makes is consistent exactly if its sender is an IPv4 one. -/
theorem made_consistent_iff (pton : UvInetPton) {a : SockaddrAct} (hg : a.Guard) :
    (∀ ud ∈ (a.made pton).uds, ud.Consistent) ↔ a.SenderV4 := by
  -- only recv makes its class without a look at the family
  cases a with
  | recv junk addr =>
    rw [← recvAddress_consistent_iff hg]
    exact ⟨fun h => h _ List.mem_cons_self, fun h ud hud => by
      obtain rfl := List.mem_singleton.mp hud
      exact h⟩
  | sockaddrv4New ip port =>
    exact iff_of_true (newAddrPort_of fun ud => couvSockaddrv4New_eq) trivial
  | sockaddrv6New ip port =>
    exact iff_of_true (newAddrPort_of fun ud => couvSockaddrv6New_eq) trivial
  | sockaddrCreate ip port family =>
    exact iff_of_true (newAddrPort_of fun ud => couvSockaddrCreate_eq) trivial
  | udpGetsockname self uv name => exact iff_of_true (getName_consistent hg) trivial
  | tcpGetsockname self uv name => exact iff_of_true (getName_consistent hg) trivial
  | tcpGetpeername self uv name => exact iff_of_true (getName_consistent hg) trivial
  | getaddrinfoCb status addrs =>
    refine iff_of_true ?_ trivial
    change ∀ ud ∈ (getaddrinfoCb status addrs).uds, ud.Consistent
    unfold getaddrinfoCb
    split
    · exact pushAll_consistent hg
    · exact fun ud hud => absurd hud List.not_mem_nil
  | interfaceAddresses uv addresses =>
    refine iff_of_true ?_ trivial
    cases uv with
    | some code => exact fun ud hud => absurd hud List.not_mem_nil
    | none =>
      exact pushAll_consistent fun addr haddr => sized_of_length (hg addr haddr).ge
  | gc u => exact iff_of_true (fun ud hud => absurd hud List.not_mem_nil) trivial

/-! Runs. -/

theorem foldl_alloc_all {p : SockaddrUd → Prop} {s : Store SockaddrUd} {uds : List SockaddrUd} :
    (uds.foldl Store.alloc s).All (fun _ ud => p ud) ↔
      s.All (fun _ ud => p ud) ∧ ∀ ud ∈ uds, p ud := by
  induction uds generalizing s with
  | nil => simp only [List.foldl_nil, List.not_mem_nil, false_implies, implies_true, and_true]
  | cons ud uds ih =>
    have halloc : (s.alloc ud).All (fun _ ud => p ud) ↔ s.All (fun _ ud => p ud) ∧ p ud := by
      simp only [Store.all_iff]
      constructor
      · intro h
        exact ⟨fun a x hx => h a x (s.alloc_get_of_some hx), h s.next ud (s.alloc_get_self ud)⟩
      · rintro ⟨hall, hud⟩ a x hx
        obtain ⟨-, rfl⟩ | ⟨-, hx⟩ := Store.alloc_eq_some s |>.mp hx
        · exact hud
        · exact hall a x hx
    rw [List.foldl_cons, ih, halloc, List.forall_mem_cons, and_assoc]

/-- The SockAddrs of a heap: every one is consistent, and so its users stay inside it. -/
def SockaddrsOk (s : Store SockaddrUd) : Prop := s.All fun _ ud => ud.Consistent ∧ ud.Usable

theorem sockaddrsOk_iff {s : Store SockaddrUd} :
    SockaddrsOk s ↔ s.All fun _ ud => ud.Consistent := by
  unfold SockaddrsOk
  simp only [Store.all_iff]
  exact ⟨fun h a ud hud => (h a ud hud).1, fun h a ud hud => ⟨h a ud hud, (h a ud hud).usable⟩⟩

/-- Step lemma. -/
theorem sockaddrs_exec_iff {pton : UvInetPton} {s : Store SockaddrUd} {a : SockaddrAct}
    (hs : SockaddrsOk s) (hg : a.Guard) :
    SockaddrsOk ((sockaddrs pton).exec s a) ↔ a.SenderV4 := by
  rw [sockaddrsOk_iff] at hs ⊢
  rw [← made_consistent_iff pton hg]
  cases a with
  | gc u =>
    refine iff_of_true ?_ (fun ud hud => absurd hud List.not_mem_nil)
    rw [Store.all_iff] at hs ⊢
    intro b ud hud
    exact hs b ud (s.free_eq_some.mp hud).2
  | _ => exact foldl_alloc_all.trans (and_iff_right hs)

/-- In every run, all SockAddrs are consistent in every state reached, with the users inside
them, exactly if every recv of it has an IPv4 sender. -/
theorem sockaddrs_consistent_iff (pton : UvInetPton) {as : List SockaddrAct}
    (he : (sockaddrs pton).Enabled .empty as) :
    (∀ pre post, as = pre ++ post → SockaddrsOk ((sockaddrs pton).run .empty pre)) ↔
      (sockaddrs pton).Along (fun _ a => a.SenderV4) .empty as := by
  have hempty : SockaddrsOk .empty := fun a ha => absurd ha (Nat.not_lt_zero a)
  exact Machine.prefixes_iff_along (fun s a hs hg => sockaddrs_exec_iff hs hg) hempty he

/-- An address parser that knows the loopback address. -/
def loopbackPton : UvInetPton where
  v4 v := if v = .string [49, 50, 55, 46, 48, 46, 48, 46, 49] then some #v[127, 0, 0, 1] else none
  v6 _ := none

/-- A SockAddr made of a string, and one received from an IPv4 sender. -/
def v4Run : List SockaddrAct :=
  [.sockaddrv4New (.value (.string [49, 50, 55, 46, 48, 46, 48, 46, 49])) (.value (.number 80)),
    .recv (List.replicate 128 170) (some (.v4 7 #v[127, 0, 0, 1]))]

theorem sockaddrs_consistent_iff_v4Run :
    (∀ pre post, v4Run = pre ++ post →
      SockaddrsOk ((sockaddrs loopbackPton).run .empty pre)) ↔
      (sockaddrs loopbackPton).Along (fun _ a => a.SenderV4) .empty v4Run :=
  sockaddrs_consistent_iff loopbackPton (by decide +kernel)

/-- A datagram from an IPv6 sender gives a V4 SockAddr of 16 bytes with the family AF_INET6. -/
theorem received_v6_inconsistent : ¬∀ (pton : UvInetPton) (as : List SockaddrAct),
    (sockaddrs pton).Enabled .empty as →
      ∀ pre post, as = pre ++ post → SockaddrsOk ((sockaddrs pton).run .empty pre) := by
  intro hall
  let sender : Address := .v6 7 (.replicate 4 0) (.replicate 16 1) (.replicate 4 0)
  let act : SockaddrAct := .recv (List.replicate 128 170) (some sender)
  have he : (sockaddrs loopbackPton).Enabled .empty [act] := by decide +kernel
  have hok := hall loopbackPton [act] he [act] [] rfl
  have hud := (Store.all_iff _).mp hok 0 (recvAddress (List.replicate 128 170) (some sender)) rfl
  have hfamily : saFamily (recvAddress (List.replicate 128 170) (some sender)).mem = afInet :=
    hud.1.1
  exact absurd hfamily (by decide)

end Couv
