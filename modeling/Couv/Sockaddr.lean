import Couv.Value
import Couv.View

/-! Socket addresses in memory: what libuv hands over, and what a SockAddr userdata shows
of its bytes. -/
namespace Couv

/-- The contents of a `sockaddr_in` or a `sockaddr_in6`. -/
inductive Address
  | v4 (port : UInt16) (host : Vector UInt8 4)
  | v6 (port : UInt16) (flowinfo : Vector UInt8 4) (host : Vector UInt8 16)
    (scope : Vector UInt8 4)
  deriving DecidableEq

def afInet : ℕ := 2
def afInet6 : ℕ := 10

def sizeofSockaddrIn : ℕ := 16
def sizeofSockaddrIn6 : ℕ := 28
def sizeofSockaddrStorage : ℕ := 128

namespace Address

def cls : Address → SockClass
  | v4 .. => .v4
  | v6 .. => .v6

def family : Address → ℕ
  | v4 .. => afInet
  | v6 .. => afInet6

def port : Address → ℕ
  | v4 p _ | v6 p _ _ _ => p.toNat

def host : Address → List UInt8
  | v4 _ host => host.toList
  | v6 _ _ host _ => host.toList

/-- The family and the port, which is in network order. -/
def head (family : ℕ) (port : UInt16) : List UInt8 :=
  [UInt8.ofNat family, 0, (port >>> 8).toUInt8, port.toUInt8]

def bytes : Address → List UInt8
  | v4 port host => head afInet port ++ host.toList ++ List.replicate 8 0
  | v6 port flowinfo host scope =>
    head afInet6 port ++ flowinfo.toList ++ host.toList ++ scope.toList

end Address

/-- `addr->sa_family` -/
def saFamily (mem : List UInt8) : ℕ := (mem.getD 0 0).toNat + 256*(mem.getD 1 0).toNat

namespace SockaddrUd
variable (ud : SockaddrUd)

/-- `couv_sockaddrv4_port` and its V6 form: ntohs of the bytes 2 and 3. -/
def port : ℕ := 256*(ud.mem.getD 2 0).toNat + (ud.mem.getD 3 0).toNat

/-- The bytes that `couv_sockaddrv4_host` or its V6 form prints. -/
def host : List UInt8 :=
  match ud.cls with
  | .v4 => window ud.mem 4 4
  | .v6 => window ud.mem 8 16

/-- The userdata stands for the address `a`. -/
def Faithful (a : Address) : Prop :=
  ud.cls = a.cls ∧ saFamily ud.mem = a.family ∧ ud.host = a.host ∧ ud.port = a.port

instance (a : Address) : Decidable (ud.Faithful a) :=
  inferInstanceAs (Decidable (_ ∧ _ ∧ _ ∧ _))

end SockaddrUd

/-! `couvL_pushsockaddrv4` and `couvL_pushsockaddrv6`: the struct is copied as it is. -/

def couvLPushsockaddrv4 (addr : List UInt8) : SockaddrUd := ⟨.v4, addr.take sizeofSockaddrIn⟩

def couvLPushsockaddrv6 (addr : List UInt8) : SockaddrUd := ⟨.v6, addr.take sizeofSockaddrIn6⟩

/-- `couvL_pushsockaddr` -/
def couvLPushsockaddr (addr : List UInt8) : Except LuaError SockaddrUd :=
  if saFamily addr = afInet then .ok (couvLPushsockaddrv4 addr)
  else if saFamily addr = afInet6 then .ok (couvLPushsockaddrv6 addr)
  else .error (.error "ENOTSUP")

theorem couvLPushsockaddr_isOk (addr : List UInt8) : (couvLPushsockaddr addr).isOk ↔
    saFamily addr = afInet ∨ saFamily addr = afInet6 := by
  unfold couvLPushsockaddr
  split
  · next h4 => exact iff_of_true rfl (.inl h4)
  · next h4 =>
    split
    · next h6 => exact iff_of_true rfl (.inr h6)
    · next h6 => exact iff_of_false Bool.false_ne_true (not_or.mpr ⟨h4, h6⟩)

theorem Address.bytes_length (a : Address) : a.bytes.length =
    match a.cls with
    | .v4 => sizeofSockaddrIn
    | .v6 => sizeofSockaddrIn6 := by
  cases a <;> simp [bytes, head, cls, sizeofSockaddrIn, sizeofSockaddrIn6]

theorem port_head (p : UInt16) : 256*(p >>> 8).toUInt8.toNat + p.toUInt8.toNat = p.toNat := by
  have h := p.toNat_lt
  have h8 : (UInt16.toNat 8 % 16) = 8 := rfl
  simp only [UInt16.toNat_toUInt8, UInt16.toNat_shiftRight, Nat.shiftRight_eq_div_pow, h8]
  omega

/-- The first 16 bytes of an IPv4 address are all of it. -/
theorem faithful_v4 (port : UInt16) (host : Vector UInt8 4) :
    SockaddrUd.Faithful ⟨.v4, (Address.v4 port host).bytes⟩ (.v4 port host) := by
  refine ⟨rfl, ?_, ?_, ?_⟩
  · rfl
  · simp [SockaddrUd.host, window, Address.bytes, Address.head, Address.host]
  · simpa [SockaddrUd.port, Address.bytes, Address.head, Address.port] using port_head port

theorem faithful_cls {ud : SockaddrUd} {a : Address} (h : ud.Faithful a) : ud.cls = a.cls := h.1

end Couv
