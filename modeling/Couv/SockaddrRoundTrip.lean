import Couv.SockaddrClass

/-! From a SockAddr to its host and port, and back. -/
namespace Couv

/-- `uv_ip4_name` and `uv_ip6_name` with the buffers of the two methods: the text, or the code of
libuv's error. -/
structure UvIpName where
  v4 : Vector UInt8 4 → Except ℤ LuaString
  v6 : Vector UInt8 16 → Except ℤ LuaString

/-- The name of an address of either family. -/
def UvIpName.of (name : UvIpName) : IpAddr → Except ℤ LuaString
  | .v4 a => name.v4 a
  | .v6 a => name.v6 a

/-- Every address has a name that fits, which `uv_inet_pton` reads as this address; the name of an
IPv6 address is no IPv4 address. -/
structure UvIpName.Inverse (name : UvIpName) (pton : UvInetPton) : Prop where
  v4 : ∀ a, ∃ s, name.v4 a = .ok s ∧ pton.v4 (.string s) = some a
  v6 : ∀ a, ∃ s, name.v6 a = .ok s ∧ pton.v6 (.string s) = some a ∧ pton.v4 (.string s) = none

/-- The struct that `n` bytes of memory hold. -/
def addrOf (n : ℕ) (bs : List UInt8) : Vector UInt8 n := .ofFn fun i => bs.getD i 0

def SockClass.family : SockClass → ℕ
  | .v4 => afInet
  | .v6 => afInet6

def SockClass.size : SockClass → ℕ
  | .v4 => sizeofSockaddrIn
  | .v6 => sizeofSockaddrIn6

/-- The bytes of the address in the struct. -/
def SockClass.hostSize : SockClass → ℕ
  | .v4 => 4
  | .v6 => 16

def pushName : Except ℤ LuaString → Except CallError Value
  | .ok s => .ok (.string s)
  | .error code => .error (.uv code)

namespace SockaddrUd
variable (ud : SockaddrUd)

/-- `couv_sockaddrv4_host` or its V6 form; `none` is a read outside the userdata. -/
def hostName (name : UvIpName) : Option (Except CallError Value) :=
  match ud.cls with
  | .v4 => (ud.read 4 4).map fun bs => pushName (name.v4 (addrOf 4 bs))
  | .v6 => (ud.read 8 16).map fun bs => pushName (name.v6 (addrOf 16 bs))

/-- `couv_sockaddrv4_port` or its V6 form -/
def portNumber : Option Value :=
  ud.couvSockaddrPort.map fun bs => .number (256*(bs.getD 0 0).toNat + (bs.getD 1 0).toNat)

/-- What of its struct neither method shows: sin_zero, or sin6_flowinfo and sin6_scope_id. -/
def hidden : List UInt8 :=
  match ud.cls with
  | .v4 => window ud.mem 8 8
  | .v6 => window ud.mem 4 4 ++ window ud.mem 24 4

end SockaddrUd

/-- `SockAddrV4.new` or `SockAddrV6.new` -/
def sockaddrNew (pton : UvInetPton) : SockClass → LuaArg → LuaArg → Except LuaError SockaddrUd
  | .v4 => couvSockaddrv4New pton
  | .v6 => couvSockaddrv6New pton

/-! The parts of the struct. -/

theorem window_append {α : Type*} (xs : List α) (i n m : ℕ) :
    window xs i n ++ window xs (i+n) m = window xs i (n+m) := by
  simp only [window]
  rw [← List.drop_drop, List.take_add]

theorem addrOf_toList {n : ℕ} {bs : List UInt8} (h : bs.length = n) :
    (addrOf n bs).toList = bs := by
  subst h
  apply List.ext_getElem
  · simp [addrOf]
  · intro i h1 h2
    simp [addrOf]

/-- The two bytes of a port. -/
theorem port_bytes (hi lo : UInt8) :
    (UInt16.ofNat (256*hi.toNat + lo.toNat) >>> 8).toUInt8 = hi ∧
      (UInt16.ofNat (256*hi.toNat + lo.toNat)).toUInt8 = lo := by
  have hhi := hi.toNat_lt
  have hlo := lo.toNat_lt
  have h8 : (UInt16.toNat 8 % 16) = 8 := rfl
  constructor <;> apply UInt8.toNat_inj.mp
  · simp only [UInt16.toNat_toUInt8, UInt16.toNat_shiftRight, Nat.shiftRight_eq_div_pow, h8,
      UInt16.toNat_ofNat']
    omega
  · simp only [UInt16.toNat_toUInt8, UInt16.toNat_ofNat']
    omega

theorem saFamily_eq {mem : List UInt8} {f : ℕ} (hlen : 2 ≤ mem.length) (hf : f < 256)
    (h : saFamily mem = f) : window mem 0 2 = [UInt8.ofNat f, 0] := by
  match mem, hlen with
  | a :: b :: mem, _ =>
    have ha := a.toNat_lt
    have hsum : a.toNat + 256*b.toNat = f := h
    have hb0 : b = 0 := by
      apply UInt8.toNat_inj.mp
      change b.toNat = 0
      omega
    subst hb0
    have hfa : UInt8.ofNat f = a := by
      rw [← hsum]
      simp
    rw [hfa]
    rfl

namespace SockaddrUd
variable {ud : SockaddrUd}

def ip (ud : SockaddrUd) : IpAddr :=
  match ud.cls with
  | .v4 => .v4 (addrOf 4 ud.host)
  | .v6 => .v6 (addrOf 16 ud.host)

/-- What the constructors make of the same host and port. -/
def plain (ud : SockaddrUd) : SockaddrUd := newAddrPort ud.ip (UInt16.ofNat ud.port)

theorem Consistent.length (h : ud.Consistent) : ud.cls.size ≤ ud.mem.length := by
  obtain ⟨cls, mem⟩ := ud
  cases cls <;> exact h.2

theorem Consistent.family (h : ud.Consistent) : saFamily ud.mem = ud.cls.family := by
  obtain ⟨cls, mem⟩ := ud
  cases cls <;> exact h.1

theorem Consistent.head (h : ud.Consistent) :
    window ud.mem 0 2 = [UInt8.ofNat ud.cls.family, 0] := by
  have hlen : 2 ≤ ud.mem.length := by
    refine h.length.trans' ?_
    cases ud.cls <;> decide
  have hf : ud.cls.family < 256 := by cases ud.cls <;> decide
  exact saFamily_eq hlen hf h.family

theorem port_lt (ud : SockaddrUd) : ud.port < 2^16 := by
  have hhi := (ud.mem.getD 2 0).toNat_lt
  have hlo := (ud.mem.getD 3 0).toNat_lt
  unfold port
  omega

theorem Consistent.portBytes (h : ud.Consistent) : window ud.mem 2 2 =
    [(UInt16.ofNat ud.port >>> 8).toUInt8, (UInt16.ofNat ud.port).toUInt8] := by
  obtain ⟨hhi, hlo⟩ := port_bytes (ud.mem.getD 2 0) (ud.mem.getD 3 0)
  have hlen : 4 ≤ ud.mem.length := by
    refine h.length.trans' ?_
    cases ud.cls <;> decide
  match hmem : ud.mem, hlen with
  | _ :: _ :: a :: b :: mem, _ =>
    unfold port
    rw [hmem] at hhi hlo ⊢
    rw [hhi, hlo]
    rfl

theorem plain_cls (ud : SockaddrUd) : ud.plain.cls = ud.cls := by
  unfold plain ip
  cases ud.cls <;> rfl

theorem Consistent.hostLength (h : ud.Consistent) : ud.host.length = ud.cls.hostSize := by
  have hlen := h.length
  unfold host
  cases hcls : ud.cls with
  | v4 =>
    rw [hcls] at hlen
    exact window_length (hlen.trans' (by decide))
  | v6 =>
    rw [hcls] at hlen
    exact window_length (hlen.trans' (by decide))

theorem Consistent.headPort (h : ud.Consistent) :
    Address.head ud.cls.family (UInt16.ofNat ud.port) = window ud.mem 0 4 := by
  rw [← window_append ud.mem 0 2 2, h.head, h.portBytes]
  rfl

theorem Consistent.plain_v4 (h : ud.Consistent) (hcls : ud.cls = .v4) :
    ud.plain.mem = window ud.mem 0 4 ++ window ud.mem 4 4 ++ List.replicate 8 0 := by
  have hhost := h.hostLength
  rw [hcls] at hhost
  have hwindow : ud.host = window ud.mem 4 4 := by
    unfold host
    rw [hcls]
  have hbytes : (addrOf 4 ud.host).toList = ud.host := addrOf_toList hhost
  rw [← h.headPort, ← hwindow]
  simp only [plain, ip, hcls, newAddrPort, couvSockaddrv4NewAddrPort, Address.bytes, hbytes]
  rfl

theorem Consistent.plain_v6 (h : ud.Consistent) (hcls : ud.cls = .v6) :
    ud.plain.mem = window ud.mem 0 4 ++ List.replicate 4 0 ++ window ud.mem 8 16 ++
      List.replicate 4 0 := by
  have hhost := h.hostLength
  rw [hcls] at hhost
  have hwindow : ud.host = window ud.mem 8 16 := by
    unfold host
    rw [hcls]
  have hbytes : (addrOf 16 ud.host).toList = ud.host := addrOf_toList hhost
  rw [← h.headPort, ← hwindow]
  simp only [plain, ip, hcls, newAddrPort, couvSockaddrv6NewAddrPort, Address.bytes, hbytes]
  rfl

/-- The constructors clear what neither method shows. -/
theorem Consistent.plain_mem_iff (h : ud.Consistent) :
    ud.plain.mem = ud.mem.take ud.cls.size ↔ ∀ b ∈ ud.hidden, b = 0 := by
  have hlen := h.length
  have hzero : ∀ {n : ℕ} {xs : List UInt8}, xs.length = n →
      (List.replicate n 0 = xs ↔ ∀ b ∈ xs, b = 0) := by
    intro n xs hn
    rw [eq_comm, List.eq_replicate_iff]
    exact and_iff_right hn
  cases hcls : ud.cls with
  | v4 =>
    rw [hcls] at hlen
    -- family and port, address, sin_zero
    have h8 : (window ud.mem 8 8).length = 8 := window_length hlen
    have htake : ud.mem.take SockClass.v4.size =
        window ud.mem 0 4 ++ window ud.mem 4 4 ++ window ud.mem 8 8 := by
      rw [window_append ud.mem 0 4 4, window_append ud.mem 0 8 8]
      rfl
    rw [htake, h.plain_v4 hcls, List.append_cancel_left_eq, hzero h8]
    simp only [hidden, hcls]
  | v6 =>
    rw [hcls] at hlen
    -- family and port, sin6_flowinfo, address, sin6_scope_id
    have h4 : (window ud.mem 4 4).length = 4 := window_length (hlen.trans' (by decide))
    have h24 : (window ud.mem 24 4).length = 4 := window_length hlen
    have htake : ud.mem.take SockClass.v6.size = window ud.mem 0 4 ++ window ud.mem 4 4 ++
        window ud.mem 8 16 ++ window ud.mem 24 4 := by
      rw [window_append ud.mem 0 4 4, window_append ud.mem 0 8 16, window_append ud.mem 0 24 4]
      rfl
    simp only [htake, h.plain_v6 hcls, hidden, hcls, List.mem_append, or_imp, forall_and]
    rw [← hzero h4, ← hzero h24]
    constructor
    · intro he
      obtain ⟨he, hlast⟩ := List.append_inj' he (by rw [h24]; rfl)
      obtain ⟨he, -⟩ := List.append_inj' he rfl
      exact ⟨(List.append_inj' he (by rw [h4]; rfl)).2, hlast⟩
    · rintro ⟨h4', h24'⟩
      rw [← h4', ← h24']

end SockaddrUd

/-- A SockAddr that a constructor makes shows the host and the port that it got. -/
theorem newAddrPort_v6 (a : Vector UInt8 16) (port : UInt16) :
    (newAddrPort (.v6 a) port).host = a.toList ∧ (newAddrPort (.v6 a) port).port = port.toNat := by
  constructor
  · simp [newAddrPort, couvSockaddrv6NewAddrPort, SockaddrUd.host, window, Address.bytes,
      Address.head]
  · simpa [newAddrPort, couvSockaddrv6NewAddrPort, SockaddrUd.port, Address.bytes, Address.head]
      using port_head port

namespace SockaddrUd
variable {ud : SockaddrUd}

theorem Consistent.plain_shows (h : ud.Consistent) :
    ud.plain.host = ud.host ∧ ud.plain.port = ud.port := by
  have hport : (UInt16.ofNat ud.port).toNat = ud.port := by
    rw [UInt16.toNat_ofNat', Nat.mod_eq_of_lt ud.port_lt]
  have hhost := h.hostLength
  unfold plain ip
  cases hcls : ud.cls with
  | v4 =>
    rw [hcls] at hhost
    obtain ⟨-, -, hh, hp⟩ := faithful_v4 (UInt16.ofNat ud.port) (addrOf 4 ud.host)
    exact ⟨hh.trans (addrOf_toList hhost), hp.trans hport⟩
  | v6 =>
    rw [hcls] at hhost
    obtain ⟨hh, hp⟩ := newAddrPort_v6 (addrOf 16 ud.host) (UInt16.ofNat ud.port)
    exact ⟨hh.trans (addrOf_toList hhost), hp.trans hport⟩

theorem Consistent.read (h : ud.Consistent) {i n : ℕ} (hle : i+n ≤ ud.cls.size) :
    ud.read i n = some (window ud.mem i n) := if_pos (hle.trans h.length)

/-- The methods of a consistent SockAddr show its host and its port. -/
theorem Consistent.hostName (h : ud.Consistent) (name : UvIpName) :
    ud.hostName name = some (pushName (name.of ud.ip)) := by
  unfold SockaddrUd.hostName ip host
  cases hcls : ud.cls with
  | v4 =>
    have hle : 4+4 ≤ ud.cls.size := by rw [hcls]; decide
    simp only [h.read hle, Option.map_some, UvIpName.of]
  | v6 =>
    have hle : 8+16 ≤ ud.cls.size := by rw [hcls]; decide
    simp only [h.read hle, Option.map_some, UvIpName.of]

theorem Consistent.portNumber (h : ud.Consistent) : ud.portNumber = some (.number ud.port) := by
  have hle : 2+2 ≤ ud.cls.size := by cases ud.cls <;> decide
  have hget : ∀ i < 2, (window ud.mem 2 2).getD i 0 = ud.mem.getD (2+i) 0 := by
    intro i hi
    simp [window, List.getD_eq_getElem?_getD, hi]
  simp only [SockaddrUd.portNumber, couvSockaddrPort, h.read hle, Option.map_some,
    hget 0 (by decide), hget 1 (by decide), port, Int.natCast_add, Int.natCast_mul]
  rfl

theorem plain_consistent (ud : SockaddrUd) : ud.plain.Consistent := newAddrPort_consistent _ _

theorem Consistent.plain_ip (h : ud.Consistent) : ud.plain.ip = ud.ip := by
  unfold ip
  rw [plain_cls, h.plain_shows.1]

end SockaddrUd

/-! The constructors. -/

section
variable {pton : UvInetPton}

theorem ok_bind {α β : Type} (a : α) (f : α → Except LuaError β) : (Except.ok a >>= f) = f a := rfl

theorem couvLCheckport_nat {arg p : ℕ} (hp : p < 2^16) :
    couvLCheckport arg (.value (.number p)) = .ok (UInt16.ofNat p) := by
  have hint : cInt p = p := cInt_eq_self ⟨by unfold cIntMin; omega, by unfold cIntMax; omega⟩
  have hcheck : LuaArg.checkint arg (.value (.number p)) = .ok (p : ℤ) :=
    congrArg Except.ok hint
  have hrange : luaLArgcheck (0 ≤ (p : ℤ) ∧ (p : ℤ) ≤ 65535) arg
      "must be integer between 0 and 65535" = .ok () := if_pos (by omega)
  unfold couvLCheckport
  rw [hcheck]
  change (luaLArgcheck _ _ _ >>= _) = _
  rw [hrange]
  rfl

theorem couvLCheckip_string {arg : ℕ} {af : ℤ} {s : LuaString} {ip : IpAddr}
    (h : couvInetPton pton af (.string s) = some ip) :
    couvLCheckip pton arg af (.value (.string s)) = .ok ip := by
  have hcheck : LuaArg.checkstring arg (.value (.string s)) = .ok (.string s) := rfl
  simp only [couvLCheckip, hcheck, h, bind, Except.bind]

/-- `uv_inet_pton` reads the name of an address, in its own family or in none. -/
theorem UvIpName.Inverse.reads {name : UvIpName} (hn : name.Inverse pton) (ud : SockaddrUd) :
    ∃ s, name.of ud.ip = .ok s ∧ ∀ af, af = afUnspec ∨ af = ud.cls.family →
      couvInetPton pton af (.string s) = some ud.ip := by
  unfold SockaddrUd.ip
  cases hcls : ud.cls with
  | v4 =>
    obtain ⟨s, hs, h4⟩ := hn.v4 (addrOf 4 ud.host)
    refine ⟨s, hs, ?_⟩
    rintro af (rfl | rfl) <;> simp [couvInetPton, h4, SockClass.family, afUnspec, afInet]
  | v6 =>
    obtain ⟨s, hs, h6, h4⟩ := hn.v6 (addrOf 16 ud.host)
    refine ⟨s, hs, ?_⟩
    rintro af (rfl | rfl) <;>
      simp [couvInetPton, h4, h6, SockClass.family, afUnspec, afInet, afInet6]

theorem couvSockaddrCreate_name {s : LuaString} {p : ℕ} {family : LuaArg} {af : ℤ} {ip : IpAddr}
    (hp : p < 2^16) (hf : couvLChecksockfamily 3 family = .ok af)
    (hip : couvInetPton pton af (.string s) = some ip) :
    couvSockaddrCreate pton (.value (.string s)) (.value (.number p)) family =
      .ok (newAddrPort ip (UInt16.ofNat p)) := by
  unfold couvSockaddrCreate
  rw [couvLCheckport_nat hp, ok_bind, hf, ok_bind, couvLCheckip_string hip, ok_bind]
  rfl

theorem sockaddrNew_name {s : LuaString} {p : ℕ} {ud : SockaddrUd} (hp : p < 2^16)
    (hip : couvInetPton pton ud.cls.family (.string s) = some ud.ip) :
    sockaddrNew pton ud.cls (.value (.string s)) (.value (.number p)) =
      .ok (newAddrPort ud.ip (UInt16.ofNat p)) := by
  unfold sockaddrNew
  cases hcls : ud.cls with
  | v4 =>
    rw [hcls] at hip
    have hcheck : couvLCheckip pton 1 afInet (.value (.string s)) = .ok ud.ip :=
      couvLCheckip_string hip
    simp only [couvSockaddrv4New, hcheck, ok_bind, couvLCheckport_nat hp]
    rfl
  | v6 =>
    rw [hcls] at hip
    have hcheck : couvLCheckip pton 1 afInet6 (.value (.string s)) = .ok ud.ip :=
      couvLCheckip_string hip
    simp only [couvSockaddrv6New, hcheck, ok_bind, couvLCheckport_nat hp]
    rfl

end

/-- `ud'` is what the constructors make of what the methods of `ud` show: it shows the same, and
has the same struct exactly if the rest of the struct of `ud` is zero. -/
structure Rebuilds (name : UvIpName) (pton : UvInetPton) (ud ud' : SockaddrUd) : Prop where
  shown : ∃ host port, ud.hostName name = some (.ok host) ∧ ud.portNumber = some port ∧
    ud'.hostName name = some (.ok host) ∧ ud'.portNumber = some port ∧
    sockaddrNew pton ud.cls (.value host) (.value port) = .ok ud' ∧
    ∀ family af, couvLChecksockfamily 3 family = .ok af → af = afUnspec ∨ af = ud.cls.family →
      couvSockaddrCreate pton (.value host) (.value port) family = .ok ud'
  cls : ud'.cls = ud.cls
  consistent : ud'.Consistent
  mem : ud'.mem = ud.mem.take ud.cls.size ↔ ∀ b ∈ ud.hidden, b = 0

theorem SockaddrUd.Consistent.rebuilds {ud : SockaddrUd} (h : ud.Consistent) {name : UvIpName}
    {pton : UvInetPton} (hn : name.Inverse pton) : Rebuilds name pton ud ud.plain := by
  obtain ⟨s, hs, hpton⟩ := hn.reads ud
  have hplain := ud.plain_consistent
  refine ⟨⟨.string s, .number ud.port, ?_, h.portNumber, ?_, ?_, ?_, ?_⟩, ud.plain_cls, hplain,
    h.plain_mem_iff⟩
  · rw [h.hostName, hs]
    rfl
  · rw [hplain.hostName, h.plain_ip, hs]
    rfl
  · rw [hplain.portNumber, h.plain_shows.2]
  · exact sockaddrNew_name ud.port_lt (hpton _ (.inr rfl))
  · intro family af hf haf
    exact couvSockaddrCreate_name ud.port_lt hf (hpton af haf)

/-- In every run in which every recv has an IPv4 sender, every SockAddr can be made again from its
host and its port. -/
theorem sockaddr_rebuilt {name : UvIpName} {pton : UvInetPton} (hn : name.Inverse pton)
    {as : List SockaddrAct} (he : (sockaddrs pton).Enabled .empty as)
    (hsender : (sockaddrs pton).Along (fun _ a => a.SenderV4) .empty as) {u : ℕ} {ud : SockaddrUd}
    (hud : ((sockaddrs pton).run .empty as).get u = some ud) :
    ∃ ud', Rebuilds name pton ud ud' := by
  have hempty : SockaddrsOk .empty := fun a ha => absurd ha (Nat.not_lt_zero a)
  have hok : SockaddrsOk ((sockaddrs pton).run .empty as) :=
    Machine.run_invariant (I := SockaddrsOk)
      (fun _ _ hs hp => (sockaddrs_exec_iff hs hp.1).mpr hp.2) hempty
      (Machine.along_and.mpr ⟨he, hsender⟩)
  have hc : ud.Consistent := ((Store.all_iff _).mp hok u ud hud).1
  exact ⟨ud.plain, hc.rebuilds hn⟩

/-- Names with the loopback address as libuv writes it, and a tag before the bytes of the others. -/
def tagName : UvIpName where
  v4 a := if a = addrOf 4 [127, 0, 0, 1] then .ok [49, 50, 55, 46, 48, 46, 48, 46, 49]
    else .ok (120 :: a.toList)
  v6 a := .ok (120 :: a.toList)

def tagPton : UvInetPton where
  v4 v :=
    match v with
    | .string s =>
      if s = [49, 50, 55, 46, 48, 46, 48, 46, 49] then some (addrOf 4 [127, 0, 0, 1])
      else if s.length = 5 then some (addrOf 4 s.tail) else none
    | _ => none
  v6 v :=
    match v with
    | .string s => if s.length = 17 then some (addrOf 16 s.tail) else none
    | _ => none

theorem addrOf_eq {n : ℕ} (a : Vector UInt8 n) : addrOf n a.toList = a := by
  apply Vector.ext
  intro i hi
  simp [addrOf]

theorem tagName_inverse : tagName.Inverse tagPton where
  v4 a := by
    by_cases ha : a = addrOf 4 [127, 0, 0, 1]
    · exact ⟨_, if_pos ha, by simp [tagPton, ha]⟩
    · exact ⟨_, if_neg ha, by simp [tagPton, addrOf_eq]⟩
  v6 a := ⟨_, rfl, by simp [tagPton, addrOf_eq], by simp [tagPton]⟩

/-- A datagram from 127.0.0.1. -/
def loopbackRecv : List SockaddrAct :=
  [.recv (List.replicate 128 170) (some (.v4 7 (addrOf 4 [127, 0, 0, 1])))]

theorem sockaddr_rebuilt_loopback : ∃ ud', Rebuilds tagName tagPton
    ⟨.v4, [2, 0, 0, 7, 127, 0, 0, 1, 0, 0, 0, 0, 0, 0, 0, 0]⟩ ud' := by
  have he : (sockaddrs tagPton).Enabled .empty loopbackRecv := by decide +kernel
  have hsender : (sockaddrs tagPton).Along (fun _ a => a.SenderV4) .empty loopbackRecv := by
    decide +kernel
  have hud : ((sockaddrs tagPton).run .empty loopbackRecv).get 0 =
      some ⟨.v4, [2, 0, 0, 7, 127, 0, 0, 1, 0, 0, 0, 0, 0, 0, 0, 0]⟩ := by decide +kernel
  exact sockaddr_rebuilt tagName_inverse he hsender hud

end Couv
