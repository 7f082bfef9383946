import Couv.Delivery

/-! The address that recv returns with a datagram. -/
namespace Couv

/-- The SockAddr that recv makes of a node whose memory held `junk` when udp_recv_cb got it. -/
def recvAddress (junk : List UInt8) (addr : Option Address) : SockaddrUd :=
  couvLPushsockaddrv4 (World.recvStorage junk addr)

/-- The SockAddr stands for the sender, and without a sender it does not depend on what the
uninitialised memory holds. -/
def SenderKept (junk : List UInt8) (addr : Option Address) (ud : SockaddrUd) : Prop :=
  match addr with
  | some a => ud.Faithful a
  | none => ∀ junk', junk'.length = junk.length → recvAddress junk' none = ud

/-- The copy holds all of an IPv4 address. -/
theorem recvAddress_v4 (junk : List UInt8) (port : UInt16) (host : Vector UInt8 4) :
    recvAddress junk (some (.v4 port host)) = ⟨.v4, (Address.v4 port host).bytes⟩ := by
  have hlen : (Address.v4 port host).bytes.length = sizeofSockaddrIn :=
    Address.bytes_length (.v4 port host)
  simp [recvAddress, couvLPushsockaddrv4, World.recvStorage, overwrite, hlen]

/-- Without a sender the bytes are those of the node's memory. -/
theorem recvAddress_none_ne {junk : List UInt8} (hj : junk.length = sizeofSockaddrStorage) :
    ∃ junk', junk'.length = junk.length ∧ recvAddress junk' none ≠ recvAddress junk none := by
  refine ⟨junk.map (· + 1), List.length_map _, ?_⟩
  intro he
  cases junk with
  | nil => cases hj
  | cons b bs =>
    have hmem := congrArg SockaddrUd.mem he
    have hhead : b + 1 = b := by
      simpa [recvAddress, couvLPushsockaddrv4, World.recvStorage, sizeofSockaddrIn] using
        congrArg List.head? hmem
    simp at hhead

theorem senderKept_iff {junk : List UInt8} (hj : junk.length = sizeofSockaddrStorage)
    (addr : Option Address) :
    SenderKept junk addr (recvAddress junk addr) ↔ ∃ a ∈ addr, a.cls = .v4 := by
  cases addr with
  -- without a sender the bytes are what the stack had there
  | none =>
    obtain ⟨junk', hlen, hne⟩ := recvAddress_none_ne hj
    constructor
    · exact fun h => absurd (h junk' hlen) hne
    · rintro ⟨a, ha, -⟩
      cases ha
  | some a =>
    cases a with
    | v4 port host =>
      refine ⟨fun _ => ⟨_, rfl, rfl⟩, fun _ => ?_⟩
      rw [recvAddress_v4]
      exact faithful_v4 port host
    | v6 port flowinfo host scope =>
      constructor
      · intro h
        cases faithful_cls h
      · rintro ⟨a, ha, hcls⟩
        obtain rfl := Option.some.inj ha
        cases hcls

/-- For every datagram and every call of recv that returns it, in every run: the SockAddr
keeps the sender exactly if libuv reported one and it is an IPv4 address. -/
theorem recv_sender_kept_iff {pre post : List Action} {h : ℕ} {nread : ℤ} {rd : Option UvRead}
    {behind : ℤ} {junk : List UInt8} {addr : Option Address}
    (he : couv.Enabled .init (pre ++ .event (.udpRecvCb h nread rd behind junk addr) :: post))
    {r : Return} (hr : r ∈ (couv.run .init
      (pre ++ .event (.udpRecvCb h nread rd behind junk addr) :: post)).returns)
    {k : ℕ} (hw : r.wait = .input .recv k)
    (hn : r.source = .node (couv.run .init pre).input.nodes.next) :
    ∃ b ud, r.values = [.number nread, .buffer b, .sockaddr ud] ∧
      (SenderKept junk addr ud ↔ ∃ a ∈ addr, a.cls = .v4) := by
  obtain ⟨hpre, hcur, hpost⟩ := Machine.along_append.mp he
  have hg : (couv.run .init pre).guard (.event (.udpRecvCb h nread rd behind junk addr)) := hcur
  obtain ⟨hstack, hinput⟩ := run_inputOk hpre
  let node : InputNode := ⟨.recv, h, nread, inputBuf rd, behind, World.recvStorage junk addr⟩
  have hnode : ((couv.run .init pre).exec
      (.event (.udpRecvCb h nread rd behind junk addr))).input.nodes.get
        (couv.run .init pre).input.nodes.next = some node := by
    rw [(hinput.queueStep_exec hg).nodes]
    exact Store.alloc_get_self _ node
  -- the node is as udp_recv_cb has made it when the coroutine reads it
  have hend := node_kept (hstack.exec hg) (hinput.exec hstack hg) hnode hpost
  have hrun : couv.run .init (pre ++ .event (.udpRecvCb h nread rd behind junk addr) :: post) =
      couv.run ((couv.run .init pre).exec (.event (.udpRecvCb h nread rd behind junk addr)))
        post := Machine.run_append couv _ _ _
  obtain ⟨m, k', node', b, hw', -, hget, hvalues⟩ := (run_receivedOk he).values r hr _ hn
  obtain ⟨rfl, -⟩ : m = .recv ∧ k' = k := by
    rw [hw] at hw'
    cases hw'
    exact ⟨rfl, rfl⟩
  obtain rfl : node' = node := by
    rw [hrun] at hget
    exact Option.some.inj (hget.symm.trans hend)
  exact ⟨b, recvAddress junk addr, hvalues, senderKept_iff hg.2.2 addr⟩

/-- A coroutine waits in recv. -/
def recvWaiting : List Action := [.lua .create, .lua (.resume 1 []), .handle (.udpNew true),
  .handle (.readStart .recv 0 true), .call false (.read .recv 0), .lua .uvRun]

/-- A datagram, and the return of the call that waited for it. -/
def recvEvent (addr : Option Address) : Action :=
  .event (.udpRecvCb 0 0 none 0 (List.replicate 128 170) addr)

def recvReturn (addr : Option Address) : Return :=
  ⟨1, .input .recv 0, .node 0,
    [.number 0, .buffer 0, .sockaddr (recvAddress (List.replicate 128 170) addr)]⟩

theorem recv_sender_kept_iff_v4 : ∃ b ud,
    (recvReturn (some (.v4 7 #v[127, 0, 0, 1]))).values = [.number 0, .buffer b, .sockaddr ud] ∧
      (SenderKept (List.replicate 128 170) (some (.v4 7 #v[127, 0, 0, 1])) ud ↔
        ∃ a ∈ some (Address.v4 7 #v[127, 0, 0, 1]), a.cls = .v4) := by
  have he : couv.Enabled .init
      (recvWaiting ++ recvEvent (some (.v4 7 #v[127, 0, 0, 1])) :: []) := by
    decide +kernel
  have hr : recvReturn (some (.v4 7 #v[127, 0, 0, 1])) ∈ (couv.run .init
      (recvWaiting ++ recvEvent (some (.v4 7 #v[127, 0, 0, 1])) :: [])).returns :=
    List.mem_cons_self
  exact recv_sender_kept_iff he hr rfl rfl

/-- A datagram from an IPv6 sender, and an input without a sender. -/
theorem recv_sender_lost : ¬∀ (pre post : List Action) (h : ℕ) (nread : ℤ) (rd : Option UvRead)
    (behind : ℤ) (junk : List UInt8) (addr : Option Address),
    couv.Enabled .init (pre ++ .event (.udpRecvCb h nread rd behind junk addr) :: post) →
    ∀ r ∈ (couv.run .init
      (pre ++ .event (.udpRecvCb h nread rd behind junk addr) :: post)).returns, ∀ k,
      r.wait = .input .recv k → r.source = .node (couv.run .init pre).input.nodes.next →
        ∃ b ud, r.values = [.number nread, .buffer b, .sockaddr ud] ∧
          SenderKept junk addr ud := by
  intro hall
  let sender : Address := .v6 7 (.replicate 4 0) (.replicate 16 1) (.replicate 4 0)
  have he : couv.Enabled .init (recvWaiting ++ recvEvent (some sender) :: []) := by
    decide +kernel
  have hr : recvReturn (some sender) ∈
      (couv.run .init (recvWaiting ++ recvEvent (some sender) :: [])).returns :=
    List.mem_cons_self
  obtain ⟨b, ud, hvalues, hkept⟩ := hall _ _ _ _ _ _ _ _ he _ hr 0 rfl rfl
  obtain rfl : recvAddress (List.replicate 128 170) (some sender) = ud := by
    injection hvalues with _ htl
    injection htl with _ htl
    injection htl with hud _
    injection hud
  cases faithful_cls hkept

end Couv
