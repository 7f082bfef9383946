import Couv.LuaTables

/-! luaopen_couv_native, the methods that couv.lua defines over those of C, and the C function that
a method of an object reaches. -/
namespace Couv

/-- What a luaopen function of a class has: the fields of the table that it makes, the name under
which the module has this table, the metatable with the one above it, its methods, and the name
under which the module has the metatable. -/
structure ClassOpen where
  statics : List (String × FieldVal)
  field : String
  tname : String
  superTname : Option String
  methods : List (String × CFunction)
  mfield : String

namespace LuaState
variable (s : LuaState)

def openClass (c : ClassOpen) : LuaState :=
  let s := (s.luaNewtable.setfields c.statics).luaSetfield (-2) c.field
  ((s.couvNewmetatable c.tname c.superTname).couvLSetfuncs c.methods).luaSetfield (-2) c.mfield

end LuaState

/-- Functions that check no class of their first argument. -/
def functionFields (l : List (String × String)) : List (String × FieldVal) :=
  l.map (fun p => (p.1, .cfunction ⟨p.2, none⟩))

/-- `couvL_SET_FIELD(L, name, number, ..)`, with the C constants -/
def numberFields (const : String → ℤ) (l : List (String × String)) : List (String × FieldVal) :=
  l.map (fun p => (p.1, .number (const p.2)))

/-- Functions that check their first argument for one class. -/
def methodsOf (self : String) (l : List (String × String)) : List (String × CFunction) :=
  l.map (fun p => (p.1, ⟨p.2, some self⟩))

/-! sockaddr.c -/

def couvSockAddr (const : String → ℤ) : ClassOpen where
  statics := functionFields [("create", "couv_sockaddr_create"),
      ("isSockAddr", "couv_sockaddr_is_sockaddr")] ++
    numberFields const [("AF_UNSPEC", "AF_UNSPEC"), ("AF_INET", "AF_INET"),
      ("AF_INET6", "AF_INET6"), ("SOCK_DGRAM", "SOCK_DGRAM"), ("SOCK_STREAM", "SOCK_STREAM"),
      ("IPPROTO_TCP", "IPPROTO_TCP"), ("IPPROTO_UDP", "IPPROTO_UDP")]
  field := "SockAddr"
  tname := "couv.SockAddr"
  superTname := none
  methods := methodsOf "couv.SockAddr"
    [("isV4", "couv_sockaddr_is_v4"), ("isV6", "couv_sockaddr_is_v6")]
  mfield := "_SockAddr"

def couvSockAddrV4 : ClassOpen where
  statics := functionFields [("new", "couv_sockaddrv4_new")]
  field := "SockAddrV4"
  tname := "couv.SockAddrV4"
  superTname := some "couv.SockAddr"
  methods := methodsOf "couv.SockAddrV4"
    [("host", "couv_sockaddrv4_host"), ("port", "couv_sockaddrv4_port")]
  mfield := "_SockAddrV4"

def couvSockAddrV6 : ClassOpen where
  statics := functionFields [("new", "couv_sockaddrv6_new")]
  field := "SockAddrV6"
  tname := "couv.SockAddrV6"
  superTname := some "couv.SockAddr"
  methods := methodsOf "couv.SockAddrV6"
    [("host", "couv_sockaddrv6_host"), ("port", "couv_sockaddrv6_port")]
  mfield := "_SockAddrV6"

/-! handle.c; `types` are the names in UV_HANDLE_TYPE_MAP. -/

def couvHandle (const : String → ℤ) (types : List String) : ClassOpen where
  statics := numberFields const (("UNKNOWN_HANDLE", "UV_UNKNOWN_HANDLE") ::
      (types.map (fun uc => (uc, "UV_" ++ uc))) ++
      [("FILE", "UV_FILE"), ("HANDLE_TYPE_MAX", "UV_HANDLE_TYPE_MAX")]) ++
    functionFields [("guess", "couv_handle_guess")]
  field := "Handle"
  tname := "couv.Handle"
  superTname := none
  methods := methodsOf "couv.Handle" [("_close", "couv_close"), ("isActive", "couv_is_active"),
    ("isClosing", "couv_is_closing"), ("ref", "couv_ref"), ("unref", "couv_unref")]
  mfield := "_Handle"

/-! process.c, timer.c and udp.c -/

def couvProcess (const : String → ℤ) : ClassOpen where
  statics := functionFields [("spawn", "couv_process_spawn")] ++
    numberFields const [("SETUID", "UV_PROCESS_SETUID"), ("SETGID", "UV_PROCESS_SETGID"),
      ("WINDOWS_VERBATIM_ARGUMENTS", "UV_PROCESS_WINDOWS_VERBATIM_ARGUMENTS"),
      ("DETACHED", "UV_PROCESS_DETACHED"), ("IGNORE", "UV_IGNORE"),
      ("CREATE_PIPE", "UV_CREATE_PIPE"), ("INHERIT_FD", "UV_INHERIT_FD"),
      ("INHERIT_STREAM", "UV_INHERIT_STREAM"), ("READABLE_PIPE", "UV_READABLE_PIPE"),
      ("WRITABLE_PIPE", "UV_WRITABLE_PIPE")]
  field := "Process"
  tname := "couv.Process"
  superTname := some "couv.Handle"
  methods := methodsOf "couv.Process"
    [("getPid", "couv_process_get_pid"), ("kill", "couv_process_kill")]
  mfield := "_Process"

def couvTimer : ClassOpen where
  statics := functionFields [("new", "couv_timer_create")]
  field := "Timer"
  tname := "couv.Timer"
  superTname := some "couv.Handle"
  methods := methodsOf "couv.Timer" [("again", "timer_again"), ("getRepeat", "timer_get_repeat"),
    ("setRepeat", "timer_set_repeat"), ("stop", "timer_stop"), ("start", "timer_start")]
  mfield := "_Timer"

def couvUdp (const : String → ℤ) : ClassOpen where
  statics := functionFields [("new", "udp_new")] ++
    numberFields const [("IPV6ONLY", "UV_UDP_IPV6ONLY"), ("JOIN_GROUP", "UV_JOIN_GROUP"),
      ("LEAVE_GROUP", "UV_LEAVE_GROUP")]
  field := "Udp"
  tname := "couv.Udp"
  superTname := some "couv.Handle"
  methods := methodsOf "couv.Udp" [("bind", "udp_bind"), ("getsockname", "udp_getsockname"),
    ("open", "udp_open"), ("_recv", "udp_prim_recv"), ("_send", "udp_send"),
    ("setBroadcast", "udp_set_broadcast"), ("setMembership", "udp_set_membership"),
    ("setMulticastLoop", "udp_set_multicast_loop"), ("setMulticastTtl", "udp_set_multicast_ttl"),
    ("setTtl", "udp_set_ttl"), ("startRecv", "udp_recv_start"), ("stopRecv", "udp_recv_stop")]
  mfield := "_Udp"

/-! stream.c, pipe.c, tcp.c and tty.c -/

def couvStream : ClassOpen where
  statics := []
  field := "Stream"
  tname := "couv.Stream"
  superTname := some "couv.Handle"
  methods := methodsOf "couv.Stream" [("accept", "couv_accept"),
    ("getWriteQueueSize", "couv_get_write_queue_size"), ("isReadable", "couv_is_readable"),
    ("isWritable", "couv_is_writable"), ("listen", "couv_listen"), ("_read", "couv_prim_read"),
    ("_shutdown", "couv_shutdown"), ("startRead", "couv_read_start"),
    ("stopRead", "couv_read_stop"), ("_write", "couv_write"), ("write2", "couv_write2")]
  mfield := "_Stream"

def couvPipe : ClassOpen where
  statics := functionFields [("new", "pipe_new")]
  field := "Pipe"
  tname := "couv.Pipe"
  superTname := some "couv.Stream"
  methods := methodsOf "couv.Pipe" [("bind", "pipe_bind"), ("_connect", "pipe_connect"),
    ("open", "pipe_open"), ("_read2", "couv_prim_read2"), ("startRead2", "couv_read2_start")]
  mfield := "_Pipe"

def couvTcp : ClassOpen where
  statics := functionFields [("new", "tcp_new")]
  field := "Tcp"
  tname := "couv.Tcp"
  superTname := some "couv.Stream"
  methods := methodsOf "couv.Tcp" [("bind", "tcp_bind"), ("_connect", "tcp_connect"),
    ("open", "tcp_open"), ("keepalive", "tcp_keepalive"), ("nodelay", "tcp_nodelay"),
    ("getpeername", "tcp_getpeername"), ("simultaneousAccepts", "tcp_simultaneous_accepts"),
    ("getsockname", "tcp_getsockname")]
  mfield := "_Tcp"

/-- tty_reset_mode looks at no argument. -/
def couvTty : ClassOpen where
  statics := functionFields [("new", "tty_new"), ("openFd", "tty_open_fd")]
  field := "Tty"
  tname := "couv.Tty"
  superTname := some "couv.Stream"
  methods := [("getWinSize", ⟨"tty_get_winsize", some "couv.Tty"⟩),
    ("resetMode", ⟨"tty_reset_mode", none⟩), ("setMode", ⟨"tty_set_mode", some "couv.Tty"⟩)]
  mfield := "_Tty"

/-- The classes in the order of luaopen_couv_native. -/
def couvOpens (const : String → ℤ) (types : List String) : List ClassOpen :=
  [couvSockAddr const, couvSockAddrV4, couvSockAddrV6, couvHandle const types, couvProcess const,
    couvTimer, couvUdp const, couvStream, couvPipe, couvTcp, couvTty]

namespace LuaState
variable (s : LuaState)

/-! The modules without classes. -/

/-- `loop` is what uv_default_loop gives. -/
def luaopenCouvLoop (loop : ℕ) : LuaState :=
  ((s.push (.obj (.lightuserdata loop))).luaSetregistry "couv.loop").couvLSetfuncs
    [("defaultLoop", ⟨"couv_default_loop", none⟩), ("getLoop", ⟨"couv_get_loop", none⟩),
      ("now", ⟨"couv_now", none⟩), ("run", ⟨"couv_run", none⟩),
      ("runOnce", ⟨"couv_run_once", none⟩), ("setLoop", ⟨"couv_set_loop", none⟩),
      ("updateTime", ⟨"couv_update_time", none⟩)]

/-- The methods of Buffers check for Buffers by luaL_checkudata, and are not looked up here. -/
def luaopenCouvBuffer (methods : List (String × CFunction)) : LuaState :=
  let s := ((s.luaLNewmetatable "couv.Buffer").couvLSetfuncs methods).pop 1
  (s.luaNewtable.couvLSetfuncs [("concat", ⟨"buffer_concat", none⟩),
    ("isBuffer", ⟨"buffer_is_buffer", none⟩), ("new", ⟨"buffer_new", none⟩)]).luaSetfield (-2)
      "Buffer"

def luaopenCouvFs (functions methods : List (String × CFunction)) : LuaState :=
  let s := (s.luaNewtable.couvLSetfuncs functions).luaSetfield (-2) "fs"
  -- metatable.__index = metatable, which pops it
  ((s.luaLNewmetatable "couv.fs.Stat").couvLSetfuncs methods).luaSetfield (-1) "__index"

end LuaState

/-- What the module is loaded with: the C constants, and the tables of functions that no class
has. -/
structure NativeEnv where
  const : String → ℤ
  types : List String
  loop : ℕ
  functions : List (String × CFunction)
  bufferMethods : List (String × CFunction)
  fsFunctions : List (String × CFunction)
  fsStatMethods : List (String × CFunction)

namespace LuaState
variable (s : LuaState) (env : NativeEnv)

def luaopenCouvNative : LuaState :=
  let s := s.luaNewtable.couvLSetfuncs env.functions
  let s := s.luaopenCouvLoop env.loop
  let s := s.luaopenCouvBuffer env.bufferMethods
  let s := s.luaopenCouvFs env.fsFunctions env.fsStatMethods
  (couvOpens env.const env.types).foldl openClass s

end LuaState
end Couv
