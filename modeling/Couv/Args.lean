import Couv.World

/-! Arguments of calls from Lua, and the checks that auxlib.c, process.c and couv.c make on
them. -/
namespace Couv

/-- A plain value, a handle userdata, a function, or a table with its array part. -/
inductive LuaArg
  | value (v : Value)
  | handle (t : HandleType) (h : ℕ)
  | function (f : ℕ)
  | table (items : List Item)
  deriving DecidableEq, Repr

/-- What a call raises: an error of its own, or one named after the last error of libuv. -/
inductive CallError
  | lua (e : LuaError)
  | uv (code : ℤ)
  deriving DecidableEq, Repr

/-- `luaL_argerror`, which process.c also calls with the index -1. -/
def luaLArgerror (arg : ℤ) (msg : String) : LuaError :=
  if 0 ≤ arg then .argError arg.toNat msg else .error s!"bad argument #{arg} ({msg})"

def luaLArgcheck (cond : Prop) [Decidable cond] (arg : ℤ) (msg : String) : Except LuaError Unit :=
  if cond then .ok () else .error (luaLArgerror arg msg)

def couvAllocCheck (ok : Bool) : Except LuaError Unit :=
  if ok then .ok () else .error (.error "ENOMEM")

namespace LuaArg

/-- A check that only a plain value can pass. -/
def check {α : Type} (a : LuaArg) (e : LuaError) (f : Value → Except LuaError α) :
    Except LuaError α :=
  match a with
  | .value v => f v
  | _ => .error e

def checkint (arg : ℕ) (a : LuaArg) : Except LuaError ℤ :=
  a.check (.argError arg "number expected") (luaLCheckint arg)

def checkinteger (arg : ℕ) (a : LuaArg) : Except LuaError ℤ :=
  a.check (.argError arg "number expected") (luaLCheckinteger arg)

def optinteger (arg : ℕ) (a : LuaArg) (d : ℤ) : Except LuaError ℤ :=
  a.check (.argError arg "number expected") (fun v => luaLOptlong arg v d)

/-- `luaL_checkstring`; the C string is that of the string or number returned. -/
def checkstring (arg : ℕ) (a : LuaArg) : Except LuaError Value :=
  a.check (.argError arg "string expected") (fun v =>
    match v with
    | .string _ | .number _ | .float _ | .double _ => .ok v
    | _ => .error (.argError arg "string expected"))

/-- `luaL_optstring` with the default NULL -/
def optstring (arg : ℕ) (a : LuaArg) : Except LuaError (Option Value) :=
  match a with
  | .value .nil => .ok none
  | a => (a.checkstring arg).map some

/-- `luaL_checktype(L, arg, LUA_TFUNCTION)` -/
def checkfunction (arg : ℕ) (a : LuaArg) : Except LuaError ℕ :=
  match a with
  | .function f => .ok f
  | _ => .error (.argError arg "function expected")

/-- `couvL_checkudataclass` for a class of handles, given by the types below it. -/
def checkudataclass (arg : ℕ) (types : List HandleType) (tname : String) (a : LuaArg) :
    Except LuaError ℕ :=
  match a with
  | .handle t h =>
    if t ∈ types then .ok h else .error (.error s!"bad argument {arg} ({tname} expected)")
  | _ => .error (.error s!"bad argument {arg} ({tname} expected)")

end LuaArg

/-! The options of Process.spawn. -/

/-- A field that should be an array of strings; an element that lua_tostring does not convert
is `none`. -/
inductive StrArray
  | nil
  | array (xs : List (Option LuaString))
  | other
  deriving DecidableEq, Repr

/-- An element of the stdio table: a table of `len` elements, or another value. -/
inductive StdioElem
  | container (len : ℕ) (flags : Value) (second : LuaArg)
  | other
  deriving DecidableEq, Repr

inductive Stdio
  | nil
  | table (elems : List StdioElem)
  | other
  deriving DecidableEq, Repr

structure SpawnOptions where
  args : StrArray
  env : StrArray
  stdio : Stdio
  exitCb : LuaArg
  deriving DecidableEq, Repr

def mustBeStrings : LuaError := luaLArgerror (-1) "must be nil or array of strings"

/-- The loop of `couv_tonullterminatedstrarray` -/
def strElems (xs : List (Option LuaString)) : Except LuaError (List LuaString) :=
  match xs.mapM id with
  | some strs => .ok strs
  | none => .error mustBeStrings

def stdioInvalElem : LuaError := luaLArgerror 1 "invalid array element value at \"stdio\" key"

/-- The body of the loop of `couv_checkstdiocontainers` -/
def stdioElem (e : StdioElem) : Except LuaError Unit :=
  match e with
  | .other => .error stdioInvalElem
  | .container len flags second =>
    if len = 1 ∨ len = 2 then
      if (luaTonumber flags).isSome then
        match len, second with
        -- a userdata must be a stream; a number is a file descriptor, other values are skipped
        | 2, .handle t _ =>
          if t ∈ [.tcp, .pipe, .tty] then .ok ()
          else .error (.error "bad argument -1 (couv.Stream expected)")
        | 2, .value (.buffer _) | 2, .value (.sockaddr _) | 2, .value (.stat _) =>
          .error (.error "bad argument -1 (couv.Stream expected)")
        | _, _ => .ok ()
      else .error stdioInvalElem
    else .error stdioInvalElem

def stdioElems (es : List StdioElem) : Except LuaError Unit := es.forM stdioElem

/-- The argument check after the args array has been built. -/
def checkArgc (strs : List LuaString) : Except LuaError Unit :=
  luaLArgcheck (strs ≠ []) (-1) "must have non-empty string array at key \"args\""

def checkExitCb (a : LuaArg) : Except LuaError ℕ :=
  match a with
  | .function f => .ok f
  | _ => .error (.argError 1 "value at \"exitCb\" key must be function")

/-! The hints of getaddrinfo. -/

/-- Only the family is checked; nil is a table with all fields nil. -/
inductive Hints
  | table (family : LuaArg)
  | nil
  | other
  deriving DecidableEq, Repr

def afUnspec : ℤ := 0

/-- `couvL_tosockfamily` -/
def couvLTosockfamily (arg : ℤ) (a : LuaArg) : Except LuaError ℤ :=
  match a with
  | .value .nil => .ok afUnspec
  | .value v =>
    match luaTonumber v with
    | some n =>
      .ok (if cInt n = afUnspec ∨ cInt n = afInet ∨ cInt n = afInet6 then cInt n else -1)
    | none => .error (luaLArgerror arg "number expected")
  | _ => .error (luaLArgerror arg "number expected")

/-- `couvL_checkaddrinfohints` -/
def couvLCheckaddrinfohints (arg : ℕ) (h : Hints) : Except LuaError Unit :=
  match h with
  | .nil => .ok ()
  | .other => .error (.argError arg "must be table or nil")
  | .table family => do
    let family ← couvLTosockfamily (-1) family
    luaLArgcheck (family ≠ -1) arg
      "value at \"family\" key must be AF_UNSPEC, AF_INET or AF_INET6"

end Couv
