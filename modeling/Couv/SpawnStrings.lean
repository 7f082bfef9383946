import Couv.LuaHeap
import Couv.LuaStack
import Couv.Args

/-! The strings of Process.spawn: what the arrays that uv_spawn gets point into, over every
collection of the call. -/
namespace Couv

/-- A pointer that lua_tostring returns: the string it points into, and the text that is there. -/
structure CStr where
  obj : ℕ
  text : LuaString
  deriving DecidableEq, Repr

/-- What holds after a call of the API: the heap, the objects that the stack and the registry
hold, and the entries that the arrays have so far. -/
structure Moment (N : Type) where
  heap : LuaHeap N
  roots : List ℕ
  entries : List CStr

/-- The registry and all that other functions hold are `processMtbl` and `others`. -/
structure CallState (N : Type) where
  heap : LuaHeap N
  stack : LuaStack (LuaVal N)
  processMtbl : LuaVal N
  others : List (LuaVal N)
  entries : List CStr
  moments : List (Moment N)

/-- The collector, which may run in every call of the API, and finalizers and `__index` functions
with it: what can be reached stays as it is. -/
structure SpawnEnv (N : Type) extends LuaStrings N where
  collect : ℕ → List ℕ → LuaHeap N → LuaHeap N
  collect_keeps : ∀ t roots h, LuaHeap.Sound toLuaStrings roots h →
    Keeps LuaObj.refs roots h (collect t roots h)
  collect_interned : ∀ t roots h, LuaHeap.Sound toLuaStrings roots h →
    LuaHeap.Interned toLuaStrings (collect t roots h)
  /-- the results of couv_alloc -/
  allocs : ℕ → Bool

abbrev SpawnM (N : Type) := StateT (CallState N) (Except LuaError)

variable {N : Type}

/-- A call that begins. -/
def CallState.start (heap : LuaHeap N) (stack : LuaStack (LuaVal N)) (processMtbl : LuaVal N)
    (others : List (LuaVal N)) : CallState N := ⟨heap, stack, processMtbl, others, [], []⟩

namespace CallState
variable (σ : CallState N)

def held : List (LuaVal N) := σ.stack.slots ++ σ.processMtbl :: σ.others

def roots : List ℕ := objects σ.held

def push (v : LuaVal N) : CallState N := { σ with stack := σ.stack.push v }

def pop (n : ℕ) : CallState N := { σ with stack := σ.stack.pop n }

/-- Push an object of a heap that it has been made in. -/
def pushNew (r : LuaHeap N × ℕ) : CallState N :=
  { σ with heap := r.1, stack := σ.stack.push (.object r.2) }

def pushFound (L : LuaStrings N) : Found N → CallState N
  | .value v => σ.push v
  | .string s => σ.pushNew (σ.heap.newString L s)
  | .array xs => σ.pushNew (σ.heap.newArray L xs)

def moment (env : SpawnEnv N) : CallState N :=
  let h := env.collect σ.moments.length σ.roots σ.heap
  { σ with heap := h, moments := σ.moments ++ [⟨h, σ.roots, σ.entries⟩] }

end CallState

namespace LuaHeap

/-- The array of a table. -/
def arrayOf (h : LuaHeap N) (v : LuaVal N) : Option (List (LuaVal N)) :=
  match v with
  | .object a =>
    match h.get a with
    | some (.table array _ _) => some array
    | _ => none
  | _ => none

def isnumber (h : LuaHeap N) (v : LuaVal N) : Bool :=
  match v with
  | .number _ => true
  | .object a =>
    match h.get a with
    | some (.string s) => (luaStr2number s).isSome
    | _ => false
  | _ => false

def isfunction (h : LuaHeap N) (v : LuaVal N) : Bool :=
  match v with
  | .object a =>
    match h.get a with
    | some (.function _) => true
    | _ => false
  | _ => false

end LuaHeap

/-- The fields of the options. -/
inductive OptionKey
  | args | file | env | cwd | flags | uid | gid | stdio | exitCb
  deriving DecidableEq, Repr

def OptionKey.text : OptionKey → LuaString
  | args => [97, 114, 103, 115]
  | file => [102, 105, 108, 101]
  | env => [101, 110, 118]
  | cwd => [99, 119, 100]
  | flags => [102, 108, 97, 103, 115]
  | uid => [117, 105, 100]
  | gid => [103, 105, 100]
  | stdio => [115, 116, 100, 105, 111]
  | exitCb => [101, 120, 105, 116, 67, 98]

namespace SpawnM

/-! The API, as far as process.c uses it. -/

def check {α : Type} (x : Except LuaError α) : SpawnM N α := fun σ => x.map (·, σ)

def value (index : ℤ) : SpawnM N (LuaVal N) := fun σ => .ok ((σ.stack.get index).getD .nil, σ)

def array (v : LuaVal N) : SpawnM N (Option (List (LuaVal N))) :=
  fun σ => .ok (σ.heap.arrayOf v, σ)

section
variable (env : SpawnEnv N)

def api (f : CallState N → CallState N) : SpawnM N Unit := fun σ => .ok ((), (f σ).moment env)

def luaPop (n : ℕ) : SpawnM N Unit := api env (·.pop n)

/-- `lua_getfield(L, 1, key)` -/
def luaGetfield (key : OptionKey) : SpawnM N Unit := fun σ =>
  match σ.stack.get 1 with
  | some (.object a) =>
    match σ.heap.lookup key.text 100 a with
    | .ok found => api env (·.pushFound env.toLuaStrings found) σ
    | .error e => .error e
  | _ => .error (.error "attempt to index")

def luaRawgeti (index : ℤ) (i : ℕ) : SpawnM N Unit := fun σ =>
  let array := (σ.heap.arrayOf ((σ.stack.get index).getD .nil)).getD []
  api env (·.push (array.getD (i-1) .nil)) σ

/-- `lua_tostring(L, -1)`, which turns a number on the stack into a string. -/
def luaTostring : SpawnM N (Option CStr) := fun σ =>
  match σ.stack.get (-1) with
  | some (.object a) =>
    match σ.heap.get a with
    | some (.string s) => .ok (some ⟨a, s⟩, σ)
    | _ => .ok (none, σ)
  | some (.number n) =>
    let s := env.tostr n
    let r := σ.heap.newString env.toLuaStrings s
    .ok (some ⟨r.2, s⟩, ((σ.pop 1).pushNew r).moment env)
  | _ => .ok (none, σ)

/-- `couv_rawsetp` on the registry, with a key that is new. -/
def couvRawsetp : SpawnM N Unit :=
  api env fun σ => { σ.pop 1 with others := (σ.stack.get (-1)).getD .nil :: σ.others }

/-- `args[i - 1] = arg` -/
def store (arg : CStr) : SpawnM N Unit := fun σ =>
  .ok ((), { σ with entries := σ.entries ++ [arg] })

/-! process.c -/

/-- The metatable is set before anything else is done. -/
def couvNewProcessHandle : SpawnM N Unit :=
  api env fun σ => σ.pushNew (σ.heap.alloc (.userdata false [σ.processMtbl]), σ.heap.next)

/-- The loop of `couv_tonullterminatedstrarray` from `i` on. -/
def fillStrs (index : ℤ) : ℕ → ℕ → SpawnM N (List CStr)
  | _, 0 => pure []
  | i, k+1 => do
    luaRawgeti env index i
    let arg ← luaTostring env
    luaPop env 1
    match arg with
    | none => throw (luaLArgerror index "must be nil or array of strings")
    | some arg => do
      store arg
      let rest ← fillStrs index (i+1) k
      return arg :: rest

/-- The array, with NULL at its end, and the number of strings. -/
def couvTonullterminatedstrarray (index : ℤ) (ok : Bool) :
    SpawnM N (Option (List (Option CStr)) × ℕ) := do
  let v ← value index
  if v.isNil then return (none, 0)
  match ← array v with
  | none => throw (luaLArgerror index "must be nil or array of strings")
  | some xs => do
    check (couvAllocCheck ok)
    let args ← fillStrs env index 1 xs.length
    return (some (args.map some ++ [none]), xs.length)

def checkCallback (cb : LuaVal N) : SpawnM N Unit := fun σ =>
  if σ.heap.isfunction cb then .ok ((), σ)
  else .error (.argError 1 "value at \"exitCb\" key must be function")

def checkFlags (flags : LuaVal N) : SpawnM N Unit := fun σ =>
  if σ.heap.isnumber flags then .ok ((), σ) else .error stdioInvalElem

def checkStdioClass : SpawnM N Unit := fun σ =>
  match σ.stack.get (-1) with
  | some (.object a) =>
    match σ.heap.get a with
    | some (.userdata false _) => .error (.error "bad argument -1 (couv.Stream expected)")
    | _ => .ok ((), σ)
  | _ => .ok ((), σ)

/-- The body of the loop of `couv_checkstdiocontainers` -/
def stdioContainer (i : ℕ) : SpawnM N Unit := do
  luaRawgeti env (-1) i
  match ← array (← value (-1)) with
  | none => throw stdioInvalElem
  | some elem => do
    check (if elem.length = 1 ∨ elem.length = 2 then .ok () else .error stdioInvalElem)
    luaRawgeti env (-1) 1
    checkFlags (← value (-1))
    luaPop env 1
    if elem.length = 2 then
      luaRawgeti env (-1) 2
      checkStdioClass
      luaPop env 1
    luaPop env 1

def stdioLoop : ℕ → ℕ → SpawnM N Unit
  | _, 0 => pure ()
  | i, k+1 => do
    stdioContainer env i
    stdioLoop (i+1) k

/-- It leaves the field on the stack. -/
def couvCheckstdiocontainers (ok : Bool) : SpawnM N Unit := do
  luaGetfield env .stdio
  let v ← value (-1)
  if v.isNil then return
  match ← array v with
  | none => throw (.argError 1 "value at \"stdio\" key must be nil or table")
  | some stdio => do
    check (couvAllocCheck ok)
    stdioLoop env 1 stdio.length

def field {α : Type} (key : OptionKey) (f : SpawnM N α) : SpawnM N α := do
  luaGetfield env key
  let x ← f
  luaPop env 1
  return x

end

end SpawnM

/-- The strings among the options that uv_spawn gets. -/
structure SpawnStrs where
  args : Option (List (Option CStr))
  env : Option (List (Option CStr))
  file : Option CStr
  cwd : Option CStr
  deriving DecidableEq, Repr

namespace SpawnM

/-- The options of `couv_process_spawn` from cwd on, and the registration of the callback. -/
def spawnRest (env : SpawnEnv N) : SpawnM N (Option CStr) := do
  let cwd ← field env .cwd (luaTostring env)
  -- lua_tointeger makes nothing
  field env .flags (pure ())
  field env .uid (pure ())
  field env .gid (pure ())
  couvCheckstdiocontainers env (env.allocs 2)
  luaPop env 1
  luaGetfield env .exitCb
  checkCallback (← value (-1))
  couvRawsetp env
  return cwd

/-- `couv_process_spawn` until uv_spawn has returned -/
def couvProcessSpawn (env : SpawnEnv N) : SpawnM N SpawnStrs := do
  couvNewProcessHandle env
  match ← array (← value 1) with
  | none => throw (.argError 1 "must be table")
  | some _ => do
    let (args, argc) ← field env .args (couvTonullterminatedstrarray env (-1) (env.allocs 0))
    check (luaLArgcheck (argc ≠ 0) (-1) "must have non-empty string array at key \"args\"")
    let file ← field env .file (luaTostring env)
    let (envs, _) ← field env .env (couvTonullterminatedstrarray env (-1) (env.allocs 1))
    let cwd ← spawnRest env
    api env id
    return ⟨args, envs, file <|> (args.bind fun xs => xs.head?.join), cwd⟩

end SpawnM

/-! The property, and the arguments. -/

/-- From the moment at which an entry is written until uv_spawn has returned, the string that it
points into can be reached. -/
def CallState.StringsStay (σ : CallState N) : Prop :=
  ∀ m ∈ σ.moments, ∀ e ∈ m.entries, Reach LuaObj.refs m.heap m.roots e.obj

/-- The text that each pointer of an array shows. -/
def texts (xs : List (Option CStr)) : List (Option LuaString) := xs.map (·.map CStr.text)

/-- An element of an array in the options: a value of a table that the options lead to, or what
an `__index` function makes. -/
inductive Elem (N : Type)
  | held (v : LuaVal N)
  | made (x : N ⊕ LuaString)

namespace LuaHeap

/-- What lua_tostring gives for a value. -/
def text (L : LuaStrings N) (h : LuaHeap N) (v : LuaVal N) : Option LuaString :=
  match v with
  | .number n => some (L.tostr n)
  | .object a =>
    match h.get a with
    | some (.string s) => some s
    | _ => none
  | _ => none

/-- The roots reach the string that lua_tostring finds for a value. -/
def Holds (L : LuaStrings N) (h : LuaHeap N) (roots : List ℕ) (v : LuaVal N) : Prop :=
  match v with
  | .number n => h.Anchored L roots (L.tostr n)
  | .object a => Reach LuaObj.refs h roots a
  | _ => False

def elements (h : LuaHeap N) (options : LuaVal N) (key : OptionKey) : List (Elem N) :=
  match options with
  | .object a =>
    match h.lookup key.text 100 a with
    | .ok (.value v) => ((h.arrayOf v).getD []).map .held
    | .ok (.array xs) => xs.map .made
    | _ => []
  | _ => []

end LuaHeap

namespace Elem

def text (L : LuaStrings N) (h : LuaHeap N) : Elem N → Option LuaString
  | held v => h.text L v
  | made (.inl n) => some (L.tostr n)
  | made (.inr s) => some s

/-- The text of an element, unless it is a string of the options themselves, is that of a string
that the roots reach. -/
def Anchored (L : LuaStrings N) (h : LuaHeap N) (roots : List ℕ) : Elem N → Prop
  | held (.number n) => LuaHeap.Anchored L h roots (L.tostr n)
  | held _ => True
  | made (.inl n) => LuaHeap.Anchored L h roots (L.tostr n)
  | made (.inr s) => LuaHeap.Anchored L h roots s

end Elem

end Couv
