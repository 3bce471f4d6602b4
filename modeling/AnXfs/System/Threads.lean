/-
The threads of the client and their mutexes: `g_mtx` of the entry points, `g_mutex` of the anpc calls and
`mtx_` of the registry. Any number of application threads are in entry points or in `anpc_stop`, each cut
where it takes or gives back a mutex and where another thread can change what it tests next, and the worker
runs the callbacks of its loop. `threads_moved` lists what one step can do.

`m_wait_connect` and the memory of `anpc_malloc` have mutexes of their own, held over a few assignments;
what is done under them is one step.
-/
import AnXfs.Client.Connect
import AnXfs.Client.Outcome
import AnXfs.Client.SendCmd
import AnXfs.Run.Locks
import AnXfs.System.Link

namespace AnXfs.System

open AnXfs.Wire AnXfs.Pack AnXfs.Run AnXfs.Client

variable {A : Arch} {api : XfsApi}

/-! ## Globals -/

/-- The globals of the client: `g_service_info`, whether `g_pipc` is set, whether its `m_result_cb` is, the commands
that `uv_async_send` has accepted and those that `uv_write` has. -/
structure Globals where
  service : CanServiceInfoAdmi
  gPipc : Bool
  resultCb : Bool
  asyncs : List (List UInt8)
  wire : List (List UInt8)
  fault : Option Fault

namespace Globals

def new : Globals where
  service := []
  gPipc := false
  resultCb := false
  asyncs := []
  wire := []
  fault := none

/-- The same with what `uv_is_active` answers. -/
def sp (g : Globals) (isActive : Bool) : AnCimSp where
  service := g.service
  gPipc := g.gPipc
  ipc := ⟨isActive, false, g.resultCb, g.wire, g.fault⟩
  asyncs := g.asyncs

def of (c : AnCimSp) : Globals where
  service := c.service
  gPipc := c.gPipc
  resultCb := c.ipc.resultCb
  asyncs := c.asyncs
  wire := c.ipc.wire
  fault := c.ipc.fault

@[simp] theorem of_sp (g : Globals) (isActive : Bool) : of (g.sp isActive) = g := rfl

/-- `on_send_cmd` of the command at `i`. -/
def onSendCmd (g : Globals) (i : Nat) (isActive : Bool) (uvWrite : Int) : Option Globals :=
  (g.asyncs[i]?).map fun data =>
    { g with asyncs := g.asyncs.eraseIdx i, wire := ((g.sp isActive).ipc.write data uvWrite).1.wire }

end Globals

/-! ## The pieces of an entry point -/

/-- What a call does to the registry, and the outcome of that. -/
def onService (api : XfsApi) (service : CanServiceInfoAdmi) : SpiCall → CanServiceInfoAdmi × HResult
  | .wfpDeregister hService dwEventClass hWndReg _ _ => service.deregisterEvent api hService dwEventClass hWndReg
  | .wfpRegister hService dwEventClass hWndReg _ _ => service.registerEvent api hService dwEventClass hWndReg
  | .wfpOpen hService _ _ lpszAppId _ _ _ _ _ _ _ dwSrvcVersionsRequired _ =>
    (service.push hService lpszAppId dwSrvcVersionsRequired, api.wfsSuccess)
  | c => (service, service.findService api c.hService)

/-- What `spi_version_match` says to an Open; the other calls do not ask. -/
def onVersions (api : XfsApi) : SpiCall → HResult
  | .wfpOpen _ _ _ _ _ _ _ _ _ dwSpiVersionsRequired lpSpiVersion dwSrvcVersionsRequired lpSrvcVersion =>
    (spiVersionMatch api dwSpiVersionsRequired dwSrvcVersionsRequired lpSpiVersion lpSrvcVersion).1
  | _ => api.wfsSuccess

/-- The bytes of the command of a call. -/
def serialized (A : Arch) (api : XfsApi) (tick uninit : Dword) (c : SpiCall) : List UInt8 :=
  serializeCmd (c.command A api ⟨tick, uninit, 0, false, 0⟩)

/-! ## Threads -/

inductive Mutex where
  | gMtx | gMutex | mtx
  deriving DecidableEq

/-- A thread of an application, or the worker in `uv_run`. -/
inductive Tid where
  | app (t : Nat)
  | worker
  deriving DecidableEq

/-- What a thread of an application calls. -/
inductive Entry where
  | spi (c : SpiCall)
  | wfpUnloadService
  | anpcStop (bforce : Bool)

/-- What an entry point does under a second mutex, one after the other: its access to the registry, then the calls of
anpc, with the outcome `hr` so far and the bytes of the command. `inside` says that `CanIPC::run` is under way. -/
inductive Piece where
  | service
  | anpcCreateIpc (hr : HResult) (cmd : List UInt8) (inside : Bool)
  | anpcMalloc (hr : HResult) (cmd : List UInt8)
  | anpcSendCmd (hr : HResult) (cmd : List UInt8) (pc : SendPc)
  | anpcCloseIpc (hr : HResult)

def Piece.mutex : Piece → Mutex
  | .service => .mtx
  | _ => .gMutex

/-- Where a thread of an application stands: in no entry point; before the first mutex of one; in one with `g_mtx`
only; before and in a piece of one; about to return; and in `anpc_stop`. -/
inductive AppPc where
  | out
  | calls (e : Entry)
  | unloads
  | entered (c : SpiCall)
  | wants (c : SpiCall) (p : Piece)
  | has (c : SpiCall) (p : Piece)
  | leaves (c : SpiCall) (hr : HResult)
  | stops (bforce inside : Bool)

namespace AppPc

/-- The mutexes that the thread holds. -/
def holds : AppPc → List Mutex
  | .out | .calls _ => []
  | .unloads | .entered _ | .wants _ _ | .leaves _ _ => [.gMtx]
  | .has _ p => [.gMtx, p.mutex]
  | .stops _ _ => [.gMutex]

/-- The mutex that the thread waits for, and where it stands when it has got it. -/
def awaits : AppPc → Option (Mutex × AppPc)
  | .calls (.spi c) => some (.gMtx, .entered c)
  | .calls .wfpUnloadService => some (.gMtx, .unloads)
  | .calls (.anpcStop bforce) => some (.gMutex, .stops bforce false)
  | .wants c p => some (p.mutex, .has c p)
  | _ => none

end AppPc

/-- What is left of a callback that has come to `mtx_`, of the chunk and the result it has read: the service of a
Close that is posted is to be removed, or an event is to be posted. -/
structure Handler (A : Arch) where
  chunk : List UInt8
  mem : Bool
  result : AnXfsResult A
  locked : Bool

structure Threads (A : Arch) where
  owner : Mutex → Option Tid
  app : Nat → AppPc
  handler : Option (Handler A)
  conn : CanIPCRun
  globals : Globals

def Threads.new (A : Arch) : Threads A where
  owner := fun _ => none
  app := fun _ => .out
  handler := none
  conn := .new
  globals := .new

/-- What a step of a thread does not decide itself: `GetTickCount`, the memory that `hApp` of an Open is left with,
`uv_is_active` and what `uv_async_send` returns. -/
structure AppEnv where
  tick : Dword
  uninit : Dword
  isActive : Bool
  uvAsyncSend : Int

inductive SpiEvent (A : Arch) (api : XfsApi) where
  | returned (c : SpiCall) (hr : HResult)
  | posted (m : Message A api)
  | fault (f : Fault)

/-- A call, a step of a thread that is in one, a step of a worker outside the callbacks that follow, `on_send_cmd` of the
command at `i`, `on_read` of a chunk, and what is left of it. -/
inductive ThreadsInput where
  | call (t : Nat) (e : Entry)
  | app (t : Nat) (env : AppEnv)
  | worker (i : ConnectInput)
  | onSendCmd (w i : Nat) (isActive : Bool) (uvWrite : Int)
  | onRead (w : Nat) (chunk : List UInt8) (mem : Bool)
  | handler

/-- The value that `run` returns, if it has returned. -/
def ranOf (e : List ConnectEvent) : Option Int :=
  e.findSome? fun
    | .ran r => some r
    | _ => none

/-- A step of a worker, not of the thread that has `g_mutex`. -/
def ofWorker : ConnectInput → Bool
  | .run | .stop _ | .caller => false
  | _ => true

/-- A callback of `uv_run`, or its return. -/
def inUvRun : ConnectInput → Bool
  | .onConnect .. | .onReadEnd _ | .onClose _ | .leave _ => true
  | _ => false

/-- `uv_loop_init` knows of no handle that was under way. -/
def Globals.onWorker (g : Globals) : ConnectInput → Globals
  | .init _ loopInit _ => if loopInit = 0 then { g with asyncs := [] } else g
  | _ => g

namespace Threads

variable (s : Threads A)

/-- The thread stands somewhere else. -/
def setApp (t : Nat) (pc : AppPc) : Threads A := { s with app := Function.update s.app t pc }

def take (k : Mutex) (t : Tid) : Threads A := { s with owner := Function.update s.owner k (some t) }

def give (k : Mutex) : Threads A := { s with owner := Function.update s.owner k none }

def setConn (conn : CanIPCRun) : Threads A := { s with conn := conn }

def setGlobals (g : Globals) : Threads A := { s with globals := g }

/-- Where a call goes on after its access to the registry. -/
def afterService (A : Arch) (api : XfsApi) (env : AppEnv) (c : SpiCall) (hr : HResult) : AppPc :=
  if hr ≠ 0 ∨ c.type = .wfpUnlock then .leaves c hr
  else if c.type = .wfpOpen then .wants c (.anpcCreateIpc hr (serialized A api env.tick env.uninit c) false)
  else .wants c (.anpcMalloc hr (serialized A api env.tick env.uninit c))

/-- Where a call goes on after `CanIPC::run` has returned. -/
def afterRun (c : SpiCall) (hr : HResult) (cmd : List UInt8) (r : Int) : AppPc :=
  if r = 0 then .wants c (.anpcMalloc hr cmd) else .leaves c hr

/-- Where a call goes on after `anpc_send_cmd` has returned. -/
def afterSend (api : XfsApi) (c : SpiCall) (hr : HResult) (r : Int) : AppPc :=
  if r ≠ 0 then .leaves c api.wfsErrConnectionLost
  else if c.type = .wfpClose then .wants c (.anpcCloseIpc hr)
  else .leaves c hr

/-- A step in a piece of an entry point. -/
def piece (api : XfsApi) (t : Nat) (env : AppEnv) (c : SpiCall) : Piece → Option (Threads A × List (SpiEvent A api))
  | .service =>
    let (service, hr) := onService api s.globals.service c
    some (((s.setGlobals { s.globals with service := service }).give .mtx).setApp t (afterService A api env c hr), [])
  | .anpcCreateIpc hr cmd inside =>
    let g := { s.globals with gPipc := true, resultCb := true }
    (if inside then s.conn.callerStep else some s.conn.run).map fun (conn, e) =>
      match ranOf e with
      | none => (((s.setGlobals g).setConn conn).setApp t (.has c (.anpcCreateIpc hr cmd true)), [])
      | some r => ((((s.setGlobals g).setConn conn).give .gMutex).setApp t (afterRun c hr cmd r), [])
  | .anpcMalloc hr cmd => some ((s.give .gMutex).setApp t (.wants c (.anpcSendCmd hr cmd .isActive)), [])
  | .anpcSendCmd hr cmd .isActive =>
    if s.globals.gPipc = false then some ((s.give .gMutex).setApp t (afterSend api c hr 0), [])
    else if env.isActive = false then some ((s.give .gMutex).setApp t (afterSend api c hr 1), [])
    else some (s.setApp t (.has c (.anpcSendCmd hr cmd .uvAsyncSend)), [])
  | .anpcSendCmd hr cmd .uvAsyncSend =>
    let g := if env.uvAsyncSend = 0 then { s.globals with asyncs := s.globals.asyncs ++ [cmd] } else s.globals
    some (((s.setGlobals g).give .gMutex).setApp t (afterSend api c hr env.uvAsyncSend), [])
  | .anpcCloseIpc hr => some ((s.give .gMutex).setApp t (.leaves c hr), [])

/-- A step in `anpc_stop`. -/
def stopStep (t : Nat) (bforce inside : Bool) : Option (Threads A × List (SpiEvent A api)) :=
  if s.globals.gPipc = false then some ((s.give .gMutex).setApp t .out, [])
  else
    (if inside then s.conn.callerStep else some (s.conn.stop bforce)).map fun (conn, e) =>
      if .stopped ∈ e then (((s.setConn conn).give .gMutex).setApp t .out, [])
      else ((s.setConn conn).setApp t (.stops bforce true), [])

/-- A step of a thread that is in an entry point. -/
def appStep (api : XfsApi) (t : Nat) (env : AppEnv) : Option (Threads A × List (SpiEvent A api)) :=
  match (s.app t).awaits with
  | some (k, pc) => if s.owner k = none then some ((s.take k (.app t)).setApp t pc, []) else none
  | none =>
    match s.app t with
    | .out | .calls _ | .wants _ _ => none
    | .unloads => some ((s.give .gMtx).setApp t .out, [])
    | .entered c =>
      if onVersions api c ≠ api.wfsSuccess then some (s.setApp t (.leaves c (onVersions api c)), [])
      else some (s.setApp t (.wants c .service), [])
    | .has c p => s.piece api t env c p
    | .leaves c hr => some ((s.give .gMtx).setApp t .out, [.returned c hr])
    | .stops bforce inside => s.stopStep t bforce inside

/-- `on_read` of a chunk, up to where `xfs_result_handler` needs `mtx_`. -/
def onRead (api : XfsApi) (chunk : List UInt8) (mem : Bool) : Threads A × List (SpiEvent A api) :=
  match (AnXfsResult.codec A).get chunk with
  | none => (s.setGlobals { s.globals with fault := some .exception }, [.fault .exception])
  | some (r, _) =>
    let eventclass := anGetXfsmessageClass api r.dwMsg
    let waiting := { s with handler := some ⟨chunk, mem, r, false⟩ }
    if s.globals.resultCb = false then (s, [])
    else if eventclass = 0 then
      match sendCompletedMessage api [] r mem with
      | .error f => (s.setGlobals { s.globals with fault := some f }, [.fault f])
      | .ok (_, posts) => (if r.u = api.wfsCloseComplete then waiting else s, posts.map .posted)
    else if eventclass = api.serviceEvents ∨ eventclass = api.systemEvents then (waiting, [])
    else (s, [])

/-- The rest of the callback. -/
def handlerStep (api : XfsApi) (h : Handler A) : Option (Threads A × List (SpiEvent A api)) :=
  let eventclass := anGetXfsmessageClass api h.result.dwMsg
  let done := { s.give .mtx with handler := none }
  if h.locked = false then
    if s.owner .mtx = none then some ({ s.take .mtx .worker with handler := some { h with locked := true } }, [])
    else none
  else if eventclass = 0 then
    some (done.setGlobals
      { s.globals with service := (s.globals.service.closeService api h.result.hService).1 }, [])
  else
    match sendEvents api h.result eventclass h.mem s.globals.service with
    | .error f => some (s.setGlobals { s.globals with fault := some f }, [.fault f])
    | .ok posts => some (done, posts.map .posted)

def step (api : XfsApi) (i : ThreadsInput) : Option (Threads A × List (SpiEvent A api)) :=
  if s.globals.fault ≠ none ∨ s.conn.fault ≠ none then none else
  match i with
  | .call t e =>
    match s.app t with
    | .out => some (s.setApp t (.calls e), [])
    | _ => none
  | .app t env => s.appStep api t env
  | .worker i =>
    if ofWorker i = true ∧ (inUvRun i = true → s.handler.isNone) then
      (connectMachine.step s.conn i).map fun (conn, _) => ((s.setConn conn).setGlobals (s.globals.onWorker i), [])
    else none
  | .onSendCmd w i isActive uvWrite =>
    if (s.conn.workers w).pc = .running ∧ s.handler.isNone then
      (s.globals.onSendCmd i isActive uvWrite).map fun g => (s.setGlobals g, [])
    else none
  | .onRead w chunk mem =>
    if (s.conn.workers w).pc = .running ∧ s.conn.reading = true ∧ s.handler.isNone ∧ chunk ≠ [] then
      some (s.onRead api chunk mem)
    else none
  | .handler => s.handler.bind (s.handlerStep api)

end Threads

def threadsMachine (A : Arch) (api : XfsApi) : Machine (Threads A) ThreadsInput (SpiEvent A api) where
  step := fun s i => s.step api i

/-! ## What a step of an application's thread can do -/

/-- The outcomes of a step of the thread `t`, by where it stands. -/
inductive AppMoved (api : XfsApi) (s : Threads A) (t : Nat) (env : AppEnv) : Threads A → List (SpiEvent A api) → Prop
  | takes (k : Mutex) (pc : AppPc) : (s.app t).awaits = some (k, pc) → s.owner k = none →
      AppMoved api s t env ((s.take k (.app t)).setApp t pc) []
  | unloaded : s.app t = .unloads → AppMoved api s t env ((s.give .gMtx).setApp t .out) []
  | refused (c : SpiCall) : s.app t = .entered c → onVersions api c ≠ api.wfsSuccess →
      AppMoved api s t env (s.setApp t (.leaves c (onVersions api c))) []
  | goesOn (c : SpiCall) : s.app t = .entered c → onVersions api c = api.wfsSuccess →
      AppMoved api s t env (s.setApp t (.wants c .service)) []
  | looked (c : SpiCall) : s.app t = .has c .service →
      AppMoved api s t env
        (((s.setGlobals { s.globals with service := (onService api s.globals.service c).1 }).give .mtx).setApp t
          (Threads.afterService A api env c (onService api s.globals.service c).2)) []
  | runs (c : SpiCall) (hr : HResult) (cmd : List UInt8) (inside : Bool) (conn : CanIPCRun) (e : List ConnectEvent) :
      s.app t = .has c (.anpcCreateIpc hr cmd inside) →
      (if inside then s.conn.callerStep else some s.conn.run) = some (conn, e) → ranOf e = none →
      AppMoved api s t env
        (((s.setGlobals { s.globals with gPipc := true, resultCb := true }).setConn conn).setApp t
          (.has c (.anpcCreateIpc hr cmd true))) []
  | ran (c : SpiCall) (hr : HResult) (cmd : List UInt8) (inside : Bool) (conn : CanIPCRun) (e : List ConnectEvent)
      (r : Int) : s.app t = .has c (.anpcCreateIpc hr cmd inside) →
      (if inside then s.conn.callerStep else some s.conn.run) = some (conn, e) → ranOf e = some r →
      AppMoved api s t env
        ((((s.setGlobals { s.globals with gPipc := true, resultCb := true }).setConn conn).give .gMutex).setApp t
          (Threads.afterRun c hr cmd r)) []
  | allocated (c : SpiCall) (hr : HResult) (cmd : List UInt8) : s.app t = .has c (.anpcMalloc hr cmd) →
      AppMoved api s t env ((s.give .gMutex).setApp t (.wants c (.anpcSendCmd hr cmd .isActive))) []
  | unconnected (c : SpiCall) (hr : HResult) (cmd : List UInt8) : s.app t = .has c (.anpcSendCmd hr cmd .isActive) →
      s.globals.gPipc = false →
      AppMoved api s t env ((s.give .gMutex).setApp t (Threads.afterSend api c hr 0)) []
  | inactive (c : SpiCall) (hr : HResult) (cmd : List UInt8) : s.app t = .has c (.anpcSendCmd hr cmd .isActive) →
      s.globals.gPipc = true →
      AppMoved api s t env ((s.give .gMutex).setApp t (Threads.afterSend api c hr 1)) []
  | active (c : SpiCall) (hr : HResult) (cmd : List UInt8) : s.app t = .has c (.anpcSendCmd hr cmd .isActive) →
      s.globals.gPipc = true →
      AppMoved api s t env (s.setApp t (.has c (.anpcSendCmd hr cmd .uvAsyncSend))) []
  | sent (c : SpiCall) (hr : HResult) (cmd : List UInt8) : s.app t = .has c (.anpcSendCmd hr cmd .uvAsyncSend) →
      AppMoved api s t env
        (((s.setGlobals { s.globals with asyncs := s.globals.asyncs ++ [cmd] }).give .gMutex).setApp t
          (Threads.afterSend api c hr 0)) []
  | unsent (c : SpiCall) (hr : HResult) (cmd : List UInt8) (r : Int) :
      s.app t = .has c (.anpcSendCmd hr cmd .uvAsyncSend) → r ≠ 0 →
      AppMoved api s t env ((s.give .gMutex).setApp t (Threads.afterSend api c hr r)) []
  | closed (c : SpiCall) (hr : HResult) : s.app t = .has c (.anpcCloseIpc hr) →
      AppMoved api s t env ((s.give .gMutex).setApp t (.leaves c hr)) []
  | left (c : SpiCall) (hr : HResult) : s.app t = .leaves c hr →
      AppMoved api s t env ((s.give .gMtx).setApp t .out) [.returned c hr]
  | stopsNothing (bforce inside : Bool) : s.app t = .stops bforce inside → s.globals.gPipc = false →
      AppMoved api s t env ((s.give .gMutex).setApp t .out) []
  | stopped (bforce inside : Bool) (conn : CanIPCRun) (e : List ConnectEvent) : s.app t = .stops bforce inside →
      (if inside then s.conn.callerStep else some (s.conn.stop bforce)) = some (conn, e) → .stopped ∈ e →
      AppMoved api s t env (((s.setConn conn).give .gMutex).setApp t .out) []
  | stops (bforce inside : Bool) (conn : CanIPCRun) (e : List ConnectEvent) : s.app t = .stops bforce inside →
      (if inside then s.conn.callerStep else some (s.conn.stop bforce)) = some (conn, e) → .stopped ∉ e →
      AppMoved api s t env ((s.setConn conn).setApp t (.stops bforce true)) []

/-- The outcomes of `on_read` of a chunk. -/
inductive ReadMoved (api : XfsApi) (s : Threads A) (chunk : List UInt8) (mem : Bool) :
    Threads A → List (SpiEvent A api) → Prop
  | throws : (AnXfsResult.codec A).get chunk = none →
      ReadMoved api s chunk mem (s.setGlobals { s.globals with fault := some .exception }) [.fault .exception]
  | unheard (r : AnXfsResult A) (rest : List UInt8) : (AnXfsResult.codec A).get chunk = some (r, rest) →
      s.globals.resultCb = false → ReadMoved api s chunk mem s []
  | throwsLater (r : AnXfsResult A) (rest : List UInt8) (f : Fault) :
      (AnXfsResult.codec A).get chunk = some (r, rest) → s.globals.resultCb = true →
      anGetXfsmessageClass api r.dwMsg = 0 → sendCompletedMessage api [] r mem = .error f →
      ReadMoved api s chunk mem (s.setGlobals { s.globals with fault := some f }) [.fault f]
  | completes (r : AnXfsResult A) (rest : List UInt8) (service : CanServiceInfoAdmi) (posts : List (Message A api)) :
      (AnXfsResult.codec A).get chunk = some (r, rest) → s.globals.resultCb = true →
      anGetXfsmessageClass api r.dwMsg = 0 → sendCompletedMessage api [] r mem = .ok (service, posts) →
      r.u ≠ api.wfsCloseComplete → ReadMoved api s chunk mem s (posts.map .posted)
  | closes (r : AnXfsResult A) (rest : List UInt8) (service : CanServiceInfoAdmi) (posts : List (Message A api)) :
      (AnXfsResult.codec A).get chunk = some (r, rest) → s.globals.resultCb = true →
      anGetXfsmessageClass api r.dwMsg = 0 → sendCompletedMessage api [] r mem = .ok (service, posts) →
      r.u = api.wfsCloseComplete →
      ReadMoved api s chunk mem { s with handler := some ⟨chunk, mem, r, false⟩ } (posts.map .posted)
  | occurs (r : AnXfsResult A) (rest : List UInt8) : (AnXfsResult.codec A).get chunk = some (r, rest) →
      s.globals.resultCb = true → anGetXfsmessageClass api r.dwMsg ≠ 0 →
      (anGetXfsmessageClass api r.dwMsg = api.serviceEvents ∨ anGetXfsmessageClass api r.dwMsg = api.systemEvents) →
      ReadMoved api s chunk mem { s with handler := some ⟨chunk, mem, r, false⟩ } []
  | ignored (r : AnXfsResult A) (rest : List UInt8) : (AnXfsResult.codec A).get chunk = some (r, rest) →
      s.globals.resultCb = true → anGetXfsmessageClass api r.dwMsg ≠ 0 →
      ¬ (anGetXfsmessageClass api r.dwMsg = api.serviceEvents ∨ anGetXfsmessageClass api r.dwMsg = api.systemEvents) →
      ReadMoved api s chunk mem s []

/-- The outcomes of the rest of the callback. -/
inductive HandlerMoved (api : XfsApi) (s : Threads A) (h : Handler A) : Threads A → List (SpiEvent A api) → Prop
  | takes : h.locked = false → s.owner .mtx = none →
      HandlerMoved api s h { s.take .mtx .worker with handler := some { h with locked := true } } []
  | closes : h.locked = true → anGetXfsmessageClass api h.result.dwMsg = 0 →
      HandlerMoved api s h
        (Threads.setGlobals { s.give .mtx with handler := none }
          { s.globals with service := (s.globals.service.closeService api h.result.hService).1 }) []
  | throws (f : Fault) : h.locked = true → anGetXfsmessageClass api h.result.dwMsg ≠ 0 →
      sendEvents api h.result (anGetXfsmessageClass api h.result.dwMsg) h.mem s.globals.service = .error f →
      HandlerMoved api s h (s.setGlobals { s.globals with fault := some f }) [.fault f]
  | sends (posts : List (Message A api)) : h.locked = true → anGetXfsmessageClass api h.result.dwMsg ≠ 0 →
      sendEvents api h.result (anGetXfsmessageClass api h.result.dwMsg) h.mem s.globals.service = .ok posts →
      HandlerMoved api s h { s.give .mtx with handler := none } (posts.map .posted)

/-- The outcomes of a step, by input. -/
inductive ThreadsMoved (api : XfsApi) (s : Threads A) :
    ThreadsInput → Threads A → List (SpiEvent A api) → Prop
  | called (t : Nat) (e : Entry) : s.app t = .out → ThreadsMoved api s (.call t e) (s.setApp t (.calls e)) []
  | app {t : Nat} {env : AppEnv} {s' : Threads A} {e : List (SpiEvent A api)} : AppMoved api s t env s' e →
      ThreadsMoved api s (.app t env) s' e
  | worked {i : ConnectInput} {conn : CanIPCRun} {e : List ConnectEvent} : ofWorker i = true →
      (inUvRun i = true → s.handler = none) → connectMachine.step s.conn i = some (conn, e) →
      ThreadsMoved api s (.worker i) ((s.setConn conn).setGlobals (s.globals.onWorker i)) []
  | wrote {w i : Nat} {isActive : Bool} {uvWrite : Int} {g : Globals} : (s.conn.workers w).pc = .running →
      s.handler = none → s.globals.onSendCmd i isActive uvWrite = some g →
      ThreadsMoved api s (.onSendCmd w i isActive uvWrite) (s.setGlobals g) []
  | read {w : Nat} {chunk : List UInt8} {mem : Bool} {s' : Threads A} {e : List (SpiEvent A api)} :
      (s.conn.workers w).pc = .running → s.handler = none → ReadMoved api s chunk mem s' e →
      ThreadsMoved api s (.onRead w chunk mem) s' e
  | handled {h : Handler A} {s' : Threads A} {e : List (SpiEvent A api)} : s.handler = some h →
      HandlerMoved api s h s' e → ThreadsMoved api s .handler s' e

namespace Threads

variable {s s' : Threads A} {t : Nat} {env : AppEnv} {e : List (SpiEvent A api)}

theorem piece_moved {c : SpiCall} {p : Piece} (hp : s.app t = .has c p) (h : s.piece api t env c p = some (s', e)) :
    AppMoved api s t env s' e := by
  cases p with
  | service =>
    cases h
    exact .looked c hp
  | anpcCreateIpc hr cmd inside =>
    obtain ⟨⟨conn, e'⟩, hc, h⟩ := Option.map_eq_some_iff.1 h
    simp only at h
    split at h <;> cases h
    · rename_i hran
      exact .runs c hr cmd inside conn e' hp hc hran
    · rename_i r hran
      exact .ran c hr cmd inside conn e' r hp hc hran
  | anpcMalloc hr cmd =>
    cases h
    exact .allocated c hr cmd hp
  | anpcSendCmd hr cmd pc =>
    cases pc with
    | isActive =>
      simp only [piece] at h
      split at h
      · rename_i hg
        cases h
        exact .unconnected c hr cmd hp hg
      rename_i hg
      have hg : s.globals.gPipc = true := by simpa using hg
      split at h <;> cases h
      · exact .inactive c hr cmd hp hg
      · exact .active c hr cmd hp hg
    | uvAsyncSend =>
      simp only [piece] at h
      by_cases hr0 : env.uvAsyncSend = 0
      · simp only [hr0, if_true] at h
        cases h
        exact .sent c hr cmd hp
      · simp only [if_neg hr0] at h
        cases h
        exact .unsent c hr cmd _ hp hr0
  | anpcCloseIpc hr =>
    cases h
    exact .closed c hr hp

theorem stopStep_moved {bforce inside : Bool} (hp : s.app t = .stops bforce inside)
    (h : s.stopStep t bforce inside = some (s', e)) : AppMoved api s t env s' e := by
  unfold stopStep at h
  split at h
  · rename_i hg
    cases h
    exact .stopsNothing bforce inside hp hg
  · obtain ⟨⟨conn, e'⟩, hc, h⟩ := Option.map_eq_some_iff.1 h
    simp only at h
    split at h <;> cases h
    · rename_i hm
      exact .stopped bforce inside conn e' hp hc hm
    · rename_i hm
      exact .stops bforce inside conn e' hp hc hm

theorem appStep_moved (h : s.appStep api t env = some (s', e)) : AppMoved api s t env s' e := by
  unfold appStep at h
  split at h
  · rename_i k pc hw
    obtain ⟨hk, h⟩ := Option.ite_none_right_eq_some.1 h
    cases h
    exact .takes k pc hw hk
  split at h
  · cases h
  · cases h
  · cases h
  · rename_i hp
    cases h
    exact .unloaded hp
  · rename_i c hp
    split at h <;> cases h
    · rename_i hv
      exact .refused c hp hv
    · rename_i hv
      exact .goesOn c hp (not_not.1 hv)
  · rename_i c p hp
    exact piece_moved hp h
  · rename_i c hr hp
    cases h
    exact .left c hr hp
  · rename_i bforce inside hp
    exact stopStep_moved hp h

theorem onRead_moved (chunk : List UInt8) (mem : Bool) :
    ReadMoved api s chunk mem (s.onRead api chunk mem).1 (s.onRead api chunk mem).2 := by
  unfold onRead
  split
  · rename_i hget
    exact .throws hget
  rename_i r rest hget
  simp only
  split
  · rename_i hcb
    exact .unheard r rest hget hcb
  rename_i hcb
  have hcb : s.globals.resultCb = true := by simpa using hcb
  split
  · rename_i hclass
    split
    · rename_i f hf
      exact .throwsLater r rest f hget hcb hclass hf
    · rename_i service posts hposts
      split
      · rename_i hu
        exact .closes r rest service posts hget hcb hclass hposts hu
      · rename_i hu
        exact .completes r rest service posts hget hcb hclass hposts hu
  rename_i hclass
  split
  · rename_i hevent
    exact .occurs r rest hget hcb hclass hevent
  · rename_i hevent
    exact .ignored r rest hget hcb hclass hevent

theorem handlerStep_moved {h : Handler A} (hs : s.handlerStep api h = some (s', e)) : HandlerMoved api s h s' e := by
  unfold handlerStep at hs
  simp only at hs
  split at hs
  · rename_i hl
    obtain ⟨ho, hs⟩ := Option.ite_none_right_eq_some.1 hs
    cases hs
    exact .takes hl ho
  rename_i hl
  have hl : h.locked = true := by simpa using hl
  split at hs
  · rename_i hclass
    cases hs
    exact .closes hl hclass
  rename_i hclass
  split at hs <;> cases hs
  · rename_i f hf
    exact .throws f hl hclass hf
  · rename_i posts hposts
    exact .sends posts hl hclass hposts

/-- A step has one of the outcomes of `ThreadsMoved`, and is taken only while nothing has gone wrong. -/
theorem threads_moved {i : ThreadsInput} (h : (threadsMachine A api).step s i = some (s', e)) :
    s.globals.fault = none ∧ s.conn.fault = none ∧ ThreadsMoved api s i s' e := by
  simp only [threadsMachine, step] at h
  split at h
  · cases h
  rename_i hf
  rw [not_or, not_not, not_not] at hf
  refine ⟨hf.1, hf.2, ?_⟩
  cases i with
  | call t entry =>
    simp only at h
    split at h
    · rename_i hp
      cases h
      exact .called t entry hp
    · cases h
  | app t env => exact .app (appStep_moved h)
  | worker i =>
    obtain ⟨hi, h⟩ := Option.ite_none_right_eq_some.1 h
    obtain ⟨⟨conn, e'⟩, hc, h⟩ := Option.map_eq_some_iff.1 h
    cases h
    exact .worked hi.1 (fun hu => by simpa using hi.2 hu) hc
  | onSendCmd w i isActive uvWrite =>
    obtain ⟨hi, h⟩ := Option.ite_none_right_eq_some.1 h
    obtain ⟨g, hg, h⟩ := Option.map_eq_some_iff.1 h
    cases h
    exact .wrote hi.1 (by simpa using hi.2) hg
  | onRead w chunk mem =>
    obtain ⟨hi, h⟩ := Option.ite_none_right_eq_some.1 h
    have hm := @onRead_moved A api s chunk mem
    rw [Option.some.inj h] at hm
    exact .read hi.1 (by simpa using hi.2.2.1) hm
  | handler =>
    obtain ⟨hd, hh, h⟩ := Option.bind_eq_some_iff.1 h
    exact .handled hh (handlerStep_moved h)

end Threads

end AnXfs.System
