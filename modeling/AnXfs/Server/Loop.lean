/-
The server's loop thread (`CanIPCServer.cpp`) over the executor: connections and the memory they
live in, the callbacks that libuv makes, and the notices and writes under way between them. A
connection has an identity of its own next to its address, so that a pointer to a connection that is
gone, or to another one at the same address, is seen for what it is.

libuv is assumed to deliver what it was given, in any order: a notice to `on_notify`, a write to
`on_write`, a read only on a connection that is not closing, and `on_close` after the writes under
way on the connection have been reported. After `uv_stop` the loop may still finish what its
iteration has begun.
-/
import AnXfs.Server.Queue

namespace AnXfs.Server

open AnXfs.Wire AnXfs.Pack AnXfs.Run

variable {A : Arch} {api : XfsApi}

/-! ## State -/

/-- A `uv_pipe_t` that `on_new_connection` allocated. -/
structure Pipe where
  id : ConnId
  closing : Bool
  deriving DecidableEq

/-- A `uv_write_t` handed to libuv: the connection and the notice in its `data`. -/
structure WriteReq where
  handle : Addr
  notice : Notice
  deriving DecidableEq

/-- `CanIPCServer` and the loop it runs: `mem` is the memory of the connections, `asyncs` and `writes`
the notices and writes that the loop has not reported yet, `handleClosing` says that `m_handle` has
been passed to `uv_close`. -/
structure CanIPCServer (A : Arch) (api : XfsApi) where
  exec : Executer A api
  clientVector : List (Option Addr)
  mem : Addr → Option Pipe
  nextId : ConnId
  asyncs : List Notice
  writes : List WriteReq
  handleClosing : Bool
  stopped : Bool
  exited : Bool
  fault : Option Fault

/-- The server when `run` enters the loop. -/
def CanIPCServer.new (x : CanXfs A api) : CanIPCServer A api where
  exec := Executer.new x
  clientVector := []
  mem := fun _ => none
  nextId := 0
  asyncs := []
  writes := []
  handleClosing := false
  stopped := false
  exited := false
  fault := none

/-- What the server does that its clients, its memory or a reader of its log would notice: `touched` is a call of
`uv_is_closing`, `uvWrite` one of `uv_write`, `wrote` a write that libuv took. -/
inductive Event (A : Arch) where
  | exec (e : ExecEvent A)
  | accepted (conn : ConnId)
  | read (conn : ConnId) (chunk : List UInt8)
  | dispatched (conn : ConnId) (m : AnCmd A)
  | freed (conn : ConnId)
  | closed (conn : ConnId)
  | posted (n : Notice)
  | notified (n : Notice)
  | touched (addr : Addr) (found : Option ConnId) (n : Notice)
  | uvWrite (addr : Addr) (found : Option ConnId) (n : Notice)
  | wrote (conn : ConnId) (n : Notice)
  | cloned (n : Notice)
  | released (n : Notice)
  | exit (serviceTable : List HService)
  | fault (conn : Option ConnId) (f : Fault)
  deriving DecidableEq

namespace CanIPCServer

variable (s : CanIPCServer A api)

def fail (conn : Option ConnId) (f : Fault) : CanIPCServer A api × List (Event A) :=
  ({ s with fault := some f }, [.fault conn f])

/-- No thread has run into a fault. -/
def alive : Bool := s.fault = none ∧ s.exec.fault = none

/-! ## Connections -/

/-- `on_new_connection`: `addr` is where the new pipe is allocated, `accept` what `uv_accept` returns. A
pipe that could not be accepted is deleted although the loop has yet to close it. -/
def onNewConnection (status : Int) (addr : Addr) (accept : Int) : CanIPCServer A api × List (Event A) :=
  if status < 0 then
    if s.handleClosing then s.fail none .closedTwice else ({ s with handleClosing := true }, [])
  else if accept = 0 then
    ({ s with
        mem := Function.update s.mem addr (some ⟨s.nextId, false⟩)
        nextId := s.nextId + 1
        clientVector := s.clientVector ++ [some addr] }, [.accepted s.nextId])
  else s.fail none .useAfterFree

/-- `erase_client_vector`: the first entry that holds the client is released, and stays behind as null. -/
def eraseClientVector (client : Addr) : List (Option Addr) → List (Option Addr)
  | [] => []
  | it :: rest => if it = some client then none :: rest else it :: eraseClientVector client rest

/-- `on_close` of a connection. -/
def onClose (handle : Addr) (conn : ConnId) : CanIPCServer A api × List (Event A) :=
  if some handle ∈ s.clientVector then
    ({ s with clientVector := eraseClientVector handle s.clientVector, mem := Function.update s.mem handle none },
      [.closed conn])
  else (s, [.closed conn])

/-! ## Reading -/

/-- `on_read` of a chunk. -/
def onRead (client : Addr) (conn : ConnId) (chunk : List UInt8) (now : AnSystemtime) :
    CanIPCServer A api × List (Event A) :=
  match readCmd chunk with
  | .error f =>
    let (t, e) := s.fail (some conn) f
    (t, .read conn chunk :: e)
  | .ok (cmd, _) =>
    if cmd.eType = AnWfpType.wfpGetInfo.code then
      match spiGetinfo s.exec.xfs cmd (some client) (some conn) now with
      | .error f =>
        let (t, e) := s.fail (some conn) f
        (t, .read conn chunk :: e)
      | .ok n =>
        ({ s with asyncs := s.asyncs ++ [n] }, [.read conn chunk, .dispatched conn cmd, .posted n, .freed conn])
    else
      let (x, e) := s.exec.pushBackCmdDeque (some client) (some conn) cmd
      ({ s with exec := x }, .read conn chunk :: .dispatched conn cmd :: e.map .exec ++ [.freed conn])

/-- `on_read` of an error or the end of the stream. -/
def onReadError (client : Addr) (p : Pipe) : CanIPCServer A api × List (Event A) :=
  if p.closing then (s, [.freed p.id])
  else ({ s with mem := Function.update s.mem client (some { p with closing := true }) }, [.freed p.id])

/-! ## Notices -/

/-- `send_notify`. `uvWrite` is what `uv_write` returns on each connection; where the connection's memory
is gone, `garbage` is what `uv_is_closing` makes of the bytes found there, and writing to them does
not end well. -/
def sendNotify (client : Addr) (n : Notice) (uvWrite : Addr → Int) (garbage : Bool) :
    CanIPCServer A api × List (Event A) × Int :=
  match s.mem client with
  | none =>
    if garbage then (s, [.touched client none n], 0)
    else
      let (t, e) := s.fail none .useAfterFree
      (t, .touched client none n :: .uvWrite client none n :: e, 0)
  | some p =>
    if p.closing then (s, [.touched client (some p.id) n], 0)
    else if uvWrite client = 0 then
      ({ s with writes := s.writes ++ [⟨client, n⟩] },
        [.touched client (some p.id) n, .uvWrite client (some p.id) n, .wrote p.id n], 0)
    else (s, [.touched client (some p.id) n, .uvWrite client (some p.id) n], uvWrite client)

/-- `an_notice_result::clone`. -/
def clone (n : Notice) : Notice := { n with client := none }

/-- `broadcast_notify`, over the entries of `s_client_vector`: a clone for every entry, also for those
that are null. -/
def broadcastNotify (n : Notice) (uvWrite : Addr → Int) (garbage : Bool) :
    CanIPCServer A api → List (Option Addr) → CanIPCServer A api × List (Event A)
  | s, [] => (s, [])
  | s, none :: v =>
    let (t, e) := broadcastNotify n uvWrite garbage s v
    (t, .cloned (clone n) :: e)
  | s, some a :: v =>
    let (s1, e1, r) := s.sendNotify a (clone n) uvWrite garbage
    let e1 := .cloned (clone n) :: e1 ++ if r ≠ 0 then [.released (clone n)] else []
    if s1.fault ≠ none then (s1, e1)
    else
      let (t, e) := broadcastNotify n uvWrite garbage s1 v
      (t, e1 ++ e)

/-- `on_notify`. -/
def onNotify (n : Notice) (uvWrite : Addr → Int) (garbage : Bool) : CanIPCServer A api × List (Event A) :=
  match n.client with
  | none =>
    let (t, e) := broadcastNotify n uvWrite garbage s s.clientVector
    (t, .notified n :: e ++ [.released n])
  | some a =>
    let (t, e, r) := s.sendNotify a n uvWrite garbage
    (t, .notified n :: e ++ if r ≠ 0 then [.released n] else [])

/-- `notify_exit_server`: the loop is stopped and `m_handle` closed. -/
def notifyExitServer : CanIPCServer A api × List (Event A) :=
  let t := { s with stopped := true }
  if s.handleClosing then
    let (t, e) := t.fail none .closedTwice
    (t, .exit s.exec.xfs.serviceTable :: e)
  else ({ t with handleClosing := true }, [.exit s.exec.xfs.serviceTable])

/-- `on_write`. The server is found through the connection, whose memory must still be there. -/
def onWrite (req : WriteReq) (status : Int) : CanIPCServer A api × List (Event A) :=
  -- a write that failed is logged; its notice is not looked at
  if status < 0 then (s, [])
  else if req.notice.notifyExitFlag then
    match req.notice.client with
    | none => s.fail none .nullPointer
    | some a =>
      match s.mem a with
      | none => s.fail none .useAfterFree
      | some _ =>
        let (t, e) := s.notifyExitServer
        (t, e ++ [.released req.notice])
  else (s, [.released req.notice])

end CanIPCServer

/-! ## The machine -/

/-- What can happen next: a callback of the loop with what libuv decides about it, a step of one of the
two other threads, or `uv_run` returning after `uv_stop`. -/
inductive Input where
  | newConnection (status : Int) (addr : Addr) (accept : Int)
  | read (addr : Addr) (chunk : List UInt8) (now : AnSystemtime)
  | readError (addr : Addr)
  | closed (addr : Addr)
  | notify (i : Nat) (uvWrite : Addr → Int) (garbage : Bool)
  | write (i : Nat) (status : Int)
  | run (now : AnSystemtime)
  | idle (now : AnSystemtime) (online : Bool)
  | itemCheck (now : AnSystemtime)
  | loopExit

/-- The step of a thread other than the loop's that an input stands for. -/
def Input.exec? (A : Arch) : Input → Option (ExecInput A)
  | .run now => some (.run now)
  | .idle now online => some (.idle now online)
  | .itemCheck now => some (.itemCheck now)
  | _ => none

/-- The notices among the events of the executor's threads. -/
def noticesOf (es : List (ExecEvent A)) : List Notice :=
  es.filterMap fun
    | .posted n => some n
    | .broadcast n => some n
    | _ => none

namespace CanIPCServer

variable (s : CanIPCServer A api)

/-- A step of a thread of the executor: its notices go to the loop. -/
def execStep (i : ExecInput A) : Option (CanIPCServer A api × List (Event A)) :=
  (s.exec.step i).map fun (x, e) => ({ s with exec := x, asyncs := s.asyncs ++ noticesOf e }, e.map .exec)

/-- A callback of the loop. -/
def loopStep (i : Input) : Option (CanIPCServer A api × List (Event A)) :=
  match i with
  | .newConnection status addr accept =>
    if s.mem addr = none ∧ s.handleClosing = false then some (s.onNewConnection status addr accept) else none
  | .read addr chunk now =>
    match s.mem addr with
    | none => none
    | some p => if p.closing = false ∧ chunk ≠ [] then some (s.onRead addr p.id chunk now) else none
  | .readError addr => (s.mem addr).map fun p => s.onReadError addr p
  | .closed addr =>
    match s.mem addr with
    | none => none
    | some p =>
      if p.closing = true ∧ ∀ w ∈ s.writes, w.handle ≠ addr then some (s.onClose addr p.id) else none
  | .notify i uvWrite garbage =>
    (s.asyncs[i]?).map fun n => { s with asyncs := s.asyncs.eraseIdx i }.onNotify n uvWrite garbage
  | .write i status => (s.writes[i]?).map fun w => { s with writes := s.writes.eraseIdx i }.onWrite w status
  | .loopExit => if s.stopped then some ({ s with exited := true }, []) else none
  | _ => none

def step (i : Input) : Option (CanIPCServer A api × List (Event A)) :=
  if s.alive = false then none else
  match i.exec? A with
  | some j => s.execStep j
  | none => if s.exited then none else s.loopStep i

end CanIPCServer

def serverMachine (A : Arch) (api : XfsApi) : Machine (CanIPCServer A api) Input (Event A) where
  step := CanIPCServer.step

end AnXfs.Server
