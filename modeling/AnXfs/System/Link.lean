/-
One client and the server over a connection that stays up. The transport is idealised: every read, at
either end, returns one whole message, and no write fails. The client's calls, its loop, the server's
loop, its executor and its item check take steps in any order.
-/
import AnXfs.Client.Spi
import AnXfs.Server.Robust
import AnXfs.Server.Streams

namespace AnXfs.System

open AnXfs.Wire AnXfs.Pack AnXfs.Run AnXfs.Server AnXfs.Client

variable {A : Arch} {api : XfsApi}

/-! ## State -/

/-- Both ends of the connection, which the server keeps at the address `conn`; `toClient` are the messages
that the server has written and the client has not read. Those under way to the server are on the
client's wire. -/
structure Link (A : Arch) (api : XfsApi) where
  client : AnCimSp
  server : CanIPCServer A api
  conn : Addr
  toClient : List (List UInt8)
  fault : Option Fault

/-- The two ends right after the connection was made, with the proxy `x`. -/
def Link.new (x : CanXfs A api) (conn : Addr) : Link A api where
  client := { service := [], gPipc := true, ipc := CanIPC.connected, asyncs := [] }
  server := ((CanIPCServer.new x).onNewConnection 0 conn 0).1
  conn := conn
  toClient := []
  fault := none

/-- The connection is the first that the server accepted. -/
def Link.id : ConnId := 0

/-- What happens next: a call by an application, `on_send_cmd` of the command at `i`, a read at either end,
a delivery of the notice or the report of the write at `i`, or a step of another thread of the server.
`mem` is whether the XFS manager has memory for the messages that a read makes the client post. -/
inductive LinkInput where
  | call (c : SpiCall) (env : CallEnv)
  | sendCmd (i : Nat)
  | serverRead (now : AnSystemtime)
  | notify (i : Nat)
  | written (i : Nat)
  | run (now : AnSystemtime)
  | idle (now : AnSystemtime) (online : Bool)
  | itemCheck (now : AnSystemtime)
  | loopExit
  | clientRead (mem : Bool)

inductive LinkEvent (A : Arch) (api : XfsApi) where
  | called (c : SpiCall) (hr : HResult)
  | server (e : Event A)
  | posted (m : Message A api)
  | fault (f : Fault)

/-- The step of the server that an input stands for: every `uv_write` and every write succeeds. -/
def LinkInput.server? : LinkInput → Option Input
  | .notify i => some (.notify i (fun _ => 0) false)
  | .written i => some (.write i 0)
  | .run now => some (.run now)
  | .idle now online => some (.idle now online)
  | .itemCheck now => some (.itemCheck now)
  | .loopExit => some .loopExit
  | _ => none

/-! ## Steps -/

/-- `CanIPC::on_read` of the client with `xfs_result_handler` as its callback. -/
def onClientRead (A : Arch) (api : XfsApi) (c : AnCimSp) (chunk : List UInt8) (mem : Bool) :
    Except Fault (AnCimSp × List (Message A api)) :=
  let (ipc, e) := c.ipc.onRead A chunk
  match ipc.fault, resultsOf e with
  | some f, _ => .error f
  | none, [] => .ok ({ c with ipc := ipc }, [])
  | none, r :: _ =>
    (xfsResultHandler api c.service r mem).map fun (service, posts) =>
      ({ c with ipc := ipc, service := service }, posts)

namespace Link

variable (s : Link A api)

/-- A step of the server, whose writes go on their way to the client. -/
def serverStep (i : Input) : Option (Link A api × List (LinkEvent A api)) :=
  (s.server.step i).map fun (t, e) =>
    ({ s with server := t, toClient := s.toClient ++ (on Link.id (wroteOf e)).map Notice.buf }, e.map .server)

/-- The rest of the wire when its first message has been read. -/
def readWire (rest : List (List UInt8)) : Link A api :=
  { s with client := { s.client with ipc := { s.client.ipc with wire := rest } } }

def step (i : LinkInput) : Option (Link A api × List (LinkEvent A api)) :=
  if s.fault ≠ none then none else
  match i with
  | .call c env =>
    -- where the worker runs already `CanIPC::run` has nothing to do and returns 0
    if env.run = 0 ∧ env.active = s.client.ipc.active then
      let (client, hr) := c.invoke A api s.client env
      some ({ s with client := client }, [.called c hr])
    else none
  | .sendCmd i =>
    (s.client.asyncs[i]?).map fun data =>
      ({ s with
          client := { s.client with asyncs := s.client.asyncs.eraseIdx i, ipc := (s.client.ipc.write data 0).1 } }, [])
  | .serverRead now =>
    match s.client.ipc.wire with
    | [] => none
    | chunk :: rest => (s.readWire rest).serverStep (.read s.conn chunk now)
  | .clientRead mem =>
    match s.toClient with
    | [] => none
    | chunk :: rest =>
      match onClientRead A api s.client chunk mem with
      | .error f => some ({ s with toClient := rest, fault := some f }, [.fault f])
      | .ok (client, posts) => some ({ s with toClient := rest, client := client }, posts.map .posted)
  | i => i.server?.bind s.serverStep

end Link

def linkMachine (A : Arch) (api : XfsApi) : Machine (Link A api) LinkInput (LinkEvent A api) where
  step := Link.step

/-- Nothing is under way: no command on the client's loop or on the wire, none in the deque, no notice
undelivered and none unread. -/
structure Link.Drained (s : Link A api) : Prop where
  asyncs : s.client.asyncs = []
  wire : s.client.ipc.wire = []
  deque : s.server.exec.deque = []
  notices : s.server.asyncs = []
  toClient : s.toClient = []

/-! ## Requests and completions -/

/-- A completion as the application sees it: the window, the message, and the service and request id of the
`WFSRESULT` that comes with it. -/
structure Completion where
  hWnd : Dword
  dwMsg : Dword
  request : Option (HService × RequestId)
  deriving DecidableEq

/-- The message that the specification has for a request; none for the two synchronous calls. -/
def completeMsg (api : XfsApi) : SpiCall → Option Dword
  | .wfpCancelAsyncRequest .. | .wfpSetTraceLevel .. => none
  | .wfpClose .. => some api.wfsCloseComplete
  | .wfpDeregister .. => some api.wfsDeregisterComplete
  | .wfpExecute .. => some api.wfsExecuteComplete
  | .wfpGetInfo .. => some api.wfsGetinfoComplete
  | .wfpLock .. => some api.wfsLockComplete
  | .wfpOpen .. => some api.wfsOpenComplete
  | .wfpRegister .. => some api.wfsRegisterComplete
  | .wfpUnlock .. => some api.wfsUnlockComplete

/-- The completion that a request must cause. -/
def expected (api : XfsApi) (c : SpiCall) : Option Completion :=
  (completeMsg api c).map fun msg => ⟨c.hWnd, msg, some (c.hService, c.reqId)⟩

/-- The calls that returned `WFS_SUCCESS`. -/
def callsOf (h : List (LinkEvent A api)) : List SpiCall :=
  h.filterMap fun
    | .called c hr => if hr = api.wfsSuccess then some c else none
    | _ => none

/-- A message posted as a completion. -/
def completionOf (m : Message A api) : Option Completion :=
  if anGetXfsmessageClass api m.dwMsg = 0 then
    some ⟨m.hWnd, m.dwMsg, m.lParam.map fun r => (r.hService, r.requestId)⟩
  else none

/-- The completions that were posted. -/
def completionsOf (h : List (LinkEvent A api)) : List Completion :=
  h.filterMap fun
    | .posted m => completionOf m
    | _ => none

/-- The events of the server. -/
def serverOf (h : List (LinkEvent A api)) : List (Event A) :=
  h.filterMap fun
    | .server e => some e
    | _ => none

section Append

variable (g h : List (LinkEvent A api))

@[simp] theorem callsOf_append : callsOf (g ++ h) = callsOf g ++ callsOf h := List.filterMap_append ..
@[simp] theorem completionsOf_append : completionsOf (g ++ h) = completionsOf g ++ completionsOf h :=
  List.filterMap_append ..
@[simp] theorem serverOf_append : serverOf (g ++ h) = serverOf g ++ serverOf h := List.filterMap_append ..

end Append

/-- The events of a step of the server are no calls and no posts. -/
theorem ofServer (api : XfsApi) (e : List (Event A)) :
    callsOf (e.map .server : List (LinkEvent A api)) = [] ∧
      completionsOf (e.map .server : List (LinkEvent A api)) = [] ∧
      serverOf (e.map .server : List (LinkEvent A api)) = e := by
  induction e with
  | nil => exact ⟨rfl, rfl, rfl⟩
  | cons x e ih =>
    obtain ⟨h1, h2, h3⟩ := ih
    exact ⟨h1, h2, congrArg (x :: ·) h3⟩

end AnXfs.System
