/-
Any number of clients and the one server, which has one deque, one executor and one loop for all of them. The clients
connect and leave when they like; as long as a client is there the transport is idealised as for the link of a single
one, and what a client does on its own it does as there. When it has left, the server may still read what it had
written, and then learns that it has gone.
-/
import AnXfs.System.Link

namespace AnXfs.System

open AnXfs.Wire AnXfs.Pack AnXfs.Run AnXfs.Server AnXfs.Client

variable {A : Arch} {api : XfsApi}

/-! ## State -/

/-- A client and its connection: the address at which the server keeps it, and the messages that the server has
written to it and the client has not read. The client has `gone` when its process has ended. -/
structure Peer where
  client : AnCimSp
  conn : Addr
  toClient : List (List UInt8)
  gone : Bool

/-- The clients, by the connections that the server has accepted and not erased, and the server. -/
structure Net (A : Arch) (api : XfsApi) where
  peer : ConnId → Option Peer
  server : CanIPCServer A api
  fault : Option Fault

/-- The server with the proxy `x`, and no client yet. -/
def Net.new (x : CanXfs A api) : Net A api where
  peer := fun _ => none
  server := CanIPCServer.new x
  fault := none

/-- A client right after its connection was made, which the server keeps at `conn`. -/
def Peer.new (conn : Addr) : Peer where
  client := { service := [], gPipc := true, ipc := CanIPC.connected, asyncs := [] }
  conn := conn
  toClient := []
  gone := false

/-- The link of the client with the server. -/
def Peer.link (p : Peer) (server : CanIPCServer A api) : Link A api where
  client := p.client
  server := server
  conn := p.conn
  toClient := p.toClient
  fault := none

/-- A client connects, takes a step of its own, or leaves; the server reads a message of a client, or that there will be
none, its connection is closed; and the server takes any other step. -/
inductive NetInput where
  | connect (addr : Addr)
  | client (k : ConnId) (i : LinkInput)
  | leave (k : ConnId)
  | serverRead (k : ConnId) (now : AnSystemtime)
  | readEnd (k : ConnId)
  | closed (k : ConnId)
  | server (i : Input)

inductive NetEvent (A : Arch) (api : XfsApi) where
  | client (k : ConnId) (e : LinkEvent A api)
  | server (e : Event A)

/-- The steps that a client makes on its own. -/
def LinkInput.ofClient : LinkInput → Bool
  | .call .. | .sendCmd _ | .clientRead _ => true
  | .serverRead _ | .notify _ | .written _ | .run _ | .idle .. | .itemCheck _ | .loopExit => false

/-! ## Steps -/

/-- The messages written to a connection. -/
def writtenTo (k : ConnId) (e : List (Event A)) : List (List UInt8) := (on k (wroteOf e)).map Notice.buf

namespace Net

variable (s : Net A api)

/-- The steps of the server that have nothing to do with one client's connection; `uv_write` takes all that is for a
client that is there. -/
def Serves : Input → Prop
  | .notify _ uvWrite _ => ∀ k < s.server.nextId, ∀ p ∈ s.peer k, p.gone = false → uvWrite p.conn = 0
  | .write .. | .run _ | .idle .. | .itemCheck _ | .loopExit => True
  | .newConnection .. | .read .. | .readError _ | .closed _ => False

instance : (i : Input) → Decidable (s.Serves i)
  | .notify .. => by unfold Serves; infer_instance
  | .write .. | .run _ | .idle .. | .itemCheck _ | .loopExit => inferInstanceAs (Decidable True)
  | .newConnection .. | .read .. | .readError _ | .closed _ => inferInstanceAs (Decidable False)

/-- A step of the server, whose writes go on their way to their clients. -/
def serverStep (i : Input) : Option (Net A api × List (NetEvent A api)) :=
  (s.server.step i).map fun (t, e) =>
    ({ s with
        server := t
        peer := fun k => (s.peer k).map fun p => { p with toClient := p.toClient ++ writtenTo k e } },
      e.map .server)

/-- The client at `k` has changed. -/
def setPeer (k : ConnId) (p : Peer) : Net A api := { s with peer := Function.update s.peer k (some p) }

/-- The client at `k` is forgotten. -/
def dropPeer (k : ConnId) : Net A api := { s with peer := Function.update s.peer k none }

/-- The client at `k` is there. -/
def present (k : ConnId) : Option Peer := (s.peer k).filter fun p => p.gone = false

/-- The client at `k` has left, and the server keeps its connection. -/
def departed (k : ConnId) : Option Peer := (s.peer k).filter fun p => p.gone = true

def step (i : NetInput) : Option (Net A api × List (NetEvent A api)) :=
  if s.fault ≠ none then none else
  match i with
  | .connect addr =>
    (s.serverStep (.newConnection 0 addr 0)).map fun (t, e) => (t.setPeer s.server.nextId (.new addr), e)
  | .client k i =>
    if i.ofClient then
      (s.present k).bind fun p => ((p.link s.server).step i).map fun (t, e) =>
        ({ s.setPeer k { p with client := t.client, toClient := t.toClient } with fault := t.fault }, e.map (.client k))
    else none
  | .leave k => (s.present k).map fun p => (s.setPeer k { p with gone := true }, [])
  | .serverRead k now =>
    (s.peer k).bind fun p =>
      match p.client.ipc.wire with
      | [] => none
      | chunk :: rest =>
        (s.setPeer k { p with client := { p.client with ipc := { p.client.ipc with wire := rest } } }).serverStep
          (.read p.conn chunk now)
  | .readEnd k => (s.departed k).bind fun p => s.serverStep (.readError p.conn)
  | .closed k => (s.departed k).bind fun p => (s.dropPeer k).serverStep (.closed p.conn)
  | .server i => if s.Serves i then s.serverStep i else none

end Net

@[simp] theorem setPeer_self (s : Net A api) (k : ConnId) (p : Peer) : (s.setPeer k p).peer k = some p :=
  Function.update_self ..

theorem setPeer_of_ne (s : Net A api) {j k : ConnId} (hj : j ≠ k) (p : Peer) : (s.setPeer k p).peer j = s.peer j :=
  Function.update_of_ne hj ..

theorem present_iff {s : Net A api} {k : ConnId} {p : Peer} :
    s.present k = some p ↔ s.peer k = some p ∧ p.gone = false := by
  simp [Net.present, Option.filter_eq_some_iff]

theorem departed_iff {s : Net A api} {k : ConnId} {p : Peer} :
    s.departed k = some p ↔ s.peer k = some p ∧ p.gone = true := by
  simp [Net.departed, Option.filter_eq_some_iff]

@[simp] theorem dropPeer_self (s : Net A api) (k : ConnId) : (s.dropPeer k).peer k = none := Function.update_self ..

theorem dropPeer_of_ne (s : Net A api) {j k : ConnId} (hj : j ≠ k) : (s.dropPeer k).peer j = s.peer j :=
  Function.update_of_ne hj ..

@[simp] theorem setPeer_server (s : Net A api) (k : ConnId) (p : Peer) : (s.setPeer k p).server = s.server := rfl

def netMachine (A : Arch) (api : XfsApi) : Machine (Net A api) NetInput (NetEvent A api) where
  step := Net.step

/-- What happened at the client `k`. -/
def atClient (k : ConnId) (h : List (NetEvent A api)) : List (LinkEvent A api) :=
  h.filterMap fun
    | .client j e => if j = k then some e else none
    | .server _ => none

def atServer (h : List (NetEvent A api)) : List (Event A) :=
  h.filterMap fun
    | .client .. => none
    | .server e => some e

/-- Nothing of the client's is under way: no command on its loop or on the wire, none in the deque, no notice
undelivered and none unread. -/
structure Net.DrainedFor (s : Net A api) (p : Peer) : Prop where
  asyncs : p.client.asyncs = []
  wire : p.client.ipc.wire = []
  deque : ∀ b ∈ s.server.exec.deque, b.mClient ≠ some p.conn
  notices : ∀ n ∈ s.server.asyncs, n.client ≠ some p.conn
  toClient : p.toClient = []

section Append

variable (g h : List (NetEvent A api))

@[simp] theorem atClient_append (k : ConnId) : atClient k (g ++ h) = atClient k g ++ atClient k h :=
  List.filterMap_append ..

@[simp] theorem atServer_append : atServer (g ++ h) = atServer g ++ atServer h := List.filterMap_append ..

end Append

/-- The events of the server are no client's. -/
theorem ofServer_net (api : XfsApi) (e : List (Event A)) :
    (∀ k, atClient k (e.map .server : List (NetEvent A api)) = []) ∧
      atServer (e.map .server : List (NetEvent A api)) = e := by
  constructor
  · intro k
    rw [atClient, List.filterMap_map, List.filterMap_eq_nil_iff]
    intro _ _
    rfl
  · rw [atServer, List.filterMap_map]
    exact List.filterMap_some

/-- The events of a client are its own. -/
theorem ofClient_net (k : ConnId) (e : List (LinkEvent A api)) :
    atClient k (e.map (.client k)) = e ∧ (∀ j, j ≠ k → atClient j (e.map (.client k)) = []) ∧
      atServer (e.map (.client k)) = [] := by
  refine ⟨?_, fun j hj => ?_, ?_⟩
  · rw [atClient, List.filterMap_map]
    simp
  · rw [atClient, List.filterMap_map, List.filterMap_eq_nil_iff]
    intro _ _
    exact if_neg hj.symm
  · rw [atServer, List.filterMap_map, List.filterMap_eq_nil_iff]
    intro _ _
    rfl

end AnXfs.System
