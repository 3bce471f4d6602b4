/-
The command objects of the server (`an_Commander.h` and the classes derived from it) and the proxy
that holds them (`CanXfs`): the table of commanders filled by the constructor, the session table
they observe, `cmd_handler` for the commands of the queue and `spi_getinfo` for the requests that
bypass it. `cmdHandler_eq` says what executing a command does, once and for all slots.
-/
import AnXfs.Pack.RoundTrip
import AnXfs.Pack.Result

namespace AnXfs.Server

open AnXfs.Wire AnXfs.Pack

/-- The address of a `uv_pipe_t`; the memory of a closed connection may serve a later one. -/
abbrev Addr := Nat

/-- The identity of a connection, never reused. The program does not have it: it is carried along
only to say which connection a pointer was taken from. -/
abbrev ConnId := Nat

/-- `an_notice_result`: the bytes to send, the connection to send them to (null to broadcast) and the
exit flag; with the connection that the answered command was read on. -/
structure Notice where
  buf : List UInt8
  client : Option Addr
  notifyExitFlag : Bool
  origin : Option ConnId
  deriving DecidableEq

/-! ## Commands for concrete runs -/

/-- The clock of the concrete runs. -/
def midnight : AnSystemtime := ⟨0, 0, 0, 0, 0, 0, 0, 0⟩

/-- An Open of service `h` with request id `r`, for window 5. -/
def openCmd (h : HService) (r : RequestId) : AnCmd .x86 :=
  .wfpOpen (AnWfpOpen.new _ 0 0 h (ascii "CIM") 0 (ascii "app") 0 0 5 r 0 0 0)

/-- A Close of service `h` with request id `r`, for window 5. -/
def closeCmd (h : HService) (r : RequestId) : AnCmd .x86 := .wfpClose (AnWfpClose.new _ 0 h 5 r)

/-! ## Commanders -/

/-- The classes derived from `an_Commander` that the server constructs. -/
inductive CommanderClass where
  | anWfpopenImpl
  | anWfpcloseImpl
  | anWfpderegisterImpl
  | anWfpexecuteImpl
  | anWfpregisterImpl
  deriving DecidableEq

/-- `_commander` as the constructor of `CanXfs` leaves it. -/
def commander : AnWfpType → Option CommanderClass
  | .wfpCancelAsyncRequest => some .anWfpopenImpl
  | .wfpClose => some .anWfpcloseImpl
  | .wfpDeregister => some .anWfpderegisterImpl
  | .wfpExecute => some .anWfpexecuteImpl
  | .wfpLock => some .anWfpopenImpl
  | .wfpOpen => some .anWfpopenImpl
  | .wfpRegister => some .anWfpregisterImpl
  | .wfpSetTraceLevel => some .anWfpopenImpl
  | .wfpUnlock => some .anWfpopenImpl
  -- null: the constructor passes over these slots
  | .wfpUnknow | .wfpGetInfo | .wfpUnloadService => none

/-- `_commander[eType]`: the slot and the object in it. -/
def commanderAt (eType : Dword) : Except Fault (AnWfpType × CommanderClass) :=
  match AnWfpType.all[eType.toNat]? with
  | none => .error .outOfRange
  | some t =>
    match commander t with
    | none => .error .nullPointer
    | some c => .ok (t, c)

/-- `CanXfs`: the `_flag` of the commander in each slot, the data that `spi_getinfo` answers with, the
session table, and the request that the item check was last woken for. -/
structure CanXfs (A : Arch) (api : XfsApi) where
  flag : AnWfpType → Int
  caps : Held A (AnXfsCaps.codec A api)
  status : Held A (AnXfsStatus.codec A api)
  serviceTable : List HService
  curService : HService
  curReqid : RequestId

variable {A : Arch} {api : XfsApi}

namespace CanXfs

/-- `CanXfs()`. -/
def new (caps : Held A (AnXfsCaps.codec A api)) (status : Held A (AnXfsStatus.codec A api)) : CanXfs A api where
  flag := fun _ => 0
  caps := caps
  status := status
  serviceTable := []
  curService := 0
  curReqid := 0

/-- The proxy that the concrete runs below start from: 32-bit, and its data all zero. -/
def blank : CanXfs .x86 .documented :=
  new
    { val := ⟨0, 0, 0, 0, 0, 0, 0, 0, 0, 0, 0, 0, 0, 0, 0, 0, StdString.empty _, .replicate _ 0, 0, 0, 0, 0, 0, 0, 0, 0,
        0, 0, 0, 0, 0, 0, 0, 0, 0, .replicate _ 0⟩
      fits := by decide +kernel }
    { val := ⟨0, 0, 0, 0, .replicate _ ⟨0, 0, 0, 0, 0, 0⟩, StdString.empty _, .replicate _ 0, 0, 0, 0, 0, 0, 0, 0, 0⟩
      fits := by decide +kernel }

def pushService (x : CanXfs A api) (service : HService) : CanXfs A api × Nat :=
  ({ x with serviceTable := x.serviceTable ++ [service] }, 1)

def removeService (x : CanXfs A api) (service : HService) : CanXfs A api × Nat :=
  let table := x.serviceTable.erase service
  ({ x with serviceTable := table }, table.length)

def warkupItemCheck (x : CanXfs A api) (type : Dword) (service : HService) (reqid : RequestId) : CanXfs A api :=
  if type = AnWfpType.wfpExecute.code then { x with curService := service, curReqid := reqid } else x

def pauseItemCheck (x : CanXfs A api) (type : Dword) : CanXfs A api :=
  if type = AnWfpType.wfpExecute.code then { x with curService := 0, curReqid := 0 } else x

end CanXfs

/-- What every `execute` writes into the result: the outcome, the addressee of the request, and the
class's code and message. -/
def completed (arg : AnCmd A) (lpresult : AnXfsResult A) (hr : HResult) (code msg : Dword) : AnXfsResult A :=
  { lpresult with
    hResult := hr
    hService := arg.base.hService
    requestId := arg.base.reqId
    u := code
    hWnd := arg.base.hWnd
    dwMsg := msg }

section Execute

variable (x : CanXfs A api) (arg : AnCmd A) (lpresult : AnXfsResult A)

/-- `an_wfpopen_impl::execute`, whose observer is `push_service`. -/
def AnWfpopenImpl.execute : Except Fault (CanXfs A api × AnXfsResult A) :=
  let r := completed arg lpresult api.wfsSuccess api.wfsOpenComplete api.wfsOpenComplete
  .ok ((x.pushService arg.base.hService).1, r)

/-- `an_wfpclose_impl::execute`, whose observer is `remove_service`; `slot` is where the object is. -/
def AnWfpcloseImpl.execute (slot : AnWfpType) : Except Fault (CanXfs A api × AnXfsResult A) :=
  let r := completed arg lpresult api.wfsSuccess api.wfsCloseComplete api.wfsCloseComplete
  let (x', size) := x.removeService arg.base.hService
  -- nothing sets the flag back to 0
  .ok (if size = 0 then { x' with flag := Function.update x'.flag slot 1 } else x', r)

def AnWfpderegisterImpl.execute : Except Fault (CanXfs A api × AnXfsResult A) :=
  .ok (x, completed arg lpresult api.wfsSuccess api.wfsDeregisterComplete api.wfsDeregisterComplete)

/-- `an_wfpexecute_impl::execute`, which reads `dwCommand` from what it takes for an `an_WFPExecute`. -/
def AnWfpexecuteImpl.execute : Except Fault (CanXfs A api × AnXfsResult A) :=
  match arg with
  | .wfpExecute m => .ok (x, completed arg lpresult api.wfsSuccess m.dwCommand api.wfsExecuteComplete)
  | _ => .error .wrongClass

def AnWfpregisterImpl.execute : Except Fault (CanXfs A api × AnXfsResult A) :=
  .ok (x, completed arg lpresult api.wfsSuccess api.wfsRegisterComplete api.wfsRegisterComplete)

/-- `an_Commander::execute` of the object in a slot. -/
def CommanderClass.execute (slot : AnWfpType) : CommanderClass → Except Fault (CanXfs A api × AnXfsResult A)
  | .anWfpopenImpl => AnWfpopenImpl.execute x arg lpresult
  | .anWfpcloseImpl => AnWfpcloseImpl.execute x arg lpresult slot
  | .anWfpderegisterImpl => AnWfpderegisterImpl.execute x arg lpresult
  | .anWfpexecuteImpl => AnWfpexecuteImpl.execute x arg lpresult
  | .anWfpregisterImpl => AnWfpregisterImpl.execute x arg lpresult

end Execute

/-! ## The two handlers -/

/-- `CanXfs::cmd_handler` up to the pause: the item check is woken, the commander executes, and the
result becomes a notice to the command's connection. -/
def cmdHandler (x : CanXfs A api) (arg : AnCmd A) (client : Option Addr) (origin : Option ConnId)
    (now : AnSystemtime) : Except Fault (CanXfs A api × Notice) :=
  match eAnWfpTypeName[arg.eType.toNat]? with
  | none => .error .outOfRange
  | some _ => do
    let x := x.warkupItemCheck arg.eType arg.base.hService arg.base.reqId
    let (slot, impl) ← commanderAt arg.eType
    let (x, result) ← impl.execute x arg (AnXfsResult.new A now) slot
    let buf := serializeResult (AnXfsResult.codec A) result
    -- the flag is read from the object after it executed, whatever command set it
    pure (x, { buf := buf, client := client, notifyExitFlag := x.flag slot = 1, origin := origin })

/-- The result that `CanXfs::spi_getinfo` builds. -/
def getinfoResult (x : CanXfs A api) (m : AnWfpGetInfo A) (now : AnSystemtime) : AnXfsResult A :=
  let result := completed (.wfpGetInfo m) (AnXfsResult.new A now) api.wfsSuccess m.dwCategory api.wfsGetinfoComplete
  if m.dwCategory = api.wfsInfCimCapabilities then { result with lpBuffer := x.caps.buffer }
  else if m.dwCategory = api.wfsInfCimStatus then { result with lpBuffer := x.status.buffer }
  else { result with hResult := api.wfsErrUnsuppCategory }

/-- `CanXfs::spi_getinfo`. -/
def spiGetinfo (x : CanXfs A api) (arg : AnCmd A) (client : Option Addr) (origin : Option ConnId)
    (now : AnSystemtime) : Except Fault Notice :=
  match eAnWfpTypeName[arg.eType.toNat]? with
  | none => .error .outOfRange
  | some _ =>
    match arg with
    | .wfpGetInfo m =>
      .ok { buf := serializeResult (AnXfsResult.codec A) (getinfoResult x m now), client := client,
            notifyExitFlag := false, origin := origin }
    | _ => .error .wrongClass

/-! ## What executing a command does -/

theorem all_code (t : AnWfpType) : AnWfpType.all[t.code.toNat]? = some t := by
  cases t <;> rfl

theorem all_some {c : Dword} {t : AnWfpType} (h : AnWfpType.all[c.toNat]? = some t) : t.code = c := by
  obtain ⟨hlt, -⟩ := List.getElem?_eq_some_iff.1 h
  obtain ⟨s, rfl⟩ := eType_of_slot (by simpa [AnWfpType.all] using hlt)
  rw [all_code] at h
  cases h; rfl

theorem commanderAt_code {t : AnWfpType} {c : CommanderClass} (h : commander t = some c) :
    commanderAt t.code = .ok (t, c) := by
  unfold commanderAt
  rw [all_code]
  simp only [h]

theorem commanderAt_ok {e : Dword} {t : AnWfpType} {c : CommanderClass} (h : commanderAt e = .ok (t, c)) :
    e = t.code ∧ commander t = some c := by
  unfold commanderAt at h
  split at h
  · cases h
  rename_i s hs
  split at h
  · cases h
  · rename_i d hd
    cases h
    exact ⟨(all_some hs).symm, hd⟩

/-- What a command of type `t` does to the session table. -/
def sessionStep (t : AnWfpType) (h : HService) (table : List HService) : List HService :=
  match commander t with
  | some .anWfpopenImpl => table ++ [h]
  | some .anWfpcloseImpl => table.erase h
  | _ => table

/-- The message a commander answers with. -/
def CommanderClass.message (api : XfsApi) : CommanderClass → Dword
  | .anWfpopenImpl => api.wfsOpenComplete
  | .anWfpcloseImpl => api.wfsCloseComplete
  | .anWfpderegisterImpl => api.wfsDeregisterComplete
  | .anWfpexecuteImpl => api.wfsExecuteComplete
  | .anWfpregisterImpl => api.wfsRegisterComplete

/-- The code a commander answers with. -/
def CommanderClass.code (api : XfsApi) (arg : AnCmd A) : CommanderClass → Dword
  | .anWfpexecuteImpl =>
    match arg with
    | .wfpExecute m => m.dwCommand
    | _ => 0
  | c => c.message api

/-- The answer to a command executed by a commander. -/
def CommanderClass.reply (api : XfsApi) (arg : AnCmd A) (now : AnSystemtime) (c : CommanderClass) : AnXfsResult A :=
  completed arg (AnXfsResult.new A now) api.wfsSuccess (c.code api arg) (c.message api)

/-- The proxy after executing a command of type `t`. -/
def CanXfs.after (x : CanXfs A api) (t : AnWfpType) (arg : AnCmd A) : CanXfs A api :=
  let table := sessionStep t arg.base.hService x.serviceTable
  let x' := x.warkupItemCheck t.code arg.base.hService arg.base.reqId
  { x' with
    serviceTable := table
    flag := if commander t = some .anWfpcloseImpl ∧ table = [] then Function.update x.flag t 1 else x.flag }

@[simp] theorem warkupItemCheck_serviceTable (x : CanXfs A api) (t : Dword) (h : HService) (r : RequestId) :
    (x.warkupItemCheck t h r).serviceTable = x.serviceTable := by
  unfold CanXfs.warkupItemCheck; split <;> rfl

@[simp] theorem warkupItemCheck_flag (x : CanXfs A api) (t : Dword) (h : HService) (r : RequestId) :
    (x.warkupItemCheck t h r).flag = x.flag := by
  unfold CanXfs.warkupItemCheck; split <;> rfl

@[simp] theorem pauseItemCheck_serviceTable (x : CanXfs A api) (t : Dword) :
    (x.pauseItemCheck t).serviceTable = x.serviceTable := by
  unfold CanXfs.pauseItemCheck; split <;> rfl

@[simp] theorem pauseItemCheck_flag (x : CanXfs A api) (t : Dword) : (x.pauseItemCheck t).flag = x.flag := by
  unfold CanXfs.pauseItemCheck; split <;> rfl

/-- A command of a class other than the commander's is never executed. -/
theorem execute_ok {x x' : CanXfs A api} {arg : AnCmd A} {r r' : AnXfsResult A} {t : AnWfpType} {c : CommanderClass}
    (h : c.execute x arg r t = .ok (x', r')) : c = .anWfpexecuteImpl → ∃ m, arg = .wfpExecute m := by
  rintro rfl
  unfold CommanderClass.execute AnWfpexecuteImpl.execute at h
  cases arg with
  | wfpExecute m => exact ⟨m, rfl⟩
  | _ => cases h

theorem execute_eq {x : CanXfs A api} {arg : AnCmd A} {r : AnXfsResult A} {t : AnWfpType} {c : CommanderClass}
    (hc : commander t = some c) (harg : c = .anWfpexecuteImpl → ∃ m, arg = .wfpExecute m) :
    c.execute x arg r t = .ok (
      { x with
        serviceTable := sessionStep t arg.base.hService x.serviceTable
        flag := if commander t = some .anWfpcloseImpl ∧ sessionStep t arg.base.hService x.serviceTable = [] then
          Function.update x.flag t 1 else x.flag },
      completed arg r api.wfsSuccess (c.code api arg) (c.message api)) := by
  cases c with
  | anWfpopenImpl => simp [CommanderClass.execute, AnWfpopenImpl.execute, sessionStep, hc, CanXfs.pushService,
      CommanderClass.code, CommanderClass.message]
  | anWfpcloseImpl =>
    simp only [CommanderClass.execute, AnWfpcloseImpl.execute, sessionStep, hc, CanXfs.removeService,
      CommanderClass.code, CommanderClass.message, true_and, List.length_eq_zero_iff]
    split <;> rfl
  | anWfpderegisterImpl => simp [CommanderClass.execute, AnWfpderegisterImpl.execute, sessionStep, hc,
      CommanderClass.code, CommanderClass.message]
  | anWfpexecuteImpl =>
    obtain ⟨m, rfl⟩ := harg rfl
    simp [CommanderClass.execute, AnWfpexecuteImpl.execute, sessionStep, hc, CommanderClass.code,
      CommanderClass.message]
  | anWfpregisterImpl => simp [CommanderClass.execute, AnWfpregisterImpl.execute, sessionStep, hc,
      CommanderClass.code, CommanderClass.message]

/-- The notice a command of type `t` is answered with. -/
def replyNotice (x : CanXfs A api) (t : AnWfpType) (c : CommanderClass) (arg : AnCmd A) (client : Option Addr)
    (origin : Option ConnId) (now : AnSystemtime) : Notice where
  buf := serializeResult (AnXfsResult.codec A) (c.reply api arg now)
  client := client
  notifyExitFlag := (x.after t arg).flag t = 1
  origin := origin

theorem cmdHandler_eq {x : CanXfs A api} {arg : AnCmd A} {t : AnWfpType} {c : CommanderClass}
    (ht : arg.eType = t.code) (hc : commander t = some c)
    (harg : c = .anWfpexecuteImpl → ∃ m, arg = .wfpExecute m) (client : Option Addr) (origin : Option ConnId)
    (now : AnSystemtime) :
    cmdHandler x arg client origin now = .ok (x.after t arg, replyNotice x t c arg client origin now) := by
  obtain ⟨name, hn⟩ := eAnWfpTypeName_code t
  unfold cmdHandler
  simp only [ht, hn]
  rw [commanderAt_code hc]
  simp only [bind, Except.bind, execute_eq hc harg, pure, Except.pure, warkupItemCheck_serviceTable,
    warkupItemCheck_flag]
  rfl

/-- Executing a command succeeds only through a filled slot, and then does what `cmdHandler_eq` says. -/
theorem cmdHandler_ok {x x' : CanXfs A api} {arg : AnCmd A} {client : Option Addr} {origin : Option ConnId}
    {now : AnSystemtime} {n : Notice} (h : cmdHandler x arg client origin now = .ok (x', n)) :
    ∃ t c, arg.eType = t.code ∧ commander t = some c ∧ x' = x.after t arg ∧
      n = replyNotice x t c arg client origin now := by
  have h' := h
  unfold cmdHandler at h
  split at h
  · cases h
  simp only [bind, Except.bind] at h
  split at h
  · cases h
  rename_i p hp
  obtain ⟨t, c⟩ := p
  obtain ⟨ht, hc⟩ := commanderAt_ok hp
  simp only at h
  split at h
  · cases h
  rename_i q hq
  rw [cmdHandler_eq ht hc (execute_ok hq)] at h'
  cases h'
  exact ⟨t, c, ht, hc, rfl, rfl⟩

/-- A command that the builders made executes whenever its slot is filled. -/
theorem cmdHandler_built {x : CanXfs A api} {arg : AnCmd A} {t : AnWfpType} {c : CommanderClass} (hb : arg.Built)
    (ht : arg.eType = t.code) (hc : commander t = some c) (client : Option Addr) (origin : Option ConnId)
    (now : AnSystemtime) :
    cmdHandler x arg client origin now = .ok (x.after t arg, replyNotice x t c arg client origin now) := by
  refine cmdHandler_eq ht hc ?_ client origin now
  rintro rfl
  have htx : t = .wfpExecute := by cases t <;> first | rfl | cases hc
  subst htx
  obtain ⟨s, hs, hclass⟩ := hb.class
  have hst : s = .wfpExecute := AnWfpType.code_injective (hs.symm.trans ht)
  subst hst
  cases arg <;> first | exact ⟨_, rfl⟩ | cases hclass

/-- A GetInfo that a builder made is answered, to the connection given. -/
theorem spiGetinfo_built {x : CanXfs A api} {arg : AnCmd A} (hb : arg.Built)
    (ht : arg.eType = AnWfpType.wfpGetInfo.code) (client : Option Addr) (origin : Option ConnId) (now : AnSystemtime) :
    ∃ n, spiGetinfo x arg client origin now = .ok n := by
  obtain ⟨s, hs, hclass⟩ := hb.class
  have hst : s = .wfpGetInfo := AnWfpType.code_injective (hs.symm.trans ht)
  subst hst
  obtain ⟨name, hn⟩ := eAnWfpTypeName_code .wfpGetInfo
  unfold spiGetinfo
  rw [ht, hn]
  cases arg <;> first | exact ⟨_, rfl⟩ | cases hclass

/-- What an answered GetInfo was, and its notice, which is never flagged. -/
theorem spiGetinfo_ok {x : CanXfs A api} {arg : AnCmd A} {client : Option Addr} {origin : Option ConnId}
    {now : AnSystemtime} {n : Notice} (h : spiGetinfo x arg client origin now = .ok n) :
    n.client = client ∧ n.origin = origin ∧ n.notifyExitFlag = false ∧
      ∃ m, arg = .wfpGetInfo m ∧ n.buf = serializeResult (AnXfsResult.codec A) (getinfoResult x m now) := by
  unfold spiGetinfo at h
  split at h
  · cases h
  cases arg with
  | wfpGetInfo m =>
    cases h
    exact ⟨rfl, rfl, rfl, m, rfl, rfl⟩
  | _ => cases h

/-- A GetInfo is answered to its own window, with its own service, request id and category, and with the
data asked for. -/
theorem getinfoResult_fields (x : CanXfs A api) (m : AnWfpGetInfo A) (now : AnSystemtime) :
    (getinfoResult x m now).hService = m.hService ∧ (getinfoResult x m now).requestId = m.reqId ∧
      (getinfoResult x m now).hWnd = m.hWnd ∧ (getinfoResult x m now).dwMsg = api.wfsGetinfoComplete ∧
      (getinfoResult x m now).u = m.dwCategory ∧
      (getinfoResult x m now).lpBuffer =
        (if m.dwCategory = api.wfsInfCimCapabilities then x.caps.buffer
        else if m.dwCategory = api.wfsInfCimStatus then x.status.buffer else StdString.empty A) := by
  unfold getinfoResult
  split
  · exact ⟨rfl, rfl, rfl, rfl, rfl, rfl⟩
  · split <;> exact ⟨rfl, rfl, rfl, rfl, rfl, rfl⟩

end AnXfs.Server
