/-
What becomes of the arguments of a call. Each constructor of `message_pack.h` copies its arguments by
hand, and the archive carries what it has copied; `arguments_survive_iff` compares the command that the
server builds with the call, entry point by entry point. The constructor of `an_WFPOpen` is given two
strings and an application handle, and stores none of the three.
-/
import AnXfs.Client.Outcome
import AnXfs.Pack.RoundTrip

namespace AnXfs.Client

open AnXfs.Wire AnXfs.Pack

variable {A : Arch} {api : XfsApi}

/-- The command carries the service, request, window, event class, registration window, trace level and timeout of
the call; of an Open, also the names, the handles and the versions. -/
def SpiCall.Carried : SpiCall → AnCmd A → Prop
  | .wfpCancelAsyncRequest hService requestId, .wfpCancelAsyncRequest m => m.hService = hService ∧ m.reqId = requestId
  | .wfpClose hService hWnd reqId, .wfpClose m => m.hService = hService ∧ m.hWnd = hWnd ∧ m.reqId = reqId
  | .wfpDeregister hService dwEventClass hWndReg hWnd reqId, .wfpDeregister m =>
    m.hService = hService ∧ m.dwEventClass = dwEventClass ∧ m.hWndReg = hWndReg ∧ m.hWnd = hWnd ∧ m.reqId = reqId
  | .wfpExecute hService dwCommand _ dwTimeOut hWnd reqId, .wfpExecute m =>
    m.hService = hService ∧ m.dwCommand = dwCommand ∧ m.dwTimeOut = dwTimeOut ∧ m.hWnd = hWnd ∧ m.reqId = reqId
  | .wfpGetInfo hService dwCategory dwTimeOut hWnd reqId, .wfpGetInfo m =>
    m.hService = hService ∧ m.dwCategory = dwCategory ∧ m.dwTimeOut = dwTimeOut ∧ m.hWnd = hWnd ∧ m.reqId = reqId
  | .wfpLock hService dwTimeOut hWnd reqId, .wfpLock m =>
    m.hService = hService ∧ m.dwTimeOut = dwTimeOut ∧ m.hWnd = hWnd ∧ m.reqId = reqId
  | .wfpOpen hService lpszLogicalName hApp lpszAppId dwTraceLevel dwTimeOut hWnd reqId hProvider
      dwSpiVersionsRequired _ dwSrvcVersionsRequired _, .wfpOpen m =>
    (m.hService = hService ∧ m.dwTraceLevel = dwTraceLevel ∧ m.dwTimeOut = dwTimeOut ∧ m.hWnd = hWnd ∧
      m.reqId = reqId) ∧ m.lpszLogicalName.bytes = lpszLogicalName ∧ m.hApp = hApp ∧ m.lpszAppId.bytes = lpszAppId ∧
      m.hProvider = hProvider ∧ m.dwSpiVersionsRequired = dwSpiVersionsRequired ∧
      m.dwSrvcVersionsRequired = dwSrvcVersionsRequired
  | .wfpRegister hService dwEventClass hWndReg hWnd reqId, .wfpRegister m =>
    m.hService = hService ∧ m.dwEventClass = dwEventClass ∧ m.hWndReg = hWndReg ∧ m.hWnd = hWnd ∧ m.reqId = reqId
  | .wfpSetTraceLevel hService dwTraceLevel, .wfpSetTraceLevel m =>
    m.hService = hService ∧ m.dwTraceLevel = dwTraceLevel
  | .wfpUnlock hService hWnd reqId, .wfpUnlock m => m.hService = hService ∧ m.hWnd = hWnd ∧ m.reqId = reqId
  | _, _ => False

/-- The call has nothing to lose: an Open has no names, and the application handle that its command is left with. -/
def SpiCall.Unnamed (env : CallEnv) : SpiCall → Prop
  | .wfpOpen _ lpszLogicalName hApp lpszAppId .. => lpszLogicalName = [] ∧ hApp = env.uninit ∧ lpszAppId = []
  | _ => True

/-- What the server reads from the bytes of a command is the command. -/
theorem readCmd_serializeCmd (m : Command A) : readCmd (serializeCmd m) = .ok (m.obj, []) := by
  have := readCmd_put m.built []
  rwa [List.append_nil] at this

/-- The command that a call constructs carries the call's arguments, unless they are those of an Open. -/
theorem carried_iff (call : SpiCall) (env : CallEnv) :
    call.Carried (call.command A api env).obj ↔ call.Unnamed env := by
  cases call with
  | wfpOpen hService name app appId trace timeOut hWnd reqId provider spi lpSpi srvc lpSrvc =>
    constructor
    · rintro ⟨-, hname, happ, happId, -⟩
      exact ⟨hname.symm, happ.symm, happId.symm⟩
    · rintro ⟨hname, happ, happId⟩
      exact ⟨⟨rfl, rfl, rfl, rfl, rfl⟩, hname.symm, happ.symm, happId.symm, rfl, rfl, rfl⟩
  | wfpCancelAsyncRequest => exact iff_of_true ⟨rfl, rfl⟩ trivial
  | wfpClose | wfpUnlock => exact iff_of_true ⟨rfl, rfl, rfl⟩ trivial
  | wfpLock => exact iff_of_true ⟨rfl, rfl, rfl, rfl⟩ trivial
  | wfpSetTraceLevel => exact iff_of_true ⟨rfl, rfl⟩ trivial
  | wfpDeregister | wfpExecute | wfpGetInfo | wfpRegister => exact iff_of_true ⟨rfl, rfl, rfl, rfl, rfl⟩ trivial

/-- For every call of an entry point: the server rebuilds a command from the bytes that `serialize_cmd` produced, and
the command carries the call's arguments if and only if the call is no Open with a name or a handle to lose. -/
theorem arguments_survive_iff (A : Arch) (api : XfsApi) (env : CallEnv) (call : SpiCall) :
    ∃ m : AnCmd A, readCmd (serializeCmd (call.command A api env)) = .ok (m, []) ∧
      (call.Carried m ↔ call.Unnamed env) :=
  ⟨_, readCmd_serializeCmd _, carried_iff call env⟩

/-- An Open of the logical service `CIM320`. -/
def namedOpen : SpiCall := .wfpOpen 1 (ascii "CIM320") 7 (ascii "app") 0 0 5 1 0 0x00030003 none 0x00030003 none

theorem open_loses_names : ∃ m : AnCmd .x86,
    readCmd (serializeCmd (namedOpen.command .x86 .documented ⟨0, 0, 0, true, 0⟩)) = .ok (m, []) ∧
      ¬ namedOpen.Carried m := by
  refine ⟨_, readCmd_serializeCmd _, fun h => ?_⟩
  have := ((carried_iff _ _).1 h).1
  simp [ascii] at this

/-- All Opens are equally long, whatever their names. -/
theorem length_open (env : CallEnv) (hService : HService) (name : List UInt8) (app : Dword) (appId : List UInt8)
    (trace timeOut hWnd : Dword) (reqId : RequestId) (provider spi : Dword) (lpSpi : Option WfsVersion) (srvc : Dword)
    (lpSrvc : Option WfsVersion) : (serializeCmd (SpiCall.command .x86 api env (.wfpOpen hService name app appId trace
      timeOut hWnd reqId provider spi lpSpi srvc lpSrvc))).length = 66 := by
  simp [serializeCmd, SpiCall.command, AnCmd.put, AnWfpOpen.codec, AnWfpHeader.codec, Codec.iso, Codec.seq, sizeT,
    stdString, Codec.blob, dword, word, Codec.word, AnWfpOpen.new, StdString.empty, StdString.ofShort,
    Arch.sizeofSizeT]

end AnXfs.Client
