/-
The commands of `message_pack.h`: the header every command starts with, the ten commands with the
constructors the SPI calls them through, and the archive of each (`serialize`), field by field in
the order of the source. `AnCmd` is what an `an_WFP_header *` points to, and `Command` one that the
SPI built: its class and its `eType` agree.
-/
import AnXfs.Pack.Types

namespace AnXfs.Pack

open AnXfs.Wire

/-! ## Command types -/

/-- `e_an_wfp_type`, without its last enumerator `e_an_WFP`, the number of the others. -/
inductive AnWfpType where
  | wfpUnknow
  | wfpCancelAsyncRequest
  | wfpClose
  | wfpDeregister
  | wfpExecute
  | wfpGetInfo
  | wfpLock
  | wfpOpen
  | wfpRegister
  | wfpSetTraceLevel
  | wfpUnloadService
  | wfpUnlock
  deriving DecidableEq

/-- The enumerators in order. -/
def AnWfpType.all : List AnWfpType :=
  [.wfpUnknow, .wfpCancelAsyncRequest, .wfpClose, .wfpDeregister, .wfpExecute, .wfpGetInfo, .wfpLock, .wfpOpen,
    .wfpRegister, .wfpSetTraceLevel, .wfpUnloadService, .wfpUnlock]

/-- The value of an enumerator. -/
def AnWfpType.code (t : AnWfpType) : Dword := BitVec.ofNat 32 t.ctorIdx

theorem AnWfpType.code_injective : Function.Injective AnWfpType.code := by
  intro s t h; cases s <;> cases t <;> first | rfl | exact absurd h (by decide)

/-- `e_an_wfp_type_name`. -/
def eAnWfpTypeName : List String :=
  ["WFPUNKNOW", "WFPCancelAsyncRequest", "WFPClose ", "WFPDeregister ", "WFPExecute", "WFPGetInfo", "WFPLock",
    "WFPOpen", "WFPRegister", "WFPSetTraceLevel", "WFPUnloadService", "WFPUnlock", ""]

/-- `e_an_wfp_cmd_status`. -/
inductive AnWfpCmdStatus where
  | cmdInit
  | cmdPending
  | cmdCompleted
  | cmdCancelled
  | cmdTimeout
  | cmdUnknow
  deriving DecidableEq

def AnWfpCmdStatus.code (t : AnWfpCmdStatus) : Dword := BitVec.ofNat 32 t.ctorIdx

/-! ## The commands -/

/-- `an_WFP_header`. The two enumerations travel as their 32-bit values, which a peer chooses freely. -/
structure AnWfpHeader (A : Arch) where
  nLen : SizeT A
  eType : Dword
  eStatus : Dword
  hService : HService
  hWnd : Dword
  reqId : RequestId
  dwStartTime : Dword
  deriving DecidableEq

structure AnWfpCancelAsyncRequest (A : Arch) extends AnWfpHeader A
  deriving DecidableEq

structure AnWfpClose (A : Arch) extends AnWfpHeader A
  deriving DecidableEq

structure AnWfpDeregister (A : Arch) extends AnWfpHeader A where
  dwEventClass : Dword
  hWndReg : Dword
  deriving DecidableEq

structure AnWfpExecute (A : Arch) extends AnWfpHeader A where
  dwCommand : Dword
  lpCmdData : StdString A
  dwTimeOut : Dword
  deriving DecidableEq

structure AnWfpGetInfo (A : Arch) extends AnWfpHeader A where
  dwCategory : Dword
  lpQueryDetails : StdString A
  dwTimeOut : Dword
  deriving DecidableEq

structure AnWfpLock (A : Arch) extends AnWfpHeader A where
  dwTimeOut : Dword
  deriving DecidableEq

structure AnWfpUnlock (A : Arch) extends AnWfpHeader A
  deriving DecidableEq

structure AnWfpOpen (A : Arch) extends AnWfpHeader A where
  lpszLogicalName : StdString A
  hApp : Dword
  lpszAppId : StdString A
  dwTraceLevel : Dword
  dwTimeOut : Dword
  hProvider : Dword
  dwSpiVersionsRequired : Dword
  dwSrvcVersionsRequired : Dword
  deriving DecidableEq

structure AnWfpRegister (A : Arch) extends AnWfpHeader A where
  dwEventClass : Dword
  hWndReg : Dword
  deriving DecidableEq

structure AnWfpSetTraceLevel (A : Arch) extends AnWfpHeader A where
  dwTraceLevel : Dword
  deriving DecidableEq

/-! ## Constructors -/

section Constructors

variable (A : Arch) (tick : Dword)

/-- `an_WFP_header(service, reqid)`; `tick` is the reading of `GetTickCount`. -/
def AnWfpHeader.new (service : HService) (reqid : RequestId) : AnWfpHeader A where
  nLen := 0
  eType := AnWfpType.wfpUnknow.code
  eStatus := AnWfpCmdStatus.cmdInit.code
  hService := service
  hWnd := 0
  reqId := reqid
  dwStartTime := tick

def AnWfpCancelAsyncRequest.new (hService : HService) (requestId : RequestId) : AnWfpCancelAsyncRequest A :=
  { AnWfpHeader.new A tick hService requestId with eType := AnWfpType.wfpCancelAsyncRequest.code }

def AnWfpClose.new (hService : HService) (wnd : Dword) (reqId : RequestId) : AnWfpClose A :=
  { AnWfpHeader.new A tick hService reqId with hWnd := wnd, eType := AnWfpType.wfpClose.code }

def AnWfpDeregister.new (service : HService) (eventclass wndreg wnd : Dword) (reqid : RequestId) :
    AnWfpDeregister A :=
  { AnWfpHeader.new A tick service reqid with
    dwEventClass := eventclass
    hWnd := wnd
    hWndReg := wndreg
    eType := AnWfpType.wfpDeregister.code }

def AnWfpExecute.new (service : HService) (command : Dword) (cmddata : StdString A) (timeout hwnd : Dword)
    (reqid : RequestId) : AnWfpExecute A :=
  { AnWfpHeader.new A tick service reqid with
    dwCommand := command
    dwTimeOut := timeout
    eType := AnWfpType.wfpExecute.code
    hWnd := hwnd
    lpCmdData := cmddata
    nLen := BitVec.ofNat _ cmddata.bytes.length }

def AnWfpGetInfo.new (service : HService) (category : Dword) (details : StdString A) (timeout hwnd : Dword)
    (reqid : RequestId) : AnWfpGetInfo A :=
  { AnWfpHeader.new A tick service reqid with
    dwCategory := category
    dwTimeOut := timeout
    eType := AnWfpType.wfpGetInfo.code
    hWnd := hwnd
    lpQueryDetails := details }

def AnWfpLock.new (service : HService) (timeout wnd : Dword) (reqid : RequestId) : AnWfpLock A :=
  { AnWfpHeader.new A tick service reqid with
    dwTimeOut := timeout
    hWnd := wnd
    eType := AnWfpType.wfpLock.code }

def AnWfpUnlock.new (service : HService) (wnd : Dword) (reqid : RequestId) : AnWfpUnlock A :=
  { AnWfpHeader.new A tick service reqid with hWnd := wnd, eType := AnWfpType.wfpUnlock.code }

/-- `an_WFPOpen(...)`. The arguments `logicname`, `app` and `appid` are not stored: the two strings
stay empty and `hApp` keeps the value `uninit` that its memory held. -/
def AnWfpOpen.new (uninit : Dword) (service : HService) (_logicname : List UInt8) (_app : Dword)
    (_appid : List UInt8) (tracelevel timeout wnd : Dword) (reqid : RequestId) (provider spivr srvvr : Dword) :
    AnWfpOpen A :=
  { AnWfpHeader.new A tick service reqid with
    eType := AnWfpType.wfpOpen.code
    lpszLogicalName := StdString.empty A
    hApp := uninit
    lpszAppId := StdString.empty A
    hWnd := wnd
    dwTraceLevel := tracelevel
    dwTimeOut := timeout
    hProvider := provider
    dwSpiVersionsRequired := spivr
    dwSrvcVersionsRequired := srvvr }

def AnWfpRegister.new (service : HService) (eventclass wndreg wnd : Dword) (reqid : RequestId) : AnWfpRegister A :=
  { AnWfpHeader.new A tick service reqid with
    eType := AnWfpType.wfpRegister.code
    dwEventClass := eventclass
    hWndReg := wndreg
    hWnd := wnd }

def AnWfpSetTraceLevel.new (service : HService) (tracelevel : Dword) : AnWfpSetTraceLevel A :=
  { AnWfpHeader.new A tick service 0 with
    eType := AnWfpType.wfpSetTraceLevel.code
    dwTraceLevel := tracelevel }

end Constructors

/-! ## Archives -/

section Archives

variable (A : Arch)

def AnWfpHeader.codec : Codec (AnWfpHeader A) :=
  ((sizeT A).seq (dword.seq (dword.seq (word.seq (dword.seq (dword.seq dword)))))).iso
    (fun (nLen, eType, eStatus, hService, hWnd, reqId, dwStartTime) =>
      ⟨nLen, eType, eStatus, hService, hWnd, reqId, dwStartTime⟩)
    (fun m => (m.nLen, m.eType, m.eStatus, m.hService, m.hWnd, m.reqId, m.dwStartTime))
    (fun _ => rfl) (fun _ => rfl)

def AnWfpCancelAsyncRequest.codec : Codec (AnWfpCancelAsyncRequest A) :=
  (AnWfpHeader.codec A).iso (fun h => ⟨h⟩) (fun m => m.toAnWfpHeader) (fun _ => rfl) (fun _ => rfl)

def AnWfpClose.codec : Codec (AnWfpClose A) :=
  (AnWfpHeader.codec A).iso (fun h => ⟨h⟩) (fun m => m.toAnWfpHeader) (fun _ => rfl) (fun _ => rfl)

def AnWfpDeregister.codec : Codec (AnWfpDeregister A) :=
  ((AnWfpHeader.codec A).seq (dword.seq dword)).iso
    (fun (h, dwEventClass, hWndReg) => ⟨h, dwEventClass, hWndReg⟩)
    (fun m => (m.toAnWfpHeader, m.dwEventClass, m.hWndReg)) (fun _ => rfl) (fun _ => rfl)

def AnWfpExecute.codec : Codec (AnWfpExecute A) :=
  ((AnWfpHeader.codec A).seq (dword.seq ((stdString A).seq dword))).iso
    (fun (h, dwCommand, lpCmdData, dwTimeOut) => ⟨h, dwCommand, lpCmdData, dwTimeOut⟩)
    (fun m => (m.toAnWfpHeader, m.dwCommand, m.lpCmdData, m.dwTimeOut)) (fun _ => rfl) (fun _ => rfl)

def AnWfpGetInfo.codec : Codec (AnWfpGetInfo A) :=
  ((AnWfpHeader.codec A).seq (dword.seq ((stdString A).seq dword))).iso
    (fun (h, dwCategory, lpQueryDetails, dwTimeOut) => ⟨h, dwCategory, lpQueryDetails, dwTimeOut⟩)
    (fun m => (m.toAnWfpHeader, m.dwCategory, m.lpQueryDetails, m.dwTimeOut)) (fun _ => rfl) (fun _ => rfl)

def AnWfpLock.codec : Codec (AnWfpLock A) :=
  ((AnWfpHeader.codec A).seq dword).iso (fun (h, dwTimeOut) => ⟨h, dwTimeOut⟩)
    (fun m => (m.toAnWfpHeader, m.dwTimeOut)) (fun _ => rfl) (fun _ => rfl)

def AnWfpUnlock.codec : Codec (AnWfpUnlock A) :=
  (AnWfpHeader.codec A).iso (fun h => ⟨h⟩) (fun m => m.toAnWfpHeader) (fun _ => rfl) (fun _ => rfl)

def AnWfpOpen.codec : Codec (AnWfpOpen A) :=
  ((AnWfpHeader.codec A).seq ((stdString A).seq (dword.seq ((stdString A).seq (dword.seq (dword.seq
    (dword.seq (dword.seq dword)))))))).iso
    (fun (h, lpszLogicalName, hApp, lpszAppId, dwTraceLevel, dwTimeOut, hProvider, dwSpiVersionsRequired,
        dwSrvcVersionsRequired) =>
      ⟨h, lpszLogicalName, hApp, lpszAppId, dwTraceLevel, dwTimeOut, hProvider, dwSpiVersionsRequired,
        dwSrvcVersionsRequired⟩)
    (fun m => (m.toAnWfpHeader, m.lpszLogicalName, m.hApp, m.lpszAppId, m.dwTraceLevel, m.dwTimeOut, m.hProvider,
      m.dwSpiVersionsRequired, m.dwSrvcVersionsRequired))
    (fun _ => rfl) (fun _ => rfl)

def AnWfpRegister.codec : Codec (AnWfpRegister A) :=
  ((AnWfpHeader.codec A).seq (dword.seq dword)).iso
    (fun (h, dwEventClass, hWndReg) => ⟨h, dwEventClass, hWndReg⟩)
    (fun m => (m.toAnWfpHeader, m.dwEventClass, m.hWndReg)) (fun _ => rfl) (fun _ => rfl)

def AnWfpSetTraceLevel.codec : Codec (AnWfpSetTraceLevel A) :=
  ((AnWfpHeader.codec A).seq dword).iso (fun (h, dwTraceLevel) => ⟨h, dwTraceLevel⟩)
    (fun m => (m.toAnWfpHeader, m.dwTraceLevel)) (fun _ => rfl) (fun _ => rfl)

end Archives

/-! ## Command objects -/

/-- What an `an_WFP_header *` points to, by the class it was allocated with. -/
inductive AnCmd (A : Arch) where
  | header (m : AnWfpHeader A)
  | wfpCancelAsyncRequest (m : AnWfpCancelAsyncRequest A)
  | wfpClose (m : AnWfpClose A)
  | wfpDeregister (m : AnWfpDeregister A)
  | wfpExecute (m : AnWfpExecute A)
  | wfpGetInfo (m : AnWfpGetInfo A)
  | wfpLock (m : AnWfpLock A)
  | wfpOpen (m : AnWfpOpen A)
  | wfpRegister (m : AnWfpRegister A)
  | wfpSetTraceLevel (m : AnWfpSetTraceLevel A)
  | wfpUnlock (m : AnWfpUnlock A)
  deriving DecidableEq

namespace AnCmd

variable {A : Arch}

/-- The base-class part of a command. -/
def base : AnCmd A → AnWfpHeader A
  | .header m => m
  | .wfpCancelAsyncRequest m => m.toAnWfpHeader
  | .wfpClose m => m.toAnWfpHeader
  | .wfpDeregister m => m.toAnWfpHeader
  | .wfpExecute m => m.toAnWfpHeader
  | .wfpGetInfo m => m.toAnWfpHeader
  | .wfpLock m => m.toAnWfpHeader
  | .wfpOpen m => m.toAnWfpHeader
  | .wfpRegister m => m.toAnWfpHeader
  | .wfpSetTraceLevel m => m.toAnWfpHeader
  | .wfpUnlock m => m.toAnWfpHeader

/-- The same command with another base-class part. -/
def setBase (h : AnWfpHeader A) : AnCmd A → AnCmd A
  | .header _ => .header h
  | .wfpCancelAsyncRequest _ => .wfpCancelAsyncRequest ⟨h⟩
  | .wfpClose _ => .wfpClose ⟨h⟩
  | .wfpDeregister m => .wfpDeregister { m with toAnWfpHeader := h }
  | .wfpExecute m => .wfpExecute { m with toAnWfpHeader := h }
  | .wfpGetInfo m => .wfpGetInfo { m with toAnWfpHeader := h }
  | .wfpLock m => .wfpLock { m with toAnWfpHeader := h }
  | .wfpOpen m => .wfpOpen { m with toAnWfpHeader := h }
  | .wfpRegister m => .wfpRegister { m with toAnWfpHeader := h }
  | .wfpSetTraceLevel m => .wfpSetTraceLevel { m with toAnWfpHeader := h }
  | .wfpUnlock _ => .wfpUnlock ⟨h⟩

@[simp] theorem base_setBase (h : AnWfpHeader A) (m : AnCmd A) : (m.setBase h).base = h := by cases m <;> rfl

abbrev eType (m : AnCmd A) : Dword := m.base.eType

/-- The archive of a command, by its class. -/
def put : AnCmd A → List UInt8
  | .header m => (AnWfpHeader.codec A).put m
  | .wfpCancelAsyncRequest m => (AnWfpCancelAsyncRequest.codec A).put m
  | .wfpClose m => (AnWfpClose.codec A).put m
  | .wfpDeregister m => (AnWfpDeregister.codec A).put m
  | .wfpExecute m => (AnWfpExecute.codec A).put m
  | .wfpGetInfo m => (AnWfpGetInfo.codec A).put m
  | .wfpLock m => (AnWfpLock.codec A).put m
  | .wfpOpen m => (AnWfpOpen.codec A).put m
  | .wfpRegister m => (AnWfpRegister.codec A).put m
  | .wfpSetTraceLevel m => (AnWfpSetTraceLevel.codec A).put m
  | .wfpUnlock m => (AnWfpUnlock.codec A).put m

/-- The type a class of commands is sent as; the base class alone is never sent. -/
def sentAs : AnCmd A → Option AnWfpType
  | .header _ => none
  | .wfpCancelAsyncRequest _ => some .wfpCancelAsyncRequest
  | .wfpClose _ => some .wfpClose
  | .wfpDeregister _ => some .wfpDeregister
  | .wfpExecute _ => some .wfpExecute
  | .wfpGetInfo _ => some .wfpGetInfo
  | .wfpLock _ => some .wfpLock
  | .wfpOpen _ => some .wfpOpen
  | .wfpRegister _ => some .wfpRegister
  | .wfpSetTraceLevel _ => some .wfpSetTraceLevel
  | .wfpUnlock _ => some .wfpUnlock

end AnCmd

/-- A command of the SPI: one of the ten classes, its `eType` as the class's constructor sets it. -/
structure Command (A : Arch) where
  obj : AnCmd A
  sent : obj.sentAs.map AnWfpType.code = some obj.eType
  deriving DecidableEq

/-- `serialize_cmd`: the bytes of a constructed command. -/
def serializeCmd {A : Arch} (m : Command A) : List UInt8 := m.obj.put

end AnXfs.Pack
