/-
The entry points of the service provider (`anCIM_sp.cpp`) down to `CanIPC::sendcmd`. Each looks its
service up in the registry, serializes its command and hands it to the loop of the connection, where
`on_send_cmd` will write it. `invoke_sent` says what a call adds to the loop.
-/
import AnXfs.Client.Handler
import AnXfs.Client.Ipc

namespace AnXfs.Client

open AnXfs.Wire AnXfs.Pack

/-! ## State -/

/-- The globals of `anCIM_sp`: `g_service_info`, whether `g_pipc` is set, the `CanIPC` it points to, and
the commands that `uv_async_send` has accepted and `on_send_cmd` has not seen yet. -/
structure AnCimSp where
  service : CanServiceInfoAdmi
  gPipc : Bool
  ipc : CanIPC
  asyncs : List (List UInt8)

/-- What a call does not decide itself: the reading of `GetTickCount`, the memory that `hApp` of an Open is
left with, what `CanIPC::run` returns and whether the pipe is active then, and what `uv_async_send` returns. -/
structure CallEnv where
  tick : Dword
  uninit : Dword
  run : Int
  active : Bool
  uvAsyncSend : Int

/-! ## Arguments -/

/-- `an_wfs_cim_cash_in_start`. -/
structure AnWfsCimCashInStart where
  usTellerId : Word
  bUseRecycleUnits : Dword
  fwOutputPosition : Word
  fwInputPosition : Word
  deriving DecidableEq

def AnWfsCimCashInStart.codec : Codec AnWfsCimCashInStart :=
  (word.seq (dword.seq (word.seq word))).iso
    (fun (usTellerId, bUseRecycleUnits, fwOutputPosition, fwInputPosition) =>
      ⟨usTellerId, bUseRecycleUnits, fwOutputPosition, fwInputPosition⟩)
    (fun m => (m.usTellerId, m.bUseRecycleUnits, m.fwOutputPosition, m.fwInputPosition)) (fun _ => rfl) (fun _ => rfl)

/-- The archive of the arguments of a cash-in start. -/
def AnWfsCimCashInStart.data (A : Arch) (m : AnWfsCimCashInStart) : StdString A :=
  StdString.ofShort A (AnWfsCimCashInStart.codec.put m) (by
    simp [AnWfsCimCashInStart.codec, Codec.iso, Codec.seq, word, dword, Codec.word])

/-- `WFSVERSION`; the rest of both strings is zero. -/
structure WfsVersion where
  wVersion : Word
  wLowVersion : Word
  wHighVersion : Word
  szDescription : List UInt8
  szSystemStatus : List UInt8
  deriving DecidableEq

/-- `AN_SPI_VER_DES`. -/
def anSpiVerDes : List UInt8 := ascii "anXFS SPI 3.00-3.30"

/-- `spi_version_match`, with what it writes to the two structures where they are given. -/
def spiVersionMatch (api : XfsApi) (dwSpiVersionsRequired dwSrvcVersionsRequired : Dword)
    (lpSpiVersion lpSrvcVersion : Option WfsVersion) : HResult × Option WfsVersion × Option WfsVersion :=
  let spi : WfsVersion := ⟨0x0003, 0x0003, 0x0003, anSpiVerDes, []⟩
  let srvc : WfsVersion := ⟨0x0203, 0x0003, 0x0203, anSpiVerDes, []⟩
  let wSpiHv : Word := dwSpiVersionsRequired.setWidth 16
  let wSpiLv : Word := (dwSpiVersionsRequired >>> 16).setWidth 16
  let wSrvHv : Word := dwSrvcVersionsRequired.setWidth 16
  let wSrvLv : Word := (dwSrvcVersionsRequired >>> 16).setWidth 16
  let hr :=
    if wSpiHv > 0xff03 then api.wfsErrSpiVerTooHigh
    else if wSrvHv > 0xff03 then api.wfsErrSrvcVerTooHigh
    else if wSpiLv < 0x0001 then api.wfsErrSpiVerTooLow
    else if wSrvLv < 0x0001 then api.wfsErrSrvcVerTooLow
    else api.wfsSuccess
  (hr, lpSpiVersion.map fun _ => spi, lpSrvcVersion.map fun _ => srvc)

namespace AnCimSp

/-! ## Sending -/

section Sending

variable (c : AnCimSp)

/-- `CanIPC::sendcmd`. -/
def sendcmd (data : List UInt8) (uvAsyncSend : Int) : AnCimSp × Int :=
  if c.ipc.active = false then (c, 1)
  else if uvAsyncSend = 0 then ({ c with asyncs := c.asyncs ++ [data] }, 0)
  else (c, uvAsyncSend)

/-- `anpc_send_cmd`. -/
def anpcSendCmd (cmd : List UInt8) (uvAsyncSend : Int) : AnCimSp × Int :=
  if c.gPipc then c.sendcmd cmd uvAsyncSend else (c, 0)

/-- `send_xfs_cmd`. -/
def sendXfsCmd (buffer : List UInt8) (uvAsyncSend : Int) : AnCimSp × Int := c.anpcSendCmd buffer uvAsyncSend

/-- `anpc_create_ipc`; `run` is what `CanIPC::run` returns, `active` the state it leaves the pipe in. -/
def anpcCreateIpc (run : Int) (active : Bool) : AnCimSp × Int :=
  -- a pipe that is active is not closing
  let ipc := { c.ipc with resultCb := true, active := active, closing := c.ipc.closing && !active }
  ({ c with gPipc := true, ipc := ipc }, run)

end Sending

/-! ## Entry points -/

section EntryPoints

variable (A : Arch) (api : XfsApi) (c : AnCimSp)

/-- What most entry points end with: the outcome `hr` of the lookup is returned if it is an error, and the
command is sent otherwise. -/
def request (hr : HResult) (m : Command A) (env : CallEnv) : AnCimSp × HResult :=
  if hr ≠ 0 then (c, hr)
  else
    let (c, r) := c.sendXfsCmd (serializeCmd m) env.uvAsyncSend
    if r = 0 then (c, hr) else (c, api.wfsErrConnectionLost)

def wfpCancelAsyncRequest (hService : HService) (requestId : RequestId) (env : CallEnv) : AnCimSp × HResult :=
  c.request A api (c.service.findService api hService)
    ⟨.wfpCancelAsyncRequest (AnWfpCancelAsyncRequest.new A env.tick hService requestId), rfl⟩ env

/-- `WFPClose`. The `anpc_close_ipc` after a successful send does nothing. -/
def wfpClose (hService : HService) (hWnd : Dword) (reqId : RequestId) (env : CallEnv) : AnCimSp × HResult :=
  c.request A api (c.service.findService api hService)
    ⟨.wfpClose (AnWfpClose.new A env.tick hService hWnd reqId), rfl⟩ env

def wfpDeregister (hService : HService) (dwEventClass hWndReg hWnd : Dword) (reqId : RequestId) (env : CallEnv) :
    AnCimSp × HResult :=
  let (service, hr) := c.service.deregisterEvent api hService dwEventClass hWndReg
  { c with service := service }.request A api hr
    ⟨.wfpDeregister (AnWfpDeregister.new A env.tick hService dwEventClass hWndReg hWnd reqId), rfl⟩ env

/-- `WFPExecute`; `lpCmdData` is what the pointer points to for the one command that reads it. -/
def wfpExecute (hService : HService) (dwCommand : Dword) (lpCmdData : AnWfsCimCashInStart) (dwTimeOut hWnd : Dword)
    (reqId : RequestId) (env : CallEnv) : AnCimSp × HResult :=
  let cmdData := if dwCommand = api.wfsCmdCimCashInStart then lpCmdData.data A else StdString.empty A
  c.request A api (c.service.findService api hService)
    ⟨.wfpExecute (AnWfpExecute.new A env.tick hService dwCommand cmdData dwTimeOut hWnd reqId), rfl⟩ env

/-- `WFPGetInfo`, which does not read `lpQueryDetails`. -/
def wfpGetInfo (hService : HService) (dwCategory dwTimeOut hWnd : Dword) (reqId : RequestId) (env : CallEnv) :
    AnCimSp × HResult :=
  c.request A api (c.service.findService api hService)
    ⟨.wfpGetInfo (AnWfpGetInfo.new A env.tick hService dwCategory (StdString.empty A) dwTimeOut hWnd reqId), rfl⟩ env

def wfpLock (hService : HService) (dwTimeOut hWnd : Dword) (reqId : RequestId) (env : CallEnv) : AnCimSp × HResult :=
  c.request A api (c.service.findService api hService)
    ⟨.wfpLock (AnWfpLock.new A env.tick hService dwTimeOut hWnd reqId), rfl⟩ env

/-- `WFPOpen`. A connection that cannot be made leaves `hr` as it is. -/
def wfpOpen (hService : HService) (lpszLogicalName : List UInt8) (hApp : Dword) (lpszAppId : List UInt8)
    (dwTraceLevel dwTimeOut hWnd : Dword) (reqId : RequestId) (hProvider dwSpiVersionsRequired : Dword)
    (lpSpiVersion : Option WfsVersion) (dwSrvcVersionsRequired : Dword) (lpSrvcVersion : Option WfsVersion)
    (env : CallEnv) : AnCimSp × HResult :=
  let (hr, _) := spiVersionMatch api dwSpiVersionsRequired dwSrvcVersionsRequired lpSpiVersion lpSrvcVersion
  if hr ≠ api.wfsSuccess then (c, hr)
  else
    let c := { c with service := c.service.push hService lpszAppId dwSrvcVersionsRequired }
    let m : Command A := ⟨.wfpOpen (AnWfpOpen.new A env.tick env.uninit hService lpszLogicalName hApp lpszAppId
      dwTraceLevel dwTimeOut hWnd reqId hProvider dwSpiVersionsRequired dwSrvcVersionsRequired), rfl⟩
    let (c, ret) := c.anpcCreateIpc env.run env.active
    if ret = 0 then
      let (c, ret) := c.sendXfsCmd (serializeCmd m) env.uvAsyncSend
      if ret = 0 then (c, hr) else (c, api.wfsErrConnectionLost)
    else (c, hr)

def wfpRegister (hService : HService) (dwEventClass hWndReg hWnd : Dword) (reqId : RequestId) (env : CallEnv) :
    AnCimSp × HResult :=
  let (service, hr) := c.service.registerEvent api hService dwEventClass hWndReg
  { c with service := service }.request A api hr
    ⟨.wfpRegister (AnWfpRegister.new A env.tick hService dwEventClass hWndReg hWnd reqId), rfl⟩ env

def wfpSetTraceLevel (hService : HService) (dwTraceLevel : Dword) (env : CallEnv) : AnCimSp × HResult :=
  c.request A api (c.service.findService api hService)
    ⟨.wfpSetTraceLevel (AnWfpSetTraceLevel.new A env.tick hService dwTraceLevel), rfl⟩ env

/-- `WFPUnlock`. The command is serialized into a buffer that is not sent. -/
def wfpUnlock (hService : HService) (_hWnd : Dword) (_reqId : RequestId) : AnCimSp × HResult :=
  (c, c.service.findService api hService)

end EntryPoints

end AnCimSp

/-! ## Calls -/

/-- A call of one of the ten entry points that stand for a command, with its arguments. -/
inductive SpiCall where
  | wfpCancelAsyncRequest (hService : HService) (requestId : RequestId)
  | wfpClose (hService : HService) (hWnd : Dword) (reqId : RequestId)
  | wfpDeregister (hService : HService) (dwEventClass hWndReg hWnd : Dword) (reqId : RequestId)
  | wfpExecute (hService : HService) (dwCommand : Dword) (lpCmdData : AnWfsCimCashInStart) (dwTimeOut hWnd : Dword)
      (reqId : RequestId)
  | wfpGetInfo (hService : HService) (dwCategory dwTimeOut hWnd : Dword) (reqId : RequestId)
  | wfpLock (hService : HService) (dwTimeOut hWnd : Dword) (reqId : RequestId)
  | wfpOpen (hService : HService) (lpszLogicalName : List UInt8) (hApp : Dword) (lpszAppId : List UInt8)
      (dwTraceLevel dwTimeOut hWnd : Dword) (reqId : RequestId) (hProvider dwSpiVersionsRequired : Dword)
      (lpSpiVersion : Option WfsVersion) (dwSrvcVersionsRequired : Dword) (lpSrvcVersion : Option WfsVersion)
  | wfpRegister (hService : HService) (dwEventClass hWndReg hWnd : Dword) (reqId : RequestId)
  | wfpSetTraceLevel (hService : HService) (dwTraceLevel : Dword)
  | wfpUnlock (hService : HService) (hWnd : Dword) (reqId : RequestId)
  deriving DecidableEq

namespace SpiCall

/-- The type of the command a call stands for. -/
def type : SpiCall → AnWfpType
  | .wfpCancelAsyncRequest .. => .wfpCancelAsyncRequest
  | .wfpClose .. => .wfpClose
  | .wfpDeregister .. => .wfpDeregister
  | .wfpExecute .. => .wfpExecute
  | .wfpGetInfo .. => .wfpGetInfo
  | .wfpLock .. => .wfpLock
  | .wfpOpen .. => .wfpOpen
  | .wfpRegister .. => .wfpRegister
  | .wfpSetTraceLevel .. => .wfpSetTraceLevel
  | .wfpUnlock .. => .wfpUnlock

def hService : SpiCall → HService
  | .wfpCancelAsyncRequest h .. | .wfpClose h .. | .wfpDeregister h .. | .wfpExecute h .. | .wfpGetInfo h ..
  | .wfpLock h .. | .wfpOpen h .. | .wfpRegister h .. | .wfpSetTraceLevel h .. | .wfpUnlock h .. => h

/-- The window of a call; Cancel and SetTraceLevel have none. -/
def hWnd : SpiCall → Dword
  | .wfpCancelAsyncRequest .. | .wfpSetTraceLevel .. => 0
  | .wfpClose _ w _ | .wfpDeregister _ _ _ w _ | .wfpExecute _ _ _ _ w _ | .wfpGetInfo _ _ _ w _ | .wfpLock _ _ w _
  | .wfpOpen _ _ _ _ _ _ w _ _ _ _ _ _ | .wfpRegister _ _ _ w _ | .wfpUnlock _ w _ => w

/-- The request id that travels with a call: its own, the one to cancel, or 0. -/
def reqId : SpiCall → RequestId
  | .wfpSetTraceLevel .. => 0
  | .wfpCancelAsyncRequest _ r | .wfpClose _ _ r | .wfpDeregister _ _ _ _ r | .wfpExecute _ _ _ _ _ r
  | .wfpGetInfo _ _ _ _ r | .wfpLock _ _ _ r | .wfpOpen _ _ _ _ _ _ _ r _ _ _ _ _ | .wfpRegister _ _ _ _ r
  | .wfpUnlock _ _ r => r

/-- A call made. -/
def invoke (A : Arch) (api : XfsApi) (c : AnCimSp) (env : CallEnv) : SpiCall → AnCimSp × HResult
  | .wfpCancelAsyncRequest hService requestId => c.wfpCancelAsyncRequest A api hService requestId env
  | .wfpClose hService hWnd reqId => c.wfpClose A api hService hWnd reqId env
  | .wfpDeregister hService dwEventClass hWndReg hWnd reqId =>
    c.wfpDeregister A api hService dwEventClass hWndReg hWnd reqId env
  | .wfpExecute hService dwCommand lpCmdData dwTimeOut hWnd reqId =>
    c.wfpExecute A api hService dwCommand lpCmdData dwTimeOut hWnd reqId env
  | .wfpGetInfo hService dwCategory dwTimeOut hWnd reqId =>
    c.wfpGetInfo A api hService dwCategory dwTimeOut hWnd reqId env
  | .wfpLock hService dwTimeOut hWnd reqId => c.wfpLock A api hService dwTimeOut hWnd reqId env
  | .wfpOpen hService lpszLogicalName hApp lpszAppId dwTraceLevel dwTimeOut hWnd reqId hProvider
      dwSpiVersionsRequired lpSpiVersion dwSrvcVersionsRequired lpSrvcVersion =>
    c.wfpOpen A api hService lpszLogicalName hApp lpszAppId dwTraceLevel dwTimeOut hWnd reqId hProvider
      dwSpiVersionsRequired lpSpiVersion dwSrvcVersionsRequired lpSrvcVersion env
  | .wfpRegister hService dwEventClass hWndReg hWnd reqId =>
    c.wfpRegister A api hService dwEventClass hWndReg hWnd reqId env
  | .wfpSetTraceLevel hService dwTraceLevel => c.wfpSetTraceLevel A api hService dwTraceLevel env
  | .wfpUnlock hService hWnd reqId => c.wfpUnlock api hService hWnd reqId

end SpiCall

/-! ## What a call sends -/

variable {A : Arch} {api : XfsApi}

/-- A client whose connection is up: `g_pipc` is set, the pipe is active and the callback registered. -/
structure AnCimSp.Up (c : AnCimSp) : Prop where
  gPipc : c.gPipc = true
  active : c.ipc.active = true
  closing : c.ipc.closing = false
  resultCb : c.ipc.resultCb = true
  fault : c.ipc.fault = none

/-- The client `c'` differs from `c` in its registry and in the commands accepted, `sent`. -/
def AnCimSp.Sent (c c' : AnCimSp) (sent : List (List UInt8)) : Prop :=
  ∃ service, c' = { c with service := service, asyncs := c.asyncs ++ sent }

/-- The command is what the call stands for. -/
structure SpiCall.Stands (call : SpiCall) (m : Command A) : Prop where
  eType : m.obj.eType = call.type.code
  hService : m.obj.base.hService = call.hService
  hWnd : m.obj.base.hWnd = call.hWnd
  reqId : m.obj.base.reqId = call.reqId

/-- On a connection that is up, sending succeeds and adds the command, or fails and adds nothing. -/
theorem sendXfsCmd_up {c : AnCimSp} (hc : c.Up) (buffer : List UInt8) (uvAsyncSend : Int) :
    c.sendXfsCmd buffer uvAsyncSend = ({ c with asyncs := c.asyncs ++ [buffer] }, 0) ∨
      ∃ r, r ≠ 0 ∧ c.sendXfsCmd buffer uvAsyncSend = (c, r) := by
  unfold AnCimSp.sendXfsCmd AnCimSp.anpcSendCmd AnCimSp.sendcmd
  rw [hc.gPipc, hc.active]
  by_cases h : uvAsyncSend = 0
  · left; simp [h]
  · right; exact ⟨uvAsyncSend, h, by simp [h]⟩

/-- The connection is there already, and `anpc_create_ipc` registers the same callback again. -/
theorem anpcCreateIpc_up {c : AnCimSp} (hc : c.Up) : c.anpcCreateIpc 0 true = (c, 0) := by
  obtain ⟨service, gPipc, ⟨active, closing, resultCb, wire, fault⟩, asyncs⟩ := c
  obtain ⟨hg, ha, hcl, hr, -⟩ := hc
  simp only at hg ha hcl hr
  subst hg ha hcl hr
  rfl

/-- A request that succeeds has sent its command, any other has sent nothing. -/
theorem request_sent {c : AnCimSp} (hc : c.Up) (hr : HResult) (m : Command A) (env : CallEnv) :
    ((c.request A api hr m env).2 = api.wfsSuccess → c.Sent (c.request A api hr m env).1 [serializeCmd m]) ∧
      ((c.request A api hr m env).2 ≠ api.wfsSuccess → c.Sent (c.request A api hr m env).1 []) := by
  unfold AnCimSp.request
  rw [api.success_eq]
  by_cases hhr : hr = 0
  · rw [if_neg (not_not.2 hhr)]
    rcases sendXfsCmd_up hc (serializeCmd m) env.uvAsyncSend with hs | ⟨r, hne, hs⟩
    · rw [hs]
      simp only [if_true]
      exact ⟨fun _ => ⟨c.service, rfl⟩, fun h => absurd hhr h⟩
    · rw [hs]
      simp only [if_neg hne]
      exact ⟨fun h => absurd h api.connectionLost_ne, fun _ => ⟨c.service, by simp⟩⟩
  · rw [if_pos hhr]
    exact ⟨fun h => absurd h hhr, fun _ => ⟨c.service, by simp⟩⟩

/-- A connection stays up whatever is on its wire. -/
theorem AnCimSp.Up.congr {c c' : AnCimSp} (hc : c.Up) {wire : List (List UInt8)} (hg : c'.gPipc = c.gPipc)
    (hi : c'.ipc = { c.ipc with wire := wire }) : c'.Up := by
  refine ⟨hg.trans hc.gPipc, ?_, ?_, ?_, ?_⟩ <;> rw [hi]
  · exact hc.active
  · exact hc.closing
  · exact hc.resultCb
  · exact hc.fault

theorem AnCimSp.Up.withService {c : AnCimSp} (hc : c.Up) (service : CanServiceInfoAdmi) :
    { c with service := service }.Up :=
  hc.congr rfl rfl

theorem AnCimSp.Sent.withService {c c' : AnCimSp} {service : CanServiceInfoAdmi} {sent : List (List UInt8)}
    (h : { c with service := service }.Sent c' sent) : c.Sent c' sent := by
  obtain ⟨service', rfl⟩ := h
  exact ⟨service', rfl⟩

/-- All calls but Unlock send their command when they succeed. -/
def SpiCall.sends : SpiCall → Bool
  | .wfpUnlock .. => false
  | _ => true

/-- An Open on a connection that is up. -/
theorem wfpOpen_sent {c : AnCimSp} (hc : c.Up) {env : CallEnv} (hrun : env.run = 0 ∧ env.active = true)
    (hService : HService)
    (lpszLogicalName : List UInt8) (hApp : Dword) (lpszAppId : List UInt8) (dwTraceLevel dwTimeOut hWnd : Dword)
    (reqId : RequestId) (hProvider dwSpiVersionsRequired : Dword) (lpSpiVersion : Option WfsVersion)
    (dwSrvcVersionsRequired : Dword) (lpSrvcVersion : Option WfsVersion) :
    let m : Command A := ⟨.wfpOpen (AnWfpOpen.new A env.tick env.uninit hService lpszLogicalName hApp lpszAppId
      dwTraceLevel dwTimeOut hWnd reqId hProvider dwSpiVersionsRequired dwSrvcVersionsRequired), rfl⟩
    let r := c.wfpOpen A api hService lpszLogicalName hApp lpszAppId dwTraceLevel dwTimeOut hWnd reqId hProvider
      dwSpiVersionsRequired lpSpiVersion dwSrvcVersionsRequired lpSrvcVersion env
    (r.2 = api.wfsSuccess → c.Sent r.1 [serializeCmd m]) ∧ (r.2 ≠ api.wfsSuccess → c.Sent r.1 []) := by
  intro m r
  have hr : r = c.wfpOpen A api hService lpszLogicalName hApp lpszAppId dwTraceLevel dwTimeOut hWnd reqId hProvider
      dwSpiVersionsRequired lpSpiVersion dwSrvcVersionsRequired lpSrvcVersion env := rfl
  unfold AnCimSp.wfpOpen at hr
  generalize (spiVersionMatch api dwSpiVersionsRequired dwSrvcVersionsRequired lpSpiVersion lpSrvcVersion) = v at hr
  obtain ⟨hv, versions⟩ := v
  simp only at hr
  by_cases hver : hv = api.wfsSuccess
  · rw [if_neg (not_not.2 hver)] at hr
    have hup := hc.withService (c.service.push hService lpszAppId dwSrvcVersionsRequired)
    rw [hrun.1, hrun.2, anpcCreateIpc_up hup] at hr
    simp only [if_true] at hr
    rcases sendXfsCmd_up hup (serializeCmd m) env.uvAsyncSend with hs | ⟨r', hne, hs⟩
    · rw [hs] at hr
      simp only [if_true] at hr
      rw [hr]
      exact ⟨fun _ => ⟨_, rfl⟩, fun h => absurd hver h⟩
    · rw [hs] at hr
      simp only [if_neg hne] at hr
      rw [hr]
      refine ⟨fun h => ?_, fun _ => ⟨_, by rw [List.append_nil]⟩⟩
      rw [api.success_eq] at h
      exact absurd h api.connectionLost_ne
  · rw [if_pos hver] at hr
    rw [hr]
    exact ⟨fun h => absurd h hver, fun _ => ⟨c.service, by rw [List.append_nil]⟩⟩

/-- On a connection that is up, a call that succeeds has sent the command it stands for, unless it is an
Unlock, and a call that fails has sent nothing. -/
theorem invoke_sent (A : Arch) (api : XfsApi) {c : AnCimSp} (hc : c.Up) {env : CallEnv}
    (hrun : env.run = 0 ∧ env.active = true) (call : SpiCall) :
    ∃ m : Command A, call.Stands m ∧
      ((call.invoke A api c env).2 = api.wfsSuccess →
        c.Sent (call.invoke A api c env).1 (if call.sends then [serializeCmd m] else [])) ∧
      ((call.invoke A api c env).2 ≠ api.wfsSuccess → c.Sent (call.invoke A api c env).1 []) := by
  cases call with
  | wfpCancelAsyncRequest | wfpClose | wfpExecute | wfpGetInfo | wfpLock | wfpSetTraceLevel =>
    exact ⟨_, ⟨rfl, rfl, rfl, rfl⟩, request_sent hc _ _ env⟩
  | wfpDeregister | wfpRegister =>
    obtain ⟨h1, h2⟩ := @request_sent A api _ (hc.withService _) _ _ env
    exact ⟨_, ⟨rfl, rfl, rfl, rfl⟩, fun h => (h1 h).withService, fun h => (h2 h).withService⟩
  | wfpOpen hService logicalName hApp appId trace timeOut hWnd reqId hProvider spi lpSpi srvc lpSrvc =>
    exact ⟨_, ⟨rfl, rfl, rfl, rfl⟩,
      wfpOpen_sent hc hrun hService logicalName hApp appId trace timeOut hWnd reqId hProvider spi lpSpi srvc lpSrvc⟩
  | wfpUnlock hService hWnd reqId =>
    refine ⟨⟨.wfpUnlock (AnWfpUnlock.new A env.tick hService hWnd reqId), rfl⟩, ⟨rfl, rfl, rfl, rfl⟩,
      fun _ => ?_, fun _ => ?_⟩
    · exact ⟨c.service, by simp [SpiCall.invoke, AnCimSp.wfpUnlock, SpiCall.sends]⟩
    · exact ⟨c.service, by simp [SpiCall.invoke, AnCimSp.wfpUnlock]⟩

end AnXfs.Client
