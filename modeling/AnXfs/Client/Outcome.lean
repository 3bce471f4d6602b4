/-
What the return value of a call tells its caller: whether the command was handed over, and whether the
registry is as it was. Each of the ten entry points passes its outcome through `request` or, for an
Open, through `anpc_create_ipc`, and each layer can drop an error.
-/
import AnXfs.Client.Spi

namespace AnXfs.Client

open AnXfs.Wire AnXfs.Pack AnXfs.Data

variable {A : Arch} {api : XfsApi}

/-! ## The command of a call -/

/-- The command that a call serializes. -/
def SpiCall.command (A : Arch) (api : XfsApi) (env : CallEnv) : SpiCall → Command A
  | .wfpCancelAsyncRequest hService requestId =>
    ⟨.wfpCancelAsyncRequest (AnWfpCancelAsyncRequest.new A env.tick hService requestId), rfl⟩
  | .wfpClose hService hWnd reqId => ⟨.wfpClose (AnWfpClose.new A env.tick hService hWnd reqId), rfl⟩
  | .wfpDeregister hService dwEventClass hWndReg hWnd reqId =>
    ⟨.wfpDeregister (AnWfpDeregister.new A env.tick hService dwEventClass hWndReg hWnd reqId), rfl⟩
  | .wfpExecute hService dwCommand lpCmdData dwTimeOut hWnd reqId =>
    let cmdData := if dwCommand = api.wfsCmdCimCashInStart then lpCmdData.data A else StdString.empty A
    ⟨.wfpExecute (AnWfpExecute.new A env.tick hService dwCommand cmdData dwTimeOut hWnd reqId), rfl⟩
  | .wfpGetInfo hService dwCategory dwTimeOut hWnd reqId =>
    ⟨.wfpGetInfo (AnWfpGetInfo.new A env.tick hService dwCategory (StdString.empty A) dwTimeOut hWnd reqId), rfl⟩
  | .wfpLock hService dwTimeOut hWnd reqId => ⟨.wfpLock (AnWfpLock.new A env.tick hService dwTimeOut hWnd reqId), rfl⟩
  | .wfpOpen hService lpszLogicalName hApp lpszAppId dwTraceLevel dwTimeOut hWnd reqId hProvider
      dwSpiVersionsRequired _ dwSrvcVersionsRequired _ =>
    ⟨.wfpOpen (AnWfpOpen.new A env.tick env.uninit hService lpszLogicalName hApp lpszAppId dwTraceLevel dwTimeOut hWnd
      reqId hProvider dwSpiVersionsRequired dwSrvcVersionsRequired), rfl⟩
  | .wfpRegister hService dwEventClass hWndReg hWnd reqId =>
    ⟨.wfpRegister (AnWfpRegister.new A env.tick hService dwEventClass hWndReg hWnd reqId), rfl⟩
  | .wfpSetTraceLevel hService dwTraceLevel =>
    ⟨.wfpSetTraceLevel (AnWfpSetTraceLevel.new A env.tick hService dwTraceLevel), rfl⟩
  | .wfpUnlock hService hWnd reqId => ⟨.wfpUnlock (AnWfpUnlock.new A env.tick hService hWnd reqId), rfl⟩

/-! ## Sending -/

/-- `sendcmd` would post the command. -/
def AnCimSp.Posts (c : AnCimSp) (env : CallEnv) : Prop := c.ipc.active = true ∧ env.uvAsyncSend = 0

instance (c : AnCimSp) (env : CallEnv) : Decidable (c.Posts env) := by unfold AnCimSp.Posts; infer_instance

theorem sendcmd_posts {c : AnCimSp} {env : CallEnv} (h : c.Posts env) (data : List UInt8) :
    c.sendcmd data env.uvAsyncSend = ({ c with asyncs := c.asyncs ++ [data] }, 0) := by
  obtain ⟨ha, hu⟩ := h
  unfold AnCimSp.sendcmd
  simp [ha, hu]

theorem sendcmd_fails {c : AnCimSp} {env : CallEnv} (h : ¬ c.Posts env) (data : List UInt8) :
    ∃ r, r ≠ 0 ∧ c.sendcmd data env.uvAsyncSend = (c, r) := by
  unfold AnCimSp.sendcmd
  by_cases ha : c.ipc.active = false
  · exact ⟨1, by decide, by simp [ha]⟩
  · have hu : env.uvAsyncSend ≠ 0 := fun hu => h ⟨by simpa using ha, hu⟩
    exact ⟨env.uvAsyncSend, hu, by simp [ha, hu]⟩

/-- The four ways a request goes: no such service, no `CanIPC` to send by, the send fails, the command is posted. -/
theorem request_cases (c : AnCimSp) (hr : HResult) (m : Command A) (env : CallEnv) :
    (hr ≠ api.wfsSuccess ∧ c.request A api hr m env = (c, hr)) ∨
    (hr = api.wfsSuccess ∧ c.gPipc = false ∧ c.request A api hr m env = (c, hr)) ∨
    (hr = api.wfsSuccess ∧ c.gPipc = true ∧ ¬ c.Posts env ∧
      c.request A api hr m env = (c, api.wfsErrConnectionLost)) ∨
    (hr = api.wfsSuccess ∧ c.gPipc = true ∧ c.Posts env ∧
      c.request A api hr m env = ({ c with asyncs := c.asyncs ++ [serializeCmd m] }, hr)) := by
  unfold AnCimSp.request AnCimSp.sendXfsCmd AnCimSp.anpcSendCmd
  rw [api.success_eq]
  by_cases hhr : hr = 0
  · rw [if_neg (not_not.2 hhr)]
    cases hg : c.gPipc with
    | false => exact .inr (.inl ⟨hhr, rfl, by simp⟩)
    | true =>
      by_cases hp : c.Posts env
      · exact .inr (.inr (.inr ⟨hhr, rfl, hp, by simp [sendcmd_posts hp, hg]⟩))
      · obtain ⟨r, hne, hs⟩ := sendcmd_fails hp (serializeCmd m)
        exact .inr (.inr (.inl ⟨hhr, rfl, hp, by simp [hs, hne]⟩))
  · exact .inl ⟨hhr, by rw [if_pos hhr]⟩

theorem connectionLost_ne_success (api : XfsApi) : api.wfsErrConnectionLost ≠ api.wfsSuccess := by
  rw [api.success_eq]
  exact api.connectionLost_ne

/-! ## Success means handed over -/

/-- Exactly one message, holding the command, was posted to the loop. -/
def HandedOver (c c' : AnCimSp) (m : Command A) : Prop := c'.asyncs = c.asyncs ++ [serializeCmd m]

theorem not_handedOver {c c' : AnCimSp} (h : c'.asyncs = c.asyncs) (m : Command A) : ¬ HandedOver c c' m := by
  unfold HandedOver
  rw [h]
  simp

theorem request_handedOver_iff (c : AnCimSp) (hr : HResult) (m : Command A) (env : CallEnv) :
    ((c.request A api hr m env).2 = api.wfsSuccess ↔ HandedOver c (c.request A api hr m env).1 m) ↔
      (c.gPipc = true ∨ hr ≠ api.wfsSuccess) := by
  rcases @request_cases A api c hr m env with ⟨h, hq⟩ | ⟨h, hg, hq⟩ | ⟨h, hg, -, hq⟩ | ⟨h, hg, -, hq⟩ <;> rw [hq]
  · exact iff_of_true (iff_of_false h (not_handedOver rfl m)) (.inr h)
  · refine iff_of_false (fun hi => not_handedOver rfl m (hi.1 h)) ?_
    simp [hg, h]
  · exact iff_of_true (iff_of_false (connectionLost_ne_success api) (not_handedOver rfl m)) (.inl hg)
  · exact iff_of_true (iff_of_true h rfl) (.inl hg)

/-- Where an entry point reports success only for a command it has handed over: an Unlock where there is no
such service, an Open unless its connection fails after the versions matched, any other call where there is a
`CanIPC` to send by or no such service. -/
def SpiCall.Reports (api : XfsApi) (c : AnCimSp) (env : CallEnv) : SpiCall → Prop
  | .wfpUnlock hService .. => c.service.findService api hService ≠ api.wfsSuccess
  | .wfpOpen _ _ _ _ _ _ _ _ _ spi lpSpi srvc lpSrvc =>
    (spiVersionMatch api spi srvc lpSpi lpSrvc).1 = api.wfsSuccess → env.run = 0
  | call => c.gPipc = true ∨ c.service.findService api call.hService ≠ api.wfsSuccess

/-- An Open past the version match: the connection is not made, or the command is sent over it. -/
theorem wfpOpen_cases (c : AnCimSp) (hService : HService) (lpszLogicalName : List UInt8) (hApp : Dword)
    (lpszAppId : List UInt8) (dwTraceLevel dwTimeOut hWnd : Dword) (reqId : RequestId)
    (hProvider dwSpiVersionsRequired : Dword) (lpSpiVersion : Option WfsVersion) (dwSrvcVersionsRequired : Dword)
    (lpSrvcVersion : Option WfsVersion) (env : CallEnv) :
    let call : SpiCall := .wfpOpen hService lpszLogicalName hApp lpszAppId dwTraceLevel dwTimeOut hWnd reqId hProvider
      dwSpiVersionsRequired lpSpiVersion dwSrvcVersionsRequired lpSrvcVersion
    let hr := (spiVersionMatch api dwSpiVersionsRequired dwSrvcVersionsRequired lpSpiVersion lpSrvcVersion).1
    let c' := ({ c with service := c.service.push hService lpszAppId dwSrvcVersionsRequired }.anpcCreateIpc
      env.run env.active).1
    (hr ≠ api.wfsSuccess ∧ call.invoke A api c env = (c, hr)) ∨
    (hr = api.wfsSuccess ∧ env.run ≠ 0 ∧ call.invoke A api c env = (c', hr)) ∨
    (hr = api.wfsSuccess ∧ env.run = 0 ∧ ¬ c'.Posts env ∧
      call.invoke A api c env = (c', api.wfsErrConnectionLost)) ∨
    (hr = api.wfsSuccess ∧ env.run = 0 ∧ c'.Posts env ∧
      call.invoke A api c env =
        ({ c' with asyncs := c.asyncs ++ [serializeCmd (call.command A api env)] }, hr)) := by
  intro call hr c'
  have hinvoke : call.invoke A api c env = if hr ≠ api.wfsSuccess then (c, hr) else if env.run = 0 then
      if (c'.sendcmd (serializeCmd (call.command A api env)) env.uvAsyncSend).2 = 0 then
        ((c'.sendcmd (serializeCmd (call.command A api env)) env.uvAsyncSend).1, hr)
      else ((c'.sendcmd (serializeCmd (call.command A api env)) env.uvAsyncSend).1, api.wfsErrConnectionLost)
      else (c', hr) := rfl
  rw [hinvoke]
  by_cases hver : hr = api.wfsSuccess
  · rw [if_neg (not_not.2 hver)]
    by_cases hrun : env.run = 0
    · rw [if_pos hrun]
      by_cases hp : c'.Posts env
      · refine .inr (.inr (.inr ⟨hver, hrun, hp, ?_⟩))
        rw [sendcmd_posts hp]
        rfl
      · obtain ⟨r, hne, hs⟩ := sendcmd_fails hp (serializeCmd (call.command A api env))
        refine .inr (.inr (.inl ⟨hver, hrun, hp, ?_⟩))
        rw [hs]
        simp [hne]
    · exact .inr (.inl ⟨hver, hrun, by rw [if_neg hrun]⟩)
  · exact .inl ⟨hver, by rw [if_pos hver]⟩

/-- A call returns success exactly when it has handed its command over if and only if it is one that reports:
in every state of the client and whatever connecting and `uv_async_send` return. -/
theorem success_iff_handedOver_iff (A : Arch) (api : XfsApi) (c : AnCimSp) (env : CallEnv) (call : SpiCall) :
    ((call.invoke A api c env).2 = api.wfsSuccess ↔
        HandedOver c (call.invoke A api c env).1 (call.command A api env)) ↔ call.Reports api c env := by
  cases call with
  | wfpCancelAsyncRequest | wfpClose | wfpExecute | wfpGetInfo | wfpLock | wfpSetTraceLevel =>
    exact request_handedOver_iff c _ _ env
  | wfpDeregister hService dwEventClass hWndReg hWnd reqId =>
    exact request_handedOver_iff { c with
      service := (c.service.deregisterEvent api hService dwEventClass hWndReg).1 } _ _ env
  | wfpRegister hService dwEventClass hWndReg hWnd reqId =>
    exact request_handedOver_iff { c with
      service := (c.service.registerEvent api hService dwEventClass hWndReg).1 } _ _ env
  | wfpOpen hService name hApp appId trace timeOut hWnd reqId hProvider spi lpSpi srvc lpSrvc =>
    unfold SpiCall.Reports
    rcases @wfpOpen_cases A api c hService name hApp appId trace timeOut hWnd reqId hProvider spi lpSpi srvc lpSrvc env
      with ⟨h, hq⟩ | ⟨h, hrun, hq⟩ | ⟨h, hrun, -, hq⟩ | ⟨h, hrun, -, hq⟩ <;> rw [hq]
    · exact iff_of_true (iff_of_false h (not_handedOver rfl _)) (fun hv => absurd hv h)
    · exact iff_of_false (fun hi => not_handedOver rfl _ (hi.1 h)) (fun hi => hrun (hi h))
    · exact iff_of_true (iff_of_false (connectionLost_ne_success api) (not_handedOver rfl _)) (fun _ => hrun)
    · exact iff_of_true (iff_of_true h rfl) (fun _ => hrun)
  | wfpUnlock hService hWnd reqId =>
    -- nothing is sent, whatever the lookup says
    have hnot : ¬ HandedOver c ((SpiCall.wfpUnlock hService hWnd reqId).invoke A api c env).1
        ((SpiCall.wfpUnlock hService hWnd reqId).command A api env) := not_handedOver rfl _
    exact iff_false_right hnot

/-- An empty client. -/
def AnCimSp.new : AnCimSp := ⟨[], false, { CanIPC.connected with active := false, resultCb := false }, []⟩

/-- The client after an Open of service 1. -/
def AnCimSp.opened : AnCimSp :=
  (SpiCall.invoke .x86 .documented AnCimSp.new ⟨0, 0, 0, true, 0⟩
    (.wfpOpen 1 [] 0 [] 0 0 5 9 0 0x00030003 none 0x00030003 none)).1

/-- An Unlock of an open service succeeds and sends nothing. -/
theorem unlock_succeeds_unsent : AnCimSp.opened.gPipc = true ∧
    (let r := (SpiCall.wfpUnlock 1 5 10).invoke .x86 .documented AnCimSp.opened ⟨0, 0, 0, true, 0⟩
    ¬ (r.2 = XfsApi.documented.wfsSuccess ↔
      HandedOver AnCimSp.opened r.1 ((SpiCall.wfpUnlock 1 5 10).command .x86 .documented ⟨0, 0, 0, true, 0⟩))) := by
  refine ⟨by decide, fun h => ?_⟩
  exact not_handedOver rfl _ (h.1 (by decide))

/-- A request posts nothing, or its command, where it found the service and can send. -/
theorem request_asyncs (c : AnCimSp) (hr : HResult) (m : Command A) (env : CallEnv) :
    (c.request A api hr m env).1.asyncs = c.asyncs ∨
      (hr = api.wfsSuccess ∧ c.gPipc = true ∧ c.Posts env ∧
        (c.request A api hr m env).1.asyncs = c.asyncs ++ [serializeCmd m]) := by
  rcases @request_cases A api c hr m env with ⟨-, hq⟩ | ⟨-, -, hq⟩ | ⟨-, -, -, hq⟩ | ⟨h, hg, hp, hq⟩ <;> rw [hq]
  · exact .inl rfl
  · exact .inl rfl
  · exact .inl rfl
  · exact .inr ⟨h, hg, hp, rfl⟩

/-- A call posts nothing, or its command. -/
theorem invoke_asyncs (A : Arch) (api : XfsApi) (c : AnCimSp) (env : CallEnv) (call : SpiCall) :
    (call.invoke A api c env).1.asyncs = c.asyncs ∨
      (call.invoke A api c env).1.asyncs = c.asyncs ++ [serializeCmd (call.command A api env)] := by
  have hrequest : ∀ (c : AnCimSp) (hr : HResult) (m : Command A), (c.request A api hr m env).1.asyncs = c.asyncs ∨
      (c.request A api hr m env).1.asyncs = c.asyncs ++ [serializeCmd m] := fun c hr m =>
    (request_asyncs c hr m env).imp_right fun h => h.2.2.2
  cases call with
  | wfpCancelAsyncRequest | wfpClose | wfpExecute | wfpGetInfo | wfpLock | wfpSetTraceLevel => exact hrequest c _ _
  | wfpDeregister hService dwEventClass hWndReg hWnd reqId =>
    exact hrequest { c with service := (c.service.deregisterEvent api hService dwEventClass hWndReg).1 } _ _
  | wfpRegister hService dwEventClass hWndReg hWnd reqId =>
    exact hrequest { c with service := (c.service.registerEvent api hService dwEventClass hWndReg).1 } _ _
  | wfpOpen hService name hApp appId trace timeOut hWnd reqId hProvider spi lpSpi srvc lpSrvc =>
    rcases @wfpOpen_cases A api c hService name hApp appId trace timeOut hWnd reqId hProvider spi lpSpi srvc lpSrvc env
      with ⟨-, hq⟩ | ⟨-, -, hq⟩ | ⟨-, -, -, hq⟩ | ⟨-, -, -, hq⟩ <;> rw [hq]
    · exact .inl rfl
    · exact .inl rfl
    · exact .inl rfl
    · exact .inr rfl
  | wfpUnlock => exact .inl rfl

/-! ## Failure means untouched -/

/-- Where an entry point leaves the registry as it was unless it succeeds: an Open whose connection is made
sends its command, a Register or Deregister that cannot be sent changes nothing in the service's record. -/
def SpiCall.LeavesRegistry (api : XfsApi) (c : AnCimSp) (env : CallEnv) : SpiCall → Prop
  | .wfpOpen _ _ _ _ _ _ _ _ _ spi lpSpi srvc lpSrvc =>
    (spiVersionMatch api spi srvc lpSpi lpSrvc).1 = api.wfsSuccess → env.run = 0 →
      env.active = true ∧ env.uvAsyncSend = 0
  | .wfpRegister hService dwEventClass hWndReg _ _ => c.gPipc = true → ¬ c.Posts env →
    ∀ ref ∈ Table.lookup CanServiceInfo.hService hService c.service,
      ref.hWndReg = hWndReg ∧ ref.dwEventClass ||| dwEventClass = ref.dwEventClass
  | .wfpDeregister hService dwEventClass _ _ _ => c.gPipc = true → ¬ c.Posts env →
    ∀ ref ∈ Table.lookup CanServiceInfo.hService hService c.service,
      ref.dwEventClass &&& ~~~dwEventClass = ref.dwEventClass
  | _ => True

/-- A request that changes no registry of its own. -/
theorem request_service (c : AnCimSp) (hr : HResult) (m : Command A) (env : CallEnv) :
    (c.request A api hr m env).1.service = c.service := by
  rcases @request_cases A api c hr m env with ⟨-, hq⟩ | ⟨-, -, hq⟩ | ⟨-, -, -, hq⟩ | ⟨-, -, -, hq⟩ <;> rw [hq]

theorem request_handles {c : AnCimSp} {l : List HService} (hl : l.Sublist (c.service.map CanServiceInfo.hService))
    (hr : HResult) (m : Command A) (env : CallEnv) :
    l.Sublist ((c.request A api hr m env).1.service.map CanServiceInfo.hService) := by
  rw [request_service]
  exact hl

/-- No call removes a record. -/
theorem invoke_handles (A : Arch) (api : XfsApi) (c : AnCimSp) (env : CallEnv) (call : SpiCall) :
    (c.service.map CanServiceInfo.hService).Sublist
      ((call.invoke A api c env).1.service.map CanServiceInfo.hService) := by
  have hmodify : ∀ (f : CanServiceInfo → CanServiceInfo) (s : HService), (∀ ref, (f ref).hService = ref.hService) →
      (c.service.map CanServiceInfo.hService).Sublist
        ((CanServiceInfoAdmi.modifyFirst f s c.service).map CanServiceInfo.hService) := by
    intro f s hf
    rw [CanServiceInfoAdmi.modifyFirst_eq, Table.map_key_modify hf]
  cases call with
  | wfpCancelAsyncRequest | wfpClose | wfpExecute | wfpGetInfo | wfpLock | wfpSetTraceLevel =>
    exact request_handles (List.Sublist.refl _) _ _ env
  | wfpUnlock => exact List.Sublist.refl _
  | wfpDeregister hService dwEventClass hWndReg hWnd reqId =>
    exact request_handles (hmodify _ hService (CanServiceInfoAdmi.deregisterRecord_hService dwEventClass)) _ _ env
  | wfpRegister hService dwEventClass hWndReg hWnd reqId =>
    exact request_handles (hmodify _ hService (CanServiceInfoAdmi.registerRecord_hService dwEventClass hWndReg)) _ _ env
  | wfpOpen hService name hApp appId trace timeOut hWnd reqId hProvider spi lpSpi srvc lpSrvc =>
    have hpush : (c.service.map CanServiceInfo.hService).Sublist
        ((c.service.push hService appId srvc).map CanServiceInfo.hService) := by
      rw [CanServiceInfoAdmi.push, List.map_append]
      exact List.sublist_append_left _ _
    rcases @wfpOpen_cases A api c hService name hApp appId trace timeOut hWnd reqId hProvider spi lpSpi srvc lpSrvc env
      with ⟨-, hq⟩ | ⟨-, -, hq⟩ | ⟨-, -, -, hq⟩ | ⟨-, -, -, hq⟩ <;> rw [hq]
    · exact hpush
    · exact hpush
    · exact hpush

/-- A request after a change of the service's record. -/
theorem request_leaves_iff (c : AnCimSp) (f : CanServiceInfo → CanServiceInfo) (hService : HService) (m : Command A)
    (env : CallEnv) :
    let r := { c with service := CanServiceInfoAdmi.modifyFirst f hService c.service }.request A api
      (CanServiceInfoAdmi.found c.service api hService) m env
    (r.2 ≠ api.wfsSuccess → r.1.service = c.service) ↔ (c.gPipc = true → ¬ c.Posts env →
      ∀ ref ∈ Table.lookup CanServiceInfo.hService hService c.service, f ref = ref) := by
  intro r
  have hservice : r.1.service = CanServiceInfoAdmi.modifyFirst f hService c.service := request_service _ _ _ _
  rw [hservice, CanServiceInfoAdmi.modifyFirst_eq, Table.modify_eq_self_iff]
  rcases @request_cases A api { c with service := CanServiceInfoAdmi.modifyFirst f hService c.service }
      (CanServiceInfoAdmi.found c.service api hService) m env with
    ⟨h, hq⟩ | ⟨h, hg, hq⟩ | ⟨h, hg, hp, hq⟩ | ⟨h, hg, hp, hq⟩
  · -- there is no record to change
    have hnone : Table.lookup CanServiceInfo.hService hService c.service = none := by
      rw [Table.lookup_eq_none]
      intro ref href heq
      exact h (CanServiceInfoAdmi.found_iff.2 ⟨ref, href, heq⟩)
    rw [hnone]
    exact iff_of_true (fun _ x hx => by cases hx) (fun _ _ x hx => by cases hx)
  · refine iff_of_true (fun hne => absurd ?_ hne) (fun ht => absurd (hg.symm.trans ht) (by decide))
    show r.2 = _
    rw [show r = _ from hq]
    exact h
  · constructor
    · intro hl _ _
      refine hl ?_
      rw [show r = _ from hq]
      exact connectionLost_ne_success api
    · intro hl _
      exact hl hg hp
  · refine iff_of_true (fun hne => absurd ?_ hne) (fun _ hn => absurd hp hn)
    rw [show r = _ from hq]
    exact h

/-- A call that does not succeed leaves the registry as it was if and only if it is one of those: in every
state of the client and whatever the version match, connecting and `uv_async_send` return. -/
theorem failed_leaves_registry_iff (A : Arch) (api : XfsApi) (c : AnCimSp) (env : CallEnv) (call : SpiCall) :
    ((call.invoke A api c env).2 ≠ api.wfsSuccess → (call.invoke A api c env).1.service = c.service) ↔
      call.LeavesRegistry api c env := by
  cases call with
  | wfpCancelAsyncRequest | wfpClose | wfpExecute | wfpGetInfo | wfpLock | wfpSetTraceLevel =>
    exact iff_of_true (fun _ => request_service c _ _ env) trivial
  | wfpUnlock => exact iff_of_true (fun _ => rfl) trivial
  | wfpRegister hService dwEventClass hWndReg hWnd reqId =>
    refine (request_leaves_iff c _ hService _ env).trans ?_
    unfold SpiCall.LeavesRegistry
    refine imp_congr_right fun _ => imp_congr_right fun _ => forall_congr' fun ref => imp_congr_right fun _ => ?_
    obtain ⟨h, w, e, i, v⟩ := ref
    simp only [CanServiceInfo.mk.injEq, true_and, and_true]
    exact and_congr_left fun _ => eq_comm
  | wfpDeregister hService dwEventClass hWndReg hWnd reqId =>
    refine (request_leaves_iff c _ hService _ env).trans ?_
    unfold SpiCall.LeavesRegistry
    refine imp_congr_right fun _ => imp_congr_right fun _ => forall_congr' fun ref => imp_congr_right fun _ => ?_
    obtain ⟨h, w, e, i, v⟩ := ref
    simp only [CanServiceInfo.mk.injEq, true_and, and_true]
  | wfpOpen hService name hApp appId trace timeOut hWnd reqId hProvider spi lpSpi srvc lpSrvc =>
    unfold SpiCall.LeavesRegistry
    rcases @wfpOpen_cases A api c hService name hApp appId trace timeOut hWnd reqId hProvider spi lpSpi srvc lpSrvc env
      with ⟨h, hq⟩ | ⟨h, hrun, hq⟩ | ⟨h, hrun, hp, hq⟩ | ⟨h, hrun, hp, hq⟩ <;> rw [hq]
    · exact iff_of_true (fun _ => rfl) (fun hv => absurd hv h)
    · exact iff_of_true (fun hne => absurd h hne) (fun _ hr => absurd hr hrun)
    · -- the record is there and the command is not sent
      refine iff_of_false (fun hl => ?_) (fun hl => hp (hl h hrun))
      have hpush := hl (connectionLost_ne_success api)
      simp [AnCimSp.anpcCreateIpc, CanServiceInfoAdmi.push] at hpush
    · exact iff_of_true (fun hne => absurd h hne) (fun _ _ => hp)

/-- A Register whose command cannot be sent has registered its window all the same. -/
theorem register_fails_registered : AnCimSp.opened.gPipc = true ∧
    (let r := (SpiCall.wfpRegister 1 1 77 5 10).invoke .x86 .documented AnCimSp.opened ⟨0, 0, 0, true, -1⟩
    ¬ (r.2 ≠ XfsApi.documented.wfsSuccess → r.1.service = AnCimSp.opened.service)) := by
  decide

end AnXfs.Client
