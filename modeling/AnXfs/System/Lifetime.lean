/-
How long a service stays registered. The commands of a client travel to the server as bytes and its
results come back as bytes; the client removes a record by the code of a result, which for an Execute
or a GetInfo is whatever code the application called it with.
-/
import AnXfs.Client.Outcome
import AnXfs.Server.Order

namespace AnXfs.System

open AnXfs.Wire AnXfs.Pack AnXfs.Data AnXfs.Run AnXfs.Server AnXfs.Client

variable {A : Arch} {api : XfsApi}

/-! ## The exchange -/

/-- What the server answers a command with: a GetInfo in its loop, any other command when it is executed. -/
def serverReply (x : CanXfs A api) (arg : AnCmd A) (client : Option Addr) (origin : Option ConnId)
    (now : AnSystemtime) : Except Fault Notice :=
  if arg.eType = AnWfpType.wfpGetInfo.code then spiGetinfo x arg client origin now
  else (cmdHandler x arg client origin now).map Prod.snd

/-- A call, the answer to the command at `k` from the proxy in any state and with any mark on the command, or an
event. An answer may come at any time after its command, and more than once. -/
inductive ExchangeInput (A : Arch) (api : XfsApi) where
  | call (call : SpiCall) (env : CallEnv)
  | answer (k : Nat) (x : CanXfs A api) (eStatus : Dword) (client : Option Addr) (origin : Option ConnId)
      (now : AnSystemtime) (mem : Bool)
  | event (r : AnXfsResult A) (mem : Bool)

/-- `handled`: `xfs_result_handler` was called with the result. -/
inductive ExchangeEvent (A : Arch) where
  | called (call : SpiCall) (hr : HResult)
  | handled (r : AnXfsResult A)

/-- `xfs_result_handler` on a result that was read. -/
def handleResult (api : XfsApi) (c : AnCimSp) (r : AnXfsResult A) (mem : Bool) :
    Option (AnCimSp × List (ExchangeEvent A)) :=
  match xfsResultHandler api c.service r mem with
  | .ok (service, _) => some ({ c with service := service }, [.handled r])
  | .error _ => none

/-- The client and the server that answers it. The commands accepted stay in `asyncs`. -/
def exchange (A : Arch) (api : XfsApi) : Machine AnCimSp (ExchangeInput A api) (ExchangeEvent A) where
  step c
    | .call call env =>
      let (c', hr) := call.invoke A api c env
      some (c', [.called call hr])
    | .answer k x eStatus client origin now mem =>
      match c.asyncs[k]? with
      | none => none
      | some bytes =>
        match (readCmd bytes : Except Fault (AnCmd A × List UInt8)) with
        | .error _ => none
        | .ok (m, _) =>
          match serverReply x (withStatus eStatus m) client origin now with
          | .error _ => none
          | .ok n =>
            match (AnXfsResult.codec A).get n.buf with
            | none => none
            | some (r, _) => handleResult api c r mem
    | .event r mem => if anGetXfsmessageClass api r.dwMsg = 0 then none else handleResult api c r mem

/-- The records of a service. -/
def recordsOf (c : AnCimSp) (hService : HService) : Nat := (c.service.map CanServiceInfo.hService).count hService

/-- A step that removes a record of a service processes the completion of a Close of it. -/
def RemovedByClose (api : XfsApi) (c t : AnCimSp) (e : List (ExchangeEvent A)) : Prop :=
  ∀ hService, recordsOf t hService < recordsOf c hService →
    ∃ r, e = [.handled r] ∧ r.dwMsg = api.wfsCloseComplete ∧ r.hService = hService

/-! ## The condition -/

/-- An Execute or a GetInfo called with the code `WFS_CLOSE_COMPLETE`. -/
def CloseCoded (api : XfsApi) : SpiCall → Prop
  | .wfpExecute _ dwCommand .. => dwCommand = api.wfsCloseComplete
  | .wfpGetInfo _ dwCategory .. => dwCategory = api.wfsCloseComplete
  | _ => False

instance (call : SpiCall) : Decidable (CloseCoded api call) := by
  unfold CloseCoded; split <;> infer_instance

/-- No command of such a call is sent: the service is not there, or the client cannot send. -/
def NoCloseCode (c : AnCimSp) : ExchangeInput A api → Prop
  | .call call env => CloseCoded api call → c.service.findService api call.hService = api.wfsSuccess →
      c.gPipc = true → ¬ c.Posts env
  | _ => True

instance (c : AnCimSp) (i : ExchangeInput A api) : Decidable (NoCloseCode c i) := by
  unfold NoCloseCode; split <;> infer_instance

/-- The commands sent are of other calls. -/
def SentUncoded (A : Arch) (api : XfsApi) (c : AnCimSp) : Prop :=
  ∀ bytes ∈ c.asyncs, ∃ (call : SpiCall) (env : CallEnv), ¬ CloseCoded api call ∧
    bytes = serializeCmd (call.command A api env)

theorem sentUncoded_call {c : AnCimSp} {call : SpiCall} {env : CallEnv} (hs : SentUncoded A api c)
    (hg : NoCloseCode c (.call call env : ExchangeInput A api)) : SentUncoded A api (call.invoke A api c env).1 := by
  by_cases hcode : CloseCoded api call
  · -- nothing is posted
    have hnone : (call.invoke A api c env).1.asyncs = c.asyncs := by
      cases call with
      | wfpExecute | wfpGetInfo =>
        rcases request_asyncs (A := A) c _ _ env with h | ⟨hfound, hpipc, hposts, -⟩
        · exact h
        · exact absurd hposts (hg hcode hfound hpipc)
      | _ => exact absurd hcode id
    intro bytes hb
    rw [hnone] at hb
    exact hs bytes hb
  · intro bytes hb
    rcases invoke_asyncs A api c env call with h | h
    · rw [h] at hb
      exact hs bytes hb
    · rw [h] at hb
      rcases List.mem_append.1 hb with hb | hb
      · exact hs bytes hb
      · exact ⟨call, env, hcode, List.mem_singleton.1 hb⟩

/-! ## Answers -/

/-- The answer to a command of a call that is not coded so carries the code `WFS_CLOSE_COMPLETE` only if it
completes a Close. -/
theorem answer_code {call : SpiCall} {env : CallEnv} (hcode : ¬ CloseCoded api call) {x : CanXfs A api}
    {eStatus : Dword} {client : Option Addr} {origin : Option ConnId} {now : AnSystemtime} {n : Notice}
    (hn : serverReply x (withStatus eStatus (call.command A api env).obj) client origin now = .ok n)
    {r : AnXfsResult A} {rest : List UInt8} (hr : (AnXfsResult.codec A).get n.buf = some (r, rest))
    (hu : r.u = api.wfsCloseComplete) : r.dwMsg = api.wfsCloseComplete := by
  have hget : ∀ r' : AnXfsResult A, n.buf = serializeResult (AnXfsResult.codec A) r' → r = r' := by
    intro r' hbuf
    have h := unserializeResult_serializeResult (AnXfsResult.codec A) r' []
    rw [List.append_nil, ← hbuf, unserializeResult, hr] at h
    exact Option.some.inj h
  unfold serverReply at hn
  split at hn
  · obtain ⟨-, -, -, m, harg, hbuf⟩ := spiGetinfo_ok hn
    obtain rfl := hget _ hbuf
    cases call with
    | wfpGetInfo =>
      cases harg
      rw [(getinfoResult_fields x _ now).2.2.2.2.1] at hu
      exact absurd hu hcode
    | _ => cases harg
  · cases hp : cmdHandler x (withStatus eStatus (call.command A api env).obj) client origin now with
    | error f => rw [hp] at hn; cases hn
    | ok p =>
      rw [hp] at hn
      cases hn
      obtain ⟨t, c, ht, hc, -, hn'⟩ := cmdHandler_ok (show _ = Except.ok (p.1, p.2) from hp)
      obtain rfl := hget _ (congrArg Notice.buf hn')
      cases c with
      | anWfpexecuteImpl =>
        -- only an Execute is executed there, with the code of its call
        have htype : t = call.type := AnWfpType.code_injective (ht.symm.trans (by cases call <;> rfl))
        rw [htype] at hc
        cases call with
        | wfpExecute => exact absurd hu hcode
        | _ => cases hc
      | _ => exact hu

/-! ## All runs -/

theorem recordsOf_call (c : AnCimSp) (call : SpiCall) (env : CallEnv) (hService : HService) :
    recordsOf c hService ≤ recordsOf (call.invoke A api c env).1 hService :=
  (invoke_handles A api c env call).count_le _

/-- Handling a result removes at most a record of the service it carries, and only by its code. -/
theorem handleResult_some {c t : AnCimSp} {r : AnXfsResult A} {mem : Bool} {e : List (ExchangeEvent A)}
    (h : handleResult api c r mem = some (t, e)) :
    e = [.handled r] ∧ t.asyncs = c.asyncs ∧
      ∀ hService, recordsOf t hService < recordsOf c hService →
        anGetXfsmessageClass api r.dwMsg = 0 ∧ r.u = api.wfsCloseComplete ∧ r.hService = hService := by
  unfold handleResult at h
  split at h
  · rename_i service posts hx
    cases h
    refine ⟨rfl, rfl, fun hService hlt => ?_⟩
    rcases handler_service hx with rfl | ⟨hclass, hu, rfl⟩
    · exact absurd hlt (lt_irrefl _)
    · refine ⟨hclass, hu, ?_⟩
      by_contra hne
      have hcount : ((Table.delete CanServiceInfo.hService r.hService c.service).map CanServiceInfo.hService).count
          hService = recordsOf c hService := Table.count_delete_of_ne (Ne.symm hne) c.service
      exact absurd hlt (not_lt.2 hcount.ge)
  · cases h

theorem exchange_step {c t : AnCimSp} {i : ExchangeInput A api} {e : List (ExchangeEvent A)}
    (hs : SentUncoded A api c) (hg : NoCloseCode c i) (hstep : (exchange A api).step c i = some (t, e)) :
    SentUncoded A api t ∧ RemovedByClose api c t e := by
  cases i with
  | call call env =>
    cases hstep
    exact ⟨sentUncoded_call hs hg, fun hService hlt => absurd hlt (not_lt.2 (recordsOf_call c call env hService))⟩
  | answer k x eStatus client origin now mem =>
    simp only [exchange] at hstep
    split at hstep
    · cases hstep
    rename_i bytes hbytes
    split at hstep
    · cases hstep
    rename_i m rest hm
    split at hstep
    · cases hstep
    rename_i n hn
    split at hstep
    · cases hstep
    rename_i r rest' hr
    obtain ⟨rfl, hasyncs, hremoved⟩ := handleResult_some hstep
    refine ⟨fun b hb => hs b (hasyncs ▸ hb), fun hService hlt => ?_⟩
    obtain ⟨-, hu, hh⟩ := hremoved hService hlt
    obtain ⟨call, env, hcode, rfl⟩ := hs bytes (List.mem_of_getElem? hbytes)
    -- the bytes are read back as the command they were written from
    have hread := readCmd_put (call.command A api env).built []
    rw [List.append_nil] at hread
    obtain ⟨rfl, -⟩ := Prod.mk.inj (Except.ok.inj (hread.symm.trans hm))
    exact ⟨r, rfl, answer_code hcode hn hr hu, hh⟩
  | event r mem =>
    simp only [exchange] at hstep
    split at hstep
    · cases hstep
    rename_i hclass
    obtain ⟨rfl, hasyncs, hremoved⟩ := handleResult_some hstep
    exact ⟨fun b hb => hs b (hasyncs ▸ hb), fun hService hlt => absurd (hremoved hService hlt).1 hclass⟩

/-- In a run in which no Execute and no GetInfo with the code `WFS_CLOSE_COMPLETE` is sent, a record of a service is
removed only by the completion of a Close of that service. -/
theorem removed_by_close_of_uncoded {c : AnCimSp} {is : List (ExchangeInput A api)} (hc : c.asyncs = [])
    (hm : (exchange A api).Meets NoCloseCode c is) :
    (exchange A api).AtEach (fun _ c _ t e _ => RemovedByClose api c t e) c is := by
  refine Machine.atEach_of_meets (M := exchange A api) (G := NoCloseCode) (I := fun _ c => SentUncoded A api c)
    (fun h c i t e hs hg hstep => (exchange_step hs hg hstep).1) ?_ ?_ hm
  · intro h c i t e is v e' hs hg hstep _ _
    exact (exchange_step hs hg hstep).2
  · intro bytes hb
    rw [hc] at hb
    cases hb

/-- Service 1 is opened, executes a command, and is closed; each command is answered. -/
def openExecuteClose : List (ExchangeInput .x86 .documented) :=
  [.call (.wfpOpen 1 [] 0 [] 0 0 5 1 0 0x00030003 none 0x00030003 none) ⟨0, 0, 0, true, 0⟩,
    .answer 0 .blank 0 none none midnight true,
    .call (.wfpExecute 1 1302 ⟨0, 0, 0, 0⟩ 0 5 2) ⟨0, 0, 0, true, 0⟩,
    .answer 1 .blank 0 none none midnight true,
    .call (.wfpClose 1 5 3) ⟨0, 0, 0, true, 0⟩,
    .answer 2 .blank 0 none none midnight true]

theorem openExecuteClose_removed_by_close : (exchange .x86 .documented).AtEach
    (fun _ c _ t e _ => RemovedByClose .documented c t e) AnCimSp.new openExecuteClose :=
  removed_by_close_of_uncoded rfl (by decide +kernel)

/-- The completion of an Execute with the code of a Close removes the record. -/
theorem execute_removes_service : ¬ (exchange .x86 .documented).AtEach
    (fun _ c _ t e _ => RemovedByClose .documented c t e) AnCimSp.new
    ([.call (.wfpOpen 1 [] 0 [] 0 0 5 1 0 0x00030003 none 0x00030003 none) ⟨0, 0, 0, true, 0⟩,
      .call (.wfpExecute 1 0x402 ⟨0, 0, 0, 0⟩ 0 5 2) ⟨0, 0, 0, true, 0⟩] ++
      .answer 1 .blank 0 none none midnight true :: []) := by
  refine Machine.not_atEach (fun _ c t e _ => recordsOf t 1 < recordsOf c 1 ∧ e.all fun
    | .handled r => r.dwMsg = 0x408
    | _ => true) ?_ (by decide +kernel)
  rintro h c t e later hq hr
  obtain ⟨hlt, hall⟩ := of_decide_eq_true hq
  obtain ⟨r, rfl, hmsg, -⟩ := hr 1 hlt
  simp only [List.all_cons, List.all_nil, Bool.and_true, decide_eq_true_eq] at hall
  rw [hall] at hmsg
  revert hmsg
  decide

end AnXfs.System
