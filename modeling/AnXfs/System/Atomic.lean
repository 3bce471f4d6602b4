/-
The entry points as one thread would run them. Whatever the threads of the applications and the worker do, every
run of `threadsMachine` stands for a run in which each call is one step, `SpiCall.invoke`, taken where the
thread has its access to the registry, and each callback is one step too: the calls return the same in the same
order, and the same messages are posted in the same order.

Where a call takes effect in that run it is not settled yet whether its command will be handed over; the run is
found backwards, with the rest of the call as its prophecy.
-/
import AnXfs.Run.Backward
import AnXfs.System.Contract
import AnXfs.System.Mutexes

namespace AnXfs.System

open AnXfs.Wire AnXfs.Pack AnXfs.Run AnXfs.Client

variable {A : Arch} {api : XfsApi}

/-! ## The atomic machine -/

/-- A call, an initialisation of the loop that loses the first `n` commands, `on_send_cmd` of the command at `i`, and
`on_read` of a chunk. -/
inductive AtomicInput where
  | call (c : SpiCall) (env : CallEnv)
  | loopInit (n : Nat)
  | onSendCmd (i : Nat) (isActive : Bool) (uvWrite : Int)
  | onRead (chunk : List UInt8) (mem : Bool)

namespace Globals

variable (g : Globals)

/-- A call made by the only thread there is. -/
def call (A : Arch) (api : XfsApi) (c : SpiCall) (env : CallEnv) : Globals × HResult :=
  let (sp, hr) := c.invoke A api (g.sp env.active) env
  (.of sp, hr)

def onRead (A : Arch) (api : XfsApi) (chunk : List UInt8) (mem : Bool) : Globals × List (SpiEvent A api) :=
  match onClientRead A api (g.sp true) chunk mem with
  | .error f => ({ g with fault := some f }, [.fault f])
  | .ok (sp, posts) => (.of sp, posts.map .posted)

def step (A : Arch) (api : XfsApi) (i : AtomicInput) : Option (Globals × List (SpiEvent A api)) :=
  if g.fault ≠ none then none else
  match i with
  | .call c env => some ((g.call A api c env).1, [.returned c (g.call A api c env).2])
  | .loopInit n => some ({ g with asyncs := g.asyncs.drop n }, [])
  | .onSendCmd i isActive uvWrite => (g.onSendCmd i isActive uvWrite).map fun g => (g, [])
  | .onRead chunk mem => some (g.onRead A api chunk mem)

end Globals

def atomicMachine (A : Arch) (api : XfsApi) : Machine Globals AtomicInput (SpiEvent A api) where
  step := fun g i => g.step A api i

/-- What a step of the threads from `s` to `s'` stands for. A call takes effect where its thread is in the registry, or
where `spi_version_match` has refused it; a callback where it ends. -/
inductive TakesEffect (api : XfsApi) (s : Threads A) : ThreadsInput → Threads A → Option AtomicInput → Prop
  | registry {t : Nat} {env : AppEnv} {c : SpiCall} (env' : CallEnv) {s' : Threads A} : s.app t = .has c .service →
      env'.tick = env.tick → env'.uninit = env.uninit → TakesEffect api s (.app t env) s' (some (.call c env'))
  | refused {t : Nat} {env : AppEnv} {c : SpiCall} (env' : CallEnv) {s' : Threads A} : s.app t = .entered c →
      onVersions api c ≠ api.wfsSuccess → TakesEffect api s (.app t env) s' (some (.call c env'))
  | elsewhere {t : Nat} {env : AppEnv} {s' : Threads A} : (∀ c, s.app t ≠ .has c .service) →
      (∀ c, s.app t = .entered c → onVersions api c = api.wfsSuccess) → TakesEffect api s (.app t env) s' none
  | called {t : Nat} {e : Entry} {s' : Threads A} : TakesEffect api s (.call t e) s' none
  | loopInit {w : Nat} {pipeInit : Int} {s' : Threads A} :
      TakesEffect api s (.worker (.init w 0 pipeInit)) s' (some (.loopInit s.globals.asyncs.length))
  | worker {i : ConnectInput} {s' : Threads A} : (∀ w pipeInit, i ≠ .init w 0 pipeInit) →
      TakesEffect api s (.worker i) s' none
  | onSendCmd {w i : Nat} {isActive : Bool} {uvWrite : Int} {s' : Threads A} :
      TakesEffect api s (.onSendCmd w i isActive uvWrite) s' (some (.onSendCmd i isActive uvWrite))
  | reads {w : Nat} {chunk : List UInt8} {mem : Bool} {s' : Threads A} : s'.handler = none →
      TakesEffect api s (.onRead w chunk mem) s' (some (.onRead chunk mem))
  | readsOn {w : Nat} {chunk : List UInt8} {mem : Bool} {s' : Threads A} : s'.handler ≠ none →
      TakesEffect api s (.onRead w chunk mem) s' none
  | ends {h : Handler A} {s' : Threads A} : s.handler = some h → h.locked = true →
      TakesEffect api s .handler s' (some (.onRead h.chunk h.mem))
  | waits {h : Handler A} {s' : Threads A} : s.handler = some h → h.locked = false → TakesEffect api s .handler s' none

/-! ## What a call does -/

section Call

variable (g : Globals) (c : SpiCall) (env : CallEnv)

/-- A call that is refused for its versions. -/
theorem call_refused (hv : onVersions api c ≠ api.wfsSuccess) : g.call A api c env = (g, onVersions api c) := by
  cases c with
  | wfpOpen =>
    simp only [onVersions] at hv
    simp only [Globals.call, SpiCall.invoke, AnCimSp.wfpOpen, onVersions, if_pos hv, Globals.of_sp]
  | wfpCancelAsyncRequest | wfpClose | wfpDeregister | wfpExecute | wfpGetInfo | wfpLock | wfpRegister
  | wfpSetTraceLevel | wfpUnlock => exact absurd rfl hv

end Call

/-- The calls that send a command on a connection that is there. -/
theorem invoke_request (c : SpiCall) (hopen : c.type ≠ .wfpOpen) (hunlock : c.type ≠ .wfpUnlock) (sp : AnCimSp)
    (env : CallEnv) : ∃ m : Command A, serializeCmd m = serialized A api env.tick env.uninit c ∧
      c.invoke A api sp env = AnCimSp.request A api { sp with service := (onService api sp.service c).1 }
        (onService api sp.service c).2 m env := by
  cases c with
  | wfpOpen => exact absurd rfl hopen
  | wfpUnlock => exact absurd rfl hunlock
  | wfpCancelAsyncRequest | wfpClose | wfpDeregister | wfpExecute | wfpGetInfo | wfpLock | wfpRegister
  | wfpSetTraceLevel => exact ⟨_, rfl, rfl⟩

/-- An Open makes the connection first. -/
theorem invoke_open (c : SpiCall) (hopen : c.type = .wfpOpen) (hv : onVersions api c = api.wfsSuccess) (sp : AnCimSp)
    (env : CallEnv) : c.invoke A api sp env =
      (let sp' := (AnCimSp.anpcCreateIpc { sp with service := (onService api sp.service c).1 } env.run env.active).1
      if env.run = 0 then
        if (sp'.sendXfsCmd (serialized A api env.tick env.uninit c) env.uvAsyncSend).2 = 0 then
          ((sp'.sendXfsCmd (serialized A api env.tick env.uninit c) env.uvAsyncSend).1, api.wfsSuccess)
        else ((sp'.sendXfsCmd (serialized A api env.tick env.uninit c) env.uvAsyncSend).1, api.wfsErrConnectionLost)
      else (sp', api.wfsSuccess)) := by
  cases c with
  | wfpOpen =>
    simp only [onVersions] at hv
    simp only [SpiCall.invoke, AnCimSp.wfpOpen, hv, AnCimSp.anpcCreateIpc, onService, serialized]
    simp only [ne_eq, not_true_eq_false, if_false]
    rfl
  | wfpCancelAsyncRequest | wfpClose | wfpDeregister | wfpExecute | wfpGetInfo | wfpLock | wfpRegister
  | wfpSetTraceLevel | wfpUnlock => cases hopen

section Sends

variable (g : Globals) (c : SpiCall) (env : CallEnv)

/-- A call that the registry refuses, and Unlock. -/
theorem call_ends (hv : onVersions api c = api.wfsSuccess)
    (h : (onService api g.service c).2 ≠ 0 ∨ c.type = .wfpUnlock) :
    g.call A api c env = ({ g with service := (onService api g.service c).1 }, (onService api g.service c).2) := by
  by_cases hu : c.type = .wfpUnlock
  · cases c <;> cases hu
    rfl
  have h := h.resolve_right hu
  have hopen : c.type ≠ .wfpOpen := by
    intro hc
    cases c <;> cases hc
    exact h api.success_eq
  obtain ⟨m, -, hm⟩ := @invoke_request A api c hopen hu (g.sp env.active) env
  have hs : (onService api (g.sp env.active).service c).2 ≠ 0 := h
  rw [Globals.call, hm, AnCimSp.request, if_pos hs]
  rfl

/-- A call whose command is handed over. -/
theorem call_sends (hopen : c.type ≠ .wfpOpen) (hunlock : c.type ≠ .wfpUnlock) (h : (onService api g.service c).2 = 0)
    (hg : g.gPipc = true) (hactive : env.active = true) (hsend : env.uvAsyncSend = 0) :
    g.call A api c env = ({ g with
      service := (onService api g.service c).1
      asyncs := g.asyncs ++ [serialized A api env.tick env.uninit c] }, 0) := by
  obtain ⟨m, hser, hm⟩ := @invoke_request A api c hopen hunlock (g.sp env.active) env
  have hs : (onService api (g.sp env.active).service c).2 = 0 := h
  rw [Globals.call, hm, AnCimSp.request, hs, if_neg (not_not.2 rfl)]
  simp only [AnCimSp.sendXfsCmd, AnCimSp.anpcSendCmd, AnCimSp.sendcmd, Globals.sp, hg, hactive, hsend, hser, if_true,
    Bool.true_eq_false, if_false, Globals.of]

/-- A call whose command is not handed over. -/
theorem call_fails (hopen : c.type ≠ .wfpOpen) (hunlock : c.type ≠ .wfpUnlock) (h : (onService api g.service c).2 = 0)
    (hg : g.gPipc = true) (hactive : env.active = false) :
    g.call A api c env = ({ g with service := (onService api g.service c).1 }, api.wfsErrConnectionLost) := by
  obtain ⟨m, -, hm⟩ := @invoke_request A api c hopen hunlock (g.sp env.active) env
  have hs : (onService api (g.sp env.active).service c).2 = 0 := h
  rw [Globals.call, hm, AnCimSp.request, hs, if_neg (not_not.2 rfl)]
  simp only [AnCimSp.sendXfsCmd, AnCimSp.anpcSendCmd, AnCimSp.sendcmd, Globals.sp, hg, hactive, if_true,
    show ¬ (1 : Int) = 0 by decide, if_false, Globals.of]

/-- A call that finds no connection. -/
theorem call_unconnected (hopen : c.type ≠ .wfpOpen) (hunlock : c.type ≠ .wfpUnlock)
    (h : (onService api g.service c).2 = 0) (hg : g.gPipc = false) :
    g.call A api c env = ({ g with service := (onService api g.service c).1 }, 0) := by
  obtain ⟨m, -, hm⟩ := @invoke_request A api c hopen hunlock (g.sp env.active) env
  have hs : (onService api (g.sp env.active).service c).2 = 0 := h
  rw [Globals.call, hm, AnCimSp.request, hs, if_neg (not_not.2 rfl)]
  simp only [AnCimSp.sendXfsCmd, AnCimSp.anpcSendCmd, Globals.sp, hg, Bool.false_eq_true, if_false, if_true, Globals.of]

section Open

variable (hopen : c.type = .wfpOpen) (hv : onVersions api c = api.wfsSuccess)
include hopen hv

theorem open_sends (hrun : env.run = 0) (hactive : env.active = true) (hsend : env.uvAsyncSend = 0) :
    g.call A api c env = ({ g with
      service := (onService api g.service c).1
      gPipc := true
      resultCb := true
      asyncs := g.asyncs ++ [serialized A api env.tick env.uninit c] }, api.wfsSuccess) := by
  rw [Globals.call, invoke_open c hopen hv]
  simp only [AnCimSp.anpcCreateIpc, AnCimSp.sendXfsCmd, AnCimSp.anpcSendCmd, AnCimSp.sendcmd, Globals.sp, hrun, hactive,
    hsend, if_true, Bool.true_eq_false, if_false, Globals.of]

theorem open_fails (hrun : env.run = 0) (hactive : env.active = false) :
    g.call A api c env = ({ g with
      service := (onService api g.service c).1
      gPipc := true
      resultCb := true }, api.wfsErrConnectionLost) := by
  rw [Globals.call, invoke_open c hopen hv]
  simp only [AnCimSp.anpcCreateIpc, AnCimSp.sendXfsCmd, AnCimSp.anpcSendCmd, AnCimSp.sendcmd, Globals.sp, hrun, hactive,
    if_true, show ¬ (1 : Int) = 0 by decide, if_false, Globals.of]

theorem open_unconnected (hrun : env.run ≠ 0) :
    g.call A api c env = ({ g with
      service := (onService api g.service c).1
      gPipc := true
      resultCb := true }, api.wfsSuccess) := by
  rw [Globals.call, invoke_open c hopen hv]
  simp only [if_neg hrun, AnCimSp.anpcCreateIpc, Globals.sp, Globals.of]

end Open

end Sends

/-! ## What a read does -/

theorem onRead_throws {g : Globals} {chunk : List UInt8} {mem : Bool} (hget : (AnXfsResult.codec A).get chunk = none) :
    g.onRead A api chunk mem = ({ g with fault := some .exception }, [.fault .exception]) := by
  simp only [Globals.onRead, onClientRead, CanIPC.onRead, hget]

section Handled

variable {g : Globals} (hf : g.fault = none) {chunk rest : List UInt8} {mem : Bool} {r : AnXfsResult A}
  (hget : (AnXfsResult.codec A).get chunk = some (r, rest)) (hcb : g.resultCb = true)

include hf hget hcb

theorem onClientRead_eq : onClientRead A api (g.sp true) chunk mem = (xfsResultHandler api g.service r mem).map
    fun q => ({ g.sp true with service := q.1 }, q.2) := by
  simp only [onClientRead, CanIPC.onRead, hget, Globals.sp, hcb, hf, resultsOf]
  rfl

theorem onRead_handles {service : CanServiceInfoAdmi} {posts : List (Message A api)}
    (hr : xfsResultHandler api g.service r mem = .ok (service, posts)) :
    g.onRead A api chunk mem = ({ g with service := service }, posts.map .posted) := by
  rw [Globals.onRead, onClientRead_eq hf hget hcb, hr]
  rfl

theorem onRead_fails {f : Fault} (hr : xfsResultHandler api g.service r mem = .error f) :
    g.onRead A api chunk mem = ({ g with fault := some f }, [.fault f]) := by
  rw [Globals.onRead, onClientRead_eq hf hget hcb, hr]
  rfl

end Handled

/-! ## The prophecy -/

/-- What is still to come of the calls that have taken effect: what they return, the command that is handed over, and
whether it is an Open whose connection is not made yet. -/
structure Prophecy where
  calls : List (SpiCall × HResult)
  cmds : List (List UInt8)
  opening : Bool

def Prophecy.nothing : Prophecy := ⟨[], [], false⟩

/-- A call that returns `hr`, with nothing else to come. -/
def Prophecy.returns (c : SpiCall) (hr : HResult) : Prophecy := ⟨[(c, hr)], [], false⟩

/-- The ends that a call can come to from a piece on. -/
def Piece.ends (api : XfsApi) (gPipc : Bool) (c : SpiCall) : Piece → List Prophecy
  | .service => [.nothing]
  | .anpcCreateIpc hr cmd _ => [⟨[(c, hr)], [cmd], true⟩, ⟨[(c, api.wfsErrConnectionLost)], [], true⟩, ⟨[(c, hr)], [], true⟩]
  | .anpcMalloc hr cmd | .anpcSendCmd hr cmd .isActive =>
    if gPipc then [⟨[(c, hr)], [cmd], false⟩, .returns c api.wfsErrConnectionLost] else [.returns c hr]
  | .anpcSendCmd hr cmd .uvAsyncSend => [⟨[(c, hr)], [cmd], false⟩, .returns c api.wfsErrConnectionLost]
  | .anpcCloseIpc hr => [.returns c hr]

def AppPc.ends (api : XfsApi) (gPipc : Bool) : AppPc → List Prophecy
  | .wants c p | .has c p => p.ends api gPipc c
  | .leaves c hr => [.returns c hr]
  | _ => [.nothing]

/-- Where the thread that has `g_mtx` stands. -/
def Threads.holder (s : Threads A) : AppPc :=
  match s.owner .gMtx with
  | some (.app t) => s.app t
  | _ => .out

/-- The globals of the atomic run, by a prophecy. -/
def Globals.ahead (g : Globals) (p : Prophecy) : Globals :=
  { g with asyncs := g.asyncs ++ p.cmds, gPipc := g.gPipc || p.opening, resultCb := g.resultCb || p.opening }

@[simp] theorem Globals.ahead_nothing (g : Globals) : g.ahead .nothing = g := by
  simp [Globals.ahead, Prophecy.nothing]

@[simp] theorem Globals.ahead_returns (g : Globals) (c : SpiCall) (hr : HResult) : g.ahead (.returns c hr) = g := by
  simp [Globals.ahead, Prophecy.returns]

/-- The atomic run is at `b` where the threads are at `s`. -/
def Foresees (api : XfsApi) (s : Threads A) (p : Prophecy) (b : Globals) : Prop :=
  p ∈ s.holder.ends api s.globals.gPipc ∧ b = s.globals.ahead p

/-- The calls that have returned. -/
def returnedOf (h : List (SpiEvent A api)) : List (SpiCall × HResult) :=
  h.filterMap fun
    | .returned c hr => some (c, hr)
    | _ => none

/-- What the worker has done. -/
def workerOf (h : List (SpiEvent A api)) : List (SpiEvent A api) :=
  h.filter fun
    | .returned _ _ => false
    | _ => true

/-- What a callback that is not over has posted. -/
def Threads.posting (api : XfsApi) (s : Threads A) : List (SpiEvent A api) :=
  match s.handler with
  | none => []
  | some h =>
    if anGetXfsmessageClass api h.result.dwMsg = 0 then
      match sendCompletedMessage api [] h.result h.mem with
      | .error _ => []
      | .ok (_, posts) => posts.map .posted
    else []

/-- The events of the two runs between two states. -/
structure Agree (api : XfsApi) (s : Threads A) (p : Prophecy) (es fs : List (SpiEvent A api)) (s' : Threads A)
    (p' : Prophecy) : Prop where
  calls : p.calls ++ returnedOf fs = returnedOf es ++ p'.calls
  worker : s.posting api ++ workerOf es = workerOf fs ++ s'.posting api

section Append

variable (g h : List (SpiEvent A api))

@[simp] theorem returnedOf_append : returnedOf (g ++ h) = returnedOf g ++ returnedOf h := List.filterMap_append ..

@[simp] theorem workerOf_append : workerOf (g ++ h) = workerOf g ++ workerOf h := List.filter_append ..

end Append

theorem returnedOf_posted (posts : List (Message A api)) : returnedOf (posts.map SpiEvent.posted) = [] := by
  simp [returnedOf, List.filterMap_map]

theorem workerOf_posted (posts : List (Message A api)) :
    workerOf (posts.map SpiEvent.posted) = posts.map SpiEvent.posted := by
  unfold workerOf
  rw [List.filter_eq_self]
  intro x hx
  obtain ⟨m, -, rfl⟩ := List.mem_map.1 hx
  rfl

theorem Agree.refl (s : Threads A) (p : Prophecy) : Agree api s p [] [] s p := ⟨by simp [returnedOf], by simp [workerOf]⟩

theorem Agree.trans {s t u : Threads A} {p p' p'' : Prophecy} {e e' f f' : List (SpiEvent A api)}
    (h : Agree api s p e f t p') (h' : Agree api t p' e' f' u p'') : Agree api s p (e ++ e') (f ++ f') u p'' := by
  constructor
  · rw [returnedOf_append, returnedOf_append, ← List.append_assoc, h.calls, List.append_assoc, h'.calls,
      List.append_assoc]
  · rw [workerOf_append, workerOf_append, ← List.append_assoc, h.worker, List.append_assoc, h'.worker,
      List.append_assoc]

/-! ## What holds of the threads -/

/-- The rest of a callback has what it needs. -/
structure Handler.Sound (api : XfsApi) (s : Threads A) (h : Handler A) : Prop where
  heard : s.globals.resultCb = true
  chunk : ∃ rest, (AnXfsResult.codec A).get h.chunk = some (h.result, rest)
  close : anGetXfsmessageClass api h.result.dwMsg = 0 →
    h.result.u = api.wfsCloseComplete ∧ ∃ service posts, sendCompletedMessage api [] h.result h.mem = .ok (service, posts)
  event : anGetXfsmessageClass api h.result.dwMsg ≠ 0 →
    anGetXfsmessageClass api h.result.dwMsg = api.serviceEvents ∨
      anGetXfsmessageClass api h.result.dwMsg = api.systemEvents

/-- The mutexes have their owners; a call comes to the registry only in versions that are supported; no worker runs
before the callback is set; and the rest of a callback has what it needs. -/
structure Sound (api : XfsApi) (s : Threads A) : Prop where
  locked : s.Locked
  versions : ∀ t c, s.app t = .wants c .service ∨ s.app t = .has c .service → onVersions api c = api.wfsSuccess
  silent : s.globals.resultCb = false → ∀ w, (s.conn.workers w).pc = .returned
  handler : ∀ h ∈ s.handler, h.Sound api s

theorem callerStep_workers {s t : CanIPCRun} {e : List ConnectEvent} (h : s.callerStep = some (t, e)) (w : Nat) :
    (t.workers w).pc = (s.workers w).pc := by
  cases CanIPCRun.callerStep_moved h with
  | waits | detachedEarly | blocks | passes | wakes | returns | closes | closesNothing | stopThrows | joins | joined => rfl
  | detaches v => exact CanIPCRun.detach_pc s v w

theorem stop_workers (s : CanIPCRun) (bforce : Bool) : (s.stop bforce).1.workers = s.workers := by
  unfold CanIPCRun.stop
  split <;> rfl

/-- A worker that has returned makes no step. -/
theorem worker_awake {s t : CanIPCRun} {i : ConnectInput} {e : List ConnectEvent} (hi : ofWorker i = true)
    (h : connectMachine.step s i = some (t, e)) : ∃ w, (s.workers w).pc ≠ .returned := by
  obtain ⟨-, hm⟩ := CanIPCRun.connect_moved h
  cases hm with
  | joinable | started | stopsNothing | stops | waits | detachedEarly | blocks | passes | wakes | returns | closes
  | closesNothing | stopThrows | detaches | joins | joined => cases hi
  | initialises w hpc | reinitialises w v hpc | loopInitFails w _ _ hpc | pipeInitFails w _ hpc | connects w hpc
  | spawnFails w _ _ _ hpc | reconnects w _ _ _ hpc | connected w _ _ hpc | disconnected w hpc
  | disconnectedAgain w hpc | closed w hpc | closedDetaches w _ hpc | closedThrows w _ hpc | leaves w hpc
  | returned w hpc => exact ⟨w, by rw [hpc]; simp⟩

variable {s s' : Threads A}

theorem Handler.Sound.congr {h : Handler A} (hh : h.Sound api s) (hcb : s.globals.resultCb = true → s'.globals.resultCb = true) :
    h.Sound api s' :=
  ⟨hcb hh.heard, hh.chunk, hh.close, hh.event⟩

/-- A step of a thread that leaves the registry to the others, or comes to it in versions that are supported. -/
theorem Sound.moves (hs : Sound api s) (hl : s'.Locked) {t : Nat} {pc : AppPc}
    (happ : s'.app = Function.update s.app t pc) (hhandler : s'.handler = s.handler)
    (hpc : ∀ c, pc = .wants c .service ∨ pc = .has c .service → onVersions api c = api.wfsSuccess)
    (hcb : s.globals.resultCb = true → s'.globals.resultCb = true)
    (hsilent : s'.globals.resultCb = false → ∀ w, (s'.conn.workers w).pc = (s.conn.workers w).pc) : Sound api s' := by
  refine ⟨hl, fun u c h => ?_, fun h w => ?_, fun h hh => ?_⟩
  · rw [happ] at h
    by_cases hu : u = t
    · rw [hu, Function.update_self] at h
      exact hpc c h
    · rw [Function.update_of_ne hu] at h
      exact hs.versions u c h
  · rw [hsilent h w]
    refine hs.silent ?_ w
    by_contra hne
    have := hcb (by simpa using hne)
    rw [h] at this
    cases this
  · rw [hhandler] at hh
    exact (hs.handler h hh).congr hcb

theorem not_service_afterService (env : AppEnv) (c d : SpiCall) (hr : HResult) :
    Threads.afterService A api env c hr ≠ .wants d .service ∧ Threads.afterService A api env c hr ≠ .has d .service := by
  unfold Threads.afterService
  split
  · simp
  · split <;> simp

theorem not_service_afterRun (c d : SpiCall) (hr : HResult) (cmd : List UInt8) (r : Int) :
    Threads.afterRun c hr cmd r ≠ .wants d .service ∧ Threads.afterRun c hr cmd r ≠ .has d .service := by
  unfold Threads.afterRun
  split <;> simp

theorem not_service_afterSend (c d : SpiCall) (hr : HResult) (r : Int) :
    Threads.afterSend api c hr r ≠ .wants d .service ∧ Threads.afterSend api c hr r ≠ .has d .service := by
  unfold Threads.afterSend
  split
  · simp
  · split <;> simp

theorem awaits_service {pc pc' : AppPc} {k : Mutex} (h : pc.awaits = some (k, pc')) {c : SpiCall}
    (hc : pc' = .wants c .service ∨ pc' = .has c .service) : pc = .wants c .service := by
  cases pc with
  | calls e => cases e <;> cases h <;> rcases hc with hc | hc <;> cases hc
  | wants d p =>
    cases h
    rcases hc with hc | hc <;> cases hc
    rfl
  | out | unloads | entered | has | leaves | stops => cases h

theorem Sound.app (hs : Sound api s) {t : Nat} {env : AppEnv} {e : List (SpiEvent A api)}
    (hm : AppMoved api s t env s' e) : Sound api s' := by
  have hl := hs.locked.app hm
  cases hm with
  | takes k pc hw hk =>
    exact hs.moves hl rfl rfl (fun c hc => hs.versions t c (.inl (awaits_service hw hc))) id fun _ _ => rfl
  | goesOn c hp hv =>
    refine hs.moves hl rfl rfl (fun d hd => ?_) id fun _ _ => rfl
    rcases hd with hd | hd <;> cases hd
    exact hv
  | unloaded | refused | allocated | active | closed | left | stopsNothing =>
    exact hs.moves hl rfl rfl (fun d hd => by rcases hd with hd | hd <;> cases hd) id fun _ _ => rfl
  | looked c hp =>
    refine hs.moves hl rfl rfl (fun d hd => ?_) id fun _ _ => rfl
    exact hd.elim (absurd · (not_service_afterService env c d _).1) (absurd · (not_service_afterService env c d _).2)
  | unconnected c hr cmd hp | inactive c hr cmd hp | sent c hr cmd hp | unsent c hr cmd r hp =>
    refine hs.moves hl rfl rfl (fun d hd => ?_) id fun _ _ => rfl
    exact hd.elim (absurd · (not_service_afterSend c d hr _).1) (absurd · (not_service_afterSend c d hr _).2)
  | runs =>
    exact hs.moves hl rfl rfl (fun d hd => by rcases hd with hd | hd <;> cases hd) (fun _ => rfl) fun h => by cases h
  | ran c hr cmd inside conn e' r =>
    refine hs.moves hl rfl rfl (fun d hd => ?_) (fun _ => rfl) fun h => by cases h
    exact hd.elim (absurd · (not_service_afterRun c d hr cmd r).1) (absurd · (not_service_afterRun c d hr cmd r).2)
  | stopped b inside conn e' hp hc he | stops b inside conn e' hp hc he =>
    refine hs.moves hl rfl rfl (fun d hd => by rcases hd with hd | hd <;> cases hd) id fun _ w => ?_
    cases inside with
    | false =>
      have hc : s.conn.stop b = (conn, e') := Option.some.inj hc
      have := stop_workers s.conn b
      rw [hc] at this
      exact congrArg (fun f => (f w).pc) this
    | true => exact callerStep_workers hc w

theorem Sound.step (hs : Sound api s) {i : ThreadsInput} {e : List (SpiEvent A api)}
    (hstep : (threadsMachine A api).step s i = some (s', e)) : Sound api s' := by
  have hl := hs.locked.step hstep
  obtain ⟨-, -, hm⟩ := Threads.threads_moved hstep
  cases hm with
  | called t entry hp =>
    exact hs.moves hl rfl rfl (fun d hd => by rcases hd with hd | hd <;> cases hd) id fun _ _ => rfl
  | app hm => exact hs.app hm
  | @worked i conn e' hi hu hc =>
    have hcb : (s.globals.onWorker i).resultCb = s.globals.resultCb := by
      unfold Globals.onWorker
      split
      · split <;> rfl
      · rfl
    refine ⟨hl, hs.versions, fun h => ?_, fun h hh => (hs.handler h hh).congr (hcb ▸ ·)⟩
    obtain ⟨w, hw⟩ := worker_awake hi hc
    exact absurd (hs.silent (hcb ▸ h) w) hw
  | wrote hpc hh hg =>
    obtain ⟨data, -, rfl⟩ := Option.map_eq_some_iff.1 hg
    exact ⟨hl, hs.versions, hs.silent, fun h hh => (hs.handler h hh).congr id⟩
  | read hpc hh hm =>
    cases hm with
    | throws | throwsLater => exact ⟨hl, hs.versions, hs.silent, fun h hh => (hs.handler h hh).congr id⟩
    | unheard | completes | ignored => exact hs
    | closes r rest service posts hget hcb hclass hposts hu =>
      refine ⟨hl, hs.versions, hs.silent, fun h hh => ?_⟩
      cases hh
      exact ⟨hcb, ⟨rest, hget⟩, fun _ => ⟨hu, service, posts, hposts⟩, fun h => absurd hclass h⟩
    | occurs r rest hget hcb hclass hevent =>
      refine ⟨hl, hs.versions, hs.silent, fun h hh => ?_⟩
      cases hh
      exact ⟨hcb, ⟨rest, hget⟩, fun h => absurd h hclass, fun _ => hevent⟩
  | @handled h _ _ hh hm =>
    have hsound := hs.handler h hh
    cases hm with
    | takes hl' ho =>
      refine ⟨hl, hs.versions, hs.silent, fun h' hh' => ?_⟩
      cases hh'
      exact ⟨hsound.heard, hsound.chunk, hsound.close, hsound.event⟩
    | throws => exact ⟨hl, hs.versions, hs.silent, fun h hh => (hs.handler h hh).congr id⟩
    | closes | sends => exact ⟨hl, hs.versions, hs.silent, fun h hh => by cases hh⟩

theorem sound_new (A : Arch) (api : XfsApi) : Sound api (Threads.new A) where
  locked := Threads.locked_new A
  versions := by simp [Threads.new]
  silent := fun _ _ => rfl
  handler := by simp [Threads.new]

/-! ## One step -/

/-- The atomic run is found one step further back. -/
def Matched (api : XfsApi) (s : Threads A) (i : ThreadsInput) (s' : Threads A) (e : List (SpiEvent A api))
    (p' : Prophecy) (b' : Globals) : Prop :=
  ∃ p b o f, Foresees api s p b ∧ TakesEffect api s i s' o ∧ (atomicMachine A api).run b o.toList = some (b', f) ∧
    Agree api s p e f s' p'

theorem holder_of_mem (hl : s.Locked) {t : Nat} (h : .gMtx ∈ (s.app t).holds) : s.holder = s.app t := by
  have ho : s.owner .gMtx = some (.app t) := (hl .gMtx (.app t)).2 h
  simp only [Threads.holder, ho]

theorem holder_of_free (h : s.owner .gMtx = none) : s.holder = .out := by
  simp only [Threads.holder, h]

/-- A thread that has `g_mtx` neither before nor after a step is not the one that has it. -/
theorem holder_of_others (hl : s.Locked) {t : Nat} {pc : AppPc} (happ : s'.app = Function.update s.app t pc)
    (ho : s'.owner .gMtx = s.owner .gMtx) (ht : .gMtx ∉ (s.app t).holds) : s'.holder = s.holder := by
  unfold Threads.holder
  rw [ho]
  cases hw : s.owner .gMtx with
  | none => rfl
  | some u =>
    cases u with
    | worker => rfl
    | app u =>
      have hu : .gMtx ∈ (s.app u).holds := (hl .gMtx (.app u)).1 hw
      have hne : u ≠ t := fun h => ht (h ▸ hu)
      simp only [happ, Function.update_of_ne hne]

/-- A thread that has `g_mtx` after a step is the one that has it. -/
theorem holder_of_update (hl : s'.Locked) {t : Nat} {pc : AppPc} (happ : s'.app = Function.update s.app t pc)
    (h : .gMtx ∈ pc.holds) : s'.holder = pc := by
  have hpc : s'.app t = pc := by rw [happ, Function.update_self]
  rw [holder_of_mem hl (t := t) (by rw [hpc]; exact h), hpc]

theorem atomic_run_one {b b' : Globals} {k : AtomicInput} {f : List (SpiEvent A api)}
    (h : (atomicMachine A api).step b k = some (b', f)) :
    (atomicMachine A api).run b (some k).toList = some (b', f) := by
  show (atomicMachine A api).run b [k] = some (b', f)
  simp only [Machine.run, h, Option.bind_some, Option.map_some, List.append_nil]

section Match

variable {i : ThreadsInput} {p' : Prophecy} {b' : Globals}

/-- A step that stands for nothing. -/
theorem Foresees.quiet (hb : Foresees api s' p' b') {p : Prophecy} (hp : p ∈ s.holder.ends api s.globals.gPipc)
    (hg : s.globals.ahead p = s'.globals.ahead p') (hc : p.calls = p'.calls) (hh : s'.handler = s.handler)
    (ht : TakesEffect api s i s' none) : Matched api s i s' [] p' b' := by
  refine ⟨p, b', none, [], ⟨hp, hb.2.trans hg.symm⟩, ht, rfl, ?_, ?_⟩
  · rw [hc]
    simp [returnedOf]
  · simp [workerOf, Threads.posting, hh]

/-- A step of a thread whose call has no effect in it. -/
theorem Foresees.goesOn (hb : Foresees api s' p' b') (hl : s.Locked) (hl' : s'.Locked) {t : Nat} {env : AppEnv}
    {pc : AppPc} (happ : s'.app = Function.update s.app t pc) (h : .gMtx ∈ (s.app t).holds) (h' : .gMtx ∈ pc.holds)
    (hstep : p' ∈ pc.ends api s'.globals.gPipc → ∃ p ∈ (s.app t).ends api s.globals.gPipc,
      s.globals.ahead p = s'.globals.ahead p' ∧ p.calls = p'.calls) (hh : s'.handler = s.handler)
    (ht : TakesEffect api s (.app t env) s' none) : Matched api s (.app t env) s' [] p' b' := by
  have hmem := hb.1
  rw [holder_of_update hl' happ h'] at hmem
  obtain ⟨p, hp, hg, hc⟩ := hstep hmem
  refine hb.quiet ?_ hg hc hh ht
  rw [holder_of_mem hl h]
  exact hp

/-- A step of a thread that does not have `g_mtx`. -/
theorem Foresees.aside (hb : Foresees api s' p' b') (hl : s.Locked) {t : Nat} {env : AppEnv} {pc : AppPc}
    (happ : s'.app = Function.update s.app t pc) (ho : s'.owner .gMtx = s.owner .gMtx)
    (h : .gMtx ∉ (s.app t).holds) (hg : s'.globals = s.globals) (hh : s'.handler = s.handler)
    (ht : TakesEffect api s (.app t env) s' none) : Matched api s (.app t env) s' [] p' b' := by
  refine hb.quiet (p := p') ?_ (by rw [hg]) rfl hh ht
  have hmem := hb.1
  rwa [holder_of_others hl happ ho h, hg] at hmem

end Match

/-- The ends of a call where the registry has answered. -/
theorem ends_afterService {env : AppEnv} {c : SpiCall} {hr : HResult} {gPipc : Bool} {p : Prophecy}
    (h : p ∈ (Threads.afterService A api env c hr).ends api gPipc) :
    (hr ≠ 0 ∨ c.type = .wfpUnlock) ∧ p = .returns c hr ∨
      ¬ (hr ≠ 0 ∨ c.type = .wfpUnlock) ∧ c.type = .wfpOpen ∧
        (p = ⟨[(c, hr)], [serialized A api env.tick env.uninit c], true⟩ ∨
          p = ⟨[(c, api.wfsErrConnectionLost)], [], true⟩ ∨ p = ⟨[(c, hr)], [], true⟩) ∨
      ¬ (hr ≠ 0 ∨ c.type = .wfpUnlock) ∧ c.type ≠ .wfpOpen ∧
        (gPipc = true ∧ (p = ⟨[(c, hr)], [serialized A api env.tick env.uninit c], false⟩ ∨
          p = .returns c api.wfsErrConnectionLost) ∨ gPipc = false ∧ p = .returns c hr) := by
  unfold Threads.afterService at h
  split at h
  · rename_i hend
    exact .inl ⟨hend, List.mem_singleton.1 h⟩
  rename_i hend
  split at h
  · rename_i hopen
    refine .inr (.inl ⟨hend, hopen, ?_⟩)
    simpa [AppPc.ends, Piece.ends] using h
  · rename_i hopen
    refine .inr (.inr ⟨hend, hopen, ?_⟩)
    cases gPipc with
    | true => simpa [AppPc.ends, Piece.ends] using h
    | false => simpa [AppPc.ends, Piece.ends] using h

/-- A call takes effect in the registry, whatever it comes to. -/
theorem call_foreseen (g : Globals) (hf : g.fault = none) {c : SpiCall} (hv : onVersions api c = api.wfsSuccess)
    {env : AppEnv} {p : Prophecy}
    (h : p ∈ (Threads.afterService A api env c (onService api g.service c).2).ends api g.gPipc) :
    ∃ env' : CallEnv, env'.tick = env.tick ∧ env'.uninit = env.uninit ∧ ∃ hr, p.calls = [(c, hr)] ∧
      (atomicMachine A api).step g (.call c env') =
        some (Globals.ahead { g with service := (onService api g.service c).1 } p, [.returned c hr]) := by
  have hcall : ∀ {env' : CallEnv} {hr : HResult},
      g.call A api c env' = (Globals.ahead { g with service := (onService api g.service c).1 } p, hr) →
      (atomicMachine A api).step g (.call c env') =
        some (Globals.ahead { g with service := (onService api g.service c).1 } p, [.returned c hr]) := by
    intro env' hr heq
    simp only [atomicMachine, Globals.step, hf, heq]
    rfl
  rcases ends_afterService h with ⟨hend, rfl⟩ | ⟨hend, hopen, hp⟩ | ⟨hend, hopen, hp⟩
  · refine ⟨⟨env.tick, env.uninit, 0, false, 0⟩, rfl, rfl, _, rfl, hcall ?_⟩
    rw [call_ends g c _ hv hend]
    simp [Globals.ahead, Prophecy.returns]
  · rw [not_or, not_not] at hend
    have hsucc : (onService api g.service c).2 = api.wfsSuccess := hend.1.trans api.success_eq.symm
    rcases hp with rfl | rfl | rfl
    · refine ⟨⟨env.tick, env.uninit, 0, true, 0⟩, rfl, rfl, _, rfl, hcall ?_⟩
      rw [open_sends g c _ hopen hv rfl rfl rfl, hsucc]
      simp [Globals.ahead]
    · refine ⟨⟨env.tick, env.uninit, 0, false, 0⟩, rfl, rfl, _, rfl, hcall ?_⟩
      rw [open_fails g c _ hopen hv rfl rfl]
      simp [Globals.ahead]
    · refine ⟨⟨env.tick, env.uninit, 1, false, 0⟩, rfl, rfl, _, rfl, hcall ?_⟩
      rw [open_unconnected g c _ hopen hv (by simp), hsucc]
      simp [Globals.ahead]
  · rw [not_or, not_not] at hend
    rcases hp with ⟨hg, rfl | rfl⟩ | ⟨hg, rfl⟩
    · refine ⟨⟨env.tick, env.uninit, 0, true, 0⟩, rfl, rfl, _, rfl, hcall ?_⟩
      rw [call_sends g c _ hopen hend.2 hend.1 hg rfl rfl, hend.1]
      simp [Globals.ahead]
    · refine ⟨⟨env.tick, env.uninit, 0, false, 0⟩, rfl, rfl, _, rfl, hcall ?_⟩
      rw [call_fails g c _ hopen hend.2 hend.1 hg rfl]
      simp [Globals.ahead, Prophecy.returns]
    · refine ⟨⟨env.tick, env.uninit, 0, false, 0⟩, rfl, rfl, _, rfl, hcall ?_⟩
      rw [call_unconnected g c _ hopen hend.2 hend.1 hg, hend.1]
      simp [Globals.ahead, Prophecy.returns]

theorem ends_afterRun {c : SpiCall} {hr : HResult} {cmd : List UInt8} {r : Int} {p : Prophecy}
    (h : p ∈ (Threads.afterRun c hr cmd r).ends api true) :
    p = ⟨[(c, hr)], [cmd], false⟩ ∨ p = .returns c api.wfsErrConnectionLost ∨ p = .returns c hr := by
  unfold Threads.afterRun at h
  split at h
  · simp only [AppPc.ends, Piece.ends, if_true, List.mem_cons, List.not_mem_nil, or_false] at h
    exact h.imp_right .inl
  · exact .inr (.inr (List.mem_singleton.1 h))

theorem ends_afterSend {c : SpiCall} {hr : HResult} {r : Int} {gPipc : Bool} {p : Prophecy}
    (h : p ∈ (Threads.afterSend api c hr r).ends api gPipc) :
    r = 0 ∧ p = .returns c hr ∨ r ≠ 0 ∧ p = .returns c api.wfsErrConnectionLost := by
  unfold Threads.afterSend at h
  split at h
  · rename_i hr0
    exact .inr ⟨hr0, List.mem_singleton.1 h⟩
  rename_i hr0
  refine .inl ⟨not_not.1 hr0, ?_⟩
  split at h <;> exact List.mem_singleton.1 h

theorem gMtx_mem_afterService (env : AppEnv) (c : SpiCall) (hr : HResult) :
    .gMtx ∈ (Threads.afterService A api env c hr).holds := by
  rw [Threads.afterService_holds]
  exact List.mem_singleton_self _

theorem gMtx_mem_afterRun (c : SpiCall) (hr : HResult) (cmd : List UInt8) (r : Int) :
    .gMtx ∈ (Threads.afterRun c hr cmd r).holds := by
  rw [Threads.afterRun_holds]
  exact List.mem_singleton_self _

theorem gMtx_mem_afterSend (c : SpiCall) (hr : HResult) (r : Int) :
    .gMtx ∈ (Threads.afterSend api c hr r).holds := by
  rw [Threads.afterSend_holds]
  exact List.mem_singleton_self _

/-- A thread that neither is in the registry nor has its versions refused. -/
theorem elsewhere {t : Nat} {env : AppEnv} {pc : AppPc} (hp : s.app t = pc) (hservice : ∀ c, pc ≠ .has c .service)
    (hentered : ∀ c, pc ≠ .entered c) : TakesEffect api s (.app t env) s' none :=
  .elsewhere (fun c => hp ▸ hservice c) fun c h => absurd (hp.symm.trans h) (hentered c)

theorem app_matched (hs : Sound api s) (hf : s.globals.fault = none) {t : Nat} {env : AppEnv}
    {e : List (SpiEvent A api)} {p' : Prophecy} {b' : Globals} (hm : AppMoved api s t env s' e)
    (hb : Foresees api s' p' b') : Matched api s (.app t env) s' e p' b' := by
  have hl := hs.locked
  have hl' := hl.app hm
  cases hm with
  | takes k pc hw hk =>
    cases hp : s.app t with
    | calls entry =>
      have ht : TakesEffect api s (.app t env) ((s.take k (.app t)).setApp t pc) none :=
        elsewhere hp (by simp) (by simp)
      rw [hp] at hw
      cases entry with
      | spi c =>
        cases hw
        have hmem := hb.1
        rw [holder_of_update hl' rfl (by simp [AppPc.holds])] at hmem
        rw [List.mem_singleton.1 hmem] at hb ⊢
        refine hb.quiet (p := .nothing) ?_ rfl rfl rfl ht
        rw [holder_of_free hk]
        exact List.mem_singleton_self _
      | wfpUnloadService =>
        cases hw
        have hmem := hb.1
        rw [holder_of_update hl' rfl (by simp [AppPc.holds])] at hmem
        rw [List.mem_singleton.1 hmem] at hb ⊢
        refine hb.quiet (p := .nothing) ?_ rfl rfl rfl ht
        rw [holder_of_free hk]
        exact List.mem_singleton_self _
      | anpcStop bforce =>
        cases hw
        refine hb.aside hl rfl ?_ (by rw [hp]; simp [AppPc.holds]) rfl rfl ht
        simp [Threads.setApp, Threads.take]
    | wants c p =>
      have ht : TakesEffect api s (.app t env) ((s.take k (.app t)).setApp t pc) none :=
        elsewhere hp (by simp) (by simp)
      rw [hp] at hw
      cases hw
      refine hb.goesOn hl hl' rfl (by rw [hp]; simp [AppPc.holds]) (by simp [AppPc.holds]) (fun h => ⟨p', ?_, rfl, rfl⟩)
        rfl ht
      rw [hp]
      exact h
    | out | unloads | entered | has | leaves | stops => rw [hp] at hw; cases hw
  | unloaded hp =>
    have hmem := hb.1
    rw [holder_of_free (by simp [Threads.setApp, Threads.give])] at hmem
    rw [List.mem_singleton.1 hmem] at hb ⊢
    refine hb.quiet (p := .nothing) ?_ rfl rfl rfl (elsewhere hp (by simp) (by simp))
    rw [holder_of_mem hl (t := t) (by rw [hp]; simp [AppPc.holds]), hp]
    exact List.mem_singleton_self _
  | refused c hp hv =>
    have hmem := hb.1
    rw [holder_of_update hl' rfl (by simp [AppPc.holds])] at hmem
    rw [List.mem_singleton.1 hmem] at hb ⊢
    have hstep : (atomicMachine A api).step s.globals (.call c ⟨0, 0, 0, false, 0⟩) =
        some (s.globals, [.returned c (onVersions api c)]) := by
      simp only [atomicMachine, Globals.step, hf, call_refused s.globals c _ hv]
      rfl
    refine ⟨.nothing, s.globals.ahead .nothing, some (.call c ⟨0, 0, 0, false, 0⟩), [.returned c (onVersions api c)],
      ⟨?_, rfl⟩, .refused _ hp hv, atomic_run_one ?_, ?_, ?_⟩
    · rw [holder_of_mem hl (t := t) (by rw [hp]; simp [AppPc.holds]), hp]
      exact List.mem_singleton_self _
    · rw [hb.2, Globals.ahead_nothing, Globals.ahead_returns]
      exact hstep
    · rfl
    · simp [workerOf, Threads.posting, Threads.setApp]
  | goesOn c hp hv =>
    refine hb.goesOn hl hl' rfl (by rw [hp]; simp [AppPc.holds]) (by simp [AppPc.holds]) (fun h => ⟨p', ?_, rfl, rfl⟩)
      rfl (.elsewhere (by simp [hp]) fun d hd => ?_)
    · rw [hp]
      exact h
    · rw [hp] at hd
      cases hd
      exact hv
  | looked c hp =>
    have hv := hs.versions t c (.inr hp)
    have hmem := hb.1
    rw [holder_of_update hl' rfl (gMtx_mem_afterService env c _)] at hmem
    obtain ⟨env', htick, huninit, hr, hcalls, hstep⟩ := call_foreseen s.globals hf hv hmem
    refine ⟨.nothing, s.globals.ahead .nothing, some (.call c env'), [.returned c hr], ⟨?_, rfl⟩,
      .registry env' hp htick huninit, atomic_run_one ?_, ?_, ?_⟩
    · rw [holder_of_mem hl (t := t) (by rw [hp]; simp [AppPc.holds]), hp]
      exact List.mem_singleton_self _
    · rw [hb.2, Globals.ahead_nothing]
      exact hstep
    · rw [hcalls]
      rfl
    · simp [workerOf, Threads.posting, Threads.setApp, Threads.give, Threads.setGlobals]
  | runs c hr cmd inside conn e' hp hc hran =>
    refine hb.goesOn hl hl' rfl (by rw [hp]; simp [AppPc.holds]) (by simp [AppPc.holds]) (fun h => ⟨p', ?_, ?_, rfl⟩)
      rfl (elsewhere hp (by simp) (by simp))
    · rw [hp]
      exact h
    · -- in `run` every end has the connection made
      have hopening : p'.opening = true := by
        simp only [AppPc.ends, Piece.ends, List.mem_cons, List.not_mem_nil, or_false] at h
        rcases h with rfl | rfl | rfl <;> rfl
      simp [Globals.ahead, hopening, Threads.setApp, Threads.setConn, Threads.setGlobals]
  | ran c hr cmd inside conn e' r hp hc hran =>
    refine hb.goesOn hl hl' rfl (by rw [hp]; simp [AppPc.holds]) (gMtx_mem_afterRun c hr cmd r) (fun h => ?_) rfl
      (elsewhere hp (by simp) (by simp))
    refine ⟨⟨p'.calls, p'.cmds, true⟩, ?_, ?_, rfl⟩
    · rw [hp]
      rcases ends_afterRun h with rfl | rfl | rfl <;> simp [AppPc.ends, Piece.ends, Prophecy.returns]
    · simp [Globals.ahead, Threads.setApp, Threads.setConn, Threads.setGlobals, Threads.give]
  | allocated c hr cmd hp =>
    refine hb.goesOn hl hl' rfl (by rw [hp]; simp [AppPc.holds]) (by simp [AppPc.holds]) (fun h => ⟨p', ?_, rfl, rfl⟩)
      rfl (elsewhere hp (by simp) (by simp))
    rw [hp]
    exact h
  | unconnected c hr cmd hp hg =>
    refine hb.goesOn hl hl' rfl (by rw [hp]; simp [AppPc.holds]) (gMtx_mem_afterSend c hr 0) (fun h => ⟨p', ?_, rfl, rfl⟩)
      rfl (elsewhere hp (by simp) (by simp))
    obtain ⟨-, rfl⟩ | ⟨h0, -⟩ := ends_afterSend h
    · rw [hp]
      simp [AppPc.ends, Piece.ends, hg]
    · exact absurd rfl h0
  | inactive c hr cmd hp hg =>
    refine hb.goesOn hl hl' rfl (by rw [hp]; simp [AppPc.holds]) (gMtx_mem_afterSend c hr 1) (fun h => ⟨p', ?_, rfl, rfl⟩)
      rfl (elsewhere hp (by simp) (by simp))
    obtain ⟨h0, -⟩ | ⟨-, rfl⟩ := ends_afterSend h
    · exact absurd h0 (by decide)
    · rw [hp]
      simp [AppPc.ends, Piece.ends, hg]
  | active c hr cmd hp hg =>
    refine hb.goesOn hl hl' rfl (by rw [hp]; simp [AppPc.holds]) (by simp [AppPc.holds]) (fun h => ⟨p', ?_, rfl, rfl⟩)
      rfl (elsewhere hp (by simp) (by simp))
    rw [hp]
    simpa [AppPc.ends, Piece.ends, hg] using h
  | sent c hr cmd hp =>
    refine hb.goesOn hl hl' rfl (by rw [hp]; simp [AppPc.holds]) (gMtx_mem_afterSend c hr 0) (fun h => ?_) rfl
      (elsewhere hp (by simp) (by simp))
    obtain ⟨-, rfl⟩ | ⟨h0, -⟩ := ends_afterSend h
    · refine ⟨⟨[(c, hr)], [cmd], false⟩, ?_, ?_, rfl⟩
      · rw [hp]
        simp [AppPc.ends, Piece.ends]
      · simp [Globals.ahead, Prophecy.returns, Threads.setApp, Threads.give, Threads.setGlobals]
    · exact absurd rfl h0
  | unsent c hr cmd r hp hr0 =>
    refine hb.goesOn hl hl' rfl (by rw [hp]; simp [AppPc.holds]) (gMtx_mem_afterSend c hr r) (fun h => ⟨p', ?_, rfl, rfl⟩)
      rfl (elsewhere hp (by simp) (by simp))
    obtain ⟨h0, -⟩ | ⟨-, rfl⟩ := ends_afterSend h
    · exact absurd h0 hr0
    · rw [hp]
      simp [AppPc.ends, Piece.ends]
  | closed c hr hp =>
    refine hb.goesOn hl hl' rfl (by rw [hp]; simp [AppPc.holds]) (by simp [AppPc.holds]) (fun h => ⟨p', ?_, rfl, rfl⟩)
      rfl (elsewhere hp (by simp) (by simp))
    rw [hp]
    exact h
  | left c hr hp =>
    have hmem := hb.1
    rw [holder_of_free (by simp [Threads.setApp, Threads.give])] at hmem
    rw [List.mem_singleton.1 hmem] at hb ⊢
    refine ⟨.returns c hr, b', none, [], ⟨?_, hb.2⟩, elsewhere hp (by simp) (by simp), rfl, rfl, ?_⟩
    · rw [holder_of_mem hl (t := t) (by rw [hp]; simp [AppPc.holds]), hp]
      exact List.mem_singleton_self _
    · simp [workerOf, Threads.posting, Threads.setApp, Threads.give]
  | stopsNothing b inside hp hg | stopped b inside conn e' hp hc he | stops b inside conn e' hp hc he =>
    refine hb.aside hl rfl ?_ (by rw [hp]; simp [AppPc.holds]) rfl rfl (elsewhere hp (by simp) (by simp))
    simp [Threads.setApp, Threads.give, Threads.setConn]

/-- A step of the worker leaves the calls where they are. -/
theorem holder_of_worker (happ : s'.app = s.app) (ho : s'.owner .gMtx = s.owner .gMtx) : s'.holder = s.holder := by
  unfold Threads.holder
  rw [happ, ho]

/-- A step of the worker that stands for a step of the loop. -/
theorem Foresees.works {i : ThreadsInput} {k : AtomicInput} {p' : Prophecy} {b' : Globals} {e f : List (SpiEvent A api)}
    (hb : Foresees api s' p' b') (happ : s'.app = s.app) (ho : s'.owner .gMtx = s.owner .gMtx)
    (hpipe : s'.globals.gPipc = s.globals.gPipc) (ht : TakesEffect api s i s' (some k))
    (hstep : (atomicMachine A api).step (s.globals.ahead p') k = some (s'.globals.ahead p', f))
    (hcalls : returnedOf f = returnedOf e) (hworker : s.posting api ++ workerOf e = workerOf f ++ s'.posting api) :
    returnedOf e = [] → Matched api s i s' e p' b' := by
  intro he
  refine ⟨p', s.globals.ahead p', some k, f, ⟨?_, rfl⟩, ht, atomic_run_one (by rw [hb.2]; exact hstep), ?_, hworker⟩
  · have hmem := hb.1
    rwa [holder_of_worker happ ho, hpipe] at hmem
  · rw [hcalls, he]
    simp

/-- A step of the worker that stands for nothing. -/
theorem Foresees.worksOn {i : ThreadsInput} {p' : Prophecy} {b' : Globals} {e : List (SpiEvent A api)}
    (hb : Foresees api s' p' b') (happ : s'.app = s.app) (ho : s'.owner .gMtx = s.owner .gMtx)
    (hg : s'.globals = s.globals) (ht : TakesEffect api s i s' none) (he : returnedOf e = [])
    (hworker : s.posting api ++ workerOf e = s'.posting api) : Matched api s i s' e p' b' := by
  refine ⟨p', b', none, [], ⟨?_, by rw [hb.2, hg]⟩, ht, rfl, ?_, ?_⟩
  · have hmem := hb.1
    rwa [holder_of_worker happ ho, hg] at hmem
  · rw [he]
    simp [returnedOf]
  · rw [hworker]
    rfl

section Ahead

variable {g : Globals} (hf : g.fault = none) (p : Prophecy)
include hf

/-- The loop forgets the commands that it had been handed. -/
theorem loopInit_ahead : (atomicMachine A api).step (g.ahead p) (.loopInit g.asyncs.length) =
    some (Globals.ahead { g with asyncs := [] } p, []) := by
  simp [atomicMachine, Globals.step, Globals.ahead, hf]

/-- A command that the loop has been handed is there ahead too. -/
theorem onSendCmd_ahead {i : Nat} {isActive : Bool} {uvWrite : Int} {g' : Globals}
    (h : g.onSendCmd i isActive uvWrite = some g') :
    (atomicMachine A api).step (g.ahead p) (.onSendCmd i isActive uvWrite) = some (g'.ahead p, []) := by
  obtain ⟨data, hi, rfl⟩ := Option.map_eq_some_iff.1 h
  have hlt := (List.getElem?_eq_some_iff.1 hi).1
  have hi' : (g.asyncs ++ p.cmds)[i]? = some data := by rw [List.getElem?_append_left hlt, hi]
  have hwire : (((g.ahead p).sp isActive).ipc.write data uvWrite).1.wire =
      ((g.sp isActive).ipc.write data uvWrite).1.wire := by
    simp only [CanIPC.write, Globals.sp, Globals.ahead]
    cases isActive with
    | false => rfl
    | true =>
      simp only [if_true]
      split <;> rfl
  simp only [atomicMachine, Globals.step, Globals.onSendCmd]
  rw [if_neg (show ¬ (g.ahead p).fault ≠ none from not_not.2 hf),
    show (g.ahead p).asyncs[i]? = some data from hi', Option.map_some, Option.map_some, hwire]
  simp only [Globals.ahead, List.eraseIdx_append_of_lt_length hlt]

/-- A read is handled ahead as it is now. -/
theorem onRead_handles_ahead {chunk rest : List UInt8} {mem : Bool} {r : AnXfsResult A}
    (hget : (AnXfsResult.codec A).get chunk = some (r, rest)) (hcb : g.resultCb = true)
    {service : CanServiceInfoAdmi} {posts : List (Message A api)}
    (hr : xfsResultHandler api g.service r mem = .ok (service, posts)) :
    (atomicMachine A api).step (g.ahead p) (.onRead chunk mem) =
      some (Globals.ahead { g with service := service } p, posts.map .posted) := by
  have hf' : (g.ahead p).fault = none := hf
  have hcb' : (g.ahead p).resultCb = true := by simp [Globals.ahead, hcb]
  have hr' : xfsResultHandler api (g.ahead p).service r mem = .ok (service, posts) := hr
  simp only [atomicMachine, Globals.step, hf', onRead_handles hf' hget hcb' hr', ne_eq, not_true_eq_false, if_false]
  simp only [Globals.ahead, hf]

theorem onRead_fails_ahead {chunk rest : List UInt8} {mem : Bool} {r : AnXfsResult A}
    (hget : (AnXfsResult.codec A).get chunk = some (r, rest)) (hcb : g.resultCb = true) {f : Fault}
    (hr : xfsResultHandler api g.service r mem = .error f) :
    (atomicMachine A api).step (g.ahead p) (.onRead chunk mem) =
      some (Globals.ahead { g with fault := some f } p, [.fault f]) := by
  have hf' : (g.ahead p).fault = none := hf
  have hcb' : (g.ahead p).resultCb = true := by simp [Globals.ahead, hcb]
  have hr' : xfsResultHandler api (g.ahead p).service r mem = .error f := hr
  simp only [atomicMachine, Globals.step, hf', onRead_fails hf' hget hcb' hr', ne_eq, not_true_eq_false, if_false]
  rfl

theorem onRead_throws_ahead {chunk : List UInt8} {mem : Bool} (hget : (AnXfsResult.codec A).get chunk = none) :
    (atomicMachine A api).step (g.ahead p) (.onRead chunk mem) =
      some (Globals.ahead { g with fault := some .exception } p, [.fault .exception]) := by
  have hf' : (g.ahead p).fault = none := hf
  simp only [atomicMachine, Globals.step, hf', onRead_throws hget]
  rfl

end Ahead

/-! ### The worker -/

theorem posting_none (hh : s.handler = none) : s.posting api = [] := by
  unfold Threads.posting
  rw [hh]

theorem posting_setGlobals (s : Threads A) (g : Globals) : (s.setGlobals g).posting api = s.posting api := rfl

/-- What a callback has posted that has still to remove its service. -/
theorem posting_close {h : Handler A} (hh : s.handler = some h) (hc : anGetXfsmessageClass api h.result.dwMsg = 0)
    {service : CanServiceInfoAdmi} {posts : List (Message A api)}
    (hp : sendCompletedMessage api [] h.result h.mem = .ok (service, posts)) :
    s.posting api = posts.map .posted := by
  unfold Threads.posting
  simp only [hh, if_pos hc, hp]

/-- A callback that has still to post an event has posted nothing. -/
theorem posting_event {h : Handler A} (hh : s.handler = some h) (hc : anGetXfsmessageClass api h.result.dwMsg ≠ 0) :
    s.posting api = [] := by
  unfold Threads.posting
  simp only [hh, if_neg hc]

theorem onSendCmd_gPipc {g g' : Globals} {i : Nat} {isActive : Bool} {uvWrite : Int}
    (h : g.onSendCmd i isActive uvWrite = some g') : g'.gPipc = g.gPipc := by
  obtain ⟨data, -, rfl⟩ := Option.map_eq_some_iff.1 h
  rfl

section Worker

variable {p' : Prophecy} {b' : Globals} {e : List (SpiEvent A api)}

theorem read_matched (hs : Sound api s) (hf : s.globals.fault = none) {w : Nat} {chunk : List UInt8} {mem : Bool}
    (hpc : (s.conn.workers w).pc = .running) (hh : s.handler = none) (hm : ReadMoved api s chunk mem s' e)
    (hb : Foresees api s' p' b') : Matched api s (.onRead w chunk mem) s' e p' b' := by
  have hposting := @posting_none A api s hh
  cases hm with
  | throws hget =>
    refine hb.works rfl rfl rfl (.reads hh) (onRead_throws_ahead hf p' hget) rfl ?_ rfl
    rw [posting_setGlobals, hposting]
    rfl
  | unheard r rest hget hcb =>
    have := hs.silent hcb w
    rw [hpc] at this
    cases this
  | throwsLater r rest f hget hcb hclass hsend =>
    refine hb.works rfl rfl rfl (.reads hh) (onRead_fails_ahead hf p' hget hcb ?_) rfl ?_ rfl
    · rw [handler_of_class hclass, hsend]
      rfl
    · rw [posting_setGlobals, hposting]
      rfl
  | completes r rest service posts hget hcb hclass hposts hu =>
    refine hb.works rfl rfl rfl (.reads hh) (onRead_handles_ahead hf p' hget hcb ?_) rfl ?_ (returnedOf_posted posts)
    · rw [handler_of_class hclass, hposts]
      simp only [Except.map, if_neg hu]
    · rw [hposting, List.nil_append, List.append_nil]
  | closes r rest service posts hget hcb hclass hposts hu =>
    refine hb.worksOn rfl rfl rfl (.readsOn (by simp)) (returnedOf_posted posts) ?_
    rw [hposting, workerOf_posted, posting_close (h := ⟨chunk, mem, r, false⟩) rfl hclass hposts]
    rfl
  | occurs r rest hget hcb hclass hevent =>
    refine hb.worksOn rfl rfl rfl (.readsOn (by simp)) rfl ?_
    rw [hposting, posting_event (h := ⟨chunk, mem, r, false⟩) rfl hclass]
    rfl
  | ignored r rest hget hcb hclass hevent =>
    have hr : xfsResultHandler api s.globals.service r mem = .ok (s.globals.service, []) :=
      handler_of_other hclass hevent
    refine hb.works rfl rfl rfl (.reads hh) (onRead_handles_ahead hf p' hget hcb hr) rfl ?_ rfl
    rw [hposting]
    rfl

theorem handled_matched (hs : Sound api s) (hf : s.globals.fault = none) {h : Handler A} (hh : s.handler = some h)
    (hm : HandlerMoved api s h s' e) (hb : Foresees api s' p' b') : Matched api s .handler s' e p' b' := by
  obtain ⟨hcb, ⟨rest, hget⟩, hclose, hevent⟩ := hs.handler h hh
  cases hm with
  | takes hl ho =>
    refine hb.worksOn rfl ?_ rfl (.waits hh hl) rfl ?_
    · simp [Threads.take]
    · simp [Threads.posting, hh, workerOf]
  | closes hl hclass =>
    obtain ⟨hu, service, posts, hposts⟩ := hclose hclass
    refine hb.works rfl ?_ rfl (.ends hh hl) (onRead_handles_ahead hf p' hget hcb ?_) (returnedOf_posted posts) ?_ rfl
    · simp [Threads.give, Threads.setGlobals]
    · rw [handler_of_class hclass, hposts]
      simp only [Except.map, if_pos hu]
    · rw [posting_close hh hclass hposts, workerOf_posted, posting_none (s := Threads.setGlobals _ _) rfl]
      rfl
  | throws f hl hclass hsend =>
    refine hb.works rfl rfl rfl (.ends hh hl) (onRead_fails_ahead hf p' hget hcb ?_) rfl ?_ rfl
    · rw [handler_of_event hclass (hevent hclass), hsend]
      rfl
    · rw [posting_setGlobals, posting_event hh hclass]
      rfl
  | sends posts hl hclass hposts =>
    refine hb.works rfl ?_ rfl (.ends hh hl) (onRead_handles_ahead hf p' hget hcb ?_) rfl ?_ (returnedOf_posted posts)
    · simp [Threads.give]
    · rw [handler_of_event hclass (hevent hclass), hposts]
      rfl
    · rw [posting_event hh hclass, workerOf_posted, posting_none rfl]
      simp

theorem worker_matched (hf : s.globals.fault = none) {i : ConnectInput} {conn : CanIPCRun}
    (hb : Foresees api ((s.setConn conn).setGlobals (s.globals.onWorker i)) p' b') :
    Matched api s (.worker i) ((s.setConn conn).setGlobals (s.globals.onWorker i)) [] p' b' := by
  have hsame : s.globals.onWorker i = s.globals → (∀ w pipeInit, i ≠ .init w 0 pipeInit) →
      Matched api s (.worker i) ((s.setConn conn).setGlobals (s.globals.onWorker i)) [] p' b' := by
    intro hg hi
    refine hb.worksOn rfl rfl hg (.worker hi) rfl ?_
    rw [show workerOf ([] : List (SpiEvent A api)) = [] from rfl, List.append_nil]
    rfl
  cases i with
  | init w loopInit pipeInit =>
    by_cases h0 : loopInit = 0
    · subst h0
      refine hb.works rfl rfl rfl .loopInit (loopInit_ahead hf p') rfl ?_ rfl
      rw [show workerOf ([] : List (SpiEvent A api)) = [] from rfl, List.append_nil]
      rfl
    · refine hsame ?_ fun v q h => ?_
      · simp only [Globals.onWorker, if_neg h0]
      · cases h
        exact h0 rfl
  | run | stop | caller | callInit | onConnect | onReadEnd | onClose | leave | ends => exact hsame rfl (by simp)

theorem step_matched (hs : Sound api s) {i : ThreadsInput} (hstep : (threadsMachine A api).step s i = some (s', e))
    (hb : Foresees api s' p' b') : Matched api s i s' e p' b' := by
  obtain ⟨hf, -, hm⟩ := Threads.threads_moved hstep
  cases hm with
  | called t entry hp =>
    refine hb.quiet (p := p') ?_ rfl rfl rfl .called
    have hout : Mutex.gMtx ∉ (s.app t).holds := by
      rw [hp]
      simp [AppPc.holds]
    have hmem := hb.1
    rwa [@holder_of_others A s (s.setApp t (.calls entry)) hs.locked t (.calls entry) rfl rfl hout] at hmem
  | app hm => exact app_matched hs hf hm hb
  | worked hi hu hc => exact worker_matched hf hb
  | wrote hpc hh hg =>
    refine hb.works rfl rfl (onSendCmd_gPipc hg) .onSendCmd (onSendCmd_ahead hf p' hg) rfl ?_ rfl
    rw [show workerOf ([] : List (SpiEvent A api)) = [] from rfl, List.append_nil]
    rfl
  | read hpc hh hm => exact read_matched hs hf hpc hh hm hb
  | handled hh hm => exact handled_matched hs hf hh hm hb

end Worker

/-! ## Runs -/

/-- A call that has not returned may still come to an end in which its command is not handed over. -/
theorem ends_unsent (pc : AppPc) (gPipc : Bool) : ∃ p ∈ pc.ends api gPipc, p.cmds = [] ∧ p.calls.length ≤ 1 := by
  have hpiece : ∀ c (p : Piece), ∃ q ∈ p.ends api gPipc c, q.cmds = [] ∧ q.calls.length ≤ 1 := by
    intro c p
    cases p with
    | service => exact ⟨_, List.mem_singleton_self _, rfl, Nat.zero_le _⟩
    | anpcCreateIpc hr cmd inside => exact ⟨⟨[(c, hr)], [], true⟩, by simp [Piece.ends], rfl, le_rfl⟩
    | anpcCloseIpc hr => exact ⟨_, List.mem_singleton_self _, rfl, le_rfl⟩
    | anpcMalloc hr cmd =>
      cases gPipc with
      | true => exact ⟨.returns c api.wfsErrConnectionLost, by simp [Piece.ends], rfl, le_rfl⟩
      | false => exact ⟨.returns c hr, by simp [Piece.ends], rfl, le_rfl⟩
    | anpcSendCmd hr cmd pc =>
      cases pc with
      | uvAsyncSend => exact ⟨.returns c api.wfsErrConnectionLost, by simp [Piece.ends], rfl, le_rfl⟩
      | isActive =>
        cases gPipc with
        | true => exact ⟨.returns c api.wfsErrConnectionLost, by simp [Piece.ends], rfl, le_rfl⟩
        | false => exact ⟨.returns c hr, by simp [Piece.ends], rfl, le_rfl⟩
  cases pc with
  | wants c p | has c p => exact hpiece c p
  | leaves c hr => exact ⟨_, List.mem_singleton_self _, rfl, le_rfl⟩
  | out | calls | unloads | entered | stops => exact ⟨_, List.mem_singleton_self _, rfl, Nat.zero_le _⟩

/-- Every run of the threads stands for a run of one thread whose calls take effect at once, each where it has its
access to the registry. The registry, the commands handed over and those written are the same; the calls return
the same in the same order, but for the one that has not returned yet; and the worker posts the same in the same
order, but for what it has posted in a callback that is not over. -/
theorem threads_atomic {is : List ThreadsInput} {s : Threads A} {es : List (SpiEvent A api)}
    (hr : (threadsMachine A api).run (.new A) is = some (s, es)) :
    ∃ ks g fs, (threadsMachine A api).Traced (TakesEffect api) (.new A) is ks ∧
      (atomicMachine A api).run .new ks = some (g, fs) ∧
      (g.service = s.globals.service ∧ g.asyncs = s.globals.asyncs ∧ g.wire = s.globals.wire) ∧
      (∃ calls, calls.length ≤ 1 ∧ returnedOf fs = returnedOf es ++ calls ∧
        (s.owner .gMtx = none → calls = [] ∧ g = s.globals)) ∧
      workerOf es = workerOf fs ++ s.posting api := by
  obtain ⟨p', hp', hcmds, hlen⟩ := @ends_unsent api s.holder s.globals.gPipc
  obtain ⟨p, b, ks, fs, hb, htr, hrun, hcalls, hworker⟩ := Machine.run_backward (M := threadsMachine A api)
    (N := atomicMachine A api) (I := Sound api) (R := Foresees api) (T := TakesEffect api)
    (E := fun s p es fs s' p' => Agree api s p es fs s' p')
    (fun _ _ _ _ hs hstep => hs.step hstep) (fun s p => Agree.refl s p)
    (fun _ _ _ _ _ _ _ _ _ _ h h' => h.trans h') (fun s i t e p' b' hs hstep hb => step_matched hs hstep hb)
    (sound_new A api) hr ⟨hp', rfl⟩
  have hp : p = .nothing := List.mem_singleton.1 hb.1
  have hb : b = .new := by
    rw [hb.2, hp, Globals.ahead_nothing]
    rfl
  rw [hb] at hrun
  rw [hp] at hcalls
  refine ⟨ks, s.globals.ahead p', fs, htr, hrun, ⟨rfl, by simp [Globals.ahead, hcmds], rfl⟩,
    ⟨p'.calls, hlen, hcalls, fun hfree => ?_⟩, hworker⟩
  rw [holder_of_free hfree] at hp'
  rw [List.mem_singleton.1 hp']
  exact ⟨rfl, Globals.ahead_nothing _⟩

/-- Two threads: an Open that makes the connection, and a GetInfo that comes in before the Open is through. -/
def twoThreads : List ThreadsInput :=
  let env : AppEnv := ⟨0, 0, true, 0⟩
  [.call 0 (.spi openCall), .app 0 env, .call 1 (.spi (.wfpGetInfo 1 301 0 5 2))] ++ List.replicate 6 (.app 0 env) ++
    [.worker (.callInit 0), .worker (.init 0 0 0), .app 0 env, .worker (.onConnect 0 0 0 0)] ++
    List.replicate 8 (.app 0 env) ++ [.app 1 env, .onSendCmd 0 0 true 0] ++ List.replicate 9 (.app 1 env)

theorem twoThreads_atomic : ∃ s es, (threadsMachine .x86 .documented).run (.new .x86) twoThreads = some (s, es) ∧
    (returnedOf es = [(openCall, 0), (.wfpGetInfo 1 301 0 5 2, 0)] ∧ s.owner .gMtx = none) ∧
    ∃ ks g fs, (threadsMachine .x86 .documented).Traced (TakesEffect .documented) (.new .x86) twoThreads ks ∧
      (atomicMachine .x86 .documented).run .new ks = some (g, fs) ∧
      (g.service = s.globals.service ∧ g.asyncs = s.globals.asyncs ∧ g.wire = s.globals.wire) ∧
      (∃ calls, calls.length ≤ 1 ∧ returnedOf fs = returnedOf es ++ calls ∧
        (s.owner .gMtx = none → calls = [] ∧ g = s.globals)) ∧
      workerOf es = workerOf fs ++ s.posting .documented := by
  obtain ⟨s, es, hr, hdone⟩ : ∃ s es, (threadsMachine .x86 .documented).run (.new .x86) twoThreads = some (s, es) ∧
      returnedOf es = [(openCall, 0), (.wfpGetInfo 1 301 0 5 2, 0)] ∧ s.owner .gMtx = none :=
    Machine.run_any (by decide +kernel)
  exact ⟨s, es, hr, hdone, threads_atomic hr⟩

end AnXfs.System
