/-
How the client connects (`CanIPC::run`, `stop`, `worker` and the callbacks of the client's loop): the
thread that holds the anpc mutex, which is in `run` or in `stop` or in neither, the worker threads
that `run` has started, and what they share: `m_thread`, `m_loop`, `m_pipe`, `m_connect` and the
semaphore `m_wait_connect`. A callback of the loop is one step; `run`, `stop` and `worker` are cut
where another thread can see or change what they test next.

libuv reports every connect request once, also on a pipe that is closing, and calls `on_close` after
that; it reads from a pipe only until it is closing; `uv_run` returns when it has been told to stop or
when nothing is left to wait for. What follows is unknown once `m_loop` has been initialised under a
worker that still runs it, or once `detach` or `join` has thrown.
-/
import AnXfs.Run.Machine

namespace AnXfs.Client

open AnXfs.Run

/-! ## The semaphore -/

/-- `AN_RECONNECT_COUNT`. -/
def anReconnectCount : Int := 1000

/-- `++` on an `int`. -/
def incr (n : Int) : Int := if n = 2147483647 then -2147483648 else n + 1

/-- `an_waitconnect_semaphore`: how often connecting has failed, and whether it is undecided (0), has succeeded
(1) or been given up (2). -/
structure AnWaitconnectSemaphore where
  count : Int
  status : Int
  deriving DecidableEq

namespace AnWaitconnectSemaphore

variable (s : AnWaitconnectSemaphore)

def reset : AnWaitconnectSemaphore := ⟨0, 0⟩

def signalOnce : AnWaitconnectSemaphore :=
  if incr s.count ≥ anReconnectCount then { s with count := incr s.count, status := 2 }
  else { s with count := incr s.count }

def signal : AnWaitconnectSemaphore := ⟨1, 1⟩

end AnWaitconnectSemaphore

/-! ## State -/

/-- Where a worker stands: before its call of `init`, in it, in `uv_run`, past it, or at its end. -/
inductive WorkerPc where
  | started | initialising | running | leaving | returned
  deriving DecidableEq

/-- A thread that `run` has started; `detached` says that `m_thread` no longer stands for it. -/
structure Worker where
  pc : WorkerPc
  detached : Bool
  deriving DecidableEq

/-- The worker is between its call of `init` and its return. -/
def Worker.active (w : Worker) : Bool := w.pc ≠ .started ∧ w.pc ≠ .returned

/-- The worker is in `init` or in `uv_run`. -/
def Worker.inLoop (w : Worker) : Bool := w.pc = .initialising ∨ w.pc = .running

/-- Where the thread that holds the anpc mutex stands. In `run`: the worker is started; `wait` is called; it
suspends; it has returned. In `stop`: `uv_stop` has been called; the pipe is closing; the worker is joined. -/
inductive CallerPc where
  | idle | started | waiting | blocked | waited | stopping (bforce : Bool) | closed (bforce : Bool) | joining
  deriving DecidableEq

/-- In `run`, from the start of the worker until `wait` returns. -/
def CallerPc.inRun : CallerPc → Bool
  | .started | .waiting | .blocked => true
  | _ => false

inductive ThreadFault where
  | notJoinable | joinedAndDetached | reinitialised
  deriving DecidableEq

/-- `CanIPC` as its threads share it: `thread` is the worker that `m_thread` stands for, if it is joinable, and
`started` counts the workers. Of the loop and the pipe: `stop_flag`, whether `m_connect` is with libuv, whether
the pipe is read, whether `uv_close` has been called and with `on_close`, and whether it is done. -/
structure CanIPCRun where
  caller : CallerPc
  thread : Option Nat
  workers : Nat → Worker
  started : Nat
  waitConnect : AnWaitconnectSemaphore
  stopFlag : Bool
  attempt : Bool
  reading : Bool
  closing : Option Bool
  closed : Bool
  fault : Option ThreadFault

/-- `CanIPC` once it is constructed. -/
def CanIPCRun.new : CanIPCRun where
  caller := .idle
  thread := none
  workers := fun _ => ⟨.returned, false⟩
  started := 0
  waitConnect := ⟨0, 0⟩
  stopFlag := false
  attempt := false
  reading := false
  closing := none
  closed := false
  fault := none

inductive ConnectEvent where
  | ran (r : Int)
  | stopped
  | started (w : Nat)
  | waited (status : Int)
  | calledInit (w : Nat)
  | attempted
  | spawned (r : Int)
  | failed
  | connected
  | returned (w : Nat)
  deriving DecidableEq

/-! ## The threads -/

namespace CanIPCRun

variable (s : CanIPCRun)

/-- The worker that `run` has started last. -/
def last : Nat := s.started - 1

def setPc (w : Nat) (pc : WorkerPc) : CanIPCRun :=
  { s with workers := Function.update s.workers w { s.workers w with pc := pc } }

/-- `m_thread.detach()`, where `m_thread` stands for `w`. -/
def detach (w : Nat) : CanIPCRun :=
  { s with thread := none, workers := Function.update s.workers w { s.workers w with detached := true } }

@[simp] theorem setPc_pc (w v : Nat) (pc : WorkerPc) :
    ((s.setPc w pc).workers v).pc = if v = w then pc else (s.workers v).pc := by
  by_cases h : v = w
  · subst h
    simp [setPc]
  · simp [setPc, h]

@[simp] theorem setPc_detached (w v : Nat) (pc : WorkerPc) :
    ((s.setPc w pc).workers v).detached = (s.workers v).detached := by
  by_cases h : v = w
  · subst h
    simp [setPc]
  · simp [setPc, h]

@[simp] theorem detach_pc (w v : Nat) : ((s.detach w).workers v).pc = (s.workers v).pc := by
  by_cases h : v = w
  · subst h
    simp [detach]
  · simp [detach, h]

/-- `run`, until it has started the worker. -/
def run : CanIPCRun × List ConnectEvent :=
  if s.thread.isSome then (s, [.ran 0])
  else
    ({ s with
        caller := .started
        waitConnect := .reset
        thread := some s.started
        workers := Function.update s.workers s.started ⟨.started, false⟩
        started := s.started + 1 }, [.started s.started])

/-- `stop`, until it has called `uv_stop`. -/
def stop (bforce : Bool) : CanIPCRun × List ConnectEvent :=
  if s.thread.isSome then ({ s with caller := .stopping bforce, stopFlag := true }, []) else (s, [.stopped])

/-- The next step of the thread in `run` or in `stop`. -/
def callerStep : Option (CanIPCRun × List ConnectEvent) :=
  match s.caller with
  | .idle => none
  | .started =>
    if s.thread.isSome then some ({ s with caller := .waiting }, []) else some ({ s with caller := .idle }, [.ran 0])
  | .waiting =>
    if s.waitConnect.count < anReconnectCount ∧ ¬ 0 < s.waitConnect.status then some ({ s with caller := .blocked }, [])
    else some ({ s with caller := .waited }, [.waited s.waitConnect.status])
  | .blocked =>
    if 0 < s.waitConnect.status then some ({ s with caller := .waited }, [.waited s.waitConnect.status]) else none
  | .waited => some ({ s with caller := .idle }, [.ran (if s.waitConnect.status ≠ 1 then 1 else 0)])
  | .stopping bforce =>
    if s.closing = none then some ({ s with closing := some false, reading := false, caller := .closed bforce }, [])
    else some ({ s with caller := .closed bforce }, [])
  | .closed bforce =>
    match s.thread with
    | none => some ({ s with fault := some .notJoinable }, [])
    | some w =>
      if bforce then some ({ s.detach w with caller := .idle }, [.stopped])
      else some ({ s with caller := .joining }, [])
  | .joining =>
    match s.thread with
    | none => none
    | some w =>
      if (s.workers w).pc = .returned then some ({ s with thread := none, caller := .idle }, [.stopped]) else none

/-- A worker calls `init`. -/
def callInit (w : Nat) : CanIPCRun × List ConnectEvent :=
  let t := s.setPc w .initialising
  if (List.range s.started).any fun v => (s.workers v).inLoop then
    ({ t with fault := some .reinitialised }, [.calledInit w])
  else (t, [.calledInit w])

/-- `init`, with what `uv_loop_init` and `uv_pipe_init` return, and `connect` if it has succeeded. -/
def init (w : Nat) (loopInit pipeInit : Int) : CanIPCRun × List ConnectEvent :=
  if loopInit ≠ 0 then (s.setPc w .leaving, [])
  else if pipeInit ≠ 0 then ({ s.setPc w .leaving with stopFlag := false }, [])
  else
    ({ s.setPc w .running with
        stopFlag := false
        attempt := true
        reading := false
        closing := none
        closed := false }, [.attempted])

/-- `on_connect`, with what `uv_spawn` and `uv_read_start` return if they are called. -/
def onConnect (status spawn readStart : Int) : CanIPCRun × List ConnectEvent :=
  if status ≠ 0 then
    if s.waitConnect.count = 0 ∧ spawn ≠ 0 then ({ s with attempt := false }, [.failed, .spawned spawn])
    else
      ({ s with attempt := true, waitConnect := s.waitConnect.signalOnce },
        .failed :: (if s.waitConnect.count = 0 then [.spawned spawn] else []) ++ [.attempted])
  else
    ({ s with
        attempt := false
        reading := decide (readStart = 0) && s.closing.isNone
        waitConnect := .signal }, [.connected])

/-- `on_read` of an error, of the end of the stream or of nothing. -/
def onReadEnd : CanIPCRun :=
  if s.closing = none then { s with closing := some true, reading := false } else s

/-- `on_close` of `m_pipe`. -/
def onClose : CanIPCRun :=
  match s.thread with
  | none => { s with closed := true, fault := some .notJoinable }
  | some w =>
    if s.caller = .joining then { s with closed := true, fault := some .joinedAndDetached }
    else { s.detach w with closed := true }

/-- Nothing is left for `uv_run` to wait for. -/
def idleLoop : Bool := !s.attempt && !s.reading && (s.closing.isNone || s.closed)

end CanIPCRun

/-! ## The machine -/

/-- A call of `run` or `stop`, the next step of the thread in it, or a step of a worker. -/
inductive ConnectInput where
  | run
  | stop (bforce : Bool)
  | caller
  | callInit (w : Nat)
  | init (w : Nat) (loopInit pipeInit : Int)
  | onConnect (w : Nat) (status spawn readStart : Int)
  | onReadEnd (w : Nat)
  | onClose (w : Nat)
  | leave (w : Nat)
  | ends (w : Nat)

namespace CanIPCRun

variable (s : CanIPCRun)

def step (i : ConnectInput) : Option (CanIPCRun × List ConnectEvent) :=
  if s.fault ≠ none then none else
  match i with
  | .run => if s.caller = .idle then some s.run else none
  | .stop bforce => if s.caller = .idle then some (s.stop bforce) else none
  | .caller => s.callerStep
  | .callInit w => if (s.workers w).pc = .started then some (s.callInit w) else none
  | .init w loopInit pipeInit => if (s.workers w).pc = .initialising then some (s.init w loopInit pipeInit) else none
  | .onConnect w status spawn readStart =>
    if (s.workers w).pc = .running ∧ s.attempt = true then some (s.onConnect status spawn readStart) else none
  | .onReadEnd w => if (s.workers w).pc = .running ∧ s.reading = true then some (s.onReadEnd, []) else none
  | .onClose w =>
    if (s.workers w).pc = .running ∧ s.closing.isSome ∧ s.closed = false ∧ s.attempt = false then
      some (if s.closing = some true then s.onClose else { s with closed := true }, [])
    else none
  | .leave w =>
    if (s.workers w).pc = .running ∧ (s.stopFlag = true ∨ s.idleLoop = true) then
      some ({ s.setPc w .leaving with stopFlag := false }, [])
    else none
  | .ends w => if (s.workers w).pc = .leaving then some (s.setPc w .returned, [.returned w]) else none

end CanIPCRun

def connectMachine : Machine CanIPCRun ConnectInput ConnectEvent where
  step := CanIPCRun.step

/-! ## What one step can do -/

/-- The outcomes of a step, by input. -/
inductive Moved (s : CanIPCRun) : ConnectInput → CanIPCRun → List ConnectEvent → Prop
  | joinable : s.caller = .idle → s.thread ≠ none → Moved s .run s [.ran 0]
  | started : s.caller = .idle → s.thread = none →
      Moved s .run
        { s with
          caller := .started
          waitConnect := .reset
          thread := some s.started
          workers := Function.update s.workers s.started ⟨.started, false⟩
          started := s.started + 1 } [.started s.started]
  | stopsNothing (bforce : Bool) : s.caller = .idle → s.thread = none → Moved s (.stop bforce) s [.stopped]
  | stops (bforce : Bool) : s.caller = .idle → s.thread ≠ none →
      Moved s (.stop bforce) { s with caller := .stopping bforce, stopFlag := true } []
  | waits : s.caller = .started → s.thread ≠ none → Moved s .caller { s with caller := .waiting } []
  | detachedEarly : s.caller = .started → s.thread = none → Moved s .caller { s with caller := .idle } [.ran 0]
  | blocks : s.caller = .waiting → s.waitConnect.count < anReconnectCount → ¬ 0 < s.waitConnect.status →
      Moved s .caller { s with caller := .blocked } []
  | passes : s.caller = .waiting → (anReconnectCount ≤ s.waitConnect.count ∨ 0 < s.waitConnect.status) →
      Moved s .caller { s with caller := .waited } [.waited s.waitConnect.status]
  | wakes : s.caller = .blocked → 0 < s.waitConnect.status →
      Moved s .caller { s with caller := .waited } [.waited s.waitConnect.status]
  | returns : s.caller = .waited →
      Moved s .caller { s with caller := .idle } [.ran (if s.waitConnect.status ≠ 1 then 1 else 0)]
  | closes (bforce : Bool) : s.caller = .stopping bforce → s.closing = none →
      Moved s .caller { s with closing := some false, reading := false, caller := .closed bforce } []
  | closesNothing (bforce : Bool) : s.caller = .stopping bforce → s.closing ≠ none →
      Moved s .caller { s with caller := .closed bforce } []
  | stopThrows (bforce : Bool) : s.caller = .closed bforce → s.thread = none →
      Moved s .caller { s with fault := some .notJoinable } []
  | detaches (w : Nat) : s.caller = .closed true → s.thread = some w →
      Moved s .caller { s.detach w with caller := .idle } [.stopped]
  | joins (w : Nat) : s.caller = .closed false → s.thread = some w → Moved s .caller { s with caller := .joining } []
  | joined (w : Nat) : s.caller = .joining → s.thread = some w → (s.workers w).pc = .returned →
      Moved s .caller { s with thread := none, caller := .idle } [.stopped]
  | initialises (w : Nat) : (s.workers w).pc = .started → (∀ v < s.started, (s.workers v).inLoop = false) →
      Moved s (.callInit w) (s.setPc w .initialising) [.calledInit w]
  | reinitialises (w v : Nat) : (s.workers w).pc = .started → v < s.started → (s.workers v).inLoop = true →
      Moved s (.callInit w) { s.setPc w .initialising with fault := some .reinitialised } [.calledInit w]
  | loopInitFails (w : Nat) (loopInit pipeInit : Int) : (s.workers w).pc = .initialising → loopInit ≠ 0 →
      Moved s (.init w loopInit pipeInit) (s.setPc w .leaving) []
  | pipeInitFails (w : Nat) (pipeInit : Int) : (s.workers w).pc = .initialising → pipeInit ≠ 0 →
      Moved s (.init w 0 pipeInit) { s.setPc w .leaving with stopFlag := false } []
  | connects (w : Nat) : (s.workers w).pc = .initialising →
      Moved s (.init w 0 0)
        { s.setPc w .running with
          stopFlag := false
          attempt := true
          reading := false
          closing := none
          closed := false } [.attempted]
  | spawnFails (w : Nat) (status spawn readStart : Int) : (s.workers w).pc = .running → s.attempt = true →
      status ≠ 0 → s.waitConnect.count = 0 → spawn ≠ 0 →
      Moved s (.onConnect w status spawn readStart) { s with attempt := false } [.failed, .spawned spawn]
  | reconnects (w : Nat) (status spawn readStart : Int) : (s.workers w).pc = .running → s.attempt = true →
      status ≠ 0 → (s.waitConnect.count = 0 → spawn = 0) →
      Moved s (.onConnect w status spawn readStart) { s with attempt := true, waitConnect := s.waitConnect.signalOnce }
        (.failed :: (if s.waitConnect.count = 0 then [.spawned spawn] else []) ++ [.attempted])
  | connected (w : Nat) (spawn readStart : Int) : (s.workers w).pc = .running → s.attempt = true →
      Moved s (.onConnect w 0 spawn readStart)
        { s with
          attempt := false
          reading := decide (readStart = 0) && s.closing.isNone
          waitConnect := .signal } [.connected]
  | disconnected (w : Nat) : (s.workers w).pc = .running → s.reading = true → s.closing = none →
      Moved s (.onReadEnd w) { s with closing := some true, reading := false } []
  | disconnectedAgain (w : Nat) : (s.workers w).pc = .running → s.reading = true → s.closing ≠ none →
      Moved s (.onReadEnd w) s []
  | closed (w : Nat) : (s.workers w).pc = .running → s.closing = some false → s.closed = false → s.attempt = false →
      Moved s (.onClose w) { s with closed := true } []
  | closedDetaches (w v : Nat) : (s.workers w).pc = .running → s.closing = some true → s.closed = false →
      s.attempt = false → s.thread = some v → s.caller ≠ .joining →
      Moved s (.onClose w) { s.detach v with closed := true } []
  | closedThrows (w : Nat) (f : ThreadFault) : (s.workers w).pc = .running → s.closing = some true →
      s.closed = false → s.attempt = false → (s.thread = none ∨ s.caller = .joining) → f ≠ .reinitialised →
      Moved s (.onClose w) { s with closed := true, fault := some f } []
  | leaves (w : Nat) : (s.workers w).pc = .running → (s.stopFlag = true ∨ s.idleLoop = true) →
      Moved s (.leave w) { s.setPc w .leaving with stopFlag := false } []
  | returned (w : Nat) : (s.workers w).pc = .leaving → Moved s (.ends w) (s.setPc w .returned) [.returned w]

namespace CanIPCRun

variable {s t : CanIPCRun} {e : List ConnectEvent}

theorem run_moved (hi : s.caller = .idle) : Moved s .run s.run.1 s.run.2 := by
  unfold run
  split
  · rename_i ht
    exact .joinable hi (Option.isSome_iff_ne_none.1 ht)
  · rename_i ht
    exact .started hi (by simpa using ht)

theorem stop_moved (hi : s.caller = .idle) (bforce : Bool) :
    Moved s (.stop bforce) (s.stop bforce).1 (s.stop bforce).2 := by
  unfold stop
  split
  · rename_i ht
    exact .stops bforce hi (Option.isSome_iff_ne_none.1 ht)
  · rename_i ht
    exact .stopsNothing bforce hi (by simpa using ht)

theorem callerStep_moved (h : s.callerStep = some (t, e)) : Moved s .caller t e := by
  unfold callerStep at h
  split at h
  · cases h
  · rename_i hc
    split at h <;> cases h
    · rename_i ht
      exact .waits hc (Option.isSome_iff_ne_none.1 ht)
    · rename_i ht
      exact .detachedEarly hc (by simpa using ht)
  · rename_i hc
    split at h <;> cases h
    · rename_i hw
      exact .blocks hc hw.1 hw.2
    · rename_i hw
      refine .passes hc ?_
      rw [not_and_or, not_not] at hw
      exact hw.imp_left le_of_not_gt
  · rename_i hc
    split at h <;> cases h
    rename_i hw
    exact .wakes hc hw
  · rename_i hc
    cases h
    exact .returns hc
  · rename_i bforce hc
    split at h <;> cases h
    · rename_i hcl
      exact .closes bforce hc hcl
    · rename_i hcl
      exact .closesNothing bforce hc hcl
  · rename_i bforce hc
    split at h
    · rename_i ht
      cases h
      exact .stopThrows bforce hc ht
    · rename_i w ht
      cases bforce with
      | true =>
        cases h
        exact .detaches w hc ht
      | false =>
        cases h
        exact .joins w hc ht
  · rename_i hc
    split at h
    · cases h
    · rename_i w ht
      split at h <;> cases h
      rename_i hpc
      exact .joined w hc ht hpc

theorem callInit_moved {w : Nat} (hpc : (s.workers w).pc = .started) :
    Moved s (.callInit w) (s.callInit w).1 (s.callInit w).2 := by
  unfold callInit
  simp only
  split
  · rename_i hv
    obtain ⟨v, hlt, hv⟩ := List.any_eq_true.1 hv
    exact .reinitialises w v hpc (List.mem_range.1 hlt) hv
  · rename_i hv
    refine .initialises w hpc fun v hlt => ?_
    by_contra hne
    exact hv (List.any_eq_true.2 ⟨v, List.mem_range.2 hlt, by simpa using hne⟩)

theorem init_moved {w : Nat} (hpc : (s.workers w).pc = .initialising) (loopInit pipeInit : Int) :
    Moved s (.init w loopInit pipeInit) (s.init w loopInit pipeInit).1 (s.init w loopInit pipeInit).2 := by
  unfold init
  split
  · rename_i hl
    exact .loopInitFails w loopInit pipeInit hpc hl
  rename_i hl
  rw [not_not] at hl
  subst hl
  split
  · rename_i hp
    exact .pipeInitFails w pipeInit hpc hp
  · rename_i hp
    rw [not_not] at hp
    subst hp
    exact .connects w hpc

theorem onConnect_moved {w : Nat} (hpc : (s.workers w).pc = .running) (ha : s.attempt = true)
    (status spawn readStart : Int) :
    Moved s (.onConnect w status spawn readStart) (s.onConnect status spawn readStart).1
      (s.onConnect status spawn readStart).2 := by
  unfold onConnect
  split
  · rename_i hs
    split
    · rename_i hc
      exact .spawnFails w status spawn readStart hpc ha hs hc.1 hc.2
    · rename_i hc
      refine .reconnects w status spawn readStart hpc ha hs fun h0 => ?_
      by_contra hsp
      exact hc ⟨h0, hsp⟩
  · rename_i hs
    rw [not_not] at hs
    subst hs
    exact .connected w spawn readStart hpc ha

theorem onReadEnd_moved {w : Nat} (hpc : (s.workers w).pc = .running) (hr : s.reading = true) :
    Moved s (.onReadEnd w) s.onReadEnd [] := by
  unfold onReadEnd
  split
  · rename_i hc
    exact .disconnected w hpc hr hc
  · rename_i hc
    exact .disconnectedAgain w hpc hr hc

theorem onClose_moved {w : Nat} (hpc : (s.workers w).pc = .running) (hc : s.closing = some true)
    (hcl : s.closed = false) (ha : s.attempt = false) : Moved s (.onClose w) s.onClose [] := by
  unfold onClose
  split
  · rename_i ht
    exact .closedThrows w _ hpc hc hcl ha (.inl ht) (by decide)
  · rename_i v ht
    split
    · rename_i hj
      exact .closedThrows w _ hpc hc hcl ha (.inr hj) (by decide)
    · rename_i hj
      exact .closedDetaches w v hpc hc hcl ha ht hj

/-- A step has one of the outcomes of `Moved`, and is taken only while nothing has gone wrong. -/
theorem connect_moved {i : ConnectInput} (h : connectMachine.step s i = some (t, e)) :
    s.fault = none ∧ Moved s i t e := by
  simp only [connectMachine, step] at h
  split at h
  · cases h
  rename_i hf
  refine ⟨by simpa using hf, ?_⟩
  cases i with
  | run =>
    obtain ⟨hi, h⟩ := Option.ite_none_right_eq_some.1 h
    have := run_moved hi
    rwa [Option.some.inj h] at this
  | stop bforce =>
    obtain ⟨hi, h⟩ := Option.ite_none_right_eq_some.1 h
    have := stop_moved hi bforce
    rwa [Option.some.inj h] at this
  | caller => exact callerStep_moved h
  | callInit w =>
    obtain ⟨hpc, h⟩ := Option.ite_none_right_eq_some.1 h
    have := callInit_moved hpc
    rwa [Option.some.inj h] at this
  | init w loopInit pipeInit =>
    obtain ⟨hpc, h⟩ := Option.ite_none_right_eq_some.1 h
    have := init_moved hpc loopInit pipeInit
    rwa [Option.some.inj h] at this
  | onConnect w status spawn readStart =>
    obtain ⟨hpc, h⟩ := Option.ite_none_right_eq_some.1 h
    have := onConnect_moved hpc.1 hpc.2 status spawn readStart
    rwa [Option.some.inj h] at this
  | onReadEnd w =>
    obtain ⟨hpc, h⟩ := Option.ite_none_right_eq_some.1 h
    cases h
    exact onReadEnd_moved hpc.1 hpc.2
  | onClose w =>
    obtain ⟨⟨hpc, hc, hcl, ha⟩, h⟩ := Option.ite_none_right_eq_some.1 h
    split at h <;> cases h
    · rename_i ht
      exact onClose_moved hpc ht hcl ha
    · rename_i ht
      obtain ⟨cb, hcb⟩ := Option.isSome_iff_exists.1 hc
      cases cb with
      | true => exact absurd hcb ht
      | false => exact .closed w hpc hcb hcl ha
  | leave w =>
    obtain ⟨hpc, h⟩ := Option.ite_none_right_eq_some.1 h
    cases h
    exact .leaves w hpc.1 hpc.2
  | ends w =>
    obtain ⟨hpc, h⟩ := Option.ite_none_right_eq_some.1 h
    cases h
    exact .returned w hpc

end CanIPCRun

end AnXfs.Client
