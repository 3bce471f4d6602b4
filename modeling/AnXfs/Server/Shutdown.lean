/-
The end of the server process (`wWinMain`): once `uv_run` has returned, the main thread stops the item
check and the executor, waits for the executor's thread, deletes the executor with its event handler and,
last of all, stops the item check again and waits for its thread. The `reset` of a command still being
executed can undo the wake-up of the first stop (`stop_erased`); the second comes when no command is
executed any more. `winMain_ends` says that the process, once its loop has been stopped, comes to its end
however the three threads interleave, `handler_alive_iff` when the item check does not use the event
handler after its deletion. Whether the loop is ever stopped is not decided here (`exit_lost`), and the
commands that it reads are taken to have commanders.
-/
import AnXfs.Run.Progress
import AnXfs.Server.Idle
import AnXfs.Server.ItemCheck
import AnXfs.Server.Order

namespace AnXfs.Server

open AnXfs.Pack AnXfs.Run

variable {A : Arch} {api : XfsApi}

/-! ## State -/

/-- Where `wWinMain` stands: before `CanIPCServer::run` has its pipe, in `uv_run`, at the pieces of `CExecuter::stop`
and the join of `CanIPCServer::stop`, and at the destructors: of the executor in `~CanIPCServer`, then the pieces of
`CItem_pass_check::join`. -/
inductive MainPc where
  | create
  | uvRun
  | stopItemCheck
  | signalItemCheck
  | stopThread
  | joinThread
  | deleteExecuter
  | stopAgain
  | signalAgain
  | joinItemCheck
  | returned
  deriving DecidableEq

/-- The process: its main thread, the executor's thread and the item check's thread. `stopped`: `uv_run` is to return;
`started`: the two threads are there; `deleted`: the executor is gone, and with it the handler that the item check posts
by. -/
structure WinMain (A : Arch) (api : XfsApi) where
  pc : MainPc
  stopped : Bool
  started : Bool
  deleted : Bool
  thread : CanThread A api
  check : CItemPassCheck
  fault : Option Fault

def WinMain.new (x : CanXfs A api) (interval : Dword) (clock : Nat) : WinMain A api where
  pc := .create
  stopped := false
  started := false
  deleted := false
  thread := .new x interval clock
  check := .new
  fault := none

/-- A step of `wWinMain` (`r`: what the set-up of the pipe returns), the end of its loop, by `notify_exit_server` or
because libuv has nothing left to wait for, a command that its loop reads, a step of the executor's thread, time that
goes by, and a step of the item check's thread. -/
inductive MainInput (A : Arch) where
  | main (r : Int)
  | stopLoop
  | push (client : Option Addr) (origin : Option ConnId) (m : AnCmd A)
  | thread (now : AnSystemtime) (online : Bool)
  | wait (ms : Nat)
  | item (spurious : Bool)

inductive MainEvent (A : Arch) where
  | thread (e : ThreadEvent A)
  | check (e : CheckEvent)
  | fault (f : Fault)
  deriving DecidableEq

/-! ## Steps -/

/-- What the piece of `run` that comes next does to the semaphore of the item check: an Execute signals it before it
is handled (`warkup_item_check`) and resets it afterwards (`pause_item_check`). -/
def Executer.semaphoreCall (s : Executer A api) : Option CheckInput :=
  match s.currentCmd.mCmd.bind s.heap with
  | none => none
  | some m =>
    if m.eType = AnWfpType.wfpExecute.code then
      match s.pc with
      | .cmdHandler => some (.signal m.base.hService m.base.reqId)
      | .pauseItemCheck => some .reset
      | _ => none
    else none

def CanThread.semaphoreCall (s : CanThread A api) : Option CheckInput :=
  if s.pc = .running then s.executer.semaphoreCall else none

namespace WinMain

variable (s : WinMain A api)

/-- The semaphore of the item check after a call of another thread. -/
def callCheck (i : CheckInput) : WinMain A api :=
  match s.check.step i with
  | some (check, _) => { s with check := check }
  | none => s

/-- A step of `wWinMain`. -/
def main (r : Int) : Option (WinMain A api) :=
  match s.pc with
  | .create =>
    -- without a pipe there is no executor, and `CanIPCServer::stop` has nothing to stop
    if r ≠ 0 then some { s with pc := .stopAgain } else some { s with pc := .uvRun, started := true }
  | .uvRun => if s.stopped then some { s with pc := .stopItemCheck } else none
  | .stopItemCheck => some { s.callCheck .stop with pc := .signalItemCheck }
  | .signalItemCheck => some { s.callCheck .stopSignal with pc := .stopThread }
  | .stopThread => some { s with thread := { s.thread with mStopFlag := true }, pc := .joinThread }
  | .joinThread =>
    if s.thread.pc = .exited then
      some { s with thread := { s.thread with mStopFlag := false }, pc := .deleteExecuter }
    else none
  | .deleteExecuter => some { s with deleted := true, pc := .stopAgain }
  | .stopAgain => some { s.callCheck .stop with pc := .signalAgain }
  | .signalAgain => some { s.callCheck .stopSignal with pc := .joinItemCheck }
  | .joinItemCheck =>
    -- a thread that was never started is not joinable
    if s.started = false ∨ s.check.pc = .exited then some { s with pc := .returned } else none
  | .returned => none

/-- A step of the executor's thread. -/
def threadCb (now : AnSystemtime) (online : Bool) : Option (WinMain A api × List (MainEvent A)) :=
  ((threadMachine A api).step s.thread (.thread now online)).map fun (t, e) =>
    let s' := match s.thread.semaphoreCall with
      | some i => s.callCheck i
      | none => s
    ({ s' with thread := t }, e.map .thread)

/-- A step of the item check, which posts by the handler of the executor. -/
def item (spurious : Bool) : Option (WinMain A api × List (MainEvent A)) :=
  (s.check.run spurious).map fun (check, e) =>
    if e ≠ [] ∧ s.deleted = true then
      ({ s with check := check, fault := some .useAfterFree }, [.fault .useAfterFree])
    else ({ s with check := check }, e.map .check)

def step (i : MainInput A) : Option (WinMain A api × List (MainEvent A)) :=
  if s.fault ≠ none ∨ s.pc = .returned then none else
  match i with
  | .main r => (s.main r).map fun t => (t, [])
  | .stopLoop => if s.pc = .uvRun then some ({ s with stopped := true }, []) else none
  | .push client origin m =>
    if s.pc = .uvRun then
      ((threadMachine A api).step s.thread (.push client origin m)).map fun (t, e) =>
        ({ s with thread := t }, e.map .thread)
    else none
  | .thread now online => if s.started then s.threadCb now online else none
  | .wait ms =>
    ((threadMachine A api).step s.thread (.wait ms)).map fun (t, e) => ({ s with thread := t }, e.map .thread)
  | .item spurious => if s.started then s.item spurious else none

end WinMain

def winMainMachine (A : Arch) (api : XfsApi) : Machine (WinMain A api) (MainInput A) (MainEvent A) where
  step := WinMain.step

/-! ## The executor's thread -/

/-- What a step of the thread does, up to the time of the last command. -/
inductive Turned (s : CanThread A api) : CanThread A api → List (ThreadEvent A) → Prop
  | tested : s.pc = .stopTest → Turned s { s with pc := if s.mStopFlag then .exited else .running } []
  | ran (now : AnSystemtime) (x : Executer A api) (es : List (ExecEvent A)) (r : HResult) : s.pc = .running →
      Ran s.executer now x es →
      Turned s { s with executer := x, r := r, pc := if x.pc = .sizeTest then .idleHandle else .running }
        (es.map (.exec s.clock))
  | begun : s.pc = .idleHandle → s.sBegin = none → Turned s { s with sBegin := some s.clock } []
  | rested (sBegin : Option Nat) : s.pc = .idleHandle → s.sBegin ≠ none →
      Turned s { s with sBegin := sBegin, r := 0, pc := .stopTest } []
  | idles (n : Notice) : s.pc = .idleHandle → s.sBegin ≠ none → s.executer.pc = .sizeTest →
      Turned s { s with pc := .idled } [.idle s.clock, .exec s.clock (.broadcast n)]
  | idled : s.pc = .idled → Turned s { s with sBegin := some s.clock, r := 0, pc := .stopTest } []

theorem thread_turned {s t : CanThread A api} {now : AnSystemtime} {online : Bool} {e : List (ThreadEvent A)}
    (h : (threadMachine A api).step s (.thread now online) = some (t, e)) :
    ∃ t', Turned s t' e ∧ t = t'.noted s.clock e := by
  obtain ⟨t', hm, rfl⟩ := threadMachine_step h
  refine ⟨t', ?_, rfl⟩
  simp only [CanThread.move, CanThread.threadCb] at hm
  split at hm
  · rename_i hpc
    cases hm
    exact .tested hpc
  · rename_i hpc
    obtain ⟨⟨u, eu⟩, hu, hm⟩ := Option.map_eq_some_iff.1 hm
    obtain ⟨x, es, hx, rfl, rfl⟩ := execute_some hu
    cases hm
    exact .ran now x es _ hpc (step_ran hx)
  · rename_i hpc
    unfold CanThread.idleHandle at hm
    split at hm
    · rename_i hb
      cases hm
      exact .begun hpc hb
    · rename_i begin hb
      have hne : s.sBegin ≠ none := by
        rw [hb]
        simp
      split at hm
      · cases hm
        exact .rested _ hpc hne
      · split at hm
        · obtain ⟨⟨u, eu⟩, hu, hm⟩ := Option.map_eq_some_iff.1 hm
          obtain ⟨x, es, hx, rfl, rfl⟩ := execute_some hu
          cases hm
          simp only [Executer.step] at hx
          split at hx
          · cases hx
          · obtain ⟨hsize, heq⟩ := Option.ite_none_right_eq_some.1 hx
            cases heq
            exact .idles _ hpc hne hsize
        · cases hm
          exact .rested s.sBegin hpc hne
  · rename_i hpc
    cases hm
    exact .idled hpc
  · cases hm

theorem Turned.flag {s t : CanThread A api} {e : List (ThreadEvent A)} (h : Turned s t e) :
    t.mStopFlag = s.mStopFlag ∧ s.pc ≠ .exited := by
  cases h with
  | tested hpc | begun hpc | rested _ hpc | idles _ hpc | idled hpc => exact ⟨rfl, by simp [hpc]⟩
  | ran _ _ _ _ hpc => exact ⟨rfl, by simp [hpc]⟩

/-- What keeps the thread from getting stuck: the executor is in order, and between two calls of `run` at its start. -/
structure InPlace (s : CanThread A api) : Prop where
  ordered : ∃ g, Ordered g s.executer
  between : s.pc ≠ .running → s.executer.pc = .sizeTest

theorem inPlace_new (x : CanXfs A api) (interval : Dword) (clock : Nat) : InPlace (CanThread.new x interval clock) :=
  ⟨⟨[], ordered_new x⟩, fun _ => rfl⟩

theorem Turned.inPlace {s t : CanThread A api} {e : List (ThreadEvent A)} (hs : InPlace s) (h : Turned s t e) :
    InPlace t := by
  obtain ⟨⟨g, ho⟩, hb⟩ := hs
  cases h with
  | tested hpc => exact ⟨⟨g, ho⟩, fun _ => hb (by rw [hpc]; decide)⟩
  | ran now x es r hpc hr =>
    refine ⟨⟨g ++ es, ordered_stepped (i := .run now) ho trivial (.ran now x es hr)⟩, fun hne => ?_⟩
    by_contra hx
    exact hne (if_neg hx)
  | begun hpc | rested _ hpc | idles _ hpc | idled hpc => exact ⟨⟨g, ho⟩, fun _ => hb (by rw [hpc]; decide)⟩

theorem InPlace.faultless {s : CanThread A api} (hs : InPlace s) : s.executer.fault = none := by
  obtain ⟨⟨g, served, waiting, o⟩, -⟩ := hs
  exact o.fault

theorem InPlace.of_executer {s t : CanThread A api} (hs : InPlace s) (hx : t.executer = s.executer)
    (hpc : t.pc = s.pc) : InPlace t := by
  constructor
  · rw [hx]
    exact hs.ordered
  · rw [hx, hpc]
    exact hs.between

/-- A push only makes the deque longer. -/
theorem InPlace.push {s t : CanThread A api} (hs : InPlace s) {client : Option Addr} {origin : Option ConnId}
    {m : AnCmd A} {e : List (ThreadEvent A)} (hm : m.Built ∧ HasSlot m)
    (h : (threadMachine A api).step s (.push client origin m) = some (t, e)) : InPlace t := by
  obtain ⟨t', hm', rfl⟩ := threadMachine_step h
  obtain ⟨x, es, hx, rfl, -⟩ := execute_some hm'
  obtain ⟨⟨g, ho⟩, hb⟩ := hs
  refine ⟨⟨g ++ es, ordered_stepped (i := .push client origin m) ho hm (step_stepped hx).2⟩, fun hpc => ?_⟩
  simp only [Executer.step] at hx
  split at hx
  · cases hx
  · cases hx
    exact hb hpc

/-- The thread goes on until it has left its loop. -/
theorem InPlace.goes_on {s : CanThread A api} (hs : InPlace s) (hpc : s.pc ≠ .exited) (now : AnSystemtime)
    (online : Bool) : ((threadMachine A api).step s (.thread now online)).isSome := by
  simp only [threadMachine, CanThread.move, CanThread.threadCb, Option.isSome_map]
  have hf := hs.faultless
  cases h : s.pc with
  | stopTest => rfl
  | running => simp [CanThread.run, CanThread.execute, Executer.step, hf]
  | idleHandle =>
    have hsize := hs.between (by rw [h]; decide)
    simp only [CanThread.idleHandle]
    split
    · rfl
    · split
      · rfl
      · split
        · simp [CanThread.execute, Executer.step, hf, hsize]
        · rfl
  | idled => rfl
  | exited => exact absurd h hpc

/-- The pieces of `run` from a place on. -/
def ExecPc.left : ExecPc → Nat
  | .sizeTest => 7
  | .readFront => 6
  | .preProcess => 5
  | .cmdHandler => 4
  | .pauseItemCheck => 3
  | .destroyCmd => 2
  | .popFront => 1

/-- The steps of the thread until it has seen its flag. -/
def CanThread.left (s : CanThread A api) : Nat :=
  match s.pc with
  | .exited => 0
  | .stopTest => 1
  | .idled => 2
  | .idleHandle => if s.sBegin = none then 4 else 3
  | .running => 4 + s.executer.pc.left

/-- The commands that it still executes until then: the one of the `run` that it is in. -/
def CanThread.executes (s : CanThread A api) : Nat :=
  if s.pc = .running ∧ 4 ≤ s.executer.pc.left then 1 else 0

/-- The commands executed. -/
def executions (e : List (ThreadEvent A)) : Nat := (executedOf (execs e)).length

theorem executions_stamped (c : Nat) (es : List (ExecEvent A)) : executions (es.map (.exec c)) = (executedOf es).length := by
  unfold executions
  rw [execs_stamped]

/-- A piece of `run` that does not fail comes closer to its end, and executes a command only where it handles one. -/
theorem ran_left {s t : Executer A api} {now : AnSystemtime} {e : List (ExecEvent A)} (ho : ∃ g, Ordered g s)
    (h : Ran s now t e) : (t.pc = .sizeTest ∨ t.pc.left < s.pc.left) ∧
      ((executedOf e).length = 0 ∨ (executedOf e).length = 1 ∧ s.pc = .cmdHandler ∧ t.pc = .pauseItemCheck) := by
  cases h with
  | empty hpc => exact ⟨.inl hpc, .inl rfl⟩
  | sized hpc | fronted _ _ hpc | preProcessed _ hpc | paused _ _ hpc | destroyed _ hpc =>
    refine ⟨.inr ?_, .inl rfl⟩
    rw [hpc]
    exact Nat.lt_succ_self _
  | handled p m t c hpc =>
    refine ⟨.inr ?_, .inr ⟨rfl, hpc, rfl⟩⟩
    rw [hpc]
    exact Nat.lt_succ_self _
  | popped => exact ⟨.inl rfl, .inl rfl⟩
  | failed f hst =>
    obtain ⟨g, served, waiting, o⟩ := ho
    exact absurd hst (o.not_stuck now f)

/-- Once its flag is up, the thread comes closer to its end with each step, and executes one command at most. -/
theorem Turned.left {s t : CanThread A api} {e : List (ThreadEvent A)} (hs : InPlace s) (hf : s.mStopFlag = true)
    (h : Turned s t e) : t.left < s.left ∧ executions e + t.executes ≤ s.executes := by
  cases h with
  | tested hpc =>
    rw [hf]
    constructor
    · simp [CanThread.left, hpc]
    · simp [CanThread.executes, executions, execs, executedOf]
  | ran now x es r hpc hr =>
    obtain ⟨hleft, hex⟩ := ran_left hs.ordered hr
    rw [executions_stamped]
    by_cases hx : x.pc = .sizeTest
    · have hpos : 1 ≤ s.executer.pc.left := by cases s.executer.pc <;> decide
      constructor
      · simp only [CanThread.left, if_pos hx, hpc]
        split <;> omega
      · simp only [CanThread.executes, if_pos hx, hpc]
        rcases hex with h | ⟨-, -, h⟩
        · rw [h]
          simp
        · rw [hx] at h
          cases h
    · have hlt := hleft.resolve_left hx
      constructor
      · simp only [CanThread.left, if_neg hx, hpc]
        omega
      · simp only [CanThread.executes, if_neg hx, hpc, true_and]
        rcases hex with h | ⟨h, hcmd, hpause⟩
        · rw [h]
          split <;> split <;> omega
        · rw [h, hcmd, hpause]
          decide
  | begun hpc hb =>
    constructor
    · simp [CanThread.left, hpc, hb]
    · simp [CanThread.executes, executions, execs, executedOf, hpc]
  | rested _ hpc hb =>
    constructor
    · simp [CanThread.left, hpc, hb]
    · simp [CanThread.executes, executions, execs, executedOf]
  | idles n hpc hb =>
    constructor
    · simp [CanThread.left, hpc, hb]
    · simp [CanThread.executes, executions, execs, executedOf]
  | idled hpc =>
    constructor
    · simp [CanThread.left, hpc]
    · simp [CanThread.executes, executions, execs, executedOf]

/-! ## The item check's thread -/

/-- The thread is past its second test of the flag, and is going to post. -/
def CItemPassCheck.posting (s : CItemPassCheck) : Bool :=
  match s.pc with
  | .itemPassCheck | .readReqid _ => true
  | _ => false

/-- The steps of the thread until it has seen its flag or sleeps. -/
def CItemPassCheck.left (s : CItemPassCheck) : Nat :=
  match s.pc with
  | .exited => 0
  | .stopTest | .stopTestAgain => 1
  | .readReqid _ => 2
  | .itemPassCheck => 3
  | .wait => if s.condition = .asleep then 1 else 2

section Check

variable {c d : CItemPassCheck} {spurious : Bool} {e : List CheckEvent}

theorem run_frame (h : c.run spurious = some (d, e)) : d.mStopFlag = c.mStopFlag ∧ d.stopping = c.stopping ∧
    d.stopped = c.stopped ∧ d.curReqid = c.curReqid ∧ d.curService = c.curService := by
  rcases run_cases h with ⟨-, -, m, returned, hw, rfl⟩ | ⟨-, ⟨pc, rfl⟩, -⟩
  · obtain ⟨hservice, hreqid, -⟩ := wait_cases hw
    exact ⟨rfl, rfl, rfl, hreqid, hservice⟩
  · exact ⟨rfl, rfl, rfl, rfl, rfl⟩

/-- Once its flag is up, the thread comes closer to its end with each step that is not a spurious wake-up. -/
theorem run_left (hf : c.mStopFlag = true) (h : c.run spurious = some (d, e)) :
    (if spurious = true then 0 else 1) + d.left ≤ c.left := by
  unfold CItemPassCheck.run at h
  split at h
  · rename_i hpc
    cases h
    simp only [CItemPassCheck.left, hpc, hf, if_true]
    split <;> omega
  · rename_i hpc
    obtain ⟨⟨m, returned⟩, hw, h⟩ := Option.map_eq_some_iff.1 h
    cases h
    have hleft : CItemPassCheck.left { c with toAnSemaphore := m, pc := if returned then .stopTestAgain else .wait } = 1 := by
      obtain ⟨-, -, ⟨rfl, -, -⟩ | ⟨rfl, hm, -⟩⟩ := wait_cases hw
      · rfl
      · exact if_pos hm
    rw [hleft]
    simp only [CItemPassCheck.left, hpc]
    by_cases ha : c.condition = .asleep
    · -- who sleeps without a notification only wakes up spuriously
      unfold AnSemaphore.wait at hw
      rw [ha] at hw
      cases spurious with
      | true => simp [ha]
      | false => cases hw
    · rw [if_neg ha]
      split <;> omega
  · rename_i hpc
    cases h
    simp only [CItemPassCheck.left, hpc, hf, if_true]
    split <;> omega
  · rename_i hpc
    cases h
    simp only [CItemPassCheck.left, hpc]
    split <;> omega
  · rename_i hpc
    cases h
    simp only [CItemPassCheck.left, hpc]
    split <;> omega
  · cases h

/-- Once its flag is up, a thread that is not posting never will be, and what it does goes unseen. -/
theorem run_quiet (hf : c.mStopFlag = true) (hp : c.posting = false) (h : c.run spurious = some (d, e)) :
    d.posting = false ∧ e = [] := by
  unfold CItemPassCheck.run at h
  split at h
  · cases h
    simp [CItemPassCheck.posting, hf]
  · obtain ⟨⟨m, returned⟩, hw, h⟩ := Option.map_eq_some_iff.1 h
    cases h
    cases returned <;> simp [CItemPassCheck.posting]
  · cases h
    simp [CItemPassCheck.posting, hf]
  · rename_i hpc
    simp [CItemPassCheck.posting, hpc] at hp
  · rename_i hpc
    simp [CItemPassCheck.posting, hpc] at hp
  · cases h

/-- A thread that is posting is so until it has posted. -/
theorem run_posts (hp : c.posting = true) (h : c.run spurious = some (d, e)) :
    d.posting = true ∧ e = [] ∨ e ≠ [] := by
  unfold CItemPassCheck.run at h
  split at h
  · rename_i hpc
    simp [CItemPassCheck.posting, hpc] at hp
  · rename_i hpc
    simp [CItemPassCheck.posting, hpc] at hp
  · rename_i hpc
    simp [CItemPassCheck.posting, hpc] at hp
  · cases h
    exact .inl ⟨rfl, rfl⟩
  · cases h
    exact .inr (List.cons_ne_nil _ _)
  · cases h

/-- With a request id in the semaphore no thread falls asleep. -/
theorem run_awake (hr : c.curReqid ≠ 0) (ha : c.condition ≠ .asleep) (h : c.run spurious = some (d, e)) :
    d.condition ≠ .asleep := by
  rcases run_cases h with ⟨-, -, m, returned, hw, rfl⟩ | ⟨-, ⟨pc, rfl⟩, -⟩
  · obtain ⟨-, -, ⟨-, hm, -⟩ | ⟨-, -, hm, -⟩⟩ := wait_cases hw
    · simp [hm]
    · exact absurd hm hr
  · exact ha

/-- The thread goes on unless it sleeps or has left its loop. -/
theorem run_goes_on (hpc : c.pc ≠ .exited) (ha : c.condition ≠ .asleep) : (c.run false).isSome := by
  unfold CItemPassCheck.run
  cases h : c.pc with
  | stopTest | stopTestAgain | itemPassCheck | readReqid => rfl
  | wait =>
    simp only [Option.isSome_map, AnSemaphore.wait]
    cases hc : c.condition with
    | nobody | notified => rfl
    | asleep => exact absurd hc ha
  | exited => exact absurd h hpc

/-- A call of another thread does not move the thread, and wakes it up at most. -/
theorem call_left {i : CheckInput} (hi : ∀ spurious, i ≠ .thread spurious) (h : c.step i = some (d, e)) :
    d.pc = c.pc ∧ d.left ≤ c.left + 1 := by
  have hwait : ∀ m : AnSemaphore, CItemPassCheck.left { c with toAnSemaphore := m } ≤ c.left + 1 := by
    intro m
    unfold CItemPassCheck.left
    cases c.pc with
    | stopTest | stopTestAgain | itemPassCheck | readReqid | exited => exact Nat.le_succ _
    | wait =>
      simp only
      by_cases hm : m.condition = .asleep
      · rw [if_pos hm]
        omega
      · rw [if_neg hm]
        by_cases hc : c.condition = .asleep
        · rw [if_pos hc]
        · rw [if_neg hc]
          omega
  cases i with
  | signal | reset =>
    cases h
    exact ⟨rfl, hwait _⟩
  | stop =>
    cases h
    exact ⟨rfl, Nat.le_succ _⟩
  | stopSignal =>
    simp only [CItemPassCheck.step] at h
    split at h
    · cases h
    · cases h
      exact ⟨rfl, hwait _⟩
  | thread spurious => exact absurd rfl (hi spurious)

/-- The calls of the executor's thread leave the flag alone. -/
theorem call_frame {i : CheckInput} (hi : ∀ spurious, i ≠ .thread spurious) (hstop : i ≠ .stop)
    (hsignal : i ≠ .stopSignal) (h : c.step i = some (d, e)) :
    d.mStopFlag = c.mStopFlag ∧ d.stopping = c.stopping := by
  cases i with
  | signal | reset =>
    cases h
    exact ⟨rfl, rfl⟩
  | stop => exact absurd rfl hstop
  | stopSignal => exact absurd rfl hsignal
  | thread spurious => exact absurd rfl (hi spurious)

end Check

/-! ## The process -/

/-- The places of `wWinMain` in their order. -/
def MainPc.rank : MainPc → Nat
  | .create => 0
  | .uvRun => 1
  | .stopItemCheck => 2
  | .signalItemCheck => 3
  | .stopThread => 4
  | .joinThread => 5
  | .deleteExecuter => 6
  | .stopAgain => 7
  | .signalAgain => 8
  | .joinItemCheck => 9
  | .returned => 10

/-- What there is at each place: the threads, until they are joined, with their flags, until the executor is deleted;
at the last join, what wakes the item check up. -/
def AtPlace (s : WinMain A api) : Prop :=
  match s.pc with
  | .create => s.started = false ∧ s.deleted = false
  | .uvRun | .stopItemCheck => s.started = true ∧ s.deleted = false
  | .signalItemCheck | .stopThread => s.started = true ∧ s.deleted = false ∧ s.check.mStopFlag = true
  | .joinThread =>
    s.started = true ∧ s.deleted = false ∧ s.check.mStopFlag = true ∧ s.thread.mStopFlag = true
  | .deleteExecuter =>
    s.started = true ∧ s.deleted = false ∧ s.check.mStopFlag = true ∧ s.thread.pc = .exited
  | .stopAgain | .signalAgain =>
    s.deleted = s.started ∧ (s.started = true → s.check.mStopFlag = true ∧ s.thread.pc = .exited)
  | .joinItemCheck =>
    s.deleted = s.started ∧ (s.started = true → s.check.mStopFlag = true ∧ s.thread.pc = .exited) ∧
      s.check.curReqid ≠ 0 ∧ s.check.condition ≠ .asleep
  | .returned =>
    s.deleted = s.started ∧ (s.started = true → s.check.pc = .exited ∧ s.thread.pc = .exited)

/-- The invariant of the process. -/
structure Ending (s : WinMain A api) : Prop where
  thread : InPlace s.thread
  stopping : s.check.stopping = if s.pc = .signalItemCheck ∨ s.pc = .signalAgain then 1 else 0
  place : AtPlace s

theorem ending_new (x : CanXfs A api) (interval : Dword) (clock : Nat) : Ending (WinMain.new x interval clock) :=
  ⟨inPlace_new x interval clock, rfl, rfl, rfl⟩

/-- The commands that the loop reads can be served. -/
def MainInput.Servable : MainInput A → Prop
  | .push _ _ m => m.Built ∧ HasSlot m
  | _ => True

variable {s t : WinMain A api} {i : MainInput A} {e : List (MainEvent A)}

/-- What a step of the process is. -/
inductive Moved (s : WinMain A api) : MainInput A → WinMain A api → List (MainEvent A) → Prop
  | main (r : Int) (t : WinMain A api) : s.main r = some t → Moved s (.main r) t []
  | stops : s.pc = .uvRun → Moved s .stopLoop { s with stopped := true } []
  | pushed (client : Option Addr) (origin : Option ConnId) (m : AnCmd A) (x : CanThread A api)
      (es : List (ThreadEvent A)) : s.pc = .uvRun →
      (threadMachine A api).step s.thread (.push client origin m) = some (x, es) →
      Moved s (.push client origin m) { s with thread := x } (es.map .thread)
  | turned (now : AnSystemtime) (online : Bool) (x : CanThread A api) (es : List (ThreadEvent A)) (c : CItemPassCheck) :
      s.started = true → Turned s.thread x es →
      (c = s.check ∨ ∃ i e, (∀ spurious, i ≠ .thread spurious) ∧ i ≠ .stop ∧ i ≠ .stopSignal ∧
        s.check.step i = some (c, e)) →
      Moved s (.thread now online) { s with thread := x.noted s.thread.clock es, check := c } (es.map .thread)
  | waited (ms : Nat) : Moved s (.wait ms) { s with thread := { s.thread with clock := s.thread.clock + ms } } []
  | checked (spurious : Bool) (c : CItemPassCheck) (es : List CheckEvent) : s.started = true →
      s.check.run spurious = some (c, es) → (es = [] ∨ s.deleted = false) →
      Moved s (.item spurious) { s with check := c } (es.map .check)
  | misused (spurious : Bool) (c : CItemPassCheck) (es : List CheckEvent) : s.started = true →
      s.check.run spurious = some (c, es) → es ≠ [] → s.deleted = true →
      Moved s (.item spurious) { s with check := c, fault := some .useAfterFree } [.fault .useAfterFree]

theorem semaphoreCall_cases {x : CanThread A api} {j : CheckInput} (h : x.semaphoreCall = some j) :
    (∃ service reqid, j = .signal service reqid) ∨ j = .reset := by
  obtain ⟨-, h⟩ := Option.ite_none_right_eq_some.1 h
  unfold Executer.semaphoreCall at h
  split at h
  · cases h
  · obtain ⟨-, h⟩ := Option.ite_none_right_eq_some.1 h
    split at h
    · cases h
      exact .inl ⟨_, _, rfl⟩
    · cases h
      exact .inr rfl
    · cases h

theorem step_moved (h : s.step i = some (t, e)) : s.fault = none ∧ s.pc ≠ .returned ∧ Moved s i t e := by
  unfold WinMain.step at h
  split at h
  · cases h
  rename_i hgo
  obtain ⟨hf, hpc⟩ := not_or.1 hgo
  refine ⟨not_not.1 hf, hpc, ?_⟩
  cases i with
  | main r =>
    obtain ⟨t', ht, h⟩ := Option.map_eq_some_iff.1 h
    cases h
    exact .main r _ ht
  | stopLoop =>
    obtain ⟨hpc, h⟩ := Option.ite_none_right_eq_some.1 h
    cases h
    exact .stops hpc
  | push client origin m =>
    obtain ⟨hpc, h⟩ := Option.ite_none_right_eq_some.1 h
    obtain ⟨⟨x, es⟩, hx, h⟩ := Option.map_eq_some_iff.1 h
    cases h
    exact .pushed client origin m x es hpc hx
  | thread now online =>
    obtain ⟨hs, h⟩ := Option.ite_none_right_eq_some.1 h
    obtain ⟨⟨x, es⟩, hx, h⟩ := Option.map_eq_some_iff.1 h
    obtain ⟨x', hturned, rfl⟩ := thread_turned hx
    cases hcall : s.thread.semaphoreCall with
    | none =>
      simp only [hcall] at h
      cases h
      exact .turned now online x' es s.check hs hturned (.inl rfl)
    | some j =>
      simp only [hcall, WinMain.callCheck] at h
      have hj := semaphoreCall_cases hcall
      split at h
      · rename_i c es' hc
        cases h
        refine .turned now online x' es c hs hturned (.inr ⟨j, es', ?_, ?_, ?_, hc⟩)
        · rintro spurious rfl
          simp at hj
        · rintro rfl
          simp at hj
        · rintro rfl
          simp at hj
      · cases h
        exact .turned now online x' es s.check hs hturned (.inl rfl)
  | wait ms =>
    cases h
    exact .waited ms
  | item spurious =>
    obtain ⟨hs, h⟩ := Option.ite_none_right_eq_some.1 h
    obtain ⟨⟨c, es⟩, hc, h⟩ := Option.map_eq_some_iff.1 h
    by_cases hused : es ≠ [] ∧ s.deleted = true
    · simp only [if_pos hused] at h
      cases h
      exact .misused spurious c es hs hc hused.1 hused.2
    · simp only [if_neg hused] at h
      cases h
      refine .checked spurious c es hs hc ?_
      by_cases he : es = []
      · exact .inl he
      · exact .inr (by simpa [he] using hused)

/-! ## The process keeps to its order -/

theorem callCheck_stopSignal (hs : s.check.stopping = 1) : s.callCheck .stopSignal = { s with check := { s.check with
    toAnSemaphore := s.check.signal 1 1, stopping := 0, stopped := true } } := by
  simp [WinMain.callCheck, CItemPassCheck.step, hs]

/-- A step of `wWinMain`. -/
theorem Ending.main {r : Int} (hs : Ending s) (h : s.main r = some t) : Ending t := by
  obtain ⟨hthread, hstopping, hplace⟩ := hs
  unfold WinMain.main at h
  unfold AtPlace at hplace
  cases hpc : s.pc with
  | create =>
    simp only [hpc] at h hplace hstopping
    obtain ⟨hstarted, hdeleted⟩ := hplace
    split at h
    · cases h
      exact ⟨hthread, hstopping, by simp [AtPlace, hstarted, hdeleted]⟩
    · cases h
      exact ⟨hthread, hstopping, by simp [AtPlace, hdeleted]⟩
  | uvRun =>
    simp only [hpc] at h hplace hstopping
    obtain ⟨-, h⟩ := Option.ite_none_right_eq_some.1 h
    cases h
    exact ⟨hthread, hstopping, hplace⟩
  | stopItemCheck =>
    simp only [hpc] at h hplace hstopping
    cases h
    obtain ⟨hstarted, hdeleted⟩ := hplace
    exact ⟨hthread, by simpa [WinMain.callCheck, CItemPassCheck.step] using hstopping, hstarted, hdeleted, rfl⟩
  | signalItemCheck =>
    simp only [hpc] at h hplace hstopping
    rw [callCheck_stopSignal hstopping] at h
    cases h
    exact ⟨hthread, rfl, hplace⟩
  | stopThread =>
    simp only [hpc] at h hplace hstopping
    cases h
    obtain ⟨hstarted, hdeleted, hflag⟩ := hplace
    exact ⟨hthread.of_executer rfl rfl, hstopping, hstarted, hdeleted, hflag, rfl⟩
  | joinThread =>
    simp only [hpc] at h hplace hstopping
    obtain ⟨hexited, h⟩ := Option.ite_none_right_eq_some.1 h
    cases h
    obtain ⟨hstarted, hdeleted, hflag, -⟩ := hplace
    exact ⟨hthread.of_executer rfl rfl, hstopping, hstarted, hdeleted, hflag, hexited⟩
  | deleteExecuter =>
    simp only [hpc] at h hplace hstopping
    cases h
    obtain ⟨hstarted, -, hflag, hexited⟩ := hplace
    exact ⟨hthread, hstopping, hstarted.symm, fun _ => ⟨hflag, hexited⟩⟩
  | stopAgain =>
    simp only [hpc] at h hplace hstopping
    cases h
    obtain ⟨hdeleted, hended⟩ := hplace
    exact ⟨hthread, by simpa [WinMain.callCheck, CItemPassCheck.step] using hstopping, hdeleted,
      fun hstarted => ⟨rfl, (hended hstarted).2⟩⟩
  | signalAgain =>
    simp only [hpc] at h hplace hstopping
    rw [callCheck_stopSignal hstopping] at h
    cases h
    obtain ⟨hdeleted, hended⟩ := hplace
    -- the executor's thread is gone, and with it the `reset` that could take the ids away again
    exact ⟨hthread, rfl, hdeleted, hended, by simp, signal_asleep _ (by decide) (by decide)⟩
  | joinItemCheck =>
    simp only [hpc] at h hplace hstopping
    obtain ⟨hjoin, h⟩ := Option.ite_none_right_eq_some.1 h
    cases h
    obtain ⟨hdeleted, hended, -⟩ := hplace
    refine ⟨hthread, hstopping, hdeleted, fun (hstarted : s.started = true) => ⟨?_, (hended hstarted).2⟩⟩
    rw [hstarted] at hjoin
    exact hjoin.resolve_left (by decide)
  | returned =>
    simp only [hpc] at h
    cases h

/-- What the threads do leaves the places as they are. -/
theorem AtPlace.of_threads (hs : AtPlace s) (hpc : t.pc = s.pc) (hstarted : t.started = s.started)
    (hdeleted : t.deleted = s.deleted) (hflag : t.check.mStopFlag = s.check.mStopFlag)
    (hthread : t.thread.mStopFlag = s.thread.mStopFlag) (hexited : s.thread.pc = .exited → t.thread.pc = .exited)
    (hjoined : s.pc = .joinItemCheck → s.check.curReqid ≠ 0 → s.check.condition ≠ .asleep →
      t.check.curReqid ≠ 0 ∧ t.check.condition ≠ .asleep)
    (hgone : s.check.pc = .exited → t.check.pc = .exited) : AtPlace t := by
  unfold AtPlace at hs ⊢
  rw [hpc, hstarted, hdeleted, hflag, hthread]
  cases h : s.pc with
  | create | uvRun | stopItemCheck | signalItemCheck | stopThread | joinThread =>
    simp only [h] at hs
    exact hs
  | deleteExecuter =>
    simp only [h] at hs
    exact ⟨hs.1, hs.2.1, hs.2.2.1, hexited hs.2.2.2⟩
  | stopAgain | signalAgain =>
    simp only [h] at hs
    exact ⟨hs.1, fun hst => ⟨(hs.2 hst).1, hexited (hs.2 hst).2⟩⟩
  | joinItemCheck =>
    simp only [h] at hs
    obtain ⟨hdel, hended, hreqid, hawake⟩ := hs
    exact ⟨hdel, fun hst => ⟨(hended hst).1, hexited (hended hst).2⟩, hjoined h hreqid hawake⟩
  | returned =>
    simp only [h] at hs
    exact ⟨hs.1, fun hst => ⟨hgone (hs.2 hst).1, hexited (hs.2 hst).2⟩⟩

/-- At the last join the executor's thread is gone. -/
theorem AtPlace.thread_gone (hs : AtPlace s) (hpc : s.pc = .joinItemCheck) (hstarted : s.started = true) :
    s.thread.pc = .exited := by
  unfold AtPlace at hs
  simp only [hpc] at hs
  exact (hs.2.1 hstarted).2

theorem Ending.step (hs : Ending s) (hi : i.Servable) (h : s.step i = some (t, e)) : Ending t := by
  obtain ⟨-, -, hm⟩ := step_moved h
  cases hm with
  | main r t hmain => exact hs.main hmain
  | stops =>
    exact ⟨hs.thread, hs.stopping, hs.place.of_threads rfl rfl rfl rfl rfl id (fun _ hr ha => ⟨hr, ha⟩) id⟩
  | pushed client origin m x es hpc hx =>
    obtain ⟨x', hm', rfl⟩ := threadMachine_step hx
    obtain ⟨y, es', -, rfl, -⟩ := execute_some hm'
    exact ⟨hs.thread.push hi hx, hs.stopping,
      hs.place.of_threads rfl rfl rfl rfl rfl id (fun _ hr ha => ⟨hr, ha⟩) id⟩
  | turned now online x es c hstarted hturned hc =>
    obtain ⟨hflag, hpc⟩ := hturned.flag
    have hkeep : c.mStopFlag = s.check.mStopFlag ∧ c.stopping = s.check.stopping ∧ c.pc = s.check.pc := by
      rcases hc with rfl | ⟨j, e, hj, hstop, hsignal, hc⟩
      · exact ⟨rfl, rfl, rfl⟩
      · obtain ⟨hf, hst⟩ := call_frame hj hstop hsignal hc
        exact ⟨hf, hst, (call_left hj hc).1⟩
    obtain ⟨hcflag, hcstopping, hcpc⟩ := hkeep
    refine ⟨(hturned.inPlace hs.thread).of_executer rfl rfl, hcstopping.trans hs.stopping, ?_⟩
    refine hs.place.of_threads rfl rfl rfl hcflag hflag (fun hx => absurd hx hpc) (fun hjoin => ?_)
      (fun hx => hcpc.trans hx)
    exact absurd (hs.place.thread_gone hjoin hstarted) hpc
  | waited ms =>
    exact ⟨hs.thread.of_executer rfl rfl, hs.stopping,
      hs.place.of_threads rfl rfl rfl rfl rfl id (fun _ hr ha => ⟨hr, ha⟩) id⟩
  | checked spurious c es hstarted hc | misused spurious c es hstarted hc =>
    obtain ⟨hflag, hstopping, -, hreqid, -⟩ := run_frame hc
    refine ⟨hs.thread, hstopping.trans hs.stopping, hs.place.of_threads rfl rfl rfl hflag rfl id ?_ ?_⟩
    · intro _ hr ha
      exact ⟨by rwa [hreqid], run_awake hr ha hc⟩
    · intro hx
      simp [CItemPassCheck.run, hx] at hc

/-! ## The end is reached -/

/-- The steps that the process makes on its own: not what its clients, the clock and spurious wake-ups do. -/
def MainInput.works : MainInput A → Bool
  | .main _ | .thread .. | .item false => true
  | .stopLoop | .push .. | .wait _ | .item true => false

/-- Short of its end, and as long as nothing has gone wrong and its loop is not what it waits for, one of its threads
goes on. -/
theorem Ending.goes_on (hs : Ending s) (hf : s.fault = none) (hpc : s.pc ≠ .returned)
    (hloop : s.pc = .uvRun → s.stopped = true) :
    ∃ i, i.works = true ∧ (s.step i).isSome := by
  have hplace := hs.place
  unfold AtPlace at hplace
  have hmain (r : Int) (h : (s.main r).isSome) : ∃ i, i.works = true ∧ (s.step i).isSome := by
    refine ⟨.main r, rfl, ?_⟩
    simpa [WinMain.step, hf, hpc] using h
  cases h : s.pc with
  | create => exact hmain 0 (by simp [WinMain.main, h])
  | uvRun => exact hmain 0 (by simp [WinMain.main, h, hloop h])
  | stopItemCheck | signalItemCheck | stopThread | deleteExecuter | stopAgain | signalAgain =>
    exact hmain 0 (by simp [WinMain.main, h])
  | joinThread =>
    simp only [h] at hplace
    by_cases hexited : s.thread.pc = .exited
    · exact hmain 0 (by simp [WinMain.main, h, hexited])
    · have hgo := hs.thread.goes_on hexited midnight false
      refine ⟨.thread midnight false, rfl, ?_⟩
      simpa [WinMain.step, WinMain.threadCb, hf, hpc, hplace.1] using hgo
  | joinItemCheck =>
    simp only [h] at hplace
    obtain ⟨-, -, -, hawake⟩ := hplace
    by_cases hjoin : s.started = false ∨ s.check.pc = .exited
    · exact hmain 0 (by simp [WinMain.main, h, hjoin])
    · obtain ⟨hstarted, hexited⟩ := not_or.1 hjoin
      have hgo := run_goes_on hexited hawake
      refine ⟨.item false, rfl, ?_⟩
      simpa [WinMain.step, WinMain.item, hf, hpc, hstarted] using hgo
  | returned => exact absurd h hpc

/-- The steps that are left from the join of the executor's thread on: each may wake the item check up once more. -/
def WinMain.left (s : WinMain A api) : Nat := 2 * s.thread.left + 2 * (10 - s.pc.rank) + s.check.left

theorem left_le (s : WinMain A api) (hpc : 5 ≤ s.pc.rank) : s.left ≤ 35 := by
  have hthread : s.thread.left ≤ 11 := by
    unfold CanThread.left
    split
    · omega
    · omega
    · omega
    · split <;> omega
    · cases s.thread.executer.pc <;> simp [ExecPc.left]
  have hcheck : s.check.left ≤ 3 := by
    unfold CItemPassCheck.left
    split
    · omega
    · omega
    · omega
    · omega
    · omega
    · split <;> omega
  unfold WinMain.left
  omega

/-- The commands that the executor's thread executes. -/
def commands (e : List (MainEvent A)) : Nat :=
  executions (e.filterMap fun
    | .thread e => some e
    | .check _ | .fault _ => none)

theorem commands_append (a b : List (MainEvent A)) : commands (a ++ b) = commands a + commands b := by
  simp [commands, executions, execs, executedOf]

theorem commands_thread (es : List (ThreadEvent A)) : commands (es.map .thread) = executions es := by
  simp [commands, List.filterMap_map]

theorem commands_check (es : List CheckEvent) : commands (es.map (.check : CheckEvent → MainEvent A)) = 0 := by
  simp [commands, List.filterMap_map, executions, execs, executedOf]

/-- While `wWinMain` waits for the executor's thread, and after, the flag of a thread that still runs is up. -/
theorem AtPlace.flags (hs : AtPlace s) (hpc : MainPc.joinThread.rank ≤ s.pc.rank) (hlast : s.pc ≠ .returned)
    (hstarted : s.started = true) :
    s.check.mStopFlag = true ∧ (s.thread.pc ≠ .exited → s.thread.mStopFlag = true) := by
  unfold AtPlace at hs
  cases h : s.pc with
  | create | uvRun | stopItemCheck | signalItemCheck | stopThread =>
    rw [h] at hpc
    exact absurd hpc (by decide)
  | joinThread =>
    simp only [h] at hs
    exact ⟨hs.2.2.1, fun _ => hs.2.2.2⟩
  | deleteExecuter =>
    simp only [h] at hs
    exact ⟨hs.2.2.1, fun hx => absurd hs.2.2.2 hx⟩
  | stopAgain | signalAgain =>
    simp only [h] at hs
    exact ⟨(hs.2 hstarted).1, fun hx => absurd (hs.2 hstarted).2 hx⟩
  | joinItemCheck =>
    simp only [h] at hs
    exact ⟨(hs.2.1 hstarted).1, fun hx => absurd (hs.2.1 hstarted).2 hx⟩
  | returned => exact absurd h hlast

/-- From the join on a step of `wWinMain` brings it to the next place, and wakes the item check up at most. -/
theorem main_left {r : Int} (hs : Ending s) (hpc : MainPc.joinThread.rank ≤ s.pc.rank) (h : s.main r = some t) :
    t.pc.rank = s.pc.rank + 1 ∧ t.thread.left = s.thread.left ∧ t.thread.executes = s.thread.executes ∧
      t.check.left ≤ s.check.left + 1 := by
  have hstopping := hs.stopping
  unfold WinMain.main at h
  cases hm : s.pc with
  | create | uvRun | stopItemCheck | signalItemCheck | stopThread =>
    rw [hm] at hpc
    exact absurd hpc (by decide)
  | joinThread =>
    simp only [hm] at h
    obtain ⟨-, h⟩ := Option.ite_none_right_eq_some.1 h
    cases h
    exact ⟨rfl, rfl, rfl, Nat.le_succ _⟩
  | deleteExecuter | stopAgain =>
    simp only [hm] at h
    cases h
    exact ⟨rfl, rfl, rfl, Nat.le_succ _⟩
  | signalAgain =>
    simp only [hm] at h hstopping
    rw [callCheck_stopSignal hstopping] at h
    cases h
    have hcall : s.check.step .stopSignal =
        some ({ s.check with toAnSemaphore := s.check.signal 1 1, stopping := 0, stopped := true },
          [.signalled 1 1]) := by
      simp [CItemPassCheck.step, hstopping]
    exact ⟨rfl, rfl, rfl, (call_left (by simp) hcall).2⟩
  | joinItemCheck =>
    simp only [hm] at h
    obtain ⟨-, h⟩ := Option.ite_none_right_eq_some.1 h
    cases h
    exact ⟨rfl, rfl, rfl, Nat.le_succ _⟩
  | returned =>
    simp only [hm] at h
    cases h

theorem rank_le (p : MainPc) : p.rank ≤ 10 := by
  cases p <;> decide

/-- From the join on each step of the process brings its end closer, and one command is executed at most. -/
theorem Ending.left (hs : Ending s) (hpc : MainPc.joinThread.rank ≤ s.pc.rank) (h : s.step i = some (t, e)) :
    (Ending t ∧ MainPc.joinThread.rank ≤ t.pc.rank) ∧ (if i.works = true then 1 else 0) + t.left ≤ s.left ∧
      commands e + t.thread.executes ≤ s.thread.executes := by
  obtain ⟨-, hlast, hm⟩ := step_moved h
  have hservable : i.Servable := by
    cases hm with
    | pushed client origin m x es hrun =>
      rw [hrun] at hpc
      exact absurd hpc (by decide)
    | main | stops | turned | waited | checked | misused => trivial
  have ht := hs.step hservable h
  cases hm with
  | main r t hmain =>
    obtain ⟨hrank, hthread, hexecutes, hcheck⟩ := main_left hs hpc hmain
    have hle := rank_le t.pc
    refine ⟨⟨ht, by omega⟩, ?_, ?_⟩
    · simp only [WinMain.left, MainInput.works, hthread, if_true]
      omega
    · rw [hexecutes]
      exact (Nat.zero_add _).le
  | stops hrun | pushed client origin m x es hrun =>
    rw [hrun] at hpc
    exact absurd hpc (by decide)
  | turned now online x es c hstarted hturned hc =>
    obtain ⟨-, hflag⟩ := hs.place.flags hpc hlast hstarted
    obtain ⟨hleft, hexecutes⟩ := hturned.left hs.thread (hflag hturned.flag.2)
    have hcheck : c.left ≤ s.check.left + 1 := by
      rcases hc with rfl | ⟨j, e, hj, -, -, hc⟩
      · exact Nat.le_succ _
      · exact (call_left hj hc).2
    have hnoted : (x.noted s.thread.clock es).left = x.left := rfl
    refine ⟨⟨ht, hpc⟩, ?_, ?_⟩
    · simp only [WinMain.left, MainInput.works, hnoted, if_true]
      omega
    · rw [commands_thread]
      exact hexecutes
  | waited ms =>
    refine ⟨⟨ht, hpc⟩, ?_, ?_⟩
    · exact (Nat.zero_add _).le
    · exact (Nat.zero_add _).le
  | checked spurious c es hstarted hc =>
    obtain ⟨hflag, -⟩ := hs.place.flags hpc hlast hstarted
    have hleft := run_left hflag hc
    refine ⟨⟨ht, hpc⟩, ?_, ?_⟩
    · cases spurious with
      | true | false =>
        simp only [WinMain.left, MainInput.works, if_true, Bool.false_eq_true, if_false] at hleft ⊢
        omega
    · rw [commands_check]
      exact (Nat.zero_add _).le
  | misused spurious c es hstarted hc =>
    obtain ⟨hflag, -⟩ := hs.place.flags hpc hlast hstarted
    have hleft := run_left hflag hc
    refine ⟨⟨ht, hpc⟩, ?_, ?_⟩
    · cases spurious with
      | true | false =>
        simp only [WinMain.left, MainInput.works, if_true, Bool.false_eq_true, if_false] at hleft ⊢
        omega
    · exact (Nat.zero_add _).le

theorem ending_run {x : CanXfs A api} {interval : Dword} {clock : Nat} {is : List (MainInput A)}
    {es : List (MainEvent A)} (hp : ∀ i ∈ is, i.Servable)
    (hr : (winMainMachine A api).run (.new x interval clock) is = some (s, es)) : Ending s :=
  Machine.run_invariant (M := winMainMachine A api) (G := fun _ i => i.Servable) (I := fun _ s => Ending s)
    (fun _ _ _ _ _ hs hi h => hs.step hi h) is [] _ s es (ending_new x interval clock)
    (Machine.meets_of_forall hp _) hr

/-- In every run of the process whose loop reads commands that have a commander, once the loop has been stopped:
`wWinMain` goes on until it waits for the executor's thread. From there on, however its threads interleave, the process
makes at most 35 steps of its own and executes one more command at most. And where it can make no step of its own, it
has come to its end with both threads gone, or has used the deleted handler. -/
theorem winMain_ends {x : CanXfs A api} {interval : Dword} {clock : Nat} {is : List (MainInput A)}
    {es : List (MainEvent A)} (hp : ∀ i ∈ is, i.Servable)
    (hr : (winMainMachine A api).run (.new x interval clock) is = some (s, es))
    (hloop : s.pc = .uvRun → s.stopped = true) :
    (s.pc.rank < MainPc.joinThread.rank → s.fault = none →
      ∀ r, ((winMainMachine A api).step s (.main r)).isSome) ∧
    (MainPc.joinThread.rank ≤ s.pc.rank → ∀ js t es', (winMainMachine A api).run s js = some (t, es') →
      js.countP MainInput.works ≤ 35 ∧ commands es' ≤ 1) ∧
    ((winMainMachine A api).Done (fun _ i => i.works = true) s → s.fault = none → s.pc = .returned ∧
      (s.started = true → s.thread.pc = .exited ∧ s.check.pc = .exited)) := by
  have hs := ending_run hp hr
  refine ⟨fun hpc hf r => ?_, fun hpc js t es' hjs => ⟨?_, ?_⟩, fun hdone hf => ?_⟩
  · cases h : s.pc with
    | create =>
      simp only [winMainMachine, WinMain.step, WinMain.main, hf, h]
      simp only [ne_eq, not_true_eq_false, reduceCtorEq, or_self, if_false, Option.isSome_map]
      split <;> rfl
    | uvRun => simp [winMainMachine, WinMain.step, WinMain.main, hf, h, hloop h]
    | stopItemCheck | signalItemCheck | stopThread =>
      simp [winMainMachine, WinMain.step, WinMain.main, hf, h]
    | joinThread | deleteExecuter | stopAgain | signalAgain | joinItemCheck | returned =>
      rw [h] at hpc
      exact absurd hpc (by decide)
  · have hle := Machine.run_measure (M := winMainMachine A api) (G := fun _ => True) (w := MainInput.works)
      (I := fun s => Ending s ∧ MainPc.joinThread.rank ≤ s.pc.rank) (m := WinMain.left)
      (fun _ _ _ _ hs _ h => ⟨(hs.1.left hs.2 h).1, (hs.1.left hs.2 h).2.1⟩) ⟨hs, hpc⟩ (fun _ _ => trivial) hjs
    have hbound := left_le s hpc
    omega
  · have hle := Machine.run_yields (M := winMainMachine A api) (G := fun _ => True) (f := commands)
      (I := fun s => Ending s ∧ MainPc.joinThread.rank ≤ s.pc.rank) (m := fun s => s.thread.executes) rfl
      commands_append (fun _ _ _ _ hs _ h => ⟨(hs.1.left hs.2 h).1, (hs.1.left hs.2 h).2.2⟩) ⟨hs, hpc⟩
      (fun _ _ => trivial) hjs
    have hbound : s.thread.executes ≤ 1 := by
      unfold CanThread.executes
      split <;> omega
    omega
  · have hpc : s.pc = .returned := by
      by_contra hne
      obtain ⟨i, hw, hi⟩ := hs.goes_on hf hne hloop
      have hno := hdone i hw
      rw [show s.step i = none from hno] at hi
      cases hi
    refine ⟨hpc, fun hstarted => ?_⟩
    have hplace := hs.place
    unfold AtPlace at hplace
    simp only [hpc] at hplace
    exact ⟨(hplace.2 hstarted).2, (hplace.2 hstarted).1⟩

/-- An Execute wakes the item check up, and `wWinMain` comes to its join when the item check is about to post. -/
def executeWhileStopping : List (MainInput .x86) :=
  [.main 0, .push (some 4) (some 0) (.wfpExecute (AnWfpExecute.new _ 0 1 1302 (StdString.empty _) 0 5 10)),
    .item false, .item false] ++ List.replicate 5 (.thread midnight true) ++
    [.item false, .item false, .stopLoop, .main 0, .main 0, .main 0, .main 0]

theorem executeWhileStopping_servable : ∀ i ∈ executeWhileStopping, i.Servable := by
  intro i hi
  cases i with
  | push client origin m =>
    simp only [executeWhileStopping, List.mem_append, List.mem_cons, List.mem_replicate, reduceCtorEq, and_false,
      List.not_mem_nil, or_false, false_or, MainInput.push.injEq] at hi
    obtain ⟨-, -, rfl⟩ := hi
    exact ⟨rfl, .wfpExecute, .anWfpexecuteImpl, rfl, rfl⟩
  | main | stopLoop | thread | wait | item => trivial

/-- Both threads are busy when `wWinMain` comes to its join. -/
theorem executeWhileStopping_ends : ∃ s es,
    (winMainMachine .x86 .documented).run (.new .blank 30000 0) executeWhileStopping = some (s, es) ∧
    s.thread.pc = .running ∧ s.check.pc = .itemPassCheck ∧
    ∀ js t es', (winMainMachine .x86 .documented).run s js = some (t, es') →
      js.countP MainInput.works ≤ 35 ∧ commands es' ≤ 1 := by
  obtain ⟨s, es, hr, hpc, hthread, hcheck⟩ : ∃ s es,
      (winMainMachine .x86 .documented).run (.new .blank 30000 0) executeWhileStopping = some (s, es) ∧
      s.pc = .joinThread ∧ s.thread.pc = .running ∧ s.check.pc = .itemPassCheck := Machine.run_any (by decide +kernel)
  have hloop : s.pc = .uvRun → s.stopped = true := by simp [hpc]
  exact ⟨s, es, hr, hthread, hcheck, (winMain_ends executeWhileStopping_servable hr hloop).2.1 (by rw [hpc])⟩

/-! ## The handler of the item check -/

/-- The executor is not deleted while the item check is between its second test of the flag and its post. -/
def SparesHandler (s : WinMain A api) : MainInput A → Prop
  | .main _ => s.pc = .deleteExecuter → s.check.posting = false
  | _ => True

instance (s : WinMain A api) : DecidablePred (SparesHandler s) := by
  intro i
  cases i <;> unfold SparesHandler <;> infer_instance

/-- A post is to come by the handler that is gone, or has come. -/
def Doomed (s : WinMain A api) : Prop := s.deleted = true ∧ (s.check.posting = true ∨ s.fault ≠ none)

theorem posting_of_pc {c d : CItemPassCheck} (h : d.pc = c.pc) : d.posting = c.posting := by
  unfold CItemPassCheck.posting
  rw [h]

theorem callCheck_frame (j : CheckInput) (hj : ∀ spurious, j ≠ .thread spurious) :
    ∃ c, s.callCheck j = { s with check := c } ∧ c.posting = s.check.posting := by
  unfold WinMain.callCheck
  split
  · rename_i c e hc
    exact ⟨c, rfl, posting_of_pc (call_left hj hc).1⟩
  · exact ⟨s.check, rfl, rfl⟩

/-- A step of `wWinMain` leaves the item check where it stands, and deletes the executor in its place only. -/
theorem main_frame {r : Int} (h : s.main r = some t) : t.check.posting = s.check.posting ∧ t.fault = s.fault ∧
    (t.deleted = s.deleted ∧ s.pc ≠ .deleteExecuter ∨ t.deleted = true ∧ s.pc = .deleteExecuter) := by
  unfold WinMain.main at h
  cases hpc : s.pc with
  | create =>
    simp only [hpc] at h
    split at h
    · cases h
      exact ⟨rfl, rfl, .inl ⟨rfl, by decide⟩⟩
    · cases h
      exact ⟨rfl, rfl, .inl ⟨rfl, by decide⟩⟩
  | uvRun =>
    simp only [hpc] at h
    obtain ⟨-, h⟩ := Option.ite_none_right_eq_some.1 h
    cases h
    exact ⟨rfl, rfl, .inl ⟨rfl, by decide⟩⟩
  | stopThread =>
    simp only [hpc] at h
    cases h
    exact ⟨rfl, rfl, .inl ⟨rfl, by decide⟩⟩
  | stopItemCheck | stopAgain =>
    simp only [hpc] at h
    obtain ⟨c, hc, hposting⟩ := callCheck_frame (s := s) .stop (by simp)
    rw [hc] at h
    cases h
    exact ⟨hposting, rfl, .inl ⟨rfl, by decide⟩⟩
  | signalItemCheck | signalAgain =>
    simp only [hpc] at h
    obtain ⟨c, hc, hposting⟩ := callCheck_frame (s := s) .stopSignal (by simp)
    rw [hc] at h
    cases h
    exact ⟨hposting, rfl, .inl ⟨rfl, by decide⟩⟩
  | joinThread | joinItemCheck =>
    simp only [hpc] at h
    obtain ⟨-, h⟩ := Option.ite_none_right_eq_some.1 h
    cases h
    exact ⟨rfl, rfl, .inl ⟨rfl, by decide⟩⟩
  | deleteExecuter =>
    simp only [hpc] at h
    cases h
    exact ⟨rfl, rfl, .inr ⟨rfl, rfl⟩⟩
  | returned =>
    simp only [hpc] at h
    cases h

theorem AtPlace.deleted (hs : AtPlace s) (hd : s.deleted = true) :
    MainPc.joinThread.rank ≤ s.pc.rank ∧ s.started = true := by
  unfold AtPlace at hs
  cases h : s.pc with
  | create | uvRun | stopItemCheck =>
    simp only [h] at hs
    rw [hs.2] at hd
    cases hd
  | signalItemCheck | stopThread | joinThread | deleteExecuter =>
    simp only [h] at hs
    rw [hs.2.1] at hd
    cases hd
  | stopAgain | signalAgain | joinItemCheck | returned =>
    simp only [h] at hs
    exact ⟨by decide, hs.1 ▸ hd⟩

/-- Who is doomed when the executor is deleted stays so until the post. -/
theorem doomed_step (hd : Doomed s) (h : s.step i = some (t, e)) : Doomed t := by
  obtain ⟨hf, -, hm⟩ := step_moved h
  obtain ⟨hdeleted, hposting | hfault⟩ := hd
  · cases hm with
    | main r t hmain =>
      obtain ⟨hpost, -, ⟨hdel, -⟩ | ⟨hdel, -⟩⟩ := main_frame hmain
      · exact ⟨hdel.trans hdeleted, .inl (hpost.trans hposting)⟩
      · exact ⟨hdel, .inl (hpost.trans hposting)⟩
    | stops | pushed | waited => exact ⟨hdeleted, .inl hposting⟩
    | turned now online x es c hstarted hturned hc =>
      refine ⟨hdeleted, .inl ?_⟩
      rcases hc with rfl | ⟨j, e, hj, -, -, hc⟩
      · exact hposting
      · exact (posting_of_pc (call_left hj hc).1).trans hposting
    | checked spurious c es hstarted hc hok =>
      refine ⟨hdeleted, .inl ?_⟩
      have hes : es = [] := hok.resolve_right (by simp [hdeleted])
      obtain ⟨hpost, -⟩ | hne := run_posts hposting hc
      · exact hpost
      · exact absurd hes hne
    | misused => exact ⟨hdeleted, .inr (by simp)⟩
  · exact absurd hf hfault

/-- With the handler spared, no post comes after its deletion. -/
theorem spared_step (hs : Ending s) (hf : s.fault = none ∧ (s.deleted = true → s.check.posting = false))
    (hg : SparesHandler s i) (h : s.step i = some (t, e)) :
    t.fault = none ∧ (t.deleted = true → t.check.posting = false) := by
  obtain ⟨hnone, hquiet⟩ := hf
  obtain ⟨-, hlast, hm⟩ := step_moved h
  cases hm with
  | main r t hmain =>
    obtain ⟨hpost, hfault, hdel⟩ := main_frame hmain
    refine ⟨hfault.trans hnone, fun hd => ?_⟩
    rw [hpost]
    rcases hdel with ⟨hdel, -⟩ | ⟨-, hpc⟩
    · exact hquiet (hdel ▸ hd)
    · exact hg hpc
  | stops | pushed | waited => exact ⟨hnone, hquiet⟩
  | turned now online x es c hstarted hturned hc =>
    refine ⟨hnone, fun hd => ?_⟩
    rcases hc with rfl | ⟨j, e, hj, -, -, hc⟩
    · exact hquiet hd
    · exact (posting_of_pc (call_left hj hc).1).trans (hquiet hd)
  | checked spurious c es hstarted hc =>
    refine ⟨hnone, fun hd => ?_⟩
    obtain ⟨hpc, -⟩ := hs.place.deleted hd
    exact (run_quiet (hs.place.flags hpc hlast hstarted).1 (hquiet hd) hc).1
  | misused spurious c es hstarted hc hne hd =>
    obtain ⟨hpc, -⟩ := hs.place.deleted hd
    exact absurd (run_quiet (hs.place.flags hpc hlast hstarted).1 (hquiet hd) hc).2 hne

/-- A process whose loop has read commands that have a commander, and which has come to its end, has not used the event
handler of the executor after its deletion, exactly if the item check was not about to post when the executor was
deleted. -/
theorem handler_alive_iff {x : CanXfs A api} {interval : Dword} {clock : Nat} {is : List (MainInput A)}
    {es : List (MainEvent A)} (hp : ∀ i ∈ is, i.Servable)
    (hr : (winMainMachine A api).run (.new x interval clock) is = some (s, es))
    (hend : s.pc = .returned ∨ s.fault ≠ none) :
    s.fault = none ↔ (winMainMachine A api).Meets SparesHandler (.new x interval clock) is := by
  constructor
  · intro hf
    refine Machine.meets_of_unmarked (M := winMainMachine A api) (I := fun _ => True) (D := Doomed)
      (fun _ _ _ _ _ _ => trivial) ?_ (fun _ _ _ _ _ hd h => doomed_step hd h) trivial hr ?_
    · intro u i v e _ hg h
      obtain ⟨-, -, hm⟩ := step_moved h
      cases hm with
      | main r v hmain =>
        obtain ⟨hpc, hposting⟩ := Classical.not_imp.1 hg
        obtain ⟨hpost, -, ⟨-, hne⟩ | ⟨hdel, -⟩⟩ := main_frame hmain
        · exact absurd hpc hne
        · exact ⟨hdel, .inl (hpost.trans (Bool.not_eq_false _ ▸ hposting))⟩
      | _ => exact absurd trivial hg
    · rintro ⟨hdeleted, hposting | hfault⟩
      · have hplace := (ending_run hp hr).place
        obtain ⟨-, hstarted⟩ := hplace.deleted hdeleted
        have hpc := hend.resolve_right (not_not.2 hf)
        unfold AtPlace at hplace
        simp only [hpc] at hplace
        simp [CItemPassCheck.posting, (hplace.2 hstarted).1] at hposting
      · exact hfault hf
  · intro hmeets
    have hall := Machine.run_invariant (M := winMainMachine A api)
      (G := fun s i => SparesHandler s i ∧ i.Servable)
      (I := fun _ s => Ending s ∧ s.fault = none ∧ (s.deleted = true → s.check.posting = false))
      (fun _ _ _ _ _ hs hg h => ⟨hs.1.step hg.2 h, spared_step hs.1 hs.2 hg.1 h⟩) is [] _ s es
      ⟨ending_new x interval clock, rfl, by simp [WinMain.new]⟩
      (Machine.meets_and.2 ⟨hmeets, Machine.meets_of_forall hp _⟩) hr
    exact hall.2.1

/-- The executor is deleted, and then the item check posts. -/
def postAfterDelete : List (MainInput .x86) :=
  executeWhileStopping ++ List.replicate 6 (.thread midnight true) ++ [.main 0, .main 0, .item false, .item false]

theorem postAfterDelete_faults : ∃ s es,
    (winMainMachine .x86 .documented).run (.new .blank 30000 0) postAfterDelete = some (s, es) ∧
    s.fault = some .useAfterFree ∧
    ¬ (winMainMachine .x86 .documented).Meets SparesHandler (.new .blank 30000 0) postAfterDelete := by
  obtain ⟨s, es, hr, hf⟩ : ∃ s es, (winMainMachine .x86 .documented).run (.new .blank 30000 0) postAfterDelete =
      some (s, es) ∧ s.fault = some .useAfterFree := Machine.run_any (by decide +kernel)
  have hp : ∀ i ∈ postAfterDelete, i.Servable := by
    intro i hi
    rcases List.mem_append.1 hi with hi | hi
    · rcases List.mem_append.1 hi with hi | hi
      · exact executeWhileStopping_servable i hi
      · rw [List.eq_of_mem_replicate hi]
        trivial
    · simp only [List.mem_cons, List.not_mem_nil, or_false] at hi
      rcases hi with rfl | rfl | rfl | rfl <;> trivial
  refine ⟨s, es, hr, hf, fun hm => ?_⟩
  have hnone := (handler_alive_iff hp hr (.inr (by simp [hf]))).2 hm
  rw [hf] at hnone
  cases hnone

end AnXfs.Server
