/-
The executor of the server (`Executer.cpp`, `xfs_cmd_queue`): the command deque shared with the loop
thread, the objects its entries point to, and `CExecuter::run` cut at every point where the loop
thread may come in between. `run_ran` lists what one such piece can do; what holds over all runs is
derived from that list.
-/
import AnXfs.Run.Machine
import AnXfs.Server.Commander

namespace AnXfs.Server

open AnXfs.Wire AnXfs.Pack AnXfs.Run

variable {A : Arch} {api : XfsApi}

/-! ## State -/

/-- The address of a command object. The model never hands out an address twice, so that a use of a
freed object is always seen. -/
abbrev Ptr := Nat

/-- `an_buf`: the command and the connection it came from; with that connection's identity. -/
structure AnBuf where
  mCmd : Option Ptr
  mClient : Option Addr
  origin : Option ConnId
  deriving DecidableEq

/-- `an_buf()`. -/
def AnBuf.new : AnBuf := ⟨none, none, none⟩

/-- Where the executor thread stands in `CExecuter::run`. -/
inductive ExecPc where
  | sizeTest
  | readFront
  | preProcess
  | cmdHandler
  | pauseItemCheck
  | destroyCmd
  | popFront
  deriving DecidableEq

/-- The command at the front has been executed and not yet popped. -/
def ExecPc.executed : ExecPc → Bool
  | .pauseItemCheck | .destroyCmd | .popFront => true
  | _ => false

/-- Where the item-check thread stands in `CItem_pass_check::run`. -/
inductive ItemPc where
  | wait
  | itemPassCheck
  | readReqid (service : HService)
  deriving DecidableEq

/-- The executor with what it reaches: the proxy, the command objects and the deque. -/
structure Executer (A : Arch) (api : XfsApi) where
  xfs : CanXfs A api
  heap : Ptr → Option (AnCmd A)
  brk : Ptr
  deque : List AnBuf
  currentCmd : AnBuf
  pc : ExecPc
  itemPc : ItemPc
  fault : Option Fault

/-- `CExecuter(loop, cb)` after `start`. -/
def Executer.new (x : CanXfs A api) : Executer A api where
  xfs := x
  heap := fun _ => none
  brk := 0
  deque := []
  currentCmd := AnBuf.new
  pc := .sizeTest
  itemPc := .wait
  fault := none

/-- What the executor does that others see. `posted` is a notice of `cmd_handler`, `broadcast` one of
the idle routine or of the item check. -/
inductive ExecEvent (A : Arch) where
  | pushed (b : AnBuf) (m : AnCmd A)
  | executed (b : AnBuf) (m : AnCmd A)
  | posted (n : Notice)
  | popped (b : AnBuf)
  | broadcast (n : Notice)
  | fault (f : Fault)
  deriving DecidableEq

namespace Executer

variable (s : Executer A api)

/-- The entries not executed yet. -/
def waiting : List AnBuf := if s.pc.executed then s.deque.tail else s.deque

def fail (f : Fault) : Executer A api × List (ExecEvent A) := ({ s with fault := some f }, [.fault f])

/-! ## The loop thread's side -/

/-- A command built on the heap and moved into the deque (`push_back_cmd_deque`). -/
def pushBackCmdDeque (client : Option Addr) (origin : Option ConnId) (m : AnCmd A) :
    Executer A api × List (ExecEvent A) :=
  let b : AnBuf := ⟨some s.brk, client, origin⟩
  ({ s with heap := Function.update s.heap s.brk (some m), brk := s.brk + 1, deque := s.deque ++ [b] },
    [.pushed b m])

end Executer

/-! ## Cancellation -/

/-- The condition of the two lambdas of `cmd_pre_processed`: `c` is the Cancel, `m` an entry's command. -/
def cancels (c m : AnCmd A) : Prop :=
  m.eType ≠ AnWfpType.wfpCancelAsyncRequest.code ∧ c.base.hService = m.base.hService ∧
    (c.base.reqId = 0 ∨ c.base.reqId = m.base.reqId)

instance (c m : AnCmd A) : Decidable (cancels c m) := by unfold cancels; infer_instance

/-- A command with another status. -/
def withStatus (e : Dword) (m : AnCmd A) : AnCmd A := m.setBase { m.base with eStatus := e }

/-- One entry of the walk. -/
def cancelEntry (c : AnCmd A) (heap : Ptr → Option (AnCmd A)) (it : AnBuf) : Except Fault (Ptr → Option (AnCmd A)) :=
  match it.mCmd with
  | none => .error .nullPointer
  | some q =>
    match heap q with
    | none => .error .useAfterFree
    | some m =>
      .ok (if cancels c m then Function.update heap q (some (withStatus AnWfpCmdStatus.cmdCancelled.code m)) else heap)

/-- `CExecuter::cmd_pre_processed`: a Cancel marks the entries it matches. -/
def cmdPreProcessed (heap : Ptr → Option (AnCmd A)) (deque : List AnBuf) (cmd : AnBuf) :
    Except Fault (Ptr → Option (AnCmd A)) :=
  match cmd.mCmd with
  | none => .ok heap
  | some p =>
    match heap p with
    | none => .error .useAfterFree
    | some c =>
      if c.eType = AnWfpType.wfpCancelAsyncRequest.code then deque.foldlM (cancelEntry c) heap else .ok heap

namespace Executer

variable (s : Executer A api)

/-! ## The executor thread -/

/-- One piece of `CExecuter::run`. -/
def run (now : AnSystemtime) : Executer A api × List (ExecEvent A) :=
  match s.pc with
  | .sizeTest => (if s.deque.length = 0 then s else { s with pc := .readFront }, [])
  | .readFront =>
    match s.deque with
    | [] => s.fail .outOfRange
    | b :: _ => ({ s with currentCmd := b, pc := .preProcess }, [])
  | .preProcess =>
    -- the walk is over the deque itself, the front included, without its lock
    match cmdPreProcessed s.heap s.deque s.currentCmd with
    | .error f => s.fail f
    | .ok heap => ({ s with heap := heap, pc := .cmdHandler }, [])
  | .cmdHandler =>
    match s.currentCmd.mCmd with
    | none => s.fail .nullPointer
    | some p =>
      match s.heap p with
      | none => s.fail .useAfterFree
      | some m =>
        match cmdHandler s.xfs m s.currentCmd.mClient s.currentCmd.origin now with
        | .error f => s.fail f
        | .ok (x, n) => ({ s with xfs := x, pc := .pauseItemCheck }, [.executed s.currentCmd m, .posted n])
  | .pauseItemCheck =>
    match s.currentCmd.mCmd with
    | none => s.fail .nullPointer
    | some p =>
      match s.heap p with
      | none => s.fail .useAfterFree
      | some m => ({ s with xfs := s.xfs.pauseItemCheck m.eType, pc := .destroyCmd }, [])
  | .destroyCmd =>
    match s.currentCmd.mCmd with
    -- `delete` of a null pointer
    | none => ({ s with pc := .popFront }, [])
    | some p =>
      match s.heap p with
      | none => s.fail .useAfterFree
      | some _ => ({ s with heap := Function.update s.heap p none, pc := .popFront }, [])
  | .popFront =>
    match s.deque with
    | [] => s.fail .outOfRange
    | b :: rest => ({ s with deque := rest, pc := .sizeTest }, [.popped b])

/-! ## The two sources of events -/

/-- The strings of `CExecuter::idle`. -/
def devStatus (api : XfsApi) (A : Arch) (online : Bool) : AnWfsDevstatus A where
  lpszPhysicalName := StdString.ofShort A (ascii "anCRS SP") (by decide)
  lpszWorkstationName := StdString.ofShort A (ascii "anCRS") (by decide)
  dwState := if online then api.wfsStatDevonline else api.wfsStatDevoffline

theorem short_fits (A : Arch) {T : Type} {f : Codec T} {v : T} (h : (f.put v).length < 256) :
    (serializeResult f v).length < 2 ^ (8 * A.sizeofSizeT) :=
  lt_of_lt_of_le h (by cases A <;> decide)

/-- The archive of the device status. -/
def devStatusHeld (api : XfsApi) (A : Arch) (online : Bool) : Held A (AnWfsDevstatus.codec A) where
  val := devStatus api A online
  fits := short_fits A (by
    simp [AnWfsDevstatus.codec, Codec.iso, Codec.seq, stdString, Codec.blob, dword, Codec.word, length_leBytes,
      devStatus, StdString.ofShort, ascii])

/-- The archive of the position a note was taken from. -/
def positionHeld (api : XfsApi) (A : Arch) : Held A AnWfsCimPositionInfo.codec where
  val := AnWfsCimPositionInfo.new api
  fits := short_fits A (by simp [AnWfsCimPositionInfo.codec, Codec.iso, Codec.seq, word, Codec.word, length_leBytes])

/-- A result broadcast as an event. -/
def eventNotice (r : AnXfsResult A) : Notice where
  buf := serializeResult (AnXfsResult.codec A) r
  client := none
  notifyExitFlag := false
  origin := none

/-- What `CExecuter::idle` broadcasts, with the state it drew. -/
def idleResult (A : Arch) (api : XfsApi) (now : AnSystemtime) (online : Bool) : AnXfsResult A :=
  { AnXfsResult.new A now with
    dwMsg := api.wfsSystemEvent
    u := api.wfsSyseDeviceStatus
    hResult := api.wfsSuccess
    hService := 0
    requestId := 0
    hWnd := 0
    lpBuffer := (devStatusHeld api A online).buffer }

/-- `CExecuter::idle`. -/
def idle (A : Arch) (api : XfsApi) (now : AnSystemtime) (online : Bool) : Notice :=
  eventNotice (idleResult A api now online)

/-- What `CanXfs::item_pass_check` broadcasts, with the request it read from the semaphore. -/
def itemResult (A : Arch) (api : XfsApi) (now : AnSystemtime) (service : HService) (reqid : RequestId) :
    AnXfsResult A :=
  { AnXfsResult.new A now with
    dwMsg := api.wfsServiceEvent
    u := api.wfsSrveCimItemstaken
    hResult := api.wfsSuccess
    hService := service
    requestId := reqid
    hWnd := 0
    lpBuffer := (positionHeld api A).buffer }

/-- `CanXfs::item_pass_check`. -/
def itemPassCheck (A : Arch) (api : XfsApi) (now : AnSystemtime) (service : HService) (reqid : RequestId) : Notice :=
  eventNotice (itemResult A api now service reqid)

/-- One piece of the item-check thread: it passes `wait` when a request is signalled, then reads the
service and the request id one after the other. -/
def itemCheck (now : AnSystemtime) : Option (Executer A api × List (ExecEvent A)) :=
  match s.itemPc with
  | .wait =>
    if s.xfs.curService = 0 ∧ s.xfs.curReqid = 0 then none else some ({ s with itemPc := .itemPassCheck }, [])
  | .itemPassCheck => some ({ s with itemPc := .readReqid s.xfs.curService }, [])
  | .readReqid service =>
    some ({ s with itemPc := .wait }, [.broadcast (itemPassCheck A api now service s.xfs.curReqid)])

end Executer

/-! ## The machine -/

/-- What the threads do to the executor: the loop thread pushes, the executor thread runs a piece of
`run` or the idle routine between two calls of it, the item check takes a step. -/
inductive ExecInput (A : Arch) where
  | push (client : Option Addr) (origin : Option ConnId) (m : AnCmd A)
  | run (now : AnSystemtime)
  | idle (now : AnSystemtime) (online : Bool)
  | itemCheck (now : AnSystemtime)

/-- One step of one thread; none is possible after a fault. -/
def Executer.step (s : Executer A api) (i : ExecInput A) : Option (Executer A api × List (ExecEvent A)) :=
  if s.fault ≠ none then none else
  match i with
  | .push client origin m => some (s.pushBackCmdDeque client origin m)
  | .run now => some (s.run now)
  | .idle now online =>
    if s.pc = .sizeTest then some (s, [.broadcast (Executer.idle A api now online)]) else none
  | .itemCheck now => s.itemCheck now

def executerMachine (A : Arch) (api : XfsApi) : Machine (Executer A api) (ExecInput A) (ExecEvent A) where
  step := Executer.step

/-! ## What a piece of `run` can do -/

/-- Why a piece of `run` does not return. -/
inductive Stuck (s : Executer A api) (now : AnSystemtime) : Fault → Prop
  | noFront : s.pc = .readFront ∨ s.pc = .popFront → s.deque = [] → Stuck s now .outOfRange
  | preProcess (f : Fault) : s.pc = .preProcess → cmdPreProcessed s.heap s.deque s.currentCmd = .error f →
      Stuck s now f
  | noCmd : s.pc = .cmdHandler ∨ s.pc = .pauseItemCheck → s.currentCmd.mCmd = none → Stuck s now .nullPointer
  | freed (p : Ptr) : s.pc = .cmdHandler ∨ s.pc = .pauseItemCheck ∨ s.pc = .destroyCmd →
      s.currentCmd.mCmd = some p → s.heap p = none → Stuck s now .useAfterFree
  | handler (p : Ptr) (m : AnCmd A) (f : Fault) : s.pc = .cmdHandler → s.currentCmd.mCmd = some p →
      s.heap p = some m → cmdHandler s.xfs m s.currentCmd.mClient s.currentCmd.origin now = .error f → Stuck s now f

/-- The outcomes of `Executer.run`, one for each position of the thread, and the fault. -/
inductive Ran (s : Executer A api) (now : AnSystemtime) : Executer A api → List (ExecEvent A) → Prop
  | empty : s.pc = .sizeTest → s.deque = [] → Ran s now s []
  | sized : s.pc = .sizeTest → s.deque ≠ [] → Ran s now { s with pc := .readFront } []
  | fronted (b : AnBuf) (rest : List AnBuf) : s.pc = .readFront → s.deque = b :: rest →
      Ran s now { s with currentCmd := b, pc := .preProcess } []
  | preProcessed (heap : Ptr → Option (AnCmd A)) : s.pc = .preProcess →
      cmdPreProcessed s.heap s.deque s.currentCmd = .ok heap → Ran s now { s with heap := heap, pc := .cmdHandler } []
  | handled (p : Ptr) (m : AnCmd A) (t : AnWfpType) (c : CommanderClass) : s.pc = .cmdHandler →
      s.currentCmd.mCmd = some p → s.heap p = some m → m.eType = t.code → commander t = some c →
      Ran s now { s with xfs := s.xfs.after t m, pc := .pauseItemCheck } [.executed s.currentCmd m,
        .posted (replyNotice s.xfs t c m s.currentCmd.mClient s.currentCmd.origin now)]
  | paused (p : Ptr) (m : AnCmd A) : s.pc = .pauseItemCheck → s.currentCmd.mCmd = some p → s.heap p = some m →
      Ran s now { s with xfs := s.xfs.pauseItemCheck m.eType, pc := .destroyCmd } []
  | destroyed (heap : Ptr → Option (AnCmd A)) : s.pc = .destroyCmd →
      (heap = s.heap ∧ s.currentCmd.mCmd = none ∨
        ∃ p, s.currentCmd.mCmd = some p ∧ heap = Function.update s.heap p none) →
      Ran s now { s with heap := heap, pc := .popFront } []
  | popped (b : AnBuf) (rest : List AnBuf) : s.pc = .popFront → s.deque = b :: rest →
      Ran s now { s with deque := rest, pc := .sizeTest } [.popped b]
  | failed (f : Fault) : Stuck s now f → Ran s now { s with fault := some f } [.fault f]

theorem run_ran (s : Executer A api) (now : AnSystemtime) : Ran s now (s.run now).1 (s.run now).2 := by
  unfold Executer.run
  cases hpc : s.pc with
  | sizeTest =>
    simp only [List.length_eq_zero_iff]
    by_cases hd : s.deque = []
    · rw [if_pos hd]; exact .empty hpc hd
    · rw [if_neg hd]; exact .sized hpc hd
  | readFront =>
    simp only
    split
    · rename_i hd; exact .failed _ (.noFront (.inl hpc) hd)
    · rename_i b rest hd; exact .fronted b rest hpc hd
  | preProcess =>
    simp only
    split
    · rename_i f hf; exact .failed f (.preProcess f hpc hf)
    · rename_i heap hh; exact .preProcessed heap hpc hh
  | cmdHandler =>
    simp only
    split
    · rename_i hp; exact .failed _ (.noCmd (.inl hpc) hp)
    rename_i p hp
    split
    · rename_i hm; exact .failed _ (.freed p (.inl hpc) hp hm)
    rename_i m hm
    split
    · rename_i f hf; exact .failed f (.handler p m f hpc hp hm hf)
    · rename_i x n hx
      obtain ⟨t, c, ht, hc, rfl, rfl⟩ := cmdHandler_ok hx
      exact .handled p m t c hpc hp hm ht hc
  | pauseItemCheck =>
    simp only
    split
    · rename_i hp; exact .failed _ (.noCmd (.inr hpc) hp)
    rename_i p hp
    split
    · rename_i hm; exact .failed _ (.freed p (.inr (.inl hpc)) hp hm)
    · rename_i m hm; exact .paused p m hpc hp hm
  | destroyCmd =>
    simp only
    split
    · rename_i hp; exact .destroyed s.heap hpc (.inl ⟨rfl, hp⟩)
    rename_i p hp
    split
    · rename_i hm; exact .failed _ (.freed p (.inr (.inr hpc)) hp hm)
    · exact .destroyed _ hpc (.inr ⟨p, hp, rfl⟩)
  | popFront =>
    simp only
    split
    · rename_i hd; exact .failed _ (.noFront (.inr hpc) hd)
    · rename_i b rest hd; exact .popped b rest hpc hd

/-- The results that are broadcast as events. -/
inductive IsEvent (A : Arch) (api : XfsApi) : AnXfsResult A → Prop
  | idle (now : AnSystemtime) (online : Bool) : IsEvent A api (Executer.idleResult A api now online)
  | itemCheck (now : AnSystemtime) (service : HService) (reqid : RequestId) :
      IsEvent A api (Executer.itemResult A api now service reqid)

/-- What a step of any thread can do: a push, a piece of `run`, or a step towards an event that is
broadcast. -/
inductive Stepped (s : Executer A api) : ExecInput A → Executer A api → List (ExecEvent A) → Prop
  | pushed (client : Option Addr) (origin : Option ConnId) (m : AnCmd A) :
      Stepped s (.push client origin m) (s.pushBackCmdDeque client origin m).1 (s.pushBackCmdDeque client origin m).2
  | ran (now : AnSystemtime) (t : Executer A api) (e : List (ExecEvent A)) : Ran s now t e → Stepped s (.run now) t e
  | quiet (i : ExecInput A) (itemPc : ItemPc) : Stepped s i { s with itemPc := itemPc } []
  | broadcast (i : ExecInput A) (itemPc : ItemPc) (r : AnXfsResult A) : IsEvent A api r →
      Stepped s i { s with itemPc := itemPc } [.broadcast (Executer.eventNotice r)]

theorem step_stepped {s t : Executer A api} {i : ExecInput A} {e : List (ExecEvent A)}
    (h : s.step i = some (t, e)) : s.fault = none ∧ Stepped s i t e := by
  unfold Executer.step at h
  split at h
  · cases h
  rename_i hf
  refine ⟨not_not.1 hf, ?_⟩
  cases i with
  | push client origin m => cases h; exact .pushed client origin m
  | run now =>
    have hr := run_ran s now
    rw [Option.some.inj h] at hr
    exact .ran now t e hr
  | idle now online =>
    simp only at h
    split at h
    · cases h; exact .broadcast _ s.itemPc _ (.idle now online)
    · cases h
  | itemCheck now =>
    simp only [Executer.itemCheck] at h
    split at h
    · split at h
      · cases h
      · cases h; exact .quiet _ _
    · cases h; exact .quiet _ _
    · cases h; exact .broadcast _ _ _ (.itemCheck ..)

theorem step_ran {s t : Executer A api} {now : AnSystemtime} {e : List (ExecEvent A)}
    (h : s.step (.run now) = some (t, e)) : Ran s now t e := by
  unfold Executer.step at h
  split at h
  · cases h
  · have hr := run_ran s now
    rw [Option.some.inj h] at hr
    exact hr

end AnXfs.Server
