/-
When the server crashes. `Harmless` has one condition for each callback and for the executor, on the state before the
step and on what libuv and the clients bring. Each callback of the loop and each piece of `CExecuter::run` is one step,
but for the walk of `cmd_pre_processed` over the deque: it takes no lock, so it has a beginning and an end, and a push
by `on_read` in between is a fault as well. A run is free of faults exactly if every step is harmless.

That a thread may call `uv_async_init` and `uv_async_send`, the allocator and the log at any time is assumed here, and
`destroy_cmd` is taken as for the ownership of the commands. That `uv_is_closing` looks at the memory of a deleted
connection is no fault as long as it says that it is closing.
-/
import AnXfs.Run.Progress
import AnXfs.Server.Broadcast
import AnXfs.Server.Cancel
import AnXfs.Server.Objects
import AnXfs.Server.Settled

namespace AnXfs.Server

open AnXfs.Wire AnXfs.Pack AnXfs.Run

variable {A : Arch} {api : XfsApi}

/-! ## What must be met -/

/-- The chunk has a type with a builder and holds all fields of its class. -/
def ReadsCommand (A : Arch) (chunk : List UInt8) : Prop :=
  ∃ t ∈ AnWfpType.all, typeField A chunk = t.code.toNat ∧ (skip (t.layout A) chunk).isSome

instance (chunk : List UInt8) : Decidable (ReadsCommand A chunk) := by unfold ReadsCommand; infer_instance

/-- The command in execution has a type with a commander. -/
def Executer.Servable (x : Executer A api) : Prop :=
  ∀ p ∈ x.currentCmd.mCmd, ∀ m ∈ x.heap p, ∃ t ∈ AnWfpType.all, m.eType = t.code ∧ (commander t).isSome

instance (x : Executer A api) : Decidable x.Servable := by unfold Executer.Servable; infer_instance

/-- A pipe is accepted, a chunk decodes, a command has a commander, `uv_is_closing` says of a connection that is gone
that it is closing, and no second exit is requested. -/
def Harmless (s : CanIPCServer A api) : Input → Prop
  | .newConnection status _ accept => 0 ≤ status → accept = 0
  | .read _ chunk _ => ReadsCommand A chunk
  | .notify j _ garbage => ∀ n ∈ s.asyncs[j]?, ∀ client ∈ n.client, s.mem client = none → garbage = true
  | .write j status => 0 ≤ status → ∀ w ∈ s.writes[j]?, w.notice.notifyExitFlag = true → s.handleClosing = false
  | .run _ => s.exec.pc = .cmdHandler → s.exec.Servable
  | .readError _ | .closed _ | .idle .. | .itemCheck _ | .loopExit => True

instance (s : CanIPCServer A api) : (i : Input) → Decidable (Harmless s i)
  | .newConnection .. | .read .. | .notify .. | .write .. | .run _ => by unfold Harmless; infer_instance
  | .readError _ | .closed _ | .idle .. | .itemCheck _ | .loopExit => inferInstanceAs (Decidable True)

theorem readsCommand_iff (chunk : List UInt8) :
    ReadsCommand A chunk ↔ ∃ (m : AnCmd A) (rest : List UInt8), readCmd chunk = .ok (m, rest) := by
  constructor
  · rintro ⟨t, -, htype, hskip⟩
    obtain ⟨m, rest, hr, -⟩ := (readCmd_ok_iff (A := A) t chunk).2 ⟨htype, hskip⟩
    exact ⟨m, rest, hr⟩
  · rintro ⟨m, rest, hr⟩
    obtain ⟨t, ht, -⟩ := (readCmd_ok hr).1.class
    obtain ⟨htype, hskip⟩ := (readCmd_ok_iff t chunk).1 ⟨m, rest, hr, ht⟩
    exact ⟨t, mem_all t, htype, hskip⟩

/-! ## One step -/

/-- What every state of a run meets until the crash. -/
structure Sound (h : List (Event A)) (s : CanIPCServer A api) : Prop where
  lists : Lists h s
  addressed : Addressed s
  owns : OwnsCommands s.exec

section Step

variable {h e : List (Event A)} {s t : CanIPCServer A api}

theorem harmless_notify (hs : Sound h s) (hf : s.fault = none) {j : Nat} {n : Notice} (hj : s.asyncs[j]? = some n)
    (uvWrite : Addr → Int) (garbage : Bool) :
    ({ s with asyncs := s.asyncs.eraseIdx j }.onNotify n uvWrite garbage).1.fault = none ↔
      Harmless s (.notify j uvWrite garbage) := by
  have hharmless : Harmless s (.notify j uvWrite garbage) ↔ ∀ a ∈ n.client, s.mem a = none → garbage = true := by
    simp [Harmless, hj]
  rw [hharmless]
  unfold CanIPCServer.onNotify
  cases hn : n.client with
  | none =>
    refine iff_of_true ?_ (by simp)
    have hfault := (broadcast_reachesLive hs.lists hf hn uvWrite garbage j).1
    simp only [CanIPCServer.onNotify, hn] at hfault
    exact hfault
  | some a =>
    simp only [Option.mem_some_iff, forall_eq']
    cases hm : s.mem a with
    | some p =>
      have hm' : { s with asyncs := s.asyncs.eraseIdx j }.mem a = some p := hm
      obtain ⟨-, hfault, -⟩ := sent_uvWrites (sendNotify_sent _ a n uvWrite garbage) hm'
      exact iff_of_true (hfault.trans hf) (fun h => by cases h)
    | none =>
      unfold CanIPCServer.sendNotify
      simp only [hm]
      cases garbage with
      | true => exact iff_of_true hf fun _ => rfl
      | false => exact iff_of_false (by simp [CanIPCServer.fail]) (by simp)

theorem harmless_write (hs : Sound h s) (hf : s.fault = none) {j : Nat} {w : WriteReq} (hj : s.writes[j]? = some w)
    (status : Int) : ({ s with writes := s.writes.eraseIdx j }.onWrite w status).1.fault = none ↔
      Harmless s (.write j status) := by
  have hharmless : Harmless s (.write j status) ↔
      (0 ≤ status → w.notice.notifyExitFlag = true → s.handleClosing = false) := by
    simp [Harmless, hj]
  rw [hharmless]
  unfold CanIPCServer.onWrite
  split
  · exact iff_of_true hf fun _ => by omega
  rename_i hstatus
  split
  swap
  · rename_i hflag
    exact iff_of_true hf fun _ h => absurd h hflag
  rename_i hflag
  obtain ⟨a, p, hc, -, hp⟩ := hs.addressed.live w (List.mem_of_getElem? hj) hflag
  simp only [hc, hp]
  unfold CanIPCServer.notifyExitServer
  simp only
  split
  · rename_i hclosing
    refine iff_of_false (by simp [CanIPCServer.fail]) fun h => ?_
    have := h (by omega) hflag
    rw [hclosing] at this
    cases this
  · rename_i hclosing
    exact iff_of_true hf fun _ _ => by simpa using hclosing

theorem servable_iff {x : Executer A api} {p : Ptr} {m : AnCmd A} (hp : x.currentCmd.mCmd = some p)
    (hm : x.heap p = some m) : x.Servable ↔ HasSlot m := by
  unfold Executer.Servable HasSlot
  simp only [hp, Option.mem_some_iff, forall_eq', hm]
  constructor
  · rintro ⟨t, -, ht, hc⟩
    obtain ⟨c, hc⟩ := Option.isSome_iff_exists.1 hc
    exact ⟨t, c, ht, hc⟩
  · rintro ⟨t, c, ht, hc⟩
    exact ⟨t, mem_all t, ht, Option.isSome_iff_exists.2 ⟨c, hc⟩⟩

theorem harmless_run (hs : Sound h s) (hf : s.exec.fault = none) {now : AnSystemtime} {x : Executer A api}
    {ex : List (ExecEvent A)} (hr : Ran s.exec now x ex) : x.fault = none ↔ Harmless s (.run now) := by
  show _ ↔ (s.exec.pc = .cmdHandler → s.exec.Servable)
  cases hr with
  | empty hpc | sized hpc | fronted _ _ hpc | preProcessed _ hpc | paused _ _ hpc | destroyed _ hpc | popped _ _ hpc =>
    refine iff_of_true hf fun h => ?_
    rw [hpc] at h
    cases h
  | handled p m t c hpc hp hm ht hc => exact iff_of_true hf fun _ => (servable_iff hp hm).2 ⟨t, c, ht, hc⟩
  | failed f hst =>
    obtain ⟨hpc, p, m, hp, hm, hno⟩ := hs.owns.unservable hst
    exact iff_of_false (by simp) fun h => hno ((servable_iff hp hm).1 (h hpc))

/-- A step goes well exactly if it is harmless. -/
theorem alive_step {i : Input} (hs : Sound h s) (hstep : (serverMachine A api).step s i = some (t, e)) :
    t.alive = true ↔ Harmless s i := by
  obtain ⟨hf, hx, ha⟩ := server_acted hstep
  rw [alive_iff]
  cases i with
  | newConnection status addr accept =>
    have hloop := step_loop hstep rfl
    obtain ⟨⟨-, hclosing⟩, heq⟩ := Option.ite_none_right_eq_some.1 hloop
    unfold CanIPCServer.onNewConnection at heq
    show _ ↔ (0 ≤ status → accept = 0)
    split at heq
    · rw [hclosing] at heq
      cases heq
      exact iff_of_true ⟨hf, hx⟩ fun _ => by omega
    split at heq
    · rename_i haccept
      cases heq
      exact iff_of_true ⟨hf, hx⟩ fun _ => haccept
    · rename_i hstatus haccept
      cases heq
      exact iff_of_false (fun h => by cases h.1) fun h => haccept (h (by omega))
  | read addr chunk now =>
    show _ ↔ ReadsCommand A chunk
    rw [readsCommand_iff]
    cases ha with
    | readFaulty addr p chunk now f hm hc hr =>
      refine iff_of_false (fun h => by cases h.1) ?_
      rintro ⟨m, rest, hr'⟩
      rw [hr] at hr'
      cases hr'
    | readInfo addr p chunk now m rest n hm hc hr => exact iff_of_true ⟨hf, hx⟩ ⟨m, rest, hr⟩
    | readCommand addr p chunk now m rest hm hc hr => exact iff_of_true ⟨hf, hx⟩ ⟨m, rest, hr⟩
    | exec i j x ex hj => cases hj
  | readError addr =>
    refine iff_of_true ?_ trivial
    cases ha with
    | readFailed => exact ⟨hf, hx⟩
    | exec i j x ex hj => cases hj
  | closed addr =>
    refine iff_of_true ?_ trivial
    cases ha with
    | closed | closedUnknown => exact ⟨hf, hx⟩
    | exec i j x ex hj => cases hj
  | notify j uvWrite garbage =>
    obtain ⟨n, hn, heq⟩ := step_notify hstep
    rw [← harmless_notify hs hf hn, heq]
    refine ⟨And.left, fun h => ⟨h, ?_⟩⟩
    cases ha with
    | notifiedAll => exact hx
    | notified _ n _ _ a t e r _ _ hsent =>
      obtain ⟨⟨ws, f, rfl, -⟩, -⟩ := sent_frame hsent
      exact hx
    | exec i j x ex hj => cases hj
  | write j status =>
    obtain ⟨w, hw, heq⟩ := step_write hstep
    rw [← harmless_write hs hf hw, heq]
    refine ⟨And.left, fun h => ⟨h, ?_⟩⟩
    cases ha with
    | writeFailed | written | strayWrite | exits | exitsAgain => exact hx
    | exec i j x ex hj => cases hj
  | run now =>
    obtain ⟨x, ex, hr, rfl, -⟩ := step_exec_run hstep
    rw [← harmless_run hs hx hr]
    exact ⟨And.right, fun h => ⟨hf, h⟩⟩
  | idle now online | itemCheck now =>
    refine iff_of_true ?_ trivial
    obtain ⟨x, ex, hst, rfl, rfl⟩ := acted_exec ha rfl
    cases hst with
    | quiet | broadcast => exact ⟨hf, hx⟩
  | loopExit =>
    refine iff_of_true ?_ trivial
    cases ha with
    | loopExit => exact ⟨hf, hx⟩
    | exec i j x ex hj => cases hj

theorem sound_step {i : Input} (hs : Sound h s) (hstep : (serverMachine A api).step s i = some (t, e)) :
    Sound (h ++ e) t :=
  ⟨lists_step hs.lists hstep, addressed_step hs.addressed hstep, ownsCommands_step hs.owns hstep⟩

end Step

/-! ## The walk without a lock -/

/-- `cmd_pre_processed` is about to walk the deque: the current command is a Cancel. -/
def Executer.Walks (x : Executer A api) : Prop := x.pc = .preProcess ∧ ∃ m ∈ x.cmdOf x.currentCmd, IsCancel m

instance (x : Executer A api) : Decidable x.Walks := by unfold Executer.Walks; infer_instance

/-- The server, with whether the executor's thread is inside the walk, and whether a command was pushed meanwhile. A
push that overlaps the walk at all is put inside it. -/
structure WalkedServer (A : Arch) (api : XfsApi) where
  server : CanIPCServer A api
  walking : Bool
  raced : Bool

def WalkedServer.new (x : CanXfs A api) : WalkedServer A api := ⟨.new x, false, false⟩

/-- The executor's thread enters the walk; or a step of the server, where the piece of `run` that walks is the end of
the walk. -/
inductive WalkedInput where
  | enter
  | step (i : Input)

/-- A command is pushed into the deque. -/
def Event.pushes : Event A → Bool
  | .exec (.pushed ..) => true
  | _ => false

def Input.runs : Input → Bool
  | .run _ => true
  | _ => false

namespace WalkedServer

variable (w : WalkedServer A api)

/-- No thread has faulted, and nothing was pushed during a walk. -/
def alive : Bool := w.server.alive && !w.raced

def step : WalkedInput → Option (WalkedServer A api × List (Event A))
  | .enter =>
    if w.alive ∧ w.server.exec.Walks ∧ w.walking = false then some ({ w with walking := true }, []) else none
  | .step i =>
    -- a piece of `run` that walks has begun with `enter`
    if w.raced ∨ (i.runs ∧ w.server.exec.Walks ∧ w.walking = false) then none else
    (w.server.step i).map fun (t, e) => (⟨t, w.walking && !i.runs, w.walking && e.any Event.pushes⟩, e)

end WalkedServer

def walkedMachine (A : Arch) (api : XfsApi) : Machine (WalkedServer A api) WalkedInput (Event A) where
  step := WalkedServer.step

/-- A chunk is read that holds a command for the deque. -/
def Pushes (A : Arch) : Input → Prop
  | .read _ chunk _ => typeField A chunk ≠ AnWfpType.wfpGetInfo.code.toNat
  | _ => False

instance : (i : Input) → Decidable (Pushes A i)
  | .read .. => by unfold Pushes; infer_instance
  | .newConnection .. | .readError _ | .closed _ | .notify .. | .write .. | .run _ | .idle .. | .itemCheck _
  | .loopExit => inferInstanceAs (Decidable False)

/-- The step is harmless, and pushes nothing while the executor walks. -/
def HarmlessWalked (w : WalkedServer A api) : WalkedInput → Prop
  | .enter => True
  | .step i => Harmless w.server i ∧ (w.walking = true → ¬ Pushes A i)

instance (w : WalkedServer A api) : (i : WalkedInput) → Decidable (HarmlessWalked w i)
  | .enter => inferInstanceAs (Decidable True)
  | .step i => inferInstanceAs (Decidable (Harmless w.server i ∧ (w.walking = true → ¬ Pushes A i)))

section Walk

variable {s t : CanIPCServer A api} {e : List (Event A)}

theorem typeField_of_readCmd {chunk rest : List UInt8} {m : AnCmd A} (hr : readCmd chunk = .ok (m, rest)) :
    typeField A chunk = m.eType.toNat := by
  obtain ⟨t, ht, -⟩ := (readCmd_ok hr).1.class
  rw [ht]
  exact ((readCmd_ok_iff t chunk).1 ⟨m, rest, hr, ht⟩).1

theorem pushes_ofSending {n : Notice} (h : ∀ x ∈ e, OfSending n x) : e.any Event.pushes = false := by
  apply List.any_eq_false.2
  intro x hx
  have hsending := h x hx
  cases x <;> first | exact Bool.false_ne_true | exact hsending.elim

/-- Where nothing faults, what is pushed can be read off the chunk. -/
theorem pushes_step {i : Input} (hstep : (serverMachine A api).step s i = some (t, e)) (ht : t.alive = true) :
    e.any Event.pushes = true ↔ Pushes A i := by
  obtain ⟨-, -, ha⟩ := server_acted hstep
  rw [alive_iff] at ht
  cases i with
  | read addr chunk now =>
    show _ ↔ typeField A chunk ≠ _
    cases ha with
    | readFaulty => cases ht.1
    | readInfo addr p chunk now m rest n hm hc hr hg =>
      refine iff_of_false (by simp [Event.pushes]) fun h => h ?_
      rw [typeField_of_readCmd hr, hg]
    | readCommand addr p chunk now m rest hm hc hr hg =>
      refine iff_of_true (by simp [Executer.pushBackCmdDeque, Event.pushes]) fun h => hg ?_
      rw [typeField_of_readCmd hr] at h
      exact BitVec.toNat_inj.1 h
    | exec i j x ex hj => cases hj
  | notify k uvWrite garbage =>
    refine iff_of_false ?_ id
    cases ha with
    | notifiedAll k n _ _ ws f e hk hn hws he =>
      simp [pushes_ofSending he, Event.pushes]
    | notified k n _ _ a t e r hk hn hsent =>
      have he := pushes_ofSending (sent_frame hsent).2
      split <;> simp [he, Event.pushes]
    | exec i j x ex hj => cases hj
  | run now =>
    refine iff_of_false ?_ id
    obtain ⟨x, ex, hr, -, rfl⟩ := step_exec_run hstep
    cases hr <;> simp [Event.pushes]
  | idle now online | itemCheck now =>
    refine iff_of_false ?_ id
    obtain ⟨x, ex, hst, -, rfl⟩ := acted_exec ha rfl
    cases hst <;> simp [Event.pushes]
  | newConnection | readError | closed | write | loopExit =>
    refine iff_of_false ?_ id
    cases ha with
    | exec i j x ex hj => cases hj
    | _ => simp [Event.pushes]

/-- A step of the server inside or outside the walk. -/
theorem walked_step {w w' : WalkedServer A api} {i : Input}
    (h : (walkedMachine A api).step w (.step i) = some (w', e)) :
    w.raced = false ∧ (serverMachine A api).step w.server i = some (w'.server, e) ∧
      w'.raced = (w.walking && e.any Event.pushes) := by
  simp only [walkedMachine, WalkedServer.step] at h
  split at h
  · cases h
  rename_i hno
  obtain ⟨⟨t, e'⟩, ht, heq⟩ := Option.map_eq_some_iff.1 h
  cases heq
  exact ⟨by simpa using (not_or.1 hno).1, ht, rfl⟩

theorem walked_enter {w w' : WalkedServer A api} (h : (walkedMachine A api).step w .enter = some (w', e)) :
    w.alive = true ∧ w' = { w with walking := true } ∧ e = [] := by
  obtain ⟨⟨halive, -, -⟩, heq⟩ := Option.ite_none_right_eq_some.1 h
  cases heq
  exact ⟨halive, rfl, rfl⟩

theorem alive_walked {w w' : WalkedServer A api} {h e : List (Event A)} {i : WalkedInput} (hs : Sound h w.server)
    (hstep : (walkedMachine A api).step w i = some (w', e)) : w'.alive = true ↔ HarmlessWalked w i := by
  cases i with
  | enter =>
    obtain ⟨halive, rfl, -⟩ := walked_enter hstep
    exact iff_of_true halive trivial
  | step i =>
    obtain ⟨-, hstep, hraced⟩ := walked_step hstep
    have halive := alive_step hs hstep
    show _ ↔ Harmless w.server i ∧ (w.walking = true → ¬ Pushes A i)
    rw [← halive]
    simp only [WalkedServer.alive, Bool.and_eq_true, Bool.not_eq_true', hraced]
    apply and_congr_right
    intro ht
    rw [← pushes_step hstep ht]
    simp

end Walk

/-! ## A run -/

theorem sound_new (x : CanXfs A api) : Sound [] (CanIPCServer.new x) := by
  refine ⟨lists_new x, ?_, ownsCommands_new x⟩
  exact ⟨fun hpc => absurd rfl hpc, fun _ h => absurd h List.not_mem_nil, fun _ h => absurd h List.not_mem_nil,
    fun _ h => absurd h List.not_mem_nil⟩

/-- For every run of the server, whatever its clients send, however its threads interleave and whatever libuv returns:
nothing has crashed in it, and nothing was pushed during a walk, exactly if every step was harmless. -/
theorem alive_iff_harmless {x : CanXfs A api} {is : List WalkedInput} {w : WalkedServer A api} {es : List (Event A)}
    (hr : (walkedMachine A api).run (.new x) is = some (w, es)) :
    w.alive = true ↔ (walkedMachine A api).Meets HarmlessWalked (.new x) is := by
  refine Machine.run_safe_iff (M := walkedMachine A api) (P := fun w => w.alive = true) (F := fun _ _ => True)
    (I := fun h w => Sound h w.server) ?_ (fun _ _ _ _ _ hs _ hstep => alive_walked hs hstep) ?_
    (sound_new x) rfl (Machine.meets_true _ _) hr
  · -- the machine takes no step after a fault
    intro w i w' e hstep
    cases i with
    | enter => exact (walked_enter hstep).1
    | step i =>
      obtain ⟨hraced, hstep, -⟩ := walked_step hstep
      have halive : w.server.alive = true := (alive_iff _).2 ⟨(server_acted hstep).1, (server_acted hstep).2.1⟩
      simp [WalkedServer.alive, halive, hraced]
  · intro h w i w' e hs _ _ hstep
    cases i with
    | enter =>
      obtain ⟨-, rfl, rfl⟩ := walked_enter hstep
      rw [List.append_nil]
      exact hs
    | step i => exact sound_step hs (walked_step hstep).2.1

/-- A request for information. -/
def infoCmd : AnCmd .x86 := .wfpGetInfo (AnWfpGetInfo.new _ 0 1 301 (.empty _) 0 5 1)

/-- A client sends a Cancel, and a command while the executor walks the deque. -/
def sentDuringWalk (chunk : List UInt8) : List WalkedInput :=
  [.step (.newConnection 0 0 0), .step (.read 0 (cancelCmd 1 0).put midnight), .step (.run midnight),
    .step (.run midnight), .enter, .step (.read 0 chunk midnight)]

/-- All goes well if the command only asks for information, and not if it is an Open. -/
theorem sentDuringWalk_alive : ∃ w es w' es',
    (walkedMachine .x86 .documented).run (.new .blank) (sentDuringWalk infoCmd.put) = some (w, es) ∧
      w.alive = true ∧
    (walkedMachine .x86 .documented).run (.new .blank) (sentDuringWalk (openCmd 1 1).put) = some (w', es') ∧
      w'.alive = false := by
  obtain ⟨w, es, hr, -⟩ : ∃ w es, (walkedMachine .x86 .documented).run (.new .blank)
    (sentDuringWalk infoCmd.put) = some (w, es) ∧ w.walking = true := Machine.run_any (by decide +kernel)
  obtain ⟨w', es', hr', -⟩ : ∃ w es, (walkedMachine .x86 .documented).run (.new .blank)
    (sentDuringWalk (openCmd 1 1).put) = some (w, es) ∧ w.walking = true := Machine.run_any (by decide +kernel)
  have hno : ¬ w'.alive = true := mt (alive_iff_harmless hr').1 (by decide +kernel)
  exact ⟨w, es, w', es', hr, (alive_iff_harmless hr).2 (by decide +kernel), hr', by simpa using hno⟩

end AnXfs.Server
