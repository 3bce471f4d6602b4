/-
Every request is answered in the end. What is under way over the link is measured by the steps that it has still to
go: from the client's loop over the wire, the deque, the executor, the notices and the answer's write back to the
client. Each step of the work takes one of them, a call brings in twelve at most and an event three (`link_amortised`).
So the work comes to an end, and then every request has its answer, unless the server was told to exit
(`requests_answered`).
-/
import AnXfs.Run.Progress
import AnXfs.Server.ExitOnce
import AnXfs.System.Contract

namespace AnXfs.System

open AnXfs.Wire AnXfs.Pack AnXfs.Run AnXfs.Server AnXfs.Client

variable {A : Arch} {api : XfsApi}

/-! ## What is left to do -/

/-- The steps that the entry at the front has behind it: the pieces of `run`, and with the fourth of them the three
steps of its answer. -/
def behind : ExecPc → Nat
  | .sizeTest => 0
  | .readFront => 1
  | .preProcess => 2
  | .cmdHandler => 3
  | .pauseItemCheck => 7
  | .destroyCmd => 8
  | .popFront => 9

/-- The steps left for the entries of the deque. -/
def execLeft (x : Executer A api) : Nat := 10 * x.deque.length - behind x.pc

/-- The steps left at the server: a notice is delivered, written and read, a write reported. -/
def serverLeft (s : CanIPCServer A api) : Nat := execLeft s.exec + 3 * s.asyncs.length + s.writes.length

/-- The steps left on the link. -/
def Link.left (s : Link A api) : Nat :=
  12 * s.client.asyncs.length + 11 * s.client.ipc.wire.length + serverLeft s.server + s.toClient.length

/-- The executor has something to do. -/
def busy (x : Executer A api) : Bool := x.pc ≠ .sizeTest ∨ x.deque ≠ []

/-- The steps of the work: `run` counts where the executor has something to do. -/
def Link.work (s : Link A api) : LinkInput → Nat
  | .sendCmd _ | .serverRead _ | .notify _ | .written _ | .clientRead _ => 1
  | .run _ => if busy s.server.exec then 1 else 0
  | .call .. | .idle .. | .itemCheck _ | .loopExit => 0

/-- The steps that an input brings in. -/
def LinkInput.brings : LinkInput → Nat
  | .call .. => 12
  | .idle .. | .itemCheck _ => 3
  | _ => 0

/-! ## The executor -/

/-- Between its first test and the pop the deque is not empty. -/
theorem deque_busy {g : List (ExecEvent A)} {x : Executer A api} (ho : Ordered g x) (hpc : x.pc ≠ .sizeTest) :
    x.deque ≠ [] := by
  obtain ⟨served, waiting, o⟩ := ho
  rw [o.deque]
  intro hnil
  obtain ⟨hcurrent, hwaiting⟩ := List.append_eq_nil_iff.1 hnil
  have hwait : waiting = [] := List.map_eq_nil_iff.1 hwaiting
  cases h : x.pc with
  | sizeTest => exact hpc h
  | readFront => exact o.front h hwait
  | preProcess =>
    obtain ⟨m, rest, hrest⟩ := o.copied (.inl h)
    rw [hwait] at hrest
    cases hrest
  | cmdHandler =>
    obtain ⟨m, rest, hrest⟩ := o.copied (.inr h)
    rw [hwait] at hrest
    cases hrest
  | pauseItemCheck | destroyCmd | popFront =>
    rw [current_of_executed (by rw [h]; rfl)] at hcurrent
    cases hcurrent

theorem behind_le (pc : ExecPc) : behind pc ≤ 9 := by
  cases pc <;> decide

/-- A piece of `run` takes a step, if there is something to do. -/
theorem ran_execLeft {g : List (ExecEvent A)} {x y : Executer A api} {now : AnSystemtime} {e : List (ExecEvent A)}
    (ho : Ordered g x) (h : Ran x now y e) :
    (if busy x then 1 else 0) + execLeft y + 3 * (noticesOf e).length ≤ execLeft x := by
  have hlen : x.pc ≠ .sizeTest → 0 < x.deque.length := fun hpc => List.length_pos_iff.2 (deque_busy ho hpc)
  cases h with
  | empty hpc hd => simp [busy, hpc, hd, noticesOf]
  | sized hpc hd =>
    have hpos : 0 < x.deque.length := List.length_pos_iff.2 hd
    simp only [execLeft, behind, hpc, noticesOf, List.filterMap_nil, List.length_nil]
    split <;> omega
  | fronted b rest hpc hd =>
    have hpos := hlen (by simp [hpc])
    simp only [execLeft, behind, hpc, noticesOf, List.filterMap_nil, List.length_nil]
    split <;> omega
  | preProcessed heap hpc =>
    have hpos := hlen (by simp [hpc])
    simp only [execLeft, behind, hpc, noticesOf, List.filterMap_nil, List.length_nil]
    split <;> omega
  | handled p m t c hpc =>
    have hpos := hlen (by simp [hpc])
    have hone (n : Notice) : (noticesOf [.executed x.currentCmd m, .posted n]).length = 1 := rfl
    simp only [execLeft, behind, hpc, hone]
    split <;> omega
  | paused p m hpc =>
    have hpos := hlen (by simp [hpc])
    simp only [execLeft, behind, hpc, noticesOf, List.filterMap_nil, List.length_nil]
    split <;> omega
  | destroyed heap hpc =>
    have hpos := hlen (by simp [hpc])
    simp only [execLeft, behind, hpc, noticesOf, List.filterMap_nil, List.length_nil]
    split <;> omega
  | popped b rest hpc hd =>
    have hnone : (noticesOf ([.popped b] : List (ExecEvent A))).length = 0 := rfl
    simp only [execLeft, behind, hpc, hd, hnone, List.length_cons]
    split <;> omega
  | failed f hst =>
    obtain ⟨served, waiting, o⟩ := ho
    exact absurd hst (o.not_stuck now f)

/-- An event brings in three steps. -/
theorem stepped_execLeft {x y : Executer A api} {j : ExecInput A} {e : List (ExecEvent A)}
    (hj : (∀ c o m, j ≠ .push c o m) ∧ ∀ now, j ≠ .run now) (h : Stepped x j y e) :
    execLeft y + 3 * (noticesOf e).length ≤ execLeft x + 3 := by
  cases h with
  | pushed c o m => exact absurd rfl (hj.1 c o m)
  | ran now => exact absurd rfl (hj.2 now)
  | quiet => exact Nat.le_add_right _ 3
  | broadcast => exact le_rfl

/-! ## The server -/

/-- As long as it was not told to exit, the server goes on; and whoever tells it to is on the connection. -/
structure Going (conn : Addr) (h : List (Event A)) (s : CanIPCServer A api) : Prop where
  goes : exitCount h = 0 → s.fault = none ∧ s.stopped = false ∧ s.exited = false
  flagged : ∀ n ∈ s.asyncs ++ s.writes.map WriteReq.notice, n.notifyExitFlag = true → n.client = some conn

/-- A step of the server that does `work` and brings in `gain`. -/
structure Advances (conn : Addr) (h : List (Event A)) (s : CanIPCServer A api) (work gain : Nat) (e : List (Event A))
    (t : CanIPCServer A api) : Prop where
  going : Going conn (h ++ e) t
  left : work + (written e).length + serverLeft t ≤ serverLeft s + gain

section Server

variable {conn : Addr} {h e : List (Event A)} {s t : CanIPCServer A api}

theorem unexited (hexit : exitCount (h ++ e) = 0) : exitCount h = 0 := by
  rw [exitCount_append] at hexit
  omega

theorem Going.frame (hs : Going conn h s) (hf : t.fault = s.fault) (hst : t.stopped = s.stopped)
    (hx : t.exited = s.exited)
    (hn : ∀ n ∈ t.asyncs ++ t.writes.map WriteReq.notice, n.notifyExitFlag = true → n.client = some conn) :
    Going conn (h ++ e) t := by
  refine ⟨fun hexit => ?_, hn⟩
  rw [hf, hst, hx]
  exact hs.goes (unexited hexit)

/-- What the delivery of a notice does on the link. -/
theorem notify_link (hs : ServerSide conn h s) {i : Nat}
    (hstep : (serverMachine A api).step s (.notify i (fun _ => 0) false) = some (t, e)) :
    ∃ n w, s.asyncs[i]? = some n ∧ t = { s with asyncs := s.asyncs.eraseIdx i, writes := s.writes ++ [w] } ∧
      (written e).length = 1 ∧ w.notice.notifyExitFlag = n.notifyExitFlag ∧ w.notice.client = n.client := by
  obtain ⟨hf, -, hacted⟩ := server_acted hstep
  obtain ⟨n, hi, hte⟩ := step_notify hstep
  obtain ⟨-, hclient⟩ := hs.notices n (List.mem_of_getElem? hi)
  obtain ⟨w, e', he', -, hwrote⟩ :=
    onNotify_link (s := { s with asyncs := s.asyncs.eraseIdx i }) hf hs.mem hs.vector hclient
  rw [he'] at hte
  cases hte
  refine ⟨n, w, hi, rfl, by rw [hwrote]; rfl, ?_⟩
  generalize ht : ({ s with asyncs := s.asyncs.eraseIdx i, writes := s.writes ++ [w] } : CanIPCServer A api) = t
    at hacted
  have hwrites : t.writes = s.writes ++ [w] := by rw [← ht]
  cases hacted with
  | notifiedAll k n' uvWrite garbage ws f e'' hk hn hws =>
    cases hi.symm.trans hk
    obtain rfl : ws = [w] := List.append_cancel_left hwrites
    obtain ⟨hw, -⟩ := hws w (List.mem_singleton_self w)
    rw [hw]
    exact ⟨rfl, hn.symm⟩
  | notified k n' uvWrite garbage a t e'' r hk hn hsent =>
    cases hi.symm.trans hk
    obtain ⟨⟨ws, f, rfl, hws⟩, -⟩ := sent_frame hsent
    obtain rfl : ws = [w] := List.append_cancel_left hwrites
    obtain ⟨hw, -⟩ := hws w (List.mem_singleton_self w)
    rw [hw]
    exact ⟨rfl, rfl⟩
  | exec i j x ex hj => cases hj

theorem advances_notify (hs : ServerSide conn h s) (hg : Going conn h s) {i : Nat}
    (hstep : (serverMachine A api).step s (.notify i (fun _ => 0) false) = some (t, e)) :
    Advances conn h s 1 0 e t := by
  obtain ⟨n, w, hi, rfl, hlen, hflag, hclient⟩ := notify_link hs hstep
  have hn : n ∈ s.asyncs := List.mem_of_getElem? hi
  refine ⟨hg.frame rfl rfl rfl fun m hm hf => ?_, ?_⟩
  · rw [List.map_append, ← List.append_assoc] at hm
    rcases List.mem_append.1 hm with hm | hm
    · refine hg.flagged m ?_ hf
      rcases List.mem_append.1 hm with hm | hm
      · exact List.mem_append_left _ (List.mem_of_mem_eraseIdx hm)
      · exact List.mem_append_right _ hm
    · rw [List.mem_singleton.1 hm] at hf ⊢
      rw [hclient]
      exact hg.flagged n (List.mem_append_left _ hn) (hflag ▸ hf)
  · obtain ⟨hlt, -⟩ := List.getElem?_eq_some_iff.1 hi
    rw [hlen]
    simp only [serverLeft, List.length_eraseIdx_of_lt hlt, List.length_append, List.length_singleton]
    omega

theorem advances_written (hs : ServerSide conn h s) (hg : Going conn h s) {i : Nat}
    (hstep : (serverMachine A api).step s (.write i 0) = some (t, e)) : Advances conn h s 1 0 e t := by
  obtain ⟨-, -, ha⟩ := server_acted hstep
  have hflagged : ∀ n ∈ s.asyncs ++ (s.writes.eraseIdx i).map WriteReq.notice, n.notifyExitFlag = true →
      n.client = some conn := by
    intro n hn
    refine hg.flagged n ?_
    rcases List.mem_append.1 hn with hn | hn
    · exact List.mem_append_left _ hn
    · obtain ⟨w, hw, rfl⟩ := List.mem_map.1 hn
      exact List.mem_append_right _ (List.mem_map_of_mem (List.mem_of_mem_eraseIdx hw))
  have hleft : ∀ w, s.writes[i]? = some w → (s.writes.eraseIdx i).length + 1 = s.writes.length := by
    intro w hw
    obtain ⟨hlt, -⟩ := List.getElem?_eq_some_iff.1 hw
    rw [List.length_eraseIdx_of_lt hlt]
    omega
  cases ha with
  | writeFailed k w status hk hneg => exact absurd hneg (by decide)
  | written k w status hk =>
    have hl := hleft w hk
    refine ⟨hg.frame rfl rfl rfl hflagged, ?_⟩
    simp only [serverLeft, written, wroteOf, on, List.filterMap_cons, List.filterMap_nil, List.map_nil,
      List.length_nil]
    omega
  | strayWrite k w status f hk hflag hstray =>
    have hclient := hg.flagged w.notice
      (List.mem_append_right _ (List.mem_map_of_mem (List.mem_of_getElem? hk))) hflag
    rcases hstray with hnone | ⟨a, ha, hm⟩
    · rw [hclient] at hnone
      cases hnone
    · rw [hclient] at ha
      cases ha
      rw [hs.mem] at hm
      cases hm
  | exits k w status hk | exitsAgain k w status hk =>
    have hl := hleft w hk
    refine ⟨⟨fun hexit => ?_, hflagged⟩, ?_⟩
    · rw [exitCount_append] at hexit
      simp [exitCount] at hexit
    · simp only [serverLeft, written, wroteOf, on, List.filterMap_cons, List.filterMap_nil, List.map_nil,
        List.length_nil]
      omega
  | exec i j x ex hj => cases hj

/-- Who the executor's thread is at work for. -/
theorem current_client (hs : ServerSide conn h s) (hpc : s.exec.pc = .cmdHandler) :
    s.exec.currentCmd.mClient = some conn := by
  obtain ⟨served, waiting, o⟩ := hs.order
  obtain ⟨m, rest, hwait⟩ := o.copied (.inr hpc)
  refine hs.clients (s.exec.currentCmd, m) ?_
  rw [o.pushed, hwait]
  exact List.mem_append_right _ (List.mem_cons_self ..)

/-- A notice of the executor that tells the server to exit is for the client that sent the command. -/
theorem exec_flagged (hs : ServerSide conn h s) {j : ExecInput A} {x : Executer A api} {ex : List (ExecEvent A)}
    (hst : Stepped s.exec j x ex) : ∀ n ∈ noticesOf ex, n.notifyExitFlag = true → n.client = some conn := by
  intro n hn hflag
  cases hst with
  | pushed | quiet =>
    simp [noticesOf, Executer.pushBackCmdDeque] at hn
  | broadcast i itemPc r =>
    have hn : n = Executer.eventNotice r := List.mem_singleton.1 hn
    rw [hn] at hflag
    cases hflag
  | ran now y e hran =>
    cases hran with
    | handled p m t c hpc =>
      have hn : n = replyNotice s.exec.xfs t c m s.exec.currentCmd.mClient s.exec.currentCmd.origin now :=
        List.mem_singleton.1 hn
      rw [hn]
      exact current_client hs hpc
    | empty | sized | fronted | preProcessed | paused | destroyed | popped | failed =>
      simp [noticesOf] at hn

theorem Going.exec (hs : ServerSide conn h s) (hg : Going conn h s) {j : ExecInput A} {x : Executer A api}
    {ex : List (ExecEvent A)} (hst : Stepped s.exec j x ex) :
    Going conn (h ++ ex.map .exec) { s with exec := x, asyncs := s.asyncs ++ noticesOf ex } := by
  refine hg.frame rfl rfl rfl fun n hn hflag => ?_
  rcases List.mem_append.1 hn with hn | hn
  · rcases List.mem_append.1 hn with hn | hn
    · exact hg.flagged n (List.mem_append_left _ hn) hflag
    · exact exec_flagged hs hst n hn hflag
  · exact hg.flagged n (List.mem_append_right _ hn) hflag

theorem written_exec (ex : List (ExecEvent A)) : (written (ex.map .exec)).length = 0 := by
  obtain ⟨-, -, -, hw⟩ := streams_exec ex
  rw [written, hw]
  rfl

theorem advances_run (hs : ServerSide conn h s) (hg : Going conn h s) {now : AnSystemtime}
    (hstep : (serverMachine A api).step s (.run now) = some (t, e)) :
    Advances conn h s (if busy s.exec then 1 else 0) 0 e t := by
  simp only [serverMachine, CanIPCServer.step] at hstep
  split at hstep
  · cases hstep
  obtain ⟨⟨x, ex⟩, hx, hstep⟩ := Option.map_eq_some_iff.1 hstep
  cases hstep
  have hran := step_ran hx
  refine ⟨hg.exec hs (.ran now x ex hran), ?_⟩
  have hleft := ran_execLeft hs.order hran
  rw [written_exec]
  simp only [serverLeft, List.length_append]
  omega

theorem advances_event (hs : ServerSide conn h s) (hg : Going conn h s) {i : Input} {j : ExecInput A}
    (hi : i.exec? A = some j) (hj : (∀ c o m, j ≠ .push c o m) ∧ ∀ now, j ≠ .run now)
    (hstep : (serverMachine A api).step s i = some (t, e)) : Advances conn h s 0 3 e t := by
  obtain ⟨-, -, ha⟩ := server_acted hstep
  obtain ⟨x, ex, hst, rfl, rfl⟩ := acted_exec ha hi
  refine ⟨hg.exec hs hst, ?_⟩
  have hleft := stepped_execLeft hj hst
  rw [written_exec]
  simp only [serverLeft, List.length_append]
  omega

theorem advances_loopExit (hg : Going conn h s) (hstep : (serverMachine A api).step s .loopExit = some (t, e)) :
    Advances conn h s 0 0 e t := by
  have hstopped : s.stopped = true := by
    simp only [serverMachine, CanIPCServer.step] at hstep
    split at hstep
    · cases hstep
    simp only [Input.exec?] at hstep
    split at hstep
    · cases hstep
    exact (Option.ite_none_right_eq_some.1 hstep).1
  obtain ⟨-, -, ha⟩ := server_acted hstep
  cases ha with
  | loopExit =>
    refine ⟨⟨fun hexit => ?_, hg.flagged⟩, (Nat.zero_add _).le⟩
    -- the loop only returns behind `uv_stop`, which comes with an exit
    obtain ⟨-, hst, -⟩ := hg.goes (unexited hexit)
    rw [hstopped] at hst
    cases hst
  | exec i j x ex hj => cases hj

/-- A command that is read goes on in the deque, or its answer among the notices. -/
theorem advances_read (hg : Going conn h s) (m : Command A) {now : AnSystemtime}
    (hstep : (serverMachine A api).step s (.read conn (serializeCmd m) now) = some (t, e)) :
    Advances conn h s 0 10 e t := by
  have hget : readCmd (serializeCmd m) = .ok (m.obj, []) := by
    have hput := readCmd_put m.built []
    rwa [List.append_nil] at hput
  obtain ⟨-, -, ha⟩ := server_acted hstep
  cases ha with
  | readFaulty addr p chunk now f hm hc hr =>
    rw [hget] at hr
    cases hr
  | readInfo addr p chunk now m' rest n hm hc hr hg' hn =>
    refine ⟨hg.frame rfl rfl rfl fun k hk hflag => ?_, ?_⟩
    · rcases List.mem_append.1 hk with hk | hk
      · rcases List.mem_append.1 hk with hk | hk
        · exact hg.flagged k (List.mem_append_left _ hk) hflag
        · rw [List.mem_singleton.1 hk, (spiGetinfo_ok hn).2.2.1] at hflag
          cases hflag
      · exact hg.flagged k (List.mem_append_right _ hk) hflag
    · simp only [serverLeft, written, wroteOf, on, List.filterMap_cons, List.filterMap_nil, List.map_nil,
        List.length_nil, List.length_append, List.length_singleton]
      omega
  | readCommand addr p chunk now m' rest hm hc hr hne =>
    refine ⟨hg.frame rfl rfl rfl hg.flagged, ?_⟩
    have hw : written (.read p.id (serializeCmd m) :: .dispatched p.id m' ::
        (s.exec.pushBackCmdDeque (some conn) (some p.id) m').2.map .exec ++ [.freed p.id]) = [] := rfl
    have hbehind := behind_le s.exec.pc
    rw [hw]
    simp only [serverLeft, execLeft, Executer.pushBackCmdDeque, List.length_append, List.length_singleton,
      List.length_nil]
    omega
  | exec i j x ex hj => cases hj

end Server

/-! ## The link -/

/-- Where nothing is under way, what was posted are the answers to the calls. -/
theorem Conserves.answered_of_drained {h : List (LinkEvent A api)} {s : Link A api} {sent wire : List (Command A)}
    (hs : Conserves h s sent wire) (hd : s.Drained) :
    (completionsOf h).Perm ((callsOf h).filterMap (answered api)) := by
  have hsent : sent = [] := List.map_eq_nil_iff.1 (hs.asyncs.symm.trans hd.asyncs)
  have hwire : wire = [] := List.map_eq_nil_iff.1 (hs.onWire.symm.trans hd.wire)
  have hbal := hs.balance
  rw [hsent, hwire, hd.toClient, owed, hd.notices, pending_drained hs.server.order hd.deque] at hbal
  simpa using hbal

section Steps

variable {h e : List (LinkEvent A api)} {s t : Link A api} {sent wire : List (Command A)}

/-- What holds in every run: what is under way is conserved, and the server goes on. -/
def Moving (h : List (LinkEvent A api)) (s : Link A api) : Prop :=
  (∃ sent wire, Conserves h s sent wire) ∧ Going s.conn (serverOf h) s.server

theorem moving_new (x : CanXfs A api) (conn : Addr) : Moving [] (Link.new x conn) := by
  refine ⟨⟨[], [], conserves_new x conn⟩, ⟨fun _ => ⟨rfl, rfl, rfl⟩, ?_⟩⟩
  intro n hn
  cases hn

/-- A call brings one command at most. -/
theorem call_left (hs : Conserves h s sent wire) (c : SpiCall) {env : CallEnv}
    (hrun : env.run = 0 ∧ env.active = s.client.ipc.active) :
    Link.left { s with client := (c.invoke A api s.client env).1 } ≤ s.left + 12 := by
  obtain ⟨m, -, hsucc, hfail⟩ := invoke_sent A api hs.client ⟨hrun.1, hrun.2.trans hs.client.active⟩ c
  have hsent : ∃ service bufs, (c.invoke A api s.client env).1 =
      { s.client with service := service, asyncs := s.client.asyncs ++ bufs } ∧ bufs.length ≤ 1 := by
    by_cases hr : (c.invoke A api s.client env).2 = api.wfsSuccess
    · obtain ⟨service, hc⟩ := hsucc hr
      refine ⟨service, _, hc, ?_⟩
      split <;> simp
    · obtain ⟨service, hc⟩ := hfail hr
      exact ⟨service, _, hc, Nat.zero_le _⟩
  obtain ⟨service, bufs, hc, hlen⟩ := hsent
  rw [hc]
  simp only [Link.left, List.length_append]
  omega

/-- A step of the server on the link. -/
theorem server_left {work gain : Nat} {u : CanIPCServer A api} {eu : List (Event A)} (s : Link A api)
    (ha : Advances s.conn (serverOf h) s.server work gain eu u) :
    Going s.conn (serverOf (h ++ (eu.map .server : List (LinkEvent A api)))) u ∧
      work + Link.left { s with server := u, toClient := s.toClient ++ (on Link.id (wroteOf eu)).map Notice.buf } ≤
        s.left + gain := by
  obtain ⟨-, -, hserver⟩ := ofServer api eu
  have hleft := ha.left
  constructor
  · rw [serverOf_append, hserver]
    exact ha.going
  · simp only [Link.left, written, List.length_append] at hleft ⊢
    omega

theorem moving_step {i : LinkInput} (hs : Moving h s) (hi : Allocates i)
    (hstep : (linkMachine A api).step s i = some (t, e)) :
    Moving (h ++ e) t ∧ s.work i + t.left ≤ s.left + i.brings := by
  obtain ⟨hc, hg⟩ := hs
  have hconserves := conserves_step hc hi hstep
  obtain ⟨sent, wire, hc⟩ := hc
  simp only [linkMachine, Link.step] at hstep
  rw [if_neg (not_not.2 hc.fault)] at hstep
  have hquiet : ∀ e' : List (LinkEvent A api), serverOf e' = [] → Going s.conn (serverOf (h ++ e')) s.server := by
    intro e' he
    rw [serverOf_append, he, List.append_nil]
    exact hg
  have hserver : ∀ k work gain, s.serverStep k = some (t, e) →
      (∀ u eu, (serverMachine A api).step s.server k = some (u, eu) →
        Advances s.conn (serverOf h) s.server work gain eu u) →
      Moving (h ++ e) t ∧ work + t.left ≤ s.left + gain := by
    intro k work gain hstep hadv
    obtain ⟨⟨u, eu⟩, hu, heq⟩ := Option.map_eq_some_iff.1 hstep
    cases heq
    obtain ⟨hgoing, hleft⟩ := server_left s (hadv u eu hu)
    exact ⟨⟨hconserves, hgoing⟩, hleft⟩
  cases i with
  | call c env =>
    obtain ⟨hrun, hstep⟩ := Option.ite_none_right_eq_some.1 hstep
    cases hstep
    refine ⟨⟨hconserves, hquiet _ rfl⟩, ?_⟩
    have hleft := call_left hc c hrun
    simp only [Link.work, LinkInput.brings, Nat.zero_add]
    exact hleft
  | sendCmd i =>
    obtain ⟨data, hdata, hstep⟩ := Option.map_eq_some_iff.1 hstep
    cases hstep
    refine ⟨⟨hconserves, hquiet _ rfl⟩, ?_⟩
    obtain ⟨hlt, -⟩ := List.getElem?_eq_some_iff.1 hdata
    simp only [Link.work, LinkInput.brings, Link.left, CanIPC.write, hc.client.active, if_true,
      List.length_eraseIdx_of_lt hlt, List.length_append, List.length_singleton]
    omega
  | serverRead now =>
    simp only at hstep
    split at hstep
    · cases hstep
    rename_i chunk rest hwire
    have hlen : s.client.ipc.wire.length = rest.length + 1 := by rw [hwire, List.length_cons]
    have hmap := hc.onWire
    rw [hwire] at hmap
    obtain ⟨m, wire', -, rfl, -⟩ := List.map_eq_cons_iff.1 hmap.symm
    obtain ⟨⟨u, eu⟩, hu, heq⟩ := Option.map_eq_some_iff.1 hstep
    cases heq
    obtain ⟨hgoing, hleft⟩ := server_left (s.readWire rest) (advances_read hg m hu)
    refine ⟨⟨hconserves, hgoing⟩, ?_⟩
    simp only [Link.work, LinkInput.brings, Link.left, Link.readWire] at hleft ⊢
    omega
  | clientRead mem =>
    simp only at hstep
    split at hstep
    · cases hstep
    rename_i chunk rest hread
    have hmem : mem = true := hi
    subst hmem
    obtain ⟨service, posts, hok, -⟩ := hc.client_read hread
    rw [hok] at hstep
    cases hstep
    refine ⟨⟨hconserves, hquiet _ ?_⟩, ?_⟩
    · rw [serverOf, List.filterMap_map, List.filterMap_eq_nil_iff]
      intro _ _
      rfl
    · simp only [Link.work, LinkInput.brings, Link.left, hread, List.length_cons]
      omega
  | notify i => exact hserver _ 1 0 hstep fun u eu hu => advances_notify hc.server hg hu
  | written i => exact hserver _ 1 0 hstep fun u eu hu => advances_written hc.server hg hu
  | run now => exact hserver _ _ 0 hstep fun u eu hu => advances_run hc.server hg hu
  | idle now online =>
    exact hserver _ 0 3 hstep fun u eu hu =>
      advances_event hc.server hg (j := .idle now online) rfl ⟨by simp, by simp⟩ hu
  | itemCheck now =>
    exact hserver _ 0 3 hstep fun u eu hu => advances_event hc.server hg (j := .itemCheck now) rfl ⟨by simp, by simp⟩ hu
  | loopExit => exact hserver _ 0 0 hstep fun u eu hu => advances_loopExit hg hu

theorem serializeCmd_ne_nil (m : Command A) : serializeCmd m ≠ [] := by
  intro hnil
  have hget := readCmd_put m.built []
  rw [List.append_nil, show m.obj.put = [] from hnil] at hget
  have hheader : (AnWfpHeader.codec A).get [] = none := by
    have hskip := (AnWfpHeader.codec A).get_skip []
    rw [show skip (AnWfpHeader.codec A).layout [] = none by cases A <;> rfl] at hskip
    exact Option.map_eq_none_iff.1 hskip
  rw [readCmd, hheader] at hget
  cases hget

/-- Where nothing of the work can be done and the server was not told to exit, nothing is under way. -/
theorem drained_of_done (hs : Moving h s) (hexit : exitCount (serverOf h) = 0)
    (hdone : (linkMachine A api).Done (fun s i => 0 < s.work i) s) : s.Drained ∧ s.server.writes = [] := by
  obtain ⟨⟨sent, wire, hc⟩, hg⟩ := hs
  obtain ⟨hf, -, hx⟩ := hg.goes hexit
  have hexec : s.server.exec.fault = none := by
    obtain ⟨served, waiting, o⟩ := hc.server.order
    exact o.fault
  have halive : s.server.alive = true := by
    simp [CanIPCServer.alive, hf, hexec]
  have hstep : ∀ i, 0 < s.work i → s.step i = none := hdone
  have hserver : ∀ i k, i.server? = some k → 0 < s.work i → s.server.step k = none := by
    intro i k hik hw
    have hnone := hstep i hw
    unfold Link.step at hnone
    rw [if_neg (not_not.2 hc.fault)] at hnone
    cases i with
    | notify | written | run =>
      cases hik
      exact Option.map_eq_none_iff.1 hnone
    | call | idle | itemCheck | loopExit => exact absurd hw (Nat.lt_irrefl 0)
    | sendCmd | serverRead | clientRead => cases hik
  have hnotices : s.server.asyncs = [] := by
    by_contra hne
    obtain ⟨n, rest, hcons⟩ := List.exists_cons_of_ne_nil hne
    have hnone := hserver (.notify 0) _ rfl Nat.one_pos
    simp [CanIPCServer.step, halive, hx, Input.exec?, CanIPCServer.loopStep, hcons] at hnone
  have hwrites : s.server.writes = [] := by
    by_contra hne
    obtain ⟨w, rest, hcons⟩ := List.exists_cons_of_ne_nil hne
    have hnone := hserver (.written 0) _ rfl Nat.one_pos
    simp [CanIPCServer.step, halive, hx, Input.exec?, CanIPCServer.loopStep, hcons] at hnone
  have hdeque : s.server.exec.deque = [] := by
    by_contra hne
    have hbusy : busy s.server.exec = true := by simp [busy, hne]
    have hnone := hserver (.run midnight) _ rfl (by simp [Link.work, hbusy])
    simp [CanIPCServer.step, halive, Input.exec?, CanIPCServer.execStep, Executer.step, hexec] at hnone
  have hasyncs : s.client.asyncs = [] := by
    by_contra hne
    obtain ⟨data, rest, hcons⟩ := List.exists_cons_of_ne_nil hne
    have hnone := hstep (.sendCmd 0) Nat.one_pos
    simp [Link.step, hc.fault, hcons] at hnone
  have htoClient : s.toClient = [] := by
    by_contra hne
    obtain ⟨chunk, rest, hcons⟩ := List.exists_cons_of_ne_nil hne
    obtain ⟨service, posts, hok, -⟩ := hc.client_read hcons
    have hnone := hstep (.clientRead true) Nat.one_pos
    simp [Link.step, hc.fault, hcons, hok] at hnone
  have hwire : s.client.ipc.wire = [] := by
    by_contra hne
    obtain ⟨chunk, rest, hcons⟩ := List.exists_cons_of_ne_nil hne
    have hchunk : chunk ≠ [] := by
      have hmap := hc.onWire
      rw [hcons] at hmap
      obtain ⟨m, wire', -, rfl, -⟩ := List.map_eq_cons_iff.1 hmap.symm
      exact serializeCmd_ne_nil m
    have hnone := hstep (.serverRead midnight) Nat.one_pos
    simp [Link.step, hc.fault, hcons, Link.serverStep, Link.readWire, CanIPCServer.step, halive, hx, Input.exec?,
      CanIPCServer.loopStep, hc.server.mem, hchunk] at hnone
  exact ⟨⟨hasyncs, hwire, hdeque, hnotices, htoClient⟩, hwrites⟩

end Steps

/-- In every run of the link, where the XFS manager has memory: all the steps of the work, in whatever order they are
made, and those still left are no more than what the inputs brought in, twelve for a call and three for an event. Where
nothing of the work can be done any more and the server was not told to exit, nothing is under way, and the completions
posted are the answers to the calls that were sent, each exactly once. -/
theorem requests_answered {x : CanXfs A api} {conn : Addr} {is : List LinkInput} {s : Link A api}
    {es : List (LinkEvent A api)} (hmem : ∀ i ∈ is, Allocates i)
    (hr : (linkMachine A api).run (Link.new x conn) is = some (s, es)) :
    (linkMachine A api).cost Link.work (Link.new x conn) is + s.left ≤ (is.map LinkInput.brings).sum ∧
    ((linkMachine A api).Done (fun s i => 0 < s.work i) s → exitCount (serverOf es) = 0 →
      s.Drained ∧ s.server.writes = [] ∧ (completionsOf es).Perm ((callsOf es).filterMap (answered api))) := by
  obtain ⟨hs, hle⟩ := Machine.run_amortised (M := linkMachine A api) (G := Allocates) (I := Moving) (c := Link.work)
    (g := LinkInput.brings) (m := Link.left) (fun h s i t e hs hi hstep => moving_step hs hi hstep)
    (moving_new x conn) hmem hr
  rw [List.nil_append] at hs
  refine ⟨?_, fun hdone hexit => ?_⟩
  · have hnew : (Link.new x conn).left = 0 := rfl
    omega
  · obtain ⟨hd, hwrites⟩ := drained_of_done hs hexit hdone
    obtain ⟨⟨sent, wire, hc⟩, -⟩ := hs
    exact ⟨hd, hwrites, hc.answered_of_drained hd⟩

/-- Where nothing is under way, there is nothing to do. -/
theorem done_of_drained {s : Link A api} (hd : s.Drained) (hw : s.server.writes = [])
    (hb : busy s.server.exec = false) : (linkMachine A api).Done (fun s i => 0 < s.work i) s := by
  intro i hi
  simp only [linkMachine, Link.step]
  split
  · rfl
  cases i with
  | sendCmd i => simp [hd.asyncs]
  | serverRead now => simp [hd.wire]
  | clientRead mem => simp [hd.toClient]
  | notify i =>
    have hnone : s.server.step (.notify i (fun _ => 0) false) = none := by
      simp [CanIPCServer.step, Input.exec?, CanIPCServer.loopStep, hd.notices]
    simp [LinkInput.server?, Link.serverStep, hnone]
  | written i =>
    have hnone : s.server.step (.write i 0) = none := by
      simp [CanIPCServer.step, Input.exec?, CanIPCServer.loopStep, hw]
    simp [LinkInput.server?, Link.serverStep, hnone]
  | run now => simp [Link.work, hb] at hi
  | call | idle | itemCheck | loopExit => exact absurd hi (Nat.lt_irrefl 0)

theorem open_answered : ∃ s es,
    (linkMachine .x86 .documented).run (Link.new .blank 0) (roundTrip openCall) = some (s, es) ∧
    (linkMachine .x86 .documented).cost Link.work (Link.new .blank 0) (roundTrip openCall) + s.left ≤ 12 ∧
    s.Drained ∧ (completionsOf es).Perm [⟨5, 0x401, some (1, 1)⟩] := by
  obtain ⟨s, es, hr, hd, hw, hb, hexit, hcalls⟩ : ∃ s es,
      (linkMachine .x86 .documented).run (Link.new .blank 0) (roundTrip openCall) = some (s, es) ∧ s.Drained ∧
        s.server.writes = [] ∧ busy s.server.exec = false ∧ exitCount (serverOf es) = 0 ∧
        callsOf es = [openCall] := Machine.run_any (by decide +kernel)
  obtain ⟨hcost, hanswers⟩ := requests_answered (by decide +kernel) hr
  obtain ⟨-, -, hposted⟩ := hanswers (done_of_drained hd hw hb) hexit
  rw [hcalls] at hposted
  exact ⟨s, es, hr, hcost, hd, hposted⟩

end AnXfs.System
