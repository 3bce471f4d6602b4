/-
The client's registry and the server's session table over the link. Each command carries its Open or
Close from the one to the other, and each completion of a Close goes back; so the two never agree while
something is under way. What is conserved: the records of a service are its open sessions, the Opens
that have not reached the server and the closed sessions of which the client has not heard.
-/
import AnXfs.Run.Brackets
import AnXfs.Server.Session
import AnXfs.System.Contract
import AnXfs.System.Lifetime

namespace AnXfs.System

open AnXfs.Wire AnXfs.Pack AnXfs.Data AnXfs.Run AnXfs.Server AnXfs.Client

variable {A : Arch} {api : XfsApi}

/-! ## Begins and ends of sessions -/

/-- What a command does to the sessions of `v`: an Open begins one, a Close ends one. -/
def session (v : HService) (m : AnCmd A) : Option Bool :=
  if m.base.hService = v then
    if m.eType = AnWfpType.wfpOpen.code then some true
    else if m.eType = AnWfpType.wfpClose.code then some false
    else none
  else none

/-- The same for a call. -/
def calledSession (v : HService) (c : SpiCall) : Option Bool :=
  if c.hService = v then
    match c with
    | .wfpOpen .. => some true
    | .wfpClose .. => some false
    | _ => none
  else none

/-- The completion tells that a session of `v` is closed. -/
def Closes (api : XfsApi) (v : HService) (x : Completion) : Prop :=
  x.dwMsg = api.wfsCloseComplete ∧ x.request.map Prod.fst = some v

instance (v : HService) (x : Completion) : Decidable (Closes api v x) := by unfold Closes; infer_instance

/-! ## What is under way -/

/-- The command that bytes hold. -/
def commandOf (A : Arch) (bytes : List UInt8) : Option (AnCmd A) :=
  match readCmd bytes with
  | .ok (m, _) => some m
  | .error _ => none

/-- The commands called and not executed, in order: those that wait in the server, on the wire and on the loop. -/
def commandsUnderWay (h : List (LinkEvent A api)) (s : Link A api) : List (AnCmd A) :=
  pendingOf (execOf (serverOf h)) ++ (s.client.ipc.wire ++ s.client.asyncs).filterMap (commandOf A)

/-- The completions not posted: of the notices not delivered and the messages not read. -/
def answersUnderWay (s : Link A api) : List Completion :=
  (s.server.asyncs.map Notice.buf ++ s.toClient).filterMap (ofBuf A api)

/-! ## The conditions -/

/-- No Lock, Unlock, Cancel or SetTraceLevel, no Execute and no GetInfo with the code of a Close, and no service is
closed more often than it was opened. -/
def WellUsed (api : XfsApi) (calls : List SpiCall) : Prop :=
  ∀ c ∈ calls, ¬ MisroutedCall c ∧ ¬ CloseCoded api c ∧ Nested (calls.filterMap (calledSession c.hService))

instance (calls : List SpiCall) : Decidable (WellUsed api calls) := by unfold WellUsed; infer_instance

/-- The messages of the loop arrive: each can be sent, and those of one service are handled in their order. There is
memory for what is posted. -/
def Orderly (s : Link A api) : LinkInput → Prop
  | .call _ env => env.uvAsyncSend = 0
  | .sendCmd i => ∀ b ∈ s.client.asyncs.take i,
      (commandOf A b).map (fun m => m.base.hService) ≠
        ((s.client.asyncs[i]?).bind (commandOf A)).map fun m => m.base.hService
  | .clientRead mem => mem = true
  | _ => True

instance (s : Link A api) (i : LinkInput) : Decidable (Orderly s i) := by unfold Orderly; split <;> infer_instance

theorem Orderly.allocates {s : Link A api} {i : LinkInput} (h : Orderly s i) : Allocates i := by
  cases i with
  | clientRead mem => exact h
  | _ => trivial

theorem WellUsed.of_append {l r : List SpiCall} (h : WellUsed api (l ++ r)) : WellUsed api l := by
  intro c hc
  obtain ⟨h1, h2, hn⟩ := h c (List.mem_append_left r hc)
  rw [List.filterMap_append] at hn
  exact ⟨h1, h2, hn.of_append⟩

/-- The order of Opens and Closes holds of every service, called or not. -/
theorem WellUsed.nested {calls : List SpiCall} (h : WellUsed api calls) (v : HService) :
    Nested (calls.filterMap (calledSession v)) := by
  by_cases hv : ∃ c ∈ calls, c.hService = v
  · obtain ⟨c, hc, rfl⟩ := hv
    exact (h c hc).2.2
  · have hnil : calls.filterMap (calledSession v) = [] := by
      rw [List.filterMap_eq_nil_iff]
      intro c hc
      unfold calledSession
      rw [if_neg fun hcv => hv ⟨c, hc, hcv⟩]
    rw [hnil]
    decide

/-! ## Commands that keep to their type -/

/-- The types whose commands are answered as what they are. -/
def routed : List AnWfpType := [.wfpClose, .wfpDeregister, .wfpExecute, .wfpGetInfo, .wfpOpen, .wfpRegister]

/-- The command is answered as what it is, and has no code of a Close in its parameters. -/
structure Plain (api : XfsApi) (m : AnCmd A) : Prop where
  typed : ∃ t ∈ routed, m.eType = t.code
  execute : m.eType = AnWfpType.wfpExecute.code → ∃ r, m = .wfpExecute r ∧ r.dwCommand ≠ api.wfsCloseComplete
  getInfo : m.eType = AnWfpType.wfpGetInfo.code → ∃ r, m = .wfpGetInfo r ∧ r.dwCategory ≠ api.wfsCloseComplete

theorem Plain.not_misrouted {m : AnCmd A} (hm : Plain api m) : ¬ Misrouted m := by
  obtain ⟨t, ht, htype⟩ := hm.typed
  unfold Misrouted
  rw [htype]
  rintro (h | h | h | h)
  all_goals
    rw [AnWfpType.code_injective h] at ht
    revert ht
    decide

/-- A mark changes nothing about that. -/
theorem Plain.unmarked {m n : AnCmd A} (hm : Plain api m) (h : unmarked n = unmarked m) : Plain api n := by
  obtain ⟨htype, -⟩ := unmarked_base h
  constructor
  · obtain ⟨t, ht, hm⟩ := hm.typed
    exact ⟨t, ht, htype.trans hm⟩
  · intro hn
    obtain ⟨r, rfl, hr⟩ := hm.execute (htype.symm.trans hn)
    cases n with
    | wfpExecute r' =>
      refine ⟨r', rfl, fun hc => hr ?_⟩
      rw [← hc]
      exact (congrArg AnWfpExecute.dwCommand (AnCmd.wfpExecute.inj h)).symm
    | _ => cases h
  · intro hn
    obtain ⟨r, rfl, hr⟩ := hm.getInfo (htype.symm.trans hn)
    cases n with
    | wfpGetInfo r' =>
      refine ⟨r', rfl, fun hc => hr ?_⟩
      rw [← hc]
      exact (congrArg AnWfpGetInfo.dwCategory (AnCmd.wfpGetInfo.inj h)).symm
    | _ => cases h

theorem command_eType (c : SpiCall) (env : CallEnv) : (c.command A api env).obj.eType = c.type.code := by
  cases c <;> rfl

/-- The command of a call that is not misrouted and not coded as a Close. -/
theorem command_plain {c : SpiCall} (hm : ¬ MisroutedCall c) (hc : ¬ CloseCoded api c) (env : CallEnv) :
    Plain api (c.command A api env).obj := by
  have htype := @command_eType A api c env
  constructor
  · refine ⟨c.type, ?_, htype⟩
    cases c with
    | wfpCancelAsyncRequest | wfpLock | wfpSetTraceLevel | wfpUnlock =>
      exact absurd (by simp [MisroutedCall, SpiCall.type]) hm
    | wfpClose | wfpDeregister | wfpExecute | wfpGetInfo | wfpOpen | wfpRegister => simp [routed, SpiCall.type]
  · intro h
    have hx : c.type = .wfpExecute := AnWfpType.code_injective (htype.symm.trans h)
    cases c with
    | wfpExecute => exact ⟨_, rfl, hc⟩
    | _ => cases hx
  · intro h
    have hx : c.type = .wfpGetInfo := AnWfpType.code_injective (htype.symm.trans h)
    cases c with
    | wfpGetInfo => exact ⟨_, rfl, hc⟩
    | _ => cases hx

/-- The command of a call begins and ends what the call does. -/
theorem session_command (c : SpiCall) (env : CallEnv) (v : HService) :
    session v (c.command A api env).obj = calledSession v c := by
  cases c <;> rfl

theorem commandOf_serialize (m : Command A) : commandOf A (serializeCmd m) = some m.obj := by
  have h := readCmd_put m.built []
  rw [List.append_nil] at h
  unfold commandOf serializeCmd
  rw [h]

theorem commandOf_serializes (ms : List (Command A)) :
    (ms.map serializeCmd).filterMap (commandOf A) = ms.map fun m => m.obj := by
  rw [List.filterMap_map]
  induction ms with
  | nil => rfl
  | cons m ms ih =>
    rw [List.filterMap_cons, Function.comp_apply, commandOf_serialize, ih]
    rfl

/-! ## Answers that keep to their message -/

/-- A completion carries the code of a Close exactly if it is the completion of one. -/
def Coherent (A : Arch) (api : XfsApi) (buf : List UInt8) : Prop :=
  ∀ r : AnXfsResult A, unserializeResult (AnXfsResult.codec A) buf = some r → anGetXfsmessageClass api r.dwMsg = 0 →
    (r.u = api.wfsCloseComplete ↔ r.dwMsg = api.wfsCloseComplete)

theorem coherent_serialize {r : AnXfsResult A} (h : anGetXfsmessageClass api r.dwMsg = 0 →
    (r.u = api.wfsCloseComplete ↔ r.dwMsg = api.wfsCloseComplete)) :
    Coherent A api (serializeResult (AnXfsResult.codec A) r) := by
  intro r' hr'
  have hr := unserializeResult_serializeResult (AnXfsResult.codec A) r []
  rw [List.append_nil, hr'] at hr
  rw [Option.some.inj hr]
  exact h

/-- No other message is the one of a Close. -/
theorem close_message_ne (api : XfsApi) :
    api.wfsExecuteComplete ≠ api.wfsCloseComplete ∧ api.wfsGetinfoComplete ≠ api.wfsCloseComplete ∧
      api.wfsOpenComplete ≠ api.wfsCloseComplete ∧ api.wfsRegisterComplete ≠ api.wfsCloseComplete ∧
      api.wfsDeregisterComplete ≠ api.wfsCloseComplete := by
  have hnodup := api.messages_nodup
  simp only [List.nodup_cons, List.mem_cons, List.not_mem_nil, or_false, not_or] at hnodup
  obtain ⟨hopen, hclose, -⟩ := hnodup
  refine ⟨?_, ?_, hopen.1, ?_, ?_⟩
  all_goals
    intro h
    simp [h] at hclose

theorem reply_coherent {m : AnCmd A} {t : AnWfpType} {c : CommanderClass} (ht : m.eType = t.code)
    (hc : commander t = some c) (hm : Plain api m) (x : CanXfs A api) (client : Option Addr) (origin : Option ConnId)
    (now : AnSystemtime) : Coherent A api (replyNotice x t c m client origin now).buf := by
  apply coherent_serialize
  intro _
  cases c with
  | anWfpexecuteImpl =>
    -- the code of an Execute is the one it was called with
    have hx : t = .wfpExecute := by cases t <;> first | rfl | cases hc
    subst hx
    obtain ⟨r, rfl, hr⟩ := hm.execute ht
    exact iff_of_false hr (close_message_ne api).1
  | anWfpopenImpl | anWfpcloseImpl | anWfpderegisterImpl | anWfpregisterImpl => exact Iff.rfl

theorem getinfo_coherent {x : CanXfs A api} {m : AnCmd A} {client : Option Addr} {origin : Option ConnId}
    {now : AnSystemtime} {n : Notice} (ht : m.eType = AnWfpType.wfpGetInfo.code) (hm : Plain api m)
    (h : spiGetinfo x m client origin now = .ok n) : Coherent A api n.buf := by
  obtain ⟨-, -, -, req, rfl, hbuf⟩ := spiGetinfo_ok h
  obtain ⟨-, -, -, hmsg, hu, -⟩ := getinfoResult_fields x req now
  obtain ⟨r, heq, hr⟩ := hm.getInfo ht
  cases heq
  rw [hbuf]
  apply coherent_serialize
  intro _
  rw [hu, hmsg]
  exact iff_of_false hr (close_message_ne api).2.1

theorem event_coherent {r : AnXfsResult A} (hr : IsEvent A api r) :
    Coherent A api (Executer.eventNotice r).buf := by
  have hmsg : r.dwMsg = api.wfsServiceEvent ∨ r.dwMsg = api.wfsSystemEvent := by
    cases hr with
    | idle => exact .inr rfl
    | itemCheck => exact .inl rfl
  apply coherent_serialize
  intro hclass
  exact absurd hclass (class_of_event hmsg)

/-! ## What the server does to its sessions -/

/-- The sessions of a service after a command that does `o` to them. -/
def follow (o : Option Bool) (n : Nat) : Nat := o.elim n fun x => tally x n

/-- A plain command that is executed does to the table what it is meant to. -/
theorem sessionStep_session {t : AnWfpType} {m : AnCmd A} (ht : m.eType = t.code) (hm : ¬ Misrouted m) (v : HService)
    (table : List HService) :
    (sessionStep t m.base.hService table).count v = follow (session v m) (table.count v) := by
  rw [(sessionStep_routed ht hm v table).1]
  unfold countSession session follow
  split
  · split
    · rfl
    · split <;> rfl
  · rfl

/-- A step of the server that reads the commands `read`: for each service, the table follows what leaves the commands
that wait, and all answers that come to wait or are written keep to their message. -/
structure Serves (g : List (Event A)) (s : CanIPCServer A api) (read : List (AnCmd A)) (e : List (Event A))
    (t : CanIPCServer A api) : Prop where
  coherent : ∀ b ∈ t.asyncs.map Notice.buf ++ written e, Coherent A api b
  pending : ∀ m ∈ pendingOf (execOf (g ++ e)), m ∈ pendingOf (execOf g) ++ read
  table : ∀ v, ∃ o : Option Bool,
    (pendingOf (execOf g) ++ read).filterMap (session v) =
      o.toList ++ (pendingOf (execOf (g ++ e))).filterMap (session v) ∧
    t.exec.xfs.serviceTable.count v = follow o (s.exec.xfs.serviceTable.count v)

section Server

variable {conn : Addr} {g e : List (Event A)} {s t : CanIPCServer A api}

/-- A step that leaves the commands that wait and the table as they are. -/
theorem Serves.same (hc : ∀ b ∈ t.asyncs.map Notice.buf ++ written e, Coherent A api b)
    (hp : pendingOf (execOf (g ++ e)) = pendingOf (execOf g))
    (ht : t.exec.xfs.serviceTable = s.exec.xfs.serviceTable) : Serves g s [] e t := by
  refine ⟨hc, ?_, fun v => ⟨none, ?_, ?_⟩⟩
  · rw [hp, List.append_nil]
    exact fun m hm => hm
  · rw [hp, List.append_nil]
    rfl
  · rw [ht]
    rfl

theorem serves_quiet (hcoh : ∀ b ∈ s.asyncs.map Notice.buf, Coherent A api b)
    (ha : t.asyncs = s.asyncs) (hx : t.exec.xfs = s.exec.xfs) (he : execOf e = []) (hw : wroteOf e = []) :
    Serves g s [] e t := by
  apply Serves.same
  · intro b hb
    rw [ha, written, hw] at hb
    exact hcoh b (by simpa [on] using hb)
  · rw [execOf_append, he, List.append_nil]
  · rw [hx]

theorem serves_notify (hs : ServerSide conn g s) (hcoh : ∀ b ∈ s.asyncs.map Notice.buf, Coherent A api b) {i : Nat}
    (hstep : (serverMachine A api).step s (.notify i (fun _ => 0) false) = some (t, e)) : Serves g s [] e t := by
  obtain ⟨hf, -, -⟩ := server_acted hstep
  obtain ⟨n, hi, hte⟩ := step_notify hstep
  obtain ⟨-, hclient⟩ := hs.notices n (List.mem_of_getElem? hi)
  obtain ⟨w, e', he', hexec, hwrote⟩ :=
    onNotify_link (s := { s with asyncs := s.asyncs.eraseIdx i }) hf hs.mem hs.vector hclient
  rw [he'] at hte
  cases hte
  apply Serves.same
  · intro b hb
    rcases List.mem_append.1 hb with hb | hb
    · obtain ⟨k, hk, rfl⟩ := List.mem_map.1 hb
      exact hcoh _ (List.mem_map_of_mem (List.mem_of_mem_eraseIdx hk))
    · rw [hwrote] at hb
      rw [List.mem_singleton.1 hb]
      exact hcoh _ (List.mem_map_of_mem (List.mem_of_getElem? hi))
  · rw [execOf_append, hexec, List.append_nil]
  · rfl

theorem serves_exec (hs : ServerSide conn g s) (hcoh : ∀ b ∈ s.asyncs.map Notice.buf, Coherent A api b)
    (hplain : ∀ m ∈ pendingOf (execOf g), Plain api m) {j : ExecInput A} {x : Executer A api} {ex : List (ExecEvent A)}
    (hj : ∀ c o m, j ≠ .push c o m) (hst : Stepped s.exec j x ex) :
    Serves g s [] (ex.map .exec) { s with exec := x, asyncs := s.asyncs ++ noticesOf ex } := by
  have hservable : PushesServable j := by
    cases j with
    | push c o m => exact absurd rfl (hj c o m)
    | _ => trivial
  have horder := ordered_stepped hs.order hservable hst
  obtain ⟨-, -, -, hw⟩ := streams_exec ex
  have hexec : execOf (g ++ ex.map .exec) = execOf g ++ ex := by rw [execOf_append, execOf_map]
  have hcoherent : (∀ n ∈ noticesOf ex, Coherent A api n.buf) →
      ∀ b ∈ (s.asyncs ++ noticesOf ex).map Notice.buf ++ written (ex.map .exec), Coherent A api b := by
    intro hn b hb
    rw [written, hw] at hb
    rcases List.mem_append.1 hb with hb | hb
    · rw [List.map_append] at hb
      rcases List.mem_append.1 hb with hb | hb
      · exact hcoh b hb
      · obtain ⟨n, hmem, rfl⟩ := List.mem_map.1 hb
        exact hn n hmem
    · cases hb
  have hquiet : pushedOf ex = [] → executedOf ex = [] → x.xfs.serviceTable = s.exec.xfs.serviceTable →
      (∀ n ∈ noticesOf ex, Coherent A api n.buf) →
      Serves g s [] (ex.map .exec) { s with exec := x, asyncs := s.asyncs ++ noticesOf ex } := by
    intro hp he hx hn
    apply Serves.same (hcoherent hn) _ hx
    rw [hexec, pending_quiet _ hp he]
  cases hst with
  | pushed c o m => exact absurd rfl (hj c o m)
  | quiet i itemPc => exact hquiet rfl rfl rfl (by simp [noticesOf])
  | broadcast i itemPc r hr =>
    refine hquiet rfl rfl rfl fun n hn => ?_
    rw [List.mem_singleton.1 hn]
    exact event_coherent hr
  | ran now y e hran =>
    cases hran with
    | handled p m t c hpc hp hm ht hc =>
      -- the command is the first that waits, up to its mark
      obtain ⟨q, -, -, hcmd, hpend⟩ := pending_executed horder
      have hq : Plain api q.2 := hplain _ (by rw [hpend]; exact List.mem_cons_self ..)
      have hmplain := hq.unmarked hcmd
      obtain ⟨htype, hservice, -⟩ := unmarked_base hcmd
      refine ⟨hcoherent fun n hn => ?_, fun r hr => ?_, fun v => ⟨session v q.2, ?_, ?_⟩⟩
      · rw [List.mem_singleton.1 hn]
        exact reply_coherent ht hc hmplain _ _ _ _
      · rw [hexec] at hr
        rw [List.append_nil, hpend]
        exact List.mem_cons_of_mem _ hr
      · rw [hexec, List.append_nil, hpend, List.filterMap_cons]
        cases session v q.2 <;> rfl
      · have hsession : session v q.2 = session v m := by
          unfold session
          rw [htype, hservice]
        rw [hsession]
        exact sessionStep_session ht hmplain.not_misrouted v _
    | paused => exact hquiet rfl rfl (pauseItemCheck_serviceTable ..) (by simp [noticesOf])
    | empty | sized | fronted | preProcessed | destroyed | popped | failed =>
      exact hquiet rfl rfl rfl (by simp [noticesOf])

theorem serves_read (hs : ServerSide conn g s) (hcoh : ∀ b ∈ s.asyncs.map Notice.buf, Coherent A api b) (m : Command A)
    (hm : Plain api m.obj) (now : AnSystemtime)
    (hstep : (serverMachine A api).step s (.read conn (serializeCmd m) now) = some (t, e)) :
    Serves g s [m.obj] e t := by
  have hget : readCmd (serializeCmd m) = .ok (m.obj, []) := by
    have := readCmd_put m.built []
    rwa [List.append_nil] at this
  obtain ⟨-, -, ha⟩ := server_acted hstep
  cases ha with
  | readFaulty addr p chunk now f hmem hc hr =>
    rw [hget] at hr
    cases hr
  | readInfo addr p chunk now m' rest n hmem hc hr hg hn =>
    rw [hget] at hr
    cases hr
    have hexec : execOf (g ++ [.read p.id (serializeCmd m), .dispatched p.id m.obj, .posted n, .freed p.id]) =
        execOf g := (execOf_append ..).trans (List.append_nil _)
    refine ⟨fun b hb => ?_, fun k hk => ?_, fun v => ⟨none, ?_, rfl⟩⟩
    · rcases List.mem_append.1 hb with hb | hb
      · rw [List.map_append] at hb
        rcases List.mem_append.1 hb with hb | hb
        · exact hcoh b hb
        · rw [List.map_singleton, List.mem_singleton] at hb
          rw [hb]
          exact getinfo_coherent hg hm hn
      · cases hb
    · rw [hexec] at hk
      exact List.mem_append_left _ hk
    · -- a GetInfo neither begins a session nor ends one
      have hnone : session v m.obj = none := by
        unfold session
        rw [hg]
        split
        · rfl
        · rfl
      rw [hexec, List.filterMap_append, List.filterMap_cons, hnone]
      exact List.append_nil _
  | readCommand addr p chunk now m' rest hmem hc hr hg =>
    rw [hget] at hr
    cases hr
    have hexec : execOf (g ++ (.read p.id (serializeCmd m) :: .dispatched p.id m.obj ::
        (s.exec.pushBackCmdDeque (some conn) (some p.id) m.obj).2.map .exec ++ [.freed p.id])) =
        execOf g ++ [.pushed ⟨some s.exec.brk, some conn, some p.id⟩ m.obj] := execOf_append ..
    refine ⟨fun b hb => ?_, fun k hk => ?_, fun v => ⟨none, ?_, rfl⟩⟩
    · rcases List.mem_append.1 hb with hb | hb
      · exact hcoh b hb
      · cases hb
    · rw [hexec, pending_push hs.order] at hk
      exact hk
    · rw [hexec, pending_push hs.order]
      rfl
  | exec i j x ex hj hst => cases hj

/-- Every step of the server between two reads. -/
theorem serves_step {i : LinkInput} {k : Input} (hs : ServerSide conn g s)
    (hcoh : ∀ b ∈ s.asyncs.map Notice.buf, Coherent A api b) (hplain : ∀ m ∈ pendingOf (execOf g), Plain api m)
    (hi : i.server? = some k) (hstep : (serverMachine A api).step s k = some (t, e)) : Serves g s [] e t := by
  cases i with
  | notify i =>
    cases hi
    exact serves_notify hs hcoh hstep
  | written i =>
    cases hi
    obtain ⟨-, -, ha⟩ := server_acted hstep
    cases ha with
    | writeFailed | written | strayWrite | exits | exitsAgain => exact serves_quiet hcoh rfl rfl rfl rfl
    | exec i j x ex hj hst => cases hj
  | loopExit =>
    cases hi
    obtain ⟨-, -, ha⟩ := server_acted hstep
    cases ha with
    | loopExit => exact serves_quiet hcoh rfl rfl rfl rfl
    | exec i j x ex hj hst => cases hj
  | run | idle | itemCheck =>
    cases hi
    obtain ⟨-, -, ha⟩ := server_acted hstep
    obtain ⟨x, ex, hst, rfl, rfl⟩ := acted_exec ha rfl
    exact serves_exec hs hcoh hplain (by simp) hst
  | call | sendCmd | serverRead | clientRead => cases hi

end Server

/-! ## What a call does to the registry -/

def handlesOf (c : AnCimSp) : List HService := c.service.map CanServiceInfo.hService

/-- A call on a connection that is up: it fails and nothing changes, or its command is handed over, and its service
is registered if it is an Open. -/
theorem invoke_registry (c : AnCimSp) (hc : c.Up) {env : CallEnv} (henv : env.run = 0 ∧ env.active = true)
    (hsend : env.uvAsyncSend = 0) (call : SpiCall) :
    ((call.invoke A api c env).2 ≠ api.wfsSuccess ∧ (call.invoke A api c env).1.asyncs = c.asyncs ∧
      handlesOf (call.invoke A api c env).1 = handlesOf c) ∨
    ((call.invoke A api c env).2 = api.wfsSuccess ∧ (call.sends = true →
      (call.invoke A api c env).1.asyncs = c.asyncs ++ [serializeCmd (call.command A api env)]) ∧
      handlesOf (call.invoke A api c env).1 = handlesOf c ++ if call.type = .wfpOpen then [call.hService] else []) := by
  have hrequest : ∀ (service : CanServiceInfoAdmi) (hr : HResult) (m : Command A),
      service.map CanServiceInfo.hService = handlesOf c →
      let r := AnCimSp.request A api { c with service := service } hr m env
      (r.2 ≠ api.wfsSuccess ∧ r.1.asyncs = c.asyncs ∧ handlesOf r.1 = handlesOf c) ∨
      (r.2 = api.wfsSuccess ∧ r.1.asyncs = c.asyncs ++ [serializeCmd m] ∧ handlesOf r.1 = handlesOf c ++ []) := by
    intro service hr m hservice r
    rw [List.append_nil]
    rcases @request_cases A api { c with service := service } hr m env with
      ⟨h, hq⟩ | ⟨-, hg, -⟩ | ⟨-, -, hp, -⟩ | ⟨h, -, -, hq⟩
    · rw [show r = _ from hq]
      exact .inl ⟨h, rfl, hservice⟩
    · exact absurd (hc.gPipc.symm.trans hg) (by simp)
    · exact absurd ⟨hc.active, hsend⟩ hp
    · rw [show r = _ from hq]
      exact .inr ⟨h, rfl, hservice⟩
  have hmodify : ∀ (f : CanServiceInfo → CanServiceInfo) (s : HService), (∀ ref, (f ref).hService = ref.hService) →
      (CanServiceInfoAdmi.modifyFirst f s c.service).map CanServiceInfo.hService = handlesOf c := by
    intro f s hf
    rw [CanServiceInfoAdmi.modifyFirst_eq, Table.map_key_modify hf]
    rfl
  cases call with
  | wfpCancelAsyncRequest | wfpClose | wfpExecute | wfpGetInfo | wfpLock | wfpSetTraceLevel =>
    rcases hrequest c.service _ _ rfl with h | ⟨h, ha, hh⟩
    · exact .inl h
    · exact .inr ⟨h, fun _ => ha, hh⟩
  | wfpDeregister hService dwEventClass hWndReg hWnd reqId =>
    rcases hrequest _ _ _ (hmodify _ hService (CanServiceInfoAdmi.deregisterRecord_hService dwEventClass)) with
      h | ⟨h, ha, hh⟩
    · exact .inl h
    · exact .inr ⟨h, fun _ => ha, hh⟩
  | wfpRegister hService dwEventClass hWndReg hWnd reqId =>
    rcases hrequest _ _ _ (hmodify _ hService (CanServiceInfoAdmi.registerRecord_hService dwEventClass hWndReg)) with
      h | ⟨h, ha, hh⟩
    · exact .inl h
    · exact .inr ⟨h, fun _ => ha, hh⟩
  | wfpUnlock hService hWnd reqId =>
    by_cases h : c.service.findService api hService = api.wfsSuccess
    · refine .inr ⟨h, fun hs => ?_, (List.append_nil _).symm⟩
      cases hs
    · exact .inl ⟨h, rfl, rfl⟩
  | wfpOpen hService name hApp appId trace timeOut hWnd reqId hProvider spi lpSpi srvc lpSrvc =>
    rcases @wfpOpen_cases A api c hService name hApp appId trace timeOut hWnd reqId hProvider spi lpSpi srvc lpSrvc env
      with ⟨h, hq⟩ | ⟨-, hrun, -⟩ | ⟨-, -, hp, -⟩ | ⟨h, -, -, hq⟩
    · rw [hq]
      exact .inl ⟨h, rfl, rfl⟩
    · exact absurd henv.1 hrun
    · refine absurd ⟨?_, hsend⟩ hp
      simp [AnCimSp.anpcCreateIpc, henv]
    · rw [hq]
      refine .inr ⟨h, fun _ => rfl, ?_⟩
      simp [handlesOf, AnCimSp.anpcCreateIpc, CanServiceInfoAdmi.push, CanServiceInfo.new, SpiCall.type,
        SpiCall.hService]

/-! ## The accounts -/

/-- The sessions of each service as both ends have them: the table shows the Opens and Closes that were called and are
not under way, the registry those that were called and, of the Closes, posted. -/
structure Accounts (h : List (LinkEvent A api)) (s : Link A api) : Prop where
  plain : ∀ m ∈ commandsUnderWay h s, Plain api m
  coherent : ∀ b ∈ s.server.asyncs.map Notice.buf ++ s.toClient, Coherent A api b
  table : ∀ v, ∃ done, (callsOf h).filterMap (calledSession v) =
      done ++ (commandsUnderWay h s).filterMap (session v) ∧ Shows done (s.server.exec.xfs.serviceTable.count v)
  registry : ∀ v, recordsOf s.client v + (completionsOf h).countP (Closes api v) =
    ((callsOf h).filterMap (calledSession v)).count true

theorem accounts_new (x : CanXfs A api) (hx : x.serviceTable = []) (conn : Addr) : Accounts [] (Link.new x conn) := by
  refine ⟨?_, ?_, fun v => ⟨[], rfl, ?_⟩, fun v => rfl⟩
  · intro m hm
    cases hm
  · intro b hb
    cases hb
  · have htable : (Link.new x conn).server.exec.xfs.serviceTable = [] := hx
    rw [htable]
    rfl

/-- The answer to a command tells of a Close exactly if the command ends a session. -/
theorem closes_answer {m : AnCmd A} (hm : Plain api m) (v : HService) :
    Closes api v (answer api m) ↔ session v m = some false := by
  obtain ⟨t, ht, htype⟩ := hm.typed
  obtain ⟨h1, h2, h3, h4, h5⟩ := close_message_ne api
  have hmsg : answerMsg api t = api.wfsCloseComplete ↔ t = .wfpClose := by
    simp only [routed, List.mem_cons, List.not_mem_nil, or_false] at ht
    rcases ht with rfl | rfl | rfl | rfl | rfl | rfl
    all_goals simp [answerMsg, commander, CommanderClass.message, h1, h2, h3, h4, h5]
  have hopen : AnWfpType.wfpClose.code ≠ AnWfpType.wfpOpen.code := by decide
  rw [answer_of_type htype]
  unfold Closes session
  rw [hmsg, htype]
  by_cases hv : m.base.hService = v
  · by_cases hc : t = .wfpClose
    · subst hc
      simp [hv, hopen]
    · have hne : t.code ≠ AnWfpType.wfpClose.code := fun h => hc (AnWfpType.code_injective h)
      simp [hc, hv, hne]
  · simp [hv]

/-- Of each service, as many answers tell of a Close as commands end a session. -/
theorem count_answers {ms : List (AnCmd A)} (hms : ∀ m ∈ ms, Plain api m) (v : HService) :
    (ms.map (answer api)).countP (Closes api v) = (ms.filterMap (session v)).count false := by
  induction ms with
  | nil => rfl
  | cons m ms ih =>
    have hm := closes_answer (hms m (List.mem_cons_self ..)) v
    rw [List.map_cons, List.countP_cons, ih fun n hn => hms n (List.mem_cons_of_mem _ hn), List.filterMap_cons]
    by_cases hs : session v m = some false
    · simp [hs, hm.2 hs]
    · have hc : ¬ Closes api v (answer api m) := fun h => hs (hm.1 h)
      cases ho : session v m with
      | none => simp [hc]
      | some x =>
        cases x with
        | false => exact absurd ho hs
        | true => simp [hc]

/-- The answers to calls that keep to their type are those to their commands. -/
theorem answered_closes {calls : List SpiCall} (h : WellUsed api calls) (v : HService) :
    (calls.filterMap (answered api)).countP (Closes api v) = (calls.filterMap (calledSession v)).count false := by
  let cmd (c : SpiCall) : AnCmd .x86 := (c.command .x86 api ⟨0, 0, 0, true, 0⟩).obj
  have hplain : ∀ m ∈ calls.map cmd, Plain api m := by
    intro m hm
    obtain ⟨c, hc, rfl⟩ := List.mem_map.1 hm
    exact command_plain (h c hc).1 (h c hc).2.1 _
  have hanswered : calls.filterMap (answered api) = (calls.map cmd).map (answer api) := by
    rw [List.map_map, ← List.filterMap_eq_map]
    apply List.filterMap_congr
    intro c hc
    have hmis := (h c hc).1
    cases c with
    | wfpCancelAsyncRequest | wfpLock | wfpSetTraceLevel | wfpUnlock =>
      exact absurd (by simp [MisroutedCall, SpiCall.type]) hmis
    | wfpClose | wfpDeregister | wfpExecute | wfpGetInfo | wfpOpen | wfpRegister => rfl
  have hsession : calls.filterMap (calledSession v) = (calls.map cmd).filterMap (session v) := by
    rw [List.filterMap_map]
    exact List.filterMap_congr fun c _ => (session_command c _ v).symm
  rw [hanswered, hsession]
  exact count_answers hplain v

section Accounts

variable {h : List (LinkEvent A api)} {s : Link A api} {sent wire : List (Command A)}

/-- The answers that are still to come, by where they come from. -/
theorem Conserves.answers (hs : Conserves h s sent wire) (v : HService) :
    (completionsOf h).countP (Closes api v) + (answersUnderWay s).countP (Closes api v) +
      ((commandsUnderWay h s).map (answer api)).countP (Closes api v) =
    ((callsOf h).filterMap (answered api)).countP (Closes api v) := by
  have hcmds : commandsUnderWay h s =
      pendingOf (execOf (serverOf h)) ++ (wire.map (fun m => m.obj) ++ sent.map fun m => m.obj) := by
    unfold commandsUnderWay
    rw [List.filterMap_append, hs.onWire, hs.asyncs, commandOf_serializes, commandOf_serializes]
  rw [← hs.balance.countP_eq, hcmds, answersUnderWay, owed]
  simp only [List.map_append, List.map_map, List.filterMap_append, List.countP_append, Function.comp_def]
  omega

/-- A Close that is answered and not posted is one of a session that is registered. -/
theorem Conserves.closed_le (hs : Conserves h s sent wire) (hu : WellUsed api (callsOf h)) (v : HService) :
    (completionsOf h).countP (Closes api v) + (answersUnderWay s).countP (Closes api v) ≤
      ((callsOf h).filterMap (calledSession v)).count true := by
  have hanswers := hs.answers v
  rw [answered_closes hu v] at hanswers
  have hn := hu.nested v
  rw [← List.append_nil ((callsOf h).filterMap _)] at hn
  have := hn.prefix
  omega

/-- An application makes a call. -/
theorem Accounts.call (hs : Conserves h s sent wire) (ha : Accounts h s) {c : SpiCall} {env : CallEnv}
    (hrun : env.run = 0 ∧ env.active = s.client.ipc.active) (hsend : env.uvAsyncSend = 0)
    (hu : WellUsed api (callsOf (h ++ [.called c (c.invoke A api s.client env).2]))) :
    Accounts (h ++ [.called c (c.invoke A api s.client env).2])
      { s with client := (c.invoke A api s.client env).1 } := by
  have henv : env.run = 0 ∧ env.active = true := ⟨hrun.1, hrun.2.trans hs.client.active⟩
  have hserver : serverOf (h ++ [.called c (c.invoke A api s.client env).2]) = serverOf h :=
    (serverOf_append ..).trans (List.append_nil _)
  have hcomp : completionsOf (h ++ [.called c (c.invoke A api s.client env).2]) = completionsOf h :=
    (completionsOf_append ..).trans (List.append_nil _)
  have hwire : (c.invoke A api s.client env).1.ipc.wire = s.client.ipc.wire := by
    obtain ⟨m, -, hsucc, hfail⟩ := invoke_sent A api hs.client henv c
    by_cases hr : (c.invoke A api s.client env).2 = api.wfsSuccess
    · obtain ⟨service, hc⟩ := hsucc hr
      rw [hc]
    · obtain ⟨service, hc⟩ := hfail hr
      rw [hc]
  rcases @invoke_registry A api s.client hs.client env henv hsend c with ⟨hr, hasync, hh⟩ | ⟨hr, hasync, hh⟩
  · have hcalls : callsOf (h ++ [.called c (c.invoke A api s.client env).2]) = callsOf h := by
      rw [callsOf_append]
      simp [callsOf, hr]
    have hunder : commandsUnderWay (h ++ [.called c (c.invoke A api s.client env).2])
        { s with client := (c.invoke A api s.client env).1 } = commandsUnderWay h s := by
      unfold commandsUnderWay
      rw [hserver, hwire, hasync]
    refine ⟨?_, ha.coherent, fun v => ?_, fun v => ?_⟩
    · rw [hunder]
      exact ha.plain
    · rw [hunder, hcalls]
      exact ha.table v
    · rw [hcalls, hcomp, ← ha.registry v]
      unfold recordsOf
      rw [show (c.invoke A api s.client env).1.service.map CanServiceInfo.hService = _ from hh]
      rfl
  · have hcalls : callsOf (h ++ [.called c (c.invoke A api s.client env).2]) = callsOf h ++ [c] := by
      rw [callsOf_append]
      simp [callsOf, hr]
    rw [hcalls] at hu
    obtain ⟨hmis, hcode, -⟩ := hu c (List.mem_append_right _ (List.mem_singleton_self c))
    have hsends : c.sends = true := by
      cases c with
      | wfpUnlock => exact absurd (by simp [MisroutedCall, SpiCall.type]) hmis
      | _ => rfl
    have hunder : commandsUnderWay (h ++ [.called c (c.invoke A api s.client env).2])
        { s with client := (c.invoke A api s.client env).1 } =
          commandsUnderWay h s ++ [(c.command A api env).obj] := by
      unfold commandsUnderWay
      rw [hserver, hwire, hasync hsends, ← List.append_assoc, List.filterMap_append, List.append_assoc]
      have hone : [serializeCmd (c.command A api env)].filterMap (commandOf A) = [(c.command A api env).obj] := by
        rw [List.filterMap_cons, commandOf_serialize]
        rfl
      rw [hone]
    refine ⟨?_, ha.coherent, fun v => ?_, fun v => ?_⟩
    · intro m hm
      rw [hunder] at hm
      rcases List.mem_append.1 hm with hm | hm
      · exact ha.plain m hm
      · rw [List.mem_singleton.1 hm]
        exact command_plain hmis hcode env
    · obtain ⟨done, hdone, hshows⟩ := ha.table v
      refine ⟨done, ?_, hshows⟩
      have hone : [(c.command A api env).obj].filterMap (session v) = [c].filterMap (calledSession v) := by
        rw [List.filterMap_cons, List.filterMap_cons, session_command]
        cases calledSession v c <;> rfl
      rw [hunder, hcalls, List.filterMap_append, List.filterMap_append, hdone, hone, List.append_assoc]
    · rw [hcalls, hcomp, List.filterMap_append, List.count_append, ← ha.registry v]
      unfold recordsOf
      rw [show (c.invoke A api s.client env).1.service.map CanServiceInfo.hService = _ from hh, List.count_append]
      have hone : (if c.type = .wfpOpen then [c.hService] else []).count v =
          ([c].filterMap (calledSession v)).count true := by
        cases c with
        | wfpOpen hService =>
          by_cases hv : hService = v
          · simp [SpiCall.type, SpiCall.hService, calledSession, hv]
          · simp [SpiCall.type, SpiCall.hService, calledSession, hv]
        | _ =>
          simp only [SpiCall.type, reduceCtorEq, if_false, List.filterMap_cons, calledSession]
          split <;> simp_all
      rw [hone]
      have : handlesOf s.client = s.client.service.map CanServiceInfo.hService := rfl
      rw [this]
      omega

/-- `on_send_cmd` of a command, in its turn. -/
theorem Accounts.sendCmd (hs : Conserves h s sent wire) (ha : Accounts h s) {i : Nat} {data : List UInt8}
    (hi : s.client.asyncs[i]? = some data) (hg : Orderly s (.sendCmd i)) :
    Accounts h { s with
      client := { s.client with asyncs := s.client.asyncs.eraseIdx i, ipc := (s.client.ipc.write data 0).1 } } := by
  have hw : (s.client.ipc.write data 0).1 = { s.client.ipc with wire := s.client.ipc.wire ++ [data] } := by
    simp [CanIPC.write, hs.client.active]
  have hsplit : s.client.asyncs = s.client.asyncs.take i ++ data :: s.client.asyncs.drop (i + 1) := by
    rw [← (List.getElem?_eq_some_iff.1 hi).2, List.cons_getElem_drop_succ, List.take_append_drop]
  have herase : s.client.asyncs.eraseIdx i = s.client.asyncs.take i ++ s.client.asyncs.drop (i + 1) :=
    List.eraseIdx_eq_take_drop_succ ..
  have hperm : (s.client.ipc.wire ++ [data] ++ s.client.asyncs.eraseIdx i).Perm
      (s.client.ipc.wire ++ s.client.asyncs) := by
    rw [List.append_assoc]
    exact (perm_eraseIdx hi).symm.append_left _
  rw [hw]
  refine ⟨fun m hm => ha.plain m ?_, ha.coherent, fun v => ?_, ha.registry⟩
  · unfold commandsUnderWay at hm ⊢
    rw [List.mem_append] at hm ⊢
    exact hm.imp_right (hperm.filterMap (commandOf A)).mem_iff.1
  · obtain ⟨done, hdone, hshows⟩ := ha.table v
    refine ⟨done, hdone.trans (congrArg (done ++ ·) ?_), hshows⟩
    -- what the commands do to the service, in the two orders
    let word (l : List (List UInt8)) : List Bool := (l.filterMap (commandOf A)).filterMap (session v)
    have happend : ∀ l r, word (l ++ r) = word l ++ word r := by
      intro l r
      simp only [word, List.filterMap_append]
    have hcomm : word [data] ++ word (s.client.asyncs.take i) = word (s.client.asyncs.take i) ++ word [data] := by
      cases hd : (commandOf A data).bind (session v) with
      | none =>
        have hnil : word [data] = [] := by
          simp only [word, List.filterMap_filterMap]
          rw [List.filterMap_cons, hd]
          rfl
        rw [hnil, List.nil_append, List.append_nil]
      | some x =>
        obtain ⟨m, hm, hx⟩ := Option.bind_eq_some_iff.1 hd
        have hv : m.base.hService = v := by
          unfold session at hx
          by_contra hne
          rw [if_neg hne] at hx
          cases hx
        have hnil : word (s.client.asyncs.take i) = [] := by
          simp only [word, List.filterMap_eq_nil_iff]
          intro n hn
          obtain ⟨b, hb, hbn⟩ := List.mem_filterMap.1 hn
          have hne := hg b hb
          rw [hi, Option.bind_some, hbn, hm, Option.map_some, Option.map_some] at hne
          unfold session
          rw [if_neg fun hnv => hne (by rw [hnv, hv])]
        rw [hnil, List.nil_append, List.append_nil]
    have hword : word (s.client.ipc.wire ++ s.client.asyncs) =
        word (s.client.ipc.wire ++ [data] ++ s.client.asyncs.eraseIdx i) := by
      rw [herase]
      conv_lhs => rw [hsplit]
      rw [← List.singleton_append]
      simp only [happend, List.append_assoc]
      rw [← List.append_assoc (word [data]), hcomm, List.append_assoc]
    have hunder : ∀ l, (pendingOf (execOf (serverOf h)) ++ l.filterMap (commandOf A)).filterMap (session v) =
        (pendingOf (execOf (serverOf h))).filterMap (session v) ++ word l := fun l => List.filterMap_append ..
    exact (hunder _).trans ((congrArg (List.append _) hword).trans (hunder _).symm)

/-- A step of the server, whatever it reads. -/
theorem Accounts.server_step (ha : Accounts h s) (hu : WellUsed api (callsOf h)) (read : List (AnCmd A))
    {rest : List (List UInt8)} (hwire : s.client.ipc.wire.filterMap (commandOf A) = read ++ rest.filterMap (commandOf A))
    {t : CanIPCServer A api} {e : List (Event A)} (hp : Serves (serverOf h) s.server read e t) :
    Accounts (h ++ e.map .server)
      { s.readWire rest with server := t, toClient := s.toClient ++ written e } := by
  obtain ⟨hcalls, hcomp, hserver⟩ := ofServer api e
  have hhist : serverOf (h ++ e.map .server) = serverOf h ++ e := by rw [serverOf_append, hserver]
  have hold : commandsUnderWay h s = pendingOf (execOf (serverOf h)) ++ read ++
      (rest ++ s.client.asyncs).filterMap (commandOf A) := by
    unfold commandsUnderWay
    rw [List.filterMap_append, List.filterMap_append, hwire]
    simp only [List.append_assoc]
  have hnew : commandsUnderWay (h ++ e.map .server)
      { s.readWire rest with server := t, toClient := s.toClient ++ written e } =
        pendingOf (execOf (serverOf h ++ e)) ++ (rest ++ s.client.asyncs).filterMap (commandOf A) := by
    unfold commandsUnderWay
    rw [hhist]
    rfl
  refine ⟨fun m hm => ha.plain m ?_, fun b hb => ?_, fun v => ?_, fun v => ?_⟩
  · rw [hnew] at hm
    rw [hold]
    rcases List.mem_append.1 hm with hm | hm
    · exact List.mem_append_left _ (hp.pending m hm)
    · exact List.mem_append_right _ hm
  · simp only [List.mem_append] at hb
    rcases hb with hb | hb | hb
    · exact hp.coherent b (List.mem_append_left _ hb)
    · exact ha.coherent b (List.mem_append_right _ hb)
    · exact hp.coherent b (List.mem_append_right _ hb)
  · obtain ⟨done, hdone, hshows⟩ := ha.table v
    obtain ⟨o, ho, hcount⟩ := hp.table v
    have hn := hu.nested v
    rw [callsOf_append, hcalls, List.append_nil, hnew]
    rw [hold, List.filterMap_append, ho, List.append_assoc] at hdone
    refine ⟨done ++ o.toList, ?_, ?_⟩
    · rw [hdone]
      simp only [List.filterMap_append, List.append_assoc]
    · show Shows _ (t.exec.xfs.serviceTable.count v)
      rw [hcount]
      cases o with
      | none =>
        rw [Option.toList_none, List.append_nil]
        exact hshows
      | some x =>
        rw [hdone] at hn
        exact hshows.next hn
  · rw [completionsOf_append, callsOf_append, hcalls, hcomp, List.append_nil, List.append_nil]
    exact ha.registry v

/-- Reading a result is handling it. -/
theorem onClientRead_handler {c : AnCimSp} (hc : c.Up) (r : AnXfsResult A) (mem : Bool) :
    onClientRead A api c (serializeResult (AnXfsResult.codec A) r) mem =
      (xfsResultHandler api c.service r mem).map fun q => ({ c with service := q.1 }, q.2) := by
  have hread : c.ipc.onRead A (serializeResult (AnXfsResult.codec A) r) =
      (c.ipc, [.read (serializeResult (AnXfsResult.codec A) r), .result r, .freed]) := by
    have hget := (AnXfsResult.codec A).get_put r []
    rw [List.append_nil] at hget
    unfold CanIPC.onRead serializeResult
    rw [hget, hc.resultCb]
    rfl
  have hres : resultsOf [.read (serializeResult (AnXfsResult.codec A) r), .result r, .freed] = [r] := rfl
  unfold onClientRead
  simp only [hread, hres, hc.fault]

theorem closeService_handles (service : CanServiceInfoAdmi) (hService : HService) :
    ((service.closeService api hService).1).map CanServiceInfo.hService =
      (service.map CanServiceInfo.hService).erase hService := by
  show (service.eraseP fun ref => ref.hService = hService).map CanServiceInfo.hService = _
  have hkey : (fun ref : CanServiceInfo => decide (ref.hService = hService)) =
      (fun x => hService == x) ∘ CanServiceInfo.hService := by
    funext ref
    rw [Function.comp_apply, Bool.eq_iff_iff, decide_eq_true_eq, beq_iff_eq]
    exact eq_comm
  rw [List.erase_eq_eraseP, List.eraseP_map, hkey]

/-- The result is the completion of a Close of `v`. -/
def EndsSession (api : XfsApi) (v : HService) (r : AnXfsResult A) : Prop :=
  anGetXfsmessageClass api r.dwMsg = 0 ∧ r.u = api.wfsCloseComplete ∧ r.hService = v

instance (v : HService) (r : AnXfsResult A) : Decidable (EndsSession api v r) := by unfold EndsSession; infer_instance

/-- Such a result, and no other, removes a record of the service. -/
theorem handler_count {service service' : CanServiceInfoAdmi} {r : AnXfsResult A} {mem : Bool}
    {posts : List (Message A api)} (h : xfsResultHandler api service r mem = .ok (service', posts)) (v : HService) :
    (service'.map CanServiceInfo.hService).count v =
      (service.map CanServiceInfo.hService).count v - if EndsSession api v r then 1 else 0 := by
  by_cases hclass : anGetXfsmessageClass api r.dwMsg = 0
  · rw [handler_of_class hclass] at h
    cases hp : sendCompletedMessage api [] r mem with
    | error f =>
      rw [hp] at h
      cases h
    | ok q =>
      rw [hp] at h
      obtain ⟨rfl, -⟩ := Prod.mk.inj (Except.ok.inj h)
      by_cases hu : r.u = api.wfsCloseComplete
      · rw [if_pos hu, closeService_handles, List.count_erase]
        by_cases hv : r.hService = v
        · rw [if_pos (beq_iff_eq.2 hv), if_pos ⟨hclass, hu, hv⟩]
        · rw [if_neg fun h => hv (beq_iff_eq.1 h), if_neg fun h => hv h.2.2]
      · rw [if_neg hu, if_neg fun h => hu h.2.1, Nat.sub_zero]
  · have hends : ¬ EndsSession api v r := fun h => hclass h.1
    rw [if_neg hends, Nat.sub_zero]
    rcases handler_service h with rfl | ⟨hc, -, -⟩
    · rfl
    · exact absurd hc hclass

/-- It is posted as what it is. -/
theorem closes_ofResult {r : AnXfsResult A} (hcoh : anGetXfsmessageClass api r.dwMsg = 0 →
    (r.u = api.wfsCloseComplete ↔ r.dwMsg = api.wfsCloseComplete)) (v : HService) :
    (ofResult api r).toList.countP (Closes api v) = if EndsSession api v r then 1 else 0 := by
  unfold ofResult
  by_cases hclass : anGetXfsmessageClass api r.dwMsg = 0
  · have hiff : Closes api v ⟨r.hWnd, r.dwMsg, some (r.hService, r.requestId)⟩ ↔ EndsSession api v r := by
      unfold Closes EndsSession
      rw [hcoh hclass, Option.map_some, Option.some.injEq]
      exact (and_iff_right hclass).symm
    rw [if_pos hclass, Option.toList_some, List.countP_singleton]
    by_cases hends : EndsSession api v r
    · rw [if_pos hends, if_pos (decide_eq_true (hiff.2 hends))]
    · rw [if_neg hends, if_neg fun h => hends (hiff.1 (of_decide_eq_true h))]
  · have hends : ¬ EndsSession api v r := fun h => hclass h.1
    rw [if_neg hclass, if_neg hends]
    rfl

/-- The client reads a message. -/
theorem Accounts.client_read (hs : Conserves h s sent wire) (ha : Accounts h s) (hu : WellUsed api (callsOf h))
    {chunk : List UInt8} {rest : List (List UInt8)} (hread : s.toClient = chunk :: rest)
    {service : CanServiceInfoAdmi} {posts : List (Message A api)}
    (hok : onClientRead A api s.client chunk true = .ok ({ s.client with service := service }, posts)) :
    Accounts (h ++ posts.map .posted) { s with toClient := rest, client := { s.client with service := service } } := by
  obtain ⟨r, rfl, hd⟩ := hs.arrives chunk (by rw [hread]; exact List.mem_cons_self ..)
  obtain ⟨service', posts', hok', hposts⟩ := onClientRead_posts hs.client hd
  obtain ⟨rfl, rfl⟩ : service' = service ∧ posts' = posts := by
    have h := hok'.symm.trans hok
    simp only [Except.ok.injEq, Prod.mk.injEq, AnCimSp.mk.injEq, and_true] at h
    exact h
  have hcomp : completionsOf (posts'.map .posted : List (LinkEvent A api)) = (ofResult api r).toList := by
    rw [completionsOf, List.filterMap_map]
    exact hposts
  have hserver : serverOf (posts'.map .posted : List (LinkEvent A api)) = [] := by
    rw [serverOf, List.filterMap_map, List.filterMap_eq_nil_iff]
    intro _ _
    rfl
  have hcalls : callsOf (posts'.map .posted : List (LinkEvent A api)) = [] := by
    rw [callsOf, List.filterMap_map, List.filterMap_eq_nil_iff]
    intro _ _
    rfl
  have hunder : ∀ c, commandsUnderWay (h ++ posts'.map .posted)
      { s with toClient := rest, client := { s.client with service := c } } = commandsUnderWay h s := by
    intro c
    unfold commandsUnderWay
    rw [serverOf_append, hserver, List.append_nil]
  have hclosed := hs.closed_le hu
  obtain ⟨hplain, hcoherent, htable, hregistry⟩ := ha
  have hcoh := hcoherent (serializeResult (AnXfsResult.codec A) r)
    (by rw [hread]; exact List.mem_append_right _ (List.mem_cons_self ..)) r
    (by simpa using unserializeResult_serializeResult (AnXfsResult.codec A) r [])
  refine ⟨fun m hm => hplain m (hunder _ ▸ hm), fun b hb => ?_, fun v => ?_, fun v => ?_⟩
  · apply hcoherent
    rw [hread]
    rcases List.mem_append.1 hb with hb | hb
    · exact List.mem_append_left _ hb
    · exact List.mem_append_right _ (List.mem_cons_of_mem _ hb)
  · rw [hunder, callsOf_append, hcalls, List.append_nil]
    exact htable v
  · rw [callsOf_append, hcalls, List.append_nil, ← hregistry v, completionsOf_append, hcomp, List.countP_append]
    have hle := hclosed v
    rw [← hregistry v] at hle
    have hanswers : (answersUnderWay s).countP (Closes api v) ≥ (ofResult api r).toList.countP (Closes api v) := by
      have hmem : (ofResult api r).toList.Sublist (answersUnderWay s) := by
        rw [answersUnderWay, hread, List.filterMap_append, List.filterMap_cons, ofBuf_serialize]
        apply List.Sublist.trans _ (List.sublist_append_right ..)
        cases ofResult api r with
        | none => exact List.nil_sublist _
        | some x => exact List.singleton_sublist.2 (List.mem_cons_self ..)
      exact hmem.countP_le
    rw [onClientRead_handler hs.client] at hok'
    cases hx : xfsResultHandler api s.client.service r true with
    | error f =>
      rw [hx] at hok'
      cases hok'
    | ok q =>
      rw [hx] at hok'
      obtain ⟨hq, -⟩ := Prod.mk.inj (Except.ok.inj hok')
      have hcount := handler_count hx v
      have hrec : recordsOf { s.client with service := service' } v = (q.1.map CanServiceInfo.hService).count v := by
        rw [← hq]
        rfl
      have hold : recordsOf s.client v = (s.client.service.map CanServiceInfo.hService).count v := rfl
      show recordsOf { s.client with service := service' } v + _ = _
      rw [closes_ofResult hcoh] at hanswers ⊢
      omega

end Accounts

/-! ## Runs -/

/-- What is conserved, and, as long as the calls are in order, the accounts. -/
def Agrees (h : List (LinkEvent A api)) (s : Link A api) : Prop :=
  (∃ sent wire, Conserves h s sent wire) ∧ (WellUsed api (callsOf h) → Accounts h s)

theorem agrees_step {h : List (LinkEvent A api)} {s t : Link A api} {i : LinkInput} {e : List (LinkEvent A api)}
    (hs : Agrees h s) (hi : Orderly s i) (hstep : (linkMachine A api).step s i = some (t, e)) : Agrees (h ++ e) t := by
  obtain ⟨⟨sent, wire, hc⟩, hacc⟩ := hs
  refine ⟨conserves_step ⟨sent, wire, hc⟩ hi.allocates hstep, fun hu => ?_⟩
  have hold : WellUsed api (callsOf h) := by
    rw [callsOf_append] at hu
    exact hu.of_append
  have ha := hacc hold
  simp only [linkMachine, Link.step] at hstep
  rw [if_neg (not_not.2 hc.fault)] at hstep
  have hserver : ∀ k, i.server? = some k → s.serverStep k = some (t, e) → Accounts (h ++ e) t := by
    intro k hk hstep
    obtain ⟨⟨u, eu⟩, hserves, heq⟩ := Option.map_eq_some_iff.1 hstep
    cases heq
    have hplain : ∀ m ∈ pendingOf (execOf (serverOf h)), Plain api m :=
      fun m hm => ha.plain m (List.mem_append_left _ hm)
    have hcoh : ∀ b ∈ s.server.asyncs.map Notice.buf, Coherent A api b :=
      fun b hb => ha.coherent b (List.mem_append_left _ hb)
    exact ha.server_step hold [] rfl (serves_step hc.server hcoh hplain hk hserves)
  cases i with
  | call c env =>
    simp only at hstep
    split at hstep
    · rename_i hrun
      cases hstep
      exact ha.call hc hrun hi hu
    · cases hstep
  | sendCmd i =>
    obtain ⟨data, hdata, hstep⟩ := Option.map_eq_some_iff.1 hstep
    cases hstep
    rw [List.append_nil]
    exact ha.sendCmd hc hdata hi
  | serverRead now =>
    simp only at hstep
    split at hstep
    · cases hstep
    rename_i chunk rest hwire
    obtain ⟨⟨u, eu⟩, hserves, heq⟩ := Option.map_eq_some_iff.1 hstep
    cases heq
    have honWire := hc.onWire
    rw [hwire] at honWire
    obtain ⟨m, wire', rfl, hm, hrest⟩ := List.map_eq_cons_iff.1 honWire.symm
    subst hm
    have hfirst : s.client.ipc.wire.filterMap (commandOf A) = [m.obj] ++ rest.filterMap (commandOf A) := by
      rw [hwire, List.filterMap_cons, commandOf_serialize]
      rfl
    have hplain : Plain api m.obj := by
      apply ha.plain
      apply List.mem_append_right
      rw [List.filterMap_append, hfirst]
      exact List.mem_cons_self ..
    have hcoh : ∀ b ∈ s.server.asyncs.map Notice.buf, Coherent A api b :=
      fun b hb => ha.coherent b (List.mem_append_left _ hb)
    exact ha.server_step hold [m.obj] hfirst (serves_read hc.server hcoh m hplain now hserves)
  | clientRead mem =>
    simp only at hstep
    split at hstep
    · cases hstep
    rename_i chunk rest hread
    have hmem : mem = true := hi
    subst hmem
    obtain ⟨service, posts, hok, -⟩ := hc.client_read hread
    rw [hok] at hstep
    cases hstep
    exact ha.client_read hc hold hread hok
  | notify | written | run | idle | itemCheck | loopExit =>
    exact hserver _ rfl hstep

/-- In every run of the link in which the messages of the loop are handled in order, and no service is closed more
often than it was opened: the records of each service at the client are its open sessions at the server, the Opens
under way and the Closes whose completion is under way; so that once nothing is under way the two ends agree. -/
theorem sessions_agree {caps : Held A (AnXfsCaps.codec A api)} {status : Held A (AnXfsStatus.codec A api)} {conn : Addr}
    {is : List LinkInput} {s : Link A api} {es : List (LinkEvent A api)}
    (hi : (linkMachine A api).Meets Orderly (Link.new (.new caps status) conn) is)
    (hr : (linkMachine A api).run (Link.new (.new caps status) conn) is = some (s, es))
    (hu : WellUsed api (callsOf es)) (v : HService) :
    recordsOf s.client v = s.server.exec.xfs.serviceTable.count v +
        ((commandsUnderWay es s).filterMap (session v)).count true +
        (answersUnderWay s).countP (Closes api v) ∧
      (s.Drained → recordsOf s.client v = s.server.exec.xfs.serviceTable.count v) := by
  have hstart : Agrees [] (Link.new (.new caps status) conn) :=
    ⟨⟨[], [], conserves_new _ conn⟩, fun _ => accounts_new _ rfl conn⟩
  obtain ⟨⟨sent, wire, hc⟩, hacc⟩ := Machine.run_invariant (M := linkMachine A api) (G := Orderly) (I := Agrees)
    (fun h s i t e hs hi hstep => agrees_step hs hi hstep) is [] _ s es hstart hi hr
  rw [List.nil_append] at hc hacc
  have ha := hacc hu
  have hlaw : recordsOf s.client v = s.server.exec.xfs.serviceTable.count v +
      ((commandsUnderWay es s).filterMap (session v)).count true + (answersUnderWay s).countP (Closes api v) := by
    obtain ⟨done, hdone, hshows⟩ := ha.table v
    have hreg := ha.registry v
    have hanswers := hc.answers v
    rw [answered_closes hu v, count_answers ha.plain v, hdone, List.count_append] at hanswers
    rw [hdone, List.count_append] at hreg
    unfold Shows at hshows
    omega
  refine ⟨hlaw, fun hd => ?_⟩
  have hcmds : commandsUnderWay es s = [] := by
    rw [commandsUnderWay, pending_drained hc.server.order hd.deque, hd.wire, hd.asyncs]
    rfl
  have hanswers : answersUnderWay s = [] := by
    rw [answersUnderWay, hd.notices, hd.toClient]
    rfl
  rw [hlaw, hcmds, hanswers]
  rfl

/-- Service 1 is opened twice and closed once, each call to the end. -/
theorem openOpenClose_agree : ∃ s es, (linkMachine .x86 .documented).run (Link.new .blank 0)
      (roundTrip openCall ++ roundTrip openCall ++ roundTrip (.wfpClose 1 5 2)) = some (s, es) ∧
    recordsOf s.client 1 = 1 ∧ recordsOf s.client 1 = s.server.exec.xfs.serviceTable.count 1 := by
  obtain ⟨s, es, hr, hd, hu, hone⟩ : ∃ s es, (linkMachine .x86 .documented).run (Link.new .blank 0)
      (roundTrip openCall ++ roundTrip openCall ++ roundTrip (.wfpClose 1 5 2)) = some (s, es) ∧
        s.Drained ∧ WellUsed .documented (callsOf es) ∧ recordsOf s.client 1 = 1 := Machine.run_any (by decide +kernel)
  exact ⟨s, es, hr, hone, (sessions_agree (by decide +kernel) hr hu 1).2 hd⟩

end AnXfs.System
