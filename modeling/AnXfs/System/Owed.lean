/-
What the server owes its client: the answers to the commands that wait in the deque, and the
completions among the notices that are not delivered yet. Every step of the server on the idealised
link writes or goes on owing exactly what it owed before, plus the answer to a command it reads.
-/
import AnXfs.System.Link

namespace AnXfs.System

open AnXfs.Wire AnXfs.Pack AnXfs.Run AnXfs.Server AnXfs.Client

variable {A : Arch} {api : XfsApi}

/-! ## Answers -/

/-- The message that a command of type `t` is answered with. -/
def answerMsg (api : XfsApi) (t : AnWfpType) : Dword :=
  if t = .wfpGetInfo then api.wfsGetinfoComplete
  else
    match commander t with
    | some c => c.message api
    | none => 0

/-- The completion that a command causes. -/
def answer (api : XfsApi) (m : AnCmd A) : Completion where
  hWnd := m.base.hWnd
  dwMsg :=
    match AnWfpType.all[m.eType.toNat]? with
    | some t => answerMsg api t
    | none => 0
  request := some (m.base.hService, m.base.reqId)

theorem answer_of_type {m : AnCmd A} {t : AnWfpType} (ht : m.eType = t.code) :
    answer api m = ⟨m.base.hWnd, answerMsg api t, some (m.base.hService, m.base.reqId)⟩ := by
  unfold answer
  rw [ht, all_code]

theorem answer_unmarked {m n : AnCmd A} (h : unmarked m = unmarked n) : answer api m = answer api n := by
  obtain ⟨h1, h2, h3, h4⟩ := unmarked_base h
  unfold answer
  rw [h1, h2, h3, h4]

/-- The completion that a result is posted as; none for an event. -/
def ofResult (api : XfsApi) (r : AnXfsResult A) : Option Completion :=
  if anGetXfsmessageClass api r.dwMsg = 0 then some ⟨r.hWnd, r.dwMsg, some (r.hService, r.requestId)⟩ else none

/-- The same for the bytes of a result. -/
def ofBuf (A : Arch) (api : XfsApi) (buf : List UInt8) : Option Completion :=
  (unserializeResult (AnXfsResult.codec A) buf).bind (ofResult api)

theorem ofBuf_serialize (r : AnXfsResult A) :
    ofBuf A api (serializeResult (AnXfsResult.codec A) r) = ofResult api r := by
  have h := unserializeResult_serializeResult (AnXfsResult.codec A) r []
  rw [List.append_nil] at h
  rw [ofBuf, h]
  rfl

/-- The bytes are a result that the client can handle. -/
def Arrives (A : Arch) (api : XfsApi) (buf : List UInt8) : Prop :=
  ∃ r : AnXfsResult A, buf = serializeResult (AnXfsResult.codec A) r ∧ Decodes api r

theorem message_mem (c : CommanderClass) : c.message api ∈ completions api := by
  cases c <;> simp [CommanderClass.message, completions]

/-- The answer of a commander arrives as the answer to its command. -/
theorem reply_arrives {m : AnCmd A} {t : AnWfpType} {c : CommanderClass} (ht : m.eType = t.code)
    (hc : commander t = some c) (x : CanXfs A api) (client : Option Addr) (origin : Option ConnId)
    (now : AnSystemtime) :
    Arrives A api (replyNotice x t c m client origin now).buf ∧
      ofBuf A api (replyNotice x t c m client origin now).buf = some (answer api m) := by
  have hclass : anGetXfsmessageClass api (c.reply api m now).dwMsg = 0 := class_of_completion (message_mem c)
  constructor
  · refine ⟨c.reply api m now, rfl, fun _ hne => ?_, fun hne => absurd hclass hne⟩
    exact absurd rfl hne
  · have hg : t ≠ .wfpGetInfo := by
      rintro rfl
      cases hc
    have hbuf : (replyNotice x t c m client origin now).buf =
      serializeResult (AnXfsResult.codec A) (c.reply api m now) := rfl
    rw [hbuf, ofBuf_serialize, ofResult, if_pos hclass, answer_of_type ht, answerMsg, if_neg hg, hc]
    rfl

/-- The answer of `spi_getinfo` decodes at the client. -/
theorem getinfo_decodes (x : CanXfs A api) (m : AnWfpGetInfo A) (now : AnSystemtime) :
    Decodes api (getinfoResult x m now) := by
  obtain ⟨-, -, -, hmsg, hu, hbuf⟩ := getinfoResult_fields x m now
  constructor
  · intro _ hne
    rw [hbuf] at hne
    unfold getinfoHandler
    rw [hu, hbuf]
    by_cases hcaps : m.dwCategory = api.wfsInfCimCapabilities
    · rw [if_pos hcaps, if_pos hcaps, decodeAs_buffer]
      exact ⟨_, rfl⟩
    · rw [if_neg hcaps, if_neg hcaps]
      by_cases hstatus : m.dwCategory = api.wfsInfCimStatus
      · rw [if_pos hstatus, if_pos hstatus, decodeAs_buffer]
        exact ⟨_, rfl⟩
      · rw [if_neg hstatus]
        exact ⟨none, rfl⟩
  · intro hne
    rw [hmsg] at hne
    exact absurd (class_of_completion (by simp [completions])) hne

/-- The answer of `spi_getinfo` arrives as the answer to its command. -/
theorem getinfo_arrives {x : CanXfs A api} {m : AnCmd A} {client : Option Addr} {origin : Option ConnId}
    {now : AnSystemtime} {n : Notice} (ht : m.eType = AnWfpType.wfpGetInfo.code)
    (h : spiGetinfo x m client origin now = .ok n) :
    Arrives A api n.buf ∧ ofBuf A api n.buf = some (answer api m) := by
  obtain ⟨-, -, -, req, rfl, hbuf⟩ := spiGetinfo_ok h
  obtain ⟨h1, h2, h3, h4, -, -⟩ := getinfoResult_fields x req now
  refine ⟨⟨_, hbuf, getinfo_decodes x req now⟩, ?_⟩
  have hclass : anGetXfsmessageClass api api.wfsGetinfoComplete = 0 := class_of_completion (by simp [completions])
  rw [hbuf, ofBuf_serialize, ofResult, h4, if_pos hclass, answer_of_type ht, h1, h2, h3]
  rfl

/-- An event arrives, and is no completion. -/
theorem event_arrives {r : AnXfsResult A} (hr : IsEvent A api r) :
    Arrives A api (Executer.eventNotice r).buf ∧ ofBuf A api (Executer.eventNotice r).buf = none := by
  have hmsg : r.dwMsg = api.wfsServiceEvent ∨ r.dwMsg = api.wfsSystemEvent := by
    cases hr with
    | idle => exact .inr rfl
    | itemCheck => exact .inl rfl
  have hclass := class_of_event hmsg
  have hbuf : (Executer.eventNotice r).buf = serializeResult (AnXfsResult.codec A) r := rfl
  rw [hbuf, ofBuf_serialize, ofResult, if_neg hclass]
  refine ⟨⟨r, rfl, fun hg => ?_, fun _ => ?_⟩, rfl⟩
  · rw [hg] at hclass
    exact absurd (class_of_completion (by simp [completions])) hclass
  · unfold eventHandler
    cases hr with
    | idle now online =>
      have hu : (Executer.idleResult A api now online).u = api.wfsSyseDeviceStatus := rfl
      have hb : (Executer.idleResult A api now online).lpBuffer = (Executer.devStatusHeld api A online).buffer := rfl
      rw [hu, hb, if_pos rfl, decodeAs_buffer]
      exact ⟨_, rfl⟩
    | itemCheck now service reqid =>
      have hu : (Executer.itemResult A api now service reqid).u = api.wfsSrveCimItemstaken := rfl
      have hb : (Executer.itemResult A api now service reqid).lpBuffer = (Executer.positionHeld api A).buffer := rfl
      have hkeys := api.events_nodup
      simp only [List.nodup_cons, List.mem_singleton] at hkeys
      rw [hu, hb, if_neg (fun h => hkeys.1 h.symm), if_pos rfl, decodeAs_buffer]
      exact ⟨_, rfl⟩

/-! ## Commands waiting for execution -/

/-- The commands pushed and not executed. -/
def pendingOf (g : List (ExecEvent A)) : List (AnCmd A) := ((pushedOf g).drop (executedOf g).length).map Prod.snd

theorem executed_le {g : List (ExecEvent A)} {x : Executer A api} (ho : Ordered g x) :
    (executedOf g).length ≤ (pushedOf g).length := by
  obtain ⟨served, waiting, o⟩ := ho
  have hlen := o.executed.length_eq
  rw [o.pushed, List.length_append]
  omega

theorem pending_push {g : List (ExecEvent A)} {x : Executer A api} (ho : Ordered g x) (b : AnBuf) (m : AnCmd A) :
    pendingOf (g ++ [.pushed b m]) = pendingOf g ++ [m] := by
  have hp : pushedOf (g ++ [.pushed b m]) = pushedOf g ++ [(b, m)] := List.filterMap_append ..
  have he : executedOf (g ++ [.pushed b m]) = executedOf g := (executedOf_append ..).trans (List.append_nil _)
  unfold pendingOf
  rw [hp, he, List.drop_append_of_le_length (executed_le ho), List.map_append]
  rfl

theorem pending_quiet (g : List (ExecEvent A)) {e : List (ExecEvent A)} (hp : pushedOf e = [])
    (he : executedOf e = []) :
    pendingOf (g ++ e) = pendingOf g := by
  unfold pendingOf
  rw [pushedOf_append, executedOf_append, hp, he, List.append_nil, List.append_nil]

theorem forall₂_last {α β : Type} {R : α → β → Prop} {z : β} : ∀ {l : List α} {r : List β},
    List.Forall₂ R l (r ++ [z]) → ∃ l' q, l = l' ++ [q] ∧ l'.length = r.length ∧ R q z
  | _, [], h => by
    cases h with
    | cons hq h =>
      cases h
      exact ⟨[], _, rfl, rfl, hq⟩
  | _, y :: r, h => by
    cases h with
    | cons hy h =>
      obtain ⟨l', q, rfl, hlen, hq⟩ := forall₂_last h
      exact ⟨_ :: l', q, rfl, congrArg (· + 1) hlen, hq⟩

/-- The command executed is the first of those waiting. -/
theorem pending_executed {g : List (ExecEvent A)} {y : Executer A api} {b : AnBuf} {m : AnCmd A} {n : Notice}
    (ho : Ordered (g ++ [.executed b m, .posted n]) y) :
    ∃ q ∈ pushedOf g, b = q.1 ∧ unmarked m = unmarked q.2 ∧
      pendingOf g = q.2 :: pendingOf (g ++ [.executed b m, .posted n]) := by
  obtain ⟨served, waiting, o⟩ := ho
  have hp : pushedOf (g ++ [.executed b m, .posted n]) = pushedOf g := (pushedOf_append ..).trans (List.append_nil _)
  have he : executedOf (g ++ [.executed b m, .posted n]) = executedOf g ++ [(b, m)] := executedOf_append ..
  have hexec := o.executed
  rw [he] at hexec
  obtain ⟨before, q, rfl, hlen, hbuf, hcmd⟩ := forall₂_last hexec
  have hpushed : pushedOf g = before ++ q :: waiting := by
    rw [← hp, o.pushed, List.append_assoc]; rfl
  refine ⟨q, by rw [hpushed]; simp, hbuf, hcmd, ?_⟩
  unfold pendingOf
  rw [hp, he, hpushed, List.length_append, ← hlen, List.drop_left' rfl]
  have hdrop : (before ++ q :: waiting).drop (before.length + [(b, m)].length) = waiting := by
    rw [← List.drop_drop, List.drop_left' rfl]
    rfl
  rw [hdrop]
  rfl

/-- Where the deque is empty, no command is waiting. -/
theorem pending_drained {g : List (ExecEvent A)} {x : Executer A api} (ho : Ordered g x) (hd : x.deque = []) :
    pendingOf g = [] := by
  obtain ⟨served, waiting, o⟩ := ho
  have hwait : waiting = [] := by
    have h := o.deque
    rw [hd] at h
    exact List.map_eq_nil_iff.1 (List.append_eq_nil_iff.1 h.symm).2
  have hlen := o.executed.length_eq
  unfold pendingOf
  rw [o.pushed, hwait, List.append_nil, ← hlen, List.drop_length]
  rfl

/-! ## The server's side of the link -/

/-- The connection at `conn` is the only one and open, the executor is in order, and all that waits in
the two queues is for that connection and can be handled at its other end. -/
structure ServerSide (conn : Addr) (h : List (Event A)) (s : CanIPCServer A api) : Prop where
  mem : s.mem conn = some ⟨Link.id, false⟩
  vector : s.clientVector = [some conn]
  order : Ordered (execOf h) s.exec
  clients : ∀ q ∈ pushedOf (execOf h), q.1.mClient = some conn
  notices : ∀ n ∈ s.asyncs, Arrives A api n.buf ∧ (n.client = none ∨ n.client = some conn)

/-- The completions that are still to come. -/
def owed (h : List (Event A)) (s : CanIPCServer A api) : List Completion :=
  (s.asyncs.map Notice.buf).filterMap (ofBuf A api) ++ (pendingOf (execOf h)).map (answer api)

/-- The messages written to the client. -/
def written (e : List (Event A)) : List (List UInt8) := (on Link.id (wroteOf e)).map Notice.buf

/-- A step that keeps the server's side in order and writes what it owes or goes on owing it; `read` are the
answers to what it reads. -/
structure Pays (conn : Addr) (h : List (Event A)) (s : CanIPCServer A api) (read : List Completion)
    (e : List (Event A)) (t : CanIPCServer A api) : Prop where
  side : ServerSide conn (h ++ e) t
  arrives : ∀ b ∈ written e, Arrives A api b
  balance : ((written e).filterMap (ofBuf A api) ++ owed (h ++ e) t).Perm (owed h s ++ read)

/-- A step that changes neither the connections nor the queues. -/
theorem ServerSide.quiet {conn : Addr} {h e : List (Event A)} {s t : CanIPCServer A api} (hs : ServerSide conn h s)
    (hm : t.mem = s.mem) (hv : t.clientVector = s.clientVector) (hx : t.exec = s.exec) (ha : t.asyncs = s.asyncs)
    (he : execOf e = []) (hw : wroteOf e = []) : Pays conn h s [] e t := by
  have hexec : execOf (h ++ e) = execOf h := by rw [execOf_append, he, List.append_nil]
  refine ⟨⟨?_, ?_, ?_, ?_, ?_⟩, ?_, ?_⟩
  · rw [hm]; exact hs.mem
  · rw [hv]; exact hs.vector
  · rw [hexec, hx]; exact hs.order
  · rw [hexec]; exact hs.clients
  · rw [ha]; exact hs.notices
  · intro b hb
    rw [written, hw] at hb
    cases hb
  · rw [written, owed, owed, hexec, ha, hw]
    simp [on]

/-- The notice of `on_notify` is written to the one connection, as it is or as a clone. -/
theorem onNotify_link {s : CanIPCServer A api} {conn : Addr} {n : Notice} (hf : s.fault = none)
    (hm : s.mem conn = some ⟨Link.id, false⟩) (hv : s.clientVector = [some conn])
    (hn : n.client = none ∨ n.client = some conn) :
    ∃ w e, s.onNotify n (fun _ => 0) false = ({ s with writes := s.writes ++ [w] }, e) ∧
      execOf e = [] ∧ written e = [n.buf] := by
  unfold CanIPCServer.onNotify
  rcases hn with hn | hn
  · have hw := sendNotify_written (CanIPCServer.clone n) (fun _ => 0) false hm rfl rfl
    have hb : CanIPCServer.broadcastNotify n (fun _ => 0) false s [some conn] =
        ({ s with writes := s.writes ++ [⟨conn, CanIPCServer.clone n⟩] },
          [.cloned (CanIPCServer.clone n), .touched conn (some Link.id) (CanIPCServer.clone n),
            .uvWrite conn (some Link.id) (CanIPCServer.clone n), .wrote Link.id (CanIPCServer.clone n)]) := by
      unfold CanIPCServer.broadcastNotify
      simp only [hw, hf, CanIPCServer.broadcastNotify]
      rfl
    simp only [hn, hv, hb]
    exact ⟨⟨conn, CanIPCServer.clone n⟩, _, rfl, rfl, rfl⟩
  · have hw := sendNotify_written n (fun _ => 0) false hm rfl rfl
    simp only [hn, hw]
    exact ⟨⟨conn, n⟩, _, rfl, rfl, rfl⟩

/-- A notice is delivered. -/
theorem pays_notify {conn : Addr} {h e : List (Event A)} {s t : CanIPCServer A api} (hs : ServerSide conn h s) {i : Nat}
    (hstep : (serverMachine A api).step s (.notify i (fun _ => 0) false) = some (t, e)) : Pays conn h s [] e t := by
  obtain ⟨hf, -, -⟩ := server_acted hstep
  obtain ⟨n, hi, hte⟩ := step_notify hstep
  have hmem : n ∈ s.asyncs := List.mem_of_getElem? hi
  obtain ⟨harr, hclient⟩ := hs.notices n hmem
  obtain ⟨w, e', he', hexec, hwrote⟩ :=
    onNotify_link (s := { s with asyncs := s.asyncs.eraseIdx i }) hf hs.mem hs.vector hclient
  rw [he'] at hte
  cases hte
  have hhist : execOf (h ++ e) = execOf h := by rw [execOf_append, hexec, List.append_nil]
  refine ⟨⟨hs.mem, hs.vector, ?_, ?_, fun k hk => hs.notices k (List.mem_of_mem_eraseIdx hk)⟩, ?_, ?_⟩
  · rw [hhist]; exact hs.order
  · rw [hhist]; exact hs.clients
  · intro b hb
    rw [hwrote] at hb
    rw [List.mem_singleton.1 hb]
    exact harr
  · have hperm := ((perm_eraseIdx hi).map Notice.buf).filterMap (ofBuf A api)
    rw [owed, owed, hhist, hwrote]
    show ([n.buf].filterMap (ofBuf A api) ++
      (((s.asyncs.eraseIdx i).map Notice.buf).filterMap (ofBuf A api) ++ _)).Perm _
    rw [← List.append_assoc, ← List.filterMap_append]
    rw [List.append_nil]
    exact (hperm.symm).append_right _

/-- A command of the SPI has a commander, unless it is a GetInfo. -/
theorem command_slot (m : Command A) (hg : m.obj.eType ≠ AnWfpType.wfpGetInfo.code) : HasSlot m.obj := by
  obtain ⟨t, ht, hclass⟩ := m.built.class
  have hsent := m.sent
  have hne : t ≠ .wfpUnknow ∧ t ≠ .wfpUnloadService := by
    constructor
    · rintro rfl
      rw [hclass] at hsent
      cases hsent
    · rintro rfl
      rw [hclass] at hsent
      cases hsent
  obtain ⟨c, hc⟩ := (commander_isSome t).2 ⟨hne.1, hne.2, fun h => hg (by rw [ht, h])⟩
  exact ⟨t, c, ht, hc⟩

/-- A command is read: its answer is owed from now on. -/
theorem pays_read {conn : Addr} {h e : List (Event A)} {s t : CanIPCServer A api} (hs : ServerSide conn h s)
    (m : Command A) (now : AnSystemtime)
    (hstep : (serverMachine A api).step s (.read conn (serializeCmd m) now) = some (t, e)) :
    Pays conn h s [answer api m.obj] e t := by
  have hget : readCmd (serializeCmd m) = .ok (m.obj, []) := by
    have := readCmd_put m.built []
    rwa [List.append_nil] at this
  obtain ⟨-, -, ha⟩ := server_acted hstep
  cases ha with
  | readFaulty addr p chunk now f hm hc hr =>
    rw [hget] at hr
    cases hr
  | readInfo addr p chunk now m' rest n hm hc hr hg hn =>
    rw [hget] at hr
    cases hr
    have hp : p = ⟨Link.id, false⟩ := Option.some.inj (hm.symm.trans hs.mem)
    subst hp
    -- a GetInfo is answered at once, and its answer waits for delivery
    obtain ⟨harr, hbuf⟩ := getinfo_arrives hg hn
    obtain ⟨hclient, -⟩ := spiGetinfo_ok hn
    have hexec : execOf (h ++ [.read Link.id (serializeCmd m), .dispatched Link.id m.obj, .posted n, .freed Link.id]) =
        execOf h := (execOf_append ..).trans (List.append_nil _)
    refine ⟨⟨hs.mem, hs.vector, ?_, ?_, fun k hk => ?_⟩, fun b hb => (by cases hb), ?_⟩
    · rw [hexec]; exact hs.order
    · rw [hexec]; exact hs.clients
    · rcases List.mem_append.1 hk with hk | hk
      · exact hs.notices k hk
      · rw [List.mem_singleton.1 hk]
        exact ⟨harr, .inr hclient⟩
    · rw [owed, owed, hexec]
      show (((s.asyncs ++ [n]).map Notice.buf).filterMap (ofBuf A api) ++ _).Perm (_ ++ [answer api m.obj])
      rw [List.map_append, List.filterMap_append, List.append_assoc, List.append_assoc]
      have hone : ([n].map Notice.buf).filterMap (ofBuf A api) = [answer api m.obj] := by
        simp [hbuf]
      rw [hone]
      exact List.perm_append_comm.append_left _
  | readCommand addr p chunk now m' rest hm hc hr hg =>
    rw [hget] at hr
    cases hr
    have hp : p = ⟨Link.id, false⟩ := Option.some.inj (hm.symm.trans hs.mem)
    subst hp
    -- any other command joins those that wait for execution
    have hexec : execOf (h ++ (.read Link.id (serializeCmd m) :: .dispatched Link.id m.obj ::
        (s.exec.pushBackCmdDeque (some conn) (some Link.id) m.obj).2.map .exec ++ [.freed Link.id])) =
        execOf h ++ [.pushed ⟨some s.exec.brk, some conn, some Link.id⟩ m.obj] := execOf_append ..
    refine ⟨⟨hs.mem, hs.vector, ?_, ?_, hs.notices⟩, fun b hb => (by cases hb), ?_⟩
    · rw [hexec]
      exact ordered_stepped (i := .push (some conn) (some Link.id) m.obj) hs.order ⟨m.built, command_slot m hg⟩
        (.pushed ..)
    · rw [hexec]
      intro q hq
      rw [pushedOf_append] at hq
      rcases List.mem_append.1 hq with hq | hq
      · exact hs.clients q hq
      · rw [List.mem_singleton.1 hq]
    · rw [owed, owed, hexec, pending_push hs.order, List.map_append]
      exact List.Perm.of_eq (List.append_assoc ((s.asyncs.map Notice.buf).filterMap (ofBuf A api))
        ((pendingOf (execOf h)).map (answer api)) [answer api m.obj]).symm
  | exec i j x ex hj hst => cases hj

/-- A thread of the executor takes a step: a command executed is answered. -/
theorem pays_exec {conn : Addr} {h : List (Event A)} {s : CanIPCServer A api} (hs : ServerSide conn h s)
    {j : ExecInput A} {x : Executer A api} {ex : List (ExecEvent A)} (hj : ∀ c o m, j ≠ .push c o m)
    (hst : Stepped s.exec j x ex) :
    Pays conn h s [] (ex.map .exec) { s with exec := x, asyncs := s.asyncs ++ noticesOf ex } := by
  have hservable : PushesServable j := by
    cases j with
    | push c o m => exact absurd rfl (hj c o m)
    | _ => trivial
  have horder := ordered_stepped hs.order hservable hst
  obtain ⟨-, -, -, hw⟩ := streams_exec ex
  have hexec : execOf (h ++ ex.map .exec) = execOf h ++ ex := by rw [execOf_append, execOf_map]
  -- all steps but the execution of a command leave the commands that wait as they are
  have hquiet : pushedOf ex = [] → executedOf ex = [] →
      (∀ n ∈ noticesOf ex, Arrives A api n.buf ∧ n.client = none ∧ ofBuf A api n.buf = none) →
      Pays conn h s [] (ex.map .exec) { s with exec := x, asyncs := s.asyncs ++ noticesOf ex } := by
    intro hp he hn
    refine ⟨⟨hs.mem, hs.vector, ?_, ?_, fun k hk => ?_⟩, fun b hb => ?_, ?_⟩
    · rw [hexec]; exact horder
    · rw [hexec, pushedOf_append, hp, List.append_nil]; exact hs.clients
    · rcases List.mem_append.1 hk with hk | hk
      · exact hs.notices k hk
      · obtain ⟨harr, hclient, -⟩ := hn k hk
        exact ⟨harr, .inl hclient⟩
    · rw [written, hw] at hb
      cases hb
    · have hnone : ((noticesOf ex).map Notice.buf).filterMap (ofBuf A api) = [] := by
        rw [List.filterMap_eq_nil_iff]
        intro b hb
        obtain ⟨n, hmem, rfl⟩ := List.mem_map.1 hb
        exact (hn n hmem).2.2
      rw [written, hw, owed, owed, hexec, pending_quiet _ hp he]
      simp [on, hnone]
  cases hst with
  | pushed c o m => exact absurd rfl (hj c o m)
  | quiet i itemPc => exact hquiet rfl rfl (by simp [noticesOf])
  | broadcast i itemPc r hr =>
    refine hquiet rfl rfl fun n hn => ?_
    obtain ⟨harr, hnone⟩ := event_arrives hr
    rw [List.mem_singleton.1 hn]
    exact ⟨harr, rfl, hnone⟩
  | ran now y e hran =>
    cases hran with
    | handled p m t c hpc hp hm ht hc =>
      -- the command moves out of the deque, and its answer among the notices
      obtain ⟨q, hq, hbuf, hcmd, hpend⟩ := pending_executed horder
      obtain ⟨harr, hof⟩ := reply_arrives ht hc s.exec.xfs s.exec.currentCmd.mClient s.exec.currentCmd.origin now
      refine ⟨⟨hs.mem, hs.vector, ?_, ?_, fun k hk => ?_⟩, fun b hb => ?_, ?_⟩
      · rw [hexec]; exact horder
      · rw [hexec, pushedOf_append]
        exact fun r hr => hs.clients r ((List.append_nil _).subst hr)
      · rcases List.mem_append.1 hk with hk | hk
        · exact hs.notices k hk
        · rw [List.mem_singleton.1 hk]
          refine ⟨harr, .inr ?_⟩
          show s.exec.currentCmd.mClient = some conn
          rw [hbuf]
          exact hs.clients q hq
      · rw [written, hw] at hb
        cases hb
      · rw [written, hw, owed, owed, hexec, hpend, List.map_cons, ← answer_unmarked hcmd]
        show (((s.asyncs ++ [replyNotice s.exec.xfs t c m s.exec.currentCmd.mClient s.exec.currentCmd.origin now]).map
          Notice.buf).filterMap (ofBuf A api) ++ _).Perm (_ ++ [])
        rw [List.map_append, List.filterMap_append, List.append_assoc, List.append_nil]
        have hone : ([replyNotice s.exec.xfs t c m s.exec.currentCmd.mClient s.exec.currentCmd.origin now].map
            Notice.buf).filterMap (ofBuf A api) = [answer api m] := by
          simp [hof]
        rw [hone]
        exact List.Perm.refl _
    | empty | sized | fronted | preProcessed | paused | destroyed | popped | failed =>
      exact hquiet rfl rfl (by simp [noticesOf])

/-- A write is reported, or the loop has ended. -/
theorem pays_loop {conn : Addr} {h e : List (Event A)} {s t : CanIPCServer A api} {i : Input} (hs : ServerSide conn h s)
    (hi : i = .loopExit ∨ ∃ k, i = .write k 0) (hstep : (serverMachine A api).step s i = some (t, e)) :
    Pays conn h s [] e t := by
  obtain ⟨-, -, ha⟩ := server_acted hstep
  rcases hi with rfl | ⟨k, rfl⟩
  · cases ha with
    | loopExit => exact hs.quiet rfl rfl rfl rfl rfl rfl
    | exec i j x ex hj hst => cases hj
  · cases ha with
    | writeFailed | written | strayWrite | exits | exitsAgain => exact hs.quiet rfl rfl rfl rfl rfl rfl
    | exec i j x ex hj hst => cases hj

/-- Every step of the server between two reads pays. -/
theorem pays_step {conn : Addr} {h e : List (Event A)} {s t : CanIPCServer A api} {i : LinkInput} {k : Input}
    (hs : ServerSide conn h s) (hi : i.server? = some k) (hstep : (serverMachine A api).step s k = some (t, e)) :
    Pays conn h s [] e t := by
  cases i with
  | notify i =>
    cases hi
    exact pays_notify hs hstep
  | written i =>
    cases hi
    exact pays_loop hs (.inr ⟨i, rfl⟩) hstep
  | loopExit =>
    cases hi
    exact pays_loop hs (.inl rfl) hstep
  | run | idle | itemCheck =>
    cases hi
    obtain ⟨-, -, ha⟩ := server_acted hstep
    obtain ⟨x, ex, hst, rfl, rfl⟩ := acted_exec ha rfl
    exact pays_exec hs (by simp) hst
  | call | sendCmd | serverRead | clientRead => cases hi

end AnXfs.System
