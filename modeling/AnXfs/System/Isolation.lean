/-
The contract for many clients that come and go. The deque and the notices of all clients are one list each, and what a
client is owed is its part of them, told by the connection that the commands and the notices carry. Every step of the
server pays to each client that is there what it owed to it, and nothing to another; so that each client is posted the
answers to its own calls, whatever the others do, as long as no new one is accepted at an address that something under
way still names.
-/
import AnXfs.Server.Crash
import AnXfs.System.Contract
import AnXfs.System.Net

namespace AnXfs.System

open AnXfs.Wire AnXfs.Pack AnXfs.Run AnXfs.Server AnXfs.Client

variable {A : Arch} {api : XfsApi}

/-! ## What a client is owed -/

/-- The commands pushed and not executed, with where they came from. -/
def waitingOf (g : List (ExecEvent A)) : List (AnBuf × AnCmd A) := (pushedOf g).drop (executedOf g).length

/-- The entries of one connection. -/
def fromConn (a : Addr) (qs : List (AnBuf × AnCmd A)) : List (AnBuf × AnCmd A) :=
  qs.filter fun q => q.1.mClient = some a

/-- The notices for one connection. -/
def toConn (a : Addr) (ns : List Notice) : List Notice := ns.filter fun n => n.client = some a

/-- The completions that are still to come on the connection at `a`. -/
def owedTo (a : Addr) (h : List (Event A)) (s : CanIPCServer A api) : List Completion :=
  ((toConn a s.asyncs).map Notice.buf).filterMap (ofBuf A api) ++
    (fromConn a (waitingOf (execOf h))).map fun q => answer api q.2

theorem waiting_pushed {g : List (ExecEvent A)} {x : Executer A api} (ho : Ordered g x) (b : AnBuf) (m : AnCmd A) :
    waitingOf (g ++ [.pushed b m]) = waitingOf g ++ [(b, m)] := by
  have hp : pushedOf (g ++ [.pushed b m]) = pushedOf g ++ [(b, m)] := List.filterMap_append ..
  have he : executedOf (g ++ [.pushed b m]) = executedOf g := (executedOf_append ..).trans (List.append_nil _)
  unfold waitingOf
  rw [hp, he, List.drop_append_of_le_length (executed_le ho)]

theorem waiting_quiet (g : List (ExecEvent A)) {e : List (ExecEvent A)} (hp : pushedOf e = [])
    (he : executedOf e = []) : waitingOf (g ++ e) = waitingOf g := by
  unfold waitingOf
  rw [pushedOf_append, executedOf_append, hp, he, List.append_nil, List.append_nil]

/-- The command executed is the first of those waiting. -/
theorem waiting_executed {g : List (ExecEvent A)} {y : Executer A api} {b : AnBuf} {m : AnCmd A} {n : Notice}
    (ho : Ordered (g ++ [.executed b m, .posted n]) y) :
    ∃ m' rest, waitingOf g = (b, m') :: rest ∧ waitingOf (g ++ [.executed b m, .posted n]) = rest ∧
      unmarked m = unmarked m' := by
  obtain ⟨served, waiting, o⟩ := ho
  have hp : pushedOf (g ++ [.executed b m, .posted n]) = pushedOf g := (pushedOf_append ..).trans (List.append_nil _)
  have he : executedOf (g ++ [.executed b m, .posted n]) = executedOf g ++ [(b, m)] := executedOf_append ..
  have hexec := o.executed
  rw [he] at hexec
  obtain ⟨before, q, rfl, hlen, hbuf, hcmd⟩ := forall₂_last hexec
  have hpushed : pushedOf g = before ++ q :: waiting := by
    rw [← hp, o.pushed, List.append_assoc]
    rfl
  refine ⟨q.2, waiting, ?_, ?_, hcmd⟩
  · unfold waitingOf
    rw [hpushed, ← hlen, List.drop_left' rfl]
    exact congrArg (· :: waiting) (Prod.ext hbuf.symm rfl)
  · unfold waitingOf
    rw [hp, he, hpushed, List.length_append, ← hlen, ← List.drop_drop, List.drop_left' rfl]
    rfl

theorem waiting_mem {g : List (ExecEvent A)} {q : AnBuf × AnCmd A} (h : q ∈ waitingOf g) : q ∈ pushedOf g :=
  List.mem_of_mem_drop h

/-- What waits is in the deque. -/
theorem waiting_deque {g : List (ExecEvent A)} {x : Executer A api} (ho : Ordered g x) {q : AnBuf × AnCmd A}
    (hq : q ∈ waitingOf g) : q.1 ∈ x.deque := by
  obtain ⟨served, waiting, o⟩ := ho
  unfold waitingOf at hq
  rw [o.pushed, ← o.executed.length_eq, List.drop_left' rfl] at hq
  rw [o.deque]
  exact List.mem_append_right _ (List.mem_map_of_mem hq)

theorem toConn_append (a : Addr) (ms ns : List Notice) : toConn a (ms ++ ns) = toConn a ms ++ toConn a ns :=
  List.filter_append ..

theorem toConn_self {a : Addr} {n : Notice} (hn : n.client = some a) : toConn a [n] = [n] := by
  simp [toConn, hn]

theorem toConn_other {a : Addr} {n : Notice} (hn : n.client ≠ some a) : toConn a [n] = [] := by
  simp [toConn, hn]

/-- A notice is taken from among those for its connection. -/
theorem toConn_erase {ns : List Notice} {i : Nat} {n : Notice} (hi : ns[i]? = some n) (a : Addr) :
    (toConn a ns).Perm (toConn a [n] ++ toConn a (ns.eraseIdx i)) := by
  have hperm := (perm_eraseIdx hi).filter fun n => n.client = some a
  rw [← toConn_append]
  exact hperm

/-! ## The server's side -/

/-- The connections of the clients that are there are open, the executor is in order, every command has a connection,
and a notice that has none is an event. -/
structure NetSide (conn : ConnId → Option Addr) (h : List (Event A)) (s : CanIPCServer A api) : Prop where
  mem : ∀ k a, conn k = some a → s.mem a = some ⟨k, false⟩
  order : Ordered (execOf h) s.exec
  clients : ∀ q ∈ pushedOf (execOf h), q.1.mClient ≠ none
  notices : ∀ n ∈ s.asyncs, Arrives A api n.buf ∧ (n.client = none → ofBuf A api n.buf = none)

/-- A step that keeps the server's side in order and writes to each client what it owes to it or goes on owing it;
`read` are the answers to what it reads of each. -/
structure PaysEach (conn : ConnId → Option Addr) (h : List (Event A)) (s : CanIPCServer A api)
    (read : ConnId → List Completion) (e : List (Event A)) (t : CanIPCServer A api) : Prop where
  side : NetSide conn (h ++ e) t
  arrives : ∀ k, ∀ b ∈ writtenTo k e, Arrives A api b
  balance : ∀ k a, conn k = some a →
    ((writtenTo k e).filterMap (ofBuf A api) ++ owedTo a (h ++ e) t).Perm (owedTo a h s ++ read k)

section Server

variable {conn : ConnId → Option Addr} {h e : List (Event A)} {s t : CanIPCServer A api}

/-- A step that changes neither these connections nor the queues. -/
theorem NetSide.quiet (hs : NetSide conn h s) (hm : ∀ k a, conn k = some a → t.mem a = some ⟨k, false⟩)
    (hx : t.exec = s.exec) (ha : t.asyncs = s.asyncs) (he : execOf e = []) (hw : wroteOf e = []) :
    PaysEach conn h s (fun _ => []) e t := by
  have hexec : execOf (h ++ e) = execOf h := by rw [execOf_append, he, List.append_nil]
  have hwritten : ∀ k, writtenTo k e = [] := by
    intro k
    rw [writtenTo, hw]
    rfl
  refine ⟨⟨hm, ?_, ?_, ?_⟩, fun k b hb => ?_, fun k a _ => ?_⟩
  · rw [hexec, hx]; exact hs.order
  · rw [hexec]; exact hs.clients
  · rw [ha]; exact hs.notices
  · rw [hwritten] at hb
    cases hb
  · rw [hwritten, owedTo, owedTo, hexec, ha, List.append_nil]
    exact List.Perm.refl _

/-- Fewer clients are there. -/
theorem NetSide.mono {conn' : ConnId → Option Addr} (hs : NetSide conn h s)
    (hc : ∀ k a, conn' k = some a → conn k = some a) : NetSide conn' h s where
  mem k a hk := hs.mem k a (hc k a hk)
  order := hs.order
  clients := hs.clients
  notices := hs.notices

/-- Writes of one notice are messages of its bytes. -/
theorem written_ofSending {n : Notice} (he : ∀ x ∈ e, OfSending n x) (k : ConnId) : ∀ b ∈ writtenTo k e, b = n.buf := by
  intro b hb
  obtain ⟨m, hm, rfl⟩ := List.mem_map.1 hb
  obtain ⟨⟨c, m'⟩, hc, hm⟩ := List.mem_filterMap.1 hm
  obtain ⟨x, hx, hxc⟩ := List.mem_filterMap.1 hc
  have hof := he x hx
  cases x with
  | wrote c' n' =>
    cases hxc
    obtain ⟨-, hm⟩ := Option.ite_none_right_eq_some.1 hm
    cases hm
    exact congrArg Notice.buf hof
  | exec | accepted | read | dispatched | freed | closed | posted | notified | touched | uvWrite | cloned | released
  | exit | fault =>
    cases hxc

/-- A notice goes to no connection but the one that its address has. -/
theorem written_sent {a : Addr} {n : Notice} {r : Int} (hsent : Sent s a n t e r) {k : ConnId}
    (hk : ∀ p, s.mem a = some p → p.id ≠ k) : writtenTo k (.notified n :: e ++ if r ≠ 0 then [.released n] else []) =
      [] := by
  have hwrote : wroteOf (.notified n :: e ++ if r ≠ 0 then [.released n] else []) = wroteOf e :=
    filterMap_around e rfl rfl
  rw [writtenTo, hwrote]
  cases hsent with
  | written p hm hc => exact congrArg (List.map Notice.buf) (on_singleton_of_ne (hk p hm) n)
  | stale | crashed | closing | refused => rfl

/-- A notice is delivered: to its own connection, or as an event to all. -/
theorem paysEach_notify (hs : NetSide conn h s) (hl : Distinct s.mem) {i : Nat} {uvWrite : Addr → Int} {garbage : Bool}
    (hw : ∀ k a, conn k = some a → uvWrite a = 0)
    (hstep : (serverMachine A api).step s (.notify i uvWrite garbage) = some (t, e)) :
    PaysEach conn h s (fun _ => []) e t := by
  obtain ⟨-, -, ha⟩ := server_acted hstep
  have hkept : ∀ n ∈ s.asyncs.eraseIdx i, n ∈ s.asyncs := fun n hn => List.mem_of_mem_eraseIdx hn
  cases ha with
  | notifiedAll k n uvWrite garbage ws f e hk hn hws he =>
    obtain ⟨harr, hevent⟩ := hs.notices n (List.mem_of_getElem? hk)
    have hnone := hevent hn
    have hwritten : ∀ k, ∀ b ∈ writtenTo k (.notified n :: e), b = n.buf := fun k => written_ofSending (e := e) he k
    have hexec : execOf (h ++ .notified n :: e) = execOf h := by
      rw [execOf_append, show execOf (.notified n :: e) = execOf e from rfl, execOf_ofSending he, List.append_nil]
    refine ⟨⟨hs.mem, ?_, ?_, fun m hm => hs.notices m (hkept m hm)⟩, fun k b hb => ?_, fun k a hka => ?_⟩
    · rw [hexec]; exact hs.order
    · rw [hexec]; exact hs.clients
    · rw [hwritten k b hb]
      exact harr
    · have hevent : (writtenTo k (.notified n :: e)).filterMap (ofBuf A api) = [] := by
        rw [List.filterMap_eq_nil_iff]
        intro b hb
        rw [hwritten k b hb]
        exact hnone
      have hperm := toConn_erase hk a
      rw [toConn_other (by rw [hn]; simp), List.nil_append] at hperm
      rw [hevent, owedTo, owedTo, hexec, List.append_nil, List.nil_append]
      exact ((hperm.symm.map Notice.buf).filterMap (ofBuf A api)).append_right _
  | notified k n uvWrite garbage a' t e r hk hn hsent hopen =>
    obtain ⟨harr, -⟩ := hs.notices n (List.mem_of_getElem? hk)
    obtain ⟨⟨ws, f, ht, -⟩, hsending⟩ := sent_frame hsent
    have hexec : execOf (h ++ (.notified n :: e ++ if r ≠ 0 then [.released n] else [])) = execOf h := by
      have hquiet : execOf (.notified n :: e ++ if r ≠ 0 then [.released n] else []) = execOf e :=
        filterMap_around e rfl rfl
      rw [execOf_append, hquiet, execOf_ofSending hsending, List.append_nil]
    have hmem : t.mem = s.mem ∧ t.exec = s.exec ∧ t.asyncs = s.asyncs.eraseIdx i := by
      rw [ht]
      exact ⟨rfl, rfl, rfl⟩
    -- to a client that is there its message is written, to all others nothing
    have hown : ∀ j, conn j = some a' → writtenTo j (.notified n :: e ++ if r ≠ 0 then [.released n] else []) =
        [n.buf] := by
      intro j hj
      obtain ⟨-, rfl, rfl⟩ := hopen _ (hs.mem j a' hj) rfl (hw j a' hj)
      exact congrArg (List.map Notice.buf) (on_singleton_self j n)
    have hothers : ∀ j a, conn j = some a → a ≠ a' →
        writtenTo j (.notified n :: e ++ if r ≠ 0 then [.released n] else []) = [] := by
      intro j a hj hne
      refine written_sent hsent fun p hp hid => hne ?_
      exact (hl a' a p ⟨j, false⟩ hp (hs.mem j a hj) hid).symm
    have hwritten : ∀ j, ∀ b ∈ writtenTo j (.notified n :: e ++ if r ≠ 0 then [.released n] else []), b = n.buf := by
      intro j b hb
      have hwrote : wroteOf (.notified n :: e ++ if r ≠ 0 then [.released n] else []) = wroteOf e :=
        filterMap_around e rfl rfl
      rw [writtenTo, hwrote] at hb
      exact written_ofSending hsending j b hb
    refine ⟨⟨?_, ?_, ?_, fun m hm => hs.notices m (hkept m (hmem.2.2 ▸ hm))⟩, fun j b hb => ?_, fun j a hja => ?_⟩
    · rw [hmem.1]; exact hs.mem
    · rw [hexec, hmem.2.1]; exact hs.order
    · rw [hexec]; exact hs.clients
    · rw [hwritten j b hb]
      exact harr
    · have hperm := toConn_erase hk a
      rw [owedTo, owedTo, hexec, hmem.2.2, List.append_nil, ← List.append_assoc]
      refine List.Perm.append_right _ ?_
      by_cases ha : a = a'
      · subst ha
        rw [toConn_self hn] at hperm
        rw [hown j hja, ← List.filterMap_append]
        exact ((hperm.symm.map Notice.buf).filterMap (ofBuf A api))
      · have hne : n.client ≠ some a := by
          rw [hn]
          rintro ⟨⟩
          exact ha rfl
        rw [toConn_other hne, List.nil_append] at hperm
        rw [hothers j a hja ha, List.filterMap_nil, List.nil_append]
        exact ((hperm.symm.map Notice.buf).filterMap (ofBuf A api))
  | exec i j x ex hj => cases hj

/-- A write is reported, or the loop has ended. -/
theorem paysEach_loop (hs : NetSide conn h s) {i : Input} (hi : i = .loopExit ∨ ∃ k status, i = .write k status)
    (hstep : (serverMachine A api).step s i = some (t, e)) : PaysEach conn h s (fun _ => []) e t := by
  obtain ⟨-, -, ha⟩ := server_acted hstep
  rcases hi with rfl | ⟨k, status, rfl⟩
  · cases ha with
    | loopExit => exact hs.quiet hs.mem rfl rfl rfl rfl
    | exec i j x ex hj => cases hj
  · cases ha with
    | writeFailed | written | strayWrite | exits | exitsAgain => exact hs.quiet hs.mem rfl rfl rfl rfl
    | exec i j x ex hj => cases hj

/-- The connection of a client that has left is closed or erased. -/
theorem paysEach_gone (hs : NetSide conn h s) {addr : Addr} (hno : ∀ k a, conn k = some a → a ≠ addr) {i : Input}
    (hi : i = .readError addr ∨ i = .closed addr) (hstep : (serverMachine A api).step s i = some (t, e)) :
    PaysEach conn h s (fun _ => []) e t := by
  obtain ⟨-, -, ha⟩ := server_acted hstep
  have hkept : ∀ v k a, conn k = some a → Function.update s.mem addr v a = some ⟨k, false⟩ := by
    intro v k a hk
    rw [Function.update_of_ne (hno k a hk)]
    exact hs.mem k a hk
  rcases hi with rfl | rfl
  · cases ha with
    | readFailed addr p hm => exact hs.quiet (hkept _) rfl rfl rfl rfl
    | exec i j x ex hj => cases hj
  · cases ha with
    | closed addr p hm => exact hs.quiet (hkept _) rfl rfl rfl rfl
    | closedUnknown addr p hm => exact hs.quiet hs.mem rfl rfl rfl rfl
    | exec i j x ex hj => cases hj

/-- A thread of the executor takes a step: the answer to a command executed is for its connection. -/
theorem paysEach_exec (hs : NetSide conn h s) {j : ExecInput A} {x : Executer A api} {ex : List (ExecEvent A)}
    (hj : ∀ c o m, j ≠ .push c o m) (hst : Stepped s.exec j x ex) :
    PaysEach conn h s (fun _ => []) (ex.map .exec) { s with exec := x, asyncs := s.asyncs ++ noticesOf ex } := by
  have hservable : PushesServable j := by
    cases j with
    | push c o m => exact absurd rfl (hj c o m)
    | run | idle | itemCheck => trivial
  have horder := ordered_stepped hs.order hservable hst
  obtain ⟨-, -, -, hw⟩ := streams_exec ex
  have hexec : execOf (h ++ ex.map .exec) = execOf h ++ ex := by rw [execOf_append, execOf_map]
  have hwritten : ∀ k, writtenTo k (ex.map .exec) = [] := by
    intro k
    rw [writtenTo, hw]
    rfl
  -- all steps but the execution of a command leave the commands that wait as they are
  have hquiet : pushedOf ex = [] → executedOf ex = [] →
      (∀ n ∈ noticesOf ex, Arrives A api n.buf ∧ n.client = none ∧ ofBuf A api n.buf = none) →
      PaysEach conn h s (fun _ => []) (ex.map .exec) { s with exec := x, asyncs := s.asyncs ++ noticesOf ex } := by
    intro hp he hn
    refine ⟨⟨hs.mem, ?_, ?_, fun m hm => ?_⟩, fun k b hb => ?_, fun k a _ => ?_⟩
    · rw [hexec]; exact horder
    · rw [hexec, pushedOf_append, hp, List.append_nil]; exact hs.clients
    · rcases List.mem_append.1 hm with hm | hm
      · exact hs.notices m hm
      · obtain ⟨harr, -, hnone⟩ := hn m hm
        exact ⟨harr, fun _ => hnone⟩
    · rw [hwritten] at hb
      cases hb
    · have hnone : toConn a (noticesOf ex) = [] := by
        rw [toConn, List.filter_eq_nil_iff]
        intro n hmem
        rw [(hn n hmem).2.1]
        simp
      rw [hwritten, owedTo, owedTo, hexec, waiting_quiet _ hp he, toConn_append, hnone, List.append_nil,
        List.append_nil]
      exact List.Perm.refl _
  cases hst with
  | pushed c o m => exact absurd rfl (hj c o m)
  | quiet i itemPc => exact hquiet rfl rfl (by simp [noticesOf])
  | broadcast i itemPc r hr =>
    refine hquiet rfl rfl fun n hn => ?_
    obtain ⟨harr, hnone⟩ := event_arrives hr
    rw [List.mem_singleton.1 hn]
    exact ⟨harr, rfl, hnone⟩
  | ran now y e hran =>
    cases hran with
    | handled p m t c hpc hp hm ht hc =>
      -- the command moves out of the deque, and its answer among the notices of its connection
      obtain ⟨m', rest, hwait, hrest, hcmd⟩ := waiting_executed horder
      obtain ⟨harr, hof⟩ := reply_arrives ht hc s.exec.xfs s.exec.currentCmd.mClient s.exec.currentCmd.origin now
      have hclient := hs.clients _ (waiting_mem (by rw [hwait]; exact List.mem_cons_self ..))
      refine ⟨⟨hs.mem, ?_, ?_, fun n hn => ?_⟩, fun k b hb => ?_, fun k a _ => ?_⟩
      · rw [hexec]; exact horder
      · rw [hexec, pushedOf_append]
        exact fun q hq => hs.clients q ((List.append_nil _).subst hq)
      · rcases List.mem_append.1 hn with hn | hn
        · exact hs.notices n hn
        · rw [List.mem_singleton.1 hn]
          exact ⟨harr, fun h => absurd h hclient⟩
      · rw [hwritten] at hb
        cases hb
      · rw [hwritten, owedTo, owedTo, hexec, hrest, hwait, toConn_append, List.append_nil, List.filterMap_nil,
          List.nil_append]
        show (((toConn a s.asyncs ++
          toConn a [replyNotice s.exec.xfs t c m s.exec.currentCmd.mClient s.exec.currentCmd.origin now]).map
            Notice.buf).filterMap (ofBuf A api) ++ _).Perm _
        by_cases ha : s.exec.currentCmd.mClient = some a
        · have hfrom : fromConn a ((s.exec.currentCmd, m') :: rest) = (s.exec.currentCmd, m') :: fromConn a rest :=
            List.filter_cons_of_pos (by simpa using ha)
          rw [toConn_self (show (replyNotice s.exec.xfs t c m s.exec.currentCmd.mClient s.exec.currentCmd.origin
            now).client = some a from ha), hfrom, List.map_append, List.filterMap_append, List.append_assoc]
          simp only [List.map_cons, List.map_nil, List.filterMap_cons, List.filterMap_nil, hof, answer_unmarked hcmd]
          exact List.Perm.refl _
        · have hfrom : fromConn a ((s.exec.currentCmd, m') :: rest) = fromConn a rest :=
            List.filter_cons_of_neg (by simpa using ha)
          rw [toConn_other (show (replyNotice s.exec.xfs t c m s.exec.currentCmd.mClient s.exec.currentCmd.origin
            now).client ≠ some a from ha), hfrom, List.append_nil]
    | empty | sized | fronted | preProcessed | paused | destroyed | popped | failed =>
      exact hquiet rfl rfl (by simp [noticesOf])

/-- Every step of the server between two reads pays each. -/
theorem paysEach_serves {n : Net A api} (hs : NetSide conn h n.server) (hl : Distinct n.server.mem) {i : Input}
    (hi : n.Serves i) (hw : ∀ k a, conn k = some a → k < n.server.nextId ∧ ∃ p ∈ n.peer k, p.gone = false ∧ p.conn = a)
    (hstep : (serverMachine A api).step n.server i = some (t, e)) : PaysEach conn h n.server (fun _ => []) e t := by
  cases i with
  | notify j uvWrite garbage =>
    refine paysEach_notify hs hl (fun k a hk => ?_) hstep
    obtain ⟨hlt, p, hp, hgone, rfl⟩ := hw k a hk
    exact hi k hlt p hp hgone
  | write j status => exact paysEach_loop hs (.inr ⟨j, status, rfl⟩) hstep
  | loopExit => exact paysEach_loop hs (.inl rfl) hstep
  | run | idle | itemCheck =>
    obtain ⟨-, -, ha⟩ := server_acted hstep
    obtain ⟨x, ex, hst, rfl, rfl⟩ := acted_exec ha rfl
    exact paysEach_exec hs (by simp) hst
  | newConnection | read | readError | closed => exact hi.elim

/-- What is serialized is read back. -/
theorem readCmd_serialize (m : Command A) : readCmd (serializeCmd m) = .ok (m.obj, []) := by
  have hput := readCmd_put m.built []
  rwa [List.append_nil] at hput

theorem serialized_obj {m n : Command A} (h : serializeCmd m = serializeCmd n) : m.obj = n.obj := by
  have hm := readCmd_serialize m
  rw [h, readCmd_serialize n] at hm
  injection hm with hm
  injection hm with hm
  exact hm.symm

/-- A command is read: its answer is owed to its client from now on, if that is there. -/
theorem paysEach_read (hs : NetSide conn h s) (a : Addr) (m : Command A) {now : AnSystemtime}
    (hstep : (serverMachine A api).step s (.read a (serializeCmd m) now) = some (t, e)) :
    PaysEach conn h s (fun j => if conn j = some a then [answer api m.obj] else []) e t := by
  have hget := readCmd_serialize m
  obtain ⟨-, -, ha⟩ := server_acted hstep
  cases ha with
  | readFaulty addr p chunk now f hm hc hr =>
    rw [hget] at hr
    cases hr
  | readInfo addr p chunk now m' rest n hm hc hr hg hn =>
    rw [hget] at hr
    cases hr
    -- a GetInfo is answered at once, and its answer waits for delivery
    obtain ⟨harr, hbuf⟩ := getinfo_arrives hg hn
    obtain ⟨hclient, -⟩ := spiGetinfo_ok hn
    have hexec : execOf (h ++ [.read p.id (serializeCmd m), .dispatched p.id m.obj, .posted n, .freed p.id]) =
        execOf h := (execOf_append ..).trans (List.append_nil _)
    refine ⟨⟨hs.mem, ?_, ?_, fun q hq => ?_⟩, fun j b hb => (by cases hb), fun j b hj => ?_⟩
    · rw [hexec]; exact hs.order
    · rw [hexec]; exact hs.clients
    · rcases List.mem_append.1 hq with hq | hq
      · exact hs.notices q hq
      · rw [List.mem_singleton.1 hq]
        refine ⟨harr, fun h => ?_⟩
        rw [hclient] at h
        cases h
    · rw [owedTo, owedTo, hexec]
      show (((toConn b (s.asyncs ++ [n])).map Notice.buf).filterMap (ofBuf A api) ++ _).Perm _
      rw [toConn_append, List.map_append, List.filterMap_append, List.append_assoc, List.append_assoc]
      refine List.Perm.append_left _ ?_
      rw [hj]
      by_cases hab : a = b
      · subst hab
        rw [toConn_self hclient, if_pos rfl]
        simp only [List.map_cons, List.map_nil, List.filterMap_cons, List.filterMap_nil, hbuf]
        exact List.perm_append_comm
      · have hne : some a ≠ some b := fun h => hab (Option.some.inj h)
        rw [toConn_other (by rw [hclient]; exact hne), if_neg hne.symm, List.append_nil]
        exact List.Perm.refl _
  | readCommand addr p chunk now m' rest hm hc hr hg =>
    rw [hget] at hr
    cases hr
    -- any other command joins those that wait for execution
    have hexec : execOf (h ++ (.read p.id (serializeCmd m) :: .dispatched p.id m.obj ::
        (s.exec.pushBackCmdDeque (some a) (some p.id) m.obj).2.map .exec ++ [.freed p.id])) =
        execOf h ++ [.pushed ⟨some s.exec.brk, some a, some p.id⟩ m.obj] := execOf_append ..
    refine ⟨⟨hs.mem, ?_, ?_, hs.notices⟩, fun j b hb => (by cases hb), fun j b hj => ?_⟩
    · rw [hexec]
      exact ordered_stepped (i := .push (some a) (some p.id) m.obj) hs.order ⟨m.built, command_slot m hg⟩ (.pushed ..)
    · rw [hexec]
      intro q hq
      rw [pushedOf_append] at hq
      rcases List.mem_append.1 hq with hq | hq
      · exact hs.clients q hq
      · rw [List.mem_singleton.1 hq]
        exact Option.some_ne_none a
    · rw [owedTo, owedTo, hexec, waiting_pushed hs.order, fromConn, List.filter_append, List.map_append]
      show (((toConn b s.asyncs).map Notice.buf).filterMap (ofBuf A api) ++ _).Perm _
      rw [List.append_assoc, hj]
      refine List.Perm.append_left _ (List.Perm.append_left _ ?_)
      by_cases hab : a = b
      · subst hab
        rw [if_pos rfl, List.filter_cons_of_pos (by simp)]
        exact List.Perm.refl _
      · have hne : some a ≠ some b := fun h => hab (Option.some.inj h)
        rw [if_neg hne.symm, List.filter_cons_of_neg (by simpa using hne)]
        exact List.Perm.refl _
  | exec i j x ex hj => cases hj

/-- A connection is accepted: it is a new one, at an address that no client that is there has. -/
theorem accepted_net (hs : NetSide conn h s) {addr : Addr}
    (hstep : (serverMachine A api).step s (.newConnection 0 addr 0) = some (t, e)) :
    e = [.accepted s.nextId] ∧ t.asyncs = s.asyncs ∧ t.nextId = s.nextId + 1 ∧
      t.mem = Function.update s.mem addr (some ⟨s.nextId, false⟩) ∧ s.mem addr = none ∧
      NetSide (Function.update conn s.nextId (some addr)) (h ++ e) t := by
  obtain ⟨hguard, hte⟩ := Option.ite_none_right_eq_some.1 (step_loop hstep rfl)
  obtain ⟨hmem, -⟩ := hguard
  cases hte
  have hfree : ∀ k a, conn k = some a → a ≠ addr := by
    rintro k a hk rfl
    rw [hs.mem k a hk] at hmem
    cases hmem
  have hexec : execOf (h ++ [.accepted s.nextId]) = execOf h := (execOf_append ..).trans (List.append_nil _)
  refine ⟨rfl, rfl, rfl, rfl, hmem, ⟨fun k a hk => ?_, ?_, ?_, hs.notices⟩⟩
  · by_cases hnew : k = s.nextId
    · subst hnew
      rw [Function.update_self] at hk
      cases hk
      exact Function.update_self ..
    · rw [Function.update_of_ne hnew] at hk
      exact (Function.update_of_ne (hfree k a hk) ..).trans (hs.mem k a hk)
  · exact hexec ▸ hs.order
  · exact hexec ▸ hs.clients

/-- To an address that nothing under way names nothing is owed. -/
theorem owedTo_free (hs : NetSide conn h s) {addr : Addr} (hdeque : ∀ b ∈ s.exec.deque, b.mClient ≠ some addr)
    (hasyncs : ∀ n ∈ s.asyncs, n.client ≠ some addr) : owedTo addr h s = [] := by
  have hnotices : toConn addr s.asyncs = [] := by
    rw [toConn, List.filter_eq_nil_iff]
    intro n hn
    simpa using hasyncs n hn
  have hwaiting : fromConn addr (waitingOf (execOf h)) = [] := by
    rw [fromConn, List.filter_eq_nil_iff]
    intro q hq
    simpa using hdeque q.1 (waiting_deque hs.order hq)
  rw [owedTo, hnotices, hwaiting]
  rfl

end Server

/-! ## The client's side -/

/-- A client that is up, with its commands on its loop and on the wire, and messages to read that it can handle. -/
structure PeerKeeps (api : XfsApi) (client : AnCimSp) (toClient : List (List UInt8)) (sent wire : List (Command A)) :
    Prop where
  up : client.Up
  arrives : ∀ b ∈ toClient, Arrives A api b
  asyncs : client.asyncs = sent.map serializeCmd
  onWire : client.ipc.wire = wire.map serializeCmd

/-- What a client's side has under way: completions to read, and answers to the commands that were not read yet. -/
def onItsWay (A : Arch) (api : XfsApi) (toClient : List (List UInt8)) (sent wire : List (Command A)) :
    List Completion :=
  toClient.filterMap (ofBuf A api) ++ wire.map (fun m => answer api m.obj) ++ sent.map fun m => answer api m.obj

section Client

variable {p : Peer} {server : CanIPCServer A api} {sent wire : List (Command A)} {t : Link A api}
  {e : List (LinkEvent A api)}

/-- A call puts its command on the client's loop, if it is accepted and sent. -/
theorem PeerKeeps.call (hp : PeerKeeps api p.client p.toClient sent wire) {c : SpiCall} {env : CallEnv}
    (hstep : (p.link server).step (.call c env) = some (t, e)) :
    ∃ sent', PeerKeeps api t.client t.toClient sent' wire ∧ t.fault = none ∧ completionsOf e = [] ∧
      (onItsWay A api t.toClient sent' wire).Perm
        (onItsWay A api p.toClient sent wire ++ (callsOf e).filterMap (answered api)) := by
  obtain ⟨hrun, hstep⟩ := Option.ite_none_right_eq_some.1 hstep
  cases hstep
  obtain ⟨m, hstands, hsucc, hfail⟩ := invoke_sent A api hp.up ⟨hrun.1, hrun.2.trans hp.up.active⟩ c
  by_cases hr : (c.invoke A api p.client env).2 = api.wfsSuccess
  · obtain ⟨service, hc⟩ := hsucc hr
    have hcalls : callsOf [(.called c (c.invoke A api p.client env).2 : LinkEvent A api)] = [c] := by
      simp [callsOf, hr]
    refine ⟨sent ++ (if c.sends then [m] else []), ⟨?_, hp.arrives, ?_, ?_⟩, rfl, rfl, ?_⟩
    · show (c.invoke A api p.client env).1.Up
      rw [hc]
      exact hp.up.congr rfl rfl
    · show (c.invoke A api p.client env).1.asyncs = _
      rw [hc, List.map_append, ← hp.asyncs]
      split <;> rfl
    · show (c.invoke A api p.client env).1.ipc.wire = _
      rw [hc]
      exact hp.onWire
    · show (onItsWay A api p.toClient _ wire).Perm (_ ++ (callsOf [.called c (c.invoke A api p.client env).2]).filterMap _)
      rw [hcalls, onItsWay, onItsWay, List.map_append, ← List.append_assoc]
      refine List.Perm.append_left _ ?_
      unfold answered
      by_cases hsend : c.sends = true
      · simp only [hsend, if_true, List.filterMap_cons, List.filterMap_nil, List.map_cons, List.map_nil]
        rw [answered_of_stands hstands]
      · simp [hsend]
  · obtain ⟨service, hc⟩ := hfail hr
    have hcalls : callsOf [(.called c (c.invoke A api p.client env).2 : LinkEvent A api)] = [] := by
      simp [callsOf, hr]
    refine ⟨sent, ⟨?_, hp.arrives, ?_, ?_⟩, rfl, rfl, ?_⟩
    · show (c.invoke A api p.client env).1.Up
      rw [hc]
      exact hp.up.congr rfl rfl
    · show (c.invoke A api p.client env).1.asyncs = _
      rw [hc]
      exact (List.append_nil _).trans hp.asyncs
    · show (c.invoke A api p.client env).1.ipc.wire = _
      rw [hc]
      exact hp.onWire
    · show (onItsWay A api p.toClient _ wire).Perm (_ ++ (callsOf [.called c (c.invoke A api p.client env).2]).filterMap _)
      rw [hcalls, List.filterMap_nil, List.append_nil]

/-- `on_send_cmd` puts a command on the wire. -/
theorem PeerKeeps.sendCmd (hp : PeerKeeps api p.client p.toClient sent wire) {i : Nat}
    (hstep : (p.link server).step (.sendCmd i) = some (t, e)) :
    ∃ sent' wire', PeerKeeps api t.client t.toClient sent' wire' ∧ t.fault = none ∧ e = [] ∧
      (onItsWay A api t.toClient sent' wire').Perm (onItsWay A api p.toClient sent wire) := by
  obtain ⟨data, hdata, hstep⟩ := Option.map_eq_some_iff.1 hstep
  cases hstep
  have hdata : p.client.asyncs[i]? = some data := hdata
  have hwrite : (p.client.ipc.write data 0).1 = { p.client.ipc with wire := p.client.ipc.wire ++ [data] } := by
    simp [CanIPC.write, hp.up.active]
  rw [hp.asyncs, List.getElem?_map] at hdata
  obtain ⟨m, hm, rfl⟩ := Option.map_eq_some_iff.1 hdata
  refine ⟨sent.eraseIdx i, wire ++ [m], ⟨?_, hp.arrives, ?_, ?_⟩, rfl, rfl, ?_⟩
  · show ({ p.client with
      asyncs := p.client.asyncs.eraseIdx i, ipc := (p.client.ipc.write (serializeCmd m) 0).1 } : AnCimSp).Up
    rw [hwrite]
    exact hp.up.congr rfl rfl
  · show p.client.asyncs.eraseIdx i = _
    rw [hp.asyncs, List.eraseIdx_map]
  · show (p.client.ipc.write (serializeCmd m) 0).1.wire = _
    rw [hwrite, List.map_append, ← hp.onWire]
    rfl
  · have hperm := (perm_eraseIdx hm).map fun m => answer api m.obj
    show (onItsWay A api p.toClient (sent.eraseIdx i) (wire ++ [m])).Perm _
    rw [onItsWay, onItsWay, List.map_append]
    simp only [List.append_assoc]
    exact List.Perm.append_left _ (List.Perm.append_left _ hperm.symm)

/-- A message read is posted as the completion that it is. -/
theorem PeerKeeps.read (hp : PeerKeeps api p.client p.toClient sent wire)
    (hstep : (p.link server).step (.clientRead true) = some (t, e)) :
    PeerKeeps api t.client t.toClient sent wire ∧ t.fault = none ∧ callsOf e = [] ∧
      (completionsOf e ++ onItsWay A api t.toClient sent wire).Perm (onItsWay A api p.toClient sent wire) := by
  have hf : (p.link server).fault = none := rfl
  simp only [Link.step] at hstep
  rw [if_neg (not_not.2 hf)] at hstep
  split at hstep
  · cases hstep
  rename_i chunk rest hread
  have hread : p.toClient = chunk :: rest := hread
  obtain ⟨r, rfl, hd⟩ := hp.arrives chunk (by rw [hread]; exact List.mem_cons_self ..)
  obtain ⟨service, posts, hok, hposts⟩ := onClientRead_posts hp.up hd
  rw [show (p.link server).client = p.client from rfl, hok] at hstep
  cases hstep
  have hcomp : completionsOf (posts.map .posted : List (LinkEvent A api)) = posts.filterMap completionOf := by
    rw [completionsOf, List.filterMap_map]
    rfl
  have hcalls : callsOf (posts.map .posted : List (LinkEvent A api)) = [] := by
    rw [callsOf, List.filterMap_map, List.filterMap_eq_nil_iff]
    intro _ _
    rfl
  refine ⟨⟨hp.up.congr rfl rfl, fun b hb => ?_, hp.asyncs, hp.onWire⟩, rfl, hcalls, ?_⟩
  · exact hp.arrives b (by rw [hread]; exact List.mem_cons_of_mem _ hb)
  · rw [hcomp, hposts, onItsWay, onItsWay, hread, List.filterMap_cons, ofBuf_serialize]
    cases ofResult api r with
    | none => exact List.Perm.refl _
    | some x => exact List.Perm.refl _

/-- What a client does on its own. -/
theorem PeerKeeps.step (hp : PeerKeeps api p.client p.toClient sent wire) {i : LinkInput} (hi : i.ofClient = true)
    (ha : Allocates i) (hstep : (p.link server).step i = some (t, e)) :
    ∃ sent' wire', PeerKeeps api t.client t.toClient sent' wire' ∧ t.fault = none ∧
      (completionsOf e ++ onItsWay A api t.toClient sent' wire').Perm
        (onItsWay A api p.toClient sent wire ++ (callsOf e).filterMap (answered api)) := by
  cases i with
  | call c env =>
    obtain ⟨sent', hkeeps, hf, hcomp, hperm⟩ := hp.call hstep
    rw [hcomp]
    exact ⟨sent', wire, hkeeps, hf, hperm⟩
  | sendCmd i =>
    obtain ⟨sent', wire', hkeeps, hf, rfl, hperm⟩ := hp.sendCmd hstep
    refine ⟨sent', wire', hkeeps, hf, ?_⟩
    simpa [callsOf, completionsOf] using hperm
  | clientRead mem =>
    have hmem : mem = true := ha
    subst hmem
    obtain ⟨hkeeps, hf, hcalls, hperm⟩ := hp.read hstep
    refine ⟨sent, wire, hkeeps, hf, ?_⟩
    rw [hcalls, List.filterMap_nil, List.append_nil]
    exact hperm
  | serverRead | notify | written | run | idle | itemCheck | loopExit => cases hi

end Client

/-! ## All of them -/

/-- The addresses of the clients that are there. -/
def Net.connOf (s : Net A api) (k : ConnId) : Option Addr := (s.present k).map Peer.conn

/-- What the client at `k` was posted and what is still to come, with the answers in `read`, are the answers to its
calls. -/
def Balanced (k : ConnId) (h : List (NetEvent A api)) (server : CanIPCServer A api) (read : List Completion) (p : Peer)
    (sent wire : List (Command A)) : Prop :=
  (completionsOf (atClient k h) ++
    (owedTo p.conn (atServer h) server ++ read ++ onItsWay A api p.toClient sent wire)).Perm
      ((callsOf (atClient k h)).filterMap (answered api))

/-- The invariant of the net: the server keeps the connections apart, what was written to it are commands, each client
that is there has its own balance, and none was posted what it did not ask for. `read` are the answers to commands that
the server is about to read. -/
structure Isolated (h : List (NetEvent A api)) (read : ConnId → List Completion) (s : Net A api) : Prop where
  fault : s.fault = none
  server : NetSide s.connOf (atServer h) s.server
  lists : Lists (atServer h) s.server
  kept : ∀ k p, s.peer k = some p → ∃ c, s.server.mem p.conn = some ⟨k, c⟩
  wires : ∀ k p, s.peer k = some p → ∃ ms : List (Command A), p.client.ipc.wire = ms.map serializeCmd
  peers : ∀ k p, s.present k = some p → ∃ sent wire, PeerKeeps api p.client p.toClient sent wire ∧
    Balanced k h s.server (read k) p sent wire
  strangers : ∀ k, s.server.nextId ≤ k → atClient k h = []
  told : ∀ k, (completionsOf (atClient k h)).Subperm ((callsOf (atClient k h)).filterMap (answered api))

theorem isolated_new (x : CanXfs A api) : Isolated [] (fun _ => []) (Net.new x) := by
  refine ⟨rfl, ⟨?_, ordered_new x, ?_, ?_⟩, (sound_new x).lists, ?_, ?_, ?_, fun _ _ => rfl, fun _ => .refl _⟩
  · rintro k a ⟨⟩
  · intro q hq
    cases hq
  · intro n hn
    cases hn
  · rintro k p ⟨⟩
  · rintro k p ⟨⟩
  · rintro k p ⟨⟩

section Steps

variable {h : List (NetEvent A api)} {s t : Net A api} {e : List (NetEvent A api)}

theorem connOf_some {k : ConnId} {p : Peer} (hp : s.present k = some p) : s.connOf k = some p.conn := by
  rw [Net.connOf, hp]
  rfl

theorem of_connOf {k : ConnId} {a : Addr} (hk : s.connOf k = some a) :
    ∃ p, s.peer k = some p ∧ p.gone = false ∧ p.conn = a := by
  obtain ⟨p, hp, rfl⟩ := Option.map_eq_some_iff.1 hk
  obtain ⟨hp, hgone⟩ := present_iff.1 hp
  exact ⟨p, hp, hgone, rfl⟩

theorem present_setPeer_of_ne {j k : ConnId} (hj : j ≠ k) (p : Peer) : (s.setPeer k p).present j = s.present j := by
  rw [Net.present, Net.present, setPeer_of_ne s hj]

theorem connOf_setPeer {k : ConnId} {p q : Peer} (hp : s.peer k = some p) (hconn : q.conn = p.conn)
    (hgone : q.gone = p.gone) : (s.setPeer k q).connOf = s.connOf := by
  funext j
  by_cases hj : j = k
  · subst hj
    rw [Net.connOf, Net.connOf, Net.present, Net.present, setPeer_self, hp]
    simp only [Option.filter_some, hgone]
    split
    · exact congrArg some hconn
    · rfl
  · rw [Net.connOf, Net.connOf, present_setPeer_of_ne hj]

/-- The connection of a client is not another's. -/
theorem Isolated.conn_ne {read : ConnId → List Completion} (hs : Isolated h read s) {j k : ConnId} {p q : Peer}
    (hp : s.peer j = some p) (hq : s.peer k = some q) (hj : j ≠ k) : p.conn ≠ q.conn := by
  intro heq
  obtain ⟨c, hc⟩ := hs.kept j p hp
  obtain ⟨d, hd⟩ := hs.kept k q hq
  rw [heq, hd] at hc
  injection hc with hc
  injection hc with hid
  exact hj hid.symm

/-- Clients have identities that the server has given out. -/
theorem Isolated.id_lt {read : ConnId → List Completion} (hs : Isolated h read s) {k : ConnId} {p : Peer}
    (hp : s.peer k = some p) : k < s.server.nextId := by
  obtain ⟨c, hc⟩ := hs.kept k p hp
  exact hs.lists.issued p.conn ⟨k, c⟩ hc

/-- The server erases only the connection that was closed, and gives out identities upwards. -/
theorem server_keeps {v u : CanIPCServer A api} {i : Input} {eu : List (Event A)}
    (hstep : (serverMachine A api).step v i = some (u, eu)) : v.nextId ≤ u.nextId ∧
      ∀ a p, v.mem a = some p → i ≠ .closed a → ∃ c, u.mem a = some ⟨p.id, c⟩ := by
  obtain ⟨-, -, ha⟩ := server_acted hstep
  have hupdate : ∀ (addr : Addr) (w : Option Pipe) (a : Addr) (p : Pipe), v.mem a = some p → a ≠ addr →
      ∃ c, Function.update v.mem addr w a = some ⟨p.id, c⟩ := fun addr w a p hp hne =>
    ⟨p.closing, (Function.update_of_ne hne ..).trans hp⟩
  cases ha with
  | accepted status addr accept hm =>
    refine ⟨Nat.le_succ _, fun a p hp _ => hupdate _ _ a p hp ?_⟩
    rintro rfl
    rw [hm] at hp
    cases hp
  | readFailed addr p hm =>
    refine ⟨le_rfl, fun a q hq _ => ?_⟩
    by_cases ha : a = addr
    · subst ha
      rw [hm] at hq
      cases hq
      exact ⟨true, Function.update_self ..⟩
    · exact hupdate _ _ a q hq ha
  | closed addr p hm hc hw hv =>
    refine ⟨le_rfl, fun a q hq hne => hupdate _ _ a q hq ?_⟩
    rintro rfl
    exact hne rfl
  | notified k n uvWrite garbage a t e r hk hn hsent hwritten =>
    obtain ⟨⟨ws, f, rfl, -⟩, -⟩ := sent_frame hsent
    exact ⟨le_rfl, fun a p hp _ => ⟨p.closing, hp⟩⟩
  | readFaulty | readInfo | readCommand | listenFailed | acceptFailed | closedUnknown | writeFailed | written | strayWrite
  | exits | exitsAgain | loopExit | notifiedAll | exec => exact ⟨le_rfl, fun a p hp _ => ⟨p.closing, hp⟩⟩

/-- A step of the server, where it has read the commands whose answers are in `read`. -/
theorem Isolated.server_step {read : ConnId → List Completion} (hs : Isolated h read s) {i : Input}
    {u : CanIPCServer A api} {eu : List (Event A)}
    (hclosed : ∀ k p, s.peer k = some p → i ≠ .closed p.conn)
    (hstep : (serverMachine A api).step s.server i = some (u, eu))
    (hpays : PaysEach s.connOf (atServer h) s.server read eu u) :
    Isolated (h ++ eu.map .server) (fun _ => [])
      { s with
        server := u
        peer := fun k => (s.peer k).map fun p => { p with toClient := p.toClient ++ writtenTo k eu } } := by
  obtain ⟨hclient, hserver⟩ := ofServer_net api eu
  obtain ⟨hids, hmem⟩ := server_keeps hstep
  have hat : ∀ k, atClient k (h ++ eu.map .server) = atClient k h := by
    intro k
    rw [atClient_append, hclient, List.append_nil]
  have hhist : atServer (h ++ eu.map .server) = atServer h ++ eu := by rw [atServer_append, hserver]
  have hpresent : ∀ k p', Net.present { s with
      server := u
      peer := fun k => (s.peer k).map fun p => { p with toClient := p.toClient ++ writtenTo k eu } } k = some p' →
      ∃ p, s.present k = some p ∧ p' = { p with toClient := p.toClient ++ writtenTo k eu } := by
    intro k p' hp'
    obtain ⟨hp', hgone⟩ := present_iff.1 hp'
    obtain ⟨p, hp, rfl⟩ := Option.map_eq_some_iff.1 hp'
    exact ⟨p, present_iff.2 ⟨hp, hgone⟩, rfl⟩
  refine ⟨hs.fault, ?_, ?_, fun k p' hp' => ?_, fun k p' hp' => ?_, fun k p' hp' => ?_, fun k hk => ?_, fun k => ?_⟩
  · rw [hhist]
    refine hpays.side.mono fun k a hk => ?_
    obtain ⟨p', hp', rfl⟩ := Option.map_eq_some_iff.1 hk
    obtain ⟨p, hp, rfl⟩ := hpresent k p' hp'
    show s.connOf k = some p.conn
    exact connOf_some hp
  · rw [hhist]
    exact lists_step hs.lists hstep
  · obtain ⟨p, hp, rfl⟩ := Option.map_eq_some_iff.1 hp'
    obtain ⟨c, hc⟩ := hs.kept k p hp
    exact hmem p.conn ⟨k, c⟩ hc (hclosed k p hp)
  · obtain ⟨p, hp, rfl⟩ := Option.map_eq_some_iff.1 hp'
    exact hs.wires k p hp
  · obtain ⟨p, hp, rfl⟩ := hpresent k p' hp'
    obtain ⟨sent, wire, hkeeps, hbal⟩ := hs.peers k p hp
    refine ⟨sent, wire, ⟨hkeeps.up, fun b hb => ?_, hkeeps.asyncs, hkeeps.onWire⟩, ?_⟩
    · rcases List.mem_append.1 hb with hb | hb
      · exact hkeeps.arrives b hb
      · exact hpays.arrives k b hb
    · have hpaid := hpays.balance k p.conn (connOf_some hp)
      unfold Balanced at hbal ⊢
      rw [hat, hhist]
      refine List.Perm.trans (List.Perm.append_left _ ?_) hbal
      simp only [onItsWay, List.filterMap_append, List.append_nil]
      -- what is written moves from what is owed to what is on its way, so it is counted
      rw [List.perm_iff_count] at hpaid ⊢
      intro x
      have hx := hpaid x
      simp only [List.count_append] at hx ⊢
      omega
  · rw [hat]
    exact hs.strangers k (hids.trans hk)
  · rw [hat]
    exact hs.told k

/-- A step of a client on its own. -/
theorem Isolated.client_step (hs : Isolated h (fun _ => []) s) {k : ConnId} {p : Peer} (hp : s.present k = some p)
    {i : LinkInput} (hi : i.ofClient = true) (ha : Allocates i) {l : Link A api} {el : List (LinkEvent A api)}
    (hstep : (p.link s.server).step i = some (l, el)) :
    Isolated (h ++ el.map (.client k)) (fun _ => [])
      { s.setPeer k { p with client := l.client, toClient := l.toClient } with fault := l.fault } := by
  obtain ⟨hown, hothers, hserver⟩ := ofClient_net k el
  obtain ⟨hpeer, hgone⟩ := present_iff.1 hp
  have hhist : atServer (h ++ el.map (.client k)) = atServer h := by rw [atServer_append, hserver, List.append_nil]
  have hat : ∀ j, j ≠ k → atClient j (h ++ el.map (.client k)) = atClient j h := by
    intro j hj
    rw [atClient_append, hothers j hj, List.append_nil]
  obtain ⟨sent, wire, hkeeps, hbal⟩ := hs.peers k p hp
  obtain ⟨sent', wire', hkeeps', hf, hperm⟩ := hkeeps.step hi ha hstep
  have hbalanced : Balanced k (h ++ el.map (.client k)) s.server []
      { p with client := l.client, toClient := l.toClient } sent' wire' := by
    unfold Balanced at hbal ⊢
    rw [hhist, atClient_append, hown, completionsOf_append, callsOf_append, List.filterMap_append]
    rw [List.perm_iff_count] at hbal hperm ⊢
    intro x
    have hx := hbal x
    have hy := hperm x
    simp only [List.count_append] at hx hy ⊢
    omega
  have hsame : ∀ j q, j ≠ k → (s.setPeer k { p with client := l.client, toClient := l.toClient }).peer j = some q →
      s.peer j = some q := fun j q hj hq => (setPeer_of_ne s hj _).symm.trans hq
  refine ⟨hf, ?_, ?_, fun j q hq => ?_, fun j q hq => ?_, fun j q hq => ?_, fun j hj => ?_, fun j => ?_⟩
  · rw [hhist]
    refine hs.server.mono fun j a hj => ?_
    obtain ⟨q, hq, hqgone, rfl⟩ := of_connOf (s := s.setPeer k _) hj
    by_cases hjk : j = k
    · subst hjk
      cases (setPeer_self s j _).symm.trans hq
      show s.connOf j = some p.conn
      exact connOf_some hp
    · exact connOf_some (present_iff.2 ⟨hsame j q hjk hq, hqgone⟩)
  · rw [hhist]
    exact hs.lists
  · by_cases hjk : j = k
    · subst hjk
      cases (setPeer_self s j _).symm.trans hq
      exact hs.kept j p hpeer
    · exact hs.kept j q (hsame j q hjk hq)
  · by_cases hjk : j = k
    · subst hjk
      cases (setPeer_self s j _).symm.trans hq
      exact ⟨wire', hkeeps'.onWire⟩
    · exact hs.wires j q (hsame j q hjk hq)
  · obtain ⟨hq, hqgone⟩ := present_iff.1 hq
    by_cases hjk : j = k
    · subst hjk
      cases (setPeer_self s j _).symm.trans hq
      exact ⟨sent', wire', hkeeps', hbalanced⟩
    · obtain ⟨sent, wire, hkeeps, hbal⟩ := hs.peers j q (present_iff.2 ⟨hsame j q hjk hq, hqgone⟩)
      refine ⟨sent, wire, hkeeps, ?_⟩
      unfold Balanced at hbal ⊢
      rw [hhist, hat j hjk]
      exact hbal
  · have hjk : j ≠ k := by
      rintro rfl
      exact absurd (hs.id_lt hpeer) (Nat.not_lt.2 hj)
    rw [hat j hjk]
    exact hs.strangers j hj
  · by_cases hjk : j = k
    · subst hjk
      unfold Balanced at hbalanced
      exact (List.sublist_append_left ..).subperm.trans hbalanced.subperm
    · rw [hat j hjk]
      exact hs.told j

/-- A client leaves, and is not there any more. -/
theorem Isolated.leave (hs : Isolated h (fun _ => []) s) {k : ConnId} {p : Peer} (hp : s.peer k = some p) :
    Isolated h (fun _ => []) (s.setPeer k { p with gone := true }) := by
  have hsame : ∀ j q, j ≠ k → (s.setPeer k { p with gone := true }).peer j = some q → s.peer j = some q :=
    fun j q hj hq => (setPeer_of_ne s hj _).symm.trans hq
  have hpresent : ∀ j q, (s.setPeer k { p with gone := true }).present j = some q → s.present j = some q := by
    intro j q hq
    obtain ⟨hq, hgone⟩ := present_iff.1 hq
    by_cases hj : j = k
    · subst hj
      cases (setPeer_self s j _).symm.trans hq
      cases hgone
    · exact present_iff.2 ⟨hsame j q hj hq, hgone⟩
  refine ⟨hs.fault, hs.server.mono fun j a hj => ?_, hs.lists, fun j q hq => ?_, fun j q hq => ?_,
    fun j q hq => hs.peers j q (hpresent j q hq), hs.strangers, hs.told⟩
  · obtain ⟨q, hq, rfl⟩ := Option.map_eq_some_iff.1 hj
    exact connOf_some (hpresent j q hq)
  · by_cases hj : j = k
    · subst hj
      cases (setPeer_self s j _).symm.trans hq
      exact hs.kept j p hp
    · exact hs.kept j q (hsame j q hj hq)
  · by_cases hj : j = k
    · subst hj
      cases (setPeer_self s j _).symm.trans hq
      exact hs.wires j p hp
    · exact hs.wires j q (hsame j q hj hq)

/-- A client that has left is forgotten. -/
theorem Isolated.drop (hs : Isolated h (fun _ => []) s) (k : ConnId) : Isolated h (fun _ => []) (s.dropPeer k) := by
  have hsame : ∀ j q, (s.dropPeer k).peer j = some q → s.peer j = some q := by
    intro j q hq
    have hj : j ≠ k := by
      rintro rfl
      rw [dropPeer_self] at hq
      cases hq
    exact (dropPeer_of_ne s hj).symm.trans hq
  have hpresent : ∀ j q, (s.dropPeer k).present j = some q → s.present j = some q := by
    intro j q hq
    obtain ⟨hq, hgone⟩ := present_iff.1 hq
    exact present_iff.2 ⟨hsame j q hq, hgone⟩
  refine ⟨hs.fault, hs.server.mono fun j a hj => ?_, hs.lists, fun j q hq => hs.kept j q (hsame j q hq),
    fun j q hq => hs.wires j q (hsame j q hq), fun j q hq => hs.peers j q (hpresent j q hq), hs.strangers, hs.told⟩
  obtain ⟨q, hq, rfl⟩ := Option.map_eq_some_iff.1 hj
  exact connOf_some (hpresent j q hq)

/-- A client connects at an address that nothing under way names. -/
theorem Isolated.connect (hs : Isolated h (fun _ => []) s) {addr : Addr}
    (hdeque : ∀ b ∈ s.server.exec.deque, b.mClient ≠ some addr) (hasyncs : ∀ n ∈ s.server.asyncs, n.client ≠ some addr)
    {u : CanIPCServer A api} {eu : List (Event A)}
    (hstep : (serverMachine A api).step s.server (.newConnection 0 addr 0) = some (u, eu)) :
    Isolated (h ++ eu.map .server) (fun _ => [])
      (Net.setPeer { s with
        server := u
        peer := fun k => (s.peer k).map fun p => { p with toClient := p.toClient ++ writtenTo k eu } }
        s.server.nextId (.new addr)) := by
  obtain ⟨rfl, hasyncs', hnext, hmem, hfree, hside⟩ := accepted_net hs.server hstep
  obtain ⟨hclient, hserver⟩ := ofServer_net api ([.accepted s.server.nextId] : List (Event A))
  have hat : ∀ k, atClient k (h ++ ([.accepted s.server.nextId] : List (Event A)).map .server) = atClient k h := by
    intro k
    rw [atClient_append, hclient, List.append_nil]
  have hhist : atServer (h ++ ([.accepted s.server.nextId] : List (Event A)).map .server) =
      atServer h ++ [.accepted s.server.nextId] := by rw [atServer_append, hserver]
  have howed : ∀ a, owedTo a (atServer h ++ [.accepted s.server.nextId]) u = owedTo a (atServer h) s.server := by
    intro a
    rw [owedTo, owedTo, hasyncs', execOf_append]
    exact congrArg (fun g => _ ++ (fromConn a (waitingOf g)).map fun q => answer api q.2) (List.append_nil _)
  have hpeer : ∀ k, k ≠ s.server.nextId → ∀ q, (s.peer k).map (fun p =>
      { p with toClient := p.toClient ++ writtenTo k ([.accepted s.server.nextId] : List (Event A)) }) = some q →
      s.peer k = some q := by
    rintro k - q hq
    obtain ⟨p, hp, rfl⟩ := Option.map_eq_some_iff.1 hq
    rw [hp]
    have hnil : p.toClient ++ writtenTo k ([.accepted s.server.nextId] : List (Event A)) = p.toClient :=
      List.append_nil _
    rw [hnil]
  have hkept : ∀ k q, s.peer k = some q → ∃ c, u.mem q.conn = some ⟨k, c⟩ := by
    intro k q hq
    obtain ⟨c, hc⟩ := hs.kept k q hq
    refine ⟨c, ?_⟩
    rw [hmem, Function.update_of_ne]
    · exact hc
    · intro heq
      rw [heq, hfree] at hc
      cases hc
  refine ⟨hs.fault, ?_, ?_, fun k q hq => ?_, fun k q hq => ?_, fun k q hq => ?_, fun k hk => ?_, fun k => ?_⟩
  · rw [hhist]
    refine hside.mono fun k a hk => ?_
    obtain ⟨q, hq, hgone, rfl⟩ := of_connOf hk
    by_cases hk : k = s.server.nextId
    · subst hk
      cases (setPeer_self _ s.server.nextId _).symm.trans hq
      exact Function.update_self ..
    · rw [Function.update_of_ne hk]
      exact connOf_some (present_iff.2 ⟨hpeer k hk q ((setPeer_of_ne _ hk _).symm.trans hq), hgone⟩)
  · rw [hhist]
    exact lists_step (i := .newConnection 0 addr 0) hs.lists hstep
  · by_cases hk : k = s.server.nextId
    · subst hk
      cases (setPeer_self _ s.server.nextId _).symm.trans hq
      refine ⟨false, ?_⟩
      rw [setPeer_server, hmem]
      exact Function.update_self ..
    · exact hkept k q (hpeer k hk q ((setPeer_of_ne _ hk _).symm.trans hq))
  · by_cases hk : k = s.server.nextId
    · subst hk
      cases (setPeer_self _ s.server.nextId _).symm.trans hq
      exact ⟨[], rfl⟩
    · exact hs.wires k q (hpeer k hk q ((setPeer_of_ne _ hk _).symm.trans hq))
  · obtain ⟨hq, hgone⟩ := present_iff.1 hq
    by_cases hk : k = s.server.nextId
    · subst hk
      cases (setPeer_self _ s.server.nextId _).symm.trans hq
      refine ⟨[], [], ⟨⟨rfl, rfl, rfl, rfl, rfl⟩, fun b hb => (by cases hb), rfl, rfl⟩, ?_⟩
      unfold Balanced
      rw [hat, hs.strangers _ le_rfl, hhist, setPeer_server, howed, show (Peer.new addr).conn = addr from rfl,
        owedTo_free hs.server hdeque hasyncs]
      exact List.Perm.refl _
    · have hq := hpeer k hk q ((setPeer_of_ne _ hk _).symm.trans hq)
      obtain ⟨sent, wire, hkeeps, hbal⟩ := hs.peers k q (present_iff.2 ⟨hq, hgone⟩)
      refine ⟨sent, wire, hkeeps, ?_⟩
      unfold Balanced at hbal ⊢
      rw [hat, hhist]
      show (_ ++ (owedTo q.conn _ u ++ _ ++ _)).Perm _
      rw [howed]
      exact hbal
  · have hk : u.nextId ≤ k := hk
    rw [hnext] at hk
    rw [hat]
    exact hs.strangers k (Nat.le_of_succ_le hk)
  · rw [hat]
    exact hs.told k

/-- The XFS manager of the client that reads has memory for what it posts, and a new connection is at an address that
no command in the deque and no notice names. -/
def Apart (s : Net A api) : NetInput → Prop
  | .client _ i => Allocates i
  | .connect addr =>
    (∀ b ∈ s.server.exec.deque, b.mClient ≠ some addr) ∧ ∀ n ∈ s.server.asyncs, n.client ≠ some addr
  | .leave _ | .serverRead .. | .readEnd _ | .closed _ | .server _ => True

instance (s : Net A api) : (i : NetInput) → Decidable (Apart s i)
  | .client _ i => inferInstanceAs (Decidable (Allocates i))
  | .connect _ => by unfold Apart; infer_instance
  | .leave _ | .serverRead .. | .readEnd _ | .closed _ | .server _ => inferInstanceAs (Decidable True)

/-- A command is read from a client's wire: its answer is taken from what is on its way, if the client is there. -/
theorem Isolated.readWire (hs : Isolated h (fun _ => []) s) {k : ConnId} {p : Peer} (hp : s.peer k = some p)
    {chunk : List UInt8} {rest : List (List UInt8)} (hwire : p.client.ipc.wire = chunk :: rest) :
    ∃ m : Command A, chunk = serializeCmd m ∧
      Isolated h (fun j => if s.connOf j = some p.conn then [answer api m.obj] else [])
        (s.setPeer k { p with client := { p.client with ipc := { p.client.ipc with wire := rest } } }) := by
  obtain ⟨ms, hms⟩ := hs.wires k p hp
  rw [hwire] at hms
  obtain ⟨m, ms', rfl, rfl, rfl⟩ := List.map_eq_cons_iff.1 hms.symm
  have hconn := connOf_setPeer (q := { p with client := { p.client with
    ipc := { p.client.ipc with wire := ms'.map serializeCmd } } }) hp rfl rfl
  have hsame : ∀ j q, j ≠ k → (s.setPeer k { p with client := { p.client with
      ipc := { p.client.ipc with wire := ms'.map serializeCmd } } }).peer j = some q → s.peer j = some q :=
    fun j q hj hq => (setPeer_of_ne s hj _).symm.trans hq
  refine ⟨m, rfl, hs.fault, ?_, hs.lists, fun j q hq => ?_, fun j q hq => ?_, fun j q hq => ?_, hs.strangers, hs.told⟩
  · rw [hconn]
    exact hs.server
  · by_cases hj : j = k
    · subst hj
      cases (setPeer_self s j _).symm.trans hq
      exact hs.kept j p hp
    · exact hs.kept j q (hsame j q hj hq)
  · by_cases hj : j = k
    · subst hj
      cases (setPeer_self s j _).symm.trans hq
      exact ⟨ms', rfl⟩
    · exact hs.wires j q (hsame j q hj hq)
  · obtain ⟨hq, hgone⟩ := present_iff.1 hq
    by_cases hj : j = k
    · subst hj
      cases (setPeer_self s j _).symm.trans hq
      have hpresent := present_iff.2 ⟨hp, hgone⟩
      obtain ⟨sent, wire, hkeeps, hbal⟩ := hs.peers j p hpresent
      have hmap := hkeeps.onWire
      rw [hwire] at hmap
      obtain ⟨m', wire', rfl, hm, hrest⟩ := List.map_eq_cons_iff.1 hmap.symm
      have hobj : m'.obj = m.obj := serialized_obj hm
      refine ⟨sent, wire', ⟨hkeeps.up.congr rfl rfl, hkeeps.arrives, hkeeps.asyncs, hrest.symm⟩, ?_⟩
      unfold Balanced at hbal ⊢
      rw [if_pos (connOf_some hpresent), setPeer_server]
      refine List.Perm.trans (List.Perm.append_left _ ?_) hbal
      simp only [onItsWay, List.map_cons, List.append_nil, hobj]
      rw [List.perm_iff_count]
      intro x
      simp only [List.count_append, List.count_cons, List.count_nil]
      omega
    · have hq := hsame j q hj hq
      obtain ⟨sent, wire, hkeeps, hbal⟩ := hs.peers j q (present_iff.2 ⟨hq, hgone⟩)
      refine ⟨sent, wire, hkeeps, ?_⟩
      have hne : s.connOf j ≠ some p.conn := by
        rw [connOf_some (present_iff.2 ⟨hq, hgone⟩)]
        exact fun heq => hs.conn_ne hq hp hj (Option.some.inj heq)
      rw [if_neg hne]
      exact hbal

/-- Every step keeps the clients apart. -/
theorem isolated_step {i : NetInput} (hs : Isolated h (fun _ => []) s) (hi : Apart s i)
    (hstep : (netMachine A api).step s i = some (t, e)) : Isolated (h ++ e) (fun _ => []) t := by
  simp only [netMachine, Net.step] at hstep
  rw [if_neg (not_not.2 hs.fault)] at hstep
  cases i with
  | connect addr =>
    obtain ⟨⟨v, ev⟩, hv, hstep⟩ := Option.map_eq_some_iff.1 hstep
    obtain ⟨⟨u, eu⟩, hu, hv⟩ := Option.map_eq_some_iff.1 hv
    cases hv
    cases hstep
    exact hs.connect hi.1 hi.2 hu
  | client k i =>
    obtain ⟨hof, hstep⟩ := Option.ite_none_right_eq_some.1 hstep
    obtain ⟨p, hp, hstep⟩ := Option.bind_eq_some_iff.1 hstep
    obtain ⟨⟨l, el⟩, hl, hstep⟩ := Option.map_eq_some_iff.1 hstep
    cases hstep
    exact hs.client_step hp hof hi hl
  | leave k =>
    obtain ⟨p, hp, hstep⟩ := Option.map_eq_some_iff.1 hstep
    cases hstep
    rw [List.append_nil]
    exact hs.leave (present_iff.1 hp).1
  | serverRead k now =>
    obtain ⟨p, hp, hstep⟩ := Option.bind_eq_some_iff.1 hstep
    split at hstep
    · cases hstep
    rename_i chunk rest hwire
    obtain ⟨⟨u, eu⟩, hu, hstep⟩ := Option.map_eq_some_iff.1 hstep
    cases hstep
    obtain ⟨m, rfl, hread⟩ := hs.readWire hp hwire
    refine hread.server_step (i := .read p.conn (serializeCmd m) now) (fun _ _ _ => by simp) hu ?_
    rw [← connOf_setPeer (q := { p with client := { p.client with ipc := { p.client.ipc with wire := rest } } }) hp rfl
      rfl]
    exact paysEach_read hread.server p.conn m hu
  | readEnd k =>
    obtain ⟨p, hp, hstep⟩ := Option.bind_eq_some_iff.1 hstep
    obtain ⟨hpeer, hgone⟩ := departed_iff.1 hp
    obtain ⟨⟨u, eu⟩, hu, hstep⟩ := Option.map_eq_some_iff.1 hstep
    cases hstep
    refine hs.server_step (i := .readError p.conn) (fun _ _ _ => by simp) hu
      (paysEach_gone hs.server (fun j a hj => ?_) (.inl rfl) hu)
    obtain ⟨q, hq, hqgone, rfl⟩ := of_connOf hj
    refine hs.conn_ne hq hpeer ?_
    rintro rfl
    rw [hpeer] at hq
    cases hq
    rw [hgone] at hqgone
    cases hqgone
  | closed k =>
    obtain ⟨p, hp, hstep⟩ := Option.bind_eq_some_iff.1 hstep
    obtain ⟨hpeer, hgone⟩ := departed_iff.1 hp
    obtain ⟨⟨u, eu⟩, hu, hstep⟩ := Option.map_eq_some_iff.1 hstep
    cases hstep
    have hdrop := hs.drop k
    have hothers : ∀ j q, (s.dropPeer k).peer j = some q → q.conn ≠ p.conn := by
      intro j q hq
      have hj : j ≠ k := by
        rintro rfl
        rw [dropPeer_self] at hq
        cases hq
      exact hs.conn_ne ((dropPeer_of_ne s hj).symm.trans hq) hpeer hj
    refine hdrop.server_step (i := .closed p.conn) (fun j q hq => ?_) hu
      (paysEach_gone hdrop.server (fun j a hj => ?_) (.inr rfl) hu)
    · rintro h
      exact hothers j q hq (Input.closed.inj h).symm
    · obtain ⟨q, hq, -, rfl⟩ := of_connOf hj
      exact hothers j q hq
  | server i =>
    obtain ⟨hserves, hstep⟩ := Option.ite_none_right_eq_some.1 hstep
    obtain ⟨⟨u, eu⟩, hu, hstep⟩ := Option.map_eq_some_iff.1 hstep
    cases hstep
    have hnot : ∀ a, i ≠ .closed a := by
      rintro a rfl
      exact hserves
    refine hs.server_step (fun _ _ _ => hnot _) hu (paysEach_serves hs.server hs.lists.distinct hserves ?_ hu)
    intro k a hk
    obtain ⟨p, hp, hgone, rfl⟩ := of_connOf hk
    exact ⟨hs.id_lt hp, p, hp, hgone, rfl⟩

end Steps

/-- In every run of the server with any number of clients that connect and leave, where the XFS manager has memory and
no connection is accepted at an address that a command in the deque or a notice still names: what a client is posted are
answers to its own calls, none of them twice, whatever the other clients do; and once nothing is under way for a client
that is there, all of them. -/
theorem each_answered {x : CanXfs A api} {is : List NetInput} {s : Net A api} {es : List (NetEvent A api)}
    (hapart : (netMachine A api).Meets Apart (Net.new x) is)
    (hr : (netMachine A api).run (Net.new x) is = some (s, es)) (k : ConnId) :
    (completionsOf (atClient k es)).Subperm ((callsOf (atClient k es)).filterMap (answered api)) ∧
    ∀ p, s.present k = some p → s.DrainedFor p →
      (completionsOf (atClient k es)).Perm ((callsOf (atClient k es)).filterMap (answered api)) := by
  have hs := Machine.run_invariant (M := netMachine A api) (G := Apart) (I := fun h s => Isolated h (fun _ => []) s)
    (fun h s i t e hs hi hstep => isolated_step hs hi hstep) is [] (Net.new x) s es (isolated_new x) hapart hr
  rw [List.nil_append] at hs
  refine ⟨hs.told k, fun p hp hd => ?_⟩
  obtain ⟨sent, wire, hkeeps, hbal⟩ := hs.peers k p hp
  unfold Balanced at hbal
  have hsent : sent = [] := List.map_eq_nil_iff.1 (hkeeps.asyncs.symm.trans hd.asyncs)
  have hwire : wire = [] := List.map_eq_nil_iff.1 (hkeeps.onWire.symm.trans hd.wire)
  rw [owedTo_free hs.server hd.deque hd.notices, onItsWay, hsent, hwire, hd.toClient] at hbal
  simpa using hbal

instance (s : Net A api) (p : Peer) : Decidable (s.DrainedFor p) :=
  decidable_of_iff (p.client.asyncs = [] ∧ p.client.ipc.wire = [] ∧
    (∀ b ∈ s.server.exec.deque, b.mClient ≠ some p.conn) ∧ (∀ n ∈ s.server.asyncs, n.client ≠ some p.conn) ∧
    p.toClient = [])
    ⟨fun ⟨h1, h2, h3, h4, h5⟩ => ⟨h1, h2, h3, h4, h5⟩, fun ⟨h1, h2, h3, h4, h5⟩ => ⟨h1, h2, h3, h4, h5⟩⟩

/-- Two clients open the same service with the same request id, from windows 5 and 6; the second is read first, leaves,
and is erased before its answer is delivered; then a third one is accepted at its address. -/
def twoOpens : List NetInput :=
  [.connect 0, .connect 1, .client 0 (.call openCall ⟨0, 0, 0, true, 0⟩),
    .client 1 (.call (.wfpOpen 1 (ascii "CIM") 0 (ascii "app") 0 0 6 1 0 0x00030003 none 0x00030003 none)
      ⟨0, 0, 0, true, 0⟩),
    .client 0 (.sendCmd 0), .client 1 (.sendCmd 0), .serverRead 1 midnight, .leave 1, .serverRead 0 midnight] ++
    List.replicate 14 (.server (.run midnight)) ++
    [.readEnd 1, .closed 1, .server (.notify 0 (fun _ => 0) true), .connect 1, .server (.notify 0 (fun _ => 0) false),
      .client 0 (.clientRead true)]

/-- The first client has its answer, the second had none, and neither has the third. -/
theorem twoOpens_answered : ∃ s es, (netMachine .x86 .documented).run (Net.new .blank) twoOpens = some (s, es) ∧
    callsOf (atClient 0 es) = [openCall] ∧
    (completionsOf (atClient 0 es)).Perm ((callsOf (atClient 0 es)).filterMap (answered .documented)) ∧
    callsOf (atClient 2 es) = [] ∧ completionsOf (atClient 2 es) = [] := by
  obtain ⟨s, es, hr, p, hp, hd, hcalls, hthird⟩ : ∃ s es,
      (netMachine .x86 .documented).run (Net.new .blank) twoOpens = some (s, es) ∧
        ∃ p ∈ s.present 0, s.DrainedFor p ∧ callsOf (atClient 0 es) = [openCall] ∧ callsOf (atClient 2 es) = [] :=
    Machine.run_any (by decide +kernel)
  have hanswered := each_answered (by decide +kernel) hr
  have hnone := (hanswered 2).1
  rw [hthird] at hnone
  exact ⟨s, es, hr, hcalls, (hanswered 0).2 p hp hd, hthird, List.subperm_nil.1 hnone⟩

end AnXfs.System
