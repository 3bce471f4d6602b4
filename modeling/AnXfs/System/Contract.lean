/-
The contract of the service provider: every asynchronous request is completed exactly once, to its own
window and under its own message. What is under way between the call and the post is conserved, step by
step; so a drained run has posted exactly the answers to the commands that were sent. Four entry
points break the contract: Lock, Unlock, Cancel and SetTraceLevel have the commander of Open in their
slots, and Unlock is not even sent.
-/
import AnXfs.System.Owed

namespace AnXfs.System

open AnXfs.Wire AnXfs.Pack AnXfs.Run AnXfs.Server AnXfs.Client

variable {A : Arch} {api : XfsApi}

/-! ## What a call is answered with -/

/-- The completion that a successful call causes. -/
def answered (api : XfsApi) (c : SpiCall) : Option Completion :=
  if c.sends then some ⟨c.hWnd, answerMsg api c.type, some (c.hService, c.reqId)⟩ else none

/-- The calls whose type has the commander of another in its slot. -/
def MisroutedCall (c : SpiCall) : Prop :=
  c.type ∈ [AnWfpType.wfpCancelAsyncRequest, .wfpLock, .wfpSetTraceLevel, .wfpUnlock]

instance (c : SpiCall) : Decidable (MisroutedCall c) := by unfold MisroutedCall; infer_instance

theorem answered_of_stands {c : SpiCall} {m : Command A} (h : c.Stands m) :
    answer api m.obj = ⟨c.hWnd, answerMsg api c.type, some (c.hService, c.reqId)⟩ := by
  rw [answer_of_type h.eType, h.hWnd, h.hService, h.reqId]

theorem answered_eq_expected {c : SpiCall} (h : ¬ MisroutedCall c) : answered api c = expected api c := by
  cases c with
  | wfpCancelAsyncRequest | wfpLock | wfpSetTraceLevel | wfpUnlock =>
    exact absurd (by simp [MisroutedCall, SpiCall.type]) h
  | wfpClose | wfpDeregister | wfpExecute | wfpGetInfo | wfpOpen | wfpRegister => rfl

/-- No call is answered with the completion of a Lock or of an Unlock. -/
theorem answered_message {c : SpiCall} {x : Completion} (h : answered api c = some x) :
    x.dwMsg ≠ api.wfsLockComplete ∧ x.dwMsg ≠ api.wfsUnlockComplete := by
  have hnodup := api.messages_nodup
  simp only [List.nodup_cons, List.mem_cons, List.not_mem_nil, or_false, not_or] at hnodup
  unfold answered at h
  split at h
  swap
  · cases h
  cases h
  cases c <;>
    simp only [SpiCall.type, answerMsg, commander, CommanderClass.message, reduceCtorEq, if_false, if_true] <;>
    constructor <;> intro heq <;> simp_all

/-- The answers are the completions expected, up to their order, exactly if no call is misrouted. -/
theorem answered_perm_iff (calls : List SpiCall) :
    (calls.filterMap (answered api)).Perm (calls.filterMap (expected api)) ↔ ∀ c ∈ calls, ¬ MisroutedCall c := by
  constructor
  · intro hp
    -- a Lock or an Unlock expects a message that no answer has
    have hmsg : ∀ c ∈ calls, ∀ x, expected api c = some x →
        x.dwMsg ≠ api.wfsLockComplete ∧ x.dwMsg ≠ api.wfsUnlockComplete := by
      intro c hc x hx
      have hmem : x ∈ calls.filterMap (answered api) := hp.mem_iff.2 (List.mem_filterMap.2 ⟨c, hc, hx⟩)
      obtain ⟨d, -, hd⟩ := List.mem_filterMap.1 hmem
      exact answered_message hd
    have hsends : ∀ c ∈ calls, (answered api c).isSome = true := by
      intro c hc
      cases c with
      | wfpUnlock => exact absurd rfl (hmsg _ hc _ rfl).2
      | _ => rfl
    -- as every call is answered, every call expects something
    have hlen := hp.length_eq
    rw [List.length_filterMap_eq_countP, List.length_filterMap_eq_countP, List.countP_eq_length.2 hsends] at hlen
    have hexpects := List.countP_eq_length.1 hlen.symm
    intro c hc
    cases c with
    | wfpLock => exact absurd rfl (hmsg _ hc _ rfl).1
    | wfpUnlock => exact absurd rfl (hmsg _ hc _ rfl).2
    | wfpCancelAsyncRequest | wfpSetTraceLevel => cases hexpects _ hc
    | wfpClose | wfpDeregister | wfpExecute | wfpGetInfo | wfpOpen | wfpRegister =>
      simp [MisroutedCall, SpiCall.type]
  · intro h
    have heq : calls.filterMap (answered api) = calls.filterMap (expected api) :=
      List.filterMap_congr fun c hc => answered_eq_expected (h c hc)
    rw [heq]

/-! ## The client's side of the link -/

/-- The XFS manager has memory for the messages that a read makes the client post. -/
def Allocates : LinkInput → Prop
  | .clientRead mem => mem = true
  | _ => True

instance : (i : LinkInput) → Decidable (Allocates i)
  | .clientRead _ => by unfold Allocates; infer_instance
  | .call .. | .sendCmd .. | .serverRead .. | .notify .. | .written .. | .run .. | .idle .. | .itemCheck ..
  | .loopExit => inferInstanceAs (Decidable True)

/-- A result read by the client is posted as the completion that it is, and nothing else is. -/
theorem onClientRead_posts {c : AnCimSp} (hc : c.Up) {r : AnXfsResult A} (hd : Decodes api r) :
    ∃ service posts, onClientRead A api c (serializeResult (AnXfsResult.codec A) r) true =
        .ok ({ c with service := service }, posts) ∧ posts.filterMap completionOf = (ofResult api r).toList := by
  have hread : c.ipc.onRead A (serializeResult (AnXfsResult.codec A) r) =
      (c.ipc, [.read (serializeResult (AnXfsResult.codec A) r), .result r, .freed]) := by
    have hget := (AnXfsResult.codec A).get_put r []
    rw [List.append_nil] at hget
    unfold CanIPC.onRead serializeResult
    rw [hget, hc.resultCb]
    rfl
  have hres : resultsOf [.read (serializeResult (AnXfsResult.codec A) r), .result r, .freed] = [r] := rfl
  unfold onClientRead
  simp only [hread, hres, hc.fault]
  by_cases hclass : anGetXfsmessageClass api r.dwMsg = 0
  · obtain ⟨service, b, hh⟩ := handler_completion hd hclass c.service
    rw [hh, ofResult, if_pos hclass]
    refine ⟨service, _, rfl, ?_⟩
    simp only [List.filterMap_cons, List.filterMap_nil, completionOf, if_pos hclass]
    rfl
  · obtain ⟨posts, hh, hmsg⟩ := handler_event hd hclass c.service true
    rw [hh, ofResult, if_neg hclass]
    refine ⟨c.service, posts, rfl, ?_⟩
    rw [Option.toList_none, List.filterMap_eq_nil_iff]
    intro p hp
    rw [completionOf, hmsg p hp, if_neg hclass]

/-- Every successful call whose command was sent is answered by a completion that is posted, or under way:
unread, owed by the server, on the wire or on the client's loop. -/
structure Conserves (h : List (LinkEvent A api)) (s : Link A api) (sent wire : List (Command A)) : Prop where
  client : s.client.Up
  fault : s.fault = none
  server : ServerSide s.conn (serverOf h) s.server
  arrives : ∀ b ∈ s.toClient, Arrives A api b
  asyncs : s.client.asyncs = sent.map serializeCmd
  onWire : s.client.ipc.wire = wire.map serializeCmd
  balance : (completionsOf h ++ s.toClient.filterMap (ofBuf A api) ++ owed (serverOf h) s.server ++
    wire.map (fun m => answer api m.obj) ++ sent.map (fun m => answer api m.obj)).Perm
      ((callsOf h).filterMap (answered api))

theorem conserves_new (x : CanXfs A api) (conn : Addr) : Conserves [] (Link.new x conn) [] [] := by
  refine ⟨⟨rfl, rfl, rfl, rfl, rfl⟩, rfl, ⟨?_, rfl, ordered_new x, ?_, ?_⟩, ?_, rfl, rfl, List.Perm.refl _⟩
  · exact Function.update_self ..
  · intro q hq
    cases hq
  · intro n hn
    cases hn
  · intro b hb
    cases hb

section Steps

variable {h : List (LinkEvent A api)} {s : Link A api} {sent wire : List (Command A)}

/-- An application makes a call. -/
theorem Conserves.call (hs : Conserves h s sent wire) (c : SpiCall) {env : CallEnv}
    (hrun : env.run = 0 ∧ env.active = s.client.ipc.active) :
    ∃ sent', Conserves (h ++ [.called c (c.invoke A api s.client env).2])
      { s with client := (c.invoke A api s.client env).1 } sent' wire := by
  obtain ⟨m, hstands, hsucc, hfail⟩ := invoke_sent A api hs.client ⟨hrun.1, hrun.2.trans hs.client.active⟩ c
  have hserver : serverOf (h ++ [.called c (c.invoke A api s.client env).2]) = serverOf h :=
    (serverOf_append ..).trans (List.append_nil _)
  have hcomp : completionsOf (h ++ [.called c (c.invoke A api s.client env).2]) = completionsOf h :=
    (completionsOf_append ..).trans (List.append_nil _)
  by_cases hr : (c.invoke A api s.client env).2 = api.wfsSuccess
  · -- the command of the call is on the client's loop, unless the call was an Unlock
    obtain ⟨service, hc⟩ := hsucc hr
    have hcalls : callsOf (h ++ [.called c (c.invoke A api s.client env).2]) = callsOf h ++ [c] := by
      rw [callsOf_append]
      simp [callsOf, hr]
    rw [hc]
    refine ⟨sent ++ (if c.sends then [m] else []), ⟨?_, hs.fault, ?_, hs.arrives, ?_, hs.onWire, ?_⟩⟩
    · exact hs.client.congr rfl rfl
    · rw [hserver]; exact hs.server
    · show s.client.asyncs ++ _ = _
      rw [hs.asyncs, List.map_append]
      split <;> rfl
    · rw [hserver, hcomp, hcalls, List.filterMap_append, List.map_append, ← List.append_assoc]
      refine hs.balance.append ?_
      unfold answered
      by_cases hsend : c.sends = true
      · simp only [hsend, if_true, List.filterMap_cons, List.filterMap_nil, List.map_cons, List.map_nil]
        rw [answered_of_stands hstands]
      · simp [hsend]
  · obtain ⟨service, hc⟩ := hfail hr
    have hcalls : callsOf (h ++ [.called c (c.invoke A api s.client env).2]) = callsOf h := by
      rw [callsOf_append]
      simp [callsOf, hr]
    rw [hc]
    refine ⟨sent, ⟨?_, hs.fault, ?_, hs.arrives, ?_, hs.onWire, ?_⟩⟩
    · exact hs.client.congr rfl rfl
    · rw [hserver]; exact hs.server
    · exact (List.append_nil _).trans hs.asyncs
    · rw [hserver, hcomp, hcalls]
      exact hs.balance

/-- `on_send_cmd` of a command. -/
theorem Conserves.sendCmd (hs : Conserves h s sent wire) {i : Nat} {data : List UInt8}
    (hi : s.client.asyncs[i]? = some data) :
    ∃ sent' wire', Conserves h
      { s with client := { s.client with asyncs := s.client.asyncs.eraseIdx i, ipc := (s.client.ipc.write data 0).1 } }
      sent' wire' := by
  have hw : (s.client.ipc.write data 0).1 = { s.client.ipc with wire := s.client.ipc.wire ++ [data] } := by
    simp [CanIPC.write, hs.client.active]
  rw [hs.asyncs, List.getElem?_map] at hi
  obtain ⟨m, hm, rfl⟩ := Option.map_eq_some_iff.1 hi
  rw [hw]
  refine ⟨sent.eraseIdx i, wire ++ [m], ⟨?_, hs.fault, hs.server, hs.arrives, ?_, ?_, ?_⟩⟩
  · exact hs.client.congr rfl rfl
  · show s.client.asyncs.eraseIdx i = _
    rw [hs.asyncs, List.eraseIdx_map]
  · show s.client.ipc.wire ++ _ = _
    rw [hs.onWire, List.map_append]
    rfl
  · refine List.Perm.trans ?_ hs.balance
    have hperm := (perm_eraseIdx hm).map fun m => answer api m.obj
    rw [List.map_append]
    simp only [List.append_assoc]
    refine List.Perm.append_left _ (List.Perm.append_left _ (List.Perm.append_left _ (List.Perm.append_left _ ?_)))
    exact hperm.symm

/-- A step of the server, whatever it reads. -/
theorem Conserves.server_step (hs : Conserves h s sent wire) (rest read : List (Command A))
    (hwire : wire = read ++ rest) {t : CanIPCServer A api} {e : List (Event A)}
    (hp : Pays s.conn (serverOf h) s.server (read.map fun m => answer api m.obj) e t) :
    Conserves (h ++ e.map .server)
      { s.readWire (rest.map serializeCmd) with server := t, toClient := s.toClient ++ written e } sent rest := by
  obtain ⟨hcalls, hcomp, hserver⟩ := ofServer api e
  have hhist : serverOf (h ++ e.map .server) = serverOf h ++ e := by rw [serverOf_append, hserver]
  refine ⟨?_, hs.fault, ?_, fun b hb => ?_, hs.asyncs, rfl, ?_⟩
  · exact hs.client.congr rfl rfl
  · rw [hhist]; exact hp.side
  · rcases List.mem_append.1 hb with hb | hb
    · exact hs.arrives b hb
    · exact hp.arrives b hb
  · rw [hhist, completionsOf_append, hcomp, callsOf_append, hcalls, List.append_nil, List.append_nil]
    refine List.Perm.trans ?_ hs.balance
    rw [hwire, List.filterMap_append, List.map_append]
    -- what is owed moves between three lists, so it is counted
    have hbal := hp.balance
    rw [List.perm_iff_count] at hbal ⊢
    intro x
    have hx := hbal x
    simp only [List.count_append] at hx ⊢
    omega

/-- The client reads a message. -/
theorem Conserves.client_read (hs : Conserves h s sent wire) {chunk : List UInt8} {rest : List (List UInt8)}
    (hread : s.toClient = chunk :: rest) :
    ∃ service posts, onClientRead A api s.client chunk true = .ok ({ s.client with service := service }, posts) ∧
      Conserves (h ++ posts.map .posted)
        { s with toClient := rest, client := { s.client with service := service } } sent wire := by
  obtain ⟨r, rfl, hd⟩ := hs.arrives chunk (by rw [hread]; exact List.mem_cons_self ..)
  obtain ⟨service, posts, hok, hposts⟩ := onClientRead_posts hs.client hd
  refine ⟨service, posts, hok, ?_⟩
  have hcomp : completionsOf (posts.map .posted : List (LinkEvent A api)) = posts.filterMap completionOf := by
    rw [completionsOf, List.filterMap_map]
    rfl
  have hserver : serverOf (posts.map .posted : List (LinkEvent A api)) = [] := by
    rw [serverOf, List.filterMap_map, List.filterMap_eq_nil_iff]
    intro _ _
    rfl
  have hcalls : callsOf (posts.map .posted : List (LinkEvent A api)) = [] := by
    rw [callsOf, List.filterMap_map, List.filterMap_eq_nil_iff]
    intro _ _
    rfl
  refine ⟨?_, hs.fault, ?_, fun b hb => ?_, hs.asyncs, hs.onWire, ?_⟩
  · exact hs.client.congr rfl rfl
  · rw [serverOf_append, hserver, List.append_nil]; exact hs.server
  · exact hs.arrives b (by rw [hread]; exact List.mem_cons_of_mem _ hb)
  · rw [serverOf_append, hserver, callsOf_append, hcalls, completionsOf_append, hcomp, hposts, List.append_nil,
      List.append_nil]
    have hbal := hs.balance
    rw [hread, List.filterMap_cons, ofBuf_serialize] at hbal
    -- an event posts no completion and was none while it was under way
    cases hof : ofResult api r with
    | none =>
      rw [hof] at hbal
      rw [Option.toList_none, List.append_nil]
      exact hbal
    | some x =>
      rw [hof] at hbal
      simp only [Option.toList_some, List.append_assoc, List.cons_append, List.nil_append] at hbal ⊢
      exact hbal

end Steps

/-- Every step conserves. -/
theorem conserves_step {h : List (LinkEvent A api)} {s t : Link A api} {i : LinkInput} {e : List (LinkEvent A api)}
    (hs : ∃ sent wire, Conserves h s sent wire) (hi : Allocates i)
    (hstep : (linkMachine A api).step s i = some (t, e)) :
    ∃ sent wire, Conserves (h ++ e) t sent wire := by
  obtain ⟨sent, wire, hs⟩ := hs
  simp only [linkMachine, Link.step] at hstep
  rw [if_neg (not_not.2 hs.fault)] at hstep
  have hserver : ∀ k, i.server? = some k → s.serverStep k = some (t, e) →
      ∃ sent wire, Conserves (h ++ e) t sent wire := by
    intro k hk hstep
    obtain ⟨⟨u, eu⟩, hu, heq⟩ := Option.map_eq_some_iff.1 hstep
    cases heq
    have hc := hs.server_step wire [] rfl (pays_step hs.server hk hu)
    rw [← hs.onWire] at hc
    exact ⟨sent, wire, hc⟩
  cases i with
  | call c env =>
    simp only at hstep
    split at hstep
    · rename_i hrun
      cases hstep
      obtain ⟨sent', hc⟩ := hs.call c hrun
      exact ⟨sent', wire, hc⟩
    · cases hstep
  | sendCmd i =>
    obtain ⟨data, hdata, hstep⟩ := Option.map_eq_some_iff.1 hstep
    cases hstep
    rw [List.append_nil]
    exact hs.sendCmd hdata
  | serverRead now =>
    simp only at hstep
    split at hstep
    · cases hstep
    rename_i chunk rest hwire
    rw [hs.onWire] at hwire
    obtain ⟨m, wire', rfl, rfl, rfl⟩ := List.map_eq_cons_iff.1 hwire
    obtain ⟨⟨u, eu⟩, hu, heq⟩ := Option.map_eq_some_iff.1 hstep
    cases heq
    exact ⟨sent, wire', hs.server_step wire' [m] rfl (pays_read hs.server m now hu)⟩
  | clientRead mem =>
    simp only at hstep
    split at hstep
    · cases hstep
    rename_i chunk rest hread
    have hmem : mem = true := hi
    subst hmem
    obtain ⟨service, posts, hok, hc⟩ := hs.client_read hread
    rw [hok] at hstep
    cases hstep
    exact ⟨sent, wire, hc⟩
  | notify | written | run | idle | itemCheck | loopExit =>
    exact hserver _ rfl hstep

/-- Where the requests of the calls are pairwise distinct, posting what is expected means that each request
has caused exactly one completion: its own. -/
theorem own_completion {calls : List SpiCall} {posted : List Completion}
    (hp : posted.Perm (calls.filterMap (expected api)))
    (hdistinct : ((calls.filterMap (expected api)).map Completion.request).Nodup) {c : SpiCall} (hc : c ∈ calls)
    {x : Completion} (hx : expected api c = some x) : posted.filter (fun y => y.request = x.request) = [x] := by
  have hmem : x ∈ calls.filterMap (expected api) := List.mem_filterMap.2 ⟨c, hc, hx⟩
  have hself : (calls.filterMap (expected api)).filter (fun y => y.request = x.request) =
      (calls.filterMap (expected api)).filter (fun y => y = x) := by
    apply List.filter_congr
    intro y hy
    rw [decide_eq_decide]
    constructor
    · exact fun h => List.inj_on_of_nodup_map hdistinct hy hmem h
    · rintro rfl
      rfl
  have hone : (calls.filterMap (expected api)).count x = 1 := List.count_eq_one_of_mem hdistinct.of_map hmem
  have hperm := hp.filter (fun y => y.request = x.request)
  rw [hself, List.filter_eq, hone] at hperm
  exact List.perm_singleton.1 hperm

/-- In every run of the link, where the XFS manager has memory: once nothing is under way, the completions
posted are those that the successful calls require, each exactly once, if and only if none of these
calls is a Cancel, a Lock, a SetTraceLevel or an Unlock. -/
theorem contract_iff {x : CanXfs A api} {conn : Addr} {is : List LinkInput} {s : Link A api}
    {es : List (LinkEvent A api)} (hmem : ∀ i ∈ is, Allocates i)
    (hr : (linkMachine A api).run (Link.new x conn) is = some (s, es)) (hd : s.Drained) :
    (completionsOf es).Perm ((callsOf es).filterMap (expected api)) ↔ ∀ c ∈ callsOf es, ¬ MisroutedCall c := by
  obtain ⟨sent, wire, hc⟩ := Machine.run_invariant (M := linkMachine A api) (G := fun _ i => Allocates i)
    (I := fun h s => ∃ sent wire, Conserves h s sent wire) (fun h s i t e hs hi hstep => conserves_step hs hi hstep)
    is [] (Link.new x conn) s es ⟨[], [], conserves_new x conn⟩ (Machine.meets_of_forall hmem _) hr
  rw [List.nil_append] at hc
  have hsent : sent = [] := List.map_eq_nil_iff.1 (hc.asyncs.symm.trans hd.asyncs)
  have hwire : wire = [] := List.map_eq_nil_iff.1 (hc.onWire.symm.trans hd.wire)
  have hposted : (completionsOf es).Perm ((callsOf es).filterMap (answered api)) := by
    have hbal := hc.balance
    rw [hsent, hwire, hd.toClient, owed, hd.notices, pending_drained hc.server.order hd.deque] at hbal
    simpa using hbal
  rw [← answered_perm_iff]
  exact ⟨fun h => hposted.symm.trans h, fun h => hposted.trans h⟩

/-- An Open of service 1 with request id 1, for window 5. -/
def openCall : SpiCall :=
  .wfpOpen 1 (ascii "CIM") 0 (ascii "app") 0 0 5 1 0 0x00030003 none 0x00030003 none

/-- A call from its start to the report of the write of its answer. -/
def roundTrip (c : SpiCall) : List LinkInput :=
  [.call c ⟨0, 0, 0, true, 0⟩, .sendCmd 0, .serverRead midnight] ++ List.replicate 7 (.run midnight) ++
    [.notify 0, .clientRead true, .written 0]

instance (s : Link A api) : Decidable s.Drained :=
  decidable_of_iff (s.client.asyncs = [] ∧ s.client.ipc.wire = [] ∧ s.server.exec.deque = [] ∧ s.server.asyncs = [] ∧
    s.toClient = [])
    ⟨fun ⟨h1, h2, h3, h4, h5⟩ => ⟨h1, h2, h3, h4, h5⟩, fun ⟨h1, h2, h3, h4, h5⟩ => ⟨h1, h2, h3, h4, h5⟩⟩

theorem contract_openClose : ∃ s es,
    (linkMachine .x86 .documented).run (Link.new .blank 0) (roundTrip openCall ++ roundTrip (.wfpClose 1 5 2)) =
        some (s, es) ∧
      completionsOf es = [⟨5, 0x401, some (1, 1)⟩, ⟨5, 0x402, some (1, 2)⟩] ∧
      ((completionsOf es).Perm ((callsOf es).filterMap (expected .documented)) ↔
        ∀ c ∈ callsOf es, ¬ MisroutedCall c) := by
  obtain ⟨s, es, hr, hd, hposted⟩ : ∃ s es, (linkMachine .x86 .documented).run (Link.new .blank 0)
      (roundTrip openCall ++ roundTrip (.wfpClose 1 5 2)) = some (s, es) ∧ s.Drained ∧
        completionsOf es = [⟨5, 0x401, some (1, 1)⟩, ⟨5, 0x402, some (1, 2)⟩] := Machine.run_any (by decide +kernel)
  exact ⟨s, es, hr, hposted, contract_iff (by decide +kernel) hr hd⟩

/-- A Lock of the open service is completed as an Open. -/
theorem lock_completed_as_open : ¬ ∀ s es,
    (linkMachine .x86 .documented).run (Link.new .blank 0) (roundTrip openCall ++ roundTrip (.wfpLock 1 0 5 2)) =
      some (s, es) → s.Drained → (completionsOf es).Perm ((callsOf es).filterMap (expected .documented)) := by
  intro h
  obtain ⟨s, es, hr, hd, hposted, hcalls⟩ : ∃ s es, (linkMachine .x86 .documented).run (Link.new .blank 0)
      (roundTrip openCall ++ roundTrip (.wfpLock 1 0 5 2)) = some (s, es) ∧ s.Drained ∧
        completionsOf es = [⟨5, 0x401, some (1, 1)⟩, ⟨5, 0x401, some (1, 2)⟩] ∧
        callsOf es = [openCall, .wfpLock 1 0 5 2] := Machine.run_any (by decide +kernel)
  have hp := h s es hr hd
  rw [hposted, hcalls] at hp
  exact absurd hp (by decide)

end AnXfs.System
