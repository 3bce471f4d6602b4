/-
Message boundaries on the pipe, in both directions. Both ends decode one message from the front of
each chunk and keep nothing between reads; so a run of either end delivers what the other one wrote
exactly when every read returned one whole message.
-/
import AnXfs.Client.Ipc
import AnXfs.Server.Exit
import AnXfs.Server.Streams

namespace AnXfs.System

open AnXfs.Wire AnXfs.Pack AnXfs.Run AnXfs.Server AnXfs.Client

variable {A : Arch} {api : XfsApi}

/-! ## Requests -/

/-- What `on_read` makes of a chunk. -/
def getCmd (chunk : List UInt8) : Option (AnCmd A × List UInt8) := (readCmd chunk).toOption

theorem getCmd_some {chunk : List UInt8} {m : AnCmd A} {rest : List UInt8} (h : readCmd chunk = .ok (m, rest)) :
    getCmd chunk = some (m, rest) := by rw [getCmd, h]; rfl

theorem getCmd_none {chunk : List UInt8} {f : Fault} (h : readCmd (A := A) chunk = .error f) :
    getCmd (A := A) chunk = none := by rw [getCmd, h]; rfl

/-- Handling a chunk of connection `c` did not return. -/
def FaultOn (c : ConnId) (h : List (Event A)) : Prop := ∃ f, Event.fault (some c) f ∈ h

theorem faultOn_append (c : ConnId) (g h : List (Event A)) : FaultOn c (g ++ h) ↔ FaultOn c g ∨ FaultOn c h := by
  simp [FaultOn, exists_or]

/-- On every connection the server has dispatched one command per chunk. -/
structure ServerReads (h : List (Event A)) (s : CanIPCServer A api) : Prop where
  reader : ∀ c, Reader getCmd (on c (readsOf h)) (on c (dispatchedOf h)) (FaultOn c h)
  faulted : ∀ c, FaultOn c h → s.fault ≠ none

/-- A step that reads nothing. -/
theorem ServerReads.quiet {h : List (Event A)} {s t : CanIPCServer A api} {e : List (Event A)} (hs : ServerReads h s)
    (hf : s.fault = none) (hr : readsOf e = []) (hd : dispatchedOf e = []) (hn : ∀ c, ¬ FaultOn c e) :
    ServerReads (h ++ e) t := by
  have hfault : ∀ c, FaultOn c (h ++ e) ↔ FaultOn c h := by
    intro c
    rw [faultOn_append]
    exact or_iff_left (hn c)
  constructor
  · intro c
    rw [readsOf_append, dispatchedOf_append, hr, hd, List.append_nil, List.append_nil]
    exact (hs.reader c).congr (hfault c)
  · intro c hc
    exact absurd hf (hs.faulted c ((hfault c).1 hc))

/-- A chunk that was decoded and dispatched. -/
theorem ServerReads.read {h : List (Event A)} {s t : CanIPCServer A api} {e : List (Event A)} (hs : ServerReads h s)
    (hf : s.fault = none) {c : ConnId} {chunk : List UInt8} {m : AnCmd A} {rest : List UInt8}
    (hget : readCmd chunk = .ok (m, rest)) (hr : readsOf e = [(c, chunk)]) (hd : dispatchedOf e = [(c, m)])
    (hn : ∀ d, ¬ FaultOn d e) : ServerReads (h ++ e) t := by
  have hfault : ∀ d, FaultOn d (h ++ e) ↔ FaultOn d h := by
    intro d
    rw [faultOn_append]
    exact or_iff_left (hn d)
  constructor
  · intro d
    rw [readsOf_append, dispatchedOf_append, hr, hd, on_append, on_append]
    by_cases hdc : c = d
    · subst hdc
      rw [on_singleton_self, on_singleton_self]
      have hnot : ¬ FaultOn c h := fun hc => hs.faulted c hc hf
      exact ((hs.reader c).read hnot (getCmd_some hget)).congr (hfault c)
    · rw [on_singleton_of_ne hdc, on_singleton_of_ne hdc, List.append_nil, List.append_nil]
      exact (hs.reader d).congr (hfault d)
  · intro d hd
    exact absurd hf (hs.faulted d ((hfault d).1 hd))

/-- A chunk whose handling did not return. -/
theorem ServerReads.stop {h : List (Event A)} {s t : CanIPCServer A api} (hs : ServerReads h s)
    (hf : s.fault = none) {c : ConnId} {chunk : List UInt8} {f : Fault} (hget : readCmd (A := A) chunk = .error f)
    (ht : t.fault ≠ none) : ServerReads (h ++ [.read c chunk, .fault (some c) f]) t := by
  constructor
  · intro d
    have hr : readsOf ([.read c chunk, .fault (some c) f] : List (Event A)) = [(c, chunk)] := rfl
    have hd : dispatchedOf ([.read c chunk, .fault (some c) f] : List (Event A)) = [] := rfl
    rw [readsOf_append, dispatchedOf_append, hr, hd, on_append, List.append_nil]
    have hnot : ¬ FaultOn d h := fun hc => hs.faulted d hc hf
    by_cases hdc : c = d
    · subst hdc
      rw [on_singleton_self]
      exact (hs.reader c).stop hnot (getCmd_none hget) ⟨f, by simp⟩
    · rw [on_singleton_of_ne hdc, List.append_nil]
      refine (hs.reader d).congr ?_
      rw [faultOn_append]
      refine or_iff_left ?_
      rintro ⟨g, hg⟩
      simp only [List.mem_cons, reduceCtorEq, Event.fault.injEq, Option.some.injEq, List.not_mem_nil, or_false,
        false_or] at hg
      exact hdc hg.1.symm
  · intro _ _
    exact ht

theorem not_faultOn_ofSending {n : Notice} {e : List (Event A)} (h : ∀ x ∈ e, OfSending n x) (c : ConnId) :
    ¬ FaultOn c e := by
  rintro ⟨f, hf⟩
  exact absurd (h _ hf) (by simp [OfSending])

theorem serverReads_step {h : List (Event A)} {s t : CanIPCServer A api} {i : Input} {e : List (Event A)}
    (hs : ServerReads h s) (hstep : (serverMachine A api).step s i = some (t, e)) : ServerReads (h ++ e) t := by
  obtain ⟨hf, -, ha⟩ := server_acted hstep
  cases ha with
  | readFaulty addr p chunk now f hm hc hr => exact hs.stop hf hr (by simp)
  | readInfo addr p chunk now m rest n hm hc hr hg hn => exact hs.read hf hr rfl rfl (by simp [FaultOn])
  | readCommand addr p chunk now m rest hm hc hr hg =>
    exact hs.read hf hr rfl rfl (by simp [FaultOn, Executer.pushBackCmdDeque])
  | notifiedAll k n uvWrite garbage ws f e hk hn hws he =>
    obtain ⟨hr, hd⟩ := streams_ofSending he
    refine hs.quiet hf hr hd fun c => ?_
    rintro ⟨g, hg⟩
    rcases List.mem_cons.1 hg with hg | hg
    · cases hg
    · exact not_faultOn_ofSending he c ⟨g, hg⟩
  | notified k n uvWrite garbage a t e r hk hn hsent hwritten =>
    obtain ⟨-, he⟩ := sent_frame hsent
    obtain ⟨hr, hd⟩ := streams_ofSending he
    refine hs.quiet hf ((filterMap_around e rfl rfl).trans hr) ((filterMap_around e rfl rfl).trans hd) fun c => ?_
    rintro ⟨g, hg⟩
    rcases mem_around hg with hg | hg | hg
    · cases hg
    · exact not_faultOn_ofSending he c ⟨g, hg⟩
    · cases hg
  | exec i j x ex hj hst =>
    obtain ⟨hr, hd, -, -⟩ := streams_exec ex
    exact hs.quiet hf hr hd (by simp [FaultOn])
  | listenFailed | accepted | acceptFailed | readFailed | closed | closedUnknown | writeFailed | written
  | strayWrite | exits | exitsAgain | loopExit =>
    exact hs.quiet hf rfl rfl (by simp [FaultOn])

theorem serverReads_run {x : CanXfs A api} {is : List Input} {s : CanIPCServer A api} {es : List (Event A)}
    (hr : (serverMachine A api).run (CanIPCServer.new x) is = some (s, es)) : ServerReads es s := by
  refine Machine.run_always (I := ServerReads) (fun h s i t e hi hs => serverReads_step hi hs) ?_ hr
  constructor
  · intro c
    refine (Reader.nil _).congr ?_
    simp [FaultOn]
  · intro c hc
    simp [FaultOn] at hc

/-- Commands serialized and written one after another on a connection that is up. -/
def writeAll (cmds : List (Command A)) : CanIPC :=
  cmds.foldl (fun s m => (s.write (serializeCmd m) 0).1) CanIPC.connected

theorem writeAll_wire (cmds : List (Command A)) : (writeAll cmds).wire = cmds.map serializeCmd := by
  have hfold : ∀ (cmds : List (Command A)) (s : CanIPC), s.active = true →
      (cmds.foldl (fun s m => (s.write (serializeCmd m) 0).1) s).wire = s.wire ++ cmds.map serializeCmd := by
    intro cmds
    induction cmds with
    | nil => intro s _; simp
    | cons m cmds ih =>
      intro s hs
      have hw : (s.write (serializeCmd m) 0).1 = { s with wire := s.wire ++ [serializeCmd m] } := by
        simp [CanIPC.write, hs]
      rw [List.foldl_cons, hw, ih { s with wire := s.wire ++ [serializeCmd m] } hs]
      simp
  exact hfold cmds CanIPC.connected rfl

/-- In every run of the server that reads, on some connection, the bytes of the commands written to it, cut
into the chunks `cs`: the commands dispatched for the connection are those that were written if and only if
every chunk is exactly one of them. -/
theorem dispatched_iff_whole_messages {x : CanXfs A api} {is : List Input} {s : CanIPCServer A api}
    {es : List (Event A)} (hr : (serverMachine A api).run (CanIPCServer.new x) is = some (s, es)) (c : ConnId)
    (cmds : List (Command A)) {cs : List (List UInt8)} (hne : ∀ chunk ∈ cs, chunk ≠ [])
    (hcs : cs.flatten = (writeAll cmds).wire.flatten) (hall : HandedAll cs (on c (readsOf es)) (FaultOn c es)) :
    on c (dispatchedOf es) = cmds.map Command.obj ↔ cs = cmds.map serializeCmd := by
  have hput : cmds.map serializeCmd = (cmds.map Command.obj).map AnCmd.put := by
    rw [List.map_map]; rfl
  rw [writeAll_wire, hput] at hcs
  rw [hput]
  refine ((serverReads_run hr).reader c).delivers_iff readCmd_delimits (fun m hm => ?_) hall hne hcs
  obtain ⟨m', -, rfl⟩ := List.mem_map.1 hm
  exact m'.built

/-- An Open of service 1 and then its Close. -/
def openCloseCmds : List (Command .x86) := [⟨openCmd 1 1, by decide⟩, ⟨closeCmd 1 2, by decide⟩]

/-- A client connects, and its bytes arrive in the chunks `cs`. -/
def readInputs (cs : List (List UInt8)) : List Input := .newConnection 0 0 0 :: cs.map fun c => .read 0 c midnight

theorem dispatched_openClose : ∃ s es,
    (serverMachine .x86 .documented).run (.new .blank) (readInputs (openCloseCmds.map serializeCmd)) = some (s, es) ∧
      on 0 (dispatchedOf es) = openCloseCmds.map Command.obj := by
  obtain ⟨s, es, hr, hall⟩ : ∃ s es, (serverMachine .x86 .documented).run (.new .blank)
      (readInputs (openCloseCmds.map serializeCmd)) = some (s, es) ∧
        on 0 (readsOf es) = openCloseCmds.map serializeCmd := Machine.run_any (by decide +kernel)
  have hiff := dispatched_iff_whole_messages hr 0 openCloseCmds (by decide +kernel) (by rw [writeAll_wire]) (.inl hall)
  exact ⟨s, es, hr, hiff.2 rfl⟩

/-- Where one read returns both commands, the second one is lost. -/
theorem joined_commands_lost : ¬ ∀ (cs : List (List UInt8)) s es, (∀ chunk ∈ cs, chunk ≠ []) →
    cs.flatten = (writeAll openCloseCmds).wire.flatten →
    (serverMachine .x86 .documented).run (.new .blank) (readInputs cs) = some (s, es) →
      on 0 (dispatchedOf es) = openCloseCmds.map Command.obj := by
  intro h
  obtain ⟨s, es, hr, hne⟩ : ∃ s es, (serverMachine .x86 .documented).run (.new .blank)
      (readInputs [(openCloseCmds.map serializeCmd).flatten]) = some (s, es) ∧
        on 0 (dispatchedOf es) ≠ openCloseCmds.map Command.obj := Machine.run_any (by decide +kernel)
  refine hne (h _ s es (by decide +kernel) ?_ hr)
  rw [writeAll_wire, List.flatten_singleton]

/-! ## Results -/

/-- The notice carries the archive of a result. -/
def Encoded (A : Arch) (n : Notice) : Prop := ∃ r : AnXfsResult A, n.buf = serializeResult (AnXfsResult.codec A) r

theorem encoded_clone {n : Notice} (h : Encoded A n) : Encoded A (CanIPCServer.clone n) := h

theorem encoded_all : ∀ {ns : List Notice}, (∀ n ∈ ns, Encoded A n) →
    ∃ rs : List (AnXfsResult A), ns.map Notice.buf = rs.map (serializeResult (AnXfsResult.codec A))
  | [], _ => ⟨[], rfl⟩
  | n :: ns, h => by
    obtain ⟨r, hr⟩ := h n (List.mem_cons_self ..)
    obtain ⟨rs, hrs⟩ := encoded_all fun m hm => h m (List.mem_cons_of_mem _ hm)
    exact ⟨r :: rs, by simp only [List.map_cons, hr, hrs]⟩

/-- Whatever the threads of the executor post is the archive of a result. -/
theorem stepped_encoded {x y : Executer A api} {j : ExecInput A} {e : List (ExecEvent A)} (h : Stepped x j y e) :
    ∀ n ∈ noticesOf e, Encoded A n := by
  cases h with
  | pushed | quiet => simp [noticesOf, Executer.pushBackCmdDeque]
  | broadcast i itemPc r =>
    intro n hn
    cases List.mem_singleton.1 hn
    exact ⟨r, rfl⟩
  | ran now t e hr =>
    intro n hn
    cases hr with
    | handled p m t c hpc hp hm ht hc =>
      cases List.mem_singleton.1 hn
      exact ⟨c.reply api m now, rfl⟩
    | _ => simp [noticesOf] at hn

/-- Every notice under way, and every notice written, is the archive of a result. -/
structure Encodes (h : List (Event A)) (s : CanIPCServer A api) : Prop where
  asyncs : ∀ n ∈ s.asyncs, Encoded A n
  wrote : ∀ x ∈ wroteOf h, Encoded A x.2

/-- A step that writes nothing. -/
theorem Encodes.quiet {h : List (Event A)} {s t : CanIPCServer A api} {e : List (Event A)} (hs : Encodes h s)
    (ha : ∀ n ∈ t.asyncs, n ∈ s.asyncs ∨ Encoded A n) (hw : ∀ x ∈ wroteOf e, Encoded A x.2) : Encodes (h ++ e) t := by
  constructor
  · intro n hn
    rcases ha n hn with hn | hn
    · exact hs.asyncs n hn
    · exact hn
  · intro x hx
    rw [wroteOf_append] at hx
    rcases List.mem_append.1 hx with hx | hx
    · exact hs.wrote x hx
    · exact hw x hx

theorem wroteOf_ofSending {n : Notice} {e : List (Event A)} (h : ∀ x ∈ e, OfSending n x) :
    ∀ x ∈ wroteOf e, x.2 = n := by
  intro x hx
  obtain ⟨y, hy, hxy⟩ := List.mem_filterMap.1 hx
  have hof := h y hy
  cases y <;> cases hxy
  exact hof

theorem encodes_step {h : List (Event A)} {s t : CanIPCServer A api} {i : Input} {e : List (Event A)}
    (hs : Encodes h s) (hstep : (serverMachine A api).step s i = some (t, e)) : Encodes (h ++ e) t := by
  obtain ⟨-, -, ha⟩ := server_acted hstep
  cases ha with
  | readInfo addr p chunk now m rest n hm hc hr hg hn =>
    refine hs.quiet (fun k hk => ?_) (by simp [wroteOf])
    rcases List.mem_append.1 hk with hk | hk
    · exact .inl hk
    · obtain ⟨-, -, -, req, -, hbuf⟩ := spiGetinfo_ok hn
      rw [List.mem_singleton.1 hk]
      exact .inr ⟨_, hbuf⟩
  | notifiedAll k n uvWrite garbage ws f e hk hn hws he =>
    have henc : Encoded A n := hs.asyncs n (List.mem_of_getElem? hk)
    refine hs.quiet (fun m hm => .inl (List.mem_of_mem_eraseIdx hm)) fun x hx => ?_
    rw [wroteOf_ofSending he x hx]
    exact encoded_clone henc
  | notified k n uvWrite garbage a t e r hk hn hsent hwritten =>
    have henc : Encoded A n := hs.asyncs n (List.mem_of_getElem? hk)
    obtain ⟨⟨ws, f, rfl, -⟩, he⟩ := sent_frame hsent
    have hwrote : wroteOf (.notified n :: e ++ if r ≠ 0 then [.released n] else []) = wroteOf e :=
      filterMap_around e rfl rfl
    refine hs.quiet (fun m hm => .inl (List.mem_of_mem_eraseIdx hm)) fun x hx => ?_
    rw [hwrote] at hx
    rw [wroteOf_ofSending he x hx]
    exact henc
  | exec i j x ex hj hst =>
    refine hs.quiet (fun n hn => ?_) fun y hy => ?_
    · rcases List.mem_append.1 hn with hn | hn
      · exact .inl hn
      · exact .inr (stepped_encoded hst n hn)
    · rw [(streams_exec ex).2.2.2] at hy
      cases hy
  | readCommand | readFaulty | listenFailed | accepted | acceptFailed | readFailed | closed | closedUnknown
  | writeFailed | written | strayWrite | exits | exitsAgain | loopExit =>
    exact hs.quiet (fun n hn => .inl hn) (by simp [wroteOf, Executer.pushBackCmdDeque])

theorem encodes_run {x : CanXfs A api} {is : List Input} {s : CanIPCServer A api} {es : List (Event A)}
    (hr : (serverMachine A api).run (CanIPCServer.new x) is = some (s, es)) : Encodes es s := by
  refine Machine.run_always (I := Encodes) (fun h s i t e hi hs => encodes_step hi hs) ?_ hr
  constructor
  · intro n hn
    cases hn
  · intro n hn
    cases hn

/-- In every run of the server, whatever it writes to a connection are archives of results; and in every
run of the client that reads those bytes, cut into the chunks `cs`, its callback is handed exactly those
results if and only if every chunk is exactly one of the notices. -/
theorem results_iff_whole_messages {x : CanXfs A api} {is : List Input} {s : CanIPCServer A api}
    {es : List (Event A)} (hr : (serverMachine A api).run (CanIPCServer.new x) is = some (s, es)) (c : ConnId)
    {js : List IpcInput} {u : CanIPC} {ds : List (IpcEvent A)}
    (hu : (ipcMachine A).run CanIPC.connected js = some (u, ds)) {cs : List (List UInt8)}
    (hne : ∀ chunk ∈ cs, chunk ≠ []) (hcs : cs.flatten = ((on c (wroteOf es)).map Notice.buf).flatten)
    (hall : HandedAll cs (chunksOf ds) (Threw ds)) :
    ∃ rs, (on c (wroteOf es)).map Notice.buf = rs.map (serializeResult (AnXfsResult.codec A)) ∧
      (resultsOf ds = rs ↔ cs = (on c (wroteOf es)).map Notice.buf) := by
  have henc : ∀ n ∈ on c (wroteOf es), Encoded A n := by
    intro n hn
    obtain ⟨y, hy, hyn⟩ := List.mem_filterMap.1 hn
    split at hyn
    · cases hyn
      exact (encodes_run hr).wrote y hy
    · cases hyn
  obtain ⟨rs, hrs⟩ := encoded_all henc
  refine ⟨rs, hrs, ?_⟩
  -- from here on it is the reader of one value per chunk, as for the commands
  rw [hrs] at hcs ⊢
  exact (clientReads_run hu).reader.delivers_iff (AnXfsResult.codec A).delimits (fun _ _ => trivial) hall hne hcs

/-- The results that `openThenClose` writes to its client. -/
def openCloseResults : List (AnXfsResult .x86) :=
  [CommanderClass.reply .documented (openCmd 1 1) midnight .anWfpopenImpl,
    CommanderClass.reply .documented (closeCmd 1 2) midnight .anWfpcloseImpl]

def openCloseBufs : List (List UInt8) := openCloseResults.map (serializeResult (AnXfsResult.codec .x86))

theorem results_openClose : ∃ s es u ds,
    (serverMachine .x86 .documented).run (.new .blank) openThenClose = some (s, es) ∧
      (ipcMachine .x86).run CanIPC.connected (openCloseBufs.map .read) = some (u, ds) ∧
      ∃ rs, (on 0 (wroteOf es)).map Notice.buf = rs.map (serializeResult (AnXfsResult.codec .x86)) ∧
        (resultsOf ds = rs ↔ openCloseBufs = (on 0 (wroteOf es)).map Notice.buf) := by
  obtain ⟨s, es, hr, hbufs⟩ : ∃ s es, (serverMachine .x86 .documented).run (.new .blank) openThenClose =
      some (s, es) ∧ (on 0 (wroteOf es)).map Notice.buf = openCloseBufs := Machine.run_any (by decide +kernel)
  obtain ⟨u, ds, hu, hall⟩ : ∃ u ds, (ipcMachine .x86).run CanIPC.connected (openCloseBufs.map .read) = some (u, ds) ∧
      chunksOf ds = openCloseBufs := Machine.run_any (by decide +kernel)
  exact ⟨s, es, u, ds, hr, hu,
    results_iff_whole_messages hr 0 hu (by decide +kernel) (by rw [hbufs]) (.inl hall)⟩

/-- Where one read returns both results, the second one is lost. -/
theorem joined_results_lost : ¬ ∀ s es (cs : List (List UInt8)) u ds,
    (serverMachine .x86 .documented).run (.new .blank) openThenClose = some (s, es) → (∀ chunk ∈ cs, chunk ≠ []) →
    cs.flatten = ((on 0 (wroteOf es)).map Notice.buf).flatten →
    (ipcMachine .x86).run CanIPC.connected (cs.map .read) = some (u, ds) →
      (on 0 (wroteOf es)).map Notice.buf = (resultsOf ds).map (serializeResult (AnXfsResult.codec .x86)) := by
  intro h
  obtain ⟨s, es, hr, hbufs⟩ : ∃ s es, (serverMachine .x86 .documented).run (.new .blank) openThenClose =
      some (s, es) ∧ (on 0 (wroteOf es)).map Notice.buf = openCloseBufs := Machine.run_any (by decide +kernel)
  obtain ⟨u, ds, hu, hone⟩ : ∃ u ds, (ipcMachine .x86).run CanIPC.connected ([openCloseBufs.flatten].map .read) =
      some (u, ds) ∧ (resultsOf ds).length = 1 := Machine.run_any (by decide +kernel)
  have heq := h s es [openCloseBufs.flatten] u ds hr (by decide +kernel) (by rw [hbufs, List.flatten_singleton]) hu
  have hlen := congrArg List.length heq
  rw [hbufs, List.length_map, hone] at hlen
  cases hlen

end AnXfs.System
