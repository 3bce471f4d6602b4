/-
Who owns the command objects: the deque, each entry one object, from the push until `destroy_cmd` deletes that of the
front. In every run of the server the objects alive are those of the entries not yet destroyed, whatever is pushed; so
the executor never uses a deleted object and deletes none twice, and all that can stop it is a command whose type has no
commander.

`destroy_cmd` deletes a command through an `an_WFP_header *`, whose destructor is not virtual. This is taken as
compilers do it: the memory of the object goes back, and the members of the derived class stay as they are. So the
strings of the commands that were read are those of the commands alive, and those lost with the commands destroyed.
-/
import AnXfs.Server.Robust
import AnXfs.Server.Delivery

namespace AnXfs.Server

open AnXfs.Wire AnXfs.Pack AnXfs.Run

variable {A : Arch} {api : XfsApi}

/-! ## The objects alive -/

/-- The entries whose command is not yet destroyed. -/
def Executer.undestroyed (x : Executer A api) : List AnBuf := if x.pc = .popFront then x.deque.tail else x.deque

/-- The command the executor is about to execute has a type without a commander. -/
def Executer.Unservable (x : Executer A api) : Prop :=
  x.pc = .cmdHandler ∧ ∃ p m, x.currentCmd.mCmd = some p ∧ x.heap p = some m ∧ ¬ HasSlot m

/-- The objects alive are those of the entries not yet destroyed, one for each, as the builders made them. -/
structure OwnsCommands (x : Executer A api) : Prop where
  front : Fronted x
  nonempty : x.pc = .readFront → x.deque ≠ []
  distinct : (x.deque.map AnBuf.mCmd).Nodup
  bounded : ∀ b ∈ x.deque, ∃ p, b.mCmd = some p ∧ p < x.brk
  live : ∀ p, (x.heap p).isSome ↔ ∃ b ∈ x.undestroyed, b.mCmd = some p
  built : ∀ p m, x.heap p = some m → m.Built
  stuck : x.fault ≠ none → x.Unservable

section Step

variable {x y : Executer A api}

theorem undestroyed_of_ne (h : x.pc ≠ .popFront) : x.undestroyed = x.deque := if_neg h

theorem undestroyed_popFront (h : x.pc = .popFront) : x.undestroyed = x.deque.tail := if_pos h

theorem mem_undestroyed {b : AnBuf} (hb : b ∈ x.undestroyed) : b ∈ x.deque := by
  unfold Executer.undestroyed at hb
  split at hb
  · exact List.mem_of_mem_tail hb
  · exact hb

/-- Only `destroy_cmd` takes an entry away from those not yet destroyed. -/
theorem undestroyed_ran {now : AnSystemtime} {e : List (ExecEvent A)} (hr : Ran x now y e) (hpc : x.pc ≠ .destroyCmd) :
    y.undestroyed = x.undestroyed := by
  cases hr with
  | empty | failed => rfl
  | sized h | fronted _ _ h | preProcessed _ h | handled _ _ _ _ h | paused _ _ h =>
    rw [undestroyed_of_ne (x := x) (by rw [h]; decide)]
    rfl
  | destroyed _ h => exact absurd h hpc
  | popped b rest h hd =>
    rw [undestroyed_popFront h, hd]
    rfl

/-- An entry not yet destroyed has a live object. -/
theorem OwnsCommands.alive (hx : OwnsCommands x) {b : AnBuf} (hb : b ∈ x.undestroyed) :
    ∃ p m, b.mCmd = some p ∧ x.heap p = some m := by
  obtain ⟨p, hp, -⟩ := hx.bounded b (mem_undestroyed hb)
  obtain ⟨m, hm⟩ := Option.isSome_iff_exists.1 ((hx.live p).2 ⟨b, hb, hp⟩)
  exact ⟨p, m, hp, hm⟩

/-- From the copy of the front up to `destroy_cmd` the front has a live object. -/
theorem OwnsCommands.current (hx : OwnsCommands x) (h1 : x.pc ≠ .sizeTest) (h2 : x.pc ≠ .readFront)
    (h3 : x.pc ≠ .popFront) : x.currentCmd ∈ x.undestroyed := by
  obtain ⟨rest, hd⟩ := hx.front h1 h2
  rw [undestroyed_of_ne h3, hd]
  exact List.mem_cons_self ..

/-- The executor is stopped by a command without a commander, and by nothing else. -/
theorem OwnsCommands.unservable (hx : OwnsCommands x) {now : AnSystemtime} {f : Fault} (hs : Stuck x now f) :
    x.Unservable := by
  cases hs with
  | noFront hpc hd =>
    rcases hpc with hpc | hpc
    · exact absurd hd (hx.nonempty hpc)
    · obtain ⟨rest, hd'⟩ := hx.front (by rw [hpc]; decide) (by rw [hpc]; decide)
      rw [hd] at hd'
      cases hd'
  | preProcess f hpc he =>
    have hne : x.pc ≠ .popFront := by rw [hpc]; decide
    have hcur := hx.current (by rw [hpc]; decide) (by rw [hpc]; decide) hne
    have hlive : LiveEntries x.heap x.deque := fun b hb => hx.alive ((undestroyed_of_ne hne).symm ▸ hb)
    rw [undestroyed_of_ne hne] at hcur
    obtain ⟨heap', h', -⟩ := cmdPreProcessed_live hlive hcur
    rw [h'] at he
    cases he
  | noCmd hpc hn =>
    have hcur : x.currentCmd ∈ x.undestroyed := by
      rcases hpc with hpc | hpc
      · exact hx.current (by rw [hpc]; decide) (by rw [hpc]; decide) (by rw [hpc]; decide)
      · exact hx.current (by rw [hpc]; decide) (by rw [hpc]; decide) (by rw [hpc]; decide)
    obtain ⟨p, -, hp, -⟩ := hx.alive hcur
    rw [hn] at hp
    cases hp
  | freed p hpc hp hn =>
    have hcur : x.currentCmd ∈ x.undestroyed := by
      rcases hpc with hpc | hpc | hpc
      · exact hx.current (by rw [hpc]; decide) (by rw [hpc]; decide) (by rw [hpc]; decide)
      · exact hx.current (by rw [hpc]; decide) (by rw [hpc]; decide) (by rw [hpc]; decide)
      · exact hx.current (by rw [hpc]; decide) (by rw [hpc]; decide) (by rw [hpc]; decide)
    obtain ⟨q, m, hq, hm⟩ := hx.alive hcur
    rw [hp] at hq
    cases hq
    rw [hn] at hm
    cases hm
  | handler p m f hpc hp hm he =>
    refine ⟨hpc, p, m, hp, hm, ?_⟩
    rintro ⟨t, c, ht, hc⟩
    rw [cmdHandler_built (hx.built p m hm) ht hc] at he
    cases he

/-! ## A step -/

/-- The new address lies behind all that the deque points to. -/
theorem OwnsCommands.fresh (hx : OwnsCommands x) {b : AnBuf} (hb : b ∈ x.deque) : b.mCmd ≠ some x.brk := by
  intro he
  obtain ⟨p, hp, hlt⟩ := hx.bounded b hb
  rw [he] at hp
  cases hp
  exact lt_irrefl _ hlt

theorem OwnsCommands.undestroyed_push (hx : OwnsCommands x) (client : Option Addr) (origin : Option ConnId)
    (m : AnCmd A) : (x.pushBackCmdDeque client origin m).1.undestroyed =
      x.undestroyed ++ [⟨some x.brk, client, origin⟩] := by
  by_cases hpc : x.pc = .popFront
  · obtain ⟨rest, hd⟩ := hx.front (by rw [hpc]; decide) (by rw [hpc]; decide)
    rw [undestroyed_popFront hpc, undestroyed_popFront (x := (x.pushBackCmdDeque client origin m).1) hpc]
    show (x.deque ++ [_]).tail = _
    rw [hd]
    rfl
  · rw [undestroyed_of_ne hpc, undestroyed_of_ne (x := (x.pushBackCmdDeque client origin m).1) hpc]
    rfl

/-- The loop thread's entry comes with a new object. -/
theorem OwnsCommands.push (hx : OwnsCommands x) (hf : x.fault = none) (client : Option Addr) (origin : Option ConnId)
    {m : AnCmd A} (hm : m.Built) : OwnsCommands (x.pushBackCmdDeque client origin m).1 := by
  refine ⟨(waiting_push hx.front client origin m).2, fun _ => List.append_ne_nil_of_right_ne_nil _ (by simp), ?_,
    fun b hb => ?_, fun p => ?_, fun p n hn => ?_, fun h => absurd hf h⟩
  · simp only [Executer.pushBackCmdDeque, List.map_append, List.map_cons, List.map_nil]
    refine List.Nodup.append hx.distinct (List.nodup_singleton _) ?_
    intro o ho ho'
    obtain ⟨b, hb, rfl⟩ := List.mem_map.1 ho
    exact hx.fresh hb (List.mem_singleton.1 ho')
  · rcases List.mem_append.1 hb with hb | hb
    · obtain ⟨p, hp, hlt⟩ := hx.bounded b hb
      exact ⟨p, hp, Nat.lt_succ_of_lt hlt⟩
    · rw [List.mem_singleton.1 hb]
      exact ⟨x.brk, rfl, Nat.lt_succ_self _⟩
  · rw [hx.undestroyed_push]
    simp only [Executer.pushBackCmdDeque, List.mem_append, List.mem_singleton]
    by_cases hp : p = x.brk
    · subst hp
      rw [Function.update_self]
      exact iff_of_true rfl ⟨_, .inr rfl, rfl⟩
    · rw [Function.update_of_ne hp, hx.live p]
      constructor
      · rintro ⟨b, hb, he⟩
        exact ⟨b, .inl hb, he⟩
      · rintro ⟨b, hb | rfl, he⟩
        · exact ⟨b, hb, he⟩
        · exact absurd (Option.some.inj he).symm hp
  · simp only [Executer.pushBackCmdDeque] at hn
    by_cases hp : p = x.brk
    · subst hp
      rw [Function.update_self] at hn
      cases hn
      exact hm
    · rw [Function.update_of_ne hp] at hn
      exact hx.built p n hn

/-- A piece of the executor that leaves the deque and the objects alone. -/
theorem OwnsCommands.quiet (hx : OwnsCommands x) (hf : y.fault = none) (hfront : Fronted y)
    (hnonempty : y.pc = .readFront → y.deque ≠ []) (hd : y.deque = x.deque) (hb : y.brk = x.brk) (hh : y.heap = x.heap)
    (hu : y.undestroyed = x.undestroyed) : OwnsCommands y where
  front := hfront
  nonempty := hnonempty
  distinct := by rw [hd]; exact hx.distinct
  bounded := by rw [hd, hb]; exact hx.bounded
  live := by rw [hh, hu]; exact hx.live
  built := by rw [hh]; exact hx.built
  stuck h := absurd hf h

/-- `cmd_pre_processed` marks commands, and leaves each object where it is. -/
theorem OwnsCommands.marks (hx : OwnsCommands x) (hpc : x.pc = .preProcess) {heap : Ptr → Option (AnCmd A)}
    (hh : cmdPreProcessed x.heap x.deque x.currentCmd = .ok heap) (p : Ptr) :
    (heap p).map unmarked = (x.heap p).map unmarked := by
  have hne : x.pc ≠ .popFront := by rw [hpc]; decide
  have hcur := hx.current (by rw [hpc]; decide) (by rw [hpc]; decide) hne
  rw [undestroyed_of_ne hne] at hcur
  have hlive : LiveEntries x.heap x.deque := fun b hb => hx.alive ((undestroyed_of_ne hne).symm ▸ hb)
  obtain ⟨heap', h', hsame⟩ := cmdPreProcessed_live hlive hcur
  rw [h'] at hh
  cases hh
  exact hsame p

theorem OwnsCommands.preProcessed (hx : OwnsCommands x) (hf : x.fault = none) (hpc : x.pc = .preProcess)
    {heap : Ptr → Option (AnCmd A)} (hh : cmdPreProcessed x.heap x.deque x.currentCmd = .ok heap) :
    OwnsCommands { x with heap := heap, pc := .cmdHandler } := by
  have hsame := hx.marks hpc hh
  refine ⟨fun _ _ => hx.front (by rw [hpc]; decide) (by rw [hpc]; decide), (fun h => by cases h), hx.distinct,
    hx.bounded, fun p => ?_, fun p m hm => ?_, fun h => absurd hf h⟩
  · have hisSome : (heap p).isSome = (x.heap p).isSome := by
      rw [← Option.isSome_map (f := unmarked), hsame, Option.isSome_map]
    show (heap p).isSome ↔ ∃ b ∈ x.deque, b.mCmd = some p
    rw [hisSome, hx.live p, undestroyed_of_ne (by rw [hpc]; decide)]
  · have hm : heap p = some m := hm
    have hp := hsame p
    rw [hm] at hp
    obtain ⟨n, hn, hu⟩ := Option.map_eq_some_iff.1 hp.symm
    exact built_congr hu.symm (hx.built p n hn)

/-- `destroy_cmd` deletes the object of the front, which no other entry points to. -/
theorem OwnsCommands.deletes (hx : OwnsCommands x) (hpc : x.pc = .destroyCmd) {heap : Ptr → Option (AnCmd A)}
    (hh : heap = x.heap ∧ x.currentCmd.mCmd = none ∨
      ∃ p, x.currentCmd.mCmd = some p ∧ heap = Function.update x.heap p none) :
    ∃ q m rest, x.deque = x.currentCmd :: rest ∧ x.currentCmd.mCmd = some q ∧ x.heap q = some m ∧
      heap = Function.update x.heap q none ∧ ∀ b ∈ rest, b.mCmd ≠ some q := by
  obtain ⟨rest, hd⟩ := hx.front (by rw [hpc]; decide) (by rw [hpc]; decide)
  obtain ⟨q, m, hq, hm⟩ := hx.alive (hx.current (by rw [hpc]; decide) (by rw [hpc]; decide) (by rw [hpc]; decide))
  have hdistinct := hx.distinct
  rw [hd, List.map_cons, List.nodup_cons, hq] at hdistinct
  refine ⟨q, m, rest, hd, hq, hm, ?_, fun b hb he => hdistinct.1 (List.mem_map.2 ⟨b, hb, he⟩)⟩
  rcases hh with ⟨-, hn⟩ | ⟨p, hp, he⟩
  · rw [hq] at hn
    cases hn
  · rw [hq] at hp
    cases hp
    exact he

theorem OwnsCommands.destroyed (hx : OwnsCommands x) (hf : x.fault = none) (hpc : x.pc = .destroyCmd)
    {heap : Ptr → Option (AnCmd A)} (hh : heap = x.heap ∧ x.currentCmd.mCmd = none ∨
      ∃ p, x.currentCmd.mCmd = some p ∧ heap = Function.update x.heap p none) :
    OwnsCommands { x with heap := heap, pc := .popFront } := by
  obtain ⟨q, -, rest, hd, hq, -, rfl, hothers⟩ := hx.deletes hpc hh
  have hne : x.pc ≠ .popFront := by rw [hpc]; decide
  refine ⟨fun _ _ => ⟨rest, hd⟩, (fun h => by cases h), hx.distinct, hx.bounded, fun p => ?_, fun p m hm => ?_,
    fun h => absurd hf h⟩
  · show (Function.update x.heap q none p).isSome ↔ ∃ b ∈ x.deque.tail, b.mCmd = some p
    rw [hd, List.tail_cons]
    by_cases hp : p = q
    · subst hp
      rw [Function.update_self]
      refine iff_of_false (by simp) ?_
      rintro ⟨b, hb, he⟩
      exact hothers b hb he
    · rw [Function.update_of_ne hp, hx.live p, undestroyed_of_ne hne, hd]
      constructor
      · rintro ⟨b, hb, he⟩
        rcases List.mem_cons.1 hb with rfl | hb
        · rw [hq] at he
          exact absurd (Option.some.inj he).symm hp
        · exact ⟨b, hb, he⟩
      · rintro ⟨b, hb, he⟩
        exact ⟨b, List.mem_cons_of_mem _ hb, he⟩
  · have hm : Function.update x.heap q none p = some m := hm
    by_cases hp : p = q
    · subst hp
      rw [Function.update_self] at hm
      cases hm
    · rw [Function.update_of_ne hp] at hm
      exact hx.built p m hm

theorem OwnsCommands.ran (hx : OwnsCommands x) (hf : x.fault = none) {now : AnSystemtime} {e : List (ExecEvent A)}
    (hr : Ran x now y e) : OwnsCommands y := by
  have hfront := (waiting_ran hx.front hr).2
  have hu := undestroyed_ran hr
  cases hr with
  | empty => exact hx
  | sized hpc hd => exact hx.quiet hf hfront (fun _ => hd) rfl rfl rfl (hu (by rw [hpc]; decide))
  | fronted b rest hpc hd => exact hx.quiet hf hfront (fun h => by cases h) rfl rfl rfl (hu (by rw [hpc]; decide))
  | preProcessed heap hpc hh => exact hx.preProcessed hf hpc hh
  | handled p m t c hpc hp hm ht hc =>
    exact hx.quiet hf hfront (fun h => by cases h) rfl rfl rfl (hu (by rw [hpc]; decide))
  | paused p m hpc hp hm => exact hx.quiet hf hfront (fun h => by cases h) rfl rfl rfl (hu (by rw [hpc]; decide))
  | destroyed heap hpc hh => exact hx.destroyed hf hpc hh
  | popped b rest hpc hd =>
    have hu : x.undestroyed = rest := by rw [undestroyed_popFront hpc, hd, List.tail_cons]
    have hlive := hx.live
    have hdistinct := hx.distinct
    have hbounded := hx.bounded
    rw [hu] at hlive
    rw [hd] at hdistinct hbounded
    exact ⟨hfront, (fun h => by cases h), (List.nodup_cons.1 hdistinct).2,
      fun b hb => hbounded b (List.mem_cons_of_mem _ hb), hlive, hx.built, fun h => absurd hf h⟩
  | failed f hs => exact ⟨hx.front, hx.nonempty, hx.distinct, hx.bounded, hx.live, hx.built, fun _ => hx.unservable hs⟩

theorem OwnsCommands.stepped (hx : OwnsCommands x) (hf : x.fault = none) {j : ExecInput A} {e : List (ExecEvent A)}
    (hj : ∀ c o m, j = .push c o m → m.Built) (hs : Stepped x j y e) : OwnsCommands y := by
  cases hs with
  | pushed client origin m => exact hx.push hf client origin (hj client origin m rfl)
  | ran now y e hr => exact hx.ran hf hr
  | quiet i itemPc => exact ⟨hx.front, hx.nonempty, hx.distinct, hx.bounded, hx.live, hx.built, hx.stuck⟩
  | broadcast i itemPc r => exact ⟨hx.front, hx.nonempty, hx.distinct, hx.bounded, hx.live, hx.built, hx.stuck⟩

/-- Whatever the server reads, its executor owns its commands. -/
theorem ownsCommands_step {s t : CanIPCServer A api} {i : Input} {e : List (Event A)} (hs : OwnsCommands s.exec)
    (hstep : (serverMachine A api).step s i = some (t, e)) : OwnsCommands t.exec := by
  obtain ⟨-, hf, ha⟩ := server_acted hstep
  cases ha with
  | readCommand addr p chunk now m rest hm hc hr hg => exact hs.push hf _ _ (readCmd_ok hr).1
  | exec i j x ex hj hst =>
    refine hs.stepped hf ?_ hst
    rintro c o m rfl
    cases i <;> cases hj
  | notified k n uvWrite garbage a t e r hk hn hsent hwritten =>
    obtain ⟨⟨ws, f, rfl, -⟩, -⟩ := sent_frame hsent
    exact hs
  | readFaulty | readInfo | listenFailed | accepted | acceptFailed | readFailed | closed | closedUnknown | writeFailed
  | written | strayWrite | exits | exitsAgain | loopExit | notifiedAll => exact hs

end Step

theorem ownsCommands_new (x : CanXfs A api) : OwnsCommands (Executer.new x) where
  front h := absurd rfl h
  nonempty h := by cases h
  distinct := List.nodup_nil
  bounded b hb := absurd hb List.not_mem_nil
  live p := iff_of_false (by simp [Executer.new]) (by rintro ⟨b, hb, -⟩; exact absurd hb List.not_mem_nil)
  built p m hm := by cases hm
  stuck h := absurd rfl h

/-! ## The strings of the commands -/

/-- The `std::string` members of a command. -/
def stringsOf : AnCmd A → List (StdString A)
  | .wfpExecute m => [m.lpCmdData]
  | .wfpGetInfo m => [m.lpQueryDetails]
  | .wfpOpen m => [m.lpszLogicalName, m.lpszAppId]
  | .header _ | .wfpCancelAsyncRequest _ | .wfpClose _ | .wfpDeregister _ | .wfpLock _ | .wfpRegister _
  | .wfpSetTraceLevel _ | .wfpUnlock _ => []

/-- The commands that a step passes to `destroy_cmd`: `on_read` one that asks for information, the executor the one that
it has executed. -/
def destroyedBy (s : CanIPCServer A api) (i : Input) (e : List (Event A)) : List (AnCmd A) :=
  match i with
  | .read .. => ((dispatchedOf e).map Prod.snd).filter fun m => m.eType = AnWfpType.wfpGetInfo.code
  | .run _ => if s.exec.pc = .destroyCmd then (s.exec.currentCmd.mCmd.bind s.exec.heap).toList else []
  | _ => []

/-- The server, and the strings whose destructor was not called when their command was deleted. -/
structure CmdMemory (A : Arch) (api : XfsApi) where
  server : CanIPCServer A api
  lost : List (StdString A)

def CmdMemory.new (x : CanXfs A api) : CmdMemory A api := ⟨.new x, []⟩

def cmdMemoryMachine (A : Arch) (api : XfsApi) : Machine (CmdMemory A api) Input (Event A) where
  step s i := (s.server.step i).map fun (t, e) => (⟨t, s.lost ++ (destroyedBy s.server i e).flatMap stringsOf⟩, e)

/-- The strings of the command that an entry points to. -/
def entryStrings (heap : Ptr → Option (AnCmd A)) (b : AnBuf) : List (StdString A) :=
  (b.mCmd.bind heap).toList.flatMap stringsOf

/-- The strings of the commands alive. -/
def Executer.strings (x : Executer A api) : List (StdString A) := x.undestroyed.flatMap (entryStrings x.heap)

/-- The strings of the commands that were read. -/
def readStrings (h : List (Event A)) : List (StdString A) := (dispatchedOf h).flatMap fun q => stringsOf q.2

section Strings

variable {x y : Executer A api} {s t : CanIPCServer A api} {e : List (Event A)}

theorem stringsOf_unmarked (m : AnCmd A) : stringsOf (unmarked m) = stringsOf m := by
  cases m <;> rfl

theorem entryStrings_congr {heap heap' : Ptr → Option (AnCmd A)} {b : AnBuf}
    (h : ∀ p, b.mCmd = some p → (heap' p).map unmarked = (heap p).map unmarked) :
    entryStrings heap' b = entryStrings heap b := by
  unfold entryStrings
  cases hb : b.mCmd with
  | none => rfl
  | some p =>
    have hp := h p hb
    simp only [Option.bind_some]
    cases hm : heap p with
    | none =>
      rw [hm, Option.map_none, Option.map_eq_none_iff] at hp
      rw [hp]
    | some m =>
      rw [hm] at hp
      obtain ⟨n, hn, hu⟩ := Option.map_eq_some_iff.1 hp
      rw [hn]
      simp only [Option.toList_some, List.flatMap_cons, List.flatMap_nil, List.append_nil]
      rw [← stringsOf_unmarked n, hu, stringsOf_unmarked]

theorem strings_congr (hu : y.undestroyed = x.undestroyed)
    (hh : ∀ p, (y.heap p).map unmarked = (x.heap p).map unmarked) : y.strings = x.strings := by
  unfold Executer.strings
  rw [hu]
  exact List.flatMap_congr fun b _ => entryStrings_congr fun p _ => hh p

theorem OwnsCommands.strings_push (hx : OwnsCommands x) (client : Option Addr) (origin : Option ConnId) (m : AnCmd A) :
    (x.pushBackCmdDeque client origin m).1.strings = x.strings ++ stringsOf m := by
  have hold : ∀ b ∈ x.undestroyed,
      entryStrings (Function.update x.heap x.brk (some m)) b = entryStrings x.heap b := by
    intro b hb
    refine entryStrings_congr fun p hp => ?_
    have hne : p ≠ x.brk := by
      rintro rfl
      exact hx.fresh (mem_undestroyed hb) hp
    rw [Function.update_of_ne hne]
  unfold Executer.strings
  rw [hx.undestroyed_push, List.flatMap_append]
  refine congrArg₂ (· ++ ·) (List.flatMap_congr hold) ?_
  simp [Executer.pushBackCmdDeque, entryStrings]

/-- Only `destroy_cmd` loses the strings of a command. -/
theorem OwnsCommands.strings_ran (hx : OwnsCommands x) {now : AnSystemtime} {ex : List (ExecEvent A)}
    (hr : Ran x now y ex) : x.strings.Perm (y.strings ++
      (if x.pc = .destroyCmd then (x.currentCmd.mCmd.bind x.heap).toList else []).flatMap stringsOf) := by
  have hquiet (hpc : x.pc ≠ .destroyCmd) (hh : ∀ p, (y.heap p).map unmarked = (x.heap p).map unmarked) :
      x.strings.Perm (y.strings ++
        (if x.pc = .destroyCmd then (x.currentCmd.mCmd.bind x.heap).toList else []).flatMap stringsOf) := by
    rw [if_neg hpc, strings_congr (undestroyed_ran hr hpc) hh, List.flatMap_nil, List.append_nil]
  cases hr with
  | empty hpc | sized hpc | fronted _ _ hpc | handled _ _ _ _ hpc | paused _ _ hpc | popped _ _ hpc =>
    exact hquiet (by rw [hpc]; decide) fun _ => rfl
  | preProcessed heap hpc hh => exact hquiet (by rw [hpc]; decide) (hx.marks hpc hh)
  | destroyed heap hpc hh =>
    obtain ⟨q, m, rest, hd, hq, hm, rfl, hothers⟩ := hx.deletes hpc hh
    have hrest : Executer.strings { x with heap := Function.update x.heap q none, pc := .popFront } =
        rest.flatMap (entryStrings x.heap) := by
      unfold Executer.strings
      rw [undestroyed_popFront rfl]
      show (x.deque.tail).flatMap _ = _
      rw [hd, List.tail_cons]
      refine List.flatMap_congr fun b hb => entryStrings_congr fun p hp => ?_
      have hne : p ≠ q := by
        rintro rfl
        exact hothers b hb hp
      show (Function.update x.heap q none p).map unmarked = _
      rw [Function.update_of_ne hne]
    have hall : x.strings = stringsOf m ++ rest.flatMap (entryStrings x.heap) := by
      unfold Executer.strings
      rw [undestroyed_of_ne (by rw [hpc]; decide), hd, List.flatMap_cons]
      simp [entryStrings, hq, hm]
    rw [if_pos hpc, hrest, hall, hq]
    simpa [hm] using List.perm_append_comm
  | failed f hs =>
    -- what stops the executor is a command about to be executed
    have hpc := (hx.unservable hs).1
    exact hquiet (by rw [hpc]; decide) fun _ => rfl

/-- What is read is kept or lost. -/
theorem strings_step {i : Input} (hs : OwnsCommands s.exec) (hstep : (serverMachine A api).step s i = some (t, e)) :
    (s.exec.strings ++ readStrings e).Perm (t.exec.strings ++ (destroyedBy s i e).flatMap stringsOf) := by
  obtain ⟨-, -, ha⟩ := server_acted hstep
  have hquiet (hx : t.exec = s.exec) (hd : dispatchedOf e = []) (hno : destroyedBy s i e = []) :
      (s.exec.strings ++ readStrings e).Perm (t.exec.strings ++ (destroyedBy s i e).flatMap stringsOf) := by
    rw [hno, readStrings, hd, hx]
    exact List.Perm.refl _
  cases i with
  | read addr chunk now =>
    cases ha with
    | readFaulty => exact hquiet rfl rfl rfl
    | readInfo addr p chunk now m rest n hm hc hr hg =>
      have hd : destroyedBy s (.read addr chunk now) [.read p.id chunk, .dispatched p.id m, .posted n, .freed p.id] =
          [m] := by
        simp [destroyedBy, dispatchedOf, hg]
      rw [hd]
      exact List.Perm.refl _
    | readCommand addr p chunk now m rest hm hc hr hg =>
      have hread : dispatchedOf (.read p.id chunk :: .dispatched p.id m ::
          (s.exec.pushBackCmdDeque (some addr) (some p.id) m).2.map .exec ++ [.freed p.id]) = [(p.id, m)] := rfl
      have hd : destroyedBy s (.read addr chunk now) (.read p.id chunk :: .dispatched p.id m ::
          (s.exec.pushBackCmdDeque (some addr) (some p.id) m).2.map .exec ++ [.freed p.id]) = [] := by
        unfold destroyedBy
        rw [hread]
        simp [hg]
      rw [hd, readStrings, hread, hs.strings_push]
      simp
    | exec i j x ex hj => cases hj
  | run now =>
    obtain ⟨x, ex, hr, rfl, rfl⟩ := step_exec_run hstep
    rw [readStrings, (streams_exec ex).2.1, List.flatMap_nil, List.append_nil]
    exact hs.strings_ran hr
  | idle now online | itemCheck now =>
    obtain ⟨x, ex, hst, rfl, rfl⟩ := acted_exec ha rfl
    have hx : x.strings = s.exec.strings := by
      cases hst with
      | quiet | broadcast => rfl
    rw [readStrings, (streams_exec ex).2.1]
    show (s.exec.strings ++ []).Perm (x.strings ++ [])
    rw [hx]
  | notify k uvWrite garbage =>
    cases ha with
    | notifiedAll k n _ _ ws f e hk hn hws he =>
      exact hquiet rfl (streams_ofSending he).2 rfl
    | notified k n _ _ a t e r hk hn hsent =>
      obtain ⟨⟨ws, f, rfl, -⟩, he⟩ := sent_frame hsent
      exact hquiet rfl ((filterMap_around e rfl rfl).trans (streams_ofSending he).2) rfl
    | exec i j x ex hj => cases hj
  | newConnection | readError | closed | write | loopExit =>
    cases ha with
    | exec i j x ex hj => cases hj
    | _ => exact hquiet rfl rfl rfl

end Strings

/-! ## A run -/

theorem CmdMemory.step_some {M M' : CmdMemory A api} {i : Input} {e : List (Event A)}
    (h : (cmdMemoryMachine A api).step M i = some (M', e)) :
    (serverMachine A api).step M.server i = some (M'.server, e) ∧
      M'.lost = M.lost ++ (destroyedBy M.server i e).flatMap stringsOf := by
  obtain ⟨⟨t, e'⟩, ht, heq⟩ := Option.map_eq_some_iff.1 h
  cases heq
  exact ⟨ht, rfl⟩

/-- The executor owns its commands, and no string of a command that was read is gone or counted twice. -/
def Kept (h : List (Event A)) (M : CmdMemory A api) : Prop :=
  OwnsCommands M.server.exec ∧ (readStrings h).Perm (M.server.exec.strings ++ M.lost)

theorem kept_step {h e : List (Event A)} {M M' : CmdMemory A api} {i : Input} (hM : Kept h M)
    (hstep : (cmdMemoryMachine A api).step M i = some (M', e)) : Kept (h ++ e) M' := by
  obtain ⟨hs, hstrings⟩ := hM
  obtain ⟨hstep, hlost⟩ := CmdMemory.step_some hstep
  refine ⟨ownsCommands_step hs hstep, ?_⟩
  set lost := (destroyedBy M.server i e).flatMap stringsOf
  have happend : readStrings (h ++ e) = readStrings h ++ readStrings e := by simp [readStrings]
  have h1 : (readStrings h ++ readStrings e).Perm (M.server.exec.strings ++ M.lost ++ readStrings e) :=
    hstrings.append_right _
  have h2 : (M.server.exec.strings ++ M.lost ++ readStrings e).Perm
      (M.server.exec.strings ++ readStrings e ++ M.lost) := by
    rw [List.append_assoc, List.append_assoc]
    exact List.perm_append_comm.append_left _
  have h3 : (M.server.exec.strings ++ readStrings e ++ M.lost).Perm (M'.server.exec.strings ++ lost ++ M.lost) :=
    (strings_step hs hstep).append_right _
  have h4 : (M'.server.exec.strings ++ lost ++ M.lost).Perm (M'.server.exec.strings ++ (M.lost ++ lost)) := by
    rw [List.append_assoc]
    exact List.perm_append_comm.append_left _
  rw [happend, hlost]
  exact ((h1.trans h2).trans h3).trans h4

/-- In every run of the server, whatever its clients send: the command objects alive are those of the entries of the
deque that are not yet destroyed, one for each; the executor has stopped at most at a command whose type has no
commander; and the strings of the commands that were read are, each once, those of the commands alive and those lost. -/
theorem commands_owned {x : CanXfs A api} {is : List Input} {M : CmdMemory A api} {es : List (Event A)}
    (hr : (cmdMemoryMachine A api).run (.new x) is = some (M, es)) :
    (∀ p, (M.server.exec.heap p).isSome ↔ ∃ b ∈ M.server.exec.undestroyed, b.mCmd = some p) ∧
      (M.server.exec.deque.map AnBuf.mCmd).Nodup ∧ (∀ b ∈ M.server.exec.deque, b.mCmd ≠ none) ∧
      (M.server.exec.fault ≠ none → M.server.exec.Unservable) ∧
      (readStrings es).Perm (M.server.exec.strings ++ M.lost) := by
  obtain ⟨hs, hstrings⟩ := Machine.run_always (M := cmdMemoryMachine A api) (I := Kept)
    (fun _ _ _ _ _ hM hstep => kept_step hM hstep) ⟨ownsCommands_new x, List.Perm.refl _⟩ hr
  refine ⟨hs.live, hs.distinct, fun b hb hn => ?_, hs.stuck, hstrings⟩
  obtain ⟨p, hp, -⟩ := hs.bounded b hb
  rw [hn] at hp
  cases hp

/-- A client sends an Open, which the executor executes, and a bare header of type `UNKNOW`. -/
def openThenUnknown : List Input :=
  .newConnection 0 0 0 :: .read 0 (openCmd 1 1).put midnight :: runOnce ++
    .read 0 unknownHeader midnight :: List.replicate 4 (.run midnight)

/-- The executor stops at the second command, whose object is alive; of the first the two strings are lost. -/
theorem openThenUnknown_owned : ∃ M es,
    (cmdMemoryMachine .x86 .documented).run (.new .blank) openThenUnknown = some (M, es) ∧
      M.server.exec.Unservable ∧ (M.server.exec.heap 1).isSome ∧ (readStrings es).length = 2 ∧ M.lost.length = 2 := by
  obtain ⟨M, es, hr, hf, ⟨b, hb, hp⟩, hread, hnone⟩ : ∃ M es,
      (cmdMemoryMachine .x86 .documented).run (.new .blank) openThenUnknown = some (M, es) ∧
        M.server.exec.fault ≠ none ∧ (∃ b ∈ M.server.exec.undestroyed, b.mCmd = some 1) ∧
          (readStrings es).length = 2 ∧ M.server.exec.strings = [] := Machine.run_any (by decide +kernel)
  obtain ⟨hlive, -, -, hstuck, hstrings⟩ := commands_owned hr
  refine ⟨M, es, hr, hstuck hf, (hlive 1).2 ⟨b, hb, hp⟩, hread, ?_⟩
  rw [← hread, hstrings.length_eq, hnone, List.nil_append]

end AnXfs.Server
