/-
When the server exits. The decision is taken by the executor, on a Close that leaves the session
table empty, and acted on by the loop, when the write of the flagged notice completes. `ExitPending`
is the time in between. The table is empty at every exit of the runs in which nothing opens a session
meanwhile; and the exit happens exactly once in the runs in which the flagged notice is delivered and
no second one is made.
-/
import AnXfs.Server.Session
import AnXfs.Server.Callbacks

namespace AnXfs.Server

open AnXfs.Wire AnXfs.Pack AnXfs.Run

variable {A : Arch} {api : XfsApi}

/-! ## What the executor does to the sessions -/

/-- The command that the executor thread is about to execute. -/
def Executer.executing (s : Executer A api) : Option (AnCmd A) :=
  if s.pc = .cmdHandler then s.currentCmd.mCmd.bind s.heap else none

/-- The types whose slot holds an open commander. -/
def Opens (m : AnCmd A) : Prop := m.eType = AnWfpType.wfpOpen.code ∨ Misrouted m

instance (m : AnCmd A) : Decidable (Opens m) := by unfold Opens; infer_instance

theorem opens_of_commander {m : AnCmd A} {t : AnWfpType} (ht : m.eType = t.code)
    (hc : commander t = some .anWfpopenImpl) : Opens m := by
  unfold Opens Misrouted
  rw [ht]
  cases t <;> first | decide | cases hc

theorem close_of_commander {t : AnWfpType} (hc : commander t = some .anWfpcloseImpl) : t = .wfpClose := by
  cases t <;> first | rfl | cases hc

/-- A step of the executor's threads executes one command, or leaves sessions and flags alone and posts
nothing flagged. -/
theorem stepped_xfs {x y : Executer A api} {j : ExecInput A} {e : List (ExecEvent A)} (h : Stepped x j y e) :
    (y.xfs.serviceTable = x.xfs.serviceTable ∧ y.xfs.flag = x.xfs.flag ∧
      ∀ n ∈ noticesOf e, n.notifyExitFlag = false) ∨
    ∃ now m t c, j = .run now ∧ x.executing = some m ∧ m.eType = AnWfpType.code t ∧ commander t = some c ∧
      y.xfs = x.xfs.after t m ∧
      noticesOf e = [replyNotice x.xfs t c m x.currentCmd.mClient x.currentCmd.origin now] := by
  cases h with
  | pushed | quiet => exact .inl ⟨rfl, rfl, by simp [noticesOf, Executer.pushBackCmdDeque]⟩
  | broadcast => exact .inl ⟨rfl, rfl, by simp [noticesOf, Executer.eventNotice]⟩
  | ran now t e hr =>
    cases hr with
    | handled p m t c hpc hp hm ht hc =>
      refine .inr ⟨now, m, t, c, rfl, ?_, ht, hc, rfl, rfl⟩
      rw [Executer.executing, if_pos hpc, hp]
      exact hm
    | paused => exact .inl ⟨by simp, by simp, by simp [noticesOf]⟩
    | empty | sized | fronted | preProcessed | destroyed | popped | failed =>
      exact .inl ⟨rfl, rfl, by simp [noticesOf]⟩

/-- The flags of the other slots are never set. -/
def OnlyCloseFlagged (x : CanXfs A api) : Prop := ∀ t, t ≠ AnWfpType.wfpClose → x.flag t ≠ 1

theorem onlyCloseFlagged_after {x : CanXfs A api} (h : OnlyCloseFlagged x) (t : AnWfpType) (m : AnCmd A) :
    OnlyCloseFlagged (x.after t m) := by
  intro u hu
  unfold CanXfs.after
  simp only
  split
  · rename_i hc
    rw [Function.update_of_ne (by rw [close_of_commander hc.1]; exact hu)]
    exact h u hu
  · exact h u hu

/-- A flagged notice answers a Close, whose commander's flag was set before or whose execution left the
table empty. -/
theorem replyNotice_flagged {x : CanXfs A api} {t : AnWfpType} {c : CommanderClass} {m : AnCmd A}
    {client : Option Addr} {origin : Option ConnId} {now : AnSystemtime} (h : OnlyCloseFlagged x)
    (hf : (replyNotice x t c m client origin now).notifyExitFlag = true) :
    t = .wfpClose ∧ (x.flag .wfpClose = 1 ∨ (x.after t m).serviceTable = []) := by
  have hf : (x.after t m).flag t = 1 := by simpa [replyNotice] using hf
  have ht : t = .wfpClose := by
    by_contra hne
    exact onlyCloseFlagged_after h t m t hne hf
  subst ht
  refine ⟨rfl, ?_⟩
  unfold CanXfs.after at hf ⊢
  simp only at hf ⊢
  split at hf
  · rename_i hc; exact .inr hc.2
  · exact .inl hf

/-! ## No exit under an open session -/

/-- A flagged notice has been posted and not yet acted on. -/
def ExitPending (s : CanIPCServer A api) : Prop :=
  (∃ n ∈ s.asyncs, n.notifyExitFlag = true) ∨ ∃ w ∈ s.writes, w.notice.notifyExitFlag = true

instance (s : CanIPCServer A api) : Decidable (ExitPending s) := by unfold ExitPending; infer_instance

/-- The branch that goes wrong is not taken: nothing is opened while an exit is pending, and a Close that
finds its commander's flag already set empties the table. -/
def NoOpenBeforeExit (s : CanIPCServer A api) : Input → Prop
  | .run _ => ∀ m ∈ s.exec.executing, (Opens m → ¬ ExitPending s) ∧
      (m.eType = AnWfpType.wfpClose.code → s.exec.xfs.flag .wfpClose = 1 →
        s.exec.xfs.serviceTable.erase m.base.hService = [])
  | _ => True

instance (s : CanIPCServer A api) : (i : Input) → Decidable (NoOpenBeforeExit s i)
  | .run _ => by unfold NoOpenBeforeExit; infer_instance
  | .newConnection .. | .read .. | .readError .. | .closed .. | .notify .. | .write .. | .idle .. | .itemCheck ..
  | .loopExit => inferInstanceAs (Decidable True)

/-- Every exit so far found the table empty, and so will one that is pending. -/
structure ExitSafe (h : List (Event A)) (s : CanIPCServer A api) : Prop where
  exits : ∀ table, .exit table ∈ h → table = []
  table : ExitPending s → s.exec.xfs.serviceTable = []
  flags : OnlyCloseFlagged s.exec.xfs

/-- A flagged notice is pending still when it is handed over to its writes, and no other comes with them. -/
theorem exitPending_of_handed {s t : CanIPCServer A api} {k : Nat} {n : Notice} {ws : List WriteReq}
    (hk : s.asyncs[k]? = some n) (hasyncs : t.asyncs = s.asyncs.eraseIdx k) (hwrites : t.writes = s.writes ++ ws)
    (hws : ∀ w ∈ ws, w.notice.notifyExitFlag = n.notifyExitFlag) (hp : ExitPending t) : ExitPending s := by
  rcases hp with ⟨m, hm, hf⟩ | ⟨w, hw, hf⟩
  · rw [hasyncs] at hm
    exact .inl ⟨m, List.mem_of_mem_eraseIdx hm, hf⟩
  · rw [hwrites] at hw
    rcases List.mem_append.1 hw with hw | hw
    · exact .inr ⟨w, hw, hf⟩
    · rw [hws w hw] at hf
      exact .inl ⟨n, List.mem_of_getElem? hk, hf⟩

/-- The memory of a flagged write's connection stays while other memory comes and goes. -/
theorem live_update {s : CanIPCServer A api}
    (hlive : ∀ w ∈ s.writes, w.notice.notifyExitFlag = true →
      ∃ a p, w.notice.client = some a ∧ w.handle = a ∧ s.mem a = some p)
    {addr : Addr} {v : Option Pipe} (hv : v.isSome ∨ ∀ w ∈ s.writes, w.handle ≠ addr) :
    ∀ w ∈ s.writes, w.notice.notifyExitFlag = true →
      ∃ a p, w.notice.client = some a ∧ w.handle = a ∧ Function.update s.mem addr v a = some p := by
  intro w hw hf
  obtain ⟨a, p, hc, ha, hp⟩ := hlive w hw hf
  by_cases hne : a = addr
  · subst hne
    rcases hv with hv | hv
    · obtain ⟨q, rfl⟩ := Option.isSome_iff_exists.1 hv
      exact ⟨a, q, hc, ha, Function.update_self ..⟩
    · exact absurd ha (hv w hw)
  · exact ⟨a, p, hc, ha, by rw [Function.update_of_ne hne]; exact hp⟩

/-- A callback of the loop takes no new decision to exit. -/
theorem acted_exit {s t : CanIPCServer A api} {i : Input} {e : List (Event A)} (h : Acted s i t e)
    (hi : i.exec? A = none) :
    t.exec.xfs = s.exec.xfs ∧ (ExitPending t → ExitPending s) ∧
      ∀ table, .exit table ∈ e → ExitPending s ∧ table = s.exec.xfs.serviceTable := by
  have heraseW : ∀ {k : Nat} {w : WriteReq}, w ∈ s.writes.eraseIdx k → w ∈ s.writes :=
    fun h => List.mem_of_mem_eraseIdx h
  cases h with
  | listenFailed | accepted | acceptFailed | readFaulty | readFailed | closed | closedUnknown | loopExit =>
    exact ⟨rfl, id, by simp⟩
  | readInfo addr p chunk now m rest n hm hc hr hg hn =>
    refine ⟨rfl, fun hp => ?_, by simp⟩
    rcases hp with ⟨k, hk, hf⟩ | hp
    · rcases List.mem_append.1 hk with hk | hk
      · exact .inl ⟨k, hk, hf⟩
      · rw [List.mem_singleton.1 hk, (spiGetinfo_ok hn).2.2.1] at hf
        cases hf
    · exact .inr hp
  | readCommand => exact ⟨rfl, id, by simp [Executer.pushBackCmdDeque]⟩
  | notifiedAll k n uvWrite garbage ws f e hk hn hws he =>
    refine ⟨rfl, exitPending_of_handed hk rfl rfl fun w hw => by rw [(hws w hw).1]; rfl, fun table hx => ?_⟩
    rcases List.mem_cons.1 hx with hx | hx
    · cases hx
    · exact absurd (he _ hx) id
  | notified k n uvWrite garbage a t e r hk hn hs _ =>
    obtain ⟨⟨ws, f, rfl, hws⟩, he⟩ := sent_frame hs
    refine ⟨rfl, exitPending_of_handed hk rfl rfl fun w hw => by rw [(hws w hw).1], fun table hx => ?_⟩
    rcases mem_around hx with hx | hx | hx
    · cases hx
    · exact absurd (he _ hx) id
    · cases hx
  | writeFailed | written | strayWrite =>
    refine ⟨rfl, fun hp => ?_, by simp⟩
    rcases hp with hp | ⟨w, hw, hf⟩
    · exact .inl hp
    · exact .inr ⟨w, heraseW hw, hf⟩
  | exits k w status hk hf hc | exitsAgain k w status hk hf hc =>
    -- the table that the exit finds is the one of this moment, not of the Close's
    refine ⟨rfl, fun hp => ?_, fun table hx => ⟨.inr ⟨w, List.mem_of_getElem? hk, hf⟩, by simpa using hx⟩⟩
    rcases hp with hp | ⟨w, hw, hf⟩
    · exact .inl hp
    · exact .inr ⟨w, heraseW hw, hf⟩
  | exec i j x e hj hs => rw [hi] at hj; cases hj

/-- The table after a command, by what its commander does. -/
theorem after_serviceTable_empty {x : CanXfs A api} {t : AnWfpType} {m : AnCmd A} (ht : m.eType = t.code)
    (ho : ¬ Opens m) (he : x.serviceTable = []) : (x.after t m).serviceTable = [] := by
  show sessionStep t m.base.hService x.serviceTable = []
  rw [he]
  unfold sessionStep
  split
  · rename_i hc; exact absurd (opens_of_commander ht hc) ho
  · rfl
  · rfl

theorem exitSafe_step {h : List (Event A)} {s t : CanIPCServer A api} {i : Input} {e : List (Event A)}
    (hs : ExitSafe h s) (hg : NoOpenBeforeExit s i) (hstep : (serverMachine A api).step s i = some (t, e)) :
    ExitSafe (h ++ e) t := by
  obtain ⟨-, -, ha⟩ := server_acted hstep
  rcases hi : i.exec? A with _ | j
  · obtain ⟨hx, hp, he⟩ := acted_exit ha hi
    refine ⟨fun table htable => ?_, fun hpend => by rw [hx]; exact hs.table (hp hpend), by rw [hx]; exact hs.flags⟩
    rcases List.mem_append.1 htable with htable | htable
    · exact hs.exits table htable
    · obtain ⟨hpend, rfl⟩ := he table htable
      exact hs.table hpend
  obtain ⟨x, ex, hst, rfl, rfl⟩ := acted_exec ha hi
  have hexits : ∀ table, .exit table ∈ h ++ ex.map Event.exec → table = [] := by
    intro table htable
    rcases List.mem_append.1 htable with htable | htable
    · exact hs.exits table htable
    · obtain ⟨_, _, hx⟩ := List.mem_map.1 htable
      cases hx
  rcases stepped_xfs hst with ⟨htab, hflag, hn⟩ | ⟨now, m, u, c, rfl, hm, hu, hc, hxfs, hnotes⟩
  · refine ⟨hexits, fun hpend => ?_, fun v hv => by simp only [hflag]; exact hs.flags v hv⟩
    show x.xfs.serviceTable = []
    rw [htab]
    rcases hpend with ⟨n, hmem, hf⟩ | hpend
    · rcases List.mem_append.1 hmem with hmem | hmem
      · exact hs.table (.inl ⟨n, hmem, hf⟩)
      · rw [hn n hmem] at hf; cases hf
    · exact hs.table (.inr hpend)
  -- a command is executed: the guard speaks about it
  have hrun : ∃ now', i = .run now' := by
    cases i <;> first | exact ⟨_, rfl⟩ | cases hi
  obtain ⟨now', rfl⟩ := hrun
  obtain ⟨hopen, hclose⟩ := hg m hm
  refine ⟨hexits, fun hpend => ?_, by show OnlyCloseFlagged x.xfs; rw [hxfs]; exact onlyCloseFlagged_after hs.flags u m⟩
  show x.xfs.serviceTable = []
  rw [hxfs]
  have hold : ExitPending s → (s.exec.xfs.after u m).serviceTable = [] := fun hpend =>
    after_serviceTable_empty hu (fun ho => hopen ho hpend) (hs.table hpend)
  rcases hpend with ⟨n, hmem, hf⟩ | hpend
  · rcases List.mem_append.1 hmem with hmem | hmem
    · exact hold (.inl ⟨n, hmem, hf⟩)
    · -- a notice flagged in this step answers a Close: one that emptied the table, or that found the flag set
      rw [hnotes, List.mem_singleton] at hmem
      subst hmem
      obtain ⟨rfl, hset | hempty⟩ := replyNotice_flagged hs.flags hf
      · exact hclose hu hset
      · exact hempty
  · exact hold (.inr hpend)

/-- In every run of the server in which nothing opens a session while an exit is pending and no Close
inherits a set flag over a table it does not empty: whenever `notify_exit_server` is invoked, the
session table is empty. -/
theorem exit_with_empty_table {caps : Held A (AnXfsCaps.codec A api)} {status : Held A (AnXfsStatus.codec A api)}
    {is : List Input} {s : CanIPCServer A api} {es : List (Event A)}
    (hg : (serverMachine A api).Meets NoOpenBeforeExit (CanIPCServer.new (CanXfs.new caps status)) is)
    (hr : (serverMachine A api).run (CanIPCServer.new (CanXfs.new caps status)) is = some (s, es)) :
    ∀ table, .exit table ∈ es → table = [] := by
  have hinit : ExitSafe [] (CanIPCServer.new (CanXfs.new caps status)) := by
    refine ⟨fun table h => (by cases h), fun _ => rfl, fun t _ => ?_⟩
    show (0 : Int) ≠ 1
    decide
  have hsafe := Machine.run_invariant (I := ExitSafe)
    (fun h s i t e hi hg hs => exitSafe_step hi hg hs) is [] _ s es hinit hg hr
  exact hsafe.exits

/-- One call of `CExecuter::run` on a waiting command, piece by piece. -/
def runOnce : List Input := List.replicate 7 (.run midnight)

/-- `on_notify` of the first notice waiting, with writes that are accepted. -/
def notifyFirst : Input := .notify 0 (fun _ => 0) false

/-- A client opens service 1 and closes it again, and the Close is answered. -/
def openThenClose : List Input :=
  [.newConnection 0 0 0, .read 0 (openCmd 1 1).put midnight] ++ runOnce ++ [.read 0 (closeCmd 1 2).put midnight] ++
    runOnce ++ [notifyFirst, notifyFirst]

theorem openThenClose_exits_empty : ∃ s es,
    (serverMachine .x86 .documented).run (.new .blank) (openThenClose ++ [.write 1 0]) = some (s, es) ∧
      .exit [] ∈ es ∧ ∀ table, .exit table ∈ es → table = [] := by
  obtain ⟨s, es, hr, he⟩ : ∃ s es, (serverMachine .x86 .documented).run (.new .blank)
      (openThenClose ++ [.write 1 0]) = some (s, es) ∧ .exit [] ∈ es := Machine.run_any (by decide +kernel)
  exact ⟨s, es, hr, he, exit_with_empty_table (by decide +kernel) hr⟩

/-- A second client's Open of service 2 is executed while the answer to the Close is being written. -/
def openInBetween : List Input :=
  .newConnection 0 1 0 :: openThenClose ++ [.read 1 (openCmd 2 3).put midnight] ++ runOnce ++ [.write 1 0]

theorem exit_under_open_session : ¬ ∀ s es,
    (serverMachine .x86 .documented).run (.new .blank) openInBetween = some (s, es) →
      ∀ table, .exit table ∈ es → table = [] := by
  intro h
  obtain ⟨s, es, hr, he⟩ : ∃ s es, (serverMachine .x86 .documented).run (.new .blank) openInBetween = some (s, es) ∧
      .exit [2] ∈ es := Machine.run_any (by decide +kernel)
  cases h s es hr [2] he

end AnXfs.Server
