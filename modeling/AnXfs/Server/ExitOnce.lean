/-
The exit request is acted on exactly once, in the runs in which it is delivered: the flagged notice
reaches a connection that is still open, its write is accepted and completes, and no second Close is
executed once the flag is set. The count of exits is then the count of flagged notices that
`on_notify` has taken, less those whose write has not completed.
-/
import AnXfs.Server.Exit

namespace AnXfs.Server

open AnXfs.Wire AnXfs.Pack AnXfs.Run

variable {A : Arch} {api : XfsApi}

/-! ## Counting -/

/-- The calls of `notify_exit_server`. -/
def exitCount (h : List (Event A)) : Nat :=
  h.countP fun
    | .exit _ => true
    | _ => false

/-- The flagged notices that `on_notify` has taken. -/
def flaggedNotified (h : List (Event A)) : Nat :=
  h.countP fun
    | .notified n => n.notifyExitFlag
    | _ => false

def flaggedAsyncs (s : CanIPCServer A api) : Nat := s.asyncs.countP (·.notifyExitFlag)

def flaggedWrites (s : CanIPCServer A api) : Nat := s.writes.countP (·.notice.notifyExitFlag)

@[simp] theorem exitCount_append (g h : List (Event A)) : exitCount (g ++ h) = exitCount g + exitCount h :=
  List.countP_append ..

@[simp] theorem flaggedNotified_append (g h : List (Event A)) :
    flaggedNotified (g ++ h) = flaggedNotified g + flaggedNotified h := List.countP_append ..

/-- Sending a notice is neither an exit nor the arrival of a notice. -/
theorem counts_ofSending {n : Notice} {e : List (Event A)} (he : ∀ x ∈ e, OfSending n x) :
    exitCount e = 0 ∧ flaggedNotified e = 0 := by
  constructor
  · refine List.countP_eq_zero.2 fun x hx => ?_
    have := he x hx
    cases x <;> first | exact False.elim this | simp
  · refine List.countP_eq_zero.2 fun x hx => ?_
    have := he x hx
    cases x <;> first | exact False.elim this | simp

theorem counts_exec (e : List (ExecEvent A)) :
    exitCount (e.map Event.exec) = 0 ∧ flaggedNotified (e.map Event.exec) = 0 := by
  constructor
  · refine List.countP_eq_zero.2 fun x hx => ?_
    obtain ⟨y, -, rfl⟩ := List.mem_map.1 hx
    simp
  · refine List.countP_eq_zero.2 fun x hx => ?_
    obtain ⟨y, -, rfl⟩ := List.mem_map.1 hx
    simp

/-! ## Delivered exits -/

/-- The branches that lose or repeat the exit are not taken: no Close is executed when the flag is set, a
flagged notice finds its connection open and its write accepted, and the write completes. -/
def ExitDelivered (s : CanIPCServer A api) : Input → Prop
  | .run _ => ∀ m ∈ s.exec.executing, m.eType = AnWfpType.wfpClose.code → s.exec.xfs.flag .wfpClose ≠ 1
  | .notify i uvWrite _ => ∀ n ∈ s.asyncs[i]?, n.notifyExitFlag = true →
      ∃ a ∈ n.client, uvWrite a = 0 ∧ ∃ p ∈ s.mem a, p.closing = false
  | .write i status => ∀ w ∈ s.writes[i]?, w.notice.notifyExitFlag = true → 0 ≤ status
  | _ => True

instance (s : CanIPCServer A api) : (i : Input) → Decidable (ExitDelivered s i)
  | .run _ => by unfold ExitDelivered; infer_instance
  | .notify .. => by unfold ExitDelivered; infer_instance
  | .write .. => by unfold ExitDelivered; infer_instance
  | .newConnection .. | .read .. | .readError .. | .closed .. | .idle .. | .itemCheck .. | .loopExit =>
    inferInstanceAs (Decidable True)

/-- At most one exit is requested, and it is acted on as soon as its write has completed. -/
structure ExitOnce (h : List (Event A)) (s : CanIPCServer A api) : Prop where
  flags : OnlyCloseFlagged s.exec.xfs
  delivered : exitCount h + flaggedWrites s = flaggedNotified h
  once : flaggedNotified h + flaggedAsyncs s ≤ 1
  unset : s.exec.xfs.flag .wfpClose ≠ 1 → flaggedNotified h + flaggedAsyncs s = 0
  live : ∀ w ∈ s.writes, w.notice.notifyExitFlag = true →
    ∃ a p, w.notice.client = some a ∧ w.handle = a ∧ s.mem a = some p

/-- A callback that leaves the executor's flags, the flagged notices and the flagged writes as they are. -/
theorem ExitOnce.frame {h : List (Event A)} {s t : CanIPCServer A api} {e : List (Event A)} (hs : ExitOnce h s)
    (hx : t.exec.xfs.flag = s.exec.xfs.flag) (ha : flaggedAsyncs t = flaggedAsyncs s)
    (hw : flaggedWrites t = flaggedWrites s) (he : exitCount e = 0) (hn : flaggedNotified e = 0)
    (hlive : ∀ w ∈ t.writes, w.notice.notifyExitFlag = true →
      ∃ a p, w.notice.client = some a ∧ w.handle = a ∧ t.mem a = some p) : ExitOnce (h ++ e) t := by
  have hd := hs.delivered
  have ho := hs.once
  refine ⟨fun u hu => by rw [hx]; exact hs.flags u hu, ?_, ?_, fun hne => ?_, hlive⟩
  · rw [exitCount_append, flaggedNotified_append]; omega
  · rw [flaggedNotified_append]; omega
  · have hu := hs.unset (by rw [← hx]; exact hne)
    rw [flaggedNotified_append]; omega

theorem exitOnce_notified {h : List (Event A)} {s t : CanIPCServer A api} (hs : ExitOnce h s) {k : Nat} {n : Notice}
    {uvWrite : Addr → Int} {a : Addr} {e : List (Event A)} {r : Int} (hk : s.asyncs[k]? = some n)
    (hn : n.client = some a) (hsent : Sent { s with asyncs := s.asyncs.eraseIdx k } a n t e r)
    (hwritten : ∀ p, s.mem a = some p → p.closing = false → uvWrite a = 0 →
      t = { s with asyncs := s.asyncs.eraseIdx k, writes := s.writes ++ [⟨a, n⟩] })
    (hg : n.notifyExitFlag = true → ∃ a ∈ n.client, uvWrite a = 0 ∧ ∃ p ∈ s.mem a, p.closing = false) :
    ExitOnce (h ++ (.notified n :: e ++ if r ≠ 0 then [.released n] else [])) t := by
  obtain ⟨⟨ws, f, ht, hws⟩, he⟩ := sent_frame hsent
  obtain ⟨he0, hn0⟩ := counts_ofSending he
  have hasync := countP_eraseIdx (·.notifyExitFlag) hk
  have hexits : exitCount (.notified n :: e ++ if r ≠ 0 then [Event.released n] else []) = 0 := by
    rw [exitCount_append]
    have : exitCount (.notified n :: e) = exitCount e := by simp [exitCount]
    rw [this, he0]
    split <;> simp [exitCount]
  have hnotes : flaggedNotified (.notified n :: e ++ if r ≠ 0 then [Event.released n] else []) =
      if n.notifyExitFlag then 1 else 0 := by
    rw [flaggedNotified_append]
    have : flaggedNotified (.notified n :: e) = (if n.notifyExitFlag then 1 else 0) + flaggedNotified e := by
      simp [flaggedNotified, List.countP_cons, Nat.add_comm]
    rw [this, hn0]
    split <;> split <;> simp [flaggedNotified]
  have hlive : ∀ w ∈ s.writes ++ ws, w.notice.notifyExitFlag = true →
      ∃ a p, w.notice.client = some a ∧ w.handle = a ∧ s.mem a = some p := by
    intro w hw hf
    rcases List.mem_append.1 hw with hw | hw
    · exact hs.live w hw hf
    · obtain ⟨rfl, p, hp, -⟩ := hws w hw
      exact ⟨a, p, hn, rfl, hp⟩
  by_cases hf : n.notifyExitFlag = true
  · -- by the guard the flagged notice becomes a flagged write
    obtain ⟨b, hb, hr, p, hp, hc⟩ := hg hf
    rw [hn] at hb
    cases hb
    have ht' := hwritten p hp hc hr
    rw [ht] at ht'
    have hwrites : s.writes ++ ws = s.writes ++ [⟨a, n⟩] := congrArg CanIPCServer.writes ht'
    rw [hf, if_pos rfl] at hasync hnotes
    have hd := hs.delivered
    have ho := hs.once
    have hcount : flaggedWrites t = flaggedWrites s + 1 := by
      rw [ht]
      show (s.writes ++ ws).countP _ = s.writes.countP _ + 1
      rw [hwrites, List.countP_append, List.countP_singleton]
      simp [hf]
    have hasync' : flaggedAsyncs s = flaggedAsyncs t + 1 := by rw [ht]; exact hasync
    refine ⟨by rw [ht]; exact hs.flags, ?_, ?_, fun hne => ?_, by rw [ht]; exact hlive⟩
    · rw [exitCount_append, flaggedNotified_append]; omega
    · rw [flaggedNotified_append]; omega
    · have hu := hs.unset (by rw [ht] at hne; exact hne)
      omega
  · -- a notice without the flag becomes writes without it, or none
    rw [if_neg hf] at hnotes
    rw [if_neg hf] at hasync
    refine hs.frame (by rw [ht]) (by rw [ht]; exact hasync.symm) ?_ hexits hnotes (by rw [ht]; exact hlive)
    rw [ht]
    show (s.writes ++ ws).countP _ = s.writes.countP _
    rw [List.countP_append]
    have hzero : ws.countP (·.notice.notifyExitFlag) = 0 := by
      refine List.countP_eq_zero.2 fun w hw => ?_
      rw [(hws w hw).1]; exact hf
    omega

/-- A notice that is broadcast has no flag, and neither has what is written of it. -/
theorem exitOnce_all {h : List (Event A)} {s : CanIPCServer A api} (hs : ExitOnce h s) {k : Nat} {n : Notice}
    {ws : List WriteReq} {f : Option Fault} {e : List (Event A)} (hk : s.asyncs[k]? = some n)
    (hf : n.notifyExitFlag = false) (hws : ∀ w ∈ ws, w.notice = CanIPCServer.clone n)
    (he : ∀ x ∈ e, OfSending (CanIPCServer.clone n) x) : ExitOnce (h ++ .notified n :: e)
      { s with asyncs := s.asyncs.eraseIdx k, writes := s.writes ++ ws, fault := f } := by
  obtain ⟨he0, hn0⟩ := counts_ofSending he
  have hwsf : ∀ w ∈ ws, w.notice.notifyExitFlag = false := fun w hw => by rw [hws w hw]; exact hf
  refine hs.frame rfl ?_ ?_ ?_ ?_ fun w hw hfw => ?_
  · have hasync := countP_eraseIdx (·.notifyExitFlag) hk
    rw [hf] at hasync
    exact hasync.symm
  · show (s.writes ++ ws).countP _ = s.writes.countP _
    have hzero : ws.countP (·.notice.notifyExitFlag) = 0 :=
      List.countP_eq_zero.2 fun w hw => by rw [hwsf w hw]; decide
    rw [List.countP_append, hzero, Nat.add_zero]
  · simpa [exitCount] using he0
  · simpa [flaggedNotified, hf] using hn0
  · rcases List.mem_append.1 hw with hw | hw
    · exact hs.live w hw hfw
    · rw [hwsf w hw] at hfw; cases hfw

/-- The flag that has been set stays. -/
theorem flag_after {x : CanXfs A api} (h : x.flag .wfpClose = 1) (t : AnWfpType) (m : AnCmd A) :
    (x.after t m).flag .wfpClose = 1 := by
  unfold CanXfs.after
  simp only
  split
  · rename_i hc
    rw [close_of_commander hc.1]
    exact Function.update_self ..
  · exact h

/-- A command is executed: only a Close sets the flag, and where it was not set before. -/
theorem exitOnce_executed {h : List (Event A)} {s : CanIPCServer A api} (hs : ExitOnce h s) {now : AnSystemtime}
    {m : AnCmd A} {u : AnWfpType} {c : CommanderClass} {x : Executer A api} {ex : List (ExecEvent A)}
    (hg : u = .wfpClose → s.exec.xfs.flag .wfpClose ≠ 1) (hc : commander u = some c)
    (hxfs : x.xfs = s.exec.xfs.after u m) (hnotes : noticesOf ex =
      [replyNotice s.exec.xfs u c m s.exec.currentCmd.mClient s.exec.currentCmd.origin now]) :
    ExitOnce (h ++ ex.map .exec) { s with exec := x, asyncs := s.asyncs ++ noticesOf ex } := by
  obtain ⟨he0, hn0⟩ := counts_exec (A := A) ex
  have hflags : OnlyCloseFlagged x.xfs := by rw [hxfs]; exact onlyCloseFlagged_after hs.flags u m
  have hasyncs : flaggedAsyncs { s with exec := x, asyncs := s.asyncs ++ noticesOf ex } = flaggedAsyncs s +
      if (replyNotice s.exec.xfs u c m s.exec.currentCmd.mClient s.exec.currentCmd.origin now).notifyExitFlag
      then 1 else 0 := by
    show (s.asyncs ++ noticesOf ex).countP _ = _
    rw [hnotes, List.countP_append, List.countP_singleton]; rfl
  by_cases hf : (replyNotice s.exec.xfs u c m s.exec.currentCmd.mClient s.exec.currentCmd.origin now).notifyExitFlag
      = true
  · obtain ⟨rfl, -⟩ := replyNotice_flagged hs.flags hf
    rw [if_pos hf] at hasyncs
    have hzero := hs.unset (hg rfl)
    have hset : x.xfs.flag .wfpClose = 1 := by
      rw [hxfs]; simpa [replyNotice] using hf
    have hd := hs.delivered
    refine ⟨hflags, ?_, ?_, fun hne => absurd hset hne, hs.live⟩
    · rw [exitCount_append, flaggedNotified_append, he0, hn0]; exact hd
    · rw [flaggedNotified_append]; omega
  · rw [if_neg hf, Nat.add_zero] at hasyncs
    have hd := hs.delivered
    have ho := hs.once
    refine ⟨hflags, ?_, ?_, fun hne => ?_, hs.live⟩
    · rw [exitCount_append, flaggedNotified_append, he0, hn0]; exact hd
    · rw [flaggedNotified_append]; omega
    · have hold : s.exec.xfs.flag .wfpClose ≠ 1 := by
        intro hone
        apply hne
        show x.xfs.flag .wfpClose = 1
        rw [hxfs]
        exact flag_after hone u m
      have hzero := hs.unset hold
      rw [flaggedNotified_append]; omega

theorem exitOnce_step {h : List (Event A)} {s t : CanIPCServer A api} {i : Input} {e : List (Event A)}
    (hs : ExitOnce h s) (hg : ExitDelivered s i) (hstep : (serverMachine A api).step s i = some (t, e)) :
    ExitOnce (h ++ e) t := by
  obtain ⟨-, -, ha⟩ := server_acted hstep
  cases ha with
  | listenFailed | acceptFailed | readFaulty | closedUnknown | loopExit =>
    exact hs.frame rfl rfl rfl rfl rfl hs.live
  | accepted status addr accept hm => exact hs.frame rfl rfl rfl rfl rfl (live_update hs.live (.inl rfl))
  | readFailed addr p hm => exact hs.frame rfl rfl rfl rfl rfl (live_update hs.live (.inl rfl))
  | closed addr p hm hc hw hv => exact hs.frame rfl rfl rfl rfl rfl (live_update hs.live (.inr hw))
  | readInfo addr p chunk now m rest n hm hc hr hget hn =>
    refine hs.frame rfl ?_ rfl rfl rfl hs.live
    show (s.asyncs ++ [n]).countP _ = s.asyncs.countP _
    rw [List.countP_append, List.countP_singleton, (spiGetinfo_ok hn).2.2.1]; rfl
  | readCommand => exact hs.frame rfl rfl rfl rfl rfl hs.live
  | notifiedAll k n uvWrite garbage ws f e hk hn hws he =>
    have hf : n.notifyExitFlag = false := by
      by_contra hf
      obtain ⟨a, ha, -⟩ := hg n hk (by simpa using hf)
      rw [hn] at ha; cases ha
    exact exitOnce_all hs hk hf (fun w hw => (hws w hw).1) he
  | notified k n uvWrite garbage a t e r hk hn hsent hwritten =>
    exact exitOnce_notified hs hk hn hsent (fun p hp hc hr => (hwritten p hp hc hr).1) fun hf => hg n hk hf
  | writeFailed k w status hk hneg =>
    have hf : w.notice.notifyExitFlag = false := by
      by_contra hf
      have := hg w hk (by simpa using hf)
      omega
    have hcount := countP_eraseIdx (fun w : WriteReq => w.notice.notifyExitFlag) hk
    rw [hf] at hcount
    exact hs.frame rfl rfl hcount.symm rfl rfl fun w hw => hs.live w (List.mem_of_mem_eraseIdx hw)
  | written k w status hk hf =>
    have hcount := countP_eraseIdx (fun w : WriteReq => w.notice.notifyExitFlag) hk
    rw [hf] at hcount
    exact hs.frame rfl rfl hcount.symm rfl rfl fun w hw => hs.live w (List.mem_of_mem_eraseIdx hw)
  | strayWrite k w status f hk hf hstray =>
    -- the connection of a flagged write is still there
    obtain ⟨a, p, hc, -, hp⟩ := hs.live w (List.mem_of_getElem? hk) hf
    rcases hstray with hstray | ⟨b, hb, hnone⟩
    · rw [hc] at hstray; cases hstray
    · rw [hc] at hb; cases hb
      rw [hp] at hnone; cases hnone
  | exits k w status hk hf hclosing | exitsAgain k w status hk hf hclosing =>
    have hcount := countP_eraseIdx (fun w : WriteReq => w.notice.notifyExitFlag) hk
    rw [if_pos hf] at hcount
    have hcount' : flaggedWrites s = _ := hcount
    have hd := hs.delivered
    have ho := hs.once
    refine ⟨hs.flags, ?_, ?_, fun hne => ?_, fun w hw => hs.live w (List.mem_of_mem_eraseIdx hw)⟩
    · rw [exitCount_append, flaggedNotified_append]
      show exitCount h + 1 + List.countP _ (s.writes.eraseIdx k) = flaggedNotified h + 0
      omega
    · rw [flaggedNotified_append]; exact ho
    · rw [flaggedNotified_append]; exact hs.unset hne
  | exec i j x ex hj hst =>
    obtain ⟨he0, hn0⟩ := counts_exec (A := A) ex
    rcases stepped_xfs hst with ⟨-, hflag, hn⟩ | ⟨now, m, u, c, rfl, hm, hu, hc, hxfs, hnotes⟩
    · refine hs.frame hflag ?_ rfl he0 hn0 hs.live
      show (s.asyncs ++ noticesOf ex).countP _ = s.asyncs.countP _
      have hzero : (noticesOf ex).countP (·.notifyExitFlag) = 0 :=
        List.countP_eq_zero.2 fun n hn' => by rw [hn n hn']; decide
      rw [List.countP_append, hzero, Nat.add_zero]
    have hrun : ∃ now', i = .run now' := by
      cases i <;> first | exact ⟨_, rfl⟩ | cases hj
    obtain ⟨now', rfl⟩ := hrun
    exact exitOnce_executed hs (fun hclose => hg m hm (hclose ▸ hu)) hc hxfs hnotes

/-- In every run of the server in which a flagged notice finds its connection open, its write accepted and
completed, and in which no Close is executed once the flag is set: `notify_exit_server` is invoked at
most once, and once every flagged write has completed, as often as a flagged notice reached `on_notify`. -/
theorem exit_exactly_once {caps : Held A (AnXfsCaps.codec A api)} {status : Held A (AnXfsStatus.codec A api)}
    {is : List Input} {s : CanIPCServer A api} {es : List (Event A)}
    (hg : (serverMachine A api).Meets ExitDelivered (CanIPCServer.new (CanXfs.new caps status)) is)
    (hr : (serverMachine A api).run (CanIPCServer.new (CanXfs.new caps status)) is = some (s, es)) :
    exitCount es ≤ 1 ∧ (flaggedWrites s = 0 → exitCount es = flaggedNotified es) := by
  have hinit : ExitOnce [] (CanIPCServer.new (CanXfs.new caps status)) := by
    refine ⟨fun t _ => ?_, rfl, Nat.zero_le _, fun _ => rfl, fun w hw => (by cases hw)⟩
    show (0 : Int) ≠ 1
    decide
  have honce := Machine.run_invariant (I := ExitOnce)
    (fun h s i t e hi hg hs => exitOnce_step hi hg hs) is [] _ s es hinit hg hr
  rw [List.nil_append] at honce
  have hd := honce.delivered
  have ho := honce.once
  exact ⟨by omega, fun hw => by omega⟩

theorem openThenClose_exits_once : ∃ s es,
    (serverMachine .x86 .documented).run (.new .blank) (openThenClose ++ [.write 1 0]) = some (s, es) ∧
      flaggedNotified es = 1 ∧ exitCount es ≤ 1 ∧ (flaggedWrites s = 0 → exitCount es = flaggedNotified es) := by
  obtain ⟨s, es, hr, he⟩ : ∃ s es, (serverMachine .x86 .documented).run (.new .blank)
      (openThenClose ++ [.write 1 0]) = some (s, es) ∧ flaggedNotified es = 1 := Machine.run_any (by decide +kernel)
  exact ⟨s, es, hr, he, exit_exactly_once (by decide +kernel) hr⟩

/-- The client disconnects right after its Close: `on_notify` finds the connection closing. -/
def closeAndDisconnect : List Input :=
  [.newConnection 0 0 0, .read 0 (openCmd 1 1).put midnight] ++ runOnce ++
    [.read 0 (closeCmd 1 2).put midnight, .readError 0] ++ runOnce ++ [notifyFirst, notifyFirst]

theorem exit_lost : ¬ ∀ s es,
    (serverMachine .x86 .documented).run (.new .blank) closeAndDisconnect = some (s, es) →
      exitCount es ≤ 1 ∧ (flaggedWrites s = 0 → exitCount es = flaggedNotified es) := by
  intro h
  obtain ⟨s, es, hr, hw, he⟩ : ∃ s es,
      (serverMachine .x86 .documented).run (.new .blank) closeAndDisconnect = some (s, es) ∧
        flaggedWrites s = 0 ∧ exitCount es ≠ flaggedNotified es := Machine.run_any (by decide +kernel)
  exact he ((h s es hr).2 hw)

end AnXfs.Server
