/-
Who wakes the caller of `run`. While it is between starting its worker and leaving `wait`, and the
handshake is undecided, that worker has yet to come out of `init` or has a connect attempt with libuv:
`Handshake` is the invariant, with what keeps the worker in `uv_run` until then. It holds as long as
initialising succeeds and the server can be spawned; where one of the three fails, the worker ends and
nobody signals.
-/
import AnXfs.Client.Connect

namespace AnXfs.Client

open AnXfs.Run

/-! ## Waiting -/

/-- The worker that `run` has started last has yet to come out of `init`, or has a connect attempt with libuv. -/
def CanIPCRun.Connecting (s : CanIPCRun) : Prop :=
  (s.workers s.last).pc = .started ∨ (s.workers s.last).pc = .initialising ∨
    (s.workers s.last).pc = .running ∧ s.attempt = true

instance (s : CanIPCRun) : Decidable s.Connecting := by unfold CanIPCRun.Connecting; infer_instance

/-- A caller that is blocked with nothing decided has a worker that is still connecting, and no worker is at its
end with nothing decided as long as the caller has not been let go. -/
structure Awaited (s : CanIPCRun) : Prop where
  waiter : s.caller = .blocked → s.waitConnect.status = 0 → s.Connecting
  worker : s.caller.inRun = true → (s.workers s.last).pc = .leaving ∨ (s.workers s.last).pc = .returned →
    s.waitConnect.status ≠ 0

/-- Initialising succeeds, and so does `uv_spawn` where `on_connect` calls it. -/
def Succeeds (s : CanIPCRun) : ConnectInput → Prop
  | .init _ loopInit pipeInit => loopInit = 0 ∧ pipeInit = 0
  | .onConnect _ status spawn _ => status ≠ 0 → s.waitConnect.count = 0 → spawn = 0
  | _ => True

instance (s : CanIPCRun) : (i : ConnectInput) → Decidable (Succeeds s i)
  | .init .. | .onConnect .. => by unfold Succeeds; infer_instance
  | .run | .stop _ | .caller | .callInit _ | .onReadEnd _ | .onClose _ | .leave _ | .ends _ =>
    inferInstanceAs (Decidable True)

/-! ## The invariant -/

/-- While the caller is in `run` and nothing is decided, the last worker is connecting; and nothing has told
`uv_run` to stop then. -/
structure Handshake (s : CanIPCRun) : Prop where
  connecting : s.caller.inRun = true → s.waitConnect.status = 0 → s.Connecting
  unstopped : s.caller.inRun = true → (s.workers s.last).pc = .running → s.stopFlag = false

theorem Handshake.awaited {s : CanIPCRun} (hs : Handshake s) : Awaited s where
  waiter := by
    intro hb
    exact hs.connecting (by rw [hb]; rfl)
  worker := by
    intro hr hpc h0
    have hc := hs.connecting hr h0
    unfold CanIPCRun.Connecting at hc
    rcases hpc with hpc | hpc <;> simp [hpc] at hc

/-- A step that moves no worker, stops nothing, and leaves the request with libuv as long as nothing is decided. -/
theorem Handshake.frame {s t : CanIPCRun} (hs : Handshake s) (hpc : ∀ w, (t.workers w).pc = (s.workers w).pc)
    (hstarted : t.started = s.started) (hrun : t.caller.inRun = true → s.caller.inRun = true)
    (hundecided : t.caller.inRun = true → t.waitConnect.status = 0 →
      s.waitConnect.status = 0 ∧ (s.attempt = true → t.attempt = true))
    (hstop : t.caller.inRun = true → s.stopFlag = false → t.stopFlag = false) : Handshake t := by
  have hlast : t.last = s.last := by
    unfold CanIPCRun.last
    rw [hstarted]
  constructor
  · intro hr h0
    obtain ⟨h0', ha⟩ := hundecided hr h0
    have hc := hs.connecting (hrun hr) h0'
    unfold CanIPCRun.Connecting at hc ⊢
    rw [hlast, hpc]
    exact hc.imp_right fun hc => hc.imp_right fun hc => ⟨hc.1, ha hc.2⟩
  · intro hr hpc'
    rw [hlast, hpc] at hpc'
    exact hstop hr (hs.unstopped (hrun hr) hpc')

/-- A step of the thread in `run` or `stop`, or a callback that leaves the handshake alone. -/
theorem Handshake.quiet {s t : CanIPCRun} (hs : Handshake s) (hpc : ∀ w, (t.workers w).pc = (s.workers w).pc)
    (hstarted : t.started = s.started) (hrun : t.caller.inRun = true → s.caller.inRun = true)
    (hsem : t.waitConnect = s.waitConnect) (hattempt : t.attempt = s.attempt) (hstop : t.stopFlag = s.stopFlag) :
    Handshake t :=
  hs.frame hpc hstarted hrun (fun _ h0 => ⟨by rw [← hsem]; exact h0, by rw [hattempt]; exact id⟩)
    fun _ h => by rw [hstop]; exact h

/-- A step of one worker, to a place where the last worker is still connecting or was not before. -/
theorem Handshake.turn {s t : CanIPCRun} (hs : Handshake s) {w : Nat} {pc : WorkerPc}
    (hpc : ∀ v, (t.workers v).pc = if v = w then pc else (s.workers v).pc) (hstarted : t.started = s.started)
    (hcaller : t.caller = s.caller) (hsem : t.waitConnect = s.waitConnect)
    (hattempt : s.attempt = true → t.attempt = true)
    (hconnecting : w = s.last → s.Connecting → s.stopFlag = false ∨ (s.workers w).pc ≠ .running →
      pc = .started ∨ pc = .initialising ∨ pc = .running ∧ t.attempt = true)
    (hstop : t.stopFlag = false ∨ t.stopFlag = s.stopFlag ∧ pc ≠ .running) : Handshake t := by
  have hlast : t.last = s.last := by
    unfold CanIPCRun.last
    rw [hstarted]
  constructor
  · intro hr h0
    rw [hcaller] at hr
    rw [hsem] at h0
    have hc := hs.connecting hr h0
    have hu : s.stopFlag = false ∨ (s.workers s.last).pc ≠ .running := by
      by_cases hrun : (s.workers s.last).pc = .running
      · exact .inl (hs.unstopped hr hrun)
      · exact .inr hrun
    unfold CanIPCRun.Connecting
    rw [hlast, hpc]
    by_cases hw : s.last = w
    · rw [if_pos hw]
      exact hconnecting hw.symm hc (by rwa [← hw])
    · rw [if_neg hw]
      exact hc.imp_right fun hc => hc.imp_right fun hc => ⟨hc.1, hattempt hc.2⟩
  · intro hr hrun
    rw [hlast, hpc] at hrun
    rw [hcaller] at hr
    rcases hstop with hstop | ⟨hstop, hne⟩
    · exact hstop
    · rw [hstop]
      by_cases hw : s.last = w
      · rw [if_pos hw] at hrun
        exact absurd hrun hne
      · rw [if_neg hw] at hrun
        exact hs.unstopped hr hrun

theorem status_signalOnce {s : AnWaitconnectSemaphore} (h : s.signalOnce.status = 0) : s.status = 0 := by
  unfold AnWaitconnectSemaphore.signalOnce at h
  split at h
  · cases h
  · exact h

theorem handshake_step {s t : CanIPCRun} {i : ConnectInput} {e : List ConnectEvent} (hs : Handshake s)
    (hg : Succeeds s i) (hstep : connectMachine.step s i = some (t, e)) : Handshake t := by
  obtain ⟨-, hm⟩ := CanIPCRun.connect_moved hstep
  cases hm with
  | started hi ht =>
    -- the new worker is the last one, and has yet to call init
    have hpc : (Function.update s.workers s.started ⟨.started, false⟩ s.started).pc = .started := by simp
    refine ⟨fun _ _ => .inl hpc, fun _ hr => ?_⟩
    rw [show (Function.update s.workers s.started ⟨.started, false⟩ s.started).pc = .running from hr] at hpc
    cases hpc
  | stops bforce hi ht =>
    have hout : (CallerPc.stopping bforce).inRun ≠ true := by simp [CallerPc.inRun]
    exact hs.frame (fun _ => rfl) rfl (fun h => absurd h hout) (fun h => absurd h hout) fun h => absurd h hout
  | joinable | stopsNothing | disconnectedAgain => exact hs
  | waits hc | detachedEarly hc | blocks hc | passes hc | wakes hc | returns hc | closes _ hc | closesNothing _ hc
  | joins _ hc | joined _ hc =>
    exact hs.quiet (fun _ => rfl) rfl (by rw [hc]; simp [CallerPc.inRun]) rfl rfl rfl
  | detaches w hc ht => exact hs.quiet (fun v => s.detach_pc w v) rfl (by simp [CallerPc.inRun]) rfl rfl rfl
  | disconnected | closed | closedThrows | stopThrows => exact hs.quiet (fun _ => rfl) rfl id rfl rfl rfl
  | closedDetaches w v => exact hs.quiet (fun u => s.detach_pc v u) rfl id rfl rfl rfl
  | initialises w | reinitialises w v =>
    exact hs.turn (fun v => s.setPc_pc w v _) rfl rfl rfl id (fun _ _ _ => .inr (.inl rfl)) (.inr ⟨rfl, by decide⟩)
  | loopInitFails w loopInit pipeInit hpc hl => exact absurd hg.1 hl
  | pipeInitFails w pipeInit hpc hp => exact absurd hg.2 hp
  | connects w hpc =>
    exact hs.turn (fun v => s.setPc_pc w v _) rfl rfl rfl (fun _ => rfl) (fun _ _ _ => .inr (.inr ⟨rfl, rfl⟩))
      (.inl rfl)
  | spawnFails w status spawn readStart hpc ha hst hc hsp => exact absurd (hg hst hc) hsp
  | reconnects w status spawn readStart hpc ha hst hsp =>
    exact hs.frame (fun _ => rfl) rfl id (fun _ h0 => ⟨status_signalOnce h0, fun _ => rfl⟩) fun _ h => h
  | connected w spawn readStart hpc ha =>
    exact hs.frame (fun _ => rfl) rfl id (fun _ h0 => by cases h0) fun _ h => h
  | leaves w hpc hl =>
    refine hs.turn (fun v => s.setPc_pc w v _) rfl rfl rfl id (fun hw hc hu => ?_) (.inl rfl)
    -- the last worker stays in uv_run: nothing has stopped the loop, and a request is with libuv
    subst hw
    have ha : s.attempt = true := by simpa [CanIPCRun.Connecting, hpc] using hc
    have hf : s.stopFlag = false := by simpa [hpc] using hu
    simp [hf, CanIPCRun.idleLoop, ha] at hl
  | returned w hpc =>
    refine hs.turn (fun v => s.setPc_pc w v _) rfl rfl rfl id (fun hw hc hu => ?_) (.inr ⟨rfl, by decide⟩)
    subst hw
    simp [CanIPCRun.Connecting, hpc] at hc

/-- In every run in which `uv_loop_init` and `uv_pipe_init` succeed, and `uv_spawn` where it is called: as long as
the caller of `CanIPC::run` is blocked and nothing is decided, its worker has yet to come out of `init` or has a
connect attempt outstanding; and the worker does not end undecided. -/
theorem waiter_awaited {is : List ConnectInput} {s : CanIPCRun} {es : List ConnectEvent}
    (hg : connectMachine.Meets Succeeds .new is) (hr : connectMachine.run .new is = some (s, es)) : Awaited s := by
  have hinit : Handshake .new := by
    constructor
    · intro h
      cases h
    · intro h
      cases h
  have hs := Machine.run_invariant (I := fun _ => Handshake)
    (fun _ s i t e hs hg hstep => handshake_step hs hg hstep) is [] .new s es hinit hg hr
  exact hs.awaited

/-- The caller waits while the first connect attempt fails, the server is spawned, and a second one is made. -/
def spawning : List ConnectInput :=
  [.run, .caller, .callInit 0, .init 0 0 0, .caller, .onConnect 0 (-2) 0 0]

theorem spawning_awaited : ∃ s es, connectMachine.run .new spawning = some (s, es) ∧
    (s.caller = .blocked ∧ s.waitConnect.status = 0) ∧ Awaited s := by
  obtain ⟨s, es, hr, hb⟩ : ∃ s es, connectMachine.run .new spawning = some (s, es) ∧
      (s.caller = .blocked ∧ s.waitConnect.status = 0) := Machine.run_any (by decide +kernel)
  exact ⟨s, es, hr, hb, waiter_awaited (by decide +kernel) hr⟩

/-- After the run the caller is blocked with nothing decided, and its worker has returned. -/
def LeavesAlone (is : List ConnectInput) : Prop :=
  ∃ s es, connectMachine.run .new is = some (s, es) ∧
    (s.caller = .blocked ∧ s.waitConnect.status = 0 ∧ (s.workers s.last).pc = .returned) ∧ ¬ Awaited s

theorem leavesAlone_of_run {is : List ConnectInput}
    (h : ((connectMachine.run .new is).any fun p =>
      p.1.caller = .blocked ∧ p.1.waitConnect.status = 0 ∧ (p.1.workers p.1.last).pc = .returned) = true) :
    LeavesAlone is := by
  obtain ⟨⟨s, es⟩, hr, hp⟩ := (Option.any_eq_true _ _).1 h
  obtain ⟨hb, h0, hpc⟩ := of_decide_eq_true hp
  refine ⟨s, es, hr, ⟨hb, h0, hpc⟩, fun ha => ?_⟩
  exact ha.worker (by rw [hb]; rfl) (.inr hpc) h0

/-- The loop cannot be initialised, or the pipe cannot, or the server cannot be spawned: nobody wakes the caller. -/
theorem waiter_left_alone :
    LeavesAlone [.run, .caller, .callInit 0, .init 0 (-12) 0, .ends 0, .caller] ∧
    LeavesAlone [.run, .caller, .callInit 0, .init 0 0 (-12), .ends 0, .caller] ∧
    LeavesAlone [.run, .caller, .callInit 0, .init 0 0 0, .caller, .onConnect 0 (-2) (-2) 0, .leave 0, .ends 0] :=
  ⟨leavesAlone_of_run (by decide +kernel), leavesAlone_of_run (by decide +kernel),
    leavesAlone_of_run (by decide +kernel)⟩

end AnXfs.Client
