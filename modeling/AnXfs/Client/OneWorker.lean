/-
How many workers drive the client's loop. `run` looks at `m_thread` only, and `m_thread` lets go of a
worker before the worker ends: `on_close` detaches it from inside `uv_run`, and `stop(true)` without
waiting. As long as `run` is not called before such a worker has returned, at most one worker has not
returned at any time; called earlier, it starts a worker that initialises the loop under the first.
-/
import AnXfs.Client.Connect

namespace AnXfs.Client

open AnXfs.Run

/-- At most one worker is between its call of `init` and its return, and none has initialised the loop while
another one ran it. -/
structure OneWorker (s : CanIPCRun) : Prop where
  active : ∀ v w, (s.workers v).active = true → (s.workers w).active = true → v = w
  loop : s.fault ≠ some .reinitialised

/-- `run` is not called while a worker that `on_close` or `stop(true)` has detached has yet to return. -/
def CalledAfterReturn (s : CanIPCRun) : ConnectInput → Prop
  | .run => ∀ w < s.started, (s.workers w).detached = true → (s.workers w).pc = .returned
  | _ => True

instance (s : CanIPCRun) : (i : ConnectInput) → Decidable (CalledAfterReturn s i)
  | .run => by unfold CalledAfterReturn; infer_instance
  | .stop _ | .caller | .callInit _ | .init .. | .onConnect .. | .onReadEnd _ | .onClose _ | .leave _ | .ends _ =>
    inferInstanceAs (Decidable True)

/-! ## The invariant -/

/-- A worker that has not returned is one that `m_thread` stands for or has let go; and there is at most one. -/
structure Single (s : CanIPCRun) : Prop where
  known : ∀ w, s.started ≤ w → (s.workers w).pc = .returned
  held : ∀ w, (s.workers w).pc ≠ .returned → (s.workers w).detached = true ∨ s.thread = some w
  one : ∀ v w, (s.workers v).pc ≠ .returned → (s.workers w).pc ≠ .returned → v = w
  loop : s.fault ≠ some .reinitialised

theorem Worker.not_returned {w : Worker} (h : w.active = true) : w.pc ≠ .returned := by
  intro hpc
  simp [Worker.active, hpc] at h

theorem Single.oneWorker {s : CanIPCRun} (hs : Single s) : OneWorker s :=
  ⟨fun v w hv hw => hs.one v w (Worker.not_returned hv) (Worker.not_returned hw), hs.loop⟩

/-- A step that moves no worker and lets go of none. -/
theorem Single.frame {s t : CanIPCRun} (hs : Single s) (hworkers : t.workers = s.workers)
    (hstarted : t.started = s.started) (hthread : t.thread = s.thread) (hloop : t.fault ≠ some .reinitialised) :
    Single t := by
  refine ⟨?_, ?_, ?_, hloop⟩
  · rw [hworkers, hstarted]
    exact hs.known
  · rw [hworkers, hthread]
    exact hs.held
  · rw [hworkers]
    exact hs.one

/-- A worker that has not returned takes a step. -/
theorem Single.turn {s t : CanIPCRun} (hs : Single s) {w : Nat} {pc : WorkerPc} (hw : (s.workers w).pc ≠ .returned)
    (hworkers : t.workers = (s.setPc w pc).workers) (hstarted : t.started = s.started) (hthread : t.thread = s.thread)
    (hloop : t.fault ≠ some .reinitialised) : Single t := by
  -- no other worker has yet to return than before
  have hback : ∀ v, (t.workers v).pc ≠ .returned → (s.workers v).pc ≠ .returned := by
    intro v hv
    by_cases hvw : v = w
    · rw [hvw]
      exact hw
    · rwa [hworkers, CanIPCRun.setPc_pc, if_neg hvw] at hv
  refine ⟨fun v hv => ?_, fun v hv => ?_, fun u v hu hv => hs.one u v (hback u hu) (hback v hv), hloop⟩
  · rw [hstarted] at hv
    by_contra hne
    exact hback v hne (hs.known v hv)
  · rw [hthread, hworkers, CanIPCRun.setPc_detached]
    exact hs.held v (hback v hv)

/-- `m_thread` lets go of its worker. -/
theorem Single.letGo {s t : CanIPCRun} (hs : Single s) {w : Nat} (hthread : s.thread = some w)
    (hworkers : t.workers = (s.detach w).workers) (hstarted : t.started = s.started)
    (hloop : t.fault ≠ some .reinitialised) : Single t := by
  refine ⟨fun v hv => ?_, fun v hv => ?_, fun u v hu hv => ?_, hloop⟩
  · rw [hworkers, CanIPCRun.detach_pc]
    exact hs.known v (by rwa [hstarted] at hv)
  · rw [hworkers, CanIPCRun.detach_pc] at hv
    left
    rw [hworkers]
    by_cases hvw : v = w
    · rw [hvw]
      simp [CanIPCRun.detach]
    · have hd : (s.workers v).detached = true := by
        rcases hs.held v hv with hd | hd
        · exact hd
        · rw [hthread] at hd
          exact absurd (Option.some.inj hd).symm hvw
      simpa [CanIPCRun.detach, hvw] using hd
  · rw [hworkers, CanIPCRun.detach_pc] at hu hv
    exact hs.one u v hu hv

/-- A worker is started when every other one has returned. -/
theorem Single.start {s t : CanIPCRun} (hall : ∀ w, (s.workers w).pc = .returned)
    (hworkers : t.workers = Function.update s.workers s.started ⟨.started, false⟩)
    (hstarted : t.started = s.started + 1) (hthread : t.thread = some s.started)
    (hloop : t.fault ≠ some .reinitialised) : Single t := by
  have honly : ∀ v, (t.workers v).pc ≠ .returned → v = s.started := by
    intro v hv
    by_contra hne
    rw [hworkers, Function.update_of_ne hne] at hv
    exact hv (hall v)
  refine ⟨fun w hw => ?_, fun w hw => ?_, fun v w hv hw => ?_, hloop⟩
  · by_contra hne
    have := honly w hne
    omega
  · right
    rw [hthread, honly w hw]
  · rw [honly v hv, honly w hw]

theorem single_step {s t : CanIPCRun} {i : ConnectInput} {e : List ConnectEvent} (hs : Single s)
    (hg : CalledAfterReturn s i) (hstep : connectMachine.step s i = some (t, e)) : Single t := by
  obtain ⟨hf, hm⟩ := CanIPCRun.connect_moved hstep
  have hloop : s.fault ≠ some .reinitialised := hs.loop
  cases hm with
  | started hi ht =>
    refine Single.start (fun w => ?_) rfl rfl rfl hloop
    by_contra hw
    rcases hs.held w hw with hd | hd
    · have hlt : w < s.started := by
        by_contra hge
        exact hw (hs.known w (not_lt.1 hge))
      exact hw (hg w hlt hd)
    · rw [ht] at hd
      cases hd
  | joinable | stopsNothing | disconnectedAgain => exact hs
  | stops | waits | detachedEarly | blocks | passes | wakes | returns | closes | closesNothing | joins | spawnFails
  | reconnects | connected | disconnected | closed => exact hs.frame rfl rfl rfl hloop
  | stopThrows => exact hs.frame rfl rfl rfl (by simp)
  | closedThrows w f hpc hc hcl ha hthrows hne => exact hs.frame rfl rfl rfl (by simpa using hne)
  | detaches w hc ht => exact hs.letGo ht rfl rfl hloop
  | closedDetaches w v hpc hc hcl ha ht hj => exact hs.letGo ht rfl rfl hloop
  | joined w hc ht hpc =>
    refine ⟨hs.known, fun v hv => ?_, hs.one, hloop⟩
    rcases hs.held v hv with hd | hd
    · exact .inl hd
    · rw [ht] at hd
      cases hd
      exact absurd hpc hv
  | initialises w hpc hv => exact hs.turn (by rw [hpc]; decide) rfl rfl rfl hloop
  | reinitialises w v hpc hlt hv =>
    -- both have yet to return, so that they are the same; but only one has called init
    have hv' : (s.workers v).pc ≠ .returned := by
      intro hpc'
      simp [Worker.inLoop, hpc'] at hv
    have hvw := hs.one v w hv' (by rw [hpc]; decide)
    rw [hvw, Worker.inLoop, hpc] at hv
    simp at hv
  | loopInitFails w loopInit pipeInit hpc | pipeInitFails w pipeInit hpc | connects w hpc | leaves w hpc
  | returned w hpc => exact hs.turn (by rw [hpc]; decide) rfl rfl rfl hloop

/-- In every run in which `CanIPC::run` is not called while a worker that `on_close` or `stop(true)` has detached
has yet to return: at most one worker is between its call of `init` and its return, and the loop is never
initialised under another worker. -/
theorem oneWorker_of_calledAfterReturn {is : List ConnectInput} {s : CanIPCRun} {es : List ConnectEvent}
    (hg : connectMachine.Meets CalledAfterReturn .new is) (hr : connectMachine.run .new is = some (s, es)) :
    OneWorker s := by
  have hinit : Single .new :=
    ⟨fun w _ => rfl, fun w hw => absurd rfl hw, fun v w hv _ => absurd rfl hv, by simp [CanIPCRun.new]⟩
  have hs := Machine.run_invariant (I := fun _ => Single)
    (fun _ s i t e hs hg hstep => single_step hs hg hstep) is [] .new s es hinit hg hr
  exact hs.oneWorker

/-- The server disconnects after a first handshake, and the worker returns before `run` is called again. -/
def reconnecting : List ConnectInput :=
  [.run, .caller, .callInit 0, .init 0 0 0, .caller, .onConnect 0 0 0 0, .caller, .caller, .onReadEnd 0, .onClose 0,
    .leave 0, .ends 0, .run, .caller, .callInit 1]

theorem reconnecting_oneWorker : ∃ s es, connectMachine.run .new reconnecting = some (s, es) ∧
    (s.workers 1).active = true ∧ OneWorker s := by
  obtain ⟨s, es, hr, ha⟩ : ∃ s es, connectMachine.run .new reconnecting = some (s, es) ∧
      (s.workers 1).active = true := Machine.run_any (by decide +kernel)
  exact ⟨s, es, hr, ha, oneWorker_of_calledAfterReturn (by decide +kernel) hr⟩

/-- The server disconnects, and `run` is called again while the worker is still in `uv_run`. -/
def calledEarly : List ConnectInput :=
  [.run, .caller, .callInit 0, .init 0 0 0, .caller, .onConnect 0 0 0 0, .caller, .caller, .onReadEnd 0, .onClose 0,
    .run, .callInit 1]

theorem two_workers : ∃ s es, connectMachine.run .new calledEarly = some (s, es) ∧
    ((s.workers 0).pc = .running ∧ s.fault = some .reinitialised) ∧ ¬ OneWorker s := by
  obtain ⟨s, es, hr, h0, hf⟩ : ∃ s es, connectMachine.run .new calledEarly = some (s, es) ∧
      ((s.workers 0).pc = .running ∧ s.fault = some .reinitialised) := Machine.run_any (by decide +kernel)
  exact ⟨s, es, hr, ⟨h0, hf⟩, fun h => h.loop hf⟩

/-- From any state where `run` can be called and finds nothing in `m_thread` while a worker is active, the call and
the new worker's first step right after it make it two. -/
theorem two_workers_of_calledEarly {s : CanIPCRun} {v : Nat} (hf : s.fault = none) (hi : s.caller = .idle)
    (ht : s.thread = none) (hv : (s.workers v).active = true) (hlt : v < s.started) :
    ∃ t u e e', connectMachine.step s .run = some (t, e) ∧
      connectMachine.step t (.callInit s.started) = some (u, e') ∧ ¬ OneWorker u := by
  have hrun : connectMachine.step s .run = some s.run := by simp [connectMachine, CanIPCRun.step, hf, hi]
  have hworkers : s.run.1.workers = Function.update s.workers s.started ⟨.started, false⟩ := by
    simp [CanIPCRun.run, ht]
  have hpc : (s.run.1.workers s.started).pc = .started := by simp [hworkers]
  have hfault : s.run.1.fault = none := by simp [CanIPCRun.run, ht, hf]
  have hinit : connectMachine.step s.run.1 (.callInit s.started) = some (s.run.1.callInit s.started) := by
    simp [connectMachine, CanIPCRun.step, hfault, hpc]
  refine ⟨_, _, _, _, hrun, hinit, fun hone => ?_⟩
  have hnew : (((s.run.1.callInit s.started).1).workers s.started).active = true := by
    unfold CanIPCRun.callInit
    simp only
    split <;> simp [Worker.active]
  have hold : (((s.run.1.callInit s.started).1).workers v).active = true := by
    have hpcs : (((s.run.1.callInit s.started).1).workers v).pc = (s.workers v).pc := by
      unfold CanIPCRun.callInit
      simp only
      split <;> simp [hlt.ne, hworkers]
    simpa [Worker.active, hpcs] using hv
  exact hlt.ne (hone.active v s.started hold hnew)

end AnXfs.Client
