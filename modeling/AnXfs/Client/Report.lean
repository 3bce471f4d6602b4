/-
What `run` reports. It answers 0 without a look at the semaphore whenever `m_thread` is joinable, and
after it has given up its worker is still there: the next call reports a connection that was never
made. Over the calls of `run` and every outcome between and during them, with no call of `stop`, this
is the only way for a wrong answer: `Told` ties the semaphore to what happened since the last worker
was started.
-/
import Mathlib.Data.List.DropRight
import AnXfs.Client.Connect

namespace AnXfs.Client

open AnXfs.Run

/-! ## What happened since the last start -/

def ConnectEvent.isStarted : ConnectEvent → Bool
  | .started _ => true
  | _ => false

/-- The events after the start of the last worker. -/
def since (h : List ConnectEvent) : List ConnectEvent := h.rtakeWhile fun x => !x.isStarted

/-- A connect attempt made since the last worker was started has succeeded. -/
def SucceededSince (h : List ConnectEvent) : Prop := [.attempted, .connected].Sublist (since h)

instance (h : List ConnectEvent) : Decidable (SucceededSince h) := by unfold SucceededSince; infer_instance

theorem since_append {h : List ConnectEvent} : ∀ {e : List ConnectEvent}, (∀ x ∈ e, x.isStarted = false) →
    since (h ++ e) = since h ++ e := by
  intro e
  induction e using List.reverseRecOn with
  | nil => simp
  | append_singleton e x ih =>
    intro he
    have hx : x.isStarted = false := he x (by simp)
    unfold since at ih ⊢
    rw [← List.append_assoc, List.rtakeWhile_concat_pos _ _ _ (by simp [hx]),
      ih fun y hy => he y (List.mem_append_left _ hy), List.append_assoc]

@[simp] theorem since_started (h : List ConnectEvent) (w : Nat) : since (h ++ [.started w]) = [] := by
  unfold since
  rw [List.rtakeWhile_concat_neg _ _ _ (by simp [ConnectEvent.isStarted])]

theorem SucceededSince.append {h e : List ConnectEvent} (hs : SucceededSince h)
    (he : ∀ x ∈ e, x.isStarted = false) : SucceededSince (h ++ e) := by
  unfold SucceededSince
  rw [since_append he]
  exact hs.trans (List.sublist_append_left ..)

theorem SucceededSince.connected {h : List ConnectEvent} (ha : .attempted ∈ since h) :
    SucceededSince (h ++ [.connected]) := by
  unfold SucceededSince
  rw [since_append (by simp [ConnectEvent.isStarted])]
  exact (List.singleton_sublist.2 ha).append (List.Sublist.refl [ConnectEvent.connected])

theorem connected_of_succeeded {h : List ConnectEvent} (hs : SucceededSince h) : .connected ∈ h :=
  (List.rtakeWhile_suffix _ h).subset (hs.subset (by simp))

/-- Events among which no attempt succeeds. -/
theorem SucceededSince.of_append {h e : List ConnectEvent} (hs : SucceededSince (h ++ e))
    (he : ∀ x ∈ e, x.isStarted = false ∧ x ≠ .connected) : SucceededSince h := by
  unfold SucceededSince at hs ⊢
  rw [since_append fun x hx => (he x hx).1] at hs
  obtain ⟨l₁, l₂, heq, h₁, h₂⟩ := List.sublist_append_iff.1 hs
  have hl : l₂ = [] := by
    rcases List.eq_nil_or_concat l₂ with rfl | ⟨l, x, rfl⟩
    · rfl
    · -- the last of the two events would be among the new ones
      have hx : x = .connected := by
        have := congrArg List.getLast? heq
        simpa using this.symm
      exact absurd hx (he x (h₂.subset (by simp))).2
  rw [hl, List.append_nil] at heq
  rwa [heq]

/-! ## The machine without `stop` -/

def NotStop : ConnectInput → Prop
  | .stop _ => False
  | _ => True

instance : (i : ConnectInput) → Decidable (NotStop i)
  | .stop _ => inferInstanceAs (Decidable False)
  | .run | .caller | .callInit _ | .init .. | .onConnect .. | .onReadEnd _ | .onClose _ | .leave _ | .ends _ =>
    inferInstanceAs (Decidable True)

/-- `CanIPC` where nobody calls `stop`. -/
def neverStopped : Machine CanIPCRun ConnectInput ConnectEvent := connectMachine.restrict fun _ => NotStop

/-- `run` is not called while the worker of a call that has given up is still there. -/
def CalledUndefeated (s : CanIPCRun) : ConnectInput → Prop
  | .run => s.thread ≠ none → s.waitConnect.status ≠ 2
  | _ => True

instance (s : CanIPCRun) : (i : ConnectInput) → Decidable (CalledUndefeated s i)
  | .run => by unfold CalledUndefeated; infer_instance
  | .stop _ | .caller | .callInit _ | .init .. | .onConnect .. | .onReadEnd _ | .onClose _ | .leave _ | .ends _ =>
    inferInstanceAs (Decidable True)

/-! ## The invariant -/

/-- The worker has yet to come out of `init`. -/
def Worker.early (w : Worker) : Prop := w.pc = .started ∨ w.pc = .initialising

/-- The thread that holds the anpc mutex is in `stop`. -/
def CallerPc.InStop (c : CallerPc) : Prop := (∃ b, c = .stopping b) ∨ (∃ b, c = .closed b) ∨ c = .joining

/-- What the semaphore knows of the events since the last start. -/
structure SemaphoreTold (h : List ConnectEvent) (s : CanIPCRun) : Prop where
  verdict : SucceededSince h ↔ s.waitConnect.status = 1
  range : s.waitConnect.status = 0 ∨ s.waitConnect.status = 1 ∨ s.waitConnect.status = 2
  limit : anReconnectCount ≤ s.waitConnect.count → s.waitConnect.status ≠ 0

/-- What keeps a callback of an earlier connection from the semaphore: a worker that connects is alone with it,
and what is left of a connection when `m_thread` has let go of its worker is nothing. -/
structure LoopTold (h : List ConnectEvent) (s : CanIPCRun) : Prop where
  attempt : s.attempt = true → .attempted ∈ since h ∧ s.waitConnect.status ≠ 1 ∧ ∀ w, ¬ (s.workers w).early
  early : ∀ w, (s.workers w).early → s.attempt = false ∧ s.waitConnect.status ≠ 1 ∧ s.thread ≠ none
  one : ∀ v w, (s.workers v).early → (s.workers w).early → v = w
  reading : s.reading = true → s.waitConnect.status = 1 ∧ s.closing = none
  closing : s.closing = some true → s.closed = false → s.waitConnect.status = 1
  letGo : s.thread = none → s.attempt = false ∧ s.reading = false ∧ (s.closing = some true → s.closed = true)

/-- Where the caller of `run` stands, and what it can have found. -/
structure CallerTold (s : CanIPCRun) : Prop where
  running : ¬ s.caller.InStop
  decided : s.caller = .idle ∨ s.caller = .waited → s.thread ≠ none → s.waitConnect.status ≠ 0
  detached : s.caller ≠ .idle → s.thread = none → s.waitConnect.status = 1

structure Told (h : List ConnectEvent) (s : CanIPCRun) : Prop where
  semaphore : SemaphoreTold h s
  loop : LoopTold h s
  caller : CallerTold s

section Steps

variable {h e : List ConnectEvent} {s t : CanIPCRun}

theorem SemaphoreTold.frame (hs : SemaphoreTold h s) (he : ∀ x ∈ e, x.isStarted = false ∧ x ≠ .connected)
    (hsem : t.waitConnect = s.waitConnect) : SemaphoreTold (h ++ e) t := by
  refine ⟨?_, ?_, ?_⟩
  · rw [hsem, ← hs.verdict]
    exact ⟨fun hc => hc.of_append he, fun hc => hc.append fun x hx => (he x hx).1⟩
  · rw [hsem]
    exact hs.range
  · rw [hsem]
    exact hs.limit

/-- A step that asks nothing of libuv. -/
theorem LoopTold.frame (hs : LoopTold h s) (he : ∀ x ∈ e, x.isStarted = false)
    (hsem : t.waitConnect = s.waitConnect) (hattempt : t.attempt = s.attempt) (hreading : t.reading = s.reading)
    (hclosing : t.closing = s.closing) (hclosed : s.closed = true → t.closed = true) (hthread : t.thread = s.thread)
    (hearly : ∀ w, (t.workers w).early → (s.workers w).early) : LoopTold (h ++ e) t := by
  refine ⟨?_, ?_, ?_, ?_, ?_, ?_⟩
  · rw [hattempt, hsem, since_append he]
    intro ha
    obtain ⟨hm, hst, hw⟩ := hs.attempt ha
    exact ⟨List.mem_append_left _ hm, hst, fun w hew => hw w (hearly w hew)⟩
  · rw [hattempt, hsem, hthread]
    exact fun w hw => hs.early w (hearly w hw)
  · exact fun v w hv hw => hs.one v w (hearly v hv) (hearly w hw)
  · rw [hreading, hsem, hclosing]
    exact hs.reading
  · rw [hclosing, hsem]
    intro hc hcl
    refine hs.closing hc ?_
    by_contra hne
    simp [hclosed (by simpa using hne)] at hcl
  · rw [hthread, hattempt, hreading, hclosing]
    intro ht
    obtain ⟨ha, hr, hc⟩ := hs.letGo ht
    exact ⟨ha, hr, fun hct => hclosed (hc hct)⟩

/-- A worker that is not early before its step is not after it, unless it has called `init`. -/
theorem early_setPc {w : Nat} {pc : WorkerPc} (hpc : pc = .started ∨ pc = .initialising → (s.workers w).early) (v : Nat)
    (hv : ((s.setPc w pc).workers v).early) : (s.workers v).early := by
  unfold Worker.early at hv
  rw [CanIPCRun.setPc_pc] at hv
  by_cases hvw : v = w
  · rw [if_pos hvw] at hv
    rw [hvw]
    exact hpc hv
  · rwa [if_neg hvw] at hv

theorem early_detach {w : Nat} (v : Nat) (hv : ((s.detach w).workers v).early) : (s.workers v).early := by
  unfold Worker.early at hv ⊢
  rwa [CanIPCRun.detach_pc] at hv

theorem CallerTold.frame (hs : CallerTold s) (hsem : t.waitConnect = s.waitConnect) (hthread : t.thread = s.thread)
    (hcaller : t.caller = s.caller) : CallerTold t := by
  refine ⟨?_, ?_, ?_⟩
  · rw [hcaller]
    exact hs.running
  · rw [hcaller, hthread, hsem]
    exact hs.decided
  · rw [hcaller, hthread, hsem]
    exact hs.detached

/-- A step of a worker that has no part in the handshake. -/
theorem Told.frame (hs : Told h s) (he : ∀ x ∈ e, x.isStarted = false ∧ x ≠ .connected)
    (hsem : t.waitConnect = s.waitConnect) (hattempt : t.attempt = s.attempt) (hreading : t.reading = s.reading)
    (hclosing : t.closing = s.closing) (hclosed : s.closed = true → t.closed = true) (hthread : t.thread = s.thread)
    (hearly : ∀ w, (t.workers w).early → (s.workers w).early) (hcaller : t.caller = s.caller) : Told (h ++ e) t :=
  ⟨hs.semaphore.frame he hsem,
    hs.loop.frame (fun x hx => (he x hx).1) hsem hattempt hreading hclosing hclosed hthread hearly,
    hs.caller.frame hsem hthread hcaller⟩

/-- The caller of `run` goes on. -/
theorem Told.goesOn (hs : Told h s) {c : CallerPc} (he : ∀ x ∈ e, x.isStarted = false ∧ x ≠ .connected)
    (hrun : ¬ c.InStop) (hdecided : c = .idle ∨ c = .waited → s.thread ≠ none → s.waitConnect.status ≠ 0)
    (hidle : s.caller ≠ .idle) : Told (h ++ e) { s with caller := c } :=
  ⟨hs.semaphore.frame he rfl, hs.loop.frame (fun x hx => (he x hx).1) rfl rfl rfl rfl id rfl fun _ => id,
    hrun, hdecided, fun _ => hs.caller.detached hidle⟩

theorem status_signalOnce_cases (s : AnWaitconnectSemaphore) :
    s.signalOnce.status = 2 ∨ s.signalOnce.status = s.status := by
  unfold AnWaitconnectSemaphore.signalOnce
  split
  · exact .inl rfl
  · exact .inr rfl

theorem status_signalOnce_ne {s : AnWaitconnectSemaphore} (h : s.status ≠ 1) : s.signalOnce.status ≠ 1 := by
  have := status_signalOnce_cases s
  omega

theorem signalOnce_limit (s : AnWaitconnectSemaphore) (h : anReconnectCount ≤ s.signalOnce.count) :
    s.signalOnce.status ≠ 0 := by
  unfold AnWaitconnectSemaphore.signalOnce at h ⊢
  split
  · exact (by decide : (2 : Int) ≠ 0)
  · rename_i hlt
    rw [if_neg hlt] at h
    exact absurd h hlt

/-- What `on_connect` reports of an attempt that has failed, if it makes another one. -/
theorem failedAttempt_quiet (s : CanIPCRun) (spawn : Int) : ∀ x ∈
    ConnectEvent.failed :: (if s.waitConnect.count = 0 then [.spawned spawn] else []) ++ [.attempted],
      x.isStarted = false ∧ x ≠ .connected := by
  intro x hx
  split at hx
  · simp only [List.mem_append, List.mem_cons, List.not_mem_nil, or_false] at hx
    rcases hx with (rfl | rfl) | rfl <;> simp [ConnectEvent.isStarted]
  · simp only [List.mem_append, List.mem_cons, List.not_mem_nil, or_false] at hx
    rcases hx with rfl | rfl <;> simp [ConnectEvent.isStarted]

/-! ## The steps -/

/-- `run` starts a worker when it has none. -/
theorem told_started (hs : Told h s) (ht : s.thread = none) : Told (h ++ [.started s.started])
    { s with
      caller := .started
      waitConnect := .reset
      thread := some s.started
      workers := Function.update s.workers s.started ⟨.started, false⟩
      started := s.started + 1 } := by
  obtain ⟨ha, hr, hc⟩ := hs.loop.letGo ht
  have honly : ∀ v, (Function.update s.workers s.started ⟨.started, false⟩ v).early → v = s.started := by
    intro v hv
    by_contra hne
    rw [Function.update_of_ne hne] at hv
    exact (hs.loop.early v hv).2.2 ht
  refine ⟨⟨?_, .inl rfl, ?_⟩, ⟨?_, ?_, ?_, ?_, ?_, ?_⟩, ⟨?_, ?_, ?_⟩⟩
  · simp [SucceededSince, AnWaitconnectSemaphore.reset]
  · simp [AnWaitconnectSemaphore.reset, anReconnectCount]
  · intro hat
    simp [ha] at hat
  · intro w hw
    simp [ha, AnWaitconnectSemaphore.reset]
  · intro v w hv hw
    rw [honly v hv, honly w hw]
  · intro hrd
    simp [hr] at hrd
  · intro hcl hcd
    simp [hc hcl] at hcd
  · simp
  · simp [CallerPc.InStop]
  · simp
  · simp

/-- `init` succeeds, and the worker connects. -/
theorem told_connects (hs : Told h s) {w : Nat} (hpc : (s.workers w).pc = .initialising) : Told (h ++ [.attempted])
    { s.setPc w .running with
      stopFlag := false
      attempt := true
      reading := false
      closing := none
      closed := false } := by
  obtain ⟨-, hst, ht⟩ := hs.loop.early w (.inr hpc)
  -- the only worker that was early runs now
  have hlate : ∀ v, ¬ ((s.setPc w .running).workers v).early := by
    intro v hv
    have hvw := hs.loop.one v w (early_setPc (by simp) v hv) (.inr hpc)
    rw [hvw] at hv
    simp [Worker.early] at hv
  refine ⟨hs.semaphore.frame (by simp [ConnectEvent.isStarted]) rfl, ⟨?_, ?_, ?_, ?_, ?_, ?_⟩,
    hs.caller.frame rfl rfl rfl⟩
  · intro _
    rw [since_append (by simp [ConnectEvent.isStarted])]
    exact ⟨by simp, hst, hlate⟩
  · exact fun v hv => absurd hv (hlate v)
  · exact fun v _ hv _ => absurd hv (hlate v)
  · simp
  · simp
  · exact fun htn => absurd htn ht

/-- `on_connect` makes another attempt. -/
theorem told_reconnects (hs : Told h s) (spawn : Int) (ha : s.attempt = true) :
    Told (h ++ (.failed :: (if s.waitConnect.count = 0 then [.spawned spawn] else []) ++ [.attempted]))
      { s with attempt := true, waitConnect := s.waitConnect.signalOnce } := by
  obtain ⟨hm, hst, hw⟩ := hs.loop.attempt ha
  have hquiet := failedAttempt_quiet s spawn
  have hno : ¬ SucceededSince h := mt hs.semaphore.verdict.1 hst
  have hrange := status_signalOnce_cases s.waitConnect
  refine ⟨⟨?_, ?_, signalOnce_limit s.waitConnect⟩, ⟨?_, ?_, hs.loop.one, ?_, ?_, ?_⟩, ⟨hs.caller.running, ?_, ?_⟩⟩
  · exact ⟨fun hc => absurd (hc.of_append hquiet) hno, fun hc => absurd hc (status_signalOnce_ne hst)⟩
  · rcases hrange with hr | hr
    · exact .inr (.inr hr)
    · show s.waitConnect.signalOnce.status = 0 ∨ _
      rw [hr]
      exact hs.semaphore.range
  · intro _
    rw [since_append fun x hx => (hquiet x hx).1]
    exact ⟨List.mem_append_left _ hm, status_signalOnce_ne hst, hw⟩
  · exact fun v hv => absurd hv (hw v)
  · exact fun hr => absurd (hs.loop.reading hr).1 hst
  · exact fun hcl hcd => absurd (hs.loop.closing hcl hcd) hst
  · exact fun ht => absurd ha (by simp [(hs.loop.letGo ht).1])
  · intro hc ht
    have := hs.caller.decided hc ht
    show s.waitConnect.signalOnce.status ≠ 0
    omega
  · exact fun hc ht => absurd (hs.caller.detached hc ht) hst

/-- `on_connect` has a connection. -/
theorem told_connected (hs : Told h s) (readStart : Int) (ha : s.attempt = true) : Told (h ++ [.connected])
    { s with
      attempt := false
      reading := decide (readStart = 0) && s.closing.isNone
      waitConnect := .signal } := by
  obtain ⟨hm, hst, hw⟩ := hs.loop.attempt ha
  refine ⟨⟨?_, .inr (.inl rfl), ?_⟩, ⟨?_, ?_, hs.loop.one, ?_, ?_, ?_⟩, ⟨hs.caller.running, ?_, ?_⟩⟩
  · exact ⟨fun _ => rfl, fun _ => SucceededSince.connected hm⟩
  · simp [AnWaitconnectSemaphore.signal]
  · simp
  · exact fun v hv => absurd hv (hw v)
  · intro hr
    simp only [Bool.and_eq_true, Option.isNone_iff_eq_none] at hr
    exact ⟨rfl, hr.2⟩
  · exact fun _ _ => rfl
  · exact fun ht => absurd ha (by simp [(hs.loop.letGo ht).1])
  · simp [AnWaitconnectSemaphore.signal]
  · exact fun _ _ => rfl

/-- `on_close` of a connection that was made lets go of its worker. -/
theorem told_closedDetaches (hs : Told h s) (v : Nat) (hc : s.closing = some true) (hcl : s.closed = false)
    (ha : s.attempt = false) : Told (h ++ []) { s.detach v with closed := true } := by
  -- the connection that is closed was made, and nothing of it is left
  have hst := hs.loop.closing hc hcl
  have hlate : ∀ u, ¬ ((s.detach v).workers u).early := fun u hu =>
    absurd hst (hs.loop.early u (early_detach u hu)).2.1
  refine ⟨hs.semaphore.frame (by simp) rfl, ⟨?_, ?_, ?_, hs.loop.reading, ?_, ?_⟩,
    ⟨hs.caller.running, ?_, fun _ _ => hst⟩⟩
  · intro hat
    exact absurd hat (by simp [CanIPCRun.detach, ha])
  · exact fun u hu => absurd hu (hlate u)
  · exact fun u _ hu _ => absurd hu (hlate u)
  · simp
  · refine fun _ => ⟨ha, ?_, fun _ => rfl⟩
    by_contra hr
    have := (hs.loop.reading (by simpa [CanIPCRun.detach] using hr)).2
    simp [hc] at this
  · simp [CanIPCRun.detach]

theorem told_step {i : ConnectInput} (hs : Told h s)
    (hstep : neverStopped.step s i = some (t, e)) : Told (h ++ e) t := by
  obtain ⟨hn, hstep⟩ := Machine.restrict_step.1 hstep
  obtain ⟨-, hm⟩ := CanIPCRun.connect_moved hstep
  cases hm with
  | joinable hi ht => exact hs.frame (by simp [ConnectEvent.isStarted]) rfl rfl rfl rfl id rfl (fun _ => id) rfl
  | started hi ht => exact told_started hs ht
  | stopsNothing | stops => exact hn.elim
  | waits hc ht =>
    exact hs.goesOn (by simp) (by simp [CallerPc.InStop]) (by simp) (by simp [hc])
  | detachedEarly hc ht =>
    exact hs.goesOn (by simp [ConnectEvent.isStarted]) (by simp [CallerPc.InStop]) (fun _ h => absurd ht h)
      (by simp [hc])
  | blocks hc _ _ => exact hs.goesOn (by simp) (by simp [CallerPc.InStop]) (by simp) (by simp [hc])
  | passes hc hw =>
    refine hs.goesOn (by simp [ConnectEvent.isStarted]) (by simp [CallerPc.InStop]) (fun _ _ => ?_) (by simp [hc])
    rcases hw with hw | hw
    · exact hs.semaphore.limit hw
    · omega
  | wakes hc hw =>
    exact hs.goesOn (by simp [ConnectEvent.isStarted]) (by simp [CallerPc.InStop]) (fun _ _ => by omega) (by simp [hc])
  | returns hc =>
    refine hs.goesOn (by simp [ConnectEvent.isStarted]) (by simp [CallerPc.InStop]) (fun _ ht => ?_) (by simp [hc])
    exact hs.caller.decided (.inr hc) ht
  | closes b hc | closesNothing b hc => exact absurd (.inl ⟨b, hc⟩) hs.caller.running
  | stopThrows b hc => exact absurd (.inr (.inl ⟨b, hc⟩)) hs.caller.running
  | detaches w hc | joins w hc => exact absurd (.inr (.inl ⟨_, hc⟩)) hs.caller.running
  | joined w hc => exact absurd (.inr (.inr hc)) hs.caller.running
  | initialises w hpc | reinitialises w v hpc =>
    exact hs.frame (by simp [ConnectEvent.isStarted]) rfl rfl rfl rfl id rfl
      (early_setPc fun _ => .inl hpc) rfl
  | loopInitFails w _ _ hpc | pipeInitFails w _ hpc | leaves w hpc | returned w hpc =>
    exact hs.frame (by simp [ConnectEvent.isStarted]) rfl rfl rfl rfl id rfl (early_setPc (by simp)) rfl
  | connects w hpc => exact told_connects hs hpc
  | spawnFails w _ _ _ hpc ha _ _ _ =>
    obtain ⟨hm, hst, hw⟩ := hs.loop.attempt ha
    refine ⟨hs.semaphore.frame (by simp [ConnectEvent.isStarted]) rfl,
      ⟨by simp, fun v hv => absurd hv (hw v), hs.loop.one, hs.loop.reading, hs.loop.closing, fun ht => ?_⟩,
      hs.caller.frame rfl rfl rfl⟩
    exact ⟨rfl, (hs.loop.letGo ht).2⟩
  | reconnects w _ spawn _ hpc ha _ _ => exact told_reconnects hs spawn ha
  | connected w _ readStart hpc ha => exact told_connected hs readStart ha
  | disconnected w hpc hr hc =>
    have hst := (hs.loop.reading hr).1
    refine ⟨hs.semaphore.frame (by simp) rfl, ⟨?_, hs.loop.early, hs.loop.one, ?_, fun _ _ => hst, ?_⟩,
      hs.caller.frame rfl rfl rfl⟩
    · exact fun ha => absurd hst (hs.loop.attempt ha).2.1
    · simp
    · exact fun ht => absurd hr (by simp [(hs.loop.letGo ht).2.1])
  | disconnectedAgain w hpc hr hc => exact absurd (hs.loop.reading hr).2 hc
  | closed w hpc hc hcl ha => exact hs.frame (by simp) rfl rfl rfl rfl (fun _ => rfl) rfl (fun _ => id) rfl
  | closedDetaches w v hpc hc hcl ha ht hj => exact told_closedDetaches hs v hc hcl ha
  | closedThrows w f hpc hc hcl ha hthrows _ =>
    exact hs.frame (by simp) rfl rfl rfl rfl (fun _ => rfl) rfl (fun _ => id) rfl

end Steps

theorem told_new : Told [] .new := by
  refine ⟨⟨?_, .inl rfl, by simp [CanIPCRun.new, anReconnectCount]⟩, ⟨?_, ?_, ?_, ?_, ?_, ?_⟩, ⟨?_, ?_, ?_⟩⟩
  · simp [SucceededSince, since, CanIPCRun.new]
  · simp [CanIPCRun.new]
  · simp [CanIPCRun.new, Worker.early]
  · simp [CanIPCRun.new, Worker.early]
  · simp [CanIPCRun.new]
  · simp [CanIPCRun.new]
  · simp [CanIPCRun.new]
  · simp [CanIPCRun.new, CallerPc.InStop]
  · simp [CanIPCRun.new]
  · simp [CanIPCRun.new]

/-! ## The answers -/

/-- A call of `run` that returns 0 has a connection to report. -/
def Truthful (h : List ConnectEvent) (_ : CanIPCRun) (_ : ConnectInput) (_ : CanIPCRun)
    (e : List ConnectEvent) : Prop :=
  .ran 0 ∈ e → SucceededSince h

theorem truthful_iff {h e : List ConnectEvent} {s t : CanIPCRun} {i : ConnectInput} (hs : Told h s)
    (hstep : neverStopped.step s i = some (t, e)) : Truthful h s i t e ↔ CalledUndefeated s i := by
  obtain ⟨hn, hstep⟩ := Machine.restrict_step.1 hstep
  obtain ⟨-, hm⟩ := CanIPCRun.connect_moved hstep
  unfold Truthful
  rw [hs.semaphore.verdict]
  cases hm with
  | joinable hi ht =>
    have := hs.caller.decided (.inl hi) ht
    have := hs.semaphore.range
    simp only [List.mem_singleton, true_imp_iff, CalledUndefeated]
    constructor
    · intro h1 _
      omega
    · intro h2
      have := h2 ht
      omega
  | started hi ht => simp [CalledUndefeated, ht]
  | stopsNothing | stops => exact hn.elim
  | detachedEarly hc ht => simpa [CalledUndefeated] using hs.caller.detached (by simp [hc]) ht
  | returns hc =>
    by_cases h1 : s.waitConnect.status = 1 <;> simp [CalledUndefeated, h1]
  | reconnects w _ _ _ hpc ha _ _ => by_cases h0 : s.waitConnect.count = 0 <;> simp [CalledUndefeated, h0]
  | _ => simp [CalledUndefeated]

/-- In every run without `stop`: each call of `run` that returns 0 does so after a connect attempt made since the
current worker was started has succeeded, if and only if `run` is never called while the worker of a call that has
given up is still there. -/
theorem truthful_iff_calledUndefeated {is : List ConnectInput} {s : CanIPCRun} {es : List ConnectEvent}
    (hr : neverStopped.run .new is = some (s, es)) :
    neverStopped.AtEach (fun h s i t e _ => Truthful h s i t e) .new is ↔
      neverStopped.Meets CalledUndefeated .new is :=
  Machine.atEach_iff_meets (I := Told) (fun _ _ _ _ _ hs hstep => truthful_iff hs hstep)
    (fun _ _ _ _ _ hs _ hstep => told_step hs hstep) told_new hr

/-- The first attempt fails and the second one succeeds; then `run` is called once more. -/
def lateSuccess : List ConnectInput :=
  [.run, .caller, .callInit 0, .init 0 0 0, .caller, .onConnect 0 (-2) 0 0, .onConnect 0 0 0 0, .caller, .caller, .run]

theorem lateSuccess_truthful : ∃ s es, neverStopped.run .new lateSuccess = some (s, es) ∧ .ran 0 ∈ es ∧
    neverStopped.AtEach (fun h s i t e _ => Truthful h s i t e) .new lateSuccess := by
  obtain ⟨s, es, hr, hran⟩ : ∃ s es, neverStopped.run .new lateSuccess = some (s, es) ∧ .ran 0 ∈ es :=
    Machine.run_any (by decide +kernel)
  exact ⟨s, es, hr, hran, (truthful_iff_calledUndefeated hr).2 (by decide +kernel)⟩

/-- Every attempt of the first call fails, and it gives up. -/
def defeated : List ConnectInput :=
  [.run, .caller, .callInit 0, .init 0 0 0, .caller] ++ List.replicate 1000 (.onConnect 0 (-2) 0 0) ++
    [.caller, .caller]

/-- The next call returns 0, and no attempt has succeeded. -/
theorem defeated_then_success : (∃ s es, neverStopped.run .new (defeated ++ [.run]) = some (s, es) ∧ .ran 1 ∈ es) ∧
    ¬ neverStopped.AtEach (fun h s i t e _ => Truthful h s i t e) .new (defeated ++ [.run]) := by
  refine ⟨Machine.run_any (by decide +kernel), ?_⟩
  refine Machine.not_atEach (fun h _ _ e _ => decide (.ran 0 ∈ e ∧ ¬ .connected ∈ h)) ?_ (by decide +kernel)
  intro h _ _ e _ hb ht
  obtain ⟨he, hc⟩ := of_decide_eq_true hb
  exact hc (connected_of_succeeded (ht he))

end AnXfs.Client
