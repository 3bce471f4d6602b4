/-
What the handshake decides. Within one `run` the semaphore's `count` is the number of attempts that
have failed, and `on_connect` takes 0 for the first one: it spawns the server then, and `status`
becomes 2 with the thousandth. But nothing ends the attempts there. `on_connect` has called `connect`
before it signals, so that the limit always comes one attempt late, and the loop goes on when the
caller has given up; after 2^32 failures `count` is 0 once more, and the server is spawned again.
-/
import AnXfs.Client.Report

namespace AnXfs.Client

open AnXfs.Run

/-! ## Within one run -/

/-- Nobody calls `stop`, and `run` is not called where it would start another worker. -/
def WithinRun (s : CanIPCRun) : ConnectInput → Prop
  | .run => s.thread ≠ none
  | .stop _ => False
  | _ => True

instance (s : CanIPCRun) : (i : ConnectInput) → Decidable (WithinRun s i)
  | .run => by unfold WithinRun; infer_instance
  | .stop _ => inferInstanceAs (Decidable False)
  | .caller | .callInit _ | .init .. | .onConnect .. | .onReadEnd _ | .onClose _ | .leave _ | .ends _ =>
    inferInstanceAs (Decidable True)

/-- `CanIPC` from one start of a worker to the next. -/
def withinRun : Machine CanIPCRun ConnectInput ConnectEvent := connectMachine.restrict WithinRun

theorem withinRun_step {s t : CanIPCRun} {i : ConnectInput} {e : List ConnectEvent}
    (hstep : withinRun.step s i = some (t, e)) : neverStopped.step s i = some (t, e) := by
  obtain ⟨hw, hstep⟩ := Machine.restrict_step.1 hstep
  refine Machine.restrict_step.2 ⟨?_, hstep⟩
  cases i with
  | stop bforce => exact hw.elim
  | _ => trivial

/-- The outcome of a connect attempt that has failed. -/
def ConnectInput.fails : ConnectInput → Bool
  | .onConnect _ status _ _ => status ≠ 0
  | _ => false

def failures (is : List ConnectInput) : Nat := is.countP ConnectInput.fails

def ConnectEvent.isSpawned : ConnectEvent → Bool
  | .spawned _ => true
  | _ => false

/-! ## The semaphore counts -/

/-- The semaphore after `k` signals of a failed attempt. -/
structure Counts (k : Nat) (c : AnWaitconnectSemaphore) : Prop where
  dvd : (4294967296 : Int) ∣ k - c.count
  lower : -2147483648 ≤ c.count
  upper : c.count ≤ 2147483647
  status : c.status = if 1000 ≤ k then 2 else 0

theorem counts_reset : Counts 0 .reset := ⟨by decide, by decide, by decide, rfl⟩

theorem Counts.signalOnce {k : Nat} {c : AnWaitconnectSemaphore} (hc : Counts k c) : Counts (k + 1) c.signalOnce := by
  obtain ⟨hd, hl, hu, hst⟩ := hc
  have hcount : c.signalOnce.count = incr c.count := by
    unfold AnWaitconnectSemaphore.signalOnce
    split <;> rfl
  have hstatus : c.signalOnce.status = if incr c.count ≥ anReconnectCount then 2 else c.status := by
    unfold AnWaitconnectSemaphore.signalOnce
    split <;> rfl
  unfold incr at hcount hstatus
  refine ⟨?_, ?_, ?_, ?_⟩
  · rw [hcount]
    split <;> omega
  · rw [hcount]
    split <;> omega
  · rw [hcount]
    split <;> omega
  · rw [hstatus, hst]
    unfold anReconnectCount
    split <;> split <;> split <;> omega

/-- The counter stands at 0 when the number of signals is a multiple of 2^32. -/
theorem Counts.count_eq_zero {k : Nat} {c : AnWaitconnectSemaphore} (hc : Counts k c) :
    c.count = 0 ↔ 4294967296 ∣ k := by
  obtain ⟨hd, hl, hu, -⟩ := hc
  omega

/-! ## The invariant -/

/-- How far connecting has come. -/
inductive Stage (h : List ConnectEvent) (s : CanIPCRun) : Prop
  | before : s.attempt = false → h.count .attempted = 0 → h.count .failed = 0 → .connected ∉ h →
      s.waitConnect = .reset → Stage h s
  | trying : s.attempt = true → h.count .attempted = h.count .failed + 1 → .connected ∉ h →
      Counts (h.count .failed) s.waitConnect → Stage h s
  | refused (k : Nat) : s.attempt = false → h.count .attempted = k + 1 → h.count .failed = k + 1 → .connected ∉ h →
      4294967296 ∣ k → Counts k s.waitConnect → Stage h s
  | connected : s.attempt = false → h.count .attempted = h.count .failed + 1 → .connected ∈ h →
      s.waitConnect = .signal → Stage h s

/-- `uv_spawn` has been called for every 2^32nd attempt that has failed, from the first one on. -/
structure Launched (h : List ConnectEvent) : Prop where
  spawns : h.countP ConnectEvent.isSpawned = (h.count .failed + 4294967295) / 4294967296
  first : EachAfter (fun pre x => x.isSpawned = true → pre.count .failed % 4294967296 = 1) h

/-- What the semaphore and the events of one `run` have to do with each other. -/
structure Counted (h : List ConnectEvent) (s : CanIPCRun) : Prop where
  stage : Stage h s
  launched : Launched h
  early : ∀ w, (s.workers w).early → .attempted ∉ h
  waited : .waited 0 ∉ h

/-- The event has no part in connecting. -/
def ConnectEvent.aside (x : ConnectEvent) : Prop :=
  x ≠ .attempted ∧ x ≠ .failed ∧ x ≠ .connected ∧ x.isSpawned = false ∧ x ≠ .waited 0

section Steps

variable {h e : List ConnectEvent} {s t : CanIPCRun}

theorem count_aside {x : ConnectEvent} (he : ∀ y ∈ e, y ≠ x) : (h ++ e).count x = h.count x := by
  rw [List.count_append, List.count_eq_zero.2 fun hx => he x hx rfl]
  omega

theorem not_mem_aside {x : ConnectEvent} (he : ∀ y ∈ e, y ≠ x) : x ∈ h ++ e ↔ x ∈ h := by
  rw [List.mem_append]
  exact or_iff_left fun hx => he x hx rfl

theorem Stage.frame (hs : Stage h s) (he : ∀ x ∈ e, x.aside) (hattempt : t.attempt = s.attempt)
    (hsem : t.waitConnect = s.waitConnect) : Stage (h ++ e) t := by
  have ha := count_aside (h := h) fun y hy => (he y hy).1
  have hf := count_aside (h := h) fun y hy => (he y hy).2.1
  have hc := not_mem_aside (h := h) fun y hy => (he y hy).2.2.1
  cases hs with
  | before h1 h2 h3 h4 h5 => exact .before (by rw [hattempt, h1]) (by omega) (by omega) (by rwa [hc]) (by rw [hsem, h5])
  | trying h1 h2 h3 h4 =>
    refine .trying (by rw [hattempt, h1]) (by omega) (by rwa [hc]) ?_
    rwa [hf, hsem]
  | refused k h1 h2 h3 h4 h5 h6 =>
    refine .refused k (by rw [hattempt, h1]) (by omega) (by omega) (by rwa [hc]) h5 ?_
    rwa [hsem]
  | connected h1 h2 h3 h4 => exact .connected (by rw [hattempt, h1]) (by omega) (by rwa [hc]) (by rw [hsem, h4])

theorem Launched.append (hl : Launched h) (he : ∀ x ∈ e, x ≠ .failed ∧ x.isSpawned = false) : Launched (h ++ e) := by
  constructor
  · have hnone : e.countP ConnectEvent.isSpawned = 0 := by
      rw [List.countP_eq_zero]
      exact fun y hy => by simp [(he y hy).2]
    rw [List.countP_append, hnone, count_aside fun y hy => (he y hy).1, ← hl.spawns, Nat.add_zero]
  · refine hl.first.append fun pre x post heq hx => ?_
    have := (he x (by rw [heq]; simp)).2
    simp [this] at hx

/-- An attempt has failed, and the counter does not stand at 0. -/
theorem Launched.failed (hl : Launched h) (hk : ¬ 4294967296 ∣ h.count .failed) : Launched (h ++ [.failed]) := by
  constructor
  · have hs := hl.spawns
    simp only [List.countP_append, List.count_append, List.count_singleton_self, List.countP_singleton,
      ConnectEvent.isSpawned]
    simp only [Bool.false_eq_true, if_false]
    omega
  · exact hl.first.concat (by simp [ConnectEvent.isSpawned])

/-- An attempt has failed, and the counter stands at 0. -/
theorem Launched.spawned (hl : Launched h) (hk : 4294967296 ∣ h.count .failed) (r : Int) :
    Launched (h ++ [.failed, .spawned r]) := by
  constructor
  · have hs := hl.spawns
    simp only [List.countP_append, List.count_append, List.countP_cons, List.countP_nil, List.count_cons,
      List.count_nil, ConnectEvent.isSpawned]
    simp
    omega
  · rw [show h ++ [.failed, .spawned r] = h ++ [.failed] ++ [.spawned r] by simp]
    refine (hl.first.concat (by simp [ConnectEvent.isSpawned])).concat fun _ => ?_
    rw [List.count_append, List.count_singleton_self]
    omega

/-- A step that has no part in connecting. -/
theorem Counted.frame (hs : Counted h s) (he : ∀ x ∈ e, x.aside) (hattempt : t.attempt = s.attempt)
    (hsem : t.waitConnect = s.waitConnect) (hearly : ∀ w, (t.workers w).early → (s.workers w).early) :
    Counted (h ++ e) t := by
  refine ⟨hs.stage.frame he hattempt hsem, ?_, ?_, ?_⟩
  · exact hs.launched.append fun x hx => ⟨(he x hx).2.1, (he x hx).2.2.2.1⟩
  · intro w hw
    rw [not_mem_aside fun y hy => (he y hy).1]
    exact hs.early w (hearly w hw)
  · rw [not_mem_aside fun y hy => (he y hy).2.2.2.2]
    exact hs.waited

theorem Counted.trying (hs : Counted h s) (ha : s.attempt = true) :
    h.count .attempted = h.count .failed + 1 ∧ .connected ∉ h ∧ Counts (h.count .failed) s.waitConnect := by
  cases hs.stage with
  | trying _ h2 h3 h4 => exact ⟨h2, h3, h4⟩
  | before h1 | refused _ h1 | connected h1 => simp [ha] at h1

/-- `uv_spawn` is called, with whatever it returns. -/
theorem Counted.launch (hs : Counted h s) (ha : s.attempt = true) (spawn : Int) :
    Launched (h ++ .failed :: if s.waitConnect.count = 0 then [.spawned spawn] else []) := by
  obtain ⟨-, -, hc⟩ := hs.trying ha
  split
  · rename_i h0
    exact hs.launched.spawned (hc.count_eq_zero.1 h0) spawn
  · rename_i h0
    exact hs.launched.failed (mt hc.count_eq_zero.2 h0)

/-- The semaphore has counted failures, or an attempt has succeeded. -/
theorem Counted.semaphore (hs : Counted h s) :
    (∃ k, Counts k s.waitConnect) ∨ .connected ∈ h ∧ s.waitConnect = .signal := by
  cases hs.stage with
  | before _ _ _ _ h5 => exact .inl ⟨0, by rw [h5]; exact counts_reset⟩
  | trying _ _ _ h4 => exact .inl ⟨_, h4⟩
  | refused k _ _ _ _ _ h6 => exact .inl ⟨k, h6⟩
  | connected _ _ h3 h4 => exact .inr ⟨h3, h4⟩

/-- The semaphore of a caller that passes `wait` has decided. -/
theorem Counted.decided (hs : Counted h s)
    (hw : anReconnectCount ≤ s.waitConnect.count ∨ 0 < s.waitConnect.status) : s.waitConnect.status ≠ 0 := by
  rcases hs.semaphore with ⟨k, hd, hl, hu, hst⟩ | ⟨-, hsignal⟩
  · unfold anReconnectCount at hw
    split at hst <;> omega
  · simp [hsignal, AnWaitconnectSemaphore.signal]

/-- What `on_connect` has reported of an attempt that has failed, if it makes another one. -/
theorem count_reconnected (s : CanIPCRun) (spawn : Int) :
    let e := .failed :: (if s.waitConnect.count = 0 then [.spawned spawn] else []) ++ [.attempted]
    (h ++ e).count .attempted = h.count .attempted + 1 ∧ (h ++ e).count .failed = h.count .failed + 1 ∧
      (.connected ∈ h ++ e ↔ .connected ∈ h) ∧ (.waited 0 ∈ h ++ e ↔ .waited 0 ∈ h) := by
  by_cases h0 : s.waitConnect.count = 0 <;> simp [h0]

theorem counted_step {h' : List ConnectEvent} {i : ConnectInput} (ht : Told h' s) (hs : Counted h s)
    (hstep : withinRun.step s i = some (t, e)) : Counted (h ++ e) t := by
  obtain ⟨hn, hstep⟩ := Machine.restrict_step.1 hstep
  obtain ⟨-, hm⟩ := CanIPCRun.connect_moved hstep
  cases hm with
  | joinable => exact hs.frame (by simp [ConnectEvent.aside, ConnectEvent.isSpawned]) rfl rfl fun _ => id
  | started _ hth => exact absurd hth hn
  | stopsNothing | stops => exact hn.elim
  | waits | detachedEarly | blocks | returns | closes | closesNothing | stopThrows | joins | joined | disconnected
  | disconnectedAgain | closed | closedThrows =>
    exact hs.frame (by simp [ConnectEvent.aside, ConnectEvent.isSpawned]) rfl rfl fun _ => id
  | passes hc hw =>
    have := hs.decided hw
    exact hs.frame (by simp [ConnectEvent.aside, ConnectEvent.isSpawned, this]) rfl rfl fun _ => id
  | wakes hc hw =>
    have := hs.decided (.inr hw)
    exact hs.frame (by simp [ConnectEvent.aside, ConnectEvent.isSpawned, this]) rfl rfl fun _ => id
  | detaches w | closedDetaches _ w =>
    exact hs.frame (by simp [ConnectEvent.aside, ConnectEvent.isSpawned]) rfl rfl fun v => early_detach v
  | initialises w hpc | reinitialises w _ hpc =>
    exact hs.frame (by simp [ConnectEvent.aside, ConnectEvent.isSpawned]) rfl rfl (early_setPc fun _ => .inl hpc)
  | loopInitFails | pipeInitFails | leaves | returned =>
    exact hs.frame (by simp [ConnectEvent.aside, ConnectEvent.isSpawned]) rfl rfl (early_setPc (by simp))
  | connects w hpc =>
    have hno := List.count_eq_zero.2 (hs.early w (.inr hpc))
    refine ⟨?_, hs.launched.append (by simp [ConnectEvent.isSpawned]), ?_, by simpa using hs.waited⟩
    · cases hs.stage with
      | before h1 h2 h3 h4 h5 =>
        refine .trying rfl (by simp [h2, h3]) (by simpa using h4) ?_
        rw [List.count_append, h3, show [ConnectEvent.attempted].count .failed = 0 by decide]
        show Counts _ s.waitConnect
        rw [h5]
        exact counts_reset
      | trying _ h2 | refused _ _ h2 | connected _ h2 => omega
    · -- no worker is left that has yet to come out of init
      intro v hv
      have hvw := ht.loop.one v w (early_setPc (by simp) v hv) (.inr hpc)
      rw [hvw] at hv
      simp [Worker.early] at hv
  | spawnFails w status spawn readStart hpc ha hst h0 hsp =>
    obtain ⟨h2, h3, h4⟩ := hs.trying ha
    have hl := hs.launch ha spawn
    rw [if_pos h0] at hl
    refine ⟨.refused (h.count .failed) rfl ?_ ?_ (by simpa using h3) (h4.count_eq_zero.1 h0) h4, hl, ?_,
      by simpa using hs.waited⟩
    · simp [h2]
    · simp
    · exact fun v hv => absurd hv ((ht.loop.attempt ha).2.2 v)
  | reconnects w status spawn readStart hpc ha hst hsp =>
    obtain ⟨h2, h3, h4⟩ := hs.trying ha
    have hl := (hs.launch ha spawn).append (e := [.attempted]) (by simp [ConnectEvent.isSpawned])
    rw [List.append_assoc] at hl
    have hf := count_reconnected (h := h) s spawn
    refine ⟨.trying rfl (by rw [hf.1, hf.2.1, h2]) (by rwa [hf.2.2.1]) (by rw [hf.2.1]; exact h4.signalOnce), hl, ?_,
      by rw [hf.2.2.2]; exact hs.waited⟩
    exact fun v hv => absurd hv ((ht.loop.attempt ha).2.2 v)
  | connected w spawn readStart hpc ha =>
    obtain ⟨h2, h3, h4⟩ := hs.trying ha
    refine ⟨.connected rfl (by simp [h2]) (by simp) rfl, hs.launched.append (by simp [ConnectEvent.isSpawned]), ?_,
      by simpa using hs.waited⟩
    exact fun v hv => absurd hv ((ht.loop.attempt ha).2.2 v)

theorem count_failed_step {i : ConnectInput} (hstep : withinRun.step s i = some (t, e)) :
    e.count .failed = if i.fails then 1 else 0 := by
  obtain ⟨-, hstep⟩ := Machine.restrict_step.1 hstep
  obtain ⟨-, hm⟩ := CanIPCRun.connect_moved hstep
  cases hm with
  | spawnFails w status spawn readStart _ _ hst => simp [ConnectInput.fails, hst]
  | reconnects w status spawn readStart _ _ hst =>
    by_cases h0 : s.waitConnect.count = 0 <;> simp [ConnectInput.fails, hst, h0]
  | _ => simp [ConnectInput.fails]

end Steps

/-! ## Runs -/

/-- `run` has started a worker, whatever was called and came out before. -/
def Begins (s : CanIPCRun) : Prop :=
  ∃ is s₀ h w, neverStopped.run .new is = some (s₀, h) ∧ neverStopped.step s₀ .run = some (s, [.started w])

theorem counted_begins {s : CanIPCRun} (hb : Begins s) : (∃ h, Told h s) ∧ Counted [] s := by
  obtain ⟨is, s₀, h, w, hr, hstep⟩ := hb
  have ht : Told h s₀ := Machine.run_always (I := Told) (fun _ _ _ _ _ hs hstep => told_step hs hstep) told_new hr
  have hs := told_step ht hstep
  refine ⟨⟨_, hs⟩, ?_⟩
  obtain ⟨-, hstep⟩ := Machine.restrict_step.1 hstep
  obtain ⟨-, hm⟩ := CanIPCRun.connect_moved hstep
  cases hm with
  | started hi hth =>
    refine ⟨.before (ht.loop.letGo hth).1 rfl rfl (by simp) rfl, ⟨by simp, .nil _⟩, by simp, by simp⟩

theorem counted_run {s t : CanIPCRun} {is : List ConnectInput} {es : List ConnectEvent} (hb : Begins s)
    (hr : withinRun.run s is = some (t, es)) : Counted es t ∧ es.count .failed = failures is := by
  obtain ⟨⟨h₀, ht⟩, hc⟩ := counted_begins hb
  have := Machine.run_always (I := fun h s => Told (h₀ ++ h) s ∧ Counted h s)
    (fun h s i t e hs hstep => ⟨by rw [← List.append_assoc]; exact told_step hs.1 (withinRun_step hstep),
      counted_step hs.1 hs.2 hstep⟩) ⟨by simpa using ht, hc⟩ hr
  exact ⟨this.2, Machine.run_count (fun _ _ _ _ hstep => count_failed_step hstep) hr⟩

/-! ## The verdict -/

/-- `uv_spawn` is called at most once, after the first attempt has failed; `wait` does not return undecided; and the
semaphore says whether an attempt has succeeded, or `AN_RECONNECT_COUNT` of them have failed. -/
structure Verdict (h : List ConnectEvent) (s : CanIPCRun) : Prop where
  spawnedOnce : h.countP ConnectEvent.isSpawned ≤ 1
  spawnedFirst : EachAfter (fun pre x => x.isSpawned = true → pre.count .failed = 1) h
  waited : .waited 0 ∉ h
  succeeded : s.waitConnect.status = 1 → .connected ∈ h
  gaveUp : s.waitConnect.status = 2 ↔ anReconnectCount ≤ h.count .failed ∧ .connected ∉ h

/-- At most `AN_RECONNECT_COUNT` attempts are made, and none is with libuv once connecting has been given up. -/
structure Bounded (h : List ConnectEvent) (s : CanIPCRun) : Prop where
  attempts : h.count .attempted ≤ anReconnectCount
  gaveUp : s.waitConnect.status = 2 → s.attempt = false

section Counted

variable {h : List ConnectEvent} {s : CanIPCRun}

theorem Counted.succeeded (hs : Counted h s) (h1 : s.waitConnect.status = 1) : .connected ∈ h := by
  rcases hs.semaphore with ⟨k, hc⟩ | ⟨hconnected, -⟩
  · have hst := hc.status
    split at hst <;> omega
  · exact hconnected

theorem Counted.gaveUp (hs : Counted h s) :
    s.waitConnect.status = 2 ↔ anReconnectCount ≤ h.count .failed ∧ .connected ∉ h := by
  unfold anReconnectCount
  cases hs.stage with
  | before _ _ h3 _ h5 => simp [h5, h3, AnWaitconnectSemaphore.reset]
  | trying _ _ h3 h4 =>
    rw [h4.status]
    simp only [h3, not_false_eq_true, and_true]
    split <;> omega
  | refused k _ _ h3 h4 h5 h6 =>
    rw [h6.status]
    simp only [h4, not_false_eq_true, and_true]
    split <;> omega
  | connected _ _ h3 h4 => simp [h3, h4, AnWaitconnectSemaphore.signal]

theorem Counted.verdict_iff (hs : Counted h s) : Verdict h s ↔ h.count .failed ≤ 4294967296 := by
  constructor
  · intro hv
    have := hs.launched.spawns
    have := hv.spawnedOnce
    omega
  · intro hle
    refine ⟨?_, ?_, hs.waited, hs.succeeded, hs.gaveUp⟩
    · rw [hs.launched.spawns]
      omega
    · rintro pre x post heq hx
      have hfirst := hs.launched.first pre x post heq hx
      have hpre : pre.count .failed ≤ h.count .failed := by
        rw [heq, List.count_append]
        omega
      omega

theorem Counted.bounded_iff (hs : Counted h s) : Bounded h s ↔ h.count .failed < anReconnectCount := by
  have hgave := hs.gaveUp
  unfold anReconnectCount at hgave ⊢
  constructor
  · rintro ⟨hat, hgu⟩
    unfold anReconnectCount at hat
    cases hs.stage with
    | before _ _ h3 => omega
    | trying h1 h2 h3 =>
      by_contra hge
      simp [hgu (hgave.2 ⟨by omega, h3⟩)] at h1
    | refused _ _ h2 h3 => omega
    | connected _ h2 => omega
  · intro hlt
    refine ⟨?_, fun h2 => absurd (hgave.1 h2).1 (by omega)⟩
    unfold anReconnectCount
    cases hs.stage with
    | before _ h2 => omega
    | trying _ h2 => omega
    | refused _ _ h2 h3 => omega
    | connected _ h2 => omega

end Counted

/-- For every call of `CanIPC::run` that starts a worker, and every run from there to the next start: the verdict is
exact and the server is spawned at most once, if and only if at most 2^32 connect attempts have failed. -/
theorem verdict_iff_failures {s t : CanIPCRun} {is : List ConnectInput} {es : List ConnectEvent} (hb : Begins s)
    (hr : withinRun.run s is = some (t, es)) : Verdict es t ↔ failures is ≤ 4294967296 := by
  obtain ⟨hc, hf⟩ := counted_run hb hr
  rw [hc.verdict_iff, hf]

theorem begins_first : Begins CanIPCRun.new.run.1 := ⟨[], .new, [], 0, rfl, rfl⟩

/-- One attempt fails, the server is spawned, and the next attempt succeeds. -/
def spawned : List ConnectInput :=
  [.caller, .callInit 0, .init 0 0 0, .caller, .onConnect 0 (-2) 0 0, .onConnect 0 0 0 0, .caller, .caller]

theorem spawned_verdict : ∃ t es, withinRun.run CanIPCRun.new.run.1 spawned = some (t, es) ∧
    (.spawned 0 ∈ es ∧ .ran 0 ∈ es) ∧ Verdict es t := by
  obtain ⟨t, es, hr, hp⟩ : ∃ t es, withinRun.run CanIPCRun.new.run.1 spawned = some (t, es) ∧
      (.spawned 0 ∈ es ∧ .ran 0 ∈ es) := Machine.run_any (by decide +kernel)
  exact ⟨t, es, hr, hp, (verdict_iff_failures begins_first hr).2 (by decide)⟩

/-- An attempt that fails, with a server that can be spawned, is followed by another one. -/
theorem fails_step {s : CanIPCRun} (hf : s.fault = none) (hpc : (s.workers 0).pc = .running) (ha : s.attempt = true) :
    ∃ t e, withinRun.step s (.onConnect 0 (-2) 0 0) = some (t, e) ∧ t.fault = none ∧ (t.workers 0).pc = .running ∧
      t.attempt = true := by
  have hagain : (s.onConnect (-2) 0 0).1 = { s with attempt := true, waitConnect := s.waitConnect.signalOnce } := by
    unfold CanIPCRun.onConnect
    rw [if_pos (by decide), if_neg fun h => h.2 rfl]
  obtain ⟨t, e, ht⟩ : ∃ t e, s.onConnect (-2) 0 0 = (t, e) := ⟨_, _, rfl⟩
  rw [ht] at hagain
  refine ⟨t, e, Machine.restrict_step.2 ⟨trivial, ?_⟩, ?_⟩
  · simp [connectMachine, CanIPCRun.step, hf, hpc, ha, ht]
  · rw [show t = _ from hagain]
    exact ⟨hf, hpc, rfl⟩

theorem fails_run : ∀ (n : Nat) {s : CanIPCRun}, s.fault = none → (s.workers 0).pc = .running → s.attempt = true →
    ∃ t es, withinRun.run s (List.replicate n (.onConnect 0 (-2) 0 0)) = some (t, es)
  | 0, s, _, _, _ => ⟨s, [], rfl⟩
  | n + 1, s, hf, hpc, ha => by
    obtain ⟨t, e, hs, hf', hpc', ha'⟩ := fails_step hf hpc ha
    obtain ⟨u, es, hr⟩ := fails_run n hf' hpc' ha'
    refine ⟨u, e ++ es, ?_⟩
    simp only [List.replicate_succ, Machine.run, hs, Option.bind_some, hr, Option.map_some]

/-- A server that never comes up: the first `n` attempts fail. -/
def neverUp (n : Nat) : List ConnectInput :=
  [.caller, .callInit 0, .init 0 0 0, .caller] ++ List.replicate n (.onConnect 0 (-2) 0 0)

theorem neverUp_run (n : Nat) : ∃ t es, withinRun.run CanIPCRun.new.run.1 (neverUp n) = some (t, es) := by
  obtain ⟨t, es, hr, hf, hpc, ha⟩ : ∃ t es, withinRun.run CanIPCRun.new.run.1
      [.caller, .callInit 0, .init 0 0 0, .caller] = some (t, es) ∧ t.fault = none ∧ (t.workers 0).pc = .running ∧
        t.attempt = true := Machine.run_any (by decide +kernel)
  obtain ⟨u, es', hr'⟩ := fails_run n hf hpc ha
  exact ⟨u, es ++ es', Machine.run_append.2 ⟨t, es, es', hr, hr', rfl⟩⟩

theorem failures_neverUp (n : Nat) : failures (neverUp n) = n := by
  simp [failures, neverUp, ConnectInput.fails, List.countP_replicate]

/-- After 2^32 + 1 failures the server has been spawned twice. -/
theorem spawned_again : ∃ t es, withinRun.run CanIPCRun.new.run.1 (neverUp 4294967297) = some (t, es) ∧
    ¬ Verdict es t := by
  obtain ⟨t, es, hr⟩ := neverUp_run 4294967297
  obtain ⟨hc, hf⟩ := counted_run begins_first hr
  refine ⟨t, es, hr, ?_⟩
  rw [hc.verdict_iff, hf, failures_neverUp]
  omega

/-- For every call of `CanIPC::run` that starts a worker, and every run from there to the next start: reconnecting is
bounded by `AN_RECONNECT_COUNT` and has ended once it has been given up, if and only if fewer attempts than that have
failed. -/
theorem bounded_iff_failures {s t : CanIPCRun} {is : List ConnectInput} {es : List ConnectEvent} (hb : Begins s)
    (hr : withinRun.run s is = some (t, es)) : Bounded es t ↔ failures is < anReconnectCount := by
  obtain ⟨hc, hf⟩ := counted_run hb hr
  rw [hc.bounded_iff, hf]

/-- All attempts fail but there are not enough of them. -/
theorem neverUp_bounded : ∃ t es, withinRun.run CanIPCRun.new.run.1 (neverUp 3) = some (t, es) ∧ Bounded es t := by
  obtain ⟨t, es, hr⟩ := neverUp_run 3
  exact ⟨t, es, hr, (bounded_iff_failures begins_first hr).2 (by rw [failures_neverUp]; decide)⟩

/-- When connecting is given up, another attempt has been made. -/
theorem attempt_beyond_limit : ∃ t es, withinRun.run CanIPCRun.new.run.1 (neverUp 1000) = some (t, es) ∧
    (t.waitConnect.status = 2 ∧ t.attempt = true ∧ es.count .attempted = 1001) ∧ ¬ Bounded es t := by
  obtain ⟨t, es, hr, hst, ha, hcount⟩ : ∃ t es, withinRun.run CanIPCRun.new.run.1 (neverUp 1000) = some (t, es) ∧
      (t.waitConnect.status = 2 ∧ t.attempt = true ∧ es.count .attempted = 1001) :=
    Machine.run_any (by decide +kernel)
  refine ⟨t, es, hr, ⟨hst, ha, hcount⟩, fun hb => ?_⟩
  simp [hb.gaveUp hst] at ha

end AnXfs.Client
