/-
The executor's thread (`CanThread`): `thread_cb` hands what `run` returns to `idle_handle`, which starts
its timer again for a 1, and for anything else calls `idle` once the timer is up. `run` returns the
`HRESULT` of `cmd_handler`, and that is never 1, so that the timer runs on through whatever is executed.
`idlesQuiet_iff` says on which runs an `idle` still comes only after a quiet interval. All else that
holds of the executor holds in the thread, by `executer_run_of_thread`.
-/
import AnXfs.Server.Queue

namespace AnXfs.Server

open AnXfs.Pack AnXfs.Run

variable {A : Arch} {api : XfsApi}

/-! ## What `run` returns -/

/-- What `execute` of the class returns: its `hr`, as it was initialised. -/
def CommanderClass.returned (api : XfsApi) : CommanderClass → HResult
  | .anWfpopenImpl => api.wfsSuccess
  | .anWfpcloseImpl => api.wfsSuccess
  | .anWfpderegisterImpl => api.wfsSuccess
  | .anWfpexecuteImpl => api.wfsSuccess
  | .anWfpregisterImpl => api.wfsSuccess

/-- What `CanXfs::cmd_handler` returns. -/
def cmdHandlerReturned (api : XfsApi) (arg : AnCmd A) : Except Fault HResult :=
  (commanderAt arg.eType).map fun p => p.2.returned api

/-- The local `r` of `CExecuter::run` after one piece of it. -/
def Executer.returned (s : Executer A api) (r : HResult) : HResult :=
  match s.pc with
  | .sizeTest => 0
  -- what `cmd_pre_processed` returns
  | .preProcess => 0
  | .cmdHandler =>
    match s.currentCmd.mCmd.bind s.heap with
    | none => r
    | some m =>
      match cmdHandlerReturned api m with
      | .error _ => r
      | .ok hr => hr
  | .readFront | .pauseItemCheck | .destroyCmd | .popFront => r

/-! ## The thread -/

/-- The difference of two readings of `GetTickCount`, which are times in milliseconds modulo 2^32. -/
def since (current begin : Nat) : Dword := BitVec.ofNat 32 current - BitVec.ofNat 32 begin

/-- Where the thread stands: at the condition of the loop of `thread_cb`, in `run` (`ExecPc` says where), at
the beginning of `idle_handle`, and in it behind the call of `idle`. -/
inductive ThreadPc where
  | stopTest
  | running
  | idleHandle
  | idled
  | exited
  deriving DecidableEq

/-- `CanThread` with the executor it is the thread of, the `r` of `thread_cb` (while `run` runs, its own), the static
`s_begin` once it is initialised, and the time. `lastActive` is the last time at which a command was executed; the
program does not have it. -/
structure CanThread (A : Arch) (api : XfsApi) where
  executer : Executer A api
  mStopFlag : Bool
  mIdleInterval : Dword
  pc : ThreadPc
  r : HResult
  sBegin : Option Nat
  clock : Nat
  lastActive : Option Nat

/-- The thread as `start` leaves it. -/
def CanThread.new (x : CanXfs A api) (interval : Dword) (clock : Nat) : CanThread A api where
  executer := .new x
  mStopFlag := false
  mIdleInterval := interval
  pc := .stopTest
  r := 0
  sBegin := none
  clock := clock
  lastActive := none

/-- What the executor does, with the time; `idle` is the call of `idle`. -/
inductive ThreadEvent (A : Arch) where
  | exec (t : Nat) (e : ExecEvent A)
  | idle (t : Nat)
  deriving DecidableEq

/-- A command is being executed: it has been handled, or `run` has just done with it. -/
def ThreadEvent.active : ThreadEvent A → Bool
  | .exec _ (.executed ..) => true
  | .exec _ (.popped _) => true
  | _ => false

/-- The loop thread's pushes and the item check, a call of `stop`, time that goes by, and a step of the thread. -/
inductive ThreadInput (A : Arch) where
  | push (client : Option Addr) (origin : Option ConnId) (m : AnCmd A)
  | itemCheck (now : AnSystemtime)
  | stop
  | wait (ms : Nat)
  | thread (now : AnSystemtime) (online : Bool)

namespace CanThread

variable (s : CanThread A api)

/-- The executor takes a step on its own or at the hands of another thread. -/
def execute (i : ExecInput A) : Option (CanThread A api × List (ThreadEvent A)) :=
  (s.executer.step i).map fun (x, e) => ({ s with executer := x }, e.map (.exec s.clock))

/-- One piece of `run`; behind its last the thread comes to `idle_handle`. -/
def run (now : AnSystemtime) : Option (CanThread A api × List (ThreadEvent A)) :=
  (s.execute (.run now)).map fun (t, e) =>
    ({ t with r := s.executer.returned s.r, pc := if t.executer.pc = .sizeTest then .idleHandle else .running }, e)

/-- `idle_handle` up to the call of `idle`; its `action` is `r`. -/
def idleHandle (now : AnSystemtime) (online : Bool) : Option (CanThread A api × List (ThreadEvent A)) :=
  match s.sBegin with
  -- the initialiser of the static, passed once
  | none => some ({ s with sBegin := some s.clock }, [])
  | some begin =>
    if s.r = 1 then some ({ s with sBegin := some s.clock, r := 0, pc := .stopTest }, [])
    else if s.mIdleInterval ≤ since s.clock begin then
      (s.execute (.idle now online)).map fun (t, e) => ({ t with pc := .idled }, .idle s.clock :: e)
    else some ({ s with r := 0, pc := .stopTest }, [])

/-- A step of `thread_cb`. -/
def threadCb (now : AnSystemtime) (online : Bool) : Option (CanThread A api × List (ThreadEvent A)) :=
  match s.pc with
  | .stopTest => some ({ s with pc := if s.mStopFlag then .exited else .running }, [])
  | .running => s.run now
  | .idleHandle => s.idleHandle now online
  | .idled => some ({ s with sBegin := some s.clock, r := 0, pc := .stopTest }, [])
  | .exited => none

/-- A step of any thread. -/
def move : ThreadInput A → Option (CanThread A api × List (ThreadEvent A))
  | .push client origin m => s.execute (.push client origin m)
  | .itemCheck now => s.execute (.itemCheck now)
  | .stop => some ({ s with mStopFlag := true }, [])
  | .wait ms => some ({ s with clock := s.clock + ms }, [])
  | .thread now online => s.threadCb now online

/-- The time is noted if a command was executed. -/
def noted (clock : Nat) (e : List (ThreadEvent A)) : CanThread A api :=
  { s with lastActive := if e.any ThreadEvent.active then some clock else s.lastActive }

end CanThread

def threadMachine (A : Arch) (api : XfsApi) : Machine (CanThread A api) (ThreadInput A) (ThreadEvent A) where
  step s i := (s.move i).map fun (t, e) => (t.noted s.clock e, e)

/-! ## Quiet intervals -/

/-- A call of `idle` among the events `e` comes with no command executed in the interval before it. -/
def IdlesQuiet (interval : Dword) (h e : List (ThreadEvent A)) : Prop :=
  ∀ t, .idle t ∈ e → ∀ c x, .exec c x ∈ h → (ThreadEvent.exec c x).active = true → c + interval.toNat ≤ t

/-- The timer of `idle_handle` is up. -/
def CanThread.up (s : CanThread A api) : Prop := ∃ begin ∈ s.sBegin, s.mIdleInterval ≤ since s.clock begin

/-- A command was executed since the timer began, and less than the interval ago. -/
def CanThread.busy (s : CanThread A api) : Prop :=
  ∃ begin ∈ s.sBegin, ∃ last ∈ s.lastActive, begin < last ∧ s.clock < last + s.mIdleInterval.toNat

instance (s : CanThread A api) : Decidable s.up := by unfold CanThread.up; infer_instance

instance (s : CanThread A api) : Decidable s.busy := by unfold CanThread.busy; infer_instance

/-- The thread comes to the test of `idle_handle` when the timer is up. -/
def Expires (s : CanThread A api) : ThreadInput A → Prop
  | .thread .. => s.pc = .idleHandle ∧ s.up
  | _ => False

instance (s : CanThread A api) : DecidablePred (Expires s) := by
  intro i
  cases i <;> unfold Expires <;> infer_instance

/-! ## What a step does -/

/-- What every step does to what the timer depends on. -/
structure Advanced (s t : CanThread A api) (e : List (ThreadEvent A)) : Prop where
  interval : t.mIdleInterval = s.mIdleInterval
  clock : s.clock ≤ t.clock
  begun : t.sBegin = s.sBegin ∨ t.sBegin = some s.clock
  success : s.r = 0 → t.r = 0
  last : t.lastActive = s.lastActive
  stamped : ∀ c x, .exec c x ∈ e → c = s.clock

/-- No class of commander returns a 1. -/
theorem returned_zero (c : CommanderClass) : c.returned api = 0 := by
  cases c <;> exact api.success_eq

theorem executer_returned {x : Executer A api} {r : HResult} (hr : r = 0) : x.returned r = 0 := by
  unfold Executer.returned
  split
  · rfl
  · rfl
  · split
    · exact hr
    · rename_i m hm
      unfold cmdHandlerReturned
      cases commanderAt m.eType with
      | error f => exact hr
      | ok p => exact returned_zero p.2
  all_goals exact hr

theorem execute_some {s t : CanThread A api} {i : ExecInput A} {e : List (ThreadEvent A)}
    (h : s.execute i = some (t, e)) :
    ∃ x es, s.executer.step i = some (x, es) ∧ t = { s with executer := x } ∧ e = es.map (.exec s.clock) := by
  obtain ⟨⟨x, es⟩, hx, h⟩ := Option.map_eq_some_iff.1 h
  cases h
  exact ⟨x, es, hx, rfl, rfl⟩

theorem execute_advanced {s t : CanThread A api} {i : ExecInput A} {e : List (ThreadEvent A)}
    (h : s.execute i = some (t, e)) : Advanced s t e ∧ ∀ u, .idle u ∉ e := by
  obtain ⟨x, es, -, rfl, rfl⟩ := execute_some h
  refine ⟨⟨rfl, le_rfl, .inl rfl, id, rfl, ?_⟩, ?_⟩
  · intro c y hy
    obtain ⟨z, -, hz⟩ := List.mem_map.1 hy
    cases hz
    rfl
  · intro u hu
    obtain ⟨z, -, hz⟩ := List.mem_map.1 hu
    cases hz

theorem run_advanced {s t : CanThread A api} {now : AnSystemtime} {e : List (ThreadEvent A)}
    (h : s.run now = some (t, e)) : Advanced s t e ∧ ∀ u, .idle u ∉ e := by
  obtain ⟨⟨t', e'⟩, he, h⟩ := Option.map_eq_some_iff.1 h
  cases h
  obtain ⟨ha, hu⟩ := execute_advanced he
  exact ⟨⟨ha.interval, ha.clock, ha.begun, executer_returned, ha.last, ha.stamped⟩, hu⟩

/-- A step without events. -/
theorem advanced_nil {s t : CanThread A api} (hi : t.mIdleInterval = s.mIdleInterval) (hc : s.clock ≤ t.clock)
    (hb : t.sBegin = s.sBegin ∨ t.sBegin = some s.clock) (hr : s.r = 0 → t.r = 0)
    (hl : t.lastActive = s.lastActive) : Advanced s t [] :=
  ⟨hi, hc, hb, hr, hl, fun _ _ h => absurd h List.not_mem_nil⟩

theorem up_iff {s : CanThread A api} {begin : Nat} (hb : s.sBegin = some begin) :
    s.up ↔ s.mIdleInterval ≤ since s.clock begin := by
  simp [CanThread.up, hb]

/-- As long as `run` has returned no 1, `idle_handle` calls `idle` whenever the timer is up, and only then. -/
theorem idleHandle_advanced {s t : CanThread A api} {now : AnSystemtime} {online : Bool}
    {e : List (ThreadEvent A)} (hr : s.r = 0) (h : s.idleHandle now online = some (t, e)) :
    Advanced s t e ∧ ∀ u, .idle u ∈ e ↔ u = s.clock ∧ s.up := by
  unfold CanThread.idleHandle at h
  have hr1 : s.r ≠ 1 := by rw [hr]; decide
  split at h
  · rename_i hb
    cases h
    refine ⟨advanced_nil rfl le_rfl (.inr rfl) id rfl, fun u => ?_⟩
    simp [CanThread.up, hb]
  · rename_i begin hb
    rw [if_neg hr1] at h
    rw [up_iff hb]
    split at h
    · rename_i hup
      obtain ⟨⟨t', e'⟩, he, h⟩ := Option.map_eq_some_iff.1 h
      cases h
      obtain ⟨ha, hu⟩ := execute_advanced he
      refine ⟨⟨ha.interval, ha.clock, ha.begun, ha.success, ha.last, ?_⟩, fun u => ?_⟩
      · intro c x hx
        rcases List.mem_cons.1 hx with hx | hx
        · cases hx
        · exact ha.stamped c x hx
      · simp [hu u, hup]
    · rename_i hup
      cases h
      refine ⟨advanced_nil rfl le_rfl (.inl rfl) (fun _ => rfl) rfl, fun u => ?_⟩
      simp [hup]

theorem move_advanced {s t : CanThread A api} {i : ThreadInput A} {e : List (ThreadEvent A)} (hr : s.r = 0)
    (h : s.move i = some (t, e)) : Advanced s t e ∧ ∀ u, .idle u ∈ e ↔ u = s.clock ∧ Expires s i := by
  cases i with
  | push client origin m =>
    obtain ⟨ha, hu⟩ := execute_advanced h
    exact ⟨ha, fun u => iff_of_false (hu u) fun hx => hx.2⟩
  | itemCheck now =>
    obtain ⟨ha, hu⟩ := execute_advanced h
    exact ⟨ha, fun u => iff_of_false (hu u) fun hx => hx.2⟩
  | stop =>
    cases h
    exact ⟨advanced_nil rfl le_rfl (.inl rfl) id rfl, fun u => by simp [Expires]⟩
  | wait ms =>
    cases h
    exact ⟨advanced_nil rfl (Nat.le_add_right ..) (.inl rfl) id rfl, fun u => by simp [Expires]⟩
  | thread now online =>
    simp only [CanThread.move, CanThread.threadCb] at h
    simp only [Expires]
    split at h
    · rename_i hpc
      cases h
      exact ⟨advanced_nil rfl le_rfl (.inl rfl) id rfl, fun u => by simp [hpc]⟩
    · rename_i hpc
      obtain ⟨ha, hu⟩ := run_advanced h
      exact ⟨ha, fun u => by simp [hpc, hu u]⟩
    · rename_i hpc
      obtain ⟨ha, hu⟩ := idleHandle_advanced hr h
      exact ⟨ha, fun u => by simp [hpc, hu u]⟩
    · rename_i hpc
      cases h
      exact ⟨advanced_nil rfl le_rfl (.inr rfl) (fun _ => rfl) rfl, fun u => by simp [hpc]⟩
    · cases h

theorem threadMachine_step {s t : CanThread A api} {i : ThreadInput A} {e : List (ThreadEvent A)}
    (h : (threadMachine A api).step s i = some (t, e)) :
    ∃ t', s.move i = some (t', e) ∧ t = t'.noted s.clock e := by
  obtain ⟨⟨t', e'⟩, hm, h⟩ := Option.map_eq_some_iff.1 h
  cases h
  exact ⟨t', hm, rfl⟩

/-! ## The executor in it -/

/-- The executor's events of a history, without their times. -/
def execs (h : List (ThreadEvent A)) : List (ExecEvent A) :=
  h.filterMap fun
    | .exec _ e => some e
    | .idle _ => none

theorem execs_stamped (t : Nat) (es : List (ExecEvent A)) : execs (es.map (.exec t)) = es := by
  unfold execs
  rw [List.filterMap_map]
  exact List.filterMap_some

/-- The executor has not moved, or has taken a step of its machine. -/
def Executes (s t : CanThread A api) (e : List (ThreadEvent A)) : Prop :=
  t.executer = s.executer ∧ execs e = [] ∨ ∃ j, s.executer.step j = some (t.executer, execs e)

theorem execute_executes {s t : CanThread A api} {i : ExecInput A} {e : List (ThreadEvent A)}
    (h : s.execute i = some (t, e)) : ∃ j, s.executer.step j = some (t.executer, execs e) := by
  obtain ⟨x, es, hx, rfl, rfl⟩ := execute_some h
  exact ⟨i, by rw [execs_stamped]; exact hx⟩

theorem idleHandle_executes {s t : CanThread A api} {now : AnSystemtime} {online : Bool}
    {e : List (ThreadEvent A)} (h : s.idleHandle now online = some (t, e)) : Executes s t e := by
  unfold CanThread.idleHandle at h
  split at h
  · cases h
    exact .inl ⟨rfl, rfl⟩
  · split at h
    · cases h
      exact .inl ⟨rfl, rfl⟩
    · split at h
      · obtain ⟨⟨t', e'⟩, he, h⟩ := Option.map_eq_some_iff.1 h
        cases h
        obtain ⟨j, hj⟩ := execute_executes he
        exact .inr ⟨j, hj⟩
      · cases h
        exact .inl ⟨rfl, rfl⟩

theorem move_executes {s t : CanThread A api} {i : ThreadInput A} {e : List (ThreadEvent A)}
    (h : s.move i = some (t, e)) : Executes s t e := by
  cases i with
  | push client origin m => exact .inr (execute_executes h)
  | itemCheck now => exact .inr (execute_executes h)
  | stop | wait ms =>
    cases h
    exact .inl ⟨rfl, rfl⟩
  | thread now online =>
    simp only [CanThread.move, CanThread.threadCb] at h
    split at h
    · cases h
      exact .inl ⟨rfl, rfl⟩
    · obtain ⟨⟨t', e'⟩, he, h⟩ := Option.map_eq_some_iff.1 h
      cases h
      obtain ⟨j, hj⟩ := execute_executes he
      exact .inr ⟨j, hj⟩
    · exact idleHandle_executes h
    · cases h
      exact .inl ⟨rfl, rfl⟩
    · cases h

/-- What the executor does in a run of the thread it does in a run of its own machine, where `idle` may be called
whenever `run` is not under way. -/
theorem executer_run_of_thread {x : CanXfs A api} {interval : Dword} {clock : Nat} {is : List (ThreadInput A)}
    {s : CanThread A api} {es : List (ThreadEvent A)}
    (hr : (threadMachine A api).run (.new x interval clock) is = some (s, es)) :
    ∃ js, (executerMachine A api).run (.new x) js = some (s.executer, execs es) := by
  refine Machine.run_always (I := fun h s => ∃ js, (executerMachine A api).run (.new x) js =
    some (s.executer, execs h)) ?_ ⟨[], rfl⟩ hr
  rintro h s i t e ⟨js, hjs⟩ hs
  obtain ⟨t', hm, rfl⟩ := threadMachine_step hs
  have happend : execs (h ++ e) = execs h ++ execs e := List.filterMap_append
  rw [happend]
  rcases move_executes hm with ⟨hx, he⟩ | ⟨j, hj⟩
  · refine ⟨js, ?_⟩
    rw [he, List.append_nil, hjs]
    exact congrArg (fun y => some (y, execs h)) hx.symm
  · refine ⟨js ++ [j], Machine.run_append.2 ⟨_, _, execs e, hjs, ?_, rfl⟩⟩
    have hstep : (executerMachine A api).step s.executer j = some (t'.executer, execs e) := hj
    simp only [Machine.run, hstep, Option.bind_some, Option.map_some, List.append_nil]
    rfl

/-! ## The invariant -/

/-- What a history says of the timer: `run` has only returned success, and `lastActive` is the time of the last
command executed. -/
structure Timed (interval : Dword) (h : List (ThreadEvent A)) (s : CanThread A api) : Prop where
  interval : s.mIdleInterval = interval
  success : s.r = 0
  begun : ∀ b ∈ s.sBegin, b ≤ s.clock
  recent : ∀ l ∈ s.lastActive, l ≤ s.clock ∧ ∃ x, .exec l x ∈ h ∧ (ThreadEvent.exec l x).active = true
  last : ∀ c x, .exec c x ∈ h → (ThreadEvent.exec c x).active = true → ∃ l ∈ s.lastActive, c ≤ l

theorem timed_new (x : CanXfs A api) (interval : Dword) (clock : Nat) :
    Timed interval ([] : List (ThreadEvent A)) (CanThread.new x interval clock) where
  interval := rfl
  success := rfl
  begun := by simp [CanThread.new]
  recent := by simp [CanThread.new]
  last := by simp

theorem timed_step {interval : Dword} {h e : List (ThreadEvent A)} {s t : CanThread A api} {i : ThreadInput A}
    (hs : Timed interval h s) (ht : (threadMachine A api).step s i = some (t, e)) : Timed interval (h ++ e) t := by
  obtain ⟨t', hm, rfl⟩ := threadMachine_step ht
  obtain ⟨ha, -⟩ := move_advanced hs.success hm
  have hclock := ha.clock
  constructor
  case interval => exact ha.interval.trans hs.interval
  case success => exact ha.success hs.success
  case begun =>
    intro b hb
    rcases ha.begun with heq | heq
    · exact (hs.begun b (heq ▸ hb)).trans hclock
    · have hbs : some s.clock = some b := heq.symm.trans hb
      cases hbs
      exact hclock
  case recent =>
    intro l hl
    simp only [CanThread.noted] at hl ⊢
    split at hl
    · rename_i hany
      obtain ⟨x, hx, hact⟩ := List.any_eq_true.1 hany
      cases hl
      cases x with
      | idle u => cases hact
      | exec c x =>
        obtain rfl := ha.stamped c x hx
        exact ⟨hclock, x, List.mem_append_right _ hx, hact⟩
    · rw [ha.last] at hl
      obtain ⟨hle, x, hx, hact⟩ := hs.recent l hl
      exact ⟨hle.trans hclock, x, List.mem_append_left _ hx, hact⟩
  case last =>
    intro c x hx hact
    simp only [CanThread.noted]
    rcases List.mem_append.1 hx with hx | hx
    · obtain ⟨l, hl, hle⟩ := hs.last c x hx hact
      split
      · exact ⟨s.clock, rfl, hle.trans (hs.recent l hl).1⟩
      · rw [ha.last]
        exact ⟨l, hl, hle⟩
    · rw [if_pos (List.any_eq_true.2 ⟨_, hx, hact⟩)]
      exact ⟨s.clock, rfl, (ha.stamped c x hx).le⟩

/-! ## Runs -/

/-- The readings may have passed 2^32 between them: their difference is then too small, never too large. -/
theorem since_le {current begin : Nat} (h : begin ≤ current) : (since current begin).toNat ≤ current - begin := by
  unfold since
  rw [BitVec.toNat_sub, BitVec.toNat_ofNat, BitVec.toNat_ofNat]
  omega

theorem idlesQuiet_step {interval : Dword} {h e : List (ThreadEvent A)} {s t : CanThread A api} {i : ThreadInput A}
    (hs : Timed interval h s) (ht : (threadMachine A api).step s i = some (t, e)) :
    IdlesQuiet interval h e ↔ ¬ (Expires s i ∧ s.busy) := by
  obtain ⟨t', hm, -⟩ := threadMachine_step ht
  obtain ⟨-, hidle⟩ := move_advanced hs.success hm
  constructor
  · rintro hq ⟨hx, begin, hb, last, hl, -, hlt⟩
    obtain ⟨-, x, hx', hact⟩ := hs.recent last hl
    have := hq s.clock ((hidle s.clock).2 ⟨rfl, hx⟩) last x hx' hact
    rw [hs.interval] at hlt
    omega
  · intro hn u hu c x hx hact
    obtain ⟨rfl, hexp⟩ := (hidle u).1 hu
    obtain ⟨begin, hb, hup⟩ : s.up := by
      cases i with
      | thread now online => exact hexp.2
      | push _ _ _ | itemCheck _ | stop | wait _ => exact hexp.elim
    obtain ⟨last, hl, hle⟩ := hs.last c x hx hact
    by_cases hlt : begin < last
    · have hfar : ¬ s.clock < last + s.mIdleInterval.toNat := fun hc => hn ⟨hexp, begin, hb, last, hl, hlt, hc⟩
      rw [hs.interval] at hfar
      omega
    · -- the timer began behind the last command, so that its own interval is enough
      have h₁ : s.mIdleInterval.toNat ≤ (since s.clock begin).toNat := hup
      have h₂ := since_le (hs.begun begin hb)
      have h₃ := hs.begun begin hb
      rw [hs.interval] at h₁
      omega

/-- For every run of the thread, whatever the interval, the arrivals of commands and the times of the steps: each
call of `idle` comes with no command executed in the interval before it if and only if `idle_handle` never finds the
timer up when a command was executed since the timer began and less than the interval ago. -/
theorem idlesQuiet_iff {x : CanXfs A api} {interval : Dword} {clock : Nat} {is : List (ThreadInput A)}
    {s : CanThread A api} {es : List (ThreadEvent A)}
    (hr : (threadMachine A api).run (.new x interval clock) is = some (s, es)) :
    (threadMachine A api).AtEach (fun h _ _ _ e _ => IdlesQuiet interval h e) (.new x interval clock) is ↔
      (threadMachine A api).Meets (fun s i => ¬ (Expires s i ∧ s.busy)) (.new x interval clock) is :=
  Machine.atEach_iff_meets (I := Timed interval) (fun _ _ _ _ _ hs ht => idlesQuiet_step hs ht)
    (fun _ _ _ _ _ hs _ ht => timed_step hs ht) (timed_new x interval clock) hr

/-- `n` steps of the thread. -/
def turns (n : Nat) : List (ThreadInput .x86) := List.replicate n (.thread midnight true)

/-- The thread comes once to `idle_handle`, an Open arrives after `before` milliseconds and is executed, and the
thread comes to `idle_handle` once more `after` milliseconds later. -/
def openBetween (before after : Nat) : List (ThreadInput .x86) :=
  turns 4 ++ [.wait before, .push (some 4) (some 0) (openCmd 1 1)] ++ turns 9 ++ [.wait after] ++ turns 2

/-- A command is executed 1 ms after the timer began, and `idle` is called when the interval has passed since. -/
theorem openBetween_idlesQuiet : ∃ s es,
    (threadMachine .x86 .documented).run (.new .blank 30000 0) (openBetween 1 30000 ++ turns 1) = some (s, es) ∧
    .idle 30001 ∈ es ∧ (threadMachine .x86 .documented).AtEach (fun h _ _ _ e _ => IdlesQuiet 30000 h e)
      (.new .blank 30000 0) (openBetween 1 30000 ++ turns 1) := by
  obtain ⟨s, es, hr, hidle⟩ : ∃ s es, (threadMachine .x86 .documented).run (.new .blank 30000 0)
      (openBetween 1 30000 ++ turns 1) = some (s, es) ∧ .idle 30001 ∈ es := Machine.run_any (by decide +kernel)
  exact ⟨s, es, hr, hidle, (idlesQuiet_iff hr).2 (by decide +kernel)⟩

/-- A command is executed 1 ms before the timer is up, and `idle` is called all the same. -/
theorem idle_after_command : ¬ (threadMachine .x86 .documented).AtEach (fun h _ _ _ e _ => IdlesQuiet 30000 h e)
    (.new .blank 30000 0) (openBetween 29999 1 ++ .thread midnight true :: []) := by
  refine Machine.not_atEach (fun h _ _ e _ =>
    decide (.idle 30000 ∈ e ∧ .exec 29999 (.popped ⟨some 0, some 4, some 0⟩) ∈ h)) ?_ (by decide +kernel)
  intro h _ _ e _ hb hq
  obtain ⟨he, hh⟩ := of_decide_eq_true hb
  exact absurd (hq 30000 he 29999 _ hh rfl) (by decide)

end AnXfs.Server
