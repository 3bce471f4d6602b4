/-
The client's mutexes never keep a thread: once no entry point is called any more and no worker takes a step of
its own, the threads that are in one come to the end of it after a bounded number of steps, in whatever order
they are taken, or the one that has `g_mutex` waits for the worker, in `CanIPC::run` or in `stop`. That worker
waits for no mutex.
-/
import AnXfs.Run.Progress
import AnXfs.System.Contract
import AnXfs.System.Mutexes

namespace AnXfs.System

open AnXfs.Run AnXfs.Pack AnXfs.Client

variable {A : Arch} {api : XfsApi}

/-! ## Waiting for the worker -/

/-- The thread that has `g_mutex` waits for the worker: in `run` for the connection, in `stop` for its end. -/
inductive AwaitsWorker (s : Threads A) : Prop
  | connection (t : Nat) (c : SpiCall) (hr : HResult) (cmd : List UInt8) :
      s.app t = .has c (.anpcCreateIpc hr cmd true) → s.conn.caller = .blocked → ¬ 0 < s.conn.waitConnect.status →
      AwaitsWorker s
  | ending (t w : Nat) (bforce : Bool) : s.app t = .stops bforce true → s.conn.caller = .joining →
      s.conn.thread = some w → (s.conn.workers w).pc ≠ .returned → AwaitsWorker s

/-- The thread of an application that is in `run`. -/
def CallerPc.Runs (c : CallerPc) : Prop := c = .started ∨ c = .waiting ∨ c = .blocked ∨ c = .waited

/-- The thread of an application that is in `stop`. -/
def CallerPc.Stops (c : CallerPc) : Prop := (∃ b, c = .stopping b) ∨ (∃ b, c = .closed b) ∨ c = .joining

/-- The thread is in `CanIPC::run` or in `stop`, past its first step. -/
def AppPc.inConn : AppPc → Bool
  | .wants _ (.anpcCreateIpc _ _ inside) | .has _ (.anpcCreateIpc _ _ inside) | .stops _ inside => inside
  | _ => false

/-- Whoever is in `CanIPC::run` or in `stop` is where the connection has its caller. -/
structure Calling (s : Threads A) : Prop where
  runs : ∀ t c hr cmd, s.app t = .has c (.anpcCreateIpc hr cmd true) → CallerPc.Runs s.conn.caller
  stops : ∀ t b, s.app t = .stops b true → CallerPc.Stops s.conn.caller
  outside : ∀ t c hr cmd, s.app t ≠ .wants c (.anpcCreateIpc hr cmd true)
  joining : s.conn.caller = .joining → s.conn.thread ≠ none

/-! ### The connection -/

section Connection

variable {s t : CanIPCRun} {e : List ConnectEvent}

/-- In `run` the caller goes on, or waits for a verdict. -/
theorem callerStep_runs (h : CallerPc.Runs s.caller) :
    (∃ t e, s.callerStep = some (t, e)) ∨ s.caller = .blocked ∧ ¬ 0 < s.waitConnect.status := by
  unfold CanIPCRun.callerStep
  rcases h with h | h | h | h <;> rw [h]
  · left; simp only; split <;> exact ⟨_, _, rfl⟩
  · left; simp only; split <;> exact ⟨_, _, rfl⟩
  · simp only
    split
    · exact .inl ⟨_, _, rfl⟩
    · rename_i hst
      exact .inr ⟨trivial, hst⟩
  · exact .inl ⟨_, _, rfl⟩

/-- In `stop` the caller goes on, or waits for its worker to return. -/
theorem callerStep_stops (h : CallerPc.Stops s.caller) (hj : s.caller = .joining → s.thread ≠ none) :
    (∃ t e, s.callerStep = some (t, e)) ∨
      s.caller = .joining ∧ ∃ w, s.thread = some w ∧ (s.workers w).pc ≠ .returned := by
  unfold CanIPCRun.callerStep
  rcases h with ⟨b, h⟩ | ⟨b, h⟩ | h <;> rw [h]
  · left; simp only; split <;> exact ⟨_, _, rfl⟩
  · left
    simp only
    split
    · exact ⟨_, _, rfl⟩
    · split <;> exact ⟨_, _, rfl⟩
  · obtain ⟨w, hw⟩ := Option.ne_none_iff_exists'.1 (hj h)
    simp only [hw]
    split
    · exact .inl ⟨_, _, rfl⟩
    · rename_i hpc
      exact .inr ⟨trivial, w, rfl, hpc⟩

/-- What a step of the thread in `run` leaves it with: it has returned, or is still in `run` and nearer its end. -/
def callerWeight (s : CanIPCRun) : Nat :=
  if s.fault ≠ none then 0 else
  match s.caller with
  | .idle => 0
  | .waited | .joining => 1
  | .blocked | .closed _ => 2
  | .waiting | .stopping _ => 3
  | .started => 4

theorem callerWeight_le (s : CanIPCRun) : callerWeight s ≤ 4 := by
  unfold callerWeight
  split
  · omega
  · split <;> omega

theorem callerStep_run (h : CallerPc.Runs s.caller) (hf : s.fault = none) (hs : s.callerStep = some (t, e)) :
    t.caller = .idle ∧ (∃ r, ranOf e = some r) ∨
      ranOf e = none ∧ CallerPc.Runs t.caller ∧ t.fault = none ∧ callerWeight t < callerWeight s := by
  unfold CanIPCRun.callerStep at hs
  rcases h with h | h | h | h <;> rw [h] at hs <;> simp only at hs
  · split at hs <;> cases hs
    · exact .inr ⟨rfl, by simp [CallerPc.Runs], hf, by simp [callerWeight, hf, h]⟩
    · exact .inl ⟨rfl, 0, rfl⟩
  · split at hs <;> cases hs
    · exact .inr ⟨rfl, by simp [CallerPc.Runs], hf, by simp [callerWeight, hf, h]⟩
    · exact .inr ⟨rfl, by simp [CallerPc.Runs], hf, by simp [callerWeight, hf, h]⟩
  · split at hs <;> cases hs
    exact .inr ⟨rfl, by simp [CallerPc.Runs], hf, by simp [callerWeight, hf, h]⟩
  · cases hs
    exact .inl ⟨rfl, _, rfl⟩

theorem callerStep_stop (h : CallerPc.Stops s.caller) (hf : s.fault = none) (hs : s.callerStep = some (t, e)) :
    t.caller = .idle ∧ .stopped ∈ e ∨ .stopped ∉ e ∧ CallerPc.Stops t.caller ∧ callerWeight t < callerWeight s ∧
      (t.caller = .joining → t.thread ≠ none) := by
  unfold CanIPCRun.callerStep at hs
  rcases h with ⟨b, h⟩ | ⟨b, h⟩ | h <;> rw [h] at hs <;> simp only at hs
  · split at hs <;> cases hs <;>
      exact .inr ⟨by simp, by simp [CallerPc.Stops], by simp [callerWeight, hf, h], by simp⟩
  · split at hs
    · cases hs
      exact .inr ⟨by simp, by simp [CallerPc.Stops], by simp [callerWeight, hf, h], by simp⟩
    · rename_i w hw
      split at hs <;> cases hs
      · exact .inl ⟨rfl, by simp⟩
      · exact .inr ⟨by simp, by simp [CallerPc.Stops], by simp [callerWeight, hf, h], by simp [hw]⟩
  · split at hs
    · cases hs
    · split at hs <;> cases hs
      exact .inl ⟨rfl, by simp⟩

/-- `run` is over at once, or has started a worker. -/
theorem run_begins (s : CanIPCRun) : ranOf s.run.2 = some 0 ∧ s.run.1 = s ∨
    ranOf s.run.2 = none ∧ s.run.1.caller = .started := by
  unfold CanIPCRun.run
  split
  · exact .inl ⟨rfl, rfl⟩
  · exact .inr ⟨rfl, rfl⟩

/-- `stop` is over at once, or has told the worker to stop. -/
theorem stop_begins (s : CanIPCRun) (bforce : Bool) : .stopped ∈ (s.stop bforce).2 ∧ (s.stop bforce).1 = s ∨
    .stopped ∉ (s.stop bforce).2 ∧ (s.stop bforce).1.caller = .stopping bforce := by
  unfold CanIPCRun.stop
  split
  · exact .inr ⟨by simp, rfl⟩
  · exact .inl ⟨by simp, rfl⟩

/-- A worker leaves the thread that has `g_mutex` where it is, and does not take its worker from under `join`. -/
theorem worker_caller {i : ConnectInput} (hi : ofWorker i = true) (hs : connectMachine.step s i = some (t, e)) :
    t.caller = s.caller ∧ ((s.caller = .joining → s.thread ≠ none) → t.caller = .joining → t.thread ≠ none) := by
  obtain ⟨-, hm⟩ := CanIPCRun.connect_moved hs
  cases hm with
  | joinable | started | stopsNothing | stops | waits | detachedEarly | blocks | passes | wakes | returns | closes
  | closesNothing | stopThrows | detaches | joins | joined => cases hi
  | closedDetaches w v hpc hc hcl ha ht hj => exact ⟨rfl, fun _ h => absurd h hj⟩
  | initialises | reinitialises | loopInitFails | pipeInitFails | connects | spawnFails | reconnects | connected
  | disconnected | disconnectedAgain | closed | closedThrows | leaves | returned => exact ⟨rfl, id⟩

end Connection

/-! ### The invariant -/

variable {s s' : Threads A}

/-- Two threads do not both have `g_mutex`. -/
theorem gMutex_exclusive (hl : s.Locked) {t u : Nat} (ht : .gMutex ∈ (s.app t).holds) (hu : .gMutex ∈ (s.app u).holds) :
    t = u :=
  Tid.app.inj (Held.exclusive (H := s.holds) (t := .app t) (u := .app u) hl ht hu)

/-- A step that leaves the caller of the connection alone, and puts nobody into `run` or `stop`. -/
theorem Calling.frame (hs : Calling s) (hcaller : s'.conn.caller = s.conn.caller)
    (hthread : s.conn.caller = .joining → s'.conn.thread ≠ none)
    (happ : ∀ t, (s'.app t).inConn = true → s'.app t = s.app t) : Calling s' := by
  refine ⟨fun t c hr cmd h => ?_, fun t b h => ?_, fun t c hr cmd h => ?_, fun h => hthread (hcaller ▸ h)⟩
  · rw [hcaller]
    exact hs.runs t c hr cmd ((happ t (by rw [h]; rfl)).symm.trans h)
  · rw [hcaller]
    exact hs.stops t b ((happ t (by rw [h]; rfl)).symm.trans h)
  · exact hs.outside t c hr cmd ((happ t (by rw [h]; rfl)).symm.trans h)

/-- A thread moves to where it is neither in `run` nor in `stop`. -/
theorem Calling.moves (hs : Calling s) {t : Nat} {pc : AppPc} (happ : s'.app = Function.update s.app t pc)
    (hcaller : s'.conn.caller = s.conn.caller) (hthread : s'.conn.thread = s.conn.thread)
    (hpc : pc.inConn = false) : Calling s' := by
  refine hs.frame hcaller (fun h => hthread ▸ hs.joining h) fun u hu => ?_
  rw [happ] at hu ⊢
  by_cases hut : u = t
  · rw [hut, Function.update_self, hpc] at hu
    cases hu
  · rw [Function.update_of_ne hut]

/-- The thread that has `g_mutex` makes a step in the connection, and nobody else is there. -/
theorem Calling.steps (hs : Calling s) (hl : s.Locked) {t : Nat} {pc : AppPc} (ht : .gMutex ∈ (s.app t).holds)
    (happ : s'.app = Function.update s.app t pc)
    (hruns : ∀ c hr cmd, pc = .has c (.anpcCreateIpc hr cmd true) → CallerPc.Runs s'.conn.caller)
    (hstops : ∀ b, pc = .stops b true → CallerPc.Stops s'.conn.caller)
    (houtside : ∀ c hr cmd, pc ≠ .wants c (.anpcCreateIpc hr cmd true))
    (hjoining : s'.conn.caller = .joining → s'.conn.thread ≠ none) : Calling s' := by
  have hcases : ∀ u, s'.app u = pc ∨ u ≠ t ∧ s'.app u = s.app u := by
    intro u
    rw [happ]
    by_cases hu : u = t
    · left; rw [hu, Function.update_self]
    · right; exact ⟨hu, Function.update_of_ne hu ..⟩
  have halone : ∀ u, .gMutex ∈ (s'.app u).holds → s'.app u = pc := by
    intro u hu
    rcases hcases u with h | ⟨hut, h⟩
    · exact h
    · exact absurd (gMutex_exclusive hl (h ▸ hu) ht) hut
  refine ⟨fun u c hr cmd h => ?_, fun u b h => ?_, fun u c hr cmd h => ?_, hjoining⟩
  · exact hruns c hr cmd ((halone u (by rw [h]; simp [AppPc.holds, Piece.mutex])).symm.trans h)
  · exact hstops b ((halone u (by rw [h]; simp [AppPc.holds])).symm.trans h)
  · rcases hcases u with hu | ⟨-, hu⟩
    · exact houtside c hr cmd (hu.symm.trans h)
    · exact hs.outside u c hr cmd (hu.symm.trans h)

theorem afterService_inConn (env : AppEnv) (c : SpiCall) (hr : HResult) :
    (Threads.afterService A api env c hr).inConn = false := by
  unfold Threads.afterService
  split
  · rfl
  · split <;> rfl

theorem afterRun_inConn (c : SpiCall) (hr : HResult) (cmd : List UInt8) (r : Int) :
    (Threads.afterRun c hr cmd r).inConn = false := by
  unfold Threads.afterRun
  split <;> rfl

theorem afterSend_inConn (c : SpiCall) (hr : HResult) (r : Int) : (Threads.afterSend api c hr r).inConn = false := by
  unfold Threads.afterSend
  split
  · rfl
  · split <;> rfl

theorem awaits_inConn {pc pc' : AppPc} {k : Mutex} (h : pc.awaits = some (k, pc')) (ho : pc.inConn = false) :
    pc'.inConn = false := by
  cases pc with
  | calls e => cases e <;> cases h <;> rfl
  | wants c p =>
    cases h
    cases p <;> first | rfl | exact ho
  | out | unloads | entered | has | leaves | stops => cases h

theorem Calling.wants_inConn (hs : Calling s) {t : Nat} {pc : AppPc} {k : Mutex}
    (h : (s.app t).awaits = some (k, pc)) : (s.app t).inConn = false := by
  cases hp : s.app t with
  | out | calls | unloads | entered | leaves => rfl
  | has | stops => rw [hp] at h; cases h
  | wants c p =>
    cases p with
    | service | anpcMalloc | anpcSendCmd | anpcCloseIpc => rfl
    | anpcCreateIpc hr cmd inside =>
      cases inside with
      | false => rfl
      | true => exact absurd hp (hs.outside t c hr cmd)

theorem Calling.app (hs : Calling s) (hl : s.Locked) (hf : s.conn.fault = none) {t : Nat} {env : AppEnv}
    {e : List (SpiEvent A api)} (hm : AppMoved api s t env s' e) : Calling s' := by
  cases hm with
  | takes k pc hw hk => exact hs.moves rfl rfl rfl (awaits_inConn hw (hs.wants_inConn hw))
  | unloaded | refused | goesOn | allocated | active | closed | left | stopsNothing => exact hs.moves rfl rfl rfl rfl
  | looked c hp => exact hs.moves rfl rfl rfl (afterService_inConn env c _)
  | unconnected c hr cmd hp hg => exact hs.moves rfl rfl rfl (afterSend_inConn c hr 0)
  | inactive c hr cmd hp hg => exact hs.moves rfl rfl rfl (afterSend_inConn c hr 1)
  | sent c hr cmd hp => exact hs.moves rfl rfl rfl (afterSend_inConn c hr 0)
  | unsent c hr cmd r hp hr0 => exact hs.moves rfl rfl rfl (afterSend_inConn c hr r)
  | runs c hr cmd inside conn e' hp hc hran =>
    have hruns : CallerPc.Runs conn.caller := by
      cases inside with
      | false =>
        have hc : s.conn.run = (conn, e') := Option.some.inj hc
        rcases run_begins s.conn with ⟨h, -⟩ | ⟨-, h⟩ <;> rw [hc] at h
        · rw [hran] at h
          cases h
        · exact .inl h
      | true =>
        rcases callerStep_run (hs.runs t c hr cmd hp) hf hc with ⟨-, r, h⟩ | ⟨-, h, -⟩
        · rw [hran] at h
          cases h
        · exact h
    refine hs.steps hl (by rw [hp]; simp [AppPc.holds, Piece.mutex]) rfl (fun _ _ _ _ => hruns) (by simp) (by simp) ?_
    intro hj
    have hj : conn.caller = .joining := hj
    rcases hruns with h | h | h | h <;> rw [hj] at h <;> cases h
  | ran c hr cmd inside conn e' r hp hc hran =>
    have hconn : conn.caller = .idle ∨ conn = s.conn := by
      cases inside with
      | false =>
        have hc : s.conn.run = (conn, e') := Option.some.inj hc
        rcases run_begins s.conn with ⟨-, h⟩ | ⟨h, -⟩ <;> rw [hc] at h
        · exact .inr h
        · rw [hran] at h
          cases h
      | true =>
        rcases callerStep_run (hs.runs t c hr cmd hp) hf hc with ⟨h, -⟩ | ⟨h, -⟩
        · exact .inl h
        · rw [hran] at h
          cases h
    have hafter := afterRun_inConn c hr cmd r
    refine hs.steps hl (by rw [hp]; simp [AppPc.holds, Piece.mutex]) rfl (fun _ _ _ h => ?_) (fun _ h => ?_)
      (fun _ _ _ h => ?_) fun hj => ?_
    · rw [h] at hafter; cases hafter
    · rw [h] at hafter; cases hafter
    · rw [h] at hafter; cases hafter
    · have hj : conn.caller = .joining := hj
      rcases hconn with h | h
      · rw [hj] at h
        cases h
      · rw [h] at hj
        show conn.thread ≠ none
        rw [h]
        exact hs.joining hj
  | stopped bforce inside conn e' hp hc he =>
    have hconn : conn.caller = .idle ∨ conn = s.conn := by
      cases inside with
      | false =>
        have hc : s.conn.stop bforce = (conn, e') := Option.some.inj hc
        rcases stop_begins s.conn bforce with ⟨-, h⟩ | ⟨h, -⟩ <;> rw [hc] at h
        · exact .inr h
        · exact absurd he h
      | true =>
        rcases callerStep_stop (hs.stops t bforce hp) hf hc with ⟨h, -⟩ | ⟨h, -⟩
        · exact .inl h
        · exact absurd he h
    refine hs.steps hl (by rw [hp]; simp [AppPc.holds]) rfl (by simp) (by simp) (by simp) fun hj => ?_
    have hj : conn.caller = .joining := hj
    rcases hconn with h | h
    · rw [hj] at h
      cases h
    · rw [h] at hj
      show conn.thread ≠ none
      rw [h]
      exact hs.joining hj
  | stops bforce inside conn e' hp hc he =>
    have hstops : CallerPc.Stops conn.caller ∧ (conn.caller = .joining → conn.thread ≠ none) := by
      cases inside with
      | false =>
        have hc : s.conn.stop bforce = (conn, e') := Option.some.inj hc
        rcases stop_begins s.conn bforce with ⟨h, -⟩ | ⟨-, h⟩ <;> rw [hc] at h
        · exact absurd h he
        · have h : conn.caller = .stopping bforce := h
          exact ⟨.inl ⟨bforce, h⟩, fun hj => by rw [h] at hj; cases hj⟩
      | true =>
        rcases callerStep_stop (hs.stops t bforce hp) hf hc with ⟨-, h⟩ | ⟨-, h, -, hj⟩
        · exact absurd h he
        · exact ⟨h, hj⟩
    exact hs.steps hl (by rw [hp]; simp [AppPc.holds]) rfl (by simp) (fun _ _ => hstops.1) (by simp) hstops.2

theorem Calling.step (hs : Calling s) (hl : s.Locked) {i : ThreadsInput} {e : List (SpiEvent A api)}
    (hstep : (threadsMachine A api).step s i = some (s', e)) : Calling s' := by
  obtain ⟨-, hf, hm⟩ := Threads.threads_moved hstep
  cases hm with
  | called t entry hp => exact hs.moves rfl rfl rfl rfl
  | app hm => exact hs.app hl hf hm
  | worked hi hu hc =>
    obtain ⟨hcaller, hj⟩ := worker_caller hi hc
    exact hs.frame hcaller (fun h => hj hs.joining (hcaller.trans h)) fun _ _ => rfl
  | wrote => exact hs.frame rfl hs.joining fun _ _ => rfl
  | read hpc hh hm => cases hm <;> exact hs.frame rfl hs.joining fun _ _ => rfl
  | handled hh hm => cases hm <;> exact hs.frame rfl hs.joining fun _ _ => rfl

theorem calling_new (A : Arch) : Calling (Threads.new A) := by
  refine ⟨?_, ?_, ?_, ?_⟩ <;> simp [Threads.new, CanIPCRun.new]

/-! ## Where nothing goes on -/

/-- A step of a thread of an application in an entry point, or of the worker in a callback that came to `mtx_`. -/
def ThreadsInput.ofCall : ThreadsInput → Bool
  | .app .. | .handler => true
  | _ => false

/-- No thread that is in an entry point goes on, nor does a callback. -/
def Stuck (api : XfsApi) (s : Threads A) : Prop :=
  ∀ i : ThreadsInput, i.ofCall = true → (threadsMachine A api).step s i = none

namespace Threads

/-- The mutex that a thread waits for. -/
def wants (s : Threads A) : Tid → Option Mutex
  | .app t => (s.app t).awaits.map Prod.fst
  | .worker => s.handler.bind fun h => if h.locked then none else some .mtx

end Threads

/-- The order in which a thread takes its mutexes. -/
def Mutex.rank : Mutex → Nat
  | .gMtx => 0
  | .gMutex => 1
  | .mtx => 2

theorem Mutex.rank_lt (k : Mutex) : k.rank < 3 := by cases k <;> decide

/-- A thread waits only for a mutex that comes after those it holds. -/
theorem wants_rank {t : Tid} {k : Mutex} (hw : s.wants t = some k) (l : Mutex) (hl : s.holds t l) : l.rank < k.rank := by
  cases t with
  | app t =>
    obtain ⟨⟨k', pc⟩, ht, rfl⟩ := Option.map_eq_some_iff.1 hw
    simp only [Threads.holds] at hl
    cases hp : s.app t with
    | calls e =>
      rw [hp] at hl
      cases hl
    | wants c p =>
      rw [hp] at hl ht
      cases ht
      have hl : l = .gMtx := List.mem_singleton.1 hl
      rw [hl]
      show Mutex.rank .gMtx < p.mutex.rank
      cases p <;> simp [Piece.mutex, Mutex.rank]
    | out | unloads | entered | has | leaves | stops =>
      rw [hp] at ht
      cases ht
  | worker =>
    obtain ⟨h, hh, hw⟩ := Option.bind_eq_some_iff.1 hw
    obtain ⟨-, h', hh', hlocked⟩ := hl
    rw [hh] at hh'
    cases hh'
    rw [if_pos hlocked] at hw
    cases hw

theorem piece_none (hs : Calling s) {t : Nat} {env : AppEnv} {c : SpiCall} {p : Piece} (hp : s.app t = .has c p)
    (h : s.piece api t env c p = none) : AwaitsWorker s := by
  cases p with
  | service | anpcMalloc | anpcCloseIpc => cases h
  | anpcSendCmd hr cmd pc =>
    cases pc with
    | isActive =>
      simp only [Threads.piece] at h
      split at h
      · cases h
      · split at h <;> cases h
    | uvAsyncSend => cases h
  | anpcCreateIpc hr cmd inside =>
    have h := Option.map_eq_none_iff.1 h
    cases inside with
    | false => cases h
    | true =>
      rcases callerStep_runs (hs.runs t c hr cmd hp) with ⟨conn, e, hc⟩ | ⟨hb, hst⟩
      · rw [if_pos rfl, hc] at h
        cases h
      · exact .connection t c hr cmd hp hb hst

theorem stopStep_none (hs : Calling s) {t : Nat} {bforce inside : Bool} (hp : s.app t = .stops bforce inside)
    (h : (s.stopStep t bforce inside : Option (Threads A × List (SpiEvent A api))) = none) : AwaitsWorker s := by
  unfold Threads.stopStep at h
  split at h
  · cases h
  have h := Option.map_eq_none_iff.1 h
  cases inside with
  | false => cases h
  | true =>
    rcases callerStep_stops (hs.stops t bforce hp) hs.joining with ⟨conn, e, hc⟩ | ⟨hj, w, hw, hpc⟩
    · rw [if_pos rfl, hc] at h
      cases h
    · exact .ending t w bforce hp hj hw hpc

/-- A thread that waits for no mutex goes on, unless it waits for the worker. -/
theorem appStep_none (hs : Calling s) {t : Nat} {env : AppEnv} (hw : (s.app t).awaits = none)
    (h : s.appStep api t env = none) : s.app t = .out ∨ AwaitsWorker s := by
  unfold Threads.appStep at h
  rw [hw] at h
  simp only at h
  cases hp : s.app t with
  | out => exact .inl rfl
  | calls e => rw [hp] at hw; cases e <;> cases hw
  | wants c p => rw [hp] at hw; cases hw
  | unloads => rw [hp] at h; cases h
  | leaves c hr => rw [hp] at h; cases h
  | entered c =>
    rw [hp] at h
    simp only at h
    split at h <;> cases h
  | has c p =>
    rw [hp] at h
    exact .inr (piece_none hs hp h)
  | stops bforce inside =>
    rw [hp] at h
    exact .inr (stopStep_none hs hp h)

/-- A thread that waits for a mutex gets it where it is free. -/
theorem appStep_takes {t : Nat} {env : AppEnv} {k : Mutex} (hw : s.wants (.app t) = some k) (hk : s.owner k = none) :
    s.appStep api t env ≠ none := by
  obtain ⟨⟨k', pc⟩, ht, rfl⟩ := Option.map_eq_some_iff.1 hw
  unfold Threads.appStep
  rw [ht]
  simp only [hk, if_true]
  exact Option.some_ne_none _

theorem handlerStep_takes {h : Handler A} (hl : h.locked = true ∨ s.owner .mtx = none) : s.handlerStep api h ≠ none := by
  unfold Threads.handlerStep
  simp only
  split
  · rename_i hf
    rcases hl with hl | hl
    · rw [hf] at hl
      cases hl
    · rw [if_pos hl]
      exact Option.some_ne_none _
  · split
    · exact Option.some_ne_none _
    · split <;> exact Option.some_ne_none _

section Stuck

variable (hf : s.globals.fault = none) (hcf : s.conn.fault = none)
include hf hcf

theorem Stuck.app (h : Stuck api s) (t : Nat) (env : AppEnv) : s.appStep api t env = none := by
  have := h (.app t env) rfl
  simpa [threadsMachine, Threads.step, hf, hcf] using this

theorem Stuck.handler {h' : Handler A} (h : Stuck api s) (hh : s.handler = some h') : s.handlerStep api h' = none := by
  have := h .handler rfl
  simpa [threadsMachine, Threads.step, hf, hcf, hh] using this

/-- `mtx_` is held over one access to the registry only. -/
theorem Stuck.mtx_free (h : Stuck api s) (hl : s.Locked) : s.owner .mtx = none := by
  by_contra hne
  obtain ⟨t, ht⟩ := Option.ne_none_iff_exists'.1 hne
  have hheld := (hl .mtx t).1 ht
  cases t with
  | worker =>
    obtain ⟨-, h', hh, hlocked⟩ := hheld
    exact handlerStep_takes (.inl hlocked) (h.handler hf hcf hh)
  | app t =>
    simp only [Threads.holds] at hheld
    have hstep := h.app hf hcf t ⟨0, 0, false, 0⟩
    unfold Threads.appStep at hstep
    cases hp : s.app t with
    | has c p =>
      rw [hp] at hheld hstep
      cases p with
      | service => cases hstep
      | anpcCreateIpc | anpcMalloc | anpcSendCmd | anpcCloseIpc => simp [AppPc.holds, Piece.mutex] at hheld
    | out | calls | unloads | entered | wants | leaves | stops => rw [hp] at hheld; simp [AppPc.holds] at hheld

/-- Where nothing goes on no callback is under way, and either no thread is in an entry point or the one with `g_mutex`
waits for the worker. -/
theorem Stuck.cases (h : Stuck api s) (hl : s.Locked) (hc : Calling s) :
    s.handler = none ∧ (AwaitsWorker s ∨ ∀ t, s.app t = .out) := by
  have hmtx := h.mtx_free hf hcf hl
  have hhandler : s.handler = none := by
    by_contra hne
    obtain ⟨h', hh⟩ := Option.ne_none_iff_exists'.1 hne
    exact handlerStep_takes (.inr hmtx) (h.handler hf hcf hh)
  refine ⟨hhandler, ?_⟩
  have hworker : s.wants .worker = none := by simp [Threads.wants, hhandler]
  by_cases hw : ∃ t, (s.app t).awaits ≠ none
  · obtain ⟨t, ht⟩ := hw
    obtain ⟨⟨k, pc⟩, ht⟩ := Option.ne_none_iff_exists'.1 ht
    have hwants : s.wants (.app t) = some k := by simp [Threads.wants, ht]
    rcases Held.exists_moves hl Mutex.rank Mutex.rank_lt (fun _ _ hw => wants_rank hw) hwants with
      ⟨u, l, hu, hfree⟩ | ⟨u, l, hheld, hu⟩
    · cases u with
      | worker => rw [hworker] at hu; cases hu
      | app u => exact absurd (h.app hf hcf u ⟨0, 0, false, 0⟩) (appStep_takes hu hfree)
    · cases u with
      | worker =>
        obtain ⟨-, h', hh, -⟩ := hheld
        rw [hhandler] at hh
        cases hh
      | app u =>
        rcases appStep_none hc (Option.map_eq_none_iff.1 hu) (h.app hf hcf u ⟨0, 0, false, 0⟩) with hout | ha
        · simp [Threads.holds, hout, AppPc.holds] at hheld
        · exact .inl ha
  · push Not at hw
    by_cases ha : AwaitsWorker s
    · exact .inl ha
    · right
      intro t
      exact (appStep_none hc (hw t) (h.app hf hcf t ⟨0, 0, false, 0⟩)).resolve_right ha

end Stuck

/-! ## The steps that are left -/

/-- A bound on the steps that a thread still makes from a piece on, with what `CanIPC::run` needs. -/
def Piece.weight (caller : Nat) : Piece → Nat
  | .anpcCloseIpc _ => 2
  | .anpcSendCmd _ _ .uvAsyncSend => 4
  | .anpcSendCmd _ _ .isActive => 5
  | .anpcMalloc _ _ => 7
  | .anpcCreateIpc _ _ true => 9 + caller
  | .anpcCreateIpc _ _ false => 14
  | .service => 16

def AppPc.weight (caller : Nat) : AppPc → Nat
  | .out => 0
  | .leaves _ _ | .unloads => 1
  | .has _ p => p.weight caller
  | .wants _ p => p.weight caller + 1
  | .entered _ => 18
  | .calls (.spi _) => 19
  | .calls .wfpUnloadService => 2
  | .stops _ true => 1 + caller
  | .stops _ false => 6
  | .calls (.anpcStop _) => 7

namespace Threads

def weight (s : Threads A) (t : Nat) : Nat := (s.app t).weight (callerWeight s.conn)

/-- The steps that are left of a callback. -/
def handlerWeight (s : Threads A) : Nat :=
  if s.globals.fault ≠ none then 0 else
  match s.handler with
  | none => 0
  | some h => if h.locked then 1 else 2

end Threads

theorem weight_outside {pc : AppPc} (h : pc.inConn = false) (m n : Nat) : pc.weight m = pc.weight n := by
  have hpiece : ∀ p : Piece, (∀ hr cmd, p ≠ .anpcCreateIpc hr cmd true) → p.weight m = p.weight n := by
    intro p hp
    cases p with
    | service | anpcMalloc | anpcCloseIpc => rfl
    | anpcSendCmd hr cmd pc => cases pc <;> rfl
    | anpcCreateIpc hr cmd inside =>
      cases inside with
      | false => rfl
      | true => exact absurd rfl (hp hr cmd)
  cases pc with
  | out | unloads | entered | leaves => rfl
  | calls e => cases e <;> rfl
  | has c p =>
    exact hpiece p fun hr cmd hp => by subst hp; cases h
  | wants c p =>
    exact congrArg (· + 1) (hpiece p fun hr cmd hp => by subst hp; cases h)
  | stops b inside =>
    cases inside with
    | false => rfl
    | true => cases h

/-- Every place in an entry point leaves something to do. -/
theorem out_of_weight {pc : AppPc} {n : Nat} (h : pc.weight n = 0) : pc = .out := by
  cases pc with
  | out => rfl
  | calls e => cases e <;> cases h
  | unloads | entered | wants | leaves => cases h
  | has c p =>
    cases p with
    | service | anpcMalloc | anpcCloseIpc => cases h
    | anpcSendCmd hr cmd pc => cases pc <;> cases h
    | anpcCreateIpc hr cmd inside => cases inside <;> simp [AppPc.weight, Piece.weight] at h
  | stops b inside => cases inside <;> simp [AppPc.weight] at h

theorem weight_afterService (env : AppEnv) (c : SpiCall) (hr : HResult) (n : Nat) :
    (Threads.afterService A api env c hr).weight n ≤ 15 := by
  unfold Threads.afterService
  split
  · simp [AppPc.weight]
  · split <;> simp [AppPc.weight, Piece.weight]

theorem weight_afterRun (c : SpiCall) (hr : HResult) (cmd : List UInt8) (r : Int) (n : Nat) :
    (Threads.afterRun c hr cmd r).weight n ≤ 8 := by
  unfold Threads.afterRun
  split <;> simp [AppPc.weight, Piece.weight]

theorem weight_afterSend (c : SpiCall) (hr : HResult) (r : Int) (n : Nat) :
    (Threads.afterSend api c hr r).weight n ≤ 3 := by
  unfold Threads.afterSend
  split
  · simp [AppPc.weight]
  · split <;> simp [AppPc.weight, Piece.weight]

theorem weight_awaits {pc pc' : AppPc} {k : Mutex} (h : pc.awaits = some (k, pc')) (n : Nat) :
    pc'.weight n < pc.weight n := by
  cases pc with
  | calls e => cases e <;> cases h <;> simp [AppPc.weight]
  | wants c p =>
    cases h
    exact Nat.lt_succ_self _
  | out | unloads | entered | has | leaves | stops => cases h

/-- What `AppMoved` does to the thread: it stands somewhere else, with less to do. -/
theorem weight_moved (hs : Calling s) (hf : s.conn.fault = none) {t : Nat} {env : AppEnv}
    {e : List (SpiEvent A api)} (hm : AppMoved api s t env s' e) : s'.weight t < s.weight t := by
  have hself : ∀ (s₀ : Threads A) (pc : AppPc), (s₀.setApp t pc).weight t = pc.weight (callerWeight s₀.conn) := by
    intro s₀ pc
    simp [Threads.weight, Threads.setApp]
  have hlt : ∀ {pc : AppPc} {n : Nat}, s.app t = pc → n < pc.weight (callerWeight s.conn) → n < s.weight t := by
    intro pc n hp h
    rw [Threads.weight, hp]
    exact h
  cases hm with
  | takes k pc hw hk =>
    rw [hself]
    exact weight_awaits hw _
  | unloaded hp | refused c hp | goesOn c hp | allocated c hr cmd hp | active c hr cmd hp | closed c hr hp
  | left c hr hp =>
    rw [hself]
    refine hlt hp ?_
    simp [AppPc.weight, Piece.weight]
  | stopsNothing b inside hp hg =>
    rw [hself]
    refine hlt hp ?_
    cases inside <;> simp [AppPc.weight]
  | looked c hp =>
    rw [hself]
    refine hlt hp (lt_of_le_of_lt (weight_afterService env c _ _) ?_)
    simp [AppPc.weight, Piece.weight]
  | unconnected c hr cmd hp hg | inactive c hr cmd hp hg | sent c hr cmd hp | unsent c hr cmd r hp =>
    rw [hself]
    refine hlt hp (lt_of_le_of_lt (weight_afterSend c hr _ _) ?_)
    simp [AppPc.weight, Piece.weight]
  | ran c hr cmd inside conn e' r hp hc hran =>
    rw [hself]
    refine hlt hp (lt_of_le_of_lt (weight_afterRun c hr cmd r _) ?_)
    cases inside <;> simp [AppPc.weight, Piece.weight]
    omega
  | runs c hr cmd inside conn e' hp hc hran =>
    rw [hself]
    refine hlt hp ?_
    cases inside with
    | false =>
      have := callerWeight_le conn
      simp only [AppPc.weight, Piece.weight]
      show 9 + callerWeight conn < 14
      omega
    | true =>
      rcases callerStep_run (hs.runs t c hr cmd hp) hf hc with ⟨-, r, h⟩ | ⟨-, -, -, h⟩
      · rw [hran] at h
        cases h
      · exact Nat.add_lt_add_left h 9
  | stopped b inside conn e' hp hc he =>
    rw [hself]
    refine hlt hp ?_
    cases inside <;> simp [AppPc.weight]
  | stops b inside conn e' hp hc he =>
    rw [hself]
    refine hlt hp ?_
    cases inside with
    | false =>
      have := callerWeight_le conn
      simp only [AppPc.weight]
      show 1 + callerWeight conn < 6
      omega
    | true =>
      rcases callerStep_stop (hs.stops t b hp) hf hc with ⟨-, h⟩ | ⟨-, -, h, -⟩
      · exact absurd h he
      · exact Nat.add_lt_add_left h 1

/-- The other threads have as much to do as before. -/
theorem weight_others (hs : Calling s) (hl : s.Locked) {t u : Nat} {env : AppEnv} {e : List (SpiEvent A api)}
    (hm : AppMoved api s t env s' e) (hu : u ≠ t) : s'.weight u = s.weight u := by
  have hsame : ∀ (s₀ : Threads A) (pc : AppPc), s₀.app = s.app → s₀.conn = s.conn →
      (s₀.setApp t pc).weight u = s.weight u := by
    intro s₀ pc happ hconn
    simp [Threads.weight, Threads.setApp, Function.update_of_ne hu, happ, hconn]
  -- with `g_mutex` at `t` no other thread is in `run` or `stop`
  have hout : .gMutex ∈ (s.app t).holds → (s.app u).inConn = false := by
    intro ht
    by_contra hin
    refine hu (gMutex_exclusive hl ?_ ht)
    cases hp : s.app u with
    | out | calls | unloads | entered | leaves => rw [hp] at hin; exact absurd rfl hin
    | stops => simp [AppPc.holds]
    | has c p =>
      rw [hp] at hin
      cases p with
      | anpcCreateIpc => simp [AppPc.holds, Piece.mutex]
      | service | anpcMalloc | anpcSendCmd | anpcCloseIpc => exact absurd rfl hin
    | wants c p =>
      rw [hp] at hin
      cases p with
      | anpcCreateIpc hr cmd inside =>
        cases inside with
        | false => exact absurd rfl hin
        | true => exact absurd hp (hs.outside u c hr cmd)
      | service | anpcMalloc | anpcSendCmd | anpcCloseIpc => exact absurd rfl hin
  have hconn : ∀ (s₀ : Threads A) (pc : AppPc), s₀.app = s.app → .gMutex ∈ (s.app t).holds →
      (s₀.setApp t pc).weight u = s.weight u := by
    intro s₀ pc happ ht
    simp only [Threads.weight, Threads.setApp, Function.update_of_ne hu, happ]
    exact weight_outside (hout ht) _ _
  cases hm with
  | takes | unloaded | refused | goesOn | looked | allocated | unconnected | inactive | active | sent | unsent | closed
  | left | stopsNothing => exact hsame _ _ rfl rfl
  | runs c hr cmd inside conn e' hp | ran c hr cmd inside conn e' r hp =>
    exact hconn _ _ rfl (by rw [hp]; simp [AppPc.holds, Piece.mutex])
  | stopped b inside conn e' hp | stops b inside conn e' hp =>
    exact hconn _ _ rfl (by rw [hp]; simp [AppPc.holds])

theorem handlerWeight_app {t : Nat} {env : AppEnv} {e : List (SpiEvent A api)} (hm : AppMoved api s t env s' e) :
    s'.handlerWeight = s.handlerWeight := by
  cases hm <;> rfl

theorem handlerWeight_handled {h : Handler A} (hh : s.handler = some h) (hf : s.globals.fault = none)
    {e : List (SpiEvent A api)} (hm : HandlerMoved api s h s' e) : s'.handlerWeight < s.handlerWeight := by
  cases hm with
  | takes hl ho => simp [Threads.handlerWeight, Threads.take, hf, hh, hl]
  | closes hl hclass => simp [Threads.handlerWeight, Threads.setGlobals, Threads.give, hf, hh, hl]
  | throws f hl hclass he => simp [Threads.handlerWeight, Threads.setGlobals, hf, hh, hl]
  | sends posts hl hclass he => simp [Threads.handlerWeight, Threads.give, hf, hh, hl]

/-- Of the threads, those from `n` on are in no entry point. -/
def Below (n : Nat) (s : Threads A) : Prop := ∀ t, n ≤ t → s.app t = .out

/-- The steps that are left of all that is under way. -/
def left (n : Nat) (s : Threads A) : Nat := (∑ t ∈ Finset.range n, s.weight t) + s.handlerWeight

/-- A step of what is under way leaves less of it. -/
theorem left_lt {n : Nat} (hs : Calling s) (hl : s.Locked) (hn : Below n s) {i : ThreadsInput} (hi : i.ofCall = true)
    {e : List (SpiEvent A api)} (hstep : (threadsMachine A api).step s i = some (s', e)) :
    Below n s' ∧ left n s' < left n s := by
  obtain ⟨hf, hcf, hm⟩ := Threads.threads_moved hstep
  cases hm with
  | called | worked | wrote | read => cases hi
  | handled hh hm =>
    have hlt := handlerWeight_handled hh hf hm
    have happ : s'.app = s.app := by cases hm <;> rfl
    have hconn : s'.conn = s.conn := by cases hm <;> rfl
    refine ⟨fun t ht => (congrFun happ t).trans (hn t ht), ?_⟩
    have hw : ∀ t, s'.weight t = s.weight t := fun t => by unfold Threads.weight; rw [happ, hconn]
    unfold left
    simp only [hw]
    omega
  | @app t env _ _ hm =>
    have hself := weight_moved hs hcf hm
    have hother := fun u (hu : u ≠ t) => weight_others hs hl hm hu
    have hlt : t < n := by
      by_contra hge
      have hzero : s.weight t = 0 := by
        rw [Threads.weight, hn t (by omega)]
        rfl
      omega
    constructor
    · intro u hu
      have hne : u ≠ t := by omega
      have hzero := (hother u hne).trans (by rw [Threads.weight, hn u hu]; rfl : s.weight u = 0)
      exact out_of_weight hzero
    · unfold left
      rw [handlerWeight_app hm]
      refine Nat.add_lt_add_right (Finset.sum_lt_sum (fun u _ => ?_) ⟨t, Finset.mem_range.2 hlt, hself⟩) _
      by_cases hu : u = t
      · rw [hu]
        exact hself.le
      · exact (hother u hu).le

/-! ## Runs -/

/-- What holds in every run of the threads: the mutexes have their owners, the connection its caller, and finitely many
threads are in an entry point. -/
structure Running (s : Threads A) : Prop where
  locked : s.Locked
  calling : Calling s
  below : ∃ n, Below n s

theorem Running.step (hs : Running s) {i : ThreadsInput} {e : List (SpiEvent A api)}
    (hstep : (threadsMachine A api).step s i = some (s', e)) : Running s' := by
  refine ⟨hs.locked.step hstep, hs.calling.step hs.locked hstep, ?_⟩
  obtain ⟨n, hn⟩ := hs.below
  by_cases hi : i.ofCall = true
  · exact ⟨n, (left_lt hs.calling hs.locked hn hi hstep).1⟩
  obtain ⟨-, -, hm⟩ := Threads.threads_moved hstep
  cases hm with
  | app | handled => exact absurd rfl hi
  | worked | wrote => exact ⟨n, hn⟩
  | read hpc hh hm => cases hm <;> exact ⟨n, hn⟩
  | called t entry hp =>
    refine ⟨max n (t + 1), fun u hu => ?_⟩
    have hne : u ≠ t := by omega
    simp only [Threads.setApp, Function.update_of_ne hne]
    exact hn u (by omega)

theorem running_new (A : Arch) : Running (Threads.new A) :=
  ⟨Threads.locked_new A, calling_new A, 0, fun _ _ => rfl⟩

theorem running_run {is : List ThreadsInput} {s s' : Threads A} {es : List (SpiEvent A api)} (hs : Running s)
    (hr : (threadsMachine A api).run s is = some (s', es)) : Running s' :=
  Machine.run_always (I := fun _ s => Running s) (fun _ _ _ _ _ hi hs => hi.step hs) hs hr

/-- A run of what is under way is no longer than what was left of it. -/
theorem length_le_left {n : Nat} {js : List ThreadsInput} {t : Threads A} {es : List (SpiEvent A api)}
    (hs : Running s) (hn : Below n s) (hj : ∀ j ∈ js, ThreadsInput.ofCall j = true)
    (hr : (threadsMachine A api).run s js = some (t, es)) : js.length ≤ left n s := by
  obtain ⟨-, hle⟩ := Machine.run_measure (M := threadsMachine A api) (I := fun s => Running s ∧ Below n s)
    (w := ThreadsInput.ofCall) (m := left n)
    (by
      rintro s j t e ⟨hs, hn⟩ hj hstep
      obtain ⟨hn', hlt⟩ := left_lt hs.calling hs.locked hn hj hstep
      rw [if_pos hj]
      exact ⟨⟨hs.step hstep, hn'⟩, by omega⟩)
    ⟨hs, hn⟩ hj hr
  rw [List.countP_eq_length.2 hj] at hle
  omega

/-- In every run: from there on, the steps that the threads in entry points and a callback can make without new calls
and without the worker are bounded, in whatever order they are made. Where no more can be made and nothing has gone
wrong, every thread has returned, or the one that has `g_mutex` waits for the worker, which no mutex keeps from
any step. -/
theorem calls_return {is : List ThreadsInput} {s : Threads A} {es : List (SpiEvent A api)}
    (hr : (threadsMachine A api).run (.new A) is = some (s, es)) :
    ∃ n, ∀ js t es', (∀ j ∈ js, ThreadsInput.ofCall j = true) → (threadsMachine A api).run s js = some (t, es') →
      js.length ≤ n ∧ (Stuck api t → t.globals.fault = none → t.conn.fault = none →
        (t.handler = none ∧ ∀ u, t.app u = .out) ∨
        (AwaitsWorker t ∧ ∀ i, ofWorker i = true →
          ((threadsMachine A api).step t (.worker i)).isSome = (connectMachine.step t.conn i).isSome)) := by
  have hs := running_run (running_new A) hr
  obtain ⟨n, hn⟩ := hs.below
  refine ⟨left n s, fun js t es' hj hjr => ⟨?_, fun hstuck hf hcf => ?_⟩⟩
  · exact length_le_left hs hn hj hjr
  · have ht := running_run hs hjr
    obtain ⟨hh, ha | hout⟩ := hstuck.cases hf hcf ht.locked ht.calling
    · refine .inr ⟨ha, fun i hi => ?_⟩
      simp [threadsMachine, Threads.step, hf, hcf, hi, hh]
    · exact .inl ⟨hh, hout⟩

/-- An Open and a GetInfo of two threads, and an `anpc_stop` of a third, all under way. -/
theorem three_calls_return : ∃ s es,
    (threadsMachine .x86 .documented).run (.new .x86) [.call 0 (.spi openCall), .call 1 (.spi (.wfpGetInfo 1 301 0 5 2)),
      .app 0 ⟨0, 0, true, 0⟩, .call 2 (.anpcStop false)] = some (s, es) ∧
    ∃ n, ∀ js t es', (∀ j ∈ js, ThreadsInput.ofCall j = true) →
      (threadsMachine .x86 .documented).run s js = some (t, es') →
      js.length ≤ n ∧ (Stuck .documented t → t.globals.fault = none → t.conn.fault = none →
        (t.handler = none ∧ ∀ u, t.app u = .out) ∨
        (AwaitsWorker t ∧ ∀ i, ofWorker i = true →
          ((threadsMachine .x86 .documented).step t (.worker i)).isSome = (connectMachine.step t.conn i).isSome)) := by
  have hany : ((threadsMachine .x86 .documented).run (.new .x86) [.call 0 (.spi openCall),
      .call 1 (.spi (.wfpGetInfo 1 301 0 5 2)), .app 0 ⟨0, 0, true, 0⟩, .call 2 (.anpcStop false)]).any
      (fun _ => true) = true := by decide +kernel
  obtain ⟨⟨s, es⟩, hr, -⟩ := (Option.any_eq_true _ _).1 hany
  exact ⟨s, es, hr, calls_return hr⟩

end AnXfs.System
