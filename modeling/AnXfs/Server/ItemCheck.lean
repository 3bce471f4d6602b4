/-
The semaphore of the item check (`an_sem.h`) and the thread that waits on it (`item_pass_check.cpp`), with every
locked call, every read of a field outside the lock and every test of `m_stop_flag` a step of its own. `notify_one`
wants both ids, the fast path of `wait` wants a service and its predicate a request id (`oneCondition_iff` says
when these are one condition, and when `stop` is final), and `item_pass_check` reads the ids when the lock has long
been released (`itemEvents_executed` says when what it reads is an Execute's).
-/
import AnXfs.Server.Queue

namespace AnXfs.Server

open AnXfs.Pack AnXfs.Run

variable {A : Arch} {api : XfsApi}

/-! ## The semaphore -/

/-- Who sleeps on `condition`: nobody, or the one thread that calls `wait`, with or without a `notify_one` for it. -/
inductive Waiter where
  | nobody
  | asleep
  | notified
  deriving DecidableEq

/-- `an_semaphore`. -/
structure AnSemaphore where
  curReqid : RequestId
  curService : HService
  condition : Waiter
  deriving DecidableEq

namespace AnSemaphore

/-- `an_semaphore()`. -/
def new : AnSemaphore := ⟨0, 0, .nobody⟩

variable (s : AnSemaphore)

def notifyOne : AnSemaphore :=
  match s.condition with
  | .nobody => s
  | .asleep | .notified => { s with condition := .notified }

def signal (service : HService) (reqid : RequestId) : AnSemaphore :=
  let s := { s with curService := service, curReqid := reqid }
  if s.curReqid ≠ 0 ∧ s.curService ≠ 0 then s.notifyOne else s

def reset : AnSemaphore := { s with curService := 0, curReqid := 0 }

/-- `condition.wait` where it has the lock: it returns if its predicate holds, and goes to sleep otherwise. -/
def testPredicate : AnSemaphore × Bool :=
  if 0 < s.curReqid then ({ s with condition := .nobody }, true) else ({ s with condition := .asleep }, false)

/-- `wait` from where it has the lock to where it returns or goes to sleep. A sleeping thread that was not notified
only wakes up spuriously. -/
def wait (spurious : Bool) : Option (AnSemaphore × Bool) :=
  match s.condition with
  | .nobody => some (if s.curService = 0 then s.testPredicate else (s, true))
  | .asleep => if spurious then some s.testPredicate else none
  | .notified => some s.testPredicate

/-- Whether a thread that stands at `wait` so is released when it has the lock. -/
def releases (c : Waiter) : Bool := (({ s with condition := c } : AnSemaphore).wait false).any (·.2)

end AnSemaphore

/-! ## The thread -/

/-- Where the thread stands in `CItem_pass_check::run`: at the condition of the loop, in `wait` (`condition` says
whether it sleeps), at the second test of the flag, and in `item_pass_check` before its two reads. -/
inductive CheckPc where
  | stopTest
  | wait
  | stopTestAgain
  | itemPassCheck
  | readReqid (service : HService)
  | exited
  deriving DecidableEq

/-- `CItem_pass_check` and its thread. `stopping` counts the calls of `stop` that have set the flag and not yet
signalled; `stopped` says that a call of it has returned. -/
structure CItemPassCheck extends AnSemaphore where
  mStopFlag : Bool
  pc : CheckPc
  stopping : Nat
  stopped : Bool
  deriving DecidableEq

/-- `CItem_pass_check` after `start`. -/
def CItemPassCheck.new : CItemPassCheck := { AnSemaphore.new with
  mStopFlag := false
  pc := .stopTest
  stopping := 0
  stopped := false }

inductive CheckEvent where
  | signalled (service : HService) (reqid : RequestId)
  | reset
  | posted (service : HService) (reqid : RequestId)
  deriving DecidableEq

/-- The calls that other threads make, `stop` in its two parts, and a step of the thread. -/
inductive CheckInput where
  | signal (service : HService) (reqid : RequestId)
  | reset
  | stop
  | stopSignal
  | thread (spurious : Bool)
  deriving DecidableEq

namespace CItemPassCheck

variable (s : CItemPassCheck)

/-- A step of `run`, with `item_pass_check` for its `fn`. -/
def run (spurious : Bool) : Option (CItemPassCheck × List CheckEvent) :=
  match s.pc with
  | .stopTest => some ({ s with pc := if s.mStopFlag then .exited else .wait }, [])
  | .wait =>
    (s.wait spurious).map fun (m, returned) =>
      ({ s with toAnSemaphore := m, pc := if returned then .stopTestAgain else .wait }, [])
  | .stopTestAgain => some ({ s with pc := if s.mStopFlag then .exited else .itemPassCheck }, [])
  | .itemPassCheck => some ({ s with pc := .readReqid s.curService }, [])
  | .readReqid service => some ({ s with pc := .stopTest }, [.posted service s.curReqid])
  | .exited => none

def step : CheckInput → Option (CItemPassCheck × List CheckEvent)
  | .signal service reqid =>
    some ({ s with toAnSemaphore := s.signal service reqid }, [.signalled service reqid])
  | .reset => some ({ s with toAnSemaphore := s.reset }, [.reset])
  | .stop => some ({ s with mStopFlag := true, stopping := s.stopping + 1 }, [])
  | .stopSignal =>
    if s.stopping = 0 then none
    else some ({ s with toAnSemaphore := s.signal 1 1, stopping := s.stopping - 1, stopped := true },
      [.signalled 1 1])
  | .thread spurious => s.run spurious

end CItemPassCheck

def checkMachine : Machine CItemPassCheck CheckInput CheckEvent where
  step := CItemPassCheck.step

/-! ## What `wait` and `signal` do -/

section Semaphore

variable (s : AnSemaphore)

theorem reqid_pos {r : RequestId} : 0 < r ↔ r ≠ 0 := BitVec.pos_iff_ne_zero r

/-- `condition.wait` returns exactly if there is a request id. -/
theorem testPredicate_returns : s.testPredicate.2 = true ↔ s.curReqid ≠ 0 := by
  unfold AnSemaphore.testPredicate
  rw [← reqid_pos]
  split
  · rename_i hr
    exact iff_of_true rfl hr
  · rename_i hr
    exact iff_of_false Bool.false_ne_true hr

theorem releases_entering : s.releases .nobody = true ↔ s.curService ≠ 0 ∨ s.curReqid ≠ 0 := by
  unfold AnSemaphore.releases AnSemaphore.wait
  simp only [Option.any_some]
  split
  · rename_i hs
    rw [testPredicate_returns, or_iff_right (not_not.2 hs)]
  · rename_i hs
    exact iff_of_true rfl (.inl hs)

theorem releases_notified : s.releases .notified = true ↔ s.curReqid ≠ 0 :=
  testPredicate_returns { s with condition := .notified }

@[simp] theorem notifyOne_curReqid : s.notifyOne.curReqid = s.curReqid := by
  unfold AnSemaphore.notifyOne
  split <;> rfl

@[simp] theorem notifyOne_curService : s.notifyOne.curService = s.curService := by
  unfold AnSemaphore.notifyOne
  split <;> rfl

theorem notifyOne_nobody : s.notifyOne.condition = .nobody ↔ s.condition = .nobody := by
  unfold AnSemaphore.notifyOne
  cases hc : s.condition <;> simp [hc]

theorem notifyOne_asleep : s.notifyOne.condition ≠ .asleep := by
  unfold AnSemaphore.notifyOne
  cases hc : s.condition <;> simp [hc]

variable (service : HService) (reqid : RequestId)

theorem signal_eq : s.signal service reqid =
    if reqid ≠ 0 ∧ service ≠ 0 then ({ s with curService := service, curReqid := reqid } : AnSemaphore).notifyOne
    else { s with curService := service, curReqid := reqid } := rfl

@[simp] theorem signal_curReqid : (s.signal service reqid).curReqid = reqid := by
  rw [signal_eq]
  split
  · exact notifyOne_curReqid _
  · rfl

@[simp] theorem signal_curService : (s.signal service reqid).curService = service := by
  rw [signal_eq]
  split
  · exact notifyOne_curService _
  · rfl

/-- A `signal` neither puts a thread to sleep nor gives it the lock. -/
theorem signal_nobody : (s.signal service reqid).condition = .nobody ↔ s.condition = .nobody := by
  rw [signal_eq]
  split
  · exact notifyOne_nobody _
  · exact Iff.rfl

variable {service reqid} in
/-- Behind a `signal` with both ids nobody sleeps without having been notified. -/
theorem signal_asleep (hs : service ≠ 0) (hr : reqid ≠ 0) : (s.signal service reqid).condition ≠ .asleep := by
  rw [signal_eq, if_pos ⟨hr, hs⟩]
  exact notifyOne_asleep _

/-- The outcomes of `wait` for a thread that has the lock: it is released, or sleeps where there is no request id. -/
theorem wait_cases {s t : AnSemaphore} {spurious returned : Bool} (h : s.wait spurious = some (t, returned)) :
    t.curService = s.curService ∧ t.curReqid = s.curReqid ∧
      (returned = true ∧ t.condition = .nobody ∧ (s.curService ≠ 0 ∨ s.curReqid ≠ 0) ∨
        returned = false ∧ t.condition = .asleep ∧ s.curReqid = 0 ∧ (s.condition = .nobody → s.curService = 0)) := by
  have htest : ∀ p, s.testPredicate = p → (s.condition = .nobody → s.curService = 0) →
      p.1.curService = s.curService ∧ p.1.curReqid = s.curReqid ∧
        (p.2 = true ∧ p.1.condition = .nobody ∧ (s.curService ≠ 0 ∨ s.curReqid ≠ 0) ∨
          p.2 = false ∧ p.1.condition = .asleep ∧ s.curReqid = 0 ∧ (s.condition = .nobody → s.curService = 0)) := by
    rintro p rfl hservice
    unfold AnSemaphore.testPredicate
    split
    · rename_i hr
      exact ⟨rfl, rfl, .inl ⟨rfl, rfl, .inr (reqid_pos.1 hr)⟩⟩
    · rename_i hr
      exact ⟨rfl, rfl, .inr ⟨rfl, rfl, not_not.1 (mt reqid_pos.2 hr), hservice⟩⟩
  unfold AnSemaphore.wait at h
  split at h
  · rename_i hc
    split at h
    · rename_i hs
      exact htest _ (Option.some.inj h) fun _ => hs
    · rename_i hs
      cases h
      exact ⟨rfl, rfl, .inl ⟨rfl, hc, .inl hs⟩⟩
  · rename_i hc
    split at h
    · exact htest _ (Option.some.inj h) fun hn => by rw [hc] at hn; cases hn
    · cases h
  · rename_i hc
    exact htest _ (Option.some.inj h) fun hn => by rw [hc] at hn; cases hn

end Semaphore

/-- What a step of the thread does: it takes a step in `wait`, or goes on without touching the semaphore, and posts
when it has read the request id. -/
theorem run_cases {s t : CItemPassCheck} {spurious : Bool} {e : List CheckEvent} (h : s.run spurious = some (t, e)) :
    (s.pc = .wait ∧ e = [] ∧ ∃ m returned, s.wait spurious = some (m, returned) ∧
      t = { s with toAnSemaphore := m, pc := if returned then .stopTestAgain else .wait }) ∨
    (s.pc ≠ .wait ∧ (∃ pc, t = { s with pc := pc }) ∧
      (e = [] ∧ (∀ service, s.pc ≠ .readReqid service) ∨
        ∃ service, s.pc = .readReqid service ∧ e = [.posted service s.curReqid])) := by
  unfold CItemPassCheck.run at h
  split at h
  · rename_i hpc
    cases h
    exact .inr ⟨by simp [hpc], ⟨_, rfl⟩, .inl ⟨rfl, by simp [hpc]⟩⟩
  · rename_i hpc
    obtain ⟨⟨m, returned⟩, hw, h⟩ := Option.map_eq_some_iff.1 h
    cases h
    exact .inl ⟨hpc, rfl, m, returned, hw, rfl⟩
  · rename_i hpc
    cases h
    exact .inr ⟨by simp [hpc], ⟨_, rfl⟩, .inl ⟨rfl, by simp [hpc]⟩⟩
  · rename_i hpc
    cases h
    exact .inr ⟨by simp [hpc], ⟨_, rfl⟩, .inl ⟨rfl, by simp [hpc]⟩⟩
  · rename_i service hpc
    cases h
    exact .inr ⟨by simp [hpc], ⟨_, rfl⟩, .inr ⟨service, hpc, rfl⟩⟩
  · cases h

/-! ## One condition, and a final stop -/

/-- The last ids signalled since the last reset. -/
def lastSignalled (h : List CheckEvent) : Option (HService × RequestId) :=
  h.foldl (fun l x => match x with
    | .signalled service reqid => some (service, reqid)
    | .reset => none
    | .posted .. => l) none

/-- Both ids of the last signal since the last reset are there. -/
def Signalled (h : List CheckEvent) : Prop := ∃ p ∈ lastSignalled h, p.1 ≠ 0 ∧ p.2 ≠ 0

/-- The condition on which `wait` returns is the same for a thread that enters it and for one that sleeps in it, and
who sleeps when it comes true has been notified. -/
structure OneCondition (h : List CheckEvent) (s : AnSemaphore) : Prop where
  entering : s.releases .nobody = true ↔ Signalled h
  blocked : s.releases .notified = true ↔ Signalled h
  woken : Signalled h → s.condition ≠ .asleep

/-- Once `stop` has returned, the thread does not sleep in `wait` on a condition that does not hold. -/
def StopFinal (s : CItemPassCheck) : Prop :=
  s.stopped = true → s.condition ≠ .nobody → s.releases .notified = true

/-- A `signal` has both ids or none; and once `stop` has returned, nobody takes its request id away from a thread
that sleeps, or both ids from a thread that is about to enter `wait`. -/
def Agrees (s : CItemPassCheck) : CheckInput → Prop
  | .signal service reqid =>
    (service = 0 ↔ reqid = 0) ∧ (s.stopped = true → s.condition ≠ .nobody → reqid ≠ 0)
  | .reset => s.stopped = true → s.condition = .nobody
  | .thread _ => s.stopped = true → s.pc = .wait → s.condition = .nobody → ¬ (s.curService = 0 ∧ s.curReqid = 0)
  | .stop | .stopSignal => True

instance (s : CItemPassCheck) : DecidablePred (Agrees s) := by
  intro i
  cases i <;> unfold Agrees <;> infer_instance

theorem lastSignalled_append (h : List CheckEvent) (x : CheckEvent) : lastSignalled (h ++ [x]) = match x with
    | .signalled service reqid => some (service, reqid)
    | .reset => none
    | .posted .. => lastSignalled h := by
  unfold lastSignalled
  rw [List.foldl_append]
  cases x <;> rfl

/-- The ids that the semaphore holds are those of the last signal since the last reset, and only a thread in `wait`
sleeps. -/
structure LastHeld (h : List CheckEvent) (s : CItemPassCheck) : Prop where
  last : (s.curService, s.curReqid) = (lastSignalled h).getD (0, 0)
  waiting : s.condition ≠ .nobody → s.pc = .wait

/-- The semaphore holds both ids or none; who sleeps without having been notified waits for them, and no thread does
once `stop` has returned. -/
structure Agreeing (s : CItemPassCheck) : Prop where
  both : s.curService = 0 ↔ s.curReqid = 0
  asleep : s.condition = .asleep → s.curReqid = 0
  final : s.stopped = true → s.condition ≠ .nobody → s.curReqid ≠ 0

theorem signalled_iff {h : List CheckEvent} {s : CItemPassCheck} (hs : LastHeld h s) :
    Signalled h ↔ s.curService ≠ 0 ∧ s.curReqid ≠ 0 := by
  have hlast := hs.last
  unfold Signalled
  cases hl : lastSignalled h with
  | none =>
    rw [hl] at hlast
    obtain ⟨hservice, -⟩ := Prod.mk.inj hlast
    simp [hservice]
  | some p =>
    rw [hl] at hlast
    obtain ⟨hservice, hreqid⟩ := Prod.mk.inj hlast
    simp [hservice, hreqid]

/-- The three conditions of the semaphore are one, and `stop` is final, exactly if the ids agree. -/
theorem agreeing_iff {h : List CheckEvent} {s : CItemPassCheck} (hs : LastHeld h s) :
    OneCondition h s.toAnSemaphore ∧ StopFinal s ↔ Agreeing s := by
  have hsig := signalled_iff hs
  have henter := releases_entering s.toAnSemaphore
  have hwake := releases_notified s.toAnSemaphore
  constructor
  · rintro ⟨⟨hentering, hblocked, hwoken⟩, hfinal⟩
    rw [hsig] at hentering hblocked hwoken
    refine ⟨⟨fun h0 => ?_, fun h0 => ?_⟩, fun hc => ?_, fun hst hc => hwake.1 (hfinal hst hc)⟩
    · by_contra hr
      exact (hblocked.1 (hwake.2 hr)).1 h0
    · by_contra hr
      exact (hentering.1 (henter.2 (.inl hr))).2 h0
    · by_contra hr
      exact hwoken (hblocked.1 (hwake.2 hr)) hc
  · rintro ⟨hboth, hasleep, hfinal⟩
    refine ⟨⟨?_, ?_, ?_⟩, fun hst hc => hwake.2 (hfinal hst hc)⟩
    · rw [henter, hsig, Ne, hboth]
      exact or_self_iff.trans (and_self_iff).symm
    · rw [hwake, hsig, Ne, Ne, hboth]
      exact (and_self_iff).symm
    · rw [hsig]
      rintro ⟨-, hr⟩ hc
      exact hr (hasleep hc)

theorem held_step {h e : List CheckEvent} {s t : CItemPassCheck} {i : CheckInput} (hs : LastHeld h s)
    (ht : checkMachine.step s i = some (t, e)) : LastHeld (h ++ e) t := by
  cases i with
  | signal service reqid =>
    cases ht
    refine ⟨?_, fun hc => hs.waiting (mt (signal_nobody _ service reqid).2 hc)⟩
    rw [lastSignalled_append]
    exact Prod.ext (signal_curService ..) (signal_curReqid ..)
  | reset =>
    cases ht
    refine ⟨?_, hs.waiting⟩
    rw [lastSignalled_append]
    rfl
  | stop =>
    cases ht
    rw [List.append_nil]
    exact ⟨hs.last, hs.waiting⟩
  | stopSignal =>
    obtain ⟨-, heq⟩ := Option.ite_none_left_eq_some.1 ht
    cases heq
    refine ⟨?_, fun hc => hs.waiting (mt (signal_nobody _ 1 1).2 hc)⟩
    rw [lastSignalled_append]
    exact Prod.ext (signal_curService ..) (signal_curReqid ..)
  | thread spurious =>
    rcases run_cases ht with ⟨-, rfl, m, returned, hw, rfl⟩ | ⟨hpc, ⟨pc, rfl⟩, he⟩
    · obtain ⟨hservice, hreqid, hcases⟩ := wait_cases hw
      rw [List.append_nil]
      refine ⟨?_, fun hn => ?_⟩
      · rw [← hs.last]
        exact Prod.ext hservice hreqid
      · rcases hcases with ⟨-, hc, -⟩ | ⟨rfl, -⟩
        · exact absurd hc hn
        · rfl
    · refine ⟨?_, fun hc => absurd (hs.waiting hc) hpc⟩
      rcases he with ⟨rfl, -⟩ | ⟨service, -, rfl⟩
      · rw [List.append_nil]
        exact hs.last
      · rw [lastSignalled_append]
        exact hs.last

/-- A step in `wait` agrees as long as it does not put a thread to sleep that nobody can wake up any more. -/
theorem agreeing_wait {s : CItemPassCheck} {m : AnSemaphore} {spurious returned : Bool} (ha : Agreeing s)
    (hw : s.wait spurious = some (m, returned)) :
    Agreeing { s with toAnSemaphore := m, pc := if returned then .stopTestAgain else .wait } ↔
      (s.stopped = true → s.condition = .nobody → ¬ (s.curService = 0 ∧ s.curReqid = 0)) := by
  obtain ⟨hservice, hreqid, hcases⟩ := wait_cases hw
  constructor
  · rintro ⟨-, -, hfinal⟩ hst hc ⟨h0, h1⟩
    rcases hcases with ⟨rfl, -, h | h⟩ | ⟨-, hsleep, hr, -⟩
    · exact h h0
    · exact h h1
    · exact hfinal hst (by rw [hsleep]; decide) (hreqid.trans hr)
  · intro hg
    refine ⟨by rw [hservice, hreqid]; exact ha.both, fun hc => ?_, fun hst hc => ?_⟩
    · rcases hcases with ⟨-, hn, -⟩ | ⟨-, -, hr, -⟩
      · rw [hn] at hc
        cases hc
      · exact hreqid.trans hr
    · rcases hcases with ⟨-, hn, -⟩ | ⟨-, -, hr, hs0⟩
      · exact absurd hn hc
      · -- it has just gone to sleep, or has slept with its request id there
        by_cases hn : s.condition = .nobody
        · exact absurd ⟨hs0 hn, hr⟩ (hg hst hn)
        · exact absurd hr (ha.final hst hn)

/-- What a step leaves agrees exactly if the step does. -/
theorem agreeing_step {s t : CItemPassCheck} {i : CheckInput} {e : List CheckEvent} (ha : Agreeing s)
    (ht : checkMachine.step s i = some (t, e)) : Agreeing t ↔ Agrees s i := by
  cases i with
  | signal service reqid =>
    cases ht
    constructor
    · rintro ⟨hboth, -, hfinal⟩
      refine ⟨?_, fun hst hc => ?_⟩
      · simpa using hboth
      · simpa using hfinal hst (mt (signal_nobody _ service reqid).1 hc)
    · rintro ⟨hboth, hfinal⟩
      refine ⟨by simpa using hboth, fun hc => ?_, fun hst hc => ?_⟩
      · by_contra hr
        rw [signal_curReqid] at hr
        exact signal_asleep _ (mt hboth.1 hr) hr hc
      · rw [signal_curReqid]
        exact hfinal hst (mt (signal_nobody _ service reqid).2 hc)
  | reset =>
    cases ht
    constructor
    · intro hr hst
      by_contra hc
      exact hr.final hst hc rfl
    · intro hg
      exact ⟨iff_of_true rfl rfl, fun _ => rfl, fun hst hc => absurd (hg hst) hc⟩
  | stop =>
    cases ht
    exact iff_of_true ⟨ha.both, ha.asleep, ha.final⟩ trivial
  | stopSignal =>
    obtain ⟨-, heq⟩ := Option.ite_none_left_eq_some.1 ht
    cases heq
    have hone : (1 : RequestId) ≠ 0 := by decide
    refine iff_of_true ⟨?_, fun hc => ?_, fun _ _ => ?_⟩ trivial
    · rw [signal_curService, signal_curReqid]
      decide
    · exact absurd hc (signal_asleep _ (by decide) hone)
    · rw [signal_curReqid]
      exact hone
  | thread spurious =>
    rcases run_cases ht with ⟨hpc, rfl, m, returned, hw, rfl⟩ | ⟨hpc, ⟨pc, rfl⟩, -⟩
    · exact (agreeing_wait ha hw).trans ⟨fun hg hst _ => hg hst, fun hg hst => hg hst hpc⟩
    · exact iff_of_true ⟨ha.both, ha.asleep, ha.final⟩ fun _ hw => absurd hw hpc

/-- For every interleaving of signals of any ids, resets and calls of `stop` with the thread: in every state the
thread is released on one condition wherever it stands in `wait`, that both ids of the last signal since the last
reset are there, and it does not sleep without it once `stop` has returned, if and only if every signal has both ids
or none and, once `stop` has returned, nobody takes the request id from a thread that sleeps or both ids from one that
is about to enter `wait`. -/
theorem oneCondition_iff {is : List CheckInput} {s : CItemPassCheck} {es : List CheckEvent}
    (hr : checkMachine.run .new is = some (s, es)) :
    checkMachine.AtEach (fun h _ _ t e _ => OneCondition (h ++ e) t.toAnSemaphore ∧ StopFinal t) .new is ↔
      checkMachine.Meets Agrees .new is := by
  refine Machine.atEach_iff_meets (I := fun h s => LastHeld h s ∧ Agreeing s) ?_ ?_ ?_ hr
  · rintro h s i t e ⟨hs, ha⟩ ht
    rw [agreeing_iff (held_step hs ht)]
    exact agreeing_step ha ht
  · rintro h s i t e ⟨hs, ha⟩ hg ht
    exact ⟨held_step hs ht, (agreeing_step ha ht).2 hg⟩
  · refine ⟨⟨rfl, fun hc => absurd rfl hc⟩, iff_of_true rfl rfl, fun _ => rfl, fun hst => ?_⟩
    cases hst

/-- An Execute is signalled to the sleeping thread and reset when it has been posted, and `stop` ends the thread. -/
def executeThenStop : List CheckInput :=
  [.thread false, .thread false, .signal 1 7, .thread false, .thread false, .thread false, .thread false, .reset,
    .thread false, .thread false, .stop, .stopSignal, .thread false, .thread false]

theorem executeThenStop_oneCondition : ∃ s es, checkMachine.run .new executeThenStop = some (s, es) ∧
    s.pc = .exited ∧ .posted 1 7 ∈ es ∧
      checkMachine.AtEach (fun h _ _ t e _ => OneCondition (h ++ e) t.toAnSemaphore ∧ StopFinal t)
        .new executeThenStop := by
  obtain ⟨s, es, hr, hpc, hes⟩ : ∃ s es, checkMachine.run .new executeThenStop = some (s, es) ∧
      s.pc = .exited ∧ .posted 1 7 ∈ es := Machine.run_any (by decide)
  exact ⟨s, es, hr, hpc, hes, (oneCondition_iff hr).2 (by decide)⟩

/-- The reset of an Execute comes after `stop`, and before the thread that it has notified runs. -/
theorem stop_erased : ¬ checkMachine.AtEach (fun h _ _ t e _ => OneCondition (h ++ e) t.toAnSemaphore ∧ StopFinal t)
    .new ([.thread false, .thread false, .stop, .stopSignal] ++ .reset :: []) := by
  refine Machine.not_atEach (fun _ _ t _ _ =>
    decide (t.stopped = true ∧ t.condition ≠ .nobody ∧ t.releases .notified = false)) ?_ (by decide)
  rintro _ _ t _ _ hb ⟨-, hfinal⟩
  obtain ⟨hst, hc, hrel⟩ := of_decide_eq_true hb
  rw [hfinal hst hc] at hrel
  cases hrel

end AnXfs.Server
