/-
The session table over sequences of executed commands. An abstract counter of each service's open
sessions goes up with an Open and down with a Close; the table follows it exactly on the sequences
that contain none of the four types whose slots hold an open commander without being Open.
-/
import AnXfs.Run.Machine
import AnXfs.Server.Commander

namespace AnXfs.Server

open AnXfs.Pack AnXfs.Run

variable {A : Arch} {api : XfsApi}

/-! ## Executing a sequence -/

/-- One command executed: the session table before and after. -/
structure Execution (A : Arch) where
  cmd : AnCmd A
  before : List HService
  after : List HService

/-- `cmd_handler` from start to end, on one command after the other; a call that does not return is refused. -/
def xfsMachine (A : Arch) (api : XfsApi) : Machine (CanXfs A api) (AnCmd A × AnSystemtime) (Execution A) where
  step x i :=
    match cmdHandler x i.1 none none i.2 with
    | .error _ => none
    | .ok (x', _) => some (x'.pauseItemCheck i.1.eType, [⟨i.1, x.serviceTable, x'.serviceTable⟩])

/-- The four types that the constructor of `CanXfs` gives an open commander although they open nothing. -/
def Misrouted (m : AnCmd A) : Prop :=
  m.eType = AnWfpType.wfpCancelAsyncRequest.code ∨ m.eType = AnWfpType.wfpLock.code ∨
    m.eType = AnWfpType.wfpSetTraceLevel.code ∨ m.eType = AnWfpType.wfpUnlock.code

instance (m : AnCmd A) : Decidable (Misrouted m) := by unfold Misrouted; infer_instance

/-- One command's effect on the number of open sessions of `h`. -/
def countSession (h : HService) (n : Nat) (m : AnCmd A) : Nat :=
  if m.base.hService = h then
    if m.eType = AnWfpType.wfpOpen.code then n + 1
    else if m.eType = AnWfpType.wfpClose.code then n - 1
    else n
  else n

/-- The open sessions of `h` after a sequence of commands. -/
def openSessions (h : HService) (ms : List (AnCmd A)) : Nat := ms.foldl (countSession h) 0

/-- The table counts the open sessions, and only Opens and Closes change it. -/
def CountsSessions (ms : List (AnCmd A)) (x : CanXfs A api) (es : List (Execution A)) : Prop :=
  (∀ h, x.serviceTable.count h = openSessions h ms) ∧
    ∀ e ∈ es, e.cmd.eType ≠ AnWfpType.wfpOpen.code → e.cmd.eType ≠ AnWfpType.wfpClose.code → e.after = e.before

/-! ## One command -/

theorem xfsMachine_step {x x' : CanXfs A api} {i : AnCmd A × AnSystemtime} {es : List (Execution A)}
    (h : (xfsMachine A api).step x i = some (x', es)) :
    ∃ t, i.1.eType = AnWfpType.code t ∧ (∃ c, commander t = some c) ∧
      x'.serviceTable = sessionStep t i.1.base.hService x.serviceTable ∧
      es = [⟨i.1, x.serviceTable, x'.serviceTable⟩] := by
  simp only [xfsMachine] at h
  split at h
  · cases h
  rename_i y n hy
  obtain ⟨t, c, ht, hc, rfl, rfl⟩ := cmdHandler_ok hy
  cases h
  refine ⟨t, ht, ⟨c, hc⟩, ?_, ?_⟩
  · rw [pauseItemCheck_serviceTable]; rfl
  · rw [pauseItemCheck_serviceTable]

/-- A type that is routed to its own commander: Open and Close count, the others keep the table. -/
theorem sessionStep_routed {t : AnWfpType} {m : AnCmd A} (ht : m.eType = t.code) (hm : ¬ Misrouted m) (h : HService)
    (table : List HService) :
    (sessionStep t m.base.hService table).count h = countSession h (table.count h) m ∧
      (m.eType ≠ AnWfpType.wfpOpen.code → m.eType ≠ AnWfpType.wfpClose.code →
        sessionStep t m.base.hService table = table) := by
  unfold countSession
  cases t
  case wfpCancelAsyncRequest | wfpLock | wfpSetTraceLevel | wfpUnlock =>
    exact absurd ht fun ht => hm (by unfold Misrouted; rw [ht]; decide)
  case wfpOpen =>
    refine ⟨?_, fun hne => absurd ht hne⟩
    simp only [sessionStep, commander, List.count_append, List.count_singleton, ht, beq_iff_eq, if_true]
    split <;> rfl
  case wfpClose =>
    refine ⟨?_, fun _ hne => absurd ht hne⟩
    have hne : ¬ AnWfpType.wfpClose.code = AnWfpType.wfpOpen.code := by decide
    simp only [sessionStep, commander, List.count_erase, ht, hne, beq_iff_eq, if_true, if_false]
    split <;> rfl
  all_goals
    refine ⟨?_, fun _ _ => rfl⟩
    have ho : ¬ m.eType = AnWfpType.wfpOpen.code := by rw [ht]; decide
    have hc : ¬ m.eType = AnWfpType.wfpClose.code := by rw [ht]; decide
    rw [if_neg ho, if_neg hc, ite_self]
    rfl

/-- A misrouted command leaves its service in the table. -/
theorem sessionStep_misrouted {t : AnWfpType} {m : AnCmd A} (ht : m.eType = t.code) (hm : Misrouted m)
    (table : List HService) : sessionStep t m.base.hService table = table ++ [m.base.hService] := by
  unfold Misrouted at hm
  rw [ht] at hm
  rcases hm with hm | hm | hm | hm <;> · rw [AnWfpType.code_injective hm]; rfl

/-! ## All sequences -/

theorem countsSessions_of_routed : ∀ (is : List (AnCmd A × AnSystemtime)) (x x' : CanXfs A api)
    (es : List (Execution A)) (n : HService → Nat), (∀ h, x.serviceTable.count h = n h) →
    (∀ i ∈ is, ¬ Misrouted i.1) → (xfsMachine A api).run x is = some (x', es) →
    (∀ h, x'.serviceTable.count h = (is.map Prod.fst).foldl (countSession h) (n h)) ∧
      ∀ e ∈ es, e.cmd.eType ≠ AnWfpType.wfpOpen.code → e.cmd.eType ≠ AnWfpType.wfpClose.code → e.after = e.before
  | [], x, x', es, n, hn, _, hr => by
    cases hr
    exact ⟨hn, fun e he => by cases he⟩
  | i :: is, x, x', es, n, hn, hm, hr => by
    obtain ⟨y, e, es', hs, hr', rfl⟩ := Machine.run_cons hr
    obtain ⟨t, ht, -, hy, rfl⟩ := xfsMachine_step hs
    have hstep := fun h => sessionStep_routed ht (hm i (List.mem_cons_self ..)) h x.serviceTable
    have hcount : ∀ h, y.serviceTable.count h = countSession h (n h) i.1 := by
      intro h
      rw [hy, (hstep h).1, hn h]
    obtain ⟨ih1, ih2⟩ := countsSessions_of_routed is y x' es' _ hcount
      (fun j hj => hm j (List.mem_cons_of_mem _ hj)) hr'
    refine ⟨ih1, fun e he ho hc => ?_⟩
    rcases List.mem_cons.1 he with rfl | he
    · show y.serviceTable = x.serviceTable
      rw [hy]; exact (hstep 0).2 ho hc
    · exact ih2 e he ho hc

/-- Every command of a sequence has its entry in the history. -/
theorem execution_of_mem : ∀ (is : List (AnCmd A × AnSystemtime)) (x x' : CanXfs A api) (es : List (Execution A)),
    (xfsMachine A api).run x is = some (x', es) → ∀ i ∈ is, ∃ e ∈ es, e.cmd = i.1 ∧
      ∃ t, i.1.eType = AnWfpType.code t ∧ e.after = sessionStep t i.1.base.hService e.before
  | [], _, _, _, _, i, hi => by cases hi
  | j :: is, x, x', es, hr, i, hi => by
    obtain ⟨y, e, es', hs, hr', rfl⟩ := Machine.run_cons hr
    obtain ⟨t, ht, -, hy, rfl⟩ := xfsMachine_step hs
    rcases List.mem_cons.1 hi with rfl | hi
    · exact ⟨_, List.mem_cons_self .., rfl, t, ht, hy⟩
    · obtain ⟨e, he, h⟩ := execution_of_mem is y x' es' hr' i hi
      exact ⟨e, List.mem_cons_of_mem _ he, h⟩

/-- For every sequence of commands that `cmd_handler` executes on a fresh proxy: the table counts the
open sessions of every service, and only Opens and Closes change it, if and only if the sequence
contains no Cancel, Lock, SetTraceLevel or Unlock. -/
theorem countsSessions_iff {caps : Held A (AnXfsCaps.codec A api)} {status : Held A (AnXfsStatus.codec A api)}
    {is : List (AnCmd A × AnSystemtime)} {x : CanXfs A api} {es : List (Execution A)}
    (hr : (xfsMachine A api).run (CanXfs.new caps status) is = some (x, es)) :
    CountsSessions (is.map Prod.fst) x es ↔ ∀ i ∈ is, ¬ Misrouted i.1 := by
  constructor
  · rintro ⟨-, hkeep⟩ i hi hm
    obtain ⟨e, he, hcmd, t, ht, hafter⟩ := execution_of_mem is _ x es hr i hi
    have hopen : e.cmd.eType ≠ AnWfpType.wfpOpen.code ∧ e.cmd.eType ≠ AnWfpType.wfpClose.code := by
      rw [hcmd]
      rcases hm with hm | hm | hm | hm <;> rw [hm] <;> decide
    have hsame := hkeep e he hopen.1 hopen.2
    rw [sessionStep_misrouted ht hm, hsame] at hafter
    have hlen := congrArg List.length hafter
    rw [List.length_append, List.length_singleton] at hlen
    omega
  · intro hm
    exact countsSessions_of_routed is _ x es (fun _ => 0) (fun _ => rfl) hm hr

/-- An Open, an Execute and a Close of service 1. -/
def openExecuteClose : List (AnCmd .x86 × AnSystemtime) :=
  [(openCmd 1 9, midnight), (.wfpExecute (AnWfpExecute.new _ 0 1 1302 (StdString.empty _) 0 5 10), midnight),
    (closeCmd 1 11, midnight)]

theorem countsSessions_openExecuteClose : ∃ x es,
    (xfsMachine .x86 .documented).run .blank openExecuteClose = some (x, es) ∧
      CountsSessions (openExecuteClose.map Prod.fst) x es := by
  obtain ⟨x, es, hr, -⟩ : ∃ x es, (xfsMachine .x86 .documented).run .blank openExecuteClose = some (x, es) ∧
      es.length = 3 := Machine.run_any (by decide +kernel)
  exact ⟨x, es, hr, (countsSessions_iff hr).2 (by decide +kernel)⟩

/-- A Lock of service 1, which was never opened. -/
def lockAlone : List (AnCmd .x86 × AnSystemtime) := [(.wfpLock (AnWfpLock.new _ 0 1 0 5 9), midnight)]

theorem lock_opens_session : ¬ ∀ x es, (xfsMachine .x86 .documented).run .blank lockAlone = some (x, es) →
    ∀ h, x.serviceTable.count h = openSessions h (lockAlone.map Prod.fst) := by
  intro h
  obtain ⟨x, es, hr, hx⟩ : ∃ x es, (xfsMachine .x86 .documented).run .blank lockAlone = some (x, es) ∧
      x.serviceTable.count 1 ≠ openSessions 1 (lockAlone.map Prod.fst) := Machine.run_any (by decide +kernel)
  exact hx (h x es hr 1)

end AnXfs.Server
