/-
Which notices are flagged for the exit. `an_wfpclose_impl` raises its `_flag` when the session table is
empty after a Close, whether that Close has emptied it or not, and nothing lowers the flag again; the
object is the one for every Close, so that from then on each Close is flagged, whatever sessions are
open. On the sequences in which no Close finds the table empty, and none leaves a session behind once
the flag is up, a notice is flagged exactly when its Close has emptied the table.
-/
import AnXfs.Server.Exit

namespace AnXfs.Server

open AnXfs.Pack AnXfs.Run

variable {A : Arch} {api : XfsApi}

/-- A call of `cmd_handler`. -/
structure Handling (A : Arch) where
  cmd : AnCmd A
  client : Option Addr
  origin : Option ConnId
  now : AnSystemtime

/-- `cmd_handler` from start to end, with the notices that it posts. -/
def postingMachine (A : Arch) (api : XfsApi) : Machine (CanXfs A api) (Handling A) Notice where
  step x i :=
    match cmdHandler x i.cmd i.client i.origin i.now with
    | .error _ => none
    | .ok (x', n) => some (x'.pauseItemCheck i.cmd.eType, [n])

/-- The command is a Close that has taken the table from non-empty to empty. -/
def LastClose (m : AnCmd A) (before after : List HService) : Prop :=
  m.eType = AnWfpType.wfpClose.code ∧ before ≠ [] ∧ after = []

instance (m : AnCmd A) (before after : List HService) : Decidable (LastClose m before after) := by
  unfold LastClose; infer_instance

/-- The notices posted are flagged if and only if the command was the last Close. -/
def FlagsLast (x : CanXfs A api) (i : Handling A) (x' : CanXfs A api) (e : List Notice) : Prop :=
  ∀ n ∈ e, n.notifyExitFlag = true ↔ LastClose i.cmd x.serviceTable x'.serviceTable

/-- A Close finds a session in the table, and leaves none if the flag is up already. -/
def ClosesLast (x : CanXfs A api) (i : Handling A) : Prop :=
  i.cmd.eType = AnWfpType.wfpClose.code →
    x.serviceTable ≠ [] ∧ (x.flag .wfpClose = 1 → x.serviceTable.erase i.cmd.base.hService = [])

instance (x : CanXfs A api) (i : Handling A) : Decidable (ClosesLast x i) := by unfold ClosesLast; infer_instance

/-! ## One command -/

theorem postingMachine_step {x x' : CanXfs A api} {i : Handling A} {e : List Notice}
    (h : (postingMachine A api).step x i = some (x', e)) :
    ∃ t c, i.cmd.eType = AnWfpType.code t ∧ commander t = some c ∧
      x'.serviceTable = sessionStep t i.cmd.base.hService x.serviceTable ∧ x'.flag = (x.after t i.cmd).flag ∧
      e = [replyNotice x t c i.cmd i.client i.origin i.now] := by
  simp only [postingMachine] at h
  split at h
  · cases h
  rename_i y n hy
  obtain ⟨t, c, ht, hc, rfl, rfl⟩ := cmdHandler_ok hy
  cases h
  refine ⟨t, c, ht, hc, ?_, pauseItemCheck_flag _ _, rfl⟩
  rw [pauseItemCheck_serviceTable]
  rfl

theorem onlyCloseFlagged_step {x x' : CanXfs A api} {i : Handling A} {e : List Notice} (hx : OnlyCloseFlagged x)
    (h : (postingMachine A api).step x i = some (x', e)) : OnlyCloseFlagged x' := by
  obtain ⟨t, c, -, -, -, hf, -⟩ := postingMachine_step h
  intro u hu
  rw [hf]
  exact onlyCloseFlagged_after hx t i.cmd u hu

/-- The flag of a Close is up after it when it was before, or when the table is empty. -/
theorem replyNotice_close {x : CanXfs A api} {c : CommanderClass} {m : AnCmd A} {client : Option Addr}
    {origin : Option ConnId} {now : AnSystemtime} :
    (replyNotice x .wfpClose c m client origin now).notifyExitFlag = true ↔
      x.serviceTable.erase m.base.hService = [] ∨ x.flag .wfpClose = 1 := by
  unfold replyNotice CanXfs.after
  by_cases he : x.serviceTable.erase m.base.hService = []
  · simp [commander, sessionStep, he]
  · simp [commander, sessionStep, he]

theorem flagsLast_iff {x x' : CanXfs A api} {i : Handling A} {e : List Notice} (hx : OnlyCloseFlagged x)
    (h : (postingMachine A api).step x i = some (x', e)) : FlagsLast x i x' e ↔ ClosesLast x i := by
  obtain ⟨t, c, ht, hc, htable, -, rfl⟩ := postingMachine_step h
  unfold FlagsLast ClosesLast LastClose
  rw [htable, ht]
  simp only [List.mem_singleton, forall_eq]
  by_cases hcl : t = .wfpClose
  · subst hcl
    rw [replyNotice_close]
    simp only [sessionStep, commander, true_and, true_imp_iff]
    -- an empty table stays empty, and flags the Close
    by_cases hne : x.serviceTable = []
    · simp [hne]
    · by_cases he : x.serviceTable.erase i.cmd.base.hService = [] <;> simp [hne, he]
  · have hcode : t.code ≠ AnWfpType.wfpClose.code := fun hcode => hcl (AnWfpType.code_injective hcode)
    have hflag : (replyNotice x t c i.cmd i.client i.origin i.now).notifyExitFlag ≠ true :=
      fun hf => hcl (replyNotice_flagged hx hf).1
    simp [hcode, hflag]

/-! ## Sequences -/

/-- For every sequence of commands that `cmd_handler` executes from its start on: each notice is flagged if and only
if its command is a Close that has emptied the table, if and only if no Close finds the table empty, and none leaves
a session once one has emptied it. -/
theorem flagsLast_iff_closesLast {caps : Held A (AnXfsCaps.codec A api)} {status : Held A (AnXfsStatus.codec A api)}
    {is : List (Handling A)} {x : CanXfs A api} {es : List Notice}
    (hr : (postingMachine A api).run (.new caps status) is = some (x, es)) :
    (postingMachine A api).AtEach (fun _ x i x' e _ => FlagsLast x i x' e) (.new caps status) is ↔
      (postingMachine A api).Meets ClosesLast (.new caps status) is := by
  refine Machine.atEach_iff_meets (I := fun _ => OnlyCloseFlagged) (fun _ _ _ _ _ hx hs => flagsLast_iff hx hs)
    (fun _ _ _ _ _ hx _ hs => onlyCloseFlagged_step hx hs) ?_ hr
  intro t _
  exact (by decide : (0 : Int) ≠ 1)

/-- A call for a command of one client. -/
def handling (m : AnCmd .x86) : Handling .x86 := ⟨m, some 4, some 0, midnight⟩

/-- Two sessions are opened and closed. -/
def openTwo : List (Handling .x86) := [openCmd 1 1, openCmd 2 2, closeCmd 1 3, closeCmd 2 4].map handling

theorem openTwo_flagsLast : ∃ x es, (postingMachine .x86 .documented).run .blank openTwo = some (x, es) ∧
    es.map Notice.notifyExitFlag = [false, false, false, true] ∧
    (postingMachine .x86 .documented).AtEach (fun _ x i x' e _ => FlagsLast x i x' e) .blank openTwo := by
  obtain ⟨x, es, hr, hf⟩ : ∃ x es, (postingMachine .x86 .documented).run .blank openTwo = some (x, es) ∧
      es.map Notice.notifyExitFlag = [false, false, false, true] := Machine.run_any (by decide +kernel)
  exact ⟨x, es, hr, hf, (flagsLast_iff_closesLast hr).2 (by decide +kernel)⟩

/-- Not every notice of the commands, one more at the end, is flagged as it should be. -/
def FlagsOther (cmds : List (AnCmd .x86)) (m : AnCmd .x86) : Prop :=
  ¬ (postingMachine .x86 .documented).AtEach (fun _ x i x' e _ => FlagsLast x i x' e) .blank
    (cmds.map handling ++ handling m :: [])

theorem flagsOther_of_run {cmds : List (AnCmd .x86)} {m : AnCmd .x86}
    (h : (((postingMachine .x86 .documented).run .blank (cmds.map handling)).any fun p =>
      ((postingMachine .x86 .documented).step p.1 (handling m)).any fun q =>
        ((postingMachine .x86 .documented).run q.1 []).any fun _ =>
          q.2.any Notice.notifyExitFlag && decide (¬ LastClose m p.1.serviceTable q.1.serviceTable)) = true) :
    FlagsOther cmds m := by
  refine Machine.not_atEach (fun _ x x' e _ => e.any Notice.notifyExitFlag &&
    decide (¬ LastClose m x.serviceTable x'.serviceTable)) ?_ h
  intro _ x x' e _ hb hl
  obtain ⟨hf, hne⟩ := Bool.and_eq_true_iff.1 hb
  obtain ⟨n, hn, hnf⟩ := List.any_eq_true.1 hf
  exact of_decide_eq_true hne ((hl n hn).1 hnf)

/-- A Close of a service that nobody has opened; and a Close that leaves a session, after an earlier one has emptied
the table. -/
theorem close_flagged_early : FlagsOther [] (closeCmd 1 1) ∧
    FlagsOther [openCmd 1 1, closeCmd 1 2, openCmd 2 3, openCmd 3 4] (closeCmd 2 5) :=
  ⟨flagsOther_of_run (by decide +kernel), flagsOther_of_run (by decide +kernel)⟩

end AnXfs.Server
