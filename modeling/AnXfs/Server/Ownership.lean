/-
Whose requests a Cancel hits. The deque holds the commands of every connection, and the walk of a
Cancel compares the service and the request id, which each client chooses for itself; that the entries
know their connection (`m_client`) plays no part. `cancelWalk_eq` says what the walk writes: the
commands that the Cancel names are marked, on whatever connection they came.
-/
import AnXfs.Server.Cancel

namespace AnXfs.Server

open AnXfs.Wire AnXfs.Pack AnXfs.Run

variable {A : Arch} {api : XfsApi}

/-! ## What the walk writes -/

/-- A command after the walk of the Cancel `c`. -/
def mark (c m : AnCmd A) : AnCmd A := if cancels c m then withStatus AnWfpCmdStatus.cmdCancelled.code m else m

theorem cancels_withStatus {c m : AnCmd A} {e : Dword} : cancels c (withStatus e m) ↔ cancels c m := by
  cases m <;> rfl

@[simp] theorem mark_mark (c m : AnCmd A) : mark c (mark c m) = mark c m := by
  unfold mark
  by_cases hc : cancels c m
  · rw [if_pos hc, if_pos (cancels_withStatus.2 hc), (cancelled_withStatus m).withStatus_eq]
  · rw [if_neg hc, if_neg hc]

/-- The Cancel keeps a command's status if and only if it does not name the command, or the command is marked. -/
theorem mark_eStatus_iff {c m : AnCmd A} : (mark c m).base.eStatus = m.base.eStatus ↔ (cancels c m → Cancelled m) := by
  unfold mark
  by_cases hc : cancels c m
  · rw [if_pos hc, cancelled_withStatus m]
    exact ⟨fun h _ => h.symm, fun h => (h hc).symm⟩
  · rw [if_neg hc]
    exact ⟨fun _ h => absurd h hc, fun _ => rfl⟩

theorem cancelEntry_eq {c m : AnCmd A} {heap : Ptr → Option (AnCmd A)} {b : AnBuf} {p : Ptr} (hb : b.mCmd = some p)
    (hm : heap p = some m) : cancelEntry c heap b = .ok (Function.update heap p (some (mark c m))) := by
  unfold cancelEntry mark
  simp only [hb, hm]
  split
  · rfl
  · rw [← hm, Function.update_eq_self]

/-- The walk over live entries marks the commands that they point to, where the Cancel names them, and leaves all
other memory alone. -/
theorem cancelWalk_eq (c : AnCmd A) : ∀ (deque : List AnBuf) (heap : Ptr → Option (AnCmd A)), LiveEntries heap deque →
    ∃ heap', deque.foldlM (cancelEntry c) heap = .ok heap' ∧
      ∀ q, heap' q = if some q ∈ deque.map AnBuf.mCmd then (heap q).map (mark c) else heap q
  | [], heap, _ => ⟨heap, rfl, fun q => by simp⟩
  | b :: rest, heap, hl => by
    obtain ⟨p, m, hb, hm⟩ := hl b (List.mem_cons_self ..)
    have hl' : LiveEntries (Function.update heap p (some (mark c m))) rest := by
      intro d hd
      obtain ⟨q, n, hq, hn⟩ := hl d (List.mem_cons_of_mem _ hd)
      by_cases hqp : q = p
      · exact ⟨p, mark c m, by rw [hq, hqp], Function.update_self ..⟩
      · exact ⟨q, n, hq, by rw [Function.update_of_ne hqp, hn]⟩
    obtain ⟨heap', hw, heq⟩ := cancelWalk_eq c rest _ hl'
    refine ⟨heap', ?_, fun q => ?_⟩
    · rw [List.foldlM_cons, cancelEntry_eq hb hm]
      exact hw
    · rw [heq q]
      simp only [List.map_cons, List.mem_cons, hb, Option.some.injEq]
      by_cases hqp : q = p
      · -- an object that the walk comes to again is marked already
        subst hqp
        simp [hm]
      · simp [hqp]

/-! ## Connections -/

/-- The command that the entry points to has the same status in both. -/
def KeepsStatus (heap heap' : Ptr → Option (AnCmd A)) (b : AnBuf) : Prop :=
  (b.mCmd.bind heap').map (fun m => m.base.eStatus) = (b.mCmd.bind heap).map fun m => m.base.eStatus

/-- Pre-processing the entry leaves the status of every command received on another connection alone. -/
def SparesOthers (heap : Ptr → Option (AnCmd A)) (deque : List AnBuf) (cmd : AnBuf) : Prop :=
  ∀ heap', cmdPreProcessed heap deque cmd = .ok heap' → ∀ b ∈ deque, b.origin ≠ cmd.origin → KeepsStatus heap heap' b

/-- For every deque content and every Cancel: processing it succeeds, and the status of a command received on another
connection is unchanged if and only if the Cancel does not name its service and request, or it is marked already. -/
theorem cancel_spares_unnamed {heap : Ptr → Option (AnCmd A)} {deque : List AnBuf} {cmd : AnBuf} {c : AnCmd A}
    (hl : LiveEntries heap deque) (hc : cmd.mCmd.bind heap = some c) (hcancel : IsCancel c) :
    ∃ heap', cmdPreProcessed heap deque cmd = .ok heap' ∧ ∀ b ∈ deque, b.origin ≠ cmd.origin →
      (KeepsStatus heap heap' b ↔ ∀ m ∈ b.mCmd.bind heap, cancels c m → Cancelled m) := by
  obtain ⟨heap', hw, heq⟩ := cancelWalk_eq c deque heap hl
  refine ⟨heap', ?_, fun b hb _ => ?_⟩
  · obtain ⟨p, hp, hpc⟩ := Option.bind_eq_some_iff.1 hc
    unfold cmdPreProcessed
    simp only [hp, hpc]
    rw [if_pos (show c.eType = _ from hcancel)]
    exact hw
  · obtain ⟨p, m, hp, hm⟩ := hl b hb
    have hp' : some p ∈ deque.map AnBuf.mCmd := by
      rw [← hp]
      exact List.mem_map_of_mem hb
    unfold KeepsStatus
    simp only [hp, Option.bind_some, heq p, if_pos hp', hm, Option.map_some, Option.some.injEq, mark_eStatus_iff,
      Option.mem_def, forall_eq']

/-- The Cancel of one connection, at address 0, before an Open of another, at address 1. -/
def crossed (h : HService) : Ptr → Option (AnCmd .x86)
  | 0 => some (cancelCmd h 0)
  | 1 => some (openCmd 1 9)
  | _ => none

def crossedCancel : AnBuf := ⟨some 0, some 8, some 1⟩

def crossedOpen : AnBuf := ⟨some 1, some 7, some 0⟩

/-- A Cancel for another service spares the Open. -/
theorem crossed_spares : ∃ heap', cmdPreProcessed (crossed 2) [crossedCancel, crossedOpen] crossedCancel = .ok heap' ∧
    KeepsStatus (crossed 2) heap' crossedOpen := by
  have hl : LiveEntries (crossed 2) [crossedCancel, crossedOpen] := by
    rintro b hb
    rcases List.mem_pair.1 hb with rfl | rfl
    · exact ⟨0, cancelCmd 2 0, rfl, rfl⟩
    · exact ⟨1, openCmd 1 9, rfl, rfl⟩
  have hc : crossedCancel.mCmd.bind (crossed 2) = some (cancelCmd 2 0) := rfl
  obtain ⟨heap', hp, hk⟩ := cancel_spares_unnamed hl hc (by decide)
  exact ⟨heap', hp, (hk crossedOpen (by decide) (by decide)).2 (by decide +kernel)⟩

/-- The executor comes to the Cancel of service 1 that the second client has sent: it marks the Open that the first
client has sent after it. -/
theorem cancel_hits_other_client : ∃ s es, (executerMachine .x86 .documented).run (Executer.new .blank)
    ([.push (some 8) (some 1) (cancelCmd 1 0), .push (some 7) (some 0) (openCmd 1 9)] ++ pieces 2) = some (s, es) ∧
    s.pc = .preProcess ∧ ¬ SparesOthers s.heap s.deque s.currentCmd := by
  obtain ⟨s, es, hr, hpc, hany⟩ : ∃ s es, (executerMachine .x86 .documented).run (Executer.new .blank)
      ([.push (some 8) (some 1) (cancelCmd 1 0), .push (some 7) (some 0) (openCmd 1 9)] ++ pieces 2) = some (s, es) ∧
      s.pc = .preProcess ∧ ((cmdPreProcessed s.heap s.deque s.currentCmd).toOption.any fun heap' =>
        s.deque.any fun b => b.origin ≠ s.currentCmd.origin ∧
          ¬ ((b.mCmd.bind heap').map (fun m => m.base.eStatus) = (b.mCmd.bind s.heap).map fun m => m.base.eStatus)) =
          true := Machine.run_any (by decide +kernel)
  refine ⟨s, es, hr, hpc, fun hs => ?_⟩
  obtain ⟨heap', hp, hany⟩ := (Option.any_eq_true _ _).1 hany
  obtain ⟨b, hb, hq⟩ := List.any_eq_true.1 hany
  obtain ⟨ho, hk⟩ := of_decide_eq_true hq
  cases hc : cmdPreProcessed s.heap s.deque s.currentCmd with
  | error f => rw [hc] at hp; cases hp
  | ok heap =>
    rw [hc] at hp
    cases hp
    exact hk (hs _ hc b hb ho)

end AnXfs.Server
