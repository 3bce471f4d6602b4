/-
What a Cancel does to the commands in the deque, and what the mark it leaves does to them. The Cancel
travels through the deque itself, so that its walk finds what was pushed after it, and nothing reads
the status it writes.
-/
import AnXfs.Server.Order

namespace AnXfs.Server

open AnXfs.Wire AnXfs.Pack AnXfs.Run

variable {A : Arch} {api : XfsApi}

/-! ## Marks -/

/-- `eStatus` is `e_an_cmd_cancelled`. -/
def Cancelled (m : AnCmd A) : Prop := m.base.eStatus = AnWfpCmdStatus.cmdCancelled.code

instance (m : AnCmd A) : Decidable (Cancelled m) := by unfold Cancelled; infer_instance

def IsCancel (m : AnCmd A) : Prop := m.eType = AnWfpType.wfpCancelAsyncRequest.code

instance (m : AnCmd A) : Decidable (IsCancel m) := by unfold IsCancel; infer_instance

/-- The command object an entry points to. -/
def Executer.cmdOf (s : Executer A api) (b : AnBuf) : Option (AnCmd A) := b.mCmd.bind s.heap

theorem cmdOf_eq_some {s : Executer A api} {b : AnBuf} {m : AnCmd A} :
    s.cmdOf b = some m ↔ ∃ p, b.mCmd = some p ∧ s.heap p = some m := Option.bind_eq_some_iff

theorem cancelled_withStatus (m : AnCmd A) : Cancelled (withStatus AnWfpCmdStatus.cmdCancelled.code m) := by
  unfold Cancelled withStatus
  rw [AnCmd.base_setBase]

theorem withStatus_self (m : AnCmd A) : withStatus m.base.eStatus m = m := by
  cases m <;> rfl

theorem Cancelled.withStatus_eq {m : AnCmd A} (h : Cancelled m) :
    withStatus AnWfpCmdStatus.cmdCancelled.code m = m := by
  rw [← h, withStatus_self]

/-! ## What the walk writes -/

/-- The command at `p`, if it is still there, is marked. -/
def MarkedAt (heap : Ptr → Option (AnCmd A)) (p : Ptr) : Prop := ∀ m, heap p = some m → Cancelled m

theorem MarkedAt.update {heap : Ptr → Option (AnCmd A)} {p q : Ptr} {m : AnCmd A} (h : MarkedAt heap p)
    (hm : Cancelled m) : MarkedAt (Function.update heap q (some m)) p := by
  intro m' hm'
  by_cases hpq : p = q
  · subst hpq
    rw [Function.update_self] at hm'
    cases hm'
    exact hm
  · rw [Function.update_of_ne hpq] at hm'
    exact h m' hm'

theorem MarkedAt.destroy {heap : Ptr → Option (AnCmd A)} {p q : Ptr} (h : MarkedAt heap p) :
    MarkedAt (Function.update heap q none) p := by
  intro m hm
  by_cases hpq : p = q
  · subst hpq
    rw [Function.update_self] at hm
    cases hm
  · rw [Function.update_of_ne hpq] at hm
    exact h m hm

/-- What one entry of the walk does: nothing, or it marks the command that the Cancel matches. -/
theorem cancelEntry_ok {c : AnCmd A} {heap heap' : Ptr → Option (AnCmd A)} {b : AnBuf}
    (h : cancelEntry c heap b = .ok heap') :
    ∃ q m, b.mCmd = some q ∧ heap q = some m ∧
      (cancels c m ∧ heap' = Function.update heap q (some (withStatus AnWfpCmdStatus.cmdCancelled.code m)) ∨
        ¬ cancels c m ∧ heap' = heap) := by
  unfold cancelEntry at h
  split at h
  · cases h
  rename_i q hq
  split at h
  · cases h
  rename_i m hm
  refine ⟨q, m, hq, hm, ?_⟩
  by_cases hc : cancels c m
  · rw [if_pos hc] at h
    cases h
    exact .inl ⟨hc, rfl⟩
  · rw [if_neg hc] at h
    cases h
    exact .inr ⟨hc, rfl⟩

/-- The walk never takes a mark away. -/
theorem cancelWalk_marked {c : AnCmd A} {p : Ptr} : ∀ {deque : List AnBuf} {heap heap' : Ptr → Option (AnCmd A)},
    MarkedAt heap p → deque.foldlM (cancelEntry c) heap = .ok heap' → MarkedAt heap' p
  | [], heap, heap', hp, h => by cases h; exact hp
  | b :: rest, heap, heap', hp, h => by
    rw [List.foldlM_cons] at h
    cases h₁ : cancelEntry c heap b with
    | error f => rw [h₁] at h; cases h
    | ok heap₁ =>
      rw [h₁] at h
      refine cancelWalk_marked ?_ h
      obtain ⟨q, m, -, -, ⟨-, rfl⟩ | ⟨-, rfl⟩⟩ := cancelEntry_ok h₁
      · exact hp.update (cancelled_withStatus m)
      · exact hp

/-- The entries that the Cancel matches are marked already. -/
def NothingToMark (c : AnCmd A) (heap : Ptr → Option (AnCmd A)) (entries : List AnBuf) : Prop :=
  ∀ b ∈ entries, ∀ m ∈ b.mCmd.bind heap, cancels c m → Cancelled m

instance (c : AnCmd A) (heap : Ptr → Option (AnCmd A)) (entries : List AnBuf) :
    Decidable (NothingToMark c heap entries) := by unfold NothingToMark; infer_instance

theorem cancelWalk_idle {c : AnCmd A} : ∀ {deque : List AnBuf} {heap heap' : Ptr → Option (AnCmd A)},
    NothingToMark c heap deque → deque.foldlM (cancelEntry c) heap = .ok heap' → heap' = heap
  | [], heap, heap', _, h => by cases h; rfl
  | b :: rest, heap, heap', hn, h => by
    rw [List.foldlM_cons] at h
    cases h₁ : cancelEntry c heap b with
    | error f => rw [h₁] at h; cases h
    | ok heap₁ =>
      rw [h₁] at h
      have hsame : heap₁ = heap := by
        obtain ⟨q, m, hq, hm, ⟨hc, rfl⟩ | ⟨-, rfl⟩⟩ := cancelEntry_ok h₁
        · have hcm : Cancelled m := hn b (List.mem_cons_self ..) m (by rw [hq]; exact hm) hc
          rw [hcm.withStatus_eq, ← hm, Function.update_eq_self]
        · rfl
      subst hsame
      exact cancelWalk_idle (fun d hd => hn d (List.mem_cons_of_mem _ hd)) h

/-- What pre-processing an entry does: nothing, or the walk of the Cancel it points to. -/
theorem cmdPreProcessed_ok {heap heap' : Ptr → Option (AnCmd A)} {deque : List AnBuf} {cmd : AnBuf}
    (h : cmdPreProcessed heap deque cmd = .ok heap') :
    heap' = heap ∨ ∃ c, cmd.mCmd.bind heap = some c ∧ IsCancel c ∧ deque.foldlM (cancelEntry c) heap = .ok heap' := by
  unfold cmdPreProcessed at h
  split at h
  · cases h
    exact .inl rfl
  rename_i p hp
  split at h
  · cases h
  rename_i c hc
  split at h
  · rename_i ht
    exact .inr ⟨c, by rw [hp]; exact hc, ht, h⟩
  · cases h
    exact .inl rfl

/-! ## A mark stays until the command is executed -/

/-- Addresses are handed out below `brk`. -/
def Bounded (s : Executer A api) : Prop := ∀ b ∈ s.deque, ∀ p, b.mCmd = some p → p < s.brk

theorem bounded_step {s t : Executer A api} {i : ExecInput A} {e : List (ExecEvent A)} (hb : Bounded s)
    (h : s.step i = some (t, e)) : Bounded t := by
  have hs := (step_stepped h).2
  cases hs with
  | pushed client origin m =>
    intro b hbm p hp
    rcases List.mem_append.1 hbm with hbm | hbm
    · exact Nat.lt_succ_of_lt (hb b hbm p hp)
    · rw [List.mem_singleton.1 hbm] at hp
      cases hp
      exact Nat.lt_succ_self _
  | quiet => exact hb
  | broadcast => exact hb
  | ran now t e hr =>
    cases hr with
    | popped b rest hpc hd =>
      intro d hdm p hp
      exact hb d (by rw [hd]; exact List.mem_cons_of_mem _ hdm) p hp
    | _ => exact hb

/-- The command at `p` is marked, and was so whenever it was executed. -/
structure StaysMarked (p : Ptr) (h : List (ExecEvent A)) (s : Executer A api) : Prop where
  bounded : p < s.brk
  marked : MarkedAt s.heap p
  executed : ∀ b m, (b, m) ∈ executedOf h → b.mCmd = some p → Cancelled m

/-- Events that execute nothing. -/
theorem StaysMarked.quiet {p : Ptr} {h e : List (ExecEvent A)} {s t : Executer A api} (hs : StaysMarked p h s)
    (he : executedOf e = []) (hb : s.brk ≤ t.brk) (hm : MarkedAt t.heap p) : StaysMarked p (h ++ e) t := by
  refine ⟨lt_of_lt_of_le hs.bounded hb, hm, ?_⟩
  rw [executedOf_append, he, List.append_nil]
  exact hs.executed

theorem staysMarked_step {p : Ptr} {h : List (ExecEvent A)} {s t : Executer A api} {i : ExecInput A}
    {e : List (ExecEvent A)} (hs : StaysMarked p h s) (hstep : s.step i = some (t, e)) : StaysMarked p (h ++ e) t := by
  cases (step_stepped hstep).2 with
  | pushed client origin m =>
    refine hs.quiet rfl (Nat.le_succ _) ?_
    intro m' hm'
    -- the new object is not at `p`, which was handed out before
    have hne : p ≠ s.brk := ne_of_lt hs.bounded
    simp only [Executer.pushBackCmdDeque, Function.update_of_ne hne] at hm'
    exact hs.marked m' hm'
  | quiet => exact hs.quiet rfl le_rfl hs.marked
  | broadcast => exact hs.quiet rfl le_rfl hs.marked
  | ran now t e hr =>
    cases hr with
    | preProcessed heap hpc hh =>
      refine hs.quiet rfl le_rfl ?_
      rcases cmdPreProcessed_ok hh with rfl | ⟨c, -, -, hw⟩
      · exact hs.marked
      · exact cancelWalk_marked hs.marked hw
    | handled q m ty c hpc hq hm hty hc =>
      refine ⟨hs.bounded, hs.marked, ?_⟩
      intro b m' hbm hb
      rw [executedOf_append] at hbm
      rcases List.mem_append.1 hbm with hbm | hbm
      · exact hs.executed b m' hbm hb
      · obtain ⟨rfl, rfl⟩ := Prod.mk.inj (List.mem_singleton.1 hbm)
        rw [hq] at hb
        cases hb
        exact hs.marked _ hm
    | destroyed heap hpc hh =>
      refine hs.quiet rfl le_rfl ?_
      rcases hh with ⟨rfl, -⟩ | ⟨q, -, rfl⟩
      · exact hs.marked
      · exact hs.marked.destroy
    | _ => exact hs.quiet rfl le_rfl hs.marked

/-! ## Whom a Cancel marks -/

/-- The push of a Cancel: every waiting command that it matches is marked when it is executed later. -/
def EarlierMarked (s : Executer A api) (i : ExecInput A) (later : List (ExecEvent A)) : Prop :=
  ∀ client origin c, i = .push client origin c → IsCancel c →
    ∀ b ∈ s.waiting, ∀ m ∈ s.cmdOf b, cancels c m → ∀ m', (b, m') ∈ executedOf later → Cancelled m'

/-- The pre-processing of a Cancel: no command pushed after it gets another status. -/
def LaterSpared (before : List (ExecEvent A)) (s : Executer A api) (i : ExecInput A) (t : Executer A api) : Prop :=
  ∀ now, i = .run now → s.pc = .preProcess → ∀ c ∈ s.cmdOf s.currentCmd, IsCancel c →
    ∀ xs c₀ ys, pushedOf before = xs ++ (s.currentCmd, c₀) :: ys → ∀ q ∈ ys,
      (t.cmdOf q.1).map (fun m => m.base.eStatus) = (s.cmdOf q.1).map fun m => m.base.eStatus

/-- Cancels hit the commands pushed before them, and only those. -/
def CancelsEarlier (x : CanXfs A api) (is : List (ExecInput A)) : Prop :=
  (executerMachine A api).AtEach (fun before s i t _ later => EarlierMarked s i later ∧ LaterSpared before s i t)
    (Executer.new x) is

/-- The Cancel that is pushed, or that walks the deque, has nothing to mark there. -/
def CancelIdle (s : Executer A api) : ExecInput A → Prop
  | .push _ _ c => IsCancel c → NothingToMark c s.heap s.waiting
  | .run _ => s.pc = .preProcess → ∀ c ∈ s.cmdOf s.currentCmd, IsCancel c → NothingToMark c s.heap s.deque
  | _ => True

instance (s : Executer A api) (i : ExecInput A) : Decidable (CancelIdle s i) := by
  unfold CancelIdle; split <;> infer_instance

theorem waiting_subset (s : Executer A api) : ∀ b ∈ s.waiting, b ∈ s.deque := by
  intro b hb
  unfold Executer.waiting at hb
  split at hb
  · exact List.mem_of_mem_tail hb
  · exact hb

theorem earlierMarked_of_idle {e later : List (ExecEvent A)} {s t u : Executer A api} {i : ExecInput A}
    {is : List (ExecInput A)} (hb : Bounded s) (hg : CancelIdle s i) (hs : s.step i = some (t, e))
    (hr : (executerMachine A api).run t is = some (u, later)) : EarlierMarked s i later := by
  rintro client origin c rfl hc b hbw m hm hcm m' hm'
  have hmarked : Cancelled m := hg hc b hbw m hm hcm
  obtain ⟨p, hp, hpm⟩ := cmdOf_eq_some.1 hm
  have h₀ : StaysMarked p [] s := by
    refine ⟨hb b (waiting_subset s b hbw) p hp, ?_, by simp [executedOf]⟩
    intro n hn
    rw [hpm] at hn
    cases hn
    exact hmarked
  have h₁ : StaysMarked p ([] ++ e) t := staysMarked_step h₀ hs
  -- from here on the history is that of the rest of the run
  have h₂ : StaysMarked p ([] : List (ExecEvent A)) t := ⟨h₁.bounded, h₁.marked, by simp [executedOf]⟩
  have h₃ : StaysMarked p later u :=
    Machine.run_always (M := executerMachine A api) (fun h s i t e hi hs => staysMarked_step hi hs) h₂ hr
  exact h₃.executed b m' hm' hp

theorem laterSpared_of_idle {h e : List (ExecEvent A)} {s t : Executer A api} {i : ExecInput A}
    (hg : CancelIdle s i) (hs : s.step i = some (t, e)) : LaterSpared h s i t := by
  rintro now rfl hpc c hc hcancel xs c₀ ys - q -
  cases (step_stepped hs).2 with
  | ran _ _ _ hr =>
    cases hr with
    | preProcessed heap _ hh =>
      have hsame : heap = s.heap := by
        rcases cmdPreProcessed_ok hh with h | ⟨c', hc', -, hw⟩
        · exact h
        · have hcc : c = c' := Option.some.inj (hc.symm.trans hc')
          subst hcc
          exact cancelWalk_idle (hg hpc c hc hcancel) hw
      subst hsame
      rfl
    | destroyed _ hpc' => rw [hpc] at hpc'; cases hpc'
    | _ => rfl
  | _ => rfl

/-- In a run in which no Cancel has anything to mark, neither when it is pushed nor when it walks the deque,
Cancels hit the commands pushed before them, and only those. -/
theorem cancels_earlier_of_idle {x : CanXfs A api} {is : List (ExecInput A)}
    (hm : (executerMachine A api).Meets CancelIdle (Executer.new x) is) : CancelsEarlier x is := by
  refine Machine.atEach_of_meets (M := executerMachine A api) (G := CancelIdle) (I := fun _ s => Bounded s)
    (fun h s i t e hb _ hs => bounded_step hb hs) ?_ (fun b hb => by cases hb) hm
  intro h s i t e is v later hb hg hs _ hr
  exact ⟨earlierMarked_of_idle hb hg hs hr, laterSpared_of_idle hg hs⟩

/-- A Cancel of the request `r` of service `h`. -/
def cancelCmd (h : HService) (r : RequestId) : AnCmd .x86 :=
  .wfpCancelAsyncRequest (AnWfpCancelAsyncRequest.new _ 0 h r)

/-- Pieces of `CExecuter::run`. -/
def pieces (n : Nat) : List (ExecInput .x86) := List.replicate n (.run midnight)

/-- An Open waits when a Cancel for another service is pushed; both are executed. -/
def openCancelOther : List (ExecInput .x86) :=
  [.push (some 7) (some 0) (openCmd 1 9), .push (some 8) (some 1) (cancelCmd 2 0)] ++ pieces 14

theorem openCancelOther_cancels_earlier : CancelsEarlier CanXfs.blank openCancelOther :=
  cancels_earlier_of_idle (by decide +kernel)

/-- An Open waits when the Cancel for its service is pushed, and a Close follows: the Open is executed
unmarked, the Close is marked. -/
theorem cancel_hits_later : ¬ CancelsEarlier CanXfs.blank ([.push (some 7) (some 0) (openCmd 1 9)] ++
    .push (some 7) (some 0) (cancelCmd 1 0) :: ([.push (some 7) (some 0) (closeCmd 1 10)] ++ pieces 18)) := by
  refine Machine.not_atEach (fun _ s _ _ later => s.waiting.any fun b => (s.cmdOf b).any fun m =>
    cancels (cancelCmd 1 0) m ∧ (executedOf later).any fun q => q.1 = b ∧ ¬ Cancelled q.2) ?_ (by decide +kernel)
  rintro h u t e later hq ⟨hmarked, -⟩
  obtain ⟨b, hb, hq⟩ := List.any_eq_true.1 hq
  obtain ⟨m, hm, hq⟩ := (Option.any_eq_true _ _).1 hq
  obtain ⟨hc, hq⟩ := of_decide_eq_true hq
  obtain ⟨q, hqm, hq⟩ := List.any_eq_true.1 hq
  obtain ⟨rfl, hn⟩ := of_decide_eq_true hq
  exact hn (hmarked _ _ _ rfl rfl q.1 hb m hm hc q.2 hqm)

/-! ## What becomes of a marked command -/

/-- The command is not carried out, and its one completion reports `wfsErrCanceled`. -/
def NotCarriedOut (wfsErrCanceled : HResult) (s t : Executer A api) (e : List (ExecEvent A)) : Prop :=
  t.xfs.serviceTable = s.xfs.serviceTable ∧ t.xfs.flag = s.xfs.flag ∧
    t.xfs.curService = s.xfs.curService ∧ t.xfs.curReqid = s.xfs.curReqid ∧
    ∃ (n : Notice) (r : AnXfsResult A), postedOf e = [n] ∧ n.buf = serializeResult (AnXfsResult.codec A) r ∧
      r.hResult = wfsErrCanceled

/-- The step executes a command that is marked. -/
def ExecutesMarked (s : Executer A api) : ExecInput A → Prop
  | .run _ => s.pc = .cmdHandler ∧ ∃ m ∈ s.cmdOf s.currentCmd, Cancelled m
  | _ => False

instance (s : Executer A api) (i : ExecInput A) : Decidable (ExecutesMarked s i) := by
  unfold ExecutesMarked; split <;> infer_instance

/-- A marked command is carried out, or the executor faults on it. -/
theorem marked_carried_out {wfsErrCanceled : HResult} (hne : wfsErrCanceled ≠ api.wfsSuccess) {s t : Executer A api}
    {i : ExecInput A} {e : List (ExecEvent A)} (hs : s.step i = some (t, e)) (hm : ExecutesMarked s i) :
    ¬ NotCarriedOut wfsErrCanceled s t e := by
  rintro ⟨-, -, -, -, n, r, hpost, hbuf, hr⟩
  cases (step_stepped hs).2 with
  | ran now _ _ hran =>
    have hpc : s.pc = .cmdHandler := hm.1
    cases hran with
    | handled p m ty c _ hp hpm hty hc =>
      obtain rfl := List.singleton_inj.1 hpost
      have hreply := serializeResult_injective (AnXfsResult.codec A) hbuf
      rw [← hreply] at hr
      exact hne hr.symm
    | failed f hf => cases hpost
    | popped _ _ hpc' => rw [hpc] at hpc'; cases hpc'
    | _ => cases hpost
  | pushed => exact hm
  | quiet => cases hpost
  | broadcast => cases hpost

/-- In every run, each marked command stays without effect and is completed as cancelled if and only if no
marked command is executed. -/
theorem not_carried_out_iff {wfsErrCanceled : HResult} (hne : wfsErrCanceled ≠ api.wfsSuccess) {x : CanXfs A api}
    {is : List (ExecInput A)} {s : Executer A api} {es : List (ExecEvent A)}
    (hr : (executerMachine A api).run (Executer.new x) is = some (s, es)) :
    (executerMachine A api).AtEach
        (fun _ s i t e _ => ExecutesMarked s i → NotCarriedOut wfsErrCanceled s t e) (Executer.new x) is ↔
      (executerMachine A api).Meets (fun s i => ¬ ExecutesMarked s i) (Executer.new x) is := by
  refine Machine.atEach_iff_meets (I := fun _ _ => True)
    (P := fun _ s i t e => ExecutesMarked s i → NotCarriedOut wfsErrCanceled s t e) ?_
    (fun _ _ _ _ _ _ _ _ => trivial) trivial hr
  intro _ s i t e _ hs
  constructor
  · intro h hm
    exact marked_carried_out hne hs hm (h hm)
  · intro hn hm
    exact absurd hm hn

/-- A Cancel for service 1 walks over an Open of it, which is executed next. -/
def cancelOpen : List (ExecInput .x86) :=
  [.push (some 7) (some 0) (cancelCmd 1 0), .push (some 7) (some 0) (openCmd 1 9)] ++ pieces 14

theorem cancelOpen_carried_out : ∃ s es,
    (executerMachine .x86 .documented).run (Executer.new .blank) cancelOpen = some (s, es) ∧
    ((executerMachine .x86 .documented).AtEach
        (fun _ s i t e _ => ExecutesMarked s i → NotCarriedOut (-4) s t e) (Executer.new .blank) cancelOpen ↔
      (executerMachine .x86 .documented).Meets (fun s i => ¬ ExecutesMarked s i) (Executer.new .blank) cancelOpen) := by
  obtain ⟨s, es, hr, -⟩ : ∃ s es, (executerMachine .x86 .documented).run (Executer.new .blank) cancelOpen =
      some (s, es) ∧ (postedOf es).length = 2 := Machine.run_any (by decide +kernel)
  exact ⟨s, es, hr, not_carried_out_iff (by decide) hr⟩

/-- The marked Open enters the session table, where the Cancel has left the service once already. -/
theorem cancelled_open_enters_table : ¬ (executerMachine .x86 .documented).AtEach
    (fun _ s i t e _ => ExecutesMarked s i → NotCarriedOut (-4) s t e) (Executer.new CanXfs.blank)
    ([.push (some 7) (some 0) (cancelCmd 1 0), .push (some 7) (some 0) (openCmd 1 9)] ++ pieces 10 ++
      .run midnight :: pieces 3) := by
  refine Machine.not_atEach (fun _ s t _ _ => ExecutesMarked s (.run midnight) ∧
    s.xfs.serviceTable = [1] ∧ t.xfs.serviceTable = [1, 1]) ?_ (by decide +kernel)
  rintro h s t e later hq hc
  obtain ⟨hm, hs, ht⟩ := of_decide_eq_true hq
  obtain ⟨htable, -⟩ := hc hm
  rw [hs, ht] at htable
  cases htable

end AnXfs.Server
