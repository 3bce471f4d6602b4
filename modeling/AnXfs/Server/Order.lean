/-
The executor answers every command exactly once and in order of arrival, whatever the loop thread
pushes in between. The history splits into the commands served and those waiting: the invariant
`InOrder` ties the deque, the copy in `m_current_cmd` and the command objects to that split, and
each piece of `CExecuter::run` moves at most one command across it.
-/
import AnXfs.Server.Queue

namespace AnXfs.Server

open AnXfs.Wire AnXfs.Pack AnXfs.Run

variable {A : Arch} {api : XfsApi}

/-! ## Marking a command -/

/-- A command up to the status that a Cancel may overwrite. -/
def unmarked (m : AnCmd A) : AnCmd A := withStatus 0 m

@[simp] theorem unmarked_withStatus (e : Dword) (m : AnCmd A) : unmarked (withStatus e m) = unmarked m := by
  cases m <;> rfl

theorem unmarked_base {m n : AnCmd A} (h : unmarked m = unmarked n) :
    m.eType = n.eType ∧ m.base.hService = n.base.hService ∧ m.base.reqId = n.base.reqId ∧
      m.base.hWnd = n.base.hWnd := by
  have hb := congrArg AnCmd.base h
  simp only [unmarked, withStatus, AnCmd.base_setBase, AnWfpHeader.mk.injEq] at hb
  obtain ⟨-, h1, -, h2, h3, h4, -⟩ := hb
  exact ⟨h1, h2, h4, h3⟩

theorem unmarked_sentAs (m : AnCmd A) : (unmarked m).sentAs = m.sentAs := by
  cases m <;> rfl

theorem built_congr {m n : AnCmd A} (h : unmarked m = unmarked n) (hn : n.Built) : m.Built := by
  have hs : m.sentAs = n.sentAs := by rw [← unmarked_sentAs m, h, unmarked_sentAs]
  unfold AnCmd.Built at hn ⊢
  rw [hs, (unmarked_base h).1]
  exact hn

/-- The entries of a deque point to live command objects. -/
def LiveEntries (heap : Ptr → Option (AnCmd A)) (deque : List AnBuf) : Prop :=
  ∀ b ∈ deque, ∃ p m, b.mCmd = some p ∧ heap p = some m

theorem cancelEntry_live {c : AnCmd A} {heap : Ptr → Option (AnCmd A)} {b : AnBuf} {p : Ptr} {m : AnCmd A}
    (hb : b.mCmd = some p) (hm : heap p = some m) :
    ∃ heap', cancelEntry c heap b = .ok heap' ∧ ∀ q, (heap' q).map unmarked = (heap q).map unmarked := by
  unfold cancelEntry
  simp only [hb, hm]
  refine ⟨_, rfl, fun q => ?_⟩
  split
  · by_cases hq : q = p
    · subst hq; simp [hm]
    · simp [hq]
  · rfl

theorem live_congr {heap heap' : Ptr → Option (AnCmd A)}
    (h : ∀ q, (heap' q).map unmarked = (heap q).map unmarked) {p : Ptr} {m : AnCmd A} (hm : heap p = some m) :
    ∃ m', heap' p = some m' ∧ unmarked m' = unmarked m := by
  have hp := h p
  rw [hm] at hp
  exact Option.map_eq_some_iff.1 hp

/-- A walk over live entries succeeds and changes nothing but statuses. -/
theorem cancelWalk_live (c : AnCmd A) : ∀ (deque : List AnBuf) (heap : Ptr → Option (AnCmd A)),
    LiveEntries heap deque →
    ∃ heap', deque.foldlM (cancelEntry c) heap = .ok heap' ∧ ∀ q, (heap' q).map unmarked = (heap q).map unmarked
  | [], heap, _ => ⟨heap, rfl, fun _ => rfl⟩
  | b :: rest, heap, hl => by
    obtain ⟨p, m, hb, hm⟩ := hl b (List.mem_cons_self ..)
    obtain ⟨heap1, h1, heq1⟩ := cancelEntry_live (c := c) hb hm
    have hl1 : LiveEntries heap1 rest := by
      intro d hd
      obtain ⟨q, n, hq, hn⟩ := hl d (List.mem_cons_of_mem _ hd)
      obtain ⟨n', hn', -⟩ := live_congr heq1 hn
      exact ⟨q, n', hq, hn'⟩
    obtain ⟨heap2, h2, heq2⟩ := cancelWalk_live c rest heap1 hl1
    refine ⟨heap2, ?_, fun q => (heq2 q).trans (heq1 q)⟩
    rw [List.foldlM_cons, h1]
    exact h2

theorem cmdPreProcessed_live {heap : Ptr → Option (AnCmd A)} {deque : List AnBuf} {cmd : AnBuf}
    (hl : LiveEntries heap deque) (hc : cmd ∈ deque) :
    ∃ heap', cmdPreProcessed heap deque cmd = .ok heap' ∧ ∀ q, (heap' q).map unmarked = (heap q).map unmarked := by
  obtain ⟨p, m, hp, hm⟩ := hl cmd hc
  unfold cmdPreProcessed
  simp only [hp, hm]
  split
  · exact cancelWalk_live m deque heap hl
  · exact ⟨heap, rfl, fun _ => rfl⟩

/-! ## The history -/

def pushedOf (h : List (ExecEvent A)) : List (AnBuf × AnCmd A) :=
  h.filterMap fun
    | .pushed b m => some (b, m)
    | _ => none

def executedOf (h : List (ExecEvent A)) : List (AnBuf × AnCmd A) :=
  h.filterMap fun
    | .executed b m => some (b, m)
    | _ => none

def postedOf (h : List (ExecEvent A)) : List Notice :=
  h.filterMap fun
    | .posted n => some n
    | _ => none

def poppedOf (h : List (ExecEvent A)) : List AnBuf :=
  h.filterMap fun
    | .popped b => some b
    | _ => none

/-- The entries executed (`inl`) and popped (`inr`), in order. -/
def workOf (h : List (ExecEvent A)) : List (AnBuf ⊕ AnBuf) :=
  h.filterMap fun
    | .executed b _ => some (.inl b)
    | .popped b => some (.inr b)
    | _ => none

/-- Each entry executed and then popped. -/
def executedThenPopped (bs : List AnBuf) : List (AnBuf ⊕ AnBuf) := bs.flatMap fun b => [.inl b, .inr b]

section Projections

variable (g h : List (ExecEvent A))

@[simp] theorem pushedOf_append : pushedOf (g ++ h) = pushedOf g ++ pushedOf h := List.filterMap_append ..
@[simp] theorem executedOf_append : executedOf (g ++ h) = executedOf g ++ executedOf h := List.filterMap_append ..
@[simp] theorem postedOf_append : postedOf (g ++ h) = postedOf g ++ postedOf h := List.filterMap_append ..
@[simp] theorem poppedOf_append : poppedOf (g ++ h) = poppedOf g ++ poppedOf h := List.filterMap_append ..
@[simp] theorem workOf_append : workOf (g ++ h) = workOf g ++ workOf h := List.filterMap_append ..

end Projections

/-- The notice carries the command's connection, service, request id and window. -/
def Answers (q : AnBuf × AnCmd A) (n : Notice) : Prop :=
  n.client = q.1.mClient ∧ n.origin = q.1.origin ∧
    ∃ r : AnXfsResult A, n.buf = serializeResult (AnXfsResult.codec A) r ∧
      r.hService = q.2.base.hService ∧ r.requestId = q.2.base.reqId ∧ r.hWnd = q.2.base.hWnd

/-- A pushed command and the command executed for it: one entry, one object, up to the status. -/
def SameCmd (q e : AnBuf × AnCmd A) : Prop := e.1 = q.1 ∧ unmarked e.2 = unmarked q.2

theorem reply_answers {api : XfsApi} {q : AnBuf × AnCmd A} {m : AnCmd A} (hm : unmarked m = unmarked q.2)
    (x : CanXfs A api) (t : AnWfpType) (c : CommanderClass) (now : AnSystemtime) :
    Answers q (replyNotice x t c m q.1.mClient q.1.origin now) := by
  obtain ⟨-, h1, h2, h3⟩ := unmarked_base hm
  exact ⟨rfl, rfl, c.reply api m now, rfl, h1, h2, h3⟩

/-- The type of a command has a commander. -/
def HasSlot (m : AnCmd A) : Prop := ∃ t c, m.eType = AnWfpType.code t ∧ commander t = some c

/-! ## The invariant -/

/-- The entry that was executed and is still in front. -/
def Executer.current (s : Executer A api) : List AnBuf := if s.pc.executed then [s.currentCmd] else []

theorem current_of_executed {s : Executer A api} (h : s.pc.executed = true) : s.current = [s.currentCmd] := if_pos h

theorem current_of_not_executed {s : Executer A api} (h : s.pc.executed = false) : s.current = [] :=
  if_neg (by rw [h]; decide)

/-- The history `h` reaches `s`, with the pushed commands split into those served and those waiting. -/
structure InOrder (served waiting : List (AnBuf × AnCmd A)) (h : List (ExecEvent A)) (s : Executer A api) : Prop where
  fault : s.fault = none
  pushed : pushedOf h = served ++ waiting
  executed : List.Forall₂ SameCmd served (executedOf h)
  posted : List.Forall₂ Answers served (postedOf h)
  deque : s.deque = s.current ++ waiting.map Prod.fst
  popped : poppedOf h ++ s.current = served.map Prod.fst
  work : workOf h = executedThenPopped (poppedOf h) ++ s.current.map .inl
  front : s.pc = .readFront → waiting ≠ []
  copied : s.pc = .preProcess ∨ s.pc = .cmdHandler → ∃ m rest, waiting = (s.currentCmd, m) :: rest
  alive : ∀ q ∈ waiting, ∃ p m, q.1.mCmd = some p ∧ s.heap p = some m ∧ unmarked m = unmarked q.2
  inUse : s.pc = .pauseItemCheck ∨ s.pc = .destroyCmd → ∃ p m, s.currentCmd.mCmd = some p ∧ s.heap p = some m
  distinct : (s.deque.map AnBuf.mCmd).Nodup
  bounded : ∀ b ∈ s.deque, ∃ p, b.mCmd = some p ∧ p < s.brk
  slots : ∀ q ∈ waiting, q.2.Built ∧ HasSlot q.2

/-- Some split of the pushed commands explains the state. -/
def Ordered (h : List (ExecEvent A)) (s : Executer A api) : Prop := ∃ served waiting, InOrder served waiting h s

theorem ordered_new (x : CanXfs A api) : Ordered [] (Executer.new x) :=
  ⟨[], [], {
    fault := rfl, pushed := rfl, executed := .nil, posted := .nil, deque := rfl, popped := rfl, work := rfl
    front := fun h => by cases h
    copied := by rintro (h | h) <;> cases h
    alive := fun q hq => by cases hq
    inUse := by rintro (h | h) <;> cases h
    distinct := List.nodup_nil
    bounded := fun b hb => by cases hb
    slots := fun q hq => by cases hq }⟩

section Step

variable {served waiting : List (AnBuf × AnCmd A)} {h : List (ExecEvent A)} {s : Executer A api}

theorem InOrder.live (i : InOrder served waiting h s) : LiveEntries s.heap (waiting.map Prod.fst) := by
  intro b hb
  obtain ⟨q, hq, rfl⟩ := List.mem_map.1 hb
  obtain ⟨p, m, hp, hm, -⟩ := i.alive q hq
  exact ⟨p, m, hp, hm⟩

/-- An entry of the loop thread joins those waiting. -/
theorem InOrder.push (i : InOrder served waiting h s) (client : Option Addr) (origin : Option ConnId) {m : AnCmd A}
    (hm : m.Built ∧ HasSlot m) :
    Ordered (h ++ (s.pushBackCmdDeque client origin m).2) (s.pushBackCmdDeque client origin m).1 := by
  -- the new object lies behind all that the deque points to, so none of those is overwritten
  have hfresh : ∀ b ∈ s.deque, ∀ p, b.mCmd = some p → p ≠ s.brk := by
    rintro b hb p hp rfl
    obtain ⟨p', hp', hlt⟩ := i.bounded b hb
    rw [hp] at hp'
    cases hp'
    exact lt_irrefl _ hlt
  have hmem : ∀ q ∈ waiting, q.1 ∈ s.deque := by
    intro q hq
    rw [i.deque]
    exact List.mem_append_right _ (List.mem_map_of_mem hq)
  refine ⟨served, waiting ++ [(⟨some s.brk, client, origin⟩, m)], {
    fault := i.fault
    pushed := ?_, executed := ?_, posted := ?_, deque := ?_, popped := ?_, work := ?_
    front := fun _ => by simp
    copied := ?_, alive := ?_, inUse := ?_, distinct := ?_, bounded := ?_, slots := ?_ }⟩
  · simp only [Executer.pushBackCmdDeque, pushedOf_append, i.pushed, List.append_assoc]; rfl
  · simpa [Executer.pushBackCmdDeque, executedOf] using i.executed
  · simpa [Executer.pushBackCmdDeque, postedOf] using i.posted
  · simp only [Executer.pushBackCmdDeque, i.deque, List.map_append, List.append_assoc]; rfl
  · rw [poppedOf_append]
    show poppedOf h ++ [] ++ s.current = _
    rw [List.append_nil, i.popped]
  · rw [workOf_append, poppedOf_append]
    show workOf h ++ [] = executedThenPopped (poppedOf h ++ []) ++ s.current.map .inl
    rw [List.append_nil, List.append_nil, i.work]
  · intro hpc
    obtain ⟨m', rest, hw⟩ := i.copied hpc
    exact ⟨m', rest ++ [(⟨some s.brk, client, origin⟩, m)], by rw [hw]; rfl⟩
  · intro q hq
    rcases List.mem_append.1 hq with hq | hq
    · obtain ⟨p, n, hp, hn, hu⟩ := i.alive q hq
      refine ⟨p, n, hp, ?_, hu⟩
      simp only [Executer.pushBackCmdDeque]
      rw [Function.update_of_ne (hfresh q.1 (hmem q hq) p hp), hn]
    · rw [List.mem_singleton.1 hq]
      exact ⟨s.brk, m, rfl, Function.update_self .., rfl⟩
  · intro hpc
    obtain ⟨p, n, hp, hn⟩ := i.inUse hpc
    have hexec : s.pc.executed = true := by
      rcases hpc with hpc | hpc <;> (replace hpc : s.pc = _ := hpc; rw [hpc]; rfl)
    have hcur : s.currentCmd ∈ s.deque := by
      rw [i.deque, current_of_executed hexec]
      exact List.mem_append_left _ (List.mem_singleton.2 rfl)
    refine ⟨p, n, hp, ?_⟩
    simp only [Executer.pushBackCmdDeque]
    rw [Function.update_of_ne (hfresh s.currentCmd hcur p hp), hn]
  · simp only [Executer.pushBackCmdDeque, List.map_append, List.map_cons, List.map_nil]
    refine List.Nodup.append i.distinct (List.nodup_singleton _) ?_
    intro o ho ho'
    obtain ⟨b, hb, rfl⟩ := List.mem_map.1 ho
    exact hfresh b hb s.brk (List.mem_singleton.1 ho') rfl
  · intro b hb
    rcases List.mem_append.1 hb with hb | hb
    · obtain ⟨p, hp, hlt⟩ := i.bounded b hb
      exact ⟨p, hp, Nat.lt_succ_of_lt hlt⟩
    · rw [List.mem_singleton.1 hb]
      exact ⟨s.brk, rfl, Nat.lt_succ_self _⟩
  · intro q hq
    rcases List.mem_append.1 hq with hq | hq
    · exact i.slots q hq
    · rw [List.mem_singleton.1 hq]; exact hm

/-- Events that push, execute, post and pop nothing leave the split as it is. -/
theorem InOrder.silent (i : InOrder served waiting h s) {e : List (ExecEvent A)} (hpush : pushedOf e = [])
    (hexec : executedOf e = []) (hpost : postedOf e = []) (hpop : poppedOf e = []) (hwork : workOf e = []) :
    InOrder served waiting (h ++ e) s :=
  { i with
    pushed := by rw [pushedOf_append, hpush, List.append_nil]; exact i.pushed
    executed := by rw [executedOf_append, hexec, List.append_nil]; exact i.executed
    posted := by rw [postedOf_append, hpost, List.append_nil]; exact i.posted
    popped := by rw [poppedOf_append, hpop, List.append_nil]; exact i.popped
    work := by rw [workOf_append, poppedOf_append, hwork, hpop, List.append_nil, List.append_nil]; exact i.work }

/-- The command copied for execution is the first one waiting, and its object is alive. -/
theorem InOrder.copied_alive (i : InOrder served waiting h s) (hpc : s.pc = .cmdHandler) :
    ∃ m' rest p m, waiting = (s.currentCmd, m') :: rest ∧ s.currentCmd.mCmd = some p ∧ s.heap p = some m ∧
      unmarked m = unmarked m' := by
  obtain ⟨m', rest, hw⟩ := i.copied (.inr hpc)
  obtain ⟨p, m, hp, hm, hu⟩ := i.alive (s.currentCmd, m') (by rw [hw]; exact List.mem_cons_self ..)
  exact ⟨m', rest, p, m, hw, hp, hm, hu⟩

/-- No piece of `run` gets stuck. -/
theorem InOrder.not_stuck (i : InOrder served waiting h s) (now : AnSystemtime) (f : Fault) : ¬ Stuck s now f := by
  intro hs
  cases hs with
  | noFront hpc hd =>
    rcases hpc with hpc | hpc
    · rw [i.deque, List.append_eq_nil_iff, List.map_eq_nil_iff] at hd
      exact i.front hpc hd.2
    · rw [i.deque, current_of_executed (by rw [hpc]; rfl)] at hd
      cases hd
  | preProcess _ hpc he =>
    obtain ⟨m, rest, hw⟩ := i.copied (.inl hpc)
    have hd : s.deque = waiting.map Prod.fst := by
      rw [i.deque, current_of_not_executed (by rw [hpc]; rfl)]; rfl
    have hmem : s.currentCmd ∈ waiting.map Prod.fst := by rw [hw]; simp
    obtain ⟨heap', h', -⟩ := cmdPreProcessed_live i.live hmem
    rw [hd, h'] at he
    cases he
  | noCmd hpc hn =>
    rcases hpc with hpc | hpc
    · obtain ⟨-, -, p, -, -, hp, -⟩ := i.copied_alive hpc
      rw [hp] at hn
      cases hn
    · obtain ⟨p, _, hp, -⟩ := i.inUse (.inl hpc)
      rw [hp] at hn
      cases hn
  | freed p hpc hp hn =>
    have hl : ∃ p m, s.currentCmd.mCmd = some p ∧ s.heap p = some m := by
      rcases hpc with hpc | hpc
      · obtain ⟨-, -, p, m, -, hp, hm, -⟩ := i.copied_alive hpc
        exact ⟨p, m, hp, hm⟩
      · exact i.inUse hpc
    obtain ⟨q, m, hq, hm⟩ := hl
    rw [hq] at hp
    cases hp
    rw [hm] at hn
    cases hn
  | handler p m f hpc hp hm he =>
    obtain ⟨m', rest, q, n, hw, hq, hn, hu⟩ := i.copied_alive hpc
    rw [hq] at hp
    cases hp
    rw [hm] at hn
    cases hn
    -- a Cancel may have marked the command since it was pushed, which its commander does not look at
    obtain ⟨hb, t, c, ht, hc⟩ := i.slots (s.currentCmd, m') (by rw [hw]; exact List.mem_cons_self ..)
    rw [cmdHandler_built (built_congr hu hb) ((unmarked_base hu).1.trans ht) hc] at he
    cases he

theorem InOrder.deque_of_not_executed (i : InOrder served waiting h s) (hpc : s.pc.executed = false) :
    s.deque = waiting.map Prod.fst := by
  rw [i.deque, current_of_not_executed hpc]; rfl

/-- A piece that executes and pops nothing. -/
theorem InOrder.quiet (i : InOrder served waiting h s) {s' : Executer A api} (hf : s'.fault = s.fault)
    (hd : s'.deque = s.deque) (hb : s'.brk = s.brk) (hc : s'.current = s.current)
    (front : s'.pc = .readFront → waiting ≠ [])
    (copied : s'.pc = .preProcess ∨ s'.pc = .cmdHandler → ∃ m rest, waiting = (s'.currentCmd, m) :: rest)
    (alive : ∀ q ∈ waiting, ∃ p m, q.1.mCmd = some p ∧ s'.heap p = some m ∧ unmarked m = unmarked q.2)
    (inUse : s'.pc = .pauseItemCheck ∨ s'.pc = .destroyCmd → ∃ p m, s'.currentCmd.mCmd = some p ∧ s'.heap p = some m) :
    Ordered (h ++ []) s' := by
  rw [List.append_nil]
  exact ⟨served, waiting, {
    fault := hf.trans i.fault, pushed := i.pushed, executed := i.executed, posted := i.posted
    deque := by rw [hd, hc]; exact i.deque
    popped := by rw [hc]; exact i.popped
    work := by rw [hc]; exact i.work
    front := front, copied := copied, alive := alive, inUse := inUse
    distinct := by rw [hd]; exact i.distinct
    bounded := by rw [hd, hb]; exact i.bounded
    slots := i.slots }⟩

/-- The copied command is executed and answered: it is served from now on. -/
theorem InOrder.executes (i : InOrder served waiting h s) (now : AnSystemtime) {p : Ptr} {m : AnCmd A} (t : AnWfpType)
    (c : CommanderClass) (hpc : s.pc = .cmdHandler) (hp : s.currentCmd.mCmd = some p) (hm : s.heap p = some m) :
    Ordered (h ++ [.executed s.currentCmd m,
        .posted (replyNotice s.xfs t c m s.currentCmd.mClient s.currentCmd.origin now)])
      { s with xfs := s.xfs.after t m, pc := .pauseItemCheck } := by
  have hne : s.pc.executed = false := by rw [hpc]; rfl
  have hc := current_of_not_executed hne
  obtain ⟨m', rest, p', n, rfl, hp', hn, hu⟩ := i.copied_alive hpc
  rw [hp'] at hp
  cases hp
  rw [hm] at hn
  cases hn
  have hpop := i.popped
  have hwork := i.work
  rw [hc, List.append_nil] at hpop
  rw [hc] at hwork
  refine ⟨served ++ [(s.currentCmd, m')], rest, {
    fault := i.fault
    pushed := ?_, executed := ?_, posted := ?_, deque := ?_, popped := ?_, work := ?_
    front := fun h => by cases h
    copied := by rintro (h | h) <;> cases h
    alive := fun q hq => i.alive q (List.mem_cons_of_mem _ hq)
    inUse := fun _ => ⟨p, m, hp', hm⟩
    distinct := i.distinct, bounded := i.bounded
    slots := fun q hq => i.slots q (List.mem_cons_of_mem _ hq) }⟩
  · rw [pushedOf_append, i.pushed, List.append_assoc]
    show served ++ ((s.currentCmd, m') :: rest ++ []) = _
    rw [List.append_nil, List.append_assoc]; rfl
  · rw [executedOf_append]
    exact List.rel_append i.executed (.cons ⟨rfl, hu⟩ .nil)
  · rw [postedOf_append]
    exact List.rel_append i.posted (.cons (reply_answers (q := (s.currentCmd, m')) hu s.xfs t c now) .nil)
  · exact i.deque_of_not_executed hne
  · rw [poppedOf_append, List.map_append, ← hpop]
    show poppedOf h ++ [] ++ [s.currentCmd] = poppedOf h ++ [s.currentCmd]
    rw [List.append_nil]
  · -- the command executed is not popped yet: it ends the list of the work done
    rw [workOf_append, poppedOf_append, hwork]
    show executedThenPopped (poppedOf h) ++ [] ++ [.inl s.currentCmd] =
      executedThenPopped (poppedOf h ++ []) ++ [.inl s.currentCmd]
    rw [List.append_nil, List.append_nil]

/-- The object of the executed command is destroyed. -/
theorem InOrder.destroys (i : InOrder served waiting h s) {heap : Ptr → Option (AnCmd A)} (hpc : s.pc = .destroyCmd)
    (hh : heap = s.heap ∧ s.currentCmd.mCmd = none ∨
      ∃ p, s.currentCmd.mCmd = some p ∧ heap = Function.update s.heap p none) :
    Ordered (h ++ []) { s with heap := heap, pc := .popFront } := by
  have hex : s.pc.executed = true := by rw [hpc]; rfl
  refine i.quiet rfl rfl rfl ((current_of_executed rfl).trans (current_of_executed hex).symm)
    (fun h => by cases h) (by rintro (h | h) <;> cases h) (fun q hq => ?_)
    (by rintro (h | h) <;> cases h)
  obtain ⟨p, n, hp, hn, hu⟩ := i.alive q hq
  refine ⟨p, n, hp, ?_, hu⟩
  rcases hh with ⟨rfl, -⟩ | ⟨p', hp', rfl⟩
  · exact hn
  -- the object destroyed is the executed one, which no waiting entry points to
  have hne : p ≠ p' := by
    rintro rfl
    have hnd := i.distinct
    rw [i.deque, current_of_executed hex, List.map_append, List.map_map] at hnd
    refine List.disjoint_of_nodup_append hnd (a := some p) (by simp [hp']) ?_
    exact List.mem_map.2 ⟨q, hq, hp⟩
  show Function.update s.heap p' none p = some n
  rw [Function.update_of_ne hne, hn]

/-- The executed command leaves the deque. -/
theorem InOrder.pops (i : InOrder served waiting h s) {b : AnBuf} {rest : List AnBuf} (hpc : s.pc = .popFront)
    (hd : s.deque = b :: rest) : Ordered (h ++ [.popped b]) { s with deque := rest, pc := .sizeTest } := by
  have hex : s.pc.executed = true := by rw [hpc]; rfl
  have hd' := i.deque
  have hpop := i.popped
  have hwork := i.work
  have hnd := i.distinct
  rw [current_of_executed hex] at hd' hpop hwork
  rw [hd, List.map_cons] at hnd
  rw [hd] at hd'
  obtain ⟨rfl, rfl⟩ := List.cons.inj hd'
  refine ⟨served, waiting, {
    fault := i.fault
    pushed := ?_, executed := ?_, posted := ?_
    deque := rfl, popped := ?_, work := ?_
    front := fun h => by cases h
    copied := by rintro (h | h) <;> cases h
    alive := i.alive
    inUse := by rintro (h | h) <;> cases h
    distinct := hnd.of_cons
    bounded := fun b hb => i.bounded b (by rw [hd]; exact List.mem_cons_of_mem _ hb)
    slots := i.slots }⟩
  · rw [pushedOf_append, i.pushed]
    exact List.append_nil _
  · rw [executedOf_append]
    show List.Forall₂ SameCmd served (executedOf h ++ [])
    rw [List.append_nil]
    exact i.executed
  · rw [postedOf_append]
    show List.Forall₂ Answers served (postedOf h ++ [])
    rw [List.append_nil]
    exact i.posted
  · rw [poppedOf_append]
    exact (List.append_nil _).trans hpop
  · rw [workOf_append, poppedOf_append, hwork]
    show executedThenPopped (poppedOf h) ++ [.inl s.currentCmd] ++ [.inr s.currentCmd] =
      executedThenPopped (poppedOf h ++ [s.currentCmd]) ++ []
    simp [executedThenPopped]

/-- A piece of `run` keeps the order: it serves the first command waiting, or none. -/
theorem InOrder.ran (i : InOrder served waiting h s) {now : AnSystemtime} {s' : Executer A api}
    {e : List (ExecEvent A)} (hr : Ran s now s' e) : Ordered (h ++ e) s' := by
  cases hr with
  | empty => exact ⟨served, waiting, i.silent rfl rfl rfl rfl rfl⟩
  | sized hpc hd =>
    have hne : s.pc.executed = false := by rw [hpc]; rfl
    refine i.quiet rfl rfl rfl ((current_of_not_executed rfl).trans (current_of_not_executed hne).symm)
      (fun _ => ?_) (by rintro (h | h) <;> cases h) i.alive (by rintro (h | h) <;> cases h)
    rintro rfl
    exact hd (i.deque_of_not_executed hne)
  | fronted b rest hpc hd =>
    have hne : s.pc.executed = false := by rw [hpc]; rfl
    refine i.quiet rfl rfl rfl ((current_of_not_executed rfl).trans (current_of_not_executed hne).symm)
      (fun h => by cases h) (fun _ => ?_) i.alive (by rintro (h | h) <;> cases h)
    rw [i.deque_of_not_executed hne] at hd
    obtain ⟨q, w, hw, rfl, -⟩ := List.map_eq_cons_iff.1 hd
    exact ⟨q.2, w, hw⟩
  | preProcessed heap hpc hh =>
    have hne : s.pc.executed = false := by rw [hpc]; rfl
    obtain ⟨m, rest, hw⟩ := i.copied (.inl hpc)
    have hmem : s.currentCmd ∈ waiting.map Prod.fst := by rw [hw]; simp
    obtain ⟨heap', h', heq⟩ := cmdPreProcessed_live i.live hmem
    rw [i.deque_of_not_executed hne, h'] at hh
    cases hh
    refine i.quiet rfl rfl rfl ((current_of_not_executed rfl).trans (current_of_not_executed hne).symm)
      (fun h => by cases h) (fun _ => ⟨m, rest, hw⟩) (fun q hq => ?_) (by rintro (h | h) <;> cases h)
    obtain ⟨p, n, hp, hn, hu⟩ := i.alive q hq
    obtain ⟨n', hn', hu'⟩ := live_congr heq hn
    exact ⟨p, n', hp, hn', hu'.trans hu⟩
  | handled p m t c hpc hp hm ht hcm => exact i.executes now t c hpc hp hm
  | paused p m hpc hp hm =>
    have hex : s.pc.executed = true := by rw [hpc]; rfl
    exact i.quiet rfl rfl rfl ((current_of_executed rfl).trans (current_of_executed hex).symm)
      (fun h => by cases h) (by rintro (h | h) <;> cases h) i.alive (fun _ => ⟨p, m, hp, hm⟩)
  | destroyed heap hpc hh => exact i.destroys hpc hh
  | popped b rest hpc hd => exact i.pops hpc hd
  | failed f hf => exact absurd hf (i.not_stuck now f)

/-- An event notice answers no command. -/
theorem InOrder.broadcast (i : InOrder served waiting h s) (n : Notice) (itemPc : ItemPc) :
    Ordered (h ++ [.broadcast n]) { s with itemPc := itemPc } :=
  ⟨served, waiting, { i.silent rfl rfl rfl rfl rfl with }⟩

end Step

/-! ## All runs -/

/-- The commands the loop thread pushes are built by a builder and have a commander. -/
def PushesServable (i : ExecInput A) : Prop :=
  match i with
  | .push _ _ m => m.Built ∧ HasSlot m
  | _ => True

theorem ordered_stepped {h : List (ExecEvent A)} {s : Executer A api} {i : ExecInput A} {t : Executer A api}
    {e : List (ExecEvent A)} (ho : Ordered h s) (hi : PushesServable i) (hs : Stepped s i t e) :
    Ordered (h ++ e) t := by
  obtain ⟨served, waiting, o⟩ := ho
  cases hs with
  | pushed client origin m => exact o.push client origin hi
  | ran now t e hr => exact o.ran hr
  | quiet i itemPc => exact ⟨served, waiting, { o.silent rfl rfl rfl rfl rfl with }⟩
  | broadcast i itemPc r => exact o.broadcast _ itemPc

theorem ordered_run {x : CanXfs A api} {is : List (ExecInput A)} {s : Executer A api} {es : List (ExecEvent A)}
    (hp : ∀ i ∈ is, PushesServable i) (hr : (executerMachine A api).run (Executer.new x) is = some (s, es)) :
    Ordered es s := by
  have := Machine.run_invariant (M := executerMachine A api) (G := fun _ i => PushesServable i) (I := Ordered)
    (fun h s i t e ho hi hs => ordered_stepped ho hi (step_stepped hs).2) is [] (Executer.new x) s es (ordered_new x)
    (Machine.meets_of_forall hp _) hr
  simpa using this

/-- In every run of the executor, whatever the loop thread pushes in between: nothing faults, the
commands executed are a prefix of the commands pushed, each is popped right after it was executed, and
the `k`-th notice of `cmd_handler` answers the `k`-th command pushed. -/
theorem executer_serves_in_order {x : CanXfs A api} {is : List (ExecInput A)} {s : Executer A api}
    {es : List (ExecEvent A)} (hp : ∀ i ∈ is, PushesServable i)
    (hr : (executerMachine A api).run (Executer.new x) is = some (s, es)) :
    s.fault = none ∧
    (executedOf es).map (fun e => (e.1, unmarked e.2)) <+: (pushedOf es).map (fun q => (q.1, unmarked q.2)) ∧
    (∃ busy, workOf es = executedThenPopped (poppedOf es) ++ busy ∧ (busy = [] ∨ ∃ b, busy = [.inl b])) ∧
    (postedOf es).length = (executedOf es).length ∧
    ∀ (k : Nat) (n : Notice), (postedOf es)[k]? = some n → ∃ q, (pushedOf es)[k]? = some q ∧ Answers q n := by
  obtain ⟨served, waiting, o⟩ := ordered_run hp hr
  refine ⟨o.fault, ⟨waiting.map fun q => (q.1, unmarked q.2), ?_⟩, ⟨_, o.work, ?_⟩, ?_, fun k n hn => ?_⟩
  · have hex : ∀ {a b : List (AnBuf × AnCmd A)}, List.Forall₂ SameCmd a b →
        b.map (fun e => (e.1, unmarked e.2)) = a.map (fun q => (q.1, unmarked q.2)) := by
      intro a b hab
      induction hab with
      | nil => rfl
      | cons h _ ih => simp only [List.map_cons, h.1, h.2, ih]
    rw [o.pushed, List.map_append, hex o.executed]
  · unfold Executer.current
    split
    · exact .inr ⟨_, rfl⟩
    · exact .inl rfl
  · rw [← o.posted.length_eq, o.executed.length_eq]
  · obtain ⟨hk, rfl⟩ := List.getElem?_eq_some_iff.1 hn
    have hk' : k < served.length := by rw [o.posted.length_eq]; exact hk
    refine ⟨served[k], ?_, o.posted.get hk' hk⟩
    rw [o.pushed, List.getElem?_append_left hk', List.getElem?_eq_getElem hk']

/-- An Open pushed, and a Close while the executor is at work on the Open. -/
def openClose : List (ExecInput .x86) :=
  [.push (some 7) (some 0) (openCmd 1 9), .run midnight, .run midnight, .push (some 7) (some 0) (closeCmd 1 10),
    .run midnight, .run midnight]

theorem executer_serves_open_close : ∃ s es,
    (executerMachine .x86 .documented).run (Executer.new .blank) openClose = some (s, es) ∧
    s.fault = none ∧
    (executedOf es).map (fun e => (e.1, unmarked e.2)) <+: (pushedOf es).map (fun q => (q.1, unmarked q.2)) ∧
    (∃ busy, workOf es = executedThenPopped (poppedOf es) ++ busy ∧ (busy = [] ∨ ∃ b, busy = [.inl b])) ∧
    (postedOf es).length = (executedOf es).length ∧
    ∀ (k : Nat) (n : Notice), (postedOf es)[k]? = some n → ∃ q, (pushedOf es)[k]? = some q ∧ Answers q n := by
  obtain ⟨s, es, hr, -⟩ : ∃ s es, (executerMachine .x86 .documented).run (Executer.new .blank) openClose =
      some (s, es) ∧ (postedOf es).length = 1 := Machine.run_any (by decide +kernel)
  refine ⟨s, es, hr, executer_serves_in_order (fun i hi => ?_) hr⟩
  simp only [openClose, List.mem_cons, List.not_mem_nil, or_false] at hi
  rcases hi with rfl | rfl | rfl | rfl | rfl | rfl
  · exact ⟨rfl, .wfpOpen, .anWfpopenImpl, rfl, rfl⟩
  · trivial
  · trivial
  · exact ⟨rfl, .wfpClose, .anWfpcloseImpl, rfl, rfl⟩
  · trivial
  · trivial

end AnXfs.Server
