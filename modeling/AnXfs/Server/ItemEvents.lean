/-
The executor and the item check together: `cmd_handler` wakes the thread up with the ids of an Execute and the
reset comes when the Execute is done, while `item_pass_check` reads the two ids after `wait` has given the lock
away. `itemEvents_executed` says in which runs what it posts belongs to an Execute.
-/
import AnXfs.Server.ItemCheck

namespace AnXfs.Server

open AnXfs.Pack AnXfs.Run

variable {A : Arch} {api : XfsApi}

/-! ## The two threads -/

/-- The item check, and the ids of the Execute that the executor is at. -/
structure CheckedExecuter where
  check : CItemPassCheck
  executing : Option (HService × RequestId)
  deriving DecidableEq

def CheckedExecuter.new : CheckedExecuter := ⟨.new, none⟩

inductive ItemEvent where
  | executed (service : HService) (reqid : RequestId)
  | check (x : CheckEvent)
  deriving DecidableEq

/-- `warkup_item_check` and `pause_item_check` of an Execute, `stop` in its two parts, and a step of the item check. -/
inductive ItemInput where
  | warkupItemCheck (service : HService) (reqid : RequestId)
  | pauseItemCheck
  | stop
  | stopSignal
  | thread (spurious : Bool)
  deriving DecidableEq

/-- What the input is for the item check. -/
def ItemInput.toCheck : ItemInput → CheckInput
  | .warkupItemCheck service reqid => .signal service reqid
  | .pauseItemCheck => .reset
  | .stop => .stop
  | .stopSignal => .stopSignal
  | .thread spurious => .thread spurious

namespace CheckedExecuter

variable (s : CheckedExecuter)

/-- The executor comes to an Execute when it is at none, and to the end of the one that it is at. -/
def executes : ItemInput → Option (Option (HService × RequestId) × List ItemEvent)
  | .warkupItemCheck service reqid =>
    if s.executing = none then some (some (service, reqid), [.executed service reqid]) else none
  | .pauseItemCheck => if s.executing = none then none else some (none, [])
  | .stop | .stopSignal | .thread _ => some (s.executing, [])

def step (i : ItemInput) : Option (CheckedExecuter × List ItemEvent) :=
  (s.executes i).bind fun (executing, e) =>
    (s.check.step i.toCheck).map fun (check, e') => (⟨check, executing⟩, e ++ e'.map .check)

end CheckedExecuter

def itemMachine : Machine CheckedExecuter ItemInput ItemEvent where
  step := CheckedExecuter.step

/-! ## Events of an Execute -/

/-- An event posted before `stop` has the ids of an Execute, and is not the event of none. -/
def OfExecute (h : List ItemEvent) (s : CheckedExecuter) (e : List ItemEvent) : Prop :=
  s.check.mStopFlag = false → ∀ service reqid, .check (.posted service reqid) ∈ e →
    .executed service reqid ∈ h ∧ ¬ (service = 0 ∧ reqid = 0)

/-- The service that has been read, at the second read. -/
def CheckPc.firstRead : CheckPc → Option HService
  | .readReqid service => some service
  | _ => none

/-- At the second read the semaphore still holds the service that was read first, and has not been reset. -/
def StillHeld (s : CheckedExecuter) : ItemInput → Prop
  | .thread _ => s.check.mStopFlag = false → ∀ service ∈ s.check.pc.firstRead,
      s.check.curService = service ∧ ¬ (s.check.curService = 0 ∧ s.check.curReqid = 0)
  | _ => True

/-- Each request id belongs to one service. -/
def Known (serviceOf : RequestId → HService) : ItemInput → Prop
  | .warkupItemCheck service reqid => service = serviceOf reqid ∧ reqid ≠ 0
  | _ => True

instance (s : CheckedExecuter) : (i : ItemInput) → Decidable (StillHeld s i)
  | .thread _ =>
    -- over the service that was read, not over all of them
    have : Decidable (∀ service ∈ s.check.pc.firstRead,
      s.check.curService = service ∧ ¬ (s.check.curService = 0 ∧ s.check.curReqid = 0)) := Option.decidableForallMem _
    inferInstanceAs (Decidable (s.check.mStopFlag = false → _))
  | .warkupItemCheck .. | .pauseItemCheck | .stop | .stopSignal => inferInstanceAs (Decidable True)

/-- Before `stop` the semaphore holds the ids of an Execute, or none. -/
structure Executed (h : List ItemEvent) (s : CheckedExecuter) : Prop where
  held : s.check.mStopFlag = false → (s.check.curService = 0 ∧ s.check.curReqid = 0) ∨
    .executed s.check.curService s.check.curReqid ∈ h
  stopping : s.check.mStopFlag = false → s.check.stopping = 0

theorem itemMachine_step {s t : CheckedExecuter} {i : ItemInput} {e : List ItemEvent}
    (h : itemMachine.step s i = some (t, e)) : ∃ e₁ e₂, s.executes i = some (t.executing, e₁) ∧
      s.check.step i.toCheck = some (t.check, e₂) ∧ e = e₁ ++ e₂.map .check := by
  obtain ⟨⟨x, e₁⟩, hx, h⟩ := Option.bind_eq_some_iff.1 h
  obtain ⟨⟨c, e₂⟩, hc, h⟩ := Option.map_eq_some_iff.1 h
  cases h
  exact ⟨e₁, e₂, hx, hc, rfl⟩

theorem executed_step {h e : List ItemEvent} {s t : CheckedExecuter} {i : ItemInput} (hs : Executed h s)
    (ht : itemMachine.step s i = some (t, e)) : Executed (h ++ e) t := by
  obtain ⟨e₁, e₂, hx, hc, rfl⟩ := itemMachine_step ht
  obtain ⟨check, executing⟩ := t
  cases i with
  | warkupItemCheck service reqid =>
    obtain ⟨-, hx⟩ := Option.ite_none_right_eq_some.1 hx
    cases hx
    cases hc
    refine ⟨fun _ => .inr ?_, hs.stopping⟩
    simp
  | pauseItemCheck =>
    cases hc
    exact ⟨fun _ => .inl ⟨rfl, rfl⟩, hs.stopping⟩
  | stop =>
    cases hc
    constructor
    · intro hf
      cases hf
    · intro hf
      cases hf
  | stopSignal =>
    obtain ⟨hne, heq⟩ := Option.ite_none_left_eq_some.1 hc
    cases heq
    constructor
    · intro hf
      exact absurd (hs.stopping hf) hne
    · intro hf
      exact absurd (hs.stopping hf) hne
  | thread spurious =>
    cases hx
    have hfields : check.mStopFlag = s.check.mStopFlag ∧ check.stopping = s.check.stopping ∧
        check.curService = s.check.curService ∧ check.curReqid = s.check.curReqid := by
      rcases run_cases hc with ⟨-, -, m, returned, hw, heq⟩ | ⟨-, ⟨pc, heq⟩, -⟩
      · obtain ⟨hservice, hreqid, -⟩ := wait_cases hw
        obtain rfl : check = _ := heq
        exact ⟨rfl, rfl, hservice, hreqid⟩
      · obtain rfl : check = _ := heq
        exact ⟨rfl, rfl, rfl, rfl⟩
    obtain ⟨hflag, hstopping, hservice, hreqid⟩ := hfields
    refine ⟨fun hf => ?_, fun hf => ?_⟩
    · simp only [hservice, hreqid]
      exact (hs.held (hflag.symm.trans hf)).imp id (List.mem_append_left _)
    · exact hstopping.trans (hs.stopping (hflag.symm.trans hf))

/-- Only the second read posts, with the service that was read first. -/
theorem check_posted_iff {s t : CItemPassCheck} {i : CheckInput} {e : List CheckEvent} (ht : s.step i = some (t, e))
    (service : HService) (reqid : RequestId) : .posted service reqid ∈ e ↔
      ∃ spurious, i = .thread spurious ∧ s.pc = .readReqid service ∧ reqid = s.curReqid := by
  cases i with
  | signal _ _ | reset | stop =>
    cases ht
    simp
  | stopSignal =>
    obtain ⟨-, heq⟩ := Option.ite_none_left_eq_some.1 ht
    cases heq
    simp
  | thread spurious =>
    rcases run_cases ht with ⟨hpc, rfl, -⟩ | ⟨-, -, ⟨rfl, hpc⟩ | ⟨service', hpc, rfl⟩⟩
    · simp [hpc]
    · simp [hpc service]
    · simp [hpc, eq_comm]

/-- The executor's own event is that of an Execute it comes to. -/
theorem executes_events {s : CheckedExecuter} {i : ItemInput} {x : Option (HService × RequestId)} {e : List ItemEvent}
    (h : s.executes i = some (x, e)) : e = match i with
      | .warkupItemCheck service reqid => [.executed service reqid]
      | _ => [] := by
  cases i with
  | warkupItemCheck service reqid =>
    obtain ⟨-, heq⟩ := Option.ite_none_right_eq_some.1 h
    exact (congrArg Prod.snd (Option.some.inj heq)).symm
  | pauseItemCheck =>
    obtain ⟨-, heq⟩ := Option.ite_none_left_eq_some.1 h
    exact (congrArg Prod.snd (Option.some.inj heq)).symm
  | stop | stopSignal | thread _ => exact (congrArg Prod.snd (Option.some.inj h)).symm

theorem posted_iff {s t : CheckedExecuter} {i : ItemInput} {e : List ItemEvent}
    (ht : itemMachine.step s i = some (t, e)) (service : HService) (reqid : RequestId) :
    .check (.posted service reqid) ∈ e ↔
      ∃ spurious, i = .thread spurious ∧ s.check.pc = .readReqid service ∧ reqid = s.check.curReqid := by
  obtain ⟨e₁, e₂, hx, hc, rfl⟩ := itemMachine_step ht
  have hnone : .check (.posted service reqid) ∉ e₁ := by
    rw [executes_events hx]
    cases i <;> simp
  rw [List.mem_append, or_iff_right hnone, List.mem_map_of_injective (fun _ _ h => ItemEvent.check.inj h),
    check_posted_iff hc]
  cases i <;> simp [ItemInput.toCheck]

/-- An Execute's event is that of its input. -/
theorem executed_iff {s t : CheckedExecuter} {i : ItemInput} {e : List ItemEvent}
    (ht : itemMachine.step s i = some (t, e)) (service : HService) (reqid : RequestId) :
    .executed service reqid ∈ e ↔ i = .warkupItemCheck service reqid := by
  obtain ⟨e₁, e₂, hx, -, rfl⟩ := itemMachine_step ht
  rw [executes_events hx]
  cases i <;> simp [eq_comm]

theorem firstRead_eq {pc : CheckPc} {service : HService} (h : pc.firstRead = some service) :
    pc = .readReqid service := by
  cases pc with
  | readReqid service' => exact congrArg _ (Option.some.inj h)
  | stopTest | wait | stopTestAgain | itemPassCheck | exited => cases h

theorem ofExecute_step {h e : List ItemEvent} {s t : CheckedExecuter} {i : ItemInput} (hs : Executed h s)
    (hg : StillHeld s i) (ht : itemMachine.step s i = some (t, e)) : OfExecute h s e := by
  intro hf service reqid hp
  obtain ⟨spurious, rfl, hpc, rfl⟩ := (posted_iff ht service reqid).1 hp
  obtain ⟨hservice, hne⟩ := hg hf service (by rw [hpc]; rfl)
  rw [← hservice]
  exact ⟨(hs.held hf).resolve_left hne, hne⟩

/-- Where a request id tells its service, nothing else will do. -/
theorem stillHeld_step {serviceOf : RequestId → HService} {h e : List ItemEvent} {s t : CheckedExecuter} {i : ItemInput}
    (hs : Executed h s) (hk : ∀ service reqid, .executed service reqid ∈ h → service = serviceOf reqid ∧ reqid ≠ 0)
    (ho : OfExecute h s e) (ht : itemMachine.step s i = some (t, e)) : StillHeld s i := by
  cases i with
  | thread spurious =>
    intro hf service hread
    have hpc : s.check.pc = .readReqid service := firstRead_eq hread
    obtain ⟨hposted, -⟩ := ho hf service s.check.curReqid ((posted_iff ht service _).2 ⟨spurious, rfl, hpc, rfl⟩)
    obtain ⟨hservice, hreqid⟩ := hk _ _ hposted
    rcases hs.held hf with ⟨-, hzero⟩ | hheld
    · exact absurd hzero hreqid
    · exact ⟨(hk _ _ hheld).1.trans hservice.symm, fun h0 => hreqid h0.2⟩
  | warkupItemCheck _ _ | pauseItemCheck | stop | stopSignal => trivial

theorem known_step {serviceOf : RequestId → HService} {h e : List ItemEvent} {s t : CheckedExecuter} {i : ItemInput}
    (hk : ∀ service reqid, .executed service reqid ∈ h → service = serviceOf reqid ∧ reqid ≠ 0)
    (hi : Known serviceOf i) (ht : itemMachine.step s i = some (t, e)) :
    ∀ service reqid, .executed service reqid ∈ h ++ e → service = serviceOf reqid ∧ reqid ≠ 0 := by
  intro service reqid hmem
  rcases List.mem_append.1 hmem with hmem | hmem
  · exact hk service reqid hmem
  · rw [(executed_iff ht service reqid).1 hmem] at hi
    exact hi

theorem executed_new : Executed [] .new := ⟨fun _ => .inl ⟨rfl, rfl⟩, fun _ => rfl⟩

/-- For every interleaving of the executor, `stop` and the item check: if at each second read before `stop` the
semaphore still holds the service that was read first and has not been reset, each event posted before `stop` has
the ids of an executed Execute and is not that of (0, 0). Where a request id tells its service and is not zero, that
is also necessary. -/
theorem itemEvents_executed {is : List ItemInput} {s : CheckedExecuter} {es : List ItemEvent}
    (hr : itemMachine.run .new is = some (s, es)) :
    (itemMachine.Meets StillHeld .new is → itemMachine.AtEach (fun h u _ _ e _ => OfExecute h u e) .new is) ∧
      ∀ serviceOf, (∀ i ∈ is, Known serviceOf i) →
        itemMachine.AtEach (fun h u _ _ e _ => OfExecute h u e) .new is → itemMachine.Meets StillHeld .new is := by
  constructor
  · intro hm
    exact Machine.atEach_of_meets (fun _ _ _ _ _ hs _ ht => executed_step hs ht)
      (fun _ _ _ _ _ _ _ _ hs hg ht _ _ => ofExecute_step hs hg ht) executed_new hm
  · intro serviceOf hk ha
    have hiff := Machine.atEach_iff_meets (M := itemMachine) (P := fun h u i _ e => OfExecute h u e ∧ Known serviceOf i)
      (G := fun u i => StillHeld u i ∧ Known serviceOf i)
      (I := fun h u => Executed h u ∧
        ∀ service reqid, .executed service reqid ∈ h → service = serviceOf reqid ∧ reqid ≠ 0)
      (fun h u i t e hs ht => and_congr_left fun _ => ⟨fun ho => stillHeld_step hs.1 hs.2 ho ht,
        fun hg => ofExecute_step hs.1 hg ht⟩)
      (fun h u i t e hs hg ht => ⟨executed_step hs.1 ht, known_step hs.2 hg.2 ht⟩)
      ⟨executed_new, fun _ _ hmem => absurd hmem List.not_mem_nil⟩ hr
    refine (Machine.meets_and.1 (hiff.1 ?_)).1
    intro is₁ i is₂ h u t e v e' his hu ht hv
    exact ⟨ha his hu ht hv, hk i (by rw [his]; exact List.mem_append_right _ (List.mem_cons_self ..))⟩

/-- Two Executes, each signalled, posted and reset, with the reset of the second after its event. -/
def twoExecutes : List ItemInput :=
  [.warkupItemCheck 1 7] ++ List.replicate 5 (.thread false) ++ [.pauseItemCheck, .warkupItemCheck 2 8] ++
    List.replicate 5 (.thread false) ++ [.pauseItemCheck]

theorem twoExecutes_executed : ∃ s es, itemMachine.run .new twoExecutes = some (s, es) ∧
    .check (.posted 1 7) ∈ es ∧ .check (.posted 2 8) ∈ es ∧
      itemMachine.AtEach (fun h u _ _ e _ => OfExecute h u e) .new twoExecutes := by
  obtain ⟨s, es, hr, h₁, h₂⟩ : ∃ s es, itemMachine.run .new twoExecutes = some (s, es) ∧
      .check (.posted 1 7) ∈ es ∧ .check (.posted 2 8) ∈ es := Machine.run_any (by decide +kernel)
  exact ⟨s, es, hr, h₁, h₂, (itemEvents_executed hr).1 (by decide +kernel)⟩

/-- The Execute is done between the wake-up and the reads: the event is that of no command. -/
theorem event_of_nothing : ¬ itemMachine.AtEach (fun h u _ _ e _ => OfExecute h u e) .new
    (([.warkupItemCheck 1 7] ++ List.replicate 2 (.thread false) ++ [.pauseItemCheck] ++
      List.replicate 2 (.thread false)) ++ .thread false :: []) := by
  refine Machine.not_atEach (fun _ u _ e _ =>
    decide (u.check.mStopFlag = false ∧ .check (.posted 0 0) ∈ e)) ?_ (by decide +kernel)
  rintro h u t e _ hb ho
  obtain ⟨hf, he⟩ := of_decide_eq_true hb
  exact (ho hf 0 0 he).2 ⟨rfl, rfl⟩

/-! ## The executor's item check -/

/-- Where the item check of `Executer` stands, which has neither the sleep in `wait` nor the flag. -/
def CheckPc.toItemPc : CheckPc → ItemPc
  | .stopTest | .wait | .exited => .wait
  | .stopTestAgain | .itemPassCheck => .itemPassCheck
  | .readReqid service => .readReqid service

/-- The executor's item check follows this one. -/
structure Mirrors (x : Executer A api) (s : CItemPassCheck) : Prop where
  service : x.xfs.curService = s.curService
  reqid : x.xfs.curReqid = s.curReqid
  pc : x.itemPc = s.pc.toItemPc

/-- What is posted is broadcast. -/
def broadcastsOf (A : Arch) (api : XfsApi) (now : AnSystemtime) (e : List CheckEvent) : List (ExecEvent A) :=
  e.filterMap fun
    | .posted service reqid => some (.broadcast (Executer.itemPassCheck A api now service reqid))
    | .signalled .. | .reset => none

/-- `warkup_item_check` of an Execute signals. -/
theorem mirrors_signal {x : Executer A api} {s : CItemPassCheck} (h : Mirrors x s) (service : HService)
    (reqid : RequestId) : Mirrors { x with xfs := x.xfs.warkupItemCheck AnWfpType.wfpExecute.code service reqid }
      { s with toAnSemaphore := s.signal service reqid } := by
  unfold CanXfs.warkupItemCheck
  rw [if_pos rfl]
  exact ⟨(signal_curService ..).symm, (signal_curReqid ..).symm, h.pc⟩

/-- `pause_item_check` of an Execute resets. -/
theorem mirrors_reset {x : Executer A api} {s : CItemPassCheck} (h : Mirrors x s) :
    Mirrors { x with xfs := x.xfs.pauseItemCheck AnWfpType.wfpExecute.code }
      { s with toAnSemaphore := s.reset } := by
  unfold CanXfs.pauseItemCheck
  rw [if_pos rfl]
  exact ⟨rfl, rfl, h.pc⟩

/-- Before `stop`, whatever the thread does the executor's item check does too, or it stays where it is. -/
theorem itemCheck_mirrors {x : Executer A api} {s t : CItemPassCheck} {spurious : Bool} {e : List CheckEvent}
    (hx : Mirrors x s) (hf : s.mStopFlag = false) (h : s.run spurious = some (t, e)) (now : AnSystemtime) :
    ∃ y, Mirrors y t ∧ (y = x ∧ e = [] ∨ x.itemCheck now = some (y, broadcastsOf A api now e)) := by
  obtain ⟨hservice, hreqid, hpc⟩ := hx
  unfold Executer.itemCheck
  unfold CItemPassCheck.run at h
  split at h
  · rename_i hs
    cases h
    refine ⟨x, ⟨hservice, hreqid, ?_⟩, .inl ⟨rfl, rfl⟩⟩
    rw [hpc, hs, hf]
    rfl
  · rename_i hs
    obtain ⟨⟨m, returned⟩, hw, h⟩ := Option.map_eq_some_iff.1 h
    cases h
    obtain ⟨hms, hmr, hcases⟩ := wait_cases hw
    rcases hcases with ⟨rfl, -, hids⟩ | ⟨rfl, -⟩
    · refine ⟨{ x with itemPc := .itemPassCheck }, ⟨hservice.trans hms.symm, hreqid.trans hmr.symm, rfl⟩, .inr ?_⟩
      have hne : ¬ (x.xfs.curService = 0 ∧ x.xfs.curReqid = 0) := by
        rw [hservice, hreqid]
        rintro ⟨h0, h1⟩
        exact hids.elim (fun hn => hn h0) fun hn => hn h1
      rw [hpc, hs]
      exact if_neg hne
    · refine ⟨x, ⟨hservice.trans hms.symm, hreqid.trans hmr.symm, ?_⟩, .inl ⟨rfl, rfl⟩⟩
      rw [hpc, hs]
      rfl
  · rename_i hs
    cases h
    refine ⟨x, ⟨hservice, hreqid, ?_⟩, .inl ⟨rfl, rfl⟩⟩
    rw [hpc, hs, hf]
    rfl
  · rename_i hs
    cases h
    refine ⟨{ x with itemPc := .readReqid x.xfs.curService }, ⟨hservice, hreqid, by rw [hservice]; rfl⟩, .inr ?_⟩
    rw [hpc, hs]
    rfl
  · rename_i service hs
    cases h
    refine ⟨{ x with itemPc := .wait }, ⟨hservice, hreqid, rfl⟩, .inr ?_⟩
    rw [hpc, hs, ← hreqid]
    rfl
  · cases h

end AnXfs.Server
