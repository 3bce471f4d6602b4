/-
Every notice has one end, in the runs in which no connection is found closing or gone and every write
completes: `settled_iff`. What is given up otherwise is the entry of the notice itself, of a clone for a
connection that is closing or erased, or of a write that failed.
-/
import AnXfs.Server.Ledger

namespace AnXfs.Server

open AnXfs.Wire AnXfs.Pack AnXfs.Run

variable {A : Arch} {api : XfsApi}

/-! ## Flagged notices -/

/-- Every command came from a connection, so that a flagged notice has one to go to; and the memory of the connection
that a flagged write goes to is there until the write has been reported. -/
structure Addressed (s : CanIPCServer A api) : Prop where
  front : Fronted s.exec
  commands : ∀ b ∈ s.exec.waiting, b.mClient ≠ none
  notices : ∀ n ∈ s.asyncs, n.notifyExitFlag = true → n.client ≠ none
  live : ∀ w ∈ s.writes, w.notice.notifyExitFlag = true →
    ∃ a p, w.notice.client = some a ∧ w.handle = a ∧ s.mem a = some p

theorem current_waiting {x : Executer A api} (hf : Fronted x) (hpc : x.pc = .cmdHandler) :
    x.currentCmd ∈ x.waiting := by
  obtain ⟨rest, hd⟩ := hf (by rw [hpc]; decide) (by rw [hpc]; decide)
  simp [Executer.waiting, hpc, ExecPc.executed, hd]

/-- A flagged notice of the executor answers a command that waited. -/
theorem stepped_flagged {x y : Executer A api} {j : ExecInput A} {e : List (ExecEvent A)} (hf : Fronted x)
    (hs : Stepped x j y e) : ∀ n ∈ noticesOf e, n.notifyExitFlag = true → ∃ b ∈ x.waiting, n.client = b.mClient := by
  intro n hn hflag
  cases hs with
  | pushed client origin m => simp [noticesOf, Executer.pushBackCmdDeque] at hn
  | quiet => simp [noticesOf] at hn
  | broadcast i itemPc r =>
    simp only [noticesOf, List.filterMap_cons, List.filterMap_nil, List.mem_singleton] at hn
    subst hn
    cases hflag
  | ran now y e hr =>
    cases hr with
    | handled p m t c hpc =>
      simp only [noticesOf, List.filterMap_cons, List.filterMap_nil, List.mem_singleton] at hn
      subst hn
      exact ⟨x.currentCmd, current_waiting hf hpc, rfl⟩
    | _ => simp [noticesOf] at hn

theorem addressed_step {s t : CanIPCServer A api} {i : Input} {e : List (Event A)} (hs : Addressed s)
    (hstep : (serverMachine A api).step s i = some (t, e)) : Addressed t := by
  obtain ⟨-, -, ha⟩ := server_acted hstep
  have hnotices : ∀ k, ∀ n ∈ s.asyncs.eraseIdx k, n.notifyExitFlag = true → n.client ≠ none := fun k n hn =>
    hs.notices n (List.mem_of_mem_eraseIdx hn)
  have hlive : ∀ k, ∀ w ∈ s.writes.eraseIdx k, w.notice.notifyExitFlag = true →
      ∃ a p, w.notice.client = some a ∧ w.handle = a ∧ s.mem a = some p := fun k w hw =>
    hs.live w (List.mem_of_mem_eraseIdx hw)
  cases ha with
  | listenFailed | acceptFailed | readFaulty | closedUnknown | loopExit =>
    exact ⟨hs.front, hs.commands, hs.notices, hs.live⟩
  | accepted status addr accept hm => exact ⟨hs.front, hs.commands, hs.notices, live_update hs.live (.inl rfl)⟩
  | readFailed addr p hm => exact ⟨hs.front, hs.commands, hs.notices, live_update hs.live (.inl rfl)⟩
  | closed addr p hm hc hw hv => exact ⟨hs.front, hs.commands, hs.notices, live_update hs.live (.inr hw)⟩
  | readInfo addr p chunk now m rest n hm hc hr hget hn =>
    refine ⟨hs.front, hs.commands, fun k hk hf => ?_, hs.live⟩
    rcases List.mem_append.1 hk with hk | hk
    · exact hs.notices k hk hf
    · rw [List.mem_singleton.1 hk, (spiGetinfo_ok hn).2.2.1] at hf
      cases hf
  | readCommand addr p chunk now m rest hm hc hr hget =>
    obtain ⟨hw, hfront⟩ := waiting_push hs.front (some addr) (some p.id) m
    refine ⟨hfront, fun b hb => ?_, hs.notices, hs.live⟩
    have hb : b ∈ (s.exec.pushBackCmdDeque (some addr) (some p.id) m).1.waiting := hb
    rw [hw] at hb
    rcases List.mem_append.1 hb with hb | hb
    · exact hs.commands b hb
    · rw [List.mem_singleton.1 hb]
      exact Option.some_ne_none _
  | notifiedAll k n uvWrite garbage ws f e hk hn hws he =>
    refine ⟨hs.front, hs.commands, hnotices k, fun w hw hf => ?_⟩
    rcases List.mem_append.1 hw with hw | hw
    · exact hs.live w hw hf
    · -- what is broadcast has no client, and so no flag
      rw [(hws w hw).1] at hf
      exact absurd hn (hs.notices n (List.mem_of_getElem? hk) hf)
  | notified k n uvWrite garbage a t e r hk hn hsent hwritten =>
    obtain ⟨⟨ws, f, rfl, hws⟩, -⟩ := sent_frame hsent
    refine ⟨hs.front, hs.commands, hnotices k, fun w hw hf => ?_⟩
    rcases List.mem_append.1 hw with hw | hw
    · exact hs.live w hw hf
    · obtain ⟨rfl, p, hp, -⟩ := hws w hw
      exact ⟨a, p, hn, rfl, hp⟩
  | writeFailed k | written k | strayWrite k | exits k | exitsAgain k =>
    exact ⟨hs.front, hs.commands, hs.notices, hlive k⟩
  | exec i j x ex hj hst =>
    have hpush : ∀ c o m, j ≠ .push c o m := by
      rintro c o m rfl
      cases i <;> cases hj
    obtain ⟨hw, hfront, -⟩ := stepped_notices hs.front hst hpush
    refine ⟨hfront, fun b hb => hs.commands b (hw b hb), fun n hn hf => ?_, hs.live⟩
    rcases List.mem_append.1 hn with hn | hn
    · exact hs.notices n hn hf
    · obtain ⟨b, hb, hc⟩ := stepped_flagged hs.front hst n hn hf
      rw [hc]
      exact hs.commands b hb

/-- A write that has completed is released, and no other. -/
theorem onWrite_released {s : CanIPCServer A api} (hs : Addressed s) {j : Nat} {req : WriteReq}
    (hj : s.writes[j]? = some req) (status : Int) :
    .released req.notice ∈ ({ s with writes := s.writes.eraseIdx j }.onWrite req status).2 ↔ 0 ≤ status := by
  unfold CanIPCServer.onWrite
  by_cases hst : status < 0
  · rw [if_pos hst]
    exact iff_of_false List.not_mem_nil (by omega)
  rw [if_neg hst]
  refine iff_of_true ?_ (by omega)
  by_cases hf : req.notice.notifyExitFlag = true
  · obtain ⟨a, p, hc, -, hp⟩ := hs.live req (List.mem_of_getElem? hj) hf
    rw [if_pos hf, hc]
    simp [hp]
  · rw [if_neg hf]
    exact List.mem_singleton_self _

/-! ## A step of the ledger -/

/-- What a step does to the ledger, by input. -/
inductive Booked (l : Ledger A api) : Input → Ledger A api × List LedgerEvent → Prop
  | notified (j : Nat) (uvWrite : Addr → Int) (garbage : Bool) (n : Notice) (k : Nat) :
      l.server.asyncs[j]? = some n → l.asyncs[j]? = some k →
      Booked l (.notify j uvWrite garbage) ((l.takeNotice j).onNotify n k uvWrite garbage)
  | written (j : Nat) (status : Int) (req : WriteReq) (k : Nat) :
      l.server.writes[j]? = some req → l.writes[j]? = some k →
      Booked l (.write j status) ((l.takeWrite j).onWrite req k status)
  | posted (i : Input) (t : CanIPCServer A api) (ns : List Notice) :
      (∀ j uvWrite garbage, i ≠ .notify j uvWrite garbage) → (∀ j status, i ≠ .write j status) →
      t.asyncs = l.server.asyncs ++ ns → t.writes = l.server.writes → Booked l i (l.posted t)

/-- A step that reports neither a notice nor a write adds notices, and no write. -/
theorem acted_posts {s t : CanIPCServer A api} {i : Input} {e : List (Event A)} (h : Acted s i t e)
    (hn : ∀ j uvWrite garbage, i ≠ .notify j uvWrite garbage) (hw : ∀ j status, i ≠ .write j status) :
    ∃ ns, t.asyncs = s.asyncs ++ ns ∧ t.writes = s.writes := by
  cases h with
  | listenFailed | accepted | acceptFailed | readFaulty | readCommand | readFailed | closed | closedUnknown
  | loopExit =>
    exact ⟨[], (List.append_nil _).symm, rfl⟩
  | readInfo addr p chunk now m rest n => exact ⟨[n], rfl, rfl⟩
  | notifiedAll k n uvWrite garbage | notified k n uvWrite garbage => exact absurd rfl (hn k uvWrite garbage)
  | writeFailed k w status | written k w status | strayWrite k w status | exits k w status | exitsAgain k w status =>
    exact absurd rfl (hw k status)
  | exec i j x ex => exact ⟨noticesOf ex, rfl, rfl⟩

theorem ledger_booked {l : Ledger A api} {i : Input} {r : Ledger A api × List LedgerEvent}
    (h : (ledgerMachine A api).step l i = some r) : l.server.fault = none ∧ Booked l i r := by
  obtain ⟨⟨t, es⟩, hs, h⟩ := Option.bind_eq_some_iff.1 h
  obtain ⟨hf, -, ha⟩ := server_acted (show (serverMachine A api).step l.server i = some (t, es) from hs)
  refine ⟨hf, ?_⟩
  by_cases hnotify : ∃ j uvWrite garbage, i = .notify j uvWrite garbage
  · obtain ⟨j, uvWrite, garbage, rfl⟩ := hnotify
    obtain ⟨n, hn, h⟩ := Option.bind_eq_some_iff.1 h
    obtain ⟨k, hk, rfl⟩ := Option.map_eq_some_iff.1 h
    exact .notified j uvWrite garbage n k hn hk
  by_cases hwrite : ∃ j status, i = .write j status
  · obtain ⟨j, status, rfl⟩ := hwrite
    obtain ⟨req, hw, h⟩ := Option.bind_eq_some_iff.1 h
    obtain ⟨k, hk, rfl⟩ := Option.map_eq_some_iff.1 h
    exact .written j status req k hw hk
  push Not at hnotify hwrite
  obtain ⟨ns, ht, hw⟩ := acted_posts ha hnotify hwrite
  have hr : r = l.posted t := by
    cases i with
    | notify j uvWrite garbage => exact absurd rfl (hnotify j uvWrite garbage)
    | write j status => exact absurd rfl (hwrite j status)
    | newConnection _ _ _ | read _ _ _ | readError _ | closed _ | run _ | idle _ _ | itemCheck _ | loopExit =>
      exact (Option.some.inj h).symm
  rw [hr]
  exact .posted i t ns hnotify hwrite ht hw

/-- One entry for every notice and every write under way. -/
structure Parallel (l : Ledger A api) : Prop where
  asyncs : l.asyncs.length = l.server.asyncs.length
  writes : l.writes.length = l.server.writes.length

/-- `on_write` leaves the notices and the other writes under way. -/
theorem onWrite_frame (s : CanIPCServer A api) (req : WriteReq) (status : Int) :
    (s.onWrite req status).1.asyncs = s.asyncs ∧ (s.onWrite req status).1.writes = s.writes := by
  unfold CanIPCServer.onWrite
  split
  · exact ⟨rfl, rfl⟩
  split
  swap
  · exact ⟨rfl, rfl⟩
  split
  · exact ⟨rfl, rfl⟩
  split
  · exact ⟨rfl, rfl⟩
  unfold CanIPCServer.notifyExitServer
  simp only
  split
  · exact ⟨rfl, rfl⟩
  · exact ⟨rfl, rfl⟩

theorem parallel_booked {l : Ledger A api} {i : Input} {r : Ledger A api × List LedgerEvent} (hp : Parallel l)
    (h : Booked l i r) : Parallel r.1 := by
  obtain ⟨hasyncs, hwrites⟩ := hp
  cases h with
  | notified j uvWrite garbage n k hn hk =>
    have hnoted := onNotify_noted uvWrite garbage (l.takeNotice j) n k
    have herase : (l.asyncs.eraseIdx j).length = (l.server.asyncs.eraseIdx j).length := by
      rw [List.length_eraseIdx, List.length_eraseIdx, hasyncs]
    have hparallel := hnoted.parallel
    have htaken : (l.takeNotice j).writes.length = (l.takeNotice j).server.writes.length := hwrites
    refine ⟨?_, by omega⟩
    rw [hnoted.asyncs.1, hnoted.asyncs.2]
    exact herase
  | written j status req k hw hk =>
    obtain ⟨ha, hw⟩ := onWrite_frame (l.takeWrite j).server req status
    have herase : (l.writes.eraseIdx j).length = (l.server.writes.eraseIdx j).length := by
      rw [List.length_eraseIdx, List.length_eraseIdx, hwrites]
    refine ⟨?_, ?_⟩
    · rw [onWrite_server, ha]
      exact hasyncs
    · rw [onWrite_server, hw]
      exact herase
  | posted i t ns hi hj ht hw =>
    have hlen : t.writes.length = l.server.writes.length := congrArg List.length hw
    refine ⟨?_, hwrites.trans hlen.symm⟩
    simp [Ledger.posted, ht, hasyncs]

/-- Whatever the server does, the ledger does. -/
theorem ledger_step_of_server {l : Ledger A api} (hp : Parallel l) {i : Input} {t : CanIPCServer A api}
    {e : List (Event A)} (h : (serverMachine A api).step l.server i = some (t, e)) :
    ∃ m e, (ledgerMachine A api).step l i = some (m, e) ∧ t = m.server ∧ Parallel m := by
  have hstep : ∃ m e, (ledgerMachine A api).step l i = some (m, e) := by
    have hs : l.server.step i = some (t, e) := h
    show ∃ m e, l.step i = some (m, e)
    unfold Ledger.step
    rw [hs]
    cases i with
    | notify j uvWrite garbage =>
      obtain ⟨n, hn, -⟩ := step_notify h
      obtain ⟨hj, -⟩ := List.getElem?_eq_some_iff.1 hn
      have hk := List.getElem?_eq_getElem (hj.trans_eq hp.asyncs.symm)
      exact ⟨_, _, by simp only [Option.bind_some, hn, hk, Option.map_some]; rfl⟩
    | write j status =>
      obtain ⟨w, hw, -⟩ := step_write h
      obtain ⟨hj, -⟩ := List.getElem?_eq_some_iff.1 hw
      have hk := List.getElem?_eq_getElem (hj.trans_eq hp.writes.symm)
      exact ⟨_, _, by simp only [Option.bind_some, hw, hk, Option.map_some]; rfl⟩
    | newConnection _ _ _ | read _ _ _ | readError _ | closed _ | run _ | idle _ _ | itemCheck _ | loopExit =>
      exact ⟨_, _, rfl⟩
  obtain ⟨m, e', hm⟩ := hstep
  obtain ⟨es, hserver⟩ := ledgerMachine_step hm
  rw [h] at hserver
  cases hserver
  exact ⟨m, e', hm, rfl, parallel_booked hp (ledger_booked hm).2⟩

theorem ledger_run_of_server {x : CanXfs A api} {is : List Input} {s : CanIPCServer A api} {es : List (Event A)}
    (h : (serverMachine A api).run (.new x) is = some (s, es)) :
    ∃ l e, (ledgerMachine A api).run (.new x) is = some (l, e) ∧ l.server = s := by
  have hstart : CanIPCServer.new x = (Ledger.new x).server ∧ Parallel (Ledger.new x) := ⟨rfl, rfl, rfl⟩
  obtain ⟨l, e, hr, hl, -⟩ := Machine.run_follows (N := ledgerMachine A api)
    (R := fun s l => s = l.server ∧ Parallel l)
    (fun s l i t e ⟨hl, hp⟩ hs => ledger_step_of_server hp (hl ▸ hs)) hstart h
  exact ⟨l, e, hr, hl.symm⟩

theorem ledger_run_server {x : CanXfs A api} {is : List Input} {l : Ledger A api} {e : List LedgerEvent}
    (h : (ledgerMachine A api).run (.new x) is = some (l, e)) :
    ∃ es, (serverMachine A api).run (.new x) is = some (l.server, es) := by
  have hstart : (Ledger.new x).server = CanIPCServer.new x := rfl
  obtain ⟨s, es, hr, hs⟩ := Machine.run_follows (N := serverMachine A api) (R := fun l s => l.server = s)
    (fun l s i m e hl hs => by
      obtain ⟨es, hserver⟩ := ledgerMachine_step hs
      exact ⟨m.server, es, hl ▸ hserver, rfl⟩) hstart h
  exact ⟨es, hs ▸ hr⟩

/-! ## Every entry is settled -/

/-- Each entry made is with a notice or a write under way, or has been released, once. -/
def AllSettled (h : List LedgerEvent) (l : Ledger A api) : Prop :=
  ∀ k, .created k ∈ h → h.count (.released k) + l.asyncs.count k + l.writes.count k = 1

/-- What is reported arrives: a notice finds no connection that is closing or gone, and a write has completed. -/
def Settles (l : Ledger A api) : Input → Prop
  | .notify j _ _ => ∀ n ∈ l.server.asyncs[j]?, Arrives l.server n
  | .write _ status => 0 ≤ status
  | _ => True

instance (l : Ledger A api) : (i : Input) → Decidable (Settles l i)
  | .notify .. => by unfold Settles; infer_instance
  | .write .. => by unfold Settles; infer_instance
  | .newConnection .. | .read .. | .readError .. | .closed .. | .run .. | .idle .. | .itemCheck .. | .loopExit =>
    inferInstanceAs (Decidable True)

/-- As long as every entry is settled, each is in one place. -/
structure Balanced (h : List LedgerEvent) (l : Ledger A api) : Prop where
  sum : ∀ k, h.count (.released k) + l.asyncs.count k + l.writes.count k = if k < l.next then 1 else 0
  created : ∀ k, .created k ∈ h ↔ k < l.next
  parallel : Parallel l
  addressed : Addressed l.server

theorem Balanced.settled {h : List LedgerEvent} {l : Ledger A api} (hb : Balanced h l) : AllSettled h l := by
  intro k hk
  rw [hb.sum k, if_pos ((hb.created k).1 hk)]

/-- An entry under way has been made. -/
theorem Balanced.lt_next {h : List LedgerEvent} {l : Ledger A api} (hb : Balanced h l) {k : Nat}
    (hk : 0 < l.asyncs.count k + l.writes.count k) : k < l.next := by
  by_contra hge
  have hsum := hb.sum k
  rw [if_neg hge] at hsum
  omega

/-- An entry that is in none is lost. -/
theorem not_settled {h : List LedgerEvent} {l : Ledger A api} {k : Nat} (hk : .created k ∈ h)
    (hs : h.count (.released k) + l.asyncs.count k + l.writes.count k = 0) : ¬ AllSettled h l := by
  intro ha
  have := ha k hk
  omega

section Step

variable {h : List LedgerEvent} {l : Ledger A api}

theorem sum_notified (uvWrite : Addr → Int) (garbage : Bool) {j : Nat} {n : Notice} {k : Nat}
    (hb : Balanced h l) (hf : l.server.fault = none) (hk : l.asyncs[j]? = some k) (ha : Arrives l.server n) :
    ∀ q, (h ++ ((l.takeNotice j).onNotify n k uvWrite garbage).2).count (.released q) +
        ((l.takeNotice j).onNotify n k uvWrite garbage).1.asyncs.count q +
        ((l.takeNotice j).onNotify n k uvWrite garbage).1.writes.count q =
      if q < ((l.takeNotice j).onNotify n k uvWrite garbage).1.next then 1 else 0 := by
  intro q
  have hnoted := onNotify_noted uvWrite garbage (l.takeNotice j) n k
  have harr : ((l.takeNotice j).onNotify n k uvWrite garbage).2.count (.released q) +
        ((l.takeNotice j).onNotify n k uvWrite garbage).1.writes.count q =
      l.writes.count q + (if k = q then 1 else 0) +
        if l.next ≤ q ∧ q < ((l.takeNotice j).onNotify n k uvWrite garbage).1.next then 1 else 0 :=
    onNotify_arrives uvWrite garbage (l := l.takeNotice j) hf ha k q
  have hasyncs : ((l.takeNotice j).onNotify n k uvWrite garbage).1.asyncs = l.asyncs.eraseIdx j := hnoted.asyncs.1
  have hnext : l.next ≤ ((l.takeNotice j).onNotify n k uvWrite garbage).1.next := hnoted.next
  have herase := count_eraseIdx hk q
  have hsum := hb.sum q
  rw [List.count_append, hasyncs]
  generalize (l.takeNotice j).onNotify n k uvWrite garbage = r at harr hnext ⊢
  by_cases hq : q < l.next
  · have hold : ¬ (l.next ≤ q ∧ q < r.1.next) := by omega
    rw [if_pos hq] at hsum
    rw [if_neg hold] at harr
    rw [if_pos (hq.trans_le hnext)]
    omega
  · rw [if_neg hq] at hsum
    by_cases hq' : q < r.1.next
    · have hnew : l.next ≤ q ∧ q < r.1.next := ⟨by omega, hq'⟩
      rw [if_pos hnew] at harr
      rw [if_pos hq']
      omega
    · have hlater : ¬ (l.next ≤ q ∧ q < r.1.next) := by omega
      rw [if_neg hlater] at harr
      rw [if_neg hq']
      omega

theorem sum_written {j : Nat} {status : Int} {req : WriteReq} {k : Nat} (hb : Balanced h l)
    (hw : l.server.writes[j]? = some req) (hk : l.writes[j]? = some k) (hs : 0 ≤ status) :
    ∀ q, (h ++ ((l.takeWrite j).onWrite req k status).2).count (.released q) + l.asyncs.count q +
      (l.writes.eraseIdx j).count q = if q < l.next then 1 else 0 := by
  intro q
  have hreleased : ((l.takeWrite j).onWrite req k status).2 = [.released k] :=
    if_pos ((onWrite_released hb.addressed hw status).2 hs)
  have herase := count_eraseIdx hk q
  have hsum := hb.sum q
  rw [hreleased, List.count_append, List.count_singleton]
  simp only [beq_iff_eq, LedgerEvent.released.injEq]
  omega

theorem sum_posted {t : CanIPCServer A api} (hb : Balanced h l) :
    ∀ q, (h ++ (l.posted t).2).count (.released q) + (l.posted t).1.asyncs.count q + l.writes.count q =
      if q < (l.posted t).1.next then 1 else 0 := by
  intro q
  have hsum := hb.sum q
  have hfresh : (List.range' l.next (t.asyncs.length - l.server.asyncs.length)).count q =
      if l.next ≤ q ∧ q < l.next + (t.asyncs.length - l.server.asyncs.length) then 1 else 0 := by
    rw [(List.nodup_range' 1).count]
    simp only [List.mem_range'_1]
  have hnone : (l.posted t).2.count (.released q) = 0 := by
    refine List.count_eq_zero.2 fun hq => ?_
    obtain ⟨k, -, hk⟩ := List.mem_map.1 hq
    cases hk
  rw [List.count_append, hnone]
  simp only [Ledger.posted, List.count_append, List.length_range'] at hfresh ⊢
  rw [hfresh]
  by_cases hq : q < l.next
  · rw [if_pos hq] at hsum
    rw [if_neg (by omega), if_pos (by omega)]
    omega
  · rw [if_neg hq] at hsum
    by_cases hq' : q < l.next + (t.asyncs.length - l.server.asyncs.length)
    · rw [if_pos (by omega), if_pos hq']
      omega
    · rw [if_neg (by omega), if_neg hq']
      omega

/-- What a step keeps in any case. -/
theorem created_booked {i : Input} {r : Ledger A api × List LedgerEvent} (hb : Balanced h l) (hbk : Booked l i r) :
    ∀ k, .created k ∈ h ++ r.2 ↔ k < r.1.next := by
  intro k
  rw [List.mem_append, hb.created k]
  cases hbk with
  | notified j uvWrite garbage n q hn hq =>
    have hnoted := onNotify_noted uvWrite garbage (l.takeNotice j) n q
    have hnext : l.next ≤ ((l.takeNotice j).onNotify n q uvWrite garbage).1.next := hnoted.next
    rw [hnoted.created k]
    show k < l.next ∨ l.next ≤ k ∧ _ ↔ _
    omega
  | written j status req q hw hq =>
    have hnone : .created k ∉ ((l.takeWrite j).onWrite req q status).2 := by
      unfold Ledger.onWrite
      simp only
      split
      · simp
      · exact List.not_mem_nil
    rw [or_iff_left hnone]
    rfl
  | posted i t ns =>
    have hmem : .created k ∈ (l.posted t).2 ↔
        l.next ≤ k ∧ k < l.next + (t.asyncs.length - l.server.asyncs.length) := by
      unfold Ledger.posted
      rw [List.mem_map_of_injective fun _ _ h => LedgerEvent.created.inj h, List.mem_range'_1]
    have hnext : (l.posted t).1.next = l.next + (t.asyncs.length - l.server.asyncs.length) := by
      simp [Ledger.posted]
    rw [hmem, hnext]
    omega

/-- A notice arrives if `on_notify` leaves every entry settled. -/
theorem arrives_of_settled {uvWrite : Addr → Int} {garbage : Bool} {j : Nat} {n : Notice} {k : Nat}
    (hb : Balanced h l) (hf : l.server.fault = none) (hn : l.server.asyncs[j]? = some n) (hk : l.asyncs[j]? = some k)
    (ha : AllSettled (h ++ ((l.takeNotice j).onNotify n k uvWrite garbage).2)
      ((l.takeNotice j).onNotify n k uvWrite garbage).1) : Arrives l.server n := by
  by_contra hno
  have hpos := List.count_pos_iff.2 (List.mem_of_getElem? hk)
  have hlt : k < l.next := hb.lt_next (by omega)
  obtain ⟨q, hq, he, hw⟩ := onNotify_loses uvWrite garbage (l := l.takeNotice j) hf hno (k := k) hlt
  have hnoted := onNotify_noted uvWrite garbage (l.takeNotice j) n k
  have hnext : l.next ≤ ((l.takeNotice j).onNotify n k uvWrite garbage).1.next := hnoted.next
  have hcreated := created_booked hb (.notified j uvWrite garbage n k hn hk) q
  have herase := count_eraseIdx hk q
  have hsum := hb.sum q
  refine not_settled (hcreated.2 ?_) ?_ ha
  · rcases hq with rfl | ⟨-, hq⟩
    · omega
    · exact hq
  · rw [List.count_append, he, hw, hnoted.asyncs.1]
    show _ + (l.asyncs.eraseIdx j).count q + l.writes.count q = 0
    rcases hq with rfl | ⟨hq, -⟩
    · -- the notice's own entry
      rw [if_pos hlt] at hsum
      rw [if_pos rfl] at herase
      omega
    · -- a clone's
      have hq : l.next ≤ q := hq
      rw [if_neg (by omega)] at hsum
      omega

/-- A write has completed if `on_write` leaves every entry settled. -/
theorem completed_of_settled {j : Nat} {status : Int} {req : WriteReq} {k : Nat} (hb : Balanced h l)
    (hw : l.server.writes[j]? = some req) (hk : l.writes[j]? = some k)
    (ha : AllSettled (h ++ ((l.takeWrite j).onWrite req k status).2) ((l.takeWrite j).onWrite req k status).1) :
    0 ≤ status := by
  by_contra hs
  have hkept : ((l.takeWrite j).onWrite req k status).2 = [] :=
    if_neg (mt (onWrite_released hb.addressed hw status).1 hs)
  have herase := count_eraseIdx hk k
  have hsum := hb.sum k
  rw [if_pos rfl] at herase
  have hlt : k < l.next := hb.lt_next (by omega)
  rw [if_pos hlt] at hsum
  refine not_settled ((created_booked hb (.written j status req k hw hk) k).2 hlt) ?_ ha
  rw [hkept, List.append_nil]
  show h.count (.released k) + l.asyncs.count k + (l.writes.eraseIdx j).count k = 0
  omega

/-- What a step reports arrives if the step leaves every entry settled. -/
theorem settled_booked {i : Input} {r : Ledger A api × List LedgerEvent} (hb : Balanced h l)
    (hf : l.server.fault = none) (hbk : Booked l i r) (ha : AllSettled (h ++ r.2) r.1) : Settles l i := by
  cases hbk with
  | notified j uvWrite garbage n k hn hk =>
    intro n' hn'
    rw [hn] at hn'
    cases hn'
    exact arrives_of_settled hb hf hn hk ha
  | written j status req k hw hk => exact completed_of_settled hb hw hk ha
  | posted i t ns hi hj =>
    cases i with
    | notify j uvWrite garbage => exact absurd rfl (hi j uvWrite garbage)
    | write j status => exact absurd rfl (hj j status)
    | newConnection _ _ _ | read _ _ _ | readError _ | closed _ | run _ | idle _ _ | itemCheck _ | loopExit => trivial

end Step

theorem balanced_step {h e : List LedgerEvent} {l m : Ledger A api} {i : Input} (hb : Balanced h l)
    (hg : Settles l i) (hstep : (ledgerMachine A api).step l i = some (m, e)) : Balanced (h ++ e) m := by
  obtain ⟨hf, hbk⟩ := ledger_booked hstep
  obtain ⟨es, hserver⟩ := ledgerMachine_step hstep
  refine ⟨?_, created_booked hb hbk, parallel_booked hb.parallel hbk, addressed_step hb.addressed hserver⟩
  generalize hr : (m, e) = r at hbk
  cases hbk with
  | notified j uvWrite garbage n k hn hk =>
    have hsum := sum_notified uvWrite garbage hb hf hk (hg n hn)
    rw [← hr] at hsum
    exact hsum
  | written j status req k hw hk =>
    have hsum := sum_written hb hw hk hg
    cases hr
    exact hsum
  | posted i t ns =>
    have hsum := sum_posted (t := t) hb
    cases hr
    exact hsum

/-- For every run of the server, whatever its clients, `uv_write` and the completions of writes do: after each step
every entry made is with a notice or a write under way or has been released, once, if and only if each notice
reported finds no connection closing or gone, and each write has completed. -/
theorem settled_iff {x : CanXfs A api} {is : List Input} {s : CanIPCServer A api} {es : List (Event A)}
    (hr : (serverMachine A api).run (.new x) is = some (s, es)) :
    (ledgerMachine A api).AtEach (fun h _ _ m e _ => AllSettled (h ++ e) m) (.new x) is ↔
      (ledgerMachine A api).Meets Settles (.new x) is := by
  obtain ⟨l, e, hr, -⟩ := ledger_run_of_server hr
  refine Machine.atEach_iff_meets (I := Balanced) ?_ (fun h l i m e hb hg hs => balanced_step hb hg hs) ?_ hr
  · intro h l i m e hb hs
    obtain ⟨hf, hbk⟩ := ledger_booked hs
    exact ⟨settled_booked hb hf hbk, fun hg => (balanced_step hb hg hs).settled⟩
  · refine ⟨fun k => by simp [Ledger.new], fun k => by simp [Ledger.new], ⟨rfl, rfl⟩, ?_⟩
    refine ⟨fun hpc => absurd rfl hpc, fun b hb => ?_, fun n hn => ?_, fun w hw => ?_⟩
    · exact absurd hb List.not_mem_nil
    · exact absurd hn List.not_mem_nil
    · exact absurd hw List.not_mem_nil

/-- A client opens service 1 and closes it again, and both answers are written. -/
theorem openThenClose_settled : ∃ s es,
    (serverMachine .x86 .documented).run (.new .blank) (openThenClose ++ [.write 1 0, .write 0 0]) = some (s, es) ∧
      (ledgerMachine .x86 .documented).AtEach (fun h _ _ m e _ => AllSettled (h ++ e) m) (.new .blank)
        (openThenClose ++ [.write 1 0, .write 0 0]) := by
  obtain ⟨s, es, hr, -⟩ : ∃ s es, (serverMachine .x86 .documented).run (.new .blank)
      (openThenClose ++ [.write 1 0, .write 0 0]) = some (s, es) ∧ s.writes = [] :=
    Machine.run_any (by decide +kernel)
  exact ⟨s, es, hr, (settled_iff hr).2 (by decide +kernel)⟩

/-- The client disconnects before its Open is answered, and `on_notify` finds it closing: the answer is kept. -/
theorem answer_to_closing : ¬ (ledgerMachine .x86 .documented).AtEach (fun h _ _ m e _ => AllSettled (h ++ e) m)
    (.new .blank) (.newConnection 0 0 0 :: .read 0 (openCmd 1 1).put midnight :: .readError 0 :: runOnce ++
      [notifyFirst]) := by
  refine Machine.not_atEach (fun h _ m e _ => decide (.created 0 ∈ h ++ e ∧
    (h ++ e).count (.released 0) + m.asyncs.count 0 + m.writes.count 0 = 0)) ?_ (by decide +kernel)
  intro h _ m e _ hq
  obtain ⟨hcreated, hnone⟩ := of_decide_eq_true hq
  exact not_settled hcreated hnone

end AnXfs.Server
