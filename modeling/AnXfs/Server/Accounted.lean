/-
Where the notices go, in every run: each entry made has been released, is with a notice or a write under way, or was
given up, and only one of these. What is given up is counted by the steps that do so: a notice that finds its connection
closing or gone, a broadcast's clone for such an entry of the vector, and a write that completes with an error.
-/
import AnXfs.Run.Accounts
import AnXfs.Server.Settled

namespace AnXfs.Server

open AnXfs.Wire AnXfs.Pack AnXfs.Run

variable {A : Arch} {api : XfsApi}

/-! ## What is given up -/

def noticeAccounts (A : Arch) (api : XfsApi) : Accounts (Ledger A api) LedgerEvent Nat where
  made
    | .created k => some k
    | .released _ => none
  freed
    | .created _ => none
    | .released k => some k
  held l := l.asyncs + l.writes

namespace CanIPCServer

variable (s : CanIPCServer A api)

/-- How many entries `on_notify` gives up. -/
def misses (n : Notice) : Nat :=
  match n.client with
  | none => s.clientVector.countP fun ref => ¬ RefOpen s ref
  | some client => if IsOpen s client then 0 else 1

/-- How many entries a step gives up. -/
def givesUp : Input → Nat
  | .notify j _ _ => (s.asyncs[j]?.map s.misses).getD 0
  | .write _ status => if status < 0 then 1 else 0
  | _ => 0

end CanIPCServer

/-! ## One send -/

section Send

variable {l : Ledger A api} (n : Notice) (uvWrite : Addr → Int) (garbage : Bool)

/-- The entry in hand goes with a write, is left to the caller to release, or is given up. -/
theorem sendNotify_books (client : Addr) (k : Nat) : ∃ g : Multiset Nat,
    (l.writes + {k} : Multiset Nat) = (if (l.sendNotify client n k uvWrite garbage).2 ≠ 0 then {k} else 0) +
      (l.sendNotify client n k uvWrite garbage).1.writes + g ∧
    g.card = if IsOpen l.server client then 0 else 1 := by
  by_cases ho : IsOpen l.server client
  · refine ⟨0, ?_, (if_pos ho).symm⟩
    rcases sendNotify_open n k uvWrite garbage ho with heq | ⟨r, hr, heq⟩
    · rw [heq]
      simp only [ne_eq, not_true_eq_false, if_false, zero_add, add_zero, ← Multiset.coe_add, Multiset.coe_singleton]
    · rw [heq]
      simp only [hr, ne_eq, not_false_eq_true, if_true, add_zero]
      exact add_comm ..
  · refine ⟨{k}, ?_, (if_neg ho).symm⟩
    obtain ⟨f, heq⟩ := sendNotify_not_open n k uvWrite garbage ho
    rw [heq]
    simp

end Send

/-! ## A broadcast -/

section Broadcast

variable (n : Notice) (uvWrite : Addr → Int) (garbage : Bool)

theorem released_if (k : Nat) (r : Int) :
    (noticeAccounts A api).freedIn (.created k :: if r ≠ 0 then [.released k] else []) = if r ≠ 0 then {k} else 0 := by
  split <;> rfl

theorem created_if (k : Nat) (r : Int) :
    (noticeAccounts A api).madeIn (.created k :: if r ≠ 0 then [.released k] else []) = {k} := by
  split <;> rfl

/-- The clone is given up if the entry of the vector holds no open connection. -/
theorem cloneTo_books (l : Ledger A api) (ref : Option Addr) : ∃ g,
    (noticeAccounts A api).Books l (l.cloneTo n uvWrite garbage ref).2 (l.cloneTo n uvWrite garbage ref).1 g ∧
      g.card = if RefOpen l.server ref then 0 else 1 := by
  cases ref with
  | none =>
    have hno : ¬ RefOpen l.server none := by rintro ⟨_, ⟨⟩, _⟩
    refine ⟨{l.next}, ?_, (if_neg hno).symm⟩
    show (l.asyncs + l.writes + {l.next} : Multiset Nat) = 0 + (l.asyncs + l.writes) + {l.next}
    rw [zero_add]
  | some client =>
    have hopen : RefOpen l.server (some client) ↔ IsOpen l.server client := by simp [RefOpen]
    obtain ⟨g, hg, hcard⟩ := sendNotify_books (l := { l with next := l.next + 1 }) (CanIPCServer.clone n) uvWrite
      garbage client l.next
    refine ⟨g, ?_, by rw [hcard]; simp only [hopen]⟩
    unfold Accounts.Books Ledger.cloneTo
    simp only
    rw [released_if, created_if]
    calc (l.asyncs + l.writes + {l.next} : Multiset Nat)
        = l.asyncs + (l.writes + {l.next}) := add_assoc ..
      _ = _ := by rw [hg]; simp only [noticeAccounts]; ac_rfl

/-- Of a broadcast that ends without a fault, the clones for the entries that hold no open connection. -/
theorem broadcast_books : ∀ (v : List (Option Addr)) (l : Ledger A api), ∃ g,
    (noticeAccounts A api).Books l (Ledger.broadcastNotify n uvWrite garbage l v).2
        (Ledger.broadcastNotify n uvWrite garbage l v).1 g ∧
      ((Ledger.broadcastNotify n uvWrite garbage l v).1.server.fault = none →
        g.card = v.countP fun ref => ¬ RefOpen l.server ref)
  | [], l => ⟨0, .refl l, fun _ => rfl⟩
  | ref :: v, l => by
    obtain ⟨g, hg, hcard⟩ := cloneTo_books n uvWrite garbage l ref
    have hmem := (cloneTo_cloned n uvWrite garbage l ref).mem
    unfold Ledger.broadcastNotify
    simp only
    split
    · rename_i hfault
      exact ⟨g, hg, fun hf => absurd hf hfault⟩
    obtain ⟨g', hg', hcard'⟩ := broadcast_books v (l.cloneTo n uvWrite garbage ref).1
    have hsame : ∀ r, RefOpen (l.cloneTo n uvWrite garbage ref).1.server r ↔ RefOpen l.server r := by
      intro r
      unfold RefOpen IsOpen
      rw [hmem]
    simp only [hsame] at hcard'
    refine ⟨g + g', hg.trans hg', fun hf => ?_⟩
    rw [Multiset.card_add, hcard, hcard' hf, List.countP_cons]
    by_cases ho : RefOpen l.server ref
    · simp [ho]
    · simp [ho, add_comm]

/-- The entry of a notice is in hand while `on_notify` handles it. -/
theorem onNotify_books (l : Ledger A api) (k : Nat) : ∃ g : Multiset Nat,
    (noticeAccounts A api).held l + {k} + (noticeAccounts A api).madeIn (l.onNotify n k uvWrite garbage).2 =
        (noticeAccounts A api).freedIn (l.onNotify n k uvWrite garbage).2 +
          (noticeAccounts A api).held (l.onNotify n k uvWrite garbage).1 + g ∧
      ((l.onNotify n k uvWrite garbage).1.server.fault = none → g.card = l.server.misses n) := by
  cases hn : n.client with
  | none =>
    obtain ⟨g, hg, hcard⟩ := broadcast_books n uvWrite garbage l.server.clientVector l
    have hlast : (noticeAccounts A api).madeIn [.released k] = 0 ∧
      (noticeAccounts A api).freedIn [.released k] = {k} := ⟨rfl, rfl⟩
    have hmisses : l.server.misses n = l.server.clientVector.countP fun ref => ¬ RefOpen l.server ref := by
      unfold CanIPCServer.misses
      rw [hn]
    refine ⟨g, ?_, fun hf => ?_⟩
    · unfold Accounts.Books at hg
      rw [onNotify_all uvWrite garbage hn, Accounts.madeIn_append, Accounts.freedIn_append, hlast.1, hlast.2, add_zero,
        add_right_comm, hg]
      ac_rfl
    · rw [onNotify_all uvWrite garbage hn] at hf
      rw [hmisses, hcard hf]
  | some client =>
    obtain ⟨g, hg, hcard⟩ := sendNotify_books (l := l) n uvWrite garbage client k
    have hmisses : l.server.misses n = if IsOpen l.server client then 0 else 1 := by
      unfold CanIPCServer.misses
      rw [hn]
    refine ⟨g, ?_, fun _ => hcard.trans hmisses.symm⟩
    have hmade : ∀ r : Int, (noticeAccounts A api).madeIn (if r ≠ 0 then [.released k] else []) = 0 := by
      intro r
      split <;> rfl
    have hfreed : ∀ r : Int, (noticeAccounts A api).freedIn (if r ≠ 0 then [.released k] else []) =
        if r ≠ 0 then {k} else 0 := by
      intro r
      split <;> rfl
    rw [onNotify_one uvWrite garbage hn, hmade, hfreed, add_zero]
    calc (l.asyncs + l.writes + {k} : Multiset Nat)
        = l.asyncs + (l.writes + {k}) := add_assoc ..
      _ = _ := by rw [hg]; simp only [noticeAccounts]; ac_rfl

end Broadcast

/-! ## A step -/

section Step

variable {l : Ledger A api}

/-- The entry of a notice or of a write that is reported is in hand. -/
theorem held_takeNotice {j k : Nat} (hk : l.asyncs[j]? = some k) :
    (noticeAccounts A api).held l = (noticeAccounts A api).held (l.takeNotice j) + {k} := by
  have hperm : (l.asyncs : Multiset Nat) = k ::ₘ (l.asyncs.eraseIdx j : Multiset Nat) :=
    Multiset.coe_eq_coe.2 (perm_eraseIdx hk)
  simp only [noticeAccounts, Ledger.takeNotice]
  rw [hperm, ← Multiset.singleton_add]
  ac_rfl

theorem held_takeWrite {j k : Nat} (hk : l.writes[j]? = some k) :
    (noticeAccounts A api).held l = (noticeAccounts A api).held (l.takeWrite j) + {k} := by
  have hperm : (l.writes : Multiset Nat) = k ::ₘ (l.writes.eraseIdx j : Multiset Nat) :=
    Multiset.coe_eq_coe.2 (perm_eraseIdx hk)
  simp only [noticeAccounts, Ledger.takeWrite]
  rw [hperm, ← Multiset.singleton_add]
  ac_rfl

theorem created_map (ks : List Nat) : (ks.map .created).filterMap (noticeAccounts A api).made = ks := by
  rw [List.filterMap_map]
  exact List.filterMap_some

theorem booked_books {i : Input} {r : Ledger A api × List LedgerEvent} (ha : Addressed l.server) (h : Booked l i r) :
    ∃ g, (noticeAccounts A api).Books l r.2 r.1 g ∧ (r.1.server.fault = none → g.card = l.server.givesUp i) := by
  cases h with
  | notified j uvWrite garbage n k hn hk =>
    obtain ⟨g, hg, hcard⟩ := onNotify_books n uvWrite garbage (l.takeNotice j) k
    refine ⟨g, ?_, fun hf => ?_⟩
    · unfold Accounts.Books
      rw [held_takeNotice hk]
      exact hg
    · rw [hcard hf]
      show l.server.misses n = (l.server.asyncs[j]?.map l.server.misses).getD 0
      rw [hn]
      rfl
  | written j status req k hw hk =>
    have hreleased := onWrite_released ha hw status
    refine ⟨if status < 0 then {k} else 0, ?_, fun _ => ?_⟩
    · have hheld : (noticeAccounts A api).held ((l.takeWrite j).onWrite req k status).1 =
        (noticeAccounts A api).held (l.takeWrite j) := rfl
      unfold Accounts.Books
      rw [held_takeWrite hk, hheld]
      by_cases hs : 0 ≤ status
      · have he : ((l.takeWrite j).onWrite req k status).2 = [.released k] := if_pos (hreleased.2 hs)
        have hlast : (noticeAccounts A api).madeIn [.released k] = 0 ∧
          (noticeAccounts A api).freedIn [.released k] = {k} := ⟨rfl, rfl⟩
        rw [he, hlast.1, hlast.2, if_neg (by omega)]
        ac_rfl
      · have he : ((l.takeWrite j).onWrite req k status).2 = [] := if_neg (mt hreleased.1 hs)
        rw [he, if_pos (by omega), Accounts.madeIn_nil, Accounts.freedIn_nil]
        ac_rfl
    · show _ = if status < 0 then 1 else 0
      split <;> rfl
  | posted i t ns hi hj ht hw =>
    refine ⟨0, ?_, fun _ => ?_⟩
    · have hfreed : ∀ ks : List Nat, (noticeAccounts A api).freedIn (ks.map .created) = 0 := by
        intro ks
        unfold Accounts.freedIn
        rw [List.filterMap_map]
        exact congrArg _ (List.filterMap_eq_nil_iff.2 fun _ _ => rfl)
      unfold Accounts.Books Accounts.madeIn Ledger.posted
      rw [hfreed, created_map]
      simp only [noticeAccounts, ← Multiset.coe_add]
      ac_rfl
    · cases i with
      | notify j uvWrite garbage => exact absurd rfl (hi j uvWrite garbage)
      | write j status => exact absurd rfl (hj j status)
      | newConnection _ _ _ | read _ _ _ | readError _ | closed _ | run _ | idle _ _ | itemCheck _ | loopExit => rfl

/-- The clone gets the entry to come. -/
theorem cloneTo_numbers (n : Notice) (uvWrite : Addr → Int) (garbage : Bool) (l : Ledger A api) (ref : Option Addr) :
    (noticeAccounts A api).Numbers Ledger.next l (l.cloneTo n uvWrite garbage ref).2
      (l.cloneTo n uvWrite garbage ref).1 := by
  refine ⟨1, ?_, ?_⟩
  · cases ref <;> rfl
  · cases ref with
    | none => rfl
    | some client =>
      unfold Ledger.cloneTo
      simp only
      split <;> rfl

theorem broadcast_numbers (n : Notice) (uvWrite : Addr → Int) (garbage : Bool) :
    ∀ (v : List (Option Addr)) (l : Ledger A api), (noticeAccounts A api).Numbers Ledger.next l
      (Ledger.broadcastNotify n uvWrite garbage l v).2 (Ledger.broadcastNotify n uvWrite garbage l v).1
  | [], l => .quiet rfl rfl
  | ref :: v, l => by
    unfold Ledger.broadcastNotify
    simp only
    split
    · exact cloneTo_numbers n uvWrite garbage l ref
    · exact (cloneTo_numbers n uvWrite garbage l ref).trans (broadcast_numbers n uvWrite garbage v _)

/-- Entries are numbered as they are made. -/
theorem booked_numbers {i : Input} {r : Ledger A api × List LedgerEvent} (h : Booked l i r) :
    (noticeAccounts A api).Numbers Ledger.next l r.2 r.1 := by
  cases h with
  | notified j uvWrite garbage n k hn hk =>
    have htaken : (l.takeNotice j).next = l.next := rfl
    cases hc : n.client with
    | none =>
      rw [onNotify_all uvWrite garbage hc]
      exact Accounts.Numbers.trans (broadcast_numbers n uvWrite garbage _ (l.takeNotice j)) (.quiet rfl rfl)
    | some client =>
      rw [onNotify_one uvWrite garbage hc]
      refine .quiet rfl ?_
      simp only
      split <;> rfl
  | written j status req k hw hk =>
    refine .quiet rfl ?_
    unfold Ledger.onWrite
    simp only
    split <;> rfl
  | posted i t ns hi hj ht hw =>
    refine ⟨t.asyncs.length - l.server.asyncs.length, ?_, ?_⟩
    · simp [Ledger.posted]
    · exact created_map _

end Step

/-! ## A run -/

/-- For every run of the server, whatever its clients, `uv_write` and the completions of writes do: the entries that
were made are, each once, those released, those of the notices and the writes under way, and those given up; and as long
as no freed connection was used, as many were given up as notices found their connection closing or gone, clones were
made for such, and writes have failed. -/
theorem notices_accounted {x : CanXfs A api} {is : List Input} {s : CanIPCServer A api} {es : List (Event A)}
    (hr : (serverMachine A api).run (.new x) is = some (s, es)) :
    ∃ l e g, (ledgerMachine A api).run (.new x) is = some (l, e) ∧ l.server = s ∧ Parallel l ∧
      (noticeAccounts A api).madeIn e = (noticeAccounts A api).freedIn e + (l.asyncs + l.writes) + g ∧
      ((noticeAccounts A api).madeIn e).Nodup ∧
      (s.fault = none → g.card = (serverMachine A api).cost CanIPCServer.givesUp (.new x) is) := by
  obtain ⟨l, e, hledger, rfl⟩ := ledger_run_of_server hr
  have hnew : Parallel (Ledger.new x) ∧ Addressed (Ledger.new x).server := by
    refine ⟨⟨rfl, rfl⟩, fun hpc => absurd rfl hpc, ?_, ?_, ?_⟩
    all_goals exact fun _ h => absurd h List.not_mem_nil
  obtain ⟨⟨hparallel, -⟩, g, hbooks, hcard⟩ := Accounts.run_books (a := noticeAccounts A api)
    (M := ledgerMachine A api) (I := fun l => Parallel l ∧ Addressed l.server) (P := fun l => l.server.fault = none)
    (c := fun l => l.server.givesUp)
    (fun l i m e ⟨hp, ha⟩ hstep => by
      obtain ⟨hf, hbk⟩ := ledger_booked hstep
      obtain ⟨es, hserver⟩ := ledgerMachine_step hstep
      exact ⟨⟨parallel_booked hp hbk, addressed_step ha hserver⟩, hf, booked_books ha hbk⟩) hnew hledger
  have hnumbers := Accounts.run_numbers (b := noticeAccounts A api) (M := ledgerMachine A api) (I := fun _ => True)
    (fun l i m e _ hstep => ⟨trivial, booked_numbers (ledger_booked hstep).2⟩) trivial hledger
  have hcost := Machine.cost_follows (N := serverMachine A api) (R := fun l s => l.server = s)
    (c := fun l => l.server.givesUp) (d := CanIPCServer.givesUp)
    (fun l s i m e hl hs => by
      obtain ⟨es, hserver⟩ := ledgerMachine_step hs
      exact ⟨m.server, es, hl ▸ hserver, rfl, by rw [hl]⟩) rfl hledger
  refine ⟨l, e, g, hledger, rfl, hparallel, ?_, hnumbers.nodup, fun hf => (hcard hf).trans hcost⟩
  have hzero : (noticeAccounts A api).held (Ledger.new x) = 0 := rfl
  unfold Accounts.Books at hbooks
  rw [hzero, zero_add] at hbooks
  exact hbooks

/-- A client sends an Open and disconnects; its answer finds it closing, and so does what `idle` broadcasts. -/
def answerAndEventToClosing : List Input :=
  .newConnection 0 0 0 :: .read 0 (openCmd 1 1).put midnight :: .readError 0 :: runOnce ++
    [notifyFirst, .idle midnight true, notifyFirst]

/-- The answer and the clone are given up, the event itself is released. -/
theorem answerAndEventToClosing_accounted : ∃ s es, (serverMachine .x86 .documented).run (.new .blank)
      answerAndEventToClosing = some (s, es) ∧ s.fault = none ∧
    ∃ l e g, (ledgerMachine .x86 .documented).run (.new .blank) answerAndEventToClosing = some (l, e) ∧ l.server = s ∧
      (noticeAccounts .x86 .documented).madeIn e =
        (noticeAccounts .x86 .documented).freedIn e + (l.asyncs + l.writes) + g ∧ g.card = 2 := by
  obtain ⟨s, es, hr, hf⟩ : ∃ s es, (serverMachine .x86 .documented).run (.new .blank) answerAndEventToClosing =
    some (s, es) ∧ s.fault = none := Machine.run_any (by decide +kernel)
  obtain ⟨l, e, g, hl, hs, -, hbooks, -, hcard⟩ := notices_accounted hr
  refine ⟨s, es, hr, hf, l, e, g, hl, hs, hbooks, (hcard hf).trans ?_⟩
  decide +kernel

end AnXfs.Server
