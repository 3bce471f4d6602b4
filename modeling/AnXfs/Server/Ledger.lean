/-
A ledger of the notices: every `an_notice_result` has an entry of its own, from `malloc_an_notice_result`
or `clone` to its release, and the entries of the notices and writes under way are kept next to them.
`on_notify`, `broadcast_notify`, `send_notify` and `on_write` pass the entries on as they do the notices, and
the server in it takes the steps it takes without (`ledgerMachine_step`).
-/
import AnXfs.Server.Delivery

namespace AnXfs.Server

open AnXfs.Wire AnXfs.Pack AnXfs.Run

variable {A : Arch} {api : XfsApi}

/-! ## State -/

/-- The server with the entries of its `asyncs` and its `writes`, in their order, and the entry to come. -/
structure Ledger (A : Arch) (api : XfsApi) where
  server : CanIPCServer A api
  asyncs : List Nat
  writes : List Nat
  next : Nat

def Ledger.new (x : CanXfs A api) : Ledger A api := ⟨.new x, [], [], 0⟩

/-- An entry is made, or its notice and byte buffer are freed. -/
inductive LedgerEvent where
  | created (k : Nat)
  | released (k : Nat)
  deriving DecidableEq

namespace Ledger

variable (l : Ledger A api)

/-- `send_notify`: an entry goes with every write that is made. -/
def sendNotify (client : Addr) (n : Notice) (k : Nat) (uvWrite : Addr → Int) (garbage : Bool) :
    Ledger A api × Int :=
  let (t, _, r) := l.server.sendNotify client n uvWrite garbage
  ({ l with server := t, writes := l.writes ++ List.replicate (t.writes.length - l.server.writes.length) k }, r)

/-- The lambda of `broadcast_notify`: the clone is made before the entry of the vector is looked at. -/
def cloneTo (n : Notice) (uvWrite : Addr → Int) (garbage : Bool) (ref : Option Addr) :
    Ledger A api × List LedgerEvent :=
  let k := l.next
  let l := { l with next := k + 1 }
  match ref with
  | none => (l, [.created k])
  | some client =>
    let (t, r) := l.sendNotify client (CanIPCServer.clone n) k uvWrite garbage
    (t, .created k :: if r ≠ 0 then [.released k] else [])

/-- `broadcast_notify`, over the entries of `s_client_vector`. -/
def broadcastNotify (n : Notice) (uvWrite : Addr → Int) (garbage : Bool) :
    Ledger A api → List (Option Addr) → Ledger A api × List LedgerEvent
  | l, [] => (l, [])
  | l, ref :: v =>
    let (l1, e1) := l.cloneTo n uvWrite garbage ref
    if l1.server.fault ≠ none then (l1, e1)
    else
      let (t, e) := broadcastNotify n uvWrite garbage l1 v
      (t, e1 ++ e)

/-- `on_notify` of the notice with entry `k`. -/
def onNotify (n : Notice) (k : Nat) (uvWrite : Addr → Int) (garbage : Bool) : Ledger A api × List LedgerEvent :=
  match n.client with
  | none =>
    let (t, e) := broadcastNotify n uvWrite garbage l l.server.clientVector
    (t, e ++ [.released k])
  | some client =>
    let (t, r) := l.sendNotify client n k uvWrite garbage
    (t, if r ≠ 0 then [.released k] else [])

/-- `on_write` of the write with entry `k`. -/
def onWrite (req : WriteReq) (k : Nat) (status : Int) : Ledger A api × List LedgerEvent :=
  let (t, e) := l.server.onWrite req status
  ({ l with server := t }, if .released req.notice ∈ e then [.released k] else [])

/-- What any other step has posted gets entries. -/
def posted (t : CanIPCServer A api) : Ledger A api × List LedgerEvent :=
  let ks := List.range' l.next (t.asyncs.length - l.server.asyncs.length)
  ({ l with server := t, asyncs := l.asyncs ++ ks, next := l.next + ks.length }, ks.map .created)

/-- The ledger without the notice that is reported. -/
def takeNotice (j : Nat) : Ledger A api where
  server := { l.server with asyncs := l.server.asyncs.eraseIdx j }
  asyncs := l.asyncs.eraseIdx j
  writes := l.writes
  next := l.next

/-- The ledger without the write that is reported. -/
def takeWrite (j : Nat) : Ledger A api where
  server := { l.server with writes := l.server.writes.eraseIdx j }
  asyncs := l.asyncs
  writes := l.writes.eraseIdx j
  next := l.next

def step (i : Input) : Option (Ledger A api × List LedgerEvent) :=
  (l.server.step i).bind fun (t, _) =>
    match i with
    | .notify j uvWrite garbage =>
      (l.server.asyncs[j]?).bind fun n => (l.asyncs[j]?).map fun k => (l.takeNotice j).onNotify n k uvWrite garbage
    | .write j status =>
      (l.server.writes[j]?).bind fun req => (l.writes[j]?).map fun k => (l.takeWrite j).onWrite req k status
    | _ => some (l.posted t)

end Ledger

def ledgerMachine (A : Arch) (api : XfsApi) : Machine (Ledger A api) Input LedgerEvent where
  step := Ledger.step

/-! ## The server in it -/

theorem sendNotify_server (l : Ledger A api) (client : Addr) (n : Notice) (k : Nat) (uvWrite : Addr → Int)
    (garbage : Bool) : (l.sendNotify client n k uvWrite garbage).1.server =
      (l.server.sendNotify client n uvWrite garbage).1 := rfl

/-- The server's broadcast, as long as no thread has run into a fault. -/
theorem broadcastNotify_server (n : Notice) (uvWrite : Addr → Int) (garbage : Bool) :
    ∀ (v : List (Option Addr)) (l : Ledger A api), l.server.fault = none →
      (Ledger.broadcastNotify n uvWrite garbage l v).1.server =
        (CanIPCServer.broadcastNotify n uvWrite garbage l.server v).1
  | [], _, _ => rfl
  | none :: v, l, hf => by
    have hgo : ¬ (l.cloneTo n uvWrite garbage none).1.server.fault ≠ none := not_not.2 hf
    unfold Ledger.broadcastNotify CanIPCServer.broadcastNotify
    simp only [if_neg hgo]
    exact broadcastNotify_server n uvWrite garbage v { l with next := l.next + 1 } hf
  | some a :: v, l, hf => by
    unfold Ledger.broadcastNotify CanIPCServer.broadcastNotify
    have hserver : (l.cloneTo n uvWrite garbage (some a)).1.server =
        (l.server.sendNotify a (CanIPCServer.clone n) uvWrite garbage).1 := rfl
    simp only
    rw [hserver]
    split
    · exact hserver
    · rename_i hgo
      have hgo' := not_not.1 hgo
      rw [← hserver] at hgo' ⊢
      exact broadcastNotify_server n uvWrite garbage v _ hgo'

theorem onNotify_server (l : Ledger A api) (hf : l.server.fault = none) (n : Notice) (k : Nat) (uvWrite : Addr → Int)
    (garbage : Bool) : (l.onNotify n k uvWrite garbage).1.server = (l.server.onNotify n uvWrite garbage).1 := by
  unfold Ledger.onNotify CanIPCServer.onNotify
  cases n.client with
  | none => exact broadcastNotify_server n uvWrite garbage l.server.clientVector l hf
  | some a => rfl

theorem onWrite_server (l : Ledger A api) (req : WriteReq) (k : Nat) (status : Int) :
    (l.onWrite req k status).1.server = (l.server.onWrite req status).1 := rfl

theorem ledgerMachine_step {l m : Ledger A api} {i : Input} {e : List LedgerEvent}
    (h : (ledgerMachine A api).step l i = some (m, e)) :
    ∃ es, (serverMachine A api).step l.server i = some (m.server, es) := by
  obtain ⟨⟨t, es⟩, hs, h⟩ := Option.bind_eq_some_iff.1 h
  refine ⟨es, ?_⟩
  have hstep : (serverMachine A api).step l.server i = some (t, es) := hs
  obtain ⟨hf, -, -⟩ := server_acted hstep
  rw [hstep]
  cases i with
  | notify j uvWrite garbage =>
    obtain ⟨n, hn, h⟩ := Option.bind_eq_some_iff.1 h
    obtain ⟨k, -, h⟩ := Option.map_eq_some_iff.1 h
    obtain ⟨n', hn', ht⟩ := step_notify hstep
    rw [hn] at hn'
    cases hn'
    have hserver := onNotify_server (l.takeNotice j) hf n k uvWrite garbage
    rw [h] at hserver
    change m.server = ({ l.server with asyncs := l.server.asyncs.eraseIdx j }.onNotify n uvWrite garbage).1 at hserver
    rw [ht] at hserver
    rw [hserver]
  | write j status =>
    obtain ⟨w, hw, h⟩ := Option.bind_eq_some_iff.1 h
    obtain ⟨k, -, h⟩ := Option.map_eq_some_iff.1 h
    obtain ⟨w', hw', ht⟩ := step_write hstep
    rw [hw] at hw'
    cases hw'
    have hserver := onWrite_server (l.takeWrite j) w k status
    rw [h] at hserver
    change m.server = ({ l.server with writes := l.server.writes.eraseIdx j }.onWrite w status).1 at hserver
    rw [ht] at hserver
    rw [hserver]
  | newConnection _ _ _ | read _ _ _ | readError _ | closed _ | run _ | idle _ _ | itemCheck _ | loopExit =>
    cases h
    rfl

/-! ## One send -/

/-- The connection is there, and open. -/
def IsOpen (s : CanIPCServer A api) (client : Addr) : Prop := ∃ p ∈ s.mem client, p.closing = false

instance (s : CanIPCServer A api) (client : Addr) : Decidable (IsOpen s client) := by
  unfold IsOpen; infer_instance

section Send

variable {l : Ledger A api} {client : Addr} (n : Notice) (k : Nat) (uvWrite : Addr → Int) (garbage : Bool)

/-- On an open connection the entry goes with a write, or the caller is told. -/
theorem sendNotify_open (ho : IsOpen l.server client) :
    l.sendNotify client n k uvWrite garbage =
        ({ l with
            server := { l.server with writes := l.server.writes ++ [⟨client, n⟩] }
            writes := l.writes ++ [k] }, 0) ∨
      ∃ r, r ≠ 0 ∧ l.sendNotify client n k uvWrite garbage = (l, r) := by
  obtain ⟨p, hp, hc⟩ := ho
  by_cases hr : uvWrite client = 0
  · left
    unfold Ledger.sendNotify
    rw [sendNotify_written n uvWrite garbage hp hc hr]
    simp
  · right
    refine ⟨uvWrite client, hr, ?_⟩
    have hm : l.server.mem client = some p := hp
    simp [Ledger.sendNotify, CanIPCServer.sendNotify, hm, hc, hr]

/-- On any other the entry goes nowhere, and the caller is told of no failure. -/
theorem sendNotify_not_open (ho : ¬ IsOpen l.server client) :
    ∃ f, l.sendNotify client n k uvWrite garbage = ({ l with server := { l.server with fault := f } }, 0) := by
  unfold Ledger.sendNotify CanIPCServer.sendNotify
  cases hm : l.server.mem client with
  | none =>
    cases garbage with
    | true => exact ⟨l.server.fault, by simp⟩
    | false => exact ⟨some .useAfterFree, by simp [CanIPCServer.fail]⟩
  | some p =>
    have hc : p.closing = true := by
      by_contra hc
      exact ho ⟨p, hm, by simpa using hc⟩
    exact ⟨l.server.fault, by simp [hc]⟩

end Send

/-! ## A broadcast -/

/-- What a broadcast does to the ledger: new entries, which alone are released or go with writes. -/
structure Cloned (l m : Ledger A api) (e : List LedgerEvent) : Prop where
  asyncs : m.asyncs = l.asyncs ∧ m.server.asyncs = l.server.asyncs
  mem : m.server.mem = l.server.mem
  parallel : m.writes.length + l.server.writes.length = l.writes.length + m.server.writes.length
  next : l.next ≤ m.next
  created : ∀ k, .created k ∈ e ↔ l.next ≤ k ∧ k < m.next
  others : ∀ k, ¬ (l.next ≤ k ∧ k < m.next) → e.count (.released k) = 0 ∧ m.writes.count k = l.writes.count k

theorem Cloned.refl (l : Ledger A api) : Cloned l l [] where
  asyncs := ⟨rfl, rfl⟩
  mem := rfl
  parallel := rfl
  next := le_rfl
  created k := by simp
  others k _ := ⟨rfl, rfl⟩

theorem Cloned.trans {l m t : Ledger A api} {e e' : List LedgerEvent} (h : Cloned l m e) (h' : Cloned m t e') :
    Cloned l t (e ++ e') where
  asyncs := ⟨h'.asyncs.1.trans h.asyncs.1, h'.asyncs.2.trans h.asyncs.2⟩
  mem := h'.mem.trans h.mem
  parallel := by
    have h₁ := h.parallel
    have h₂ := h'.parallel
    omega
  next := h.next.trans h'.next
  created k := by
    have h₁ := h.next
    have h₂ := h'.next
    rw [List.mem_append, h.created k, h'.created k]
    omega
  others k hk := by
    have h₁ := h.next
    have h₂ := h'.next
    obtain ⟨he, hw⟩ := h.others k (by omega)
    obtain ⟨he', hw'⟩ := h'.others k (by omega)
    rw [List.count_append, he, he', hw', hw]
    exact ⟨rfl, rfl⟩

section Broadcast

variable (n : Notice) (uvWrite : Addr → Int) (garbage : Bool)

/-- The entry of the vector holds an open connection. -/
def RefOpen (s : CanIPCServer A api) (ref : Option Addr) : Prop := ∃ client ∈ ref, IsOpen s client

instance (s : CanIPCServer A api) (ref : Option Addr) : Decidable (RefOpen s ref) := by
  unfold RefOpen; infer_instance

/-- The clone for an open connection is released or goes with a write. -/
theorem cloneTo_open {l : Ledger A api} {ref : Option Addr} (ho : RefOpen l.server ref) :
    Cloned l (l.cloneTo n uvWrite garbage ref).1 (l.cloneTo n uvWrite garbage ref).2 ∧
      (l.cloneTo n uvWrite garbage ref).1.server.fault = l.server.fault ∧
      (l.cloneTo n uvWrite garbage ref).1.next = l.next + 1 ∧
      (l.cloneTo n uvWrite garbage ref).2.count (.released l.next) +
        (l.cloneTo n uvWrite garbage ref).1.writes.count l.next = l.writes.count l.next + 1 := by
  obtain ⟨client, rfl, ho⟩ := ho
  have ho' : IsOpen { l with next := l.next + 1 }.server client := ho
  unfold Ledger.cloneTo
  simp only
  rcases sendNotify_open (CanIPCServer.clone n) l.next uvWrite garbage ho' with heq | ⟨r, hr, heq⟩
  · rw [heq]
    refine ⟨⟨⟨rfl, rfl⟩, rfl, ?_, ?_, fun k => ?_, fun k hk => ?_⟩, rfl, rfl, ?_⟩
    · simp only [List.length_append, List.length_singleton]
      omega
    · exact Nat.le_succ _
    · simp
      omega
    · have hne : l.next ≠ k := by
        simp only at hk
        omega
      simp [hne]
    · simp
  · rw [heq]
    refine ⟨⟨⟨rfl, rfl⟩, rfl, rfl, Nat.le_succ _, fun k => ?_, fun k hk => ?_⟩, rfl, rfl, ?_⟩
    · simp [hr]
      omega
    · have hne : l.next ≠ k := by
        simp only at hk
        omega
      simp [hr, hne]
    · simp [hr]
      omega

/-- The clone for any other is lost. -/
theorem cloneTo_not_open {l : Ledger A api} {ref : Option Addr} (ho : ¬ RefOpen l.server ref) :
    Cloned l (l.cloneTo n uvWrite garbage ref).1 (l.cloneTo n uvWrite garbage ref).2 ∧
      (l.cloneTo n uvWrite garbage ref).1.next = l.next + 1 ∧
      (l.cloneTo n uvWrite garbage ref).2 = [.created l.next] ∧
      (l.cloneTo n uvWrite garbage ref).1.writes = l.writes := by
  have hcreated : ∀ k, LedgerEvent.created k ∈ [LedgerEvent.created l.next] ↔ l.next ≤ k ∧ k < l.next + 1 := by
    intro k
    simp
    omega
  cases ref with
  | none =>
    refine ⟨⟨⟨rfl, rfl⟩, rfl, rfl, Nat.le_succ _, hcreated, fun k _ => ⟨?_, rfl⟩⟩, rfl, rfl, rfl⟩
    simp [Ledger.cloneTo]
  | some client =>
    have ho' : ¬ IsOpen { l with next := l.next + 1 }.server client := fun h => ho ⟨client, rfl, h⟩
    obtain ⟨f, heq⟩ := sendNotify_not_open (CanIPCServer.clone n) l.next uvWrite garbage ho'
    unfold Ledger.cloneTo
    simp only
    rw [heq]
    have hevents : (LedgerEvent.created l.next :: if (0 : Int) ≠ 0 then [LedgerEvent.released l.next] else []) =
        [.created l.next] := rfl
    rw [hevents]
    exact ⟨⟨⟨rfl, rfl⟩, rfl, rfl, Nat.le_succ _, hcreated, fun k _ => ⟨by simp, rfl⟩⟩, rfl, rfl, rfl⟩

theorem cloneTo_cloned (l : Ledger A api) (ref : Option Addr) :
    Cloned l (l.cloneTo n uvWrite garbage ref).1 (l.cloneTo n uvWrite garbage ref).2 := by
  by_cases ho : RefOpen l.server ref
  · exact (cloneTo_open n uvWrite garbage ho).1
  · exact (cloneTo_not_open n uvWrite garbage ho).1

theorem broadcast_cloned : ∀ (v : List (Option Addr)) (l : Ledger A api),
    Cloned l (Ledger.broadcastNotify n uvWrite garbage l v).1 (Ledger.broadcastNotify n uvWrite garbage l v).2
  | [], l => .refl l
  | ref :: v, l => by
    have hfirst := cloneTo_cloned n uvWrite garbage l ref
    unfold Ledger.broadcastNotify
    simp only
    split
    · exact hfirst
    · exact hfirst.trans (broadcast_cloned v _)

/-- If every entry of the vector holds an open connection, every clone is released or goes with a write. -/
theorem broadcast_settles : ∀ (v : List (Option Addr)) (l : Ledger A api), l.server.fault = none →
    (∀ ref ∈ v, RefOpen l.server ref) →
    ∀ k, l.next ≤ k → k < (Ledger.broadcastNotify n uvWrite garbage l v).1.next →
      (Ledger.broadcastNotify n uvWrite garbage l v).2.count (.released k) +
        (Ledger.broadcastNotify n uvWrite garbage l v).1.writes.count k = l.writes.count k + 1
  | [], l, _, _, k, hle, hlt => by
    simp only [Ledger.broadcastNotify] at hlt
    omega
  | ref :: v, l, hf, ho, k, hle, hlt => by
    obtain ⟨hc, hfault, hnext, hsettled⟩ := cloneTo_open n uvWrite garbage (ho ref (List.mem_cons_self ..))
    have hgo : ¬ (l.cloneTo n uvWrite garbage ref).1.server.fault ≠ none := not_not.2 (hfault.trans hf)
    unfold Ledger.broadcastNotify at hlt ⊢
    simp only [if_neg hgo] at hlt ⊢
    have hrest := broadcast_cloned n uvWrite garbage v (l.cloneTo n uvWrite garbage ref).1
    rw [List.count_append]
    by_cases hk : k = l.next
    · -- the first clone, which the rest of the broadcast leaves alone
      subst hk
      obtain ⟨he, hw⟩ := hrest.others l.next (by omega)
      rw [he, hw]
      exact hsettled
    · obtain ⟨he, hw⟩ := hc.others k (by omega)
      have hopen : ∀ r ∈ v, RefOpen (l.cloneTo n uvWrite garbage ref).1.server r := by
        intro r hr
        obtain ⟨client, hclient, hio⟩ := ho r (List.mem_cons_of_mem _ hr)
        refine ⟨client, hclient, ?_⟩
        unfold IsOpen
        rw [hc.mem]
        exact hio
      have ih := broadcast_settles v _ (hfault.trans hf) hopen k (by omega) hlt
      rw [he, Nat.zero_add, ih, hw]

/-- If some entry does not, a clone is lost. -/
theorem broadcast_loses : ∀ (v : List (Option Addr)) (l : Ledger A api), l.server.fault = none →
    (∃ ref ∈ v, ¬ RefOpen l.server ref) →
    ∃ k, l.next ≤ k ∧ k < (Ledger.broadcastNotify n uvWrite garbage l v).1.next ∧
      (Ledger.broadcastNotify n uvWrite garbage l v).2.count (.released k) = 0 ∧
        (Ledger.broadcastNotify n uvWrite garbage l v).1.writes.count k = l.writes.count k
  | [], _, _, ⟨_, hr, _⟩ => absurd hr List.not_mem_nil
  | ref :: v, l, hf, hno => by
    have hrest := broadcast_cloned n uvWrite garbage v (l.cloneTo n uvWrite garbage ref).1
    unfold Ledger.broadcastNotify
    simp only
    by_cases ho : RefOpen l.server ref
    · obtain ⟨hc, hfault, hnext, -⟩ := cloneTo_open n uvWrite garbage ho
      have hgo : ¬ (l.cloneTo n uvWrite garbage ref).1.server.fault ≠ none := not_not.2 (hfault.trans hf)
      rw [if_neg hgo]
      have hlost : ∃ r ∈ v, ¬ RefOpen (l.cloneTo n uvWrite garbage ref).1.server r := by
        obtain ⟨r, hr, hro⟩ := hno
        rcases List.mem_cons.1 hr with rfl | hr
        · exact absurd ho hro
        · refine ⟨r, hr, ?_⟩
          unfold RefOpen IsOpen
          rw [hc.mem]
          exact hro
      obtain ⟨k, hle, hlt, he, hw⟩ := broadcast_loses v _ (hfault.trans hf) hlost
      obtain ⟨he', hw'⟩ := hc.others k (by omega)
      refine ⟨k, by omega, hlt, ?_, hw.trans hw'⟩
      rw [List.count_append, he', he]
    · -- this one's, whatever the rest does
      obtain ⟨-, hnext, he, hw⟩ := cloneTo_not_open n uvWrite garbage ho
      split
      · refine ⟨l.next, le_rfl, by simp only; omega, ?_, by rw [hw]⟩
        simp only
        rw [he]
        simp
      · have hmono := hrest.next
        obtain ⟨he', hw'⟩ := hrest.others l.next (by omega)
        refine ⟨l.next, le_rfl, by simp only; omega, ?_, hw'.trans (by rw [hw])⟩
        simp only
        rw [List.count_append, he, he']
        simp

/-! ## One notice -/

/-- The notice finds its connection open, or is broadcast and finds none that is closing or gone. -/
def Arrives (s : CanIPCServer A api) (n : Notice) : Prop :=
  (∀ client ∈ n.client, IsOpen s client) ∧ (n.client = none → ∀ ref ∈ s.clientVector, RefOpen s ref)

instance (s : CanIPCServer A api) (n : Notice) : Decidable (Arrives s n) := by
  unfold Arrives; infer_instance

/-- What `on_notify` leaves as it is, and the entries it makes. -/
structure Noted (l m : Ledger A api) (e : List LedgerEvent) : Prop where
  asyncs : m.asyncs = l.asyncs ∧ m.server.asyncs = l.server.asyncs
  parallel : m.writes.length + l.server.writes.length = l.writes.length + m.server.writes.length
  next : l.next ≤ m.next
  created : ∀ k, .created k ∈ e ↔ l.next ≤ k ∧ k < m.next

theorem onNotify_all {l : Ledger A api} {n : Notice} (hn : n.client = none) (k : Nat) :
    l.onNotify n k uvWrite garbage =
      ((Ledger.broadcastNotify n uvWrite garbage l l.server.clientVector).1,
        (Ledger.broadcastNotify n uvWrite garbage l l.server.clientVector).2 ++ [.released k]) := by
  unfold Ledger.onNotify
  rw [hn]

theorem onNotify_one {l : Ledger A api} {n : Notice} {client : Addr} (hn : n.client = some client) (k : Nat) :
    l.onNotify n k uvWrite garbage = ((l.sendNotify client n k uvWrite garbage).1,
      if (l.sendNotify client n k uvWrite garbage).2 ≠ 0 then [.released k] else []) := by
  unfold Ledger.onNotify
  rw [hn]

theorem onNotify_noted (l : Ledger A api) (n : Notice) (k : Nat) :
    Noted l (l.onNotify n k uvWrite garbage).1 (l.onNotify n k uvWrite garbage).2 := by
  cases hn : n.client with
  | none =>
    have hc := broadcast_cloned n uvWrite garbage l.server.clientVector l
    rw [onNotify_all uvWrite garbage hn]
    refine ⟨hc.asyncs, hc.parallel, hc.next, fun j => ?_⟩
    simp only [List.mem_append, List.mem_singleton, reduceCtorEq, or_false]
    exact hc.created j
  | some client =>
    rw [onNotify_one uvWrite garbage hn]
    obtain ⟨⟨ws, f, hserver, -⟩, -⟩ := sent_frame (sendNotify_sent l.server client n uvWrite garbage)
    refine ⟨⟨rfl, ?_⟩, ?_, le_rfl, fun j => ?_⟩
    · rw [sendNotify_server, hserver]
    · have hlen : (l.server.sendNotify client n uvWrite garbage).1.writes.length =
          l.server.writes.length + ws.length := by
        rw [hserver]
        exact List.length_append
      show (l.writes ++ List.replicate ((l.server.sendNotify client n uvWrite garbage).1.writes.length -
        l.server.writes.length) k).length + l.server.writes.length =
          l.writes.length + (l.server.sendNotify client n uvWrite garbage).1.writes.length
      rw [List.length_append, List.length_replicate, hlen]
      omega
    · have hnext : (l.sendNotify client n k uvWrite garbage).1.next = l.next := rfl
      rw [hnext]
      split
      · simp
      · simp

/-- A notice that arrives is released or goes with a write, and so do its clones. -/
theorem onNotify_arrives {l : Ledger A api} (hf : l.server.fault = none) {n : Notice} (ha : Arrives l.server n)
    (k j : Nat) : (l.onNotify n k uvWrite garbage).2.count (.released j) +
        (l.onNotify n k uvWrite garbage).1.writes.count j =
      l.writes.count j + (if k = j then 1 else 0) +
        if l.next ≤ j ∧ j < (l.onNotify n k uvWrite garbage).1.next then 1 else 0 := by
  cases hn : n.client with
  | none =>
    have hc := broadcast_cloned n uvWrite garbage l.server.clientVector l
    have hs := broadcast_settles n uvWrite garbage l.server.clientVector l hf (ha.2 hn)
    rw [onNotify_all uvWrite garbage hn]
    simp only [List.count_append, List.count_singleton, beq_iff_eq, LedgerEvent.released.injEq]
    by_cases hj : l.next ≤ j ∧ j < (Ledger.broadcastNotify n uvWrite garbage l l.server.clientVector).1.next
    · have := hs j hj.1 hj.2
      rw [if_pos hj]
      omega
    · obtain ⟨he, hw⟩ := hc.others j hj
      rw [if_neg hj]
      omega
  | some client =>
    have hnext : ¬ (l.next ≤ j ∧ j < l.next) := by omega
    rw [onNotify_one uvWrite garbage hn]
    rcases sendNotify_open n k uvWrite garbage (ha.1 client hn) with heq | ⟨r, hr, heq⟩
    · rw [heq, if_neg hnext]
      simp only [List.count_append, List.count_singleton, beq_iff_eq, ne_eq, not_true_eq_false, if_false,
        List.count_nil]
      omega
    · rw [heq, if_neg hnext]
      simp only [hr, ne_eq, not_false_eq_true, if_true, List.count_singleton, beq_iff_eq, LedgerEvent.released.injEq]
      omega

/-- Of a notice that does not, the entry or a clone's is lost. -/
theorem onNotify_loses {l : Ledger A api} (hf : l.server.fault = none) {n : Notice} (ha : ¬ Arrives l.server n)
    {k : Nat} (hk : k < l.next) : ∃ j, (j = k ∨ l.next ≤ j ∧ j < (l.onNotify n k uvWrite garbage).1.next) ∧
      (l.onNotify n k uvWrite garbage).2.count (.released j) = 0 ∧
      (l.onNotify n k uvWrite garbage).1.writes.count j = l.writes.count j := by
  cases hn : n.client with
  | none =>
    have hno : ∃ ref ∈ l.server.clientVector, ¬ RefOpen l.server ref := by
      by_contra hall
      push Not at hall
      refine ha ⟨fun c hc => ?_, fun _ => hall⟩
      rw [hn] at hc
      cases hc
    obtain ⟨j, hle, hlt, he, hw⟩ := broadcast_loses n uvWrite garbage l.server.clientVector l hf hno
    rw [onNotify_all uvWrite garbage hn]
    refine ⟨j, .inr ⟨hle, hlt⟩, ?_, hw⟩
    have hne : k ≠ j := by omega
    simp [List.count_append, he, hne]
  | some client =>
    have ho : ¬ IsOpen l.server client := by
      intro ho
      refine ha ⟨fun c hc => ?_, fun hnone => ?_⟩
      · rw [hn] at hc
        cases hc
        exact ho
      · rw [hn] at hnone
        cases hnone
    obtain ⟨f, heq⟩ := sendNotify_not_open n k uvWrite garbage ho
    rw [onNotify_one uvWrite garbage hn, heq]
    exact ⟨k, .inl rfl, rfl, rfl⟩

end Broadcast

end AnXfs.Server
