/-
Whom a broadcast reaches. `erase_client_vector` empties a slot and leaves it behind as null, and knows
a connection by its address only; read without its null slots, the vector is a list without duplicates
from which one address is erased. `Lists` ties it to the memory of the connections and to the history:
the addresses in it are those where a connection lives, and the connections are those that were
accepted and have not been erased since.

`on_new_connection` deletes a pipe that it could not accept while the loop has yet to close it, and no
broadcast can be counted on after that. As long as nothing is read, it is all that can go wrong.
-/
import AnXfs.Run.Progress
import AnXfs.Server.Delivery
import Mathlib.Data.List.ReduceOption

namespace AnXfs.Server

open AnXfs.Wire AnXfs.Pack AnXfs.Run

variable {A : Arch} {api : XfsApi}

/-- The loop reads what a client has sent. -/
def Input.reads : Input → Bool
  | .read .. => true
  | _ => false

/-! ## The connections -/

/-- The connection has been accepted and not been erased. -/
def Live (h : List (Event A)) (c : ConnId) : Prop := .accepted c ∈ h ∧ .closed c ∉ h

/-- `uv_close` has been called on the connection. -/
def Closing (s : CanIPCServer A api) (c : ConnId) : Prop := ∃ a p, s.mem a = some p ∧ p.id = c ∧ p.closing = true

/-- The calls of `uv_write`, each with the connection it finds and the notice. -/
def uvWrites (e : List (Event A)) : List (Option ConnId × Notice) :=
  e.filterMap fun
    | .uvWrite _ found n => some (found, n)
    | _ => none

/-- The notice goes out once to each connection that is accepted, not erased and not closing, and to nothing
else. -/
structure ReachesLive (h : List (Event A)) (s : CanIPCServer A api) (n : Notice) (e : List (Event A)) : Prop where
  once : (uvWrites e).Nodup
  live : ∀ w, w ∈ uvWrites e ↔ ∃ c, w = (some c, n) ∧ Live h c ∧ ¬ Closing s c

/-- Emptying a slot erases the address from the slots that are left. -/
theorem reduceOption_eraseClientVector (client : Addr) : ∀ v : List (Option Addr),
    (CanIPCServer.eraseClientVector client v).reduceOption = v.reduceOption.erase client
  | [] => rfl
  | none :: rest => by
    simpa [CanIPCServer.eraseClientVector] using reduceOption_eraseClientVector client rest
  | some a :: rest => by
    unfold CanIPCServer.eraseClientVector
    by_cases ha : a = client
    · subst ha
      simp
    · rw [if_neg (by simpa using ha), List.reduceOption_cons_of_some, List.reduceOption_cons_of_some,
        List.erase_cons_tail (by simpa using ha), reduceOption_eraseClientVector client rest]

/-- The vector, the memory and the history speak of the same connections. -/
structure Lists (h : List (Event A)) (s : CanIPCServer A api) : Prop where
  nodup : s.clientVector.reduceOption.Nodup
  held : ∀ a, a ∈ s.clientVector.reduceOption ↔ ∃ p, s.mem a = some p
  distinct : Distinct s.mem
  issued : ∀ a p, s.mem a = some p → p.id < s.nextId
  accepted : ∀ c, .accepted c ∈ h ↔ c < s.nextId
  closed : ∀ c, .closed c ∈ h ↔ c < s.nextId ∧ ∀ a p, s.mem a = some p → p.id ≠ c

theorem Lists.live_iff {h : List (Event A)} {s : CanIPCServer A api} (hs : Lists h s) (c : ConnId) :
    Live h c ↔ ∃ a p, s.mem a = some p ∧ p.id = c := by
  unfold Live
  rw [hs.accepted, hs.closed]
  constructor
  · rintro ⟨hlt, hn⟩
    by_contra hc
    apply hn
    refine ⟨hlt, fun a p hp hid => hc ⟨a, p, hp, hid⟩⟩
  · rintro ⟨a, p, hp, rfl⟩
    exact ⟨hs.issued a p hp, fun hn => hn.2 a p hp rfl⟩

/-- The event neither accepts a connection nor erases one. -/
def Keeps : Event A → Prop
  | .accepted _ => False
  | .closed _ => False
  | _ => True

theorem keeps_ofSending {n : Notice} {x : Event A} (hx : OfSending n x) : Keeps x := by
  cases x with
  | accepted c => exact hx
  | closed c => exact hx
  | _ => trivial

/-- A step that leaves the connections alone. -/
theorem Lists.frame {h : List (Event A)} {s t : CanIPCServer A api} {e : List (Event A)} (hs : Lists h s)
    (he : ∀ x ∈ e, Keeps x) (hmem : t.mem = s.mem) (hid : t.nextId = s.nextId)
    (hv : t.clientVector = s.clientVector) : Lists (h ++ e) t where
  nodup := by rw [hv]; exact hs.nodup
  held := by rw [hv, hmem]; exact hs.held
  distinct := by rw [hmem]; exact hs.distinct
  issued := by rw [hmem, hid]; exact hs.issued
  accepted := by
    intro c
    rw [hid, ← hs.accepted c, List.mem_append]
    exact or_iff_left fun hx => he _ hx
  closed := by
    intro c
    rw [hid, hmem, ← hs.closed c, List.mem_append]
    exact or_iff_left fun hx => he _ hx

section Connections

variable {h : List (Event A)} {s : CanIPCServer A api} {addr : Addr}

/-- A connection is accepted where no entry points to, although one may have before. -/
theorem Lists.accept (hs : Lists h s) (hm : s.mem addr = none) :
    Lists (h ++ [.accepted s.nextId])
      { s with
        mem := Function.update s.mem addr (some ⟨s.nextId, false⟩)
        nextId := s.nextId + 1
        clientVector := s.clientVector ++ [some addr] } := by
  have hnew : addr ∉ s.clientVector.reduceOption := by
    intro ha
    obtain ⟨p, hp⟩ := (hs.held addr).1 ha
    rw [hm] at hp
    cases hp
  have hvec : (s.clientVector ++ [some addr]).reduceOption = s.clientVector.reduceOption ++ [addr] := by
    simp [List.reduceOption_append]
  refine ⟨?_, fun a => ?_, hs.distinct.update ?_, fun a p hp => ?_, fun c => ?_, fun c => ?_⟩
  · rw [hvec]
    refine List.nodup_append.2 ⟨hs.nodup, List.nodup_singleton addr, ?_⟩
    rintro a ha b hb rfl
    cases List.mem_singleton.1 hb
    exact hnew ha
  · rw [hvec, List.mem_append, List.mem_singleton, hs.held]
    by_cases ha : a = addr
    · subst ha
      simp
    · simp [ha]
  · rintro p hp b q - hq
    cases hp
    exact (hs.issued b q hq).ne'
  · rcases update_some hp with ⟨-, hpid⟩ | ⟨-, hp'⟩
    · cases hpid
      exact Nat.lt_succ_self _
    · exact Nat.lt_succ_of_lt (hs.issued a p hp')
  · rw [List.mem_append, List.mem_singleton, hs.accepted, Event.accepted.injEq]
    exact Nat.lt_succ_iff_lt_or_eq.symm
  · -- the new identity is that of a connection, and the others are as they were
    rw [List.mem_append, List.mem_singleton, hs.closed]
    constructor
    · rintro (⟨hlt, hn⟩ | hc)
      · refine ⟨Nat.lt_succ_of_lt hlt, fun a p hp => ?_⟩
        rcases update_some hp with ⟨-, hpid⟩ | ⟨-, hp'⟩
        · cases hpid
          exact hlt.ne'
        · exact hn a p hp'
      · cases hc
    · rintro ⟨hlt, hn⟩
      have hne : s.nextId ≠ c := hn addr _ (Function.update_self ..)
      refine .inl ⟨lt_of_le_of_ne (Nat.lt_succ_iff.1 hlt) hne.symm, fun a p hp => hn a p ?_⟩
      have ha : a ≠ addr := by
        rintro rfl
        rw [hm] at hp
        cases hp
      exact (Function.update_of_ne ha _ _).trans hp

/-- A connection starts to close, and stays in its slot. -/
theorem Lists.close (hs : Lists h s) {p : Pipe} (hm : s.mem addr = some p) :
    Lists (h ++ [.freed p.id]) { s with mem := Function.update s.mem addr (some { p with closing := true }) } := by
  have hold : ∀ {a q}, Function.update s.mem addr (some { p with closing := true }) a = some q →
      ∃ q', s.mem a = some q' ∧ q'.id = q.id := fun hq => (closing_iff hm _ _).1 ⟨_, hq, rfl⟩
  have hs' := hs.frame (t := s) (e := [.freed p.id]) (by simp [Keeps]) rfl rfl rfl
  refine ⟨hs.nodup, fun a => ?_, hs.distinct.update ?_, fun a q hq => ?_, hs'.accepted, fun c => ?_⟩
  · rw [hs.held]
    constructor
    · rintro ⟨q, hq⟩
      obtain ⟨q', hq', -⟩ := (closing_iff hm a q.id).2 ⟨q, hq, rfl⟩
      exact ⟨q', hq'⟩
    · rintro ⟨q, hq⟩
      obtain ⟨q', hq', -⟩ := hold hq
      exact ⟨q', hq'⟩
  · rintro q hq b r hb hr hid
    cases hq
    exact hb (hs.distinct b addr r p hr hm hid.symm)
  · obtain ⟨q', hq', hqid⟩ := hold hq
    rw [← hqid]
    exact hs.issued a q' hq'
  · rw [hs'.closed c]
    refine and_congr_right fun _ => ?_
    constructor
    · rintro hn a q hq rfl
      obtain ⟨q', hq', hqid⟩ := hold hq
      exact hn a q' hq' hqid
    · rintro hn a q hq rfl
      obtain ⟨q', hq', hqid⟩ := (closing_iff hm a q.id).2 ⟨q, hq, rfl⟩
      exact hn a q' hq' hqid

/-- A connection is erased; its address is free again. -/
theorem Lists.erase (hs : Lists h s) {p : Pipe} (hm : s.mem addr = some p) :
    Lists (h ++ [.closed p.id])
      { s with
        clientVector := CanIPCServer.eraseClientVector addr s.clientVector
        mem := Function.update s.mem addr none } := by
  have hold : ∀ {a q}, Function.update s.mem addr none a = some q ↔ a ≠ addr ∧ s.mem a = some q := by
    intro a q
    by_cases ha : a = addr
    · subst ha
      simp
    · simp [ha]
  refine ⟨?_, fun a => ?_, hs.distinct.update (by simp), fun a q hq => ?_, fun c => ?_, fun c => ?_⟩
  · show (CanIPCServer.eraseClientVector addr s.clientVector).reduceOption.Nodup
    rw [reduceOption_eraseClientVector]
    exact hs.nodup.erase addr
  · show a ∈ (CanIPCServer.eraseClientVector addr s.clientVector).reduceOption ↔ _
    rw [reduceOption_eraseClientVector, hs.nodup.mem_erase_iff, hs.held]
    simp only [hold, exists_and_left]
  · exact hs.issued a q (hold.1 hq).2
  · simp [hs.accepted c]
  · have hc := hs.closed c
    simp only [List.mem_append, List.mem_singleton, Event.closed.injEq, hc, hold]
    constructor
    · rintro (⟨hlt, hn⟩ | rfl)
      · exact ⟨hlt, fun a q hq => hn a q hq.2⟩
      · -- no other connection has the identity of the erased one
        exact ⟨hs.issued addr p hm, fun a q hq hid => hq.1 (hs.distinct a addr q p hq.2 hm hid)⟩
    · rintro ⟨hlt, hn⟩
      by_cases hp : c = p.id
      · exact .inr hp
      · refine .inl ⟨hlt, fun a q hq => ?_⟩
        by_cases ha : a = addr
        · subst ha
          rw [hm] at hq
          cases hq
          exact fun hid => hp hid.symm
        · exact hn a q ⟨ha, hq⟩

end Connections

theorem lists_step {h : List (Event A)} {s t : CanIPCServer A api} {i : Input} {e : List (Event A)}
    (hs : Lists h s) (hstep : (serverMachine A api).step s i = some (t, e)) : Lists (h ++ e) t := by
  obtain ⟨-, -, ha⟩ := server_acted hstep
  cases ha with
  | accepted status addr accept hm => exact hs.accept hm
  | readFailed addr p hm => exact hs.close hm
  | closed addr p hm hc hw hv => exact hs.erase hm
  | closedUnknown addr p hm hv =>
    exact absurd (List.reduceOption_mem_iff.1 ((hs.held addr).2 ⟨p, hm⟩)) hv
  | notifiedAll k n uvWrite garbage ws f e hk hn hws he =>
    refine hs.frame (fun x hx => ?_) rfl rfl rfl
    rcases List.mem_cons.1 hx with rfl | hx
    · trivial
    · exact keeps_ofSending (he x hx)
  | notified k n uvWrite garbage a t e r hk hn hsent hwritten =>
    obtain ⟨⟨ws, f, rfl, -⟩, he⟩ := sent_frame hsent
    refine hs.frame (fun x hx => ?_) rfl rfl rfl
    rcases mem_around hx with rfl | hx | rfl
    · trivial
    · exact keeps_ofSending (he x hx)
    · trivial
  | exec i j x ex hj hst =>
    refine hs.frame (fun y hy => ?_) rfl rfl rfl
    obtain ⟨z, -, rfl⟩ := List.mem_map.1 hy
    trivial
  | _ => exact hs.frame (by simp [Keeps, Executer.pushBackCmdDeque]) rfl rfl rfl

theorem lists_new (x : CanXfs A api) : Lists [] (CanIPCServer.new x) := by
  refine ⟨List.nodup_nil, fun a => ?_, fun a b p q hp => ?_, fun a p hp => ?_, fun c => ?_, fun c => ?_⟩
  · simp [CanIPCServer.new]
  · cases hp
  · cases hp
  · simp [CanIPCServer.new]
  · simp [CanIPCServer.new]

theorem uvWrites_append (e e' : List (Event A)) : uvWrites (e ++ e') = uvWrites e ++ uvWrites e' :=
  List.filterMap_append

/-- Sending to a connection that is there calls `uv_write` on it unless it is closing, and leaves the memory as
it is. -/
theorem sent_uvWrites {s t : CanIPCServer A api} {a : Addr} {n : Notice} {e : List (Event A)} {r : Int} {p : Pipe}
    (h : Sent s a n t e r) (hp : s.mem a = some p) :
    t.mem = s.mem ∧ t.fault = s.fault ∧ uvWrites e = if p.closing then [] else [(some p.id, n)] := by
  cases h with
  | stale hm | crashed hm => rw [hp] at hm; cases hm
  | closing q hm hc | written q hm hc | refused q r hm hc hr =>
    rw [hp] at hm
    cases hm
    exact ⟨rfl, rfl, by simp [uvWrites, hc]⟩

/-- What the loop of `broadcast_notify` writes to, over slots that are null or point to a connection. -/
theorem broadcast_uvWrites (n : Notice) (uvWrite : Addr → Int) (garbage : Bool) :
    ∀ (v : List (Option Addr)) (s : CanIPCServer A api), s.fault = none →
      (∀ a, some a ∈ v → ∃ p, s.mem a = some p) →
      (CanIPCServer.broadcastNotify n uvWrite garbage s v).1.fault = none ∧
      uvWrites (CanIPCServer.broadcastNotify n uvWrite garbage s v).2 =
        v.reduceOption.filterMap fun a => (s.mem a).bind fun p =>
          if p.closing then none else some (some p.id, CanIPCServer.clone n)
  | [], s, hf, _ => ⟨hf, rfl⟩
  | none :: v, s, hf, hv => by
    have ih := broadcast_uvWrites n uvWrite garbage v s hf fun a ha => hv a (List.mem_cons_of_mem _ ha)
    rw [List.reduceOption_cons_of_none, ← ih.2]
    exact ⟨ih.1, rfl⟩
  | some a :: v, s, hf, hv => by
    obtain ⟨p, hp⟩ := hv a (List.mem_cons_self ..)
    obtain ⟨hmem, hfault, hw⟩ :=
      sent_uvWrites (sendNotify_sent s a (CanIPCServer.clone n) uvWrite garbage) hp
    obtain ⟨ihf, ih⟩ := broadcast_uvWrites n uvWrite garbage v (s.sendNotify a (CanIPCServer.clone n) uvWrite garbage).1
      (by rw [hfault, hf]) (by
        rw [hmem]
        intro b hb
        exact hv b (List.mem_cons_of_mem _ hb))
    rw [hmem] at ih
    -- the clone and its release call nothing
    have hfirst : uvWrites (.cloned (CanIPCServer.clone n) ::
        (s.sendNotify a (CanIPCServer.clone n) uvWrite garbage).2.1 ++
        if (s.sendNotify a (CanIPCServer.clone n) uvWrite garbage).2.2 ≠ 0 then [.released (CanIPCServer.clone n)]
        else [] : List (Event A)) = if p.closing then [] else [(some p.id, CanIPCServer.clone n)] := by
      rw [← hw]
      exact filterMap_around _ rfl rfl
    unfold CanIPCServer.broadcastNotify
    simp only [hfault, hf, ne_eq, not_true_eq_false, if_false]
    refine ⟨ihf, ?_⟩
    rw [uvWrites_append, ih]
    simp only [ne_eq] at hfirst
    rw [hfirst, List.reduceOption_cons_of_some, List.filterMap_cons, hp]
    cases hc : p.closing <;> simp [hc]

/-- The notice is for all clients: it is written to each that is there, and nothing faults. -/
theorem broadcast_reachesLive {h : List (Event A)} {s : CanIPCServer A api} (hs : Lists h s) (hf : s.fault = none)
    {n : Notice} (hn : n.client = none) (uvWrite : Addr → Int) (garbage : Bool) (k : Nat) :
    ({ s with asyncs := s.asyncs.eraseIdx k }.onNotify n uvWrite garbage).1.fault = none ∧
      ReachesLive h s n ({ s with asyncs := s.asyncs.eraseIdx k }.onNotify n uvWrite garbage).2 := by
  have hclone : CanIPCServer.clone n = n := by
    cases n
    cases hn
    rfl
  obtain ⟨hfault, hw⟩ := broadcast_uvWrites n uvWrite garbage s.clientVector { s with asyncs := s.asyncs.eraseIdx k } hf
    fun a ha => (hs.held a).1 (List.reduceOption_mem_iff.2 ha)
  rw [hclone] at hw
  have hnotify : uvWrites ({ s with asyncs := s.asyncs.eraseIdx k }.onNotify n uvWrite garbage).2 =
      s.clientVector.reduceOption.filterMap fun a => (s.mem a).bind fun p =>
        if p.closing then none else some (some p.id, n) := by
    unfold CanIPCServer.onNotify
    rw [hn, ← hw]
    show uvWrites (_ ++ [Event.released n]) = _
    rw [uvWrites_append]
    exact List.append_nil _
  refine ⟨?_, ?_, ?_⟩
  · unfold CanIPCServer.onNotify
    rw [hn]
    exact hfault
  · rw [hnotify]
    refine hs.nodup.filterMap ?_
    intro a b w ha hb
    obtain ⟨p, hp, ha⟩ := Option.bind_eq_some_iff.1 ha
    obtain ⟨q, hq, hb⟩ := Option.bind_eq_some_iff.1 hb
    split at ha <;> cases ha
    split at hb
    · cases hb
    · have hid : q.id = p.id := by simpa using hb
      exact hs.distinct a b p q hp hq hid.symm
  · intro w
    rw [hnotify, List.mem_filterMap]
    constructor
    · rintro ⟨a, ha, hw⟩
      obtain ⟨p, hp, hw⟩ := Option.bind_eq_some_iff.1 hw
      split at hw <;> cases hw
      rename_i hc
      refine ⟨p.id, rfl, (hs.live_iff p.id).2 ⟨a, p, hp, rfl⟩, ?_⟩
      rintro ⟨b, q, hq, hid, hcq⟩
      have hab := hs.distinct a b p q hp hq hid.symm
      rw [hab, hq] at hp
      cases hp
      exact hc hcq
    · rintro ⟨c, rfl, hl, hc⟩
      obtain ⟨a, p, hp, rfl⟩ := (hs.live_iff c).1 hl
      refine ⟨a, (hs.held a).2 ⟨p, hp⟩, ?_⟩
      have hcp : p.closing ≠ true := fun hcp => hc ⟨a, p, hp, rfl, hcp⟩
      simp [hp, hcp]

theorem alive_iff (s : CanIPCServer A api) : s.alive = true ↔ s.fault = none ∧ s.exec.fault = none := by
  simp [CanIPCServer.alive]

/-- No command is there, all that waits is for every client, and no exit has been asked for. -/
structure Unread (s : CanIPCServer A api) : Prop where
  deque : s.exec.deque = []
  pc : s.exec.pc = .sizeTest
  faultless : s.exec.fault = none
  notices : ∀ n ∈ s.asyncs, n.client = none ∧ n.notifyExitFlag = false
  writes : ∀ w ∈ s.writes, w.notice.notifyExitFlag = false
  running : s.stopped = false ∧ s.exited = false

section Unread

variable {h e : List (Event A)} {s t : CanIPCServer A api} {i : Input}

/-- The threads of the executor have nothing to do but to post events. -/
theorem Unread.exec (hs : Unread s) {j : ExecInput A} {x : Executer A api} {ex : List (ExecEvent A)}
    (hj : ∀ c o m, j ≠ .push c o m) (hst : Stepped s.exec j x ex) :
    Unread { s with exec := x, asyncs := s.asyncs ++ noticesOf ex } := by
  cases hst with
  | pushed client origin m => exact absurd rfl (hj client origin m)
  | ran now x ex hr =>
    cases hr with
    | empty =>
      refine ⟨hs.deque, hs.pc, hs.faultless, ?_, hs.writes, hs.running⟩
      rw [show noticesOf ([] : List (ExecEvent A)) = [] from rfl, List.append_nil]
      exact hs.notices
    | sized _ hd => exact absurd hs.deque hd
    | fronted _ _ hpc | preProcessed _ hpc | handled _ _ _ _ hpc | paused _ _ hpc | destroyed _ hpc
    | popped _ _ hpc => cases hs.pc.symm.trans hpc
    | failed f hf =>
      cases hf with
      | noFront hpc | noCmd hpc => rcases hpc with hpc | hpc <;> cases hs.pc.symm.trans hpc
      | freed _ hpc => rcases hpc with hpc | hpc | hpc <;> cases hs.pc.symm.trans hpc
      | preProcess _ hpc | handler _ _ _ hpc => cases hs.pc.symm.trans hpc
  | quiet i itemPc =>
    refine ⟨hs.deque, hs.pc, hs.faultless, ?_, hs.writes, hs.running⟩
    rw [show noticesOf ([] : List (ExecEvent A)) = [] from rfl, List.append_nil]
    exact hs.notices
  | broadcast i itemPc r =>
    refine ⟨hs.deque, hs.pc, hs.faultless, fun n hn => ?_, hs.writes, hs.running⟩
    rcases List.mem_append.1 hn with hn | hn
    · exact hs.notices n hn
    · cases List.mem_singleton.1 hn
      exact ⟨rfl, rfl⟩

end Unread

end AnXfs.Server
