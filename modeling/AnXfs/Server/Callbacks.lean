/-
What one step of the server can do, read off the definitions of the callbacks once: `Acted` lists the
outcomes of every input, with the guards under which they occur, and `server_acted` says that there
are no others. `broadcast_frame` does the same for the loop inside `broadcast_notify`.
-/
import AnXfs.Server.Loop

namespace AnXfs.Server

open AnXfs.Wire AnXfs.Pack AnXfs.Run

variable {A : Arch} {api : XfsApi}

/-! ## Sending one notice -/

/-- The outcomes of `send_notify` of `n` to the pointer `a`, with the value returned. -/
inductive Sent (s : CanIPCServer A api) (a : Addr) (n : Notice) : CanIPCServer A api → List (Event A) → Int → Prop
  | stale : s.mem a = none → Sent s a n s [.touched a none n] 0
  | crashed : s.mem a = none →
      Sent s a n { s with fault := some .useAfterFree }
        [.touched a none n, .uvWrite a none n, .fault none .useAfterFree] 0
  | closing (p : Pipe) : s.mem a = some p → p.closing = true → Sent s a n s [.touched a (some p.id) n] 0
  | written (p : Pipe) : s.mem a = some p → p.closing = false →
      Sent s a n { s with writes := s.writes ++ [⟨a, n⟩] }
        [.touched a (some p.id) n, .uvWrite a (some p.id) n, .wrote p.id n] 0
  | refused (p : Pipe) (r : Int) : s.mem a = some p → p.closing = false → r ≠ 0 →
      Sent s a n s [.touched a (some p.id) n, .uvWrite a (some p.id) n] r

theorem sendNotify_sent (s : CanIPCServer A api) (a : Addr) (n : Notice) (uvWrite : Addr → Int) (garbage : Bool) :
    Sent s a n (s.sendNotify a n uvWrite garbage).1 (s.sendNotify a n uvWrite garbage).2.1
      (s.sendNotify a n uvWrite garbage).2.2 := by
  unfold CanIPCServer.sendNotify
  cases hm : s.mem a with
  | none =>
    cases garbage with
    | true => exact .stale hm
    | false => exact .crashed hm
  | some p =>
    simp only
    split
    · rename_i hc; exact .closing p hm hc
    · rename_i hc
      replace hc : p.closing = false := by simpa using hc
      split
      · exact .written p hm hc
      · rename_i hr; exact .refused p _ hm hc hr

/-- A write that is accepted on a live connection. -/
theorem sendNotify_written {s : CanIPCServer A api} {a : Addr} (n : Notice) (uvWrite : Addr → Int) (garbage : Bool)
    {p : Pipe} (hm : s.mem a = some p) (hc : p.closing = false) (hr : uvWrite a = 0) :
    s.sendNotify a n uvWrite garbage =
      ({ s with writes := s.writes ++ [⟨a, n⟩] },
        [.touched a (some p.id) n, .uvWrite a (some p.id) n, .wrote p.id n], 0) := by
  simp [CanIPCServer.sendNotify, hm, hc, hr]

/-- The events that sending `n`, or broadcasting clones of it, can cause. -/
def OfSending (n : Notice) : Event A → Prop
  | .touched _ _ m => m = n
  | .uvWrite _ _ m => m = n
  | .wrote _ m => m = n
  | .fault conn _ => conn = none
  | .cloned _ | .released _ => True
  | _ => False

/-- Sending adds at most a write on a live connection, and changes nothing else unless it faults. -/
theorem sent_frame {s t : CanIPCServer A api} {a : Addr} {n : Notice} {e : List (Event A)} {r : Int}
    (h : Sent s a n t e r) :
    (∃ ws f, t = { s with writes := s.writes ++ ws, fault := f } ∧
      ∀ w ∈ ws, w = ⟨a, n⟩ ∧ ∃ p, s.mem a = some p ∧ p.closing = false) ∧
    ∀ x ∈ e, OfSending n x := by
  cases h with
  | stale | closing | refused => exact ⟨⟨[], s.fault, by simp, by simp⟩, by simp [OfSending]⟩
  | crashed => exact ⟨⟨[], _, by simp; rfl, by simp⟩, by simp [OfSending]⟩
  | written p hm hc =>
    refine ⟨⟨[⟨a, n⟩], s.fault, rfl, fun w hw => ?_⟩, by simp [OfSending]⟩
    exact ⟨List.mem_singleton.1 hw, p, hm, hc⟩

/-- What `send_notify` causes stands between the arrival of the notice and its release, if it is released. -/
theorem mem_around {α : Type} {x first last : α} {e : List α} {p : Prop} [Decidable p]
    (h : x ∈ first :: e ++ if p then [last] else []) : x = first ∨ x ∈ e ∨ x = last := by
  rcases List.mem_append.1 h with h | h
  · exact (List.mem_cons.1 h).imp_right .inl
  · split at h
    · exact .inr (.inr (List.mem_singleton.1 h))
    · cases h

/-- A projection that ignores arrivals and releases sees only what `send_notify` caused. -/
theorem filterMap_around {α β : Type} {f : α → Option β} {first last : α} (e : List α) {p : Prop} [Decidable p]
    (hf : f first = none) (hl : f last = none) :
    (first :: e ++ if p then [last] else []).filterMap f = e.filterMap f := by
  rw [List.filterMap_append, List.filterMap_cons_none hf]
  split
  · rw [List.filterMap_cons_none hl, List.filterMap_nil, List.append_nil]
  · rw [List.filterMap_nil, List.append_nil]

/-! ## Broadcasting -/

/-- A broadcast adds writes of clones to live connections, and changes nothing else unless it faults. -/
theorem broadcast_frame (n : Notice) (uvWrite : Addr → Int) (garbage : Bool) :
    ∀ (v : List (Option Addr)) (s : CanIPCServer A api),
      (∃ ws f, (CanIPCServer.broadcastNotify n uvWrite garbage s v).1 =
          { s with writes := s.writes ++ ws, fault := f } ∧
        ∀ w ∈ ws, w.notice = CanIPCServer.clone n ∧ ∃ p, s.mem w.handle = some p ∧ p.closing = false) ∧
      ∀ x ∈ (CanIPCServer.broadcastNotify n uvWrite garbage s v).2, OfSending (CanIPCServer.clone n) x
  | [], s => ⟨⟨[], s.fault, by simp [CanIPCServer.broadcastNotify], by simp⟩, by simp [CanIPCServer.broadcastNotify]⟩
  | none :: v, s => by
    obtain ⟨hs, he⟩ := broadcast_frame n uvWrite garbage v s
    refine ⟨hs, fun x hx => ?_⟩
    rcases List.mem_cons.1 hx with rfl | hx
    · trivial
    · exact he x hx
  | some a :: v, s => by
    have hsent := sendNotify_sent s a (CanIPCServer.clone n) uvWrite garbage
    obtain ⟨⟨ws, f, ht, hws⟩, he⟩ := sent_frame hsent
    replace hws : ∀ w ∈ ws, w.notice = CanIPCServer.clone n ∧ ∃ p, s.mem w.handle = some p ∧ p.closing = false := by
      intro w hw
      obtain ⟨rfl, hp⟩ := hws w hw
      exact ⟨rfl, hp⟩
    have hfirst : ∀ x ∈ (.cloned (CanIPCServer.clone n) ::
        (s.sendNotify a (CanIPCServer.clone n) uvWrite garbage).2.1 ++
        if (s.sendNotify a (CanIPCServer.clone n) uvWrite garbage).2.2 ≠ 0 then [.released (CanIPCServer.clone n)]
        else [] : List (Event A)), OfSending (CanIPCServer.clone n) x := by
      intro x hx
      rcases mem_around hx with rfl | hx | rfl
      · trivial
      · exact he x hx
      · trivial
    unfold CanIPCServer.broadcastNotify
    simp only
    split
    · exact ⟨⟨ws, f, ht, hws⟩, hfirst⟩
    · obtain ⟨⟨ws', f', ht', hws'⟩, he'⟩ := broadcast_frame n uvWrite garbage v
        (s.sendNotify a (CanIPCServer.clone n) uvWrite garbage).1
      refine ⟨⟨ws ++ ws', f', ?_, fun w hw => ?_⟩, fun x hx => ?_⟩
      · rw [ht', ht, List.append_assoc]
      · rcases List.mem_append.1 hw with hw | hw
        · exact hws w hw
        · have := hws' w hw
          rwa [ht] at this
      · rcases List.mem_append.1 hx with hx | hx
        · exact hfirst x hx
        · exact he' x hx

/-! ## One step -/

/-- The outcomes of a step, by input. -/
inductive Acted (s : CanIPCServer A api) : Input → CanIPCServer A api → List (Event A) → Prop
  | listenFailed (status : Int) (addr : Addr) (accept : Int) : status < 0 → s.handleClosing = false →
      Acted s (.newConnection status addr accept) { s with handleClosing := true } []
  | accepted (status : Int) (addr : Addr) (accept : Int) : s.mem addr = none → accept = 0 →
      Acted s (.newConnection status addr accept)
        { s with
          mem := Function.update s.mem addr (some ⟨s.nextId, false⟩)
          nextId := s.nextId + 1
          clientVector := s.clientVector ++ [some addr] } [.accepted s.nextId]
  | acceptFailed (status : Int) (addr : Addr) (accept : Int) : 0 ≤ status → accept ≠ 0 →
      Acted s (.newConnection status addr accept) { s with fault := some .useAfterFree } [.fault none .useAfterFree]
  | readFaulty (addr : Addr) (p : Pipe) (chunk : List UInt8) (now : AnSystemtime) (f : Fault) : s.mem addr = some p →
      chunk ≠ [] → readCmd (A := A) chunk = .error f →
      Acted s (.read addr chunk now) { s with fault := some f } [.read p.id chunk, .fault (some p.id) f]
  | readInfo (addr : Addr) (p : Pipe) (chunk : List UInt8) (now : AnSystemtime) (m : AnCmd A) (rest : List UInt8)
      (n : Notice) : s.mem addr = some p → chunk ≠ [] → readCmd chunk = .ok (m, rest) →
      m.eType = AnWfpType.wfpGetInfo.code → spiGetinfo s.exec.xfs m (some addr) (some p.id) now = .ok n →
      Acted s (.read addr chunk now) { s with asyncs := s.asyncs ++ [n] }
        [.read p.id chunk, .dispatched p.id m, .posted n, .freed p.id]
  | readCommand (addr : Addr) (p : Pipe) (chunk : List UInt8) (now : AnSystemtime) (m : AnCmd A) (rest : List UInt8) :
      s.mem addr = some p → chunk ≠ [] → readCmd chunk = .ok (m, rest) → m.eType ≠ AnWfpType.wfpGetInfo.code →
      Acted s (.read addr chunk now) { s with exec := (s.exec.pushBackCmdDeque (some addr) (some p.id) m).1 }
        (.read p.id chunk :: .dispatched p.id m ::
          (s.exec.pushBackCmdDeque (some addr) (some p.id) m).2.map .exec ++ [.freed p.id])
  | readFailed (addr : Addr) (p : Pipe) : s.mem addr = some p →
      Acted s (.readError addr) { s with mem := Function.update s.mem addr (some { p with closing := true }) }
        [.freed p.id]
  | closed (addr : Addr) (p : Pipe) : s.mem addr = some p → p.closing = true →
      (∀ w ∈ s.writes, w.handle ≠ addr) → some addr ∈ s.clientVector →
      Acted s (.closed addr)
        { s with
          clientVector := CanIPCServer.eraseClientVector addr s.clientVector
          mem := Function.update s.mem addr none } [.closed p.id]
  | closedUnknown (addr : Addr) (p : Pipe) : s.mem addr = some p → some addr ∉ s.clientVector →
      Acted s (.closed addr) s [.closed p.id]
  | notifiedAll (i : Nat) (n : Notice) (uvWrite : Addr → Int) (garbage : Bool) (ws : List WriteReq) (f : Option Fault)
      (e : List (Event A)) : s.asyncs[i]? = some n → n.client = none →
      (∀ w ∈ ws, w.notice = CanIPCServer.clone n ∧ ∃ p, s.mem w.handle = some p ∧ p.closing = false) →
      (∀ x ∈ e, OfSending (CanIPCServer.clone n) x) →
      Acted s (.notify i uvWrite garbage)
        { s with asyncs := s.asyncs.eraseIdx i, writes := s.writes ++ ws, fault := f } (.notified n :: e)
  | notified (i : Nat) (n : Notice) (uvWrite : Addr → Int) (garbage : Bool) (a : Addr) (t : CanIPCServer A api)
      (e : List (Event A)) (r : Int) : s.asyncs[i]? = some n → n.client = some a →
      Sent { s with asyncs := s.asyncs.eraseIdx i } a n t e r →
      (∀ p, s.mem a = some p → p.closing = false → uvWrite a = 0 →
        t = { s with asyncs := s.asyncs.eraseIdx i, writes := s.writes ++ [⟨a, n⟩] } ∧
          e = [.touched a (some p.id) n, .uvWrite a (some p.id) n, .wrote p.id n] ∧ r = 0) →
      Acted s (.notify i uvWrite garbage) t (.notified n :: e ++ if r ≠ 0 then [.released n] else [])
  | writeFailed (i : Nat) (w : WriteReq) (status : Int) : s.writes[i]? = some w → status < 0 →
      Acted s (.write i status) { s with writes := s.writes.eraseIdx i } []
  | written (i : Nat) (w : WriteReq) (status : Int) : s.writes[i]? = some w → w.notice.notifyExitFlag = false →
      Acted s (.write i status) { s with writes := s.writes.eraseIdx i } [.released w.notice]
  | strayWrite (i : Nat) (w : WriteReq) (status : Int) (f : Fault) : s.writes[i]? = some w →
      w.notice.notifyExitFlag = true → (w.notice.client = none ∨ ∃ a, w.notice.client = some a ∧ s.mem a = none) →
      Acted s (.write i status) { s with writes := s.writes.eraseIdx i, fault := some f } [.fault none f]
  | exits (i : Nat) (w : WriteReq) (status : Int) : s.writes[i]? = some w → w.notice.notifyExitFlag = true →
      s.handleClosing = false →
      Acted s (.write i status) { s with writes := s.writes.eraseIdx i, stopped := true, handleClosing := true }
        [.exit s.exec.xfs.serviceTable, .released w.notice]
  | exitsAgain (i : Nat) (w : WriteReq) (status : Int) : s.writes[i]? = some w → w.notice.notifyExitFlag = true →
      s.handleClosing = true →
      Acted s (.write i status) { s with writes := s.writes.eraseIdx i, stopped := true, fault := some .closedTwice }
        [.exit s.exec.xfs.serviceTable, .fault none .closedTwice, .released w.notice]
  | exec (i : Input) (j : ExecInput A) (x : Executer A api) (e : List (ExecEvent A)) : i.exec? A = some j →
      Stepped s.exec j x e →
      Acted s i { s with exec := x, asyncs := s.asyncs ++ noticesOf e } (e.map .exec)
  | loopExit : Acted s .loopExit { s with exited := true } []

theorem onNewConnection_acted {s : CanIPCServer A api} {addr : Addr} (status accept : Int) (hm : s.mem addr = none)
    (hc : s.handleClosing = false) :
    Acted s (.newConnection status addr accept) (s.onNewConnection status addr accept).1
      (s.onNewConnection status addr accept).2 := by
  unfold CanIPCServer.onNewConnection
  split
  · rename_i hs
    rw [hc]
    exact .listenFailed status addr accept hs hc
  · rename_i hs
    split
    · rename_i hr; exact .accepted status addr accept hm hr
    · rename_i hr; exact .acceptFailed status addr accept (Int.not_lt.1 hs) hr

theorem onRead_acted {s : CanIPCServer A api} {addr : Addr} {p : Pipe} {chunk : List UInt8} (now : AnSystemtime)
    (hm : s.mem addr = some p) (hc : chunk ≠ []) :
    Acted s (.read addr chunk now) (s.onRead addr p.id chunk now).1 (s.onRead addr p.id chunk now).2 := by
  unfold CanIPCServer.onRead
  split
  · rename_i f hf; exact .readFaulty addr p chunk now f hm hc hf
  rename_i m rest hr
  split
  · rename_i hg
    obtain ⟨n, hn⟩ := spiGetinfo_built (x := s.exec.xfs) (readCmd_ok hr).1 hg (some addr) (some p.id) now
    simp only [hn]
    exact .readInfo addr p chunk now m rest n hm hc hr hg hn
  · rename_i hg; exact .readCommand addr p chunk now m rest hm hc hr hg

theorem onReadError_acted {s : CanIPCServer A api} {addr : Addr} {p : Pipe} (hm : s.mem addr = some p) :
    Acted s (.readError addr) (s.onReadError addr p).1 (s.onReadError addr p).2 := by
  unfold CanIPCServer.onReadError
  split
  · rename_i hc
    have hs : { s with mem := Function.update s.mem addr (some { p with closing := true }) } = s := by
      have hp : { p with closing := true } = p := by rw [← hc]
      rw [hp, ← hm, Function.update_eq_self]
    have h := Acted.readFailed addr p hm
    rwa [hs] at h
  · exact .readFailed addr p hm

theorem onClose_acted {s : CanIPCServer A api} {addr : Addr} {p : Pipe} (hm : s.mem addr = some p)
    (hc : p.closing = true) (hw : ∀ w ∈ s.writes, w.handle ≠ addr) :
    Acted s (.closed addr) (s.onClose addr p.id).1 (s.onClose addr p.id).2 := by
  unfold CanIPCServer.onClose
  split
  · rename_i hv; exact .closed addr p hm hc hw hv
  · rename_i hv; exact .closedUnknown addr p hm hv

theorem onNotify_acted {s : CanIPCServer A api} {i : Nat} {n : Notice} (uvWrite : Addr → Int) (garbage : Bool)
    (hi : s.asyncs[i]? = some n) :
    Acted s (.notify i uvWrite garbage) ({ s with asyncs := s.asyncs.eraseIdx i }.onNotify n uvWrite garbage).1
      ({ s with asyncs := s.asyncs.eraseIdx i }.onNotify n uvWrite garbage).2 := by
  unfold CanIPCServer.onNotify
  cases hn : n.client with
  | none =>
    obtain ⟨⟨ws, f, ht, hws⟩, he⟩ := broadcast_frame n uvWrite garbage s.clientVector
      { s with asyncs := s.asyncs.eraseIdx i }
    simp only [ht]
    refine .notifiedAll i n uvWrite garbage ws f _ hi hn hws fun x hx => ?_
    rcases List.mem_append.1 hx with hx | hx
    · exact he x hx
    · rw [List.mem_singleton.1 hx]; trivial
  | some a =>
    refine .notified i n uvWrite garbage a _ _ _ hi hn (sendNotify_sent _ a n uvWrite garbage) fun p hp hc hr => ?_
    have hw := sendNotify_written (s := { s with asyncs := s.asyncs.eraseIdx i }) n uvWrite garbage hp hc hr
    simp only [hw, and_self]

theorem onWrite_acted {s : CanIPCServer A api} {i : Nat} {w : WriteReq} (status : Int) (hi : s.writes[i]? = some w) :
    Acted s (.write i status) ({ s with writes := s.writes.eraseIdx i }.onWrite w status).1
      ({ s with writes := s.writes.eraseIdx i }.onWrite w status).2 := by
  unfold CanIPCServer.onWrite
  split
  · rename_i hs; exact .writeFailed i w status hi hs
  split
  swap
  · rename_i hf; exact .written i w status hi (by simpa using hf)
  rename_i hf
  split
  · rename_i hn; exact .strayWrite i w status _ hi hf (.inl hn)
  rename_i a ha
  split
  · rename_i hm; exact .strayWrite i w status _ hi hf (.inr ⟨a, ha, hm⟩)
  unfold CanIPCServer.notifyExitServer
  simp only
  split
  · rename_i hc; exact .exitsAgain i w status hi hf hc
  · rename_i hc; exact .exits i w status hi hf (by simpa using hc)

/-- A step of the server has one of the outcomes of `Acted`, and is taken only while nothing has faulted. -/
theorem server_acted {s t : CanIPCServer A api} {i : Input} {e : List (Event A)}
    (h : (serverMachine A api).step s i = some (t, e)) :
    s.fault = none ∧ s.exec.fault = none ∧ Acted s i t e := by
  simp only [serverMachine, CanIPCServer.step] at h
  split at h
  · cases h
  rename_i ha
  have ha : s.fault = none ∧ s.exec.fault = none := by simpa [CanIPCServer.alive] using ha
  refine ⟨ha.1, ha.2, ?_⟩
  split at h
  · rename_i j hj
    obtain ⟨⟨x, ex⟩, hx, h⟩ := Option.map_eq_some_iff.1 h
    cases h
    exact .exec i j x ex hj (step_stepped hx).2
  split at h
  · cases h
  unfold CanIPCServer.loopStep at h
  cases i with
  | newConnection status addr accept =>
    simp only at h
    split at h
    · rename_i hc
      have hacted := onNewConnection_acted status accept hc.1 hc.2
      rw [Option.some.inj h] at hacted
      exact hacted
    · cases h
  | read addr chunk now =>
    simp only at h
    split at h
    · cases h
    rename_i p hp
    split at h
    · rename_i hc
      have hacted := onRead_acted now hp hc.2
      rw [Option.some.inj h] at hacted
      exact hacted
    · cases h
  | readError addr =>
    obtain ⟨p, hp, h⟩ := Option.map_eq_some_iff.1 h
    have hacted := onReadError_acted hp
    rw [h] at hacted
    exact hacted
  | closed addr =>
    simp only at h
    split at h
    · cases h
    rename_i p hp
    split at h
    · rename_i hc
      have hacted := onClose_acted hp hc.1 hc.2
      rw [Option.some.inj h] at hacted
      exact hacted
    · cases h
  | notify k uvWrite garbage =>
    obtain ⟨n, hn, h⟩ := Option.map_eq_some_iff.1 h
    have hacted := onNotify_acted uvWrite garbage hn
    rw [h] at hacted
    exact hacted
  | write k status =>
    obtain ⟨w, hw, h⟩ := Option.map_eq_some_iff.1 h
    have hacted := onWrite_acted status hw
    rw [h] at hacted
    exact hacted
  | loopExit =>
    simp only at h
    split at h
    · cases h; exact .loopExit
    · cases h
  | run _ | idle _ _ | itemCheck _ => cases h

/-- A callback of the loop that can be made. -/
theorem step_loop {s t : CanIPCServer A api} {i : Input} {e : List (Event A)}
    (h : (serverMachine A api).step s i = some (t, e)) (hi : i.exec? A = none) : s.loopStep i = some (t, e) := by
  simp only [serverMachine, CanIPCServer.step] at h
  split at h
  · cases h
  rw [hi] at h
  simp only at h
  split at h
  · cases h
  · exact h

theorem step_notify {s t : CanIPCServer A api} {k : Nat} {uvWrite : Addr → Int} {garbage : Bool} {e : List (Event A)}
    (h : (serverMachine A api).step s (.notify k uvWrite garbage) = some (t, e)) :
    ∃ n, s.asyncs[k]? = some n ∧ { s with asyncs := s.asyncs.eraseIdx k }.onNotify n uvWrite garbage = (t, e) :=
  Option.map_eq_some_iff.1 (step_loop h rfl)

theorem step_write {s t : CanIPCServer A api} {k : Nat} {status : Int} {e : List (Event A)}
    (h : (serverMachine A api).step s (.write k status) = some (t, e)) :
    ∃ w, s.writes[k]? = some w ∧ { s with writes := s.writes.eraseIdx k }.onWrite w status = (t, e) :=
  Option.map_eq_some_iff.1 (step_loop h rfl)

/-- A step of the executor's thread is a piece of `run`. -/
theorem step_exec_run {s t : CanIPCServer A api} {now : AnSystemtime} {e : List (Event A)}
    (hstep : (serverMachine A api).step s (.run now) = some (t, e)) :
    ∃ x ex, Ran s.exec now x ex ∧ t = { s with exec := x, asyncs := s.asyncs ++ noticesOf ex } ∧ e = ex.map .exec := by
  have hexec : s.execStep (.run now) = some (t, e) := by
    simp only [serverMachine, CanIPCServer.step] at hstep
    split at hstep
    · cases hstep
    · exact hstep
  obtain ⟨⟨x, ex⟩, hx, heq⟩ := Option.map_eq_some_iff.1 hexec
  cases heq
  exact ⟨x, ex, step_ran hx, rfl, rfl⟩

/-- A step of another thread than the loop's. -/
theorem acted_exec {s t : CanIPCServer A api} {i : Input} {j : ExecInput A} {e : List (Event A)} (h : Acted s i t e)
    (hi : i.exec? A = some j) :
    ∃ x ex, Stepped s.exec j x ex ∧ t = { s with exec := x, asyncs := s.asyncs ++ noticesOf ex } ∧
      e = ex.map .exec := by
  cases h with
  | exec i j' x ex hj hs =>
    rw [hi] at hj
    cases hj
    exact ⟨x, ex, hs, rfl, rfl⟩
  | _ => cases hi

end AnXfs.Server
