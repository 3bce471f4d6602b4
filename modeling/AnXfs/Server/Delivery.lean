/-
Whom a completion reaches. Commands and notices carry the bare address of a connection through two
queues; it still names that connection as long as no connection is erased while a command of it waits
for execution or a completion of it for delivery. `Delivers` ties every pointer in the two queues to
the connection it was taken from, and every identity to at most one address.
-/
import AnXfs.Server.Exit

namespace AnXfs.Server

open AnXfs.Wire AnXfs.Pack AnXfs.Run

variable {A : Arch} {api : XfsApi}

/-! ## The entries waiting for execution -/

/-- From the moment the front is copied until it is popped, the copy is the front. -/
def Fronted (x : Executer A api) : Prop :=
  x.pc ≠ .sizeTest → x.pc ≠ .readFront → ∃ rest, x.deque = x.currentCmd :: rest

theorem waiting_push {x : Executer A api} (hf : Fronted x) (client : Option Addr) (origin : Option ConnId)
    (m : AnCmd A) :
    (x.pushBackCmdDeque client origin m).1.waiting = x.waiting ++ [⟨some x.brk, client, origin⟩] ∧
      Fronted (x.pushBackCmdDeque client origin m).1 := by
  constructor
  · unfold Executer.waiting
    show (if x.pc.executed then (x.deque ++ [_]).tail else x.deque ++ [_]) = _
    split
    · rename_i hpc
      obtain ⟨rest, hd⟩ := hf (by intro h; rw [h] at hpc; cases hpc) (by intro h; rw [h] at hpc; cases hpc)
      rw [hd]; rfl
    · rfl
  · intro h1 h2
    obtain ⟨rest, hd⟩ := hf h1 h2
    exact ⟨rest ++ [_], by show x.deque ++ [_] = _; rw [hd]; rfl⟩

theorem waiting_ran {x y : Executer A api} {now : AnSystemtime} {e : List (ExecEvent A)} (hf : Fronted x)
    (hr : Ran x now y e) : (∀ b ∈ y.waiting, b ∈ x.waiting) ∧ Fronted y := by
  cases hr with
  | empty => exact ⟨fun b hb => hb, hf⟩
  | sized hpc hd =>
    refine ⟨fun b hb => ?_, fun _ h => absurd rfl h⟩
    simpa [Executer.waiting, hpc, ExecPc.executed] using hb
  | fronted b rest hpc hd =>
    refine ⟨fun c hc => ?_, fun _ _ => ⟨rest, hd⟩⟩
    simpa [Executer.waiting, hpc, ExecPc.executed] using hc
  | preProcessed heap hpc hh =>
    refine ⟨fun b hb => ?_, fun _ _ => hf (by rw [hpc]; decide) (by rw [hpc]; decide)⟩
    simpa [Executer.waiting, hpc, ExecPc.executed] using hb
  | handled p m t c hpc hp hm ht hc =>
    refine ⟨fun b hb => ?_, fun _ _ => hf (by rw [hpc]; decide) (by rw [hpc]; decide)⟩
    have hb : b ∈ x.deque.tail := hb
    have hw : x.waiting = x.deque := by simp [Executer.waiting, hpc, ExecPc.executed]
    rw [hw]
    exact List.mem_of_mem_tail hb
  | paused p m hpc hp hm =>
    refine ⟨fun b hb => ?_, fun _ _ => hf (by rw [hpc]; decide) (by rw [hpc]; decide)⟩
    simpa [Executer.waiting, hpc, ExecPc.executed] using hb
  | destroyed heap hpc hh =>
    refine ⟨fun b hb => ?_, fun _ _ => hf (by rw [hpc]; decide) (by rw [hpc]; decide)⟩
    simpa [Executer.waiting, hpc, ExecPc.executed] using hb
  | popped b rest hpc hd =>
    refine ⟨fun c hc => ?_, fun h _ => absurd rfl h⟩
    simpa [Executer.waiting, hpc, ExecPc.executed, hd] using hc
  | failed f hs => exact ⟨fun b hb => hb, hf⟩

/-- A notice that a step of the executor's threads posts is a broadcast, or answers an entry that waited. -/
theorem stepped_notices {x y : Executer A api} {j : ExecInput A} {e : List (ExecEvent A)} (hf : Fronted x)
    (hs : Stepped x j y e) (hj : ∀ c o m, j ≠ .push c o m) :
    (∀ b ∈ y.waiting, b ∈ x.waiting) ∧ Fronted y ∧
      ∀ n ∈ noticesOf e, n.client = none ∨ ∃ b ∈ x.waiting, n.client = b.mClient ∧ n.origin = b.origin := by
  cases hs with
  | pushed client origin m => exact absurd rfl (hj client origin m)
  | quiet i itemPc => exact ⟨fun b hb => hb, hf, by simp [noticesOf]⟩
  | broadcast i itemPc r => exact ⟨fun b hb => hb, hf, by simp [noticesOf, Executer.eventNotice]⟩
  | ran now y e hr =>
    obtain ⟨hw, hy⟩ := waiting_ran hf hr
    refine ⟨hw, hy, fun n hn => ?_⟩
    cases hr with
    | handled p m t c hpc hp hm ht hc =>
      simp only [noticesOf, List.filterMap_cons, List.filterMap_nil, List.mem_singleton] at hn
      subst hn
      obtain ⟨rest, hd⟩ := hf (by rw [hpc]; decide) (by rw [hpc]; decide)
      have hmem : x.currentCmd ∈ x.waiting := by simp [Executer.waiting, hpc, ExecPc.executed, hd]
      exact .inr ⟨x.currentCmd, hmem, rfl, rfl⟩
    | _ => simp [noticesOf] at hn

/-! ## The connections -/

theorem mem_eraseClientVector {a b : Addr} (hne : a ≠ b) : ∀ {v : List (Option Addr)}, some a ∈ v →
    some a ∈ CanIPCServer.eraseClientVector b v
  | [], h => by cases h
  | it :: rest, h => by
    unfold CanIPCServer.eraseClientVector
    split
    · rename_i hit
      rcases List.mem_cons.1 h with h | h
      · rw [hit] at h; cases h; exact absurd rfl hne
      · exact List.mem_cons_of_mem _ h
    · rcases List.mem_cons.1 h with h | h
      · exact h ▸ List.mem_cons_self ..
      · exact List.mem_cons_of_mem _ (mem_eraseClientVector hne h)

/-- The pointer names the connection it was taken from. -/
def Names (mem : Addr → Option Pipe) (client : Option Addr) (origin : Option ConnId) : Prop :=
  ∃ a p, client = some a ∧ mem a = some p ∧ origin = some p.id

/-- A completion that is passed to `uv_is_closing` or `uv_write` goes to the connection its command was
read on, which has not been erased before. -/
def ToOrigin (before : List (Event A)) : Event A → Prop
  | .touched addr found n | .uvWrite addr found n => n.client = some addr →
      ∃ c, found = some c ∧ n.origin = some c ∧ .closed c ∉ before
  | .wrote c n => n.client ≠ none → n.origin = some c ∧ .closed c ∉ before
  | _ => True

/-- Every pointer waiting in the two queues names its connection; identities are new and used once. -/
structure Delivers (h : List (Event A)) (s : CanIPCServer A api) : Prop where
  history : EachAfter ToOrigin h
  front : Fronted s.exec
  commands : ∀ b ∈ s.exec.waiting, Names s.mem b.mClient b.origin
  notices : ∀ n ∈ s.asyncs, n.client = none ∨ Names s.mem n.client n.origin
  vector : ∀ a p, s.mem a = some p → some a ∈ s.clientVector
  open_ : ∀ a p, s.mem a = some p → p.id < s.nextId ∧ .closed p.id ∉ h
  distinct : ∀ a b p q, s.mem a = some p → s.mem b = some q → p.id = q.id → a = b
  closed : ∀ c, .closed c ∈ h → c < s.nextId

/-- The branch that goes wrong is not taken: no connection is erased while a command of it waits for
execution or a completion of it for delivery. -/
def NotEarlyErased (s : CanIPCServer A api) : Input → Prop
  | .closed addr => (∀ b ∈ s.exec.waiting, b.mClient ≠ some addr) ∧ ∀ n ∈ s.asyncs, n.client ≠ some addr
  | _ => True

instance (s : CanIPCServer A api) : (i : Input) → Decidable (NotEarlyErased s i)
  | .closed _ => by unfold NotEarlyErased; infer_instance
  | .newConnection .. | .read .. | .readError .. | .notify .. | .write .. | .run .. | .idle .. | .itemCheck ..
  | .loopExit => inferInstanceAs (Decidable True)

theorem Names.update {mem : Addr → Option Pipe} {client : Option Addr} {origin : Option ConnId}
    (hn : Names mem client origin) {addr : Addr} {v : Option Pipe}
    (hv : client ≠ some addr ∨ ∀ p, mem addr = some p → ∃ q, v = some q ∧ q.id = p.id) :
    Names (Function.update mem addr v) client origin := by
  obtain ⟨a, p, rfl, hp, ho⟩ := hn
  by_cases ha : a = addr
  · subst ha
    rcases hv with hv | hv
    · exact absurd rfl hv
    · obtain ⟨q, rfl, hq⟩ := hv p hp
      exact ⟨a, q, rfl, Function.update_self .., by rw [ho, hq]⟩
  · exact ⟨a, p, rfl, by rw [Function.update_of_ne ha]; exact hp, ho⟩

/-- A history goes on with events that concern no completion and close nothing. -/
def Silent : Event A → Prop
  | .touched _ _ n | .uvWrite _ _ n => n.client = none
  | .wrote _ n => n.client = none
  | .closed _ => False
  | _ => True

theorem silent_ofSending {n : Notice} (hn : n.client = none) {x : Event A} (hx : OfSending n x) : Silent x := by
  cases x with
  | touched a f m | uvWrite a f m => have : m = n := hx; rw [this]; exact hn
  | wrote c m => have : m = n := hx; rw [this]; exact hn
  | cloned _ | released _ | fault _ _ => trivial
  | _ => exact False.elim hx

theorem history_silent {h e : List (Event A)} (hh : EachAfter ToOrigin h) (he : ∀ x ∈ e, Silent x) :
    EachAfter ToOrigin (h ++ e) := by
  refine hh.append fun pre x post heq => ?_
  have hx := he x (by rw [heq]; simp)
  cases x with
  | touched addr found n | uvWrite addr found n => intro hc; rw [show n.client = none from hx] at hc; cases hc
  | wrote c n => intro hc; exact absurd hx hc
  | _ => trivial

theorem closed_silent {h e : List (Event A)} (he : ∀ x ∈ e, Silent x) {c : ConnId} :
    .closed c ∈ h ++ e ↔ .closed c ∈ h := by
  refine ⟨fun hm => ?_, fun hm => List.mem_append_left _ hm⟩
  rcases List.mem_append.1 hm with hm | hm
  · exact hm
  · exact absurd (he _ hm) id

/-- A step that keeps the connections and adds nothing to the queues but what names its connection. -/
theorem Delivers.frame {h : List (Event A)} {s t : CanIPCServer A api} {e : List (Event A)} (hs : Delivers h s)
    (he : ∀ x ∈ e, Silent x) (hmem : t.mem = s.mem) (hid : t.nextId = s.nextId) (hv : t.clientVector = s.clientVector)
    (hf : Fronted t.exec) (hw : ∀ b ∈ t.exec.waiting, Names s.mem b.mClient b.origin)
    (hn : ∀ n ∈ t.asyncs, n.client = none ∨ Names s.mem n.client n.origin) : Delivers (h ++ e) t where
  history := history_silent hs.history he
  front := hf
  commands := by rw [hmem]; exact hw
  notices := by rw [hmem]; exact hn
  vector := by rw [hmem, hv]; exact hs.vector
  open_ := by
    rw [hmem, hid]
    intro a p hp
    rw [closed_silent he]
    exact hs.open_ a p hp
  distinct := by rw [hmem]; exact hs.distinct
  closed := by
    rw [hid]
    intro c hc
    exact hs.closed c ((closed_silent he).1 hc)

theorem delivers_notified {h : List (Event A)} {s t : CanIPCServer A api} (hs : Delivers h s) {k : Nat} {n : Notice}
    {a : Addr} {e : List (Event A)} {r : Int} (hk : s.asyncs[k]? = some n) (hn : n.client = some a)
    (hsent : Sent { s with asyncs := s.asyncs.eraseIdx k } a n t e r) :
    Delivers (h ++ (.notified n :: e ++ if r ≠ 0 then [.released n] else [])) t := by
  rcases hs.notices n (List.mem_of_getElem? hk) with hnone | ⟨a', p, ha', hp, ho⟩
  · rw [hn] at hnone; cases hnone
  rw [hn] at ha'
  cases ha'
  have hopen := (hs.open_ a p hp).2
  -- the events of sending: the completion finds its own connection
  have hevents : ∀ x ∈ (.notified n :: e ++ if r ≠ 0 then [.released n] else [] : List (Event A)),
      (∀ before, .closed p.id ∉ before → ToOrigin before x) ∧ ∀ c, x ≠ .closed c := by
    intro x hx
    replace hx := mem_around hx
    rcases hx with rfl | hx | rfl
    · exact ⟨fun _ _ => trivial, fun c hc => by cases hc⟩
    · have hmem : { s with asyncs := s.asyncs.eraseIdx k }.mem a = some p := hp
      cases hsent with
      | stale hm | crashed hm => rw [hmem] at hm; cases hm
      | closing q hm hc =>
        rw [hmem] at hm
        cases hm
        rw [List.mem_singleton.1 hx]
        exact ⟨fun before hb _ => ⟨p.id, rfl, ho, hb⟩, fun c hc => by cases hc⟩
      | refused q r hm hc hr =>
        rw [hmem] at hm
        cases hm
        simp only [List.mem_cons, List.not_mem_nil, or_false] at hx
        rcases hx with rfl | rfl
        · exact ⟨fun before hb _ => ⟨p.id, rfl, ho, hb⟩, fun c hc => by cases hc⟩
        · exact ⟨fun before hb _ => ⟨p.id, rfl, ho, hb⟩, fun c hc => by cases hc⟩
      | written q hm hc =>
        rw [hmem] at hm
        cases hm
        simp only [List.mem_cons, List.not_mem_nil, or_false] at hx
        rcases hx with rfl | rfl | rfl
        · exact ⟨fun before hb _ => ⟨p.id, rfl, ho, hb⟩, fun c hc => by cases hc⟩
        · exact ⟨fun before hb _ => ⟨p.id, rfl, ho, hb⟩, fun c hc => by cases hc⟩
        · exact ⟨fun before hb _ => ⟨ho, hb⟩, fun c hc => by cases hc⟩
    · exact ⟨fun _ _ => trivial, fun c hc => by cases hc⟩
  have hclosed : ∀ {pre post : List (Event A)} {c : ConnId},
      (.notified n :: e ++ if r ≠ 0 then [.released n] else [] : List (Event A)) = pre ++ post →
      .closed c ∈ h ++ pre → .closed c ∈ h := by
    intro pre post c heq hm
    rcases List.mem_append.1 hm with hm | hm
    · exact hm
    · exact absurd rfl ((hevents (.closed c) (by rw [heq]; exact List.mem_append_left _ hm)).2 c)
  obtain ⟨⟨ws, f, rfl, -⟩, -⟩ := sent_frame hsent
  refine ⟨hs.history.append fun pre x post heq => ?_, hs.front, hs.commands,
    fun m hm => hs.notices m (List.mem_of_mem_eraseIdx hm), hs.vector, fun b q hq => ⟨(hs.open_ b q hq).1, ?_⟩,
    hs.distinct, fun c hc => hs.closed c (hclosed (List.append_nil _).symm hc)⟩
  · refine (hevents x (by rw [heq]; simp)).1 _ fun hm => ?_
    exact hopen (hclosed heq hm)
  · intro hc
    exact (hs.open_ b q hq).2 (hclosed (List.append_nil _).symm hc)

/-- What the memory holds after an update is new at the address, and elsewhere as before. -/
theorem update_some {mem : Addr → Option Pipe} {addr a : Addr} {v : Option Pipe} {p : Pipe}
    (h : Function.update mem addr v a = some p) : (a = addr ∧ v = some p) ∨ a ≠ addr ∧ mem a = some p := by
  by_cases ha : a = addr
  · subst ha
    rw [Function.update_self] at h
    exact .inl ⟨rfl, h⟩
  · rw [Function.update_of_ne ha] at h
    exact .inr ⟨ha, h⟩

/-- No two addresses hold a connection of the same identity. -/
def Distinct (mem : Addr → Option Pipe) : Prop := ∀ a b p q, mem a = some p → mem b = some q → p.id = q.id → a = b

/-- An address may be given what has the identity of no connection elsewhere. -/
theorem Distinct.update {mem : Addr → Option Pipe} (hd : Distinct mem) {addr : Addr} {v : Option Pipe}
    (hv : ∀ p, v = some p → ∀ b q, b ≠ addr → mem b = some q → p.id ≠ q.id) :
    Distinct (Function.update mem addr v) := by
  intro a b p q hp hq hid
  rcases update_some hp with ⟨rfl, hpv⟩ | ⟨ha, hp'⟩ <;> rcases update_some hq with ⟨rfl, hqv⟩ | ⟨hb, hq'⟩
  · rfl
  · exact absurd hid (hv p hpv b q hb hq')
  · exact absurd hid.symm (hv q hqv a p ha hp')
  · exact hd a b p q hp' hq' hid

/-- A connection that starts to close is the same at the same address. -/
theorem closing_iff {mem : Addr → Option Pipe} {addr : Addr} {p : Pipe} (hm : mem addr = some p) (a : Addr)
    (c : ConnId) : (∃ q, Function.update mem addr (some { p with closing := true }) a = some q ∧ q.id = c) ↔
      ∃ q, mem a = some q ∧ q.id = c := by
  by_cases ha : a = addr
  · subst ha
    simp [hm]
  · simp [ha]

section Connections

variable {h : List (Event A)} {s : CanIPCServer A api} {addr : Addr}

/-- A connection is accepted at an address that nothing was at. -/
theorem Delivers.accepted (hs : Delivers h s) (hm : s.mem addr = none) :
    Delivers (h ++ [.accepted s.nextId])
      { s with
        mem := Function.update s.mem addr (some ⟨s.nextId, false⟩)
        nextId := s.nextId + 1
        clientVector := s.clientVector ++ [some addr] } := by
  -- no pointer in the queues was to the new address
  have hfresh : ∀ {c o}, Names s.mem c o → Names (Function.update s.mem addr (some ⟨s.nextId, false⟩)) c o := by
    intro c o hn
    apply hn.update
    left
    obtain ⟨a, p, rfl, hp, -⟩ := hn
    rintro ⟨⟩
    rw [hm] at hp; cases hp
  have he : ∀ x ∈ ([.accepted s.nextId] : List (Event A)), Silent x := by simp [Silent]
  -- the new identity is larger than those of all connections that there are, or were
  have hnew : ∀ a p, s.mem a = some p → p.id ≠ s.nextId := fun a p hp => (hs.open_ a p hp).1.ne
  refine ⟨history_silent hs.history he, hs.front, fun b hb => hfresh (hs.commands b hb),
    fun n hn => (hs.notices n hn).imp_right hfresh, fun a p hp => ?_, fun a p hp => ?_, ?_,
    fun c hc => Nat.lt_succ_of_lt (hs.closed c ((closed_silent he).1 hc))⟩
  · rcases update_some hp with ⟨rfl, -⟩ | ⟨-, hp⟩
    · exact List.mem_append_right _ (List.mem_singleton.2 rfl)
    · exact List.mem_append_left _ (hs.vector a p hp)
  · rw [closed_silent he]
    rcases update_some hp with ⟨-, hp⟩ | ⟨-, hp⟩
    · cases hp
      exact ⟨Nat.lt_succ_self _, fun hc => lt_irrefl _ (hs.closed _ hc)⟩
    · exact ⟨Nat.lt_succ_of_lt (hs.open_ a p hp).1, (hs.open_ a p hp).2⟩
  · apply Distinct.update hs.distinct
    rintro p hp b q - hq
    cases hp
    exact (hnew b q hq).symm

/-- A connection starts to close: it is still the same. -/
theorem Delivers.closing (hs : Delivers h s) {p : Pipe} (hm : s.mem addr = some p) :
    Delivers (h ++ [.freed p.id]) { s with mem := Function.update s.mem addr (some { p with closing := true }) } := by
  have hsame : ∀ {c o}, Names s.mem c o → Names (Function.update s.mem addr (some { p with closing := true })) c o := by
    intro c o hn
    apply hn.update
    right
    intro q hq
    rw [hm] at hq
    cases hq
    exact ⟨_, rfl, rfl⟩
  have hlookup : ∀ a q, Function.update s.mem addr (some { p with closing := true }) a = some q →
      ∃ q', s.mem a = some q' ∧ q'.id = q.id := fun a q hq => (closing_iff hm a q.id).1 ⟨q, hq, rfl⟩
  have he : ∀ x ∈ ([.freed p.id] : List (Event A)), Silent x := by simp [Silent]
  refine ⟨history_silent hs.history he, hs.front, fun b hb => hsame (hs.commands b hb),
    fun n hn => (hs.notices n hn).imp_right hsame, fun a q hq => ?_, fun a q hq => ?_, ?_,
    fun c hc => hs.closed c ((closed_silent he).1 hc)⟩
  · obtain ⟨q', hq', -⟩ := hlookup a q hq
    exact hs.vector a q' hq'
  · obtain ⟨q', hq', hid⟩ := hlookup a q hq
    rw [← hid, closed_silent he]
    exact hs.open_ a q' hq'
  · apply Distinct.update hs.distinct
    rintro q hq b r hb hr hid
    cases hq
    exact hb (hs.distinct b addr r p hr hm hid.symm)

/-- A connection is erased that nothing in the two queues points to. -/
theorem Delivers.erased (hs : Delivers h s) {p : Pipe} (hm : s.mem addr = some p)
    (hcmds : ∀ b ∈ s.exec.waiting, b.mClient ≠ some addr) (hnotes : ∀ n ∈ s.asyncs, n.client ≠ some addr) :
    Delivers (h ++ [.closed p.id])
      { s with
        clientVector := CanIPCServer.eraseClientVector addr s.clientVector
        mem := Function.update s.mem addr none } := by
  have hlookup : ∀ a q, Function.update s.mem addr none a = some q → a ≠ addr ∧ s.mem a = some q := by
    intro a q hq
    rcases update_some hq with ⟨-, hq⟩ | hq
    · cases hq
    · exact hq
  have hclosed : ∀ c, .closed c ∈ h ++ [.closed p.id] → .closed c ∈ h ∨ c = p.id := by
    intro c hc
    rcases List.mem_append.1 hc with hc | hc
    · exact .inl hc
    · cases List.mem_singleton.1 hc; exact .inr rfl
  refine ⟨hs.history.append fun pre x post heq => ?_, hs.front,
    fun b hb => (hs.commands b hb).update (.inl (hcmds b hb)),
    fun n hn => (hs.notices n hn).imp_right fun hnames => hnames.update (.inl (hnotes n hn)), fun a q hq => ?_,
    fun a q hq => ?_, Distinct.update hs.distinct (by simp), fun c hc => ?_⟩
  · have hx : x = .closed p.id := by
      have : x ∈ [Event.closed p.id] := by rw [heq]; simp
      exact List.mem_singleton.1 this
    rw [hx]; trivial
  · obtain ⟨ha, hq⟩ := hlookup a q hq
    exact mem_eraseClientVector ha (hs.vector a q hq)
  · -- no other connection has the identity of the erased one
    obtain ⟨ha, hq⟩ := hlookup a q hq
    refine ⟨(hs.open_ a q hq).1, fun hc => ?_⟩
    rcases hclosed _ hc with hc | hid
    · exact (hs.open_ a q hq).2 hc
    · exact ha (hs.distinct a addr q p hq hm hid)
  · rcases hclosed c hc with hc | rfl
    · exact hs.closed c hc
    · exact (hs.open_ addr p hm).1

end Connections

theorem delivers_step {h : List (Event A)} {s t : CanIPCServer A api} {i : Input} {e : List (Event A)}
    (hs : Delivers h s) (hg : NotEarlyErased s i) (hstep : (serverMachine A api).step s i = some (t, e)) :
    Delivers (h ++ e) t := by
  obtain ⟨-, -, ha⟩ := server_acted hstep
  cases ha with
  | listenFailed | acceptFailed | readFaulty | loopExit =>
    exact hs.frame (by simp [Silent]) rfl rfl rfl hs.front hs.commands hs.notices
  | accepted status addr accept hm => exact hs.accepted hm
  | readFailed addr p hm => exact hs.closing hm
  | closed addr p hm hc hw hv => exact hs.erased hm hg.1 hg.2
  | closedUnknown addr p hm hv => exact absurd (hs.vector addr p hm) hv
  | readInfo addr p chunk now m rest n hm hc hr hget hn =>
    refine hs.frame (by simp [Silent]) rfl rfl rfl hs.front hs.commands fun k hk => ?_
    rcases List.mem_append.1 hk with hk | hk
    · exact hs.notices k hk
    · obtain ⟨hclient, horigin, -⟩ := spiGetinfo_ok hn
      rw [List.mem_singleton.1 hk]
      exact .inr ⟨addr, p, hclient, hm, horigin⟩
  | readCommand addr p chunk now m rest hm hc hr hget =>
    obtain ⟨hwait, hfront⟩ := waiting_push hs.front (some addr) (some p.id) m
    refine hs.frame (by simp [Silent, Executer.pushBackCmdDeque]) rfl rfl rfl hfront (fun b hb => ?_) hs.notices
    rw [hwait] at hb
    rcases List.mem_append.1 hb with hb | hb
    · exact hs.commands b hb
    · rw [List.mem_singleton.1 hb]
      exact ⟨addr, p, rfl, hm, rfl⟩
  | notifiedAll k n uvWrite garbage ws f e hk hn hws he =>
    refine hs.frame (fun x hx => ?_) rfl rfl rfl hs.front hs.commands
      fun m hm => hs.notices m (List.mem_of_mem_eraseIdx hm)
    rcases List.mem_cons.1 hx with rfl | hx
    · trivial
    · exact silent_ofSending rfl (he x hx)
  | notified k n uvWrite garbage a t e r hk hn hsent hwritten => exact delivers_notified hs hk hn hsent
  | writeFailed | written | strayWrite | exits | exitsAgain =>
    exact hs.frame (by simp [Silent]) rfl rfl rfl hs.front hs.commands hs.notices
  | exec i j x ex hj hst =>
    obtain ⟨hwait, hfront, hnotes⟩ := stepped_notices hs.front hst (by
      rintro c o m rfl
      cases i <;> cases hj)
    refine hs.frame (fun y hy => ?_) rfl rfl rfl hfront (fun b hb => hs.commands b (hwait b hb)) fun n hn => ?_
    · obtain ⟨z, -, rfl⟩ := List.mem_map.1 hy
      trivial
    · rcases List.mem_append.1 hn with hn | hn
      · exact hs.notices n hn
      · rcases hnotes n hn with hn | ⟨b, hb, hc, ho⟩
        · exact .inl hn
        · rw [hc, ho]
          exact .inr (hs.commands b hb)

/-- In every run of the server in which no connection is erased while a command of it waits for execution
or a completion of it for delivery: every completion passed to `uv_is_closing` or `uv_write` goes to the
very connection its command was read on, which has not been erased before. -/
theorem completion_reaches_origin {caps : Held A (AnXfsCaps.codec A api)} {status : Held A (AnXfsStatus.codec A api)}
    {is : List Input} {s : CanIPCServer A api} {es : List (Event A)}
    (hg : (serverMachine A api).Meets NotEarlyErased (CanIPCServer.new (CanXfs.new caps status)) is)
    (hr : (serverMachine A api).run (CanIPCServer.new (CanXfs.new caps status)) is = some (s, es)) :
    EachAfter ToOrigin es := by
  have hinit : Delivers [] (CanIPCServer.new (CanXfs.new caps status)) := by
    refine ⟨EachAfter.nil _, fun h => absurd rfl h, fun b hb => ?_, fun n hn => ?_, fun a p hp => ?_, fun a p hp => ?_,
      fun a b p q hp => ?_, fun c hc => ?_⟩
    · cases hb
    · cases hn
    · cases hp
    · cases hp
    · cases hp
    · cases hc
  exact (Machine.run_invariant (I := Delivers)
    (fun h s i t e hi hg hs => delivers_step hi hg hs) is [] _ s es hinit hg hr).history

theorem openThenClose_reaches_origin : ∃ s es,
    (serverMachine .x86 .documented).run (.new .blank) openThenClose = some (s, es) ∧
      (∃ n, .wrote 0 n ∈ es) ∧ EachAfter ToOrigin es := by
  obtain ⟨s, es, hr, he⟩ : ∃ s es, (serverMachine .x86 .documented).run (.new .blank) openThenClose = some (s, es) ∧
      ∃ x ∈ es, ∃ n ∈ (match x with | .wrote 0 n => some n | _ => none), x = .wrote 0 n :=
    Machine.run_any (by decide +kernel)
  obtain ⟨x, hx, n, -, rfl⟩ := he
  exact ⟨s, es, hr, ⟨n, hx⟩, completion_reaches_origin (by decide +kernel) hr⟩

/-- A client leaves with an Open queued, and a second one is accepted at the address of the first before
the Open is executed. -/
def reusedAddress : List Input :=
  [.newConnection 0 0 0, .read 0 (openCmd 1 1).put midnight, .readError 0, .closed 0, .newConnection 0 0 0] ++
    runOnce ++ [notifyFirst]

theorem completion_to_another_client : ¬ ∀ s es,
    (serverMachine .x86 .documented).run (.new .blank) reusedAddress = some (s, es) → EachAfter ToOrigin es := by
  intro h
  obtain ⟨s, es, hr, he⟩ : ∃ s es, (serverMachine .x86 .documented).run (.new .blank) reusedAddress = some (s, es) ∧
      ∃ x ∈ es, ∃ n ∈ (match x with | .wrote 1 n => some n | _ => none),
        x = .wrote 1 n ∧ n.client ≠ none ∧ n.origin ≠ some 1 := Machine.run_any (by decide +kernel)
  obtain ⟨x, hx, n, -, rfl, hc, ho⟩ := he
  obtain ⟨pre, post, heq⟩ := List.append_of_mem hx
  exact ho ((h s es hr) pre _ post heq hc).1

end AnXfs.Server
