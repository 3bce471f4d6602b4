/-
What `on_read` makes of an arbitrary chunk. The three tables that a type selects from differ in what
they hold: the names have an entry too many, two of the builders have no commander, and no bound is
checked. `WellFormed` is what a chunk must be to be handled as it should; every other chunk escapes as
an exception, reads past a table, or leaves a command behind that the executor cannot execute.
-/
import AnXfs.Server.Order
import AnXfs.Server.Streams
import AnXfs.Pack.Layout

namespace AnXfs.Server

open AnXfs.Wire AnXfs.Pack AnXfs.Run

variable {A : Arch} {api : XfsApi}

/-! ## Handling a chunk -/

/-- The slots that the type of a command selects are in range and filled, and what is found there
executes the command, whatever state the proxy is in by then. -/
structure Served (api : XfsApi) (m : AnCmd A) : Prop where
  name : ∃ name, eAnWfpTypeName[m.eType.toNat]? = some name
  builder : ∃ build, (gCmdBuilder A)[m.eType.toNat]? = some build
  commander : m.eType = AnWfpType.wfpGetInfo.code ∨ ∃ t c, commanderAt m.eType = .ok (t, c)
  executes : ∀ (x : CanXfs A api) (client : Option Addr) (origin : Option ConnId) (now : AnSystemtime),
    if m.eType = AnWfpType.wfpGetInfo.code then ∃ n, spiGetinfo x m client origin now = .ok n
    else ∃ y n, cmdHandler x m client origin now = .ok (y, n)

/-- A step that reads a chunk returns, frees the buffer once, and either dispatches one command that will
be served or leaves the deque and the clients alone. -/
structure Handled (s t : CanIPCServer A api) (e : List (Event A)) : Prop where
  returns : t.fault = none ∧ ∀ c f, Event.fault c f ∉ e
  releases : (freedOf e).length = 1
  outcome : (∃ c m, dispatchedOf e = [(c, m)] ∧ Served api m) ∨
    dispatchedOf e = [] ∧ t.exec.deque = s.exec.deque ∧ t.clientVector = s.clientVector

/-- The chunk has one of the ten types of the SPI, and holds all fields of that type's class. -/
def WellFormed (A : Arch) (chunk : List UInt8) : Prop :=
  ∃ t ∈ AnWfpType.all, t ≠ .wfpUnknow ∧ t ≠ .wfpUnloadService ∧ typeField A chunk = t.code.toNat ∧
    (skip (t.layout A) chunk).isSome

instance (chunk : List UInt8) : Decidable (WellFormed A chunk) := by unfold WellFormed; infer_instance

theorem mem_all (t : AnWfpType) : t ∈ AnWfpType.all := by
  cases t <;> decide

/-- A type without a commander is GetInfo or one that the SPI never sends. -/
theorem commander_isSome (t : AnWfpType) :
    (∃ c, commander t = some c) ↔ t ≠ .wfpUnknow ∧ t ≠ .wfpUnloadService ∧ t ≠ .wfpGetInfo := by
  cases t <;> simp [commander]

/-- A command that was decoded is served if its type is one of the SPI. -/
theorem served_iff {m : AnCmd A} {t : AnWfpType} (hb : m.Built) (ht : m.eType = t.code) :
    Served api m ↔ t ≠ .wfpUnknow ∧ t ≠ .wfpUnloadService := by
  constructor
  · intro hs
    by_cases hg : t = .wfpGetInfo
    · subst hg
      exact ⟨by decide, by decide⟩
    rcases hs.commander with hinfo | ⟨u, c, hc⟩
    · exact absurd (AnWfpType.code_injective (ht.symm.trans hinfo)) hg
    · obtain ⟨hu, hcu⟩ := commanderAt_ok hc
      have htu : t = u := AnWfpType.code_injective (ht.symm.trans hu)
      subst htu
      obtain ⟨h1, h2, -⟩ := (commander_isSome t).1 ⟨c, hcu⟩
      exact ⟨h1, h2⟩
  · rintro ⟨h1, h2⟩
    obtain ⟨name, hn⟩ := eAnWfpTypeName_code t
    obtain ⟨build, hbuild, -⟩ := gCmdBuilder_spec (A := A) t
    rw [← ht] at hn hbuild
    by_cases hg : t = .wfpGetInfo
    · subst hg
      refine ⟨⟨name, hn⟩, ⟨build, hbuild⟩, .inl ht, fun x client origin now => ?_⟩
      rw [if_pos ht]
      exact spiGetinfo_built hb ht client origin now
    · obtain ⟨c, hc⟩ := (commander_isSome t).2 ⟨h1, h2, hg⟩
      refine ⟨⟨name, hn⟩, ⟨build, hbuild⟩, .inr ⟨t, c, ?_⟩, fun x client origin now => ?_⟩
      · rw [ht]; exact commanderAt_code hc
      · rw [if_neg (fun h => hg (AnWfpType.code_injective (ht.symm.trans h)))]
        exact ⟨_, _, cmdHandler_built hb ht hc client origin now⟩

/-- A decoded command is served exactly if the chunk was well formed. -/
theorem served_iff_wellFormed {chunk : List UInt8} {m : AnCmd A} {rest : List UInt8}
    (hr : readCmd chunk = .ok (m, rest)) : Served api m ↔ WellFormed A chunk := by
  obtain ⟨hb, -⟩ := readCmd_ok hr
  obtain ⟨t, ht, -⟩ := hb.class
  rw [served_iff hb ht]
  constructor
  · rintro ⟨h1, h2⟩
    obtain ⟨htype, hskip⟩ := (readCmd_ok_iff t chunk).1 ⟨m, rest, hr, ht⟩
    exact ⟨t, mem_all t, h1, h2, htype, hskip⟩
  · rintro ⟨u, -, h1, h2, htype, hskip⟩
    obtain ⟨m', rest', hr', hu⟩ := (readCmd_ok_iff (A := A) u chunk).2 ⟨htype, hskip⟩
    rw [hr] at hr'
    cases hr'
    have htu : t = u := AnWfpType.code_injective (ht.symm.trans hu)
    subst htu
    exact ⟨h1, h2⟩

theorem wellFormed_decodes {chunk : List UInt8} (h : WellFormed A chunk) :
    ∃ (m : AnCmd A) (rest : List UInt8), readCmd chunk = .ok (m, rest) := by
  obtain ⟨t, -, -, -, htype, hskip⟩ := h
  obtain ⟨m, rest, hr, -⟩ := (readCmd_ok_iff (A := A) t chunk).2 ⟨htype, hskip⟩
  exact ⟨m, rest, hr⟩

/-- A step that has dispatched one decoded command has handled the chunk if it was well formed. -/
theorem handled_iff_wellFormed {s t : CanIPCServer A api} {e : List (Event A)} {chunk : List UInt8} {c : ConnId}
    {m : AnCmd A} {rest : List UInt8} (hr : readCmd chunk = .ok (m, rest)) (hd : dispatchedOf e = [(c, m)])
    (hreturns : t.fault = none ∧ ∀ c f, Event.fault c f ∉ e) (hfreed : (freedOf e).length = 1) :
    Handled s t e ↔ WellFormed A chunk := by
  rw [← (served_iff_wellFormed hr : Served api m ↔ WellFormed A chunk)]
  constructor
  · intro hh
    rcases hh.outcome with ⟨c', m', hd', hs⟩ | ⟨hd', -⟩
    · rw [hd] at hd'
      cases hd'
      exact hs
    · rw [hd] at hd'
      cases hd'
  · intro hs
    exact ⟨hreturns, hfreed, .inl ⟨c, m, hd, hs⟩⟩

/-- In whatever state the server is, the chunks it handles as it should are those that are well formed. -/
theorem read_handled_iff {s t : CanIPCServer A api} {addr : Addr} {chunk : List UInt8} {now : AnSystemtime}
    {e : List (Event A)} (h : (serverMachine A api).step s (.read addr chunk now) = some (t, e)) :
    Handled s t e ↔ WellFormed A chunk := by
  obtain ⟨hfault, -, ha⟩ := server_acted h
  -- where the chunk decodes, all turns on what becomes of the command
  cases ha with
  | readFaulty addr p chunk now f hm hc hr =>
    constructor
    · intro hh
      exact absurd (by simp) (hh.returns.2 (some p.id) f)
    · intro hw
      obtain ⟨m, rest, hr'⟩ := wellFormed_decodes hw
      rw [hr] at hr'
      cases hr'
  | readInfo addr p chunk now m rest n hm hc hr hg hn =>
    exact handled_iff_wellFormed hr (c := p.id) rfl ⟨hfault, by simp⟩ rfl
  | readCommand addr p chunk now m rest hm hc hr hg =>
    exact handled_iff_wellFormed hr (c := p.id) rfl ⟨hfault, by simp [Executer.pushBackCmdDeque]⟩ rfl
  | exec i j x ex hj hs => cases hj

/-- The server after its first client connected. -/
def oneClient : CanIPCServer .x86 .documented := ((CanIPCServer.new .blank).onNewConnection 0 0 0).1

theorem openCmd_handled : ∃ t e,
    (serverMachine .x86 .documented).step oneClient (.read 0 (openCmd 1 1).put midnight) = some (t, e) ∧
      Handled oneClient t e := by
  have hsome : ((serverMachine .x86 .documented).step oneClient (.read 0 (openCmd 1 1).put midnight)).isSome := by
    decide +kernel
  obtain ⟨⟨t, e⟩, h⟩ := Option.isSome_iff_exists.1 hsome
  exact ⟨t, e, h, (read_handled_iff h).2 (by decide +kernel)⟩

/-- A bare header whose type is `UNKNOW`. -/
def unknownHeader : List UInt8 := List.replicate 26 0

/-- A bare header of type `UNKNOW` is dispatched, and finds no commander. -/
theorem unknownHeader_not_handled : ¬ ∀ t e,
    (serverMachine .x86 .documented).step oneClient (.read 0 unknownHeader midnight) = some (t, e) →
      Handled oneClient t e := by
  intro hall
  obtain ⟨⟨t, e⟩, h, hx⟩ := (Option.any_eq_true
    (fun p : CanIPCServer .x86 .documented × List (Event .x86) =>
      decide (∃ x ∈ dispatchedOf p.2, x.2.eType = AnWfpType.wfpUnknow.code))
    ((serverMachine .x86 .documented).step oneClient (.read 0 unknownHeader midnight))).1 (by decide +kernel)
  obtain ⟨x, hx, htype⟩ := of_decide_eq_true hx
  rcases (hall t e h).outcome with ⟨c, m, hd, hs⟩ | ⟨hd, -⟩
  · rw [hd] at hx
    cases List.mem_singleton.1 hx
    have htype : m.eType = AnWfpType.wfpUnknow.code := htype
    rcases hs.commander with hinfo | ⟨u, k, hk⟩
    · rw [htype] at hinfo
      exact absurd hinfo (by decide)
    · rw [htype] at hk
      cases hk
  · rw [hd] at hx
    cases hx

/-! ## The executor's part of a history -/

/-- The events of the executor. -/
def execOf (h : List (Event A)) : List (ExecEvent A) :=
  h.filterMap fun
    | .exec e => some e
    | _ => none

@[simp] theorem execOf_append (g h : List (Event A)) : execOf (g ++ h) = execOf g ++ execOf h :=
  List.filterMap_append ..

theorem execOf_map (e : List (ExecEvent A)) : execOf (e.map .exec) = e := by
  induction e with
  | nil => rfl
  | cons x e ih => exact congrArg (x :: ·) ih

theorem execOf_ofSending {n : Notice} {e : List (Event A)} (h : ∀ x ∈ e, OfSending n x) : execOf e = [] := by
  apply List.filterMap_eq_nil_iff.2
  intro x hx
  have := h x hx
  cases x <;> first | rfl | exact this.elim

end AnXfs.Server
