/-
The special member functions of `an_buf` (`build_cmd.h`), by which a command and the connection it came
from travel together: from the loop thread into the deque, and from there to the executor. The move
assignment clears `m_client` of the object assigned to, where it means the one moved from, as the move
constructor does. `transit_iff` says which sequences of copies and moves keep every command with its client.
-/
import AnXfs.Server.Queue

namespace AnXfs.Server

open AnXfs.Run

/-! ## Copies and moves -/

namespace AnBuf

/-- `an_buf(client, cmd)`. -/
def build (client : Option Addr) (origin : Option ConnId) (cmd : Option Ptr) : AnBuf := ⟨cmd, client, origin⟩

/-- `an_buf(const an_buf&)`. -/
def copyConstruct (a : AnBuf) : AnBuf := ⟨a.mCmd, a.mClient, a.origin⟩

/-- `operator=(const an_buf&)`, from another object. -/
def copyAssign (this a : AnBuf) : AnBuf := { this with mCmd := a.mCmd, mClient := a.mClient, origin := a.origin }

/-- `an_buf(an_buf&&)`: the new object, and what it leaves of the other. -/
def moveConstruct (a : AnBuf) : AnBuf × AnBuf :=
  (⟨a.mCmd, a.mClient, a.origin⟩, { a with mCmd := none, mClient := none, origin := none })

/-- `operator=(an_buf&&)`, from another object: the object assigned to, and what it leaves of the other. -/
def moveAssign (this a : AnBuf) : AnBuf × AnBuf :=
  let this := { this with mCmd := a.mCmd, mClient := a.mClient, origin := a.origin }
  let a := { a with mCmd := none }
  -- `m_client` is the member of `this`
  ({ this with mClient := none, origin := none }, a)

end AnBuf

/-- One copy or move between objects, which are named by the order of their construction. -/
inductive Transfer where
  | copyConstruct (src : Nat)
  | copyAssign (dst src : Nat)
  | moveConstruct (src : Nat)
  | moveAssign (dst src : Nat)
  deriving DecidableEq

/-- The objects after a copy or move; none without the objects it names. -/
def transfer (s : List AnBuf) : Transfer → Option (List AnBuf)
  | .copyConstruct src => (s[src]?).map fun a => s ++ [a.copyConstruct]
  | .copyAssign dst src =>
    (s[dst]?).bind fun this => (s[src]?).map fun a => if dst = src then s else s.set dst (this.copyAssign a)
  | .moveConstruct src => (s[src]?).map fun a => s.set src a.moveConstruct.2 ++ [a.moveConstruct.1]
  | .moveAssign dst src =>
    (s[dst]?).bind fun this => (s[src]?).map fun a =>
      if dst = src then s else (s.set dst (this.moveAssign a).1).set src (this.moveAssign a).2

def transferMachine : Machine (List AnBuf) Transfer Empty where
  step s i := (transfer s i).map fun t => (t, [])

/-- The source and the destination of a move from one object to another. -/
def Transfer.moved (s : List AnBuf) : Transfer → Option (Nat × Nat)
  | .moveConstruct src => some (src, s.length)
  | .moveAssign dst src => if dst = src then none else some (src, dst)
  | .copyConstruct _ | .copyAssign .. => none

/-! ## Commands and their clients -/

/-- Each object that holds a command holds the client that the command was built with. -/
def Carries (built : Ptr → Option Addr) (s : List AnBuf) : Prop := ∀ b ∈ s, ∀ c ∈ b.mCmd, b.mClient = built c

/-- No command is left both where a move took it from and where it took it to. -/
def MovedOut (s : List AnBuf) (i : Transfer) (t : List AnBuf) : Prop :=
  ∀ p ∈ i.moved s, ∀ a ∈ t[p.1]?, ∀ b ∈ t[p.2]?, ∀ c ∈ a.mCmd, c ∉ b.mCmd

/-- A move assignment between two objects takes no command with a client. -/
def KeepsClient (s : List AnBuf) : Transfer → Prop
  | .moveAssign dst src => dst ≠ src → ∀ a ∈ s[src]?, a.mCmd ≠ none → a.mClient = none
  | _ => True

instance (built : Ptr → Option Addr) (s : List AnBuf) : Decidable (Carries built s) := by
  unfold Carries; infer_instance

instance (s : List AnBuf) : DecidablePred (KeepsClient s) := by
  intro i
  cases i <;> unfold KeepsClient <;> infer_instance

/-- What is done to the objects of a list one by one is done to its commands and clients. -/
theorem carries_append {built : Ptr → Option Addr} {s t : List AnBuf} :
    Carries built (s ++ t) ↔ Carries built s ∧ Carries built t := List.forall_mem_append

theorem carries_singleton {built : Ptr → Option Addr} {b : AnBuf} :
    Carries built [b] ↔ ∀ c ∈ b.mCmd, b.mClient = built c := List.forall_mem_singleton

theorem Carries.set {built : Ptr → Option Addr} {s : List AnBuf} (hs : Carries built s) {k : Nat} {b : AnBuf}
    (hb : ∀ c ∈ b.mCmd, b.mClient = built c) : Carries built (s.set k b) := by
  intro x hx
  rcases List.mem_or_eq_of_mem_set hx with hx | rfl
  · exact hs x hx
  · exact hb

theorem Carries.get {built : Ptr → Option Addr} {s : List AnBuf} (hs : Carries built s) {k : Nat} {b : AnBuf}
    (hb : s[k]? = some b) : ∀ c ∈ b.mCmd, b.mClient = built c := hs b (List.mem_of_getElem? hb)

theorem transferMachine_step {s t : List AnBuf} {i : Transfer} {e : List Empty}
    (h : transferMachine.step s i = some (t, e)) : transfer s i = some t := by
  obtain ⟨u, hu, h⟩ := Option.map_eq_some_iff.1 h
  cases h
  exact hu

/-- Whatever the objects, a move leaves the command in one place only. -/
theorem movedOut {s t : List AnBuf} {i : Transfer} (h : transfer s i = some t) : MovedOut s i t := by
  rintro ⟨src, dst⟩ hp a ha b - c hc
  cases i with
  | copyConstruct _ | copyAssign _ _ => cases hp
  | moveConstruct k =>
    cases hp
    obtain ⟨x, hx, rfl⟩ := Option.map_eq_some_iff.1 h
    have hk : src < s.length := (List.getElem?_eq_some_iff.1 hx).1
    have hnew : (s.set src x.moveConstruct.2 ++ [x.moveConstruct.1])[src]? = some x.moveConstruct.2 := by
      rw [List.getElem?_append_left (by simpa using hk), List.getElem?_set_self hk]
    rw [hnew] at ha
    cases ha
    cases hc
  | moveAssign d k =>
    obtain ⟨hne, heq⟩ := Option.ite_none_left_eq_some.1 hp
    cases heq
    obtain ⟨this, -, h⟩ := Option.bind_eq_some_iff.1 h
    obtain ⟨x, hx, rfl⟩ := Option.map_eq_some_iff.1 h
    have hk : src < s.length := (List.getElem?_eq_some_iff.1 hx).1
    rw [if_neg hne, List.getElem?_set_self (by simpa using hk)] at ha
    cases ha
    cases hc

/-- From objects that have their clients, the step leaves each command with its client exactly if it is not a
move assignment of a command that has one. -/
theorem carries_transfer {built : Ptr → Option Addr} {s t : List AnBuf} {i : Transfer} (hs : Carries built s)
    (h : transfer s i = some t) : Carries built t ↔ KeepsClient s i := by
  cases i with
  | copyConstruct src =>
    obtain ⟨a, ha, rfl⟩ := Option.map_eq_some_iff.1 h
    exact iff_of_true (carries_append.2 ⟨hs, carries_singleton.2 (hs.get ha)⟩) trivial
  | copyAssign dst src =>
    obtain ⟨this, -, h⟩ := Option.bind_eq_some_iff.1 h
    obtain ⟨a, ha, rfl⟩ := Option.map_eq_some_iff.1 h
    refine iff_of_true ?_ trivial
    split
    · exact hs
    · exact hs.set (hs.get ha)
  | moveConstruct src =>
    obtain ⟨a, ha, rfl⟩ := Option.map_eq_some_iff.1 h
    refine iff_of_true (carries_append.2 ⟨hs.set ?_, carries_singleton.2 (hs.get ha)⟩) trivial
    intro c hc
    cases hc
  | moveAssign dst src =>
    obtain ⟨this, hthis, h⟩ := Option.bind_eq_some_iff.1 h
    obtain ⟨a, ha, rfl⟩ := Option.map_eq_some_iff.1 h
    by_cases hne : dst = src
    · rw [if_pos hne]
      exact iff_of_true hs fun hn => absurd hne hn
    rw [if_neg hne]
    have hdst : dst < s.length := (List.getElem?_eq_some_iff.1 hthis).1
    constructor
    · -- the object assigned to has the command, and no client
      rintro ht - b hb hcmd
      rw [ha] at hb
      cases hb
      obtain ⟨c, hc⟩ := Option.ne_none_iff_exists'.1 hcmd
      have hnew : ((s.set dst (this.moveAssign a).1).set src (this.moveAssign a).2)[dst]? =
          some (this.moveAssign a).1 := by
        rw [List.getElem?_set_ne (Ne.symm hne), List.getElem?_set_self hdst]
      have hlost : none = built c := ht.get hnew c hc
      rw [hs.get ha c hc, hlost]
    · intro hk
      refine (hs.set fun c hc => ?_).set fun c hc => by cases hc
      have hcmd : a.mCmd ≠ none := Option.ne_none_iff_exists'.2 ⟨c, hc⟩
      have hnone := hk hne a ha hcmd
      have hbuilt := hs.get ha c hc
      rw [hnone] at hbuilt
      exact hbuilt

/-! ## Sequences -/

/-- For every sequence of copies and moves over any number of objects that begin with their clients: after each of
them every command is with the client it was built with, and a move leaves it in one place, if and only if no move
assignment between two objects takes a command that has a client. -/
theorem transit_iff {built : Ptr → Option Addr} {s t : List AnBuf} {is : List Transfer} {es : List Empty}
    (hs : Carries built s) (hr : transferMachine.run s is = some (t, es)) :
    transferMachine.AtEach (fun _ u i v _ _ => Carries built v ∧ MovedOut u i v) s is ↔
      transferMachine.Meets KeepsClient s is := by
  refine Machine.atEach_iff_meets (I := fun _ u => Carries built u) ?_ ?_ hs hr
  · intro _ u i v e hu hv
    have hv := transferMachine_step hv
    rw [carries_transfer hu hv]
    exact and_iff_left (movedOut hv)
  · intro _ u i v e hu hg hv
    exact (carries_transfer hu (transferMachine_step hv)).2 hg

/-- A command is built, moved into the deque, copied to the executor's own buffer and moved on from there. -/
theorem push_front_pop_transit : transferMachine.AtEach
    (fun _ u i v _ _ => Carries (fun _ => some 4) v ∧ MovedOut u i v) [.build (some 4) (some 0) (some 0), .new]
    [.moveConstruct 0, .copyAssign 1 2, .moveConstruct 1] := by
  obtain ⟨t, es, hr, -⟩ : ∃ t es, transferMachine.run [.build (some 4) (some 0) (some 0), .new]
      [.moveConstruct 0, .copyAssign 1 2, .moveConstruct 1] = some (t, es) ∧ True := Machine.run_any (by decide)
  exact (transit_iff (by decide) hr).2 (by decide)

/-- A move assignment between two buffers leaves the command without its client. -/
theorem moveAssign_loses_client : ¬ transferMachine.AtEach
    (fun _ u i v _ _ => Carries (fun _ => some 4) v ∧ MovedOut u i v) [.build (some 4) (some 0) (some 0), .new]
    ([] ++ .moveAssign 1 0 :: []) := by
  refine Machine.not_atEach (fun _ _ t _ _ => decide (¬ Carries (fun _ => some 4) t)) ?_ (by decide)
  intro _ _ t _ _ hb hc
  exact of_decide_eq_true hb hc.1

end AnXfs.Server
