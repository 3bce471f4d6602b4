/-
The way of a command buffer from `send_xfs_cmd` to `on_write`: allocated on the caller's thread, handed over
with `uv_async_send`, written by `on_send_cmd` on the loop's thread. Whether the pipe is active is asked on both
threads, and the connection may go down in between. `accounted_iff` says in which runs each buffer ends written
and released, or released with its caller told.

A worker starts its loop only after the one before has left `uv_run`: runs in which `CanIPC::run` starts a second worker
beside a detached one are not covered here.
-/
import AnXfs.Client.Spi

namespace AnXfs.Client

open AnXfs.Run

/-! ## State -/

/-- Where a call stands in `CanIPC::sendcmd`: before the test of `uv_is_active`, and before `uv_async_send`. -/
inductive SendPc where
  | isActive
  | uvAsyncSend
  deriving DecidableEq

/-- The buffers on their way, by the order of their allocation. `call` is the one call of an entry point that has
`g_mtx`, `asyncs` has what `on_send_cmd` is to see, `writes` what `on_write` is. `opened` says that some service is
open, `looping` that the worker is in `uv_run`. -/
structure Buffers where
  opened : Bool
  gPipc : Bool
  active : Bool
  looping : Bool
  call : Option (Nat × SendPc)
  asyncs : List Nat
  writes : List Nat
  next : Nat

def Buffers.new : Buffers where
  opened := false
  gPipc := false
  active := false
  looping := false
  call := none
  asyncs := []
  writes := []
  next := 0

/-- `written` of `released` says that it is `on_write` that releases; `returned` is what `anpc_send_cmd` returns. -/
inductive BufferEvent where
  | allocated (k : Nat)
  | returned (k : Nat) (r : Int)
  | wrote (k : Nat)
  | released (k : Nat) (written : Bool)
  deriving DecidableEq

/-- A call of `WFPOpen` up to where it comes to `send_xfs_cmd`, a call that comes to it and a piece of one that is in
it, the connection and the loop going up and down, and the loop's two callbacks. -/
inductive BufferInput where
  | openService
  | sendXfsCmd
  | sendcmd (uvAsyncSend : Int)
  | up
  | down
  | loopStart
  | loopEnd
  | onSendCmd (i : Nat) (uvWrite : Int)
  | onWrite (i : Nat) (status : Int)
  deriving DecidableEq

namespace Buffers

variable (s : Buffers)

/-- A piece of `anpc_send_cmd`; `uvAsyncSend` is what `uv_async_send` returns. -/
def sendcmd (k : Nat) (pc : SendPc) (uvAsyncSend : Int) : Buffers × List BufferEvent :=
  match pc with
  | .isActive =>
    if s.gPipc = false then ({ s with call := none }, [.returned k 0])
    -- `ANPC_AN_FAILED`; the buffer stays behind
    else if s.active = false then ({ s with call := none }, [.returned k 1])
    else ({ s with call := some (k, .uvAsyncSend) }, [])
  | .uvAsyncSend =>
    if uvAsyncSend = 0 then ({ s with call := none, asyncs := s.asyncs ++ [k] }, [.returned k 0])
    else ({ s with call := none }, [.released k false, .returned k uvAsyncSend])

/-- `CanIPC::write` for `on_send_cmd`, which does not look at what it returns. -/
def write (k : Nat) (uvWrite : Int) : Buffers × List BufferEvent :=
  if s.active then
    if uvWrite = 0 then ({ s with writes := s.writes ++ [k] }, [.wrote k]) else (s, [.released k false])
  else (s, [])

def step : BufferInput → Option (Buffers × List BufferEvent)
  | .openService => if s.call = none then some ({ s with opened := true, gPipc := true }, []) else none
  | .sendXfsCmd =>
    if s.call = none ∧ s.opened = true then
      some ({ s with call := some (s.next, .isActive), next := s.next + 1 }, [.allocated s.next])
    else none
  | .sendcmd uvAsyncSend => s.call.map fun (k, pc) => s.sendcmd k pc uvAsyncSend
  | .up => if s.looping then some ({ s with active := true }, []) else none
  | .down => some ({ s with active := false }, [])
  -- `uv_loop_init` knows of nothing that was under way; two workers in `uv_run` at once are left out
  | .loopStart => if s.looping then none else some ({ s with looping := true, asyncs := [], writes := [] }, [])
  | .loopEnd => if s.active then none else some ({ s with looping := false }, [])
  | .onSendCmd i uvWrite =>
    if s.looping then (s.asyncs[i]?).map fun k => { s with asyncs := s.asyncs.eraseIdx i }.write k uvWrite else none
  | .onWrite i _ =>
    if s.looping then
      (s.writes[i]?).map fun k => ({ s with writes := s.writes.eraseIdx i }, [.released k true])
    else none

end Buffers

def bufferMachine : Machine Buffers BufferInput BufferEvent where
  step := Buffers.step

/-! ## The branches -/

section Branches

variable {s : Buffers} (k : Nat)

theorem sendcmd_active (hp : s.gPipc = true) (ha : s.active = true) (r : Int) :
    s.sendcmd k .isActive r = ({ s with call := some (k, .uvAsyncSend) }, []) := by
  simp only [Buffers.sendcmd, hp, ha]
  rfl

theorem sendcmd_inactive (hp : s.gPipc = true) (ha : s.active = false) (r : Int) :
    s.sendcmd k .isActive r = ({ s with call := none }, [.returned k 1]) := by
  simp only [Buffers.sendcmd, hp, ha]
  rfl

theorem sendcmd_sent : s.sendcmd k .uvAsyncSend 0 =
    ({ s with call := none, asyncs := s.asyncs ++ [k] }, [.returned k 0]) := rfl

theorem sendcmd_unsent {r : Int} (hr : r ≠ 0) : s.sendcmd k .uvAsyncSend r =
    ({ s with call := none }, [.released k false, .returned k r]) := by
  simp only [Buffers.sendcmd]
  exact if_neg hr

theorem write_accepted (ha : s.active = true) : s.write k 0 = ({ s with writes := s.writes ++ [k] }, [.wrote k]) := by
  simp only [Buffers.write, ha]
  rfl

theorem write_failed (ha : s.active = true) {r : Int} (hr : r ≠ 0) : s.write k r = (s, [.released k false]) := by
  simp only [Buffers.write, ha]
  exact if_neg hr

theorem write_inactive (ha : ¬ s.active = true) (r : Int) : s.write k r = (s, []) := if_neg ha

end Branches

/-! ## The two ends -/

/-- A result that says that the command was not sent. -/
def toldFailed (h : List BufferEvent) (k : Nat) : Nat :=
  h.countP fun
    | .returned j r => j = k ∧ r ≠ 0
    | _ => false

/-- The buffer is the call's, or one that the loop will still come to. -/
def Buffers.InHand (s : Buffers) (k : Nat) : Prop :=
  (∃ pc, s.call = some (k, pc)) ∨ (s.looping = true ∧ (k ∈ s.asyncs ∨ k ∈ s.writes))

/-- The buffer was handed to `uv_write` once and released once by `on_write`, and the caller was told success. -/
structure WrittenOut (h : List BufferEvent) (k : Nat) : Prop where
  wrote : h.count (.wrote k) = 1
  released : h.count (.released k true) = 1
  once : h.count (.released k false) = 0
  told : h.count (.returned k 0) = 1
  unfailed : toldFailed h k = 0

/-- The buffer was released once and never handed to `uv_write`, and the caller was told that it failed. -/
structure Refused (h : List BufferEvent) (k : Nat) : Prop where
  unwritten : h.count (.wrote k) = 0
  released : h.count (.released k false) = 1
  once : h.count (.released k true) = 0
  told : toldFailed h k = 1
  untold : h.count (.returned k 0) = 0

/-- Every buffer that was allocated has one of the two ends, or is in hand and was not released. -/
def Accounted (h : List BufferEvent) (s : Buffers) : Prop :=
  ∀ k, .allocated k ∈ h →
    (s.InHand k ∧ h.count (.released k true) + h.count (.released k false) = 0) ∨ WrittenOut h k ∨ Refused h k

/-- The call finds the pipe active, and hands over to a loop that runs, unless it fails. -/
def Buffers.CallGoesOn (s : Buffers) (uvAsyncSend : Int) : SendPc → Prop
  | .isActive => s.active = true
  | .uvAsyncSend => uvAsyncSend = 0 → s.looping = true

/-- `sendcmd` finds the pipe active, and hands over to a loop that runs, unless it fails; `on_send_cmd` finds the
pipe still active and its write accepted; and the loop ends with nothing under way. -/
def CarriesOn (s : Buffers) : BufferInput → Prop
  | .sendcmd uvAsyncSend => ∀ c ∈ s.call, s.CallGoesOn uvAsyncSend c.2
  | .onSendCmd _ uvWrite => s.active = true ∧ uvWrite = 0
  | .loopEnd => s.asyncs = [] ∧ s.writes = []
  | _ => True

instance (s : Buffers) (r : Int) : DecidablePred (s.CallGoesOn r) := by
  intro pc
  cases pc <;> unfold Buffers.CallGoesOn <;> infer_instance

instance (s : Buffers) : DecidablePred (CarriesOn s) := by
  intro i
  cases i <;> unfold CarriesOn <;> infer_instance

/-- The buffers of the call. -/
def Buffers.calls (s : Buffers) : List Nat := s.call.toList.map Prod.fst

/-- Each buffer is in one place or released, and its events are those of the place. -/
structure Conserved (h : List BufferEvent) (s : Buffers) (k : Nat) : Prop where
  place : s.calls.count k + s.asyncs.count k + s.writes.count k + h.count (.released k true) +
    h.count (.released k false) = if k < s.next then 1 else 0
  wrote : h.count (.wrote k) = s.writes.count k + h.count (.released k true)
  told : h.count (.returned k 0) = s.asyncs.count k + s.writes.count k + h.count (.released k true)
  failed : toldFailed h k = h.count (.released k false)

/-- What holds as long as the connection carries on. -/
structure Kept (h : List BufferEvent) (s : Buffers) : Prop where
  conserved : ∀ k, Conserved h s k
  allocated : ∀ k, .allocated k ∈ h ↔ k < s.next
  pipe : s.opened = true → s.gPipc = true
  opened : s.call ≠ none → s.opened = true
  idle : s.looping = false → s.asyncs = [] ∧ s.writes = []

@[simp] theorem toldFailed_append (g h : List BufferEvent) (k : Nat) :
    toldFailed (g ++ h) k = toldFailed g k + toldFailed h k := List.countP_append ..

theorem mem_calls {s : Buffers} {k : Nat} : k ∈ s.calls ↔ ∃ pc, s.call = some (k, pc) := by
  unfold Buffers.calls
  cases hc : s.call with
  | none => simp
  | some c =>
    obtain ⟨j, pc⟩ := c
    simp [eq_comm]

/-- A buffer that is in one place or released is accounted for. -/
theorem Kept.accounted {h : List BufferEvent} {s : Buffers} (hs : Kept h s) : Accounted h s := by
  intro k hk
  obtain ⟨hplace, hwrote, htold, hfailed⟩ := hs.conserved k
  rw [if_pos ((hs.allocated k).1 hk)] at hplace
  have hcalls : 0 < s.calls.count k → ∃ pc, s.call = some (k, pc) := fun hpos =>
    mem_calls.1 (List.count_pos_iff.1 hpos)
  have hlooping : 0 < s.asyncs.count k + s.writes.count k → s.looping = true := by
    intro hpos
    by_contra hl
    obtain ⟨ha, hw⟩ := hs.idle (by simpa using hl)
    rw [ha, hw] at hpos
    simp at hpos
  by_cases hc : 0 < s.calls.count k
  · exact .inl ⟨.inl (hcalls hc), by omega⟩
  by_cases hp : 0 < s.asyncs.count k + s.writes.count k
  · refine .inl ⟨.inr ⟨hlooping hp, ?_⟩, by omega⟩
    by_cases ha : 0 < s.asyncs.count k
    · exact .inl (List.count_pos_iff.1 ha)
    · exact .inr (List.count_pos_iff.1 (by omega))
  by_cases hr : 0 < h.count (.released k true)
  · exact .inr (.inl ⟨by omega, by omega, by omega, by omega, by omega⟩)
  · exact .inr (.inr ⟨by omega, by omega, by omega, by omega, by omega⟩)

/-- A buffer that is out of hand and was not released is not. -/
theorem not_accounted_of_dropped {h : List BufferEvent} {s : Buffers} {k : Nat} (hk : .allocated k ∈ h)
    (hout : ¬ s.InHand k) (hr : h.count (.released k true) + h.count (.released k false) = 0) : ¬ Accounted h s := by
  intro ha
  rcases ha k hk with ⟨hin, -⟩ | hw | hf
  · exact hout hin
  · have := hw.released
    omega
  · have := hf.released
    omega

/-- Nor is one that was released unwritten when its caller had been told that it was sent. -/
theorem not_accounted_of_told {h : List BufferEvent} {s : Buffers} {k : Nat} (hk : .allocated k ∈ h)
    (ht : 0 < h.count (.returned k 0)) (hr : 0 < h.count (.released k false)) : ¬ Accounted h s := by
  intro ha
  rcases ha k hk with ⟨-, hn⟩ | hw | hf
  · omega
  · have := hw.once
    omega
  · have := hf.untold
    omega

/-! ## One step -/

/-- A step keeps the equations if what it counts of each buffer agrees with where it takes it. -/
theorem Conserved.step {h e : List BufferEvent} {s t : Buffers} {k : Nat} (hs : Conserved h s k)
    (hnext : t.next = s.next)
    (hplace : t.calls.count k + t.asyncs.count k + t.writes.count k + e.count (.released k true) +
      e.count (.released k false) = s.calls.count k + s.asyncs.count k + s.writes.count k)
    (hwrote : e.count (.wrote k) + s.writes.count k = t.writes.count k + e.count (.released k true))
    (htold : e.count (.returned k 0) + (s.asyncs.count k + s.writes.count k) =
      t.asyncs.count k + t.writes.count k + e.count (.released k true))
    (hfailed : toldFailed e k = e.count (.released k false)) : Conserved (h ++ e) t k := by
  obtain ⟨hplace', hwrote', htold', hfailed'⟩ := hs
  refine ⟨?_, ?_, ?_, ?_⟩
  · rw [List.count_append, List.count_append, hnext]
    omega
  · rw [List.count_append, List.count_append]
    omega
  · rw [List.count_append, List.count_append]
    omega
  · rw [toldFailed_append, List.count_append]
    omega

/-- The counts after a step, buffer by buffer. -/
theorem Kept.frame {h e : List BufferEvent} {s t : Buffers} (hs : Kept h s) (hconserved : ∀ k, Conserved (h ++ e) t k)
    (hnext : t.next = s.next) (he : ∀ k, .allocated k ∉ e) (hpipe : t.opened = true → t.gPipc = true)
    (hopened : t.call ≠ none → t.opened = true) (hidle : t.looping = false → t.asyncs = [] ∧ t.writes = []) :
    Kept (h ++ e) t := by
  refine ⟨hconserved, fun k => ?_, hpipe, hopened, hidle⟩
  rw [List.mem_append, or_iff_left (he k), hnext]
  exact hs.allocated k

/-- A step that moves no buffer. -/
theorem Kept.quiet {h : List BufferEvent} {s t : Buffers} (hs : Kept h s) (hc : t.calls = s.calls)
    (ha : t.asyncs = s.asyncs) (hw : t.writes = s.writes) (hn : t.next = s.next)
    (hpipe : t.opened = true → t.gPipc = true) (hopened : t.call ≠ none → t.opened = true)
    (hidle : t.looping = false → t.asyncs = [] ∧ t.writes = []) : Kept (h ++ []) t := by
  refine hs.frame (fun k => (hs.conserved k).step hn ?_ ?_ ?_ rfl) hn (fun _ => List.not_mem_nil) hpipe hopened hidle
  · rw [hc, ha, hw]
    rfl
  · rw [hw]
    exact Nat.zero_add _
  · rw [ha, hw]
    exact Nat.zero_add _

theorem calls_some {s : Buffers} {k : Nat} {pc : SendPc} (hc : s.call = some (k, pc)) : s.calls = [k] := by
  unfold Buffers.calls
  rw [hc]
  rfl

theorem calls_none {s : Buffers} (hc : s.call = none) : s.calls = [] := by
  unfold Buffers.calls
  rw [hc]
  rfl

theorem kept_sendcmd {h : List BufferEvent} {s : Buffers} {k : Nat} {pc : SendPc} {r : Int} (hs : Kept h s)
    (hc : s.call = some (k, pc)) (hg : s.CallGoesOn r pc) :
    Kept (h ++ (s.sendcmd k pc r).2) (s.sendcmd k pc r).1 := by
  have hopened := hs.opened (by rw [hc]; simp)
  have hpipe := hs.pipe hopened
  have hcalls := calls_some hc
  cases pc with
  | isActive =>
    rw [sendcmd_active k hpipe hg]
    exact hs.quiet hcalls.symm rfl rfl rfl hs.pipe (fun _ => hopened) hs.idle
  | uvAsyncSend =>
    by_cases hr : r = 0
    · rw [hr, sendcmd_sent]
      refine hs.frame (fun j => (hs.conserved j).step rfl ?_ ?_ ?_ ?_) rfl (by simp) hs.pipe (by simp) fun hl => ?_
      · rw [calls_none rfl, hcalls, List.count_append]
        simp
        omega
      · simp
      · rw [List.count_append]
        simp [List.count_cons]
        omega
      · simp [toldFailed]
      · rw [hg hr] at hl
        cases hl
    · rw [sendcmd_unsent k hr]
      refine hs.frame (fun j => (hs.conserved j).step rfl ?_ ?_ ?_ ?_) rfl (by simp) hs.pipe (by simp) hs.idle
      · rw [calls_none rfl, hcalls]
        simp [List.count_cons]
        omega
      · simp
      · simp [hr]
      · simp [toldFailed, List.countP_cons, List.count_cons, hr]

theorem kept_write {h : List BufferEvent} {s : Buffers} {k i : Nat} (hs : Kept h s) (hi : s.asyncs[i]? = some k)
    (hl : s.looping = true) (ha : s.active = true) :
    Kept (h ++ ({ s with asyncs := s.asyncs.eraseIdx i }.write k 0).2)
      ({ s with asyncs := s.asyncs.eraseIdx i }.write k 0).1 := by
  rw [write_accepted (s := { s with asyncs := s.asyncs.eraseIdx i }) k ha]
  have herase := count_eraseIdx hi
  refine hs.frame (fun j => (hs.conserved j).step rfl ?_ ?_ ?_ ?_) rfl (by simp) hs.pipe hs.opened fun hn => ?_
  · have hj := herase j
    simp [Buffers.calls, List.count_cons]
    omega
  · simp [List.count_cons]
    omega
  · have hj := herase j
    simp [List.count_cons]
    omega
  · simp [toldFailed]
  · rw [hl] at hn
    cases hn

theorem kept_onWrite {h : List BufferEvent} {s : Buffers} {k i : Nat} (hs : Kept h s) (hi : s.writes[i]? = some k) :
    Kept (h ++ [.released k true]) { s with writes := s.writes.eraseIdx i } := by
  have herase := count_eraseIdx hi
  refine hs.frame (fun j => (hs.conserved j).step rfl ?_ ?_ ?_ ?_) rfl (by simp) hs.pipe hs.opened fun hn => ?_
  · have hj := herase j
    simp [Buffers.calls, List.count_cons]
    omega
  · have hj := herase j
    simp [List.count_cons]
    omega
  · have hj := herase j
    simp [List.count_cons]
    omega
  · simp [toldFailed]
  · obtain ⟨-, hw⟩ := hs.idle hn
    rw [hw] at hi
    cases hi

theorem kept_sendXfsCmd {h : List BufferEvent} {s : Buffers} (hs : Kept h s) (hc : s.call = none)
    (ho : s.opened = true) :
    Kept (h ++ [.allocated s.next]) { s with call := some (s.next, .isActive), next := s.next + 1 } := by
  refine ⟨fun j => ?_, fun j => ?_, hs.pipe, fun _ => ho, hs.idle⟩
  · obtain ⟨hplace, hwrote, htold, hfailed⟩ := hs.conserved j
    rw [calls_none hc] at hplace
    constructor
    case place =>
      simp [Buffers.calls, List.count_cons] at hplace ⊢
      by_cases hj : s.next = j
      · rw [if_neg (by omega)] at hplace
        rw [if_pos hj, if_pos (by omega)]
        omega
      · rw [if_neg hj]
        by_cases hlt : j < s.next
        · rw [if_pos hlt] at hplace
          rw [if_pos (by omega)]
          omega
        · rw [if_neg hlt] at hplace
          rw [if_neg (by omega)]
          omega
    case wrote => simp; omega
    case told => simp; omega
    case failed => simp [toldFailed] at hfailed ⊢; omega
  · rw [List.mem_append, hs.allocated j]
    simp only [List.mem_singleton, BufferEvent.allocated.injEq]
    omega

theorem kept_step {h e : List BufferEvent} {s t : Buffers} {i : BufferInput} (hs : Kept h s) (hg : CarriesOn s i)
    (ht : bufferMachine.step s i = some (t, e)) : Kept (h ++ e) t := by
  cases i with
  | openService =>
    obtain ⟨hc, heq⟩ := Option.ite_none_right_eq_some.1 ht
    cases heq
    exact hs.quiet rfl rfl rfl rfl (fun _ => rfl) (fun _ => rfl) hs.idle
  | sendXfsCmd =>
    obtain ⟨⟨hc, ho⟩, heq⟩ := Option.ite_none_right_eq_some.1 ht
    cases heq
    exact kept_sendXfsCmd hs hc ho
  | sendcmd r =>
    obtain ⟨⟨k, pc⟩, hc, heq⟩ := Option.map_eq_some_iff.1 ht
    have heq : s.sendcmd k pc r = (t, e) := heq
    have hkept := kept_sendcmd hs hc (hg _ hc)
    rwa [heq] at hkept
  | up =>
    obtain ⟨-, heq⟩ := Option.ite_none_right_eq_some.1 ht
    cases heq
    exact hs.quiet rfl rfl rfl rfl hs.pipe hs.opened hs.idle
  | down =>
    cases ht
    exact hs.quiet rfl rfl rfl rfl hs.pipe hs.opened hs.idle
  | loopStart =>
    obtain ⟨hl, heq⟩ := Option.ite_none_left_eq_some.1 ht
    cases heq
    -- the loop that ended has left nothing
    obtain ⟨ha, hw⟩ := hs.idle (by simpa using hl)
    exact hs.quiet rfl ha.symm hw.symm rfl hs.pipe hs.opened fun _ => ⟨rfl, rfl⟩
  | loopEnd =>
    obtain ⟨-, heq⟩ := Option.ite_none_left_eq_some.1 ht
    cases heq
    exact hs.quiet rfl rfl rfl rfl hs.pipe hs.opened fun _ => hg
  | onSendCmd i uvWrite =>
    obtain ⟨hl, heq⟩ := Option.ite_none_right_eq_some.1 ht
    obtain ⟨k, hi, heq⟩ := Option.map_eq_some_iff.1 heq
    obtain ⟨ha, rfl⟩ := hg
    have hkept := kept_write hs hi hl ha
    rwa [heq] at hkept
  | onWrite i status =>
    obtain ⟨-, heq⟩ := Option.ite_none_right_eq_some.1 ht
    obtain ⟨k, hi, heq⟩ := Option.map_eq_some_iff.1 heq
    cases heq
    exact kept_onWrite hs hi

/-! ## What a step loses -/

/-- Buffers in hand were not released, and nowhere else. -/
theorem Kept.in_hand {h : List BufferEvent} {s : Buffers} (hs : Kept h s) {k : Nat}
    (hk : k ∈ s.calls ++ (s.asyncs ++ s.writes)) : .allocated k ∈ h ∧
      h.count (.released k true) + h.count (.released k false) = 0 ∧
      s.calls.count k + s.asyncs.count k + s.writes.count k = 1 := by
  obtain ⟨hplace, -, -, -⟩ := hs.conserved k
  have hpos := List.count_pos_iff.2 hk
  rw [List.count_append, List.count_append] at hpos
  have hlt : k < s.next := by
    by_contra hlt
    rw [if_neg hlt] at hplace
    omega
  rw [if_pos hlt] at hplace
  exact ⟨(hs.allocated k).2 hlt, by omega, by omega⟩

theorem carriesOn_sendcmd {h : List BufferEvent} {s : Buffers} {k : Nat} {pc : SendPc} {r : Int} (hs : Kept h s)
    (hc : s.call = some (k, pc)) (ha : Accounted (h ++ (s.sendcmd k pc r).2) (s.sendcmd k pc r).1) :
    s.CallGoesOn r pc := by
  have hpipe := hs.pipe (hs.opened (by rw [hc]; simp))
  have hcall : k ∈ s.calls := mem_calls.2 ⟨pc, hc⟩
  obtain ⟨hk, hr, hone⟩ := hs.in_hand (List.mem_append_left _ hcall)
  have hpos := List.count_pos_iff.2 hcall
  have hnot : k ∉ s.asyncs ∧ k ∉ s.writes := by
    rw [← List.count_eq_zero, ← List.count_eq_zero]
    omega
  cases pc with
  | isActive =>
    by_contra hn
    have hactive : ¬ s.active = true := hn
    -- the call returns, and nobody has the buffer
    rw [sendcmd_inactive k hpipe (Bool.eq_false_of_not_eq_true hactive)] at ha
    refine not_accounted_of_dropped (k := k) (List.mem_append_left _ hk) ?_ (by simp; omega) ha
    rintro (⟨pc, hpc⟩ | ⟨-, hin⟩)
    · cases hpc
    · exact hin.elim hnot.1 hnot.2
  | uvAsyncSend =>
    rintro rfl
    by_contra hl
    rw [sendcmd_sent] at ha
    refine not_accounted_of_dropped (k := k) (List.mem_append_left _ hk) ?_ (by simp; omega) ha
    rintro (⟨pc, hpc⟩ | ⟨hloop, -⟩)
    · cases hpc
    · exact hl hloop

theorem carriesOn_write {h : List BufferEvent} {s : Buffers} {k i : Nat} {r : Int} (hs : Kept h s)
    (hi : s.asyncs[i]? = some k) (ha : Accounted (h ++ ({ s with asyncs := s.asyncs.eraseIdx i }.write k r).2)
      ({ s with asyncs := s.asyncs.eraseIdx i }.write k r).1) : s.active = true ∧ r = 0 := by
  have hmem : k ∈ s.asyncs := List.mem_of_getElem? hi
  obtain ⟨hk, hr, hone⟩ := hs.in_hand (List.mem_append_right _ (List.mem_append_left _ hmem))
  have hpos := List.count_pos_iff.2 hmem
  have herase := count_eraseIdx hi k
  rw [if_pos rfl] at herase
  by_cases hactive : s.active = true
  · refine ⟨hactive, ?_⟩
    by_contra hfail
    rw [write_failed (s := { s with asyncs := s.asyncs.eraseIdx i }) k hactive hfail] at ha
    have htold := (hs.conserved k).told
    refine absurd ha (not_accounted_of_told (k := k) (List.mem_append_left _ hk) ?_ (by simp))
    rw [List.count_append]
    omega
  · rw [write_inactive (s := { s with asyncs := s.asyncs.eraseIdx i }) k hactive] at ha
    refine absurd ha (not_accounted_of_dropped (k := k) (List.mem_append_left _ hk) ?_ (by simp; omega))
    rintro (hcall | ⟨-, hin⟩)
    · have hcalls : 0 < s.calls.count k := List.count_pos_iff.2 (mem_calls.2 hcall)
      omega
    · rcases hin with hin | hin
      · have hasyncs : 0 < (s.asyncs.eraseIdx i).count k := List.count_pos_iff.2 hin
        omega
      · have hwrites : 0 < s.writes.count k := List.count_pos_iff.2 hin
        omega

theorem accounted_step {h e : List BufferEvent} {s t : Buffers} {i : BufferInput} (hs : Kept h s)
    (ht : bufferMachine.step s i = some (t, e)) : Accounted (h ++ e) t ↔ CarriesOn s i := by
  refine ⟨fun ha => ?_, fun hg => (kept_step hs hg ht).accounted⟩
  cases i with
  | openService | sendXfsCmd | up | down | loopStart | onWrite _ _ => trivial
  | sendcmd r =>
    obtain ⟨⟨k, pc⟩, hc, heq⟩ := Option.map_eq_some_iff.1 ht
    have heq : s.sendcmd k pc r = (t, e) := heq
    intro c hcall
    obtain rfl := Option.some.inj (hc.symm.trans hcall)
    refine carriesOn_sendcmd hs hc ?_
    rw [heq]
    exact ha
  | onSendCmd i r =>
    obtain ⟨-, heq⟩ := Option.ite_none_right_eq_some.1 ht
    obtain ⟨k, hi, heq⟩ := Option.map_eq_some_iff.1 heq
    refine carriesOn_write hs hi ?_
    rw [heq]
    exact ha
  | loopEnd =>
    obtain ⟨-, heq⟩ := Option.ite_none_left_eq_some.1 ht
    cases heq
    rw [List.append_nil] at ha
    -- what is under way when the loop ends is nowhere
    have hnone : ∀ k, k ∉ s.asyncs ++ s.writes := by
      intro k hk
      obtain ⟨hal, hr, hone⟩ := hs.in_hand (List.mem_append_right _ hk)
      have hpos := List.count_pos_iff.2 hk
      rw [List.count_append] at hpos
      refine not_accounted_of_dropped hal ?_ hr ha
      rintro (hcall | ⟨hl, -⟩)
      · have hcalls : 0 < s.calls.count k := List.count_pos_iff.2 (mem_calls.2 hcall)
        omega
      · cases hl
    exact List.append_eq_nil_iff.1 (List.eq_nil_iff_forall_not_mem.2 hnone)

theorem kept_new : Kept [] .new where
  conserved k := ⟨rfl, rfl, rfl, rfl⟩
  allocated k := by simp [Buffers.new]
  pipe := id
  opened hc := absurd rfl hc
  idle _ := ⟨rfl, rfl⟩

/-- For every run of the client, in any order of calls, callbacks, and the connection and the loop going up and down:
after each step every buffer allocated is in hand and unreleased, or written out, or refused, if and only if at each
step the connection carries on. -/
theorem accounted_iff {is : List BufferInput} {s : Buffers} {es : List BufferEvent}
    (hr : bufferMachine.run .new is = some (s, es)) :
    bufferMachine.AtEach (fun h _ _ t e _ => Accounted (h ++ e) t) .new is ↔ bufferMachine.Meets CarriesOn .new is :=
  Machine.atEach_iff_meets (I := Kept) (fun _ _ _ _ _ hs ht => accounted_step hs ht)
    (fun _ _ _ _ _ hs hg ht => kept_step hs hg ht) kept_new hr

/-- A service is opened, and its command reaches the loop. -/
def openAndSend : List BufferInput :=
  [.loopStart, .up, .openService, .sendXfsCmd, .sendcmd 0, .sendcmd 0]

theorem openAndSend_accounted : ∃ s es,
    bufferMachine.run .new (openAndSend ++ [.onSendCmd 0 0, .down, .onWrite 0 0]) = some (s, es) ∧
      .released 0 true ∈ es ∧ bufferMachine.AtEach (fun h _ _ t e _ => Accounted (h ++ e) t) .new
        (openAndSend ++ [.onSendCmd 0 0, .down, .onWrite 0 0]) := by
  obtain ⟨s, es, hr, he⟩ : ∃ s es,
      bufferMachine.run .new (openAndSend ++ [.onSendCmd 0 0, .down, .onWrite 0 0]) = some (s, es) ∧
        .released 0 true ∈ es := Machine.run_any (by decide +kernel)
  exact ⟨s, es, hr, he, (accounted_iff hr).2 (by decide +kernel)⟩

/-- The connection goes down between `sendcmd`, which returns success, and `on_send_cmd`, which drops the command. -/
theorem command_dropped : ¬ bufferMachine.AtEach (fun h _ _ t e _ => Accounted (h ++ e) t) .new
    ((openAndSend ++ [.down]) ++ .onSendCmd 0 0 :: []) := by
  refine Machine.not_atEach (fun h _ t e _ => decide (.allocated 0 ∈ h ++ e ∧
    (t.call = none ∧ t.asyncs = [] ∧ t.writes = []) ∧
      (h ++ e).count (.released 0 true) + (h ++ e).count (.released 0 false) = 0)) ?_ (by decide +kernel)
  intro h _ t e _ hb
  obtain ⟨hk, ⟨hc, ha, hw⟩, hr⟩ := of_decide_eq_true hb
  refine not_accounted_of_dropped hk ?_ hr
  rintro (⟨pc, hpc⟩ | ⟨-, hin⟩)
  · rw [hc] at hpc
    cases hpc
  · rw [ha, hw] at hin
    simp at hin

/-! ## The calls of the service provider -/

/-- The pieces of `anpc_send_cmd` one after the other, with nothing in between. -/
def Buffers.anpcSendCmd (s : Buffers) (k : Nat) (uvAsyncSend : Int) : Buffers × List BufferEvent :=
  let (t, e) := s.sendcmd k .isActive uvAsyncSend
  match t.call with
  | none => (t, e)
  | some (k, pc) =>
    let (u, e') := t.sendcmd k pc uvAsyncSend
    (u, e ++ e')

/-- A call that nothing comes in between returns what `anpcSendCmd` returns, and posts what it posts. -/
theorem anpcSendCmd_call {s : Buffers} {c : AnCimSp} (hp : s.gPipc = c.gPipc) (ha : s.active = c.ipc.active) (k : Nat)
    (data : List UInt8) (r : Int) : .returned k (c.anpcSendCmd data r).2 ∈ (s.anpcSendCmd k r).2 ∧
      ((s.anpcSendCmd k r).1.asyncs = s.asyncs ++ [k] ↔
        (c.anpcSendCmd data r).1.asyncs = c.asyncs ++ [data]) := by
  unfold Buffers.anpcSendCmd AnCimSp.anpcSendCmd AnCimSp.sendcmd
  simp only [Buffers.sendcmd, hp, ha]
  by_cases hg : c.gPipc = true
  · by_cases hactive : c.ipc.active = true
    · by_cases hr : r = 0
      · simp [hg, hactive, hr]
      · simp [hg, hactive, hr]
    · simp [hg, hactive]
  · simp [hg]

/-- `on_send_cmd` writes exactly if `CanIPC::write` returns success. -/
theorem write_canIPC {s : Buffers} {ipc : CanIPC} (ha : s.active = ipc.active) (k : Nat) (data : List UInt8) (r : Int) :
    .wrote k ∈ (s.write k r).2 ↔ (ipc.write data r).2 = 0 := by
  unfold CanIPC.write
  rw [← ha]
  by_cases hactive : s.active = true
  · by_cases hr : r = 0
    · rw [hr, write_accepted k hactive]
      simp [hactive]
    · rw [write_failed k hactive hr]
      simp [hactive, hr]
  · rw [write_inactive k hactive]
    simp [hactive]

end AnXfs.Client
