/-
Where the command buffers go, in every run of the client, whatever the connection does: a buffer is handed to `uv_write`
at most once, and from then on only `on_write` releases it; none is released twice, nor written after its release; and
those that are neither released nor under way are counted by the steps that leave them behind. As in `bufferMachine`, no
two workers are in `uv_run` at once.
-/
import AnXfs.Client.SendCmd
import AnXfs.Run.Accounts

namespace AnXfs.Client

open AnXfs.Run

/-! ## Before and after `uv_write` -/

/-- A buffer up to `uv_write`: allocated, the call's or handed to the loop, and then written or released unwritten. -/
def unwritten : Accounts Buffers BufferEvent Nat where
  made
    | .allocated k => some k
    | .returned .. | .wrote _ | .released .. => none
  freed
    | .wrote k | .released k false => some k
    | .allocated _ | .returned .. | .released _ true => none
  held s := s.calls + s.asyncs

/-- A buffer from `uv_write` on, which `on_write` releases. -/
def written : Accounts Buffers BufferEvent Nat where
  made
    | .wrote k => some k
    | .allocated _ | .returned .. | .released .. => none
  freed
    | .released k true => some k
    | .allocated _ | .returned .. | .wrote _ | .released _ false => none
  held s := s.writes

/-- A buffer whose call of `anpc_send_cmd` has not returned. -/
def calling : Accounts Buffers BufferEvent Nat where
  made
    | .allocated k => some k
    | .returned .. | .wrote _ | .released .. => none
  freed
    | .returned k _ => some k
    | .allocated _ | .wrote _ | .released .. => none
  held s := s.calls

/-- The buffers allocated, those handed to `uv_write`, those released by `on_write` or unwritten, and those whose call
has returned. -/
def allocatedBufs (h : List BufferEvent) : Multiset Nat := unwritten.madeIn h
def wroteBufs (h : List BufferEvent) : Multiset Nat := written.madeIn h
def releasedBufs (byOnWrite : Bool) (h : List BufferEvent) : Multiset Nat :=
  h.filterMap fun
    | .released k w => if w = byOnWrite then some k else none
    | _ => none
def returnedBufs (h : List BufferEvent) : Multiset Nat := calling.freedIn h

theorem released_onWrite (h : List BufferEvent) : written.freedIn h = releasedBufs true h := by
  unfold Accounts.freedIn releasedBufs
  congr 2
  funext e
  rcases e with k | ⟨k, r⟩ | k | ⟨k, _ | _⟩ <;> rfl

/-- What is no longer unwritten is written or released. -/
theorem freed_unwritten (h : List BufferEvent) : unwritten.freedIn h = wroteBufs h + releasedBufs false h := by
  induction h with
  | nil => rfl
  | cons e h ih =>
    have hcons : ∀ a : Accounts Buffers BufferEvent Nat, a.madeIn (e :: h) = a.madeIn [e] + a.madeIn h ∧
        a.freedIn (e :: h) = a.freedIn [e] + a.freedIn h := fun a =>
      ⟨a.madeIn_append [e] h, a.freedIn_append [e] h⟩
    have hreleased : releasedBufs false (e :: h) = releasedBufs false [e] + releasedBufs false h := by
      unfold releasedBufs
      rw [Multiset.coe_add, ← List.filterMap_append]
      rfl
    have hone : unwritten.freedIn [e] = wroteBufs [e] + releasedBufs false [e] := by
      rcases e with k | ⟨k, r⟩ | k | ⟨k, _ | _⟩ <;> rfl
    unfold wroteBufs at *
    rw [(hcons unwritten).2, (hcons written).1, hreleased, hone, ih]
    ac_rfl

namespace Buffers

variable (s : Buffers)

/-- How many buffers a step leaves behind unwritten: `sendcmd` on a pipe that is not active, `on_send_cmd` on one, and
`uv_loop_init` those that were handed to the loop. -/
def drops : BufferInput → Nat
  | .sendcmd _ => (s.call.map fun c => if c.2 = .isActive ∧ s.active = false then 1 else 0).getD 0
  | .onSendCmd .. => if s.active then 0 else 1
  | .loopStart => s.asyncs.length
  | _ => 0

/-- How many it leaves behind written: `uv_loop_init` those whose write was not reported. -/
def cuts : BufferInput → Nat
  | .loopStart => s.writes.length
  | _ => 0

end Buffers

/-- Some service is open before a command is sent, so `g_pIPC` is there. -/
structure Piped (s : Buffers) : Prop where
  pipe : s.opened = true → s.gPipc = true
  opened : s.call ≠ none → s.opened = true

/-! ## A step -/

/-- What a step does to the buffers. -/
inductive BufferStep (s : Buffers) : BufferInput → Buffers → List BufferEvent → Prop
  | quiet (i : BufferInput) (t : Buffers) : t.calls = s.calls → t.asyncs = s.asyncs → t.writes = s.writes →
      t.next = s.next → s.drops i = 0 → s.cuts i = 0 → BufferStep s i t []
  | began : s.call = none →
      BufferStep s .sendXfsCmd { s with call := some (s.next, .isActive), next := s.next + 1 } [.allocated s.next]
  | refused (k : Nat) (r : Int) : s.call = some (k, .isActive) → s.active = false →
      BufferStep s (.sendcmd r) { s with call := none } [.returned k 1]
  | handedOver (k : Nat) : s.call = some (k, .uvAsyncSend) →
      BufferStep s (.sendcmd 0) { s with call := none, asyncs := s.asyncs ++ [k] } [.returned k 0]
  | unsent (k : Nat) (r : Int) : s.call = some (k, .uvAsyncSend) →
      BufferStep s (.sendcmd r) { s with call := none } [.released k false, .returned k r]
  | restarted : BufferStep s .loopStart { s with looping := true, asyncs := [], writes := [] } []
  | wrote (i k : Nat) : s.asyncs[i]? = some k → s.active = true →
      BufferStep s (.onSendCmd i 0) { s with asyncs := s.asyncs.eraseIdx i, writes := s.writes ++ [k] } [.wrote k]
  | unaccepted (i k : Nat) (r : Int) : s.asyncs[i]? = some k → s.active = true →
      BufferStep s (.onSendCmd i r) { s with asyncs := s.asyncs.eraseIdx i } [.released k false]
  | dropped (i k : Nat) (r : Int) : s.asyncs[i]? = some k → s.active = false →
      BufferStep s (.onSendCmd i r) { s with asyncs := s.asyncs.eraseIdx i } []
  | reported (i k : Nat) (status : Int) : s.writes[i]? = some k →
      BufferStep s (.onWrite i status) { s with writes := s.writes.eraseIdx i } [.released k true]

section Step

variable {s t : Buffers} {i : BufferInput} {e : List BufferEvent}

theorem bufferStep_sendcmd (hs : Piped s) {k : Nat} {pc : SendPc} (hc : s.call = some (k, pc)) (r : Int) :
    BufferStep s (.sendcmd r) (s.sendcmd k pc r).1 (s.sendcmd k pc r).2 := by
  have hpipe := hs.pipe (hs.opened (by rw [hc]; simp))
  cases pc with
  | isActive =>
    by_cases ha : s.active = true
    · rw [sendcmd_active k hpipe ha]
      refine .quiet _ _ ?_ rfl rfl rfl ?_ rfl
      · rw [calls_some hc, calls_some rfl]
      · simp [Buffers.drops, hc, ha]
    · have ha := Bool.eq_false_of_not_eq_true ha
      rw [sendcmd_inactive k hpipe ha]
      exact .refused k r hc ha
  | uvAsyncSend =>
    by_cases hr : r = 0
    · subst hr
      exact .handedOver k hc
    · rw [sendcmd_unsent k hr]
      exact .unsent k r hc

theorem bufferStep_write {j k : Nat} (hj : s.asyncs[j]? = some k) (r : Int) :
    BufferStep s (.onSendCmd j r) ({ s with asyncs := s.asyncs.eraseIdx j }.write k r).1
      ({ s with asyncs := s.asyncs.eraseIdx j }.write k r).2 := by
  by_cases ha : s.active = true
  · by_cases hr : r = 0
    · subst hr
      rw [write_accepted (s := { s with asyncs := s.asyncs.eraseIdx j }) k ha]
      exact .wrote j k hj ha
    · rw [write_failed (s := { s with asyncs := s.asyncs.eraseIdx j }) k ha hr]
      exact .unaccepted j k r hj ha
  · rw [write_inactive (s := { s with asyncs := s.asyncs.eraseIdx j }) k ha]
    exact .dropped j k r hj (Bool.eq_false_of_not_eq_true ha)

/-- Every step of the client is one of these. -/
theorem bufferStep_of (hs : Piped s) (ht : bufferMachine.step s i = some (t, e)) : BufferStep s i t e := by
  cases i with
  | openService =>
    obtain ⟨-, heq⟩ := Option.ite_none_right_eq_some.1 ht
    cases heq
    exact .quiet _ _ rfl rfl rfl rfl rfl rfl
  | sendXfsCmd =>
    obtain ⟨⟨hc, -⟩, heq⟩ := Option.ite_none_right_eq_some.1 ht
    cases heq
    exact .began hc
  | sendcmd r =>
    obtain ⟨⟨k, pc⟩, hc, heq⟩ := Option.map_eq_some_iff.1 ht
    have heq : s.sendcmd k pc r = (t, e) := heq
    have hstep := bufferStep_sendcmd hs hc r
    rwa [heq] at hstep
  | up =>
    obtain ⟨-, heq⟩ := Option.ite_none_right_eq_some.1 ht
    cases heq
    exact .quiet _ _ rfl rfl rfl rfl rfl rfl
  | down =>
    cases ht
    exact .quiet _ _ rfl rfl rfl rfl rfl rfl
  | loopStart =>
    obtain ⟨-, heq⟩ := Option.ite_none_left_eq_some.1 ht
    cases heq
    exact .restarted
  | loopEnd =>
    obtain ⟨-, heq⟩ := Option.ite_none_left_eq_some.1 ht
    cases heq
    exact .quiet _ _ rfl rfl rfl rfl rfl rfl
  | onSendCmd j r =>
    obtain ⟨-, heq⟩ := Option.ite_none_right_eq_some.1 ht
    obtain ⟨k, hj, heq⟩ := Option.map_eq_some_iff.1 heq
    have hstep := bufferStep_write hj r
    rwa [heq] at hstep
  | onWrite j status =>
    obtain ⟨-, heq⟩ := Option.ite_none_right_eq_some.1 ht
    obtain ⟨k, hj, heq⟩ := Option.map_eq_some_iff.1 heq
    cases heq
    exact .reported j k status hj

theorem piped_step (hs : Piped s) (ht : bufferMachine.step s i = some (t, e)) : Piped t := by
  obtain ⟨hpipe, hopened⟩ := hs
  cases i with
  | openService =>
    obtain ⟨-, heq⟩ := Option.ite_none_right_eq_some.1 ht
    cases heq
    exact ⟨fun _ => rfl, fun _ => rfl⟩
  | sendXfsCmd =>
    obtain ⟨⟨-, ho⟩, heq⟩ := Option.ite_none_right_eq_some.1 ht
    cases heq
    exact ⟨hpipe, fun _ => ho⟩
  | sendcmd r =>
    obtain ⟨⟨k, pc⟩, hc, heq⟩ := Option.map_eq_some_iff.1 ht
    have hopen := hopened (by rw [hc]; simp)
    have hsame : (s.sendcmd k pc r).1.opened = s.opened ∧ (s.sendcmd k pc r).1.gPipc = s.gPipc := by
      unfold Buffers.sendcmd
      split
      · split
        · exact ⟨rfl, rfl⟩
        · split <;> exact ⟨rfl, rfl⟩
      · split <;> exact ⟨rfl, rfl⟩
    have heq : s.sendcmd k pc r = (t, e) := heq
    rw [heq] at hsame
    exact ⟨fun _ => hsame.2.trans (hpipe hopen), fun _ => hsame.1.trans hopen⟩
  | up =>
    obtain ⟨-, heq⟩ := Option.ite_none_right_eq_some.1 ht
    cases heq
    exact ⟨hpipe, hopened⟩
  | down =>
    cases ht
    exact ⟨hpipe, hopened⟩
  | loopStart | loopEnd =>
    obtain ⟨-, heq⟩ := Option.ite_none_left_eq_some.1 ht
    cases heq
    exact ⟨hpipe, hopened⟩
  | onSendCmd j r =>
    obtain ⟨-, heq⟩ := Option.ite_none_right_eq_some.1 ht
    obtain ⟨k, hj, heq⟩ := Option.map_eq_some_iff.1 heq
    unfold Buffers.write at heq
    split at heq
    · split at heq <;> cases heq <;> exact ⟨hpipe, hopened⟩
    · cases heq
      exact ⟨hpipe, hopened⟩
  | onWrite j status =>
    obtain ⟨-, heq⟩ := Option.ite_none_right_eq_some.1 ht
    obtain ⟨k, hj, heq⟩ := Option.map_eq_some_iff.1 heq
    cases heq
    exact ⟨hpipe, hopened⟩

/-- The buffer that is taken out of a list is in hand. -/
theorem coe_eraseIdx {l : List Nat} {j k : Nat} (hj : l[j]? = some k) : (l : Multiset Nat) = l.eraseIdx j + {k} := by
  have hperm : (l : Multiset Nat) = k ::ₘ (l.eraseIdx j : Multiset Nat) := Multiset.coe_eq_coe.2 (perm_eraseIdx hj)
  rw [hperm, ← Multiset.singleton_add, add_comm]

/-- Every call returns with its buffer. -/
theorem calling_books (h : BufferStep s i t e) : calling.Books s e t 0 := by
  unfold Accounts.Books
  rw [add_zero]
  cases h with
  | quiet i t hc =>
    show (s.calls + 0 : Multiset Nat) = 0 + t.calls
    rw [hc, add_comm]
  | began hc =>
    show (s.calls + {s.next} : Multiset Nat) = 0 + {s.next}
    rw [calls_none hc]
    rfl
  | refused k r hc | handedOver k hc | unsent k r hc =>
    show (s.calls + 0 : Multiset Nat) = {k} + 0
    rw [calls_some hc]
    rfl
  | restarted | wrote | unaccepted | dropped | reported =>
    show (s.calls + 0 : Multiset Nat) = 0 + s.calls
    exact add_comm ..

theorem unwritten_books (h : BufferStep s i t e) : ∃ g, unwritten.Books s e t g ∧ g.card = s.drops i := by
  unfold Accounts.Books
  cases h with
  | quiet i t hc ha _ _ hd =>
    refine ⟨0, ?_, hd.symm⟩
    show (s.calls + s.asyncs + 0 : Multiset Nat) = 0 + (t.calls + t.asyncs) + 0
    rw [hc, ha, zero_add]
  | began hc =>
    refine ⟨0, ?_, rfl⟩
    show (s.calls + s.asyncs + {s.next} : Multiset Nat) = 0 + ({s.next} + s.asyncs) + 0
    rw [calls_none hc, Multiset.coe_nil]
    ac_rfl
  | refused k r hc ha =>
    refine ⟨{k}, ?_, by simp [Buffers.drops, hc, ha]⟩
    show (s.calls + s.asyncs + 0 : Multiset Nat) = 0 + (0 + s.asyncs) + {k}
    rw [calls_some hc, Multiset.coe_singleton]
    ac_rfl
  | handedOver k hc =>
    refine ⟨0, ?_, by simp [Buffers.drops, hc]⟩
    show (s.calls + s.asyncs + 0 : Multiset Nat) = 0 + (0 + (s.asyncs + [k])) + 0
    rw [calls_some hc, Multiset.coe_singleton]
    ac_rfl
  | unsent k r hc =>
    refine ⟨0, ?_, by simp [Buffers.drops, hc]⟩
    show (s.calls + s.asyncs + 0 : Multiset Nat) = {k} + (0 + s.asyncs) + 0
    rw [calls_some hc, Multiset.coe_singleton]
    ac_rfl
  | restarted =>
    refine ⟨s.asyncs, ?_, rfl⟩
    show (s.calls + s.asyncs + 0 : Multiset Nat) = 0 + (s.calls + 0) + s.asyncs
    ac_rfl
  | wrote j k hj ha | unaccepted j k r hj ha =>
    refine ⟨0, ?_, by simp [Buffers.drops, ha]⟩
    show (s.calls + s.asyncs + 0 : Multiset Nat) = {k} + (s.calls + s.asyncs.eraseIdx j) + 0
    rw [coe_eraseIdx hj]
    ac_rfl
  | dropped j k r hj ha =>
    refine ⟨{k}, ?_, by simp [Buffers.drops, ha]⟩
    show (s.calls + s.asyncs + 0 : Multiset Nat) = 0 + (s.calls + s.asyncs.eraseIdx j) + {k}
    rw [coe_eraseIdx hj]
    ac_rfl
  | reported j k status hj =>
    refine ⟨0, ?_, rfl⟩
    show (s.calls + s.asyncs + 0 : Multiset Nat) = 0 + (s.calls + s.asyncs) + 0
    rw [zero_add]

theorem written_books (h : BufferStep s i t e) : ∃ g, written.Books s e t g ∧ g.card = s.cuts i := by
  unfold Accounts.Books
  cases h with
  | quiet i t _ _ hw _ _ hd =>
    refine ⟨0, ?_, hd.symm⟩
    show (s.writes + 0 : Multiset Nat) = 0 + t.writes + 0
    rw [hw, zero_add]
  | began | refused | handedOver | unsent | unaccepted | dropped =>
    refine ⟨0, ?_, rfl⟩
    show (s.writes + 0 : Multiset Nat) = 0 + s.writes + 0
    rw [zero_add]
  | restarted =>
    refine ⟨s.writes, ?_, rfl⟩
    show (s.writes + 0 : Multiset Nat) = 0 + 0 + s.writes
    ac_rfl
  | wrote j k hj ha =>
    refine ⟨0, ?_, rfl⟩
    show (s.writes + {k} : Multiset Nat) = 0 + (s.writes + [k]) + 0
    rw [zero_add, add_zero, Multiset.coe_singleton]
  | reported j k status hj =>
    refine ⟨0, ?_, rfl⟩
    show (s.writes + 0 : Multiset Nat) = {k} + s.writes.eraseIdx j + 0
    rw [coe_eraseIdx hj]
    ac_rfl

/-- Buffers are numbered as they are allocated. -/
theorem buffer_numbers (h : BufferStep s i t e) : unwritten.Numbers Buffers.next s e t := by
  cases h with
  | quiet i t _ _ _ hn => exact .quiet hn rfl
  | began => exact ⟨1, rfl, rfl⟩
  | refused | handedOver | unsent | restarted | wrote | unaccepted | dropped | reported => exact .quiet rfl rfl

end Step

/-! ## A run -/

/-- For every run of the client, in any order of calls, callbacks, and the connection and the loop going up and down:
the buffers allocated are, each once, those handed to `uv_write`, those released unwritten, those of the call and of the
loop, and those dropped; of those handed to `uv_write` each is released by `on_write` once, or its write is under way or
was cut off; and every call has returned once for its buffer, but the one under way. -/
theorem buffers_accounted {is : List BufferInput} {s : Buffers} {es : List BufferEvent}
    (hr : bufferMachine.run .new is = some (s, es)) :
    (allocatedBufs es).Nodup ∧ allocatedBufs es = returnedBufs es + s.calls ∧
      ∃ dropped cut, allocatedBufs es = wroteBufs es + releasedBufs false es + (s.calls + s.asyncs) + dropped ∧
        wroteBufs es = releasedBufs true es + s.writes + cut ∧
        dropped.card = bufferMachine.cost Buffers.drops .new is ∧ cut.card = bufferMachine.cost Buffers.cuts .new is := by
  have hnew : Piped .new := ⟨fun h => absurd h (by decide), fun h => absurd rfl h⟩
  obtain ⟨-, dropped, hd, hdcard⟩ := Accounts.run_books (I := Piped) (P := fun _ => True) (c := Buffers.drops)
    (fun s i t e hs ht => by
      obtain ⟨g, hg, hcard⟩ := unwritten_books (bufferStep_of hs ht)
      exact ⟨piped_step hs ht, trivial, g, hg, fun _ => hcard⟩) hnew hr
  obtain ⟨-, cut, hc, hccard⟩ := Accounts.run_books (I := Piped) (P := fun _ => True) (c := Buffers.cuts)
    (fun s i t e hs ht => by
      obtain ⟨g, hg, hcard⟩ := written_books (bufferStep_of hs ht)
      exact ⟨piped_step hs ht, trivial, g, hg, fun _ => hcard⟩) hnew hr
  have hcalls := Accounts.run_keeps (a := calling) (I := Piped)
    (fun s i t e hs ht => ⟨piped_step hs ht, calling_books (bufferStep_of hs ht)⟩) hnew hr
  have hnumbers := Accounts.run_numbers (b := unwritten) (I := Piped)
    (fun s i t e hs ht => ⟨piped_step hs ht, buffer_numbers (bufferStep_of hs ht)⟩) hnew hr
  refine ⟨hnumbers.nodup, ?_, dropped, cut, ?_, ?_, hdcard trivial, hccard trivial⟩
  · have hcalls : 0 + calling.madeIn es = calling.freedIn es + s.calls + 0 := hcalls
    rwa [zero_add, add_zero] at hcalls
  · have hd : 0 + unwritten.madeIn es = unwritten.freedIn es + (s.calls + s.asyncs) + dropped := hd
    rwa [zero_add, freed_unwritten] at hd
  · have hc : 0 + written.madeIn es = written.freedIn es + s.writes + cut := hc
    rwa [zero_add, released_onWrite] at hc

/-- Of three commands the first is written, the second handed to the loop, and the third refused on a pipe that has
closed; then the loop starts again. -/
def threeCommands : List BufferInput :=
  openAndSend ++ [.onSendCmd 0 0, .sendXfsCmd, .sendcmd 0, .sendcmd 0, .down, .sendXfsCmd, .sendcmd 0, .loopEnd,
    .loopStart]

/-- The second and the third are dropped, and the write of the first is cut off. -/
theorem threeCommands_accounted : ∃ s es, bufferMachine.run .new threeCommands = some (s, es) ∧
    allocatedBufs es = returnedBufs es + s.calls ∧ ∃ dropped cut : Multiset Nat,
      allocatedBufs es = wroteBufs es + releasedBufs false es + (s.calls + s.asyncs) + dropped ∧
      wroteBufs es = releasedBufs true es + s.writes + cut ∧ dropped.card = 2 ∧ cut.card = 1 := by
  obtain ⟨s, es, hr, -⟩ : ∃ s es, bufferMachine.run .new threeCommands = some (s, es) ∧ s.asyncs = [] :=
    Machine.run_any (by decide +kernel)
  obtain ⟨-, hcalls, dropped, cut, hd, hc, hdcard, hccard⟩ := buffers_accounted hr
  refine ⟨s, es, hr, hcalls, dropped, cut, hd, hc, hdcard.trans ?_, hccard.trans ?_⟩
  · decide +kernel
  · decide +kernel

end AnXfs.Client
