/-
The timer of `CanThread::idle_handle` on its own, over any sequence of calls: all it sees of the time is
`GetTickCount`, which begins again at zero every 2^32 milliseconds. As long as the interval and the time
from one call to the next stay below that together, the difference of two readings is the time that went
by (`since_eq`), and `idle` is called exactly when it is due (`idleCalls_due`).
-/
import AnXfs.Server.Idle

namespace AnXfs.Server

open AnXfs.Pack AnXfs.Run

variable {A : Arch} {api : XfsApi}

/-! ## The timer -/

/-- `GetTickCount`, at a time in milliseconds. -/
def getTickCount (time : Nat) : Dword := BitVec.ofNat 32 time

/-- A call of `idle_handle`: its `action`, the time at which it is made, and how long `idle` takes in it. -/
structure IdleCall where
  action : HResult
  time : Nat
  took : Nat
  deriving DecidableEq

/-- A call, and whether `idle` was called in it. -/
structure IdleHandled where
  call : IdleCall
  fired : Bool
  deriving DecidableEq

/-- `idle_handle` with its static `s_begin`, which the first call initialises: what it leaves there, and whether it
calls `idle`. -/
def idleHandle (mIdleInterval : Dword) (sBegin : Option Dword) (c : IdleCall) : Dword × Bool :=
  let begin := sBegin.getD (getTickCount c.time)
  if c.action = 1 then (getTickCount c.time, false)
  else
    let current := getTickCount c.time
    if mIdleInterval ≤ current - begin then (getTickCount (c.time + c.took), true) else (begin, false)

/-- The calls of a process, one after the other. -/
def idleCalls (mIdleInterval : Dword) : Option Dword → List IdleCall → List IdleHandled
  | _, [] => []
  | sBegin, c :: cs =>
    let (begin, fired) := idleHandle mIdleInterval sBegin c
    ⟨c, fired⟩ :: idleCalls mIdleInterval (some begin) cs

/-! ## When `idle` is due -/

/-- The time at which a call starts the timer again. -/
def IdleHandled.reset? (x : IdleHandled) : Option Nat :=
  if x.call.action = 1 then some x.call.time else if x.fired then some (x.call.time + x.call.took) else none

/-- The last reset: the last call with action 1 or the end of the last `idle`, or else the first call. -/
def lastReset (h : List IdleHandled) : Option Nat :=
  (h.filterMap IdleHandled.reset?).getLast?.or (h.head?.map (·.call.time))

/-- `idle` is called exactly if the action is not 1 and the interval has gone by since the last reset. -/
def Due (mIdleInterval : Dword) (h : List IdleHandled) (x : IdleHandled) : Prop :=
  x.fired = true ↔ x.call.action ≠ 1 ∧ mIdleInterval.toNat ≤ x.call.time - (lastReset h).getD x.call.time

/-- The next call comes after this one, and so soon that the interval and the gap do not fill the counter. -/
def Follows (mIdleInterval : Dword) (c d : IdleCall) : Prop :=
  c.time + c.took ≤ d.time ∧ mIdleInterval.toNat + (d.time - c.time) < 2 ^ 32

instance (mIdleInterval : Dword) (c d : IdleCall) : Decidable (Follows mIdleInterval c d) := by
  unfold Follows; infer_instance

/-! ## What the readings say -/

/-- Readings less than 2^32 apart differ by the time between them, however often the counter has begun again. -/
theorem since_eq {current begin : Nat} (h : begin ≤ current) (hlt : current - begin < 2 ^ 32) :
    (getTickCount current - getTickCount begin).toNat = current - begin := by
  unfold getTickCount
  rw [BitVec.toNat_sub, BitVec.toNat_ofNat, BitVec.toNat_ofNat]
  omega

theorem lastReset_append {h : List IdleHandled} {x : IdleHandled} {b : Nat} (hb : lastReset h = some b) :
    lastReset (h ++ [x]) = some (x.reset?.getD b) := by
  unfold lastReset at hb ⊢
  rw [List.filterMap_append]
  cases hx : x.reset? with
  | some r => simp [hx]
  | none =>
    cases h with
    | nil => cases hb
    | cons y h => simpa [hx] using hb

/-- The static holds the reading of the last reset, which lies no further back from the last call than the interval. -/
structure Since (mIdleInterval : Dword) (h : List IdleHandled) (last : IdleCall) (sBegin : Dword) (b : Nat) : Prop where
  reset : lastReset h = some b
  begin : sBegin = getTickCount b
  past : b ≤ last.time + last.took
  near : last.time ≤ b + mIdleInterval.toNat

section Call

variable {mIdleInterval : Dword} {h : List IdleHandled} {c : IdleCall}

theorem Due.restarted (ha : c.action = 1) : Due mIdleInterval h ⟨c, false⟩ :=
  iff_of_false Bool.false_ne_true fun hd => hd.1 ha

theorem Due.fired (ha : c.action ≠ 1) (hi : mIdleInterval.toNat ≤ c.time - (lastReset h).getD c.time) :
    Due mIdleInterval h ⟨c, true⟩ := iff_of_true rfl ⟨ha, hi⟩

theorem Due.quiet (hi : ¬ mIdleInterval.toNat ≤ c.time - (lastReset h).getD c.time) :
    Due mIdleInterval h ⟨c, false⟩ := iff_of_false Bool.false_ne_true fun hd => hi hd.2

theorem reset_restarted {fired : Bool} (ha : c.action = 1) : (IdleHandled.mk c fired).reset? = some c.time := if_pos ha

theorem reset_fired (ha : c.action ≠ 1) : (IdleHandled.mk c true).reset? = some (c.time + c.took) := if_neg ha

theorem reset_quiet (ha : c.action ≠ 1) : (IdleHandled.mk c false).reset? = none := if_neg ha

/-- The first call is itself a reset, if nothing else is. -/
theorem lastReset_first (x : IdleHandled) : lastReset [x] = some (x.reset?.getD x.call.time) := by
  unfold lastReset
  cases hx : x.reset? with
  | some r => simp [hx]
  | none => simp [hx]

end Call

/-- The first call initialises the static. -/
theorem since_first (mIdleInterval : Dword) (c : IdleCall) :
    Due mIdleInterval [] ⟨c, (idleHandle mIdleInterval none c).2⟩ ∧
      ∃ b, Since mIdleInterval [⟨c, (idleHandle mIdleInterval none c).2⟩] c (idleHandle mIdleInterval none c).1 b := by
  have hzero : getTickCount c.time - getTickCount c.time = 0 := BitVec.sub_self _
  have hnow : c.time - (lastReset []).getD c.time = 0 := Nat.sub_self _
  have hup : mIdleInterval ≤ 0 ↔ mIdleInterval.toNat ≤ 0 := Iff.rfl
  unfold idleHandle
  simp only [Option.getD_none, hzero]
  by_cases ha : c.action = 1
  · rw [if_pos ha]
    refine ⟨.restarted ha, c.time, ?_, rfl, by omega, by omega⟩
    rw [lastReset_first, reset_restarted ha, Option.getD_some]
  rw [if_neg ha]
  by_cases hi : mIdleInterval.toNat ≤ 0
  · rw [if_pos (hup.2 hi)]
    refine ⟨.fired ha (by rw [hnow]; exact hi), c.time + c.took, ?_, rfl, le_rfl, by omega⟩
    rw [lastReset_first, reset_fired ha, Option.getD_some]
  · rw [if_neg (mt hup.1 hi)]
    refine ⟨.quiet (by rw [hnow]; exact hi), c.time, ?_, rfl, by omega, by omega⟩
    rw [lastReset_first, reset_quiet ha, Option.getD_none]

/-- A call that follows the last one calls `idle` exactly if it is due, and leaves the reading of the last reset. -/
theorem since_next {mIdleInterval : Dword} {h : List IdleHandled} {last c : IdleCall} {sBegin : Dword} {b : Nat}
    (hs : Since mIdleInterval h last sBegin b) (hf : Follows mIdleInterval last c) :
    Due mIdleInterval h ⟨c, (idleHandle mIdleInterval (some sBegin) c).2⟩ ∧
      ∃ b', Since mIdleInterval (h ++ [⟨c, (idleHandle mIdleInterval (some sBegin) c).2⟩]) c
        (idleHandle mIdleInterval (some sBegin) c).1 b' := by
  obtain ⟨hb, rfl, hpast, hnear⟩ := hs
  obtain ⟨hafter, hgap⟩ := hf
  -- what has gone by since the last reset fits into the counter
  have hread : (getTickCount c.time - getTickCount b).toNat = c.time - b := since_eq (by omega) (by omega)
  have hup : mIdleInterval ≤ getTickCount c.time - getTickCount b ↔ mIdleInterval.toNat ≤ c.time - b := by
    rw [BitVec.le_def, hread]
  have hgone : c.time - (lastReset h).getD c.time = c.time - b := by rw [hb, Option.getD_some]
  unfold idleHandle
  simp only [Option.getD_some]
  by_cases ha : c.action = 1
  · rw [if_pos ha]
    refine ⟨.restarted ha, c.time, ?_, rfl, by omega, by omega⟩
    rw [lastReset_append hb, reset_restarted ha, Option.getD_some]
  rw [if_neg ha]
  by_cases hi : mIdleInterval.toNat ≤ c.time - b
  · rw [if_pos (hup.2 hi)]
    refine ⟨.fired ha (by rw [hgone]; exact hi), c.time + c.took, ?_, rfl, le_rfl, by omega⟩
    rw [lastReset_append hb, reset_fired ha, Option.getD_some]
  · rw [if_neg (mt hup.1 hi)]
    refine ⟨.quiet (by rw [hgone]; exact hi), b, ?_, rfl, by omega, by omega⟩
    rw [lastReset_append hb, reset_quiet ha, Option.getD_none]

/-! ## Any sequence of calls -/

theorem idleCalls_since {mIdleInterval : Dword} : ∀ {cs : List IdleCall} {h : List IdleHandled} {last : IdleCall}
    {sBegin : Dword} {b : Nat}, Since mIdleInterval h last sBegin b → (last :: cs).IsChain (Follows mIdleInterval) →
    EachAfter (Due mIdleInterval) h → EachAfter (Due mIdleInterval) (h ++ idleCalls mIdleInterval (some sBegin) cs)
  | [], h, _, _, _, _, _, hh => by simpa [idleCalls] using hh
  | c :: cs, h, last, sBegin, b, hs, hc, hh => by
    obtain ⟨hf, hcs⟩ := List.isChain_cons_cons.1 hc
    obtain ⟨hdue, b', hs'⟩ := since_next hs hf
    have := idleCalls_since hs' hcs (hh.concat hdue)
    rwa [List.append_assoc] at this

/-- For every interval and every sequence of calls, at times as large as one likes of which `idle_handle` sees only
what is left modulo 2^32: if the interval and the gap from any call to the next stay below 2^32 together, `idle` is
called exactly by those calls with another action than 1 at which the interval has gone by since the last reset. -/
theorem idleCalls_due {mIdleInterval : Dword} {cs : List IdleCall} (hc : cs.IsChain (Follows mIdleInterval)) :
    EachAfter (Due mIdleInterval) (idleCalls mIdleInterval none cs) := by
  cases cs with
  | nil => exact .nil _
  | cons c cs =>
    obtain ⟨hdue, b, hs⟩ := since_first mIdleInterval c
    exact idleCalls_since hs hc ((EachAfter.nil _).concat hdue)

/-- The counter begins again 96 ms after the first call, and `idle` is called 30 s after it. -/
theorem idleCalls_across_wrap : idleCalls 30000 none
      [⟨0, 4294967200, 0⟩, ⟨0, 4294967300, 0⟩, ⟨0, 4294997199, 0⟩, ⟨0, 4294997200, 5⟩] =
        [⟨⟨0, 4294967200, 0⟩, false⟩, ⟨⟨0, 4294967300, 0⟩, false⟩, ⟨⟨0, 4294997199, 0⟩, false⟩,
          ⟨⟨0, 4294997200, 5⟩, true⟩] ∧
    EachAfter (Due 30000) (idleCalls 30000 none
      [⟨0, 4294967200, 0⟩, ⟨0, 4294967300, 0⟩, ⟨0, 4294997199, 0⟩, ⟨0, 4294997200, 5⟩]) :=
  ⟨by decide, idleCalls_due (by decide)⟩

/-! ## The thread's timer -/

/-- The thread of the executor calls `idle` by this timer, its `action` being what `run` returned. -/
theorem thread_idleHandle {s t : CanThread A api} {now : AnSystemtime} {online : Bool} {e : List (ThreadEvent A)}
    {begin : Nat} (took : Nat) (hb : s.sBegin = some begin) (h : s.idleHandle now online = some (t, e)) :
    .idle s.clock ∈ e ↔
      (idleHandle s.mIdleInterval (some (getTickCount begin)) ⟨s.r, s.clock, took⟩).2 = true := by
  unfold CanThread.idleHandle at h
  rw [hb] at h
  unfold idleHandle
  simp only [Option.getD_some] at h ⊢
  by_cases hr : s.r = 1
  · rw [if_pos hr] at h ⊢
    cases h
    simp
  rw [if_neg hr] at h ⊢
  by_cases hup : s.mIdleInterval ≤ since s.clock begin
  · rw [if_pos hup] at h
    obtain ⟨⟨t', e'⟩, -, h⟩ := Option.map_eq_some_iff.1 h
    cases h
    have hup' : s.mIdleInterval ≤ getTickCount s.clock - getTickCount begin := hup
    simp [hup']
  · rw [if_neg hup] at h
    cases h
    have hup' : ¬ s.mIdleInterval ≤ getTickCount s.clock - getTickCount begin := hup
    simp [hup']

end AnXfs.Server
