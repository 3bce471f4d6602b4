/-
Who owns the mutexes of the client. A thread of an application takes `g_mtx` before `g_mutex` or `mtx_`, gives
the second back before it takes another, and `anpc_stop` and the worker take one only; in every run a mutex
is owned by the thread that holds it and by no other.
-/
import AnXfs.System.Threads

namespace AnXfs.System

open AnXfs.Run AnXfs.Pack AnXfs.Client

variable {A : Arch} {api : XfsApi}


namespace Threads

/-- The mutexes that a thread holds. -/
def holds (s : Threads A) : Tid → Mutex → Prop
  | .app t, k => k ∈ (s.app t).holds
  | .worker, k => k = .mtx ∧ ∃ h ∈ s.handler, h.locked = true

/-- The mutexes are owned by the threads that hold them. -/
def Locked (s : Threads A) : Prop := Held s.owner s.holds

variable {s : Threads A} {t : Nat} {pc : AppPc} {k : Mutex}

theorem holds_setApp_of_ne {u : Tid} (hu : u ≠ .app t) (l : Mutex) : (s.setApp t pc).holds u l ↔ s.holds u l := by
  cases u with
  | worker => exact Iff.rfl
  | app u =>
    have hne : u ≠ t := fun h => hu (congrArg Tid.app h)
    simp only [holds, setApp, Function.update_of_ne hne]

theorem holds_setApp_self (l : Mutex) : (s.setApp t pc).holds (.app t) l ↔ l ∈ pc.holds := by
  simp only [holds, setApp, Function.update_self]

theorem Locked.stays (hs : s.Locked) (hpc : ∀ l, l ∈ pc.holds ↔ l ∈ (s.app t).holds) : (s.setApp t pc).Locked := by
  refine Held.same (H := s.holds) hs fun u l => ?_
  by_cases hu : u = .app t
  · rw [hu, holds_setApp_self, hpc l]
    rfl
  · exact holds_setApp_of_ne hu l

theorem Locked.takes (hs : s.Locked) (hk : s.owner k = none) (hpc : ∀ l, l ∈ pc.holds ↔ l = k ∨ l ∈ (s.app t).holds) :
    ((s.take k (.app t)).setApp t pc).Locked := by
  refine Held.acquire (H := s.holds) hs hk (fun l => ?_) fun u hu l => holds_setApp_of_ne hu l
  exact (holds_setApp_self l).trans (hpc l)

theorem Locked.gives (hs : s.Locked) (hk : k ∈ (s.app t).holds)
    (hpc : ∀ l, l ∈ pc.holds ↔ l ≠ k ∧ l ∈ (s.app t).holds) : ((s.give k).setApp t pc).Locked := by
  refine Held.release (H := s.holds) (t := .app t) hs hk (fun l => ?_) fun u hu l => holds_setApp_of_ne hu l
  exact (holds_setApp_self l).trans (hpc l)

theorem awaits_holds {pc pc' : AppPc} (h : pc.awaits = some (k, pc')) (l : Mutex) :
    l ∈ pc'.holds ↔ l = k ∨ l ∈ pc.holds := by
  cases pc with
  | calls e => cases e <;> cases h <;> simp [AppPc.holds]
  | wants c p =>
    cases h
    simp [AppPc.holds, or_comm]
  | out | unloads | entered | has | leaves | stops => cases h

theorem afterService_holds (api : XfsApi) (env : AppEnv) (c : SpiCall) (hr : HResult) :
    (afterService A api env c hr).holds = [.gMtx] := by
  unfold afterService
  split
  · rfl
  · split <;> rfl

theorem afterRun_holds (c : SpiCall) (hr : HResult) (cmd : List UInt8) (r : Int) :
    (afterRun c hr cmd r).holds = [.gMtx] := by
  unfold afterRun
  split <;> rfl

theorem afterSend_holds (api : XfsApi) (c : SpiCall) (hr : HResult) (r : Int) :
    (afterSend api c hr r).holds = [.gMtx] := by
  unfold afterSend
  split
  · rfl
  · split <;> rfl

/-- A thread that is done with a piece keeps `g_mtx`. -/
theorem Locked.givesPiece (hs : s.Locked) {c : SpiCall} {p : Piece} (hp : s.app t = .has c p)
    (hpc : pc.holds = [.gMtx]) : ((s.give p.mutex).setApp t pc).Locked := by
  refine hs.gives ?_ fun l => ?_
  · rw [hp]
    simp [AppPc.holds]
  · rw [hp, hpc]
    have hne : p.mutex ≠ .gMtx := by cases p <;> simp [Piece.mutex]
    simp only [AppPc.holds, List.mem_cons, List.not_mem_nil, or_false]
    constructor
    · rintro rfl
      exact ⟨hne.symm, .inl rfl⟩
    · rintro ⟨hl, h | h⟩
      · exact h
      · exact absurd h hl

theorem Locked.givesLast (hs : s.Locked) (hp : (s.app t).holds = [k]) : ((s.give k).setApp t .out).Locked := by
  refine hs.gives ?_ fun l => ?_
  · rw [hp]
    exact List.mem_singleton_self k
  · rw [hp]
    simp [AppPc.holds]

theorem Locked.app (hs : s.Locked) {env : AppEnv} {s' : Threads A} {e : List (SpiEvent A api)}
    (hm : AppMoved api s t env s' e) : s'.Locked := by
  cases hm with
  | takes k pc hw hk => exact hs.takes hk (awaits_holds hw)
  | unloaded hp => exact hs.givesLast (by rw [hp]; rfl)
  | refused c hp hv => exact hs.stays fun l => by rw [hp]; rfl
  | goesOn c hp hv => exact hs.stays fun l => by rw [hp]; rfl
  | looked c hp =>
    exact Locked.givesPiece (s := s.setGlobals _) (p := .service) hs hp (afterService_holds api env c _)
  | runs c hr cmd inside conn e' hp hc hran =>
    refine Locked.stays (s := (s.setGlobals _).setConn conn) hs fun l => ?_
    show _ ↔ l ∈ (s.app t).holds
    rw [hp]
    rfl
  | ran c hr cmd inside conn e' r hp hc hran =>
    exact Locked.givesPiece (s := (s.setGlobals _).setConn conn) (p := .anpcCreateIpc hr cmd inside) hs hp
      (afterRun_holds c hr cmd r)
  | allocated c hr cmd hp => exact hs.givesPiece (p := .anpcMalloc hr cmd) hp rfl
  | unconnected c hr cmd hp hg => exact hs.givesPiece hp (afterSend_holds api c hr 0)
  | inactive c hr cmd hp hg => exact hs.givesPiece hp (afterSend_holds api c hr 1)
  | active c hr cmd hp hg => exact hs.stays fun l => by rw [hp]; rfl
  | sent c hr cmd hp =>
    exact Locked.givesPiece (s := s.setGlobals _) (p := .anpcSendCmd hr cmd .uvAsyncSend) hs hp
      (afterSend_holds api c hr 0)
  | unsent c hr cmd r hp hr0 => exact hs.givesPiece hp (afterSend_holds api c hr r)
  | closed c hr hp => exact hs.givesPiece hp rfl
  | left c hr hp => exact hs.givesLast (by rw [hp]; rfl)
  | stopsNothing bforce inside hp hg => exact hs.givesLast (by rw [hp]; rfl)
  | stopped bforce inside conn e' hp hc he =>
    refine Locked.givesLast (s := s.setConn conn) hs ?_
    show (s.app t).holds = _
    rw [hp]
    rfl
  | stops bforce inside conn e' hp hc he =>
    refine Locked.stays (s := s.setConn conn) hs fun l => ?_
    show _ ↔ l ∈ (s.app t).holds
    rw [hp]
    rfl

/-- The worker holds `mtx_` or nothing. -/
theorem holds_worker {h : Handler A} (hh : s.handler = some h) (l : Mutex) :
    s.holds .worker l ↔ l = .mtx ∧ h.locked = true := by
  simp [holds, hh]

theorem Locked.handler (hs : s.Locked) {h : Handler A} (hh : s.handler = some h) {s' : Threads A}
    {e : List (SpiEvent A api)} (hm : HandlerMoved api s h s' e) : s'.Locked := by
  have hother : ∀ {s' : Threads A}, s'.app = s.app → ∀ u, u ≠ .worker → ∀ l, s'.holds u l ↔ s.holds u l := by
    intro s' happ u hu l
    cases u with
    | worker => exact absurd rfl hu
    | app u =>
      simp only [holds]
      rw [happ]
  cases hm with
  | takes hl ho =>
    refine Held.acquire (H := s.holds) hs ho (fun l => ?_) (hother rfl)
    rw [holds_worker rfl, holds_worker hh, hl]
    simp
  | throws f hl hclass hf => exact hs
  | closes hl hclass =>
    refine Held.release (H := s.holds) (t := .worker) hs ((holds_worker hh _).2 ⟨rfl, hl⟩) (fun l => ?_) (hother rfl)
    rw [holds_worker hh, hl]
    simp [holds, setGlobals]
  | sends posts hl hclass hposts =>
    refine Held.release (H := s.holds) (t := .worker) hs ((holds_worker hh _).2 ⟨rfl, hl⟩) (fun l => ?_) (hother rfl)
    rw [holds_worker hh, hl]
    simp [holds]

theorem Locked.read (hs : s.Locked) (hh : s.handler = none) {chunk : List UInt8} {mem : Bool} {s' : Threads A}
    {e : List (SpiEvent A api)} (hm : ReadMoved api s chunk mem s' e) : s'.Locked := by
  -- a handler that has not got the mutex holds none
  have hwaits : ∀ r : AnXfsResult A, Locked { s with handler := some ⟨chunk, mem, r, false⟩ } := by
    intro r
    refine Held.same (H := s.holds) hs fun u l => ?_
    cases u with
    | app u => exact Iff.rfl
    | worker => simp [holds, hh]
  cases hm with
  | throws | throwsLater | unheard | completes | ignored => exact hs
  | closes r | occurs r => exact hwaits r

theorem Locked.step (hs : s.Locked) {i : ThreadsInput} {s' : Threads A} {e : List (SpiEvent A api)}
    (hstep : (threadsMachine A api).step s i = some (s', e)) : s'.Locked := by
  obtain ⟨-, -, hm⟩ := threads_moved hstep
  cases hm with
  | called t entry hp => exact hs.stays fun l => by rw [hp]; rfl
  | app hm => exact hs.app hm
  | worked | wrote => exact hs
  | read hpc hh hm => exact hs.read hh hm
  | handled hh hm => exact hs.handler hh hm

theorem locked_new (A : Arch) : (Threads.new A).Locked := by
  intro k t
  cases t with
  | app t => simp [new, holds, AppPc.holds]
  | worker => simp [new, holds]

end Threads

end AnXfs.System
