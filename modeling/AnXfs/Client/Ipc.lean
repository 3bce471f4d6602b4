/-
The client's end of the pipe (`CanIPC.cpp`): writes that libuv accepts go onto the wire in order, and
`on_read` hands one result per chunk to the callback that was registered. libuv is assumed to report no
read on a pipe that is closing.
-/
import AnXfs.Pack.Builder
import AnXfs.Pack.Result
import AnXfs.Run.Machine
import AnXfs.Wire.Framing

namespace AnXfs.Client

open AnXfs.Wire AnXfs.Pack AnXfs.Run

variable {A : Arch}

/-! ## State -/

/-- `CanIPC`, connected: `active` is `uv_is_active` of `m_pipe`, `resultCb` says that `m_result_cb` is set,
`wire` lists the buffers that `uv_write` has accepted. -/
structure CanIPC where
  active : Bool
  closing : Bool
  resultCb : Bool
  wire : List (List UInt8)
  fault : Option Fault

/-- The client once `on_connect` has reported success, with the callback registered by `anpc_create_ipc`. -/
def CanIPC.connected : CanIPC where
  active := true
  closing := false
  resultCb := true
  wire := []
  fault := none

inductive IpcEvent (A : Arch) where
  | read (chunk : List UInt8)
  | result (r : AnXfsResult A)
  | freed
  | fault (f : Fault)
  deriving DecidableEq

namespace CanIPC

variable (s : CanIPC)

/-- `CanIPC::write`; `uvWrite` is what `uv_write` returns. -/
def write (data : List UInt8) (uvWrite : Int) : CanIPC × Int :=
  if s.active then
    if uvWrite = 0 then ({ s with wire := s.wire ++ [data] }, 0) else (s, uvWrite)
  else (s, 1)

/-- `CanIPC::on_read` of a chunk. -/
def onRead (A : Arch) (chunk : List UInt8) : CanIPC × List (IpcEvent A) :=
  match (AnXfsResult.codec A).get chunk with
  | none => ({ s with fault := some .exception }, [.read chunk, .fault .exception])
  | some (result, _) => (s, .read chunk :: (if s.resultCb then [.result result] else []) ++ [.freed])

/-- `CanIPC::on_read` of an error, of the end of the stream or of nothing. -/
def onReadEnd (A : Arch) : CanIPC × List (IpcEvent A) :=
  if s.closing then (s, [.freed]) else ({ s with active := false, closing := true }, [.freed])

end CanIPC

/-! ## The machine -/

inductive IpcInput where
  | write (data : List UInt8) (uvWrite : Int)
  | read (chunk : List UInt8)
  | readEnd

def CanIPC.step (A : Arch) (s : CanIPC) (i : IpcInput) : Option (CanIPC × List (IpcEvent A)) :=
  if s.fault ≠ none then none else
  match i with
  | .write data uvWrite => some ((s.write data uvWrite).1, [])
  | .read chunk => if s.closing = false ∧ chunk ≠ [] then some (s.onRead A chunk) else none
  | .readEnd => some (s.onReadEnd A)

def ipcMachine (A : Arch) : Machine CanIPC IpcInput (IpcEvent A) where
  step := CanIPC.step A

/-! ## What was read -/

def chunksOf (h : List (IpcEvent A)) : List (List UInt8) :=
  h.filterMap fun
    | .read chunk => some chunk
    | _ => none

def resultsOf (h : List (IpcEvent A)) : List (AnXfsResult A) :=
  h.filterMap fun
    | .result r => some r
    | _ => none

/-- An exception has left the callback. -/
def Threw (h : List (IpcEvent A)) : Prop := ∃ f, IpcEvent.fault f ∈ h

/-- What the client has read so far. -/
structure ClientReads (h : List (IpcEvent A)) (s : CanIPC) : Prop where
  reader : Reader (AnXfsResult.codec A).get (chunksOf h) (resultsOf h) (Threw h)
  callback : s.resultCb = true
  thrown : Threw h → s.fault ≠ none

theorem threw_append (g h : List (IpcEvent A)) : Threw (g ++ h) ↔ Threw g ∨ Threw h := by
  simp [Threw, exists_or]

/-- A step that reads nothing. -/
theorem ClientReads.quiet {h : List (IpcEvent A)} {s t : CanIPC} {e : List (IpcEvent A)} (hs : ClientReads h s)
    (hf : s.fault = none) (hc : chunksOf e = []) (hr : resultsOf e = []) (ht : ¬ Threw e)
    (hcb : t.resultCb = s.resultCb) :
    ClientReads (h ++ e) t := by
  have hthrew : Threw (h ++ e) ↔ Threw h := by
    rw [threw_append]
    constructor
    · rintro (h | h)
      · exact h
      · exact absurd h ht
    · exact .inl
  refine ⟨?_, hcb.trans hs.callback, fun hth => absurd hf (hs.thrown (hthrew.1 hth))⟩
  unfold chunksOf resultsOf at *
  rw [List.filterMap_append, List.filterMap_append, hc, hr, List.append_nil, List.append_nil]
  exact hs.reader.congr hthrew

theorem clientReads_step {h : List (IpcEvent A)} {s t : CanIPC} {i : IpcInput} {e : List (IpcEvent A)}
    (hs : ClientReads h s) (hstep : (ipcMachine A).step s i = some (t, e)) : ClientReads (h ++ e) t := by
  simp only [ipcMachine, CanIPC.step] at hstep
  split at hstep
  · cases hstep
  rename_i hf
  have hf : s.fault = none := not_not.1 hf
  have hnot : ¬ Threw h := fun hth => hs.thrown hth hf
  cases i with
  | write data uvWrite =>
    cases hstep
    refine hs.quiet hf rfl rfl (by simp [Threw]) ?_
    unfold CanIPC.write
    split
    · split <;> rfl
    · rfl
  | readEnd =>
    simp only [CanIPC.onReadEnd] at hstep
    split at hstep <;> cases hstep <;> exact hs.quiet hf rfl rfl (by simp [Threw]) rfl
  | read chunk =>
    simp only at hstep
    split at hstep
    swap
    · cases hstep
    simp only [CanIPC.onRead] at hstep
    split at hstep
    · rename_i hget
      cases hstep
      have hthrew : Threw (h ++ [.read chunk, .fault .exception]) := ⟨.exception, by simp⟩
      refine ⟨?_, hs.callback, fun _ => by simp⟩
      have hc : chunksOf (h ++ [.read chunk, .fault .exception]) = chunksOf h ++ [chunk] := List.filterMap_append ..
      have hr : resultsOf (h ++ [.read chunk, .fault .exception]) = resultsOf h :=
        (List.filterMap_append ..).trans (List.append_nil _)
      rw [hc, hr]
      exact hs.reader.stop hnot hget hthrew
    · rename_i r rest hget
      rw [hs.callback] at hstep
      cases hstep
      have hthrew : Threw (h ++ [.read chunk, .result r, .freed]) ↔ Threw h := by
        simp [Threw]
      refine ⟨?_, hs.callback, fun hth => absurd (hthrew.1 hth) hnot⟩
      have hc : chunksOf (h ++ [.read chunk, .result r, .freed]) = chunksOf h ++ [chunk] := List.filterMap_append ..
      have hr : resultsOf (h ++ [.read chunk, .result r, .freed]) = resultsOf h ++ [r] := List.filterMap_append ..
      show Reader _ (chunksOf (h ++ [.read chunk, .result r, .freed]))
        (resultsOf (h ++ [.read chunk, .result r, .freed])) _
      rw [hc, hr]
      exact (hs.reader.read hnot hget).congr hthrew

/-- In every run of the client its callback was handed one result per chunk, up to a chunk that did not
decode. -/
theorem clientReads_run {is : List IpcInput} {s : CanIPC} {es : List (IpcEvent A)}
    (hr : (ipcMachine A).run CanIPC.connected is = some (s, es)) : ClientReads es s := by
  refine Machine.run_always (I := ClientReads) (fun h s i t e hi hs => clientReads_step hi hs) ?_ hr
  refine ⟨(Reader.nil _).congr ?_, rfl, ?_⟩
  · simp [Threw]
  · simp [Threw]

end AnXfs.Client
