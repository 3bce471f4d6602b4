/-
Results with a payload: the archive of one of four structures is the `lpBuffer` of a result, a byte
string inside an archive of its own. Both levels are self-delimiting, so that the fields behind the
buffer are found whatever bytes it holds, and the payload whatever follows the result.
-/
import AnXfs.Pack.Result

namespace AnXfs.Pack

open AnXfs.Wire

variable {A : Arch} {api : XfsApi}

/-- The structures that travel in a result. -/
inductive Payload where
  | anXfsCaps
  | anXfsStatus
  | anWfsDevstatus
  | anWfsCimPositionInfo
  deriving DecidableEq

/-- The values of a structure. -/
def Payload.Of (A : Arch) (api : XfsApi) : Payload → Type
  | .anXfsCaps => AnXfsCaps A api
  | .anXfsStatus => AnXfsStatus A api
  | .anWfsDevstatus => AnWfsDevstatus A
  | .anWfsCimPositionInfo => AnWfsCimPositionInfo

def Payload.codec (A : Arch) (api : XfsApi) : (t : Payload) → Codec (t.Of A api)
  | .anXfsCaps => AnXfsCaps.codec A api
  | .anXfsStatus => AnXfsStatus.codec A api
  | .anWfsDevstatus => AnWfsDevstatus.codec A
  | .anWfsCimPositionInfo => AnWfsCimPositionInfo.codec

/-- `u.dwCommandCode` and `u.dwEventID` name the same 32 bits; the archive goes through the first. -/
def AnXfsResult.dwCommandCode (r : AnXfsResult A) : Dword := r.u

def AnXfsResult.dwEventId (r : AnXfsResult A) : Dword := r.u

/-- What a receiver reads of a result with a payload, both in the bytes that arrive. -/
theorem unserializeResult_nested {T : Type} {f : Codec T} {p : T} {r r' : AnXfsResult A} {s : List UInt8}
    (hp : r.lpBuffer.bytes = serializeResult f p)
    (hr : unserializeResult (AnXfsResult.codec A) (serializeResult (AnXfsResult.codec A) r ++ s) = some r') :
    r' = r ∧ unserializeResult f r'.lpBuffer.bytes = some p := by
  rw [unserializeResult_serializeResult] at hr
  have hrr : r' = r := (Option.some.inj hr).symm
  refine ⟨hrr, ?_⟩
  have := unserializeResult_serializeResult f p []
  rwa [List.append_nil, ← hp, ← hrr] at this

/-- For every result whose buffer is the archive of a payload, and every bytes after it: the result is read back,
its code through either member of the union, and from its buffer the payload. -/
theorem payload_round_trip (t : Payload) (p : t.Of A api) (r : AnXfsResult A)
    (hp : r.lpBuffer.bytes = serializeResult (t.codec A api) p) (s : List UInt8) :
    ∃ r', unserializeResult (AnXfsResult.codec A) (serializeResult (AnXfsResult.codec A) r ++ s) = some r' ∧
      r' = r ∧ (r'.dwCommandCode = r.dwCommandCode ∧ r'.dwEventId = r.dwCommandCode ∧
        r'.dwCommandCode = r.dwEventId ∧ r'.dwEventId = r.dwEventId) ∧
      unserializeResult (t.codec A api) r'.lpBuffer.bytes = some p := by
  have hr := unserializeResult_serializeResult (AnXfsResult.codec A) r s
  obtain ⟨-, hbuf⟩ := unserializeResult_nested hp hr
  exact ⟨r, hr, rfl, ⟨rfl, rfl, rfl, rfl⟩, hbuf⟩

/-- A device status whose first name holds a NUL. -/
def offline : AnWfsDevstatus .x86 :=
  ⟨StdString.ofShort _ [65, 0, 66] (by decide), .empty _, 1⟩

/-- The event that carries it, with two bytes behind. -/
theorem offline_round_trip : ∃ r',
    unserializeResult (AnXfsResult.codec .x86) (serializeResult (AnXfsResult.codec .x86)
      ⟨0, 0, ⟨0, 0, 0, 0, 0, 0, 0, 0⟩, 0, 4,
        StdString.ofShort _ (serializeResult (AnWfsDevstatus.codec .x86) offline) (by decide), 0, 0x417⟩ ++ [7, 7]) =
        some r' ∧ r'.dwMsg = 0x417 ∧
      unserializeResult (AnWfsDevstatus.codec .x86) r'.lpBuffer.bytes = some offline := by
  obtain ⟨r', hr, hrr, -, hp⟩ := @payload_round_trip .x86 .documented .anWfsDevstatus offline
    ⟨0, 0, ⟨0, 0, 0, 0, 0, 0, 0, 0⟩, 0, 4,
      StdString.ofShort _ (serializeResult (AnWfsDevstatus.codec .x86) offline) (by decide), 0, 0x417⟩ rfl [7, 7]
  exact ⟨r', hr, by rw [hrr], hp⟩

end AnXfs.Pack
