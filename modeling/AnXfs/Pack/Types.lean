/-
The machine types of the three components and the constants of the XFS SDK they are compiled
against. The SDK headers are not part of the repository, so its constants enter as the fields of
`XfsApi`, with the facts the sources rely on: the labels of each `switch` are pairwise distinct
(otherwise it would not compile), and `if (hr)` tells `WFS_SUCCESS` from the error codes returned
there.
-/
import AnXfs.Wire.Codec

namespace AnXfs.Pack

open AnXfs.Wire

/-! ## Machine types -/

/-- The two platforms of the solution. -/
inductive Arch where
  | x86
  | x64
  deriving DecidableEq

/-- `sizeof(size_t)`. -/
def Arch.sizeofSizeT : Arch → Nat
  | .x86 => 4
  | .x64 => 8

theorem Arch.sizeofSizeT_le (A : Arch) : A.sizeofSizeT ≤ 8 := by cases A <;> decide

abbrev Word := BitVec 16
abbrev Dword := BitVec 32
abbrev HService := BitVec 16
abbrev RequestId := BitVec 32
abbrev HResult := BitVec 32
abbrev SizeT (A : Arch) := BitVec (8 * A.sizeofSizeT)

/-- A `std::string`: its length is a `size_t`. -/
abbrev StdString (A : Arch) := Blob A.sizeofSizeT

/-- A byte string of fewer than 256 bytes is a `std::string` on either platform. -/
def StdString.ofShort (A : Arch) (b : List UInt8) (h : b.length < 256) : StdString A :=
  ⟨b, by cases A <;> exact lt_of_lt_of_le h (by decide)⟩

def StdString.empty (A : Arch) : StdString A := StdString.ofShort A [] (by decide)

/-- The bytes of a string literal. -/
def ascii (s : String) : List UInt8 := s.toList.map fun c => UInt8.ofNat c.toNat

/-! ## Archives of the machine types -/

def word : Codec Word := Codec.word 2
def dword : Codec Dword := Codec.word 4
def sizeT (A : Arch) : Codec (SizeT A) := Codec.word A.sizeofSizeT
def stdString (A : Arch) : Codec (StdString A) := Codec.blob A.sizeofSizeT A.sizeofSizeT_le

/-! ## The XFS SDK -/

/-- The constants of `XFSAPI.H` and `XFSCIM.H` that the modelled functions use. -/
structure XfsApi where
  wfsSuccess : HResult
  wfsErrServiceNotFound : HResult
  wfsErrConnectionLost : HResult
  wfsErrUnsuppCategory : HResult
  wfsErrSpiVerTooHigh : HResult
  wfsErrSpiVerTooLow : HResult
  wfsErrSrvcVerTooHigh : HResult
  wfsErrSrvcVerTooLow : HResult
  wfsOpenComplete : Dword
  wfsCloseComplete : Dword
  wfsLockComplete : Dword
  wfsUnlockComplete : Dword
  wfsRegisterComplete : Dword
  wfsDeregisterComplete : Dword
  wfsGetinfoComplete : Dword
  wfsExecuteComplete : Dword
  wfsExecuteEvent : Dword
  wfsServiceEvent : Dword
  wfsUserEvent : Dword
  wfsSystemEvent : Dword
  serviceEvents : Dword
  userEvents : Dword
  systemEvents : Dword
  executeEvents : Dword
  wfsInfCimStatus : Dword
  wfsInfCimCapabilities : Dword
  wfsCmdCimCashInStart : Dword
  wfsCmdCimCashIn : Dword
  wfsSrveCimItemstaken : Dword
  wfsSyseDeviceStatus : Dword
  wfsCimPosinfront : Word
  wfsStatDevonline : Dword
  wfsStatDevoffline : Dword
  wfsCimGuidlightsSize : Nat
  wfsCdmGuidlightsSize : Nat
  success_eq : wfsSuccess = 0
  notFound_ne : wfsErrServiceNotFound ≠ 0
  connectionLost_ne : wfsErrConnectionLost ≠ 0
  /-- The labels of the `switch` in `an_get_xfsmessage_class`. -/
  messages_nodup : [wfsOpenComplete, wfsCloseComplete, wfsLockComplete, wfsUnlockComplete, wfsRegisterComplete,
    wfsDeregisterComplete, wfsGetinfoComplete, wfsExecuteComplete, wfsExecuteEvent, wfsServiceEvent,
    wfsUserEvent, wfsSystemEvent].Nodup
  /-- The labels of the `switch` in `xfs_result_handler`. -/
  classes_nodup : [0, serviceEvents, systemEvents, executeEvents, userEvents].Nodup
  /-- The labels of the `switch` in `spi_getinfo`. -/
  categories_nodup : [wfsInfCimCapabilities, wfsInfCimStatus].Nodup
  /-- The keys of `event_handler_table_`. -/
  events_nodup : [wfsSyseDeviceStatus, wfsSrveCimItemstaken].Nodup
  /-- The labels of the `switch` in `WFPExecute`. -/
  commands_nodup : [wfsCmdCimCashInStart, wfsCmdCimCashIn].Nodup

/-- The values the SDK documents (`WM_USER` is `0x400`, the CIM offset 1300). -/
def XfsApi.documented : XfsApi where
  wfsSuccess := 0
  wfsErrServiceNotFound := -43
  wfsErrConnectionLost := -54
  wfsErrUnsuppCategory := -49
  wfsErrSpiVerTooHigh := -44
  wfsErrSpiVerTooLow := -45
  wfsErrSrvcVerTooHigh := -46
  wfsErrSrvcVerTooLow := -47
  wfsOpenComplete := 0x401
  wfsCloseComplete := 0x402
  wfsLockComplete := 0x403
  wfsUnlockComplete := 0x404
  wfsRegisterComplete := 0x405
  wfsDeregisterComplete := 0x406
  wfsGetinfoComplete := 0x407
  wfsExecuteComplete := 0x408
  wfsExecuteEvent := 0x414
  wfsServiceEvent := 0x415
  wfsUserEvent := 0x416
  wfsSystemEvent := 0x417
  serviceEvents := 1
  userEvents := 2
  systemEvents := 4
  executeEvents := 8
  wfsInfCimStatus := 1301
  wfsInfCimCapabilities := 1302
  wfsCmdCimCashInStart := 1301
  wfsCmdCimCashIn := 1302
  wfsSrveCimItemstaken := 1307
  wfsSyseDeviceStatus := 4
  wfsCimPosinfront := 0x0020
  wfsStatDevonline := 0
  wfsStatDevoffline := 1
  wfsCimGuidlightsSize := 32
  wfsCdmGuidlightsSize := 32
  success_eq := rfl
  notFound_ne := by decide
  connectionLost_ne := by decide
  messages_nodup := by decide
  classes_nodup := by decide
  categories_nodup := by decide
  events_nodup := by decide
  commands_nodup := by decide

end AnXfs.Pack
