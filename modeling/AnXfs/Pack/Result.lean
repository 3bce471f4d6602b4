/-
The messages from the server (`an_xfs_result.h`, `an_xfs_status.h`, `an_xfscim.h`): the result that
every completion and every event travels as, and the structures that a result carries in its
`lpBuffer`, each with its archive field by field in the order of the source.
-/
import AnXfs.Pack.Types

namespace AnXfs.Pack

open AnXfs.Wire

/-! ## Results -/

/-- `_an_systemtime`. -/
structure AnSystemtime where
  wYear : Word
  wMonth : Word
  wDayOfWeek : Word
  wDay : Word
  wHour : Word
  wMinute : Word
  wSecond : Word
  wMilliseconds : Word
  deriving DecidableEq

/-- `an_xfs_result`. Its union `u` is one 32-bit value, written as a command code or as an event id. -/
structure AnXfsResult (A : Arch) where
  requestId : RequestId
  hService : HService
  tsTimestamp : AnSystemtime
  hResult : HResult
  u : Dword
  lpBuffer : StdString A
  hWnd : Dword
  dwMsg : Dword
  deriving DecidableEq

/-- `an_xfs_result()`; `now` is the reading of `GetLocalTime`. -/
def AnXfsResult.new (A : Arch) (now : AnSystemtime) : AnXfsResult A where
  requestId := 0
  hService := 0
  tsTimestamp := now
  hResult := 0
  u := 0
  lpBuffer := StdString.empty A
  hWnd := 0
  dwMsg := 0

def AnSystemtime.codec : Codec AnSystemtime :=
  (word.seq (word.seq (word.seq (word.seq (word.seq (word.seq (word.seq word))))))).iso
    (fun (wYear, wMonth, wDayOfWeek, wDay, wHour, wMinute, wSecond, wMilliseconds) =>
      ⟨wYear, wMonth, wDayOfWeek, wDay, wHour, wMinute, wSecond, wMilliseconds⟩)
    (fun t => (t.wYear, t.wMonth, t.wDayOfWeek, t.wDay, t.wHour, t.wMinute, t.wSecond, t.wMilliseconds))
    (fun _ => rfl) (fun _ => rfl)

def AnXfsResult.codec (A : Arch) : Codec (AnXfsResult A) :=
  (dword.seq (word.seq (AnSystemtime.codec.seq (dword.seq (dword.seq ((stdString A).seq
    (dword.seq dword))))))).iso
    (fun (requestId, hService, tsTimestamp, hResult, u, lpBuffer, hWnd, dwMsg) =>
      ⟨requestId, hService, tsTimestamp, hResult, u, lpBuffer, hWnd, dwMsg⟩)
    (fun r => (r.requestId, r.hService, r.tsTimestamp, r.hResult, r.u, r.lpBuffer, r.hWnd, r.dwMsg))
    (fun _ => rfl) (fun _ => rfl)

/-- `serialize_result<R>`. -/
def serializeResult {R : Type} (f : Codec R) (result : R) : List UInt8 := f.put result

/-- `unserialize_result<R>`; `none` is the exception cereal throws on a short read. -/
def unserializeResult {R : Type} (f : Codec R) (buffer : List UInt8) : Option R := (f.get buffer).map Prod.fst

@[simp] theorem unserializeResult_serializeResult {R : Type} (f : Codec R) (r : R) (s : List UInt8) :
    unserializeResult f (serializeResult f r ++ s) = some r := by
  simp [unserializeResult, serializeResult, f.get_put]

theorem serializeResult_injective {R : Type} (f : Codec R) {r r' : R} (h : serializeResult f r = serializeResult f r') :
    r = r' := by
  have hr := unserializeResult_serializeResult f r []
  rw [h, unserializeResult_serializeResult] at hr
  exact (Option.some.inj hr).symm

/-! ## Payloads -/

/-- `an_crs_position`. -/
structure AnCrsPosition where
  fwPosition : Word
  fwShutter : Word
  fwPositionStatus : Word
  fwTransport : Word
  fwTransportStatus : Word
  fwJammedShutterPosition : Word
  deriving DecidableEq

/-- `AN_POSITION_SIZE`. -/
def anPositionSize : Nat := 3

/-- `an_xfs_status`. -/
structure AnXfsStatus (A : Arch) (api : XfsApi) where
  fwDevice : Word
  fwSafeDoor : Word
  fwDispenser : Word
  fwIntermediateStacker : Word
  lppPositions : List.Vector AnCrsPosition anPositionSize
  lpszExtra : StdString A
  dwGuidLights : List.Vector Dword api.wfsCdmGuidlightsSize
  wDevicePosition : Word
  usPowerSaveRecoveryTime : Word
  wAntiFraudModule : Word
  fwAcceptor : Word
  fwStackerItems : Word
  fwBanknoteReader : Word
  bDropBox : Dword
  wMixedMode : Word

/-- `an_xfs_caps`, in the order of its archive. -/
structure AnXfsCaps (A : Arch) (api : XfsApi) where
  wClass : Word
  fwType : Word
  wMaxDispenseItems : Word
  bCompound : Dword
  bShutter : Dword
  bShutterControl : Dword
  fwRetractAreas : Word
  fwRetractTransportActions : Word
  fwRetractStackerActions : Word
  bSafeDoor : Dword
  bCashBox : Dword
  bIntermediateStacker : Dword
  bItemsTakenSensor : Dword
  fwPositions : Word
  fwMoveItems : Word
  fwExchangeType : Word
  lpszExtra : StdString A
  dwGuidLights : List.Vector Dword api.wfsCimGuidlightsSize
  bPowerSaveControl : Dword
  bPrepareDispense : Dword
  bAntiFraudModule : Dword
  dwItemInfoTypes : Dword
  bBlacklist : Dword
  wMaxCashInItems : Word
  bRefill : Dword
  fwIntermediateStacker : Word
  bItemsInsertedSensor : Dword
  bCompareSignatures : Dword
  bReplenish : Dword
  fwCashInLimit : Word
  fwCountActions : Word
  bDeviceLockControl : Dword
  wMixedMode : Word
  bMixedDepositAndRollback : Dword
  bDeplete : Dword
  lpdwSynchronizableCommands : List.Vector Dword api.wfsCimGuidlightsSize

/-- `an_wfs_cim_position_info`. -/
structure AnWfsCimPositionInfo where
  wPosition : Word
  wAdditionalBunches : Word
  usBunchesRemaining : Word
  deriving DecidableEq

/-- `an_wfs_cim_position_info()`. -/
def AnWfsCimPositionInfo.new (api : XfsApi) : AnWfsCimPositionInfo where
  wPosition := api.wfsCimPosinfront
  wAdditionalBunches := 0
  usBunchesRemaining := 0

/-- `an_wfs_devstatus`. -/
structure AnWfsDevstatus (A : Arch) where
  lpszPhysicalName : StdString A
  lpszWorkstationName : StdString A
  dwState : Dword
  deriving DecidableEq

def AnCrsPosition.codec : Codec AnCrsPosition :=
  (word.seq (word.seq (word.seq (word.seq (word.seq word))))).iso
    (fun (fwPosition, fwShutter, fwPositionStatus, fwTransport, fwTransportStatus, fwJammedShutterPosition) =>
      ⟨fwPosition, fwShutter, fwPositionStatus, fwTransport, fwTransportStatus, fwJammedShutterPosition⟩)
    (fun p => (p.fwPosition, p.fwShutter, p.fwPositionStatus, p.fwTransport, p.fwTransportStatus,
      p.fwJammedShutterPosition))
    (fun _ => rfl) (fun _ => rfl)

def AnXfsStatus.codec (A : Arch) (api : XfsApi) : Codec (AnXfsStatus A api) :=
  (word.seq (word.seq (word.seq (word.seq ((AnCrsPosition.codec.vec anPositionSize).seq ((stdString A).seq
    ((dword.vec api.wfsCdmGuidlightsSize).seq (word.seq (word.seq (word.seq (word.seq (word.seq (word.seq
      (dword.seq word)))))))))))))).iso
    (fun (fwDevice, fwSafeDoor, fwDispenser, fwIntermediateStacker, lppPositions, lpszExtra, dwGuidLights,
        wDevicePosition, usPowerSaveRecoveryTime, wAntiFraudModule, fwAcceptor, fwStackerItems, fwBanknoteReader,
        bDropBox, wMixedMode) =>
      ⟨fwDevice, fwSafeDoor, fwDispenser, fwIntermediateStacker, lppPositions, lpszExtra, dwGuidLights,
        wDevicePosition, usPowerSaveRecoveryTime, wAntiFraudModule, fwAcceptor, fwStackerItems, fwBanknoteReader,
        bDropBox, wMixedMode⟩)
    (fun s => (s.fwDevice, s.fwSafeDoor, s.fwDispenser, s.fwIntermediateStacker, s.lppPositions, s.lpszExtra,
      s.dwGuidLights, s.wDevicePosition, s.usPowerSaveRecoveryTime, s.wAntiFraudModule, s.fwAcceptor,
      s.fwStackerItems, s.fwBanknoteReader, s.bDropBox, s.wMixedMode))
    (fun _ => rfl) (fun _ => rfl)

def AnXfsCaps.codec (A : Arch) (api : XfsApi) : Codec (AnXfsCaps A api) :=
  (word.seq (word.seq (word.seq (dword.seq (dword.seq (dword.seq (word.seq (word.seq (word.seq (dword.seq
    (dword.seq (dword.seq (dword.seq (word.seq (word.seq (word.seq ((stdString A).seq
    ((dword.vec api.wfsCimGuidlightsSize).seq (dword.seq (dword.seq (dword.seq (dword.seq (dword.seq (word.seq
    (dword.seq (word.seq (dword.seq (dword.seq (dword.seq (word.seq (word.seq (dword.seq (word.seq (dword.seq
    (dword.seq (dword.vec api.wfsCimGuidlightsSize)))))))))))))))))))))))))))))))))))).iso
    (fun (wClass, fwType, wMaxDispenseItems, bCompound, bShutter, bShutterControl, fwRetractAreas,
        fwRetractTransportActions, fwRetractStackerActions, bSafeDoor, bCashBox, bIntermediateStacker,
        bItemsTakenSensor, fwPositions, fwMoveItems, fwExchangeType, lpszExtra, dwGuidLights, bPowerSaveControl,
        bPrepareDispense, bAntiFraudModule, dwItemInfoTypes, bBlacklist, wMaxCashInItems, bRefill,
        fwIntermediateStacker, bItemsInsertedSensor, bCompareSignatures, bReplenish, fwCashInLimit,
        fwCountActions, bDeviceLockControl, wMixedMode, bMixedDepositAndRollback, bDeplete,
        lpdwSynchronizableCommands) =>
      ⟨wClass, fwType, wMaxDispenseItems, bCompound, bShutter, bShutterControl, fwRetractAreas,
        fwRetractTransportActions, fwRetractStackerActions, bSafeDoor, bCashBox, bIntermediateStacker,
        bItemsTakenSensor, fwPositions, fwMoveItems, fwExchangeType, lpszExtra, dwGuidLights, bPowerSaveControl,
        bPrepareDispense, bAntiFraudModule, dwItemInfoTypes, bBlacklist, wMaxCashInItems, bRefill,
        fwIntermediateStacker, bItemsInsertedSensor, bCompareSignatures, bReplenish, fwCashInLimit,
        fwCountActions, bDeviceLockControl, wMixedMode, bMixedDepositAndRollback, bDeplete,
        lpdwSynchronizableCommands⟩)
    (fun c => (c.wClass, c.fwType, c.wMaxDispenseItems, c.bCompound, c.bShutter, c.bShutterControl,
      c.fwRetractAreas, c.fwRetractTransportActions, c.fwRetractStackerActions, c.bSafeDoor, c.bCashBox,
      c.bIntermediateStacker, c.bItemsTakenSensor, c.fwPositions, c.fwMoveItems, c.fwExchangeType, c.lpszExtra,
      c.dwGuidLights, c.bPowerSaveControl, c.bPrepareDispense, c.bAntiFraudModule, c.dwItemInfoTypes,
      c.bBlacklist, c.wMaxCashInItems, c.bRefill, c.fwIntermediateStacker, c.bItemsInsertedSensor,
      c.bCompareSignatures, c.bReplenish, c.fwCashInLimit, c.fwCountActions, c.bDeviceLockControl, c.wMixedMode,
      c.bMixedDepositAndRollback, c.bDeplete, c.lpdwSynchronizableCommands))
    (fun _ => rfl) (fun _ => rfl)

def AnWfsCimPositionInfo.codec : Codec AnWfsCimPositionInfo :=
  (word.seq (word.seq word)).iso
    (fun (wPosition, wAdditionalBunches, usBunchesRemaining) => ⟨wPosition, wAdditionalBunches, usBunchesRemaining⟩)
    (fun p => (p.wPosition, p.wAdditionalBunches, p.usBunchesRemaining)) (fun _ => rfl) (fun _ => rfl)

def AnWfsDevstatus.codec (A : Arch) : Codec (AnWfsDevstatus A) :=
  ((stdString A).seq ((stdString A).seq dword)).iso
    (fun (lpszPhysicalName, lpszWorkstationName, dwState) => ⟨lpszPhysicalName, lpszWorkstationName, dwState⟩)
    (fun d => (d.lpszPhysicalName, d.lpszWorkstationName, d.dwState)) (fun _ => rfl) (fun _ => rfl)

/-! ## Payloads in a result -/

/-- A value whose archive is short enough to be the `lpBuffer` of a result. -/
structure Held (A : Arch) {T : Type} (f : Codec T) where
  val : T
  fits : (serializeResult f val).length < 2 ^ (8 * A.sizeofSizeT)

/-- The archive of a value as the `std::string` that `lpBuffer` is set to. -/
def Held.buffer {A : Arch} {T : Type} {f : Codec T} (p : Held A f) : StdString A :=
  ⟨serializeResult f p.val, p.fits⟩

end AnXfs.Pack
