/-
What `getinfo_handler` hands to the application. The payload of a GetInfo is copied field by field into
a structure of the SDK, with the strings and arrays that it points to in memory of their own. The lists
in that memory are read up to a terminator, which the server's string brings along, and which the
zeroed memory provides for the positions. `getinfo_delivers_iff` compares what the server holds with
what the application reads: the list of synchronizable commands is left out of the copy.
-/
import AnXfs.Data.CMemory
import AnXfs.Client.Handler
import AnXfs.Server.Commander

namespace AnXfs.Client

open AnXfs.Wire AnXfs.Pack AnXfs.Data AnXfs.Server

/-! ## The structures of the SDK -/

/-- `WFSCIMINPOS`. -/
structure WfsCimInpos where
  fwPosition : Word
  fwShutter : Word
  fwPositionStatus : Word
  fwTransport : Word
  fwTransportStatus : Word
  fwJammedShutterPosition : Word

/-- `WFSCIMCAPS`; a pointer is what it points to. -/
structure WfsCimCaps where
  wClass : Word
  fwType : Word
  wMaxCashInItems : Word
  bCompound : Dword
  bShutter : Dword
  bShutterControl : Dword
  bSafeDoor : Dword
  bCashBox : Dword
  bRefill : Dword
  fwIntermediateStacker : Word
  bItemsTakenSensor : Dword
  bItemsInsertedSensor : Dword
  fwPositions : Word
  fwExchangeType : Word
  fwRetractAreas : Word
  fwRetractTransportActions : Word
  fwRetractStackerActions : Word
  lpszExtra : List UInt8
  dwGuidLights : List Dword
  dwItemInfoTypes : Dword
  bCompareSignatures : Dword
  bPowerSaveControl : Dword
  bReplenish : Dword
  fwCashInLimit : Word
  fwCountActions : Word
  bDeviceLockControl : Dword
  wMixedMode : Word
  bMixedDepositAndRollback : Dword
  bAntiFraudModule : Dword
  bDeplete : Dword
  bBlacklist : Dword
  lpdwSynchronizableCommands : Option (List Dword)

/-- `WFSCIMSTATUS`. -/
structure WfsCimStatus where
  fwDevice : Word
  fwSafeDoor : Word
  fwAcceptor : Word
  fwIntermediateStacker : Word
  fwStackerItems : Word
  fwBanknoteReader : Word
  bDropBox : Dword
  lppPositions : List (Option WfsCimInpos)
  lpszExtra : List UInt8
  dwGuidLights : List Dword
  wDevicePosition : Word
  usPowerSaveRecoveryTime : Word
  wMixedMode : Word
  wAntiFraudModule : Word

inductive WfsCimInfo where
  | caps (lpcaps : WfsCimCaps)
  | status (lpstatus : WfsCimStatus)

/-- What memory of `WFMAllocateMore` holds before it is written, read as a byte, a `DWORD` or a pointer. -/
structure Fresh where
  byte : UInt8
  dword : Dword
  pointer : Option WfsCimInpos

/-! ## The copies -/

variable {A : Arch} {api : XfsApi} (fresh : Fresh)

/-- The memory of an `an_crs_position` as a `WFSCIMINPOS`: the same words in the same order. -/
def WfsCimInpos.of (p : AnCrsPosition) : WfsCimInpos where
  fwPosition := p.fwPosition
  fwShutter := p.fwShutter
  fwPositionStatus := p.fwPositionStatus
  fwTransport := p.fwTransport
  fwTransportStatus := p.fwTransportStatus
  fwJammedShutterPosition := p.fwJammedShutterPosition

/-- A `memcpy` that stays inside its destination. -/
def copied {α : Type} (dest src : List α) : Except Fault (List α) :=
  match memcpy dest src with
  | none => .error .outOfRange
  | some d => .ok d

/-- The branch of `getinfo_handler` for the capabilities. -/
def WfsCimCaps.of (caps : AnXfsCaps A api) : Except Fault WfsCimCaps := do
  let dwGuidLights ← copied (List.replicate api.wfsCimGuidlightsSize fresh.dword) caps.dwGuidLights.toList
  let lpszExtra ← copied (List.replicate caps.lpszExtra.bytes.length fresh.byte) caps.lpszExtra.bytes
  pure {
    wClass := caps.wClass
    fwType := caps.fwType
    wMaxCashInItems := caps.wMaxCashInItems
    bCompound := caps.bCompound
    bShutter := caps.bShutter
    bShutterControl := caps.bShutterControl
    bSafeDoor := caps.bSafeDoor
    bCashBox := caps.bCashBox
    bRefill := caps.bRefill
    fwIntermediateStacker := caps.fwIntermediateStacker
    bItemsTakenSensor := caps.bItemsTakenSensor
    bItemsInsertedSensor := caps.bItemsInsertedSensor
    fwPositions := caps.fwPositions
    fwExchangeType := caps.fwExchangeType
    fwRetractAreas := caps.fwRetractAreas
    fwRetractTransportActions := caps.fwRetractTransportActions
    fwRetractStackerActions := caps.fwRetractStackerActions
    lpszExtra := lpszExtra
    dwGuidLights := dwGuidLights
    dwItemInfoTypes := caps.dwItemInfoTypes
    bCompareSignatures := caps.bCompareSignatures
    bPowerSaveControl := caps.bPowerSaveControl
    bReplenish := caps.bReplenish
    fwCashInLimit := caps.fwCashInLimit
    fwCountActions := caps.fwCountActions
    bDeviceLockControl := caps.bDeviceLockControl
    wMixedMode := caps.wMixedMode
    bMixedDepositAndRollback := caps.bMixedDepositAndRollback
    bAntiFraudModule := caps.bAntiFraudModule
    bDeplete := caps.bDeplete
    bBlacklist := caps.bBlacklist
    lpdwSynchronizableCommands := none }

/-- The branch of `getinfo_handler` for the status. -/
def WfsCimStatus.of (status : AnXfsStatus A api) : Except Fault WfsCimStatus := do
  let dwGuidLights ← copied (List.replicate api.wfsCimGuidlightsSize fresh.dword) status.dwGuidLights.toList
  let lpszExtra ← copied (List.replicate status.lpszExtra.bytes.length fresh.byte) status.lpszExtra.bytes
  pure {
    bDropBox := status.bDropBox
    dwGuidLights := dwGuidLights
    fwAcceptor := status.fwAcceptor
    fwBanknoteReader := status.fwBanknoteReader
    fwDevice := status.fwDevice
    fwIntermediateStacker := status.fwIntermediateStacker
    fwSafeDoor := status.fwSafeDoor
    usPowerSaveRecoveryTime := status.usPowerSaveRecoveryTime
    wAntiFraudModule := status.wAntiFraudModule
    wDevicePosition := status.wDevicePosition
    wMixedMode := status.wMixedMode
    fwStackerItems := status.fwStackerItems
    lpszExtra := lpszExtra
    lppPositions := setFrom (List.replicate (anPositionSize + 1) fresh.pointer) 0
      (status.lppPositions.toList.map fun p => some (.of p)) }

/-- The structure that `getinfo_handler` builds from a payload, all allocations succeeding; the other payloads are
no business of its. -/
def LpBuffer.info : LpBuffer A api → Except Fault (Option WfsCimInfo)
  | .caps c => (WfsCimCaps.of fresh c).map fun lpcaps => some (.caps lpcaps)
  | .status s => (WfsCimStatus.of fresh s).map fun lpstatus => some (.status lpstatus)
  | .position _ | .devstatus _ => .ok none

/-- `getinfo_handler`, with what it leaves in the `lpBuffer` of the `WFSRESULT`. -/
def getinfoInfo (cmd : AnXfsResult A) : Except Fault (Option WfsCimInfo) :=
  match getinfoHandler api cmd with
  | .error f => .error f
  | .ok none => .ok none
  | .ok (some payload) => payload.info fresh

/-! ## What the application reads -/

/-- The server's list of commands, up to the first 0. -/
def heldCommands (caps : AnXfsCaps A api) : List Dword :=
  caps.lpdwSynchronizableCommands.toList.takeWhile fun d => d ≠ 0

/-- The list that the application reads; the null pointer is the empty one. -/
def WfsCimCaps.commands (lpcaps : WfsCimCaps) : List Dword :=
  (lpcaps.lpdwSynchronizableCommands.getD []).takeWhile fun d => d ≠ 0

/-- The string is the server's, and ends as a list of strings does. -/
def SameExtra (lpszExtra : List UInt8) (held : StdString A) : Prop :=
  lpszExtra = held.bytes ∧ (strings [] lpszExtra).isSome = true

/-- What the application reads of the capabilities is what the server holds. -/
structure WfsCimCaps.Agrees (n : WfsCimCaps) (c : AnXfsCaps A api) : Prop where
  wClass : n.wClass = c.wClass
  fwType : n.fwType = c.fwType
  wMaxCashInItems : n.wMaxCashInItems = c.wMaxCashInItems
  bCompound : n.bCompound = c.bCompound
  bShutter : n.bShutter = c.bShutter
  bShutterControl : n.bShutterControl = c.bShutterControl
  bSafeDoor : n.bSafeDoor = c.bSafeDoor
  bCashBox : n.bCashBox = c.bCashBox
  bRefill : n.bRefill = c.bRefill
  fwIntermediateStacker : n.fwIntermediateStacker = c.fwIntermediateStacker
  bItemsTakenSensor : n.bItemsTakenSensor = c.bItemsTakenSensor
  bItemsInsertedSensor : n.bItemsInsertedSensor = c.bItemsInsertedSensor
  fwPositions : n.fwPositions = c.fwPositions
  fwExchangeType : n.fwExchangeType = c.fwExchangeType
  fwRetractAreas : n.fwRetractAreas = c.fwRetractAreas
  fwRetractTransportActions : n.fwRetractTransportActions = c.fwRetractTransportActions
  fwRetractStackerActions : n.fwRetractStackerActions = c.fwRetractStackerActions
  lpszExtra : SameExtra n.lpszExtra c.lpszExtra
  dwGuidLights : n.dwGuidLights = c.dwGuidLights.toList
  dwItemInfoTypes : n.dwItemInfoTypes = c.dwItemInfoTypes
  bCompareSignatures : n.bCompareSignatures = c.bCompareSignatures
  bPowerSaveControl : n.bPowerSaveControl = c.bPowerSaveControl
  bReplenish : n.bReplenish = c.bReplenish
  fwCashInLimit : n.fwCashInLimit = c.fwCashInLimit
  fwCountActions : n.fwCountActions = c.fwCountActions
  bDeviceLockControl : n.bDeviceLockControl = c.bDeviceLockControl
  wMixedMode : n.wMixedMode = c.wMixedMode
  bMixedDepositAndRollback : n.bMixedDepositAndRollback = c.bMixedDepositAndRollback
  bAntiFraudModule : n.bAntiFraudModule = c.bAntiFraudModule
  bDeplete : n.bDeplete = c.bDeplete
  bBlacklist : n.bBlacklist = c.bBlacklist
  lpdwSynchronizableCommands : n.commands = heldCommands c

structure WfsCimInpos.Agrees (n : WfsCimInpos) (p : AnCrsPosition) : Prop where
  fwPosition : n.fwPosition = p.fwPosition
  fwShutter : n.fwShutter = p.fwShutter
  fwPositionStatus : n.fwPositionStatus = p.fwPositionStatus
  fwTransport : n.fwTransport = p.fwTransport
  fwTransportStatus : n.fwTransportStatus = p.fwTransportStatus
  fwJammedShutterPosition : n.fwJammedShutterPosition = p.fwJammedShutterPosition

/-- What the application reads of the status is what the server holds. -/
structure WfsCimStatus.Agrees (n : WfsCimStatus) (s : AnXfsStatus A api) : Prop where
  fwDevice : n.fwDevice = s.fwDevice
  fwSafeDoor : n.fwSafeDoor = s.fwSafeDoor
  fwAcceptor : n.fwAcceptor = s.fwAcceptor
  fwIntermediateStacker : n.fwIntermediateStacker = s.fwIntermediateStacker
  fwStackerItems : n.fwStackerItems = s.fwStackerItems
  fwBanknoteReader : n.fwBanknoteReader = s.fwBanknoteReader
  bDropBox : n.bDropBox = s.bDropBox
  lppPositions : ∃ positions, nullTerminated n.lppPositions = some positions ∧
    List.Forall₂ WfsCimInpos.Agrees positions s.lppPositions.toList
  lpszExtra : SameExtra n.lpszExtra s.lpszExtra
  dwGuidLights : n.dwGuidLights = s.dwGuidLights.toList
  wDevicePosition : n.wDevicePosition = s.wDevicePosition
  usPowerSaveRecoveryTime : n.usPowerSaveRecoveryTime = s.usPowerSaveRecoveryTime
  wMixedMode : n.wMixedMode = s.wMixedMode
  wAntiFraudModule : n.wAntiFraudModule = s.wAntiFraudModule

/-! ## Both branches -/

variable {fresh}

theorem copied_full {α : Type} {n : Nat} {a : α} {src : List α} (h : src.length = n) :
    copied (List.replicate n a) src = .ok src := by
  unfold copied
  rw [memcpy_full (by rw [List.length_replicate, h])]

theorem sameExtra_of_suffix {held : StdString A} (h : [0, 0] <:+ held.bytes) : SameExtra held.bytes held := by
  obtain ⟨xs, hxs⟩ := h
  refine ⟨rfl, ?_⟩
  rw [← hxs]
  exact strings_isSome xs []

/-- The capabilities are built, and agree but for the list of commands, which is empty. -/
theorem capsOf_agrees_iff {caps : AnXfsCaps A api} (hextra : [0, 0] <:+ caps.lpszExtra.bytes) :
    ∃ lpcaps, WfsCimCaps.of fresh caps = .ok lpcaps ∧ (lpcaps.Agrees caps ↔ heldCommands caps = []) := by
  unfold WfsCimCaps.of
  rw [copied_full (List.Vector.toList_length _), copied_full rfl]
  refine ⟨_, rfl, ?_⟩
  constructor
  · intro h
    exact h.lpdwSynchronizableCommands.symm
  · intro h
    constructor
    case lpszExtra => exact sameExtra_of_suffix hextra
    case lpdwSynchronizableCommands => exact h.symm
    all_goals rfl

/-- The pointers to the positions, in memory whose pointers are null at first. -/
theorem setFrom_positions (hzero : fresh.pointer = none) (positions : List.Vector AnCrsPosition anPositionSize) :
    setFrom (List.replicate (anPositionSize + 1) fresh.pointer) 0
      (positions.toList.map fun p => some (WfsCimInpos.of p)) =
        (positions.toList.map WfsCimInpos.of).map some ++ [none] := by
  have hlen : (List.replicate anPositionSize fresh.pointer).length =
      (positions.toList.map fun p => some (WfsCimInpos.of p)).length := by simp
  have h := setFrom_append (positions.toList.map fun p => some (WfsCimInpos.of p)) [] _ [fresh.pointer] hlen
  rw [hzero] at h ⊢
  rw [List.map_map, List.replicate_succ']
  exact h

/-- The status is built, and agrees. -/
theorem statusOf_agrees {status : AnXfsStatus A api} (hsize : api.wfsCdmGuidlightsSize = api.wfsCimGuidlightsSize)
    (hzero : fresh.pointer = none) (hextra : [0, 0] <:+ status.lpszExtra.bytes) :
    ∃ lpstatus, WfsCimStatus.of fresh status = .ok lpstatus ∧ lpstatus.Agrees status := by
  unfold WfsCimStatus.of
  rw [copied_full ((List.Vector.toList_length _).trans hsize), copied_full rfl, setFrom_positions hzero]
  refine ⟨_, rfl, ?_⟩
  constructor
  case lppPositions =>
    refine ⟨_, nullTerminated_append _ [], ?_⟩
    rw [List.forall₂_map_left_iff, List.forall₂_same]
    exact fun p _ => ⟨rfl, rfl, rfl, rfl, rfl, rfl⟩
  case lpszExtra => exact sameExtra_of_suffix hextra
  all_goals rfl

/-! ## A request -/

/-- The category asked for is one of the two, and the string in what the server holds for it ends in two NULs. -/
structure AsksFor (x : CanXfs A api) (m : AnWfpGetInfo A) : Prop where
  category : m.dwCategory = api.wfsInfCimCapabilities ∨ m.dwCategory = api.wfsInfCimStatus
  caps : m.dwCategory = api.wfsInfCimCapabilities → [0, 0] <:+ x.caps.val.lpszExtra.bytes
  status : m.dwCategory = api.wfsInfCimStatus → [0, 0] <:+ x.status.val.lpszExtra.bytes

/-- The structure is the one asked for, and agrees with what the server holds. -/
def WfsCimInfo.Delivers (x : CanXfs A api) (m : AnWfpGetInfo A) : WfsCimInfo → Prop
  | .caps lpcaps => m.dwCategory = api.wfsInfCimCapabilities ∧ lpcaps.Agrees x.caps.val
  | .status lpstatus => m.dwCategory = api.wfsInfCimStatus ∧ lpstatus.Agrees x.status.val

/-- The two categories are different. -/
theorem ne_capabilities {category : Dword} (hc : category = api.wfsInfCimStatus) :
    ¬ category = api.wfsInfCimCapabilities := by
  have h := api.categories_nodup
  simp only [List.nodup_cons, List.mem_singleton] at h
  rw [hc]
  exact fun heq => h.1 heq.symm

/-- The payload of an answered request, as the client decodes it. -/
theorem getinfoHandler_result {x : CanXfs A api} {m : AnWfpGetInfo A} (hx : AsksFor x m) (now : AnSystemtime) :
    getinfoHandler api (getinfoResult x m now) = .ok (some (
      if m.dwCategory = api.wfsInfCimCapabilities then .caps x.caps.val else .status x.status.val)) := by
  obtain ⟨-, -, -, -, hu, hbuf⟩ := getinfoResult_fields x m now
  unfold getinfoHandler
  rw [hu, hbuf]
  rcases hx.category with hc | hc
  · rw [if_pos hc, if_pos hc, if_pos hc, decodeAs_buffer]
    rfl
  · have hne := ne_capabilities hc
    rw [if_neg hne, if_neg hne, if_neg hne, if_pos hc, if_pos hc, decodeAs_buffer]
    rfl

/-- An answered request for the capabilities. -/
theorem getinfoInfo_capabilities {x : CanXfs A api} {m : AnWfpGetInfo A} (hx : AsksFor x m)
    (hc : m.dwCategory = api.wfsInfCimCapabilities) (now : AnSystemtime) :
    ∃ lpcaps, @getinfoInfo A api fresh (getinfoResult x m now) = .ok (some (.caps lpcaps)) ∧
      (lpcaps.Agrees x.caps.val ↔ heldCommands x.caps.val = []) := by
  obtain ⟨lpcaps, hof, hiff⟩ := @capsOf_agrees_iff A api fresh _ (hx.caps hc)
  refine ⟨lpcaps, ?_, hiff⟩
  unfold getinfoInfo
  rw [getinfoHandler_result hx now, if_pos hc]
  simp only [LpBuffer.info, hof]
  rfl

/-- An answered request for the status. -/
theorem getinfoInfo_status {x : CanXfs A api} {m : AnWfpGetInfo A}
    (hsize : api.wfsCdmGuidlightsSize = api.wfsCimGuidlightsSize) (hzero : fresh.pointer = none) (hx : AsksFor x m)
    (hc : m.dwCategory = api.wfsInfCimStatus) (now : AnSystemtime) :
    ∃ lpstatus, @getinfoInfo A api fresh (getinfoResult x m now) = .ok (some (.status lpstatus)) ∧
      lpstatus.Agrees x.status.val := by
  obtain ⟨lpstatus, hof, hagrees⟩ := statusOf_agrees hsize hzero (hx.status hc)
  refine ⟨lpstatus, ?_, hagrees⟩
  unfold getinfoInfo
  rw [getinfoHandler_result hx now, if_neg (ne_capabilities hc)]
  simp only [LpBuffer.info, hof]
  rfl

/-- For every GetInfo of the capabilities or of the status, whatever the server holds as long as its string ends in
two NULs: the completion is read back, a structure is built from it, and it agrees with what the server holds if and
only if the status is asked for or the server's list of synchronizable commands is empty. -/
theorem getinfo_delivers_iff {x : CanXfs A api} {m : AnWfpGetInfo A}
    (hsize : api.wfsCdmGuidlightsSize = api.wfsCimGuidlightsSize) (hzero : fresh.pointer = none) (hx : AsksFor x m)
    (now : AnSystemtime) :
    ∃ r info, unserializeResult (AnXfsResult.codec A)
        (serializeResult (AnXfsResult.codec A) (getinfoResult x m now)) = some r ∧
      @getinfoInfo A api fresh r = .ok (some info) ∧
      (info.Delivers x m ↔ (m.dwCategory = api.wfsInfCimCapabilities → heldCommands x.caps.val = [])) := by
  have hread := unserializeResult_serializeResult (AnXfsResult.codec A) (getinfoResult x m now) []
  rw [List.append_nil] at hread
  rcases hx.category with hc | hc
  · obtain ⟨lpcaps, hinfo, hiff⟩ := @getinfoInfo_capabilities A api fresh x m hx hc now
    refine ⟨_, .caps lpcaps, hread, hinfo, ?_⟩
    unfold WfsCimInfo.Delivers
    simp only [hc, true_and, true_imp_iff]
    exact hiff
  · obtain ⟨lpstatus, hinfo, hagrees⟩ := getinfoInfo_status hsize hzero hx hc now
    exact ⟨_, .status lpstatus, hread, hinfo, iff_of_true ⟨hc, hagrees⟩ fun h => absurd h (ne_capabilities hc)⟩

/-- The data of a server that synchronizes command 1301, all zero otherwise, with empty lists of strings. -/
def synchronizing : CanXfs .x86 .documented :=
  .new
    { val := { CanXfs.blank.caps.val with
        lpszExtra := .ofShort _ [0, 0] (by decide)
        lpdwSynchronizableCommands := 1301 ::ᵥ .replicate _ 0 }
      fits := by decide +kernel }
    { val := { CanXfs.blank.status.val with lpszExtra := .ofShort _ [0, 0] (by decide) }
      fits := by decide +kernel }

/-- A GetInfo of service 1 for a category. -/
def getInfoOf (category : Dword) : AnWfpGetInfo .x86 :=
  AnWfpGetInfo.new _ 0 1 category (.empty _) 0 5 7

theorem synchronizing_asked {m : AnWfpGetInfo .x86}
    (hm : m.dwCategory = XfsApi.documented.wfsInfCimCapabilities ∨ m.dwCategory = XfsApi.documented.wfsInfCimStatus) :
    AsksFor synchronizing m :=
  ⟨hm, fun _ => ⟨[], rfl⟩, fun _ => ⟨[], rfl⟩⟩

/-- Its status is delivered. -/
theorem synchronizing_delivers_status : ∃ r info, unserializeResult (AnXfsResult.codec .x86)
      (serializeResult (AnXfsResult.codec .x86) (getinfoResult synchronizing (getInfoOf 1301) midnight)) = some r ∧
    @getinfoInfo .x86 .documented ⟨0, 0, none⟩ r = .ok (some info) ∧ info.Delivers synchronizing (getInfoOf 1301) := by
  obtain ⟨r, info, hread, hinfo, hiff⟩ := @getinfo_delivers_iff .x86 .documented ⟨0, 0, none⟩ synchronizing
    (getInfoOf 1301) rfl rfl (synchronizing_asked (.inr rfl)) midnight
  exact ⟨r, info, hread, hinfo, hiff.2 fun h => absurd h (by decide)⟩

/-- Its capabilities are not: the application finds no command in the list. -/
theorem synchronizing_loses_command : ¬ ∃ r info, unserializeResult (AnXfsResult.codec .x86)
      (serializeResult (AnXfsResult.codec .x86) (getinfoResult synchronizing (getInfoOf 1302) midnight)) = some r ∧
    @getinfoInfo .x86 .documented ⟨0, 0, none⟩ r = .ok (some info) ∧ info.Delivers synchronizing (getInfoOf 1302) := by
  rintro ⟨r, info, hread, hinfo, hd⟩
  have hread' := unserializeResult_serializeResult (AnXfsResult.codec .x86)
    (getinfoResult synchronizing (getInfoOf 1302) midnight) []
  rw [List.append_nil, hread] at hread'
  cases hread'
  obtain ⟨lpcaps, hcaps, hiff⟩ := @getinfoInfo_capabilities .x86 .documented ⟨0, 0, none⟩ synchronizing
    (getInfoOf 1302) (synchronizing_asked (.inl rfl)) rfl midnight
  rw [hinfo] at hcaps
  cases hcaps
  exact absurd (hiff.1 hd.2) (by decide)

end AnXfs.Client
