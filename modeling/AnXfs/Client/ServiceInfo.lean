/-
The client's registry of open services (`CanServiceInfo.cpp`): one record per Open that was called, in
order, each with the event classes it is registered for and the window of the last registration. All
operations act on the first record of a handle.
-/
import AnXfs.Data.Table
import AnXfs.Pack.Result

namespace AnXfs.Client

open AnXfs.Wire AnXfs.Pack AnXfs.Data

/-! ## Records -/

/-- `CanServiceInfo`. -/
structure CanServiceInfo where
  hService : HService
  hWndReg : Dword
  dwEventClass : Dword
  strAppId : List UInt8
  dwSrvcVersionsRequired : Dword
  deriving DecidableEq

/-- `CanServiceInfo(hService, lpszAppID, dwSrvcVersionsRequired)`. -/
def CanServiceInfo.new (hService : HService) (lpszAppId : List UInt8) (dwSrvcVersionsRequired : Dword) :
    CanServiceInfo where
  hService := hService
  hWndReg := 0
  dwEventClass := 0
  strAppId := lpszAppId
  dwSrvcVersionsRequired := dwSrvcVersionsRequired

/-- `CanServiceInfo_Admi`, as the vector `service_`. -/
abbrev CanServiceInfoAdmi := List CanServiceInfo

namespace CanServiceInfoAdmi

variable (service : CanServiceInfoAdmi)

def push (hService : HService) (lpszAppId : List UInt8) (dwSrvcVersionsRequired : Dword) : CanServiceInfoAdmi :=
  service ++ [CanServiceInfo.new hService lpszAppId dwSrvcVersionsRequired]

/-- The outcome of a walk that looks for a handle. -/
def found (api : XfsApi) (hService : HService) : HResult :=
  if ∃ ref ∈ service, ref.hService = hService then api.wfsSuccess else api.wfsErrServiceNotFound

def findService (api : XfsApi) (hService : HService) : HResult := found service api hService

/-- The first record of a handle, changed. -/
def modifyFirst (f : CanServiceInfo → CanServiceInfo) (hService : HService) : CanServiceInfoAdmi → CanServiceInfoAdmi
  | [] => []
  | ref :: rest => if ref.hService = hService then f ref :: rest else ref :: modifyFirst f hService rest

def registerEvent (api : XfsApi) (hService : HService) (dwEventClass hWndReg : Dword) : CanServiceInfoAdmi × HResult :=
  (modifyFirst (fun ref => { ref with hWndReg := hWndReg, dwEventClass := ref.dwEventClass ||| dwEventClass })
    hService service, found service api hService)

/-- `deregister_event`, whose `hWndReg` is not used. -/
def deregisterEvent (api : XfsApi) (hService : HService) (dwEventClass _hWndReg : Dword) :
    CanServiceInfoAdmi × HResult :=
  (modifyFirst (fun ref => { ref with dwEventClass := ref.dwEventClass &&& ~~~dwEventClass }) hService service,
    found service api hService)

def closeService (api : XfsApi) (hService : HService) : CanServiceInfoAdmi × HResult :=
  (service.eraseP fun ref => ref.hService = hService, found service api hService)

/-! ## The registry as a table -/

variable {service} {api : XfsApi}

/-- A record after `register_event`. -/
def registerRecord (mask w : Dword) (ref : CanServiceInfo) : CanServiceInfo :=
  { ref with hWndReg := w, dwEventClass := ref.dwEventClass ||| mask }

/-- A record after `deregister_event`. -/
def deregisterRecord (mask : Dword) (ref : CanServiceInfo) : CanServiceInfo :=
  { ref with dwEventClass := ref.dwEventClass &&& ~~~mask }

@[simp] theorem registerRecord_hService (mask w : Dword) (ref : CanServiceInfo) :
    (registerRecord mask w ref).hService = ref.hService := rfl

@[simp] theorem deregisterRecord_hService (mask : Dword) (ref : CanServiceInfo) :
    (deregisterRecord mask ref).hService = ref.hService := rfl

theorem found_iff {hService : HService} :
    found service api hService = api.wfsSuccess ↔ ∃ ref ∈ service, ref.hService = hService := by
  unfold found
  split
  · rename_i h
    exact iff_of_true rfl h
  · rename_i h
    refine iff_of_false (fun hf => ?_) h
    rw [api.success_eq] at hf
    exact api.notFound_ne hf

theorem modifyFirst_eq (f : CanServiceInfo → CanServiceInfo) (hService : HService) (service : CanServiceInfoAdmi) :
    modifyFirst f hService service = Table.modify CanServiceInfo.hService f hService service := by
  induction service with
  | nil => rfl
  | cons ref rest ih => simp only [modifyFirst, Table.modify, ih]

end CanServiceInfoAdmi

end AnXfs.Client
