/-
What the client does with a result (`xfs_handler.cpp` and the event side of `CanServiceInfo.cpp`): a
completion is posted to the window of its request, an event to every window registered for its class,
and the completion of a Close removes the service. A payload that does not decode throws.
-/
import AnXfs.Client.ServiceInfo
import AnXfs.Pack.Builder

namespace AnXfs.Client

open AnXfs.Wire AnXfs.Pack

variable {A : Arch} {api : XfsApi}

/-! ## Messages -/

/-- What the `lpBuffer` of a `WFSRESULT` was filled from. -/
inductive LpBuffer (A : Arch) (api : XfsApi) where
  | caps (caps : AnXfsCaps A api)
  | status (status : AnXfsStatus A api)
  | position (position : AnWfsCimPositionInfo)
  | devstatus (devstatus : AnWfsDevstatus A)

/-- `WFSRESULT`. -/
structure WfsResult (A : Arch) (api : XfsApi) where
  requestId : RequestId
  hService : HService
  tsTimestamp : AnSystemtime
  hResult : HResult
  u : Dword
  lpBuffer : Option (LpBuffer A api)

/-- The arguments of a `PostMessage`. -/
structure Message (A : Arch) (api : XfsApi) where
  hWnd : Dword
  dwMsg : Dword
  lParam : Option (WfsResult A api)

/-- `an_get_xfsmessage_class`. -/
def anGetXfsmessageClass (api : XfsApi) (msgid : Dword) : Dword :=
  if msgid = api.wfsExecuteEvent then api.executeEvents
  else if msgid = api.wfsServiceEvent then api.serviceEvents
  else if msgid = api.wfsUserEvent then api.userEvents
  else if msgid = api.wfsSystemEvent then api.systemEvents
  -- the eight completions and `default` of the source's `switch`
  else 0

/-! ## Handlers -/

/-- The payload that the archive in `buffer` decodes to. -/
def decodeAs {T : Type} (f : Codec T) (up : T → LpBuffer A api) (buffer : StdString A) :
    Except Fault (LpBuffer A api) :=
  match unserializeResult f buffer.bytes with
  | none => .error .exception
  | some v => .ok (up v)

/-- `getinfo_handler`, which allocates the structures of the answer. -/
def getinfoHandler (api : XfsApi) (cmd : AnXfsResult A) : Except Fault (Option (LpBuffer A api)) :=
  if cmd.u = api.wfsInfCimCapabilities then (decodeAs (AnXfsCaps.codec A api) .caps cmd.lpBuffer).map some
  else if cmd.u = api.wfsInfCimStatus then (decodeAs (AnXfsStatus.codec A api) .status cmd.lpBuffer).map some
  else .ok none

/-- `event_handler_table_`, looked up and called. -/
def eventHandler (api : XfsApi) (cmd : AnXfsResult A) : Except Fault (Option (LpBuffer A api)) :=
  if cmd.u = api.wfsSyseDeviceStatus then (decodeAs (AnWfsDevstatus.codec A) .devstatus cmd.lpBuffer).map some
  else if cmd.u = api.wfsSrveCimItemstaken then
    (decodeAs AnWfsCimPositionInfo.codec .position cmd.lpBuffer).map some
  else .ok none

/-- The `WFSRESULT` of a result. -/
def WfsResult.of (cmd : AnXfsResult A) (hService : HService) (lpBuffer : Option (LpBuffer A api)) :
    WfsResult A api where
  requestId := cmd.requestId
  hService := hService
  tsTimestamp := cmd.tsTimestamp
  hResult := cmd.hResult
  u := cmd.u
  lpBuffer := lpBuffer

/-- `send_completed_message`. `mem` says whether `WFMAllocateBuffer` succeeds, and then every
`WFMAllocateMore` that follows does too. -/
def sendCompletedMessage (api : XfsApi) (service : CanServiceInfoAdmi) (cmd : AnXfsResult A) (mem : Bool) :
    Except Fault (CanServiceInfoAdmi × List (Message A api)) := do
  let lpResult ←
    if mem then
      if cmd.lpBuffer.bytes.length ≠ 0 ∧ cmd.dwMsg = api.wfsGetinfoComplete then
        (getinfoHandler api cmd).map fun b => some (WfsResult.of cmd cmd.hService b)
      else pure (some (WfsResult.of cmd cmd.hService none))
    else pure none
  let service := if cmd.u = api.wfsCloseComplete then (service.closeService api cmd.hService).1 else service
  pure (service, [⟨cmd.hWnd, cmd.dwMsg, lpResult⟩])

/-- `CanServiceInfo_Admi::send_events`, over the records. -/
def sendEvents (api : XfsApi) (cmd : AnXfsResult A) (eventclass : Dword) (mem : Bool) :
    CanServiceInfoAdmi → Except Fault (List (Message A api))
  | [] => .ok []
  | ref :: rest => do
    if ref.dwEventClass &&& eventclass = 0 then sendEvents api cmd eventclass mem rest
    else
      let lpResult ←
        if mem then (eventHandler api cmd).map fun b => some (WfsResult.of cmd ref.hService b) else pure none
      let posts ← sendEvents api cmd eventclass mem rest
      pure (⟨ref.hWndReg, cmd.dwMsg, lpResult⟩ :: posts)

/-- `xfs_result_handler`. -/
def xfsResultHandler (api : XfsApi) (service : CanServiceInfoAdmi) (cmd : AnXfsResult A) (mem : Bool) :
    Except Fault (CanServiceInfoAdmi × List (Message A api)) :=
  let eventclass := anGetXfsmessageClass api cmd.dwMsg
  if eventclass = 0 then sendCompletedMessage api service cmd mem
  else if eventclass = api.serviceEvents ∨ eventclass = api.systemEvents then
    (sendEvents api cmd eventclass mem service).map fun posts => (service, posts)
  -- `EXECUTE_EVENTS` and `USER_EVENTS`
  else .ok (service, [])

/-! ## What the handlers post -/

/-- The messages of the SDK that complete a request. -/
def completions (api : XfsApi) : List Dword :=
  [api.wfsOpenComplete, api.wfsCloseComplete, api.wfsLockComplete, api.wfsUnlockComplete, api.wfsRegisterComplete,
    api.wfsDeregisterComplete, api.wfsGetinfoComplete, api.wfsExecuteComplete]

/-- A completion has no class. -/
theorem class_of_completion {msg : Dword} (h : msg ∈ completions api) : anGetXfsmessageClass api msg = 0 := by
  have hnodup : (completions api ++ [api.wfsExecuteEvent, api.wfsServiceEvent, api.wfsUserEvent,
      api.wfsSystemEvent]).Nodup := api.messages_nodup
  have hdisjoint := (List.nodup_append.1 hnodup).2.2
  unfold anGetXfsmessageClass
  rw [if_neg (hdisjoint msg h _ (by simp)), if_neg (hdisjoint msg h _ (by simp)), if_neg (hdisjoint msg h _ (by simp)),
    if_neg (hdisjoint msg h _ (by simp))]

theorem class_of_service_event (api : XfsApi) : anGetXfsmessageClass api api.wfsServiceEvent = api.serviceEvents := by
  have hm := api.messages_nodup
  simp only [List.nodup_cons, List.mem_cons, List.not_mem_nil, or_false, not_or] at hm
  unfold anGetXfsmessageClass
  rw [if_neg (fun h => hm.2.2.2.2.2.2.2.2.1.1 h.symm), if_pos rfl]

theorem class_of_system_event (api : XfsApi) : anGetXfsmessageClass api api.wfsSystemEvent = api.systemEvents := by
  have hm := api.messages_nodup
  simp only [List.nodup_cons, List.mem_cons, List.not_mem_nil, or_false, not_or] at hm
  obtain ⟨-, -, -, -, -, -, -, -, hexecute, hservice, huser, -⟩ := hm
  unfold anGetXfsmessageClass
  rw [if_neg (fun h => hexecute.2.2 h.symm), if_neg (fun h => hservice.2 h.symm), if_neg (fun h => huser h.symm),
    if_pos rfl]

/-- The two events that the server broadcasts have a class. -/
theorem class_of_event {msg : Dword} (h : msg = api.wfsServiceEvent ∨ msg = api.wfsSystemEvent) :
    anGetXfsmessageClass api msg ≠ 0 := by
  have hc := api.classes_nodup
  simp only [List.nodup_cons, List.mem_cons, List.not_mem_nil, or_false, not_or] at hc
  rcases h with rfl | rfl
  · rw [class_of_service_event]
    exact fun h => hc.1.1 h.symm
  · rw [class_of_system_event]
    exact fun h => hc.1.2.1 h.symm

/-- The payload that the client will look into decodes. -/
structure Decodes (api : XfsApi) (r : AnXfsResult A) : Prop where
  getinfo : r.dwMsg = api.wfsGetinfoComplete → r.lpBuffer.bytes.length ≠ 0 → ∃ b, getinfoHandler api r = .ok b
  event : anGetXfsmessageClass api r.dwMsg ≠ 0 → ∃ b, eventHandler api r = .ok b

theorem decodeAs_buffer {T : Type} {f : Codec T} (p : Held A f) (up : T → LpBuffer A api) :
    decodeAs f up p.buffer = .ok (up p.val) := by
  have h := unserializeResult_serializeResult f p.val []
  rw [List.append_nil] at h
  simp only [decodeAs, Held.buffer, h]

/-- A completion is posted once, to the window of its request. -/
theorem handler_completion {r : AnXfsResult A} (hd : Decodes api r) (hc : anGetXfsmessageClass api r.dwMsg = 0)
    (service : CanServiceInfoAdmi) :
    ∃ service' b, xfsResultHandler api service r true =
      .ok (service', [⟨r.hWnd, r.dwMsg, some (WfsResult.of r r.hService b)⟩]) := by
  unfold xfsResultHandler
  simp only [if_pos hc]
  unfold sendCompletedMessage
  by_cases hg : r.lpBuffer.bytes.length ≠ 0 ∧ r.dwMsg = api.wfsGetinfoComplete
  · obtain ⟨b, hb⟩ := hd.getinfo hg.2 hg.1
    simp only [if_true, if_pos hg, hb]
    exact ⟨_, b, rfl⟩
  · simp only [if_true, if_neg hg]
    exact ⟨_, none, rfl⟩

theorem bind_ok {α β : Type} {x : Except Fault α} {f : α → Except Fault β} {b : β} (h : x >>= f = .ok b) :
    ∃ a, x = .ok a ∧ f a = .ok b := by
  cases x with
  | error e => cases h
  | ok a => exact ⟨a, rfl, h⟩

/-- The one change that a result makes to the registry. -/
theorem handler_service {service service' : CanServiceInfoAdmi} {r : AnXfsResult A} {mem : Bool}
    {posts : List (Message A api)} (h : xfsResultHandler api service r mem = .ok (service', posts)) :
    service' = service ∨ anGetXfsmessageClass api r.dwMsg = 0 ∧ r.u = api.wfsCloseComplete ∧
      service' = (service.closeService api r.hService).1 := by
  unfold xfsResultHandler at h
  simp only at h
  split at h
  · rename_i hclass
    have hclose : service' =
        if r.u = api.wfsCloseComplete then (service.closeService api r.hService).1 else service := by
      unfold sendCompletedMessage at h
      cases mem with
      | false =>
        simp only [Bool.false_eq_true, if_false] at h
        obtain ⟨lpResult, -, h⟩ := bind_ok h
        cases h
        rfl
      | true =>
        simp only [if_true] at h
        by_cases hg : r.lpBuffer.bytes.length ≠ 0 ∧ r.dwMsg = api.wfsGetinfoComplete
        · simp only [if_pos hg] at h
          obtain ⟨lpResult, -, h⟩ := bind_ok h
          cases h
          rfl
        · simp only [if_neg hg] at h
          obtain ⟨lpResult, -, h⟩ := bind_ok h
          cases h
          rfl
    by_cases hu : r.u = api.wfsCloseComplete
    · exact .inr ⟨hclass, hu, hclose.trans (if_pos hu)⟩
    · exact .inl (hclose.trans (if_neg hu))
  split at h
  · cases hs : sendEvents api r (anGetXfsmessageClass api r.dwMsg) mem service with
    | error f => rw [hs] at h; cases h
    | ok posts => rw [hs] at h; cases h; exact .inl rfl
  · cases h
    exact .inl rfl

/-- The message that an event becomes for a record. -/
def eventPost (r : AnXfsResult A) (b : Option (LpBuffer A api)) (mem : Bool) (ref : CanServiceInfo) : Message A api :=
  ⟨ref.hWndReg, r.dwMsg, if mem then some (WfsResult.of r ref.hService b) else none⟩

/-- An event is posted once for each record whose mask meets its class, in order. -/
theorem sendEvents_eq {r : AnXfsResult A} {b : Option (LpBuffer A api)} (hb : eventHandler api r = .ok b)
    (eventclass : Dword) (mem : Bool) : ∀ service : CanServiceInfoAdmi, sendEvents api r eventclass mem service =
      .ok ((service.filter fun ref => ref.dwEventClass &&& eventclass ≠ 0).map (eventPost r b mem))
  | [] => rfl
  | ref :: rest => by
    unfold sendEvents
    rw [sendEvents_eq hb eventclass mem rest]
    by_cases hclass : ref.dwEventClass &&& eventclass = 0
    · rw [if_pos hclass, List.filter_cons_of_neg (by simpa using hclass)]
    · rw [if_neg hclass, List.filter_cons_of_pos (by simpa using hclass), List.map_cons]
      cases mem with
      | true => rw [if_pos rfl, hb]; rfl
      | false => rfl

/-- An event is posted under its own message only. -/
theorem handler_event {r : AnXfsResult A} (hd : Decodes api r) (hc : anGetXfsmessageClass api r.dwMsg ≠ 0)
    (service : CanServiceInfoAdmi) (mem : Bool) :
    ∃ posts, xfsResultHandler api service r mem = .ok (service, posts) ∧ ∀ p ∈ posts, p.dwMsg = r.dwMsg := by
  obtain ⟨b, hb⟩ := hd.event hc
  unfold xfsResultHandler
  simp only [if_neg hc]
  split
  · rw [sendEvents_eq hb]
    refine ⟨_, rfl, ?_⟩
    intro p hp
    obtain ⟨ref, -, rfl⟩ := List.mem_map.1 hp
    rfl
  · exact ⟨[], rfl, by simp⟩

/-! ## The handler by the class of its message -/

/-- What is posted does not hang on the registry, and only a Close changes it. -/
theorem sendCompletedMessage_eq (service : CanServiceInfoAdmi) (r : AnXfsResult A) (mem : Bool) :
    sendCompletedMessage api service r mem = (sendCompletedMessage api [] r mem).map fun p =>
      (if r.u = api.wfsCloseComplete then (service.closeService api r.hService).1 else service, p.2) := by
  unfold sendCompletedMessage
  cases mem with
  | false => rfl
  | true =>
    simp only [if_true]
    split
    · cases getinfoHandler api r <;> rfl
    · rfl

/-- The result of a completion. -/
theorem handler_of_class {service : CanServiceInfoAdmi} {r : AnXfsResult A} {mem : Bool}
    (hc : anGetXfsmessageClass api r.dwMsg = 0) :
    xfsResultHandler api service r mem = (sendCompletedMessage api [] r mem).map fun p =>
      (if r.u = api.wfsCloseComplete then (service.closeService api r.hService).1 else service, p.2) := by
  unfold xfsResultHandler
  simp only [if_pos hc]
  exact sendCompletedMessage_eq service r mem

/-- The result of an event that is posted. -/
theorem handler_of_event {service : CanServiceInfoAdmi} {r : AnXfsResult A} {mem : Bool}
    (hc : anGetXfsmessageClass api r.dwMsg ≠ 0)
    (he : anGetXfsmessageClass api r.dwMsg = api.serviceEvents ∨ anGetXfsmessageClass api r.dwMsg = api.systemEvents) :
    xfsResultHandler api service r mem =
      (sendEvents api r (anGetXfsmessageClass api r.dwMsg) mem service).map fun posts => (service, posts) := by
  unfold xfsResultHandler
  simp only [if_neg hc, if_pos he]

/-- The result of an event that is not. -/
theorem handler_of_other {service : CanServiceInfoAdmi} {r : AnXfsResult A} {mem : Bool}
    (hc : anGetXfsmessageClass api r.dwMsg ≠ 0)
    (he : ¬ (anGetXfsmessageClass api r.dwMsg = api.serviceEvents ∨
      anGetXfsmessageClass api r.dwMsg = api.systemEvents)) :
    xfsResultHandler api service r mem = .ok (service, []) := by
  unfold xfsResultHandler
  simp only [if_neg hc, if_neg he]

end AnXfs.Client
