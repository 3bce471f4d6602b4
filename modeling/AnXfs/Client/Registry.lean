/-
The registry is a finite map from handles to event masks and windows. The records are searched from the
front, so that this holds as long as no two of them share a handle: the simulation keeps that, and each
operation on the vector does to the map what its name says. Only `send_events` may post nothing where the
map has a target: it decodes the payload before it posts, and one that does not decode throws.
-/
import AnXfs.Client.Handler
import AnXfs.Run.Machine

namespace AnXfs.Client

open AnXfs.Wire AnXfs.Pack AnXfs.Data AnXfs.Run

variable {A : Arch} {api : XfsApi}

/-! ## The vector -/

/-- A call of one of the six operations of `CanServiceInfo_Admi`. -/
inductive RegistryOp (A : Arch) where
  | push (hService : HService) (lpszAppId : List UInt8) (dwSrvcVersionsRequired : Dword)
  | findService (hService : HService)
  | registerEvent (hService : HService) (dwEventClass hWndReg : Dword)
  | deregisterEvent (hService : HService) (dwEventClass hWndReg : Dword)
  | closeService (hService : HService)
  | sendEvents (cmd : AnXfsResult A) (eventclass : Dword)

/-- What an operation returns, or what `sendEvents` posts. -/
inductive RegistryReply (A : Arch) (api : XfsApi) where
  | pushed
  | returned (hr : HResult)
  | posted (posts : Except Fault (List (Message A api)))

/-- The operations on the vector, every `WFMAllocateBuffer` succeeding. -/
def registryMachine (A : Arch) (api : XfsApi) : Machine CanServiceInfoAdmi (RegistryOp A) (RegistryReply A api) where
  step service
    | .push hService lpszAppId dwSrvcVersionsRequired =>
      some (service.push hService lpszAppId dwSrvcVersionsRequired, [.pushed])
    | .findService hService => some (service, [.returned (service.findService api hService)])
    | .registerEvent hService dwEventClass hWndReg =>
      let (service, hr) := service.registerEvent api hService dwEventClass hWndReg
      some (service, [.returned hr])
    | .deregisterEvent hService dwEventClass hWndReg =>
      let (service, hr) := service.deregisterEvent api hService dwEventClass hWndReg
      some (service, [.returned hr])
    | .closeService hService =>
      let (service, hr) := service.closeService api hService
      some (service, [.returned hr])
    | .sendEvents cmd eventclass => some (service, [.posted (sendEvents api cmd eventclass true service)])

/-- `push` is called for a handle that has no record. -/
def PushesNew (service : CanServiceInfoAdmi) : RegistryOp A → Prop
  | .push hService _ _ => ∀ ref ∈ service, ref.hService ≠ hService
  | _ => True

instance (service : CanServiceInfoAdmi) (op : RegistryOp A) : Decidable (PushesNew service op) := by
  unfold PushesNew; split <;> infer_instance

/-! ## The map -/

/-- What an open service is registered for, and the window of its last registration. -/
structure Registration where
  dwEventClass : Dword
  hWndReg : Dword
  deriving DecidableEq

abbrev RegistryMap := HService → Option Registration

/-- The windows that an event of a class goes to. -/
def RegistryMap.targets (m : RegistryMap) (eventclass : Dword) (hService : HService) : Option Dword :=
  (m hService).bind fun r => if r.dwEventClass &&& eventclass = 0 then none else some r.hWndReg

/-- What an operation says of the map: whether the handle was present, or where an event goes. -/
inductive MapReply (A : Arch) where
  | pushed
  | returned (present : Bool)
  | posted (cmd : AnXfsResult A) (targets : HService → Option Dword)

/-- The operations on the map: each touches its own handle only. -/
def mapMachine (A : Arch) : Machine RegistryMap (RegistryOp A) (MapReply A) where
  step m
    | .push hService _ _ => some (Function.update m hService (some ⟨0, 0⟩), [.pushed])
    | .findService hService => some (m, [.returned (m hService).isSome])
    | .registerEvent hService dwEventClass hWndReg =>
      some (Function.update m hService ((m hService).map fun r => ⟨r.dwEventClass ||| dwEventClass, hWndReg⟩),
        [.returned (m hService).isSome])
    | .deregisterEvent hService dwEventClass _ =>
      some (Function.update m hService ((m hService).map fun r => ⟨r.dwEventClass &&& ~~~dwEventClass, r.hWndReg⟩),
        [.returned (m hService).isSome])
    | .closeService hService => some (Function.update m hService none, [.returned (m hService).isSome])
    | .sendEvents cmd eventclass => some (m, [.posted cmd (m.targets eventclass)])

/-! ## The two side by side -/

/-- One message for each target, to its window and tagged with its handle, and no other. -/
def PostsTo (cmd : AnXfsResult A) (b : Option (LpBuffer A api)) (targets : HService → Option Dword)
    (posts : List (Message A api)) : Prop :=
  ∃ hs : List HService, hs.Nodup ∧ (∀ h, h ∈ hs ↔ (targets h).isSome) ∧
    posts = hs.filterMap fun h => (targets h).map fun w => ⟨w, cmd.dwMsg, some (WfsResult.of cmd h b)⟩

/-- The vector answers as the map does. -/
inductive Agrees : RegistryReply A api → MapReply A → Prop
  | pushed : Agrees .pushed .pushed
  | returned (hr : HResult) (present : Bool) : (hr = api.wfsSuccess ↔ present = true) →
      Agrees (.returned hr) (.returned present)
  | posted (cmd : AnXfsResult A) (b : Option (LpBuffer A api)) (targets : HService → Option Dword)
      (posts : List (Message A api)) : eventHandler api cmd = .ok b → PostsTo cmd b targets posts →
      Agrees (.posted (.ok posts)) (.posted cmd targets)
  | silent (cmd : AnXfsResult A) (targets : HService → Option Dword) : (∀ h, targets h = none) →
      Agrees (.posted (.ok [])) (.posted cmd targets)

/-- No two records share a handle, and the map holds what each record does. -/
structure Represents (service : CanServiceInfoAdmi) (m : RegistryMap) : Prop where
  nodup : (service.map CanServiceInfo.hService).Nodup
  lookup : ∀ h, m h = (Table.lookup CanServiceInfo.hService h service).map fun ref => ⟨ref.dwEventClass, ref.hWndReg⟩

theorem represents_nil : Represents [] fun _ => none where
  nodup := List.nodup_nil
  lookup _ := rfl

namespace Represents

variable {service : CanServiceInfoAdmi} {m : RegistryMap}

theorem found (r : Represents service m) (h : HService) :
    CanServiceInfoAdmi.found service api h = api.wfsSuccess ↔ (m h).isSome = true := by
  rw [CanServiceInfoAdmi.found_iff, r.lookup, Option.isSome_map, Table.lookup_isSome]

theorem push (r : Represents service m) {h : HService} (hnew : ∀ ref ∈ service, ref.hService ≠ h)
    (lpszAppId : List UInt8) (dwSrvcVersionsRequired : Dword) :
    Represents (service.push h lpszAppId dwSrvcVersionsRequired) (Function.update m h (some ⟨0, 0⟩)) := by
  refine ⟨?_, fun k => ?_⟩
  · simp only [CanServiceInfoAdmi.push, List.map_append, List.map_cons, List.map_nil]
    refine r.nodup.append (List.nodup_singleton _) ?_
    intro k hk hk'
    obtain ⟨ref, href, rfl⟩ := List.mem_map.1 hk
    exact hnew ref href (List.mem_singleton.1 hk')
  · by_cases hk : k = h
    · subst hk
      have hkey : (CanServiceInfo.new k lpszAppId dwSrvcVersionsRequired).hService = k := rfl
      rw [Function.update_self, CanServiceInfoAdmi.push, Table.lookup_append_self hkey hnew]
      rfl
    · rw [Function.update_of_ne hk, CanServiceInfoAdmi.push, Table.lookup_append_of_ne (Ne.symm hk), r.lookup]

/-- A change of the first record of a handle is a change of the map at that handle. -/
theorem modify (r : Represents service m) (h : HService) {f : CanServiceInfo → CanServiceInfo}
    {g : Registration → Registration} (hf : ∀ ref, (f ref).hService = ref.hService)
    (hg : ∀ ref, (⟨(f ref).dwEventClass, (f ref).hWndReg⟩ : Registration) = g ⟨ref.dwEventClass, ref.hWndReg⟩) :
    Represents (CanServiceInfoAdmi.modifyFirst f h service) (Function.update m h ((m h).map g)) := by
  rw [CanServiceInfoAdmi.modifyFirst_eq]
  refine ⟨?_, fun k => ?_⟩
  · rw [Table.map_key_modify hf]
    exact r.nodup
  · by_cases hk : k = h
    · subst hk
      rw [Function.update_self, Table.lookup_modify_self hf, r.lookup]
      simp only [Option.map_map, Function.comp_def, hg]
    · rw [Function.update_of_ne hk, Table.lookup_modify_of_ne hf hk, r.lookup]

theorem close (api : XfsApi) (r : Represents service m) (h : HService) :
    Represents (service.closeService api h).1 (Function.update m h none) := by
  refine ⟨r.nodup.sublist (Table.map_key_delete_sublist h service), fun k => ?_⟩
  by_cases hk : k = h
  · subst hk
    rw [Function.update_self]
    have hnone := Table.lookup_delete_self r.nodup k
    unfold Table.delete at hnone
    rw [CanServiceInfoAdmi.closeService, hnone]
    rfl
  · rw [Function.update_of_ne hk, r.lookup]
    have hsame : Table.lookup CanServiceInfo.hService k (Table.delete CanServiceInfo.hService h service) =
        Table.lookup CanServiceInfo.hService k service := Table.lookup_delete_of_ne hk service
    unfold Table.delete at hsame
    rw [CanServiceInfoAdmi.closeService, hsame]

/-- A record whose mask meets a class is the target of its handle. -/
theorem target_of_mem (r : Represents service m) {ref : CanServiceInfo} (href : ref ∈ service) (eventclass : Dword) :
    m.targets eventclass ref.hService = if ref.dwEventClass &&& eventclass = 0 then none else some ref.hWndReg := by
  unfold RegistryMap.targets
  rw [r.lookup, Table.lookup_of_mem r.nodup href]
  rfl

theorem target_isSome (r : Represents service m) (eventclass : Dword) (h : HService) :
    (m.targets eventclass h).isSome ↔
      ∃ ref ∈ service, ref.hService = h ∧ ref.dwEventClass &&& eventclass ≠ 0 := by
  constructor
  · intro hs
    cases hl : Table.lookup CanServiceInfo.hService h service with
    | none => simp [RegistryMap.targets, r.lookup, hl] at hs
    | some ref =>
      obtain ⟨href, rfl⟩ := Table.lookup_some hl
      refine ⟨ref, href, rfl, fun hz => ?_⟩
      rw [r.target_of_mem href, if_pos hz] at hs
      cases hs
  · rintro ⟨ref, href, rfl, hne⟩
    rw [r.target_of_mem href, if_neg hne]
    rfl

/-- What the vector posts for an event whose payload decodes. -/
theorem postsTo (r : Represents service m) (cmd : AnXfsResult A) (b : Option (LpBuffer A api)) (eventclass : Dword) :
    PostsTo cmd b (m.targets eventclass)
      ((service.filter fun ref => ref.dwEventClass &&& eventclass ≠ 0).map (eventPost cmd b true)) := by
  refine ⟨(service.filter fun ref => ref.dwEventClass &&& eventclass ≠ 0).map CanServiceInfo.hService, ?_, ?_, ?_⟩
  · exact r.nodup.sublist (List.filter_sublist.map _)
  · intro h
    rw [r.target_isSome]
    simp only [List.mem_map, List.mem_filter, decide_eq_true_eq]
    constructor
    · rintro ⟨ref, ⟨href, hne⟩, rfl⟩
      exact ⟨ref, href, rfl, hne⟩
    · rintro ⟨ref, href, rfl, hne⟩
      exact ⟨ref, ⟨href, hne⟩, rfl⟩
  · rw [List.filterMap_map, ← List.filterMap_eq_map]
    refine List.filterMap_congr fun ref href => ?_
    obtain ⟨href, hne⟩ := List.mem_filter.1 href
    simp only [Function.comp_def, r.target_of_mem href, if_neg (of_decide_eq_true hne), Option.map_some]
    rfl

end Represents

/-- A payload that does not decode throws where there is a target. -/
theorem sendEvents_error {cmd : AnXfsResult A} {f : Fault} (hf : eventHandler api cmd = .error f) (eventclass : Dword) :
    ∀ service : CanServiceInfoAdmi, sendEvents api cmd eventclass true service =
      if ∃ ref ∈ service, ref.dwEventClass &&& eventclass ≠ 0 then .error f else .ok []
  | [] => by simp [sendEvents]
  | ref :: rest => by
    unfold sendEvents
    by_cases hclass : ref.dwEventClass &&& eventclass = 0
    · rw [if_pos hclass, sendEvents_error hf eventclass rest]
      have hmem : (∃ x ∈ ref :: rest, x.dwEventClass &&& eventclass ≠ 0) ↔
          ∃ x ∈ rest, x.dwEventClass &&& eventclass ≠ 0 := by
        rw [List.exists_mem_cons_iff]
        exact or_iff_right (not_not.2 hclass)
      exact if_congr hmem.symm rfl rfl
    · have hmem : ∃ x ∈ ref :: rest, x.dwEventClass &&& eventclass ≠ 0 := ⟨ref, List.mem_cons_self .., hclass⟩
      rw [if_neg hclass, if_pos hmem, hf]
      rfl

/-- The payload of an event is what its handler, if it has one, decodes. -/
def PayloadDecodes (api : XfsApi) (cmd : AnXfsResult A) : Prop :=
  (cmd.u = api.wfsSyseDeviceStatus →
    (unserializeResult (AnWfsDevstatus.codec A) cmd.lpBuffer.bytes).isSome) ∧
  (cmd.u = api.wfsSrveCimItemstaken → (unserializeResult AnWfsCimPositionInfo.codec cmd.lpBuffer.bytes).isSome)

instance (api : XfsApi) (cmd : AnXfsResult A) : Decidable (PayloadDecodes api cmd) := by
  unfold PayloadDecodes; infer_instance

theorem decodeAs_ok {T : Type} (f : Codec T) (up : T → LpBuffer A api) (buffer : StdString A) :
    (∃ b, decodeAs f up buffer = .ok b) ↔ (unserializeResult f buffer.bytes).isSome := by
  unfold decodeAs
  cases unserializeResult f buffer.bytes with
  | none => simp
  | some v => simp

theorem payloadDecodes_iff (api : XfsApi) (cmd : AnXfsResult A) :
    PayloadDecodes api cmd ↔ ∃ b, eventHandler api cmd = .ok b := by
  have hmap : ∀ r : Except Fault (LpBuffer A api), (∃ b, r.map some = .ok b) ↔ ∃ b, r = .ok b := by
    intro r
    cases r <;> simp [Except.map]
  have hne : api.wfsSyseDeviceStatus ≠ api.wfsSrveCimItemstaken := by
    have hnodup := api.events_nodup
    simpa using hnodup
  unfold PayloadDecodes eventHandler
  by_cases hdev : cmd.u = api.wfsSyseDeviceStatus
  · rw [if_pos hdev, hmap, decodeAs_ok]
    simp [hdev, hne]
  by_cases hitem : cmd.u = api.wfsSrveCimItemstaken
  · rw [if_neg hdev, if_pos hitem, hmap, decodeAs_ok]
    simp [hitem, hne.symm]
  · rw [if_neg hdev, if_neg hitem]
    simp [hdev, hitem]

/-- The payload of an event decodes, or no record is registered for its class. -/
def SendsDecodable (api : XfsApi) (service : CanServiceInfoAdmi) : RegistryOp A → Prop
  | .sendEvents cmd eventclass => PayloadDecodes api cmd ∨ ∀ ref ∈ service, ref.dwEventClass &&& eventclass = 0
  | _ => True

instance (service : CanServiceInfoAdmi) (op : RegistryOp A) : Decidable (SendsDecodable api service op) := by
  unfold SendsDecodable; split <;> infer_instance

theorem sendEvents_agrees {service : CanServiceInfoAdmi} {m : RegistryMap} (r : Represents service m)
    (cmd : AnXfsResult A) (eventclass : Dword) :
    Agrees (.posted (sendEvents api cmd eventclass true service)) (.posted cmd (m.targets eventclass)) ↔
      SendsDecodable api service (.sendEvents cmd eventclass) := by
  show _ ↔ PayloadDecodes api cmd ∨ _
  rw [payloadDecodes_iff]
  cases hb : eventHandler api cmd with
  | ok b =>
    refine iff_of_true ?_ (.inl ⟨b, rfl⟩)
    rw [sendEvents_eq hb]
    exact .posted cmd b _ _ hb (r.postsTo cmd b eventclass)
  | error f =>
    rw [sendEvents_error hb]
    by_cases ht : ∃ ref ∈ service, ref.dwEventClass &&& eventclass ≠ 0
    · rw [if_pos ht]
      refine iff_of_false (fun h => by cases h) ?_
      rintro (⟨b, hb⟩ | hnone)
      · cases hb
      · obtain ⟨ref, href, hne⟩ := ht
        exact hne (hnone ref href)
    · rw [if_neg ht]
      push Not at ht
      refine iff_of_true (.silent cmd _ fun h => ?_) (.inr ht)
      rw [← Option.not_isSome_iff_eq_none, r.target_isSome]
      rintro ⟨ref, href, -, hne⟩
      exact hne (ht ref href)

theorem represents_step {service service' : CanServiceInfoAdmi} {m : RegistryMap} {op : RegistryOp A}
    {e : List (RegistryReply A api)} (r : Represents service m) (hnew : PushesNew service op)
    (hs : (registryMachine A api).step service op = some (service', e)) :
    ∃ m' f, (mapMachine A).step m op = some (m', f) ∧ Represents service' m' ∧ e.length = f.length ∧
      (List.Forall₂ Agrees e f ↔ SendsDecodable api service op) := by
  cases op with
  | push h appId version =>
    cases hs
    exact ⟨_, _, rfl, r.push hnew appId version, rfl, iff_of_true (.cons .pushed .nil) trivial⟩
  | findService h =>
    cases hs
    exact ⟨_, _, rfl, r, rfl, iff_of_true (.cons (.returned _ _ (r.found h)) .nil) trivial⟩
  | registerEvent h eventclass wnd =>
    cases hs
    exact ⟨_, _, rfl, r.modify h (fun _ => rfl) (fun _ => rfl), rfl,
      iff_of_true (.cons (.returned _ _ (r.found h)) .nil) trivial⟩
  | deregisterEvent h eventclass wnd =>
    cases hs
    exact ⟨_, _, rfl, r.modify h (fun _ => rfl) (fun _ => rfl), rfl,
      iff_of_true (.cons (.returned _ _ (r.found h)) .nil) trivial⟩
  | closeService h =>
    cases hs
    exact ⟨_, _, rfl, r.close api h, rfl, iff_of_true (.cons (.returned _ _ (r.found h)) .nil) trivial⟩
  | sendEvents cmd eventclass =>
    cases hs
    refine ⟨_, _, rfl, r, rfl, ?_⟩
    rw [← sendEvents_agrees r]
    simp

/-- Each reply of the vector is one that the map gives too. -/
theorem agrees_of_mem {es : List (RegistryReply A api)} {fs : List (MapReply A)} (h : List.Forall₂ Agrees es fs)
    {e : RegistryReply A api} (he : e ∈ es) : ∃ f, Agrees e f := by
  induction h with
  | nil => cases he
  | cons hr _ ih =>
    rcases List.mem_cons.1 he with rfl | he
    · exact ⟨_, hr⟩
    · exact ih he

/-- The map takes the same operations from the start, ends up with what the vector holds, and answers the same. -/
def Refines (is : List (RegistryOp A)) (service : CanServiceInfoAdmi) (es : List (RegistryReply A api)) : Prop :=
  ∃ m fs, (mapMachine A).run (fun _ => none) is = some (m, fs) ∧ Represents service m ∧ List.Forall₂ Agrees es fs

/-- In every run of the registry's operations in which `push` is called for new handles only, the vector answers
as the map from handles to masks and windows does, exactly if every event that has a target decodes. -/
theorem registry_refines_map_iff {is : List (RegistryOp A)} {service : CanServiceInfoAdmi}
    {es : List (RegistryReply A api)} (hnew : (registryMachine A api).Meets PushesNew [] is)
    (hr : (registryMachine A api).run [] is = some (service, es)) :
    Refines is service es ↔ (registryMachine A api).Meets (SendsDecodable api) [] is := by
  obtain ⟨m, fs, hm, hrep, hiff⟩ := Machine.run_simulates_iff (N := mapMachine A) (R := Represents)
    (fun _ _ _ _ _ r hg hs => represents_step r hg hs) represents_nil hnew hr
  rw [← hiff]
  constructor
  · rintro ⟨m', fs', hm', -, hagrees⟩
    cases hm.symm.trans hm'
    exact hagrees
  · intro hagrees
    exact ⟨m, fs, hm, hrep, hagrees⟩

/-- Service 1 is opened, registered, closed and opened again, next to service 2, and an event of class 1 comes. -/
def reopened : List (RegistryOp .x86) :=
  [.push 1 [] 0, .push 2 [] 0, .registerEvent 1 1 77, .registerEvent 2 5 78, .closeService 1, .push 1 [] 0,
    .findService 1, .deregisterEvent 2 4 78,
    .sendEvents (AnXfsResult.new .x86 ⟨0, 0, 0, 0, 0, 0, 0, 0⟩) 1]

theorem reopened_refines_map : ∃ service es,
    (registryMachine .x86 .documented).run [] reopened = some (service, es) ∧ Refines reopened service es := by
  obtain ⟨service, es, hr, -⟩ : ∃ service es, (registryMachine .x86 .documented).run [] reopened =
      some (service, es) ∧ service.length = 2 := Machine.run_any (by decide)
  exact ⟨service, es, hr, (registry_refines_map_iff (by decide) hr).2 (by decide)⟩

/-- A window is registered for the system events of service 1, and a device status without its payload comes. -/
def emptyStatus : List (RegistryOp .x86) :=
  [.push 1 [] 0, .registerEvent 1 XfsApi.documented.systemEvents 77,
    .sendEvents { AnXfsResult.new .x86 ⟨0, 0, 0, 0, 0, 0, 0, 0⟩ with
      dwMsg := XfsApi.documented.wfsSystemEvent
      u := XfsApi.documented.wfsSyseDeviceStatus } XfsApi.documented.systemEvents]

/-- The event is posted to no window, although the map has one for it. -/
theorem emptyStatus_refines_no_map : ∃ service es,
    (registryMachine .x86 .documented).run [] emptyStatus = some (service, es) ∧
    (registryMachine .x86 .documented).Meets PushesNew [] emptyStatus ∧ ¬ Refines emptyStatus service es := by
  obtain ⟨service, es, hr, hthrew⟩ : ∃ service es, (registryMachine .x86 .documented).run [] emptyStatus =
      some (service, es) ∧ (es.any fun | .posted (.error _) => true | _ => false) = true :=
    Machine.run_any (by decide)
  refine ⟨service, es, hr, by decide, ?_⟩
  rintro ⟨m, fs, -, -, hagrees⟩
  obtain ⟨r, hr, hthrew⟩ := List.any_eq_true.1 hthrew
  obtain ⟨f, hf⟩ := agrees_of_mem hagrees hr
  cases hf <;> cases hthrew

end AnXfs.Client
