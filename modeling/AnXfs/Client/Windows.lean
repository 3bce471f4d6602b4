/-
Which windows an event reaches, against what the history of registrations asks for. A record keeps one
window and one mask for all windows of its service, and a Deregister does not look at its window: the
two agree as long as each service is registered from one window at a time, and no longer.
-/
import AnXfs.Client.Outcome
import AnXfs.Run.Machine

namespace AnXfs.Client

open AnXfs.Wire AnXfs.Pack AnXfs.Data AnXfs.Run
open CanServiceInfoAdmi (registerRecord registerRecord_hService deregisterRecord deregisterRecord_hService)

variable {A : Arch} {api : XfsApi}

/-! ## Classes -/

/-- The classes of the two events that the server broadcasts. -/
def eventClasses (api : XfsApi) : List Dword := [api.serviceEvents, api.systemEvents]

/-- A class is a single bit of a mask. -/
def IsBit (c : Dword) : Prop := ∃ k < 32, c = BitVec.twoPow 32 k

theorem IsBit.and_eq_zero {c : Dword} (hc : IsBit c) :
    ∃ k, k < 32 ∧ ∀ a : Dword, a &&& c = 0 ↔ a.getLsbD k = false := by
  obtain ⟨k, hk, rfl⟩ := hc
  refine ⟨k, hk, fun a => ?_⟩
  rw [BitVec.and_twoPow]
  cases h : a.getLsbD k with
  | false => simp
  | true =>
    simp only [if_true, Bool.true_eq_false, iff_false]
    intro hz
    have hbit := congrArg (fun x : Dword => x.getLsbD k) hz
    simp [hk] at hbit

theorem IsBit.or_ne_zero {c : Dword} (hc : IsBit c) (a b : Dword) :
    (a ||| b) &&& c ≠ 0 ↔ a &&& c ≠ 0 ∨ b &&& c ≠ 0 := by
  obtain ⟨k, -, h⟩ := hc.and_eq_zero
  simp only [ne_eq, h, BitVec.getLsbD_or, Bool.or_eq_false_iff]
  tauto

theorem IsBit.andNot_ne_zero {c : Dword} (hc : IsBit c) (a b : Dword) :
    (a &&& ~~~b) &&& c ≠ 0 ↔ a &&& c ≠ 0 ∧ ¬ b &&& c ≠ 0 := by
  obtain ⟨k, hk, h⟩ := hc.and_eq_zero
  simp only [ne_eq, h, BitVec.getLsbD_and, BitVec.getLsbD_not, hk, decide_true, Bool.true_and]
  cases a.getLsbD k <;> cases b.getLsbD k <;> simp

/-! ## The history -/

/-- Some Register of the service from the window with the class was not followed by a Deregister of it from
that window with the class. -/
def Registered (h : List SpiCall) (eventclass : Dword) (hService : HService) (hWndReg : Dword) : Prop :=
  ∃ pre mask hWnd reqId post, h = pre ++ .wfpRegister hService mask hWndReg hWnd reqId :: post ∧
    mask &&& eventclass ≠ 0 ∧
    ∀ mask' hWnd' reqId', .wfpDeregister hService mask' hWndReg hWnd' reqId' ∈ post → mask' &&& eventclass = 0

theorem not_registered_nil (e : Dword) (s : HService) (w : Dword) : ¬ Registered [] e s w := by
  rintro ⟨pre, mask, hWnd, reqId, post, h, -⟩
  simp at h

/-- One more call: it is the Register asked for, or it takes an earlier one away, or it is another call. -/
theorem registered_concat {h : List SpiCall} {call : SpiCall} {e : Dword} {s : HService} {w : Dword} :
    Registered (h ++ [call]) e s w ↔
      (∃ mask hWnd reqId, call = .wfpRegister s mask w hWnd reqId ∧ mask &&& e ≠ 0) ∨
      Registered h e s w ∧ ∀ mask hWnd reqId, call = .wfpDeregister s mask w hWnd reqId → mask &&& e = 0 := by
  constructor
  · rintro ⟨pre, mask, hWnd, reqId, post, heq, hmask, hpost⟩
    rcases List.eq_nil_or_concat post with rfl | ⟨post', last, rfl⟩
    · obtain ⟨-, hlast⟩ := List.append_inj' heq rfl
      obtain rfl := List.singleton_inj.1 hlast
      exact .inl ⟨mask, hWnd, reqId, rfl, hmask⟩
    · rw [List.concat_eq_append] at heq hpost
      have heq' : h ++ [call] = (pre ++ .wfpRegister s mask w hWnd reqId :: post') ++ [last] := by simpa using heq
      obtain ⟨rfl, hlast⟩ := List.append_inj' heq' rfl
      obtain rfl := List.singleton_inj.1 hlast
      refine .inr ⟨⟨pre, mask, hWnd, reqId, post', rfl, hmask, fun m' w' r' hm => ?_⟩, fun m' w' r' hm => ?_⟩
      · exact hpost m' w' r' (List.mem_append_left _ hm)
      · exact hpost m' w' r' (by rw [← hm]; simp)
  · rintro (⟨mask, hWnd, reqId, rfl, hmask⟩ | ⟨⟨pre, mask, hWnd, reqId, post, rfl, hmask, hpost⟩, hcall⟩)
    · exact ⟨h, mask, hWnd, reqId, [], rfl, hmask, fun _ _ _ hm => by cases hm⟩
    · refine ⟨pre, mask, hWnd, reqId, post ++ [call], by simp, hmask, fun m' w' r' hm => ?_⟩
      rcases List.mem_append.1 hm with hm | hm
      · exact hpost m' w' r' hm
      · exact hcall m' w' r' (List.mem_singleton.1 hm).symm

/-! ## The records -/

/-- The record of the service has the window, and its mask meets the class. -/
def Reaches (service : CanServiceInfoAdmi) (e : Dword) (s : HService) (w : Dword) : Prop :=
  ∃ ref ∈ Table.lookup CanServiceInfo.hService s service, ref.hWndReg = w ∧ ref.dwEventClass &&& e ≠ 0

/-- Behind the first record of a service there are only records that were never registered. -/
def FirstOnly (service : CanServiceInfoAdmi) : Prop :=
  service.Pairwise fun ref ref' => ref'.hService = ref.hService → ref'.dwEventClass = 0

theorem FirstOnly.modify {service : CanServiceInfoAdmi} (hf : FirstOnly service) {f : CanServiceInfo → CanServiceInfo}
    (hkey : ∀ ref, (f ref).hService = ref.hService) (s : HService) :
    FirstOnly (Table.modify CanServiceInfo.hService f s service) := by
  unfold FirstOnly at hf ⊢
  induction service with
  | nil => exact hf
  | cons ref rest ih =>
    rw [List.pairwise_cons] at hf
    unfold Table.modify
    by_cases hs : ref.hService = s
    · rw [if_pos hs, List.pairwise_cons]
      exact ⟨fun ref' href' heq => hf.1 ref' href' (heq.trans (hkey ref)), hf.2⟩
    · rw [if_neg hs, List.pairwise_cons]
      refine ⟨fun ref' href' heq => ?_, ih hf.2⟩
      -- the record changed is of another service
      have hne : ref'.hService ≠ s := fun h => hs (heq.symm.trans h)
      refine hf.1 ref' ?_ heq
      exact Table.mem_of_mem_modify hkey href' hne

/-- An event is posted to a window for a service at most once, and exactly if the service's record says so. -/
theorem countP_eq_one_iff {service : CanServiceInfoAdmi} (hf : FirstOnly service) (e : Dword) (s : HService)
    (w : Dword) :
    service.countP (fun ref => ref.hService = s ∧ ref.hWndReg = w ∧ ref.dwEventClass &&& e ≠ 0) = 1 ↔
      Reaches service e s w := by
  unfold Reaches
  induction service with
  | nil => simp [Table.lookup]
  | cons ref rest ih =>
    unfold FirstOnly at hf
    rw [List.pairwise_cons] at hf
    by_cases hs : ref.hService = s
    · have hrest : rest.countP (fun ref => ref.hService = s ∧ ref.hWndReg = w ∧ ref.dwEventClass &&& e ≠ 0) = 0 := by
        rw [List.countP_eq_zero]
        intro ref' href'
        simp only [decide_eq_true_eq, not_and]
        intro hs' _
        rw [hf.1 ref' href' (hs'.trans hs.symm)]
        simp
      rw [List.countP_cons, hrest, Table.lookup_cons_self hs]
      simp [hs]
    · rw [List.countP_cons_of_neg (by simp [hs]), Table.lookup_cons_of_ne hs]
      exact ih hf.2

/-- The message went to the window, for the service. -/
def PostedTo (s : HService) (w : Dword) (p : Message A api) : Bool :=
  p.hWnd = w ∧ p.lParam.map WfsResult.hService = some s

theorem countP_posts (r : AnXfsResult A) (b : Option (LpBuffer A api)) (e : Dword) (s : HService) (w : Dword)
    (service : CanServiceInfoAdmi) :
    ((service.filter fun ref => ref.dwEventClass &&& e ≠ 0).map (eventPost r b true)).countP (PostedTo s w) =
      service.countP fun ref => ref.hService = s ∧ ref.hWndReg = w ∧ ref.dwEventClass &&& e ≠ 0 := by
  rw [List.countP_map, List.countP_filter]
  congr 1
  funext ref
  simp only [Function.comp_def, PostedTo, eventPost, if_true, Option.map_some, WfsResult.of, Option.some.injEq,
    ← Bool.decide_and, decide_eq_decide]
  tauto

/-! ## Delivery -/

/-- Every service or system event whose payload decodes is posted exactly once to those windows, for those
services, that the history leaves registered for its class. -/
def Delivers (A : Arch) (api : XfsApi) (h : List SpiCall) (service : CanServiceInfoAdmi) : Prop :=
  ∀ (r : AnXfsResult A) (b : Option (LpBuffer A api)), r.dwMsg = api.wfsServiceEvent ∨ r.dwMsg = api.wfsSystemEvent →
    eventHandler api r = .ok b →
    ∃ posts, sendEvents api r (anGetXfsmessageClass api r.dwMsg) true service = .ok posts ∧
      ∀ s w, posts.countP (PostedTo s w) = 1 ↔ Registered h (anGetXfsmessageClass api r.dwMsg) s w

/-- The records say of both classes what the history says. -/
def Tracks (api : XfsApi) (h : List SpiCall) (service : CanServiceInfoAdmi) : Prop :=
  ∀ e ∈ eventClasses api, ∀ s w, Reaches service e s w ↔ Registered h e s w

theorem exists_other (a b : Dword) : ∃ u : Dword, u ≠ a ∧ u ≠ b := by
  by_contra h
  push Not at h
  have h0 := h 0
  have h1 := h 1
  have h2 := h 2
  by_cases ha : (0 : Dword) = a
  · have hb1 : (1 : Dword) = b := h1 (by rw [← ha]; decide)
    have hb2 : (2 : Dword) = b := h2 (by rw [← ha]; decide)
    exact absurd (hb1.trans hb2.symm) (by decide)
  · have hb0 : (0 : Dword) = b := h0 ha
    by_cases ha1 : (1 : Dword) = a
    · exact absurd ((h2 (by rw [← ha1]; decide)).trans hb0.symm) (by decide)
    · exact absurd ((h1 ha1).trans hb0.symm) (by decide)

theorem delivers_iff_tracks {h : List SpiCall} {service : CanServiceInfoAdmi} (hf : FirstOnly service) :
    Delivers A api h service ↔ Tracks api h service := by
  constructor
  · intro hd e he s w
    -- an event that no handler looks into
    obtain ⟨u, hu₁, hu₂⟩ := exists_other api.wfsSyseDeviceStatus api.wfsSrveCimItemstaken
    obtain ⟨msg, hmsg, hclass⟩ : ∃ msg, (msg = api.wfsServiceEvent ∨ msg = api.wfsSystemEvent) ∧
        anGetXfsmessageClass api msg = e := by
      simp only [eventClasses, List.mem_cons, List.not_mem_nil, or_false] at he
      rcases he with rfl | rfl
      · exact ⟨_, .inl rfl, class_of_service_event api⟩
      · exact ⟨_, .inr rfl, class_of_system_event api⟩
    let r : AnXfsResult A := { AnXfsResult.new A ⟨0, 0, 0, 0, 0, 0, 0, 0⟩ with dwMsg := msg, u := u }
    have hb : eventHandler api r = .ok none := by
      unfold eventHandler
      rw [if_neg hu₁, if_neg hu₂]
    obtain ⟨posts, hposts, hcount⟩ := hd r none hmsg hb
    rw [sendEvents_eq hb] at hposts
    cases hposts
    have := hcount s w
    rw [countP_posts, show anGetXfsmessageClass api r.dwMsg = e from hclass, countP_eq_one_iff hf] at this
    exact this
  · intro ht r b hmsg hb
    refine ⟨_, sendEvents_eq hb _ _ _, fun s w => ?_⟩
    rw [countP_posts, countP_eq_one_iff hf]
    refine ht _ ?_ s w
    rcases hmsg with hmsg | hmsg <;> rw [hmsg]
    · rw [class_of_service_event]
      simp [eventClasses]
    · rw [class_of_system_event]
      simp [eventClasses]

/-! ## Calls -/

/-- The successful calls of `WFPRegister` and `WFPDeregister`. -/
def registering (A : Arch) (api : XfsApi) : Machine AnCimSp (SpiCall × CallEnv) SpiCall where
  step c i :=
    match i.1 with
    | .wfpRegister .. | .wfpDeregister .. =>
      let (c', hr) := i.1.invoke A api c i.2
      if hr = api.wfsSuccess then some (c', [i.1]) else none
    | _ => none

/-- A Register comes from the window the service is registered from, or the service is registered for no class;
a Deregister comes from that window, or takes away no class the service is registered for. -/
def OneWindow (api : XfsApi) (c : AnCimSp) (i : SpiCall × CallEnv) : Prop :=
  match i.1 with
  | .wfpRegister hService _ hWndReg _ _ =>
    ∀ ref ∈ Table.lookup CanServiceInfo.hService hService c.service,
      hWndReg = ref.hWndReg ∨ ∀ e ∈ eventClasses api, ref.dwEventClass &&& e = 0
  | .wfpDeregister hService dwEventClass hWndReg _ _ =>
    ∀ ref ∈ Table.lookup CanServiceInfo.hService hService c.service,
      hWndReg = ref.hWndReg ∨ ∀ e ∈ eventClasses api, ref.dwEventClass &&& e ≠ 0 → dwEventClass &&& e = 0
  | _ => True

instance (c : AnCimSp) (i : SpiCall × CallEnv) : Decidable (OneWindow api c i) := by
  unfold OneWindow; split <;> infer_instance

/-- A request that succeeds was for a service that is there. -/
theorem request_success {c : AnCimSp} {hr : HResult} {m : Command A} {env : CallEnv}
    (h : (c.request A api hr m env).2 = api.wfsSuccess) : hr = api.wfsSuccess := by
  rcases @request_cases A api c hr m env with ⟨-, hq⟩ | ⟨hhr, -⟩ | ⟨hhr, -⟩ | ⟨hhr, -⟩
  · rw [hq] at h
    exact h
  · exact hhr
  · exact hhr
  · exact hhr

/-- What a successful Register or Deregister does to the registry: it changes the first record of its service. -/
theorem registering_step {c c' : AnCimSp} {i : SpiCall × CallEnv} {calls : List SpiCall}
    (hs : (registering A api).step c i = some (c', calls)) :
    calls = [i.1] ∧ ∃ ref, Table.lookup CanServiceInfo.hService i.1.hService c.service = some ref ∧
      ((∃ mask w hWnd reqId, i.1 = .wfpRegister i.1.hService mask w hWnd reqId ∧
          c'.service = Table.modify CanServiceInfo.hService (registerRecord mask w) i.1.hService c.service) ∨
        ∃ mask w hWnd reqId, i.1 = .wfpDeregister i.1.hService mask w hWnd reqId ∧
          c'.service = Table.modify CanServiceInfo.hService (deregisterRecord mask) i.1.hService c.service) := by
  obtain ⟨call, env⟩ := i
  have hfound : ∀ {s : HService}, CanServiceInfoAdmi.found c.service api s = api.wfsSuccess →
      ∃ ref, Table.lookup CanServiceInfo.hService s c.service = some ref := fun hf =>
    Option.isSome_iff_exists.1 (Table.lookup_isSome.2 (CanServiceInfoAdmi.found_iff.1 hf))
  cases call with
  | wfpRegister s mask w hWnd reqId =>
    simp only [registering] at hs
    split at hs
    · rename_i hr
      cases hs
      obtain ⟨ref, href⟩ := hfound (request_success hr)
      refine ⟨rfl, ref, href, .inl ⟨mask, w, hWnd, reqId, rfl, ?_⟩⟩
      exact (request_service _ _ _ _).trans (CanServiceInfoAdmi.modifyFirst_eq _ _ _)
    · cases hs
  | wfpDeregister s mask w hWnd reqId =>
    simp only [registering] at hs
    split at hs
    · rename_i hr
      cases hs
      obtain ⟨ref, href⟩ := hfound (request_success hr)
      refine ⟨rfl, ref, href, .inr ⟨mask, w, hWnd, reqId, rfl, ?_⟩⟩
      exact (request_service _ _ _ _).trans (CanServiceInfoAdmi.modifyFirst_eq _ _ _)
    · cases hs
  | _ => cases hs

/-! ## One call -/

section Call

variable {h : List SpiCall} {service : CanServiceInfoAdmi}

theorem reaches_modify_of_ne {f : CanServiceInfo → CanServiceInfo} (hkey : ∀ ref, (f ref).hService = ref.hService)
    {s s' : HService} (hne : s' ≠ s) (e : Dword) (w : Dword) :
    Reaches (Table.modify CanServiceInfo.hService f s service) e s' w ↔ Reaches service e s' w := by
  unfold Reaches
  rw [Table.lookup_modify_of_ne hkey hne]

theorem reaches_modify_self {f : CanServiceInfo → CanServiceInfo} (hkey : ∀ ref, (f ref).hService = ref.hService)
    {s : HService} {ref : CanServiceInfo} (hl : Table.lookup CanServiceInfo.hService s service = some ref)
    (e w : Dword) :
    Reaches (Table.modify CanServiceInfo.hService f s service) e s w ↔
      (f ref).hWndReg = w ∧ (f ref).dwEventClass &&& e ≠ 0 := by
  unfold Reaches
  rw [Table.lookup_modify_self hkey, hl]
  simp

/-- A call of one service leaves what the records and the history say of the others. -/
theorem tracks_call_iff (ht : Tracks api h service) {f : CanServiceInfo → CanServiceInfo}
    (hkey : ∀ ref, (f ref).hService = ref.hService) {call : SpiCall} {s : HService} (hcall : call.hService = s) :
    Tracks api (h ++ [call]) (Table.modify CanServiceInfo.hService f s service) ↔ ∀ e ∈ eventClasses api, ∀ w,
      (Reaches (Table.modify CanServiceInfo.hService f s service) e s w ↔ Registered (h ++ [call]) e s w) := by
  subst hcall
  constructor
  · intro hn e he w
    exact hn e he _ w
  · intro hs e he s' w
    by_cases hne : s' = call.hService
    · subst hne
      exact hs e he w
    · rw [reaches_modify_of_ne hkey hne, ht e he, registered_concat]
      have hreg : ¬ ∃ mask hWnd reqId, call = .wfpRegister s' mask w hWnd reqId ∧ mask &&& e ≠ 0 := by
        rintro ⟨mask, hWnd, reqId, rfl, -⟩
        exact hne rfl
      have hdereg : ∀ mask hWnd reqId, call = .wfpDeregister s' mask w hWnd reqId → mask &&& e = 0 := by
        rintro mask hWnd reqId rfl
        exact absurd rfl hne
      rw [or_iff_right hreg]
      exact (and_iff_left hdereg).symm

/-- What the history leaves registered for a service is what its first record says. -/
theorem registered_iff (ht : Tracks api h service) {s : HService} {ref : CanServiceInfo}
    (hl : Table.lookup CanServiceInfo.hService s service = some ref) {e : Dword} (he : e ∈ eventClasses api)
    (w : Dword) : Registered h e s w ↔ ref.hWndReg = w ∧ ref.dwEventClass &&& e ≠ 0 := by
  rw [← ht e he, Reaches, hl]
  simp

variable (hbit : ∀ e ∈ eventClasses api, IsBit e) (ht : Tracks api h service) {s : HService} {ref : CanServiceInfo}
  (hl : Table.lookup CanServiceInfo.hService s service = some ref)

include hbit ht hl

theorem tracks_register_iff (mask w hWnd : Dword) (reqId : RequestId) :
    Tracks api (h ++ [.wfpRegister s mask w hWnd reqId])
        (Table.modify CanServiceInfo.hService (registerRecord mask w) s service) ↔
      (w = ref.hWndReg ∨ ∀ e ∈ eventClasses api, ref.dwEventClass &&& e = 0) := by
  have hcall : (SpiCall.wfpRegister s mask w hWnd reqId).hService = s := rfl
  rw [tracks_call_iff ht (registerRecord_hService mask w) hcall]
  have hnew : ∀ e ∈ eventClasses api, ∀ w', Registered (h ++ [.wfpRegister s mask w hWnd reqId]) e s w' ↔
      (w = w' ∧ mask &&& e ≠ 0) ∨ (ref.hWndReg = w' ∧ ref.dwEventClass &&& e ≠ 0) := by
    intro e he w'
    rw [registered_concat, registered_iff ht hl he]
    simp only [SpiCall.wfpRegister.injEq, reduceCtorEq, false_implies, implies_true, and_true, true_and]
    constructor
    · rintro (⟨m, -, -, ⟨rfl, rfl, -, -⟩, hm⟩ | hr)
      · exact .inl ⟨rfl, hm⟩
      · exact .inr hr
    · rintro (⟨rfl, hm⟩ | hr)
      · exact .inl ⟨mask, hWnd, reqId, ⟨rfl, rfl, rfl, rfl⟩, hm⟩
      · exact .inr hr
  constructor
  · intro hall
    by_contra hcon
    push Not at hcon
    obtain ⟨hw, e, he, hme⟩ := hcon
    -- the old window is still registered for the class, and the record has the new one
    have := hall e he ref.hWndReg
    rw [reaches_modify_self (registerRecord_hService mask w) hl, hnew e he] at this
    exact hw (this.2 (.inr ⟨rfl, hme⟩)).1
  · intro hg e he w'
    rw [reaches_modify_self (registerRecord_hService mask w) hl, hnew e he, registerRecord, (hbit e he).or_ne_zero]
    rcases hg with rfl | hg
    · tauto
    · have := hg e he
      tauto

theorem tracks_deregister_iff (mask w hWnd : Dword) (reqId : RequestId) :
    Tracks api (h ++ [.wfpDeregister s mask w hWnd reqId])
        (Table.modify CanServiceInfo.hService (deregisterRecord mask) s service) ↔
      (w = ref.hWndReg ∨ ∀ e ∈ eventClasses api, ref.dwEventClass &&& e ≠ 0 → mask &&& e = 0) := by
  have hcall : (SpiCall.wfpDeregister s mask w hWnd reqId).hService = s := rfl
  rw [tracks_call_iff ht (deregisterRecord_hService mask) hcall]
  have hnew : ∀ e ∈ eventClasses api, ∀ w', Registered (h ++ [.wfpDeregister s mask w hWnd reqId]) e s w' ↔
      (ref.hWndReg = w' ∧ ref.dwEventClass &&& e ≠ 0) ∧ (w = w' → mask &&& e = 0) := by
    intro e he w'
    rw [registered_concat, registered_iff ht hl he]
    simp only [SpiCall.wfpDeregister.injEq, reduceCtorEq, false_and, exists_false, false_or, true_and]
    refine and_congr_right fun _ => ?_
    constructor
    · rintro hm rfl
      exact hm mask hWnd reqId ⟨rfl, rfl, rfl, rfl⟩
    · rintro hm _ _ _ ⟨rfl, rfl, -, -⟩
      exact hm rfl
  constructor
  · intro hall
    by_contra hcon
    push Not at hcon
    obtain ⟨hw, e, he, hme, hmask⟩ := hcon
    -- the record's window is still registered for the class, and the record has lost it
    have := hall e he ref.hWndReg
    rw [reaches_modify_self (deregisterRecord_hService mask) hl, hnew e he, deregisterRecord,
      (hbit e he).andNot_ne_zero] at this
    exact (this.2 ⟨⟨rfl, hme⟩, fun h => absurd h hw⟩).2.2 hmask
  · intro hg e he w'
    rw [reaches_modify_self (deregisterRecord_hService mask) hl, hnew e he, deregisterRecord,
      (hbit e he).andNot_ne_zero]
    rcases hg with rfl | hg
    · tauto
    · have := hg e he
      tauto

end Call

/-! ## All runs -/

theorem tracks_step_iff (hbit : ∀ e ∈ eventClasses api, IsBit e) {h : List SpiCall} {c c' : AnCimSp}
    {i : SpiCall × CallEnv} {calls : List SpiCall} (hf : FirstOnly c.service) (ht : Tracks api h c.service)
    (hs : (registering A api).step c i = some (c', calls)) :
    FirstOnly c'.service ∧ (Tracks api (h ++ calls) c'.service ↔ OneWindow api c i) := by
  obtain ⟨rfl, ref, hl, ⟨mask, w, hWnd, reqId, hcall, hservice⟩ | ⟨mask, w, hWnd, reqId, hcall, hservice⟩⟩ :=
    registering_step hs
  · rw [hservice]
    refine ⟨hf.modify (registerRecord_hService mask w) _, ?_⟩
    generalize i.1.hService = s at hl hcall
    unfold OneWindow
    rw [hcall, tracks_register_iff hbit ht hl]
    simp [hl]
  · rw [hservice]
    refine ⟨hf.modify (deregisterRecord_hService mask) _, ?_⟩
    generalize i.1.hService = s at hl hcall
    unfold OneWindow
    rw [hcall, tracks_deregister_iff hbit ht hl]
    simp [hl]

/-- In every run of successful Registers and Deregisters on services that were opened and not registered yet,
each event goes to exactly the windows the history leaves registered for it, after every call, if and only if every
call is made from one window: that of the service's last registration, unless none of its classes is at stake. -/
theorem events_follow_history_iff (hbit : ∀ e ∈ eventClasses api, IsBit e) {c t : AnCimSp}
    {is : List (SpiCall × CallEnv)} {calls : List SpiCall} (hc : ∀ ref ∈ c.service, ref.dwEventClass = 0)
    (hr : (registering A api).run c is = some (t, calls)) :
    (registering A api).AtEach (fun h _ _ t e _ => Delivers A api (h ++ e) t.service) c is ↔
      (registering A api).Meets (OneWindow api) c is := by
  refine Machine.atEach_iff_meets (I := fun h c => FirstOnly c.service ∧ Tracks api h c.service)
    (P := fun h _ _ t e => Delivers A api (h ++ e) t.service) ?_ ?_ ⟨?_, ?_⟩ hr
  · rintro h c i c' calls ⟨hf, ht⟩ hs
    obtain ⟨hf', htracks⟩ := tracks_step_iff hbit hf ht hs
    rw [delivers_iff_tracks hf', htracks]
  · rintro h c i c' calls ⟨hf, ht⟩ hg hs
    obtain ⟨hf', htracks⟩ := tracks_step_iff hbit hf ht hs
    exact ⟨hf', htracks.2 hg⟩
  · exact List.pairwise_of_forall_mem_list fun _ _ ref' href' _ => hc ref' href'
  · intro e _ s w
    refine iff_of_false ?_ (not_registered_nil e s w)
    rintro ⟨ref, hl, -, hne⟩
    rw [hc ref (Table.lookup_some hl).1] at hne
    exact hne (BitVec.zero_and)

/-- Service 1 is registered from window 77, moves to window 78 when nothing is left of that, and adds a class. -/
def movedWindow : List (SpiCall × CallEnv) :=
  [(.wfpRegister 1 1 77 5 1, ⟨0, 0, 0, true, 0⟩), (.wfpDeregister 1 1 77 5 2, ⟨0, 0, 0, true, 0⟩),
    (.wfpRegister 1 4 78 5 3, ⟨0, 0, 0, true, 0⟩), (.wfpRegister 1 1 78 5 4, ⟨0, 0, 0, true, 0⟩)]

theorem movedWindow_follows_history : ∃ t calls,
    (registering .x86 .documented).run AnCimSp.opened movedWindow = some (t, calls) ∧
    ((registering .x86 .documented).AtEach (fun h _ _ t e _ => Delivers .x86 .documented (h ++ e) t.service)
        AnCimSp.opened movedWindow ↔
      (registering .x86 .documented).Meets (OneWindow .documented) AnCimSp.opened movedWindow) := by
  obtain ⟨t, calls, hr, -⟩ : ∃ t calls, (registering .x86 .documented).run AnCimSp.opened movedWindow =
      some (t, calls) ∧ calls.length = 4 := Machine.run_any (by decide)
  refine ⟨t, calls, hr, events_follow_history_iff ?_ (by decide) hr⟩
  intro e he
  simp only [eventClasses, XfsApi.documented, List.mem_cons, List.not_mem_nil, or_false] at he
  rcases he with rfl | rfl
  · exact ⟨0, by decide, by decide⟩
  · exact ⟨2, by decide, by decide⟩

/-- A second window registers for the class: the first gets no event any more. -/
theorem second_window_takes_events : ¬ (registering .x86 .documented).AtEach
    (fun h _ _ t e _ => Delivers .x86 .documented (h ++ e) t.service) AnCimSp.opened
    ([(.wfpRegister 1 1 77 5 1, ⟨0, 0, 0, true, 0⟩)] ++ (.wfpRegister 1 1 78 5 2, ⟨0, 0, 0, true, 0⟩) :: []) := by
  refine Machine.not_atEach (fun h _ t e _ => t.service = [⟨1, 78, 1, [], 0x00030003⟩] ∧
    h ++ e = [.wfpRegister 1 1 77 5 1, .wfpRegister 1 1 78 5 2]) ?_ (by decide)
  intro h s t e later hq hd
  obtain ⟨hservice, hhistory⟩ := of_decide_eq_true hq
  rw [hservice, hhistory, delivers_iff_tracks (List.pairwise_singleton ..)] at hd
  have hreaches := (hd 1 (by decide) 1 77).2
    ⟨[], 1, 5, 1, [.wfpRegister 1 1 78 5 2], rfl, by decide, fun _ _ _ hm => by simp at hm⟩
  obtain ⟨ref, hl, hw, -⟩ := hreaches
  cases hl
  cases hw

end AnXfs.Client
