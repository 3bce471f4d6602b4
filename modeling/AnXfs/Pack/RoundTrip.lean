/-
The command format is self-delimiting and decoding undoes encoding: for every command of the SPI
and every bytes after it, the header peek yields the command's type, and the builder in that slot
of `g_cmd_builder` yields the command and leaves exactly those bytes unread. So commands, also of
different types, never share an encoding and none is a proper prefix of another.

The slots are handled one by one through `BuilderSpec`, what a builder owes to the type it stands
for; `readCmd` is then settled by the type alone.
-/
import AnXfs.Pack.Builder
import AnXfs.Wire.Framing

namespace AnXfs.Pack

open AnXfs.Wire

variable {A : Arch}

/-! ## What a builder owes its type -/

/-- The class of the objects of a type: the types that the SPI never sends are read as bare headers. -/
def AnWfpType.class : AnWfpType → Option AnWfpType
  | .wfpUnknow => none
  | .wfpUnloadService => none
  | t => some t

/-- A builder of the class `t`: it undoes the archive of the class, and whatever it reads is an object
of the class, starts with the header that a peek would read, and was as long as its archive. -/
structure BuilderSpec (build : BuildCmdFn A) (t : Option AnWfpType) : Prop where
  put : ∀ (m : AnCmd A) s, m.sentAs = t → build (m.put ++ s) = some (m, s)
  sentAs : ∀ b m s, build b = some (m, s) → m.sentAs = t
  header : ∀ b m s, build b = some (m, s) → ∃ r, (AnWfpHeader.codec A).get b = some (m.base, r)
  split : ∀ b m s, build b = some (m, s) → ∃ p, b = p ++ s ∧ p.length = m.put.length

theorem buildCmdImpl_spec {T : Type} (f : Codec T) (up : T → AnCmd A) (t : Option AnWfpType)
    (hput : ∀ x, (up x).put = f.put x) (hsent : ∀ x, (up x).sentAs = t)
    (hup : ∀ m : AnCmd A, m.sentAs = t → ∃ x, m = up x)
    (hhead : ∀ b x s, f.get b = some (x, s) → ∃ r, (AnWfpHeader.codec A).get b = some ((up x).base, r)) :
    BuilderSpec (buildCmdImpl f up) t := by
  have hget : ∀ b m s, buildCmdImpl f up b = some (m, s) → ∃ x, f.get b = some (x, s) ∧ m = up x := by
    intro b m s h
    obtain ⟨⟨x, r⟩, hx, h⟩ := Option.map_eq_some_iff.1 h
    cases h
    exact ⟨x, hx, rfl⟩
  refine ⟨fun m s hm => ?_, fun b m s h => ?_, fun b m s h => ?_, fun b m s h => ?_⟩
  · obtain ⟨x, rfl⟩ := hup m hm
    rw [hput, buildCmdImpl, f.get_put]; rfl
  · obtain ⟨x, -, rfl⟩ := hget b m s h; exact hsent x
  · obtain ⟨x, hx, rfl⟩ := hget b m s h; exact hhead b x s hx
  · obtain ⟨x, hx, rfl⟩ := hget b m s h
    rw [hput]; exact f.get_split b x s hx

/-- The slot of every type holds a builder of its class. -/
theorem gCmdBuilder_spec (t : AnWfpType) :
    ∃ build, (gCmdBuilder A)[t.code.toNat]? = some build ∧ BuilderSpec build t.class := by
  cases t
  all_goals
    refine ⟨_, rfl, buildCmdImpl_spec _ _ _ (fun _ => rfl) (fun _ => rfl)
      (fun m h => by cases m <;> first | exact ⟨_, rfl⟩ | cases h) fun b x s h => ?_⟩
  case wfpUnknow | wfpUnloadService => exact ⟨s, h⟩
  -- these three add no field to the header
  case wfpCancelAsyncRequest | wfpClose | wfpUnlock =>
    have hh := (AnWfpHeader.codec A).iso_get_some h
    exact ⟨s, hh⟩
  all_goals
    obtain ⟨r, hr, -⟩ := Codec.seq_get_some (Codec.iso_get_some _ h)
    exact ⟨r, hr⟩

theorem eType_of_slot {c : Dword} (h : c.toNat < 12) : ∃ t : AnWfpType, t.code = c := by
  refine ⟨AnWfpType.all.get ⟨c.toNat, by simpa [AnWfpType.all] using h⟩, ?_⟩
  apply BitVec.eq_of_toNat_eq
  generalize c.toNat = n at h
  interval_cases n <;> rfl

/-- A builder is found for the types of the enumeration and for no other value. -/
theorem gCmdBuilder_some {c : Dword} {build : BuildCmdFn A} (h : (gCmdBuilder A)[c.toNat]? = some build) :
    ∃ t : AnWfpType, t.code = c ∧ BuilderSpec build t.class := by
  obtain ⟨hlt, -⟩ := List.getElem?_eq_some_iff.1 h
  obtain ⟨t, rfl⟩ := eType_of_slot hlt
  obtain ⟨build', hb, hspec⟩ := gCmdBuilder_spec (A := A) t
  rw [hb] at h
  cases h
  exact ⟨t, rfl, hspec⟩

theorem eAnWfpTypeName_code (t : AnWfpType) : ∃ name, eAnWfpTypeName[t.code.toNat]? = some name := by
  cases t <;> exact ⟨_, rfl⟩

/-! ## Reading a command -/

theorem AnCmd.Built.class {m : AnCmd A} (h : m.Built) : ∃ t : AnWfpType, m.eType = t.code ∧ m.sentAs = t.class := by
  unfold AnCmd.Built at h
  split at h
  · rename_i t ht
    refine ⟨t, h, ht.trans ?_⟩
    cases m <;> cases ht <;> rfl
  · rename_i ht
    rcases h with h | h
    · exact ⟨_, h, ht⟩
    · exact ⟨_, h, ht⟩

theorem built_of_class {m : AnCmd A} {t : AnWfpType} (he : m.eType = t.code) (hs : m.sentAs = t.class) : m.Built := by
  unfold AnCmd.Built
  rw [hs]
  cases t
  case wfpUnknow => exact .inl he
  case wfpUnloadService => exact .inr he
  all_goals exact he

theorem Command.built (m : Command A) : m.obj.Built := by
  have h := m.sent
  unfold AnCmd.Built
  rcases hs : m.obj.sentAs with _ | t
  · rw [hs] at h; cases h
  · rw [hs] at h; exact (Option.some.inj h).symm

theorem readCmd_of_parts {b r : List UInt8} {m : AnCmd A} {t : AnWfpType} {build : BuildCmdFn A} {s : List UInt8}
    (hh : (AnWfpHeader.codec A).get b = some (m.base, r)) (hb : (gCmdBuilder A)[t.code.toNat]? = some build)
    (ht : m.eType = t.code) (hm : build b = some (m, s)) : readCmd b = .ok (m, s) := by
  obtain ⟨name, hn⟩ := eAnWfpTypeName_code t
  unfold readCmd
  simp only [hh, ht, hn, hb, hm]

theorem readCmd_put {m : AnCmd A} (hm : m.Built) (s : List UInt8) : readCmd (m.put ++ s) = .ok (m, s) := by
  obtain ⟨t, he, hs⟩ := hm.class
  obtain ⟨build, hb, hspec⟩ := gCmdBuilder_spec (A := A) t
  have hget := hspec.put m s hs
  obtain ⟨r, hr⟩ := hspec.header _ m s hget
  exact readCmd_of_parts hr hb he hget

/-- What decoding a chunk goes through: the peeked header is the command's, and the builder in the slot
of its type reads it. -/
theorem readCmd_parts {b : List UInt8} {m : AnCmd A} {s : List UInt8} (h : readCmd b = .ok (m, s)) :
    (∃ r, (AnWfpHeader.codec A).get b = some (m.base, r)) ∧
      ∃ build, (gCmdBuilder A)[m.eType.toNat]? = some build ∧ build b = some (m, s) := by
  unfold readCmd at h
  split at h
  · cases h
  rename_i header r hh
  split at h
  · cases h
  split at h
  · cases h
  rename_i build hb
  split at h
  · cases h
  rename_i x hx
  cases h
  obtain ⟨t, hc, hspec⟩ := gCmdBuilder_some hb
  obtain ⟨r', hr'⟩ := hspec.header b m s hx
  -- the builder starts over from the rewound stream, and reads the header that was peeked
  have heq : header = m.base := by
    rw [hh] at hr'
    exact congrArg Prod.fst (Option.some.inj hr')
  subst heq
  exact ⟨⟨r, hh⟩, build, hb, hx⟩

/-- What decoding a chunk says about it: the type is one of the enumeration, the object is of its
class, and the bytes consumed are as many as the archive of the object. -/
theorem readCmd_ok {b : List UInt8} {m : AnCmd A} {s : List UInt8} (h : readCmd b = .ok (m, s)) :
    m.Built ∧ ∃ p, b = p ++ s ∧ p.length = m.put.length := by
  obtain ⟨-, build, hb, hx⟩ := readCmd_parts h
  obtain ⟨t, hc, hspec⟩ := gCmdBuilder_some hb
  exact ⟨built_of_class hc.symm (hspec.sentAs b m s hx), hspec.split b m s hx⟩

/-- The commands a chunk can start with are delimited. -/
theorem readCmd_delimits :
    Delimits (AnCmd.put : AnCmd A → List UInt8) (fun b => (readCmd b).toOption) AnCmd.Built := by
  refine ⟨fun m hm s => by rw [readCmd_put hm s]; rfl, fun b m s h => ?_⟩
  rcases hr : readCmd b with e | r
  · rw [hr] at h; cases h
  · rw [hr] at h; cases h; exact (readCmd_ok hr).2

theorem put_prefix_free {m n : AnCmd A} (hm : m.Built) (hn : n.Built) {s t : List UInt8}
    (h : m.put ++ s = n.put ++ t) : m = n := by
  have h1 := readCmd_put hm s
  rw [h, readCmd_put hn t] at h1
  cases h1; rfl

/-- For every command `m` of the SPI and every byte string `s` after it: the header peeked from
`encode m ++ s` has `m`'s type, the builder in the slot of that type yields `m` itself from the
rewound stream and leaves exactly `s`; and a command whose encoding starts with `m`'s is `m`. -/
theorem serializeCmd_round_trip (m : Command A) (s : List UInt8) :
    (∃ header r, (AnWfpHeader.codec A).get (serializeCmd m ++ s) = some (header, r) ∧
      header.eType = m.obj.eType) ∧
    (∃ build, (gCmdBuilder A)[m.obj.eType.toNat]? = some build ∧ build (serializeCmd m ++ s) = some (m.obj, s)) ∧
    ∀ n : Command A, serializeCmd m <+: serializeCmd n → m = n := by
  obtain ⟨t, he, hs⟩ := m.built.class
  obtain ⟨build, hb, hspec⟩ := gCmdBuilder_spec (A := A) t
  have hget := hspec.put m.obj s hs
  obtain ⟨r, hr⟩ := hspec.header _ _ _ hget
  refine ⟨⟨m.obj.base, r, hr, rfl⟩, ⟨build, by rw [he]; exact hb, hget⟩, fun n ⟨u, hu⟩ => ?_⟩
  have : m.obj = n.obj := put_prefix_free m.built n.built (s := u) (t := []) (by rw [List.append_nil]; exact hu)
  cases m; cases n; cases this; rfl

end AnXfs.Pack
