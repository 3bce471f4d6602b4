/-
Which chunks a command can be decoded from. The bytes decide: the type is the word behind the length
field of the header, and the fields of that type's class must end inside the chunk.
-/
import AnXfs.Pack.RoundTrip

namespace AnXfs.Pack

open AnXfs.Wire

variable {A : Arch}

/-! ## Layouts -/

/-- The fields of `an_WFP_header`. -/
def AnWfpHeader.layout (A : Arch) : List Field :=
  [.word A.sizeofSizeT, .word 4, .word 4, .word 2, .word 4, .word 4, .word 4]

/-- The fields that follow the header in the class a type is read as. -/
def AnWfpType.body (A : Arch) : AnWfpType → List Field
  | .wfpDeregister | .wfpRegister => [.word 4, .word 4]
  | .wfpExecute | .wfpGetInfo => [.word 4, .blob A.sizeofSizeT, .word 4]
  | .wfpLock | .wfpSetTraceLevel => [.word 4]
  | .wfpOpen => [.blob A.sizeofSizeT, .word 4, .blob A.sizeofSizeT, .word 4, .word 4, .word 4, .word 4, .word 4]
  | .wfpUnknow | .wfpCancelAsyncRequest | .wfpClose | .wfpUnloadService | .wfpUnlock => []

def AnWfpType.layout (A : Arch) (t : AnWfpType) : List Field := AnWfpHeader.layout A ++ t.body A

/-- Where a chunk has the type of its command. -/
def typeField (A : Arch) (chunk : List UInt8) : Nat := leNat ((chunk.drop A.sizeofSizeT).take 4)

theorem header_eType {b : List UInt8} {header : AnWfpHeader A} {s : List UInt8}
    (h : (AnWfpHeader.codec A).get b = some (header, s)) : header.eType.toNat = typeField A b := by
  obtain ⟨r, hlen, h⟩ := Codec.seq_get_some (Codec.iso_get_some _ h)
  obtain ⟨r', htype, -⟩ := Codec.seq_get_some h
  obtain ⟨-, rfl⟩ := Codec.word_get_some hlen
  exact (Codec.word_get_some htype).1

theorem buildCmdImpl_skip {T : Type} (f : Codec T) (up : T → AnCmd A) (b : List UInt8) :
    (buildCmdImpl f up b).map Prod.snd = skip f.layout b := by
  rw [← f.get_skip, buildCmdImpl, Option.map_map]; rfl

theorem gCmdBuilder_skip (t : AnWfpType) {build : BuildCmdFn A} (hb : (gCmdBuilder A)[t.code.toNat]? = some build)
    (b : List UInt8) : (build b).map Prod.snd = skip (t.layout A) b := by
  cases t <;> cases hb <;> exact buildCmdImpl_skip _ _ b

/-! ## Chunks that decode -/

/-- A command of type `t` is decoded exactly from the chunks that hold the type and all its fields. -/
theorem readCmd_ok_iff (t : AnWfpType) (b : List UInt8) :
    (∃ (m : AnCmd A) (s : List UInt8), readCmd b = .ok (m, s) ∧ m.eType = t.code) ↔
      typeField A b = t.code.toNat ∧ (skip (t.layout A) b).isSome := by
  obtain ⟨build, hslot, hspec⟩ := gCmdBuilder_spec (A := A) t
  constructor
  · rintro ⟨m, s, hr, ht⟩
    obtain ⟨⟨r, hh⟩, build', hslot', hbuild⟩ := readCmd_parts hr
    rw [ht, hslot] at hslot'
    cases hslot'
    refine ⟨?_, ?_⟩
    · rw [← header_eType hh, ← ht]
    · rw [← gCmdBuilder_skip t hslot, hbuild]; rfl
  · rintro ⟨htype, hskip⟩
    rw [← gCmdBuilder_skip t hslot, Option.isSome_map] at hskip
    obtain ⟨⟨m, s⟩, hm⟩ := Option.isSome_iff_exists.1 hskip
    obtain ⟨r, hh⟩ := hspec.header b m s hm
    have ht : m.eType = t.code := BitVec.eq_of_toNat_eq ((header_eType hh).trans htype)
    exact ⟨m, s, readCmd_of_parts hh hslot ht hm, ht⟩

end AnXfs.Pack
