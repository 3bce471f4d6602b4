/-
Self-delimiting binary formats. A `Codec α` is a writer and a reader of `α` that carry their own
laws: the reader undoes the writer and leaves what follows unread, it consumes as many bytes as
the writer would produce, and whether it succeeds is decided by the format's `layout` alone — the
list of its fields, each a word of fixed width or a byte string behind a length.

Codecs are built from words and byte strings by pairing, repetition and renaming. Two values of a
codec never share an encoding and no encoding is a proper prefix of another.
-/
import AnXfs.Wire.Bytes

namespace AnXfs.Wire

/-! ## Layouts -/

/-- A field on the wire: a word of `n` bytes, or a byte string behind an eight-byte length that the
reader narrows to `w` bytes. -/
inductive Field where
  | word (n : Nat)
  | blob (w : Nat)
  deriving DecidableEq

/-- What follows one field; nothing when the field does not end inside the bytes. -/
def Field.skip : Field → List UInt8 → Option (List UInt8)
  | .word n, b => (takeExact n b).map Prod.snd
  | .blob w, b => (takeExact 8 b).bind fun (p, r) => (takeExact (leNat p % 2 ^ (8 * w)) r).map Prod.snd

/-- What follows the fields of a layout; nothing when one of them does not end inside the bytes. -/
def skip : List Field → List UInt8 → Option (List UInt8)
  | [], b => some b
  | f :: l, b => (f.skip b).bind (skip l)

theorem skip_singleton (f : Field) (b : List UInt8) : skip [f] b = f.skip b := by
  simp only [skip]
  cases f.skip b <;> rfl

theorem skip_append : ∀ (l m : List Field) (b : List UInt8), skip (l ++ m) b = (skip l b).bind (skip m)
  | [], m, b => rfl
  | f :: l, m, b => by
    simp only [List.cons_append, skip, Option.bind_assoc]
    congr 1
    funext r
    exact skip_append l m r

/-- A byte string whose length a `w`-byte word can hold. -/
structure Blob (w : Nat) where
  bytes : List UInt8
  length_lt : bytes.length < 2 ^ (8 * w)
  deriving DecidableEq

/-- A byte string of at most that length. -/
def Blob.ofBytes (w : Nat) (b : List UInt8) : Option (Blob w) :=
  if h : b.length < 2 ^ (8 * w) then some ⟨b, h⟩ else none

theorem Blob.ofBytes_bytes {w : Nat} (a : Blob w) : Blob.ofBytes w a.bytes = some a := dif_pos a.length_lt

theorem Blob.ofBytes_some {w : Nat} {b : List UInt8} {a : Blob w} (h : Blob.ofBytes w b = some a) :
    a.bytes = b := by
  unfold Blob.ofBytes at h
  split at h
  · cases h; rfl
  · cases h

/-! ## Codecs -/

/-- A binary format with its laws. -/
structure Codec (α : Type) where
  put : α → List UInt8
  get : List UInt8 → Option (α × List UInt8)
  layout : List Field
  get_put : ∀ a s, get (put a ++ s) = some (a, s)
  get_split : ∀ b a s, get b = some (a, s) → ∃ p, b = p ++ s ∧ p.length = (put a).length
  get_skip : ∀ b, (get b).map Prod.snd = skip layout b

namespace Codec

variable {α β : Type}

/-- Encodings are prefix-free: two values whose encodings start one byte string are equal. -/
theorem put_prefix_free (f : Codec α) {a b : α} {s t : List UInt8} (h : f.put a ++ s = f.put b ++ t) :
    a = b ∧ s = t := by
  have := (f.get_put a s).symm.trans ((congrArg f.get h).trans (f.get_put b t))
  simpa using this

/-! ### Words -/

/-- A word of `n` bytes, least significant first. -/
def word (n : Nat) : Codec (BitVec (8 * n)) where
  put v := leBytes n v.toNat
  get b := (takeExact n b).map fun (p, s) => (BitVec.ofNat (8 * n) (leNat p), s)
  layout := [.word n]
  get_put v s := by
    have h := takeExact_append (leBytes n v.toNat) s
    rw [length_leBytes] at h
    have hv : v.toNat % 256 ^ n = v.toNat := by
      rw [← two_pow_eight_mul]; exact Nat.mod_eq_of_lt v.isLt
    rw [h, Option.map_some]
    simp only
    rw [leNat_leBytes, hv, BitVec.ofNat_toNat, BitVec.setWidth_eq]
  get_split b v s h := by
    obtain ⟨⟨p, r⟩, hp, h⟩ := Option.map_eq_some_iff.1 h
    cases h
    obtain ⟨hb, hl⟩ := takeExact_some hp
    exact ⟨p, hb, by rw [hl, length_leBytes]⟩
  get_skip b := by
    rw [skip_singleton, Field.skip, Option.map_map]
    rfl

theorem word_get_some {n : Nat} {b : List UInt8} {v : BitVec (8 * n)} {s : List UInt8}
    (h : (word n).get b = some (v, s)) : v.toNat = leNat (b.take n) ∧ s = b.drop n := by
  obtain ⟨⟨p, r⟩, hp, h⟩ := Option.map_eq_some_iff.1 h
  cases h
  obtain ⟨rfl, rfl⟩ := takeExact_some hp
  have hlt : leNat p < 2 ^ (8 * p.length) := by
    rw [two_pow_eight_mul]; exact leNat_lt p
  constructor
  · rw [List.take_left, BitVec.toNat_ofNat, Nat.mod_eq_of_lt hlt]
  · rw [List.drop_left]

/-! ### Byte strings -/

/-- The reader of a byte string: an eight-byte length, narrowed to `w` bytes, and that many bytes. -/
def getBlob (w : Nat) (b : List UInt8) : Option (Blob w × List UInt8) :=
  (takeExact 8 b).bind fun (p, r) =>
    (takeExact (leNat p % 2 ^ (8 * w)) r).bind fun (q, s) => (Blob.ofBytes w q).map (·, s)

theorem getBlob_some {w : Nat} {b : List UInt8} {a : Blob w} {s : List UInt8} (h : getBlob w b = some (a, s)) :
    ∃ p, b = p ++ (a.bytes ++ s) ∧ p.length = 8 := by
  obtain ⟨⟨p, r⟩, hp, h⟩ := Option.bind_eq_some_iff.1 h
  obtain ⟨⟨q, s'⟩, hq, h⟩ := Option.bind_eq_some_iff.1 h
  obtain ⟨a', ha, h⟩ := Option.map_eq_some_iff.1 h
  cases h
  obtain ⟨rfl, hp8⟩ := takeExact_some hp
  obtain ⟨rfl, -⟩ := takeExact_some hq
  exact ⟨p, by rw [Blob.ofBytes_some ha], hp8⟩

theorem getBlob_put {w : Nat} (hw : w ≤ 8) (a : Blob w) (s : List UInt8) :
    getBlob w (leBytes 8 a.bytes.length ++ (a.bytes ++ s)) = some (a, s) := by
  have h8 := takeExact_append (leBytes 8 a.bytes.length) (a.bytes ++ s)
  rw [length_leBytes] at h8
  have hlt : a.bytes.length < 256 ^ 8 := by
    rw [← two_pow_eight_mul]
    exact lt_of_lt_of_le a.length_lt (Nat.pow_le_pow_right (by norm_num) (by omega))
  unfold getBlob
  rw [h8, Option.bind_some]
  simp only
  rw [leNat_leBytes, Nat.mod_eq_of_lt hlt, Nat.mod_eq_of_lt a.length_lt, takeExact_append, Option.bind_some]
  simp only [Blob.ofBytes_bytes, Option.map_some]

theorem getBlob_skip (w : Nat) (b : List UInt8) : (getBlob w b).map Prod.snd = (Field.blob w).skip b := by
  simp only [getBlob, Field.skip]
  rcases takeExact 8 b with _ | ⟨p, r⟩
  · rfl
  simp only [Option.bind_some]
  rcases hq : takeExact (leNat p % 2 ^ (8 * w)) r with _ | ⟨q, s⟩
  · rfl
  have hlt : q.length < 2 ^ (8 * w) := by
    rw [(takeExact_some hq).2]; exact Nat.mod_lt _ (by positivity)
  simp [Blob.ofBytes, hlt]

/-- A byte string behind its eight-byte length. -/
def blob (w : Nat) (hw : w ≤ 8) : Codec (Blob w) where
  put a := leBytes 8 a.bytes.length ++ a.bytes
  get := getBlob w
  layout := [.blob w]
  get_put a s := by rw [List.append_assoc]; exact getBlob_put hw a s
  get_split b a s h := by
    obtain ⟨p, rfl, hp⟩ := getBlob_some h
    exact ⟨p ++ a.bytes, by simp, by simp [hp]⟩
  get_skip b := by
    rw [skip_singleton]; exact getBlob_skip w b

/-! ### Sequences -/

/-- One value after the other. -/
def seq (f : Codec α) (g : Codec β) : Codec (α × β) where
  put x := f.put x.1 ++ g.put x.2
  get b := (f.get b).bind fun (a, r) => (g.get r).map fun (c, s) => ((a, c), s)
  layout := f.layout ++ g.layout
  get_put x s := by rw [List.append_assoc, f.get_put]; simp [g.get_put]
  get_split b x s h := by
    obtain ⟨⟨a, r⟩, ha, h⟩ := Option.bind_eq_some_iff.1 h
    obtain ⟨⟨c, s'⟩, hc, h⟩ := Option.map_eq_some_iff.1 h
    cases h
    obtain ⟨p, rfl, hp⟩ := f.get_split b a r ha
    obtain ⟨q, rfl, hq⟩ := g.get_split r c s hc
    exact ⟨p ++ q, by simp, by simp [hp, hq]⟩
  get_skip b := by
    rw [skip_append, ← f.get_skip]
    rcases f.get b with _ | ⟨a, r⟩
    · rfl
    · simp only [Option.bind_some, Option.map_some, ← g.get_skip, Option.map_map]
      rfl

theorem seq_get_some {f : Codec α} {g : Codec β} {b : List UInt8} {x : α × β} {s : List UInt8}
    (h : (f.seq g).get b = some (x, s)) : ∃ r, f.get b = some (x.1, r) ∧ g.get r = some (x.2, s) := by
  obtain ⟨⟨a, r⟩, ha, h⟩ := Option.bind_eq_some_iff.1 h
  obtain ⟨⟨c, s'⟩, hc, h⟩ := Option.map_eq_some_iff.1 h
  cases h
  exact ⟨r, ha, hc⟩

/-- The same bytes read as another type. -/
def iso (f : Codec α) (mk : α → β) (inv : β → α) (hmk : ∀ b, mk (inv b) = b) (hinv : ∀ a, inv (mk a) = a) :
    Codec β where
  put b := f.put (inv b)
  get b := (f.get b).map fun (a, s) => (mk a, s)
  layout := f.layout
  get_put b s := by simp [f.get_put, hmk]
  get_split b c s h := by
    obtain ⟨⟨a, r⟩, ha, h⟩ := Option.map_eq_some_iff.1 h
    cases h
    rw [hinv]
    exact f.get_split b a s ha
  get_skip b := by rw [Option.map_map, ← f.get_skip]; rfl

theorem iso_get_some (f : Codec α) {mk : α → β} {inv : β → α} {hmk : ∀ b, mk (inv b) = b} {hinv : ∀ a, inv (mk a) = a}
    {b : List UInt8} {x : β} {s : List UInt8} (h : (f.iso mk inv hmk hinv).get b = some (x, s)) :
    f.get b = some (inv x, s) := by
  obtain ⟨⟨a, r⟩, ha, h⟩ := Option.map_eq_some_iff.1 h
  cases h
  rw [ha, hinv]

/-- Exactly `n` values, one after the other, without a length. -/
def vec (f : Codec α) : (n : Nat) → Codec (List.Vector α n)
  | 0 =>
    { put := fun _ => []
      get := fun b => some (.nil, b)
      layout := []
      get_put := fun v s => by rw [v.eq_nil]; rfl
      get_split := fun b v s h => ⟨[], by cases h; rfl, rfl⟩
      get_skip := fun b => rfl }
  | n + 1 =>
    (f.seq (f.vec n)).iso (fun x => x.1 ::ᵥ x.2) (fun v => (v.head, v.tail))
      (fun v => v.cons_head_tail) (fun x => by simp)

end Codec

end AnXfs.Wire
