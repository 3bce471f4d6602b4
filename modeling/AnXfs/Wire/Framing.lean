/-
Message boundaries on a byte stream. A reader that decodes one value from the front of each chunk
it is handed and drops the rest (`perChunk`) delivers what was written exactly when every chunk is
one whole encoding: any other cut of the same bytes loses or alters a value.
-/
import AnXfs.Wire.Codec

namespace AnXfs.Wire

variable {α : Type}

/-- The values satisfying `P` are delimited: the reader undoes the writer and consumes what the
writer of the value it returns would produce. -/
structure Delimits (put : α → List UInt8) (get : List UInt8 → Option (α × List UInt8)) (P : α → Prop) : Prop where
  get_put : ∀ a, P a → ∀ s, get (put a ++ s) = some (a, s)
  get_split : ∀ b a s, get b = some (a, s) → ∃ p, b = p ++ s ∧ p.length = (put a).length

theorem Codec.delimits (f : Codec α) : Delimits f.put f.get fun _ => True :=
  ⟨fun a _ s => f.get_put a s, f.get_split⟩

/-- One value from the front of each chunk, up to the first chunk that does not decode. -/
def perChunk (get : List UInt8 → Option (α × List UInt8)) : List (List UInt8) → List α
  | [] => []
  | c :: cs =>
    match get c with
    | some (a, _) => a :: perChunk get cs
    | none => []

theorem perChunk_map_put {put : α → List UInt8} {get : List UInt8 → Option (α × List UInt8)} {P : α → Prop}
    (hd : Delimits put get P) : ∀ xs : List α, (∀ a ∈ xs, P a) → perChunk get (xs.map put) = xs
  | [], _ => rfl
  | a :: xs, h => by
    have ha := hd.get_put a (h a (List.mem_cons_self ..)) []
    rw [List.append_nil] at ha
    simp only [List.map_cons, perChunk, ha]
    rw [perChunk_map_put hd xs fun b hb => h b (List.mem_cons_of_mem _ hb)]

/-- The values delivered never take more bytes than were read, and where they take them all, every
chunk was exactly one of them. -/
theorem perChunk_lengths {put : α → List UInt8} {get : List UInt8 → Option (α × List UInt8)} {P : α → Prop}
    (hd : Delimits put get P) : ∀ cs : List (List UInt8), (∀ c ∈ cs, c ≠ []) →
      ((perChunk get cs).map put).flatten.length ≤ cs.flatten.length ∧
      (((perChunk get cs).map put).flatten.length = cs.flatten.length →
        cs.map List.length = ((perChunk get cs).map put).map List.length)
  | [], _ => by simp [perChunk]
  | c :: cs, h => by
    have hc : 0 < c.length := List.length_pos_of_ne_nil (h c (List.mem_cons_self ..))
    -- a value takes the bytes of its encoding, and the rest of its chunk is dropped
    rcases hg : get c with _ | ⟨a, s⟩
    · simp only [perChunk, hg, List.map_nil, List.flatten_nil, List.length_nil, List.flatten_cons,
        List.length_append]
      exact ⟨by omega, fun h => by omega⟩
    · obtain ⟨ih1, ih2⟩ := perChunk_lengths hd cs fun d hd' => h d (List.mem_cons_of_mem _ hd')
      obtain ⟨p, rfl, hp⟩ := hd.get_split c a s hg
      simp only [perChunk, hg, List.map_cons, List.flatten_cons, List.length_append]
      refine ⟨by omega, fun heq => ?_⟩
      have hs : s.length = 0 := by omega
      rw [ih2 (by omega), hs, hp, Nat.add_zero]

/-- A reader of one value per chunk delivers exactly the values written if and only if every chunk
is exactly one of their encodings. -/
theorem perChunk_eq_iff {put : α → List UInt8} {get : List UInt8 → Option (α × List UInt8)} {P : α → Prop}
    (hd : Delimits put get P) {xs : List α} (hP : ∀ a ∈ xs, P a) {cs : List (List UInt8)}
    (hne : ∀ c ∈ cs, c ≠ []) (hcs : cs.flatten = (xs.map put).flatten) :
    perChunk get cs = xs ↔ cs = xs.map put := by
  constructor
  · intro h
    obtain ⟨-, hl⟩ := perChunk_lengths hd cs hne
    rw [h] at hl
    exact List.eq_iff_flatten_eq.2 ⟨hcs, hl (by rw [hcs])⟩
  · rintro rfl
    exact perChunk_map_put hd xs hP

theorem perChunk_append {get : List UInt8 → Option (α × List UInt8)} (ds : List (List UInt8)) :
    ∀ {cs : List (List UInt8)}, (∀ c ∈ cs, (get c).isSome) →
      perChunk get (cs ++ ds) = perChunk get cs ++ perChunk get ds
  | [], _ => rfl
  | c :: cs, h => by
    obtain ⟨⟨a, r⟩, ha⟩ := Option.isSome_iff_exists.1 (h c (List.mem_cons_self ..))
    simp only [List.cons_append, perChunk, ha]
    rw [perChunk_append ds fun b hb => h b (List.mem_cons_of_mem _ hb)]

/-- Nothing is delivered from the chunk that does not decode on. -/
theorem perChunk_stuck {get : List UInt8 → Option (α × List UInt8)} {bad : List UInt8} (hbad : get bad = none)
    (ds : List (List UInt8)) : ∀ cs : List (List UInt8), perChunk get (cs ++ bad :: ds) = perChunk get (cs ++ [bad])
  | [] => by simp only [List.nil_append, perChunk, hbad]
  | c :: cs => by
    simp only [List.cons_append, perChunk]
    split
    · rw [perChunk_stuck hbad ds cs]
    · rfl

/-! ## Readers -/

/-- A reader that was handed `reads` and delivered `vals`: one value per chunk, and it is stuck once a
chunk has not decoded. -/
structure Reader (get : List UInt8 → Option (α × List UInt8)) (reads : List (List UInt8)) (vals : List α)
    (stuck : Prop) : Prop where
  delivered : vals = perChunk get reads
  running : ¬ stuck → ∀ c ∈ reads, (get c).isSome
  stopped : stuck → ∃ pre bad, reads = pre ++ [bad] ∧ get bad = none

theorem Reader.nil (get : List UInt8 → Option (α × List UInt8)) : Reader get [] [] False :=
  ⟨rfl, by simp, fun h => h.elim⟩

section Steps

variable {get : List UInt8 → Option (α × List UInt8)} {reads : List (List UInt8)} {vals : List α} {stuck stuck' : Prop}

theorem Reader.congr (r : Reader get reads vals stuck) (h : stuck' ↔ stuck) : Reader get reads vals stuck' :=
  ⟨r.delivered, fun hs => r.running (fun hs' => hs (h.2 hs')), fun hs => r.stopped (h.1 hs)⟩

/-- The next chunk decodes. -/
theorem Reader.read (r : Reader get reads vals stuck) (hs : ¬ stuck) {chunk : List UInt8} {a : α} {rest : List UInt8}
    (hc : get chunk = some (a, rest)) : Reader get (reads ++ [chunk]) (vals ++ [a]) stuck := by
  refine ⟨?_, fun _ c hcm => ?_, fun h => absurd h hs⟩
  · rw [perChunk_append _ (r.running hs), ← r.delivered]
    simp only [perChunk, hc]
  · rcases List.mem_append.1 hcm with hcm | hcm
    · exact r.running hs c hcm
    · rw [List.mem_singleton.1 hcm, hc]; rfl

/-- The next chunk does not decode. -/
theorem Reader.stop (r : Reader get reads vals stuck) (hs : ¬ stuck) {chunk : List UInt8} (hc : get chunk = none)
    (hs' : stuck') : Reader get (reads ++ [chunk]) vals stuck' := by
  refine ⟨?_, fun h => absurd hs' h, fun _ => ⟨reads, chunk, rfl, hc⟩⟩
  rw [perChunk_append _ (r.running hs), ← r.delivered]
  simp only [perChunk, hc, List.append_nil]

end Steps

/-- The reader was handed all of `cs`, unless it got stuck at one of them. -/
def HandedAll (cs reads : List (List UInt8)) (stuck : Prop) : Prop := reads = cs ∨ stuck ∧ reads <+: cs

/-- A reader that is handed the bytes of `xs`, cut into `cs`, delivers exactly `xs` if and only if every
chunk is exactly one of their encodings. -/
theorem Reader.delivers_iff {put : α → List UInt8} {get : List UInt8 → Option (α × List UInt8)} {P : α → Prop}
    (hd : Delimits put get P) {reads : List (List UInt8)} {vals : List α} {stuck : Prop}
    (r : Reader get reads vals stuck) {xs : List α} (hP : ∀ a ∈ xs, P a) {cs : List (List UInt8)}
    (hall : HandedAll cs reads stuck) (hne : ∀ c ∈ cs, c ≠ []) (hcs : cs.flatten = (xs.map put).flatten) :
    vals = xs ↔ cs = xs.map put := by
  have hvals : vals = perChunk get cs := by
    rcases hall with hread | ⟨hs, ⟨ds, hread⟩⟩
    · rw [r.delivered, hread]
    · -- the chunk that stopped the reader would have stopped it with all the others as well
      obtain ⟨pre, bad, hpre, hbad⟩ := r.stopped hs
      rw [r.delivered, ← hread, hpre, List.append_assoc]
      exact (perChunk_stuck hbad ds pre).symm
  rw [hvals]
  exact perChunk_eq_iff hd hP hne hcs

end AnXfs.Wire
