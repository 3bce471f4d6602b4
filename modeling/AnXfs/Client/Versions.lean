/-
Version negotiation. The words of a version hold the major number in the low byte, so that comparing
them as numbers compares the minor numbers first; and `spi_version_match` compares the highest version
requested with `0xff03` and the lowest with 1, whatever range it reports. `RangesAgree` lists where its
answer is that of the ranges it reports, which overlap a requested range or lie on one side of it.
-/
import Mathlib.Data.Prod.Lex
import Mathlib.Order.Interval.Set.Basic
import AnXfs.Client.Spi

namespace AnXfs.Client

open AnXfs.Pack

/-! ## Ranges -/

/-- The values from one to another. -/
structure Range (α : Type) where
  lowest : α
  highest : α
  deriving DecidableEq

namespace Range

variable {α : Type} [LinearOrder α] (r s : Range α)

def Overlaps : Prop := (Set.Icc r.lowest r.highest ∩ Set.Icc s.lowest s.highest).Nonempty

/-- All of `r` lies above `s`. -/
def Above : Prop := s.highest < r.lowest

/-- All of `r` lies below `s`. -/
def Below : Prop := r.highest < s.lowest

instance : Decidable (r.Above s) := by unfold Above; infer_instance

instance : Decidable (r.Below s) := by unfold Below; infer_instance

variable {r s}

theorem overlaps_iff (hr : r.lowest ≤ r.highest) (hs : s.lowest ≤ s.highest) :
    r.Overlaps s ↔ ¬ r.Above s ∧ ¬ r.Below s := by
  unfold Overlaps Above Below
  rw [Set.Icc_inter_Icc, Set.nonempty_Icc, sup_le_iff, le_inf_iff, le_inf_iff, not_lt, not_lt]
  constructor
  · rintro ⟨⟨-, h₁⟩, h₂, -⟩
    exact ⟨h₁, h₂⟩
  · rintro ⟨h₁, h₂⟩
    exact ⟨⟨hr, h₁⟩, h₂, hs⟩

end Range

/-! ## Versions -/

/-- The major and the minor number, in this order. -/
abbrev Version := ℕ ×ₗ ℕ

/-- The low byte is the major number, the high byte the minor. -/
def version (w : Word) : Version := toLex (w.toNat % 256, w.toNat / 256)

/-- The low word of what is required is the highest version, the high word the lowest. -/
def required (d : Dword) : Range Version := ⟨version ((d >>> 16).setWidth 16), version (d.setWidth 16)⟩

/-- The range that a structure reports. -/
def WfsVersion.reported (v : WfsVersion) : Range Version := ⟨version v.wLowVersion, version v.wHighVersion⟩

/-- `hr` is right about what is required and what is supported: it is success where both overlap, and names the first
that is too high, or else the first that is too low, where they do not. -/
structure Negotiates (api : XfsApi) (spi srvc spiRange srvcRange : Range Version) (hr : HResult) : Prop where
  success : hr = api.wfsSuccess ↔ spi.Overlaps spiRange ∧ srvc.Overlaps srvcRange
  spiTooHigh : spi.Above spiRange → hr = api.wfsErrSpiVerTooHigh
  srvcTooHigh : ¬ spi.Above spiRange → srvc.Above srvcRange → hr = api.wfsErrSrvcVerTooHigh
  spiTooLow : ¬ spi.Above spiRange → ¬ srvc.Above srvcRange → spi.Below spiRange → hr = api.wfsErrSpiVerTooLow
  srvcTooLow : ¬ spi.Above spiRange → ¬ srvc.Above srvcRange → ¬ spi.Below spiRange → srvc.Below srvcRange →
    hr = api.wfsErrSrvcVerTooLow

/-- The codes that `spi_version_match` returns, which the SDK documents as different. -/
def versionCodes (api : XfsApi) : List HResult :=
  [api.wfsErrSpiVerTooHigh, api.wfsErrSrvcVerTooHigh, api.wfsErrSpiVerTooLow, api.wfsErrSrvcVerTooLow, api.wfsSuccess]

/-- The highest version required is x.255 with x at least 4. -/
def Range.Topmost (r : Range Version) : Prop := 4 ≤ (ofLex r.highest).1 ∧ (ofLex r.highest).2 = 255

/-- The lowest version required is 0.0. -/
def Range.Bottom (r : Range Version) : Prop := r.lowest = toLex (0, 0)

instance (r : Range Version) : Decidable r.Topmost := by unfold Range.Topmost; infer_instance

instance (r : Range Version) : Decidable r.Bottom := by unfold Range.Bottom; infer_instance

/-- The first of these that is not so decides: the lowest version is above the highest supported one exactly if the
range is topmost, for the SPI and for the service; and the highest version is below 3.00 exactly if the range is
bottom, for the SPI and for the service. -/
def RangesAgree (spi srvc : Range Version) : Prop :=
  (spi.Topmost ↔ toLex (3, 0) < spi.lowest) ∧ (¬ spi.Topmost →
    (srvc.Topmost ↔ toLex (3, 2) < srvc.lowest) ∧ (¬ srvc.Topmost →
      (spi.Bottom ↔ spi.highest < toLex (3, 0)) ∧ (¬ spi.Bottom →
        (srvc.Bottom ↔ srvc.highest < toLex (3, 0)))))

instance (spi srvc : Range Version) : Decidable (RangesAgree spi srvc) := by unfold RangesAgree; infer_instance

/-! ## Numbers and versions -/

theorem gt_iff_topmost (r : Range Version) (w : Word) (h : r.highest = version w) : w > 0xff03 ↔ r.Topmost := by
  unfold Range.Topmost
  rw [h, version, ofLex_toLex, gt_iff_lt, BitVec.lt_def]
  have hw := w.isLt
  have hmax : (0xff03 : Word).toNat = 65283 := rfl
  omega

theorem lt_iff_bottom (r : Range Version) (w : Word) (h : r.lowest = version w) : w < 0x0001 ↔ r.Bottom := by
  unfold Range.Bottom
  rw [h, version, BitVec.lt_def, toLex_inj, Prod.mk.injEq]
  have hone : (0x0001 : Word).toNat = 1 := rfl
  omega

/-! ## The answer -/

/-- The answer that the ranges ask for. -/
def answer (api : XfsApi) (spi srvc spiRange srvcRange : Range Version) : HResult :=
  if spi.Above spiRange then api.wfsErrSpiVerTooHigh
  else if srvc.Above srvcRange then api.wfsErrSrvcVerTooHigh
  else if spi.Below spiRange then api.wfsErrSpiVerTooLow
  else if srvc.Below srvcRange then api.wfsErrSrvcVerTooLow
  else api.wfsSuccess

theorem negotiates_iff {api : XfsApi} (hcodes : (versionCodes api).Nodup) {spi srvc spiRange srvcRange : Range Version}
    (hspi : spi.lowest ≤ spi.highest) (hsrvc : srvc.lowest ≤ srvc.highest)
    (hspir : spiRange.lowest ≤ spiRange.highest) (hsrvcr : srvcRange.lowest ≤ srvcRange.highest) (hr : HResult) :
    Negotiates api spi srvc spiRange srvcRange hr ↔ hr = answer api spi srvc spiRange srvcRange := by
  have hso := Range.overlaps_iff hspi hspir
  have hro := Range.overlaps_iff hsrvc hsrvcr
  simp only [versionCodes, List.nodup_cons, List.mem_cons, List.not_mem_nil, or_false, not_or] at hcodes
  obtain ⟨⟨-, -, -, h₁⟩, ⟨-, -, h₂⟩, ⟨-, h₃⟩, h₄, -⟩ := hcodes
  unfold answer
  by_cases ha : spi.Above spiRange
  · rw [if_pos ha]
    constructor
    · intro h
      exact h.spiTooHigh ha
    · rintro rfl
      exact ⟨by simp [h₁, hso, ha], fun _ => rfl, fun h => absurd ha h, fun h => absurd ha h, fun h => absurd ha h⟩
  rw [if_neg ha]
  by_cases hb : srvc.Above srvcRange
  · rw [if_pos hb]
    constructor
    · intro h
      exact h.srvcTooHigh ha hb
    · rintro rfl
      exact ⟨by simp [h₂, hro, hb], fun h => absurd h ha, fun _ _ => rfl, fun _ h => absurd hb h,
        fun _ h => absurd hb h⟩
  rw [if_neg hb]
  by_cases hc : spi.Below spiRange
  · rw [if_pos hc]
    constructor
    · intro h
      exact h.spiTooLow ha hb hc
    · rintro rfl
      exact ⟨by simp [h₃, hso, hc], fun h => absurd h ha, fun _ h => absurd h hb, fun _ _ _ => rfl,
        fun _ _ h => absurd hc h⟩
  rw [if_neg hc]
  by_cases hd : srvc.Below srvcRange
  · rw [if_pos hd]
    constructor
    · intro h
      exact h.srvcTooLow ha hb hc hd
    · rintro rfl
      exact ⟨by simp [h₄, hro, hd], fun h => absurd h ha, fun _ h => absurd h hb, fun _ _ h => absurd h hc,
        fun _ _ _ _ => rfl⟩
  rw [if_neg hd]
  constructor
  · intro h
    exact h.success.2 ⟨hso.2 ⟨ha, hc⟩, hro.2 ⟨hb, hd⟩⟩
  · rintro rfl
    exact ⟨by simp [hso, hro, ha, hb, hc, hd], fun h => absurd h ha, fun _ h => absurd h hb,
      fun _ _ h => absurd h hc, fun _ _ _ h => absurd h hd⟩

/-- Two tests that lead to the same value, and to others if they fail: they agree where the tests do and, if they
fail, what follows. -/
theorem ite_eq_ite_iff_of_ne {α : Type} {p q : Prop} [Decidable p] [Decidable q] {a x y : α} (hx : x ≠ a)
    (hy : y ≠ a) : (if p then a else x) = (if q then a else y) ↔ (p ↔ q) ∧ (¬ p → x = y) := by
  by_cases hp : p
  · by_cases hq : q
    · simp [hp, hq]
    · simp [hp, hq, hy.symm]
  · by_cases hq : q
    · simp [hp, hq, hx]
    · simp [hp, hq]

/-- What follows a test does not lead to its value. -/
theorem ite_ne_of_ne {α : Type} {p : Prop} [Decidable p] {a x y : α} (hx : x ≠ a) (hy : y ≠ a) :
    (if p then x else y) ≠ a := by
  split
  · exact hx
  · exact hy

/-- For all versions required whose lowest is not above their highest, with both structures supplied: the answer of
`spi_version_match` is right about the ranges that it reports, if and only if `RangesAgree` holds of what is
required. -/
theorem version_match_iff {api : XfsApi} (hcodes : (versionCodes api).Nodup) {spi srvc : Dword}
    (hspi : (required spi).lowest ≤ (required spi).highest) (hsrvc : (required srvc).lowest ≤ (required srvc).highest)
    (lpSpiVersion lpSrvcVersion : WfsVersion) :
    ∃ hr spiVersion srvcVersion,
      spiVersionMatch api spi srvc (some lpSpiVersion) (some lpSrvcVersion) = (hr, some spiVersion, some srvcVersion) ∧
        (Negotiates api (required spi) (required srvc) spiVersion.reported srvcVersion.reported hr ↔
          RangesAgree (required spi) (required srvc)) := by
  refine ⟨_, _, _, rfl, ?_⟩
  have hspir : WfsVersion.reported ⟨0x0003, 0x0003, 0x0003, anSpiVerDes, []⟩ = ⟨toLex (3, 0), toLex (3, 0)⟩ := rfl
  have hsrvcr : WfsVersion.reported ⟨0x0203, 0x0003, 0x0203, anSpiVerDes, []⟩ = ⟨toLex (3, 0), toLex (3, 2)⟩ := rfl
  rw [hspir, hsrvcr, negotiates_iff hcodes hspi hsrvc le_rfl (by decide)]
  simp only [gt_iff_topmost (required spi) _ rfl, gt_iff_topmost (required srvc) _ rfl,
    lt_iff_bottom (required spi) _ rfl, lt_iff_bottom (required srvc) _ rfl]
  simp only [versionCodes, List.nodup_cons, List.mem_cons, List.not_mem_nil, or_false, not_or] at hcodes
  obtain ⟨⟨h₁₂, h₁₃, h₁₄, h₁₅⟩, ⟨h₂₃, h₂₄, h₂₅⟩, ⟨h₃₄, h₃₅⟩, h₄₅, -⟩ := hcodes
  unfold answer RangesAgree
  -- the two chains are compared test by test
  rw [ite_eq_ite_iff_of_ne
      (ite_ne_of_ne (Ne.symm h₁₂) (ite_ne_of_ne (Ne.symm h₁₃) (ite_ne_of_ne (Ne.symm h₁₄) (Ne.symm h₁₅))))
      (ite_ne_of_ne (Ne.symm h₁₂) (ite_ne_of_ne (Ne.symm h₁₃) (ite_ne_of_ne (Ne.symm h₁₄) (Ne.symm h₁₅)))),
    ite_eq_ite_iff_of_ne (ite_ne_of_ne (Ne.symm h₂₃) (ite_ne_of_ne (Ne.symm h₂₄) (Ne.symm h₂₅)))
      (ite_ne_of_ne (Ne.symm h₂₃) (ite_ne_of_ne (Ne.symm h₂₄) (Ne.symm h₂₅))),
    ite_eq_ite_iff_of_ne (ite_ne_of_ne (Ne.symm h₃₄) (Ne.symm h₃₅)) (ite_ne_of_ne (Ne.symm h₃₄) (Ne.symm h₃₅)),
    ite_eq_ite_iff_of_ne (Ne.symm h₄₅) (Ne.symm h₄₅)]
  simp only [implies_true, and_true]
  exact Iff.rfl

/-- The SPI and the service are required in version 3.00. -/
theorem version_three_matches : ∃ spiVersion srvcVersion,
    spiVersionMatch .documented 0x00030003 0x00030003 (some ⟨0, 0, 0, [], []⟩) (some ⟨0, 0, 0, [], []⟩) =
      (0, some spiVersion, some srvcVersion) ∧
    Negotiates .documented (required 0x00030003) (required 0x00030003) spiVersion.reported srvcVersion.reported 0 := by
  obtain ⟨hr, v, w, heq, hiff⟩ := @version_match_iff .documented (by decide) 0x00030003 0x00030003 (by decide)
    (by decide) ⟨0, 0, 0, [], []⟩ ⟨0, 0, 0, [], []⟩
  have hn := hiff.2 (by decide)
  have hr0 : hr = 0 := congrArg Prod.fst heq.symm
  rw [hr0] at hn heq
  exact ⟨v, w, heq, hn⟩

/-- An SPI of version 4.00 is required, 3.00 is reported, and the answer is success. -/
theorem version_four_succeeds : (required 0x00040004).lowest ≤ (required 0x00040004).highest ∧
    ∃ spiVersion srvcVersion,
      spiVersionMatch .documented 0x00040004 0x00030003 (some ⟨0, 0, 0, [], []⟩) (some ⟨0, 0, 0, [], []⟩) =
        (0, some spiVersion, some srvcVersion) ∧
      ¬ Negotiates .documented (required 0x00040004) (required 0x00030003) spiVersion.reported srvcVersion.reported
        0 := by
  refine ⟨by decide, _, _, rfl, fun h => ?_⟩
  have := h.spiTooHigh (by decide)
  exact absurd this (by decide)

end AnXfs.Client
