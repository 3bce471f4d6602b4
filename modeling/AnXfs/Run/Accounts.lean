/-
Accounts of resources: the events of a machine make some and free some, and its states hold some. What a part of a step
was given or made it frees, hands on or gives up, each resource once; this adds up over the parts of a step and over a
run, so that what was made in a run is, each once, what it freed, what it still holds and what it gave up.
-/
import AnXfs.Run.Progress
import Mathlib.Data.Multiset.AddSub
import Mathlib.Data.Multiset.Filter

namespace AnXfs.Run

/-- The resource that an event makes and the one it frees, and those that a state holds. -/
structure Accounts (σ ε κ : Type) where
  made : ε → Option κ
  freed : ε → Option κ
  held : σ → Multiset κ

namespace Accounts

variable {σ ι ε κ : Type} (a : Accounts σ ε κ)

def madeIn (e : List ε) : Multiset κ := e.filterMap a.made
def freedIn (e : List ε) : Multiset κ := e.filterMap a.freed

/-- What was held or made is freed, held or given up: `g` is what was given up. -/
def Books (s : σ) (e : List ε) (t : σ) (g : Multiset κ) : Prop :=
  a.held s + a.madeIn e = a.freedIn e + a.held t + g

@[simp] theorem madeIn_nil : a.madeIn [] = 0 := rfl
@[simp] theorem freedIn_nil : a.freedIn [] = 0 := rfl

@[simp] theorem madeIn_append (e e' : List ε) : a.madeIn (e ++ e') = a.madeIn e + a.madeIn e' := by
  unfold madeIn
  rw [List.filterMap_append, Multiset.coe_add]

@[simp] theorem freedIn_append (e e' : List ε) : a.freedIn (e ++ e') = a.freedIn e + a.freedIn e' := by
  unfold freedIn
  rw [List.filterMap_append, Multiset.coe_add]

variable {a}

theorem Books.refl (s : σ) : a.Books s [] s 0 := by
  unfold Books
  simp

/-- What one part gives up and what the next does add up. -/
theorem Books.trans {s t u : σ} {e e' : List ε} {g g' : Multiset κ} (h : a.Books s e t g) (h' : a.Books t e' u g') :
    a.Books s (e ++ e') u (g + g') := by
  unfold Books at *
  calc a.held s + a.madeIn (e ++ e')
      = a.held s + a.madeIn e + a.madeIn e' := by rw [madeIn_append, add_assoc]
    _ = a.freedIn e + g + (a.held t + a.madeIn e') := by rw [h]; ac_rfl
    _ = a.freedIn (e ++ e') + a.held u + (g + g') := by rw [h', freedIn_append]; ac_rfl

/-- What was given up is counted by what of the rest is missing. -/
theorem Books.card {s t : σ} {e : List ε} {g : Multiset κ} (h : a.Books s e t g) :
    (a.held s).card + (a.madeIn e).card = (a.freedIn e).card + (a.held t).card + g.card := by
  rw [← Multiset.card_add, ← Multiset.card_add, ← Multiset.card_add]
  exact congrArg Multiset.card h

/-- If no resource is made twice, none is freed twice, nor freed when it is held or was given up. -/
theorem Books.nodup {s t : σ} {e : List ε} {g : Multiset κ} (h : a.Books s e t g) (h0 : a.held s = 0)
    (hn : (a.madeIn e).Nodup) : (a.freedIn e + a.held t + g).Nodup := by
  unfold Books at h
  rwa [← h, h0, zero_add]

variable {M : Machine σ ι ε} {I P : σ → Prop} {c : σ → ι → Nat}

/-- A run gives up as much as its steps do, if each is made in a state that meets `P` and gives up what it costs as
long as it leaves `P` met. -/
theorem run_books (hstep : ∀ s i t e, I s → M.step s i = some (t, e) →
      I t ∧ P s ∧ ∃ g, a.Books s e t g ∧ (P t → g.card = c s i)) :
    ∀ {is : List ι} {s t : σ} {es : List ε}, I s → M.run s is = some (t, es) →
      I t ∧ ∃ g, a.Books s es t g ∧ (P t → g.card = M.cost c s is)
  | [], s, t, es, hi, hr => by
    cases hr
    exact ⟨hi, 0, .refl s, fun _ => rfl⟩
  | i :: is, s, t, es, hi, hr => by
    obtain ⟨u, e, es', hs, hr', rfl⟩ := Machine.run_cons hr
    obtain ⟨hu, -, g, hg, hcost⟩ := hstep s i u e hi hs
    obtain ⟨ht, g', hg', hcost'⟩ := run_books hstep hu hr'
    refine ⟨ht, g + g', hg.trans hg', fun hp => ?_⟩
    have hpu : P u := by
      cases is with
      | nil =>
        cases hr'
        exact hp
      | cons j js =>
        obtain ⟨v, e', -, hs', -, -⟩ := Machine.run_cons hr'
        exact (hstep u j v e' hu hs').2.1
    simp only [Machine.cost, hs]
    rw [Multiset.card_add, hcost hpu, hcost' hp]

/-- What each step relates, a run does. -/
theorem run_relates {R : σ → List ε → σ → Prop} (hnil : ∀ s, R s [] s)
    (htrans : ∀ s t u e e', R s e t → R t e' u → R s (e ++ e') u)
    (hstep : ∀ s i t e, I s → M.step s i = some (t, e) → I t ∧ R s e t) :
    ∀ {is : List ι} {s t : σ} {es : List ε}, I s → M.run s is = some (t, es) → R s es t
  | [], s, t, es, _, hr => by
    cases hr
    exact hnil s
  | i :: is, s, t, es, hi, hr => by
    obtain ⟨u, e, es', hs, hr', rfl⟩ := Machine.run_cons hr
    obtain ⟨hu, he⟩ := hstep s i u e hi hs
    exact htrans s u t e es' he (run_relates hnil htrans hstep hu hr')

/-- A run whose steps give up nothing gives up nothing. -/
theorem run_keeps (hstep : ∀ s i t e, I s → M.step s i = some (t, e) → I t ∧ a.Books s e t 0) {is : List ι} {s t : σ}
    {es : List ε} (hi : I s) (hr : M.run s is = some (t, es)) : a.Books s es t 0 :=
  run_relates (R := fun s e t => a.Books s e t 0) Books.refl (fun _ _ _ _ _ h h' => h.trans h') hstep hi hr

/-- The resources made in a step are numbered on from `next`. -/
def Numbers (b : Accounts σ ε Nat) (next : σ → Nat) (s : σ) (e : List ε) (t : σ) : Prop :=
  ∃ n, next t = next s + n ∧ e.filterMap b.made = List.range' (next s) n

section Numbered

variable {b : Accounts σ ε Nat} {next : σ → Nat}

theorem Numbers.trans {s t u : σ} {e e' : List ε} (h : b.Numbers next s e t) (h' : b.Numbers next t e' u) :
    b.Numbers next s (e ++ e') u := by
  obtain ⟨m, hm, he⟩ := h
  obtain ⟨n, hn, he'⟩ := h'
  refine ⟨m + n, by omega, ?_⟩
  rw [List.filterMap_append, he, he', hm, List.range'_append_1]

theorem Numbers.quiet {s t : σ} {e : List ε} (hn : next t = next s) (he : e.filterMap b.made = []) :
    b.Numbers next s e t := ⟨0, hn, he⟩

theorem run_numbers (hstep : ∀ s i t e, I s → M.step s i = some (t, e) → I t ∧ b.Numbers next s e t) {is : List ι}
    {s t : σ} {es : List ε} (hi : I s) (hr : M.run s is = some (t, es)) : b.Numbers next s es t :=
  run_relates (R := b.Numbers next) (fun _ => .quiet rfl rfl) (fun _ _ _ _ _ h h' => h.trans h') hstep hi hr

/-- No number is given twice. -/
theorem Numbers.nodup {s t : σ} {e : List ε} (h : b.Numbers next s e t) : (b.madeIn e).Nodup := by
  obtain ⟨n, -, he⟩ := h
  unfold madeIn
  rw [he, Multiset.coe_nodup]
  exact List.nodup_range' 1

end Numbered

end Accounts

end AnXfs.Run
