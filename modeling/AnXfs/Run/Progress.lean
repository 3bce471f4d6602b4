/-
Progress: what a run costs is paid out of a measure of the states and out of what its inputs bring in. Steps that
bring in nothing and cost something are bounded in number, in whatever order they are made; so that where none of
them is possible any more, what was left to do is done.
-/
import AnXfs.Run.Machine

namespace AnXfs.Run.Machine

variable {σ ι ε : Type}

/-- What the steps of a run cost, each in the state before it. -/
def cost (M : Machine σ ι ε) (c : σ → ι → Nat) : σ → List ι → Nat
  | _, [] => 0
  | s, i :: is => c s i + match M.step s i with
    | some (t, _) => cost M c t is
    | none => 0

variable {M : Machine σ ι ε} {G : ι → Prop} {m : σ → Nat}

/-- The costs of a run are covered by the measure and by what the inputs bring in, if those of each step are. -/
theorem run_amortised {I : List ε → σ → Prop} {c : σ → ι → Nat} {g : ι → Nat}
    (hstep : ∀ h s i t e, I h s → G i → M.step s i = some (t, e) → I (h ++ e) t ∧ c s i + m t ≤ m s + g i) :
    ∀ {is : List ι} {h : List ε} {s t : σ} {es : List ε}, I h s → (∀ i ∈ is, G i) → M.run s is = some (t, es) →
      I (h ++ es) t ∧ M.cost c s is + m t ≤ m s + (is.map g).sum
  | [], h, s, t, es, hi, _, hr => by
    cases hr
    rw [List.append_nil]
    constructor
    · exact hi
    · simp [cost]
  | i :: is, h, s, t, es, hi, hg, hr => by
    obtain ⟨u, e, es', hs, hr', rfl⟩ := run_cons hr
    obtain ⟨hu, hle⟩ := hstep h s i u e hi (hg i (List.mem_cons_self ..)) hs
    obtain ⟨ht, hrest⟩ := run_amortised hstep hu (fun j hj => hg j (List.mem_cons_of_mem _ hj)) hr'
    rw [← List.append_assoc]
    constructor
    · exact ht
    · simp only [cost, hs, List.map_cons, List.sum_cons]
      omega

/-- Where a cost does not depend on the state, it is counted over the inputs. -/
theorem cost_countP {w : ι → Bool} : ∀ {is : List ι} {s t : σ} {es : List ε}, M.run s is = some (t, es) →
    M.cost (fun _ i => if w i = true then 1 else 0) s is = is.countP w
  | [], _, _, _, _ => rfl
  | i :: is, s, t, es, hr => by
    obtain ⟨u, e, es', hs, hr', -⟩ := run_cons hr
    have hrest := cost_countP (w := w) hr'
    simp only [cost, hs, hrest, List.countP_cons]
    omega

/-- What follows every step of `M` costs what `M` does, if each step costs the same. -/
theorem cost_follows {τ η : Type} {N : Machine τ ι η} {R : σ → τ → Prop} {c : σ → ι → Nat} {d : τ → ι → Nat}
    (hstep : ∀ s b i t e, R s b → M.step s i = some (t, e) → ∃ b' f, N.step b i = some (b', f) ∧ R t b' ∧ c s i = d b i) :
    ∀ {is : List ι} {s t : σ} {b : τ} {es : List ε}, R s b → M.run s is = some (t, es) → M.cost c s is = N.cost d b is
  | [], _, _, _, _, _, _ => rfl
  | i :: is, s, t, b, es, hR, hr => by
    obtain ⟨s', e, es', hs, hr', -⟩ := run_cons hr
    obtain ⟨b', f, hf, hR', heq⟩ := hstep s b i s' e hR hs
    simp only [cost, hs, hf]
    rw [heq, cost_follows hstep hR' hr']

variable {I : σ → Prop}

/-- Steps that keep `I`, never raise the measure and lower it where `w` counts them: a run counts no more of them than
the measure it starts with. -/
theorem run_measure {w : ι → Bool}
    (hstep : ∀ s i t e, I s → G i → M.step s i = some (t, e) → I t ∧ (if w i = true then 1 else 0) + m t ≤ m s)
    {is : List ι} {s t : σ} {es : List ε} (hi : I s) (hg : ∀ i ∈ is, G i) (hr : M.run s is = some (t, es)) :
    I t ∧ is.countP w + m t ≤ m s := by
  obtain ⟨ht, hle⟩ := run_amortised (M := M) (I := fun _ s => I s) (g := fun _ => 0)
    (c := fun _ i => if w i = true then 1 else 0) (h := []) (fun _ s i t e hi hg hs => hstep s i t e hi hg hs) hi hg hr
  rw [cost_countP hr] at hle
  refine ⟨ht, ?_⟩
  simpa using hle

/-- The same for what the steps yield: `f` adds up over the events. -/
theorem run_yields {f : List ε → Nat} (hnil : f [] = 0) (happend : ∀ a b, f (a ++ b) = f a + f b)
    (hstep : ∀ s i t e, I s → G i → M.step s i = some (t, e) → I t ∧ f e + m t ≤ m s) :
    ∀ {is : List ι} {s t : σ} {es : List ε}, I s → (∀ i ∈ is, G i) → M.run s is = some (t, es) →
      I t ∧ f es + m t ≤ m s
  | [], s, t, es, hi, _, hr => by
    cases hr
    constructor
    · exact hi
    · rw [hnil, Nat.zero_add]
  | i :: is, s, t, es, hi, hg, hr => by
    obtain ⟨u, e, es', hs, hr', rfl⟩ := run_cons hr
    obtain ⟨hu, hlt⟩ := hstep s i u e hi (hg i (List.mem_cons_self ..)) hs
    obtain ⟨ht, hle⟩ := run_yields hnil happend hstep hu (fun j hj => hg j (List.mem_cons_of_mem _ hj)) hr'
    constructor
    · exact ht
    · rw [happend]
      omega

/-- A machine that takes no step where `P` fails: if a step within `F` leads to `P` exactly when it meets the guard, a
run within `F` ends in `P` exactly if all its steps do. -/
theorem run_safe_iff {P : σ → Prop} {F G : σ → ι → Prop} {I : List ε → σ → Prop}
    (hsafe : ∀ s i t e, M.step s i = some (t, e) → P s)
    (hiff : ∀ h s i t e, I h s → F s i → M.step s i = some (t, e) → (P t ↔ G s i))
    (hkeep : ∀ h s i t e, I h s → F s i → P t → M.step s i = some (t, e) → I (h ++ e) t) :
    ∀ {is : List ι} {h : List ε} {s t : σ} {es : List ε}, I h s → P s → M.Meets F s is → M.run s is = some (t, es) →
      (P t ↔ M.Meets G s is)
  | [], h, s, t, es, _, hp, _, hr => by
    cases hr
    exact iff_of_true hp trivial
  | i :: is, h, s, t, es, hi, hp, hf, hr => by
    obtain ⟨u, e, es', hs, hr', -⟩ := run_cons hr
    simp only [Meets, hs] at hf ⊢
    have hg := hiff h s i u e hi hf.1 hs
    by_cases hu : P u
    · rw [run_safe_iff hsafe hiff hkeep (hkeep h s i u e hi hf.1 hu hs) hu hf.2 hr', and_iff_right (hg.1 hu)]
    · -- the machine has stopped at `u`
      refine iff_of_false ?_ fun hall => hu (hg.2 hall.1)
      cases is with
      | nil =>
        cases hr'
        exact hu
      | cons j js =>
        obtain ⟨v, e', -, hs', -, -⟩ := run_cons hr'
        exact absurd (hsafe u j v e' hs') hu

/-- No step of the kind `W` is possible. -/
def Done (M : Machine σ ι ε) (W : σ → ι → Prop) (s : σ) : Prop := ∀ i, W s i → M.step s i = none

end AnXfs.Run.Machine
