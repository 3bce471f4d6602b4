/-
Backward simulation. What a step stands for in the other machine may hang on what is still to come: it is found
from the end of a run to its beginning, with a prophecy beside each state.
-/
import AnXfs.Run.Machine

namespace AnXfs.Run.Machine

variable {σ ι ε τ κ η : Type}

/-- The inputs `ks` stand for the inputs `is` of a run, one at a time and in order: each step stands for one input of
the other machine or for none. -/
inductive Traced (M : Machine σ ι ε) (T : σ → ι → σ → Option κ → Prop) : σ → List ι → List κ → Prop
  | nil (s : σ) : Traced M T s [] []
  | cons {s t : σ} {i : ι} {e : List ε} {o : Option κ} {is : List ι} {ks : List κ} : M.step s i = some (t, e) →
      T s i t o → Traced M T t is ks → Traced M T s (i :: is) (o.toList ++ ks)

variable {M : Machine σ ι ε} {N : Machine τ κ η}

/-- Where every step of `M` into a state with a prophecy stands for at most one input of `N`, from a state that has a
prophecy of its own, every run of `M` stands for a run of `N`. The events of the two agree by any relation
that can be followed from step to step. -/
theorem run_backward {γ : Type} {I : σ → Prop} {R : σ → γ → τ → Prop} {T : σ → ι → σ → Option κ → Prop}
    {E : σ → γ → List ε → List η → σ → γ → Prop} (hinv : ∀ s i t e, I s → M.step s i = some (t, e) → I t)
    (hnil : ∀ s g, E s g [] [] s g)
    (htrans : ∀ s g e f t g' e' f' u g'', E s g e f t g' → E t g' e' f' u g'' → E s g (e ++ e') (f ++ f') u g'')
    (hstep : ∀ s i t e g' b', I s → M.step s i = some (t, e) → R t g' b' →
      ∃ g b o f, R s g b ∧ T s i t o ∧ N.run b o.toList = some (b', f) ∧ E s g e f t g') :
    ∀ {is : List ι} {s t : σ} {es : List ε} {g' : γ} {b' : τ}, I s → M.run s is = some (t, es) → R t g' b' →
      ∃ g b ks fs, R s g b ∧ M.Traced T s is ks ∧ N.run b ks = some (b', fs) ∧ E s g es fs t g'
  | [], s, t, es, g', b', _, hr, hR => by
    cases hr
    exact ⟨g', b', [], [], hR, .nil s, rfl, hnil s g'⟩
  | i :: is, s, t, es, g', b', hI, hr, hR => by
    obtain ⟨u, e, es', hs, hr', rfl⟩ := run_cons hr
    obtain ⟨g₁, b₁, ks, fs, hR₁, htr, hrun, hE⟩ := run_backward hinv hnil htrans hstep (hinv s i u e hI hs) hr' hR
    obtain ⟨g, b, o, f, hR₀, hT, hrun₀, hE₀⟩ := hstep s i u e g₁ b₁ hI hs hR₁
    exact ⟨g, b, o.toList ++ ks, f ++ fs, hR₀, .cons hs hT htr, run_append.2 ⟨b₁, f, fs, hrun₀, hrun, rfl⟩,
      htrans _ _ _ _ _ _ _ _ _ _ hE₀ hE⟩

end AnXfs.Run.Machine
