/-
Machines that take inputs one at a time, may refuse one, and report events: runs, invariants over
the history of events, and runs whose every step meets a guard. `run_invariant` is the induction
every safety result goes through: what one guarded step preserves, a guarded run preserves.
-/
import Mathlib.Tactic

namespace AnXfs.Run

/-- A machine with states `σ`, inputs `ι` and events `ε`; `none` refuses the input. -/
structure Machine (σ ι ε : Type) where
  step : σ → ι → Option (σ × List ε)

namespace Machine

variable {σ ι ε : Type} (M : Machine σ ι ε)

/-- The state after a list of inputs, with the events of all steps in order. -/
def run : σ → List ι → Option (σ × List ε)
  | s, [] => some (s, [])
  | s, i :: is => (M.step s i).bind fun (t, e) => (run t is).map fun (u, es) => (u, e ++ es)

/-- Every step taken along the inputs meets the guard in the state before it. -/
def Meets (G : σ → ι → Prop) : σ → List ι → Prop
  | _, [] => True
  | s, i :: is => G s i ∧ (match M.step s i with
    | some (t, _) => Meets G t is
    | none => True)

instance decidableMeets (G : σ → ι → Prop) [∀ s i, Decidable (G s i)] :
    ∀ (s : σ) (is : List ι), Decidable (M.Meets G s is)
  | _, [] => inferInstanceAs (Decidable True)
  | s, i :: is =>
    match h : M.step s i with
    | some (t, _) =>
      have : Decidable (M.Meets G t is) := decidableMeets G t is
      decidable_of_iff (G s i ∧ M.Meets G t is) (by simp only [Meets, h])
    | none => decidable_of_iff (G s i) (by simp only [Meets, h, and_true])

variable {M}

theorem run_cons {s : σ} {i : ι} {is : List ι} {u : σ} {es : List ε} (h : M.run s (i :: is) = some (u, es)) :
    ∃ t e es', M.step s i = some (t, e) ∧ M.run t is = some (u, es') ∧ es = e ++ es' := by
  obtain ⟨⟨t, e⟩, ht, h⟩ := Option.bind_eq_some_iff.1 h
  obtain ⟨⟨u', es'⟩, hu, h⟩ := Option.map_eq_some_iff.1 h
  cases h
  exact ⟨t, e, es', ht, hu, rfl⟩

theorem run_append {s u : σ} {es : List ε} : ∀ {is js : List ι}, M.run s (is ++ js) = some (u, es) ↔
    ∃ t e e', M.run s is = some (t, e) ∧ M.run t js = some (u, e') ∧ es = e ++ e'
  | [], js => by
    constructor
    · intro h
      exact ⟨s, [], es, rfl, h, rfl⟩
    · rintro ⟨t, e, e', ht, hu, rfl⟩
      cases ht
      exact hu
  | i :: is, js => by
    constructor
    · intro h
      obtain ⟨t, e, es', hs, h', rfl⟩ := run_cons h
      obtain ⟨t', e₁, e₂, h₁, h₂, rfl⟩ := run_append.1 h'
      refine ⟨t', e ++ e₁, e₂, ?_, h₂, by rw [List.append_assoc]⟩
      simp only [run, hs, Option.bind_some, h₁, Option.map_some]
    · rintro ⟨t', e, e₂, h, h₂, rfl⟩
      obtain ⟨t, e₀, e₁, hs, h₁, rfl⟩ := run_cons h
      have h' := run_append.2 ⟨t', e₁, e₂, h₁, h₂, rfl⟩
      simp only [List.cons_append, run, hs, Option.bind_some, h', Option.map_some, List.append_assoc]

/-- A run that can be computed, with what can be computed of its outcome. -/
theorem run_any {s : σ} {is : List ι} {P : σ → List ε → Prop} [∀ t es, Decidable (P t es)]
    (h : (M.run s is).any (fun p => P p.1 p.2) = true) : ∃ t es, M.run s is = some (t, es) ∧ P t es := by
  obtain ⟨⟨t, es⟩, hr, hp⟩ := (Option.any_eq_true _ _).1 h
  exact ⟨t, es, hr, of_decide_eq_true hp⟩

/-- What every guarded step preserves, together with the events so far, a guarded run preserves. -/
theorem run_invariant {G : σ → ι → Prop} {I : List ε → σ → Prop}
    (hstep : ∀ h s i t e, I h s → G s i → M.step s i = some (t, e) → I (h ++ e) t) :
    ∀ (is : List ι) (h : List ε) (s t : σ) (es : List ε),
      I h s → M.Meets G s is → M.run s is = some (t, es) → I (h ++ es) t
  | [], h, s, t, es, hi, _, hr => by cases hr; simpa using hi
  | i :: is, h, s, t, es, hi, hm, hr => by
    obtain ⟨s', e, es', hs, hr', rfl⟩ := run_cons hr
    simp only [Meets, hs] at hm
    rw [← List.append_assoc]
    exact run_invariant hstep is (h ++ e) s' t es' (hstep h s i s' e hi hm.1 hs) hm.2 hr'

theorem meets_true : ∀ (s : σ) (is : List ι), M.Meets (fun _ _ => True) s is
  | _, [] => trivial
  | s, i :: is => by
    refine ⟨trivial, ?_⟩
    split
    · exact meets_true _ is
    · trivial

/-- A guard on the inputs alone is met wherever they are taken. -/
theorem meets_of_forall {G : ι → Prop} : ∀ {is : List ι}, (∀ i ∈ is, G i) → ∀ s : σ, M.Meets (fun _ i => G i) s is
  | [], _, _ => trivial
  | i :: is, h, s => by
    refine ⟨h i (List.mem_cons_self ..), ?_⟩
    split
    · exact meets_of_forall (fun j hj => h j (List.mem_cons_of_mem _ hj)) _
    · trivial

/-- An invariant of every step holds after every run. -/
theorem run_always {I : List ε → σ → Prop}
    (hstep : ∀ h s i t e, I h s → M.step s i = some (t, e) → I (h ++ e) t)
    {is : List ι} {s t : σ} {es : List ε} (hi : I [] s) (hr : M.run s is = some (t, es)) : I es t := by
  simpa using run_invariant (G := fun _ _ => True) (fun h s i t e hi _ hs => hstep h s i t e hi hs)
    is [] s t es hi (meets_true s is) hr

theorem meets_append {G : σ → ι → Prop} : ∀ {is js : List ι} {s t : σ} {e : List ε},
    M.Meets G s (is ++ js) → M.run s is = some (t, e) → M.Meets G s is ∧ M.Meets G t js
  | [], js, s, t, e, hm, hr => by
    cases hr
    exact ⟨trivial, hm⟩
  | i :: is, js, s, t, e, hm, hr => by
    obtain ⟨s', e₀, e₁, hs, hr', rfl⟩ := run_cons hr
    simp only [List.cons_append, Meets, hs] at hm ⊢
    obtain ⟨h₁, h₂⟩ := meets_append hm.2 hr'
    exact ⟨⟨hm.1, h₁⟩, h₂⟩

theorem meets_and {G H : σ → ι → Prop} : ∀ {s : σ} {is : List ι},
    M.Meets (fun s i => G s i ∧ H s i) s is ↔ M.Meets G s is ∧ M.Meets H s is
  | _, [] => (and_self_iff).symm
  | s, i :: is => by
    unfold Meets
    cases h : M.step s i with
    | none => simp only [and_true]
    | some p =>
      have ih := @meets_and G H p.1 is
      simp only [ih]
      exact and_and_and_comm

/-- Where a step against the guard leaves a mark `D` that stays, a run that ends without the mark has met the guard. -/
theorem meets_of_unmarked {G : σ → ι → Prop} {I D : σ → Prop} (hI : ∀ s i t e, I s → M.step s i = some (t, e) → I t)
    (hG : ∀ s i t e, I s → ¬ G s i → M.step s i = some (t, e) → D t)
    (hD : ∀ s i t e, I s → D s → M.step s i = some (t, e) → D t) :
    ∀ {is : List ι} {s t : σ} {es : List ε}, I s → M.run s is = some (t, es) → ¬ D t → M.Meets G s is
  | [], _, _, _, _, _, _ => trivial
  | i :: is, s, t, es, hi, hr, hd => by
    obtain ⟨u, e, es', hs, hr', -⟩ := run_cons hr
    have hu := hI s i u e hi hs
    simp only [Meets, hs]
    refine ⟨by_contra fun hg => hd ?_, meets_of_unmarked hI hG hD hu hr' hd⟩
    have hkeep := run_always (M := M) (s := u) (I := fun _ v => I v ∧ D v)
      (fun _ v j w f hv hw => ⟨hI v j w f hv.1 hw, hD v j w f hv.1 hv.2 hw⟩) ⟨hu, hG s i u e hi hg hs⟩ hr'
    exact hkeep.2

/-! ### Fewer inputs -/

section Restrict

variable (M) (p : σ → ι → Prop) [∀ s i, Decidable (p s i)]

/-- The machine that refuses whatever input does not satisfy the predicate. -/
def restrict : Machine σ ι ε where
  step s i := if p s i then M.step s i else none

variable {M p}

theorem restrict_step {s : σ} {i : ι} {r : σ × List ε} :
    (M.restrict p).step s i = some r ↔ p s i ∧ M.step s i = some r := Option.ite_none_right_eq_some

end Restrict

/-- Where each step reports an event once for an input that satisfies the predicate, and never for another, a run
reports it as often as its inputs satisfy the predicate. -/
theorem run_count [DecidableEq ε] {x : ε} {p : ι → Bool}
    (hstep : ∀ s i t e, M.step s i = some (t, e) → e.count x = if p i then 1 else 0) :
    ∀ {is : List ι} {s t : σ} {es : List ε}, M.run s is = some (t, es) → es.count x = is.countP p
  | [], s, t, es, hr => by
    cases hr
    rfl
  | i :: is, s, t, es, hr => by
    obtain ⟨s', e, es', hs, hr', rfl⟩ := run_cons hr
    rw [List.count_append, List.countP_cons, hstep s i s' e hs, run_count hstep hr']
    omega

/-! ### What holds of each step -/

variable (M)

/-- What holds of every step of a run: of the events before it, of the step, and of the events after it. -/
def AtEach (P : List ε → σ → ι → σ → List ε → List ε → Prop) (s : σ) (is : List ι) : Prop :=
  ∀ ⦃is₁ i is₂ h u t e v e'⦄, is = is₁ ++ i :: is₂ → M.run s is₁ = some (u, h) → M.step u i = some (t, e) →
    M.run t is₂ = some (v, e') → P h u i t e e'

variable {M}

/-- What every guarded step from an invariant satisfies, whatever guarded run follows it, is satisfied at each
step of a guarded run. -/
theorem atEach_of_meets {G : σ → ι → Prop} {I : List ε → σ → Prop} {P : List ε → σ → ι → σ → List ε → List ε → Prop}
    (hstep : ∀ h s i t e, I h s → G s i → M.step s i = some (t, e) → I (h ++ e) t)
    (hP : ∀ h s i t e is v e', I h s → G s i → M.step s i = some (t, e) → M.Meets G t is →
      M.run t is = some (v, e') → P h s i t e e')
    {s : σ} {is : List ι} (hi : I [] s) (hm : M.Meets G s is) : M.AtEach P s is := by
  intro is₁ i is₂ h u t e v e' his hr hs hr'
  subst his
  obtain ⟨hm₁, hm₂⟩ := meets_append hm hr
  have hI := run_invariant hstep is₁ [] s u h hi hm₁ hr
  simp only [Meets, hs] at hm₂
  exact hP h u i t e is₂ v e' hI hm₂.1 hs hm₂.2 hr'

/-- A run that can be computed, at one step of which the property fails. -/
theorem not_atEach {P : List ε → σ → ι → σ → List ε → List ε → Prop} {s : σ} {is₁ : List ι} {i : ι} {is₂ : List ι}
    (Q : List ε → σ → σ → List ε → List ε → Bool) (hQ : ∀ h u t e e', Q h u t e e' = true → ¬ P h u i t e e')
    (hr : ((M.run s is₁).any fun p => (M.step p.1 i).any fun q => (M.run q.1 is₂).any fun r =>
      Q p.2 p.1 q.1 q.2 r.2) = true) : ¬ M.AtEach P s (is₁ ++ i :: is₂) := by
  intro ha
  obtain ⟨⟨u, h⟩, hu, hr⟩ := (Option.any_eq_true _ _).1 hr
  obtain ⟨⟨t, e⟩, ht, hr⟩ := (Option.any_eq_true _ _).1 hr
  obtain ⟨⟨v, e'⟩, hv, hr⟩ := (Option.any_eq_true _ _).1 hr
  exact hQ h u t e e' hr (ha rfl hu ht hv)

theorem atEach_cons {P : List ε → σ → ι → σ → List ε → List ε → Prop} {s t u : σ} {i : ι} {is : List ι}
    {e es : List ε} (hs : M.step s i = some (t, e)) (hr : M.run t is = some (u, es)) :
    M.AtEach P s (i :: is) ↔ P [] s i t e es ∧ M.AtEach (fun h => P (e ++ h)) t is := by
  constructor
  · intro ha
    refine ⟨ha (show i :: is = [] ++ i :: is from rfl) rfl hs hr, ?_⟩
    intro is₁ j is₂ h w t' e₁ v e₂ his hw hj hv
    have hrun : M.run s (i :: is₁) = some (w, e ++ h) := by
      simp only [run, hs, Option.bind_some, hw, Option.map_some]
    exact ha (show i :: is = (i :: is₁) ++ j :: is₂ by rw [his]; rfl) hrun hj hv
  · rintro ⟨hp, ha⟩ is₁ j is₂ h w t' e₁ v e₂ his hw hj hv
    cases is₁ with
    | nil =>
      cases hw
      obtain ⟨rfl, rfl⟩ := List.cons.inj his
      rw [hs] at hj
      cases hj
      rw [hr] at hv
      cases hv
      exact hp
    | cons k is₁ =>
      obtain ⟨rfl, rfl⟩ := List.cons.inj his
      obtain ⟨t₀, e₀, h', hk, hw', rfl⟩ := run_cons hw
      rw [hs] at hk
      cases hk
      exact ha rfl hw' hj hv

/-- In a run that is not refused, a property of steps that amounts to the guard, as long as the guard has been met,
holds at each step if and only if each step meets the guard. -/
theorem atEach_iff_meets {G : σ → ι → Prop} : ∀ {is : List ι} {I : List ε → σ → Prop}
    {P : List ε → σ → ι → σ → List ε → Prop} {s u : σ} {es : List ε},
    (∀ h s i t e, I h s → M.step s i = some (t, e) → (P h s i t e ↔ G s i)) →
    (∀ h s i t e, I h s → G s i → M.step s i = some (t, e) → I (h ++ e) t) →
    I [] s → M.run s is = some (u, es) → (M.AtEach (fun h s i t e _ => P h s i t e) s is ↔ M.Meets G s is)
  | [], I, P, s, u, es, _, _, _, _ => by
    refine ⟨fun _ => trivial, fun _ => ?_⟩
    intro is₁ i is₂ _ _ _ _ _ _ his
    simp at his
  | i :: is, I, P, s, u, es, hP, hI, hi, hr => by
    obtain ⟨t, e, es', hs, hr', rfl⟩ := run_cons hr
    rw [atEach_cons hs hr']
    simp only [Meets, hs]
    rw [hP [] s i t e hi hs]
    refine and_congr_right fun hg => ?_
    refine atEach_iff_meets (I := fun h => I (e ++ h)) (P := fun h => P (e ++ h)) (fun h => hP (e ++ h)) ?_ ?_ hr'
    · intro h s i t e' hi hg hs
      rw [← List.append_assoc]
      exact hI _ s i t e' hi hg hs
    · have := hI [] s i t e hi hg hs
      simpa using this

/-! ### Simulation -/

/-- What a step of `M` within `F` does, `N` does too: then `N` follows every such run of `M`, and the two report the
same exactly if each step meets the guard that makes its reports the same. -/
theorem run_simulates_iff {τ η : Type} {N : Machine τ ι η} {F G : σ → ι → Prop} {R : σ → τ → Prop} {E : ε → η → Prop}
    (hstep : ∀ s b i t e, R s b → F s i → M.step s i = some (t, e) →
      ∃ c f, N.step b i = some (c, f) ∧ R t c ∧ e.length = f.length ∧ (List.Forall₂ E e f ↔ G s i)) :
    ∀ {is : List ι} {s t : σ} {b : τ} {es : List ε}, R s b → M.Meets F s is → M.run s is = some (t, es) →
      ∃ c fs, N.run b is = some (c, fs) ∧ R t c ∧ (List.Forall₂ E es fs ↔ M.Meets G s is)
  | [], s, t, b, es, hR, _, hr => by
    cases hr
    exact ⟨b, [], rfl, hR, iff_of_true .nil trivial⟩
  | i :: is, s, t, b, es, hR, hm, hr => by
    obtain ⟨s', e, es', hs, hr', rfl⟩ := run_cons hr
    simp only [Meets, hs] at hm ⊢
    obtain ⟨b', f, hf, hR', hlen, he⟩ := hstep s b i s' e hR hm.1 hs
    obtain ⟨c, fs, hfs, hRt, hes⟩ := run_simulates_iff hstep hR' hm.2 hr'
    refine ⟨c, f ++ fs, ?_, hRt, ?_⟩
    · simp only [run, hf, Option.bind_some, hfs, Option.map_some]
    · rw [← he, ← hes]
      constructor
      · intro h
        have hfirst := List.forall₂_take_append _ f fs h
        have hrest := List.forall₂_drop_append _ f fs h
        rw [← hlen, List.take_left] at hfirst
        rw [← hlen, List.drop_left] at hrest
        exact ⟨hfirst, hrest⟩
      · rintro ⟨hfirst, hrest⟩
        exact List.rel_append hfirst hrest

/-- What every step of `M` does, `N` does too, whatever either reports: then `N` follows every run of `M`. -/
theorem run_follows {τ η : Type} {N : Machine τ ι η} {R : σ → τ → Prop}
    (hstep : ∀ s b i t e, R s b → M.step s i = some (t, e) → ∃ c f, N.step b i = some (c, f) ∧ R t c) :
    ∀ {is : List ι} {s t : σ} {b : τ} {es : List ε}, R s b → M.run s is = some (t, es) →
      ∃ c fs, N.run b is = some (c, fs) ∧ R t c
  | [], s, t, b, es, hR, hr => by
    cases hr
    exact ⟨b, [], rfl, hR⟩
  | i :: is, s, t, b, es, hR, hr => by
    obtain ⟨s', e, es', hs, hr', rfl⟩ := run_cons hr
    obtain ⟨b', f, hf, hR'⟩ := hstep s b i s' e hR hs
    obtain ⟨c, fs, hfs, hRt⟩ := run_follows hstep hR' hr'
    refine ⟨c, f ++ fs, ?_, hRt⟩
    simp only [run, hf, Option.bind_some, hfs, Option.map_some]

end Machine

/-- Every event of a history stands in the relation to the events before it. -/
def EachAfter {ε : Type} (R : List ε → ε → Prop) (h : List ε) : Prop := ∀ pre x post, h = pre ++ x :: post → R pre x

theorem EachAfter.nil {ε : Type} (R : List ε → ε → Prop) : EachAfter R [] := by
  intro pre x post h
  simp at h

theorem EachAfter.append {ε : Type} {R : List ε → ε → Prop} {h e : List ε} (hh : EachAfter R h)
    (he : ∀ pre x post, e = pre ++ x :: post → R (h ++ pre) x) : EachAfter R (h ++ e) := by
  intro pre x post heq
  rcases List.append_eq_append_iff.1 heq with ⟨as, rfl, has⟩ | ⟨as, rfl, has⟩
  · exact he as x post has
  · cases as with
    | nil => simpa using he [] x post has.symm
    | cons y as =>
      obtain ⟨rfl, -⟩ := List.cons.inj has
      exact hh pre x as rfl

theorem EachAfter.concat {ε : Type} {R : List ε → ε → Prop} {h : List ε} {x : ε} (hh : EachAfter R h) (hx : R h x) :
    EachAfter R (h ++ [x]) := by
  refine hh.append fun pre y post heq => ?_
  obtain ⟨rfl, rfl, rfl⟩ : pre = [] ∧ y = x ∧ post = [] := by
    cases pre with
    | nil => simpa [eq_comm] using heq
    | cons z pre => simp at heq
  simpa using hx

/-! ## One of many in flight -/

theorem perm_eraseIdx {α : Type} {l : List α} {i : Nat} {a : α} (h : l[i]? = some a) : l.Perm (a :: l.eraseIdx i) := by
  obtain ⟨hlt, rfl⟩ := List.getElem?_eq_some_iff.1 h
  exact (List.getElem_cons_eraseIdx_perm hlt).symm

theorem countP_eraseIdx {α : Type} (p : α → Bool) {l : List α} {i : Nat} {a : α} (h : l[i]? = some a) :
    l.countP p = (l.eraseIdx i).countP p + if p a then 1 else 0 := by
  rw [(perm_eraseIdx h).countP_eq p, List.countP_cons]

theorem count_eraseIdx {α : Type} [DecidableEq α] {l : List α} {i : Nat} {a : α} (h : l[i]? = some a) (k : α) :
    l.count k = (l.eraseIdx i).count k + if a = k then 1 else 0 := by
  rw [(perm_eraseIdx h).count_eq k, List.count_cons]
  simp only [beq_iff_eq]

end AnXfs.Run
