/-
What passed on a connection: the chunks read from it, the commands dispatched from them and the
notices written to it, each in order, as projections of the server's events.
-/
import AnXfs.Server.Callbacks

namespace AnXfs.Server

open AnXfs.Wire AnXfs.Pack AnXfs.Run

variable {A : Arch} {api : XfsApi}

/-! ## Projections -/

def readsOf (h : List (Event A)) : List (ConnId × List UInt8) :=
  h.filterMap fun
    | .read c chunk => some (c, chunk)
    | _ => none

def dispatchedOf (h : List (Event A)) : List (ConnId × AnCmd A) :=
  h.filterMap fun
    | .dispatched c m => some (c, m)
    | _ => none

def freedOf (h : List (Event A)) : List ConnId :=
  h.filterMap fun
    | .freed c => some c
    | _ => none

def wroteOf (h : List (Event A)) : List (ConnId × Notice) :=
  h.filterMap fun
    | .wrote c n => some (c, n)
    | _ => none

/-- The part of a sequence that belongs to connection `c`. -/
def on {α : Type} (c : ConnId) (xs : List (ConnId × α)) : List α :=
  xs.filterMap fun x => if x.1 = c then some x.2 else none

section Append

variable (g h : List (Event A))

@[simp] theorem readsOf_append : readsOf (g ++ h) = readsOf g ++ readsOf h := List.filterMap_append ..
@[simp] theorem dispatchedOf_append : dispatchedOf (g ++ h) = dispatchedOf g ++ dispatchedOf h :=
  List.filterMap_append ..
@[simp] theorem wroteOf_append : wroteOf (g ++ h) = wroteOf g ++ wroteOf h := List.filterMap_append ..
@[simp] theorem on_append {α : Type} (c : ConnId) (xs ys : List (ConnId × α)) : on c (xs ++ ys) = on c xs ++ on c ys :=
  List.filterMap_append ..

end Append

theorem on_singleton_self {α : Type} (c : ConnId) (x : α) : on c [(c, x)] = [x] := by simp [on]

theorem on_singleton_of_ne {α : Type} {c d : ConnId} (h : d ≠ c) (x : α) : on c [(d, x)] = [] := by simp [on, h]

/-! ## Steps that read nothing -/

/-- The events of the executor's threads are none of the above. -/
theorem streams_exec (e : List (ExecEvent A)) :
    readsOf (e.map .exec) = [] ∧ dispatchedOf (e.map .exec) = [] ∧ freedOf (e.map .exec) = [] ∧
      wroteOf (e.map .exec) = [] := by
  induction e with
  | nil => exact ⟨rfl, rfl, rfl, rfl⟩
  | cons x e ih =>
    obtain ⟨h1, h2, h3, h4⟩ := ih
    exact ⟨h1, h2, h3, h4⟩

/-- Nor are reads or dispatches among the events of sending a notice. -/
theorem streams_ofSending {n : Notice} {e : List (Event A)} (h : ∀ x ∈ e, OfSending n x) :
    readsOf e = [] ∧ dispatchedOf e = [] := by
  constructor
  · apply List.filterMap_eq_nil_iff.2
    intro x hx
    have := h x hx
    cases x <;> first | rfl | exact this.elim
  · apply List.filterMap_eq_nil_iff.2
    intro x hx
    have := h x hx
    cases x <;> first | rfl | exact this.elim

end AnXfs.Server
