import TableConsole.Eval.Error
import TableConsole.Proofs.Except

/-! # Guarded operations

Indices, offsets, row numbers and counters are used by partial operations: access at a place,
slicing, subtraction. A guarded operation gives nothing outside its domain, and whatever is put
together from guarded operations stops there. Computations in this form follow an interpreter step
by step, and are compared with definitions that need no such operations.
-/

namespace TableConsole.Guarded

set_option autoImplicit false

/-- Nothing if the result would be negative. -/
def minus? (a b : Nat) : Option Nat :=
  if b ≤ a then some (a - b) else none

@[simp] theorem minus?_add (a b : Nat) : minus? (a + b) b = some a := by
  simp [minus?]

/-- Items computed with their places in another list are the items at these places. -/
theorem mapM_zipIdx_eq_some {α β : Type} {f : α × Nat → Option β} {xs : List α} {ys : List β}
    (hlength : ys.length = xs.length) (h : ∀ x ∈ xs.zipIdx, f x = ys[x.2]?) :
    xs.zipIdx.mapM f = some ys := by
  cases ys with
  | nil =>
    obtain rfl := List.length_eq_zero_iff.mp hlength.symm
    rfl
  | cons y ys =>
    have hat : ∀ x ∈ xs.zipIdx, f x = some ((y :: ys)[x.2]?.getD y) := by
      intro x hx
      obtain ⟨hlt, -⟩ := List.getElem?_eq_some_iff.mp (List.mem_zipIdx_iff_getElem?.mp hx)
      rw [h x hx, List.getElem?_eq_getElem (hlength ▸ hlt)]
      rfl
    rw [Option.mapM_eq_some hat]
    refine congrArg some (List.ext_getElem (by simpa using hlength.symm) fun i hi hi' => ?_)
    simp [List.getElem?_eq_getElem hi']

inductive Halt (ε : Type)
  /-- An operation was asked for something outside its domain. -/
  | breach
  | error (e : ε)

def Halt.map {ε ε' : Type} (f : ε → ε') : Halt ε → Halt ε'
  | .breach => .breach
  | .error e => .error (f e)

section Computations

variable {ε ε' α β : Type}

def within : Option α → Except (Halt ε) α
  | some a => .ok a
  | none => .error .breach

def lift (r : Except ε α) : Except (Halt ε) α :=
  r.mapError .error

@[simp] theorem within_some (a : α) : within (some a) = (.ok a : Except (Halt ε) α) := rfl

@[simp] theorem lift_ok (a : α) : lift (.ok a : Except ε α) = .ok a := rfl

@[simp] theorem lift_error (e : ε) : lift (.error e : Except ε α) = .error (.error e) := rfl

theorem lift_mapError (r : Except ε α) (f : ε → ε') :
    lift (r.mapError f) = (lift r).mapError (Halt.map f) := by
  cases r <;> rfl

theorem lift_bind (r : Except ε α) (f : α → Except ε β) :
    lift (r >>= f) = lift r >>= fun a => lift (f a) := by
  cases r <;> rfl

theorem within_mapM (f : α → Option β) (xs : List α) :
    within (xs.mapM f) = xs.mapM fun x => (within (f x) : Except (Halt ε) β) := by
  induction xs with
  | nil => rfl
  | cons x xs ih =>
    rw [List.mapM_cons, List.mapM_cons, ← ih]
    cases f x with
    | none => rfl
    | some y => cases xs.mapM f <;> rfl

end Computations

section Proper

/-- Not the error that stands for an operation outside its domain. -/
def isProperError : EvalError → Bool
  | .fault => false
  | _ => true

def isProper {α : Type} : Except EvalError α → Bool
  | .ok _ => true
  | .error e => isProperError e

variable {α β : Type} {r : Except EvalError α}

theorem ne_fault_of_isProper (h : isProper r) : r ≠ .error .fault := by
  rintro rfl
  cases h

theorem proper_bind (h : isProper r) {f : α → Except EvalError β} (hf : ∀ a, isProper (f a)) :
    isProper (r >>= f) := by
  cases r with
  | error e => exact h
  | ok a => exact hf a

theorem proper_map (h : isProper r) (f : α → β) : isProper (r.map f) := by
  cases r with
  | error e => exact h
  | ok a => rfl

theorem proper_mapM {f : α → Except EvalError β} (hf : ∀ a, isProper (f a)) (xs : List α) :
    isProper (xs.mapM f) := by
  induction xs with
  | nil => rfl
  | cons x xs ih =>
    rw [List.mapM_cons]
    exact proper_bind (hf x) fun _ => proper_bind ih fun _ => rfl

theorem proper_foldlM {f : β → α → Except EvalError β} (hf : ∀ b a, isProper (f b a))
    (xs : List α) (b : β) : isProper (xs.foldlM f b) := by
  induction xs generalizing b with
  | nil => rfl
  | cons x xs ih =>
    rw [List.foldlM_cons]
    exact proper_bind (hf b x) ih

end Proper

/-- The guarded computation stays within the domains of its operations and gives what the other one
gives; that is never the error which stands for an operation outside its domain. -/
structure Faithful {α : Type} (g : Except (Halt EvalError) α) (r : Except EvalError α) : Prop where
  eq : g = lift r
  proper : isProper r

namespace Faithful

variable {α β : Type} {g : Except (Halt EvalError) α} {r : Except EvalError α}

theorem ok (a : α) : Faithful (.ok a) (.ok a) :=
  ⟨rfl, rfl⟩

theorem error {e : EvalError} (h : isProperError e) :
    Faithful (.error (.error e) : Except (Halt EvalError) α) (.error e) :=
  ⟨rfl, h⟩

theorem of_proper (h : isProper r) : Faithful (lift r) r :=
  ⟨rfl, h⟩

theorem bind (h : Faithful g r) {k : α → Except (Halt EvalError) β} {f : α → Except EvalError β}
    (hf : ∀ a, r = .ok a → Faithful (k a) (f a)) : Faithful (g >>= k) (r >>= f) := by
  obtain ⟨rfl, hproper⟩ := h
  cases r with
  | error e => exact error hproper
  | ok a => exact hf a rfl

theorem map (h : Faithful g r) (f : α → β) : Faithful (g.map f) (r.map f) := by
  obtain ⟨rfl, hproper⟩ := h
  cases r with
  | error e => exact error hproper
  | ok a => exact ok (f a)

theorem mapM {γ : Type} {g : α → Except (Halt EvalError) γ} {f : β → Except EvalError γ}
    {xs : List α} {ys : List β} (h : List.Forall₂ (fun x y => Faithful (g x) (f y)) xs ys) :
    Faithful (xs.mapM g) (ys.mapM f) := by
  induction h with
  | nil => exact ok []
  | cons hx _ ih =>
    rw [List.mapM_cons, List.mapM_cons]
    exact hx.bind fun a _ => ih.bind fun as _ => ok (a :: as)

end Faithful

end TableConsole.Guarded
