import CliImage.Error
import Mathlib.Tactic.Lemma

/-! Calls that change a state in place, one after another, whether or not each of them succeeds. -/

namespace CliImage

/-- A call that changes a state; where it fails the state is as far as it came. -/
abbrev InPlace (σ α : Type) := EStateM Error σ α

namespace InPlace

variable {σ α β ι : Type}

/-- The state that a call ends in, well or not. -/
def stateOf : EStateM.Result Error σ α → σ
  | .ok _ s => s
  | .error _ s => s

/-- A computation on the side, which changes no state. -/
def ofResult (r : Result α) : InPlace σ α := fun s =>
  match r with
  | .ok a => .ok a s
  | .error e => .error e s

/-- The state after calls one after another, those that fail among them. -/
def after (call : ι → InPlace σ α) (s : σ) (inputs : List ι) : σ :=
  inputs.foldl (fun s input => stateOf (call input s)) s

variable {call : ι → InPlace σ α} {s s' : σ}

lemma bind_apply (x : InPlace σ α) (f : α → InPlace σ β) (s : σ) :
    (x >>= f) s = match x s with
      | .ok a s => f a s
      | .error e s => .error e s := by
  change EStateM.bind x f s = _
  unfold EStateM.bind
  cases x s <;> rfl

@[simp] lemma get_bind (f : σ → InPlace σ α) (s : σ) : (get >>= f) s = f s s := rfl

@[simp] lemma modify_bind (g : σ → σ) (f : Unit → InPlace σ α) (s : σ) :
    ((modify g : InPlace σ Unit) >>= f) s = f () (g s) := rfl

lemma ofResult_bind (r : Result α) (f : α → InPlace σ β) (s : σ) :
    (ofResult r >>= f) s = match r with
      | .ok a => f a s
      | .error e => .error e s := by
  rw [bind_apply]
  cases r <;> rfl

@[simp] lemma pure_apply (a : α) (s : σ) : (pure a : InPlace σ α) s = .ok a s := rfl

@[simp] lemma throw_apply (e : Error) (s : σ) : (throw e : InPlace σ α) s = .error e s := rfl

@[simp] lemma after_nil : after call s [] = s := rfl

@[simp] lemma after_cons (input : ι) (inputs : List ι) :
    after call s (input :: inputs) = after call (stateOf (call input s)) inputs := rfl

lemma after_append (inputs inputs' : List ι) :
    after call s (inputs ++ inputs') = after call (after call s inputs) inputs' :=
  List.foldl_append ..

/-- What each call does to the state, all of them do, where doing it twice is doing it. -/
lemma rel_after {R : σ → σ → Prop} (hrefl : ∀ s, R s s)
    (htrans : ∀ {s s' s''}, R s s' → R s' s'' → R s s'')
    (hstep : ∀ s input, R s (stateOf (call input s))) (s : σ) (inputs : List ι) :
    R s (after call s inputs) := by
  induction inputs generalizing s with
  | nil => exact hrefl s
  | cons input inputs ih => exact htrans (hstep s input) (ih _)

end InPlace

end CliImage
