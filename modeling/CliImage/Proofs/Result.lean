import CliImage.Error
import Mathlib.Data.List.Forall2
import Mathlib.Data.Nat.Basic
import Mathlib.Order.Basic
import Mathlib.Tactic.Lemma

/-! What a computation that succeeds says about its parts. -/

namespace CliImage.Result

variable {α β : Type}

lemma bind_eq_ok {x : Result α} {f : α → Result β} {b : β} :
    x >>= f = .ok b ↔ ∃ a, x = .ok a ∧ f a = .ok b := by
  cases x <;> simp [bind, Except.bind]

lemma map_eq_ok {f : α → β} {x : Result α} {b : β} :
    f <$> x = .ok b ↔ ∃ a, x = .ok a ∧ f a = b := by
  cases x <;> simp [Functor.map, Except.map]

@[simp] lemma map_ok (f : α → β) (a : α) : f <$> (.ok a : Result α) = .ok (f a) := rfl

lemma mapError_eq_ok {f : Error → Error} {x : Result α} {a : α} :
    x.mapError f = .ok a ↔ x = .ok a := by
  cases x <;> simp [Except.mapError]

@[simp] lemma throw_bind (e : Error) (f : α → Result β) :
    ((throw e : Result α) >>= f) = .error e := rfl

@[simp] lemma error_bind (e : Error) (f : α → Result β) :
    ((.error e : Result α) >>= f) = .error e := rfl

@[simp] lemma ok_bind (a : α) (f : α → Result β) : ((.ok a : Result α) >>= f) = f a := rfl

@[simp] lemma pure_eq (a : α) : (pure a : Result α) = .ok a := rfl

@[simp] lemma throw_eq (e : Error) : (throw e : Result α) = .error e := rfl

lemma unless_throw_eq_ok {c : Prop} [Decidable c] {e : Error} {f : α → Result β} {x : Result β}
    {b : β} : (if c then (throw e : Result α) >>= f else x) = .ok b ↔ ¬ c ∧ x = .ok b := by
  split <;> simp_all

instance {r : Result α} {p : α → Prop} [DecidablePred p] : Decidable (∀ a, r = .ok a → p a) :=
  match r with
  | .ok a => decidable_of_iff (p a) ⟨fun h _ ha => Except.ok.inj ha ▸ h, fun h => h a rfl⟩
  | .error _ => .isTrue fun _ ha => nomatch ha

instance {r : Result α} {p : α → Prop} [DecidablePred p] : Decidable (∃ a, r = .ok a ∧ p a) :=
  match r with
  | .ok a => decidable_of_iff (p a) ⟨fun h => ⟨a, rfl, h⟩, fun ⟨_, ha, h⟩ => Except.ok.inj ha ▸ h⟩
  | .error _ => .isFalse fun ⟨_, ha, _⟩ => nomatch ha

/-- Whether a computation succeeds with a value that passes a test. -/
def holds (x : Result α) (p : α → Bool) : Bool :=
  match x with
  | .ok a => p a
  | .error _ => false

lemma exists_of_holds {x : Result α} {p : α → Bool} (h : holds x p = true) :
    ∃ a, x = .ok a ∧ p a = true := by
  cases x with
  | ok a => exact ⟨a, rfl, h⟩
  | error e => cases h

lemma mapM_eq_ok {f : α → Result β} {xs : List α} {ys : List β} :
    xs.mapM f = .ok ys ↔ List.Forall₂ (fun x y => f x = .ok y) xs ys := by
  induction xs generalizing ys with
  | nil => simp [eq_comm]
  | cons x xs ih =>
    rw [List.mapM_cons, bind_eq_ok]
    simp only [bind_eq_ok, pure_eq, Except.ok.injEq]
    constructor
    · rintro ⟨y, hy, zs, hzs, rfl⟩
      exact .cons hy (ih.mp hzs)
    · rintro (_ | ⟨hy, hzs⟩)
      exact ⟨_, hy, _, ih.mpr hzs, rfl⟩

lemma exists_mapM {f : α → Result β} {xs : List α} (h : ∀ x ∈ xs, ∃ y, f x = .ok y) :
    ∃ ys, xs.mapM f = .ok ys := by
  induction xs with
  | nil => exact ⟨[], rfl⟩
  | cons x xs ih =>
    obtain ⟨⟨y, hy⟩, hxs⟩ := List.forall_mem_cons.mp h
    obtain ⟨ys, hys⟩ := ih hxs
    exact ⟨y :: ys, mapM_eq_ok.mpr (.cons hy (mapM_eq_ok.mp hys))⟩

lemma forall_of_mapM {f : α → Result β} {p : β → Prop} {xs : List α} {ys : List β}
    (hf : ∀ x y, f x = .ok y → p y) (h : xs.mapM f = .ok ys) : ∀ y ∈ ys, p y := by
  have hforall := mapM_eq_ok.mp h
  clear h
  induction hforall with
  | nil => simp
  | cons hy _ ih => exact List.forall_mem_cons.mpr ⟨hf _ _ hy, ih⟩

lemma foldlM_cons_eq_ok {f : β → α → Result β} {x : α} {xs : List α} {b c : β} :
    (x :: xs).foldlM f b = .ok c ↔ ∃ d, f b x = .ok d ∧ xs.foldlM f d = .ok c := by
  rw [List.foldlM_cons, bind_eq_ok]

lemma exists_foldlM_iff {f : β → α → Result β} {p : α → Prop}
    (hf : ∀ b a, (∃ c, f b a = .ok c) ↔ p a) {xs : List α} {b : β} :
    (∃ c, xs.foldlM f b = .ok c) ↔ ∀ a ∈ xs, p a := by
  induction xs generalizing b with
  | nil => simp
  | cons x xs ih =>
    simp only [foldlM_cons_eq_ok, List.forall_mem_cons]
    rw [exists_comm]
    simp only [exists_and_left, ih, exists_and_right, hf]

lemma foldlM_congr {f g : β → α → Result β} {xs : List α} {b : β}
    (h : ∀ b, ∀ x ∈ xs, f b x = g b x) : xs.foldlM f b = xs.foldlM g b := by
  induction xs generalizing b with
  | nil => rfl
  | cons x xs ih =>
    rw [List.foldlM_cons, List.foldlM_cons, h b x (List.mem_cons_self ..)]
    congr 1
    exact funext fun c => ih fun b y hy => h b y (List.mem_cons_of_mem _ hy)

end CliImage.Result
