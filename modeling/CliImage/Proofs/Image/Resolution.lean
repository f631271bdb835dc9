import CliImage.Proofs.Image.Initializer
import Mathlib.Data.Nat.Bitwise

/-! What two names resolve to: the first method of a name in the first type of a name, if it may be
called when a module is loaded, and else the first thing that is wrong with it. -/

namespace CliImage

/-- The accessibility bits say private or protected. -/
def Method.IsHidden (m : Method) : Prop := m.flags &&& 7 = 1 ∨ m.flags &&& 7 = 4

namespace Image

variable {α : Type} {xs : List α} {p : α → Bool} {a : α} {k : Nat} {image : Image}
  {type method name : String} {t : TypeDef} {i j : Nat} {m : Method} {r : Result MethodRef}

/-- The first element of a list that passes a test, and its place. -/
def FirstAt (xs : List α) (p : α → Bool) (k : Nat) (a : α) : Prop :=
  xs[k]? = some a ∧ p a = true ∧ ∀ l < k, ∀ b, xs[l]? = some b → p b = false

lemma find?_eq_some_iff_firstAt : xs.find? p = some a ↔ ∃ k, FirstAt xs p k a := by
  rw [List.find?_eq_some_iff_getElem]
  constructor
  · rintro ⟨hp, k, hlt, rfl, hbefore⟩
    refine ⟨k, List.getElem?_eq_getElem hlt, hp, fun l hl b hb => ?_⟩
    obtain ⟨hlt', rfl⟩ := List.getElem?_eq_some_iff.mp hb
    simpa using hbefore l hl
  · rintro ⟨k, ha, hp, hbefore⟩
    obtain ⟨hlt, rfl⟩ := List.getElem?_eq_some_iff.mp ha
    refine ⟨hp, k, hlt, rfl, fun l hl => ?_⟩
    simpa using hbefore l hl _ (List.getElem?_eq_getElem (hl.trans hlt))

/-- The first of an image's types that has a name. -/
def FirstType (image : Image) (name : String) (t : TypeDef) : Prop :=
  ∃ j, FirstAt image.types.toList (fun u => u.name = name) j t

/-- The first of a type's methods that has a name, with its place among the image's methods. -/
def FirstMethod (image : Image) (t : TypeDef) (name : String) (i : Nat) (m : Method) : Prop :=
  ∃ k, FirstAt (image.methodsOf t) (fun n => n.2.name = name) k (i, m)

lemma findType?_eq_some : image.findType? name = some (j, t) ↔
    FirstAt image.types.toList (fun u => u.name = name) j t := by
  simp only [findType?, Option.bind_eq_some_iff, Option.map_eq_some_iff, Prod.mk.injEq, FirstAt,
    Array.getElem?_toList]
  constructor
  · rintro ⟨_, hindex, _, ht, rfl, rfl⟩
    obtain ⟨hlt, hname, hbefore⟩ := Array.findIdx?_eq_some_iff_getElem.mp hindex
    obtain ⟨_, rfl⟩ := Array.getElem?_eq_some_iff.mp ht
    refine ⟨ht, hname, fun k hk u hu => ?_⟩
    obtain ⟨_, rfl⟩ := Array.getElem?_eq_some_iff.mp hu
    simpa using hbefore k hk
  · rintro ⟨ht, hname, hbefore⟩
    obtain ⟨hlt, rfl⟩ := Array.getElem?_eq_some_iff.mp ht
    refine ⟨j, Array.findIdx?_eq_some_iff_getElem.mpr ⟨hlt, hname, fun k hk => ?_⟩, _, ht, rfl, rfl⟩
    simpa using hbefore k hk _ (Array.getElem?_eq_getElem (hk.trans hlt))

lemma findType?_eq_none : image.findType? name = none ↔ ∀ t ∈ image.types, t.name ≠ name := by
  rw [findType?, Option.bind_eq_none_iff]
  constructor
  · intro h t ht hname
    cases hfound : image.types.findIdx? (·.name == name) with
    | none => exact absurd hname (by simpa using Array.findIdx?_eq_none_iff.mp hfound t ht)
    | some j =>
      obtain ⟨hlt, -⟩ := Array.findIdx?_eq_some_iff_getElem.mp hfound
      simpa [hlt] using h j hfound
  · intro h j hfound
    obtain ⟨hlt, hname, -⟩ := Array.findIdx?_eq_some_iff_getElem.mp hfound
    exact absurd (by simpa using hname) (h _ (Array.getElem_mem hlt))

lemma findMethod?_eq_some :
    image.findMethod? t name = some (i, m) ↔ image.FirstMethod t name i m := by
  rw [FirstMethod, ← find?_eq_some_iff_firstAt, findMethod?]
  rfl

lemma findMethod?_eq_none :
    image.findMethod? t name = none ↔ ∀ n ∈ image.methodsOf t, n.2.name ≠ name := by
  simp [findMethod?, List.find?_eq_none]

lemma isHidden_iff : m.IsHidden ↔ m.columns.access = MethodFlags.privateAccess ∨
    m.columns.access = MethodFlags.familyAccess := by
  have haccess : m.columns.access = (m.flags &&& 7).toNat := by
    rw [UInt32.toNat_and]
    exact (Nat.and_two_pow_sub_one_eq_mod m.flags.toNat 3).symm
  rw [Method.IsHidden, ← UInt32.toNat_inj, ← UInt32.toNat_inj, haccess]
  rfl

instance : Decidable m.IsHidden := decidable_of_iff' _ isHidden_iff

lemma isStatic_iff : m.isStatic = true ↔ m.flags &&& 0x10 ≠ 0 := by
  have hbit : (m.flags &&& 0x10).toNat = (m.flags.toNat.testBit 4).toNat * 2 ^ 4 := by
    rw [UInt32.toNat_and]
    exact Nat.and_two_pow m.flags.toNat 4
  rw [ne_eq, ← UInt32.toNat_inj, hbit, Method.isStatic, MethodFlags.isStatic]
  change m.flags.toNat.testBit 4 = true ↔ _
  cases m.flags.toNat.testBit 4 <;> decide

/-- The image's method at a place is the first of a name in the first type of a name. -/
def FirstNamed (image : Image) (type method : String) (i : Nat) (m : Method) : Prop :=
  image.methods[i]? = some m ∧ ∃ t, image.FirstType type t ∧ image.FirstMethod t method i m

/-- What two names come to. Each case holds where those in front of it do not. -/
inductive Answers (image : Image) (type method : String) : Result MethodRef → Prop
  | noType (h : ∀ t ∈ image.types, t.name ≠ type) :
      Answers image type method (.error (.typeNotFound type))
  | noMethod {t : TypeDef} (ht : image.FirstType type t)
      (h : ∀ n ∈ image.methodsOf t, n.2.name ≠ method) :
      Answers image type method (.error (.methodNotFound type method))
  | parameters {i : Nat} {m : Method} (hm : image.FirstNamed type method i m) (h : m.params ≠ []) :
      Answers image type method (.error (.hasParameters method))
  | hidden {i : Nat} {m : Method} (hm : image.FirstNamed type method i m) (hparams : m.params = [])
      (h : m.IsHidden) : Answers image type method (.error (.notVisible method))
  | value {i : Nat} {m : Method} (hm : image.FirstNamed type method i m) (hparams : m.params = [])
      (hvisible : ¬ m.IsHidden) (h : m.returnType ≠ "System.Void") :
      Answers image type method (.error (.returnsValue method m.returnType))
  | notStatic {i : Nat} {m : Method} (hm : image.FirstNamed type method i m)
      (hparams : m.params = []) (hvisible : ¬ m.IsHidden) (hreturns : m.returnType = "System.Void")
      (h : m.flags &&& 0x10 = 0) : Answers image type method (.error (.notStatic method))
  | legal {i : Nat} {m : Method} (hm : image.FirstNamed type method i m) (hparams : m.params = [])
      (hvisible : ¬ m.IsHidden) (hreturns : m.returnType = "System.Void")
      (hstatic : m.flags &&& 0x10 ≠ 0) :
      Answers image type method (.ok ⟨image.id, i, type, method⟩)

lemma names_iff_firstNamed : image.Names type method i m ↔ image.FirstNamed type method i m := by
  constructor
  · intro h
    obtain ⟨j, t, htype, hmethod⟩ := h
    exact ⟨(getElem?_of_findMethod? hmethod).1, t, ⟨j, findType?_eq_some.mp htype⟩,
      findMethod?_eq_some.mp hmethod⟩
  · rintro ⟨-, t, ⟨j, htype⟩, hmethod⟩
    exact ⟨j, t, findType?_eq_some.mpr htype, findMethod?_eq_some.mpr hmethod⟩

lemma checkInitializer_eq : checkInitializer name m =
    if m.params ≠ [] then .error (.hasParameters name)
    else if m.IsHidden then .error (.notVisible name)
    else if m.returnType ≠ "System.Void" then .error (.returnsValue name m.returnType)
    else if m.flags &&& 0x10 = 0 then .error (.notStatic name)
    else .ok () := by
  have hparams : (¬ m.params.isEmpty = true) = (m.params ≠ []) := by simp
  have hstatic : (¬ m.isStatic = true) = (m.flags &&& 0x10 = 0) := by simp [isStatic_iff]
  simp only [checkInitializer, voidName, isHidden_iff, hparams, hstatic]

lemma resolve_of_firstNamed (h : image.FirstNamed type method i m) : image.resolve type method =
    (checkInitializer method m).map fun _ => ⟨image.id, i, type, method⟩ :=
  resolve_of_names (names_iff_firstNamed.mpr h)

lemma answers_of_firstNamed (h : image.FirstNamed type method i m) :
    image.Answers type method (image.resolve type method) := by
  rw [resolve_of_firstNamed h, checkInitializer_eq]
  by_cases hparams : m.params ≠ []
  · rw [if_pos hparams]
    exact .parameters h hparams
  rw [if_neg hparams]
  rw [not_not] at hparams
  by_cases hhidden : m.IsHidden
  · rw [if_pos hhidden]
    exact .hidden h hparams hhidden
  rw [if_neg hhidden]
  by_cases hreturns : m.returnType ≠ "System.Void"
  · rw [if_pos hreturns]
    exact .value h hparams hhidden hreturns
  rw [if_neg hreturns]
  rw [not_not] at hreturns
  by_cases hstatic : m.flags &&& 0x10 = 0
  · rw [if_pos hstatic]
    exact .notStatic h hparams hhidden hreturns hstatic
  · rw [if_neg hstatic]
    exact .legal h hparams hhidden hreturns hstatic

lemma answers_resolve (image : Image) (type method : String) :
    image.Answers type method (image.resolve type method) := by
  cases htype : image.findType? type with
  | none =>
    simp only [resolve, htype]
    exact .noType (findType?_eq_none.mp htype)
  | some found =>
    obtain ⟨j, t⟩ := found
    have ht : image.FirstType type t := ⟨j, findType?_eq_some.mp htype⟩
    cases hmethod : image.findMethod? t method with
    | none =>
      simp only [resolve, htype, hmethod]
      exact .noMethod ht (findMethod?_eq_none.mp hmethod)
    | some found => exact answers_of_firstNamed (names_iff_firstNamed.mp ⟨j, t, htype, hmethod⟩)

/-- The cases exclude each other. -/
lemma Answers.resolve_eq (h : image.Answers type method r) : image.resolve type method = r := by
  cases h with
  | noType h => simp [resolve, findType?_eq_none.mpr h]
  | noMethod ht h =>
    obtain ⟨j, htype⟩ := ht
    simp [resolve, findType?_eq_some.mpr htype, findMethod?_eq_none.mpr h]
  | parameters hm h => simp [resolve_of_firstNamed hm, checkInitializer_eq, h, Except.map]
  | hidden hm hparams h =>
    simp [resolve_of_firstNamed hm, checkInitializer_eq, hparams, h, Except.map]
  | value hm hparams hvisible h =>
    simp [resolve_of_firstNamed hm, checkInitializer_eq, hparams, hvisible, h, Except.map]
  | notStatic hm hparams hvisible hreturns h =>
    simp [resolve_of_firstNamed hm, checkInitializer_eq, hparams, hvisible, hreturns, h, Except.map]
  | legal hm hparams hvisible hreturns hstatic =>
    simp [resolve_of_firstNamed hm, checkInitializer_eq, hparams, hvisible, hreturns, hstatic,
      Except.map]

/-- Two names resolve to the first method of the one name in the first type of the other if it is
legal, and else to the first thing that is wrong with it, whatever later methods and types of these
names are like. -/
theorem resolve_eq_iff : image.resolve type method = r ↔ image.Answers type method r :=
  ⟨fun h => h ▸ answers_resolve image type method, Answers.resolve_eq⟩

end Image

end CliImage
