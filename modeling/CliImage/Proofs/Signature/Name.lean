import CliImage.Signature.Text
import Mathlib.Data.List.Basic
import Mathlib.Tactic.Lemma

/-! Which parameters are shown with the name of void. All that a name is built around is closed by a
mark or led by one, and the name of void has neither. -/

namespace CliImage

variable {name : Token → String}

lemma Primitive.fullName_eq_void (p : Primitive) : p.fullName = "System.Void" ↔ p = .void := by
  cases p <;> decide

lemma append_ne_void (front : String) {back : String}
    (h : ¬ back.toList <:+ "System.Void".toList) : front ++ back ≠ "System.Void" := by
  intro hname
  refine h ?_
  rw [← hname, String.toList_append]
  exact List.suffix_append ..

lemma prepend_ne_void {front : String} (back : String)
    (h : ¬ front.toList <+: "System.Void".toList) : front ++ back ≠ "System.Void" := by
  intro hname
  refine h ?_
  rw [← hname, String.toList_append]
  exact List.prefix_append ..

@[simp] lemma renderModifiers_nil : renderModifiers name [] = "" := by
  rw [renderModifiers, List.map_nil, String.join_nil]

/-- The last modifier ends with a bracket. -/
lemma append_modifiers_ne_void (front : String) {modifiers : List Modifier} (h : modifiers ≠ []) :
    front ++ renderModifiers name modifiers ≠ "System.Void" := by
  obtain ⟨others, last, rfl⟩ := modifiers.eq_nil_or_concat'.resolve_left h
  rw [renderModifiers, List.map_append, String.join_append, List.map_singleton, String.join_cons,
    String.join_nil, String.append_empty, ← String.append_assoc, ← String.append_assoc]
  exact append_ne_void _ (by decide)

/-- Void itself, and a token that is named like it. -/
def SigType.IsVoid (name : Token → String) : SigType → Prop
  | .primitive p => p = .void
  | .valueType token | .class token => name token = "System.Void"
  | _ => False

/-- Whatever names the tokens in it have, a type that is built from others is not shown as void. -/
lemma SigType.fullName_eq_void (type : SigType) :
    type.fullName name = "System.Void" ↔ type.IsVoid name := by
  cases type with
  | primitive p =>
    rw [fullName]
    exact p.fullName_eq_void
  | valueType token | «class» token => rw [fullName, IsVoid]
  | ptr modifiers target =>
    refine iff_of_false ?_ id
    rw [fullName]
    by_cases hmodifiers : modifiers = []
    · subst hmodifiers
      rw [renderModifiers_nil, String.append_empty]
      exact append_ne_void _ (by decide)
    · exact append_modifiers_ne_void _ hmodifiers
  | byRef target | array element rank dimensions | generic base args | vector modifiers element
  | pinned type =>
    refine iff_of_false ?_ id
    rw [fullName]
    exact append_ne_void _ (by decide)
  | typeParam index | methodParam index =>
    refine iff_of_false ?_ id
    rw [fullName]
    exact prepend_ne_void _ (by decide)
  | fnPtr method =>
    refine iff_of_false ?_ id
    rw [fullName, pointerName]
    exact append_ne_void _ (by decide)
  | modified modifier type =>
    refine iff_of_false ?_ id
    rw [fullName]
    exact append_modifiers_ne_void _ (List.cons_ne_nil _ _)

/-- A parameter is shown as void if, and only if, it is void without anything around it. -/
theorem Param.fullName_eq_void_iff (name : Token → String) (p : Param SigType) :
    p.fullName name = "System.Void" ↔
      p.byRef = false ∧ p.modifiers = [] ∧ p.type.IsVoid name := by
  obtain ⟨modifiers, byRef, type⟩ := p
  rw [fullName, paramName]
  by_cases hmodifiers : modifiers = []
  · subst hmodifiers
    rw [renderModifiers_nil, String.append_empty]
    cases byRef with
    | true => exact iff_of_false (append_ne_void _ (by decide)) (Bool.noConfusion ·.1)
    | false =>
      rw [if_neg Bool.false_ne_true, String.append_empty, SigType.fullName_eq_void]
      simp
  · exact iff_of_false (append_modifiers_ne_void _ hmodifiers) fun h => hmodifiers h.2.1

end CliImage
