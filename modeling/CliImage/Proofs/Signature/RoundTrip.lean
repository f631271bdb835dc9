import CliImage.Proofs.Compressed
import CliImage.Proofs.Signature.Encoding

/-! Signatures are read back from their spelling. -/

namespace CliImage

namespace Signature

open Reader (ReadsBack ReadsBefore Leads)

lemma readsBack_number {n : Nat} (h : isNumber n) :
    ReadsBack Compressed.read (encodeNumber n) n := by
  obtain ⟨piece, hpiece⟩ := Option.isSome_iff_exists.mp ((Compressed.isSome_encode? n).trans h)
  rw [encodeNumber, hpiece]
  exact Compressed.readsBack_of_encode? hpiece

lemma tokenTag?_eq_some {token : Token} {tag : Nat} (h : tokenTag? token = some tag) :
    token.table = 0x02 ∧ tag = 0 ∨ token.table = 0x01 ∧ tag = 1 ∨ token.table = 0x1B ∧ tag = 2 := by
  unfold tokenTag? at h
  split at h
  · rename_i htable
    exact .inl ⟨htable, by simpa using h.symm⟩
  split at h
  · rename_i htable
    exact .inr (.inl ⟨htable, by simpa using h.symm⟩)
  split at h
  · rename_i htable
    exact .inr (.inr ⟨htable, by simpa using h.symm⟩)
  · cases h

lemma readsBack_token {token : Token} (h : isTypeToken token) :
    ReadsBack Compressed.readToken (encodeToken token) token := by
  have hrow : token.row < 2 ^ 24 := token.row_lt
  -- The table and the row do not share bits.
  have hjoin {table : Nat} (htable : token.table = table) :
      UInt32.ofNat (2 ^ 24 * table ||| token.row) = token.value := by
    rw [← Nat.two_pow_add_eq_or_of_lt hrow, ← htable, Nat.mul_comm]
    exact (congrArg UInt32.ofNat token.value_toNat.symm).trans (UInt32.ofNat_toNat ..)
  obtain ⟨tag, htag⟩ := Option.isSome_iff_exists.mp h
  have htag' := tokenTag?_eq_some htag
  have hnumber : isNumber (token.row * 4 + tag) :=
    decide_eq_true (show _ ≤ 0x1FFFFFFF by omega)
  rw [encodeToken, htag, Option.getD_some]
  refine (readsBack_number hnumber).bind_empty ?_
  rw [show (token.row * 4 + tag) % 4 = tag by omega,
    show (token.row * 4 + tag) / 4 = token.row by omega]
  rcases htag' with ⟨htable, rfl⟩ | ⟨htable, rfl⟩ | ⟨htable, rfl⟩
  · rw [hjoin htable]
    exact .pure token
  · rw [hjoin htable]
    exact .pure token
  · rw [hjoin htable]
    exact .pure token

/-- The byte is no modifier's. -/
abbrev EndsModifiers (b : UInt8) : Prop := ¬ (b = requiredModifier ∨ b = optionalModifier)

lemma not_endsModifiers (modifier : Modifier) : ¬ EndsModifiers (modifierCode modifier) := by
  unfold modifierCode
  split
  · exact not_not.mpr (.inl rfl)
  · exact not_not.mpr (.inr rfl)

lemma modifierCode_beq (modifier : Modifier) :
    (modifierCode modifier == requiredModifier) = modifier.required := by
  obtain ⟨required, type⟩ := modifier
  cases required <;> rfl

lemma readsBefore_modifiersWithin {modifiers : List Modifier}
    (h : modifiers.all (isTypeToken ·.type)) {room : Nat} (hroom : modifiers.length ≤ room) :
    ReadsBefore EndsModifiers (readModifiersWithin room) (encodeModifiers modifiers)
      modifiers := by
  induction modifiers generalizing room with
  | nil =>
    rintro data pos - ⟨b, hget, hb⟩
    rw [encodeModifiers, Array.size_empty, Nat.add_zero] at hget
    obtain ⟨hlt, -⟩ := Array.getElem?_eq_some_iff.mp hget
    cases room with
    | zero => rfl
    | succ room =>
      rw [readModifiersWithin, Reader.bind_eq_ok]
      refine ⟨true, pos, Reader.hasMore_eq_ok.mpr ⟨decide_eq_true hlt, rfl⟩, ?_⟩
      rw [if_pos rfl, Reader.bind_eq_ok]
      refine ⟨b, pos, Reader.peek_eq_ok.mpr ⟨hget, rfl⟩, ?_⟩
      rw [if_neg hb]
      rfl
  | cons modifier modifiers ih =>
    rw [List.all_cons, Bool.and_eq_true] at h
    obtain ⟨room, rfl⟩ := Nat.exists_eq_add_one_of_ne_zero (n := room)
      (Nat.ne_of_gt ((Nat.succ_pos _).trans_le hroom))
    rw [readModifiersWithin, encodeModifiers]
    refine .hasMore (by simp only [Array.size_append, List.size_toArray, List.length_cons]; omega) ?_
    rw [if_pos rfl]
    refine .peek (c := modifierCode modifier) (by simp) ?_
    rw [if_pos (not_not.mp (not_endsModifiers modifier)), modifierCode_beq]
    exact (ReadsBack.advance _).bindBefore <| (readsBack_token h.1).bindBefore <|
      (ih h.2 (Nat.le_of_succ_le_succ hroom)).bind_pure

lemma length_le_encodeModifiers (modifiers : List Modifier) :
    modifiers.length ≤ (encodeModifiers modifiers).size := by
  induction modifiers with
  | nil => exact le_rfl
  | cons modifier modifiers ih =>
    rw [encodeModifiers, List.length_cons, Array.size_append, Array.size_append]
    simp only [List.size_toArray, List.length_singleton]
    omega

lemma readsBefore_modifiers {modifiers : List Modifier}
    (h : modifiers.all (isTypeToken ·.type)) :
    ReadsBefore EndsModifiers readModifiers (encodeModifiers modifiers) modifiers := by
  intro data pos hdata hend
  have hsize := hdata.le_size
  have hlength := length_le_encodeModifiers modifiers
  exact Reader.bind_eq_ok.mpr ⟨data, pos, rfl,
    readsBefore_modifiersWithin h (by omega) hdata hend⟩

/-- The first byte of a spelled type. -/
def typeCode : SigType → UInt8
  | .primitive p => p.code
  | .ptr .. => 0x0F
  | .byRef _ => byRefCode
  | .valueType _ => 0x11
  | .class _ => 0x12
  | .typeParam _ => 0x13
  | .array .. => 0x14
  | .generic .. => 0x15
  | .fnPtr _ => 0x1B
  | .vector .. => 0x1D
  | .methodParam _ => 0x1E
  | .modified modifier _ => modifierCode modifier
  | .pinned _ => 0x45

lemma encodeType_lead (type : SigType) : (encodeType type)[0]? = some (typeCode type) := by
  cases type <;> first | exact Bytes.getElem?_singleton_append .. | rfl

lemma ofCode?_code (p : Primitive) : Primitive.ofCode? p.code = some p := by
  cases p <;> decide

lemma typeCode_ne_sentinel (type : SigType) : typeCode type ≠ sentinel := by
  cases type with
  | primitive p => cases p <;> decide
  | modified modifier type =>
    rw [typeCode, modifierCode]
    split <;> decide
  | _ => exact of_decide_eq_true rfl

lemma typeCode_beq_byRef (type : SigType) : (typeCode type == byRefCode) = isByRef type := by
  cases type with
  | primitive p => cases p <;> decide
  | modified modifier type =>
    rw [typeCode, modifierCode]
    split <;> rfl
  | _ => rfl

lemma endsModifiers_typeCode {type : SigType} (h : isModified type = false) :
    EndsModifiers (typeCode type) := by
  cases type with
  | primitive p => cases p <;> decide
  | modified modifier type => cases h
  | _ => exact of_decide_eq_true rfl

lemma leads_encodeType {type : SigType} (h : isModified type = false) :
    Leads EndsModifiers (encodeType type) :=
  ⟨_, encodeType_lead type, endsModifiers_typeCode h⟩


section Within

variable {read : Reader SigType} {normal : SigType → Bool}

/-- Parameters are read back where their types are. -/
lemma readsBack_param (hread : ∀ t, normal t → ReadsBack read (encodeType t) t)
    {p : Param SigType} (h : isNormalParam p) (htype : normal p.type) :
    ReadsBack (readParam read) (encodeParam p) p := by
  obtain ⟨modifiers, byRef, type⟩ := p
  obtain ⟨hmodifiers, htop⟩ := Bool.and_eq_true_iff.mp h
  have hread := hread type htype
  rw [encodeParam, readParam]
  cases byRef with
  | true =>
    refine (readsBefore_modifiers hmodifiers).bind (Reader.leads_singleton (by decide) _) ?_
    refine .peek (c := byRefCode) (by simp) ?_
    exact .bind (.advance byRefCode) hread.bind_pure
  | false =>
    obtain ⟨hmodified, hbyRef⟩ : isModified type = false ∧ isByRef type = false := by
      simpa using htop
    rw [if_neg (by simp), Array.empty_append]
    refine (readsBefore_modifiers hmodifiers).bind (leads_encodeType hmodified) ?_
    refine .peek (encodeType_lead type) ?_
    rw [typeCode_beq_byRef, hbyRef]
    exact hread.bind_pure

/-- What a parameter begins with. -/
lemma exists_lead_encodeParam (p : Param SigType) :
    ∃ b, (encodeParam p)[0]? = some b ∧ b ≠ sentinel := by
  obtain ⟨modifiers, byRef, type⟩ := p
  rw [encodeParam]
  cases modifiers with
  | cons modifier modifiers =>
    refine ⟨modifierCode modifier, by simp [encodeModifiers], ?_⟩
    rw [modifierCode]
    split <;> decide
  | nil =>
    rw [encodeModifiers, Array.empty_append]
    cases byRef with
    | true => exact ⟨byRefCode, by simp, by decide⟩
    | false => exact ⟨_, by simpa using encodeType_lead type, typeCode_ne_sentinel type⟩

/-- The sentinel ends parameters that are fewer than announced. -/
lemma readsBack_params (hread : ∀ t, normal t → ReadsBack read (encodeType t) t)
    {n : Nat} {params : List (Param SigType)} (hparams : ∀ p ∈ params, isNormalParam p)
    (htypes : ∀ p ∈ params, normal p.type) {stop : Bytes}
    (hstop : n = params.length ∧ stop = #[] ∨ params.length < n ∧ stop = #[sentinel]) :
    ReadsBack (readParams (readParam read) n) (encodeParams params ++ stop) params := by
  induction params generalizing n with
  | nil =>
    rw [encodeParams, Array.empty_append]
    rcases hstop with ⟨rfl, rfl⟩ | ⟨hn, rfl⟩
    · exact .pure []
    · obtain ⟨n, rfl⟩ := Nat.exists_eq_add_one_of_ne_zero (Nat.ne_of_gt hn)
      refine .peek (c := sentinel) rfl ?_
      rw [if_pos rfl]
      exact (ReadsBack.advance sentinel).bind_pure (g := fun _ => [])
  | cons p params ih =>
    obtain ⟨n, rfl⟩ := Nat.exists_eq_add_one_of_ne_zero (n := n) (by
      rw [List.length_cons] at hstop
      omega)
    obtain ⟨b, hb, hne⟩ := exists_lead_encodeParam p
    obtain ⟨hlt, -⟩ := Array.getElem?_eq_some_iff.mp hb
    have hfirst := readsBack_param hread (hparams p (List.mem_cons_self ..))
      (htypes p (List.mem_cons_self ..))
    have hrest := ih (fun p hp => hparams p (List.mem_cons_of_mem _ hp))
      (fun p hp => htypes p (List.mem_cons_of_mem _ hp)) (n := n) (by simpa using hstop)
    rw [encodeParams, Array.append_assoc]
    refine .peek (c := b) (by rwa [Array.getElem?_append_left hlt]) ?_
    rw [if_neg hne]
    exact .bind hfirst hrest.bind_pure

lemma convention_spec (hasThis explicitThis vararg generic : Bool) :
    let byte := convention hasThis explicitThis vararg generic
    ¬ 0x05 < byte &&& 0x0F ∧ (byte &&& 0x0F == 0x05) = vararg ∧
      (byte &&& 0x10 != 0) = generic ∧ (byte &&& 0x20 != 0) = hasThis ∧
      (byte &&& 0x40 != 0) = explicitThis := by
  revert hasThis explicitThis vararg generic
  decide

lemma readsBack_method (hread : ∀ t, normal t → ReadsBack read (encodeType t) t)
    {sig : Signature} (h : isNormalMethod sig) (htypes : (methodParts sig).all normal) :
    ReadsBack (readMethod read) (encodeMethod sig) sig := by
  obtain ⟨hasThis, explicitThis, vararg, genericCount, paramCount, returns, params, varargs⟩ := sig
  simp only [isNormalMethod, Bool.and_eq_true, Bool.or_eq_true, beq_iff_eq, allParams,
    List.all_cons, List.all_append, List.all_eq_true, List.isEmpty_iff] at h
  simp only [methodParts, allParams, List.map_cons, List.map_append, List.all_cons,
    List.all_append, List.all_map, Bool.and_eq_true, List.all_eq_true, Function.comp_apply]
    at htypes
  obtain ⟨⟨⟨⟨hgeneric, hcount⟩, hlength⟩, hvararg⟩, hreturns, hparams, hvarargs⟩ := h
  obtain ⟨hreturnType, hparamTypes, hvarargTypes⟩ := htypes
  obtain ⟨hkind, hisVararg, hisGeneric, hhasThis, hexplicit⟩ :=
    convention_spec hasThis explicitThis vararg (genericCount != 0)
  rw [encodeMethod, readMethod]
  refine .bind (.u8 _) (.unless_fail hkind ?_)
  -- What stands behind the number of type parameters.
  have hrest : ReadsBack (do
      let paramCount ← Compressed.read
      let returns ← readParam read
      let params ← readParams (readParam read) paramCount
      if vararg then do
        let varargs ← Reader.many (readParam read) (paramCount - params.length)
        pure ⟨hasThis, explicitThis, vararg, genericCount, paramCount, returns, params, varargs⟩
      else do
        let varargs ← pure []
        pure ⟨hasThis, explicitThis, vararg, genericCount, paramCount, returns, params, varargs⟩)
      (encodeNumber paramCount ++ (encodeParam returns ++ (encodeParams params ++
          ((if varargs.isEmpty then #[] else #[sentinel]) ++ encodeParams varargs))))
      (⟨hasThis, explicitThis, vararg, genericCount, paramCount, returns, params, varargs⟩ :
        Signature) := by
    refine .bind (readsBack_number hcount) ?_
    refine .bind (readsBack_param hread hreturns hreturnType) ?_
    rw [← Array.append_assoc]
    refine .bind (readsBack_params hread hparams hparamTypes ?_) ?_
    · cases varargs with
      | nil => exact .inl ⟨by simpa using hlength, rfl⟩
      | cons p varargs => exact .inr ⟨by rw [hlength, List.length_cons]; omega, rfl⟩
    cases vararg with
    | false =>
      obtain rfl := hvararg.resolve_left (by simp)
      rw [encodeParams]
      exact (ReadsBack.pure []).bind_pure
    | true =>
      rw [if_pos rfl, hlength, Nat.add_sub_cancel_left]
      exact (ReadsBack.many (by rw [encodeParams]) (fun _ _ => by rw [encodeParams]) fun p hp =>
        readsBack_param hread (hvarargs p hp) (hvarargTypes p hp)).bind_pure
  simp only [hisVararg, hhasThis, hexplicit]
  by_cases hzero : genericCount = 0
  · subst hzero
    have hflag : ¬ convention hasThis explicitThis vararg (0 != 0) &&& 0x10 ≠ 0 := by
      simpa using hisGeneric
    rw [if_neg hflag, if_neg (by simp)]
    exact .bind (.pure 0) hrest
  · have hflag : convention hasThis explicitThis vararg (genericCount != 0) &&& 0x10 ≠ 0 := by
      rw [← bne_iff_ne, hisGeneric]
      simpa using hzero
    rw [if_pos hflag, if_pos (by simpa using hzero)]
    exact .bind (readsBack_number hgeneric) hrest

end Within

lemma dimensions_filterMap {list : List Dimension} (hsizes : ∀ d ∈ list, d.size.isSome)
    (hbounds : (list.dropWhile (·.lowerBound.isSome)).all (·.lowerBound.isNone)) :
    dimensions (list.filterMap Dimension.size) (list.filterMap Dimension.lowerBound) = list := by
  induction list with
  | nil => rfl
  | cons d list ih =>
    obtain ⟨size, bound⟩ := d
    obtain ⟨hsize, htail⟩ := List.forall_mem_cons.mp hsizes
    obtain ⟨size, rfl⟩ := Option.isSome_iff_exists.mp hsize
    cases bound with
    | some bound => exact congrArg _ (ih htail (by simpa using hbounds))
    | none =>
      have hnone : ∀ d ∈ list, d.lowerBound = none := by simpa using hbounds
      have hrest : (list.dropWhile (·.lowerBound.isSome)).all (·.lowerBound.isNone) :=
        List.all_eq_true.mpr fun d hd => by
          simp [hnone d ((List.dropWhile_suffix _).subset hd)]
      have hempty : list.filterMap Dimension.lowerBound = [] :=
        List.filterMap_eq_nil_iff.mpr hnone
      have hlist := ih htail hrest
      rw [hempty] at hlist
      exact (congrArg (dimensions _) hempty).trans (congrArg _ hlist)

lemma readsBack_numbers {ns : List Nat} (h : ∀ n ∈ ns, isNumber n) :
    ReadsBack (Reader.many Compressed.read ns.length) (encodeNumbers ns) ns :=
  .many (f := encodeNumber) rfl (fun _ _ => rfl) fun n hn => readsBack_number (h n hn)

lemma readsBack_array {read : Reader SigType} {element : SigType} {piece : Bytes}
    (helement : ReadsBack read piece element) {rank : Nat} {list : List Dimension}
    (h : isNormalShape rank list) :
    ReadsBack (readArray read) (piece ++ encodeShape rank list) (.array element rank list) := by
  simp only [isNormalShape, Bool.and_eq_true] at h
  obtain ⟨⟨⟨hrank, hlength⟩, hall⟩, hprefix⟩ := h
  rw [List.all_eq_true] at hall
  have hsizes (n : Nat) (hn : n ∈ list.filterMap Dimension.size) : isNumber n := by
    obtain ⟨d, hd, hsize⟩ := List.mem_filterMap.mp hn
    have := (Bool.and_eq_true_iff.mp (hall d hd)).1
    rwa [hsize] at this
  have hbounds (n : Nat) (hn : n ∈ list.filterMap Dimension.lowerBound) : isNumber n := by
    obtain ⟨d, hd, hbound⟩ := List.mem_filterMap.mp hn
    have := (Bool.and_eq_true_iff.mp (hall d hd)).2
    rwa [hbound] at this
  have hcounted (f : Dimension → Option Nat) : isNumber (list.filterMap f).length := by
    have := List.length_filterMap_le f list
    exact decide_eq_true (this.trans (of_decide_eq_true hlength))
  have hlist := dimensions_filterMap (fun d hd => by
    have := (Bool.and_eq_true_iff.mp (hall d hd)).1
    cases hsize : d.size with
    | none => simp [hsize] at this
    | some size => rfl) hprefix
  rw [readArray, encodeShape]
  refine .bind helement <| .bind (readsBack_number hrank) <|
    .bind (readsBack_number (hcounted _)) <| .bind (readsBack_numbers hsizes) <|
    .bind (readsBack_number (hcounted _)) ?_
  have := (readsBack_numbers hbounds).bind_pure (g := fun bounds =>
    SigType.array element rank (dimensions (list.filterMap Dimension.size) bounds))
  rwa [hlist] at this

lemma readsBack_generic {read : Reader SigType} {base : SigType} {args : List SigType}
    (hnominal : isNominal base) (hbase : ReadsBack read (encodeType base) base)
    (hargs : ∀ t ∈ args, ReadsBack read (encodeType t) t) (hcount : isNumber args.length) :
    ReadsBack (readGeneric read)
      (encodeType base ++ (encodeNumber args.length ++ encodeTypes args)) (.generic base args) := by
  have hlead := encodeType_lead base
  obtain ⟨hlt, -⟩ := Array.getElem?_eq_some_iff.mp hlead
  have hcode : ¬ (typeCode base ≠ 0x12 ∧ typeCode base ≠ 0x11) := by
    cases base with
    | «class» token => exact fun h => h.1 rfl
    | valueType token => exact fun h => h.2 rfl
    | _ => cases hnominal
  refine .peek (c := typeCode base) (by rwa [Array.getElem?_append_left hlt]) ?_
  refine .unless_fail hcode ?_
  refine .bind hbase <| .bind (readsBack_number hcount) ?_
  exact (ReadsBack.many (by rw [encodeTypes]) (fun _ _ => by rw [encodeTypes]) hargs).bind_pure

lemma readsBack_type {depth : Nat} {type : SigType} (h : isNormalType depth type) :
    ReadsBack (readType depth) (encodeType type) type := by
  induction depth generalizing type with
  | zero => cases h
  | succ depth ih =>
    obtain ⟨htop, hparts⟩ := Bool.and_eq_true_iff.mp h
    rw [List.all_eq_true] at hparts
    have hread (t : SigType) (ht : t ∈ parts type) := ih (hparts t ht)
    rw [readType]
    cases type with
    | primitive p =>
      rw [encodeType]
      refine .bind_empty (.u8 _) ?_
      rw [ofCode?_code]
      exact .pure _
    | ptr modifiers target | vector modifiers target =>
      rw [encodeType]
      obtain ⟨hmodifiers, hmodified⟩ := Bool.and_eq_true_iff.mp htop
      refine .bind (.u8 _) ?_
      exact (readsBefore_modifiers hmodifiers).bind (leads_encodeType (by simpa using hmodified))
        (hread target (List.mem_cons_self ..)).bind_pure
    | byRef type | pinned type =>
      rw [encodeType]
      exact .bind (.u8 _) (hread type (List.mem_cons_self ..)).map
    | valueType token | «class» token =>
      rw [encodeType]
      exact .bind (.u8 _) (readsBack_token htop).map
    | typeParam index | methodParam index =>
      rw [encodeType]
      exact .bind (.u8 _) (readsBack_number htop).map
    | array element rank dimensions =>
      rw [encodeType]
      exact .bind (.u8 _) (readsBack_array (hread element (List.mem_cons_self ..)) htop)
    | generic base args =>
      rw [encodeType]
      obtain ⟨hnominal, hcount⟩ := Bool.and_eq_true_iff.mp htop
      exact .bind (.u8 _) (readsBack_generic hnominal (hread base (List.mem_cons_self ..))
        (fun t ht => hread t (List.mem_cons_of_mem _ ht)) hcount)
    | fnPtr method =>
      rw [encodeType]
      exact .bind (.u8 _) (readsBack_method (fun t => ih) htop (List.all_eq_true.mpr hparts)).map
    | modified modifier type =>
      obtain ⟨required, token⟩ := modifier
      have htype := hread type (List.mem_cons_self ..)
      rw [encodeType]
      cases required with
      | true => exact .bind (.u8 _) (.bind (readsBack_token htop) htype.bind_pure)
      | false => exact .bind (.u8 _) (.bind (readsBack_token htop) htype.bind_pure)

/-- A method signature is read back from its spelling, whatever stands behind it. -/
theorem read_append {sig : Signature} (h : isNormal nestingLimit sig) (back : Bytes) :
    read (sig.encode ++ back) = .ok sig := by
  obtain ⟨hmethod, htypes⟩ := Bool.and_eq_true_iff.mp h
  have hread := readsBack_method (fun t => readsBack_type) hmethod htypes
  exact Reader.run_eq_ok.mpr ⟨_, hread ((Bytes.standsAt_self _).append_right back)⟩

example : encode ⟨true, false, false, 0, 1, ⟨[], false, .primitive .void⟩,
    [⟨[], false, .primitive .string⟩], []⟩ = #[0x20, 0x01, 0x01, 0x0E] := by decide +kernel

def wrapped (type : SigType) : Nat → SigType
  | 0 => type
  | n + 1 => .pinned (wrapped type n)

/-- A signature with all forms of types, and 49 levels in its last argument. -/
def sample : Signature where
  hasThis := true
  explicitThis := false
  vararg := true
  genericCount := 2
  paramCount := 4
  returns := ⟨[⟨true, Token.ofRow .typeRef 2⟩, ⟨false, Token.ofRow .typeDef 0xFFFFFF⟩], true,
    .modified ⟨false, Token.ofRow .typeSpec 5⟩ (.byRef (.primitive .typedByRef))⟩
  params := [
    ⟨[], false, .fnPtr ⟨false, true, true, 0, 1, ⟨[], false, .primitive .void⟩, [],
      [⟨[], false, .vector [⟨true, Token.ofRow .typeRef 1⟩] (.primitive .internal)⟩]⟩⟩,
    ⟨[], false, .array (.generic (.class (Token.ofRow .typeRef 3)) [.typeParam 0, .methodParam 300])
      3 [⟨some 0x1FFFFFFF, some 1⟩, ⟨some 20000, none⟩]⟩]
  varargs := [
    ⟨[], false, .valueType (Token.ofRow .typeDef 7)⟩,
    ⟨[], true, .ptr [] (wrapped (.primitive .i4) 47)⟩]

theorem read_append_sample : isNormal nestingLimit sample = true ∧
    read (sample.encode ++ #[0x41, 0xFF]) = .ok sample :=
  ⟨by decide +kernel, read_append (by decide +kernel) _⟩

end Signature

end CliImage
