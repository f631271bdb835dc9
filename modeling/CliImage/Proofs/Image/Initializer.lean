import CliImage.Image.Initializer
import CliImage.Proofs.Image.Arena
import CliImage.Proofs.Instruction

/-! Which methods are found by their names, and the code of an added initializer. -/

namespace CliImage

/-- What a method must be to be called when a module is loaded. -/
structure Method.IsInitializer (m : Method) : Prop where
  params : m.params = []
  notPrivate : m.columns.access ≠ MethodFlags.privateAccess
  notFamily : m.columns.access ≠ MethodFlags.familyAccess
  returns : m.returnType = Image.voidName
  static : m.isStatic

namespace Image

variable {image after : Image} {type method : String} {m : Method} {i : Nat}

lemma checkInitializer_eq_ok {name : String} :
    checkInitializer name m = .ok () ↔ m.IsInitializer := by
  unfold checkInitializer
  constructor
  · intro h
    split at h
    · cases h
    · split at h
      · cases h
      · split at h
        · cases h
        · split at h
          · cases h
          · rename_i hparams haccess hreturns hstatic
            obtain ⟨hprivate, hfamily⟩ := not_or.mp haccess
            exact ⟨by simpa using hparams, hprivate, hfamily, not_not.mp hreturns,
              not_not.mp hstatic⟩
  · intro h
    rw [if_neg (by simp [h.params]), if_neg (not_or.mpr ⟨h.notPrivate, h.notFamily⟩),
      if_neg (not_not.mpr h.returns), if_neg (not_not.mpr h.static)]

/-- The method at a place is the first of its name in the first type of a name. -/
def Names (image : Image) (type method : String) (i : Nat) (m : Method) : Prop :=
  ∃ j t, image.findType? type = some (j, t) ∧ image.findMethod? t method = some (i, m)

lemma getElem?_of_findMethod? {t : TypeDef} (h : image.findMethod? t method = some (i, m)) :
    image.methods[i]? = some m ∧ m.name = method := by
  obtain ⟨j, -, hj⟩ := List.mem_filterMap.mp (List.mem_of_find?_eq_some h)
  obtain ⟨m', hm', heq⟩ := Option.map_eq_some_iff.mp hj
  cases heq
  exact ⟨hm', by simpa using List.find?_some h⟩

lemma name_of_findType? {j : Nat} {t : TypeDef} (h : image.findType? type = some (j, t)) :
    t.name = type := by
  obtain ⟨k, hk, h⟩ := Option.bind_eq_some_iff.mp h
  obtain ⟨t', ht', heq⟩ := Option.map_eq_some_iff.mp h
  cases heq
  obtain ⟨hlt, hname, -⟩ := Array.findIdx?_eq_some_iff_getElem.mp hk
  rw [Array.getElem?_eq_getElem hlt] at ht'
  cases ht'
  simpa using hname

lemma Names.getElem? (h : image.Names type method i m) : image.methods[i]? = some m := by
  obtain ⟨_, _, -, hmethod⟩ := h
  exact (getElem?_of_findMethod? hmethod).1

lemma Names.unique {i' : Nat} {m' : Method} (h : image.Names type method i m)
    (h' : image.Names type method i' m') : i = i' ∧ m = m' := by
  obtain ⟨_, t, htype, hmethod⟩ := h
  obtain ⟨_, t', htype', hmethod'⟩ := h'
  rw [htype] at htype'
  cases htype'
  rw [hmethod] at hmethod'
  cases hmethod'
  exact ⟨rfl, rfl⟩

/-- What names are found for depends on the first method alone. -/
lemma resolve_of_names (h : image.Names type method i m) : image.resolve type method =
    (checkInitializer method m).map fun _ => ⟨image.id, i, type, method⟩ := by
  obtain ⟨j, t, htype, hmethod⟩ := h
  obtain ⟨hget, hname⟩ := getElem?_of_findMethod? hmethod
  simp only [resolve, htype, hmethod, methodRef?, hget, Option.map_some, name_of_findType? htype,
    hname]
  cases checkInitializer method m <;> rfl

lemma resolve_eq_ok {ref : MethodRef} : image.resolve type method = .ok ref ↔ ∃ i m,
    image.Names type method i m ∧ m.IsInitializer ∧ ref = ⟨image.id, i, type, method⟩ := by
  have hchecked {i : Nat} {m : Method} (hnames : image.Names type method i m) :
      image.resolve type method = .ok ref ↔
        m.IsInitializer ∧ ref = ⟨image.id, i, type, method⟩ := by
    have hlegal : checkInitializer method m = .ok () ↔ m.IsInitializer := checkInitializer_eq_ok
    rw [resolve_of_names hnames, ← hlegal]
    cases checkInitializer method m <;> simp [Except.map, eq_comm (a := ref)]
  constructor
  · intro h
    cases htype : image.findType? type with
    | none =>
      simp only [resolve, htype] at h
      cases h
    | some found =>
      obtain ⟨j, t⟩ := found
      cases hmethod : image.findMethod? t method with
      | none =>
        simp only [resolve, htype, hmethod] at h
        cases h
      | some found =>
        obtain ⟨i, m⟩ := found
        have hnames : image.Names type method i m := ⟨j, t, htype, hmethod⟩
        exact ⟨i, m, hnames, (hchecked hnames).mp h⟩
  · rintro ⟨i, m, hnames, h⟩
    exact (hchecked hnames).mpr h

/-- A reference of the image itself stays, another one is looked up by its names. -/
lemma rebase_eq_ok {ref found : MethodRef} (h : image.rebase ref = .ok found) :
    (image.owns ref ∧ found = ref ∧ image.methods[ref.method]?.isSome) ∨
      ((image.owns ref && image.methods[ref.method]?.isSome) = false ∧ found.image = image.id ∧
        ∃ m, image.Names ref.typeName ref.methodName found.method m) := by
  unfold rebase at h
  split at h
  · rename_i hown
    obtain ⟨howns, hsome⟩ := Bool.and_eq_true_iff.mp hown
    cases h
    exact .inl ⟨howns, rfl, hsome⟩
  · rename_i hforeign
    refine .inr ⟨Bool.eq_false_iff.mpr hforeign, ?_⟩
    split at h
    · cases h
    · rename_i j t htype
      split at h
      · cases h
      · rename_i found' hfound
        cases h
        obtain ⟨⟨i, m⟩, hmethod, href⟩ := Option.bind_eq_some_iff.mp hfound
        obtain ⟨_, -, rfl⟩ := Option.map_eq_some_iff.mp href
        exact ⟨rfl, m, j, t, htype, hmethod⟩

/-- An initializer calls a method and returns. -/
def initializerInstructions (target : Token) (rva : UInt64) : Array Instruction :=
  #[⟨rva, 0, 5, false, callOpcode, ⟨"call", .token, .call⟩, .token target, []⟩,
    ⟨rva + 5, 5, 1, false, returnOpcode, ⟨"ret", .none, .return⟩, .none, []⟩]

lemma decode_initializerCode (target : Token) (rva : UInt64) :
    Instruction.decode (initializerCode target) rva = .ok (initializerInstructions target rva) := by
  have hsize : (initializerCode target).size = 6 := by simp [initializerCode]
  have hbefore : (#[callOpcode] ++ Bytes.ofUInt32 target.value).size = 5 := by simp
  have hfirst : (initializerCode target).natAt 0 1 = callOpcode.toNat := by
    simp [initializerCode, Bytes.natAt]
  have hvalue : (initializerCode target).natAt 1 4 = target.value.toNat :=
    Bytes.StandsAt.natAt_ofNat ⟨#[callOpcode], #[returnOpcode], rfl, rfl⟩ (UInt32.toNat_lt _)
  have hlast : (initializerCode target).natAt 5 1 = returnOpcode.toNat := by
    rw [Bytes.natAt, initializerCode, Array.getD_eq_getD_getElem?,
      Array.getElem?_append_right hbefore.le, hbefore]
    rfl
  generalize initializerCode target = code at hsize hfirst hvalue hlast ⊢
  have hcall : Instruction.readOpcode code 0 =
      .ok (false, callOpcode, ⟨"call", .token, .call⟩) 1 :=
    Instruction.readOpcode_single (Reader.u8_eq_ok.mpr ⟨by omega, by rw [hfirst]; rfl, rfl⟩)
      (by decide) (by decide +kernel)
  have hoperand : Instruction.readOperand .token code 1 = .ok (.token target) 5 :=
    Reader.map_eq_ok.mpr ⟨target.value, Reader.u32_eq_ok.mpr
      ⟨by omega, by rw [hvalue, UInt32.ofNat_toNat], rfl⟩, rfl⟩
  have hreturn : Instruction.readOpcode code 5 =
      .ok (false, returnOpcode, ⟨"ret", .none, .return⟩) 6 :=
    Instruction.readOpcode_single (Reader.u8_eq_ok.mpr ⟨by omega, by rw [hlast]; rfl, rfl⟩)
      (by decide) (by decide +kernel)
  have hinside : 0 + 5 < code.size := by omega
  refine Instruction.decode_eq_ok.mpr (.cons (by omega) ?_ (.cons hinside ?_ (.nil hsize.le)))
  · exact Instruction.read_eq_ok.mpr ⟨false, _, 1, hcall, hoperand, rfl⟩
  · exact Instruction.read_eq_ok.mpr ⟨false, _, 6, hreturn, rfl, rfl⟩

/-- An image gains an initializer of its module type that calls a method and returns. -/
def GainsCall (image after : Image) (target : Token) : Prop :=
  ∃ cctor : Method, cctor.name = initializerName ∧
    cctor.instructions.toList.map (fun i => (i.opcode.mnemonic, i.operand)) =
      [("call", .token target), ("ret", .none)] ∧
    after = { image with
      types := image.types.modify 0 fun t => { t with methods := t.methods.push image.methods.size }
      methods := image.methods.push cctor }

lemma initializerCalling_eq_ok {target : Token} {cctor : Method}
    (h : initializerCalling target = .ok cctor) : cctor.rid = none ∧
      cctor.flags = initializerFlags ∧ cctor.implFlags = 0 ∧ cctor.name = initializerName ∧
      cctor.instructions.toList.map (fun i => (i.opcode.mnemonic, i.operand)) =
        [("call", .token target), ("ret", .none)] := by
  obtain ⟨_, -, h⟩ := Result.bind_eq_ok.mp h
  obtain ⟨body, -, h⟩ := Result.bind_eq_ok.mp h
  obtain ⟨instructions, hdecode, h⟩ := Result.bind_eq_ok.mp h
  obtain ⟨_, -, h⟩ := Result.bind_eq_ok.mp h
  cases h
  rw [decode_initializerCode] at hdecode
  cases hdecode
  exact ⟨rfl, rfl, rfl, rfl, rfl⟩

/-- An injected initializer calls the method that the reference leads to. -/
lemma inject_eq_ok {ref : MethodRef} (h : image.inject ref = .ok after) :
    ∃ found m rid cctor id, image.rebase ref = .ok found ∧
      image.methods[found.method]? = some m ∧ m.rid = some rid ∧
      initializerCalling (Token.ofRow .methodDef rid) = .ok cctor ∧
      image.addMethod 0 cctor = .ok (after, id) := by
  obtain ⟨-, h⟩ := Result.unless_throw_eq_ok.mp h
  obtain ⟨found, hfound, h⟩ := Result.bind_eq_ok.mp h
  split at h
  · cases h
  · rename_i token htoken
    obtain ⟨m, hm, hrow⟩ := Option.bind_eq_some_iff.mp htoken
    obtain ⟨rid, hrid, rfl⟩ := Option.map_eq_some_iff.mp hrow
    obtain ⟨cctor, hcctor, h⟩ := Result.bind_eq_ok.mp h
    obtain ⟨⟨_, id⟩, hadd, h⟩ := Result.bind_eq_ok.mp h
    cases h
    exact ⟨found, m, rid, cctor, id, hfound, hm, hrid, hcctor, hadd⟩

lemma gainsCall_of_add {target : Token} {cctor : Method} {id : Nat}
    (h : initializerCalling target = .ok cctor) (hadd : image.addMethod 0 cctor = .ok (after, id)) :
    image.GainsCall after target := by
  obtain ⟨-, -, -, hname, hcode⟩ := initializerCalling_eq_ok h
  obtain ⟨-, rfl, hafter⟩ := addMethod_eq_ok hadd
  exact ⟨cctor, hname, hcode, hafter⟩

end Image

end CliImage
