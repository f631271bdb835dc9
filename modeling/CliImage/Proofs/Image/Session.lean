import CliImage.Proofs.Image.Evaluation
import CliImage.Patch
import CliImage.Proofs.Image.Legal
import CliImage.Proofs.InPlace
import Mathlib.Data.List.Nodup

/-! Calls on an image one after another, some of which fail: the methods that are added stand behind
those that were read, in the order of the calls, and references keep what they denote. -/

namespace CliImage

namespace Image

/-- The places that added methods get in the list of one of the types: all are in that of the
first. -/
def newPlaces (image : Image) (count j : Nat) : Array Nat :=
  if j = 0 then Array.range' image.methods.size count else #[]

/-- An image with methods added to its first type. -/
def grownBy (image : Image) (added : List Method) : Image := { image with
  types := image.types.mapIdx fun j t =>
    { t with methods := t.methods ++ image.newPlaces added.length j }
  methods := image.methods ++ added.toArray }

variable {image after : Image} {added made : List Method} {token : Token} {ref found : MethodRef}
  {m : Method} {i j count : Nat} {t : TypeDef}

@[simp] lemma newPlaces_zero :
    image.newPlaces count 0 = Array.range' image.methods.size count := rfl

@[simp] lemma newPlaces_succ : image.newPlaces count (j + 1) = #[] := rfl

@[simp] lemma newPlaces_none : image.newPlaces 0 j = #[] := by
  cases j <;> rfl

lemma mem_newPlaces : i ∈ image.newPlaces count j ↔
    j = 0 ∧ image.methods.size ≤ i ∧ i < image.methods.size + count := by
  cases j <;> simp [Array.mem_range'_1]

lemma count_newPlaces (hle : image.methods.size ≤ i) (hlt : i < image.methods.size + count) :
    (image.newPlaces count j).toList.count i = if j = 0 then 1 else 0 := by
  cases j with
  | zero =>
    rw [newPlaces_zero, Array.toList_range']
    exact List.count_eq_one_of_mem List.nodup_range' (List.mem_range'_1.mpr ⟨hle, hlt⟩)
  | succ j => rfl

lemma getElem?_types_grownBy : (image.grownBy added).types[j]? = image.types[j]?.map fun t =>
    { t with methods := t.methods ++ image.newPlaces added.length j } :=
  Array.getElem?_mapIdx ..

lemma toList_methods_grownBy :
    (image.grownBy added).methods.toList = image.methods.toList ++ added := by
  simp [grownBy]

lemma size_methods_grownBy :
    (image.grownBy added).methods.size = image.methods.size + added.length := by
  simp [grownBy]

lemma grownBy_nil (image : Image) : image.grownBy [] = image := by
  have htypes : (image.grownBy []).types = image.types := Array.ext_getElem? fun j => by
    rw [getElem?_types_grownBy]
    cases image.types[j]? <;> simp
  have hmethods : (image.grownBy []).methods = image.methods := by simp [grownBy]
  calc image.grownBy []
      = { image with
          types := (image.grownBy []).types
          methods := (image.grownBy []).methods } := rfl
    _ = image := by rw [htypes, hmethods]

lemma newPlaces_append : image.newPlaces added.length j ++
    (image.grownBy added).newPlaces made.length j = image.newPlaces (added ++ made).length j := by
  cases j with
  | zero =>
    rw [newPlaces_zero, newPlaces_zero, newPlaces_zero, size_methods_grownBy,
      Array.range'_append_1, List.length_append]
  | succ j => rfl

lemma grownBy_append (image : Image) (added made : List Method) :
    (image.grownBy added).grownBy made = image.grownBy (added ++ made) := by
  have htypes :
      ((image.grownBy added).grownBy made).types = (image.grownBy (added ++ made)).types :=
    Array.ext_getElem? fun j => by
      rw [getElem?_types_grownBy, getElem?_types_grownBy, getElem?_types_grownBy, Option.map_map,
        ← newPlaces_append]
      congr 1
      funext t
      simp only [Function.comp_apply, Array.append_assoc]
  have hmethods :
      ((image.grownBy added).grownBy made).methods = (image.grownBy (added ++ made)).methods := by
    simp [grownBy]
  calc (image.grownBy added).grownBy made
      = { image with
          types := ((image.grownBy added).grownBy made).types
          methods := ((image.grownBy added).grownBy made).methods } := rfl
    _ = image.grownBy (added ++ made) := by
      rw [htypes, hmethods]
      rfl

lemma addMethod_eq_grownBy {id : Nat} (h : image.addMethod 0 m = .ok (after, id)) :
    after = image.grownBy [m] := by
  obtain ⟨-, rfl, rfl⟩ := addMethod_eq_ok h
  have htypes : (image.types.modify 0 fun t =>
      { t with methods := t.methods.push image.methods.size }) = (image.grownBy [m]).types :=
    Array.ext_getElem? fun j => by
      rw [getElem?_types_grownBy, Array.getElem?_modify]
      cases j <;> simp
  rw [htypes]
  simp [grownBy]

lemma isSome_moduleType?_grownBy :
    (image.grownBy added).moduleType?.isSome = image.moduleType?.isSome := by
  unfold moduleType?
  rw [getElem?_types_grownBy]
  cases image.types[0]? with
  | none => rfl
  | some t =>
    simp only [Option.map_some, Option.filter]
    split <;> rfl

/-- `addMethod` in place: the type's list first, then the methods. -/
def addMethodInPlace (type : Nat) (method : Method) : InPlace Image Nat := do
  let image ← get
  if type < image.types.size then
    let id := image.methods.size
    modify fun image => { image with
      types := image.types.modify type fun t => { t with methods := t.methods.push id } }
    modify fun image => { image with methods := image.methods.push method }
    return id
  else throw .noModuleType

/-- `inject` in place. -/
def injectInPlace (target : MethodRef) : InPlace Image Unit := do
  let image ← get
  if image.moduleType?.isNone then throw .noModuleType
  let target ← InPlace.ofResult (image.rebase target)
  match (image.methods[target.method]?).bind Method.token? with
  | none => throw (.unsupported (.addedTarget target.typeName target.methodName))
  | some token => do
    let method ← InPlace.ofResult (initializerCalling token)
    let _ ← addMethodInPlace 0 method

lemma addMethodInPlace_apply (image : Image) (type : Nat) (method : Method) :
    addMethodInPlace type method image = match image.addMethod type method with
      | .ok (after, id) => .ok id after
      | .error e => .error e image := by
  unfold addMethodInPlace addMethod
  rw [InPlace.get_bind]
  split <;> rfl

/-- What is pushed is pushed last, when nothing can fail any more. -/
lemma injectInPlace_apply (image : Image) (target : MethodRef) :
    injectInPlace target image = match image.inject target with
      | .ok after => .ok () after
      | .error e => .error e image := by
  unfold injectInPlace inject
  rw [InPlace.get_bind]
  cases image.moduleType?.isNone with
  | true => rfl
  | false =>
    simp only [Bool.false_eq_true, if_false, InPlace.ofResult_bind]
    cases image.rebase target with
    | error e => rfl
    | ok found =>
      simp only [Result.ok_bind]
      cases (image.methods[found.method]?).bind Method.token? with
      | none => rfl
      | some token =>
        simp only [InPlace.ofResult_bind]
        cases initializerCalling token with
        | error e => rfl
        | ok m =>
          simp only [InPlace.bind_apply, addMethodInPlace_apply, Result.ok_bind]
          cases image.addMethod 0 m with
          | error e => rfl
          | ok result => rfl

def query (answer : Image → Result MethodRef) : InPlace Image (Option MethodRef) := do
  let image ← get
  some <$> InPlace.ofResult (answer image)

lemma query_apply (answer : Image → Result MethodRef) (image : Image) :
    query answer image = match answer image with
      | .ok ref => .ok (some ref) image
      | .error e => .error e image := by
  rw [query, InPlace.get_bind, map_eq_pure_bind, InPlace.ofResult_bind]
  cases answer image <;> rfl

/-- What can be asked of an image. -/
inductive Call
  | resolve (type method : String)
  | rebase (ref : MethodRef)
  | inject (target : MethodRef)
  deriving DecidableEq, Repr

namespace Call

def perform : Call → InPlace Image (Option MethodRef)
  | resolve type method => query (·.resolve type method)
  | rebase ref => query (·.rebase ref)
  | inject target => do
    injectInPlace target
    return none

/-- The method that a successful injection calls. -/
def token? (image : Image) : Call → Option Token
  | inject target => do
    let _ ← (image.inject target).toOption
    let found ← (image.rebase target).toOption
    (image.methods[found.method]?).bind Method.token?
  | _ => none

variable {call : Call} {e : Error} {answer : Image → Result MethodRef}

lemma perform_inject (image : Image) (target : MethodRef) :
    (inject target).perform image = match image.inject target with
      | .ok after => .ok none after
      | .error e => .error e image := by
  rw [perform, InPlace.bind_apply, injectInPlace_apply]
  cases image.inject target <;> rfl

end Call

/-- The image after calls, those that fail among them. -/
def afterCalls (image : Image) (calls : List Call) : Image :=
  InPlace.after Call.perform image calls

/-- The methods that the successful injections among calls call, in their order. -/
def injected (image : Image) : List Call → List Token
  | [] => []
  | call :: calls =>
    (call.token? image).toList ++ (InPlace.stateOf (call.perform image)).injected calls

/-- Methods are initializers that call certain methods, one each. -/
def Calling (tokens : List Token) (added : List Method) : Prop :=
  List.Forall₂ (fun token m => initializerCalling token = .ok m) tokens added

/-- A reference leads to a method of an image. -/
def Denotes (image : Image) (ref : MethodRef) (m : Method) : Prop :=
  ref.image = image.id ∧ image.methods[ref.method]? = some m

variable {call : Call} {e : Error} {answer : Image → Result MethodRef}

lemma Denotes.rebase_eq (h : image.Denotes ref m) : image.rebase ref = .ok ref := by
  have howns : image.owns ref = true := beq_iff_eq.mpr h.1
  rw [rebase, howns, h.2]
  rfl

lemma Denotes.grownBy (h : image.Denotes ref m) (added : List Method) :
    (image.grownBy added).Denotes ref m := by
  refine ⟨h.1, ?_⟩
  have hlt := (Array.getElem?_eq_some_iff.mp h.2).1
  rw [Image.grownBy, Array.getElem?_append_left hlt]
  exact h.2

lemma exists_denotes_of_resolve {type method : String} (h : image.resolve type method = .ok ref) :
    ∃ m, image.Denotes ref m := by
  obtain ⟨i, m, hnames, -, rfl⟩ := resolve_eq_ok.mp h
  exact ⟨m, rfl, hnames.getElem?⟩

lemma exists_denotes_of_rebase (h : image.rebase ref = .ok found) :
    ∃ m, image.Denotes found m := by
  rcases rebase_eq_ok h with ⟨howns, rfl, hsome⟩ | ⟨-, himage, m, hnames⟩
  · obtain ⟨m, hm⟩ := Option.isSome_iff_exists.mp hsome
    exact ⟨m, beq_iff_eq.mp howns, hm⟩
  · exact ⟨m, himage, hnames.getElem?⟩

lemma eq_of_query_error (h : query answer image = .error e after) : after = image := by
  rw [query_apply] at h
  cases hanswer : answer image with
  | ok ref =>
    rw [hanswer] at h
    cases h
  | error e =>
    rw [hanswer] at h
    cases h
    rfl

lemma eq_of_query_ok {given : Option MethodRef} (h : query answer image = .ok given after) :
    ∃ ref, given = some ref ∧ answer image = .ok ref ∧ after = image := by
  rw [query_apply] at h
  cases hanswer : answer image with
  | ok ref =>
    rw [hanswer] at h
    cases h
    exact ⟨ref, rfl, rfl, rfl⟩
  | error e =>
    rw [hanswer] at h
    cases h

lemma stateOf_query (answer : Image → Result MethodRef) (image : Image) :
    InPlace.stateOf (query answer image) = image := by
  rw [query_apply]
  cases answer image <;> rfl

/-- A call that fails leaves the image as it was. -/
lemma eq_of_perform_error (h : call.perform image = .error e after) : after = image := by
  cases call with
  | resolve | rebase => exact eq_of_query_error h
  | inject target =>
    rw [Call.perform_inject] at h
    split at h
    · cases h
    · cases h
      rfl

/-- A reference that a call gives leads to a method. -/
lemma exists_denotes_of_perform (h : call.perform image = .ok (some ref) after) :
    after = image ∧ ∃ m, image.Denotes ref m := by
  cases call with
  | resolve type method =>
    obtain ⟨_, hgiven, hanswer, rfl⟩ := eq_of_query_ok h
    cases hgiven
    exact ⟨rfl, exists_denotes_of_resolve hanswer⟩
  | rebase target =>
    obtain ⟨_, hgiven, hanswer, rfl⟩ := eq_of_query_ok h
    cases hgiven
    exact ⟨rfl, exists_denotes_of_rebase hanswer⟩
  | inject target =>
    rw [Call.perform_inject] at h
    split at h <;> cases h

lemma isSome_moduleType?_of_inject {target : MethodRef} (h : image.inject target = .ok after) :
    image.moduleType?.isSome := by
  obtain ⟨hmodule, -⟩ := Result.unless_throw_eq_ok.mp h
  simpa [Option.isSome_iff_ne_none] using hmodule

lemma exists_token?_of_inject {target : MethodRef} (h : image.inject target = .ok after) :
    ∃ token m, (Call.inject target).token? image = some token ∧
      initializerCalling token = .ok m ∧ after = image.grownBy [m] := by
  obtain ⟨found, m, rid, cctor, id, hfound, hm, hrid, hcctor, hadd⟩ := inject_eq_ok h
  refine ⟨Token.ofRow .methodDef rid, cctor, ?_, hcctor, addMethod_eq_grownBy hadd⟩
  simp [Call.token?, h, hfound, hm, Method.token?, hrid, Except.toOption]

lemma token?_of_inject_error {target : MethodRef} (h : image.inject target = .error e) :
    (Call.inject target).token? image = none := by
  simp only [Call.token?, h]
  rfl

/-- A call adds a method for the one that it calls, or nothing. -/
lemma exists_grownBy_of_perform (image : Image) (call : Call) : ∃ added,
    InPlace.stateOf (call.perform image) = image.grownBy added ∧
      Calling (call.token? image).toList added ∧ (added ≠ [] → image.moduleType?.isSome) := by
  cases call with
  | resolve | rebase => exact ⟨[], by rw [grownBy_nil]; exact stateOf_query .., .nil, by simp⟩
  | inject target =>
    rw [Call.perform_inject]
    cases hinject : image.inject target with
    | error e =>
      rw [token?_of_inject_error hinject]
      exact ⟨[], (grownBy_nil image).symm, .nil, by simp⟩
    | ok after =>
      obtain ⟨token, m, htoken, hm, rfl⟩ := exists_token?_of_inject hinject
      rw [htoken]
      exact ⟨[m], rfl, .cons hm .nil, fun _ => isSome_moduleType?_of_inject hinject⟩

/-- A call adds a method if it succeeds and gives no reference. -/
lemma isSome_token?_iff :
    (call.token? image).isSome ↔ ∃ after, call.perform image = .ok none after := by
  cases call with
  | resolve | rebase =>
    refine iff_of_false nofun fun ⟨_, h⟩ => ?_
    obtain ⟨_, hnone, -⟩ := eq_of_query_ok h
    cases hnone
  | inject target =>
    rw [Call.perform_inject]
    cases hinject : image.inject target with
    | error e =>
      rw [token?_of_inject_error hinject]
      simp
    | ok after =>
      obtain ⟨token, m, htoken, -⟩ := exists_token?_of_inject hinject
      rw [htoken]
      simp

/-- Calls add a method for each one that their injections call. -/
lemma exists_grownBy (image : Image) (calls : List Call) : ∃ added,
    image.afterCalls calls = image.grownBy added ∧ Calling (image.injected calls) added ∧
      (added ≠ [] → image.moduleType?.isSome) := by
  induction calls generalizing image with
  | nil => exact ⟨[], (grownBy_nil image).symm, .nil, by simp⟩
  | cons call calls ih =>
    -- What the later calls add is added to an image that has grown by what this one has added.
    obtain ⟨first, hfirst, hcalling, hmodule⟩ := exists_grownBy_of_perform image call
    obtain ⟨rest, hrest, hcalling', hmodule'⟩ := ih (InPlace.stateOf (call.perform image))
    refine ⟨first ++ rest, ?_, List.rel_append hcalling hcalling', fun hne => ?_⟩
    · rw [afterCalls, InPlace.after_cons, ← grownBy_append, ← hfirst]
      exact hrest
    · by_cases hnil : first = []
      · subst hnil
        rw [hfirst, isSome_moduleType?_grownBy] at hmodule'
        exact hmodule' (by simpa using hne)
      · exact hmodule hnil

/-- An image that has been read, from bytes or from a file of a directory, with or without
symbols. -/
inductive Loaded : Image → Prop
  | bytes {id : Nat} {data : Bytes} {image : Image} : read id data = .ok image → Loaded image
  | file {d : Directory} {id : Nat} {path : String} {image : Image} :
      d.readImage id path = .ok image → Loaded image

/-- The methods of an image are those of its table, and its types' lists lead to them. -/
structure OfRows (image : Image) : Prop where
  size_methods : image.methods.size = image.metadata.tables.count .methodDef
  rid_eq : ∀ j < image.methods.size, ∃ m, image.methods[j]? = some m ∧ m.rid = some (j + 1)
  lt_size : ∀ t ∈ image.types, ∀ i ∈ t.methods, i < image.methods.size

lemma ofRows_of_read {id : Nat} {data : Bytes} (h : read id data = .ok image) : image.OfRows := by
  have harranged := arranged_of_read h
  obtain ⟨hsize, hplaces⟩ := sizes_of_read h
  refine ⟨hsize, fun j hj => ?_, fun t ht i hi => ?_⟩
  · exact Option.bind_eq_some_iff.mp (harranged.rid_eq j (by omega))
  · have hnone := List.flatMap_eq_nil_iff.mp hplaces t (Array.mem_toList_iff.mpr ht)
    have := List.filter_eq_nil_iff.mp hnone i (Array.mem_toList_iff.mpr hi)
    rw [decide_eq_true_iff] at this
    omega

lemma exists_read_of_readImage {d : Directory} {id : Nat} {path : String}
    (h : d.readImage id path = .ok image) : ∃ data origin, read id data = .ok origin ∧
      image = { origin with path := image.path, symbols := image.symbols } := by
  unfold Directory.readImage at h
  split at h
  · obtain ⟨origin, hread, h⟩ := Result.bind_eq_ok.mp h
    refine ⟨_, origin, hread, ?_⟩
    dsimp only at h
    split at h
    · obtain ⟨symbols, -, rfl⟩ := attach_eq_ok h
      rfl
    · cases h
      rfl
  · cases h

lemma Loaded.ofRows (h : Loaded image) : image.OfRows := by
  cases h with
  | bytes hread => exact ofRows_of_read hread
  | file hread =>
    obtain ⟨data, origin, hread, heq⟩ := exists_read_of_readImage hread
    have hrows := ofRows_of_read hread
    rw [heq]
    exact ⟨hrows.size_methods, hrows.rid_eq, hrows.lt_size⟩

/-- The image that becomes of another one as initializers are added that call certain methods. -/
structure Extends (image : Image) (tokens : List Token) (after : Image) : Prop where
  rows : ∀ rid, 1 ≤ rid → rid ≤ image.metadata.tables.count .methodDef → ∃ m,
    image.methods[rid - 1]? = some m ∧ after.methods[rid - 1]? = some m ∧ m.rid = some rid
  added : ∃ added, after.methods.toList = image.methods.toList ++ added ∧
    image.methods.size = image.metadata.tables.count .methodDef ∧
    (∀ m ∈ added, m.rid = none) ∧ Calling tokens added
  inRange : ∀ t ∈ after.types, ∀ i ∈ t.methods, i < after.methods.size
  owner : tokens ≠ [] → ∃ t, after.moduleType? = some t ∧ after.types[0]? = some t
  lists : ∀ j (t : TypeDef), image.types[j]? = some t →
    after.types[j]? = some { t with methods := t.methods ++ image.newPlaces tokens.length j }
  once : ∀ i, image.methods.size ≤ i → i < after.methods.size → ∀ j (t : TypeDef),
    after.types[j]? = some t → t.methods.toList.count i = if j = 0 then 1 else 0
  rest : after = { image with types := after.types, methods := after.methods } ∧
    after.types.size = image.types.size

lemma rid_of_calling {tokens : List Token} (h : Calling tokens added) (hm : m ∈ added) :
    m.rid = none := by
  induction h with
  | nil => cases hm
  | cons hcctor _ ih =>
    rcases List.mem_cons.mp hm with rfl | hm
    · exact (initializerCalling_eq_ok hcctor).1
    · exact ih hm

lemma OfRows.lt_size_grownBy (h : image.OfRows) (ht : t ∈ (image.grownBy added).types)
    (hi : i ∈ t.methods) : i < (image.grownBy added).methods.size := by
  obtain ⟨j, ht⟩ := Array.getElem?_of_mem ht
  rw [getElem?_types_grownBy] at ht
  obtain ⟨t₀, ht₀, rfl⟩ := Option.map_eq_some_iff.mp ht
  rw [size_methods_grownBy]
  rcases Array.mem_append.mp hi with hi | hi
  · have := h.lt_size t₀ (Array.mem_of_getElem? ht₀) i hi
    omega
  · exact (mem_newPlaces.mp hi).2.2

lemma OfRows.count_grownBy (h : image.OfRows) (hle : image.methods.size ≤ i)
    (hlt : i < (image.grownBy added).methods.size) (ht : (image.grownBy added).types[j]? = some t) :
    t.methods.toList.count i = if j = 0 then 1 else 0 := by
  rw [getElem?_types_grownBy] at ht
  obtain ⟨t₀, ht₀, rfl⟩ := Option.map_eq_some_iff.mp ht
  have hold : t₀.methods.toList.count i = 0 := List.count_eq_zero.mpr fun hi => by
    have := h.lt_size t₀ (Array.mem_of_getElem? ht₀) i (Array.mem_toList_iff.mp hi)
    omega
  rw [size_methods_grownBy] at hlt
  rw [Array.toList_append, List.count_append, hold, Nat.zero_add, count_newPlaces hle hlt]

lemma OfRows.extends (h : image.OfRows) {tokens : List Token} (hcalling : Calling tokens added)
    (hmodule : added ≠ [] → image.moduleType?.isSome) :
    image.Extends tokens (image.grownBy added) where
  rows rid hpos hle := by
    have hlt : rid - 1 < image.methods.size := by
      rw [h.size_methods]
      omega
    obtain ⟨m, hm, hrid⟩ := h.rid_eq (rid - 1) hlt
    refine ⟨m, hm, ?_, by rw [hrid, Nat.sub_add_cancel hpos]⟩
    rw [grownBy, Array.getElem?_append_left hlt, hm]
  added := ⟨added, toList_methods_grownBy, h.size_methods, fun _ => rid_of_calling hcalling,
    hcalling⟩
  inRange t ht i hi := h.lt_size_grownBy ht hi
  owner hne := by
    have hne : added ≠ [] := by
      rintro rfl
      exact hne (List.forall₂_nil_right_iff.mp hcalling)
    obtain ⟨t, ht⟩ := Option.isSome_iff_exists.mp (isSome_moduleType?_grownBy.trans (hmodule hne))
    exact ⟨t, ht, (Option.filter_eq_some_iff.mp ht).1⟩
  lists j t ht := by
    rw [getElem?_types_grownBy, ht, List.Forall₂.length_eq hcalling, Option.map_some]
  once i hle hlt j t ht := h.count_grownBy hle hlt ht
  rest := ⟨rfl, by simp [grownBy]⟩

/-- Whatever calls are made on an image, it is the image that was read with the initializers that
the successful ones have added; a call that fails does nothing; and a reference that a call has
given leads to the same method from then on. -/
structure Session (image : Image) : Prop where
  extended (calls : List Call) : image.Extends (image.injected calls) (image.afterCalls calls)
  injects (before : List Call) (call : Call) : (call.token? (image.afterCalls before)).isSome ↔
    ∃ after, call.perform (image.afterCalls before) = .ok none after
  failed (before : List Call) {call : Call} {e : Error} {after : Image} :
    call.perform (image.afterCalls before) = .error e after → after = image.afterCalls before
  given (before later : List Call) {call : Call} {ref : MethodRef} {between : Image} :
    call.perform (image.afterCalls before) = .ok (some ref) between →
      between = image.afterCalls before ∧ ∃ m, between.Denotes ref m ∧
        (image.afterCalls (before ++ call :: later)).Denotes ref m ∧
        (image.afterCalls (before ++ call :: later)).rebase ref = .ok ref

theorem session_of_loaded (h : Loaded image) : image.Session where
  extended calls := by
    obtain ⟨added, hafter, hcalling, hmodule⟩ := exists_grownBy image calls
    rw [hafter]
    exact h.ofRows.extends hcalling hmodule
  injects before call := isSome_token?_iff
  failed before call e after hfails := eq_of_perform_error hfails
  given before later call ref between hgiven := by
    obtain ⟨rfl, m, hdenotes⟩ := exists_denotes_of_perform hgiven
    obtain ⟨added, hafter, -⟩ := exists_grownBy (image.afterCalls before) (call :: later)
    have hlater : (image.afterCalls (before ++ call :: later)).Denotes ref m := by
      rw [afterCalls, InPlace.after_append]
      change ((image.afterCalls before).afterCalls (call :: later)).Denotes ref m
      rw [hafter]
      exact hdenotes.grownBy added
    exact ⟨rfl, m, hdenotes, hlater, hlater.rebase_eq⟩

/-- Two injections with one between them that finds no method. -/
lemma injected_oneMethod : Result.holds (read 0 (oneMethod 0x16)) (fun image =>
    image.injected [.inject ⟨0, 0, "A", "M"⟩, .inject ⟨7, 0, "A", "N"⟩, .rebase ⟨7, 4, "A", "M"⟩,
      .inject ⟨7, 4, "A", "M"⟩] == [⟨0x06000001⟩, ⟨0x06000001⟩]) = true := by
  rw [readByTails.2]
  decide +kernel

theorem session_oneMethod : ∃ image, read 0 (oneMethod 0x16) = .ok image ∧ Loaded image ∧
    image.Session ∧
    image.injected [.inject ⟨0, 0, "A", "M"⟩, .inject ⟨7, 0, "A", "N"⟩, .rebase ⟨7, 4, "A", "M"⟩,
      .inject ⟨7, 4, "A", "M"⟩] = [⟨0x06000001⟩, ⟨0x06000001⟩] := by
  obtain ⟨image, hread, hinjected⟩ := Result.exists_of_holds injected_oneMethod
  rw [beq_iff_eq] at hinjected
  exact ⟨image, hread, .bytes hread, session_of_loaded (.bytes hread), hinjected⟩

end Image

end CliImage
