import CliImage.Image.Read
import CliImage.Proofs.Image.TypeName

/-! What is read of types and methods from metadata that holds another metadata's names, signatures
and types: types are called what they were called, and methods differ in their row and code only. -/

namespace CliImage

namespace Metadata

/-- Other metadata in which names, blobs, types and parameters are found where they were. -/
structure Retains (m again : Metadata) : Prop where
  strings : ∀ index text, m.strings.get index = .ok text → again.strings.get index = .ok text
  blobs : ∀ index value, m.blobs.get index = .ok value → again.blobs.get index = .ok value
  param : again.tables.table .param = m.tables.table .param
  typeRef : again.tables.table .typeRef = m.tables.table .typeRef
  typeDef : ∀ rid column, column ≠ 5 →
    again.tables.cell .typeDef rid column = m.tables.cell .typeDef rid column
  enclosing : ∀ rid, again.enclosing? rid = m.enclosing? rid

/-- Every row of a table of types has a name and a namespace. -/
def NamesAll (m : Metadata) (t : TableId) : Prop :=
  ∀ rid, 1 ≤ rid → rid ≤ m.tables.count t → ∃ name scope, m.Described t rid name scope

variable {m again : Metadata} {t : TableId} {rid rid' column start stop room : Nat} {text : String}
  {token : Token} {names : List (Nat × String)}

instance : Decidable (m.NamesAll t) :=
  decidable_of_iff (∀ i < m.tables.count t,
      (m.stringCell? t (i + 1) 1).isSome ∧ (m.stringCell? t (i + 1) 2).isSome) <| by
    simp only [Option.isSome_iff_exists]
    constructor
    · intro h rid hpos hle
      obtain ⟨⟨name, hname⟩, scope, hscope⟩ := h (rid - 1) (by omega)
      rw [Nat.sub_add_cancel hpos] at hname hscope
      exact ⟨name, scope, hname, hscope⟩
    · intro h i hi
      obtain ⟨name, scope, hname, hscope⟩ := h (i + 1) (Nat.succ_pos i) hi
      exact ⟨⟨name, hname⟩, scope, hscope⟩

lemma stringCell?_eq_some : m.stringCell? t rid column = some text ↔
    ∃ index, m.tables.cell t rid column = .ok index ∧ m.strings.get index.toNat = .ok text := by
  unfold stringCell?
  cases m.tables.cell t rid column with
  | error e => simp
  | ok index => cases hget : m.strings.get index.toNat <;> simp [hget, Except.toOption]

lemma stringCell?_of_stringCell (h : m.stringCell t rid column = .ok text) :
    m.stringCell? t rid column = some text := by
  obtain ⟨index, hindex, htext⟩ := Result.bind_eq_ok.mp h
  exact stringCell?_eq_some.mpr ⟨index, hindex, htext⟩

namespace Retains

variable (h : m.Retains again)
include h

lemma stringCell (hcell : ∀ index, m.tables.cell t rid column = .ok index →
      again.tables.cell t rid' column = .ok index)
    (htext : m.stringCell t rid column = .ok text) : again.stringCell t rid' column = .ok text := by
  obtain ⟨index, hindex, htext⟩ := Result.bind_eq_ok.mp htext
  exact Result.bind_eq_ok.mpr ⟨index, hcell index hindex, h.strings _ _ htext⟩

lemma cell_typeRef : again.tables.cell .typeRef rid column = m.tables.cell .typeRef rid column := by
  rw [Tables.cell, Tables.row?, h.typeRef, Tables.cell, Tables.row?]

lemma scopeOf? : again.scopeOf? rid = m.scopeOf? rid := by
  rw [Metadata.scopeOf?, h.cell_typeRef, Metadata.scopeOf?]

/-- Nothing new stands where a name could not be read, since every type has one. -/
lemma stringCell? (hnames : m.NamesAll t)
    (hcell : again.tables.cell t rid column = m.tables.cell t rid column)
    (hcolumn : column = 1 ∨ column = 2) :
    again.stringCell? t rid column = m.stringCell? t rid column := by
  cases hindex : m.tables.cell t rid column with
  | error e => rw [Metadata.stringCell?, hcell, hindex, Metadata.stringCell?, hindex]
  | ok index =>
    obtain ⟨hpos, -⟩ := Tables.cell_eq_ok.mp hindex
    have hlt := Tables.lt_count_of_cell hindex
    obtain ⟨name, scope, hname, hscope⟩ := hnames rid hpos (by omega)
    have hsome {text : String} (htext : m.stringCell? t rid column = some text) :
        again.stringCell? t rid column = m.stringCell? t rid column := by
      obtain ⟨index', hindex', hget⟩ := stringCell?_eq_some.mp htext
      rw [htext, stringCell?_eq_some]
      exact ⟨index', hcell.trans hindex', h.strings _ _ hget⟩
    rcases hcolumn with rfl | rfl
    · exact hsome hname
    · exact hsome hscope

lemma around? : again.around? t rid = m.around? t rid := by
  cases t with
  | typeDef => rw [Metadata.around?, h.enclosing, Metadata.around?]
  | typeRef => rw [Metadata.around?, h.scopeOf?, Metadata.around?]
  | _ => rfl

variable (hdefs : m.NamesAll .typeDef) (hrefs : m.NamesAll .typeRef)
include hdefs hrefs

lemma nameWithin? : again.nameWithin? room token = m.nameWithin? room token := by
  induction room generalizing token with
  | zero => rfl
  | succ room ih =>
    rw [nameWithin?_succ, nameWithin?_succ]
    cases TableId.ofNumber? token.table with
    | none => rfl
    | some t =>
      simp only [Option.bind_some, h.around?, ih]
      cases t with
      | typeDef =>
        rw [h.stringCell? hdefs (h.typeDef _ _ (by decide)) (.inl rfl),
          h.stringCell? hdefs (h.typeDef _ _ (by decide)) (.inr rfl)]
      | typeRef =>
        rw [h.stringCell? hrefs h.cell_typeRef (.inl rfl),
          h.stringCell? hrefs h.cell_typeRef (.inr rfl)]
      | _ => simp [Metadata.around?]

lemma typeName : again.typeName = m.typeName :=
  funext fun token => by rw [Metadata.typeName, h.nameWithin? hdefs hrefs, Metadata.typeName]

omit hdefs hrefs

lemma readType {type : TypeDef} (hread : m.readType rid = .ok type)
    (hrun : again.tables.run .typeDef 5 rid .methodDef = .ok (start, stop)) :
    again.readType rid = .ok { type with
      methods := (List.range' (start - 1) (stop - start)).toArray } := by
  simp only [Metadata.readType, Result.bind_eq_ok] at hread
  obtain ⟨_, -, name, hname, scope, hscope, flags, hflags, hread⟩ := hread
  cases hread
  simp only [Metadata.readType, Result.bind_eq_ok]
  exact ⟨_, hrun, name, h.stringCell (fun _ => (h.typeDef _ _ (by decide)).trans) hname,
    scope, h.stringCell (fun _ => (h.typeDef _ _ (by decide)).trans) hscope,
    flags, (h.typeDef _ _ (by decide)).trans hflags, rfl⟩

lemma readParamNames (hread : m.readParamNames start stop = .ok names) :
    again.readParamNames start stop = .ok names := by
  have hcell (rid column : Nat) :
      again.tables.cell .param rid column = m.tables.cell .param rid column := by
    rw [Tables.cell, Tables.row?, h.param, Tables.cell, Tables.row?]
  refine Result.mapM_eq_ok.mpr ((Result.mapM_eq_ok.mp hread).imp fun rid named hnamed => ?_)
  obtain ⟨sequence, hsequence, hnamed⟩ := Result.bind_eq_ok.mp hnamed
  obtain ⟨name, hname, hnamed⟩ := Result.bind_eq_ok.mp hnamed
  simp only [Result.bind_eq_ok]
  exact ⟨sequence, (hcell ..).trans hsequence, name, h.stringCell (fun _ => (hcell ..).trans) hname,
    hnamed⟩

include hdefs hrefs

/-- A method whose row stands elsewhere reads as it did, but for its code. -/
lemma readMethod {file after : PeFile} {method : Method} {code : Array Instruction}
    (hread : file.readMethod m rid = .ok method)
    (hcells : ∀ column ≠ 5, ∀ value, m.tables.cell .methodDef rid column = .ok value →
      again.tables.cell .methodDef rid' column = .ok value)
    (hrun : ∀ run, m.tables.run .methodDef 5 rid .param = .ok run →
      again.tables.run .methodDef 5 rid' .param = .ok run)
    (hbody : after.readBody method.rva method.implFlags = .ok (method.body, code)) :
    after.readMethod again rid' =
      .ok { method with rid := some rid', instructions := code } := by
  simp only [PeFile.readMethod, Result.bind_eq_ok] at hread
  obtain ⟨name, hname, rva, hrva, implFlags, himplFlags, index, hindex, blob, hblob, signature,
    hsignature, ⟨start, stop⟩, hparams, names, hnames, ⟨body, instructions⟩, -, flags, hflags,
    hread⟩ := hread
  cases hread
  simp only [PeFile.readMethod, Result.bind_eq_ok]
  refine ⟨name, h.stringCell (hcells _ (by decide)) hname, rva,
    hcells _ (by decide) _ hrva, implFlags, hcells _ (by decide) _ himplFlags, index,
    hcells _ (by decide) _ hindex, blob, h.blobs _ _ hblob, signature, hsignature,
    (start, stop), hrun _ hparams, names, h.readParamNames hnames, (body, code),
    Result.mapError_eq_ok.mpr hbody, flags, hcells _ (by decide) _ hflags, ?_⟩
  simp only [methodParams, h.typeName hdefs hrefs]

end Retains

end Metadata

end CliImage
