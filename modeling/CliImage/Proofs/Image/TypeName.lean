import CliImage.Image.TypeName
import CliImage.Proofs.Image.Arena
import CliImage.Proofs.Image.Resolution
import CliImage.Proofs.Table.RowCounts

/-! The text that stands for a type: its whole name, with the names of the types around it, or its
token. A token has fewer bits for a row than a cell, so that the way outwards may go astray. -/

namespace CliImage

namespace Token

lemma toNat_ofRow (t : TableId) (rid : Nat) :
    (ofRow t rid).value.toNat = t.number * rowLimit + rid % rowLimit := by
  have := t.number_lt
  have := Nat.mod_lt rid (show 0 < rowLimit by decide)
  refine UInt32.toNat_ofNat_of_lt' ?_
  change _ < 2 ^ 32
  simp only [rowLimit] at *
  omega

lemma table_ofRow (t : TableId) (rid : Nat) : (ofRow t rid).table = t.number := by
  have hlt := Nat.mod_lt rid (show 0 < rowLimit by decide)
  rw [table, toNat_ofRow, Nat.mul_comm, Nat.mul_add_div (by decide), Nat.div_eq_of_lt hlt,
    Nat.add_zero]

lemma row_ofRow (t : TableId) (rid : Nat) : (ofRow t rid).row = rid % rowLimit := by
  rw [row, toNat_ofRow, Nat.mul_add_mod', Nat.mod_mod]

end Token

namespace Metadata

open Image (FirstAt find?_eq_some_iff_firstAt)

/-- The name of a type and its namespace. -/
def Described (m : Metadata) (t : TableId) (rid : Nat) (name scope : String) : Prop :=
  m.stringCell? t rid 1 = some name ∧ m.stringCell? t rid 2 = some scope

/-- The type around a type, if there is one. For a type of the image the first row that nests it tells;
a type of another image has the type that is its scope around it. -/
inductive StandsIn (m : Metadata) : TableId → Nat → Option Nat → Prop
  | ownNested {rid k : Nat} {row : Row} (h : FirstAt (m.tables.table .nestedClass).toList
      (fun row => (row.getD 0 0).toNat == rid) k row) :
      m.StandsIn .typeDef rid (some (row.getD 1 0).toNat)
  | ownOutermost {rid : Nat} (h : ∀ row ∈ m.tables.table .nestedClass, (row.getD 0 0).toNat ≠ rid) :
      m.StandsIn .typeDef rid none
  | otherNested {rid : Nat} {value outer : UInt32} (h : m.tables.cell .typeRef rid 0 = .ok value)
      (hvalue : CodedKind.resolutionScope.decode value = .ok (.typeRef, outer)) (hne : outer ≠ 0) :
      m.StandsIn .typeRef rid (some outer.toNat)
  | otherOutermost {rid : Nat} {value outer : UInt32} {t : TableId}
      (h : m.tables.cell .typeRef rid 0 = .ok value)
      (hvalue : CodedKind.resolutionScope.decode value = .ok (t, outer))
      (hnone : t = .typeRef → outer = 0) : m.StandsIn .typeRef rid none

/-- The name of a type with that many types around it. Of each row number on the way as much counts as
`cut` leaves of it. -/
inductive Spells (m : Metadata) (cut : Nat → Nat) (t : TableId) : Nat → Nat → String → Prop
  | outermost {rid : Nat} {name scope : String} (h : m.StandsIn t rid none)
      (hname : m.Described t rid name scope) : m.Spells cut t 0 rid (qualified scope name)
  | inside {links rid outer : Nat} {name scope front : String} (h : m.StandsIn t rid (some outer))
      (hname : m.Described t rid name scope) (hfront : m.Spells cut t links (cut outer) front) :
      m.Spells cut t (links + 1) rid (front ++ "+" ++ name)

variable {m : Metadata} {t : TableId} {token : Token} {rid outer links room : Nat}
  {around around' : Option Nat} {cut : Nat → Nat} {name scope text : String}

/-- What is around a type; nothing is known of a table that has no types. -/
def around? (m : Metadata) : TableId → Nat → Option (Option Nat)
  | .typeDef, rid => some (m.enclosing? rid)
  | .typeRef, rid => (m.scopeOf? rid).map fun scope =>
    if scope.1 = .typeRef ∧ scope.2 ≠ 0 then some scope.2.toNat else none
  | _, _ => none

lemma scopeOf?_eq_some {outer : UInt32} : m.scopeOf? rid = some (t, outer) ↔
    ∃ value, m.tables.cell .typeRef rid 0 = .ok value ∧
      CodedKind.resolutionScope.decode value = .ok (t, outer) := by
  unfold scopeOf?
  cases m.tables.cell .typeRef rid 0 with
  | error e => simp
  | ok value =>
    cases hdecode : CodedKind.resolutionScope.decode value <;> simp [hdecode, Except.toOption]

lemma around?_eq_some : m.around? t rid = some around ↔ m.StandsIn t rid around := by
  constructor
  · intro h
    cases t with
    | typeDef =>
      cases h
      rw [enclosing?, ← Array.find?_toList]
      cases hfound : (m.tables.table .nestedClass).toList.find?
          fun row => (row.getD 0 0).toNat == rid with
      | none => exact .ownOutermost (by simpa using hfound)
      | some row =>
        obtain ⟨k, hfirst⟩ := find?_eq_some_iff_firstAt.mp hfound
        exact .ownNested hfirst
    | typeRef =>
      obtain ⟨⟨t, outer⟩, hscope, rfl⟩ := Option.map_eq_some_iff.mp h
      obtain ⟨value, hcell, hvalue⟩ := scopeOf?_eq_some.mp hscope
      simp only
      split
      · rename_i hsome
        obtain ⟨rfl, hne⟩ := hsome
        exact .otherNested hcell hvalue hne
      · rename_i hnone
        exact .otherOutermost hcell hvalue fun ht => by_contra fun hne => hnone ⟨ht, hne⟩
    | _ => cases h
  · intro h
    cases h with
    | ownNested h =>
      rw [around?, enclosing?, ← Array.find?_toList, find?_eq_some_iff_firstAt.mpr ⟨_, h⟩,
        Option.map_some]
    | ownOutermost h =>
      rw [around?, enclosing?, ← Array.find?_toList, List.find?_eq_none.mpr (by simpa using h),
        Option.map_none]
    | otherNested h hvalue hne =>
      rw [around?, scopeOf?_eq_some.mpr ⟨_, h, hvalue⟩, Option.map_some, if_pos ⟨rfl, hne⟩]
    | otherOutermost h hvalue hnone =>
      rw [around?, scopeOf?_eq_some.mpr ⟨_, h, hvalue⟩, Option.map_some,
        if_neg fun hsome => hsome.2 (hnone hsome.1)]

lemma StandsIn.unique (h : m.StandsIn t rid around) (h' : m.StandsIn t rid around') :
    around = around' :=
  Option.some.inj ((around?_eq_some.mpr h).symm.trans (around?_eq_some.mpr h'))

/-- One type outwards. -/
lemma nameWithin?_succ : m.nameWithin? (room + 1) token =
    (TableId.ofNumber? token.table).bind fun t =>
      (m.stringCell? t token.row 1).bind fun name => (m.stringCell? t token.row 2).bind fun scope =>
        (m.around? t token.row).bind fun
          | none => some (qualified scope name)
          | some outer => (m.nameWithin? room (Token.ofRow t outer)).bind fun front =>
            some (front ++ "+" ++ name) := by
  rw [nameWithin?]
  cases TableId.ofNumber? token.table with
  | none => rfl
  | some t =>
    cases t with
    | typeDef =>
      rw [Option.bind_some, around?]
      cases m.enclosing? token.row <;> rfl
    | typeRef =>
      rw [Option.bind_some, around?]
      cases m.scopeOf? token.row with
      | none => rfl
      | some scope =>
        obtain ⟨t, outer⟩ := scope
        cases t with
        | typeRef =>
          by_cases hnull : outer = 0
          · subst hnull
            rfl
          · simp only [Option.bind_eq_bind, Option.bind_some, Option.map_some, true_and, ne_eq, hnull,
              not_false_eq_true, if_true, if_false]
            rfl
        | _ => rfl
    | _ => simp [around?]

/-- The walk ends with a name where it spells one on its way, of which each row number is cut to what a
token has room for. -/
lemma nameWithin?_eq_some : m.nameWithin? room token = some text ↔
    ∃ t, TableId.ofNumber? token.table = some t ∧
      ∃ links < room, m.Spells (· % Token.rowLimit) t links token.row text := by
  induction room generalizing token text with
  | zero => simp [nameWithin?]
  | succ room ih =>
    simp only [nameWithin?_succ, Option.bind_eq_some_iff, around?_eq_some]
    refine exists_congr fun t => and_congr_right fun ht => ?_
    constructor
    · rintro ⟨name, hname, scope, hscope, around, haround, h⟩
      cases around with
      | none =>
        cases h
        exact ⟨0, Nat.succ_pos room, .outermost haround ⟨hname, hscope⟩⟩
      | some outer =>
        obtain ⟨front, hfront, h⟩ := Option.bind_eq_some_iff.mp h
        cases h
        obtain ⟨t', ht', links, hlinks, hspells⟩ := ih.mp hfront
        rw [Token.table_ofRow, TableId.ofNumber?_number] at ht'
        cases ht'
        rw [Token.row_ofRow] at hspells
        exact ⟨links + 1, Nat.succ_lt_succ hlinks, .inside haround ⟨hname, hscope⟩ hspells⟩
    · rintro ⟨links, hlinks, hspells⟩
      cases hspells with
      | outermost h hname => exact ⟨_, hname.1, _, hname.2, none, h, rfl⟩
      | @inside links _ outer _ _ front h hname hfront =>
        refine ⟨_, hname.1, _, hname.2, some outer, h, Option.bind_eq_some_iff.mpr ⟨front, ?_, rfl⟩⟩
        refine ih.mpr ⟨t, by rw [Token.table_ofRow, TableId.ofNumber?_number], links,
          Nat.lt_of_succ_lt_succ hlinks, ?_⟩
        rwa [Token.row_ofRow]

/-- The text is the whole name where one is spelled with at most 64 types around the type, and else the
token. -/
structure AllOrNothing (m : Metadata) (cut : Nat → Nat) (token : Token) : Prop where
  all : ∀ t links text, TableId.ofNumber? token.table = some t → links ≤ 64 →
    m.Spells cut t links token.row text → m.typeName token = text
  nothing : (∀ t links text, TableId.ofNumber? token.table = some t → links ≤ 64 →
    ¬ m.Spells cut t links token.row text) → m.typeName token = token.text

lemma typeName_of_cut (m : Metadata) (token : Token) :
    m.AllOrNothing (· % Token.rowLimit) token where
  all t links text ht hlinks h := by
    have hname := nameWithin?_eq_some.mpr ⟨t, ht, links, Nat.lt_succ_of_le hlinks, h⟩
    change (m.nameWithin? 65 token).getD token.text = text
    rw [hname, Option.getD_some]
  nothing h := by
    change (m.nameWithin? 65 token).getD token.text = token.text
    cases hname : m.nameWithin? 65 token with
    | none => rfl
    | some text =>
      obtain ⟨t, ht, links, hlinks, hspells⟩ := nameWithin?_eq_some.mp hname
      exact absurd hspells (h t links text ht (Nat.le_of_lt_succ hlinks))

/-- On the way outwards there is a row number that a token has no room for. -/
inductive LeadsFar (m : Metadata) (t : TableId) : Nat → Prop
  | here {rid outer : Nat} (h : m.StandsIn t rid (some outer)) (hfar : Token.rowLimit ≤ outer) :
      m.LeadsFar t rid
  | later {rid outer : Nat} (h : m.StandsIn t rid (some outer)) (hnear : outer < Token.rowLimit)
      (hfar : m.LeadsFar t outer) : m.LeadsFar t rid

/-- Where it does not lead far nothing is cut off. -/
lemma spells_iff_of_near (h : ¬ m.LeadsFar t rid) :
    m.Spells (· % Token.rowLimit) t links rid text ↔ m.Spells id t links rid text := by
  induction links generalizing rid text with
  | zero =>
    constructor
    · rintro ⟨h, hname⟩
      exact .outermost h hname
    · rintro ⟨h, hname⟩
      exact .outermost h hname
  | succ links ih =>
    have hnear {outer : Nat} (hin : m.StandsIn t rid (some outer)) :
        outer % Token.rowLimit = outer ∧ ¬ m.LeadsFar t outer := by
      have hlt : outer < Token.rowLimit := Nat.lt_of_not_le fun hfar => h (.here hin hfar)
      exact ⟨Nat.mod_eq_of_lt hlt, fun hfar => h (.later hin hlt hfar)⟩
    constructor
    · rintro (_ | ⟨hin, hname, hfront⟩)
      obtain ⟨hmod, hfar⟩ := hnear hin
      simp only [hmod] at hfront
      exact .inside hin hname ((ih hfar).mp hfront)
    · rintro (_ | ⟨hin, hname, hfront⟩)
      obtain ⟨hmod, hfar⟩ := hnear hin
      refine .inside hin hname ?_
      simp only [hmod]
      exact (ih hfar).mpr hfront

lemma Described.le_count (h : m.Described t rid name scope) : rid ≤ m.tables.count t := by
  have hname := h.1
  unfold stringCell? at hname
  cases hcell : m.tables.cell t rid 1 with
  | error e => simp [hcell] at hname
  | ok value => exact Nat.le_of_pred_lt (Tables.lt_count_of_cell hcell)

lemma Spells.le_count (h : m.Spells cut t links rid text) : rid ≤ m.tables.count t := by
  cases h with
  | outermost _ hname => exact hname.le_count
  | inside _ hname => exact hname.le_count

/-- Where it leads far in a table that has only rows that a token has room for, there is nothing. -/
lemma not_spells_of_far (hfar : m.LeadsFar t rid) (hrows : m.tables.count t < Token.rowLimit) :
    ¬ m.Spells id t links rid text := by
  induction hfar generalizing links text with
  | here hin hfar =>
    rintro (⟨h, -⟩ | ⟨h, -, hfront⟩)
    · cases hin.unique h
    · cases hin.unique h
      have := hfront.le_count
      rw [id_eq] at this
      omega
  | later hin hnear _ ih =>
    rintro (⟨h, -⟩ | ⟨h, -, hfront⟩)
    · cases hin.unique h
    · cases hin.unique h
      exact ih hfront

/-- The way outwards from a token's type meets a row number that no token has room for. -/
def GoesAstray (m : Metadata) (token : Token) : Prop :=
  ∃ t, TableId.ofNumber? token.table = some t ∧ m.LeadsFar t token.row

/-- A type is called by its whole name or by its token. Of the rows on the way outwards the low 24 bits
count; so the name is that of the types around it, unless a longer row number is met: then there is no
such type, and any name but the token is wrong. -/
theorem typeName_allOrNothing (m : Metadata) (token : Token) :
    m.AllOrNothing (· % Token.rowLimit) token ∧
    (¬ m.GoesAstray token → m.AllOrNothing id token) ∧
    (m.GoesAstray token → (∀ t, m.tables.count t < Token.rowLimit) →
      (m.AllOrNothing id token ↔ m.typeName token = token.text)) := by
  obtain ⟨hall, hnothing⟩ := m.typeName_of_cut token
  refine ⟨⟨hall, hnothing⟩, fun hnear => ?_, ?_⟩
  · have hspells {t : TableId} {links : Nat} {text : String}
        (ht : TableId.ofNumber? token.table = some t) :
        m.Spells (· % Token.rowLimit) t links token.row text ↔ m.Spells id t links token.row text :=
      spells_iff_of_near fun hfar => hnear ⟨t, ht, hfar⟩
    refine ⟨fun t links text ht hlinks h => hall t links text ht hlinks ((hspells ht).mpr h),
      fun h => hnothing fun t links text ht hlinks hcut => h t links text ht hlinks ?_⟩
    exact (hspells ht).mp hcut
  · rintro ⟨t, ht, hfar⟩ hrows
    have hnone (t' : TableId) (links : Nat) (text : String)
        (ht' : TableId.ofNumber? token.table = some t') (_ : links ≤ 64) :
        ¬ m.Spells id t' links token.row text := by
      cases ht.symm.trans ht'
      exact not_spells_of_far hfar (hrows t)
    refine ⟨fun h => h.nothing hnone, fun htext => ⟨fun t' links text ht' hlinks h => ?_,
      fun _ => htext⟩⟩
    exact absurd h (hnone t' links text ht' hlinks)

/-- A type `A` of which the scope is row 0x01000002 and that has two rows in its table. The second of
them, `B`, is not around it. -/
def astray : Metadata where
  root := default
  strings := ⟨#[0, 0x41, 0, 0x42, 0]⟩
  blobs := .empty
  guids := .empty
  tables := Tables.setTable ⟨0, 2, 0, 0, 1, 0, 0, none, .replicate TableId.count #[]⟩ .typeRef
    #[#[0x0400000B, 1, 0], #[4, 3, 0]]
  pdb := none
  slots := []

theorem typeName_astray : astray.typeName ⟨0x01000001⟩ = "B+A" ∧
    ¬ astray.AllOrNothing id ⟨0x01000001⟩ ∧ astray.AllOrNothing id ⟨0x01000002⟩ := by
  have hcode : astray.typeName ⟨0x01000001⟩ = "B+A" := by decide +kernel
  have hin : astray.StandsIn .typeRef 1 (some 0x01000002) :=
    around?_eq_some.mp (by decide +kernel)
  have hout : astray.StandsIn .typeRef 2 none := around?_eq_some.mp (by decide +kernel)
  have hfar : astray.GoesAstray ⟨0x01000001⟩ :=
    ⟨.typeRef, by decide, .here hin (by decide)⟩
  have hnear : ¬ astray.GoesAstray ⟨0x01000002⟩ := by
    rintro ⟨t, ht, hleads⟩
    cases ht.symm.trans (show TableId.ofNumber? (Token.table ⟨0x01000002⟩) = some .typeRef by decide)
    cases hleads with
    | here h _ | later h _ _ => cases hout.unique h
  have hrows : ∀ t, astray.tables.count t < Token.rowLimit := by
    intro t
    cases t <;> decide +kernel
  refine ⟨hcode, fun h => ?_, (astray.typeName_allOrNothing _).2.1 hnear⟩
  have htext := ((astray.typeName_allOrNothing _).2.2 hfar hrows).mp h
  rw [hcode] at htext
  exact absurd htext (by decide +kernel)

end Metadata

end CliImage
