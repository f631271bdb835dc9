import CliImage.Proofs.Image.Evaluation
import CliImage.Proofs.Output.Frame
import CliImage.Proofs.Output.Initializers
import CliImage.Proofs.Output.Symbols
import CliImage.Proofs.Output.WellFormed

/-! An output can be read again: its types own the methods that they owned, the first one those in
addition that have been added, and all methods are what they were, with tokens that have moved
along. -/

namespace CliImage

open Bytes

/-- A run goes from its owner's cell to that of the next owner, or to the end. -/
lemma Tables.run_of_cells {ts : Tables} {owner target : TableId} {column rid start stop : Nat}
    (hfirst : ∃ first, ts.cell owner rid column = .ok first ∧ first.toNat = start)
    (hstop : if rid < ts.count owner then
        ∃ next, ts.cell owner (rid + 1) column = .ok next ∧ next.toNat = stop
      else stop = ts.count target + 1)
    (hpos : 1 ≤ start) (hle : start ≤ stop) (hend : stop ≤ ts.count target + 1) :
    ts.run owner column rid target = .ok (start, stop) := by
  have hrange : ¬ (start = 0 ∨ stop < start ∨ ts.count target + 1 < stop) := by omega
  obtain ⟨first, hfirst, rfl⟩ := hfirst
  by_cases hlt : rid < ts.count owner
  · rw [if_pos hlt] at hstop
    obtain ⟨next, hnext, rfl⟩ := hstop
    simp only [run, hfirst, hnext, hlt, if_true, Result.ok_bind, Result.map_ok,
      Result.unless_throw_eq_ok]
    exact ⟨hrange, trivial⟩
  · rw [if_neg hlt] at hstop
    subst hstop
    simp only [run, hfirst, hlt, if_false, Result.ok_bind, Result.pure_eq, Result.unless_throw_eq_ok]
    exact ⟨hrange, trivial⟩

namespace Image

variable {image : Image} {data : Bytes}

lemma Prepared.perform (h : image.Prepared data) (call : Call) :
    (InPlace.stateOf (call.perform image)).Prepared data := by
  cases call with
  | resolve | rebase => exact (stateOf_query ..).symm ▸ h
  | inject target =>
    rw [Call.perform_inject]
    cases hinject : image.inject target with
    | error e => exact h
    | ok after => exact h.inject hinject

lemma Prepared.afterCalls (h : image.Prepared data) (calls : List Call) :
    (image.afterCalls calls).Prepared data :=
  InPlace.rel_after (R := fun before after => before.Prepared data → after.Prepared data)
    (fun _ h => h) (fun first second h => second (first h)) (fun _ call h => h.perform call) image
    calls h

lemma exists_readRows {α : Type} (read : Nat → Result α) (left rid : Nat) (done : Array α)
    (h : ∀ i < left, ∃ a, read (rid + i) = .ok a) :
    ∃ rows, readRows read left rid done = .ok rows := by
  induction left generalizing rid done with
  | zero => exact ⟨done, rfl⟩
  | succ left ih =>
    obtain ⟨a, ha⟩ := h 0 (Nat.succ_pos _)
    rw [Nat.add_zero] at ha
    rw [readRows, ha]
    refine ih _ _ fun i hi => ?_
    obtain ⟨b, hb⟩ := h (i + 1) (by omega)
    exact ⟨b, by rw [Nat.add_assoc, Nat.add_comm 1, hb]⟩

lemma exists_rows {α : Type} (read : Nat → Result α) (left : Nat)
    (h : ∀ i < left, ∃ a, read (i + 1) = .ok a) : ∃ rows, readRows read left 1 #[] = .ok rows ∧
      rows.size = left ∧ ∀ i < left, ∀ a, read (i + 1) = .ok a → rows[i]? = some a := by
  obtain ⟨rows, hrows⟩ := exists_readRows read left 1 #[]
    fun i hi => Nat.add_comm 1 i ▸ h i hi
  obtain ⟨hsize, hget⟩ := readRows_empty hrows
  refine ⟨rows, hrows, hsize, fun i hi a ha => ?_⟩
  obtain ⟨a', ha', hrow⟩ := hget i hi
  rw [ha] at ha'
  cases ha'
  exact hrow

lemma namesAll_of_read {id : Nat} (h : read id data = .ok image) :
    image.metadata.NamesAll .typeDef := fun rid hpos hle => by
  obtain ⟨-, -, -, -, -, -, -, -, htypes⟩ := read_eq_ok h
  obtain ⟨t, ht, -⟩ := (readRows_empty htypes).2 (rid - 1) (by omega)
  rw [Nat.sub_add_cancel hpos] at ht
  simp only [Metadata.readType, Result.bind_eq_ok] at ht
  obtain ⟨_, -, name, hname, scope, hscope, -⟩ := ht
  exact ⟨name, scope, Metadata.stringCell?_of_stringCell hname,
    Metadata.stringCell?_of_stringCell hscope⟩

lemma parse_of_opens {file : PeFile} {cli : CliHeader} {metadata : Metadata} {methods : Array Method}
    {types : Array TypeDef} (hopens : file.Opens cli metadata)
    (hmethods : readRows (file.readMethod metadata) (metadata.tables.count .methodDef) 1 #[] =
      .ok methods)
    (htypes : readRows metadata.readType (metadata.tables.count .typeDef) 1 #[] = .ok types)
    (id : Nat) : parse id file = .ok ⟨id, none, file, cli, metadata, types, methods, none⟩ := by
  obtain ⟨bytes, hbytes, hcli⟩ := hopens.cli
  obtain ⟨bytes', hbytes', hmetadata⟩ := hopens.metadata
  simp only [parse, Result.bind_eq_ok]
  refine ⟨bytes, hbytes, cli, hcli, bytes', hbytes', metadata, hmetadata, ?_⟩
  rw [hopens.notPdb]
  simp only [Bool.false_eq_true, if_false, Result.bind_eq_ok]
  exact ⟨methods, hmethods, types, htypes, rfl⟩

/-- What an image is that has been read from an output, with initializers for certain methods. -/
structure RereadAs (image : Image) (tokens : List Token) (again : Image) : Prop where
  types : again.types = image.types.mapIdx fun i t => { t with
    methods := t.methods.map (image.movedBy tokens.length) ++
      if i = 0 then Array.range' image.leading tokens.length else #[] }
  size : again.methods.size = image.methods.size + tokens.length
  old : ∀ j m, image.methods[j]? = some m →
    again.methods[image.movedBy tokens.length j]? = some { m with
      rid := some (image.movedBy tokens.length j + 1)
      instructions := m.instructions.map (Instruction.mapToken (image.movedToken tokens.length)) }
  added : ∀ k token, tokens[k]? = some token → ∃ m,
    again.methods[image.leading + k]? = some m ∧ m.rid = some (image.leading + k + 1) ∧
      m.CallsOnce (image.movedToken tokens.length token)

end Image

namespace Output

open LayoutPlan MethodPlan Image

variable {image : Image} {tokens : List Token} {added : List Method} {s : Stages} {data : Bytes}
  {again : Metadata} {i j k : Nat} {m : Method} {t : TypeDef} {token : Token}

/-- An output of an image that has been read and to which initializers have been added. -/
structure Outcome (image : Image) (tokens : List Token) (added : List Method) (s : Stages)
    (data : Bytes) (again : Metadata) : Prop where
  read : ∃ id, Image.read id data = .ok image
  calling : Calling tokens added
  owner : added ≠ [] → image.types.size ≠ 0
  prepared : (image.grownBy added).Prepared data
  wellFormed : (image.grownBy added).WellFormed s.layout
  follow : s.Follow (image.grownBy added) none
  address : Addressable image.file s.layout s.added
  metadata : Metadata.read s.encoded.1 = .ok again
  notPdb : again.isPdb = false
  holds : Holds (image.grownBy added) s.rowed again

namespace Outcome

variable (h : Outcome image tokens added s data again)
include h

lemma ofRows : image.OfRows := by
  obtain ⟨_, hread⟩ := h.read
  exact ofRows_of_read hread

lemma arranged : image.Arranged := by
  obtain ⟨_, hread⟩ := h.read
  exact arranged_of_read hread

lemma startsFirst : image.StartsFirst := fun hne =>
  h.wellFormed.first (by rwa [Image.grownBy, Array.size_mapIdx])

lemma length_added : added.length = tokens.length := h.calling.length_eq.symm

lemma size_rows : (ofImage (image.grownBy added)).rows.size =
    image.metadata.tables.count .methodDef + tokens.length := by
  rw [size_rows_grownBy h.ofRows h.arranged h.prepared.arranged h.owner h.startsFirst,
    h.length_added]

lemma count_lt : image.metadata.tables.count .methodDef + tokens.length + 1 < 2 ^ 32 := by
  obtain ⟨bytes, hsize, htables⟩ := Metadata.tables_of_read h.metadata
  have hcount := Tables.count_le_of_read htables .methodDef
  rw [h.holds.rows.count.2, h.size_rows] at hcount
  omega

lemma token_eq : (ofImage (image.grownBy added)).rids.token = image.movedToken tokens.length := by
  have := h.count_lt
  rw [token_rids_grownBy h.ofRows h.arranged h.prepared.arranged h.owner h.startsFirst (by omega),
    h.length_added]

lemma typeDefs : image.metadata.NamesAll .typeDef := by
  obtain ⟨_, hread⟩ := h.read
  exact namesAll_of_read hread

/-- A method with a row keeps all but the number of its row and the tokens in its code. -/
lemma readMethod_old (hm : image.methods[j]? = some m) :
    (s.layout.newFile image.file s.added s.image).readMethod again
        (image.movedBy tokens.length j + 1) = .ok { m with
      rid := some (image.movedBy tokens.length j + 1)
      instructions :=
        m.instructions.map (Instruction.mapToken (image.movedToken tokens.length)) } := by
  have hsmall := h.count_lt
  have hlt := (Array.getElem?_eq_some_iff.mp hm).1
  have hj : j < image.metadata.tables.count .methodDef := h.ofRows.size_methods ▸ hlt
  have hgrown : (image.grownBy added).methods[j]? = some m := by
    rw [Image.grownBy, Array.getElem?_append_left hlt, hm]
  have hold : m.isAdded = false := by
    have hrid := h.arranged.rid_eq j hj
    rw [hm, Option.bind_some] at hrid
    rw [Method.isAdded, hrid]
    rfl
  have hplace := getElem?_rows_old h.ofRows h.arranged h.prepared.arranged h.owner h.startsFirst hj
  have hrid := get_rids_grownBy h.ofRows h.arranged h.prepared.arranged h.owner h.startsFirst hj
    (by omega)
  rw [h.length_added] at hplace hrid
  refine h.holds.retains.readMethod h.typeDefs h.wellFormed.references
    (h.prepared.readMethod hgrown hold) (h.holds.rows.old _ _ hplace) (fun run hrun => ?_) ?_
  · -- the row that keeps its parameters is the one in this place
    obtain ⟨p, start, stop, hp, hget, hbefore, hafter⟩ :=
      h.holds.rows.params.old (j + 1) (Nat.succ_pos j) hj
    have hp' := (Array.getElem?_eq_some_iff.mp hp).1
    have hplace' := (Array.getElem?_eq_some_iff.mp hplace).1
    have hrows := h.size_rows
    have hsame := congrArg UInt32.toNat (hget.symm.trans hrid)
    rw [UInt32.toNat_ofNat_of_lt' (by simp only [UInt32.size]; omega),
      UInt32.toNat_ofNat_of_lt' (by simp only [UInt32.size]; omega)] at hsame
    obtain rfl : p = image.movedBy tokens.length j := by omega
    change image.metadata.tables.run _ _ _ _ = _ at hbefore hrun
    rw [hbefore] at hrun
    cases hrun
    exact hafter
  · have hbody := h.follow.readBody h.address h.wellFormed.toContained h.wellFormed.code h.prepared
      (Array.mem_toList_iff.mpr (Array.mem_of_getElem? hgrown)) hold
    rwa [h.token_eq] at hbody

lemma readMethod_added (htoken : tokens[k]? = some token) : ∃ m,
    (s.layout.newFile image.file s.added s.image).readMethod again (image.leading + k + 1) = .ok m ∧
      m.rid = some (image.leading + k + 1) ∧ m.CallsOnce (image.movedToken tokens.length token) := by
  obtain ⟨hlength, hget⟩ := List.forall₂_iff_get.mp h.calling
  obtain ⟨hk, rfl⟩ := List.getElem?_eq_some_iff.mp htoken
  have hk' : k < added.length := by omega
  have hmethod {id : Nat} (hid : image.methods.size ≤ id) :
      (image.grownBy added).methods[id]? = added[id - image.methods.size]? := by
    rw [Image.grownBy, Array.getElem?_append_right hid, List.getElem?_toArray]
  rw [← h.token_eq]
  refine h.follow.readMethod_added h.address h.wellFormed.toContained h.prepared h.metadata h.holds
    (fun id hid m hm => ?_)
    (getElem?_rows_added h.ofRows h.arranged h.prepared.arranged h.owner h.startsFirst hk')
    ((hmethod (Nat.le_add_right ..)).trans ?_) (hget k hk hk')
  · rw [hmethod (h.ofRows.size_methods ▸ hid)] at hm
    obtain ⟨hlt, rfl⟩ := List.getElem?_eq_some_iff.mp hm
    exact ⟨_, hget _ (hlength ▸ hlt) hlt⟩
  · rw [Nat.add_sub_cancel_left]
    exact List.getElem?_eq_getElem hk'

/-- Where the methods of a type begin: behind those of the types before it and what has been added.
-/
lemma cell_first (hi : i < image.types.size) : again.tables.cell .typeDef (i + 1) 5 =
    .ok (UInt32.ofNat (if i = 0 then image.firstOld 0 else image.firstOld i + tokens.length)) := by
  have hfirst := firstRows_grownBy h.ofRows h.arranged h.prepared.arranged h.startsFirst hi
  rw [h.length_added] at hfirst
  exact h.holds.rows.first i (h.arranged.size_types ▸ hi) _ hfirst

lemma run_eq (hi : i < image.types.size) : again.tables.run .typeDef 5 (i + 1) .methodDef =
    .ok (if i = 0 then image.firstOld 0 else image.firstOld i + tokens.length,
      image.firstOld (i + 1) + tokens.length) := by
  have hsmall := h.count_lt
  have hend := h.arranged.firstOld_end
  obtain ⟨-, hpos, hle, hnext⟩ := h.arranged.run_next hi
  have hcount : again.tables.count .typeDef = image.types.size :=
    h.holds.rows.count.1.trans h.arranged.size_types.symm
  have hrows := h.holds.rows.count.2.trans h.size_rows
  have hnumber {n : Nat} (hn : n ≤ image.metadata.tables.count .methodDef + 1 + tokens.length) :
      (UInt32.ofNat n).toNat = n :=
    UInt32.toNat_ofNat_of_lt' (by simp only [UInt32.size]; omega)
  have hstart : (if i = 0 then image.firstOld 0 else image.firstOld i + tokens.length) ≤
      image.firstOld (i + 1) + tokens.length ∧
        1 ≤ if i = 0 then image.firstOld 0 else image.firstOld i + tokens.length := by
    rcases Nat.eq_zero_or_pos i with rfl | hne
    · rw [if_pos rfl]
      omega
    · rw [if_neg (by omega)]
      omega
  refine Tables.run_of_cells ⟨_, h.cell_first hi, hnumber (by omega)⟩ ?_ (by omega) (by omega)
    (by omega)
  rw [hcount]
  split_ifs with hlt
  · refine ⟨_, h.cell_first hlt, ?_⟩
    rw [if_neg (Nat.succ_ne_zero i), hnumber (by omega)]
  · rw [show i + 1 = image.types.size by omega, hend, hrows]
    omega

/-- The places of a type's methods, as they are numbered in the output. -/
lemma methods_eq (ht : image.types[i]? = some t) :
    (List.range' ((if i = 0 then image.firstOld 0 else image.firstOld i + tokens.length) - 1)
      (image.firstOld (i + 1) + tokens.length -
        if i = 0 then image.firstOld 0 else image.firstOld i + tokens.length)).toArray =
      t.methods.map (image.movedBy tokens.length) ++
        if i = 0 then Array.range' image.leading tokens.length else #[] := by
  obtain ⟨-, hpos, hle, -⟩ := h.arranged.run_next (Array.getElem?_eq_some_iff.mp ht).1
  refine Array.toList_inj.mp ?_
  rw [List.toList_toArray, Array.toList_append, Array.toList_map,
    h.ofRows.methods_eq h.arranged ht, oldMethods]
  have hleading : image.leading = image.firstOld 1 - 1 := rfl
  rcases Nat.eq_zero_or_pos i with rfl | hne
  · rw [Nat.zero_add] at hle ⊢
    have hmoved : ∀ j ∈ List.range' (image.firstOld 0 - 1) (image.firstOld 1 - image.firstOld 0),
        image.movedBy tokens.length j = j := fun j hj => by
      rw [List.mem_range'_1] at hj
      exact movedBy_of_lt (by omega)
    rw [List.map_congr_left hmoved, List.map_id', if_pos rfl, if_pos rfl, Array.toList_range',
      show image.leading = image.firstOld 0 - 1 + (image.firstOld 1 - image.firstOld 0) by omega,
      List.range'_append_1]
    congr 1
    omega
  · have hlow := h.arranged.firstOld_mono_one hne (Array.getElem?_eq_some_iff.mp ht).1.le
    have hmoved : ∀ j ∈ List.range' (image.firstOld i - 1)
          (image.firstOld (i + 1) - image.firstOld i),
        image.movedBy tokens.length j = tokens.length + j := fun j hj => by
      rw [List.mem_range'_1] at hj
      rw [movedBy_of_le (by omega), Nat.add_comm]
    rw [List.map_congr_left hmoved, List.map_add_range', if_neg (by omega), if_neg (by omega),
      Array.toList_empty, List.append_nil]
    congr 1 <;> omega

lemma readType_eq (ht : image.types[i]? = some t) : again.readType (i + 1) = .ok { t with
    methods := t.methods.map (image.movedBy tokens.length) ++
      if i = 0 then Array.range' image.leading tokens.length else #[] } := by
  have hi := (Array.getElem?_eq_some_iff.mp ht).1
  obtain ⟨_, hread⟩ := h.read
  obtain ⟨-, -, -, -, -, -, -, -, htypes⟩ := read_eq_ok hread
  obtain ⟨t', hread', ht'⟩ := (readRows_empty htypes).2 i (h.arranged.size_types ▸ hi)
  rw [ht] at ht'
  cases ht'
  rw [← h.methods_eq ht]
  exact h.holds.retains.readType hread' (h.run_eq hi)

lemma exists_place {p : Nat} (hp : p < image.methods.size + tokens.length) :
    (∃ j < image.methods.size, p = image.movedBy tokens.length j) ∨
      ∃ k < tokens.length, p = image.leading + k := by
  have hle := h.arranged.leading_le
  have hsize := h.ofRows.size_methods
  rcases Nat.lt_or_ge p image.leading with hlt | hge
  · exact .inl ⟨p, by omega, (movedBy_of_lt hlt).symm⟩
  · rcases Nat.lt_or_ge p (image.leading + tokens.length) with hlt | hge'
    · exact .inr ⟨p - image.leading, by omega, by omega⟩
    · refine .inl ⟨p - tokens.length, by omega, ?_⟩
      rw [movedBy_of_le (by omega)]
      omega

/-- What is parsed from an output. -/
theorem parse (id : Nat) : ∃ image' : Image,
    Image.parse id (s.layout.newFile image.file s.added s.image) = .ok image' ∧
      image.RereadAs tokens image' := by
  have hle := h.arranged.leading_le
  have hrows := h.ofRows.size_methods
  have hopens : (s.layout.newFile image.file s.added s.image).Opens s.cli again :=
    ⟨h.follow.slice_cli h.prepared.parsed h.address h.wellFormed.toContained h.wellFormed.header,
      ⟨_, h.follow.slice_metadata h.address h.wellFormed.toContained, h.metadata⟩, h.notPdb⟩
  have hcount : again.tables.count .methodDef = image.methods.size + tokens.length :=
    h.holds.rows.count.2.trans (h.ofRows.size_methods ▸ h.size_rows)
  have hcount' : again.tables.count .typeDef = image.types.size :=
    h.holds.rows.count.1.trans h.arranged.size_types.symm
  obtain ⟨methods, hmethods, hsize, hmethod⟩ := exists_rows
    ((s.layout.newFile image.file s.added s.image).readMethod again)
    (again.tables.count .methodDef) fun p hp => by
      rw [hcount] at hp
      obtain ⟨j, hj, rfl⟩ | ⟨k, hk, rfl⟩ := h.exists_place hp
      · exact ⟨_, h.readMethod_old (Array.getElem?_eq_getElem hj)⟩
      · obtain ⟨m, hm, -⟩ := h.readMethod_added (List.getElem?_eq_getElem hk)
        exact ⟨m, hm⟩
  obtain ⟨types, htypes, hsize', htype⟩ := exists_rows again.readType
    (again.tables.count .typeDef) fun i hi =>
      ⟨_, h.readType_eq (Array.getElem?_eq_getElem (hcount' ▸ hi))⟩
  refine ⟨_, parse_of_opens hopens hmethods htypes id, Array.ext_getElem? fun i => ?_,
    hsize.trans hcount, fun j m hm => hmethod _ ?_ _ (h.readMethod_old hm),
    fun k token htoken => ?_⟩
  · rw [Array.getElem?_mapIdx]
    rcases Nat.lt_or_ge i image.types.size with hi | hi
    · rw [Array.getElem?_eq_getElem hi]
      exact htype i (hcount' ▸ hi) _ (h.readType_eq (Array.getElem?_eq_getElem hi))
    · rw [Array.getElem?_eq_none hi]
      exact Array.getElem?_eq_none (by rw [hsize', hcount']; exact hi)
  · rw [hcount, movedBy]
    have hj := (Array.getElem?_eq_some_iff.mp hm).1
    split_ifs <;> omega
  · obtain ⟨m, hm, hrid, hcalls⟩ := h.readMethod_added htoken
    have hk := (List.getElem?_eq_some_iff.mp htoken).1
    exact ⟨m, hmethod _ (by omega) _ hm, hrid, hcalls⟩

end Outcome

end Output

namespace Image

open LayoutPlan Output

end Image

namespace Output

open LayoutPlan Image

/-- An image in which A::M calls A::N; the code of N begins at an address of the same page. -/
def calling (address : UInt8) : Bytes := #[
  77, 90, 0, 0, 0, 0, 0, 0, 0, 0, 0, 0, 0, 0, 0, 0, 0, 0, 0, 0, 0, 0, 0, 0, 0, 0, 0, 0, 0, 0, 0, 0,
  0, 0, 0, 0, 0, 0, 0, 0, 0, 0, 0, 0, 0, 0, 0, 0, 0, 0, 0, 0, 0, 0, 0, 0, 0, 0, 0, 0, 64, 0, 0, 0,
  80, 69, 0, 0, 76, 1, 1, 0, 0, 0, 0, 0, 0, 0, 0, 0, 0, 0, 0, 0, 216, 0, 2, 33, 11, 1, 0, 0, 0, 0,
  0, 0, 0, 0, 0, 0, 0, 0, 0, 0, 0, 0, 0, 0, 0, 0, 0, 0, 0, 0, 0, 0, 0, 0, 0, 0, 0, 16, 0, 0, 8, 0,
  0, 0, 0, 0, 0, 0, 0, 0, 0, 0, 0, 0, 0, 0, 0, 0, 0, 0, 0, 32, 0, 0, 128, 1, 0, 0, 0, 0, 0, 0, 0, 0,
  0, 0, 0, 0, 0, 0, 0, 0, 0, 0, 0, 0, 0, 0, 0, 0, 0, 0, 0, 0, 0, 0, 15, 0, 0, 0, 0, 0, 0, 0, 0, 0,
  0, 0, 0, 0, 0, 0, 0, 0, 0, 0, 0, 0, 0, 0, 0, 0, 0, 0, 0, 0, 0, 0, 0, 0, 0, 0, 0, 0, 0, 0, 0, 0, 0,
  0, 0, 0, 0, 0, 0, 0, 0, 0, 0, 0, 0, 0, 0, 0, 0, 0, 0, 0, 0, 0, 0, 0, 0, 0, 0, 0, 0, 0, 0, 0, 0, 0,
  0, 0, 0, 0, 0, 0, 0, 0, 0, 0, 0, 0, 0, 0, 0, 0, 0, 0, 0, 0, 0, 0, 0, 0, 0, 0, 0, 0, 0, 0, 0, 0, 0,
  0, 0, 0, 0, 0, 0, 0, 0, 16, 0, 0, 72, 0, 0, 0, 46, 116, 101, 120, 116, 0, 0, 0, 56, 1, 0, 0, 0,
  16, 0, 0, 56, 1, 0, 0, 128, 1, 0, 0, 0, 0, 0, 0, 0, 0, 0, 0, 0, 0, 0, 0, 32, 0, 0, 96, 0, 0, 0, 0,
  0, 0, 0, 0, 0, 0, 0, 0, 0, 0, 0, 0, 0, 0, 0, 0, 0, 0, 0, 0, 0, 0, 0, 0, 0, 0, 0, 0, 0, 0, 0, 0, 0,
  0, 0, 0, 72, 0, 0, 0, 2, 0, 5, 0, 88, 16, 0, 0, 224, 0, 0, 0, 1, 0, 0, 0, 0, 0, 0, 0, 0, 0, 0, 0,
  0, 0, 0, 0, 0, 0, 0, 0, 0, 0, 0, 0, 0, 0, 0, 0, 0, 0, 0, 0, 0, 0, 0, 0, 0, 0, 0, 0, 0, 0, 0, 0, 0,
  0, 0, 0, 0, 0, 0, 0, 0, 0, 0, 0, 26, 40, 2, 0, 0, 6, 42, 6, 42, 0, 0, 0, 0, 0, 0, 0, 66, 83, 74,
  66, 1, 0, 0, 0, 0, 0, 0, 0, 4, 0, 0, 0, 118, 52, 0, 0, 0, 0, 3, 0, 72, 0, 0, 0, 112, 0, 0, 0, 35,
  126, 0, 0, 184, 0, 0, 0, 32, 0, 0, 0, 35, 83, 116, 114, 105, 110, 103, 115, 0, 0, 0, 0, 216, 0, 0,
  0, 8, 0, 0, 0, 35, 66, 108, 111, 98, 0, 0, 0, 0, 0, 0, 0, 2, 0, 0, 1, 71, 0, 0, 0, 0, 0, 0, 0, 0,
  0, 0, 0, 0, 0, 0, 0, 1, 0, 0, 0, 1, 0, 0, 0, 2, 0, 0, 0, 2, 0, 0, 0, 0, 0, 0, 0, 0, 0, 0, 0, 0, 0,
  0, 0, 16, 0, 23, 0, 0, 0, 0, 0, 1, 0, 0, 0, 0, 0, 1, 0, 1, 0, 1, 0, 0, 0, 10, 0, 0, 0, 0, 0, 1, 0,
  1, 0, 72, 16, 0, 0, 0, 0, 22, 0, 12, 0, 1, 0, 1, 0, address, 16, 0, 0, 0, 0, 22, 0, 14, 0, 1, 0,
  1, 0, 0, 60, 77, 111, 100, 117, 108, 101, 62, 0, 65, 0, 77, 0, 78, 0, 79, 98, 106, 101, 99, 116,
  0, 83, 121, 115, 116, 101, 109, 0, 0, 0, 0, 3, 0, 0, 1, 0, 0, 0]

/-- What is computed of an image in which A::M calls A::N: it is bare, and an initializer that calls
A::M can be written. -/
def Calls (address : UInt8) (p : Image → Image → LayoutPlan → Bool) : Prop :=
  Result.holds (Image.read 0 (calling address)) (fun image =>
    Result.holds (image.inject ⟨0, 0, "A", "M"⟩) fun after =>
      Result.holds (Stages.begin after none) fun s => decide (
        image.Bare s.layout ∧ after.Plain s.layout ∧ s.arranged.2.isNone ∧
        s.layout.sectionStart + rawSize image.file s.added < 2 ^ 32) && p image after s.layout) = true

lemma calls_apart : Calls 0x4F fun image _ layout => decide (image.CodeApart layout ∧
    image.injected [.inject ⟨0, 0, "A", "M"⟩] = [Token.ofRow .methodDef 1]) := by
  rw [Calls, Image.readByTails.2, Stages.beginByLists.2]
  decide +kernel

lemma calls_inside : Calls 0x4A fun image after layout => decide (
    (MethodPlan.ofImage after).isUnchanged = false ∧
    (MethodPlan.ofImage after).rids.token (Token.ofRow .methodDef 2) = Token.ofRow .methodDef 3 ∧
    (MethodPlan.ofImage after).rows[2]? = some (.existing 2) ∧
    (RidMap.operands (after.methods.toList.filter fun m => !m.isAdded)).length = 1 ∧
    (∀ a ∈ RidMap.operands (after.methods.toList.filter fun m => !m.isAdded),
      a.2 = Token.ofRow .methodDef 2 ∧
        ∃ o, image.file.offsetOf (a.1.rva.toNat + a.1.size - 4) = .ok o ∧ o = 458) ∧
    image.file.headersSize ≤ 458 ∧ 462 ≤ layout.kept ∧
    (∃ o, image.file.offsetOf 0x104A = .ok o ∧ o = 458) ∧
    (∃ n, image.metadata.tables.cell .methodDef 2 0 = .ok n ∧ n = 0x104A) ∧
    (∃ n, image.metadata.tables.cell .methodDef 2 1 = .ok n ∧ n = 0) ∧
    ∀ r ∈ image.cliRuns, Clear (458, 4) r) := by
  rw [Calls, Image.readByTails.2, Stages.beginByLists.2]
  decide +kernel

lemma Calls.exists_written {address : UInt8} {p : Image → Image → LayoutPlan → Bool}
    (h : Calls address p) : ∃ (image : Image) (m : Method) (s : Stages),
      Image.read 0 (calling address) = .ok image ∧
      image.afterCalls [.inject ⟨0, 0, "A", "M"⟩] = image.grownBy [m] ∧
      (image.grownBy [m]).Prepared (calling address) ∧ image.Bare s.layout ∧
      (image.grownBy [m]).Plain s.layout ∧ LayoutPlan.ofFile image.file = .ok s.layout ∧
      s.Follow (image.grownBy [m]) none ∧ s.arranged.2 = none ∧ s.image.size < 2 ^ 32 ∧
      p image (image.grownBy [m]) s.layout = true := by
  obtain ⟨image, hread, h⟩ := Result.exists_of_holds h
  obtain ⟨after, hinject, h⟩ := Result.exists_of_holds h
  obtain ⟨s, hbegin, h⟩ := Result.exists_of_holds h
  obtain ⟨hchecks, hp⟩ := Bool.and_eq_true_iff.mp h
  obtain ⟨hbare, hplain, hnone, hsize⟩ := of_decide_eq_true hchecks
  rw [Option.isNone_iff_eq_none] at hnone
  have hprepared := (Prepared.read hread).inject hinject
  have hafter : image.afterCalls [.inject ⟨0, 0, "A", "M"⟩] = after := by
    change InPlace.stateOf ((Call.inject _).perform image) = after
    rw [Call.perform_inject, hinject]
    rfl
  obtain ⟨_, _, -, -, rfl⟩ := exists_token?_of_inject hinject
  have hstart := Stages.start_of_begin hbegin
  obtain ⟨t, ht, hlayout, hadded, harranged, -⟩ := exists_follow hstart hprepared
    hplain hbare.version hbare.slots hsize (by simp [hnone]) (by simp)
  rw [← hlayout] at hbare hplain hp
  refine ⟨image, _, t, hread, hafter, hprepared, hbare, hplain, ht.layout, ht, harranged ▸ hnone,
    ?_, hp⟩
  rw [ht.size hprepared.parsed.file, hlayout, hadded]
  exact hsize

/-- In a plain layout a token that is the only operand has its new value, unless it lies in the CLI
header. -/
lemma Stages.Follow.natAt_only {image : Image} {s : Stages} {key : Option KeyPair} {token : Token}
    {o : Nat} (h : s.Follow image key) (hplain : image.Plain s.layout)
    (haddress : Addressable image.file s.layout s.added)
    (hchanged : (MethodPlan.ofImage image).isUnchanged = false) (hpdb : s.arranged.2 = none)
    (hone : (RidMap.operands (image.methods.toList.filter fun m => !m.isAdded)).length = 1)
    (hcode : ∀ a ∈ RidMap.operands (image.methods.toList.filter fun m => !m.isAdded), a.2 = token ∧
      ∃ p, image.file.offsetOf (a.1.rva.toNat + a.1.size - 4) = .ok p ∧ p = o)
    (hle : image.file.headersSize ≤ o) (hend : o + 4 ≤ s.layout.kept)
    (hcli : ∀ r ∈ image.cliRuns, Clear (o, 4) r) :
    s.image.natAt o 4 = ((MethodPlan.ofImage image).rids.token token).value.toNat := by
  have hplaced {a : Instruction × Token}
      (ha : a ∈ RidMap.operands (image.methods.toList.filter fun m => !m.isAdded)) :
      RidMap.PlacedAt (s.layout.offset image.file) a.1 o := by
    obtain ⟨-, p, hp, rfl⟩ := hcode a ha
    exact offset_eq_ok.mpr ⟨_, hp, hplain.shift_eq⟩
  have hapart : RidMap.Apart (s.layout.offset image.file)
      (RidMap.operands (image.methods.toList.filter fun m => !m.isAdded)) := by
    intro a ha b hb p p' hp hp'
    rw [RidMap.PlacedAt, hplaced ha] at hp
    rw [RidMap.PlacedAt, hplaced hb] at hp'
    cases hp
    cases hp'
    exact .inl ⟨rfl, (hcode a ha).1.trans (hcode b hb).1.symm⟩
  obtain ⟨a, ha⟩ := List.exists_mem_of_length_pos (hone ▸ Nat.one_pos)
  have hclear (start : Nat) (hat : s.layout.offset image.file image.file.cli.rva.toNat = .ok start) :
      Clear (o, 4) (start, 72) := by
    obtain ⟨start', hstart, heq⟩ := offset_eq_ok.mp hat
    rw [hplain.shift_eq] at heq
    subst heq
    exact hcli _ (cliRun_iff.mp ⟨rfl, hstart⟩)
  have hchecksum : Clear (o, 4) (image.file.headers.checksumOffset, 4) := by
    have := hplain.headers.table_le
    have := hplain.headers.table
    simp only [Clear, PeHeaders.checksumOffset, PeHeaders.optionalOffset]
    omega
  have hbehind := haddress.kept_le
  have hvalue := h.natAt_operand hchanged hapart hplain.fixups hpdb ha (hplaced ha) (by omega) hclear
    hchecksum
  rw [hvalue, (hcode a ha).1]

/-- Where an output reads again, a method whose row has been moved has its body at the address that
it had. -/
lemma Stages.Follow.exists_readBody {image again : Image} {s : Stages} {data : Bytes} {id p rid : Nat}
    {rva implFlags : UInt32} (h : s.Follow image none) (himage : image.Prepared data)
    (hsymbols : image.symbols = none) (hplain : image.Plain s.layout)
    (hversion : image.metadata.root.versionBytes.size % 4 = 0)
    (hslots : image.metadata.slots.length < 2 ^ 16) (hsize : s.image.size < 2 ^ 32)
    (hagain : Image.read id s.image = .ok again)
    (hplace : (MethodPlan.ofImage image).rows[p]? = some (.existing rid))
    (hrva : image.metadata.tables.cell .methodDef rid 0 = .ok rva)
    (himpl : image.metadata.tables.cell .methodDef rid 1 = .ok implFlags) :
    ∃ result, (s.layout.newFile image.file s.added s.image).readBody rva implFlags = .ok result := by
  have haddress := h.addressable himage.parsed.file hplain.headers hplain.sections hplain.count hsize
  have hraw := haddress.le_rawSize
  have hlarge := haddress.size
  obtain ⟨-, hstands, -⟩ := h.standsAt_metadata (by omega)
  have hfit := hstands.le_size
  obtain ⟨metadata, hmetadata, -, -, hholds⟩ :=
    h.read_holds himage hsymbols hversion hslots (by omega)
  obtain ⟨hfile, -, -, -, ⟨header, hheader, hcli⟩, ⟨root, hroot, hmetadata'⟩, -, hmethods, -⟩ :=
    read_eq_ok hagain
  -- the header and the metadata that are read are those that have been written
  have hafter := h.eq_newFile haddress hplain.contained hfile
  rw [hafter] at hheader hroot hmethods
  obtain ⟨_, hheader', hcli'⟩ :=
    h.slice_cli himage.parsed haddress hplain.contained hplain.debugApart.header
  obtain rfl := Except.ok.inj (hheader.symm.trans hheader')
  obtain hcli := Except.ok.inj (hcli.symm.trans hcli')
  rw [hcli, h.slice_metadata haddress hplain.contained] at hroot
  obtain rfl := Except.ok.inj hroot
  obtain hmetadata' := Except.ok.inj (hmetadata'.symm.trans hmetadata)
  rw [hmetadata'] at hmethods
  have hp : p < metadata.tables.count .methodDef := by
    rw [hholds.rows.count.2]
    exact (Array.getElem?_eq_some_iff.mp hplace).1
  obtain ⟨m, hm, -⟩ := (readRows_empty hmethods).2 p hp
  simp only [PeFile.readMethod, Result.bind_eq_ok, Result.mapError_eq_ok] at hm
  obtain ⟨_, -, rva', hrva', implFlags', himpl', _, -, _, -, _, -, _, -, _, -, result, hbody, -⟩ := hm
  rw [hholds.rows.old p rid hplace 0 (by decide) rva hrva] at hrva'
  rw [hholds.rows.old p rid hplace 1 (by decide) implFlags himpl] at himpl'
  cases hrva'
  cases himpl'
  exact ⟨result, hbody⟩

end Output

end CliImage
