import CliImage.Proofs.Image.Evaluation
import CliImage.Proofs.Output.Calling
import CliImage.Proofs.Renumber.Fits

/-! The metadata of an output can be written unless a list overruns its column. -/

namespace CliImage

namespace Image

/-- The images that a byte string becomes: it is read, symbols are attached and calls injected. -/
inductive Injected (data : Bytes) : Image → Prop
  | read {id : Nat} {image : Image} (h : Image.read id data = .ok image) : Injected data image
  | attach {before after : Image} {path : String} {pdb : Bytes} (h : Injected data before)
      (hattach : before.attach path pdb = .ok after) : Injected data after
  | inject {before after : Image} {ref : MethodRef} (h : Injected data before)
      (hinject : before.inject ref = .ok after) : Injected data after

variable {data : Bytes} {image : Image}

lemma Injected.prepared (h : image.Injected data) : image.Prepared data := by
  induction h with
  | read h => exact .read h
  | attach _ hattach ih => exact .attach ih hattach
  | inject _ hinject ih => exact ih.inject hinject

/-- What is injected has the flags of an initializer. -/
lemma Injected.flags (h : image.Injected data) {id : Nat} {m : Method}
    (hid : image.metadata.tables.count .methodDef ≤ id) (hm : image.methods[id]? = some m) :
    m.flags = initializerFlags ∧ m.implFlags = 0 := by
  induction h with
  | read h =>
    have := (sizes_of_read h).1
    have := (Array.getElem?_eq_some_iff.mp hm).1
    omega
  | attach _ hattach ih =>
    obtain ⟨symbols, -, rfl⟩ := attach_eq_ok hattach
    exact ih hid hm
  | inject _ hinject ih =>
    obtain ⟨_, _, _, cctor, _, -, -, -, hcctor, hadd⟩ := inject_eq_ok hinject
    obtain ⟨-, -, rfl⟩ := addMethod_eq_ok hadd
    rw [Array.getElem?_push] at hm
    split at hm
    · cases hm
      obtain ⟨-, hflags, himplFlags, -⟩ := initializerCalling_eq_ok hcctor
      exact ⟨hflags, himplFlags⟩
    · exact ih hid hm

end Image

namespace Metadata

variable {m : Metadata} {bit : UInt8}

lemma or_and_ne_zero {x y : UInt8} (h : x &&& bit ≠ 0 ∨ y &&& bit ≠ 0) : (x ||| y) &&& bit ≠ 0 := by
  have hdistrib : (x ||| y) &&& bit = (x &&& bit) ||| (y &&& bit) := UInt8.toNat_inj.mp (by
    simp only [UInt8.toNat_and, UInt8.toNat_or, Nat.and_or_distrib_right])
  rw [hdistrib, Ne, UInt8.or_eq_zero_iff]
  exact fun hzero => h.elim (· hzero.1) (· hzero.2)

lemma heapFlags_and (h : m.tables.heapSizes &&& bit ≠ 0) : m.heapFlags &&& bit ≠ 0 :=
  or_and_ne_zero (.inl (or_and_ne_zero (.inl (or_and_ne_zero (.inl h)))))

lemma largeStrings_widened {external : Option RowCounts} (h : 0xFFFF < m.strings.data.size) :
    (m.widened.tables.widths external).largeStrings = true := by
  refine bne_iff_ne.mpr (or_and_ne_zero (.inl (or_and_ne_zero (.inl (or_and_ne_zero (.inr ?_))))))
  rw [if_pos h]
  decide

lemma largeBlobs_widened {external : Option RowCounts} (h : 0xFFFF < m.blobs.data.size) :
    (m.widened.tables.widths external).largeBlobs = true := by
  refine bne_iff_ne.mpr (or_and_ne_zero (.inr ?_))
  rw [if_pos h]
  decide

/-- Metadata that has as many rows or more has no narrower columns when it is written. -/
lemma le_widened {ts : Tables} (hheap : m.tables.heapSizes = ts.heapSizes)
    (hts : ∀ t, ts.count t < 2 ^ 32) (hm : ∀ t, m.tables.count t < 2 ^ 32)
    (hle : ∀ t, ts.count t ≤ m.tables.count t) :
    (ts.widths none).Le (m.widened.tables.widths none) := by
  have hflag (bit : UInt8) (h : (ts.heapSizes &&& bit != 0) = true) :
      (m.heapFlags &&& bit != 0) = true :=
    bne_iff_ne.mpr (heapFlags_and (hheap ▸ bne_iff_ne.mp h))
  refine Widths.le_of_counts (hflag 0x01) (hflag 0x02) (hflag 0x04) fun t => ?_
  change ts.counts.rows t ≤ m.widened.tables.counts.rows t
  have hwidened : m.widened.tables.count t < 2 ^ 32 := hm t
  rw [Tables.rows_counts (hts t), Tables.rows_counts hwidened]
  exact hle t

/-- Metadata can be written exactly where its cells fit columns as wide as its heaps need. -/
lemma exists_encode_iff : (∃ out, m.encode = .ok out) ↔
    m.widened.tables.Fit (m.widened.tables.widths m.external) := by
  refine Iff.trans ?_ Tables.exists_encode_iff
  constructor
  · rintro ⟨_, h⟩
    obtain ⟨bytes, hbytes, -⟩ := Result.bind_eq_ok.mp h
    exact ⟨bytes, hbytes⟩
  · rintro ⟨bytes, hbytes⟩
    exact ⟨_, Result.bind_eq_ok.mpr ⟨bytes, hbytes, rfl⟩⟩

end Metadata

namespace Output

open MethodPlan Tables

variable {image : Image} {plan : MethodPlan} {w : Widths}

/-- The row of an added method, whose name and signature the heaps hold. -/
def MadeRow (image : Image) (m : Metadata) (id : Nat) (row : Row) : Prop :=
  image.metadata.tables.count .methodDef ≤ id ∧ ∃ method rva name blob,
    image.methods[id]? = some method ∧
    row = #[rva, method.implFlags, method.flags, UInt32.ofNat name, UInt32.ofNat blob, 0] ∧
    name ≤ m.strings.data.size ∧ blob ≤ m.blobs.data.size

lemma MadeRow.mono {m m' : Metadata} {id : Nat} {row : Row} (h : MadeRow image m id row)
    (hstrings : m.strings.data.size ≤ m'.strings.data.size)
    (hblobs : m.blobs.data.size ≤ m'.blobs.data.size) : MadeRow image m' id row := by
  obtain ⟨hid, method, rva, name, blob, hmethod, hrow, hname, hblob⟩ := h
  exact ⟨hid, method, rva, name, blob, hmethod, hrow, hname.trans hstrings, hblob.trans hblobs⟩

lemma addMethod_made {before state : AddedState} {id : Nat}
    (h : addMethod image plan before id = .ok state)
    (hid : image.metadata.tables.count .methodDef ≤ id) :
    before.metadata.strings.data.size ≤ state.metadata.strings.data.size ∧
      before.metadata.blobs.data.size ≤ state.metadata.blobs.data.size ∧
      ∃ row, state.rows = before.rows ++ [(id, row)] ∧ MadeRow image state.metadata id row := by
  unfold addMethod at h
  split at h
  · rename_i method hmethod
    split at h
    · obtain ⟨⟨rva, added⟩, -, h⟩ := Result.bind_eq_ok.mp h
      generalize hname : before.metadata.strings.intern method.name = named at h
      obtain ⟨⟨blobs, blob⟩, hintern, h⟩ := Result.bind_eq_ok.mp h
      cases h
      obtain ⟨strings, hstrings⟩ := Strings.intern_data before.metadata.strings method.name
      obtain ⟨back, hblobs⟩ := Blobs.intern_data hintern
      have hle := Strings.intern_le before.metadata.strings method.name
      rw [hname] at hstrings hle
      refine ⟨?_, ?_, _, rfl, hid, method, rva, _, blob, hmethod, rfl, hle,
        Blobs.intern_le hintern⟩
      · rw [hstrings, Array.size_append]
        exact Nat.le_add_right ..
      · rw [hblobs, Array.size_append]
        exact Nat.le_add_right ..
    · cases h
  · cases h

lemma addMethods_made {ids : List Nat} {before state : AddedState}
    (h : ids.foldlM (addMethod image plan) before = .ok state)
    (hids : ∀ id ∈ ids, image.metadata.tables.count .methodDef ≤ id)
    (hrows : ∀ p ∈ before.rows, MadeRow image before.metadata p.1 p.2) :
    ∀ p ∈ state.rows, MadeRow image state.metadata p.1 p.2 := by
  induction ids generalizing before with
  | nil =>
    cases h
    exact hrows
  | cons id ids ih =>
    obtain ⟨next, hnext, h⟩ := Result.foldlM_cons_eq_ok.mp h
    obtain ⟨hid, hids⟩ := List.forall_mem_cons.mp hids
    obtain ⟨hstrings, hblobs, row, hnew, hmade⟩ := addMethod_made hnext hid
    refine ih h hids fun p hp => ?_
    rw [hnew] at hp
    rcases List.mem_append.mp hp with hp | hp
    · exact (hrows p hp).mono hstrings hblobs
    · rw [List.mem_singleton.mp hp]
      exact hmade

/-- A made row fits where wide heap columns are used for large heaps. -/
lemma MadeRow.fits {m : Metadata} {id : Nat} {row : Row} (h : MadeRow image m id row)
    (hflags : ∀ method, image.methods[id]? = some method →
      method.flags.toNat < 2 ^ 16 ∧ method.implFlags.toNat < 2 ^ 16)
    (hstrings : 0xFFFF < m.strings.data.size → w.largeStrings = true)
    (hblobs : 0xFFFF < m.blobs.data.size → w.largeBlobs = true) :
    w.FitsRow .methodDef row := by
  obtain ⟨-, method, rva, name, blob, hmethod, rfl, hname, hblob⟩ := h
  obtain ⟨hplain, himpl⟩ := hflags method hmethod
  have hindex {n size : Nat} (hle : n ≤ size) (hsmall : ¬ 0xFFFF < size) :
      (UInt32.ofNat n).toNat < 2 ^ 16 := by
    rw [UInt32.toNat_ofNat']
    exact (Nat.mod_le ..).trans_lt (by omega)
  rw [Tables.fitsRow_iff]
  simp only [TableId.columns, List.zip_cons_cons, List.zip_nil_right, List.forall_mem_cons]
  refine ⟨.inl rfl, .inr himpl, .inr hplain, ?_, ?_, Column.fits_zero _, by simp⟩
  · exact (em _).imp hstrings (hindex hname)
  · exact (em _).imp hblobs (hindex hblob)

/-- The plan adds what the image has added. -/
lemma le_of_mem_added (himage : image.Arranged) {id : Nat}
    (h : id ∈ (ofImage image).added.map Prod.snd) :
    image.metadata.tables.count .methodDef ≤ id := by
  rw [map_snd_added, added?_ofImage himage] at h
  obtain ⟨t, -, hmethod⟩ := List.mem_flatMap.mp h
  simpa using (List.mem_filter.mp hmethod).2

lemma followed_of_renumber {metadata after : Metadata} {pdb pdb' : Option Metadata}
    (h : renumber plan metadata pdb = .ok (after, pdb')) :
    ∃ tables, after = { metadata with tables } ∧
      Followed plan.rids.numbers metadata.tables tables := by
  unfold renumber at h
  split at h
  · rename_i hunchanged
    cases h
    have hid : plan.rids.numbers = fun _ => id := by
      funext t r
      rw [RidMap.numbers]
      split
      · exact get_of_isIdentity ((Bool.and_eq_true ..).mp hunchanged).2 r
      · rfl
    exact ⟨metadata.tables, rfl, hid ▸ Followed.refl _⟩
  · obtain ⟨tables, htables, h⟩ := Result.bind_eq_ok.mp h
    refine ⟨tables, ?_, .of_renumbered htables⟩
    cases pdb with
    | none =>
      cases h
      rfl
    | some m =>
      obtain ⟨_, -, h⟩ := Result.bind_eq_ok.mp h
      cases h
      rfl

/-- What arranging makes of the tables. -/
lemma arrange_tables {rows : List (Nat × Row)} {metadata after : Metadata}
    {pdb pdb' : Option Metadata} (h : arrange plan rows metadata pdb = .ok (after, pdb')) :
    ∃ followed applied orders, Followed plan.rids.numbers metadata.tables followed ∧
      plan.apply followed (addedRow rows) = .ok applied ∧
      SortedAs (·.isDebug = false) orders (newNumbers orders) applied after.tables ∧
      after = { metadata with tables := after.tables } := by
  obtain ⟨⟨renumbered, _⟩, hrenumber, h⟩ := Result.bind_eq_ok.mp h
  obtain ⟨applied, happly, h⟩ := Result.bind_eq_ok.mp h
  obtain ⟨pair, hsorted, h⟩ := Result.bind_eq_ok.mp h
  cases h
  obtain ⟨followed, rfl, hfollowed⟩ := followed_of_renumber hrenumber
  obtain ⟨orders, hsorted, -⟩ := TablePair.sorted_sortedAs hsorted
  exact ⟨followed, applied, orders, hfollowed, happly, hsorted, rfl⟩

/-- Tables on their way to the output, with columns as wide as they are written: renumbered, with
their planned rows, sorted. -/
structure Passes (image : Image) (rows : List (Nat × Row)) (w : Widths)
    (followed applied after : Tables) (orders : TableId → List Nat) : Prop where
  formed : followed.Formed
  count : ∀ t, followed.count t = image.metadata.tables.count t
  fit : followed.Fit w
  apply : (ofImage image).apply followed (addedRow rows) = .ok applied
  made : ∀ id row, addedRow rows id = .ok row →
    row.size = TableId.methodDef.columns.length ∧ w.FitsRow .methodDef row
  sorted : SortedAs (·.isDebug = false) orders (newNumbers orders) applied after
  counts : ∀ t, w.counts.rows t = applied.count t

/-- All cells fit in the end exactly where no list overruns its column. -/
lemma Passes.fit_iff {rows : List (Nat × Row)} {followed applied after : Tables}
    {orders : TableId → List Nat} (h : Passes image rows w followed applied after orders)
    (himage : image.Arranged) :
    after.Fit w ↔ ¬ (ofImage image).Overruns image.metadata.tables := by
  have hover : (ofImage image).Overruns followed ↔
      (ofImage image).Overruns image.metadata.tables := by
    rw [Overruns, Overruns, h.count]
  rw [← hover]
  constructor
  · intro hall hoverrun
    obtain ⟨t, s, hkey, hcolumn, hfull, row, hrow, hcell⟩ := exists_overrun h.formed
      (by rw [h.count, himage.size_types]) h.apply (fun id row hrow => (h.made id row hrow).1) hoverrun
    exact not_fit_of_overrun h.sorted hkey hcolumn (by rw [h.counts, hfull]) hrow hcell hall
  · intro hnot
    have hcount := count_of_apply h.apply
    refine Fit.sorted (fit_of_apply h.fit h.apply (fun id row hrow => (h.made id row hrow).2) ?_ ?_
      hnot) h.sorted h.counts
    · rw [h.counts, hcount, if_pos rfl]
    · rw [h.counts, hcount, if_neg (by decide)]

section Arrange

variable {data : Bytes} {added : MetaSection} {s : AddedState} {after : Metadata}
  {pdb pdb' : Option Metadata}

lemma mem_of_addedRow {rows : List (Nat × Row)} {id : Nat} {row : Row}
    (h : addedRow rows id = .ok row) : (id, row) ∈ rows := by
  unfold addedRow at h
  split at h
  · rename_i hfound
    cases h
    obtain ⟨front, back, rfl, -⟩ := List.lookup_eq_some_iff.mp hfound
    exact List.mem_append_right _ (List.mem_cons_self ..)
  · cases h

/-- Arranging takes the tables of an image through these passes. -/
lemma exists_passes (h : image.Injected data) (hfit : (ofImage image).rows.size < 2 ^ 32)
    (hmade : ((ofImage image).added.map Prod.snd).foldlM (addMethod image (ofImage image))
      ⟨added, image.metadata, []⟩ = .ok s)
    (harranged : arrange (ofImage image) s.rows s.metadata pdb = .ok (after, pdb')) :
    after.external = none ∧ ∃ followed applied orders, Passes image s.rows
      (after.widened.tables.widths none) followed applied after.tables orders := by
  have himage := h.prepared.arranged
  have hopens := h.prepared.parsed.opens
  obtain ⟨_, -, hread⟩ := hopens.metadata
  obtain ⟨hformed, hcount, -⟩ := Metadata.formed_of_read hread
  have hpdb : image.metadata.pdb = none := by simpa [Metadata.isPdb] using hopens.notPdb
  obtain ⟨_, -, htables⟩ := Metadata.tables_of_read hread
  rw [Metadata.external, hpdb, Option.map_none] at htables
  obtain ⟨hedited, hsame, hwidth⟩ := addMethods_eq_ok hmade (by simp)
  have hrows := addMethods_made hmade (fun id hid => le_of_mem_added himage hid) (by simp)
  obtain ⟨followed, applied, orders, hfollowed, happly, hsorted, hafter⟩ := arrange_tables harranged
  rw [hsame] at hfollowed
  -- as many rows as there were, but for the methods
  have happlied (t : TableId) : applied.count t =
      if t = .methodDef then (ofImage image).rows.size else image.metadata.tables.count t := by
    rw [count_of_apply happly, hfollowed.count]
  have hsmall (t : TableId) : after.tables.count t < 2 ^ 32 := by
    rw [hsorted.count, happlied]
    split
    · exact hfit
    · exact hcount t
  have hcounts (t : TableId) :
      (after.widened.tables.widths none).counts.rows t = applied.count t := by
    rw [← hsorted.count]
    have hwidened : after.widened.tables.count t < 2 ^ 32 := hsmall t
    exact Tables.rows_counts hwidened
  have hheap : after.tables.heapSizes = image.metadata.tables.heapSizes := by
    obtain ⟨_, _, rfl⟩ := apply_eq_ok happly
    rw [hsorted.header, hfollowed.header]
    rfl
  have hle := Metadata.le_widened hheap hcount hsmall fun t => by
    rw [hsorted.count, happlied]
    split
    · rename_i ht
      exact ht ▸ count_le_rows himage
    · exact le_rfl
  refine ⟨by rw [Metadata.external, hafter, hedited.pdb_eq, hpdb, Option.map_none],
    followed, applied, orders, ?_, hfollowed.count, ?_, happly, fun id row hrow => ?_, hsorted,
    hcounts⟩
  · refine hformed.tables.of_header hfollowed.header fun t row hrow => ?_
    rw [hfollowed.table] at hrow
    obtain ⟨old, hold, rfl⟩ := Array.mem_map.mp hrow
    rw [size_followRow]
    exact hformed.tables.width t old hold
  · exact Fit.followed (fun t row hrow => (fitsRow_of_read htables t row hrow).mono hle) hfollowed
      (rids_within himage hfit (by rw [hcounts, happlied, if_pos rfl]))
  · have hmem := mem_of_addedRow hrow
    have hrow := hrows _ hmem
    refine ⟨hwidth _ hmem, hrow.fits (fun method hmethod => ?_) (fun hlarge => ?_) fun hlarge => ?_⟩
    · obtain ⟨hflags, himpl⟩ := h.flags hrow.1 hmethod
      rw [hflags, himpl]
      decide
    · exact Metadata.largeStrings_widened (by rwa [hafter])
    · exact Metadata.largeBlobs_widened (by rwa [hafter])

/-- The metadata of an image whose methods have been arranged can be written exactly where no list
overruns its column. -/
theorem exists_encode_arrange_iff (h : image.Injected data)
    (hfit : (ofImage image).rows.size < 2 ^ 32)
    (hmade : ((ofImage image).added.map Prod.snd).foldlM (addMethod image (ofImage image))
      ⟨added, image.metadata, []⟩ = .ok s)
    (harranged : arrange (ofImage image) s.rows s.metadata pdb = .ok (after, pdb')) :
    (∃ out, after.encode = .ok out) ↔ ¬ (ofImage image).Overruns image.metadata.tables := by
  obtain ⟨hexternal, _, _, _, hpasses⟩ := exists_passes h hfit hmade harranged
  rw [Metadata.exists_encode_iff, hexternal]
  exact hpasses.fit_iff h.prepared.arranged

/-- An image whose module type has one method and is followed by a type without. -/
def modular : Bytes := #[
  77, 90, 0, 0, 0, 0, 0, 0, 0, 0, 0, 0, 0, 0, 0, 0, 0, 0, 0, 0, 0, 0, 0, 0, 0, 0, 0, 0, 0, 0, 0, 0,
  0, 0, 0, 0, 0, 0, 0, 0, 0, 0, 0, 0, 0, 0, 0, 0, 0, 0, 0, 0, 0, 0, 0, 0, 0, 0, 0, 0, 64, 0, 0, 0,
  80, 69, 0, 0, 76, 1, 1, 0, 0, 0, 0, 0, 0, 0, 0, 0, 0, 0, 0, 0, 216, 0, 2, 33, 11, 1, 0, 0, 0, 0,
  0, 0, 0, 0, 0, 0, 0, 0, 0, 0, 0, 0, 0, 0, 0, 0, 0, 0, 0, 0, 0, 0, 0, 0, 0, 0, 0, 16, 0, 0, 8, 0,
  0, 0, 0, 0, 0, 0, 0, 0, 0, 0, 0, 0, 0, 0, 0, 0, 0, 0, 0, 0, 0, 0, 88, 1, 0, 0, 0, 0, 0, 0, 0, 0,
  0, 0, 0, 0, 0, 0, 0, 0, 0, 0, 0, 0, 0, 0, 0, 0, 0, 0, 0, 0, 0, 0, 15, 0, 0, 0, 0, 0, 0, 0, 0, 0,
  0, 0, 0, 0, 0, 0, 0, 0, 0, 0, 0, 0, 0, 0, 0, 0, 0, 0, 0, 0, 0, 0, 0, 0, 0, 0, 0, 0, 0, 0, 0, 0,
  0, 0, 0, 0, 0, 0, 0, 0, 0, 0, 0, 0, 0, 0, 0, 0, 0, 0, 0, 0, 0, 0, 0, 0, 0, 0, 0, 0, 0, 0, 0, 0,
  0, 0, 0, 0, 0, 0, 0, 0, 0, 0, 0, 0, 0, 0, 0, 0, 0, 0, 0, 0, 0, 0, 0, 0, 0, 0, 0, 0, 0, 0, 0, 0,
  0, 0, 0, 0, 0, 0, 0, 0, 0, 0, 0, 16, 0, 0, 72, 0, 0, 0, 46, 116, 101, 120, 116, 0, 0, 0, 244, 0,
  0, 0, 0, 16, 0, 0, 244, 0, 0, 0, 88, 1, 0, 0, 0, 0, 0, 0, 0, 0, 0, 0, 0, 0, 0, 0, 32, 0, 0, 96,
  72, 0, 0, 0, 2, 0, 5, 0, 72, 16, 0, 0, 172, 0, 0, 0, 1, 0, 0, 0, 0, 0, 0, 0, 0, 0, 0, 0, 0, 0, 0,
  0, 0, 0, 0, 0, 0, 0, 0, 0, 0, 0, 0, 0, 0, 0, 0, 0, 0, 0, 0, 0, 0, 0, 0, 0, 0, 0, 0, 0, 0, 0, 0,
  0, 0, 0, 0, 0, 0, 0, 0, 0, 66, 83, 74, 66, 1, 0, 1, 0, 0, 0, 0, 0, 4, 0, 0, 0, 118, 52, 0, 0, 0,
  0, 3, 0, 72, 0, 0, 0, 76, 0, 0, 0, 35, 126, 0, 0, 148, 0, 0, 0, 16, 0, 0, 0, 35, 83, 116, 114,
  105, 110, 103, 115, 0, 0, 0, 0, 164, 0, 0, 0, 8, 0, 0, 0, 35, 66, 108, 111, 98, 0, 0, 0, 0, 0, 0,
  0, 2, 0, 0, 1, 68, 0, 0, 0, 0, 0, 0, 0, 0, 0, 0, 0, 0, 0, 0, 0, 2, 0, 0, 0, 1, 0, 0, 0, 0, 0, 0,
  0, 1, 0, 0, 0, 0, 0, 1, 0, 1, 0, 1, 0, 0, 0, 10, 0, 0, 0, 0, 0, 1, 0, 2, 0, 0, 0, 0, 0, 0, 0, 22,
  0, 12, 0, 1, 0, 1, 0, 0, 0, 0, 60, 77, 111, 100, 117, 108, 101, 62, 0, 66, 0, 77, 0, 0, 0, 0, 3,
  0, 0, 1, 0, 0, 0]

/-- The image before any call has been injected. -/
structure IsModular (image : Image) (main other : TypeDef) (m : Method) : Prop where
  read : Image.read 0 modular = .ok image
  id : image.id = 0
  types : image.types.toList = [main, other]
  main : main.methods = #[0]
  other : other.methods = #[]
  moduleType : image.moduleType?.isSome
  methods : image.methods.toList = [m]
  rid : m.rid = some 1
  firstOld : image.firstOld 0 = 1
  count : image.metadata.tables.count .methodDef = 1
  count_param : image.metadata.tables.count .param = 0
  sorted : image.metadata.tables.sorted = 0
  renumbered : ∃ ts, image.metadata.tables.renumbered ⟨.methodDef, #[1]⟩ = .ok ts
  layout : ∃ layout, LayoutPlan.ofFile image.file = .ok layout ∧ layout.sectionRva = 0x2000

lemma exists_isModular : ∃ image main other m, IsModular image main other m := by
  obtain ⟨image, hread, htest⟩ := Result.exists_of_holds (x := Image.read 0 modular)
    (p := fun image => decide (image.id = 0 ∧ image.types.toList.map TypeDef.methods = [#[0], #[]] ∧
      image.moduleType?.isSome ∧ image.methods.toList.map Method.rid = [some 1] ∧
      image.firstOld 0 = 1 ∧ image.metadata.tables.count .methodDef = 1 ∧
      image.metadata.tables.count .param = 0 ∧ image.metadata.tables.sorted = 0) &&
      Result.holds (image.metadata.tables.renumbered ⟨.methodDef, #[1]⟩) (fun _ => true) &&
      Result.holds (LayoutPlan.ofFile image.file) fun layout => layout.sectionRva = 0x2000)
    (by
      rw [Image.readByTails.2]
      decide +kernel)
  simp only [Bool.and_eq_true, decide_eq_true_eq] at htest
  obtain ⟨⟨⟨hid, htypes, hmodule, hmethods, hfirst, hcount, hparam, hsorted⟩, hrenumbered⟩, hlayout⟩ :=
    htest
  obtain ⟨main, _, htypes', hmain, hrest⟩ := List.map_eq_cons_iff.mp htypes
  obtain ⟨other, _, rfl, hother, hnil⟩ := List.map_eq_cons_iff.mp hrest
  obtain rfl := List.map_eq_nil_iff.mp hnil
  obtain ⟨m, _, hmethods', hm, hnil⟩ := List.map_eq_cons_iff.mp hmethods
  obtain rfl := List.map_eq_nil_iff.mp hnil
  obtain ⟨ts, hts, -⟩ := Result.exists_of_holds hrenumbered
  obtain ⟨layout, hlayout, hrva⟩ := Result.exists_of_holds hlayout
  exact ⟨image, main, other, m, hread, hid, htypes', hmain, hother, hmodule, hmethods', hm, hfirst,
    hcount, hparam, hsorted, ⟨ts, hts⟩, layout, hlayout, of_decide_eq_true hrva⟩

variable {main other : TypeDef} {m cctor : Method} {k : Nat}

lemma IsModular.injected (h : IsModular image main other m)
    (hcctor : Image.initializerCalling (Token.ofRow .methodDef 1) = .ok cctor) :
    (image.calling cctor k).Injected modular := by
  induction k with
  | zero =>
    rw [Image.calling_zero]
    exact .read h.read
  | succ k ih =>
    let ref : MethodRef := ⟨0, 0, "<Module>", "M"⟩
    have hown : image.owns ref = true := by
      rw [Image.owns, h.id]
      rfl
    have hm : image.methods[ref.method]? = some m := by
      rw [← Array.getElem?_toList, h.methods]
      rfl
    exact .inject ih (Image.inject_calling h.moduleType hown hm h.rid hcctor k)

lemma IsModular.planned (h : IsModular image main other m) (hcctor : cctor.rid = none) :
    (image.calling cctor k).planned 0 = .existing 1 ∧
      ∀ j, 1 ≤ j → (image.calling cctor k).planned j = .added j := by
  have hm : image.methods = #[m] := Array.toList_inj.mp h.methods
  constructor
  · rw [Image.planned, Image.calling, hm, Array.getElem?_append_left (by simp)]
    simp [h.rid]
  · intro j hj
    rw [Image.planned, Image.calling, Array.getElem?_append_right (by simpa [hm] using hj),
      Array.getElem?_replicate]
    split_ifs <;> simp_all

/-- The injected calls stand between the image's method and the end of the list of its last type. -/
lemma IsModular.rows_plan (h : IsModular image main other m)
    (himage : (image.calling cctor k).Arranged) (hcctor : cctor.rid = none) :
    (ofImage (image.calling cctor k)).rows.toList =
        .existing 1 :: (List.range' 1 k).map .added ∧
      (ofImage (image.calling cctor k)).firstRows.toList = [1, UInt32.ofNat (k + 2)] ∧
      (ofImage (image.calling cctor k)).rids = ⟨.methodDef, #[1]⟩ := by
  have hfirst : (image.calling cctor k).firstOld 0 = 1 := h.firstOld
  have hsize : image.methods.size = 1 := by rw [← Array.length_toList, h.methods, List.length_singleton]
  obtain ⟨hrows, hfirstRows⟩ := ofImage_rows himage fun _ => .inl hfirst
  obtain ⟨hold, hadded⟩ := h.planned (k := k) hcctor
  have htypes : (image.calling cctor k).types.toList.map (image.calling cctor k).plannedOf =
      [.existing 1 :: (List.range' 1 k).map .added, []] := by
    have hcalls : (List.range' 1 k).map (image.calling cctor k).planned =
        (List.range' 1 k).map .added :=
      List.map_congr_left fun j hj => hadded j (List.mem_range'_1.mp hj).1
    have htypes : (image.calling cctor k).types.toList =
        [{ main with methods := main.methods ++ (List.range' 1 k).toArray }, other] := by
      rw [Image.calling, Array.toList_modify, h.types, hsize]
      rfl
    rw [htypes]
    simp only [List.map_cons, List.map_nil, Image.plannedOf, h.main, h.other, Array.toList_append,
      hcalls, hold, List.singleton_append]
  rw [hfirst, htypes] at hrows hfirstRows
  have hrows : (ofImage (image.calling cctor k)).rows.toList =
      .existing 1 :: (List.range' 1 k).map .added := by simpa using hrows
  have hlength : (PlannedMethod.existing 1 :: (List.range' 1 k).map .added).length = k + 1 := by simp
  refine ⟨hrows, ?_, ?_⟩
  · rw [hfirstRows, starts, starts, starts, hlength, Nat.sub_self, Nat.zero_add, Nat.zero_add]
    rfl
  obtain ⟨-, htable, hsize, htargets⟩ := ofImage_olds himage
  have htarget := htargets 0 1 (by rw [← Array.getElem?_toList, hrows]; rfl)
  generalize (ofImage (image.calling cctor k)).rids = rids at *
  obtain ⟨table, targets⟩ := rids
  obtain rfl : table = .methodDef := htable
  have htargets : targets = #[1] := by
    refine Array.ext_getElem? fun i => ?_
    cases i with
    | zero => exact htarget
    | succ i =>
      have hone : targets.size = 1 := hsize.trans h.count
      rw [Array.getElem?_eq_none (by omega), Array.getElem?_eq_none (by simp)]
  rw [htargets]

/-- However many calls are injected, there is room for them and their rows can be arranged. -/
lemma exists_arrange_modular (hk : k < 2 ^ 16) : ∃ image layout s after,
    image.Injected modular ∧ (ofImage image).rows.size = k + 1 ∧
    (ofImage image).firstRows.toList = [1, UInt32.ofNat (k + 2)] ∧
    image.metadata.tables.count .param = 0 ∧ LayoutPlan.ofFile image.file = .ok layout ∧
    ((ofImage image).added.map Prod.snd).foldlM (addMethod image (ofImage image))
      ⟨⟨layout.sectionRva, #[]⟩, image.metadata, []⟩ = .ok s ∧
    arrange (ofImage image) s.rows s.metadata none = .ok (after, none) := by
  obtain ⟨base, main, other, m, h⟩ := exists_isModular
  obtain ⟨cctor, hcctor, htest⟩ := Result.exists_of_holds
    (x := Image.initializerCalling (Token.ofRow .methodDef 1))
    (p := fun cctor => cctor.encodedBody.any fun encoded => cctor.encodedSignature.any fun signature =>
      signature.size < 0x80 && Result.holds (RidMap.body ⟨.methodDef, #[1]⟩ cctor encoded)
        fun body => body.size ≤ 7) (by decide +kernel)
  obtain ⟨encoded, hencoded, htest⟩ := (Option.any_eq_true ..).mp htest
  obtain ⟨signature, hsignature, htest⟩ := (Option.any_eq_true ..).mp htest
  obtain ⟨hshort, htest⟩ := (Bool.and_eq_true ..).mp htest
  obtain ⟨body, hbody, hsize⟩ := Result.exists_of_holds htest
  have hinjected := h.injected (k := k) hcctor
  have himage := hinjected.prepared.arranged
  obtain ⟨hrows, hfirstRows, hrids⟩ := h.rows_plan himage (Image.initializerCalling_eq_ok hcctor).1
  have hids : ((ofImage (base.calling cctor k)).added.map Prod.snd) = List.range' 1 k := by
    rw [map_snd_added, hrows, List.filterMap_cons, List.filterMap_map]
    exact List.filterMap_some
  have haddable : ∀ id ∈ List.range' 1 k,
      Addable (base.calling cctor k) (ofImage (base.calling cctor k)) 7 id := by
    intro id hid
    have hid := List.mem_range'_1.mp hid
    have hsize' : base.methods.size = 1 := by
      rw [← Array.length_toList, h.methods, List.length_singleton]
    refine ⟨cctor, encoded, body, signature, ?_, hencoded, by rw [hrids]; exact hbody,
      of_decide_eq_true hsize, hsignature, of_decide_eq_true hshort⟩
    rw [Image.calling, Array.getElem?_append_right (by omega), Array.getElem?_replicate,
      if_pos (by omega)]
  obtain ⟨layout, hlayout, hrva⟩ := h.layout
  let start : AddedState := ⟨⟨layout.sectionRva, #[]⟩, base.metadata, []⟩
  have hroom : start.added.rva.toNat + start.added.data.size +
      (7 + 3) * (List.range' 1 k).length < 2 ^ 32 := by
    rw [List.length_range', show start.added = ⟨0x2000, #[]⟩ from by rw [← hrva]]
    change 0x2000 + 0 + 10 * k < 2 ^ 32
    omega
  obtain ⟨s, hmade, hids'⟩ := exists_addMethods haddable hroom
  obtain ⟨-, hsame, -⟩ := addMethods_eq_ok hmade (by simp [start])
  obtain ⟨ts, hts⟩ := h.renumbered
  have hunsorted : ∀ t, s.metadata.tables.isSorted t = false := by
    intro t
    rw [Tables.isSorted, hsame, h.sorted]
    exact Nat.zero_testBit _
  obtain ⟨after, hafter⟩ := exists_arrange himage hsame (by rw [hrids, hsame, hts]) hunsorted
    (hids'.trans hids.symm)
  refine ⟨base.calling cctor k, layout, s, after, hinjected, ?_, hfirstRows, h.count_param, hlayout,
    by rw [hids]; exact hmade, hafter⟩
  rw [← Array.length_toList, hrows, List.length_cons, List.length_map, List.length_range']

/-- One call can be injected and written. -/
theorem exists_encode_arrange_modular : ∃ image layout s after,
    image.Injected modular ∧ (ofImage image).rows.size < 2 ^ 32 ∧
    LayoutPlan.ofFile image.file = .ok layout ∧
    ((ofImage image).added.map Prod.snd).foldlM (addMethod image (ofImage image))
      ⟨⟨layout.sectionRva, #[]⟩, image.metadata, []⟩ = .ok s ∧
    arrange (ofImage image) s.rows s.metadata none = .ok (after, none) ∧
    ¬ (ofImage image).Overruns image.metadata.tables ∧ ∃ out, after.encode = .ok out := by
  obtain ⟨image, layout, s, after, hinjected, hsize, hfirst, hparam, hlayout, hmade, harranged⟩ :=
    exists_arrange_modular (k := 1) (by decide)
  have hnot : ¬ (ofImage image).Overruns image.metadata.tables := by
    rintro (⟨hfull, -⟩ | ⟨hfull, -⟩) <;> omega
  exact ⟨image, layout, s, after, hinjected, by omega, hlayout, hmade, harranged, hnot,
    (exists_encode_arrange_iff hinjected (by omega) hmade harranged).mpr hnot⟩

/-- Once 65534 calls have been injected the list of the last type does not fit. -/
theorem not_encode_arrange_modular : ∃ image layout s after,
    image.Injected modular ∧ (ofImage image).rows.size = 0xFFFF ∧
    LayoutPlan.ofFile image.file = .ok layout ∧
    ((ofImage image).added.map Prod.snd).foldlM (addMethod image (ofImage image))
      ⟨⟨layout.sectionRva, #[]⟩, image.metadata, []⟩ = .ok s ∧
    arrange (ofImage image) s.rows s.metadata none = .ok (after, none) ∧
    ∀ out, after.encode ≠ .ok out := by
  obtain ⟨image, layout, s, after, hinjected, hsize, hfirst, hparam, hlayout, hmade, harranged⟩ :=
    exists_arrange_modular (k := 0xFFFE) (by decide)
  refine ⟨image, layout, s, after, hinjected, hsize, hlayout, hmade, harranged, fun out hout => ?_⟩
  obtain ⟨hexternal, _, _, _, hpasses⟩ := exists_passes hinjected (by omega) hmade harranged
  have hfit := Metadata.exists_encode_iff.mp ⟨out, hout⟩
  rw [hexternal] at hfit
  refine (hpasses.fit_iff hinjected.prepared.arranged).mp hfit (.inl ⟨hsize, ?_⟩)
  rw [← Array.mem_toList_iff, hfirst]
  exact List.mem_cons_of_mem _ (List.mem_singleton_self _)

end Arrange

end Output

end CliImage
