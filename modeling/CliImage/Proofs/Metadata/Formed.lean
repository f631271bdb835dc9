import CliImage.Proofs.Metadata.Slots
import CliImage.Proofs.Root
import CliImage.Proofs.Table.Store

/-! What holds of metadata that has been read, and of what it becomes as names and blobs are interned
and rows are added or changed. -/

namespace CliImage.Metadata

open StreamSlot

variable {data : Bytes}

/-- Metadata whose parts are such as its streams can hold. -/
structure Formed (m : Metadata) : Prop where
  ordered : Ordered m.slots
  tables_mem : .tables ∈ m.slots
  strings_mem : .strings ∈ m.slots
  blobs_mem : .blobs ∈ m.slots
  names : ∀ slot ∈ m.slots, IsStreamName slot.name
  tables : m.tables.Formed
  strings_zero : m.strings.data[0]? = some 0
  blobs_zero : m.blobs.data[0]? = some 0
  guids_mod : m.guids.data.size % 16 = 0
  guids_empty : .guids ∉ m.slots → m.guids = Guids.empty
  pdb_mem : m.pdb.isSome ↔ .pdb ∈ m.slots
  pdb : ∀ header, m.pdb = some header → header.Formed

lemma foldlM_place_matches {external : Option RowCounts} {headers : List StreamHeader}
    {found found' : Found} (hfound : found.Matches)
    (h : headers.foldlM (place data external) found = .ok found') :
    found'.Matches ∧ found'.slots.toList.map StreamSlot.name =
      found.slots.toList.map StreamSlot.name ++ headers.map StreamHeader.name := by
  induction headers generalizing found with
  | nil =>
    cases h
    exact ⟨hfound, by simp⟩
  | cons header headers ih =>
    obtain ⟨between, hplace, h⟩ := Result.foldlM_cons_eq_ok.mp h
    obtain ⟨hmatches, slot, hname, hslots⟩ := place_matches hfound hplace
    obtain ⟨hmatches', hslots'⟩ := ih hmatches h
    refine ⟨hmatches', ?_⟩
    rw [hslots', hslots, List.map_append, List.map_cons, List.map_cons, hname, List.map_nil,
      List.append_assoc, List.singleton_append]

lemma isStreamName_strings : IsStreamName StreamSlot.strings.name := by
  unfold IsStreamName
  decide +kernel

lemma isStreamName_blobs : IsStreamName StreamSlot.blobs.name := by
  unfold IsStreamName
  decide +kernel

/-- The heaps of names and blobs that no stream held stand behind the streams. -/
def missing (found : Found) : List StreamSlot :=
  (if found.strings.isNone then [.strings] else []) ++ if found.blobs.isNone then [.blobs] else []

lemma mem_missing {found : Found} {slot : StreamSlot} : slot ∈ missing found ↔
    slot = .strings ∧ found.strings = none ∨ slot = .blobs ∧ found.blobs = none := by
  rw [missing, List.mem_append]
  cases found.strings <;> cases found.blobs <;> simp

lemma ordered_missing {found : Found} (h : found.Matches) :
    Ordered (found.slots.toList ++ missing found) := by
  have hstrings := h.seen .strings (by simp)
  have hblobs := h.seen .blobs (by simp)
  have hfirst : Ordered (found.slots.toList ++
      if found.strings.isNone then [.strings] else []) := by
    cases hnone : found.strings with
    | none => exact h.ordered.concat fun hmem => by simp [← hstrings, Found.seen, hnone] at hmem
    | some heap => simpa using h.ordered
  rw [missing, ← List.append_assoc]
  cases hnone : found.blobs with
  | none =>
    refine hfirst.concat fun hmem => ?_
    rcases List.mem_append.mp hmem with hmem | hmem
    · simp [← hblobs, Found.seen, hnone] at hmem
    · split at hmem <;> simp at hmem
  | some heap => simpa using hfirst

/-- Once the streams are placed, what is left of reading fails only without a table stream. -/
lemma finish_eq_ok {root : Root} {m : Metadata} (pdb : Option PdbHeader) (h : (do
      let found ← root.streams.foldlM (place data (pdb.map PdbHeader.rows))
        ⟨none, none, none, none, false, #[]⟩
      let some tables := found.tables | throw (.fault .noTableStream)
      .ok ⟨root, found.strings.getD Strings.empty, found.blobs.getD Blobs.empty,
        found.guids.getD Guids.empty, tables, pdb,
        found.slots.toList ++ (if found.strings.isNone then [.strings] else [])
          ++ (if found.blobs.isNone then [.blobs] else [])⟩ : Result Metadata) = .ok m) : ∃ found,
    root.streams.foldlM (place data (pdb.map PdbHeader.rows))
      ⟨none, none, none, none, false, #[]⟩ = .ok found ∧ ∃ tables, found.tables = some tables ∧
      m = ⟨root, found.strings.getD Strings.empty, found.blobs.getD Blobs.empty,
        found.guids.getD Guids.empty, tables, pdb, found.slots.toList ++ missing found⟩ := by
  obtain ⟨found, hfound, h⟩ := Result.bind_eq_ok.mp h
  refine ⟨found, hfound, ?_⟩
  cases htables : found.tables with
  | none => simp [htables] at h
  | some tables =>
    rw [htables] at h
    cases h
    exact ⟨tables, rfl, by rw [missing, List.append_assoc]⟩

/-- The parts that metadata is read from. -/
lemma read_eq_ok {m : Metadata} (h : read data = .ok m) : ∃ found,
    Root.read data = .ok m.root ∧
      (match m.root.streams.find? (·.name == "#Pdb") with
        | some header => ∃ pdb, PdbHeader.read (streamData data header) = .ok pdb ∧
          m.pdb = some pdb
        | none => m.pdb = none) ∧
      m.root.streams.foldlM (place data (m.pdb.map PdbHeader.rows))
        ⟨none, none, none, none, false, #[]⟩ = .ok found ∧
      found.tables = some m.tables ∧ m.slots = found.slots.toList ++ missing found ∧
      m.strings = found.strings.getD Strings.empty ∧ m.blobs = found.blobs.getD Blobs.empty ∧
      m.guids = found.guids.getD Guids.empty := by
  obtain ⟨root, hroot, h⟩ := Result.bind_eq_ok.mp h
  cases hheader : root.streams.find? (·.name == "#Pdb") with
  | none =>
    simp only [hheader, Result.pure_eq, Result.ok_bind] at h
    obtain ⟨found, hfound, tables, htables, rfl⟩ := finish_eq_ok none h
    exact ⟨found, hroot, by simp [hheader], hfound, htables, rfl, rfl, rfl, rfl⟩
  | some header =>
    simp only [hheader] at h
    obtain ⟨_, hpdb, h⟩ := Result.bind_eq_ok.mp h
    obtain ⟨pdb, hread, rfl⟩ := Result.map_eq_ok.mp hpdb
    obtain ⟨found, hfound, tables, htables, rfl⟩ := finish_eq_ok (some pdb) h
    refine ⟨found, hroot, ?_, hfound, htables, rfl, rfl, rfl, rfl⟩
    rw [hheader]
    exact ⟨pdb, hread, rfl⟩

/-- Metadata is put together from its parts. -/
lemma read_of_found {root : Root} {pdb : Option PdbHeader} {found : Found} {tables : Tables}
    (hroot : Root.read data = .ok root)
    (hpdb : match root.streams.find? (·.name == "#Pdb") with
      | some header => ∃ p, PdbHeader.read (streamData data header) = .ok p ∧ pdb = some p
      | none => pdb = none)
    (hfound : root.streams.foldlM (place data (pdb.map PdbHeader.rows))
      ⟨none, none, none, none, false, #[]⟩ = .ok found)
    (htables : found.tables = some tables) :
    read data = .ok ⟨root, found.strings.getD Strings.empty, found.blobs.getD Blobs.empty,
      found.guids.getD Guids.empty, tables, pdb, found.slots.toList ++ missing found⟩ := by
  unfold read
  rw [hroot, Result.ok_bind, missing, ← List.append_assoc]
  cases hheader : root.streams.find? (·.name == "#Pdb") with
  | none =>
    rw [hheader] at hpdb
    subst hpdb
    simp only [Result.pure_eq, Result.ok_bind, hfound, htables]
  | some header =>
    rw [hheader] at hpdb
    obtain ⟨p, hread, rfl⟩ := hpdb
    simp only [Result.map_eq_ok.mpr ⟨p, hread, rfl⟩, Result.ok_bind, hfound, htables]

lemma pdb_isSome_of_read {m : Metadata} (h : read data = .ok m) :
    m.pdb.isSome ↔ "#Pdb" ∈ m.root.streams.map StreamHeader.name := by
  obtain ⟨_, _, hpdb, _⟩ := read_eq_ok h
  have hfind : (m.root.streams.find? (·.name == "#Pdb")).isSome ↔
      "#Pdb" ∈ m.root.streams.map StreamHeader.name := by
    simp [List.find?_isSome]
  rw [← hfind]
  cases hheader : m.root.streams.find? (·.name == "#Pdb") with
  | none =>
    rw [hheader] at hpdb
    simp [hpdb]
  | some header =>
    rw [hheader] at hpdb
    obtain ⟨pdb, -, heq⟩ := hpdb
    simp [heq]

lemma pdb_formed_of_read {m : Metadata} (h : read data = .ok m) {header : PdbHeader}
    (hpdb : m.pdb = some header) : header.Formed := by
  obtain ⟨_, _, hread, _⟩ := read_eq_ok h
  split at hread
  · obtain ⟨pdb, hread, heq⟩ := hread
    rw [heq] at hpdb
    cases hpdb
    exact PdbHeader.formed_of_read hread
  · rw [hread] at hpdb
    cases hpdb

/-- Metadata that has been read is formed, and it has the streams that its root lists. -/
theorem formed_of_read {m : Metadata} (h : read data = .ok m) :
    m.Formed ∧ (∀ t, m.tables.count t < 2 ^ 32) ∧ ∃ found, m.slots.map StreamSlot.name =
      m.root.streams.map StreamHeader.name ++ (missing found).map StreamSlot.name := by
  obtain ⟨found, hroot, -, hfound, htables, hslots, hstrings, hblobs, hguids⟩ := read_eq_ok h
  obtain ⟨hmatches, hnames⟩ := foldlM_place_matches Found.matches_nil hfound
  have hnames : found.slots.toList.map StreamSlot.name =
      m.root.streams.map StreamHeader.name := by simpa using hnames
  have hseen := fun slot hslot => hmatches.seen slot hslot
  have hordered : Ordered m.slots := hslots ▸ ordered_missing hmatches
  have hmem {slot : StreamSlot} : slot ∈ m.slots ↔
      slot ∈ found.slots.toList ∨ slot ∈ missing found := by rw [hslots, List.mem_append]
  refine ⟨⟨hordered, ?_, ?_, ?_, ?_, (hmatches.tables_formed _ htables).1, ?_, ?_, ?_, ?_, ?_,
    fun _ => pdb_formed_of_read h⟩, (hmatches.tables_formed _ htables).2, found, ?_⟩
  · exact hmem.mpr (.inl ((hseen .tables (by simp)).mp (by simp [Found.seen, htables])))
  · cases hnone : found.strings with
    | none => exact hmem.mpr (.inr (mem_missing.mpr (.inl ⟨rfl, hnone⟩)))
    | some heap => exact hmem.mpr (.inl ((hseen .strings (by simp)).mp (by simp [Found.seen, hnone])))
  · cases hnone : found.blobs with
    | none => exact hmem.mpr (.inr (mem_missing.mpr (.inr ⟨rfl, hnone⟩)))
    | some heap => exact hmem.mpr (.inl ((hseen .blobs (by simp)).mp (by simp [Found.seen, hnone])))
  · intro slot hslot
    rcases hmem.mp hslot with hslot | hslot
    · have hname : slot.name ∈ m.root.streams.map StreamHeader.name :=
        hnames ▸ List.mem_map_of_mem hslot
      obtain ⟨header, hheader, heq⟩ := List.mem_map.mp hname
      exact heq ▸ (Root.names_of_read hroot).2 header hheader
    · rcases mem_missing.mp hslot with ⟨rfl, -⟩ | ⟨rfl, -⟩
      · exact isStreamName_strings
      · exact isStreamName_blobs
  · rw [hstrings]
    cases hheap : found.strings with
    | none => rfl
    | some heap => exact hmatches.strings_zero heap hheap
  · rw [hblobs]
    cases hheap : found.blobs with
    | none => rfl
    | some heap => exact hmatches.blobs_zero heap hheap
  · rw [hguids]
    cases hheap : found.guids with
    | none => rfl
    | some heap => exact hmatches.guids_mod heap hheap
  · intro hnot
    rw [hguids]
    cases hheap : found.guids with
    | none => rfl
    | some heap =>
      exact absurd (hmem.mpr (.inl ((hseen .guids (by simp)).mp (by simp [Found.seen, hheap])))) hnot
  · rw [pdb_isSome_of_read h, ← hnames, 
      hmatches.ordered.mem_map_name (show understood? "#Pdb" = some .pdb by decide),
      hmem]
    simp [mem_missing]
  · rw [hslots, List.map_append, hnames]

lemma size_streamData_lt (data : Bytes) (header : StreamHeader) :
    (streamData data header).size < 2 ^ 32 := by
  have := header.size.toNat_lt
  rw [streamData, Array.size_extract]
  omega

lemma tables_of_place {external : Option RowCounts} {found found' : Found} {header : StreamHeader}
    (h : place data external found header = .ok found') : found'.tables = found.tables ∨
      ∃ bytes ts, bytes.size < 2 ^ 32 ∧ Tables.read bytes external = .ok ts ∧
        found'.tables = some ts := by
  rw [place_eq] at h
  split at h
  · cases h
  cases hname : understood? header.name with
  | none =>
    rw [hname] at h
    cases h
    exact .inl rfl
  | some slot =>
    rw [hname] at h
    simp only at h
    split at h
    · cases h
      exact .inl rfl
    cases slot with
    | tables =>
      obtain ⟨ts, hts, h⟩ := Result.bind_eq_ok.mp h
      cases h
      exact .inr ⟨_, ts, size_streamData_lt data header, hts, rfl⟩
    | strings =>
      obtain ⟨_, -, h⟩ := Result.bind_eq_ok.mp h
      cases h
      exact .inl rfl
    | blobs =>
      obtain ⟨_, -, h⟩ := Result.bind_eq_ok.mp h
      cases h
      exact .inl rfl
    | guids =>
      obtain ⟨_, -, h⟩ := Result.bind_eq_ok.mp h
      cases h
      exact .inl rfl
    | pdb =>
      cases h
      exact .inl rfl
    | raw name data =>
      cases h
      exact .inl rfl

/-- The tables have been read from a stream, whose size is known in four bytes. -/
lemma tables_of_read {m : Metadata} (h : read data = .ok m) :
    ∃ bytes, bytes.size < 2 ^ 32 ∧ Tables.read bytes m.external = .ok m.tables := by
  obtain ⟨found, -, -, hfound, htables, -⟩ := read_eq_ok h
  change m.root.streams.foldlM (place data m.external) _ = _ at hfound
  have hfold : ∀ (headers : List StreamHeader) (start : Found),
      headers.foldlM (place data m.external) start = .ok found → start.tables = found.tables ∨
        ∃ bytes ts, bytes.size < 2 ^ 32 ∧ Tables.read bytes m.external = .ok ts ∧
          found.tables = some ts := by
    intro headers
    induction headers with
    | nil =>
      intro start h
      cases h
      exact .inl rfl
    | cons header headers ih =>
      intro start h
      obtain ⟨next, hnext, h⟩ := Result.foldlM_cons_eq_ok.mp h
      obtain heq | hread := ih next h
      · rw [← heq]
        exact (tables_of_place hnext).imp_left Eq.symm
      · exact .inr hread
  obtain hnone | ⟨bytes, ts, hsize, hread, hts⟩ := hfold _ _ hfound
  · rw [htables] at hnone
    cases hnone
  · rw [htables] at hts
    cases hts
    exact ⟨bytes, hsize, hread⟩

variable {m after : Metadata}

lemma and_extraFlag_or {flags bits : UInt8} (h : bits &&& Tables.extraFlag = 0) :
    (flags ||| bits) &&& Tables.extraFlag = flags &&& Tables.extraFlag := by
  refine UInt8.toNat_inj.mp ?_
  have hzero : bits.toNat &&& Tables.extraFlag.toNat = 0 := by
    rw [← UInt8.toNat_and, h]
    rfl
  rw [UInt8.toNat_and, UInt8.toNat_or, Nat.and_or_distrib_right, hzero, Nat.or_zero,
    UInt8.toNat_and]

lemma heapFlags_and_extraFlag (m : Metadata) :
    m.heapFlags &&& Tables.extraFlag = m.tables.heapSizes &&& Tables.extraFlag := by
  unfold heapFlags
  rw [and_extraFlag_or, and_extraFlag_or, and_extraFlag_or]
  all_goals split <;> decide

lemma Formed.widened (h : m.Formed) : m.widened.Formed :=
  { h with
    tables := { h.tables with
      extra := by
        rw [Metadata.widened, heapFlags_and_extraFlag]
        exact h.tables.extra } }

/-- What metadata becomes as names and blobs are interned and rows are added or changed. -/
inductive Edited (m : Metadata) : Metadata → Prop
  | refl : Edited m m
  | internString {after : Metadata} (text : String) : Edited m after →
      Edited m { after with strings := (after.strings.intern text).1 }
  | internBlob {after : Metadata} {value : Bytes} {blobs : Blobs} {index : Nat} : Edited m after →
      after.blobs.intern value = .ok (blobs, index) → Edited m { after with blobs }
  | push {after : Metadata} {t : TableId} {row : Row} {tables : Tables} : Edited m after →
      after.tables.push t row = .ok tables → Edited m { after with tables }
  | insert {after : Metadata} {t : TableId} {rid : Nat} {row : Row} {tables : Tables} :
      Edited m after → after.tables.insert t rid row = .ok tables → Edited m { after with tables }
  | setCell {after : Metadata} (t : TableId) (rid column : Nat) (value : UInt32) : Edited m after →
      Edited m { after with tables := after.tables.setCell t rid column value }

/-- Growing at the end keeps the first byte. -/
lemma getElem?_zero_append {heap : Bytes} (h : heap[0]? = some 0) (back : Bytes) :
    (heap ++ back)[0]? = some 0 := by
  rw [Array.getElem?_append_left (Array.getElem?_eq_some_iff.mp h).1, h]

lemma Edited.formed (h : m.Edited after) (hm : m.Formed) : after.Formed := by
  induction h with
  | refl => exact hm
  | @internString after text _ ih =>
    obtain ⟨back, hdata⟩ := Strings.intern_data after.strings text
    exact { ih with strings_zero := hdata ▸ getElem?_zero_append ih.strings_zero back }
  | internBlob _ hintern ih =>
    obtain ⟨back, hdata⟩ := Blobs.intern_data hintern
    exact { ih with blobs_zero := hdata ▸ getElem?_zero_append ih.blobs_zero back }
  | push _ hpush ih => exact { ih with tables := ih.tables.push hpush }
  | insert _ hinsert ih => exact { ih with tables := ih.tables.insert hinsert }
  | setCell t rid column value _ ih =>
    exact { ih with tables := ih.tables.setCell t rid column value }

lemma Edited.root_eq (h : m.Edited after) : after.root = m.root ∧ after.slots = m.slots := by
  induction h with
  | refl => exact ⟨rfl, rfl⟩
  | internString _ _ ih => exact ih
  | internBlob _ _ ih => exact ih
  | push _ _ ih => exact ih
  | insert _ _ ih => exact ih
  | setCell _ _ _ _ _ ih => exact ih

end CliImage.Metadata
