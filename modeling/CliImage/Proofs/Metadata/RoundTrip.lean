import CliImage.Proofs.Metadata.Formed

/-! Metadata that is written reads back with the same rows, streams and values, for images and for
portable PDBs, however it was edited. -/

namespace CliImage

/-- What a slot is read back as: streams that are kept as bytes are padded. -/
def StreamSlot.padded : StreamSlot → StreamSlot
  | .raw name data => .raw name (data.padTo 4)
  | slot => slot

namespace Metadata

open StreamSlot

variable {m written : Metadata} {bytes : Bytes}

/-- The bytes of a slot's stream. -/
def slotData (m : Metadata) (tables : Bytes) : StreamSlot → Bytes
  | .tables => tables
  | .strings => m.strings.data
  | .blobs => m.blobs.data
  | .guids => m.guids.data
  | .pdb => (m.pdb.map PdbHeader.encode).getD #[]
  | .raw _ data => data

def streamsOf (m : Metadata) (tables : Bytes) : List (String × Bytes) :=
  m.slots.map fun slot => (slot.name, (m.slotData tables slot).padTo 4)

/-- No slot of formed metadata is left out. -/
lemma filterMap_encodeSlot (h : m.Formed) (tables : Bytes) :
    (m.slots.filterMap (m.encodeSlot tables)).map (fun (name, data) => (name, data.padTo 4)) =
      m.streamsOf tables := by
  have hslot : ∀ slot ∈ m.slots,
      m.encodeSlot tables slot = some (slot.name, m.slotData tables slot) := by
    intro slot hslot
    cases slot with
    | pdb =>
      obtain ⟨pdb, hpdb⟩ := Option.isSome_iff_exists.mp (h.pdb_mem.mpr hslot)
      simp [encodeSlot, slotData, hpdb, StreamSlot.name]
    | _ => rfl
  rw [streamsOf, List.filterMap_congr hslot, List.filterMap_eq_map', List.map_map]
  rfl

/-- A stream lies where its header says. -/
structure Lies (data : Bytes) (header : StreamHeader) (stream : String × Bytes) : Prop where
  name : header.name = stream.1
  stands : data.StandsAt header.offset.toNat stream.2
  size : header.size.toNat = stream.2.size

lemma Lies.streamData_eq {data : Bytes} {header : StreamHeader} {stream : String × Bytes}
    (h : Lies data header stream) : streamData data header = stream.2 := by
  rw [streamData, h.size]
  exact h.stands.extract

lemma lies_layStreams {streams : List (String × Bytes)} {front data : Bytes}
    (h : data = streams.foldl (fun done stream => done ++ stream.2) front)
    (hfit : data.size < 2 ^ 32) :
    List.Forall₂ (Lies data) (layStreams front.size streams) streams := by
  induction streams generalizing front with
  | nil => exact .nil
  | cons stream streams ih =>
    obtain ⟨name, bytes⟩ := stream
    have hstands : data.StandsAt front.size bytes := by
      rw [h, List.foldl_cons, Reader.foldl_append]
      exact (Bytes.standsAt_append_left front bytes).append_right _
    have hle := hstands.le_size
    refine .cons ⟨rfl, ?_, ?_⟩ ?_
    · rwa [UInt32.toNat_ofNat', Nat.mod_eq_of_lt (by omega)]
    · rw [UInt32.toNat_ofNat', Nat.mod_eq_of_lt (by omega)]
    · rw [← Array.size_append]
      exact ih h

lemma map_name_layStreams (offset : Nat) (streams : List (String × Bytes)) :
    (layStreams offset streams).map StreamHeader.name = streams.map Prod.fst := by
  induction streams generalizing offset with
  | nil => rfl
  | cons stream streams ih => rw [layStreams, List.map_cons, List.map_cons, ih]

/-- Where the streams lie does not change how long the headers are. -/
lemma headerSize_layStreams (root : Root) (offset offset' : Nat) (streams : List (String × Bytes)) :
    { root with streams := layStreams offset streams }.headerSize =
      { root with streams := layStreams offset' streams }.headerSize := by
  have hsize : ∀ headers : List StreamHeader, headers.map StreamHeader.encodedSize =
      (headers.map StreamHeader.name).map fun name => 8 + alignUp (name.utf8ByteSize + 1) 4 := by
    intro headers
    rw [List.map_map]
    rfl
  simp only [Root.headerSize, hsize, map_name_layStreams]

/-- What has been found when the slots up to some are read back. -/
def foundIn (m : Metadata) (before : List StreamSlot) : Found where
  tables := if .tables ∈ before then some { m.tables with valid := m.tables.present } else none
  strings := if .strings ∈ before then some ⟨m.strings.data.padTo 4⟩ else none
  blobs := if .blobs ∈ before then some ⟨m.blobs.data.padTo 4⟩ else none
  guids := if .guids ∈ before then some m.guids else none
  seenPdb := .pdb ∈ before
  slots := (before.map padded).toArray

lemma seen_foundIn {before : List StreamSlot} {slot : StreamSlot}
    (hslot : ∀ name data, slot ≠ .raw name data) :
    (m.foundIn before).seen slot = decide (slot ∈ before) := by
  cases slot with
  | raw name data => exact absurd rfl (hslot name data)
  | pdb => rfl
  | _ =>
    simp only [Found.seen, foundIn]
    split <;> simp [*]

lemma padTo_zero {data : Bytes} (h : data[0]? = some 0) (alignment : Nat) :
    (data.padTo alignment)[0]? = some 0 := getElem?_zero_append h _

/-- Reading the first stream of a name that is understood back. -/
lemma readFirst_foundIn (h : m.Formed) {tables : Bytes}
    (htables : Tables.read tables m.external = .ok { m.tables with valid := m.tables.present })
    (hpad : tables.size % 4 = 0) (before : List StreamSlot) {slot : StreamSlot}
    (hslot : ∀ name data, slot ≠ .raw name data) :
    (m.foundIn before).readFirst ((m.slotData tables slot).padTo 4) m.external slot =
      .ok (m.foundIn (before ++ [slot])) := by
  cases slot with
  | tables =>
    rw [slotData, Bytes.padTo_of_mod_eq_zero (by decide) hpad, Found.readFirst, htables]
    simp [foundIn, Found.push, padded]
  | strings =>
    rw [slotData, Found.readFirst, Strings.read_eq_ok.mpr ⟨padTo_zero h.strings_zero 4, rfl⟩]
    simp [foundIn, Found.push, padded]
  | blobs =>
    rw [slotData, Found.readFirst, Blobs.read_eq_ok.mpr ⟨padTo_zero h.blobs_zero 4, rfl⟩]
    simp [foundIn, Found.push, padded]
  | guids =>
    have hmod := h.guids_mod
    rw [slotData, Bytes.padTo_of_mod_eq_zero (by decide) (by omega), Found.readFirst,
      Guids.read_eq_ok.mpr ⟨hmod, rfl⟩]
    simp [foundIn, Found.push, padded]
  | pdb => simp [Found.readFirst, foundIn, Found.push, padded]
  | raw name data => exact absurd rfl (hslot name data)

/-- Each slot is read back as itself behind those before it. -/
lemma place_foundIn (h : m.Formed) {tables : Bytes}
    (htables : Tables.read tables m.external = .ok { m.tables with valid := m.tables.present })
    (hpad : tables.size % 4 = 0) {before : List StreamSlot} {slot : StreamSlot}
    (hslot : slot.Follows before) {data : Bytes} {header : StreamHeader}
    (hlies : Lies data header (slot.name, (m.slotData tables slot).padTo 4)) :
    place data m.external (m.foundIn before) header = .ok (m.foundIn (before ++ [slot])) := by
  rw [place_eq, hlies.name, hlies.streamData_eq]
  simp only
  by_cases hraw : ∃ name data, slot = .raw name data
  · obtain ⟨name, raw, rfl⟩ := hraw
    obtain ⟨hminus, hseen⟩ := hslot
    have hpush : (m.foundIn before).push (.raw name (raw.padTo 4)) =
        m.foundIn (before ++ [.raw name raw]) := by
      simp [foundIn, Found.push, padded]
    simp only [StreamSlot.name, slotData, if_neg hminus, hpush]
    cases hname : understood? name with
    | none => rfl
    | some slot =>
      simp only
      rw [seen_foundIn (not_raw_of_understood? hname).2, if_pos (by simpa using hseen slot hname)]
  · have hraw : ∀ name data, slot ≠ .raw name data := fun name data heq => hraw ⟨name, data, heq⟩
    have hminus : slot.name ≠ "#-" := by
      cases slot with
      | raw name data => exact absurd rfl (hraw name data)
      | _ => decide
    have hfresh : slot ∉ before := by
      cases slot with
      | raw name data => exact absurd rfl (hraw name data)
      | _ => exact hslot
    rw [if_neg hminus, understood?_name hraw]
    simp only
    rw [seen_foundIn hraw, if_neg (by simpa using hfresh),
      readFirst_foundIn h htables hpad before hraw]

lemma foldlM_place_foundIn (before : List StreamSlot) (h : m.Formed) {tables : Bytes}
    (htables : Tables.read tables m.external = .ok { m.tables with valid := m.tables.present })
    (hpad : tables.size % 4 = 0) {data : Bytes} {headers : List StreamHeader}
    {rest : List StreamSlot} (hordered : Ordered (before ++ rest))
    (hlies : List.Forall₂ (Lies data) headers
      (rest.map fun slot => (slot.name, (m.slotData tables slot).padTo 4))) :
    headers.foldlM (place data m.external) (m.foundIn before) = .ok (m.foundIn (before ++ rest)) := by
  induction rest generalizing before headers with
  | nil =>
    cases hlies
    rw [List.append_nil]
    rfl
  | cons slot rest ih =>
    obtain ⟨header, headers, hhead, htail, rfl⟩ := List.forall₂_cons_right_iff.mp hlies
    rw [List.foldlM_cons, place_foundIn h htables hpad (hordered before slot rest rfl) hhead,
      Result.ok_bind, ih _ (by simpa using hordered) htail, List.append_assoc,
      List.singleton_append]

/-- What metadata is read back as. -/
def padded (m : Metadata) : Metadata :=
  { m with
    strings := ⟨m.strings.data.padTo 4⟩
    blobs := ⟨m.blobs.data.padTo 4⟩
    tables := { m.tables with valid := m.tables.present }
    slots := m.slots.map StreamSlot.padded }

/-- What writing metadata gives. -/
lemma encode_eq_ok (h : m.Formed) (hencode : m.encode = .ok (bytes, written)) :
    ∃ tables start, m.widened.tables.encode m.widened.external = .ok tables ∧
      written = { m.widened with
        root := { m.root with streams := layStreams start (m.widened.streamsOf tables) } } ∧
      written.root.headerSize = start ∧
      bytes = (m.widened.streamsOf tables).foldl (fun done stream => done ++ stream.2)
        written.root.encode := by
  obtain ⟨tables, htables, hencode⟩ := Result.bind_eq_ok.mp hencode
  rw [filterMap_encodeSlot h.widened] at hencode
  cases hencode
  exact ⟨tables, _, htables, rfl, headerSize_layStreams .., rfl⟩

lemma find?_of_lies {data : Bytes} {headers : List StreamHeader} {slots : List StreamSlot}
    {stream : StreamSlot → String × Bytes} (hname : ∀ slot, (stream slot).1 = slot.name)
    (hlies : List.Forall₂ (Lies data) headers (slots.map stream)) (text : String) :
    match slots.find? (·.name == text) with
    | some slot => ∃ header, headers.find? (·.name == text) = some header ∧
        Lies data header (stream slot)
    | none => headers.find? (·.name == text) = none := by
  induction slots generalizing headers with
  | nil =>
    cases hlies
    rfl
  | cons slot slots ih =>
    obtain ⟨header, headers, hhead, htail, rfl⟩ := List.forall₂_cons_right_iff.mp hlies
    rw [List.find?_cons, List.find?_cons, hhead.name, hname slot]
    cases hfound : slot.name == text with
    | true => exact ⟨header, rfl, hhead⟩
    | false => exact ih htail

/-- The header of a portable PDB is read back from the first stream of its name. -/
lemma read_pdb (h : m.Formed) {tables data : Bytes} {headers : List StreamHeader}
    (hlies : List.Forall₂ (Lies data) headers (m.streamsOf tables)) :
    match headers.find? (·.name == "#Pdb") with
    | some header => ∃ pdb, PdbHeader.read (streamData data header) = .ok pdb ∧ m.pdb = some pdb
    | none => m.pdb = none := by
  have hfind := find?_of_lies (fun _ => rfl) hlies "#Pdb"
  rw [h.ordered.find?_name (show understood? "#Pdb" = some .pdb by decide)] at hfind
  cases hpdb : m.pdb with
  | none =>
    have hmem : .pdb ∉ m.slots := fun hmem => by simp [← h.pdb_mem, hpdb] at hmem
    rw [if_neg hmem] at hfind
    rw [hfind]
  | some pdb =>
    have hmem : .pdb ∈ m.slots := h.pdb_mem.mp (by simp [hpdb])
    rw [if_pos hmem] at hfind
    obtain ⟨header, hheader, hlies⟩ := hfind
    rw [hheader]
    refine ⟨pdb, ?_, rfl⟩
    rw [hlies.streamData_eq, slotData, hpdb]
    exact PdbHeader.read_encode (h.pdb pdb hpdb) _

/-- Each slot has a header. -/
lemma exists_header {tables data : Bytes} {headers : List StreamHeader}
    (hlies : List.Forall₂ (Lies data) headers (m.streamsOf tables)) {slot : StreamSlot}
    (hslot : slot ∈ m.slots) :
    ∃ header ∈ headers, Lies data header (slot.name, (m.slotData tables slot).padTo 4) := by
  obtain ⟨i, hi, rfl⟩ := List.getElem_of_mem hslot
  have hlength := hlies.length_eq
  rw [streamsOf, List.length_map] at hlength
  refine ⟨headers[i], List.getElem_mem (by omega), ?_⟩
  simpa [streamsOf] using hlies.get (i := i) (by omega) (by simpa [streamsOf] using hi)

/-- Each header belongs to a slot. -/
lemma exists_slot {tables data : Bytes} {headers : List StreamHeader}
    (hlies : List.Forall₂ (Lies data) headers (m.streamsOf tables)) {header : StreamHeader}
    (hheader : header ∈ headers) :
    ∃ slot ∈ m.slots, Lies data header (slot.name, (m.slotData tables slot).padTo 4) := by
  obtain ⟨i, hi, rfl⟩ := List.getElem_of_mem hheader
  have hlength := hlies.length_eq
  rw [streamsOf, List.length_map] at hlength
  refine ⟨m.slots[i], List.getElem_mem (by omega), ?_⟩
  simpa [streamsOf] using hlies.get (i := i) hi (by simpa [streamsOf] using by omega)

lemma read_root (h : m.Formed) (hversion : m.root.versionBytes.size % 4 = 0)
    (hcount : m.slots.length < 2 ^ 16) {tables : Bytes}
    (hbytes : bytes = (m.streamsOf tables).foldl (fun done stream => done ++ stream.2)
      m.root.encode) (hfit : bytes.size < 2 ^ 32)
    (hlies : List.Forall₂ (Lies bytes) m.root.streams (m.streamsOf tables)) :
    Root.read bytes = .ok m.root := by
  have hlength := hlies.length_eq
  rw [streamsOf, List.length_map] at hlength
  have hstands : bytes.StandsAt 0 m.root.encode := by
    rw [hbytes, Reader.foldl_append]
    exact (Bytes.standsAt_self _).append_right _
  have hsize := hstands.le_size
  rw [Root.size_encode hversion, Root.headerSize] at hsize
  refine Root.read_encode hversion (by omega) ?_ (by omega) (fun header hheader => ?_)
    (fun header hheader => ?_) hstands
  · refine List.ne_nil_of_length_pos ?_
    have := List.length_pos_of_mem h.tables_mem
    omega
  · obtain ⟨slot, hslot, hlies⟩ := exists_slot hlies hheader
    exact hlies.name ▸ h.names slot hslot
  · obtain ⟨slot, -, hlies⟩ := exists_slot hlies hheader
    have := hlies.stands.le_size
    rw [← hlies.size] at this
    exact ⟨this, by omega⟩

/-- Formed metadata is read back from what it is written as. -/
theorem read_of_encode (h : m.Formed) (hversion : m.root.versionBytes.size % 4 = 0)
    (hcount : m.slots.length < 2 ^ 16) (hencode : m.encode = .ok (bytes, written))
    (hfit : bytes.size < 2 ^ 32) : read bytes = .ok written.padded := by
  obtain ⟨tables, start, htables, hwritten, hstart, hbytes⟩ := encode_eq_ok h hencode
  have hformed : written.Formed := hwritten ▸ { h.widened with }
  have hstreams : m.widened.streamsOf tables = written.streamsOf tables := by
    rw [hwritten]
    rfl
  have hslots : written.slots = m.slots := by rw [hwritten]; rfl
  have hversion : written.root.versionBytes.size % 4 = 0 := by rw [hwritten]; exact hversion
  have hexternal : written.external = m.widened.external := by rw [hwritten]; rfl
  have hheaders : written.root.streams =
      layStreams written.root.encode.size (written.streamsOf tables) := by
    rw [Root.size_encode hversion, hstart, ← hstreams, hwritten]
  rw [hstreams] at hbytes
  have hlies := lies_layStreams hbytes hfit
  rw [← hheaders] at hlies
  have hroot := read_root hformed hversion (by rwa [hslots]) hbytes hfit hlies
  have hpad : tables.size % 4 = 0 := by
    obtain ⟨body, -, hbody⟩ := Result.bind_eq_ok.mp htables
    cases hbody
    rw [Bytes.size_padTo _ (by decide)]
    exact alignUp_mod ..
  have hsize : tables.size ≤ bytes.size := by
    obtain ⟨header, -, hlies⟩ := exists_header hlies hformed.tables_mem
    have := hlies.stands.le_size
    rw [slotData, Bytes.padTo_of_mod_eq_zero (by decide) hpad] at this
    exact (Nat.le_add_left ..).trans this
  have hread : Tables.read tables written.external =
      .ok { written.tables with valid := written.tables.present } := by
    rw [hexternal, hwritten]
    exact Tables.read_encode h.widened.tables htables (by omega)
  have hfound : written.root.streams.foldlM (place bytes (written.pdb.map PdbHeader.rows))
      ⟨none, none, none, none, false, #[]⟩ = .ok (written.foundIn written.slots) :=
    foldlM_place_foundIn [] hformed hread hpad hformed.ordered hlies
  have htables' : (written.foundIn written.slots).tables =
      some { written.tables with valid := written.tables.present } :=
    if_pos hformed.tables_mem
  rw [read_of_found hroot (read_pdb hformed hlies) hfound htables']
  have hguids : (written.foundIn written.slots).guids.getD Guids.empty = written.guids := by
    by_cases hmem : .guids ∈ written.slots
    · simp [foundIn, hmem]
    · simp [foundIn, hmem, hformed.guids_empty hmem]
  rw [hguids]
  simp [foundIn, padded, missing, hformed.strings_mem, hformed.blobs_mem]

/-- Metadata that has been read again holds what was written. -/
structure SameContent (m written again : Metadata) : Prop where
  tables : again.tables = { m.tables with
    heapSizes := written.tables.heapSizes, valid := m.tables.present }
  root : again.root = { m.root with streams := again.root.streams }
  names : again.root.streams.map StreamHeader.name = m.slots.map StreamSlot.name
  slots : again.slots = m.slots.map StreamSlot.padded
  pdb : again.pdb = m.pdb
  strings : ∀ index text, m.strings.get index = .ok text → again.strings.get index = .ok text
  blobs : ∀ index value, m.blobs.get index = .ok value → again.blobs.get index = .ok value
  guids : ∀ index value, m.guids.get index = .ok value → again.guids.get index = .ok value

lemma sameContent_padded (h : m.Formed) (hencode : m.encode = .ok (bytes, written)) :
    SameContent m written written.padded := by
  obtain ⟨tables, start, -, rfl, -, -⟩ := encode_eq_ok h hencode
  refine ⟨rfl, rfl, ?_, rfl, rfl, fun index text hget => Strings.get_append hget _,
    fun index value hget => Blobs.get_append hget _, fun index value hget => hget⟩
  rw [padded, map_name_layStreams, streamsOf, List.map_map]
  rfl

/-- Metadata that was read and then edited reads back from what it is written as, with the same
content and the same streams; heaps that were missing stand behind them. -/
theorem read_encode_of_edited {data : Bytes} {before : Metadata} (hread : read data = .ok before)
    (hversion : before.root.versionBytes.size % 4 = 0) (hedited : before.Edited m)
    (hencode : m.encode = .ok (bytes, written)) (hcount : m.slots.length < 2 ^ 16)
    (hfit : bytes.size < 2 ^ 32) : ∃ again, read bytes = .ok again ∧ SameContent m written again ∧
      ∃ missing, missing.Sublist ["#Strings", "#Blob"] ∧
        again.root.streams.map StreamHeader.name =
          before.root.streams.map StreamHeader.name ++ missing := by
  obtain ⟨hbefore, -, found, hnames⟩ := formed_of_read hread
  obtain ⟨hroot, hslots⟩ := hedited.root_eq
  have hm := hedited.formed hbefore
  have hsame := sameContent_padded hm hencode
  refine ⟨_, read_of_encode hm (by rwa [hroot]) hcount hencode hfit, hsame, _, ?_,
    by rw [hsame.names, hslots, hnames]⟩
  rw [missing]
  cases found.strings.isNone <;> cases found.blobs.isNone <;> decide

/-- Metadata with a module, an uninterpreted stream of three bytes and no heap of blobs. -/
def sample : Bytes := #[
  66, 83, 74, 66, 1, 0, 1, 0, 0, 0, 0, 0, 4, 0, 0, 0, 118, 52, 0, 0, 0, 0, 4, 0, 84, 0, 0, 0, 38,
  0, 0, 0, 35, 126, 0, 0, 122, 0, 0, 0, 3, 0, 0, 0, 35, 83, 116, 114, 105, 110, 103, 115, 0, 0, 0,
  0, 125, 0, 0, 0, 3, 0, 0, 0, 35, 85, 83, 0, 128, 0, 0, 0, 16, 0, 0, 0, 35, 71, 85, 73, 68, 0, 0,
  0, 0, 0, 0, 0, 2, 0, 0, 1, 1, 0, 0, 0, 0, 0, 0, 0, 0, 0, 0, 0, 0, 0, 0, 0, 1, 0, 0, 0, 0, 0, 1,
  0, 1, 0, 0, 0, 0, 0, 0, 77, 0, 0, 3, 65, 1, 2, 3, 4, 5, 6, 7, 8, 9, 10, 11, 12, 13, 14, 15, 16]

theorem read_encode_sample : ∃ before m bytes written, read sample = .ok before ∧
    before.Edited m ∧ m.strings.data.size = 5 ∧ m.tables.count .typeRef = 1 ∧
    m.encode = .ok (bytes, written) ∧ ∃ again, read bytes = .ok again ∧
      SameContent m written again := by
  obtain ⟨before, hread, htest⟩ := Result.exists_of_holds (x := read sample)
    (p := fun before => before.root.versionBytes.size % 4 == 0 &&
      Result.holds (before.tables.push .typeRef #[4, 1, 0]) fun tables =>
        let m := { before with strings := (before.strings.intern "N").1, tables }
        m.strings.data.size == 5 && m.tables.count .typeRef == 1 &&
          Result.holds m.encode fun (bytes, _) =>
            m.slots.length < 2 ^ 16 && bytes.size < 2 ^ 32)
    (by decide +kernel)
  simp only [Bool.and_eq_true, beq_iff_eq] at htest
  obtain ⟨hversion, htest⟩ := htest
  obtain ⟨tables, hpush, htest⟩ := Result.exists_of_holds htest
  simp only [Bool.and_eq_true, beq_iff_eq] at htest
  obtain ⟨⟨hstrings, hrows⟩, htest⟩ := htest
  obtain ⟨⟨bytes, written⟩, hencode, htest⟩ := Result.exists_of_holds htest
  simp only [Bool.and_eq_true, decide_eq_true_eq] at htest
  have hedited : before.Edited
      { before with strings := (before.strings.intern "N").1, tables } :=
    .push (.internString "N" .refl) hpush
  obtain ⟨again, hagain, hsame, -⟩ :=
    read_encode_of_edited hread hversion hedited hencode htest.1 htest.2
  exact ⟨before, _, bytes, written, hread, hedited, hstrings, hrows, hencode, again, hagain, hsame⟩

end Metadata

end CliImage
