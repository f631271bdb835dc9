import CliImage.Proofs.Reader
import CliImage.Proofs.Result
import CliImage.Root

/-! The metadata root reads back as it was written, as long as the stream names fit into their
fields. -/

namespace CliImage

namespace Utf8

lemma decode?_eq_some {data : Bytes} {text : String} :
    decode? data = some text ↔ encode text = data := by
  rw [decode?, String.fromUTF8?, encode, String.toUTF8_eq_toByteArray]
  constructor
  · intro h
    split at h
    · cases h
      rfl
    · cases h
  · rintro rfl
    rw [dif_pos text.isValidUTF8]
    rfl

lemma size_encode (text : String) : (encode text).size = text.utf8ByteSize := by
  rw [encode, String.toUTF8_eq_toByteArray]
  exact String.size_toByteArray

end Utf8

/-- Names that a stream header has room for. -/
def IsStreamName (name : String) : Prop :=
  (Utf8.encode name).size < StreamHeader.nameLimit ∧ 0 ∉ Utf8.encode name

namespace StreamHeader

variable {data : Bytes} {start : Nat} {header : StreamHeader}

/-- The bytes of a header without padding. -/
def fields (header : StreamHeader) : Bytes :=
  Bytes.ofUInt32 header.offset ++ (Bytes.ofUInt32 header.size ++ (Utf8.encode header.name ++ #[0]))

/-- The bytes of a header by itself. -/
def bytes (header : StreamHeader) : Bytes := header.fields.padTo 4

lemma size_bytes (header : StreamHeader) : header.bytes.size = header.encodedSize := by
  rw [bytes, Bytes.size_padTo _ (by decide), fields]
  simp only [Array.size_append, Bytes.size_ofUInt32, Utf8.size_encode, List.size_toArray,
    List.length_cons, List.length_nil, encodedSize]
  rw [show 4 + (4 + (header.name.utf8ByteSize + (0 + 1))) = 8 + (header.name.utf8ByteSize + 1) by
    omega, alignUp_add (by decide) (by decide)]

lemma encodedSize_mod (header : StreamHeader) : header.encodedSize % 4 = 0 := by
  have := alignUp_mod (header.name.utf8ByteSize + 1) 4
  rw [encodedSize]
  omega

lemma appendTo_fields (header : StreamHeader) (done : Bytes) :
    header.appendTo done = (done ++ header.fields).padTo 4 := by
  simp only [appendTo, fields, Array.append_assoc]

/-- Behind something aligned only the header itself is padded. -/
lemma appendTo_eq {done : Bytes} (h : done.size % 4 = 0) :
    header.appendTo done = done ++ header.bytes := by
  have happend : ∀ new : Bytes, (done ++ new).padTo 4 = done ++ new.padTo 4 := by
    intro new
    rw [Bytes.padTo, Bytes.padTo, Array.size_append, alignUp_add (by decide) h,
      Nat.add_sub_add_left, Array.append_assoc]
  rw [appendTo_fields, bytes, ← happend]

lemma name_of_readAt (h : readAt data start = .ok header) : IsStreamName header.name := by
  unfold readAt at h
  split at h
  · cases h
  · simp only at h
    split at h
    · cases h
    · rename_i length hlength
      split at h
      · cases h
      · rename_i text htext
        cases h
        obtain ⟨hlt, -, hne⟩ := Array.findIdx?_eq_some_iff_getElem.mp hlength
        have hencode := Utf8.decode?_eq_some.mp htext
        have hsize : (data.extract (start + 8) (start + 8 + nameLimit)).size ≤ nameLimit := by
          rw [Array.size_extract]
          omega
        refine ⟨?_, fun hzero => ?_⟩
        · rw [hencode, Array.size_extract]
          omega
        · rw [hencode] at hzero
          obtain ⟨i, hi, hget⟩ := Array.getElem_of_mem hzero
          rw [Array.size_extract] at hi
          rw [Array.getElem_extract] at hget
          have := hne i (by omega)
          simp only [Nat.zero_add] at hget
          simp [hget] at this

/-- The name ends at its terminator, whatever follows. -/
lemma findIdx?_name {name : Bytes} (hzero : 0 ∉ name) (hlimit : name.size < nameLimit)
    (h : data.StandsAt start (name ++ #[0])) :
    (data.extract start (start + nameLimit)).findIdx? (· == 0) = some name.size := by
  have hle : start + (name.size + 1) ≤ data.size := by simpa using h.le_size
  have hget : ∀ i (hi : i < (data.extract start (start + nameLimit)).size), i ≤ name.size →
      (name ++ #[0])[i]? = some (data.extract start (start + nameLimit))[i] := by
    intro i hi hlt
    rw [← h.getElem? (by simp; omega), Array.getElem_extract, Array.getElem?_eq_getElem]
  refine Array.findIdx?_eq_some_iff_getElem.mpr ⟨by simp; omega, ?_, fun i hi => ?_⟩
  · have := hget name.size (by simp; omega) le_rfl
    rw [Array.getElem?_append_right le_rfl, Nat.sub_self] at this
    simpa using (Option.some.inj this).symm
  · have := hget i (by simp; omega) hi.le
    rw [Array.getElem?_append_left hi] at this
    rw [beq_iff_eq]
    exact fun heq => hzero (heq ▸ Array.mem_of_getElem? this)

/-- A header is read wherever its fields stand, whatever it is padded with. -/
lemma readAt_fields (hname : IsStreamName header.name) (h : data.StandsAt start header.fields) :
    readAt data start = .ok header := by
  obtain ⟨hlimit, hzero⟩ := hname
  have hoffset := h.left
  have hsize := h.right.left
  have hname := h.right.right
  rw [Bytes.size_ofUInt32] at hsize hname
  rw [Bytes.size_ofUInt32, Nat.add_assoc] at hname
  have hle := hname.le_size
  rw [Array.size_append] at hle
  simp only [List.size_toArray, List.length_cons, List.length_nil] at hle
  have hlength := findIdx?_name hzero hlimit hname
  have htext : (data.extract (start + 8) (start + 8 + nameLimit)).extract 0
      (Utf8.encode header.name).size = Utf8.encode header.name := by
    rw [Array.extract_extract, Nat.add_zero, Nat.min_eq_left (by omega)]
    exact hname.left.extract
  unfold readAt
  rw [if_neg (by omega)]
  simp only [hlength, htext, Utf8.decode?_eq_some.mpr rfl]
  rw [hoffset.natAt_ofNat header.offset.toNat_lt, hsize.natAt_ofNat header.size.toNat_lt,
    UInt32.ofNat_toNat, UInt32.ofNat_toNat]

lemma readAt_bytes (hname : IsStreamName header.name) (h : data.StandsAt start header.bytes) :
    readAt data start = .ok header :=
  readAt_fields hname h.left

/-- Streams that lie in the metadata. -/
def InRange (data : Bytes) (header : StreamHeader) : Prop :=
  header.offset.toNat + header.size.toNat ≤ data.size ∧
    header.offset.toNat + header.size.toNat < 2 ^ 32

end StreamHeader

namespace Root

variable {data : Bytes} {root : Root}

def headerBytes (headers : List StreamHeader) : Bytes :=
  headers.foldl (fun done header => done ++ header.bytes) #[]

lemma headerBytes_cons (header : StreamHeader) (headers : List StreamHeader) :
    headerBytes (header :: headers) = header.bytes ++ headerBytes headers := by
  rw [headerBytes, List.foldl_cons, Reader.foldl_append, Array.empty_append, headerBytes]

lemma size_headerBytes (headers : List StreamHeader) :
    (headerBytes headers).size = (headers.map StreamHeader.encodedSize).foldr (· + ·) 0 := by
  induction headers with
  | nil => rfl
  | cons header headers ih =>
    rw [headerBytes_cons, Array.size_append, ih, StreamHeader.size_bytes, List.map_cons,
      List.foldr_cons]

/-- What stands in front of the stream headers. -/
def fixedBytes (root : Root) : Bytes :=
  Bytes.ofUInt32 magic ++ (Bytes.ofUInt16 root.majorVersion ++ (Bytes.ofUInt16 root.minorVersion ++
    (Bytes.ofUInt32 root.reserved ++ (Bytes.ofNat 4 root.versionBytes.size ++ (root.versionBytes ++
      (Bytes.ofUInt16 root.flags ++ Bytes.ofNat 2 root.streams.length))))))

lemma size_fixedBytes (root : Root) : root.fixedBytes.size = 20 + root.versionBytes.size := by
  simp only [fixedBytes, Array.size_append, Bytes.size_ofUInt32, Bytes.size_ofUInt16,
    Bytes.size_ofNat]
  omega

lemma encode_foldl (root : Root) : root.encode =
    root.streams.foldl (fun done header => header.appendTo done) root.fixedBytes := by
  rw [encode, fixedBytes]
  simp only [Array.append_assoc]

lemma encode_eq (hversion : root.versionBytes.size % 4 = 0) :
    root.encode = root.fixedBytes ++ headerBytes root.streams := by
  have happend : ∀ (headers : List StreamHeader) (done : Bytes), done.size % 4 = 0 →
      headers.foldl (fun done header => header.appendTo done) done =
        done ++ headerBytes headers := by
    intro headers
    induction headers with
    | nil => exact fun done _ => Array.append_empty.symm
    | cons header headers ih =>
      intro done hdone
      rw [List.foldl_cons, StreamHeader.appendTo_eq hdone, ih, headerBytes_cons,
        Array.append_assoc]
      have := header.encodedSize_mod
      rw [Array.size_append, StreamHeader.size_bytes]
      omega
  have hsize := root.size_fixedBytes
  rw [← happend root.streams root.fixedBytes (by omega), encode_foldl]

lemma size_encode (hversion : root.versionBytes.size % 4 = 0) :
    root.encode.size = root.headerSize := by
  rw [encode_eq hversion, Array.size_append, size_fixedBytes, size_headerBytes, headerSize]

lemma readStreams_headerBytes {headers : List StreamHeader} {offset : Nat}
    (hnames : ∀ header ∈ headers, IsStreamName header.name)
    (hranges : ∀ header ∈ headers, header.InRange data)
    (h : data.StandsAt offset (headerBytes headers)) :
    readStreams data headers.length offset = .ok headers := by
  induction headers generalizing offset with
  | nil => rfl
  | cons header headers ih =>
    rw [headerBytes_cons] at h
    have hrest := h.right
    have hle := h.left.le_size
    rw [StreamHeader.size_bytes] at hrest hle
    have hpos : 0 < header.encodedSize := by
      rw [StreamHeader.encodedSize]
      omega
    obtain ⟨hrange, hfit⟩ := hranges header (List.mem_cons_self ..)
    rw [List.length_cons, readStreams, if_neg (by omega), StreamHeader.readAt_bytes
      (hnames header (List.mem_cons_self ..)) h.left, Result.ok_bind, if_neg (by omega),
      ih (fun header hmem => hnames header (List.mem_cons_of_mem _ hmem))
        (fun header hmem => hranges header (List.mem_cons_of_mem _ hmem)) hrest]
    rfl

lemma headers_of_readStreams {n offset : Nat} {headers : List StreamHeader}
    (h : readStreams data n offset = .ok headers) :
    headers.length = n ∧ ∀ header ∈ headers, IsStreamName header.name ∧ header.InRange data := by
  induction n generalizing offset headers with
  | zero =>
    cases h
    exact ⟨rfl, fun _ hmem => by cases hmem⟩
  | succ n ih =>
    rw [readStreams] at h
    split at h
    · cases h
    · obtain ⟨first, hfirst, h⟩ := Result.bind_eq_ok.mp h
      obtain ⟨hrange, h⟩ := Result.unless_throw_eq_ok.mp h
      obtain ⟨rest, hrest, h⟩ := Result.bind_eq_ok.mp h
      cases h
      obtain ⟨hlength, hheaders⟩ := ih hrest
      refine ⟨by rw [List.length_cons, hlength], fun header hmem => ?_⟩
      rcases List.mem_cons.mp hmem with rfl | hmem
      · exact ⟨StreamHeader.name_of_readAt hfirst, by omega, by omega⟩
      · exact hheaders header hmem

/-- What a root was read with fits into its fields. -/
lemma sizes_of_read (h : read data = .ok root) : root.versionBytes.size < 2 ^ 32 ∧
    root.streams ≠ [] ∧ root.streams.length < 2 ^ 16 ∧
    ∀ header ∈ root.streams, IsStreamName header.name ∧ header.InRange data := by
  simp only [read, Result.unless_throw_eq_ok, Result.bind_eq_ok] at h
  obtain ⟨-, -, hversion, hcount, headers, hheaders, h⟩ := h
  cases h
  obtain ⟨hlength, hheaders⟩ := headers_of_readStreams hheaders
  have hversionLt := data.natAt_lt 12 4
  have hcountLt := data.natAt_lt (data.natAt 12 4 + 16 + 2) 2
  refine ⟨by simp only [Array.size_extract]; omega, fun hnil => hcount ?_, ?_, hheaders⟩
  · rw [← hlength]
    exact List.length_eq_zero_iff.mpr hnil
  · change headers.length < _
    omega

lemma names_of_read (h : read data = .ok root) :
    root.streams ≠ [] ∧ ∀ header ∈ root.streams, IsStreamName header.name := by
  obtain ⟨-, hne, -, hheaders⟩ := sizes_of_read h
  exact ⟨hne, fun header hmem => (hheaders header hmem).1⟩

/-- A root is read where its fixed part stands at the start and its stream headers are read. -/
lemma read_fixed (hversion : root.versionBytes.size < 2 ^ 32) (hne : root.streams ≠ [])
    (hcount : root.streams.length < 2 ^ 16) (hfixed : data.StandsAt 0 root.fixedBytes)
    (hread : readStreams data root.streams.length (20 + root.versionBytes.size) =
      .ok root.streams) : read data = .ok root := by
  have hle := hfixed.le_size
  rw [size_fixedBytes] at hle
  rw [fixedBytes] at hfixed
  have hmagic := hfixed.left.natAt_ofNat magic.toNat_lt
  have hfixed := hfixed.right
  have hmajor := hfixed.left.natAt_ofNat root.majorVersion.toNat_lt
  have hfixed := hfixed.right
  have hminor := hfixed.left.natAt_ofNat root.minorVersion.toNat_lt
  have hfixed := hfixed.right
  have hreserved := hfixed.left.natAt_ofNat root.reserved.toNat_lt
  have hfixed := hfixed.right
  have hlength := hfixed.left.natAt_ofNat hversion
  have hfixed := hfixed.right
  have hbytes := hfixed.left.extract
  have hfixed := hfixed.right
  have hflags := hfixed.left.natAt_ofNat root.flags.toNat_lt
  have hstreams := hfixed.right.natAt_ofNat hcount
  simp only [Bytes.size_ofUInt32, Bytes.size_ofUInt16, Bytes.size_ofNat, Nat.zero_add,
    Nat.reduceAdd] at hmagic hmajor hminor hreserved hlength hbytes hflags hstreams
  have hpos : root.streams.length ≠ 0 := by simpa using hne
  rw [Nat.add_comm 16] at hbytes hflags
  rw [show 16 + root.versionBytes.size + 2 = root.versionBytes.size + 16 + 2 by omega] at hstreams
  rw [show 20 + root.versionBytes.size = root.versionBytes.size + 16 + 4 by omega] at hread
  unfold read
  simp only [hmagic, hmajor, hminor, hreserved, hlength, hflags, hstreams, hread, hbytes,
    UInt32.ofNat_toNat, UInt16.ofNat_toNat, Result.ok_bind]
  rw [if_neg (by omega), if_neg (by simp), if_neg (by omega), if_neg hpos]

/-- A root reads back where it stands at the start and the streams that it lists are there. -/
theorem read_encode (hversion : root.versionBytes.size % 4 = 0)
    (hsize : root.versionBytes.size < 2 ^ 32) (hne : root.streams ≠ [])
    (hcount : root.streams.length < 2 ^ 16)
    (hnames : ∀ header ∈ root.streams, IsStreamName header.name)
    (hranges : ∀ header ∈ root.streams, header.InRange data)
    (h : data.StandsAt 0 root.encode) : read data = .ok root := by
  rw [encode_eq hversion] at h
  have hheaders := h.right
  rw [size_fixedBytes, Nat.zero_add] at hheaders
  exact read_fixed hsize hne hcount h.left (readStreams_headerBytes hnames hranges hheaders)

/-- A single stream header is read whatever stands in front of it. -/
lemma read_encode_single {header : StreamHeader} (hsize : root.versionBytes.size < 2 ^ 32)
    (hstreams : root.streams = [header]) (hname : IsStreamName header.name)
    (hrange : header.InRange data) (h : data.StandsAt 0 root.encode) : read data = .ok root := by
  rw [encode_foldl, hstreams, List.foldl_cons, List.foldl_nil, StreamHeader.appendTo_fields] at h
  have hheader := h.left.right
  rw [size_fixedBytes, Nat.zero_add] at hheader
  have hle := hheader.le_size
  have hpos : 0 < header.fields.size := by
    rw [StreamHeader.fields, Array.size_append, Bytes.size_ofUInt32]
    exact Nat.add_pos_left (by decide) _
  refine read_fixed hsize (by simp [hstreams]) (by simp [hstreams]) h.left.left ?_
  rw [hstreams, List.length_singleton, readStreams, if_neg (by omega),
    StreamHeader.readAt_fields hname hheader, Result.ok_bind,
    if_neg (by have := hrange.1; have := hrange.2; omega)]
  rfl

/-- Padding what has been written leaves a multiple of four. -/
lemma size_encode_mod (hne : root.streams ≠ []) : root.encode.size % 4 = 0 := by
  obtain hnil | ⟨headers, header, heq⟩ := List.eq_nil_or_concat root.streams
  · exact absurd hnil hne
  · rw [encode_foldl, heq, List.concat_eq_append, List.foldl_append, List.foldl_cons, List.foldl_nil,
      StreamHeader.appendTo_fields, Bytes.size_padTo _ (by decide)]
    exact alignUp_mod ..

lemma headerSize_mod (root : Root) : root.headerSize % 4 = root.versionBytes.size % 4 := by
  have hsum : ∀ headers : List StreamHeader,
      ((headers.map StreamHeader.encodedSize).foldr (· + ·) 0) % 4 = 0 := by
    intro headers
    induction headers with
    | nil => rfl
    | cons header headers ih =>
      have := header.encodedSize_mod
      rw [List.map_cons, List.foldr_cons]
      omega
  have := hsum root.streams
  rw [headerSize]
  omega

/-- A root that was read is written with the size that it tells exactly where its version text ends
at a multiple of four. Then it reads back in front of anything that holds its streams, and so it does
with a single stream. -/
theorem size_encode_iff {root : Root} (h : read data = .ok root) :
    (root.encode.size = root.headerSize ↔ root.versionBytes.size % 4 = 0) ∧
      ∀ behind : Bytes, (∀ header ∈ root.streams,
          header.offset.toNat + header.size.toNat ≤ (root.encode ++ behind).size) →
        root.versionBytes.size % 4 = 0 ∨ root.streams.length = 1 →
          read (root.encode ++ behind) = .ok root := by
  obtain ⟨hsize, hne, hcount, hheaders⟩ := sizes_of_read h
  refine ⟨⟨fun heq => ?_, size_encode⟩, fun behind hcover hcase => ?_⟩
  · rw [← headerSize_mod, ← heq]
    exact size_encode_mod hne
  · have hstands : (root.encode ++ behind).StandsAt 0 root.encode :=
      (Bytes.standsAt_self _).append_right _
    have hranges : ∀ header ∈ root.streams, header.InRange (root.encode ++ behind) :=
      fun header hmem => ⟨hcover header hmem, (hheaders header hmem).2.2⟩
    rcases hcase with hversion | hsingle
    · exact read_encode hversion hsize hne hcount (fun header hmem => (hheaders header hmem).1)
        hranges hstands
    · obtain ⟨header, heq⟩ := List.length_eq_one_iff.mp hsingle
      have hmem : header ∈ root.streams := by simp [heq]
      exact read_encode_single hsize heq (hheaders header hmem).1 (hranges header hmem) hstands

/-- A version text of two bytes in front of two streams. -/
def unpadded : Bytes := #[
  66, 83, 74, 66, 1, 0, 1, 0, 0, 0, 0, 0, 2, 0, 0, 0, 118, 52, 0, 0, 2, 0,
  0, 0, 0, 0, 4, 0, 0, 0, 35, 126, 0, 0,
  4, 0, 0, 0, 8, 0, 0, 0, 35, 66, 108, 111, 98, 0, 0, 0]

theorem size_encode_ne_unpadded : ∃ root, read unpadded = .ok root ∧ root.headerSize = 50 ∧
    root.encode.size ≠ root.headerSize ∧ read root.encode ≠ .ok root := by
  obtain ⟨root, hread, htest⟩ := Result.exists_of_holds (x := read unpadded)
    (p := fun root => decide (root.versionBytes.size = 2 ∧ root.headerSize = 50) &&
      !Result.holds (read root.encode) fun _ => true)
    (by decide +kernel)
  simp only [Bool.and_eq_true, decide_eq_true_eq, Bool.not_eq_true'] at htest
  obtain ⟨⟨hversion, hheader⟩, hrefused⟩ := htest
  refine ⟨root, hread, hheader, fun hsize => ?_, fun hagain => ?_⟩
  · have := (size_encode_iff hread).1.mp hsize
    omega
  · rw [hagain] at hrefused
    cases hrefused

end Root

end CliImage
