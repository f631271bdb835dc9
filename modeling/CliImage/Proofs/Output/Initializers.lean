import CliImage.Proofs.Heap.Interning
import CliImage.Proofs.Output.Bodies
import CliImage.Proofs.Output.Rows

/-! The initializers that have been added, in an output: each is read from its row, with the code
that has been pushed for it. -/

namespace CliImage

open Bytes

namespace Image

variable {target : Token} {cctor : Method} {rids : RidMap}

/-- The code of an initializer behind a short header. -/
def initializerBody (target : Token) : Bytes := #[0x1A] ++ initializerCode target

lemma size_initializerCode (target : Token) : (initializerCode target).size = 6 := by
  simp [initializerCode]

lemma encode_initializerCode (target : Token) :
    Body.encode (initializerCode target) 8 = .ok (initializerBody target) := by
  rw [Body.encode, if_pos (by rw [size_initializerCode]; decide), size_initializerCode]
  rfl

lemma parts_of_initializerCalling (h : initializerCalling target = .ok cctor) :
    cctor.body.map Body.headerSize = some 1 ∧
      (∃ rva, cctor.instructions = initializerInstructions target rva) ∧
      cctor.encodedBody = some (initializerBody target) ∧
      cctor.encodedSignature = some initializerSignature := by
  obtain ⟨encoded, hencode, h⟩ := Result.bind_eq_ok.mp h
  obtain ⟨body, hbody, h⟩ := Result.bind_eq_ok.mp h
  obtain ⟨instructions, hdecode, h⟩ := Result.bind_eq_ok.mp h
  obtain ⟨signature, -, h⟩ := Result.bind_eq_ok.mp h
  obtain rfl := Except.ok.inj h
  have hread := (Body.read_encode hencode (w := encoded) (standsAt_self encoded) le_rfl).1
  obtain rfl := Except.ok.inj (hread.symm.trans hbody)
  obtain rfl := Except.ok.inj ((decode_initializerCode ..).symm.trans hdecode)
  obtain rfl := Except.ok.inj ((encode_initializerCode target).symm.trans hencode)
  refine ⟨?_, ⟨_, rfl⟩, rfl, rfl⟩
  rw [Option.map_some, Body.encodedBody, if_pos (by rw [size_initializerCode]; decide)]

lemma exists_initializerSignature : ∃ signature,
    Signature.read initializerSignature = .ok signature ∧ signature.params = [] ∧
      ∀ name, signature.returns.fullName name = voidName :=
  ⟨_, rfl, rfl, fun _ => by simp [Param.fullName, paramName]; rfl⟩

lemma overlay_append {front old new back : Bytes} {o : Nat} (hfront : front.size = o)
    (hsize : new.size = old.size) :
    (front ++ old ++ back).overlay o new = front ++ new ++ back := by
  have hlist : (front ++ old ++ back).toList = front.toList ++ (old.toList ++ back.toList) := by
    simp
  have hlength : new.toList.length ≤ (front ++ old ++ back).toList.length - o := by
    simp
    omega
  have hdrop : (front ++ old ++ back).toList.drop (o + new.toList.length) = back.toList := by
    rw [hlist, ← List.append_assoc, List.drop_left' (by simp [hfront, hsize])]
  rw [overlay_eq_take, List.take_of_length_le hlength, hdrop, hlist, List.take_left' hfront]
  simp

/-- The call in an added initializer gets the new number of its method. -/
lemma body_initializer (hrids : rids.table = .methodDef)
    (h : initializerCalling target = .ok cctor) :
    rids.body cctor (initializerBody target) = .ok (initializerBody (rids.token target)) := by
  obtain ⟨hheader, ⟨rva, hcode⟩, -, -⟩ := parts_of_initializerCalling h
  rw [RidMap.body, hheader]
  by_cases hmethod : target.isMethodDef = true
  · have htokens : cctor.tokens = [(⟨rva, 0, 5, false, callOpcode, ⟨"call", .token, .call⟩,
        .token target, []⟩, target)] := by
      simp [Method.tokens, hcode, initializerInstructions, Instruction.token?, hmethod]
    have hsplit (token : Token) : initializerBody token =
        #[0x1A, callOpcode] ++ ofUInt32 token.value ++ #[returnOpcode] := by
      simp [initializerBody, initializerCode]
    have hput : (initializerBody target).put 2 (ofUInt32 (rids.token target).value) =
        .ok (initializerBody (rids.token target)) := by
      rw [hsplit, hsplit, Bytes.put, if_pos (by simp), overlay_append (o := 2) rfl (by simp)]
    rw [htokens]
    exact Result.foldlM_cons_eq_ok.mpr ⟨_, hput, rfl⟩
  · have htokens : cctor.tokens = [] := by
      simp [Method.tokens, hcode, initializerInstructions, Instruction.token?, hmethod]
    have hsame : rids.token target = target :=
      RidMap.token_of_unlisted (.inl fun htable => hmethod (beq_iff_eq.mpr (hrids ▸ htable)))
    rw [htokens, hsame]
    rfl

end Image

/-- A static method without parameters that calls another method and returns nothing. -/
structure Method.CallsOnce (m : Method) (target : Token) : Prop where
  name : m.name = Image.initializerName
  flags : m.flags = Image.initializerFlags
  implFlags : m.implFlags = 0
  params : m.params = []
  returns : m.returnType = Image.voidName
  body : m.body.isSome
  code : m.instructions.toList.map (fun i => (i.opcode.mnemonic, i.operand)) =
    [("call", .token target), ("ret", .none)]

lemma Strings.lt_size_of_get {heap : Strings} {index : Nat} {text : String}
    (h : heap.get index = .ok text) : index < heap.data.size := by
  unfold Strings.get at h
  split at h
  · assumption
  · cases h

namespace Metadata

/-- Heaps whose places four bytes can tell. -/
def SmallHeaps (found : Found) : Prop :=
  (∀ heap, found.strings = some heap → heap.data.size < 2 ^ 32) ∧
    ∀ heap, found.blobs = some heap → heap.data.size < 2 ^ 32

lemma smallHeaps_of_place {data : Bytes} {external : Option RowCounts} {found found' : Found}
    {header : StreamHeader} (hfound : SmallHeaps found)
    (h : place data external found header = .ok found') : SmallHeaps found' := by
  obtain ⟨hstrings, hblobs⟩ := hfound
  have hstream := size_streamData_lt data header
  rw [place_eq] at h
  split at h
  · cases h
  cases hname : StreamSlot.understood? header.name with
  | none =>
    rw [hname] at h
    cases h
    exact ⟨hstrings, hblobs⟩
  | some slot =>
    rw [hname] at h
    simp only at h
    split at h
    · cases h
      exact ⟨hstrings, hblobs⟩
    cases slot with
    | strings =>
      obtain ⟨heap, hheap, h⟩ := Result.bind_eq_ok.mp h
      obtain ⟨-, rfl⟩ := Strings.read_eq_ok.mp hheap
      cases h
      exact ⟨fun heap hsome => Option.some.inj hsome ▸ hstream, hblobs⟩
    | blobs =>
      obtain ⟨heap, hheap, h⟩ := Result.bind_eq_ok.mp h
      obtain ⟨-, rfl⟩ := Blobs.read_eq_ok.mp hheap
      cases h
      exact ⟨hstrings, fun heap hsome => Option.some.inj hsome ▸ hstream⟩
    | tables | guids =>
      obtain ⟨_, -, h⟩ := Result.bind_eq_ok.mp h
      cases h
      exact ⟨hstrings, hblobs⟩
    | pdb | raw =>
      cases h
      exact ⟨hstrings, hblobs⟩

/-- The heaps have been read from streams, whose sizes are known in four bytes. -/
lemma heaps_lt_of_read {data : Bytes} {m : Metadata} (h : read data = .ok m) :
    m.strings.data.size < 2 ^ 32 ∧ m.blobs.data.size < 2 ^ 32 := by
  obtain ⟨found, -, -, hfound, -, -, hstrings, hblobs, -⟩ := read_eq_ok h
  have hfold : ∀ (headers : List StreamHeader) (start : Found), SmallHeaps start →
      headers.foldlM (place data (m.pdb.map PdbHeader.rows)) start = .ok found →
        SmallHeaps found := by
    intro headers
    induction headers with
    | nil =>
      intro start hstart h
      cases h
      exact hstart
    | cons header headers ih =>
      intro start hstart h
      obtain ⟨next, hnext, hrest⟩ := Result.foldlM_cons_eq_ok.mp h
      exact ih next (smallHeaps_of_place hstart hnext) hrest
  obtain ⟨hsmall, hsmall'⟩ := hfold _ _ ⟨by simp, by simp⟩ hfound
  rw [hstrings, hblobs]
  constructor
  · cases hsome : found.strings with
    | none => decide
    | some heap => exact hsmall heap hsome
  · cases hsome : found.blobs with
    | none => decide
    | some heap => exact hsmall' heap hsome

end Metadata

namespace Output

open LayoutPlan MethodPlan
open MetaSection (Pushed)

variable {image : Image} {plan : MethodPlan} {metadata metadata' : Metadata}
  {pushed more : List (UInt32 × Bytes)} {m : Method} {row : Row} {before state : AddedState}
  {id : Nat} {rva : UInt32}

/-- The row of an added method leads to its name and its signature in the heaps, and to its code
where that has been pushed. -/
def LeadsTo (plan : MethodPlan) (metadata : Metadata) (pushed : List (UInt32 × Bytes)) (m : Method)
    (row : Row) : Prop :=
  ∃ rva name blob encoded body signature,
    row = #[rva, m.implFlags, m.flags, UInt32.ofNat name, UInt32.ofNat blob, 0] ∧
    metadata.strings.get name = .ok m.name ∧
    m.encodedSignature = some signature ∧ metadata.blobs.get blob = .ok signature ∧
    m.encodedBody = some encoded ∧ plan.rids.body m encoded = .ok body ∧ (rva, body) ∈ pushed

lemma LeadsTo.mono (h : LeadsTo plan metadata pushed m row) (hedited : metadata.Edited metadata') :
    LeadsTo plan metadata' (pushed ++ more) m row := by
  obtain ⟨rva, name, blob, encoded, body, signature, hrow, hname, hsignature, hblob, hencoded,
    hbody, hpushed⟩ := h
  obtain ⟨hstrings, hblobs⟩ := hedited.gets
  exact ⟨rva, name, blob, encoded, body, signature, hrow, hstrings _ _ hname, hsignature,
    hblobs _ _ hblob, hencoded, hbody, List.mem_append_left _ hpushed⟩

/-- An added method with a body, and with a name that a heap can give back. -/
def HasCode (m : Method) : Prop := Strings.IsName m.name ∧ m.encodedBody.isSome

lemma leadsTo_of_addMethod (h : addMethod image plan before id = .ok state)
    (hformed : before.metadata.Formed) (hpushed : Pushed rva before.added pushed)
    (hcode : ∀ m, image.methods[id]? = some m → HasCode m) : ∃ m row piece,
      image.methods[id]? = some m ∧ state.rows = before.rows ++ [(id, row)] ∧
      Pushed rva state.added (pushed ++ [piece]) ∧
      LeadsTo plan state.metadata (pushed ++ [piece]) m row := by
  unfold addMethod at h
  split at h
  · rename_i m hm
    split at h
    · rename_i signature hsignature
      obtain ⟨⟨address, added⟩, hbody, h⟩ := Result.bind_eq_ok.mp h
      obtain ⟨⟨blobs, blob⟩, hintern, h⟩ := Result.bind_eq_ok.mp h
      cases h
      obtain ⟨hname, hencoded⟩ := hcode m hm
      obtain ⟨encoded, hencoded⟩ := Option.isSome_iff_exists.mp hencoded
      unfold addBody at hbody
      rw [hencoded] at hbody
      obtain ⟨body, hrenumbered, hbody⟩ := Result.bind_eq_ok.mp hbody
      split at hbody
      · rename_i hpush
        cases hbody
        have hstring : (before.metadata.strings.intern m.name).1.get _ = .ok m.name :=
          (Strings.lawful.get_intern hformed.strings_zero hname
            (Strings.internInPlace_apply ..)).2
        have hblob : blobs.get blob = .ok signature :=
          (Blobs.lawful.get_intern hformed.blobs_zero trivial
            (Blobs.internInPlace_eq_ok.mpr hintern)).2
        exact ⟨m, _, (_, body), hm, rfl, hpushed.ok hpush, _, _, blob, encoded, body, signature, rfl,
          hstring, hsignature, hblob, hencoded, hrenumbered, by simp⟩
      · cases hbody
    · cases h
  · cases h

lemma leadsTo_of_addMethods {ids : List Nat}
    (h : ids.foldlM (addMethod image plan) before = .ok state) (hformed : before.metadata.Formed)
    (hpushed : Pushed rva before.added pushed)
    (hcode : ∀ id ∈ ids, ∀ m, image.methods[id]? = some m → HasCode m)
    (hrows : ∀ p ∈ before.rows, ∃ m, image.methods[p.1]? = some m ∧
      LeadsTo plan before.metadata pushed m p.2) :
    ∃ pushed', Pushed rva state.added pushed' ∧ ∀ p ∈ state.rows, ∃ m,
      image.methods[p.1]? = some m ∧ LeadsTo plan state.metadata pushed' m p.2 := by
  induction ids generalizing before pushed with
  | nil =>
    cases h
    exact ⟨pushed, hpushed, hrows⟩
  | cons id ids ih =>
    obtain ⟨next, hnext, hrest⟩ := Result.foldlM_cons_eq_ok.mp h
    obtain ⟨hhead, htail⟩ := List.forall_mem_cons.mp hcode
    obtain ⟨m, row, piece, hm, hnew, hpushed', hleads⟩ :=
      leadsTo_of_addMethod hnext hformed hpushed hhead
    obtain ⟨hedited, -⟩ := addMethod_eq_ok hnext
    refine ih hrest (hedited.formed hformed) hpushed' htail fun p hp => ?_
    rw [hnew] at hp
    rcases List.mem_append.mp hp with hp | hp
    · obtain ⟨m', hm', hleads'⟩ := hrows p hp
      exact ⟨m', hm', hleads'.mono hedited⟩
    · rw [List.mem_singleton.mp hp]
      exact ⟨m, hm, hleads⟩

variable {s : Stages} {target : Token}

lemma Stages.Follow.standsAt_added (h : s.Follow image none)
    (haddress : Addressable image.file s.layout s.added) (hcontained : image.Contained s.layout) :
    s.image.StandsAt s.layout.sectionStart s.added.data := by
  have hsigned : s.signed = s.hashed :=
    h.signature.resolve_right fun ⟨pair, hpair, _⟩ => by cases hpair
  have hlaid := h.toUnsigned.laid haddress.read haddress.headers haddress.sections hcontained
  obtain ⟨checksum, hlast⟩ := h.image
  rw [hsigned] at hlast
  refine (sameBut_checksum hlast).standsAt (fun x hx hx' => ?_) hlaid.added
  have := hx.1
  have := hx'.2
  have := haddress.headers.table_le
  have := haddress.headers.table
  have := haddress.headersSize_le
  have := haddress.kept_le
  simp only [PeHeaders.checksumOffset, PeHeaders.optionalOffset] at *
  omega

lemma Stages.Follow.readBody_added (h : s.Follow image none)
    (haddress : Addressable image.file s.layout s.added) (hcontained : image.Contained s.layout)
    (hpushed : Pushed s.layout.sectionRva s.added pushed)
    (hmem : (rva, Image.initializerBody target) ∈ pushed) :
    (s.layout.newFile image.file s.added s.image).readBody rva 0 =
      .ok (some (Body.encodedBody (Image.initializerCode target) 8),
        Image.initializerInstructions target (UInt64.ofNat (rva.toNat + 1))) := by
  obtain ⟨hle, hstands⟩ := hpushed.standsAt hmem
  have hpos := haddress.rva_pos
  have hend := hstands.le_size
  have hraw := haddress.le_rawSize
  have hlength : (Image.initializerBody target).size = 7 := by
    simp [Image.initializerBody, Image.size_initializerCode]
  have hsection := haddress.rva
  dsimp only at hle hstands hend
  rw [hlength] at hend
  have hleads : (s.layout.newFile image.file s.added s.image).Leads
      (s.layout.addedSection image.file s.added) rva.toNat _ :=
    haddress.leads_added (hsection ▸ hle) (by rw [hsection]; omega) rva.toNat_lt
  have hstop : (s.layout.addedSection image.file s.added).rawEnd =
      s.layout.sectionStart + rawSize image.file s.added := by
    have hstart := haddress.rawStart_added
    rw [Section.rawStart] at hstart
    rw [Section.rawEnd, hstart, haddress.rawSize_added]
  have hsize : s.image.size = s.layout.sectionStart + rawSize image.file s.added :=
    h.size haddress.read
  obtain ⟨w, htail, hdata, hstart, hstop'⟩ := PeFile.exists_tail hleads <| show _ ≤ s.image.size by
    rw [hstop, hsize]
  have hplace : w.data.StandsAt w.start (Image.initializerBody target) := by
    rw [hdata, hstart, hsection]
    exact (h.standsAt_added haddress hcontained).trans hstands
  obtain ⟨hread, hcode⟩ := Body.read_encode (Image.encode_initializerCode target) hplace <| by
    rw [Window.size, hstop', hstop, hstart, hsection, hlength]
    omega
  have hheader : (Body.encodedBody (Image.initializerCode target) 8).headerSize = 1 := by
    rw [Body.encodedBody, if_pos (by rw [Image.size_initializerCode]; decide)]
  refine PeFile.readBody_eq_ok.mpr (.inr ⟨?_, _, w, _, rfl, htail, hread, hcode, ?_⟩)
  · rintro (hzero | hil)
    · rw [hzero] at hle
      exact absurd hle (by simpa using hpos.ne')
    · exact hil (by decide)
  · rw [hheader]
    exact Image.decode_initializerCode ..

/-- The rows of an output's added methods lead to what has been pushed for them. -/
lemma Stages.Start.leadsTo (h : s.Start image none) (hformed : image.metadata.Formed)
    (hcode : ∀ id ∈ (ofImage image).added.map Prod.snd, ∀ m, image.methods[id]? = some m →
      HasCode m) :
    ∃ pushed, Pushed s.layout.sectionRva s.added pushed ∧ ∀ p ∈ s.rowed.rows, ∃ m,
      image.methods[p.1]? = some m ∧ LeadsTo (ofImage image) s.rowed.metadata pushed m p.2 := by
  obtain ⟨pushed, hpushed, hrows⟩ := leadsTo_of_addMethods h.rowed hformed Pushed.new hcode (by simp)
  obtain ⟨cli, hcli, -⟩ := h.cli
  obtain ⟨address, between, hmetadata, hcli⟩ := MetaSection.bind_eq_ok.mp hcli
  obtain ⟨-, rfl⟩ := MetaSection.pure_eq_ok.mp hcli
  refine ⟨_, hpushed.ok hmetadata, fun p hp => ?_⟩
  obtain ⟨m, hm, hleads⟩ := hrows p hp
  exact ⟨m, hm, hleads.mono .refl⟩

lemma hasCode_of_initializerCalling (h : Image.initializerCalling target = .ok m) : HasCode m := by
  obtain ⟨-, -, -, hname, -⟩ := Image.initializerCalling_eq_ok h
  obtain ⟨-, -, hencoded, -⟩ := Image.parts_of_initializerCalling h
  refine ⟨?_, by rw [hencoded]; rfl⟩
  rw [hname, Strings.IsName]
  decide

variable {again : Metadata} {bytes data : Bytes}

lemma LeadsTo.initializer (h : LeadsTo (ofImage image) metadata pushed m row)
    (htarget : Image.initializerCalling target = .ok m) : ∃ rva name blob,
      row = #[rva, 0, Image.initializerFlags, .ofNat name, .ofNat blob, 0] ∧
      metadata.strings.get name = .ok Image.initializerName ∧
      metadata.blobs.get blob = .ok Image.initializerSignature ∧
      (rva, Image.initializerBody ((ofImage image).rids.token target)) ∈ pushed := by
  obtain ⟨rva, name, blob, encoded, body, signature, hrow, hname, hsignature, hblob, hencoded, hbody,
    hplace⟩ := h
  obtain ⟨-, hflags, himplFlags, hcalled, -⟩ := Image.initializerCalling_eq_ok htarget
  obtain ⟨-, -, hencoded', hsignature'⟩ := Image.parts_of_initializerCalling htarget
  rw [hencoded, Option.some.injEq] at hencoded'
  rw [hsignature, Option.some.injEq] at hsignature'
  rw [hencoded', Image.body_initializer rfl htarget, Except.ok.injEq] at hbody
  rw [himplFlags, hflags] at hrow
  exact ⟨rva, name, blob, hrow, hcalled ▸ hname, hsignature' ▸ hblob, hbody ▸ hplace⟩

/-- What an initializer's row leads to is read as a method that calls another one. -/
lemma exists_readMethod_of_cells {file : PeFile} {name blob rid start : Nat}
    (hread : Metadata.read bytes = .ok again)
    (hcells : ∀ column ≠ 5, ∀ value,
      (#[rva, 0, Image.initializerFlags, .ofNat name, .ofNat blob, 0] : Row)[column]? = some value →
        again.tables.cell .methodDef rid column = .ok value)
    (hname : again.strings.get name = .ok Image.initializerName)
    (hblob : again.blobs.get blob = .ok Image.initializerSignature)
    (hrun : again.tables.run .methodDef 5 rid .param = .ok (start, start))
    (hbody : file.readBody rva 0 = .ok (some (Body.encodedBody (Image.initializerCode target) 8),
      Image.initializerInstructions target (UInt64.ofNat (rva.toNat + 1)))) :
    ∃ m, file.readMethod again rid = .ok m ∧ m.rid = some rid ∧ m.CallsOnce target := by
  obtain ⟨hstrings, hblobs⟩ := Metadata.heaps_lt_of_read hread
  have hname' : again.stringCell .methodDef rid 3 = .ok Image.initializerName := by
    refine Result.bind_eq_ok.mpr ⟨.ofNat name, hcells 3 (by decide) _ rfl, ?_⟩
    rwa [UInt32.toNat_ofNat_of_lt' ((Strings.lt_size_of_get hname).trans hstrings)]
  have hblob' : again.blobs.get (UInt32.ofNat blob).toNat = .ok Image.initializerSignature := by
    rwa [UInt32.toNat_ofNat_of_lt' ((Blobs.lt_size_of_get hblob).trans hblobs)]
  have hnames : again.readParamNames start start = .ok [] := by
    rw [Metadata.readParamNames, Nat.sub_self]
    rfl
  obtain ⟨signature, hsigned, hparams, hreturns⟩ := Image.exists_initializerSignature
  have hmethod : file.readMethod again rid = .ok
      { rid := some rid, name := Image.initializerName, rva, flags := Image.initializerFlags
        implFlags := 0, signature, returnType := signature.returns.fullName again.typeName
        params := again.methodParams [] signature.params
        body := some (Body.encodedBody (Image.initializerCode target) 8)
        instructions := Image.initializerInstructions target (UInt64.ofNat (rva.toNat + 1))
        encodedBody := none, encodedSignature := none } := by
    simp only [PeFile.readMethod, Result.bind_eq_ok]
    exact ⟨_, hname', rva, hcells 0 (by decide) _ rfl, 0, hcells 1 (by decide) _ rfl,
      .ofNat blob, hcells 4 (by decide) _ rfl, _, hblob', signature,
      Result.mapError_eq_ok.mpr hsigned, (start, start), hrun, [], hnames, (_, _),
      Result.mapError_eq_ok.mpr hbody, _, hcells 2 (by decide) _ rfl, rfl⟩
  refine ⟨_, hmethod, rfl, rfl, rfl, rfl, ?_, hreturns _, rfl, rfl⟩
  simp only [hparams]
  rfl

/-- An added initializer is read from its row in the output. -/
theorem Stages.Follow.readMethod_added (h : s.Follow image none)
    (haddress : Addressable image.file s.layout s.added) (hcontained : image.Contained s.layout)
    (himage : image.Prepared data) (hread : Metadata.read bytes = .ok again)
    (hholds : Holds image s.rowed again)
    (hadded : ∀ id, image.metadata.tables.count .methodDef ≤ id → ∀ m, image.methods[id]? = some m →
      ∃ target, Image.initializerCalling target = .ok m) {p : Nat}
    (hp : (ofImage image).rows[p]? = some (.added id)) (hm : image.methods[id]? = some m)
    (htarget : Image.initializerCalling target = .ok m) : ∃ m',
      (s.layout.newFile image.file s.added s.image).readMethod again (p + 1) = .ok m' ∧
        m'.rid = some (p + 1) ∧ m'.CallsOnce ((ofImage image).rids.token target) := by
  obtain ⟨_, -, hmetadata⟩ := himage.parsed.opens.metadata
  obtain ⟨hformed, -⟩ := Metadata.formed_of_read hmetadata
  obtain ⟨pushed, hpushed, hrows⟩ := h.toStart.leadsTo hformed fun id hid m hm => by
    obtain ⟨target, htarget⟩ := hadded id (le_of_mem_added himage.arranged hid) m hm
    exact hasCode_of_initializerCalling htarget
  obtain ⟨row, hrow, hcells⟩ := hholds.rows.added p id hp
  obtain ⟨m', hm', hleads⟩ := hrows _ (mem_of_addedRow hrow)
  obtain rfl := Option.some.inj (hm.symm.trans hm')
  obtain ⟨rva, name, blob, rfl, hname, hblob, hplace⟩ := hleads.initializer htarget
  obtain ⟨start, hrun⟩ :=
    hholds.rows.params.added (p + 1) id (mem_added.mpr ⟨Nat.succ_pos _, hp⟩)
  exact exists_readMethod_of_cells hread (fun column hne value => (hcells column hne value).mpr)
    (hholds.strings _ _ hname) (hholds.blobs _ _ hblob) hrun
    (h.readBody_added haddress hcontained hpushed hplace)

end Output

end CliImage
