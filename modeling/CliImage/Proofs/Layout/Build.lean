import CliImage.Proofs.Layout.Place
import Mathlib.Data.List.Basic

/-! What building an output writes over the bytes that it has placed. -/

namespace CliImage

namespace Edit

variable {α β : Type} {g : β → Edit Unit}

lemma forM_append (xs ys : List β) : (xs ++ ys).forM g = (xs.forM g >>= fun _ => ys.forM g) := by
  induction xs with
  | nil => rfl
  | cons x xs ih =>
    rw [List.cons_append, List.forM, ih, List.forM, bind_assoc]

lemma forM_flatMap (f : α → List β) (xs : List α) :
    (xs.flatMap f).forM g = xs.forM fun x => (f x).forM g := by
  induction xs with
  | nil => rfl
  | cons x xs ih => rw [List.flatMap_cons, forM_append, ih, List.forM]

lemma forM_map (f : α → β) (xs : List α) : (xs.map f).forM g = xs.forM fun x => g (f x) := by
  induction xs with
  | nil => rfl
  | cons x xs ih => rw [List.map_cons, List.forM, ih, List.forM]

end Edit

namespace LayoutPlan

open Bytes Edit

variable {file : PeFile} {plan : LayoutPlan} {added : MetaSection} {data after : Bytes}

/-- Where a file pointer leads in the output. -/
def moved (plan : LayoutPlan) (pointer : Nat) : Nat :=
  if pointer = 0 then 0 else plan.shift pointer

lemma moved_of_not_grows (h : plan.grows = false) (pointer : Nat) : plan.moved pointer = pointer := by
  have hgrowth : plan.growth = 0 := by
    rw [grows, decide_eq_false_iff_not] at h
    omega
  unfold moved shift
  rw [hgrowth]
  split
  · omega
  · split <;> rfl

lemma shiftPointer_spec {field : Nat} {u : Unit} (h : plan.shiftPointer field data = .ok u after) :
    SameBut (Within field 4) data after ∧
      after.natAt field 4 = plan.moved (data.natAt field 4) % 2 ^ 32 := by
  obtain ⟨pointer, _, hread, h⟩ := Edit.bind_eq_ok.mp h
  obtain ⟨hfit, hpointer, rfl⟩ := numberAt_eq_ok.mp hread
  rw [hpointer, moved]
  split at h
  · rename_i hzero
    obtain ⟨-, rfl⟩ := Edit.pure_eq_ok.mp h
    exact ⟨SameBut.refl .., by rw [hpointer, hzero]; rfl⟩
  · rename_i hne
    obtain ⟨-, rfl⟩ := put_eq_ok.mp h
    have hsame := sameBut_overlay data field (ofNat 4 (plan.shift pointer))
    rw [size_ofNat] at hsame
    refine ⟨hsame, ?_⟩
    have hend : field + (ofNat 4 (plan.shift pointer)).size ≤ data.size := by rwa [size_ofNat]
    have hstands := standsAt_overlay hend
    have := hstands.natAt (i := 0) (w := 4) (by rw [size_ofNat])
    rw [Nat.add_zero, natAt_ofNat] at this
    rw [if_neg hne, this]

/-- Pointers that stand apart are moved one by one. -/
lemma shiftPointers_spec {fields : List Nat}
    (hapart : fields.Pairwise fun a b => a + 4 ≤ b ∨ b + 4 ≤ a)
    (h : fields.forM plan.shiftPointer data = .ok () after) :
    SameBut (fun x => ∃ a ∈ fields, Within a 4 x) data after ∧
      ∀ a ∈ fields, after.natAt a 4 = plan.moved (data.natAt a 4) % 2 ^ 32 := by
  induction fields generalizing data with
  | nil =>
    obtain ⟨-, rfl⟩ := Edit.pure_eq_ok.mp h
    exact ⟨SameBut.refl .., fun a ha => by cases ha⟩
  | cons field fields ih =>
    obtain ⟨between, hfirst, hrest⟩ := forM_cons_eq_ok.mp h
    obtain ⟨hfar, hapart⟩ := List.pairwise_cons.mp hapart
    obtain ⟨hsame, hvalue⟩ := shiftPointer_spec hfirst
    obtain ⟨hsame', hvalues⟩ := ih hapart hrest
    refine ⟨(hsame.mono fun x hx => ⟨field, List.mem_cons_self .., hx⟩).trans
      (hsame'.mono fun x ⟨a, ha, hx⟩ => ⟨a, List.mem_cons_of_mem _ ha, hx⟩), fun a ha => ?_⟩
    rcases List.mem_cons.mp ha with rfl | ha
    · rw [← hvalue]
      refine hsame'.natAt fun x hx ⟨b, hb, hx'⟩ => ?_
      have := hfar b hb
      obtain ⟨hx, hx2⟩ := hx
      obtain ⟨hx', hx2'⟩ := hx'
      omega
    · rw [hvalues a ha]
      congr 2
      refine hsame.natAt fun x hx hx' => ?_
      have := hfar a ha
      obtain ⟨hx, hx2⟩ := hx
      obtain ⟨hx', hx2'⟩ := hx'
      omega

/-- The fields of the section headers that point into the file. -/
def sectionPointers (file : PeFile) : List Nat :=
  (List.range file.sections.length).flatMap fun i => pointerFields.map fun field =>
    file.headers.sectionTableOffset + i * Section.headerSize + field

lemma mem_sectionPointers {a : Nat} : a ∈ sectionPointers file ↔
    ∃ i < file.sections.length, ∃ field ∈ pointerFields,
      a = file.headers.sectionTableOffset + i * Section.headerSize + field := by
  simp [sectionPointers, eq_comm]

lemma sectionPointers_apart :
    (sectionPointers file).Pairwise fun a b => a + 4 ≤ b ∨ b + 4 ≤ a := by
  refine List.pairwise_flatMap.mpr ⟨fun i _ => ?_, ?_⟩
  · refine List.pairwise_map.mpr ?_
    refine List.Pairwise.imp (R := fun a b => a + 4 ≤ b) (fun h => by omega) ?_
    decide
  · refine List.Pairwise.imp (R := fun i j => i < j) (fun {i j} hij x hx y hy => ?_)
      List.pairwise_lt_range
    simp only [pointerFields, List.mem_map, List.mem_cons, List.not_mem_nil, or_false,
      Section.headerSize] at hx hy
    obtain ⟨f, hf, rfl⟩ := hx
    obtain ⟨f', hf', rfl⟩ := hy
    omega

@[simp] lemma size_sectionHeader (plan : LayoutPlan) (file : PeFile) (added : MetaSection) :
    (plan.sectionHeader file added).size = 40 := by
  have hname : (Utf8.encode MetaSection.name).size = 5 := by decide +kernel
  simp only [sectionHeader, Array.size_append, size_zeros, size_ofNat, size_ofUInt32, hname]

/-- Where the header of the added section goes. -/
def slot (file : PeFile) : Nat :=
  file.headers.sectionTableOffset + file.sections.length * Section.headerSize

/-- Those fields move where the headers grow. -/
def IsSectionPointer (file : PeFile) (plan : LayoutPlan) (x : Nat) : Prop :=
  plan.grows = true ∧ ∃ a ∈ sectionPointers file, Within a 4 x

lemma updateSectionTable_spec (h : plan.updateSectionTable file added data = .ok () after) :
    SameBut (fun x => IsSectionPointer file plan x ∨ Within (slot file) 40 x) data after ∧
      (∀ a ∈ sectionPointers file, after.natAt a 4 = plan.moved (data.natAt a 4) % 2 ^ 32) ∧
      after.StandsAt (slot file) (plan.sectionHeader file added) := by
  have hput {between : Bytes} (h : Edit.put (slot file) (plan.sectionHeader file added) between =
      .ok () after) : SameBut (Within (slot file) 40) between after ∧
        after.StandsAt (slot file) (plan.sectionHeader file added) := by
    obtain ⟨hfit, rfl⟩ := put_eq_ok.mp h
    have hsame := sameBut_overlay between (slot file) (plan.sectionHeader file added)
    rw [size_sectionHeader] at hsame
    exact ⟨hsame, standsAt_overlay hfit⟩
  have hbefore : ∀ a ∈ sectionPointers file, ∀ x, Within a 4 x → ¬ Within (slot file) 40 x := by
    intro a ha x hx hx'
    obtain ⟨i, hi, field, hfield, rfl⟩ := mem_sectionPointers.mp ha
    simp only [pointerFields, List.mem_cons, List.not_mem_nil, or_false] at hfield
    obtain ⟨hx, hx2⟩ := hx
    obtain ⟨hx', hx2'⟩ := hx'
    rw [slot, Section.headerSize] at hx'
    rw [Section.headerSize] at hx hx2
    omega
  unfold updateSectionTable at h
  simp only at h
  split at h
  · rename_i hgrows
    obtain ⟨_, between, hpointers, h⟩ := Edit.bind_eq_ok.mp h
    obtain ⟨hsame', hstands⟩ := hput h
    have hpointers' : (sectionPointers file).forM plan.shiftPointer data = .ok () between := by
      rw [sectionPointers, forM_flatMap]
      simp only [forM_map]
      exact hpointers
    obtain ⟨hsame, hvalues⟩ := shiftPointers_spec sectionPointers_apart hpointers'
    refine ⟨(hsame.mono fun x hx => .inl ⟨hgrows, hx⟩).trans (hsame'.mono fun x hx => .inr hx),
      fun a ha => ?_, hstands⟩
    rw [← hvalues a ha]
    exact hsame'.natAt (hbefore a ha)
  · rename_i hgrows
    obtain ⟨hsame, hstands⟩ := hput h
    refine ⟨hsame.mono fun x hx => .inr hx, fun a ha => ?_, hstands⟩
    rw [moved_of_not_grows (by simpa using hgrows), hsame.natAt (hbefore a ha),
      Nat.mod_eq_of_lt (by have := natAt_lt data a 4; omega)]

/-- Where the certificates' directory stands. -/
def certificateOffset (file : PeFile) : Nat :=
  file.headers.directoryOffset file.optional.isPlus PeFile.certificateDirectory

/-- The fields of the headers that are written anew, the checksum among them and the section table
apart. -/
def IsHeaderField (file : PeFile) (x : Nat) : Prop :=
  Within (file.headers.peOffset + 6) 2 x ∨ Within (file.headers.peOffset + 12) 4 x ∨
    Within (file.headers.peOffset + 32) 4 x ∨ Within (file.headers.peOffset + 80) 12 x ∨
    (file.directory? PeFile.certificateDirectory).isSome ∧ Within (certificateOffset file) 8 x

lemma le_certificateOffset (file : PeFile) :
    file.headers.peOffset + 152 ≤ certificateOffset file := by
  simp only [certificateOffset, PeHeaders.directoryOffset, PeHeaders.optionalOffset,
    PeFile.certificateDirectory, PeHeaders.fixedSize]
  split <;> omega

lemma put_ofNat_spec {offset w n : Nat} {u : Unit}
    (h : Edit.put offset (ofNat w n) data = .ok u after) :
    SameBut (Within offset w) data after ∧ after.natAt offset w = n % 256 ^ w := by
  obtain ⟨hfit, rfl⟩ := put_eq_ok.mp h
  have hsame := sameBut_overlay data offset (ofNat w n)
  rw [size_ofNat] at hsame
  refine ⟨hsame, ?_⟩
  have := (standsAt_overlay hfit).natAt (i := 0) (w := w) (by simp)
  rwa [Nat.add_zero, natAt_ofNat] at this

lemma updateHeaders_spec (h : plan.updateHeaders file added data = .ok () after) :
    SameBut (IsHeaderField file) data after ∧
      after.natAt (file.headers.peOffset + 6) 2 =
        (data.natAt (file.headers.peOffset + 6) 2 + 1) % 2 ^ 16 ∧
      after.natAt (file.headers.peOffset + 84) 4 = (plan.oldHeaders + plan.growth) % 2 ^ 32 ∧
      ((file.directory? PeFile.certificateDirectory).isSome →
        after.StandsAt (certificateOffset file) (zeros 8)) := by
  have hcert := le_certificateOffset file
  unfold updateHeaders at h
  simp only [PeHeaders.coffOffset, PeHeaders.optionalOffset, Nat.add_assoc, Nat.reduceAdd] at h
  obtain ⟨count, _, hread, h⟩ := Edit.bind_eq_ok.mp h
  obtain ⟨-, rfl, rfl⟩ := numberAt_eq_ok.mp hread
  obtain ⟨_, counted, hcount, h⟩ := Edit.bind_eq_ok.mp h
  obtain ⟨hsame₁, hcount⟩ := put_ofNat_spec hcount
  -- the pointer to the symbol table follows where the headers grow
  have hsymbols : ∃ between, SameBut (Within (file.headers.peOffset + 12) 4) counted between ∧
      (do
        let initialized ← Edit.numberAt (file.headers.peOffset + 32) 4
        Edit.put (file.headers.peOffset + 32) (ofNat 4 (initialized + rawSize file added))
        Edit.put (file.headers.peOffset + 80)
          (ofNat 4 (alignUp (added.rva.toNat + added.data.size) file.sectionAlignment))
        Edit.put (file.headers.peOffset + 84) (ofNat 4 (plan.oldHeaders + plan.growth))
        if (file.directory? PeFile.certificateDirectory).isSome then do
          let entry ← Edit.lift (file.directoryOffset PeFile.certificateDirectory)
          Edit.put entry (zeros 8) : Edit Unit) between = .ok () after := by
    split at h
    · obtain ⟨_, between, hshift, h⟩ := Edit.bind_eq_ok.mp h
      exact ⟨between, (shiftPointer_spec hshift).1, h⟩
    · exact ⟨counted, SameBut.refl .., h⟩
  clear h
  obtain ⟨between, hsame₂, h⟩ := hsymbols
  obtain ⟨_, _, hread, h⟩ := Edit.bind_eq_ok.mp h
  obtain ⟨-, rfl, rfl⟩ := numberAt_eq_ok.mp hread
  obtain ⟨_, initialized, hput, h⟩ := Edit.bind_eq_ok.mp h
  obtain ⟨hsame₃, -⟩ := put_ofNat_spec hput
  obtain ⟨_, sized, hput, h⟩ := Edit.bind_eq_ok.mp h
  obtain ⟨hsame₄, -⟩ := put_ofNat_spec hput
  obtain ⟨_, headed, hput, h⟩ := Edit.bind_eq_ok.mp h
  obtain ⟨hsame₅, hheaders⟩ := put_ofNat_spec hput
  have hlast : SameBut (fun x => (file.directory? PeFile.certificateDirectory).isSome ∧
      Within (certificateOffset file) 8 x) headed after ∧
      ((file.directory? PeFile.certificateDirectory).isSome →
        after.StandsAt (certificateOffset file) (zeros 8)) := by
    split at h
    · rename_i hsome
      obtain ⟨entry, _, hlift, h⟩ := Edit.bind_eq_ok.mp h
      obtain ⟨hentry, rfl⟩ := lift_eq_ok.mp hlift
      obtain rfl : certificateOffset file = entry := by
        unfold PeFile.directoryOffset at hentry
        split at hentry
        · exact Except.ok.inj hentry
        · cases hentry
      obtain ⟨hfit, rfl⟩ := put_eq_ok.mp h
      have hsame := sameBut_overlay headed (certificateOffset file) (zeros 8)
      rw [size_zeros] at hsame
      exact ⟨hsame.mono fun x hx => ⟨hsome, hx⟩, fun _ => standsAt_overlay hfit⟩
    · rename_i hnone
      obtain ⟨-, rfl⟩ := Edit.pure_eq_ok.mp h
      exact ⟨SameBut.refl .., fun hsome => absurd hsome hnone⟩
  obtain ⟨hsame₆, hcertificate⟩ := hlast
  have hfar {pos w pos' w' : Nat} (hapart : pos + w ≤ pos' ∨ pos' + w' ≤ pos) :
      ∀ x, Within pos w x → ¬ Within pos' w' x := by
    rintro x ⟨hx, hx2⟩ ⟨hx', hx2'⟩
    omega
  have hfar' {pos w : Nat} (hle : pos + w ≤ file.headers.peOffset + 152) :
      ∀ x, Within pos w x → ¬ ((file.directory? PeFile.certificateDirectory).isSome ∧
        Within (certificateOffset file) 8 x) := by
    rintro x ⟨hx, hx2⟩ ⟨-, hx', hx2'⟩
    omega
  refine ⟨?_, ?_, ?_, hcertificate⟩
  · refine (hsame₁.mono fun x hx => .inl hx).trans ?_
    refine (hsame₂.mono fun x hx => .inr (.inl hx)).trans ?_
    refine (hsame₃.mono fun x hx => .inr (.inr (.inl hx))).trans ?_
    refine (hsame₄.mono fun x ⟨hx, hx2⟩ => .inr (.inr (.inr (.inl ⟨hx, by omega⟩)))).trans ?_
    refine (hsame₅.mono fun x ⟨hx, hx2⟩ =>
      .inr (.inr (.inr (.inl ⟨by omega, by omega⟩)))).trans ?_
    exact hsame₆.mono fun x hx => .inr (.inr (.inr (.inr hx)))
  · rw [hsame₆.natAt (hfar' (by omega)), hsame₅.natAt (hfar (by omega)),
      hsame₄.natAt (hfar (by omega)), hsame₃.natAt (hfar (by omega)),
      hsame₂.natAt (hfar (by omega)), hcount]
  · rw [hsame₆.natAt (hfar' (by omega)), hheaders]

lemma shift_add_le {x y : Nat} (h : x ≤ y) : plan.shift x + (y - x) ≤ plan.shift y := by
  unfold shift
  split <;> split <;> omega

lemma debugPointers_apart {entries : List DebugEntry} (h : file.debugEntries = .ok entries) :
    (entries.map fun e => plan.shift e.pointerOffset).Pairwise
      fun a b => a + 4 ≤ b ∨ b + 4 ≤ a := by
  unfold PeFile.debugEntries at h
  split at h
  · cases h
    exact List.Pairwise.nil
  · obtain ⟨start, -, h⟩ := Result.bind_eq_ok.mp h
    obtain ⟨bytes, -, h⟩ := Result.bind_eq_ok.mp h
    cases h
    refine List.pairwise_map.mpr (List.pairwise_map.mpr ?_)
    refine List.Pairwise.imp (fun {i j} hij => .inl ?_) List.pairwise_lt_range
    have hle : (DebugEntry.readAt file.data (start + DebugEntry.size * i)).pointerOffset ≤
        (DebugEntry.readAt file.data (start + DebugEntry.size * j)).pointerOffset := by
      simp only [DebugEntry.readAt, DebugEntry.pointerOffset, DebugEntry.size]
      omega
    have : plan.shift _ + _ ≤ plan.shift _ := shift_add_le hle
    simp only [DebugEntry.readAt, DebugEntry.pointerOffset, DebugEntry.size] at this ⊢
    omega

/-- The file pointers of the debug entries, in the output; they move where the headers grow. -/
def IsDebugPointer (file : PeFile) (plan : LayoutPlan) (x : Nat) : Prop :=
  plan.grows = true ∧ ∃ entries, file.debugEntries = .ok entries ∧
    ∃ e ∈ entries, Within (plan.shift e.pointerOffset) 4 x

lemma updateDebugDirectory_spec (h : plan.updateDebugDirectory file data = .ok () after) :
    SameBut (IsDebugPointer file plan) data after ∧
      ∀ entries, file.debugEntries = .ok entries → ∀ e ∈ entries,
        after.natAt (plan.shift e.pointerOffset) 4 =
          plan.moved (data.natAt (plan.shift e.pointerOffset) 4) % 2 ^ 32 := by
  unfold updateDebugDirectory at h
  split at h
  · rename_i hgrows
    obtain ⟨entries, _, hlift, h⟩ := Edit.bind_eq_ok.mp h
    obtain ⟨hentries, rfl⟩ := lift_eq_ok.mp hlift
    rw [← forM_map] at h
    obtain ⟨hsame, hvalues⟩ := shiftPointers_spec (debugPointers_apart hentries) h
    refine ⟨hsame.mono fun x ⟨a, ha, hx⟩ => ?_, fun entries' hentries' e he => ?_⟩
    · obtain ⟨e, he, rfl⟩ := List.mem_map.mp ha
      exact ⟨hgrows, entries, hentries, e, he, hx⟩
    · rw [hentries] at hentries'
      obtain rfl := Except.ok.inj hentries'
      exact hvalues _ (List.mem_map_of_mem he)
  · rename_i hgrows
    obtain ⟨-, rfl⟩ := Edit.pure_eq_ok.mp h
    refine ⟨SameBut.refl .., fun entries _ e _ => ?_⟩
    rw [moved_of_not_grows (by simpa using hgrows),
      Nat.mod_eq_of_lt (by have := natAt_lt data (plan.shift e.pointerOffset) 4; omega)]

lemma build_eq_ok : plan.build file added = .ok after ↔ ∃ tabled headed,
    plan.updateSectionTable file added (plan.place file added) = .ok () tabled ∧
      plan.updateHeaders file added tabled = .ok () headed ∧
      plan.updateDebugDirectory file headed = .ok () after := by
  unfold build
  rw [Result.bind_eq_ok]
  constructor
  · rintro ⟨⟨_, data⟩, hrun, h⟩
    cases h
    obtain ⟨_, tabled, htable, hrun⟩ := Edit.bind_eq_ok.mp (run_eq_ok.mp hrun)
    obtain ⟨_, headed, hheaders, hdebug⟩ := Edit.bind_eq_ok.mp hrun
    exact ⟨tabled, headed, htable, hheaders, hdebug⟩
  · rintro ⟨tabled, headed, htable, hheaders, hdebug⟩
    refine ⟨((), after), run_eq_ok.mpr ?_, rfl⟩
    exact Edit.bind_eq_ok.mpr ⟨(), tabled, htable, Edit.bind_eq_ok.mpr ⟨(), headed, hheaders, hdebug⟩⟩

/-- The optional header holds its directories, and the section table ends within the headers, which
the file holds. -/
@[mk_iff]
structure HeadersFit (file : PeFile) : Prop where
  directories : PeHeaders.fixedSize file.optional.isPlus + 8 * file.optional.directories.length ≤
    file.headers.optionalSize
  table : slot file ≤ file.headersSize
  size : file.headersSize ≤ file.data.size

/-- An output as far as it has been laid out: the headers tell of the moved and the added sections,
and all bytes stand in their places, those apart that have been written over. -/
structure Laid (file : PeFile) (plan : LayoutPlan) (added : MetaSection) (touched : Nat → Prop)
    (out : Bytes) : Prop where
  size : out.size = plan.sectionStart + rawSize file added
  header : ∀ x < file.headersSize, ¬ IsHeaderField file x → ¬ IsSectionPointer file plan x →
    ¬ Within (slot file) 40 x → out[x]? = file.data[x]?
  count : out.natAt (file.headers.peOffset + 6) 2 =
    (file.data.natAt (file.headers.peOffset + 6) 2 + 1) % 2 ^ 16
  headersSize : out.natAt (file.headers.peOffset + 84) 4 =
    (file.headersSize + plan.growth) % 2 ^ 32
  certificate : (file.directory? PeFile.certificateDirectory).isSome →
    out.StandsAt (certificateOffset file) (zeros 8)
  pointer : ∀ a ∈ sectionPointers file,
    out.natAt a 4 = plan.moved (file.data.natAt a 4) % 2 ^ 32
  slot : out.StandsAt (slot file) (plan.sectionHeader file added)
  kept : ∀ x, file.headersSize ≤ x → x < plan.kept → ¬ touched (plan.shift x) →
    out[plan.shift x]? = file.data[x]?
  added : out.StandsAt plan.sectionStart added.data

lemma HeadersFit.table_le (h : HeadersFit file) :
    file.headers.peOffset + 120 ≤ file.headers.sectionTableOffset ∧
      file.headers.sectionTableOffset ≤ slot file := by
  have := h.directories
  have hfixed : 96 ≤ PeHeaders.fixedSize file.optional.isPlus := by
    rw [PeHeaders.fixedSize]
    split <;> decide
  simp only [slot, PeHeaders.sectionTableOffset, PeHeaders.optionalOffset]
  omega

lemma HeadersFit.le_certificate (h : HeadersFit file)
    (hsome : (file.directory? PeFile.certificateDirectory).isSome) :
    certificateOffset file + 8 ≤ file.headers.sectionTableOffset := by
  have := h.directories
  have hlength : PeFile.certificateDirectory < file.optional.directories.length := by
    by_contra hle
    rw [PeFile.directory?, List.getElem?_eq_none (by omega)] at hsome
    cases hsome
  simp only [certificateOffset, PeHeaders.directoryOffset, PeHeaders.sectionTableOffset,
    PeHeaders.optionalOffset]
  omega

lemma not_pointer {x : Nat}
    (hx : x < file.headers.sectionTableOffset) {a : Nat} (ha : a ∈ sectionPointers file) :
    ¬ Within a 4 x := by
  obtain ⟨i, -, field, -, rfl⟩ := mem_sectionPointers.mp ha
  rintro ⟨hle, -⟩
  omega

lemma pointer_lt {a x : Nat} (ha : a ∈ sectionPointers file)
    (hx : Within a 4 x) : file.headers.sectionTableOffset ≤ x ∧ x < slot file := by
  obtain ⟨i, hi, field, hfield, rfl⟩ := mem_sectionPointers.mp ha
  obtain ⟨hx, hx'⟩ := hx
  simp only [pointerFields, List.mem_cons, List.not_mem_nil, or_false] at hfield
  simp only [slot, Section.headerSize] at hx hx' ⊢
  omega

lemma HeadersFit.headerField_lt (h : HeadersFit file) {x : Nat} (hx : IsHeaderField file x) :
    file.headers.peOffset + 6 ≤ x ∧ x < file.headers.sectionTableOffset := by
  have hle := le_certificateOffset file
  have := h.table_le
  rcases hx with ⟨hx, hx'⟩ | ⟨hx, hx'⟩ | ⟨hx, hx'⟩ | ⟨hx, hx'⟩ | ⟨hsome, hx, hx'⟩
  all_goals try omega
  have := h.le_certificate hsome
  omega

/-- Once section table and headers are written everything is laid out as planned. -/
lemma laid_of_headed {tabled headed : Bytes} (hplan : Planned file plan) (hfit : HeadersFit file)
    (halign : 0 < file.fileAlignment)
    (htable : plan.updateSectionTable file added (plan.place file added) = .ok () tabled)
    (hheaders : plan.updateHeaders file added tabled = .ok () headed) :
    Laid file plan added (fun _ => False) headed := by
  obtain ⟨hsame₁, hpointer, hslot⟩ := updateSectionTable_spec htable
  obtain ⟨hsame₂, hcount, hsizes, hcertificate⟩ := updateHeaders_spec hheaders
  have hold : plan.oldHeaders ≤ plan.kept := hplan.oldHeaders_le hfit.size
  have hstart : plan.kept + plan.growth ≤ plan.sectionStart := hplan.kept_le_start halign
  have hroom : slot file + 40 ≤ file.headersSize + plan.growth := hplan.room
  have htables := hfit.table_le
  have htabled := hfit.table
  have hwithin := hplan.oldHeaders
  have hplaced {x : Nat} (hx : x < file.headersSize) :
      (plan.place file added)[x]? = file.data[x]? := by
    have hget : (plan.place file added)[plan.shift x]? = file.data[x]? :=
      getElem?_place hplan.kept_le (show x < plan.kept by omega)
    rwa [shift_of_lt (by omega)] at hget
  have hnat {offset w : Nat} (hle : offset + w ≤ file.headersSize) :
      (plan.place file added).natAt offset w = file.data.natAt offset w :=
    natAt_congr fun i hi => hplaced (by omega)
  -- each of the two passes keeps clear of what the other writes
  have hfree₁ {x : Nat} (hx : x < file.headers.sectionTableOffset) :
      ¬ (IsSectionPointer file plan x ∨ Within (slot file) 40 x) := by
    rintro (⟨-, a, ha, hx'⟩ | ⟨hx', -⟩)
    · exact not_pointer hx ha hx'
    · omega
  have hfree₂ {x : Nat} (hx : file.headers.sectionTableOffset ≤ x) : ¬ IsHeaderField file x :=
    fun hfield => by
      have := (hfit.headerField_lt hfield).2
      omega
  have hlate {x : Nat} (hx : file.headersSize + plan.growth ≤ x) :
      ¬ (IsSectionPointer file plan x ∨ Within (slot file) 40 x) := by
    rintro (⟨-, a, ha, hx'⟩ | ⟨-, hx'⟩)
    · have := (pointer_lt ha hx').2
      omega
    · omega
  refine ⟨?_, ?_, ?_, ?_, hcertificate, ?_, ?_, ?_, ?_⟩
  · rw [hsame₂.1, hsame₁.1]
    exact size_place hplan.kept_le hstart halign
  · intro x hx hfield hpointer hslot
    rw [hsame₂.2 x hfield, hsame₁.2 x (not_or.mpr ⟨hpointer, hslot⟩), hplaced hx]
  · rw [hcount, hsame₁.natAt fun x hx => hfree₁ (by have := hx.2; omega), hnat (by omega)]
  · rw [hsizes, hwithin]
  · intro a ha
    have hbounds (x : Nat) (hx : Within a 4 x) := pointer_lt ha hx
    have hlast := (hbounds (a + 3) ⟨by omega, by omega⟩).2
    rw [hsame₂.natAt fun x hx => hfree₂ (hbounds x hx).1, hpointer a ha, hnat (by omega)]
  · refine hsame₂.standsAt (fun x hx => hfree₂ ?_) hslot
    have := hx.1
    omega
  · intro x hle hlt _
    have hshift : plan.shift x = x + plan.growth := shift_of_le (by omega)
    rw [hsame₂.2 _ (hfree₂ (by omega)), hsame₁.2 _ (hlate (by omega)),
      getElem?_place hplan.kept_le hlt]
  · refine hsame₂.standsAt (fun x hx => hfree₂ ?_)
      (hsame₁.standsAt (fun x hx => hlate ?_) (standsAt_place hplan.kept_le hstart))
    · have := hx.1
      omega
    · have := hx.1
      omega

/-- The added section with other bytes of the same number. -/
structure Alike (added sealed : MetaSection) : Prop where
  rva : sealed.rva = added.rva
  size : sealed.data.size = added.data.size

lemma Alike.rawSize {sealed : MetaSection} (h : Alike added sealed) :
    LayoutPlan.rawSize file sealed = LayoutPlan.rawSize file added := by
  rw [LayoutPlan.rawSize, h.size, LayoutPlan.rawSize]

/-- Of the headers only the checksum may be written over, and the bytes of the added section may be
others. -/
lemma Laid.rewrite {touched changed : Nat → Prop} {out : Bytes} {sealed : MetaSection}
    (h : Laid file plan added touched data) (hplan : Planned file plan) (hfit : HeadersFit file)
    (hsame : SameBut changed data out) (hchanged : ∀ x, changed x →
      file.headersSize + plan.growth ≤ x ∨ Within file.headers.checksumOffset 4 x)
    (halike : Alike added sealed) (hsealed : out.StandsAt plan.sectionStart sealed.data) :
    Laid file plan sealed (fun x => touched x ∨ changed x) out := by
  have hroom : LayoutPlan.slot file + 40 ≤ file.headersSize + plan.growth := hplan.room
  have htables := hfit.table_le
  have hchecksum : file.headers.checksumOffset = file.headers.peOffset + 88 := rfl
  have hcert := le_certificateOffset file
  have hfree {x : Nat} (hx : x < file.headersSize + plan.growth)
      (hx' : ¬ Within file.headers.checksumOffset 4 x) : ¬ changed x := fun hc => by
    rcases hchanged x hc with hc | hc
    · omega
    · exact hx' hc
  have hsection : plan.sectionHeader file sealed = plan.sectionHeader file added := by
    unfold sectionHeader
    rw [halike.rawSize, halike.size, halike.rva]
  refine ⟨?_, ?_, ?_, ?_, ?_, ?_, ?_, ?_, hsealed⟩
  · rw [hsame.1, h.size, halike.rawSize]
  · intro x hx hfield hpointer hslot
    refine (hsame.2 x (hfree (by omega) fun hx' => hfield ?_)).trans
      (h.header x hx hfield hpointer hslot)
    obtain ⟨hx', hx2⟩ := hx'
    exact .inr (.inr (.inr (.inl ⟨by omega, by omega⟩)))
  · rw [hsame.natAt fun x hx => ?_, h.count]
    obtain ⟨hx, hx'⟩ := hx
    refine hfree (by omega) ?_
    rintro ⟨hx2, -⟩
    omega
  · rw [hsame.natAt fun x hx => ?_, h.headersSize]
    obtain ⟨hx, hx'⟩ := hx
    refine hfree (by omega) ?_
    rintro ⟨hx2, -⟩
    omega
  · intro hsome
    have hle := hfit.le_certificate hsome
    refine hsame.standsAt (fun x hx => ?_) (h.certificate hsome)
    obtain ⟨hx, hx'⟩ := hx
    rw [size_zeros] at hx'
    refine hfree (by omega) ?_
    rintro ⟨-, hx2⟩
    omega
  · intro a ha
    rw [hsame.natAt fun x hx => ?_, h.pointer a ha]
    have := pointer_lt ha hx
    refine hfree (by omega) ?_
    rintro ⟨-, hx2⟩
    omega
  · rw [hsection]
    refine hsame.standsAt (fun x hx => ?_) h.slot
    obtain ⟨hx, hx'⟩ := hx
    rw [size_sectionHeader] at hx'
    refine hfree (by omega) ?_
    rintro ⟨-, hx2⟩
    omega
  · intro x hle hlt htouched
    rw [hsame.2 _ fun hc => htouched (.inr hc), h.kept x hle hlt fun ht => htouched (.inl ht)]

/-- Kept bytes may be written over, and the checksum. -/
lemma Laid.of_sameBut {touched changed : Nat → Prop} {out : Bytes}
    (h : Laid file plan added touched data) (hplan : Planned file plan) (hfit : HeadersFit file)
    (halign : 0 < file.fileAlignment) (hsame : SameBut changed data out) (hchanged : ∀ x, changed x →
      file.headersSize + plan.growth ≤ x ∧ x < plan.sectionStart ∨
        Within file.headers.checksumOffset 4 x) :
    Laid file plan added (fun x => touched x ∨ changed x) out := by
  refine h.rewrite hplan hfit hsame (fun x hx => (hchanged x hx).imp_left And.left) ⟨rfl, rfl⟩
    (hsame.standsAt (fun x hx hc => ?_) h.added)
  have hstart : plan.kept + plan.growth ≤ plan.sectionStart := hplan.kept_le_start halign
  have hold : plan.oldHeaders ≤ plan.kept := hplan.oldHeaders_le hfit.size
  have hheaders := hplan.oldHeaders
  have htables := hfit.table_le
  have htable := hfit.table
  have hchecksum : file.headers.checksumOffset = file.headers.peOffset + 88 := rfl
  obtain ⟨hle, -⟩ := hx
  rcases hchanged x hc with hc | ⟨-, hc⟩
  all_goals omega

/-- What has been built is laid out as planned; of the kept bytes the debug pointers have moved. -/
theorem laid_of_build (hplan : Planned file plan) (hfit : HeadersFit file)
    (halign : 0 < file.fileAlignment) (hdebug : ∀ x, IsDebugPointer file plan x →
      file.headersSize + plan.growth ≤ x ∧ x < plan.sectionStart)
    (h : plan.build file added = .ok after) :
    Laid file plan added (IsDebugPointer file plan) after := by
  obtain ⟨tabled, headed, htable, hheaders, hpointers⟩ := build_eq_ok.mp h
  have hlaid := (laid_of_headed hplan hfit halign htable hheaders).of_sameBut hplan hfit halign
    (updateDebugDirectory_spec hpointers).1 fun x hx => .inl (hdebug x hx)
  simpa only [false_or] using hlaid

lemma runs_shiftPointer {field n : Nat} (h : field + 4 ≤ n) : Runs (plan.shiftPointer field) n :=
  (Runs.numberAt h).bind fun pointer => by
    split
    · exact Runs.pure ()
    · exact Runs.put (by rwa [size_ofNat])

lemma runs_updateSectionTable {n : Nat} (h : slot file + 40 ≤ n) :
    Runs (plan.updateSectionTable file added) n := by
  have hput : Runs (Edit.put (slot file) (plan.sectionHeader file added)) n :=
    Runs.put (by rwa [size_sectionHeader])
  unfold updateSectionTable
  simp only
  split
  · refine (Runs.forM fun i hi => Runs.forM fun field hfield => runs_shiftPointer ?_).bind
      fun _ => hput
    have hlt := List.mem_range.mp hi
    simp only [slot, pointerFields, List.mem_cons, List.not_mem_nil, or_false,
      Section.headerSize] at h hfield ⊢
    omega
  · exact hput

lemma runs_updateHeaders {n : Nat} (hfit : HeadersFit file) (h : slot file ≤ n) :
    Runs (plan.updateHeaders file added) n := by
  have htable := hfit.table_le
  unfold updateHeaders
  simp only [PeHeaders.coffOffset, PeHeaders.optionalOffset, Nat.add_assoc, Nat.reduceAdd]
  have hput {offset w m : Nat} (hle : offset + w ≤ slot file) :
      Runs (Edit.put offset (ofNat w m)) n := Runs.put (by rw [size_ofNat]; omega)
  refine (Runs.numberAt (by omega)).bind fun count => (hput (by omega)).bind fun _ => ?_
  have hrest : Runs (do
      let initialized ← Edit.numberAt (file.headers.peOffset + 32) 4
      Edit.put (file.headers.peOffset + 32) (ofNat 4 (initialized + rawSize file added))
      Edit.put (file.headers.peOffset + 80)
        (ofNat 4 (alignUp (added.rva.toNat + added.data.size) file.sectionAlignment))
      Edit.put (file.headers.peOffset + 84) (ofNat 4 (plan.oldHeaders + plan.growth))
      if (file.directory? PeFile.certificateDirectory).isSome then do
        let entry ← Edit.lift (file.directoryOffset PeFile.certificateDirectory)
        Edit.put entry (zeros 8) : Edit Unit) n := by
    refine (Runs.numberAt (by omega)).bind fun initialized => (hput (by omega)).bind fun _ =>
      (hput (by omega)).bind fun _ => (hput (by omega)).bind fun _ => ?_
    split
    · rename_i hsome
      have hle := hfit.le_certificate hsome
      refine Runs.lift_bind (c := certificateOffset file) (if_pos ?_) (Runs.put ?_)
      · by_contra hge
        rw [PeFile.directory?, List.getElem?_eq_none (by omega)] at hsome
        cases hsome
      · rw [size_zeros]
        omega
    · exact Runs.pure ()
  split
  · exact (runs_shiftPointer (by omega)).bind fun _ => hrest
  · exact hrest

lemma runs_updateDebugDirectory {n : Nat} (h : plan.grows = true →
      ∃ entries, file.debugEntries = .ok entries ∧
        ∀ e ∈ entries, plan.shift e.pointerOffset + 4 ≤ n) :
    Runs (plan.updateDebugDirectory file) n := by
  unfold updateDebugDirectory
  split
  · obtain ⟨entries, hentries, hle⟩ := h ‹_›
    exact Runs.lift_bind hentries (Runs.forM fun e he => runs_shiftPointer (hle e he))
  · exact Runs.pure ()

/-- A plan can be carried out where the debug entries can be read. -/
theorem exists_build (hplan : Planned file plan) (hfit : HeadersFit file)
    (halign : 0 < file.fileAlignment) (hdebug : plan.grows = true →
      ∃ entries, file.debugEntries = .ok entries ∧ ∀ e ∈ entries,
        plan.shift e.pointerOffset + 4 ≤ plan.sectionStart + rawSize file added) :
    ∃ out, plan.build file added = .ok out := by
  have hold := hplan.oldHeaders_le hfit.size
  have hstart := hplan.kept_le_start halign
  have hroom : slot file + 40 ≤ file.headersSize + plan.growth := hplan.room
  have hheaders := hplan.oldHeaders
  have hsize : (plan.place file added).size = plan.sectionStart + rawSize file added :=
    size_place hplan.kept_le hstart halign
  have htable : Runs (plan.updateSectionTable file added) (plan.sectionStart + rawSize file added) :=
    runs_updateSectionTable (by omega)
  have hheaded : Runs (plan.updateHeaders file added) (plan.sectionStart + rawSize file added) :=
    runs_updateHeaders hfit (by omega)
  have hpointers : Runs (plan.updateDebugDirectory file)
      (plan.sectionStart + rawSize file added) :=
    runs_updateDebugDirectory hdebug
  obtain ⟨_, tabled, htable, hsize⟩ := htable hsize
  obtain ⟨_, headed, hheaded, hsize⟩ := hheaded hsize
  obtain ⟨_, out, hpointers, -⟩ := hpointers hsize
  exact ⟨out, build_eq_ok.mpr ⟨tabled, headed, htable, hheaded, hpointers⟩⟩

end LayoutPlan

end CliImage
