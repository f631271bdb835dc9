import CliImage.Proofs.Image.Evaluation
import CliImage.Proofs.Output.Changes

/-! Which bytes change when the hashes of a PDB are renewed, and when these are bytes that the file
had from its input. -/

namespace CliImage

namespace Bytes

variable {data : Bytes} {ws ws' : List (Nat × Bytes)} {x : Nat}

/-- Pieces are written over data, each at its place, one after another. -/
def writeAll (data : Bytes) (ws : List (Nat × Bytes)) : Bytes :=
  ws.foldl (fun data w => data.overlay w.1 w.2) data

@[simp] lemma size_writeAll (data : Bytes) (ws : List (Nat × Bytes)) :
    (data.writeAll ws).size = data.size := by
  induction ws generalizing data with
  | nil => rfl
  | cons w ws ih => rw [writeAll, List.foldl_cons, ← writeAll, ih, size_overlay]

lemma writeAll_append (data : Bytes) (ws ws' : List (Nat × Bytes)) :
    data.writeAll (ws ++ ws') = (data.writeAll ws).writeAll ws' := List.foldl_append

/-- The places that pieces are written to. -/
def Pieces (p : Nat × Bytes → Prop) (x : Nat) : Prop := ∃ w, p w ∧ Within w.1 w.2.size x

lemma sameBut_writeAll (data : Bytes) (ws : List (Nat × Bytes)) :
    SameBut (Pieces (· ∈ ws)) data (data.writeAll ws) := by
  induction ws generalizing data with
  | nil => exact SameBut.refl ..
  | cons w ws ih =>
    have hfirst := sameBut_overlay data w.1 w.2
    exact (hfirst.mono fun x hx => ⟨w, List.mem_cons_self .., hx⟩).trans
      ((ih _).mono fun x ⟨w', hw', hx⟩ => ⟨w', List.mem_cons_of_mem _ hw', hx⟩)

/-- What is written to a place does not depend on the data: the last piece there tells it. -/
lemma exists_getElem?_writeAll {n : Nat} (hfit : ∀ w ∈ ws, w.1 + w.2.size ≤ n)
    (hx : Pieces (· ∈ ws) x) :
    ∃ b, ∀ data : Bytes, data.size = n → (data.writeAll ws)[x]? = some b := by
  induction ws with
  | nil =>
    obtain ⟨_, hw, -⟩ := hx
    cases hw
  | cons w ws ih =>
    by_cases hlater : Pieces (· ∈ ws) x
    · obtain ⟨b, hb⟩ := ih (fun w' hw' => hfit w' (List.mem_cons_of_mem _ hw')) hlater
      exact ⟨b, fun data hdata => hb (data.overlay w.1 w.2) (by rwa [size_overlay])⟩
    · obtain ⟨w', hw', hle, hlt⟩ := hx
      rcases List.mem_cons.mp hw' with rfl | hw'
      · have hfit := hfit w' (List.mem_cons_self ..)
        refine ⟨w'.2[x - w'.1], fun data hdata => ?_⟩
        rw [writeAll, List.foldl_cons, ← writeAll, (sameBut_writeAll _ ws).2 x hlater,
          getElem?_overlay, if_pos ⟨hle, hlt, by omega⟩, Array.getElem?_eq_getElem]
      · exact absurd ⟨w', hw', hle, hlt⟩ hlater

end Bytes

namespace Edit

open Bytes

variable {γ : Type} {x : Edit Unit} {g : γ → Edit Unit} {n : Nat} {p : Nat × Bytes → Prop}
  {q : Nat → Prop} {before after : Bytes}

/-- The edit writes these pieces whatever the bytes that it finds. -/
def Writes (x : Edit Unit) (n : Nat) (p : Nat × Bytes → Prop) : Prop :=
  ∃ ws : List (Nat × Bytes), (∀ w, w ∈ ws ↔ p w) ∧ (∀ w ∈ ws, w.1 + w.2.size ≤ n) ∧
    ∀ data : Bytes, data.size = n → x data = .ok () (data.writeAll ws)

lemma Writes.pure (h : ∀ w, ¬ p w) : Writes (pure ()) n p :=
  ⟨[], fun w => ⟨fun hw => absurd hw List.not_mem_nil, fun hw => absurd hw (h w)⟩,
    fun _ hw => absurd hw List.not_mem_nil, fun _ _ => rfl⟩

lemma Writes.put {pos : Nat} {piece : Bytes} (hfit : pos + piece.size ≤ n)
    (h : ∀ w, p w ↔ w = (pos, piece)) : Writes (put pos piece) n p := by
  refine ⟨[(pos, piece)], fun w => ?_, fun w hw => ?_, fun data hdata => ?_⟩
  · rw [List.mem_singleton, h]
  · rw [List.mem_singleton.mp hw]
    exact hfit
  · exact put_eq_ok.mpr ⟨by omega, rfl⟩

lemma Writes.lift_bind {α : Type} {r : Result α} {a : α} {f : α → Edit Unit} (ha : r = .ok a)
    (h : Writes (f a) n p) : Writes (lift r >>= f) n p := by
  obtain ⟨ws, hws, hfit, hdata⟩ := h
  exact ⟨ws, hws, hfit, fun data hsize =>
    bind_eq_ok.mpr ⟨a, data, lift_eq_ok.mpr ⟨ha, rfl⟩, hdata data hsize⟩⟩

/-- A run that succeeds once writes what each of its steps writes. -/
lemma Writes.forM {xs : List γ} {p : γ → Nat × Bytes → Prop}
    (hstep : ∀ c ∈ xs, ∀ ⦃before after⦄, before.size = n → g c before = .ok () after →
      Writes (g c) n (p c))
    (hsize : before.size = n) (h : xs.forM g before = .ok () after) :
    Writes (xs.forM g) n fun w => ∃ c ∈ xs, p c w := by
  induction xs generalizing before with
  | nil => exact Writes.pure fun w ⟨_, hc, _⟩ => by cases hc
  | cons c xs ih =>
    obtain ⟨between, hfirst, hrest⟩ := forM_cons_eq_ok.mp h
    obtain ⟨ws, hws, hfit, hdata⟩ := hstep c (List.mem_cons_self ..) hsize hfirst
    have hbetween : between.size = n := by
      rw [hdata before hsize] at hfirst
      cases hfirst
      rwa [size_writeAll]
    obtain ⟨ws', hws', hfit', hdata'⟩ :=
      ih (fun d hd => hstep d (List.mem_cons_of_mem _ hd)) hbetween hrest
    refine ⟨ws ++ ws', fun w => ?_, fun w hw => ?_, fun data hsize => ?_⟩
    · rw [List.mem_append, hws, hws']
      exact (List.exists_mem_cons_iff (fun c => p c w) c xs).symm
    · exact (List.mem_append.mp hw).elim (hfit w) (hfit' w)
    · rw [forM_cons_eq_ok, writeAll_append]
      exact ⟨_, hdata data hsize, hdata' _ (by rwa [size_writeAll])⟩

/-- Some places only are sure to change exactly where all the pieces lie there. -/
lemma Writes.sameBut_iff (h : Writes x n p) :
    (∀ data after : Bytes, data.size = n → x data = .ok () after → SameBut q data after) ↔
      ∀ i, Pieces p i → q i := by
  obtain ⟨ws, hws, hfit, hdata⟩ := h
  have hpieces : Pieces p = Pieces (· ∈ ws) := by
    funext i
    simp only [Pieces, hws]
  rw [hpieces]
  constructor
  · intro hframe i hi
    by_contra hq
    -- some data holds another byte at the place than the one that is written there
    obtain ⟨b, hb⟩ := exists_getElem?_writeAll hfit hi
    obtain ⟨w, hw, -, hlt⟩ := hi
    have hfit := hfit w hw
    have hsize : (Array.replicate n (b + 1)).size = n := Array.size_replicate
    have hsame := (hframe _ _ hsize (hdata _ hsize)).2 i hq
    have hother : b ≠ b + 1 := by grind
    rw [hb _ hsize, Array.getElem?_replicate, if_pos (by omega)] at hsame
    exact hother (Option.some.inj hsame)
  · intro hconfined data after hsize hafter
    rw [hdata data hsize] at hafter
    cases hafter
    exact (sameBut_writeAll data ws).mono hconfined

end Edit

namespace PdbChecksum

open Bytes Edit LayoutPlan

variable {input before after pdb : Bytes} {file : PeFile} {layout : LayoutPlan} {idOffset x : Nat}
  {e : DebugEntry} {w : Nat × Bytes}

/-- What is written for an entry: the hash of the PDB by the algorithm that the entry's record
names, where the record has room for just that, behind the name at the place that the entry's file
pointer is moved to. -/
def Renews (file : PeFile) (layout : LayoutPlan) (pdb : Bytes) (idOffset : Nat) (e : DebugEntry)
    (w : Nat × Bytes) : Prop :=
  ∃ payload name, e.payload file = .ok payload ∧ payload.findIdx? (· == 0) = some name ∧
    compute (Utf8.decodeLossy (payload.extract 0 name)) pdb idOffset = .ok (some w.2) ∧
      payload.size - name - 1 = w.2.size ∧ w.1 = layout.shift e.dataPointer.toNat + name + 1

/-- What is written for the entries of a file. -/
def Renewal (file : PeFile) (layout : LayoutPlan) (pdb : Bytes) (idOffset : Nat) (w : Nat × Bytes) :
    Prop :=
  ∃ entries, file.debugEntries = .ok entries ∧
    ∃ e ∈ entries, e.kind = DebugEntry.pdbChecksum ∧ Renews file layout pdb idOffset e w

/-- Records of hashes that the input has in the bytes that are kept, where they have been moved
to. -/
def KeptRecord (file : PeFile) (layout : LayoutPlan) (x : Nat) : Prop :=
  ∃ entries, file.debugEntries = .ok entries ∧ ∃ e ∈ entries, e.kind = DebugEntry.pdbChecksum ∧
    e.dataPointer.toNat + e.dataSize.toNat ≤ layout.kept ∧
      Within (layout.shift e.dataPointer.toNat) e.dataSize.toNat x

/-- The hash lies in the record, as far as this is moved in one piece. -/
lemma Renews.within (h : Renews file layout pdb idOffset e w) (hx : Within w.1 w.2.size x) :
    Within (layout.shift e.dataPointer.toNat) e.dataSize.toNat x := by
  obtain ⟨payload, name, hpayload, hname, -, hlength, hpos⟩ := h
  have := DebugEntry.size_of_payload hpayload
  obtain ⟨hle, hlt⟩ := hx
  exact ⟨by omega, by omega⟩

/-- What is kept lies in front of the added section. -/
lemma KeptRecord.lt_sectionStart (hread : PeFile.read input = .ok file)
    (hlayout : LayoutPlan.ofFile file = .ok layout) (h : KeptRecord file layout x) :
    x < layout.sectionStart := by
  obtain ⟨entries, -, e, -, -, hkept, -, hlt⟩ := h
  have halign := fileAlignment_pos hread
  have hstart := (planned_of_ofFile hlayout halign).kept_le_start halign
  have hshift : layout.shift e.dataPointer.toNat ≤ e.dataPointer.toNat + layout.growth := by
    unfold shift
    split <;> omega
  omega

lemma writes_updateEntry (h : updateEntry file layout pdb idOffset e before = .ok () after) :
    Writes (updateEntry file layout pdb idOffset e) before.size
      (Renews file layout pdb idOffset e) := by
  unfold updateEntry at h ⊢
  obtain ⟨payload, _, hlift, h⟩ := Edit.bind_eq_ok.mp h
  obtain ⟨hpayload, rfl⟩ := lift_eq_ok.mp hlift
  refine Writes.lift_bind hpayload ?_
  cases hname : payload.findIdx? (· == 0) with
  | none =>
    refine Writes.pure fun w ⟨payload', name, hpayload', hname', _⟩ => ?_
    rw [← Except.ok.inj (hpayload.symm.trans hpayload'), hname] at hname'
    cases hname'
  | some name =>
    simp only [hname] at h ⊢
    obtain ⟨computed, _, hlift, h⟩ := Edit.bind_eq_ok.mp h
    obtain ⟨hcompute, rfl⟩ := lift_eq_ok.mp hlift
    refine Writes.lift_bind hcompute ?_
    -- the record tells all but the piece
    have hrenews {w : Nat × Bytes} : Renews file layout pdb idOffset e w ↔ computed = some w.2 ∧
        payload.size - name - 1 = w.2.size ∧
          w.1 = layout.shift e.dataPointer.toNat + name + 1 := by
      simp only [Renews, hpayload, Except.ok.injEq, exists_and_left, exists_eq_left', hname,
        Option.some.injEq, hcompute]
    cases computed with
    | none => exact Writes.pure fun w hw => by cases (hrenews.mp hw).1
    | some hash =>
      simp only at h ⊢
      split at h
      · rename_i hlength
        rw [if_pos hlength]
        refine Writes.put (put_eq_ok.mp h).1 fun w => hrenews.trans ?_
        rw [Option.some.injEq, Prod.ext_iff]
        constructor
        · rintro ⟨rfl, -, hpos⟩
          exact ⟨hpos, rfl⟩
        · rintro ⟨hpos, hhash⟩
          exact ⟨hhash.symm, hhash ▸ hlength, hpos⟩
      · rename_i hlength
        rw [if_neg hlength]
        refine Writes.pure fun w hw => hlength ?_
        obtain ⟨hhash, hroom, -⟩ := hrenews.mp hw
        rwa [Option.some.inj hhash]

lemma writes_update (h : update file layout pdb idOffset before = .ok () after) :
    Writes (update file layout pdb idOffset) before.size (Renewal file layout pdb idOffset) := by
  obtain ⟨entries, _, hlift, h⟩ := Edit.bind_eq_ok.mp h
  obtain ⟨hentries, rfl⟩ := lift_eq_ok.mp hlift
  have hrun := Writes.forM (fun e _ before after hsize he => hsize ▸ writes_updateEntry he) rfl h
  have hwrites : Writes (update file layout pdb idOffset) before.size _ :=
    Writes.lift_bind hentries hrun
  obtain ⟨ws, hws, hfit, hdata⟩ := hwrites
  refine ⟨ws, fun w => (hws w).trans ?_, hfit, hdata⟩
  simp only [Renewal, hentries, Except.ok.injEq, exists_eq_left', List.mem_filter, beq_iff_eq,
    and_assoc]

/-- Renewing the hashes changes nothing but the records that are kept, whatever the bytes that are
there, exactly where all the hashes lie in such records; they do where the entries whose hashes are
renewed have their records in the bytes that are kept. -/
theorem sameBut_keptRecord_iff_of_update (hread : PeFile.read input = .ok file)
    (hlayout : LayoutPlan.ofFile file = .ok layout)
    (h : update file layout pdb idOffset before = .ok () after) :
    SameBut (Pieces (Renewal file layout pdb idOffset)) before after ∧
    ((∀ data out : Bytes, data.size = before.size →
        update file layout pdb idOffset data = .ok () out →
          SameBut (KeptRecord file layout) data out ∧
            ∀ x, layout.sectionStart ≤ x → out[x]? = data[x]?) ↔
      ∀ x, Pieces (Renewal file layout pdb idOffset) x → KeptRecord file layout x) ∧
    ((∀ entries, file.debugEntries = .ok entries → ∀ e ∈ entries, e.kind = DebugEntry.pdbChecksum →
        (∃ w, Renews file layout pdb idOffset e w) →
          e.dataPointer.toNat + e.dataSize.toNat ≤ layout.kept) →
      ∀ x, Pieces (Renewal file layout pdb idOffset) x → KeptRecord file layout x) := by
  have hwrites := writes_update h
  refine ⟨hwrites.sameBut_iff.mpr (fun _ hx => hx) _ _ rfl h, ?_, ?_⟩
  · rw [← hwrites.sameBut_iff]
    refine forall₄_congr fun data out _ _ => and_iff_left_of_imp fun hsame x hx => hsame.2 x ?_
    intro hrecord
    have := hrecord.lt_sectionStart hread hlayout
    omega
  · rintro hkept x ⟨w, ⟨entries, hentries, e, he, hkind, hrenews⟩, hx⟩
    exact ⟨entries, hentries, e, he, hkind, hkept entries hentries e he hkind ⟨w, hrenews⟩,
      hrenews.within hx⟩

/-- The record of this file's debug entry lies behind its section, in bytes that are not kept. -/
def overhung : Bytes := #[
  77, 90, 0, 0, 0, 0, 0, 0, 0, 0, 0, 0, 0, 0, 0, 0, 0, 0, 0, 0, 0, 0, 0, 0, 0, 0, 0, 0, 0, 0, 0, 0,
  0, 0, 0, 0, 0, 0, 0, 0, 0, 0, 0, 0, 0, 0, 0, 0, 0, 0, 0, 0, 0, 0, 0, 0, 0, 0, 0, 0, 64, 0, 0, 0,
  80, 69, 0, 0, 76, 1, 1, 0, 0, 0, 0, 0, 0, 0, 0, 0, 0, 0, 0, 0, 216, 0, 2, 33, 11, 1, 0, 0, 0, 0,
  0, 0, 0, 0, 0, 0, 0, 0, 0, 0, 0, 0, 0, 0, 0, 0, 0, 0, 0, 0, 0, 0, 0, 0, 0, 0, 0, 16, 0, 0, 1, 0,
  0, 0, 0, 0, 0, 0, 0, 0, 0, 0, 0, 0, 0, 0, 0, 0, 0, 0, 0, 0, 0, 0, 128, 1, 0, 0, 0, 0, 0, 0, 0, 0,
  0, 0, 0, 0, 0, 0, 0, 0, 0, 0, 0, 0, 0, 0, 0, 0, 0, 0, 0, 0, 0, 0, 15, 0, 0, 0, 0, 0, 0, 0, 0, 0,
  0, 0, 0, 0, 0, 0, 0, 0, 0, 0, 0, 0, 0, 0, 0, 0, 0, 0, 0, 0, 0, 0, 0, 0, 0, 0, 0, 0, 0, 0, 0, 0,
  0, 0, 0, 0, 0, 0, 0, 0, 0, 0, 96, 16, 0, 0, 28, 0, 0, 0, 0, 0, 0, 0, 0, 0, 0, 0, 0, 0, 0, 0, 0,
  0, 0, 0, 0, 0, 0, 0, 0, 0, 0, 0, 0, 0, 0, 0, 0, 0, 0, 0, 0, 0, 0, 0, 0, 0, 0, 0, 0, 0, 0, 0, 0,
  0, 0, 0, 0, 0, 0, 0, 0, 0, 0, 0, 0, 16, 0, 0, 72, 0, 0, 0, 46, 116, 101, 120, 116, 0, 0, 0, 124,
  0, 0, 0, 0, 16, 0, 0, 124, 0, 0, 0, 128, 1, 0, 0, 0, 0, 0, 0, 0, 0, 0, 0, 0, 0, 0, 0, 32, 0, 0,
  96, 0, 0, 0, 0, 0, 0, 0, 0, 0, 0, 0, 0, 0, 0, 0, 0, 0, 0, 0, 0, 0, 0, 0, 0, 0, 0, 0, 0, 0, 0, 0,
  0, 0, 0, 0, 0, 0, 0, 0, 0, 72, 0, 0, 0, 2, 0, 5, 0, 72, 16, 0, 0, 24, 0, 0, 0, 1, 0, 0, 0, 0, 0,
  0, 0, 0, 0, 0, 0, 0, 0, 0, 0, 0, 0, 0, 0, 0, 0, 0, 0, 0, 0, 0, 0, 0, 0, 0, 0, 0, 0, 0, 0, 0, 0,
  0, 0, 0, 0, 0, 0, 0, 0, 0, 0, 0, 0, 0, 0, 0, 0, 0, 0, 66, 83, 74, 66, 1, 0, 1, 0, 0, 0, 0, 0, 4,
  0, 0, 0, 118, 52, 0, 0, 0, 0, 0, 0, 0, 0, 0, 0, 0, 0, 0, 0, 0, 0, 0, 0, 19, 0, 0, 0, 39, 0, 0, 0,
  0, 0, 0, 0, 252, 1, 0, 0, 83, 72, 65, 50, 53, 54, 0, 0, 0, 0, 0, 0, 0, 0, 0, 0, 0, 0, 0, 0, 0, 0,
  0, 0, 0, 0, 0, 0, 0, 0, 0, 0, 0, 0, 0, 0, 0, 0, 0]

lemma writes_overhung : Result.holds (PeFile.read overhung) (fun file =>
    Result.holds (LayoutPlan.ofFile file) fun layout =>
    Result.holds (layout.build file ⟨layout.sectionRva, zeros 39⟩) fun before =>
    Result.holds ((update file layout (zeros idSize) 0).run before) fun (_, after) =>
      decide (layout.sectionStart = 508 ∧ after[508 + 7]? ≠ before[508 + 7]?)) = true := by
  rw [PeFile.readByTails.2, buildByTails.2, updateByTails.2]
  decide +kernel

/-- The hash is written into the added section. -/
theorem not_sameBut_keptRecord_overhung : ∃ (file : PeFile) (layout : LayoutPlan)
    (before after : Bytes), PeFile.read overhung = .ok file ∧
    LayoutPlan.ofFile file = .ok layout ∧
    layout.build file ⟨layout.sectionRva, zeros 39⟩ = .ok before ∧
    update file layout (zeros idSize) 0 before = .ok () after ∧
    (∃ x, layout.sectionStart ≤ x ∧ after[x]? ≠ before[x]?) ∧
    ¬ ∀ x, Pieces (Renewal file layout (zeros idSize) 0) x → KeptRecord file layout x := by
  obtain ⟨file, hread, htest⟩ := Result.exists_of_holds writes_overhung
  obtain ⟨layout, hlayout, htest⟩ := Result.exists_of_holds htest
  obtain ⟨before, hbuild, htest⟩ := Result.exists_of_holds htest
  obtain ⟨⟨_, after⟩, hupdate, htest⟩ := Result.exists_of_holds htest
  obtain ⟨hstart, hbyte⟩ := of_decide_eq_true htest
  have hupdate := Edit.run_eq_ok.mp hupdate
  have hchanged : after[layout.sectionStart + 7]? ≠ before[layout.sectionStart + 7]? := by
    rwa [hstart]
  refine ⟨file, layout, before, after, hread, hlayout, hbuild, hupdate,
    ⟨_, Nat.le_add_right .., hchanged⟩, fun hconfined => hchanged ?_⟩
  exact ((sameBut_keptRecord_iff_of_update hread hlayout hupdate).2.1.mpr hconfined before after rfl
    hupdate).2 _ (Nat.le_add_right ..)

end PdbChecksum

end CliImage
