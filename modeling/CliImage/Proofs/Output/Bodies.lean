import CliImage.Proofs.Output.Written
import CliImage.Proofs.Pe.Translation
import CliImage.Proofs.Renumber.Monotone
import CliImage.Proofs.Renumber.Operands

/-! The bodies of an image's methods in an output: each is read where it has been moved to, with its
method tokens renumbered and nothing else changed. -/

namespace CliImage

open Bytes

namespace Instruction

variable {pos stop k : Nat} {i j : Instruction} {is : List Instruction}

lemma Tiles.eq_of_within (h : Tiles pos stop is) (hi : i ∈ is) (hj : j ∈ is)
    (hk : Within i.offset i.size k) (hk' : Within j.offset j.size k) : i = j := by
  obtain ⟨hle, hlt⟩ := hk
  obtain ⟨hle', hlt'⟩ := hk'
  induction h with
  | nil => cases hi
  | cons hoffset _ hrest ih =>
    rcases List.mem_cons.mp hi with rfl | hrest' <;> rcases List.mem_cons.mp hj with rfl | hj'
    · rfl
    · have := (hrest.within hj').1
      omega
    · have := (hrest.within hrest').1
      omega
    · exact ih hrest' hj'

end Instruction

namespace PeFile

variable {file after : PeFile} {rva implFlags : UInt32} {found : Option Body} {body : Body}
  {all : Array Instruction} {w w' : Window} {code : Bytes} {f : Token → Token} {s : Section}
  {start k : Nat} {i : Instruction}

/-- What the body at an address is read from. -/
structure ReadsBody (file : PeFile) (rva : UInt32) (body : Body) (all : Array Instruction)
    (w : Window) (code : Bytes) : Prop where
  tail : file.tail rva.toNat = .ok w
  read : Body.read w = .ok body
  encoded : body.code w = .ok code
  decode : Instruction.decode code (UInt64.ofNat (rva.toNat + body.headerSize)) = .ok all

lemma readBody_eq_ok : file.readBody rva implFlags = .ok (found, all) ↔
    (rva = 0 ∨ ¬ (MethodFlags.mk 0 implFlags.toNat).isIl) ∧ found = none ∧ all = #[] ∨
    ¬ (rva = 0 ∨ ¬ (MethodFlags.mk 0 implFlags.toNat).isIl) ∧
      ∃ body w code, found = some body ∧ file.ReadsBody rva body all w code := by
  unfold readBody
  split
  · rename_i hnone
    rw [Except.ok.injEq, Prod.mk.injEq, eq_comm, eq_comm (a := #[])]
    exact ⟨fun h => .inl ⟨hnone, h⟩, fun h => (h.resolve_right fun h => h.1 hnone).2⟩
  · rename_i hsome
    simp only [hsome, false_and, false_or, not_false_eq_true, true_and, Result.bind_eq_ok]
    constructor
    · rintro ⟨w, htail, body, hread, code, hcode, all, hdecode, h⟩
      cases h
      exact ⟨body, w, code, rfl, htail, hread, hcode, hdecode⟩
    · rintro ⟨body, w, code, rfl, htail, hread, hcode, hdecode⟩
      exact ⟨w, htail, body, hread, code, hcode, all, hdecode, rfl⟩

lemma exists_tail (hleads : file.Leads s rva.toNat start) (hend : s.rawEnd ≤ file.data.size) :
    ∃ w, file.tail rva.toNat = .ok w ∧ w.data = file.data ∧ w.start = start ∧
      w.stop = s.rawEnd := by
  obtain ⟨-, -, hlt, hstart⟩ := leads_iff.mp hleads
  have hle : start < s.rawEnd := by
    rw [Section.rawEnd]
    rw [Section.rawStart] at hstart
    omega
  have hsection : file.sectionEnd rva.toNat = s.rawEnd := by rw [sectionEnd, hleads.1]
  have htail : ∃ w, file.tail rva.toNat = .ok w := by
    rw [tail, hleads.2, Result.ok_bind]
    simp only
    split
    · exact ⟨_, rfl⟩
    · omega
  obtain ⟨w, htail⟩ := htail
  obtain ⟨hoffset, hdata, hstop⟩ := bounds_of_tail htail
  obtain rfl : start = w.start := Except.ok.inj (hleads.2.symm.trans hoffset)
  refine ⟨w, htail, hdata, rfl, ?_⟩
  rw [hstop, hsection]
  omega

namespace ReadsBody

variable (h : file.ReadsBody rva body all w code)
include h

lemma decodes : Instruction.Decodes code (UInt64.ofNat (rva.toNat + body.headerSize)) 0 all.toList :=
  Instruction.decode_eq_ok.mp h.decode

/-- The code stands behind the header, as long as the header says. -/
lemma stands : code.size = body.codeSize ∧ w.data.StandsAt (w.start + body.headerSize) code :=
  Body.standsAt_code h.encoded

lemma tiles : Instruction.Tiles 0 code.size all.toList := h.decodes.tiles (Nat.zero_le _)

lemma token (hi : i ∈ all.toList) {token : Token} (htoken : i.token? = some token) :
    i.offset + i.size ≤ body.codeSize ∧ 4 < i.size ∧
      w.data.natAt (w.start + body.headerSize + (i.offset + i.size - 4)) 4 = token.value.toNat := by
  obtain ⟨hsize, hstands⟩ := h.stands
  obtain ⟨-, hend, -, htokens⟩ := h.decodes.bounds hi
  obtain ⟨hroom, rfl⟩ := htokens token htoken
  refine ⟨hsize ▸ hend, hroom, ?_⟩
  rw [hstands.natAt (by omega), UInt32.toNat_ofNat_of_lt' (natAt_lt ..)]

lemma address (hi : i ∈ all.toList) (hfit : body.headerSize + body.codeSize < 2 ^ 63) :
    i.rva.toNat = rva.toNat + body.headerSize + i.offset := by
  have hrva := rva.toNat_lt
  have hstart : (UInt64.ofNat (rva.toNat + body.headerSize)).toNat =
      rva.toNat + body.headerSize :=
    UInt64.toNat_ofNat_of_lt' (by simp only [UInt64.size]; omega)
  have hsize := h.stands.1
  rw [(h.decodes.laid (by omega)).address i hi, hstart]

lemma eq_of_token (hi : i ∈ all.toList) {j : Instruction} (hj : j ∈ all.toList)
    (hsome : j.token?.isSome) (hk : Within i.offset i.size k)
    (hk' : Within (j.offset + j.size - 4) 4 k) : i = j := by
  obtain ⟨token, htoken⟩ := Option.isSome_iff_exists.mp hsome
  obtain ⟨-, hroom, -⟩ := h.token hj htoken
  obtain ⟨hle, hlt⟩ := hk'
  exact h.tiles.eq_of_within hi hj hk ⟨by omega, by omega⟩

/-- Where nothing but tokens has changed the body reads as it did, with the new tokens. -/
theorem renumbered (htail : after.tail rva.toNat = .ok w') (hsize : w'.size = w.size)
    (hsame : ∀ k < body.totalSize, (∀ i ∈ all.toList, i.token?.isSome →
      ¬ Within (body.headerSize + (i.offset + i.size - 4)) 4 k) →
        w'.data[w'.start + k]? = w.data[w.start + k]?)
    (htoken : ∀ i ∈ all.toList, ∀ token, i.token? = some token →
      w'.data.natAt (w'.start + body.headerSize + (i.offset + i.size - 4)) 4 =
        (f token).value.toNat) :
    ∃ code', after.ReadsBody rva body (all.map (Instruction.mapToken f)) w' code' := by
  obtain ⟨hone, hle, htotal⟩ := Body.bounds_of_read h.read
  obtain ⟨hcode, hstands⟩ := h.stands
  have hbody : body.size = body.headerSize + body.codeSize := Nat.add_comm ..
  have hagree : w.Agree w' fun k => k < body.headerSize ∨ body.size ≤ k ∧ k < body.totalSize := by
    refine ⟨hsize, fun k hk => hsame k (by omega) fun i hi hsome hwithin => ?_⟩
    obtain ⟨token, htoken⟩ := Option.isSome_iff_exists.mp hsome
    obtain ⟨hend, hroom, -⟩ := h.token hi htoken
    obtain ⟨hle, hlt⟩ := hwithin
    omega
  obtain ⟨code', hcode'⟩ : ∃ code', body.code w' = .ok code' :=
    ⟨_, if_pos (by omega)⟩
  obtain ⟨hlength, hstands'⟩ := Body.standsAt_code hcode'
  refine ⟨code', htail, Body.read_congr h.read hagree, hcode', Instruction.decode_eq_ok.mpr ?_⟩
  rw [Array.toList_map]
  refine h.decodes.patched (by omega) fun i hi => ⟨fun k hk hlt hfree => ?_, fun token hi' => ?_⟩
  · obtain ⟨-, hend, -⟩ := h.decodes.bounds hi
    have hlt' : k < code.size := by omega
    rw [← hstands'.getElem? (by omega), ← hstands.getElem? hlt', Nat.add_assoc, Nat.add_assoc]
    refine hsame _ (by omega) fun j hj hsome hwithin => ?_
    obtain ⟨hle', hlt'⟩ := hwithin
    obtain rfl := h.eq_of_token hi hj hsome ⟨hk, hlt⟩ ⟨by omega, by omega⟩
    have := hfree hsome
    omega
  · obtain ⟨hend, hroom, -⟩ := h.token hi hi'
    have hfit : i.offset + i.size - 4 + 4 ≤ code'.size := by omega
    rw [← hstands'.natAt hfit]
    exact htoken i hi token hi'

end ReadsBody

end PeFile

namespace LayoutPlan.Addressable

variable {file : PeFile} {plan : LayoutPlan} {added : MetaSection} {out : Bytes} {s : Section}
  {rva : UInt32} {start : Nat} {w : Window}

lemma exists_tail_moved (h : Addressable file plan added) (hleads : file.Leads s rva.toNat start)
    (hout : plan.sectionStart ≤ out.size) (htail : file.tail rva.toNat = .ok w) :
    ∃ w', (plan.newFile file added out).tail rva.toNat = .ok w' ∧ w'.data = out ∧
      w'.start = w.start + plan.growth ∧ w'.size = w.size := by
  obtain ⟨hoffset, -, hstop⟩ := PeFile.bounds_of_tail htail
  obtain rfl : start = w.start := Except.ok.inj (hleads.2.symm.trans hoffset)
  have hsection : file.sectionEnd rva.toNat = s.rawEnd := by rw [PeFile.sectionEnd, hleads.1]
  obtain ⟨hheaders, -⟩ := h.offset_lt_kept hleads
  obtain ⟨-, hend⟩ := h.rawEnd_le_kept hleads.mem hleads.rawSize_ne
  have hmoved : (plan.movedSection s).rawEnd = s.rawEnd + plan.growth := by
    have := h.rawStart_moved hleads.mem hleads.rawSize_ne
    rw [Section.rawStart, Section.rawStart] at this
    rw [Section.rawEnd, Section.rawEnd, this]
    change s.rawPointer.toNat + plan.growth + s.rawSize.toNat = _
    omega
  have hkept := h.kept_le
  have hsize := h.planned.kept_le
  have hleads' : (plan.newFile file added out).Leads (plan.movedSection s) rva.toNat _ :=
    h.leads_moved hleads
  obtain ⟨w', htail', hdata', hstart', hstop'⟩ := PeFile.exists_tail hleads' <| show _ ≤ out.size by
    rw [hmoved]
    omega
  refine ⟨w', htail', hdata', by rw [hstart', h.shift_of_data hheaders], ?_⟩
  rw [Window.size, Window.size, hstop', hstart', hmoved, h.shift_of_data hheaders, hstop, hsection]
  have := w.start_le_stop
  omega

end LayoutPlan.Addressable

namespace RidMap

variable {map : RidMap} {offsetOf : Nat → Result Nat} {data after : Bytes}

lemma exists_placed_of_code {methods : List Method} {n : Nat}
    (h : map.code methods offsetOf data = .ok n after) {a : Instruction × Token}
    (ha : a ∈ operands (methods.filter fun m => !m.isAdded)) : ∃ o, PlacedAt offsetOf a.1 o := by
  have htokens {m : Method} (tokens : List (Instruction × Token))
      {patched patched' : Std.HashSet Nat}
      {data after : Bytes} (hfold : tokens.foldlM (fun patched a => map.operand offsetOf m patched
        a.1 a.2) patched data = .ok patched' after) : ∀ a ∈ tokens, ∃ o, PlacedAt offsetOf a.1 o := by
    induction tokens generalizing patched data with
    | nil => simp
    | cons a tokens ih =>
      obtain ⟨next, between, hstep, hrest⟩ := Edit.foldlM_cons_eq_ok.mp hfold
      refine List.forall_mem_cons.mpr ⟨?_, ih hrest⟩
      unfold RidMap.operand at hstep
      simp only at hstep
      split at hstep
      · cases hstep
      · obtain ⟨o, _, hlift, -⟩ := Edit.bind_eq_ok.mp hstep
        exact ⟨o, (Edit.lift_eq_ok.mp hlift).1⟩
  have hmethods (methods : List Method) {patched patched' : Std.HashSet Nat} {data after : Bytes}
      (hfold : methods.foldlM (fun patched m => m.tokens.foldlM
        (fun patched a => map.operand offsetOf m patched a.1 a.2) patched) patched data =
          .ok patched' after) : ∀ a ∈ operands methods, ∃ o, PlacedAt offsetOf a.1 o := by
    induction methods generalizing patched data with
    | nil => simp [operands]
    | cons m methods ih =>
      obtain ⟨next, between, hstep, hrest⟩ := Edit.foldlM_cons_eq_ok.mp hfold
      intro a ha
      rcases List.mem_append.mp (show a ∈ m.tokens ++ operands methods from ha) with ha | ha
      · exact htokens _ hstep a ha
      · exact ih hrest a ha
  obtain ⟨patched, between, hfold, -⟩ := Edit.bind_eq_ok.mp h
  exact hmethods _ hfold a ha

end RidMap

namespace Image

variable {image : Image} {layout : LayoutPlan} {m : Method} {body : Body} {data : Bytes}

/-- A body lies in the data of a section, and of what is renewed nothing lies over it but its own
method tokens. -/
def BodyApart (image : Image) (layout : LayoutPlan) (m : Method) (body : Body) : Prop :=
  ∃ s start, image.file.Leads s m.rva.toNat start ∧
    (∀ r ∈ image.operandRuns, r.1 ∈ image.tokenPlaces m ∨ Clear (start, body.totalSize) r) ∧
    ∀ r ∈ image.fixupRuns ++ image.cliRuns ++ image.hashRuns ++ image.debugPointerRuns layout,
      Clear (start, body.totalSize) r

def CodeApart (image : Image) (layout : LayoutPlan) : Prop :=
  ∀ m ∈ image.methods.toList, m.isAdded = false → ∀ body ∈ m.body, image.BodyApart layout m body

instance : Decidable (image.BodyApart layout m body) :=
  decidable_of_iff (∃ start, image.file.offsetOf m.rva.toNat = .ok start ∧
      (image.file.sectionOf? m.rva.toNat).isSome ∧
      (∀ r ∈ image.operandRuns, r.1 ∈ image.tokenPlaces m ∨ Clear (start, body.totalSize) r) ∧
      ∀ r ∈ image.fixupRuns ++ image.cliRuns ++ image.hashRuns ++ image.debugPointerRuns layout,
        Clear (start, body.totalSize) r) <| by
    simp only [Option.isSome_iff_exists]
    constructor
    · rintro ⟨start, hstart, ⟨s, hs⟩, hclear⟩
      exact ⟨s, start, ⟨hs, hstart⟩, hclear⟩
    · rintro ⟨s, start, ⟨hs, hstart⟩, hclear⟩
      exact ⟨start, hstart, ⟨s, hs⟩, hclear⟩

instance : Decidable (image.CodeApart layout) :=
  inferInstanceAs (Decidable (∀ m ∈ image.methods.toList, m.isAdded = false → ∀ body ∈ m.body, _))

lemma Prepared.readsBody (h : image.Prepared data) (hm : m ∈ image.methods.toList)
    (hold : m.isAdded = false) (hbody : m.body = some body) :
    ∃ w code, image.file.ReadsBody m.rva body m.instructions w code := by
  rcases PeFile.readBody_eq_ok.mp (h.readBody hm hold) with
    ⟨-, hnone, -⟩ | ⟨-, body', w, code, hsome, hreads⟩
  · rw [hbody] at hnone
    cases hnone
  · rw [hbody] at hsome
    cases hsome
    exact ⟨w, code, hreads⟩

lemma mem_tokens {a : Instruction × Token} : a ∈ m.tokens ↔
    a.1 ∈ m.instructions.toList ∧ a.1.token? = some a.2 ∧ a.2.isMethodDef = true := by
  simp only [Method.tokens, List.mem_filterMap, Option.map_eq_some_iff, Option.filter_eq_some_iff]
  constructor
  · rintro ⟨i, hi, token, ⟨htoken, hmethod⟩, rfl⟩
    exact ⟨hi, htoken, hmethod⟩
  · rintro ⟨hi, htoken, hmethod⟩
    exact ⟨a.1, hi, a.2, ⟨htoken, hmethod⟩, rfl⟩

/-- A body of the image that lies apart, in the bytes from a place on. -/
structure LiesApart (image : Image) (layout : LayoutPlan) (m : Method) (body : Body) (w : Window)
    (code : Bytes) : Prop where
  mem : m ∈ image.methods.toList
  old : m.isAdded = false
  hasBody : m.body = some body
  reads : image.file.ReadsBody m.rva body m.instructions w code
  leads : ∃ s, image.file.Leads s m.rva.toNat w.start
  operand : ∀ r ∈ image.operandRuns, r.1 ∈ image.tokenPlaces m ∨ Clear (w.start, body.totalSize) r
  others : ∀ r ∈ image.fixupRuns ++ image.cliRuns ++ image.hashRuns ++ image.debugPointerRuns layout,
    Clear (w.start, body.totalSize) r

lemma CodeApart.liesApart (h : image.CodeApart layout) (himage : image.Prepared data)
    (hm : m ∈ image.methods.toList) (hold : m.isAdded = false) (hbody : m.body = some body) :
    ∃ w code, image.LiesApart layout m body w code := by
  obtain ⟨w, code, hreads⟩ := himage.readsBody hm hold hbody
  obtain ⟨s, start, hleads, hoperand, hothers⟩ := h m hm hold body hbody
  obtain ⟨hoffset, -, -⟩ := PeFile.bounds_of_tail hreads.tail
  obtain rfl : start = w.start := Except.ok.inj (hleads.2.symm.trans hoffset)
  exact ⟨w, code, hm, hold, hbody, hreads, ⟨s, hleads⟩, hoperand, hothers⟩

namespace LiesApart

variable {w : Window} {code : Bytes} {a : Instruction × Token} {o x : Nat}
  (h : image.LiesApart layout m body w code)
include h

lemma data_eq : w.data = image.file.data := (PeFile.bounds_of_tail h.reads.tail).2.1

lemma totalSize_le : body.headerSize + body.codeSize ≤ body.totalSize ∧
    body.totalSize ≤ w.size := by
  obtain ⟨-, hle, htotal⟩ := Body.bounds_of_read h.reads.read
  exact ⟨by rwa [Nat.add_comm], htotal⟩

lemma end_le_kept {added : MetaSection}
    (haddress : LayoutPlan.Addressable image.file layout added) :
    w.start + w.size ≤ layout.kept := by
  obtain ⟨t, hleads⟩ := h.leads
  obtain ⟨hoffset, hdata, hstop⟩ := PeFile.bounds_of_tail h.reads.tail
  have hsection : image.file.sectionEnd m.rva.toNat = t.rawEnd := by
    rw [PeFile.sectionEnd, hleads.1]
  obtain ⟨-, hlt⟩ := haddress.offset_lt_kept hleads
  obtain ⟨-, hend⟩ := haddress.rawEnd_le_kept hleads.mem hleads.rawSize_ne
  rw [Window.size, hstop, hsection]
  omega

lemma operandAt_iff {i : Instruction} : image.OperandAt m i o ↔
    o = w.start + body.headerSize + (i.offset + i.size - 4) := by
  obtain ⟨s, hleads⟩ := h.leads
  constructor
  · rintro ⟨body', start, hbody, hstart, rfl⟩
    obtain rfl := Option.some.inj (hbody.symm.trans h.hasBody)
    obtain rfl := Except.ok.inj (hstart.symm.trans hleads.2)
    rfl
  · rintro rfl
    exact ⟨body, w.start, h.hasBody, hleads.2, rfl⟩

lemma token (ha : a ∈ m.tokens) (ho : image.OperandAt m a.1 o) :
    w.start ≤ o ∧ o + 4 ≤ w.start + body.totalSize ∧
      image.file.data.natAt o 4 = a.2.value.toNat := by
  obtain ⟨hi, htoken, -⟩ := mem_tokens.mp ha
  obtain ⟨hend, hroom, hvalue⟩ := h.reads.token hi htoken
  obtain ⟨hle, -⟩ := h.totalSize_le
  rw [h.data_eq] at hvalue
  rw [h.operandAt_iff] at ho
  exact ⟨by omega, by omega, ho ▸ hvalue⟩

lemma operandRun (ha : a ∈ m.tokens) (ho : image.OperandAt m a.1 o) : image.OperandRun o 4 :=
  ⟨rfl, m, h.mem, h.old, a, ha, ho⟩

/-- An operand over a method token is that token. -/
lemma eq_of_within (ha : a ∈ m.tokens) (ho : image.OperandAt m a.1 o) {o' : Nat}
    (hrun : image.OperandRun o' 4) (hx : Within o 4 x) (hx' : Within o' 4 x) : o' = o := by
  obtain ⟨hle, hend, -⟩ := h.token ha ho
  rcases h.operand _ (operandRun_iff.mp hrun) with hown | hclear
  · obtain ⟨b, hb, ho'⟩ := mem_tokenPlaces.mp hown
    obtain ⟨hi, htoken, -⟩ := mem_tokens.mp ha
    obtain ⟨hj, htoken', -⟩ := mem_tokens.mp hb
    obtain ⟨-, hroom, -⟩ := h.reads.token hi htoken
    rw [h.operandAt_iff] at ho ho'
    obtain ⟨hxle, hxlt⟩ := hx
    obtain ⟨hxle', hxlt'⟩ := hx'
    have heq : a.1 = b.1 := h.reads.eq_of_token (k := x - (w.start + body.headerSize)) hi hj
      (Option.isSome_of_mem htoken') ⟨by omega, by omega⟩ ⟨by omega, by omega⟩
    rw [ho, heq]
    exact ho'
  · exact absurd hx' (clear_iff.mp hclear x ⟨hle.trans hx.1, hx.2.trans_le hend⟩)

lemma not_covered (hx : Within w.start body.totalSize x)
    (hfree : ∀ a ∈ m.tokens, ∀ o, image.OperandAt m a.1 o → ¬ Within o 4 x) :
    ¬ Covered image.WrittenRun x := by
  rintro ⟨start, len, hrun, hwithin⟩
  have hother {start len : Nat}
      (hmem : (start, len) ∈ image.fixupRuns ++ image.cliRuns ++ image.hashRuns)
      (hwithin : Within start len x) : False :=
    clear_iff.mp (h.others _ (List.mem_append_left _ hmem)) x hx hwithin
  cases hrun with
  | operand hrun =>
    obtain rfl : len = 4 := hrun.1
    rcases h.operand _ (operandRun_iff.mp hrun) with hown | hclear
    · obtain ⟨a, ha, ho⟩ := mem_tokenPlaces.mp hown
      exact hfree a ha start ho hwithin
    · exact clear_iff.mp hclear x hx hwithin
  | fixup hrun =>
    exact hother (List.mem_append_left _ (List.mem_append_left _ (fixupRun_iff.mp hrun))) hwithin
  | cli hrun =>
    exact hother (List.mem_append_left _ (List.mem_append_right _ (cliRun_iff.mp hrun))) hwithin
  | hash hrun => exact hother (List.mem_append_right _ (hashAt_iff.mp hrun)) hwithin

lemma not_other (hx : Within w.start body.totalSize x) : ¬ Covered image.OtherRun x := by
  rintro ⟨start, len, hrun, hwithin⟩
  refine clear_iff.mp (h.others (start, len) (List.mem_append_left _ ?_)) x hx hwithin
  rcases hrun with hrun | hrun | hrun
  · exact List.mem_append_left _ (List.mem_append_left _ (fixupRun_iff.mp hrun))
  · exact List.mem_append_left _ (List.mem_append_right _ (cliRun_iff.mp hrun))
  · exact List.mem_append_right _ (hashAt_iff.mp hrun)

lemma not_debugPointer (hx : Within w.start body.totalSize x) :
    ¬ image.IsDebugPointer layout x := by
  rw [debugPointer_iff]
  rintro ⟨start, len, hrun, hwithin⟩
  exact clear_iff.mp (h.others _ (List.mem_append_right _ hrun)) x hx hwithin

end LiesApart

end Image

namespace Output

open LayoutPlan

variable {image : Image} {key : Option KeyPair} {s : Stages} {m : Method} {body : Body} {w : Window}
  {code data : Bytes} {a : Instruction × Token} {o x : Nat} (h : s.Follow image key)
  (haddress : Addressable image.file s.layout s.added) (hcontained : image.Contained s.layout)
include h haddress hcontained

/-- What is kept and not written over stands where it has been moved to. -/
lemma Stages.Follow.getElem?_free (hle : image.file.headersSize ≤ x) (hlt : x < s.layout.kept)
    (hdebug : ¬ image.IsDebugPointer s.layout x) (hfree : ¬ Covered image.WrittenRun x) :
    s.image[s.layout.shift x]? = image.file.data[x]? := by
  obtain ⟨sealed, -, -, hplaced⟩ := h.placed haddress hcontained
  refine hplaced.laid.kept x hle hlt ?_
  rintro (⟨hgrows, entries, hentries, e, he, hwithin⟩ | hmoved)
  · exact hdebug ⟨hgrows, entries, hentries, e, he, within_of_shift hwithin⟩
  · exact hfree (hmoved.shifted x hlt rfl)

/-- Of kept data an output has what the renumbering of code has left, where nothing else is renewed.
-/
lemma Stages.Follow.exists_coded : ∃ coded,
    ((MethodPlan.ofImage image).isUnchanged = true ∧ coded = s.built ∨
      (MethodPlan.ofImage image).isUnchanged = false ∧
        ∃ n, (MethodPlan.ofImage image).rids.code image.methods.toList
          (s.layout.offset image.file) s.built = .ok n coded) ∧
    ∀ x, image.file.headersSize ≤ x → x < s.layout.kept → ¬ Covered image.OtherRun x →
      s.image[s.layout.shift x]? = coded[s.layout.shift x]? := by
  obtain ⟨hlaid, -⟩ := h.laid_built haddress.read haddress.headers haddress.sections hcontained
  have hbuilt : ∀ o < s.layout.kept, image.file.headersSize ≤ o →
      ¬ image.IsDebugPointer s.layout o → s.built[s.layout.shift o]? = image.file.data[o]? := by
    intro o ho hheaders hdebug
    refine hlaid.kept o hheaders ho ?_
    rintro ⟨hgrows, entries, hentries, e, he, hwithin⟩
    exact hdebug ⟨hgrows, entries, hentries, e, he, within_of_shift hwithin⟩
  obtain ⟨coded, hcode, hsame⟩ :=
    coded_of_patch haddress.planned hcontained.toInPlace hbuilt h.patched
  refine ⟨coded, hcode, fun x hle hlt hfree => ?_⟩
  have hhashed := (sameBut_symbols h.symbols).mono fun x hx =>
    (movedRun_of_hashMoved haddress.planned hcontained.hash hx).mono fun _ _ hrun =>
      (.inr (.inr hrun) : image.OtherRun _ _)
  rw [h.getElem?_hashed haddress.read haddress.headers hle hlt]
  exact (hsame.trans hhashed).2 _ fun hmoved => hfree (hmoved.shifted x hlt rfl)

lemma Stages.Follow.getElem?_body (hlies : image.LiesApart s.layout m body w code)
    (hx : Within w.start body.totalSize x)
    (hoperand : ∀ a ∈ m.tokens, ∀ o, image.OperandAt m a.1 o → ¬ Within o 4 x) :
    s.image[x + s.layout.growth]? = image.file.data[x]? := by
  obtain ⟨t, hleads⟩ := hlies.leads
  have hheaders := (haddress.offset_lt_kept hleads).1.trans hx.1
  have hkept := hlies.end_le_kept haddress
  obtain ⟨-, htotal⟩ := hlies.totalSize_le
  have hlt := hx.2
  rw [← haddress.shift_of_data hheaders]
  exact h.getElem?_free haddress hcontained hheaders (by omega) (hlies.not_debugPointer hx)
    (hlies.not_covered hx hoperand)

variable (hcode : image.CodeApart s.layout) (himage : image.Prepared data)
include hcode himage

omit h in
/-- Where an operand is placed in the output is where its method's body has been moved to. -/
lemma exists_liesApart (hm : m ∈ image.methods.toList) (hold : m.isAdded = false)
    (ha : a ∈ m.tokens) (ho : RidMap.PlacedAt (s.layout.offset image.file) a.1 o) :
    ∃ body w code o', image.LiesApart s.layout m body w code ∧ image.OperandAt m a.1 o' ∧
      s.layout.shift o' = o ∧ o = o' + s.layout.growth := by
  obtain ⟨o', ho', rfl⟩ := offset_eq_ok.mp ho
  have hplace := hcontained.operand m hm hold a ha o' ho'
  obtain ⟨body, start, hbody, -⟩ := id hplace
  obtain ⟨w, code, hlies⟩ := hcode.liesApart himage hm hold hbody
  obtain ⟨hle, -, -⟩ := hlies.token ha hplace
  obtain ⟨t, hleads⟩ := hlies.leads
  have := (haddress.offset_lt_kept hleads).1
  exact ⟨body, w, code, o', hlies, hplace, rfl, haddress.shift_of_data (by omega)⟩

omit h in
/-- Operands lie apart, unless they are the same with the same token. -/
lemma apart_operands : RidMap.Apart (s.layout.offset image.file) image.operands := by
  intro a ha b hb o o' ho ho'
  obtain ⟨m, hm, hold, ha⟩ := Image.mem_operands.mp ha
  obtain ⟨m', hm', hold', hb⟩ := Image.mem_operands.mp hb
  obtain ⟨body, w, code, p, hlies, hplace, -, hshift⟩ :=
    exists_liesApart haddress hcontained hcode himage hm hold ha ho
  obtain ⟨body', w', code', p', hlies', hplace', -, hshift'⟩ :=
    exists_liesApart haddress hcontained hcode himage hm' hold' hb ho'
  by_contra hnone
  simp only [not_or, not_and, not_le] at hnone
  obtain ⟨hdiffer, hlt, hlt'⟩ := hnone
  -- an operand that reaches into another one is that one, with the token that stands there
  obtain rfl : p' = p := hlies.eq_of_within (x := max p p') ha hplace
    (hlies'.operandRun hb hplace') ⟨by omega, by omega⟩ ⟨by omega, by omega⟩
  refine hdiffer (by omega) ?_
  obtain ⟨-, -, hvalue⟩ := hlies.token ha hplace
  obtain ⟨-, -, hvalue'⟩ := hlies'.token hb hplace'
  exact congrArg Token.mk (UInt32.toNat_inj.mp (hvalue.symm.trans hvalue'))

/-- A method token in code has its new number in the output. -/
lemma Stages.Follow.natAt_token (hlies : image.LiesApart s.layout m body w code)
    (ha : a ∈ m.tokens) (ho : image.OperandAt m a.1 o) :
    s.image.natAt (o + s.layout.growth) 4 =
      ((MethodPlan.ofImage image).rids.token a.2).value.toNat := by
  obtain ⟨t, hleads⟩ := hlies.leads
  obtain ⟨hle, hend, hvalue⟩ := hlies.token ha ho
  obtain ⟨-, htotal⟩ := hlies.totalSize_le
  have hheaders := (haddress.offset_lt_kept hleads).1
  have hkept := hlies.end_le_kept haddress
  have hshift (k : Nat) : s.layout.shift (o + k) = o + s.layout.growth + k := by
    rw [haddress.shift_of_data (by omega)]
    omega
  have hwithin {k : Nat} (hk : k < 4) : Within w.start body.totalSize (o + k) :=
    ⟨by omega, by omega⟩
  obtain ⟨coded, hcoded, hsame⟩ := h.exists_coded haddress hcontained
  have himage' : s.image.natAt (o + s.layout.growth) 4 = coded.natAt (o + s.layout.growth) 4 := by
    refine natAt_congr fun k hk => ?_
    rw [← hshift k]
    exact hsame _ (by omega) (by omega) (hlies.not_other (hwithin hk))
  rw [himage']
  rcases hcoded with ⟨hunchanged, rfl⟩ | ⟨-, n, hcoded⟩
  · -- nothing is renumbered where every row keeps its number
    have hid : (MethodPlan.ofImage image).rids.token a.2 = a.2 := RidMap.token_of_get fun _ =>
      MethodPlan.get_of_isIdentity ((Bool.and_eq_true ..).mp hunchanged).2 _
    obtain ⟨hlaid, -⟩ := h.laid_built haddress.read haddress.headers haddress.sections hcontained
    rw [hid, ← hvalue]
    refine natAt_congr fun k hk => ?_
    rw [← hshift k]
    refine hlaid.kept _ (by omega) (by omega) ?_
    rintro ⟨hgrows, entries, hentries, e, he, hover⟩
    exact hlies.not_debugPointer (hwithin hk)
      ⟨hgrows, entries, hentries, e, he, within_of_shift hover⟩
  · have happart := apart_operands haddress hcontained hcode himage
    have hmem : a ∈ image.operands := Image.mem_operands.mpr ⟨m, hlies.mem, hlies.old, ha⟩
    obtain ⟨_, hrenumbered, -⟩ := RidMap.renumbered_of_code happart.separate hcoded
    obtain ⟨p, hp⟩ := RidMap.exists_placed_of_code hcoded hmem
    obtain ⟨body', w', code', o', hlies', ho', -, rfl⟩ :=
      exists_liesApart haddress hcontained hcode himage hlies.mem hlies.old ha hp
    obtain rfl : o' = o := by
      rw [hlies.operandAt_iff] at ho ho'
      rw [ho, ho']
    exact hrenumbered.natAt hmem hp fun b hb hp' => happart.token_eq hb hmem hp' hp

/-- All tokens of a body are renumbered, those that name no methods to themselves. -/
lemma Stages.Follow.natAt_instruction (hlies : image.LiesApart s.layout m body w code)
    {i : Instruction} (hi : i ∈ m.instructions.toList) {token : Token}
    (htoken : i.token? = some token) :
    s.image.natAt (w.start + body.headerSize + (i.offset + i.size - 4) + s.layout.growth) 4 =
      ((MethodPlan.ofImage image).rids.token token).value.toNat := by
  by_cases hmethod : token.isMethodDef = true
  · have ha : (i, token) ∈ m.tokens := Image.mem_tokens.mpr ⟨hi, htoken, hmethod⟩
    exact h.natAt_token haddress hcontained hcode himage hlies ha (hlies.operandAt_iff.mpr rfl)
  obtain ⟨hend, hroom, hvalue⟩ := hlies.reads.token hi htoken
  obtain ⟨htotal, -⟩ := hlies.totalSize_le
  have hsame : (MethodPlan.ofImage image).rids.token token = token :=
    RidMap.token_of_unlisted (.inl fun htable => hmethod (beq_iff_eq.mpr htable))
  rw [hsame, ← hvalue, hlies.data_eq]
  refine natAt_congr fun k hk => ?_
  rw [Nat.add_right_comm]
  -- a method token over it would be the token of this very instruction
  refine h.getElem?_body haddress hcontained hlies ⟨by omega, by omega⟩ fun a ha o ho hwithin =>
    hmethod ?_
  obtain ⟨hj, htoken', hmethod'⟩ := Image.mem_tokens.mp ha
  rw [hlies.operandAt_iff] at ho
  obtain ⟨hle, hlt⟩ := hwithin
  have heq : i = a.1 := hlies.reads.eq_of_token (k := i.offset + i.size - 4 + k) hi hj
    (Option.isSome_of_mem htoken') ⟨by omega, by omega⟩ ⟨by omega, by omega⟩
  rw [← heq, htoken] at htoken'
  exact Option.some.inj htoken' ▸ hmethod'

/-- The code of a method reads from an output as it does from the input, with its method tokens
renumbered. -/
theorem Stages.Follow.readBody (hm : m ∈ image.methods.toList) (hold : m.isAdded = false) :
    (s.layout.newFile image.file s.added s.image).readBody m.rva m.implFlags =
      .ok (m.body, m.instructions.map
        (Instruction.mapToken (MethodPlan.ofImage image).rids.token)) := by
  have hread := himage.readBody hm hold
  rcases PeFile.readBody_eq_ok.mp hread with ⟨hnone, hbody, hall⟩ | ⟨hsome, body, _, _, hbody, -⟩
  · rw [hbody, hall]
    exact PeFile.readBody_eq_ok.mpr (.inl ⟨hnone, rfl, by simp⟩)
  obtain ⟨w, code, hlies⟩ := hcode.liesApart himage hm hold hbody
  obtain ⟨t, hleads⟩ := hlies.leads
  have hroom : s.layout.sectionStart ≤ s.image.size := by
    rw [h.size haddress.read]
    exact Nat.le_add_right ..
  obtain ⟨w', htail, hdata', hstart', hsize⟩ :=
    haddress.exists_tail_moved hleads hroom hlies.reads.tail
  obtain ⟨code', hreads⟩ := hlies.reads.renumbered htail hsize
    (f := (MethodPlan.ofImage image).rids.token) (fun k hk hother => by
      rw [hdata', hstart', hlies.data_eq, Nat.add_right_comm]
      refine h.getElem?_body haddress hcontained hlies ⟨by omega, by omega⟩
        fun a ha o ho hwithin => ?_
      obtain ⟨hi, htoken, -⟩ := Image.mem_tokens.mp ha
      rw [hlies.operandAt_iff] at ho
      obtain ⟨hle, hlt⟩ := hwithin
      exact hother a.1 hi (Option.isSome_of_mem htoken) ⟨by omega, by omega⟩)
    fun i hi token htoken => by
      rw [hdata', hstart', Nat.add_right_comm w.start, Nat.add_right_comm (w.start + _)]
      exact h.natAt_instruction haddress hcontained hcode himage hlies hi htoken
  exact PeFile.readBody_eq_ok.mpr (.inr ⟨hsome, body, w', code', hbody, hreads⟩)

end Output

end CliImage
