import CliImage.Instruction.Basic
import CliImage.Proofs.Reader

/-! Code is decoded instruction by instruction, and a token that is overwritten in place is all that
changes in what it decodes to. -/

namespace CliImage.Instruction

open Reader

variable {code code' : Bytes} {rva : UInt64} {pos next : Nat} {i : Instruction} {f : Token → Token}

/-- An opcode is a byte and what follows from it. -/
lemma exists_readOpcode : ∃ rest : UInt8 → Reader (Bool × UInt8 × Opcode),
    readOpcode = (u8 >>= rest) ∧ ∀ first, Framed (rest first) := by
  refine ⟨_, rfl, fun first => Framed.ite (Framed.u8.bind fun second => ?_) ?_⟩
  · cases Opcode.extended[second.toNat]? with
    | none => exact Framed.fail _
    | some opcode => cases opcode <;> first | exact Framed.fail _ | exact Framed.pure _
  · cases Opcode.single[first.toNat]? with
    | none => exact Framed.fail _
    | some opcode => cases opcode <;> first | exact Framed.fail _ | exact Framed.pure _

lemma readOpcode_single {first : UInt8} {opcode : Opcode} (hfirst : u8 code pos = .ok first next)
    (hsingle : first ≠ Opcode.escape) (hopcode : Opcode.single[first.toNat]? = some (some opcode)) :
    readOpcode code pos = .ok (false, first, opcode) next := by
  refine bind_eq_ok.mpr ⟨first, next, hfirst, ?_⟩
  rw [if_neg hsingle, hopcode]
  rfl

lemma framed_readOpcode : Framed readOpcode := by
  obtain ⟨rest, heq, hrest⟩ := exists_readOpcode
  rw [heq]
  exact Framed.u8.bind hrest

lemma lt_of_readOpcode {opcode : Bool × UInt8 × Opcode} (h : readOpcode code pos = .ok opcode next) :
    pos < next := by
  obtain ⟨rest, heq, hrest⟩ := exists_readOpcode
  rw [heq] at h
  obtain ⟨first, between, hfirst, h⟩ := bind_eq_ok.mp h
  have hbetween : between = pos + 1 := next_of_u8 hfirst
  have hle := (hrest first).le h
  omega

lemma framed_readInt32 : Framed readInt32 := Framed.u32.map

lemma framed_readSwitch : Framed readSwitch := by
  refine Framed.u32.map.bind fun count => ?_
  have hrest : Framed (do
      let offsets ← Reader.array readInt32 count
      pure (Operand.switch offsets.toList)) :=
    (framed_readInt32.array count).bind fun _ => Framed.pure _
  refine Framed.size (f := fun size => Reader.pos >>= fun start =>
    if (size - start) / 4 < count then Reader.fail (.fault (.switchCases count)) >>= fun _ => _
    else _) fun size => Framed.position.bind fun start => ?_
  exact Framed.ite ((Framed.fail _).bind fun _ => hrest) hrest

lemma framed_readOperand (kind : OperandKind) : Framed (readOperand kind) := by
  cases kind with
  | none => exact Framed.pure _
  | int8 => exact Framed.u8.map
  | uint8 => exact Framed.u8.map
  | uint16 => exact Framed.u16.map
  | int32 => exact framed_readInt32.map
  | int64 => exact Framed.u64.map
  | float32 => exact Framed.u32.map
  | float64 => exact Framed.u64.map
  | token => exact Framed.u32.map
  | switch => exact framed_readSwitch

/-- The same instruction with its token, if it has one, changed. -/
def mapToken (f : Token → Token) (i : Instruction) : Instruction :=
  match i.operand with
  | .token token => { i with operand := .token (f token) }
  | _ => i

lemma token?_eq_some {token : Token} : i.token? = some token ↔ i.operand = .token token := by
  unfold token?
  cases i.operand <;> simp

lemma mapToken_of_none (h : i.token? = none) : i.mapToken f = i := by
  unfold token? at h
  unfold mapToken
  cases hoperand : i.operand <;> simp [hoperand] at h ⊢

lemma mapToken_of_some {token : Token} (h : i.token? = some token) :
    i.mapToken f = { i with operand := .token (f token) } := by
  rw [mapToken, token?_eq_some.mp h]

/-- The parts that an instruction is read from. -/
lemma read_eq_ok : read rva code pos = .ok i next ↔ ∃ escaped opcode between,
    readOpcode code pos = .ok (escaped, i.code, opcode) between ∧
      readOperand opcode.operand code between = .ok i.operand next ∧
      i = ⟨rva, pos, next - pos, escaped, i.code, opcode, i.operand,
        branchTargets opcode.flow i.operand (rva + UInt64.ofNat (next - pos))⟩ := by
  constructor
  · intro h
    obtain ⟨_, _, hpos, h⟩ := bind_eq_ok.mp h
    cases hpos
    obtain ⟨⟨escaped, byte, opcode⟩, between, hopcode, h⟩ := bind_eq_ok.mp h
    obtain ⟨operand, _, hoperand, h⟩ := bind_eq_ok.mp h
    obtain ⟨_, _, hend, h⟩ := bind_eq_ok.mp h
    cases hend
    cases h
    exact ⟨escaped, opcode, between, hopcode, hoperand, rfl⟩
  · rintro ⟨escaped, opcode, between, hopcode, hoperand, hi⟩
    refine bind_eq_ok.mpr ⟨pos, pos, rfl, bind_eq_ok.mpr ⟨_, between, hopcode,
      bind_eq_ok.mpr ⟨_, next, hoperand, bind_eq_ok.mpr ⟨next, next, rfl, ?_⟩⟩⟩⟩
    rw [hi]
    rfl

/-- A token is what the last four bytes of its instruction spell. -/
lemma token_of_readOperand {kind : OperandKind} {token : Token}
    (h : readOperand kind code pos = .ok (.token token) next) : kind = .token ∧
      next = pos + 4 ∧ next ≤ code.size ∧ token = ⟨UInt32.ofNat (code.natAt pos 4)⟩ := by
  cases kind with
  | token =>
    obtain ⟨value, hvalue, htoken⟩ := map_eq_ok.mp h
    obtain ⟨hle, rfl, rfl⟩ := u32_eq_ok.mp hvalue
    cases htoken
    exact ⟨rfl, rfl, hle, rfl⟩
  | none => cases h
  | switch =>
    obtain ⟨cases, _, _, h⟩ := bind_eq_ok.mp h
    obtain ⟨_, _, _, h⟩ := bind_eq_ok.mp h
    obtain ⟨_, _, _, h⟩ := bind_eq_ok.mp h
    obtain ⟨-, h⟩ := unless_fail_eq_ok.mp h
    obtain ⟨_, _, _, h⟩ := bind_eq_ok.mp h
    cases h
  | int8 => obtain ⟨_, _, h⟩ := map_eq_ok.mp h; cases h
  | uint8 => obtain ⟨_, _, h⟩ := map_eq_ok.mp h; cases h
  | uint16 => obtain ⟨_, _, h⟩ := map_eq_ok.mp h; cases h
  | int32 => obtain ⟨_, _, h⟩ := map_eq_ok.mp h; cases h
  | int64 => obtain ⟨_, _, h⟩ := map_eq_ok.mp h; cases h
  | float32 => obtain ⟨_, _, h⟩ := map_eq_ok.mp h; cases h
  | float64 => obtain ⟨_, _, h⟩ := map_eq_ok.mp h; cases h

/-- The places of an instruction that has been read, and of its token. -/
lemma bounds_of_read (h : read rva code pos = .ok i next) : i.rva = rva ∧ i.offset = pos ∧
    i.offset + i.size = next ∧ pos < next ∧
      ∀ token, i.token? = some token → pos + 4 < next ∧ next ≤ code.size ∧
        token = ⟨UInt32.ofNat (code.natAt (next - 4) 4)⟩ := by
  obtain ⟨escaped, opcode, between, hopcode, hoperand, hi⟩ := read_eq_ok.mp h
  have hlt := lt_of_readOpcode hopcode
  have hle := (framed_readOperand _).le hoperand
  rw [hi]
  refine ⟨rfl, rfl, by simp only; omega, by omega, fun token htoken => ?_⟩
  rw [token?_eq_some.mp htoken] at hoperand
  obtain ⟨-, rfl, hend, htoken⟩ := token_of_readOperand hoperand
  exact ⟨by omega, hend, by rw [htoken, Nat.add_sub_cancel]⟩

/-- Between one byte string and another nothing but the instruction's token changes, by `f`. -/
structure Patched (f : Token → Token) (code code' : Bytes) (i : Instruction) : Prop where
  same : ∀ k, i.offset ≤ k → k < i.offset + i.size →
    (i.token?.isSome → k + 4 < i.offset + i.size) → code'[k]? = code[k]?
  token : ∀ token, i.token? = some token →
    code'.natAt (i.offset + i.size - 4) 4 = (f token).value.toNat

lemma fits_of_read (h : read rva code pos = .ok i next) (hpos : pos ≤ code.size) :
    next ≤ code.size := by
  obtain ⟨escaped, opcode, between, hopcode, hoperand, -⟩ := read_eq_ok.mp h
  exact (framed_readOperand _).fits hoperand (framed_readOpcode.fits hopcode hpos)

lemma branchTargets_token (flow : Flow) (token token' : Token) (next : UInt64) :
    branchTargets flow (.token token) next = branchTargets flow (.token token') next := by
  cases flow <;> rfl

lemma read_patched (h : read rva code pos = .ok i next) (hsize : code'.size = code.size)
    (hpatched : Patched f code code' i) : read rva code' pos = .ok (i.mapToken f) next := by
  obtain ⟨-, hoffset, hend, hlt, htoken⟩ := bounds_of_read h
  have hsame := hpatched.same
  rw [hend, hoffset] at hsame
  obtain ⟨escaped, opcode, between, hopcode, hoperand, hi⟩ := read_eq_ok.mp h
  have hbetween := lt_of_readOpcode hopcode
  have hle := (framed_readOperand _).le hoperand
  cases htoken? : i.token? with
  | none =>
    rw [htoken?] at hsame
    rw [mapToken_of_none htoken?]
    refine read_eq_ok.mpr ⟨escaped, opcode, between, framed_readOpcode.congr hopcode hsize ?_,
      (framed_readOperand _).congr hoperand hsize ?_, hi⟩
    · intro k hk hk'
      exact hsame k hk (by omega) (by simp)
    · intro k hk hk'
      exact hsame k (by omega) hk' (by simp)
  | some token =>
    rw [htoken?] at hsame
    rw [token?_eq_some.mp htoken?] at hoperand
    obtain ⟨hkind, rfl, hfit, -⟩ := token_of_readOperand hoperand
    have hvalue := hpatched.token token htoken?
    rw [hend, Nat.add_sub_cancel] at hvalue
    rw [mapToken_of_some htoken?]
    refine read_eq_ok.mpr ⟨escaped, opcode, between, framed_readOpcode.congr hopcode hsize ?_,
      ?_, ?_⟩
    · intro k hk hk'
      exact hsame k hk (by omega) fun _ => by omega
    · rw [hkind]
      refine map_eq_ok.mpr ⟨_, u32_eq_ok.mpr ⟨by rwa [hsize], rfl, rfl⟩, ?_⟩
      rw [hvalue, UInt32.ofNat_toNat]
    · rw [hi, token?_eq_some.mp htoken?, branchTargets_token _ _ (f token)]

/-- Code from a position to its end is a list of instructions, each behind the one before. -/
inductive Decodes (code : Bytes) : UInt64 → Nat → List Instruction → Prop
  | nil {rva : UInt64} {pos : Nat} : code.size ≤ pos → Decodes code rva pos []
  | cons {rva : UInt64} {pos : Nat} {i : Instruction} {is : List Instruction} : pos < code.size →
      read rva code pos = .ok i (pos + i.size) →
      Decodes code (rva + UInt64.ofNat i.size) (pos + i.size) is → Decodes code rva pos (i :: is)

lemma readAll_succ {steps : Nat} {done all : Array Instruction} (hpos : pos < code.size) :
    readAll (steps + 1) rva done code pos = .ok all next ↔ ∃ i between,
      read rva code pos = .ok i between ∧
        readAll steps (rva + UInt64.ofNat i.size) (done.push i) code between = .ok all next := by
  rw [readAll, bind_eq_ok]
  constructor
  · rintro ⟨_, _, hmore, h⟩
    cases hmore
    rw [if_pos (by simpa using hpos)] at h
    exact bind_eq_ok.mp h
  · intro h
    refine ⟨_, _, rfl, ?_⟩
    rw [if_pos (by simpa using hpos)]
    exact bind_eq_ok.mpr h

lemma readAll_end {steps : Nat} {done all : Array Instruction} (hpos : code.size ≤ pos) :
    readAll steps rva done code pos = .ok all next ↔ done = all ∧ pos = next := by
  cases steps with
  | zero => exact pure_eq_ok
  | succ steps =>
    rw [readAll, bind_eq_ok]
    have hmore : Reader.hasMore code pos = .ok false pos := by
      rw [Reader.hasMore, decide_eq_false (by omega)]
    constructor
    · rintro ⟨_, _, h, hrest⟩
      rw [hmore] at h
      cases h
      exact pure_eq_ok.mp hrest
    · intro h
      exact ⟨_, _, hmore, pure_eq_ok.mpr h⟩

lemma decodes_of_readAll {steps : Nat} {done all : Array Instruction}
    (hsteps : code.size ≤ pos + steps) (h : readAll steps rva done code pos = .ok all next) :
    ∃ is, all = done ++ is.toArray ∧ Decodes code rva pos is := by
  induction steps generalizing rva pos done with
  | zero =>
    obtain ⟨rfl, -⟩ := (readAll_end (by omega)).mp h
    exact ⟨[], by simp, .nil (by omega)⟩
  | succ steps ih =>
    by_cases hpos : pos < code.size
    · obtain ⟨i, between, hread, hrest⟩ := (readAll_succ hpos).mp h
      obtain ⟨-, hoffset, hend, hlt, -⟩ := bounds_of_read hread
      obtain ⟨is, hall, his⟩ := ih (by omega) hrest
      obtain rfl : between = pos + i.size := by omega
      exact ⟨i :: is, by rw [hall]; simp, .cons hpos hread his⟩
    · obtain ⟨rfl, -⟩ := (readAll_end (by omega)).mp h
      exact ⟨[], by simp, .nil (by omega)⟩

lemma Decodes.readAll {is : List Instruction} (h : Decodes code rva pos is) {steps : Nat}
    (hsteps : code.size ≤ pos + steps) (done : Array Instruction) :
    ∃ next, readAll steps rva done code pos = .ok (done ++ is.toArray) next := by
  induction h generalizing steps done with
  | nil hpos => exact ⟨_, (readAll_end hpos).mpr ⟨by simp, rfl⟩⟩
  | @cons rva pos i is hpos hread _ ih =>
    cases steps with
    | zero => omega
    | succ steps =>
      obtain ⟨-, hoffset, hend, hlt, -⟩ := bounds_of_read hread
      obtain ⟨next, hnext⟩ := @ih steps (by omega) (done.push i)
      refine ⟨next, (readAll_succ hpos).mpr ⟨i, _, hread, ?_⟩⟩
      rw [hnext]
      simp

lemma decode_eq_ok {all : Array Instruction} :
    decode code rva = .ok all ↔ Decodes code rva 0 all.toList := by
  rw [decode, run_eq_ok]
  constructor
  · rintro ⟨next, h⟩
    obtain ⟨is, rfl, his⟩ := decodes_of_readAll (by omega) h
    simpa using his
  · intro h
    have hsteps : code.size ≤ 0 + code.size := by omega
    simpa using h.readAll hsteps #[]

/-- The instructions lie one behind the other, and addresses go along with offsets. -/
lemma Decodes.bounds {is : List Instruction} (h : Decodes code rva pos is) (hi : i ∈ is) :
    pos ≤ i.offset ∧ i.offset + i.size ≤ code.size ∧ i.rva = rva + UInt64.ofNat (i.offset - pos) ∧
      ∀ token, i.token? = some token → 4 < i.size ∧
        token = ⟨UInt32.ofNat (code.natAt (i.offset + i.size - 4) 4)⟩ := by
  induction h with
  | nil => cases hi
  | @cons rva pos j is hpos hread _ ih =>
    obtain ⟨hrva, hoffset, hend, hlt, htoken⟩ := bounds_of_read hread
    have hfits := fits_of_read hread hpos.le
    rcases List.mem_cons.mp hi with rfl | hi
    · refine ⟨hoffset.ge, by omega, ?_, fun token h => ?_⟩
      · rw [hrva, hoffset, Nat.sub_self]
        simp
      · obtain ⟨hsize, -, hvalue⟩ := htoken token h
        exact ⟨by omega, by rw [hvalue, hend]⟩
    · obtain ⟨hle, hfit, hrva', htoken'⟩ := ih hi
      refine ⟨by omega, hfit, ?_, htoken'⟩
      rw [hrva', UInt64.add_assoc, ← UInt64.ofNat_add]
      congr 2
      omega

/-- Code whose tokens are overwritten decodes to the same instructions with those tokens. -/
theorem Decodes.patched {is : List Instruction} (h : Decodes code rva pos is)
    (hsize : code'.size = code.size) (hpatched : ∀ i ∈ is, Patched f code code' i) :
    Decodes code' rva pos (is.map (mapToken f)) := by
  induction h with
  | nil hpos => exact .nil (by omega)
  | @cons rva pos i is hpos hread _ ih =>
    have hmapped : (i.mapToken f).size = i.size := by
      unfold mapToken
      split <;> rfl
    have hread' := read_patched hread hsize (hpatched i (List.mem_cons_self ..))
    refine .cons (by omega) (by rwa [hmapped]) ?_
    rw [hmapped]
    exact ih fun j hj => hpatched j (List.mem_cons_of_mem _ hj)

end CliImage.Instruction
