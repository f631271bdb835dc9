import CliImage.Proofs.InPlace
import CliImage.Proofs.Root
import CliImage.Proofs.Symbols.Stepping

/-! Interning only appends to a heap: what it has put in is found there from then on, and what could
be found before still can. -/

namespace CliImage

namespace Utf8

/-- Only the zero character is spelled with a zero byte. -/
lemma zero_mem_encode {text : String} : 0 ∈ encode text ↔ '\x00' ∈ text.toList := by
  have hchar (c : Char) : 0 ∈ String.utf8EncodeChar c ↔ '\x00' = c := by
    have hnat : '\x00' = c ↔ c.val.toNat = 0 := by
      rw [Char.ext_iff, eq_comm, ← UInt32.toNat_inj]
      rfl
    have hbyte (n : Nat) : 0 = UInt8.ofNat n ↔ n % 256 = 0 := by
      rw [← UInt8.toNat_inj, UInt8.toNat_ofNat', eq_comm]
      rfl
    rw [hnat]
    unfold String.utf8EncodeChar
    simp only
    split_ifs <;> simp only [List.mem_cons, List.not_mem_nil, or_false, hbyte] <;> omega
  rw [encode, String.toUTF8_eq_toByteArray, ← String.utf8Encode_toList, List.utf8Encode,
    List.data_toByteArray, List.mem_toArray, List.mem_flatMap]
  simp only [hchar, exists_eq_right']

end Utf8

namespace Strings

variable {data back name : Bytes} {heap : Strings} {text : String} {start stop index : Nat}

/-- The bytes of a name stand in front of a terminator. -/
def EndsAt (data name : Bytes) (stop : Nat) : Prop :=
  data[stop]? = some 0 ∧ name.size ≤ stop ∧
    ∀ i < name.size, data[stop - name.size + i]? = name[i]?

/-- The first place where a name ends. -/
def FirstEnd (data name : Bytes) (stop : Nat) : Prop :=
  EndsAt data name stop ∧ ∀ k < stop, ¬ EndsAt data name k

lemma EndsAt.lt_size (h : EndsAt data name stop) : stop < data.size :=
  (Array.getElem?_eq_some_iff.mp h.1).1

lemma endsAt_append (hlt : stop < data.size) :
    EndsAt (data ++ back) name stop ↔ EndsAt data name stop := by
  rw [EndsAt, EndsAt, Array.getElem?_append_left hlt]
  refine and_congr_right fun _ => and_congr_right fun hle => forall₂_congr fun i hi => ?_
  rw [Array.getElem?_append_left (by omega)]

lemma FirstEnd.append (h : FirstEnd data name stop) (back : Bytes) :
    FirstEnd (data ++ back) name stop := by
  have hlt := h.1.lt_size
  exact ⟨(endsAt_append hlt).mpr h.1, fun k hk hends =>
    h.2 k hk ((endsAt_append (hk.trans hlt)).mp hends)⟩

lemma FirstEnd.unique {stop' : Nat} (h : FirstEnd data name stop) (h' : FirstEnd data name stop') :
    stop = stop' := by
  rcases Nat.lt_trichotomy stop stop' with hlt | heq | hlt
  · exact absurd h.1 (h'.2 stop hlt)
  · exact heq
  · exact absurd h'.1 (h.2 stop' hlt)

lemma endsAt_reverse_iff {reversed : List UInt8} : endsAt data stop reversed = true ↔
    reversed.length ≤ stop ∧ ∀ i < reversed.length, data[stop - 1 - i]? = reversed[i]? := by
  induction reversed generalizing stop with
  | nil => simp [endsAt]
  | cons b bs ih =>
    cases stop with
    | zero => simp [endsAt]
    | succ stop =>
      rw [endsAt, Bool.and_eq_true, beq_iff_eq, ih, List.length_cons, Nat.forall_lt_succ_left',
        Nat.succ_le_succ_iff]
      simp only [Nat.add_sub_cancel, Nat.sub_zero, List.getElem?_cons_zero,
        List.getElem?_cons_succ, Nat.sub_sub, Nat.add_comm 1]
      tauto

lemma endsAt_iff : data[stop]? = some 0 ∧ endsAt data stop name.toList.reverse = true ↔
    EndsAt data name stop := by
  rw [endsAt_reverse_iff, EndsAt, List.length_reverse, Array.length_toList]
  refine and_congr_right fun _ => and_congr_right fun hle => ⟨fun h i hi => ?_, fun h i hi => ?_⟩
  · have := h (name.size - 1 - i) (by omega)
    rw [List.getElem?_reverse (by rw [Array.length_toList]; omega), Array.length_toList,
      Array.getElem?_toList] at this
    rwa [show stop - 1 - (name.size - 1 - i) = stop - name.size + i by omega,
      show name.size - 1 - (name.size - 1 - i) = i by omega] at this
  · have := h (name.size - 1 - i) (by omega)
    rw [List.getElem?_reverse (by rwa [Array.length_toList]), Array.length_toList,
      Array.getElem?_toList]
    rwa [show stop - name.size + (name.size - 1 - i) = stop - 1 - i by omega] at this

/-- The search from the front gives the first place, and none where there is none. -/
lemma findEnd?_spec (hbefore : ∀ k < start, ¬ EndsAt data name k) :
    match findEnd? data name.toList.reverse start with
    | some stop => FirstEnd data name stop
    | none => ∀ k, ¬ EndsAt data name k := by
  generalize hreversed : name.toList.reverse = reversed
  revert hbefore
  fun_induction findEnd? data reversed start with
  | case1 start hlt hend =>
    intro hbefore
    subst hreversed
    refine ⟨endsAt_iff.mp ⟨?_, hend.2⟩, hbefore⟩
    rw [Array.getElem?_eq_getElem hlt, hend.1]
  | case2 start hlt hend ih =>
    refine fun hbefore => ih fun k hk hends => ?_
    rcases Nat.lt_succ_iff_lt_or_eq.mp hk with hk | rfl
    · exact hbefore k hk hends
    · subst hreversed
      obtain ⟨hzero, hends⟩ := endsAt_iff.mpr hends
      rw [Array.getElem?_eq_getElem hlt] at hzero
      exact hend ⟨Option.some.inj hzero, hends⟩
  | case3 start hge =>
    intro hbefore k hends
    exact hbefore k (by have := hends.lt_size; omega) hends

lemma findEnd?_front (data name : Bytes) :
    match findEnd? data name.toList.reverse 0 with
    | some stop => FirstEnd data name stop
    | none => ∀ k, ¬ EndsAt data name k :=
  findEnd?_spec (by simp)

lemma findEnd?_eq_some :
    findEnd? data name.toList.reverse 0 = some stop ↔ FirstEnd data name stop := by
  have hspec := findEnd?_front data name
  split at hspec
  · rename_i found hfound
    rw [hfound]
    exact ⟨fun h => Option.some.inj h ▸ hspec, fun h => congrArg some (hspec.unique h)⟩
  · rename_i hnone
    rw [hnone]
    exact ⟨nofun, fun h => absurd h.1 (hspec stop)⟩

lemma findEnd?_eq_none :
    findEnd? data name.toList.reverse 0 = none ↔ ∀ k, ¬ EndsAt data name k := by
  have hspec := findEnd?_front data name
  split at hspec
  · rename_i found hfound
    rw [hfound]
    exact ⟨nofun, fun h => absurd hspec.1 (h found)⟩
  · rename_i hnone
    exact ⟨fun _ => hspec, fun _ => hnone⟩

lemma terminator?_eq_some (hle : start ≤ stop) (hzero : data[stop]? = some 0)
    (hbefore : ∀ k, start ≤ k → k < stop → data[k]? ≠ some 0) :
    terminator? data start = some stop := by
  have hstop := (Array.getElem?_eq_some_iff.mp hzero).1
  fun_induction terminator? data start with
  | case1 start hlt hstart =>
    rcases Nat.lt_or_eq_of_le hle with hless | rfl
    · exact absurd (by rw [Array.getElem?_eq_getElem hlt, hstart]) (hbefore start le_rfl hless)
    · rfl
  | case2 start hlt hstart ih =>
    refine ih ?_ fun k hk => hbefore k (by omega)
    rcases Nat.lt_or_eq_of_le hle with hless | rfl
    · exact hless
    · rw [Array.getElem?_eq_getElem hlt] at hzero
      exact absurd (Option.some.inj hzero) hstart
  | case3 start hge => omega

/-- A name is read where it ends. -/
lemma get_of_endsAt (hname : 0 ∉ Utf8.encode text) (h : EndsAt data (Utf8.encode text) stop) :
    get ⟨data⟩ (stop - (Utf8.encode text).size) = .ok text := by
  obtain ⟨hzero, hle, hbytes⟩ := h
  have hlt := (Array.getElem?_eq_some_iff.mp hzero).1
  have hterminator : terminator? data (stop - (Utf8.encode text).size) = some stop := by
    refine terminator?_eq_some (Nat.sub_le ..) hzero fun k hk hk' hnull => hname ?_
    have := hbytes (k - (stop - (Utf8.encode text).size)) (by omega)
    rw [Nat.add_sub_cancel' hk, hnull] at this
    exact Array.mem_of_getElem? this.symm
  have hsame : data.extract (stop - (Utf8.encode text).size)
      (stop - (Utf8.encode text).size + (Utf8.encode text).size) =
        (Utf8.encode text).extract 0 (0 + (Utf8.encode text).size) :=
    Bytes.extract_congr fun i hi => by rw [hbytes i hi, Nat.zero_add]
  rw [Nat.sub_add_cancel hle, Nat.zero_add, Array.extract_size] at hsame
  simp only [get]
  rw [if_pos (by omega), hterminator, Option.bind_some, hsame, Utf8.decode?_eq_some.mpr rfl]

lemma encode_of_isEmpty (h : text.isEmpty = true) : Utf8.encode text = #[] := by
  rw [String.isEmpty_iff] at h
  rw [h]
  rfl

lemma firstEnd_empty (hzero : data[0]? = some 0) : FirstEnd data #[] 0 :=
  ⟨⟨hzero, le_rfl, by simp⟩, by simp⟩

/-- A name that ends in the heap is not put in again. -/
lemma intern_of_firstEnd (hzero : heap.data[0]? = some 0)
    (h : FirstEnd heap.data (Utf8.encode text) stop) :
    heap.intern text = (heap, stop - (Utf8.encode text).size) := by
  unfold intern
  split
  · rename_i hempty
    rw [encode_of_isEmpty hempty] at h
    rw [h.unique (firstEnd_empty hzero), Nat.zero_sub]
  · simp only [findEnd?_eq_some.mpr h]

/-- No name ends across the old end of a heap, or the zero byte there would be one of its bytes. -/
lemma firstEnd_of_append (hname : 0 ∉ name) (h : ∀ k, ¬ EndsAt data name k) :
    FirstEnd (data ++ name ++ #[0]) name (data.size + name.size) := by
  have hat (i : Nat) (hi : i < name.size) : (data ++ name ++ #[0])[data.size + i]? = name[i]? := by
    rw [Array.getElem?_append_left (by rw [Array.size_append]; omega),
      Array.getElem?_append_right (by omega), Nat.add_sub_cancel_left]
  refine ⟨⟨?_, by omega, fun i hi => ?_⟩, fun k hk hends => ?_⟩
  · rw [Array.getElem?_append_right (by rw [Array.size_append]), Array.size_append, Nat.sub_self]
    rfl
  · rw [Nat.add_sub_cancel, hat i hi]
  · -- An earlier end lies in the old bytes, where there is none, or at a byte of the name itself.
    rcases Nat.lt_or_ge k data.size with hlt | hge
    · rw [Array.append_assoc, endsAt_append hlt] at hends
      exact h k hends
    · have hzero := hends.1
      rw [show k = data.size + (k - data.size) by omega, hat _ (by omega)] at hzero
      exact hname (Array.mem_of_getElem? hzero)

/-- A name that has been put in ends in the heap, and its index is that of the first place. -/
lemma firstEnd_of_intern (hzero : heap.data[0]? = some 0) (hname : 0 ∉ Utf8.encode text) :
    ∃ stop, FirstEnd (heap.intern text).1.data (Utf8.encode text) stop ∧
      (heap.intern text).2 = stop - (Utf8.encode text).size := by
  unfold intern
  split
  · rename_i hempty
    rw [encode_of_isEmpty hempty]
    exact ⟨0, firstEnd_empty hzero, rfl⟩
  · simp only
    split
    · rename_i stop hstop
      exact ⟨stop, findEnd?_eq_some.mp hstop, rfl⟩
    · rename_i hnone
      exact ⟨_, firstEnd_of_append hname (findEnd?_eq_none.mp hnone), (Nat.add_sub_cancel ..).symm⟩

/-- A name is put in with its terminator, in one step. -/
def internInPlace (text : String) : InPlace Strings Nat :=
  modifyGet fun heap => (heap.intern text).swap

lemma internInPlace_apply (heap : Strings) (text : String) :
    internInPlace text heap = .ok (heap.intern text).2 (heap.intern text).1 := rfl

end Strings

namespace Blobs

variable {heap : Blobs}

lemma intern_empty (heap : Blobs) : heap.intern #[] = .ok (heap, 0) := rfl

/-- The first byte of a heap is the empty blob. -/
lemma get_zero (hzero : heap.data[0]? = some 0) : heap.get 0 = .ok #[] := by
  obtain ⟨⟨bytes⟩⟩ := heap
  cases bytes with
  | nil => cases hzero
  | cons b rest =>
    obtain rfl : b = 0 := by simpa using hzero
    have hget : get ⟨empty.data ++ rest.toArray⟩ 0 = .ok #[] :=
      get_append (by decide +kernel) rest.toArray
    simpa [empty] using hget

/-- Puts a length at the end, if it has a spelling. -/
def pushLength (n : Nat) : InPlace Blobs Unit :=
  match Compressed.encode n with
  | .ok length => modify fun heap => ⟨heap.data ++ length⟩
  | .error e => throw e

/-- A blob is put in in two steps, its length and its bytes. -/
def internInPlace (value : Bytes) : InPlace Blobs Nat := do
  if value.isEmpty then return 0
  let heap ← MonadState.get
  match find? heap.data value 0 with
  | some index => return index
  | none =>
    pushLength value.size
    modify fun heap => ⟨heap.data ++ value⟩
    return heap.data.size

/-- The first of the two steps fails or none does. -/
lemma internInPlace_apply (heap : Blobs) (value : Bytes) :
    internInPlace value heap = match heap.intern value with
      | .ok (after, index) => .ok index after
      | .error e => .error e heap := by
  unfold internInPlace intern
  cases value.isEmpty with
  | true => rfl
  | false =>
    simp only [Bool.false_eq_true, if_false, InPlace.get_bind]
    cases find? heap.data value 0 with
    | some index => rfl
    | none =>
      simp only [InPlace.bind_apply, pushLength]
      cases Compressed.encode value.size <;> rfl

end Blobs

/-- A heap with the call that reads it and the one that puts a value in. -/
structure Interner (H V : Type) where
  data : H → Bytes
  get : H → Nat → Result V
  intern : V → InPlace H Nat

namespace Interner

variable {H V : Type} {I : Interner H V} {p : V → Prop} {heap between : H} {value : V}
  {index : Nat} {e : Error}

/-- The heap after values have been put in, or have not, one after another. -/
def after (I : Interner H V) (heap : H) (values : List V) : H := InPlace.after I.intern heap values

/-- A heap has the bytes of another one at its front. -/
def Grown (I : Interner H V) (heap grown : H) : Prop := ∃ back, I.data grown = I.data heap ++ back

lemma Grown.trans {grown further : H} (h : I.Grown heap grown) (h' : I.Grown grown further) :
    I.Grown heap further := by
  obtain ⟨back, hback⟩ := h
  obtain ⟨back', hback'⟩ := h'
  exact ⟨back ++ back', by rw [hback', hback, Array.append_assoc]⟩

lemma Grown.starts {grown : H} (h : I.Grown heap grown) (hzero : (I.data heap)[0]? = some 0) :
    (I.data grown)[0]? = some 0 := by
  obtain ⟨back, hback⟩ := h
  rw [hback, Array.getElem?_append_left (Array.getElem?_eq_some_iff.mp hzero).1, hzero]

/-- What one call does, and what more bytes do not change. The values with `p` are those that a heap
can give back. -/
structure Lawful (I : Interner H V) (p : V → Prop) : Prop where
  grown (heap : H) (value : V) : I.Grown heap (InPlace.stateOf (I.intern value heap))
  get_grown {heap grown : H} {index : Nat} {value : V} : I.Grown heap grown →
    I.get heap index = .ok value → I.get grown index = .ok value
  get_intern {heap between : H} {value : V} {index : Nat} : (I.data heap)[0]? = some 0 → p value →
    I.intern value heap = .ok index between →
      index < (I.data between).size ∧ I.get between index = .ok value
  unchanged {heap between : H} {value : V} {e : Error} :
    I.intern value heap = .error e between → between = heap

/-- Values are only added at the end of a heap: whatever is put in before and later, each one that
is put in has an index in the heap that gives it from then on, what resolves resolves to the same
value, the bytes stay where they are, and a call that fails does nothing. -/
structure AppendOnly (I : Interner H V) (p : V → Prop) (heap : H) : Prop where
  interned (before later : List V) {value : V} {index : Nat} {between : H} : p value →
    I.intern value (I.after heap before) = .ok index between →
      index < (I.data between).size ∧ I.get between index = .ok value ∧
        I.get (I.after between later) index = .ok value
  resolved (before later : List V) {index : Nat} {value : V} :
    I.get (I.after heap before) index = .ok value →
      I.get (I.after heap (before ++ later)) index = .ok value
  bytes (before later : List V) : ∃ back,
    I.data (I.after heap (before ++ later)) = I.data (I.after heap before) ++ back
  failed (before : List V) {value : V} {e : Error} {between : H} :
    I.intern value (I.after heap before) = .error e between → between = I.after heap before

lemma Lawful.grown_after (h : I.Lawful p) (heap : H) (values : List V) :
    I.Grown heap (I.after heap values) :=
  InPlace.rel_after (fun _ => ⟨#[], (Array.append_empty).symm⟩) Grown.trans h.grown heap values

lemma Lawful.appendOnly (h : I.Lawful p) (hzero : (I.data heap)[0]? = some 0) :
    I.AppendOnly p heap where
  interned before later value index between hvalue hintern := by
    obtain ⟨hlt, hget⟩ :=
      h.get_intern ((h.grown_after heap before).starts hzero) hvalue hintern
    exact ⟨hlt, hget, h.get_grown (h.grown_after between later) hget⟩
  resolved before later index value hget := by
    rw [after, InPlace.after_append]
    exact h.get_grown (h.grown_after _ later) hget
  bytes before later := by
    rw [after, InPlace.after_append]
    exact h.grown_after _ later
  failed before value e between hintern := h.unchanged hintern

end Interner

namespace Strings

/-- A string that a zero byte can be the end of. -/
def IsName (text : String) : Prop := '\x00' ∉ text.toList

lemma IsName.zero_not_mem {text : String} (h : IsName text) : 0 ∉ Utf8.encode text :=
  mt Utf8.zero_mem_encode.mp h

def interner : Interner Strings String := ⟨data, get, internInPlace⟩

lemma lawful : interner.Lawful IsName where
  grown := intern_data
  get_grown {heap grown} index text hgrown hget := by
    obtain ⟨back, hback⟩ := hgrown
    obtain rfl : grown = ⟨heap.data ++ back⟩ := congrArg Strings.mk hback
    exact get_append hget back
  get_intern {heap between text index} hzero hname hintern := by
    cases hintern
    have hzero : heap.data[0]? = some 0 := hzero
    obtain ⟨stop, hstop, hindex⟩ := firstEnd_of_intern hzero hname.zero_not_mem
    rw [hindex]
    exact ⟨(Nat.sub_le ..).trans_lt hstop.1.lt_size, get_of_endsAt hname.zero_not_mem hstop.1⟩
  unchanged hintern := by cases hintern

/-- A name stays where it has been put in as the heap grows. -/
lemma intern_of_grown {heap grown : Strings} {text : String} (hname : IsName text)
    (hzero : heap.data[0]? = some 0) (hgrown : interner.Grown (heap.intern text).1 grown) :
    grown.intern text = (grown, (heap.intern text).2) := by
  obtain ⟨stop, hstop, hindex⟩ := firstEnd_of_intern hzero hname.zero_not_mem
  have hstarts : grown.data[0]? = some 0 := hgrown.starts ((lawful.grown heap text).starts hzero)
  obtain ⟨back, hback⟩ := hgrown
  obtain rfl : grown = ⟨(heap.intern text).1.data ++ back⟩ := congrArg Strings.mk hback
  rw [intern_of_firstEnd hstarts (hstop.append back), hindex]

/-- A name that is put in again, whatever has been put in meanwhile, is found where it was found
first, and nothing is added. -/
def FindsAgain (heap : Strings) : Prop :=
  ∀ (before later : List String) (text : String) (index : Nat) (between : Strings), IsName text →
    internInPlace text (interner.after heap before) = .ok index between →
      internInPlace text (interner.after between later) = .ok index (interner.after between later)

lemma findsAgain {heap : Strings} (hzero : heap.data[0]? = some 0) : heap.FindsAgain := by
  intro before later text index between hname hintern
  have hbefore : (interner.after heap before).data[0]? = some 0 :=
    (lawful.grown_after heap before).starts hzero
  cases hintern
  rw [internInPlace_apply, intern_of_grown hname hbefore (lawful.grown_after _ later)]

end Strings

namespace Blobs

def interner : Interner Blobs Bytes := ⟨data, get, internInPlace⟩

lemma internInPlace_eq_ok {heap after : Blobs} {value : Bytes} {index : Nat} :
    internInPlace value heap = .ok index after ↔ heap.intern value = .ok (after, index) := by
  rw [internInPlace_apply]
  cases heap.intern value <;> simp [Prod.ext_iff, and_comm]

lemma lawful : interner.Lawful fun _ => True where
  grown heap value := by
    change ∃ back, (InPlace.stateOf (internInPlace value heap)).data = heap.data ++ back
    rw [internInPlace_apply]
    cases hintern : heap.intern value with
    | ok result => exact intern_data hintern
    | error e => exact ⟨#[], (Array.append_empty).symm⟩
  get_grown {heap grown} index value hgrown hget := by
    obtain ⟨back, hback⟩ := hgrown
    obtain rfl : grown = ⟨heap.data ++ back⟩ := congrArg Blobs.mk hback
    exact get_append hget back
  get_intern {heap between value index} hzero _ hintern := by
    have hintern := internInPlace_eq_ok.mp hintern
    have hget : between.get index = .ok value := by
      by_cases hvalue : value = #[]
      · subst hvalue
        cases hintern
        exact get_zero hzero
      · exact get_intern hvalue hintern
    exact ⟨lt_size_of_get hget, hget⟩
  unchanged {heap between value e} hintern := by
    change internInPlace value heap = .error e between at hintern
    rw [internInPlace_apply] at hintern
    cases hresult : heap.intern value with
    | ok result =>
      rw [hresult] at hintern
      cases hintern
    | error e =>
      rw [hresult] at hintern
      cases hintern
      rfl

end Blobs

/-- Every heap that begins with a zero byte, whatever is behind it, only grows at the end; and a
name is put into it once. -/
theorem Interner.appendOnly_of_read (data : Bytes) :
    (∀ heap, Strings.read data = .ok heap →
      Strings.interner.AppendOnly Strings.IsName heap ∧ heap.FindsAgain) ∧
    (∀ heap, Blobs.read data = .ok heap → Blobs.interner.AppendOnly (fun _ => True) heap) := by
  refine ⟨fun heap hread => ?_, fun heap hread => ?_⟩
  · obtain ⟨hzero, rfl⟩ := Strings.read_eq_ok.mp hread
    exact ⟨Strings.lawful.appendOnly hzero, Strings.findsAgain hzero⟩
  · obtain ⟨hzero, rfl⟩ := Blobs.read_eq_ok.mp hread
    exact Blobs.lawful.appendOnly hzero

/-- A name without an end and a length without its bytes: what is put in behind them is found. -/
theorem Interner.appendOnly_unended :
    Strings.read #[0, 0x62] = .ok ⟨#[0, 0x62]⟩ ∧ Blobs.read #[0, 0x62] = .ok ⟨#[0, 0x62]⟩ ∧
    Strings.internInPlace "b" ⟨#[0, 0x62]⟩ = .ok 2 ⟨#[0, 0x62, 0x62, 0]⟩ ∧
    Strings.internInPlace "b" ⟨#[0, 0x62, 0x62, 0]⟩ = .ok 2 ⟨#[0, 0x62, 0x62, 0]⟩ ∧
    Blobs.internInPlace #[7] ⟨#[0, 0x62]⟩ = .ok 2 ⟨#[0, 0x62, 1, 7]⟩ ∧
    (Strings.interner.AppendOnly Strings.IsName ⟨#[0, 0x62]⟩ ∧ Strings.FindsAgain ⟨#[0, 0x62]⟩) ∧
    Blobs.interner.AppendOnly (fun _ => True) ⟨#[0, 0x62]⟩ := by
  have hfirst : Strings.intern ⟨#[0, 0x62]⟩ "b" = (⟨#[0, 0x62, 0x62, 0]⟩, 2) := by decide +kernel
  have hagain : Strings.intern ⟨#[0, 0x62, 0x62, 0]⟩ "b" = (⟨#[0, 0x62, 0x62, 0]⟩, 2) := by
    decide +kernel
  have hblob : Blobs.intern ⟨#[0, 0x62]⟩ #[7] = .ok (⟨#[0, 0x62, 1, 7]⟩, 2) := by decide +kernel
  refine ⟨by decide +kernel, by decide +kernel, ?_, ?_, Blobs.internInPlace_eq_ok.mpr hblob, ?_, ?_⟩
  · rw [Strings.internInPlace_apply, hfirst]
  · rw [Strings.internInPlace_apply, hagain]
  · exact (appendOnly_of_read #[0, 0x62]).1 _ (by decide +kernel)
  · exact (appendOnly_of_read #[0, 0x62]).2 _ (by decide +kernel)

end CliImage
