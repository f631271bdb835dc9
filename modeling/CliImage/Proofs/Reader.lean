import CliImage.Proofs.Bytes
import CliImage.Reader
import Mathlib.Data.List.Forall2

/-! What a reader that succeeds says about its parts, and which bytes it reads a value back from. -/

namespace CliImage.Reader

variable {α β : Type} {data : Bytes} {pos next : Nat}

lemma bind_eq_ok {x : Reader α} {f : α → Reader β} {b : β} :
    (x >>= f) data pos = .ok b next ↔
      ∃ a between, x data pos = .ok a between ∧ f a data between = .ok b next := by
  rw [bind_apply]
  cases x data pos <;> simp

lemma map_eq_ok {f : α → β} {x : Reader α} {b : β} :
    (f <$> x) data pos = .ok b next ↔ ∃ a, x data pos = .ok a next ∧ f a = b := by
  rw [map_apply]
  cases x data pos <;> simp [and_comm]

@[simp] lemma fail_apply (e : Error) : (fail e : Reader α) data pos = .error e pos := rfl

lemma unless_fail_eq_ok {c : Prop} [Decidable c] {e : Error} {f : α → Reader β} {x : Reader β}
    {b : β} : (if c then (fail e : Reader α) >>= f else x) data pos = .ok b next ↔
      ¬ c ∧ x data pos = .ok b next := by
  split
  · simp [bind_apply, *]
  · simp [*]

@[simp] lemma data_apply : Reader.data data pos = .ok data pos := rfl

lemma pure_eq_ok {a b : α} : (pure a : Reader α) data pos = .ok b next ↔ a = b ∧ pos = next := by
  simp

lemma number_eq_ok {w value : Nat} :
    number w data pos = .ok value next ↔
      pos + w ≤ data.size ∧ data.natAt pos w = value ∧ pos + w = next := by
  unfold number
  split <;> simp [*]

lemma u8_eq_ok {value : UInt8} : u8 data pos = .ok value next ↔
    pos + 1 ≤ data.size ∧ UInt8.ofNat (data.natAt pos 1) = value ∧ pos + 1 = next := by
  simp [u8, map_eq_ok, number_eq_ok, and_comm, and_left_comm]

lemma u16_eq_ok {value : UInt16} : u16 data pos = .ok value next ↔
    pos + 2 ≤ data.size ∧ UInt16.ofNat (data.natAt pos 2) = value ∧ pos + 2 = next := by
  simp [u16, map_eq_ok, number_eq_ok, and_comm, and_left_comm]

lemma u32_eq_ok {value : UInt32} : u32 data pos = .ok value next ↔
    pos + 4 ≤ data.size ∧ UInt32.ofNat (data.natAt pos 4) = value ∧ pos + 4 = next := by
  simp [u32, map_eq_ok, number_eq_ok, and_comm, and_left_comm]

lemma u64_eq_ok {value : UInt64} : u64 data pos = .ok value next ↔
    pos + 8 ≤ data.size ∧ UInt64.ofNat (data.natAt pos 8) = value ∧ pos + 8 = next := by
  simp [u64, map_eq_ok, number_eq_ok, and_comm, and_left_comm]

lemma bytes_eq_ok {data value : Bytes} {pos next n : Nat} :
    bytes n data pos = .ok value next ↔
      pos + n ≤ data.size ∧ data.extract pos (pos + n) = value ∧ pos + n = next := by
  unfold bytes
  split <;> simp [*]

lemma peek_eq_ok {b : UInt8} :
    peek data pos = .ok b next ↔ data[pos]? = some b ∧ pos = next := by
  unfold peek
  cases data[pos]? <;> simp

lemma hasMore_eq_ok {more : Bool} :
    hasMore data pos = .ok more next ↔ decide (pos < data.size) = more ∧ pos = next := by
  simp [hasMore]

lemma advance_eq_ok {n : Nat} {u : Unit} :
    advance n data pos = .ok u next ↔ pos + n ≤ data.size ∧ pos + n = next := by
  unfold advance
  split <;> simp [*]

lemma mapM_cons_eq_ok {f : α → Reader β} {x : α} {xs : List α} {ys : List β} :
    (x :: xs).mapM f data pos = .ok ys next ↔ ∃ y between ys',
      f x data pos = .ok y between ∧ xs.mapM f data between = .ok ys' next ∧ y :: ys' = ys := by
  rw [List.mapM_cons, bind_eq_ok]
  simp only [bind_eq_ok, pure_eq_ok]
  constructor
  · rintro ⟨y, between, hy, ys', _, hys, rfl, rfl⟩
    exact ⟨y, between, ys', hy, hys, rfl⟩
  · rintro ⟨y, between, ys', hy, hys, rfl⟩
    exact ⟨y, between, hy, ys', next, hys, rfl, rfl⟩

/-- Each of the results is one that some step gave. -/
lemma forall_of_mapM {f : α → Reader β} {xs : List α} {ys : List β}
    (h : xs.mapM f data pos = .ok ys next) :
    List.Forall₂ (fun x y => ∃ pos next, f x data pos = .ok y next) xs ys := by
  induction xs generalizing ys pos with
  | nil =>
    rw [List.mapM_nil, pure_eq_ok] at h
    rw [← h.1]
    exact .nil
  | cons x xs ih =>
    obtain ⟨y, between, ys', hy, hys, rfl⟩ := mapM_cons_eq_ok.mp h
    exact .cons ⟨pos, between, hy⟩ (ih hys)

lemma exists_of_mapM {f : α → Reader β} {xs : List α} {ys : List β}
    (h : xs.mapM f data pos = .ok ys next) {x : α} (hx : x ∈ xs) :
    ∃ y pos next, f x data pos = .ok y next := by
  obtain ⟨i, hi, rfl⟩ := List.getElem_of_mem hx
  have hall := forall_of_mapM h
  obtain ⟨pos, next, hread⟩ := hall.get hi (hall.length_eq ▸ hi)
  exact ⟨_, pos, next, hread⟩

/-- A reader of items that tells which of the inputs each item is for reads the items in that order. -/
lemma map_of_mapM {f : α → Reader β} {g : β → α}
    (hf : ∀ x pos y next, f x data pos = .ok y next → g y = x) {xs : List α} {ys : List β}
    (h : xs.mapM f data pos = .ok ys next) : ys.map g = xs := by
  induction xs generalizing ys pos with
  | nil =>
    rw [List.mapM_nil, pure_eq_ok] at h
    rw [← h.1, List.map_nil]
  | cons x xs ih =>
    obtain ⟨y, between, ys, hy, hys, rfl⟩ := mapM_cons_eq_ok.mp h
    rw [List.map_cons, hf x pos y between hy, ih hys]

lemma length_of_many {item : Reader α} {n : Nat} {xs : List α}
    (h : many item n data pos = .ok xs next) : xs.length = n := by
  induction n generalizing xs pos next with
  | zero =>
    obtain ⟨rfl, -⟩ := pure_eq_ok.mp h
    rfl
  | succ n ih =>
    obtain ⟨x, between, -, h⟩ := bind_eq_ok.mp h
    obtain ⟨rest, _, hrest, h⟩ := bind_eq_ok.mp h
    obtain ⟨rfl, -⟩ := pure_eq_ok.mp h
    rw [List.length_cons, ih hrest]

lemma manyInto_succ_eq_ok {item : Reader α} {n : Nat} {done all : Array α} :
    manyInto item (n + 1) done data pos = .ok all next ↔ ∃ a between,
      item data pos = .ok a between ∧ manyInto item n (done.push a) data between = .ok all next := by
  cases h : item data pos <;> simp [manyInto, h]

lemma forall_of_manyInto {item : Reader α} {n : Nat} {done all : Array α}
    (h : manyInto item n done data pos = .ok all next) :
    all.size = done.size + n ∧
      ∀ a ∈ all, a ∈ done ∨ ∃ pos next, item data pos = .ok a next := by
  induction n generalizing done pos with
  | zero =>
    obtain ⟨rfl, -⟩ := pure_eq_ok.mp h
    exact ⟨rfl, fun a ha => .inl ha⟩
  | succ n ih =>
    obtain ⟨a, between, ha, hrest⟩ := manyInto_succ_eq_ok.mp h
    obtain ⟨hsize, hall⟩ := ih hrest
    refine ⟨by rw [hsize, Array.size_push]; omega, fun b hb => ?_⟩
    rcases hall b hb with hb | hb
    · rcases Array.mem_push.mp hb with hb | rfl
      · exact .inl hb
      · exact .inr ⟨pos, between, ha⟩
    · exact .inr hb

lemma forall_of_array {item : Reader α} {n : Nat} {all : Array α}
    (h : array item n data pos = .ok all next) :
    all.size = n ∧ ∀ a ∈ all, ∃ pos next, item data pos = .ok a next := by
  obtain ⟨hsize, hall⟩ := forall_of_manyInto h
  exact ⟨by simpa using hsize, fun a ha => (hall a ha).resolve_left (by simp)⟩

lemma run_eq_ok {reader : Reader α} {a : α} :
    reader.run data = .ok a ↔ ∃ next, reader data 0 = .ok a next := by
  unfold run
  cases reader data 0 <;> simp

/-- The reader does not look beyond where it stops. -/
def Local (reader : Reader α) : Prop :=
  ∀ ⦃data pos a next⦄, reader data pos = .ok a next → ∀ back,
    reader (data ++ back) pos = .ok a next

lemma Local.bind {x : Reader α} {f : α → Reader β} (hx : Local x) (hf : ∀ a, Local (f a)) :
    Local (x >>= f) := fun _ _ _ _ h back => by
  obtain ⟨a, between, hread, hrest⟩ := bind_eq_ok.mp h
  exact bind_eq_ok.mpr ⟨a, between, hx hread back, hf a hrest back⟩

lemma Local.pure (a : α) : Local (pure a) := fun _ _ _ _ h _ => h

lemma Local.fail (e : Error) : Local (fail e : Reader α) := fun _ _ _ _ h _ => by cases h

lemma Local.ite {c : Prop} [Decidable c] {x y : Reader α} (hx : Local x) (hy : Local y) :
    Local (if c then x else y) := by
  split
  · exact hx
  · exact hy

lemma Local.u8 : Local u8 := fun _ _ _ _ h back => by
  obtain ⟨hle, hvalue, hnext⟩ := u8_eq_ok.mp h
  exact u8_eq_ok.mpr ⟨by rw [Array.size_append]; omega, by rwa [Bytes.natAt_append hle], hnext⟩

lemma Local.bytes (n : Nat) : Local (bytes n) := fun _ _ _ _ h back => by
  obtain ⟨hle, hvalue, hnext⟩ := bytes_eq_ok.mp h
  exact bytes_eq_ok.mpr ⟨by rw [Array.size_append]; omega, by rwa [Bytes.extract_append hle], hnext⟩

/-- The reader goes forward within the bytes, and it looks at nothing but those that it passes and at
how many there are. -/
structure Framed (reader : Reader α) : Prop where
  le : ∀ {data pos a next}, reader data pos = .ok a next → pos ≤ next
  fits : ∀ {data pos a next}, reader data pos = .ok a next → pos ≤ data.size → next ≤ data.size
  congr : ∀ {data data' pos a next}, reader data pos = .ok a next → data'.size = data.size →
    (∀ k, pos ≤ k → k < next → data'[k]? = data[k]?) → reader data' pos = .ok a next

lemma Framed.pure (a : α) : Framed (pure a) where
  le h := (pure_eq_ok.mp h).2.le
  fits h hpos := (pure_eq_ok.mp h).2.ge.trans hpos
  congr h _ _ := pure_eq_ok.mpr (pure_eq_ok.mp h)

lemma Framed.fail (e : Error) : Framed (fail e : Reader α) where
  le h := by cases h
  fits h := by cases h
  congr h := by cases h

lemma Framed.bind {x : Reader α} {f : α → Reader β} (hx : Framed x) (hf : ∀ a, Framed (f a)) :
    Framed (x >>= f) where
  le h := by
    obtain ⟨a, between, hfirst, hrest⟩ := bind_eq_ok.mp h
    exact (hx.le hfirst).trans ((hf a).le hrest)
  fits h hpos := by
    obtain ⟨a, between, hfirst, hrest⟩ := bind_eq_ok.mp h
    exact (hf a).fits hrest (hx.fits hfirst hpos)
  congr h hsize hsame := by
    obtain ⟨a, between, hfirst, hrest⟩ := bind_eq_ok.mp h
    have hle := hx.le hfirst
    have hle' := (hf a).le hrest
    refine bind_eq_ok.mpr ⟨a, between, hx.congr hfirst hsize fun k hk hk' => ?_,
      (hf a).congr hrest hsize fun k hk hk' => ?_⟩
    · exact hsame k hk (hk'.trans_le hle')
    · exact hsame k (hle.trans hk) hk'

lemma Framed.map {f : α → β} {x : Reader α} (hx : Framed x) : Framed (f <$> x) where
  le h := by
    obtain ⟨a, ha, -⟩ := map_eq_ok.mp h
    exact hx.le ha
  fits h hpos := by
    obtain ⟨a, ha, -⟩ := map_eq_ok.mp h
    exact hx.fits ha hpos
  congr h hsize hsame := by
    obtain ⟨a, ha, hb⟩ := map_eq_ok.mp h
    exact map_eq_ok.mpr ⟨a, hx.congr ha hsize hsame, hb⟩

lemma Framed.ite {c : Prop} [Decidable c] {x y : Reader α} (hx : Framed x) (hy : Framed y) :
    Framed (if c then x else y) := by
  split
  · exact hx
  · exact hy

lemma Framed.number (w : Nat) : Framed (number w) where
  le h := by
    obtain ⟨-, -, rfl⟩ := number_eq_ok.mp h
    exact Nat.le_add_right ..
  fits h _ := by
    obtain ⟨hle, -, rfl⟩ := number_eq_ok.mp h
    exact hle
  congr h hsize hsame := by
    obtain ⟨hle, hvalue, rfl⟩ := number_eq_ok.mp h
    refine number_eq_ok.mpr ⟨by rwa [hsize], ?_, rfl⟩
    rw [← hvalue]
    exact Bytes.natAt_congr fun i hi => hsame _ (Nat.le_add_right ..) (by omega)

lemma Framed.u8 : Framed u8 := (Framed.number 1).map

lemma Framed.u16 : Framed u16 := (Framed.number 2).map

lemma Framed.u32 : Framed u32 := (Framed.number 4).map

lemma Framed.u64 : Framed u64 := (Framed.number 8).map

lemma Framed.position : Framed Reader.pos where
  le h := by
    cases h
    rfl
  fits h hpos := by
    cases h
    exact hpos
  congr h _ _ := by
    cases h
    rfl

/-- How many bytes there are is the same for all byte strings of that size. -/
lemma Framed.size {f : Nat → Reader α} (hf : ∀ n, Framed (f n)) :
    Framed (Reader.data >>= fun data => f data.size) where
  le h := (hf _).le h
  fits h := (hf _).fits h
  congr {data data' pos a next} h hsize hsame := by
    have := (hf data.size).congr h hsize hsame
    rw [← hsize] at this
    exact this

lemma Framed.manyInto {item : Reader α} (h : Framed item) (n : Nat) (done : Array α) :
    Framed (manyInto item n done) := by
  induction n generalizing done with
  | zero => exact Framed.pure done
  | succ n ih =>
    constructor
    · intro data pos all next hall
      obtain ⟨a, between, ha, hrest⟩ := manyInto_succ_eq_ok.mp hall
      exact (h.le ha).trans ((ih _).le hrest)
    · intro data pos all next hall hpos
      obtain ⟨a, between, ha, hrest⟩ := manyInto_succ_eq_ok.mp hall
      exact (ih _).fits hrest (h.fits ha hpos)
    · intro data data' pos all next hall hsize hsame
      obtain ⟨a, between, ha, hrest⟩ := manyInto_succ_eq_ok.mp hall
      have hle := h.le ha
      have hle' := (ih _).le hrest
      refine manyInto_succ_eq_ok.mpr ⟨a, between, h.congr ha hsize fun k hk hk' => ?_,
        (ih _).congr hrest hsize fun k hk hk' => ?_⟩
      · exact hsame k hk (hk'.trans_le hle')
      · exact hsame k (hle.trans hk) hk'

lemma Framed.array {item : Reader α} (h : Framed item) (n : Nat) : Framed (array item n) :=
  h.manyInto n #[]

/-- The reader makes the value of the piece, wherever it stands, and stops behind it. -/
def ReadsBack (reader : Reader α) (piece : Bytes) (a : α) : Prop :=
  ∀ ⦃data pos⦄, data.StandsAt pos piece → reader data pos = .ok a (pos + piece.size)

variable {x : Reader α} {f : α → Reader β} {piece piece' : Bytes} {a : α} {b : β}

lemma ReadsBack.pure (a : α) : ReadsBack (pure a) #[] a := fun _ _ _ => by simp

lemma ReadsBack.bind (h : ReadsBack x piece a) (h' : ReadsBack (f a) piece' b) :
    ReadsBack (x >>= f) (piece ++ piece') b := fun data pos hdata => by
  rw [bind_apply, h hdata.left]
  simp only
  rw [h' hdata.right, Array.size_append, Nat.add_assoc]

lemma ReadsBack.map {g : α → β} (h : ReadsBack x piece a) : ReadsBack (g <$> x) piece (g a) :=
  fun data pos hdata => by rw [map_apply, h hdata]

lemma ReadsBack.number {w n : Nat} (h : n < 256 ^ w) :
    ReadsBack (number w) (Bytes.ofNat w n) n := fun data pos hdata =>
  number_eq_ok.mpr ⟨by simpa using hdata.le_size, hdata.natAt_ofNat h, by simp⟩

lemma ReadsBack.u8 (n : UInt8) : ReadsBack u8 #[n] n := by
  have h : ReadsBack Reader.u8 (Bytes.ofNat 1 n.toNat) (UInt8.ofNat n.toNat) :=
    (ReadsBack.number n.toNat_lt).map
  simpa [Bytes.ofNat] using h

lemma ReadsBack.u16 (n : UInt16) : ReadsBack u16 (Bytes.ofUInt16 n) n := by
  have h : ReadsBack Reader.u16 (Bytes.ofNat 2 n.toNat) (UInt16.ofNat n.toNat) :=
    (ReadsBack.number n.toNat_lt).map
  rwa [UInt16.ofNat_toNat] at h

lemma ReadsBack.u32 (n : UInt32) : ReadsBack u32 (Bytes.ofUInt32 n) n := by
  have h : ReadsBack Reader.u32 (Bytes.ofNat 4 n.toNat) (UInt32.ofNat n.toNat) :=
    (ReadsBack.number n.toNat_lt).map
  rwa [UInt32.ofNat_toNat] at h

lemma ReadsBack.u64 (n : UInt64) : ReadsBack u64 (Bytes.ofUInt64 n) n := by
  have h : ReadsBack Reader.u64 (Bytes.ofNat 8 n.toNat) (UInt64.ofNat n.toNat) :=
    (ReadsBack.number n.toNat_lt).map
  rwa [UInt64.ofNat_toNat] at h

lemma ReadsBack.vector {n : Nat} (v : Vector UInt8 n) : ReadsBack (vector n) v.toArray v :=
  fun data pos hdata => by
    have hle := hdata.le_size
    have hextract := hdata.extract
    simp only [Vector.size_toArray] at hle hextract ⊢
    rw [Reader.vector, dif_pos hle]
    congr 1
    exact Vector.toArray_inj.mp hextract

lemma ReadsBack.mapM_nil (f : α → Reader β) : ReadsBack (([] : List α).mapM f) #[] [] :=
  fun _ _ _ => by simp

lemma ReadsBack.mapM_cons {f : α → Reader β} {x : α} {xs : List α} {y : β} {ys : List β}
    (h : ReadsBack (f x) piece y) (h' : ReadsBack (xs.mapM f) piece' ys) :
    ReadsBack ((x :: xs).mapM f) (piece ++ piece') (y :: ys) := fun data pos hdata =>
  mapM_cons_eq_ok.mpr ⟨y, _, ys, h hdata.left, by
    rw [h' hdata.right, Array.size_append, Nat.add_assoc], rfl⟩

/-- Pieces appended one by one. -/
lemma foldl_append (piece : α → Bytes) (xs : List α) (done : Bytes) :
    xs.foldl (fun done x => done ++ piece x) done =
      done ++ xs.foldl (fun done x => done ++ piece x) #[] := by
  induction xs generalizing done with
  | nil => simp
  | cons x xs ih =>
    rw [List.foldl_cons, List.foldl_cons, ih, ih (#[] ++ piece x), Array.empty_append,
      Array.append_assoc]

lemma ReadsBack.mapM {f : α → Reader β} {piece : α → Bytes} {value : α → β} {xs : List α}
    (h : ∀ x ∈ xs, ReadsBack (f x) (piece x) (value x)) :
    ReadsBack (xs.mapM f) (xs.foldl (fun done x => done ++ piece x) #[]) (xs.map value) := by
  induction xs with
  | nil => exact .mapM_nil f
  | cons x xs ih =>
    rw [List.foldl_cons, foldl_append, Array.empty_append]
    exact .mapM_cons (h x (List.mem_cons_self ..))
      (ih fun x hx => h x (List.mem_cons_of_mem _ hx))

lemma ReadsBack.unless_fail {γ : Type} {c : Prop} [Decidable c] {e : Error} {f : γ → Reader α}
    (hc : ¬ c) (h : ReadsBack x piece a) :
    ReadsBack (if c then (fail e : Reader γ) >>= f else x) piece a := by
  rwa [if_neg hc]

/-- The reader comes to the result where the piece stands, be it a value or an error. -/
def ComesTo (reader : Reader α) (piece : Bytes) (r : Result α) : Prop :=
  ∀ ⦃data pos⦄, data.StandsAt pos piece → (match reader data pos with
    | .ok a _ => .ok a
    | .error e _ => .error e) = r

lemma ReadsBack.bindTo {r : Result β} (h : ReadsBack x piece a) (h' : ComesTo (f a) piece' r) :
    ComesTo (x >>= f) (piece ++ piece') r := fun data pos hdata => by
  rw [bind_apply, h hdata.left]
  exact h' hdata.right

lemma ComesTo.unless_fail {γ : Type} {c : Prop} [Decidable c] {e : Error} {f : γ → Reader α}
    {r : Result α} (hc : ¬ c) (h : ComesTo x piece r) :
    ComesTo (if c then (fail e : Reader γ) >>= f else x) piece r := by
  rwa [if_neg hc]

lemma ComesTo.pure (a : α) : ComesTo (pure a) #[] (.ok a) := fun _ _ _ => rfl

lemma ComesTo.fail (e : Error) : ComesTo (fail e : Reader α) #[] (.error e) := fun _ _ _ => rfl

lemma ReadsBack.manyInto_zero (item : Reader α) (done : Array α) :
    ReadsBack (manyInto item 0 done) #[] done := .pure done

lemma ReadsBack.manyInto_succ {item : Reader α} {n : Nat} {done all : Array α}
    (h : ReadsBack item piece a) (h' : ReadsBack (manyInto item n (done.push a)) piece' all) :
    ReadsBack (manyInto item (n + 1) done) (piece ++ piece') all := fun data pos hdata =>
  manyInto_succ_eq_ok.mpr ⟨a, _, h hdata.left, by
    rw [h' hdata.right, Array.size_append, Nat.add_assoc]⟩

lemma ReadsBack.bytes {n : Nat} {piece : Bytes} (h : piece.size = n) :
    ReadsBack (bytes n) piece piece := fun data pos hdata => by
  subst h
  exact bytes_eq_ok.mpr ⟨hdata.le_size, hdata.extract, rfl⟩

/-- The piece begins with a byte that passes a test. -/
def Leads (p : UInt8 → Prop) (piece : Bytes) : Prop := ∃ b, piece[0]? = some b ∧ p b

lemma Leads.append {p : UInt8 → Prop} (h : Leads p piece) (piece' : Bytes) :
    Leads p (piece ++ piece') := by
  obtain ⟨b, hget, hb⟩ := h
  obtain ⟨hlt, -⟩ := Array.getElem?_eq_some_iff.mp hget
  exact ⟨b, by rwa [Array.getElem?_append_left hlt], hb⟩

lemma leads_singleton {p : UInt8 → Prop} {b : UInt8} (h : p b) (piece : Bytes) :
    Leads p (#[b] ++ piece) := Leads.append ⟨b, rfl, h⟩ piece

lemma ReadsBack.peek {f : UInt8 → Reader β} {c : UInt8} (hlead : piece[0]? = some c)
    (h : ReadsBack (f c) piece b) : ReadsBack (Reader.peek >>= f) piece b :=
  fun _ pos hdata =>
    bind_eq_ok.mpr ⟨c, pos, peek_eq_ok.mpr ⟨hdata.lead hlead, rfl⟩, h hdata⟩

lemma ReadsBack.advance (b : UInt8) : ReadsBack (Reader.advance 1) #[b] () :=
  fun _ _ hdata => advance_eq_ok.mpr ⟨by simpa using hdata.le_size, by simp⟩

lemma ReadsBack.bind_empty (h : ReadsBack x piece a)
    (h' : ReadsBack (f a) #[] b) : ReadsBack (x >>= f) piece b := by
  have := h.bind h'
  rwa [Array.append_empty] at this

lemma ReadsBack.bind_pure {g : α → β} (h : ReadsBack x piece a) :
    ReadsBack (x >>= fun a => Pure.pure (g a)) piece (g a) := h.bind_empty (.pure (g a))

/-- A list spelled item by item. -/
lemma ReadsBack.many {item : Reader α} {f : α → Bytes} {pieces : List α → Bytes}
    (hnil : pieces [] = #[]) (hcons : ∀ x xs, pieces (x :: xs) = f x ++ pieces xs)
    {xs : List α} (h : ∀ x ∈ xs, ReadsBack item (f x) x) :
    ReadsBack (Reader.many item xs.length) (pieces xs) xs := by
  induction xs with
  | nil =>
    rw [hnil]
    exact .pure []
  | cons x xs ih =>
    rw [hcons]
    refine .bind (h x (List.mem_cons_self ..)) ?_
    exact (ih fun x hx => h x (List.mem_cons_of_mem _ hx)).bind_pure

/-- The reader makes the value of the piece where a byte that passes the test stands behind it. -/
def ReadsBefore (p : UInt8 → Prop) (reader : Reader α) (piece : Bytes) (a : α) : Prop :=
  ∀ ⦃data pos⦄, data.StandsAt pos piece → (∃ b, data[pos + piece.size]? = some b ∧ p b) →
    reader data pos = .ok a (pos + piece.size)

lemma ReadsBefore.bind {p : UInt8 → Prop} (h : ReadsBefore p x piece a)
    (hlead : Leads p piece') (h' : ReadsBack (f a) piece' b) :
    ReadsBack (x >>= f) (piece ++ piece') b := fun data pos hdata => by
  obtain ⟨lead, hget, hlead⟩ := hlead
  refine bind_eq_ok.mpr ⟨a, _, h hdata.left ⟨lead, hdata.right.lead hget, hlead⟩, ?_⟩
  rw [h' hdata.right, Array.size_append, Nat.add_assoc]

lemma ReadsBack.bindBefore {p : UInt8 → Prop} (h : ReadsBack x piece a)
    (h' : ReadsBefore p (f a) piece' b) :
    ReadsBefore p (x >>= f) (piece ++ piece') b := fun data pos hdata hend => by
  rw [Array.size_append, ← Nat.add_assoc] at hend ⊢
  exact bind_eq_ok.mpr ⟨a, _, h hdata.left, h' hdata.right hend⟩

lemma ReadsBefore.bind_pure {p : UInt8 → Prop} {g : α → β} (h : ReadsBefore p x piece a) :
    ReadsBefore p (x >>= fun a => Pure.pure (g a)) piece (g a) := fun _ _ hdata hend =>
  bind_eq_ok.mpr ⟨a, _, h hdata hend, rfl⟩

lemma ReadsBefore.hasMore {p : UInt8 → Prop} {f : Bool → Reader β} (hpiece : 0 < piece.size)
    (h : ReadsBefore p (f true) piece b) : ReadsBefore p (Reader.hasMore >>= f) piece b :=
  fun data pos hdata hend => by
    have := hdata.le_size
    exact bind_eq_ok.mpr ⟨true, pos,
      hasMore_eq_ok.mpr ⟨decide_eq_true (by omega), rfl⟩, h hdata hend⟩

lemma ReadsBefore.peek {p : UInt8 → Prop} {f : UInt8 → Reader β} {c : UInt8}
    (hlead : piece[0]? = some c) (h : ReadsBefore p (f c) piece b) :
    ReadsBefore p (Reader.peek >>= f) piece b :=
  fun _ pos hdata hend =>
    bind_eq_ok.mpr ⟨c, pos, peek_eq_ok.mpr ⟨hdata.lead hlead, rfl⟩, h hdata hend⟩

open Bytes (Passed)

lemma passed_of_number {w value : Nat} (h : number w data pos = .ok value next) :
    data.Passed pos next (Bytes.ofNat w value) ∧ value < 256 ^ w := by
  obtain ⟨hle, rfl, rfl⟩ := number_eq_ok.mp h
  exact ⟨⟨Nat.le_add_right .., hle, (Bytes.ofNat_natAt_extract hle).symm⟩, Bytes.natAt_lt ..⟩

lemma passed_of_u8 {value : UInt8} (h : u8 data pos = .ok value next) :
    data.Passed pos next #[value] := by
  obtain ⟨n, hn, rfl⟩ := map_eq_ok.mp h
  simpa [Bytes.ofNat] using (passed_of_number hn).1

lemma passed_of_u32 {value : UInt32} (h : u32 data pos = .ok value next) :
    data.Passed pos next (Bytes.ofUInt32 value) := by
  obtain ⟨n, hn, rfl⟩ := map_eq_ok.mp h
  obtain ⟨hpassed, hlt⟩ := passed_of_number hn
  rwa [Bytes.ofUInt32, UInt32.toNat_ofNat', Nat.mod_eq_of_lt hlt]

lemma passed_of_u64 {value : UInt64} (h : u64 data pos = .ok value next) :
    data.Passed pos next (Bytes.ofUInt64 value) := by
  obtain ⟨n, hn, rfl⟩ := map_eq_ok.mp h
  obtain ⟨hpassed, hlt⟩ := passed_of_number hn
  rwa [Bytes.ofUInt64, UInt64.toNat_ofNat', Nat.mod_eq_of_lt hlt]

lemma passed_of_vector {n : Nat} {v : Vector UInt8 n} (h : vector n data pos = .ok v next) :
    data.Passed pos next v.toArray := by
  unfold vector at h
  split at h
  · rename_i hle
    cases h
    exact ⟨Nat.le_add_right .., hle, rfl⟩
  · cases h

lemma passed_of_mapM {f : α → Reader β} {piece : β → Bytes}
    (hf : ∀ x pos y next, f x data pos = .ok y next → data.Passed pos next (piece y))
    {xs : List α} {ys : List β} (hpos : pos ≤ data.size) (h : xs.mapM f data pos = .ok ys next) :
    data.Passed pos next (ys.foldl (fun done y => done ++ piece y) #[]) := by
  induction xs generalizing ys pos with
  | nil =>
    rw [List.mapM_nil, pure_eq_ok] at h
    obtain ⟨rfl, rfl⟩ := h
    exact .nil hpos
  | cons x xs ih =>
    obtain ⟨y, between, ys, hy, hys, rfl⟩ := mapM_cons_eq_ok.mp h
    have hpassed := hf x pos y between hy
    rw [List.foldl_cons, foldl_append, Array.empty_append]
    exact hpassed.append (ih hpassed.le_size hys)

end CliImage.Reader
