import CliImage.Proofs.Bytes
import CliImage.Proofs.Result
import CliImage.Renumber.Code

/-! Edits in place: the bytes that an edit may change, and what it leaves where it writes. -/

namespace CliImage

namespace Bytes

variable {data between after piece new : Bytes} {pos offset i w : Nat}

lemma getElem?_overlayList (bs : List UInt8) : (overlayList data offset bs)[i]? =
    if offset ≤ i ∧ i < offset + bs.length ∧ i < data.size then bs[i - offset]? else data[i]? := by
  induction bs generalizing data offset with
  | nil =>
    rw [overlayList, if_neg]
    rw [List.length_nil]
    omega
  | cons b bs ih =>
    rw [overlayList, ih, Array.size_setIfInBounds, Array.getElem?_setIfInBounds, List.length_cons]
    by_cases hi : offset = i
    · subst hi
      rw [if_neg (by omega), if_pos rfl]
      by_cases hlt : offset < data.size
      · rw [if_pos hlt, if_pos (by omega), Nat.sub_self, List.getElem?_cons_zero]
      · rw [if_neg hlt, if_neg (by omega), Array.getElem?_eq_none (by omega)]
    · rw [if_neg hi]
      by_cases hin : offset + 1 ≤ i ∧ i < offset + 1 + bs.length ∧ i < data.size
      · rw [if_pos hin, if_pos (by omega), show i - offset = i - (offset + 1) + 1 by omega,
          List.getElem?_cons_succ]
      · rw [if_neg hin, if_neg (by omega)]

lemma getElem?_overlay : (data.overlay offset new)[i]? =
    if offset ≤ i ∧ i < offset + new.size ∧ i < data.size then new[i - offset]? else data[i]? := by
  rw [overlay, getElem?_overlayList, Array.length_toList, Array.getElem?_toList]

/-- What is written over data, as lists that a closed term can be computed with. -/
lemma overlay_eq_take : data.overlay offset new =
    (data.toList.take offset ++ (new.toList.take (data.toList.length - offset) ++
      data.toList.drop (offset + new.toList.length))).toArray := by
  refine Array.ext_getElem? fun i => ?_
  rw [getElem?_overlay]
  simp only [List.getElem?_toArray, List.getElem?_append, List.length_take, List.getElem?_take,
    List.getElem?_drop, Array.length_toList, Array.getElem?_toList]
  -- the places in front of the new bytes, in them and behind them
  grind

lemma standsAt_iff : data.StandsAt pos piece ↔
    pos + piece.size ≤ data.size ∧ ∀ k < piece.size, data[pos + k]? = piece[k]? := by
  constructor
  · intro h
    exact ⟨h.le_size, fun k hk => h.getElem? hk⟩
  · rintro ⟨hle, hget⟩
    have hextract : data.extract pos (pos + piece.size) = piece := by
      refine Array.ext_getElem? fun k => ?_
      rw [Array.getElem?_extract]
      split
      · exact hget k (by omega)
      · exact (Array.getElem?_eq_none (by omega)).symm
    have hstands := standsAt_extract (Nat.le_add_right pos piece.size) hle
    rwa [hextract] at hstands

/-- The number at a place is spelled by the bytes there. -/
lemma standsAt_natAt (h : pos + 4 ≤ data.size) :
    data.StandsAt pos (ofUInt32 (UInt32.ofNat (data.natAt pos 4))) := by
  have hlt : data.natAt pos 4 < 2 ^ 32 := natAt_lt data pos 4
  refine standsAt_iff.mpr ⟨by rwa [size_ofUInt32], fun k hk => ?_⟩
  rw [size_ofUInt32] at hk
  rw [ofUInt32, UInt32.toNat_ofNat_of_lt' hlt, getElem?_ofNat_natAt h hk]

lemma standsAt_overlay (h : offset + new.size ≤ data.size) :
    (data.overlay offset new).StandsAt offset new := by
  refine standsAt_iff.mpr ⟨by rwa [size_overlay], fun k hk => ?_⟩
  rw [getElem?_overlay, if_pos (by omega), Nat.add_sub_cancel_left]

lemma natAt_overlay_ofUInt32 (h : offset + 4 ≤ data.size) (value : UInt32) :
    (data.overlay offset (ofUInt32 value)).natAt offset 4 = value.toNat := by
  have hend : offset + (ofNat 4 value.toNat).size ≤ data.size := by rwa [size_ofNat]
  have hstands := standsAt_overlay hend
  have hlt : value.toNat < 256 ^ 4 := by
    have := value.toNat_lt
    omega
  exact hstands.natAt_ofNat hlt

/-- Writing what stands at a place already. -/
lemma overlay_eq_self (h : data.StandsAt offset new) : data.overlay offset new = data := by
  refine Array.ext_getElem? fun i => ?_
  rw [getElem?_overlay]
  split
  · rw [← h.getElem? (by omega), Nat.add_sub_cancel' (by omega)]
  · rfl

/-- Bytes that differ at certain places only. -/
def SameBut (changed : Nat → Prop) (data after : Bytes) : Prop :=
  after.size = data.size ∧ ∀ i, ¬ changed i → after[i]? = data[i]?

def Within (pos len i : Nat) : Prop := pos ≤ i ∧ i < pos + len

variable {p q : Nat → Prop}

lemma SameBut.refl (p : Nat → Prop) (data : Bytes) : SameBut p data data :=
  ⟨rfl, fun _ _ => rfl⟩

lemma SameBut.trans (h : SameBut p data between) (h' : SameBut p between after) :
    SameBut p data after :=
  ⟨h'.1.trans h.1, fun i hi => (h'.2 i hi).trans (h.2 i hi)⟩

lemma SameBut.mono (h : SameBut p data after) (hpq : ∀ i, p i → q i) : SameBut q data after :=
  ⟨h.1, fun i hi => h.2 i fun hp => hi (hpq i hp)⟩

lemma SameBut.natAt (h : SameBut p data after) (hp : ∀ i, Within pos w i → ¬ p i) :
    after.natAt pos w = data.natAt pos w := by
  refine natAt_congr fun i hi => h.2 _ (hp _ ⟨?_, ?_⟩)
  · exact Nat.le_add_right ..
  · omega

lemma SameBut.extract (h : SameBut p data after) {stop : Nat}
    (hp : ∀ i, pos ≤ i → i < stop → ¬ p i) : after.extract pos stop = data.extract pos stop := by
  refine Array.ext_getElem? fun i => ?_
  rw [Array.getElem?_extract, Array.getElem?_extract, h.1]
  split
  · exact h.2 _ (hp _ (by omega) (by omega))
  · rfl

lemma SameBut.standsAt (h : SameBut p data after) (hp : ∀ i, Within pos piece.size i → ¬ p i)
    (hdata : data.StandsAt pos piece) : after.StandsAt pos piece := by
  obtain ⟨hle, hget⟩ := standsAt_iff.mp hdata
  refine standsAt_iff.mpr ⟨by rwa [h.1], fun k hk => ?_⟩
  rw [h.2 _ (hp _ ⟨Nat.le_add_right .., by omega⟩), hget k hk]

lemma sameBut_overlay (data : Bytes) (offset : Nat) (new : Bytes) :
    SameBut (Within offset new.size) data (data.overlay offset new) := by
  refine ⟨size_overlay .., fun i hi => ?_⟩
  rw [getElem?_overlay, if_neg fun h => hi ⟨h.1, h.2.1⟩]

end Bytes

namespace Edit

open Bytes

variable {α β γ : Type} {data after : Bytes} {x : Edit α} {f : α → Edit β} {p q : Nat → Prop}

lemma bind_eq_ok {b : β} : (x >>= f) data = .ok b after ↔
    ∃ a between, x data = .ok a between ∧ f a between = .ok b after := by
  rw [show (x >>= f) data = EStateM.bind x f data from rfl, EStateM.bind]
  cases x data <;> simp

lemma pure_eq_ok {a b : α} : (pure a : Edit α) data = .ok b after ↔ a = b ∧ data = after := by
  rw [show (pure a : Edit α) data = .ok a data from rfl]
  simp

/-- Without arguments, to rewrite it where it stands in a longer edit. -/
lemma put_eq_take : put = fun offset new data =>
    if offset + new.size ≤ data.size then
      .ok () (data.toList.take offset ++ (new.toList.take (data.toList.length - offset) ++
        data.toList.drop (offset + new.toList.length))).toArray
    else .error .outOfBounds data := by
  funext offset new data
  rw [put, overlay_eq_take]

lemma put_eq_ok {offset : Nat} {new : Bytes} {u : Unit} : put offset new data = .ok u after ↔
    offset + new.size ≤ data.size ∧ data.overlay offset new = after := by
  unfold put
  split <;> simp [*]

lemma numberAt_eq_ok {offset w n : Nat} : numberAt offset w data = .ok n after ↔
    offset + w ≤ data.size ∧ data.natAt offset w = n ∧ data = after := by
  unfold numberAt
  split <;> simp [*]

lemma lift_eq_ok {r : Result α} {a : α} : lift r data = .ok a after ↔ r = .ok a ∧ data = after := by
  unfold lift
  cases r <;> simp

lemma run_eq_ok {a : α} : x.run data = .ok (a, after) ↔ x data = .ok a after := by
  unfold run
  cases x data <;> simp

/-- The edit changes bytes at certain places only. -/
def Changes (x : Edit α) (p : Nat → Prop) : Prop :=
  ∀ ⦃data a after⦄, x data = .ok a after → SameBut p data after

lemma Changes.mono (h : Changes x p) (hpq : ∀ i, p i → q i) : Changes x q :=
  fun _ _ _ hx => (h hx).mono hpq

lemma Changes.pure (a : α) : Changes (pure a) p := fun _ _ _ h => by
  obtain ⟨-, rfl⟩ := pure_eq_ok.mp h
  exact SameBut.refl ..

lemma Changes.bind (hx : Changes x p) (hf : ∀ a, Changes (f a) p) : Changes (x >>= f) p :=
  fun _ _ _ h => by
    obtain ⟨a, between, hfirst, hrest⟩ := bind_eq_ok.mp h
    exact (hx hfirst).trans (hf a hrest)

lemma Changes.put {offset : Nat} {new : Bytes} (h : ∀ i, Within offset new.size i → p i) :
    Changes (put offset new) p := fun _ _ _ hput => by
  obtain ⟨-, rfl⟩ := put_eq_ok.mp hput
  exact (sameBut_overlay ..).mono h

lemma Changes.numberAt (offset w : Nat) : Changes (numberAt offset w) p := fun _ _ _ h => by
  obtain ⟨-, -, rfl⟩ := numberAt_eq_ok.mp h
  exact SameBut.refl ..

lemma Changes.lift (r : Result α) : Changes (lift r) p := fun _ _ _ h => by
  obtain ⟨-, rfl⟩ := lift_eq_ok.mp h
  exact SameBut.refl ..

lemma Changes.throw (e : Error) : Changes (throw e : Edit α) p := fun _ _ _ h => by
  cases h

/-- What follows a computation need be known for its value only. -/
lemma Changes.lift_bind {r : Result γ} {g : γ → Edit β} (h : ∀ c, r = .ok c → Changes (g c) p) :
    Changes (Edit.lift r >>= g) p := fun _ _ _ hx => by
  obtain ⟨c, _, hlift, hrest⟩ := bind_eq_ok.mp hx
  obtain ⟨hr, rfl⟩ := lift_eq_ok.mp hlift
  exact h c hr hrest

lemma forM_cons_eq_ok {c : γ} {xs : List γ} {g : γ → Edit Unit} {u : Unit} :
    (c :: xs).forM g data = .ok u after ↔
      ∃ between, g c data = .ok () between ∧ xs.forM g between = .ok () after := by
  rw [List.forM]
  constructor
  · intro h
    obtain ⟨_, between, hfirst, hrest⟩ := bind_eq_ok.mp h
    exact ⟨between, hfirst, hrest⟩
  · rintro ⟨between, hfirst, hrest⟩
    exact bind_eq_ok.mpr ⟨(), between, hfirst, hrest⟩

lemma Changes.forM {xs : List γ} {g : γ → Edit Unit} (h : ∀ x ∈ xs, Changes (g x) p) :
    Changes (xs.forM g) p := by
  induction xs with
  | nil => exact Changes.pure ()
  | cons x xs ih =>
    intro data u after hx
    obtain ⟨between, hfirst, hrest⟩ := forM_cons_eq_ok.mp hx
    exact (h x (List.mem_cons_self ..) hfirst).trans
      (ih (fun y hy => h y (List.mem_cons_of_mem _ hy)) hrest)

lemma foldlM_cons_eq_ok {g : β → γ → Edit β} {c : γ} {xs : List γ} {b d : β} :
    (c :: xs).foldlM g b data = .ok d after ↔
      ∃ e between, g b c data = .ok e between ∧ xs.foldlM g e between = .ok d after := by
  rw [List.foldlM_cons]
  exact bind_eq_ok

lemma Changes.foldlM {xs : List γ} {g : β → γ → Edit β} (h : ∀ b, ∀ c ∈ xs, Changes (g b c) p)
    (b : β) : Changes (xs.foldlM g b) p := by
  induction xs generalizing b with
  | nil => exact Changes.pure b
  | cons c xs ih =>
    rw [List.foldlM_cons]
    exact (h b c (List.mem_cons_self ..)).bind
      fun b' => ih (fun b d hd => h b d (List.mem_cons_of_mem _ hd)) b'

/-- The edit leaves these bytes as they are. -/
def Stays (x : Edit α) (data : Bytes) : Prop := ∀ ⦃a after⦄, x data = .ok a after → after = data

lemma Stays.pure (a : α) : Stays (pure a) data := fun _ _ h => (pure_eq_ok.mp h).2.symm

lemma Stays.throw (e : Error) : Stays (throw e : Edit α) data := fun _ _ h => by cases h

lemma Stays.lift (r : Result α) : Stays (lift r) data := fun _ _ h => (lift_eq_ok.mp h).2.symm

lemma Stays.numberAt (offset w : Nat) : Stays (numberAt offset w) data := fun _ _ h =>
  (numberAt_eq_ok.mp h).2.2.symm

lemma Stays.put {offset : Nat} {new : Bytes} (h : data.StandsAt offset new) :
    Stays (put offset new) data := fun _ _ hput =>
  (put_eq_ok.mp hput).2.symm.trans (overlay_eq_self h)

lemma Stays.bind (hx : Stays x data) (hf : ∀ a, x data = .ok a data → Stays (f a) data) :
    Stays (x >>= f) data := fun _ _ h => by
  obtain ⟨a, between, hfirst, hrest⟩ := bind_eq_ok.mp h
  obtain rfl := hx hfirst
  exact hf a hfirst hrest

lemma Stays.forM {xs : List γ} {g : γ → Edit Unit} (h : ∀ x ∈ xs, Stays (g x) data) :
    Stays (xs.forM g) data := by
  induction xs with
  | nil => exact Stays.pure ()
  | cons x xs ih =>
    rw [List.forM]
    exact (h x (List.mem_cons_self ..)).bind fun _ _ => ih fun y hy => h y (List.mem_cons_of_mem _ hy)

lemma Stays.foldlM {xs : List γ} {g : β → γ → Edit β} (h : ∀ b, ∀ c ∈ xs, Stays (g b c) data)
    (b : β) : Stays (xs.foldlM g b) data := by
  induction xs generalizing b with
  | nil => exact Stays.pure b
  | cons c xs ih =>
    rw [List.foldlM_cons]
    exact (h b c (List.mem_cons_self ..)).bind
      fun b' _ => ih (fun b d hd => h b d (List.mem_cons_of_mem _ hd)) b'

/-- The edit succeeds on all bytes of a size, and keeps the size. -/
def Runs (x : Edit α) (n : Nat) : Prop :=
  ∀ ⦃data : Bytes⦄, data.size = n → ∃ a after, x data = .ok a after ∧ after.size = n

variable {n : Nat}

lemma Runs.pure (a : α) : Runs (pure a) n := fun data h => ⟨a, data, rfl, h⟩

lemma Runs.bind (hx : Runs x n) (hf : ∀ a, Runs (f a) n) : Runs (x >>= f) n := fun _ h => by
  obtain ⟨a, between, hfirst, hsize⟩ := hx h
  obtain ⟨b, after, hrest, hsize'⟩ := hf a hsize
  exact ⟨b, after, bind_eq_ok.mpr ⟨a, between, hfirst, hrest⟩, hsize'⟩

lemma Runs.put {offset : Nat} {new : Bytes} (h : offset + new.size ≤ n) : Runs (put offset new) n :=
  fun data hdata => ⟨(), data.overlay offset new, put_eq_ok.mpr ⟨by omega, rfl⟩, by simpa⟩

lemma Runs.numberAt {offset w : Nat} (h : offset + w ≤ n) : Runs (numberAt offset w) n :=
  fun data hdata => ⟨_, data, numberAt_eq_ok.mpr ⟨by omega, rfl, rfl⟩, hdata⟩

/-- A computation that is known to succeed hands on its value. -/
lemma Runs.lift_bind {r : Result γ} {c : γ} {g : γ → Edit β} (h : r = .ok c) (hg : Runs (g c) n) :
    Runs (lift r >>= g) n := fun _ hdata => by
  obtain ⟨b, after, hrest, hsize⟩ := hg hdata
  exact ⟨b, after, bind_eq_ok.mpr ⟨c, _, lift_eq_ok.mpr ⟨h, rfl⟩, hrest⟩, hsize⟩

lemma Runs.forM {xs : List γ} {g : γ → Edit Unit} (h : ∀ c ∈ xs, Runs (g c) n) :
    Runs (xs.forM g) n := by
  induction xs with
  | nil => exact Runs.pure ()
  | cons c xs ih =>
    rw [List.forM]
    exact (h c (List.mem_cons_self ..)).bind fun _ => ih fun d hd => h d (List.mem_cons_of_mem _ hd)

lemma Runs.foldlM {xs : List γ} {g : β → γ → Edit β} (h : ∀ b, ∀ c ∈ xs, Runs (g b c) n) (b : β) :
    Runs (xs.foldlM g b) n := by
  induction xs generalizing b with
  | nil => exact Runs.pure b
  | cons c xs ih =>
    rw [List.foldlM_cons]
    exact (h b c (List.mem_cons_self ..)).bind
      fun b' => ih (fun b d hd => h b d (List.mem_cons_of_mem _ hd)) b'

end Edit

end CliImage
