import CliImage.Proofs.Image.Session
import CliImage.Proofs.Renumber.Monotone
import CliImage.Proofs.Renumber.Operands
import CliImage.Proofs.Renumber.Ownership

/-! The plan of an image with methods added to its first type: they are behind the old methods of
that type, and all later methods move up by their number. -/

namespace CliImage

lemma Token.ofRow_mod (t : TableId) (rid : Nat) :
    Token.ofRow t (rid % 2 ^ 32) = Token.ofRow t rid := by
  rw [Token.ofRow, Token.ofRow, Token.rowLimit, Nat.mod_mod_of_dvd _ (by decide)]

namespace Image

variable {image : Image} {added : List Method} {i j : Nat}

/-- How many methods of an image stand in front of those that its first type gets. -/
def leading (image : Image) : Nat := image.firstOld 1 - 1

/-- Where a method stands once as many have been added to the first type. -/
def movedBy (image : Image) (count j : Nat) : Nat := if j < image.leading then j else j + count

/-- The token of the row that a method's row becomes; other tokens stay. -/
def movedToken (image : Image) (count : Nat) (token : Token) : Token :=
  if token.isMethodDef ∧ 1 ≤ token.row ∧ token.row ≤ image.metadata.tables.count .methodDef then
    Token.ofRow .methodDef (image.movedBy count (token.row - 1) + 1)
  else token

lemma movedBy_of_lt {count : Nat} (h : j < image.leading) : image.movedBy count j = j := if_pos h

lemma movedBy_of_le {count : Nat} (h : image.leading ≤ j) :
    image.movedBy count j = j + count := if_neg (by omega)

lemma HasRuns.firstOld_mono_one (h : image.HasRuns) (hpos : 1 ≤ i) (hi : i ≤ image.types.size) :
    image.firstOld 1 ≤ image.firstOld i := by
  induction i, hpos using Nat.le_induction with
  | base => exact le_rfl
  | succ i _ ih => exact (ih (by omega)).trans (h.run_next hi).2.2.1

/-- No method is in front of the first type, unless that type has methods itself. -/
def StartsFirst (image : Image) : Prop :=
  image.types.size ≠ 0 → image.firstOld 0 = 1 ∨ image.firstOld 0 < image.firstOld 1

instance : Decidable image.StartsFirst :=
  inferInstanceAs (Decidable (_ → _))

lemma HasRuns.leading_le (h : image.HasRuns) :
    image.leading ≤ image.metadata.tables.count .methodDef := by
  rcases Nat.eq_zero_or_pos image.types.size with hzero | hpos
  · have hend := h.firstOld_end
    rw [hzero] at hend
    have : image.firstOld 1 ≤ image.metadata.tables.count .methodDef + 1 := by
      rw [firstOld]
      split
      · rename_i start stop hrun
        exact (Tables.run_eq_ok hrun).2.2.2.1.trans (Tables.run_eq_ok hrun).2.2.2.2
      · exact le_rfl
    rw [leading]
    omega
  · have := (h.run_next hpos).2.2.2
    simp only [Nat.zero_add] at this
    rw [leading]
    omega

end Image

namespace Image

variable {image : Image} {added : List Method} {i j : Nat} {t : TypeDef}

lemma OfRows.methods_eq (h : image.OfRows) (himage : image.Arranged) (ht : image.types[i]? = some t) :
    t.methods.toList = image.oldMethods i := by
  obtain ⟨more, hmethods, hmore⟩ := himage.methods_eq i t ht
  obtain rfl : more = [] := by
    refine List.eq_nil_iff_forall_not_mem.mpr fun j hj => ?_
    have hlt := h.lt_size t (Array.mem_of_getElem? ht) j
      (Array.mem_toList_iff.mp (hmethods ▸ List.mem_append_right _ hj))
    have := hmore j hj
    have := h.size_methods
    omega
  rw [hmethods, List.append_nil]

end Image

namespace MethodPlan

open Image

lemma existings_join {first n next m total : Nat} (h : first + n = next) (htotal : n + m = total) :
    existings first n ++ existings next m = existings first total := by
  rw [← h, existings_append, htotal]

lemma getElem?_existings {first n i : Nat} (h : i < n) :
    (existings first n)[i]? = some (.existing (first + i)) := by
  simp [existings, h]

section Plan

variable {image : Image} {added : List Method} {i j : Nat} {t : TypeDef} (hrows : image.OfRows)
  (himage : image.Arranged) (hgrown : (image.grownBy added).Arranged)
  (htypes : added ≠ [] → image.types.size ≠ 0) (hfirst : image.StartsFirst)
include hrows himage hgrown

lemma plannedOf_grownBy (ht : image.types[i]? = some t) :
    (image.grownBy added).plannedOf
        { t with methods := t.methods ++ image.newPlaces added.length i } =
      existings (image.firstOld i) (image.firstOld (i + 1) - image.firstOld i) ++
        (image.newPlaces added.length i).toList.map .added := by
  have ht' : (image.grownBy added).types[i]? =
      some { t with methods := t.methods ++ image.newPlaces added.length i } := by
    rw [getElem?_types_grownBy, ht, Option.map_some]
  obtain ⟨-, hpos, -⟩ := himage.run_next (Array.getElem?_eq_some_iff.mp ht).1
  have hmethods : (t.methods ++ image.newPlaces added.length i).toList =
      (image.grownBy added).oldMethods i ++ (image.newPlaces added.length i).toList := by
    rw [Array.toList_append, hrows.methods_eq himage ht]
    rfl
  rw [plannedOf_eq hgrown ht' hmethods]
  · congr 1
    change List.map _ (image.oldMethods i) = _
    rw [oldMethods, existings, ← Nat.add_sub_cancel' hpos, ← List.map_add_range', List.map_map,
      Nat.add_sub_cancel_left]
    exact List.map_congr_left fun j _ => congrArg _ (Nat.add_comm ..)
  · intro j hj
    have := (mem_newPlaces.mp (Array.mem_toList_iff.mp hj)).2.1
    have := hrows.size_methods
    change image.metadata.tables.count .methodDef ≤ j
    omega

/-- The planned rows of the first types: those that were added are behind the first one's. -/
lemma flatten_take_grownBy {k : Nat} (hpos : 1 ≤ k) (hk : k ≤ image.types.size) :
    existings 1 (image.firstOld 0 - 1) ++
        (((image.grownBy added).types.toList.map (image.grownBy added).plannedOf).take k).flatten =
      existings 1 image.leading ++
        (List.range' image.methods.size added.length).map .added ++
        existings (image.leading + 1) (image.firstOld k - 1 - image.leading) := by
  have hblock {i : Nat} (hi : i < image.types.size) :
      ((image.grownBy added).types.toList.map (image.grownBy added).plannedOf)[i]? =
        some (existings (image.firstOld i) (image.firstOld (i + 1) - image.firstOld i) ++
          (image.newPlaces added.length i).toList.map .added) := by
    rw [List.getElem?_map, Array.getElem?_toList, getElem?_types_grownBy,
      Array.getElem?_eq_getElem hi, Option.map_some, Option.map_some,
      plannedOf_grownBy hrows himage hgrown (Array.getElem?_eq_getElem hi)]
  -- the first type brings what has been added, the others their old methods
  induction k, hpos using Nat.le_induction with
  | base =>
    obtain ⟨-, hpos, hle, -⟩ := himage.run_next hk
    rw [Nat.zero_add] at hle
    have hjoin : existings 1 (image.firstOld 0 - 1) ++
        existings (image.firstOld 0) (image.firstOld 1 - image.firstOld 0) =
          existings 1 image.leading :=
      existings_join (by omega) (by rw [leading]; omega)
    rw [List.take_add_one, List.take_zero, List.nil_append, hblock hk, Option.toList_some,
      List.flatten_singleton, newPlaces_zero, ← List.append_assoc, hjoin, Array.toList_range',
      leading, Nat.sub_self, existings_zero, List.append_nil]
  | succ k hpos ih =>
    obtain ⟨-, -, hle, -⟩ := himage.run_next hk
    have hlow := himage.firstOld_mono_one hpos (by omega)
    have hone := himage.firstOld_pos (i := 1) (by omega)
    have hleading : image.leading = image.firstOld 1 - 1 := rfl
    have hjoin : existings (image.leading + 1) (image.firstOld k - 1 - image.leading) ++
        existings (image.firstOld k) (image.firstOld (k + 1) - image.firstOld k) =
          existings (image.leading + 1) (image.firstOld (k + 1) - 1 - image.leading) :=
      existings_join (by omega) (by omega)
    have hnone : image.newPlaces added.length k = #[] := by
      obtain ⟨k, rfl⟩ := Nat.exists_eq_add_of_le' hpos
      exact newPlaces_succ
    rw [List.take_add_one, List.flatten_append, ← List.append_assoc, ih (by omega), hblock hk,
      Option.toList_some, List.flatten_singleton, hnone, Array.toList_empty, List.map_nil,
      List.append_nil, List.append_assoc _ (existings ..), hjoin]

include htypes hfirst

/-- The old rows of the first type, the added ones, the other old rows. -/
theorem rows_grownBy : (ofImage (image.grownBy added)).rows.toList =
    existings 1 image.leading ++
      (List.range' image.methods.size added.length).map .added ++
      existings (image.leading + 1)
        (image.metadata.tables.count .methodDef - image.leading) := by
  have hsize : (image.grownBy added).types.size = image.types.size := Array.size_mapIdx
  obtain ⟨hplanned, -⟩ := ofImage_rows hgrown fun hne => hfirst (hsize ▸ hne)
  have hend := himage.firstOld_end
  have hle := himage.leading_le
  change _ = existings 1 (image.firstOld 0 - 1) ++ _ at hplanned
  rcases Nat.eq_zero_or_pos image.types.size with hzero | hpos
  · have hnil : added = [] := by_contra fun hne => htypes hne hzero
    have hnone : (image.grownBy added).types.toList = [] :=
      List.eq_nil_of_length_eq_zero (by rw [Array.length_toList, hsize, hzero])
    rw [hzero] at hend
    have hjoin : existings 1 image.leading ++ existings (image.leading + 1)
        (image.metadata.tables.count .methodDef - image.leading) =
          existings 1 (image.metadata.tables.count .methodDef) :=
      existings_join (Nat.add_comm ..) (by omega)
    rw [hplanned, hnone, hend, hnil, List.map_nil, List.flatten_nil, List.append_nil,
      List.length_nil, List.range'_zero, List.map_nil, List.append_nil, hjoin, Nat.add_sub_cancel]
  · have htake := flatten_take_grownBy hrows himage hgrown hpos le_rfl
    rw [List.take_of_length_le (by simp [hsize]), ← hplanned, hend] at htake
    exact htake

omit htypes in
/-- Each type begins behind the old rows of those before it and behind what has been added. -/
theorem firstRows_grownBy {i : Nat} (hi : i < image.types.size) :
    (ofImage (image.grownBy added)).firstRows[i]? =
      some (UInt32.ofNat (if i = 0 then image.firstOld 0 else image.firstOld i + added.length)) := by
  have hsize : (image.grownBy added).types.size = image.types.size := Array.size_mapIdx
  obtain ⟨-, hstarts⟩ := ofImage_rows hgrown fun hne => hfirst (hsize ▸ hne)
  rw [← Array.getElem?_toList, hstarts, starts_getElem?, if_pos (by simpa [hsize] using hi)]
  change some (UInt32.ofNat (image.firstOld 0 - 1 + _ + 1)) = _
  congr 2
  obtain ⟨-, hpos, -⟩ := himage.run_next hi
  rcases Nat.eq_zero_or_pos i with rfl | hpos'
  · simp only [List.take_zero, List.flatten_nil, List.length_nil, if_true]
    omega
  · have htake := congrArg List.length (flatten_take_grownBy hrows himage hgrown hpos' hi.le)
    have hlow := himage.firstOld_mono_one hpos' (by omega)
    simp only [List.length_append, length_existings, List.length_map, List.length_range'] at htake
    rw [if_neg (by omega)]
    have hleading : image.leading = image.firstOld 1 - 1 := rfl
    have hone := himage.firstOld_pos (i := 1) (by omega)
    omega

/-- Old methods of the first type keep their places, and those behind them move up. -/
lemma getElem?_rows_old (hj : j < image.metadata.tables.count .methodDef) :
    (ofImage (image.grownBy added)).rows[image.movedBy added.length j]? =
      some (.existing (j + 1)) := by
  have hle := himage.leading_le
  rw [← Array.getElem?_toList, rows_grownBy hrows himage hgrown htypes hfirst, movedBy]
  split_ifs with hlt
  · rw [List.getElem?_append_left (by simp; omega), List.getElem?_append_left (by simpa using hlt),
      getElem?_existings hlt, Nat.add_comm]
  · rw [List.getElem?_append_right (by simp; omega), List.length_append, length_existings,
      List.length_map, List.length_range', getElem?_existings (by omega)]
    congr 2
    omega

lemma getElem?_rows_added {k : Nat} (hk : k < added.length) :
    (ofImage (image.grownBy added)).rows[image.leading + k]? =
      some (.added (image.methods.size + k)) := by
  rw [← Array.getElem?_toList, rows_grownBy hrows himage hgrown htypes hfirst,
    List.getElem?_append_left (by simp; omega), List.getElem?_append_right (by simp),
    length_existings, Nat.add_sub_cancel_left]
  simp [hk]

lemma size_rows_grownBy : (ofImage (image.grownBy added)).rows.size =
    image.metadata.tables.count .methodDef + added.length := by
  have hle := himage.leading_le
  rw [← Array.length_toList, rows_grownBy hrows himage hgrown htypes hfirst]
  simp only [List.length_append, length_existings, List.length_map, List.length_range']
  omega

lemma get_rids_grownBy (hj : j < image.metadata.tables.count .methodDef)
    (hsmall : image.metadata.tables.count .methodDef < 2 ^ 32) :
    (ofImage (image.grownBy added)).rids.get (UInt32.ofNat (j + 1)) =
      UInt32.ofNat (image.movedBy added.length j + 1) := by
  have hr : (UInt32.ofNat (j + 1)).toNat = j + 1 :=
    UInt32.toNat_ofNat_of_lt' (by simp only [UInt32.size]; omega)
  exact get_of_place hgrown (by omega)
    (hr.symm ▸ getElem?_rows_old hrows himage hgrown htypes hfirst hj)

lemma token_rids_grownBy (hsmall : image.metadata.tables.count .methodDef < 2 ^ 32) :
    (ofImage (image.grownBy added)).rids.token = image.movedToken added.length := by
  funext token
  obtain ⟨-, -, htargets, -⟩ := ofImage_olds hgrown
  change _ = image.metadata.tables.count .methodDef at htargets
  rw [movedToken]
  split_ifs with hrow
  · obtain ⟨hmethod, hpos, hle⟩ := hrow
    have hget := get_rids_grownBy hrows himage hgrown htypes hfirst (j := token.row - 1) (by omega)
      hsmall
    rw [Nat.sub_add_cancel hpos] at hget
    have hnull : ¬ token.isNull = true := fun hnull => by
      have hzero : token.value = 0 := beq_iff_eq.mp hnull
      rw [Token.row, hzero] at hpos
      exact absurd hpos (by decide)
    rw [RidMap.token, if_pos ⟨beq_iff_eq.mp hmethod, hnull⟩, hget, UInt32.toNat_ofNat']
    exact Token.ofRow_mod ..
  · by_cases hmethod : token.isMethodDef = true
    · rcases Nat.eq_zero_or_pos token.row with hzero | hpos
      · refine RidMap.token_of_get fun _ => ?_
        rw [hzero]
        rfl
      · exact RidMap.token_of_unlisted (.inr (by
          rw [htargets]
          exact not_le.mp fun hle => hrow ⟨hmethod, hpos, hle⟩))
    · exact RidMap.token_of_unlisted (.inl fun htable => hmethod (beq_iff_eq.mpr htable))

end Plan

end MethodPlan

end CliImage
