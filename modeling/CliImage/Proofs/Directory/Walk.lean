import CliImage.Directory.Commit
import CliImage.Proofs.Result

/-! Where a path leads depends on the folders of a directory only. -/

namespace CliImage.Directory

variable {d d' d'' : Directory} {p q : Place → Prop} {path : String} {place : Place}

/-- Directories that hold the same, but at certain places. -/
def SameOutside (p : Place → Prop) (d d' : Directory) : Prop :=
  ∀ place, ¬ p place → d'.get? place = d.get? place

lemma SameOutside.refl (p : Place → Prop) (d : Directory) : SameOutside p d d := fun _ _ => rfl

lemma SameOutside.trans (h : SameOutside p d d') (h' : SameOutside p d' d'') :
    SameOutside p d d'' := fun place hplace => (h' place hplace).trans (h place hplace)

lemma SameOutside.mono (h : SameOutside p d d') (hpq : ∀ place, p place → q place) :
    SameOutside q d d' := fun place hplace => h place fun hp => hplace (hpq place hp)

lemma sameOutside_set (d : Directory) (place : Place) (entry : Entry) :
    SameOutside (· = place) d (d.set place entry) := fun other hother => by
  rw [get?_set, if_neg hother]

lemma sameOutside_erase (d : Directory) (place : Place) :
    SameOutside (· = place) d (d.erase place) := fun other hother => by
  rw [get?_erase, if_neg hother]

/-- Directories with the same folders. -/
def SameFolders (d d' : Directory) : Prop := ∀ names, d'.isFolder names = d.isFolder names

lemma sameFolders_of (h : ∀ names,
    d'.get? (.path names) = some .folder ↔ d.get? (.path names) = some .folder) :
    SameFolders d d' := by
  intro names
  unfold isFolder entryAt?
  split
  · rfl
  · rw [Bool.eq_iff_iff, beq_iff_eq, beq_iff_eq]
    exact h names

lemma SameFolders.trans (h : SameFolders d d') (h' : SameFolders d' d'') : SameFolders d d'' :=
  fun names => (h' names).trans (h names)

lemma SameFolders.symm (h : SameFolders d d') : SameFolders d' d := fun names => (h names).symm

lemma SameFolders.step? (h : SameFolders d d') : d'.step? = d.step? := by
  funext names step
  unfold Directory.step?
  rw [h names]

lemma SameFolders.walk? (h : SameFolders d d') (steps : List String) :
    d'.walk? steps = d.walk? steps := by
  rw [Directory.walk?, Directory.walk?, h.step?]

lemma SameFolders.placeFor? (h : SameFolders d d') (path : String) :
    d'.placeFor? path = d.placeFor? path := by
  have hfolder : d'.isFolder = d.isFolder := funext h
  rw [Directory.placeFor?, Directory.placeFor?, h.walk?, hfolder]

lemma isFolder_of_isOutside {names : List String} (h : isOutside names) : d.isFolder names := by
  rw [isFolder, entryAt?, if_pos h]
  rfl

lemma placeFor?_eq_some (h : d.placeFor? path = some place) : ∃ names, place = .path names ∧
    d.walk? (Path.steps path) = some names ∧ d.isFolder names = false := by
  unfold placeFor? at h
  split at h
  · obtain ⟨names, hwalk, rfl⟩ := Option.map_eq_some_iff.mp h
    obtain ⟨hwalk, hfile⟩ := Option.filter_eq_some_iff.mp hwalk
    exact ⟨names, rfl, hwalk, by simpa using hfile⟩
  · cases h

lemma get?_ne_folder (h : d.placeFor? path = some place) : d.get? place ≠ some .folder := by
  obtain ⟨names, rfl, -, hfile⟩ := placeFor?_eq_some h
  intro hfolder
  rw [isFolder, entryAt?] at hfile
  split at hfile
  · cases hfile
  · rw [hfolder] at hfile
    cases hfile

/-- A path reads the file at the place that a file is moved to by it. -/
lemma file?_of_placeFor? (h : d.placeFor? path = some place) :
    (d.file? path).map Entry.file = d.get? place := by
  have hne := get?_ne_folder h
  obtain ⟨names, rfl, hwalk, hfile⟩ := placeFor?_eq_some h
  have hinside : ¬ isOutside names := fun hout => by
    rw [isFolder_of_isOutside hout] at hfile
    cases hfile
  have hcontent : d.content? path = d.get? (.path names) := by
    rw [content?, hwalk, Option.bind_some, entryAt?, if_neg hinside]
  rw [file?, hcontent]
  cases hget : d.get? (.path names) with
  | none => rfl
  | some entry =>
    cases entry with
    | file data => rfl
    | folder => exact absurd hget hne

/-- A path of one name leads to that name, unless it is a folder's. -/
lemma placeFor?_name {name : String} (hsteps : Path.steps path = [name]) (hname : Path.isName name)
    (hfile : d.isFolder [name] = false) : d.placeFor? path = some (.path [name]) := by
  have hroot : d.isFolder [] = true := isFolder_of_isOutside rfl
  have hwalk : d.walk? [name] = some [name] := by
    have hplain := hname
    simp only [Path.isName, Bool.and_eq_true, bne_iff_ne, ne_eq] at hplain
    obtain ⟨⟨⟨⟨⟨hempty, hdot⟩, hdots⟩, hslash⟩, -⟩, -⟩ := hplain
    simp [walk?, Directory.step?, hroot, hempty, hdot, hdots, hslash, hname]
  rw [placeFor?, hsteps, hwalk]
  simp [hname, hfile]

/-- What paths read depends on what stands at paths. -/
lemma file?_congr (h : ∀ names, d'.get? (.path names) = d.get? (.path names)) :
    d'.file? path = d.file? path := by
  have hfolders : SameFolders d d' := sameFolders_of fun names => by rw [h names]
  have hentry : d'.entryAt? = d.entryAt? := funext fun names => by rw [entryAt?, entryAt?, h names]
  rw [file?, file?, content?, content?, hfolders.walk?, hentry]

lemma content?_eq_of_placeFor? {other : String} (h : d.placeFor? path = some place)
    (hother : d.placeFor? other = some place) : d.content? path = d.content? other := by
  obtain ⟨names, rfl, hwalk, -⟩ := placeFor?_eq_some h
  obtain ⟨names', heq, hwalk', -⟩ := placeFor?_eq_some hother
  cases heq
  rw [content?, content?, hwalk, hwalk']

end CliImage.Directory
