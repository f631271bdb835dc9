import CliImage.Proofs.Directory.Walk

/-! A commit replaces the files of all its targets or of none. Staged and kept files stand at places
of their own; a move that fails is undone from what was kept. -/

namespace CliImage

namespace Commit

variable {α β γ : Type} {p q : Place → Prop} {d d' : Directory}

/-- The directory that a change ends with, well or not. -/
def stateOf : EStateM.Result Error Directory α → Directory
  | .ok _ d => d
  | .error _ d => d

lemma bind_apply (x : Commit α) (f : α → Commit β) (d : Directory) :
    (x >>= f) d = match x d with
      | .ok a d => f a d
      | .error e d => .error e d := by
  change EStateM.bind x f d = _
  unfold EStateM.bind
  cases x d <;> rfl

lemma bind_eq_ok {x : Commit α} {f : α → Commit β} {b : β} :
    (x >>= f) d = .ok b d' ↔ ∃ a between, x d = .ok a between ∧ f a between = .ok b d' := by
  rw [bind_apply]
  cases x d <;> simp

lemma get_bind (f : Directory → Commit α) (d : Directory) : (get >>= f) d = f d d := rfl

/-- The change leaves the entries at all but certain places, wherever it fails. -/
def Touches (x : Commit α) (p : Place → Prop) : Prop :=
  ∀ d, Directory.SameOutside p d (stateOf (x d))

lemma Touches.mono {x : Commit α} (h : Touches x p) (hpq : ∀ place, p place → q place) :
    Touches x q := fun d => (h d).mono hpq

lemma Touches.pure (a : α) : Touches (pure a) p := fun d => .refl p d

lemma Touches.throw (e : Error) : Touches (throw e : Commit α) p := fun d => .refl p d

lemma Touches.bind {x : Commit α} {f : α → Commit β} (hx : Touches x p) (hf : ∀ a, Touches (f a) p) :
    Touches (x >>= f) p := by
  intro d
  have hfirst := hx d
  rw [bind_apply]
  cases hd : x d with
  | ok a between =>
    rw [hd] at hfirst
    exact hfirst.trans (hf a between)
  | error e between =>
    rwa [hd] at hfirst

lemma Touches.forM {xs : List γ} {f : γ → Commit Unit} (h : ∀ c ∈ xs, Touches (f c) p) :
    Touches (xs.forM f) p := by
  induction xs with
  | nil => exact Touches.pure ()
  | cons c xs ih =>
    rw [List.forM]
    exact (h c (List.mem_cons_self ..)).bind fun _ => ih fun b hb => h b (List.mem_cons_of_mem _ hb)

lemma Touches.of_ok {x : Commit α} (h : Touches x p) {a : α} (hx : x d = .ok a d') :
    Directory.SameOutside p d d' := by
  have := h d
  rwa [hx] at this

lemma forM_cons_eq_ok {c : γ} {xs : List γ} {f : γ → Commit Unit} :
    (c :: xs).forM f d = .ok () d' ↔
      ∃ between, f c d = .ok () between ∧ xs.forM f between = .ok () d' := by
  rw [List.forM]
  constructor
  · intro h
    obtain ⟨_, between, hfirst, hrest⟩ := bind_eq_ok.mp h
    exact ⟨between, hfirst, hrest⟩
  · rintro ⟨between, hfirst, hrest⟩
    exact bind_eq_ok.mpr ⟨(), between, hfirst, hrest⟩

end Commit

namespace Target

open Commit Directory

variable {refused : Step → Bool} {t : Target} {i : Nat} {d d' : Directory} {place : Place}
  {pairs : List (Target × Nat)}

lemma touches_require (t : Target) (ok : Bool) (p : Place → Prop) : Touches (t.require ok) p := by
  intro d
  unfold require
  split <;> exact .refl p d

lemma touches_write (place : Place) (data : Bytes) : Touches (write place data) (· = place) :=
  fun d => sameOutside_set d place _

lemma require_eq_ok {ok : Bool} : t.require ok d = .ok () d' ↔ ok = true ∧ d = d' := by
  unfold require
  split <;> simp [*]

lemma touches_stage (refused : Step → Bool) (t : Target) (i : Nat) :
    Touches (t.stage refused i) (· = .staging i) := by
  refine Touches.bind (fun d => .refl _ d) fun _ => ?_
  refine (touches_require _ _ _).bind fun _ => (touches_require _ _ _).bind fun _ => ?_
  refine (touches_write _ _).bind fun _ => (touches_require _ _ _).bind fun _ => ?_
  exact (touches_write _ _).bind fun _ => (touches_require _ _ _).bind fun _ => touches_require _ _ _

lemma get?_of_stage (h : t.stage refused i d = .ok () d') :
    d'.get? (.staging i) = some (.file t.data) := by
  unfold stage at h
  obtain ⟨_, _, hget, h⟩ := bind_eq_ok.mp h
  cases hget
  obtain ⟨_, _, hroom, h⟩ := bind_eq_ok.mp h
  obtain ⟨_, _, hcreate, h⟩ := bind_eq_ok.mp h
  obtain ⟨_, _, hempty, h⟩ := bind_eq_ok.mp h
  obtain ⟨_, _, hfill, h⟩ := bind_eq_ok.mp h
  obtain ⟨_, _, hwrite, h⟩ := bind_eq_ok.mp h
  obtain ⟨_, _, hpermit, hsync⟩ := bind_eq_ok.mp h
  cases hwrite
  obtain ⟨-, rfl⟩ := require_eq_ok.mp hpermit
  obtain ⟨-, rfl⟩ := require_eq_ok.mp hsync
  rw [get?_set, if_pos rfl]

lemma touches_backUp (refused : Step → Bool) (t : Target) (i : Nat) :
    Touches (t.backUp refused i) (· = .backup i) := by
  refine Touches.bind (fun d => .refl _ d) fun d => ?_
  split
  · exact Touches.pure ()
  · exact (touches_require _ _ _).bind fun _ => (touches_write _ _).bind fun _ =>
      (touches_require _ _ _).bind fun _ => touches_write _ _

lemma get?_of_backUp (h : t.backUp refused i d = .ok () d') (hnone : d.get? (.backup i) = none) :
    d'.get? (.backup i) = (d.file? t.path).map Entry.file := by
  unfold backUp at h
  obtain ⟨_, _, hget, h⟩ := bind_eq_ok.mp h
  cases hget
  cases hfile : d.file? t.path with
  | none =>
    rw [hfile] at h
    cases h
    exact hnone
  | some old =>
    rw [hfile] at h
    obtain ⟨_, _, hkeep, h⟩ := bind_eq_ok.mp h
    obtain ⟨_, _, hempty, h⟩ := bind_eq_ok.mp h
    obtain ⟨_, _, hcopy, h⟩ := bind_eq_ok.mp h
    cases h
    exact (get?_set ..).trans (if_pos rfl)

/-- What a directory is when the staged file of a target has been moved to a place. -/
def moved (d : Directory) (t : Target) (i : Nat) (place : Place) : Directory :=
  (d.set place (.file t.data)).erase (.staging i)

lemma move_eq_ok (h : t.move refused i d = .ok () d')
    (hstaged : d.get? (.staging i) = some (.file t.data)) : refused (.move i) = false ∧ ∃ place,
      d.placeFor? t.path = some place ∧ d' = moved d t i place := by
  rw [move, get_bind] at h
  cases hplace : d.placeFor? t.path with
  | none =>
    rw [hplace] at h
    cases h
  | some place =>
    rw [hplace] at h
    obtain ⟨_, _, hattempt, h⟩ := bind_eq_ok.mp h
    obtain ⟨haccepted, rfl⟩ := require_eq_ok.mp hattempt
    cases h
    refine ⟨by simpa using haccepted, place, rfl, ?_⟩
    dsimp only
    rw [hstaged, moved]

/-- A file that is not moved leaves everything as it is. -/
lemma eq_of_move_error {e : Error} (h : t.move refused i d = .error e d') : d' = d := by
  rw [move, get_bind] at h
  cases hplace : d.placeFor? t.path with
  | none =>
    rw [hplace] at h
    cases h
    rfl
  | some place =>
    rw [hplace] at h
    dsimp only at h
    rw [bind_apply] at h
    unfold attempt require at h
    cases hrefused : refused (.move i) with
    | true =>
      rw [hrefused] at h
      cases h
      rfl
    | false =>
      rw [hrefused] at h
      cases h

/-- Two targets do not lead to one place. -/
def Apart (d : Directory) (s t : Target) : Prop :=
  ∀ place, d.placeFor? s.path = some place → d.placeFor? t.path ≠ some place

/-- The new file of a target is staged, and what it replaces is kept. -/
structure Ready (d : Directory) (t : Target) (i : Nat) : Prop where
  staged : d.get? (.staging i) = some (.file t.data)
  kept : ∀ place, d.placeFor? t.path = some place → d.get? (.backup i) = d.get? place

/-- Targets that are ready lead to different places and have numbers of their own. -/
structure AllReady (d : Directory) (pairs : List (Target × Nat)) : Prop where
  ready : ∀ a ∈ pairs, Ready d a.1 a.2
  nodup : (pairs.map Prod.snd).Nodup
  apart : (pairs.map Prod.fst).Pairwise (Apart d)

lemma get?_moved (d : Directory) {names : List String} (t : Target) (place : Place) (i : Nat) :
    (moved d t i place).get? (.path names) =
      if .path names = place then some (.file t.data) else d.get? (.path names) := by
  rw [moved, get?_erase, if_neg nofun, get?_set]

lemma sameFolders_moved (hplace : d.placeFor? t.path = some place) (i : Nat) :
    SameFolders d (moved d t i place) := by
  refine sameFolders_of fun names => ?_
  rw [get?_moved]
  split
  · rename_i heq
    rw [heq]
    exact iff_of_false nofun (get?_ne_folder hplace)
  · rfl

lemma get?_moved_backup (hplace : d.placeFor? t.path = some place) (j : Nat) :
    (moved d t i place).get? (.backup j) = d.get? (.backup j) := by
  obtain ⟨names, rfl, -⟩ := placeFor?_eq_some hplace
  rw [moved, get?_erase, if_neg nofun, get?_set, if_neg nofun]

lemma get?_moved_staging (hplace : d.placeFor? t.path = some place) {j : Nat} (hj : j ≠ i) :
    (moved d t i place).get? (.staging j) = d.get? (.staging j) := by
  obtain ⟨names, rfl, -⟩ := placeFor?_eq_some hplace
  rw [moved, get?_erase, if_neg fun heq => hj (Place.staging.inj heq), get?_set, if_neg nofun]

/-- The other targets are still ready when one has been moved. -/
lemma AllReady.moved (h : AllReady d ((t, i) :: pairs)) (hplace : d.placeFor? t.path = some place) :
    AllReady (moved d t i place) pairs := by
  have hfolders := sameFolders_moved hplace i
  obtain ⟨hi, hnodup⟩ := List.nodup_cons.mp h.nodup
  obtain ⟨hfirst, hapart⟩ := List.pairwise_cons.mp h.apart
  refine ⟨fun a ha => ⟨?_, fun place' hplace' => ?_⟩, hnodup, hapart.imp fun hst place => ?_⟩
  · have hindex : a.2 ≠ i := by
      rintro rfl
      exact hi (List.mem_map.mpr ⟨a, ha, rfl⟩)
    rw [get?_moved_staging hplace hindex]
    exact (h.ready a (List.mem_cons_of_mem _ ha)).staged
  · rw [hfolders.placeFor?] at hplace'
    have hne : place' ≠ place := fun heq =>
      hfirst _ (List.mem_map_of_mem ha) place hplace (heq ▸ hplace')
    rw [get?_moved_backup hplace, (h.ready a (List.mem_cons_of_mem _ ha)).kept place' hplace']
    obtain ⟨names, rfl, -⟩ := placeFor?_eq_some hplace'
    rw [get?_moved, if_neg hne]
  · rw [hfolders.placeFor?, hfolders.placeFor?]
    exact hst place

/-- The places that moving certain targets can change. -/
def MovedAt (pairs : List (Target × Nat)) : Place → Prop
  | .path _ => True
  | .staging i | .backup i => i ∈ pairs.map Prod.snd

lemma sameOutside_restore (refused : Step → Bool) (t : Target) (i : Nat) (d : Directory) :
    SameOutside (MovedAt [(t, i)]) d (t.restore refused i d) := by
  unfold restore
  split
  · exact .refl _ d
  split
  · exact .refl _ d
  rename_i place hplace
  obtain ⟨names, rfl, -⟩ := placeFor?_eq_some hplace
  split
  · refine ((sameOutside_set d _ _).mono ?_).trans ((sameOutside_erase _ _).mono ?_)
    · rintro _ rfl
      trivial
    · rintro _ rfl
      exact List.mem_singleton_self i
  · refine (sameOutside_erase _ _).mono ?_
    rintro _ rfl
    trivial

lemma touches_move (refused : Step → Bool) (t : Target) (i : Nat) :
    Touches (t.move refused i) (MovedAt [(t, i)]) := by
  refine Touches.bind (fun d => .refl _ d) fun before => ?_
  split
  · exact Touches.throw _
  rename_i place hplace
  obtain ⟨names, rfl, -⟩ := placeFor?_eq_some hplace
  refine (touches_require _ _ _).bind fun _ d => ?_
  dsimp only [modify, modifyGet, MonadStateOf.modifyGet, EStateM.modifyGet]
  split
  · refine ((sameOutside_set d _ _).mono ?_).trans ((sameOutside_erase _ _).mono ?_)
    · rintro _ rfl
      trivial
    · rintro _ rfl
      exact List.mem_singleton_self i
  · exact .refl _ d

lemma moveAll_cons (a : Target × Nat) (pairs : List (Target × Nat)) (d : Directory) :
    moveAll refused (a :: pairs) d = match a.1.move refused a.2 d with
      | .error e d => .error e d
      | .ok () d => match moveAll refused pairs d with
        | .error e d => .error e (a.1.restore refused a.2 d)
        | .ok () d => .ok () d := rfl

lemma MovedAt.of_mem {a : Target × Nat} (ha : a ∈ pairs) {q : Place} (h : MovedAt [a] q) :
    MovedAt pairs q := by
  cases q with
  | path names => trivial
  | staging i | backup i =>
    obtain rfl : i = a.2 := List.mem_singleton.mp h
    exact List.mem_map_of_mem ha

lemma touches_moveAll (refused : Step → Bool) (pairs : List (Target × Nat)) :
    Touches (moveAll refused pairs) (MovedAt pairs) := by
  induction pairs with
  | nil => exact Touches.pure ()
  | cons a pairs ih =>
    intro d
    have hhere : ∀ q, MovedAt [a] q → MovedAt (a :: pairs) q :=
      fun q => MovedAt.of_mem (List.mem_cons_self ..)
    have hmove := (touches_move refused a.1 a.2 d).mono hhere
    rw [moveAll_cons]
    cases hfirst : a.1.move refused a.2 d with
    | error e between =>
      rwa [hfirst] at hmove
    | ok u between =>
      rw [hfirst] at hmove
      have hrest := (ih between).mono fun q hq => show MovedAt (a :: pairs) q by
        cases q with
        | path names => trivial
        | staging i | backup i => exact List.mem_cons_of_mem _ hq
      dsimp only
      cases hmoves : moveAll refused pairs between with
      | error e after =>
        rw [hmoves] at hrest
        exact hmove.trans (hrest.trans ((sameOutside_restore refused a.1 a.2 after).mono hhere))
      | ok u after =>
        rw [hmoves] at hrest
        exact hmove.trans hrest

/-- A file that has been moved is brought back from what was kept, whatever else was moved and
brought back in between. -/
lemma get?_restore (hrestore : refused (.restore i) = false) (hready : Ready d t i)
    (hplace : d.placeFor? t.path = some place) (hfolders : SameFolders d d')
    (hkept : d'.get? (.backup i) = d.get? (.backup i)) (names : List String) :
    (t.restore refused i d').get? (.path names) =
      if .path names = place then d.get? place else d'.get? (.path names) := by
  have hbackup := hkept.trans (hready.kept place hplace)
  rw [restore, if_neg (by rw [hrestore]; exact Bool.false_ne_true), hfolders.placeFor?, hplace]
  dsimp only
  cases hold : d.get? place with
  | none =>
    rw [hold] at hbackup
    rw [hbackup]
    dsimp only
    rw [get?_erase]
  | some entry =>
    rw [hold] at hbackup
    rw [hbackup]
    dsimp only
    rw [get?_erase, if_neg nofun, get?_set]

/-- Where a move fails all paths hold again what they held before the first one. -/
lemma moveAll_error (hrestore : ∀ i, refused (.restore i) = false) (hready : AllReady d pairs)
    {e : Error} (h : moveAll refused pairs d = .error e d') :
    ∀ names, d'.get? (.path names) = d.get? (.path names) := by
  induction pairs generalizing d d' with
  | nil => cases h
  | cons a pairs ih =>
    obtain ⟨t, i⟩ := a
    rw [moveAll_cons] at h
    cases hmove : t.move refused i d with
    | error e between =>
      rw [hmove] at h
      cases h
      rw [eq_of_move_error hmove]
      exact fun _ => rfl
    | ok u between =>
      rw [hmove] at h
      have hhere := hready.ready _ (List.mem_cons_self ..)
      obtain ⟨-, place, hplace, rfl⟩ := move_eq_ok hmove hhere.staged
      dsimp only at h
      cases hmoves : moveAll refused pairs (moved d t i place) with
      | ok u after =>
        rw [hmoves] at h
        cases h
      | error e after =>
        rw [hmoves] at h
        cases h
        have hback := ih (hready.moved hplace) hmoves
        have hfolders : SameFolders d after :=
          (sameFolders_moved hplace i).trans (sameFolders_of fun names => by rw [hback names])
        have hkept : after.get? (.backup i) = d.get? (.backup i) := by
          have hsame : SameOutside (MovedAt pairs) (moved d t i place) after := by
            have := touches_moveAll refused pairs (moved d t i place)
            rwa [hmoves] at this
          rw [hsame (.backup i) (List.nodup_cons.mp hready.nodup).1, get?_moved_backup hplace]
        intro names
        rw [get?_restore (hrestore i) hhere hplace hfolders hkept, hback, get?_moved]
        split
        · rename_i heq
          rw [heq]
        · rfl

/-- Where no move fails every target holds its file, and no other path has changed. -/
lemma moveAll_ok (hready : AllReady d pairs) (h : moveAll refused pairs d = .ok () d') :
    (∀ a ∈ pairs, refused (.move a.2) = false ∧ ∃ names,
      d.placeFor? a.1.path = some (.path names) ∧
        d'.get? (.path names) = some (.file a.1.data)) ∧
    ∀ names, (∀ a ∈ pairs, d.placeFor? a.1.path ≠ some (.path names)) →
      d'.get? (.path names) = d.get? (.path names) := by
  induction pairs generalizing d with
  | nil =>
    cases h
    exact ⟨nofun, fun _ _ => rfl⟩
  | cons a pairs ih =>
    obtain ⟨t, i⟩ := a
    rw [moveAll_cons] at h
    cases hmove : t.move refused i d with
    | error e between =>
      rw [hmove] at h
      cases h
    | ok u between =>
      rw [hmove] at h
      obtain ⟨haccepted, place, hplace, rfl⟩ :=
        move_eq_ok hmove (hready.ready _ (List.mem_cons_self ..)).staged
      dsimp only at h
      cases hmoves : moveAll refused pairs (moved d t i place) with
      | error e after =>
        rw [hmoves] at h
        cases h
      | ok u after =>
        rw [hmoves] at h
        cases h
        have hfolders := sameFolders_moved hplace i
        obtain ⟨hholds, hothers⟩ := ih (hready.moved hplace) hmoves
        simp only [hfolders.placeFor?] at hholds hothers
        have hfirst := (List.pairwise_cons.mp hready.apart).1
        obtain ⟨names, rfl, -⟩ := placeFor?_eq_some hplace
        refine ⟨List.forall_mem_cons.mpr ⟨⟨haccepted, names, hplace, ?_⟩, hholds⟩,
          fun names' hfree => ?_⟩
        · rw [hothers names fun a ha => hfirst _ (List.mem_map_of_mem ha) _ hplace, get?_moved,
            if_pos rfl]
        · rw [hothers names' fun a ha => hfree a (List.mem_cons_of_mem _ ha), get?_moved, if_neg]
          rintro heq
          exact hfree _ (List.mem_cons_self ..) (hplace.trans (congrArg some heq.symm))

def stageAll (refused : Step → Bool) (pairs : List (Target × Nat)) : Commit Unit :=
  pairs.forM fun (t, i) => t.stage refused i

def backUpAll (refused : Step → Bool) (pairs : List (Target × Nat)) : Commit Unit :=
  pairs.forM fun (t, i) => t.backUp refused i

lemma replaceAll_eq (refused : Step → Bool) (pairs : List (Target × Nat)) :
    replaceAll refused pairs = (do
      stageAll refused pairs
      backUpAll refused pairs
      moveAll refused pairs) := rfl

/-- What is staged and what is kept for certain targets. -/
def Special (pairs : List (Target × Nat)) : Place → Prop
  | .path _ => False
  | .staging i | .backup i => i ∈ pairs.map Prod.snd

lemma Special.movedAt {q : Place} (h : Special pairs q) : MovedAt pairs q := by
  cases q with
  | path names => trivial
  | staging i | backup i => exact h

lemma touches_stageAll (refused : Step → Bool) (pairs : List (Target × Nat)) :
    Touches (stageAll refused pairs) (fun q => ∃ a ∈ pairs, q = .staging a.2) :=
  Touches.forM fun a ha => (touches_stage refused a.1 a.2).mono fun _ hq => ⟨a, ha, hq⟩

lemma touches_backUpAll (refused : Step → Bool) (pairs : List (Target × Nat)) :
    Touches (backUpAll refused pairs) (fun q => ∃ a ∈ pairs, q = .backup a.2) :=
  Touches.forM fun a ha => (touches_backUp refused a.1 a.2).mono fun _ hq => ⟨a, ha, hq⟩

lemma special_stageAll (refused : Step → Bool) (pairs : List (Target × Nat)) :
    Touches (stageAll refused pairs) (Special pairs) := by
  refine (touches_stageAll refused pairs).mono ?_
  rintro _ ⟨a, ha, rfl⟩
  exact List.mem_map_of_mem ha

lemma special_backUpAll (refused : Step → Bool) (pairs : List (Target × Nat)) :
    Touches (backUpAll refused pairs) (Special pairs) := by
  refine (touches_backUpAll refused pairs).mono ?_
  rintro _ ⟨a, ha, rfl⟩
  exact List.mem_map_of_mem ha

lemma touches_replaceAll (refused : Step → Bool) (pairs : List (Target × Nat)) :
    Touches (replaceAll refused pairs) (MovedAt pairs) :=
  ((special_stageAll refused pairs).mono fun _ => Special.movedAt).bind fun _ =>
    ((special_backUpAll refused pairs).mono fun _ => Special.movedAt).bind fun _ =>
      touches_moveAll refused pairs

lemma get?_of_stageAll (hnodup : (pairs.map Prod.snd).Nodup)
    (h : stageAll refused pairs d = .ok () d') :
    ∀ a ∈ pairs, d'.get? (.staging a.2) = some (.file a.1.data) := by
  induction pairs generalizing d with
  | nil => exact nofun
  | cons a pairs ih =>
    obtain ⟨hi, hnodup⟩ := List.nodup_cons.mp hnodup
    obtain ⟨between, hfirst, hrest⟩ := forM_cons_eq_ok.mp h
    refine List.forall_mem_cons.mpr ⟨?_, ih hnodup hrest⟩
    rw [(touches_stageAll refused pairs).of_ok hrest, get?_of_stage hfirst]
    rintro ⟨b, hb, heq⟩
    exact hi (List.mem_map.mpr ⟨b, hb, (Place.staging.inj heq).symm⟩)

lemma get?_of_backUpAll (hnodup : (pairs.map Prod.snd).Nodup)
    (hnone : ∀ a ∈ pairs, d.get? (.backup a.2) = none)
    (h : backUpAll refused pairs d = .ok () d') :
    ∀ a ∈ pairs, d'.get? (.backup a.2) = (d.file? a.1.path).map Entry.file := by
  induction pairs generalizing d with
  | nil => exact nofun
  | cons a pairs ih =>
    obtain ⟨hi, hnodup⟩ := List.nodup_cons.mp hnodup
    obtain ⟨between, hfirst, hrest⟩ := forM_cons_eq_ok.mp h
    have hhere := (touches_backUp refused a.1 a.2).of_ok hfirst
    have hsame (path : String) : between.file? path = d.file? path :=
      file?_congr fun names => hhere _ nofun
    refine List.forall_mem_cons.mpr ⟨?_, fun b hb => ?_⟩
    · rw [(touches_backUpAll refused pairs).of_ok hrest,
        get?_of_backUp hfirst (hnone _ (List.mem_cons_self ..))]
      rintro ⟨b, hb, heq⟩
      exact hi (List.mem_map.mpr ⟨b, hb, (Place.backup.inj heq).symm⟩)
    · rw [ih hnodup (fun c hc => ?_) hrest b hb, hsame]
      rw [hhere _ fun heq => hi (List.mem_map.mpr ⟨c, hc, Place.backup.inj heq⟩)]
      exact hnone c (List.mem_cons_of_mem _ hc)

/-- Once all files are staged and all old ones kept, the targets are ready. -/
lemma allReady_of_backUpAll {staged : Directory} (hnodup : (pairs.map Prod.snd).Nodup)
    (hapart : (pairs.map Prod.fst).Pairwise (Apart d))
    (hnone : ∀ a ∈ pairs, d.get? (.backup a.2) = none)
    (hstages : stageAll refused pairs d = .ok () staged)
    (hbackUps : backUpAll refused pairs staged = .ok () d') :
    AllReady d' pairs ∧ ∀ names, d'.get? (.path names) = d.get? (.path names) := by
  have hstaged := (touches_stageAll refused pairs).of_ok hstages
  have hkept := (touches_backUpAll refused pairs).of_ok hbackUps
  have hpaths (names : List String) : staged.get? (.path names) = d.get? (.path names) :=
    hstaged _ fun ⟨_, _, heq⟩ => nomatch heq
  have hpaths' (names : List String) : d'.get? (.path names) = d.get? (.path names) :=
    (hkept _ fun ⟨_, _, heq⟩ => nomatch heq).trans (hpaths names)
  have hfolders : SameFolders d d' := sameFolders_of fun names => by rw [hpaths' names]
  refine ⟨⟨fun a ha => ⟨?_, fun place hplace => ?_⟩, hnodup, hapart.imp fun hst place => ?_⟩, hpaths'⟩
  · rw [hkept _ fun ⟨_, _, heq⟩ => nomatch heq]
    exact get?_of_stageAll hnodup hstages a ha
  · have hnone' : ∀ a ∈ pairs, staged.get? (.backup a.2) = none := fun a ha =>
      (hstaged _ fun ⟨_, _, heq⟩ => nomatch heq).trans (hnone a ha)
    rw [get?_of_backUpAll hnodup hnone' hbackUps a ha, file?_congr hpaths, ← file?_congr hpaths']
    exact file?_of_placeFor? hplace
  · rw [hfolders.placeFor?, hfolders.placeFor?]
    exact hst place

/-- Where one of the steps fails, all paths hold what they held. -/
lemma replaceAll_error (hrestore : ∀ i, refused (.restore i) = false)
    (hnodup : (pairs.map Prod.snd).Nodup) (hapart : (pairs.map Prod.fst).Pairwise (Apart d))
    (hnone : ∀ a ∈ pairs, d.get? (.backup a.2) = none) {e : Error}
    (h : replaceAll refused pairs d = .error e d') (names : List String) :
    d'.get? (.path names) = d.get? (.path names) := by
  have hstage := special_stageAll refused pairs d
  rw [replaceAll_eq, bind_apply] at h
  cases hstages : stageAll refused pairs d with
  | error e staged =>
    rw [hstages] at h hstage
    cases h
    exact hstage _ id
  | ok u staged =>
    have hbackUp := special_backUpAll refused pairs staged
    rw [hstages] at h hstage
    dsimp only at h
    rw [bind_apply] at h
    cases hbackUps : backUpAll refused pairs staged with
    | error e kept =>
      rw [hbackUps] at h hbackUp
      cases h
      exact (hbackUp _ id).trans (hstage _ id)
    | ok u kept =>
      rw [hbackUps] at h
      obtain ⟨hready, hpaths⟩ := allReady_of_backUpAll hnodup hapart hnone hstages hbackUps
      exact (moveAll_error hrestore hready h names).trans (hpaths names)

/-- Where none of the steps fails, every target holds its file. -/
lemma replaceAll_ok (hnodup : (pairs.map Prod.snd).Nodup)
    (hapart : (pairs.map Prod.fst).Pairwise (Apart d))
    (hnone : ∀ a ∈ pairs, d.get? (.backup a.2) = none)
    (h : replaceAll refused pairs d = .ok () d') :
    (∀ a ∈ pairs, refused (.move a.2) = false ∧ ∃ names,
      d.placeFor? a.1.path = some (.path names) ∧
        d'.get? (.path names) = some (.file a.1.data)) ∧
    ∀ names, (∀ a ∈ pairs, d.placeFor? a.1.path ≠ some (.path names)) →
      d'.get? (.path names) = d.get? (.path names) := by
  rw [replaceAll_eq] at h
  obtain ⟨_, staged, hstages, h⟩ := bind_eq_ok.mp h
  obtain ⟨_, kept, hbackUps, hmoves⟩ := bind_eq_ok.mp h
  obtain ⟨hready, hpaths⟩ := allReady_of_backUpAll hnodup hapart hnone hstages hbackUps
  have hfolders : SameFolders d kept := sameFolders_of fun names => by rw [hpaths names]
  obtain ⟨hholds, hothers⟩ := moveAll_ok hready hmoves
  simp only [hfolders.placeFor?] at hholds hothers
  exact ⟨hholds, fun names hfree => (hothers names hfree).trans (hpaths names)⟩

end Target

namespace Directory

open Commit Target

variable {refused : Step → Bool} {targets : List Target} {d d' : Directory}

/-- Nothing is staged or kept for a commit. -/
def Settled (d : Directory) : Prop := ∀ i, d.get? (.staging i) = none ∧ d.get? (.backup i) = none

lemma get?_discard (d : Directory) (n : Nat) (place : Place) : (d.discard n).get? place =
    match place with
    | .path _ => d.get? place
    | .staging i | .backup i => if i < n then none else d.get? place := by
  induction n with
  | zero =>
    cases place <;> rfl
  | succ n ih =>
    have hstep : d.discard (n + 1) = ((d.discard n).erase (.staging n)).erase (.backup n) := by
      rw [discard, List.range_succ, List.foldl_append]
      rfl
    rw [hstep, get?_erase, get?_erase]
    cases place with
    | path names => rw [if_neg nofun, if_neg nofun, ih]
    | staging i =>
      rw [if_neg nofun]
      simp only [Place.staging.injEq, ih]
      split_ifs <;> first | rfl | omega
    | backup i =>
      simp only [Place.backup.injEq, reduceCtorEq, if_false, ih]
      split_ifs <;> first | rfl | omega

lemma get?_discard_path (d : Directory) (n : Nat) (names : List String) :
    (d.discard n).get? (.path names) = d.get? (.path names) := get?_discard ..

lemma settled_discard (hsettled : d.Settled)
    (hsame : SameOutside (MovedAt targets.zipIdx) d d') : (d'.discard targets.length).Settled := by
  have hmem {i : Nat} (hi : ¬ i < targets.length) : i ∉ targets.zipIdx.map Prod.snd := by
    rw [List.zipIdx_map_snd, List.mem_range'_1]
    omega
  intro i
  rw [get?_discard, get?_discard]
  dsimp only
  by_cases hi : i < targets.length
  · rw [if_pos hi, if_pos hi]
    exact ⟨rfl, rfl⟩
  · rw [if_neg hi, if_neg hi, hsame (.staging i) (hmem hi), hsame (.backup i) (hmem hi)]
    exact hsettled i

/-- Every target holds its new file, and nothing else has changed. -/
structure Replaced (d : Directory) (targets : List Target) (d' : Directory) : Prop where
  holds : ∀ t ∈ targets, d'.file? t.path = some t.data
  others : ∀ place, (∀ t ∈ targets, d.placeFor? t.path ≠ some place) → d'.get? place = d.get? place
  settled : d'.Settled

/-- Every place holds what it held, and nothing that was staged or kept is left. -/
structure Unchanged (d d' : Directory) : Prop where
  same : ∀ place, d'.get? place = d.get? place
  settled : d'.Settled

/-- A commit ends with all of its targets replaced or with none. -/
def AllOrNone (d : Directory) (targets : List Target) : EStateM.Result Error Directory Unit → Prop
  | .ok () d' => Replaced d targets d'
  | .error _ d' => Unchanged d d'

lemma Unchanged.of_paths (hsettled : d.Settled) (hsettled' : d'.Settled)
    (h : ∀ names, d'.get? (.path names) = d.get? (.path names)) : Unchanged d d' := by
  refine ⟨fun place => ?_, hsettled'⟩
  cases place with
  | path names => exact h names
  | staging i => rw [(hsettled i).1, (hsettled' i).1]
  | backup i => rw [(hsettled i).2, (hsettled' i).2]

lemma replaced_of_paths {after : Directory} (hsettled : d.Settled)
    (hsettled' : (after.discard targets.length).Settled)
    (hholds : ∀ t ∈ targets, ∃ names, d.placeFor? t.path = some (.path names) ∧
      after.get? (.path names) = some (.file t.data))
    (hothers : ∀ names, (∀ t ∈ targets, d.placeFor? t.path ≠ some (.path names)) →
      after.get? (.path names) = d.get? (.path names)) :
    Replaced d targets (after.discard targets.length) := by
  have hfolders : SameFolders d (after.discard targets.length) := sameFolders_of fun names => by
    rw [get?_discard_path]
    by_cases hfree : ∀ t ∈ targets, d.placeFor? t.path ≠ some (.path names)
    · rw [hothers names hfree]
    · push Not at hfree
      obtain ⟨t, ht, hplace⟩ := hfree
      obtain ⟨names', hplace', hfile⟩ := hholds t ht
      rw [hplace] at hplace'
      cases hplace'
      rw [hfile]
      exact iff_of_false nofun (get?_ne_folder hplace)
  refine ⟨fun t ht => ?_, fun place hfree => ?_, hsettled'⟩
  · obtain ⟨names, hplace, hfile⟩ := hholds t ht
    rw [← hfolders.placeFor?] at hplace
    have hread := file?_of_placeFor? hplace
    rw [get?_discard_path, hfile] at hread
    obtain ⟨data, hdata, heq⟩ := Option.map_eq_some_iff.mp hread
    cases heq
    exact hdata
  · cases place with
    | path names => rw [get?_discard_path, hothers names hfree]
    | staging i => rw [(hsettled i).1, (hsettled' i).1]
    | backup i => rw [(hsettled i).2, (hsettled' i).2]

/-- Targets that are numbered in their order. -/
lemma numbered (hsettled : d.Settled) (hapart : targets.Pairwise (Apart d)) :
    (targets.zipIdx.map Prod.snd).Nodup ∧ (targets.zipIdx.map Prod.fst).Pairwise (Apart d) ∧
      ∀ a ∈ targets.zipIdx, d.get? (.backup a.2) = none := by
  refine ⟨?_, by rwa [List.zipIdx_map_fst], fun a _ => (hsettled a.2).2⟩
  rw [List.zipIdx_map_snd]
  exact List.nodup_range'

/-- Whichever step fails, a commit replaces the files of all its targets or of none, if what has been
moved can be brought back. -/
theorem commit_allOrNone (hrestore : ∀ i, refused (.restore i) = false) (hsettled : d.Settled)
    (hapart : targets.Pairwise (Apart d)) :
    AllOrNone d targets (Directory.commit refused targets d) := by
  obtain ⟨hnodup, hapart', hnone⟩ := numbered hsettled hapart
  have hsame := touches_replaceAll refused targets.zipIdx d
  unfold Directory.commit
  cases hreplace : replaceAll refused targets.zipIdx d with
  | error e after =>
    rw [hreplace] at hsame
    refine Unchanged.of_paths hsettled (settled_discard hsettled hsame) fun names => ?_
    rw [get?_discard_path]
    exact replaceAll_error hrestore hnodup hapart' hnone hreplace names
  | ok u after =>
    rw [hreplace] at hsame
    have hsettled' := settled_discard hsettled hsame
    obtain ⟨hholds, hothers⟩ := replaceAll_ok hnodup hapart' hnone hreplace
    have hholds : ∀ t ∈ targets, ∃ names, d.placeFor? t.path = some (.path names) ∧
        after.get? (.path names) = some (.file t.data) := by
      rw [← List.zipIdx_map_fst 0 targets]
      exact List.forall_mem_map.mpr fun a ha => (hholds a ha).2
    have hothers : ∀ names, (∀ t ∈ targets, d.placeFor? t.path ≠ some (.path names)) →
        after.get? (.path names) = d.get? (.path names) := fun names hfree =>
      hothers names fun a ha => hfree a.1 (List.fst_mem_of_mem_zipIdx ha)
    exact replaced_of_paths hsettled hsettled' hholds hothers

/-- A commit that ends well has been refused no move. -/
lemma accepted_of_commit (hsettled : d.Settled) (hapart : targets.Pairwise (Apart d))
    (h : Directory.commit refused targets d = .ok () d') {i : Nat} (hi : i < targets.length) :
    refused (.move i) = false := by
  obtain ⟨hnodup, hapart', hnone⟩ := numbered hsettled hapart
  unfold Directory.commit at h
  cases hreplace : replaceAll refused targets.zipIdx d with
  | error e after =>
    rw [hreplace] at h
    cases h
  | ok u after =>
    obtain ⟨hholds, -⟩ := replaceAll_ok hnodup hapart' hnone hreplace
    exact (hholds (targets[i], i) (List.mem_zipIdx_iff_getElem?.mpr (List.getElem?_eq_getElem hi))).1

end Directory

end CliImage
