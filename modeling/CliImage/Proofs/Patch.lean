import CliImage.Patch
import CliImage.Proofs.Directory.Commit
import CliImage.Proofs.Image.Prepared
import CliImage.Proofs.Output.Stages
import CliImage.Proofs.Pe.Headers
import CliImage.Proofs.Symbols.Portable
import Mathlib

/-! A patch replaces image and PDB together, or it changes nothing. -/

namespace CliImage

open Directory Target

namespace Output

variable {image : Image} {key : Option KeyPair} {out : Output}

lemma isSome_renumber {plan : MethodPlan} {metadata after : Metadata} {pdb pdb' : Option Metadata}
    (h : renumber plan metadata pdb = .ok (after, pdb')) : pdb'.isSome = pdb.isSome := by
  unfold renumber at h
  split at h
  · cases h
    rfl
  · obtain ⟨_, -, h⟩ := Result.bind_eq_ok.mp h
    cases pdb with
    | none =>
      cases h
      rfl
    | some m =>
      obtain ⟨_, -, h⟩ := Result.bind_eq_ok.mp h
      cases h
      rfl

lemma isSome_arrange {plan : MethodPlan} {rows : List (Nat × Row)} {metadata : Metadata}
    {pdb : Option Metadata} {arranged : Metadata × Option Metadata}
    (h : arrange plan rows metadata pdb = .ok arranged) : arranged.2.isSome = pdb.isSome := by
  obtain ⟨⟨renumbered, between⟩, hrenumber, h⟩ := Result.bind_eq_ok.mp h
  obtain ⟨tables, -, h⟩ := Result.bind_eq_ok.mp h
  obtain ⟨pair, -, h⟩ := Result.bind_eq_ok.mp h
  cases h
  rw [← isSome_renumber hrenumber]
  dsimp only
  split <;> rfl

/-- A PDB is written for an image that has symbols, and only then. -/
lemma isSome_symbols (h : image.serialize key = .ok out) :
    out.symbols.isSome = image.symbols.isSome := by
  obtain ⟨s, hs, rfl⟩ := serialize_eq_ok.mp h
  have harranged := isSome_arrange hs.arranged
  have hwritten := hs.symbols
  rw [Option.isSome_map] at harranged
  rw [← harranged]
  unfold writeSymbols? at hwritten
  split at hwritten
  · rename_i hnone
    obtain ⟨hsymbols, -⟩ := Prod.mk.inj (Except.ok.inj hwritten)
    rw [hnone, ← hsymbols]
    rfl
  · rename_i hsome
    obtain ⟨_, -, hwritten⟩ := Result.bind_eq_ok.mp hwritten
    obtain ⟨hsymbols, -⟩ := Prod.mk.inj (Except.ok.inj hwritten)
    rw [hsome, ← hsymbols]
    rfl

end Output

/-- A PE file is no metadata: they start with different letters. -/
lemma Metadata.not_read_of_file {data : Bytes} {file : PeFile} {m : Metadata}
    (hfile : PeFile.read data = .ok file) : Metadata.read data ≠ .ok m := by
  intro hmetadata
  obtain ⟨_, hroot, -⟩ := Metadata.read_eq_ok hmetadata
  unfold Root.read at hroot
  obtain ⟨-, hroot⟩ := Result.unless_throw_eq_ok.mp hroot
  obtain ⟨hmagic, -⟩ := Result.unless_throw_eq_ok.mp hroot
  obtain ⟨-, hheaders, -, hoptional, -⟩ := PeFile.read_eq_ok.mp hfile
  obtain ⟨-, hletters, -⟩ := (PeHeaders.read_eq_some hoptional).mp hheaders
  have hsplit : data.natAt 0 4 = data.natAt 0 2 + 256 ^ 2 * data.natAt (0 + 2) 2 :=
    Bytes.natAt_add data 0 2 2
  have hvalue : (UInt32.ofNat (data.natAt 0 4)).toNat = data.natAt 0 4 :=
    UInt32.toNat_ofNat_of_lt' (Bytes.natAt_lt ..)
  rw [not_not.mp hmagic] at hvalue
  change 0x424A5342 = _ at hvalue
  omega

namespace Directory

variable {d : Directory} {id : Nat} {path : String} {image : Image}

lemma readImage_eq_ok (h : d.readImage id path = .ok image) : ∃ data read,
    d.file? path = some data ∧ Image.read id data = .ok read ∧
      image.symbols.isSome = (d.file? (Path.ofSymbols path)).isSome ∧
      ∀ pdb, d.file? (Path.ofSymbols path) = some pdb → ∃ symbols,
        Symbols.read (Path.ofSymbols path) pdb read.file read.metadata.tables = .ok symbols := by
  unfold readImage at h
  split at h
  · rename_i data hdata
    obtain ⟨read, hread, h⟩ := Result.bind_eq_ok.mp h
    refine ⟨data, read, hdata, hread, ?_⟩
    dsimp only at h
    split at h
    · rename_i pdb hpdb
      obtain ⟨symbols, hsymbols, rfl⟩ := Image.attach_eq_ok h
      refine ⟨by rw [hpdb]; rfl, fun pdb' hpdb' => ⟨symbols, ?_⟩⟩
      rw [hpdb] at hpdb'
      cases hpdb'
      exact hsymbols
    · rename_i hnone
      cases h
      obtain ⟨-, -, hsymbols, -⟩ := Image.read_eq_ok hread
      refine ⟨?_, fun pdb hpdb => ?_⟩
      · change read.symbols.isSome = _
        rw [hnone, hsymbols]
        rfl
      · rw [hnone] at hpdb
        cases hpdb
  · cases h

/-- The image at a path and its symbols stand at different places. -/
lemma apart_of_readImage (h : d.readImage id path = .ok image) (hsymbols : image.symbols.isSome)
    (image' pdb' : Bytes) : Apart d ⟨Path.ofSymbols path, pdb'⟩ ⟨path, image'⟩ := by
  obtain ⟨data, read, hdata, hread, hsome, hpdb⟩ := readImage_eq_ok h
  rw [hsymbols] at hsome
  obtain ⟨pdb, hfile⟩ := Option.isSome_iff_exists.mp hsome.symm
  intro place hplace hplace'
  have hsame : d.file? (Path.ofSymbols path) = d.file? path := by
    rw [file?, file?, content?_eq_of_placeFor? hplace hplace']
  rw [hdata, hfile] at hsame
  cases hsame
  obtain ⟨symbols, hattached⟩ := hpdb data hfile
  obtain ⟨-, m, _, hmetadata, -⟩ := Symbols.parse_eq_ok.mp (Result.mapError_eq_ok.mp hattached)
  exact Metadata.not_read_of_file (Image.read_eq_ok hread).1 hmetadata

end Directory

namespace Patch

variable {patch : Patch} {d : Directory} {targets : List Target}

/-- The files that a patch replaces: the image and, if there is one, the PDB beside it. -/
def paths (patch : Patch) (d : Directory) : List String :=
  (if (d.file? (Path.ofSymbols patch.image)).isSome then [Path.ofSymbols patch.image] else [])
    ++ [patch.image]

lemma targets_eq_ok (h : patch.targets d = .ok targets) :
    targets.map Target.path = patch.paths d ∧ targets.Pairwise (Apart d) := by
  obtain ⟨image, hread, h⟩ := Result.bind_eq_ok.mp h
  obtain ⟨ref, -, h⟩ := Result.bind_eq_ok.mp h
  obtain ⟨injected, hinject, h⟩ := Result.bind_eq_ok.mp h
  obtain ⟨key, -, h⟩ := Result.bind_eq_ok.mp h
  obtain ⟨out, hout, h⟩ := Result.bind_eq_ok.mp h
  cases h
  obtain ⟨-, -, -, -, hsome, -⟩ := readImage_eq_ok hread
  have hsymbols : out.symbols.isSome = image.symbols.isSome := by
    rw [Output.isSome_symbols hout, Image.inject_symbols hinject]
  rw [paths, ← hsome, ← hsymbols]
  cases hpdb : out.symbols with
  | none => exact ⟨rfl, List.pairwise_singleton ..⟩
  | some pdb =>
    rw [hpdb] at hsymbols
    refine ⟨rfl, List.pairwise_pair.mpr ?_⟩
    exact apart_of_readImage hread hsymbols.symm _ _

end Patch

/-- Whichever step fails, a commit to different files replaces all of them or none, and a patch
replaces image and PDB together or changes nothing, if what has been moved can be brought back. -/
theorem replaced_or_unchanged {refused : Step → Bool} {d : Directory}
    (hrestore : ∀ i, refused (.restore i) = false) (hsettled : d.Settled) :
    (∀ targets : List Target, targets.Pairwise (Apart d) →
      d.AllOrNone targets (Directory.commit refused targets d)) ∧
    ∀ patch : Patch, match Directory.updateWith refused patch.targets d with
      | .ok () d' => ∃ targets, patch.targets d = .ok targets ∧
          targets.map Target.path = patch.paths d ∧ d.Replaced targets d'
      | .error _ d' => d.Unchanged d' := by
  refine ⟨fun targets hapart => commit_allOrNone hrestore hsettled hapart, fun patch => ?_⟩
  unfold Directory.updateWith
  cases htargets : patch.targets d with
  | error e => exact ⟨fun _ => rfl, hsettled⟩
  | ok targets =>
    obtain ⟨hpaths, hapart⟩ := Patch.targets_eq_ok htargets
    have hcommit := commit_allOrNone hrestore hsettled hapart
    dsimp only
    cases hend : Directory.commit refused targets d with
    | error e after =>
      rwa [hend] at hcommit
    | ok u after =>
      rw [hend] at hcommit
      exact ⟨targets, rfl, hpaths, hcommit⟩

/-- Three files, the second of which is new, in a directory with the other two. -/
def pairOnDisk : Directory := ⟨[(.path ["a"], .file #[1]), (.path ["c"], .file #[2])]⟩

def threeTargets : List Target := [⟨"a", #[3]⟩, ⟨"b", #[4]⟩, ⟨"c", #[5]⟩]

lemma steps_threeTargets : ∀ t ∈ threeTargets, Path.steps t.path = [t.path] := by
  have hfirst : Path.steps "a" = ["a"] := by cbv
  have hsecond : Path.steps "b" = ["b"] := by cbv
  have hthird : Path.steps "c" = ["c"] := by cbv
  simpa only [threeTargets, List.forall_mem_cons, List.not_mem_nil, false_imp_iff, implies_true,
    and_true] using ⟨hfirst, hsecond, hthird⟩

lemma apart_threeTargets : threeTargets.Pairwise (Apart pairOnDisk) := by
  have hnames : ∀ t ∈ threeTargets,
      Path.isName t.path ∧ pairOnDisk.isFolder [t.path] = false := by decide +kernel
  have hplace : ∀ t ∈ threeTargets, pairOnDisk.placeFor? t.path = some (.path [t.path]) :=
    fun t ht => placeFor?_name (steps_threeTargets t ht) (hnames t ht).1 (hnames t ht).2
  have hpaths : threeTargets.Pairwise fun s t => s.path ≠ t.path := by decide
  refine hpaths.imp_of_mem fun hs ht hne place h => ?_
  rw [hplace _ hs] at h
  cases h
  rw [hplace _ ht]
  simpa using hne.symm

/-- The last of three moves is refused, after an old file has been replaced and a new one made. -/
theorem unchanged_refused : ∃ e after,
    Directory.commit (· = .move 2) threeTargets pairOnDisk = .error e after ∧
      pairOnDisk.Unchanged after := by
  have hsettled : pairOnDisk.Settled := fun _ => ⟨rfl, rfl⟩
  have hcommit := (@replaced_or_unchanged (· = .move 2) pairOnDisk (fun _ => rfl) hsettled).1
    threeTargets apart_threeTargets
  cases hend : Directory.commit (· = .move 2) threeTargets pairOnDisk with
  | error e after =>
    rw [hend] at hcommit
    exact ⟨e, after, rfl, hcommit⟩
  | ok u after =>
    have haccepted : decide (Step.move 2 = .move 2) = false :=
      accepted_of_commit hsettled apart_threeTargets hend
        (show 2 < threeTargets.length by decide)
    cases haccepted

end CliImage
