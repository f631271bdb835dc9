import CliImage.CommandLine.Invocation
import Mathlib.Data.List.Forall2
import Mathlib.Data.List.TakeWhile

/-! A key that is named on the command line is used, however it is spelled and wherever it stands;
only a value that is attached to the short option is not. -/

namespace CliImage.CommandLine

/-- The same characters in any letter case. -/
def SameInCase (lower chars : List Char) : Prop :=
  List.Forall₂ (fun l c => c = l ∨ c = l.toUpper) lower chars

/-- A slash word for the key in any letter case. -/
def IsSwitch (word : String) : Prop := ∃ lower ∈ switches, SameInCase lower.toList word.toList

/-- How a key option is spelled. -/
inductive Spelling
  | short
  | attached
  | long
  | joined
  | switch (word : { word : String // IsSwitch word })

def Spelling.texts (key : String) : Spelling → List String
  | .short => ["-k", key]
  | .attached => ["-k" ++ key]
  | .long => ["--keyfile", key]
  | .joined => ["--keyfile=" ++ key]
  | .switch word => [word.val ++ key]

/-- What a command line is made of before its last name. -/
inductive Part
  | name (text : String)
  | verbose (long : Bool)
  | key (spelling : Spelling) (file : String)

namespace Part

def texts : Part → List String
  | name text => [text]
  | verbose long => [if long then "--verbose" else "-v"]
  | key spelling file => spelling.texts file

def name? : Part → Option String
  | name text => some text
  | _ => none

def key? : Part → Option (Spelling × String)
  | key spelling file => some (spelling, file)
  | _ => none

def isVerbose : Part → Bool
  | verbose _ => true
  | _ => false

end Part

/-- A text that is an argument as it stands. -/
structure IsPlain (text : String) : Prop where
  nonempty : text ≠ ""
  noOption : text.toList.head? ≠ some '-'
  oneLine : '\n' ∉ text.toList
  noHelp : text ∉ helpRequests
  noSwitch : switchKey? text = none

variable {text word key : String} {texts : List String} {image : String}

lemma switchKey?_of_dash (h : text.toList.head? = some '-') : switchKey? text = none := by
  cases hchars : text.toList with
  | nil => rw [hchars] at h; cases h
  | cons c cs =>
    rw [hchars] at h
    cases h
    have hfirst : ∀ w ∈ switches, afterWord? w.toList ('-' :: cs) = none := by
      intro w hw
      simp only [switches, List.mem_cons, List.not_mem_nil, or_false] at hw
      rcases hw with rfl | rfl <;> rfl
    have hnone : switches.filterMap (fun w => afterWord? w.toList text.toList) = [] := by
      rw [hchars]
      exact List.filterMap_eq_nil_iff.mpr hfirst
    rw [switchKey?, hnone]
    rfl

lemma spellSwitches_append (texts : List String) (image : String) :
    spellSwitches (texts ++ [image]) = texts.map spellSwitch ++ [image] := by
  induction texts with
  | nil => rfl
  | cons text texts ih =>
    have hrest : texts ++ [image] ≠ [] := by simp
    rw [List.cons_append, spellSwitches.eq_3 _ _ hrest, ih]
    rfl

lemma SameInCase.afterWord? {lower chars : List Char} (h : SameInCase lower chars)
    (rest : List Char) : CommandLine.afterWord? lower (chars ++ rest) = some rest := by
  induction h with
  | nil => rfl
  | @cons l c lower chars hletter _ ih =>
    have hsame : sameLetter l c := by
      rcases hletter with rfl | rfl <;> simp [sameLetter]
    rw [List.cons_append, CommandLine.afterWord?, if_pos hsame, ih]

/-- The short switch word does not begin the long one. -/
lemma afterWord?_long {chars : List Char} (h : SameInCase "/keyfile:".toList chars)
    (rest : List Char) : afterWord? "/k:".toList (chars ++ rest) = none := by
  have hlong : "/keyfile:".toList = '/' :: 'k' :: 'e' :: "yfile:".toList := rfl
  rw [hlong] at h
  obtain ⟨c, _, -, hfrom, rfl⟩ := List.forall₂_cons_left_iff.mp h
  obtain ⟨d, _, -, hletters, rfl⟩ := List.forall₂_cons_left_iff.mp hfrom
  obtain ⟨e, _, hletter, -, rfl⟩ := List.forall₂_cons_left_iff.mp hletters
  have hcolon : sameLetter ':' e = false := by rcases hletter with rfl | rfl <;> rfl
  have hshort : "/k:".toList = ['/', 'k', ':'] := rfl
  simp [hshort, afterWord?, hcolon]

/-- The key of a switch is what stands behind its word. -/
lemma switchKey?_switch (hword : IsSwitch word) (hempty : key ≠ "") (hline : '\n' ∉ key.toList) :
    switchKey? (word ++ key) = some key := by
  have hvalues : ∃ others, switches.filterMap (fun w => afterWord? w.toList (word ++ key).toList) =
      key.toList :: others := by
    obtain ⟨lower, hlower, hcase⟩ := hword
    have hafter := hcase.afterWord? key.toList
    simp only [switches, List.mem_cons, List.not_mem_nil, or_false] at hlower
    rw [String.toList_append]
    rcases hlower with rfl | rfl
    · exact ⟨_, List.filterMap_cons_some hafter⟩
    · refine ⟨[], ?_⟩
      simp only [switches, List.filterMap_cons, afterWord?_long hcase, hafter, List.filterMap_nil]
  obtain ⟨others, hvalues⟩ := hvalues
  have htake : key.toList.takeWhile (· != '\n') = key.toList :=
    List.takeWhile_eq_self_iff.mpr fun c hc => by
      simpa using fun heq : c = '\n' => hline (heq ▸ hc)
  rw [switchKey?, hvalues, List.map_cons, htake]
  cases hchars : key.toList with
  | nil => exact absurd (String.toList_eq_nil_iff.mp hchars) hempty
  | cons c cs =>
    dsimp only
    rw [← hchars, String.ofList_toList]

lemma toList_joined (key : String) :
    ("--keyfile=" ++ key).toList = '-' :: '-' :: 'k' :: ("eyfile=".toList ++ key.toList) := by
  rw [String.toList_append]
  rfl

lemma toList_attached (key : String) : ("-k" ++ key).toList = '-' :: 'k' :: key.toList := by
  rw [String.toList_append]
  rfl

namespace Arguments

variable {args : Arguments} {names : List String} {file : Option String} {verbose : Bool}
  {text key : String}

/-- What the arguments so far come to, the pending one included. -/
inductive Says : Arguments → List String → Option String → Bool → Prop
  | settled {names : List String} {file : Option String} {verbose : Bool} :
      Says ⟨names, file, verbose, none, false⟩ names file verbose
  | name {names : List String} {file : Option String} {verbose : Bool} {text : String}
      (h : text ≠ "") :
      Says ⟨names, file, verbose, some (.name text), false⟩ (names ++ [text]) file verbose
  | key {names : List String} {verbose : Bool} {text : String} (h : text ≠ "") :
      Says ⟨names, none, verbose, some (.key (some text)), false⟩ names (some text) verbose

lemma Says.settle_eq (h : args.Says names file verbose) :
    args.settle = .ok ⟨names, file, verbose, none, false⟩ := by
  cases h with
  | settled => rfl
  | name h => simp [settle, addName, h]
  | key h => simp [settle, setKey, h]

lemma Says.nameCount_eq (h : args.Says names file verbose) : args.nameCount = names.length := by
  cases h with
  | settled => rfl
  | name h => simp [nameCount]
  | key h => rfl

lemma Says.takePlain (h : args.Says names file verbose) (text : String) :
    args.takePlain text = args.takeName text := by
  cases h <;> rfl

lemma Says.ended_eq (h : args.Says names file verbose) : args.ended = false := by
  cases h <;> rfl

lemma take_plain (hgoes : args.ended = false) (h : IsPlain text) :
    args.take text = args.takePlain text := by
  have hdash := h.noOption
  unfold take
  rw [hgoes, if_neg Bool.false_ne_true]
  split
  · rename_i hchars
    simp [hchars] at hdash
  · rename_i hchars
    simp [hchars] at hdash
  · rename_i hchars
    simp [hchars] at hdash
  · rfl

/-- A text that is no option is the next name. -/
lemma Says.take_name (h : args.Says names file verbose) (hlength : names.length < 3)
    (htext : IsPlain text) :
    ∃ next, args.take text = .ok next ∧ next.Says (names ++ [text]) file verbose := by
  refine ⟨_, ?_, .name htext.nonempty⟩
  rw [take_plain h.ended_eq htext, h.takePlain, takeName, h.nameCount_eq, if_neg hlength.ne,
    h.settle_eq]
  rfl

lemma take_letters {letter : Char} {letters : List Char} (hgoes : args.ended = false)
    (hchars : text.toList = '-' :: letter :: letters) (hletter : letter ≠ '-') :
    args.take text = args.takeLetters (letter :: letters) := by
  unfold take
  rw [hgoes, if_neg Bool.false_ne_true, hchars]
  split
  · rename_i h
    cases h
    exact absurd rfl hletter
  · rename_i h
    cases h
    exact absurd rfl hletter
  · rename_i h
    cases h
    rfl
  · rename_i h
    exact absurd rfl (h _ _)

lemma take_word {letter : Char} {letters : List Char} (hgoes : args.ended = false)
    (hchars : text.toList = '-' :: '-' :: letter :: letters) :
    args.take text = args.takeWord (letter :: letters) := by
  unfold take
  rw [hgoes, if_neg Bool.false_ne_true, hchars]
  rfl

lemma Says.take_verbose (h : args.Says names file false) (long : Bool) :
    ∃ next, args.take (if long then "--verbose" else "-v") = .ok next ∧
      next.Says names file true := by
  refine ⟨_, ?_, .settled⟩
  have hset : args.setVerbose = .ok ⟨names, file, true, none, false⟩ := by
    rw [setVerbose, h.settle_eq]
    rfl
  cases long with
  | true =>
    rw [if_pos rfl, take_word h.ended_eq rfl]
    exact hset
  | false =>
    have htake : args.take "-v" = args.takeLetters ['v'] :=
      take_letters h.ended_eq rfl (by decide)
    rw [if_neg Bool.false_ne_true, htake, takeLetters, hset]
    rfl

/-- An option that waits for its value takes the text behind it. -/
lemma Says.take_value (h : args.Says names none verbose) {option : String}
    (hoption : args.take option = args.startKey) (hkey : IsPlain key) :
    ∃ next, [option, key].foldlM take args = .ok next ∧ next.Says names (some key) verbose := by
  refine ⟨_, ?_, .key hkey.nonempty⟩
  have hstart : args.startKey = .ok ⟨names, none, verbose, some (.key none), false⟩ := by
    rw [startKey, h.settle_eq]
    rfl
  simp only [List.foldlM_cons, List.foldlM_nil, hoption, hstart, bind, Except.bind]
  rw [take_plain rfl hkey]
  rfl

lemma Says.attachKey_eq (h : args.Says names none verbose) (value : String) :
    args.attachKey value.toList =
      if value = "" then .error .invalidValue
      else .ok ⟨names, some value, verbose, none, false⟩ := by
  rw [attachKey, h.settle_eq, String.ofList_toList]
  simp only [bind, Except.bind, setKey, Option.isSome_none, String.isEmpty_iff]
  rfl

lemma Says.take_joined (h : args.Says names none verbose) (hkey : IsPlain key) :
    ∃ next, args.take ("--keyfile=" ++ key) = .ok next ∧ next.Says names (some key) verbose := by
  refine ⟨_, ?_, .settled⟩
  have htake : args.take ("--keyfile=" ++ key) = args.attachKey key.toList := by
    rw [take_word h.ended_eq (toList_joined key)]
    rfl
  rw [htake, h.attachKey_eq, if_neg hkey.nonempty]

/-- What is attached to the letter of the key option is its value, behind an equals sign or not. -/
lemma Says.take_attached (h : args.Says names none verbose) (hkey : key ≠ "") :
    (∃ e, args.take ("-k" ++ key) = .error e) ∨ ∃ next value,
      args.take ("-k" ++ key) = .ok next ∧ next.Says names (some value) verbose := by
  have hchars := toList_attached key
  have htake : args.take ("-k" ++ key) = args.takeLetters ('k' :: key.toList) :=
    take_letters h.ended_eq hchars (by decide)
  have hvalue : ∃ value : String, args.takeLetters ('k' :: key.toList) =
      args.attachKey value.toList := by
    cases hkeyChars : key.toList with
    | nil => exact absurd (String.toList_eq_nil_iff.mp hkeyChars) hkey
    | cons c cs =>
      by_cases hc : c = '='
      · exact ⟨String.ofList cs, by rw [hc, String.toList_ofList]; rfl⟩
      · refine ⟨key, ?_⟩
        rw [hkeyChars, takeLetters.eq_5 _ _ (by simp) (by simpa using hc)]
  obtain ⟨value, hvalue⟩ := hvalue
  rw [htake, hvalue, h.attachKey_eq]
  split
  · exact .inl ⟨_, rfl⟩
  · exact .inr ⟨_, value, rfl, .settled⟩

end Arguments

/-- A text that stands in a part is an argument by itself. -/
def Part.IsLegal : Part → Prop
  | .name text => IsPlain text
  | .verbose _ => True
  | .key _ file => IsPlain file

/-- The switches are spelled as options. -/
def Spelling.spelled : Spelling → Spelling
  | .switch _ => .joined
  | spelling => spelling

def Part.spelled : Part → Part
  | .key spelling file => .key spelling.spelled file
  | part => part

lemma spellSwitch_of_none (h : switchKey? text = none) : spellSwitch text = text := by
  rw [spellSwitch, h]

lemma spellSwitch_of_dash (h : text.toList.head? = some '-') : spellSwitch text = text :=
  spellSwitch_of_none (switchKey?_of_dash h)

lemma head?_append (h : word.toList.head? = some '-') (key : String) :
    (word ++ key).toList.head? = some '-' := by
  rw [String.toList_append, List.head?_append, h]
  rfl

lemma Part.map_spellSwitch {part : Part} (h : part.IsLegal) :
    part.texts.map spellSwitch = part.spelled.texts := by
  cases part with
  | name text => exact congrArg (· :: []) (spellSwitch_of_none h.noSwitch)
  | verbose long => cases long <;> exact congrArg (· :: []) (spellSwitch_of_dash rfl)
  | key spelling file =>
    have hvalue : ∀ option : String, option.toList.head? = some '-' →
        [option, file].map spellSwitch = [option, file] := fun option hoption => by
      rw [List.map_cons, List.map_singleton, spellSwitch_of_dash hoption,
        spellSwitch_of_none h.noSwitch]
    cases spelling with
    | short => exact hvalue "-k" rfl
    | long => exact hvalue "--keyfile" rfl
    | attached => exact congrArg (· :: []) (spellSwitch_of_dash (head?_append rfl file))
    | joined => exact congrArg (· :: []) (spellSwitch_of_dash (head?_append rfl file))
    | switch word =>
      refine congrArg (· :: []) ?_
      rw [spellSwitch, switchKey?_switch word.property h.nonempty h.oneLine]

/-- The texts of parts, and the image behind them. -/
def line (parts : List Part) (image : String) : List String := parts.flatMap Part.texts ++ [image]

lemma line_cons (part : Part) (parts : List Part) (image : String) :
    line (part :: parts) image = part.texts ++ line parts image := by
  rw [line, line, List.flatMap_cons, List.append_assoc]

lemma exists_line (parts : List Part) (image : String) :
    ∃ next rest, line parts image = next :: rest := by
  refine List.exists_cons_of_ne_nil ?_
  simp [line]

lemma spellSwitches_line {parts : List Part} (h : ∀ part ∈ parts, part.IsLegal) (image : String) :
    spellSwitches (line parts image) = line (parts.map Part.spelled) image := by
  rw [line, line, spellSwitches_append, List.map_flatMap, List.flatMap_map]
  congr 1
  exact List.flatMap_congr fun part hpart => Part.map_spellSwitch (h part hpart)

/-- A text that is neither an option nor a flag. -/
structure IsStray (text : String) : Prop where
  flag : isFlag text = false
  option : wantsKey text = false
  joined : holdsKey text = false

lemma ne_of_chars {chars : List Char} (h : text.toList = chars) (hne : chars ≠ word.toList) :
    (text == word) = false :=
  beq_eq_false_iff_ne.mpr fun heq => hne (heq ▸ h.symm)

lemma IsPlain.isStray (h : IsPlain text) : IsStray text := by
  have hne : ∀ option : String, option.toList.head? = some '-' → (text == option) = false :=
    fun option hoption => beq_eq_false_iff_ne.mpr fun heq => h.noOption (heq ▸ hoption)
  refine ⟨?_, ?_, ?_⟩
  · rw [isFlag, hne _ rfl, hne _ rfl]
    rfl
  · rw [wantsKey, hne _ rfl, hne _ rfl]
    rfl
  · refine Bool.eq_false_iff.mpr fun hprefix => h.noOption ?_
    obtain ⟨rest, hrest⟩ := String.startsWith_string_iff.mp hprefix
    rw [← hrest]
    rfl

lemma isStray_attached (h : key ≠ "") : IsStray ("-k" ++ key) := by
  have hchars := toList_attached key
  refine ⟨?_, ?_, ?_⟩
  · rw [isFlag, ne_of_chars hchars (by simp), ne_of_chars hchars (by simp)]
    rfl
  · rw [wantsKey, ne_of_chars hchars (by simpa using h), ne_of_chars hchars (by simp)]
    rfl
  · refine Bool.eq_false_iff.mpr fun hprefix => ?_
    obtain ⟨rest, hrest⟩ := String.startsWith_string_iff.mp hprefix
    rw [hchars] at hrest
    cases hrest

/-- How texts are counted: a flag, an option with its value, both in one, or a stray argument. -/
inductive Counts : (texts strays : List String) → (flag : Bool) → Prop
  | flag {text : String} (hflag : isFlag text) (hoption : wantsKey text = false) :
      Counts [text] [] true
  | option {option value : String} (hflag : isFlag option = false) (hoption : wantsKey option) :
      Counts [option, value] [] false
  | joined {text : String} (hflag : isFlag text = false) (hoption : wantsKey text = false)
      (hjoined : holdsKey text) : Counts [text] [] false
  | stray {text : String} (h : IsStray text) : Counts [text] [text] false

namespace Counts

variable {strays rest : List String} {flag : Bool}

lemma arity_append (h : Counts texts strays flag) (hrest : rest ≠ []) :
    arity (texts ++ rest) = arity rest + if flag then 0 else 1 := by
  obtain ⟨next, behind, rfl⟩ := List.exists_cons_of_ne_nil hrest
  cases h with
  | flag hflag hoption => simp [arity, hflag]
  | option hflag hoption => simp [arity, hflag, hoption]
  | joined hflag hoption hjoined => simp [arity, hflag, hoption]
  | stray h => simp [arity, h.flag, h.option]

lemma plain_append (h : Counts texts strays flag) (hrest : rest ≠ []) :
    plain (texts ++ rest) = strays ++ plain rest := by
  obtain ⟨next, behind, rfl⟩ := List.exists_cons_of_ne_nil hrest
  cases h with
  | flag hflag hoption => simp [plain, hflag, hoption]
  | option hflag hoption => simp [plain, hoption]
  | joined hflag hoption hjoined => simp [plain, hflag, hoption, hjoined]
  | stray h => simp [plain, h.flag, h.option, h.joined]

lemma dropPlain_flag (h : Counts texts strays true) (hrest : rest ≠ []) :
    dropPlain (texts ++ rest) = texts ++ dropPlain rest := by
  obtain ⟨next, behind, rfl⟩ := List.exists_cons_of_ne_nil hrest
  cases h with
  | flag hflag hoption => simp [dropPlain, hflag, hoption]

lemma dropPlain_stray {text : String} (h : Counts texts [text] flag) (hrest : rest ≠ []) :
    dropPlain (texts ++ rest) = rest := by
  obtain ⟨next, behind, rfl⟩ := List.exists_cons_of_ne_nil hrest
  cases h with
  | stray h => simp [dropPlain, h.flag, h.option, h.joined]

lemma strays_eq_nil (h : Counts texts strays true) : strays = [] := by
  cases h
  rfl

lemma exists_stray (h : Counts texts strays flag) (hne : strays ≠ []) :
    ∃ text, strays = [text] := by
  cases h with
  | flag => exact absurd rfl hne
  | option => exact absurd rfl hne
  | joined => exact absurd rfl hne
  | stray h => exact ⟨_, rfl⟩

end Counts

lemma counts_joined (file : String) : Counts ["--keyfile=" ++ file] [] false := by
  have hchars := toList_joined file
  refine .joined ?_ ?_ ?_
  · rw [isFlag, ne_of_chars hchars (by simp), ne_of_chars hchars (by simp)]
    rfl
  · rw [wantsKey, ne_of_chars hchars (by simp), ne_of_chars hchars (by simp)]
    rfl
  · exact String.startsWith_string_iff.mpr ⟨file.toList, String.toList_append.symm⟩

namespace Part

variable {part : Part}

/-- Whether the key is attached to the letter of its option. -/
def isAttached : Part → Bool
  | .key .attached _ => true
  | _ => false

/-- What the part adds to the arguments that are neither options nor their values. -/
def strays : Part → List String
  | .name text => [text]
  | .key .attached file => ["-k" ++ file]
  | _ => []

lemma counts (h : part.IsLegal) : Counts part.spelled.texts part.strays part.isVerbose := by
  cases part with
  | name text => exact .stray (IsPlain.isStray h)
  | verbose long => cases long <;> exact .flag (by decide) (by decide)
  | key spelling file =>
    cases spelling with
    | short => exact .option (by decide) (by decide)
    | attached => exact .stray (isStray_attached (IsPlain.nonempty h))
    | long => exact .option (by decide) (by decide)
    | joined => exact counts_joined file
    | switch word => exact counts_joined file

end Part

section Line

variable {parts : List Part}

lemma line_ne_nil (parts : List Part) (image : String) : line parts image ≠ [] := by simp [line]

lemma arity_line (h : ∀ part ∈ parts, part.IsLegal) (himage : IsPlain image) :
    arity (line (parts.map Part.spelled) image) = parts.countP (!·.isVerbose) + 1 := by
  induction parts with
  | nil => simp [line, arity, himage.isStray.flag]
  | cons part parts ih =>
    obtain ⟨hpart, hparts⟩ := List.forall_mem_cons.mp h
    rw [List.map_cons, line_cons, (Part.counts hpart).arity_append (line_ne_nil _ _), ih hparts,
      List.countP_cons]
    cases part.isVerbose <;> simp

lemma plain_line (h : ∀ part ∈ parts, part.IsLegal) (himage : IsPlain image) :
    plain (line (parts.map Part.spelled) image) = parts.flatMap Part.strays ++ [image] := by
  induction parts with
  | nil =>
    have hstray := himage.isStray
    simp [line, plain, hstray.flag, hstray.option, hstray.joined]
  | cons part parts ih =>
    obtain ⟨hpart, hparts⟩ := List.forall_mem_cons.mp h
    rw [List.map_cons, line_cons, (Part.counts hpart).plain_append (line_ne_nil _ _), ih hparts,
      List.flatMap_cons, List.append_assoc]

/-- The first part that is no flag goes, if only flags and stray arguments stand before the image. -/
lemma dropPlain_line (h : ∀ part ∈ parts, part.IsLegal)
    (hstrays : ∀ part ∈ parts, part.isVerbose = false → part.strays ≠ [])
    (hsome : ∃ part ∈ parts, part.isVerbose = false) :
    dropPlain (line (parts.map Part.spelled) image) =
      line ((parts.eraseP (!·.isVerbose)).map Part.spelled) image := by
  induction parts with
  | nil => simp at hsome
  | cons part parts ih =>
    obtain ⟨hpart, hparts⟩ := List.forall_mem_cons.mp h
    obtain ⟨hfirst, hothers⟩ := List.forall_mem_cons.mp hstrays
    have hcounts := Part.counts hpart
    rw [List.map_cons, line_cons]
    cases hverbose : part.isVerbose with
    | true =>
      rw [hverbose] at hcounts
      rw [List.eraseP_cons_of_neg (by simp [hverbose]), List.map_cons, line_cons,
        hcounts.dropPlain_flag (line_ne_nil _ _), ih hparts hothers]
      simpa [hverbose] using hsome
    | false =>
      rw [List.eraseP_cons_of_pos (by simp [hverbose])]
      obtain ⟨text, htext⟩ := hcounts.exists_stray (hfirst hverbose)
      rw [htext] at hcounts
      rw [hcounts.dropPlain_stray (line_ne_nil _ _)]

lemma filterMap_cons_toList {α β : Type} (f : α → Option β) (a : α) (as : List α) :
    (a :: as).filterMap f = (f a).toList ++ as.filterMap f := by
  rw [List.filterMap_cons]
  cases f a <;> rfl

end Line

namespace Arguments

variable {args : Arguments} {names : List String} {file : Option String} {verbose : Bool}
  {part : Part} {parts : List Part}

lemma foldlM_take_singleton (text : String) : [text].foldlM take args = args.take text := by
  rw [List.foldlM_cons]
  cases args.take text <;> rfl

/-- A part is taken in, unless an attached value is refused. -/
lemma Says.take_part (h : args.Says names file verbose) (hlegal : part.IsLegal)
    (hnames : names.length + part.name?.toList.length ≤ 3)
    (hfile : file.isSome.toNat + part.key?.toList.length ≤ 1)
    (hverbose : (verbose && part.isVerbose) = false) :
    (part.isAttached ∧ ∃ e, part.spelled.texts.foldlM take args = .error e) ∨
      ∃ next value, part.spelled.texts.foldlM take args = .ok next ∧
        next.Says (names ++ part.name?.toList) value (verbose || part.isVerbose) ∧
        (part.isAttached = false → value = (part.key?.map Prod.snd).or file) ∧
        (part.key? = none → value = file) := by
  cases part with
  | name text =>
    obtain ⟨next, htake, hnext⟩ := h.take_name hnames hlegal
    refine .inr ⟨next, file, ?_, by simpa [Part.name?, Part.isVerbose] using hnext,
      fun _ => rfl, fun _ => rfl⟩
    exact (foldlM_take_singleton text).trans htake
  | verbose long =>
    obtain rfl : verbose = false := by simpa [Part.isVerbose] using hverbose
    obtain ⟨next, htake, hnext⟩ := h.take_verbose long
    refine .inr ⟨next, file, ?_, by simpa [Part.name?, Part.isVerbose] using hnext,
      fun _ => rfl, fun _ => rfl⟩
    exact (foldlM_take_singleton _).trans htake
  | key spelling text =>
    obtain rfl : file = none := by
      cases file with
      | none => rfl
      | some f => simp [Part.key?] at hfile
    simp only [Part.name?, Part.key?, Part.isVerbose, Option.toList_none, List.append_nil,
      Bool.or_false, Option.map_some, Option.some_or, reduceCtorEq, false_imp_iff, and_true]
    have hjoined : ∃ next value, ["--keyfile=" ++ text].foldlM take args = .ok next ∧
        next.Says names value verbose ∧ value = some text := by
      obtain ⟨next, htake, hnext⟩ := h.take_joined hlegal
      exact ⟨next, _, (foldlM_take_singleton _).trans htake, hnext, rfl⟩
    have hvalue : ∀ option : String, args.take option = args.startKey →
        ∃ next value, [option, text].foldlM take args = .ok next ∧
          next.Says names value verbose ∧ value = some text := by
      intro option hoption
      obtain ⟨next, htake, hnext⟩ := h.take_value hoption hlegal
      exact ⟨next, _, htake, hnext, rfl⟩
    cases spelling with
    | short =>
      have hletter : args.take "-k" = args.takeLetters ['k'] :=
        take_letters h.ended_eq rfl (by decide)
      obtain ⟨next, value, htake, hnext, heq⟩ := hvalue "-k" hletter
      exact .inr ⟨next, value, htake, hnext, fun _ => heq⟩
    | long =>
      have hword : args.take "--keyfile" = args.takeWord keyOption := take_word h.ended_eq rfl
      obtain ⟨next, value, htake, hnext, heq⟩ := hvalue "--keyfile" hword
      exact .inr ⟨next, value, htake, hnext, fun _ => heq⟩
    | joined =>
      obtain ⟨next, value, htake, hnext, heq⟩ := hjoined
      exact .inr ⟨next, value, htake, hnext, fun _ => heq⟩
    | switch word =>
      obtain ⟨next, value, htake, hnext, heq⟩ := hjoined
      exact .inr ⟨next, value, htake, hnext, fun _ => heq⟩
    | attached =>
      rcases h.take_attached (IsPlain.nonempty hlegal) with ⟨e, he⟩ | ⟨next, value, htake, hnext⟩
      · exact .inl ⟨rfl, e, (foldlM_take_singleton _).trans he⟩
      · exact .inr ⟨next, _, (foldlM_take_singleton _).trans htake, hnext, nofun⟩

/-- Parts are taken in one after the other, unless an attached value is refused. -/
lemma Says.take_parts (h : args.Says names file verbose) (hlegal : ∀ part ∈ parts, part.IsLegal)
    (hnames : names.length + (parts.filterMap Part.name?).length ≤ 3)
    (hfile : file.isSome.toNat + (parts.filterMap Part.key?).length ≤ 1)
    (hverbose : verbose.toNat + parts.countP Part.isVerbose ≤ 1) :
    (parts.any Part.isAttached ∧
      ∃ e, (parts.flatMap fun part => part.spelled.texts).foldlM take args = .error e) ∨
    ∃ next value, (parts.flatMap fun part => part.spelled.texts).foldlM take args = .ok next ∧
      next.Says (names ++ parts.filterMap Part.name?) value (verbose || parts.any Part.isVerbose) ∧
      (parts.any Part.isAttached = false →
        value = ((parts.filterMap Part.key?).head?.map Prod.snd).or file) := by
  induction parts generalizing args names file verbose with
  | nil => exact .inr ⟨args, file, rfl, by simpa using h, fun _ => rfl⟩
  | cons part parts ih =>
    obtain ⟨hpart, hparts⟩ := List.forall_mem_cons.mp hlegal
    rw [filterMap_cons_toList, List.length_append] at hnames hfile
    rw [List.countP_cons] at hverbose
    have hflag : (verbose && part.isVerbose) = false := by
      by_contra hboth
      obtain ⟨rfl, hpart⟩ := Bool.and_eq_true_iff.mp (Bool.not_eq_false _ ▸ hboth)
      rw [if_pos hpart, Bool.toNat_true] at hverbose
      omega
    simp only [List.flatMap_cons, List.foldlM_append, filterMap_cons_toList, List.any_cons,
      Bool.or_eq_true, Bool.or_eq_false_iff]
    rcases h.take_part hpart (by omega) (by omega) hflag with
      ⟨hattached, e, he⟩ | ⟨between, value, htake, hsays, hvalue, hkept⟩
    · rw [he]
      exact .inl ⟨.inl hattached, e, rfl⟩
    · rw [htake]
      have hroom : value.isSome.toNat + (parts.filterMap Part.key?).length ≤ 1 := by
        cases hkey : part.key? with
        | none =>
          rw [hkept hkey]
          omega
        | some key =>
          rw [hkey, Option.toList_some, List.length_singleton] at hfile
          have := value.isSome.toNat_le
          omega
      have hflags : (verbose || part.isVerbose).toNat + parts.countP Part.isVerbose ≤ 1 := by
        have hsum : (verbose || part.isVerbose).toNat =
            verbose.toNat + if part.isVerbose then 1 else 0 := by
          revert hflag
          cases verbose <;> cases part.isVerbose <;> simp
        omega
      rcases ih hsays hparts (by simp; omega) hroom hflags with
        ⟨hattached, e, he⟩ | ⟨next, last, hrest, hnext, hlast⟩
      · exact .inl ⟨.inr hattached, e, he⟩
      · refine .inr ⟨next, last, hrest, ?_, ?_⟩
        · simpa [Bool.or_assoc] using hnext
        · rintro ⟨hfirst, hothers⟩
          rw [hlast hothers, hvalue hfirst]
          cases hkey : part.key? with
          | none => rfl
          | some key =>
            have hnone : parts.filterMap Part.key? = [] := by
              rw [hkey, Option.toList_some, List.length_singleton] at hfile
              exact List.length_eq_zero_iff.mp (by omega)
            rw [hnone]
            rfl

end Arguments

section Line

variable {parts : List Part} {part : Part}

lemma parse_line (hlegal : ∀ part ∈ parts, part.IsLegal) (himage : IsPlain image)
    (hnames : (parts.filterMap Part.name?).length ≤ 2)
    (hkeys : (parts.filterMap Part.key?).length ≤ 1) (hverbose : parts.countP Part.isVerbose ≤ 1) :
    (parts.any Part.isAttached ∧
      ∃ e, Arguments.parse (line (parts.map Part.spelled) image) = .error e) ∨
    ∃ value, Arguments.parse (line (parts.map Part.spelled) image) =
        .ok ⟨parts.filterMap Part.name? ++ [image], value, parts.any Part.isVerbose, none, false⟩ ∧
      (parts.any Part.isAttached = false →
        value = (parts.filterMap Part.key?).head?.map Prod.snd) := by
  have hstart : Arguments.empty.Says [] none false := .settled
  have htexts : line (parts.map Part.spelled) image =
      parts.flatMap (fun part => part.spelled.texts) ++ [image] := by
    rw [line, List.flatMap_map]
  rw [htexts, Arguments.parse, List.foldlM_append]
  rcases hstart.take_parts hlegal (by simp; omega) (by simpa using hkeys)
      (by simpa using hverbose) with
    ⟨hattached, e, he⟩ | ⟨between, value, hparts, hsays, hvalue⟩
  · rw [he]
    exact .inl ⟨hattached, e, rfl⟩
  · rw [List.nil_append, Bool.false_or] at hsays
    obtain ⟨last, htake, hlast⟩ := hsays.take_name (by omega) himage
    rw [hparts]
    refine .inr ⟨value, ?_, fun hnone => by rw [hvalue hnone, Option.or_none]⟩
    have hfold : [image].foldlM Arguments.take between = .ok last :=
      (Arguments.foldlM_take_singleton image).trans htake
    simp only [bind, Except.bind, hfold]
    exact hlast.settle_eq

/-- Flags aside, a part is a name or a key. -/
lemma countP_not_isVerbose (parts : List Part) : parts.countP (!·.isVerbose) =
    (parts.filterMap Part.name?).length + (parts.filterMap Part.key?).length := by
  induction parts with
  | nil => rfl
  | cons part parts ih =>
    rw [List.countP_cons, ih, filterMap_cons_toList, filterMap_cons_toList]
    cases part <;> simp [Part.name?, Part.key?, Part.isVerbose] <;> omega

lemma flatMap_strays (h : parts.any Part.isAttached = false) :
    parts.flatMap Part.strays = parts.filterMap Part.name? := by
  induction parts with
  | nil => rfl
  | cons part parts ih =>
    rw [List.any_cons, Bool.or_eq_false_iff] at h
    obtain ⟨hpart, hparts⟩ := h
    rw [List.flatMap_cons, ih hparts, filterMap_cons_toList]
    congr 1
    cases part with
    | name text => rfl
    | verbose long => rfl
    | key spelling file =>
      cases spelling with
      | attached => cases hpart
      | short => rfl
      | long => rfl
      | joined => rfl
      | switch word => rfl

lemma length_flatMap_strays (hlegal : ∀ part ∈ parts, part.IsLegal)
    (hstrays : ∀ part ∈ parts, part.isVerbose = false → part.strays ≠ []) :
    (parts.flatMap Part.strays).length = parts.countP (!·.isVerbose) := by
  induction parts with
  | nil => rfl
  | cons part parts ih =>
    obtain ⟨hpart, hparts⟩ := List.forall_mem_cons.mp hlegal
    obtain ⟨hfirst, hothers⟩ := List.forall_mem_cons.mp hstrays
    rw [List.flatMap_cons, List.length_append, ih hparts hothers, List.countP_cons]
    have hcounts := Part.counts hpart
    cases hverbose : part.isVerbose with
    | true =>
      rw [hverbose] at hcounts
      simp [hcounts.strays_eq_nil]
    | false =>
      obtain ⟨text, htext⟩ := hcounts.exists_stray (hfirst hverbose)
      simp [htext, Nat.add_comm]

/-- What the first part that is no flag adds to a list stands in front of what the others add. -/
lemma filterMap_eraseP {α : Type} {f : Part → Option α} (hf : ∀ part, part.isVerbose → f part = none)
    (hfirst : parts.find? (!·.isVerbose) = some part) :
    parts.filterMap f = (f part).toList ++ (parts.eraseP (!·.isVerbose)).filterMap f := by
  induction parts with
  | nil => cases hfirst
  | cons next parts ih =>
    cases hverbose : next.isVerbose with
    | true =>
      rw [List.find?_cons_of_neg (by simp [hverbose])] at hfirst
      rw [List.eraseP_cons_of_neg (by simp [hverbose]), List.filterMap_cons_none (hf _ hverbose),
        List.filterMap_cons_none (hf _ hverbose), ih hfirst]
    | false =>
      rw [List.find?_cons_of_pos (by simp [hverbose])] at hfirst
      cases hfirst
      rw [List.eraseP_cons_of_pos (by simp [hverbose]), filterMap_cons_toList]

lemma any_eraseP (parts : List Part) :
    (parts.eraseP (!·.isVerbose)).any Part.isVerbose = parts.any Part.isVerbose := by
  induction parts with
  | nil => rfl
  | cons part parts ih =>
    cases hverbose : part.isVerbose with
    | true => rw [List.eraseP_cons_of_neg (by simp [hverbose]), List.any_cons, List.any_cons, ih]
    | false => rw [List.eraseP_cons_of_pos (by simp [hverbose]), List.any_cons, hverbose, Bool.false_or]

lemma not_mem_helpRequests {chars : List Char} (h : text.toList = chars)
    (hne : ∀ request ∈ helpRequests, chars ≠ request.toList) : text ∉ helpRequests :=
  fun hmem => hne _ hmem h.symm

lemma IsSwitch.chars (h : IsSwitch word) : ∃ first letter rest,
    word.toList = first :: letter :: rest ∧ (letter = 'k' ∨ letter = 'k'.toUpper) := by
  obtain ⟨lower, hlower, hcase⟩ := h
  have hbegin : ∃ rest, lower.toList = '/' :: 'k' :: rest := by
    simp only [switches, List.mem_cons, List.not_mem_nil, or_false] at hlower
    rcases hlower with rfl | rfl <;> exact ⟨_, rfl⟩
  obtain ⟨rest, hbegin⟩ := hbegin
  rw [hbegin] at hcase
  obtain ⟨first, _, -, hletters, heq⟩ := List.forall₂_cons_left_iff.mp hcase
  obtain ⟨letter, rest, hletter, -, rfl⟩ := List.forall₂_cons_left_iff.mp hletters
  exact ⟨first, letter, rest, heq, hletter⟩

/-- No part begins with a request for help. -/
lemma Part.noHelp (h : part.IsLegal) :
    ∃ first rest, part.texts = first :: rest ∧ first ∉ helpRequests := by
  cases part with
  | name text => exact ⟨text, [], rfl, h.noHelp⟩
  | verbose long => cases long <;> exact ⟨_, [], rfl, by decide⟩
  | key spelling file =>
    cases spelling with
    | short => exact ⟨_, _, rfl, by decide⟩
    | long => exact ⟨_, _, rfl, by decide⟩
    | attached =>
      exact ⟨_, _, rfl, not_mem_helpRequests (toList_attached file) (by simp [helpRequests])⟩
    | joined =>
      exact ⟨_, _, rfl, not_mem_helpRequests (toList_joined file) (by simp [helpRequests])⟩
    | switch word =>
      obtain ⟨first, letter, rest, hchars, hletter⟩ := word.property.chars
      have hword : (word.val ++ file).toList = first :: letter :: (rest ++ file.toList) := by
        rw [String.toList_append, hchars]
        rfl
      refine ⟨_, _, rfl, not_mem_helpRequests hword ?_⟩
      rcases hletter with rfl | rfl <;> simp [helpRequests]

lemma helpRequests_line (h : ∀ part ∈ parts, part.IsLegal) (hparts : parts ≠ []) :
    (line parts image).head?.any (helpRequests.contains ·) = false := by
  obtain ⟨part, parts, rfl⟩ := List.exists_cons_of_ne_nil hparts
  obtain ⟨first, rest, htexts, hfirst⟩ := Part.noHelp (h part List.mem_cons_self)
  rw [line_cons, htexts, List.cons_append, List.head?_cons, Option.any_some]
  simpa using hfirst

end Line

section Key

variable {parts : List Part} {typeName methodName image file : String} {spelling : Spelling}

lemma isLegal_of_names (hnames : parts.filterMap Part.name? = [typeName, methodName])
    (hkeys : parts.filterMap Part.key? = [(spelling, file)])
    (hplain : ∀ text ∈ [typeName, methodName, image, file], IsPlain text) :
    ∀ part ∈ parts, part.IsLegal := by
  intro part hpart
  cases part with
  | name text =>
    have htext : text ∈ parts.filterMap Part.name? := List.mem_filterMap.mpr ⟨_, hpart, rfl⟩
    rw [hnames] at htext
    refine hplain text ?_
    simp only [List.mem_cons, List.not_mem_nil, or_false] at htext ⊢
    tauto
  | verbose long => trivial
  | key spelling' file' =>
    have htext : (spelling', file') ∈ parts.filterMap Part.key? :=
      List.mem_filterMap.mpr ⟨_, hpart, rfl⟩
    rw [hkeys, List.mem_singleton] at htext
    cases htext
    exact hplain file (by simp)

/-- A line with three names and a key is four arguments: it is interpreted, without its first stray
argument if there are more than three. -/
lemma parse_eq_invoke (hlegal : ∀ part ∈ parts, part.IsLegal) (himage : IsPlain image)
    (hnames : parts.filterMap Part.name? = [typeName, methodName])
    (hkeys : parts.filterMap Part.key? = [(spelling, file)]) :
    parse (line parts image) =
      if 2 < (parts.flatMap Part.strays).length then
        invoke (dropPlain (line (parts.map Part.spelled) image))
      else invoke (line (parts.map Part.spelled) image) := by
  have hparts : parts ≠ [] := by
    rintro rfl
    cases hnames
  have harity : arity (line (parts.map Part.spelled) image) = 4 := by
    rw [arity_line hlegal himage, countP_not_isVerbose, hnames, hkeys]
    rfl
  rw [parse, helpRequests_line hlegal hparts, if_neg Bool.false_ne_true]
  simp only [spellSwitches_line hlegal, harity, plain_line hlegal himage, List.length_append,
    List.length_singleton]
  rw [if_neg (by decide)]
  by_cases hstrays : 2 < (parts.flatMap Part.strays).length
  · rw [if_pos hstrays, if_pos (by omega)]
  · rw [if_neg hstrays, if_neg (by omega)]

lemma exists_key_of_isAttached {part : Part} (h : part.isAttached) :
    ∃ file, part = .key .attached file := by
  cases part with
  | name text => cases h
  | verbose long => cases h
  | key spelling file =>
    cases spelling with
    | attached => exact ⟨file, rfl⟩
    | short => cases h
    | long => cases h
    | joined => cases h
    | switch word => cases h

lemma any_isAttached_eq_false (h : ∀ file, (.attached, file) ∉ parts.filterMap Part.key?) :
    parts.any Part.isAttached = false := by
  refine Bool.eq_false_iff.mpr fun hany => ?_
  obtain ⟨part, hpart, hattached⟩ := List.any_eq_true.mp hany
  obtain ⟨file, rfl⟩ := exists_key_of_isAttached hattached
  exact h file (List.mem_filterMap.mpr ⟨_, hpart, rfl⟩)

lemma strays_ne_nil (hkeys : parts.filterMap Part.key? = [(.attached, file)]) :
    ∀ part ∈ parts, part.isVerbose = false → part.strays ≠ [] := by
  intro part hpart hverbose
  cases part with
  | name text => exact List.cons_ne_nil _ _
  | verbose long => cases hverbose
  | key spelling file' =>
    have hmem : (spelling, file') ∈ parts.filterMap Part.key? :=
      List.mem_filterMap.mpr ⟨_, hpart, rfl⟩
    rw [hkeys, List.mem_singleton] at hmem
    cases hmem
    exact List.cons_ne_nil _ _

/-- Two names and the image make a patch. -/
lemma invoke_line (hlegal : ∀ part ∈ parts, part.IsLegal) (himage : IsPlain image)
    (hnames : parts.filterMap Part.name? = [typeName, methodName])
    (hkeys : (parts.filterMap Part.key?).length ≤ 1) (hverbose : parts.countP Part.isVerbose ≤ 1)
    (hnone : parts.any Part.isAttached = false) :
    invoke (line (parts.map Part.spelled) image) =
      .patch ⟨typeName, methodName, image, (parts.filterMap Part.key?).head?.map Prod.snd⟩
        (parts.any Part.isVerbose) := by
  rcases parse_line hlegal himage (by simp [hnames]) hkeys hverbose with
    ⟨hsome, -⟩ | ⟨value, hargs, hvalue⟩
  · rw [hnone] at hsome
    cases hsome
  · rw [invoke, hargs, hnames, hvalue hnone]
    rfl

/-- One name and the image are too few. -/
lemma invoke_line_short (hlegal : ∀ part ∈ parts, part.IsLegal) (himage : IsPlain image)
    (hnames : parts.filterMap Part.name? = [methodName])
    (hkeys : (parts.filterMap Part.key?).length ≤ 1)
    (hverbose : parts.countP Part.isVerbose ≤ 1) :
    ∃ e, invoke (line (parts.map Part.spelled) image) = .usage e := by
  rcases parse_line hlegal himage (by simp [hnames]) hkeys hverbose with
    ⟨-, e, he⟩ | ⟨value, hargs, -⟩
  · exact ⟨e, by rw [invoke, he]⟩
  · rw [hnames] at hargs
    exact ⟨.missingRequiredArgument, by rw [invoke, hargs]; rfl⟩

/-- A key that is not attached to its option is used. -/
lemma parse_of_not_attached (hlegal : ∀ part ∈ parts, part.IsLegal) (himage : IsPlain image)
    (hnames : parts.filterMap Part.name? = [typeName, methodName])
    (hkeys : parts.filterMap Part.key? = [(spelling, file)])
    (hverbose : parts.countP Part.isVerbose ≤ 1) (hspelling : spelling ≠ .attached) :
    parse (line parts image) =
      .patch ⟨typeName, methodName, image, some file⟩ (parts.any Part.isVerbose) := by
  have hnone : parts.any Part.isAttached = false := any_isAttached_eq_false fun file' hmem => by
    rw [hkeys, List.mem_singleton] at hmem
    exact hspelling (congrArg Prod.fst hmem).symm
  have hfew : ¬ 2 < (parts.flatMap Part.strays).length := by simp [flatMap_strays hnone, hnames]
  rw [parse_eq_invoke hlegal himage hnames hkeys, if_neg hfew,
    invoke_line hlegal himage hnames (by simp [hkeys]) hverbose hnone, hkeys]
  rfl

/-- With an attached key the first part that is no flag is left out as a stray argument. -/
lemma parse_of_attached (hlegal : ∀ part ∈ parts, part.IsLegal) (himage : IsPlain image)
    (hnames : parts.filterMap Part.name? = [typeName, methodName])
    (hkeys : parts.filterMap Part.key? = [(.attached, file)])
    (hverbose : parts.countP Part.isVerbose ≤ 1) :
    if (parts.find? (!·.isVerbose)).any Part.isAttached then
      parse (line parts image) =
        .patch ⟨typeName, methodName, image, none⟩ (parts.any Part.isVerbose)
    else ∃ e, parse (line parts image) = .usage e := by
  have hstrays := strays_ne_nil hkeys
  have hmany : 2 < (parts.flatMap Part.strays).length := by
    rw [length_flatMap_strays hlegal hstrays, countP_not_isVerbose, hnames, hkeys]
    exact Nat.lt_succ_self 2
  have hpositive : 0 < parts.countP (!·.isVerbose) := by
    rw [countP_not_isVerbose, hnames, hkeys]
    exact Nat.succ_pos 2
  obtain ⟨part, hpart, hflag⟩ := List.countP_pos_iff.mp hpositive
  have hfound : (parts.find? (!·.isVerbose)).isSome := List.find?_isSome.mpr ⟨part, hpart, hflag⟩
  obtain ⟨first, hfirst⟩ := Option.isSome_iff_exists.mp hfound
  have hnone : ∀ part : Part, part.isVerbose → part.name? = none ∧ part.key? = none := by
    intro part h
    cases part with
    | verbose long => exact ⟨rfl, rfl⟩
    | name text => cases h
    | key spelling file => cases h
  have hname := filterMap_eraseP (fun part h => (hnone part h).1) hfirst
  have hkey := filterMap_eraseP (fun part h => (hnone part h).2) hfirst
  have hothers : ∀ part ∈ parts.eraseP (!·.isVerbose), part.IsLegal := fun part hpart =>
    hlegal part (List.mem_of_mem_eraseP hpart)
  have hflags : (parts.eraseP (!·.isVerbose)).countP Part.isVerbose ≤ 1 :=
    List.eraseP_sublist.countP_le.trans hverbose
  rw [parse_eq_invoke hlegal himage hnames hkeys, if_pos hmany,
    dropPlain_line hlegal hstrays ⟨part, hpart, by simpa using hflag⟩, hfirst, Option.any_some,
    ← any_eraseP parts]
  rw [hnames] at hname
  rw [hkeys] at hkey
  generalize parts.eraseP (!·.isVerbose) = others at hname hkey hothers hflags ⊢
  cases first with
  | verbose long => simpa [Part.isVerbose] using List.find?_some hfirst
  | name text =>
    obtain ⟨-, hname⟩ := List.cons_eq_cons.mp hname
    have hlength : (others.filterMap Part.key?).length = 1 := congrArg List.length hkey.symm
    exact invoke_line_short hothers himage hname.symm hlength.le hflags
  | key spelling file' =>
    obtain ⟨heq, hrest⟩ := List.cons_eq_cons.mp hkey
    cases heq
    have hnoKey : others.filterMap Part.key? = [] := hrest.symm
    have hattached : others.any Part.isAttached = false :=
      any_isAttached_eq_false fun file hmem => List.not_mem_nil (hnoKey ▸ hmem)
    have hpatch := invoke_line hothers himage hname.symm (by simp [hnoKey]) hflags hattached
    rw [hnoKey] at hpatch
    exact hpatch

/-- What a command line with a key asks for. The key is used unless it is attached to its option:
then it counts as a stray argument, and so the line has four of them. If it comes before the names
it is left out, and the patch has no key; otherwise a name is left out, and nothing is patched. -/
theorem parse_line_of_key
    (hnames : parts.filterMap Part.name? = [typeName, methodName])
    (hkeys : parts.filterMap Part.key? = [(spelling, file)])
    (hverbose : parts.countP Part.isVerbose ≤ 1)
    (hplain : ∀ text ∈ [typeName, methodName, image, file], IsPlain text) :
    (spelling ≠ .attached → parse (line parts image) =
      .patch ⟨typeName, methodName, image, some file⟩ (parts.any Part.isVerbose)) ∧
    (spelling = .attached →
      if (parts.find? (!·.isVerbose)).any Part.isAttached then
        parse (line parts image) =
          .patch ⟨typeName, methodName, image, none⟩ (parts.any Part.isVerbose)
      else ∃ e, parse (line parts image) = .usage e) := by
  have hlegal := isLegal_of_names hnames hkeys hplain
  have himage : IsPlain image := hplain image (by simp)
  constructor
  · exact parse_of_not_attached hlegal himage hnames hkeys hverbose
  · rintro rfl
    exact parse_of_attached hlegal himage hnames hkeys hverbose

/-- An attached key in front of the names is dropped. -/
theorem parse_dropped :
    parse ["-kF", "T", "M", "a.dll"] = .patch ⟨"T", "M", "a.dll", none⟩ false := by
  have hplain : ∀ text ∈ ["T", "M", "a.dll", "F"], IsPlain text := by
    have hall : ∀ text ∈ ["T", "M", "a.dll", "F"], text ≠ "" ∧ text.toList.head? ≠ some '-' ∧
        '\n' ∉ text.toList ∧ text ∉ helpRequests ∧ switchKey? text = none := by decide +kernel
    intro text htext
    obtain ⟨hempty, hoption, hline, hhelp, hswitch⟩ := hall text htext
    exact ⟨hempty, hoption, hline, hhelp, hswitch⟩
  have hverbose : [Part.key .attached "F", .name "T", .name "M"].countP Part.isVerbose ≤ 1 := by
    decide
  exact (parse_line_of_key rfl rfl hverbose hplain).2 rfl

end Key

end CliImage.CommandLine
