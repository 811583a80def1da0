import Lsd.Boot.CpuData

/-!
# Parsing the extensions

What `parse_str` makes of a string of letters and names. Each letter and each
name adds its flag, so the result is a supremum and does not depend on their
order. The name behind the last underscore is looked up at the end, also when
there is no underscore: a string without names has an empty one, which is not
known.
-/

namespace Lsd

namespace CpuData

/-- Extensions are joined by their bits. -/
instance : Max CpuData := ⟨set⟩

/-- Extensions are equal when their bits are. -/
theorem ext_bits {left right : CpuData} (same : left.bits = right.bits) : left = right := by
  cases left
  cases right
  congr

/-- Sets of extensions are ordered by inclusion. -/
instance : SemilatticeSup CpuData := SemilatticeSup.mk'
  (fun _ _ => ext_bits (UInt64.or_comm ..))
  (fun _ _ _ => ext_bits (UInt64.or_assoc ..))
  (fun _ => ext_bits UInt64.or_self)

/-- No extensions are included in all. -/
instance : OrderBot CpuData where
  bot := empty
  bot_le _ := ext_bits UInt64.zero_or

section Lookup

variable {α : Type} (find : α → Option CpuData) (report : α → Stop)

/-- Add the flag of something that is looked up. -/
def setFound (data : CpuData) (key : α) : Except Stop CpuData :=
  match find key with
  | some flag => .ok (data.set flag)
  | none => .error (report key)

/-- The union of the flags that are found. -/
def union (keys : List α) : CpuData := (keys.filterMap find).toFinset.sup id

variable {find report}

/-- Known keys add the union of their flags. -/
theorem foldlM_known {keys : List α} (known : ∀ key ∈ keys, (find key).isSome) (data : CpuData) :
    keys.foldlM (setFound find report) data = .ok (data ⊔ union find keys) := by
  induction keys generalizing data with
  | nil => exact congrArg Except.ok (sup_bot_eq data).symm
  | cons key keys ih =>
    obtain ⟨flag, found⟩ := Option.isSome_iff_exists.mp (known key List.mem_cons_self)
    have rest := ih (fun other listed => known other (List.mem_cons_of_mem _ listed)) (data ⊔ flag)
    have first : setFound find report data key = .ok (data ⊔ flag) := by
      rw [setFound, found]
      rfl
    have joined : union find (key :: keys) = flag ⊔ union find keys := by
      rw [union, List.filterMap_cons_some found, List.toFinset_cons, Finset.sup_insert]
      rfl
    rw [List.foldlM_cons, first, joined, ← sup_assoc]
    exact rest

/-- All keys are known, or one is not. -/
theorem known_or_unknown (find : α → Option CpuData) (keys : List α) :
    (∀ key ∈ keys, (find key).isSome) ∨ ∃ key ∈ keys, find key = none := by
  by_cases unknown : ∃ key ∈ keys, find key = none
  · exact .inr unknown
  · exact .inl fun key listed =>
      Option.ne_none_iff_isSome.mp fun none => unknown ⟨key, listed, none⟩

/-- An unknown key is reported. -/
theorem foldlM_unknown {keys : List α} (unknown : ∃ key ∈ keys, find key = none) (data : CpuData) :
    ∃ key, keys.foldlM (setFound find report) data = .error (report key) := by
  induction keys generalizing data with
  | nil =>
    obtain ⟨key, listed, -⟩ := unknown
    nomatch listed
  | cons key keys ih =>
    rw [List.foldlM_cons]
    cases found : find key with
    | none =>
      refine ⟨key, ?_⟩
      rw [setFound, found]
      rfl
    | some flag =>
      have later : ∃ other ∈ keys, find other = none := by
        obtain ⟨other, listed, missing⟩ := unknown
        rcases List.mem_cons.mp listed with rfl | listed
        · rw [found] at missing
          nomatch missing
        · exact ⟨other, listed, missing⟩
      obtain ⟨reported, ran⟩ := ih later (data.set flag)
      refine ⟨reported, ?_⟩
      rw [setFound, found]
      exact ran

end Lookup

/-- The letters of a string, and the names behind its underscores. -/
def spelled (letters : List Char) (names : List String) : List Char :=
  letters ++ names.flatMap fun name => '_' :: name.toList

variable {letters : List Char} {names : List String} {data : CpuData}

/-- Letters add their flags. -/
theorem scan_letters (single : '_' ∉ letters) :
    letters.foldlM Scan.step ⟨data, true, ""⟩ =
      (letters.foldlM (setFound letter (unrecognized ·.quote)) data).map (⟨·, true, ""⟩) := by
  induction letters generalizing data with
  | nil => rfl
  | cons character letters ih =>
    have here := List.ne_of_not_mem_cons single
    have later := List.not_mem_of_not_mem_cons single
    rw [List.foldlM_cons, List.foldlM_cons, Scan.step, if_pos rfl, if_neg (Ne.symm here), setFound]
    cases letter character with
    | none => rfl
    | some flag => exact ih later

/-- The characters of a name are gathered. -/
theorem scan_name {name : List Char} (whole : '_' ∉ name) (buffer : String) :
    name.foldlM Scan.step ⟨data, false, buffer⟩ =
      .ok ⟨data, false, String.ofList (buffer.toList ++ name)⟩ := by
  induction name generalizing buffer with
  | nil =>
    rw [List.append_nil, String.ofList_toList]
    rfl
  | cons character name ih =>
    have here := List.ne_of_not_mem_cons whole
    have next := ih (List.not_mem_of_not_mem_cons whole) (buffer.push character)
    rw [String.toList_push, List.append_assoc] at next
    rw [List.foldlM_cons, Scan.step, if_neg Bool.false_ne_true, if_neg (Ne.symm here)]
    exact next

/-- Behind an underscore a name is gathered. -/
theorem gather_name {name : String} (whole : '_' ∉ name.toList) :
    name.toList.foldlM Scan.step ⟨data, false, ""⟩ = .ok ⟨data, false, name⟩ := by
  rw [scan_name whole, String.toList_empty, List.nil_append, String.ofList_toList]

/-- The end of `parse_str`. -/
def finish (scanned : Except Stop Scan) : Except Stop CpuData := do
  let scan ← scanned
  scan.newself.setFromStr scan.characterBuffer

/-- The names are looked up in their order, each when the next one begins, and the last at the
end. -/
theorem scan_names (whole : ∀ name ∈ names, '_' ∉ name.toList) (name : String) :
    finish ((names.flatMap fun name => '_' :: name.toList).foldlM Scan.step ⟨data, false, name⟩) =
      (name :: names).foldlM setFromStr data := by
  induction names generalizing data name with
  | nil =>
    rw [List.foldlM_cons]
    exact (bind_pure _).symm
  | cons next names ih =>
    have later := fun other listed => whole other (List.mem_cons_of_mem next listed)
    rw [List.foldlM_cons, List.flatMap_cons, List.cons_append, List.foldlM_cons, Scan.step,
      if_neg Bool.false_ne_true, if_pos rfl]
    dsimp only
    cases setFromStr data name with
    | error reason => rfl
    | ok data =>
      change finish ((next.toList ++ _).foldlM Scan.step ⟨data, false, ""⟩) = _
      rw [List.foldlM_append, gather_name (whole next List.mem_cons_self)]
      exact ih later next

/-- What `parse_str` looks up behind the letters: an empty name when there is none. -/
def lookedUp (names : List String) : List String := if names = [] then [""] else names

/-- The letters are added first, and then the names. -/
theorem scan_spelled (single : '_' ∉ letters) (whole : ∀ name ∈ names, '_' ∉ name.toList) :
    finish ((spelled letters names).foldlM Scan.step ⟨data, true, ""⟩) =
      letters.foldlM (setFound letter (unrecognized ·.quote)) data >>=
        (lookedUp names).foldlM setFromStr := by
  rw [spelled, List.foldlM_append, scan_letters single]
  cases letters.foldlM (setFound letter (unrecognized ·.quote)) data with
  | error reason => rfl
  | ok data =>
    cases names with
    | nil => exact (bind_pure _).symm
    | cons name names =>
      change finish ((name.toList ++ _).foldlM Scan.step ⟨data, false, ""⟩) = _
      rw [List.foldlM_append, gather_name (whole name List.mem_cons_self)]
      exact scan_names (fun other listed => whole other (List.mem_cons_of_mem _ listed)) name

/-- Nothing is trimmed from a string without the prefix. -/
theorem trimStartMatches_of_not_prefix {string : List Char}
    (other : ¬ ['r', 'v', '6', '4'] <+: string) : trimStartMatches string = string := by
  rw [trimStartMatches]
  intro rest same
  exact other ⟨rest, same.symm⟩

/-- A pattern without underscores at the start of a string is in its letters. -/
theorem prefix_letters {pattern : List Char} (plain : '_' ∉ pattern)
    (starts : pattern <+: spelled letters names) : pattern <+: letters := by
  obtain ⟨rest, same⟩ := starts
  rcases List.append_eq_append_iff.mp same with ⟨more, inside, -⟩ | ⟨beyond, ends, tail⟩
  · exact ⟨more, inside.symm⟩
  · cases beyond with
    | nil => exact ⟨[], by rw [ends, List.append_nil, List.append_nil]⟩
    | cons first beyond =>
      cases names with
      | nil => nomatch tail
      | cons name names =>
        -- the names begin with an underscore
        obtain rfl : '_' = first := List.head_eq_of_cons_eq tail
        exact absurd (ends ▸ List.mem_append_right _ List.mem_cons_self) plain

/-- Only letters are trimmed. -/
theorem trimStartMatches_spelled (letters : List Char) :
    trimStartMatches (spelled letters names) = spelled (trimStartMatches letters) names := by
  fun_induction trimStartMatches letters with
  | case1 letters ih => exact ih
  | case2 letters other =>
    apply trimStartMatches_of_not_prefix
    intro starts
    obtain ⟨rest, same⟩ := prefix_letters (by decide) starts
    exact other rest same.symm

/-- What is left of the letters ends them. -/
theorem trimStartMatches_suffix (letters : List Char) : trimStartMatches letters <:+ letters := by
  fun_induction trimStartMatches letters with
  | case1 letters ih => exact ih.trans (List.suffix_append ['r', 'v', '6', '4'] letters)
  | case2 letters => exact List.suffix_refl letters

/-- Strings that are trimmed to the same are parsed to the same. -/
theorem parseStr_congr {string other : String}
    (same : trimStartMatches string.toList = trimStartMatches other.toList) :
    parseStr string = parseStr other := by
  rw [parseStr, parseStr, same]

/-- A prefix makes no difference. -/
theorem parseStr_prefixed (string : List Char) :
    parseStr (String.ofList ("rv64".toList ++ string)) = parseStr (String.ofList string) := by
  apply parseStr_congr
  calc trimStartMatches (String.ofList ("rv64".toList ++ string)).toList
    _ = trimStartMatches ("rv64".toList ++ string) := congrArg trimStartMatches String.toList_ofList
    _ = trimStartMatches string := rfl
    _ = trimStartMatches (String.ofList string).toList :=
      congrArg trimStartMatches String.toList_ofList.symm

section Parse

variable (single : '_' ∉ letters) (whole : ∀ name ∈ names, '_' ∉ name.toList)
include single whole

/-- `parse_str` looks up the letters without the prefix, and then the names. -/
theorem parseStr_spelled : parseStr (String.ofList (spelled letters names)) =
    (trimStartMatches letters).foldlM (setFound letter (unrecognized ·.quote)) empty >>=
      (lookedUp names).foldlM setFromStr := by
  have rest : '_' ∉ trimStartMatches letters :=
    fun listed => single ((trimStartMatches_suffix letters).mem listed)
  change finish ((trimStartMatches (String.ofList _).toList).foldlM Scan.step _) = _
  rw [String.toList_ofList, trimStartMatches_spelled]
  exact scan_spelled rest whole

end Parse

/-- A string that is accepted: known letters, and one known name or more. -/
structure Accepted (letters : List Char) (names : List String) : Prop where
  /-- The letters are known. -/
  letters : ∀ character ∈ letters, (letter character).isSome
  /-- There is a name. -/
  nonempty : names ≠ []
  /-- The names are known. -/
  names : ∀ name ∈ names, (named name).isSome

/-- A letter or a name is not known. -/
def Unknown (letters : List Char) (names : List String) : Prop :=
  (∃ character ∈ letters, letter character = none) ∨ ∃ name ∈ names, named name = none

/-- The union of the flags of the letters and the names. -/
def described (letters : List Char) (names : List String) : CpuData :=
  union letter letters ⊔ union named names

/-- When letters and names are looked up. -/
theorem lookup_accepted (accepted : Accepted letters names) :
    (letters.foldlM (setFound letter (unrecognized ·.quote)) empty >>=
      (lookedUp names).foldlM setFromStr) = .ok (described letters names) := by
  have first : letters.foldlM (setFound letter (unrecognized ·.quote)) empty =
      .ok (⊥ ⊔ union letter letters) := foldlM_known accepted.letters empty
  rw [first, lookedUp, if_neg accepted.nonempty, bot_sup_eq]
  exact foldlM_known accepted.names (union letter letters)

/-- A lookup fails when a letter or a name is not known, and when there is no name. -/
theorem lookup_refused (refused : ¬ Accepted letters names) :
    ∃ message, (letters.foldlM (setFound letter (unrecognized ·.quote)) empty >>=
      (lookedUp names).foldlM setFromStr) = .error (.panic message) := by
  rcases known_or_unknown letter letters with known | unknown
  · have first : letters.foldlM (setFound letter (unrecognized ·.quote)) empty =
        .ok (⊥ ⊔ union letter letters) := foldlM_known known empty
    have missing : ∃ name ∈ lookedUp names, named name = none := by
      by_cases none : names = []
      · exact ⟨"", by rw [lookedUp, if_pos none]; exact List.mem_cons_self, rfl⟩
      · rw [lookedUp, if_neg none]
        exact (known_or_unknown named names).resolve_left fun all => refused ⟨known, none, all⟩
    obtain ⟨name, second⟩ : ∃ name, (lookedUp names).foldlM setFromStr (⊥ ⊔ union letter letters) =
        .error (unrecognized (String.quote name)) := foldlM_unknown missing _
    exact ⟨_, by rw [first]; exact second⟩
  · obtain ⟨character, first⟩ : ∃ character,
        letters.foldlM (setFound letter (unrecognized ·.quote)) empty =
          .error (unrecognized (Char.quote character)) := foldlM_unknown unknown empty
    exact ⟨_, by rw [first]; rfl⟩

/-- `parse_str` describes a string exactly when the string has a name if its letters are known, and
does not repeat the prefix before a string that is accepted. -/
theorem parseStr_describes_iff (single : '_' ∉ letters)
    (whole : ∀ name ∈ names, '_' ∉ name.toList) :
    (((∀ character ∈ letters, (letter character).isSome) → (∀ name ∈ names, (named name).isSome) →
        parseStr (String.ofList ("rv64".toList ++ spelled letters names)) =
          .ok (described letters names)) ∧
      (Unknown letters names → ∃ message,
        parseStr (String.ofList ("rv64".toList ++ spelled letters names)) =
          .error (.panic message)) ↔
      ((∀ character ∈ letters, (letter character).isSome) → names ≠ []) ∧
        ¬ ("rv64".toList <+: letters ∧ Accepted (trimStartMatches letters) names)) ∧
    (¬ "rv64".toList <+: letters → Unknown letters names → ∃ message,
      parseStr (String.ofList (spelled letters names)) = .error (.panic message)) := by
  have bare := parseStr_spelled single whole
  have strange : Unknown letters names → ¬ Accepted letters names := by
    rintro (⟨character, listed, none⟩ | ⟨name, listed, none⟩) accepted
    · exact Option.ne_none_iff_isSome.mpr (accepted.letters character listed) none
    · exact Option.ne_none_iff_isSome.mpr (accepted.names name listed) none
  have repeated : "rv64".toList <+: letters → ∃ character ∈ letters, letter character = none :=
    fun starts => ⟨'r', starts.subset List.mem_cons_self, rfl⟩
  have untrimmed : ¬ "rv64".toList <+: letters → trimStartMatches letters = letters :=
    trimStartMatches_of_not_prefix
  rw [parseStr_prefixed, bare]
  refine ⟨⟨?_, ?_⟩, ?_⟩
  · rintro ⟨describes, panics⟩
    constructor
    · intro known none
      have described := describes known (none ▸ fun _ listed => nomatch listed)
      obtain ⟨message, panicked⟩ := @lookup_refused (trimStartMatches letters) names
        fun accepted => accepted.nonempty none
      rw [panicked] at described
      nomatch described
    · rintro ⟨starts, accepted⟩
      obtain ⟨message, panicked⟩ := panics (.inl (repeated starts))
      rw [lookup_accepted accepted] at panicked
      nomatch panicked
  · rintro ⟨some, once⟩
    constructor
    · intro known known'
      have single : ¬ "rv64".toList <+: letters := by
        intro starts
        obtain ⟨character, listed, none⟩ := repeated starts
        exact Option.ne_none_iff_isSome.mpr (known character listed) none
      rw [untrimmed single]
      exact lookup_accepted ⟨known, some known, known'⟩
    · intro unknown
      apply lookup_refused
      intro accepted
      by_cases starts : "rv64".toList <+: letters
      · exact once ⟨starts, accepted⟩
      · exact strange unknown (untrimmed starts ▸ accepted)
  · intro other unknown
    rw [untrimmed other]
    exact lookup_refused (strange unknown)

/-- A string with two letters and two names is described. -/
theorem parseStr_describes_im :
    parseStr (String.ofList ("rv64".toList ++ spelled ['i', 'm'] ["zicsr", "zba"])) =
      .ok (described ['i', 'm'] ["zicsr", "zba"]) := by
  have plain : ∀ name ∈ ["zicsr", "zba"], '_' ∉ name.toList := by decide +kernel
  have describes := (@parseStr_describes_iff ['i', 'm'] ["zicsr", "zba"] (by decide) plain).1.mpr
    ⟨fun _ => List.cons_ne_nil _ _, fun both => absurd both.1 (by decide)⟩
  have letters : ∀ character ∈ ['i', 'm'], (letter character).isSome :=
    List.all_eq_true.mp (by decide)
  have names : ∀ name ∈ ["zicsr", "zba"], (named name).isSome := List.all_eq_true.mp (by decide)
  exact describes.1 letters names

/-- A string of known letters without a name is refused, and a string with a repeated prefix is
not, though the letters of the second prefix are not known. -/
theorem parseStr_misdescribes :
    (∀ character ∈ "imafdc".toList, (letter character).isSome) ∧
      String.ofList ("rv64".toList ++ spelled "imafdc".toList []) = "rv64imafdc" ∧
      parseStr (String.ofList ("rv64".toList ++ spelled "imafdc".toList [])) =
        .error (unrecognized "".quote) ∧
      Unknown "rv64i".toList ["zba"] ∧
      String.ofList ("rv64".toList ++ spelled "rv64i".toList ["zba"]) = "rv64rv64i_zba" ∧
      parseStr (String.ofList ("rv64".toList ++ spelled "rv64i".toList ["zba"])) =
        .ok (described ['i'] ["zba"]) := by
  refine ⟨List.all_eq_true.mp (by decide), by decide, ?_, .inl ⟨'r', by decide, rfl⟩, by decide, ?_⟩
  · have plain : ∀ name ∈ ([] : List String), '_' ∉ name.toList := by decide
    rw [parseStr_prefixed, parseStr_spelled (by decide) plain]
    rfl
  · have plain : ∀ name ∈ ["zba"], '_' ∉ name.toList := by decide
    rw [parseStr_prefixed, parseStr_spelled (by decide) plain]
    exact lookup_accepted ⟨List.all_eq_true.mp (by decide), List.cons_ne_nil _ _,
      List.all_eq_true.mp (by decide)⟩

end CpuData

end Lsd
