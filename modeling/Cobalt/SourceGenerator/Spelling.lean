import Cobalt.SourceGenerator.Ident

/-!
# What idents show of names

The conversions of names drop the separators between words, and change the case of letters. What is
left of a name is its spelling: its letters and digits, in lower case, each with whether it is a
letter at which a word starts. Two ASCII names have the same ident if and only if they have the same
spelling.

## Main definitions

* `letters`: the characters of a name that are not separators, with the starts of the words.
* `title`: what `simpleTitle` makes of a string.
* `spelling`: the spelling of a name.

## Main results

* `title_splitIdentWord`: the words that are found in a name show its letters.
* `toList_toPascalCase`: Pascal case.
* `toPascalCase_eq_iff`: which names have the same ident.
-/

namespace Cobalt.SourceGenerator

/-! ### ASCII characters -/

section Ascii

variable {c : Char} (hc : isAscii c = true)
include hc

theorem isAscii_toLower : isAscii c.toLower = true :=
  isAscii_induction (p := fun c => isAscii c.toLower = true) (by decide) hc

theorem isWordSeparator_toLower : isWordSeparator c.toLower = isWordSeparator c :=
  isAscii_induction (p := fun c => isWordSeparator c.toLower = isWordSeparator c) (by decide) hc

theorem isWordSeparator_toUpper : isWordSeparator c.toUpper = isWordSeparator c :=
  isAscii_induction (p := fun c => isWordSeparator c.toUpper = isWordSeparator c) (by decide) hc

theorem isAlpha_and_isUpper : (c.isAlpha && c.isUpper) = c.isUpper :=
  isAscii_induction (p := fun c => (c.isAlpha && c.isUpper) = c.isUpper) (by decide) hc

theorem isWordSeparator_of_isAlpha (h : c.isAlpha = true) : isWordSeparator c = false :=
  isAscii_induction (p := fun c => c.isAlpha = true → isWordSeparator c = false) (by decide) hc h

theorem isAscii_sanitizeChar : isAscii (sanitizeChar c) = true :=
  isAscii_induction (p := fun c => isAscii (sanitizeChar c) = true) (by decide) hc

/-- A capital is shown as it is. -/
theorem sanitizeChar_toUpper_toLower (h : c.isAlpha = true) :
    (sanitizeChar c.toLower.toUpper).isAlpha = true ∧
      isAscii (sanitizeChar c.toLower.toUpper) = true ∧
      (sanitizeChar c.toLower.toUpper).toLower.toUpper = sanitizeChar c.toLower.toUpper :=
  isAscii_induction (p := fun c => c.isAlpha = true →
    (sanitizeChar c.toLower.toUpper).isAlpha = true ∧
      isAscii (sanitizeChar c.toLower.toUpper) = true ∧
      (sanitizeChar c.toLower.toUpper).toLower.toUpper = sanitizeChar c.toLower.toUpper)
    (by decide) hc h

theorem isUpper_of_isWordSeparator (h : isWordSeparator c = true) : c.isUpper = false :=
  isAscii_induction (p := fun c => isWordSeparator c = true → c.isUpper = false) (by decide) hc h

end Ascii

/-! ### Titles -/

/-- The characters of the words, each word with a capital. -/
def title (unicode : Unicode) : Bool → List Char → List Char
  | _, [] => []
  | start, c :: cs =>
    if isWordSeparator c then title unicode true cs
    else (if start then unicode.ToUpper c else c) :: title unicode false cs

/-- The words of a string, as `simpleTitle` splits it. -/
def titleWords (name : List Char) : List (List Char) :=
  (replaceWordSeparators name).splitOn ' '

section Title

variable {unicode : Unicode}

theorem title_cons_separator {c : Char} (hc : isWordSeparator c = true) (start : Bool)
    (cs : List Char) : title unicode start (c :: cs) = title unicode true cs := by
  rw [title, if_pos hc]

theorem title_cons {c : Char} (hc : isWordSeparator c = false) (start : Bool) (cs : List Char) :
    title unicode start (c :: cs) =
      (if start then unicode.ToUpper c else c) :: title unicode false cs := by
  rw [title, if_neg (Bool.eq_false_iff.mp hc)]

theorem titleWords_separator {c : Char} (hc : isWordSeparator c = true) (cs : List Char) :
    titleWords (c :: cs) = [] :: titleWords cs := by
  rw [titleWords, replaceWordSeparators, List.map_cons, if_pos hc,
    List.splitOn_cons_eq_if_modifyHead, if_pos (beq_self_eq_true ' ')]
  rfl

theorem titleWords_cons {c : Char} (hc : isWordSeparator c = false) (cs : List Char) :
    titleWords (c :: cs) = (titleWords cs).modifyHead (c :: ·) := by
  have hspace : ¬ (c == ' ') = true := by
    intro hspace
    rw [beq_iff_eq.mp hspace] at hc
    cases hc
  rw [titleWords, replaceWordSeparators, List.map_cons, if_neg (Bool.eq_false_iff.mp hc),
    List.splitOn_cons_eq_if_modifyHead, if_neg hspace]
  rfl

/-- The words, with capitals. -/
def capitalized (unicode : Unicode) (words : List (List Char)) : List (List Char) :=
  (words.filter fun word => word ≠ []).map (List.modifyHead unicode.ToUpper)

/-- The first word starts, or it is continued. -/
theorem flatten_capitalized (unicode : Unicode) (name : List Char) :
    (capitalized unicode (titleWords name)).flatten = title unicode true name ∧
      ∃ word words, titleWords name = word :: words ∧
        word ++ (capitalized unicode words).flatten = title unicode false name := by
  induction name with
  | nil => exact ⟨rfl, [], [], rfl, rfl⟩
  | cons c cs ih =>
    obtain ⟨hstart, word, words, hwords, hcontinue⟩ := ih
    cases hc : isWordSeparator c with
    | true =>
      rw [titleWords_separator hc, title_cons_separator hc, title_cons_separator hc, ← hstart]
      exact ⟨rfl, [], titleWords cs, rfl, rfl⟩
    | false =>
      rw [titleWords_cons hc, title_cons hc, title_cons hc, hwords, List.modifyHead_cons,
        ← hcontinue]
      exact ⟨rfl, c :: word, words, rfl, rfl⟩

theorem title_append_separator {c : Char} (hc : isWordSeparator c = true) (start : Bool)
    (l l' : List Char) :
    title unicode start (l ++ c :: l') = title unicode start l ++ title unicode true l' := by
  induction l generalizing start with
  | nil => exact title_cons_separator hc start l'
  | cons d l ih =>
    cases hd : isWordSeparator d with
    | true => rw [List.cons_append, title_cons_separator hd, title_cons_separator hd, ih]
    | false => rw [List.cons_append, title_cons hd, title_cons hd, ih, List.cons_append]

/-- Words that are joined keep their capitals. -/
theorem title_intercalate (words : List (List Char)) :
    title unicode true ([' '].intercalate words) = words.flatMap (title unicode true) := by
  induction words with
  | nil => rfl
  | cons word words ih =>
    cases words with
    | nil => rw [List.intercalate_singleton, List.flatMap_singleton]
    | cons next words =>
      rw [List.intercalate_cons_cons, List.append_assoc, List.singleton_append,
        title_append_separator rfl, ih, ← List.flatMap_cons]

/-- A character at the end. -/
theorem title_concat (start : Bool) (l : List Char) (c : Char) :
    title unicode start (l ++ [c]) = title unicode start l ++
      title unicode (l.getLast?.elim start isWordSeparator) [c] := by
  induction l generalizing start with
  | nil => rfl
  | cons d l ih =>
    have hlast : ((d :: l).getLast?.elim start isWordSeparator) =
        l.getLast?.elim (isWordSeparator d) isWordSeparator := by
      rw [List.getLast?_cons]
      cases l.getLast? with
      | none => rfl
      | some _ => rfl
    rw [hlast, List.cons_append]
    cases hd : isWordSeparator d with
    | true => rw [title_cons_separator hd, title_cons_separator hd, ih]
    | false => rw [title_cons hd, title_cons hd, ih, List.cons_append]

theorem title_dropWhile_space (l : List Char) :
    title unicode true (l.dropWhile (· == ' ')) = title unicode true l := by
  induction l with
  | nil => rfl
  | cons c l ih =>
    rw [List.dropWhile_cons]
    split_ifs with hc
    · rw [beq_iff_eq.mp hc, title_cons_separator rfl, ih]
    · rfl

theorem title_rdropWhile_space (start : Bool) (l : List Char) :
    title unicode start (l.rdropWhile (· == ' ')) = title unicode start l := by
  induction l using List.reverseRecOn with
  | nil => rfl
  | append_singleton l c ih =>
    rw [List.rdropWhile_concat]
    split_ifs with hc
    · rw [beq_iff_eq.mp hc, title_concat, title_cons_separator rfl, title, List.append_nil, ih]
    · rfl

theorem title_eq_nil (start : Bool) {l : List Char} (hl : ∀ c ∈ l, isWordSeparator c = true) :
    title unicode start l = [] := by
  induction l generalizing start with
  | nil => rfl
  | cons c l ih =>
    obtain ⟨hc, hl⟩ := List.forall_mem_cons.mp hl
    rw [title_cons_separator hc, ih true hl]

/-- Spaces around a word are not seen. -/
theorem title_trimSpaces (word : List Char) :
    title unicode true (trimSpaces word) = title unicode true word := by
  rw [trimSpaces, title_rdropWhile_space, title_dropWhile_space]

end Title

/-! ### The letters of a name -/

/-- The characters that are not separators, in lower case, each with whether a word starts at it. -/
def letters (prevChar : Char) : List Char → List (Bool × Char)
  | [] => []
  | c :: cs =>
    if isWordSeparator c then letters ' ' cs
    else (isWordSeparator prevChar || (c.isUpper && !prevChar.isUpper), c.toLower) :: letters c cs

theorem letters_separator {c : Char} (hc : isWordSeparator c = true) (prevChar : Char)
    (cs : List Char) : letters prevChar (c :: cs) = letters ' ' cs := by
  rw [letters, if_pos hc]

theorem letters_cons {c : Char} (hc : isWordSeparator c = false) (prevChar : Char)
    (cs : List Char) : letters prevChar (c :: cs) =
      (isWordSeparator prevChar || (c.isUpper && !prevChar.isUpper), c.toLower) ::
        letters c cs := by
  rw [letters, if_neg (Bool.eq_false_iff.mp hc)]

/-- A letter at which a word starts is a capital. -/
def capital (letter : Bool × Char) : Char :=
  if letter.1 then letter.2.toUpper else letter.2

theorem letters_replaceWordSeparators (prevChar : Char) (name : List Char) :
    letters prevChar (replaceWordSeparators name) = letters prevChar name := by
  induction name generalizing prevChar with
  | nil => rfl
  | cons c cs ih =>
    rw [replaceWordSeparators, List.map_cons, ← replaceWordSeparators]
    cases hc : isWordSeparator c with
    | true => rw [if_pos rfl, letters_separator rfl, letters_separator hc, ih]
    | false => rw [if_neg Bool.false_ne_true, letters_cons hc, letters_cons hc, ih]

theorem eq_space_of_trimSpaces_eq_nil {l : List Char} (h : trimSpaces l = []) :
    ∀ c ∈ l, c = ' ' := by
  have hall : ∀ c ∈ l.dropWhile (· == ' '), (c == ' ') = true := List.rdropWhile_eq_nil_iff.mp h
  have hnil : l.dropWhile (· == ' ') = [] := by
    by_contra hne
    have hhead := List.head_dropWhile_not (· == ' ') hne
    rw [hall _ (List.head_mem hne)] at hhead
    cases hhead
  intro c hc
  exact beq_iff_eq.mp (List.dropWhile_eq_nil_iff.mp hnil c hc)

section Split

variable {unicode : Unicode}

theorem map_toLower {l : List Char} (hl : ∀ c ∈ l, isAscii c = true) :
    l.map unicode.ToLower = l.map Char.toLower :=
  List.map_congr_left fun c hc => unicode.toLower_ascii c (hl c hc)

/-- What holds of the variables of `splitIdentWord`. -/
structure SplitState.Valid (s : SplitState) : Prop where
  prevChar : s.prevChar = s.curWord.getLast?.getD ' '
  ascii : ∀ c ∈ s.curWord, isAscii c = true

/-- What titles show of the words that were found so far. -/
def SplitState.shown (unicode : Unicode) (s : SplitState) : List Char :=
  s.entries.flatMap (title unicode true) ++ title unicode true (s.curWord.map Char.toLower)

theorem SplitState.Valid.isAscii_prevChar {s : SplitState} (h : s.Valid) :
    isAscii s.prevChar = true := by
  rw [h.prevChar]
  cases hlast : s.curWord.getLast? with
  | none => rfl
  | some c => exact h.ascii c (List.mem_of_getLast? hlast)

/-- The word goes on after the last character of the current one. -/
theorem SplitState.Valid.elim_getLast? {s : SplitState} (h : s.Valid) :
    (s.curWord.map Char.toLower).getLast?.elim true isWordSeparator =
      isWordSeparator s.prevChar := by
  rw [h.prevChar, List.getLast?_map]
  cases hlast : s.curWord.getLast? with
  | none => rfl
  | some c => exact isWordSeparator_toLower (h.ascii c (List.mem_of_getLast? hlast))

/-- The current word is put to the entries. -/
theorem SplitState.Valid.shown_entries {s : SplitState} (h : s.Valid) :
    (if s.curWord ≠ [] ∧ trimSpaces s.curWord ≠ [] then
        s.entries ++ [trimSpaces (s.curWord.map unicode.ToLower)]
      else s.entries).flatMap (title unicode true) = s.shown unicode := by
  rw [SplitState.shown]
  split_ifs with hword
  · rw [List.flatMap_append, List.flatMap_singleton, title_trimSpaces, map_toLower h.ascii]
  · have hspaces : ∀ c ∈ s.curWord, c = ' ' := by
      by_cases hnil : s.curWord = []
      · rw [hnil]
        exact fun _ hc => absurd hc List.not_mem_nil
      · exact eq_space_of_trimSpaces_eq_nil (not_not.mp fun hne => hword ⟨hnil, hne⟩)
    rw [title_eq_nil, List.append_nil]
    intro c hc
    obtain ⟨c', hc', rfl⟩ := List.mem_map.mp hc
    rw [hspaces c' hc']
    rfl

/-- The step. -/
theorem SplitState.Valid.step (unicode : Unicode) {s : SplitState} (h : s.Valid) {c : Char}
    (hc : isAscii c = true) :
    (splitStep unicode s c).Valid ∧
      (splitStep unicode s c).shown unicode =
        s.shown unicode ++ (letters s.prevChar [c]).map capital := by
  have hupper : (unicode.IsLetter c && unicode.IsUpper c && !unicode.IsUpper s.prevChar) =
      (c.isUpper && !s.prevChar.isUpper) := by
    rw [unicode.isLetter_ascii c hc, unicode.isUpper_ascii c hc, isAlpha_and_isUpper hc,
      unicode.isUpper_ascii _ h.isAscii_prevChar]
  rw [splitStep, hupper]
  cases hstart : c.isUpper && !s.prevChar.isUpper with
  | true =>
    have hseparator : isWordSeparator c = false := by
      rw [← Bool.not_eq_true]
      intro hseparator
      rw [isUpper_of_isWordSeparator hc hseparator] at hstart
      cases hstart
    have hcapital : title unicode true [c.toLower] = (letters s.prevChar [c]).map capital := by
      rw [title_cons ((isWordSeparator_toLower hc).trans hseparator), letters_cons hseparator,
        hstart, Bool.or_true, if_pos rfl, unicode.toUpper_ascii _ (isAscii_toLower hc)]
      rfl
    rw [if_pos rfl, ← hcapital, ← h.shown_entries]
    exact ⟨⟨rfl, fun d hd => List.mem_singleton.mp hd ▸ hc⟩, rfl⟩
  | false =>
    have hletter : title unicode (isWordSeparator s.prevChar) [c.toLower] =
        (letters s.prevChar [c]).map capital := by
      cases hseparator : isWordSeparator c with
      | true =>
        rw [title_cons_separator ((isWordSeparator_toLower hc).trans hseparator),
          letters_separator hseparator]
        rfl
      | false =>
        rw [title_cons ((isWordSeparator_toLower hc).trans hseparator), letters_cons hseparator,
          hstart, Bool.or_false, unicode.toUpper_ascii _ (isAscii_toLower hc)]
        rfl
    rw [if_neg Bool.false_ne_true]
    refine ⟨⟨?_, fun d hd => ?_⟩, ?_⟩
    · rw [List.getLast?_concat, Option.getD_some]
    · rcases List.mem_append.mp hd with hd | hd
      · exact h.ascii d hd
      · exact List.mem_singleton.mp hd ▸ hc
    · rw [SplitState.shown, SplitState.shown, List.map_append, List.map_singleton, title_concat,
        h.elim_getLast?, hletter, List.append_assoc]

/-- The loop. -/
theorem SplitState.Valid.loop (unicode : Unicode) {s : SplitState} (h : s.Valid) {l : List Char}
    (hl : ∀ c ∈ l, isAscii c = true ∧ (isWordSeparator c = true → c = ' ')) :
    (l.foldl (splitStep unicode) s).Valid ∧
      (l.foldl (splitStep unicode) s).shown unicode =
        s.shown unicode ++ (letters s.prevChar l).map capital := by
  induction l generalizing s with
  | nil => exact ⟨h, (List.append_nil _).symm⟩
  | cons c l ih =>
    obtain ⟨⟨hc, hspace⟩, hl⟩ := List.forall_mem_cons.mp hl
    obtain ⟨hvalid, hshown⟩ := h.step unicode hc
    obtain ⟨hvalid', hshown'⟩ := ih hvalid hl
    have hprevChar : (splitStep unicode s c).prevChar = c := by
      rw [splitStep]
      split_ifs
      all_goals rfl
    have hletters : letters s.prevChar (c :: l) = letters s.prevChar [c] ++ letters c l := by
      cases hseparator : isWordSeparator c with
      | true =>
        rw [letters_separator hseparator, letters_separator hseparator, hspace hseparator]
        rfl
      | false =>
        rw [letters_cons hseparator, letters_cons hseparator]
        rfl
    refine ⟨hvalid', ?_⟩
    rw [List.foldl_cons, hshown', hshown, hprevChar, hletters, List.map_append, List.append_assoc]

/-- **Titles show the letters of a name**, with capitals at the starts of the words. -/
theorem title_splitIdentWord {name : List Char} (hname : ∀ c ∈ name, isAscii c = true) :
    title unicode true (splitIdentWord unicode name) = (letters ' ' name).map capital := by
  have hreplaced : ∀ c ∈ replaceWordSeparators name,
      isAscii c = true ∧ (isWordSeparator c = true → c = ' ') := by
    intro c hc
    obtain ⟨c', hc', rfl⟩ := List.mem_map.mp hc
    split_ifs with hseparator
    · exact ⟨rfl, fun _ => rfl⟩
    · exact ⟨hname c' hc', fun h => absurd h hseparator⟩
  have hinit : SplitState.Valid {} := ⟨rfl, fun _ hc => absurd hc List.not_mem_nil⟩
  obtain ⟨hvalid, hshown⟩ := hinit.loop unicode hreplaced
  rw [letters_replaceWordSeparators] at hshown
  rw [splitIdentWord, title_intercalate]
  refine Eq.trans ?_ hshown
  rw [SplitState.shown]
  split_ifs with hnil
  · rw [List.flatMap_append, List.flatMap_singleton, title_trimSpaces, map_toLower hvalid.ascii]
  · rw [not_not.mp hnil, List.map_nil, title, List.append_nil]

end Split

/-! ### Pascal case -/

/-- Words that are joined and split again. -/
theorem flatten_splitOn_intercalate {words : List (List Char)} (h : ∀ word ∈ words, ' ' ∉ word) :
    (([' '].intercalate words).splitOn ' ').flatten = words.flatten := by
  cases words with
  | nil => rfl
  | cons word words => rw [List.splitOn_intercalate ' ' h (List.cons_ne_nil _ _)]

/-- What the conversions show of a name before invalid characters are replaced. -/
def capitals (name : String) : List Char :=
  (letters ' ' name.toList).map capital

/-- All characters of a name are ASCII characters. -/
def IsAsciiName (name : String) : Prop :=
  ∀ c ∈ name.toList, isAscii c = true

theorem isAsciiName_of_all {name : String} (h : name.toList.all isAscii = true) :
    IsAsciiName name :=
  List.all_eq_true.mp h

theorem exists_of_mem_letters {prevChar : Char} {name : List Char} {letter : Bool × Char}
    (h : letter ∈ letters prevChar name) :
    ∃ c ∈ name, isWordSeparator c = false ∧ letter.2 = c.toLower := by
  induction name generalizing prevChar with
  | nil => exact absurd h List.not_mem_nil
  | cons c cs ih =>
    cases hc : isWordSeparator c with
    | true =>
      rw [letters_separator hc] at h
      obtain ⟨d, hd, hletter⟩ := ih h
      exact ⟨d, List.mem_cons_of_mem _ hd, hletter⟩
    | false =>
      rw [letters_cons hc] at h
      rcases List.mem_cons.mp h with rfl | h
      · exact ⟨c, List.mem_cons_self, hc, rfl⟩
      · obtain ⟨d, hd, hletter⟩ := ih h
        exact ⟨d, List.mem_cons_of_mem _ hd, hletter⟩

/-- No separators are shown. -/
theorem isWordSeparator_of_mem_capitals {name : String} (hname : IsAsciiName name) {c : Char}
    (hc : c ∈ capitals name) : isWordSeparator c = false := by
  obtain ⟨letter, hletter, rfl⟩ := List.mem_map.mp hc
  obtain ⟨d, hd, hseparator, hlower⟩ := exists_of_mem_letters hletter
  have hascii := hname d hd
  rw [capital, hlower]
  split_ifs
  · rw [isWordSeparator_toUpper (isAscii_toLower hascii), isWordSeparator_toLower hascii,
      hseparator]
  · rw [isWordSeparator_toLower hascii, hseparator]

section PascalCase

variable (unicode : Unicode) {nameParts : List String}
  (hparts : ∀ part ∈ nameParts, IsAsciiName part)
include hparts

theorem title_splitIdentWords :
    title unicode true (splitIdentWords unicode nameParts) = nameParts.flatMap capitals := by
  rw [splitIdentWords, title_intercalate, List.flatMap_map]
  exact List.flatMap_congr fun part hpart => title_splitIdentWord (hparts part hpart)

/-- Pascal case. -/
theorem toList_toPascalCase :
    (toPascalCase unicode nameParts).toList = sanitizeIdent (nameParts.flatMap capitals) := by
  rw [toPascalCase, String.toList_ofList, ← title_splitIdentWords unicode hparts]
  obtain ⟨hwords, -⟩ := flatten_capitalized unicode (splitIdentWords unicode nameParts)
  have hspace : ∀ word ∈ capitalized unicode (titleWords (splitIdentWords unicode nameParts)),
      ' ' ∉ word := by
    intro word hword hmem
    have hflatten := List.mem_flatten.mpr ⟨word, hword, hmem⟩
    rw [hwords, title_splitIdentWords unicode hparts] at hflatten
    obtain ⟨part, hpart, hcapitals⟩ := List.mem_flatMap.mp hflatten
    cases isWordSeparator_of_mem_capitals (hparts part hpart) hcapitals
  rw [← hwords, ← flatten_splitOn_intercalate hspace]
  rfl

end PascalCase

/-! ### Sanitized idents -/

theorem isAlpha_sanitizeChar (c : Char) : (sanitizeChar c).isAlpha = c.isAlpha := by
  rw [sanitizeChar]
  split_ifs with hc
  · rfl
  · rw [isIdentChar, Char.isAlphanum, Bool.or_eq_true, Bool.or_eq_true, not_or, not_or] at hc
    rw [Bool.eq_false_iff.mpr hc.1.1]
    rfl

/-- An underscore is put before a name whose first character is not a letter. -/
theorem sanitizeIdent_eq {name : List Char} (hname : '_' ∉ name) :
    sanitizeIdent name =
      if (name.map sanitizeChar).head?.any Char.isAlpha then name.map sanitizeChar
      else '_' :: name.map sanitizeChar := by
  have hhead : name.head?.any isValidFirstChar =
      (name.map sanitizeChar).head?.any Char.isAlpha := by
    cases name with
    | nil => rfl
    | cons c cs =>
      have hc : (c == '_') = false := beq_eq_false_iff_ne.mpr (List.ne_of_not_mem_cons hname).symm
      rw [List.head?_cons, List.map_cons, List.head?_cons, Option.any_some, Option.any_some,
        isAlpha_sanitizeChar, isValidFirstChar, hc, Bool.or_false]
  rw [sanitizeIdent, hhead]
  split_ifs
  · rfl
  · rfl

/-- Names without underscores have the same ident if and only if their characters have. -/
theorem sanitizeIdent_inj {name name' : List Char} (hname : '_' ∉ name) (hname' : '_' ∉ name') :
    sanitizeIdent name = sanitizeIdent name' ↔
      name.map sanitizeChar = name'.map sanitizeChar := by
  rw [sanitizeIdent_eq hname, sanitizeIdent_eq hname']
  refine ⟨fun h => ?_, fun h => by rw [h]⟩
  split_ifs at h with hhead hhead' hhead'
  · exact h
  · rw [h] at hhead
    cases hhead
  · rw [← h] at hhead'
    cases hhead'
  · exact (List.cons.inj h).2

/-! ### Spelling -/

/-- The spelling of a name: its letters and digits in lower case, each with whether it is a
letter at which a word starts. Characters that idents cannot have are not told apart. -/
def spelling (name : String) : List (Bool × Char) :=
  (letters ' ' name.toList).map fun letter =>
    (letter.1 && letter.2.isAlpha, sanitizeChar letter.2)

/-- What is shown of a letter. -/
theorem sanitizeChar_capital (start : Bool) {c : Char} (hc : isAscii c = true) :
    sanitizeChar (capital (start, c.toLower)) =
      capital (start && c.toLower.isAlpha, sanitizeChar c.toLower) :=
  isAscii_induction (p := fun c => sanitizeChar (capital (start, c.toLower)) =
    capital (start && c.toLower.isAlpha, sanitizeChar c.toLower))
    (by cases start <;> decide) hc

/-- What is shown of a letter tells which letter it is. -/
theorem eq_of_sanitizeChar_capital (start : Bool) {c : Char} (hc : isAscii c = true) :
    ((sanitizeChar (capital (start, c.toLower))).isUpper,
        (sanitizeChar (capital (start, c.toLower))).toLower) =
      (start && c.toLower.isAlpha, sanitizeChar c.toLower) :=
  isAscii_induction (p := fun c => ((sanitizeChar (capital (start, c.toLower))).isUpper,
      (sanitizeChar (capital (start, c.toLower))).toLower) =
    (start && c.toLower.isAlpha, sanitizeChar c.toLower)) (by revert start; decide +kernel) hc

section Names

variable {name name' : String} (hname : IsAsciiName name) (hname' : IsAsciiName name')
include hname

/-- What is the same for all ASCII characters in lower case is the same for the letters. -/
theorem map_letters_congr {α : Type} {f g : Bool × Char → α}
    (h : ∀ (start : Bool) {c : Char}, isAscii c = true →
      f (start, c.toLower) = g (start, c.toLower)) :
    (letters ' ' name.toList).map f = (letters ' ' name.toList).map g := by
  refine List.map_congr_left fun letter hletter => ?_
  obtain ⟨c, hc, -, hlower⟩ := exists_of_mem_letters hletter
  have hletter : letter = (letter.1, c.toLower) := Prod.ext rfl hlower
  rw [hletter]
  exact h letter.1 (hname c hc)

theorem map_sanitizeChar_capitals :
    (capitals name).map sanitizeChar = (spelling name).map capital := by
  rw [capitals, spelling, List.map_map, List.map_map]
  exact map_letters_congr hname sanitizeChar_capital

theorem spelling_eq : spelling name =
    ((capitals name).map sanitizeChar).map fun c => (c.isUpper, c.toLower) := by
  rw [capitals, spelling, List.map_map, List.map_map]
  exact map_letters_congr hname fun start _ hc => (eq_of_sanitizeChar_capital start hc).symm

include hname'

/-- The spelling is what is shown. -/
theorem map_sanitizeChar_capitals_eq_iff :
    (capitals name).map sanitizeChar = (capitals name').map sanitizeChar ↔
      spelling name = spelling name' := by
  constructor
  · intro h
    rw [spelling_eq hname, spelling_eq hname', h]
  · intro h
    rw [map_sanitizeChar_capitals hname, map_sanitizeChar_capitals hname', h]

end Names

theorem underscore_notMem_capitals {name : String} (hname : IsAsciiName name) :
    '_' ∉ capitals name := by
  intro h
  cases isWordSeparator_of_mem_capitals hname h

/-- Names have the same ident if and only if they have the same spelling. -/
theorem toPascalCase_eq_iff (unicode : Unicode) {name name' : String} (hname : IsAsciiName name)
    (hname' : IsAsciiName name') :
    toPascalCase unicode [name] = toPascalCase unicode [name'] ↔
      spelling name = spelling name' := by
  rw [← String.toList_inj, toList_toPascalCase unicode (List.forall_mem_singleton.mpr hname),
    toList_toPascalCase unicode (List.forall_mem_singleton.mpr hname'), List.flatMap_singleton,
    List.flatMap_singleton, sanitizeIdent_inj (underscore_notMem_capitals hname)
      (underscore_notMem_capitals hname'), map_sanitizeChar_capitals_eq_iff hname hname']

/-! ### Snake case -/

theorem forall_mem_intercalate {q : Char → Prop} (hspace : q ' ') {words : List (List Char)}
    (hwords : ∀ word ∈ words, ∀ c ∈ word, q c) : ∀ c ∈ [' '].intercalate words, q c := by
  induction words with
  | nil => exact fun _ hc => absurd hc List.not_mem_nil
  | cons word words ih =>
    obtain ⟨hword, hrest⟩ := List.forall_mem_cons.mp hwords
    cases words with
    | nil => rwa [List.intercalate_singleton]
    | cons next words =>
      rw [List.intercalate_cons_cons, List.append_assoc, List.singleton_append]
      exact List.forall_mem_append.mpr ⟨hword, List.forall_mem_cons.mpr ⟨hspace, ih hrest⟩⟩

section Words

variable {unicode : Unicode} {p q : Char → Prop} (hpq : ∀ c, p c → q (unicode.ToLower c))
include hpq

theorem forall_mem_trimSpaces {word : List Char} (hword : ∀ c ∈ word, p c) :
    ∀ c ∈ trimSpaces (word.map unicode.ToLower), q c := by
  intro c hc
  have hmem : c ∈ word.map unicode.ToLower :=
    (List.dropWhile_sublist _).subset ((List.rdropWhile_prefix _ _).subset hc)
  obtain ⟨c', hc', rfl⟩ := List.mem_map.mp hmem
  exact hpq c' (hword c' hc')

theorem forall_mem_foldl_splitStep {l : List Char} (hl : ∀ c ∈ l, p c) :
    (∀ word ∈ (l.foldl (splitStep unicode) {}).entries, ∀ c ∈ word, q c) ∧
      ∀ c ∈ (l.foldl (splitStep unicode) {}).curWord, p c := by
  induction l using List.reverseRecOn with
  | nil => exact ⟨fun _ h => absurd h List.not_mem_nil, fun _ h => absurd h List.not_mem_nil⟩
  | append_singleton l c ih =>
    obtain ⟨hl, hc⟩ := List.forall_mem_append.mp hl
    obtain ⟨hentries, hcurWord⟩ := ih hl
    rw [List.foldl_append, List.foldl_cons, List.foldl_nil, splitStep]
    split_ifs with hstart hword
    · refine ⟨List.forall_mem_append.mpr ⟨hentries, ?_⟩, hc⟩
      exact List.forall_mem_singleton.mpr (forall_mem_trimSpaces hpq hcurWord)
    · exact ⟨hentries, hc⟩
    · exact ⟨hentries, List.forall_mem_append.mpr ⟨hcurWord, hc⟩⟩

/-- The characters of the words come from those of the name. -/
theorem forall_mem_splitIdentWord {name : List Char} (hname : ∀ c ∈ replaceWordSeparators name, p c)
    (hspace : q ' ') : ∀ c ∈ splitIdentWord unicode name, q c := by
  obtain ⟨hentries, hcurWord⟩ := forall_mem_foldl_splitStep hpq hname
  rw [splitIdentWord]
  refine forall_mem_intercalate hspace ?_
  split_ifs
  · refine List.forall_mem_append.mpr ⟨hentries, ?_⟩
    exact List.forall_mem_singleton.mpr (forall_mem_trimSpaces hpq hcurWord)
  · exact hentries

end Words

/-- The separators and the other characters of a title may be replaced by such as are shown in the
same way. -/
theorem title_map {unicode : Unicode} {f : Char → Char} {l : List Char} (start : Bool)
    (hf : ∀ c ∈ l, isWordSeparator (f c) = isWordSeparator c ∧
      (isWordSeparator c = false → f c = c)) :
    title unicode start (l.map f) = title unicode start l := by
  induction l generalizing start with
  | nil => rfl
  | cons c l ih =>
    obtain ⟨⟨hseparator, hsame⟩, hl⟩ := List.forall_mem_cons.mp hf
    rw [List.map_cons]
    cases hc : isWordSeparator c with
    | true => rw [title_cons_separator (hseparator.trans hc), title_cons_separator hc, ih true hl]
    | false => rw [hsame hc, title_cons hc, title_cons hc, ih false hl]

/-- The characters of words in lower case, and the spaces between them. -/
def isSnakeChar (c : Char) : Bool :=
  c == ' ' || (c.isAlphanum && !c.isUpper)

theorem isSnakeChar_toLower {c : Char} (hc : isAscii c = true) (hident : isIdentChar c = true)
    (hseparator : isWordSeparator c = false) : isSnakeChar c.toLower = true :=
  isAscii_induction (p := fun c => isIdentChar c = true → isWordSeparator c = false →
    isSnakeChar c.toLower = true) (by decide) hc hident hseparator

/-- What becomes of such a character. -/
theorem toLower_toUpper_sanitizeChar {c : Char} (hc : isAscii c = true)
    (hsnake : isSnakeChar c = true) :
    isWordSeparator (sanitizeChar c.toLower).toUpper.toLower = isWordSeparator c ∧
      (isWordSeparator c = false → (sanitizeChar c.toLower).toUpper.toLower = c) :=
  isAscii_induction (p := fun c => isSnakeChar c = true →
    isWordSeparator (sanitizeChar c.toLower).toUpper.toLower = isWordSeparator c ∧
      (isWordSeparator c = false → (sanitizeChar c.toLower).toUpper.toLower = c))
    (by decide) hc hsnake

theorem isSnakeChar_splitIdentWords (unicode : Unicode) {nameParts : List String}
    (hparts : ∀ part ∈ nameParts, ∀ c ∈ part.toList, isIdentChar c = true ∧ isAscii c = true) :
    ∀ c ∈ splitIdentWords unicode nameParts, isAscii c = true ∧ isSnakeChar c = true := by
  refine forall_mem_intercalate ⟨rfl, rfl⟩ fun word hword => ?_
  obtain ⟨part, hpart, rfl⟩ := List.mem_map.mp hword
  refine forall_mem_splitIdentWord (p := fun c => isAscii c = true ∧ isSnakeChar c.toLower = true)
    (fun c hc => ?_) (fun c hc => ?_) ⟨rfl, rfl⟩
  · rw [unicode.toLower_ascii c hc.1]
    exact ⟨isAscii_toLower hc.1, hc.2⟩
  · obtain ⟨c', hc', rfl⟩ := List.mem_map.mp hc
    obtain ⟨hident, hascii⟩ := hparts part hpart c' hc'
    split_ifs with hseparator
    · exact ⟨rfl, rfl⟩
    · exact ⟨hascii, isSnakeChar_toLower hascii hident (Bool.eq_false_iff.mpr hseparator)⟩

/-- Upper snake case shows the words: its letters, in lower case, have the title of the
words. -/
theorem title_toUpperSnakeCase (unicode : Unicode) {nameParts : List String}
    (hparts : ∀ part ∈ nameParts, ∀ c ∈ part.toList, isIdentChar c = true ∧ isAscii c = true) :
    title unicode true ((toUpperSnakeCase unicode nameParts).toList.map Char.toLower) =
      title unicode true (splitIdentWords unicode nameParts) := by
  have hwords := isSnakeChar_splitIdentWords unicode hparts
  have hmap : title unicode true ((((splitIdentWords unicode nameParts).map unicode.ToLower).map
        sanitizeChar).map unicode.ToUpper |>.map Char.toLower) =
      title unicode true (splitIdentWords unicode nameParts) := by
    rw [List.map_map, List.map_map, List.map_map]
    refine title_map true fun c hc => ?_
    obtain ⟨hascii, hsnake⟩ := hwords c hc
    rw [Function.comp_apply, Function.comp_apply, Function.comp_apply,
      unicode.toLower_ascii c hascii,
      unicode.toUpper_ascii _ (isAscii_sanitizeChar (isAscii_toLower hascii))]
    exact toLower_toUpper_sanitizeChar hascii hsnake
  have hunderscore : isWordSeparator (unicode.ToUpper (sanitizeChar '_')).toLower = true := by
    rw [unicode.toUpper_ascii _ rfl]
    rfl
  rw [toUpperSnakeCase, String.toList_ofList, toSnakeCase, String.toList_ofList, sanitizeIdent]
  split_ifs with hhead
  · exact hmap
  · rw [List.map_cons, List.map_cons, List.map_cons, title_cons_separator hunderscore, hmap]

end Cobalt.SourceGenerator
