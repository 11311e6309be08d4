import Mathlib.Algebra.Order.Ring.Int
import Mathlib.Data.List.DropRight

/-!
# Idents of various styles

The source generator makes the names of constants and of enums from the names of metrics and event
codes, which are split into words. A word starts after a space or an underscore, and at an upper
case letter that does not follow another one.

The strings are the lists of their runes. What the package `unicode` says about runes that are not
ASCII is a parameter.

## Main definitions

* `Unicode`: the functions of the package `unicode`.
* `toSnakeCase`, `toUpperSnakeCase`, `toPascalCase`, `toCamelCase`: the styles.
* `isIdentChar`: the characters of idents.

## Main results

* `isIdentChar_toPascalCase`: an ident has no other characters.
-/

namespace Cobalt.SourceGenerator

/-- The rune is an ASCII character. -/
def isAscii (c : Char) : Bool :=
  c.toNat < 128

/-- What is true of each of the 128 ASCII characters. -/
theorem isAscii_induction {p : Char → Prop} (h : ∀ n : Fin 128, p (Char.ofNat n)) {c : Char}
    (hc : isAscii c = true) : p c := by
  have hlt : c.toNat < 128 := of_decide_eq_true hc
  have hp := h ⟨c.toNat, hlt⟩
  rwa [Char.ofNat_toNat] at hp

/-- The functions of the package `unicode` that are called. -/
structure Unicode where
  IsLetter : Char → Bool
  IsUpper : Char → Bool
  ToUpper : Char → Char
  ToLower : Char → Char
  isLetter_ascii : ∀ c, isAscii c = true → IsLetter c = c.isAlpha
  isUpper_ascii : ∀ c, isAscii c = true → IsUpper c = c.isUpper
  toUpper_ascii : ∀ c, isAscii c = true → ToUpper c = c.toUpper
  toLower_ascii : ∀ c, isAscii c = true → ToLower c = c.toLower

namespace Unicode

/-- No letters but those of ASCII. -/
def ascii : Unicode where
  IsLetter := Char.isAlpha
  IsUpper := Char.isUpper
  ToUpper := Char.toUpper
  ToLower := Char.toLower
  isLetter_ascii _ _ := rfl
  isUpper_ascii _ _ := rfl
  toUpper_ascii _ _ := rfl
  toLower_ascii _ _ := rfl

end Unicode

/-! ### Words -/

/-- `wordSeparator.MatchString`. -/
def isWordSeparator (c : Char) : Bool :=
  c == ' ' || c == '_'

/-- `wordSeparator.ReplaceAllString(name, " ")`. -/
def replaceWordSeparators (name : List Char) : List Char :=
  name.map fun c => if isWordSeparator c then ' ' else c

/-- `strings.Trim(s, " ")`. -/
def trimSpaces (s : List Char) : List Char :=
  (s.dropWhile (· == ' ')).rdropWhile (· == ' ')

/-- The variables of `splitIdentWord`. -/
structure SplitState where
  entries : List (List Char) := []
  prevChar : Char := ' '
  curWord : List Char := []

section Unicode

variable (unicode : Unicode)

/-- The body of the loop of `splitIdentWord`. -/
def splitStep (s : SplitState) (char : Char) : SplitState :=
  if unicode.IsLetter char && unicode.IsUpper char && !unicode.IsUpper s.prevChar then
    { entries :=
        if s.curWord ≠ [] ∧ trimSpaces s.curWord ≠ [] then
          s.entries ++ [trimSpaces (s.curWord.map unicode.ToLower)]
        else s.entries
      prevChar := char
      curWord := [char] }
  else { s with prevChar := char, curWord := s.curWord ++ [char] }

/-- `splitIdentWord`. -/
def splitIdentWord (name : List Char) : List Char :=
  let s := (replaceWordSeparators name).foldl (splitStep unicode) {}
  let entries :=
    if s.curWord ≠ [] then s.entries ++ [trimSpaces (s.curWord.map unicode.ToLower)] else s.entries
  [' '].intercalate entries

/-- `splitIdentWords`. -/
def splitIdentWords (nameParts : List String) : List Char :=
  [' '].intercalate (nameParts.map fun part => splitIdentWord unicode part.toList)

/-- `simpleTitle`. -/
def simpleTitle (name : List Char) : List Char :=
  let words := (replaceWordSeparators name).splitOn ' '
  [' '].intercalate ((words.filter fun word => word ≠ []).map (List.modifyHead unicode.ToUpper))

end Unicode

/-! ### Idents -/

/-- `validFirstChar`. -/
def isValidFirstChar (c : Char) : Bool :=
  c.isAlpha || c == '_'

/-- The characters that are not matched by `invalidIdentChars`. -/
def isIdentChar (c : Char) : Bool :=
  c.isAlphanum || c == '_'

/-- What an invalid character is replaced with. -/
def sanitizeChar (c : Char) : Char :=
  if isIdentChar c then c else '_'

/-- `sanitizeIdent`. -/
def sanitizeIdent (name : List Char) : List Char :=
  (if name.head?.any isValidFirstChar then name else '_' :: name).map sanitizeChar

section Unicode

variable (unicode : Unicode)

/-- `toSnakeCase`. -/
def toSnakeCase (nameParts : List String) : String :=
  .ofList (sanitizeIdent ((splitIdentWords unicode nameParts).map unicode.ToLower))

/-- `toUpperSnakeCase`. -/
def toUpperSnakeCase (nameParts : List String) : String :=
  .ofList ((toSnakeCase unicode nameParts).toList.map unicode.ToUpper)

/-- `toPascalCase`. -/
def toPascalCase (nameParts : List String) : String :=
  let capitalizedWords := simpleTitle unicode (splitIdentWords unicode nameParts)
  .ofList (sanitizeIdent (capitalizedWords.splitOn ' ').flatten)

/-- `toCamelCase`. -/
def toCamelCase (nameParts : List String) : String :=
  .ofList ((toPascalCase unicode nameParts).toList.modifyHead unicode.ToLower)

end Unicode

example : toPascalCase .ascii ["I", "don't", "know", "what_i", "expected"] =
    "IDon_tKnowWhatIExpected" := by
  decide

example : toUpperSnakeCase .ascii ["I Hope This Works (DoesIt?)"] =
    "I_HOPE_THIS_WORKS___DOES_IT__" := by
  decide

theorem isIdentChar_sanitizeChar (c : Char) : isIdentChar (sanitizeChar c) = true := by
  rw [sanitizeChar]
  split_ifs with hc
  · exact hc
  · rfl

theorem isIdentChar_of_mem_sanitizeIdent {name : List Char} {c : Char}
    (hc : c ∈ sanitizeIdent name) : isIdentChar c = true := by
  obtain ⟨c', -, rfl⟩ := List.mem_map.mp hc
  exact isIdentChar_sanitizeChar c'

/-- **An ident has no other characters.** -/
theorem isIdentChar_toPascalCase {unicode : Unicode} {nameParts : List String} {c : Char}
    (hc : c ∈ (toPascalCase unicode nameParts).toList) : isIdentChar c = true := by
  rw [toPascalCase, String.toList_ofList] at hc
  exact isIdentChar_of_mem_sanitizeIdent hc

end Cobalt.SourceGenerator
