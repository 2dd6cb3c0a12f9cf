import Mathlib.Algebra.Ring.Nat
import Mathlib.Data.List.DropRight
import Mathlib.Data.List.Induction

/-!
# Text

Strings as lists of characters, with the standard library operations a line-oriented format is read and written with. A maximal malformed UTF-8 sequence becomes one replacement character, a line ends at a line feed with one carriage return before it dropped, white space is Unicode's, and a number may carry leading zeros and one plus sign but must fit.
-/

namespace Text

/-! ### UTF-8 -/

def isTail (byte : UInt8) : Bool := decide (0x80 ≤ byte ∧ byte ≤ 0xBF)

/-- The second byte of a three-byte form: no overlong form and no surrogate. -/
def isSecondOfThree (first second : UInt8) : Bool :=
  if first = 0xE0 then decide (0xA0 ≤ second ∧ second ≤ 0xBF)
  else if first = 0xED then decide (0x80 ≤ second ∧ second ≤ 0x9F)
  else isTail second

/-- The second byte of a four-byte form: no overlong form and nothing above the last code point. -/
def isSecondOfFour (first second : UInt8) : Bool :=
  if first = 0xF0 then decide (0x90 ≤ second ∧ second ≤ 0xBF)
  else if first = 0xF4 then decide (0x80 ≤ second ∧ second ≤ 0x8F)
  else isTail second

def bits (byte lead : UInt8) : Nat := byte.toNat - lead.toNat

/-- The first character of a byte string, `none` for a malformed sequence, and how many bytes follow it. -/
def headUtf8 (a : UInt8) (as : List UInt8) : Option Char × Nat :=
  if a < 0x80 then (some (Char.ofNat a.toNat), 0)
  else if 0xC2 ≤ a ∧ a ≤ 0xDF then
    match as with
    | b :: _ =>
      if isTail b then (some (Char.ofNat (bits a 0xC0 * 64 + bits b 0x80)), 1) else (none, 0)
    | [] => (none, 0)
  else if 0xE0 ≤ a ∧ a ≤ 0xEF then
    match as with
    | b :: c :: _ =>
      if isSecondOfThree a b = false then (none, 0)
      else if isTail c then
        (some (Char.ofNat ((bits a 0xE0 * 64 + bits b 0x80) * 64 + bits c 0x80)), 2)
      else (none, 1)
    | [b] => (none, if isSecondOfThree a b then 1 else 0)
    | [] => (none, 0)
  else if 0xF0 ≤ a ∧ a ≤ 0xF4 then
    match as with
    | b :: c :: d :: _ =>
      if isSecondOfFour a b = false then (none, 0)
      else if isTail c = false then (none, 1)
      else if isTail d then
        (some (Char.ofNat (((bits a 0xF0 * 64 + bits b 0x80) * 64 + bits c 0x80) * 64 + bits d 0x80)), 3)
      else (none, 2)
    | [b, c] => (none, if isSecondOfFour a b = false then 0 else if isTail c then 2 else 1)
    | [b] => (none, if isSecondOfFour a b then 1 else 0)
    | [] => (none, 0)
  else (none, 0)

/-- The characters of a byte string after skipping some bytes, `none` for each malformed sequence. -/
def scanUtf8 : Nat → List UInt8 → List (Option Char)
  | _, [] => []
  | skip + 1, _ :: as => scanUtf8 skip as
  | 0, a :: as => (headUtf8 a as).1 :: scanUtf8 (headUtf8 a as).2 as

def replacement : Char := Char.ofNat 0xFFFD

def fromUtf8Lossy (bytes : List UInt8) : List Char :=
  (scanUtf8 0 bytes).map fun char => char.getD replacement

def fromUtf8 (bytes : List UInt8) : Option (List Char) := (scanUtf8 0 bytes).mapM fun char => char

def toUtf8 (text : List Char) : List UInt8 := text.flatMap String.utf8EncodeChar

/-! ### Lines and fields -/

def splitInclusive {α : Type} (isEnd : α → Bool) : List α → List (List α)
  | [] => []
  | a :: as =>
    if isEnd a then [a] :: splitInclusive isEnd as
    else match splitInclusive isEnd as with
      | [] => [[a]]
      | piece :: pieces => (a :: piece) :: pieces

def chomp (line : List Char) : List Char :=
  if line.getLast? = some '\n' then
    if line.dropLast.getLast? = some '\r' then line.dropLast.dropLast else line.dropLast
  else line

def lines (text : List Char) : List (List Char) := (splitInclusive (· == '\n') text).map chomp

def splitOnce (separator : Char) : List Char → Option (List Char × List Char)
  | [] => none
  | char :: text =>
    if char = separator then some ([], text)
    else (splitOnce separator text).map fun parts => (char :: parts.1, parts.2)

def findSubslice {α : Type} [BEq α] (needle : List α) : List α → Option Nat
  | [] => if needle.isEmpty then some 0 else none
  | a :: as => if needle.isPrefixOf (a :: as) then some 0 else (findSubslice needle as).map (· + 1)

def isWhitespace (char : Char) : Bool :=
  char.toNat == 0x20 || (0x09 ≤ char.toNat && char.toNat ≤ 0x0D) || char.toNat == 0x85 ||
    char.toNat == 0xA0 || char.toNat == 0x1680 || (0x2000 ≤ char.toNat && char.toNat ≤ 0x200A) ||
    char.toNat == 0x2028 || char.toNat == 0x2029 || char.toNat == 0x202F || char.toNat == 0x205F ||
    char.toNat == 0x3000

def trim (text : List Char) : List Char := (text.dropWhile isWhitespace).rdropWhile isWhitespace

/-! ### Decimal numbers -/

def showU64 (x : UInt64) : List Char := Nat.toDigits 10 x.toNat

def dropPlus : List Char → List Char
  | '+' :: digits => digits
  | digits => digits

def parseU64 (text : List Char) : Option UInt64 :=
  if dropPlus text = [] ∨ (dropPlus text).all Char.isDigit = false then none
  else if Nat.ofDigitChars 10 (dropPlus text) 0 < 2 ^ 64 then
    some (UInt64.ofNat (Nat.ofDigitChars 10 (dropPlus text) 0))
  else none

/-! ### Files of entries -/

def unlines (ls : List (List Char)) : List Char := ls.flatMap (· ++ ['\n'])

/-- A file of a header line and one entry a line; blank lines and lines that do not parse are passed over. -/
def readEntries {α : Type} (header : List Char) (parse : List Char → Option α) (text : List Char) :
    List α :=
  match lines text with
  | [] => []
  | first :: rest =>
    if first = header then rest.filterMap fun line => if trim line = [] then none else parse line
    else []

/-! ### What is written reads back -/

def Plain (field : List Char) : Prop := field ≠ [] ∧ ∀ char ∈ field, isWhitespace char = false

def fieldLine (fields : List (List Char)) : List Char := [' '].intercalate fields

variable {α : Type} {isEnd : α → Bool} {line : List α} {terminator : α}

theorem splitInclusive_append {rest : List α} (hline : ∀ a ∈ line, isEnd a = false)
    (hend : isEnd terminator = true) :
    splitInclusive isEnd (line ++ terminator :: rest) =
      (line ++ [terminator]) :: splitInclusive isEnd rest := by
  induction line with
  | nil => simp [splitInclusive, hend]
  | cons a line ih =>
    have hrest := ih fun b hb => hline b (List.mem_cons_of_mem a hb)
    simp [splitInclusive, hline a List.mem_cons_self, hrest]

theorem chomp_newline {line : List Char} (hreturn : line.getLast? ≠ some '\r') : chomp (line ++ ['\n']) = line := by
  simp [chomp, hreturn]

variable {ls : List (List Char)}

theorem lines_unlines (hls : ∀ line ∈ ls, '\n' ∉ line ∧ line.getLast? ≠ some '\r') : lines (unlines ls) = ls := by
  induction ls with
  | nil => rfl
  | cons line ls ih =>
    obtain ⟨hfeed, hreturn⟩ := hls line List.mem_cons_self
    have hsplit : splitInclusive (· == '\n') (unlines (line :: ls)) =
        (line ++ ['\n']) :: splitInclusive (· == '\n') (unlines ls) := by
      rw [unlines, List.flatMap_cons, List.append_assoc]
      apply splitInclusive_append
      · intro char hchar
        have hne : char ≠ '\n' := fun h => hfeed (h ▸ hchar)
        simpa using hne
      · rfl
    rw [lines, hsplit, List.map_cons, chomp_newline hreturn]
    exact congrArg (line :: ·) (ih fun other hother => hls other (List.mem_cons_of_mem line hother))

variable {text : List Char} {char : Char}

theorem trim_ne_nil (hmem : char ∈ text) (hchar : isWhitespace char = false) : trim text ≠ [] := by
  intro htrim
  have hblank : ∀ other ∈ text.dropWhile isWhitespace, isWhitespace other = true :=
    List.rdropWhile_eq_nil_iff.mp htrim
  have hnil : text.dropWhile isWhitespace = [] := by
    cases hdrop : text.dropWhile isWhitespace with
    | nil => rfl
    | cons first rest =>
      have hne : text.dropWhile isWhitespace ≠ [] := by simp [hdrop]
      have hfirst := List.head_dropWhile_not isWhitespace hne
      rw [hblank _ (List.head_mem hne)] at hfirst
      cases hfirst
  have hall := List.dropWhile_eq_nil_iff.mp hnil char hmem
  rw [hchar] at hall
  cases hall

section FieldLine

variable {fields : List (List Char)} (hplain : ∀ field ∈ fields, Plain field)
include hplain

theorem fieldLine_char {char : Char} (hchar : char ∈ fieldLine fields) :
    char = ' ' ∨ isWhitespace char = false := by
  induction fields with
  | nil => cases hchar
  | cons field fields ih =>
    cases fields with
    | nil =>
      have hmem : char ∈ field := by simpa [fieldLine] using hchar
      exact .inr ((hplain field List.mem_cons_self).2 char hmem)
    | cons next fields =>
      have hmem : char ∈ field ∨ char = ' ' ∨ char ∈ fieldLine (next :: fields) := by
        simpa [fieldLine, List.intercalate] using hchar
      rcases hmem with hfield | hblank | hrest
      · exact .inr ((hplain field List.mem_cons_self).2 char hfield)
      · exact .inl hblank
      · exact ih (fun other hother => hplain other (List.mem_cons_of_mem field hother)) hrest

theorem splitOn_fieldLine (hne : fields ≠ []) : (fieldLine fields).splitOn ' ' = fields := by
  apply List.splitOn_intercalate
  · intro field hfield hblank
    have hspace := (hplain field hfield).2 ' ' hblank
    cases hspace
  · exact hne

theorem trim_fieldLine_ne_nil (hne : fields ≠ []) : trim (fieldLine fields) ≠ [] := by
  obtain ⟨field, rest, rfl⟩ := List.exists_cons_of_ne_nil hne
  obtain ⟨hfield, hvisible⟩ := hplain field List.mem_cons_self
  obtain ⟨char, chars, rfl⟩ := List.exists_cons_of_ne_nil hfield
  have hchar := hvisible char List.mem_cons_self
  have hmem : char ∈ fieldLine ((char :: chars) :: rest) := by
    cases rest <;> simp [fieldLine, List.intercalate]
  exact trim_ne_nil hmem hchar

theorem fieldLine_oneLine : '\n' ∉ fieldLine fields ∧ '\r' ∉ fieldLine fields := by
  constructor <;> intro hmem <;> rcases fieldLine_char hplain hmem with h | h <;> cases h

end FieldLine

variable {parse : List Char → Option α} {header : List Char}

theorem readEntries_unlines {write : α → List Char} {entries : List α} (hheader : '\n' ∉ header ∧ '\r' ∉ header)
    (hline : ∀ entry ∈ entries, '\n' ∉ write entry ∧ '\r' ∉ write entry)
    (hvisible : ∀ entry ∈ entries, trim (write entry) ≠ [])
    (hparse : ∀ entry ∈ entries, parse (write entry) = some entry) :
    readEntries header parse (unlines (header :: entries.map write)) = entries := by
  have hlines : lines (unlines (header :: entries.map write)) = header :: entries.map write := by
    apply lines_unlines
    intro line hmem
    have hends : ∀ {line : List Char}, '\n' ∉ line ∧ '\r' ∉ line → '\n' ∉ line ∧ line.getLast? ≠ some '\r' :=
      fun h => ⟨h.1, fun hlast => h.2 (List.mem_of_getLast? hlast)⟩
    rcases List.mem_cons.mp hmem with rfl | hwritten
    · exact hends hheader
    · obtain ⟨entry, hentry, rfl⟩ := List.mem_map.mp hwritten
      exact hends (hline entry hentry)
  rw [readEntries, hlines]
  simp only [if_true, List.filterMap_map]
  rw [List.filterMap_congr fun entry hentry => ?_, List.filterMap_some]
  simp [hvisible entry hentry, hparse entry hentry]

theorem exists_parse_of_mem_readEntries {entry : α} (h : entry ∈ readEntries header parse text) :
    ∃ line, parse line = some entry := by
  unfold readEntries at h
  cases hlines : lines text with
  | nil =>
    rw [hlines] at h
    cases h
  | cons first rest =>
    rw [hlines] at h
    by_cases hheader : first = header
    · simp only [if_pos hheader, List.mem_filterMap] at h
      obtain ⟨line, -, hline⟩ := h
      by_cases hblank : trim line = []
      · rw [if_pos hblank] at hline
        cases hline
      · rw [if_neg hblank] at hline
        exact ⟨line, hline⟩
    · simp only [if_neg hheader, List.not_mem_nil] at h

theorem isDigit_of_mem_toDigits {n : Nat} (hchar : char ∈ Nat.toDigits 10 n) :
    char.isDigit = true :=
  Nat.isDigit_of_mem_toDigits (by omega) (by omega) hchar

theorem dropPlus_toDigits (n : Nat) : dropPlus (Nat.toDigits 10 n) = Nat.toDigits 10 n := by
  unfold dropPlus
  split
  · rename_i rest heq
    have hplus := isDigit_of_mem_toDigits (heq ▸ List.mem_cons_self : '+' ∈ Nat.toDigits 10 n)
    cases hplus
  · rfl

theorem parseU64_toDigits (n : Nat) :
    parseU64 (Nat.toDigits 10 n) = if n < 2 ^ 64 then some (UInt64.ofNat n) else none := by
  have hall : (Nat.toDigits 10 n).all Char.isDigit = true :=
    List.all_eq_true.mpr fun char hchar => isDigit_of_mem_toDigits hchar
  have hvalue : Nat.ofDigitChars 10 (Nat.toDigits 10 n) 0 = n := Nat.ofDigitChars_ten_toDigits
  rw [parseU64, dropPlus_toDigits, hall, hvalue, if_neg (by simp)]

theorem parseU64_showU64 (x : UInt64) : parseU64 (showU64 x) = some x := by
  rw [showU64, parseU64_toDigits, if_pos x.toNat_lt, UInt64.ofNat_toNat]

theorem digitChar_of_isDigit (h : char.isDigit = true) :
    char.toNat - '0'.toNat < 10 ∧ Nat.digitChar (char.toNat - '0'.toNat) = char := by
  simp only [Char.isDigit, Bool.and_eq_true, decide_eq_true_eq, ge_iff_le, UInt32.le_iff_toNat_le] at h
  have hlow : 48 ≤ char.toNat := h.1
  have hhigh : char.toNat ≤ 57 := h.2
  have hzero : '0'.toNat = 48 := rfl
  have hsmall : char.toNat - '0'.toNat < 10 := by omega
  refine ⟨hsmall, Char.toNat_inj.mp ?_⟩
  rw [Nat.toNat_digitChar_of_lt_ten hsmall]
  omega

theorem toDigits_ofDigitChars {raw : List Char} (hne : raw ≠ []) (hdigits : ∀ char ∈ raw, char.isDigit = true)
    (hplain : 1 < raw.length → raw.head? ≠ some '0') : Nat.toDigits 10 (Nat.ofDigitChars 10 raw 0) = raw := by
  induction raw using List.reverseRecOn with
  | nil => exact absurd rfl hne
  | append_singleton front last ih =>
    obtain ⟨hsmall, hlast⟩ := digitChar_of_isDigit (hdigits last (by simp))
    have hsingle : Nat.toDigits 10 (last.toNat - '0'.toNat) = [last] := by
      rw [Nat.toDigits_of_lt_base hsmall, hlast]
    rw [Nat.ofDigitChars_append, Nat.ofDigitChars_cons, Nat.ofDigitChars_nil]
    cases front with
    | nil => simpa using hsingle
    | cons first rest =>
      have hfirst : first ≠ '0' := by simpa using hplain (by simp)
      have hfront := ih (List.cons_ne_nil _ _) (fun char hchar => hdigits char (List.mem_append_left _ hchar))
        fun _ => by simpa using hfirst
      -- The digits before the last are not those of zero.
      have hpos : 0 < Nat.ofDigitChars 10 (first :: rest) 0 := by
        refine Nat.pos_of_ne_zero fun hzero => hfirst ?_
        rw [hzero, Nat.toDigits_zero] at hfront
        exact (List.cons.inj hfront).1.symm
      rw [← Nat.toDigits_append_toDigits (by omega) hpos hsmall, hfront, hsingle]

theorem head?_toDigits_ne_zero {n : Nat} (hn : n ≠ 0) : (Nat.toDigits 10 n).head? ≠ some '0' := by
  have hdigit : ∀ digit < 10, Nat.digitChar digit = '0' → digit = 0 := by decide
  induction n using Nat.strongRecOn with
  | ind n ih =>
    rw [Nat.toDigits_eq_if (by decide)]
    split_ifs with hsmall
    · exact fun hzero => hn (hdigit n hsmall (Option.some.inj hzero))
    · rw [List.head?_append_of_ne_nil _ Nat.toDigits_ne_nil]
      exact ih (n / 10) (by omega) (by omega)

theorem toNat_of_isDigit (h : char.isDigit = true) : 48 ≤ char.toNat ∧ char.toNat ≤ 57 := by
  simp only [Char.isDigit, Bool.and_eq_true, decide_eq_true_eq, ge_iff_le, UInt32.le_iff_toNat_le] at h
  exact h

theorem isWhitespace_of_isDigit (h : char.isDigit = true) : isWhitespace char = false := by
  have hrange := toNat_of_isDigit h
  simp [isWhitespace]
  omega

theorem plain_showU64 (x : UInt64) : Plain (showU64 x) :=
  ⟨Nat.toDigits_ne_nil, fun _ hchar => isWhitespace_of_isDigit (isDigit_of_mem_toDigits hchar)⟩

/-! ### ASCII -/

theorem toUtf8_cons (char : Char) (text : List Char) :
    toUtf8 (char :: text) = String.utf8EncodeChar char ++ toUtf8 text := List.flatMap_cons

theorem utf8EncodeChar_of_lt (h : char.toNat < 0x80) : String.utf8EncodeChar char = [UInt8.ofNat char.toNat] := by
  have hle : char.val.toNat ≤ 0x7f := Nat.le_of_lt_succ h
  simp only [String.utf8EncodeChar, hle, if_true]
  rfl

theorem ascii_of_all (h : text.all (fun char => decide (char.toNat < 0x80)) = true) :
    ∀ char ∈ text, char.toNat < 0x80 :=
  fun char hchar => of_decide_eq_true (List.all_eq_true.mp h char hchar)

theorem toUtf8_of_ascii (h : ∀ char ∈ text, char.toNat < 0x80) :
    toUtf8 text = text.map fun char => UInt8.ofNat char.toNat := by
  induction text with
  | nil => rfl
  | cons char text ih =>
    rw [toUtf8_cons, utf8EncodeChar_of_lt (h char List.mem_cons_self), List.map_cons,
      ih fun other hother => h other (List.mem_cons_of_mem char hother)]
    rfl

theorem length_toUtf8 (h : ∀ char ∈ text, char.toNat < 0x80) : (toUtf8 text).length = text.length := by
  rw [toUtf8_of_ascii h, List.length_map]

theorem take_toUtf8 (h : ∀ char ∈ text, char.toNat < 0x80) (n : Nat) :
    (toUtf8 text).take n = toUtf8 (text.take n) := by
  rw [toUtf8_of_ascii h, toUtf8_of_ascii fun char hchar => h char (List.mem_of_mem_take hchar), List.map_take]

theorem toUtf8_injective {left right : List Char} (h : toUtf8 left = toUtf8 right) : left = right := by
  have hbytes : (String.ofList left).toByteArray = (String.ofList right).toByteArray := congrArg List.toByteArray h
  exact String.ofList_inj.mp (String.toByteArray_inj.mp hbytes)

theorem mem_toUtf8 (h : ∀ char ∈ text, char.toNat < 0x80) {byte : UInt8} :
    byte ∈ toUtf8 text ↔ ∃ char ∈ text, byte = UInt8.ofNat char.toNat := by
  unfold toUtf8
  rw [List.mem_flatMap]
  constructor
  · intro hmem
    obtain ⟨char, hchar, hbyte⟩ := hmem
    rw [utf8EncodeChar_of_lt (h char hchar)] at hbyte
    exact ⟨char, hchar, List.mem_singleton.mp hbyte⟩
  · intro hmem
    obtain ⟨char, hchar, rfl⟩ := hmem
    refine ⟨char, hchar, ?_⟩
    rw [utf8EncodeChar_of_lt (h char hchar)]
    exact List.mem_singleton.mpr rfl

/-! ### Lines without a last line feed -/

def joinLines (ls : List (List Char)) : List Char := ['\n'].intercalate ls

theorem joinLines_cons (line next : List Char) (ls : List (List Char)) :
    joinLines (line :: next :: ls) = line ++ '\n' :: joinLines (next :: ls) := by
  simp [joinLines, List.intercalate]

theorem mem_intercalate {separator a : α} {ls : List (List α)} (h : a ∈ [separator].intercalate ls) :
    a = separator ∨ ∃ line ∈ ls, a ∈ line := by
  induction ls with
  | nil => cases h
  | cons line ls ih =>
    cases ls with
    | nil =>
      have hmem : a ∈ line := by simpa [List.intercalate] using h
      exact .inr ⟨line, List.mem_cons_self, hmem⟩
    | cons next ls =>
      have hsplit : [separator].intercalate (line :: next :: ls) =
          line ++ separator :: [separator].intercalate (next :: ls) := by simp [List.intercalate]
      rw [hsplit, List.mem_append, List.mem_cons] at h
      obtain hline | hseparator | hrest := h
      · exact .inr ⟨line, List.mem_cons_self, hline⟩
      · exact .inl hseparator
      · obtain hseparator | ⟨other, hother, hmem⟩ := ih hrest
        · exact .inl hseparator
        · exact .inr ⟨other, List.mem_cons_of_mem line hother, hmem⟩

theorem splitInclusive_of_forall (hne : line ≠ []) (hline : ∀ a ∈ line, isEnd a = false) :
    splitInclusive isEnd line = [line] := by
  induction line with
  | nil => exact absurd rfl hne
  | cons a line ih =>
    rw [splitInclusive, if_neg (by rw [hline a List.mem_cons_self]; exact Bool.false_ne_true)]
    by_cases hnil : line = []
    · subst hnil
      rfl
    · rw [ih hnil fun b hb => hline b (List.mem_cons_of_mem a hb)]

variable {piece : List α}

theorem getLast?_of_splitInclusive {text : List α} {pieces : List (List α)}
    (hsplit : piece :: pieces <:+ splitInclusive isEnd text) (hpieces : pieces ≠ []) :
    ∃ terminator, isEnd terminator = true ∧ piece.getLast? = some terminator := by
  induction text generalizing piece pieces with
  | nil => cases List.suffix_nil.mp hsplit
  | cons a text ih =>
    rw [splitInclusive] at hsplit
    split at hsplit
    · rename_i hend
      obtain hhere | hlater := List.suffix_cons_iff.mp hsplit
      · cases hhere
        exact ⟨a, hend, rfl⟩
      · exact ih hlater hpieces
    split at hsplit
    · obtain hhere | hlater := List.suffix_cons_iff.mp hsplit
      · cases hhere
        exact absurd rfl hpieces
      · cases List.suffix_nil.mp hlater
    rename_i next rest hrest
    obtain hhere | hlater := List.suffix_cons_iff.mp hsplit
    · cases hhere
      obtain ⟨terminator, hend, hlast⟩ := ih ⟨[], hrest.symm⟩ hpieces
      refine ⟨terminator, hend, ?_⟩
      rw [List.getLast?_cons, hlast]
      rfl
    · exact ih (hrest ▸ hlater.trans (List.suffix_cons next rest)) hpieces

theorem lines_joinLines (hls : ∀ line ∈ ls, line ≠ [] ∧ '\n' ∉ line ∧ '\r' ∉ line) :
    lines (joinLines ls) = ls := by
  have hfeed : ∀ line ∈ ls, ∀ char ∈ line, (char == '\n') = false := by
    intro line hline char hchar
    have hne : char ≠ '\n' := fun heq => (hls line hline).2.1 (heq ▸ hchar)
    simpa using hne
  induction ls with
  | nil => rfl
  | cons line ls ih =>
    obtain ⟨hne, hnone, hreturn⟩ := hls line List.mem_cons_self
    cases ls with
    | nil =>
      have hlast : line.getLast? ≠ some '\n' := fun h => hnone (List.mem_of_getLast? h)
      have hjoin : joinLines [line] = line := by simp [joinLines, List.intercalate]
      rw [hjoin, lines, splitInclusive_of_forall hne (hfeed line List.mem_cons_self), List.map_singleton, chomp,
        if_neg hlast]
    | cons next ls =>
      have hrest := ih (fun other hother => hls other (List.mem_cons_of_mem line hother))
        fun other hother => hfeed other (List.mem_cons_of_mem line hother)
      rw [joinLines_cons, lines, splitInclusive_append (hfeed line List.mem_cons_self) rfl, List.map_cons,
        chomp_newline fun hlast => hreturn (List.mem_of_getLast? hlast)]
      exact congrArg (line :: ·) hrest

variable {separator : Char} {key value : List Char}

theorem splitOnce_append (hkey : separator ∉ key) :
    splitOnce separator (key ++ separator :: value) = some (key, value) := by
  induction key with
  | nil => rw [List.nil_append, splitOnce, if_pos rfl]
  | cons char key ih =>
    have hne : char ≠ separator := fun h => hkey (h ▸ List.mem_cons_self)
    rw [List.cons_append, splitOnce, if_neg hne, ih fun h => hkey (List.mem_cons_of_mem char h)]
    rfl

theorem eq_of_splitOnce (h : splitOnce separator text = some (key, value)) : text = key ++ separator :: value := by
  induction text generalizing key with
  | nil => cases h
  | cons char text ih =>
    rw [splitOnce] at h
    split at h
    · rename_i heq
      cases h
      rw [heq]
      rfl
    obtain ⟨⟨rest, after⟩, hrest, hparts⟩ := Option.map_eq_some_iff.mp h
    cases hparts
    rw [ih hrest]
    rfl

theorem not_mem_of_splitOnce (h : splitOnce separator text = some (key, value)) : separator ∉ key := by
  induction text generalizing key with
  | nil => cases h
  | cons char text ih =>
    rw [splitOnce] at h
    split at h
    · cases h
      exact List.not_mem_nil
    rename_i hne
    obtain ⟨⟨rest, after⟩, hrest, hparts⟩ := Option.map_eq_some_iff.mp h
    cases hparts
    exact List.not_mem_cons_of_ne_of_not_mem (Ne.symm hne) (ih hrest)

theorem toUtf8_append (left right : List Char) : toUtf8 (left ++ right) = toUtf8 left ++ toUtf8 right :=
  List.flatMap_append

theorem toUtf8_joinLines (ls : List (List Char)) :
    toUtf8 (joinLines ls) = [0x0a].intercalate (ls.map toUtf8) := by
  induction ls with
  | nil => rfl
  | cons line ls ih =>
    cases ls with
    | nil => simp [joinLines, List.intercalate]
    | cons next ls =>
      rw [joinLines_cons, toUtf8_append, toUtf8_cons, ih]
      simp [List.intercalate, utf8EncodeChar_of_lt]

/-! ### Subslices -/

section Subslices

variable {α : Type} [BEq α] [LawfulBEq α] {needle haystack : List α} {index : Nat}

omit [LawfulBEq α] in
theorem findSubslice_cons (needle : List α) (a : α) (as : List α) : findSubslice needle (a :: as) =
    if needle.isPrefixOf (a :: as) then some 0 else (findSubslice needle as).map (· + 1) := rfl

theorem findSubslice_room (h : findSubslice needle haystack = some index) :
    index + needle.length ≤ haystack.length := by
  induction haystack generalizing index with
  | nil =>
    unfold findSubslice at h
    split at h
    · rename_i hempty
      obtain rfl := Option.some.inj h
      rw [List.isEmpty_iff.mp hempty]
      exact Nat.le_refl 0
    · cases h
  | cons a as ih =>
    rw [findSubslice_cons] at h
    split at h
    · rename_i hhere
      obtain rfl := Option.some.inj h
      have := (List.isPrefixOf_iff_prefix.mp hhere).length_le
      omega
    obtain ⟨found, hfound, rfl⟩ := Option.map_eq_some_iff.mp h
    have := ih hfound
    rw [List.length_cons]
    omega

theorem findSubslice_append (h : findSubslice needle haystack = some index) (rest : List α) :
    findSubslice needle (haystack ++ rest) = some index := by
  induction haystack generalizing index with
  | nil =>
    unfold findSubslice at h
    split at h
    · rename_i hempty
      obtain rfl := Option.some.inj h
      rw [List.isEmpty_iff.mp hempty, List.nil_append]
      cases rest with
      | nil => rfl
      | cons a as => rfl
    · cases h
  | cons a as ih =>
    rw [findSubslice_cons] at h
    rw [List.cons_append, findSubslice_cons, ← List.cons_append]
    split at h
    · rename_i hhere
      have hlater := (List.isPrefixOf_iff_prefix.mp hhere).trans (List.prefix_append (a :: as) rest)
      rw [if_pos (List.isPrefixOf_iff_prefix.mpr hlater)]
      exact h
    rename_i hhere
    obtain ⟨found, hfound, rfl⟩ := Option.map_eq_some_iff.mp h
    have hroom := findSubslice_room hfound
    have hnot : ¬needle.isPrefixOf (a :: as ++ rest) = true := by
      intro hlater
      refine hhere (List.isPrefixOf_iff_prefix.mpr ?_)
      refine List.prefix_of_prefix_length_le (List.isPrefixOf_iff_prefix.mp hlater)
        (List.prefix_append _ _) ?_
      rw [List.length_cons]
      omega
    rw [if_neg hnot, ih hfound]
    rfl

end Subslices

theorem findSubslice_skip [BEq α] [LawfulBEq α] {first : α} {needle : List α} (hpiece : first ∉ piece)
    (rest : List α) : findSubslice (first :: needle) (piece ++ rest) =
      (findSubslice (first :: needle) rest).map (· + piece.length) := by
  induction piece with
  | nil =>
    rw [List.nil_append]
    exact (Option.map_id' (x := findSubslice (first :: needle) rest)).symm
  | cons a piece ih =>
    have hne : first ≠ a := fun h => hpiece (h ▸ List.mem_cons_self)
    have hnot : ¬(first :: needle).isPrefixOf (a :: (piece ++ rest)) = true := by
      rw [List.isPrefixOf_iff_prefix, List.cons_prefix_cons]
      exact fun h => hne h.1
    rw [List.cons_append, findSubslice_cons, if_neg hnot, ih fun h => hpiece (List.mem_cons_of_mem a h),
      Option.map_map]
    rfl

theorem findSubslice_intercalate [BEq α] [LawfulBEq α] {ls : List (List α)} (hne : ls ≠ [])
    (hls : ∀ line ∈ ls, line ≠ [] ∧ terminator ∉ line) (rest : List α) :
    findSubslice [terminator, terminator] ([terminator].intercalate ls ++ terminator :: terminator :: rest) =
      some ([terminator].intercalate ls).length := by
  induction ls with
  | nil => exact absurd rfl hne
  | cons line ls ih =>
    obtain ⟨-, hline⟩ := hls line List.mem_cons_self
    cases ls with
    | nil =>
      have hjoin : [terminator].intercalate [line] = line := by simp [List.intercalate]
      rw [hjoin, findSubslice_skip hline, findSubslice_cons, if_pos (by simp)]
      exact congrArg some (Nat.zero_add _)
    | cons next ls =>
      have hrest := ih (List.cons_ne_nil _ _) fun other hother => hls other (List.mem_cons_of_mem line hother)
      have hjoin : [terminator].intercalate (line :: next :: ls) =
          line ++ terminator :: [terminator].intercalate (next :: ls) := by
        simp [List.intercalate]
      -- the next line opens with something else
      obtain ⟨hnonempty, hnext⟩ := hls next (List.mem_cons_of_mem line List.mem_cons_self)
      obtain ⟨a, as, rfl⟩ := List.exists_cons_of_ne_nil hnonempty
      have hhead : ∃ tail, [terminator].intercalate ((a :: as) :: ls) = a :: tail := by
        cases ls with
        | nil => exact ⟨as, by simp [List.intercalate]⟩
        | cons other ls => exact ⟨as ++ terminator :: [terminator].intercalate (other :: ls), by simp [List.intercalate]⟩
      obtain ⟨tail, htail⟩ := hhead
      have hnot : ¬[terminator, terminator].isPrefixOf
          (terminator :: ([terminator].intercalate ((a :: as) :: ls) ++ terminator :: terminator :: rest)) = true := by
        rw [htail, List.isPrefixOf_iff_prefix, List.cons_append, List.cons_prefix_cons, List.cons_prefix_cons]
        exact fun h => hnext (h.2.1 ▸ List.mem_cons_self)
      rw [hjoin, List.append_assoc, findSubslice_skip hline, List.cons_append, findSubslice_cons, if_neg hnot, hrest]
      simp only [Option.map_some, List.length_append, List.length_cons]
      congr 1
      omega

end Text
