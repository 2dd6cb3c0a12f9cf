import NixP2p.Base.Utf8

/-!
# Lines and their terminators

A text cut after each separator is a list of pieces in which every piece but the last ends with the separator. The pieces determine the text and the text determines the pieces, so an operation that turns pieces into pieces is an operation on the lines of the text. Decoding bytes is such an operation.
-/

namespace Text

section Pieces

variable {α : Type} {separator : α}

inductive Pieces (separator : α) : List (List α) → Prop where
  | nil : Pieces separator []
  | last {piece : List α} (hne : piece ≠ []) (hfree : separator ∉ piece) : Pieces separator [piece]
  | cons {line : List α} {rest : List (List α)} (hfree : separator ∉ line) (hrest : Pieces separator rest) :
      Pieces separator ((line ++ [separator]) :: rest)

theorem flatten_splitInclusive {isEnd : α → Bool} (text : List α) : (splitInclusive isEnd text).flatten = text := by
  induction text with
  | nil => rfl
  | cons a text ih =>
    rw [splitInclusive]
    split_ifs
    · rw [List.flatten_cons, ih]
      rfl
    · cases hsplit : splitInclusive isEnd text with
      | nil =>
        rw [hsplit] at ih
        rw [← ih]
        rfl
      | cons piece pieces =>
        rw [hsplit, List.flatten_cons] at ih
        rw [← ih]
        rfl

variable {β : Type} {pieces : List (List α)}

theorem Pieces.map {separator' : β} {f : List α → List β} (h : Pieces separator pieces)
    (hline : ∀ line, separator ∉ line → ∃ line', separator' ∉ line' ∧ f (line ++ [separator]) = line' ++ [separator'])
    (hlast : ∀ piece, piece ≠ [] → separator ∉ piece → f piece ≠ [] ∧ separator' ∉ f piece) :
    Pieces separator' (pieces.map f) := by
  induction h with
  | nil => exact .nil
  | last hne hfree =>
    obtain ⟨hne', hfree'⟩ := hlast _ hne hfree
    exact .last hne' hfree'
  | cons hfree hrest ih =>
    obtain ⟨line', hfree', heq⟩ := hline _ hfree
    rw [List.map_cons, heq]
    exact .cons hfree' ih

variable [DecidableEq α]

theorem pieces_splitInclusive (text : List α) : Pieces separator (splitInclusive (· == separator) text) := by
  induction text with
  | nil => exact .nil
  | cons a text ih =>
    rw [splitInclusive]
    by_cases ha : a = separator
    · rw [if_pos (beq_iff_eq.mpr ha), ha]
      exact Pieces.cons List.not_mem_nil ih
    rw [if_neg (by simpa using ha)]
    have hfree : ∀ piece : List α, separator ∉ piece → separator ∉ a :: piece := fun piece hpiece =>
      List.not_mem_cons_of_ne_of_not_mem (Ne.symm ha) hpiece
    generalize splitInclusive (· == separator) text = pieces at ih
    cases ih with
    | nil => exact .last (List.cons_ne_nil _ _) (hfree [] List.not_mem_nil)
    | last hne hpiece => exact .last (List.cons_ne_nil _ _) (hfree _ hpiece)
    | cons hline hrest => exact Pieces.cons (hfree _ hline) hrest

variable {line : List α}

theorem splitInclusive_of_free (hne : line ≠ []) (hfree : separator ∉ line) :
    splitInclusive (· == separator) line = [line] :=
  splitInclusive_of_forall hne fun _ ha => beq_false_of_ne fun heq => hfree (heq ▸ ha)

theorem Pieces.splitInclusive_flatten (h : Pieces separator pieces) :
    splitInclusive (· == separator) pieces.flatten = pieces := by
  induction h with
  | nil => rfl
  | last hne hfree =>
    rw [List.flatten_cons, List.flatten_nil, List.append_nil, splitInclusive_of_free hne hfree]
  | @cons line rest hfree hrest ih =>
    have hline : ∀ a ∈ line, (a == separator) = false := fun a ha => beq_false_of_ne fun heq => hfree (heq ▸ ha)
    rw [List.flatten_cons, List.append_assoc, List.singleton_append,
      splitInclusive_append hline (beq_self_eq_true separator), ih]

def unterminated (separator : α) (piece : List α) : List α :=
  if piece.getLast? = some separator then piece.dropLast else piece

@[simp] theorem unterminated_append (line : List α) : unterminated separator (line ++ [separator]) = line := by
  simp [unterminated]

theorem unterminated_of_free {piece : List α} (hfree : separator ∉ piece) : unterminated separator piece = piece := by
  rw [unterminated, if_neg fun hlast => hfree (List.mem_of_getLast? hlast)]

theorem free_of_mem_splitOnP {text : List α} (h : line ∈ text.splitOnP (· == separator)) : separator ∉ line := by
  induction text generalizing line with
  | nil =>
    rw [List.splitOnP_nil, List.mem_singleton] at h
    rw [h]
    exact List.not_mem_nil
  | cons a text ih =>
    rw [List.splitOnP_cons_eq_if_modifyHead] at h
    by_cases ha : a = separator
    · rw [if_pos (beq_iff_eq.mpr ha), List.mem_cons] at h
      rcases h with rfl | h
      · exact List.not_mem_nil
      · exact ih h
    rw [if_neg (by simpa using ha)] at h
    cases hsplit : text.splitOnP (· == separator) with
    | nil =>
      rw [hsplit] at h
      exact absurd h List.not_mem_nil
    | cons first rest =>
      rw [hsplit, List.modifyHead_cons, List.mem_cons] at h
      rw [hsplit] at ih
      rcases h with rfl | h
      · exact List.not_mem_cons_of_ne_of_not_mem (Ne.symm ha) (ih List.mem_cons_self)
      · exact ih (List.mem_cons_of_mem first h)

theorem splitOnP_pieces (text : List α) :
    text.splitOnP (· == separator) = (splitInclusive (· == separator) text).map (unterminated separator) ∨
      text.splitOnP (· == separator) = (splitInclusive (· == separator) text).map (unterminated separator) ++ [[]] := by
  have hpieces : Pieces separator (splitInclusive (· == separator) text) := pieces_splitInclusive text
  have hflatten : (splitInclusive (· == separator) text).flatten = text := flatten_splitInclusive text
  generalize splitInclusive (· == separator) text = pieces at hpieces hflatten
  subst hflatten
  induction hpieces with
  | nil => exact .inr rfl
  | @last piece hne hfree =>
    have hsingle : piece.splitOnP (· == separator) = [piece] :=
      List.splitOnP_eq_singleton fun a ha => beq_false_of_ne fun heq => hfree (heq ▸ ha)
    exact .inl (by simp [hsingle, unterminated_of_free hfree])
  | @cons line rest hfree hrest ih =>
    have hline : ∀ a ∈ line, (a == separator) = false := fun a ha => beq_false_of_ne fun heq => hfree (heq ▸ ha)
    have hfirst : (line ++ separator :: rest.flatten).splitOnP (· == separator) =
        line :: rest.flatten.splitOnP (· == separator) :=
      List.splitOnP_append_cons_of_forall_mem hline separator (beq_self_eq_true separator) rest.flatten
    rw [List.flatten_cons, List.append_assoc, List.singleton_append, hfirst, List.map_cons, unterminated_append]
    exact ih.imp (congrArg (line :: ·)) (congrArg (line :: ·))

theorem foldl_splitOnP {step : β → List α → β} (hempty : ∀ b, step b [] = b) (text : List α) (b : β) :
    (text.splitOnP (· == separator)).foldl step b =
      (splitInclusive (· == separator) text).foldl (fun b piece => step b (unterminated separator piece)) b := by
  obtain h | h := splitOnP_pieces text
  · rw [h, List.foldl_map]
  · rw [h, List.foldl_append, List.foldl_map]
    exact hempty _

theorem filterMap_splitOnP {read : List α → Option β} (hempty : read [] = none) (text : List α) :
    (text.splitOnP (· == separator)).filterMap read =
      (splitInclusive (· == separator) text).filterMap fun piece => read (unterminated separator piece) := by
  obtain h | h := splitOnP_pieces text
  · rw [h, List.filterMap_map]
    rfl
  · rw [h, List.filterMap_append, List.filterMap_map, List.filterMap_cons, hempty]
    exact List.append_nil _

end Pieces

/-- In a loop whose steps overwrite a value, the last value counts. -/
theorem foldl_lastValue {α β γ : Type} {step : β → α → β} {value : β → Option γ} {read : α → Option γ}
    (h : ∀ b a, value (step b a) = (read a).or (value b)) (ls : List α) (b : β) :
    value (ls.foldl step b) = (ls.filterMap read).getLast?.or (value b) := by
  induction ls generalizing b with
  | nil => rfl
  | cons a ls ih =>
    rw [List.foldl_cons, ih, h, List.filterMap_cons]
    cases read a with
    | none => rfl
    | some found =>
      rw [List.getLast?_cons]
      cases (ls.filterMap read).getLast? <;> rfl

variable {blank : List Char}

theorem trim_append_left (h : ∀ char ∈ blank, isWhitespace char = true) (text : List Char) :
    trim (blank ++ text) = trim text := by
  rw [trim, List.dropWhile_append_of_pos h, trim]

theorem trim_append_right (h : ∀ char ∈ blank, isWhitespace char = true) (text : List Char) :
    trim (text ++ blank) = trim text := by
  have hright : ∀ kept : List Char, (kept ++ blank).rdropWhile isWhitespace = kept.rdropWhile isWhitespace := by
    intro kept
    rw [List.rdropWhile, List.reverse_append, List.dropWhile_append_of_pos fun char hchar => h char (List.mem_reverse.mp hchar),
      List.rdropWhile]
  rw [trim, trim, List.dropWhile_append]
  split
  · rename_i hall
    have hnil : blank.dropWhile isWhitespace = [] := List.dropWhile_eq_nil_iff.mpr h
    rw [hnil, List.isEmpty_iff.mp hall]
  · exact hright _

variable {text : List Char}

theorem trim_of_ends (hfirst : ∀ char ∈ text.head?, isWhitespace char = false)
    (hlast : ∀ char ∈ text.getLast?, isWhitespace char = false) : trim text = text := by
  have hdrop : text.dropWhile isWhitespace = text := by
    cases text with
    | nil => rfl
    | cons char text => rw [List.dropWhile_cons_of_neg (by simp [hfirst char rfl])]
  rw [trim, hdrop, List.rdropWhile_eq_self_iff]
  intro hne
  simp [hlast _ (List.getLast?_eq_some_getLast hne)]

theorem trim_of_plain (h : ∀ char ∈ text, isWhitespace char = false) : trim text = text :=
  trim_of_ends (fun char hchar => h char (List.mem_of_head? hchar)) fun char hchar => h char (List.mem_of_getLast? hchar)

variable {a : UInt8}

theorem headUtf8_of_lt (ha : a.toNat < 0x80) (as : List UInt8) :
    headUtf8 a as = (some (Char.ofNat a.toNat), 0) := by
  have hlow : a < 0x80 := UInt8.lt_iff_toNat_lt.mpr ha
  rw [headUtf8.eq_def, if_pos hlow]

variable {char : Char} {as : List UInt8}

theorem headUtf8_of_ge (ha : 0x80 ≤ a.toNat) {count : Nat} (h : headUtf8 a as = (some char, count)) :
    0x80 ≤ char.toNat := by
  obtain ⟨tail, rest, -, -, hencode⟩ := exists_of_headUtf8 h
  by_contra hlow
  rw [utf8EncodeChar_of_lt (Nat.lt_of_not_le hlow)] at hencode
  have hbyte := congrArg UInt8.toNat (List.cons.inj hencode).1
  rw [toNat_ofNat_byte (by omega)] at hbyte
  omega

theorem count_headUtf8_le (a : UInt8) (as : List UInt8) : (headUtf8 a as).2 ≤ as.length := by
  rw [headUtf8.eq_def]
  split_ifs
  · exact Nat.zero_le _
  · rcases as with _ | ⟨b, as⟩
    · exact Nat.zero_le _
    · simp only [List.length_cons]
      split_ifs <;> omega
  · rcases as with _ | ⟨b, _ | ⟨c, as⟩⟩
    · exact Nat.zero_le _
    · simp only [List.length_cons]
      split_ifs <;> omega
    · simp only [List.length_cons]
      split_ifs <;> omega
  · rcases as with _ | ⟨b, _ | ⟨c, _ | ⟨d, as⟩⟩⟩
    · exact Nat.zero_le _
    · simp only [List.length_cons]
      split_ifs <;> omega
    · simp only [List.length_cons]
      split_ifs <;> omega
    · simp only [List.length_cons]
      split_ifs <;> omega
  · exact Nat.zero_le _

theorem isSecondOfThree_newline (a : UInt8) : isSecondOfThree a 0x0a = false := by
  unfold isSecondOfThree
  split_ifs <;> decide

theorem isSecondOfFour_newline (a : UInt8) : isSecondOfFour a 0x0a = false := by
  unfold isSecondOfFour
  split_ifs <;> decide

theorem headUtf8_newline (a : UInt8) (as rest : List UInt8) : headUtf8 a (as ++ 0x0a :: rest) = headUtf8 a as := by
  have htail : isTail 0x0a = false := by decide
  rw [headUtf8.eq_def, headUtf8.eq_def a as]
  split_ifs
  · rfl
  · rcases as with _ | ⟨b, as⟩
    · simp [htail]
    · rfl
  · rcases as with _ | ⟨b, _ | ⟨c, as⟩⟩
    · cases rest <;> simp [isSecondOfThree_newline]
    · cases hsecond : isSecondOfThree a b <;> simp [htail, hsecond]
    · rfl
  · rcases as with _ | ⟨b, _ | ⟨c, _ | ⟨d, as⟩⟩⟩
    · rcases rest with _ | ⟨next, _ | ⟨after, rest⟩⟩ <;> simp [isSecondOfFour_newline]
    · cases hsecond : isSecondOfFour a b <;> cases rest <;> simp [htail, hsecond]
    · cases hsecond : isSecondOfFour a b <;> cases hthird : isTail c <;> simp [htail, hsecond, hthird]
    · rfl
  · rfl

theorem scanUtf8_newline {skip : Nat} (hskip : skip ≤ as.length) (rest : List UInt8) :
    scanUtf8 skip (as ++ 0x0a :: rest) = scanUtf8 skip as ++ some '\n' :: scanUtf8 0 rest := by
  induction as generalizing skip with
  | nil =>
    obtain rfl : skip = 0 := Nat.le_zero.mp hskip
    have hfeed : headUtf8 0x0a rest = (some '\n', 0) := headUtf8_of_lt (by decide) rest
    have hscan : scanUtf8 0 (0x0a :: rest) = (headUtf8 0x0a rest).1 :: scanUtf8 (headUtf8 0x0a rest).2 rest := rfl
    rw [List.nil_append, hscan, hfeed]
    rfl
  | cons a as ih =>
    cases skip with
    | zero =>
      rw [List.cons_append, scanUtf8, scanUtf8, headUtf8_newline, ih (count_headUtf8_le a as), List.cons_append]
    | succ skip => exact ih (Nat.le_of_succ_le_succ hskip)

variable {start : List Char}

theorem dropPrefix?_eq_some {rest : List Char} : text.dropPrefix? start = some rest ↔ text = start ++ rest := by
  rw [List.dropPrefix?_eq_some_iff]
  constructor
  · rintro ⟨found, rfl, hfound⟩
    rw [beq_iff_eq.mp hfound]
  · rintro rfl
    exact ⟨start, rfl, BEq.rfl⟩

theorem fromUtf8Lossy_newline (line rest : List UInt8) :
    fromUtf8Lossy (line ++ 0x0a :: rest) = fromUtf8Lossy line ++ '\n' :: fromUtf8Lossy rest := by
  rw [fromUtf8Lossy, scanUtf8_newline (Nat.zero_le _), List.map_append, List.map_cons]
  rfl

variable {bytes : List UInt8}

theorem fromUtf8Lossy_of_fromUtf8 (h : fromUtf8 bytes = some text) : fromUtf8Lossy bytes = text := by
  rw [fromUtf8Lossy, fromUtf8_eq_some_iff.mp h, List.map_map]
  exact List.map_id text

theorem byte_of_headUtf8 (hchar : char.toNat < 0x80) (h : (headUtf8 a as).1 = some char) :
    a = UInt8.ofNat char.toNat ∧ (headUtf8 a as).2 = 0 := by
  by_cases ha : a.toNat < 0x80
  · have hvalid : a.toNat.isValidChar := .inl (by omega)
    rw [headUtf8_of_lt ha] at h ⊢
    rw [← Option.some.inj h, toNat_ofNat_char hvalid, UInt8.ofNat_toNat]
    exact ⟨rfl, rfl⟩
  · have hlarge := headUtf8_of_ge (Nat.le_of_not_lt ha) (Prod.ext h rfl)
    omega

theorem fromUtf8Lossy_eq_cons_iff (hchar : char.toNat < 0x80) :
    fromUtf8Lossy bytes = char :: text ↔
      ∃ rest, bytes = UInt8.ofNat char.toNat :: rest ∧ fromUtf8Lossy rest = text := by
  constructor
  · intro h
    cases bytes with
    | nil => cases h
    | cons a as =>
      rw [fromUtf8Lossy, scanUtf8, List.map_cons, List.cons.injEq] at h
      obtain ⟨hfirst, hrest⟩ := h
      cases hhead : (headUtf8 a as).1 with
      | none =>
        -- The replacement character is not ASCII.
        rw [hhead] at hfirst
        have hreplaced : replacement.toNat = 0xFFFD := by decide
        obtain rfl : replacement = char := hfirst
        omega
      | some found =>
        rw [hhead] at hfirst
        obtain rfl : found = char := hfirst
        obtain ⟨hbyte, hcount⟩ := byte_of_headUtf8 hchar hhead
        rw [hcount] at hrest
        exact ⟨as, by rw [hbyte], hrest⟩
  · rintro ⟨rest, rfl, rfl⟩
    have hbyte : (UInt8.ofNat char.toNat).toNat = char.toNat := toNat_ofNat_byte (by omega)
    rw [fromUtf8Lossy, scanUtf8, headUtf8_of_lt (by omega), List.map_cons, hbyte]
    exact congrArg (· :: fromUtf8Lossy rest) (Char.ofNat_toNat char)

theorem fromUtf8Lossy_eq_append_iff (hstart : ∀ char ∈ start, char.toNat < 0x80) :
    fromUtf8Lossy bytes = start ++ text ↔ ∃ rest, bytes = toUtf8 start ++ rest ∧ fromUtf8Lossy rest = text := by
  induction start generalizing bytes with
  | nil => simp [toUtf8]
  | cons char start ih =>
    obtain ⟨hchar, hstart⟩ := List.forall_mem_cons.mp hstart
    rw [List.cons_append, fromUtf8Lossy_eq_cons_iff hchar, toUtf8_cons, utf8EncodeChar_of_lt hchar]
    simp only [ih hstart, List.cons_append]
    constructor
    · rintro ⟨rest, rfl, tail, rfl, htext⟩
      exact ⟨tail, rfl, htext⟩
    · rintro ⟨tail, rfl, htext⟩
      exact ⟨_, rfl, tail, rfl, htext⟩

theorem mem_of_mem_scanUtf8 (hchar : char.toNat < 0x80) {skip : Nat} (h : some char ∈ scanUtf8 skip bytes) :
    UInt8.ofNat char.toNat ∈ bytes := by
  induction bytes generalizing skip with
  | nil => cases skip <;> cases h
  | cons a as ih =>
    cases skip with
    | succ skip => exact List.mem_cons_of_mem a (ih h)
    | zero =>
      rw [scanUtf8] at h
      rcases List.mem_cons.mp h with hfirst | hrest
      · rw [← (byte_of_headUtf8 hchar hfirst.symm).1]
        exact List.mem_cons_self
      · exact List.mem_cons_of_mem a (ih hrest)

theorem mem_of_mem_fromUtf8Lossy (hchar : char.toNat < 0x80) (h : char ∈ fromUtf8Lossy bytes) :
    UInt8.ofNat char.toNat ∈ bytes := by
  obtain ⟨found, hfound, hvalue⟩ := List.mem_map.mp h
  cases found with
  | none =>
    have hreplaced : replacement.toNat = 0xFFFD := by decide
    obtain rfl : replacement = char := hvalue
    omega
  | some found =>
    obtain rfl : found = char := hvalue
    exact mem_of_mem_scanUtf8 hchar hfound

theorem fromUtf8Lossy_ne_nil (hne : bytes ≠ []) : fromUtf8Lossy bytes ≠ [] := by
  obtain ⟨a, as, rfl⟩ := List.exists_cons_of_ne_nil hne
  rw [fromUtf8Lossy, scanUtf8, List.map_cons]
  exact List.cons_ne_nil _ _

theorem Pieces.scanUtf8_flatten {pieces : List (List UInt8)} (h : Pieces 0x0a pieces) :
    scanUtf8 0 pieces.flatten = pieces.flatMap (scanUtf8 0) := by
  induction h with
  | nil => rfl
  | last hne hpiece => simp
  | @cons line rest hline hrest ih =>
    rw [List.flatMap_cons, List.flatten_cons, List.append_assoc, List.singleton_append,
      scanUtf8_newline (Nat.zero_le _), scanUtf8_newline (Nat.zero_le _), ih, List.append_assoc]
    rfl

theorem scanUtf8_splitInclusive (bytes : List UInt8) :
    scanUtf8 0 bytes = (splitInclusive (· == 0x0a) bytes).flatMap (scanUtf8 0) := by
  rw [← (pieces_splitInclusive bytes).scanUtf8_flatten, flatten_splitInclusive]

theorem splitInclusive_fromUtf8Lossy (bytes : List UInt8) :
    splitInclusive (· == '\n') (fromUtf8Lossy bytes) = (splitInclusive (· == 0x0a) bytes).map fromUtf8Lossy := by
  have hpieces : Pieces 0x0a (splitInclusive (· == 0x0a) bytes) := pieces_splitInclusive bytes
  have hfree : ∀ line, (0x0a : UInt8) ∉ line → '\n' ∉ fromUtf8Lossy line := fun line hline hmem =>
    hline (mem_of_mem_fromUtf8Lossy (by decide) hmem)
  have hdecoded : Pieces '\n' ((splitInclusive (· == 0x0a) bytes).map fromUtf8Lossy) := by
    refine hpieces.map (fun line hline => ⟨fromUtf8Lossy line, hfree line hline, fromUtf8Lossy_newline line []⟩) ?_
    exact fun piece hne hpiece => ⟨fromUtf8Lossy_ne_nil hne, hfree piece hpiece⟩
  have hflatten : ((splitInclusive (· == 0x0a) bytes).map fromUtf8Lossy).flatten = fromUtf8Lossy bytes := by
    rw [fromUtf8Lossy, scanUtf8_splitInclusive, List.map_flatMap]
    rfl
  rw [← hflatten, hdecoded.splitInclusive_flatten]

theorem lines_fromUtf8Lossy (bytes : List UInt8) :
    lines (fromUtf8Lossy bytes) = (splitInclusive (· == 0x0a) bytes).map fun piece => chomp (fromUtf8Lossy piece) := by
  rw [lines, splitInclusive_fromUtf8Lossy, List.map_map]
  rfl

theorem fromUtf8_eq_some_iff_lossy :
    fromUtf8 bytes = some text ↔ none ∉ scanUtf8 0 bytes ∧ text = fromUtf8Lossy bytes := by
  constructor
  · intro h
    refine ⟨?_, (fromUtf8Lossy_of_fromUtf8 h).symm⟩
    rw [fromUtf8_eq_some_iff.mp h]
    simp
  · rintro ⟨hvalid, rfl⟩
    rw [fromUtf8_eq_some_iff, fromUtf8Lossy, List.map_map]
    refine (List.map_id _).symm.trans (List.map_congr_left fun char hchar => ?_)
    cases char with
    | none => exact absurd hchar hvalid
    | some char => rfl

end Text
