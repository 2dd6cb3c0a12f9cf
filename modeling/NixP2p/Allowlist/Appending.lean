import Mathlib.Algebra.Ring.Nat
import NixP2p.Allowlist.RecordFile
import NixP2p.Base.Utf8

/-!
# Appending to the allowlist file

A file that appends have written holds the lines of the records, and then perhaps the start of one more line. As long as it is within the size that a load accepts, a load yields the records and an append puts its line where the torn one began. Beyond that size neither holds: a load refuses the file, and an append reads only its front and cuts or overwrites what stands behind.
-/

namespace NixP2p.Allowlist

open Wire HashTable Text

theorem committedLen_append {front tail : List UInt8} (hfront : front = [] ∨ front.getLast? = some 0x0a)
    (htail : 0x0a ∉ tail) : committedLen (front ++ tail) = front.length := by
  have hdrop : (front ++ tail).rdropWhile (· != 0x0a) = front := by
    rw [List.rdropWhile, List.reverse_append, List.dropWhile_append_of_pos, ← List.rdropWhile]
    · obtain rfl | hlast := hfront
      · rfl
      rw [List.rdropWhile_eq_self_iff]
      intro hne
      rw [List.getLast?_eq_getLast_of_ne_nil hne] at hlast
      rw [Option.some.inj hlast]
      decide
    · intro byte hbyte
      have hne : byte ≠ 0x0a := fun h => htail (h ▸ List.mem_reverse.mp hbyte)
      exact bne_iff_ne.mpr hne
  rw [committedLen, hdrop]

/-- A line goes behind the last line feed that is read, over whatever stands there. -/
theorem writeLine_append {front tail line : List UInt8} (hfront : front = [] ∨ front.getLast? = some 0x0a)
    (hroom : front.length ≤ maxAllowlistFileBytes)
    (htail : 0x0a ∉ tail.take (maxAllowlistFileBytes - front.length))
    (hcover : tail.take (maxAllowlistFileBytes - front.length) = [] → tail.length ≤ line.length) :
    writeLine (front ++ tail) line = front ++ line := by
  have hread : (front ++ tail).take maxAllowlistFileBytes =
      front ++ tail.take (maxAllowlistFileBytes - front.length) := by
    rw [List.take_append, List.take_of_length_le hroom]
  rw [writeLine, hread, committedLen_append hfront htail]
  by_cases hnil : tail.take (maxAllowlistFileBytes - front.length) = []
  · have hlength := hcover hnil
    have hpast : (front ++ tail).length ≤ front.length + line.length := by
      rw [List.length_append]
      omega
    rw [hnil, List.append_nil, if_neg (not_not.mpr rfl), writeAt, List.take_left, List.drop_of_length_le hpast,
      List.append_nil]
  have hlength : front.length ≠ (front ++ tail.take (maxAllowlistFileBytes - front.length)).length := by
    have hpos := List.length_pos_iff.mpr hnil
    rw [List.length_append]
    omega
  rw [if_pos hlength, List.take_left, writeAt, List.take_length,
    List.drop_of_length_le (Nat.le_add_right _ _), List.append_nil]

theorem feed_not_mem_toUtf8 {text : List Char} (htext : ∀ char ∈ text, char.toNat < 0x80 ∧ char ≠ '\n') :
    (0x0a : UInt8) ∉ toUtf8 text := by
  intro hmem
  obtain ⟨char, hchar, hbyte⟩ := (mem_toUtf8 fun char hchar => (htext char hchar).1).mp hmem
  have hnat : char.toNat = 10 := by
    have h := congrArg UInt8.toNat hbyte
    rw [UInt8.toNat_ofNat_of_lt' ((htext char hchar).1.trans (by decide))] at h
    exact h.symm
  exact (htext char hchar).2 (Char.toNat_inj.mp hnat)

def numberedNar (n : Nat) : PublicNar := ⟨⟨beArray 32 n⟩, 1⟩

theorem numberedNar_injective {m n : Nat} (hm : m < 256 ^ 32) (hn : n < 256 ^ 32)
    (h : numberedNar m = numberedNar n) : m = n := by
  have hbytes : beBytes 32 m = beBytes 32 n := congrArg (fun record => record.narHash.bytes.1) h
  rw [← ofBe_beBytes hm, hbytes, ofBe_beBytes hn]

theorem nodup_numbered {n : Nat} (hn : n ≤ 256 ^ 32) : ((List.range n).map numberedNar).Nodup := by
  refine List.nodup_range.map_on fun m hm k hk h => ?_
  exact numberedNar_injective ((List.mem_range.mp hm).trans_le hn) ((List.mem_range.mp hk).trans_le hn) h

section Lines

variable [Blake3Mac] (macKey : Bytes 32) {record : PublicNar} {char : Char}

theorem mem_recordText (hchar : char ∈ recordText macKey record) :
    char ∈ "sha256:0123456789abcdfghijklmnpqrsvwxyz".toList ∨ char.isDigit = true ∨ char = ' ' ∨
      char ∈ "0123456789abcdef".toList := by
  simp only [recordText, recordCanonical, recordMac, List.mem_append, List.mem_cons, showU64] at hchar
  obtain (hchar | rfl | hchar) | rfl | hchar := hchar
  · exact .inl (NarHashKey.mem_display hchar)
  · exact .inr (.inr (.inl rfl))
  · exact .inr (.inl (isDigit_of_mem_toDigits hchar))
  · exact .inr (.inr (.inl rfl))
  · exact .inr (.inr (.inr (Hex.mem_encode hchar)))

theorem ascii_recordText (hchar : char ∈ recordText macKey record) : 0x20 ≤ char.toNat ∧ char.toNat < 0x80 := by
  have hkey : ∀ char ∈ "sha256:0123456789abcdfghijklmnpqrsvwxyz".toList, 0x20 ≤ char.toNat ∧ char.toNat < 0x80 :=
    fun char hchar => of_decide_eq_true (List.all_eq_true.mp
      (show "sha256:0123456789abcdfghijklmnpqrsvwxyz".toList.all
        (fun char => decide (0x20 ≤ char.toNat ∧ char.toNat < 0x80)) = true by decide) char hchar)
  have hhex : ∀ char ∈ "0123456789abcdef".toList, 0x20 ≤ char.toNat ∧ char.toNat < 0x80 :=
    fun char hchar => of_decide_eq_true (List.all_eq_true.mp
      (show "0123456789abcdef".toList.all
        (fun char => decide (0x20 ≤ char.toNat ∧ char.toNat < 0x80)) = true by decide) char hchar)
  obtain h | h | rfl | h := mem_recordText macKey hchar
  · exact hkey char h
  · simp only [Char.isDigit, Bool.and_eq_true, decide_eq_true_eq, ge_iff_le, UInt32.le_iff_toNat_le] at h
    have hlow : 48 ≤ char.toNat := h.1
    have hhigh : char.toNat ≤ 57 := h.2
    omega
  · decide
  · exact hhex char h

theorem oneLine_recordText (hchar : char ∈ recordText macKey record) :
    char.toNat < 0x80 ∧ char ≠ '\n' ∧ char ≠ '\r' := by
  obtain ⟨hlow, hhigh⟩ := ascii_recordText macKey hchar
  refine ⟨hhigh, fun h => ?_, fun h => ?_⟩
  · rw [h] at hlow
    exact absurd hlow (by decide)
  · rw [h] at hlow
    exact absurd hlow (by decide)

theorem ascii_line (hchar : char ∈ recordText macKey record ++ ['\n']) : char.toNat < 0x80 := by
  obtain hchar | hchar := List.mem_append.mp hchar
  · exact (ascii_recordText macKey hchar).2
  · rw [List.mem_singleton.mp hchar]
    decide

theorem length_recordText (record : PublicNar) :
    (recordText macKey record).length = 125 + (showU64 record.narSize).length := by
  rw [recordText, recordCanonical, List.length_append, List.length_append, NarHashKey.length_display,
    List.length_cons, List.length_cons, recordMac, Hex.length_encode,
    (Blake3Mac.keyedHash macKey (toUtf8 (recordCanonical record))).2]
  omega

theorem parseRecord_recordText (record : PublicNar) : parseRecord macKey (recordText macKey record) = .ok record := by
  have hkey : ' ' ∉ record.narHash.display := fun h => absurd (NarHashKey.mem_display h) (by decide)
  have hsize : ' ' ∉ showU64 record.narSize := fun h => absurd (isDigit_of_mem_toDigits h) (by decide)
  rw [recordText, recordCanonical, List.append_assoc, List.cons_append, parseRecord, splitOnce_append hkey]
  dsimp only
  rw [splitOnce_append hsize]
  dsimp only
  rw [NarHashKey.fromStr_display]
  dsimp only
  rw [parseU64_showU64]
  dsimp only
  rw [if_pos rfl]

def committedText (records : List PublicNar) : List Char := unlines (records.map (recordText macKey))

theorem committedText_concat (records : List PublicNar) (record : PublicNar) :
    committedText macKey (records ++ [record]) = committedText macKey records ++ (recordText macKey record ++ ['\n']) := by
  rw [committedText, committedText, unlines, unlines, List.map_append, List.flatMap_append, List.map_singleton,
    List.flatMap_singleton]

theorem ascii_committedText {records : List PublicNar} (hchar : char ∈ committedText macKey records) :
    char.toNat < 0x80 := by
  obtain ⟨line, hline, hchar⟩ := List.mem_flatMap.mp hchar
  obtain ⟨record, -, rfl⟩ := List.mem_map.mp hline
  exact ascii_line macKey hchar

theorem length_committedText (records : List PublicNar) : 126 * records.length ≤ (committedText macKey records).length := by
  induction records with
  | nil => exact Nat.zero_le _
  | cons record records ih =>
    have hline := length_recordText macKey record
    rw [committedText, List.map_cons, unlines, List.flatMap_cons, ← unlines, ← committedText, List.length_append,
      List.length_append, List.length_cons, List.length_singleton]
    omega

/-- The file holds the lines of the records, and then the start of a line. -/
def Holds (file : Option (List UInt8)) (records : List PublicNar) : Prop :=
  ∃ tail, (∀ char ∈ tail, char.toNat < 0x80 ∧ char ≠ '\n') ∧
    file.getD [] = toUtf8 (committedText macKey records ++ tail)

theorem parseSegments_committed {tail : List Char} (htail : ∀ char ∈ tail, char ≠ '\n') {records out : List PublicNar}
    (hroom : out.length + records.length ≤ maxAllowlistRecords) :
    parseSegments macKey (splitInclusive (· == '\n') (committedText macKey records ++ tail)) out =
      .ok (out ++ records) := by
  have hnotEnd : ∀ text : List Char, (∀ char ∈ text, char ≠ '\n') → ∀ char ∈ text, (char == '\n') = false :=
    fun text htext char hchar => beq_eq_false_iff_ne.mpr (htext char hchar)
  induction records generalizing out with
  | nil =>
    rw [List.append_nil]
    by_cases hnil : tail = []
    · rw [hnil]
      rfl
    have hlast : tail.getLast? ≠ some '\n' := fun h => htail '\n' (List.mem_of_getLast? h) rfl
    change parseSegments macKey (splitInclusive (· == '\n') tail) out = _
    rw [splitInclusive_of_forall hnil (hnotEnd tail htail), parseSegments, if_pos hlast]
  | cons record records ih =>
    have hline : ∀ char ∈ recordText macKey record, char ≠ '\n' ∧ char ≠ '\r' :=
      fun char hchar => (oneLine_recordText macKey hchar).2
    have hlength := length_recordText macKey record
    have hne : recordText macKey record ≠ [] := by
      intro h
      rw [h] at hlength
      simp only [List.length_nil] at hlength
      omega
    have hstrip : (recordText macKey record).rdropWhile (· == '\r') = recordText macKey record := by
      rw [List.rdropWhile_eq_self_iff]
      intro hnil
      exact fun h => (hline _ (List.getLast_mem hnil)).2 (beq_iff_eq.mp h)
    have hsplit : committedText macKey (record :: records) ++ tail =
        recordText macKey record ++ '\n' :: (committedText macKey records ++ tail) := by
      simp only [committedText, unlines, List.map_cons, List.flatMap_cons, List.append_assoc, List.cons_append,
        List.nil_append]
    have hrest : (out ++ [record]).length + records.length ≤ maxAllowlistRecords := by
      rw [List.length_cons] at hroom
      rw [List.length_append, List.length_singleton]
      omega
    have hfull : ¬ maxAllowlistRecords ≤ out.length := by
      rw [List.length_append, List.length_singleton] at hrest
      omega
    rw [hsplit, splitInclusive_append (hnotEnd _ fun char hchar => (hline char hchar).1) rfl, parseSegments,
      if_neg (not_not.mpr List.getLast?_concat), List.dropLast_concat, hstrip]
    dsimp only
    rw [if_neg hne, if_neg hfull, parseRecord_recordText]
    dsimp only
    rw [ih hrest, List.append_assoc]
    rfl

theorem length_le_of_fits {records : List PublicNar} {tail : List Char}
    (hbound : (committedText macKey records ++ tail).length ≤ maxAllowlistFileBytes) :
    records.length ≤ maxAllowlistRecords := by
  have hlines := length_committedText macKey records
  rw [List.length_append] at hbound
  unfold maxAllowlistFileBytes at hbound
  unfold maxAllowlistRecords
  omega

variable {macKey} {file : Option (List UInt8)} {records : List PublicNar}

theorem load_of_holds (hholds : Holds macKey file records) (hbound : (file.getD []).length ≤ maxAllowlistFileBytes) :
    load macKey file = .ok records := by
  obtain ⟨tail, htail, hfile⟩ := hholds
  have hascii : ∀ char ∈ committedText macKey records ++ tail, char.toNat < 0x80 := by
    intro char hchar
    obtain hchar | hchar := List.mem_append.mp hchar
    · exact ascii_committedText macKey hchar
    · exact (htail char hchar).1
  rw [hfile, length_toUtf8 hascii] at hbound
  cases file with
  | none =>
    have hnone : records = [] := by
      have hempty := congrArg List.length hfile
      rw [length_toUtf8 hascii, List.length_append] at hempty
      have hlines := length_committedText macKey records
      change 0 = _ at hempty
      exact List.length_eq_zero_iff.mp (by omega)
    rw [hnone]
    rfl
  | some bytes =>
    obtain rfl : bytes = _ := hfile
    rw [load, if_neg (Nat.not_lt.mpr ((length_toUtf8 hascii).trans_le hbound)),
      List.take_of_length_le ((length_toUtf8 hascii).trans_le hbound), parseCommitted, fromUtf8_toUtf8]
    have hroom : ([] : List PublicNar).length + records.length ≤ maxAllowlistRecords := by
      rw [List.length_nil, Nat.zero_add]
      exact length_le_of_fits macKey hbound
    exact parseSegments_committed macKey (fun char hchar => (htail char hchar).2) hroom

theorem committedText_ends (records : List PublicNar) :
    toUtf8 (committedText macKey records) = [] ∨ (toUtf8 (committedText macKey records)).getLast? = some 0x0a := by
  cases records using List.reverseRecOn with
  | nil => exact .inl rfl
  | append_singleton records record =>
    right
    rw [committedText_concat, ← List.append_assoc, toUtf8_append]
    exact List.getLast?_concat

theorem getD_writeLine (hholds : Holds macKey file records) (hbound : (file.getD []).length ≤ maxAllowlistFileBytes)
    (line : List UInt8) : writeLine (file.getD []) line = toUtf8 (committedText macKey records) ++ line := by
  obtain ⟨tail, htail, hfile⟩ := hholds
  rw [hfile, toUtf8_append] at hbound ⊢
  rw [List.length_append] at hbound
  have hwhole : (toUtf8 tail).take (maxAllowlistFileBytes - (toUtf8 (committedText macKey records)).length) =
      toUtf8 tail := List.take_of_length_le (by omega)
  refine writeLine_append (committedText_ends records) (by omega) ?_ ?_
  · rw [hwhole]
    exact feed_not_mem_toUtf8 htail
  · intro hnil
    rw [hwhole] at hnil
    rw [hnil]
    exact Nat.zero_le _

def Attempt.whole (macKey : Bytes 32) (attempt : Attempt) : Bool :=
  match attempt.ended with
  | .refused _ => false
  | .broken written => decide ((recordLine macKey attempt.record).length ≤ written)
  | .done => true

theorem Attempt.whole_broken {written : Nat} :
    Attempt.whole macKey ⟨record, .broken written⟩ = true ↔ (recordLine macKey record).length ≤ written := by
  rw [Attempt.whole, decide_eq_true_iff]

theorem holds_append (hholds : Holds macKey file records)
    (hbound : (file.getD []).length ≤ maxAllowlistFileBytes) (record : PublicNar) (ended : AppendEnd) :
    Holds macKey (append macKey file record ended).file
      (records ++ if Attempt.whole macKey ⟨record, ended⟩ then [record] else []) := by
  have hline : ∀ char ∈ recordText macKey record ++ ['
'], char.toNat < 0x80 := by
    intro char hchar
    obtain hchar | hchar := List.mem_append.mp hchar
    · exact (ascii_recordText macKey hchar).2
    · rw [List.mem_singleton.mp hchar]
      decide
  have hwhole : Holds macKey (some (writeLine (file.getD []) (recordLine macKey record))) (records ++ [record]) := by
    refine ⟨[], fun _ h => absurd h List.not_mem_nil, ?_⟩
    rw [Option.getD_some, getD_writeLine hholds hbound, committedText_concat, List.append_nil, toUtf8_append]
    rfl
  cases ended with
  | refused created =>
    obtain ⟨tail, htail, hfile⟩ := hholds
    refine ⟨tail, htail, ?_⟩
    simp only [append, Attempt.whole, Bool.false_eq_true, if_false, List.append_nil]
    split
    · exact hfile
    · exact hfile
  | done => exact hwhole
  | broken written =>
    by_cases hlength : (recordLine macKey record).length ≤ written
    · rw [if_pos (Attempt.whole_broken.mpr hlength), append, List.take_of_length_le hlength]
      exact hwhole
    rw [if_neg (mt Attempt.whole_broken.mp hlength), List.append_nil, append]
    have hshort : written ≤ (recordText macKey record).length := by
      rw [recordLine, length_toUtf8 hline, List.length_append, List.length_singleton] at hlength
      omega
    refine ⟨(recordText macKey record).take written, fun char hchar => ?_, ?_⟩
    · obtain ⟨hhigh, hfeed, -⟩ := oneLine_recordText macKey (List.mem_of_mem_take hchar)
      exact ⟨hhigh, hfeed⟩
    · rw [Option.getD_some, getD_writeLine hholds hbound, recordLine, take_toUtf8 hline,
        List.take_append_of_le_length hshort, toUtf8_append]

def appendAll (macKey : Bytes 32) (records : List PublicNar) : Option (List UInt8) :=
  records.foldl (fun file record => (append macKey file record .done).file) none

theorem appendAll_concat (records : List PublicNar) (record : PublicNar) :
    appendAll macKey (records ++ [record]) =
      some (writeLine ((appendAll macKey records).getD []) (recordLine macKey record)) := by
  rw [appendAll, List.foldl_append]
  rfl

theorem holds_of_getD (h : file.getD [] = toUtf8 (committedText macKey records)) : Holds macKey file records :=
  ⟨[], fun _ h => absurd h List.not_mem_nil, by rw [h, List.append_nil]⟩

theorem getD_appendAll (hfits : (committedText macKey records.dropLast).length ≤ maxAllowlistFileBytes) :
    (appendAll macKey records).getD [] = toUtf8 (committedText macKey records) := by
  induction records using List.reverseRecOn with
  | nil => rfl
  | append_singleton records record ih =>
    rw [List.dropLast_concat] at hfits
    have hshorter : (committedText macKey records.dropLast).length ≤ (committedText macKey records).length := by
      cases records using List.reverseRecOn with
      | nil => exact Nat.le_refl _
      | append_singleton records record =>
        rw [List.dropLast_concat, committedText_concat, List.length_append]
        exact Nat.le_add_right _ _
    have hfile := ih (hshorter.trans hfits)
    have hbound : ((appendAll macKey records).getD []).length ≤ maxAllowlistFileBytes := by
      rw [hfile, length_toUtf8 fun _ => ascii_committedText macKey]
      exact hfits
    rw [appendAll_concat, Option.getD_some, getD_writeLine (holds_of_getD hfile) hbound, committedText_concat,
      toUtf8_append]
    rfl

theorem length_recordLine (record : PublicNar) :
    (recordLine macKey record).length = 126 + (showU64 record.narSize).length := by
  have hline : ∀ char ∈ recordText macKey record ++ ['\n'], char.toNat < 0x80 := fun _ => ascii_line macKey
  rw [recordLine, length_toUtf8 hline, List.length_append, length_recordText, List.length_singleton]
  omega

theorem length_committedText_eq (records : List PublicNar) :
    (committedText macKey records).length = (records.map fun record => (recordLine macKey record).length).sum := by
  induction records with
  | nil => rfl
  | cons record records ih =>
    rw [committedText, List.map_cons, unlines, List.flatMap_cons, ← unlines, ← committedText, List.length_append, ih,
      List.length_append, length_recordText, List.length_singleton, List.map_cons, List.sum_cons, length_recordLine]
    omega

/-- Appends whose lines fit into the size that a load accepts lose nothing. -/
theorem appends_kept (macKey : Bytes 32) (records : List PublicNar)
    (hfits : (records.map fun record => (recordLine macKey record).length).sum ≤ maxAllowlistFileBytes) :
    load macKey (appendAll macKey records) = .ok records := by
  rw [← length_committedText_eq] at hfits
  have hshorter : (committedText macKey records.dropLast).length ≤ maxAllowlistFileBytes := by
    cases records using List.reverseRecOn with
    | nil => exact Nat.zero_le _
    | append_singleton records record =>
      rw [committedText_concat, List.length_append] at hfits
      rw [List.dropLast_concat]
      exact (Nat.le_add_right _ _).trans hfits
  have hfile := getD_appendAll hshorter
  refine load_of_holds (holds_of_getD hfile) ?_
  rw [hfile, length_toUtf8 fun _ => ascii_committedText macKey]
  exact hfits

theorem length_numberedLine (macKey : Bytes 32) (n : Nat) : (recordLine macKey (numberedNar n)).length = 127 := by
  have hsize : (showU64 (numberedNar n).narSize).length = 1 := by
    change (showU64 1).length = 1
    decide
  rw [length_recordLine, hsize]

theorem length_numbered (numbers : List Nat) :
    (committedText macKey (numbers.map numberedNar)).length = 127 * numbers.length := by
  induction numbers with
  | nil => rfl
  | cons n numbers ih =>
    rw [length_committedText_eq] at ih ⊢
    rw [List.map_cons, List.map_cons, List.sum_cons, ih, length_numberedLine, List.length_cons]
    omega

theorem appendAll_past (macKey : Bytes 32) {n : Nat} (hfits : 127 * n ≤ maxAllowlistFileBytes)
    (hpast : maxAllowlistFileBytes < 127 * (n + 1)) :
    appendAll macKey ((List.range (n + 2)).map numberedNar) =
      some (toUtf8 (committedText macKey ((List.range n ++ [n + 1]).map numberedNar))) := by
  have hrange : ∀ m, (List.range (m + 1)).map numberedNar = (List.range m).map numberedNar ++ [numberedNar m] := by
    intro m
    rw [List.range_succ, List.map_append, List.map_singleton]
  have hlength : (committedText macKey ((List.range n).map numberedNar)).length = 127 * n := by
    rw [length_numbered, List.length_range]
  have hfile : (appendAll macKey ((List.range (n + 1)).map numberedNar)).getD [] =
      toUtf8 (committedText macKey ((List.range n).map numberedNar)) ++ recordLine macKey (numberedNar n) := by
    rw [hrange, getD_appendAll, committedText_concat, toUtf8_append]
    · rfl
    · rw [List.dropLast_concat, hlength]
      exact hfits
  have hbytes : (toUtf8 (committedText macKey ((List.range n).map numberedNar))).length = 127 * n := by
    rw [length_toUtf8 fun _ => ascii_committedText macKey, hlength]
  rw [hrange (n + 1), appendAll_concat, hfile, List.map_append, List.map_singleton, committedText_concat, toUtf8_append]
  refine congrArg some (writeLine_append (committedText_ends _) (hbytes.trans_le hfits) ?_ fun _ => ?_)
  · -- what is read of the last line stops before its line feed
    have hread : maxAllowlistFileBytes - 127 * n ≤ (recordText macKey (numberedNar n)).length := by
      have hline := length_numberedLine macKey n
      rw [recordLine, length_toUtf8 fun _ => ascii_line macKey, List.length_append, List.length_singleton] at hline
      omega
    rw [hbytes, recordLine, take_toUtf8 fun _ => ascii_line macKey, List.take_append_of_le_length hread]
    refine feed_not_mem_toUtf8 fun char hchar => ?_
    obtain ⟨hhigh, hfeed, -⟩ := oneLine_recordText macKey (List.mem_of_mem_take hchar)
    exact ⟨hhigh, hfeed⟩
  · rw [length_numberedLine, length_numberedLine]

theorem load_past (macKey : Bytes 32) {n : Nat} (hfits : 127 * n ≤ maxAllowlistFileBytes)
    (hpast : maxAllowlistFileBytes < 127 * (n + 1)) :
    load macKey (appendAll macKey ((List.range (n + 1)).map numberedNar)) = .error (.tooLarge (127 * (n + 1))) := by
  have hfile : (appendAll macKey ((List.range (n + 1)).map numberedNar)).getD [] =
      toUtf8 (committedText macKey ((List.range (n + 1)).map numberedNar)) := by
    refine getD_appendAll ?_
    rw [List.range_succ, List.map_append, List.map_singleton, List.dropLast_concat, length_numbered, List.length_range]
    exact hfits
  have hlength : ((appendAll macKey ((List.range (n + 1)).map numberedNar)).getD []).length = 127 * (n + 1) := by
    rw [hfile, length_toUtf8 fun _ => ascii_committedText macKey, length_numbered, List.length_range]
  rw [List.range_succ, List.map_append, List.map_singleton, appendAll_concat] at hlength ⊢
  rw [Option.getD_some] at hlength
  rw [load, hlength, if_pos hpast]

end Lines

@[reducible] def keyMac : Blake3Mac := ⟨fun macKey _ => macKey⟩

def plainKey : Bytes 32 := (numberedNar 0).narHash.bytes

theorem appends_kept_twice : @load keyMac plainKey (@appendAll keyMac plainKey [numberedNar 0, numberedNar 1]) =
    .ok [numberedNar 0, numberedNar 1] :=
  @appends_kept keyMac plainKey [numberedNar 0, numberedNar 1] (by decide +kernel)

/-- Of 528418 appends the last but one leaves the file past the bound, and the last one overwrites its line. -/
theorem append_loses_record :
    ((List.range 528418).map numberedNar).Nodup ∧
    @load keyMac plainKey (@appendAll keyMac plainKey ((List.range 528417).map numberedNar)) =
      .error (.tooLarge 67108959) ∧
    @appendAll keyMac plainKey ((List.range 528418).map numberedNar) =
      some (toUtf8 (@committedText keyMac plainKey ((List.range 528416 ++ [528417]).map numberedNar))) ∧
    numberedNar 528416 ∉ (List.range 528416 ++ [528417]).map numberedNar := by
  have hfits : 127 * 528416 ≤ maxAllowlistFileBytes := by norm_num [maxAllowlistFileBytes]
  have hpast : maxAllowlistFileBytes < 127 * (528416 + 1) := by norm_num [maxAllowlistFileBytes]
  refine ⟨nodup_numbered (by norm_num), @load_past keyMac plainKey _ hfits hpast,
    @appendAll_past keyMac plainKey _ hfits hpast, fun hmem => ?_⟩
  obtain ⟨m, hm, heq⟩ := List.mem_map.mp hmem
  have hle : m < 528416 ∨ m = 528417 := by
    obtain hm | hm := List.mem_append.mp hm
    · exact .inl (List.mem_range.mp hm)
    · exact .inr (List.mem_singleton.mp hm)
  have hwidth : (528418 : Nat) ≤ 256 ^ 32 := by norm_num
  have := numberedNar_injective (by omega) (by omega) heq
  omega

end NixP2p.Allowlist
