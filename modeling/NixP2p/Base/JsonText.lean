import Mathlib.Data.List.Basic
import NixP2p.Base.Holdings
import NixP2p.Base.Text

/-!
# Compact JSON text

The text a JSON writer gives a value when it adds no white space: arrays and objects with commas between their items, strings that need no escape, and whole numbers. What a bound on the size of a message needs is how the size of an array depends on its items, and that a smaller number is not written with more digits.
-/

namespace JsonText

open Holdings

def quote (text : List Char) : List UInt8 := 0x22 :: Text.toUtf8 text ++ [0x22]

def decimal (n : Nat) : List UInt8 := (Nat.toDigits 10 n).map fun digit => UInt8.ofNat digit.toNat

def separated (items : List (List UInt8)) : List UInt8 := [0x2c].intercalate items

def array (items : List (List UInt8)) : List UInt8 := 0x5b :: separated items ++ [0x5d]

def object (members : List (String × List UInt8)) : List UInt8 :=
  0x7b :: separated (members.map fun member => quote member.1.toList ++ 0x3a :: member.2) ++ [0x7d]

theorem length_separated (items : List (List UInt8)) :
    (separated items).length = total (·.length + 1) items - 1 := by
  induction items with
  | nil => rfl
  | cons item items ih =>
    cases items with
    | nil => simp [separated, total, List.intercalate]
    | cons next items =>
      have hcons : separated (item :: next :: items) = item ++ 0x2c :: separated (next :: items) := by
        simp [separated, List.intercalate]
      rw [hcons, List.length_append, List.length_cons, ih]
      simp only [total, List.map_cons, List.sum_cons]
      omega

/-- An array is no longer than one whose items, each with its comma, take no less together. -/
theorem length_array_le {items others : List (List UInt8)}
    (h : total (·.length + 1) items ≤ total (·.length + 1) others) :
    (array items).length ≤ (array others).length := by
  simp only [array, List.length_append, List.length_cons, length_separated]
  omega

theorem total_filterMap_le {α β : Type} {f : α → Option β} {text : β → List UInt8}
    {other : α → List UInt8} {values : List α}
    (h : ∀ value ∈ values, ∀ image, f value = some image → (text image).length ≤ (other value).length) :
    total (·.length + 1) ((values.filterMap f).map text) ≤ total (·.length + 1) (values.map other) := by
  induction values with
  | nil => exact Nat.le_refl _
  | cons value values ih =>
    have hrest := ih fun later hlater => h later (List.mem_cons_of_mem value hlater)
    cases hf : f value with
    | none =>
      rw [List.filterMap_cons_none hf]
      simp only [total, List.map_cons, List.sum_cons] at hrest ⊢
      omega
    | some image =>
      have hvalue := h value List.mem_cons_self image hf
      rw [List.filterMap_cons_some hf]
      simp only [total, List.map_cons, List.sum_cons] at hrest ⊢
      omega

theorem length_decimal_le {m n : Nat} (h : m ≤ n) : (decimal m).length ≤ (decimal n).length := by
  have hpos : 0 < (Nat.toDigits 10 n).length := Nat.length_toDigits_pos
  have hn := (Nat.length_toDigits_le_iff (by omega) hpos).mp (Nat.le_refl _)
  rw [decimal, decimal, List.length_map, List.length_map]
  exact (Nat.length_toDigits_le_iff (by omega) hpos).mpr (by omega)

end JsonText
