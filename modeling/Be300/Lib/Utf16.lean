/-
  Be300.Lib.Utf16 — UTF-16, little-endian, decoded as Python does with `errors="replace"`.

  A surrogate without its partner and a byte left over become U+FFFD. Text without
  surrogates is what it decodes to (`decodeUnits_iff`).
-/

import Be300.Lib.Bytes

namespace Be300.Lib.Utf16

/-- The units, and whether a byte is left over. -/
def unitsOf : List UInt8 → List Nat × Bool
  | a :: b :: rest => ((a.toNat + 256 * b.toNat) :: (unitsOf rest).1, (unitsOf rest).2)
  | [_] => ([], true)
  | [] => ([], false)

def high (u : Nat) : Prop := 0xD800 ≤ u ∧ u < 0xDC00
def low (u : Nat) : Prop := 0xDC00 ≤ u ∧ u < 0xE000

instance (u : Nat) : Decidable (high u) := inferInstanceAs (Decidable (_ ∧ _))
instance (u : Nat) : Decidable (low u) := inferInstanceAs (Decidable (_ ∧ _))

/-- An odd byte at the end goes with a high surrogate before it. -/
def decodeUnits (odd : Bool) : List Nat → List Nat
  | [] => if odd then [0xFFFD] else []
  | [u] => if high u then [0xFFFD] else (if low u then 0xFFFD else u) :: (if odd then [0xFFFD] else [])
  | u :: v :: rest =>
    if high u then
      if low v then (0x10000 + (u - 0xD800) * 0x400 + (v - 0xDC00)) :: decodeUnits odd rest
        else 0xFFFD :: decodeUnits odd (v :: rest)
    else (if low u then 0xFFFD else u) :: decodeUnits odd (v :: rest)

def decode (bytes : List UInt8) : List Nat := decodeUnits (unitsOf bytes).2 (unitsOf bytes).1

def encode (text : List Nat) : List UInt8 :=
  text.flatMap fun c =>
    if c < 0x10000 then le 2 c else le 2 (0xD800 + (c - 0x10000) / 0x400) ++ le 2 (0xDC00 + (c - 0x10000) % 0x400)

section Units

variable {u : List Nat}

theorem unitsOf_le (c : Nat) (l : List UInt8) : unitsOf (le 2 c ++ l) = ((c % 65536) :: (unitsOf l).1, (unitsOf l).2) := by
  show (((UInt8.ofNat c).toNat + 256 * (UInt8.ofNat (c / 256)).toNat) :: (unitsOf l).1, (unitsOf l).2) = _
  rw [UInt8.toNat_ofNat', UInt8.toNat_ofNat', show c % 2 ^ 8 + 256 * (c / 256 % 2 ^ 8) = c % 65536 by omega]

theorem unitsOf_append (u : List Nat) (l : List UInt8) :
    unitsOf ((u.flatMap fun c => le 2 c) ++ l) = (u.map (· % 65536) ++ (unitsOf l).1, (unitsOf l).2) := by
  induction u with
  | nil => rfl
  | cons c u ih => rw [List.flatMap_cons, List.append_assoc, unitsOf_le, ih, List.map_cons, List.cons_append]

theorem cons_above {text l : List Nat} {c : Nat} (htext : ∀ c ∈ text, c < 0xD800) (hc : 0xD800 ≤ c) : c :: l ≠ text := by
  intro heq
  have hlow := htext c (by rw [← heq]; exact List.mem_cons_self)
  omega

theorem cons_plain {text l l' : List Nat} {c : Nat} (htext : ∀ c ∈ text, c < 0xD800)
    (ih : ∀ {text : List Nat}, (∀ c ∈ text, c < 0xD800) → (l = text ↔ l' = text)) :
    (if low c then 0xFFFD else c) :: l = text ↔ c :: l' = text := by
  by_cases hlow : low c
  · rw [if_pos hlow]
    exact iff_of_false (cons_above htext (by decide)) (cons_above htext (by have := hlow.1; omega))
  · rw [if_neg hlow]
    cases text with
    | nil => simp
    | cons t text =>
      rw [List.cons.injEq, List.cons.injEq, ih fun x hx => htext x (List.mem_cons_of_mem t hx)]

/-- Text below the surrogates decodes to itself, and nothing else decodes to it. -/
theorem decodeUnits_iff {text : List Nat} (htext : ∀ c ∈ text, c < 0xD800) : decodeUnits false u = text ↔ u = text := by
  generalize hodd : false = odd
  fun_induction decodeUnits odd u generalizing text with
  | case1 h =>
    rw [← hodd] at h
    cases h
  | case2 => exact Iff.rfl
  | case3 u hu => exact iff_of_false (cons_above htext (by decide)) (cons_above htext hu.1)
  | case4 u hu =>
    rw [← hodd]
    exact cons_plain htext fun _ => Iff.rfl
  | case5 u v rest hu hv ih => exact iff_of_false (cons_above htext (by omega)) (cons_above htext hu.1)
  | case6 u v rest hu hv ih => exact iff_of_false (cons_above htext (by decide)) (cons_above htext hu.1)
  | case7 u v rest hu ih => exact cons_plain htext ih

end Units

end Be300.Lib.Utf16
