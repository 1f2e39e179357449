import Tftp.Proofs.Codec
import Tftp.Text.Decimal

namespace Tftp

namespace Decimal

theorem init_le_ofDigitChars (cs : List Char) (init : Nat) : init ≤ Nat.ofDigitChars 10 cs init := by
  induction cs generalizing init with
  | nil => exact Nat.le_refl init
  | cons c cs ih =>
    rw [Nat.ofDigitChars_cons]
    have h := ih (10 * init + (c.toNat - '0'.toNat))
    omega

theorem readDigits_eq (greatest : Nat) (cs : List Char) (init : Nat) (hd : ∀ c ∈ cs, c.isDigit = true)
    (hg : Nat.ofDigitChars 10 cs init ≤ greatest) :
    readDigits greatest init cs = .ok (Nat.ofDigitChars 10 cs init) := by
  induction cs generalizing init with
  | nil => rfl
  | cons c cs ih =>
    have hn : init * 10 + digit c = 10 * init + (c.toNat - '0'.toNat) := by
      rw [digit, Nat.mul_comm]
    rw [Nat.ofDigitChars_cons] at hg ⊢
    have hle := init_le_ofDigitChars cs (10 * init + (c.toNat - '0'.toNat))
    rw [readDigits, if_pos (hd c List.mem_cons_self), hn, if_pos (Nat.le_trans hle hg)]
    exact ih _ (fun x hx => hd x (List.mem_cons_of_mem c hx)) hg

theorem readChars_unsigned (greatest : Nat) (c : Char) (cs : List Char) (hc : c ≠ '+') :
    readChars greatest (c :: cs) = readDigits greatest 0 (c :: cs) := by
  cases cs with
  | nil => rw [readChars] <;> simp [hc]
  | cons d cs => rw [readChars] <;> simp [hc]

theorem readChars_digit (greatest : Nat) (c : Char) (cs : List Char) (hc : c.isDigit = true) :
    readChars greatest (c :: cs) = readDigits greatest 0 (c :: cs) := by
  refine readChars_unsigned greatest c cs ?_
  rintro rfl
  cases hc

def Numeral (text : String) (n : Nat) : Prop :=
  ∃ digits, digits ≠ [] ∧ (∀ c ∈ digits, c.isDigit = true) ∧
    (text.toList = digits ∨ text.toList = '+' :: digits) ∧ Nat.ofDigitChars 10 digits 0 = n

theorem digits_of_readDigits {greatest n : Nat} {cs : List Char} {init : Nat} (hi : init ≤ greatest)
    (h : readDigits greatest init cs = .ok n) :
    (∀ c ∈ cs, c.isDigit = true) ∧ Nat.ofDigitChars 10 cs init = n ∧ n ≤ greatest := by
  induction cs generalizing init with
  | nil =>
    cases h
    exact ⟨nofun, rfl, hi⟩
  | cons c cs ih =>
    rw [readDigits] at h
    split at h
    · next hc =>
      split at h
      · next hg =>
        obtain ⟨hd, hn, hle⟩ := ih hg h
        refine ⟨List.forall_mem_cons.mpr ⟨hc, hd⟩, ?_, hle⟩
        rw [Nat.ofDigitChars_cons, Nat.mul_comm]
        exact hn
      · cases h
    · cases h

theorem numeral_of_readDigits {greatest n : Nat} {text : String} {c : Char} {cs : List Char}
    (ht : text.toList = c :: cs ∨ text.toList = '+' :: c :: cs)
    (h : readDigits greatest 0 (c :: cs) = .ok n) : Numeral text n ∧ n ≤ greatest := by
  obtain ⟨hd, hn, hle⟩ := digits_of_readDigits (Nat.zero_le greatest) h
  exact ⟨⟨c :: cs, List.cons_ne_nil c cs, hd, ht, hn⟩, hle⟩

/-- Numerals up to the greatest are read, and nothing else is. -/
theorem read_ok_iff (greatest n : Nat) (text : String) :
    read greatest text = .ok n ↔ Numeral text n ∧ n ≤ greatest := by
  constructor
  · intro h
    rw [read] at h
    cases ht : text.toList with
    | nil =>
      rw [ht] at h
      cases h
    | cons c cs =>
      rw [ht] at h
      by_cases hplus : c = '+'
      · subst hplus
        cases cs with
        | nil => cases h
        | cons d cs => exact numeral_of_readDigits (.inr ht) h
      · rw [readChars_unsigned greatest c cs hplus] at h
        exact numeral_of_readDigits (.inl ht) h
  · rintro ⟨⟨digits, hne, hd, ht, rfl⟩, hle⟩
    obtain ⟨c, cs, rfl⟩ := List.exists_cons_of_ne_nil hne
    have hread := readDigits_eq greatest (c :: cs) 0 hd hle
    rw [read]
    rcases ht with ht | ht
    · rw [ht, readChars_digit greatest c cs (hd c List.mem_cons_self), hread]
    · rw [ht, readChars, hread]

theorem isDigit_toString (n : Nat) (c : Char) (hc : c ∈ (toString n).toList) : c.isDigit = true := by
  rw [Nat.toString_eq_repr, Nat.toList_repr] at hc
  exact Nat.isDigit_of_mem_toDigits (by decide) (by decide) hc

theorem read_toString (greatest n : Nat) (h : n ≤ greatest) : read greatest (toString n) = .ok n := by
  have hd := isDigit_toString n
  rw [read]
  rw [Nat.toString_eq_repr, Nat.toList_repr] at hd ⊢
  cases hcs : Nat.toDigits 10 n with
  | nil => exact absurd hcs Nat.toDigits_ne_nil
  | cons c cs =>
    rw [hcs] at hd
    have hn : Nat.ofDigitChars 10 (c :: cs) 0 = n := by
      rw [← hcs, Nat.ofDigitChars_ten_toDigits]
    rw [readChars_digit greatest c cs (hd c List.mem_cons_self),
      readDigits_eq greatest (c :: cs) 0 hd (by rwa [hn]), hn]

end Decimal

theorem plain_toString (n : Nat) : Plain (toString n) := by
  intro h
  have hd := Decimal.isDigit_toString n _ h
  cases hd

theorem length_encode_le (s : String) : (Utf8.encode s).length ≤ 4 * s.toList.length := by
  rw [Utf8.encode]
  induction s.toList with
  | nil => exact Nat.le_refl 0
  | cons c cs ih =>
    have hc : c.utf8Size ≤ 4 := Char.utf8Size_le_four c
    rw [List.flatMap_cons, List.length_append, String.length_utf8EncodeChar, List.length_cons]
    omega

theorem length_encode_toString_le (n k : Nat) (hk : 0 < k) (h : n < Nat.pow 10 k) :
    (Utf8.encode (toString n)).length ≤ 4 * k := by
  have hl := length_encode_le (toString n)
  have hd : (toString n).toList.length ≤ k := by
    rw [Nat.toString_eq_repr, Nat.toList_repr]
    exact (Nat.length_toDigits_le_iff (by decide) hk).mpr h
  omega

end Tftp
