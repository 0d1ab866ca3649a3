import Mathlib.Tactic.Lemma
import FirmwareTasks.Toml.Statement
/-!
Numbers written in decimal digits. The digits are read as the number that they write: they have no
needless zeros in front, and no word that they make is anything else.
-/
namespace FirmwareTasks.Toml
open Nat (toDigits)

lemma isDigit_of_mem {n : Nat} {c : Char} (h : c ∈ toDigits 10 n) : c.isDigit = true :=
  Nat.isDigit_of_mem_toDigits (by decide) (by decide) h

lemma ungroup?_eq_some {isDigit : Char → Bool} {ds : List Char} (hunder : isDigit '_' = false)
    (hne : ds ≠ []) (h : ∀ c ∈ ds, isDigit c = true) : ungroup? isDigit ds = some ds := by
  induction ds with
  | nil => exact absurd rfl hne
  | cons c ds ih =>
    rw [List.forall_mem_cons] at h
    cases ds with
    | nil => simp [ungroup?, h.1]
    | cons d ds =>
      have hd : d ≠ '_' := by
        rintro rfl
        rw [h.2 _ List.mem_cons_self] at hunder
        cases hunder
      simp [ungroup?, hd, h.1, ih (by simp) h.2]

lemma digitValue_of_isDigit {c : Char} (h : c.isDigit = true) : digitValue c = c.toNat - 48 := by
  rw [digitValue, if_pos h]

lemma ofDigits_eq {ds : List Char} (h : ∀ c ∈ ds, c.isDigit = true) :
    ofDigits 10 ds = Nat.ofDigitChars 10 ds 0 := by
  unfold ofDigits
  generalize 0 = start
  induction ds generalizing start with
  | nil => rfl
  | cons c ds ih =>
    rw [List.forall_mem_cons] at h
    rw [List.foldl_cons, Nat.ofDigitChars_cons, ← ih h.2, digitValue_of_isDigit h.1,
      Nat.mul_comm start]
    rfl

lemma head?_toDigits_ne {n : Nat} (h : 0 < n) : (toDigits 10 n).head? ≠ some '0' := by
  induction n using Nat.base_induction 10 (by decide) with
  | single m hm =>
    rw [Nat.toDigits_of_lt_base hm]
    revert m
    decide
  | digit m k hk hm ih =>
    rw [← Nat.toDigits_append_toDigits (by decide) hm hk]
    obtain ⟨d, ds, hds⟩ := List.exists_cons_of_ne_nil (Nat.toDigits_ne_nil (n := m) (b := 10))
    rw [hds] at ih ⊢
    exact ih hm

lemma whole?_toDigits (n : Nat) : whole? (toDigits 10 n) = some (toDigits 10 n) := by
  have hgroup := ungroup?_eq_some (by decide) Nat.toDigits_ne_nil fun _ => isDigit_of_mem (n := n)
  unfold whole?
  rw [hgroup]
  split
  · rename_i c r hzero
    rw [Option.some.injEq] at hzero
    rcases Nat.eq_zero_or_pos n with rfl | hn
    · cases hzero
    · exact absurd (by rw [hzero]; rfl) (head?_toDigits_ne hn)
  · rfl

theorem integer?_toDigits {n : Nat} (hn : n < 9223372036854775808) :
    integer? (toDigits 10 n) = some n := by
  have hwhole := whole?_toDigits n
  have hvalue : ofDigits 10 (toDigits 10 n) = n := by
    rw [ofDigits_eq fun _ => isDigit_of_mem, Nat.ofDigitChars_ten_toDigits]
  have hrange : inRange n = true := by
    simp only [inRange, Bool.and_eq_true, decide_eq_true_eq]
    omega
  rcases Nat.eq_zero_or_pos n with rfl | hpos
  · decide
  obtain ⟨d, ds, hds⟩ := List.exists_cons_of_ne_nil (Nat.toDigits_ne_nil (n := n) (b := 10))
  have hzero : d ≠ '0' := by simpa [hds] using head?_toDigits_ne hpos
  have hdigit : d.isDigit = true := isDigit_of_mem (n := n) (by simp [hds])
  have hsign : takeSign (d :: ds) = (false, d :: ds) := by
    have hminus : d ≠ '-' := by rintro rfl; cases hdigit
    have hplus : d ≠ '+' := by rintro rfl; cases hdigit
    simp [takeSign, hminus, hplus]
  rw [hds] at hwhole hvalue ⊢
  simp [integer?, hzero, hsign, hwhole, hvalue, hrange]

lemma isWordChar_of_isDigit {c : Char} (h : c.isDigit = true) : isWordChar c = true := by
  simp [isWordChar, Char.isAlphanum, h]

lemma takeWord_toDigits (n : Nat) {c : Char} {r : List Char} (hword : isWordChar c = false)
    (hspace : c ≠ ' ') : takeWord (toDigits 10 n ++ c :: r) = (toDigits 10 n, c :: r) := by
  have hall (d) (hd : d ∈ toDigits 10 n) : isWordChar d = true :=
    isWordChar_of_isDigit (isDigit_of_mem hd)
  have htake : (toDigits 10 n ++ c :: r).takeWhile isWordChar = toDigits 10 n := by
    simp [List.takeWhile_append_of_pos hall, hword]
  have hdrop : (toDigits 10 n ++ c :: r).dropWhile isWordChar = c :: r := by
    simp [List.dropWhile_append_of_pos hall, hword]
  rw [takeWord, htake, hdrop]
  split
  · rename_i heq
    cases heq
    exact absurd rfl hspace
  · rfl

lemma scalar?_toDigits {n : Nat} (hn : n < 9223372036854775808) :
    scalar? (toDigits 10 n) = some (.integer n) := by
  have hne {w : List Char} {c : Char} (hc : c ∈ w) (hletter : c.isDigit = false) :
      toDigits 10 n ≠ w := by
    rintro rfl
    rw [isDigit_of_mem hc] at hletter
    cases hletter
  have htrue : toDigits 10 n ≠ "true".toList := hne (c := 't') (by decide) rfl
  have hfalse : toDigits 10 n ≠ "false".toList := hne (c := 'f') (by decide) rfl
  have hboolean : boolean? (toDigits 10 n) = none := by
    rw [boolean?, if_neg htrue, if_neg hfalse]
  simp [scalar?, hboolean, integer?_toDigits hn]

end FirmwareTasks.Toml
