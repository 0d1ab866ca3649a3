import FirmwareTasks.Text.Utf8
import Mathlib.Data.List.Induction
import Mathlib.Tactic.Lemma
import Mathlib.Tactic.SplitIfs
/-!
Bytes that are read as a text are the encoding of that text: no text has two encodings, since
reading refuses overlong forms and surrogates.
-/
namespace FirmwareTasks.Utf8

lemma toNat_charOfNat {n : Nat} (h : n < 0xD800 ∨ 0xDFFF < n ∧ n < 0x110000) :
    (Char.ofNat n).toNat = n := by
  rw [Char.ofNat, dif_pos h]
  rfl

lemma ofNat_eq_of_toNat {n : Nat} {b : UInt8} (h : n = b.toNat) : UInt8.ofNat n = b := by
  rw [h, UInt8.ofNat_toNat]

/-! ### Characters by the bytes that reading allows -/

lemma encodeChar_one {a : UInt8} (ha : a.toNat < 0x80) : encodeChar (.ofNat a.toNat) = [a] := by
  rw [encodeChar, toNat_charOfNat (by omega), if_pos ha, ofNat_eq_of_toNat rfl]

lemma encodeChar_two {a b : UInt8} (ha : 0xC2 ≤ a.toNat) (ha' : a.toNat < 0xE0)
    (hb : 0x80 ≤ b.toNat) (hb' : b.toNat ≤ 0xBF) :
    encodeChar (.ofNat ((a.toNat - 0xC0) * 64 + (b.toNat - 0x80))) = [a, b] := by
  rw [encodeChar, toNat_charOfNat (by omega), if_neg (by omega), if_pos (by omega),
    ofNat_eq_of_toNat (b := a) (by omega), ofNat_eq_of_toNat (b := b) (by omega)]

lemma encodeChar_three {a b c : UInt8} (ha : 0xE0 ≤ a.toNat) (ha' : a.toNat < 0xF0)
    (hb : (if a.toNat = 0xE0 then 0xA0 else 0x80) ≤ b.toNat)
    (hb' : b.toNat ≤ if a.toNat = 0xED then 0x9F else 0xBF)
    (hc : 0x80 ≤ c.toNat) (hc' : c.toNat ≤ 0xBF) :
    encodeChar
      (.ofNat (((a.toNat - 0xE0) * 64 + (b.toNat - 0x80)) * 64 + (c.toNat - 0x80))) =
      [a, b, c] := by
  have hlow : 0x80 ≤ b.toNat ∧ (a.toNat = 0xE0 → 0xA0 ≤ b.toNat) := by split at hb <;> omega
  have hhigh : b.toNat ≤ 0xBF ∧ (a.toNat = 0xED → b.toNat ≤ 0x9F) := by split at hb' <;> omega
  clear hb hb'
  rw [encodeChar, toNat_charOfNat (by omega), if_neg (by omega), if_neg (by omega),
    if_pos (by omega), ofNat_eq_of_toNat (b := a) (by omega), ofNat_eq_of_toNat (b := b) (by omega),
    ofNat_eq_of_toNat (b := c) (by omega)]

lemma encodeChar_four {a b c d : UInt8} (ha : 0xF0 ≤ a.toNat) (ha' : a.toNat < 0xF5)
    (hb : (if a.toNat = 0xF0 then 0x90 else 0x80) ≤ b.toNat)
    (hb' : b.toNat ≤ if a.toNat = 0xF4 then 0x8F else 0xBF)
    (hc : 0x80 ≤ c.toNat) (hc' : c.toNat ≤ 0xBF) (hd : 0x80 ≤ d.toNat) (hd' : d.toNat ≤ 0xBF) :
    encodeChar
      (.ofNat ((((a.toNat - 0xF0) * 64 + (b.toNat - 0x80)) * 64 + (c.toNat - 0x80)) * 64 +
        (d.toNat - 0x80))) = [a, b, c, d] := by
  have hlow : 0x80 ≤ b.toNat ∧ (a.toNat = 0xF0 → 0x90 ≤ b.toNat) := by split at hb <;> omega
  have hhigh : b.toNat ≤ 0xBF ∧ (a.toNat = 0xF4 → b.toNat ≤ 0x8F) := by split at hb' <;> omega
  clear hb hb'
  rw [encodeChar, toNat_charOfNat (by omega), if_neg (by omega), if_neg (by omega),
    if_neg (by omega), ofNat_eq_of_toNat (b := a) (by omega), ofNat_eq_of_toNat (b := b) (by omega),
    ofNat_eq_of_toNat (b := c) (by omega), ofNat_eq_of_toNat (b := d) (by omega)]

/-! ### What is read -/

lemma start_eq_char {a : UInt8} {c : Char} (h : start a = .char c) :
    a.toNat < 0x80 ∧ c = .ofNat a.toNat := by
  unfold start at h
  by_cases h1 : a.toNat < 0x80
  · simp only [if_pos h1] at h
    cases h
    exact ⟨h1, rfl⟩
  · simp only [if_neg h1] at h
    split_ifs at h

lemma start_eq_begun {a : UInt8} {p : Begun} (h : start a = .begun p) :
    (0xC2 ≤ a.toNat ∧ a.toNat < 0xE0 ∧ p = { bytes := [a], owed := 1, bits := a.toNat - 0xC0 }) ∨
    (0xE0 ≤ a.toNat ∧ a.toNat < 0xF0 ∧
      p = { bytes := [a], owed := 2, bits := a.toNat - 0xE0
            low := if a.toNat = 0xE0 then 0xA0 else 0x80
            high := if a.toNat = 0xED then 0x9F else 0xBF }) ∨
    (0xF0 ≤ a.toNat ∧ a.toNat < 0xF5 ∧
      p = { bytes := [a], owed := 3, bits := a.toNat - 0xF0
            low := if a.toNat = 0xF0 then 0x90 else 0x80
            high := if a.toNat = 0xF4 then 0x8F else 0xBF }) := by
  rw [start] at h
  split at h
  · cases h
  split at h
  · cases h
  split at h
  · cases h
    exact .inl ⟨by omega, by assumption, rfl⟩
  split at h
  · cases h
    exact .inr (.inl ⟨by omega, by assumption, rfl⟩)
  split at h
  · cases h
    exact .inr (.inr ⟨by omega, by assumption, rfl⟩)
  · cases h

/-- The bytes that a piece has been read from. -/
def Piece.bytes : Piece → Bytes
  | .char c => encodeChar c
  | .broken bytes => bytes

lemma scan_begun (p : Begun) (s : Bytes) :
    scan (some p) s = .broken p.bytes :: scan none s ∨
    ∃ b rest, s = b :: rest ∧ p.low ≤ b.toNat ∧ b.toNat ≤ p.high ∧
      scan (some p) s =
        if p.owed ≤ 1 then .char (.ofNat (p.bits * 64 + (b.toNat - 0x80))) :: scan none rest
        else scan (some { bytes := p.bytes ++ [b], owed := p.owed - 1,
                          bits := p.bits * 64 + (b.toNat - 0x80) }) rest := by
  cases s with
  | nil => exact .inl rfl
  | cons b rest =>
    by_cases hb : p.low ≤ b.toNat ∧ b.toNat ≤ p.high
    · exact .inr ⟨b, rest, rfl, hb.1, hb.2, by rw [scan, if_pos hb]⟩
    · exact .inl (if_neg hb)

/-- What is read begins with a piece of the bytes that it has been read from. -/
theorem scan_eq_cons (a : UInt8) (s : Bytes) :
    ∃ piece rest, scan none (a :: s) = piece :: scan none rest ∧ a :: s = piece.bytes ++ rest ∧
      rest.length ≤ s.length := by
  cases hst : start a with
  | stray => exact ⟨.broken [a], s, by simp [scan, hst], rfl, Nat.le_refl _⟩
  | char c =>
    obtain ⟨ha, rfl⟩ := start_eq_char hst
    refine ⟨.char (.ofNat a.toNat), s, by simp [scan, hst], ?_, Nat.le_refl _⟩
    rw [Piece.bytes, encodeChar_one ha]
    rfl
  | begun p =>
    have hscan (s : Bytes) : scan none (a :: s) = scan (some p) s := by simp [scan, hst]
    rw [hscan]
    have hp := start_eq_begun hst
    rcases scan_begun p s with hs | ⟨b, s, rfl, hb, hb', hs⟩
    · refine ⟨.broken p.bytes, s, hs, ?_, Nat.le_refl _⟩
      obtain ⟨-, -, rfl⟩ | ⟨-, -, rfl⟩ | ⟨-, -, rfl⟩ := hp <;> rfl
    rw [hs]
    obtain ⟨ha, ha', rfl⟩ | ⟨ha, ha', rfl⟩ | ⟨ha, ha', rfl⟩ := hp
    · refine ⟨_, s, rfl, ?_, by simp⟩
      rw [Piece.bytes, encodeChar_two ha ha' hb hb']
      rfl
    · dsimp only
      rw [if_neg (by decide)]
      rcases scan_begun _ s with hs' | ⟨c, s, rfl, hc, hc', hs'⟩
      · exact ⟨_, s, hs', rfl, by simp⟩
      rw [hs']
      refine ⟨_, s, rfl, ?_, by simp; omega⟩
      rw [Piece.bytes, encodeChar_three ha ha' hb hb' hc hc']
      rfl
    · dsimp only
      rw [if_neg (by decide)]
      rcases scan_begun _ s with hs' | ⟨c, s, rfl, hc, hc', hs'⟩
      · exact ⟨_, s, hs', rfl, by simp⟩
      rw [hs']
      dsimp only
      rw [if_neg (by decide)]
      rcases scan_begun _ s with hs'' | ⟨d, s, rfl, hd, hd', hs''⟩
      · exact ⟨_, s, hs'', rfl, by simp; omega⟩
      rw [hs'']
      refine ⟨_, s, rfl, ?_, by simp; omega⟩
      rw [Piece.bytes, encodeChar_four ha ha' hb hb' hc hc' hd hd']
      rfl

theorem flatMap_bytes_pieces (s : Bytes) : (pieces s).flatMap Piece.bytes = s := by
  induction hn : s.length using Nat.strongRecOn generalizing s with
  | _ n ih =>
    subst hn
    cases s with
    | nil => rfl
    | cons a s =>
      obtain ⟨piece, rest, hscan, hbytes, hlen⟩ := scan_eq_cons a s
      have hrest := ih rest.length (Nat.lt_succ_of_le hlen) rest rfl
      rw [pieces] at hrest
      rw [pieces, hscan, List.flatMap_cons, hrest, hbytes]

lemma flatMap_bytes_of_mapM {ps : List Piece} {cs : List Char} (h : ps.mapM Piece.char? = some cs) :
    ps.flatMap Piece.bytes = cs.flatMap encodeChar := by
  induction ps generalizing cs with
  | nil =>
    cases h
    rfl
  | cons p ps ih =>
    rw [List.mapM_cons] at h
    obtain ⟨c, hc, h⟩ := Option.bind_eq_some_iff.1 h
    obtain ⟨cs', hcs, h⟩ := Option.bind_eq_some_iff.1 h
    cases h
    cases p with
    | char c' =>
      cases hc
      rw [List.flatMap_cons, List.flatMap_cons, ih hcs, Piece.bytes]
    | broken bytes => cases hc

theorem decode?_eq_some_iff {s : Bytes} {text : String} :
    decode? s = some text ↔ s = encode text := by
  constructor
  · intro h
    obtain ⟨cs, hcs, rfl⟩ := Option.map_eq_some_iff.1 h
    rw [← flatMap_bytes_pieces s, flatMap_bytes_of_mapM hcs, encode, String.toList_ofList]
  · rintro rfl
    exact decode?_encode text

/-! ### ASCII in what is read -/

lemma start_of_ascii {b : UInt8} (hb : b.toNat < 0x80) : start b = .char (.ofNat b.toNat) := by
  simp only [start, if_pos hb]

lemma encodeChar_of_ascii {c : Char} (hc : c.toNat < 0x80) : encodeChar c = [.ofNat c.toNat] := by
  simp only [encodeChar, if_pos hc]

lemma low_of_start {a : UInt8} {p : Begun} (h : start a = .begun p) : 0x80 ≤ p.low := by
  obtain ⟨-, -, rfl⟩ | ⟨-, -, rfl⟩ | ⟨-, -, rfl⟩ := start_eq_begun h
  · exact Nat.le_refl _
  · dsimp only
    split <;> decide
  · dsimp only
    split <;> decide

lemma scan_ascii {b : UInt8} (hb : b.toNat < 0x80) (u : Bytes) :
    scan none (b :: u) = .char (.ofNat b.toNat) :: scan none u := by
  simp [scan, start_of_ascii hb]

lemma scan_append_ascii {b : UInt8} (hb : b.toNat < 0x80) (s u : Bytes) (begun : Option Begun)
    (hlow : ∀ p ∈ begun, 0x80 ≤ p.low) :
    scan begun (s ++ b :: u) = scan begun s ++ .char (.ofNat b.toNat) :: scan none u := by
  induction s generalizing begun with
  | nil =>
    cases begun with
    | none => exact scan_ascii hb u
    | some p =>
      have hout : ¬(p.low ≤ b.toNat ∧ b.toNat ≤ p.high) := fun hin =>
        Nat.not_lt.2 (Nat.le_trans (hlow p rfl) hin.1) hb
      have hstep : scan (some p) (b :: u) = .broken p.bytes :: scan none (b :: u) := if_neg hout
      rw [List.nil_append, hstep, scan_ascii hb]
      rfl
  | cons a s ih =>
    have hnone : scan none (a :: (s ++ b :: u)) =
        scan none (a :: s) ++ .char (.ofNat b.toNat) :: scan none u := by
      cases hst : start a with
      | char c => simp [scan, hst, ih none (by simp)]
      | begun p =>
        have hp := ih (some p) fun q hq => Option.some.inj hq ▸ low_of_start hst
        simpa [scan, hst] using hp
      | stray => simp [scan, hst, ih none (by simp)]
    cases begun with
    | none => exact hnone
    | some p =>
      by_cases hin : p.low ≤ a.toNat ∧ a.toNat ≤ p.high
      · let next : Begun := { bytes := p.bytes ++ [a], owed := p.owed - 1,
                              bits := p.bits * 64 + (a.toNat - 0x80) }
        have hstep (s : Bytes) : scan (some p) (a :: s) =
            if p.owed ≤ 1 then .char (.ofNat next.bits) :: scan none s else scan (some next) s :=
          if_pos hin
        rw [List.cons_append, hstep, hstep]
        split
        · rw [ih none (by simp), List.cons_append]
        · exact ih (some next) fun q hq => Option.some.inj hq ▸ Nat.le_refl _
      · have hstep (s : Bytes) : scan (some p) (a :: s) = .broken p.bytes :: scan none (a :: s) :=
          if_neg hin
        rw [List.cons_append, hstep, hstep, hnone, List.cons_append]

lemma toList_lossy (s : Bytes) :
    (lossy s).toList = (pieces s).map fun p => p.char?.getD replacement :=
  String.toList_ofList

lemma toList_lossy_append {b : UInt8} (hb : b.toNat < 0x80) (s u : Bytes) :
    (lossy (s ++ b :: u)).toList = (lossy s).toList ++ .ofNat b.toNat :: (lossy u).toList := by
  rw [toList_lossy, pieces, scan_append_ascii hb s u none (by simp), List.map_append, List.map_cons]
  simp [toList_lossy, pieces, Piece.char?]

lemma eq_char_of_read {p : Piece} {c : Char} (h : p.char?.getD replacement = c)
    (hc : c.toNat < 0x80) : p = .char c := by
  cases p with
  | char c' => exact congrArg Piece.char h
  | broken bytes =>
    subst h
    have hne : ¬replacement.toNat < 0x80 := by decide
    exact absurd hc hne

lemma mem_of_mem_lossy {s : Bytes} {c : Char} (h : c ∈ (lossy s).toList) (hc : c.toNat < 0x80) :
    .ofNat c.toNat ∈ s := by
  rw [toList_lossy, List.mem_map] at h
  obtain ⟨p, hp, hread⟩ := h
  rw [eq_char_of_read hread hc] at hp
  rw [← flatMap_bytes_pieces s, List.mem_flatMap]
  refine ⟨.char c, hp, ?_⟩
  rw [Piece.bytes, encodeChar_of_ascii hc]
  exact List.mem_singleton_self _

lemma exists_of_lossy_concat {s : Bytes} {cs : List Char} {c : Char}
    (h : (lossy s).toList = cs ++ [c]) (hc : c.toNat < 0x80) :
    ∃ t, s = t ++ encodeChar c ∧ (lossy t).toList = cs := by
  obtain ⟨t, ht⟩ : ∃ t, s = t ++ encodeChar c := by
    rw [toList_lossy, List.map_eq_append_iff] at h
    obtain ⟨ps, last, hpieces, -, hlast⟩ := h
    obtain ⟨p, rfl, hread⟩ := List.map_eq_singleton_iff.1 hlast
    obtain rfl := eq_char_of_read hread hc
    refine ⟨ps.flatMap Piece.bytes, ?_⟩
    rw [← flatMap_bytes_pieces s, hpieces, List.flatMap_append, List.flatMap_singleton, Piece.bytes]
  refine ⟨t, ht, ?_⟩
  rw [encodeChar_of_ascii hc] at ht
  have hb : (UInt8.ofNat c.toNat).toNat = c.toNat :=
    UInt8.toNat_ofNat_of_lt' (Nat.lt_trans hc (by decide))
  have hall := toList_lossy_append (b := .ofNat c.toNat) (by omega) t []
  rw [← ht, hb, Char.ofNat_toNat] at hall
  exact List.append_cancel_right (hall.symm.trans h)

theorem suffix_of_suffix_lossy {s : Bytes} {cs : List Char} (h : cs <:+ (lossy s).toList)
    (hcs : ∀ c ∈ cs, c.toNat < 0x80) : cs.flatMap encodeChar <:+ s := by
  induction cs using List.reverseRecOn generalizing s with
  | nil => exact List.nil_suffix
  | append_singleton cs c ih =>
    obtain ⟨front, hfront⟩ := h
    rw [← List.append_assoc] at hfront
    obtain ⟨t, rfl, ht⟩ := exists_of_lossy_concat hfront.symm (hcs c (by simp))
    obtain ⟨r, hr⟩ := ih ⟨front, ht.symm⟩ fun c' hc' => hcs c' (List.mem_append_left _ hc')
    exact ⟨r, by rw [List.flatMap_append, List.flatMap_singleton, ← List.append_assoc, hr]⟩

end FirmwareTasks.Utf8
