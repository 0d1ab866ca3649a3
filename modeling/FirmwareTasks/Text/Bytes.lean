/-!
Byte strings, as the operating system keeps file names, arguments and file contents, and the two
ways of cutting and joining them that paths and search paths share. The main statements say that
`join` undoes `splitOn`, and that `splitOn` undoes `join` on parts free of the separator.
-/
namespace FirmwareTasks

/-- A string of bytes. -/
abbrev Bytes := List UInt8

namespace Bytes

/-- The parts of `s` between separators: one part more than there are separators. -/
def splitOn (sep : UInt8) : Bytes → List Bytes
  | [] => [[]]
  | b :: s =>
    if b = sep then [] :: splitOn sep s
    else match splitOn sep s with
      | [] => [[b]]
      | part :: parts => (b :: part) :: parts

/-- The parts in order with one separator between neighbours. -/
def join (sep : UInt8) : List Bytes → Bytes
  | [] => []
  | [part] => part
  | part :: next :: parts => part ++ sep :: join sep (next :: parts)

def afterLast (sep : UInt8) (s : Bytes) : Bytes := (splitOn sep s).getLastD []

/-- ASCII upper-case letters become lower-case; every other byte stays. -/
def lowerAscii (s : Bytes) : Bytes :=
  s.map fun b => if 65 ≤ b ∧ b ≤ 90 then b + 32 else b

/-- `s` without `tail` at its end, if it ends so. -/
def stripSuffix? (tail s : Bytes) : Option Bytes :=
  if tail <:+ s then some (s.take (s.length - tail.length)) else none

theorem splitOn_ne_nil (sep : UInt8) (s : Bytes) : splitOn sep s ≠ [] := by
  cases s with
  | nil => simp [splitOn]
  | cons b s =>
    rw [splitOn]
    split
    · simp
    · split <;> simp

theorem join_cons_of_ne_nil (sep : UInt8) (part : Bytes) {parts : List Bytes} (h : parts ≠ []) :
    join sep (part :: parts) = part ++ sep :: join sep parts := by
  cases parts with
  | nil => exact absurd rfl h
  | cons next parts => rfl

@[simp] theorem join_splitOn (sep : UInt8) (s : Bytes) : join sep (splitOn sep s) = s := by
  induction s with
  | nil => rfl
  | cons b s ih =>
    rw [splitOn]
    split
    · rename_i h
      rw [join_cons_of_ne_nil sep [] (splitOn_ne_nil sep s), ih, h]
      rfl
    · split
      · rename_i h
        exact absurd h (splitOn_ne_nil sep s)
      · rename_i part parts h
        rw [h] at ih
        cases parts with
        | nil => simpa [join] using ih
        | cons next parts => simpa [join] using ih

theorem splitOn_of_not_mem {sep : UInt8} {part : Bytes} (h : sep ∉ part) :
    splitOn sep part = [part] := by
  induction part with
  | nil => rfl
  | cons b part ih =>
    rw [List.mem_cons, not_or] at h
    rw [splitOn, if_neg (Ne.symm h.1), ih h.2]

theorem splitOn_append_cons {sep : UInt8} {part : Bytes} (h : sep ∉ part) (s : Bytes) :
    splitOn sep (part ++ sep :: s) = part :: splitOn sep s := by
  induction part with
  | nil => simp [splitOn]
  | cons b part ih =>
    rw [List.mem_cons, not_or] at h
    rw [List.cons_append, splitOn, if_neg (Ne.symm h.1), ih h.2]

/-- Cutting a joined string gives the parts back, if there are any and none holds a separator. -/
theorem splitOn_join {sep : UInt8} {parts : List Bytes} (hne : parts ≠ [])
    (h : ∀ part ∈ parts, sep ∉ part) : splitOn sep (join sep parts) = parts := by
  induction parts with
  | nil => exact absurd rfl hne
  | cons part parts ih =>
    cases parts with
    | nil => exact splitOn_of_not_mem (h part (by simp))
    | cons next parts =>
      rw [join, splitOn_append_cons (h part (by simp)), ih (by simp)]
      intro q hq
      exact h q (List.mem_cons_of_mem _ hq)

theorem not_mem_of_mem_splitOn {sep : UInt8} {s part : Bytes} (h : part ∈ splitOn sep s) :
    sep ∉ part := by
  induction s generalizing part with
  | nil => simp_all [splitOn]
  | cons b s ih =>
    rw [splitOn] at h
    split at h
    · rcases List.mem_cons.1 h with rfl | h
      · simp
      · exact ih h
    · rename_i hb
      split at h
      · rename_i hs
        exact absurd hs (splitOn_ne_nil sep s)
      · rename_i first parts hs
        rcases List.mem_cons.1 h with rfl | h
        · have : sep ∉ first := ih (by simp [hs])
          simp [this, Ne.symm hb]
        · exact ih (by simp [hs, h])

end Bytes
end FirmwareTasks
