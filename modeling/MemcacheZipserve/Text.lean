/-
# Python strings as character lists

The handler reads request paths with a handful of `str` methods: `split` with
and without `maxsplit`, `rfind`, slicing, `in` and `endswith`. A Python string
is modelled as the list of its characters, so that each method is a list
operation or a structural recursion whose lemmas are stated once here. Strings
are ordered by the library's lexicographic order on `List Char`, which compares
characters by code point, as Python does.
-/

import Mathlib.Data.List.Lex
import Mathlib.Data.List.Infix
import Mathlib.Data.Char

namespace MemcacheZipserve

/-- A Python `str`, as its list of characters. -/
abbrev Str := List Char

/-- `s.split(sep, maxsplit)` for a one-character separator: at most `maxsplit`
cuts from the left, the last piece keeping every later separator. -/
def splitMax (sep : Char) : Nat → Str → List Str
  | 0, s => [s]
  | _ + 1, [] => [[]]
  | n + 1, c :: s =>
      if c = sep then [] :: splitMax sep n s
      else (splitMax sep (n + 1) s).modifyHead (c :: ·)

/-- `s.rfind(c)`: the index of the last `c`, or `-1` when there is none. -/
def rfind (c : Char) : Str → Int
  | [] => -1
  | x :: xs => if c ∈ xs then rfind c xs + 1 else if x = c then 0 else -1

/-- A string without the separator is one piece, whatever `maxsplit` allows. -/
theorem splitMax_of_not_mem {sep : Char} {s : Str} (h : sep ∉ s) (n : Nat) :
    splitMax sep n s = [s] := by
  induction s with
  | nil => cases n <;> rfl
  | cons c s ih =>
      cases n with
      | zero => rfl
      | succ n =>
          have hc : c ≠ sep := fun hc => h (hc ▸ List.mem_cons_self c s)
          simp [splitMax, hc, ih (fun hs => h (List.mem_cons_of_mem c hs))]

/-- The first cut falls on the first separator. -/
theorem splitMax_append_cons {sep : Char} {pre : Str} (h : sep ∉ pre) (n : Nat)
    (post : Str) : splitMax sep (n + 1) (pre ++ sep :: post) = pre :: splitMax sep n post := by
  induction pre with
  | nil => simp [splitMax]
  | cons c pre ih =>
      have hc : c ≠ sep := fun hc => h (hc ▸ List.mem_cons_self c pre)
      simp [splitMax, hc, ih (fun hs => h (List.mem_cons_of_mem c hs))]

theorem rfind_of_not_mem {c : Char} {s : Str} (h : c ∉ s) : rfind c s = -1 := by
  induction s with
  | nil => rfl
  | cons x xs ih =>
      have hx : x ≠ c := fun hx => h (hx ▸ List.mem_cons_self x xs)
      have hxs : c ∉ xs := fun hs => h (List.mem_cons_of_mem x hs)
      simp [rfind, hx, hxs]

/-- `rfind` finds the separator that starts the last segment. -/
theorem rfind_append_cons {c : Char} {seg : Str} (h : c ∉ seg) (pre : Str) :
    rfind c (pre ++ c :: seg) = pre.length := by
  induction pre with
  | nil => simp [rfind, h]
  | cons x pre ih => simp [rfind, ih]

/-- Every string either lacks `c` or splits at its last `c`. -/
theorem not_mem_or_eq_append_last (c : Char) (s : Str) :
    c ∉ s ∨ ∃ pre seg, s = pre ++ c :: seg ∧ c ∉ seg := by
  induction s with
  | nil => exact .inl (List.not_mem_nil c)
  | cons x xs ih =>
      rcases ih with hxs | ⟨pre, seg, rfl, hseg⟩
      · by_cases hx : x = c
        · exact .inr ⟨[], xs, by simp [hx], hxs⟩
        · exact .inl (by simp [Ne.symm hx, hxs])
      · exact .inr ⟨x :: pre, seg, rfl, hseg⟩

/-- Every string either lacks `c` or splits at its first `c`. -/
theorem not_mem_or_eq_append_first (c : Char) (s : Str) :
    c ∉ s ∨ ∃ pre post, s = pre ++ c :: post ∧ c ∉ pre := by
  induction s with
  | nil => exact .inl (List.not_mem_nil c)
  | cons x xs ih =>
      by_cases hx : x = c
      · exact .inr ⟨[], xs, by simp [hx], List.not_mem_nil c⟩
      · rcases ih with hxs | ⟨pre, post, rfl, hpre⟩
        · exact .inl (by simp [Ne.symm hx, hxs])
        · exact .inr ⟨x :: pre, post, rfl, by simp [Ne.symm hx, hpre]⟩

/-- The segment after the last `c` is determined by the string. -/
theorem eq_of_append_cons_eq {c : Char} {pre seg pre' seg' : Str} (h : c ∉ seg) (h' : c ∉ seg')
    (heq : pre ++ c :: seg = pre' ++ c :: seg') : seg = seg' := by
  induction pre generalizing pre' with
  | nil =>
      cases pre' with
      | nil => simpa using heq
      | cons y pre' =>
          obtain ⟨-, rfl⟩ := List.cons_eq_cons.mp heq
          exact absurd (List.mem_append_right pre' (List.mem_cons_self c seg')) h
  | cons x pre ih =>
      cases pre' with
      | nil =>
          obtain ⟨-, rfl⟩ := List.cons_eq_cons.mp heq
          exact absurd (List.mem_append_right pre (List.mem_cons_self c seg)) h'
      | cons y pre' => exact ih (List.cons_eq_cons.mp heq).2

/-- `s.split(sep, 2)` cuts at the first two separators. -/
theorem splitMax_two_cases (sep : Char) (s : Str) :
    (sep ∉ s ∧ splitMax sep 2 s = [s]) ∨
    (∃ a b, s = a ++ sep :: b ∧ sep ∉ a ∧ sep ∉ b ∧ splitMax sep 2 s = [a, b]) ∨
    (∃ a b c, s = a ++ sep :: (b ++ sep :: c) ∧ sep ∉ a ∧ sep ∉ b ∧
      splitMax sep 2 s = [a, b, c]) := by
  rcases not_mem_or_eq_append_first sep s with h | ⟨a, rest, rfl, ha⟩
  · exact .inl ⟨h, splitMax_of_not_mem h 2⟩
  · rcases not_mem_or_eq_append_first sep rest with h' | ⟨b, c, rfl, hb⟩
    · exact .inr (.inl ⟨a, rest, rfl, ha, h', by
        rw [splitMax_append_cons ha 1, splitMax_of_not_mem h' 1]⟩)
    · exact .inr (.inr ⟨a, b, c, rfl, ha, hb, by
        rw [splitMax_append_cons ha 1, splitMax_append_cons hb 0, splitMax]⟩)

/-- Cutting a string at the first `c` when the part before has none. -/
theorem takeWhile_append_cons {c : Char} {pre : Str} (h : c ∉ pre) (post : Str) :
    (pre ++ c :: post).takeWhile (· != c) = pre := by
  induction pre with
  | nil => simp
  | cons x pre ih =>
      have hx : x ≠ c := fun hx => h (hx ▸ List.mem_cons_self x pre)
      simp [hx, ih fun hs => h (List.mem_cons_of_mem x hs)]

/-- `s[len(s) - 1:]` of a non-empty string is its last character. -/
theorem drop_length_sub_one_append (s : Str) (c : Char) :
    (s ++ [c]).drop ((s ++ [c]).length - 1) = [c] := by
  simp

end MemcacheZipserve
