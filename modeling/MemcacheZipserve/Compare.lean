/-
# `CompareFilenames` and the depth-first archive order

`MapFileToArchive` places a request path among the archives by comparing it
with each archive's first member. The comparator is modelled on the two
'/'-segment lists, following the source loop and its two branches. The
reference order it is checked against sorts a path by the key that lists its
directories and then its file name, files before directories at every depth.
Wherever the comparator returns, its sign is that of the reference order. It
does not return everywhere: when one path is a segment prefix of the other with
at least two more segments, it indexes past the shorter list.
-/

import MemcacheZipserve.Text
import Mathlib.Data.Prod.Lex

namespace MemcacheZipserve

/-! ### The comparator -/

/-- The value of `segment_ptr` when the `while` loop of `CompareFilenames`
stops: the number of leading segments the two lists share. -/
def matchingSegments : List Str → List Str → Nat
  | s :: f1, t :: f2 => if s = t then matchingSegments f1 f2 + 1 else 0
  | _, _ => 0

/-- The comparison both branches make of two differing segments: `1` when the
first is smaller, `-1` when it is larger. -/
def compareSegment (s t : Str) : Int := if s < t then 1 else if s > t then -1 else 0

/-- `compareSegment` at index `segment_ptr`; `none` is the `IndexError` raised
when the index is past either list. -/
def compareSegmentAt (f1 f2 : List Str) (ptr : Nat) : Option Int := do
  let s ← f1[ptr]?
  let t ← f2[ptr]?
  pure (compareSegment s t)

/-- `CompareFilenames` after both paths are split into segments. -/
def compareSegments (f1 f2 : List Str) : Option Int :=
  let ptr := matchingSegments f1 f2
  if f1.length = f2.length then
    if ptr = f1.length then some 0 else compareSegmentAt f1 f2 ptr
  else if ptr + 1 = f1.length ∨ ptr + 1 = f2.length then
    some ((f2.length : Int) - f1.length)
  else compareSegmentAt f1 f2 ptr

/-- `CompareFilenames(file1, file2)`: positive when `file1` comes first, negative
when `file2` does, `0` for the same path; `none` when it raises `IndexError`. -/
def compareFilenames (file1 file2 : Str) : Option Int :=
  compareSegments (file1.splitOn '/') (file2.splitOn '/')

/-! ### The reference order -/

/-- One entry of a path's sort key: a directory on the way down, or the file
that ends the path. -/
inductive KeyItem
  | file (segment : Str)
  | dir (segment : Str)
  deriving DecidableEq

namespace KeyItem

/-- The segment text, whatever the kind. -/
def segment : KeyItem → Str
  | file s => s
  | dir s => s

/-- Files sort before directories; within one kind the segment text decides. -/
def rank : KeyItem → Bool ×ₗ Str
  | file s => toLex (false, s)
  | dir s => toLex (true, s)

theorem rank_injective : Function.Injective rank := by
  intro x y h
  cases x <;> cases y <;> simp_all [rank]

instance : LinearOrder KeyItem := LinearOrder.lift' rank rank_injective

@[simp] theorem file_lt_dir (s t : Str) : file s < dir t := by
  show rank (file s) < rank (dir t)
  simp [rank, Prod.Lex.lt_iff]

@[simp] theorem not_dir_lt_file (s t : Str) : ¬ dir s < file t := by
  show ¬ rank (dir s) < rank (file t)
  simp [rank, Prod.Lex.lt_iff]

@[simp] theorem file_lt_file {s t : Str} : file s < file t ↔ s < t := by
  show rank (file s) < rank (file t) ↔ s < t
  simp [rank, Prod.Lex.lt_iff]

@[simp] theorem dir_lt_dir {s t : Str} : dir s < dir t ↔ s < t := by
  show rank (dir s) < rank (dir t) ↔ s < t
  simp [rank, Prod.Lex.lt_iff]

end KeyItem

/-- The key of a segment list: every segment but the last is a directory. -/
def segmentsKey : List Str → List KeyItem
  | [] => []
  | s :: rest => (if rest = [] then .file s else .dir s) :: segmentsKey rest

/-- The key of a path, from its '/'-segments. -/
def pathKey (p : Str) : List KeyItem := segmentsKey (p.splitOn '/')

/-- Sign of a key comparison: `1` when the first key is smaller. -/
def keyCompare (k l : List KeyItem) : Int := if k < l then 1 else if l < k then -1 else 0

/-- The reference comparison: positive when `a`'s key is smaller. -/
def referenceCompare (a b : Str) : Int := keyCompare (pathKey a) (pathKey b)

/-! ### How the comparator reduces -/

@[simp] theorem matchingSegments_cons_self (s : Str) (f1 f2 : List Str) :
    matchingSegments (s :: f1) (s :: f2) = matchingSegments f1 f2 + 1 := by
  simp [matchingSegments]

theorem matchingSegments_self (f : List Str) : matchingSegments f f = f.length := by
  induction f with
  | nil => rfl
  | cons s f ih => simp [ih]

/-- A shared first segment changes neither the branch taken nor the result. -/
@[simp] theorem compareSegments_cons_self (s : Str) (f1 f2 : List Str) :
    compareSegments (s :: f1) (s :: f2) = compareSegments f1 f2 := by
  have shift : ((f2.length : Int) + 1 - (f1.length + 1)) = f2.length - f1.length := by omega
  simp [compareSegments, compareSegmentAt, shift]

theorem compareSegments_self (f : List Str) : compareSegments f f = some 0 := by
  simp [compareSegments, matchingSegments_self]

/-- After the shared segments, an exhausted first list returns only when one
segment is left in the second. -/
theorem compareSegments_nil_left {f : List Str} (h : f ≠ []) :
    compareSegments [] f = if f.length = 1 then some 1 else none := by
  have hf : f.length ≠ 0 := by simpa using h
  by_cases h1 : f.length = 1 <;>
    simp [compareSegments, compareSegmentAt, matchingSegments, h1, Ne.symm hf, eq_comm]

theorem compareSegments_nil_right {f : List Str} (h : f ≠ []) :
    compareSegments f [] = if f.length = 1 then some (-1) else none := by
  obtain ⟨s, f, rfl⟩ := List.exists_cons_of_ne_nil h
  by_cases h1 : f = [] <;> simp [compareSegments, compareSegmentAt, matchingSegments, h1]

/-- Segments that differ at once are compared by kind first: a last segment
(a file) against an inner one (a directory) is decided by the lengths. -/
theorem compareSegments_cons_of_ne {s t : Str} (h : s ≠ t) (f1 f2 : List Str) :
    compareSegments (s :: f1) (t :: f2) =
      if f1 = [] ∧ f2 ≠ [] then some (f2.length : Int)
      else if f1 ≠ [] ∧ f2 = [] then some (-(f1.length : Int))
      else some (compareSegment s t) := by
  rcases eq_or_ne f1 [] with rfl | h1 <;> rcases eq_or_ne f2 [] with rfl | h2
  · simp [compareSegments, compareSegmentAt, matchingSegments, h]
  · have : f2.length ≠ 0 := by simpa using h2
    simp [compareSegments, matchingSegments, h, h2, this]
  · have : f1.length ≠ 0 := by simpa using h1
    have hlen : (1 : Int) - (f1.length + 1) = -f1.length := by omega
    simp [compareSegments, matchingSegments, h, h1, this, hlen]
  · have l1 : f1.length ≠ 0 := by simpa using h1
    have l2 : f2.length ≠ 0 := by simpa using h2
    simp [compareSegments, compareSegmentAt, matchingSegments, h, h1, h2, l1, l2]

theorem compareSegment_of_ne {s t : Str} (h : s ≠ t) :
    compareSegment s t = if s < t then 1 else -1 := by
  rcases lt_or_gt_of_ne h with hst | hts
  · simp [compareSegment, hst]
  · simp [compareSegment, hts, not_lt_of_gt hts]

/-! ### How the key comparison reduces -/

theorem segmentsKey_singleton (s : Str) : segmentsKey [s] = [.file s] := rfl

theorem segmentsKey_cons_of_ne_nil (s : Str) {rest : List Str} (h : rest ≠ []) :
    segmentsKey (s :: rest) = .dir s :: segmentsKey rest := by
  simp [segmentsKey, h]

/-- The key keeps every segment, so equal keys come from equal segment lists. -/
theorem map_segment_segmentsKey (f : List Str) : (segmentsKey f).map KeyItem.segment = f := by
  induction f with
  | nil => rfl
  | cons s f ih => by_cases h : f = [] <;> simp [segmentsKey, h, ih, KeyItem.segment]

theorem cons_lt_cons_self (x : KeyItem) (k l : List KeyItem) : x :: k < x :: l ↔ k < l :=
  List.Lex.cons_iff

theorem cons_lt_cons_of_ne {x y : KeyItem} (h : x ≠ y) (k l : List KeyItem) :
    x :: k < y :: l ↔ x < y := by
  constructor
  · intro hlt
    cases hlt with
    | cons _ => exact absurd rfl h
    | rel hxy => exact hxy
  · exact List.Lex.rel

theorem keyCompare_cons_self (x : KeyItem) (k l : List KeyItem) :
    keyCompare (x :: k) (x :: l) = keyCompare k l := by
  simp [keyCompare, cons_lt_cons_self]

/-- Keys that differ at once are decided by their first items. -/
theorem keyCompare_cons_of_ne {x y : KeyItem} (h : x ≠ y) (k l : List KeyItem) :
    keyCompare (x :: k) (y :: l) = if x < y then 1 else -1 := by
  by_cases hxy : x < y
  · simp [keyCompare, cons_lt_cons_of_ne h, hxy]
  · have hyx : y < x := lt_of_le_of_ne (not_lt.mp hxy) (Ne.symm h)
    simp [keyCompare, cons_lt_cons_of_ne h, cons_lt_cons_of_ne (Ne.symm h), hxy, hyx]

theorem keyCompare_self (k : List KeyItem) : keyCompare k k = 0 := by
  simp [keyCompare]

theorem keyCompare_swap (k l : List KeyItem) : keyCompare l k = -keyCompare k l := by
  rcases lt_trichotomy k l with hkl | rfl | hlk
  · simp [keyCompare, hkl, not_lt_of_gt hkl]
  · simp [keyCompare]
  · simp [keyCompare, hlk, not_lt_of_gt hlk]

/-! ### The comparator agrees with the reference order -/

/-- Wherever the comparator returns on two non-empty segment lists, its sign is
that of the key comparison. -/
theorem sign_compareSegments {f1 f2 : List Str} {c : Int} (h1 : f1 ≠ []) (h2 : f2 ≠ [])
    (h : compareSegments f1 f2 = some c) :
    c.sign = keyCompare (segmentsKey f1) (segmentsKey f2) := by
  induction f1 generalizing f2 with
  | nil => exact absurd rfl h1
  | cons s r1 ih =>
      obtain ⟨t, r2, rfl⟩ := List.exists_cons_of_ne_nil h2
      by_cases hst : s = t
      · subst hst
        rw [compareSegments_cons_self] at h
        rcases eq_or_ne r1 [] with rfl | hr1 <;> rcases eq_or_ne r2 [] with rfl | hr2
        · obtain rfl : c = 0 := by simpa [compareSegments_self] using h.symm
          simp [keyCompare_self]
        · rw [compareSegments_nil_left hr2] at h
          obtain rfl : c = 1 := by split_ifs at h; cases h; rfl
          simp [segmentsKey_singleton, segmentsKey_cons_of_ne_nil s hr2, keyCompare_cons_of_ne]
        · rw [compareSegments_nil_right hr1] at h
          obtain rfl : c = -1 := by split_ifs at h; cases h; rfl
          simp [segmentsKey_singleton, segmentsKey_cons_of_ne_nil s hr1, keyCompare_cons_of_ne]
        · rw [segmentsKey_cons_of_ne_nil s hr1, segmentsKey_cons_of_ne_nil s hr2,
            keyCompare_cons_self]
          exact ih hr1 hr2 h
      · rw [compareSegments_cons_of_ne hst] at h
        rcases eq_or_ne r1 [] with rfl | hr1 <;> rcases eq_or_ne r2 [] with rfl | hr2
        · obtain rfl : c = compareSegment s t := by simpa using h.symm
          rw [compareSegment_of_ne hst, segmentsKey_singleton, segmentsKey_singleton,
            keyCompare_cons_of_ne (by simpa using hst)]
          simp only [KeyItem.file_lt_file]
          split_ifs <;> rfl
        · obtain rfl : c = r2.length := by simpa [hr2] using h.symm
          have : 0 < r2.length := List.length_pos.mpr hr2
          simp [segmentsKey_singleton, segmentsKey_cons_of_ne_nil t hr2, keyCompare_cons_of_ne,
            Int.sign_eq_one_of_pos (by omega : (0 : Int) < r2.length)]
        · obtain rfl : c = -r1.length := by simpa [hr1] using h.symm
          have : 0 < r1.length := List.length_pos.mpr hr1
          simp [segmentsKey_singleton, segmentsKey_cons_of_ne_nil s hr1, keyCompare_cons_of_ne,
            Int.sign_eq_neg_one_of_neg (by omega : -(r1.length : Int) < 0)]
        · obtain rfl : c = compareSegment s t := by simpa [hr1, hr2] using h.symm
          rw [compareSegment_of_ne hst, segmentsKey_cons_of_ne_nil s hr1,
            segmentsKey_cons_of_ne_nil t hr2, keyCompare_cons_of_ne (by simpa using hst)]
          simp only [KeyItem.dir_lt_dir]
          split_ifs <;> rfl

/-- The comparator raises exactly when one segment list is a prefix of the
other and at least two segments shorter. -/
theorem compareSegments_eq_none_iff {f1 f2 : List Str} (h1 : f1 ≠ []) (h2 : f2 ≠ []) :
    compareSegments f1 f2 = none ↔
      (f1 <+: f2 ∧ f1.length + 2 ≤ f2.length) ∨ (f2 <+: f1 ∧ f2.length + 2 ≤ f1.length) := by
  induction f1 generalizing f2 with
  | nil => exact absurd rfl h1
  | cons s r1 ih =>
      obtain ⟨t, r2, rfl⟩ := List.exists_cons_of_ne_nil h2
      by_cases hst : s = t
      · subst hst
        rw [compareSegments_cons_self]
        rcases eq_or_ne r1 [] with rfl | hr1 <;> rcases eq_or_ne r2 [] with rfl | hr2
        · simp [compareSegments_self]
        · have : 0 < r2.length := List.length_pos.mpr hr2
          rw [compareSegments_nil_left hr2]
          simp [hr2]
          omega
        · have : 0 < r1.length := List.length_pos.mpr hr1
          rw [compareSegments_nil_right hr1]
          simp [hr1]
          omega
        · simpa [List.prefix_cons_inj] using ih hr1 hr2
      · rw [compareSegments_cons_of_ne hst]
        have hts : t ≠ s := Ne.symm hst
        split_ifs <;> simp [hst, hts]

/-! ### Consequences on whole paths -/

theorem splitOn_ne_nil (p : Str) : p.splitOn '/' ≠ [] := List.splitOnP_ne_nil _ _

theorem pathKey_injective : Function.Injective pathKey := by
  intro a b h
  have segments : a.splitOn '/' = b.splitOn '/' := by
    rw [← map_segment_segmentsKey (a.splitOn '/'), ← map_segment_segmentsKey (b.splitOn '/')]
    exact congrArg (List.map KeyItem.segment) h
  rw [← List.intercalate_splitOn a '/', ← List.intercalate_splitOn b '/',
    segments]

theorem keyCompare_eq_one_iff {k l : List KeyItem} : keyCompare k l = 1 ↔ k < l := by
  by_cases hkl : k < l
  · simp [keyCompare, hkl]
  · unfold keyCompare
    split_ifs <;> simp_all

theorem keyCompare_eq_zero_iff {k l : List KeyItem} : keyCompare k l = 0 ↔ k = l := by
  rcases lt_trichotomy k l with hkl | rfl | hlk
  · simp [keyCompare, hkl, ne_of_lt hkl]
  · simp [keyCompare]
  · simp [keyCompare, hlk, not_lt_of_gt hlk, ne_of_gt hlk]

theorem sign_compareFilenames {a b : Str} {c : Int} (h : compareFilenames a b = some c) :
    c.sign = referenceCompare a b :=
  sign_compareSegments (splitOn_ne_nil a) (splitOn_ne_nil b) h

/-- The comparator returns on `(a, b)` exactly when it returns on `(b, a)`. -/
theorem compareFilenames_eq_none_comm (a b : Str) :
    compareFilenames a b = none ↔ compareFilenames b a = none := by
  simp only [compareFilenames, compareSegments_eq_none_iff (splitOn_ne_nil _) (splitOn_ne_nil _)]
  exact or_comm

/-- `CompareFilenames` is the depth-first, files-before-subdirectories order on
every pair of paths it returns on: its sign is that of the reference order, so
it is reflexive, separates distinct paths, is antisymmetric and transitive. -/
theorem compareFilenames_depthFirst :
    (∀ a b c, compareFilenames a b = some c → c.sign = referenceCompare a b) ∧
    (∀ a, compareFilenames a a = some 0) ∧
    (∀ a b, compareFilenames a b = some 0 → a = b) ∧
    (∀ a b c, compareFilenames a b = some c →
      ∃ d, compareFilenames b a = some d ∧ d.sign = -c.sign) ∧
    (∀ a b c x y z, compareFilenames a b = some x → compareFilenames b c = some y →
      compareFilenames a c = some z → 0 < x → 0 < y → 0 < z) := by
  refine ⟨fun a b c h => sign_compareFilenames h, fun a => compareSegments_self _,
    fun a b h => ?_, fun a b c h => ?_, fun a b c x y z hab hbc hac hx hy => ?_⟩
  · have hkey := sign_compareFilenames h
    exact pathKey_injective (keyCompare_eq_zero_iff.mp hkey.symm)
  · obtain ⟨d, hd⟩ := Option.ne_none_iff_exists'.mp
      (fun hnone => by simp [(compareFilenames_eq_none_comm a b).mpr hnone] at h)
    refine ⟨d, hd, ?_⟩
    rw [sign_compareFilenames hd, sign_compareFilenames h, referenceCompare, referenceCompare,
      keyCompare_swap]
  · have hab' := sign_compareFilenames hab
    have hbc' := sign_compareFilenames hbc
    rw [Int.sign_eq_one_of_pos hx, eq_comm, referenceCompare, keyCompare_eq_one_iff] at hab'
    rw [Int.sign_eq_one_of_pos hy, eq_comm, referenceCompare, keyCompare_eq_one_iff] at hbc'
    have hac' : referenceCompare a c = 1 := keyCompare_eq_one_iff.mpr (lt_trans hab' hbc')
    rw [← sign_compareFilenames hac] at hac'
    exact Int.sign_eq_one_iff_pos.mp hac'

end MemcacheZipserve
