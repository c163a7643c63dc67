import Mathlib.Algebra.Ring.Nat
import Mathlib.Data.List.Induction

/-! # Byte strings

Numbers of a fixed width in big-endian order, and texts cut into chunks. A number that is too
large for its width is written modulo it, as unsigned machine integers are.
-/
namespace ByteStrings

open List Nat UInt8

abbrev Bytes : Type := List UInt8

/-- The `width` low bytes of a number, the most significant one first. -/
def bigEndian : ℕ → ℕ → Bytes
  | 0, _ => []
  | width + 1, n => bigEndian width (n / 256) ++ [ofNat n]

def readBigEndian (bytes : Bytes) : ℕ := bytes.foldl (fun n b => 256 * n + b.toNat) 0

@[simp] theorem length_bigEndian (width n : ℕ) : (bigEndian width n).length = width := by
  induction width generalizing n with
  | zero => rfl
  | succ width ih => rw [bigEndian, length_append, ih, length_singleton]

theorem readBigEndian_concat :
    readBigEndian (bytes ++ [b]) = 256 * readBigEndian bytes + b.toNat := by
  rw [readBigEndian, foldl_append]
  rfl

theorem readBigEndian_bigEndian (width n : ℕ) :
    readBigEndian (bigEndian width n) = n % 256 ^ width := by
  induction width generalizing n with
  | zero => simp [bigEndian, readBigEndian, mod_one]
  | succ width ih =>
    have hbyte : (ofNat n).toNat = n % 256 := toNat_ofNat'
    rw [bigEndian, readBigEndian_concat, ih, pow_succ, mul_comm (256 ^ width), mod_mul]
    omega

theorem bigEndian_readBigEndian (bytes : Bytes) :
    bigEndian bytes.length (readBigEndian bytes) = bytes := by
  induction bytes using reverseRecOn with
  | nil => rfl
  | append_singleton bytes b ih =>
    have hlt := b.toNat_lt
    have hdiv : (256 * readBigEndian bytes + b.toNat) / 256 = readBigEndian bytes := by omega
    have hbyte : ofNat (256 * readBigEndian bytes + b.toNat) = b := by
      apply UInt8.toNat_inj.mp
      rw [UInt8.toNat_ofNat']
      omega
    rw [length_append, length_singleton, readBigEndian_concat, bigEndian, hdiv, hbyte, ih]

theorem bigEndian_inj {width m n : ℕ} (hm : m < 256 ^ width) (hn : n < 256 ^ width)
    (h : bigEndian width m = bigEndian width n) : m = n := by
  have hread := congrArg readBigEndian h
  rwa [readBigEndian_bigEndian, readBigEndian_bigEndian, mod_eq_of_lt hm, mod_eq_of_lt hn] at hread

section Chunks

variable {α : Type}

def chunks (n : ℕ) (l : List α) : List (List α) :=
  if l = [] ∨ n = 0 then [] else l.take n :: chunks n (l.drop n)
termination_by l.length
decreasing_by
  rename_i h
  rw [length_drop]
  have hl := length_pos_iff.mpr fun h' => h (.inl h')
  omega

@[simp] theorem chunks_nil (n : ℕ) : chunks n ([] : List α) = [] := by
  rw [chunks, if_pos (.inl rfl)]

variable {n k : ℕ} {l : List α}

theorem chunks_cons (hn : 0 < n) (hl : l ≠ []) : chunks n l = l.take n :: chunks n (l.drop n) := by
  conv_lhs => rw [chunks]
  rw [if_neg (by rintro (h | h); exacts [hl h, ne_of_gt hn h])]

theorem flatten_chunks (hn : 0 < n) (l : List α) : (chunks n l).flatten = l := by
  induction l using chunks.induct n with
  | case1 l h =>
    rw [h.resolve_right (ne_of_gt hn), chunks_nil, flatten_nil]
  | case2 l h ih =>
    rw [chunks_cons hn fun hl => h (.inl hl), flatten_cons, ih, take_append_drop]

theorem length_chunks_le (hn : 0 < n) (h : l.length ≤ k * n) : (chunks n l).length ≤ k := by
  induction k generalizing l with
  | zero =>
    have hl : l = [] := length_eq_zero_iff.mp (by omega)
    rw [hl, chunks_nil]
    exact le_refl 0
  | succ k ih =>
    by_cases hl : l = []
    · rw [hl, chunks_nil]
      exact zero_le _
    · rw [chunks_cons hn hl]
      rw [succ_mul] at h
      exact succ_le_succ (ih (by rw [length_drop]; omega))

theorem length_chunks_eq (hn : 0 < n) (h : l.length = k * n) : (chunks n l).length = k := by
  induction k generalizing l with
  | zero =>
    have hl : l = [] := length_eq_zero_iff.mp (by omega)
    rw [hl, chunks_nil, length_nil]
  | succ k ih =>
    rw [succ_mul] at h
    have hl : l ≠ [] := length_pos_iff.mp (by omega)
    rw [chunks_cons hn hl, length_cons, ih (by rw [length_drop]; omega)]

theorem mem_chunks (hn : 0 < n) {c : List α} (hc : c ∈ chunks n l) :
    0 < c.length ∧ c.length ≤ n := by
  induction l using chunks.induct n with
  | case1 l h =>
    rw [h.resolve_right (ne_of_gt hn), chunks_nil] at hc
    cases hc
  | case2 l h ih =>
    have hl : l ≠ [] := fun hl => h (.inl hl)
    have hpos := length_pos_iff.mpr hl
    rw [chunks_cons hn hl] at hc
    rcases mem_cons.mp hc with rfl | hc
    · rw [length_take]
      omega
    · exact ih hc

end Chunks

end ByteStrings
