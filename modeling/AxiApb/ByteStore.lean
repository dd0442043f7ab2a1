import Mathlib

/-!
# Stores of words that are written byte by byte

A store is a function from locations to words.  A write merges its data into the word of one location, so what a
location holds after some writes is the fold of the writes to this location, in order (`foldl_write`).  The merge of
hardware stores replaces the bytes whose strobe is set (`mergeBytes`, `getLsbD_mergeBytes`).
-/

namespace ByteStore

/-! ### Strobes -/

/-- Byte `b` of `v` replaced by byte `b` of `new`. -/
def setByte {w : Nat} (v new : BitVec w) (b : Nat) : BitVec w :=
  (v &&& ~~~(0xff#w <<< (8 * b))) ||| (new &&& (0xff#w <<< (8 * b)))

/-- The bytes of `old` whose strobe is set replaced by those of `new`. -/
def mergeBytes {w n : Nat} (old new : BitVec w) (strb : BitVec n) : BitVec w :=
  (List.range n).foldl (fun v b => if strb.getLsbD b then setByte v new b else v) old

/-- The bits of a byte. -/
private theorem getLsbD_byteMask (w b j : Nat) :
    (0xff#w <<< (8 * b)).getLsbD j = (decide (j < w) && decide (j / 8 = b)) := by
  have h255 : ∀ k, Nat.testBit 255 k = decide (k < 8) := fun k => Nat.testBit_two_pow_sub_one 8 k
  rw [BitVec.getLsbD_shiftLeft, BitVec.getLsbD_ofNat, h255]
  rw [Bool.eq_iff_iff]
  simp only [Bool.and_eq_true, Bool.not_eq_true', decide_eq_true_eq, decide_eq_false_iff_not]
  omega

@[simp] theorem getLsbD_setByte {w : Nat} (v new : BitVec w) (b j : Nat) :
    (setByte v new b).getLsbD j = if j / 8 = b then new.getLsbD j else v.getLsbD j := by
  unfold setByte
  by_cases hj : j < w
  · rw [BitVec.getLsbD_or, BitVec.getLsbD_and, BitVec.getLsbD_and, BitVec.getLsbD_not, getLsbD_byteMask]
    split <;> simp_all
  · have hge : w ≤ j := Nat.le_of_not_lt hj
    rw [BitVec.getLsbD_of_ge _ _ hge, BitVec.getLsbD_of_ge _ _ hge, BitVec.getLsbD_of_ge _ _ hge, ite_self]

/-- Each bit of a merged word comes from the new word if the strobe of its byte is set, else from the old one. -/
theorem getLsbD_mergeBytes {w n : Nat} (old new : BitVec w) (strb : BitVec n) (j : Nat) :
    (mergeBytes old new strb).getLsbD j = if strb.getLsbD (j / 8) then new.getLsbD j else old.getLsbD j := by
  -- by induction on the bytes that have been merged
  have hfold : ∀ m, ((List.range m).foldl (fun v b => if strb.getLsbD b then setByte v new b else v) old).getLsbD j =
      if j / 8 < m ∧ strb.getLsbD (j / 8) = true then new.getLsbD j else old.getLsbD j := by
    intro m
    induction m with
    | zero => simp
    | succ m ih =>
      rw [List.range_succ, List.foldl_append, List.foldl_cons, List.foldl_nil]
      by_cases hb : j / 8 = m
      · subst hb
        cases hs : strb.getLsbD (j / 8) with
        | true => simp [getLsbD_setByte]
        | false => simp [ih, hs]
      · have hlt : j / 8 < m + 1 ↔ j / 8 < m := by omega
        simp only [hlt]
        rw [← ih]
        split
        · rw [getLsbD_setByte, if_neg hb]
        · rfl
  rw [mergeBytes, hfold n]
  by_cases hn : j / 8 < n
  · simp [hn]
  · rw [BitVec.getLsbD_of_ge strb _ (Nat.le_of_not_lt hn)]
    simp

/-! ### Stores -/

section
variable {α β ω : Type*} [DecidableEq α] (merge : β → ω → β)

/-- The store `m` after the write `p`: a location and what is merged into its word. -/
def write (m : α → β) (p : α × ω) : α → β := Function.update m p.1 (merge (m p.1) p.2)

/-- The writes to location `a`. -/
def writesTo (a : α) (ps : List (α × ω)) : List ω := (ps.filter (fun p => p.1 = a)).map Prod.snd

theorem write_self (m : α → β) (a : α) (v : ω) : write merge m (a, v) a = merge (m a) v := Function.update_self ..

theorem write_of_ne {m : α → β} {p : α × ω} {a : α} (h : a ≠ p.1) : write merge m p a = m a :=
  Function.update_of_ne h ..

/-- A location holds the fold of the writes to it. -/
theorem foldl_write (m : α → β) (ps : List (α × ω)) (a : α) :
    ps.foldl (write merge) m a = (writesTo a ps).foldl merge (m a) := by
  induction ps generalizing m with
  | nil => rfl
  | cons p ps ih =>
    rw [List.foldl_cons, ih, writesTo, writesTo, List.filter_cons]
    by_cases h : p.1 = a
    · rw [if_pos (by simpa using h), List.map_cons, List.foldl_cons]
      subst h
      rw [write_self]
    · rw [if_neg (by simpa using h), write_of_ne merge (fun he => h he.symm)]

end

end ByteStore
