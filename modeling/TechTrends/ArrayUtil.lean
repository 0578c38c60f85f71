/-
`array.util`: `chunkArray`, for every number that `Number(…)` gives.

The size comes from the environment, unchecked. The loop goes on as long as the index is
below the length, so a size of 0 or less keeps it going for ever, and so does one that is
lost in the sum with the index. `NaN` ends it after one empty chunk. What is left are the
sizes that carry the index over the length.
-/
import Mathlib.Algebra.Order.Archimedean.Basic
import Mathlib.Data.Nat.Log
import TechTrends.JsNumber
import TechTrends.Pipeline

set_option autoImplicit false

namespace TechTrends

namespace ArrayUtil

variable {α : Type}

/-! ## `slice` -/

/-- `ToIntegerOrInfinity` of a finite number: towards zero. -/
def truncate (q : ℚ) : ℤ := if 0 ≤ q then ⌊q⌋ else ⌈q⌉

/-- The index that an argument of `slice` stands for. -/
def sliceIndex (length : ℕ) : JsNumber → ℕ
  | JsNumber.nan => 0
  | JsNumber.infinity neg => if neg then 0 else length
  | JsNumber.finite q => if truncate q < 0 then (length + truncate q).toNat else min (truncate q).toNat length

/-- `array.slice(start, end)`. -/
def slice (array : List α) (start end_ : JsNumber) : List α :=
  (array.take (sliceIndex array.length end_)).drop (sliceIndex array.length start)

/-! ## `chunkArray` -/

/-- The loop from index `i` on, none when it has not ended after `turns` turns. -/
def chunkLoop (array : List α) (size : JsNumber) : ℕ → JsNumber → Option (List (List α))
  | 0, _ => none
  | turns + 1, i =>
    if JsNumber.lt i (JsNumber.finite array.length) then
      (chunkLoop array size turns (i.add size)).map (slice array i (i.add size) :: ·)
    else some []

def chunkArray (array : List α) (size : JsNumber) (turns : ℕ) : Option (List (List α)) :=
  chunkLoop array size turns (JsNumber.finite 0)

/-- The loop ends, and the chunks put together are the array. -/
def Splits (array : List α) (size : JsNumber) : Prop :=
  ∃ turns chunks, chunkArray array size turns = some chunks ∧ chunks.flatten = array

/-- The exponent of the first power of two that is not below the length, as far as
doubles go. -/
def topExponent (length : ℕ) : ℕ := min (Nat.clog 2 length) 1024

/-- The size carries an index over the length: it is not lost in a sum with an index
below it. -/
def Carries (length : ℕ) : JsNumber → Prop
  | JsNumber.nan => False
  | JsNumber.infinity neg => neg = false
  | JsNumber.finite s => (2 : ℚ) ^ topExponent length < s * 2 ^ 54

instance (length : ℕ) (size : JsNumber) : Decidable (Carries length size) := by
  cases size <;> unfold Carries <;> infer_instance

/-! ## Slices of a walk -/

section Walk

variable {array : List α} {size : JsNumber} {x y : ℚ}

theorem sliceIndex_of_nonneg (length : ℕ) (hx : 0 ≤ x) :
    sliceIndex length (JsNumber.finite x) = min ⌊x⌋.toNat length := by
  have hfloor : 0 ≤ ⌊x⌋ := Int.floor_nonneg.2 hx
  have htruncate : truncate x = ⌊x⌋ := if_pos hx
  rw [sliceIndex, htruncate, if_neg (by omega)]

/-- A stretch of a list and what is behind it. -/
theorem drop_take_append_drop {m n : ℕ} (h : m ≤ n) (l : List α) :
    (l.take (min n l.length)).drop (min m l.length) ++ l.drop n = l.drop m := by
  have htake : l.take (min n l.length) = l.take n := by
    rw [List.take_eq_take_iff]
    omega
  have hdrop : (l.take n).drop (min m l.length) = (l.take n).drop m := by
    rcases Nat.le_total m l.length with hm | hm
    · rw [Nat.min_eq_left hm]
    · rw [Nat.min_eq_right hm, List.drop_eq_nil_of_le (by rw [List.length_take]; omega),
        List.drop_eq_nil_of_le (by rw [List.length_take]; omega)]
  rw [htake, hdrop]
  calc (l.take n).drop m ++ l.drop n = (l.drop m).take (n - m) ++ (l.drop m).drop (n - m) := by
        rw [List.drop_take, List.drop_drop, Nat.add_sub_cancel' h]
    _ = l.drop m := List.take_append_drop _ _

/-- Where one chunk ends the next one starts. -/
theorem slice_append_drop (hx : 0 ≤ x) (hxy : x ≤ y) :
    slice array (JsNumber.finite x) (JsNumber.finite y) ++ array.drop ⌊y⌋.toNat =
      array.drop ⌊x⌋.toNat := by
  have hfloor : ⌊x⌋.toNat ≤ ⌊y⌋.toNat := Int.toNat_le_toNat (Int.floor_mono hxy)
  rw [slice, sliceIndex_of_nonneg _ hx, sliceIndex_of_nonneg _ (hx.trans hxy)]
  exact drop_take_append_drop hfloor array

/-- The chunk up to infinity is the rest. -/
theorem slice_infinity (hx : 0 ≤ x) :
    slice array (JsNumber.finite x) (JsNumber.infinity false) = array.drop ⌊x⌋.toNat := by
  have hrest : array.drop (⌊x⌋.toNat + array.length) = [] := List.drop_eq_nil_of_le (by omega)
  have hwhole := drop_take_append_drop (m := ⌊x⌋.toNat) (n := ⌊x⌋.toNat + array.length) (by omega) array
  rw [hrest, List.append_nil, Nat.min_eq_right (Nat.le_add_left array.length _)] at hwhole
  rw [slice, sliceIndex_of_nonneg _ hx]
  exact hwhole

theorem lt_length_iff : JsNumber.lt (JsNumber.finite x) (JsNumber.finite array.length) = true ↔
    x < array.length := decide_eq_true_iff

theorem chunkLoop_succ (turns : ℕ) (h : x < array.length) :
    chunkLoop array size (turns + 1) (JsNumber.finite x) =
      (chunkLoop array size turns ((JsNumber.finite x).add size)).map
        (slice array (JsNumber.finite x) ((JsNumber.finite x).add size) :: ·) :=
  if_pos (lt_length_iff.2 h)

theorem chunkLoop_end (turns : ℕ) (h : (array.length : ℚ) ≤ x) :
    chunkLoop array size (turns + 1) (JsNumber.finite x) = some [] :=
  if_neg (fun hlt => absurd (lt_length_iff.1 hlt) (not_lt.2 h))

/-- From the length on nothing is left. -/
theorem drop_floor_of_length_le (h : (array.length : ℚ) ≤ x) : array.drop ⌊x⌋.toNat = [] := by
  have hfloor : (array.length : ℤ) ≤ ⌊x⌋ := Int.le_floor.2 (by exact_mod_cast h)
  exact List.drop_eq_nil_of_le (by omega)

/-- An index that is past every length ends the loop with the rest as its last chunk. -/
theorem chunkLoop_infinity (hx : 0 ≤ x) (h : x < array.length)
    (hadd : (JsNumber.finite x).add size = JsNumber.infinity false) :
    ∃ turns chunks, chunkLoop array size turns (JsNumber.finite x) = some chunks ∧
      chunks.flatten = array.drop ⌊x⌋.toNat := by
  refine ⟨2, [slice array (JsNumber.finite x) (JsNumber.infinity false)], ?_, ?_⟩
  · rw [chunkLoop_succ 1 h, hadd]
    rfl
  · rw [List.flatten_singleton, slice_infinity hx]

end Walk

/-! ## Sizes that carry -/

theorem lt_two_pow_of_topExponent {length : ℕ} (h : topExponent length < 1024) :
    length ≤ 2 ^ topExponent length := by
  have htop : topExponent length = Nat.clog 2 length := by
    unfold topExponent at h ⊢
    omega
  rw [htop]
  exact Nat.le_pow_clog (by decide) length

/-- The amount by which a size is above the half unit that a sum can lose. -/
def margin (length : ℕ) (s : ℚ) : ℚ := s - (2 : ℚ) ^ ((topExponent length : ℤ) - 1 - 53)

theorem margin_pos_iff {length : ℕ} {s : ℚ} : 0 < margin length s ↔ Carries length (JsNumber.finite s) := by
  have hpow : (2 : ℚ) ^ ((topExponent length : ℤ) - 1 - 53) = 2 ^ topExponent length / 2 ^ 54 := by
    rw [show (topExponent length : ℤ) - 1 - 53 = topExponent length - (54 : ℕ) by omega,
      zpow_sub₀ (by norm_num), zpow_natCast, zpow_natCast]
  rw [margin, hpow, sub_pos, div_lt_iff₀ (by positivity)]
  exact Iff.rfl

/-- A size that carries moves an index on by its margin, or over the length. -/
theorem add_of_carries {length : ℕ} {s x : ℚ} (hx : 0 ≤ x) (hs : Carries length (JsNumber.finite s)) :
    (JsNumber.finite x).add (JsNumber.finite s) = JsNumber.infinity false ∨
      ∃ y, (JsNumber.finite x).add (JsNumber.finite s) = JsNumber.finite y ∧
        ((length : ℚ) ≤ y ∨ x + margin length s ≤ y) := by
  have hmargin := margin_pos_iff.2 hs
  have hpow : (0 : ℚ) < (2 : ℚ) ^ ((topExponent length : ℤ) - 1 - 53) := zpow_pos (by norm_num) _
  have hpos : 0 < x + s := by
    unfold margin at hmargin
    linarith
  have hlarge := Binary64.roundValue_ge_of_large (e := (topExponent length : ℤ) - 1) (by omega) hpos
  rw [JsNumber.add, JsNumber.round]
  by_cases hfinite : |Binary64.roundValue (x + s)| < 2 ^ 1024
  · refine Or.inr ⟨_, if_pos hfinite, hlarge.symm.imp ?_ ?_⟩
    · intro hbeyond
      rw [Int.sub_add_cancel, zpow_natCast] at hbeyond
      have htop : topExponent length < 1024 := by
        have hlt := (hbeyond.trans (le_abs_self _)).trans_lt hfinite
        exact (pow_lt_pow_iff_right₀ (by norm_num)).1 hlt
      have hlength : (length : ℚ) ≤ 2 ^ topExponent length := by
        exact_mod_cast lt_two_pow_of_topExponent htop
      exact hlength.trans hbeyond
    · intro hmoved
      unfold margin
      linarith
  · refine Or.inl ?_
    rw [if_neg hfinite, decide_eq_false (not_lt.2 hpos.le)]

/-- The loop from an index on, when the length is `k` margins away. -/
theorem chunkLoop_of_carries {array : List α} {s : ℚ} (hs : Carries array.length (JsNumber.finite s))
    (k : ℕ) {x : ℚ} (hx : 0 ≤ x) (hk : (array.length : ℚ) - x ≤ k * margin array.length s) :
    ∃ turns chunks, chunkLoop array (JsNumber.finite s) turns (JsNumber.finite x) = some chunks ∧
      chunks.flatten = array.drop ⌊x⌋.toNat := by
  have hmargin := margin_pos_iff.2 hs
  -- the turns are not known beforehand, the margins to go are
  induction k generalizing x with
  | zero =>
    have hend : (array.length : ℚ) ≤ x := by
      rw [Nat.cast_zero, zero_mul] at hk
      linarith
    exact ⟨1, [], chunkLoop_end 0 hend, (drop_floor_of_length_le hend).symm⟩
  | succ k ih =>
    rcases lt_or_ge x (array.length : ℚ) with hlt | hend
    · rcases add_of_carries hx hs with hinfinity | ⟨y, hadd, hmoved⟩
      · exact chunkLoop_infinity hx hlt hinfinity
      · -- the next index is past the length or one margin nearer to it
        have hnear : (array.length : ℚ) - y ≤ k * margin array.length s := by
          have hnonneg : 0 ≤ (k : ℚ) * margin array.length s := by positivity
          push_cast at hk
          rcases hmoved with h | h <;> linarith
        have hxy : x ≤ y := by
          rcases hmoved with h | h <;> linarith
        obtain ⟨turns, chunks, hloop, hflatten⟩ := ih (hx.trans hxy) hnear
        refine ⟨turns + 1, slice array (JsNumber.finite x) (JsNumber.finite y) :: chunks, ?_, ?_⟩
        · rw [chunkLoop_succ turns hlt, hadd, hloop]
          rfl
        · rw [List.flatten_cons, hflatten, slice_append_drop hx hxy]
    · exact ⟨1, [], chunkLoop_end 0 hend, (drop_floor_of_length_le hend).symm⟩

theorem splits_of_carries {array : List α} {size : JsNumber} (h : Carries array.length size) :
    Splits array size := by
  cases size with
  | nan => exact h.elim
  | infinity neg =>
    obtain rfl : neg = false := h
    rcases lt_or_ge (0 : ℚ) (array.length : ℚ) with hlt | hend
    · exact chunkLoop_infinity le_rfl hlt rfl
    · exact ⟨1, [], chunkLoop_end 0 hend, (drop_floor_of_length_le hend).symm⟩
  | finite s =>
    have hmargin := margin_pos_iff.2 h
    obtain ⟨k, hk⟩ := exists_nat_ge ((array.length : ℚ) / margin array.length s)
    rw [div_le_iff₀ hmargin] at hk
    exact chunkLoop_of_carries h k le_rfl (by rwa [sub_zero])

/-! ## Sizes that do not -/

/-- The indices that a size which does not carry leaves the loop at. -/
def Stuck (length : ℕ) : JsNumber → Prop
  | JsNumber.nan => False
  | JsNumber.infinity neg => neg = true
  | JsNumber.finite x => x ≤ (2 : ℚ) ^ ((topExponent length : ℤ) - 1)

theorem lt_of_stuck {length : ℕ} (hlength : 0 < length) {i : JsNumber} (h : Stuck length i) :
    JsNumber.lt i (JsNumber.finite length) = true := by
  cases i with
  | nan => exact h.elim
  | infinity neg =>
    obtain rfl : neg = true := h
    rfl
  | finite x =>
    refine decide_eq_true (lt_of_le_of_lt h ?_)
    have hbelow := Int.zpow_pred_clog_lt_self (b := 2) (r := (length : ℚ)) (by norm_num) (by exact_mod_cast hlength)
    rw [Int.clog_natCast] at hbelow
    refine lt_of_le_of_lt (zpow_le_zpow_right₀ (by norm_num) ?_) hbelow
    unfold topExponent
    omega

-- The index may go down by a negative size, to minus infinity even; it only has to stay below
-- the length.
theorem stuck_add {length : ℕ} {i size : JsNumber} (hi : Stuck length i) (hnan : size ≠ JsNumber.nan)
    (hsize : ¬ Carries length size) : Stuck length (i.add size) := by
  cases size with
  | nan => exact absurd rfl hnan
  | infinity neg =>
    obtain rfl : neg = true := Bool.not_eq_false _ ▸ hsize
    cases i with
    | nan => exact hi.elim
    | infinity neg' =>
      obtain rfl : neg' = true := hi
      exact rfl
    | finite x => exact rfl
  | finite s =>
    cases i with
    | nan => exact hi.elim
    | infinity neg =>
      obtain rfl : neg = true := hi
      exact rfl
    | finite x =>
      -- a size of at most half a unit: the sum is rounded back to the power of two
      have hmargin := not_lt.1 (mt margin_pos_iff.1 hsize)
      have hsmall : x + s ≤ (2 : ℚ) ^ ((topExponent length : ℤ) - 1) +
          (2 : ℚ) ^ ((topExponent length : ℤ) - 1 - 53) := by
        unfold margin at hmargin
        exact add_le_add hi (by linarith)
      have hround := Binary64.roundValue_le_of_small (by omega) hsmall
      rw [JsNumber.add, JsNumber.round]
      split
      · exact hround
      · next hoverflow =>
        -- below `-2 ^ 1024`, since a power of two above the sum is in the range
        refine decide_eq_true (not_le.1 fun hpos => hoverflow ?_)
        rw [abs_of_nonneg (Binary64.roundValue_nonneg hpos)]
        refine lt_of_le_of_lt hround ?_
        rw [← zpow_natCast]
        refine zpow_lt_zpow_right₀ (by norm_num) ?_
        unfold topExponent
        omega

/-- The loop does not end. -/
theorem chunkLoop_of_stuck {array : List α} {size : JsNumber} (hlength : 0 < array.length)
    (hnan : size ≠ JsNumber.nan) (hsize : ¬ Carries array.length size) (turns : ℕ) {i : JsNumber}
    (hi : Stuck array.length i) : chunkLoop array size turns i = none := by
  induction turns generalizing i with
  | zero => rfl
  | succ turns ih =>
    rw [chunkLoop, if_pos (lt_of_stuck hlength hi), ih (stuck_add hi hnan hsize)]
    rfl

/-- `NaN` ends the loop after one turn, with an empty chunk. -/
theorem chunkArray_nan {array : List α} (hlength : 0 < array.length) (turns : ℕ)
    {chunks : List (List α)} (h : chunkArray array JsNumber.nan turns = some chunks) : chunks = [[]] := by
  have hlt : JsNumber.lt (JsNumber.finite 0) (JsNumber.finite array.length) = true :=
    lt_length_iff.2 (by exact_mod_cast hlength)
  have hslice : slice array (JsNumber.finite 0) JsNumber.nan = [] := by
    rw [slice, sliceIndex, List.take_zero, List.drop_nil]
  cases turns with
  | zero => cases h
  | succ turns =>
    rw [chunkArray, chunkLoop, if_pos hlt] at h
    -- the index is `NaN` from here on, and not below the length
    cases turns with
    | zero => cases h
    | succ turns =>
      obtain rfl := Option.some.inj h
      exact congrArg (fun chunk => [chunk]) hslice

theorem not_splits {array : List α} {size : JsNumber} (hlength : 0 < array.length)
    (hsize : ¬ Carries array.length size) : ¬ Splits array size := by
  rintro ⟨turns, chunks, hrun, hflatten⟩
  by_cases hnan : size = JsNumber.nan
  · rw [hnan] at hrun
    rw [chunkArray_nan hlength turns hrun] at hflatten
    rw [← hflatten] at hlength
    exact absurd hlength (by simp)
  · have hstart : Stuck array.length (JsNumber.finite 0) := (zpow_pos (by norm_num) _).le
    rw [chunkArray, chunkLoop_of_stuck hlength hnan hsize turns hstart] at hrun
    cases hrun

/-! ## When the chunks are the array -/

theorem slice_natCast (array : List α) (i size : ℕ) :
    slice array (JsNumber.finite (i : ℚ)) (JsNumber.finite ((i + size : ℕ) : ℚ)) =
      (array.drop i).take size := by
  have happend := drop_take_append_drop (Nat.le_add_right i size) array
  have hfloor : ∀ n : ℕ, ⌊(n : ℚ)⌋.toNat = n := fun n => by rw [Int.floor_natCast, Int.toNat_natCast]
  rw [slice, sliceIndex_of_nonneg _ (Nat.cast_nonneg _), sliceIndex_of_nonneg _ (Nat.cast_nonneg _),
    hfloor, hfloor]
  refine List.append_cancel_right (happend.trans ?_)
  rw [← List.drop_drop, List.take_append_drop]

/-- For a positive whole size the loop is the one of the pipeline's model. -/
theorem chunkLoop_natCast {array : List α} {size : ℕ} (hlength : array.length + size < 2 ^ 53)
    (turns : ℕ) {i : ℕ} (hsize : 0 < size) (hi : array.length ≤ i + turns) :
    chunkLoop array (JsNumber.finite (size : ℚ)) (turns + 1) (JsNumber.finite (i : ℚ)) =
      some (Pipeline.chunkLoop array size turns i) := by
  induction turns generalizing i with
  | zero => exact chunkLoop_end 0 (by exact_mod_cast hi)
  | succ turns ih =>
    by_cases hlt : i < array.length
    · rw [chunkLoop_succ _ (by exact_mod_cast hlt), JsNumber.add_natCast (by omega), ih (by omega),
        slice_natCast, Pipeline.chunkLoop, if_pos hlt]
      rfl
    · rw [chunkLoop_end _ (by exact_mod_cast not_lt.1 hlt), Pipeline.chunkLoop, if_neg hlt]

theorem chunkArray_natCast {array : List α} {size : ℕ} (hlength : array.length + size < 2 ^ 53)
    (hsize : 0 < size) :
    chunkArray array (JsNumber.finite (size : ℚ)) (array.length + 1) =
      some (Pipeline.chunkArray array size) := by
  have hloop := chunkLoop_natCast hlength array.length (i := 0) hsize (by omega)
  rwa [Nat.cast_zero] at hloop

end ArrayUtil

end TechTrends
