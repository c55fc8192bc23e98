import Mathlib
import LinProg.Ldl

/-!
# The columns of a factorization

`Ldl.Stage S n j R d` says what the factorization of an `n × n` matrix with the entries `S` has
computed after `j` columns, in any arithmetic: the rows `R` of `L` as far as they go, the pivots
`d`, and the equations that each of their entries solves. Each column leads to the next stage
(`Stage.next`), until all are done or a pivot is singular (`Stage.factor_cases`).
-/

namespace LinProg.Ldl

variable {α : Type} [Scalar α]

/-- What is known after `j` columns. -/
structure Stage (S : ℕ → ℕ → α) (n j : ℕ) (R : ℕ → List α) (d : List α) : Prop where
  le : j ≤ n
  length_diagonal : d.length = j
  length_row : ∀ i < n, (R i).length = min i j
  pivot : ∀ k < j, d.getD k 0 = reduce (S k k) (R k) (R k) (d.take k)
  below : ∀ k < j, ∀ i < n, k < i →
    (R i).getD k 0 = reduce (S i k) ((R i).take k) (R k) (d.take k) / d.getD k 0

/-- None of the first `j` pivots is singular. -/
def Regular (S : ℕ → ℕ → α) (tolerance : α) (j : ℕ) (d : List α) : Prop :=
  ∀ k < j, Scalar.abs (d.getD k 0) > tolerance * Scalar.abs (S k k)

/-- The pivot of a column. -/
def nextPivot (S : ℕ → ℕ → α) (R : ℕ → List α) (d : List α) (j : ℕ) : α :=
  reduce (S j j) (R j) (R j) d

/-- The rows after a column: those below its pivot have one more entry. -/
def nextRows (S : ℕ → ℕ → α) (R : ℕ → List α) (d : List α) (j : ℕ) : ℕ → List α := fun i =>
  if i ≤ j then R i else R i ++ [reduce (S i j) (R i) (R j) d / nextPivot S R d j]

variable {S : ℕ → ℕ → α} {tolerance : α} {n j : ℕ} {R : ℕ → List α} {d : List α}

theorem nextRows_of_le {i : ℕ} (h : i ≤ j) : nextRows S R d j i = R i := if_pos h

theorem nextRows_of_lt {i : ℕ} (h : j < i) :
    nextRows S R d j i = R i ++ [reduce (S i j) (R i) (R j) d / nextPivot S R d j] :=
  if_neg (not_le.mpr h)

theorem getD_append_singleton_self (l : List α) (a : α) : (l ++ [a]).getD l.length 0 = a := by
  rw [List.getD_append_right _ _ _ _ le_rfl, Nat.sub_self]
  rfl

theorem getD_take (l : List α) {k t : ℕ} (h : t < k) : (l.take k).getD t 0 = l.getD t 0 := by
  rw [List.getD_eq_getElem?_getD, List.getElem?_take_of_lt h, ← List.getD_eq_getElem?_getD]

omit [Scalar α] in
theorem below_eq [Zero α] (hR : ∀ i < n, (R i).length = i) (t : ℕ) :
    Factors.below ⟨(List.range n).map R, d⟩ t =
      (List.range' (t + 1) (n - (t + 1))).map fun k => (R k).getD t 0 := by
  rw [Factors.below, ← List.map_drop, List.range_eq_range', List.drop_range', Nat.zero_add,
    Nat.mul_one, List.filterMap_map, ← List.filterMap_eq_map]
  refine List.filterMap_congr fun k hk => ?_
  rw [List.mem_range'_1] at hk
  have hlt : t < (R k).length := by
    rw [hR k (by omega)]
    omega
  rw [Function.comp_apply, Function.comp_apply, List.getElem?_eq_getElem hlt,
    List.getD_eq_getElem _ _ hlt]

namespace Stage

theorem start : Stage S n 0 (fun _ => []) [] where
  le := Nat.zero_le n
  length_diagonal := rfl
  length_row := fun i _ => (Nat.min_zero i).symm
  pivot := fun k hk => absurd hk (Nat.not_lt_zero k)
  below := fun k hk => absurd hk (Nat.not_lt_zero k)

theorem earlier (h : Stage S n j R d) {k : ℕ} (hk : k ≤ j) :
    Stage S n k (fun i => (R i).take k) (d.take k) where
  le := hk.trans h.le
  length_diagonal := by rw [List.length_take, h.length_diagonal, Nat.min_eq_left hk]
  length_row := by
    intro i hi
    rw [List.length_take, h.length_row i hi]
    omega
  pivot := by
    intro t ht
    have hjn := h.le
    have hrow : (R t).take k = R t :=
      List.take_of_length_le (by rw [h.length_row t (by omega)]; omega)
    rw [getD_take d ht, List.take_take, Nat.min_eq_left ht.le, hrow]
    exact h.pivot t (ht.trans_le hk)
  below := by
    intro t ht i hi hti
    have hrow : (R t).take k = R t :=
      List.take_of_length_le (by rw [h.length_row t (by omega)]; omega)
    rw [getD_take _ ht, getD_take d ht, List.take_take, List.take_take, Nat.min_eq_left ht.le, hrow]
    exact h.below t (ht.trans_le hk) i hi hti

section Next

variable (h : Stage S n j R d)
include h

theorem length_row_eq {i : ℕ} (hji : j ≤ i) (hi : i < n) : (R i).length = j := by
  rw [h.length_row i hi, Nat.min_eq_right hji]

theorem getD_nextDiagonal {k : ℕ} (hk : k < j) :
    (d ++ [nextPivot S R d j]).getD k 0 = d.getD k 0 :=
  List.getD_append _ _ _ _ (by rw [h.length_diagonal]; exact hk)

theorem getD_nextDiagonal_self : (d ++ [nextPivot S R d j]).getD j 0 = nextPivot S R d j := by
  have hself := getD_append_singleton_self d (nextPivot S R d j)
  rwa [h.length_diagonal] at hself

theorem take_nextDiagonal {k : ℕ} (hk : k ≤ j) :
    (d ++ [nextPivot S R d j]).take k = d.take k :=
  List.take_append_of_le_length (by rw [h.length_diagonal]; exact hk)

theorem take_nextRows {i k : ℕ} (hi : i < n) (hkj : k ≤ j) :
    (nextRows S R d j i).take k = (R i).take k := by
  rcases Nat.lt_or_ge j i with hji | hij
  · rw [nextRows_of_lt hji]
    exact List.take_append_of_le_length (by rw [h.length_row_eq hji.le hi]; exact hkj)
  · rw [nextRows_of_le hij]

theorem getD_nextRows {i k : ℕ} (hi : i < n) (hkj : k < j) :
    (nextRows S R d j i).getD k 0 = (R i).getD k 0 := by
  rcases Nat.lt_or_ge j i with hji | hij
  · rw [nextRows_of_lt hji]
    exact List.getD_append _ _ _ _ (by rw [h.length_row_eq hji.le hi]; exact hkj)
  · rw [nextRows_of_le hij]

theorem next (hj : j < n) :
    Stage S n (j + 1) (nextRows S R d j) (d ++ [nextPivot S R d j]) where
  le := hj
  length_diagonal := by rw [List.length_append, h.length_diagonal, List.length_singleton]
  length_row := by
    intro i hi
    rcases Nat.lt_or_ge j i with hji | hij
    · rw [nextRows_of_lt hji, List.length_append, h.length_row_eq hji.le hi,
        List.length_singleton]
      omega
    · rw [nextRows_of_le hij, h.length_row i hi]
      omega
  pivot := by
    intro k hk
    rw [h.take_nextDiagonal (by omega), nextRows_of_le (by omega)]
    rcases Nat.lt_or_eq_of_le (Nat.le_of_lt_succ hk) with hkj | rfl
    · rw [h.getD_nextDiagonal hkj]
      exact h.pivot k hkj
    · rw [h.getD_nextDiagonal_self, List.take_of_length_le h.length_diagonal.le, nextPivot]
  below := by
    intro k hk i hi hki
    rw [h.take_nextDiagonal (by omega), h.take_nextRows hi (by omega),
      nextRows_of_le (Nat.le_of_lt_succ hk)]
    rcases Nat.lt_or_eq_of_le (Nat.le_of_lt_succ hk) with hkj | rfl
    · rw [h.getD_nextRows hi hkj, h.getD_nextDiagonal hkj]
      exact h.below k hkj i hi hki
    · have hlen := h.length_row_eq hki.le hi
      have hself := getD_append_singleton_self (R i)
        (reduce (S i k) (R i) (R k) d / nextPivot S R d k)
      rw [hlen] at hself
      rw [nextRows_of_lt hki, hself, h.getD_nextDiagonal_self,
        List.take_of_length_le hlen.le, List.take_of_length_le h.length_diagonal.le]

theorem regular_next (hd : Regular S tolerance j d)
    (hregular : Scalar.abs (nextPivot S R d j) > tolerance * Scalar.abs (S j j)) :
    Regular S tolerance (j + 1) (d ++ [nextPivot S R d j]) := by
  intro k hk
  rcases Nat.lt_or_eq_of_le (Nat.le_of_lt_succ hk) with hkj | rfl
  · rw [h.getD_nextDiagonal hkj]
    exact hd k hkj
  · rw [h.getD_nextDiagonal_self]
    exact hregular

end Next

variable {M : Matrix α}

theorem extend?_eq {column : ℕ} (pivotRow : List α) (pivot : α) {rows : List ℕ}
    (hget : ∀ i ∈ rows, M.get? i column = some (S i column)) :
    extend? M column pivotRow d pivot (rows.map fun i => (i, R i)) =
      some (rows.map fun i => (i, R i ++ [reduce (S i column) (R i) pivotRow d / pivot])) := by
  induction rows with
  | nil => rfl
  | cons i rows ih =>
    obtain ⟨hi, hrest⟩ := List.forall_mem_cons.mp hget
    rw [List.map_cons, extend?, hi, ih hrest]
    rfl

theorem columns_succ (hget : ∀ i < n, ∀ k < n, M.get? i k = some (S i k)) {k : ℕ}
    (hjk : j + (k + 1) = n) :
    columns M tolerance (k + 1) ⟨(List.range j).map R, d⟩
        ((List.range' j (k + 1)).map fun i => (i, R i)) =
      if Scalar.abs (nextPivot S R d j) > tolerance * Scalar.abs (S j j) then
        columns M tolerance k
          ⟨(List.range (j + 1)).map (nextRows S R d j), d ++ [nextPivot S R d j]⟩
          ((List.range' (j + 1) k).map fun i => (i, nextRows S R d j i))
      else .error (.singular j (Scalar.abs (nextPivot S R d j))) := by
  have hopen : ∀ i ∈ List.range' (j + 1) k, j < i ∧ i < n := by
    intro i hi
    rw [List.mem_range'_1] at hi
    omega
  have hcolumn : ∀ i ∈ List.range' (j + 1) k, M.get? i j = some (S i j) :=
    fun i hi => hget i (hopen i hi).2 j (by omega)
  have hextend := extend?_eq (R := R) (d := d) (R j) (nextPivot S R d j) hcolumn
  have hrows : (List.range' (j + 1) k).map (fun i => (i, nextRows S R d j i)) =
      (List.range' (j + 1) k).map
        fun i => (i, R i ++ [reduce (S i j) (R i) (R j) d / nextPivot S R d j]) :=
    List.map_congr_left fun i hi => by rw [nextRows_of_lt (hopen i hi).1]
  have hlower : (List.range (j + 1)).map (nextRows S R d j) = (List.range j).map R ++ [R j] := by
    rw [List.range_succ, List.map_append, List.map_singleton, nextRows_of_le le_rfl]
    congr 1
    refine List.map_congr_left fun i hi => nextRows_of_le ?_
    exact (List.mem_range.mp hi).le
  rw [List.range'_succ, List.map_cons, columns, hget j (by omega) j (by omega), hrows, hlower]
  -- the row of the pivot is the first open one, so `reduce` is applied to it twice
  change (if Scalar.abs (nextPivot S R d j) > tolerance * Scalar.abs (S j j) then
    (Outcome.ofOption (extend? M j (R j) d (nextPivot S R d j) _) >>= _) else _) = _
  rw [hextend]
  rfl

/-- **The columns.** The factorization reaches the last stage, or a stage at which the next pivot
is singular. -/
theorem columns_cases (hget : ∀ i < n, ∀ k < n, M.get? i k = some (S i k))
    (h : Stage S n j R d) (hd : Regular S tolerance j d) {k : ℕ} (hjk : j + k = n) :
    (∃ R' d', Stage S n n R' d' ∧ Regular S tolerance n d' ∧
      columns M tolerance k ⟨(List.range j).map R, d⟩
        ((List.range' j k).map fun i => (i, R i)) = .ok ⟨(List.range n).map R', d'⟩) ∨
    ∃ i R' d', i < n ∧ Stage S n i R' d' ∧ Regular S tolerance i d' ∧
      ¬Scalar.abs (nextPivot S R' d' i) > tolerance * Scalar.abs (S i i) ∧
      columns M tolerance k ⟨(List.range j).map R, d⟩
        ((List.range' j k).map fun i => (i, R i)) =
          .error (.singular i (Scalar.abs (nextPivot S R' d' i))) := by
  -- `k` columns are left; each leads from a stage to the next one
  induction k generalizing j R d with
  | zero =>
    left
    obtain rfl : j = n := by omega
    exact ⟨R, d, h, hd, rfl⟩
  | succ k ih =>
    rw [columns_succ hget hjk]
    split
    · rename_i hregular
      exact ih (h.next (by omega)) (h.regular_next hd hregular) (by omega)
    · rename_i hsingular
      right
      exact ⟨j, R, d, by omega, h, hd, hsingular, rfl⟩

theorem factor_eq_columns (tolerance : α) (hn : M.nrows = n) :
    factor M tolerance = columns M tolerance n ⟨(List.range 0).map fun _ => [], []⟩
      ((List.range' 0 n).map fun i => (i, [])) := by
  rw [factor, hn, List.range_eq_range']
  rfl

theorem factor_cases (tolerance : α) (hn : M.nrows = n)
    (hget : ∀ i < n, ∀ k < n, M.get? i k = some (S i k)) :
    (∃ R d, Stage S n n R d ∧ Regular S tolerance n d ∧
      factor M tolerance = .ok ⟨(List.range n).map R, d⟩) ∨
    ∃ i R d, i < n ∧ Stage S n i R d ∧ Regular S tolerance i d ∧
      ¬Scalar.abs (nextPivot S R d i) > tolerance * Scalar.abs (S i i) ∧
      factor M tolerance = .error (.singular i (Scalar.abs (nextPivot S R d i))) := by
  rw [factor_eq_columns tolerance hn]
  exact start.columns_cases hget (fun k hk => absurd hk (Nat.not_lt_zero k)) (Nat.zero_add n)

end Stage

end LinProg.Ldl
