import Mathlib
import LinProg.Matrix

/-!
# Row-major storage

`Matrix.HasRows M rs` says that the one list of entries that `M` holds is the rows `rs` one after
another. Both ways to read a matrix, by index and row after row, then give back the rows, as long
as the sizes fit machine words.

* `Matrix.Consistent.hasRows`: a list as long as the sizes say is cut into such rows.
* `Matrix.HasRows.get?_eq`, `Matrix.HasRows.row?_eq`: access by index.
* `Matrix.exists_set?`: an entry can be replaced, and the others stay.
* `Matrix.HasRows.allRows?_eq`, `Matrix.HasRows.rows_eq`: all rows. There are none to be read row
  after row if there are no columns (`Matrix.Consistent.rows_eq_nil`).
* `Matrix.productRows?_eq`: the products of rows with a vector.
-/

namespace LinProg

namespace Size

theorem fit?_eq_some_iff {n k : ℕ} : fit? n = some k ↔ n < 2 ^ 64 ∧ n = k := by
  rw [fit?, Option.ite_none_right_eq_some, Option.some.injEq]
  norm_num

theorem fit?_eq {n : ℕ} (h : n < 2 ^ 64) : fit? n = some n := fit?_eq_some_iff.mpr ⟨h, rfl⟩

theorem add?_eq {a b : ℕ} (h : a + b < 2 ^ 64) : add? a b = some (a + b) := fit?_eq h

theorem mul?_eq {a b : ℕ} (h : a * b < 2 ^ 64) : mul? a b = some (a * b) := fit?_eq h

theorem fit?_eq_none {n : ℕ} (h : 2 ^ 64 ≤ n) : fit? n = none := if_neg (not_lt.mpr h)

theorem add?_eq_none {a b : ℕ} (h : 2 ^ 64 ≤ a + b) : add? a b = none := fit?_eq_none h

theorem mul?_eq_none {a b : ℕ} (h : 2 ^ 64 ≤ a * b) : mul? a b = none := fit?_eq_none h

theorem add?_eq_some_iff {a b k : ℕ} : add? a b = some k ↔ a + b < 2 ^ 64 ∧ a + b = k :=
  fit?_eq_some_iff

theorem mul?_eq_some_iff {a b k : ℕ} : mul? a b = some k ↔ a * b < 2 ^ 64 ∧ a * b = k :=
  fit?_eq_some_iff

end Size

namespace Matrix

section Room

variable {α : Type} [Scalar α] {m n : ℕ}

theorem room_iff : Room α m n ↔ m * n < 2 ^ 64 ∧ Scalar.Stores α (m * n) := Iff.rfl

theorem room?_eq_some_iff {k : ℕ} : room? α m n = some k ↔ Room α m n ∧ m * n = k := by
  simp [room?]

theorem room?_eq (h : Room α m n) : room? α m n = some (m * n) := if_pos h

theorem room?_eq_none (h : ¬Room α m n) : room? α m n = none := if_neg h

theorem Room.mono {m' n' : ℕ} (h : Room α m n) (hle : m' * n' ≤ m * n) : Room α m' n' :=
  ⟨hle.trans_lt h.1, h.2.mono hle⟩

end Room

end Matrix

theorem find?_zipIdx_eq_none_iff {α : Type} {l : List α} {P : α → Prop} {fails : α × ℕ → Bool}
    (hfails : ∀ a i, fails (a, i) = true ↔ ¬P a) :
    l.zipIdx.find? fails = none ↔ ∀ a ∈ l, P a := by
  rw [List.find?_eq_none]
  constructor
  · intro h a ha
    obtain ⟨i, hi, rfl⟩ := List.getElem_of_mem ha
    have hnot := h (l[i], i) (List.mk_mem_zipIdx_iff_getElem?.mpr (List.getElem?_eq_getElem hi))
    rwa [hfails, not_not] at hnot
  · rintro h ⟨a, i⟩ he
    rw [hfails, not_not]
    exact h a (List.fst_mem_of_mem_zipIdx he)

theorem of_find?_zipIdx_eq_some {α : Type} {l : List α} {P : α → Prop} {fails : α × ℕ → Bool}
    (hfails : ∀ a i, fails (a, i) = true ↔ ¬P a) {a : α} {i : ℕ}
    (h : l.zipIdx.find? fails = some (a, i)) : l[i]? = some a ∧ ¬P a :=
  ⟨List.mk_mem_zipIdx_iff_getElem?.mp (List.mem_of_find?_eq_some h),
    (hfails a i).mp (List.find?_some h)⟩

theorem of_find?_zipIdx_ofFn_eq_some {α : Type} {n : ℕ} {f : Fin n → α} {P : α → Prop}
    {fails : α × ℕ → Bool} (hfails : ∀ a i, fails (a, i) = true ↔ ¬P a) {a : α} {i : ℕ}
    (h : (List.ofFn f).zipIdx.find? fails = some (a, i)) :
    ∃ k : Fin n, a = f k ∧ i = k ∧ ¬P (f k) := by
  obtain ⟨hi, hnot⟩ := of_find?_zipIdx_eq_some hfails h
  obtain ⟨hlt, rfl⟩ := List.getElem?_eq_some_iff.mp hi
  rw [List.length_ofFn] at hlt
  rw [List.getElem_ofFn] at hnot ⊢
  exact ⟨⟨i, hlt⟩, rfl, rfl, hnot⟩

theorem mapM_eq_some_map {α β : Type} {f : α → Option β} {g : α → β} {l : List α}
    (h : ∀ a ∈ l, f a = some (g a)) : l.mapM f = some (l.map g) := by
  induction l with
  | nil => rfl
  | cons a l ih =>
    obtain ⟨ha, hl⟩ := List.forall_mem_cons.mp h
    rw [List.mapM_cons, ha, ih hl]
    rfl

theorem exists_mapM_eq_some {α β : Type} {f : α → Option β} {l : List α}
    (h : ∀ a ∈ l, ∃ b, f a = some b) : ∃ bs, l.mapM f = some bs := by
  induction l with
  | nil => exact ⟨[], rfl⟩
  | cons a l ih =>
    obtain ⟨ha, hl⟩ := List.forall_mem_cons.mp h
    obtain ⟨b, hb⟩ := ha
    obtain ⟨bs, hbs⟩ := ih hl
    exact ⟨b :: bs, by rw [List.mapM_cons, hb, hbs]; rfl⟩

theorem length_of_mapM_eq_some {α β : Type} {f : α → Option β} {l : List α} {bs : List β}
    (h : l.mapM f = some bs) : bs.length = l.length := by
  induction l generalizing bs with
  | nil =>
    cases h
    rfl
  | cons a l ih =>
    simp only [List.mapM_cons, Option.bind_eq_bind, Option.bind_eq_some_iff, Option.pure_def,
      Option.some.injEq] at h
    obtain ⟨b, -, bs, hbs, rfl⟩ := h
    rw [List.length_cons, List.length_cons, ih hbs]

theorem exists_of_mem_of_mapM_eq_some {α β : Type} {f : α → Option β} {l : List α} {bs : List β}
    (h : l.mapM f = some bs) : ∀ b ∈ bs, ∃ a ∈ l, f a = some b := by
  induction l generalizing bs with
  | nil =>
    cases h
    simp
  | cons a l ih =>
    simp only [List.mapM_cons, Option.bind_eq_bind, Option.bind_eq_some_iff, Option.pure_def,
      Option.some.injEq] at h
    obtain ⟨b, hb, bs, hbs, rfl⟩ := h
    intro c hc
    rcases List.mem_cons.mp hc with rfl | hc
    · exact ⟨a, List.mem_cons_self, hb⟩
    · obtain ⟨a', ha', hc⟩ := ih hbs c hc
      exact ⟨a', List.mem_cons_of_mem _ ha', hc⟩

/-- The entry of a list of rows, zero outside of them. -/
def entryAt {α : Type} [Zero α] (rs : List (List α)) (i j : ℕ) : α := (rs.getD i []).getD j 0

theorem entryAt_eq_getElem {α : Type} [Zero α] {rs : List (List α)} {i j : ℕ} (hi : i < rs.length)
    (hj : j < rs[i].length) : entryAt rs i j = rs[i][j] := by
  rw [entryAt, List.getD_eq_getElem _ _ hi, List.getD_eq_getElem _ _ hj]

theorem getElem?_flatten {α : Type} {rs : List (List α)} {w i j : ℕ} (h : ∀ r ∈ rs, r.length = w)
    (hj : j < w) : rs.flatten[i * w + j]? = rs[i]?.bind (·[j]?) := by
  induction rs generalizing i with
  | nil => simp
  | cons r rs ih =>
    have hr : r.length = w := h r List.mem_cons_self
    rw [List.flatten_cons]
    cases i with
    | zero =>
      rw [Nat.zero_mul, Nat.zero_add, List.getElem?_append_left (by omega)]
      rfl
    | succ i =>
      rw [List.getElem?_append_right (by rw [Nat.succ_mul]; omega),
        show (i + 1) * w + j - r.length = i * w + j by rw [Nat.succ_mul, hr]; omega,
        ih fun s hs => h s (List.mem_cons_of_mem _ hs), List.getElem?_cons_succ]

namespace Matrix

variable {α : Type}

theorem length_pieces (w count : ℕ) (vs : List α) : (pieces w count vs).length = count := by
  induction count generalizing vs with
  | zero => rfl
  | succ count ih => rw [pieces, List.length_cons, ih]

theorem length_of_mem_pieces {w count : ℕ} {vs : List α} (h : vs.length = count * w) :
    ∀ r ∈ pieces w count vs, r.length = w := by
  induction count generalizing vs with
  | zero => simp [pieces]
  | succ count ih =>
    rw [Nat.succ_mul] at h
    rw [pieces, List.forall_mem_cons]
    exact ⟨by rw [List.length_take]; omega, ih (by rw [List.length_drop]; omega)⟩

theorem flatten_pieces {w count : ℕ} {vs : List α} (h : vs.length = count * w) :
    (pieces w count vs).flatten = vs := by
  induction count generalizing vs with
  | zero =>
    rw [Nat.zero_mul] at h
    rw [List.length_eq_zero_iff.mp h]
    rfl
  | succ count ih =>
    rw [Nat.succ_mul] at h
    rw [pieces, List.flatten_cons, ih (by rw [List.length_drop]; omega), List.take_append_drop]

theorem pieces_flatten {w : ℕ} {rs : List (List α)} (h : ∀ r ∈ rs, r.length = w) :
    pieces w rs.length rs.flatten = rs := by
  induction rs with
  | nil => rfl
  | cons r rs ih =>
    obtain ⟨hr, hrs⟩ := List.forall_mem_cons.mp h
    rw [List.length_cons, pieces, List.flatten_cons, List.take_left' hr, List.drop_left' hr, ih hrs]

theorem getElem?_pieces {w count i : ℕ} {vs : List α} (hi : i < count) :
    (pieces w count vs)[i]? = some ((vs.drop (i * w)).take w) := by
  induction count generalizing vs i with
  | zero => exact absurd hi (Nat.not_lt_zero i)
  | succ count ih =>
    cases i with
    | zero => rw [pieces, List.getElem?_cons_zero, Nat.zero_mul, List.drop_zero]
    | succ i =>
      rw [pieces, List.getElem?_cons_succ, ih (Nat.lt_of_succ_lt_succ hi), List.drop_drop,
        Nat.succ_mul, Nat.add_comm]

theorem chunks_flatten {w : ℕ} {rs : List (List α)} (hw : 0 < w) (h : ∀ r ∈ rs, r.length = w) :
    chunks w rs.length rs.flatten = rs := by
  induction rs with
  | nil => rfl
  | cons r rs ih =>
    obtain ⟨hr, hrs⟩ := List.forall_mem_cons.mp h
    obtain ⟨v, vs, hv⟩ := List.exists_cons_of_length_pos (l := r ++ rs.flatten) (by simp; omega)
    rw [List.length_cons, List.flatten_cons, hv, chunks, ← hv, List.take_left' hr,
      List.drop_left' hr, ih hrs]

theorem productRows?_eq [Scalar α] {x : List α} {rs : List (List α)}
    (hrs : ∀ r ∈ rs, r.length = x.length) {y : List α} (hy : y.length = rs.length) :
    productRows? x rs y = some (rs.map fun r => Vec.dot r x) := by
  induction rs generalizing y with
  | nil =>
    rw [List.length_eq_zero_iff.mp hy]
    rfl
  | cons r rs ih =>
    obtain ⟨hr, hrest⟩ := List.forall_mem_cons.mp hrs
    obtain ⟨u, y, rfl⟩ := List.exists_cons_of_length_eq_add_one hy
    rw [productRows?, Vec.dot?, if_pos hr, ih hrest (by simpa using hy)]
    rfl

section Places

variable {M : Matrix α}

theorem place_lt {n w i j : ℕ} (hi : i < n) (hj : j < w) : i * w + j < n * w := by
  have hmul : (i + 1) * w ≤ n * w := Nat.mul_le_mul_right _ hi
  rw [Nat.succ_mul] at hmul
  omega

theorem place?_eq (hfit : M.nrows * M.ncols < 2 ^ 64) {i j : ℕ} (hi : i < M.nrows)
    (hj : j < M.ncols) : M.place? i j = some (i * M.ncols + j) := by
  have hlt := place_lt hi hj
  rw [place?, Size.mul?_eq (by omega), Option.bind_eq_bind, Option.bind_some,
    Size.add?_eq (by omega)]

theorem get?_eq_getElem? (hfit : M.nrows * M.ncols < 2 ^ 64) {i j : ℕ} (hi : i < M.nrows)
    (hj : j < M.ncols) : M.get? i j = M.data[i * M.ncols + j]? := by
  rw [get?, place?_eq hfit hi hj]
  rfl

theorem rowStart?_eq (h : M.Consistent) (hfit : M.nrows * M.ncols < 2 ^ 64) {i : ℕ}
    (hi : i < M.nrows) : M.rowStart? i = some (i * M.ncols) := by
  have hstop : i * M.ncols + M.ncols ≤ M.nrows * M.ncols := by
    rw [← Nat.succ_mul]
    exact Nat.mul_le_mul_right _ hi
  rw [rowStart?, Size.mul?_eq (by omega), Option.bind_eq_bind, Option.bind_some,
    Size.add?_eq (by omega), Option.bind_some, if_pos (hstop.trans_eq h.symm)]

theorem place_injective {w i j i' j' : ℕ} (hj : j < w) (hj' : j' < w)
    (heq : i * w + j = i' * w + j') : i = i' ∧ j = j' := by
  have hpos : 0 < w := by omega
  have hrow : i = i' := by
    have hdiv := congrArg (· / w) heq
    simpa [Nat.mul_comm _ w, Nat.mul_add_div hpos, Nat.div_eq_of_lt hj,
      Nat.div_eq_of_lt hj'] using hdiv
  subst hrow
  exact ⟨rfl, by omega⟩

theorem exists_set? (h : M.Consistent) (hfit : M.nrows * M.ncols < 2 ^ 64) {i j : ℕ}
    (hi : i < M.nrows) (hj : j < M.ncols) (v : α) :
    ∃ M', M.set? i j v = some M' ∧ M'.nrows = M.nrows ∧ M'.ncols = M.ncols ∧ M'.Consistent ∧
      ∀ i' < M.nrows, ∀ j' < M.ncols,
        M'.get? i' j' = if i' = i ∧ j' = j then some v else M.get? i' j' := by
  have hlt : i * M.ncols + j < M.data.length := by
    rw [h]
    exact place_lt hi hj
  let M' : Matrix α := { M with data := M.data.set (i * M.ncols + j) v }
  have hfit' : M'.nrows * M'.ncols < 2 ^ 64 := hfit
  refine ⟨M', ?_, rfl, rfl, ?_, ?_⟩
  · rw [set?, place?_eq hfit hi hj, Option.bind_eq_bind, Option.bind_some, if_pos hlt]
  · rw [Consistent, List.length_set]
    exact h
  · intro i' hi' j' hj'
    rw [get?_eq_getElem? hfit hi' hj', get?_eq_getElem? (M := M') hfit' hi' hj',
      List.getElem?_set]
    by_cases hij : i' = i ∧ j' = j
    · obtain ⟨rfl, rfl⟩ := hij
      rw [if_pos rfl, if_pos hlt, if_pos ⟨rfl, rfl⟩]
    · rw [if_neg, if_neg hij]
      intro heq
      obtain ⟨rfl, rfl⟩ := place_injective hj hj' heq
      exact hij ⟨rfl, rfl⟩

end Places

/-- The entries of a matrix are those of given rows, one row after another. -/
structure HasRows (M : Matrix α) (rs : List (List α)) : Prop where
  /-- There is a row for each index. -/
  count : rs.length = M.nrows
  /-- The rows are as wide as the matrix. -/
  width : ∀ r ∈ rs, r.length = M.ncols
  /-- The matrix holds the entries of the rows. -/
  data : M.data = rs.flatten

theorem Consistent.hasRows {M : Matrix α} (h : M.Consistent) :
    M.HasRows (pieces M.ncols M.nrows M.data) where
  count := length_pieces _ _ _
  width := length_of_mem_pieces h
  data := (flatten_pieces h).symm

theorem Consistent.rows_eq_nil {M : Matrix α} (h : M.Consistent) (hcols : M.ncols = 0) :
    M.rows = [] := by
  have hdata : M.data = [] := by
    rw [← List.length_eq_zero_iff, h, hcols, Nat.mul_zero]
  rw [rows, hdata]
  cases M.nrows <;> rfl

theorem Consistent.productInto?_eq_self [Scalar α] {M : Matrix α} (h : M.Consistent)
    (hcols : M.ncols = 0) {x y : List α} (hx : x.length = M.ncols) (hy : y.length = M.nrows) :
    M.productInto? x y = some y := by
  rw [productInto?, if_pos ⟨hx, hy⟩, h.rows_eq_nil hcols]
  rfl

theorem hasRows_ofRowList {w : ℕ} {rs : List (List α)} (h : ∀ r ∈ rs, r.length = w) :
    (ofRowList w rs).HasRows rs := ⟨rfl, h, rfl⟩

namespace HasRows

variable {M : Matrix α} {rs : List (List α)}

theorem length_data (h : M.HasRows rs) : M.data.length = M.nrows * M.ncols := by
  rw [h.data, List.length_flatten, List.map_congr_left h.width, List.map_const', List.sum_replicate,
    h.count, smul_eq_mul]

theorem get?_eq [Zero α] (h : M.HasRows rs) (hfit : M.nrows * M.ncols < 2 ^ 64) {i j : ℕ}
    (hi : i < M.nrows) (hj : j < M.ncols) : M.get? i j = some (entryAt rs i j) := by
  have hi' : i < rs.length := by rw [h.count]; exact hi
  have hj' : j < rs[i].length := by rw [h.width _ (List.getElem_mem hi')]; exact hj
  rw [get?_eq_getElem? hfit hi hj, h.data, getElem?_flatten h.width hj,
    List.getElem?_eq_getElem hi', Option.bind_some, List.getElem?_eq_getElem hj',
    entryAt_eq_getElem hi' hj']

theorem allRows?_eq (h : M.HasRows rs) (hfit : M.nrows * M.ncols < 2 ^ 64) :
    M.allRows? = some rs := by
  rw [allRows?]
  split
  · rename_i h0
    rw [List.length_eq_zero_iff.mp (h.count.trans h0)]
  · rw [Size.mul?_eq hfit, Option.bind_eq_bind, Option.bind_some, if_pos h.length_data.ge, h.data,
      ← h.count, pieces_flatten h.width]

theorem row?_eq (h : M.HasRows rs) (hfit : M.nrows * M.ncols < 2 ^ 64) {i : ℕ}
    (hi : i < M.nrows) : M.row? i = rs[i]? := by
  have hpieces := pieces_flatten h.width
  rw [h.count, ← h.data] at hpieces
  rw [row?, rowStart?_eq h.length_data hfit hi, ← hpieces, getElem?_pieces hi]
  rfl

theorem rows_eq (h : M.HasRows rs) (hw : 0 < M.ncols) : M.rows = rs := by
  rw [rows, max_eq_left hw, h.data, ← h.count, chunks_flatten hw h.width]

end HasRows

theorem validate_eq_ok_iff {M : Matrix α} {u : Unit} :
    M.validate = .ok u ↔ M.nrows * M.ncols < 2 ^ 64 ∧ M.Consistent := by
  simp only [validate, Outcome.bind_eq_ok, Outcome.ofOption_eq_ok, Size.mul?_eq_some_iff,
    Outcome.check_eq_ok, Consistent]
  constructor
  · rintro ⟨k, ⟨hfit, rfl⟩, hlen⟩
    exact ⟨hfit, hlen⟩
  · rintro ⟨hfit, hlen⟩
    exact ⟨_, ⟨hfit, rfl⟩, hlen⟩

end Matrix

end LinProg
