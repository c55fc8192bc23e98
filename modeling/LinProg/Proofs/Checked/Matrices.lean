import LinProg.Proofs.Checked.Arithmetic
import LinProg.Proofs.Rows

/-!
# Matrices of numbers

A matrix with its entries replaced one by one (`Matrix.map`) has the rows of the matrix, with their
entries replaced. What an operation computes from matrices and vectors over a field it computes from
the same numbers in checked arithmetic, since none of them divides.
-/

namespace LinProg.Matrix

section Map

variable {α β : Type} (f : α → β)

def map (M : Matrix α) : Matrix β := ⟨M.nrows, M.ncols, M.data.map f⟩

theorem get?_map (M : Matrix α) (i j : ℕ) : (M.map f).get? i j = (M.get? i j).map f := by
  change ((M.place? i j).bind fun k => (M.data.map f)[k]?) =
    ((M.place? i j).bind fun k => M.data[k]?).map f
  simp only [List.getElem?_map, Option.map_bind]
  rfl

theorem pieces_map (w count : ℕ) (vs : List α) :
    pieces w count (vs.map f) = (pieces w count vs).map (List.map f) := by
  induction count generalizing vs with
  | zero => rfl
  | succ count ih =>
    rw [pieces, pieces, List.map_cons, ← ih, List.map_take, List.map_drop]

theorem chunks_map (w count : ℕ) (vs : List α) :
    chunks w count (vs.map f) = (chunks w count vs).map (List.map f) := by
  induction count generalizing vs with
  | zero => rfl
  | succ count ih =>
    cases vs with
    | nil => rfl
    | cons v vs =>
      rw [List.map_cons, chunks, chunks, List.map_cons, ← ih, ← List.map_cons, List.map_take,
        List.map_drop]

theorem rows_map (M : Matrix α) : (M.map f).rows = M.rows.map (List.map f) :=
  chunks_map f _ _ _

theorem allRows?_map (M : Matrix α) :
    (M.map f).allRows? = M.allRows?.map (List.map (List.map f)) := by
  unfold allRows?
  by_cases hrows : M.nrows = 0
  · rw [if_pos hrows, if_pos (show (M.map f).nrows = 0 from hrows)]
    rfl
  · rw [if_neg hrows, if_neg (show (M.map f).nrows ≠ 0 from hrows)]
    simp only [map, List.length_map, pieces_map, Option.bind_eq_bind, Option.map_bind,
      Function.comp_def, apply_ite (Option.map (List.map (List.map f))), Option.map_some,
      Option.map_none]

theorem map_ofRowList (w : ℕ) (rs : List (List α)) :
    (ofRowList w rs).map f = ofRowList w (rs.map (List.map f)) := by
  rw [ofRowList, ofRowList, map, List.length_map, List.map_flatten]

end Map

open Checked

variable {K : Type} [Field K] [LinearOrder K] [Exact K]

theorem productRows?_map_number (x : List K) (rs : List (List K)) (y : List K) :
    productRows? (x.map number) (rs.map (List.map number)) (y.map number) =
      (productRows? x rs y).map (List.map number) := by
  induction rs generalizing y with
  | nil => cases y <;> rfl
  | cons r rs ih =>
    cases y with
    | nil => rfl
    | cons b y =>
      rw [List.map_cons, List.map_cons, productRows?, productRows?, Vec.dot?_map_number, ih]
      cases Vec.dot? r x with
      | none => rfl
      | some v => cases productRows? x rs y <;> rfl

theorem productInto?_map_number (M : Matrix K) (x y : List K) :
    (M.map number).productInto? (x.map number) (y.map number) =
      (M.productInto? x y).map (List.map number) := by
  unfold productInto?
  rw [rows_map, productRows?_map_number]
  simp only [map, List.length_map, apply_ite (Option.map (List.map number)), Option.map_none]

theorem replicate_zero_eq_map (n : ℕ) :
    List.replicate n (0 : Checked K) = (List.replicate n 0).map number := by
  rw [List.map_replicate, zero_eq]

theorem product?_map_number (M : Matrix K) (x : List K) :
    (M.map number).product? (x.map number) = (M.product? x).map (List.map number) := by
  rw [product?, product?, ← productInto?_map_number, replicate_zero_eq_map]
  rfl

theorem foldlM_axpy?_map_number (l : List (List K × K)) (sum : List K) :
    (l.map fun e => (e.1.map number, number e.2)).foldlM (fun sum e => Vec.axpy? e.2 e.1 sum)
        (sum.map number) =
      (l.foldlM (fun sum e => Vec.axpy? e.2 e.1 sum) sum).map (List.map number) := by
  induction l generalizing sum with
  | nil => rfl
  | cons e l ih =>
    rw [List.map_cons, List.foldlM_cons, List.foldlM_cons, Vec.axpy?_map_number]
    cases Vec.axpy? e.2 e.1 sum with
    | none => rfl
    | some next => exact ih next

theorem transposeProductInto?_map_number (M : Matrix K) (x y : List K) :
    (M.map number).transposeProductInto? (x.map number) (y.map number) =
      (M.transposeProductInto? x y).map (List.map number) := by
  have hzip : (M.rows.map (List.map number)).zip (x.map number) =
      (M.rows.zip x).map fun e => (e.1.map number, number e.2) := List.zip_map
  have hzero : (y.map number).map (fun _ => (0 : Checked K)) =
      (y.map fun _ => (0 : K)).map number := by
    rw [List.map_map, List.map_map]
    rfl
  unfold transposeProductInto?
  rw [rows_map, hzip, hzero, foldlM_axpy?_map_number]
  simp only [map, List.length_map, apply_ite (Option.map (List.map number)), Option.map_none]

theorem scaleColumns?_map_number (M : Matrix K) (x : List K) :
    (M.map number).scaleColumns? (x.map number) = (M.scaleColumns? x).map (map number) := by
  have hrows : ∀ rs : List (List K),
      ((rs.map (List.map number)).map fun r => r.zipWith (· * ·) (x.map number)).flatten =
        (rs.map fun r => r.zipWith (· * ·) x).flatten.map number := by
    intro rs
    rw [List.map_map, List.map_flatten, List.map_map]
    refine congrArg List.flatten (List.map_congr_left fun r _ => ?_)
    exact Vec.zipWith_map_number (fun _ _ => rfl) r x
  unfold scaleColumns?
  rw [allRows?_map]
  cases M.allRows? with
  | none => simp [map]
  | some rs =>
    simp only [Option.map_some, Option.bind_eq_bind, Option.bind_some, hrows, List.length_map, map,
      ← List.map_drop, ← List.map_append, apply_ite (Option.map (map number)), Option.map_none]

theorem room?_eq_room? (m n : ℕ) : room? (Checked K) m n = room? K m n := rfl

theorem withIdentityBlock?_map_number (M : Matrix K) :
    (M.map number).withIdentityBlock? = M.withIdentityBlock?.map (map number) := by
  have hunit : ∀ i, (unitRow M.nrows i : List (Checked K)) = (unitRow M.nrows i).map number := by
    intro i
    rw [unitRow, unitRow, List.map_map]
    refine List.map_congr_left fun j _ => ?_
    rw [Function.comp_apply, apply_ite number]
    rfl
  have hrows : ∀ rs : List (List K),
      ((rs.map (List.map number)).zipIdx.map fun e => e.1 ++ unitRow M.nrows e.2) =
        (rs.zipIdx.map fun e => e.1 ++ unitRow M.nrows e.2).map (List.map number) := by
    intro rs
    rw [List.zipIdx_map, List.map_map, List.map_map]
    refine List.map_congr_left fun e _ => ?_
    rw [Function.comp_apply, Function.comp_apply, List.map_append, hunit]
    rfl
  unfold withIdentityBlock?
  rw [allRows?_map]
  simp only [map, room?_eq_room?, Option.bind_eq_bind, Option.map_bind, Option.bind_map,
    Function.comp_def, hrows, ← map_ofRowList, Option.map_some]

theorem gram?_map_number (M : Matrix K) :
    (M.map number).gram? = M.gram?.map (map number) := by
  have hrows : ∀ rs : List (List K),
      ((rs.map (List.map number)).zipIdx.map fun r => (rs.map (List.map number)).zipIdx.map fun s =>
        if r.2 ≤ s.2 then Vec.dot r.1 s.1 else Vec.dot s.1 r.1) =
      (rs.zipIdx.map fun r => rs.zipIdx.map fun s =>
        if r.2 ≤ s.2 then Vec.dot r.1 s.1 else Vec.dot s.1 r.1).map (List.map number) := by
    intro rs
    simp only [List.zipIdx_map, List.map_map, Function.comp_def, Prod.map, id_eq,
      Vec.dot_map_number, apply_ite number]
  unfold gram?
  rw [allRows?_map]
  simp only [map, room?_eq_room?, Option.bind_eq_bind, Option.map_bind, Option.bind_map,
    Function.comp_def, hrows, ← map_ofRowList, Option.map_some]

end LinProg.Matrix
