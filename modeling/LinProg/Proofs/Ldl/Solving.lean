import LinProg.Proofs.Ldl.Factors

/-!
# Solving with factors in exact arithmetic

Forward substitution solves `L y = b`, from the first row on; backward substitution solves
`Lᵀ x = z`, from the last row on. Between them stands the division by the pivots, so together they
solve `L D Lᵀ x = b` (`Stage.solve_spec`).
-/

open scoped Matrix

namespace LinProg.Ldl

variable {K : Type} [Field K] [LinearOrder K] [Exact K] {n : ℕ} {R : ℕ → List K}

theorem subtract_eq (b : K) (r x : List K) :
    (r.zip x).foldl (fun s p => s - p.1 * p.2) b = b - Vec.dot r x := by
  rw [Vec.foldl_sub_eq, Vec.dot_eq_sum]

section Forward

theorem forward_spec {i : ℕ} {solved bs : List K} (hs : solved.length = i)
    (hR : ∀ t < bs.length, (R (i + t)).length = i + t) :
    ∃ ys, Factors.forward solved ((List.range' i bs.length).map R) bs = solved ++ ys ∧
      ys.length = bs.length ∧
      ∀ t < bs.length, ys.getD t 0 = bs.getD t 0 - Vec.dot (R (i + t)) (solved ++ ys) := by
  -- every row takes one more entry into account, so the solved part and the index grow together
  induction bs generalizing i solved with
  | nil => exact ⟨[], (List.append_nil _).symm, rfl, fun t ht => absurd ht (Nat.not_lt_zero t)⟩
  | cons b bs ih =>
    have hi : (R i).length = i := hR 0 (Nat.succ_pos _)
    let v := b - Vec.dot (R i) solved
    have hlen' : (solved ++ [v]).length = i + 1 := by
      rw [List.length_append, hs, List.length_singleton]
    have hrest : ∀ t < bs.length, (R (i + 1 + t)).length = i + 1 + t := by
      intro t ht
      have hit := hR (t + 1) (Nat.succ_lt_succ ht)
      rwa [show i + (t + 1) = i + 1 + t by omega] at hit
    obtain ⟨ys, hys, hlen, hentry⟩ := ih hlen' hrest
    rw [List.append_assoc, List.singleton_append] at hys hentry
    refine ⟨v :: ys, ?_, by rw [List.length_cons, hlen, List.length_cons], fun t ht => ?_⟩
    · rw [List.length_cons, List.range'_succ, List.map_cons, Factors.forward, subtract_eq]
      exact hys
    · cases t with
      | zero =>
        have hdot := Vec.dot_append_right (hi.trans hs.symm).le (v :: ys)
        rw [Nat.add_zero, hdot]
        rfl
      | succ t =>
        rw [show i + (t + 1) = i + 1 + t by omega]
        exact hentry t (Nat.lt_of_succ_lt_succ ht)

theorem unitLower_mulVec_forward (hR : ∀ i < n, (R i).length = i) {b : List K}
    (hb : b.length = n) :
    ∃ y, Factors.forward [] ((List.range n).map R) b = y ∧ y.length = n ∧
      unitLower n R *ᵥ Vec.coords n y = Vec.coords n b := by
  have hrows : ∀ t < b.length, (R (0 + t)).length = 0 + t := by
    intro t ht
    rw [Nat.zero_add]
    exact hR t (hb ▸ ht)
  obtain ⟨y, hy, hlen, hentry⟩ := forward_spec List.length_nil hrows
  rw [hb, ← List.range_eq_range', List.nil_append] at hy
  refine ⟨y, hy, hlen.trans hb, ?_⟩
  funext i
  have hi := hentry i (hb ▸ i.isLt)
  rw [Nat.zero_add, List.nil_append, Vec.dot_eq (hR i i.isLt ▸ i.isLt.le)] at hi
  rw [unitLower, Matrix.add_mulVec, Matrix.one_mulVec, Pi.add_apply]
  exact eq_sub_iff_add_eq.mp hi

end Forward

section Backward

variable {d : List K}

theorem dot_below (hR : ∀ i < n, (R i).length = i) {x : List K} (hx : x.length = n) (t : Fin n) :
    Vec.dot (Factors.below ⟨(List.range n).map R, d⟩ t) (x.drop (t + 1)) =
      ((strictLower n R)ᵀ *ᵥ Vec.coords n x) t := by
  let column := (List.range n).map fun k => (R k).getD t 0
  have hcolumn : column = List.replicate (t + 1) 0 ++
      Factors.below ⟨(List.range n).map R, d⟩ t := by
    rw [below_eq hR]
    refine List.ext_getElem (by simp [column]) fun k hk hk' => ?_
    rw [List.getElem_append]
    have hkn : k < n := by simpa [column] using hk
    split
    · rename_i hlt
      rw [List.length_replicate] at hlt
      have hzero : (R k).getD t 0 = 0 :=
        List.getD_eq_default _ _ (by rw [hR k hkn]; omega)
      simpa [column] using hzero
    · rename_i hge
      rw [List.length_replicate] at hge
      simp only [column, List.getElem_map, List.getElem_range, List.getElem_range',
        List.length_replicate]
      rw [show t.val + 1 + 1 * (k - (t.val + 1)) = k by omega]
  have htake : (List.replicate (t + 1) (0 : K)).length = (x.take (t + 1)).length := by
    rw [List.length_replicate, List.length_take, hx]
    omega
  have hsplit := Vec.dot_append htake (Factors.below ⟨(List.range n).map R, d⟩ t)
    (x.drop (t + 1))
  have hzero : Vec.dot (List.replicate (t + 1) (0 : K)) (x.take (t + 1)) = 0 := by
    rw [Vec.dot_eq le_rfl, Vec.coords_replicate_zero, zero_dotProduct]
  rw [← hcolumn, List.take_append_drop, hzero, zero_add] at hsplit
  rw [← hsplit, Vec.dot_eq (by simp [column] : column.length ≤ n)]
  refine congrArg (· ⬝ᵥ Vec.coords n x) ?_
  funext k
  simp [column, Vec.coords, strictLower, List.getD_eq_getElem?_getD]

theorem backward_spec (F : Factors K) {z : List K} {i : ℕ} (hi : i ≤ z.length)
    (solved : List K) :
    ∃ xs, F.backward z i solved = xs ++ solved ∧ xs.length = i ∧
      ∀ t < i, xs.getD t 0 =
        z.getD t 0 - Vec.dot (F.below t) ((xs ++ solved).drop (t + 1)) := by
  -- from the last entry down; what is solved stands behind what is not
  induction i generalizing solved with
  | zero => exact ⟨[], rfl, rfl, fun t ht => absurd ht (Nat.not_lt_zero t)⟩
  | succ i ih =>
    let v := z.getD i 0 - Vec.dot (F.below i) solved
    obtain ⟨xs, hxs, hlen, hentry⟩ := ih (Nat.le_of_succ_le hi) (v :: solved)
    have happend : xs ++ v :: solved = (xs ++ [v]) ++ solved := by simp
    rw [happend] at hxs hentry
    refine ⟨xs ++ [v], ?_, by rw [List.length_append, hlen, List.length_singleton], fun t ht => ?_⟩
    · rw [Factors.backward, List.getElem?_eq_getElem hi]
      dsimp only
      rw [subtract_eq, ← List.getD_eq_getElem z 0 hi]
      exact hxs
    · rcases Nat.lt_or_eq_of_le (Nat.le_of_lt_succ ht) with hti | rfl
      · rw [List.getD_append _ _ _ _ (by rw [hlen]; exact hti)]
        exact hentry t hti
      · have hself := getD_append_singleton_self xs v
        rw [hlen] at hself
        have hdrop : ((xs ++ [v]) ++ solved).drop (t + 1) = solved := by
          rw [List.drop_left' (by rw [List.length_append, hlen, List.length_singleton])]
        rw [hself, hdrop]

theorem unitLower_transpose_mulVec_backward (hR : ∀ i < n, (R i).length = i) {z : List K}
    (hz : z.length = n) :
    ∃ x, Factors.backward ⟨(List.range n).map R, d⟩ z n [] = x ∧ x.length = n ∧
      (unitLower n R)ᵀ *ᵥ Vec.coords n x = Vec.coords n z := by
  obtain ⟨x, hx, hlen, hentry⟩ :=
    backward_spec ⟨(List.range n).map R, d⟩ hz.ge []
  rw [List.append_nil] at hx hentry
  refine ⟨x, hx, hlen, ?_⟩
  funext t
  have ht := hentry t t.isLt
  rw [dot_below hR hlen] at ht
  rw [unitLower, Matrix.transpose_add, Matrix.transpose_one, Matrix.add_mulVec, Matrix.one_mulVec,
    Pi.add_apply]
  exact eq_sub_iff_add_eq.mp ht

end Backward

/-- **Solving with the factors** solves the system of the lower triangle. -/
theorem Stage.solve_spec {S : ℕ → ℕ → K} {d : List K} (h : Stage S n n R d)
    (hd : ∀ k < n, d.getD k 0 ≠ 0) {b : List K} (hb : b.length = n) :
    ∃ x, Factors.solve ⟨(List.range n).map R, d⟩ b = x ∧ x.length = n ∧
      symmetric n S *ᵥ Vec.coords n x = Vec.coords n b := by
  have hR : ∀ i < n, (R i).length = i := fun i hi => h.length_row_of_lt hi
  obtain ⟨y, hy, hylen, hforward⟩ := unitLower_mulVec_forward hR hb
  have hzlen : (y.zipWith (· / ·) d).length = n := by
    rw [List.length_zipWith, hylen, h.length_diagonal, Nat.min_self]
  obtain ⟨x, hx, hxlen, hbackward⟩ := unitLower_transpose_mulVec_backward (d := d) hR hzlen
  refine ⟨x, ?_, hxlen, ?_⟩
  · rw [Factors.solve, hy]
    dsimp only
    rw [hzlen, hx]
  · have hdivide : pivots n d *ᵥ Vec.coords n (y.zipWith (· / ·) d) = Vec.coords n y := by
      funext i
      rw [pivots, Matrix.mulVec_diagonal, Vec.coords_zipWith _ hylen h.length_diagonal]
      exact mul_div_cancel₀ _ (hd i i.isLt)
    rw [← h.product_eq fun k hk => hd k (Nat.lt_of_succ_lt hk), ← Matrix.mulVec_mulVec, hbackward,
      ← Matrix.mulVec_mulVec, hdivide, hforward]

end LinProg.Ldl
