import LinProg.Proofs.Exact.Arithmetic
import LinProg.Proofs.Scans
import LinProg.Vec

/-!
# Vectors in exact arithmetic

`Vec.coords n x` reads a list as a vector with `n` coordinates, and the operations of `Vec` become
those of linear algebra on it.

* `Vec.dot_eq`: the accumulated product is `⬝ᵥ`.
* `Vec.normInf_le_iff`: a bound of the largest magnitude bounds every entry.
* `Vec.argmin_spec`: the place that `argmin` finds holds a smallest entry.
-/

namespace LinProg.Vec

/-- The first `n` entries of a list as a vector, zeros after its end. -/
def coords {α : Type} [Zero α] (n : ℕ) (x : List α) : Fin n → α := fun i => x.getD i 0

section Coords

variable {α : Type} [Zero α] {n m : ℕ}

theorem coords_eq_get {x : List α} (h : x.length = n) (i : Fin n) :
    coords n x i = x.get ⟨i, by omega⟩ :=
  List.getD_eq_getElem _ _ (by omega)

theorem coords_ofFn (f : Fin n → α) : coords n (List.ofFn f) = f := by
  funext i
  rw [coords_eq_get List.length_ofFn, List.get_ofFn]
  rfl

theorem coords_replicate_zero (k : ℕ) : coords n (List.replicate k (0 : α)) = 0 := by
  funext i
  simp only [coords, List.getD_eq_getElem?_getD, List.getElem?_replicate, Pi.zero_apply]
  split <;> rfl

theorem coords_zipWith {β γ : Type} [Zero β] [Zero γ] (f : α → β → γ) {x : List α} {y : List β}
    (hx : x.length = n) (hy : y.length = n) (i : Fin n) :
    coords n (List.zipWith f x y) i = f (coords n x i) (coords n y i) := by
  have hz : (List.zipWith f x y).length = n := by simp [hx, hy]
  rw [coords_eq_get hz, coords_eq_get hx, coords_eq_get hy]
  exact List.getElem_zipWith

end Coords

variable {K : Type} [Field K] [LinearOrder K] [Exact K]

@[simp] theorem allFinite_eq_true (x : List K) : allFinite x = true := by
  simp [allFinite]

theorem dot_eq_sum (x y : List K) : dot x y = ((x.zip y).map fun p => p.1 * p.2).sum := by
  rw [List.sum_eq_foldl, List.foldl_map]
  rfl

theorem dot_eq {n : ℕ} {x : List K} (hx : x.length ≤ n) (y : List K) :
    dot x y = coords n x ⬝ᵥ coords n y := by
  rw [dot_eq_sum]
  induction x generalizing n y with
  | nil =>
    have hzero : coords n ([] : List K) = 0 := coords_replicate_zero 0
    rw [hzero, zero_dotProduct]
    rfl
  | cons a x ih =>
    obtain ⟨n, rfl⟩ := Nat.exists_eq_add_one_of_ne_zero (Nat.ne_zero_of_lt hx)
    cases y with
    | nil =>
      have hzero : coords (n + 1) ([] : List K) = 0 := coords_replicate_zero 0
      rw [hzero, dotProduct_zero]
      rfl
    | cons b y =>
      rw [List.zip_cons_cons, List.map_cons, List.sum_cons, ih (Nat.le_of_succ_le_succ hx) y,
        dotProduct, dotProduct, Fin.sum_univ_succ]
      rfl

theorem dot?_eq {n : ℕ} {x y : List K} (hx : x.length = n) (hy : y.length = n) :
    dot? x y = some (coords n x ⬝ᵥ coords n y) := by
  rw [dot?, if_pos (hx.trans hy.symm), dot_eq hx.le]

omit [LinearOrder K] [Exact K] in
theorem foldl_sub_eq {β : Type} (f : β → K) (l : List β) (a : K) :
    l.foldl (fun s b => s - f b) a = a - (l.map f).sum := by
  induction l generalizing a with
  | nil => simp
  | cons b l ih =>
    rw [List.foldl_cons, ih, List.map_cons, List.sum_cons]
    ring

theorem dot_append {x y : List K} (h : x.length = y.length) (x' y' : List K) :
    dot (x ++ x') (y ++ y') = dot x y + dot x' y' := by
  rw [dot_eq_sum, dot_eq_sum, dot_eq_sum, List.zip_append h, List.map_append, List.sum_append]

theorem dot_append_right {x y : List K} (h : x.length ≤ y.length) (z : List K) :
    dot x (y ++ z) = dot x y := by
  rw [dot_eq le_rfl, dot_eq le_rfl]
  congr 1
  funext i
  rw [coords, coords, List.getD_append _ _ _ _ (by omega)]

omit [LinearOrder K] [Exact K] in
theorem coords_zipWith_mul (n : ℕ) (x y : List K) :
    coords n (x.zipWith (· * ·) y) = coords n x * coords n y := by
  funext i
  rw [Pi.mul_apply, coords, coords, coords]
  simp only [List.getD_eq_getElem?_getD, List.getElem?_zipWith]
  rcases x[i.val]? with _ | a
  · simp
  · rcases y[i.val]? with _ | b <;> simp

section Order

theorem foldl_max_le_iff (l : List K) (a c : K) :
    l.foldl Scalar.max a ≤ c ↔ a ≤ c ∧ ∀ v ∈ l, v ≤ c := by
  rw [LinProg.foldl_max_le_iff l (Exact.isNaN_eq_false a)]
  simp only [Exact.isNaN_eq_false, Bool.false_eq_true, false_or]

theorem normInf_le_iff {x : List K} {c : K} (hc : 0 ≤ c) :
    normInf x ≤ c ↔ ∀ v ∈ x, |v| ≤ c := by
  rw [normInf, foldl_max_le_iff, and_iff_right hc, List.forall_mem_map]
  rfl

theorem normInf_nonneg (x : List K) : 0 ≤ normInf x :=
  ((foldl_max_le_iff (x.map Scalar.abs) 0 (normInf x)).mp le_rfl).1

theorem argmin_spec {x : List K} {k : ℕ} {v : K} (h : argmin x = some (k, v)) :
    v ∈ x ∧ ∀ u ∈ x, v ≤ u := by
  obtain ⟨hget, hfirst⟩ := argmin_eq_some_iff.mp h
  refine ⟨List.mem_of_getElem? hget, fun u hu => ?_⟩
  obtain ⟨j, hj, rfl⟩ := List.getElem_of_mem hu
  have hle : x.getD k 0 ≤ x.getD j 0 := hfirst.le j ⟨hj, Exact.isNaN_eq_false _⟩
  rwa [List.getD_eq_getElem?_getD, hget, Option.getD_some, List.getD_eq_getElem _ _ hj] at hle

theorem exists_argmin_eq_some {x : List K} (h : x ≠ []) : ∃ k v, argmin x = some (k, v) := by
  obtain ⟨u, hu⟩ := List.exists_mem_of_ne_nil x h
  have hsome : argmin x ≠ none := by
    rw [Ne, argmin_eq_none_iff]
    intro hall
    have hnumber := hall u hu
    rw [Exact.isNaN_eq_false] at hnumber
    cases hnumber
  obtain ⟨⟨k, v⟩, hkv⟩ := Option.ne_none_iff_exists'.mp hsome
  exact ⟨k, v, hkv⟩

end Order

end LinProg.Vec
