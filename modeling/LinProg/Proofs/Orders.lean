import LinProg.Proofs.Exact.Matrices
import LinProg.Solution

/-!
# Other orders

Vectors, problems and solutions with their entries listed in another order.

* `Vec.reorder`, `Problem.reorder`: entry `e i` stands at the place `i`.
* `Problem.validate_reorder`, `Problem.validatePoint_reorder`: a valid problem stays valid, and so
  does a starting point.
* `SameSolution`: solutions that differ in the order of their entries, and in the time they took.
-/

namespace LinProg

variable {α : Type}

namespace Vec

variable {n n' : ℕ}

/-- The list with its entries in another order; a list of another length stays as it is. -/
def reorder [Zero α] (e : Fin n' ≃ Fin n) (x : List α) : List α :=
  if x.length = n then List.ofFn (coords n x ∘ e) else x

theorem reorder_ofFn [Zero α] (e : Fin n' ≃ Fin n) (u : Fin n → α) :
    reorder e (List.ofFn u) = List.ofFn (u ∘ e) := by
  rw [reorder, if_pos List.length_ofFn, coords_ofFn]

theorem reorder_eq_ofFn_get [Zero α] {x : List α} (e : Fin n' ≃ Fin x.length) :
    reorder e x = List.ofFn fun i => x.get (e i) := by
  rw [reorder, if_pos rfl]
  exact congrArg List.ofFn (funext fun i => coords_eq_get rfl (e i))

theorem coords_reorder [Zero α] (e : Fin n' ≃ Fin n) {x : List α} (hlen : x.length = n) :
    coords n' (reorder e x) = coords n x ∘ e := by
  rw [reorder, if_pos hlen, coords_ofFn]

theorem reorder_replicate_zero [Zero α] (e : Fin n' ≃ Fin n) :
    reorder e (List.replicate n (0 : α)) = List.replicate n' 0 := by
  rw [replicate_zero_eq_ofFn, reorder_ofFn, replicate_zero_eq_ofFn]
  rfl

theorem length_reorder [Zero α] (e : Equiv.Perm (Fin n)) (x : List α) :
    (reorder e x).length = x.length := by
  unfold reorder
  split
  · rename_i hlen
    rw [List.length_ofFn, hlen]
  · rfl

theorem allFinite_reorder [Scalar α] (e : Equiv.Perm (Fin n)) (x : List α) :
    allFinite (reorder e x) = allFinite x := by
  unfold reorder
  split
  · rename_i hlen
    nth_rewrite 2 [← ofFn_coords hlen]
    rw [Bool.eq_iff_iff, allFinite, allFinite, List.all_eq_true, List.all_eq_true,
      List.forall_mem_ofFn_iff, List.forall_mem_ofFn_iff]
    exact e.forall_congr fun i => Iff.rfl
  · rfl

theorem reorder_finCongr [Zero α] {a b : ℕ} (e : Equiv.Perm (Fin n)) (ha : a = n) (hb : n = b)
    (x : List α) : reorder ((finCongr ha).trans (e.trans (finCongr hb))) x = reorder e x := by
  subst ha hb
  rfl

end Vec

/-- A record without the time. -/
def Record.untimed (r : Record α) : Record α := { r with elapsed := .zero }

section Solution

variable {n n' m m' : ℕ} (τ : Fin n' ≃ Fin n) (σ : Fin m' ≃ Fin m)

/-- The same solution, up to the order of its entries and to the time. -/
structure SameSolution [Zero α] (sol sol' : Solution α) : Prop where
  status : sol'.status = sol.status
  iterations : sol'.iterations = sol.iterations
  objectiveValue : sol'.objectiveValue = sol.objectiveValue
  history : sol'.stats.history.map Record.untimed = sol.stats.history.map Record.untimed
  primal : sol'.primal = Vec.reorder τ sol.primal
  slack : sol'.slack = Vec.reorder σ sol.slack

theorem SameSolution.terminated [Scalar α] (status : Status) :
    SameSolution τ σ (Solution.terminated (α := α) status n m)
      (Solution.terminated status n' m') where
  status := rfl
  iterations := rfl
  objectiveValue := rfl
  history := rfl
  primal := (Vec.reorder_replicate_zero τ).symm
  slack := (Vec.reorder_replicate_zero σ).symm

end Solution

namespace Problem

/-- The problem with variable `τ j` at the place `j` and constraint `σ i` at the place `i`. -/
def reorder [Zero α] (p : Problem α) (τ : Equiv.Perm (Fin p.nvars))
    (σ : Equiv.Perm (Fin p.ncons)) : Problem α where
  cost := List.ofFn fun j => p.cost.get (τ j)
  constraints := Matrix.ofMat ((p.constraints.entries p.ncons p.nvars).submatrix σ τ)
  rhs := List.ofFn fun i => p.rhs.get (σ i)

variable [Scalar α] {p : Problem α} (τ : Equiv.Perm (Fin p.nvars)) (σ : Equiv.Perm (Fin p.ncons))

theorem cost_reorder : (p.reorder τ σ).cost = Vec.reorder τ p.cost :=
  (Vec.reorder_eq_ofFn_get τ).symm

theorem rhs_reorder : (p.reorder τ σ).rhs = Vec.reorder σ p.rhs :=
  (Vec.reorder_eq_ofFn_get σ).symm

theorem nvars_reorder : (p.reorder τ σ).nvars = p.nvars := List.length_ofFn

theorem ncons_reorder : (p.reorder τ σ).ncons = p.ncons := List.length_ofFn

theorem validate_reorder (hv : p.validate = .ok ()) : (p.reorder τ σ).validate = .ok () := by
  obtain ⟨hpos, ⟨hfit, hdata⟩, hcols, hrows, hcost, hentries, hrhs⟩ := validate_eq_ok_iff.mp hv
  rw [hrows, hcols] at hfit
  refine validate_eq_ok_iff.mpr ⟨?_, ⟨?_, ?_⟩, ?_, ?_, ?_, ?_, ?_⟩
  · rw [nvars_reorder]
    exact hpos
  · rw [reorder, Matrix.ofMat_nrows, Matrix.ofMat_ncols]
    exact hfit
  · exact Matrix.hasRows_ofMat.length_data
  · exact (nvars_reorder τ σ).symm
  · rw [ncons_reorder]
    exact Matrix.ofMat_nrows
  · refine List.all_eq_true.mpr (List.forall_mem_ofFn_iff.mpr fun j => ?_)
    exact List.all_eq_true.mp hcost _ (List.get_mem _ _)
  · refine List.all_eq_true.mpr fun v hv => ?_
    obtain ⟨r, hr, hv⟩ := List.mem_flatten.mp hv
    obtain ⟨i, rfl⟩ := List.mem_ofFn.mp hr
    obtain ⟨j, rfl⟩ := List.mem_ofFn.mp hv
    have hplace : σ i * p.constraints.ncols + τ j < p.constraints.data.length := by
      rw [hdata, hrows, hcols]
      exact Matrix.place_lt (σ i).isLt (τ j).isLt
    rw [Matrix.submatrix_apply, Matrix.entries, Matrix.of_apply, List.getD_eq_getElem _ _ hplace]
    exact List.all_eq_true.mp hentries _ (List.getElem_mem hplace)
  · refine List.all_eq_true.mpr (List.forall_mem_ofFn_iff.mpr fun i => ?_)
    exact List.all_eq_true.mp hrhs _ (List.get_mem _ _)

theorem validatePoint_reorder (start : List α) :
    (p.reorder τ σ).validatePoint (Vec.reorder τ start) = p.validatePoint start := by
  unfold validatePoint
  rw [Vec.length_reorder, Vec.allFinite_reorder, nvars_reorder]

end Problem

end LinProg
