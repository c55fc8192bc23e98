import LinProg.Proofs.Affine.Projection
import LinProg.Proofs.Ldl.History

/-!
# The projected cost is the orthogonal projection

Scaling the columns, forming the normal matrix, factoring it and solving with the factors are exact,
so the projected cost at a point is the one vector that `IsProjection` describes, whatever the
solver has been given before. The second pass is for what rounding leaves and changes nothing here
(`Workspace.projectedCost?_orthogonal`).
-/

open scoped Matrix

namespace LinProg

namespace Workspace

variable {K : Type} [Field K] [LinearOrder K] [Exact K]

/-- The projected cost `q` at the point `xs`, for a solver `u` that factors the normal matrix and is
`u'` then. `B` is `[A | I] D` as it is stored. -/
structure ProjectsCost (p : Problem K) (w : Workspace K) (xs : List K) (B : Matrix K)
    (u u' : LdlSolver K) (effort : Effort) (q : Fin (p.nvars + p.ncons) → K) : Prop where
  value : w.projectedCost? xs u effort =
    some (.ok (List.ofFn q), ⟨effort.factorizations + 1, effort.linearSolves + 2⟩)
  projection : IsProjection (p.scaled (Vec.coords _ xs)) (p.scaledCosts (Vec.coords _ xs)) q
  dotProduct_eq : p.scaledCosts (Vec.coords _ xs) ⬝ᵥ q = q ⬝ᵥ q
  /-- No other vector is the projection. -/
  unique : ∀ q', IsProjection (p.scaled (Vec.coords _ xs)) (p.scaledCosts (Vec.coords _ xs)) q' →
    q' = q
  /-- One pass leads to it. -/
  first : projectOnce? B u' xs.length (w.scaledCost xs) = some (.ok (List.ofFn q))
  /-- One more pass changes nothing. -/
  second : projectOnce? B u' xs.length (List.ofFn q) = some (.ok (List.ofFn q))

variable [IsStrictOrderedRing K] {p : Problem K}

/-- **The projected cost** at any point at which the normal matrix is factored. -/
theorem projectedCost?_orthogonal (hv : p.validate = .ok ()) {w : Workspace K}
    (hw : Workspace.of? p = some w) {xs : List K} (hx : xs.length = p.nvars + p.ncons)
    {u : LdlSolver K} (htol : 0 ≤ u.tolerance) (effort : Effort) :
    ∃ B G, w.augmented.scaleColumns? xs = some B ∧ B.gram? = some G ∧
      B.entries p.ncons (p.nvars + p.ncons) = p.scaled (Vec.coords _ xs) ∧
      G.entries p.ncons p.ncons =
        p.scaled (Vec.coords _ xs) * (p.scaled (Vec.coords _ xs))ᵀ ∧
      (∀ u', u.factor? G = some (.ok (), u') → ∃ q, ProjectsCost p w xs B u u' effort q) ∧
      ∀ e u', u.factor? G = some (.error e, u') →
        w.projectedCost? xs u effort = some (.error e, effort) := by
  obtain ⟨hfit, rfl⟩ := form_of_of?_eq_some hv hw
  obtain ⟨x, rfl⟩ : ∃ x : Fin (p.nvars + p.ncons) → K, List.ofFn x = xs :=
    ⟨_, Vec.ofFn_coords hx⟩
  have hN : 0 < p.nvars + p.ncons := Nat.add_pos_left (Problem.nvars_pos hv) _
  have hsquare : p.ncons * p.ncons < 2 ^ 64 :=
    lt_of_le_of_lt (Nat.mul_le_mul_left _ (Nat.le_add_left _ _)) hfit.2
  obtain ⟨hscale, hgram⟩ := form_normalMatrix (x := x) hfit
  refine ⟨_, _, hscale, hgram, ?_, ?_, fun u' hu => ?_, fun e u' hu =>
    projectedCost?_error hfit hu effort⟩
  · rw [Matrix.ofMat_entries, Vec.coords_ofFn]
  · rw [Matrix.ofMat_entries, Vec.coords_ofFn]
  · have hsolves := LdlSolver.solves_of_factor? (p.isSymm_normalMatrix x) hsquare htol hu
    obtain ⟨q, hfirst, hproj⟩ := projectOnce?_eq hN hsolves (p.scaledCosts x)
    have hsecond := projectOnce?_of_projection hN hsolves (.of_kernel hproj.kernel)
    refine ⟨q, projectedCost?_eq hv hfit hu hsolves hproj effort, ?_, ?_, ?_, ?_, ?_⟩
    · rwa [Vec.coords_ofFn]
    · rw [Vec.coords_ofFn]
      exact hproj.dotProduct_eq
    · rw [Vec.coords_ofFn]
      exact fun q' h' => h'.unique hproj
    · rwa [form_scaledCost, List.length_ofFn]
    · rwa [List.length_ofFn]

/-- At an interior point, with a new solver. -/
theorem twoByTwo_orthogonal : ∃ q : Fin 4 → ℚ,
    (form Problem.twoByTwo).projectedCost? [1, 1, 1, 2] { tolerance := 1 / 1000 } {} =
      some (.ok (List.ofFn q), ⟨1, 2⟩) ∧
    IsProjection (Problem.twoByTwo.scaled (Vec.coords 4 [1, 1, 1, 2]))
      (Problem.twoByTwo.scaledCosts (Vec.coords 4 [1, 1, 1, 2])) q := by
  have hlen : ([1, 1, 1, 2] : List ℚ).length =
    Problem.twoByTwo.nvars + Problem.twoByTwo.ncons := rfl
  have hnormal : ((form Problem.twoByTwo).augmented.scaleColumns? [1, 1, 1, 2]).bind
      Matrix.gram? = some ⟨2, 2, [6, 5, 5, 14]⟩ := by decide +kernel
  have hfactor : (({ tolerance := 1 / 1000 } : LdlSolver ℚ).factor? ⟨2, 2, [6, 5, 5, 14]⟩).map
      Prod.fst = some (.ok ()) := by decide +kernel
  obtain ⟨B, G, hB, hG, -, -, hok, -⟩ := projectedCost?_orthogonal (p := Problem.twoByTwo)
    (w := form Problem.twoByTwo) rfl rfl hlen (u := { tolerance := 1 / 1000 }) (by norm_num) {}
  rw [hB, Option.bind_some, hG, Option.some.injEq] at hnormal
  rw [hnormal] at hok
  obtain ⟨⟨r, u'⟩, hu, hr⟩ := Option.map_eq_some_iff.mp hfactor
  obtain rfl : r = .ok () := hr
  obtain ⟨q, hq⟩ := hok u' hu
  exact ⟨q, hq.value, hq.projection⟩

end Workspace

end LinProg
