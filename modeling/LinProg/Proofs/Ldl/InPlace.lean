import LinProg.Ldl.Storage
import LinProg.Proofs.Ldl.Columns
import LinProg.Proofs.Rows

/-!
# The factors in place

The loops that write the factors over those of an earlier matrix, and the loops that solve with
them, do what `Ldl.factor` and `Factors.solve` do with new lists, in any arithmetic.

* `Room n L d`: the storage has the shape for size `n`. What it holds does not matter.
* `Holds n L d R e`: it holds the rows `R` and the pivots `e`, as far as these go. All that a later
  column reads has been written by an earlier one (`Holds.reduceAt?_eq`), so entries of a matrix
  before do not show.
* `sweep?_cases`: the columns, as in `Stage.columns_cases`.
* `solve_inPlace`: the solution.
-/

namespace LinProg

section Loops

variable {σ : Type}

theorem exists_foldlM_range' {f : σ → ℕ → Option σ} {I : ℕ → σ → Prop} {a k : ℕ}
    (hstep : ∀ i s, a ≤ i → i < a + k → I i s → ∃ s', f s i = some s' ∧ I (i + 1) s') {s : σ}
    (hs : I a s) : ∃ s', (List.range' a k).foldlM f s = some s' ∧ I (a + k) s' := by
  induction k generalizing a s with
  | zero => exact ⟨s, rfl, hs⟩
  | succ k ih =>
    obtain ⟨s₁, hs₁, hI⟩ := hstep a s le_rfl (by omega) hs
    obtain ⟨s', hs', hI'⟩ := ih (fun i t hi hlt => hstep i t (by omega) (by omega)) hI
    refine ⟨s', ?_, ?_⟩
    · rw [List.range'_succ, List.foldlM_cons, hs₁]
      exact hs'
    · rwa [show a + (k + 1) = a + 1 + k by omega]

theorem exists_foldlM_range {f : σ → ℕ → Option σ} {I : ℕ → σ → Prop} {n : ℕ}
    (hstep : ∀ i s, i < n → I i s → ∃ s', f s i = some s' ∧ I (i + 1) s') {s : σ} (hs : I 0 s) :
    ∃ s', (List.range n).foldlM f s = some s' ∧ I n s' := by
  obtain ⟨s', hs', hI⟩ := exists_foldlM_range' (a := 0) (k := n)
    (fun i t _ hlt => hstep i t (by omega)) hs
  rw [Nat.zero_add] at hI
  rw [List.range_eq_range']
  exact ⟨s', hs', hI⟩

theorem exists_foldlM_reverse_range {f : σ → ℕ → Option σ} {I : ℕ → σ → Prop} {n : ℕ}
    (hstep : ∀ i s, i < n → I (i + 1) s → ∃ s', f s i = some s' ∧ I i s') {s : σ} (hs : I n s) :
    ∃ s', (List.range n).reverse.foldlM f s = some s' ∧ I 0 s' := by
  induction n generalizing s with
  | zero => exact ⟨s, rfl, hs⟩
  | succ n ih =>
    obtain ⟨s₁, hs₁, hI⟩ := hstep n s (Nat.lt_succ_self n) hs
    obtain ⟨s', hs', hI'⟩ := ih (fun i t hi => hstep i t (by omega)) hI
    refine ⟨s', ?_, hI'⟩
    rw [List.range_succ, List.reverse_append, List.reverse_singleton, List.singleton_append,
      List.foldlM_cons, hs₁]
    exact hs'

end Loops

namespace Ldl

theorem foldl_take_succ {β γ : Type} (f : γ → β → γ) (c : γ) {l : List β} {k : ℕ}
    (hk : k < l.length) : (l.take (k + 1)).foldl f c = f ((l.take k).foldl f c) l[k] := by
  rw [List.take_succ_eq_append_getElem hk, List.foldl_append]
  rfl

variable {α : Type} [Scalar α]

/-- The storage has the shape for size `n`. -/
structure Room (n : ℕ) (L : Matrix α) (d : List α) : Prop where
  nrows : L.nrows = n
  ncols : L.ncols = n
  consistent : L.Consistent
  length_diagonal : d.length = n
  /-- All entries are in storage. -/
  stored : Matrix.Room α n n

/-- The storage holds rows of `L` and pivots, as far as they go. -/
structure Holds (n : ℕ) (L : Matrix α) (d : List α) (R : ℕ → List α) (e : List α) : Prop where
  room : Room n L d
  rows : ∀ i < n, ∀ k < (R i).length, L.get? i k = (R i)[k]?
  pivots : ∀ k < e.length, d[k]? = e[k]?

variable {n i j : ℕ} {L M : Matrix α} {d e : List α} {R R' : ℕ → List α}

namespace Room

theorem exists_set? (h : Room n L d) (hi : i < n) (hj : j < n) (v : α) :
    ∃ L', L.set? i j v = some L' ∧ Room n L' d ∧
      ∀ i' < n, ∀ j' < n, L'.get? i' j' = if i' = i ∧ j' = j then some v else L.get? i' j' := by
  obtain ⟨hrows, hcols, hcons, hlen, hstored⟩ := h
  have hfit : L.nrows * L.ncols < 2 ^ 64 := by
    rw [hrows, hcols]
    exact hstored.1
  obtain ⟨L', hset, hrows', hcols', hcons', hget⟩ :=
    Matrix.exists_set? hcons hfit (by omega : i < L.nrows) (by omega : j < L.ncols) v
  rw [hrows, hcols] at hget
  exact ⟨L', hset, ⟨hrows'.trans hrows, hcols'.trans hcols, hcons', hlen, hstored⟩, hget⟩

theorem holds_nothing (h : Room n L d) : Holds n L d (fun _ => []) [] :=
  ⟨h, fun _ _ _ hk => absurd hk (Nat.not_lt_zero _), fun _ hk => absurd hk (Nat.not_lt_zero _)⟩

theorem exists_reset? (h : Room n L d) :
    ∃ L', reset? n L = some L' ∧ Room n L' d := by
  refine exists_foldlM_range (I := fun _ L' => Room n L' d) (fun i L' hi h' => ?_) h
  refine exists_foldlM_range (I := fun _ L' => Room n L' d) (fun j L' hj h' => ?_) h'
  obtain ⟨L'', hset, hroom, -⟩ := h'.exists_set? hi hj (if i = j then 1 else 0)
  exact ⟨L'', hset, hroom⟩

end Room

namespace Holds

theorem congr (h : Holds n L d R e) (heq : ∀ i < n, R' i = R i) : Holds n L d R' e := by
  refine ⟨h.room, fun i hi k hk => ?_, h.pivots⟩
  rw [heq i hi] at hk ⊢
  exact h.rows i hi k hk

theorem put?_eq (h : Holds n L d R e) (hj : e.length < n) (v : α) :
    put? d e.length v = some (d.set e.length v) ∧ Holds n L (d.set e.length v) R e ∧
      Holds n L (d.set e.length v) R (e ++ [v]) := by
  have hlen : e.length < d.length := by rwa [h.room.length_diagonal]
  have hroom : Room n L (d.set e.length v) :=
    { h.room with length_diagonal := by rw [List.length_set, h.room.length_diagonal] }
  have hkeep : ∀ k < e.length, (d.set e.length v)[k]? = e[k]? := by
    intro k hk
    rw [List.getElem?_set_ne (by omega), h.pivots k hk]
  refine ⟨if_pos hlen, ⟨hroom, h.rows, hkeep⟩, hroom, h.rows, fun k hk => ?_⟩
  rw [List.length_append, List.length_singleton] at hk
  by_cases hke : k = e.length
  · rw [hke, List.getElem?_set_self hlen, List.getElem?_concat_length]
  · rw [hkeep k (by omega), List.getElem?_append_left (by omega)]

theorem append_row (h : Holds n L d R e) (hi : i < n) (v : α) (hRi : (R i).length = j) (hj : j < n)
    (hlen : ∀ i' < n, (R i').length ≤ n) :
    ∃ L', L.set? i j v = some L' ∧
      Holds n L' d (fun i' => if i' = i then R i ++ [v] else R i') e := by
  obtain ⟨L', hset, hroom, hget⟩ := h.room.exists_set? hi hj v
  refine ⟨L', hset, hroom, fun i' hi' k hk => ?_, h.pivots⟩
  by_cases hii : i' = i
  · subst hii
    rw [if_pos rfl, List.length_append, List.length_singleton] at hk
    rw [if_pos rfl, hget i' hi' k (by omega)]
    by_cases hkj : k = j
    · rw [if_pos ⟨rfl, hkj⟩, hkj, ← hRi, List.getElem?_concat_length]
    · rw [if_neg (fun heq => hkj heq.2), List.getElem?_append_left (by omega),
        h.rows i' hi' k (by omega)]
  · rw [if_neg hii] at hk ⊢
    have hkn := hlen i' hi'
    rw [hget i' hi' k (by omega), if_neg (fun heq => hii heq.1), h.rows i' hi' k hk]

variable {S : ℕ → ℕ → α} {tolerance : α}

theorem reduceAt?_eq (h : Holds n L d R e) (hi : i < n) (hj : j < n) (hRi : (R i).length = j)
    (hRj : (R j).length = j) (he : e.length = j) (m : α) :
    reduceAt? L d i j m = some (reduce m (R i) (R j) e) := by
  let l := (R i).zip ((R j).zip e)
  have hl : l.length = j := by simp [l, hRi, hRj, he]
  let f : α → α × α × α → α := fun s p => s - p.1 * p.2.1 * p.2.2
  have hloop : ∃ v, reduceAt? L d i j m = some v ∧ v = (l.take j).foldl f m := by
    refine exists_foldlM_range (I := fun k v => v = (l.take k).foldl f m)
      (fun k v hk hvalue => ?_) rfl
    have hkl : k < l.length := by omega
    refine ⟨f v l[k], ?_, ?_⟩
    · rw [h.rows i hi k (by omega), h.rows j hj k (by omega), h.pivots k (by omega),
        List.getElem?_eq_getElem (by omega), List.getElem?_eq_getElem (by omega),
        List.getElem?_eq_getElem (by omega)]
      simp [f, l]
    · rw [foldl_take_succ f m hkl, hvalue]
  obtain ⟨v, hv, hvalue⟩ := hloop
  rw [hv, hvalue, List.take_of_length_le hl.le]
  rfl

theorem fillColumn?_eq (h : Holds n L d R e) (hstage : Stage S n j R e) (hj : j < n)
    (hget : ∀ i < n, M.get? i j = some (S i j)) :
    ∃ L', fillColumn? M d n j (nextPivot S R e j) L = some L' ∧
      Holds n L' d (nextRows S R e j) e := by
  -- the rows above `i` have their new entries already
  let rows : ℕ → ℕ → List α := fun i i' => if i' < i then nextRows S R e j i' else R i'
  have hlen : ∀ i, ∀ i' < n, (rows i i').length ≤ n := by
    intro i i' hi'
    have hrow := hstage.length_row i' hi'
    have hrow' := (hstage.next hj).length_row i' hi'
    simp only [rows]
    split
    · omega
    · omega
  have hstart : Holds n L d (rows (j + 1)) e := by
    refine h.congr fun i _ => ?_
    simp only [rows]
    split
    · exact nextRows_of_le (by omega)
    · rfl
  obtain ⟨L', hL', hholds⟩ := exists_foldlM_range' (a := j + 1) (k := n - (j + 1))
    (f := fun L i => do
      L.set? i j ((← reduceAt? L d i j (← M.get? i j)) / nextPivot S R e j))
    (I := fun i L' => Holds n L' d (rows i) e)
    (fun i L' hji hin hL' => by
      have hi : i < n := by omega
      have hself : rows i i = R i := if_neg (lt_irrefl i)
      have hpivot : rows i j = R j := by
        rw [← nextRows_of_le (S := S) (R := R) (d := e) (le_refl j)]
        exact if_pos (by omega)
      have hRi : (rows i i).length = j := by rw [hself, hstage.length_row_eq (by omega) hi]
      have hRj : (rows i j).length = j := by rw [hpivot, hstage.length_row_eq le_rfl hj]
      have hreduce := hL'.reduceAt?_eq hi hj hRi hRj hstage.length_diagonal (S i j)
      obtain ⟨L'', hset, hnew⟩ := hL'.append_row hi
        (reduce (S i j) (rows i i) (rows i j) e / nextPivot S R e j) hRi hj (hlen i)
      refine ⟨L'', ?_, hnew.congr fun i' _ => ?_⟩
      · rw [hget i hi, Option.bind_eq_bind, Option.bind_some, hreduce]
        exact hset
      · by_cases hii : i' = i
        · rw [if_pos hii, hself, hpivot, hii, ← nextRows_of_lt (show j < i by omega)]
          exact if_pos (Nat.lt_succ_self i)
        · rw [if_neg hii]
          exact if_congr (by omega) rfl rfl)
    hstart
  refine ⟨L', hL', hholds.congr fun i hi => ?_⟩
  exact (if_pos (by omega)).symm

/-- **The columns in place.** They write the factors, or end at the same singular pivot. -/
theorem sweep?_cases (h : Holds n L d R e) (hstage : Stage S n j R e)
    (hget : ∀ i < n, ∀ k < n, M.get? i k = some (S i k)) {k : ℕ} (hjk : j + k = n) :
    (∃ R' e' L' d', Stage S n n R' e' ∧ Holds n L' d' R' e' ∧
      columns M tolerance k ⟨(List.range j).map R, e⟩
        ((List.range' j k).map fun i => (i, R i)) = .ok ⟨(List.range n).map R', e'⟩ ∧
      sweep? M tolerance n (List.range' j k) L d = some (.ok (), L', d')) ∨
    ∃ i v L' d', Room n L' d' ∧
      columns M tolerance k ⟨(List.range j).map R, e⟩
        ((List.range' j k).map fun i => (i, R i)) = .error (.singular i v) ∧
      sweep? M tolerance n (List.range' j k) L d = some (.error (.singular i v), L', d') := by
  -- `k` columns are left; both ways through them take one
  induction k generalizing j R e L d with
  | zero =>
    left
    obtain rfl : j = n := by omega
    exact ⟨R, e, L, d, hstage, h, rfl, rfl⟩
  | succ k ih =>
    have hj : j < n := by omega
    have hlen := hstage.length_row_eq le_rfl hj
    have hpivot : reduceAt? L d j j (S j j) = some (nextPivot S R e j) :=
      h.reduceAt?_eq hj hj hlen hlen hstage.length_diagonal (S j j)
    rw [Stage.columns_succ hget hjk, List.range'_succ, sweep?, hget j hj j hj,
      Option.bind_eq_bind, Option.bind_some, hpivot, Option.bind_eq_bind, Option.bind_some]
    by_cases hregular : Scalar.abs (nextPivot S R e j) > tolerance * Scalar.abs (S j j)
    · obtain ⟨hput, hbefore, hafter⟩ := h.put?_eq (by rw [hstage.length_diagonal]; exact hj)
        (nextPivot S R e j)
      rw [hstage.length_diagonal] at hput hbefore hafter
      obtain ⟨L', hfill, hrows⟩ := hbefore.fillColumn?_eq hstage hj fun i hi => hget i hi j hj
      have hnext : Holds n L' (d.set j (nextPivot S R e j)) (nextRows S R e j)
          (e ++ [nextPivot S R e j]) := ⟨hrows.room, hrows.rows, hafter.pivots⟩
      rw [if_pos hregular, if_pos hregular, hput, Option.bind_eq_bind, Option.bind_some, hfill,
        Option.bind_some]
      exact ih hnext (hstage.next hj) (by omega)
    · right
      rw [if_neg hregular, if_neg hregular]
      exact ⟨j, _, L, d, h.room, rfl, rfl⟩

end Holds

theorem Room.sweep?_cases {S : ℕ → ℕ → α} (h : Room n L d) (tolerance : α)
    (hn : M.nrows = n) (hget : ∀ i < n, ∀ k < n, M.get? i k = some (S i k)) :
    (∃ R e L' d', Stage S n n R e ∧ Holds n L' d' R e ∧
      factor M tolerance = .ok ⟨(List.range n).map R, e⟩ ∧
      sweep? M tolerance n (List.range n) L d = some (.ok (), L', d')) ∨
    ∃ i v L' d', Room n L' d' ∧ factor M tolerance = .error (.singular i v) ∧
      sweep? M tolerance n (List.range n) L d = some (.error (.singular i v), L', d') := by
  have hrange : sweep? M tolerance n (List.range n) L d =
      sweep? M tolerance n (List.range' 0 n) L d := by rw [List.range_eq_range']
  rw [Stage.factor_eq_columns tolerance hn, hrange]
  exact h.holds_nothing.sweep?_cases Stage.start hget (Nat.zero_add n)

section Substitution

variable {b : List α}

theorem subtractLoop_eq {c : ℕ → Option α} {l : List α} {a : ℕ}
    (hc : ∀ t < l.length, c (a + t) = l[t]?) (hb : a + l.length ≤ b.length) (hi : i < b.length)
    (hout : i < a ∨ a + l.length ≤ i) :
    (List.range' a l.length).foldlM (fun b j => do subtractAt? b i j (← c j)) b =
      some (b.set i ((l.zip (b.drop a)).foldl (fun s p => s - p.1 * p.2) b[i])) := by
  let q := l.zip (b.drop a)
  have hq : q.length = l.length := by
    simp [q]
    omega
  let f : α → α × α → α := fun s p => s - p.1 * p.2
  have hloop : ∃ b', (List.range' a l.length).foldlM (fun b j => do subtractAt? b i j (← c j)) b =
      some b' ∧ b' = b.set i ((q.take (a + l.length - a)).foldl f b[i]) := by
    refine exists_foldlM_range' (I := fun j b' => b' = b.set i ((q.take (j - a)).foldl f b[i]))
      (fun j b' haj hj hb' => ?_) ?_
    · obtain ⟨t, rfl⟩ : ∃ t, j = a + t := ⟨j - a, by omega⟩
      have htl : t < l.length := by omega
      have htq : t < q.length := by omega
      have hat : a + t < b.length := by omega
      rw [Nat.add_sub_cancel_left] at hb'
      subst hb'
      refine ⟨_, ?_, rfl⟩
      rw [hc t htl, List.getElem?_eq_getElem htl, Option.bind_eq_bind, Option.bind_some,
        subtractAt?, List.getElem?_set_self hi, List.getElem?_set_ne (by omega),
        List.getElem?_eq_getElem hat, show a + t + 1 - a = t + 1 by omega,
        foldl_take_succ f b[i] htq]
      simp [put?, f, q, hi]
    · rw [Nat.sub_self, List.take_zero, List.foldl_nil, List.set_getElem_self]
  obtain ⟨b', hb', hvalue⟩ := hloop
  rw [hb', hvalue, Nat.add_sub_cancel_left, List.take_of_length_le hq.le]

theorem Holds.forwardTurn?_eq (h : Holds n L d R e) {solved bs : List α} {v : α}
    (hi : solved.length < n) (hRi : (R solved.length).length = solved.length) :
    (List.range solved.length).foldlM
        (fun b j => do subtractAt? b solved.length j (← L.get? solved.length j))
        (solved ++ v :: bs) =
      some (solved ++ ((R solved.length).zip solved).foldl (fun s p => s - p.1 * p.2) v :: bs) := by
  have hzip : (R solved.length).zip ((solved ++ v :: bs).drop 0) =
      (R solved.length).zip solved := by
    have happend : (R solved.length ++ []).zip (solved ++ v :: bs) =
        (R solved.length).zip solved ++ [].zip (v :: bs) := List.zip_append hRi
    rwa [List.append_nil, List.zip_nil_left, List.append_nil] at happend
  have hloop := subtractLoop_eq (b := solved ++ v :: bs) (i := solved.length) (a := 0)
    (c := fun j => L.get? solved.length j) (l := R solved.length)
    (fun t ht => by rw [Nat.zero_add, h.rows _ hi t ht])
    (by rw [List.length_append, hRi]; omega) (by simp) (Or.inr (by omega))
  rw [hzip, hRi, ← List.range_eq_range'] at hloop
  rw [hloop]
  simp

theorem Holds.forwardInPlace?_eq (h : Holds n L d R e) (hR : ∀ i < n, (R i).length = i)
    (hb : b.length = n) :
    ∃ y, forwardInPlace? L n b = some y ∧ y = Factors.forward [] ((List.range n).map R) b ∧
      y.length = n := by
  let y := Factors.forward [] ((List.range n).map R) b
  -- in front of `i` stands what is solved, after it what is not
  have hloop : ∃ b', forwardInPlace? L n b = some b' ∧ ∃ solved bs, b' = solved ++ bs ∧
      solved.length = n ∧ solved.length + bs.length = n ∧
      Factors.forward solved ((List.range' n (n - n)).map R) bs = y := by
    refine exists_foldlM_range (I := fun i b' => ∃ solved bs, b' = solved ++ bs ∧
      solved.length = i ∧ solved.length + bs.length = n ∧
      Factors.forward solved ((List.range' i (n - i)).map R) bs = y) (fun i b' hi hb' => ?_)
      ⟨[], b, rfl, rfl, by simpa using hb, by rw [Nat.sub_zero, ← List.range_eq_range']⟩
    obtain ⟨solved, bs, rfl, rfl, hlen, hforward⟩ := hb'
    cases bs with
    | nil =>
      rw [List.length_nil] at hlen
      omega
    | cons v bs =>
      let w := ((R solved.length).zip solved).foldl (fun s p => s - p.1 * p.2) v
      refine ⟨_, h.forwardTurn?_eq hi (hR _ hi), solved ++ [w], bs, by simp [w], by simp, ?_, ?_⟩
      · rw [List.length_append, List.length_singleton]
        rw [List.length_cons] at hlen
        omega
      · rw [show n - solved.length = n - (solved.length + 1) + 1 by omega, List.range'_succ,
          List.map_cons, Factors.forward] at hforward
        exact hforward
  obtain ⟨b', hb', solved, bs, rfl, hsolved, hlen, hforward⟩ := hloop
  obtain rfl : bs = [] := List.eq_nil_of_length_eq_zero (by omega)
  rw [Nat.sub_self, List.range'_zero, List.map_nil, Factors.forward] at hforward
  · rw [List.append_nil] at hb'
    exact ⟨solved, hb', hforward, hsolved⟩
  · simp

theorem divideInPlace?_eq (hb : b.length = n) (hd : d.length = n) :
    divideInPlace? d n b = some (b.zipWith (· / ·) d) := by
  have hloop : ∃ b', divideInPlace? d n b = some b' ∧ b'.length = n ∧
      ∀ t < n, b'[t]? = if t < n then (b.zipWith (· / ·) d)[t]? else b[t]? := by
    refine exists_foldlM_range (I := fun i b' => b'.length = n ∧
      ∀ t < n, b'[t]? = if t < i then (b.zipWith (· / ·) d)[t]? else b[t]?) (fun i b' hi hb' => ?_)
      ⟨hb, fun t _ => (if_neg (Nat.not_lt_zero t)).symm⟩
    obtain ⟨hlen, hget⟩ := hb'
    have hib : i < b.length := by omega
    have hid : i < d.length := by omega
    have hput : put? b' i (b[i] / d[i]) = some (b'.set i (b[i] / d[i])) :=
      if_pos (by omega)
    refine ⟨b'.set i (b[i] / d[i]), ?_, by rw [List.length_set, hlen], fun t ht => ?_⟩
    · rw [hget i hi, if_neg (lt_irrefl i), List.getElem?_eq_getElem hib,
        List.getElem?_eq_getElem hid, Option.bind_eq_bind, Option.bind_some, Option.bind_some,
        hput]
    · by_cases hti : t = i
      · subst hti
        rw [List.getElem?_set_self (by omega), if_pos (Nat.lt_succ_self t), List.getElem?_zipWith,
          List.getElem?_eq_getElem hib, List.getElem?_eq_getElem hid]
      · rw [List.getElem?_set_ne (Ne.symm hti), hget t ht]
        exact if_congr (by omega) rfl rfl
  obtain ⟨b', hb', hlen, hget⟩ := hloop
  rw [hb', Option.some.injEq]
  apply List.ext_getElem?
  intro t
  rcases Nat.lt_or_ge t n with ht | ht
  · rw [hget t ht, if_pos ht]
  · rw [List.getElem?_eq_none (by omega), List.getElem?_eq_none (by simp; omega)]

theorem Holds.backwardTurn?_eq (h : Holds n L d R e) (hR : ∀ i < n, (R i).length = i)
    {solved : List α} (hi : i < b.length) (hb : b.length = n) (hlen : solved.length = n - (i + 1)) :
    (List.range' (i + 1) (n - (i + 1))).foldlM (fun b j => do subtractAt? b i j (← L.get? j i))
        (b.take (i + 1) ++ solved) =
      some (b.take i ++ ((Factors.below ⟨(List.range n).map R, e⟩ i).zip solved).foldl
        (fun s p => s - p.1 * p.2) b[i] :: solved) := by
  let F : Factors α := ⟨(List.range n).map R, e⟩
  have htake : b.take (i + 1) = b.take i ++ [b[i]] := List.take_succ_eq_append_getElem hi
  have htakelen : (b.take i).length = i := by rw [List.length_take]; omega
  have htotal : (b.take (i + 1) ++ solved).length = n := by
    rw [List.length_append, List.length_take, hlen]
    omega
  have hbelow := below_eq (d := e) hR i
  have hbelowlen : (F.below i).length = n - (i + 1) := by
    rw [hbelow, List.length_map, List.length_range']
  have hcolumn : ∀ t < (F.below i).length, L.get? (i + 1 + t) i = (F.below i)[t]? := by
    intro t ht
    rw [hbelowlen] at ht
    have hrow : i < (R (i + 1 + t)).length := by rw [hR _ (by omega)]; omega
    rw [h.rows _ (by omega) i hrow, hbelow, List.getElem?_map,
      List.getElem?_range' (by omega), List.getElem?_eq_getElem hrow, Option.map_some,
      Nat.one_mul, List.getD_eq_getElem _ _ hrow]
  have hloop := subtractLoop_eq (b := b.take (i + 1) ++ solved) (i := i) (a := i + 1)
    (c := fun j => L.get? j i) hcolumn (by omega) (by omega) (Or.inl (Nat.lt_succ_self i))
  have hdrop : (b.take (i + 1) ++ solved).drop (i + 1) = solved :=
    List.drop_left' (by rw [List.length_take]; omega)
  rw [hdrop, hbelowlen] at hloop
  rw [hloop, Option.some.injEq]
  simp only [htake, List.append_assoc, List.singleton_append]
  rw [List.getElem_append_right (by omega), List.set_append_right _ _ (by omega)]
  simp [htakelen, F]

theorem Holds.backwardInPlace?_eq (h : Holds n L d R e) (hR : ∀ i < n, (R i).length = i)
    (hb : b.length = n) :
    backwardInPlace? L n b = some (Factors.backward ⟨(List.range n).map R, e⟩ b n []) := by
  let F : Factors α := ⟨(List.range n).map R, e⟩
  -- in front of `i` stands what is not solved, from it on what is
  have hloop : ∃ b', backwardInPlace? L n b = some b' ∧ ∃ solved, b' = b.take 0 ++ solved ∧
      solved.length = n - 0 ∧ F.backward b 0 solved = F.backward b n [] := by
    refine exists_foldlM_reverse_range (I := fun i b' => ∃ solved, b' = b.take i ++ solved ∧
      solved.length = n - i ∧ F.backward b i solved = F.backward b n []) (fun i b' hi hb' => ?_)
      ⟨[], by rw [List.append_nil, List.take_of_length_le hb.le], by simp, rfl⟩
    obtain ⟨solved, rfl, hlen, hbackward⟩ := hb'
    have hib : i < b.length := by omega
    refine ⟨_, h.backwardTurn?_eq hR hib hb hlen, _, rfl, by rw [List.length_cons]; omega, ?_⟩
    rw [← hbackward, Factors.backward, List.getElem?_eq_getElem hib]
  obtain ⟨b', hb', solved, rfl, -, hbackward⟩ := hloop
  rw [hb', ← hbackward]
  rfl

theorem Holds.solve_inPlace (h : Holds n L d R e) (hR : ∀ i < n, (R i).length = i)
    (he : e.length = n) (hb : b.length = n) :
    ∃ y z, forwardInPlace? L n b = some y ∧ divideInPlace? d n y = some z ∧
      backwardInPlace? L n z = some (Factors.solve ⟨(List.range n).map R, e⟩ b) := by
  obtain ⟨y, hforward, hy, hlen⟩ := h.forwardInPlace?_eq hR hb
  have hd : d = e := by
    apply List.ext_getElem?
    intro t
    rcases Nat.lt_or_ge t n with ht | ht
    · exact h.pivots t (by omega)
    · rw [List.getElem?_eq_none (by rw [h.room.length_diagonal]; exact ht),
        List.getElem?_eq_none (by omega)]
  have hdivide := divideInPlace?_eq hlen h.room.length_diagonal
  have hzlen : (y.zipWith (· / ·) d).length = n := by
    rw [List.length_zipWith, hlen, h.room.length_diagonal, Nat.min_self]
  refine ⟨y, _, hforward, hdivide, ?_⟩
  rw [h.backwardInPlace?_eq hR hzlen, Factors.solve, ← hy]
  dsimp only
  rw [← hd, hzlen]

end Substitution

end Ldl

end LinProg
