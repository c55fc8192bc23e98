import LinProg.Proofs.Json.Texts

/-!
# Structures and their texts

The values that structures are written as, and what is read from them: an object gives each field
what was written for it (`Json.fields?_object`), and so does an array or a number whose parts can be
read.
-/

namespace LinProg.Json

variable {depth : ℕ}

section Written

variable {β : Type} {f : β → Json}

theorem plain_count {n : ℕ} (h : n < 2 ^ 64) : Plain depth (count n) :=
  .num (Numeral.wellFormed_ofNat n) (Numeral.exists_float?_ofNat h)

theorem plain_float {x : Float} (h : x.isFinite = true → Restores x) : Plain depth (float x) := by
  cases hx : x.isFinite with
  | false =>
    rw [float_eq_null hx]
    exact .null
  | true =>
    obtain ⟨n, hn, hform⟩ := exists_float_eq_num hx
    have hread := h hx
    unfold Restores at hread
    rw [hn] at hread ⊢
    exact .num hform ⟨x, hread⟩

theorem plain_list {xs : List β} (h : ∀ x ∈ xs, Plain depth (f x)) :
    Plain (depth + 1) (list f xs) := by
  refine .arr fun v hv => ?_
  obtain ⟨x, hx, rfl⟩ := List.mem_map.mp hv
  exact h x hx

theorem plain_nullable {o : Option β} (h : ∀ b ∈ o, Plain depth (f b)) :
    Plain depth (nullable f o) := by
  cases o with
  | none => exact .null
  | some b => exact h b rfl

theorem plain_object {ms : List (String × Json)} (hkeys : (ms.map (·.1)).Nodup)
    (h : ∀ m ∈ ms, Plain depth m.2) : Plain (depth + 1) (object ms) := by
  have hmap : (ms.map fun m => (some m.1, m.2)).map (·.1) = (ms.map (·.1)).map some := by
    rw [List.map_map, List.map_map]
    rfl
  refine .obj ?_ (fun m hm => ?_) (fun m hm => ?_)
  · exact hmap ▸ hkeys.map (Option.some_injective String)
  · obtain ⟨m, -, rfl⟩ := List.mem_map.mp hm
    rfl
  · obtain ⟨m', hm', rfl⟩ := List.mem_map.mp hm
    exact h m' hm'

end Written

section Read

variable {β : Type} {f : β → Json} {read : Json → Option β}

theorem count?_count {n : ℕ} (h : n < 2 ^ 64) : (count n).count? = some n :=
  (Numeral.count?_ofNat n).trans (Size.fit?_eq h)

theorem exists_of_required {slot : Slot} {b : β} (h : slot.required read = some b) :
    ∃ v, read v = some b := by
  cases slot with
  | given v => exact ⟨v, h⟩
  | absent => cases h
  | cut => cases h

theorem exists_of_orElse_none {read : Json → Option (Option β)} {slot : Slot} {b : β}
    (h : slot.orElse none read = some (some b)) : ∃ v, read v = some (some b) := by
  cases slot with
  | given v => exact ⟨v, h⟩
  | absent => cases h
  | cut => cases h

theorem lt_of_count? {v : Json} {n : ℕ} (h : v.count? = some n) : n < 2 ^ 64 := by
  cases v with
  | num numeral =>
    have hcount : numeral.count? = some n := h
    unfold Numeral.count? at hcount
    split at hcount
    · obtain ⟨hlt, rfl⟩ := Size.fit?_eq_some_iff.mp hcount
      exact hlt
    · cases hcount
  | _ => cases h

theorem of_nullable?_eq_some {v : Json} {b : β} (h : v.nullable? read = some (some b)) :
    read v = some b := by
  unfold nullable? at h
  split at h
  · cases h
  · obtain ⟨b', hb, heq⟩ := Option.map_eq_some_iff.mp h
    cases heq
    exact hb

theorem isFinite_of_list?_float? {v : Json} {xs : List Float} (h : v.list? Json.float? = some xs) :
    ∀ x ∈ xs, x.isFinite = true := by
  cases v with
  | arr vs =>
    intro x hx
    obtain ⟨v, -, hv⟩ := exists_of_mem_of_mapM_eq_some h x hx
    cases v with
    | num n => exact Numeral.isFinite_of_float? hv
    | _ => cases hv
  | _ => cases h

theorem list?_list {xs : List β} (h : ∀ x ∈ xs, read (f x) = some x) :
    (list f xs).list? read = some xs := by
  have hmap := mapM_eq_some_map (f := fun x => read (f x)) (g := id) h
  rw [List.map_id] at hmap
  rw [list, list?, List.mapM_map]
  exact hmap

theorem nullable?_nullable {o : Option β} (h : ∀ b ∈ o, f b ≠ null ∧ read (f b) = some b) :
    (nullable f o).nullable? read = some o := by
  cases o with
  | none => rfl
  | some b =>
    obtain ⟨hne, hb⟩ := h b rfl
    rw [nullable, nullable?, hb]
    · rfl
    · exact hne

end Read

section Fields

variable {ms : List (String × Json)} {key : String}

theorem valuesOf_of_not_mem (h : key ∉ ms.map (·.1)) :
    valuesOf key (ms.map fun m => (some m.1, m.2)) = [] := by
  rw [valuesOf, List.filterMap_map, List.filterMap_eq_nil_iff]
  intro m hm
  have hne : m.1 ≠ key := fun heq => h (heq ▸ List.mem_map_of_mem hm)
  simp [hne]

theorem valuesOf_of_mem (hkeys : (ms.map (·.1)).Nodup) {m : String × Json} (hm : m ∈ ms) :
    valuesOf m.1 (ms.map fun m => (some m.1, m.2)) = [m.2] := by
  induction ms with
  | nil => cases hm
  | cons m' ms ih =>
    rw [List.map_cons, List.nodup_cons] at hkeys
    rcases List.mem_cons.mp hm with rfl | hm
    · have hrest := valuesOf_of_not_mem hkeys.1
      simpa [valuesOf] using hrest
    · have hne : m'.1 ≠ m.1 := fun heq => hkeys.1 (heq ▸ List.mem_map_of_mem hm)
      simpa [valuesOf, hne] using ih hkeys.2 hm

theorem fields?_object (ms : List (String × Json)) (hkeys : (ms.map (·.1)).Nodup) :
    (object ms).fields? (ms.map (·.1)) = some (ms.map fun m => .given m.2) := by
  have htexts : (ms.map fun m => (some m.1, m.2)).all (fun m => m.1.isSome) = true := by simp
  rw [object, fields?]
  change (if (ms.map fun m => (some m.1, m.2)).all (fun m => m.1.isSome) = true then _ else _) = _
  rw [if_pos htexts, List.mapM_map]
  refine mapM_eq_some_map fun m hm => ?_
  change slotOf? (ms.map fun m => (some m.1, m.2)) m.1 = _
  rw [slotOf?, valuesOf_of_mem hkeys hm]

end Fields

end LinProg.Json
