import LinProg.Json.Printer
import LinProg.Proofs.Json.Numbers

/-!
# Values and their texts

A value is *plain* at a depth if it is made of numbers that the grammar has and that stand for
something, of strings and keys with texts, and of objects without repeated keys, and is nested no
deeper. The pretty text of such a value is read back as the value (`Json.Plain.parse?_pretty`), and
the check of a value that was read changes nothing in it (`Json.Plain.plainWithin?_eq`).
-/

namespace LinProg.Json

section Strings

variable {c : Char} {cs rest : List Char} {ps : List Piece} {n : ℕ}

theorem hexValue?_hexDigit (h : n < 16) : hexValue? (hexDigit n) = some n := by
  interval_cases n <;> decide

theorem characters?_unit (h : n < 32) :
    characters? (.unit n :: ps) = (characters? ps).map (Char.ofNat n :: ·) := by
  have hhigh : isHighSurrogate n = false := by
    rw [isHighSurrogate, Bool.and_eq_false_iff]
    exact Or.inl (decide_eq_false (by omega))
  have hlow : isLowSurrogate n = false := by
    rw [isLowSurrogate, Bool.and_eq_false_iff]
    exact Or.inl (decide_eq_false (by omega))
  cases ps with
  | nil => simp [characters?, hhigh, hlow]
  | cons p ps =>
    cases p with
    | char c => simp [characters?, hhigh, hlow]
    | unit m => simp [characters?, hhigh, hlow]

theorem pieces?_shortEscape {e : Char} (hu : e ≠ 'u') (he : shortEscape? e = some c) :
    pieces? ('\\' :: e :: cs) = (pieces? cs).map fun r => (.char c :: r.1, r.2) := by
  cases h : pieces? cs <;> simp [pieces?, hu, he, h]

theorem pieces?_unit (h : n < 32) :
    pieces? ('\\' :: 'u' :: '0' :: '0' :: hexDigit (n / 16) :: hexDigit (n % 16) :: cs) =
      (pieces? cs).map fun r => (.unit n :: r.1, r.2) := by
  have hzero : hexValue? '0' = some 0 := rfl
  have hdiv := hexValue?_hexDigit (n := n / 16) (by omega)
  have hmod := hexValue?_hexDigit (n := n % 16) (by omega)
  have hsum : n / 16 * 16 + n % 16 = n := by omega
  cases h : pieces? cs <;> simp [pieces?, hzero, hdiv, hmod, hsum, h]

theorem pieces?_cons (hquote : c ≠ '"') (hslash : c ≠ '\\') (hc : 32 ≤ c.toNat) :
    pieces? (c :: cs) = (pieces? cs).map fun r => (.char c :: r.1, r.2) := by
  cases h : pieces? cs <;> simp [pieces?, hslash, hc, h]

theorem exists_pieces?_escape (c : Char) : ∃ p,
    (∀ cs, pieces? (escape c ++ cs) = (pieces? cs).map fun r => (p :: r.1, r.2)) ∧
    ∀ ps, characters? (p :: ps) = (characters? ps).map (c :: ·) := by
  have hchar : ∀ ps, characters? (.char c :: ps) = (characters? ps).map (c :: ·) := fun ps => by
    rw [characters?]
  have hshort : ∀ e, e ≠ 'u' → shortEscape? e = some c → escape c = ['\\', e] → ∃ p,
      (∀ cs, pieces? (escape c ++ cs) = (pieces? cs).map fun r => (p :: r.1, r.2)) ∧
      ∀ ps, characters? (p :: ps) = (characters? ps).map (c :: ·) := by
    intro e hu he hescape
    rw [hescape]
    exact ⟨.char c, fun cs => pieces?_shortEscape hu he, hchar⟩
  by_cases hquote : c = '"'
  · subst hquote
    exact hshort '"' (by decide) rfl rfl
  by_cases hslash : c = '\\'
  · subst hslash
    exact hshort '\\' (by decide) rfl rfl
  by_cases hline : c = '\n'
  · subst hline
    exact hshort 'n' (by decide) rfl rfl
  by_cases hreturn : c = '\r'
  · subst hreturn
    exact hshort 'r' (by decide) rfl rfl
  by_cases htab : c = '\t'
  · subst htab
    exact hshort 't' (by decide) rfl rfl
  have hof : Char.ofNat c.toNat = c := Char.ofNat_toNat c
  by_cases hback : c.toNat = 8
  · have hc : c = Char.ofNat 8 := by rw [← hback, hof]
    exact hshort 'b' (by decide) (hc ▸ rfl) (hc ▸ rfl)
  by_cases hfeed : c.toNat = 12
  · have hc : c = Char.ofNat 12 := by rw [← hfeed, hof]
    exact hshort 'f' (by decide) (hc ▸ rfl) (hc ▸ rfl)
  by_cases hcontrol : c.toNat < 32
  · refine ⟨.unit c.toNat, fun cs => ?_, fun ps => ?_⟩
    · simp only [escape, hquote, hslash, hline, hreturn, htab, hback, hfeed, hcontrol, if_true,
        if_false, List.cons_append, List.nil_append]
      exact pieces?_unit hcontrol
    · rw [characters?_unit hcontrol, hof]
  · refine ⟨.char c, fun cs => ?_, hchar⟩
    simp only [escape, hquote, hslash, hline, hreturn, htab, hback, hfeed, hcontrol, if_false,
      List.cons_append, List.nil_append]
    exact pieces?_cons hquote hslash (not_lt.mp hcontrol)

theorem exists_pieces? (cs rest : List Char) : ∃ ps,
    pieces? (cs.flatMap escape ++ '"' :: rest) = some (ps, rest) ∧ characters? ps = some cs := by
  induction cs with
  | nil => exact ⟨[], by simp [pieces?], by simp [characters?]⟩
  | cons c cs ih =>
    obtain ⟨ps, hps, hcs⟩ := ih
    obtain ⟨p, hp, hc⟩ := exists_pieces?_escape c
    refine ⟨p :: ps, ?_, ?_⟩
    · rw [List.flatMap_cons, List.append_assoc, hp, hps, Option.map_some]
    · rw [hc, hcs, Option.map_some]

theorem string?_quoted (s : String) (rest : List Char) :
    string? (s.toList.flatMap escape ++ '"' :: rest) = some (some s, rest) := by
  obtain ⟨ps, hps, hcs⟩ := exists_pieces? s.toList rest
  simp [string?, hps, hcs, String.ofList_toList]

end Strings

/-- A value that is written and read without a change, nested at most `depth` deep. -/
inductive Plain : ℕ → Json → Prop
  | null {depth : ℕ} : Plain depth null
  | bool {depth : ℕ} (b : Bool) : Plain depth (bool b)
  | num {depth : ℕ} {n : Numeral} (hform : n.WellFormed) (hvalue : ∃ x, n.float? = some x) :
      Plain depth (num n)
  | text {depth : ℕ} (s : String) : Plain depth (text s)
  | arr {depth : ℕ} {vs : List Json} (helements : ∀ v ∈ vs, Plain depth v) :
      Plain (depth + 1) (arr vs)
  | obj {depth : ℕ} {ms : List (Option String × Json)} (hkeys : (ms.map (·.1)).Nodup)
      (htexts : ∀ m ∈ ms, m.1.isSome = true) (hvalues : ∀ m ∈ ms, Plain depth m.2) :
      Plain (depth + 1) (obj ms)

section Blanks

variable {level bound : ℕ} {cs : List Char}

theorem skipBlanks_newLine : skipBlanks (newLine level ++ cs) = skipBlanks cs := by
  have hspaces : ∀ k, skipBlanks (List.replicate k ' ' ++ cs) = skipBlanks cs := by
    intro k
    induction k with
    | zero => rfl
    | succ k ih => simpa [List.replicate_succ, skipBlanks] using ih
  simpa [newLine, skipBlanks] using hspaces (2 * level)

/-- The text begins with something else than a blank or the end of an array. -/
def Begins (cs : List Char) : Prop :=
  ∃ c rest, cs = c :: rest ∧ c ≠ ' ' ∧ c ≠ '\n' ∧ c ≠ '\t' ∧ c ≠ '\r' ∧ c ≠ ']'

theorem Begins.append {rest : List Char} (h : Begins cs) : Begins (cs ++ rest) := by
  obtain ⟨c, r, rfl, hc⟩ := h
  exact ⟨c, r ++ rest, rfl, hc⟩

theorem Begins.skipBlanks (h : Begins cs) : skipBlanks cs = cs := by
  obtain ⟨c, r, rfl, hspace, hline, htab, hreturn, -⟩ := h
  simp [Json.skipBlanks, hspace, hline, htab, hreturn]

theorem value?_newLine : value? bound (newLine level ++ cs) = value? bound cs := by
  cases bound with
  | zero => rfl
  | succ bound => rw [value?, value?, skipBlanks_newLine]

theorem elements?_newLine : elements? bound (newLine level ++ cs) = elements? bound cs := by
  cases bound with
  | zero => rfl
  | succ bound => rw [elements?, elements?, value?_newLine]

theorem members?_newLine : members? bound (newLine level ++ cs) = members? bound cs := by
  cases bound with
  | zero => rfl
  | succ bound => rw [members?, members?, skipBlanks_newLine]

end Blanks

section Numbers

open Decimal

variable {n : Numeral} {bound : ℕ} {rest : List Char}

theorem exists_chars_eq_cons (h : n.WellFormed) :
    ∃ c cs, n.chars = c :: cs ∧ (c = '-' ∨ c.isDigit = true) := by
  obtain ⟨c, cs, hwhole, hc⟩ : ∃ c cs, n.whole = c :: cs ∧ c.isDigit = true := by
    rcases h.whole with hzero | ⟨c, cs, hwhole, -, hall⟩
    · exact ⟨'0', [], hzero, by decide⟩
    · exact ⟨c, cs, hwhole, hall c List.mem_cons_self⟩
  cases hsign : n.negative with
  | false => exact ⟨c, _, by simp [Numeral.chars, hsign, hwhole]; rfl, Or.inr hc⟩
  | true => exact ⟨'-', _, by simp [Numeral.chars, hsign]; rfl, Or.inl rfl⟩

theorem begins_of_digit {c : Char} {cs : List Char} (h : c = '-' ∨ c.isDigit = true) :
    Begins (c :: cs) := by
  refine ⟨c, cs, rfl, ?_, ?_, ?_, ?_, ?_⟩ <;>
  · rintro rfl
    revert h
    decide

theorem value?_chars (h : n.WellFormed) (hrest : EndsNumber rest) :
    value? (bound + 1) (n.chars ++ rest) = some (num n, rest) := by
  obtain ⟨c, cs, hchars, hc⟩ := exists_chars_eq_cons h
  have hread := numeral?_chars h hrest
  rw [hchars, List.cons_append] at hread ⊢
  have hother : ∀ d, ¬(d = '-' ∨ d.isDigit = true) → c ≠ d := by
    rintro d hd rfl
    exact hd hc
  have hn := hother 'n' (by decide)
  have ht := hother 't' (by decide)
  have hf := hother 'f' (by decide)
  have hquote := hother '"' (by decide)
  have harray := hother '[' (by decide)
  have hobject := hother '{' (by decide)
  rw [value?, (begins_of_digit hc).skipBlanks]
  simp [hn, ht, hf, hquote, harray, hobject, hread]

end Numbers

/-- The value is read back from its pretty text at every level. The bound may be the length of the
text, since between two steps of the recursion a character is read. -/
def ReadsBack (v : Json) : Prop :=
  ∀ level bound rest, EndsNumber rest → (prettyChars level v).length ≤ bound →
    value? bound (prettyChars level v ++ rest) = some (v, rest)

section Parts

variable {level bound : ℕ} {cs rest : List Char} {v : Json} {vs : List Json} {s : String}
variable {ms : List (Option String × Json)}

theorem value?_blank : value? bound (' ' :: cs) = value? bound cs := by
  cases bound with
  | zero => rfl
  | succ bound => rw [value?, value?, skipBlanks, if_pos (Or.inl rfl)]

theorem value?_array (h : Begins cs) : value? (bound + 1) ('[' :: (newLine level ++ cs)) =
    (elements? bound cs).map fun r => (arr r.1, r.2) := by
  have hinner : skipBlanks (newLine level ++ cs) = cs := by rw [skipBlanks_newLine, h.skipBlanks]
  obtain ⟨c, cs, rfl, -, -, -, -, hend⟩ := h
  rw [value?]
  simp [skipBlanks, hinner, hend]

theorem value?_object : value? (bound + 1) ('{' :: (newLine level ++ '"' :: cs)) =
    (members? bound ('"' :: cs)).map fun r => (obj r.1, r.2) := by
  have hinner : skipBlanks (newLine level ++ '"' :: cs) = '"' :: cs := by
    rw [skipBlanks_newLine]
    rfl
  rw [value?]
  simp [skipBlanks, hinner]

theorem elements?_last (h : value? bound cs = some (v, newLine level ++ ']' :: rest)) :
    elements? (bound + 1) cs = some ([v], rest) := by
  rw [elements?, h]
  simp [skipBlanks_newLine, skipBlanks]

theorem elements?_more {cs' : List Char} (h : value? bound cs = some (v, ',' :: cs'))
    (hrest : elements? bound cs' = some (vs, rest)) :
    elements? (bound + 1) cs = some (v :: vs, rest) := by
  rw [elements?, h]
  simp [skipBlanks, hrest]

theorem members?_last (h : value? bound cs = some (v, newLine level ++ '}' :: rest)) :
    members? (bound + 1) ('"' :: (s.toList.flatMap escape ++ '"' :: ':' :: ' ' :: cs)) =
      some ([(some s, v)], rest) := by
  rw [members?]
  simp [skipBlanks, string?_quoted, value?_blank, h, skipBlanks_newLine]

theorem members?_more {cs' : List Char} (h : value? bound cs = some (v, ',' :: cs'))
    (hrest : members? bound cs' = some (ms, rest)) :
    members? (bound + 1) ('"' :: (s.toList.flatMap escape ++ '"' :: ':' :: ' ' :: cs)) =
      some ((some s, v) :: ms, rest) := by
  rw [members?]
  simp [skipBlanks, string?_quoted, value?_blank, h, hrest]

theorem endsNumber_prettyElements (level : ℕ) (vs : List Json) (rest : List Char) :
    EndsNumber (prettyElements level vs ++ rest) := by
  cases vs <;>
  · rintro c r h
    obtain ⟨rfl, -⟩ := List.cons.inj h
    decide

theorem endsNumber_prettyMembers (level : ℕ) (ms : List (Option String × Json))
    (rest : List Char) : EndsNumber (prettyMembers level ms ++ rest) := by
  rcases ms with _ | ⟨⟨k, v⟩, ms⟩ <;>
  · rintro c r h
    obtain ⟨rfl, -⟩ := List.cons.inj h
    decide

theorem elements?_pretty (hall : ∀ u ∈ v :: vs, ReadsBack u)
    (hbound : (prettyChars (level + 1) v ++ prettyElements level vs).length ≤ bound) :
    elements? bound (prettyChars (level + 1) v ++ (prettyElements level vs ++ rest)) =
      some (v :: vs, rest) := by
  induction vs generalizing v bound with
  | nil =>
    simp only [prettyElements, newLine, List.length_append, List.length_cons] at hbound
    obtain ⟨b, rfl⟩ : ∃ b, bound = b + 1 := ⟨bound - 1, by omega⟩
    have hv := hall v List.mem_cons_self (level + 1) b _ (endsNumber_prettyElements level [] rest)
      (by omega)
    rw [prettyElements, List.append_assoc] at hv ⊢
    exact elements?_last hv
  | cons u us ih =>
    simp only [prettyElements, newLine, List.length_append, List.length_cons] at hbound
    obtain ⟨b, rfl⟩ : ∃ b, bound = b + 1 := ⟨bound - 1, by omega⟩
    have hv := hall v List.mem_cons_self (level + 1) b _
      (endsNumber_prettyElements level (u :: us) rest) (by omega)
    have hus : elements? b (prettyChars (level + 1) u ++ (prettyElements level us ++ rest)) =
        some (u :: us, rest) :=
      ih (fun w hw => hall w (List.mem_cons_of_mem v hw)) (by rw [List.length_append]; omega)
    rw [prettyElements, List.cons_append] at hv ⊢
    refine elements?_more hv ?_
    rw [List.append_assoc, List.append_assoc, elements?_newLine]
    exact hus

/-- The text of a member up to the end of its value. -/
def memberChars (level : ℕ) (s : String) (v : Json) : List Char :=
  '"' :: (s.toList.flatMap escape ++ '"' :: ':' :: ' ' :: prettyChars (level + 1) v)

theorem members?_pretty (hall : ∀ m ∈ (some s, v) :: ms, ReadsBack m.2)
    (htexts : ∀ m ∈ ms, m.1.isSome = true)
    (hbound : (memberChars level s v ++ prettyMembers level ms).length ≤ bound) :
    members? bound (memberChars level s v ++ (prettyMembers level ms ++ rest)) =
      some ((some s, v) :: ms, rest) := by
  induction ms generalizing s v bound with
  | nil =>
    simp only [memberChars, prettyMembers, newLine, List.length_append, List.length_cons] at hbound
    obtain ⟨b, rfl⟩ : ∃ b, bound = b + 1 := ⟨bound - 1, by omega⟩
    have hread : ReadsBack v := hall (some s, v) List.mem_cons_self
    have hv := hread (level + 1) b _ (endsNumber_prettyMembers level [] rest) (by omega)
    simp only [memberChars, prettyMembers, List.append_assoc, List.cons_append] at hv ⊢
    exact members?_last hv
  | cons m ms ih =>
    obtain ⟨⟨k⟩ | k, u⟩ := m
    · exact absurd (htexts _ List.mem_cons_self) (by simp)
    simp only [memberChars, prettyMembers, newLine, List.length_append, List.length_cons] at hbound
    obtain ⟨b, rfl⟩ : ∃ b, bound = b + 1 := ⟨bound - 1, by omega⟩
    have hread : ReadsBack v := hall (some s, v) List.mem_cons_self
    have hv := hread (level + 1) b _
      (endsNumber_prettyMembers level ((some k, u) :: ms) rest) (by omega)
    have hms : members? b (memberChars level k u ++ (prettyMembers level ms ++ rest)) =
        some ((some k, u) :: ms, rest) :=
      ih (fun w hw => hall w (List.mem_cons_of_mem _ hw))
        (fun w hw => htexts w (List.mem_cons_of_mem _ hw))
        (by simp [memberChars, quoted] at hbound ⊢; omega)
    simp only [memberChars, prettyMembers, List.append_assoc, List.cons_append] at hv hms ⊢
    refine members?_more hv ?_
    rw [members?_newLine]
    simpa [quoted] using hms

end Parts

section Values

variable {depth level : ℕ} {v : Json}

theorem Plain.begins (h : Plain depth v) : Begins (prettyChars level v) := by
  cases h with
  | null => exact ⟨'n', _, rfl, by decide⟩
  | bool b => cases b <;> exact ⟨_, _, rfl, by decide⟩
  | num hform hvalue =>
    obtain ⟨c, cs, hchars, hc⟩ := exists_chars_eq_cons hform
    change Begins (Numeral.chars _)
    rw [hchars]
    exact begins_of_digit hc
  | text s => exact ⟨'"', _, rfl, by decide⟩
  | @arr _ vs helements => cases vs <;> exact ⟨'[', _, rfl, by decide⟩
  | @obj _ ms hkeys htexts hvalues =>
    rcases ms with _ | ⟨⟨k, u⟩, ms⟩ <;> exact ⟨'\x7b', _, rfl, by decide⟩

theorem Plain.exists_bound (h : Plain depth v) {bound : ℕ}
    (hbound : (prettyChars level v).length ≤ bound) : ∃ b, bound = b + 1 := by
  obtain ⟨c, cs, hchars, -⟩ : Begins (prettyChars level v) := h.begins
  rw [hchars, List.length_cons] at hbound
  exact ⟨bound - 1, by omega⟩

theorem Plain.readsBack (h : Plain depth v) : ReadsBack v := by
  induction h with
  | null =>
    intro level bound rest hrest hbound
    obtain ⟨b, rfl⟩ := (Plain.null : Plain 0 .null).exists_bound hbound
    simp [prettyChars, atom, value?, skipBlanks]
  | bool b =>
    intro level bound rest hrest hbound
    obtain ⟨k, rfl⟩ := (Plain.bool b : Plain 0 (.bool b)).exists_bound hbound
    cases b <;> simp [prettyChars, atom, value?, skipBlanks]
  | num hform hvalue =>
    intro level bound rest hrest hbound
    obtain ⟨b, rfl⟩ := (Plain.num hform hvalue : Plain 0 (.num _)).exists_bound hbound
    exact value?_chars hform hrest
  | text s =>
    intro level bound rest hrest hbound
    obtain ⟨b, rfl⟩ := (Plain.text s : Plain 0 (.text s)).exists_bound hbound
    simp [Json.text, prettyChars, atom, quoted, value?, skipBlanks, string?_quoted]
  | @arr depth vs helements ih =>
    intro level bound rest hrest hbound
    obtain ⟨b, rfl⟩ := (Plain.arr helements).exists_bound hbound
    cases vs with
    | nil => simp [prettyChars, atom, value?, skipBlanks]
    | cons v vs =>
      simp only [prettyChars, newLine, List.length_append, List.length_cons] at hbound
      have hread : elements? b (prettyChars (level + 1) v ++ (prettyElements level vs ++ rest)) =
          some (v :: vs, rest) := elements?_pretty ih (by rw [List.length_append]; omega)
      have hbegins : Begins (prettyChars (level + 1) v ++ (prettyElements level vs ++ rest)) :=
        (helements v List.mem_cons_self).begins.append
      rw [prettyChars, List.cons_append, List.append_assoc, List.append_assoc,
        value?_array hbegins, hread, Option.map_some]
  | @obj depth ms hkeys htexts hvalues ih =>
    intro level bound rest hrest hbound
    obtain ⟨b, rfl⟩ := (Plain.obj hkeys htexts hvalues).exists_bound hbound
    rcases ms with _ | ⟨⟨_ | k, v⟩, ms⟩
    · simp [prettyChars, atom, value?, skipBlanks]
    · exact absurd (htexts _ List.mem_cons_self) (by simp)
    · have hread : members? b (memberChars level k v ++ (prettyMembers level ms ++ rest)) =
          some ((some k, v) :: ms, rest) :=
        members?_pretty ih (fun m hm => htexts m (List.mem_cons_of_mem _ hm))
          (by simp [prettyChars, memberChars, quoted, newLine] at hbound ⊢; omega)
      have hchars : prettyChars level (Json.obj ((some k, v) :: ms)) ++ rest =
          '\x7b' :: (newLine (level + 1) ++
            (memberChars level k v ++ (prettyMembers level ms ++ rest))) := by
        simp [prettyChars, memberChars, quoted]
      rw [hchars, memberChars, List.cons_append, value?_object, ← List.cons_append, ← memberChars,
        hread, Option.map_some]

/-- **The pretty text** of a plain value is read back as the value. -/
theorem Plain.parse?_pretty (h : Plain depth v) : parse? v.pretty = some v := by
  have hends : EndsNumber [] := fun c rest h => nomatch h
  have hread := h.readsBack 0 (2 * (prettyChars 0 v).length + 2) [] hends (by omega)
  rw [List.append_nil] at hread
  rw [parse?, pretty, String.toList_ofList]
  simp [hread, skipBlanks]

section Check

variable {vs : List Json} {ms before : List (Option String × Json)} {k : Option String}

theorem putMember_eq (h : k ∉ before.map (·.1)) : putMember before k v = before ++ [(k, v)] := by
  rw [putMember, List.filter_eq_self.mpr]
  intro m hm
  rw [bne_iff_ne]
  rintro rfl
  exact h (List.mem_map_of_mem hm)

theorem plainElements?_eq (h : ∀ v ∈ vs, plainWithin? depth v = some v) :
    plainElements? depth vs = some vs := by
  induction vs with
  | nil => rw [plainElements?]
  | cons v vs ih =>
    obtain ⟨hv, hvs⟩ := List.forall_mem_cons.mp h
    simp [plainElements?, hv, ih hvs]

theorem plainMembers?_eq (htexts : ∀ m ∈ ms, m.1.isSome = true)
    (h : ∀ m ∈ ms, plainWithin? depth m.2 = some m.2) (hkeys : ((before ++ ms).map (·.1)).Nodup) :
    plainMembers? depth ms before = some (before ++ ms) := by
  induction ms generalizing before with
  | nil => rw [plainMembers?, List.append_nil]
  | cons m ms ih =>
    obtain ⟨k, v⟩ := m
    obtain ⟨hk, htexts'⟩ := List.forall_mem_cons.mp htexts
    obtain ⟨hv, h'⟩ := List.forall_mem_cons.mp h
    obtain ⟨s, hs⟩ := Option.isSome_iff_exists.mp hk
    dsimp only at hs hv
    have hfresh : some s ∉ before.map (·.1) := by
      rw [List.map_append, List.nodup_append] at hkeys
      exact fun hmem => hkeys.2.2 _ hmem _ List.mem_cons_self hs.symm
    rw [List.append_cons] at hkeys ⊢
    rw [plainMembers?, hs, Option.bind_eq_bind, Option.bind_some, hv, Option.bind_eq_bind,
      Option.bind_some, putMember_eq hfresh]
    rw [hs] at hkeys
    exact ih htexts' h' hkeys

theorem Plain.plainWithin?_eq (h : Plain depth v) : plainWithin? depth v = some v := by
  induction h with
  | null => simp [plainWithin?]
  | bool b => simp [plainWithin?]
  | num hform hvalue =>
    obtain ⟨x, hx⟩ := hvalue
    simp [plainWithin?, hx]
  | text s => simp [plainWithin?, Json.text]
  | arr helements ih =>
    rw [plainWithin?]
    simp [plainElements?_eq ih]
  | @obj depth ms hkeys htexts hvalues ih =>
    have hmembers : plainMembers? depth ms [] = some ([] ++ ms) := plainMembers?_eq htexts ih hkeys
    rw [plainWithin?]
    simp [hmembers]

end Check

end Values

end LinProg.Json
