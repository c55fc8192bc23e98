import Mathlib
import LinProg.Files.Session

/-!
# Files that were written

What a file tree shows after one entry of it has been replaced. A path that led to a file, or to
where nothing was, leads to the new file by the same way (`Directory.follow_put`), since every
directory on the way is either untouched or has the entry below it. So a file that was written is
read back unchanged (`Session.readFrom_writeTo`), and so is a text (`Session.simulate_readText`).
-/

namespace LinProg

namespace Directory

section Insert

variable {d : Directory} {name other : String} {e : Entry}

theorem lookup_insert_self : (d.insert name e).lookup name = some e := List.lookup_cons_self

theorem lookup_insert_of_ne (h : other ≠ name) :
    (d.insert name e).lookup other = d.lookup other := by
  have hrest : ∀ ps : Directory, (ps.filter fun p => p.1 ≠ name).lookup other =
      ps.lookup other := by
    intro ps
    induction ps with
    | nil => rfl
    | cons p ps ih =>
      by_cases hp : p.1 = name
      · have hne : (other == p.1) = false := by simpa [hp] using h
        rw [List.filter_cons_of_neg (by simpa using hp), ih]
        obtain ⟨n, e'⟩ := p
        rw [List.lookup_cons, hne]
      · rw [List.filter_cons_of_pos (by simpa using hp)]
        obtain ⟨n, e'⟩ := p
        rw [List.lookup_cons, List.lookup_cons, ih]
  have hne : (other == name) = false := by simpa using h
  rw [insert, List.lookup_cons, hne]
  exact hrest d

theorem inner_of_lookup {entries : Directory} (h : d.lookup name = some (.directory entries)) :
    d.inner name = entries := by
  rw [inner, h]

theorem put_last : put e [name] d = d.insert name e := rfl

theorem put_cons {rest : List String} : put e (name :: other :: rest) d =
    d.insert name (.directory (put e (other :: rest) (d.inner name))) := rfl

end Insert

/-- The chain `above` of names and directories leads from the root to the directory `here`. -/
inductive Leads (root : Directory) : List (String × Directory) → Directory → Prop
  | root : Leads root [] root
  | into {above : List (String × Directory)} {here entries : Directory} {name : String}
      (h : Leads root above here) (hentry : here.lookup name = some (.directory entries)) :
      Leads root ((name, here) :: above) entries

theorem Leads.unique {root here here' : Directory} {above above' : List (String × Directory)}
    (h : Leads root above here) (h' : Leads root above' here')
    (hnames : above.map (·.1) = above'.map (·.1)) : here = here' := by
  induction h generalizing above' here' with
  | root =>
    cases h' with
    | root => rfl
    | into _ _ => cases hnames
  | into h hentry ih =>
    cases h' with
    | root => cases hnames
    | into h' hentry' =>
      obtain ⟨hname, hrest⟩ := List.cons.inj hnames
      obtain rfl := ih h' hrest
      dsimp only at hname
      subst hname
      rw [hentry] at hentry'
      cases hentry'
      rfl

/-- What is left of a place after the names of a chain, nothing if it lies elsewhere. -/
def remaining (place : List String) : List (String × Directory) → List String
  | [] => place
  | (name, _) :: above =>
    match remaining place above with
    | next :: rest => if next = name then rest else []
    | [] => []

/-- The directories of a chain after an entry has been put at a place. -/
def changed (place : List String) (e : Entry) :
    List (String × Directory) → List (String × Directory)
  | [] => []
  | (name, parent) :: above =>
    (name, put e (remaining place above) parent) :: changed place e above

section Changed

variable {place rest : List String} {e : Entry} {above : List (String × Directory)}
variable {here entries root : Directory} {name : String}

theorem placeOf_changed : placeOf (changed place e above) name = placeOf above name := by
  have hnames : (changed place e above).map (·.1) = above.map (·.1) := by
    induction above with
    | nil => rfl
    | cons p above ih =>
      rw [changed, List.map_cons, List.map_cons, ih]
  rw [placeOf, placeOf, hnames]

theorem remaining_append : remaining ((above.map (·.1)).reverse ++ rest) above = rest := by
  induction above generalizing rest with
  | nil => rfl
  | cons p above ih =>
    rw [remaining, List.map_cons, List.reverse_cons, List.append_assoc, ih]
    exact if_pos rfl

theorem remaining_placeOf : remaining (placeOf above name) above = [name] := remaining_append

theorem eq_of_remaining (h : remaining place above ≠ []) :
    place = (above.map (·.1)).reverse ++ remaining place above := by
  induction above with
  | nil => rfl
  | cons p above ih =>
    obtain ⟨name, parent⟩ := p
    cases hrest : remaining place above with
    | nil => exact absurd (by rw [remaining, hrest]) h
    | cons next rest =>
      rw [hrest] at ih
      have hplace := ih (List.cons_ne_nil _ _)
      by_cases hnext : next = name
      · rw [remaining, hrest]
        dsimp only
        rw [if_pos hnext, ← hnext, List.map_cons, List.reverse_cons, List.append_assoc]
        exact hplace
      · exact absurd (by rw [remaining, hrest]; exact if_neg hnext) h

/-- The place is not that of a directory. -/
def Outside (root : Directory) (place : List String) : Prop :=
  ∀ above here name entries, Leads root above here →
    here.lookup name = some (.directory entries) → placeOf above name ≠ place

theorem lookup_put (hleads : Leads root above here) (hout : Outside root place)
    (hentry : here.lookup name = some (.directory entries)) :
    (put e (remaining place above) here).lookup name =
      some (.directory (put e (remaining place ((name, here) :: above)) entries)) := by
  cases hrest : remaining place above with
  | nil =>
    rw [remaining, hrest]
    exact hentry
  | cons next rest =>
    rw [remaining, hrest]
    dsimp only
    by_cases hnext : next = name
    · subst hnext
      rw [if_pos rfl]
      cases rest with
      | nil =>
        have hplace : place = (above.map (·.1)).reverse ++ remaining place above :=
          eq_of_remaining (by simp [hrest])
        rw [hrest] at hplace
        exact absurd hplace.symm (hout above here next entries hleads hentry)
      | cons next' rest => rw [put_cons, lookup_insert_self, inner_of_lookup hentry]
    · rw [if_neg hnext]
      cases rest with
      | nil =>
        rw [put_last, lookup_insert_of_ne (Ne.symm hnext)]
        exact hentry
      | cons next' rest =>
        rw [put_cons, lookup_insert_of_ne (Ne.symm hnext)]
        exact hentry

end Changed

section Follow

variable {here root : Directory} {above : List (String × Directory)} {name : String}
variable {components place : List String}

theorem follow_dot : follow here above ("." :: components) = follow here above components := by
  rw [follow]

theorem follow_dots_root : follow here [] (".." :: components) = follow here [] components := by
  rw [follow]

theorem follow_dots {parent : Directory} :
    follow here ((name, parent) :: above) (".." :: components) =
      follow parent above components := by
  rw [follow]

theorem follow_name (hdot : name ≠ ".") (hdots : name ≠ "..") :
    follow here above (name :: components) =
      if Path.maxNameBytes < name.utf8ByteSize then .error .nameTooLong
      else
        match here.lookup name with
        | some (.directory entries) => follow entries ((name, here) :: above) components
        | some (.file bytes) =>
          if components.isEmpty then .ok (.file (placeOf above name) bytes)
          else .error .notADirectory
        | none =>
          if components.isEmpty then .ok (.missing (placeOf above name)) else .error .notFound :=
  follow.eq_5 here above name components hdot hdots

/-- The result tells a place: that of a file, or of nothing yet. -/
def Tells (place : List String) (r : Except SystemError Target) : Prop :=
  r = .ok (.missing place) ∨ ∃ old, r = .ok (.file place old)

theorem tells_missing {place' : List String} :
    Tells place (.ok (.missing place')) ↔ place' = place := by
  simp [Tells]

theorem tells_file {place' : List String} {old : ByteArray} :
    Tells place (.ok (.file place' old)) ↔ place' = place := by
  simp [Tells]

theorem of_tells_ite {last : Bool} {found : Target} {e : SystemError}
    (h : Tells place (if last then .ok found else .error e)) :
    last = true ∧ Tells place (.ok found) := by
  split at h
  · rename_i hlast
    exact ⟨hlast, h⟩
  · simp [Tells] at h

theorem follow_cons_cases (bytes : ByteArray) (hleads : Leads root above here)
    (h : Tells place (follow here above (name :: components))) :
    (∃ above' here', Leads root above' here' ∧ Tells place (follow here' above' components) ∧
      (Outside root place →
        follow (put (.file bytes) (remaining place above) here)
            (changed place (.file bytes) above) (name :: components) =
          follow (put (.file bytes) (remaining place above') here')
            (changed place (.file bytes) above') components)) ∨
    (components = [] ∧ place = placeOf above name ∧
      (∀ entries, here.lookup name ≠ some (.directory entries)) ∧
      follow (put (.file bytes) (remaining place above) here)
        (changed place (.file bytes) above) (name :: components) = .ok (.file place bytes)) := by
  by_cases hdot : name = "."
  · subst hdot
    rw [follow_dot] at h
    exact Or.inl ⟨above, here, hleads, h, fun _ => follow_dot⟩
  by_cases hdots : name = ".."
  · subst hdots
    cases hleads with
    | root =>
      rw [follow_dots_root] at h
      exact Or.inl ⟨[], _, .root, h, fun _ => follow_dots_root⟩
    | into hleads hentry =>
      rw [follow_dots] at h
      exact Or.inl ⟨_, _, hleads, h, fun _ => follow_dots⟩
  rw [follow_name hdot hdots] at h
  by_cases hlong : Path.maxNameBytes < name.utf8ByteSize
  · simp [hlong, Tells] at h
  rw [if_neg hlong] at h
  -- a file or nothing is at the place of the last component only, and the new file replaces it
  have hlast (hentry : ∀ entries, here.lookup name ≠ some (.directory entries))
      (hend : components.isEmpty = true) (hplace : placeOf above name = place) :
      components = [] ∧ place = placeOf above name ∧
        (∀ entries, here.lookup name ≠ some (.directory entries)) ∧
        follow (put (.file bytes) (remaining place above) here)
          (changed place (.file bytes) above) (name :: components) = .ok (.file place bytes) := by
    subst hplace
    refine ⟨List.isEmpty_iff.mp hend, rfl, hentry, ?_⟩
    rw [follow_name hdot hdots, if_neg hlong, remaining_placeOf, put_last, lookup_insert_self]
    dsimp only
    rw [if_pos hend, placeOf_changed]
  cases hentry : here.lookup name with
  | none =>
    rw [hentry] at h hlast
    obtain ⟨hend, h⟩ := of_tells_ite h
    exact Or.inr (hlast nofun hend (tells_missing.mp h))
  | some e =>
    rw [hentry] at h hlast
    cases e with
    | directory entries =>
      refine Or.inl ⟨_, _, .into hleads hentry, h, fun hout => ?_⟩
      rw [follow_name hdot hdots, if_neg hlong, lookup_put hleads hout hentry]
      rfl
    | file old =>
      obtain ⟨hend, h⟩ := of_tells_ite h
      exact Or.inr (hlast nofun hend (tells_file.mp h))

theorem outside_of_tells (hleads : Leads root above here)
    (h : Tells place (follow here above components)) : Outside root place := by
  induction components generalizing above here with
  | nil => simp [Tells, follow] at h
  | cons name components ih =>
    rcases follow_cons_cases .empty hleads h with
      ⟨above', here', hleads', h', -⟩ | ⟨-, rfl, hentry, -⟩
    · exact ih hleads' h'
    · intro above' here' name' entries hleads' hentry' hplace
      have hnames := List.append_inj' hplace rfl
      have hhere := hleads'.unique hleads (List.reverse_injective hnames.1)
      obtain rfl := List.head_eq_of_cons_eq hnames.2
      exact hentry entries (hhere ▸ hentry')

theorem follow_put {bytes : ByteArray} (hleads : Leads root above here)
    (h : Tells place (follow here above components)) :
    follow (put (.file bytes) (remaining place above) here)
      (changed place (.file bytes) above) components = .ok (.file place bytes) := by
  have hout := outside_of_tells hleads h
  induction components generalizing above here with
  | nil => simp [Tells, follow] at h
  | cons name components ih =>
    rcases follow_cons_cases bytes hleads h with
      ⟨above', here', hleads', h', hon⟩ | ⟨-, -, -, hlast⟩
    · rw [hon hout]
      exact ih hleads' h'
    · exact hlast

theorem not_tells_dot (hleads : Leads root above here) :
    ¬Tells place (follow here above (components ++ ["."])) := by
  induction components generalizing above here with
  | nil =>
    rw [List.nil_append, follow_dot]
    simp [Tells, follow]
  | cons name components ih =>
    intro h
    rcases follow_cons_cases .empty hleads h with ⟨_, _, hleads', h', -⟩ | ⟨hend, -⟩
    · exact ih hleads' h'
    · exact List.append_ne_nil_of_right_ne_nil _ (List.cons_ne_nil _ _) hend

end Follow

end Directory

namespace FileTree

open Directory (Tells)

variable {t t' : FileTree} {path : String} {components place : List String} {bytes : ByteArray}

theorem follow_cases (h : Tells place (t.follow path components)) :
    ∃ cs, Tells place (t.root.follow [] (cs ++ components)) ∧
      ∀ u : FileTree, u.follow path components = u.root.follow [] (cs ++ components) := by
  unfold follow at h ⊢
  split at h
  · simp [Tells] at h
  rename_i hvalid
  split at h
  · simp [Tells] at h
  rename_i hlong
  split at h
  · simp [Tells] at h
  rename_i hempty
  split at h
  · rename_i habs
    exact ⟨[], h, fun u => by rw [if_neg hvalid, if_neg hlong, if_neg hempty, if_pos habs]; rfl⟩
  · rename_i habs
    exact ⟨workingPlace, h, fun u => by
      rw [if_neg hvalid, if_neg hlong, if_neg hempty, if_neg habs]⟩

theorem follow_put (h : Tells place (t.follow path components)) :
    (t.put place (.file bytes)).follow path components = .ok (.file place bytes) := by
  obtain ⟨cs, hroot, hfollow⟩ := follow_cases h
  rw [hfollow]
  exact Directory.follow_put .root hroot

theorem tells_find (h : Tells place (t.findForWriting path)) : Tells place (t.find path) := by
  unfold findForWriting at h
  split at h
  · obtain ⟨cs, hroot, -⟩ := follow_cases h
    rw [← List.append_assoc] at hroot
    exact absurd hroot (Directory.not_tells_dot .root)
  · exact h

theorem find_write (h : t.write path bytes = .ok t') :
    ∃ place, t'.find path = .ok (.file place bytes) := by
  obtain ⟨place, htells, rfl⟩ : ∃ place, Tells place (t.findForWriting path) ∧
      t.put place (.file bytes) = t' := by
    unfold write at h
    cases hfind : t.findForWriting path with
    | error e =>
      rw [hfind] at h
      cases h
    | ok target =>
      rw [hfind] at h
      cases target with
      | directory => cases h
      | file place old =>
        cases h
        exact ⟨place, Or.inr ⟨old, rfl⟩, rfl⟩
      | missing place =>
        cases h
        exact ⟨place, Or.inl rfl, rfl⟩
  exact ⟨place, follow_put (tells_find htells)⟩

end FileTree

namespace Session

variable {β γ : Type} {clock clock' : ℕ → Duration} {w w' : World} {path text : String}

/-- **A file** that was written is read back unchanged. -/
theorem readFrom_writeTo {t t' : FileTree} {bytes : ByteArray}
    (h : writeTo t path bytes = (.ok (), t')) : readFrom t' path = .ok bytes := by
  obtain ⟨u, hwrite⟩ : ∃ u : FileTree, u.write path bytes = .ok t' := by
    unfold writeTo at h
    dsimp only at h
    split at h
    · cases h
    · rename_i u _
      split at h
      · cases h
      · rename_i u' hwrite
        cases h
        exact ⟨u, hwrite⟩
  obtain ⟨place, hfind⟩ := FileTree.find_write hwrite
  rw [readFrom, hfind]

theorem simulate_bind (x : Session β) (f : β → Session γ) : (x.bind f).simulate clock w =
    (f (x.simulate clock w).1).simulate clock (x.simulate clock w).2 := by
  induction x generalizing w with
  | done b => rfl
  | look next ih => exact ih _
  | read path next ih => exact ih _
  | write path bytes next ih => exact ih _
  | print text next ih => exact ih

theorem fromUTF8?_toUTF8 (s : String) : String.fromUTF8? s.toUTF8 = some s :=
  dif_pos s.isValidUTF8

theorem simulate_readText (h : (writeText path text).simulate clock w = (.ok (), w')) :
    (readText path).simulate clock' w' = (.ok text, w') := by
  rw [writeText, simulate] at h
  generalize hwrite : writeTo w.files path text.toUTF8 = r at h
  obtain ⟨r, files⟩ := r
  obtain ⟨rfl, rfl⟩ := Prod.mk.inj h
  rw [readText, simulate]
  dsimp only
  rw [readFrom_writeTo hwrite, simulate]
  simp only [bind, Except.bind, fromUTF8?_toUTF8]
  rfl

end Session

end LinProg
