import ClassPrune.FileTree
import Mathlib.Data.List.Basic

/-!
# Files that were written

What is written at a path can be read there. Writing adds a place that was no directory, so
everything on the way to it is found as before.

- `FileTree.target_sound`: where a file can be written.
- `FileTree.follow_of_directories`: a way that ends in a directory is not changed by a new file.
- `FileTree.read_write`: a written file reads as it was written.

Paths are followed one name at a time, and a name is only looked up in a directory. That is why a
new file cannot get in the way of anything that was reached before, even where paths go up and down
again.
-/

namespace ClassPrune

namespace FileTree

variable {t : FileTree}

/-! ## Following paths -/

/-- A name leads from a directory to a directory. -/
def Enters (t : FileTree) (place : Location) (name : String) : Prop :=
  (name = "" ∨ name = "." ∨ name = "..") ∨
    isLong name = false ∧ t.node? (place.step name) = some .directory

/-- A way goes on through every directory. -/
theorem follow_of_enters {place : Location} {name : String} (h : t.Enters place name)
    (rest : List String) : t.follow place (name :: rest) = t.follow (place.step name) rest := by
  rw [follow]
  rcases h with hdots | ⟨hlong, hnode⟩
  · rw [if_pos hdots]
  · rw [hnode, hlong]
    exact ite_self _

/-- A way that ends in a directory leads through directories. -/
theorem enters_of_follow {place around : Location} {name : String} {rest : List String}
    (h : t.follow place (name :: rest) = .ok (.directory around)) : t.Enters place name := by
  rw [follow] at h
  by_cases hdots : name = "" ∨ name = "." ∨ name = ".."
  · exact .inl hdots
  rw [if_neg hdots] at h
  cases hlong : isLong name with
  | true =>
    rw [hlong, if_pos rfl] at h
    cases h
  | false =>
    rw [hlong, if_neg Bool.false_ne_true] at h
    cases hnode : t.node? (place.step name) with
    | none =>
      simp only [hnode] at h
      split at h <;> cases h
    | some node =>
      cases node with
      | file data =>
        simp only [hnode] at h
        split at h <;> cases h
      | directory => exact .inr ⟨hlong, hnode⟩

/-- A path is followed from the directory that its first names lead to. -/
theorem follow_append {place around : Location} {names : List String}
    (h : t.follow place names = .ok (.directory around)) (rest : List String) :
    t.follow place (names ++ rest) = t.follow around rest := by
  induction names generalizing place with
  | nil =>
    cases h
    rfl
  | cons name names ih =>
    have henters := enters_of_follow h
    rw [follow_of_enters henters] at h
    rw [List.cons_append, follow_of_enters henters, ih h]

/-- A tree with the same directories is followed to them in the same way. -/
theorem follow_of_directories {t' : FileTree} (ht : ∀ place, t.node? place = some .directory →
      t'.node? place = some .directory) {place around : Location} {names : List String}
    (h : t.follow place names = .ok (.directory around)) :
    t'.follow place names = .ok (.directory around) := by
  induction names generalizing place with
  | nil => exact h
  | cons name names ih =>
    have henters := enters_of_follow h
    rw [follow_of_enters henters] at h
    rw [follow_of_enters (henters.imp_right (And.imp_right (ht _))), ih h]

/-! ## A new file -/

variable {place : Location} {data : Bytes}

/-- Replacing the contents of a file does not change those of another. -/
theorem lookup_replace (files : List (Location × Bytes)) (place other : Location) (data : Bytes) :
    (files.map fun (p, old) => if p = place then (p, data) else (p, old)).lookup other
      = if other = place then (files.lookup other).map fun _ => data else files.lookup other := by
  induction files with
  | nil => simp
  | cons file files ih =>
    obtain ⟨p, old⟩ := file
    have hfst : (if p = place then (p, data) else (p, old))
        = (p, if p = place then data else old) := by
      split <;> rfl
    simp only [List.map_cons, hfst, List.lookup_cons, ih]
    by_cases hother : other = p
    · subst hother
      by_cases hplace : other = place <;> simp [hplace]
    · simp [beq_false_of_ne hother]

/-- After a file was put at a place it is found there, and the other files are as before. -/
theorem lookup_put (t : FileTree) (place other : Location) (data : Bytes) :
    (t.put place data).files.lookup other
      = if other = place then some data else t.files.lookup other := by
  rw [put]
  split
  · rename_i hsome
    rw [lookup_replace]
    split
    · rename_i heq
      obtain ⟨old, hold⟩ := Option.isSome_iff_exists.mp hsome
      rw [heq, hold, Option.map_some]
    · rfl
  · rename_i hnone
    rw [List.lookup_append]
    split
    · rename_i heq
      rw [heq, Option.not_isSome_iff_eq_none.mp hnone, Option.none_or, List.lookup_cons_self]
    · rename_i hne
      simp [List.lookup_cons, beq_false_of_ne hne]

theorem isDirectory_put {other : Location} (h : t.isDirectory other = true) :
    (t.put place data).isDirectory other = true := by
  have hfiles : t.files.any (fun (p, _) => other.isPrefixOf p && p.length > other.length) = true →
      (t.put place data).files.any (fun (p, _) => other.isPrefixOf p && p.length > other.length)
        = true := by
    intro hany
    rw [put]
    split
    · rw [List.any_map]
      refine List.any_eq_true.mpr ?_
      obtain ⟨file, hfile, hprefix⟩ := List.any_eq_true.mp hany
      refine ⟨file, hfile, ?_⟩
      simp only [Function.comp_apply]
      split <;> exact hprefix
    · rw [List.any_append, hany, Bool.true_or]
  rw [isDirectory, Bool.or_eq_true] at h ⊢
  exact h.imp_right hfiles

theorem node?_put_self (t : FileTree) (place : Location) (data : Bytes) :
    (t.put place data).node? place = some (.file data) := by
  rw [node?, lookup_put, if_pos rfl]

/-- A new file stands in the place of no directory, and hides none. -/
theorem node?_put_of_directory {other : Location} (hplace : t.node? place ≠ some .directory)
    (h : t.node? other = some .directory) :
    (t.put place data).node? other = some .directory := by
  have hne : other ≠ place := by
    rintro rfl
    exact hplace h
  rw [node?] at h ⊢
  rw [lookup_put, if_neg hne]
  cases hlookup : t.files.lookup other with
  | some old => simp [hlookup] at h
  | none =>
    rw [hlookup] at h
    split_ifs at h with hdirectory
    simp [isDirectory_put hdirectory]

/-! ## Writing -/

/-- A name can be taken by a file when it is a proper name, is not too long and does not name a
directory. -/
theorem vacancy_sound {around : Location} {name : String} {slashed : Bool}
    (h : t.vacancy around name slashed = .ok place) : slashed = false ∧
      ¬(name = "" ∨ name = "." ∨ name = "..") ∧ isLong name = false ∧
      t.node? place ≠ some .directory ∧ place = around ++ [name] := by
  rw [vacancy] at h
  split_ifs at h with hname hlong hnode
  cases h
  rw [not_or, Bool.not_eq_true] at hname
  exact ⟨hname.1, hname.2, Bool.not_eq_true _ ▸ hlong, hnode, rfl⟩

/-- Where a file is written: into a directory, under a name of its own, in the place of no
directory. -/
theorem target_sound {base : Location} {path : String} (h : t.target base path = .ok place) :
    refused? path = none ∧ t.node? place ≠ some .directory ∧
    ∃ parents last around, Location.names path = parents ++ [last] ∧
      t.follow (Location.start base path) parents = .ok (.directory around) ∧
      place = around ++ [last] ∧ ¬(last = "" ∨ last = "." ∨ last = "..") ∧ isLong last = false := by
  rw [target] at h
  split at h
  · cases h
  rename_i hrefused
  refine ⟨hrefused, ?_⟩
  simp only at h
  split at h
  · rename_i around hfollow
    obtain ⟨hslashed, hlast, hlong, hnode, hplace⟩ := vacancy_sound h
    -- no slash is behind the last name, so the others are in front of it
    rw [Bool.not_eq_false', List.isEmpty_iff] at hslashed
    rw [hslashed, List.length_nil, List.drop_zero] at hfollow hlast hlong hplace
    refine ⟨hnode, _, _, around, ?_, hfollow, hplace, hlast, hlong⟩
    cases hbackwards : (Location.names path).reverse with
    | nil =>
      rw [hbackwards] at hlast
      exact absurd (.inl rfl) hlast
    | cons last backwards =>
      exact List.reverse_eq_cons_iff.mp hbackwards
  all_goals cases h

/-- **A written file reads as it was written.** -/
theorem read_write {t' : FileTree} {base : Location} {path : String}
    (h : t.write base path data = .ok t') : t'.read base path = .ok data := by
  rw [write] at h
  cases htarget : t.target base path with
  | error error =>
    rw [htarget] at h
    cases h
  | ok place =>
    rw [htarget] at h
    cases h
    obtain ⟨hrefused, hplace, parents, last, around, hnames, hparents, rfl, hlast, hlong⟩ :=
      target_sound htarget
    have hway : (t.put (around ++ [last]) data).follow (Location.start base path) parents
        = .ok (.directory around) :=
      follow_of_directories (fun _ hother => node?_put_of_directory hplace hother) hparents
    have hstep : around.step last = around ++ [last] := by
      rw [Location.step, if_neg (by tauto), if_neg (by tauto)]
    rw [read, hrefused, hnames]
    simp [follow_append hway, follow, hlast, hlong, hstep, node?_put_self]

end FileTree

end ClassPrune
