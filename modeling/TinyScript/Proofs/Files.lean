import TinyScript.Files
import TinyScript.Proofs.Except

/-!
# What operations on files change

An operation only adds directories that were missing on the way to one, and files that are named.

* `Path.place`               where a path leads if everything on its way is a directory
* `Path.place_join`          an entry of a directory is one step behind it
* `Path.OnWay`               the places on the way to a path
* `FileTree.Changed`         what two trees differ in: directories made, and files written
* `FileTree.makeFirst_changed`, `FileTree.write_ok`   single operations
-/

namespace TinyScript

namespace Path

/-- the place of some steps, all but the last of which lead to directories -/
def placeOf (steps : List String) : List String := steps.foldl FileTree.move []

def place (path : String) : List String := placeOf (steps path)

/-- the places on the way to a path, with its own place at the end -/
def OnWay (path : String) (x : List String) : Prop := ∃ first, first <+: steps path ∧ x = placeOf first

/-! ### Paths in a directory -/

theorem parts_append_slash (current cs ds : List Char) :
    parts current (cs ++ '/' :: ds) = parts current cs ++ parts [] ds := by
  fun_induction parts current cs with
  | case1 current => rfl
  | case2 current cs ih => exact congrArg (_ :: ·) ih
  | case3 current c cs hc ih => rw [List.cons_append, parts.eq_3 _ _ _ hc, ih]

theorem parts_of_no_slash {cs : List Char} (h : '/' ∉ cs) (current : List Char) :
    parts current cs = [String.ofList (current.reverse ++ cs)] := by
  induction cs generalizing current with
  | nil => rw [parts, List.append_nil]
  | cons c cs ih =>
    have hc : c ≠ '/' := fun heq => h (heq ▸ List.mem_cons_self)
    rw [parts.eq_3 _ _ _ hc, ih (fun hmem => h (List.mem_cons_of_mem c hmem)),
      List.reverse_cons, List.append_assoc, List.singleton_append]

/-- a name that leads from a directory to an entry of it -/
structure IsName (name : String) : Prop where
  ne_empty : name ≠ ""
  no_slash : '/' ∉ name.toList
  not_current : name ≠ "."
  not_up : name ≠ upStep

variable {directory name : String}

theorem toList_join (directory name : String) : ∃ path, (join directory name).toList =
    path ++ '/' :: name.toList ∧
      (directory.toList = path ++ ['/'] ∨ directory.toList = path) := by
  unfold join endsInSlash
  split
  · next hslash =>
    obtain ⟨path, hpath⟩ := List.getLast?_eq_some_iff.mp (beq_iff_eq.mp hslash)
    refine ⟨path, ?_, .inl hpath⟩
    rw [String.toList_append, hpath, List.append_assoc, List.singleton_append]
  · refine ⟨directory.toList, ?_, .inr rfl⟩
    rw [String.toList_append, String.toList_append, List.append_assoc]
    rfl

/-- A directory has a name, or else the name of the entry would follow a slash at the root. -/
theorem steps_join (hd : directory ≠ "") (hname : IsName name) :
    steps (join directory name) = steps directory ++ [name] := by
  obtain ⟨path, hjoin, hpath⟩ := toList_join directory name
  have hparts : (parts [] (join directory name).toList).filter (· ≠ "") =
      (parts [] directory.toList).filter (· ≠ "") ++ [name] := by
    have hlast : (parts [] name.toList).filter (· ≠ "") = [name] := by
      rw [parts_of_no_slash hname.no_slash, List.reverse_nil, List.nil_append, String.ofList_toList,
        List.filter_eq_self]
      exact fun n hn => decide_eq_true (List.mem_singleton.mp hn ▸ hname.ne_empty)
    have hempty : (parts [] []).filter (· ≠ "") = [] := rfl
    rw [hjoin, parts_append_slash, List.filter_append, hlast]
    rcases hpath with hpath | hpath
    · rw [hpath, parts_append_slash, List.filter_append, hempty, List.append_nil]
    · rw [hpath]
  have hhead : (join directory name).toList.head? = directory.toList.head? := by
    have hne : directory.toList ≠ [] := fun h => hd (String.toList_eq_nil_iff.mp h)
    rw [hjoin]
    rcases hpath with hpath | hpath
    · rw [hpath, List.head?_append, List.head?_append]
      rfl
    · rw [hpath] at hne ⊢
      obtain ⟨c, cs, rfl⟩ := List.exists_cons_of_ne_nil hne
      rfl
  unfold steps
  rw [hparts, hhead]
  split
  · rfl
  · rfl

theorem place_join (hd : directory ≠ "") (hname : IsName name) :
    place (join directory name) = place directory ++ [name] := by
  unfold place placeOf
  rw [steps_join hd hname, List.foldl_append, List.foldl_cons, List.foldl_nil, FileTree.move,
    if_neg hname.not_current, if_neg hname.not_up]

/-! ### The way to a directory -/

theorem placeOf_filter (steps : List String) : placeOf (steps.filter (· ≠ ".")) = placeOf steps := by
  unfold placeOf
  rw [List.foldl_filter]
  congr
  funext place step
  by_cases h : step = "."
  · simp [FileTree.move, h]
  · simp [h]

theorem exists_prefix_filter {α : Type} (p : α → Bool) (l : List α) (n : Nat) :
    ∃ first, first <+: l ∧ first.filter p = (l.filter p).take n := by
  obtain ⟨rest, hrest⟩ := List.take_prefix n (l.filter p)
  obtain ⟨first, second, hl, hfirst, -⟩ := List.filter_eq_append_iff.mp hrest.symm
  exact ⟨first, ⟨second, hl.symm⟩, hfirst⟩

/-- What is made around a directory is on the way to it. -/
theorem onWay_of_mem_ancestors {path : String} {names : List String} (h : names ∈ ancestors path) :
    OnWay path (placeOf names) := by
  rcases List.mem_cons.mp h with rfl | haround
  · exact ⟨_, List.prefix_rfl, rfl⟩
  · obtain ⟨n, -, rfl⟩ := List.mem_map.mp (List.mem_filter.mp haround).1
    obtain ⟨first, hfirst, htake⟩ := exists_prefix_filter (fun s => decide (s ≠ ".")) (steps path) n
    refine ⟨first, hfirst, ?_⟩
    rw [← placeOf_filter first, htake]

end Path

namespace FileTree

variable {before tree after : FileTree} {place x : List String}

theorem lookup_setEntry (place x : List String) (e : Entry) (entries : List (List String × Entry)) :
    (setEntry place e entries).lookup x = if x = place then some e else entries.lookup x := by
  induction entries with
  | nil =>
    by_cases hx : x = place
    · simp [setEntry, hx]
    · simp [setEntry, List.lookup_cons, beq_false_of_ne hx, hx]
  | cons entry rest ih =>
    obtain ⟨place', e'⟩ := entry
    by_cases h : place = place'
    · subst h
      by_cases hx : x = place
      · simp [setEntry, hx]
      · simp [setEntry, List.lookup_cons, beq_false_of_ne hx, hx]
    · by_cases hx : x = place
      · subst hx
        simp [setEntry, List.lookup_cons, beq_false_of_ne h, h, ih]
      · simp [setEntry, List.lookup_cons, h, hx, ih]

theorem find?_set_self (h : isGiven place = false) (e : Entry) :
    (tree.set place e).find? place = some e := by
  simp [find?, set, lookup_setEntry, h]

theorem find?_set_of_ne (h : x ≠ place) (e : Entry) :
    (tree.set place e).find? x = tree.find? x := by
  simp [find?, set, lookup_setEntry, h]

theorem isGiven_eq_false (h : tree.find? place ≠ some .directory) : isGiven place = false := by
  cases hg : isGiven place with
  | false => rfl
  | true => exact absurd (if_pos hg) h

theorem walk_eq {start : List String} {steps : List String} (h : tree.walk start steps = .ok place) :
    place = steps.foldl move start := by
  induction steps generalizing start with
  | nil => exact (Except.ok.inj h).symm
  | cons step steps ih =>
    rw [walk] at h
    split at h
    · split at h
      · cases h
      · exact ih h
    · cases h
    · cases h

/-! ### Changes -/

/-- After some operations the files of the list `written` are there, the last one of each place in front.
Every other place is as it was, or it was free and is a directory now; this is so only for the places of
which `made` holds. -/
def Changed (made : List String → Prop) (written : List (List String × ByteArray))
    (before after : FileTree) : Prop :=
  ∀ x, match written.lookup x with
    | some content => after.find? x = some (.file content)
    | none => after.find? x = before.find? x ∨
        made x ∧ before.find? x = none ∧ after.find? x = some .directory

namespace Changed

variable {made : List String → Prop} {written : List (List String × ByteArray)}

theorem refl : Changed made [] tree tree := fun _ => .inl rfl

theorem unwritten (h : Changed made written before after) (hx : written.lookup x = none) :
    after.find? x = before.find? x ∨
      made x ∧ before.find? x = none ∧ after.find? x = some .directory := by
  have := h x
  rwa [hx] at this

theorem file (h : Changed made written before after) {content : ByteArray}
    (hx : written.lookup x = some content) : after.find? x = some (.file content) := by
  have := h x
  rwa [hx] at this

/-- What was written stays when directories are made, as nothing is made where something is. -/
theorem trans (h : Changed made written before tree) (h' : Changed made [] tree after) :
    Changed made written before after := by
  intro x
  rcases h'.unwritten (x := x) rfl with heq | ⟨hmade, hfree, hdirectory⟩
  · rw [heq]
    exact h x
  · cases hx : written.lookup x with
    | some content =>
      rw [h.file hx] at hfree
      cases hfree
    | none =>
      rcases h.unwritten hx with heq | ⟨-, -, hdirectory'⟩
      · exact .inr ⟨hmade, heq ▸ hfree, hdirectory⟩
      · rw [hdirectory'] at hfree
        cases hfree

theorem write (h : Changed made written before tree) (hplace : isGiven place = false)
    (content : ByteArray) :
    Changed made ((place, content) :: written) before (tree.set place (.file content)) := by
  intro x
  by_cases hx : x = place
  · subst hx
    rw [List.lookup_cons_self]
    exact find?_set_self hplace _
  · rw [List.lookup_cons, beq_false_of_ne hx, find?_set_of_ne hx]
    exact h x

theorem mono {more : List String → Prop} (h : Changed made written before after)
    (hsub : ∀ x, made x → more x) : Changed more written before after := by
  intro x
  cases hx : written.lookup x with
  | some content => exact h.file hx
  | none => exact (h.unwritten hx).imp id (And.imp_left (hsub x))

end Changed

/-! ### Single operations -/

theorem makeDirectory_changed {steps : List String} (h : tree.makeDirectory steps = .ok after) :
    Changed (· = Path.placeOf steps) [] tree after := by
  obtain ⟨place, hw, h⟩ := ok_of_bind h
  obtain rfl := walk_eq hw
  split at h
  · cases h
  · next hfree =>
    obtain rfl := Except.ok.inj h
    have hfree : tree.find? (Path.placeOf steps) = none := hfree
    have hplace : isGiven (Path.placeOf steps) = false := by
      refine isGiven_eq_false (?_ : tree.find? (Path.placeOf steps) ≠ some .directory)
      rw [hfree]
      exact nofun
    intro x
    by_cases hx : x = Path.placeOf steps
    · subst hx
      exact .inr ⟨rfl, hfree, find?_set_self hplace _⟩
    · exact .inl (find?_set_of_ne hx _)

theorem makeFirst_changed (tree : FileTree) (around : List (List String)) :
    Changed (fun x => ∃ steps ∈ around, x = Path.placeOf steps) [] tree (tree.makeFirst around).1 := by
  induction around with
  | nil => exact .refl
  | cons steps around ih =>
    -- the directories around are made first, if they are needed
    have haround {t : FileTree} (h : Changed (fun x => ∃ s ∈ around, x = Path.placeOf s) [] tree t) :
        Changed (fun x => ∃ s ∈ steps :: around, x = Path.placeOf s) [] tree t :=
      h.mono fun x ⟨s, hs, hx⟩ => ⟨s, List.mem_cons_of_mem steps hs, hx⟩
    have hmade {t made : FileTree} (h : t.makeDirectory steps = .ok made) :
        Changed (fun x => ∃ s ∈ steps :: around, x = Path.placeOf s) [] t made :=
      (makeDirectory_changed h).mono fun x hx => ⟨steps, List.mem_cons_self, hx⟩
    rw [makeFirst]
    split
    · next made h => exact hmade h
    · split
      · next t h =>
        rw [h] at ih
        split
        · next made h => exact (haround ih).trans (hmade h)
        · exact haround ih
      · next t e h =>
        rw [h] at ih
        exact haround ih
    · exact .refl

theorem makeDirectories_changed (tree : FileTree) (path : String) :
    Changed (Path.OnWay path) [] tree (tree.makeDirectories path).1 := by
  unfold makeDirectories
  split
  · exact (makeFirst_changed tree _).mono fun x ⟨_, hmem, hx⟩ => hx ▸ Path.onWay_of_mem_ancestors hmem
  · exact .refl

theorem write_ok {path : String} {content : ByteArray} (h : tree.write path content = .ok after) :
    isGiven (Path.place path) = false ∧ after = tree.set (Path.place path) (.file content) := by
  obtain ⟨_, -, h⟩ := ok_of_bind h
  obtain ⟨place, hw, h⟩ := ok_of_bind h
  obtain rfl := walk_eq hw
  split at h
  · cases h
  · next hne => exact ⟨isGiven_eq_false hne, (Except.ok.inj h).symm⟩

end FileTree

end TinyScript
