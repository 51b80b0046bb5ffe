import Multitape.FileTree
import Multitape.Proofs.Except
import Mathlib.Data.List.Nodup

/-!
Paths in a tree of files. The path of an entry is the path of its directory and one step more
(`steps_join`), and a walk along the steps ends with this step, wherever it has led until then
(`walk_concat`). So what is found at the path of an entry is the entry, unless the path has become
too long (`find_join`), and then not even a directory is seen to be one (`isDirectory_join`).

Trees are alike if they hold the same files and directories under the same names, in whatever order
they list them (`Alike`); so they are if one lists a directory in another order (`alike_of_perm`).
What a walk finds in them is alike again (`walk_alike`).
-/

set_option autoImplicit false
set_option relaxedAutoImplicit false

namespace Multitape.FileTree

/-! ### Steps -/

theorem stepsFrom_append (begun front rest : List Char) :
    stepsFrom begun (front ++ '/' :: rest) = stepsFrom begun front ++ stepsFrom [] rest := by
  induction front generalizing begun with
  | nil => rfl
  | cons c front ih =>
    by_cases hc : c = '/'
    · rw [List.cons_append, stepsFrom, if_pos hc, stepsFrom, if_pos hc, ih, List.cons_append]
    · rw [List.cons_append, stepsFrom, if_neg hc, stepsFrom, if_neg hc, ih]

theorem stepsFrom_of_unparted {begun name : List Char} (h : '/' ∉ name) :
    stepsFrom begun name = [String.ofList (begun.reverse ++ name)] := by
  induction name generalizing begun with
  | nil => rw [stepsFrom, List.append_nil]
  | cons c name ih =>
    obtain ⟨hc, hname⟩ := not_or.1 (List.mem_cons.not.1 h)
    rw [stepsFrom, if_neg (Ne.symm hc), ih hname, List.reverse_cons, List.append_assoc,
      List.singleton_append]

/-- A name that an entry of a directory can have. -/
structure IsEntryName (name : String) : Prop where
  nonempty : name ≠ ""
  dot : name ≠ "."
  dots : name ≠ ".."
  slash : '/' ∉ name.toList
  null : Char.ofNat 0 ∉ name.toList
  short : name.utf8ByteSize ≤ maxNameBytes

variable {name path : String}

theorem IsEntryName.not_absolute (h : IsEntryName name) : isAbsolute name = false := by
  rw [isAbsolute, beq_eq_false_iff_ne]
  exact fun hhead ↦ h.slash (List.mem_of_mem_head? hhead)

/-- A name that is followed from a directory adds its step to those of the directory, of which an
empty one at the end falls away. -/
theorem steps_join (path : String) : ∃ front : List String,
    (steps path = front ∨ steps path = front ++ [""]) ∧
      ∀ name, IsEntryName name → steps (join path name) = front ++ [name] := by
  have hname : ∀ {name : String}, IsEntryName name → stepsFrom [] name.toList = [name] := by
    intro name h
    rw [stepsFrom_of_unparted h.slash, List.reverse_nil, List.nil_append, String.ofList_toList]
  by_cases hempty : path = ""
  · refine ⟨[], .inr (by rw [hempty]; rfl), fun name h ↦ ?_⟩
    rw [join, if_pos (by simp [hempty]), steps, hname h, List.nil_append]
  · by_cases hslash : path.toList.getLast? = some '/'
    · obtain ⟨front, hfront⟩ := List.getLast?_eq_some_iff.1 hslash
      refine ⟨stepsFrom [] front, .inr ?_, fun name h ↦ ?_⟩
      · rw [steps, hfront, stepsFrom_append, stepsFrom]
        rfl
      · rw [join, if_neg (by simp [h.not_absolute, hempty]), if_pos (by simp [hslash]), steps,
          String.toList_append, hfront, List.append_assoc, List.singleton_append,
          stepsFrom_append, hname h]
    · refine ⟨steps path, .inl rfl, fun name h ↦ ?_⟩
      have htext : (path ++ "/" ++ name).toList = path.toList ++ '/' :: name.toList := by
        simp [String.toList_append]
      rw [join, if_neg (by simp [h.not_absolute, hempty]), if_neg (by simp [hslash]), steps, htext,
        stepsFrom_append, hname h, steps]

theorem join_ne_empty (path : String) (h : IsEntryName name) : join path name ≠ "" := by
  unfold join
  split_ifs <;> simp [h.nonempty]

theorem null_notMem_join (hpath : Char.ofNat 0 ∉ path.toList) (h : IsEntryName name) :
    Char.ofNat 0 ∉ (join path name).toList := by
  unfold join
  split_ifs
  · exact h.null
  · simp [hpath, h.null]
  · simp [hpath, h.null]

/-! ### Walks -/

variable {here root : FileTree} {enclosing : List FileTree} {entries : List (String × FileTree)}

/-- The outermost directory encloses itself. -/
def around (here : FileTree) : List FileTree → FileTree × List FileTree
  | [] => (here, [])
  | outer :: more => (outer, more)

theorem walk_directory (step : String) (rest : List String) :
    walk enclosing (.directory entries) (step :: rest) =
      if staysIn step then walk enclosing (.directory entries) rest
      else if step = ".." then
        walk (around (.directory entries) enclosing).2 (around (.directory entries) enclosing).1
          rest
      else if maxNameBytes < step.utf8ByteSize then .error .nameTooLong
      else match entries.lookup step with
        | none => .error .missing
        | some next => walk (.directory entries :: enclosing) next rest := by
  cases enclosing <;> rfl

/-- Takes one step, other than two dots. -/
def enter (step : String) : FileTree → Except PathFault FileTree
  | .file _ => .error .notADirectory
  | .directory entries =>
    if staysIn step then .ok (.directory entries)
    else match entries.lookup step with
      | none => .error .missing
      | some next => .ok next

/-- A walk that ends with a step takes the step where it has led until then. -/
theorem walk_concat {step : String} (dots : step ≠ "..") (short : step.utf8ByteSize ≤ maxNameBytes)
    (front : List String) :
    walk enclosing here (front ++ [step]) = walk enclosing here front >>= enter step := by
  induction front generalizing enclosing here with
  | nil =>
    rw [List.nil_append]
    cases here with
    | file bytes => rfl
    | directory entries =>
      change walk _ _ _ = enter step (.directory entries)
      have hshort : ¬ maxNameBytes < step.utf8ByteSize := by omega
      rw [walk_directory, enter, if_neg dots, if_neg hshort]
      split_ifs
      · rfl
      · cases entries.lookup step <;> rfl
  | cons first front ih =>
    rw [List.cons_append]
    cases here with
    | file bytes => rfl
    | directory entries =>
      rw [walk_directory, walk_directory]
      split_ifs
      · exact ih
      · exact ih
      · rfl
      · cases entries.lookup first with
        | none => rfl
        | some next => exact ih

/-- From the root it makes no difference whether a path is absolute. -/
theorem find_eq (root : FileTree) (path : String) : root.find path =
    if path = "" then .error .missing
    else if path.toList.contains (Char.ofNat 0) then .error .nullInPath
    else if maxPathBytes < path.utf8ByteSize then .error .nameTooLong
    else root.walk [] (steps path) := by
  simp only [find, findFrom, List.nil_append, ite_self]

theorem find_eq_ok_iff {found : FileTree} : root.find path = .ok found ↔
    path ≠ "" ∧ Char.ofNat 0 ∉ path.toList ∧ path.utf8ByteSize ≤ maxPathBytes ∧
      root.walk [] (steps path) = .ok found := by
  rw [find_eq]
  split_ifs with hempty hnull hlong
  · simp [hempty]
  · simp [List.elem_iff.1 hnull]
  · simp [show ¬ path.utf8ByteSize ≤ maxPathBytes by omega]
  · simp [hempty, mt List.elem_iff.2 hnull, show path.utf8ByteSize ≤ maxPathBytes by omega]

theorem list_eq_ok_iff : root.list path = .ok entries ↔
    root.find path = .ok (.directory entries) := by
  unfold list
  cases root.find path with
  | error fault => simp [bind, Except.bind]
  | ok found => cases found <;> simp [bind, Except.bind, pure, Except.pure]

theorem mem_of_lookup_eq_some {tree : FileTree} (h : entries.lookup name = some tree) :
    (name, tree) ∈ entries := by
  obtain ⟨before, behind, rfl, -⟩ := List.lookup_eq_some_iff.1 h
  exact List.mem_append_right before List.mem_cons_self

theorem lookup_eq_none_iff_notMem : entries.lookup name = none ↔ name ∉ entries.map Prod.fst := by
  rw [List.lookup_eq_none_iff]
  constructor
  · intro h hmem
    obtain ⟨entry, hentry, rfl⟩ := List.mem_map.1 hmem
    simpa using h entry hentry
  · intro h entry hentry
    rw [bne_iff_ne]
    rintro rfl
    exact h (List.mem_map_of_mem hentry)

/-- The entries of a directory have names that entries can have, each its own. -/
structure WellNamed (entries : List (String × FileTree)) : Prop where
  distinct : (entries.map Prod.fst).Nodup
  names : ∀ entry ∈ entries, IsEntryName entry.1

theorem eq_of_mem_of_distinct {tree tree' : FileTree} (distinct : (entries.map Prod.fst).Nodup)
    (h : (name, tree) ∈ entries) (h' : (name, tree') ∈ entries) : tree = tree' :=
  congrArg Prod.snd (List.inj_on_of_nodup_map distinct h h' rfl)

theorem lookup_eq_some_of_mem {tree : FileTree} (distinct : (entries.map Prod.fst).Nodup)
    (h : (name, tree) ∈ entries) : entries.lookup name = some tree := by
  cases hlookup : entries.lookup name with
  | none => exact absurd (List.mem_map_of_mem h) (lookup_eq_none_iff_notMem.1 hlookup)
  | some other => rw [eq_of_mem_of_distinct distinct h (mem_of_lookup_eq_some hlookup)]

/-- At the path of an entry the entry is found, unless the path is too long. -/
theorem find_join {tree : FileTree} (hlist : root.list path = .ok entries)
    (named : WellNamed entries) (h : (name, tree) ∈ entries) : root.find (join path name) =
      if maxPathBytes < (join path name).utf8ByteSize then .error .nameTooLong else .ok tree := by
  have hname : IsEntryName name := named.names _ h
  obtain ⟨-, hnull, -, hwalk⟩ := find_eq_ok_iff.1 (list_eq_ok_iff.1 hlist)
  obtain ⟨front, hsteps, hjoin⟩ := steps_join path
  have hfront : root.walk [] front = .ok (.directory entries) := by
    rcases hsteps with hsteps | hsteps
    · rwa [hsteps] at hwalk
    · rw [hsteps, walk_concat (by decide) (by decide)] at hwalk
      obtain ⟨found, hfound, hstay⟩ := bind_eq_ok_iff.1 hwalk
      cases found with
      | file bytes => cases hstay
      | directory entries' => rw [hfound]; exact hstay
  have hstays : staysIn name = false := by
    simp [staysIn, hname.nonempty, hname.dot]
  have henter : root.walk [] (steps (join path name)) = .ok tree := by
    rw [hjoin name hname, walk_concat hname.dots hname.short, hfront]
    change enter name (.directory entries) = _
    rw [enter, if_neg (by simp [hstays]), lookup_eq_some_of_mem named.distinct h]
  split_ifs with hlong
  · rw [find_eq, if_neg (join_ne_empty path hname),
      if_neg (by simpa using null_notMem_join hnull hname), if_pos hlong]
  · exact find_eq_ok_iff.2
      ⟨join_ne_empty path hname, null_notMem_join hnull hname, by omega, henter⟩

theorem isDirectory_iff :
    root.isDirectory path = true ↔ ∃ inside, root.find path = .ok (.directory inside) := by
  unfold isDirectory
  split
  · next inside hfound => exact ⟨fun _ ↦ ⟨inside, hfound⟩, fun _ ↦ rfl⟩
  · next hnone => exact ⟨nofun, fun ⟨inside, hfound⟩ ↦ absurd hfound (hnone inside)⟩

/-- An entry is seen to be a directory if it is one and its path is not too long. -/
theorem isDirectory_join {tree : FileTree} (hlist : root.list path = .ok entries)
    (named : WellNamed entries) (h : (name, tree) ∈ entries) :
    root.isDirectory (join path name) = true ↔
      (∃ inside, tree = .directory inside) ∧ (join path name).utf8ByteSize ≤ maxPathBytes := by
  rw [isDirectory_iff, find_join hlist named h]
  split_ifs with hlong
  · exact ⟨nofun, fun ⟨_, hfits⟩ ↦ absurd hfits (by omega)⟩
  · simp only [Except.ok.injEq, show (join path name).utf8ByteSize ≤ maxPathBytes by omega,
      and_true]

/-! ### Listing order -/

/-- The trees hold the same files and directories under the same names, in whatever order they list
them. -/
inductive Alike : FileTree → FileTree → Prop
  | file (bytes : ByteArray) : Alike (.file bytes) (.file bytes)
  | directory {entries entries' : List (String × FileTree)}
    (names : ∀ name, name ∈ entries.map Prod.fst ↔ name ∈ entries'.map Prod.fst)
    (inside : ∀ name tree tree', (name, tree) ∈ entries → (name, tree') ∈ entries' →
      Alike tree tree') : Alike (.directory entries) (.directory entries')

/-- Under a name both directories have no entry, or both have one and these are alike. -/
theorem lookup_alike {entries entries' : List (String × FileTree)}
    (h : Alike (.directory entries) (.directory entries')) (name : String) :
    (entries.lookup name = none ∧ entries'.lookup name = none) ∨
      ∃ tree tree', entries.lookup name = some tree ∧ entries'.lookup name = some tree' ∧
        Alike tree tree' := by
  cases h with
  | directory names inside =>
    have hnone : entries.lookup name = none ↔ entries'.lookup name = none := by
      rw [lookup_eq_none_iff_notMem, lookup_eq_none_iff_notMem, names]
    cases hlookup : entries.lookup name with
    | none => exact .inl ⟨rfl, hnone.1 hlookup⟩
    | some tree =>
      cases hlookup' : entries'.lookup name with
      | none =>
        rw [hnone.2 hlookup'] at hlookup
        cases hlookup
      | some tree' =>
        exact .inr ⟨tree, tree', rfl, rfl, inside name tree tree' (mem_of_lookup_eq_some hlookup)
          (mem_of_lookup_eq_some hlookup')⟩

/-- A directory that lists its entries in another order is alike. -/
theorem alike_of_perm {entries entries' : List (String × FileTree)} (perm : entries.Perm entries')
    (distinct : (entries.map Prod.fst).Nodup) (inside : ∀ entry ∈ entries, Alike entry.2 entry.2) :
    Alike (.directory entries) (.directory entries') := by
  refine .directory (fun name ↦ (perm.map Prod.fst).mem_iff) fun name tree tree' h h' ↦ ?_
  obtain rfl := eq_of_mem_of_distinct distinct h (perm.mem_iff.2 h')
  exact inside _ h

/-- What is found is the same fault, or trees that are alike. -/
def SameFound (found found' : Except PathFault FileTree) : Prop :=
  (∃ fault, found = .error fault ∧ found' = .error fault) ∨
    ∃ tree tree', found = .ok tree ∧ found' = .ok tree' ∧ Alike tree tree'

theorem sameFound_error (fault : PathFault) : SameFound (.error fault) (.error fault) :=
  .inl ⟨fault, rfl, rfl⟩

theorem around_alike {here here' : FileTree} {enclosing enclosing' : List FileTree}
    (h : Alike here here') (enclosed : List.Forall₂ Alike enclosing enclosing') :
    Alike (around here enclosing).1 (around here' enclosing').1 ∧
      List.Forall₂ Alike (around here enclosing).2 (around here' enclosing').2 := by
  cases enclosed with
  | nil => exact ⟨h, .nil⟩
  | cons houter hmore => exact ⟨houter, hmore⟩

theorem walk_alike {here here' : FileTree} {enclosing enclosing' : List FileTree}
    (h : Alike here here') (enclosed : List.Forall₂ Alike enclosing enclosing')
    (steps : List String) :
    SameFound (walk enclosing here steps) (walk enclosing' here' steps) := by
  -- The directories on the way stay alike as well, since two dots lead back to them.
  induction steps generalizing here here' enclosing enclosing' with
  | nil => exact .inr ⟨here, here', by cases here <;> rfl, by cases here' <;> rfl, h⟩
  | cons step rest ih =>
    cases h with
    | file bytes => exact sameFound_error _
    | @directory entries entries' names inside =>
      have hhere : Alike (.directory entries) (.directory entries') := .directory names inside
      rw [walk_directory, walk_directory]
      split_ifs
      · exact ih hhere enclosed
      · obtain ⟨houter, hmore⟩ := around_alike hhere enclosed
        exact ih houter hmore
      · exact sameFound_error _
      · rcases lookup_alike hhere step with ⟨hnone, hnone'⟩ | ⟨next, next', hnext, hnext', halike⟩
        · rw [hnone, hnone']
          exact sameFound_error _
        · rw [hnext, hnext']
          exact ih halike (.cons hhere enclosed)

theorem find_alike {root root' : FileTree} (h : Alike root root') (path : String) :
    SameFound (root.find path) (root'.find path) := by
  rw [find_eq, find_eq]
  split_ifs
  · exact sameFound_error _
  · exact sameFound_error _
  · exact sameFound_error _
  · exact walk_alike h .nil _

theorem read_alike {root root' : FileTree} (h : Alike root root') (path : String) :
    root.read path = root'.read path := by
  change (root.find path >>= _) = (root'.find path >>= _)
  rcases find_alike h path with ⟨fault, hfound, hfound'⟩ | ⟨tree, tree', hfound, hfound', halike⟩
  · rw [hfound, hfound']
  · rw [hfound, hfound']
    cases halike <;> rfl

theorem isDirectory_alike {root root' : FileTree} (h : Alike root root') (path : String) :
    root.isDirectory path = root'.isDirectory path := by
  unfold isDirectory
  rcases find_alike h path with ⟨fault, hfound, hfound'⟩ | ⟨tree, tree', hfound, hfound', halike⟩
  · rw [hfound, hfound']
  · rw [hfound, hfound']
    cases halike <;> rfl

/-- In trees that are alike, a path leads to the same fault, or to entries that are alike. -/
theorem list_alike {root root' : FileTree} (h : Alike root root') (path : String) :
    (∃ fault, root.list path = .error fault ∧ root'.list path = .error fault) ∨
      ∃ entries entries', root.list path = .ok entries ∧ root'.list path = .ok entries' ∧
        Alike (.directory entries) (.directory entries') := by
  unfold list
  rcases find_alike h path with ⟨fault, hfound, hfound'⟩ | ⟨tree, tree', hfound, hfound', halike⟩
  · exact .inl ⟨fault, by rw [hfound]; rfl, by rw [hfound']; rfl⟩
  · rw [hfound, hfound']
    cases halike with
    | file bytes => exact .inl ⟨_, rfl, rfl⟩
    | directory names inside => exact .inr ⟨_, _, rfl, rfl, .directory names inside⟩

end Multitape.FileTree
