import Multitape.Definition.Load
import Multitape.Proofs.Paths
import Mathlib.Data.List.Sort
import Mathlib.Order.Basic

/-!
Definitions from texts, files and directories. A file that holds the bytes of a text is loaded as
the text is, and neither is parsed if it is too large (`ofFile_toUTF8`). Of a directory the files
whose names have the extension `tm` are told in ascending order, each once
(`mem_definitionNames_iff`), and what is told of a file is what loading it alone gives
(`told_loadDirectory`). A directory among the entries is passed over where it is seen to be one,
which it is unless its path is too long. What is loaded depends on nothing but the path and the
bytes of the file (`load_join`), and so not on the order in which directories list their entries
(`loadDirectory_alike`). `loading_agrees` puts this together.
-/

set_option autoImplicit false
set_option relaxedAutoImplicit false

namespace Multitape.Definition

open FileTree

variable {root : FileTree} {path name : String} {entries : List (String × FileTree)}

/-! ### Texts and files -/

theorem fromUTF8?_toUTF8 (text : String) : String.fromUTF8? text.toUTF8 = some text :=
  dif_pos text.isValidUTF8

/-- A file with the bytes of a text is read as the text, if it is not too large. -/
theorem ofFile_toUTF8 (path text : String) : ofFile path (.ok text.toUTF8) =
    if text.utf8ByteSize > maxDefinitionBytes then .error (.fileTooLarge path text.utf8ByteSize)
    else ofText text := by
  change (if text.utf8ByteSize > maxDefinitionBytes then _ else _) = _
  rw [fromUTF8?_toUTF8, ofText]
  split_ifs
  · rfl
  · rfl

/-! ### Directories -/

/-- The name has the extension: it is what follows the last dot, and something stands before the
dot. -/
def HasExtension (name extension : String) : Prop :=
  ∃ stem : List Char, stem ≠ [] ∧ '.' ∉ extension.toList ∧
    name.toList = stem ++ '.' :: extension.toList

theorem isDefinitionName_iff : isDefinitionName name = true ↔ HasExtension name "tm" := by
  unfold isDefinitionName HasExtension
  rw [Bool.and_eq_true, beq_iff_eq, decide_eq_true_eq]
  constructor
  · rintro ⟨hend, hlength⟩
    refine ⟨(name.toList.reverse.drop 3).reverse, ?_, by decide, ?_⟩
    · intro hnil
      have hshort := congrArg List.length hnil
      rw [List.length_reverse, List.length_drop, List.length_nil] at hshort
      omega
    · have hsplit : name.toList.reverse = ['m', 't', '.'] ++ name.toList.reverse.drop 3 := by
        rw [← hend, List.take_append_drop]
      have hname := congrArg List.reverse hsplit
      rwa [List.reverse_reverse, List.reverse_append] at hname
  · rintro ⟨stem, hstem, -, hname⟩
    have hpos : 0 < stem.length := List.length_pos_iff.2 hstem
    have hreverse : name.toList.reverse = ['m', 't', '.'] ++ stem.reverse := by
      rw [hname, List.reverse_append]
      rfl
    rw [hreverse]
    refine ⟨rfl, ?_⟩
    rw [List.length_append, List.length_reverse]
    change 3 < 3 + stem.length
    omega

/-- The entries that are told have the extension and are files, or directories that cannot be looked
up since their paths are too long. -/
theorem mem_definitionNames_iff (hlist : root.list path = .ok entries) (named : WellNamed entries) :
    name ∈ definitionNames root path entries ↔ HasExtension name "tm" ∧
      ∃ tree, (name, tree) ∈ entries ∧
        ((∃ bytes, tree = .file bytes) ∨ maxPathBytes < (join path name).utf8ByteSize) := by
  have hseen : ∀ {tree : FileTree}, (name, tree) ∈ entries →
      (root.isDirectory (join path name) = false ↔
        (∃ bytes, tree = .file bytes) ∨ maxPathBytes < (join path name).utf8ByteSize) := by
    intro tree h
    rw [← Bool.not_eq_true, isDirectory_join hlist named h, not_and_or, Nat.not_le]
    cases tree <;> simp
  rw [definitionNames, Text.mem_ascending, List.mem_filter, Bool.and_eq_true, Bool.not_eq_true',
    isDefinitionName_iff]
  constructor
  · rintro ⟨hname, hpassed, hextension⟩
    obtain ⟨⟨_, tree⟩, hentry, rfl⟩ := List.mem_map.1 hname
    exact ⟨hextension, tree, hentry, (hseen hentry).1 hpassed⟩
  · rintro ⟨hextension, tree, hentry, htold⟩
    exact ⟨List.mem_map_of_mem (f := Prod.fst) hentry, (hseen hentry).2 htold, hextension⟩

/-- Where no path is too long, exactly the files with the extension are told. -/
theorem mem_definitionNames_iff_of_fits (hlist : root.list path = .ok entries)
    (named : WellNamed entries)
    (fits : ∀ entry ∈ entries, (join path entry.1).utf8ByteSize ≤ maxPathBytes) :
    name ∈ definitionNames root path entries ↔
      HasExtension name "tm" ∧ ∃ bytes, (name, .file bytes) ∈ entries := by
  rw [mem_definitionNames_iff hlist named]
  refine and_congr_right fun _ ↦ ⟨?_, ?_⟩
  · rintro ⟨tree, hentry, ⟨bytes, rfl⟩ | hlong⟩
    · exact ⟨bytes, hentry⟩
    · exact absurd (fits _ hentry) (Nat.not_le.2 hlong)
  · rintro ⟨bytes, hentry⟩
    exact ⟨_, hentry, .inl ⟨bytes, rfl⟩⟩

/-- What is told of a file: its definition and its path if it can be loaded, and a failure about
files if not. -/
structure Told (root : FileTree) (file : String) (result : Except Failure (String × Definition)) :
    Prop where
  loaded : ∀ d, load root file = .ok d → result = .ok (file, d)
  failed : ∀ cause, load root file = .error cause →
    ∃ failure, result = .error failure ∧ failure.tell.kind = .fileError

theorem told_loadDirectory (hlist : root.list path = .ok entries) :
    List.Forall₂ (fun name result ↦ Told root (join path name) result)
      (definitionNames root path entries) (loadDirectory root path) := by
  unfold loadDirectory
  rw [hlist]
  refine List.forall₂_map_right_iff.2 (List.forall₂_same.2 fun name _ ↦ ?_)
  dsimp only
  cases hload : load root (join path name) with
  | ok d =>
    refine ⟨fun d' hd ↦ ?_, fun cause hcause ↦ ?_⟩
    · obtain rfl := Except.ok.inj (hload.symm.trans hd)
      rfl
    · rw [hload] at hcause
      cases hcause
  | error cause =>
    refine ⟨fun d hd ↦ ?_, fun _ _ ↦ ⟨.unloadable (join path name) cause, rfl, rfl⟩⟩
    rw [hload] at hd
    cases hd

/-- What is loaded from an entry of a directory is what its own bytes hold, unless its path is too
long. -/
theorem load_join {bytes : ByteArray} (hlist : root.list path = .ok entries)
    (named : WellNamed entries) (h : (name, .file bytes) ∈ entries) : load root (join path name) =
      ofFile (join path name) (if maxPathBytes < (join path name).utf8ByteSize
        then .error .nameTooLong else .ok bytes) := by
  have hfind := find_join hlist named h
  change ofFile _ (root.find (join path name) >>= _) = _
  rw [hfind]
  split_ifs
  · rfl
  · rfl

/-- The names of the entries that are told do not depend on the order in which a directory lists
them. -/
theorem definitionNames_alike {root root' : FileTree} (h : Alike root root') (path : String)
    {entries entries' : List (String × FileTree)}
    (hentries : Alike (.directory entries) (.directory entries')) :
    definitionNames root path entries = definitionNames root' path entries' := by
  refine List.Pairwise.eq_of_mem_iff (Text.pairwise_ascending _) (Text.pairwise_ascending _)
    fun name ↦ ?_
  cases hentries with
  | directory names inside =>
    simp only [definitionNames, Text.mem_ascending, List.mem_filter, names, isDirectory_alike h]

theorem loadDirectory_alike {root root' : FileTree} (h : Alike root root') (path : String) :
    loadDirectory root path = loadDirectory root' path := by
  have hload : ∀ file, load root file = load root' file := by
    intro file
    rw [load, load, read_alike h]
  unfold loadDirectory
  rcases list_alike h path with ⟨fault, hlist, hlist'⟩ | ⟨entries, entries', hlist, hlist', halike⟩
  · rw [hlist, hlist']
  · simp only [hlist, hlist', definitionNames_alike h path halike, hload]

/-! ### All ways of loading -/

/-- A file that holds the bytes of a text of at most 65536 bytes is loaded as the text is, which is
as it is parsed; of a larger text neither is parsed, and both fail as files do. Of a directory
exactly the files with the extension `tm` are told, in ascending order of their paths: each with its
definition if it can be loaded by itself, and with a failure about files if not. If the path of a
directory among the entries is too long for anything to be found there, it is told like a file. What
is loaded from a file depends on nothing but its path and its bytes, and the order in which
directories list their entries makes no difference. -/
theorem loading_agrees :
    (∀ (root : FileTree) (path text : String), root.read path = .ok text.toUTF8 →
      (text.utf8ByteSize ≤ 65536 → load root path = ofText text ∧
        ofText text = (parse text.toList).mapError .definition) ∧
      (65536 < text.utf8ByteSize →
        load root path = .error (.fileTooLarge path text.utf8ByteSize) ∧
        ofText text = .error (.textTooLarge text.utf8ByteSize) ∧
        (Failure.fileTooLarge path text.utf8ByteSize).tell.kind = .fileError ∧
        (Failure.textTooLarge text.utf8ByteSize).tell.kind = .fileError)) ∧
    (∀ (root : FileTree) (path : String) (entries : List (String × FileTree)),
      root.list path = .ok entries → WellNamed entries →
        (∃ names : List String, names.Pairwise (· < ·) ∧
          (∀ name, name ∈ names ↔ HasExtension name "tm" ∧ ∃ tree, (name, tree) ∈ entries ∧
            ((∃ bytes, tree = .file bytes) ∨ maxPathBytes < (join path name).utf8ByteSize)) ∧
          ((∀ entry ∈ entries, (join path entry.1).utf8ByteSize ≤ maxPathBytes) →
            ∀ name, name ∈ names ↔
              HasExtension name "tm" ∧ ∃ bytes, (name, .file bytes) ∈ entries) ∧
          (∃ front, ∀ name ∈ names, steps (join path name) = front ++ [name]) ∧
          List.Forall₂ (fun name result ↦ Told root (join path name) result) names
            (loadDirectory root path)) ∧
        ∀ name bytes, (name, .file bytes) ∈ entries → load root (join path name) =
          ofFile (join path name) (if maxPathBytes < (join path name).utf8ByteSize
            then .error .nameTooLong else .ok bytes)) ∧
    ∀ (root root' : FileTree) (path : String), Alike root root' →
      loadDirectory root path = loadDirectory root' path := by
  have hlimit : maxDefinitionBytes = 65536 := rfl
  refine ⟨fun root path text hread ↦ ?_, fun root path entries hlist named ↦ ⟨?_, ?_⟩,
    fun root root' path h ↦ loadDirectory_alike h path⟩
  · have hload := ofFile_toUTF8 path text
    rw [← hread] at hload
    change load root path = _ at hload
    constructor
    · intro hsmall
      rw [hload, if_neg (by omega), ofText, if_neg (by omega)]
      exact ⟨rfl, rfl⟩
    · intro hlarge
      rw [hload, if_pos (by omega), ofText, if_pos (by omega)]
      exact ⟨rfl, rfl, rfl, rfl⟩
  · refine ⟨definitionNames root path entries, Text.pairwise_ascending _,
      fun name ↦ mem_definitionNames_iff hlist named,
      fun fits name ↦ mem_definitionNames_iff_of_fits hlist named fits, ?_,
      told_loadDirectory hlist⟩
    obtain ⟨front, -, hjoin⟩ := steps_join path
    refine ⟨front, fun name hname ↦ hjoin name ?_⟩
    obtain ⟨-, tree, hentry, -⟩ := (mem_definitionNames_iff hlist named).1 hname
    exact named.names _ hentry
  · exact fun name bytes h ↦ load_join hlist named h

/-- The entries of a directory that lists two files with the extension `tm`, the greater one first,
a hidden file without an extension and a directory that is named like a file. -/
def shelf (text : String) : List (String × FileTree) :=
  [("b.tm", .file text.toUTF8), (".tm", .file text.toUTF8), ("c.tm", .directory []),
    ("a..tm", .file "start_state = 'q7'".toUTF8)]

theorem wellNamed_shelf (text : String) : WellNamed (shelf text) where
  distinct := by
    change ["b.tm", ".tm", "c.tm", "a..tm"].Nodup
    decide
  names := by
    have hnames : ∀ name ∈ ["b.tm", ".tm", "c.tm", "a..tm"], IsEntryName name := by
      intro name hname
      simp only [List.mem_cons, List.not_mem_nil, or_false] at hname
      rcases hname with rfl | rfl | rfl | rfl <;> constructor <;> decide
    exact fun entry hentry ↦ hnames _ (List.mem_map_of_mem (f := Prod.fst) hentry)

theorem utf8ByteSize_replicate (n : Nat) :
    (String.ofList (List.replicate n 'x')).utf8ByteSize = n := by
  induction n with
  | zero => rfl
  | succ n ih =>
    rw [List.replicate_succ', String.ofList_append, String.utf8ByteSize_append, ih]
    rfl

/-- The two files are told by their names, the smaller one first, whether they are listed so or the
other way round; a file that is too large is not loaded. -/
theorem shelf_loaded :
    load (.directory (shelf "")) "b.tm" = ofText "" ∧
      load (.directory (shelf (String.ofList (List.replicate 65537 'x')))) "b.tm" =
        .error (.fileTooLarge "b.tm" 65537) ∧
      load (.directory (shelf "")) "./a..tm" =
        ofFile "./a..tm" (.ok "start_state = 'q7'".toUTF8) ∧
      (∃ first second, loadDirectory (.directory (shelf "")) "." = [first, second] ∧
        Told (.directory (shelf "")) "./a..tm" first ∧
        Told (.directory (shelf "")) "./b.tm" second) ∧
      loadDirectory (.directory (shelf "")) "." =
        loadDirectory (.directory (shelf "").reverse) "." := by
  obtain ⟨hfile, hdirectory, horder⟩ := loading_agrees
  have hlist : (FileTree.directory (shelf "")).list "." = .ok (shelf "") := rfl
  have hentry : ("a..tm", .file "start_state = 'q7'".toUTF8) ∈ shelf "" := by simp [shelf]
  have hnamed := wellNamed_shelf ""
  obtain ⟨⟨names, hascending, hnames, -, -, htold⟩, hown⟩ := hdirectory _ "." _ hlist hnamed
  obtain ⟨hsmall, -⟩ := hfile (.directory (shelf "")) "b.tm" "" rfl
  refine ⟨(hsmall (by decide)).1, ?_, hown "a..tm" _ hentry, ?_, ?_⟩
  · obtain ⟨-, hrefused⟩ := hfile (.directory (shelf (String.ofList (List.replicate 65537 'x'))))
      "b.tm" _ rfl
    rw [utf8ByteSize_replicate] at hrefused
    exact (hrefused (by decide)).1
  · have hfound : names = definitionNames (.directory (shelf "")) "." (shelf "") :=
      List.Pairwise.eq_of_mem_iff hascending (Text.pairwise_ascending _)
        fun name ↦ (hnames name).trans (mem_definitionNames_iff hlist hnamed).symm
    obtain rfl : names = ["a..tm", "b.tm"] := hfound.trans (by decide)
    obtain ⟨first, _, hfirst, hrest, hresults⟩ := List.forall₂_cons_left_iff.1 htold
    obtain ⟨second, _, hsecond, hnone, rfl⟩ := List.forall₂_cons_left_iff.1 hrest
    rw [List.forall₂_nil_left_iff.1 hnone] at hresults
    exact ⟨first, second, hresults, hfirst, hsecond⟩
  · refine horder _ _ "." (alike_of_perm (List.reverse_perm _).symm hnamed.distinct ?_)
    intro entry hentry
    simp only [shelf, List.mem_cons, List.not_mem_nil, or_false] at hentry
    rcases hentry with rfl | rfl | rfl | rfl
    · exact .file _
    · exact .file _
    · exact .directory (fun _ ↦ Iff.rfl) (by simp)
    · exact .file _

end Multitape.Definition
