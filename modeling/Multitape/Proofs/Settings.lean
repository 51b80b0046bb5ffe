import Multitape.Definition.Settings
import Multitape.Proofs.Solid
import Mathlib.Tactic.SplitIfs

/-!
What assignments make of the settings. An assignment stores the value that its text writes under its
key, which must have had none before, and leaves all else alone (`assign_eq_ok_iff`, and by key
`stores_iff`). What one assignment keeps, all of them keep (`invariant_of_assignments`). So the
values that are collected are free of white space (`solid_of_ofAssignments`), and a key has the
value that is assigned to it (`value?_of_assignments`, `exists_assignment_of_value?`). Assignments
that follow each other can be exchanged (`assign_exchange`), so their order does not matter
(`ofAssignments_of_perm`), and one assignment more, to a key of its own, changes nothing but the
value of that key (`ofAssignments_insert`).
-/

set_option autoImplicit false
set_option relaxedAutoImplicit false

namespace Multitape.Definition

namespace Key

/-- What the values of a key are. -/
def Value : Key → Type
  | description | startState | acceptState | rejectState => String
  | alphabet => Alphabet
  | tapeCount => Nat
  | tapeAlphabets => List Alphabet
  | blank => Symbol

/-- Reads a value of the key. -/
def read : (key : Key) → List Char → Except Literal.Fault key.Value
  | description | startState | acceptState | rejectState => Literal.readString
  | alphabet => Literal.readAlphabet
  | tapeCount => Literal.readInteger
  | tapeAlphabets => Literal.readAlphabets
  | blank => Literal.readSymbol

end Key

namespace Settings

variable {s after : Settings} {a : Assignment} {assignments : List Assignment}

/-! ### Settings by key -/

/-- The value of the key, if it has one. -/
def value? (s : Settings) : (key : Key) → Option key.Value
  | .description => s.description
  | .alphabet => s.alphabet
  | .tapeCount => s.tapeCount
  | .tapeAlphabets => s.tapeAlphabets
  | .blank => s.blank
  | .startState => s.startState
  | .acceptState => s.acceptState
  | .rejectState => s.rejectState

/-- The settings with this value of the key. -/
def put (s : Settings) : (key : Key) → key.Value → Settings
  | .description, value => { s with description := some value }
  | .alphabet, value => { s with alphabet := some value }
  | .tapeCount, value => { s with tapeCount := some value }
  | .tapeAlphabets, value => { s with tapeAlphabets := some value }
  | .blank, value => { s with blank := some value }
  | .startState, value => { s with startState := some value }
  | .acceptState, value => { s with acceptState := some value }
  | .rejectState, value => { s with rejectState := some value }

theorem value?_put (s : Settings) (key other : Key) (value : key.Value) :
    (s.put key value).value? other =
      if h : key = other then some (h ▸ value) else s.value? other := by
  cases key <;> cases other <;> rfl

theorem value?_put_self (s : Settings) (key : Key) (value : key.Value) :
    (s.put key value).value? key = some value := by
  rw [value?_put, dif_pos rfl]

theorem value?_put_of_ne {key other : Key} (h : key ≠ other) (s : Settings) (value : key.Value) :
    (s.put key value).value? other = s.value? other := by
  rw [value?_put, dif_neg h]

theorem eq_of_value?_eq (h : ∀ key, s.value? key = after.value? key) : s = after := by
  cases s
  cases after
  rw [mk.injEq]
  exact ⟨h .description, h .alphabet, h .tapeCount, h .tapeAlphabets, h .blank, h .startState,
    h .acceptState, h .rejectState⟩

theorem put_comm {key other : Key} (h : key ≠ other) (s : Settings) (value : key.Value)
    (value' : other.Value) :
    (s.put key value).put other value' = (s.put other value').put key value := by
  refine eq_of_value?_eq fun k ↦ ?_
  by_cases hkey : key = k
  · subst hkey
    rw [value?_put_of_ne h.symm, value?_put_self, value?_put_self]
  · by_cases hother : other = k
    · subst hother
      rw [value?_put_self, value?_put_of_ne h, value?_put_self]
    · rw [value?_put_of_ne hother, value?_put_of_ne hkey, value?_put_of_ne hkey,
        value?_put_of_ne hother]

/-! ### One assignment -/

theorem readOnce_eq_ok_iff {α : Type} {key : Key} {read : List Char → Except Literal.Fault α}
    {text : List Char} {present stored : Option α} :
    readOnce key read text present = .ok stored ↔
      present = none ∧ ∃ value, read text = .ok value ∧ stored = some value := by
  unfold readOnce
  cases read text with
  | error fault => simp
  | ok value =>
    cases present with
    | some old => simp
    | none => simp [eq_comm]

/-- The settings afterwards have the value of the text under the key, and before they had none. -/
def Stores (text : List Char) (s after : Settings) : Key → Prop
  | .description => s.description = none ∧ ∃ value, Literal.readString text = .ok value ∧
      after = { s with description := some value }
  | .alphabet => s.alphabet = none ∧ ∃ value, Literal.readAlphabet text = .ok value ∧
      after = { s with alphabet := some value }
  | .tapeCount => s.tapeCount = none ∧ ∃ value, Literal.readInteger text = .ok value ∧
      after = { s with tapeCount := some value }
  | .tapeAlphabets => s.tapeAlphabets = none ∧ ∃ value, Literal.readAlphabets text = .ok value ∧
      after = { s with tapeAlphabets := some value }
  | .blank => s.blank = none ∧ ∃ value, Literal.readSymbol text = .ok value ∧
      after = { s with blank := some value }
  | .startState => s.startState = none ∧ ∃ value, Literal.readString text = .ok value ∧
      after = { s with startState := some value }
  | .acceptState => s.acceptState = none ∧ ∃ value, Literal.readString text = .ok value ∧
      after = { s with acceptState := some value }
  | .rejectState => s.rejectState = none ∧ ∃ value, Literal.readString text = .ok value ∧
      after = { s with rejectState := some value }

theorem stores_iff {text : List Char} {key : Key} : Stores text s after key ↔
    s.value? key = none ∧ ∃ value, key.read text = .ok value ∧ after = s.put key value := by
  cases key <;> rfl

/-- A value that is read once and then put into the settings. -/
theorem bind_readOnce_eq_ok_iff {α : Type} {key : Key}
    {read : List Char → Except Literal.Fault α} {text : List Char} {present : Option α}
    {put : Option α → Settings} :
    (do return put (← readOnce key read text present)) = (.ok after : Except Fault Settings) ↔
      present = none ∧ ∃ value, read text = .ok value ∧ after = put (some value) := by
  rw [bind_eq_ok_iff]
  simp only [readOnce_eq_ok_iff]
  constructor
  · rintro ⟨stored, ⟨hnone, value, hread, rfl⟩, h⟩
    exact ⟨hnone, value, hread, (Except.ok.inj h).symm⟩
  · rintro ⟨hnone, value, hread, rfl⟩
    exact ⟨some value, ⟨hnone, value, hread, rfl⟩, rfl⟩

theorem bind_readOnce {α : Type} {key : Key} {read : List Char → Except Literal.Fault α}
    {text : List Char} {present : Option α} {put put' : Option α → Settings}
    (h : ∀ value, put (some value) = put' (some value)) :
    (do return put (← readOnce key read text present)) =
      ((readOnce key read text present).map put' : Except Fault Settings) := by
  unfold readOnce
  cases read text with
  | error fault => rfl
  | ok value =>
    cases present with
    | some old => rfl
    | none => exact congrArg Except.ok (h value)

theorem assign_eq_ok_iff : s.assign a = .ok after ↔
    ∃ key, Key.ofName? (String.ofList a.key) = some key ∧ Stores a.value s after key := by
  unfold assign
  cases hkey : Key.ofName? (String.ofList a.key) with
  | none => simp [hkey]
  | some key =>
    simp only [hkey, Option.some.injEq, exists_eq_left']
    cases key <;> exact bind_readOnce_eq_ok_iff

theorem assign_of_name {key : Key} (hkey : Key.ofName? (String.ofList a.key) = some key) :
    s.assign a = (readOnce key key.read a.value (s.value? key)).map fun stored ↦
      stored.elim s (s.put key) := by
  unfold assign
  simp only [hkey]
  cases key <;> exact bind_readOnce fun _ ↦ rfl

theorem assign_of_no_name (hkey : Key.ofName? (String.ofList a.key) = none) :
    s.assign a = .error (.unknownKey (String.ofList a.key)) := by
  unfold assign
  simp only [hkey]

/-- Of two assignments that follow each other, either can come first. -/
theorem assign_exchange {b : Assignment} {first both : Settings} (hfirst : s.assign a = .ok first)
    (hboth : first.assign b = .ok both) :
    ∃ second, s.assign b = .ok second ∧ second.assign a = .ok both := by
  obtain ⟨key, hkey, hstores⟩ := assign_eq_ok_iff.1 hfirst
  obtain ⟨other, hother, hstores'⟩ := assign_eq_ok_iff.1 hboth
  obtain ⟨hnone, value, hread, rfl⟩ := stores_iff.1 hstores
  obtain ⟨hnone', value', hread', rfl⟩ := stores_iff.1 hstores'
  have hne : key ≠ other := by
    rintro rfl
    rw [value?_put_self] at hnone'
    cases hnone'
  rw [value?_put_of_ne hne] at hnone'
  refine ⟨s.put other value', assign_eq_ok_iff.2 ⟨other, hother, stores_iff.2 ?_⟩,
    assign_eq_ok_iff.2 ⟨key, hkey, stores_iff.2 ⟨?_, value, hread, put_comm hne s value value'⟩⟩⟩
  · exact ⟨hnone', value', hread', rfl⟩
  · rw [value?_put_of_ne hne.symm, hnone]

/-- An assignment to another key does the same whatever value a key has. -/
theorem assign_put {key : Key} (value : key.Value)
    (hother : Key.ofName? (String.ofList a.key) ≠ some key) :
    (s.put key value).assign a = (s.assign a).map (·.put key value) := by
  cases hname : Key.ofName? (String.ofList a.key) with
  | none =>
    rw [assign_of_no_name hname, assign_of_no_name hname]
    rfl
  | some other =>
    have hne : key ≠ other := fun heq ↦ hother (heq ▸ hname)
    rw [assign_of_name hname, assign_of_name hname, value?_put_of_ne hne]
    cases readOnce other other.read a.value (s.value? other) with
    | error fault => rfl
    | ok stored =>
      cases stored with
      | none => rfl
      | some value' => exact congrArg Except.ok (put_comm hne s value value')

/-! ### All assignments -/

/-- What every assignment keeps, all of them keep. -/
theorem invariant_of_assignments {P : Settings → Prop}
    (kept : ∀ {s after key text}, P s → Stores text s after key → P after) (holds : P s)
    (h : assignments.foldlM assign s = .ok after) : P after := by
  refine invariant_of_foldlM_eq_ok (fun hs hassign ↦ ?_) holds h
  obtain ⟨key, -, hstores⟩ := assign_eq_ok_iff.1 hassign
  exact kept hs hstores

/-- No symbol of a value has white space in it. -/
structure Solid (s : Settings) : Prop where
  alphabet : ∀ a ∈ s.alphabet, a.Solid
  tapeAlphabets : ∀ alphabets ∈ s.tapeAlphabets, ∀ a ∈ alphabets, a.Solid
  blank : ∀ symbol ∈ s.blank, symbol.Solid

theorem Solid.of_stores {key : Key} {text : List Char} (solid : s.Solid)
    (h : Stores text s after key) : after.Solid := by
  cases key with
  | alphabet =>
    obtain ⟨-, value, hread, rfl⟩ := h
    refine ⟨?_, solid.tapeAlphabets, solid.blank⟩
    rintro a ⟨⟩
    exact Literal.solid_of_readAlphabet hread
  | tapeAlphabets =>
    obtain ⟨-, value, hread, rfl⟩ := h
    refine ⟨solid.alphabet, ?_, solid.blank⟩
    rintro alphabets ⟨⟩
    exact Literal.solid_of_readAlphabets hread
  | blank =>
    obtain ⟨-, value, hread, rfl⟩ := h
    refine ⟨solid.alphabet, solid.tapeAlphabets, ?_⟩
    rintro symbol ⟨⟩
    exact Literal.solid_of_readSymbol hread
  | description | tapeCount | startState | acceptState | rejectState =>
    obtain ⟨-, value, -, rfl⟩ := h
    exact ⟨solid.alphabet, solid.tapeAlphabets, solid.blank⟩

theorem solid_of_ofAssignments (h : ofAssignments assignments = .ok after) : after.Solid := by
  have hnothing : Solid {} := ⟨by simp, by simp, by simp⟩
  exact invariant_of_assignments (fun solid hstores ↦ solid.of_stores hstores) hnothing h

/-- A key that has a value keeps it. -/
theorem value?_of_stores {key other : Key} {text : List Char} {value : key.Value}
    (present : s.value? key = some value) (h : Stores text s after other) :
    after.value? key = some value := by
  obtain ⟨hnone, value', -, rfl⟩ := stores_iff.1 h
  have hne : other ≠ key := by
    rintro rfl
    rw [present] at hnone
    cases hnone
  rw [value?_put_of_ne hne, present]

/-- An assignment is carried out after those before it and before those behind it. -/
theorem exists_round_of_assignments (h : assignments.foldlM assign s = .ok after)
    (assigned : a ∈ assignments) :
    ∃ (before behind : List Assignment) (first next : Settings),
      before.foldlM assign s = .ok first ∧ first.assign a = .ok next ∧
        behind.foldlM assign next = .ok after := by
  obtain ⟨before, behind, rfl⟩ := List.append_of_mem assigned
  rw [List.foldlM_append] at h
  obtain ⟨first, hbefore, h⟩ := bind_eq_ok_iff.1 h
  rw [List.foldlM_cons] at h
  obtain ⟨next, hassign, hbehind⟩ := bind_eq_ok_iff.1 h
  exact ⟨before, behind, first, next, hbefore, hassign, hbehind⟩

/-- What is assigned is read as a value of its key. -/
theorem exists_read_of_assignments (h : assignments.foldlM assign s = .ok after)
    (assigned : a ∈ assignments) : ∃ key, Key.ofName? (String.ofList a.key) = some key ∧
      ∃ value, key.read a.value = .ok value := by
  obtain ⟨_, _, _, _, -, hassign, -⟩ := exists_round_of_assignments h assigned
  obtain ⟨key, hkey, hstores⟩ := assign_eq_ok_iff.1 hassign
  obtain ⟨-, value, hread, -⟩ := stores_iff.1 hstores
  exact ⟨key, hkey, value, hread⟩

/-- A key to which a value is assigned has no other before, and has that value in the end. -/
theorem value?_of_assignments {key : Key} (h : assignments.foldlM assign s = .ok after)
    (assigned : a ∈ assignments) (named : Key.ofName? (String.ofList a.key) = some key) :
    s.value? key = none ∧
      ∃ value, key.read a.value = .ok value ∧ after.value? key = some value := by
  obtain ⟨_, _, first, _, hbefore, hassign, hbehind⟩ := exists_round_of_assignments h assigned
  obtain ⟨_, hkey, hstores⟩ := assign_eq_ok_iff.1 hassign
  obtain rfl := Option.some.inj (hkey.symm.trans named)
  obtain ⟨hnone, value, hread, rfl⟩ := stores_iff.1 hstores
  have hkept := invariant_of_assignments value?_of_stores (value?_put_self first _ value) hbehind
  refine ⟨?_, value, hread, hkept⟩
  cases hvalue : s.value? _ with
  | none => rfl
  | some old =>
    rw [invariant_of_assignments value?_of_stores hvalue hbefore] at hnone
    cases hnone

/-- A value of a key was there before, or is what an assignment writes. -/
theorem exists_assignment_of_value? {key : Key} {value : key.Value}
    (h : assignments.foldlM assign s = .ok after) (hvalue : after.value? key = some value) :
    s.value? key = some value ∨ ∃ a ∈ assignments,
      Key.ofName? (String.ofList a.key) = some key ∧ key.read a.value = .ok value := by
  induction assignments generalizing s with
  | nil =>
    obtain rfl := Except.ok.inj h
    exact .inl hvalue
  | cons a assignments ih =>
    rw [List.foldlM_cons] at h
    obtain ⟨next, hassign, h⟩ := bind_eq_ok_iff.1 h
    obtain ⟨other, hother, hstores⟩ := assign_eq_ok_iff.1 hassign
    obtain ⟨-, stored, hread, rfl⟩ := stores_iff.1 hstores
    rcases ih h with hnext | ⟨b, hb, hassigned⟩
    · by_cases hsame : other = key
      · subst hsame
        rw [value?_put_self] at hnext
        obtain rfl := Option.some.inj hnext
        exact .inr ⟨a, List.mem_cons_self, hother, hread⟩
      · rw [value?_put_of_ne hsame] at hnext
        exact .inl hnext
    · exact .inr ⟨b, List.mem_cons_of_mem a hb, hassigned⟩

theorem assignments_put {key : Key} (value : key.Value)
    (others : ∀ a ∈ assignments, Key.ofName? (String.ofList a.key) ≠ some key) :
    assignments.foldlM assign (s.put key value) =
      (assignments.foldlM assign s).map (·.put key value) := by
  induction assignments generalizing s with
  | nil => rfl
  | cons a assignments ih =>
    obtain ⟨hfirst, hothers⟩ := List.forall_mem_cons.1 others
    rw [List.foldlM_cons, List.foldlM_cons, assign_put value hfirst]
    cases s.assign a with
    | error fault => rfl
    | ok next => exact ih hothers

/-- An assignment among others to other keys gives its key a value, and the others do what they do
without it. -/
theorem ofAssignments_insert {key : Key} {value : key.Value} {before behind : List Assignment}
    (named : Key.ofName? (String.ofList a.key) = some key) (hread : key.read a.value = .ok value)
    (others : ∀ b ∈ before ++ behind, Key.ofName? (String.ofList b.key) ≠ some key) :
    ofAssignments (before ++ a :: behind) =
      (ofAssignments (before ++ behind)).map (·.put key value) := by
  obtain ⟨hbefore, hbehind⟩ := List.forall_mem_append.1 others
  rw [ofAssignments, ofAssignments, List.foldlM_append, List.foldlM_append]
  cases hfirst : before.foldlM assign {} with
  | error fault => rfl
  | ok first =>
    have hnone : first.value? key = none := by
      cases hvalue : first.value? key with
      | none => rfl
      | some old =>
        obtain hnothing | ⟨b, hb, hassigned, -⟩ := exists_assignment_of_value? hfirst hvalue
        · cases key <;> cases hnothing
        · exact absurd hassigned (hbefore b hb)
    have hassign : first.assign a = .ok (first.put key value) :=
      assign_eq_ok_iff.2 ⟨key, named, stores_iff.2 ⟨hnone, value, hread, rfl⟩⟩
    change (a :: behind).foldlM assign first = (behind.foldlM assign first).map (·.put key value)
    rw [List.foldlM_cons, hassign]
    exact assignments_put value hbehind

/-- The order of the assignments does not matter. -/
theorem ofAssignments_of_perm {assignments' : List Assignment}
    (perm : assignments.Perm assignments') (h : ofAssignments assignments = .ok after) :
    ofAssignments assignments' = .ok after := by
  refine foldlM_eq_ok_of_perm (fun hfirst hboth ↦ ?_) perm h
  exact assign_exchange hfirst hboth

/-- No key is assigned twice. -/
theorem nodup_keys_of_assignments (h : assignments.foldlM assign s = .ok after) :
    (assignments.map Assignment.key).Nodup := by
  induction assignments generalizing s with
  | nil => exact List.nodup_nil
  | cons a assignments ih =>
    rw [List.foldlM_cons] at h
    obtain ⟨next, hassign, h⟩ := bind_eq_ok_iff.1 h
    refine List.nodup_cons.2 ⟨fun hmem ↦ ?_, ih h⟩
    obtain ⟨b, hb, hsame⟩ := List.mem_map.1 hmem
    obtain ⟨key, hkey, hstores⟩ := assign_eq_ok_iff.1 hassign
    obtain ⟨-, value, -, rfl⟩ := stores_iff.1 hstores
    obtain ⟨hnone, -⟩ := value?_of_assignments h hb (hsame ▸ hkey)
    rw [value?_put_self] at hnone
    cases hnone

end Settings

end Multitape.Definition
