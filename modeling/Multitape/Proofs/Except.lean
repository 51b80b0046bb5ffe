import Mathlib.Data.List.Forall2

/-!
When a computation that may fail succeeds. A chain of steps succeeds exactly if every step does
(`bind_eq_ok_iff`), and a list read item by item is read exactly if every item is
(`forall₂_of_mapM_eq_ok`, `mapM_eq_ok_of_forall₂`). What every round over a list keeps, all of them
keep (`invariant_of_foldlM_eq_ok`), and rounds that can be exchanged lead to the same end in any
order (`foldlM_eq_ok_of_perm`).
-/

set_option autoImplicit false
set_option relaxedAutoImplicit false

namespace Multitape

variable {ε ε' α β : Type}

theorem bind_eq_ok_iff {x : Except ε α} {f : α → Except ε β} {b : β} :
    x >>= f = .ok b ↔ ∃ a, x = .ok a ∧ f a = .ok b := by
  cases x with
  | error fault => simp [bind, Except.bind]
  | ok a => simp [bind, Except.bind]

theorem map_bind {γ : Type} (x : Except ε α) (f : α → β) (g : β → Except ε γ) :
    x.map f >>= g = x >>= fun a ↦ g (f a) := by
  cases x <;> rfl

theorem mapError_eq_ok_iff {x : Except ε α} {f : ε → ε'} {a : α} :
    x.mapError f = .ok a ↔ x = .ok a := by
  cases x <;> simp [Except.mapError]

theorem map_eq_ok_iff {x : Except ε α} {f : α → β} {b : β} :
    x.map f = .ok b ↔ ∃ a, x = .ok a ∧ f a = b := by
  cases x <;> simp [Except.map]

theorem forall₂_of_mapM_eq_ok {f : α → Except ε β} {items : List α} {values : List β}
    (h : items.mapM f = .ok values) : List.Forall₂ (fun a b ↦ f a = .ok b) items values := by
  induction items generalizing values with
  | nil =>
    obtain rfl : values = [] := by simpa [pure, Except.pure, eq_comm] using h
    exact .nil
  | cons item items ih =>
    rw [List.mapM_cons] at h
    obtain ⟨value, hitem, h⟩ := bind_eq_ok_iff.1 h
    obtain ⟨rest, hitems, h⟩ := bind_eq_ok_iff.1 h
    obtain rfl : value :: rest = values := by simpa [pure, Except.pure] using h
    exact .cons hitem (ih hitems)

theorem mapM_eq_ok_of_forall₂ {f : α → Except ε β} {items : List α} {values : List β}
    (h : List.Forall₂ (fun a b ↦ f a = .ok b) items values) : items.mapM f = .ok values := by
  induction h with
  | nil => rfl
  | cons hitem _ ih => simp [hitem, ih, bind, Except.bind, pure, Except.pure]

theorem exists_of_mapM_eq_ok {f : α → Except ε β} {items : List α} {values : List β}
    (h : items.mapM f = .ok values) {b : β} (hb : b ∈ values) : ∃ a ∈ items, f a = .ok b := by
  have hread := forall₂_of_mapM_eq_ok h
  clear h
  induction hread with
  | nil => cases hb
  | cons hitem _ ih =>
    rcases List.mem_cons.1 hb with rfl | hb
    · exact ⟨_, List.mem_cons_self, hitem⟩
    · obtain ⟨a, ha, hread⟩ := ih hb
      exact ⟨a, List.mem_cons_of_mem _ ha, hread⟩

theorem exists_value_of_mapM_eq_ok {f : α → Except ε β} {items : List α} {values : List β}
    (h : items.mapM f = .ok values) {a : α} (ha : a ∈ items) : ∃ b ∈ values, f a = .ok b := by
  have hread := forall₂_of_mapM_eq_ok h
  clear h
  induction hread with
  | nil => cases ha
  | cons hitem _ ih =>
    rcases List.mem_cons.1 ha with rfl | ha
    · exact ⟨_, List.mem_cons_self, hitem⟩
    · obtain ⟨b, hb, hread⟩ := ih ha
      exact ⟨b, List.mem_cons_of_mem _ hb, hread⟩

/-- The first item that fails is the one whose failure is told. -/
theorem mapM_eq_error_iff {f : α → Except ε β} {items : List α} {fault : ε} :
    items.mapM f = .error fault ↔ ∃ (k : Nat) (a : α), items[k]? = some a ∧ f a = .error fault ∧
      ∀ j < k, ∀ b, items[j]? = some b → ∃ value, f b = .ok value := by
  induction items with
  | nil => simp [pure, Except.pure]
  | cons item items ih =>
    rw [List.mapM_cons]
    constructor
    · intro h
      cases hitem : f item with
      | error other =>
        obtain rfl : other = fault := by simpa [hitem, bind, Except.bind] using h
        exact ⟨0, item, rfl, hitem, by simp⟩
      | ok value =>
        have hrest : items.mapM f = .error fault := by
          cases hitems : items.mapM f with
          | error other => simpa [hitem, hitems, bind, Except.bind] using h
          | ok values => simp [hitem, hitems, bind, Except.bind, pure, Except.pure] at h
        obtain ⟨k, a, ha, hfails, hbefore⟩ := ih.1 hrest
        refine ⟨k + 1, a, ha, hfails, fun j hj b hb ↦ ?_⟩
        cases j with
        | zero =>
          obtain rfl := Option.some.inj hb
          exact ⟨value, hitem⟩
        | succ j => exact hbefore j (by omega) b hb
    · rintro ⟨k, a, ha, hfails, hbefore⟩
      cases k with
      | zero =>
        obtain rfl := Option.some.inj ha
        rw [hfails]
        rfl
      | succ k =>
        obtain ⟨value, hitem⟩ := hbefore 0 (by omega) item rfl
        have hrest := ih.2 ⟨k, a, ha, hfails, fun j hj b hb ↦ hbefore (j + 1) (by omega) b hb⟩
        rw [hitem, hrest]
        rfl

/-- What every round keeps, all rounds in succession keep. -/
theorem invariant_of_foldlM_eq_ok {f : β → α → Except ε β} {P : β → Prop}
    (kept : ∀ {b a next}, P b → f b a = .ok next → P next) {items : List α} {b last : β}
    (holds : P b) (h : items.foldlM f b = .ok last) : P last := by
  induction items generalizing b with
  | nil =>
    obtain rfl : b = last := by simpa [pure, Except.pure] using h
    exact holds
  | cons a items ih =>
    rw [List.foldlM_cons] at h
    obtain ⟨next, hfirst, h⟩ := bind_eq_ok_iff.1 h
    exact ih (kept holds hfirst) h

/-- Rounds that can be exchanged where one follows the other can be made in any order. -/
theorem foldlM_eq_ok_of_perm {f : β → α → Except ε β}
    (exchange : ∀ {b a a' next last}, f b a = .ok next → f next a' = .ok last →
      ∃ other, f b a' = .ok other ∧ f other a = .ok last)
    {items items' : List α} (perm : items.Perm items') {b last : β}
    (h : items.foldlM f b = .ok last) : items'.foldlM f b = .ok last := by
  induction perm generalizing b with
  | nil => exact h
  | cons a _ ih =>
    rw [List.foldlM_cons] at h ⊢
    obtain ⟨next, hfirst, h⟩ := bind_eq_ok_iff.1 h
    exact bind_eq_ok_iff.2 ⟨next, hfirst, ih h⟩
  | swap a a' items =>
    rw [List.foldlM_cons] at h
    obtain ⟨next, hfirst, h⟩ := bind_eq_ok_iff.1 h
    rw [List.foldlM_cons] at h
    obtain ⟨both, hsecond, h⟩ := bind_eq_ok_iff.1 h
    obtain ⟨other, hother, hlast⟩ := exchange hfirst hsecond
    rw [List.foldlM_cons]
    refine bind_eq_ok_iff.2 ⟨other, hother, ?_⟩
    rw [List.foldlM_cons]
    exact bind_eq_ok_iff.2 ⟨both, hlast, h⟩
  | trans _ _ ih ih' => exact ih' (ih h)

end Multitape
