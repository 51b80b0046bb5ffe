import Multitape.Literal.Reader

/-!
What readers made from readers do. A reader yields a form and what is left of the text (`Yields`),
or it misses the form, and for each combinator one lemma tells from its parts which of the two it
does. A reader repeated takes off what it finds one after another until it misses (`yields_many`),
provided that this is no more often than the text has characters.

For the converse, whatever a reader takes off is as told (`Ensures`), and again one lemma for each
combinator leads there from its parts.
-/

set_option autoImplicit false
set_option relaxedAutoImplicit false

namespace Multitape.Literal.Reader

variable {α β : Type} {p q : Reader α} {text : List Char} {Q : α → List Char → Prop}

/-- The reader takes a form off the text, and what it finds and leaves is as told. -/
def Yields (p : Reader α) (text : List Char) (Q : α → List Char → Prop) : Prop :=
  ∃ a rest, p.take text = some (a, rest) ∧ Q a rest

theorem Yields.mono {Q' : α → List Char → Prop} (h : p.Yields text Q)
    (implies : ∀ a rest, Q a rest → Q' a rest) : p.Yields text Q' := by
  obtain ⟨a, rest, htake, hQ⟩ := h
  exact ⟨a, rest, htake, implies a rest hQ⟩

theorem yields_pure {a : α} (h : Q a text) : (pure a : Reader α).Yields text Q :=
  ⟨a, text, rfl, h⟩

theorem Yields.bind {next : α → Reader β} {Q : β → List Char → Prop}
    (h : p.Yields text fun a rest ↦ (next a).Yields rest Q) : (p >>= next).Yields text Q := by
  obtain ⟨a, rest, htake, b, last, hnext, hQ⟩ := h
  exact ⟨b, last, by simp [htake, hnext], hQ⟩

theorem take_bind_eq_none {next : α → Reader β} (h : p.take text = none) :
    (p >>= next).take text = none := by
  simp [h]

theorem Yields.take_bind_eq_none {next : α → Reader β}
    (h : p.Yields text fun a rest ↦ (next a).take rest = none) :
    (p >>= next).take text = none := by
  obtain ⟨a, rest, htake, hmissed⟩ := h
  simp [htake, hmissed]

theorem Yields.named {form : Form} (h : p.Yields text Q) : (named form p).Yields text Q := h

theorem Yields.either_left (h : p.Yields text Q) : (either p q).Yields text Q := by
  obtain ⟨a, rest, htake, hQ⟩ := h
  exact ⟨a, rest, by simp [htake], hQ⟩

theorem Yields.either_right (missed : p.take text = none) (h : q.Yields text Q) :
    (either p q).Yields text Q := by
  obtain ⟨a, rest, htake, hQ⟩ := h
  exact ⟨a, rest, by simp [htake, missed], hQ⟩

theorem Yields.optional {Q : Option α → List Char → Prop}
    (h : p.Yields text fun a rest ↦ Q (some a) rest) : (optional p).Yields text Q := by
  obtain ⟨a, rest, htake, hQ⟩ := h
  exact ⟨some a, rest, by simp [htake], hQ⟩

theorem yields_optional_of_missed {Q : Option α → List Char → Prop} (missed : p.take text = none)
    (h : Q none text) : (optional p).Yields text Q :=
  ⟨none, text, by simp [missed], h⟩

theorem Yields.spanned {Q : α × Span → List Char → Prop}
    (h : p.Yields text fun a rest ↦ Q (a, ⟨text, rest⟩) rest) : (spanned p).Yields text Q := by
  obtain ⟨a, rest, htake, hQ⟩ := h
  exact ⟨(a, ⟨text, rest⟩), rest, by simp [htake], hQ⟩

/-- The forms that a reader takes off one after another before it misses one. -/
inductive Repeats (p : Reader α) : List Char → List α → List Char → Prop
  | stop {text : List Char} (missed : p.take text = none) : Repeats p text [] text
  | again {text next rest : List Char} {a : α} {as : List α} (found : p.take text = some (a, next))
    (h : Repeats p next as rest) : Repeats p text (a :: as) rest

theorem value_readMany {times : List Char} {as : List α} {rest : List Char}
    (h : Repeats p text as rest) (enough : as.length ≤ times.length) (values : List α)
    (used : Nat) :
    (p.readMany times values used text).value = values.reverse ++ as ∧
      (p.readMany times values used text).rest = rest := by
  induction h generalizing times values used with
  | @stop text missed =>
    have hread : p.read text = none := by simpa [take] using missed
    cases times with
    | nil => simp [readMany]
    | cons => simp [readMany, hread]
  | again found h ih =>
    obtain ⟨form, hread, hform⟩ := Option.map_eq_some_iff.1 found
    obtain ⟨rfl, rfl⟩ := Prod.mk.inj hform
    cases times with
    | nil => simp at enough
    | cons c times =>
      have hlater := ih (by simpa using enough) (form.value :: values) (used + form.used)
      simpa [readMany, hread] using hlater

theorem yields_many {as : List α} {rest : List Char} {Q : List α → List Char → Prop}
    (h : Repeats p text as rest) (enough : as.length ≤ text.length) (hQ : Q as rest) :
    (many p).Yields text Q := by
  obtain ⟨hvalue, hrest⟩ := value_readMany h enough [] 0
  refine ⟨as, rest, ?_, hQ⟩
  simp only [take, many, Option.map_some, hvalue, hrest, List.reverse_nil, List.nil_append]

/-! ### What is taken off -/

/-- If the reader takes a form off the text, what it finds and leaves is as told. -/
def Ensures (p : Reader α) (text : List Char) (Q : α → List Char → Prop) : Prop :=
  ∀ a rest, p.take text = some (a, rest) → Q a rest

theorem ensures_pure {a : α} (h : Q a text) : (pure a : Reader α).Ensures text Q := by
  intro b rest htake
  obtain ⟨rfl, rfl⟩ := Prod.mk.inj (Option.some.inj htake)
  exact h

theorem Ensures.bind {next : α → Reader β} {Q' : β → List Char → Prop} (h : p.Ensures text Q)
    (hnext : ∀ a rest, Q a rest → (next a).Ensures rest Q') : (p >>= next).Ensures text Q' := by
  intro b last htake
  rw [take_bind, Option.bind_eq_some_iff] at htake
  obtain ⟨⟨a, rest⟩, hp, hlast⟩ := htake
  exact hnext a rest (h a rest hp) b last hlast

theorem Ensures.named {form : Form} (h : p.Ensures text Q) : (named form p).Ensures text Q := h

theorem Ensures.either (hp : p.Ensures text Q) (hq : q.Ensures text Q) :
    (either p q).Ensures text Q := by
  intro a rest htake
  rw [take_either, Option.or_eq_some_iff] at htake
  rcases htake with htake | ⟨-, htake⟩
  · exact hp a rest htake
  · exact hq a rest htake

theorem Ensures.optional {Q : Option α → List Char → Prop}
    (h : p.Ensures text fun a rest ↦ Q (some a) rest) (hmissed : Q none text) :
    (optional p).Ensures text Q := by
  intro a rest htake
  rw [take_optional, Option.or_eq_some_iff, Option.map_eq_some_iff] at htake
  rcases htake with ⟨⟨b, last⟩, hfound, hsame⟩ | ⟨-, hsame⟩
  · obtain ⟨rfl, rfl⟩ := Prod.mk.inj hsame
    exact h b last hfound
  · obtain ⟨rfl, rfl⟩ := Prod.mk.inj (Option.some.inj hsame)
    exact hmissed

theorem Ensures.spanned {Q : α × Span → List Char → Prop}
    (h : p.Ensures text fun a rest ↦ Q (a, ⟨text, rest⟩) rest) : (spanned p).Ensures text Q := by
  intro a rest htake
  rw [take_spanned, Option.map_eq_some_iff] at htake
  obtain ⟨⟨b, last⟩, hfound, hsame⟩ := htake
  obtain ⟨rfl, rfl⟩ := Prod.mk.inj hsame
  exact h b last hfound

/-- However often the form comes, what is found and left is related to the text if it is so without
any form and one form more keeps it so. -/
theorem ensures_many {R : List Char → List α → List Char → Prop} (stop : ∀ text, R text [] text)
    (again : ∀ text, p.Ensures text fun a next ↦
      ∀ as rest, R next as rest → R text (a :: as) rest) :
    (many p).Ensures text (R text) := by
  have hread : ∀ (times : List Char) (values : List α) (used : Nat) (text : List Char),
      ∃ as, (p.readMany times values used text).value = values.reverse ++ as ∧
        R text as (p.readMany times values used text).rest := by
    intro times
    induction times with
    | nil => exact fun values used text ↦ ⟨[], by simp [readMany], stop text⟩
    | cons c times ih =>
      intro values used text
      cases hform : p.read text with
      | none => exact ⟨[], by simp [readMany, hform], by simpa [readMany, hform] using stop text⟩
      | some form =>
        obtain ⟨as, hvalue, hR⟩ := ih (form.value :: values) (used + form.used) form.rest
        have hfound : p.take text = some (form.value, form.rest) := by rw [take, hform]; rfl
        refine ⟨form.value :: as, by simp [readMany, hform, hvalue], ?_⟩
        simpa [readMany, hform] using again text _ _ hfound as _ hR
  intro as rest htake
  obtain ⟨found, hvalue, hR⟩ := hread text [] 0 text
  obtain ⟨rfl, rfl⟩ := Prod.mk.inj (Option.some.inj htake)
  rw [hvalue]
  exact hR

end Multitape.Literal.Reader
