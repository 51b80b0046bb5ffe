import Multitape.Catalog
import Multitape.Proofs.Step
import Mathlib.Data.List.Nodup

/-!
The programs of the catalog are the texts of the catalog that define a machine
(`mem_programs_iff`), and since no two texts go by the same name, a name finds the definition that
its text writes (`find_of_parse`).
-/

set_option autoImplicit false
set_option relaxedAutoImplicit false

namespace Multitape

theorem Text.toList_unlines (texts : List String) :
    (unlines texts).toList = texts.flatMap fun text ↦ text.toList ++ ['\n'] := by
  simp [unlines, String.toList_join, List.flatMap_map, String.toList_append]

namespace Catalog

/-! ### The symbols of the programs -/

def zero : Symbol := .plain '0'

def one : Symbol := .plain '1'

def blank : Symbol := .plain 'B'

theorem zero_ne : zero ≠ one := by decide

theorem one_ne : one ≠ zero := by decide

/-- The cells hold digits. -/
def Digits (cells : List Symbol) : Prop := ∀ s ∈ cells, s = zero ∨ s = one

theorem Digits.of_cons {s : Symbol} {cells : List Symbol} (h : Digits (s :: cells)) :
    Digits cells :=
  fun t ht ↦ h t (List.mem_cons_of_mem s ht)

theorem digits_map {word : List Char} (h : ∀ c ∈ word, c = '0' ∨ c = '1') :
    Digits (word.map .plain) := by
  intro s hs
  obtain ⟨c, hc, rfl⟩ := List.mem_map.1 hs
  rcases h c hc with rfl | rfl
  · exact .inl rfl
  · exact .inr rfl

theorem map_plain_inj {word word' : List Char} :
    word.map Symbol.plain = word'.map Symbol.plain ↔ word = word' := by
  have hplain : Function.Injective Symbol.plain := fun c c' h ↦ congrArg Symbol.base h
  exact (List.map_injective_iff.2 hplain).eq_iff

/-! ### Names and texts -/

theorem mem_programs_iff {p : Program} : p ∈ programs ↔
    (p.name, p.text) ∈ texts ∧ Definition.parse p.text.toList = .ok p.definition := by
  simp only [programs, List.mem_filterMap]
  constructor
  · rintro ⟨⟨name, text⟩, listed, h⟩
    cases parsed : Definition.parse text.toList with
    | error fault => simp [parsed] at h
    | ok d =>
      obtain rfl : ⟨name, text, d⟩ = p := by simpa [parsed] using h
      exact ⟨listed, parsed⟩
  · rintro ⟨listed, parsed⟩
    refine ⟨(p.name, p.text), listed, ?_⟩
    simp only [parsed]

/-- No two texts go by the same name. -/
theorem text_unique {name text text' : String} (listed : (name, text) ∈ texts)
    (listed' : (name, text') ∈ texts) : text = text' := by
  have hnames : (texts.map Prod.fst).Nodup := by simp [texts]
  have hsame := List.inj_on_of_nodup_map hnames listed listed' rfl
  exact congrArg Prod.snd hsame

theorem find_of_found {name : String} {program : Program}
    (h : programs.find? (·.name == name) = some program) : find name = .ok program := by
  -- opened as a function, since the check of an opened application would read all the texts
  have hopen : ∃ search, find = search ∧ search name = .ok program := by
    refine ⟨_, by delta find; exact rfl, ?_⟩
    simp only [h]
  obtain ⟨search, hfind, hsearch⟩ := hopen
  rw [hfind, hsearch]

/-- What is found is one of the programs. -/
theorem mem_programs_of_find {name : String} {program : Program} (h : find name = .ok program) :
    program ∈ programs := by
  -- opened as a function here too
  have hopen : ∃ search, find = search ∧ (search name = .ok program → program ∈ programs) := by
    refine ⟨_, by delta find; exact rfl, fun hsearch ↦ ?_⟩
    split at hsearch
    · next hfound =>
      obtain rfl := Except.ok.inj hsearch
      exact List.mem_of_find?_eq_some hfound
    · cases hsearch
  obtain ⟨search, hfind, hsearch⟩ := hopen
  rw [hfind] at h
  exact hsearch h

theorem find_of_parse {name text : String} {d : Definition} (listed : (name, text) ∈ texts)
    (parsed : Definition.parse text.toList = .ok d) : find name = .ok ⟨name, text, d⟩ := by
  have hmem : ⟨name, text, d⟩ ∈ programs := mem_programs_iff.2 ⟨listed, parsed⟩
  have hunique : ∀ p ∈ programs, (p.name == name) = true → p = ⟨name, text, d⟩ := by
    rintro ⟨name', text', d'⟩ hp hname
    obtain ⟨listed', parsed'⟩ := mem_programs_iff.1 hp
    obtain rfl : name' = name := by simpa using hname
    obtain rfl : text = text' := text_unique listed listed'
    obtain rfl : d = d' := Except.ok.inj (parsed.symm.trans parsed')
    rfl
  exact find_of_found (find?_eq_some_of_unique hmem (beq_self_eq_true name) hunique)

end Catalog

end Multitape
