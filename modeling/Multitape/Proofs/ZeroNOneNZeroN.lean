import Multitape.Proofs.Catalog
import Multitape.Proofs.Views

/-!
The program `zero-n-one-n-zero-n` decides its language in a single sweep over the input. The second
and the third tape count the `0`s in front; their heads then stand on the last `0` and go back over
them, the second against the `1`s and the third against the `0`s behind. `Completes` says that a
word makes some `0`s before it into a word of the language, and the machine that has counted these
`0`s accepts exactly if the word ahead of it does (`halts_count`). What is left of the word when the
heads turn round is compared block by block (`halts_ones`, `halts_zeros`), each by induction on the
cells ahead.
-/

set_option autoImplicit false
set_option relaxedAutoImplicit false

namespace Multitape.ZeroNOneNZeroN

open Catalog List

/-! ### The machine -/

/-- The definition that the text of the program writes. -/
def machine : Definition where
  description := "\x7b 0^n 1^n 0^n | n >= 0 \x7d"
  tapeAlphabets := replicate 3 (.ofList [blank, zero, one])
  rules := [
    ⟨"q0", [blank, blank, blank], "q1", [blank, blank, blank], [.stay, .stay, .stay], some .accept⟩,
    ⟨"q0", [zero, blank, blank], "q3", [zero, zero, zero], [.right, .right, .right], none⟩,
    ⟨"q3", [zero, blank, blank], "q3", [zero, zero, zero], [.right, .right, .right], none⟩,
    ⟨"q3", [one, blank, blank], "q4", [one, blank, blank], [.stay, .left, .left], none⟩,
    ⟨"q4", [one, zero, zero], "q4", [one, zero, zero], [.right, .left, .stay], none⟩,
    ⟨"q4", [zero, blank, zero], "q5", [zero, blank, zero], [.right, .stay, .left], none⟩,
    ⟨"q5", [zero, blank, zero], "q5", [zero, blank, zero], [.right, .stay, .left], none⟩,
    ⟨"q5", [blank, blank, blank], "q1", [blank, blank, blank], [.right, .stay, .stay],
      some .accept⟩]

theorem blank_machine : machine.blank = blank := rfl

theorem parse_text : Definition.parse zeroNOneNZeroN.toList = .ok machine := by
  rw [zeroNOneNZeroN, Text.toList_unlines]
  simp only [flatMap_cons, flatMap_nil]
  repeat rw [String.toList_ofList]
  rfl

theorem find_machine : Catalog.find "zero-n-one-n-zero-n" =
    .ok ⟨"zero-n-one-n-zero-n", zeroNOneNZeroN, machine⟩ :=
  find_of_parse (by simp [texts]) parse_text

theorem sound : machine.Sound := Definition.sound_of_parse parse_text rfl

/-! ### Words -/

/-- Behind so many `0`s, the word makes up a word of the language. -/
def Completes (count : Nat) (word : List Symbol) : Prop :=
  ∃ k, word = replicate k zero ++ (replicate (count + k) one ++ replicate (count + k) zero)

theorem completes_zero_nil : Completes 0 [] := ⟨0, rfl⟩

theorem not_completes_nil (count : Nat) : ¬ Completes (count + 1) [] := by
  rintro ⟨k, hword⟩
  have hlength := congrArg length hword
  simp only [length_nil, length_append, length_replicate] at hlength
  omega

theorem completes_zero_iff {count : Nat} {word : List Symbol} :
    Completes count (zero :: word) ↔ Completes (count + 1) word := by
  constructor
  · rintro ⟨k, hword⟩
    cases k with
    | zero =>
      cases count with
      | zero => simp at hword
      | succ count =>
        exact absurd (List.cons.inj hword).1 zero_ne
    | succ k =>
      refine ⟨k, ?_⟩
      rw [show count + 1 + k = count + (k + 1) by omega]
      exact (List.cons.inj hword).2
  · rintro ⟨k, rfl⟩
    refine ⟨k + 1, ?_⟩
    rw [show count + 1 + k = count + (k + 1) by omega]
    rfl

theorem completes_one_iff {count : Nat} {word : List Symbol} :
    Completes count (one :: word) ↔
      one :: word = replicate count one ++ replicate count zero := by
  constructor
  · rintro ⟨k, hword⟩
    cases k with
    | zero => exact hword
    | succ k => exact absurd (List.cons.inj hword).1 one_ne
  · intro hword
    exact ⟨0, hword⟩

/-- On words of `0`s and `1`s, this is the language of the machine. -/
theorem completes_iff_blocks {word : List Char} :
    Completes 0 (word.map .plain) ↔
      ∃ n, word = replicate n '0' ++ replicate n '1' ++ replicate n '0' := by
  have hblocks : ∀ n, (replicate n '0' ++ replicate n '1' ++ replicate n '0').map Symbol.plain =
      replicate n zero ++ (replicate (0 + n) one ++ replicate (0 + n) zero) := fun n ↦ by
    rw [Nat.zero_add, map_append, map_append, map_replicate, map_replicate, append_assoc]
    rfl
  constructor
  · rintro ⟨n, hword⟩
    rw [← hblocks, map_plain_inj] at hword
    exact ⟨n, hword⟩
  · rintro ⟨n, rfl⟩
    exact ⟨n, hblocks n⟩

/-! ### Runs -/

/-- The heads while the `0`s in front are counted: all of them go to the right. -/
def counting (behind ahead : List Symbol) (count : Nat) : List Focus :=
  [.facingRight blank behind ahead, .facingRight blank (replicate count zero) [],
    .facingRight blank (replicate count zero) []]

/-- The heads once they have turned round: the first goes on over the word, and the others go back
over so many `0`s. -/
def comparing (behind ahead : List Symbol) (second : Nat) (passed : List Symbol) (third : Nat)
    (passed' : List Symbol) : List Focus :=
  [.facingRight blank behind ahead, .facingLeft blank (replicate second zero) passed,
    .facingLeft blank (replicate third zero) passed']

/-- The last block: the machine accepts if the word goes on with as many `0`s as the third head has
before it. -/
theorem halts_zeros {ahead : List Symbol} (digits : Digits ahead) (behind : List Symbol)
    (count : Nat) (passed passed' : List Symbol) :
    ∃ v, machine.HaltsFrom "q5" (comparing behind ahead 0 passed count passed')
        (ahead.length + 1) v ∧ (v = .accept ↔ ahead = replicate count zero) := by
  induction ahead generalizing behind count passed' with
  | nil =>
    cases count with
    | zero =>
      exact ⟨.accept, .of_rule sound (rfl : _ = [blank, blank, blank]) rfl rfl .of_accept, by simp⟩
    | succ count =>
      refine ⟨.reject, .of_no_rule sound (rfl : _ = [blank, blank, zero]) rfl rfl (by decide), ?_⟩
      simp [replicate_succ]
  | cons s ahead ih =>
    rcases digits s mem_cons_self with rfl | rfl
    · cases count with
      | zero =>
        refine ⟨.reject, .of_no_rule sound (rfl : _ = [zero, blank, blank]) rfl rfl (by decide), ?_⟩
        simp
      | succ count =>
        obtain ⟨v, hhalts, hv⟩ := ih digits.of_cons (zero :: behind) count (zero :: passed')
        refine ⟨v, .of_rule sound (rfl : _ = [zero, blank, zero]) rfl rfl ?_, ?_⟩
        · simpa [Focus.actAll, Rule.instructions, comparing, blank_machine, replicate_succ]
            using hhalts
        · simpa [replicate_succ] using hv
    · refine ⟨.reject, ?_, by cases count <;> simp [replicate_succ, one_ne]⟩
      cases count with
      | zero => exact .of_no_rule sound (rfl : _ = [one, blank, blank]) rfl rfl (by decide)
      | succ count => exact .of_no_rule sound (rfl : _ = [one, blank, zero]) rfl rfl (by decide)

/-- The two blocks that are left when the heads have turned round. -/
theorem halts_ones {ahead : List Symbol} (digits : Digits ahead) (behind : List Symbol)
    (ones zeros : Nat) (passed passed' : List Symbol) :
    ∃ v, machine.HaltsFrom "q4" (comparing behind ahead ones passed (zeros + 1) passed')
        (ahead.length + 1) v ∧
      (v = .accept ↔ ahead = replicate ones one ++ replicate (zeros + 1) zero) := by
  induction ahead generalizing behind ones passed with
  | nil =>
    refine ⟨.reject, ?_, by simp [replicate_succ]⟩
    cases ones with
    | zero => exact .of_no_rule sound (rfl : _ = [blank, blank, zero]) rfl rfl (by decide)
    | succ ones => exact .of_no_rule sound (rfl : _ = [blank, zero, zero]) rfl rfl (by decide)
  | cons s ahead ih =>
    rcases digits s mem_cons_self with rfl | rfl
    · cases ones with
      | zero =>
        obtain ⟨v, hhalts, hv⟩ :=
          halts_zeros digits.of_cons (zero :: behind) zeros passed (zero :: passed')
        refine ⟨v, .of_rule sound (rfl : _ = [zero, blank, zero]) rfl rfl ?_, ?_⟩
        · simpa [Focus.actAll, Rule.instructions, comparing, blank_machine, replicate_succ]
            using hhalts
        · simpa [replicate_succ] using hv
      | succ ones =>
        refine ⟨.reject, .of_no_rule sound (rfl : _ = [zero, zero, zero]) rfl rfl (by decide), ?_⟩
        simp [replicate_succ, zero_ne]
    · cases ones with
      | zero =>
        refine ⟨.reject, .of_no_rule sound (rfl : _ = [one, blank, zero]) rfl rfl (by decide), ?_⟩
        simp [replicate_succ, one_ne]
      | succ ones =>
        obtain ⟨v, hhalts, hv⟩ := ih digits.of_cons (one :: behind) ones (zero :: passed)
        refine ⟨v, .of_rule sound (rfl : _ = [one, zero, zero]) rfl rfl ?_, ?_⟩
        · simpa [Focus.actAll, Rule.instructions, comparing, blank_machine, replicate_succ]
            using hhalts
        · simpa [replicate_succ] using hv

/-- The machine that has counted some `0`s accepts exactly if the cells ahead complete them. -/
theorem halts_count {ahead : List Symbol} (digits : Digits ahead) (behind : List Symbol)
    (count : Nat) :
    ∃ v, machine.HaltsFrom "q3" (counting behind ahead (count + 1)) (ahead.length + 2) v ∧
      (v = .accept ↔ Completes (count + 1) ahead) := by
  induction ahead generalizing behind count with
  | nil =>
    refine ⟨.reject, .of_no_rule sound (rfl : _ = [blank, blank, blank]) rfl rfl (by decide), ?_⟩
    simp [not_completes_nil]
  | cons s ahead ih =>
    rcases digits s mem_cons_self with rfl | rfl
    · obtain ⟨v, hhalts, hv⟩ := ih digits.of_cons (zero :: behind) (count + 1)
      refine ⟨v, .of_rule sound (rfl : _ = [zero, blank, blank]) rfl rfl ?_,
        hv.trans completes_zero_iff.symm⟩
      simpa [Focus.actAll, Rule.instructions, counting, blank_machine, replicate_succ] using hhalts
    · -- the heads turn round, and the first stays where it is
      obtain ⟨v, hhalts, hv⟩ := halts_ones digits behind (count + 1) count [blank] [blank]
      refine ⟨v, .of_rule sound (rfl : _ = [one, blank, blank]) rfl rfl ?_,
        hv.trans completes_one_iff.symm⟩
      simpa [Focus.actAll, Rule.instructions, counting, comparing, blank_machine] using hhalts

/-- From the start, the machine accepts exactly the words of its language. -/
theorem halts_start {word : List Symbol} (digits : Digits word) :
    ∃ v, machine.HaltsFrom "q0" (counting [] word 0) (word.length + 2) v ∧
      (v = .accept ↔ Completes 0 word) := by
  cases word with
  | nil =>
    have haccept : machine.HaltsFrom "q0" (counting [] [] 0) 1 .accept :=
      .of_rule sound (rfl : _ = [blank, blank, blank]) rfl rfl .of_accept
    exact ⟨.accept, haccept.mono (by omega), by simp [completes_zero_nil]⟩
  | cons s word =>
    rcases digits s mem_cons_self with rfl | rfl
    · obtain ⟨v, hhalts, hv⟩ := halts_count digits.of_cons [zero] 0
      refine ⟨v, .of_rule sound (rfl : _ = [zero, blank, blank]) rfl rfl ?_,
        hv.trans completes_zero_iff.symm⟩
      simpa [Focus.actAll, Rule.instructions, counting, blank_machine] using hhalts
    · refine ⟨.reject, .of_no_rule sound (rfl : _ = [one, blank, blank]) rfl rfl (by decide), ?_⟩
      simp [completes_one_iff]

/-- On every word of `0`s and `1`s the program halts without an error, in at most two more
transitions than the word is long, under every limit that leaves room for them. It accepts exactly
the words that are some number of `0`s, then as many `1`s and then as many `0`s again. -/
theorem decides_three_blocks {word : List Char} (digits : ∀ c ∈ word, c = '0' ∨ c = '1')
    {limit : Option Nat} (room : ∀ l ∈ limit, word.length + 2 ≤ l) (marker : String)
    {fuel : Nat} (enough : word.length + 2 ≤ fuel) :
    ∃ program v last, Catalog.find "zero-n-one-n-zero-n" = .ok program ∧
      ({ Machine.new program.definition with limit, marker } : Machine).run fuel word =
        some (.ok v, last) ∧
      last.steps ≤ word.length + 2 ∧
      (v = .accept ↔ ∃ n, word = replicate n '0' ++ replicate n '1' ++ replicate n '0') := by
  obtain ⟨v, hhalts, hv⟩ := halts_start (digits_map digits)
  rw [length_map] at hhalts
  have hstart : machine.HaltsFrom machine.startState (machine.startViews word)
      (word.length + 2) v := hhalts
  obtain ⟨last, hrun, hsteps⟩ := hstart.run_eq room marker enough (by omega)
  exact ⟨_, v, last, find_machine, hrun, hsteps, hv.trans completes_iff_blocks⟩

/-- One `1` between two `0`s, under a limit that leaves exactly as much room as is asked for. -/
theorem decides_one_one_one : ∃ program last,
    Catalog.find "zero-n-one-n-zero-n" = .ok program ∧
      ({ Machine.new program.definition with limit := some 5, marker := ">" } : Machine).run 5
        ['0', '1', '0'] = some (.ok .accept, last) ∧ last.steps ≤ 5 := by
  have digits : ∀ c ∈ ['0', '1', '0'], c = '0' ∨ c = '1' := by simp
  have room : ∀ l ∈ some 5, ['0', '1', '0'].length + 2 ≤ l := by simp
  obtain ⟨program, v, last, hfind, hrun, hsteps, hv⟩ :=
    decides_three_blocks digits room ">" (Nat.le_refl _)
  obtain rfl : v = .accept := hv.2 ⟨1, rfl⟩
  exact ⟨program, last, hfind, hrun, hsteps⟩

end Multitape.ZeroNOneNZeroN
