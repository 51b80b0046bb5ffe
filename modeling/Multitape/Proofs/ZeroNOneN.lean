import Multitape.Proofs.Catalog
import Multitape.Proofs.Views
import Mathlib.Tactic.Ring

/-!
The program `zero-n-one-n` decides its language. What is left to compare is always ahead of the head
when a pass begins: `0`s, then `1`s some of which are marked, if the word has the right form.
`Balanced` says of the cells ahead that no `0` comes behind anything else and that there are as many
`0`s as unmarked `1`s. A pass takes one of each away (`balanced_pass`), so that a machine that
begins a pass accepts exactly if the cells ahead are balanced (`halts_pass`), by induction on how
many there are. Each pass shortens them by a cell and crosses them at most twice, which makes the
number of transitions quadratic.
-/

set_option autoImplicit false
set_option relaxedAutoImplicit false

namespace Multitape.ZeroNOneN

open Catalog

/-! ### The machine -/

def markedZero : Symbol := ⟨'0', some '.', none⟩

def markedOne : Symbol := ⟨'1', some '.', none⟩

/-- The definition that the text of the program writes. -/
def machine : Definition where
  description := "\x7b 0^n 1^n | n >= 0 \x7d"
  tapeAlphabets := [.ofList [blank, zero, one, markedZero, markedOne]]
  rules := [
    ⟨"q0", [zero], "q3", [markedZero], [.right], none⟩,
    ⟨"q0", [markedOne], "q5", [markedOne], [.right], none⟩,
    ⟨"q0", [blank], "q1", [blank], [.right], some .accept⟩,
    ⟨"q3", [zero], "q3", [zero], [.right], none⟩,
    ⟨"q3", [markedOne], "q3", [markedOne], [.right], none⟩,
    ⟨"q3", [one], "q4", [markedOne], [.left], none⟩,
    ⟨"q4", [zero], "q4", [zero], [.left], none⟩,
    ⟨"q4", [markedOne], "q4", [markedOne], [.left], none⟩,
    ⟨"q4", [markedZero], "q0", [markedZero], [.right], none⟩,
    ⟨"q5", [markedOne], "q5", [markedOne], [.right], none⟩,
    ⟨"q5", [blank], "q1", [blank], [.right], some .accept⟩]

theorem parse_text : Definition.parse zeroNOneN.toList = .ok machine := by
  rw [zeroNOneN, Text.toList_unlines]
  simp only [List.flatMap_cons, List.flatMap_nil]
  repeat rw [String.toList_ofList]
  rfl

theorem find_machine :
    Catalog.find "zero-n-one-n" = .ok ⟨"zero-n-one-n", zeroNOneN, machine⟩ :=
  find_of_parse (by simp [texts]) parse_text

theorem sound : machine.Sound := Definition.sound_of_parse parse_text rfl

/-! ### Balanced words -/

/-- No `0` comes behind anything else, and there are as many `0`s as unmarked `1`s. -/
structure Balanced (ahead : List Symbol) : Prop where
  sorted : ahead.Pairwise fun s t ↦ t = zero → s = zero
  counts : ahead.count zero = ahead.count one

theorem balanced_nil : Balanced [] := ⟨.nil, rfl⟩

/-- Behind anything but a `0` there are no `0`s, and then no unmarked `1`s. -/
theorem Balanced.not_mem {s : Symbol} {ahead : List Symbol} (h : Balanced (s :: ahead))
    (hs : s ≠ zero) : zero ∉ s :: ahead ∧ one ∉ s :: ahead := by
  have hzero : zero ∉ s :: ahead := by
    intro hmem
    rcases List.mem_cons.1 hmem with hsame | hmem
    · exact hs hsame.symm
    · exact hs ((List.pairwise_cons.1 h.sorted).1 zero hmem rfl)
  have hcount := h.counts
  rw [List.count_eq_zero_of_not_mem hzero] at hcount
  exact ⟨hzero, List.count_eq_zero.1 hcount.symm⟩

theorem not_balanced_one (ahead : List Symbol) : ¬ Balanced (one :: ahead) := by
  intro h
  exact (h.not_mem one_ne).2 List.mem_cons_self

theorem not_balanced_zero {ahead : List Symbol} (h : one ∉ ahead) : ¬ Balanced (zero :: ahead) := by
  intro balanced
  have hcounts := balanced.counts
  have hone : one ∉ zero :: ahead := by
    rw [List.mem_cons, not_or]
    exact ⟨by decide, h⟩
  rw [List.count_cons_self, List.count_eq_zero_of_not_mem hone] at hcounts
  omega

/-- What a pass can find ahead. -/
def Word (ahead : List Symbol) : Prop := ∀ s ∈ ahead, s = zero ∨ s = one ∨ s = markedOne

theorem Word.of_cons {s : Symbol} {ahead : List Symbol} (word : Word (s :: ahead)) : Word ahead :=
  fun t ht ↦ word t (List.mem_cons_of_mem s ht)

theorem Word.of_append_left {before rest : List Symbol} (word : Word (before ++ rest)) :
    Word before :=
  fun t ht ↦ word t (List.mem_append_left rest ht)

theorem Word.eq_of_not_mem {ahead : List Symbol} (word : Word ahead) (none_left : one ∉ ahead) :
    ∀ s ∈ ahead, s = zero ∨ s = markedOne := by
  intro s hs
  rcases word s hs with h | rfl | h
  · exact .inl h
  · exact absurd hs none_left
  · exact .inr h

theorem Word.mark {before rest : List Symbol} (word : Word (before ++ one :: rest)) :
    Word (before ++ markedOne :: rest) := by
  intro s hs
  rcases List.mem_append.1 hs with h | h
  · exact word s (List.mem_append_left _ h)
  · rcases List.mem_cons.1 h with rfl | h
    · exact .inr (.inr rfl)
    · exact word s (List.mem_append_right before (List.mem_cons_of_mem one h))

/-- Without `0`s and unmarked `1`s there are only marked `1`s. -/
theorem balanced_markedOne_iff {ahead : List Symbol} (word : Word ahead) :
    Balanced (markedOne :: ahead) ↔ ∀ s ∈ ahead, s = markedOne := by
  constructor
  · intro h s hs
    obtain ⟨hzero, hone⟩ := h.not_mem (by decide)
    rcases word s hs with rfl | rfl | rfl
    · exact absurd (List.mem_cons_of_mem _ hs) hzero
    · exact absurd (List.mem_cons_of_mem _ hs) hone
    · rfl
  · intro h
    have hall : markedOne :: ahead = List.replicate (ahead.length + 1) markedOne := by
      rw [List.replicate_succ, List.eq_replicate_of_mem h, List.length_replicate]
    rw [hall]
    constructor
    · rw [List.pairwise_replicate]
      exact .inr fun hsame ↦ hsame
    · rw [List.count_replicate, List.count_replicate]
      rfl

/-- Taking away a `0` in front and marking a `1` keeps the balance. -/
theorem balanced_pass (before behind : List Symbol) :
    Balanced (zero :: (before ++ one :: behind)) ↔ Balanced (before ++ markedOne :: behind) := by
  have hmarked : markedOne ≠ zero := by decide
  have hother : markedOne ≠ one := by decide
  have hsorted : (zero :: (before ++ one :: behind)).Pairwise (fun s t ↦ t = zero → s = zero) ↔
      (before ++ markedOne :: behind).Pairwise fun s t ↦ t = zero → s = zero := by
    simp [List.pairwise_append, one_ne, hmarked]
  have hzeros : (zero :: (before ++ one :: behind)).count zero =
      (before ++ markedOne :: behind).count zero + 1 := by
    simp [List.count_append, List.count_cons_of_ne, one_ne, hmarked]
  have hones : (zero :: (before ++ one :: behind)).count one =
      (before ++ markedOne :: behind).count one + 1 := by
    simp [List.count_append, List.count_cons_of_ne, zero_ne, hother]
    omega
  constructor
  · intro h
    refine ⟨hsorted.1 h.sorted, ?_⟩
    have hcounts := h.counts
    omega
  · intro h
    refine ⟨hsorted.2 h.sorted, ?_⟩
    have hcounts := h.counts
    omega

/-- A word of `0`s and `1`s whose `0`s come first is all its `0`s and then all its `1`s. -/
theorem eq_blocks_of_sorted {word : List Symbol} (digits : Digits word)
    (sorted : word.Pairwise fun s t ↦ t = zero → s = zero) :
    word = List.replicate (word.count zero) zero ++ List.replicate (word.count one) one := by
  induction word with
  | nil => rfl
  | cons s word ih =>
    obtain ⟨hfirst, hsorted⟩ := List.pairwise_cons.1 sorted
    rcases digits s List.mem_cons_self with rfl | rfl
    · rw [List.count_cons_self, List.count_cons_of_ne zero_ne, List.replicate_succ,
        List.cons_append, ← ih digits.of_cons hsorted]
    · -- behind a `1` only `1`s are left
      have hones : ∀ t ∈ word, t = one := by
        intro t ht
        rcases digits.of_cons t ht with rfl | rfl
        · exact absurd (hfirst zero ht rfl) one_ne
        · rfl
      have hword := List.eq_replicate_of_mem hones
      rw [hword]
      simp [List.count_replicate, one_ne, List.replicate_succ]

/-- On words of `0`s and `1`s, balance is the language of the machine. -/
theorem balanced_iff_blocks {word : List Char} (digits : ∀ c ∈ word, c = '0' ∨ c = '1') :
    Balanced (word.map .plain) ↔
      ∃ n, word = List.replicate n '0' ++ List.replicate n '1' := by
  have hblocks : ∀ n, (List.replicate n '0' ++ List.replicate n '1').map Symbol.plain =
      List.replicate n zero ++ List.replicate n one := fun n ↦ by
    rw [List.map_append, List.map_replicate, List.map_replicate]
    rfl
  constructor
  · intro h
    have hword := eq_blocks_of_sorted (digits_map digits) h.sorted
    rw [← h.counts, ← hblocks, map_plain_inj] at hword
    exact ⟨_, hword⟩
  · rintro ⟨n, rfl⟩
    rw [hblocks]
    constructor
    · simp [List.pairwise_append, List.pairwise_replicate, one_ne]
    · simp [List.count_append, List.count_replicate, one_ne, zero_ne]

/-! ### Runs -/

variable {ahead : List Symbol} {bound : Nat} {v : Verdict}

/-- The last check: behind the first marked `1` there must be nothing else. -/
theorem halts_check (word : Word ahead) (behind : List Symbol) :
    ∃ v, machine.HaltsFrom "q5" [.facingRight machine.blank behind ahead] (ahead.length + 1) v ∧
      (v = .accept ↔ ∀ s ∈ ahead, s = markedOne) := by
  induction ahead generalizing behind with
  | nil =>
    have takes : machine.Takes "q5" blank "q1" blank .right := ⟨rfl, some .accept, rfl⟩
    exact ⟨.accept, .of_takes sound rfl takes .of_accept, by simp⟩
  | cons s ahead ih =>
    rcases word s List.mem_cons_self with rfl | rfl | rfl
    · have hother : zero ≠ markedOne := by decide
      refine ⟨.reject, .of_no_rule sound (rfl : _ = [zero]) rfl rfl (by decide), ?_⟩
      simp [hother]
    · have hother : one ≠ markedOne := by decide
      refine ⟨.reject, .of_no_rule sound (rfl : _ = [one]) rfl rfl (by decide), ?_⟩
      simp [hother]
    · obtain ⟨v, hhalts, hv⟩ := ih word.of_cons (markedOne :: behind)
      have takes : machine.Takes "q5" markedOne "q5" markedOne .right := ⟨rfl, none, rfl⟩
      refine ⟨v, .of_takes sound rfl takes ?_, by simpa using hv⟩
      rw [Focus.act_right_facingRight]
      exact hhalts

/-- The state that looks for a `1` goes over `0`s and marked `1`s. -/
theorem takes_seek {s : Symbol} (hs : s = zero ∨ s = markedOne) :
    machine.Takes "q3" s "q3" s .right := by
  rcases hs with rfl | rfl
  · exact ⟨rfl, none, rfl⟩
  · exact ⟨rfl, none, rfl⟩

/-- And so does the state that goes back. -/
theorem takes_back {s : Symbol} (hs : s = zero ∨ s = markedOne) :
    machine.Takes "q4" s "q4" s .left := by
  rcases hs with rfl | rfl
  · exact ⟨rfl, none, rfl⟩
  · exact ⟨rfl, none, rfl⟩

theorem takes_mark : machine.Takes "q0" zero "q3" markedZero .right := ⟨rfl, none, rfl⟩

/-- A pass that finds no `1` for its `0` rejects. -/
theorem halts_no_one (word : Word ahead) (none_left : one ∉ ahead) (behind : List Symbol) :
    machine.HaltsFrom "q0" [.facingRight machine.blank behind (zero :: ahead)] (ahead.length + 2)
      .reject := by
  have hseek : ∀ s ∈ ahead, machine.Takes "q3" s "q3" s .right :=
    fun s hs ↦ takes_seek (word.eq_of_not_mem none_left s hs)
  have hstop : machine.HaltsFrom "q3"
      [.facingRight machine.blank (ahead.reverse ++ markedZero :: behind) []] 1 .reject :=
    .of_no_rule sound (rfl : _ = [blank]) rfl rfl (by decide)
  have hsweep := hstop.sweep_right sound hseek
  rw [List.append_nil] at hsweep
  rw [show ahead.length + 2 = 1 + ahead.length + 1 by omega]
  refine .of_takes sound rfl takes_mark ?_
  rw [Focus.act_right_facingRight]
  exact hsweep

/-- A pass that finds a `1` marks it and comes back to the cell behind its `0`. -/
theorem halts_round {before rest : List Symbol} (between : ∀ s ∈ before, s = zero ∨ s = markedOne)
    {behind : List Symbol}
    (next : machine.HaltsFrom "q0"
      [.facingRight machine.blank (markedZero :: behind) (before ++ markedOne :: rest)] bound v) :
    machine.HaltsFrom "q0" [.facingRight machine.blank behind (zero :: (before ++ one :: rest))]
      (bound + 2 * before.length + 3) v := by
  have hturn : machine.Takes "q3" one "q4" markedOne .left := ⟨rfl, none, rfl⟩
  have hhome : machine.Takes "q4" markedZero "q0" markedZero .right := ⟨rfl, none, rfl⟩
  have harrive : machine.HaltsFrom "q4"
      [.facingLeft machine.blank (markedZero :: behind) (before ++ markedOne :: rest)]
      (bound + 1) v := by
    refine .of_takes sound rfl hhome ?_
    rw [Focus.act_right_facingLeft]
    exact next
  have hback : machine.HaltsFrom "q4"
      [.facingLeft machine.blank (before.reverse ++ markedZero :: behind) (markedOne :: rest)]
      (bound + 1 + before.length) v := by
    rw [← List.length_reverse]
    refine .sweep_left sound (fun s hs ↦ takes_back (between s ?_)) ?_
    · exact List.mem_reverse.1 hs
    · rw [List.reverse_reverse]
      exact harrive
  have hfound : machine.HaltsFrom "q3"
      [.facingRight machine.blank (before.reverse ++ markedZero :: behind) (one :: rest)]
      (bound + 1 + before.length + 1) v := by
    refine .of_takes sound rfl hturn ?_
    rw [Focus.act_left_facingRight]
    exact hback
  have hsweep := hfound.sweep_right sound fun s hs ↦ takes_seek (between s hs)
  rw [show bound + 2 * before.length + 3 =
    bound + 1 + before.length + 1 + before.length + 1 by omega]
  refine .of_takes sound rfl takes_mark ?_
  rw [Focus.act_right_facingRight]
  exact hsweep

/-- From the beginning of a pass, the machine accepts exactly if the cells ahead are balanced. -/
theorem halts_pass (word : Word ahead) (behind : List Symbol) :
    ∃ v, machine.HaltsFrom "q0" [.facingRight machine.blank behind ahead]
        (ahead.length ^ 2 + 1) v ∧ (v = .accept ↔ Balanced ahead) := by
  generalize hlength : ahead.length = n
  induction n generalizing ahead behind with
  | zero =>
    obtain rfl := List.length_eq_zero_iff.1 hlength
    have takes : machine.Takes "q0" blank "q1" blank .right := ⟨rfl, some .accept, rfl⟩
    exact ⟨.accept, .of_takes sound rfl takes .of_accept, by simp [balanced_nil]⟩
  | succ n ih =>
    obtain ⟨s, ahead, rfl⟩ := List.exists_cons_of_length_eq_add_one hlength
    have hrest := word.of_cons
    have hn : ahead.length = n := by simpa using hlength
    have hsquare : (n + 1) ^ 2 = n ^ 2 + 2 * n + 1 := by ring
    rcases word s List.mem_cons_self with rfl | rfl | rfl
    · by_cases hone : one ∈ ahead
      · obtain ⟨before, rest, rfl, hbefore⟩ := List.eq_append_cons_of_mem hone
        have hbetween := hrest.of_append_left.eq_of_not_mem hbefore
        simp only [List.length_append, List.length_cons] at hn
        obtain ⟨v, hhalts, hv⟩ := ih hrest.mark (markedZero :: behind) (by simpa using hn)
        exact ⟨v, (halts_round hbetween hhalts).mono (by omega),
          hv.trans (balanced_pass before rest).symm⟩
      · refine ⟨.reject, (halts_no_one hrest hone behind).mono (by omega), ?_⟩
        simp [not_balanced_zero hone]
    · refine ⟨.reject, .of_no_rule sound (rfl : _ = [one]) rfl rfl (by decide), ?_⟩
      simp [not_balanced_one]
    · obtain ⟨v, hhalts, hv⟩ := halts_check hrest (markedOne :: behind)
      have takes : machine.Takes "q0" markedOne "q5" markedOne .right := ⟨rfl, none, rfl⟩
      have hfirst : machine.HaltsFrom "q0"
          [.facingRight machine.blank behind (markedOne :: ahead)] (ahead.length + 1 + 1) v := by
        refine .of_takes sound rfl takes ?_
        rw [Focus.act_right_facingRight]
        exact hhalts
      exact ⟨v, hfirst.mono (by omega), hv.trans (balanced_markedOne_iff hrest).symm⟩

/-- On every word of `0`s and `1`s the program halts without an error, in at most the square of the
word's length and two more transitions, under every limit that leaves room for them. It accepts
exactly the words that are some number of `0`s and then as many `1`s. -/
theorem decides_two_blocks {word : List Char} (digits : ∀ c ∈ word, c = '0' ∨ c = '1')
    {limit : Option Nat} (room : ∀ l ∈ limit, (word.length + 2) ^ 2 ≤ l) (marker : String)
    {fuel : Nat} (enough : (word.length + 2) ^ 2 ≤ fuel) :
    ∃ program v last, Catalog.find "zero-n-one-n" = .ok program ∧
      ({ Machine.new program.definition with limit, marker } : Machine).run fuel word =
        some (.ok v, last) ∧
      last.steps ≤ (word.length + 2) ^ 2 ∧
      (v = .accept ↔ ∃ n, word = List.replicate n '0' ++ List.replicate n '1') := by
  have hword : Word (word.map .plain) := by
    intro s hs
    rcases digits_map digits s hs with h | h
    · exact .inl h
    · exact .inr (.inl h)
  have hsquare : (word.length + 2) ^ 2 = word.length ^ 2 + 4 * word.length + 4 := by ring
  obtain ⟨v, hhalts, hv⟩ := halts_pass hword []
  rw [List.length_map] at hhalts
  have hstart : machine.HaltsFrom machine.startState (machine.startViews word)
      ((word.length + 2) ^ 2) v := hhalts.mono (by omega)
  obtain ⟨last, hrun, hsteps⟩ := hstart.run_eq room marker enough (by omega)
  exact ⟨_, v, last, find_machine, hrun, hsteps, hv.trans (balanced_iff_blocks digits)⟩

/-- Two `0`s and two `1`s, under a limit that leaves exactly as much room as is asked for. -/
theorem decides_two_two : ∃ program last, Catalog.find "zero-n-one-n" = .ok program ∧
    ({ Machine.new program.definition with limit := some 36, marker := ">" } : Machine).run 36
      ['0', '0', '1', '1'] = some (.ok .accept, last) ∧ last.steps ≤ 36 := by
  have digits : ∀ c ∈ ['0', '0', '1', '1'], c = '0' ∨ c = '1' := by simp
  have room : ∀ l ∈ some 36, (['0', '0', '1', '1'].length + 2) ^ 2 ≤ l := by simp
  obtain ⟨program, v, last, hfind, hrun, hsteps, hv⟩ :=
    decides_two_blocks digits room ">" (Nat.le_refl _)
  obtain rfl : v = .accept := hv.2 ⟨2, rfl⟩
  exact ⟨program, last, hfind, hrun, hsteps⟩

end Multitape.ZeroNOneN
