import Multitape.CommandLine.Session
import Multitape.Proofs.Catalog
import Multitape.Proofs.Sections

/-!
The lines of standard input. Lines are parted as bytes and only then read as text. A byte below 128
in the bytes of a text is a character of the text (`eq_of_mem_utf8EncodeChar`), so that the lines of
the bytes are the bytes of the lines (`byteLinesFrom_bytesOf`) and are read as these lines
(`map_textOf?_byteLines`). A text made of lines has them for its lines, unless one of them has a
line feed in it or ends in a carriage return (`lines_unlines`).
-/

set_option autoImplicit false
set_option relaxedAutoImplicit false

namespace Multitape

/-! ### Texts made of lines -/

namespace Text

/-- A text made of lines has these lines, unless a line feed or a carriage return is taken for a
line's end. -/
theorem lines_unlines {texts : List String}
    (h : ∀ text ∈ texts, '\n' ∉ text.toList ∧ text.toList.getLast? ≠ some '\r') :
    lines (unlines texts).toList = texts.map String.toList := by
  rw [toList_unlines]
  induction texts with
  | nil => rfl
  | cons text texts ih =>
    obtain ⟨hunbroken, hend⟩ := h text List.mem_cons_self
    rw [List.flatMap_cons, List.append_assoc, List.singleton_append, lines_line hunbroken hend,
      ih fun other hother ↦ h other (.tail text hother), List.map_cons]

end Text

namespace CommandLine

/-! ### The bytes of a text -/

/-- The bytes of characters. -/
def bytesOf (text : List Char) : List UInt8 := text.flatMap String.utf8EncodeChar

theorem toList_loop (bytes : ByteArray) (i : Nat) (read : List UInt8) :
    ByteArray.toList.loop bytes i read = read.reverse ++ bytes.data.toList.drop i := by
  fun_induction ByteArray.toList.loop bytes i read with
  | case1 i read inside ih =>
    have hlt : i < bytes.data.toList.length := by simpa using inside
    have hbyte : bytes.get! i = bytes.data.toList[i] := getElem!_pos bytes.data i inside
    rw [ih, List.drop_eq_getElem_cons hlt, hbyte]
    simp
  | case2 i read outside =>
    rw [List.drop_eq_nil_of_le (by simpa using outside), List.append_nil]

theorem toList_eq_data (bytes : ByteArray) : bytes.toList = bytes.data.toList := by
  rw [ByteArray.toList, toList_loop]
  rfl

theorem toList_toUTF8 (text : String) : text.toUTF8.toList = bytesOf text.toList := by
  have hbytes : text.toUTF8 = text.toList.utf8Encode := (String.utf8Encode_toList).symm
  rw [toList_eq_data, hbytes, List.utf8Encode, List.toList_data_toByteArray, bytesOf]

/-- The bytes of a text are read as that text. -/
theorem textOf?_bytesOf (text : List Char) :
    textOf? (bytesOf text) = some (String.ofList text) := by
  have hbytes : (⟨(bytesOf text).toArray⟩ : ByteArray) = (String.ofList text).toUTF8 := by
    rw [← String.toList_ofList (l := text), ← toList_toUTF8, toList_eq_data, String.toList_ofList]
  rw [textOf?, hbytes]
  exact dif_pos (String.ofList text).isValidUTF8

/-- The bytes of a character are the character itself, or all of them are above 127. -/
theorem utf8EncodeChar_cases (c : Char) :
    (c.toNat < 128 ∧ String.utf8EncodeChar c = [UInt8.ofNat c.toNat]) ∨
      ∀ b ∈ String.utf8EncodeChar c, 128 ≤ b.toNat := by
  rw [String.utf8EncodeChar]
  split_ifs with hone htwo hthree
  · exact .inl ⟨Nat.lt_succ_of_le hone, rfl⟩
  all_goals
    refine .inr ?_
    simp only [List.forall_mem_cons, List.not_mem_nil, false_implies, implies_true, and_true,
      UInt8.toNat_ofNat']
    omega

/-- A byte below 128 is in the bytes of the one character that it is. -/
theorem eq_of_mem_utf8EncodeChar {c : Char} {b : UInt8} (small : b.toNat < 128)
    (h : b ∈ String.utf8EncodeChar c) : c.toNat = b.toNat := by
  rcases utf8EncodeChar_cases c with ⟨hsmall, hself⟩ | hlarge
  · rw [hself, List.mem_singleton] at h
    rw [h, UInt8.toNat_ofNat']
    omega
  · have := hlarge b h
    omega

theorem lineFeed_notMem_utf8EncodeChar {c : Char} (h : c ≠ '\n') :
    10 ∉ String.utf8EncodeChar c :=
  fun hmem ↦ h (Char.toNat_inj.1 (eq_of_mem_utf8EncodeChar (by decide) hmem))

/-! ### Lines -/

/-- The bytes of characters that are listed last one first. -/
def bytesOfReversed (begun : List Char) : List UInt8 := (bytesOf begun.reverse).reverse

theorem bytesOfReversed_cons (c : Char) (begun : List Char) :
    bytesOfReversed (c :: begun) = (String.utf8EncodeChar c).reverse ++ bytesOfReversed begun := by
  simp [bytesOfReversed, bytesOf]

theorem isEmpty_bytesOfReversed (begun : List Char) :
    (bytesOfReversed begun).isEmpty = begun.isEmpty := by
  cases begun with
  | nil => rfl
  | cons c begun => simp [bytesOfReversed_cons, String.utf8EncodeChar_ne_nil]

theorem byteLinesFrom_lineFeed {begun rest : List UInt8} (ended : begun.head? ≠ some 13) :
    byteLinesFrom begun (10 :: rest) = begun.reverse :: byteLinesFrom [] rest := by
  rw [byteLinesFrom]
  · rfl
  · rintro line rfl
    exact ended rfl

theorem byteLinesFrom_cons {b : UInt8} {begun rest : List UInt8} (h : b ≠ 10) :
    byteLinesFrom begun (b :: rest) = byteLinesFrom (b :: begun) rest := by
  cases begun <;> simp [byteLinesFrom, h]

theorem byteLinesFrom_append {bytes begun rest : List UInt8} (unbroken : 10 ∉ bytes) :
    byteLinesFrom begun (bytes ++ rest) = byteLinesFrom (bytes.reverse ++ begun) rest := by
  induction bytes generalizing begun with
  | nil => rfl
  | cons b bytes ih =>
    have hb : b ≠ 10 := fun hb ↦ unbroken (hb ▸ List.mem_cons_self)
    rw [List.cons_append, byteLinesFrom_cons hb, ih fun hmem ↦ unbroken (.tail b hmem)]
    simp

theorem head?_bytesOfReversed {begun : List Char} (h : begun.head? ≠ some '\r') :
    (bytesOfReversed begun).head? ≠ some 13 := by
  cases begun with
  | nil => simp [bytesOfReversed, bytesOf]
  | cons c begun =>
    intro hhead
    rw [bytesOfReversed_cons, List.head?_append_of_ne_nil _
      (by simp)] at hhead
    have hmem : 13 ∈ String.utf8EncodeChar c := List.mem_reverse.1 (List.mem_of_head? hhead)
    have hreturn : c = '\r' := Char.toNat_inj.1 (eq_of_mem_utf8EncodeChar (by decide) hmem)
    exact h (by rw [hreturn, List.head?_cons])

/-- A carriage return before a line feed is dropped with it, as a byte as well as as a character. -/
theorem byteLinesFrom_bytesOfReversed (begun : List Char) (rest : List UInt8) :
    byteLinesFrom (bytesOfReversed begun) (10 :: rest) =
      bytesOf (Text.dropReturn begun).reverse :: byteLinesFrom [] rest := by
  unfold Text.dropReturn
  split
  · next begun =>
    have hbytes : bytesOfReversed ('\r' :: begun) = 13 :: bytesOfReversed begun :=
      bytesOfReversed_cons '\r' begun
    have hline : bytesOf begun.reverse = (bytesOfReversed begun).reverse := by
      rw [bytesOfReversed, List.reverse_reverse]
    rw [hbytes, hline]
    rfl
  · next hplain =>
    have hhead : begun.head? ≠ some '\r' := by
      intro hhead
      obtain ⟨rest, rfl⟩ := List.head?_eq_some_iff.1 hhead
      exact hplain rest rfl
    rw [byteLinesFrom_lineFeed (head?_bytesOfReversed hhead), bytesOfReversed,
      List.reverse_reverse]

/-- The lines of the bytes are the bytes of the lines. -/
theorem byteLinesFrom_bytesOf (begun rest : List Char) :
    byteLinesFrom (bytesOfReversed begun) (bytesOf rest) =
      (Text.linesFrom begun rest).map bytesOf := by
  induction rest generalizing begun with
  | nil =>
    change (if (bytesOfReversed begun).isEmpty then [] else [(bytesOfReversed begun).reverse]) = _
    rw [isEmpty_bytesOfReversed, Text.linesFrom, apply_ite (List.map bytesOf), bytesOfReversed,
      List.reverse_reverse]
    rfl
  | cons c rest ih =>
    rw [Text.linesFrom]
    by_cases hc : c = '\n'
    · rw [if_pos hc, List.map_cons, ← ih [], hc]
      exact byteLinesFrom_bytesOfReversed begun (bytesOf rest)
    · rw [if_neg hc, ← ih (c :: begun), bytesOfReversed_cons,
        ← byteLinesFrom_append (lineFeed_notMem_utf8EncodeChar hc)]
      rfl

/-- The lines of a text that is read as bytes. -/
theorem map_textOf?_byteLines (text : String) :
    (byteLinesFrom [] text.toUTF8.toList).map textOf? =
      (Text.lines text.toList).map fun line ↦ some (String.ofList line) := by
  have hlines := byteLinesFrom_bytesOf [] text.toList
  change byteLinesFrom [] (bytesOf text.toList) = (Text.lines text.toList).map bytesOf at hlines
  rw [toList_toUTF8, hlines, List.map_map]
  exact List.map_congr_left fun line _ ↦ textOf?_bytesOf line

end CommandLine

end Multitape
