/-
# Notation that is typed in

Without words among the arguments the program asks for notation and reads
one line of the standard input.  The line is bytes, and they need not be
text.

| the first line | what comes of it |
| :-- | :-- |
| not text | it cannot be read |
| text | what a word gives that is this text after a space |
| empty, or no line at all | the same, of an empty text |

The space does two things.  It keeps the word from being taken for a flag,
as the line is not taken for one whatever it spells; and it is dropped with
the other blanks before the word is read.  A carriage return at the end of
the line is dropped in the same way.
-/
import Mathlib.Data.List.TakeWhile
import DiceRoller.Proofs.CommandLine.Arguments

namespace DiceRoller.CommandLine

variable {σ : Type}

/-! ## The first line -/

/-- What the input begins with, up to the first newline, which is byte 10, or
to its end. -/
inductive IsFirstLine : List UInt8 → List UInt8 → Prop
  | ended {line more : List UInt8} : 10 ∉ line → IsFirstLine (line ++ 10 :: more) line
  | last {line : List UInt8} : 10 ∉ line → IsFirstLine line line

theorem ne_newline {line : List UInt8} (hline : 10 ∉ line) :
    ∀ byte ∈ line, decide (byte ≠ 10) = true := by
  intro byte hmem
  exact decide_eq_true (ne_of_mem_of_not_mem hmem hline)

theorem not_mem_firstLine (stdin : List UInt8) : 10 ∉ firstLine stdin := by
  intro h
  simpa using List.mem_takeWhile_imp h

theorem IsFirstLine.firstLine_eq {stdin line : List UInt8} (h : IsFirstLine stdin line) :
    firstLine stdin = line := by
  cases h with
  | ended hline =>
      rw [firstLine, List.takeWhile_append_of_pos (ne_newline hline),
        List.takeWhile_cons_of_neg (by decide), List.append_nil]
  | last hline => exact List.takeWhile_eq_self_iff.mpr (ne_newline hline)

theorem isFirstLine_firstLine (stdin : List UInt8) : IsFirstLine stdin (firstLine stdin) := by
  have hline := not_mem_firstLine stdin
  have hparts : firstLine stdin ++ stdin.dropWhile (· ≠ 10) = stdin :=
    List.takeWhile_append_dropWhile
  -- What is left is nothing, or it begins with the newline that ends the line.
  cases hrest : stdin.dropWhile (· ≠ 10) with
  | nil =>
      have hall : firstLine stdin = stdin := by rwa [hrest, List.append_nil] at hparts
      rw [hall] at hline ⊢
      exact .last hline
  | cons byte more =>
      have hbyte : byte = 10 := by
        have hhead := List.head?_dropWhile_not (fun byte : UInt8 => decide (byte ≠ 10)) stdin
        rw [hrest] at hhead
        simpa using hhead
      rw [hrest, hbyte] at hparts
      have hended : IsFirstLine (firstLine stdin ++ 10 :: more) (firstLine stdin) := .ended hline
      rwa [hparts] at hended

/-! ## Bytes and text -/

def utf8 (text : String) : List UInt8 :=
  text.toUTF8.data.toList

theorem fromUTF8?_eq_some_iff {bytes : ByteArray} {text : String} :
    String.fromUTF8? bytes = some text ↔ text.toUTF8 = bytes := by
  constructor
  · intro h
    unfold String.fromUTF8? at h
    split at h
    · cases h
      rfl
    · exact nomatch h
  · rintro rfl
    exact dif_pos text.isValidUTF8

theorem firstLine?_eq_some_iff {stdin : List UInt8} {text : String} :
    firstLine? stdin = some text ↔ utf8 text = firstLine stdin := by
  rw [firstLine?, fromUTF8?_eq_some_iff, ByteArray.ext_iff, utf8]
  exact ⟨fun h => by rw [h], fun h => by rw [← h]⟩

theorem firstLine?_eq_none_iff {stdin : List UInt8} :
    firstLine? stdin = none ↔ ∀ text, utf8 text ≠ firstLine stdin := by
  simp only [Option.eq_none_iff_forall_ne_some, ne_eq, firstLine?_eq_some_iff]

/-! ## Words that are no flags -/

theorem head?_of_flag {arg : String} {flag : Flag} (h : Flag.ofText? arg = some flag) :
    arg.toList.head? = some '-' := by
  have hspelled : ∀ spelling ∈ spellings, spelling.1.toList.head? = some '-' := by decide
  exact hspelled _ (ofText?_eq_some_iff.mp h)

theorem ofText?_space_append (text : String) : Flag.ofText? (" " ++ text) = none := by
  rw [Option.eq_none_iff_forall_ne_some]
  intro flag hflag
  have hhead := head?_of_flag hflag
  simp at hhead

def rollFlags : List String :=
  ["-a", "--advantage", "-d", "--disadvantage", "-l", "--lucky", "-u", "--unlucky"]

theorem ofText?_of_mem_rollFlags {arg : String} (h : arg ∈ rollFlags) :
    ∃ flag, Flag.ofText? arg = some flag ∧ flag ≠ .formats := by
  revert arg
  decide

theorem words_of_rollFlags {args : List String} (hargs : ∀ arg ∈ args, arg ∈ rollFlags) :
    words args = [] := by
  rw [words, List.filter_eq_nil_iff]
  intro arg hmem
  obtain ⟨flag, hflag, -⟩ := ofText?_of_mem_rollFlags (hargs arg hmem)
  rw [hflag]
  exact Bool.false_ne_true

theorem formats_not_mem_of_rollFlags {args : List String}
    (hargs : ∀ arg ∈ args, arg ∈ rollFlags) : Flag.formats ∉ flags args := by
  intro hformats
  obtain ⟨arg, hmem, harg⟩ := List.mem_filterMap.mp hformats
  obtain ⟨flag, hflag, hne⟩ := ofText?_of_mem_rollFlags (hargs arg hmem)
  exact hne (Option.some.inj (hflag.symm.trans harg))

/-! ## Asking and reading -/

section Ask

variable (engine : Engine σ)

theorem run_of_firstLine_eq (args : List String) {stdin stdin' : List UInt8}
    (h : firstLine stdin = firstLine stdin') (s : σ) :
    run engine args stdin s = run engine args stdin' s := by
  have hline : firstLine? stdin = firstLine? stdin' := by rw [firstLine?, firstLine?, h]
  rw [run, run, hline]

variable {args : List String} (hargs : ∀ arg ∈ args, arg ∈ rollFlags)

include hargs

theorem run_of_typed {stdin : List UInt8} {text : String} (htext : utf8 text = firstLine stdin)
    (s : σ) :
    run engine args stdin s =
      ((rollText engine args text s).1.prompted, (rollText engine args text s).2) :=
  run_of_line engine (formats_not_mem_of_rollFlags hargs) (words_of_rollFlags hargs)
    (firstLine?_eq_some_iff.mpr htext) s

/-- A text after a space is the one word between the flags, and is rolled
like the text. -/
theorem run_of_spaced {before after : List String} (hsplit : before ++ after = args)
    (text : String) (stdin : List UInt8) (s : σ) :
    flags (before ++ (" " ++ text) :: after) = flags args ∧
      words (before ++ (" " ++ text) :: after) = [" " ++ text] ∧
      run engine (before ++ (" " ++ text) :: after) stdin s = rollText engine args text s := by
  have hspaced := ofText?_space_append text
  have hflags : flags (before ++ (" " ++ text) :: after) = flags args := by
    rw [← hsplit, flags_append, flags_append, flags_cons, hspaced]
    rfl
  have hwords : words (before ++ (" " ++ text) :: after) = [" " ++ text] := by
    have hnone := words_of_rollFlags hargs
    rw [← hsplit, words_append, List.append_eq_nil_iff] at hnone
    rw [words_append, words_cons_of_none hspaced, hnone.1, hnone.2, List.nil_append]
  refine ⟨hflags, hwords, ?_⟩
  rw [run_of_words engine (by rw [hflags]; exact formats_not_mem_of_rollFlags hargs)
    (by rw [hwords]; exact List.cons_ne_nil _ _), hwords, String.intercalate_singleton]
  refine rollText_congr engine ?_ ?_ (dropBlanks_space_append text) s
  · rw [rollType, rollType, hflags]
  · rw [bias, bias, hflags]

theorem run_line_congr {stdin stdin' : List UInt8} {text text' : String}
    (h : utf8 text = firstLine stdin) (h' : utf8 text' = firstLine stdin')
    (htext : dropBlanks text = dropBlanks text') (s : σ) :
    run engine args stdin s = run engine args stdin' s := by
  rw [run_of_typed engine hargs h, run_of_typed engine hargs h',
    rollText_congr engine rfl rfl htext]

/-- A line that is typed in does what a word does that is this line after a
space, wherever the word stands among the flags; only the question comes
first.  A line that is no text cannot be read.  What follows the line is
never looked at, nor is a carriage return at its end. -/
theorem line_is_rolled_as_word (stdin : List UInt8) (s : σ) :
    (∀ line, IsFirstLine stdin line ↔ line = firstLine stdin) ∧
    ((∀ text, utf8 text ≠ firstLine stdin) → run engine args stdin s =
      (⟨1, "Enter dice notation: ",
        "Unable to read dice notation: stream did not contain valid UTF-8\n", none⟩, s)) ∧
    (∀ text, utf8 text = firstLine stdin → ∀ before after, before ++ after = args → ∀ stdin',
      flags (before ++ (" " ++ text) :: after) = flags args ∧
      words (before ++ (" " ++ text) :: after) = [" " ++ text] ∧
      ∃ exit s', run engine (before ++ (" " ++ text) :: after) stdin' s = (exit, s') ∧
        run engine args stdin s =
          ({ exit with stdout := "Enter dice notation: " ++ exit.stdout }, s')) ∧
    (∀ stdin', IsFirstLine stdin' (firstLine stdin) →
      run engine args stdin' s = run engine args stdin s) ∧
    ∀ text stdin', utf8 text = firstLine stdin → utf8 (text ++ "\r") = firstLine stdin' →
      run engine args stdin' s = run engine args stdin s := by
  refine ⟨fun line => ?line, fun hnone => ?unreadable,
    fun text htext before after hsplit stdin' => ?text, fun stdin' hline => ?rest,
    fun text stdin' htext htext' => ?carriageReturn⟩
  case line =>
    constructor
    · intro hline
      exact hline.firstLine_eq.symm
    · rintro rfl
      exact isFirstLine_firstLine stdin
  case unreadable =>
    exact run_of_unreadable engine (formats_not_mem_of_rollFlags hargs) (words_of_rollFlags hargs)
      (firstLine?_eq_none_iff.mpr hnone) s
  case text =>
    obtain ⟨hflags, hwords, hspaced⟩ := run_of_spaced engine hargs hsplit text stdin' s
    exact ⟨hflags, hwords, _, _, hspaced, run_of_typed engine hargs htext s⟩
  case rest => exact run_of_firstLine_eq engine args hline.firstLine_eq s
  case carriageReturn =>
    have hreturn : dropBlanks "\r" = [] := by decide
    have hsame : dropBlanks (text ++ "\r") = dropBlanks text := by
      rw [dropBlanks_append, hreturn, List.append_nil]
    exact run_line_congr engine hargs htext' htext hsame s

end Ask

/-- A line that spells a flag, before a byte that is no text: it is a word,
and malformed.  The same byte in the first line: it cannot be read.  And a
line of two dice with a carriage return at its end. -/
theorem line_is_rolled_as_word_after_flag :
    (∃ exit s, run ⟨.listed, default⟩ [" -f", "-a"] [] [3, 4] = (exit, s) ∧
      run ⟨.listed, default⟩ ["-a"] [45, 102, 10, 255] [3, 4] =
        ({ exit with stdout := "Enter dice notation: " ++ exit.stdout }, s)) ∧
    run ⟨.listed, default⟩ ["-a"] [45, 102, 10] [3, 4] =
      run ⟨.listed, default⟩ ["-a"] [45, 102, 10, 255] [3, 4] ∧
    run ⟨.listed, default⟩ ["-a"] [45, 255] [3, 4] =
      (⟨1, "Enter dice notation: ",
        "Unable to read dice notation: stream did not contain valid UTF-8\n", none⟩, [3, 4]) ∧
    run ⟨.listed, default⟩ ["-a"] [50, 100, 54, 13, 10] [3, 4] =
      run ⟨.listed, default⟩ ["-a"] [50, 100, 54] [3, 4] := by
  have hargs : ∀ arg ∈ ["-a"], arg ∈ rollFlags := by decide
  obtain ⟨-, -, word, rest, -⟩ := line_is_rolled_as_word (⟨.listed, default⟩ : Engine (List Nat))
    hargs [45, 102, 10, 255] [3, 4]
  obtain ⟨-, unreadable, -⟩ := line_is_rolled_as_word (⟨.listed, default⟩ : Engine (List Nat))
    hargs [45, 255] [3, 4]
  obtain ⟨-, -, -, -, carriageReturn⟩ :=
    line_is_rolled_as_word (⟨.listed, default⟩ : Engine (List Nat)) hargs [50, 100, 54] [3, 4]
  obtain ⟨-, -, hword⟩ := word "-f" (by decide) [] ["-a"] rfl []
  have hline : IsFirstLine ([45, 102] ++ 10 :: []) [45, 102] := .ended (by decide)
  exact ⟨hword, rest [45, 102, 10] hline, unreadable (firstLine?_eq_none_iff.mp (by decide)),
    carriageReturn "2d6" [50, 100, 54, 13, 10] (by decide) (by decide)⟩

end DiceRoller.CommandLine
