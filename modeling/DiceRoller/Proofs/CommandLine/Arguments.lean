/-
# What the arguments mean

Flags may stand anywhere among the words of the notation, and some of them
may stand there more than once.  The program takes one argument after the
other (`listen`), and each does one thing to what was heard before.

| argument | what it does |
| :-- | :-- |
| `-a`, `-d` and their long forms | the roll type is this one, whatever it was |
| `-l`, `-u` and their long forms | the dice are lucky, or unlucky, and stay so |
| `-f` and its long form | nothing more is heard |
| any other | one more word |

So what the arguments come to can be said of all of them together
(`listen_eq`), without going through them in order.  Of the words even less
matters: they are put together with spaces, and the spaces are dropped
again with all other blanks.  What is left (`Meaning`) decides all that the
program does.
-/
import Mathlib.Data.List.Induction
import DiceRoller.CommandLine
import DiceRoller.Proofs.Rolling.Spelling

namespace DiceRoller.CommandLine

variable {σ : Type}

/-! ## Flags and words -/

def spellings : List (String × Flag) :=
  [("-a", .advantage), ("--advantage", .advantage), ("-d", .disadvantage),
    ("--disadvantage", .disadvantage), ("-l", .lucky), ("--lucky", .lucky), ("-u", .unlucky),
    ("--unlucky", .unlucky), ("-f", .formats), ("--formats", .formats)]

theorem ofText?_eq_some_iff {arg : String} {flag : Flag} :
    Flag.ofText? arg = some flag ↔ (arg, flag) ∈ spellings := by
  constructor
  · intro h
    unfold Flag.ofText? at h
    split at h <;> cases h <;> decide
  · intro h
    have hspelled : ∀ spelling ∈ spellings, Flag.ofText? spelling.1 = some spelling.2 := by decide
    exact hspelled _ h

theorem flags_append (args more : List String) : flags (args ++ more) = flags args ++ flags more :=
  List.filterMap_append

theorem words_append (args more : List String) : words (args ++ more) = words args ++ words more :=
  List.filter_append args more

theorem flags_cons (arg : String) (args : List String) :
    flags (arg :: args) = (Flag.ofText? arg).toList ++ flags args := by
  rw [flags, flags, List.filterMap_cons]
  cases Flag.ofText? arg with
  | none => rfl
  | some flag => rfl

theorem words_cons_of_none {arg : String} (h : Flag.ofText? arg = none) (args : List String) :
    words (arg :: args) = arg :: words args :=
  List.filter_cons_of_pos (by rw [h]; rfl)

theorem words_cons_of_some {arg : String} {flag : Flag} (h : Flag.ofText? arg = some flag)
    (args : List String) : words (arg :: args) = words args :=
  List.filter_cons_of_neg (by rw [h]; exact Bool.false_ne_true)

theorem flags_eq_nil {args : List String} (h : ∀ arg ∈ args, Flag.ofText? arg = none) :
    flags args = [] :=
  List.filterMap_eq_nil_iff.mpr h

theorem words_eq_self {args : List String} (h : ∀ arg ∈ args, Flag.ofText? arg = none) :
    words args = args :=
  List.filter_eq_self.mpr fun arg harg => by rw [h arg harg]; rfl

def AsksForExamples (args : List String) : Prop :=
  "-f" ∈ args ∨ "--formats" ∈ args

instance (args : List String) : Decidable (AsksForExamples args) :=
  inferInstanceAs (Decidable ("-f" ∈ args ∨ "--formats" ∈ args))

theorem formats_mem_flags_iff {args : List String} :
    Flag.formats ∈ flags args ↔ AsksForExamples args := by
  have hspelled (arg : String) :
      Flag.ofText? arg = some .formats ↔ arg = "-f" ∨ arg = "--formats" := by
    rw [ofText?_eq_some_iff]
    simp [spellings]
  simp only [flags, List.mem_filterMap, hspelled, and_or_left, exists_or, exists_eq_right,
    AsksForExamples]

/-! ## One argument after the other -/

/-- What the arguments so far came to. -/
structure Heard where
  rollType : RollType := .normal
  isLucky : Bool := false
  isUnlucky : Bool := false
  words : List String := []
  deriving DecidableEq

namespace Heard

/-- One more argument.  Nothing more is heard once examples were asked
for. -/
def hear (heard : Heard) (arg : String) : Option Heard :=
  match Flag.ofText? arg with
  | some .advantage => some { heard with rollType := .advantage }
  | some .disadvantage => some { heard with rollType := .disadvantage }
  | some .lucky => some { heard with isLucky := true }
  | some .unlucky => some { heard with isUnlucky := true }
  | some .formats => none
  | none => some { heard with words := heard.words ++ [arg] }

/-- What all arguments come to, if none asks for examples. -/
def ofArgs (args : List String) : Heard where
  rollType := CommandLine.rollType args
  isLucky := (flags args).contains .lucky
  isUnlucky := (flags args).contains .unlucky
  words := CommandLine.words args

/-- One more argument does to what was heard what it does to all arguments
together. -/
theorem hear_ofArgs (args : List String) (arg : String) :
    (ofArgs args).hear arg =
      if Flag.formats ∈ flags [arg] then none else some (ofArgs (args ++ [arg])) := by
  simp only [ofArgs, CommandLine.rollType, flags_append, words_append, flags_cons arg []]
  unfold hear
  cases harg : Flag.ofText? arg with
  | none =>
      rw [words_cons_of_none harg]
      simp [flags, CommandLine.words]
  | some flag =>
      rw [words_cons_of_some harg]
      cases flag <;> simp [flags, CommandLine.words, Flag.rollType?]

end Heard

/-- The arguments one after the other. -/
def listen (args : List String) : Option Heard :=
  args.foldlM Heard.hear {}

theorem listen_concat (args : List String) (arg : String) :
    listen (args ++ [arg]) = (listen args).bind fun heard => heard.hear arg := by
  rw [listen, List.foldlM_append]
  simp [listen]

/-- Taken together or one after the other, the arguments come to the
same. -/
theorem listen_eq (args : List String) :
    listen args = if Flag.formats ∈ flags args then none else some (.ofArgs args) := by
  -- From the back, as the last argument meets what all others came to.
  induction args using List.reverseRecOn with
  | nil => rfl
  | append_singleton args arg ih =>
      rw [listen_concat, ih]
      by_cases hformats : Flag.formats ∈ flags args
      · simp [flags_append, hformats]
      · rw [if_neg hformats, Option.bind_some, Heard.hear_ofArgs]
        simp only [flags_append, List.mem_append, hformats, false_or]

/-! ## All that matters -/

/-- All that matters about arguments that do not ask for examples.  The
letters are those of all words, without blanks. -/
structure Meaning where
  type? : Option RollType
  isLucky : Bool
  isUnlucky : Bool
  hasWord : Bool
  letters : List Char
  deriving DecidableEq

namespace Meaning

def ofArgs (args : List String) : Meaning where
  type? := ((flags args).filterMap Flag.rollType?).getLast?
  isLucky := (flags args).contains .lucky
  isUnlucky := (flags args).contains .unlucky
  hasWord := !(words args).isEmpty
  letters := dropBlanks (String.join (words args))

theorem ofArgs_congr {args args' : List String} (hflags : flags args = flags args')
    (hwords : words args = [] ↔ words args' = [])
    (hjoin : String.join (words args) = String.join (words args')) :
    ofArgs args = ofArgs args' := by
  have hisEmpty : (words args).isEmpty = (words args').isEmpty := by
    rw [Bool.eq_iff_iff, List.isEmpty_iff, List.isEmpty_iff, hwords]
  simp only [ofArgs, hflags, hisEmpty, hjoin]

theorem ofArgs_of_repeated {before after : List String} {arg : String} {flag : Flag}
    (harg : Flag.ofText? arg = some flag) (hflag : flag = .lucky ∨ flag = .unlucky)
    (hmem : flag ∈ flags (before ++ after)) :
    ofArgs (before ++ arg :: after) = ofArgs (before ++ after) := by
  rw [flags_append, List.mem_append] at hmem
  rcases hflag with rfl | rfl <;>
    simp [ofArgs, flags_append, words_append, flags_cons, words_cons_of_some harg, harg,
      Flag.rollType?, hmem]

end Meaning

section Run

variable (engine : Engine σ) {args args' : List String}

theorem run_of_formats (h : Flag.formats ∈ flags args) (stdin : List UInt8) (s : σ) :
    run engine args stdin s = (.formats, s) := by
  have hrequest : Request.ofArgs args = .formats := if_pos (List.contains_iff_mem.mpr h)
  rw [run, hrequest]

theorem run_of_words (hformats : Flag.formats ∉ flags args) (hwords : words args ≠ [])
    (stdin : List UInt8) (s : σ) :
    run engine args stdin s = rollText engine args (" ".intercalate (words args)) s := by
  have hrequest : Request.ofArgs args = .roll (" ".intercalate (words args)) := by
    rw [Request.ofArgs, if_neg (mt List.contains_iff_mem.mp hformats),
      if_neg (mt List.isEmpty_iff.mp hwords)]
  rw [run, hrequest]

theorem request_of_no_words (hformats : Flag.formats ∉ flags args) (hwords : words args = []) :
    Request.ofArgs args = .ask := by
  rw [Request.ofArgs, if_neg (mt List.contains_iff_mem.mp hformats),
    if_pos (List.isEmpty_iff.mpr hwords)]

theorem run_of_unreadable (hformats : Flag.formats ∉ flags args) (hwords : words args = [])
    {stdin : List UInt8} (hline : firstLine? stdin = none) (s : σ) :
    run engine args stdin s = (Exit.unreadable.prompted, s) := by
  rw [run, request_of_no_words hformats hwords, hline]

theorem run_of_line (hformats : Flag.formats ∉ flags args) (hwords : words args = [])
    {stdin : List UInt8} {text : String} (hline : firstLine? stdin = some text) (s : σ) :
    run engine args stdin s =
      ((rollText engine args text s).1.prompted, (rollText engine args text s).2) := by
  rw [run, request_of_no_words hformats hwords, hline]

theorem rollText_congr {text text' : String} (htype : rollType args = rollType args')
    (hbias : bias args = bias args') (htext : dropBlanks text = dropBlanks text') (s : σ) :
    rollText engine args text s = rollText engine args' text' s := by
  have hroll : engine.roll text (rollType args') (bias args') =
      engine.roll text' (rollType args') (bias args') := by
    rw [Engine.roll, Engine.roll, parse_congr htext]
  rw [rollText, rollText, htype, hbias, hroll]

/-- Arguments that mean the same do the same. -/
theorem run_congr (hformats : Flag.formats ∈ flags args ↔ Flag.formats ∈ flags args')
    (h : Meaning.ofArgs args = Meaning.ofArgs args') (stdin : List UInt8) (s : σ) :
    run engine args stdin s = run engine args' stdin s := by
  by_cases hask : Flag.formats ∈ flags args
  · rw [run_of_formats engine hask, run_of_formats engine (hformats.mp hask)]
  have hask' : Flag.formats ∉ flags args' := mt hformats.mpr hask
  have htype : rollType args = rollType args' :=
    congrArg (fun meaning => meaning.type?.getD .normal) h
  have hbias : bias args = bias args' :=
    congrArg (fun meaning : Meaning => Bias.ofFlags meaning.isLucky meaning.isUnlucky) h
  have hwords : words args = [] ↔ words args' = [] := by
    have hasWord := congrArg Meaning.hasWord h
    rw [← List.isEmpty_iff, ← List.isEmpty_iff, ← Bool.eq_iff_iff]
    exact Bool.not_inj hasWord
  by_cases hnone : words args = []
  · have hnone' : words args' = [] := hwords.mp hnone
    cases hline : firstLine? stdin with
    | none =>
        rw [run_of_unreadable engine hask hnone hline, run_of_unreadable engine hask' hnone' hline]
    | some text =>
        rw [run_of_line engine hask hnone hline, run_of_line engine hask' hnone' hline,
          rollText_congr engine htype hbias rfl]
  · have hletters : dropBlanks (" ".intercalate (words args)) =
        dropBlanks (" ".intercalate (words args')) := by
      rw [dropBlanks_intercalate, dropBlanks_intercalate]
      exact congrArg Meaning.letters h
    rw [run_of_words engine hask hnone, run_of_words engine hask' (mt hwords.mpr hnone)]
    exact rollText_congr engine htype hbias hletters s

/-- It does not matter where the arguments stand, only what they mean.

A request for examples is met wherever it stands, and nothing is read or
drawn for it.  Without one all that is done is decided by the meaning.  So
flags may stand anywhere among the words, a flag for lucky or unlucky dice
counts once, and the notation may be cut into any words that are no
flags. -/
theorem arguments_act_by_meaning (stdin : List UInt8) (s : σ) :
    (∀ args, listen args = if AsksForExamples args then none else some (.ofArgs args)) ∧
    (∀ args, AsksForExamples args → run engine args stdin s =
      (⟨0, ", ".intercalate exampleFormats ++ "\n", "", none⟩, s)) ∧
    (∀ args args', ¬AsksForExamples args → ¬AsksForExamples args' →
      Meaning.ofArgs args = Meaning.ofArgs args' →
      run engine args stdin s = run engine args' stdin s) ∧
    (∀ args args', flags args = flags args' → words args = words args' →
      run engine args stdin s = run engine args' stdin s) ∧
    (∀ before after arg flag, Flag.ofText? arg = some flag → flag = .lucky ∨ flag = .unlucky →
      flag ∈ flags (before ++ after) →
      run engine (before ++ arg :: after) stdin s = run engine (before ++ after) stdin s) ∧
    ∀ before pieces after, pieces ≠ [] → (∀ piece ∈ pieces, Flag.ofText? piece = none) →
      Flag.ofText? (String.join pieces) = none →
      run engine (before ++ String.join pieces :: after) stdin s =
        run engine (before ++ (pieces ++ after)) stdin s := by
  refine ⟨fun args => ?loop, fun args h => ?examples, fun args args' h h' hmeaning => ?meaning,
    fun args args' hflags hwords => ?shuffled,
    fun before after arg flag harg hflag hmem => ?repeated,
    fun before pieces after hne hpieces hjoin => ?cut⟩
  case loop => simp only [listen_eq, formats_mem_flags_iff]
  case examples => exact run_of_formats engine (formats_mem_flags_iff.mpr h) stdin s
  case meaning =>
    rw [← formats_mem_flags_iff] at h h'
    exact run_congr engine (iff_of_false h h') hmeaning stdin s
  case shuffled =>
    refine run_congr engine (by rw [hflags]) (Meaning.ofArgs_congr hflags ?_ ?_) stdin s
    · rw [hwords]
    · rw [hwords]
  case repeated =>
    -- The flag is not the one for examples, so these are asked for as before.
    refine run_congr engine ?_ (Meaning.ofArgs_of_repeated harg hflag hmem) stdin s
    rcases hflag with rfl | rfl <;> simp [flags_append, flags_cons, harg]
  case cut =>
    have hflags : flags (before ++ String.join pieces :: after) =
        flags (before ++ (pieces ++ after)) := by
      simp only [flags_append, flags_cons, hjoin, flags_eq_nil hpieces]
      rfl
    refine run_congr engine (by rw [hflags]) (Meaning.ofArgs_congr hflags ?_ ?_) stdin s
    · simp [words_append, words_cons_of_none hjoin, words_eq_self hpieces, hne]
    · simp [words_append, words_cons_of_none hjoin, words_eq_self hpieces]

/-- Flags among the words, one of them twice, and a number with a sign, which
is a word, before two dice are rolled; and a request for examples. -/
theorem arguments_act_by_meaning_two_dice :
    (run ⟨.listed, default⟩ ["-a", "2", "-l", "d6", "-d", "-2", "--lucky"] [] [5, 6, 4, 5] =
      run ⟨.listed, default⟩ ["-l", "-d", "2d6", "-2"] [] [5, 6, 4, 5]) ∧
    (run ⟨.listed, default⟩ ["-l", "2d6", "--disadvantage", "-2"] [] [5, 6, 4, 5] =
      run ⟨.listed, default⟩ ["2d6", "-2", "-l", "-d"] [] [5, 6, 4, 5]) ∧
    (run ⟨.listed, default⟩ ["-u", "2d6", "--unlucky"] [] [5, 6, 4, 5] =
      run ⟨.listed, default⟩ ["-u", "2d6"] [] [5, 6, 4, 5]) ∧
    (run ⟨.listed, default⟩ ["-l", "2d6-2"] [] [5, 6, 4, 5] =
      run ⟨.listed, default⟩ ["-l", "2", "d6", "-2"] [] [5, 6, 4, 5]) ∧
    run ⟨.listed, default⟩ ["2d6", "--formats", "-a"] [] [5, 6, 4, 5] =
      (⟨0, ", ".intercalate exampleFormats ++ "\n", "", none⟩, [5, 6, 4, 5]) := by
  obtain ⟨-, examples, meaning, shuffled, repeated, cut⟩ :=
    arguments_act_by_meaning (⟨.listed, default⟩ : Engine (List Nat)) [] [5, 6, 4, 5]
  refine ⟨?_, ?_, ?_, ?_, ?_⟩
  · exact meaning _ _ (by decide) (by decide) (by decide)
  · exact shuffled _ _ (by decide) (by decide)
  · exact repeated ["-u", "2d6"] [] "--unlucky" .unlucky rfl (.inr rfl) (by decide)
  · exact cut ["-l"] ["2", "d6", "-2"] [] (by decide) (by decide) (by decide)
  · exact examples _ (by decide)

end Run

end DiceRoller.CommandLine
