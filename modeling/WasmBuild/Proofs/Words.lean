import Mathlib.Data.List.Forall2
import WasmBuild.Command
import WasmBuild.Flags.File

/-! The text of a command, taken apart by a shell. The shell is given by its rules for words
alone, without regard to how the text is written, and it finds the words of the command. -/

namespace WasmBuild

namespace Shell

/-- Characters that do more outside of quotes than to stand in a word or between words. -/
def specialChars : List Char :=
  ['\n', '"', '|', '&', ';', '<', '>', '(', ')', '$', '`', '*', '?', '[', '#', '~', '%']

/-- Reads words inside or outside of apostrophes, given what is read of a word, if one has
begun. Blanks end a word, and a backslash takes the next character, unless that ends the line.
A text in which anything else is special is more than words. -/
def splitFrom : Bool → Option (List Char) → List Char → Option (List (List Char))
  | true, _, [] => none
  | true, word, '\'' :: rest => splitFrom false word rest
  | true, word, c :: rest => splitFrom true (some (word.getD [] ++ [c])) rest
  | false, word, [] => some word.toList
  | false, word, '\'' :: rest => splitFrom true (some (word.getD [])) rest
  | false, _, ['\\'] => none
  | false, word, '\\' :: '\n' :: rest => splitFrom false word rest
  | false, word, '\\' :: c :: rest => splitFrom false (some (word.getD [] ++ [c])) rest
  | false, word, c :: rest =>
    if c = ' ' ∨ c = '\t' then (splitFrom false none rest).map (word.toList ++ ·)
    else if specialChars.contains c then none
    else splitFrom false (some (word.getD [] ++ [c])) rest

def split (text : String) : Option (List String) :=
  (splitFrom false none text.toList).map fun words => words.map String.ofList

section Plain

variable {c d : Char}

theorem ne_of_isPlain (hc : isPlain c = true) (hd : isPlain d = false) : c ≠ d := by
  rintro rfl
  rw [hc] at hd
  cases hd

theorem not_special_of_isPlain (hc : isPlain c = true) : ¬specialChars.contains c = true := by
  intro hspecial
  have hall : specialChars.all (fun d => !isPlain d) = true := by decide
  have hmem : c ∈ specialChars := List.contains_iff_mem.mp hspecial
  have hnot : isPlain c = false := by simpa using List.all_eq_true.mp hall c hmem
  exact ne_of_isPlain hc hnot rfl

theorem toNat_of_isAlphanum (hc : c.isAlphanum = true) : 48 ≤ c.toNat ∧ c.toNat ≤ 122 := by
  have hranges : ((decide (c.val ≥ 'A'.val ∧ c.val ≤ 'Z'.val) ||
      (decide (c.val ≥ 'a'.val) && decide (c.val ≤ 'z'.val))) ||
      (decide (c.val ≥ '0'.val) && decide (c.val ≤ '9'.val))) = true := hc
  simp only [Bool.or_eq_true, Bool.and_eq_true, decide_eq_true_eq, ge_iff_le,
    UInt32.le_iff_toNat_le] at hranges
  have hval : c.toNat = c.val.toNat := rfl
  have hupper : 'A'.val.toNat = 65 ∧ 'Z'.val.toNat = 90 := ⟨rfl, rfl⟩
  have hlower : 'a'.val.toNat = 97 ∧ 'z'.val.toNat = 122 := ⟨rfl, rfl⟩
  have hdigit : '0'.val.toNat = 48 ∧ '9'.val.toNat = 57 := ⟨rfl, rfl⟩
  omega

theorem not_isBlank_of_isPlain (hc : isPlain c = true) : Text.isBlank c = false := by
  have hpunctuation : ['-', '_', '.', '/', '=', ':', ',', '+', '@'].all
      (fun d => !Text.isBlank d) = true := by decide
  rcases Bool.or_eq_true_iff.mp hc with halnum | hmem
  · have hrange := toNat_of_isAlphanum halnum
    simp only [Text.isBlank, Bool.or_eq_false_iff, Bool.and_eq_false_iff, decide_eq_false_iff_not,
      beq_eq_false_iff_ne]
    omega
  · simpa using List.all_eq_true.mp hpunctuation c (List.contains_iff_mem.mp hmem)

end Plain

section Reading

variable {c : Char} {cs text word rest : List Char} {begun : Option (List Char)}

theorem splitFrom_plain_cons (hc : isPlain c = true) :
    splitFrom false begun (c :: rest) = splitFrom false (some (begun.getD [] ++ [c])) rest := by
  have hquote : c ≠ '\'' := ne_of_isPlain hc (by decide)
  have hescape : c ≠ '\\' := ne_of_isPlain hc (by decide)
  have hspace : c ≠ ' ' := ne_of_isPlain hc (by decide)
  have htab : c ≠ '\t' := ne_of_isPlain hc (by decide)
  have hspecial : ¬specialChars.contains c = true := not_special_of_isPlain hc
  rw [splitFrom]
  · rw [if_neg (by simp [hspace, htab]), if_neg hspecial]
  all_goals simp [hquote, hescape]

/-- Plain characters are read as they stand. -/
theorem splitFrom_plain (hne : cs ≠ []) (hcs : ∀ c ∈ cs, isPlain c = true) :
    splitFrom false begun (cs ++ rest) = splitFrom false (some (begun.getD [] ++ cs)) rest := by
  induction cs generalizing begun with
  | nil => exact absurd rfl hne
  | cons c cs ih =>
    rw [List.cons_append, splitFrom_plain_cons (hcs c List.mem_cons_self)]
    by_cases hnil : cs = []
    · rw [hnil, List.nil_append]
    · rw [ih hnil fun d hd => hcs d (List.mem_cons_of_mem c hd)]
      simp

/-- Between apostrophes everything is read as it stands, and an escaped apostrophe leaves them
and comes back. -/
theorem splitFrom_escaped (cs : List Char) :
    splitFrom true (some word) (cs.flatMap escapeApostrophe ++ '\'' :: rest) =
      splitFrom false (some (word ++ cs)) rest := by
  induction cs generalizing word with
  | nil => simp [splitFrom]
  | cons c cs ih =>
    rw [List.flatMap_cons, List.append_assoc, List.append_cons word c cs, ← ih]
    by_cases hc : c = '\''
    · subst hc
      simp [escapeApostrophe, splitFrom]
    · simp [escapeApostrophe, splitFrom, hc]

theorem quoteChars_cases (cs : List Char) :
    (quoteChars cs = cs ∧ cs ≠ [] ∧ ∀ c ∈ cs, isPlain c = true) ∨
      quoteChars cs = '\'' :: (cs.flatMap escapeApostrophe ++ ['\'']) := by
  by_cases h : (!cs.isEmpty && cs.all isPlain) = true
  · refine .inl ⟨if_pos h, ?_⟩
    simpa using h
  · exact .inr (if_neg h)

theorem splitFrom_quote (cs : List Char) :
    splitFrom false begun (quoteChars cs ++ rest) =
      splitFrom false (some (begun.getD [] ++ cs)) rest := by
  rcases quoteChars_cases cs with ⟨heq, hne, hplain⟩ | heq
  · rw [heq, splitFrom_plain hne hplain]
  · rw [heq, List.cons_append, List.append_assoc, List.singleton_append, splitFrom,
      splitFrom_escaped]

/-- A text is read as a word, whatever follows it. -/
def ReadsAs (text word : String) : Prop :=
  ∀ rest, splitFrom false none (text.toList ++ rest) = splitFrom false (some word.toList) rest

theorem readsAs_quote (word : String) : ReadsAs (quote word) word := by
  intro rest
  rw [quote, String.toList_ofList, splitFrom_quote]
  rfl

theorem readsAs_assignment {key : String} (hkey : ∀ c ∈ key.toList, isPlain c = true)
    (value : String) : ReadsAs (key ++ "=" ++ quote value) (key ++ "=" ++ value) := by
  intro rest
  have hplain : ∀ c ∈ (key ++ "=").toList, isPlain c = true := by
    intro c hc
    rcases List.mem_append.mp (String.toList_append ▸ hc) with hc | hc
    · exact hkey c hc
    · rw [List.mem_singleton.mp hc]
      rfl
  have hne : (key ++ "=").toList ≠ [] := by simp
  rw [String.toList_append, List.append_assoc, splitFrom_plain hne hplain, quote,
    String.toList_ofList, splitFrom_quote]
  simp

theorem splitFrom_words {texts words : List String} (h : List.Forall₂ ReadsAs texts words) :
    splitFrom false none (List.intercalate [' '] (texts.map String.toList)) =
      some (words.map String.toList) := by
  induction h with
  | nil => rfl
  | @cons text word texts words hfirst hrest ih =>
    cases hrest with
    | nil =>
      have hend := hfirst []
      rw [List.append_nil] at hend
      rw [List.map_singleton, List.intercalate_singleton, hend]
      rfl
    | cons =>
      rw [List.map_cons, List.map_cons, List.intercalate_cons_cons, List.append_assoc, hfirst,
        List.singleton_append, splitFrom, if_pos (.inl rfl), ← List.map_cons, ih]
      · rfl
      all_goals simp

theorem split_words {texts words : List String} (h : List.Forall₂ ReadsAs texts words) :
    split (" ".intercalate texts) = some words := by
  have htext : (" ".intercalate texts).toList = List.intercalate [' '] (texts.map String.toList) :=
    String.toList_intercalate
  rw [split, htext, splitFrom_words h, Option.map_some, List.map_map]
  simp

end Reading

end Shell

namespace Flags

theorem isWord_of_isIdentifier {key : List Char} (h : isIdentifier key = true) :
    ∀ c ∈ key, (c == '_' || c.isAlphanum) = true := by
  cases key with
  | nil => cases h
  | cons first rest =>
    obtain ⟨hfirst, hrest⟩ := Bool.and_eq_true_iff.mp h
    intro c hc
    rcases List.mem_cons.mp hc with rfl | hc
    · rw [Char.isAlphanum, ← Bool.or_assoc, hfirst, Bool.true_or]
    · exact List.all_eq_true.mp hrest c hc

theorem isPlain_of_isIdentifier {key : List Char} (h : isIdentifier key = true) :
    ∀ c ∈ key, Shell.isPlain c = true := by
  intro c hc
  rcases Bool.or_eq_true_iff.mp (isWord_of_isIdentifier h c hc) with hword | hword
  · rw [beq_iff_eq.mp hword]
    rfl
  · rw [Shell.isPlain, hword, Bool.true_or]

end Flags

namespace Command

/-- A shell takes the text of a command apart into its assignments, its program and its
arguments. -/
theorem split_text {c : Command}
    (hkeys : ∀ binding ∈ c.env, Flags.isIdentifier binding.1.toList = true) :
    Shell.split c.text =
      some (c.env.map (fun (key, value) => key ++ "=" ++ value) ++ c.program :: c.args) := by
  have henv : List.Forall₂ Shell.ReadsAs
      (c.env.map fun (key, value) => key ++ "=" ++ Shell.quote value)
      (c.env.map fun (key, value) => key ++ "=" ++ value) := by
    rw [List.forall₂_map_left_iff, List.forall₂_map_right_iff, List.forall₂_same]
    intro (key, value) hmem
    exact Shell.readsAs_assignment (Flags.isPlain_of_isIdentifier (hkeys _ hmem)) value
  have hquoted : List.Forall₂ Shell.ReadsAs (Shell.quote c.program :: c.args.map Shell.quote)
      (c.program :: c.args) := by
    rw [← List.map_cons, List.forall₂_map_left_iff, List.forall₂_same]
    exact fun word _ => Shell.readsAs_quote word
  exact Shell.split_words (List.rel_append henv hquoted)

theorem split_text_sample :
    Shell.split (Command.text
        ⟨"it's", ["", "a b\n", "''", "x=y"], ⟨"/p"⟩, [("RUSTFLAGS", "-C 'l'\\"), ("_", "")]⟩) =
      some ["RUSTFLAGS=-C 'l'\\", "_=", "it's", "", "a b\n", "''", "x=y"] :=
  split_text (by decide)

end Command

end WasmBuild
