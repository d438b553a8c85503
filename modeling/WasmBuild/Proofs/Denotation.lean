import Mathlib.Data.List.TakeWhile
import WasmBuild.Proofs.Words

/-! What the text of a command means to a shell. Leading words of the form `NAME=value`, the name
and the equals sign being bare, are taken for assignments, and the program is the first word after
them. So the text tells the command, unless the program itself is such a word. -/

namespace WasmBuild

namespace Shell

/-- A character of a word. It is bare when no quote and no backslash took its meaning away. -/
structure Glyph where
  char : Char
  bare : Bool
deriving DecidableEq

def glyphs (bare : Bool) (cs : List Char) : List Glyph := cs.map fun c => ⟨c, bare⟩

def plain (word : List Glyph) : String := String.ofList (word.map Glyph.char)

/-- Reads words as `splitFrom` does, and keeps which of their characters are bare. -/
def readFrom : Bool → Option (List Glyph) → List Char → Option (List (List Glyph))
  | true, _, [] => none
  | true, word, '\'' :: rest => readFrom false word rest
  | true, word, c :: rest => readFrom true (some (word.getD [] ++ [⟨c, false⟩])) rest
  | false, word, [] => some word.toList
  | false, word, '\'' :: rest => readFrom true (some (word.getD [])) rest
  | false, _, ['\\'] => none
  | false, word, '\\' :: '\n' :: rest => readFrom false word rest
  | false, word, '\\' :: c :: rest => readFrom false (some (word.getD [] ++ [⟨c, false⟩])) rest
  | false, word, c :: rest =>
    if c = ' ' ∨ c = '\t' then (readFrom false none rest).map (word.toList ++ ·)
    else if specialChars.contains c then none
    else readFrom false (some (word.getD [] ++ [⟨c, true⟩])) rest

/-- A word is an assignment when a name and an equals sign stand bare at its beginning. -/
def assignment? (word : List Glyph) : Option Binding :=
  match word.dropWhile fun g => g.bare && g.char != '=' with
  | [] => none
  | sign :: value =>
    let name := (word.takeWhile fun g => g.bare && g.char != '=').map Glyph.char
    if sign.bare && Flags.isIdentifier name then some (String.ofList name, plain value) else none

structure Reading where
  assignments : List Binding
  words : List String
deriving DecidableEq

def Reading.ofWords : List (List Glyph) → Reading
  | [] => ⟨[], []⟩
  | word :: rest =>
    match assignment? word with
    | some binding => { ofWords rest with assignments := binding :: (ofWords rest).assignments }
    | none => ⟨[], plain word :: rest.map plain⟩

def read (text : String) : Option Reading := (readFrom false none text.toList).map Reading.ofWords

/-- A word that is shown as it is, and that a shell takes for an assignment where it comes first. -/
def isAssigning (word : String) : Bool :=
  word.toList.all isPlain && word.toList.contains '=' &&
    Flags.isIdentifier (word.toList.takeWhile (· != '='))

section Reading

variable {c : Char} {cs : List Char} {rest : List Char} {begun : Option (List Glyph)}
  {word : List Glyph}

theorem readFrom_plain_cons (hc : isPlain c = true) :
    readFrom false begun (c :: rest) =
      readFrom false (some (begun.getD [] ++ [⟨c, true⟩])) rest := by
  have hquote : c ≠ '\'' := ne_of_isPlain hc (by decide)
  have hescape : c ≠ '\\' := ne_of_isPlain hc (by decide)
  have hspace : c ≠ ' ' := ne_of_isPlain hc (by decide)
  have htab : c ≠ '\t' := ne_of_isPlain hc (by decide)
  have hspecial : ¬specialChars.contains c = true := not_special_of_isPlain hc
  rw [readFrom]
  · rw [if_neg (by simp [hspace, htab]), if_neg hspecial]
  all_goals simp [hquote, hescape]

theorem readFrom_plain (hne : cs ≠ []) (hcs : ∀ c ∈ cs, isPlain c = true) :
    readFrom false begun (cs ++ rest) =
      readFrom false (some (begun.getD [] ++ glyphs true cs)) rest := by
  induction cs generalizing begun with
  | nil => exact absurd rfl hne
  | cons c cs ih =>
    rw [List.cons_append, readFrom_plain_cons (hcs c List.mem_cons_self)]
    by_cases hnil : cs = []
    · rw [hnil, List.nil_append]
      rfl
    · rw [ih hnil fun d hd => hcs d (List.mem_cons_of_mem c hd)]
      simp [glyphs]

theorem readFrom_escaped (cs : List Char) :
    readFrom true (some word) (cs.flatMap escapeApostrophe ++ '\'' :: rest) =
      readFrom false (some (word ++ glyphs false cs)) rest := by
  induction cs generalizing word with
  | nil => simp [readFrom, glyphs]
  | cons c cs ih =>
    have hword : word ++ glyphs false (c :: cs) = (word ++ [⟨c, false⟩]) ++ glyphs false cs := by
      simp [glyphs]
    rw [List.flatMap_cons, List.append_assoc, hword, ← ih]
    by_cases hc : c = '\''
    · subst hc
      simp [escapeApostrophe, readFrom]
    · simp [escapeApostrophe, readFrom, hc]

def isShownBare (cs : List Char) : Bool := !cs.isEmpty && cs.all isPlain

theorem readFrom_quote (cs : List Char) :
    readFrom false begun (quoteChars cs ++ rest) =
      readFrom false (some (begun.getD [] ++ glyphs (isShownBare cs) cs)) rest := by
  by_cases h : isShownBare cs = true
  · have hcs : cs ≠ [] ∧ ∀ c ∈ cs, isPlain c = true := by simpa [isShownBare] using h
    have hquote : quoteChars cs = cs := if_pos h
    rw [hquote, h, readFrom_plain hcs.1 hcs.2]
  · have hquote : quoteChars cs = '\'' :: (cs.flatMap escapeApostrophe ++ ['\'']) := if_neg h
    have hbare : isShownBare cs = false := by simpa using h
    rw [hquote, hbare, List.cons_append, List.append_assoc, List.singleton_append, readFrom,
      readFrom_escaped]

/-- A text is read as these characters of a word, whatever follows it. -/
def Shows (text : String) (word : List Glyph) : Prop :=
  ∀ rest, readFrom false none (text.toList ++ rest) = readFrom false (some word) rest

def quoted (s : String) : List Glyph := glyphs (isShownBare s.toList) s.toList

def assigned (binding : Binding) : List Glyph :=
  glyphs true (binding.1 ++ "=").toList ++ quoted binding.2

theorem shows_quote (s : String) : Shows (quote s) (quoted s) := by
  intro rest
  rw [quote, String.toList_ofList, readFrom_quote]
  rfl

theorem shows_assignment {binding : Binding} (hkey : ∀ c ∈ binding.1.toList, isPlain c = true) :
    Shows (binding.1 ++ "=" ++ quote binding.2) (assigned binding) := by
  intro rest
  have hplain : ∀ c ∈ (binding.1 ++ "=").toList, isPlain c = true := by
    intro c hc
    rcases List.mem_append.mp (String.toList_append ▸ hc) with hc | hc
    · exact hkey c hc
    · rw [List.mem_singleton.mp hc]
      rfl
  have hne : (binding.1 ++ "=").toList ≠ [] := by simp
  rw [String.toList_append, List.append_assoc, readFrom_plain hne hplain, quote,
    String.toList_ofList, readFrom_quote]
  rfl

theorem readFrom_words {texts : List String} {words : List (List Glyph)}
    (h : List.Forall₂ Shows texts words) :
    readFrom false none (" ".intercalate texts).toList = some words := by
  rw [String.toList_intercalate]
  induction h with
  | nil => rfl
  | @cons text word texts words hfirst hrest ih =>
    cases hrest with
    | nil =>
      have hend := hfirst []
      rw [List.append_nil] at hend
      rw [List.map_singleton, List.intercalate_singleton, hend]
      rfl
    | cons =>
      rw [List.map_cons, List.map_cons, List.intercalate_cons_cons, List.append_assoc, hfirst]
      have hspace : " ".toList = [' '] := rfl
      rw [hspace, List.singleton_append, readFrom, if_pos (.inl rfl), ← List.map_cons, ← hspace, ih]
      · rfl
      all_goals simp

end Reading

section Meaning

theorem plain_quoted (s : String) : plain (quoted s) = s := by
  simp [plain, quoted, glyphs, Function.comp_def]

theorem quoted_injective : Function.Injective quoted := fun s t h => by
  rw [← plain_quoted s, h, plain_quoted]

theorem assignment?_assigned {binding : Binding}
    (hkey : Flags.isIdentifier binding.1.toList = true) :
    assignment? (assigned binding) = some binding := by
  have hbefore : ∀ g ∈ glyphs true binding.1.toList, (g.bare && g.char != '=') = true := by
    intro g hg
    obtain ⟨c, hc, rfl⟩ := List.mem_map.mp hg
    have hword := Flags.isWord_of_isIdentifier hkey c hc
    have hne : c ≠ '=' := by
      rintro rfl
      cases hword
    simpa using hne
  have hshape : assigned binding =
      glyphs true binding.1.toList ++ ⟨'=', true⟩ :: quoted binding.2 := by
    simp [assigned, glyphs]
  have hname : (glyphs true binding.1.toList).map Glyph.char = binding.1.toList := by
    simp [glyphs, Function.comp_def]
  rw [assignment?, hshape, List.dropWhile_append_of_pos hbefore,
    List.takeWhile_append_of_pos hbefore]
  simp [hname, hkey, plain_quoted]

theorem assignment?_glyphs_false (cs : List Char) : assignment? (glyphs false cs) = none := by
  cases cs with
  | nil => rfl
  | cons c cs => simp [assignment?, glyphs]

theorem isSome_assignment?_glyphs_true (cs : List Char) :
    (assignment? (glyphs true cs)).isSome =
      (cs.contains '=' && Flags.isIdentifier (cs.takeWhile (· != '='))) := by
  have hbefore : (fun g : Glyph => g.bare && g.char != '=') ∘ (fun c => ⟨c, true⟩) =
      (· != '=') := by
    funext c
    simp
  -- all characters being bare, both are cut at the first equals sign
  rw [assignment?, glyphs, List.dropWhile_map, List.takeWhile_map, hbefore, List.map_map]
  cases hrest : cs.dropWhile (· != '=') with
  | nil =>
    have hnot : '=' ∉ cs := fun hmem => by
      simpa using List.dropWhile_eq_nil_iff.mp hrest '=' hmem
    simp [hnot]
  | cons sign value =>
    have hmem : '=' ∈ cs := by
      by_contra hnot
      have hnil : cs.dropWhile (· != '=') = [] :=
        List.dropWhile_eq_nil_iff.mpr fun c hc => by
          simpa using ne_of_mem_of_not_mem hc hnot
      rw [hrest] at hnil
      cases hnil
    by_cases hname : Flags.isIdentifier (cs.takeWhile (· != '=')) = true
    · simp [Function.comp_def, hmem, hname]
    · simp [Function.comp_def, hname]

theorem isSome_assignment?_quoted (s : String) :
    (assignment? (quoted s)).isSome = isAssigning s := by
  rw [quoted, isAssigning]
  cases hbare : isShownBare s.toList with
  | true =>
    have hplain : s.toList.all isPlain = true := (Bool.and_eq_true_iff.mp hbare).2
    rw [isSome_assignment?_glyphs_true, hplain, Bool.true_and]
  | false =>
    rw [assignment?_glyphs_false]
    cases hcs : s.toList with
    | nil => rfl
    | cons c cs =>
      have hplain : (c :: cs).all isPlain = false := by
        simpa [isShownBare, hcs] using hbare
      rw [hplain, Bool.false_and, Bool.false_and]
      rfl

theorem Reading.ofWords_assigned {env : List Binding}
    (hkeys : ∀ binding ∈ env, Flags.isIdentifier binding.1.toList = true)
    (words : List (List Glyph)) :
    ofWords (env.map assigned ++ words) =
      { ofWords words with assignments := env ++ (ofWords words).assignments } := by
  induction env with
  | nil => rfl
  | cons binding env ih =>
    rw [List.map_cons, List.cons_append, ofWords, assignment?_assigned (hkeys _ List.mem_cons_self),
      ih fun b hb => hkeys b (List.mem_cons_of_mem binding hb)]
    rfl

end Meaning

end Shell

namespace Command

open Shell

section Text

variable {c c' : Command}

theorem readFrom_text (hkeys : ∀ binding ∈ c.env, Flags.isIdentifier binding.1.toList = true) :
    readFrom false none c.text.toList =
      some (c.env.map assigned ++ quoted c.program :: c.args.map quoted) := by
  have henv : List.Forall₂ Shows
      (c.env.map fun binding => binding.1 ++ "=" ++ quote binding.2) (c.env.map assigned) := by
    rw [List.forall₂_map_left_iff, List.forall₂_map_right_iff, List.forall₂_same]
    intro binding hmem
    exact shows_assignment (Flags.isPlain_of_isIdentifier (hkeys binding hmem))
  have hquoted : List.Forall₂ Shows (quote c.program :: c.args.map quote)
      (quoted c.program :: c.args.map quoted) := by
    rw [← List.map_cons, ← List.map_cons, List.forall₂_map_left_iff, List.forall₂_map_right_iff,
      List.forall₂_same]
    exact fun word _ => shows_quote word
  exact readFrom_words (List.rel_append henv hquoted)

theorem filterMap_assigned {env : List Binding}
    (hkeys : ∀ binding ∈ env, Flags.isIdentifier binding.1.toList = true) :
    (env.map assigned).filterMap assignment? = env := by
  rw [List.filterMap_map]
  calc env.filterMap (assignment? ∘ assigned)
      = env.filterMap some :=
        List.filterMap_congr fun binding hmem => assignment?_assigned (hkeys binding hmem)
    _ = env := List.filterMap_some

theorem eq_of_text_eq (hkeys : ∀ binding ∈ c.env, Flags.isIdentifier binding.1.toList = true)
    (hkeys' : ∀ binding ∈ c'.env, Flags.isIdentifier binding.1.toList = true)
    (htext : c.text = c'.text) (hlength : c.env.length = c'.env.length) :
    c.env = c'.env ∧ c.program = c'.program ∧ c.args = c'.args := by
  have hwords := readFrom_text hkeys
  rw [htext, readFrom_text hkeys', Option.some_inj] at hwords
  obtain ⟨henv, hrest⟩ := List.append_inj hwords.symm (by simpa using hlength)
  obtain ⟨hprogram, hargs⟩ := List.cons_eq_cons.mp hrest
  refine ⟨?_, quoted_injective hprogram, List.map_injective_iff.mpr quoted_injective hargs⟩
  rw [← filterMap_assigned hkeys, henv, filterMap_assigned hkeys']

theorem isAssigning_of_text_eq
    (hkeys : ∀ binding ∈ c.env, Flags.isIdentifier binding.1.toList = true)
    (hkeys' : ∀ binding ∈ c'.env, Flags.isIdentifier binding.1.toList = true)
    (htext : c.text = c'.text) (hlength : c.env.length < c'.env.length) :
    isAssigning c.program = true := by
  have hwords := readFrom_text hkeys
  rw [htext, readFrom_text hkeys', Option.some_inj] at hwords
  -- the program of the one stands where the other has an assignment
  have hat := congrArg (·[c.env.length]?) hwords
  have hassigned : assigned c'.env[c.env.length] = quoted c.program := by
    simpa [List.getElem?_append, hlength] using hat
  rw [← isSome_assignment?_quoted, ← hassigned,
    assignment?_assigned (hkeys' _ (List.getElem_mem hlength)), Option.isSome_some]

/-- A shell that reads the text finds the command, unless it takes the program for one more
assignment. -/
theorem read_text_iff (hkeys : ∀ binding ∈ c.env, Flags.isIdentifier binding.1.toList = true) :
    Shell.read c.text = some ⟨c.env, c.program :: c.args⟩ ↔ isAssigning c.program = false := by
  rw [Shell.read, readFrom_text hkeys, Option.map_some, Reading.ofWords_assigned hkeys,
    ← isSome_assignment?_quoted]
  cases hfirst : assignment? (quoted c.program) with
  | none => simp [Reading.ofWords, hfirst, plain_quoted, Function.comp_def]
  | some binding => simp [Reading.ofWords, hfirst]

end Text

/-- The text of a command tells what is run: a shell that reads it runs just that, and no other
command has the same text. Both fail only for a program whose name has the shape of an assignment,
since quoting leaves the equals sign of a word as it is. -/
theorem text_denotes {c : Command}
    (hkeys : ∀ binding ∈ c.env, Flags.isIdentifier binding.1.toList = true) :
    (Shell.read c.text = some ⟨c.env, c.program :: c.args⟩ ↔ isAssigning c.program = false) ∧
      ∀ c' : Command, (∀ binding ∈ c'.env, Flags.isIdentifier binding.1.toList = true) →
        c.text = c'.text →
          (c.env = c'.env ∧ c.program = c'.program ∧ c.args = c'.args) ∨
            (c.env.length < c'.env.length ∧ isAssigning c.program = true) ∨
            (c'.env.length < c.env.length ∧ isAssigning c'.program = true) := by
  refine ⟨read_text_iff hkeys, fun c' hkeys' htext => ?_⟩
  rcases Nat.lt_trichotomy c.env.length c'.env.length with hless | hsame | hmore
  · exact .inr (.inl ⟨hless, isAssigning_of_text_eq hkeys hkeys' htext hless⟩)
  · exact .inl (eq_of_text_eq hkeys hkeys' htext hsame)
  · exact .inr (.inr ⟨hmore, isAssigning_of_text_eq hkeys' hkeys htext.symm hmore⟩)

theorem text_denotes_sample :
    Shell.read (text ⟨"cargo", ["A=b", "it's"], ⟨"/p"⟩, [("RUSTFLAGS", "-C l"), ("A", "b=c")]⟩) =
        some ⟨[("RUSTFLAGS", "-C l"), ("A", "b=c")], ["cargo", "A=b", "it's"]⟩ ∧
      Shell.read (text ⟨"A=b", ["cargo"], ⟨"/p"⟩, []⟩) ≠ some ⟨[], ["A=b", "cargo"]⟩ ∧
      text ⟨"A=b", ["cargo"], ⟨"/p"⟩, []⟩ = text ⟨"cargo", [], ⟨"/p"⟩, [("A", "b")]⟩ ∧
      text ⟨"cargo", ["A=b"], ⟨"/p"⟩, []⟩ ≠ text ⟨"A=b", ["cargo"], ⟨"/p"⟩, []⟩ := by
  refine ⟨?_, ?_, rfl, fun htext => ?_⟩
  · exact (text_denotes (by decide)).1.mpr (by decide)
  · exact mt (text_denotes (by decide)).1.mp (by decide)
  · exact absurd ((text_denotes (by decide)).2 _ (by decide) htext) (by decide)

end Command

end WasmBuild
