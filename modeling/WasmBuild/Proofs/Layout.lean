import Mathlib.Data.List.Induction
import Mathlib.Data.List.TakeWhile
import Mathlib.Logic.Relation
import WasmBuild.Proofs.Quoting

/-! The layout of a flags file. Line ends, blanks around lines, lines that say nothing, the word
`export` and comments can be changed at will, and what the file assigns stays the same. -/

namespace WasmBuild

namespace Text

variable {c d : Char} {cs blanks : List Char}

theorem trimStart_blanks (h : ∀ c ∈ blanks, isBlank c = true) (cs : List Char) :
    trimStart (blanks ++ cs) = trimStart cs := List.dropWhile_append_of_pos h

theorem trimStart_blanks_cons (h : ∀ c ∈ blanks, isBlank c = true) (hc : isBlank c = true)
    (cs : List Char) : trimStart (blanks ++ c :: cs) = trimStart cs := by
  rw [trimStart_blanks h, trimStart, List.dropWhile_cons_of_pos hc, ← trimStart]

theorem trim_blanks {left right : List Char} (hleft : ∀ c ∈ left, isBlank c = true)
    (hright : ∀ c ∈ right, isBlank c = true) (cs : List Char) :
    trim (left ++ cs ++ right) = trim cs := by
  induction right using List.reverseRecOn with
  | nil => rw [List.append_nil, trim, trim, trimStart_blanks hleft]
  | append_singleton front last ih =>
    have hlast : isBlank last = true := hright last (by simp)
    rw [← List.append_assoc, trim_concat_blank hlast]
    exact ih fun c hc => hright c (List.mem_append_left [last] hc)

theorem trimEnd_append_cons (hd : isBlank d = false) (front back : List Char) :
    trimEnd (front ++ d :: back) = front ++ d :: trimEnd back := by
  have hstop : ¬isBlank d = true := by simp [hd]
  rw [trimEnd, trimEnd, List.reverse_append, List.reverse_cons, List.append_assoc,
    List.dropWhile_append]
  split
  · next hempty =>
    rw [List.isEmpty_iff.mp hempty, List.singleton_append, List.dropWhile_cons_of_neg hstop]
    simp
  · simp

theorem trimEnd_cons (hd : isBlank d = false) (back : List Char) :
    trimEnd (d :: back) = d :: trimEnd back := trimEnd_append_cons hd [] back

theorem exists_trimEnd_append (cs : List Char) :
    ∃ blanks, (∀ c ∈ blanks, isBlank c = true) ∧ cs = trimEnd cs ++ blanks := by
  refine ⟨(cs.reverse.takeWhile isBlank).reverse, fun c hc => ?_, ?_⟩
  · exact List.mem_takeWhile_imp (List.mem_reverse.mp hc)
  · rw [trimEnd, ← List.reverse_append, List.takeWhile_append_dropWhile, List.reverse_reverse]

theorem exists_append_trimStart (cs : List Char) :
    ∃ blanks, (∀ c ∈ blanks, isBlank c = true) ∧ cs = blanks ++ trimStart cs :=
  ⟨cs.takeWhile isBlank, fun _ hc => List.mem_takeWhile_imp hc,
    List.takeWhile_append_dropWhile.symm⟩

theorem trimStart_append (h : trimStart cs ≠ []) (rest : List Char) :
    trimStart (cs ++ rest) = trimStart cs ++ rest := by
  unfold trimStart at h ⊢
  rw [List.dropWhile_append, if_neg (by simpa using h)]

theorem isBlank_of_trimStart (h : trimStart cs = []) : ∀ c ∈ cs, isBlank c = true := by
  simpa [trimStart] using h

theorem not_isBlank_of_trimStart {rest : List Char} (h : trimStart cs = c :: rest) :
    isBlank c = false := by
  unfold trimStart at h
  have hhead := List.head_dropWhile_not isBlank (l := cs) (by simp [h])
  simpa only [h, List.head_cons] using hhead

end Text

namespace Flags

/-- Whether a line is blank or a comment. -/
def isIgnored (line : List Char) : Bool :=
  match Text.trimStart line with
  | [] | '#' :: _ => true
  | _ => false

def isExported (line : List Char) : Bool :=
  "export ".toList.isPrefixOf (Text.trimStart line)

/-- Changes to a line that leave what it assigns. -/
inductive LineEdit : List Char → List Char → Prop where
  | pad {left right : List Char} (line : List Char) (hleft : ∀ c ∈ left, Text.isBlank c = true)
      (hright : ∀ c ∈ right, Text.isBlank c = true) : LineEdit line (left ++ line ++ right)
  | exported {indent line : List Char} (hindent : ∀ c ∈ indent, Text.isBlank c = true)
      (hassigns : isIgnored line = false) (hplain : isExported line = false) :
      LineEdit (indent ++ line) (indent ++ "export ".toList ++ line)
  | comment {line : List Char} {c : Char} (hassigns : isIgnored line = false)
      (hc : Text.isBlank c = true) (text : List Char) : LineEdit line (line ++ c :: '#' :: text)

def joined (lines : List (List Char)) : String :=
  String.ofList (List.intercalate ['\n'] lines)

/-- A text with a carriage return before every line feed. -/
def withReturns (text : String) : String :=
  String.ofList (text.toList.flatMap fun c => if c = '\n' then ['\r', '\n'] else [c])

/-- Changes to the layout of a text. No line feed comes with a line that is changed or added. -/
inductive Edit : String → String → Prop where
  | returns (text : String) : Edit text (withReturns text)
  | insert {line : List Char} (before after : List (List Char)) (hline : isIgnored line = true)
      (hfeed : '\n' ∉ line) : Edit (joined (before ++ after)) (joined (before ++ line :: after))
  | change {line line' : List Char} (before after : List (List Char)) (h : LineEdit line line')
      (hfeed : '\n' ∉ line') :
      Edit (joined (before ++ line :: after)) (joined (before ++ line' :: after))

section Values

variable {line more value : List Char}

/-- A blank, and after it no more than a comment. -/
def IsTrailing (more : List Char) : Prop :=
  ∃ c rest text, more = c :: rest ∧ Text.isBlank c = true ∧ Text.trimStart rest = '#' :: text

theorem isTrailing_comment {c : Char} {blanks : List Char}
    (hblanks : ∀ c ∈ blanks, Text.isBlank c = true) (hc : Text.isBlank c = true)
    (text : List Char) : IsTrailing (blanks ++ c :: '#' :: text) := by
  cases blanks with
  | nil => exact ⟨c, '#' :: text, text, rfl, hc, rfl⟩
  | cons first rest =>
    have hrest : ∀ d ∈ rest, Text.isBlank d = true :=
      fun d hd => hblanks d (List.mem_cons_of_mem first hd)
    exact ⟨first, rest ++ c :: '#' :: text, text, rfl, hblanks first List.mem_cons_self,
      Text.trimStart_blanks_cons hrest hc _⟩

theorem readValue_blank {c : Char} {rest : List Char} (hc : Text.isBlank c = true)
    (hrest : Text.trimStart rest = [] ∨ ∃ text, Text.trimStart rest = '#' :: text) :
    readValue .bare (c :: rest) = .ok [] := by
  have hescape : c ≠ '\\' := fun e => absurd (e ▸ hc) (by decide)
  have hsingle : c ≠ '\'' := fun e => absurd (e ▸ hc) (by decide)
  have hdouble : c ≠ '"' := fun e => absurd (e ▸ hc) (by decide)
  rw [readValue.eq_def]
  rcases hrest with hrest | ⟨text, hrest⟩
  · split <;> simp_all
  · split <;> simp_all

/-- A backslash that is followed by nothing or by something is followed by anything. -/
theorem ne_backslash {c : Char} {rest : List Char} (hlast : c = '\\' → rest = [] → False)
    (hmore : ∀ d tail, c = '\\' → rest = d :: tail → False) : c ≠ '\\' := by
  intro hc
  cases rest with
  | nil => exact hlast hc rfl
  | cons d tail => exact hmore d tail hc rfl

/-- A comment after a value is left out, since a value that is read ends outside of quotes. -/
theorem readValue_trailing {quoting : Quoting} (h : readValue quoting line = .ok value)
    (hmore : IsTrailing more) : readValue quoting (line ++ more) = .ok value := by
  obtain ⟨c, after, text, rfl, hc, htext⟩ := hmore
  fun_induction readValue quoting line generalizing value
  case case1 =>
    cases h
    exact readValue_blank hc (.inr ⟨text, htext⟩)
  case case2 | case8 | case10 | case13 | case15 => cases h
  case case4 ih | case5 ih | case11 ih | case14 ih => exact ih h
  case case3 ih =>
    obtain ⟨tail, htail, rfl⟩ := map_eq_ok h
    rw [List.cons_append, List.cons_append, readValue_backslash, ih htail]
    rfl
  case case16 ih =>
    obtain ⟨tail, htail, rfl⟩ := map_eq_ok h
    rw [List.cons_append, List.cons_append, readValue_double_backslash, ih htail]
    rfl
  case case6 first rest _ _ _ _ hblank hrest =>
    cases h
    have hskipped := Text.trimStart_blanks_cons (Text.isBlank_of_trimStart hrest) hc after
    exact readValue_blank hblank (.inr ⟨text, hskipped.trans htext⟩)
  case case7 first rest _ _ _ _ hblank old hrest =>
    cases h
    have hne : Text.trimStart rest ≠ [] := by simp [hrest]
    have hkept := Text.trimStart_append hne (c :: after)
    rw [hrest] at hkept
    exact readValue_blank hblank (.inr ⟨old ++ c :: after, hkept⟩)
  case case9 first rest hlast hescape hsingle hdouble hblank ih =>
    obtain ⟨tail, htail, rfl⟩ := map_eq_ok h
    have hsingle : first ≠ '\'' := hsingle
    have hdouble : first ≠ '"' := hdouble
    have hbare : isBare first = true := by
      simp [isBare, hblank, hsingle, hdouble, ne_backslash hlast hescape]
    rw [List.cons_append, readValue_of_isBare hbare, ih htail]
    rfl
  case case12 first rest hquote ih =>
    obtain ⟨tail, htail, rfl⟩ := map_eq_ok h
    rw [List.cons_append, readValue_single_cons hquote, ih htail]
    rfl
  case case17 first rest hquote hlast hescape ih =>
    obtain ⟨tail, htail, rfl⟩ := map_eq_ok h
    rw [List.cons_append, readValue_double_cons hquote (ne_backslash hlast hescape), ih htail]
    rfl

end Values

section Lines

variable {line line' more : List Char} {a : Assignment}

theorem exists_start (h : isIgnored line = false) :
    ∃ blanks c rest, (∀ d ∈ blanks, Text.isBlank d = true) ∧ Text.isBlank c = false ∧ c ≠ '#' ∧
      Text.trimStart line = c :: rest ∧ line = blanks ++ c :: rest := by
  obtain ⟨blanks, hblanks, hline⟩ := Text.exists_append_trimStart line
  unfold isIgnored at h
  cases hstart : Text.trimStart line with
  | nil => simp [hstart] at h
  | cons c rest =>
    have hhash : c ≠ '#' := by
      rintro rfl
      simp [hstart] at h
    rw [hstart] at hline
    exact ⟨blanks, c, rest, hblanks, Text.not_isBlank_of_trimStart hstart, hhash, rfl, hline⟩

theorem readLine_of_isIgnored (h : isIgnored line = true) : readLine line = .ok none := by
  unfold isIgnored at h
  rw [readLine, Text.trim]
  cases hstart : Text.trimStart line with
  | nil => rfl
  | cons c rest =>
    have hhash : c = '#' := by
      by_contra hne
      simp [hstart, hne] at h
    rw [hhash, Text.trimEnd_cons (by decide)]
    rfl

theorem readLine_of_start {blanks rest : List Char} {c : Char}
    (hblanks : ∀ d ∈ blanks, Text.isBlank d = true) (hc : Text.isBlank c = false)
    (hhash : c ≠ '#') :
    readLine (blanks ++ c :: rest) =
      (readAssignment (dropExport (c :: Text.trimEnd rest))).map some := by
  rw [readLine, Text.trim, Text.trimStart_blanks hblanks, Text.trimStart_cons hc,
    Text.trimEnd_cons hc]
  split
  · next hnil => cases hnil
  · next hcomment => exact absurd (List.cons.inj hcomment).1 hhash
  · rfl

theorem dropExport_export (rest : List Char) :
    dropExport ("export ".toList ++ rest) = Text.trimStart rest := rfl

theorem dropExport_of_unexported (h : ¬"export ".toList <+: line) : dropExport line = line := by
  unfold dropExport
  split
  · next rest => exact absurd ⟨rest, rfl⟩ h
  · rfl

theorem exists_key (h : readAssignment line = .ok a) :
    ∃ key text, isIdentifier key = true ∧ line = key ++ '=' :: text := by
  unfold readAssignment at h
  split at h
  · cases h
  next equals text hdrop =>
  dsimp only at h
  split at h
  · cases h
  next hkey =>
  have hequals := List.head_dropWhile_not (· != '=') (l := line) (by simp [hdrop])
  simp only [hdrop, List.head_cons, bne_eq_false_iff_eq] at hequals
  subst hequals
  refine ⟨line.takeWhile (· != '='), text, by simpa using hkey, ?_⟩
  rw [← hdrop, List.takeWhile_append_dropWhile]

theorem dropExport_append (h : readAssignment (dropExport line) = .ok a) (more : List Char) :
    dropExport (line ++ more) = dropExport line ++ more := by
  by_cases hexport : "export ".toList <+: line
  · obtain ⟨rest, rfl⟩ := hexport
    rw [dropExport_export] at h
    rw [List.append_assoc, dropExport_export, dropExport_export, Text.trimStart_append]
    intro hnil
    rw [hnil] at h
    cases h
  · rw [dropExport_of_unexported hexport] at h ⊢
    obtain ⟨key, text, -, heq⟩ := exists_key h
    refine dropExport_of_unexported fun hlonger => ?_
    -- the line would be a part of the word `export`, and there is no equals sign in that
    rcases List.prefix_or_prefix_of_prefix hlonger (List.prefix_append line more) with hp | hp
    · exact hexport hp
    · have hmem : '=' ∈ "export ".toList := hp.subset (by simp [heq])
      exact absurd hmem (by decide)

theorem readAssignment_trailing (h : readAssignment line = .ok a) (hmore : IsTrailing more) :
    readAssignment (line ++ more) = .ok a := by
  obtain ⟨key, text, hkey, rfl⟩ := exists_key h
  rw [readAssignment_of_key hkey] at h
  rw [List.append_assoc, List.cons_append, readAssignment_of_key hkey]
  cases hvalue : readValue .bare text with
  | error fault =>
    rw [hvalue] at h
    cases h
  | ok value =>
    rw [readValue_trailing hvalue hmore]
    rwa [hvalue] at h

theorem trimEnd_comment {c : Char} (hc : Text.isBlank c = true) (cs text : List Char) :
    ∃ more, IsTrailing more ∧ Text.trimEnd (cs ++ c :: '#' :: text) = Text.trimEnd cs ++ more := by
  obtain ⟨blanks, hblanks, hcs⟩ := Text.exists_trimEnd_append cs
  refine ⟨_, isTrailing_comment hblanks hc (Text.trimEnd text), ?_⟩
  rw [List.append_cons, Text.trimEnd_append_cons (by decide), ← List.append_cons,
    ← List.append_assoc, ← hcs]

theorem dropExport_of_not_exported {c : Char} {rest : List Char} (h : isExported line = false)
    (hstart : Text.trimStart line = c :: rest) :
    dropExport (c :: Text.trimEnd rest) = c :: Text.trimEnd rest := by
  refine dropExport_of_unexported fun hstarts => ?_
  obtain ⟨ends, -, hrest⟩ := Text.exists_trimEnd_append rest
  have hlonger : c :: Text.trimEnd rest <+: c :: rest := ⟨ends, by rw [List.cons_append, ← hrest]⟩
  have hexported : isExported line = true := by
    rw [isExported, hstart]
    exact List.isPrefixOf_iff_prefix.mpr (hstarts.trans hlonger)
  rw [h] at hexported
  cases hexported

theorem readLine_export {indent blanks rest : List Char} {c : Char}
    (hindent : ∀ d ∈ indent, Text.isBlank d = true) (hblanks : ∀ d ∈ blanks, Text.isBlank d = true)
    (hc : Text.isBlank c = false) :
    readLine (indent ++ "export ".toList ++ (blanks ++ c :: rest)) =
      (readAssignment (c :: Text.trimEnd rest)).map some := by
  have htrim : 'e' :: Text.trimEnd ("xport ".toList ++ blanks ++ c :: rest) =
      "export ".toList ++ (blanks ++ c :: Text.trimEnd rest) := by
    rw [Text.trimEnd_append_cons hc, List.append_assoc]
    rfl
  have hline : indent ++ "export ".toList ++ (blanks ++ c :: rest) =
      indent ++ 'e' :: ("xport ".toList ++ blanks ++ c :: rest) := by simp
  rw [hline, readLine_of_start hindent (by decide) (by decide), htrim, dropExport_export,
    Text.trimStart_blanks hblanks, Text.trimStart_cons hc]

/-- A line that is changed assigns what it did. The comment alone needs a line without fault. -/
theorem readLine_edit {found : Option Assignment} (h : LineEdit line line')
    (hread : readLine line = .ok found) : readLine line' = .ok found := by
  cases h with
  | pad line hleft hright => rwa [readLine, Text.trim_blanks hleft hright, ← readLine]
  | @exported indent line hindent hassigns hplain =>
    obtain ⟨blanks, c, rest, hblanks, hc, hhash, hstart, rfl⟩ := exists_start hassigns
    have hbefore : ∀ d ∈ indent ++ blanks, Text.isBlank d = true :=
      fun d hd => (List.mem_append.mp hd).elim (hindent d) (hblanks d)
    rw [← List.append_assoc, readLine_of_start hbefore hc hhash,
      dropExport_of_not_exported hplain hstart] at hread
    rwa [readLine_export hindent hblanks hc]
  | @comment line c hassigns hc text =>
    obtain ⟨blanks, d, rest, hblanks, hd, hhash, -, rfl⟩ := exists_start hassigns
    obtain ⟨more, hmore, htrim⟩ := trimEnd_comment hc rest text
    rw [readLine_of_start hblanks hd hhash] at hread
    obtain ⟨new, hnew, rfl⟩ := map_eq_ok hread
    rw [List.append_assoc, List.cons_append, readLine_of_start hblanks hd hhash, htrim,
      ← List.cons_append, dropExport_append hnew, readAssignment_trailing hnew hmore]
    rfl

theorem LineEdit.subset (h : LineEdit line line') : line ⊆ line' := by
  intro c hc
  cases h with
  | pad line => simp [hc]
  | exported => rcases List.mem_append.mp hc with hc | hc <;> simp [hc]
  | comment => simp [hc]

end Lines

section Files

variable {vars : List Assignment} {first second : List (List Char)}

theorem assigns_append_iff {all : List Assignment} :
    Assigns (first ++ second) all ↔
      ∃ front back, Assigns first front ∧ Assigns second back ∧ all = front ++ back := by
  constructor
  · intro h
    induction first generalizing all with
    | nil => exact ⟨[], all, .nil, h, rfl⟩
    | cons line rest ih =>
      cases h with
      | blank hread h =>
        obtain ⟨front, back, hfront, hback, rfl⟩ := ih h
        exact ⟨front, back, .blank hread hfront, hback, rfl⟩
      | @assign _ _ new _ hread h =>
        obtain ⟨front, back, hfront, hback, rfl⟩ := ih h
        exact ⟨new :: front, back, .assign hread hfront, hback, rfl⟩
  · rintro ⟨front, back, hfront, hback, rfl⟩
    induction hfront with
    | nil => exact hback
    | blank hread _ ih => exact .blank hread ih
    | assign hread _ ih => exact .assign hread ih

theorem assigns_ignored_iff {line : List Char} {all : List Assignment}
    (h : readLine line = .ok none) : Assigns (line :: first) all ↔ Assigns first all := by
  constructor
  · intro hall
    cases hall with
    | blank _ hall => exact hall
    | assign hread =>
      rw [h] at hread
      cases hread
  · exact .blank h

theorem Assigns.edit {line line' : List Char} {all : List Assignment} (h : LineEdit line line')
    (hall : Assigns (line :: first) all) : Assigns (line' :: first) all := by
  cases hall with
  | blank hread hall => exact .blank (readLine_edit h hread) hall
  | assign hread hall => exact .assign (readLine_edit h hread) hall

theorem splitOn_joined_of_ne_nil {lines : List (List Char)} (h : lines ≠ []) :
    (joined lines).toList.splitOn '\n' = lines.flatMap (·.splitOn '\n') := by
  rw [joined, String.toList_ofList]
  induction lines with
  | nil => exact absurd rfl h
  | cons line rest ih =>
    by_cases hrest : rest = []
    · simp [hrest]
    · rw [List.intercalate_cons_of_ne_nil hrest, List.append_assoc, List.singleton_append,
        List.splitOn_append_cons_self, ih hrest, List.flatMap_cons]

theorem parse_joined_iff {lines : List (List Char)} :
    parse (joined lines) = .ok vars ↔
      ∃ all, Assigns (lines.flatMap (·.splitOn '\n')) all ∧ vars = lastOfEach all := by
  rw [parse_eq_ok_iff]
  by_cases h : lines = []
  · subst h
    have hempty : (joined []).toList.splitOn '\n' = [[]] := rfl
    rw [hempty, List.flatMap_nil]
    simp only [assigns_ignored_iff (show readLine [] = .ok none from rfl)]
  · rw [splitOn_joined_of_ne_nil h]

theorem readLines_congr {line : Nat}
    (h : List.Forall₂ (fun a b => readLine b = readLine a) first second) :
    readLines line vars second = readLines line vars first := by
  induction h generalizing line vars with
  | nil => rfl
  | cons hread _ ih =>
    rw [readLines, readLines, hread]
    split
    · rfl
    · exact ih
    · exact ih

/-- The carriage returns come at the ends of lines, where they are trimmed. -/
theorem splitOn_withReturns (cs : List Char) :
    List.Forall₂ (fun line line' => line' = line ∨ line' = line ++ ['\r']) (cs.splitOn '\n')
      ((cs.flatMap fun c => if c = '\n' then ['\r', '\n'] else [c]).splitOn '\n') := by
  induction cs with
  | nil => exact .cons (.inl rfl) .nil
  | cons c rest ih =>
    rw [List.flatMap_cons]
    by_cases hc : c = '\n'
    · subst hc
      have hnext := List.Forall₂.cons (R := fun line line' => line' = line ∨ line' = line ++ ['\r'])
        (a := ([] : List Char)) (b := ['\r']) (.inr rfl) ih
      simpa [List.splitOn_cons_eq_if_modifyHead] using hnext
    · have hother : ¬(c == '\n') = true := by simpa using hc
      rw [if_neg hc, List.singleton_append, List.splitOn_cons_eq_if_modifyHead,
        List.splitOn_cons_eq_if_modifyHead, if_neg hother, if_neg hother]
      generalize rest.splitOn '\n' = lines at ih ⊢
      generalize (rest.flatMap _).splitOn '\n' = lines' at ih ⊢
      cases ih with
      | nil => exact .nil
      | cons hfirst hrest =>
        refine .cons ?_ hrest
        rcases hfirst with rfl | rfl
        · exact .inl rfl
        · exact .inr rfl

theorem parse_withReturns (text : String) : parse (withReturns text) = parse text := by
  rw [parse, parse, withReturns, String.toList_ofList]
  refine readLines_congr ((splitOn_withReturns text.toList).imp fun line line' h => ?_)
  rcases h with rfl | rfl
  · rfl
  · exact readLine_concat_blank (by decide) line

theorem parse_edit {before after : String} (h : Edit before after)
    (hparse : parse before = .ok vars) : parse after = .ok vars := by
  cases h with
  | returns text => rwa [parse_withReturns]
  | @insert line before after hline hfeed =>
    obtain ⟨all, hall, hvars⟩ := parse_joined_iff.mp hparse
    rw [List.flatMap_append, assigns_append_iff] at hall
    obtain ⟨front, back, hfront, hback, rfl⟩ := hall
    refine parse_joined_iff.mpr ⟨_, ?_, hvars⟩
    rw [List.flatMap_append, List.flatMap_cons, List.splitOn_eq_singleton hfeed]
    have hblank := Assigns.blank (readLine_of_isIgnored hline) hback
    exact assigns_append_iff.mpr ⟨front, back, hfront, hblank, rfl⟩
  | @change line line' before after hline hfeed =>
    have hfeed' : '\n' ∉ line := fun hm => hfeed (hline.subset hm)
    obtain ⟨all, hall, hvars⟩ := parse_joined_iff.mp hparse
    rw [List.flatMap_append, List.flatMap_cons, List.splitOn_eq_singleton hfeed',
      assigns_append_iff] at hall
    obtain ⟨front, back, hfront, hback, rfl⟩ := hall
    refine parse_joined_iff.mpr ⟨_, ?_, hvars⟩
    rw [List.flatMap_append, List.flatMap_cons, List.splitOn_eq_singleton hfeed]
    exact assigns_append_iff.mpr ⟨front, back, hfront, hback.edit hline, rfl⟩

end Files

/-- Carriage returns before the line feeds change nothing at all, faults included. What a text
assigns is the same however often its layout is changed. -/
theorem parse_relaid :
    (∀ text, parse (withReturns text) = parse text) ∧
    ∀ before after vars, Relation.ReflTransGen Edit before after → parse before = .ok vars →
      parse after = .ok vars := by
  refine ⟨parse_withReturns, fun before after vars h hparse => ?_⟩
  induction h with
  | refl => exact hparse
  | tail _ hedit ih => exact parse_edit hedit ih

theorem parse_relaid_sample :
    parse "A='#'\nB=2" = .ok [("A", "#"), ("B", "2")] ∧
      parse "\t A='#' # '\r\n #!\r\nexport B=2" = .ok [("A", "#"), ("B", "2")] := by
  have hread : parse "A='#'\nB=2" = .ok [("A", "#"), ("B", "2")] := rfl
  have hcomment : LineEdit "A='#'".toList "A='#' # '".toList :=
    @LineEdit.comment "A='#'".toList ' ' rfl rfl [' ', '\'']
  have hpad : LineEdit "A='#' # '".toList "\t A='#' # '".toList :=
    @LineEdit.pad ['\t', ' '] [] _ (List.all_eq_true.mp rfl) (List.all_eq_true.mp rfl)
  have hexport : LineEdit "B=2".toList "export B=2".toList :=
    @LineEdit.exported [] "B=2".toList (List.all_eq_true.mp rfl) rfl rfl
  have hfirst : Edit "A='#'\nB=2" "A='#' # '\nB=2" :=
    .change [] ["B=2".toList] hcomment (by decide)
  have hsecond : Edit "A='#' # '\nB=2" "\t A='#' # '\nB=2" :=
    .change [] ["B=2".toList] hpad (by decide)
  have hthird : Edit "\t A='#' # '\nB=2" "\t A='#' # '\nexport B=2" :=
    .change ["\t A='#' # '".toList] [] hexport (by decide)
  have hfourth : Edit "\t A='#' # '\nexport B=2" "\t A='#' # '\n #!\nexport B=2" :=
    @Edit.insert [' ', '#', '!'] ["\t A='#' # '".toList] ["export B=2".toList] rfl (by decide)
  have hfifth : Edit "\t A='#' # '\n #!\nexport B=2" "\t A='#' # '\r\n #!\r\nexport B=2" :=
    .returns _
  have hedits := ((((Relation.ReflTransGen.single hfirst).tail hsecond).tail hthird).tail
    hfourth).tail hfifth
  exact ⟨hread, parse_relaid.2 _ _ _ hedits hread⟩

end Flags

end WasmBuild
