import WasmBuild.Proofs.Assignments
import WasmBuild.Proofs.Pieces
import WasmBuild.Proofs.Words

/-! Flags files that are written from variables. What a file can hold is just what can be read
from one, and it is read back as it was written. -/

namespace WasmBuild

namespace Text

theorem trimStart_cons {c : Char} (hc : isBlank c = false) (cs : List Char) :
    trimStart (c :: cs) = c :: cs := by
  rw [trimStart, List.dropWhile_cons_of_neg (by simp [hc])]

theorem trim_of_ends {c d : Char} {cs : List Char} (hc : isBlank c = false)
    (hd : isBlank d = false) (hend : [d] <:+ c :: cs) : trim (c :: cs) = c :: cs := by
  obtain ⟨front, heq⟩ := hend
  rw [trim, trimStart_cons hc, ← heq, trimEnd, List.reverse_append, List.reverse_singleton,
    List.singleton_append, List.dropWhile_cons_of_neg (by simp [hd])]
  simp

/-- A text is cut at the first letter that does not go on. -/
theorem cut_at {α : Type} {goesOn : α → Bool} {front back : List α} {stop : α}
    (hfront : ∀ a ∈ front, goesOn a = true) (hstop : ¬goesOn stop = true) :
    (front ++ stop :: back).takeWhile goesOn = front ∧
      (front ++ stop :: back).dropWhile goesOn = stop :: back := by
  rw [List.takeWhile_append_of_pos hfront, List.takeWhile_cons_of_neg hstop,
    List.dropWhile_append_of_pos hfront, List.dropWhile_cons_of_neg hstop, List.append_nil]
  exact ⟨rfl, rfl⟩

theorem mem_of_mem_trimStart {c : Char} {cs : List Char} (h : c ∈ trimStart cs) : c ∈ cs :=
  (List.dropWhile_sublist isBlank).subset h

theorem mem_of_mem_trim {c : Char} {cs : List Char} (h : c ∈ trim cs) : c ∈ cs := by
  have hend : c ∈ (trimStart cs).reverse.dropWhile isBlank := List.mem_reverse.mp h
  have hstart : c ∈ (trimStart cs).reverse := (List.dropWhile_sublist isBlank).subset hend
  exact mem_of_mem_trimStart (List.mem_reverse.mp hstart)

end Text

namespace Shell

variable {c : Char} {cs : List Char}

theorem mem_of_mem_quoteChars (h : c ∈ quoteChars cs) : c ∈ cs ∨ c = '\'' ∨ c = '\\' := by
  rcases quoteChars_cases cs with ⟨heq, -, -⟩ | heq
  · exact .inl (heq ▸ h)
  · rw [heq] at h
    simp only [List.mem_cons, List.mem_append, List.mem_flatMap, List.not_mem_nil, or_false] at h
    rcases h with h | ⟨d, hd, hc⟩ | h
    · exact .inr (.inl h)
    · by_cases hquote : d = '\''
      · simp only [escapeApostrophe, hquote, if_true, List.mem_cons, List.not_mem_nil, or_false] at hc
        tauto
      · rw [escapeApostrophe, if_neg hquote, List.mem_singleton] at hc
        exact .inl (hc ▸ hd)
    · exact .inr (.inl h)

theorem quoteChars_end (cs : List Char) :
    ∃ last, [last] <:+ quoteChars cs ∧ Text.isBlank last = false := by
  rcases quoteChars_cases cs with ⟨heq, hne, hplain⟩ | heq
  · refine ⟨cs.getLast hne, ?_, not_isBlank_of_isPlain (hplain _ (List.getLast_mem hne))⟩
    exact ⟨cs.dropLast, by rw [heq, List.dropLast_append_getLast]⟩
  · exact ⟨'\'', ⟨'\'' :: cs.flatMap escapeApostrophe, heq.symm⟩, rfl⟩

end Shell

namespace Flags

open Shell (quoteChars escapeApostrophe isPlain)

section Values

variable {cs value : List Char} {c : Char}

theorem readValue_bare_cons (hc : isPlain c = true) :
    readValue .bare (c :: cs) = (readValue .bare cs).map (c :: ·) := by
  have hescape : c ≠ '\\' := Shell.ne_of_isPlain hc (by decide)
  have hsingle : c ≠ '\'' := Shell.ne_of_isPlain hc (by decide)
  have hdouble : c ≠ '"' := Shell.ne_of_isPlain hc (by decide)
  have hblank : ¬Text.isBlank c = true := by simp [Shell.not_isBlank_of_isPlain hc]
  rw [readValue.eq_def]
  split <;> simp_all

theorem readValue_plain (h : ∀ c ∈ cs, isPlain c = true) : readValue .bare cs = .ok cs := by
  induction cs with
  | nil => rfl
  | cons c cs ih =>
    have hrest := ih fun d hd => h d (List.mem_cons_of_mem c hd)
    rw [readValue_bare_cons (h c List.mem_cons_self), hrest]
    rfl

theorem readValue_single_cons (hc : c ≠ '\'') :
    readValue .single (c :: cs) = (readValue .single cs).map (c :: ·) := by
  rw [readValue.eq_def]
  split <;> simp_all

/-- The apostrophes around an escaped one end a run and begin the next. -/
theorem readValue_apostrophe (cs : List Char) :
    readValue .single (escapeApostrophe '\'' ++ cs) = (readValue .single cs).map ('\'' :: ·) := rfl

theorem readValue_escaped (cs : List Char) :
    readValue .single (cs.flatMap escapeApostrophe ++ ['\'']) = .ok cs := by
  induction cs with
  | nil => rfl
  | cons c cs ih =>
    rw [List.flatMap_cons, List.append_assoc]
    by_cases hc : c = '\''
    · rw [hc, readValue_apostrophe, ih]
      rfl
    · rw [escapeApostrophe, if_neg hc, List.singleton_append, readValue_single_cons hc, ih]
      rfl

theorem readValue_quote (cs : List Char) : readValue .bare (quoteChars cs) = .ok cs := by
  rcases Shell.quoteChars_cases cs with ⟨heq, -, hplain⟩ | heq
  · rw [heq, readValue_plain hplain]
  · rw [heq]
    exact readValue_escaped cs

theorem map_eq_ok {ε α β : Type} {f : α → β} {x : Except ε α} {b : β} (h : x.map f = .ok b) :
    ∃ a, x = .ok a ∧ f a = b := by
  cases x with
  | error e => cases h
  | ok a => exact ⟨a, rfl, Except.ok.inj h⟩

/-- A value is what is left of its text when quotes and backslashes are taken away. -/
theorem sublist_of_readValue {quoting : Quoting} (h : readValue quoting cs = .ok value) :
    value.Sublist cs := by
  fun_induction readValue quoting cs generalizing value
  case case1 | case6 | case7 =>
    cases h
    exact List.nil_sublist _
  case case2 | case8 | case10 | case13 | case15 => cases h
  case case4 ih | case5 ih | case11 ih | case14 ih => exact (ih h).cons _
  case case9 ih | case12 ih | case17 ih =>
    obtain ⟨tail, htail, rfl⟩ := map_eq_ok h
    exact (ih htail).cons_cons _
  case case3 ih =>
    obtain ⟨tail, htail, rfl⟩ := map_eq_ok h
    exact ((ih htail).cons_cons _).cons _
  case case16 c rest ih =>
    obtain ⟨tail, htail, rfl⟩ := map_eq_ok h
    have hrest := (ih htail).cons_cons c
    split
    · exact hrest.cons _
    · exact hrest.cons_cons _

end Values

section Lines

variable {key value line : List Char}

theorem not_mem_of_isIdentifier {c : Char} (hkey : isIdentifier key = true)
    (hc : (c == '_' || c.isAlphanum) = false) : c ∉ key := by
  intro hmem
  rw [isWord_of_isIdentifier hkey c hmem] at hc
  cases hc

theorem splits_at_equals (hkey : '=' ∉ key) :
    (key ++ '=' :: value).takeWhile (· != '=') = key ∧
      (key ++ '=' :: value).dropWhile (· != '=') = '=' :: value := by
  have hall : ∀ c ∈ key, (c != '=') = true := by
    intro c hc
    have hne : c ≠ '=' := fun e => hkey (e ▸ hc)
    simpa using hne
  exact Text.cut_at hall (by simp)

/-- The word `export` is not taken for the beginning of a key, since a blank follows it. -/
theorem dropExport_of_key (hkey : isIdentifier key = true) :
    dropExport (key ++ '=' :: value) = key ++ '=' :: value := by
  unfold dropExport
  split
  · next rest heq =>
    have htake := (@splits_at_equals key value (not_mem_of_isIdentifier hkey rfl)).1
    rw [heq] at htake
    have hspace : ' ' ∈ key := htake ▸ by simp
    exact absurd hspace (not_mem_of_isIdentifier hkey rfl)
  · rfl

theorem readAssignment_of_key (hkey : isIdentifier key = true) (text : List Char) :
    readAssignment (key ++ '=' :: text) =
      match readValue .bare text with
      | .error fault => .error (.badValue fault)
      | .ok value => .ok (String.ofList key, String.ofList value) := by
  obtain ⟨htake, hdrop⟩ := @splits_at_equals key text (not_mem_of_isIdentifier hkey rfl)
  rw [readAssignment, hdrop]
  dsimp only
  rw [htake, hkey]
  rfl

/-- A line that assigns a quoted value, exported or not. -/
structure Line where
  exported : Bool
  assignment : Assignment

def Line.text (l : Line) : String :=
  (if l.exported then "export " else "") ++ l.assignment.1 ++ "=" ++ Shell.quote l.assignment.2

theorem Line.toList_text (l : Line) :
    l.text.toList = (if l.exported then "export ".toList else []) ++
      (l.assignment.1.toList ++ '=' :: quoteChars l.assignment.2.toList) := by
  cases h : l.exported <;> simp [Line.text, h, Shell.quote]

theorem dropExport_text {l : Line} (hkey : isIdentifier l.assignment.1.toList = true) :
    dropExport l.text.toList =
      l.assignment.1.toList ++ '=' :: quoteChars l.assignment.2.toList := by
  rw [Line.toList_text]
  cases l.exported with
  | false => exact dropExport_of_key hkey
  | true =>
    cases hchars : l.assignment.1.toList with
    | nil => simp [hchars, isIdentifier] at hkey
    | cons c cs =>
      have hc : isPlain c = true := isPlain_of_isIdentifier hkey c (hchars ▸ List.mem_cons_self)
      exact Text.trimStart_cons (Shell.not_isBlank_of_isPlain hc) _

theorem trim_text {l : Line} (hkey : isIdentifier l.assignment.1.toList = true) :
    ∃ c cs, l.text.toList = c :: cs ∧ c ≠ '#' ∧ Text.trim l.text.toList = c :: cs := by
  have hhead : ∃ c cs, l.text.toList = c :: cs ∧ isPlain c = true := by
    rw [Line.toList_text]
    cases l.exported with
    | true => exact ⟨'e', _, rfl, rfl⟩
    | false =>
      cases hchars : l.assignment.1.toList with
      | nil => simp [hchars, isIdentifier] at hkey
      | cons c cs =>
        exact ⟨c, _, rfl, isPlain_of_isIdentifier hkey c (hchars ▸ List.mem_cons_self)⟩
  obtain ⟨c, cs, heq, hc⟩ := hhead
  obtain ⟨last, hquote, hlast⟩ := Shell.quoteChars_end l.assignment.2.toList
  have hend : [last] <:+ c :: cs := by
    rw [← heq, Line.toList_text]
    have hvalue := hquote.trans (List.suffix_cons '=' _)
    exact (hvalue.trans (List.suffix_append _ _)).trans (List.suffix_append _ _)
  refine ⟨c, cs, heq, Shell.ne_of_isPlain hc (by decide), ?_⟩
  rw [heq, Text.trim_of_ends (Shell.not_isBlank_of_isPlain hc) hlast hend]

theorem readLine_text {l : Line} (hkey : isIdentifier l.assignment.1.toList = true) :
    readLine l.text.toList = .ok (some l.assignment) := by
  obtain ⟨c, cs, heq, hc, htrim⟩ := trim_text hkey
  have hcontent : readLine l.text.toList =
      (readAssignment (dropExport l.text.toList)).map some := by
    rw [readLine, htrim, heq]
    split
    · next hnil => cases hnil
    · next hcomment => exact absurd (List.cons.inj hcomment).1 hc
    · rfl
  rw [hcontent, dropExport_text hkey, readAssignment_of_key hkey, readValue_quote]
  simp [Except.map]

theorem mem_of_mem_dropExport {c : Char} (h : c ∈ dropExport line) : c ∈ line := by
  unfold dropExport at h
  split at h
  · have hrest := Text.mem_of_mem_trimStart h
    simp [hrest]
  · exact h

theorem readAssignment_eq_ok {a : Assignment} (h : readAssignment line = .ok a) :
    isIdentifier a.1.toList = true ∧ ∀ c ∈ a.2.toList, c ∈ line := by
  unfold readAssignment at h
  split at h
  · cases h
  next equals rest hdrop =>
  dsimp only at h
  split at h
  · cases h
  next hkey =>
  split at h
  · cases h
  next value hvalue =>
  cases h
  simp only [String.toList_ofList]
  refine ⟨by simpa using hkey, fun c hc => ?_⟩
  have hrest : c ∈ line.dropWhile (· != '=') :=
    hdrop ▸ List.mem_cons_of_mem equals ((sublist_of_readValue hvalue).subset hc)
  exact (List.dropWhile_sublist _).subset hrest

theorem readLine_eq_ok {a : Assignment} (h : readLine line = .ok (some a)) :
    isIdentifier a.1.toList = true ∧ ∀ c ∈ a.2.toList, c ∈ line := by
  unfold readLine at h
  split at h
  · cases h
  · cases h
  obtain ⟨new, hread, hnew⟩ := map_eq_ok h
  cases hnew
  obtain ⟨hkey, hvalue⟩ := readAssignment_eq_ok hread
  exact ⟨hkey, fun c hc => Text.mem_of_mem_trim (mem_of_mem_dropExport (hvalue c hc))⟩

theorem newline_not_mem_text {l : Line} (hkey : isIdentifier l.assignment.1.toList = true)
    (hvalue : '\n' ∉ l.assignment.2.toList) : '\n' ∉ l.text.toList := by
  have hexport : '\n' ∉ if l.exported then "export ".toList else [] := by
    cases l.exported <;> decide
  have hname : '\n' ∉ l.assignment.1.toList := not_mem_of_isIdentifier hkey (by decide)
  have hquoted : '\n' ∉ quoteChars l.assignment.2.toList := by
    intro hmem
    rcases Shell.mem_of_mem_quoteChars hmem with hmem | hmem | hmem
    · exact hvalue hmem
    · exact absurd hmem (by decide)
    · exact absurd hmem (by decide)
  rw [Line.toList_text, List.mem_append, List.mem_append, List.mem_cons, not_or, not_or, not_or]
  exact ⟨hexport, hname, by decide, hquoted⟩

end Lines

/-- What a flags file can hold. -/
structure Storable (vars : List Assignment) : Prop where
  distinct : (vars.map (·.1)).Nodup
  key : ∀ a ∈ vars, isIdentifier a.1.toList = true
  value : ∀ a ∈ vars, '\n' ∉ a.2.toList

def render (lines : List Line) : String := String.join (lines.map fun l => l.text ++ "\n")

section Files

variable {lines : List Line} {vars : List Assignment}

theorem Storable.newline_not_mem (h : Storable (lines.map Line.assignment)) :
    ∀ text ∈ lines.map fun l => l.text.toList, '\n' ∉ text := by
  intro text htext
  obtain ⟨l, hl, rfl⟩ := List.mem_map.mp htext
  have hmem := List.mem_map_of_mem (f := Line.assignment) hl
  exact newline_not_mem_text (h.key _ hmem) (h.value _ hmem)

theorem toList_render (lines : List Line) :
    (render lines).toList =
      List.intercalate ['\n'] ((lines.map fun l => l.text.toList) ++ [[]]) := by
  induction lines with
  | nil => rfl
  | cons l lines ih =>
    have hne : (lines.map fun l => l.text.toList) ++ [[]] ≠ [] := by simp
    rw [List.map_cons, List.cons_append, List.intercalate_cons_of_ne_nil hne, ← ih]
    simp [render, String.toList_join]

theorem splitOn_render (h : Storable (lines.map Line.assignment)) :
    (render lines).toList.splitOn '\n' = (lines.map fun l => l.text.toList) ++ [[]] := by
  have hlines : ∀ text ∈ (lines.map fun l => l.text.toList) ++ [[]], '\n' ∉ text := by
    intro text htext
    rcases List.mem_append.mp htext with htext | htext
    · exact h.newline_not_mem text htext
    · rw [List.mem_singleton.mp htext]
      exact List.not_mem_nil
  rw [toList_render, List.splitOn_intercalate '\n' hlines (by simp)]

/-- The line feed after the last line may be left out. -/
theorem splitOn_joined (h : Storable (lines.map Line.assignment)) :
    ("\n".intercalate (lines.map Line.text)).toList.splitOn '\n' =
      (lines.map fun l => l.text.toList) ++ if lines = [] then [[]] else [] := by
  have htext : ("\n".intercalate (lines.map Line.text)).toList =
      List.intercalate ['\n'] (lines.map fun l => l.text.toList) := by
    rw [String.toList_intercalate, List.map_map]
    rfl
  by_cases hnil : lines = []
  · subst hnil
    rfl
  · rw [htext, List.splitOn_intercalate '\n' h.newline_not_mem (by simpa using hnil), if_neg hnil,
      List.append_nil]

theorem assigns_lines {tail : List (List Char)} (h : Storable (lines.map Line.assignment))
    (htail : Assigns tail []) :
    Assigns ((lines.map fun l => l.text.toList) ++ tail) (lines.map Line.assignment) := by
  have hkeys : ∀ l ∈ lines, isIdentifier l.assignment.1.toList = true :=
    fun l hl => h.key _ (List.mem_map_of_mem hl)
  clear h
  induction lines with
  | nil => exact htail
  | cons l lines ih =>
    exact .assign (readLine_text (hkeys l List.mem_cons_self))
      (ih fun m hm => hkeys m (List.mem_cons_of_mem l hm))

theorem assigns_empty_line : Assigns [[]] [] := .blank rfl .nil

theorem storable_of_parse {text : String} (h : parse text = .ok vars) : Storable vars := by
  obtain ⟨all, hall, rfl⟩ := parse_eq_ok_iff.mp h
  have hline : ∀ a ∈ lastOfEach all, ∃ line ∈ text.toList.splitOn '\n',
      readLine line = .ok (some a) :=
    fun a ha => hall.exists_line ((lastOfEach_sublist all).subset ha)
  refine ⟨nodup_lastOfEach all, fun a ha => ?_, fun a ha hmem => ?_⟩
  · obtain ⟨line, -, hread⟩ := hline a ha
    exact (readLine_eq_ok hread).1
  · obtain ⟨line, hsplit, hread⟩ := hline a ha
    exact Path.not_mem_of_mem_splitOn hsplit ((readLine_eq_ok hread).2 '\n' hmem)

theorem parse_of_assigns {text : String} (h : Storable vars)
    (hall : Assigns (text.toList.splitOn '\n') vars) : parse text = .ok vars :=
  parse_eq_ok_iff.mpr ⟨vars, hall, (lastOfEach_of_nodup h.distinct).symm⟩

theorem parse_rendered (h : Storable (lines.map Line.assignment)) :
    parse (render lines) = .ok (lines.map Line.assignment) :=
  parse_of_assigns h (splitOn_render h ▸ assigns_lines h assigns_empty_line)

theorem parse_joined (h : Storable (lines.map Line.assignment)) :
    parse ("\n".intercalate (lines.map Line.text)) = .ok (lines.map Line.assignment) := by
  refine parse_of_assigns h (splitOn_joined h ▸ assigns_lines h ?_)
  split
  · exact assigns_empty_line
  · exact .nil

end Files

/-- Variables that a file can hold are read back from the file, in their order, and what is
read from any file are such variables. -/
theorem parse_render :
    (∀ lines : List Line, Storable (lines.map Line.assignment) →
      parse (render lines) = .ok (lines.map Line.assignment) ∧
        parse ("\n".intercalate (lines.map Line.text)) = .ok (lines.map Line.assignment)) ∧
    ∀ text vars, parse text = .ok vars → Storable vars ∧
      ∀ lines : List Line, lines.map Line.assignment = vars → parse (render lines) = .ok vars := by
  refine ⟨fun lines h => ⟨parse_rendered h, parse_joined h⟩, fun text vars h => ?_⟩
  have hstorable := storable_of_parse h
  refine ⟨hstorable, ?_⟩
  rintro lines rfl
  exact parse_rendered hstorable

def sampleLines : List Line :=
  [⟨true, "RUSTFLAGS", " it's \"#\\\r"⟩, ⟨false, "_", ""⟩, ⟨false, "export", "é-1"⟩]

theorem parse_render_sample :
    parse (render sampleLines) = .ok (sampleLines.map Line.assignment) ∧
      parse "A=1 # one\nB='x'\\''y'\n export A=\"2 \"\r" = .ok [("B", "x'y"), ("A", "2 ")] ∧
      Storable [("B", "x'y"), ("A", "2 ")] := by
  have hread : parse "A=1 # one\nB='x'\\''y'\n export A=\"2 \"\r" =
      .ok [("B", "x'y"), ("A", "2 ")] := by decide +kernel
  exact ⟨(parse_render.1 sampleLines ⟨by decide, by decide, by decide⟩).1, hread,
    (parse_render.2 _ _ hread).1⟩

end Flags

end WasmBuild
