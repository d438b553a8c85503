import WasmBuild.Proofs.Layout

/-! The grammar of values in a flags file. A value is written in segments, and is over with the text
or at a blank that nothing but a comment follows. There is one way only to take a text apart into
segments as far as they go, and what is found there decides between the value and the fault. -/

namespace WasmBuild.Flags

/-- What a backslash with the next character means between double quotes. -/
def meaning (c : Char) : List Char :=
  if c ∈ ['"', '\\', '$', '`'] then [c] else ['\\', c]

/-- What can stand between double quotes, where a backslash pairs with the next character. -/
inductive Quoted : List Char → List Char → Prop where
  | nil : Quoted [] []
  | plain {c : Char} {text value : List Char} (hquote : c ≠ '"') (hescape : c ≠ '\\')
      (h : Quoted text value) : Quoted (c :: text) (c :: value)
  | pair (c : Char) {text value : List Char} (h : Quoted text value) :
      Quoted ('\\' :: c :: text) (meaning c ++ value)

/-- A segment of a value: how it is written, and what it means. -/
inductive Segment : List Char → List Char → Prop where
  | single {text : List Char} (h : '\'' ∉ text) : Segment ('\'' :: (text ++ ['\''])) text
  | double {text value : List Char} (h : Quoted text value) : Segment ('"' :: (text ++ ['"'])) value
  | escaped (c : Char) : Segment ['\\', c] [c]
  | bare {c : Char} (h : isBare c = true) : Segment [c] [c]

inductive Segments : List Char → List Char → Prop where
  | nil : Segments [] []
  | cons {first part text value : List Char} (h : Segment first part)
      (hrest : Segments text value) : Segments (first ++ text) (part ++ value)

/-- The text begins with a segment. -/
def Starts (text : List Char) : Prop := ∃ first part rest, Segment first part ∧ text = first ++ rest

/-- What may follow a value. -/
inductive Ends : List Char → Prop where
  | nil : Ends []
  | blank {c : Char} {rest : List Char} (hc : Text.isBlank c = true)
      (h : Text.trimStart rest = []) : Ends (c :: rest)
  | comment {c : Char} {rest text : List Char} (hc : Text.isBlank c = true)
      (h : Text.trimStart rest = '#' :: text) : Ends (c :: rest)

/-- What cannot follow the segments of a value, and why. -/
inductive Stops : List Char → ValueFault → Prop where
  | apostrophe {text : List Char} (h : '\'' ∉ text) : Stops ('\'' :: text) .openApostrophe
  /-- The last pair may lack its second character. -/
  | quote {text value tail : List Char} (h : Quoted text value)
      (htail : tail = [] ∨ tail = ['\\']) : Stops ('"' :: (text ++ tail)) .openQuote
  | backslash : Stops ['\\'] .endingBackslash
  | content {c : Char} {rest : List Char} (hc : Text.isBlank c = true)
      (hne : Text.trimStart rest ≠ []) (hcomment : ∀ text, Text.trimStart rest ≠ '#' :: text) :
      Stops (c :: rest) (.unexpected (Text.trimStart rest))

section Reading

variable {c : Char} {text value first part rest : List Char} {fault : ValueFault}

theorem readValue_quoted (h : Quoted text value) (rest : List Char) :
    readValue .double (text ++ rest) = (readValue .double rest).map (value ++ ·) := by
  induction h with
  | nil => exact (map_append_nil _).symm
  | plain hquote hescape _ ih =>
    rw [List.cons_append, readValue_double_cons hquote hescape, ih, map_cons_map]
  | pair c _ ih =>
    have hescapable : isEscapable c = true ↔ c ∈ ['"', '\\', '$', '`'] := by
      simp [isEscapable, or_assoc]
    rw [List.cons_append, List.cons_append, readValue_double_backslash, ih, meaning]
    simp only [hescapable]
    split
    · exact map_cons_map _ _ _
    · cases readValue .double rest <;> rfl

theorem readValue_segment (h : Segment first part) (rest : List Char) :
    readValue .bare (first ++ rest) = (readValue .bare rest).map (part ++ ·) := by
  cases h with
  | single h =>
    rw [List.cons_append, List.append_assoc, List.singleton_append]
    exact readValue_single h rest
  | double h =>
    rw [List.cons_append, List.append_assoc, List.singleton_append]
    exact readValue_quoted h ('"' :: rest)
  | escaped c => exact readValue_backslash c rest
  | bare h => exact readValue_of_isBare h rest

theorem readValue_segments (h : Segments text value) (rest : List Char) :
    readValue .bare (text ++ rest) = (readValue .bare rest).map (value ++ ·) := by
  induction h with
  | nil => exact (map_append_nil _).symm
  | cons h _ ih =>
    rw [List.append_assoc, readValue_segment h, ih]
    cases readValue .bare rest with
    | error fault => rfl
    | ok value => simp [Except.map]

theorem readValue_ends (h : Ends rest) : readValue .bare rest = .ok [] := by
  cases h with
  | nil => rfl
  | blank hc h => exact readValue_blank hc (.inl h)
  | comment hc h => exact readValue_blank hc (.inr ⟨_, h⟩)

theorem readValue_apostrophes (h : '\'' ∉ text) :
    readValue .single text = .error .openApostrophe := by
  induction text with
  | nil => rfl
  | cons c text ih =>
    have hc : c ≠ '\'' := fun e => h (e ▸ List.mem_cons_self)
    rw [readValue_single_cons hc, ih fun hm => h (List.mem_cons_of_mem c hm)]
    rfl

theorem readValue_content (hc : Text.isBlank c = true) (hne : Text.trimStart rest ≠ [])
    (hcomment : ∀ text, Text.trimStart rest ≠ '#' :: text) :
    readValue .bare (c :: rest) = .error (.unexpected (Text.trimStart rest)) := by
  have hescape : c ≠ '\\' := fun e => absurd (e ▸ hc) (by decide)
  have hsingle : c ≠ '\'' := fun e => absurd (e ▸ hc) (by decide)
  have hdouble : c ≠ '"' := fun e => absurd (e ▸ hc) (by decide)
  rw [readValue.eq_def]
  split <;> simp_all

theorem readValue_stops (h : Stops rest fault) : readValue .bare rest = .error fault := by
  cases h with
  | apostrophe h => exact readValue_apostrophes h
  | quote h htail =>
    rcases htail with rfl | rfl
    · exact readValue_quoted h []
    · exact readValue_quoted h ['\\']
  | backslash => rfl
  | content hc hne hcomment => exact readValue_content hc hne hcomment

end Reading

section Places

variable {c : Char} {text text' value value' first first' part part' rest rest' tail : List Char}
  {fault : ValueFault}

/-- Between double quotes a text is read up to the next quote or to its end. -/
theorem quoted_split (text : List Char) :
    ∃ front value tail, Quoted front value ∧ text = front ++ tail ∧
      (tail = [] ∨ tail = ['\\'] ∨ ∃ rest, tail = '"' :: rest) := by
  induction text using List.twoStepInduction with
  | nil => exact ⟨[], [], [], .nil, rfl, .inl rfl⟩
  | singleton c =>
    by_cases hquote : c = '"'
    · exact ⟨[], [], [c], .nil, rfl, .inr (.inr ⟨[], hquote ▸ rfl⟩)⟩
    by_cases hescape : c = '\\'
    · exact ⟨[], [], [c], .nil, rfl, .inr (.inl (hescape ▸ rfl))⟩
    · exact ⟨[c], [c], [], .plain hquote hescape .nil, rfl, .inl rfl⟩
  | cons_cons c d text hafter hnext =>
    by_cases hquote : c = '"'
    · exact ⟨[], [], _, .nil, rfl, .inr (.inr ⟨d :: text, hquote ▸ rfl⟩)⟩
    by_cases hescape : c = '\\'
    · obtain ⟨front, value, tail, hfront, rfl, htail⟩ := hafter
      exact ⟨_, _, tail, .pair d hfront, hescape ▸ rfl, htail⟩
    · obtain ⟨front, value, tail, hfront, htext, htail⟩ := hnext d
      exact ⟨_, _, tail, .plain hquote hescape hfront, by rw [htext, List.cons_append], htail⟩

/-- What is quoted goes on as long as the quote is not closed. -/
theorem Quoted.goes_on (h : Quoted text value) (h' : Quoted text' value')
    (heq : text ++ tail = text' ++ '"' :: rest) :
    ∃ more moreValue, Quoted more moreValue ∧ text' = text ++ more ∧ value' = value ++ moreValue ∧
      tail = more ++ '"' :: rest := by
  induction h generalizing text' value' with
  | nil => exact ⟨text', value', h', rfl, rfl, heq⟩
  | plain hquote hescape _ ih =>
    cases h' with
    | nil => exact absurd (List.cons.inj heq).1 hquote
    | plain _ _ h' =>
      obtain ⟨rfl, hrest⟩ := List.cons.inj heq
      obtain ⟨more, moreValue, hmore, rfl, rfl, htail⟩ := ih h' hrest
      exact ⟨more, moreValue, hmore, rfl, rfl, htail⟩
    | pair => exact absurd (List.cons.inj heq).1 hescape
  | pair c _ ih =>
    cases h' with
    | nil => exact absurd (List.cons.inj heq).1 (by decide)
    | plain _ hescape => exact absurd (List.cons.inj heq).1.symm hescape
    | pair d h' =>
      obtain ⟨rfl, hrest⟩ := List.cons.inj (List.cons.inj heq).2
      obtain ⟨more, moreValue, hmore, rfl, rfl, htail⟩ := ih h' hrest
      exact ⟨more, moreValue, hmore, rfl, (List.append_assoc _ _ _).symm, htail⟩

theorem Quoted.unique (h : Quoted text value) (h' : Quoted text' value')
    (heq : text ++ '"' :: rest = text' ++ '"' :: rest') :
    text = text' ∧ value = value' ∧ rest = rest' := by
  obtain ⟨more, moreValue, hmore, rfl, rfl, htail⟩ := h.goes_on h' heq
  cases hmore with
  | nil => simpa using htail
  | plain hquote => exact absurd (List.cons.inj htail).1.symm hquote
  | pair => exact absurd (List.cons.inj htail).1 (by decide)

theorem apostrophe_unique (h : '\'' ∉ text) (h' : '\'' ∉ text')
    (heq : text ++ '\'' :: rest = text' ++ '\'' :: rest') : text = text' ∧ rest = rest' := by
  rcases List.append_eq_append_iff.mp heq with ⟨more, rfl, hmore⟩ | ⟨more, rfl, hmore⟩
  · cases more with
    | nil => simpa using hmore
    | cons c more =>
      obtain ⟨rfl, -⟩ := List.cons.inj hmore
      simp at h'
  · cases more with
    | nil => simpa using hmore.symm
    | cons c more =>
      obtain ⟨rfl, -⟩ := List.cons.inj hmore
      simp at h

theorem Segment.eq_cons (h : Segment first part) :
    ∃ c tail, first = c :: tail ∧ Text.isBlank c = false := by
  cases h with
  | single => exact ⟨_, _, rfl, by decide⟩
  | double => exact ⟨_, _, rfl, by decide⟩
  | escaped => exact ⟨_, _, rfl, by decide⟩
  | @bare c h =>
    refine ⟨c, [], rfl, ?_⟩
    simp only [isBare, Bool.and_eq_true, Bool.not_eq_true'] at h
    exact h.1.1.1

/-- No segment is the beginning of another one. -/
theorem Segment.unique (h : Segment first part) (h' : Segment first' part')
    (heq : first ++ rest = first' ++ rest') : first = first' ∧ part = part' ∧ rest = rest' := by
  have hbare {c : Char} (hc : isBare c = true) : c ≠ '\'' ∧ c ≠ '"' ∧ c ≠ '\\' := by
    simp only [isBare, Bool.and_eq_true, bne_iff_ne] at hc
    exact ⟨hc.1.1.2, hc.1.2, hc.2⟩
  have hhead {c d : Char} {cs ds : List Char} (h : c :: cs = d :: ds) : c = d := (List.cons.inj h).1
  cases h with
  | single h =>
    cases h' with
    | single h' =>
      rw [List.cons_append, List.cons_append, List.append_assoc, List.append_assoc] at heq
      obtain ⟨rfl, rfl⟩ := apostrophe_unique h h' (List.cons.inj heq).2
      exact ⟨rfl, rfl, rfl⟩
    | double | escaped => exact absurd (hhead heq) (by decide)
    | bare h' => exact absurd (hhead heq).symm (hbare h').1
  | double h =>
    cases h' with
    | double h' =>
      rw [List.cons_append, List.cons_append, List.append_assoc, List.append_assoc] at heq
      obtain ⟨rfl, rfl, rfl⟩ := h.unique h' (List.cons.inj heq).2
      exact ⟨rfl, rfl, rfl⟩
    | single | escaped => exact absurd (hhead heq) (by decide)
    | bare h' => exact absurd (hhead heq).symm (hbare h').2.1
  | escaped c =>
    cases h' with
    | escaped d => simpa using heq
    | single | double => exact absurd (hhead heq) (by decide)
    | bare h' => exact absurd (hhead heq).symm (hbare h').2.2
  | bare h =>
    cases h' with
    | bare h' => simpa using heq
    | single => exact absurd (hhead heq) (hbare h).1
    | double => exact absurd (hhead heq) (hbare h).2.1
    | escaped => exact absurd (hhead heq) (hbare h).2.2

theorem Starts.of_segment (h : Segment first part) (rest : List Char) : Starts (first ++ rest) :=
  ⟨first, part, rest, h, rfl⟩

theorem starts_or_ends_or_stops (text : List Char) :
    Starts text ∨ Ends text ∨ ∃ fault, Stops text fault := by
  cases text with
  | nil => exact .inr (.inl .nil)
  | cons c text =>
    by_cases hsingle : c = '\''
    · subst hsingle
      by_cases hclosed : '\'' ∈ text
      · obtain ⟨front, rest, rfl, hfront⟩ := List.eq_append_cons_of_mem hclosed
        have hstarts := Starts.of_segment (.single hfront) rest
        rw [List.cons_append, List.append_assoc] at hstarts
        exact .inl hstarts
      · exact .inr (.inr ⟨_, .apostrophe hclosed⟩)
    by_cases hdouble : c = '"'
    · subst hdouble
      obtain ⟨front, value, tail, hfront, rfl, htail | htail | ⟨rest, rfl⟩⟩ := quoted_split text
      · exact .inr (.inr ⟨_, .quote hfront (.inl htail)⟩)
      · exact .inr (.inr ⟨_, .quote hfront (.inr htail)⟩)
      · have hstarts := Starts.of_segment (.double hfront) rest
        rw [List.cons_append, List.append_assoc] at hstarts
        exact .inl hstarts
    by_cases hescape : c = '\\'
    · subst hescape
      cases text with
      | nil => exact .inr (.inr ⟨_, .backslash⟩)
      | cons d rest => exact .inl (.of_segment (.escaped d) rest)
    by_cases hblank : Text.isBlank c = true
    · cases hrest : Text.trimStart text with
      | nil => exact .inr (.inl (.blank hblank hrest))
      | cons d more =>
        by_cases hcomment : d = '#'
        · exact .inr (.inl (.comment hblank (hcomment ▸ hrest)))
        · refine .inr (.inr ⟨_, .content hblank (by simp [hrest]) fun other hother => ?_⟩)
          rw [hrest] at hother
          exact hcomment (List.cons.inj hother).1
    · have hbare : isBare c = true := by simp [isBare, hblank, hsingle, hdouble, hescape]
      exact .inl (.of_segment (.bare hbare) text)

/-- The segments of a text can be followed until none fits. -/
theorem exists_segments (text : List Char) :
    ∃ front value rest, text = front ++ rest ∧ Segments front value ∧ ¬Starts rest := by
  induction hlength : text.length using Nat.strongRecOn generalizing text with
  | ind length ih =>
    by_cases hstarts : Starts text
    · obtain ⟨first, part, more, hfirst, rfl⟩ := hstarts
      obtain ⟨c, tail, rfl, -⟩ := hfirst.eq_cons
      have hshorter : more.length < length := by
        rw [← hlength, List.length_append, List.length_cons]
        omega
      obtain ⟨front, value, rest, rfl, hfront, hrest⟩ := ih more.length hshorter more rfl
      exact ⟨_, _, rest, (List.append_assoc _ _ _).symm, .cons hfirst hfront, hrest⟩
    · exact ⟨[], [], text, rfl, .nil, hstarts⟩

theorem Segments.unique (h : Segments text value) (h' : Segments text' value')
    (hrest : ¬Starts rest) (hrest' : ¬Starts rest') (heq : text ++ rest = text' ++ rest') :
    text = text' ∧ value = value' ∧ rest = rest' := by
  induction h generalizing text' value' with
  | nil =>
    cases h' with
    | nil => exact ⟨rfl, rfl, heq⟩
    | @cons first part text value hfirst hmore =>
      rw [List.nil_append, List.append_assoc] at heq
      exact absurd (heq ▸ Starts.of_segment hfirst (text ++ rest')) hrest
  | @cons first part text value hfirst hmore ih =>
    cases h' with
    | nil =>
      rw [List.nil_append, List.append_assoc] at heq
      exact absurd (heq ▸ Starts.of_segment hfirst (text ++ rest)) hrest'
    | cons hfirst' hmore' =>
      rw [List.append_assoc, List.append_assoc] at heq
      obtain ⟨rfl, rfl, heq⟩ := hfirst.unique hfirst' heq
      obtain ⟨rfl, rfl, rfl⟩ := ih hmore' heq
      exact ⟨rfl, rfl, rfl⟩

end Places

section Outcomes

variable {text value : List Char} {fault : ValueFault}

theorem readValue_eq_ok_iff :
    readValue .bare text = .ok value ↔
      ∃ front rest, text = front ++ rest ∧ Segments front value ∧ Ends rest := by
  constructor
  · intro hread
    obtain ⟨front, value', rest, rfl, hfront, hrest⟩ := exists_segments text
    rw [readValue_segments hfront] at hread
    rcases starts_or_ends_or_stops rest with hstarts | hends | ⟨fault, hstops⟩
    · exact absurd hstarts hrest
    · rw [readValue_ends hends, Except.map, List.append_nil] at hread
      exact ⟨front, rest, rfl, Except.ok.inj hread ▸ hfront, hends⟩
    · rw [readValue_stops hstops] at hread
      cases hread
  · rintro ⟨front, rest, rfl, hfront, hends⟩
    rw [readValue_segments hfront, readValue_ends hends, Except.map, List.append_nil]

theorem readValue_eq_error_iff :
    readValue .bare text = .error fault ↔
      ∃ front value rest, text = front ++ rest ∧ Segments front value ∧ ¬Starts rest ∧
        Stops rest fault := by
  constructor
  · intro hread
    obtain ⟨front, value, rest, rfl, hfront, hrest⟩ := exists_segments text
    rw [readValue_segments hfront] at hread
    rcases starts_or_ends_or_stops rest with hstarts | hends | ⟨fault', hstops⟩
    · exact absurd hstarts hrest
    · rw [readValue_ends hends] at hread
      cases hread
    · rw [readValue_stops hstops] at hread
      exact ⟨front, value, rest, rfl, hfront, hrest, Except.error.inj hread ▸ hstops⟩
  · rintro ⟨front, value, rest, rfl, hfront, -, hstops⟩
    rw [readValue_segments hfront, readValue_stops hstops]
    rfl

/-- A text is read as a value just when it is segments that a value may end behind, and the value is
what the segments mean; a hash sign behind them belongs to the value. Otherwise the fault is that of
the one place to which segments lead and where none fits. -/
theorem readValue_iff_segments (text : List Char) :
    (∀ value, readValue .bare text = .ok value ↔
      ∃ front rest, text = front ++ rest ∧ Segments front value ∧ Ends rest) ∧
    (∀ fault, readValue .bare text = .error fault ↔
      ∃ front value rest, text = front ++ rest ∧ Segments front value ∧ ¬Starts rest ∧
        Stops rest fault) ∧
    (∃! place : List Char × List Char, text = place.1 ++ place.2 ∧
      (∃ value, Segments place.1 value) ∧ ¬Starts place.2) ∧
    ∀ front value rest, text = front ++ '#' :: rest → Segments front value →
      readValue .bare text = (readValue .bare rest).map (value ++ '#' :: ·) := by
  refine ⟨fun _ => readValue_eq_ok_iff, fun _ => readValue_eq_error_iff, ?_, ?_⟩
  · obtain ⟨front, value, rest, rfl, hfront, hrest⟩ := exists_segments text
    refine ⟨(front, rest), ⟨rfl, ⟨value, hfront⟩, hrest⟩, ?_⟩
    rintro ⟨front', rest'⟩ ⟨heq, ⟨value', hfront'⟩, hrest'⟩
    obtain ⟨rfl, -, rfl⟩ := hfront.unique hfront' hrest hrest' heq
    rfl
  · rintro front value rest rfl hfront
    rw [readValue_segments hfront, readValue_of_isBare (by decide)]
    cases readValue .bare rest <;> rfl

theorem readValue_iff_segments_sample :
    readValue .bare ['#', '\'', ' ', '\'', '"', '\\', '$', '\\', 'n', '"', '\\', '\'', ' ', '#'] =
        .ok ['#', ' ', '$', '\\', 'n', '\''] ∧
      readValue .bare ['a', '#', ' ', 'b'] = .error (.unexpected ['b']) := by
  have hplain : '\'' ∉ [' '] := by decide
  have hblank : Segment ['\'', ' ', '\''] [' '] := .single hplain
  have hpairs : Segment ['"', '\\', '$', '\\', 'n', '"'] ['$', '\\', 'n'] :=
    .double (.pair '$' (.pair 'n' .nil))
  have hfront := Segments.cons (.bare (c := '#') rfl) (.cons hblank (.cons hpairs
    (.cons (.escaped '\'') .nil)))
  have hok := ((readValue_iff_segments _).1 _).mpr
    ⟨_, [' ', '#'], rfl, hfront, .comment (by decide) rfl⟩
  have hstops : Stops [' ', 'b'] (.unexpected ['b']) := .content (by decide) nofun nofun
  have hhash := (readValue_iff_segments ['a', '#', ' ', 'b']).2.2.2 ['a'] ['a'] [' ', 'b'] rfl
    (.cons (.bare rfl) .nil)
  rw [readValue_stops hstops] at hhash
  exact ⟨hok, hhash⟩

end Outcomes

end WasmBuild.Flags
