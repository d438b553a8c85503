import WasmBuild.Proofs.Rendering

/-! The ways to write a value in a flags file. A value may be cut into pieces, and each piece be
written between apostrophes, between double quotes, with backslashes, or as it stands. It is read
back however that is done, unless the line then ends in a blank, which is taken away before the
backslash in front of it is seen. -/

namespace WasmBuild

namespace Text

variable {c : Char}

theorem trim_concat_blank (hc : isBlank c = true) (cs : List Char) :
    trim (cs ++ [c]) = trim cs := by
  have hnil : trimStart [c] = [] := by simp [trimStart, hc]
  rw [trim, trim, trimStart, List.dropWhile_append, ← trimStart, ← trimStart]
  split
  · next hempty => rw [hnil, List.isEmpty_iff.mp hempty]
  · rw [trimEnd, trimEnd, List.reverse_append, List.reverse_singleton, List.singleton_append,
      List.dropWhile_cons_of_pos hc]

end Text

namespace Flags

/-- A character that means itself outside of quotes. -/
def isBare (c : Char) : Bool := !Text.isBlank c && c != '\'' && c != '"' && c != '\\'

/-- A piece of a value, in a style in which it can be written. -/
inductive Piece where
  | single (text : List Char) (h : '\'' ∉ text)
  | double (text : List Char)
  | escaped (text : List Char)
  | bare (text : List Char) (h : ∀ c ∈ text, isBare c = true)

namespace Piece

def text : Piece → List Char
  | single text _ | double text | escaped text | bare text _ => text

/-- Between double quotes, a backslash stands before the characters that it can escape there. -/
def escape (c : Char) : List Char := if isEscapable c then ['\\', c] else [c]

def written : Piece → List Char
  | single text _ => '\'' :: (text ++ ['\''])
  | double text => '"' :: (text.flatMap escape ++ ['"'])
  | escaped text => text.flatMap fun c => ['\\', c]
  | bare text _ => text

end Piece

def valueOf (pieces : List Piece) : List Char := pieces.flatMap Piece.text

def writingOf (pieces : List Piece) : List Char := pieces.flatMap Piece.written

section Values

variable {c : Char} {cs : List Char}

theorem map_append_nil (x : Except ValueFault (List Char)) : x.map ([] ++ ·) = x := by
  cases x <;> rfl

theorem map_cons_map (x : Except ValueFault (List Char)) (c : Char) (cs : List Char) :
    (x.map (cs ++ ·)).map (c :: ·) = x.map (c :: cs ++ ·) := by
  cases x <;> rfl

theorem readValue_of_isBare (hc : isBare c = true) (rest : List Char) :
    readValue .bare (c :: rest) = (readValue .bare rest).map (c :: ·) := by
  simp only [isBare, Bool.and_eq_true, Bool.not_eq_true', bne_iff_ne] at hc
  obtain ⟨⟨⟨hblank, hsingle⟩, hdouble⟩, hescape⟩ := hc
  rw [readValue.eq_def]
  split <;> simp_all

theorem readValue_bare (h : ∀ c ∈ cs, isBare c = true) (rest : List Char) :
    readValue .bare (cs ++ rest) = (readValue .bare rest).map (cs ++ ·) := by
  induction cs with
  | nil => exact (map_append_nil _).symm
  | cons c cs ih =>
    rw [List.cons_append, readValue_of_isBare (h c List.mem_cons_self),
      ih fun d hd => h d (List.mem_cons_of_mem c hd), map_cons_map]

theorem readValue_backslash (c : Char) (rest : List Char) :
    readValue .bare ('\\' :: c :: rest) = (readValue .bare rest).map (c :: ·) := rfl

theorem readValue_escapes (cs rest : List Char) :
    readValue .bare (cs.flatMap (fun c => ['\\', c]) ++ rest) =
      (readValue .bare rest).map (cs ++ ·) := by
  induction cs with
  | nil => exact (map_append_nil _).symm
  | cons c cs ih =>
    rw [List.flatMap_cons, List.append_assoc, List.cons_append, List.singleton_append,
      readValue_backslash, ih, map_cons_map]

theorem readValue_single (h : '\'' ∉ cs) (rest : List Char) :
    readValue .single (cs ++ '\'' :: rest) = (readValue .bare rest).map (cs ++ ·) := by
  induction cs with
  | nil =>
    rw [List.nil_append, map_append_nil]
    rfl
  | cons c cs ih =>
    have hc : c ≠ '\'' := fun e => h (e ▸ List.mem_cons_self)
    rw [List.cons_append, readValue_single_cons hc, ih fun hm => h (List.mem_cons_of_mem c hm),
      map_cons_map]

theorem readValue_double_backslash (c : Char) (rest : List Char) :
    readValue .double ('\\' :: c :: rest) = (readValue .double rest).map fun value =>
      if isEscapable c then c :: value else '\\' :: c :: value := rfl

theorem readValue_double_cons {c : Char} (hquote : c ≠ '"') (hescape : c ≠ '\\')
    (rest : List Char) : readValue .double (c :: rest) = (readValue .double rest).map (c :: ·) := by
  rw [readValue.eq_def]
  split <;> simp_all

theorem readValue_double_escape (c : Char) (rest : List Char) :
    readValue .double (Piece.escape c ++ rest) = (readValue .double rest).map (c :: ·) := by
  unfold Piece.escape
  split
  · next hc =>
    rw [List.cons_append, List.singleton_append, readValue_double_backslash]
    simp only [hc, if_true]
  · next hc =>
    have hquote : c ≠ '"' := fun e => hc (e ▸ rfl)
    have hescape : c ≠ '\\' := fun e => hc (e ▸ rfl)
    rw [List.singleton_append, readValue_double_cons hquote hescape]

theorem readValue_double (cs rest : List Char) :
    readValue .double (cs.flatMap Piece.escape ++ '"' :: rest) =
      (readValue .bare rest).map (cs ++ ·) := by
  induction cs with
  | nil =>
    rw [List.flatMap_nil, List.nil_append, map_append_nil]
    rfl
  | cons c cs ih =>
    rw [List.flatMap_cons, List.append_assoc, readValue_double_escape, ih, map_cons_map]

/-- A piece is taken off a text in whatever style it is written. -/
theorem readValue_piece (p : Piece) (rest : List Char) :
    readValue .bare (p.written ++ rest) = (readValue .bare rest).map (p.text ++ ·) := by
  cases p with
  | single text h =>
    rw [Piece.written, List.cons_append, List.append_assoc, List.singleton_append]
    exact readValue_single h rest
  | double text =>
    rw [Piece.written, List.cons_append, List.append_assoc, List.singleton_append]
    exact readValue_double text rest
  | escaped text => exact readValue_escapes text rest
  | bare text h => exact readValue_bare h rest

theorem readValue_pieces (pieces : List Piece) (rest : List Char) :
    readValue .bare (writingOf pieces ++ rest) =
      (readValue .bare rest).map (valueOf pieces ++ ·) := by
  induction pieces with
  | nil => exact (map_append_nil _).symm
  | cons p pieces ih =>
    rw [writingOf, valueOf, List.flatMap_cons, List.flatMap_cons, List.append_assoc,
      readValue_piece, ← writingOf, ← valueOf, ih]
    cases readValue .bare rest with
    | error fault => rfl
    | ok value => simp [Except.map]

theorem readValue_writing (pieces : List Piece) :
    readValue .bare (writingOf pieces) = .ok (valueOf pieces) := by
  have hread := readValue_pieces pieces []
  have hnil : readValue .bare [] = .ok [] := rfl
  rw [List.append_nil, hnil] at hread
  rw [hread, Except.map, List.append_nil]

theorem readValue_cut_off (pieces : List Piece) :
    readValue .bare (writingOf pieces ++ ['\\']) = .error .endingBackslash := by
  rw [readValue_pieces]
  rfl

end Values

section Ends

variable {c : Char} {pieces : List Piece}

/-- Only a backslash lets a piece end in a blank. -/
theorem Piece.written_end {p : Piece} (hlast : p.written.getLast? = some c)
    (hc : Text.isBlank c = true) :
    ∃ text, p.written = writingOf [.escaped text] ++ ['\\', c] := by
  cases p with
  | single text h =>
    rw [written, ← List.cons_append, List.getLast?_concat] at hlast
    cases hlast
    exact absurd hc (by decide)
  | double text =>
    rw [written, ← List.cons_append, List.getLast?_concat] at hlast
    cases hlast
    exact absurd hc (by decide)
  | escaped text =>
    rcases List.eq_nil_or_concat text with rfl | ⟨front, d, htext⟩
    · cases hlast
    · rw [List.concat_eq_append] at htext
      subst htext
      have hsplit : (escaped (front ++ [d])).written = writingOf [.escaped front] ++ ['\\', d] := by
        simp [written, writingOf]
      rw [hsplit, List.getLast?_append_of_ne_nil _ (by simp)] at hlast
      cases hlast
      exact ⟨front, hsplit⟩
  | bare text h =>
    have hbare := h c (List.mem_of_getLast? hlast)
    simp [isBare, hc] at hbare

theorem writingOf_end (hlast : (writingOf pieces).getLast? = some c) (hc : Text.isBlank c = true) :
    ∃ front : List Piece, writingOf pieces = writingOf front ++ ['\\', c] := by
  induction pieces with
  | nil => cases hlast
  | cons p pieces ih =>
    have hcons : writingOf (p :: pieces) = p.written ++ writingOf pieces := List.flatMap_cons
    by_cases hrest : writingOf pieces = []
    · rw [hcons, hrest, List.append_nil] at hlast ⊢
      obtain ⟨text, htext⟩ := Piece.written_end hlast hc
      exact ⟨_, htext⟩
    · rw [hcons, List.getLast?_append_of_ne_nil _ hrest] at hlast
      obtain ⟨front, hfront⟩ := ih hlast
      refine ⟨p :: front, ?_⟩
      rw [hcons, hfront, ← List.append_assoc]
      rfl

theorem newline_not_mem_writing (h : '\n' ∉ valueOf pieces) : '\n' ∉ writingOf pieces := by
  intro hmem
  obtain ⟨p, hp, hin⟩ := List.mem_flatMap.mp hmem
  have hpiece : '\n' ∉ p.text := fun htext => h (List.mem_flatMap_of_mem hp htext)
  cases p with
  | single text hquote => simp_all [Piece.written, Piece.text]
  | double text =>
    simp only [Piece.written, Piece.text, Piece.escape, List.mem_cons, List.mem_append,
      List.mem_flatMap] at hin hpiece
    rcases hin with hin | ⟨d, hd, hin⟩ | hin
    · cases hin
    · have hne : '\n' ≠ d := fun e => hpiece (e ▸ hd)
      split at hin <;> simp_all
    · simp at hin
  | escaped text => simp_all [Piece.written, Piece.text]
  | bare text hbare => exact hpiece hin

end Ends

section Lines

variable {key text : List Char}

/-- The line of a key and a text is taken as it stands, if no blank comes last in it. -/
theorem readLine_of_key {last : Char} (hkey : isIdentifier key = true)
    (hend : ('=' :: text).getLast? = some last) (hlast : Text.isBlank last = false) :
    readLine (key ++ '=' :: text) = (readAssignment (key ++ '=' :: text)).map some := by
  cases key with
  | nil => cases hkey
  | cons c cs =>
    have hc : Shell.isPlain c = true := isPlain_of_isIdentifier hkey c List.mem_cons_self
    have hcomment : c ≠ '#' := Shell.ne_of_isPlain hc (by decide)
    have hsuffix : [last] <:+ c :: (cs ++ '=' :: text) := by
      obtain ⟨front, hfront⟩ := List.getLast?_eq_some_iff.mp hend
      exact ⟨c :: (cs ++ front), by rw [hfront, List.cons_append, List.append_assoc]⟩
    have htrim : Text.trim (c :: (cs ++ '=' :: text)) = c :: (cs ++ '=' :: text) :=
      Text.trim_of_ends (Shell.not_isBlank_of_isPlain hc) hlast hsuffix
    have hexport := @dropExport_of_key (c :: cs) text hkey
    rw [List.cons_append] at hexport ⊢
    rw [readLine, htrim]
    split
    · next hnil => cases hnil
    · next heq => exact absurd (List.cons.inj heq).1 hcomment
    · rw [hexport]

theorem readLine_concat_blank {c : Char} (hc : Text.isBlank c = true) (line : List Char) :
    readLine (line ++ [c]) = readLine line := by
  rw [readLine, Text.trim_concat_blank hc, ← readLine]

theorem parse_line {text : String} (h : '\n' ∉ text.toList) :
    parse text =
      match readLine text.toList with
      | .error fault => .error ⟨1, fault⟩
      | .ok found => .ok found.toList := by
  rw [parse, List.splitOn_eq_singleton h, readLines]
  rcases readLine text.toList with fault | (_ | new) <;> rfl

end Lines

/-- Whether the last character of a text is a blank. -/
def endsBlank (cs : List Char) : Bool := cs.getLast?.any Text.isBlank

section Files

variable {key : List Char}

theorem readLine_closed {pieces : List Piece} (hkey : isIdentifier key = true)
    (hend : endsBlank (writingOf pieces) = false) :
    readLine (key ++ '=' :: writingOf pieces) =
      .ok (some (String.ofList key, String.ofList (valueOf pieces))) := by
  have hlast : ∃ last, ('=' :: writingOf pieces).getLast? = some last ∧
      Text.isBlank last = false := by
    cases h : (writingOf pieces).getLast? with
    | none => exact ⟨'=', by rw [List.getLast?_cons, h]; rfl, by decide⟩
    | some last =>
      rw [endsBlank, h] at hend
      exact ⟨last, by rw [List.getLast?_cons, h]; rfl, hend⟩
  obtain ⟨last, hlast, hblank⟩ := hlast
  rw [readLine_of_key hkey hlast hblank, readAssignment_of_key hkey, readValue_writing]
  rfl

/-- The blank is gone before the value is read, and its backslash is left at the end. -/
theorem readLine_cut_off {pieces : List Piece} (hkey : isIdentifier key = true)
    (hend : endsBlank (writingOf pieces) = true) :
    readLine (key ++ '=' :: writingOf pieces) = .error (.badValue .endingBackslash) := by
  obtain ⟨c, hlast, hc⟩ := (Option.any_eq_true _ _).mp hend
  obtain ⟨front, hfront⟩ := writingOf_end hlast hc
  have hcut : key ++ '=' :: writingOf pieces =
      (key ++ '=' :: (writingOf front ++ ['\\'])) ++ [c] := by
    rw [hfront]
    simp
  have hbackslash : ('=' :: (writingOf front ++ ['\\'])).getLast? = some '\\' := by
    rw [← List.cons_append, List.getLast?_concat]
  rw [hcut, readLine_concat_blank hc, readLine_of_key hkey hbackslash (by decide),
    readAssignment_of_key hkey, readValue_cut_off]
  rfl

end Files

/-- However the pieces of a value are written, the value is read back, unless a blank ends the
line: then the backslash before it is taken for one at the end of the line. -/
theorem parse_pieces (key : String) (pieces : List Piece)
    (hkey : isIdentifier key.toList = true) (hvalue : '\n' ∉ valueOf pieces) :
    parse (key ++ "=" ++ String.ofList (writingOf pieces)) =
      if endsBlank (writingOf pieces) then .error ⟨1, .badValue .endingBackslash⟩
      else .ok [(key, String.ofList (valueOf pieces))] := by
  have htext : (key ++ "=" ++ String.ofList (writingOf pieces)).toList =
      key.toList ++ '=' :: writingOf pieces := by
    simp
  have hfeed : '\n' ∉ key.toList ++ '=' :: writingOf pieces := by
    rw [List.mem_append, List.mem_cons, not_or, not_or]
    exact ⟨not_mem_of_isIdentifier hkey (by decide), by decide, newline_not_mem_writing hvalue⟩
  rw [← htext] at hfeed
  rw [parse_line hfeed, htext]
  by_cases hend : endsBlank (writingOf pieces) = true
  · rw [if_pos hend, readLine_cut_off hkey hend]
  · rw [if_neg hend, readLine_closed hkey (by simpa using hend), String.ofList_toList]
    rfl

def samplePieces : List Piece :=
  [.bare ['a'] (List.forall_mem_singleton.mpr rfl), .single [' ', '"'] (by decide),
    .double ['$', '\''], .escaped [' ', '\'']]

theorem parse_pieces_sample :
    parse "K=\\ " = .error ⟨1, .badValue .endingBackslash⟩ ∧
      parse "K=a' \"'\"\\$'\"\\ \\'" = .ok [("K", "a \"$' '")] := by
  have hblank := parse_pieces "K" [.escaped [' ']] (by decide) (by decide)
  have htext : "K" ++ "=" ++ String.ofList (writingOf [.escaped [' ']]) = "K=\\ " := by decide
  have hmixed := parse_pieces "K" samplePieces (by decide) (by decide)
  have htext' : "K" ++ "=" ++ String.ofList (writingOf samplePieces) =
      "K=a' \"'\"\\$'\"\\ \\'" := by decide
  have hvalue : String.ofList (valueOf samplePieces) = "a \"$' '" := by decide
  rw [htext, if_pos (by decide)] at hblank
  rw [htext', if_neg (by decide), hvalue] at hmixed
  exact ⟨hblank, hmixed⟩

end Flags

end WasmBuild
