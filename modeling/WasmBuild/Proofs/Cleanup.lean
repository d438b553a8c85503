import WasmBuild.Proofs.Pieces

/-! What the lexical clean-up does to the components of a path. Two paths that are joined are
cleaned up one after the other, and a relative path is some steps up, followed by names. -/

namespace WasmBuild.Path

/-- The components of a path without a lone `.` in it. -/
def names (p : Path) : List Piece := p.pieces.filter fun piece => !isIdle piece

section Tidy

variable {absolute : Bool} {kept ps : List Piece}

theorem tidy_append (absolute : Bool) (kept ps qs : List Piece) :
    tidy absolute kept (ps ++ qs) = tidy absolute (tidy absolute kept ps) qs := by
  induction ps generalizing kept with
  | nil => rfl
  | cons piece rest ih =>
    rw [List.cons_append, tidy.eq_def, tidy.eq_def _ _ (piece :: rest)]
    dsimp only
    split
    · exact ih kept
    split
    · cases kept with
      | nil => exact ih _
      | cons top below =>
        dsimp only
        split
        · exact ih _
        · exact ih _
    · exact ih _

theorem tidy_filter (absolute : Bool) (kept ps : List Piece) :
    tidy absolute kept (ps.filter fun piece => !isIdle piece) = tidy absolute kept ps := by
  induction ps generalizing kept with
  | nil => rfl
  | cons piece rest ih =>
    cases hidle : isIdle piece with
    | true =>
      rw [List.filter_cons_of_neg (by simp [hidle]), tidy.eq_def _ _ (piece :: rest), ih]
      simp only [hidle, if_true]
    | false =>
      rw [List.filter_cons_of_pos (by simp [hidle]), tidy.eq_def, tidy.eq_def _ _ (piece :: rest)]
      simp only [hidle, ih]

theorem tidy_names (h : ∀ piece ∈ ps, IsName piece) :
    tidy absolute kept ps = ps.reverse ++ kept := by
  induction ps generalizing kept with
  | nil => rfl
  | cons piece rest ih =>
    have hpiece := h piece List.mem_cons_self
    have hup : (piece == up) = false := beq_eq_false_iff_ne.mpr hpiece.up
    have hrest := @ih (piece :: kept) fun _ hm => h _ (List.mem_cons_of_mem piece hm)
    rw [tidy.eq_def]
    simp only [hpiece.idle, hup, Bool.false_eq_true, if_false, hrest]
    simp

/-- Nothing but what was kept before and what is no idle piece is left of a clean-up. -/
theorem mem_tidy {piece : Piece} (h : piece ∈ tidy absolute kept ps) :
    piece ∈ kept ∨ piece ∈ ps ∧ isIdle piece = false := by
  induction ps generalizing kept with
  | nil => exact .inl h
  | cons first rest ih =>
    have hlater (h : piece ∈ rest ∧ isIdle piece = false) :
        piece ∈ first :: rest ∧ isIdle piece = false := ⟨List.mem_cons_of_mem first h.1, h.2⟩
    have hfirst (hidle : isIdle first = false) (hm : piece ∈ first :: kept) :
        piece ∈ kept ∨ piece ∈ first :: rest ∧ isIdle piece = false := by
      rcases List.mem_cons.mp hm with rfl | hm
      · exact .inr ⟨List.mem_cons_self, hidle⟩
      · exact .inl hm
    rw [tidy.eq_def] at h
    dsimp only at h
    split at h
    · exact (ih h).imp_right hlater
    next hidle =>
    replace hidle : isIdle first = false := by simpa using hidle
    split at h
    · next hup =>
      have hup : first = up := beq_iff_eq.mp hup
      cases kept with
      | nil =>
        cases absolute with
        | true => exact (ih h).imp_right hlater
        | false =>
          rcases ih h with hm | hm
          · exact hfirst hidle (hup ▸ hm)
          · exact .inr (hlater hm)
      | cons top below =>
        dsimp only at h
        split at h
        · rcases ih h with hm | hm
          · exact hfirst hidle (hup ▸ hm)
          · exact .inr (hlater hm)
        · rcases ih h with hm | hm
          · exact .inl (List.mem_cons_of_mem top hm)
          · exact .inr (hlater hm)
    · rcases ih h with hm | hm
      · exact hfirst hidle hm
      · exact .inr (hlater hm)

end Tidy

section Names

variable {base rel p : Path}

/-- The piece before the root counts for nothing. -/
theorem names_eq (p : Path) :
    p.names = (p.chars.splitOn '/').filter fun piece => !isIdle piece := by
  rw [names, pieces]
  cases habs : p.isAbsolute with
  | false => rfl
  | true =>
    obtain ⟨rest, hrest⟩ := isAbsolute_iff.mp habs
    rw [hrest, List.splitOn_cons_eq_if_modifyHead, if_pos BEq.rfl,
      List.filter_cons_of_neg (by decide)]
    rfl

/-- What is read off the pieces of a joined path, when an empty piece gives nothing, is what the
two paths give one after the other. -/
theorem filterMap_splitOn_join {β : Type} {read : Piece → Option β} (hempty : read [] = none)
    (h : rel.isAbsolute = false) :
    ((base.join rel).chars.splitOn '/').filterMap read =
      (base.chars.splitOn '/').filterMap read ++ (rel.chars.splitOn '/').filterMap read := by
  rw [join, h, if_neg (by decide)]
  cases hlast : base.chars.getLast? with
  | none =>
    rw [List.getLast?_eq_none_iff.mp hlast, if_pos (by rfl), chars_ofChars, List.splitOn_nil,
      List.filterMap_cons_none hempty]
    rfl
  | some c =>
    by_cases hslash : c = '/'
    · obtain ⟨init, hinit⟩ := List.getLast?_eq_some_iff.mp hlast
      have hcut := @List.splitOn_append_cons_self Char _ _ '/' init []
      rw [if_pos (by simp [hslash]), chars_ofChars, hinit, hslash, List.append_assoc,
        List.singleton_append, List.splitOn_append_cons_self, hcut, List.splitOn_nil,
        List.filterMap_append, List.filterMap_append, List.filterMap_cons_none hempty,
        List.filterMap_nil, List.append_nil]
    · rw [if_neg (by simpa using hslash), chars_ofChars, List.splitOn_append_cons_self,
        List.filterMap_append]

theorem names_join (h : rel.isAbsolute = false) :
    (base.join rel).names = base.names ++ rel.names := by
  simp only [names_eq, ← List.filterMap_eq_filter]
  exact filterMap_splitOn_join (by decide) h

theorem isAbsolute_join_of_relative (h : rel.isAbsolute = false) :
    (base.join rel).isAbsolute = base.isAbsolute := by
  cases hbase : base.isAbsolute with
  | true => exact isAbsolute_join hbase
  | false =>
    have hhead : base.chars.head? ≠ some '/' := by simpa [isAbsolute] using hbase
    rw [join, h, if_neg (by decide)]
    cases hchars : base.chars with
    | nil =>
      rw [if_pos (by rfl), List.nil_append, ofChars_chars]
      exact h
    | cons c rest =>
      rw [hchars, List.head?_cons] at hhead
      split <;> simpa [isAbsolute, chars_ofChars] using hhead

theorem written_tidy (p : Path) : Written p.isAbsolute (tidy p.isAbsolute [] p.pieces).reverse := by
  have hpiece {piece : Piece} (h : piece ∈ (tidy p.isAbsolute [] p.pieces).reverse) :
      piece ∈ p.pieces ∧ isIdle piece = false :=
    (mem_tidy (List.mem_reverse.mp h)).resolve_left List.not_mem_nil
  refine ⟨fun piece hm => slash_not_mem_of_mem_pieces (hpiece hm).1, fun _ hhead => ?_⟩
  have hidle := (hpiece (List.mem_of_mem_head? hhead)).2
  exact absurd hidle (by decide)

theorem names_ofPieces {absolute : Bool} {ps : List Piece} (h : Written absolute ps)
    (hidle : ∀ piece ∈ ps, isIdle piece = false) : (ofPieces absolute ps).names = ps := by
  by_cases hne : ps = []
  · subst hne
    cases absolute <;> decide
  · rw [names, pieces_ofPieces h hne]
    exact List.filter_eq_self.mpr fun piece hm => by simp [hidle piece hm]

theorem names_normalize (p : Path) :
    p.normalize.names = (tidy p.isAbsolute [] p.names).reverse := by
  rw [normalize, names_ofPieces (written_tidy p), names, tidy_filter]
  intro piece hm
  exact ((mem_tidy (List.mem_reverse.mp hm)).resolve_left List.not_mem_nil).2

theorem names_clean {ps : List Piece} (h : ∀ piece ∈ ps, IsName piece) :
    (ofPieces true ps).names = ps :=
  names_ofPieces (written_of_names h) fun piece hm => (h piece hm).idle

theorem Clean.isName (h : p.Clean) : ∀ piece ∈ p.names, IsName piece := by
  obtain ⟨ps, rfl, hps⟩ := h
  rwa [names_clean hps]

theorem Clean.names_normalize (h : p.Clean) : p.normalize.names = p.names := by
  rw [Path.names_normalize, tidy_names h.isName, List.append_nil, List.reverse_reverse]

theorem Clean.normalize_eq (h : p.Clean) : p.normalize = p := by
  have hnames := h.names_normalize
  obtain ⟨qs, hq, hqs⟩ := clean_normalize h.isAbsolute
  obtain ⟨ps, rfl, hps⟩ := h
  rw [hq, names_clean hqs, names_clean hps] at hnames
  rw [hq, hnames]

end Names

/-- Steps up that lead nowhere at the root and stay in a relative path. -/
def above (absolute : Bool) (ups : Nat) : List Piece :=
  if absolute then [] else List.replicate ups up

section Relative

variable {ps : List Piece}

theorem tidy_above (absolute : Bool) (ups : Nat) (rest : List Piece) :
    tidy absolute (above absolute ups) (up :: rest) =
      tidy absolute (above absolute (ups + 1)) rest := by
  cases absolute with
  | true => rfl
  | false =>
    cases ups with
    | zero => rfl
    | succ ups => rfl

/-- Cleaning up goes on alike after names and steps up, whichever directories the steps up have
taken away. -/
theorem tidy_relative_from (down : List Piece) (ups : Nat) (hdown : ∀ piece ∈ down, piece ≠ up) :
    ∃ down' ups', (∀ piece ∈ down', piece ≠ up) ∧
      ∀ (absolute : Bool) (kept : List Piece), (∀ piece ∈ kept, piece ≠ up) →
        tidy absolute (down ++ kept.drop ups ++ above absolute (ups - kept.length)) ps =
          down' ++ kept.drop ups' ++ above absolute (ups' - kept.length) := by
  induction ps generalizing down ups with
  | nil => exact ⟨down, ups, hdown, fun _ _ _ => rfl⟩
  | cons piece rest ih =>
    cases hidle : isIdle piece with
    | true =>
      simp only [tidy.eq_def _ _ (piece :: rest), hidle, if_true]
      exact ih down ups hdown
    | false =>
      by_cases hup : piece = up
      · subst hup
        cases down with
        | nil =>
          -- nothing is left to go back over, so the path leaves one more directory
          obtain ⟨down', ups', hdown', htidy⟩ := ih [] (ups + 1) nofun
          refine ⟨down', ups', hdown', fun absolute kept hkept => ?_⟩
          rw [← htidy absolute kept hkept, List.nil_append, List.nil_append, ← List.tail_drop]
          cases hdrop : kept.drop ups with
          | nil =>
            have hlength : kept.length ≤ ups := List.drop_eq_nil_iff.mp hdrop
            rw [List.tail_nil, List.nil_append, List.nil_append, tidy_above,
              Nat.succ_sub hlength]
          | cons top below =>
            have htop : top ≠ up := hkept top (List.mem_of_mem_drop (hdrop ▸ List.mem_cons_self))
            have hlength : ups < kept.length := by
              rw [← Nat.not_le, ← List.drop_eq_nil_iff, hdrop]
              exact List.cons_ne_nil top below
            rw [Nat.sub_eq_zero_of_le hlength, Nat.sub_eq_zero_of_le (Nat.le_of_lt hlength),
              tidy.eq_def _ _ (up :: rest)]
            simp [hidle, htop]
        | cons top down =>
          have htop : (top == up) = false :=
            beq_eq_false_iff_ne.mpr (hdown top List.mem_cons_self)
          simpa [tidy.eq_def _ _ (up :: rest), hidle, htop] using
            ih down ups fun _ hm => hdown _ (List.mem_cons_of_mem top hm)
      · have hpiece : (piece == up) = false := beq_eq_false_iff_ne.mpr hup
        simpa [tidy.eq_def _ _ (piece :: rest), hidle, hpiece] using
          ih (piece :: down) ups (by simpa [hup] using hdown)

/-- A relative path goes up from where it starts, and then down along names. Taken from a
directory it leaves as many of the directories above. -/
theorem tidy_relative (ps : List Piece) :
    ∃ down ups, (∀ piece ∈ down, piece ≠ up) ∧
      ∀ (absolute : Bool) (kept : List Piece), (∀ piece ∈ kept, piece ≠ up) →
        tidy absolute kept ps = down ++ kept.drop ups ++ above absolute (ups - kept.length) := by
  obtain ⟨down, ups, hdown, htidy⟩ := @tidy_relative_from ps [] 0 nofun
  refine ⟨down, ups, hdown, fun absolute kept hkept => ?_⟩
  have hnone : above absolute (0 - kept.length) = [] := by cases absolute <;> simp [above]
  have h := htidy absolute kept hkept
  rwa [hnone, List.append_nil] at h

end Relative

end WasmBuild.Path
