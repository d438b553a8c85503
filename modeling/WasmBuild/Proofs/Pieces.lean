import WasmBuild.Path.Normal

/-! Path texts and the pieces between their slashes. A text is read back as the pieces that
it is put together from, and a clean text is an absolute one of which every piece is a
name. -/

namespace WasmBuild.Path

theorem not_mem_of_mem_splitOn {α : Type} [DecidableEq α] {a : α} {xs piece : List α}
    (h : piece ∈ xs.splitOn a) : a ∉ piece := by
  induction xs generalizing piece with
  | nil =>
    rw [List.splitOn_nil, List.mem_singleton] at h
    simp [h]
  | cons x xs ih =>
    rw [List.splitOn_cons_eq_if_modifyHead] at h
    split at h
    · rcases List.mem_cons.mp h with rfl | h
      · exact List.not_mem_nil
      · exact ih h
    next hx =>
    cases hs : xs.splitOn a with
    | nil => exact absurd hs (List.splitOn_ne_nil a xs)
    | cons first rest =>
      rw [hs, List.modifyHead_cons] at h
      rcases List.mem_cons.mp h with rfl | h
      · rintro (_ | ⟨_, hm⟩)
        · exact hx BEq.rfl
        · exact ih (hs ▸ List.mem_cons_self) hm
      · exact ih (hs ▸ List.mem_cons_of_mem first h)

theorem chars_ofChars (cs : List Char) : (ofChars cs).chars = cs := String.toList_ofList

theorem ofChars_chars (p : Path) : ofChars p.chars = p := by
  cases p
  exact congrArg Path.mk String.ofList_toList

theorem ext_chars {p q : Path} (h : p.chars = q.chars) : p = q := by
  rw [← ofChars_chars p, h, ofChars_chars]

theorem isAbsolute_iff {p : Path} : p.isAbsolute = true ↔ ∃ rest, p.chars = '/' :: rest := by
  rw [isAbsolute, beq_iff_eq]
  cases p.chars with
  | nil => simp
  | cons c rest => simp

theorem slash_not_mem_of_mem_pieces {p : Path} {piece : Piece} (h : piece ∈ p.pieces) :
    '/' ∉ piece := not_mem_of_mem_splitOn h

/-- The text of a relative path begins with a piece that is not empty, unless it is empty. -/
theorem head_pieces {p : Path} (hrel : p.isAbsolute = false) (h : p.pieces.head? = some []) :
    p.pieces = [[]] := by
  have hpieces : p.pieces = p.chars.splitOn '/' := by rw [pieces, hrel]; rfl
  rw [hpieces] at h ⊢
  cases hc : p.chars with
  | nil => exact List.splitOn_nil _
  | cons c rest =>
    have hne : c ≠ '/' := by
      rintro rfl
      rw [isAbsolute_iff.mpr ⟨rest, hc⟩] at hrel
      cases hrel
    rw [hc, List.splitOn_cons_eq_if_modifyHead, if_neg (by simpa using hne)] at h
    cases hs : rest.splitOn '/' with
    | nil => exact absurd hs (List.splitOn_ne_nil _ _)
    | cons first more =>
      rw [hs] at h
      cases h

structure Written (absolute : Bool) (ps : List Piece) : Prop where
  slash : ∀ piece ∈ ps, '/' ∉ piece
  head : absolute = false → ps.head? = some [] → ps = [[]]

theorem written_of_initial {p : Path} {ps : List Piece} (h : ps <+: p.pieces) :
    Written p.isAbsolute ps := by
  refine ⟨fun piece hm => slash_not_mem_of_mem_pieces (h.subset hm), fun hrel hhead => ?_⟩
  obtain ⟨rest, hrest⟩ := h
  have hall : p.pieces = [[]] := head_pieces hrel (by
    rw [← hrest, List.head?_append, hhead]
    rfl)
  rw [hall] at hrest
  cases ps with
  | nil => simp at hhead
  | cons first others =>
    obtain ⟨rfl, hnil⟩ := List.cons.inj hrest
    rw [(List.append_eq_nil_iff.mp hnil).1]

section Reading

variable {absolute : Bool} {ps : List Piece}

theorem chars_ofPieces (absolute : Bool) (ps : List Piece) :
    (ofPieces absolute ps).chars =
      (if absolute then ['/'] else []) ++ List.intercalate ['/'] ps := chars_ofChars _

theorem isAbsolute_ofPieces (h : Written absolute ps) :
    (ofPieces absolute ps).isAbsolute = absolute := by
  cases absolute with
  | true => exact isAbsolute_iff.mpr ⟨_, chars_ofPieces true ps⟩
  | false =>
    rw [isAbsolute, chars_ofPieces]
    cases ps with
    | nil => rfl
    | cons piece rest =>
      cases piece with
      | nil =>
        obtain rfl : rest = [] := by simpa using h.head rfl rfl
        rfl
      | cons c cs =>
        have hc : c ≠ '/' := fun e => h.slash (c :: cs) List.mem_cons_self (e ▸ List.mem_cons_self)
        cases rest <;> simp [List.intercalate_cons_cons, hc]

theorem pieces_ofPieces (h : Written absolute ps) (hne : ps ≠ []) :
    (ofPieces absolute ps).pieces = ps := by
  have hsplit : (List.intercalate ['/'] ps).splitOn '/' = ps :=
    List.splitOn_intercalate '/' h.slash hne
  rw [pieces, isAbsolute_ofPieces h, chars_ofPieces]
  cases absolute <;> simpa using hsplit

theorem ofPieces_pieces (p : Path) : ofPieces p.isAbsolute p.pieces = p := by
  refine ext_chars ?_
  rw [chars_ofPieces, pieces, List.intercalate_splitOn]
  cases habs : p.isAbsolute with
  | true =>
    obtain ⟨rest, hrest⟩ := isAbsolute_iff.mp habs
    simp [hrest]
  | false => rfl

end Reading

section Ancestors

variable {absolute : Bool}

theorem shed_suffix (absolute : Bool) (ps : List Piece) : shed absolute ps <:+ ps := by
  induction ps with
  | nil => exact List.suffix_refl _
  | cons piece outer ih =>
    rw [shed]
    split
    · exact List.suffix_refl _
    · exact ih.trans (List.suffix_cons piece outer)

theorem peel_shed (absolute : Bool) (ps : List Piece) :
    peel absolute (shed absolute ps) = peel absolute ps := by
  induction ps with
  | nil => rfl
  | cons piece outer ih =>
    rw [shed]
    split
    · rfl
    next h => rw [ih, peel, if_neg h]

theorem peel_eq_cons {ps nearest : List Piece} {more : List (List Piece)}
    (h : peel absolute ps = nearest :: more) :
    peel absolute nearest = more ∧ nearest <:+ ps := by
  induction ps with
  | nil => cases h
  | cons piece outer ih =>
    rw [peel] at h
    split at h
    · cases h
      exact ⟨peel_shed absolute outer,
        (shed_suffix absolute outer).trans (List.suffix_cons piece outer)⟩
    · exact ⟨(ih h).1, (ih h).2.trans (List.suffix_cons piece outer)⟩

theorem parents_ofPieces {ps : List Piece} (h : Written absolute ps.reverse) :
    (ofPieces absolute ps.reverse).parents =
      (peel absolute ps).map fun ps => ofPieces absolute ps.reverse := by
  rw [parents, isAbsolute_ofPieces h]
  by_cases hne : ps = []
  · subst hne
    cases absolute <;> decide
  · rw [pieces_ofPieces h (by simpa using hne), List.reverse_reverse]

theorem ancestors_of_parent {p dir : Path} (h : p.parent? = some dir) :
    dir.ancestors = p.parents := by
  rw [parent?, parents, List.head?_map] at h
  cases hpeel : peel p.isAbsolute p.pieces.reverse with
  | nil => simp [hpeel] at h
  | cons nearest more =>
    rw [hpeel] at h
    obtain ⟨hmore, hsuffix⟩ := peel_eq_cons hpeel
    have hinitial : nearest.reverse <+: p.pieces := by
      simpa using List.reverse_prefix.mpr hsuffix
    have hwritten := written_of_initial hinitial
    obtain rfl : ofPieces p.isAbsolute nearest.reverse = dir := by simpa using h
    rw [ancestors, parents_ofPieces hwritten, hmore, parents, hpeel, List.map_cons]

end Ancestors

/-- A piece that names an entry of a directory. -/
structure IsName (piece : Piece) : Prop where
  idle : isIdle piece = false
  up : piece ≠ up
  slash : '/' ∉ piece

instance (piece : Piece) : Decidable (IsName piece) :=
  decidable_of_iff (isIdle piece = false ∧ piece ≠ Path.up ∧ '/' ∉ piece)
    ⟨fun h => ⟨h.1, h.2.1, h.2.2⟩, fun h => ⟨h.idle, h.up, h.slash⟩⟩

/-- An absolute path of which every piece is a name. -/
def Clean (p : Path) : Prop := ∃ ps, p = ofPieces true ps ∧ ∀ piece ∈ ps, IsName piece

section Clean

variable {ps : List Piece}

theorem written_of_names (h : ∀ piece ∈ ps, IsName piece) : Written true ps :=
  ⟨fun piece hm => (h piece hm).slash, nofun⟩

theorem names_tidy {kept : List Piece} (hkept : ∀ piece ∈ kept, IsName piece)
    (hslash : ∀ piece ∈ ps, '/' ∉ piece) : ∀ piece ∈ tidy true kept ps, IsName piece := by
  induction ps generalizing kept with
  | nil => exact hkept
  | cons piece rest ih =>
    have hrest : ∀ piece ∈ rest, '/' ∉ piece := fun _ hm => hslash _ (List.mem_cons_of_mem _ hm)
    rw [tidy.eq_def]
    dsimp only
    split
    · exact ih hkept hrest
    next hidle =>
    split
    · cases kept with
      | nil => exact ih hkept hrest
      | cons top below =>
        have htop : (top == up) = false :=
          beq_eq_false_iff_ne.mpr (hkept top List.mem_cons_self).up
        simp only [htop]
        exact ih (fun _ hm => hkept _ (List.mem_cons_of_mem top hm)) hrest
    next hup =>
    refine ih (fun other hm => ?_) hrest
    rcases List.mem_cons.mp hm with rfl | hm
    · exact ⟨by simpa using hidle, by simpa using hup, hslash _ List.mem_cons_self⟩
    · exact hkept other hm

theorem clean_normalize {p : Path} (h : p.isAbsolute = true) : Clean p.normalize := by
  refine ⟨_, by rw [normalize, h], fun piece hm => ?_⟩
  exact names_tidy (fun _ hm => absurd hm List.not_mem_nil)
    (fun _ hm => slash_not_mem_of_mem_pieces hm) piece (List.mem_reverse.mp hm)

theorem isAbsolute_join {base rel : Path} (h : base.isAbsolute = true) :
    (base.join rel).isAbsolute = true := by
  obtain ⟨rest, hbase⟩ := isAbsolute_iff.mp h
  rw [join]
  split
  · assumption
  split
  · exact isAbsolute_iff.mpr ⟨rest ++ rel.chars, by rw [chars_ofChars, hbase]; rfl⟩
  · exact isAbsolute_iff.mpr ⟨rest ++ '/' :: rel.chars, by rw [chars_ofChars, hbase]; rfl⟩

theorem clean_resolve {base : Path} (h : base.isAbsolute = true) (p : Path) :
    Clean (base.resolve p) := by
  rw [resolve]
  split
  · exact clean_normalize ‹_›
  · exact clean_normalize (isAbsolute_join h)

theorem intercalate_append {sep : List Char} {qs : List Piece} (hps : ps ≠ []) (hqs : qs ≠ []) :
    List.intercalate sep (ps ++ qs) = List.intercalate sep ps ++ sep ++ List.intercalate sep qs := by
  induction ps with
  | nil => exact absurd rfl hps
  | cons piece rest ih =>
    by_cases hrest : rest = []
    · subst hrest
      rw [List.singleton_append, List.intercalate_cons_of_ne_nil hqs, List.intercalate_singleton]
    · rw [List.cons_append, List.intercalate_cons_of_ne_nil (by simp [hrest]), ih hrest,
        List.intercalate_cons_of_ne_nil hrest]
      simp

theorem getLast?_intercalate_ne_slash (h : ∀ piece ∈ ps, IsName piece) (hne : ps ≠ []) :
    ∃ c, (List.intercalate ['/'] ps).getLast? = some c ∧ c ≠ '/' := by
  induction ps with
  | nil => exact absurd rfl hne
  | cons piece rest ih =>
    have hpiece := h piece List.mem_cons_self
    by_cases hrest : rest = []
    · subst hrest
      rw [List.intercalate_singleton]
      cases hlast : piece.getLast? with
      | none =>
        rw [List.getLast?_eq_none_iff.mp hlast] at hpiece
        exact absurd hpiece.idle (by decide)
      | some c =>
        exact ⟨c, rfl, fun e => hpiece.slash (e ▸ List.mem_of_getLast? hlast)⟩
    · obtain ⟨c, hc, hne⟩ := ih (fun _ hm => h _ (List.mem_cons_of_mem piece hm)) hrest
      refine ⟨c, ?_, hne⟩
      rw [List.intercalate_cons_of_ne_nil hrest, List.getLast?_append, hc]
      rfl

theorem isAbsolute_of_name {name : String} (h : IsName name.toList) :
    (Path.mk name).isAbsolute = false := by
  cases habs : (Path.mk name).isAbsolute with
  | false => rfl
  | true =>
    obtain ⟨rest, hrest⟩ := isAbsolute_iff.mp habs
    have hchars : name.toList = '/' :: rest := hrest
    exact absurd (hchars ▸ List.mem_cons_self) h.slash

theorem join_ofPieces {name : String} (h : ∀ piece ∈ ps, IsName piece)
    (hname : IsName name.toList) :
    (ofPieces true ps).join ⟨name⟩ = ofPieces true (ps ++ [name.toList]) := by
  refine ext_chars ?_
  have hrel : (Path.mk name).chars = name.toList := rfl
  rw [join, isAbsolute_of_name hname, if_neg (by decide), chars_ofPieces, chars_ofPieces]
  by_cases hne : ps = []
  · subst hne
    rw [if_pos (by decide), chars_ofChars, hrel]
    simp
  · obtain ⟨c, hc, hslash⟩ := getLast?_intercalate_ne_slash h hne
    rw [if_neg, chars_ofChars, intercalate_append hne (List.cons_ne_nil _ _),
      List.intercalate_singleton, hrel]
    · simp
    · rw [List.getLast?_append, hc]
      simpa using hslash

theorem Clean.join {p : Path} {name : String} (h : p.Clean) (hname : IsName name.toList) :
    (p.join ⟨name⟩).Clean := by
  obtain ⟨ps, rfl, hps⟩ := h
  refine ⟨ps ++ [name.toList], join_ofPieces hps hname, fun piece hm => ?_⟩
  rcases List.mem_append.mp hm with hm | hm
  · exact hps piece hm
  · rwa [List.mem_singleton.mp hm]

theorem Clean.isAbsolute {p : Path} (h : p.Clean) : p.isAbsolute = true := by
  obtain ⟨ps, rfl, hps⟩ := h
  exact isAbsolute_ofPieces (written_of_names hps)

theorem parent_ofPieces {last : Piece} (h : ∀ piece ∈ ps ++ [last], IsName piece) :
    (ofPieces true (ps ++ [last])).parent? = some (ofPieces true ps) := by
  have hlast := h last (List.mem_append_right ps (List.mem_singleton_self last))
  have hcomponent : isComponent true last ps.reverse = true := by
    rw [isComponent, hlast.idle]
    rfl
  have hshed : shed true ps.reverse = ps.reverse := by
    cases hps : ps.reverse with
    | nil => rfl
    | cons piece outer =>
      have hpiece := h piece (List.mem_append_left _ (List.mem_reverse.mp (hps ▸ List.mem_cons_self)))
      rw [shed, if_pos (by rw [isComponent, hpiece.idle]; rfl)]
  rw [parent?, parents, isAbsolute_ofPieces (written_of_names h),
    pieces_ofPieces (written_of_names h) (by simp), List.reverse_append, List.reverse_singleton,
    List.singleton_append, peel, if_pos hcomponent, hshed]
  simp

/-- What lies below a path is written after a slash, which is doubled below the root. -/
theorem chars_below {qs : List Piece} (hqs : qs ≠ []) :
    (ofPieces true ps).chars ++ '/' :: List.intercalate ['/'] qs =
        (ofPieces true (ps ++ qs)).chars ∨
      (ofPieces true ps).chars ++ '/' :: List.intercalate ['/'] qs =
        '/' :: (ofPieces true (ps ++ qs)).chars := by
  simp only [chars_ofPieces, if_true]
  by_cases hps : ps = []
  · subst hps
    exact .inr rfl
  · rw [intercalate_append hps hqs]
    exact .inl (by simp)

theorem parents_root : (ofPieces true []).parents = [] := by decide

end Clean

end WasmBuild.Path
