import Mathlib.Logic.Relation
import WasmBuild.Proofs.Cleanup

/-! The normal form of an absolute path. It is reached by leaving out of the text, step by step,
what leads nowhere; whichever steps are taken, the clean path at the end is the same. -/

namespace WasmBuild.Path

/-- A step towards the normal form of an absolute path. It leaves out an idle piece, or a name
together with the step up behind it, or a step up from the root. -/
inductive Shortens : List Piece → List Piece → Prop where
  | idle {piece : Piece} (before after : List Piece) (h : isIdle piece = true) :
      Shortens (before ++ piece :: after) (before ++ after)
  | back {name : Piece} (before after : List Piece) (h : isIdle name = false) (hup : name ≠ up) :
      Shortens (before ++ name :: up :: after) (before ++ after)
  | root (after : List Piece) : Shortens (up :: after) after

/-- The second path is the normal form of the first. -/
structure IsNormalForm (p q : Path) : Prop where
  clean : q.Clean
  reached : Relation.ReflTransGen Shortens p.pieces q.names

section Steps

variable {kept ps qs : List Piece}

theorem tidy_idle {piece : Piece} {absolute : Bool} (h : isIdle piece = true)
    (rest : List Piece) : tidy absolute kept (piece :: rest) = tidy absolute kept rest := by
  rw [tidy.eq_def]
  simp only [h, if_true]

theorem tidy_name {name : Piece} {absolute : Bool} (h : isIdle name = false) (hup : name ≠ up)
    (rest : List Piece) :
    tidy absolute kept (name :: rest) = tidy absolute (name :: kept) rest := by
  rw [tidy.eq_def]
  simp [h, hup]

theorem tidy_name_up {name : Piece} {absolute : Bool} (h : isIdle name = false) (hup : name ≠ up)
    (rest : List Piece) :
    tidy absolute kept (name :: up :: rest) = tidy absolute kept rest := by
  have hidle : isIdle up = false := by decide
  rw [tidy_name h hup, tidy.eq_def]
  simp [hidle, hup]

theorem Shortens.tidy_eq (h : Shortens ps qs) : tidy true [] ps = tidy true [] qs := by
  cases h with
  | idle before after h => rw [tidy_append, tidy_append, tidy_idle h]
  | back before after h hup => rw [tidy_append, tidy_append, tidy_name_up h hup]
  | root after => rfl

theorem tidy_eq_of_reached (h : Relation.ReflTransGen Shortens ps qs) :
    tidy true [] ps = tidy true [] qs := by
  induction h with
  | refl => rfl
  | tail _ hlast ih => rw [ih, hlast.tidy_eq]

/-- The clean-up takes steps towards the normal form only. -/
theorem reaches_tidy (hkept : ∀ piece ∈ kept, isIdle piece = false ∧ piece ≠ up) :
    Relation.ReflTransGen Shortens (kept.reverse ++ ps) (tidy true kept ps).reverse := by
  induction ps generalizing kept with
  | nil =>
    rw [List.append_nil]
    exact .refl
  | cons piece rest ih =>
    by_cases hidle : isIdle piece = true
    · rw [tidy_idle hidle]
      exact .head (.idle kept.reverse rest hidle) (ih hkept)
    replace hidle : isIdle piece = false := by simpa using hidle
    by_cases hup : piece = up
    · subst hup
      cases kept with
      | nil => exact .head (.root rest) (ih hkept)
      | cons top below =>
        obtain ⟨htop, htopup⟩ := hkept top List.mem_cons_self
        have htidy : tidy true (top :: below) (up :: rest) = tidy true below rest := by
          rw [← tidy_name htop htopup, tidy_name_up htop htopup]
        have hrest := ih fun piece hm => hkept piece (List.mem_cons_of_mem top hm)
        have hstep := Shortens.back below.reverse rest htop htopup
        rw [htidy, List.reverse_cons, List.append_assoc]
        exact .head hstep hrest
    · have hkept' : ∀ other ∈ piece :: kept, isIdle other = false ∧ other ≠ up := by
        intro other hm
        rcases List.mem_cons.mp hm with rfl | hm
        · exact ⟨hidle, hup⟩
        · exact hkept other hm
      have hrest := ih hkept'
      rw [List.reverse_cons, List.append_assoc] at hrest
      rw [tidy_name hidle hup]
      exact hrest

end Steps

variable {p q : Path}

theorem Clean.ofPieces_names (h : q.Clean) : ofPieces true q.names = q := by
  obtain ⟨ps, rfl, hps⟩ := h
  rw [names_clean hps]

/-- An absolute path has one normal form, and the clean-up finds it. -/
theorem isNormalForm_iff (h : p.isAbsolute = true) : IsNormalForm p q ↔ q = p.normalize := by
  constructor
  · rintro ⟨hclean, hreached⟩
    have htidy : tidy true [] p.pieces = q.names.reverse := by
      rw [tidy_eq_of_reached hreached, tidy_names hclean.isName, List.append_nil]
    rw [normalize, h, htidy, List.reverse_reverse, hclean.ofPieces_names]
  · rintro rfl
    refine ⟨clean_normalize h, ?_⟩
    have hreached : Relation.ReflTransGen Shortens p.pieces (tidy true [] p.pieces).reverse :=
      reaches_tidy (List.forall_mem_nil _)
    rw [names_normalize, h, names, tidy_filter]
    exact hreached

theorem isNormalForm_resolve {base : Path} (h : base.isAbsolute = true) (p : Path) :
    IsNormalForm (if p.isAbsolute then p else base.join p) (base.resolve p) := by
  by_cases hp : p.isAbsolute = true
  · rw [resolve, if_pos hp, if_pos hp]
    exact (isNormalForm_iff hp).mpr rfl
  · rw [resolve, if_neg hp, if_neg hp]
    exact (isNormalForm_iff (isAbsolute_join h)).mpr rfl

theorem Clean.resolve_eq (h : q.Clean) (base : Path) : base.resolve q = q := by
  rw [resolve, if_pos h.isAbsolute, h.normalize_eq]

end WasmBuild.Path
