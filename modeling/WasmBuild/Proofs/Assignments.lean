import WasmBuild.Flags.Load

/-! The assignments in a flags file. The variables that are kept of them are those of the last
assignment of each key, in the order of these assignments. -/

namespace WasmBuild.Flags

/-- The assignments that lines make, in order and with repetitions. -/
inductive Assigns : List (List Char) → List Assignment → Prop where
  | nil : Assigns [] []
  | blank {text : List Char} {rest : List (List Char)} {all : List Assignment}
      (hread : readLine text = .ok none) (h : Assigns rest all) : Assigns (text :: rest) all
  | assign {text : List Char} {rest : List (List Char)} {new : Assignment} {all : List Assignment}
      (hread : readLine text = .ok (some new)) (h : Assigns rest all) :
      Assigns (text :: rest) (new :: all)

def lastOfEach : List Assignment → List Assignment
  | [] => []
  | first :: rest =>
    if rest.any (·.1 == first.1) then lastOfEach rest else first :: lastOfEach rest

theorem lastOfEach_concat (all : List Assignment) (new : Assignment) :
    lastOfEach (all ++ [new]) = assign (lastOfEach all) new := by
  induction all with
  | nil => rfl
  | cons first rest ih =>
    rw [List.cons_append, lastOfEach, lastOfEach, ih, List.any_append]
    by_cases hrest : rest.any (·.1 == first.1) = true
    · simp [hrest]
    · by_cases hnew : new.1 = first.1
      · simp [hrest, hnew, assign]
      · simp [hrest, hnew, assign, Ne.symm hnew]

theorem foldl_assign (all more : List Assignment) :
    more.foldl assign (lastOfEach all) = lastOfEach (all ++ more) := by
  induction more generalizing all with
  | nil => rw [List.foldl_nil, List.append_nil]
  | cons new more ih =>
    rw [List.foldl_cons, ← lastOfEach_concat, ih, List.append_assoc, List.singleton_append]

/-- What is looked up from the end is the last assignment, whether or not others are kept. -/
theorem lookup_lastOfEach (all : List Assignment) (key : String) :
    (lastOfEach all).reverse.lookup key = all.reverse.lookup key := by
  induction all with
  | nil => rfl
  | cons first rest ih =>
    rw [List.reverse_cons, List.lookup_append, ← ih, lastOfEach]
    split
    · next hany =>
      obtain ⟨other, hmem, hkey⟩ := List.any_eq_true.mp hany
      by_cases hfirst : key = first.1
      · have hsome : (rest.reverse.lookup key).isSome := by
          rw [List.lookup_isSome_iff]
          exact ⟨other, List.mem_reverse.mpr hmem, by rw [hfirst, beq_iff_eq.mp hkey]; exact BEq.rfl⟩
        rw [ih, Option.or_of_isSome hsome]
      · have hnone : ([first] : List Assignment).lookup key = none := by
          simpa using hfirst
        rw [hnone, Option.or_none]
    · rw [List.reverse_cons, List.lookup_append]

theorem lookup_filter (keep : String → Bool) (vars : List Assignment) (key : String) :
    (vars.filter fun a => keep a.1).lookup key = if keep key then vars.lookup key else none := by
  induction vars with
  | nil => simp
  | cons a vars ih =>
    obtain ⟨name, value⟩ := a
    by_cases hname : key = name
    · subst hname
      cases hkeep : keep key with
      | true => simp [hkeep]
      | false => simp [hkeep, ih]
    · have hne : (key == name) = false := beq_eq_false_iff_ne.mpr hname
      cases hkeep : keep name with
      | true => simp [hkeep, List.lookup_cons, hne, ih]
      | false => simp [hkeep, List.lookup_cons, hne, ih]

theorem lastOfEach_sublist (all : List Assignment) : (lastOfEach all).Sublist all := by
  induction all with
  | nil => exact List.Sublist.refl _
  | cons first rest ih =>
    rw [lastOfEach]
    split
    · exact ih.cons first
    · exact ih.cons_cons first

theorem any_key_iff {vars : List Assignment} {key : String} :
    vars.any (·.1 == key) = true ↔ key ∈ vars.map (·.1) := by
  simp [List.any_eq_true, List.mem_map]

theorem nodup_lastOfEach (all : List Assignment) : ((lastOfEach all).map (·.1)).Nodup := by
  induction all with
  | nil => exact List.nodup_nil
  | cons first rest ih =>
    rw [lastOfEach]
    split
    · exact ih
    · next hlast =>
      rw [List.map_cons, List.nodup_cons]
      refine ⟨fun hmem => hlast (any_key_iff.mpr ?_), ih⟩
      exact ((lastOfEach_sublist rest).map (·.1)).subset hmem

theorem lastOfEach_of_nodup {all : List Assignment} (h : (all.map (·.1)).Nodup) :
    lastOfEach all = all := by
  induction all with
  | nil => rfl
  | cons first rest ih =>
    obtain ⟨hnew, hrest⟩ := List.nodup_cons.mp (List.map_cons ▸ h)
    rw [lastOfEach, if_neg fun hany => hnew (any_key_iff.mp hany), ih hrest]

theorem Assigns.exists_line {texts : List (List Char)} {all : List Assignment}
    (h : Assigns texts all) {a : Assignment} (ha : a ∈ all) :
    ∃ text ∈ texts, readLine text = .ok (some a) := by
  induction h with
  | nil => cases ha
  | blank _ _ ih =>
    obtain ⟨text, htext, hread⟩ := ih ha
    exact ⟨text, List.mem_cons_of_mem _ htext, hread⟩
  | assign hnew _ ih =>
    rcases List.mem_cons.mp ha with rfl | ha
    · exact ⟨_, List.mem_cons_self, hnew⟩
    · obtain ⟨text, htext, hread⟩ := ih ha
      exact ⟨text, List.mem_cons_of_mem _ htext, hread⟩

theorem readLines_eq_ok_iff {line : Nat} {vars result : List Assignment}
    {texts : List (List Char)} :
    readLines line vars texts = .ok result ↔
      ∃ all, Assigns texts all ∧ result = all.foldl assign vars := by
  constructor
  · intro h
    induction texts generalizing line vars with
    | nil =>
      cases h
      exact ⟨[], .nil, rfl⟩
    | cons text rest ih =>
      rw [readLines] at h
      rcases hread : readLine text with fault | (_ | new)
      · simp [hread] at h
      · rw [hread] at h
        obtain ⟨all, hall, hresult⟩ := ih h
        exact ⟨all, .blank hread hall, hresult⟩
      · rw [hread] at h
        obtain ⟨all, hall, hresult⟩ := ih h
        exact ⟨new :: all, .assign hread hall, hresult⟩
  · rintro ⟨all, hall, rfl⟩
    induction hall generalizing line vars with
    | nil => rfl
    | blank hread _ ih => rw [readLines, hread, ih]
    | assign hread _ ih =>
      rw [readLines, hread]
      exact ih

theorem parse_eq_ok_iff {text : String} {vars : List Assignment} :
    parse text = .ok vars ↔
      ∃ all, Assigns (text.toList.splitOn '\n') all ∧ vars = lastOfEach all := by
  have hfold : ∀ all, all.foldl assign [] = lastOfEach all := foldl_assign []
  simp only [parse, readLines_eq_ok_iff, hfold]

theorem load_eq_ok_iff {d : Disk} {p : Path} {vars : List Assignment} :
    load d p = .ok vars ↔ ∃ text all, d.readText p = .ok text ∧
      Assigns (text.toList.splitOn '\n') all ∧ vars = lastOfEach all := by
  constructor
  · intro h
    unfold load at h
    split at h
    · cases h
    next text hread =>
    split at h
    · next found hparse =>
      cases h
      obtain ⟨all, hall, hvars⟩ := parse_eq_ok_iff.mp hparse
      exact ⟨text, all, hread, hall, hvars⟩
    · cases h
  · rintro ⟨text, all, hread, hall, hvars⟩
    rw [load, hread]
    dsimp only
    rw [parse_eq_ok_iff.mpr ⟨all, hall, hvars⟩]

end WasmBuild.Flags
