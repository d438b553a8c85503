import WasmBuild.Proofs.Assignments

/-! Flags files put one after the other. The lines of the second are counted on from those of
the first, and its variables hide those of the first and stand after them. -/

namespace WasmBuild.Flags

section Override

variable {vars more : List Assignment}

/-- What is left of variables when others are set over them, and these. -/
def override (vars more : List Assignment) : List Assignment :=
  vars.filter (fun a => a.1 ∉ more.map (·.1)) ++ more

theorem override_nil (vars : List Assignment) : override vars [] = vars := by
  simp [override]

theorem assign_override (vars more : List Assignment) (new : Assignment) :
    assign (override vars more) new = override vars (assign more new) := by
  have hkeys (key : String) :
      key ∉ (assign more new).map (·.1) ↔ key ∉ more.map (·.1) ∧ key ≠ new.1 := by
    by_cases h : key = new.1
    · simp [assign, h]
    · simp [assign, h]
  have hkept : vars.filter (fun a => a.1 ∉ (assign more new).map (·.1)) =
      (vars.filter fun a => a.1 ∉ more.map (·.1)).filter (·.1 != new.1) := by
    rw [List.filter_filter]
    refine List.filter_congr fun a _ => ?_
    have hnew : (a.1 != new.1) = decide (a.1 ≠ new.1) := by
      rw [Bool.eq_iff_iff]
      simp
    rw [hnew, ← Bool.decide_and]
    exact decide_eq_decide.mpr ((hkeys a.1).trans and_comm)
  rw [override, override, hkept, assign, assign, List.filter_append, List.append_assoc]

theorem get?_override (vars more : List Assignment) (key : String) :
    get? (override vars more) key = (get? more key).or (get? vars key) := by
  have hleft : (vars.filter fun a => a.1 ∉ more.map (·.1)).lookup key =
      if key ∉ more.map (·.1) then vars.lookup key else none := by
    rw [lookup_filter (fun name => name ∉ more.map (·.1))]
    simp only [decide_eq_true_eq]
  rw [get?, get?, get?, override, List.lookup_append, hleft]
  by_cases hkey : key ∈ more.map (·.1)
  · have hsome : (more.lookup key).isSome := by
      obtain ⟨a, ha, rfl⟩ := List.mem_map.mp hkey
      exact List.lookup_isSome_iff.mpr ⟨a, ha, BEq.rfl⟩
    rw [if_neg (Decidable.not_not.mpr hkey), Option.none_or, Option.or_of_isSome hsome]
  · have hnone : more.lookup key = none := by
      refine List.lookup_eq_none_iff.mpr fun a ha => ?_
      have hne : key ≠ a.1 := fun heq => hkey (heq ▸ List.mem_map_of_mem ha)
      simpa using hne
    rw [if_pos hkey, hnone, Option.or_none, Option.none_or]

theorem nodup_override (h : (vars.map (·.1)).Nodup) (hmore : (more.map (·.1)).Nodup) :
    ((override vars more).map (·.1)).Nodup := by
  rw [override, List.map_append]
  refine List.nodup_append.mpr ⟨h.sublist (List.filter_sublist.map _), hmore, ?_⟩
  intro key hkey other hother heq
  obtain ⟨a, ha, rfl⟩ := List.mem_map.mp hkey
  have hnot : a.1 ∉ more.map (·.1) := by simpa using (List.mem_filter.mp ha).2
  exact hnot (heq ▸ hother)

end Override

section Lines

theorem readLines_append (line : Nat) (vars : List Assignment) (first second : List (List Char)) :
    readLines line vars (first ++ second) =
      match readLines line vars first with
      | .error fault => .error fault
      | .ok found => readLines (line + first.length) found second := by
  induction first generalizing line vars with
  | nil => rfl
  | cons text rest ih =>
    have hcount : line + 1 + rest.length = line + (text :: rest).length := by
      rw [List.length_cons]
      omega
    rw [List.cons_append, readLines, readLines]
    rcases readLine text with fault | (_ | new)
    · rfl
    · dsimp only
      rw [ih, hcount]
    · dsimp only
      rw [ih, hcount]

/-- Lines are read alike wherever they stand, and whatever variables are set already. -/
theorem readLines_over (skipped line : Nat) (vars more : List Assignment)
    (texts : List (List Char)) :
    readLines (skipped + line) (override vars more) texts =
      match readLines line more texts with
      | .error fault => .error ⟨skipped + fault.line, fault.fault⟩
      | .ok found => .ok (override vars found) := by
  induction texts generalizing line more with
  | nil => rfl
  | cons text rest ih =>
    rw [readLines, readLines, Nat.add_assoc]
    rcases readLine text with fault | (_ | new)
    · rfl
    · exact ih (line + 1) more
    · dsimp only
      rw [assign_override]
      exact ih (line + 1) (assign more new)

theorem length_splitOn {α : Type} [DecidableEq α] (a : α) (xs : List α) :
    (xs.splitOn a).length = xs.count a + 1 := by
  induction xs with
  | nil => rfl
  | cons x xs ih =>
    rw [List.splitOn_cons_eq_if_modifyHead, List.count_cons]
    by_cases h : x = a
    · simp [h, ih]
    · simp [h, ih]

theorem parse_append (first second : String) :
    parse (first ++ "\n" ++ second) =
      match parse first with
      | .error fault => .error fault
      | .ok vars =>
        match parse second with
        | .error fault => .error ⟨first.toList.count '\n' + 1 + fault.line, fault.fault⟩
        | .ok more => .ok (override vars more) := by
  have htexts : (first ++ "\n" ++ second).toList.splitOn '\n' =
      first.toList.splitOn '\n' ++ second.toList.splitOn '\n' := by
    rw [String.toList_append, String.toList_append, List.append_assoc]
    exact List.splitOn_append_cons_self _ _
  rw [parse, htexts, readLines_append, length_splitOn, Nat.add_comm 1, ← parse]
  cases parse first with
  | error fault => rfl
  | ok vars =>
    have hover := readLines_over (first.toList.count '\n' + 1) 1 vars []
      (second.toList.splitOn '\n')
    rw [override_nil, ← parse] at hover
    exact hover

theorem nodup_of_parse {text : String} {vars : List Assignment} (h : parse text = .ok vars) :
    (vars.map (·.1)).Nodup := by
  obtain ⟨all, -, rfl⟩ := parse_eq_ok_iff.mp h
  exact nodup_lastOfEach all

end Lines

/-- Of two texts, one after the other, the first fault is that of the first text that has one,
its line being counted in the whole. Without a fault the variables of the second text follow
those of the first whose keys it does not assign. -/
theorem parse_concat (first second : String) :
    (∀ fault, parse first = .error fault → parse (first ++ "\n" ++ second) = .error fault) ∧
    (∀ vars fault, parse first = .ok vars → parse second = .error fault →
      parse (first ++ "\n" ++ second) =
        .error ⟨first.toList.count '\n' + 1 + fault.line, fault.fault⟩) ∧
    ∀ vars more, parse first = .ok vars → parse second = .ok more →
      ∃ both, parse (first ++ "\n" ++ second) = .ok both ∧
        both = vars.filter (fun a => a.1 ∉ more.map (·.1)) ++ more ∧ (both.map (·.1)).Nodup ∧
        ∀ key, get? both key = (get? more key).or (get? vars key) := by
  have hwhole := parse_append first second
  refine ⟨fun fault h => ?_, fun vars fault h hmore => ?_, fun vars more h hmore => ?_⟩
  · rwa [h] at hwhole
  · rwa [h, hmore] at hwhole
  · rw [h, hmore] at hwhole
    exact ⟨_, hwhole, rfl, nodup_override (nodup_of_parse h) (nodup_of_parse hmore),
      get?_override vars more⟩

theorem parse_concat_sample :
    parse ("A=1\nB=\n" ++ "\n" ++ "#\n B='2'\r") = .ok [("A", "1"), ("B", "2")] ∧
      parse ("A=1\nB=\n" ++ "\n" ++ "\nB='") = .error ⟨5, .badValue .openApostrophe⟩ ∧
      parse ("\n1=" ++ "\n" ++ "B='") = .error ⟨2, .badKey ['1']⟩ := by
  have hfirst : parse "A=1\nB=\n" = .ok [("A", "1"), ("B", "")] := rfl
  have hsecond : parse "#\n B='2'\r" = .ok [("B", "2")] := rfl
  have hopen : parse "\nB='" = .error ⟨2, .badValue .openApostrophe⟩ := rfl
  have hkey : parse "\n1=" = .error ⟨2, .badKey ['1']⟩ := rfl
  refine ⟨?_, ?_, ?_⟩
  · obtain ⟨both, hboth, rfl, -⟩ := (parse_concat _ _).2.2 _ _ hfirst hsecond
    exact hboth
  · exact (parse_concat _ _).2.1 _ _ hfirst hopen
  · exact (parse_concat _ "B='").1 _ hkey

end WasmBuild.Flags
