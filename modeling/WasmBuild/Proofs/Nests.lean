import WasmBuild.Proofs.Canonical
import WasmBuild.Proofs.Halfway

/-! Directories nested in one another under one name, each with a link to the next one. A short
path of such links leads to a place that has a long path itself. -/

namespace WasmBuild

namespace Route

/-- The bytes of a name are the path to it from where it stands. -/
theorem ofBytes_name (name : Name) : ofBytes name.bytes = ⟨false, [.enter name]⟩ := by
  obtain ⟨hne, -, hslash, -, hdot, hdots⟩ := Name.isLegal_iff.mp name.legal
  have hname : Name.ofBytes? ⟨name.bytes.data.toList.toArray⟩ = some name := by
    rw [Array.toArray_toList, Name.ofBytes?, dif_pos name.legal]
  have hsteps : (name.bytes.data.toList.splitOn 0x2F).filterMap
      (step? 0x2E fun bs => Name.ofBytes? ⟨bs.toArray⟩) = [.enter name] := by
    rw [List.splitOn_eq_singleton hslash, List.filterMap_cons, step?, if_neg hne, if_neg hdot,
      if_neg hdots, hname]
    rfl
  have hhead : name.bytes.data.toList.head? ≠ some 0x2F :=
    fun h => hslash (List.mem_of_head? h)
  have hlast : name.bytes.data.toList.getLast? ≠ some 0x2F :=
    fun h => hslash (List.mem_of_getLast? h)
  rw [ofBytes, read, hsteps, if_neg fun h => hlast h.1, decide_eq_false hhead]

end Route

namespace FileSystem

section Nest

variable {name link mark : Name} {fs : FileSystem} {n : Nat}

/-- There are directories of one name to some depth. But for the innermost one, each holds a link
to the next one and a mark. -/
structure Nested (name link mark : Name) (fs : FileSystem) (n : Nat) : Prop where
  dir : ∀ m ≤ n, fs.node? (List.replicate m name) = some .dir
  link : ∀ m < n, fs.node? (link :: List.replicate m name) = some (.link name.bytes)
  mark : ∀ m < n, fs.node? (mark :: List.replicate m name) = some (.file ⟨#[]⟩)
  beyond : ∀ loc : Location, n < loc.length → fs.node? loc = none

/-- Directories of one name to a given depth, with what they hold. -/
def nest (name link mark : Name) : Nat → FileSystem
  | 0 => .empty
  | n + 1 =>
    let here := List.replicate n name
    (((nest name link mark n).put here name .dir).put here link (.link name.bytes)).put here mark
      (.file ⟨#[]⟩)

theorem node?_nest_succ (h : Nested name link mark (nest name link mark n) n)
    (hlink : link ≠ name) (hmark : mark ≠ name) (hmark' : mark ≠ link) (loc : Location) :
    (nest name link mark (n + 1)).node? loc =
      if loc = mark :: List.replicate n name then some (.file ⟨#[]⟩)
      else if loc = link :: List.replicate n name then some (.link name.bytes)
      else if loc = name :: List.replicate n name then some .dir
      else (nest name link mark n).node? loc := by
  have hfree (other : Name) : (nest name link mark n).node? (other :: List.replicate n name) = none :=
    h.beyond _ (by simp)
  have hdir := h.dir n (Nat.le_refl n)
  have hself (other : Name) : List.replicate n name ≠ other :: List.replicate n name := fun e => by
    have := congrArg List.length e
    simp at this
  have hfirst := @node?_put _ (List.replicate n name) name .dir hdir fun _ => rfl
  have hsecond := @node?_put _ (List.replicate n name) link (.link name.bytes)
    (by rw [hfirst, if_neg (hself name), hdir])
    (by rw [hfirst, if_neg (by simpa using hlink), hfree]; exact nofun)
  have hthird := @node?_put _ (List.replicate n name) mark (.file ⟨#[]⟩)
    (by rw [hsecond, if_neg (hself link), hfirst, if_neg (hself name), hdir])
    (by rw [hsecond, if_neg (by simpa using hmark'), hfirst, if_neg (by simpa using hmark), hfree]
        exact nofun)
  rw [nest, hthird, hsecond, hfirst]

theorem nested_nest (hlink : link ≠ name) (hmark : mark ≠ name) (hmark' : mark ≠ link) (n : Nat) :
    Nested name link mark (nest name link mark n) n := by
  induction n with
  | zero =>
    refine ⟨fun m hm => ?_, nofun, nofun, fun loc hloc => ?_⟩
    · obtain rfl := Nat.le_zero.mp hm
      rfl
    · obtain ⟨first, rest, rfl⟩ := List.exists_cons_of_length_pos hloc
      rfl
  | succ n ih =>
    have hnode := node?_nest_succ ih hlink hmark hmark'
    have hold : ∀ loc : Location, loc.length ≠ n + 1 →
        (nest name link mark (n + 1)).node? loc = (nest name link mark n).node? loc := by
      intro loc hlength
      have hne (other : Name) : loc ≠ other :: List.replicate n name := by
        rintro rfl
        simp at hlength
      rw [hnode, if_neg (hne mark), if_neg (hne link), if_neg (hne name)]
    refine ⟨fun m hm => ?_, fun m hm => ?_, fun m hm => ?_, fun loc hloc => ?_⟩
    · by_cases hlast : m = n + 1
      · rw [hlast, List.replicate_succ, hnode, if_neg (by simpa using hmark.symm),
          if_neg (by simpa using hlink.symm), if_pos rfl]
      · rw [hold _ (by simpa using hlast), ih.dir m (by omega)]
    · by_cases hlast : m = n
      · rw [hlast, hnode, if_neg (by simpa using hmark'.symm), if_pos rfl]
      · rw [hold _ (by simpa using hlast), ih.link m (by omega)]
    · by_cases hlast : m = n
      · rw [hlast, hnode, if_pos rfl]
      · rw [hold _ (by simpa using hlast), ih.mark m (by omega)]
    · rw [hold loc (by omega), ih.beyond loc (by omega)]

theorem size_replicate (n : Nat) (name : Name) :
    Location.size (List.replicate n name) = n * (1 + name.bytes.size) := by
  induction n with
  | zero => simp [Location.size]
  | succ n ih =>
    rw [List.replicate_succ, Location.size, ih, Nat.succ_mul]
    omega

variable {purpose : Purpose} {links m count : Nat}

/-- Each link leads one directory further in. A walk that is to find this name by name must find
no path too long. -/
theorem Nested.walk (h : Nested name link mark fs n)
    (hpurpose : purpose = .find ∨ purpose = .trace)
    (hfit : purpose = .trace → Location.size (List.replicate (m + count) name) ≤ maxPath)
    (hshort : link.bytes.size ≤ name.bytes.size) (hdepth : m + count ≤ n)
    (hlinks : count ≤ links) :
    Walk fs purpose links (List.replicate m name) (List.replicate count (.enter link))
      (.found (List.replicate (m + count) name)) := by
  have hwrite : purpose ≠ .write := by
    rintro rfl
    rcases hpurpose with hp | hp <;> cases hp
  have hclaim : purpose ≠ .claim := by
    rintro rfl
    rcases hpurpose with hp | hp <;> cases hp
  induction count generalizing m links with
  | zero => exact .stop
  | succ count ih =>
    obtain ⟨fewer, rfl⟩ : ∃ fewer, links = fewer + 1 := ⟨links - 1, by omega⟩
    have hallows : ∀ inner : Name, inner.bytes.size ≤ name.bytes.size →
        fs.Allows purpose (List.replicate m name) (.enter inner) := by
      refine fun inner hinner => ⟨fun hstop => ?_, h.dir m (by omega)⟩
      have hlong := hstop.2
      have hsize := hfit hstop.1
      rw [show m + (count + 1) = count + (m + 1) by omega, List.replicate_add] at hsize
      have hnext := Nat.le_trans (size_le_append _ _) hsize
      rw [List.replicate_succ, Location.size] at hnext
      rw [askedSize, Location.size] at hlong
      omega
    have hstart : linkStart (List.replicate m name) name.bytes = List.replicate m name := by
      rw [linkStart, Route.ofBytes_name, if_neg Bool.false_ne_true]
    have hinner := ih (m := m + 1) (by rwa [Nat.add_right_comm, Nat.add_assoc]) (by omega)
      (Nat.le_of_succ_le_succ hlinks)
    have hcount : m + 1 + count = m + (count + 1) := by omega
    rw [hcount, List.replicate_succ] at hinner
    rw [List.replicate_succ]
    refine .follow (hallows link hshort) (fun hw => hwrite hw.1) (h.link m (by omega))
      (fun hc => hclaim hc.1) ?_
    rw [hstart, Route.ofBytes_name, List.singleton_append]
    exact .enter (hallows name (Nat.le_refl _)) (fun hw => hwrite hw.1) (h.dir (m + 1) (by omega))
      Node.isSolid_dir hinner

end Nest

end FileSystem

end WasmBuild
