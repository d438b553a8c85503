import WasmBuild.Proofs.Walks

/-! File systems that grow: nodes are added and files are rewritten, and nothing else
changes. Whatever a walk has found is found again in a file system that has grown. -/

namespace WasmBuild

/-- A link is not a place to stand on. -/
def Node.IsSolid (node : Node) : Prop := ∀ target, node ≠ .link target

theorem Node.isSolid_dir : Node.dir.IsSolid := fun _ h => Node.noConfusion h

theorem Node.isSolid_file (content : ByteArray) : (Node.file content).IsSolid :=
  fun _ h => Node.noConfusion h

namespace FileSystem

structure Grows (before after : FileSystem) : Prop where
  dir : ∀ loc, before.node? loc = some .dir → after.node? loc = some .dir
  link : ∀ loc target, before.node? loc = some (.link target) →
    after.node? loc = some (.link target)
  file : ∀ loc content, before.node? loc = some (.file content) →
    ∃ rewritten, after.node? loc = some (.file rewritten)

theorem Grows.refl (fs : FileSystem) : fs.Grows fs :=
  ⟨fun _ h => h, fun _ _ h => h, fun _ content h => ⟨content, h⟩⟩

theorem Grows.trans {first second third : FileSystem} (h : first.Grows second)
    (h' : second.Grows third) : first.Grows third where
  dir loc hdir := h'.dir loc (h.dir loc hdir)
  link loc target hlink := h'.link loc target (h.link loc target hlink)
  file loc content hfile := by
    obtain ⟨content, hfile⟩ := h.file loc content hfile
    exact h'.file loc content hfile

theorem Grows.solid {before after : FileSystem} (h : before.Grows after) {loc : Location}
    {node : Node} (hnode : before.node? loc = some node) (hsolid : node.IsSolid) :
    ∃ later, after.node? loc = some later ∧ later.IsSolid := by
  cases node with
  | dir => exact ⟨.dir, h.dir loc hnode, Node.isSolid_dir⟩
  | file content =>
    obtain ⟨content, hfile⟩ := h.file loc content hnode
    exact ⟨.file content, hfile, Node.isSolid_file content⟩
  | link target => exact absurd rfl (hsolid target)

theorem grows_put_vacant {fs : FileSystem} {dir : Location} {name : Name} (node : Node)
    (hnone : fs.node? (name :: dir) = none) : fs.Grows (fs.put dir name node) := by
  by_cases hdir : fs.node? dir = some .dir
  · have hput := @node?_put fs dir name node hdir fun h => by simp [hnone] at h
    have hkeep (loc : Location) (old : Node) (h : fs.node? loc = some old) :
        (fs.put dir name node).node? loc = some old := by
      rw [hput, if_neg (fun e => by simp [e, hnone] at h), h]
    exact ⟨fun loc => hkeep loc _, fun loc target => hkeep loc _,
      fun loc content h => ⟨content, hkeep loc _ h⟩⟩
  · rw [put, dif_neg fun h => hdir h.1]
    exact .refl fs

section Walks

variable {fs after : FileSystem} {purpose : Purpose} {links : Nat} {loc place : Location}
  {steps : List Step}

theorem Allows.grow {step : Step} (hg : fs.Grows after) (h : fs.Allows purpose loc step) :
    after.Allows purpose loc step := ⟨h.1, hg.dir loc h.2⟩

theorem Allows.find {step : Step} (h : fs.Allows purpose loc step) :
    fs.Allows .find loc step := ⟨fun hfit => (nomatch hfit.1), h.2⟩

theorem Walk.grow (hg : fs.Grows after) {spot : Spot} (h : Walk fs purpose links loc steps spot)
    (hspot : spot = .found place) : Walk after purpose links loc steps spot := by
  induction h with
  | stop => exact .stop
  | idle hstep hallows _ ih => exact .idle hstep (hallows.grow hg) (ih hspot)
  | up hallows _ ih => exact .up (hallows.grow hg) (ih hspot)
  | enter hallows hslash hnode hlink _ ih =>
    obtain ⟨later, hlater, hsolid⟩ := hg.solid hnode hlink
    exact .enter (hallows.grow hg) hslash hlater hsolid (ih hspot)
  | vacant => cases hspot
  | obstacle hallows hclaim hnode => exact .obstacle (hallows.grow hg) hclaim (hg.link _ _ hnode)
  | follow hallows hslash hnode hclaim _ ih =>
    exact .follow (hallows.grow hg) hslash (hg.link _ _ hnode) hclaim (ih hspot)

/-- What a walk comes upon is found also without a purpose, unless it is a link. -/
theorem Walk.find {spot : Spot} (h : Walk fs purpose links loc steps spot)
    (hspot : spot = .found place)
    (hsolid : purpose = .claim → ∀ target, fs.node? place ≠ some (.link target)) :
    Walk fs .find links loc steps (.found place) := by
  induction h with
  | stop =>
    cases hspot
    exact .stop
  | idle hstep hallows _ ih => exact .idle hstep hallows.find (ih hspot)
  | up hallows _ ih => exact .up hallows.find (ih hspot)
  | enter hallows _ hnode hlink _ ih =>
    exact .enter hallows.find (fun h => nomatch h.1) hnode hlink (ih hspot)
  | vacant => cases hspot
  | obstacle hallows hclaim hnode =>
    cases hspot
    exact absurd hnode (hsolid hclaim _)
  | follow hallows _ hnode _ _ ih =>
    exact .follow hallows.find (fun h => nomatch h.1) hnode (fun h => nomatch h.1) (ih hspot)

/-- Where a walk has come upon nothing, it finds what is put there. -/
theorem Walk.occupy (hg : fs.Grows after) {spot : Spot} {dir : Location} {name : Name}
    {node : Node} (h : Walk fs purpose links loc steps spot) (hspot : spot = .vacant dir name)
    (hnode : after.node? (name :: dir) = some node) (hsolid : node.IsSolid) :
    Walk after purpose links loc steps (.found (name :: dir)) := by
  induction h with
  | stop => cases hspot
  | idle hstep hallows _ ih => exact .idle hstep (hallows.grow hg) (ih hspot)
  | up hallows _ ih => exact .up (hallows.grow hg) (ih hspot)
  | enter hallows hslash hold hlink _ ih =>
    obtain ⟨later, hlater, hlater'⟩ := hg.solid hold hlink
    exact .enter (hallows.grow hg) hslash hlater hlater' (ih hspot)
  | vacant hallows =>
    cases hspot
    exact .enter (hallows.grow hg) (fun h => nomatch h.2) hnode hsolid .stop
  | obstacle => cases hspot
  | follow hallows hslash hlink hclaim _ ih =>
    exact .follow (hallows.grow hg) hslash (hg.link _ _ hlink) hclaim (ih hspot)

theorem Walk.fill (hg : fs.Grows after) {spot : Spot} {dir : Location} {name : Name}
    {node : Node} (h : Walk fs purpose links loc steps spot) (hspot : spot = .vacant dir name)
    (hnode : after.node? (name :: dir) = some node) (hsolid : node.IsSolid) :
    Walk after .find links loc steps (.found (name :: dir)) := by
  have hfound := h.occupy hg hspot hnode hsolid
  exact hfound.find rfl fun _ target hlink => hsolid target (by simpa [hnode] using hlink)

/-- A walk ends at a node if it starts at one, and not at a link if it does not claim. -/
theorem Walk.node_of_found {spot : Spot} (h : Walk fs purpose links loc steps spot)
    (hspot : spot = .found place) (hpurpose : purpose ≠ .claim)
    (hloc : ∃ node, fs.node? loc = some node ∧ node.IsSolid) :
    ∃ node, fs.node? place = some node ∧ node.IsSolid := by
  induction h with
  | stop =>
    cases hspot
    exact hloc
  | idle _ _ _ ih => exact ih hspot hloc
  | @up _ loc _ _ hallows _ ih =>
    refine ih hspot ⟨.dir, ?_, Node.isSolid_dir⟩
    cases loc with
    | nil => exact node?_nil fs
    | cons name dir =>
      have hsome : (fs.node? (name :: dir)).isSome := by rw [hallows.2]; rfl
      exact node?_parent hsome
  | enter _ _ hnode hlink _ ih => exact ih hspot ⟨_, hnode, hlink⟩
  | vacant => cases hspot
  | obstacle _ hclaim => exact absurd hclaim hpurpose
  | @follow _ loc _ target _ _ hallows _ _ _ _ ih =>
    refine ih hspot ⟨.dir, ?_, Node.isSolid_dir⟩
    rw [linkStart]
    split
    · exact node?_nil fs
    · exact hallows.2

theorem Walk.node_of_steps (h : Walk fs purpose links loc steps (.found place))
    (hsteps : steps ≠ []) (hpurpose : purpose ≠ .claim) :
    ∃ node, fs.node? place = some node ∧ node.IsSolid := by
  refine h.node_of_found rfl hpurpose ⟨.dir, ?_, Node.isSolid_dir⟩
  cases h with
  | stop => exact absurd rfl hsteps
  | idle _ hallows => exact hallows.2
  | up hallows => exact hallows.2
  | enter hallows => exact hallows.2
  | obstacle hallows => exact hallows.2
  | follow hallows => exact hallows.2

theorem Walk.vacant_spot {spot : Spot} {dir : Location} {name : Name}
    (h : Walk fs purpose links loc steps spot) (hspot : spot = .vacant dir name) :
    fs.node? dir = some .dir ∧ fs.node? (name :: dir) = none := by
  induction h with
  | stop => cases hspot
  | idle _ _ _ ih => exact ih hspot
  | up _ _ ih => exact ih hspot
  | enter _ _ _ _ _ ih => exact ih hspot
  | vacant hallows hnode =>
    cases hspot
    exact ⟨hallows.2, hnode⟩
  | obstacle => cases hspot
  | follow _ _ _ _ _ ih => exact ih hspot

theorem walk_trace_cons {step : Step} {rest : List Step} (hdir : fs.node? loc = some .dir) :
    fs.walk .trace links loc (step :: rest) = fs.proceed .trace links loc rest step ∨
      fs.walk .trace links loc (step :: rest) = .error .nameTooLong := by
  by_cases hfit : maxPath < askedSize loc step
  · exact .inr (by rw [walk_cons, if_pos ⟨rfl, hfit⟩])
  · exact .inl (walk_cons_of_allows ⟨fun h => hfit h.2, hdir⟩)

/-- What is found is also found name by name, unless a name on the way has too long a
path. -/
theorem Walk.trace {spot : Spot} (h : Walk fs .find links loc steps spot) :
    fs.walk .trace links loc steps = .ok spot ∨
      fs.walk .trace links loc steps = .error .nameTooLong := by
  induction h with
  | stop => exact .inl (walk_nil _ _ _ _)
  | idle hstep hallows _ ih =>
    rcases walk_trace_cons hallows.2 with h | h
    · rw [h]
      rcases hstep with rfl | rfl <;> exact ih
    · exact .inr h
  | up hallows _ ih =>
    rcases walk_trace_cons hallows.2 with h | h
    · rw [h]
      exact ih
    · exact .inr h
  | @enter _ _ _ _ _ node hallows _ hnode hlink _ ih =>
    rcases walk_trace_cons hallows.2 with h | h
    · rw [h]
      cases node with
      | link target => exact absurd rfl (hlink target)
      | dir => simpa [proceed, hnode] using ih
      | file content => simpa [proceed, hnode] using ih
    · exact .inr h
  | vacant hallows hnode =>
    rcases walk_trace_cons hallows.2 with h | h
    · exact .inl (by rw [h]; simp [proceed, hnode])
    · exact .inr h
  | obstacle _ hclaim => cases hclaim
  | follow hallows _ hnode _ _ ih =>
    rcases walk_trace_cons hallows.2 with h | h
    · rw [h]
      simpa [proceed, hnode, followLink] using ih
    · exact .inr h

end Walks

end FileSystem

end WasmBuild
