import WasmBuild.FileSystem.Disk

/-! Walks as derivations, one rule for each thing that can happen on the way. What a walk
finds does not change when other nodes are added to the file system, and a walk for one
purpose is nearly a walk for another. -/

namespace WasmBuild

namespace FileSystem

def linkStart (loc : Location) (target : ByteArray) : Location :=
  if (Route.ofBytes target).absolute then [] else loc

def followLink (fs : FileSystem) (purpose : Purpose) :
    Nat → Location → ByteArray → List Step → Except Errno Spot
  | 0, _, _, _ => .error .tooManyLinks
  | links + 1, loc, target, rest =>
    fs.walk purpose links (linkStart loc target) ((Route.ofBytes target).steps ++ rest)

theorem walk_eq_walkWith (fs : FileSystem) (purpose : Purpose) (links : Nat) :
    fs.walk purpose links = fs.walkWith purpose (fs.followLink purpose links) := by
  cases links <;> rfl

theorem walk_nil (fs : FileSystem) (purpose : Purpose) (links : Nat) (loc : Location) :
    fs.walk purpose links loc [] = .ok (.found loc) := by
  rw [walk_eq_walkWith, walkWith]

/-- Whether a step may be taken from a place. A walk for tracing asks about the path. -/
def Allows (fs : FileSystem) (purpose : Purpose) (loc : Location) (step : Step) : Prop :=
  ¬(purpose = .trace ∧ maxPath < askedSize loc step) ∧ fs.node? loc = some .dir

/-- The successful walks with up to the given number of links. -/
inductive Walk (fs : FileSystem) (purpose : Purpose) :
    Nat → Location → List Step → Spot → Prop where
  | stop {links : Nat} {loc : Location} : Walk fs purpose links loc [] (.found loc)
  | idle {links : Nat} {loc : Location} {step : Step} {rest : List Step} {spot : Spot}
      (hstep : step = .here ∨ step = .slash) (hallows : fs.Allows purpose loc step)
      (h : Walk fs purpose links loc rest spot) : Walk fs purpose links loc (step :: rest) spot
  | up {links : Nat} {loc : Location} {rest : List Step} {spot : Spot}
      (hallows : fs.Allows purpose loc .up)
      (h : Walk fs purpose links loc.tail rest spot) :
      Walk fs purpose links loc (.up :: rest) spot
  | enter {links : Nat} {loc : Location} {name : Name} {rest : List Step} {spot : Spot}
      {node : Node} (hallows : fs.Allows purpose loc (.enter name))
      (hslash : ¬(purpose = .write ∧ rest = [.slash]))
      (hnode : fs.node? (name :: loc) = some node) (hlink : ∀ target, node ≠ .link target)
      (h : Walk fs purpose links (name :: loc) rest spot) :
      Walk fs purpose links loc (.enter name :: rest) spot
  | vacant {links : Nat} {loc : Location} {name : Name}
      (hallows : fs.Allows purpose loc (.enter name)) (hnode : fs.node? (name :: loc) = none) :
      Walk fs purpose links loc [.enter name] (.vacant loc name)
  | obstacle {links : Nat} {loc : Location} {name : Name} {target : ByteArray}
      (hallows : fs.Allows purpose loc (.enter name)) (hclaim : purpose = .claim)
      (hnode : fs.node? (name :: loc) = some (.link target)) :
      Walk fs purpose links loc [.enter name] (.found (name :: loc))
  | follow {links : Nat} {loc : Location} {name : Name} {target : ByteArray}
      {rest : List Step} {spot : Spot} (hallows : fs.Allows purpose loc (.enter name))
      (hslash : ¬(purpose = .write ∧ rest = [.slash]))
      (hnode : fs.node? (name :: loc) = some (.link target))
      (hclaim : ¬(purpose = .claim ∧ rest = []))
      (h : Walk fs purpose links (linkStart loc target)
        ((Route.ofBytes target).steps ++ rest) spot) :
      Walk fs purpose (links + 1) loc (.enter name :: rest) spot

variable {fs : FileSystem} {purpose : Purpose} {links : Nat} {loc : Location} {spot : Spot}

def proceed (fs : FileSystem) (purpose : Purpose) (links : Nat) (loc : Location) (rest : List Step) :
    Step → Except Errno Spot
  | .here | .slash => fs.walk purpose links loc rest
  | .up => fs.walk purpose links loc.tail rest
  | .tooLong =>
    .error (if purpose = .write ∧ rest = [.slash] then .isDirectory else .nameTooLong)
  | .enter name =>
    if purpose = .write ∧ rest = [.slash] then .error .isDirectory
    else match fs.node? (name :: loc) with
    | none => if rest = [] then .ok (.vacant loc name) else .error .noEntry
    | some (.link target) =>
      if purpose = .claim ∧ rest = [] then .ok (.found (name :: loc))
      else fs.followLink purpose links loc target rest
    | some _ => fs.walk purpose links (name :: loc) rest

theorem walk_cons (step : Step) (rest : List Step) :
    fs.walk purpose links loc (step :: rest) =
      if purpose = .trace ∧ maxPath < askedSize loc step then .error .nameTooLong
      else if fs.node? loc ≠ some .dir then .error .notDirectory
      else fs.proceed purpose links loc rest step := by
  rw [walk_eq_walkWith, walkWith.eq_def]
  cases step with
  | here | up | slash => rw [proceed, walk_eq_walkWith]
  | tooLong => rfl
  | enter name =>
    cases hnode : fs.node? (name :: loc) with
    | none => simp [proceed, hnode]
    | some node => cases node <;> simp [proceed, hnode, walk_eq_walkWith]

theorem walk_cons_of_allows {step : Step} {rest : List Step} (h : fs.Allows purpose loc step) :
    fs.walk purpose links loc (step :: rest) = fs.proceed purpose links loc rest step := by
  rw [walk_cons, if_neg h.1, if_neg (Decidable.not_not.mpr h.2)]

theorem walk_cons_eq_ok {step : Step} {rest : List Step}
    (h : fs.walk purpose links loc (step :: rest) = .ok spot) :
    fs.Allows purpose loc step ∧ fs.proceed purpose links loc rest step = .ok spot := by
  rw [walk_cons] at h
  split at h
  · cases h
  next hfit =>
  split at h
  · cases h
  next hdir =>
  exact ⟨⟨hfit, Decidable.not_not.mp hdir⟩, h⟩

theorem Walk.walk_eq {steps : List Step} (h : Walk fs purpose links loc steps spot) :
    fs.walk purpose links loc steps = .ok spot := by
  induction h with
  | stop => exact walk_nil _ _ _ _
  | idle hstep hallows _ ih =>
    rw [walk_cons_of_allows hallows]
    rcases hstep with rfl | rfl <;> exact ih
  | up hallows _ ih =>
    rw [walk_cons_of_allows hallows]
    exact ih
  | @enter _ _ _ _ _ node hallows hslash hnode hlink _ ih =>
    rw [walk_cons_of_allows hallows]
    cases node with
    | link target => exact absurd rfl (hlink target)
    | dir => simp [proceed, hslash, hnode, ih]
    | file content => simp [proceed, hslash, hnode, ih]
  | vacant hallows hnode =>
    rw [walk_cons_of_allows hallows]
    simp [proceed, hnode]
  | obstacle hallows hclaim hnode =>
    rw [walk_cons_of_allows hallows]
    simp [proceed, hnode, hclaim]
  | follow hallows hslash hnode hclaim _ ih =>
    rw [walk_cons_of_allows hallows]
    simp [proceed, hslash, hnode, hclaim, followLink, ih]

/-- A walk is a derivation if what follows its first link is. -/
theorem walk_of_follow {steps : List Step}
    (hfollow : ∀ loc target rest, fs.followLink purpose links loc target rest = .ok spot →
      ∃ fewer, links = fewer + 1 ∧ Walk fs purpose fewer (linkStart loc target)
        ((Route.ofBytes target).steps ++ rest) spot)
    (h : fs.walk purpose links loc steps = .ok spot) : Walk fs purpose links loc steps spot := by
  induction steps generalizing loc with
  | nil =>
    rw [walk_nil] at h
    cases h
    exact .stop
  | cons step rest ih =>
    obtain ⟨hallows, hproceed⟩ := walk_cons_eq_ok h
    cases step with
    | here => exact .idle (.inl rfl) hallows (ih hproceed)
    | slash => exact .idle (.inr rfl) hallows (ih hproceed)
    | up => exact .up hallows (ih hproceed)
    | tooLong => cases hproceed
    | enter name =>
      by_cases hslash : purpose = .write ∧ rest = [.slash]
      · simp [proceed, hslash] at hproceed
      cases hnode : fs.node? (name :: loc) with
      | none =>
        by_cases hrest : rest = []
        · subst hrest
          obtain rfl : Spot.vacant loc name = spot := by simpa [proceed, hnode] using hproceed
          exact .vacant hallows hnode
        · simp [proceed, hslash, hnode, hrest] at hproceed
      | some node =>
        cases node with
        | dir =>
          simp only [proceed, hslash, hnode, if_false] at hproceed
          exact .enter hallows hslash hnode nofun (ih hproceed)
        | file content =>
          simp only [proceed, hslash, hnode, if_false] at hproceed
          exact .enter hallows hslash hnode nofun (ih hproceed)
        | link target =>
          by_cases hclaim : purpose = .claim ∧ rest = []
          · obtain ⟨rfl, rfl⟩ := hclaim
            obtain rfl : Spot.found (name :: loc) = spot := by
              simpa [proceed, hnode] using hproceed
            exact .obstacle hallows rfl hnode
          · simp only [proceed, hslash, hnode, hclaim, if_false] at hproceed
            obtain ⟨fewer, rfl, hwalk⟩ := hfollow loc target rest hproceed
            exact .follow hallows hslash hnode hclaim hwalk

theorem walk_of_walk_eq {steps : List Step} (h : fs.walk purpose links loc steps = .ok spot) :
    Walk fs purpose links loc steps spot := by
  induction links generalizing loc steps with
  | zero => exact walk_of_follow nofun h
  | succ links ih => exact walk_of_follow (fun _ _ _ hf => ⟨links, rfl, ih hf⟩) h

theorem walk_eq_ok_iff {steps : List Step} :
    fs.walk purpose links loc steps = .ok spot ↔ Walk fs purpose links loc steps spot :=
  ⟨walk_of_walk_eq, Walk.walk_eq⟩

end FileSystem

end WasmBuild
