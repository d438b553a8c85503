import WasmBuild.Proofs.Canonical
import WasmBuild.Proofs.Walks

/-! Disks that differ in the text of one file. Every path leads to the same place on both, and
what stands in any other file is read alike. -/

namespace WasmBuild

namespace FileSystem

/-- The same directories, links and files, whatever the files hold. -/
def Alike (fs other : FileSystem) : Prop :=
  ∀ loc, other.node? loc = fs.node? loc ∨ ∃ content content',
    fs.node? loc = some (.file content) ∧ other.node? loc = some (.file content')

section Walks

variable {fs other : FileSystem}

theorem Alike.isDir_iff (h : fs.Alike other) (loc : Location) :
    other.node? loc = some .dir ↔ fs.node? loc = some .dir := by
  rcases h loc with heq | ⟨content, content', hfile, hfile'⟩
  · rw [heq]
  · rw [hfile, hfile']
    simp

/-- Walks go alike if they do from their first link on. -/
theorem Alike.walk_of_follow {purpose : Purpose} {links : Nat} (h : fs.Alike other)
    (hfollow : other.followLink purpose links = fs.followLink purpose links) (loc : Location)
    (steps : List Step) : other.walk purpose links loc steps = fs.walk purpose links loc steps := by
  induction steps generalizing loc with
  | nil => rw [walk_nil, walk_nil]
  | cons step rest ih =>
    have hproceed : other.proceed purpose links loc rest step =
        fs.proceed purpose links loc rest step := by
      cases step with
      | here => exact ih loc
      | slash => exact ih loc
      | up => exact ih loc.tail
      | tooLong => rfl
      | enter name =>
        rw [proceed, proceed]
        rcases h (name :: loc) with heq | ⟨content, content', hfile, hfile'⟩
        · rw [heq, hfollow]
          simp only [ih]
        · rw [hfile, hfile']
          simp only [ih]
    rw [walk_cons, walk_cons, hproceed]
    simp only [ne_eq, h.isDir_iff]

theorem Alike.walk_eq (h : fs.Alike other) (purpose : Purpose) (links : Nat) (loc : Location)
    (steps : List Step) : other.walk purpose links loc steps = fs.walk purpose links loc steps := by
  induction links generalizing loc steps with
  | zero => exact h.walk_of_follow rfl loc steps
  | succ links ih =>
    refine h.walk_of_follow ?_ loc steps
    funext dir target rest
    exact ih _ _

theorem Alike.reach_eq (h : fs.Alike other) (purpose : Purpose) (cwd : Location) (route : Route) :
    other.reach purpose cwd route = fs.reach purpose cwd route := by
  rw [reach, reach, h.walk_eq, h.walk_eq]

end Walks

end FileSystem

namespace Disk

/-- Two disks that hold the same, but that the texts of the file at one place may differ in the
given way. -/
structure Revised (Differ : String → String → Prop) (loc : Location) (d other : Disk) : Prop where
  cwd : other.cwd = d.cwd
  node : ∀ place, other.tree.node? place = d.tree.node? place ∨
    place = loc ∧ ∃ text text', Differ text text' ∧
      d.tree.node? place = some (.file text.toUTF8) ∧
      other.tree.node? place = some (.file text'.toUTF8)

section Reading

variable {Differ : String → String → Prop} {loc : Location} {d other : Disk} {p : Path}

theorem revised_setFile {text text' : String} (hdiffer : Differ text text')
    (hfile : d.tree.node? loc = some (.file text.toUTF8)) :
    d.Revised Differ loc (d.setFile loc text'.toUTF8) := by
  have hw := writes_setFile_file hfile text'.toUTF8
  refine ⟨hw.cwd, fun place => ?_⟩
  by_cases hplace : place = loc
  · rw [hplace]
    exact .inr ⟨rfl, text, text', hdiffer, hfile, hw.written⟩
  · exact .inl (hw.keeps hplace)

theorem Revised.alike (h : d.Revised Differ loc other) : d.tree.Alike other.tree := by
  intro place
  rcases h.node place with heq | ⟨-, text, text', -, hfile, hfile'⟩
  · exact .inl heq
  · exact .inr ⟨_, _, hfile, hfile'⟩

theorem Revised.locate_eq (h : d.Revised Differ loc other) (p : Path) :
    other.locate p = d.locate p := by
  simp only [locate, reach, follow, walk, h.alike.reach_eq, h.cwd]

theorem Revised.readText_of_ne (h : d.Revised Differ loc other) (hp : d.locate p ≠ .ok loc) :
    other.readText p = d.readText p := by
  rw [readText, readText, read, read, h.locate_eq]
  cases hplace : d.locate p with
  | error e => rfl
  | ok place =>
    rcases h.node place with heq | ⟨rfl, -⟩
    · simp only [heq]
    · exact absurd hplace hp

theorem Revised.readText_cases (h : d.Revised Differ loc other) (p : Path) :
    other.readText p = d.readText p ∨ ∃ text text', Differ text text' ∧
      d.readText p = .ok text ∧ other.readText p = .ok text' := by
  rw [readText, readText, read, read, h.locate_eq]
  cases d.locate p with
  | error e => exact .inl rfl
  | ok place =>
    rcases h.node place with heq | ⟨-, text, text', hdiffer, hfile, hfile'⟩
    · simp only [heq, true_or]
    · refine .inr ⟨text, text', hdiffer, ?_, ?_⟩
      · simp only [hfile, Text.fromUTF8?_eq_some_iff.mpr rfl]
      · simp only [hfile', Text.fromUTF8?_eq_some_iff.mpr rfl]

end Reading

end Disk

end WasmBuild
