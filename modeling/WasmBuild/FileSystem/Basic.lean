import WasmBuild.Bytes

/-! File systems of directories, regular files and symbolic links. A place in the tree
is the list of the names that lead to it, the innermost first, so that its directory is
the tail of the list. Whatever exists lies in a directory. -/

namespace WasmBuild

namespace Name

def maxSize : Nat := 255

/-- Whether bytes, which need not be text, can be a name. Dots alone lead elsewhere, and
slashes and NULs end a name. -/
def isLegal (bytes : List UInt8) : Bool :=
  bytes != [] && bytes.length ≤ maxSize && !bytes.contains 0x2F && !bytes.contains 0 &&
    bytes != [0x2E] && bytes != [0x2E, 0x2E]

end Name

structure Name where
  bytes : ByteArray
  legal : Name.isLegal bytes.data.toList = true
deriving DecidableEq

def Name.ofBytes? (bytes : ByteArray) : Option Name :=
  if h : isLegal bytes.data.toList = true then some ⟨bytes, h⟩ else none

abbrev Location := List Name

inductive Node where
  | dir
  | file (content : ByteArray)
  | link (target : ByteArray)
deriving DecidableEq, Inhabited

namespace FileSystem

/-- The node at a place among entries of which the first for it counts; the root is a
directory without an entry. -/
def nodeAt (entries : List (Location × Node)) (loc : Location) : Option Node :=
  if loc = [] then some .dir else entries.lookup loc

theorem nodeAt_cons (entries : List (Location × Node)) {loc : Location} (h : loc ≠ [])
    (node : Node) (place : Location) :
    nodeAt ((loc, node) :: entries) place =
      if place = loc then some node else nodeAt entries place := by
  by_cases h' : place = loc
  · subst h'
    simp [nodeAt, h]
  · by_cases h'' : place = []
    · simp [nodeAt, h'', Ne.symm h]
    · simp [nodeAt, h', h'', List.lookup_cons, beq_eq_false_iff_ne.mpr h']

theorem nodeAt_filter (entries : List (Location × Node)) (keep : Location → Bool)
    {loc : Location} (h : loc ≠ []) :
    nodeAt (entries.filter fun e => keep e.1) loc =
      if keep loc then nodeAt entries loc else none := by
  simp only [nodeAt, h, if_false]
  induction entries with
  | nil => simp
  | cons e entries ih =>
    obtain ⟨key, node⟩ := e
    by_cases hk : loc = key
    · subst hk
      by_cases hkeep : keep loc = true
      · simp [hkeep]
      · simp [hkeep, ih]
    · by_cases hkeep : keep key = true
      · simp [hkeep, List.lookup_cons, beq_eq_false_iff_ne.mpr hk, ih]
      · simp [hkeep, List.lookup_cons, beq_eq_false_iff_ne.mpr hk, ih]

end FileSystem

structure FileSystem where
  entries : List (Location × Node)
  rooted : ∀ (name : Name) (loc : Location),
    (FileSystem.nodeAt entries (name :: loc)).isSome → FileSystem.nodeAt entries loc = some .dir

namespace FileSystem

def node? (fs : FileSystem) (loc : Location) : Option Node := nodeAt fs.entries loc

theorem node?_nil (fs : FileSystem) : fs.node? [] = some .dir := rfl

theorem node?_parent {fs : FileSystem} {name : Name} {loc : Location}
    (h : (fs.node? (name :: loc)).isSome) : fs.node? loc = some .dir := fs.rooted name loc h

def empty : FileSystem where
  entries := []
  rooted _ _ h := by simp [nodeAt] at h

instance : Inhabited FileSystem := ⟨empty⟩

theorem rooted_put (fs : FileSystem) {loc : Location} {name : Name} {node : Node}
    (hdir : fs.node? loc = some .dir)
    (hkind : fs.node? (name :: loc) = some .dir → node = .dir) (inner : Name) (outer : Location)
    (h : (nodeAt ((name :: loc, node) :: fs.entries) (inner :: outer)).isSome) :
    nodeAt ((name :: loc, node) :: fs.entries) outer = some .dir := by
  have hne : name :: loc ≠ [] := List.cons_ne_nil _ _
  have hloc : loc ≠ name :: loc := fun e => by
    have := congrArg List.length e
    simp at this
  rw [nodeAt_cons _ hne] at h ⊢
  by_cases houter : outer = name :: loc
  · subst houter
    have hnew : inner :: name :: loc ≠ name :: loc := fun e => by
      have := congrArg List.length e
      simp at this
    rw [if_neg hnew] at h
    simp [hkind (fs.rooted _ _ h)]
  · rw [if_neg houter]
    by_cases hnew : inner :: outer = name :: loc
    · obtain ⟨-, rfl⟩ := List.cons.inj hnew
      exact hdir
    · rw [if_neg hnew] at h
      exact fs.rooted _ _ h

/-- Puts a node under a name of a directory. Nothing happens where there is no such
directory, or where something other than a directory would take the place of one. -/
def put (fs : FileSystem) (loc : Location) (name : Name) (node : Node) : FileSystem :=
  if h : fs.node? loc = some .dir ∧ (fs.node? (name :: loc) = some .dir → node = .dir) then
    ⟨(name :: loc, node) :: fs.entries, rooted_put fs h.1 h.2⟩
  else fs

theorem node?_put {fs : FileSystem} {loc : Location} {name : Name} {node : Node}
    (hdir : fs.node? loc = some .dir)
    (hkind : fs.node? (name :: loc) = some .dir → node = .dir) (place : Location) :
    (fs.put loc name node).node? place =
      if place = name :: loc then some node else fs.node? place := by
  rw [put, dif_pos ⟨hdir, hkind⟩]
  exact nodeAt_cons _ (List.cons_ne_nil _ _) _ _

theorem rooted_erase (fs : FileSystem) (loc : Location) (inner : Name) (outer : Location)
    (h : (nodeAt (fs.entries.filter fun e => !loc.isSuffixOf e.1) (inner :: outer)).isSome) :
    nodeAt (fs.entries.filter fun e => !loc.isSuffixOf e.1) outer = some .dir := by
  rw [nodeAt_filter _ (fun l => !loc.isSuffixOf l) (List.cons_ne_nil _ _)] at h
  split at h
  · next hkeep =>
    have hdir := fs.rooted _ _ h
    by_cases houter : outer = []
    · simp [houter, nodeAt]
    · rw [nodeAt_filter _ (fun l => !loc.isSuffixOf l) houter, if_pos, hdir]
      simp only [Bool.not_eq_true', ← Bool.not_eq_true, List.isSuffixOf_iff_suffix] at hkeep ⊢
      exact fun hs => hkeep (hs.trans (List.suffix_cons _ _))
  · simp at h

/-- Takes away what is at a place, and all below it. -/
def erase (fs : FileSystem) (loc : Location) : FileSystem :=
  ⟨fs.entries.filter fun e => !loc.isSuffixOf e.1, rooted_erase fs loc⟩

def locations (fs : FileSystem) : List Location := (fs.entries.map (·.1)).eraseDups

end FileSystem

end WasmBuild
