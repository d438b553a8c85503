import WasmBuild.Proofs.Making

/-! The copying of a file. A copy writes one file and changes nothing else, and the file
that it writes is empty when the source is that file itself. Whether it is can be told by
the places of the two paths, as long as these can be told at all. -/

namespace WasmBuild

namespace Disk

open FileSystem

/-- A file is written at a place, and nothing else changes. -/
structure Writes (before after : Disk) (loc : Location) (content : ByteArray) : Prop where
  cwd : after.cwd = before.cwd
  old : before.tree.node? loc = none ∨ ∃ c, before.tree.node? loc = some (.file c)
  node : ∀ place, after.tree.node? place =
    if place = loc then some (.file content) else before.tree.node? place

namespace Writes

variable {before after : Disk} {loc : Location} {content : ByteArray}

theorem written (h : before.Writes after loc content) :
    after.tree.node? loc = some (.file content) := by rw [h.node, if_pos rfl]

theorem keeps (h : before.Writes after loc content) {place : Location} (hne : place ≠ loc) :
    after.tree.node? place = before.tree.node? place := by rw [h.node, if_neg hne]

theorem grows (h : before.Writes after loc content) : before.Grows after := by
  have hkeep (place : Location) (node : Node) (hnode : before.tree.node? place = some node)
      (hother : ∀ c, node ≠ .file c) : after.tree.node? place = some node := by
    rw [h.keeps, hnode]
    rintro rfl
    rcases h.old with hnone | ⟨c, hfile⟩
    · simp [hnone] at hnode
    · exact hother c (Option.some.inj (hnode.symm.trans hfile))
  refine ⟨h.cwd, fun _ hdir => hkeep _ _ hdir nofun, fun _ _ hlink => hkeep _ _ hlink nofun,
    fun place c hfile => ?_⟩
  by_cases hne : place = loc
  · exact ⟨content, hne ▸ h.written⟩
  · exact ⟨c, by rw [h.keeps hne, hfile]⟩

theorem trans {last : Disk} {final : ByteArray} (h : before.Writes after loc content)
    (h' : after.Writes last loc final) : before.Writes last loc final := by
  refine ⟨h'.cwd.trans h.cwd, h.old, fun place => ?_⟩
  rw [h'.node]
  split
  · rfl
  next hne => rw [h.keeps hne]

end Writes

variable {d opened left : Disk} {p src dst : Path} {loc : Location} {content c : ByteArray}
  {bytes : Nat}

theorem writes_setFile {dir : Location} {name : Name} (hdir : d.tree.node? dir = some .dir)
    (hold : d.tree.node? (name :: dir) = none ∨ ∃ c, d.tree.node? (name :: dir) = some (.file c))
    (content : ByteArray) : d.Writes (d.setFile (name :: dir) content) (name :: dir) content := by
  refine ⟨rfl, hold, node?_put hdir fun h => ?_⟩
  rcases hold with hnone | ⟨c, hfile⟩
  · simp [hnone] at h
  · simp [hfile] at h

theorem writes_setFile_file (hfile : d.tree.node? loc = some (.file c)) (content : ByteArray) :
    d.Writes (d.setFile loc content) loc content := by
  cases loc with
  | nil => cases hfile
  | cons name dir =>
    exact writes_setFile (node?_parent (by rw [hfile]; rfl))
      (.inr ⟨c, hfile⟩) content

theorem read_eq_ok_iff :
    d.read p = .ok c ↔ ∃ loc, d.locate p = .ok loc ∧ d.tree.node? loc = some (.file c) := by
  unfold read
  cases d.locate p with
  | error e => simp
  | ok loc =>
    rcases hnode : d.tree.node? loc with _ | (_ | content | target) <;> simp [hnode]

theorem size_of_read (h : d.read p = .ok c) : d.size p = .ok c.size := by
  obtain ⟨loc, hloc, hfile⟩ := read_eq_ok_iff.mp h
  simp [size, hloc, hfile]

theorem isFile_iff : d.isFile p = true ↔ ∃ c, d.read p = .ok c := by
  simp only [isFile, Disk.node?, read_eq_ok_iff]
  cases d.locate p with
  | error e => simp
  | ok loc =>
    rcases hnode : d.tree.node? loc with _ | (_ | content | target) <;> simp [hnode]

theorem read_grow (hg : d.Grows left) (hloc : d.locate p = .ok loc)
    (hnode : left.tree.node? loc = some (.file content)) : left.read p = .ok content :=
  read_eq_ok_iff.mpr ⟨loc, locate_grow hg hloc, hnode⟩

theorem openEmpty_ok (h : d.openEmpty p = .ok (loc, opened)) :
    d.Writes opened loc ⟨#[]⟩ ∧ opened.locate p = .ok loc ∧
      (d.tree.node? loc = none ∨ d.follow .find p = .ok (.found loc)) := by
  unfold openEmpty at h
  split at h
  · cases h
  · next dir name hreach =>
    cases h
    obtain ⟨hsize, hfollow⟩ := reach_eq_ok_iff.mp hreach
    obtain ⟨hnul, hspot⟩ := follow_eq_ok_iff.mp hfollow
    obtain ⟨hroute, hwalk⟩ := FileSystem.reach_eq_ok_iff.mp hspot
    obtain ⟨hdir, hnone⟩ := hwalk.vacant_spot rfl
    have hw := writes_setFile hdir (.inl hnone) ⟨#[]⟩
    rw [stepsFor_of_ne_claim (by decide)] at hwalk
    refine ⟨hw, locate_eq_ok_iff.mpr ⟨hsize, follow_eq_ok_iff.mpr ⟨hnul, ?_⟩⟩, .inl hnone⟩
    exact FileSystem.reach_eq_ok_iff.mpr ⟨hroute, hwalk.fill hw.grows.tree rfl hw.written
      (Node.isSolid_file _)⟩
  · next place hreach =>
    split at h
    · cases h
    next hne =>
    cases h
    obtain ⟨hsize, hfollow⟩ := reach_eq_ok_iff.mp hreach
    have hfound := follow_find (by decide) hfollow
    obtain ⟨node, hnode, hsolid⟩ := node_of_follow (by decide) hfollow
    cases node with
    | dir => exact absurd hnode hne
    | link target => exact absurd rfl (hsolid target)
    | file old =>
      have hw := writes_setFile_file hnode ⟨#[]⟩
      exact ⟨hw, locate_eq_ok_iff.mpr ⟨hsize, follow_grow hw.grows hfound⟩, .inr hfound⟩

theorem copy_eq {source : Location} (hsource : d.locate src = .ok source)
    (hfile : d.tree.node? source = some (.file c)) :
    d.copy src dst = match d.openEmpty dst with
      | .error e => (.error e, d)
      | .ok (loc, opened) => (.ok (if source = loc then ⟨#[]⟩ else c).size,
          opened.setFile loc (if source = loc then ⟨#[]⟩ else c)) := by
  simp only [copy, hsource, hfile]
  cases hopen : d.openEmpty dst with
  | error e => rfl
  | ok result =>
    obtain ⟨loc, opened⟩ := result
    have hnode : opened.tree.node? source = some (.file (if source = loc then ⟨#[]⟩ else c)) := by
      rw [(openEmpty_ok hopen).1.node]
      split
      · rfl
      · exact hfile
    simp only [hnode]

/-- A copy writes the content of the file, except that one that is copied onto itself is
emptied. -/
theorem copy_ok {source : Location} (hsource : d.locate src = .ok source)
    (hfile : d.tree.node? source = some (.file c)) (h : d.copy src dst = (.ok bytes, left)) :
    ∃ loc content, d.Writes left loc content ∧ left.locate dst = .ok loc ∧
      bytes = content.size ∧ (content = if source = loc then ⟨#[]⟩ else c) ∧
      (source = loc → d.follow .find dst = .ok (.found loc)) := by
  rw [copy_eq hsource hfile] at h
  cases hopen : d.openEmpty dst with
  | error e => simp [hopen] at h
  | ok result =>
    obtain ⟨loc, opened⟩ := result
    obtain ⟨hw, hloc, hbefore⟩ := openEmpty_ok hopen
    simp only [hopen, Prod.mk.injEq, Except.ok.injEq] at h
    obtain ⟨rfl, rfl⟩ := h
    have hw' := writes_setFile_file hw.written (if source = loc then ⟨#[]⟩ else c)
    refine ⟨loc, _, hw.trans hw', locate_grow hw'.grows hloc, rfl, rfl, fun heq => ?_⟩
    exact hbefore.resolve_left fun hnone => by simp [← heq, hfile] at hnone

/-- Both paths lead to one node, but the place of one of them is not told, since a name on the
way has too long a path. -/
def Entangled (d : Disk) (a b : Path) : Prop :=
  ∃ loc, d.follow .find a = .ok (.found loc) ∧ d.follow .find b = .ok (.found loc) ∧
    (d.trace a = .error (.os .nameTooLong) ∨ d.trace b = .error (.os .nameTooLong))

theorem same_iff {a b : Path} :
    d.same a b = true ↔ ∃ loc, d.trace a = .ok loc ∧ d.trace b = .ok loc := by
  unfold same
  rcases d.trace a with e | x <;> rcases d.trace b with e' | y <;> simp [eq_comm]

theorem not_entangled_of_trace {a b : Path} {x y : Location} (ha : d.trace a = .ok x)
    (hb : d.trace b = .ok y) : ¬ d.Entangled a b := by
  rintro ⟨_, -, -, hlong | hlong⟩
  · rw [ha] at hlong
    cases hlong
  · rw [hb] at hlong
    cases hlong

theorem not_entangled_of_same {a b : Path} (h : d.same a b = true) : ¬ d.Entangled a b := by
  obtain ⟨loc, ha, hb⟩ := same_iff.mp h
  exact not_entangled_of_trace ha hb

theorem entangled_of_not_same {a b : Path} (ha : d.follow .find a = .ok (.found loc))
    (hb : d.follow .find b = .ok (.found loc)) (h : d.same a b = false) : d.Entangled a b := by
  refine ⟨loc, ha, hb, ?_⟩
  rcases trace_of_follow ha with hta | hta
  · rcases trace_of_follow hb with htb | htb
    · rw [same_iff.mpr ⟨loc, hta, htb⟩] at h
      cases h
    · exact .inr htb
  · exact .inl hta

/-- A file is emptied by a copy just when it is copied onto itself without being told so. -/
theorem entangled_iff_of_copy {source : Location} (hsource : d.locate src = .ok source)
    (hg : d.Grows left) (hloc : left.locate dst = .ok loc)
    (hbefore : source = loc → d.follow .find dst = .ok (.found loc))
    (hsame : d.same src dst = false) : d.Entangled src dst ↔ source = loc := by
  have hsrc := (locate_eq_ok_iff.mp hsource).2
  constructor
  · rintro ⟨place, hplace, hplace', -⟩
    have hafter := follow_grow hg hplace'
    obtain rfl : source = place := by simpa using hsrc.symm.trans hplace
    simpa using hafter.symm.trans (locate_eq_ok_iff.mp hloc).2
  · intro heq
    exact entangled_of_not_same (heq ▸ hsrc) (hbefore heq) hsame

section Place

variable {delivery : Delivery}

theorem place_ok {size : Nat} (h : d.place src dst size = (.ok delivery, left)) :
    (left = d ∧ delivery.bytes = size ∧ d.same src dst = true) ∨
      d.same src dst = false ∧ d.copy src dst = (.ok delivery.bytes, left) := by
  unfold place at h
  split at h
  · next hsame =>
    cases h
    exact .inl ⟨rfl, rfl, hsame⟩
  next hsame =>
  refine .inr ⟨by simpa using hsame, ?_⟩
  rcases hcopy : d.copy src dst with ⟨e | bytes, after⟩
  · rw [hcopy] at h
    cases h
  · rw [hcopy] at h
    cases h
    rfl

theorem place_changes (hread : d.read src = .ok c)
    (h : d.place src dst c.size = (.ok delivery, left)) :
    left = d ∨ ∃ loc content, d.Writes left loc content ∧ left.locate dst = .ok loc := by
  obtain ⟨source, hsource, hfile⟩ := read_eq_ok_iff.mp hread
  rcases place_ok h with ⟨hleft, -, -⟩ | ⟨-, hcopy⟩
  · exact .inl hleft
  · obtain ⟨loc, content, hw, hloc, -⟩ := copy_ok hsource hfile hcopy
    exact .inr ⟨loc, content, hw, hloc⟩

/-- What is delivered is what the source holds afterwards. Its size is told, and nothing else
can be read at the destination. -/
theorem place_content (hread : d.read src = .ok c)
    (h : d.place src dst c.size = (.ok delivery, left)) :
    ∃ content, left.read src = .ok content ∧ delivery.bytes = content.size ∧
      ∀ found, left.read dst = .ok found → found = content := by
  obtain ⟨source, hsource, hfile⟩ := read_eq_ok_iff.mp hread
  rcases place_ok h with ⟨rfl, hbytes, hsame⟩ | ⟨-, hcopy⟩
  · refine ⟨c, hread, hbytes, fun found hfound => ?_⟩
    obtain ⟨loc, hsrc, hdst⟩ := same_iff.mp hsame
    have hsrc := follow_find (by decide) (trace_eq_ok_iff.mp hsrc)
    have hdst := follow_find (by decide) (trace_eq_ok_iff.mp hdst)
    obtain ⟨place, hplace, hnode⟩ := read_eq_ok_iff.mp hfound
    obtain rfl : source = loc := by simpa using (locate_eq_ok_iff.mp hsource).2.symm.trans hsrc
    obtain rfl : place = source := by simpa using (locate_eq_ok_iff.mp hplace).2.symm.trans hdst
    simpa using hnode.symm.trans hfile
  · obtain ⟨loc, content, hw, hloc, hbytes, hcontent, -⟩ := copy_ok hsource hfile hcopy
    refine ⟨content, read_grow hw.grows hsource ?_, hbytes, fun found hfound => ?_⟩
    · rw [hw.node, hcontent]
      split
      · rfl
      · exact hfile
    · obtain ⟨place, hplace, hnode⟩ := read_eq_ok_iff.mp hfound
      obtain rfl : place = loc := Except.ok.inj (hplace.symm.trans hloc)
      simpa using hnode.symm.trans hw.written

/-- A delivery leaves the content at the destination, unless that cannot be opened by its path
or a file that is not empty is copied onto itself. -/
theorem place_reads_iff (hread : d.read src = .ok c)
    (h : d.place src dst c.size = (.ok delivery, left)) :
    left.read dst = .ok c ↔
      dst.text.utf8ByteSize ≤ maxPath ∧ (c.size = 0 ∨ ¬ d.Entangled src dst) := by
  obtain ⟨source, hsource, hfile⟩ := read_eq_ok_iff.mp hread
  have hsrc := (locate_eq_ok_iff.mp hsource).2
  rcases place_ok h with ⟨rfl, -, hsame⟩ | ⟨hsame, hcopy⟩
  · obtain ⟨loc, hsrc', hdst⟩ := same_iff.mp hsame
    have hsrc' := follow_find (by decide) (trace_eq_ok_iff.mp hsrc')
    have hdst := follow_find (by decide) (trace_eq_ok_iff.mp hdst)
    obtain rfl : source = loc := by simpa using hsrc.symm.trans hsrc'
    constructor
    · intro hreads
      obtain ⟨place, hplace, -⟩ := read_eq_ok_iff.mp hreads
      exact ⟨(locate_eq_ok_iff.mp hplace).1, .inr (not_entangled_of_same hsame)⟩
    · rintro ⟨hsize, -⟩
      exact read_eq_ok_iff.mpr ⟨source, locate_eq_ok_iff.mpr ⟨hsize, hdst⟩, hfile⟩
  · obtain ⟨loc, content, hw, hloc, -, hcontent, hbefore⟩ := copy_ok hsource hfile hcopy
    have hdst : left.read dst = .ok content := read_eq_ok_iff.mpr ⟨loc, hloc, hw.written⟩
    have hentangled := entangled_iff_of_copy hsource hw.grows hloc hbefore hsame
    rw [hdst, hentangled, and_iff_right (locate_eq_ok_iff.mp hloc).1, hcontent, Except.ok.injEq,
      ByteArray.size_eq_zero_iff]
    by_cases heq : source = loc
    · rw [if_pos heq, eq_comm]
      exact ⟨.inl, fun h => h.resolve_right fun hne => hne heq⟩
    · rw [if_neg heq]
      exact ⟨fun _ => .inr heq, fun _ => rfl⟩

end Place

/-- What a delivery to a path may change: there are new directories to which ancestors of the
path lead, and the file to which the path leads is written. -/
structure Receives (before after : Disk) (p : Path) : Prop where
  cwd : after.cwd = before.cwd
  node : ∀ loc, after.tree.node? loc = before.tree.node? loc ∨
    (before.tree.node? loc = none ∧ after.tree.node? loc = some .dir ∧
      ∃ dir ∈ p.parents, after.locate dir = .ok loc) ∨
    (after.locate p = .ok loc ∧ ∃ content, after.tree.node? loc = some (.file content) ∧
      (before.tree.node? loc = none ∨ ∃ c, before.tree.node? loc = some (.file c)))

theorem Adds.receives {before after : Disk} (h : before.Adds after p.parents) :
    before.Receives after p :=
  ⟨h.cwd, fun loc => (h.node loc).imp_right .inl⟩

theorem Adds.receives_writes {before ready after : Disk} (h : before.Adds ready p.parents)
    (hw : ready.Writes after loc content) (hloc : after.locate p = .ok loc) :
    before.Receives after p := by
  refine ⟨hw.cwd.trans h.cwd, fun place => ?_⟩
  by_cases hplace : place = loc
  · subst hplace
    refine .inr (.inr ⟨hloc, content, hw.written, ?_⟩)
    rcases h.node place with heq | ⟨hnone, -, -⟩
    · exact heq ▸ hw.old
    · exact .inl hnone
  · rw [hw.keeps hplace]
    rcases h.node place with heq | ⟨hnone, hdir, dir, hmem, hlead⟩
    · exact .inl heq
    · exact .inr (.inl ⟨hnone, hdir, dir, hmem, locate_grow hw.grows hlead⟩)

section Deliver

variable {delivery : Delivery}

theorem read_makeParent (hread : d.read src = .ok c) (p : Path) :
    (d.makeParent p).2.read src = .ok c := by
  obtain ⟨loc, hloc, hfile⟩ := read_eq_ok_iff.mp hread
  have hadds := makeParent_adds d p
  exact read_grow hadds.grows hloc (hadds.keeps hfile)

theorem deliver_ok (hread : d.read src = .ok c)
    (h : d.deliver src dst = (.ok delivery, left)) :
    (d.makeParent dst).1 = .ok () ∧
      (d.makeParent dst).2.place src dst c.size = (.ok delivery, left) := by
  rw [deliver, size_of_read hread] at h
  dsimp only at h
  rcases hmake : d.makeParent dst with ⟨e | ⟨⟩, ready⟩
  · rw [hmake] at h
    cases h
  · rw [hmake] at h
    exact ⟨rfl, h⟩

theorem deliver_receives (hread : d.read src = .ok c)
    (h : d.deliver src dst = (.ok delivery, left)) : d.Receives left dst := by
  have hadds := makeParent_adds d dst
  rcases place_changes (read_makeParent hread dst) (deliver_ok hread h).2 with heq | ⟨loc, _, hw, hloc⟩
  · exact heq ▸ hadds.receives
  · exact hadds.receives_writes hw hloc

end Deliver

end Disk

end WasmBuild
