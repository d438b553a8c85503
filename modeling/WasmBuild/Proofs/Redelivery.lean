import Mathlib.Control.Monad.Basic
import WasmBuild.Proofs.Copying

/-! Deliveries that are made again. The first one leaves behind all that the second one would
make, so the second one tells the same and changes nothing. -/

namespace WasmBuild

namespace FileSystem

variable {fs : FileSystem} {links : Nat} {loc place : Location} {steps whole : List Step}
  {spot : Spot}

/-- A name that leads somewhere cannot be claimed, nor can any name on the way. -/
theorem Walk.claim (h : Walk fs .find links loc whole spot) (hspot : spot = .found place)
    (hstart : steps <+: whole) : ∃ other, Walk fs .claim links loc steps (.found other) := by
  induction h generalizing steps with
  | stop =>
    rw [List.prefix_nil.mp hstart]
    exact ⟨_, .stop⟩
  | @idle _ loc step rest _ hstep hallows _ ih =>
    rcases List.prefix_cons_iff.mp hstart with rfl | ⟨before, rfl, hbefore⟩
    · exact ⟨loc, .stop⟩
    · obtain ⟨other, hother⟩ := ih hspot hbefore
      exact ⟨other, .idle hstep ⟨fun h => (nomatch h.1), hallows.2⟩ hother⟩
  | @up _ loc rest _ hallows _ ih =>
    rcases List.prefix_cons_iff.mp hstart with rfl | ⟨before, rfl, hbefore⟩
    · exact ⟨loc, .stop⟩
    · obtain ⟨other, hother⟩ := ih hspot hbefore
      exact ⟨other, .up ⟨fun h => (nomatch h.1), hallows.2⟩ hother⟩
  | @enter _ loc name rest _ node hallows _ hnode hlink _ ih =>
    rcases List.prefix_cons_iff.mp hstart with rfl | ⟨before, rfl, hbefore⟩
    · exact ⟨loc, .stop⟩
    · obtain ⟨other, hother⟩ := ih hspot hbefore
      exact ⟨other, .enter ⟨fun h => (nomatch h.1), hallows.2⟩ (fun h => nomatch h.1) hnode hlink
        hother⟩
  | vacant => cases hspot
  | obstacle _ hclaim => cases hclaim
  | @follow _ loc name target rest _ hallows _ hnode _ _ ih =>
    rcases List.prefix_cons_iff.mp hstart with rfl | ⟨before, rfl, hbefore⟩
    · exact ⟨loc, .stop⟩
    have hclaims : fs.Allows .claim loc (.enter name) := ⟨fun h => (nomatch h.1), hallows.2⟩
    -- the last link of what is claimed is an obstacle itself, the others are followed
    by_cases hlast : before = []
    · subst hlast
      exact ⟨_, .obstacle hclaims rfl hnode⟩
    · obtain ⟨other, hother⟩ := ih hspot ((List.prefix_append_right_inj _).mpr hbefore)
      exact ⟨other, .follow hclaims (fun h => nomatch h.1) hnode (fun h => hlast h.2) hother⟩

end FileSystem

namespace Disk

open FileSystem

variable {d after made left : Disk} {p src dst : Path} {loc : Location} {content c : ByteArray}

theorem isDir_iff : d.isDir p = true ↔ ∃ loc, d.locate p = .ok loc ∧ d.tree.node? loc = some .dir := by
  rw [isDir, decide_eq_true_eq, Disk.node?]
  cases d.locate p with
  | error e => simp
  | ok loc => simp

theorem isDir_grow (hg : d.Grows after) (h : d.isDir p = true) : after.isDir p = true := by
  obtain ⟨loc, hloc, hdir⟩ := isDir_iff.mp h
  exact isDir_iff.mpr ⟨loc, locate_grow hg hloc, hg.tree.dir loc hdir⟩

theorem isDir_of_makeDir (h : d.makeDir p = .ok made) : made.isDir p = true := by
  have hadds := makeDir_adds h
  unfold makeDir at h
  split at h
  · cases h
  · cases h
  next dir name hreach =>
  cases h
  obtain ⟨-, hspot⟩ := follow_eq_ok_iff.mp (reach_eq_ok_iff.mp hreach).2
  obtain ⟨hdir, hnone⟩ := (FileSystem.reach_eq_ok_iff.mp hspot).2.vacant_spot rfl
  have hnew : (d.tree.put dir name .dir).node? (name :: dir) = some .dir := by
    rw [node?_put hdir fun _ => rfl, if_pos rfl]
  rcases hadds.node (name :: dir) with heq | ⟨-, -, q, hq, hloc⟩
  · rw [hnone] at heq
    exact absurd (heq.symm.trans hnew) nofun
  · rw [List.mem_singleton.mp hq] at hloc
    exact isDir_iff.mpr ⟨_, hloc, hnew⟩

theorem makeDir_of_isDir (h : d.isDir p = true) : d.makeDir p = .error (.os .alreadyExists) := by
  obtain ⟨loc, hloc, -⟩ := isDir_iff.mp h
  obtain ⟨hsize, hfollow⟩ := locate_eq_ok_iff.mp hloc
  obtain ⟨hnul, hspot⟩ := follow_eq_ok_iff.mp hfollow
  obtain ⟨hroute, hwalk⟩ := FileSystem.reach_eq_ok_iff.mp hspot
  have hstart : (Route.ofPath p).steps.filter (· ≠ .slash) <+: (Route.ofPath p).steps := by
    rcases Route.steps_ofPath p with heq | heq
    · exact ⟨[], (List.append_nil _).trans heq.symm⟩
    · exact ⟨[.slash], heq.symm⟩
  obtain ⟨other, hother⟩ := hwalk.claim rfl hstart
  have hfound : d.reach .claim p = .ok (.found other) :=
    reach_eq_ok_iff.mpr ⟨hsize, follow_eq_ok_iff.mpr
      ⟨hnul, FileSystem.reach_eq_ok_iff.mpr ⟨hroute, hother⟩⟩⟩
  rw [makeDir, hfound]

theorem isDir_of_outcome {result : Except IoError Unit} {e : IoError} {ready : Disk}
    (h : (if ready.isDir p then .ok () else .error e, ready) = (result, left))
    (hok : result = .ok ()) : left.isDir p = true := by
  obtain ⟨hresult, rfl⟩ := Prod.mk.inj h
  by_cases hdir : ready.isDir p = true
  · exact hdir
  · rw [if_neg hdir, hok] at hresult
    cases hresult

theorem makeAlong_ok {outer : List Path} (h : d.makeAlong (p :: outer) = (.ok (), left)) :
    p.text = "" ∨ left.isDir p = true := by
  by_cases htext : p.text = ""
  · exact .inl htext
  refine .inr ?_
  rw [makeAlong, if_neg htext] at h
  cases hmake : d.makeDir p with
  | ok made =>
    rw [hmake] at h
    cases h
    exact isDir_of_makeDir hmake
  | error e =>
    rw [hmake] at h
    dsimp only at h
    split at h
    · rcases hrest : d.makeAlong outer with ⟨e' | ⟨⟩, rest⟩
      · rw [hrest] at h
        cases h
      · rw [hrest] at h
        dsimp only at h
        cases hagain : rest.makeDir p with
        | ok made =>
          rw [hagain] at h
          cases h
          exact isDir_of_makeDir hagain
        | error e' =>
          rw [hagain] at h
          exact isDir_of_outcome h rfl
    · exact isDir_of_outcome h rfl

theorem makeAlong_of_made {outer : List Path} (h : p.text = "" ∨ d.isDir p = true) :
    d.makeAlong (p :: outer) = (.ok (), d) := by
  by_cases htext : p.text = ""
  · rw [makeAlong, if_pos htext]
  · have hdir := h.resolve_left htext
    rw [makeAlong, if_neg htext, makeDir_of_isDir hdir]
    dsimp only
    rw [if_neg (by decide), if_pos hdir]

/-- Directories that were made once need not be made again. -/
theorem makeParent_again (h : (d.makeParent p).1 = .ok ()) (hg : (d.makeParent p).2.Grows left) :
    left.makeParent p = (.ok (), left) := by
  unfold makeParent at h hg ⊢
  cases hparent : p.parent? with
  | none => rfl
  | some dir =>
    rw [hparent] at h hg
    dsimp only at h hg ⊢
    rcases hmake : d.makeDirs dir with ⟨e | ⟨⟩, made⟩
    · rw [hmake] at h
      cases h
    · rw [hmake] at hg
      have hmade := (makeAlong_ok hmake).imp_right (isDir_grow hg)
      rw [makeDirs, Path.ancestors, makeAlong_of_made hmade]

/-- A file that was opened for writing is opened again at the same place. -/
theorem openEmpty_again {opened : Disk} (h : d.openEmpty p = .ok (loc, opened))
    (hg : opened.Grows left) (hfile : left.tree.node? loc = some (.file content)) :
    left.openEmpty p = .ok (loc, left.setFile loc ⟨#[]⟩) := by
  have hw := (openEmpty_ok h).1
  have hfound : p.text.utf8ByteSize ≤ maxPath ∧ left.follow .write p = .ok (.found loc) := by
    unfold openEmpty at h
    split at h
    · cases h
    · next dir name hreach =>
      cases h
      obtain ⟨hsize, hfollow⟩ := reach_eq_ok_iff.mp hreach
      obtain ⟨hnul, hspot⟩ := follow_eq_ok_iff.mp hfollow
      obtain ⟨hroute, hwalk⟩ := FileSystem.reach_eq_ok_iff.mp hspot
      have hopened := hwalk.occupy hw.grows.tree rfl hw.written (Node.isSolid_file _)
      refine ⟨hsize, follow_grow hg (follow_eq_ok_iff.mpr ⟨hnul, ?_⟩)⟩
      exact FileSystem.reach_eq_ok_iff.mpr ⟨hroute, hopened⟩
    · next place hreach =>
      split at h
      · cases h
      cases h
      obtain ⟨hsize, hfollow⟩ := reach_eq_ok_iff.mp hreach
      exact ⟨hsize, follow_grow (hw.grows.trans hg) hfollow⟩
  rw [openEmpty, reach_eq_ok_iff.mpr hfound]
  dsimp only
  rw [if_neg (by simp [hfile])]

/-- Nothing is changed that could be looked up. -/
structure Stays (before after : Disk) : Prop where
  cwd : after.cwd = before.cwd
  node : ∀ place, after.tree.node? place = before.tree.node? place

theorem Stays.refl (d : Disk) : d.Stays d := ⟨rfl, fun _ => rfl⟩

theorem Writes.stays (h : d.Writes after loc content)
    (hfile : d.tree.node? loc = some (.file content)) : d.Stays after := by
  refine ⟨h.cwd, fun place => ?_⟩
  by_cases hplace : place = loc
  · rw [hplace, h.written, hfile]
  · exact h.keeps hplace

theorem stays_rewritten (hfile : d.tree.node? loc = some (.file content)) :
    d.Stays ((d.setFile loc ⟨#[]⟩).setFile loc content) := by
  have hempty := writes_setFile_file hfile ⟨#[]⟩
  have hagain := writes_setFile_file hempty.written content
  exact (hempty.trans hagain).stays hfile

theorem copy_error {e : IoError} (h : d.copy src dst = (.error e, left)) : left = d := by
  unfold copy at h
  split at h
  · exact (congrArg Prod.snd h).symm
  split at h
  · split at h
    · exact (congrArg Prod.snd h).symm
    · split at h
      · cases h
      · cases h
  · exact (congrArg Prod.snd h).symm

/-- What was copied is copied to the same place again. A file that was copied onto itself is
empty, and stays so. -/
theorem copy_again {bytes : Nat} (hread : d.read src = .ok c)
    (h : d.copy src dst = (.ok bytes, left)) :
    ∃ final, left.copy src dst = (.ok bytes, final) ∧ left.Stays final := by
  obtain ⟨source, hsource, hfile⟩ := read_eq_ok_iff.mp hread
  rw [copy_eq hsource hfile] at h
  cases hopen : d.openEmpty dst with
  | error e =>
    rw [hopen] at h
    cases h
  | ok result =>
    obtain ⟨loc, opened⟩ := result
    simp only [hopen, Prod.mk.injEq, Except.ok.injEq] at h
    obtain ⟨rfl, rfl⟩ := h
    have hw := (openEmpty_ok hopen).1
    generalize hcontent : (if source = loc then ⟨#[]⟩ else c) = content
    have hw' := writes_setFile_file hw.written content
    have hagain := openEmpty_again hopen hw'.grows hw'.written
    have hsource' := locate_grow (hw.trans hw').grows hsource
    have hkept : (opened.setFile loc content).tree.node? source = some (.file content) := by
      rw [(hw.trans hw').node]
      split
      · rfl
      next hne => rw [hfile, ← hcontent, if_neg hne]
    have hrest : (if source = loc then ⟨#[]⟩ else content) = content := by
      rw [← hcontent]
      split <;> rfl
    refine ⟨_, ?_, stays_rewritten hw'.written⟩
    rw [copy_eq hsource' hkept, hagain]
    dsimp only
    rw [hrest]

section Deliver

variable {delivery : Delivery}

theorem place_error {size : Nat} {e : BuildError} (h : d.place src dst size = (.error e, left)) :
    left = d ∧ ∃ cause, e = .io dst cause := by
  unfold place at h
  split at h
  · cases h
  rcases hcopy : d.copy src dst with ⟨cause | bytes, after⟩
  · rw [hcopy] at h
    cases h
    exact ⟨copy_error hcopy, cause, rfl⟩
  · rw [hcopy] at h
    cases h

theorem place_source (hread : d.read src = .ok c)
    (h : d.place src dst c.size = (.ok delivery, left)) :
    (¬ d.Entangled src dst → left.read src = .ok c ∧ delivery.bytes = c.size) ∧
      (d.Entangled src dst → left.read src = .ok ⟨#[]⟩ ∧ delivery.bytes = 0) := by
  rcases place_ok h with ⟨rfl, hbytes, hsame⟩ | ⟨hsame, hcopy⟩
  · exact ⟨fun _ => ⟨hread, hbytes⟩, fun hent => absurd hent (not_entangled_of_same hsame)⟩
  obtain ⟨source, hsource, hfile⟩ := read_eq_ok_iff.mp hread
  obtain ⟨loc, content, hw, hloc, hbytes, hcontent, hbefore⟩ := copy_ok hsource hfile hcopy
  rw [entangled_iff_of_copy hsource hw.grows hloc hbefore hsame]
  refine ⟨fun hne => ?_, fun heq => ?_⟩
  · rw [if_neg hne] at hcontent
    subst hcontent
    exact ⟨read_grow hw.grows hsource ((hw.keeps hne).trans hfile), hbytes⟩
  · rw [if_pos heq] at hcontent
    subst hcontent
    exact ⟨read_grow hw.grows hsource (heq ▸ hw.written), hbytes⟩

theorem place_source_iff (hread : d.read src = .ok c)
    (h : d.place src dst c.size = (.ok delivery, left)) :
    (left.read src = .ok c ↔ c.size = 0 ∨ ¬ d.Entangled src dst) ∧
      (delivery.bytes = c.size ↔ c.size = 0 ∨ ¬ d.Entangled src dst) := by
  obtain ⟨hkept, hemptied⟩ := place_source hread h
  by_cases hent : d.Entangled src dst
  · obtain ⟨hsource, hbytes⟩ := hemptied hent
    have hempty : c = ⟨#[]⟩ ↔ c.size = 0 := ByteArray.size_eq_zero_iff.symm
    rw [hsource, hbytes, Except.ok.injEq, eq_comm, hempty, eq_comm (b := c.size)]
    simp [hent]
  · obtain ⟨hsource, hbytes⟩ := hkept hent
    simp [hent, hsource, hbytes]

theorem place_again (hread : d.read src = .ok c)
    (h : d.place src dst c.size = (.ok delivery, left)) :
    ∃ content again final, left.read src = .ok content ∧
      left.place src dst content.size = (.ok again, final) ∧ again.bytes = delivery.bytes ∧
      left.Stays final := by
  rcases place_ok h with ⟨rfl, -, -⟩ | ⟨-, hcopy⟩
  · exact ⟨c, delivery, left, hread, h, rfl, .refl left⟩
  obtain ⟨content, hsource, hbytes, -⟩ := place_content hread h
  obtain ⟨final, hagain, hstays⟩ := copy_again hread hcopy
  -- the destination is there now, so that its place may be told only the second time
  by_cases hsame : left.same src dst = true
  · exact ⟨content, ⟨content.size, false⟩, left, hsource, by rw [place, if_pos hsame],
      hbytes.symm, .refl left⟩
  · exact ⟨content, ⟨delivery.bytes, true⟩, final, hsource, by rw [place, if_neg hsame, hagain],
      rfl, hstays⟩

theorem deliver_error {e : BuildError} (hread : d.read src = .ok c)
    (h : d.deliver src dst = (.error e, left)) : left.read src = .ok c := by
  have hready := read_makeParent hread dst
  rw [deliver, size_of_read hread] at h
  dsimp only at h
  rcases hmake : d.makeParent dst with ⟨e' | ⟨⟩, ready⟩
  · rw [hmake] at h hready
    cases h
    exact hready
  · rw [hmake] at h hready
    exact (place_error h).1 ▸ hready

theorem deliver_again (hread : d.read src = .ok c)
    (h : d.deliver src dst = (.ok delivery, left)) :
    ∃ again final, left.deliver src dst = (.ok again, final) ∧
      again.bytes = delivery.bytes ∧ left.Stays final := by
  obtain ⟨hmade, hplace⟩ := deliver_ok hread h
  have hready := read_makeParent hread dst
  have hgrows : (d.makeParent dst).2.Grows left := by
    rcases place_changes hready hplace with heq | ⟨loc, content, hw, -⟩
    · exact heq ▸ .refl _
    · exact hw.grows
  obtain ⟨content, again, final, hsource, hagain, hbytes, hstays⟩ := place_again hready hplace
  refine ⟨again, final, ?_, hbytes, hstays⟩
  rw [deliver, size_of_read hsource]
  dsimp only
  rw [makeParent_again hmade hgrows]
  exact hagain

/-- A delivery keeps its source, and leaves the same content at the destination with nothing
else changed, unless the two are one file and this cannot be told; then the file is emptied.
A second delivery finds all done. -/
theorem deliver_keeps {result : Except BuildError Delivery} (hread : d.read src = .ok c)
    (h : d.deliver src dst = (result, left)) :
    (left.read src = .ok c ↔ c.size = 0 ∨ (∀ delivery, result ≠ .ok delivery) ∨
      ¬ (d.makeParent dst).2.Entangled src dst) ∧
    ∀ delivery, result = .ok delivery →
      (left.read dst = .ok c ↔ dst.text.utf8ByteSize ≤ maxPath ∧
        (c.size = 0 ∨ ¬ (d.makeParent dst).2.Entangled src dst)) ∧
      (delivery.bytes = c.size ↔ c.size = 0 ∨ ¬ (d.makeParent dst).2.Entangled src dst) ∧
      d.Receives left dst ∧
      ∃ again final, left.deliver src dst = (.ok again, final) ∧
        again.bytes = delivery.bytes ∧ left.Stays final := by
  cases result with
  | error e =>
    have hsource := deliver_error hread h
    refine ⟨⟨fun _ => .inr (.inl nofun), fun _ => hsource⟩, nofun⟩
  | ok delivery =>
    have hready := read_makeParent hread dst
    have hplace := (deliver_ok hread h).2
    obtain ⟨hsource, hbytes⟩ := place_source_iff hready hplace
    refine ⟨hsource.trans (or_congr_right (or_iff_right fun hfail => ?_).symm), ?_⟩
    · exact hfail delivery rfl
    · rintro told htold
      obtain rfl := Except.ok.inj htold
      exact ⟨place_reads_iff hready hplace, hbytes, deliver_receives hread h, deliver_again hread h⟩

/-- A file, and a link to it. -/
def sampleDisk : Disk :=
  let tree := FileSystem.empty.put [] ⟨"s".toUTF8, by decide +kernel⟩ (.file ⟨#[1]⟩)
  ⟨tree.put [] ⟨"l".toUTF8, by decide +kernel⟩ (.link "s".toUTF8), []⟩

theorem deliver_keeps_sample :
    ∃ left, sampleDisk.deliver ⟨"/s"⟩ ⟨"/l"⟩ = (.ok ⟨1, false⟩, left) ∧
      left.read ⟨"/s"⟩ = .ok ⟨#[1]⟩ ∧ left.read ⟨"/l"⟩ = .ok ⟨#[1]⟩ := by
  have hread : sampleDisk.read ⟨"/s"⟩ = .ok ⟨#[1]⟩ := by decide +kernel
  have hready : (sampleDisk.makeParent ⟨"/l"⟩).2.same ⟨"/s"⟩ ⟨"/l"⟩ = true := by decide +kernel
  have hdeliver : (sampleDisk.deliver ⟨"/s"⟩ ⟨"/l"⟩).1 = .ok ⟨1, false⟩ := by decide +kernel
  have h : sampleDisk.deliver ⟨"/s"⟩ ⟨"/l"⟩ =
      (.ok ⟨1, false⟩, (sampleDisk.deliver ⟨"/s"⟩ ⟨"/l"⟩).2) := Prod.ext hdeliver rfl
  obtain ⟨hsource, hok⟩ := deliver_keeps hread h
  obtain ⟨hdst, -⟩ := hok _ rfl
  have hapart := not_entangled_of_same hready
  exact ⟨_, h, hsource.mpr (.inr (.inr hapart)), hdst.mpr ⟨by decide, .inr hapart⟩⟩

end Deliver

end Disk

end WasmBuild
