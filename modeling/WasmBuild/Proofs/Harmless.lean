import WasmBuild.Proofs.Halfway

/-! Deliveries that fail. Nothing is lost by one: directories on the way to the destination may
have been made, and nothing else is touched. The error tells how far the delivery has come. -/

namespace WasmBuild

namespace Disk

variable {d made left : Disk} {p dir src dst : Path} {loc : Location} {cause : IoError}
  {e : BuildError}

/-- The directory for a path is there. The empty path stands for where the process is. -/
def HasParent (d : Disk) (p : Path) : Prop :=
  ∀ dir, p.parent? = some dir → dir.text = "" ∨ d.isDir dir = true

theorem hasParent_of_isDir (h : d.isDir p = true) : d.HasParent p := by
  intro dir hparent
  obtain ⟨loc, hloc, -⟩ := isDir_iff.mp h
  rcases Path.continues_of_parent hparent with hempty | ⟨back, hback, hcontinues⟩
  · exact .inl hempty
  · exact .inr (isDir_outer hcontinues hback hloc)

theorem not_isDir_of_outcome {ready : Disk} {failure : IoError}
    (h : (if ready.isDir p then .ok () else .error failure, ready) =
      ((.error cause, left) : Except IoError Unit × Disk)) : left.isDir p = false := by
  obtain ⟨hresult, rfl⟩ := Prod.mk.inj h
  by_cases hdir : ready.isDir p = true
  · rw [if_pos hdir] at hresult
    cases hresult
  · simpa using hdir

/-- Directories cannot be made only where there is none in the end. -/
theorem makeAlong_error {paths : List Path} (hpaths : p.ancestors = paths)
    (h : d.makeAlong paths = (.error cause, left)) : p.text ≠ "" ∧ left.isDir p = false := by
  induction paths generalizing p left cause with
  | nil => cases hpaths
  | cons q outer ih =>
    obtain ⟨rfl, houter⟩ := List.cons.inj hpaths
    rw [makeAlong] at h
    split at h
    · cases h
    next htext =>
    refine ⟨htext, ?_⟩
    cases hmake : d.makeDir p with
    | ok made =>
      rw [hmake] at h
      cases h
    | error first =>
      rw [hmake] at h
      dsimp only at h
      split at h
      · rcases hrest : d.makeAlong outer with ⟨failure | ⟨⟩, rest⟩
        · rw [hrest] at h
          cases h
          -- the path is no directory since the one around it is none
          by_contra hdir
          cases hparent : p.parent? with
          | none =>
            rw [← houter, List.head?_eq_none_iff.mp hparent] at hrest
            cases hrest
          | some dir =>
            have hancestors : dir.ancestors = outer :=
              (Path.ancestors_of_parent hparent).trans houter
            obtain ⟨hsome, hnot⟩ := ih hancestors hrest
            rcases hasParent_of_isDir (by simpa using hdir) dir hparent with hempty | hthere
            · exact hsome hempty
            · rw [hnot] at hthere
              cases hthere
        · rw [hrest] at h
          dsimp only at h
          cases hagain : rest.makeDir p with
          | ok made =>
            rw [hagain] at h
            cases h
          | error second =>
            rw [hagain] at h
            exact not_isDir_of_outcome h
      · exact not_isDir_of_outcome h

theorem hasParent_of_makeParent (h : d.makeParent p = (.ok (), left)) : left.HasParent p := by
  intro dir hparent
  unfold makeParent at h
  rw [hparent] at h
  dsimp only at h
  rcases hmake : d.makeDirs dir with ⟨failure | ⟨⟩, made⟩
  · rw [hmake] at h
    cases h
  · rw [hmake] at h
    cases h
    exact makeAlong_ok hmake

theorem makeParent_error (h : d.makeParent p = (.error e, left)) :
    ¬left.HasParent p ∧ ∃ dir cause, p.parent? = some dir ∧ e = .io dir cause := by
  unfold makeParent at h
  cases hparent : p.parent? with
  | none =>
    rw [hparent] at h
    cases h
  | some dir =>
    rw [hparent] at h
    dsimp only at h
    rcases hmake : d.makeDirs dir with ⟨failure | ⟨⟩, made⟩
    · rw [hmake] at h
      cases h
      obtain ⟨hsome, hnot⟩ := makeAlong_error rfl hmake
      refine ⟨fun hstands => ?_, dir, failure, rfl, rfl⟩
      rcases hstands dir hparent with hempty | hthere
      · exact hsome hempty
      · rw [hnot] at hthere
        cases hthere
    · rw [hmake] at h
      cases h

theorem size_of_locate (h : d.locate p = .ok loc) : ∃ size, d.size p = .ok size := by
  rw [size, h]
  dsimp only
  split
  · exact ⟨_, rfl⟩
  · exact ⟨_, rfl⟩

theorem deliver_unresolved (h : d.locate src = .error cause) (dst : Path) :
    d.deliver src dst = (.error (.io src cause), d) := by
  rw [deliver, size, h]

theorem deliver_of_made {ready : Disk} (hsrc : d.locate src = .ok loc)
    (hmake : d.makeParent dst = (.ok (), ready)) :
    ∃ size, d.deliver src dst = ready.place src dst size := by
  obtain ⟨size, hsize⟩ := size_of_locate hsrc
  refine ⟨size, ?_⟩
  rw [deliver, hsize]
  dsimp only
  rw [hmake]

theorem deliver_of_unmade (hsrc : d.locate src = .ok loc)
    (hmake : d.makeParent dst = (.error e, left)) : d.deliver src dst = (.error e, left) := by
  obtain ⟨size, hsize⟩ := size_of_locate hsrc
  rw [deliver, hsize]
  dsimp only
  rw [hmake]

theorem makeParent_of_makeDirs (hparent : p.parent? = some dir)
    (hmake : d.makeDirs dir = (.error cause, made)) :
    d.makeParent p = (.error (.io dir cause), made) := by
  rw [makeParent, hparent]
  dsimp only
  rw [hmake]

theorem deliver_error_cases (h : d.deliver src dst = (.error e, left)) :
    (left = d ∧ ∃ cause, d.locate src = .error cause ∧ e = .io src cause) ∨
      (∃ loc, d.locate src = .ok loc) ∧ (d.makeParent dst).2 = left ∧
        ((¬left.HasParent dst ∧ ∃ dir cause, dst.parent? = some dir ∧ e = .io dir cause) ∨
          left.HasParent dst ∧ ∃ cause, e = .io dst cause) := by
  cases hsrc : d.locate src with
  | error cause =>
    rw [deliver_unresolved hsrc] at h
    cases h
    exact .inl ⟨rfl, cause, rfl, rfl⟩
  | ok loc =>
    refine .inr ⟨⟨loc, rfl⟩, ?_⟩
    rcases hmake : d.makeParent dst with ⟨failure | ⟨⟩, ready⟩
    · rw [deliver_of_unmade hsrc hmake] at h
      cases h
      exact ⟨rfl, .inl (makeParent_error hmake)⟩
    · obtain ⟨size, hdeliver⟩ := deliver_of_made hsrc hmake
      rw [hdeliver] at h
      obtain ⟨rfl, hcause⟩ := place_error h
      exact ⟨rfl, .inr ⟨hasParent_of_makeParent hmake, hcause⟩⟩

/-- A delivery that fails harms nothing: all that it leaves behind is directories to which the
parents of the destination lead. Without a source nothing is tried, without a directory for the
destination nothing is opened, and the error names what has failed. -/
theorem deliver_harmless (d : Disk) (src dst : Path) :
    (∀ cause, d.locate src = .error cause →
      d.deliver src dst = (.error (.io src cause), d)) ∧
    (∀ loc dir cause made, d.locate src = .ok loc → dst.parent? = some dir →
      d.makeDirs dir = (.error cause, made) →
        d.deliver src dst = (.error (.io dir cause), made) ∧ ¬made.HasParent dst) ∧
    ∀ e left, d.deliver src dst = (.error e, left) →
      d.Adds left dst.parents ∧
        ∀ loc, d.locate src = .ok loc →
          (¬left.HasParent dst ∧ ∃ dir cause, dst.parent? = some dir ∧ e = .io dir cause) ∨
            left.HasParent dst ∧ ∃ cause, e = .io dst cause := by
  refine ⟨fun cause hsrc => deliver_unresolved hsrc dst, ?_, fun e left h => ?_⟩
  · intro loc dir cause made hsrc hparent hmake
    have hfailed := makeParent_of_makeDirs hparent hmake
    exact ⟨deliver_of_unmade hsrc hfailed, (makeParent_error hfailed).1⟩
  · rcases deliver_error_cases h with ⟨rfl, cause, hsrc, -⟩ | ⟨-, hleft, hcause⟩
    · refine ⟨.refl left _, fun loc hloc => ?_⟩
      rw [hsrc] at hloc
      cases hloc
    · exact ⟨hleft ▸ makeParent_adds d dst, fun _ _ => hcause⟩

theorem deliver_harmless_sample :
    sampleDisk.deliver ⟨"/t"⟩ ⟨"/a/b"⟩ = (.error (.io ⟨"/t"⟩ (.os .noEntry)), sampleDisk) ∧
      (∃ left, sampleDisk.deliver ⟨"/l"⟩ ⟨"/a/../s/b/c"⟩ =
          (.error (.io ⟨"/a/../s/b"⟩ (.os .alreadyExists)), left) ∧
        ¬left.HasParent ⟨"/a/../s/b/c"⟩) ∧
      ∃ left cause, sampleDisk.deliver ⟨"/l"⟩ ⟨"/a/b/"⟩ = (.error (.io ⟨"/a/b/"⟩ cause), left) ∧
        sampleDisk.Adds left [⟨"/a"⟩, ⟨"/"⟩] := by
  have hsource : ∃ loc, sampleDisk.locate ⟨"/l"⟩ = .ok loc :=
    ⟨[⟨"s".toUTF8, by decide +kernel⟩], by decide +kernel⟩
  obtain ⟨source, hsource⟩ := hsource
  refine ⟨?_, ?_, ?_⟩
  · have hmissing : sampleDisk.locate ⟨"/t"⟩ = .error (.os .noEntry) := by decide +kernel
    exact (deliver_harmless sampleDisk ⟨"/t"⟩ ⟨"/a/b"⟩).1 _ hmissing
  · have hparent : (Path.mk "/a/../s/b/c").parent? = some ⟨"/a/../s/b"⟩ := by decide
    have hmake : (sampleDisk.makeDirs ⟨"/a/../s/b"⟩).1 = .error (.os .alreadyExists) := by
      decide +kernel
    rcases h : sampleDisk.makeDirs ⟨"/a/../s/b"⟩ with ⟨result, made⟩
    rw [h] at hmake
    obtain rfl : result = .error (.os .alreadyExists) := hmake
    exact ⟨made, (deliver_harmless sampleDisk ⟨"/l"⟩ ⟨"/a/../s/b/c"⟩).2.1 source _ _ _ hsource
      hparent h⟩
  · have hparent : (Path.mk "/a/b/").parent? = some ⟨"/a"⟩ := by decide
    have hmade : (sampleDisk.deliver ⟨"/l"⟩ ⟨"/a/b/"⟩).2.isDir ⟨"/a"⟩ = true := by decide +kernel
    have hfails : (sampleDisk.deliver ⟨"/l"⟩ ⟨"/a/b/"⟩).1.toOption = none := by decide +kernel
    rcases h : sampleDisk.deliver ⟨"/l"⟩ ⟨"/a/b/"⟩ with ⟨e | delivery, left⟩
    · obtain ⟨hadds, hcause⟩ := (deliver_harmless sampleDisk ⟨"/l"⟩ ⟨"/a/b/"⟩).2.2 e left h
      rcases hcause source hsource with ⟨hnot, -⟩ | ⟨-, cause, rfl⟩
      · refine absurd (fun dir hdir => .inr ?_) hnot
        obtain rfl : Path.mk "/a" = dir := Option.some.inj (hparent.symm.trans hdir)
        rwa [h] at hmade
      · exact ⟨left, cause, rfl, hadds⟩
    · rw [h] at hfails
      cases hfails

end Disk

end WasmBuild
