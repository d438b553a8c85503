import WasmBuild.Delivery
import WasmBuild.Proofs.Pieces
import WasmBuild.Proofs.Places

/-! The making of directories. All that is added is directories, and each of them is one to
which a given path leads afterwards. -/

namespace WasmBuild

namespace FileSystem

/-- A spot that is claimed holds what is put there, with a slash at the end or without. -/
theorem Walk.fill_claim {fs after : FileSystem} {route : Route} {cwd dir : Location} {name : Name}
    (hg : fs.Grows after) (hnode : after.node? (name :: dir) = some .dir)
    (hroute : route.steps.filter (· ≠ .slash) = route.steps ∨
      route.steps = route.steps.filter (· ≠ .slash) ++ [.slash])
    (h : fs.reach .claim cwd route = .ok (.vacant dir name)) :
    after.reach .find cwd route = .ok (.found (name :: dir)) := by
  rw [reach_eq_ok_iff] at h ⊢
  obtain ⟨hne, hwalk⟩ := h
  have hfound := hwalk.fill hg rfl hnode Node.isSolid_dir
  rw [stepsFor, if_pos rfl] at hfound
  refine ⟨hne, ?_⟩
  rw [stepsFor_of_ne_claim (by decide)]
  rcases hroute with hroute | hroute
  · rwa [hroute] at hfound
  · rw [hroute]
    exact hfound.append_slash rfl hnode

end FileSystem

namespace Disk

open FileSystem

/-- What differs after the making of directories to which the paths lead. -/
structure Adds (before after : Disk) (paths : List Path) : Prop where
  cwd : after.cwd = before.cwd
  node : ∀ loc, after.tree.node? loc = before.tree.node? loc ∨
    before.tree.node? loc = none ∧ after.tree.node? loc = some .dir ∧
      ∃ p ∈ paths, after.locate p = .ok loc

namespace Adds

variable {before after : Disk} {paths : List Path}

theorem refl (d : Disk) (paths : List Path) : d.Adds d paths := ⟨rfl, fun _ => .inl rfl⟩

theorem keeps (h : before.Adds after paths) {loc : Location} {node : Node}
    (hnode : before.tree.node? loc = some node) : after.tree.node? loc = some node := by
  rcases h.node loc with heq | ⟨hnone, -, -⟩
  · rw [heq, hnode]
  · rw [hnone] at hnode
    cases hnode

theorem grows (h : before.Adds after paths) : before.Grows after where
  cwd := h.cwd
  tree := ⟨fun _ hdir => h.keeps hdir, fun _ _ hlink => h.keeps hlink,
    fun _ content hfile => ⟨content, h.keeps hfile⟩⟩

theorem mono {more : List Path} (h : before.Adds after paths) (hsub : paths ⊆ more) :
    before.Adds after more := by
  refine ⟨h.cwd, fun loc => ?_⟩
  rcases h.node loc with heq | ⟨hnone, hdir, p, hp, hloc⟩
  · exact .inl heq
  · exact .inr ⟨hnone, hdir, p, hsub hp, hloc⟩

theorem trans {first second third : Disk} (h : first.Adds second paths)
    (h' : second.Adds third paths) : first.Adds third paths := by
  refine ⟨h'.cwd.trans h.cwd, fun loc => ?_⟩
  rcases h.node loc with heq | ⟨hnone, hdir, p, hp, hloc⟩
  · rcases h'.node loc with heq' | ⟨hnone', hdir', hp'⟩
    · exact .inl (heq'.trans heq)
    · exact .inr ⟨heq ▸ hnone', hdir', hp'⟩
  · exact .inr ⟨hnone, h'.keeps hdir, p, hp, locate_grow h'.grows hloc⟩

end Adds

theorem makeDir_adds {d made : Disk} {p : Path} (h : d.makeDir p = .ok made) :
    d.Adds made [p] := by
  unfold makeDir at h
  split at h
  · cases h
  · cases h
  next dir name hreach =>
  cases h
  obtain ⟨hsize, hfollow⟩ := reach_eq_ok_iff.mp hreach
  obtain ⟨hnul, hspot⟩ := follow_eq_ok_iff.mp hfollow
  obtain ⟨hdir, hnone⟩ := (FileSystem.reach_eq_ok_iff.mp hspot).2.vacant_spot rfl
  have hput := @node?_put d.tree dir name .dir hdir fun _ => rfl
  have hnew : (d.tree.put dir name .dir).node? (name :: dir) = some .dir := by
    rw [hput, if_pos rfl]
  refine ⟨rfl, fun loc => ?_⟩
  by_cases hloc : loc = name :: dir
  · subst hloc
    refine .inr ⟨hnone, hnew, p, List.mem_singleton_self p, ?_⟩
    rw [locate_eq_ok_iff, follow_eq_ok_iff]
    exact ⟨hsize, hnul, Walk.fill_claim (grows_put_vacant .dir hnone) hnew
      ((Route.steps_ofPath p).imp_left Eq.symm) hspot⟩
  · exact .inl (by rw [hput, if_neg hloc])

theorem makeAlong_adds (d : Disk) (paths : List Path) : d.Adds (d.makeAlong paths).2 paths := by
  induction paths with
  | nil => exact .refl d _
  | cons p outer ih =>
    have hhead : ∀ {old made : Disk}, old.makeDir p = .ok made → old.Adds made (p :: outer) :=
      fun h => (makeDir_adds h).mono (List.cons_subset_cons p (List.nil_subset outer))
    rw [makeAlong]
    split
    · exact .refl d _
    cases hmake : d.makeDir p with
    | ok made => exact hhead hmake
    | error e =>
      dsimp only
      split
      · rcases hrest : d.makeAlong outer with ⟨e' | ⟨⟩, left⟩
        · exact (hrest ▸ ih).mono (List.subset_cons_self p outer)
        · have hleft : d.Adds left (p :: outer) := (hrest ▸ ih).mono (List.subset_cons_self p outer)
          dsimp only
          cases hagain : left.makeDir p with
          | ok made => exact hleft.trans (hhead hagain)
          | error e' => exact hleft
      · exact .refl d _

theorem makeParent_adds (d : Disk) (p : Path) : d.Adds (d.makeParent p).2 p.parents := by
  unfold makeParent
  cases hparent : p.parent? with
  | none => exact .refl d _
  | some dir =>
    have hadds := makeAlong_adds d p.parents
    dsimp only
    rw [makeDirs, Path.ancestors_of_parent hparent]
    rcases hmake : d.makeAlong p.parents with ⟨e | ⟨⟩, left⟩
    · rw [hmake] at hadds
      exact hadds
    · rw [hmake] at hadds
      exact hadds

end Disk

end WasmBuild
