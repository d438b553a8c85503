import WasmBuild.Proofs.Canonical
import WasmBuild.Proofs.LogLines
import WasmBuild.Proofs.Twins

/-! Variables that are set to the empty text, against variables that are not set. The
configuration takes them for the same, and so does a tool that follows a script. The filter of
the log does not: an empty one hides what `-v` asks for. -/

namespace WasmBuild

namespace Environment

namespace Block

variable {block : Block} {name other : ByteArray}

/-- The variables but one. -/
def unset (block : Block) (name : ByteArray) : Block :=
  ⟨block.entries.filter fun entry => (binding? entry).all fun b => b.1 ≠ name⟩

/-- The variable is set, and to nothing but the empty text. -/
structure SetEmpty (block : Block) (name : ByteArray) : Prop where
  isSet : ∃ b ∈ block.bindings, b.1 = name
  empty : ∀ b ∈ block.bindings, b.1 = name → b.2 = ⟨#[]⟩

theorem bindings_unset (block : Block) (name : ByteArray) :
    (block.unset name).bindings = block.bindings.filter fun b => b.1 ≠ name := by
  rw [bindings, bindings, unset, List.filterMap_filter, List.filter_filterMap]
  refine List.filterMap_congr fun entry _ => ?_
  cases binding? entry with
  | none => rfl
  | some b => by_cases h : b.1 = name <;> simp [Option.filter, h]

theorem find?_unset (h : other ≠ name) (bindings : List Binding) :
    (bindings.filter fun b => b.1 ≠ name).find? (fun b => b.1 = other) =
      bindings.find? fun b => b.1 = other := by
  rw [List.find?_filter]
  congr 1
  funext b
  by_cases hb : b.1 = other
  · simp [hb, h]
  · simp [hb]

theorem first?_unset (h : other ≠ name) (block : Block) :
    (block.unset name).first? other = block.first? other := by
  rw [first?, first?, bindings_unset, find?_unset h]

theorem first?_unset_self (block : Block) (name : ByteArray) :
    (block.unset name).first? name = none := by
  rw [first?, bindings_unset, List.find?_filter]
  simp

theorem SetEmpty.first?_eq (h : block.SetEmpty name) : block.first? name = some ⟨#[]⟩ := by
  rw [first?]
  cases hfind : block.bindings.find? fun b => b.1 = name with
  | none =>
    obtain ⟨b, hb, hname⟩ := h.isSet
    have hnone := List.find?_eq_none.mp hfind b hb
    simp [hname] at hnone
  | some b =>
    have hname : b.1 = name := by simpa using List.find?_some hfind
    rw [Option.map_some, h.empty b (List.mem_of_find?_eq_some hfind) hname]

end Block

section Process

variable {block : Block} {name key : String}

theorem vars_unset (block : Block) (name : String) :
    (ofProcess (block.unset name.toUTF8)).vars =
      (ofProcess block).vars.filter fun a => a.1 != name := by
  rw [ofProcess, ofProcess, Block.bindings_unset, List.filterMap_filter, List.filter_filterMap]
  refine List.filterMap_congr fun ⟨key, value⟩ _ => ?_
  dsimp only
  cases hkey : String.fromUTF8? key with
  | none => simp
  | some text =>
    cases hvalue : String.fromUTF8? value with
    | none => simp
    | some text' =>
      obtain rfl := Text.fromUTF8?_eq_some_iff.mp hkey
      by_cases h : text = name
      · simp [h, Option.filter]
      · simp [h, String.toByteArray_inj, Option.filter]

theorem mem_vars {value : String} (h : (key, value) ∈ (ofProcess block).vars) :
    (key.toUTF8, value.toUTF8) ∈ block.bindings := by
  obtain ⟨⟨bytes, bytes'⟩, hmem, hread⟩ := List.mem_filterMap.mp h
  dsimp only at hread
  cases hkey : String.fromUTF8? bytes with
  | none => simp [hkey] at hread
  | some text =>
    cases hvalue : String.fromUTF8? bytes' with
    | none => simp [hkey, hvalue] at hread
    | some text' =>
      simp only [hkey, hvalue] at hread
      cases hread
      rw [Text.fromUTF8?_eq_some_iff] at hkey hvalue
      exact hkey ▸ hvalue ▸ hmem

theorem get?_unset (h : block.SetEmpty name.toUTF8) (key : String) :
    (ofProcess (block.unset name.toUTF8)).get? key = (ofProcess block).get? key := by
  rw [get?, get?, last?, last?, vars_unset, ← List.filter_reverse,
    Flags.lookup_filter fun k => k != name]
  by_cases hkey : key = name
  · subst hkey
    rw [bne_self_eq_false, if_neg Bool.false_ne_true]
    cases hlast : (ofProcess block).vars.reverse.lookup key with
    | none => rfl
    | some value =>
      obtain ⟨before, after, hsplit, -⟩ := List.lookup_eq_some_iff.mp hlast
      have hmem : (key, value) ∈ (ofProcess block).vars := by
        rw [← List.mem_reverse, hsplit]
        simp
      have hempty : value.toUTF8 = "".toUTF8 := h.empty _ (mem_vars hmem) rfl
      rw [String.toByteArray_inj.mp hempty]
      rfl
  · rw [if_pos (by simpa using hkey)]

end Process

namespace Block

variable {block : Block} {name : ByteArray} {bindings : List Binding}

/-- Of variables that are set one after the other, the last one of a name is found. -/
theorem last?_ofBindings_eq (h : ∀ b ∈ bindings, Settable b.1) (key : ByteArray) :
    (ofBindings bindings).last? key =
      (bindings.reverse.find? fun b => b.1 = key).map (·.2) := by
  cases hfind : bindings.reverse.find? fun b => b.1 = key with
  | none =>
    have hnone : (ofBindings bindings).bindings.reverse.find? (fun b => b.1 = key) = none := by
      refine List.find?_eq_none.mpr fun b hb => ?_
      have hkept := (bindings_ofBindings h).mem_iff.mp (List.mem_reverse.mp hb)
      have hmem := List.mem_reverse.mpr (lastOfEach_subset bindings hkept)
      exact List.find?_eq_none.mp hfind b hmem
    rw [last?, hnone]
  | some b =>
    obtain ⟨hkey, after, before, hsplit, hafter⟩ := List.find?_eq_some_iff_append.mp hfind
    obtain ⟨found, value⟩ := b
    obtain rfl : found = key := by simpa using hkey
    have hbindings : bindings = before.reverse ++ (found, value) :: after.reverse := by
      rw [← List.reverse_reverse bindings, hsplit]
      simp
    rw [hbindings] at h ⊢
    refine last?_ofBindings h fun later hm => ?_
    simpa using hafter later (List.mem_reverse.mp hm)

/-- Under the variables that are added, an empty one is as good as none. -/
theorem last?_unset (h : block.SetEmpty name) {own : List Binding}
    (hown : ∀ b ∈ own, Settable b.1) (key : ByteArray) :
    ((ofBindings ((block.unset name).bindings ++ own)).last? key).getD ⟨#[]⟩ =
      ((ofBindings (block.bindings ++ own)).last? key).getD ⟨#[]⟩ := by
  have hinherited (b : Binding) (hb : b ∈ block.bindings) : Settable b.1 := settable_of_mem hb
  have hkept : ∀ b ∈ (block.unset name).bindings, Settable b.1 := by
    intro b hb
    exact settable_of_mem hb
  rw [last?_ofBindings_eq (List.forall_mem_append.mpr ⟨hkept, hown⟩),
    last?_ofBindings_eq (List.forall_mem_append.mpr ⟨hinherited, hown⟩),
    List.reverse_append, List.reverse_append, List.find?_append, List.find?_append]
  cases own.reverse.find? fun b => b.1 = key with
  | some b => rfl
  | none =>
    rw [Option.none_or, Option.none_or, bindings_unset, ← List.filter_reverse]
    by_cases hkey : key = name
    · have hnone : (block.bindings.reverse.filter fun b => b.1 ≠ name).find?
          (fun b => b.1 = key) = none := by
        rw [List.find?_filter, hkey]
        simp
      rw [hnone]
      cases hfind : block.bindings.reverse.find? fun b => b.1 = key with
      | none => rfl
      | some b =>
        have hname : b.1 = name := by simpa [hkey] using List.find?_some hfind
        have hmem := List.mem_reverse.mp (List.mem_of_find?_eq_some hfind)
        rw [Option.map_some, h.empty b hmem hname]
        rfl
    · rw [find?_unset hkey]

end Block

end Environment

namespace Script

variable {env env' : Environment.Block} {cwd : Location} {args : List String}

/-- A tool that follows a script takes a variable that is not set for an empty one, apart from
those that it takes note of. -/
theorem run_unseen
    (h : ∀ key, (env'.last? key).getD ⟨#[]⟩ = (env.last? key).getD ⟨#[]⟩) (script : Script)
    (tool : String) (tree : FileSystem) :
    (script.run tool ⟨cwd, args, env'⟩ tree).unseen =
      (script.run tool ⟨cwd, args, env⟩ tree).unseen := by
  have hpath : Scene.path ⟨cwd, args, env'⟩ = Scene.path ⟨cwd, args, env⟩ := by
    funext path
    simp only [Scene.path, Scene.value, h]
  have hedit : Scene.edit ⟨cwd, args, env'⟩ = Scene.edit ⟨cwd, args, env⟩ := by
    funext e
    cases e <;> simp only [Scene.edit, hpath]
  have hact : Scene.act ⟨cwd, args, env'⟩ = Scene.act ⟨cwd, args, env⟩ := by
    funext state action
    cases action <;> simp only [Scene.act, hedit]
  simp only [run, hact]
  rfl

end Script

namespace Toolbox

open Environment (Block)

variable {block : Block} {name : ByteArray}

theorem tools_alike (box : Toolbox) (h : block.SetEmpty name) (hname : name ≠ searchKey.toUTF8) :
    (box.tools block).Alike (box.tools (block.unset name)) := by
  intro earlier d c hc
  have hfind (inside : Disk) : box.find (block.unset name) inside c = box.find block inside c := by
    rw [find, find, Block.first?_unset hname.symm]
  have hown : ∀ b ∈ c.env.map fun pair => (pair.1.toUTF8, pair.2.toUTF8),
      Environment.Settable b.1 := by
    intro b hb
    obtain ⟨pair, hpair, rfl⟩ := List.mem_map.mp hb
    exact Flags.settable_of_isIdentifier (hc pair hpair)
  simp only [tools, hfind]
  split
  · rfl
  · cases enter d c.cwd with
    | error e => rfl
    | ok inside =>
      simp only [bind, Except.bind]
      cases box.find block inside c with
      | error e => rfl
      | ok tool =>
        exact congrArg Except.ok (Script.run_unseen (Block.last?_unset h hown) tool.script _ d.tree)

end Toolbox

namespace Finished

variable {f f' : Finished}

theorem errorsOf_unseen (f : Finished) (e : Event) : f.errorsOf e.unseen = f.errorsOf e := by
  cases e <;> rfl

/-- With the same filter, what is seen does not depend on what the tools take note of. -/
theorem errors_eq_of_unseen (hfilter : f'.filter = f.filter)
    (hcomplaints : f'.complaints = f.complaints) (h : f'.world.unseen = f.world.unseen) :
    f'.errors = f.errors := by
  have herrorsOf : f'.errorsOf = f.errorsOf := by
    funext e
    cases e <;> simp only [errorsOf, hfilter]
  have hunseen (f : Finished) :
      f.world.unseen.trace.map f.errorsOf = f.world.trace.map f.errorsOf := by
    rw [World.unseen, List.map_map]
    exact List.map_congr_left fun e _ => f.errorsOf_unseen e
  rw [errors, errors, hcomplaints, ← hunseen f', ← hunseen f, h, herrorsOf]

/-- Two invocations that look the same, where one filter shows nothing graver than errors. -/
theorem errors_of_upTo_one (h : f'.world.unseen = f.world.unseen) (hfilter : f.filter = .upTo 1)
    (hcomplaints : f.complaints = []) (hcomplaints' : f'.complaints = []) (hmild : f.world.Mild) :
    f.errors = f.world.onChannel .errors ∧
      (f.errors = f'.errors ↔
        ∀ record, .log record ∈ f'.world.trace → f'.filter.allows record = false) := by
  have hsilent : f.errors = f.world.onChannel .errors := by
    refine (errors_eq_onChannel_iff hcomplaints).mpr fun record hm => ?_
    rw [hfilter]
    exact Log.Filter.allows_upTo_of_mild (by decide) (hmild record hm)
  refine ⟨hsilent, ?_⟩
  rw [hsilent, ← World.onChannel_eq_of_unseen h, ← errors_eq_onChannel_iff hcomplaints']
  exact eq_comm

end Finished

namespace Invocation

open CommandLine

variable {block : Environment.Block} {name : String}

theorem filterFor_unset (h : name ≠ "RESBUILD_LOG") (r : Request) (block : Environment.Block) :
    filterFor r (block.unset name.toUTF8) = filterFor r block := by
  have hne : logKey.toUTF8 ≠ name.toUTF8 := fun e => h (String.toByteArray_inj.mp e).symm
  rw [filterFor, filterFor, Environment.Block.first?_unset hne]

theorem filterFor_unset_self (r : Request) (block : Environment.Block) :
    filterFor r (block.unset "RESBUILD_LOG".toUTF8) = (.upTo (defaultRank r.verbose), []) := by
  rw [filterFor, logKey, Environment.Block.first?_unset_self]
  exact parse_defaultFilter r.verbose

theorem filterFor_setEmpty (h : block.SetEmpty "RESBUILD_LOG".toUTF8) (r : Request) :
    filterFor r block = (.upTo 1, []) := by
  have hempty : String.fromUTF8? ⟨#[]⟩ = some "" := Text.fromUTF8?_eq_some_iff.mpr rfl
  rw [filterFor, logKey, h.first?_eq, Option.bind_some, hempty]
  exact Log.Filter.parse_empty

theorem finish_mild [Toml.Dialect] (tools : Tools) (r : Request) (block : Environment.Block)
    (d : Disk) : (finish tools r block d).world.Mild := carryOut_mild tools r _ nofun

/-- What is the same in two invocations but for the log lines. -/
structure SameBeside (f f' : Finished) : Prop where
  status : f.status = f'.status
  output : f.output = f'.output
  launches : f.world.launches = f'.world.launches
  calls : f.world.calls = f'.world.calls
  tree : f.world.disk.tree = f'.world.disk.tree

theorem SameBeside.of_unseen {f f' : Finished} (hstatus : f'.status = f.status)
    (h : f'.world.unseen = f.world.unseen) : SameBeside f f' where
  status := hstatus.symm
  output := (World.onChannel_eq_of_unseen h .output).symm
  launches := (World.launches_eq_of_unseen h).symm
  calls := (World.calls_eq_of_unseen h).symm
  tree := (congrArg Disk.tree (World.disk_eq_of_unseen h)).symm

/-- With tools that take a variable that is not set for an empty one, an invocation does the same
whether a variable is empty or not set, and shows the same, unless it is that of the log. An empty
filter shows no log line, so then all is the same just when there would be none to show, as there
is not without `-v`. -/
theorem run_unset [Toml.Dialect] (tools : Environment.Block → Tools) (args : List Token)
    (block : Environment.Block) (d : Disk) (name : String)
    (hempty : block.SetEmpty name.toUTF8)
    (htools : (tools block).Alike (tools (block.unset name.toUTF8))) :
    let result := run (tools block) args block d
    let result' := run (tools (block.unset name.toUTF8)) args (block.unset name.toUTF8) d
    (∃ usage, result = .error usage ∧ result' = .error usage) ∨
      ∃ r f f', parse args = .ok r ∧ result = .ok f ∧ result' = .ok f' ∧ SameBeside f f' ∧
        (name ≠ "RESBUILD_LOG" → f.errors = f'.errors) ∧
        (name = "RESBUILD_LOG" → f.errors = f.world.onChannel .errors ∧
          (r.verbose = 0 → f.errors = f'.errors) ∧
          (f.errors = f'.errors ↔
            ∀ record, .log record ∈ f'.world.trace → f'.filter.allows record = false)) := by
  intro result result'
  cases hp : parse args with
  | error u => exact .inl ⟨u, run_of_usage hp _ _ _, run_of_usage hp _ _ _⟩
  | ok r =>
    let f := finish (tools block) r block d
    let f' := finish (tools (block.unset name.toUTF8)) r (block.unset name.toUTF8) d
    have htwin := carryOut_twin htools (Environment.get?_unset hempty) r ⟨d, []⟩
    have hstatus : f'.status = f.status := htwin.1
    have hworld : f'.world.unseen = f.world.unseen := htwin.2
    refine .inr ⟨r, f, f', rfl, run_of_request hp _ _ _, run_of_request hp _ _ _,
      .of_unseen hstatus hworld, fun hname => ?_, ?_⟩
    · have hfilter := filterFor_unset hname r block
      exact (Finished.errors_eq_of_unseen (congrArg Prod.fst hfilter) (congrArg Prod.snd hfilter)
        hworld).symm
    · rintro rfl
      have hfilter := filterFor_setEmpty hempty r
      have hfilter' := filterFor_unset_self r block
      obtain ⟨hsilent, hiff⟩ := Finished.errors_of_upTo_one hworld (congrArg Prod.fst hfilter)
        (congrArg Prod.snd hfilter) (congrArg Prod.snd hfilter') (finish_mild _ r block d)
      refine ⟨hsilent, fun hverbose => hiff.mpr fun record hm => ?_, hiff⟩
      have hshown : f'.filter = .upTo 2 := by
        rw [← show defaultRank r.verbose = 2 by rw [hverbose]; rfl]
        exact congrArg Prod.fst hfilter'
      rw [hshown]
      exact Log.Filter.allows_upTo_of_mild (by decide) (finish_mild _ r _ d record hm)

def sampleArgs : List Token := ["-v", "--artifact", "a"].map Token.ofString

def sampleBlock : Environment.Block := ⟨["RESBUILD_LOG=".toUTF8.data.toList]⟩

/-- A project, and the process in it. -/
def sampleDisk : Disk :=
  ⟨FileSystem.empty.edit [] (.write "/p/Cargo.toml".toUTF8 ⟨#[]⟩), Location.ofPath ⟨"/p"⟩⟩

def sampleBox : Toolbox := ⟨[⟨"cargo", .byName, ⟨["RESBUILD_LOG"], [], .exited 3⟩⟩]⟩

theorem run_unset_sample :
    let unset := sampleBlock.unset "RESBUILD_LOG".toUTF8
    ∃ f f', run (sampleBox.tools sampleBlock) sampleArgs sampleBlock sampleDisk = .ok f ∧
      run (sampleBox.tools unset) sampleArgs unset sampleDisk = .ok f' ∧ SameBeside f f' ∧
      f.status = 3 ∧ f.errors = ⟨#[]⟩ ∧ f'.errors = "[INFO ] build a (cargo) dans /p\n".toUTF8 := by
  intro unset
  have hempty : sampleBlock.SetEmpty "RESBUILD_LOG".toUTF8 :=
    ⟨by decide +kernel, by decide +kernel⟩
  have hresult : (run (sampleBox.tools sampleBlock) sampleArgs sampleBlock sampleDisk).toOption.map
      (fun f => (f.status, f.errors)) = some (3, ⟨#[]⟩) := by decide +kernel
  have hresult' : (run (sampleBox.tools unset) sampleArgs unset sampleDisk).toOption.map
      Finished.errors = some "[INFO ] build a (cargo) dans /p\n".toUTF8 := by decide +kernel
  rcases run_unset sampleBox.tools sampleArgs sampleBlock sampleDisk "RESBUILD_LOG" hempty
      (sampleBox.tools_alike hempty (by decide +kernel)) with
    ⟨usage, hrun, -⟩ | ⟨r, f, f', -, hrun, hrun', hsame, -⟩
  · rw [hrun] at hresult
    cases hresult
  · rw [hrun] at hresult
    rw [hrun'] at hresult'
    obtain ⟨hstatus, herrors⟩ := Prod.mk.inj (Option.some.inj hresult)
    exact ⟨f, f', hrun, hrun', hsame, hstatus, herrors, Option.some.inj hresult'⟩

end Invocation

end WasmBuild
