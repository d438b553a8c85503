import Mathlib.Data.List.TakeWhile
import WasmBuild.Proofs.Obedience
import WasmBuild.Proofs.Rendering
import WasmBuild.Toolbox.Basic

/-! The variables with which a build tool is started. They are those of the process, hidden by
those of the flags file, and these in turn by the directories where the artifact is looked
for afterwards. -/

namespace WasmBuild

namespace Environment

variable {name value : ByteArray} {front back bindings : List Binding}

/-- Names that are read from the text of a variable as they were written into it. -/
def Settable (name : ByteArray) : Prop :=
  ∃ first rest, name.data.toList = first :: rest ∧ 0x3D ∉ rest

theorem lastOfEach_subset (bindings : List Binding) : lastOfEach bindings ⊆ bindings := by
  induction bindings with
  | nil => exact List.Subset.refl _
  | cons first rest ih =>
    rw [lastOfEach]
    split
    · exact List.subset_cons_of_subset first ih
    · exact List.cons_subset_cons first ih

/-- Of the bindings of a name the last one is kept, and no other. -/
theorem mem_lastOfEach_iff (hback : ∀ later ∈ back, later.1 ≠ name) {kept : ByteArray} :
    (name, kept) ∈ lastOfEach (front ++ (name, value) :: back) ↔ kept = value := by
  induction front with
  | nil =>
    have hlast : ¬(back.any fun later => later.1 = name) = true := by
      intro hany
      obtain ⟨later, hlater, hname⟩ := List.any_eq_true.mp hany
      exact hback later hlater (of_decide_eq_true hname)
    have hnot : (name, kept) ∉ lastOfEach back :=
      fun hmem => hback _ (lastOfEach_subset back hmem) rfl
    rw [List.nil_append, lastOfEach, if_neg hlast]
    simp [hnot]
  | cons first front ih =>
    rw [List.cons_append, lastOfEach]
    split
    · exact ih
    · next hlast =>
      have hne : (name, kept) ≠ first := by
        rintro rfl
        exact hlast (List.any_eq_true.mpr ⟨(name, value), by simp, by simp⟩)
      rw [List.mem_cons, or_iff_right hne]
      exact ih

namespace Block

theorem binding?_entry (h : Settable name) :
    binding? (name.data.toList ++ 0x3D :: value.data.toList) = some (name, value) := by
  obtain ⟨first, rest, hname, hrest⟩ := h
  have hall : ∀ b ∈ rest, decide (b ≠ 0x3D) = true := by
    intro b hb
    have hne : b ≠ 0x3D := fun e => hrest (e ▸ hb)
    simpa using hne
  obtain ⟨htake, hdrop⟩ := @Text.cut_at _ _ rest value.data.toList 0x3D hall (by simp)
  rw [hname, List.cons_append, binding?, hdrop]
  dsimp only
  rw [htake, ← hname]

theorem settable_of_mem {block : Block} {binding : Binding} (h : binding ∈ block.bindings) :
    Settable binding.1 := by
  obtain ⟨entry, -, hentry⟩ := List.mem_filterMap.mp h
  unfold binding? at hentry
  split at hentry
  · cases hentry
  next first rest =>
  split at hentry
  · cases hentry
  · cases hentry
    refine ⟨first, _, rfl, fun hmem => ?_⟩
    simpa using List.mem_takeWhile_imp hmem

theorem entries_ofBindings (bindings : List Binding) :
    (ofBindings bindings).entries.Perm
      ((lastOfEach bindings).map fun binding =>
        binding.1.data.toList ++ 0x3D :: binding.2.data.toList) := by
  have hsorted := List.mergeSort_perm
    ((lastOfEach bindings).map fun binding => (binding.1.data.toList, binding.2.data.toList))
    fun a b => a.1 ≤ b.1
  have hentries := hsorted.map fun pair => pair.1 ++ 0x3D :: pair.2
  rw [List.map_map] at hentries
  exact hentries

theorem bindings_ofBindings (h : ∀ binding ∈ bindings, Settable binding.1) :
    (ofBindings bindings).bindings.Perm (lastOfEach bindings) := by
  have hread : ((lastOfEach bindings).map fun binding =>
      binding.1.data.toList ++ 0x3D :: binding.2.data.toList).filterMap binding? =
        lastOfEach bindings := by
    rw [List.filterMap_map]
    calc (lastOfEach bindings).filterMap _
      _ = (lastOfEach bindings).filterMap some :=
        List.filterMap_congr fun binding hmem => binding?_entry (h _ (lastOfEach_subset _ hmem))
      _ = lastOfEach bindings := List.filterMap_some
  have hperm := (entries_ofBindings bindings).filterMap binding?
  rw [hread] at hperm
  exact hperm

theorem last?_ofBindings
    (h : ∀ binding ∈ front ++ (name, value) :: back, Settable binding.1)
    (hback : ∀ later ∈ back, later.1 ≠ name) :
    (ofBindings (front ++ (name, value) :: back)).last? name = some value := by
  have hperm := bindings_ofBindings h
  have hkept : ∀ kept, (name, kept) ∈ (ofBindings (front ++ (name, value) :: back)).bindings ↔
      kept = value := fun kept => hperm.mem_iff.trans (mem_lastOfEach_iff hback)
  rw [last?]
  -- the order of the texts is not that of the bindings, but only one of them is for the name
  cases hfind : List.find? (fun binding => decide (binding.1 = name))
      (ofBindings (front ++ (name, value) :: back)).bindings.reverse with
  | none =>
    have hnone := List.find?_eq_none.mp hfind (name, value)
      (List.mem_reverse.mpr ((hkept value).mpr rfl))
    simp at hnone
  | some binding =>
    obtain ⟨found, kept⟩ := binding
    have hname : found = name := by simpa using List.find?_some hfind
    have hmem := List.mem_reverse.mp (List.mem_of_find?_eq_some hfind)
    rw [hname] at hmem
    rw [Option.map_some, (hkept kept).mp hmem]

/-- The last of the pairs that are added to those of the process decides the value of a name. -/
theorem last?_overlay {pairs : List (String × String)} {key value : String} (inherited : Block)
    (hkeys : ∀ pair ∈ pairs, Settable pair.1.toUTF8)
    (h : Environment.last? ⟨pairs⟩ key = some value) :
    (ofBindings (inherited.bindings ++
      pairs.map fun (name, value) => (name.toUTF8, value.toUTF8))).last? key.toUTF8 =
        some value.toUTF8 := by
  obtain ⟨after, before, hsplit, hlater⟩ := List.lookup_eq_some_iff.mp h
  have hpairs : pairs = before.reverse ++ (key, value) :: after.reverse := by
    rw [← List.reverse_reverse pairs, hsplit]
    simp
  have hback : ∀ later ∈ after.reverse.map fun pair : String × String =>
      (pair.1.toUTF8, pair.2.toUTF8), later.1 ≠ key.toUTF8 := by
    intro later hmem
    obtain ⟨pair, hpair, rfl⟩ := List.mem_map.mp hmem
    have hne := hlater pair (List.mem_reverse.mp hpair)
    intro hname
    rw [String.toByteArray_inj.mp hname, bne_self_eq_false] at hne
    cases hne
  have hsettable : ∀ binding ∈ inherited.bindings ++
      pairs.map fun pair => (pair.1.toUTF8, pair.2.toUTF8), Settable binding.1 := by
    intro binding hmem
    rcases List.mem_append.mp hmem with hmem | hmem
    · exact settable_of_mem hmem
    · obtain ⟨pair, hpair, rfl⟩ := List.mem_map.mp hmem
      exact hkeys pair hpair
  rw [hpairs, List.map_append, List.map_cons, ← List.append_assoc] at hsettable ⊢
  exact last?_ofBindings hsettable hback

end Block

end Environment

namespace Text

theorem utf8EncodeChar_of_le {c : Char} (hc : c.toNat ≤ 127) :
    String.utf8EncodeChar c = [c.val.toUInt8] :=
  String.utf8EncodeChar_eq_singleton (Char.utf8Size_eq_one_iff.mpr hc)

theorem toList_toUTF8 (s : String) :
    s.toUTF8.data.toList = s.toList.flatMap String.utf8EncodeChar := by
  have hbytes : s.toUTF8 = s.toList.utf8Encode := by
    rw [← String.toByteArray_ofList, String.ofList_toList]
    rfl
  rw [hbytes, List.utf8Encode]
  simp

end Text

namespace Flags

theorem toNat_of_isWord {c : Char} (hc : (c == '_' || c.isAlphanum) = true) :
    c.toNat ≤ 122 ∧ c ≠ '=' := by
  rcases Bool.or_eq_true_iff.mp hc with hword | hword
  · rw [beq_iff_eq.mp hword]
    decide
  · refine ⟨(Shell.toNat_of_isAlphanum hword).2, ?_⟩
    rintro rfl
    cases hword

theorem settable_of_isIdentifier {key : String} (h : isIdentifier key.toList = true) :
    Environment.Settable key.toUTF8 := by
  have hword := isWord_of_isIdentifier h
  cases hchars : key.toList with
  | nil => simp [hchars, isIdentifier] at h
  | cons c cs =>
    rw [hchars] at hword
    have hbyte : ∀ d ∈ c :: cs, String.utf8EncodeChar d = [d.val.toUInt8] := fun d hd =>
      Text.utf8EncodeChar_of_le (Nat.le_trans (toNat_of_isWord (hword d hd)).1 (by decide))
    refine ⟨c.val.toUInt8, cs.flatMap String.utf8EncodeChar, ?_, fun hmem => ?_⟩
    · rw [Text.toList_toUTF8, hchars, List.flatMap_cons, hbyte c List.mem_cons_self,
        List.singleton_append]
    · obtain ⟨d, hd, hequals⟩ := List.mem_flatMap.mp hmem
      have hmem : d ∈ c :: cs := List.mem_cons_of_mem c hd
      rw [hbyte d hmem, List.mem_singleton] at hequals
      obtain ⟨hle, hne⟩ := toNat_of_isWord (hword d hmem)
      have hnat : d.toNat % 256 = 0x3D :=
        (UInt32.toNat_toUInt8 d.val).symm.trans (congrArg UInt8.toNat hequals.symm)
      have heq : d.toNat = '='.toNat := by
        have hcode : '='.toNat = 0x3D := rfl
        omega
      exact hne (Char.toNat_inj.mp heq)

end Flags

namespace Toolbox

variable {box : Toolbox} {inherited : Environment.Block} {earlier : List Command} {d : Disk}
  {c : Command} {outcome : Outcome}

theorem locate_of_enter {dir : Path} {inside : Disk} (h : enter d dir = .ok inside) :
    d.locate dir = .ok inside.cwd := by
  unfold enter at h
  split at h
  · cases h
  next loc hloc =>
  split at h
  · cases h
    exact hloc
  · cases h

/-- A tool is run where the command says, with the arguments of the command, and with its
variables over those of the process. -/
theorem tools_eq_ok (h : tools box inherited earlier d c = .ok outcome) :
    ∃ (tool : Tool) (scene : Script.Scene),
      outcome = tool.script.run tool.name scene d.tree ∧ scene.args = c.args ∧
      d.locate c.cwd = .ok scene.cwd ∧
      scene.env = .ofBindings (inherited.bindings ++
        c.env.map fun (key, value) => (key.toUTF8, value.toUTF8)) := by
  unfold tools at h
  split at h
  · cases h
  cases hinside : enter d c.cwd with
  | error e =>
    rw [hinside] at h
    cases h
  | ok inside =>
    cases htool : box.find inherited inside c with
    | error e =>
      rw [hinside] at h
      simp only [bind, Except.bind, htool] at h
      cases h
    | ok tool =>
      rw [hinside] at h
      simp only [bind, Except.bind, htool] at h
      cases h
      exact ⟨tool, ⟨inside.cwd, c.args, _⟩, rfl, rfl, locate_of_enter hinside, rfl⟩

end Toolbox

namespace Backend

variable {cfg : Config} {key : String}

theorem last?_baseEnv (h : key ≠ Config.targetDirKey) :
    Environment.last? ⟨baseEnv cfg⟩ key = Environment.last? ⟨cfg.extraEnv⟩ key := by
  have hkey : (key == Config.targetDirKey) = false := by simpa using h
  have hkept : (key != Config.targetDirKey) = true := by simpa using h
  rw [Environment.last?, Environment.last?, baseEnv, List.reverse_append, List.reverse_singleton,
    List.singleton_append, List.lookup_cons, hkey, ← List.filter_reverse]
  exact (Flags.lookup_filter (· != Config.targetDirKey) _ key).trans (if_pos hkept)

theorem filter_baseEnv :
    (baseEnv cfg).filter (·.1 == Config.targetDirKey) =
      [(Config.targetDirKey, cfg.targetRoot.text)] := by
  have hnone : (cfg.extraEnv.filter (·.1 != Config.targetDirKey)).filter
      (·.1 == Config.targetDirKey) = [] := by
    simp
  rw [baseEnv, List.filter_append, hnone]
  rfl

theorem filter_env :
    ((ofMode cfg.mode).command cfg).env.filter (·.1 == Config.targetDirKey) =
      [(Config.targetDirKey, cfg.targetRoot.text)] := by
  cases cfg.mode with
  | standard => exact filter_baseEnv
  | coverage =>
    dsimp only [ofMode, wasmcov]
    rw [List.filter_append, filter_baseEnv]
    rfl

theorem last?_env (htarget : key ≠ "CARGO_TARGET_DIR")
    (hcoverage : cfg.mode = .coverage → key ≠ "WASMCOV_DIR") :
    Environment.last? ⟨((ofMode cfg.mode).command cfg).env⟩ key =
      Environment.last? ⟨cfg.extraEnv⟩ key := by
  cases hmode : cfg.mode with
  | standard => exact last?_baseEnv htarget
  | coverage =>
    have hkey : (key == "WASMCOV_DIR") = false := by simpa using hcoverage hmode
    rw [← last?_baseEnv htarget, Environment.last?, Environment.last?]
    dsimp only [ofMode, wasmcov, coverageDirKey]
    rw [List.reverse_append, List.reverse_singleton, List.singleton_append, List.lookup_cons, hkey]

theorem key_env {binding : Binding} (h : binding ∈ ((ofMode cfg.mode).command cfg).env) :
    binding.1 = "CARGO_TARGET_DIR" ∨ binding.1 = "WASMCOV_DIR" ∨ binding ∈ cfg.extraEnv := by
  have hbase (h : binding ∈ baseEnv cfg) :
      binding.1 = "CARGO_TARGET_DIR" ∨ binding ∈ cfg.extraEnv := by
    rcases List.mem_append.mp h with h | h
    · exact .inr (List.mem_of_mem_filter h)
    · exact .inl (List.mem_singleton.mp h ▸ rfl)
  cases hmode : cfg.mode with
  | standard =>
    rw [hmode] at h
    rcases hbase h with h | h
    · exact .inl h
    · exact .inr (.inr h)
  | coverage =>
    rw [hmode] at h
    rcases List.mem_append.mp h with h | h
    · rcases hbase h with h | h
      · exact .inl h
      · exact .inr (.inr h)
    · exact .inr (.inl (List.mem_singleton.mp h ▸ rfl))

theorem settable_env {text : String} (h : Flags.parse text = .ok cfg.extraEnv) :
    ∀ binding ∈ ((ofMode cfg.mode).command cfg).env, Environment.Settable binding.1.toUTF8 := by
  intro binding hmem
  refine Flags.settable_of_isIdentifier ?_
  rcases key_env hmem with hkey | hkey | hkey
  · rw [hkey]
    decide
  · rw [hkey]
    decide
  · exact (Flags.storable_of_parse h).key binding hkey

theorem last?_env_of_parse {text value : String} {all : List Flags.Assignment}
    (hparse : Flags.parse text = .ok cfg.extraEnv)
    (hall : Flags.Assigns (text.toList.splitOn '\n') all)
    (hvalue : Environment.last? ⟨all⟩ key = some value) (htarget : key ≠ "CARGO_TARGET_DIR")
    (hcoverage : cfg.mode = .coverage → key ≠ "WASMCOV_DIR") :
    Environment.last? ⟨((ofMode cfg.mode).command cfg).env⟩ key = some value := by
  have hvars : cfg.extraEnv = Flags.lastOfEach all := by
    have hkept := Flags.parse_eq_ok_iff.mpr ⟨all, hall, rfl⟩
    exact Except.ok.inj (hparse.symm.trans hkept)
  rw [last?_env htarget hcoverage, hvars, Environment.last?, Flags.lookup_lastOfEach]
  exact hvalue

/-- The build tool is told the target directory, the coverage directory and the target that
also decide where the artifact is looked for, and all else as the flags file has it, whatever
variables the process itself has. -/
theorem command_env {c : Command} (hc : (ofMode cfg.mode).command cfg = c) :
    c.env.filter (·.1 == "CARGO_TARGET_DIR") = [("CARGO_TARGET_DIR", cfg.targetRoot.text)] ∧
    (cfg.mode = .coverage →
      Environment.last? ⟨c.env⟩ "WASMCOV_DIR" = some cfg.coverageDir.text ∧
      Environment.last? ⟨c.env⟩ "CARGO_TARGET_DIR" = some (cfg.coverageDir.join ⟨"target"⟩).text) ∧
    (∀ key, key ≠ "CARGO_TARGET_DIR" → (cfg.mode = .coverage → key ≠ "WASMCOV_DIR") →
      Environment.last? ⟨c.env⟩ key = Environment.last? ⟨cfg.extraEnv⟩ key) ∧
    c.argumentAfter? "--target" = some cfg.target ∧ c.cwd = cfg.projectDir ∧
    (∃ dir target, Environment.last? ⟨c.env⟩ "CARGO_TARGET_DIR" = some dir ∧
      c.argumentAfter? "--target" = some target ∧
      cfg.source = (((⟨dir⟩ : Path).join ⟨target⟩).join ⟨"release"⟩).join ⟨cfg.artifact⟩) ∧
    ∀ text all key value, Flags.parse text = .ok cfg.extraEnv →
      Flags.Assigns (text.toList.splitOn '\n') all → Environment.last? ⟨all⟩ key = some value →
      key ≠ "CARGO_TARGET_DIR" → (cfg.mode = .coverage → key ≠ "WASMCOV_DIR") →
      ∀ box inherited earlier d outcome, Toolbox.tools box inherited earlier d c = .ok outcome →
        ∃ (tool : Tool) (scene : Script.Scene),
          outcome = tool.script.run tool.name scene d.tree ∧ scene.args = c.args ∧
          d.locate cfg.projectDir = .ok scene.cwd ∧
          scene.env.last? key.toUTF8 = some value.toUTF8 := by
  subst hc
  have htarget := argumentAfter?_target cfg
  have hdir : Environment.last? ⟨((ofMode cfg.mode).command cfg).env⟩ "CARGO_TARGET_DIR" =
      some cfg.targetRoot.text := valueOf?_targetDir cfg ⟨[]⟩
  have hcwd : ((ofMode cfg.mode).command cfg).cwd = cfg.projectDir := by
    cases cfg.mode <;> rfl
  refine ⟨filter_env, fun hmode => ⟨valueOf?_coverageDir cfg ⟨[]⟩ hmode, ?_⟩,
    fun key => last?_env, htarget, hcwd, ⟨_, _, hdir, htarget, rfl⟩, ?_⟩
  · rw [hdir, Config.targetRoot, hmode]
  · intro text all key value hparse hall hvalue hkey hcoverage box inherited earlier d outcome hrun
    obtain ⟨tool, scene, houtcome, hargs, hplace, henv⟩ := Toolbox.tools_eq_ok hrun
    refine ⟨tool, scene, houtcome, hargs, hcwd ▸ hplace, ?_⟩
    rw [henv]
    exact Environment.Block.last?_overlay inherited (settable_env hparse)
      (last?_env_of_parse hparse hall hvalue hkey hcoverage)

def sampleConfig : Config :=
  { Build.sampleConfig with
    mode := .coverage
    extraEnv := [("WASMCOV_DIR", "/y"), ("A", "2 "), ("CARGO_TARGET_DIR", "/z")] }

def sampleTools : Tools :=
  Toolbox.tools ⟨[⟨"cargo", .byName, ⟨["A"], [], .exited 0⟩⟩]⟩ ⟨["A=0".toUTF8.data.toList]⟩

theorem command_env_sample :
    ∃ outcome, sampleTools [] default (wasmcov.command sampleConfig) = .ok outcome ∧
      ∃ (tool : Tool) (scene : Script.Scene),
        outcome = tool.script.run tool.name scene FileSystem.empty ∧
        scene.env.last? "A".toUTF8 = some "2 ".toUTF8 := by
  have hparse : Flags.parse "A=1\nWASMCOV_DIR=/y\nA='2 '\nCARGO_TARGET_DIR=/z" =
      .ok sampleConfig.extraEnv := by decide +kernel
  obtain ⟨all, hall, hvars⟩ := Flags.parse_eq_ok_iff.mp hparse
  have hvalue : Environment.last? ⟨all⟩ "A" = some "2 " := by
    rw [Environment.last?, ← Flags.lookup_lastOfEach, ← hvars]
    rfl
  have hstarts : (sampleTools [] default (wasmcov.command sampleConfig)).toOption.isSome = true := by
    decide +kernel
  obtain ⟨outcome, houtcome⟩ := Option.isSome_iff_exists.mp hstarts
  have hrun := Except.eq_ok_of_toOption houtcome
  obtain ⟨-, -, -, -, -, -, hreaches⟩ := @command_env sampleConfig _ rfl
  obtain ⟨tool, scene, hscene, -, -, hlast⟩ := hreaches _ _ _ _ hparse hall hvalue (by decide)
    (by decide) _ _ _ _ _ hrun
  exact ⟨outcome, hrun, tool, scene, hscene, hlast⟩

end Backend

end WasmBuild
