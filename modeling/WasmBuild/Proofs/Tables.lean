import Mathlib
import WasmBuild.Toml.Document

/-! The keys of a document. Whether its tables are made by headers, by dotted keys or inline, no
table in it has two entries of one key, so a key stands for one value. -/

namespace WasmBuild.Toml

/-- No table in the value has two entries of one key. -/
inductive Value.Distinct : Value → Prop where
  | scalar {v : Value} (harray : ∀ items, v ≠ .array items)
      (htable : ∀ entries, v ≠ .table entries) : Value.Distinct v
  | array {items : List Value} (h : ∀ v ∈ items, Value.Distinct v) : Value.Distinct (.array items)
  | table {entries : Table} (keys : (entries.map Prod.fst).Nodup)
      (h : ∀ e ∈ entries, Value.Distinct e.2) : Value.Distinct (.table entries)

section Keys

variable {entries : Table} {key : String} {v : Value}

theorem lookup_eq_some_iff_mem {α : Type} {entries : List (String × α)} {a : α}
    (h : (entries.map Prod.fst).Nodup) : entries.lookup key = some a ↔ (key, a) ∈ entries := by
  induction entries with
  | nil => simp
  | cons e rest ih =>
    obtain ⟨name, b⟩ := e
    have hrest := ih (List.nodup_cons.mp h).2
    have hfresh : name ∉ rest.map Prod.fst := (List.nodup_cons.mp h).1
    by_cases hname : key = name
    · subst hname
      have hnot : (key, a) ∉ rest := fun hm => hfresh (List.mem_map_of_mem hm)
      simp [hnot, eq_comm]
    · have hne : (key == name) = false := beq_eq_false_iff_ne.mpr hname
      simp [List.lookup_cons, hne, hname, hrest]

theorem lookup_eq_none_iff_not_mem {α : Type} {entries : List (String × α)} :
    entries.lookup key = none ↔ ∀ a, (key, a) ∉ entries := by
  rw [List.lookup_eq_none_iff]
  constructor
  · intro h a hm
    simpa using h (key, a) hm
  · intro h e he
    have hne : key ≠ e.1 := fun hkey => h e.2 (hkey ▸ he)
    simpa using hne

namespace Value

theorem distinct_array_iff {items : List Value} :
    (array items).Distinct ↔ ∀ v ∈ items, v.Distinct := by
  constructor
  · rintro (⟨harray, -⟩ | h)
    · exact absurd rfl (harray items)
    · exact h
  · exact .array

theorem distinct_table_iff : (table entries).Distinct ↔
    (entries.map Prod.fst).Nodup ∧ ∀ e ∈ entries, e.2.Distinct := by
  constructor
  · rintro (⟨-, htable⟩ | - | ⟨keys, h⟩)
    · exact absurd rfl (htable entries)
    · exact ⟨keys, h⟩
  · exact fun h => .table h.1 h.2

theorem Distinct.lookup_iff (h : (Value.table entries).Distinct) :
    entries.lookup key = some v ↔ (key, v) ∈ entries :=
  lookup_eq_some_iff_mem (distinct_table_iff.mp h).1

theorem Distinct.of_mem (h : (Value.table entries).Distinct) (hm : (key, v) ∈ entries) :
    v.Distinct :=
  (distinct_table_iff.mp h).2 _ hm

end Value

end Keys

theorem tableOf_eq_map (entries : Entries) :
    tableOf entries = entries.map fun e => (e.1, e.2.toValue) := by
  induction entries with
  | nil => rfl
  | cons e rest ih => rw [tableOf, ih, List.map_cons]

theorem tablesOf_eq_map (elements : List Entries) :
    tablesOf elements = elements.map fun entries => .table (tableOf entries) := by
  induction elements with
  | nil => rfl
  | cons entries rest ih => rw [tablesOf, ih, List.map_cons]

namespace Entries

def Distinct (entries : Entries) : Prop := (Value.table (tableOf entries)).Distinct

variable {entries : Entries} {key : String} {item : Item}

theorem distinct_iff : entries.Distinct ↔
    (entries.map Prod.fst).Nodup ∧ ∀ e ∈ entries, e.2.toValue.Distinct := by
  rw [Distinct, Value.distinct_table_iff, tableOf_eq_map, List.map_map, List.forall_mem_map]
  rfl

theorem distinct_nil : Distinct [] := distinct_iff.mpr ⟨List.nodup_nil, List.forall_mem_nil _⟩

theorem Distinct.of_lookup (h : entries.Distinct) (hkey : entries.lookup key = some item) :
    item.toValue.Distinct :=
  (distinct_iff.mp h).2 _ ((lookup_eq_some_iff_mem (distinct_iff.mp h).1).mp hkey)

theorem distinct_tables_iff {elements : List Entries} :
    (Item.tables elements).toValue.Distinct ↔ ∀ entries ∈ elements, entries.Distinct := by
  rw [Item.toValue, Value.distinct_array_iff, tablesOf_eq_map, List.forall_mem_map]
  rfl

theorem Distinct.add_new (h : entries.Distinct) (hkey : entries.lookup key = none)
    (hitem : item.toValue.Distinct) : Distinct (entries ++ [(key, item)]) := by
  obtain ⟨hkeys, hitems⟩ := distinct_iff.mp h
  have hfresh : key ∉ entries.map Prod.fst := by
    intro hm
    obtain ⟨e, he, rfl⟩ := List.mem_map.mp hm
    exact lookup_eq_none_iff_not_mem.mp hkey e.2 he
  refine distinct_iff.mpr ⟨?_, fun e he => ?_⟩
  · rw [List.map_append, List.map_singleton, ← List.concat_eq_append]
    exact hkeys.concat hfresh
  · rcases List.mem_append.mp he with he | he
    · exact hitems e he
    · obtain rfl := List.mem_singleton.mp he
      exact hitem

theorem Distinct.replace (h : entries.Distinct) (hitem : item.toValue.Distinct) :
    (replace entries key item).Distinct := by
  obtain ⟨hkeys, hitems⟩ := distinct_iff.mp h
  have hsame : (Entries.replace entries key item).map Prod.fst = entries.map Prod.fst := by
    rw [Entries.replace, List.map_map]
    refine List.map_congr_left fun e _ => ?_
    by_cases he : e.1 = key <;> simp [he]
  refine distinct_iff.mpr ⟨hsame ▸ hkeys, fun e he => ?_⟩
  obtain ⟨old, hold, rfl⟩ := List.mem_map.mp he
  by_cases hkey : old.1 = key
  · simpa [hkey] using hitem
  · simpa [hkey] using hitems old hold

/-- A change that keeps tables distinct. -/
def Keeps (change : Entries → Option Entries) : Prop :=
  ∀ ⦃before after : Entries⦄, before.Distinct → change before = some after → after.Distinct

theorem Keeps.within {change : Entries → Option Entries} (hchange : Keeps change) (dotted : Bool)
    (path : List String) : Keeps (within dotted change path) := by
  induction path with
  | nil => exact hchange
  | cons key path ih =>
    intro before after h hafter
    rw [Entries.within] at hafter
    split at hafter
    · next hkey =>
      obtain ⟨inner, hinner, hsome⟩ := Option.bind_eq_some_iff.mp hafter
      obtain rfl := Option.some.inj hsome
      exact h.add_new hkey (ih distinct_nil hinner)
    · cases hafter
    · next origin old hkey =>
      obtain ⟨-, -, hrest⟩ := Option.bind_eq_some_iff.mp hafter
      obtain ⟨inner, hinner, hsome⟩ := Option.bind_eq_some_iff.mp hrest
      obtain rfl := Option.some.inj hsome
      exact h.replace (ih (h.of_lookup hkey) hinner)
    · next elements hkey =>
      have hold := distinct_tables_iff.mp (h.of_lookup hkey)
      obtain ⟨-, -, hrest⟩ := Option.bind_eq_some_iff.mp hafter
      obtain ⟨inner, hinner, hsome⟩ := Option.bind_eq_some_iff.mp hrest
      obtain rfl := Option.some.inj hsome
      have hlast : Distinct (elements.getLast?.getD []) := by
        cases hlast : elements.getLast? with
        | none => exact distinct_nil
        | some last => exact hold last (List.mem_of_getLast? hlast)
      refine h.replace (distinct_tables_iff.mpr fun e he => ?_)
      rcases List.mem_append.mp he with he | he
      · exact hold e (elements.dropLast_subset he)
      · obtain rfl := List.mem_singleton.mp he
        exact ih hlast hinner

theorem keeps_add (key : String) {value : Value} (hvalue : value.Distinct) :
    Keeps (add key value) := by
  intro before after h hafter
  rw [add] at hafter
  split at hafter
  · cases hafter
  · next hkey =>
    obtain rfl := Option.some.inj hafter
    exact h.add_new (Option.not_isSome_iff_eq_none.mp hkey) hvalue

theorem keeps_foldlM {α : Type} {step : Entries → α → Option Entries} {as : List α}
    (hstep : ∀ a ∈ as, Keeps fun entries => step entries a) :
    Keeps fun entries => as.foldlM step entries := by
  induction as with
  | nil =>
    intro before after h hafter
    cases hafter
    exact h
  | cons a rest ih =>
    intro before after h hafter
    obtain ⟨between, hfirst, hrest⟩ := Option.bind_eq_some_iff.mp hafter
    have hbetween : between.Distinct := hstep a List.mem_cons_self h hfirst
    exact ih (fun b hb => hstep b (List.mem_cons_of_mem a hb)) hbetween hrest

theorem keeps_addPairs {pairs : List Pair} (hpairs : ∀ pair ∈ pairs, pair.2.Distinct) :
    Keeps fun entries => addPairs entries pairs := by
  refine keeps_foldlM fun pair hpair before after h hafter => ?_
  obtain ⟨key, -, hwithin⟩ := Option.bind_eq_some_iff.mp hafter
  exact (keeps_add key (hpairs pair hpair)).within true _ h hwithin

theorem keeps_addTable (key : String) {pairs : List Pair}
    (hpairs : ∀ pair ∈ pairs, pair.2.Distinct) : Keeps (addTable key pairs) := by
  intro before after h hafter
  rw [addTable] at hafter
  split at hafter
  · next hkey =>
    obtain ⟨inner, hinner, hsome⟩ := Option.bind_eq_some_iff.mp hafter
    obtain rfl := Option.some.inj hsome
    exact h.add_new hkey (keeps_addPairs hpairs distinct_nil hinner)
  · next old hkey =>
    obtain ⟨inner, hinner, hsome⟩ := Option.bind_eq_some_iff.mp hafter
    obtain rfl := Option.some.inj hsome
    exact h.replace (keeps_addPairs hpairs (h.of_lookup hkey) hinner)
  · cases hafter

theorem keeps_addElement (key : String) {pairs : List Pair}
    (hpairs : ∀ pair ∈ pairs, pair.2.Distinct) : Keeps (addElement key pairs) := by
  intro before after h hafter
  obtain ⟨made, hmade, hadd⟩ := Option.bind_eq_some_iff.mp hafter
  have hmade : made.Distinct := keeps_addPairs hpairs distinct_nil hmade
  split at hadd
  · next hkey =>
    obtain rfl := Option.some.inj hadd
    exact h.add_new hkey (distinct_tables_iff.mpr (by simpa using hmade))
  · next elements hkey =>
    obtain rfl := Option.some.inj hadd
    have hold := distinct_tables_iff.mp (h.of_lookup hkey)
    refine h.replace (distinct_tables_iff.mpr fun e he => ?_)
    rcases List.mem_append.mp he with he | he
    · exact hold e he
    · obtain rfl := List.mem_singleton.mp he
      exact hmade
  · cases hadd

theorem keeps_addSection {s : Section} (hpairs : ∀ pair ∈ s.pairs, pair.2.Distinct) :
    Keeps fun entries => addSection entries s := by
  intro before after h hafter
  obtain ⟨key, -, hwithin⟩ := Option.bind_eq_some_iff.mp hafter
  refine Keeps.within ?_ false _ h hwithin
  by_cases helement : s.isElement = true
  · simpa [helement] using keeps_addElement key hpairs
  · simpa [helement] using keeps_addTable key hpairs

end Entries

namespace Reader

variable {α β : Type} {P : α → Prop} {Q : β → Prop} {item : Reader α} {next : α → Reader β}

/-- Whatever the reader reads has the property. -/
def Yields (P : α → Prop) (item : Reader α) : Prop :=
  ∀ ⦃cs a rest⦄, item cs = some (a, rest) → P a

theorem yields_pure {a : α} (h : P a) : (pure a : Reader α).Yields P := by
  intro cs b rest hread
  cases hread
  exact h

theorem Yields.bind (h : item.Yields P) (hnext : ∀ a, P a → (next a).Yields Q) :
    (item >>= next).Yields Q := by
  intro cs b rest hread
  obtain ⟨⟨a, left⟩, ha, hb⟩ := Option.bind_eq_some_iff.mp hread
  exact hnext a (h ha) hb

theorem yields_bind (hnext : ∀ a, (next a).Yields Q) : (item >>= next).Yields Q :=
  Yields.bind (P := fun _ => True) (fun _ _ _ _ => trivial) fun a _ => hnext a

theorem yields_lift {a? : Option α} (h : ∀ a, a? = some a → P a) :
    (liftM a? : Reader α).Yields P := by
  intro cs a rest hread
  obtain ⟨b, hb, hsome⟩ := Option.bind_eq_some_iff.mp hread
  cases hsome
  exact h _ hb

theorem Yields.orElse {other : Reader α} (h : item.Yields P) (hother : other.Yields P) :
    (item <|> other).Yields P := by
  intro cs a rest hread
  change (item cs <|> other cs) = some (a, rest) at hread
  cases hitem : item cs with
  | none => exact hother (by simpa [hitem] using hread)
  | some first =>
    obtain rfl : first = (a, rest) := by simpa [hitem] using hread
    exact h hitem

theorem yields_map {f : α → β} (h : ∀ a, Q (f a)) : (f <$> item).Yields Q :=
  yields_bind fun a => yields_pure (h a)

theorem Yields.seqLeft (h : item.Yields P) (after : Reader β) : (item <* after).Yields P :=
  h.bind fun _ ha => yields_bind fun _ => yields_pure ha

theorem Yields.seqRight (h : item.Yields P) (before : Reader β) : (before *> item).Yields P :=
  yields_bind fun _ => h

theorem yields_maybe (h : item.Yields P) : (maybe item).Yields fun a? => ∀ a ∈ a?, P a := by
  refine Yields.orElse (h.bind fun a ha => yields_pure ?_) (yields_pure nofun)
  intro b hb
  cases hb
  exact ha

theorem forall_mem_manyFrom (h : item.Yields P) (cs : List Char) :
    ∀ a ∈ (manyFrom item cs).1, P a := by
  fun_induction manyFrom item cs with
  | case1 => exact List.forall_mem_nil P
  | case2 cs a rest hread hlt more left hmore ih =>
    rw [hmore] at ih
    exact List.forall_mem_cons.mpr ⟨h hread, ih⟩
  | case3 cs a rest hread => exact List.forall_mem_singleton.mpr (h hread)

theorem yields_many (h : item.Yields P) : (many item).Yields fun as => ∀ a ∈ as, P a := by
  intro cs as rest hread
  obtain rfl : (manyFrom item cs).1 = as := congrArg Prod.fst (Option.some.inj hread)
  exact forall_mem_manyFrom h cs

theorem yields_separated (mark : Char) (h : item.Yields P) :
    (separated mark item).Yields fun as => ∀ a ∈ as, P a := by
  refine h.bind fun first hfirst => ?_
  refine (yields_many (h.seqRight (char mark))).bind fun more hmore => ?_
  exact yields_pure (List.forall_mem_cons.mpr ⟨hfirst, hmore⟩)

end Reader

open Reader

section Values

variable {item : Reader Value}

theorem yields_scalar : scalar.Yields Value.Distinct := by
  have hboolean : boolean.Yields Value.Distinct := by
    refine Yields.orElse ?_ ?_ <;> exact (yields_pure (.scalar nofun nofun)).seqRight _
  have hinteger (negative : Bool) (n : Nat) : (integerOf negative n).Yields Value.Distinct :=
    yields_bind fun _ => yields_pure (.scalar nofun nofun)
  have hbased (mark : String) (base : Nat) (isDigit : Char → Bool) :
      (based mark base isDigit).Yields Value.Distinct :=
    yields_bind fun _ => yields_bind fun _ => hinteger false _
  refine Yields.orElse (yields_map fun _ => .scalar nofun nofun) (Yields.orElse hboolean ?_)
  refine Yields.orElse (yields_map fun _ => .scalar nofun nofun) ?_
  refine Yields.orElse (yields_map fun _ => .scalar nofun nofun) ?_
  refine Yields.orElse (hbased "0x" 16 isHexDigit) (Yields.orElse (hbased "0o" 8 isOctalDigit) ?_)
  refine Yields.orElse (hbased "0b" 2 isBinaryDigit) ?_
  exact yields_bind fun negative => yields_bind fun _ => hinteger negative _

theorem yields_arrayOf (h : item.Yields Value.Distinct) : (arrayOf item).Yields Value.Distinct := by
  have hitems := yields_maybe (yields_separated ',' ((h.seqRight gap).seqLeft gap))
  refine yields_bind fun _ => hitems.bind fun items hitems => ?_
  have hvalue : (Value.array (items.getD [])).Distinct := by
    refine .array fun v hv => ?_
    cases items with
    | none => cases hv
    | some vs => exact hitems vs rfl v hv
  have hclosed : (do gap; char ']'; pure (Value.array (items.getD []))).Yields Value.Distinct :=
    yields_bind fun _ => yields_bind fun _ => yields_pure hvalue
  dsimp only
  split
  · exact yields_bind fun _ => hclosed
  · exact hclosed

theorem yields_pairOf (h : item.Yields Value.Distinct) :
    (pairOf item).Yields fun pair => pair.2.Distinct :=
  yields_bind fun _ => yields_bind fun _ => yields_bind fun _ => h.bind fun _ hv => yields_pure hv

theorem yields_inlineTableOf (h : item.Yields Value.Distinct) :
    (inlineTableOf item).Yields Value.Distinct := by
  have hpairs := yields_maybe (yields_separated ',' ((yields_pairOf h).seqLeft spaces))
  refine yields_bind fun _ => hpairs.bind fun pairs hpairs => ?_
  refine yields_bind fun _ => yields_bind fun _ => ?_
  refine (yields_lift fun entries hentries => ?_).bind fun entries => yields_pure
  refine Entries.keeps_addPairs (fun pair hm => ?_) Entries.distinct_nil hentries
  cases pairs with
  | none => cases hm
  | some all => exact hpairs all rfl pair hm

theorem yields_valueWithin (depth : Nat) : (valueWithin depth).Yields Value.Distinct := by
  induction depth with
  | zero => exact yields_scalar
  | succ depth ih =>
    exact yields_scalar.orElse ((yields_arrayOf ih).orElse (yields_inlineTableOf ih))

theorem yields_pairs : pairs.Yields fun all => ∀ pair ∈ all, pair.2.Distinct :=
  yields_many (((yields_pairOf (yields_valueWithin maxDepth)).seqLeft lineEnd).seqLeft silence)

theorem yields_header : header.Yields fun s => ∀ pair ∈ s.pairs, pair.2.Distinct :=
  yields_bind fun _ => yields_bind fun _ => yields_bind fun _ => yields_bind fun _ =>
    yields_bind fun _ => yields_pairs.bind fun _ hpairs => yields_pure hpairs

theorem yields_document : document.Yields Entries.Distinct := by
  refine yields_bind fun _ => yields_bind fun _ => yields_pairs.bind fun pairs hpairs => ?_
  refine (yields_lift fun _ => Entries.keeps_addPairs hpairs Entries.distinct_nil).bind ?_
  intro root hroot
  refine (yields_many yields_header).bind fun sections hsections => yields_bind fun _ => ?_
  refine yields_lift fun made => Entries.keeps_foldlM (fun s hs => ?_) hroot
  exact Entries.keeps_addSection (hsections s hs)

end Values

/-- A document that is read has tables without repeated keys, however deep they stand in it. -/
theorem distinct_of_parse {text : String} {entries : Table} (h : parse text = some entries) :
    (Value.table entries).Distinct := by
  obtain ⟨⟨made, rest⟩, hmade, rfl⟩ := Option.map_eq_some_iff.mp h
  exact yields_document hmade

/-- A dialect in whose documents a key stands for one value. -/
class LawfulDialect [Dialect] : Prop where
  distinct {text : String} {entries : Table} (h : Dialect.read? text = some entries) :
    (Value.table entries).Distinct

instance : LawfulDialect := ⟨distinct_of_parse⟩

end WasmBuild.Toml
