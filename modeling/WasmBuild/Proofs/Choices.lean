import Mathlib.Data.List.Chain
import WasmBuild.Proofs.Arguments
import WasmBuild.Proofs.Precedence

/-! The two switches for the optimization, given any number of times. Each undoes the other, so a
command line goes well as long as they take turns, and then the last one decides. -/

namespace WasmBuild

open CommandLine

namespace CommandLine

/-- The switch for the optimization, or the one against it. -/
def Switch.ofChoice (b : Bool) : Switch := if b then .optimize else .noOptimize

def Switch.choice? : Switch → Option Bool
  | optimize => some true
  | noOptimize => some false
  | _ => none

namespace Token

/-- What a token says about the optimization. -/
def choice? (t : Token) : Option Bool :=
  if t = ofString "--optimize" then some true
  else if t = ofString "--no-optimize" then some false
  else none

variable {t : Token} {b : Bool}

theorem form_of_choice (h : t.choice? = some b) :
    t.form = .long (ofString (Switch.ofChoice b).name) none := by
  unfold choice? at h
  split at h
  · next ht =>
    cases h
    rw [ht]
    decide
  split at h
  · next ht =>
    cases h
    rw [ht]
    decide
  · cases h

theorem eq_of_form {name : Token} (h : t.form = .long name none) : t = ofString "--" ++ name := by
  unfold form at h
  split at h
  · cases h
  · next rest _ =>
    obtain ⟨hname, hvalue⟩ := Form.long.inj h
    have hdrop : rest.dropWhile (· != .char '=') = [] := by
      cases hrest : rest.dropWhile (· != .char '=') with
      | nil => rfl
      | cons glyph value => simp [cut, hrest] at hvalue
    have hrest := List.takeWhile_append_dropWhile (p := (· != .char '=')) (l := rest)
    rw [hdrop, List.append_nil] at hrest
    rw [← hname, cut, hrest]
    rfl
  · cases h
  · cases h
  · cases h

theorem choice_of_form {s : Switch} (h : t.form = .long (ofString s.name) none) :
    t.choice? = s.choice? := by
  rw [eq_of_form h]
  cases s <;> decide

theorem choice_eq_none (h : ∀ b, t.form ≠ .long (ofString (Switch.ofChoice b).name) none) :
    t.choice? = none := by
  cases hb : t.choice? with
  | none => rfl
  | some b => exact absurd (form_of_choice hb) (h b)

theorem choice_of_isPlain (h : t.isPlain = true) : t.choice? = none := by
  refine choice_eq_none fun b hform => ?_
  simp [isPlain, hform] at h

theorem choice_of_setting {s : Setting} (h : t.form = .long (ofString s.name) none) :
    t.choice? = none := by
  refine choice_eq_none fun b hform => ?_
  have hname := (Form.long.inj (h.symm.trans hform)).1
  cases s <;> cases b <;> exact absurd hname (by decide)

end Token

/-- What is said about the optimization among the options, in order. -/
def choices (tokens : List Token) : List Bool :=
  (tokens.takeWhile (· ≠ .ofString "--")).filterMap Token.choice?

/-- A command line without what it says about the optimization. -/
def withoutChoices (tokens : List Token) : List Token :=
  (tokens.takeWhile (· ≠ .ofString "--")).filter (·.choice? = none) ++
    tokens.dropWhile (· ≠ .ofString "--")

/-- No switch for the optimization stands where another option waits for its value. -/
def Apart (tokens : List Token) : Prop :=
  (tokens.takeWhile (· ≠ .ofString "--")).IsChain fun t next =>
    t.awaitsValue = true → next.choice? = none

instance (tokens : List Token) : Decidable (Apart tokens) :=
  inferInstanceAs (Decidable (List.IsChain _ _))

section Cons

variable {t : Token} {rest rest' : List Token} {b : Bool}

theorem choices_separator (rest : List Token) : choices (.ofString "--" :: rest) = [] := by
  simp [choices]

theorem withoutChoices_separator (rest : List Token) :
    withoutChoices (.ofString "--" :: rest) = .ofString "--" :: rest := by
  simp [withoutChoices]

theorem apart_separator (rest : List Token) : Apart (.ofString "--" :: rest) := by
  simp [Apart]

theorem choices_cons (ht : t ≠ .ofString "--") :
    choices (t :: rest) = t.choice?.toList ++ choices rest := by
  rw [choices, List.takeWhile_cons_of_pos (by simpa using ht), List.filterMap_cons]
  cases t.choice? <;> rfl

theorem withoutChoices_choice (ht : t.choice? = some b) :
    withoutChoices (t :: rest) = withoutChoices rest := by
  have hne : t ≠ .ofString "--" := by
    rintro rfl
    cases ht
  simp [withoutChoices, hne, ht]

theorem withoutChoices_cons (ht : t.choice? = none) :
    withoutChoices (t :: rest) =
      if t = .ofString "--" then t :: rest else t :: withoutChoices rest := by
  split
  · next hseparator => rw [hseparator, withoutChoices_separator]
  · next hne => simp [withoutChoices, hne, ht]

theorem withoutChoices_eq_cons (h : withoutChoices rest = t :: rest')
    (hhead : ∀ next ∈ rest.head?, next.choice? = none) (ht : t ≠ .ofString "--") :
    ∃ more, rest = t :: more ∧ withoutChoices more = rest' := by
  cases rest with
  | nil => cases h
  | cons next more =>
    rw [withoutChoices_cons (hhead next rfl)] at h
    split at h
    · next hseparator => exact absurd ((List.cons.inj h).1.symm.trans hseparator) ht
    · obtain ⟨rfl, rfl⟩ := List.cons.inj h
      exact ⟨more, rfl, rfl⟩

theorem apart_cons (ht : t ≠ .ofString "--") :
    Apart (t :: rest) ↔
      (∀ next ∈ rest.head?, t.awaitsValue = true → next.choice? = none) ∧ Apart rest := by
  rw [Apart, Apart, List.takeWhile_cons_of_pos (by simpa using ht)]
  cases rest with
  | nil => simp
  | cons next rest =>
    by_cases hnext : next = .ofString "--"
    · have hnone : next.choice? = none := by rw [hnext]; decide
      simp [hnext ▸ hnone, hnext]
    · rw [List.takeWhile_cons_of_pos (by simpa using hnext), List.isChain_cons_cons]
      simp

end Cons

end CommandLine

namespace Request

/-- A request with a word on the optimization, or with none. -/
def choose (r : Request) (x : Option Bool) : Request :=
  { r with optimize := x = some true, noOptimize := x = some false }

variable {r : Request} {x : Option Bool}

theorem overrides_choose (r : Request) (x : Option Bool) : (r.choose x).overrides.optimize = x := by
  rcases x with _ | _ | _ <;> rfl

theorem not_both_choose (r : Request) (x : Option Bool) :
    ¬((r.choose x).optimize = true ∧ (r.choose x).noOptimize = true) := by
  rcases x with _ | _ | _ <;> simp [choose]

theorem receive_choose (r : Request) (x : Option Bool) (text : String) :
    (r.choose x).receive text = (r.receive text).choose x := by
  rw [receive, receive]
  change (if r.coverage = none then _ else _) = _
  split <;> rfl

end Request

namespace CommandLine

namespace Reading

variable {r r' : Request} {x : Option Bool} {b : Bool}

theorem assign_choose {s : Setting} {value : Token} (h : assign r s value = .ok r')
    (x : Option Bool) : assign (r.choose x) s value = .ok (r'.choose x) := by
  obtain ⟨hs, v, hv, rfl⟩ := assign_eq_ok_iff.mp h
  exact assign_eq_ok_iff.mpr ⟨hs, v, hv, rfl⟩

theorem turnOn_choose {s : Switch} (hs : s.choice? = none) (h : turnOn r s = .ok r')
    (x : Option Bool) : turnOn (r.choose x) s = .ok (r'.choose x) := by
  cases s with
  | optimize | noOptimize => cases hs
  | dryRun =>
    rw [turnOn] at h ⊢
    change (if r.dryRun = true then _ else _) = _
    split at h
    · cases h
    next hdryRun =>
    rw [if_neg hdryRun]
    cases h
    rfl
  | verbose =>
    cases h
    rfl
  | help | version => cases h

theorem turnOn_choice (r : Request) (x : Option Bool) (b : Bool) :
    turnOn (r.choose x) (.ofChoice b) =
      if x = some b then .error .argumentConflict else .ok (r.choose (some b)) := by
  rcases x with _ | _ | _ <;> cases b <;> rfl

theorem choose_of_turnOn (h : turnOn r (.ofChoice b) = .ok r') :
    r'.choose none = r.choose none := by
  cases b with
  | false | true =>
    rw [Switch.ofChoice] at h
    simp only [Bool.false_eq_true, if_false, if_true, turnOn] at h
    split at h
    · cases h
    · cases h
      rfl

theorem foldlM_turnOn_choose {ss : List Switch} (hss : ∀ s ∈ ss, s.choice? = none)
    (h : ss.foldlM turnOn r = .ok r') (x : Option Bool) :
    ss.foldlM turnOn (r.choose x) = .ok (r'.choose x) := by
  induction ss generalizing r with
  | nil =>
    cases h
    rfl
  | cons s ss ih =>
    obtain ⟨r₁, hs, h⟩ := foldlM_cons_eq_ok.mp h
    have hrest := ih (fun s hs => hss s (by simp [hs])) h
    exact foldlM_cons_eq_ok.mpr ⟨_, turnOn_choose (hss s (by simp)) hs x, hrest⟩

end Reading

theorem choice_of_switchesOf {shorts : Token} {ss : List Switch}
    (h : switchesOf shorts = ss.map some) : ∀ s ∈ ss, s.choice? = none := by
  intro s hs
  have hmem : some s ∈ switchesOf shorts := by
    rw [h]
    exact List.mem_map_of_mem hs
  obtain ⟨glyph, -, hglyph⟩ := List.mem_map.mp hmem
  obtain ⟨c, -, hc⟩ := Option.bind_eq_some_iff.mp hglyph
  unfold Reading.short? at hc
  split at hc <;> cases hc <;> rfl

section Arguments

variable {options : Bool} {r r' last : Request} {t : Token} {ts tokens rest : List Token}

theorem Sets.choose (h : Sets r ts r') (hts : ∀ t ∈ ts, t.choice? = none) (x : Option Bool) :
    Sets (r.choose x) ts (r'.choose x) := by
  cases h with
  | tied ht h => exact .tied ht (Reading.assign_choose h x)
  | apart ht hvalue h => exact .apart ht hvalue (Reading.assign_choose h x)
  | switch ht h =>
    have hs := (Token.choice_of_form ht).symm.trans (hts _ (by simp))
    exact .switch ht (Reading.turnOn_choose hs h x)
  | cluster ht hnumber hss h =>
    exact .cluster ht hnumber hss (Reading.foldlM_turnOn_choose (choice_of_switchesOf hss) h x)

theorem Sets.choice_cases (h : Sets r ts r') :
    (∃ t b, ts = [t] ∧ t.choice? = some b ∧ Reading.turnOn r (.ofChoice b) = .ok r') ∨
      ∀ t ∈ ts, t.choice? = none := by
  cases h with
  | @tied _ t _ _ ht =>
    have hnone : t.choice? = none := Token.choice_eq_none fun b hform => by simp [ht] at hform
    exact .inr (by simpa using hnone)
  | apart ht hvalue =>
    exact .inr (by simp [Token.choice_of_setting ht, Token.choice_of_isPlain hvalue])
  | @switch _ t s ht h =>
    have hchoice := Token.choice_of_form ht
    cases s with
    | optimize => exact .inl ⟨t, true, rfl, hchoice, h⟩
    | noOptimize => exact .inl ⟨t, false, rfl, hchoice, h⟩
    | dryRun | verbose | help | version =>
      replace hchoice : t.choice? = none := hchoice
      exact .inr (by simpa using hchoice)
  | @cluster _ t _ _ ht =>
    have hnone : t.choice? = none := Token.choice_eq_none fun b hform => by simp [ht] at hform
    exact .inr (by simpa using hnone)

theorem withoutChoices_append (h : Sets r ts r') (hts : ∀ t ∈ ts, t.choice? = none) :
    withoutChoices (ts ++ rest) = ts ++ withoutChoices rest := by
  have hseparator := h.not_separator
  clear h
  induction ts with
  | nil => rfl
  | cons t ts ih =>
    rw [List.cons_append, withoutChoices_cons (hts t (by simp)),
      if_neg (hseparator t (by simp)), List.cons_append,
      ih (fun t ht => hts t (by simp [ht])) fun t ht => hseparator t (by simp [ht])]

theorem apart_append (h : Sets r ts r') (hrest : Apart rest) : Apart (ts ++ rest) := by
  obtain ⟨t, -, hne, ⟨rfl, ht⟩ | ⟨value, rfl, -, hvalue⟩⟩ := h.tokens_cases
  · rw [List.singleton_append, apart_cons hne]
    exact ⟨fun next _ hawaits => by simp [ht] at hawaits, hrest⟩
  · rw [List.cons_append, List.singleton_append, apart_cons hne,
      apart_cons (Token.ne_separator hvalue)]
    refine ⟨fun next hnext _ => ?_, fun next _ hawaits => ?_, hrest⟩
    · obtain rfl : value = next := by simpa using hnext
      exact Token.choice_of_isPlain hvalue
    · rw [Token.awaitsValue_of_isPlain hvalue] at hawaits
      cases hawaits

theorem Reads.choose (h : Reads options r tokens last) (ho : options = false) (x : Option Bool) :
    Reads false (r.choose x) tokens (last.choose x) := by
  induction h with
  | done => exact .done
  | option | separator => cases ho
  | word ht htext _ ih =>
    refine .word nofun htext ?_
    rw [Request.receive_choose]
    exact ih ho

/-- What is said about the optimization can be left out of a command line that is understood. -/
theorem Reads.withoutChoices (h : Reads options r tokens last) (ho : options = true) :
    Reads true (r.choose none) (withoutChoices tokens) (last.choose none) ∧ Apart tokens := by
  induction h with
  | done => exact ⟨.done, .nil⟩
  | option h _ ih =>
    obtain ⟨hreads, hapart⟩ := ih rfl
    refine ⟨?_, apart_append h hapart⟩
    rcases h.choice_cases with ⟨t, b, rfl, hb, hturnOn⟩ | hts
    · rw [List.singleton_append, withoutChoices_choice hb, ← Reading.choose_of_turnOn hturnOn]
      exact hreads
    · rw [withoutChoices_append h hts]
      exact .option (h.choose hts none) hreads
  | separator ht hrest =>
    obtain rfl := Token.form_separator_iff.mp ht
    rw [withoutChoices_separator]
    exact ⟨.separator ht (hrest.choose rfl none), apart_separator _⟩
  | @word options r last t text rest ht htext _ ih =>
    obtain ⟨hreads, hapart⟩ := ih ho
    have hplain := ht ho
    have hne : t ≠ .ofString "--" := Token.ne_separator hplain
    rw [withoutChoices_cons (Token.choice_of_isPlain hplain), if_neg hne, apart_cons hne]
    refine ⟨.word (fun _ => hplain) htext ?_, fun next _ hawaits => ?_, hapart⟩
    · rw [Request.receive_choose]
      exact hreads
    · rw [Token.awaitsValue_of_isPlain hplain] at hawaits
      cases hawaits

theorem Reads.cons_cases (h : Reads true r (t :: rest) last) :
    (t.form = .separator ∧ Reads false r rest last) ∨
      (∃ text, t.isPlain = true ∧ t.text? = some text ∧ Reads true (r.receive text) rest last) ∨
      ∃ ts rest' r', t :: rest = ts ++ rest' ∧ Sets r ts r' ∧ Reads true r' rest' last := by
  generalize htokens : t :: rest = tokens at h
  generalize ho : true = options at h
  cases h with
  | done => cases htokens
  | option h hrest => exact .inr (.inr ⟨_, _, _, rfl, h, hrest⟩)
  | separator ht hrest =>
    cases htokens
    exact .inl ⟨ht, hrest⟩
  | word ht htext hrest =>
    cases htokens
    subst ho
    exact .inr (.inl ⟨_, ht rfl, htext, hrest⟩)

end Arguments

/-- What comes of a request by words on the optimization, which have to take turns. -/
def chosen (r : Request) (bs : List Bool) : Except Usage Request :=
  if bs.IsChain (· ≠ ·) then .ok (r.choose bs.getLast?) else .error .argumentConflict

section Chosen

variable {r : Request} {x : Option Bool} {b : Bool} {bs : List Bool}

theorem chosen_toList (r : Request) (x : Option Bool) : chosen r x.toList = .ok (r.choose x) := by
  cases x with
  | none => simp [chosen]
  | some b => simp [chosen]

theorem chosen_again (r : Request) (b : Bool) (bs : List Bool) :
    chosen r (b :: b :: bs) = .error .argumentConflict := by
  simp [chosen]

theorem chosen_turn (h : x ≠ some b) : chosen r (x.toList ++ b :: bs) = chosen r (b :: bs) := by
  cases x with
  | none => rfl
  | some b' =>
    have hne : b' ≠ b := fun hb => h (congrArg some hb)
    simp [chosen, hne]

end Chosen

namespace Reading

variable {q : Reading} {r last : Request} {x : Option Bool} {t : Token} {b : Bool}
  {tokens rest : List Token}

theorem finish_choice (hq : q.Settles (r.choose x)) (ht : t.choice? = some b) :
    q.finish true (t :: rest) =
      if x = some b then .error .argumentConflict
      else finish ⟨r.choose (some b), .nothing, q.covered⟩ true rest := by
  have hform := Token.form_of_choice ht
  rw [finish_option (by simp [hform]), takeOne, hform]
  dsimp only
  rw [takeLong_switch hq, turnOn_choice]
  by_cases hx : x = some b
  · rw [if_pos hx, if_pos hx]
    rfl
  · rw [if_neg hx, if_neg hx]
    rfl

theorem finish_of_choices_separator (hq : q.Settles (r.choose x))
    (h : Reads true r (.ofString "--" :: rest) last) :
    q.finish true (.ofString "--" :: rest) = .ok (last.choose x) := by
  rcases h.cons_cases with ⟨ht, hrest⟩ | ⟨text, hplain, -⟩ | ⟨ts, rest', r', hts, hsets, -⟩
  · rw [finish_separator ht]
    exact finish_of_reads (hrest.choose rfl x) hq
  · exact absurd rfl (Token.ne_separator hplain)
  · obtain ⟨t, -, hne, ⟨rfl, -⟩ | ⟨value, rfl, -⟩⟩ := hsets.tokens_cases
    · exact absurd (List.cons.inj hts).1.symm hne
    · exact absurd (List.cons.inj hts).1.symm hne

/-- An argument that says nothing about the optimization is read alike, whatever has been said. -/
theorem exists_next (h : Reads true r (withoutChoices (t :: rest)) last) (ht : t.choice? = none)
    (hseparator : t ≠ .ofString "--") (hapart : Apart (t :: rest)) :
    ∃ more r', more.length ≤ rest.length ∧ choices more = choices (t :: rest) ∧ Apart more ∧
      Reads true r' (withoutChoices more) last ∧
      ∀ (q : Reading) (x : Option Bool), q.Settles (r.choose x) →
        ∃ q' : Reading, q'.Settles (r'.choose x) ∧
          q.finish true (t :: rest) = q'.finish true more := by
  obtain ⟨hnext, hapart⟩ := (apart_cons hseparator).mp hapart
  have hchoices : choices rest = choices (t :: rest) := by rw [choices_cons hseparator, ht]; rfl
  rw [withoutChoices_cons ht, if_neg hseparator] at h
  rcases h.cons_cases with ⟨hform, -⟩ | ⟨text, hplain, htext, hreads⟩ |
    ⟨ts, rest', r', hts, hsets, hreads⟩
  · exact absurd (Token.form_separator_iff.mp hform) hseparator
  · refine ⟨rest, r.receive text, Nat.le_refl _, hchoices, hapart, hreads, fun q x hq => ?_⟩
    obtain ⟨q', htake, hq'⟩ := take_text hq htext
    rw [Request.receive_choose] at hq'
    rw [finish_plain hq.not_awaiting fun _ => hplain, htake]
    exact ⟨q', hq', rfl⟩
  obtain ⟨t', -, -, ⟨rfl, -⟩ | ⟨value, rfl, hawaits, hvalue⟩⟩ := hsets.tokens_cases
  · obtain ⟨rfl, rfl⟩ := List.cons.inj hts
    refine ⟨rest, r', Nat.le_refl _, hchoices, hapart, hreads, fun q x hq => ?_⟩
    obtain ⟨q', hq', hfinish⟩ := finish_of_sets hq (hsets.choose (by simpa using ht) x)
    exact ⟨q', hq', hfinish rest⟩
  · -- no switch stands between the option and its value, so the value is the next token
    obtain ⟨rfl, hwithout⟩ := List.cons.inj hts
    have hne : value ≠ .ofString "--" := Token.ne_separator hvalue
    have hnone : value.choice? = none := Token.choice_of_isPlain hvalue
    obtain ⟨more, rfl, rfl⟩ :=
      withoutChoices_eq_cons hwithout (fun next hm => hnext next hm hawaits) hne
    have hmore : choices more = choices (value :: more) := by rw [choices_cons hne, hnone]; rfl
    refine ⟨more, r', Nat.le_succ _, hmore.trans hchoices, ((apart_cons hne).mp hapart).2, hreads,
      fun q x hq => ?_⟩
    have hboth : ∀ t' ∈ [t, value], t'.choice? = none := by simp [ht, hnone]
    obtain ⟨q', hq', hfinish⟩ := finish_of_sets hq (hsets.choose hboth x)
    exact ⟨q', hq', hfinish more⟩

/-- Where the rest of a command line is understood, the words on the optimization alone decide. -/
theorem finish_of_choices (hq : q.Settles (r.choose x))
    (h : Reads true r (withoutChoices tokens) last) (hapart : Apart tokens) :
    q.finish true tokens = chosen last (x.toList ++ choices tokens) := by
  -- an option may take the next token with it, so the induction is on the length
  induction hlength : tokens.length using Nat.strongRecOn generalizing tokens q r x with
  | ind n ih =>
  cases tokens with
  | nil =>
    have hlast := finish_of_reads h (q := ⟨r, .nothing, r.coverage.isSome⟩) ⟨rfl, rfl⟩
    obtain rfl : r = last := Except.ok.inj hlast
    rw [finish_nil, hq.request]
    simpa [choices] using (chosen_toList r x).symm
  | cons t rest =>
    have hlt : rest.length < n := by rw [← hlength]; exact Nat.lt_succ_self _
    by_cases hseparator : t = .ofString "--"
    · rw [hseparator, withoutChoices_separator] at h
      rw [hseparator, finish_of_choices_separator hq h, choices_separator, List.append_nil,
        chosen_toList]
    cases hchoice : t.choice? with
    | none =>
      obtain ⟨more, r', hle, hmore, hapart, hreads, hfinish⟩ :=
        exists_next h hchoice hseparator hapart
      obtain ⟨q', hq', hfinish⟩ := hfinish q x hq
      rw [hfinish, ← hmore]
      exact ih more.length (Nat.lt_of_le_of_lt hle hlt) hq' hreads hapart rfl
    | some b =>
      rw [withoutChoices_choice hchoice] at h
      rw [finish_choice hq hchoice, choices_cons hseparator, hchoice, Option.toList_some,
        List.singleton_append]
      by_cases hx : x = some b
      · rw [if_pos hx, hx, Option.toList_some, List.singleton_append, chosen_again]
      · have hapart' : Apart rest := ((apart_cons hseparator).mp hapart).2
        have hnext : Settles ⟨r.choose (some b), .nothing, q.covered⟩ (r.choose (some b)) :=
          hq.next rfl
        rw [if_neg hx, ih rest.length hlt hnext h hapart' rfl, chosen_turn hx]
        rfl

end Reading

theorem isChain_ne_iff {bs : List Bool} : bs.IsChain (· ≠ ·) ↔ ∀ b, ¬[b, b] <:+: bs := by
  rw [List.isChain_iff_forall_rel_of_append_cons_cons]
  constructor
  · rintro h b ⟨first, last, hbs⟩
    have hsplit : bs = first ++ b :: b :: last := by simp [← hbs]
    exact h hsplit rfl
  · rintro h b b' first last rfl rfl
    exact h b ⟨first, last, by simp⟩

section Parse

variable {tokens : List Token} {r : Request}

theorem parse_of_choices (h : parse (withoutChoices tokens) = .ok r) (hapart : Apart tokens) :
    parse tokens = chosen r (choices tokens) :=
  Reading.finish_of_choices (r := .empty) (x := none) Reading.settles_start
    (parse_eq_ok_iff.mp h) hapart

theorem eq_choose_of_parse (h : parse tokens = .ok r) :
    r = (r.choose none).choose (choices tokens).getLast? := by
  obtain ⟨hreads, hapart⟩ := (parse_eq_ok_iff.mp h).withoutChoices rfl
  have hchosen := (parse_of_choices (parse_eq_ok_iff.mpr hreads) hapart).symm.trans h
  rw [chosen] at hchosen
  split at hchosen
  · exact (Except.ok.inj hchosen).symm
  · cases hchosen

theorem enabled_of_resolve [Toml.Dialect] {d : Disk} {project : Path} {o : Overrides}
    {env : Environment} {cfg : Config} (h : Config.resolve d project o env = .ok cfg) :
    ∃ m, Config.manifestFor d project o = .ok m ∧
      cfg.optimize.enabled =
        o.optimize.getD ((m.optimize.map OptimizeSection.enabled).getD false) := by
  obtain ⟨m, hm, hsettle⟩ := Config.resolve_eq_ok_iff.mp h
  obtain ⟨flags, artifact, -, -, hcfg⟩ := Config.settle_eq_ok_iff.mp hsettle
  have hoptimize : cfg.optimize = Config.optimizeFor o m := by rw [hcfg]
  refine ⟨m, hm, ?_⟩
  rw [hoptimize, Config.enabled_optimizeFor, Config.firstOf_pair]
  cases o.optimize <;> rfl

/-- In a command line that is understood, the last word on the optimization decides, and where
there is none the manifest does. Put between the arguments of a command line that is understood,
words on the optimization are at fault exactly when one comes twice without the other in between. -/
theorem last_choice_decides [Toml.Dialect] (tokens : List Token) :
    (∀ r, parse tokens = .ok r →
      r.overrides.optimize = (choices tokens).getLast? ∧
      ¬(r.optimize = true ∧ r.noOptimize = true) ∧
      ∀ (d : Disk) (project : Path) (env : Environment) (cfg : Config),
        Config.resolve d project r.overrides env = .ok cfg →
        ∃ m, Config.manifestFor d project r.overrides = .ok m ∧
          cfg.optimize.enabled = (choices tokens).getLast?.getD
            ((m.optimize.map OptimizeSection.enabled).getD false)) ∧
    ∀ r, parse (withoutChoices tokens) = .ok r → Apart tokens →
      ((∃ b, [b, b] <:+: choices tokens) → parse tokens = .error .argumentConflict) ∧
      ((¬∃ b, [b, b] <:+: choices tokens) →
        parse tokens = .ok (r.choose (choices tokens).getLast?)) := by
  refine ⟨fun r h => ?_, fun r h hapart => ?_⟩
  · have hr := eq_choose_of_parse h
    have hoptimize : r.overrides.optimize = (choices tokens).getLast? :=
      (congrArg (fun r => r.overrides.optimize) hr).trans (Request.overrides_choose _ _)
    refine ⟨hoptimize, hr ▸ Request.not_both_choose _ _, fun d project env cfg hcfg => ?_⟩
    rw [← hoptimize]
    exact enabled_of_resolve hcfg
  · rw [parse_of_choices h hapart, chosen]
    have hchain : (choices tokens).IsChain (· ≠ ·) ↔ ¬∃ b, [b, b] <:+: choices tokens :=
      isChain_ne_iff.trans not_exists.symm
    exact ⟨fun htwice => if_neg fun h => hchain.mp h htwice,
      fun hturns => if_pos (hchain.mpr hturns)⟩

/-- Three words that take turns around another option, and a fourth that is one too many. -/
theorem last_choice_decides_sample :
    let tokens := ["--optimize", "--artifact", "a", "--no-optimize", "--optimize", "--",
      "--no-optimize"].map Token.ofString
    let r : Request := { Request.empty with
      coverage := some "--no-optimize", value := fun s => if s = .artifact then some "a" else none }
    let d : Disk := ⟨FileSystem.empty, []⟩
    parse tokens = .ok (r.choose (some true)) ∧
      (∃ cfg, Config.resolve d ⟨"/p"⟩ (r.choose (some true)).overrides ⟨[]⟩ = .ok cfg ∧
        cfg.optimize.enabled = true) ∧
      parse (.ofString "--optimize" :: tokens) = .error .argumentConflict := by
  intro tokens r d
  have hothers : parse (withoutChoices tokens) = .ok r := rfl
  have hothers' : parse (withoutChoices (.ofString "--optimize" :: tokens)) = .ok r := rfl
  have hchoices : choices tokens = [true, false, true] := by decide +kernel
  have hturns : ¬∃ b, [b, b] <:+: choices tokens := by
    rw [hchoices]
    decide
  have htwice : ∃ b, [b, b] <:+: choices (.ofString "--optimize" :: tokens) :=
    ⟨true, [], [false, true], by decide +kernel⟩
  have hparse := ((last_choice_decides tokens).2 r hothers (by decide +kernel)).2 hturns
  rw [hchoices] at hparse
  have hresolved :
      (Config.resolve d ⟨"/p"⟩ (r.choose (some true)).overrides ⟨[]⟩).toOption.isSome := by
    decide +kernel
  refine ⟨hparse, ?_, ((last_choice_decides _).2 r hothers' (by decide +kernel)).1 htwice⟩
  cases hcfg : Config.resolve d ⟨"/p"⟩ (r.choose (some true)).overrides ⟨[]⟩ with
  | error e => simp [hcfg, Except.toOption] at hresolved
  | ok cfg =>
    obtain ⟨-, -, henabled⟩ := (last_choice_decides tokens).1 _ hparse
    obtain ⟨m, -, hcfg'⟩ := henabled d ⟨"/p"⟩ ⟨[]⟩ cfg hcfg
    rw [hchoices] at hcfg'
    exact ⟨cfg, rfl, hcfg'⟩

end Parse

end CommandLine

end WasmBuild
